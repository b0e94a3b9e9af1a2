import AccelFirmware.Proofs.TomlDocuments

/-!
# What stays in a tree

A tree of tables only grows: an expression that is added changes no value that is there. So the values of the first lines of a
document are found in its tree, whatever comes behind them.
-/

namespace AccelFirmware.Toml

/-- A value at the end of a path of tables. -/
def Node.Holds (d : Datum) : List String → Node → Prop
  | [], n => n = .value d
  | key :: path, n => ∃ origin entries next, n = .table origin entries ∧ entries.lookup key = some next ∧ next.Holds d path

/-- All values that one node holds are in the other. -/
def Node.Within (n n' : Node) : Prop := ∀ d path, n.Holds d path → n'.Holds d path

section
variable {key : String} {node : Node} {entries : Entries} {origin origin' : TableOrigin}

theorem lookup_setEntry (key other : String) (node : Node) (entries : Entries) :
    (setEntry key node entries).lookup other = if other = key then some node else entries.lookup other := by
  induction entries with
  | nil => simp [setEntry, lookup_cons_eq]
  | cons e entries ih =>
    obtain ⟨k, n⟩ := e
    rw [setEntry]
    split
    · rename_i hkey
      subst hkey
      simp only [lookup_cons_eq]
      split <;> rfl
    · rename_i hkey
      simp only [lookup_cons_eq, ih]
      by_cases hother : other = k
      · simp [hother, hkey]
      · simp [hother]

namespace Node.Within

theorem refl (n : Node) : n.Within n := fun _ _ h => h

theorem trans {n n' n'' : Node} (h : n.Within n') (h' : n'.Within n'') : n.Within n'' := fun d path hn => h' d path (h d path hn)

/-- A table in which one entry has been set. -/
theorem setEntry (h : ∀ n, entries.lookup key = some n → n.Within node) :
    (Node.table origin entries).Within (.table origin' (setEntry key node entries)) := by
  rintro d (_ | ⟨first, path⟩) hholds
  · cases hholds
  · obtain ⟨_, _, next, hsame, hlookup, hnext⟩ := hholds
    cases hsame
    by_cases hkey : first = key
    · subst hkey
      exact ⟨_, _, node, rfl, by rw [lookup_setEntry, if_pos rfl], h next hlookup d path hnext⟩
    · exact ⟨_, _, next, rfl, by rw [lookup_setEntry, if_neg hkey, hlookup], hnext⟩

theorem setEntry_new (h : entries.lookup key = none) :
    (Node.table origin entries).Within (.table origin' (Toml.setEntry key node entries)) :=
  setEntry fun n hn => by rw [h] at hn; cases hn

theorem setEntry_same {n : Node} (h : entries.lookup key = some n) (hn : n.Within node) :
    (Node.table origin entries).Within (.table origin' (Toml.setEntry key node entries)) :=
  setEntry fun m hm => by rw [h] at hm; cases hm; exact hn

/-- A list of tables holds no values on a path. -/
theorem tables {items : List Entries} (n : Node) : (Node.tables items).Within n := by
  rintro d (_ | ⟨key, path⟩) hholds
  · cases hholds
  · obtain ⟨_, _, _, hsame, -⟩ := hholds
    cases hsame

theorem changeOrigin : (Node.table origin entries).Within (.table origin' entries) := by
  rintro d (_ | ⟨key, path⟩) hholds
  · cases hholds
  · obtain ⟨_, _, next, hsame, hrest⟩ := hholds
    cases hsame
    exact ⟨_, _, next, rfl, hrest⟩

end Node.Within

end

/-! ## Adding to a tree -/

section
variable {f : Entries → Option Entries}

/-- The function changes the entries of a table in such a way that all values stay. -/
def Extends (f : Entries → Option Entries) : Prop :=
  ∀ entries entries' origin origin', f entries = some entries' → (Node.table origin entries).Within (.table origin' entries')

theorem extends_openTable (key : String) : Extends (openTable key) := by
  intro entries entries' origin origin' h
  rw [openTable] at h
  split at h
  · rename_i hnone
    cases h
    exact .setEntry_new hnone
  · rename_i inner hlookup
    cases h
    exact .setEntry_same hlookup .changeOrigin
  · cases h

theorem extends_openItem (key : String) : Extends (openItem key) := by
  intro entries entries' origin origin' h
  rw [openItem] at h
  split at h
  · rename_i hnone
    cases h
    exact .setEntry_new hnone
  · rename_i items hlookup
    cases h
    exact .setEntry_same hlookup (.tables _)
  · cases h

theorem extends_putKey (key : String) (d : Datum) : Extends (putKey key d) := by
  intro entries entries' origin origin' h
  rw [putKey] at h
  split at h
  · rename_i hnone
    cases h
    exact .setEntry_new hnone
  · cases h

theorem extends_putDotted (key : String) (d : Datum) (path : List String) (final : Bool) : Extends (putDotted key d path final) := by
  intro entries entries' origin origin' h
  induction path generalizing final entries entries' origin origin' with
  | nil =>
    rw [putDotted] at h
    split at h
    · exact extends_putKey key d _ _ _ _ h
    · cases h
  | cons k path ih =>
    rw [putDotted] at h
    split at h
    · rename_i hnone
      obtain ⟨inner, -, rfl⟩ := Option.map_eq_some_iff.1 h
      exact .setEntry_new hnone
    · cases h
    · cases h
    · rename_i hlookup
      obtain ⟨inner, hinner, rfl⟩ := Option.map_eq_some_iff.1 h
      exact .setEntry_same hlookup (ih _ _ _ _ _ hinner)
    · rename_i hlookup
      obtain ⟨items, -, rfl⟩ := Option.map_eq_some_iff.1 h
      exact .setEntry_same hlookup (.tables _)

/-- What changes the table at the end of a path so that values stay does so to the whole tree. -/
theorem extends_atHeader (h : Extends f) (path : List String) : Extends (atHeader f path) := by
  intro entries entries' origin origin' hf
  induction path generalizing entries entries' origin origin' with
  | nil => exact h _ _ _ _ hf
  | cons key path ih =>
    rw [atHeader] at hf
    split at hf
    · rename_i hnone
      obtain ⟨inner, -, rfl⟩ := Option.map_eq_some_iff.1 hf
      exact .setEntry_new hnone
    · cases hf
    · rename_i hlookup
      obtain ⟨inner, hinner, rfl⟩ := Option.map_eq_some_iff.1 hf
      exact .setEntry_same hlookup (ih _ _ _ _ hinner)
    · rename_i hlookup
      obtain ⟨items, -, rfl⟩ := Option.map_eq_some_iff.1 hf
      exact .setEntry_same hlookup (.tables _)

/-- The tree of a draft. -/
def Draft.tree (t : Draft) : Node := .table .header t.root

theorem Draft.within_add {t t' : Draft} {e : Expression} (h : t.add e = some t') : t.tree.Within t'.tree := by
  cases e with
  | header k =>
    obtain ⟨root, hroot, ht'⟩ := Option.bind_eq_some_iff.1 h
    cases ht'
    exact extends_atHeader (extends_openTable k.last) k.path _ _ _ _ hroot
  | itemHeader k =>
    obtain ⟨root, hroot, ht'⟩ := Option.bind_eq_some_iff.1 h
    cases ht'
    exact extends_atHeader (extends_openItem k.last) k.path _ _ _ _ hroot
  | entry k d =>
    obtain ⟨root, hroot, ht'⟩ := Option.bind_eq_some_iff.1 h
    cases ht'
    exact extends_atHeader (extends_putDotted k.last d k.path true) t.current _ _ _ _ hroot

theorem Draft.within_foldlM {t t' : Draft} {es : List Expression} (h : es.foldlM Draft.add t = some t') :
    t.tree.Within t'.tree := by
  induction es generalizing t with
  | nil =>
    cases h
    exact .refl _
  | cons e es ih =>
    obtain ⟨next, hnext, hrest⟩ := Option.bind_eq_some_iff.1 h
    exact (Draft.within_add hnext).trans (ih hrest)

end

/-! ## Values as data -/

theorem lookup_entriesDatum (entries : Entries) (key : String) :
    (entriesDatum entries).lookup key = (entries.lookup key).map Node.datum := by
  induction entries with
  | nil => simp [entriesDatum]
  | cons e entries ih =>
    obtain ⟨k, n⟩ := e
    rw [entriesDatum, lookup_cons_eq, lookup_cons_eq, ih]
    split <;> rfl

/-- A value in a table of the document is found under its two keys. -/
theorem lookup_of_holds {root : Entries} {table key : String} {d : Datum} (h : (Node.table .header root).Holds d [table, key]) :
    ∃ inner, (entriesDatum root).lookup table = some (.record inner) ∧ inner.lookup key = some d := by
  obtain ⟨_, _, next, hroot, htable, _, entries, _, rfl, hkey, rfl⟩ := h
  cases hroot
  refine ⟨entriesDatum entries, ?_, ?_⟩
  · rw [lookup_entriesDatum, htable]
    simp [Node.datum]
  · rw [lookup_entriesDatum, hkey]
    simp [Node.datum]

theorem foldlM_first (table key : String) (v : Datum) (es : List Expression) :
    (.header ⟨[], table⟩ :: .entry ⟨[], key⟩ v :: es).foldlM Draft.add ⟨[], []⟩ =
      es.foldlM Draft.add ⟨[(table, .table .header [(key, .value v)])], [table]⟩ := by
  simp [Draft.add, atHeader, openTable, put, putDotted, putKey, setEntry]

theorem holds_first (table key : String) (v : Datum) :
    (Node.table .header [(table, .table .header [(key, .value v)])]).Holds v [table, key] :=
  ⟨_, _, _, rfl, List.lookup_cons_self, _, _, _, rfl, List.lookup_cons_self, rfl⟩

/-- The first value of the first table of a document is found in it, whatever the other lines say. -/
theorem parse_first {table key text : String} {c : Char} {more : List Char} {d : Datum} (htable : Bare table) (hkey : Bare key)
    (hblank : c ≠ ' ') (htab : c ≠ '\t')
    (htext : text.toList = '[' :: ((table.toList ++ [']']) ++ '\n' :: (key.toList ++ ' ' :: '=' :: ' ' :: c :: more)))
    (h : parse text = some d) : ∃ fuel v rest entries inner, value 0 (fuel + 1) (c :: more) = some (v, rest) ∧
      d = .record entries ∧ entries.lookup table = some (.record inner) ∧ inner.lookup key = some v := by
  obtain ⟨es, hes, htree⟩ := Option.bind_eq_some_iff.1 h
  have hmark : dropMark text.toList = text.toList := by
    rw [htext]
    rfl
  obtain ⟨fuel, hfuel⟩ : ∃ n, text.toList.length = n + 2 := by
    rw [htext]
    exact ⟨(table.toList.length + key.toList.length + more.length + 5), by simp; omega⟩
  obtain ⟨first, letters, hletters, hfirst⟩ := hkey.head
  rw [hmark, hfuel, htext, expressions_line (Or.inl rfl), expression_header htable, Option.bind_some] at hes
  obtain ⟨later, hlater, rfl⟩ := Option.map_eq_some_iff.1 hes
  have hentry := expression_entry hkey hblank htab fuel more
  rw [hletters, List.cons_append] at hlater hentry
  rw [expressions_line (Or.inr hfirst), hentry] at hlater
  obtain ⟨⟨e, cs⟩, hline, hothers⟩ := Option.bind_eq_some_iff.1 hlater
  obtain ⟨⟨v, rest⟩, hvalue, htail⟩ := Option.bind_eq_some_iff.1 hline
  obtain ⟨_, -, hpair⟩ := Option.map_eq_some_iff.1 htail
  obtain ⟨others, -, rfl⟩ := Option.map_eq_some_iff.1 hothers
  obtain rfl : .entry ⟨[], key⟩ v = e := (Prod.mk.inj hpair).1
  obtain ⟨t, ht, hd⟩ := Option.bind_eq_some_iff.1 htree
  rw [foldlM_first] at ht
  obtain ⟨inner, htables, hkeys⟩ := lookup_of_holds (Draft.within_foldlM ht v [table, key] (holds_first table key v))
  exact ⟨fuel, v, rest, _, inner, hvalue, (Option.some.inj hd).symm, htables, hkeys⟩

end AccelFirmware.Toml
