import AccelFirmware.Proofs.Decoding
import AccelFirmware.Proofs.TomlValues
import Mathlib.Data.List.TakeDrop

/-!
# Printed documents read back

A printed document is read line by line as the expressions that its entries stand for, whatever fuel is left over. The expressions
build a tree in which the plain entries of the document come first and its tables follow, each with its own plain entries.
-/

namespace AccelFirmware.Toml

/-! ## Keys -/

/-- Keys that are written without quotes. -/
def Bare (key : String) : Prop :=
  key.toList ≠ [] ∧ key.toList.all isBareKeyChar = true

instance (key : String) : Decidable (Bare key) := inferInstanceAs (Decidable (_ ∧ _))

theorem skipSpace_of_ne {c : Char} (hblank : c ≠ ' ') (htab : c ≠ '\t') (cs : List Char) : skipSpace (c :: cs) = c :: cs := by
  simp [skipSpace, isSpace, hblank, htab]

theorem Bare.chars {key : String} (h : Bare key) : ∀ c ∈ key.toList, isBareKeyChar c = true :=
  List.all_eq_true.1 h.2

theorem Bare.head {key : String} (h : Bare key) : ∃ c cs, key.toList = c :: cs ∧ isBareKeyChar c = true := by
  obtain ⟨c, cs, hkey⟩ := List.exists_cons_of_ne_nil h.1
  exact ⟨c, cs, hkey, h.chars c (hkey ▸ List.mem_cons_self)⟩

theorem simpleKey_bare {name : String} (h : Bare name) {stop : Char} (hstop : isBareKeyChar stop = false) (rest : List Char) :
    simpleKey (name.toList ++ stop :: rest) = some (name, stop :: rest) := by
  obtain ⟨c, cs, hname, hc⟩ := h.head
  have hspan : (name.toList ++ stop :: rest).span isBareKeyChar = (name.toList, stop :: rest) := by
    rw [List.span_eq_takeWhile_dropWhile, List.takeWhile_append_of_pos h.chars,
      List.dropWhile_append_of_pos h.chars]
    simp [hstop]
  have hdouble : c ≠ '"' := ne_of_test hc (by decide)
  have hsingle : c ≠ '\x27' := ne_of_test hc (by decide)
  have htext : String.ofList (c :: cs) = name := by rw [← hname, String.ofList_toList]
  rw [hname] at hspan ⊢
  rw [List.cons_append] at hspan ⊢
  rw [simpleKey.eq_3 _ (by simp [hdouble]) (by simp [hsingle]), hspan, ← htext]

/-- A key is read up to what follows the space behind it. -/
theorem key_bare {name : String} (h : Bare name) (stop : Char) (rest : List Char) (hstop : isBareKeyChar stop = false)
    {c : Char} {after : List Char} (hafter : skipSpace (stop :: rest) = c :: after) (hdot : c ≠ '.') (fuel : Nat) :
    key (fuel + 1) (name.toList ++ stop :: rest) = some (⟨[], name⟩, c :: after) := by
  have hread := simpleKey_bare h hstop rest
  obtain ⟨d, ds, hname, hd⟩ := h.head
  have hskip : skipSpace (name.toList ++ stop :: rest) = name.toList ++ stop :: rest := by
    rw [hname]
    exact skipSpace_of_ne (ne_of_test hd (by decide)) (ne_of_test hd (by decide)) _
  simp [key, keyParts, hskip, hread, hafter, hdot, depthLimit]

/-! ## Lines -/

section
variable {name : String}

/-- A line that starts with a header or a key is read as one expression. -/
theorem expressions_line {c : Char} (hc : c = '[' ∨ isBareKeyChar c = true) (fuel : Nat) (text : List Char) :
    expressions (fuel + 1) (c :: text) =
      (expression fuel (c :: text)).bind fun (e, cs) => (expressions fuel cs).map (e :: ·) := by
  have hne {d : Char} (hd : d ≠ '[' ∧ isBareKeyChar d = false) : c ≠ d := by
    rcases hc with rfl | hc
    · exact hd.1.symm
    · exact ne_of_test hc hd.2
  have hcomment : c ≠ '#' := hne (by decide)
  have hline : c ≠ '\n' ∧ c ≠ '\r' := ⟨hne (by decide), hne (by decide)⟩
  have hskip := skipSpace_of_ne (hne (by decide) : c ≠ ' ') (hne (by decide) : c ≠ '\t') text
  rw [expressions]
  simp only [hskip]
  split <;> simp_all [Option.map_eq_bind]

theorem expression_header (hname : Bare name) (fuel : Nat) (cs : List Char) :
    expression (fuel + 1) ('[' :: ((name.toList ++ [']']) ++ '\n' :: cs)) = some (.header ⟨[], name⟩, cs) := by
  have hkey := key_bare hname ']' ('\n' :: cs) (by decide) rfl (by decide) fuel
  obtain ⟨c, text, htext, hc⟩ := hname.head
  have hopen : c ≠ '[' := ne_of_test hc (by decide)
  rw [List.append_assoc, List.singleton_append]
  rw [htext, List.cons_append] at hkey ⊢
  rw [expression.eq_2 _ _ (by simp [hopen]), hkey]
  rfl

/-- Behind a key comes a value, and then the end of the line. -/
theorem expression_entry (hname : Bare name) {c : Char} (hblank : c ≠ ' ') (htab : c ≠ '\t') (fuel : Nat) (text : List Char) :
    expression (fuel + 1) (name.toList ++ ' ' :: '=' :: ' ' :: c :: text) = (value 0 (fuel + 1) (c :: text)).bind fun (d, cs) =>
      (lineTail cs).map fun cs => (.entry ⟨[], name⟩ d, cs) := by
  have hkey := key_bare hname ' ' ('=' :: ' ' :: c :: text) (by decide) rfl (by decide) fuel
  have hskip : skipSpace (' ' :: c :: text) = c :: text := skipSpace_of_ne hblank htab text
  obtain ⟨d, more, hletters, hd⟩ := hname.head
  have hopen : d ≠ '[' := ne_of_test hd (by decide)
  rw [hletters] at hkey
  rw [hletters, List.cons_append, expression.eq_3 _ _ (by simp [hopen]) (by simp [hopen]), ← List.cons_append, hkey]
  simp [expect, hskip, Option.map_eq_bind]

end

/-- A text that is read as some expressions, and has no mark in front that would be skipped. -/
structure Reads (cs : List Char) (es : List Expression) : Prop where
  lines : ∀ fuel, cs.length < fuel → expressions fuel cs = some es
  unmarked : dropMark cs = cs

namespace Reads

variable {cs : List Char} {es : List Expression}

theorem nil : Reads [] [] where
  lines
    | 0, h => absurd h (by simp)
    | _ + 1, _ => rfl
  unmarked := rfl

theorem blank (h : Reads cs es) : Reads ('\n' :: cs) es where
  lines
    | 0, hfuel => absurd hfuel (by simp)
    | fuel + 1, hfuel => by
        rw [expressions]
        exact h.lines fuel (by simpa using hfuel)
  unmarked := rfl

/-- A line is read as the expression on it. -/
theorem line {c : Char} {text : List Char} {e : Expression} (h : Reads cs es)
    (hc : c = '[' ∨ isBareKeyChar c = true)
    (he : ∀ fuel, text.length ≤ fuel → expression (fuel + 1) (c :: (text ++ '\n' :: cs)) = some (e, cs)) :
    Reads (c :: (text ++ '\n' :: cs)) (e :: es) := by
  have hmark : c ≠ '\ufeff' := by
    rcases hc with rfl | hc
    · decide
    · exact ne_of_test hc (by decide)
  refine ⟨fun fuel hfuel => ?_, by simp [dropMark, hmark]⟩
  simp only [List.length_cons, List.length_append] at hfuel
  -- One step of fuel goes to the line and one to what is on it; the line itself is at least that long.
  obtain ⟨fuel, rfl⟩ : ∃ n, fuel = n + 2 := ⟨fuel - 2, by omega⟩
  have hrest : expressions (fuel + 1) cs = some es := h.lines _ (by omega)
  rw [expressions_line hc, he fuel (by omega)]
  exact congrArg (Option.map (e :: ·)) hrest

theorem header {name : String} (hname : Bare name) (h : Reads cs es) :
    Reads (("[" ++ name ++ "]\n").toList ++ cs) (.header ⟨[], name⟩ :: es) := by
  have hline : ("[" ++ name ++ "]\n").toList ++ cs = '[' :: ((name.toList ++ [']']) ++ '\n' :: cs) := by simp
  rw [hline]
  exact h.line (Or.inl rfl) fun fuel _ => expression_header hname fuel cs

/-- A key with a value that is read up to the end of its line. -/
theorem entryOf {name : String} (hname : Bare name) {d : Datum} {text : String} {c : Char} {more : List Char}
    (htext : text.toList = c :: more) (hblank : c ≠ ' ') (htab : c ≠ '\t')
    (hvalue : ∀ fuel, text.toList.length ≤ fuel → value 0 (fuel + 1) (text.toList ++ '\n' :: cs) = some (d, '\n' :: cs))
    (h : Reads cs es) : Reads ((name ++ " = " ++ text ++ "\n").toList ++ cs) (.entry ⟨[], name⟩ d :: es) := by
  have hline : (name ++ " = " ++ text ++ "\n").toList ++ cs =
      name.toList ++ ' ' :: '=' :: ' ' :: (text.toList ++ '\n' :: cs) := by simp
  obtain ⟨first, letters, hletters, hfirst⟩ := hname.head
  have hshape : name.toList ++ ' ' :: '=' :: ' ' :: (text.toList ++ '\n' :: cs) =
      first :: ((letters ++ ' ' :: '=' :: ' ' :: text.toList) ++ '\n' :: cs) := by simp [hletters]
  rw [hline, hshape]
  refine h.line (Or.inr hfirst) fun fuel hfuel => ?_
  simp only [List.length_append, List.length_cons] at hfuel
  have hread := hvalue fuel (by omega)
  rw [← hshape]
  rw [htext, List.cons_append] at hread ⊢
  rw [expression_entry hname hblank htab, hread]
  rfl

theorem entry {name : String} (hname : Bare name) {d : Datum} {text : String} (hd : plain? d = some text)
    (hrange : InRange d) (h : Reads cs es) :
    Reads ((name ++ " = " ++ text ++ "\n").toList ++ cs) (.entry ⟨[], name⟩ d :: es) := by
  obtain ⟨c, more, htext, hblank, htab⟩ := plain_head hd
  exact h.entryOf hname htext hblank htab fun fuel _ => value_plain hd hrange fuel cs

end Reads

/-! ## Entries -/

def plainEntries (entries : List (String × Datum)) : List (String × Datum) :=
  entries.filter fun e => (plain? e.2).isSome

def tables (entries : List (String × Datum)) : List (String × List (String × Datum)) :=
  entries.filterMap fun
    | (name, .record inner) => some (name, inner)
    | _ => none

/-- The entries that are read from the text of some entries. -/
def written (entries : List (String × Datum)) : List (String × Datum) :=
  plainEntries entries ++ (tables entries).map fun t => (t.1, .record (plainEntries t.2))

/-- Entries with different keys, none of which needs quotes, and with integers of 64 bits. -/
structure Flat (entries : List (String × Datum)) : Prop where
  bare : ∀ e ∈ entries, Bare e.1
  inRange : ∀ e ∈ entries, InRange e.2
  distinct : (entries.map Prod.fst).Nodup

/-- Such entries whose tables have such entries too. -/
structure Printable (entries : List (String × Datum)) : Prop extends Flat entries where
  inner : ∀ name others, (name, .record others) ∈ entries → Flat others

/-! ## Expressions of a document -/

def entryExpressions (entries : List (String × Datum)) : List Expression :=
  (plainEntries entries).map fun e => .entry ⟨[], e.1⟩ e.2

def tableExpressions (entries : List (String × Datum)) : List Expression :=
  (tables entries).flatMap fun t => .header ⟨[], t.1⟩ :: entryExpressions t.2

theorem Reads.plainLines {entries : List (String × Datum)} (hbare : ∀ e ∈ entries, Bare e.1)
    (hrange : ∀ e ∈ entries, InRange e.2) {cs : List Char} {es : List Expression} (h : Reads cs es) :
    Reads ((plainLines entries).toList ++ cs) (entryExpressions entries ++ es) := by
  induction entries with
  | nil => exact h
  | cons e entries ih =>
    obtain ⟨name, d⟩ := e
    obtain ⟨hname, hbare⟩ := List.forall_mem_cons.1 hbare
    obtain ⟨hd, hrange⟩ := List.forall_mem_cons.1 hrange
    have hrest := ih hbare hrange
    cases hplain : plain? d with
    | none => simpa [Toml.plainLines, String.toList_join, entryExpressions, plainEntries, hplain] using hrest
    | some text =>
      simpa [Toml.plainLines, String.toList_join, entryExpressions, plainEntries, hplain] using hrest.entry hname hplain hd

theorem Reads.tableBlocks {entries : List (String × Datum)} (hbare : ∀ e ∈ entries, Bare e.1)
    (hinner : ∀ name others, (name, .record others) ∈ entries → Flat others) :
    Reads (tableBlocks entries).toList (tableExpressions entries) := by
  induction entries with
  | nil => exact .nil
  | cons e entries ih =>
    obtain ⟨name, d⟩ := e
    obtain ⟨hname, hbare⟩ := List.forall_mem_cons.1 hbare
    have hrest := ih hbare fun name others hmem => hinner name others (List.mem_cons_of_mem _ hmem)
    cases d with
    | record others =>
      have hothers := hinner name others List.mem_cons_self
      simpa [Toml.tableBlocks, String.toList_join, tableExpressions, tables] using
        ((hrest.plainLines hothers.bare hothers.inRange).header hname).blank
    | _ => simpa [Toml.tableBlocks, String.toList_join, tableExpressions, tables] using hrest

theorem Printable.reads {entries : List (String × Datum)} (h : Printable entries) :
    Reads (print entries).toList (entryExpressions entries ++ tableExpressions entries) := by
  rw [print, String.toList_append]
  exact (Reads.tableBlocks h.bare h.inner).plainLines h.bare h.inRange

/-! ## Trees of a document -/

/-- Plain entries as part of a tree. -/
def leaves (entries : List (String × Datum)) : Entries :=
  entries.map fun e => (e.1, .value e.2)

/-- A table with its own header. -/
def branch (t : String × List (String × Datum)) : String × Node :=
  (t.1, .table .header (leaves (plainEntries t.2)))

section
variable {key : String} {entries : Entries}

theorem lookup_eq_none (h : key ∉ entries.map Prod.fst) : entries.lookup key = none :=
  List.lookup_eq_none_iff.2 fun _ he => bne_iff_ne.2 fun hsame => h (hsame ▸ List.mem_map_of_mem he)

theorem setEntry_append (h : key ∉ entries.map Prod.fst) (node : Node) (rest : Entries) :
    setEntry key node (entries ++ rest) = entries ++ setEntry key node rest := by
  induction entries with
  | nil => rfl
  | cons e entries ih =>
    obtain ⟨hkey, hrest⟩ := List.ne_and_not_mem_of_not_mem_cons h
    rw [List.cons_append, setEntry, if_neg (Ne.symm hkey), ih hrest]
    rfl

theorem setEntry_new (h : key ∉ entries.map Prod.fst) (node : Node) :
    setEntry key node entries = entries ++ [(key, node)] := by
  have hset := setEntry_append h node []
  rwa [List.append_nil] at hset

theorem putKey_new (h : key ∉ entries.map Prod.fst) (d : Datum) :
    putKey key d entries = some (entries ++ [(key, .value d)]) := by
  rw [putKey, lookup_eq_none h]
  exact congrArg some (setEntry_new h _)

theorem openTable_new (h : key ∉ entries.map Prod.fst) :
    openTable key entries = some (entries ++ [(key, .table .header [])]) := by
  rw [openTable, lookup_eq_none h]
  exact congrArg some (setEntry_new h _)

end

/-- The table at `path` of a tree, which is `place` around the entries of that table. -/
def Holds (path : List String) (place : Entries → Entries) : Prop :=
  ∀ f inner, atHeader f path (place inner) = (f inner).map place

theorem holds_root : Holds [] id := fun f inner => by
  rw [atHeader, Option.map_id]
  rfl

theorem holds_last {name : String} {root : Entries} (h : name ∉ root.map Prod.fst) :
    Holds [name] fun inner => root ++ [(name, .table .header inner)] := fun f inner => by
  have hlookup : (root ++ [(name, Node.table .header inner)]).lookup name = some (.table .header inner) := by
    rw [List.lookup_append, lookup_eq_none h]
    simp
  have hset (inner' : Entries) : setEntry name (.table .header inner') (root ++ [(name, .table .header inner)]) =
      root ++ [(name, .table .header inner')] := by
    rw [setEntry_append h]
    simp [setEntry]
  rw [atHeader, hlookup]
  simp only [hset]
  rfl

/-- New entries are added to the table where the draft stands. -/
theorem foldlM_leaves {path : List String} {place : Entries → Entries} (h : Holds path place)
    (entries : List (String × Datum)) (made : Entries) (hn : (made.map Prod.fst ++ entries.map Prod.fst).Nodup) :
    (entries.map fun e => Expression.entry ⟨[], e.1⟩ e.2).foldlM Draft.add ⟨place made, path⟩ =
      some ⟨place (made ++ leaves entries), path⟩ := by
  induction entries generalizing made with
  | nil => simp [leaves]
  | cons e entries ih =>
    obtain ⟨key, d⟩ := e
    have hnew : key ∉ made.map Prod.fst := fun hmem => (List.nodup_append.1 hn).2.2 key hmem key List.mem_cons_self rfl
    have hput : atHeader (put [] key d) path (place made) = some (place (made ++ [(key, .value d)])) :=
      (h _ _).trans (congrArg (Option.map place) (putKey_new hnew d))
    have hadd : Draft.add ⟨place made, path⟩ (.entry ⟨[], key⟩ d) = some ⟨place (made ++ [(key, .value d)]), path⟩ := by
      rw [Draft.add, hput]
      rfl
    rw [List.map_cons, List.foldlM_cons, hadd]
    have hrest := ih (made ++ [(key, .value d)]) (by simpa using hn)
    simpa [leaves] using hrest

theorem foldlM_branches (ts : List (String × List (String × Datum))) (root : Entries) (path : List String)
    (hn : (root.map Prod.fst ++ ts.map Prod.fst).Nodup) (hinner : ∀ t ∈ ts, ((plainEntries t.2).map Prod.fst).Nodup) :
    ∃ last, (ts.flatMap fun t => .header ⟨[], t.1⟩ :: entryExpressions t.2).foldlM Draft.add ⟨root, path⟩ =
      some ⟨root ++ ts.map branch, last⟩ := by
  induction ts generalizing root path with
  | nil => exact ⟨path, by simp⟩
  | cons t ts ih =>
    obtain ⟨name, inner⟩ := t
    obtain ⟨hfirst, hrest⟩ := List.forall_mem_cons.1 hinner
    have hnew : name ∉ root.map Prod.fst := fun hmem => (List.nodup_append.1 hn).2.2 name hmem name List.mem_cons_self rfl
    have hadd : Draft.add ⟨root, path⟩ (.header ⟨[], name⟩) = some ⟨root ++ [(name, .table .header [])], [name]⟩ := by
      have hopen : atHeader (openTable name) [] root = some (root ++ [(name, .table .header [])]) := openTable_new hnew
      rw [Draft.add, hopen]
      rfl
    -- The draft stands in the new table until the next header, which finds this one finished at the end of the root.
    have hleaves := foldlM_leaves (holds_last hnew) (plainEntries inner) [] (by simpa using hfirst)
    obtain ⟨last, hfold⟩ := ih (root ++ [branch (name, inner)]) [name] (by simpa [branch] using hn) hrest
    refine ⟨last, ?_⟩
    rw [List.flatMap_cons, List.cons_append, List.foldlM_cons, hadd]
    change List.foldlM Draft.add _ (entryExpressions inner ++ _) = _
    rw [List.foldlM_append, entryExpressions, hleaves]
    simpa [branch] using hfold

theorem entriesDatum_append (a b : Entries) : entriesDatum (a ++ b) = entriesDatum a ++ entriesDatum b := by
  induction a with
  | nil => simp [entriesDatum]
  | cons e a ih => simp [entriesDatum, ih]

theorem entriesDatum_leaves (entries : List (String × Datum)) : entriesDatum (leaves entries) = entries := by
  induction entries with
  | nil => simp [leaves, entriesDatum]
  | cons e entries ih => simp_all [leaves, entriesDatum, Node.datum]

theorem entriesDatum_branches (ts : List (String × List (String × Datum))) :
    entriesDatum (ts.map branch) = ts.map fun t => (t.1, .record (plainEntries t.2)) := by
  induction ts with
  | nil => simp [entriesDatum]
  | cons t ts ih => simp_all [branch, entriesDatum, Node.datum, entriesDatum_leaves]

/-! ## Reading what has been printed -/

theorem plainEntries_names (entries : List (String × Datum)) :
    ((plainEntries entries).map Prod.fst).Sublist (entries.map Prod.fst) :=
  List.filter_sublist.map Prod.fst

theorem tables_names (entries : List (String × Datum)) : ((tables entries).map Prod.fst).Sublist (entries.map Prod.fst) := by
  induction entries with
  | nil => exact .refl _
  | cons e entries ih =>
    obtain ⟨name, d⟩ := e
    cases d with
    | record others => exact ih.cons_cons name
    | _ => exact ih.cons name

theorem mem_tables {entries : List (String × Datum)} {t : String × List (String × Datum)} (h : t ∈ tables entries) :
    (t.1, .record t.2) ∈ entries := by
  obtain ⟨⟨name, d⟩, hmem, ht⟩ := List.mem_filterMap.1 h
  cases d with
  | record others =>
    cases ht
    exact hmem
  | _ => cases ht

/-- No table has the name of a plain entry. -/
theorem Flat.names_nodup {entries : List (String × Datum)} (h : Flat entries) :
    ((plainEntries entries).map Prod.fst ++ (tables entries).map Prod.fst).Nodup := by
  refine List.nodup_append.2 ⟨h.distinct.sublist (plainEntries_names entries), h.distinct.sublist (tables_names entries), ?_⟩
  rintro _ hplain _ htable rfl
  obtain ⟨e, he, hname⟩ := List.mem_map.1 hplain
  obtain ⟨t, ht, htname⟩ := List.mem_map.1 htable
  obtain ⟨hmem, hsome⟩ := List.mem_filter.1 he
  have hdatum : e.2 = .record t.2 := by
    have hfirst := lookup_of_mem_nodup h.distinct hmem
    have hsecond := lookup_of_mem_nodup h.distinct (mem_tables ht)
    rw [hname] at hfirst
    rw [htname, hfirst] at hsecond
    exact Option.some.inj hsecond
  rw [hdatum] at hsome
  cases hsome

theorem Printable.ofExpressions_eq {entries : List (String × Datum)} (h : Printable entries) :
    ofExpressions (entryExpressions entries ++ tableExpressions entries) = some (.record (written entries)) := by
  have hplain := foldlM_leaves holds_root (plainEntries entries) []
    (by simpa using h.distinct.sublist (plainEntries_names entries))
  have hnames : ((leaves (plainEntries entries)).map Prod.fst ++ (tables entries).map Prod.fst).Nodup := by
    simpa [leaves, Function.comp_def] using h.toFlat.names_nodup
  obtain ⟨last, htables⟩ := foldlM_branches (tables entries) _ [] hnames fun t ht =>
    (h.inner _ _ (mem_tables ht)).distinct.sublist (plainEntries_names t.2)
  have hfold : (entryExpressions entries ++ tableExpressions entries).foldlM Draft.add ⟨[], []⟩ =
      some ⟨leaves (plainEntries entries) ++ (tables entries).map branch, last⟩ := by
    rw [List.foldlM_append, entryExpressions, show (⟨[], []⟩ : Draft) = ⟨id [], []⟩ from rfl, hplain]
    exact htables
  rw [ofExpressions, hfold]
  simp only [Option.bind_eq_bind, Option.bind_some, entriesDatum_append, entriesDatum_leaves, entriesDatum_branches]
  rfl

/-- A printed document is read as its plain entries and its tables, in this order. -/
theorem parse_print {entries : List (String × Datum)} (h : Printable entries) :
    parse (print entries) = some (.record (written entries)) := by
  rw [parse]
  simp only [h.reads.unmarked, h.reads.lines _ (Nat.lt_succ_self _), Option.bind_some, h.ofExpressions_eq]

/-! ## What is found in it -/

namespace Flat

variable {entries : List (String × Datum)} {key : String}

theorem written_nodup (h : Flat entries) : ((written entries).map Prod.fst).Nodup := by
  simpa [written, Function.comp_def] using h.names_nodup

theorem lookup_plain (h : Flat entries) {d : Datum} (hd : (plain? d).isSome = true) (hmem : (key, d) ∈ entries) :
    (written entries).lookup key = some d :=
  lookup_of_mem_nodup h.written_nodup (List.mem_append_left _ (List.mem_filter.2 ⟨hmem, hd⟩))

theorem lookup_table (h : Flat entries) {others : List (String × Datum)} (hmem : (key, .record others) ∈ entries) :
    (written entries).lookup key = some (.record (plainEntries others)) := by
  have htable : (key, others) ∈ tables entries := List.mem_filterMap.2 ⟨_, hmem, rfl⟩
  exact lookup_of_mem_nodup h.written_nodup (List.mem_append_right _ (List.mem_map.2 ⟨_, htable, rfl⟩))

/-- An entry without a value is left out. -/
theorem lookup_null (h : Flat entries) (hmem : (key, .null) ∈ entries) : (written entries).lookup key = none := by
  have hnull {d : Datum} (hd : (key, d) ∈ entries) : d = .null :=
    Option.some.inj ((lookup_of_mem_nodup h.distinct hd).symm.trans (lookup_of_mem_nodup h.distinct hmem))
  refine List.lookup_eq_none_iff.2 fun e he => bne_iff_ne.2 ?_
  rintro rfl
  rcases List.mem_append.1 he with hplain | htable
  · obtain ⟨hin, hsome⟩ := List.mem_filter.1 hplain
    rw [hnull hin] at hsome
    cases hsome
  · obtain ⟨t, ht, rfl⟩ := List.mem_map.1 htable
    cases hnull (mem_tables ht)

end Flat

end AccelFirmware.Toml
