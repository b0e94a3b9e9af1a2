import AccelFirmware.Device.Record
import Mathlib.Data.List.Nodup

/-!
# Decoding what has been encoded

Decoders read back what the encoders beside them write: integers with a bound, names of enumerations, values that may be null, and
records whose keys are all different.
-/

namespace AccelFirmware

/-- Where keys are all different, every entry is found by its key. -/
theorem lookup_of_mem_nodup {β : Type} {key : String} {b : β} {entries : List (String × β)}
    (hn : (entries.map Prod.fst).Nodup) (h : (key, b) ∈ entries) : entries.lookup key = some b := by
  obtain ⟨before, after, rfl⟩ := List.append_of_mem h
  refine List.lookup_eq_some_iff.2 ⟨before, after, rfl, fun other hother => ?_⟩
  rw [List.map_append, List.nodup_append] at hn
  exact bne_iff_ne.2 fun hsame => hn.2.2 _ (List.mem_map_of_mem hother) key (by simp) hsame.symm

theorem lookup_of_perm {β : Type} {key : String} {b : β} {entries written : List (String × β)} (h : entries.Perm written)
    (hn : (written.map Prod.fst).Nodup) (hb : (key, b) ∈ written) : entries.lookup key = some b :=
  lookup_of_mem_nodup ((h.map Prod.fst).nodup_iff.2 hn) (h.mem_iff.2 hb)

theorem lookup_cons_eq {β : Type} (key other : String) (b : β) (entries : List (String × β)) :
    ((other, b) :: entries).lookup key = if key = other then some b else entries.lookup key := by
  by_cases h : key = other
  · simp [h]
  · simp [List.lookup_cons, beq_eq_false_iff_ne.2 h, h]

theorem lookup_map_replace {β : Type} (key axis : String) (b : β) (entries : List (String × β)) :
    (entries.map fun e => if e.1 = axis then (e.1, b) else e).lookup key =
      if key = axis then (entries.lookup key).map fun _ => b else entries.lookup key := by
  induction entries with
  | nil => simp
  | cons entry entries ih =>
    obtain ⟨k, value⟩ := entry
    by_cases haxis : k = axis
    · by_cases hkey : key = k <;> simp_all [lookup_cons_eq]
    · have hother : axis ≠ k := Ne.symm haxis
      by_cases hkey : key = k <;> simp_all [lookup_cons_eq]

namespace Datum

/-- The same value, with the entries of a record in any order. -/
def Like (d written : Datum) : Prop :=
  d = written ∨ ∃ entries others, d = .record entries ∧ written = .record others ∧ entries.Perm others

/-- The same entries in any order, and the values among them that are records likewise. -/
def Shuffled (entries written : List (String × Datum)) : Prop :=
  ∃ same, List.Forall₂ (fun e f => e.1 = f.1 ∧ e.2.Like f.2) entries same ∧ same.Perm written

theorem Shuffled.refl (entries : List (String × Datum)) : Shuffled entries entries :=
  ⟨entries, List.forall₂_same.2 fun _ _ => ⟨rfl, Or.inl rfl⟩, .refl entries⟩

@[simp] theorem ofByte_ne_null (n : UInt8) : ofByte n ≠ .null := by simp [ofByte]

@[simp] theorem ofWord_ne_null (n : UInt32) : ofWord n ≠ .null := by simp [ofWord]

end Datum

namespace Decode

/-! ## Plain values -/

theorem natBelow_int {bound n : Nat} (h : n < bound) : natBelow bound (.int n) = .ok n := by
  simp [natBelow, h]

@[simp] theorem byte_ofByte (n : UInt8) : byte (.ofByte n) = .ok n := by
  rw [byte, Datum.ofByte, natBelow_int n.toNat_lt_size]
  exact congrArg Except.ok UInt8.ofNat_toNat

@[simp] theorem word_ofWord (n : UInt32) : word (.ofWord n) = .ok n := by
  rw [word, Datum.ofWord, natBelow_int n.toNat_lt_size]
  exact congrArg Except.ok UInt32.ofNat_toNat

section
variable {α : Type}

theorem orNull_of_ne {value : Decoder α} {d : Datum} (h : d ≠ .null) : orNull value d = (value d).map some := by
  cases d with
  | null => exact absurd rfl h
  | _ => rfl

theorem orNull_ofOption {value : Decoder α} {encode : α → Datum} (hread : ∀ a, value (encode a) = .ok a)
    (hnull : ∀ a, encode a ≠ .null) (o : Option α) : orNull value (.ofOption encode o) = .ok o := by
  cases o with
  | none => rfl
  | some a =>
    rw [Datum.ofOption, orNull_of_ne (hnull a), hread]
    rfl

theorem mapM_ok {value : Decoder α} {encode : α → Datum} (hread : ∀ a, value (encode a) = .ok a) (as : List α) :
    (as.map encode).mapM value = .ok as := by
  induction as with
  | nil => rfl
  | cons a as ih =>
    rw [List.map_cons, List.mapM_cons, hread, ih]
    rfl

/-- The name of a value is read back where no two values have the same name. -/
theorem choice_name (dialect : Dialect) {all : List α} {name : α → String} {a : α} (hn : (all.map name).Nodup)
    (ha : a ∈ all) : choice dialect (all.map fun a => (name a, a)) (.text (name a)) = .ok a := by
  have hlookup : (all.map fun a => (name a, a)).lookup (name a) = some a := by
    refine lookup_of_mem_nodup ?_ (List.mem_map.2 ⟨a, ha, rfl⟩)
    simpa [Function.comp_def] using hn
  rw [choice, hlookup]
  rfl

/-- What can be read back is written in one way only. -/
theorem injective_of_read {value : Decoder α} (encode : α → Datum) (h : ∀ a, value (encode a) = .ok a) :
    Function.Injective encode := by
  intro a b hab
  exact Except.ok.inj ((h a).symm.trans (hab ▸ h b))

end

/-! ## Records -/

theorem repeats_of_nodup (keys : List String) {entries : List (String × Datum)} (h : (entries.map Prod.fst).Nodup) :
    repeats keys entries = false := by
  induction entries with
  | nil => rfl
  | cons entry entries ih =>
    obtain ⟨hnew, hrest⟩ := List.nodup_cons.1 h
    have hany : entries.any (·.1 == entry.1) = false :=
      List.any_eq_false.2 fun other hother hsame => hnew (beq_iff_eq.1 hsame ▸ List.mem_map_of_mem hother)
    rw [repeats, ih hrest, hany, Bool.and_false, Bool.or_false]

theorem leadingFields_record {keys : List String} {entries : List (String × Datum)} (h : (entries.map Prod.fst).Nodup) :
    leadingFields keys (.record entries) = .ok ⟨false, entries⟩ := by
  rw [leadingFields, repeats_of_nodup keys h]
  rfl

theorem fields_record (dialect : Dialect) {keys : List String} {entries : List (String × Datum)}
    (h : (entries.map Prod.fst).Nodup) : fields dialect keys (.record entries) = .ok ⟨false, entries⟩ := by
  rw [fields, leadingFields_record h]
  rfl

end Decode

/-! ## Enumerations and parts -/

theorem Family.decode_name (dialect : Dialect) (f : Family) : decode dialect (.text f.name) = .ok f :=
  Decode.choice_name dialect (by decide) (by cases f <;> decide)

end AccelFirmware
