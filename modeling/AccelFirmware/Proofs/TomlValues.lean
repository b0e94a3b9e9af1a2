import AccelFirmware.Data.Toml.Document
import AccelFirmware.Data.Toml.Printer
import AccelFirmware.Proofs.QuotedText

/-!
# Plain values in TOML

A plain value is read back from its text, up to the end of its line. Numbers need the most care: the digits of an integer must
not be taken for a moment, a float, or a number in another base.
-/

namespace AccelFirmware.Toml

/-! ## Digits -/

/-- What follows a number: the end of its line, the next item of a list, or the end of the list. -/
def EndsNumber (stop : Char) : Prop := stop = '\n' ∨ stop = ',' ∨ stop = ']'

instance (stop : Char) : Decidable (EndsNumber stop) := inferInstanceAs (Decidable (_ ∨ _))

/-- No digit and no character that goes on with a number ends one. -/
theorem EndsNumber.ne {stop c : Char} (h : EndsNumber stop) (hc : ¬ EndsNumber c) : stop ≠ c := by
  rintro rfl
  exact hc h

theorem EndsNumber.isDigit {stop : Char} (h : EndsNumber stop) : stop.isDigit = false := by
  rcases h with rfl | rfl | rfl <;> decide

section
variable {stop : Char}

theorem moreDigits_append (hstop : EndsNumber stop) {cs : List Char} (h : ∀ c ∈ cs, c.isDigit = true) (rest : List Char) :
    moreDigits Char.isDigit (cs ++ stop :: rest) = (cs, stop :: rest) := by
  induction cs with
  | nil => simp [moreDigits.eq_2 _ stop rest (by simp [hstop.ne (c := '_') (by decide)]), hstop.isDigit]
  | cons c cs ih =>
    obtain ⟨hc, hcs⟩ := List.forall_mem_cons.1 h
    have hunderscore : c ≠ '_' := ne_of_test hc (by decide)
    simp [moreDigits, hunderscore, hc, ih hcs]

theorem decimalRun_write (hstop : EndsNumber stop) (n : Nat) (rest : List Char) :
    decimalRun (Radix.decimal.write n ++ stop :: rest) = some (Radix.decimal.write n, stop :: rest) := by
  rcases Nat.eq_zero_or_pos n with rfl | hpos
  · simp [Radix.write, digits, Radix.base, Radix.digitChar, decimalRun]
  · obtain ⟨c, cs, hwrite, hzero⟩ := write_decimal_of_pos hpos
    have hdigits : ∀ d ∈ c :: cs, d.isDigit = true := fun d hd => isDigit_of_mem_decimal (hwrite ▸ hd)
    obtain ⟨hc, hcs⟩ := List.forall_mem_cons.1 hdigits
    simp [hwrite, decimalRun, hzero, digitRun, hc, moreDigits_append hstop hcs]

theorem valueIn_eq (base : Nat) (cs : List Char) : valueIn base cs = valueOf base cs := by
  induction cs using List.reverseRecOn with
  | nil => rfl
  | append_singleton cs c ih =>
    rw [valueOf_append_singleton, ← ih, valueIn, List.foldl_append, Nat.add_comm]
    rfl

/-! ## Integers -/

/-- An integer as it is written. -/
def signed (n : Int) : List Char :=
  (if n < 0 then ['-'] else []) ++ Radix.decimal.write n.natAbs

theorem write_decimal_head (n : Nat) : ∃ c cs, Radix.decimal.write n = c :: cs ∧ c.isDigit = true := by
  obtain ⟨c, cs, hwrite⟩ := List.exists_cons_of_ne_nil (write_ne_nil .decimal n)
  exact ⟨c, cs, hwrite, isDigit_of_mem_decimal (hwrite ▸ List.mem_cons_self)⟩

theorem sign_signed (n : Int) (rest : List Char) :
    sign (signed n ++ stop :: rest) = (decide (n < 0), Radix.decimal.write n.natAbs ++ stop :: rest) := by
  rw [signed]
  split
  · rename_i hnegative
    rw [decide_eq_true hnegative]
    rfl
  · rename_i hnegative
    obtain ⟨c, cs, hwrite, hc⟩ := write_decimal_head n.natAbs
    have hsign : sign (c :: (cs ++ stop :: rest)) = (false, c :: (cs ++ stop :: rest)) :=
      sign.eq_3 _ (fun _ h => ne_of_test hc (by decide) (List.cons.inj h).1)
        fun _ h => ne_of_test hc (by decide) (List.cons.inj h).1
    rw [decide_eq_false hnegative, hwrite]
    exact hsign

/-- A number of a fixed length takes digits only. -/
theorem fixedDigits_eq_some {length low high v : Nat} {cs rest : List Char}
    (h : fixedDigits length low high cs = some (v, rest)) :
    ∃ ds, cs = ds ++ rest ∧ ds.length = length ∧ ∀ d ∈ ds, d.isDigit = true := by
  rw [fixedDigits] at h
  split at h
  · cases h
  · rename_i hlength
    obtain ⟨value, hread, hbounds⟩ := Option.bind_eq_some_iff.1 h
    obtain rfl : cs.drop length = rest := by
      split at hbounds
      · exact (Prod.mk.inj (Option.some.inj hbounds)).2
      · cases hbounds
    refine ⟨cs.take length, (List.take_append_drop ..).symm, not_not.1 hlength, ?_⟩
    rw [readDecimal] at hread
    split at hread
    · rename_i hdigits
      exact List.all_eq_true.1 hdigits
    · cases hread

/-- Behind the first digits of an integer there are only further digits on its line. -/
theorem expect_fixedDigits (hstop : EndsNumber stop) {length low high v : Nat} {n : Int} {rest after : List Char}
    (h : fixedDigits (length + 1) low high (signed n ++ stop :: rest) = some (v, after)) {c : Char}
    (hc : c.isDigit = false) (hend : ¬ EndsNumber c) : expect c after = none := by
  obtain ⟨ds, hsplit, hlength, hdigits⟩ := fixedDigits_eq_some h
  obtain ⟨more, hmore, rfl⟩ : ∃ more, (∀ d ∈ more, d.isDigit = true) ∧ after = more ++ stop :: rest := by
    obtain ⟨d, ds, rfl⟩ := List.exists_cons_of_length_eq_add_one hlength
    rw [signed] at hsplit
    split at hsplit
    · have hminus : d.isDigit = true := hdigits d List.mem_cons_self
      rw [← (List.cons.inj hsplit).1] at hminus
      exact absurd hminus (by decide)
    · rcases List.append_eq_append_iff.1 hsplit with ⟨between, hds, hrest⟩ | ⟨more, hwrite, hafter⟩
      · cases between with
        | nil => exact ⟨[], by simp, hrest.symm⟩
        | cons e between =>
          have he : e.isDigit = true := hdigits e (by simp [hds])
          rw [← (List.cons.inj hrest).1, hstop.isDigit] at he
          cases he
      · exact ⟨more, fun e he => isDigit_of_mem_decimal (n := n.natAbs) (by simp_all), hafter⟩
  cases more with
  | nil => exact if_neg (hstop.ne hend)
  | cons d more => exact if_neg (ne_of_test (hmore d List.mem_cons_self) hc)

theorem moment_signed (hstop : EndsNumber stop) (n : Int) (rest : List Char) : moment (signed n ++ stop :: rest) = none := by
  have hdate : date (signed n ++ stop :: rest) = none := by
    rw [date]
    cases hyear : fixedDigits 4 0 9999 (signed n ++ stop :: rest) with
    | none => rfl
    | some p => simp [expect_fixedDigits hstop (c := '-') hyear (by decide) (by decide)]
  have htime : clockTime (signed n ++ stop :: rest) = none := by
    rw [clockTime]
    cases hhour : fixedDigits 2 0 23 (signed n ++ stop :: rest) with
    | none => rfl
    | some p => simp [expect_fixedDigits hstop (c := ':') hhour (by decide) (by decide)]
  rw [moment, hdate, htime]
  rfl

theorem float_signed (hstop : EndsNumber stop) (n : Int) (rest : List Char) : float (signed n ++ stop :: rest) = none := by
  have hpoint : fraction (stop :: rest) = none := fraction.eq_2 _ (by simp [hstop.ne (c := '.') (by decide)])
  have hpower : stop ≠ 'e' ∧ stop ≠ 'E' := ⟨hstop.ne (by decide), hstop.ne (by decide)⟩
  simp [float, sign_signed, decimalRun_write hstop, hpoint, exponent, hpower]

theorem specialFloat_signed (n : Int) (rest : List Char) : specialFloat (signed n ++ stop :: rest) = none := by
  obtain ⟨c, cs, hwrite, hc⟩ := write_decimal_head n.natAbs
  have hi : c ≠ 'i' := ne_of_test hc (by decide)
  have hn : c ≠ 'n' := ne_of_test hc (by decide)
  simp [specialFloat, sign_signed, hwrite, hi, hn]

theorem decimalInteger_signed (hstop : EndsNumber stop) {n : Int} (h : -0x8000000000000000 ≤ n ∧ n < 0x8000000000000000) (rest : List Char) :
    decimalInteger (signed n ++ stop :: rest) = some (.int n, stop :: rest) := by
  have hmagnitude : (if decide (n < 0) = true then -(n.natAbs : Int) else n.natAbs) = n := by
    split <;> rename_i hnegative <;> rw [decide_eq_true_eq] at hnegative <;> omega
  have hvalue : valueIn 10 (Radix.decimal.write n.natAbs) = n.natAbs :=
    (valueIn_eq ..).trans (valueOf_write .decimal n.natAbs)
  simp only [decimalInteger, sign_signed, decimalRun_write hstop, Option.bind_eq_bind, Option.bind_some, hvalue, hmagnitude,
    boundedInteger, if_pos h]
  rfl

/-- No integer has the prefix of another base. -/
theorem integer_signed (hstop : EndsNumber stop) {n : Int} (h : -0x8000000000000000 ≤ n ∧ n < 0x8000000000000000) (rest : List Char) :
    integer (signed n ++ stop :: rest) = some (.int n, stop :: rest) := by
  refine Eq.trans ?_ (decimalInteger_signed hstop h rest)
  rw [signed]
  rcases lt_trichotomy n 0 with hnegative | rfl | hpositive
  · simp [hnegative, integer]
  · have hbase : stop ≠ 'x' ∧ stop ≠ 'o' ∧ stop ≠ 'b' := ⟨hstop.ne (by decide), hstop.ne (by decide), hstop.ne (by decide)⟩
    simp [Radix.write, digits, Radix.base, Radix.digitChar, integer, hbase]
  · obtain ⟨c, cs, hwrite, hzero⟩ := write_decimal_of_pos (show 0 < n.natAbs by omega)
    simp [show ¬n < 0 by omega, hwrite, integer, hzero]

theorem numeric_signed (hstop : EndsNumber stop) {n : Int} (h : -0x8000000000000000 ≤ n ∧ n < 0x8000000000000000) (rest : List Char) :
    numeric (signed n ++ stop :: rest) = some (.int n, stop :: rest) := by
  rw [numeric, moment_signed hstop, float_signed hstop, specialFloat_signed, integer_signed hstop h]
  rfl

end

/-! ## Plain values -/

/-- Integers have to fit into 64 bits to be read back. -/
def InRange : Datum → Prop
  | .int n => -0x8000000000000000 ≤ n ∧ n < 0x8000000000000000
  | _ => True

@[simp] theorem inRange_bool (b : Bool) : InRange (.bool b) := trivial

@[simp] theorem inRange_text (s : String) : InRange (.text s) := trivial

@[simp] theorem inRange_record (entries : List (String × Datum)) : InRange (.record entries) := trivial

@[simp] theorem inRange_ofByte (n : UInt8) : InRange (.ofByte n) := by
  have hn : n.toNat < 256 := n.toNat_lt_size
  simp only [Datum.ofByte, InRange]
  omega

@[simp] theorem inRange_ofWord (n : UInt32) : InRange (.ofWord n) := by
  have hn : n.toNat < 4294967296 := n.toNat_lt_size
  simp only [Datum.ofWord, InRange]
  omega

theorem inRange_ofOption {α : Type} {encode : α → Datum} (h : ∀ a, InRange (encode a)) (o : Option α) :
    InRange (.ofOption encode o) := by
  cases o with
  | none => trivial
  | some a => exact h a

theorem toList_plain_int {n : Int} {text : String} (h : plain? (.int n) = some text) : text.toList = signed n := by
  cases h
  rw [signed]
  split <;> simp [decimal]

theorem signed_head (n : Int) : ∃ c cs, signed n = c :: cs ∧ (c = '-' ∨ c.isDigit = true) := by
  rw [signed]
  split
  · exact ⟨'-', _, rfl, Or.inl rfl⟩
  · obtain ⟨c, cs, hwrite, hc⟩ := write_decimal_head n.natAbs
    exact ⟨c, cs, hwrite, Or.inr hc⟩

/-- What starts with a sign or a digit is read as a number. -/
theorem value_of_head (depth fuel : Nat) {c : Char} (h : c = '-' ∨ c.isDigit = true) (cs : List Char) :
    value depth (fuel + 1) (c :: cs) = numeric (c :: cs) := by
  have hne {d : Char} (hd : d ≠ '-' ∧ d.isDigit = false) : c ≠ d := by
    rcases h with rfl | hc
    · exact hd.1.symm
    · exact ne_of_test hc hd.2
  have hopening : c ≠ '[' ∧ c ≠ '\x7b' := ⟨hne (by decide), hne (by decide)⟩
  have hletter : c ≠ 't' ∧ c ≠ 'f' := ⟨hne (by decide), hne (by decide)⟩
  have hquote : c ≠ '"' ∧ c ≠ '\x27' := ⟨hne (by decide), hne (by decide)⟩
  simp [value, hopening, hletter, hquote]

/-- An integer is read up to what ends it. -/
theorem value_item (depth fuel : Nat) {stop : Char} (hstop : EndsNumber stop) {n : Int} (hrange : InRange (.int n)) (rest : List Char) :
    value depth (fuel + 1) (signed n ++ stop :: rest) = some (.int n, stop :: rest) := by
  have hread := numeric_signed hstop hrange rest
  obtain ⟨c, cs, hsigned, hc⟩ := signed_head n
  rw [hsigned] at hread ⊢
  exact (value_of_head depth fuel hc _).trans hread

theorem value_quoted (depth fuel : Nat) (form : Quoting) (cs rest : List Char) :
    value depth (fuel + 1) (form.write cs ++ rest) =
      (readQuoted (form.write cs ++ rest)).map fun (text, rest) => (.text (String.ofList text), rest) := by
  cases form <;> simp [Quoting.write, openMulti, value]

theorem plain_head {d : Datum} {text : String} (h : plain? d = some text) :
    ∃ c cs, text.toList = c :: cs ∧ c ≠ ' ' ∧ c ≠ '\t' := by
  cases d with
  | bool b => cases b <;> cases h <;> exact ⟨_, _, rfl, by decide, by decide⟩
  | int n =>
    obtain ⟨c, cs, hsigned, rfl | hc⟩ := signed_head n
    · exact ⟨_, cs, (toList_plain_int h).trans hsigned, by decide, by decide⟩
    · exact ⟨c, cs, (toList_plain_int h).trans hsigned, ne_of_test hc (by decide), ne_of_test hc (by decide)⟩
  | text s =>
    cases h
    rw [quote, String.toList_ofList]
    cases Quoting.choose s.toList <;> exact ⟨_, _, rfl, by decide, by decide⟩
  | _ => cases h

/-- A plain value is read back, and the line end behind it is left. -/
theorem value_plain {d : Datum} {text : String} (h : plain? d = some text) (hrange : InRange d) (fuel : Nat)
    (rest : List Char) : value 0 (fuel + 1) (text.toList ++ '\n' :: rest) = some (d, '\n' :: rest) := by
  cases d with
  | bool b => cases b <;> cases h <;> simp [value]
  | int n =>
    rw [toList_plain_int h]
    exact value_item 0 fuel (Or.inl rfl) hrange rest
  | text s =>
    cases h
    rw [quote, String.toList_ofList, value_quoted, readQuoted_write (Quoting.choose_fits s.toList)]
    simp
  | _ => cases h

/-! ## Lists of integers -/

/-- The items of a list behind the first. -/
def moreItems (ns : List Int) : List Char := ns.flatMap fun n => ',' :: ' ' :: signed n

theorem skipFiller_signed (fuel : Nat) (n : Int) (cs : List Char) : skipFiller fuel (signed n ++ cs) = signed n ++ cs := by
  obtain ⟨c, more, hsigned, hc⟩ := signed_head n
  have hne {d : Char} (hd : d ≠ '-' ∧ d.isDigit = false) : c ≠ d := by
    rcases hc with rfl | hc
    · exact hd.1.symm
    · exact ne_of_test hc hd.2
  have hblank : c ≠ ' ' ∧ c ≠ '\t' ∧ c ≠ '#' := ⟨hne (by decide), hne (by decide), hne (by decide)⟩
  have hline : c ≠ '\r' ∧ c ≠ '\n' := ⟨hne (by decide), hne (by decide)⟩
  rw [hsigned]
  cases fuel <;> simp [skipFiller, hblank, hline]

variable {rest : List Char}

theorem signed_ne_close {c : Char} (h : c = '-' ∨ c.isDigit = true) : c ≠ ']' := by
  rcases h with rfl | hc
  · decide
  · exact ne_of_test hc (by decide)

theorem arrayItems_item {depth fuel : Nat} {c : Char} (hclose : c ≠ ']') {cs text after : List Char} {d : Datum}
    (hspace : skipFiller fuel cs = c :: text) (hvalue : value depth fuel (c :: text) = some (d, after)) (items : List Datum) :
    arrayItems depth (fuel + 1) cs items =
      match skipFiller fuel after with
      | ',' :: cs => arrayItems depth fuel cs (d :: items)
      | ']' :: cs => some (.list (d :: items).reverse, cs)
      | _ => none := by
  rw [arrayItems, hspace]
  split
  · rename_i hhead
    exact absurd (List.cons.inj hhead).1 hclose
  · rw [hvalue]
    rfl

/-- The items of a list are read one by one, each of them behind a space or none. -/
theorem arrayItems_integers (depth : Nat) {n : Int} {ns : List Int} (hrange : ∀ m ∈ n :: ns, InRange (.int m)) {fuel : Nat}
    (hfuel : ns.length ≤ fuel) {cs : List Char} (hspace : skipFiller (fuel + 1) cs = signed n ++ (moreItems ns ++ ']' :: rest))
    (items : List Datum) :
    arrayItems depth (fuel + 2) cs items = some (.list (items.reverse ++ (n :: ns).map .int), rest) := by
  induction ns generalizing n fuel cs items with
  | nil =>
    obtain ⟨c, more, hsigned, hc⟩ := signed_head n
    have hvalue := value_item depth fuel (Or.inr (Or.inr rfl)) (hrange n List.mem_cons_self) rest
    rw [hsigned] at hspace hvalue
    rw [arrayItems_item (signed_ne_close hc) hspace hvalue]
    simp [skipFiller]
  | cons m ns ih =>
    obtain ⟨hn, hns⟩ := List.forall_mem_cons.1 hrange
    obtain ⟨c, more, hsigned, hc⟩ := signed_head n
    obtain ⟨fuel, rfl⟩ : ∃ f, fuel = f + 1 := ⟨fuel - 1, by simp at hfuel; omega⟩
    have hvalue := value_item depth (fuel + 1) (Or.inr (Or.inl rfl)) hn (' ' :: (signed m ++ (moreItems ns ++ ']' :: rest)))
    have hshape : moreItems (m :: ns) ++ ']' :: rest = ',' :: ' ' :: (signed m ++ (moreItems ns ++ ']' :: rest)) := by simp [moreItems]
    have hnext : skipFiller (fuel + 1) (' ' :: (signed m ++ (moreItems ns ++ ']' :: rest))) =
        signed m ++ (moreItems ns ++ ']' :: rest) := skipFiller_signed fuel m _
    rw [hshape, hsigned] at hspace
    rw [hsigned] at hvalue
    rw [arrayItems_item (signed_ne_close hc) hspace hvalue]
    simpa [skipFiller] using ih hns (by simpa using hfuel) hnext (.int n :: items)

/-- A list of integers is read back up to what follows it. -/
theorem value_integers {n : Int} {ns : List Int} (hrange : ∀ m ∈ n :: ns, InRange (.int m)) {fuel : Nat}
    (hfuel : ns.length + 2 ≤ fuel) :
    value 0 (fuel + 1) ('[' :: (signed n ++ (moreItems ns ++ ']' :: rest))) = some (.list ((n :: ns).map .int), rest) := by
  obtain ⟨fuel, rfl⟩ : ∃ f, fuel = f + 2 := ⟨fuel - 2, by omega⟩
  rw [value, if_pos (by decide), arrayItems_integers 1 hrange (by omega) (skipFiller_signed _ n _)]
  rfl

end AccelFirmware.Toml
