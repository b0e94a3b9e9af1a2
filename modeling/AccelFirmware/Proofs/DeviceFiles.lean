import AccelFirmware.Proofs.TomlDocuments

/-!
# Devices and their files

A device is read back from its file, whatever characters are in its name. The file leaves out what the device does not have, and
what is not there is read as missing.
-/

namespace AccelFirmware

open Toml

/-! ## Fields -/

section
variable {α : Type} {entries : List (String × Datum)} {value : Decoder α} (key : String)

theorem required_written (h : Flat entries) {d : Datum} {a : α} (hplain : (plain? d).isSome = true) (hread : value d = .ok a)
    (hmem : (key, d) ∈ entries) : Decode.Fields.required ⟨false, written entries⟩ key value = .ok a := by
  rw [Decode.Fields.required, h.lookup_plain hplain hmem]
  exact hread

/-- A field that may be missing is read back as it was. -/
theorem optional_written (h : Flat entries) {encode : α → Datum} (hplain : ∀ a, (plain? (encode a)).isSome = true)
    (hread : ∀ a, value (encode a) = .ok a) {o : Option α} (hmem : (key, .ofOption encode o) ∈ entries) :
    Decode.Fields.optional ⟨false, written entries⟩ key value = .ok o := by
  cases o with
  | none =>
    rw [Decode.Fields.optional, h.lookup_null hmem]
    rfl
  | some a =>
    have hnull : encode a ≠ .null := fun hnull => by
      have hsome := hplain a
      rw [hnull] at hsome
      cases hsome
    rw [Decode.Fields.optional, h.lookup_plain (hplain a) hmem]
    simp only [Decode.orNull_of_ne hnull, hread]
    rfl

end

/-! ## Tables -/

section
variable {dialect : Dialect} {entries : List (String × Datum)}

theorem ClockSpeeds.entries_flat {c : ClockSpeeds} (hc : c.datum = .record entries) : Flat entries := by
  have hnames : ∀ name ∈ ["ipo-mhz", "apb-mhz", "pll-mhz"], Bare name := by decide
  cases hc
  exact ⟨fun e he => hnames e.1 (List.mem_map_of_mem (f := Prod.fst) he),
    by simp [inRange_ofOption inRange_ofWord], by simp⟩

theorem ClockSpeeds.decode_written {c : ClockSpeeds} (hc : c.datum = .record entries) :
    decode dialect (.record (plainEntries entries)) = .ok c := by
  have hflat := entries_flat hc
  have hplain : plainEntries entries = written entries := by
    cases hc
    cases c.pll <;> rfl
  cases hc
  have hipo := required_written "ipo-mhz" hflat rfl (Decode.word_ofWord c.ipo) (by simp)
  have hapb := required_written "apb-mhz" hflat rfl (Decode.word_ofWord c.apb) (by simp)
  have hpll := optional_written "pll-mhz" hflat (o := c.pll) (fun _ => rfl) Decode.word_ofWord (by simp)
  rw [hplain, decode, Decode.fields_record dialect hflat.written_nodup]
  simp [hipo, hapb, hpll, bind, Except.bind, pure, Except.pure]

theorem CompanionMemory.entries_flat {m : CompanionMemory} (hm : m.datum = .record entries) : Flat entries := by
  have hnames : ∀ name ∈ ["code-origin", "sram-origin"], Bare name := by decide
  cases hm
  exact ⟨fun e he => hnames e.1 (List.mem_map_of_mem (f := Prod.fst) he), by simp, by simp⟩

theorem CompanionMemory.decode_written {m : CompanionMemory} (hm : m.datum = .record entries) :
    decode dialect (.record (plainEntries entries)) = .ok m := by
  have hflat := entries_flat hm
  have hplain : plainEntries entries = written entries := by
    cases hm
    rfl
  cases hm
  have hcode := required_written "code-origin" hflat rfl (Decode.word_ofWord m.codeOrigin) (by simp)
  have hsram := required_written "sram-origin" hflat rfl (Decode.word_ofWord m.sramOrigin) (by simp)
  rw [hplain, decode, Decode.fields_record dialect hflat.written_nodup]
  simp [hcode, hsram, bind, Except.bind, pure, Except.pure]

end

/-! ## Devices -/

namespace Device

variable (d : Device)

theorem entries_flat : Flat d.entries where
  bare := by
    have hnames : ∀ name ∈ fieldNames, Bare name := by decide
    exact fun e he => hnames e.1 (List.mem_map_of_mem (f := Prod.fst) he)
  inRange := by
    have hcompanion : InRange (.ofOption CompanionMemory.datum d.companion) :=
      inRange_ofOption (fun _ => inRange_record _) _
    simp [entries, ClockSpeeds.datum, hcompanion]
  distinct := show fieldNames.Nodup by decide

theorem entries_printable : Printable d.entries where
  toFlat := d.entries_flat
  inner name others hmem := by
    simp [entries, Datum.ofWord, Datum.ofByte] at hmem
    rcases hmem with ⟨-, hclocks⟩ | ⟨-, hcompanion⟩
    · exact ClockSpeeds.entries_flat hclocks.symm
    · cases hmemory : d.companion with
      | none =>
        rw [hmemory] at hcompanion
        cases hcompanion
      | some m =>
        rw [hmemory] at hcompanion
        exact CompanionMemory.entries_flat hcompanion.symm

theorem required_clocks (dialect : Dialect) :
    Decode.Fields.required ⟨false, written d.entries⟩ "clocks" (ClockSpeeds.decode dialect) = .ok d.clocks := by
  rw [Decode.Fields.required, d.entries_flat.lookup_table (show ("clocks", d.clocks.datum) ∈ d.entries by simp [entries])]
  exact ClockSpeeds.decode_written rfl

theorem optional_companion (dialect : Dialect) :
    Decode.Fields.optional ⟨false, written d.entries⟩ "companion" (CompanionMemory.decode dialect) = .ok d.companion := by
  have hmem : ("companion", .ofOption CompanionMemory.datum d.companion) ∈ d.entries := by simp [entries]
  cases hmemory : d.companion with
  | none =>
    rw [hmemory] at hmem
    rw [Decode.Fields.optional, d.entries_flat.lookup_null hmem]
    rfl
  | some m =>
    rw [hmemory] at hmem
    rw [Decode.Fields.optional, d.entries_flat.lookup_table hmem]
    exact congrArg (Except.map some) (CompanionMemory.decode_written rfl)

/-- What is left of the entries is enough to decode the device. -/
theorem decode_written (dialect : Dialect) : decode dialect (.record (written d.entries)) = .ok d := by
  have hflat := d.entries_flat
  have hname : Decode.text (.text d.name) = .ok d.name := rfl
  have hword (key : String) (n : UInt32) (hmem : (key, .ofWord n) ∈ d.entries) :
      Decode.Fields.required ⟨false, written d.entries⟩ key Decode.word = .ok n :=
    required_written key hflat rfl (Decode.word_ofWord n) hmem
  have hbool (key : String) (b : Bool) (hmem : (key, .bool b) ∈ d.entries) :
      Decode.Fields.required ⟨false, written d.entries⟩ key Decode.bool = .ok b :=
    required_written key hflat (by cases b <;> rfl) rfl hmem
  have hpower : PowerController.decode dialect (.text d.powerController.name) = .ok d.powerController :=
    Decode.choice_name dialect (by decide) (by cases d.powerController <;> decide)
  rw [decode, Decode.fields_record dialect hflat.written_nodup]
  simp only [bind, Except.bind, pure, Except.pure,
    required_written "name" hflat rfl hname (by simp [entries]),
    required_written "family" hflat rfl (d.family.decode_name dialect) (by simp [entries]),
    hword "apb-base" d.apbBase (by simp [entries]),
    hword "cnn-base" d.cnnBase (by simp [entries]),
    hword "group-stride" d.groupStride (by simp [entries]),
    hword "ctl-register" d.ctlRegister (by simp [entries]),
    required_written "group-count" hflat rfl (Decode.byte_ofByte d.groupCount) (by simp [entries]),
    required_written "power-controller" hflat rfl hpower (by simp [entries]),
    hbool "modern-sim" d.modernSim (by simp [entries]),
    hbool "require-oneshot-clear" d.requireOneshotClear (by simp [entries]),
    hbool "require-sema-lpwken" d.requireSemaLpwken (by simp [entries]),
    d.required_clocks dialect, d.optional_companion dialect]

/-- A device is read back from its file. -/
theorem ofToml_toml : ofToml d.toml = .ok d := by
  rw [ofToml, toml, parse_print d.entries_printable]
  simp only [d.decode_written .toml]

end Device

end AccelFirmware
