import AccelFirmware.Project.Manifest
import AccelFirmware.Proofs.Outcome
import AccelFirmware.Proofs.TomlDocuments
import AccelFirmware.Proofs.TomlTrees
import AccelFirmware.Proofs.VerbatimTexts

/-!
# The manifest of a new project

A manifest that a new project starts with holds the name of the project as it is. It is read back with that name just when the name
stands for itself between quotes; nothing on the lines behind can mend a name that does not.
-/

namespace AccelFirmware

open Toml (Bare Expression Reads Verbatim)

namespace Manifest

/-! ## What is meant -/

def startingSettings : Settings :=
  { Settings.initial with
    target := .embedded, groups := .ofList [0, 1, 2, 3], retrieval := .unload, outputWidth := .w8 }

/-- What a new project starts with. -/
def starting (name : String) : Manifest where
  project := ⟨name, "0.1.0", none, "ai85"⟩
  settings := startingSettings
  arrays := some "inputs.json"
  outputDirectory := "out"

/-! ## The lines of the template -/

/-- The lines behind the name of the project. -/
def laterLines : List String :=
  ["version = \"0.1.0\"", "device = \"ai85\"", "",
   "[synthesis]", "target = \"embedded\"", "groups = [0, 1, 2, 3]", "retrieval = \"unload\"", "output-width = 8", "",
   "[inputs]", "arrays = \"inputs.json\"", "", "[output]", "dir = \"out\""]

def laterText : List Char := laterLines.flatMap fun line => (line ++ "\n").toList

def laterExpressions : List Expression :=
  [.entry ⟨[], "version"⟩ (.text "0.1.0"), .entry ⟨[], "device"⟩ (.text "ai85"),
   .header ⟨[], "synthesis"⟩, .entry ⟨[], "target"⟩ (.text "embedded"),
   .entry ⟨[], "groups"⟩ (.list [.int 0, .int 1, .int 2, .int 3]), .entry ⟨[], "retrieval"⟩ (.text "unload"),
   .entry ⟨[], "output-width"⟩ (.int 8),
   .header ⟨[], "inputs"⟩, .entry ⟨[], "arrays"⟩ (.text "inputs.json"),
   .header ⟨[], "output"⟩, .entry ⟨[], "dir"⟩ (.text "out")]

theorem reads_laterText : Reads laterText laterExpressions := by
  have hdir := Reads.nil.entry (show Bare "dir" by decide) (show Toml.plain? (.text "out") = some "\"out\"" from rfl) trivial
  have harrays := (hdir.header (show Bare "output" by decide)).blank.entry (show Bare "arrays" by decide)
    (show Toml.plain? (.text "inputs.json") = some "\"inputs.json\"" from rfl) trivial
  have hwidth := (harrays.header (show Bare "inputs" by decide)).blank.entry (show Bare "output-width" by decide)
    (show Toml.plain? (.int 8) = some "8" by decide +kernel) (by simp [Toml.InRange])
  have hretrieval := hwidth.entry (show Bare "retrieval" by decide) (show Toml.plain? (.text "unload") = some "\"unload\"" from rfl) trivial
  have hlist : "[0, 1, 2, 3]".toList = '[' :: (Toml.signed 0 ++ (Toml.moreItems [1, 2, 3] ++ [']'])) := by decide +kernel
  have hgroups := hretrieval.entryOf (show Bare "groups" by decide) (d := .list ([0, 1, 2, 3].map .int)) hlist
    (by decide) (by decide) fun fuel hfuel => by
      rw [hlist] at hfuel ⊢
      simpa using Toml.value_integers (show ∀ m ∈ 0 :: [1, 2, 3], Toml.InRange (.int m) by simp [Toml.InRange])
        (Nat.le_trans (by simp [Toml.moreItems]; omega) hfuel)
  have htarget := hgroups.entry (show Bare "target" by decide) (show Toml.plain? (.text "embedded") = some "\"embedded\"" from rfl) trivial
  have hdevice := (htarget.header (show Bare "synthesis" by decide)).blank.entry (show Bare "device" by decide)
    (show Toml.plain? (.text "ai85") = some "\"ai85\"" from rfl) trivial
  exact (hdevice.entry (show Bare "version" by decide) (show Toml.plain? (.text "0.1.0") = some "\"0.1.0\"" from rfl) trivial :)

theorem toList_template (name : String) : (template name).toList =
    '[' :: (("project".toList ++ [']']) ++ '\n' :: ("name".toList ++ ' ' :: '=' :: ' ' :: '"' ::
      (name.toList ++ '"' :: '\n' :: laterText))) := by
  have hlines : template name =
      String.join (("[project]" :: ("name = \"" ++ name ++ "\"") :: laterLines).map (· ++ "\n")) := rfl
  have hquote : "name = \"".toList = "name".toList ++ [' ', '=', ' ', '"'] := by decide
  rw [hlines, laterText, String.toList_join]
  simp [List.flatMap_map, hquote]

/-! ## Reading the template -/

theorem value_name {name : String} (h : Verbatim name.toList) (fuel : Nat) :
    Toml.value 0 (fuel + 1) (("\"" ++ name ++ "\"").toList ++ '\n' :: laterText) = some (.text name, '\n' :: laterText) := by
  have hshape : ("\"" ++ name ++ "\"").toList ++ '\n' :: laterText = '"' :: (name.toList ++ '"' :: '\n' :: laterText) := by simp
  rw [hshape, Toml.value, Toml.readQuoted_verbatim h]
  simp

def startingEntries (name : String) : List (String × Datum) :=
  [("project", .record [("name", .text name), ("version", .text "0.1.0"), ("device", .text "ai85")]),
   ("synthesis", .record [("target", .text "embedded"), ("groups", .list ([0, 1, 2, 3].map .int)), ("retrieval", .text "unload"),
     ("output-width", .int 8)]),
   ("inputs", .record [("arrays", .text "inputs.json")]), ("output", .record [("dir", .text "out")])]

theorem ofExpressions_starting (name : String) :
    Toml.ofExpressions (.header ⟨[], "project"⟩ :: .entry ⟨[], "name"⟩ (.text name) :: laterExpressions) =
      some (.record (startingEntries name)) := rfl

theorem decode_starting (name : String) : decode (.record (startingEntries name)) = .ok (starting name) := rfl

/-- A name that stands for itself is read back with all else that the template says. -/
theorem ofToml?_template {name : String} (h : Verbatim name.toList) : ofToml? (template name) = some (starting name) := by
  have hname : Reads (template name).toList
      (.header ⟨[], "project"⟩ :: .entry ⟨[], "name"⟩ (.text name) :: laterExpressions) := by
    have hentry := reads_laterText.entryOf (show Bare "name" by decide) (d := .text name)
      (show ("\"" ++ name ++ "\"").toList = '"' :: (name.toList ++ ['"']) by simp) (by decide) (by decide) fun fuel _ => value_name h fuel
    rw [toList_template]
    simpa using hentry.header (show Bare "project" by decide)
  have hparse : Toml.parse (template name) = some (.record (startingEntries name)) := by
    simp only [Toml.parse, hname.unmarked, hname.lines _ (Nat.lt_succ_self _), Option.bind_some, ofExpressions_starting]
  rw [ofToml?, hparse]
  change (decode (.record (startingEntries name))).toOption = _
  rw [decode_starting]
  rfl

theorem ofToml?_eq_some {text : String} {m : Manifest} (h : ofToml? text = some m) :
    ∃ d, Toml.parse text = some d ∧ decode d = .ok m := by
  obtain ⟨d, hparse, hdecode⟩ := Option.bind_eq_some_iff.1 h
  refine ⟨d, hparse, ?_⟩
  cases hd : decode d with
  | error e =>
    rw [hd] at hdecode
    cases hdecode
  | ok m' =>
    rw [hd] at hdecode
    cases hdecode
    rfl

theorem fields_eq_ok {keys : List String} {entries : List (String × Datum)} {f : Decode.Fields}
    (h : Decode.fields .toml keys (.record entries) = .ok f) : f.entries = entries := by
  rw [Decode.fields, if_neg (by simp [Decode.hasSurplus]), Decode.leadingFields] at h
  split at h
  · cases h
  · cases h
    rfl

theorem required_eq_ok {α : Type} {f : Decode.Fields} {key : String} {value : Decoder α} {d : Datum} {a : α}
    (h : f.required key value = .ok a) (hkey : f.entries.lookup key = some d) : value d = .ok a := by
  rwa [Decode.Fields.required, hkey] at h

/-- The name of a manifest is that in its header. -/
theorem name_of_decode {entries inner : List (String × Datum)} {m : Manifest} {text : String}
    (h : decode (.record entries) = .ok m) (htable : entries.lookup "project" = some (.record inner))
    (hkey : inner.lookup "name" = some (.text text)) : m.project.name = text := by
  obtain ⟨f, hf, h⟩ := bind_eq_ok.1 h
  obtain ⟨project, hproject, h⟩ := bind_eq_ok.1 h
  have hheader : m.project = project := by
    obtain ⟨settings, -, h⟩ := bind_eq_ok.1 h
    obtain ⟨arrays, -, h⟩ := bind_eq_ok.1 h
    obtain ⟨output, -, h⟩ := bind_eq_ok.1 h
    cases h
    rfl
  rw [← fields_eq_ok hf] at htable
  obtain ⟨g, hg, h⟩ := bind_eq_ok.1 (required_eq_ok hproject htable)
  obtain ⟨name, hname, h⟩ := bind_eq_ok.1 h
  rw [← fields_eq_ok hg] at hkey
  obtain rfl : text = name := Except.ok.inj (show Decode.text (.text text) = .ok name from required_eq_ok hname hkey)
  obtain ⟨version, -, h⟩ := bind_eq_ok.1 h
  obtain ⟨description, -, h⟩ := bind_eq_ok.1 h
  obtain ⟨device, -, h⟩ := bind_eq_ok.1 h
  cases h
  rw [hheader]

/-- A manifest that is read from the template has what stands between the quotes as its name. -/
theorem name_of_template {name : String} {m : Manifest} (h : ofToml? (template name) = some m) : ∃ text rest,
    Toml.readQuoted ('"' :: (name.toList ++ '"' :: '\n' :: laterText)) = some (text, rest) ∧
      m.project.name = String.ofList text := by
  obtain ⟨d, hparse, hdecode⟩ := ofToml?_eq_some h
  obtain ⟨fuel, v, rest, entries, inner, hvalue, rfl, htable, hkey⟩ :=
    Toml.parse_first (show Bare "project" by decide) (show Bare "name" by decide) (by decide) (by decide) (toList_template name) hparse
  rw [Toml.value] at hvalue
  obtain ⟨⟨text, behind⟩, hread, hpair⟩ := Option.map_eq_some_iff.1 hvalue
  obtain ⟨rfl, rfl⟩ := Prod.mk.inj hpair
  exact ⟨text, behind, hread, name_of_decode hdecode htable hkey⟩

/-- The template is a manifest with the name that went in just when the name stands for itself. -/
theorem template_loads_iff (name : String) :
    (∃ m, ofToml? (template name) = some m ∧ m.project.name = name) ↔ Verbatim name.toList := by
  have hlater : ¬ ['"', '"', '"'] <:+: laterText := by decide +kernel
  constructor
  · rintro ⟨m, hm, hname⟩
    obtain ⟨text, rest, hread, htext⟩ := name_of_template hm
    obtain rfl : text = name.toList := by rw [← hname, htext, String.toList_ofList]
    exact Toml.verbatim_of_readQuoted hlater hread
  · exact fun h => ⟨starting name, ofToml?_template h, rfl⟩

end Manifest

end AccelFirmware
