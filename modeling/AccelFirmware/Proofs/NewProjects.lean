import AccelFirmware.Proofs.WrittenTexts
import Mathlib.Data.List.Nodup

/-!
# New projects and what was there

A new project is refused where its name leads to something. Names that lead nowhere may still stand for a directory that is there: the
empty name for the working directory, and a name that steps back out of a directory that is made on the way. Then the files of the
project take the place of those that are there.
-/

namespace AccelFirmware

namespace Scaffold

variable {name : String} {w w' : World} {made after : FileTree} {p q : Place} {text : String} {entry other : String × String}

/-! ## What a new project consists of -/

def directories (name : String) : List String := ["devices", "out"].map (joinPath name)

def texts (name : String) : List (String × String) := (files name).map fun (file, text) => (joinPath name file, text)

/-- The directory of a project, where its name leads once the directories on the way are there. -/
def place (w : World) (name : String) : Place := (Route.ofPath name).destination w.working

theorem isName_of_mem_files (h : entry ∈ files name) : IsName entry.1 := by
  have hnames : ∀ file ∈ [Manifest.fileName, "inputs.json", ".gitignore"], IsName file := by decide
  exact hnames entry.1 (List.mem_map_of_mem (f := Prod.fst) h)

theorem eq_of_mem_files (h : entry ∈ files name) (h' : other ∈ files name) (hsame : entry.1 = other.1) : entry = other := by
  have hnames : ((files name).map Prod.fst).Nodup := show [Manifest.fileName, "inputs.json", ".gitignore"].Nodup by decide
  exact List.inj_on_of_nodup_map hnames h h' hsame

theorem route_of_makeAll (h : w.files.makeAll w.working (directories name) = (.ok (), made)) (hname : name ≠ "") :
    FileTree.route name = .ok (.ofPath name) := by
  have hdevices : joinPath name "devices" ∈ directories name := by simp [directories]
  have hroute := (FileTree.endsInDirectory_makeAll h hdevices (joinPath_ne_empty name (by decide) (by decide))).1
  exact FileTree.route_of_joinPath hroute (by decide) hname

/-- The directory of a new project is new, if its name has no step back: a directory that is there is found under its name. -/
theorem hasDirectory_place_eq_false (hfiles : w.files.Sound) (habsent : w.files.isPresent w.working name = false)
    (hmake : w.files.makeAll w.working (directories name) = (.ok (), made)) (hname : name ≠ "") (hleave : ".." ∉ pathNames name) :
    w.files.hasDirectory (place w name) = false := by
  by_contra hthere
  have hdirectory : w.files.hasDirectory (place w name) = true := by simpa using hthere
  have hfollow := hfiles.follow_walk hdirectory hleave
  have hlocate : w.files.locate w.working name = .ok (place w name) := by
    refine bind_eq_ok.2 ⟨_, route_of_makeAll hmake hname, ?_⟩
    split
    · exact hfollow
    · rw [List.append_nil]
      exact (FileTree.follow_stay hfollow).1
  rw [FileTree.isPresent, FileTree.node?, hlocate] at habsent
  simp [FileTree.isSome_of_hasDirectory hdirectory] at habsent

/-! ## The files that are written -/

theorem writable_text (hentry : entry ∈ files name) (h : made.writable w.working (joinPath name entry.1) = .ok q) :
    q = place w name ++ [entry.1] := by
  rw [FileTree.writable_eq_destination h, Route.destination_joinPath (isName_of_mem_files hentry)]
  rfl

theorem join_mem_texts (h : entry ∈ files name) : (joinPath name entry.1, entry.2) ∈ texts name := List.mem_map_of_mem h

theorem mem_texts (h : entry ∈ texts name) : ∃ file ∈ files name, (joinPath name file.1, file.2) = entry := List.mem_map.1 h

/-- Only the files of the project can be written. -/
theorem lastText?_eq_some (h : made.lastText? w.working (made.writableFront w.working (texts name)) q = some text) :
    ∃ entry ∈ files name, (joinPath name entry.1, text) ∈ made.writableFront w.working (texts name) ∧ entry.2 = text ∧
      q = place w name ++ [entry.1] := by
  obtain ⟨path, hmem, hwritable⟩ := FileTree.lastText?_eq_some h
  obtain ⟨entry, hentry, hpair⟩ := mem_texts (FileTree.mem_writableFront hmem).1
  obtain ⟨rfl, rfl⟩ := Prod.mk.inj hpair
  exact ⟨entry, hentry, hmem, rfl, writable_text hentry hwritable⟩

/-- A file of the project that is written is what its place holds. -/
theorem get?_of_written (h : made.writeTexts w.working (made.writableFront w.working (texts name)) = .ok after)
    (hentry : entry ∈ files name) (hfront : (joinPath name entry.1, entry.2) ∈ made.writableFront w.working (texts name)) :
    after.get? (place w name ++ [entry.1]) = some (.file entry.2) := by
  obtain ⟨-, q, hq⟩ := FileTree.mem_writableFront hfront
  obtain rfl := writable_text hentry hq
  have hlast : ∃ text, made.lastText? w.working (made.writableFront w.working (texts name)) (place w name ++ [entry.1]) =
      some text := by
    rw [← Option.isSome_iff_exists, FileTree.lastText?, Option.isSome_map, List.find?_isSome]
    exact ⟨_, List.mem_reverse.2 hfront, FileTree.writesTo_iff.2 hq⟩
  obtain ⟨text, hlast⟩ := hlast
  obtain ⟨other, hother, -, rfl, hplace⟩ := lastText?_eq_some hlast
  obtain rfl := eq_of_mem_files hentry hother (by simpa using hplace)
  rw [FileTree.get?_of_writeTexts h, hlast]
  rfl

/-! ## What becomes of a new project -/

theorem createProject_of_present (h : w.files.isPresent w.working name = true) :
    (createProject name).runIn w = (.error (.directoryExists name), w) := by
  rw [createProject, Task.runIn_unlessPresent, if_pos h]

/-- Where there is nothing yet, directories are made up to the first that cannot be, and then files are written up to the first that
cannot be. -/
theorem createProject_of_absent (h : w.files.isPresent w.working name = false) : ∃ result after output,
    (createProject name).runIn w = (result, { w with files := after, output }) ∧
      ((∃ e, w.files.makeAll w.working (directories name) = (.error e, after) ∧ result ≠ .ok ()) ∨
        ∃ made, w.files.makeAll w.working (directories name) = (.ok (), made) ∧
          made.writeTexts w.working (made.writableFront w.working (texts name)) = .ok after ∧
          (result = .ok () ↔ made.writableFront w.working (texts name) = texts name)) := by
  have hbody : (createProject name).runIn w = Task.runIn (do
      ["devices", "out"].forM fun directory =>
        attempt (Shell.makeDirectories (joinPath name directory)) (.makingDirectory directory)
      (files name).forM fun (file, text) =>
        attempt (Shell.writeText (joinPath name file) text) (.writingFile file)
      Shell.printLines (listing name)) w := by
    rw [createProject, Task.runIn_unlessPresent, h]
    rfl
  obtain ⟨making, hmaking, hdone⟩ := Task.runIn_makeAll ["devices", "out"] (joinPath name) .makingDirectory w
  rw [show ["devices", "out"].map (joinPath name) = directories name from rfl] at hmaking hdone
  rw [hbody, Task.runIn_bind, hmaking]
  rcases hmake : w.files.makeAll w.working (directories name) with ⟨error | done, made⟩
  · cases making with
    | ok => simp [hmake] at hdone
    | error e => exact ⟨_, made, w.output, rfl, Or.inl ⟨error, rfl, by simp⟩⟩
  · obtain rfl : making = .ok () := hdone.2 (by rw [hmake])
    obtain ⟨writing, after, hwriting, hafter, hall⟩ :=
      Task.runIn_writeAll (files name) (joinPath name) .writingFile { w with files := made }
    simp only [Task.runIn_bind, hwriting]
    cases writing with
    | error e => exact ⟨_, after, w.output, rfl, Or.inr ⟨made, rfl, hafter, by simpa [texts] using hall⟩⟩
    | ok => exact ⟨_, after, _, rfl, Or.inr ⟨made, rfl, hafter, by simpa [texts] using hall⟩⟩

end Scaffold

/-! ## Files that are lost -/

/-- Every file is still there, with the same text. -/
def World.KeepsFiles (w w' : World) : Prop :=
  ∀ p text, w.files.get? p = some (.file text) → w'.files.get? p = some (.file text)

namespace Scaffold

variable {name : String} {w w' : World} {status : UInt8}

/-- Nothing is found under the name, but its directories can be made, and a file of the project can be written where another file is. -/
def Overwrites (w : World) (name : String) : Prop :=
  w.files.isPresent w.working name = false ∧ ∃ made, w.files.makeAll w.working (directories name) = (.ok (), made) ∧
    ∃ entry ∈ files name, (joinPath name entry.1, entry.2) ∈ made.writableFront w.working (texts name) ∧
      ∃ old, w.files.get? (place w name ++ [entry.1]) = some (.file old) ∧ old ≠ entry.2

theorem not_overwrites (hfiles : w.files.Sound) (hname : name ≠ "") (hleave : ".." ∉ pathNames name) : ¬ Overwrites w name := by
  rintro ⟨habsent, made, hmake, entry, -, -, old, hold, -⟩
  have hthere : (w.files.get? (place w name ++ [entry.1])).isSome = true := by
    rw [hold]
    rfl
  have hdirectory := hfiles.parents _ hthere
  rw [List.dropLast_concat, hasDirectory_place_eq_false hfiles habsent hmake hname hleave] at hdirectory
  cases hdirectory

theorem get?_makeAll_of_file {p : Place} {text : String} (h : w.files.get? p = some (.file text)) (name : String) :
    (w.files.makeAll w.working (directories name)).2.get? p = some (.file text) := by
  rw [(w.files.furnishes_makeAll w.working (directories name)).isSome (by rw [h]; rfl), h]

/-- Once its directories are made, a new project keeps all files just when it overwrites none. -/
theorem keepsFiles_written_iff {made : FileTree} (habsent : w.files.isPresent w.working name = false)
    (hmake : w.files.makeAll w.working (directories name) = (.ok (), made))
    (hwrite : made.writeTexts w.working (made.writableFront w.working (texts name)) = .ok w'.files) :
    w.KeepsFiles w' ↔ ¬ Overwrites w name := by
  constructor
  · rintro hkeeps ⟨-, _, hmake', entry, hentry, hfront, old, hold, hdiffers⟩
    rw [hmake] at hmake'
    cases hmake'
    have hnow := hkeeps _ old hold
    rw [get?_of_written hwrite hentry hfront] at hnow
    exact hdiffers (Node.file.inj (Option.some.inj hnow)).symm
  · intro hover p text hp
    have hmade := get?_makeAll_of_file hp name
    rw [hmake] at hmade
    rw [FileTree.get?_of_writeTexts hwrite, hmade]
    cases hlast : made.lastText? w.working (made.writableFront w.working (texts name)) p with
    | none => rfl
    | some new =>
      obtain ⟨entry, hentry, hfront, rfl, rfl⟩ := lastText?_eq_some hlast
      by_contra hdiffers
      exact hover ⟨habsent, made, hmake, entry, hentry, hfront, text, hp, fun hsame => hdiffers (by rw [hsame]; rfl)⟩

/-- Whether a new project is made or refused, all files that were there are kept, just when it overwrites none. A name that is not empty
and has no step back overwrites none. -/
theorem init_keeps_files_iff (hfiles : w.files.Sound) (h : Session.runIn (Command.init name).perform w = (status, w')) :
    (w.KeepsFiles w' ↔ ¬ Overwrites w name) ∧ (name ≠ "" → ".." ∉ pathNames name → w.KeepsFiles w') := by
  suffices hkeeps : w.KeepsFiles w' ↔ ¬ Overwrites w name from
    ⟨hkeeps, fun hname hleave => hkeeps.2 (not_overwrites hfiles hname hleave)⟩
  have hw' : w'.files = ((createProject name).runIn w).2.files := by
    have hfiles := Command.files_perform (.init name) w
    rwa [h] at hfiles
  cases hpresent : w.files.isPresent w.working name with
  | true =>
    rw [createProject_of_present hpresent] at hw'
    refine iff_of_true (fun p text hp => by rw [hw', hp]) fun ⟨habsent, _⟩ => ?_
    rw [hpresent] at habsent
    cases habsent
  | false =>
    obtain ⟨result, after, output, hrun, hafter⟩ := createProject_of_absent hpresent
    rw [hrun] at hw'
    obtain rfl : w'.files = after := hw'
    rcases hafter with ⟨e, hmake, -⟩ | ⟨made, hmake, hwrite, -⟩
    · refine iff_of_true (fun p text hp => ?_) fun ⟨_, _, hmake', _⟩ => ?_
      · simpa [hmake] using get?_makeAll_of_file hp name
      · rw [hmake] at hmake'
        cases hmake'
    · exact keepsFiles_written_iff hpresent hmake hwrite

/-- The empty name leads nowhere and stands for the working directory, where another project may be. -/
theorem init_overwrites_manifest : ∃ w w', w.files.Sound ∧ Session.runIn (Command.init "").perform w = (0, w') ∧
    w.files.get? ["cnnsynth.toml"] = some (.file "[project]\nname = \"mine\"\n") ∧ Overwrites w "" := by
  have hfiles : (FileTree.empty.put ["cnnsynth.toml"] (.file "[project]\nname = \"mine\"\n")).Sound :=
    FileTree.sound_empty.put (p := []) rfl (by decide) rfl _
  refine ⟨⟨_, [], "", ""⟩, _, hfiles, Prod.ext (by decide +kernel) rfl, rfl, ?_⟩
  obtain ⟨hkeeps, -⟩ := init_keeps_files_iff (w := ⟨_, [], "", ""⟩) hfiles
    (show Session.runIn (Command.init "").perform ⟨_, [], "", ""⟩ = _ from rfl)
  by_contra hover
  have hkept := hkeeps.2 hover ["cnnsynth.toml"] "[project]\nname = \"mine\"\n" rfl
  revert hkept
  decide +kernel

end Scaffold

end AccelFirmware
