import AccelFirmware.Proofs.NewProjects
import AccelFirmware.Proofs.Preparations
import AccelFirmware.Proofs.StartingManifests

/-!
# New projects that load

The manifest of a new project is read back with its name just when the name stands for itself between quotes. Then a program can be
prepared in the project as long as the path of the manifest is not too long and its device is the built-in one; only a project that is
put into a directory that was there before can have another device of that name.
-/

namespace AccelFirmware

open Toml (Verbatim)

namespace Scaffold

variable {name : String} {w w' : World} {entry : String × String}

/-! ## The files of a new project -/

theorem createProject_eq_ok (h : (createProject name).runIn w = (.ok (), w')) :
    w.files.isPresent w.working name = false ∧ w'.working = w.working ∧
      ∃ made, w.files.makeAll w.working (directories name) = (.ok (), made) ∧
        made.writableFront w.working (texts name) = texts name ∧ made.writeTexts w.working (texts name) = .ok w'.files := by
  cases hpresent : w.files.isPresent w.working name with
  | true =>
    rw [createProject_of_present hpresent] at h
    cases h
  | false =>
    obtain ⟨result, after, output, hrun, hafter⟩ := createProject_of_absent hpresent
    rw [hrun] at h
    cases h
    rcases hafter with ⟨e, -, hfailed⟩ | ⟨made, hmake, hwrite, hall⟩
    · exact absurd rfl hfailed
    · have hfront := hall.1 rfl
      rw [hfront] at hwrite
      exact ⟨rfl, rfl, made, hmake, hfront, hwrite⟩

/-- The files of a new project are in its directory. -/
theorem get?_of_created (h : (createProject name).runIn w = (.ok (), w')) (hentry : entry ∈ files name) :
    w'.files.get? (place w name ++ [entry.1]) = some (.file entry.2) := by
  obtain ⟨-, -, made, -, hfront, hwrite⟩ := createProject_eq_ok h
  rw [← hfront] at hwrite
  refine get?_of_written hwrite hentry ?_
  rw [hfront]
  exact join_mem_texts hentry

theorem sound_createProject (hfiles : w.files.Sound) (h : (createProject name).runIn w = (.ok (), w')) : w'.files.Sound := by
  obtain ⟨-, -, made, hmake, -, hwrite⟩ := createProject_eq_ok h
  have hmade := hfiles.makeAll w.working (directories name)
  rw [hmake] at hmade
  exact hmade.writeTexts hwrite

/-- A file of a new project is read back by its path. -/
theorem readText_of_created (h : (createProject name).runIn w = (.ok (), w')) (hentry : entry ∈ files name) :
    w'.files.readText w'.working (joinPath name entry.1) = .ok entry.2 := by
  obtain ⟨-, hworking, made, -, -, hwrite⟩ := createProject_eq_ok h
  obtain ⟨before, after, hsplit⟩ := List.append_of_mem (join_mem_texts hentry)
  rw [hsplit] at hwrite
  obtain ⟨p, -, hlocate, -⟩ := FileTree.readText_writeTexts hwrite
  obtain rfl : p = place w name ++ [entry.1] := by
    rw [FileTree.locate_eq_destination hlocate, Route.destination_joinPath (isName_of_mem_files hentry)]
    rfl
  rw [hworking]
  exact FileTree.readText_of_file hlocate (get?_of_created h hentry)

end Scaffold

/-! ## Working in the new project -/

/-- The same world, seen from another directory. -/
def World.movedTo (w : World) (p : Place) : World := { w with working := p }

/-- The configuration that a new project starts with. -/
def Manifest.startingConfiguration : Configuration := ⟨startingSettings, by decide⟩

namespace Scaffold

variable {name : String} {w w' : World}

/-- The new project as it is found in its directory. -/
def started (w : World) (name : String) : Project := ⟨(place w name).path, .starting name⟩

/-- Where the path of the manifest is not too long, that of the arrays is not either. -/
theorem utf8ByteSize_arrays_le (base : String) :
    (joinPath base "inputs.json").utf8ByteSize ≤ (joinPath base Manifest.fileName).utf8ByteSize := by
  have hsize {file : String} (hfile : isAbsolute file = false) : (joinPath base file).utf8ByteSize =
      (if base.isEmpty || endsInSlash base then base else base ++ "/").utf8ByteSize + file.utf8ByteSize := by
    rw [joinPath, hfile, if_neg Bool.false_ne_true]
    split <;> exact String.utf8ByteSize_append
  rw [hsize (by decide), hsize (by decide)]
  exact Nat.add_le_add_left (by decide) _

/-- A file of a new project is found by its path from the root. -/
theorem node?_of_created (hfiles : w.files.Sound) (h : (createProject name).runIn w = (.ok (), w')) {entry : String × String}
    (hentry : entry ∈ files name) (hroom : (joinPath (place w name).path entry.1).utf8ByteSize ≤ FileTree.maxPath) (working : Place) :
    w'.files.node? working (joinPath (place w name).path entry.1) = some (.file entry.2) := by
  have hget := get?_of_created h hentry
  have hsound := sound_createProject hfiles h
  have hnames : ∀ step ∈ place w name, IsName step := fun step hstep =>
    hsound.names _ (by rw [hget]; rfl) step (List.mem_append_left _ hstep)
  rw [hsound.node?_entry hnames (isName_of_mem_files hentry) hroom, hget]

theorem runIn_find_started (hfiles : w.files.Sound) (h : (createProject name).runIn w = (.ok (), w')) (hname : Verbatim name.toList)
    (hroom : (joinPath (place w name).path Manifest.fileName).utf8ByteSize ≤ FileTree.maxPath) :
    Project.find.runIn (w'.movedTo (place w name)) = (.ok (some (started w name)), w'.movedTo (place w name)) := by
  obtain ⟨outer, houtward⟩ := (place w name).outward_eq_cons
  have hentry : (Manifest.fileName, Manifest.template name) ∈ files name := by simp [files]
  have hnode := node?_of_created hfiles h hentry hroom (place w name)
  rw [Project.runIn_find, show (w'.movedTo (place w name)).working = place w name from rfl, houtward]
  exact Project.runIn_findFrom_of_manifest hnode (Manifest.ofToml?_template hname) outer

theorem runIn_loadInputs_started (hfiles : w.files.Sound) (h : (createProject name).runIn w = (.ok (), w'))
    (hroom : (joinPath (place w name).path Manifest.fileName).utf8ByteSize ≤ FileTree.maxPath) :
    (started w name).loadInputs.runIn (w'.movedTo (place w name)) = (.ok .empty, w'.movedTo (place w name)) := by
  have hentry : ("inputs.json", "{}\n") ∈ files name := by simp [files]
  have hnode := node?_of_created hfiles h hentry (Nat.le_trans (utf8ByteSize_arrays_le _) hroom) (place w name)
  exact Project.runIn_loadInputs_eq_ok.2 ⟨rfl, Or.inr ⟨"inputs.json", "{}\n", rfl, FileTree.readText_of_node? hnode, rfl⟩⟩

/-! ## A dry run in the new project -/

/-- A run of the generator that writes nothing. -/
def dryRun : Command := .generate ⟨none, none, false, true⟩

/-- A dry run in a new project succeeds if its device is found and can run the program that a project starts with. -/
theorem dryRun_eq_zero_iff (hfiles : w.files.Sound) (h : (createProject name).runIn w = (.ok (), w')) (hname : Verbatim name.toList)
    (hroom : (joinPath (place w name).path Manifest.fileName).utf8ByteSize ≤ FileTree.maxPath) :
    (Session.runIn dryRun.perform (w'.movedTo (place w name))).1 = 0 ↔ ∃ d s,
      (DeviceFile.resolve (place w name).path "ai85").runIn (w'.movedTo (place w name)) = (.ok d, w'.movedTo (place w name)) ∧
        Synthesis.run Manifest.startingConfiguration d .empty = .ok s := by
  have hfind := runIn_find_started hfiles h hname hroom
  have hinputs := runIn_loadInputs_started hfiles h hroom
  have hrun : Task.runIn dryRun.run (w'.movedTo (place w name)) =
      ((started w name).generate ⟨none, none, false, true⟩).runIn (w'.movedTo (place w name)) := by
    change Task.runIn (Project.find >>= _) _ = _
    rw [Task.runIn_bind, hfind]
  have hbuild : (started w name).manifest.settings.build = .ok Manifest.startingConfiguration := rfl
  rw [Command.runIn_perform, hrun, Project.runIn_generate_dry _ rfl]
  constructor
  · intro hstatus
    rcases hsynthesis : ((started w name).synthesize none).runIn (w'.movedTo (place w name)) with ⟨e | s, between⟩
    · simp [hsynthesis] at hstatus
    · obtain ⟨-, d, config, inputs, hdevice, hconfig, harrays, hs⟩ := Project.runIn_synthesize_eq_ok.1 hsynthesis
      rw [hbuild] at hconfig
      rw [hinputs] at harrays
      cases hconfig
      cases harrays
      exact ⟨d, s, hdevice, hs⟩
  · rintro ⟨d, s, hdevice, hs⟩
    have hsynthesis : ((started w name).synthesize none).runIn (w'.movedTo (place w name)) = (.ok s, w'.movedTo (place w name)) :=
      Project.runIn_synthesize_eq_ok.2 ⟨rfl, d, _, .empty, hdevice, hbuild, hinputs, hs⟩
    simp [hsynthesis]

/-- The texts of a new project do not go to places among its devices. -/
theorem get?_among_devices {made : FileTree} (hfront : made.writableFront w.working (texts name) = texts name)
    (hwrite : made.writeTexts w.working (texts name) = .ok w'.files) (file : String) :
    w'.files.get? (place w name ++ ["devices"] ++ [file]) = made.get? (place w name ++ ["devices"] ++ [file]) := by
  have hlast : made.lastText? w.working (texts name) (place w name ++ ["devices"] ++ [file]) = none := by
    by_contra hsome
    obtain ⟨text, htext⟩ := Option.ne_none_iff_exists'.1 hsome
    rw [← hfront] at htext
    obtain ⟨entry, -, -, -, hplace⟩ := lastText?_eq_some htext
    simpa using congrArg List.length hplace
  rw [FileTree.get?_of_writeTexts hwrite, hlast]
  rfl

/-- The directories of a new project end above what may be among its devices. -/
theorem not_onWay_among_devices (hleave : ".." ∉ pathNames name) (file : String) :
    ¬ ∃ path ∈ directories name, (Route.ofPath path).OnWay w.working (place w name ++ ["devices"] ++ [file]) := by
  rintro ⟨path, hpath, hway⟩
  obtain ⟨directory, hdirectory, rfl⟩ := List.mem_map.1 hpath
  have hshape : IsName directory := (by decide : ∀ file ∈ ["devices", "out"], IsName file) directory hdirectory
  have hsteps : ".." ∉ (Route.ofPath (joinPath name directory)).steps := by
    rw [ofPath_joinPath name hshape.slash hshape.nonempty]
    simpa using ⟨hleave, hshape.ne_dots.2.symm⟩
  have hlength := (hway.prefix_destination hsteps).length_le
  rw [Route.destination_joinPath hshape] at hlength
  simp [place] at hlength

/-- In a directory that is new, there are no devices yet. -/
theorem not_mem_devices (hfiles : w.files.Sound) (h : (createProject name).runIn w = (.ok (), w')) (hname : name ≠ "")
    (hleave : ".." ∉ pathNames name) (file : String) :
    file ∉ (w'.movedTo (place w name)).files.listed (w'.movedTo (place w name)).working
      (DeviceFile.directory (place w name).path) := by
  intro hlisted
  obtain ⟨habsent, -, made, hmake, hfront, hwrite⟩ := createProject_eq_ok h
  have hentry : (Manifest.fileName, Manifest.template name) ∈ files name := by simp [files]
  have hnames : ∀ step ∈ place w name, IsName step := fun step hstep =>
    (sound_createProject hfiles h).names _ (by rw [get?_of_created h hentry]; rfl) step (List.mem_append_left _ hstep)
  obtain ⟨q, hlocate, -, hthere⟩ := FileTree.mem_listed.1 hlisted
  obtain rfl : q = place w name ++ ["devices"] := by
    rw [FileTree.locate_eq_destination hlocate, DeviceFile.directory, Route.destination_joinPath (by decide),
      Route.destination_path hnames]
  have hmade : (made.get? (place w name ++ ["devices"] ++ [file])).isSome = true := by
    rw [← get?_among_devices hfront hwrite]
    exact hthere
  have hfurnishes := w.files.furnishes_makeAll w.working (directories name)
  rw [hmake] at hfurnishes
  rcases hfurnishes (place w name ++ ["devices"] ++ [file]) with hsame | ⟨-, -, hway⟩
  · rw [hsame, List.append_assoc] at hmade
    have hdirectory := hfiles.hasDirectory_of_append (by simp) hmade
    rw [hasDirectory_place_eq_false hfiles habsent hmake hname hleave] at hdirectory
    cases hdirectory
  · exact not_onWay_among_devices hleave file hway

/-- A new project is read back with its name just when that stands for itself between quotes. Then a dry run in it succeeds if the
device is found and can run the program, and always where the directory is new. -/
theorem init_loads_iff (hfiles : w.files.Sound) (h : Session.runIn (Command.init name).perform w = (0, w')) :
    ((∃ text manifest config, w'.files.readText w'.working (joinPath name Manifest.fileName) = .ok text ∧
        Manifest.ofToml? text = some manifest ∧ manifest.project.name = name ∧ manifest.settings.build = .ok config) ↔
      Verbatim name.toList) ∧
    (Verbatim name.toList → (joinPath (place w name).path Manifest.fileName).utf8ByteSize ≤ FileTree.maxPath →
      ((Session.runIn dryRun.perform (w'.movedTo (place w name))).1 = 0 ↔ ∃ d s,
        (DeviceFile.resolve (place w name).path "ai85").runIn (w'.movedTo (place w name)) = (.ok d, w'.movedTo (place w name)) ∧
          Synthesis.run Manifest.startingConfiguration d .empty = .ok s) ∧
      (name ≠ "" → ".." ∉ pathNames name → (Session.runIn dryRun.perform (w'.movedTo (place w name))).1 = 0)) := by
  have hcreate : (createProject name).runIn w = (.ok (), w') := Command.perform_eq_zero.1 h
  have hentry : (Manifest.fileName, Manifest.template name) ∈ files name := by simp [files]
  have hread : w'.files.readText w'.working (joinPath name Manifest.fileName) = .ok (Manifest.template name) :=
    (readText_of_created hcreate hentry :)
  constructor
  · rw [← Manifest.template_loads_iff]
    constructor
    · rintro ⟨text, manifest, config, htext, hmanifest, hproject, -⟩
      rw [hread] at htext
      obtain rfl := Except.ok.inj htext
      exact ⟨manifest, hmanifest, hproject⟩
    · intro hloads
      have hverbatim := (Manifest.template_loads_iff name).1 hloads
      exact ⟨_, _, Manifest.startingConfiguration, hread, Manifest.ofToml?_template hverbatim, rfl, rfl⟩
  · intro hverbatim hroom
    have hdry := dryRun_eq_zero_iff hfiles hcreate hverbatim hroom
    refine ⟨hdry, fun hname hleave => hdry.2 ?_⟩
    obtain ⟨s, hs⟩ := Synthesis.exists_run (c := Manifest.startingConfiguration) (d := .ai85) (i := .empty) (by decide)
    refine ⟨.ai85, s, ?_, hs⟩
    rw [DeviceFile.runIn_resolve, if_neg (not_mem_devices hfiles hcreate hname hleave _)]
    rfl

/-- A name with a quote makes a project that does not load; a plain one makes one in which a dry run succeeds. -/
theorem init_quote_does_not_load : ∃ w' w'',
    Session.runIn (Command.init "a\"b").perform ⟨.empty, [], "", ""⟩ = (0, w') ∧
      ¬ (∃ text manifest config, w'.files.readText w'.working (joinPath "a\"b" Manifest.fileName) = .ok text ∧
        Manifest.ofToml? text = some manifest ∧ manifest.project.name = "a\"b" ∧ manifest.settings.build = .ok config) ∧
      Session.runIn (Command.init "demo").perform ⟨.empty, [], "", ""⟩ = (0, w'') ∧
      (Session.runIn dryRun.perform (w''.movedTo (place ⟨.empty, [], "", ""⟩ "demo"))).1 = 0 := by
  obtain ⟨w', hw'⟩ : ∃ w', Session.runIn (Command.init "a\"b").perform ⟨.empty, [], "", ""⟩ = (0, w') :=
    ⟨_, Prod.ext (by decide +kernel) rfl⟩
  obtain ⟨w'', hw''⟩ : ∃ w'', Session.runIn (Command.init "demo").perform ⟨.empty, [], "", ""⟩ = (0, w'') :=
    ⟨_, Prod.ext (by decide +kernel) rfl⟩
  obtain ⟨hloads, -⟩ := init_loads_iff FileTree.sound_empty hw'
  obtain ⟨-, hdry⟩ := init_loads_iff FileTree.sound_empty hw''
  exact ⟨w', w'', hw', fun h => absurd (hloads.1 h) (by decide), hw'',
    (hdry (by decide) (by decide +kernel)).2 (by decide) (by decide)⟩

end Scaffold

end AccelFirmware
