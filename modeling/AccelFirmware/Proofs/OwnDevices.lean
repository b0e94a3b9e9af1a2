import AccelFirmware.Proofs.DeviceFiles
import AccelFirmware.Proofs.Directories
import AccelFirmware.Proofs.Sessions

/-!
# Devices of a project

A device of a project is found by the name of its file, which is one entry of the directory for devices. The file that is made for
a new device is at a path that the name is part of, so it is that entry just when the name has no slash.
-/

namespace AccelFirmware

/-! ## Names of files -/

namespace FileTree

variable {t : FileTree} {working p : Place} {name path : String}

theorem mem_names : name ∈ t.names p ↔ (t.get? (p ++ [name])).isSome = true := by
  have hplace (q : Place) : (if q.dropLast = p then q.getLast? else none) = some name ↔ q = p ++ [name] := by
    constructor
    · intro h
      split at h
      · rename_i hparent
        rw [← hparent, List.dropLast_append_getLast? name h]
      · cases h
    · rintro rfl
      simp
  have hsome : (t.get? (p ++ [name])).isSome = true ↔ ∃ e ∈ t.entries, e.1 = p ++ [name] := by
    rw [get?, if_neg (by simp)]
    constructor
    · intro h
      obtain ⟨n, hn⟩ := Option.isSome_iff_exists.1 h
      obtain ⟨front, back, hsplit, -⟩ := List.lookup_eq_some_iff.1 hn
      exact ⟨(p ++ [name], n), by simp [hsplit], rfl⟩
    · rintro ⟨e, he, hplace⟩
      by_contra hnone
      simpa [hplace] using List.lookup_eq_none_iff.1 (Option.not_isSome_iff_eq_none.1 hnone) e he
  rw [names, List.mem_filterMap, hsome]
  simp only [hplace]

/-- The names in a directory, none where there is no directory. -/
def listed (t : FileTree) (working : Place) (path : String) : List String :=
  match t.locate working path with
  | .ok p => if t.hasDirectory p then t.names p else []
  | .error _ => []

theorem mem_listed : name ∈ t.listed working path ↔
    ∃ p, t.locate working path = .ok p ∧ t.hasDirectory p = true ∧ (t.get? (p ++ [name])).isSome = true := by
  rw [listed]
  cases t.locate working path with
  | error e => simp
  | ok p => cases hdirectory : t.hasDirectory p <;> simp [hdirectory, mem_names]

end FileTree

namespace DeviceFile

variable {file name project : String} {w w' : World}

theorem deviceName?_eq_some : deviceName? file = some name ↔ file = name ++ suffix := by
  rw [deviceName?]
  constructor
  · intro h
    split at h
    · rename_i hfile
      cases h
      exact String.toList_inj.1 (by simpa using hfile.symm)
    · cases h
  · rintro rfl
    have hstem : (name ++ suffix).toList.take ((name ++ suffix).length - suffix.length) = name.toList := by
      rw [String.length_append, Nat.add_sub_cancel, String.toList_append, ← String.length_toList, List.take_left]
    simp only [hstem]
    rw [if_pos (String.toList_append ..).symm, String.ofList_toList]

/-- A device of a project is looked up under the name of its file. -/
theorem lookup_ofNames (directory : String) (files : List String) (name : String) :
    (ofNames directory files).lookup name =
      if name ++ suffix ∈ files then some (joinPath directory (name ++ suffix)) else none := by
  have hmem (path : String) : (name, path) ∈ ofNames directory files ↔
      name ++ suffix ∈ files ∧ path = joinPath directory (name ++ suffix) := by
    simp only [ofNames, List.mem_mergeSort, List.mem_filterMap, Option.map_eq_some_iff, deviceName?_eq_some, Prod.mk.injEq]
    constructor
    · rintro ⟨_, hfile, _, rfl, rfl, rfl⟩
      exact ⟨hfile, rfl⟩
    · rintro ⟨hfile, rfl⟩
      exact ⟨_, hfile, _, rfl, rfl, rfl⟩
  split
  · rename_i hfile
    cases hlookup : (ofNames directory files).lookup name with
    | none =>
      have hentry := (hmem _).2 ⟨hfile, rfl⟩
      simpa using List.lookup_eq_none_iff.1 hlookup _ hentry
    | some path =>
      obtain ⟨front, back, hsplit, -⟩ := List.lookup_eq_some_iff.1 hlookup
      rw [((hmem path).1 (by simp [hsplit])).2]
  · rename_i hfile
    refine List.lookup_eq_none_iff.2 fun e he => bne_iff_ne.2 ?_
    rintro rfl
    exact hfile ((hmem e.2).1 he).1

/-! ## Finding a device -/

theorem runIn_all (project : String) (w : World) : Session.runIn (all project) w =
    (.ok (ofNames (directory project) (w.files.listed w.working (directory project))), w) := by
  have hnone : ofNames (directory project) [] = [] := by simp [ofNames]
  have hquestion : w.files.isDirectory w.working (directory project) =
      (w.files.node? w.working (directory project) = some .directory : Bool) := rfl
  rw [all, Session.runIn_bind, Session.runIn_isDirectory, hquestion, FileTree.node?, FileTree.listed]
  cases hlocate : w.files.locate w.working (directory project) with
  | error e =>
    rw [hnone]
    rfl
  | ok p =>
    have hnames : w.files.listNames w.working (directory project) =
        if w.files.hasDirectory p then .ok (w.files.names p) else .error .notDirectory := by
      rw [FileTree.listNames, hlocate]
      rfl
    change Session.runIn (if w.files.hasDirectory p then _ else _) w =
      (Except.ok (ofNames (directory project) (if w.files.hasDirectory p then w.files.names p else [])), w)
    cases hp : w.files.hasDirectory p with
    | false =>
      rw [if_neg Bool.false_ne_true, if_neg Bool.false_ne_true, hnone]
      rfl
    | true =>
      rw [if_pos rfl, if_pos rfl, Session.runIn_bind, Session.runIn_listNames, hnames, hp]
      rfl

/-- A device is the one of its file, if the directory for devices has that file, or else a built-in one. -/
theorem runIn_resolve (project name : String) (w : World) : (resolve project name).runIn w =
    if name ++ suffix ∈ w.files.listed w.working (directory project) then (load (path project name)).runIn w
    else match Preset.find? name with
      | some device => (.ok device, w)
      | none => (.error (.unknownDevice name), w) := by
  have hall : (attempt (all project) (.scanningDevices project) : Task Session _).runIn w =
      (.ok (ofNames (directory project) (w.files.listed w.working (directory project))), w) := by
    rw [Task.runIn_attempt, runIn_all]
  rw [resolve, Task.runIn_bind, hall]
  simp only [lookup_ofNames]
  by_cases hlisted : name ++ suffix ∈ w.files.listed w.working (directory project)
  · rw [if_pos hlisted, if_pos hlisted]
    rfl
  · rw [if_neg hlisted, if_neg hlisted]
    cases Preset.find? name <;> rfl

theorem runIn_load_eq_ok {path : String} {d : Device} : (load path).runIn w = (.ok d, w') ↔
    w' = w ∧ ∃ text, w.files.readText w.working path = .ok text ∧ Device.ofToml text = .ok d := by
  rw [load, Task.runIn_bind_eq_ok]
  simp only [Task.runIn_readText]
  cases w.files.readText w.working path with
  | error e => simp [Except.mapError]
  | ok text =>
    cases hdevice : Device.ofToml text with
    | error e => simp [Except.mapError, hdevice]
    | ok device => simp [Except.mapError, hdevice, Task.runIn_pure, eq_comm, and_comm]

/-- No built-in device has a slash in its name. -/
theorem find?_of_slash (h : '/' ∈ name.toList) : Preset.find? name = none := by
  have hpresets : ∀ preset ∈ Preset.all, '/' ∉ preset.device.name.toList := by decide
  rw [Preset.find?, Option.map_eq_none_iff, List.find?_eq_none]
  intro preset hpreset hname
  exact hpresets preset hpreset ((beq_iff_eq.1 hname).symm ▸ h)

/-- In a sound tree, no device is found under a name with a slash. -/
theorem resolve_of_slash (hfiles : w.files.Sound) (h : '/' ∈ name.toList) :
    (resolve project name).runIn w = (.error (.unknownDevice name), w) := by
  rw [runIn_resolve, if_neg, find?_of_slash h]
  intro hlisted
  obtain ⟨p, -, -, hthere⟩ := FileTree.mem_listed.1 hlisted
  have hname : IsName (name ++ suffix) := hfiles.names _ hthere _ (by simp)
  exact hname.slash (by simp [h])

end DeviceFile

/-! ## Making a device -/

/-- Of all files, at most the one at a place differs. -/
def World.SameFilesBut (w w' : World) (p : Place) : Prop :=
  ∀ q text, q ≠ p → (w'.files.get? q = some (.file text) ↔ w.files.get? q = some (.file text))

/-- Of all files, at most one differs, and it is an entry of the directory for devices. -/
def World.OneDeviceDiffers (w w' : World) (project : String) : Prop :=
  ∃ p file, w'.files.locate w'.working (DeviceFile.directory project) = .ok p ∧ w.SameFilesBut w' (p ++ [file])

namespace Scaffold

open DeviceFile (suffix)

variable {name project : String} {w w' : World} {made files : FileTree} {text : String}

theorem createDevice_eq_ok (h : (createDevice project name).runIn w = (.ok (), w')) : ∃ made files,
    w.files.makeDirectories w.working (DeviceFile.directory project) = (.ok (), made) ∧
      made.writeText w.working (DeviceFile.path project name) (Device.template name).toml = .ok files ∧
      files = w'.files ∧ w'.working = w.working := by
  rw [createDevice, Task.runIn_unlessPresent] at h
  split at h
  · cases h
  · obtain ⟨_, _, hmake, h⟩ := Task.runIn_bind_eq_ok.1 h
    obtain ⟨_, _, hwrite, h⟩ := Task.runIn_bind_eq_ok.1 h
    obtain ⟨made, hmade, rfl⟩ := Task.runIn_makeDirectories_eq_ok.1 hmake
    obtain ⟨files, hfiles, rfl⟩ := Task.runIn_writeText_eq_ok.1 hwrite
    cases h
    exact ⟨made, files, hmade, hfiles, rfl, rfl⟩

/-- The path of the directory for devices. -/
theorem ofPath_directory (project : String) :
    Route.ofPath (DeviceFile.directory project) = ⟨isAbsolute project, pathNames project ++ ["devices"], false⟩ :=
  ofPath_joinPath project (by decide) (by decide)

/-- A device with a name without a slash is written as an entry of the directory for devices, which is made if it is not there. -/
theorem get?_createDevice (h : (createDevice project name).runIn w = (.ok (), w')) (hname : '/' ∉ name.toList) : ∃ p made,
    w.files.makeDirectories w.working (DeviceFile.directory project) = (.ok (), made) ∧
      w'.files.locate w'.working (DeviceFile.directory project) = .ok p ∧ w'.files.hasDirectory p = true ∧
      w'.files.locate w'.working (DeviceFile.path project name) = .ok (p ++ [name ++ suffix]) ∧
      ∀ q, w'.files.get? q = if q = p ++ [name ++ suffix] then some (.file (Device.template name).toml) else made.get? q := by
  obtain ⟨made, _, hmade, hwrite, rfl, hworking⟩ := createDevice_eq_ok h
  have hslash : '/' ∉ (name ++ suffix).toList := by
    rw [String.toList_append, List.mem_append, not_or]
    exact ⟨hname, by decide⟩
  have hempty : name ++ suffix ≠ "" := by
    rw [← String.toList_inj.ne]
    simp [suffix]
  obtain ⟨p, hp, hdirectory, -, hnew, hfiles, hlocate⟩ := FileTree.writeText_joinPath hslash hempty hwrite
  obtain ⟨hroute, -⟩ := FileTree.makeDirectories_eq_ok hmade (joinPath_ne_empty project (by decide) (by decide))
  -- The directory is found where it was when the file was written.
  have hplace : made.locate w.working (DeviceFile.directory project) = .ok p := by
    refine bind_eq_ok.2 ⟨_, hroute, ?_⟩
    have hend : (Route.ofPath (DeviceFile.directory project)).slash = false := by rw [ofPath_directory]
    rw [hend, if_neg Bool.false_ne_true, List.append_nil]
    exact hp
  rw [hworking, hfiles]
  refine ⟨p, made, hmade, FileTree.locate_put_file hnew _ hplace, ?_, hfiles ▸ hlocate, fun q => FileTree.get?_put (by simp) _⟩
  rw [FileTree.hasDirectory_put_file hnew]
  exact hdirectory

/-- A name without a slash is that of an entry of the directory for devices, under which the new device is found. -/
theorem createDevice_of_plain (h : (createDevice project name).runIn w = (.ok (), w')) (hname : '/' ∉ name.toList) :
    (DeviceFile.resolve project name).runIn w' = (.ok (Device.template name), w') ∧ w.OneDeviceDiffers w' project := by
  obtain ⟨p, made, hmade, hplace, hdirectory, hlocate, hget⟩ := get?_createDevice h hname
  have hnew : w'.files.get? (p ++ [name ++ suffix]) = some (.file (Device.template name).toml) := by rw [hget, if_pos rfl]
  have hlisted : name ++ suffix ∈ w'.files.listed w'.working (DeviceFile.directory project) :=
    FileTree.mem_listed.2 ⟨p, hplace, hdirectory, by rw [hnew]; rfl⟩
  constructor
  · rw [DeviceFile.runIn_resolve, if_pos hlisted, DeviceFile.runIn_load_eq_ok]
    exact ⟨rfl, _, FileTree.readText_of_file hlocate hnew, Device.ofToml_toml _⟩
  · refine ⟨p, name ++ suffix, hplace, fun q text hq => ?_⟩
    rw [hget, if_neg hq]
    have hmade' := FileTree.furnishes_makeDirectories w.files w.working (DeviceFile.directory project) q
    rw [hmade] at hmade'
    rcases hmade' with hsame | ⟨hnone, hdir, -⟩
    · rw [hsame]
    · rw [hnone, hdir]
      simp

theorem sound_createDevice (hfiles : w.files.Sound) (h : (createDevice project name).runIn w = (.ok (), w')) : w'.files.Sound := by
  obtain ⟨made, _, hmade, hwrite, rfl, -⟩ := createDevice_eq_ok h
  have hsound := hfiles.makeDirectories w.working (DeviceFile.directory project)
  rw [hmade] at hsound
  exact hsound.writeText hwrite

end Scaffold

/-! ## Finding the device that has been made -/

namespace DeviceCommand

variable {name : String} {w w' : World}

/-- A device file that was made is the only file that differs and is found under the name of the device, just when that name has no
slash: a path with more names in it leaves the directory for devices, or is not the entry that the device is looked up under. -/
theorem template_resolves_iff (hfiles : w.files.Sound)
    (h : Session.runIn (Command.device (.template name)).perform w = (0, w')) :
    ∃ project, Project.directoryOrWorking.runIn w = (.ok project, w) ∧
      ((DeviceFile.resolve project name).runIn w' = (.ok { Device.ai85 with name }, w') ∧ w.OneDeviceDiffers w' project ↔
        '/' ∉ name.toList) := by
  obtain ⟨project, between, hproject, hcreate⟩ := Task.runIn_bind_eq_ok.1 (Command.perform_eq_zero.1 h)
  obtain rfl := Project.quiet_directoryOrWorking.eq_ok hproject
  refine ⟨project, hproject, fun ⟨hresolve, _⟩ hslash => ?_, Scaffold.createDevice_of_plain hcreate⟩
  rw [DeviceFile.resolve_of_slash (Scaffold.sound_createDevice hfiles hcreate) hslash] at hresolve
  cases hresolve

theorem template_resolves_outside : ∃ w' project,
    Session.runIn (Command.device (.template "../board")).perform ⟨.empty, [], "", ""⟩ = (0, w') ∧
      Project.directoryOrWorking.runIn ⟨.empty, [], "", ""⟩ = (.ok project, ⟨.empty, [], "", ""⟩) ∧
      ¬ ((DeviceFile.resolve project "../board").runIn w' = (.ok { Device.ai85 with name := "../board" }, w') ∧
        World.OneDeviceDiffers ⟨.empty, [], "", ""⟩ w' project) := by
  obtain ⟨w', hw'⟩ : ∃ w', Session.runIn (Command.device (.template "../board")).perform ⟨.empty, [], "", ""⟩ = (0, w') :=
    ⟨_, Prod.ext (by decide +kernel) rfl⟩
  obtain ⟨project, hproject, hresolves⟩ := template_resolves_iff FileTree.sound_empty hw'
  exact ⟨w', project, hw', hproject, fun h => absurd (hresolves.1 h) (by decide)⟩

end DeviceCommand

end AccelFirmware
