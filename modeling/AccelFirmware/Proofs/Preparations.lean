import AccelFirmware.Proofs.OwnDevices
import AccelFirmware.Proofs.WrittenTexts

/-!
# Preparing a program

A program is prepared from what is read: the manifest of the innermost directory around that has one, a device, and the arrays. All
of this leaves the world as it is; what can fail in it fails before anything is printed or written.
-/

namespace AccelFirmware

variable {w w' : World}

/-! ## Finding a project -/

theorem Place.outward_eq_cons (p : Place) : ∃ outer, p.outward = p :: outer := by
  refine ⟨((List.range p.length).map p.take).reverse, ?_⟩
  rw [Place.outward, List.range_succ, List.map_append, List.reverse_append]
  simp

theorem Place.prefix_of_mem_outward {p q : Place} (h : q ∈ p.outward) : q <+: p := by
  rw [Place.outward, List.mem_reverse] at h
  obtain ⟨k, -, rfl⟩ := List.mem_map.1 h
  exact List.take_prefix k p

namespace Project

/-- The search ends at the first manifest there is, whether it can be read or not. -/
theorem runIn_findFrom_cons (place : Place) (places : List Place) (w : World) : (findFrom (place :: places)).runIn w =
    match w.files.node? w.working (joinPath place.path Manifest.fileName) with
    | some (.file text) =>
        match Manifest.ofToml? text with
        | some manifest => (.ok (some ⟨place.path, manifest⟩), w)
        | none => (.error (.unreadableManifest (joinPath place.path Manifest.fileName)), w)
    | _ => (findFrom places).runIn w := by
  rw [findFrom, Task.runIn_bind, Task.runIn_isFile, FileTree.isFile]
  cases hnode : w.files.node? w.working (joinPath place.path Manifest.fileName) with
  | none => rfl
  | some n =>
    cases n with
    | directory => rfl
    | file text =>
      simp only [if_true, Task.runIn_bind, Task.runIn_readText, FileTree.readText_of_node? hnode, Except.mapError]
      cases Manifest.ofToml? text <;> rfl

theorem runIn_findFrom_of_manifest {place : Place} {text : String} {manifest : Manifest}
    (hnode : w.files.node? w.working (joinPath place.path Manifest.fileName) = some (.file text))
    (hmanifest : Manifest.ofToml? text = some manifest) (places : List Place) :
    (findFrom (place :: places)).runIn w = (.ok (some ⟨place.path, manifest⟩), w) := by
  rw [runIn_findFrom_cons, hnode]
  simp only [hmanifest]

theorem runIn_find (w : World) : find.runIn w = (findFrom w.working.outward).runIn w := by
  rw [find, Task.runIn_bind, Task.runIn_workingPlace]

/-! ## Reading what a program needs -/

variable {p : Project} {device : Option String} {s : Synthesis}

theorem quiet_loadInputs (p : Project) : Task.Quiet (p.loadInputs : Task Session Inputs) := by
  rw [loadInputs]
  cases p.manifest.arrays with
  | none => exact Task.quiet_pure _
  | some file =>
    refine Task.Quiet.bind (Task.quiet_readText _ _) fun text => ?_
    cases Inputs.ofJson? text with
    | none => exact Task.quiet_throw _
    | some inputs => exact Task.quiet_pure inputs

/-- Arrays are those in the file that the manifest names, if it names one. -/
theorem runIn_loadInputs_eq_ok {inputs : Inputs} : p.loadInputs.runIn w = (.ok inputs, w') ↔ w' = w ∧
    (p.manifest.arrays = none ∧ inputs = .empty ∨ ∃ file text, p.manifest.arrays = some file ∧
      w.files.readText w.working (joinPath p.directory file) = .ok text ∧ Inputs.ofJson? text = some inputs) := by
  rw [loadInputs]
  cases p.manifest.arrays with
  | none => simp [Task.runIn_pure, and_comm, eq_comm]
  | some file =>
    simp only [Task.runIn_bind, Task.runIn_readText]
    cases hread : w.files.readText w.working (joinPath p.directory file) with
    | error e => simp [Except.mapError, hread]
    | ok text => cases hinputs : Inputs.ofJson? text <;> simp [Except.mapError, hread, hinputs, Task.runIn_pure, and_comm, eq_comm]

theorem quiet_resolve (project name : String) : Task.Quiet (DeviceFile.resolve project name : Task Session Device) := by
  intro w
  have hload (path : String) : ((DeviceFile.load path).runIn w).2 = w := by
    refine Task.Quiet.bind (Task.quiet_readText _ _) (fun text => ?_) w
    cases Device.ofToml text with
    | error e => exact Task.quiet_throw _
    | ok d => exact Task.quiet_pure d
  rw [DeviceFile.runIn_resolve]
  split
  · exact hload _
  · split <;> rfl

/-- A program is prepared where its device is found, its settings fit, its arrays are read, and the device can run it. -/
theorem runIn_synthesize_eq_ok : (p.synthesize device).runIn w = (.ok s, w') ↔ w' = w ∧ ∃ d config inputs,
    (DeviceFile.resolve p.directory (device.getD p.manifest.project.device)).runIn w = (.ok d, w) ∧
      p.manifest.settings.build = .ok config ∧ p.loadInputs.runIn w = (.ok inputs, w) ∧ Synthesis.run config d inputs = .ok s := by
  rw [synthesize, Task.runIn_bind_eq_ok]
  constructor
  · rintro ⟨d, between, hd, h⟩
    obtain rfl := (quiet_resolve _ _).eq_ok hd
    cases hbuild : p.manifest.settings.build with
    | error e =>
      rw [hbuild] at h
      cases h
    | ok config =>
      rw [hbuild, Task.runIn_bind_eq_ok] at h
      obtain ⟨inputs, between, hinputs, h⟩ := h
      obtain rfl := p.quiet_loadInputs.eq_ok hinputs
      cases hrun : Synthesis.run config d inputs with
      | error e =>
        rw [hrun] at h
        cases h
      | ok t =>
        rw [hrun] at h
        cases h
        exact ⟨rfl, d, config, inputs, hd, rfl, hinputs, hrun⟩
  · rintro ⟨rfl, d, config, inputs, hd, hbuild, hinputs, hrun⟩
    refine ⟨d, w', hd, ?_⟩
    rw [hbuild, Task.runIn_bind_eq_ok]
    exact ⟨inputs, w', hinputs, by rw [hrun]; rfl⟩

theorem quiet_synthesize (p : Project) (device : Option String) : Task.Quiet (p.synthesize device : Task Session Synthesis) := by
  refine Task.Quiet.bind (quiet_resolve _ _) fun d => ?_
  cases p.manifest.settings.build with
  | error e => exact Task.quiet_throw _
  | ok config =>
    refine Task.Quiet.bind p.quiet_loadInputs fun inputs => ?_
    cases Synthesis.run config d inputs with
    | error e => exact Task.quiet_throw _
    | ok s => exact Task.quiet_pure s

end Project

/-! ## Preparing again -/

/-- The place lies in the directory. -/
def Place.Inside (q directory : Place) : Prop := ∃ name names, q = directory ++ name :: names

namespace Project

/-- What a project is prepared from has not changed: manifests, the file of its arrays, and what lies among its devices. -/
structure Spared (p : Project) (w w' : World) : Prop where
  manifests : ∀ q text, q.getLast? = some Manifest.fileName → w'.files.get? q = some (.file text) →
    w'.files.get? q = w.files.get? q
  arrays : ∀ file q, p.manifest.arrays = some file → w'.files.locate w'.working (joinPath p.directory file) = .ok q →
    w'.files.get? q = w.files.get? q
  devices : ∀ place q, w'.files.locate w'.working (DeviceFile.directory p.directory) = .ok place → q.Inside place →
    w'.files.get? q = w.files.get? q

variable {p : Project} {o : GenerateOptions} {place : Place} {places : List Place} {d : Device} {inputs : Inputs} {name : String}

/-- The directories around the working directory have possible names. -/
theorem names_of_mem_outward {working : Place} {t : FileTree} (hsound : t.Sound) (hthere : t.hasDirectory working = true)
    (h : place ∈ working.outward) : ∀ name ∈ place, IsName name := fun name hname =>
  hsound.names _ (FileTree.isSome_of_hasDirectory hthere) name ((Place.prefix_of_mem_outward h).subset hname)

/-- A project that is found is at one of the places. -/
theorem directory_of_findFrom (h : (findFrom places).runIn w = (.ok (some p), w')) : ∃ place ∈ places, p.directory = place.path := by
  induction places with
  | nil => cases h
  | cons place places ih =>
    rw [runIn_findFrom_cons] at h
    split at h
    · split at h <;> cases h
      exact ⟨place, List.mem_cons_self, rfl⟩
    · obtain ⟨other, hother, hdirectory⟩ := ih h
      exact ⟨other, List.mem_cons_of_mem _ hother, hdirectory⟩

/-- The same project is found where the same manifests are. -/
theorem findFrom_again (hsound : w.files.Sound) (hsound' : w'.files.Sound) (hplaces : ∀ place ∈ places, ∀ name ∈ place, IsName name)
    (hsame : ∀ place text, w'.files.get? (place ++ [Manifest.fileName]) = some (.file text) ↔
      w.files.get? (place ++ [Manifest.fileName]) = some (.file text))
    (h : (findFrom places).runIn w = (.ok (some p), w)) : (findFrom places).runIn w' = (.ok (some p), w') := by
  induction places with
  | nil => cases h
  | cons place places ih =>
    obtain ⟨hplace, hothers⟩ := List.forall_mem_cons.1 hplaces
    have hfile : IsName Manifest.fileName := by decide
    have hdots : ∀ name ∈ place ++ [Manifest.fileName], FileTree.isDots name = false := by
      simpa [or_imp, forall_and] using ⟨fun name hname => (hplace name hname).dots, hfile.dots⟩
    have hnode (text : String) : w'.files.node? w'.working (joinPath place.path Manifest.fileName) = some (.file text) ↔
        w.files.node? w.working (joinPath place.path Manifest.fileName) = some (.file text) := by
      rw [hsound'.node?_eq (ofPath_entry hplace hfile) hdots, hsound.node?_eq (ofPath_entry hplace hfile) hdots]
      split
      · exact hsame place text
      · simp
    rw [runIn_findFrom_cons] at h ⊢
    split at h
    · rename_i text hthere
      rw [(hnode text).2 hthere]
      split at h <;> cases h
      simp only [*]
    · rename_i hnone
      split
      · rename_i text hthere
        exact absurd ((hnode text).1 hthere) (hnone text)
      · exact ih hothers h

theorem find_again (hsound : w.files.Sound) (hsound' : w'.files.Sound) (hworking : w'.working = w.working)
    (hthere : w.files.hasDirectory w.working = true) (hgrows : w.files.Grows w'.files)
    (hspared : p.Spared w w') (h : find.runIn w = (.ok (some p), w)) : find.runIn w' = (.ok (some p), w') := by
  rw [runIn_find] at h ⊢
  rw [hworking]
  refine findFrom_again hsound hsound' (fun place => names_of_mem_outward hsound hthere) (fun place text => ⟨?_, ?_⟩) h
  · intro hnew
    rw [← hspared.manifests _ text (by simp) hnew]
    exact hnew
  · intro hold
    obtain ⟨text', hnew⟩ := hgrows.files _ text hold
    rw [hspared.manifests _ text' (by simp) hnew]
    exact hold

/-- The same devices are listed where nothing has changed among them. -/
theorem mem_listed_again (hsound : w.files.Sound) (hworking : w'.working = w.working) (hgrows : w.files.Grows w'.files)
    (hspared : p.Spared w w') (hdirectory : p.directory = place.path) (hplace : ∀ name ∈ place, IsName name) (file : String) :
    file ∈ w'.files.listed w'.working (DeviceFile.directory p.directory) ↔
      file ∈ w.files.listed w.working (DeviceFile.directory p.directory) := by
  have hroute : Route.ofPath (DeviceFile.directory p.directory) = ⟨true, place ++ ["devices"], false⟩ := by
    rw [DeviceFile.directory, hdirectory, ofPath_entry hplace (by decide)]
  rw [FileTree.mem_listed, FileTree.mem_listed]
  constructor
  · rintro ⟨q, hlocate, -, hentry⟩
    have hq : q = place ++ ["devices"] := by
      rw [FileTree.locate_eq_destination hlocate, DeviceFile.directory, hdirectory, Route.destination_joinPath (by decide),
        Route.destination_path hplace]
    rw [hspared.devices q _ hlocate ⟨file, [], rfl⟩] at hentry
    have hthere := hsound.hasDirectory_of_append (by simp) hentry
    refine ⟨q, ?_, hthere, hentry⟩
    obtain ⟨r, hr, -⟩ := bind_eq_ok.1 hlocate
    obtain rfl := FileTree.route_eq_ok hr
    refine bind_eq_ok.2 ⟨_, hr, ?_⟩
    subst hq
    simpa [hroute, Route.origin] using hsound.follow (p := []) (FileTree.isSome_of_hasDirectory hthere)
  · rintro ⟨q, hlocate, hthere, hentry⟩
    rw [hworking]
    exact ⟨q, hgrows.locate hlocate, hgrows.directories q hthere, hgrows.entries hentry⟩

theorem resolve_again (hsound : w.files.Sound) (hworking : w'.working = w.working) (hgrows : w.files.Grows w'.files)
    (hspared : p.Spared w w') (hdirectory : p.directory = place.path) (hplace : ∀ name ∈ place, IsName name)
    (h : (DeviceFile.resolve p.directory name).runIn w = (.ok d, w)) :
    (DeviceFile.resolve p.directory name).runIn w' = (.ok d, w') := by
  have hlisted := mem_listed_again hsound hworking hgrows hspared hdirectory hplace (name ++ DeviceFile.suffix)
  rw [DeviceFile.runIn_resolve] at h ⊢
  by_cases hmem : name ++ DeviceFile.suffix ∈ w.files.listed w.working (DeviceFile.directory p.directory)
  · rw [if_pos hmem] at h
    rw [if_pos (hlisted.2 hmem)]
    obtain ⟨-, text, htext, hdevice⟩ := DeviceFile.runIn_load_eq_ok.1 h
    refine DeviceFile.runIn_load_eq_ok.2 ⟨rfl, text, ?_, hdevice⟩
    obtain ⟨devices, hlocate, -, hentry⟩ := FileTree.mem_listed.1 hmem
    have hfile : IsName (name ++ DeviceFile.suffix) := hsound.names _ hentry _ (by simp)
    have hdevices := hgrows.locate hlocate
    rw [hworking]
    refine hgrows.readText htext fun q hq => hspared.devices devices q (hworking ▸ hdevices) ⟨name ++ DeviceFile.suffix, [], ?_⟩
    rw [FileTree.locate_eq_destination hq, FileTree.locate_eq_destination hdevices, DeviceFile.path,
      Route.destination_joinPath hfile]
  · rw [if_neg hmem] at h
    rw [if_neg (hlisted.not.2 hmem)]
    cases hpreset : Preset.find? name with
    | none =>
      rw [hpreset] at h
      cases h
    | some preset =>
      rw [hpreset] at h
      cases h
      rfl

theorem loadInputs_again (hworking : w'.working = w.working) (hgrows : w.files.Grows w'.files) (hspared : p.Spared w w')
    (h : p.loadInputs.runIn w = (.ok inputs, w)) : p.loadInputs.runIn w' = (.ok inputs, w') := by
  obtain ⟨-, harrays⟩ := runIn_loadInputs_eq_ok.1 h
  refine runIn_loadInputs_eq_ok.2 ⟨rfl, harrays.imp_right ?_⟩
  rintro ⟨file, text, hfile, hread, hinputs⟩
  rw [hworking]
  exact ⟨file, text, hfile, hgrows.readText hread fun q hq => hspared.arrays file q hfile (hworking ▸ hq), hinputs⟩

/-- The project that is found, and the program that is prepared of it. -/
structure Prepares (o : GenerateOptions) (w : World) (p : Project) (s : Synthesis) : Prop where
  find : find.runIn w = (.ok (some p), w)
  synthesize : (p.synthesize o.device).runIn w = (.ok s, w)

/-- The same program is prepared where nothing has changed that it is prepared from. -/
theorem Prepares.again (h : Prepares o w p s) (hsound : w.files.Sound) (hsound' : w'.files.Sound) (hworking : w'.working = w.working)
    (hthere : w.files.hasDirectory w.working = true) (hgrows : w.files.Grows w'.files) (hspared : p.Spared w w') :
    Prepares o w' p s := by
  obtain ⟨hfind, hsynthesize⟩ := h
  refine ⟨find_again hsound hsound' hworking hthere hgrows hspared hfind, ?_⟩
  rw [runIn_find] at hfind
  obtain ⟨place, houtward, hdirectory⟩ := directory_of_findFrom hfind
  have hplace := names_of_mem_outward hsound hthere houtward
  obtain ⟨-, d, config, inputs, hresolve, hbuild, hinputs, hrun⟩ := runIn_synthesize_eq_ok.1 hsynthesize
  refine runIn_synthesize_eq_ok.2 ⟨rfl, d, config, inputs, ?_, hbuild, ?_, hrun⟩
  · exact resolve_again hsound hworking hgrows hspared hdirectory hplace hresolve
  · exact loadInputs_again hworking hgrows hspared hinputs

end Project

/-! ## Printing the report -/

/-- The report as it is printed. -/
def Synthesis.reportText (s : Synthesis) (json : Bool) : String :=
  if json then Json.pretty s.report.datum ++ "\n" else s.report.render

def World.printed (w : World) (text : String) : World := { w with output := w.output ++ text }

namespace Project

theorem runIn_printReport (s : Synthesis) (json : Bool) (w : World) :
    Task.runIn (s.printReport json) w = (.ok (), w.printed (s.reportText json)) := by
  cases json <;> rfl

/-- A dry run only prints the report. -/
theorem runIn_generate_dry (p : Project) {o : GenerateOptions} (h : o.dryRun = true) (w : World) : (p.generate o).runIn w =
    match (p.synthesize o.device).runIn w with
    | (.ok s, between) => (.ok (), between.printed (s.reportText o.json))
    | (.error e, between) => (.error e, between) := by
  rw [generate, Task.runIn_bind]
  rcases (p.synthesize o.device).runIn w with ⟨e | s, between⟩
  · rfl
  · simp only [Task.runIn_bind, runIn_printReport, h]
    rfl

end Project

end AccelFirmware
