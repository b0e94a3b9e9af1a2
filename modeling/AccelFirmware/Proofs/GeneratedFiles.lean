import AccelFirmware.Proofs.Preparations
import AccelFirmware.Proofs.SourceFiles

/-!
# What a run of the generator touches

A run adds directories on the way to the output and writes sources; nothing else changes, whether it ends well or not. Where no
manifest, no arrays and no devices are among what has changed, the next run prints what this one has printed and changes nothing.
-/

namespace AccelFirmware

namespace Synthesis

variable {s : Synthesis} {directory : String} {w w' : World} {result : Except CommandError Unit}

/-! ## Writing sources -/

/-- What changes are new directories on the way to the output, and files at the places of sources. -/
def TouchesOnly (s : Synthesis) (directory : String) (w w' : World) : Prop :=
  ∀ q, w'.files.get? q = w.files.get? q ∨
    (w.files.get? q = none ∧ w'.files.get? q = some .directory ∧ (Route.ofPath directory).OnWay w.working q) ∨
    (w.files.hasDirectory q = false ∧ ∃ source ∈ s.sources directory,
      w'.files.locate w.working source.1 = .ok q ∧ w'.files.get? q = some (.file source.2))

/-- Directories are made, and sources are written up to the first that cannot be. -/
theorem runIn_writeSources (s : Synthesis) (directory : String) (w : World) : ∃ result after front,
    (s.writeSources directory).runIn w = (result, { w with files := after }) ∧ front <+: s.sources directory ∧
      (w.files.makeDirectories w.working directory).2.writeTexts w.working front = .ok after := by
  have hmaking : Session.runIn (Shell.makeDirectories directory) w = ((w.files.makeDirectories w.working directory).1,
      { w with files := (w.files.makeDirectories w.working directory).2 }) := rfl
  rw [writeSources, Task.runIn_bind, Task.runIn_attempt, hmaking]
  rcases w.files.makeDirectories w.working directory with ⟨error | done, made⟩
  · exact ⟨_, made, [], rfl, List.nil_prefix, rfl⟩
  · obtain ⟨result, after, hrun, hafter, -⟩ := Task.runIn_writeAll (s.sources directory) id (fun _ => .writingSources directory)
      { w with files := made }
    simp only [id_eq, List.map_id'] at hafter
    exact ⟨result, after, _, hrun, List.takeWhile_prefix _, hafter⟩

theorem grows_writeSources (h : (s.writeSources directory).runIn w = (result, w')) : w.files.Grows w'.files := by
  obtain ⟨_, after, front, hrun, -, hwrite⟩ := s.runIn_writeSources directory w
  rw [hrun] at h
  cases h
  exact (w.files.furnishes_makeDirectories w.working directory).grows.trans (FileTree.grows_writeTexts hwrite)

theorem sound_writeSources (hfiles : w.files.Sound) (h : (s.writeSources directory).runIn w = (result, w')) : w'.files.Sound := by
  obtain ⟨_, after, front, hrun, -, hwrite⟩ := s.runIn_writeSources directory w
  rw [hrun] at h
  cases h
  exact (hfiles.makeDirectories w.working directory).writeTexts hwrite

/-- However the writing ends, it has touched only what it is for. -/
theorem touchesOnly_writeSources (h : (s.writeSources directory).runIn w = (result, w')) : s.TouchesOnly directory w w' := by
  obtain ⟨_, after, front, hrun, hfront, hwrite⟩ := s.runIn_writeSources directory w
  rw [hrun] at h
  cases h
  intro q
  have hfurnishes := w.files.furnishes_makeDirectories w.working directory
  rw [FileTree.get?_of_writeTexts hwrite q]
  cases hlast : FileTree.lastText? (w.files.makeDirectories w.working directory).2 w.working front q with
  | none => exact (hfurnishes q).imp_right Or.inl
  | some text =>
    obtain ⟨path, hpath, hplace⟩ := FileTree.lastText?_eq_some hlast
    obtain ⟨-, -, -, -, -, hnew⟩ := FileTree.writable_eq_ok hplace
    refine Or.inr (Or.inr ⟨?_, (path, text), hfront.subset hpath, ?_, rfl⟩)
    · by_contra hthere
      rw [hfurnishes.grows.directories q (by simpa using hthere)] at hnew
      cases hnew
    · obtain ⟨before, later, rfl⟩ := List.append_of_mem hpath
      obtain ⟨p, -, hlocate, -⟩ := FileTree.readText_writeTexts hwrite
      rwa [FileTree.writable_eq_destination hplace, ← FileTree.locate_eq_destination hlocate]

/-- Sources that have been written can be written again, which changes nothing. -/
theorem writeSources_again (h : (s.writeSources directory).runIn w = (.ok (), w')) {v : World} (hfiles : v.files = w'.files)
    (hworking : v.working = w.working) : ∃ after, (s.writeSources directory).runIn v = (.ok (), { v with files := after }) ∧
      ∀ q, after.get? q = v.files.get? q := by
  obtain ⟨made, files, hmade, hwrite, rfl⟩ := writeSources_eq_ok.1 h
  obtain ⟨after, hagain, hsame⟩ := FileTree.writeTexts_again hwrite
  refine ⟨after, writeSources_eq_ok.2 ⟨files, after, ?_, ?_, rfl⟩, ?_⟩
  · rw [hfiles, hworking]
    exact FileTree.makeDirectories_again hmade (FileTree.grows_writeTexts hwrite)
  · rwa [hworking]
  · rwa [hfiles]

/-! ## Printing -/

/-- What is printed about the files that were written. -/
def wroteText (s : Synthesis) (directory : String) (json : Bool) : String :=
  if json then "" else String.join (("" :: (s.sources directory).map fun (path, _) => "Wrote " ++ path).map (· ++ "\n"))

end Synthesis

/-! ## Generating -/

/-- A second run that prints what the first one printed, and changes no file. Nothing is said of the stream of errors, where the
log writes its lines with the time. -/
structure World.Repeats (w w' w'' : World) : Prop where
  files : ∀ q, w''.files.get? q = w'.files.get? q
  output : ∃ text, w'.output = w.output ++ text ∧ w''.output = w'.output ++ text

/-- A run that has neither printed anything nor changed a file. -/
structure World.Undone (w w' : World) : Prop where
  files : w'.files = w.files
  output : w'.output = w.output

namespace Project

variable {p : Project} {o : GenerateOptions} {s : Synthesis} {w w' : World} {result : Except CommandError Unit}

theorem runIn_generate (h : (p.synthesize o.device).runIn w = (.ok s, w)) (hwrites : o.dryRun = false) : (p.generate o).runIn w =
    match (s.writeSources (p.outputDirectory o.output)).runIn (w.printed (s.reportText o.json)) with
    | (.ok (), after) => (.ok (), after.printed (s.wroteText (p.outputDirectory o.output) o.json))
    | (.error e, after) => (.error e, after) := by
  rw [generate, Task.runIn_bind, h]
  simp only [Task.runIn_bind, runIn_printReport, hwrites, Bool.not_false, if_true]
  rcases (s.writeSources (p.outputDirectory o.output)).runIn (w.printed (s.reportText o.json)) with ⟨e | done, after⟩
  · rfl
  · cases hjson : o.json with
    | false => rfl
    | true => simp [Synthesis.wroteText, World.printed, Task.runIn_pure]

/-- What a run leaves is what the writing of the sources has left. -/
theorem files_of_generate (h : (p.synthesize o.device).runIn w = (.ok s, w)) (hwrites : o.dryRun = false)
    (hrun : (p.generate o).runIn w = (result, w')) : ∃ after,
      (s.writeSources (p.outputDirectory o.output)).runIn (w.printed (s.reportText o.json)) = (result, after) ∧
        w'.files = after.files ∧ w'.working = w.working ∧
        (result = .ok () → w' = after.printed (s.wroteText (p.outputDirectory o.output) o.json)) := by
  obtain ⟨written, after, -, hwriting, -⟩ :=
    s.runIn_writeSources (p.outputDirectory o.output) (w.printed (s.reportText o.json))
  rw [runIn_generate h hwrites, hwriting] at hrun
  cases written with
  | error e =>
    cases hrun
    exact ⟨_, hwriting, rfl, rfl, fun hok => by cases hok⟩
  | ok done =>
    cases hrun
    exact ⟨_, hwriting, rfl, rfl, fun _ => rfl⟩

/-- A run that finds the same program once more prints the same and changes nothing. -/
theorem generate_again (h : (p.synthesize o.device).runIn w = (.ok s, w)) (h' : (p.synthesize o.device).runIn w' = (.ok s, w'))
    (hrun : (p.generate o).runIn w = (.ok (), w')) : ∃ w'', (p.generate o).runIn w' = (.ok (), w'') ∧ w.Repeats w' w'' := by
  cases hdry : o.dryRun with
  | true =>
    rw [runIn_generate_dry p hdry, h] at hrun
    cases hrun
    refine ⟨(w.printed (s.reportText o.json)).printed (s.reportText o.json), ?_, fun _ => rfl, ⟨s.reportText o.json, rfl, rfl⟩⟩
    rw [runIn_generate_dry p hdry, h']
  | false =>
    obtain ⟨between, hwriting, hfiles, hworking, hw'⟩ := files_of_generate h hdry hrun
    obtain ⟨after, hagain, hsame⟩ := Synthesis.writeSources_again hwriting (v := w'.printed (s.reportText o.json)) hfiles hworking
    have hsecond : (p.generate o).runIn w' = (.ok (), World.printed { w'.printed (s.reportText o.json) with files := after }
        (s.wroteText (p.outputDirectory o.output) o.json)) := by
      rw [runIn_generate h' hdry, hagain]
    obtain ⟨made, files, -, -, rfl⟩ := Synthesis.writeSources_eq_ok.1 hwriting
    obtain rfl := hw' rfl
    refine ⟨_, hsecond, hsame, s.reportText o.json ++ s.wroteText (p.outputDirectory o.output) o.json, ?_, ?_⟩
    · exact String.append_assoc
    · exact String.append_assoc

/-- A run keeps what is there, apart from the texts of the files that it writes. -/
theorem left_by_generate (h : (p.synthesize o.device).runIn w = (.ok s, w)) (hrun : (p.generate o).runIn w = (result, w')) :
    w'.working = w.working ∧ w.files.Grows w'.files ∧ (w.files.Sound → w'.files.Sound) ∧
      s.TouchesOnly (p.outputDirectory o.output) w w' := by
  cases hdry : o.dryRun with
  | true =>
    rw [runIn_generate_dry p hdry, h] at hrun
    cases hrun
    exact ⟨rfl, .refl _, id, fun _ => Or.inl rfl⟩
  | false =>
    obtain ⟨after, hwriting, hfiles, hworking, -⟩ := files_of_generate h hdry hrun
    have hgrows := Synthesis.grows_writeSources hwriting
    have hsound := fun hfiles => Synthesis.sound_writeSources hfiles hwriting
    have htouches := Synthesis.touchesOnly_writeSources hwriting
    rw [Synthesis.TouchesOnly, hfiles]
    exact ⟨hworking, hgrows, hsound, htouches⟩

/-- The files of a run that ends well hold the sources just when no two of them lie at one place. -/
theorem intact_of_generate (h : (p.synthesize o.device).runIn w = (.ok s, w)) (hwrites : o.dryRun = false)
    (hrun : (p.generate o).runIn w = (.ok (), w')) :
    (s.Intact (p.outputDirectory o.output) w' ↔ s.Apart (p.outputDirectory o.output) w') ∧
      ((∀ entry ∈ s.streams, '/' ∉ (s.config.fileName entry.1).toList) →
        (s.Apart (p.outputDirectory o.output) w' ↔ (s.streams.map fun entry => s.config.fileName entry.1).Nodup)) := by
  obtain ⟨-, d, config, inputs, -, -, -, hs⟩ := runIn_synthesize_eq_ok.1 h
  obtain ⟨after, hwriting, -, -, hw'⟩ := files_of_generate h hwrites hrun
  obtain rfl := hw' rfl
  obtain ⟨-, rfl, -⟩ := Synthesis.run_ok hs
  have hintact := Synthesis.intact_iff_apart hs hwriting
  have hapart := Synthesis.apart_iff_nodup hs hwriting
  exact ⟨hintact, hapart⟩

end Project

namespace Command

variable {p : Project} {o : GenerateOptions} {s : Synthesis} {w w' : World} {status : UInt8}

theorem run_generate_of_find (h : Project.find.runIn w = (.ok (some p), w)) (o : GenerateOptions) :
    Task.runIn (generate o).run w = (p.generate o).runIn w := by
  change Task.runIn (Project.find >>= _) w = _
  rw [Task.runIn_bind, h]

/-- Where no program is prepared, nothing is done. -/
theorem run_generate_of_unprepared (h : ∀ p s, ¬ Project.Prepares o w p s) : ∃ e, Task.runIn (generate o).run w = (.error e, w) := by
  have hfind := Project.quiet_find.runIn_eq w
  have hrun : Task.runIn (generate o).run w = Task.runIn (Project.find >>= _) w := rfl
  rw [hrun, Task.runIn_bind, hfind]
  cases hfound : (Project.find.runIn w).1 with
  | error e => exact ⟨e, rfl⟩
  | ok found =>
    cases found with
    | none => exact ⟨.noManifest, rfl⟩
    | some p =>
      rw [hfound] at hfind
      have hsynthesis := (p.quiet_synthesize o.device).runIn_eq w
      change ∃ e, (p.generate o).runIn w = (.error e, w)
      rw [Project.generate, Task.runIn_bind, hsynthesis]
      cases hprepared : ((p.synthesize o.device).runIn w).1 with
      | error e => exact ⟨e, rfl⟩
      | ok s =>
        rw [hprepared] at hsynthesis
        exact absurd ⟨hfind, hsynthesis⟩ (h p s)

/-- A dry run changes nothing, and a run that prepares no program ends with its error. Any other run touches its outputs alone. When
it ends well, they hold the sources just when no two of these lie at one place, which for names without a slash is that they differ; and
where what it reads has been spared, the next run repeats it. -/
theorem generate_touches (h : Session.runIn (generate o).perform w = (status, w')) :
    (o.dryRun = true → w'.files = w.files) ∧
    ((∀ p s, ¬ Project.Prepares o w p s) → status = 1 ∧ w.Undone w') ∧
    ∀ p s, Project.Prepares o w p s → s.TouchesOnly (p.outputDirectory o.output) w w' ∧
      (status = 0 →
        (o.dryRun = false →
          (s.Intact (p.outputDirectory o.output) w' ↔ s.Apart (p.outputDirectory o.output) w') ∧
          ((∀ entry ∈ s.streams, '/' ∉ (s.config.fileName entry.1).toList) →
            (s.Apart (p.outputDirectory o.output) w' ↔ (s.streams.map fun entry => s.config.fileName entry.1).Nodup))) ∧
        (w.files.Sound → w.files.hasDirectory w.working = true → p.Spared w w' →
          ∃ w'', Session.runIn (generate o).perform w' = (0, w'') ∧ w.Repeats w' w'')) := by
  have hunprepared (hnone : ∀ p s, ¬ Project.Prepares o w p s) : status = 1 ∧ w.Undone w' := by
    obtain ⟨e, hrun⟩ := run_generate_of_unprepared hnone
    rw [runIn_perform, hrun] at h
    cases h
    exact ⟨rfl, rfl, rfl⟩
  have hfiles := files_perform (generate o) w
  rw [h] at hfiles
  refine ⟨fun hdry => ?_, hunprepared, fun p s hprepares => ?_⟩
  · by_cases hnone : ∀ p s, ¬ Project.Prepares o w p s
    · obtain ⟨-, hundone⟩ := hunprepared hnone
      exact hundone.files
    · obtain ⟨p, s, hprepares⟩ : ∃ p s, Project.Prepares o w p s := by simpa using hnone
      rw [show w'.files = _ from hfiles, run_generate_of_find hprepares.find, Project.runIn_generate_dry p hdry,
        hprepares.synthesize]
      rfl
  · have hrun := run_generate_of_find hprepares.find o
    rcases hresult : (p.generate o).runIn w with ⟨result, left⟩
    obtain ⟨hworking, hgrows, hsound, htouches⟩ := Project.left_by_generate hprepares.synthesize hresult
    rw [hrun, hresult] at hfiles
    constructor
    · rw [Synthesis.TouchesOnly, show w'.files = left.files from hfiles]
      exact htouches
    · rintro rfl
      rw [perform_eq_zero, hrun, hresult] at h
      cases h
      refine ⟨fun hwrites => Project.intact_of_generate hprepares.synthesize hwrites hresult, fun hfirst hthere hspared => ?_⟩
      have hagain := hprepares.again hfirst (hsound hfirst) hworking hthere hgrows hspared
      obtain ⟨w'', hsecond, hrepeats⟩ := Project.generate_again hprepares.synthesize hagain.synthesize hresult
      exact ⟨w'', perform_eq_zero.2 (by rw [run_generate_of_find hagain.find, hsecond]), hrepeats⟩

/-- Settings under which the header of weights has another name than the source of `main`, but goes to the same file. -/
def meetingSettings : Settings :=
  { Settings.initial with groups := .ofList [0], retrieval := .fullyConnected, weightsHeader := "./main.c" }

def meetingProject : Project := ⟨"/", ⟨⟨"p", "0.1.0", none, "ai85"⟩, meetingSettings, some "inputs.json", "out"⟩⟩

def meetingManifest : String := String.join (List.map (· ++ "\n")
  ["project.name = \"p\"",
   "inputs.arrays = \"inputs.json\"",
   "[synthesis]",
   "groups = [0]",
   "retrieval = \"fully-connected\"",
   "weights-header = \"./main.c\""])

def meetingArrays : String := "\x7b\"fc-weights\":\x7b\"rows\":2,\"cols\":2,\"values\":[1,2,3,4]\x7d\x7d"

def meetingWorld : World :=
  ⟨(FileTree.empty.put ["cnnsynth.toml"] (.file meetingManifest)).put ["inputs.json"] (.file meetingArrays), [], "", ""⟩

/-- The files when both sources have been written to one place. -/
def metFiles (code weights : String) : FileTree :=
  ((meetingWorld.files.put ["out"] .directory).put ["out", "main.c"] (.file code)).put ["out", "main.c"] (.file weights)

theorem sound_meetingWorld : meetingWorld.files.Sound :=
  (FileTree.sound_empty.put (p := []) rfl (by decide) rfl _).put (p := []) rfl (by decide) rfl _

theorem exists_meeting : ∃ s, Project.Prepares ⟨none, none, false, false⟩ meetingWorld meetingProject s ∧
    ∃ code weights, s.sources "/out" = [("/out/main.c", code), ("/out/./main.c", weights)] ∧
      (s.streams.map fun entry => s.config.fileName entry.1) = ["main.c", "./main.c"] := by
  have hnode : meetingWorld.files.node? meetingWorld.working (joinPath (Place.path []) Manifest.fileName) =
      some (.file meetingManifest) := by rfl
  have hmanifest : Manifest.ofToml? meetingManifest = some meetingProject.manifest := by decide +kernel
  have hread : meetingWorld.files.readText meetingWorld.working (joinPath "/" "inputs.json") = .ok meetingArrays := by rfl
  have harrays : Inputs.ofJson? meetingArrays = some Synthesis.smallWeights := by decide +kernel
  have hinputs : meetingProject.loadInputs.runIn meetingWorld = (.ok Synthesis.smallWeights, meetingWorld) :=
    Project.runIn_loadInputs_eq_ok.2 ⟨rfl, Or.inr ⟨"inputs.json", meetingArrays, rfl, hread, harrays⟩⟩
  obtain ⟨s, hs⟩ := Synthesis.exists_run (c := ⟨meetingSettings, by decide⟩) (d := .ai85) (i := Synthesis.smallWeights) (by decide)
  refine ⟨s, ⟨?_, Project.runIn_synthesize_eq_ok.2 ⟨rfl, .ai85, _, _, by rfl, rfl, hinputs, hs⟩⟩, ?_⟩
  · rw [Project.runIn_find]
    exact Project.runIn_findFrom_of_manifest hnode hmanifest []
  · obtain ⟨_, hconfig, -, hverifies⟩ := Synthesis.run_ok hs
    have hsinks : s.plan.sinks = [.main, .weights] := by
      rw [Plan.sinks, Plan.headerSinks, Plan.owns, hconfig, hverifies]
      rfl
    refine ⟨Piece.renderAll (s.plan.pieces .main), Piece.renderAll (s.plan.pieces .weights), ?_, ?_⟩
    · rw [Synthesis.sources_eq hs, hsinks]
      rfl
    · rw [Synthesis.streams_eq hs, hsinks, Synthesis.config, hconfig]
      rfl

theorem writeSources_meeting {s : Synthesis} {w : World} {code weights : String} (hfiles : w.files = meetingWorld.files)
    (hworking : w.working = []) (hsources : s.sources "/out" = [("/out/main.c", code), ("/out/./main.c", weights)]) :
    (s.writeSources "/out").runIn w = (.ok (), { w with files := metFiles code weights }) := by
  have hmade : meetingWorld.files.makeDirectories [] "/out" = (.ok (), meetingWorld.files.put ["out"] .directory) := by
    rw [FileTree.makeDirectories_of_route (r := .ofPath "/out") rfl, FileTree.makeRoute]
    rfl
  refine Synthesis.writeSources_eq_ok.2 ⟨meetingWorld.files.put ["out"] .directory, _, ?_, ?_, rfl⟩
  · rw [hfiles, hworking, hmade]
  · rw [hworking, hsources]
    rfl

theorem spared_meeting {code weights : String} (h : w.files = metFiles code weights) : meetingProject.Spared meetingWorld w := by
  have hsame (q : Place) (hout : q ≠ ["out"]) (hmain : q ≠ ["out", "main.c"]) : w.files.get? q = meetingWorld.files.get? q := by
    rw [h, metFiles, FileTree.get?_put (by decide), if_neg hmain, FileTree.get?_put (by decide), if_neg hmain,
      FileTree.get?_put (by decide), if_neg hout]
  constructor
  · rintro q text hlast -
    refine hsame q ?_ ?_ <;> rintro rfl <;> exact absurd hlast (by decide)
  · rintro file q hfile hq
    cases hfile
    obtain rfl : q = ["inputs.json"] := FileTree.locate_eq_destination hq
    exact hsame _ (by decide) (by decide)
  · rintro place q hplace ⟨name, names, rfl⟩
    obtain rfl : place = ["devices"] := FileTree.locate_eq_destination hplace
    exact hsame _ (by simp) (by simp)

/-- One of two sources with different names is gone after a run that ends well, and after the next one, which repeats it. -/
theorem generate_meets : ∃ w' w'' s, Session.runIn (generate ⟨none, none, false, false⟩).perform meetingWorld = (0, w') ∧
    Project.Prepares ⟨none, none, false, false⟩ meetingWorld meetingProject s ∧
    (s.streams.map fun entry => s.config.fileName entry.1).Nodup ∧ ¬ s.Intact "/out" w' ∧
    meetingProject.Spared meetingWorld w' ∧ Session.runIn (generate ⟨none, none, false, false⟩).perform w' = (0, w'') ∧
    meetingWorld.Repeats w' w'' := by
  obtain ⟨s, hprepares, code, weights, hsources, hnames⟩ := exists_meeting
  have hwriting := writeSources_meeting (w := meetingWorld.printed (s.reportText false)) rfl rfl hsources
  obtain ⟨w', hworking, hfiles, hfirst⟩ : ∃ w', w'.working = [] ∧ w'.files = metFiles code weights ∧
      Session.runIn (generate ⟨none, none, false, false⟩).perform meetingWorld = (0, w') := by
    refine ⟨World.printed { meetingWorld.printed (s.reportText false) with files := metFiles code weights }
      (s.wroteText "/out" false), rfl, rfl, ?_⟩
    rw [perform_eq_zero, run_generate_of_find hprepares.find, Project.runIn_generate hprepares.synthesize rfl,
      show meetingProject.outputDirectory none = "/out" from rfl, hwriting]
  obtain ⟨-, -, hall⟩ := generate_touches hfirst
  obtain ⟨-, hzero⟩ := hall _ s hprepares
  obtain ⟨hwrites, hagain⟩ := hzero rfl
  obtain ⟨hintact, -⟩ := hwrites rfl
  have hspared := spared_meeting hfiles
  obtain ⟨w'', hsecond, hrepeats⟩ := hagain sound_meetingWorld rfl hspared
  refine ⟨w', w'', s, hfirst, hprepares, by rw [hnames]; decide, fun hkept => ?_, hspared, hsecond, hrepeats⟩
  have hcode : (metFiles code weights).locate [] "/out/main.c" = .ok ["out", "main.c"] := by rfl
  have hweights : (metFiles code weights).locate [] "/out/./main.c" = .ok ["out", "main.c"] := by rfl
  have hapart := hintact.1 hkept
  rw [show meetingProject.outputDirectory none = "/out" from rfl, Synthesis.Apart, hsources, hworking, hfiles, List.map_cons,
    List.map_singleton, hcode, hweights] at hapart
  simp at hapart

end Command

end AccelFirmware
