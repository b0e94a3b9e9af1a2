import AccelFirmware.Project.Generation
import AccelFirmware.Proofs.Places
import AccelFirmware.Proofs.Reports

/-!
# Files of the sources

Two sources go to files of fixed names and two to the headers that a configuration names. Nothing keeps these names apart, so two
sources may go to one file; then only the later one is left.
-/

namespace AccelFirmware

/-! ## Names in a directory -/

section

variable {name : String}

/-- A path into a directory ends in the name itself, if that has no slash. -/
theorem FileTree.NamesFile.last_eq {directory last : String} (h : NamesFile (joinPath directory name) last)
    (hplain : '/' ∉ name.toList) : last = name := by
  by_cases hname : name = ""
  · -- Without a name the path is empty or ends in a slash.
    subst hname
    obtain ⟨hroute, -, -, hslash, -⟩ := h
    have hend : joinPath directory "" = "" ∨ endsInSlash (joinPath directory "") = true := by
      rw [joinPath, if_neg (by decide)]
      split
      · rename_i hdirectory
        rcases Bool.or_eq_true_iff.1 hdirectory with hempty | hends
        · exact Or.inl (by simpa using hempty)
        · exact Or.inr (by simpa using hends)
      · exact Or.inr (by simp [endsInSlash])
    rcases hend with hempty | hends
    · rw [hempty] at hroute
      cases hroute
    · rw [hslash] at hends
      cases hends
  · have hsteps : pathNames (joinPath directory name) = pathNames directory ++ [name] :=
      congrArg Route.steps (ofPath_joinPath directory hplain hname)
    simpa [hsteps, eq_comm] using h.steps

end

/-! ## Beginnings of the sources -/

namespace Sink

/-- What the text of a source starts with. -/
def opening : Sink → String
  | .main | .api => "#include <stdlib.h>"
  | .weights => "#define FC_WEIGHTS"
  | .sampleData => "#define FC_EXPECTED"

/-- The kinds of sources can be told by their first letters. -/
theorem opening_eq : (s t : Sink) → s.opening.toList.take 12 = t.opening.toList.take 12 → s.opening = t.opening := by
  intro s t
  cases s <;> cases t <;> decide

end Sink

namespace Plan

open AccelFirmware.Action

variable {p : Plan}

theorem render_includes (part : Part) :
    ∃ rest, (Piece.loose (.code (p.includes part))).render = "#include <stdlib.h>" ++ rest := by
  obtain ⟨operations, hincludes⟩ : ∃ operations, p.includes part = .header "stdlib.h" true :: operations := ⟨_, rfl⟩
  rw [hincludes]
  exact ⟨"\n" ++ Line.renderAll (Operation.linesOfAll operations 0), by
    simp [Piece.render, Fragment.render, Operation.renderAll, Operation.linesOfAll, Operation.lines, Line.renderAll,
      Line.render, indentation, annotate, ← String.append_assoc]⟩

theorem render_array (name : String) (values : List Int) :
    ∃ rest, (Piece.loose (.raw (LayerStyle.decimals name values).define)).render = "#define " ++ name ++ rest :=
  ⟨_, by
    simp only [Piece.render, Fragment.render, ArrayLiteral.define, String.append_assoc]
    rfl⟩

/-- The head of a source has nothing for another one. -/
theorem pieces_sourceHead {sink other : Sink} (h : sink ≠ other) (part : Part) :
    gather (EmitStep.pieces other) (p.sourceHead sink part) = [] := by
  simp only [sourceHead, applicationState, completionFunction, groupControl]
  (repeat' split) <;> simp [EmitStep.pieces, h]

/-- A source with code begins with its includes. -/
theorem first_of_code {sink : Sink} (hs : sink ∈ p.codeSinks) :
    ∃ part more, p.pieces sink = .loose (.code (p.includes part)) :: more := by
  rw [codeSinks, Configuration.isSplit] at hs
  rw [pieces_eq, opening, declarations]
  cases hl : p.config.layout with
  | combined =>
    obtain rfl : sink = .main := by simpa [hl] using hs
    exact ⟨.whole, _, rfl⟩
  | splitApi =>
    rcases (show sink = .main ∨ sink = .api by simpa [hl] using hs) with rfl | rfl
    · exact ⟨.application, _, rfl⟩
    · rw [gather_append, gather_append, pieces_sourceHead (by decide)]
      exact ⟨.library, _, rfl⟩

theorem mem_headerSinks_iff {sink : Sink} : sink ∈ p.headerSinks ↔ p.owns = true ∧ p.config.retrieval = .fullyConnected ∧
    (sink = .weights ∨ sink = .sampleData ∧ p.verifies = true) := by
  rw [headerSinks]
  cases p.owns <;> cases p.verifies <;> by_cases hr : p.config.retrieval = .fullyConnected <;> simp [hr]

theorem pieces_of_header {sink : Sink} (hs : sink ∈ p.headerSinks) :
    p.pieces sink = (p.unitLiterals.filter (·.1 = sink)).map fun literal => .loose (.raw literal.2) := by
  obtain ⟨ho, -, hsink⟩ := mem_headerSinks_iff.1 hs
  have hcode : sink ∉ p.codeSinks ∧ sink ≠ .main := by
    rw [codeSinks]
    rcases hsink with rfl | ⟨rfl, -⟩ <;> split <;> simp
  rw [pieces_of_literals hcode.1 hcode.2, literals_actions, if_pos ho]

/-- A header begins with its array. -/
theorem Coherent.first_of_header (h : p.Coherent) {sink : Sink} (hs : sink ∈ p.headerSinks) :
    ∃ name values more, p.pieces sink = .loose (.raw (LayerStyle.decimals name values).define) :: more ∧
      sink.opening = "#define " ++ name := by
  obtain ⟨ho, hr, hsink⟩ := mem_headerSinks_iff.1 hs
  obtain ⟨weights, bias, expected, hunits, hverifies⟩ := h.fullyConnected_units ho hr
  rw [pieces_of_header hs, unitLiterals, hunits]
  rcases hsink with rfl | ⟨rfl, hgolden⟩
  · exact ⟨"FC_WEIGHTS", _, _, rfl, rfl⟩
  · rw [hgolden] at hverifies
    obtain ⟨values, rfl⟩ := Option.isSome_iff_exists.1 hverifies
    cases bias <;> exact ⟨"FC_EXPECTED", values, _, rfl, rfl⟩

theorem Coherent.opening_text (h : p.Coherent) {sink : Sink} (hs : sink ∈ p.sinks) :
    ∃ rest, Piece.renderAll (p.pieces sink) = sink.opening ++ rest := by
  have hfirst : ∃ piece more, p.pieces sink = piece :: more ∧ ∃ rest, piece.render = sink.opening ++ rest := by
    by_cases hheader : sink ∈ p.headerSinks
    · obtain ⟨name, values, more, hpieces, hopening⟩ := h.first_of_header hheader
      exact ⟨_, more, hpieces, hopening ▸ render_array name values⟩
    · have hcode : sink ∈ p.codeSinks := by
        rw [codeSinks]
        rw [sinks] at hs
        cases hsplit : p.config.isSplit <;> simp_all
      have hopening : sink.opening = "#include <stdlib.h>" := by
        rw [codeSinks] at hcode
        cases sink with
        | main | api => rfl
        | weights | sampleData => split at hcode <;> simp at hcode
      obtain ⟨part, more, hpieces⟩ := first_of_code hcode
      exact ⟨_, more, hpieces, hopening ▸ render_includes part⟩
  obtain ⟨piece, more, hpieces, rest, hrest⟩ := hfirst
  rw [hpieces, ← List.singleton_append, Piece.renderAll_append, Piece.renderAll_singleton, hrest, String.append_assoc]
  exact ⟨_, rfl⟩

end Plan

/-! ## Names of files -/

/-- The names of the files that every program of a configuration has. -/
def Configuration.sourceNames (c : Configuration) : List String := "main.c" :: if c.isSplit then ["cnn.c"] else []

/-- The headers that are written bear names of their own. -/
def Configuration.HeadersApart (c : Configuration) (golden : Bool) : Prop :=
  c.topology.ownsAccelerator = true → c.retrieval = .fullyConnected → c.weightsHeader ∉ c.sourceNames ∧
    (golden = true → c.sampleHeader ∉ c.sourceNames ∧ c.sampleHeader ≠ c.weightsHeader)

theorem Plan.fileNames_nodup_iff (p : Plan) : (p.sinks.map p.config.fileName).Nodup ↔ p.config.HeadersApart p.verifies := by
  rw [sinks, headerSinks, Configuration.HeadersApart, Configuration.sourceNames, ← owns]
  cases ho : p.owns with
  | false => cases p.config.isSplit <;> simp [Configuration.fileName]
  | true =>
    by_cases hr : p.config.retrieval = .fullyConnected
    · cases p.config.isSplit <;> cases p.verifies <;> simp [hr, Configuration.fileName] <;> grind
    · cases p.config.isSplit <;> simp [hr, Configuration.fileName]

/-! ## Reading the files -/

namespace Synthesis

/-- Every source is read back from its file as it was written. -/
def Intact (s : Synthesis) (directory : String) (w : World) : Prop :=
  ∀ source ∈ s.sources directory, w.files.readText w.working source.1 = .ok source.2

/-- No two sources lie at the same place. -/
def Apart (s : Synthesis) (directory : String) (w : World) : Prop :=
  ((s.sources directory).map fun source => w.files.locate w.working source.1).Nodup

variable {c : Configuration} {d : Device} {i : Inputs} {s : Synthesis} {directory : String} {w w' : World}

theorem sources_eq (h : run c d i = .ok s) (directory : String) : s.sources directory =
    s.plan.sinks.map fun sink => (joinPath directory (c.fileName sink), Piece.renderAll (s.plan.pieces sink)) := by
  obtain ⟨-, hconfig, -⟩ := run_ok h
  rw [sources, streams_eq h, List.map_map, config, hconfig]
  rfl

theorem text_ne (h : run c d i = .ok s) {a b : Sink} (ha : a ∈ s.plan.sinks) (hb : b ∈ s.plan.sinks)
    (hopening : a.opening ≠ b.opening) : Piece.renderAll (s.plan.pieces a) ≠ Piece.renderAll (s.plan.pieces b) := by
  obtain ⟨hcoherent, -⟩ := run_ok h
  obtain ⟨rest, hrest⟩ := hcoherent.opening_text ha
  obtain ⟨more, hmore⟩ := hcoherent.opening_text hb
  have htake (sink : Sink) (text : String) : (sink.opening ++ text).toList.take 12 = sink.opening.toList.take 12 := by
    rw [String.toList_append, List.take_append_of_le_length]
    cases sink <;> decide
  rw [hrest, hmore]
  intro hsame
  refine hopening (Sink.opening_eq a b ?_)
  rw [← htake a rest, hsame, htake]

/-- Sources are written when their directory can be made and then every one of them can be written. -/
theorem writeSources_eq_ok : (s.writeSources directory).runIn w = (.ok (), w') ↔
    ∃ made files, w.files.makeDirectories w.working directory = (.ok (), made) ∧
      made.writeTexts w.working (s.sources directory) = .ok files ∧ w' = { w with files } := by
  rw [writeSources, Task.runIn_bind_eq_ok]
  simp only [Task.runIn_makeDirectories_eq_ok, Task.runIn_writeTexts_eq_ok]
  constructor
  · rintro ⟨_, _, ⟨made, hmade, rfl⟩, files, hfiles, rfl⟩
    exact ⟨made, files, hmade, hfiles, rfl⟩
  · rintro ⟨made, files, hmade, hfiles, rfl⟩
    exact ⟨(), _, ⟨made, hmade, rfl⟩, files, hfiles, rfl⟩

/-- The file of a source has its place, which ends in the name of the file if that has no slash. -/
theorem place_of_source (h : run c d i = .ok s) {made files : FileTree} {working : Place}
    (hw : made.writeTexts working (s.sources directory) = .ok files) {sink : Sink} (hs : sink ∈ s.plan.sinks) :
    ∃ p, files.locate working (joinPath directory (c.fileName sink)) = .ok p ∧
      ('/' ∉ (c.fileName sink).toList → p.getLast? = some (c.fileName sink)) := by
  rw [sources_eq h] at hw
  obtain ⟨before, after, hsplit⟩ := List.append_of_mem hs
  rw [hsplit, List.map_append, List.map_cons] at hw
  obtain ⟨p, last, hp, hnames, hlast, -⟩ := FileTree.readText_writeTexts hw
  refine ⟨p, hp, fun hplain => ?_⟩
  rw [hlast, hnames.last_eq hplain]

/-- Names without a slash lead to one place only if they are the same. -/
theorem locate_eq_iff (h : run c d i = .ok s) {made files : FileTree} {working : Place}
    (hw : made.writeTexts working (s.sources directory) = .ok files) {a b : Sink} (ha : a ∈ s.plan.sinks)
    (hb : b ∈ s.plan.sinks) (hplain : '/' ∉ (c.fileName a).toList) (hplain' : '/' ∉ (c.fileName b).toList) :
    files.locate working (joinPath directory (c.fileName a)) = files.locate working (joinPath directory (c.fileName b)) ↔
      c.fileName a = c.fileName b := by
  obtain ⟨p, hp, hlast⟩ := place_of_source h hw ha
  obtain ⟨q, hq, hlast'⟩ := place_of_source h hw hb
  constructor
  · intro hsame
    obtain rfl : p = q := Except.ok.inj (hp.symm.trans (hsame.trans hq))
    exact Option.some.inj ((hlast hplain).symm.trans (hlast' hplain'))
  · intro hsame
    rw [hsame]

/-- Sources at one place differ, so that only one of them is read back. -/
theorem intact_iff_apart (h : run c d i = .ok s) (hw : (s.writeSources directory).runIn w = (.ok (), w')) :
    s.Intact directory w' ↔ s.Apart directory w' := by
  obtain ⟨made, files, -, hfiles, rfl⟩ := writeSources_eq_ok.1 hw
  refine FileTree.readText_all_iff hfiles ?_
  have hnodup : s.plan.sinks.Nodup := by
    rw [← s.plan.filter_sinks]
    exact (show Sink.all.Nodup by decide).sublist List.filter_sublist
  rw [sources_eq h, List.pairwise_map]
  refine hnodup.imp_of_mem fun {a b} ha hb hne hsame => text_ne h ha hb fun hopening => ?_
  -- Only the two sources of fixed names open alike.
  obtain ⟨hplain, hplain', hnames⟩ :
      '/' ∉ (c.fileName a).toList ∧ '/' ∉ (c.fileName b).toList ∧ c.fileName a ≠ c.fileName b := by
    cases a <;> cases b <;> simp_all [Sink.opening, Configuration.fileName]
  exact hnames ((locate_eq_iff h hfiles ha hb hplain hplain').1 hsame)

theorem apart_iff_nodup (h : run c d i = .ok s) (hw : (s.writeSources directory).runIn w = (.ok (), w'))
    (hplain : ∀ entry ∈ s.streams, '/' ∉ (c.fileName entry.1).toList) :
    s.Apart directory w' ↔ (s.streams.map fun entry => c.fileName entry.1).Nodup := by
  obtain ⟨made, files, -, hfiles, rfl⟩ := writeSources_eq_ok.1 hw
  rw [streams_eq h] at hplain ⊢
  rw [Apart, sources_eq h, List.map_map, List.map_map, List.Nodup, List.pairwise_map, List.Nodup, List.pairwise_map]
  refine List.Pairwise.iff_of_mem fun {a b} ha hb => not_congr ?_
  exact locate_eq_iff h hfiles ha hb (hplain _ (List.mem_map_of_mem ha)) (hplain _ (List.mem_map_of_mem hb))

/-- The files of a program bear different names just when its headers have names of their own. Whenever the sources have been
written, all of them are read back as they were if no two lie at one place, and only then; for names without a slash that is when
all names are different. -/
theorem sources_intact_iff (h : run c d i = .ok s) :
    ((s.streams.map fun entry => c.fileName entry.1).Nodup ↔ c.HeadersApart i.expected.isSome) ∧
    ∀ directory w w', (s.writeSources directory).runIn w = (.ok (), w') →
      (s.Intact directory w' ↔ s.Apart directory w') ∧
      ((∀ entry ∈ s.streams, '/' ∉ (c.fileName entry.1).toList) →
        (s.Intact directory w' ↔ c.HeadersApart i.expected.isSome)) := by
  have hnames : (s.streams.map fun entry => c.fileName entry.1).Nodup ↔ c.HeadersApart i.expected.isSome := by
    obtain ⟨-, rfl, -, hverifies⟩ := run_ok h
    rw [streams_eq h, List.map_map, ← hverifies]
    exact s.plan.fileNames_nodup_iff
  refine ⟨hnames, fun directory w w' hw => ⟨intact_iff_apart h hw, fun hplain => ?_⟩⟩
  rw [intact_iff_apart h hw, apart_iff_nodup h hw hplain, hnames]

/-- A program whose header of weights has the name of the source of `main`. -/
def overwritingClassifier : Configuration :=
  ⟨{ Settings.initial with
      groups := .ofList [0], target := .embedded, retrieval := .fullyConnected, weightsHeader := "main.c" }, by decide⟩

theorem sources_intact_overwritten : ∃ s w', run overwritingClassifier .ai85 smallWeights = .ok s ∧
    (s.writeSources "").runIn ⟨.empty, [], "", ""⟩ = (.ok (), w') ∧ ¬ s.Intact "" w' := by
  obtain ⟨s, hs⟩ := exists_run (c := overwritingClassifier) (d := .ai85) (i := smallWeights) (by decide)
  obtain ⟨_, hconfig, -, hverifies⟩ := run_ok hs
  have hsinks : s.plan.sinks = [.main, .weights] := by
    rw [Plan.sinks, Plan.headerSinks, Plan.owns, hconfig, hverifies]
    rfl
  have hwrite (code weights : String) : ∃ files,
      FileTree.empty.writeTexts [] [("main.c", code), ("main.c", weights)] = .ok files := ⟨_, rfl⟩
  obtain ⟨files, hfiles⟩ := hwrite (Piece.renderAll (s.plan.pieces .main)) (Piece.renderAll (s.plan.pieces .weights))
  have hsources : s.sources "" = [("main.c", Piece.renderAll (s.plan.pieces .main)),
      ("main.c", Piece.renderAll (s.plan.pieces .weights))] := by
    rw [sources_eq hs, hsinks]
    rfl
  have hw : (s.writeSources "").runIn ⟨.empty, [], "", ""⟩ = (.ok (), ⟨files, [], "", ""⟩) :=
    writeSources_eq_ok.2 ⟨.empty, files, rfl, hsources ▸ hfiles, rfl⟩
  refine ⟨s, _, hs, hw, fun hintact => ?_⟩
  have hplain (sink : Sink) : '/' ∉ (overwritingClassifier.fileName sink).toList := by
    cases sink <;> decide
  have hapart := (((sources_intact_iff hs).2 "" _ _ hw).2 fun entry _ => hplain entry.1).1 hintact
  exact (hapart rfl rfl).1 List.mem_cons_self

end Synthesis

end AccelFirmware
