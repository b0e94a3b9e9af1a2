import AccelFirmware.Proofs.Reports

/-!
# Resolution of references

Every function that an operation refers to is there: its name belongs to one function of the program, which has been closed
earlier on the same sink, or, for references in `main`, lies in the source of the library.
-/

namespace AccelFirmware

open Operation AccelFirmware.Action EmitStep

/-! ## Pieces and references -/

namespace EmitStep

/-- What a step on a sink refers to. -/
def referencesOn (sink : Sink) (step : EmitStep) : List String := referencesOfAll (step.operationsOn sink)

theorem references_of_piece {sink : Sink} {step : EmitStep} {piece : Piece} (h : piece ∈ step.pieces sink) :
    referencesOfAll piece.operations = step.referencesOn sink := by
  cases step with
  | push s ops =>
    by_cases hs : s = sink
    · obtain rfl : piece = .loose (.code ops) := by simpa [EmitStep.pieces, hs] using h
      simp [referencesOn, operationsOn, hs, Piece.operations, Fragment.operations]
    · simp [EmitStep.pieces, hs] at h
  | raw s text =>
    by_cases hs : s = sink
    · obtain rfl : piece = .loose (.raw text) := by simpa [EmitStep.pieces, hs] using h
      rfl
    · simp [EmitStep.pieces, hs] at h
  | function s signature body result =>
    by_cases hs : s = sink
    · obtain rfl : piece = .function signature [.code body] result := by simpa [EmitStep.pieces, hs] using h
      simp [referencesOn, operationsOn, hs, Piece.operations, Fragment.operations]
    · simp [EmitStep.pieces, hs] at h
  | openUnit s signature | closeUnit s result => simp [EmitStep.pieces] at h

theorem referencesOn_subset (sink : Sink) (step : EmitStep) : step.referencesOn sink ⊆ step.references := by
  cases step with
  | push s ops | function s signature body result =>
    simp only [referencesOn, operationsOn, references]
    split <;> simp [referencesOfAll]
  | _ => simp [referencesOn, operationsOn, referencesOfAll]

/-- The functions among the pieces of plain steps are those that the steps define. -/
theorem functions_of_pieces (sink : Sink) (actions : List Action) :
    (gather (EmitStep.pieces sink) actions).filterMap (Piece.function? sink) =
      (gather whole actions).filter (·.sink = sink) := by
  simp only [gather]
  generalize steps actions = ss
  induction ss with
  | nil => rfl
  | cons s ss ih =>
    rw [List.flatMap_cons, List.flatMap_cons, List.filterMap_append, List.filter_append, ih]
    congr 1
    cases s with
    | function t signature body result =>
      by_cases ht : t = sink <;> simp [EmitStep.pieces, whole, Piece.function?, Fragment.operations, ht]
    | push t ops => by_cases ht : t = sink <;> simp [EmitStep.pieces, whole, Piece.function?, ht]
    | raw t text => by_cases ht : t = sink <;> simp [EmitStep.pieces, whole, Piece.function?, ht]
    | openUnit t signature | closeUnit t result => rfl

end EmitStep

/-- The functions that are closed among some pieces of a sink. -/
def closedNames (sink : Sink) (pieces : List Piece) : List String := functionNames (pieces.filterMap (Piece.function? sink))

namespace Plan

variable {p : Plan}

/-! ## References apart from `main` -/

section

variable {sink : Sink}

theorem referencesOn_push (hs : sink ≠ .main) (ops : List Operation) : referencesOn sink (.push .main ops) = [] := by
  simp [referencesOn, operationsOn, Ne.symm hs, referencesOfAll]

theorem referencesOn_api {signature : Signature} {body : List Operation} {result : Option String}
    (h : referencesOfAll body = []) : referencesOn sink (.function .api signature body result) = [] := by
  simp only [referencesOn, operationsOn]
  split
  · exact h
  · rfl

theorem referencesOn_boostFunction (name : String) (level : Level) :
    gather (referencesOn sink) [boostFunction name level] = [] := by
  simp [boostFunction, referencesOn_api (references_drivePin _ _ _)]

theorem referencesOn_fatalCheck (hs : sink ≠ .main) (callee : Callee) :
    gather (referencesOn sink) (p.fatalCheck callee) = [] := by
  simp [fatalCheck, referencesOn_push hs]

theorem referencesOn_locals (hs : sink ≠ .main) : gather (referencesOn sink) p.locals = [] := by
  simp only [locals]
  split <;> simp [referencesOn_push hs]

/-- The bring-up defines functions of the library, and one of them installs the handler. -/
theorem referencesOn_acceleratorBringUp (hs : sink ≠ .main) : gather (referencesOn sink) p.acceleratorBringUp =
    if p.sdkRuntime && p.config.isSplit then referencesOn sink (.function .api enableSignature p.enableBody (some "CNN_OK"))
    else [] := by
  have hbase : gather (referencesOn sink) (if p.config.measureEnergy then [.push .main p.measureBasePower] else []) = [] := by
    split <;> simp [referencesOn_push hs]
  have hon : gather (referencesOn sink) p.boostOn = [] := by
    simp only [boostOn]
    cases p.config.isSplit <;> cases p.config.boost <;>
      simp [referencesOn_push hs, boostFunction, referencesOn_api (references_drivePin _ _ _)]
  cases hr : p.sdkRuntime <;> cases hsplit : p.config.isSplit <;>
    simp [acceleratorBringUp, hr, hsplit, referencesOn_push hs, hbase, hon]

theorem referencesOn_configure (hs : sink ≠ .main) : gather (referencesOn sink) p.configure = [] := by
  simp only [configure]
  cases p.config.verifyKernels <;> simp [referencesOn_push hs, referencesOn_fatalCheck hs]

theorem referencesOn_execute (hs : sink ≠ .main) : gather (referencesOn sink) p.execute = [] := by
  simp only [execute, firstRun, furtherRuns, boostOff, gather_append]
  (repeat' split) <;> simp [referencesOn_push hs, referencesOn_boostFunction]

theorem referencesOn_retrieve (hs : sink ≠ .main) : gather (referencesOn sink) p.retrieve = [] := by
  simp only [retrieve]
  cases p.config.verifyOutput <;> cases p.verifies <;> cases p.embedded <;>
    simp [referencesOn_push hs, referencesOn_fatalCheck hs]

theorem referencesOn_ending (hs : sink ≠ .main) : gather (referencesOn sink) p.ending = [] := by
  simp only [ending, acceleratorShutdown, disableFunction]
  cases p.config.forever <;> cases p.config.isSplit <;> cases p.printsClasses <;>
    simp [referencesOn_push hs, referencesOn_api p.references_shutdown]

end

/-- Apart from its source, `main` brings the functions of the library with it, and only one of them refers to another. -/
theorem references_elsewhere {sink : Sink} (hs : sink ≠ .main) {name : String}
    (h : name ∈ gather (referencesOn sink) p.inside) :
    p.owns = true ∧ p.config.isSplit = true ∧ sink = .api ∧ name = p.completionName := by
  obtain ⟨ho, hbringUp⟩ : p.owns = true ∧ name ∈ gather (referencesOn sink) p.acceleratorBringUp := by
    cases ho : p.owns with
    | false => simp [inside, acceleratorPhases, ho, referencesOn_locals hs, referencesOn_push hs] at h
    | true =>
      simpa [inside, acceleratorPhases, ho, referencesOn_locals hs, referencesOn_push hs, referencesOn_configure hs,
        referencesOn_execute hs, referencesOn_retrieve hs, referencesOn_ending hs] using h
  rw [referencesOn_acceleratorBringUp hs] at hbringUp
  split at hbringUp
  · rename_i hruns
    obtain ⟨hr, hsplit⟩ : p.sdkRuntime = true ∧ p.config.isSplit = true := by simpa using hruns
    have hsink : sink = .api := by
      by_contra hne
      simp [referencesOn, operationsOn, Ne.symm hne, referencesOfAll] at hbringUp
    refine ⟨ho, hsplit, hsink, ?_⟩
    subst hsink
    simp only [referencesOn, operationsOn, if_true, references_enableBody] at hbringUp
    simp only [completionName, waitStrategy_eq_interrupt hr, handlerSignature]
    cases ht : p.config.topology with
    | companion => simp [ht] at hbringUp
    | singleCore | armHost => simpa [ht, Signature.procedure] using hbringUp
  · cases hbringUp

/-! ## Functions by name -/

/-- A function that is defined ahead of `main` is closed there, on its sink. -/
theorem closed_of_definition {d : Definition}
    (h : d ∈ p.failDefinitions ++ p.libraryDefinitions ++ (p.unitDefinitions ++ p.hostDefinitions)) :
    d.name ∈ closedNames d.sink (gather (EmitStep.pieces d.sink) p.opening) := by
  rw [← p.define_opening.whole] at h
  obtain ⟨f, hf, rfl⟩ := List.mem_map.1 h
  rw [closedNames, functions_of_pieces]
  exact List.mem_map_of_mem (List.mem_filter.2 ⟨hf, by simp [EmittedFunction.definition]⟩)

theorem sink_of_callee {d : Definition} (h : d ∈ p.callees) : d.sink = .main ∨ d.sink = .api := by
  have hroute : p.routeSink = .main ∨ p.routeSink = .api := by
    simp only [routeSink]
    split <;> simp
  simp only [callees, List.mem_append] at h
  rcases h with (((hfail | hlibrary) | hunit) | hhost) | hapi
  · simp only [failDefinitions] at hfail
    split at hfail <;> simp_all
  · simp only [libraryDefinitions] at hlibrary
    (repeat' split at hlibrary) <;> simp at hlibrary
    · rcases hlibrary with rfl | rfl | rfl <;> exact hroute
    · exact hlibrary ▸ hroute
  · simp only [unitDefinitions] at hunit
    split at hunit
    · obtain ⟨u, -, rfl⟩ := List.mem_map.1 hunit
      exact Or.inl rfl
    · cases hunit
  · simp only [hostDefinitions] at hhost
    (repeat' split at hhost) <;> simp at hhost
    · rcases hhost with rfl | rfl <;> exact Or.inl rfl
    · exact Or.inl (hhost ▸ rfl)
    · exact Or.inl (hhost ▸ rfl)
  · exact Or.inr (sink_of_apiDefinition hapi)

/-! ## Resolution -/

theorem referencesOfAll_gather (sink : Sink) (actions : List Action) :
    referencesOfAll (gather (operationsOn sink) actions) = gather (referencesOn sink) actions := by
  simp only [gather, referencesOfAll_eq_flatMap, List.flatMap_assoc]
  exact List.flatMap_congr fun step _ => (referencesOfAll_eq_flatMap _).symm

/-- Nothing ahead of `main` refers to a function. -/
theorem Coherent.silent_opening (h : p.Coherent) {sink : Sink} {piece : Piece}
    (hp : piece ∈ gather (EmitStep.pieces sink) p.opening) : referencesOfAll piece.operations = [] := by
  obtain ⟨step, hstep, hp⟩ := List.mem_flatMap.1 hp
  have hnone : step.references = [] := List.flatMap_eq_nil_iff.1 h.references_opening step hstep
  rw [references_of_piece hp]
  exact List.eq_nil_of_subset_nil (hnone ▸ step.referencesOn_subset sink)

theorem split_behind {α : Type} {xs ys before after : List α} {x : α} (h : xs ++ ys = before ++ x :: after) (hx : x ∉ xs) :
    ∃ more, before = xs ++ more ∧ ys = more ++ x :: after := by
  rcases List.append_eq_append_iff.1 h with ⟨more, rfl, hys⟩ | ⟨more, rfl, hmore⟩
  · exact ⟨more, rfl, hys⟩
  · cases more with
    | nil => exact ⟨[], by simp, hmore.symm⟩
    | cons y more =>
      obtain ⟨rfl, -⟩ := List.cons.inj hmore
      exact absurd (by simp) hx

theorem closedNames_append (sink : Sink) (ps qs : List Piece) :
    closedNames sink (ps ++ qs) = closedNames sink ps ++ closedNames sink qs := by
  simp [closedNames, functionNames]

theorem Coherent.resolved (h : p.Coherent) {sink : Sink} {before after : List Piece} {piece : Piece}
    (hpieces : p.pieces sink = before ++ piece :: after) {name : String} (hname : name ∈ referencesOfAll piece.operations) :
    name ∈ closedNames sink before ∨ sink = .main ∧ ⟨.api, name⟩ ∈ p.definitions := by
  rw [pieces_eq] at hpieces
  obtain ⟨more, rfl, hrest⟩ := split_behind hpieces fun hm => by
    rw [h.silent_opening hm] at hname
    cases hname
  rw [closedNames_append, List.mem_append]
  by_cases hs : sink = .main
  · subst hs
    have hmain : piece = .function (.status "main") (gather (fragments .main) p.inside) (some "0") := by
      rw [if_pos rfl] at hrest
      have hm : piece ∈ more ++ piece :: after := by simp
      rwa [← hrest, List.mem_singleton] at hm
    have hreference : name ∈ gather references p.inside := by
      have hoperations : piece.operations = gather (operationsOn .main) p.inside := by
        rw [hmain, operations_inside, ← operations_fragments]
        rfl
      rw [hoperations, referencesOfAll_gather] at hname
      obtain ⟨step, hstep, hname⟩ := List.mem_flatMap.1 hname
      exact List.mem_flatMap.2 ⟨step, hstep, step.referencesOn_subset _ hname⟩
    obtain ⟨d, hd, rfl⟩ := List.mem_map.1 (h.resolves_inside name hreference)
    rcases sink_of_callee hd with hsink | hsink
    · refine Or.inl (Or.inl (hsink ▸ closed_of_definition ?_))
      simp only [callees, List.mem_append] at hd ⊢
      rcases hd with (((hd | hd) | hd) | hd) | hd
      · exact Or.inl (Or.inl hd)
      · exact Or.inl (Or.inr hd)
      · exact Or.inr (Or.inl hd)
      · exact Or.inr (Or.inr hd)
      · rw [sink_of_apiDefinition hd] at hsink
        cases hsink
    · exact Or.inr ⟨rfl, List.mem_append_left _ (hsink ▸ hd)⟩
  · rw [if_neg hs] at hrest
    obtain ⟨step, hstep, hpiece⟩ := List.mem_flatMap.1 (show piece ∈ gather (EmitStep.pieces sink) p.inside by simp [hrest])
    rw [references_of_piece hpiece] at hname
    obtain ⟨ho, hsplit, rfl, rfl⟩ := references_elsewhere hs (List.mem_flatMap.2 ⟨step, hstep, hname⟩)
    -- The handler is defined at the head of the library.
    have hhandler : ⟨.api, p.completionName⟩ ∈ p.libraryDefinitions := by
      simp [libraryDefinitions, ho, routeSink, hsplit]
    exact Or.inl (Or.inl (closed_of_definition (d := ⟨.api, p.completionName⟩) (by simp [hhandler])))

end Plan

end AccelFirmware
