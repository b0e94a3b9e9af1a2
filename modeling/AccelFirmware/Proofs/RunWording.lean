import AccelFirmware.Proofs.PhaseWording

/-!
# The wording of programs

The state at file scope, the completion of a run, loading, running and ending. All in all a program has the stamp where the SDK
is there, and what it waits by; the classes are printed with brackets of their own.
-/

namespace AccelFirmware

open AccelFirmware.Action EmitStep

namespace Plan

variable (p : Plan)

open Operation

/-! ## File scope -/

/-- The stamp of the handler, where there may be one. -/
def stampPhrases : List Phrase := if p.sdkRuntime then [.stamp] else []

theorem stampPhrases_eq (h : p.sdkRuntime = true) : p.stampPhrases = [.stamp] := if_pos h

theorem sdkRuntime_of_embedded (h : p.embedded = true) : p.sdkRuntime = true := by
  rw [sdkRuntime, h, Bool.true_or]

theorem says_applicationState (sink : Sink) : SaysOnly p.stampPhrases (gather EmitStep.operations (p.applicationState sink)) := by
  have htime (hr : p.sdkRuntime = true) : SaysOnly p.stampPhrases [.declare "volatile uint32_t cnn_time; // Stopwatch", .blank] := by
    rw [p.stampPhrases_eq hr]
    exact saysOnly_of_phrased (by repeat' constructor)
  have hfail : SaysOnly p.stampPhrases p.failBody := p.says_failBody.anywhere
  simp only [applicationState, gather_append, saysOnly_append]
  constructor
  · split
    · rename_i hr
      simpa [EmitStep.operations] using htime hr
    · exact saysOnly_nil
  · split
    · simpa [EmitStep.operations] using hfail
    · exact saysOnly_nil

theorem says_completionFunction (sink : Sink) :
    SaysOnly p.stampPhrases (gather EmitStep.operations [p.completionFunction sink]) := by
  simp only [completionFunction]
  cases hw : p.waitStrategy with
  | interrupt =>
    rw [p.stampPhrases_eq (sdkRuntime_of_interrupt hw)]
    simpa [EmitStep.operations] using p.says_handlerBody
  | poll =>
    have hcondition : Omits p.stampPhrases p.pollCondition :=
      Omits.anywhere (omits_of_blurred (.append (.append .literal (.hexWide _ _)) .literal) rfl)
    simpa [EmitStep.operations, SaysOnly, wordingOfAll, wording] using hcondition

theorem says_groupControl (sink : Sink) : SaysOnly p.stampPhrases (gather EmitStep.operations (p.groupControl sink)) := by
  have hresume : SaysOnly p.stampPhrases (if p.waitStrategy = .interrupt then [.statement "cnn_time = 0;", .blank] else []) := by
    split
    · rename_i hw
      rw [p.stampPhrases_eq (sdkRuntime_of_interrupt hw)]
      exact saysOnly_of_phrased (by repeat' constructor)
    · exact saysOnly_nil
  have hswitch (address : UInt32) (mode : WriteMode) {value note : String} (hvalue : Omits [] value) (hnote : Omits [] note) :
      SaysOnly p.stampPhrases [writeAt address mode value (some note)] := by
    refine SaysOnly.anywhere ?_
    simpa [writeAt, SaysOnly, wordingOfAll, wording, Register.texts] using ⟨hvalue, hnote⟩
  have hvalues : ∀ text ∈ ["1", "~1"], Omits [] text := Phrased.omits (by repeat' constructor)
  have hresumed (n : Nat) : Omits [] ("Re-enable group " ++ decimal n) := omits_of_blurred (.append .literal (.decimal _)) rfl
  have hstopped (n : Nat) : Omits [] ("Disable group " ++ decimal n) := omits_of_blurred (.append .literal (.decimal _)) rfl
  simp only [groupControl]
  cases p.config.master with
  | none => exact saysOnly_nil
  | some master =>
    have hcontinue := hswitch (p.device.ctlAddress master) .setBits (hvalues "1" (by simp)) (hresumed master.toNat)
    have hstop := hswitch (p.device.ctlAddress master) .keepBits (hvalues "~1" (by simp)) (hstopped master.toNat)
    simpa [EmitStep.operations] using
      saysOnly_append.2 ⟨hresume, saysOnly_cons.2 ⟨hcontinue, hstop⟩⟩

theorem says_completion (sink : Sink) :
    SaysOnly p.stampPhrases (gather EmitStep.operations (p.completionFunction sink :: p.groupControl sink)) := by
  rw [← List.singleton_append, gather_append]
  exact saysOnly_append.2 ⟨p.says_completionFunction sink, p.says_groupControl sink⟩

theorem says_declarations : ∀ op ∈ gather EmitStep.operations p.declarations,
    op ∈ p.config.arrayHeaders ∨ SaysOnly p.stampPhrases [op] := by
  have hhead (sink : Sink) (part : Part) : ∀ op ∈ gather EmitStep.operations (p.sourceHead sink part),
      op ∈ p.config.arrayHeaders ∨ SaysOnly p.stampPhrases [op] := by
    have hincludes : ∀ op ∈ p.includes part, op ∈ p.config.arrayHeaders ∨ SaysOnly p.stampPhrases [op] :=
      fun op hop => (p.says_includes part op hop).imp_right SaysOnly.anywhere
    have hstate : SaysOnly p.stampPhrases (gather EmitStep.operations (if p.owns then
        (if part.isApplication then p.applicationState sink else []) ++
        (if part.isLibrary then p.completionFunction sink :: p.groupControl sink else []) else [])) := by
      split
      · rw [gather_append, saysOnly_append]
        constructor
        · split
          · exact p.says_applicationState sink
          · exact saysOnly_nil
        · split
          · exact p.says_completion sink
          · exact saysOnly_nil
      · exact saysOnly_nil
    rw [sourceHead, gather_push, List.forall_mem_append]
    exact ⟨hincludes, fun op hop => Or.inr (hstate.of_mem hop)⟩
  simp only [declarations]
  cases p.config.layout with
  | combined => exact hhead _ _
  | splitApi =>
    rw [gather_append, List.forall_mem_append]
    exact ⟨hhead _ _, hhead _ _⟩

theorem Coherent.says_fileScope {p : Plan} (h : p.Coherent) : SaysOnly [] (gather EmitStep.operations p.fileScopeFunctions) := by
  have hbuffer : SaysOnly [] (gather EmitStep.operations
      (if p.config.retrieval = .unload then [.push .main [outputBuffer p.config.outputWidth, .blank]] else [])) := by
    split
    · simpa [EmitStep.operations] using saysOnly_cons.2 ⟨says_outputBuffer p.config.outputWidth, saysOnly_blank⟩
    · exact saysOnly_nil
  have hwake : SaysOnly [] (gather EmitStep.operations (if p.hostsWakeHandler then [wakeHandler] else [])) := by
    split <;> exact saysOnly_of_phrased (by repeat' constructor)
  have hhelper : SaysOnly [] (gather EmitStep.operations
      (if p.config.topology = .armHost && p.config.sleep && !p.embedded then [wakeStatusHelper] else [])) := by
    split <;> exact saysOnly_of_phrased (by repeat' constructor)
  simp only [fileScopeFunctions, gather_append, saysOnly_append, hwake, hhelper, and_true]
  split
  · rw [gather_append]
    exact saysOnly_append.2 ⟨h.says_units, hbuffer⟩
  · exact saysOnly_nil

/-! ## Runs -/

theorem says_switchToPll : SaysOnly [] p.switchToPll := by
  simp only [switchToPll]
  split
  · exact says_fixedClock (omits_of_written .literal rfl)
  · exact saysOnly_nil

theorem says_loadKernels : SaysOnly [] p.loadKernels := by
  simp only [loadKernels, measureLoading]
  split
  · exact saysOnly_append.2 ⟨p.says_switchToPll, saysOnly_of_phrased (by repeat' constructor)⟩
  · split <;> exact saysOnly_of_phrased (by repeat' constructor)

theorem says_loadBias : SaysOnly [] [p.loadBias] := by
  simp only [loadBias]
  (repeat' split) <;> exact saysOnly_of_phrased (by repeat' constructor)

theorem says_configure : SaysOnly [] (gather EmitStep.operations p.configure) := by
  have hopening : SaysOnly [] ((if p.embedded then
      [.statement "printf(\"\\n*** CNN Inference Test ***\\n\");", .blank] else []) ++
      [callProvided "cnn_init" [] (some "Bring state machine into consistent state")]) := by
    split <;> exact saysOnly_of_phrased (by repeat' constructor)
  have hverify : SaysOnly [] (gather EmitStep.operations
      (if p.config.verifyKernels then p.fatalCheck (.provided "cnn_verify_weights") else [])) := by
    split <;> exact saysOnly_of_phrased (by repeat' constructor)
  have hcheck : SaysOnly [] (gather EmitStep.operations (p.fatalCheck (.provided "cnn_configure"))) :=
    saysOnly_of_phrased (by repeat' constructor)
  have hmain : SaysOnly [] (gather EmitStep.operations [Action.push .main ((if p.embedded then
      [.statement "printf(\"\\n*** CNN Inference Test ***\\n\");", .blank] else []) ++
      [callProvided "cnn_init" [] (some "Bring state machine into consistent state")] ++ p.loadKernels)]) := by
    simpa [EmitStep.operations] using saysOnly_append.2 ⟨hopening, p.says_loadKernels⟩
  simp only [configure, gather_append, saysOnly_append, hverify, hcheck, hmain]
  simpa [EmitStep.operations] using p.says_loadBias

/-- A loop says what its body says. -/
theorem says_counted {allowed : List Phrase} {body : List Operation} (count : UInt32) (h : SaysOnly allowed body) :
    SaysOnly allowed [.counted count body] := by
  simpa [SaysOnly, wordingOfAll, wording] using h

theorem says_loadAndStart {note : String} (hnote : Omits [] note) : SaysOnly [] (p.loadAndStart note) := by
  have hfixed : ∀ text ∈ ["cnn_start", "load_input", "Load data input via FIFO", "Load data input"], Omits [] text :=
    Phrased.omits (by repeat' constructor)
  simp only [List.forall_mem_cons] at hfixed
  refine saysOnly_of_wording ?_
  simp only [loadAndStart]
  split <;> simp [wordingOfAll, wording, callProvided, Callee.name, hnote, hfixed]

theorem says_stopAndContinue : SaysOnly [] p.stopAndContinue := by
  simp only [stopAndContinue]
  split <;> exact saysOnly_of_phrased (by repeat' constructor)

theorem says_measureRuns : SaysOnly p.completionWait.phrases p.measureRuns := by
  have hbefore : SaysOnly [] [.statement "printf(\"Measuring input load + inference...\\n\");",
      callProvided "MXC_TMR_Delay" ["MXC_TMR0", "500000"],
      .statement "CNN_START;" (some "Allow capture of processing time")] := saysOnly_of_phrased (by repeat' constructor)
  have hafter : SaysOnly [] [.statement "CNN_COMPLETE;", .blank] := saysOnly_of_phrased (by repeat' constructor)
  have hload : SaysOnly [] (p.loadAndStart "Run inference") := p.says_loadAndStart (omits_of_written .literal rfl)
  have hruns := says_counted energyLoops (saysOnly_append.2 ⟨hload.anywhere, says_await p.completionWait⟩)
  exact saysOnly_append.2 ⟨hbefore.anywhere, saysOnly_append.2 ⟨hruns, hafter.anywhere⟩⟩

theorem says_firstRun : SaysOnly p.completionWait.phrases (gather EmitStep.operations p.firstRun) := by
  have hstop : SaysOnly p.completionWait.phrases p.stopAndContinue := p.says_stopAndContinue.anywhere
  simp only [firstRun]
  split
  · simpa [EmitStep.operations] using ⟨hstop, p.says_measureRuns⟩
  · have hload : SaysOnly [] (p.loadAndStart "Start CNN processing") := p.says_loadAndStart (omits_of_written .literal rfl)
    have hstart : SaysOnly p.completionWait.phrases (p.loadAndStart "Start CNN processing") := hload.anywhere
    have hawait : SaysOnly p.completionWait.phrases [.await p.completionWait, .blank] :=
      saysOnly_cons.2 ⟨says_await p.completionWait, saysOnly_blank⟩
    have hrun := saysOnly_append.2 ⟨saysOnly_cons.2 ⟨saysOnly_blank, hstop⟩, hawait⟩
    simpa [EmitStep.operations] using ⟨hstart, hrun⟩

theorem says_furtherRuns : SaysOnly p.completionWait.phrases (gather EmitStep.operations p.furtherRuns) := by
  have hcontinue : SaysOnly [] [callEmitted "cnn_continue"] := saysOnly_of_phrased (by repeat' constructor)
  have hruns := says_counted p.config.oneshot (saysOnly_append.2 ⟨hcontinue.anywhere, says_await p.completionWait⟩)
  simp only [furtherRuns]
  split
  · simpa [EmitStep.operations] using saysOnly_append.2 ⟨hruns, saysOnly_blank⟩
  · exact saysOnly_nil

theorem says_leavePll : SaysOnly [] p.leavePll := by
  simp only [leavePll]
  split
  · exact saysOnly_append.2 ⟨says_fixedClock (omits_of_written .literal rfl), saysOnly_of_phrased (by repeat' constructor)⟩
  · exact saysOnly_nil

theorem says_execute : SaysOnly p.completionWait.phrases (gather EmitStep.operations p.execute) := by
  have hleave : SaysOnly p.completionWait.phrases p.leavePll := p.says_leavePll.anywhere
  obtain ⟨-, hboost⟩ := p.says_boost
  simp only [execute, gather_append, saysOnly_append, says_firstRun, says_furtherRuns, true_and]
  exact ⟨by simpa [EmitStep.operations] using hleave, hboost.anywhere⟩

theorem says_retrieval : SaysOnly [] [p.retrieval] := by
  simp only [retrieval]
  cases p.config.retrieval with
  | unload => exact says_unloadCall _
  | softmaxOnly | fullyConnected => exact saysOnly_of_phrased (by repeat' constructor)

theorem says_passReport : SaysOnly [.stamp] p.passReport := by
  have hwhat : Omits [.stamp] ("#ifdef CNN_INFERENCE_TIMER\nprintf(\"Approximate " ++
      (if p.config.fifo then "data loading and inference" else "inference") ++
      " time: %d us\\n\\n\", cnn_time);\n#endif") := by
    split <;> exact omits_of_written (.append (.append .literal .literal) .literal) rfl
  have hpass : SaysOnly [.stamp] [.blank, .statement "printf(\"\\n*** PASS ***\\n\\n\");", .blank] :=
    saysOnly_of_phrased (by repeat' constructor)
  have hmonitor : SaysOnly [.stamp] (if p.config.measureEnergy then
      [.statement "printf(\"See monitor display for inference energy.\\n\\n\");", .blank] else []) := by
    split <;> exact saysOnly_of_phrased (by repeat' constructor)
  have htime : SaysOnly [.stamp] [.verbatim ("#ifdef CNN_INFERENCE_TIMER\nprintf(\"Approximate " ++
      (if p.config.fifo then "data loading and inference" else "inference") ++
      " time: %d us\\n\\n\", cnn_time);\n#endif"), .blank] := by
    simpa [SaysOnly, wordingOfAll, wording] using hwhat
  exact saysOnly_append.2 ⟨saysOnly_append.2 ⟨hpass, htime⟩, hmonitor⟩

theorem says_retrieve : SaysOnly p.stampPhrases (gather EmitStep.operations p.retrieve) := by
  have houtput : SaysOnly [] (gather EmitStep.operations
      (if p.config.verifyOutput then p.fatalCheck (.provided "check_output") else [])) := by
    split <;> exact saysOnly_of_phrased (by repeat' constructor)
  have hverify : SaysOnly [] (gather EmitStep.operations (if p.verifies then p.fatalCheck (.emitted "fc_verify") else [])) := by
    split <;> exact saysOnly_of_phrased (by repeat' constructor)
  simp only [retrieve, gather_append, saysOnly_append, houtput.anywhere, hverify.anywhere, true_and, and_true]
  refine ⟨by simpa [EmitStep.operations] using p.says_retrieval.anywhere, ?_⟩
  split
  · rename_i he
    rw [p.stampPhrases_eq (p.sdkRuntime_of_embedded he)]
    simpa [EmitStep.operations] using p.says_passReport
  · exact saysOnly_nil

/-! ## Ends -/

/-- The loop over the classes is the one piece of code that comes with its own brackets. -/
theorem says_classPrintout : SaysOnly [.opening, .closing] p.classPrintout := by
  have hsource : p.classSource = "fc_output" ∨ p.classSource = "ml_data" := by
    simp only [classSource]
    cases p.config.retrieval <;> simp
  have hheading : SaysOnly [.opening, .closing] [.statement "printf(\"Classification results:\\n\");"] :=
    saysOnly_of_phrased (by repeat' constructor)
  refine saysOnly_cons.2 ⟨hheading, saysOnly_of_wording fun text ht => ?_⟩
  obtain rfl := List.mem_singleton.1 ht
  rcases hsource with hs | hs <;> rw [hs] <;>
    exact omits_of_written (.append (.append (.append .literal .literal) .literal) .literal) rfl

theorem says_endlessLoop : SaysOnly p.completionWait.phrases p.endlessLoop := by
  have hlight : SaysOnly [] (if p.embedded then
      [.statement "printf(\"Starting endless loop...\\n\");", .blank, callProvided "LED_On" ["1"], .blank] else []) := by
    split <;> exact saysOnly_of_phrased (by repeat' constructor)
  have hstart : SaysOnly [] [callProvided "cnn_start"] := saysOnly_of_phrased (by repeat' constructor)
  have hruns : SaysOnly p.completionWait.phrases [.forever [callProvided "cnn_start", .await p.completionWait]] := by
    simpa [SaysOnly, wordingOfAll, wording] using saysOnly_append.2 ⟨hstart.anywhere, says_await p.completionWait⟩
  exact saysOnly_append.2 ⟨hlight.anywhere, hruns⟩

theorem says_acceleratorShutdown : SaysOnly [] (gather EmitStep.operations p.acceleratorShutdown) := by
  have hdisable : SaysOnly [] [callEmitted "cnn_disable" [] (some "Shut down CNN clock, disable peripheral"), .blank] :=
    saysOnly_of_phrased (by repeat' constructor)
  simp only [acceleratorShutdown, disableFunction]
  split
  · simpa [EmitStep.operations] using saysOnly_append.2 ⟨hdisable, p.says_shutdown⟩
  · simpa [EmitStep.operations] using p.says_shutdown

theorem says_ending : ∀ op ∈ gather EmitStep.operations p.ending,
    op ∈ p.classPrintout ∨ SaysOnly p.completionWait.phrases [op] := by
  have hfunction : SaysOnly p.completionWait.phrases
      (gather EmitStep.operations (if p.config.isSplit then [p.disableFunction] else [])) := by
    split
    · simpa [disableFunction, EmitStep.operations] using p.says_shutdown.anywhere
    · exact saysOnly_nil
  simp only [ending]
  split
  · have hwhole := saysOnly_append.2 ⟨p.says_endlessLoop, hfunction⟩
    intro op hop
    exact Or.inr (hwhole.of_mem (by simpa [EmitStep.operations] using hop))
  · simp only [gather_append, gather_advance, gather_nil, List.append_nil, List.forall_mem_append]
    refine ⟨fun op hop => Or.inr (p.says_acceleratorShutdown.anywhere.of_mem hop), ?_⟩
    split
    · intro op hop
      exact Or.inl (by simpa [EmitStep.operations] using hop)
    · simp

/-! ## Whole programs -/

/-- The phrases that a program has. -/
def phrases : List Phrase := p.stampPhrases ++ p.completionWait.phrases ++ p.handoffPhrases

theorem phrases_subset : p.phrases ⊆ Phrase.words := by
  have hstamp : p.stampPhrases ⊆ Phrase.words := by
    simp only [stampPhrases]
    split <;> simp [Phrase.words]
  have hwait : p.completionWait.phrases ⊆ Phrase.words := by
    rcases p.completionWait with (_ | _) | _ | _ <;> simp [CompletionWait.phrases, Phrase.words]
  have hhandoff : p.handoffPhrases ⊆ Phrase.words := by
    simp only [handoffPhrases]
    split <;> simp [Phrase.words]
  exact List.append_subset.2 ⟨List.append_subset.2 ⟨hstamp, hwait⟩, hhandoff⟩

/-- The names of two headers and the printout of the classes aside, a program has no other phrases. -/
theorem Coherent.says_actions {p : Plan} (h : p.Coherent) : ∀ op ∈ gather EmitStep.operations p.actions,
    op ∈ p.config.arrayHeaders ∨ op ∈ p.classPrintout ∨ SaysOnly p.phrases [op] := by
  have hstamp : p.stampPhrases ⊆ p.phrases := by simp [phrases]
  have hwait : p.completionWait.phrases ⊆ p.phrases := by simp [phrases]
  have hhandoff : p.handoffPhrases ⊆ p.phrases := by simp [phrases]
  have hwords {ops : List Operation} (hops : SaysOnly p.phrases ops) :
      ∀ op ∈ ops, op ∈ p.config.arrayHeaders ∨ op ∈ p.classPrintout ∨ SaysOnly p.phrases [op] :=
    fun op hop => Or.inr (Or.inr (hops.of_mem hop))
  have hopening : ∀ op ∈ gather EmitStep.operations p.opening,
      op ∈ p.config.arrayHeaders ∨ op ∈ p.classPrintout ∨ SaysOnly p.phrases [op] := by
    rw [opening, gather_append, List.forall_mem_append]
    refine ⟨fun op hop => ?_, hwords h.says_fileScope.anywhere⟩
    exact (p.says_declarations op hop).imp_right fun hop => Or.inr (hop.mono hstamp)
  have hphases : ∀ op ∈ gather EmitStep.operations p.acceleratorPhases,
      op ∈ p.config.arrayHeaders ∨ op ∈ p.classPrintout ∨ SaysOnly p.phrases [op] := by
    simp only [acceleratorPhases]
    split
    · simp only [gather_append, List.forall_mem_append]
      refine ⟨⟨⟨⟨hwords p.says_acceleratorBringUp.anywhere, hwords p.says_configure.anywhere⟩, hwords (p.says_execute.mono hwait)⟩,
        hwords (p.says_retrieve.mono hstamp)⟩, fun op hop => ?_⟩
      exact Or.inr ((p.says_ending op hop).imp_right fun hop => hop.mono hwait)
    · simp
  have hinside : ∀ op ∈ gather EmitStep.operations p.inside,
      op ∈ p.config.arrayHeaders ∨ op ∈ p.classPrintout ∨ SaysOnly p.phrases [op] := by
    have hbefore : SaysOnly p.phrases (gather EmitStep.operations
        (p.locals ++ p.coreBringUp ++ [Action.push .main p.camera])) := by
      refine SaysOnly.anywhere ?_
      simpa [EmitStep.operations] using saysOnly_append.2 ⟨p.says_locals, saysOnly_append.2 ⟨p.says_coreOperations, p.says_camera⟩⟩
    have hafter : SaysOnly p.phrases (gather EmitStep.operations [Action.push .main p.epilogue]) := by
      simpa [EmitStep.operations] using p.says_epilogue.mono hhandoff
    simp only [inside]
    rw [gather_append, gather_append, List.forall_mem_append, List.forall_mem_append]
    exact ⟨⟨hwords hbefore, hphases⟩, hwords hafter⟩
  rw [actions_eq]
  simp only [gather_append, List.forall_mem_append]
  exact ⟨⟨⟨hopening, by simp [EmitStep.operations]⟩, hinside⟩, by simp [EmitStep.operations]⟩

theorem Coherent.says_emitted {p : Plan} (h : p.Coherent) : ∀ op ∈ p.emitted,
    op ∈ p.config.arrayHeaders ∨ op ∈ p.classPrintout ∨ SaysOnly p.phrases [op] :=
  fun op hop => h.says_actions op (p.emitted_perm.mem_iff.1 hop)

end Plan

end AccelFirmware
