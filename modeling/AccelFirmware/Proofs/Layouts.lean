import AccelFirmware.Proofs.Inlining
import AccelFirmware.Proofs.Numerals
import AccelFirmware.Proofs.Outcome
import AccelFirmware.Proofs.Pins

/-!
# The two layouts

The combined and the split layout are the same program. Once the calls of the functions that only the split layout has are
replaced by what these functions do, `main` has the same effects in both, comments, blank lines and the waits for the PLL
left aside.
-/

namespace AccelFirmware

/-! ## Traces -/

namespace Operation

/-- Leaves out what does nothing, and the waits for the PLL. -/
def essential? : Operation → Option Operation
  | .comment _ | .blank => none
  | .waitUntil condition note => if condition = pllNotReady then none else some (.waitUntil condition note)
  | op => some op

theorem essential?_eq {op op' : Operation} (h : op.essential? = some op') : op' = op := by
  cases op with
  | waitUntil condition note =>
    simp only [essential?] at h
    split at h
    · cases h
    · exact (Option.some.inj h).symm
  | comment _ | blank => cases h
  | _ => exact (Option.some.inj h).symm

variable (taken : String → Bool)

def trace (ops : List Operation) : Execution Operation :=
  (executionOfAll taken ops).filterMap essential?

/-- What operations do, with the functions of the split layout inlined. -/
def inlined (functions : List EmittedFunction) (ops : List Operation) : Execution Operation :=
  (executionOfAll taken ops).bind (expand functions apiFunctions taken)

/-- The essential steps, with the functions of the split layout inlined. -/
def inlinedTrace (functions : List EmittedFunction) (ops : List Operation) : Execution Operation :=
  (inlined taken functions ops).filterMap essential?

theorem trace_append (as bs : List Operation) : trace taken (as ++ bs) = (trace taken as).andThen (trace taken bs) := by
  simp [trace, executionOfAll_append]

theorem inlined_append (functions : List EmittedFunction) (as bs : List Operation) :
    inlined taken functions (as ++ bs) = (inlined taken functions as).andThen (inlined taken functions bs) := by
  simp [inlined, executionOfAll_append, Execution.bind_andThen]

/-- Nothing is inlined where none of the functions is called. -/
theorem inlined_of_references (functions : List EmittedFunction) {ops : List Operation}
    (h : ∀ n ∈ referencesOfAll ops, n ∉ apiFunctions) : inlined taken functions ops = executionOfAll taken ops :=
  bind_expand_of_references h

theorem inlined_call {functions : List EmittedFunction} {f : EmittedFunction} (hf : f ∈ functions)
    (hn : (functionNames functions).Nodup) (hname : f.signature.name ∈ apiFunctions) (args : List String)
    (note : Option String) :
    inlined taken functions [.call (.emitted f.signature.name) args note] = executionOfAll taken (f.instantiate args) := by
  have hone : executionOfAll taken [.call (.emitted f.signature.name) args note] =
      .ofList [.call (.emitted f.signature.name) args note] := rfl
  rw [inlined, hone, Execution.bind_ofList, Execution.sequence, Execution.sequence, Execution.andThen_nil,
    expand_call hf hn hname]

theorem inlinedTrace_append (functions : List EmittedFunction) (as bs : List Operation) :
    inlinedTrace taken functions (as ++ bs) =
      (inlinedTrace taken functions as).andThen (inlinedTrace taken functions bs) := by
  simp [inlinedTrace, inlined_append]

theorem inlinedTrace_blank (functions : List EmittedFunction) (ops : List Operation) :
    inlinedTrace taken functions (ops ++ [Operation.blank]) = inlinedTrace taken functions ops := by
  have hblank : inlinedTrace taken functions [.blank] = .ofList [] := rfl
  rw [inlinedTrace_append, hblank, Execution.andThen_nil]

theorem inlinedTrace_of_references (functions : List EmittedFunction) {ops : List Operation}
    (h : ∀ n ∈ referencesOfAll ops, n ∉ apiFunctions) : inlinedTrace taken functions ops = trace taken ops := by
  rw [inlinedTrace, inlined_of_references taken functions h, trace]

theorem inlinedTrace_call {functions : List EmittedFunction} {f : EmittedFunction} (hf : f ∈ functions)
    (hn : (functionNames functions).Nodup) (hname : f.signature.name ∈ apiFunctions) (args : List String)
    (note : Option String) :
    inlinedTrace taken functions [.call (.emitted f.signature.name) args note] = trace taken (f.instantiate args) := by
  rw [inlinedTrace, inlined_call taken hf hn hname, trace]

end Operation

/-! ## Texts without parameters -/

def clockBindings (source divider : List Char) : Bindings :=
  [("clock_source".toList, source), ("clock_divider".toList, divider)]

section

variable {source divider : List Char}

theorem apply_of_missing_letter {text : String} (h : 'k' ∉ text.toList) :
    (clockBindings source divider).apply text = text := by
  refine Bindings.apply_of_missing 'k' ?_ h
  simp [clockBindings]

end

namespace Plan

open Operation

variable {p : Plan} {source divider : List Char}

theorem substitute_powerUp : p.powerUp.map (substitute (clockBindings source divider)) = p.powerUp := by
  have hdigits (r : Radix) (n : Nat) : 'k' ∉ r.write n := not_mem_write rfl r n
  have hregister (c : PowerController) (index : Nat) :
      (c.register index).substitute (clockBindings source divider) = c.register index := by
    have hmissing : 'k' ∉ (c.block ++ "->reg" ++ decimal index).toList := by
      cases c <;> simp [PowerController.block, decimal, hdigits]
    simp only [PowerController.register, Register.substitute, apply_of_missing_letter hmissing]
  have hvalue (n : Nat) : (clockBindings source divider).apply ("0x" ++ hex n) = "0x" ++ hex n :=
    apply_of_missing_letter (by simp [hex, hdigits])
  simp [powerUp, powerSequence, powerWrites, substitute, hregister, hvalue]

theorem substitute_completionVector :
    p.completionVector.map (substitute (clockBindings source divider)) = p.completionVector := by
  simp only [completionVector]
  cases p.config.topology <;> rfl

/-! ## The clock -/

theorem tokens_clockSelection :
    tokens (clockSelection .parameter .parameter).toList =
      [.mark '(', .word "MXC_GCR".toList, .mark '-', .mark '>', .word "pclkdiv".toList, .mark ' ', .mark '&', .mark ' ',
       .mark '~', .mark '(', .word "MXC_F_GCR_PCLKDIV_CNNCLKDIV".toList, .mark ' ', .mark '|', .mark ' ',
       .word "MXC_F_GCR_PCLKDIV_CNNCLKSEL".toList, .mark ')', .mark ')', .mark '\n', .mark '|', .mark ' ',
       .word "clock_divider".toList, .mark ' ', .mark '|', .mark ' ', .word "clock_source".toList] := by
  decide +kernel

theorem apply_clockSelection (source : ClockSource) (divider : ClockDivider) :
    (clockBindings source.selector.toList divider.selector.toList).apply (clockSelection .parameter .parameter) =
      clockSelection source divider := by
  have hwords (source divider : List Char) :
      (clockBindings source divider).replace [] (tokens (clockSelection .parameter .parameter).toList) =
        "(MXC_GCR->pclkdiv & ~(MXC_F_GCR_PCLKDIV_CNNCLKDIV | MXC_F_GCR_PCLKDIV_CNNCLKSEL))\n| ".toList ++
          (divider ++ (" | ".toList ++ (source ++ []))) := by
    rw [tokens_clockSelection]
    rfl
  -- Stated apart because `String.append_assoc` would take the long literal for an append.
  have hassoc (first second third fourth : String) :
      first ++ (second ++ (third ++ fourth)) = first ++ second ++ third ++ fourth := by
    simp only [String.append_assoc]
  simp only [Bindings.apply, hwords, List.append_nil, String.ofList_append, String.ofList_toList]
  exact hassoc _ _ _ _

theorem trace_selectClock (taken : String → Bool) (source : ClockSource) (divider : ClockDivider) (note : Option String)
    (device : Device) :
    trace taken (selectClock source divider note device) =
      .ofList [.write clockRegister .assign (clockSelection source divider)] := by
  have hwait : trace taken (source.readyWait device) = .ofList [] := by
    cases source with
    | pclk => rfl
    | ito => simp [ClockSource.readyWait, trace, executionOfAll, execution, essential?]
    | parameter =>
      simp only [ClockSource.readyWait]
      split
      · cases ht : taken ("clock_source == " ++ pllSymbol) <;>
          simp [trace, executionOfAll, execution, essential?, ht]
      · rfl
  have hnote : trace taken (note.map comment).toList = .ofList [] := by
    cases note <;> rfl
  simp only [selectClock, trace_append, hwait, hnote]
  rfl

theorem trace_substitute_selectClock (taken : String → Bool) (source : ClockSource) (divider : ClockDivider)
    (device : Device) :
    trace taken ((selectClock .parameter .parameter none device).map
        (substitute (clockBindings source.selector.toList divider.selector.toList))) =
      .ofList [.write clockRegister .assign (clockSelection source divider)] := by
  have hregister : clockRegister.substitute (clockBindings source.selector.toList divider.selector.toList) =
      clockRegister := rfl
  have hready : (clockBindings source.selector.toList divider.selector.toList).apply pllNotReady = pllNotReady :=
    apply_of_missing_letter (by decide)
  have hwait : trace taken ((ClockSource.parameter.readyWait device).map
      (substitute (clockBindings source.selector.toList divider.selector.toList))) = .ofList [] := by
    simp only [ClockSource.readyWait]
    split
    · simp only [List.map_cons, List.map_nil, substitute, hready, trace, executionOfAll, execution]
      split <;> simp [essential?]
    · rfl
  simp only [selectClock, List.map_append, trace_append, hwait]
  simp only [Option.map_none, Option.toList_none, List.map_nil, List.map_cons, substitute, hregister, apply_clockSelection]
  rfl

/-! ## Switching on -/

theorem requestedClock_eq (h : p.Coherent) :
    p.requestedClock.2 = (if p.config.pll then ClockSource.ito else .pclk).selector := by
  have hpll := h.pll
  simp only [requestedClock]
  cases hp : p.config.pll <;> cases hc : p.device.clocks.pll <;> simp_all

/-! ## The body of `main` -/

open AccelFirmware.Action EmitStep

def leadOps (p : Plan) : List Operation := gather (pushed .main) p.locals ++ p.coreOperations ++ p.camera

/-- Loading, configuring and running. -/
def runOps (p : Plan) : List Operation :=
  gather (pushed .main) p.configure ++ gather (pushed .main) p.firstRun ++ gather (pushed .main) p.furtherRuns ++ p.leavePll

theorem inside_eq (ho : p.owns = true) :
    gather (pushed .main) p.inside =
      p.leadOps ++ gather (pushed .main) p.acceleratorBringUp ++ p.runOps ++ gather (pushed .main) p.boostOff ++
        gather (pushed .main) p.retrieve ++ gather (pushed .main) p.ending ++ p.epilogue := by
  simp [inside, acceleratorPhases, ho, execute, leadOps, runOps, pushed]

/-- Operations that call none of the functions of the split layout. -/
def Independent (ops : List Operation) : Prop := ∀ n ∈ referencesOfAll ops, n ∉ apiFunctions

@[simp] theorem independent_nil : Independent [] := by
  simp [Independent, referencesOfAll]

@[simp] theorem independent_cons {op : Operation} {ops : List Operation} :
    Independent (op :: ops) ↔ (∀ n ∈ op.references, n ∉ apiFunctions) ∧ Independent ops := by
  simp [Independent, referencesOfAll, or_imp, forall_and]

@[simp] theorem independent_append {as bs : List Operation} :
    Independent (as ++ bs) ↔ Independent as ∧ Independent bs := by
  simp [Independent, or_imp, forall_and]

theorem independent_of_references {ops : List Operation} (h : referencesOfAll ops = []) : Independent ops := by
  simp [Independent, h]

theorem independent_leadOps (p : Plan) : Independent p.leadOps := by
  have hlocals : Independent (gather (pushed .main) p.locals) := by
    simp only [locals]
    split <;> simp [pushed, Operation.references, independent_of_references p.references_localVariables]
  have hcore : Independent p.coreOperations := by
    rw [Independent, references_coreOperations]
    split <;> simp [apiFunctions]
  simp [leadOps, hlocals, hcore, independent_of_references p.references_camera]

theorem independent_fatalCheck (p : Plan) {callee : Callee} (h : ∀ n ∈ calleeReferences callee, n ∉ apiFunctions) :
    Independent (gather (pushed .main) (p.fatalCheck callee)) := by
  have hfail : "fail" ∉ apiFunctions := by decide
  simpa [fatalCheck, pushed, Operation.references, or_imp, forall_and] using ⟨h, fun _ => hfail⟩

theorem independent_completionWait (p : Plan) : ∀ n ∈ (Operation.await p.completionWait).references, n ∉ apiFunctions := by
  rw [references_completionWait]
  split <;> simp [apiFunctions]

theorem independent_configure (p : Plan) : Independent (gather (pushed .main) p.configure) := by
  have hhead : Independent
      (if p.embedded then [.statement "printf(\"\\n*** CNN Inference Test ***\\n\");", .blank] else []) := by
    split <;> simp [Operation.references]
  have hverify : Independent (gather (pushed .main)
      (if p.config.verifyKernels then p.fatalCheck (.provided "cnn_verify_weights") else [])) := by
    split
    · exact p.independent_fatalCheck (by simp [calleeReferences])
    · exact independent_nil
  have hcheck : Independent (gather (pushed .main) (p.fatalCheck (.provided "cnn_configure"))) :=
    p.independent_fatalCheck (by simp [calleeReferences])
  simp only [configure, gather_append, independent_append, hverify, hcheck, and_true]
  simp [pushed, hhead, independent_of_references p.references_loadKernels, references_loadBias]

theorem independent_firstRun (p : Plan) : Independent (gather (pushed .main) p.firstRun) := by
  have hstop : Independent p.stopAndContinue := by
    rw [Independent, references_stopAndContinue]
    split <;> simp [apiFunctions]
  have hmeasure : Independent p.measureRuns := by
    rw [Independent, references_measureRuns]
    split <;> simp [apiFunctions]
  have hload (note : String) : Independent (p.loadAndStart note) :=
    independent_of_references (p.references_loadAndStart note)
  have hwait := p.independent_completionWait
  simp only [firstRun]
  split
  · simpa [pushed] using ⟨hstop, hmeasure⟩
  · simpa [pushed, hload, hstop, Operation.references] using hwait

theorem independent_furtherRuns (p : Plan) : Independent (gather (pushed .main) p.furtherRuns) := by
  have hwait := p.independent_completionWait
  simp only [furtherRuns]
  split
  · simpa [pushed, Operation.references, referencesOfAll, apiFunctions] using hwait
  · exact independent_nil

theorem independent_runOps (p : Plan) : Independent p.runOps := by
  simp only [runOps, independent_append]
  exact ⟨⟨⟨p.independent_configure, p.independent_firstRun⟩, p.independent_furtherRuns⟩,
    independent_of_references p.references_leavePll⟩

theorem independent_retrieve (p : Plan) : Independent (gather (pushed .main) p.retrieve) := by
  have houtput : Independent (gather (pushed .main)
      (if p.config.verifyOutput then p.fatalCheck (.provided "check_output") else [])) := by
    split
    · exact p.independent_fatalCheck (by simp [calleeReferences])
    · exact independent_nil
  have hverify : Independent (gather (pushed .main)
      (if p.verifies then p.fatalCheck (.emitted "fc_verify") else [])) := by
    split
    · exact p.independent_fatalCheck (by simp [calleeReferences, apiFunctions])
    · exact independent_nil
  have hreport : Independent (gather (pushed .main) (if p.embedded then [.push .main p.passReport] else [])) := by
    split
    · simp [pushed, independent_of_references p.references_passReport]
    · exact independent_nil
  have hretrieval : ∀ n ∈ p.retrieval.references, n ∉ apiFunctions := by
    rw [references_retrieval]
    cases p.config.retrieval <;> simp [LayerKind.ofRetrieval?, LayerKind.functionName, apiFunctions]
  simp only [retrieve, gather_append, independent_append, houtput, hverify, hreport, and_true, true_and]
  simpa [pushed] using hretrieval

theorem independent_endlessLoop (p : Plan) : Independent p.endlessLoop := by
  rw [Independent, references_endlessLoop]
  split <;> simp [apiFunctions]

theorem independent_epilogue (p : Plan) : Independent p.epilogue := by
  rw [Independent, references_epilogue]
  split <;> simp [apiFunctions]

/-! ## Pins during the runs -/

open PinState in
/-- Between bring-up and teardown nothing happens to `gpio_out`. -/
theorem spares_runOps (p : Plan) : everyStepOfAll spares p.runOps = true := by
  have hkernels : everyStepOfAll spares p.loadKernels = true := by
    simp only [loadKernels, measureLoading, switchToPll]
    (repeat' split) <;> rfl
  have hhead : everyStepOfAll spares
      ((if p.embedded then [Operation.statement "printf(\"\\n*** CNN Inference Test ***\\n\");", .blank] else []) ++
        [callProvided "cnn_init" [] (some "Bring state machine into consistent state")] ++ p.loadKernels) = true := by
    simp only [everyStepOfAll_append, hkernels, Bool.and_true]
    split <;> rfl
  have hbias : everyStepOfAll spares [p.loadBias] = true := by
    simp only [loadBias]
    (repeat' split) <;> rfl
  have hverify : everyStepOfAll spares (gather (pushed .main)
      (if p.config.verifyKernels then p.fatalCheck (.provided "cnn_verify_weights") else [])) = true := by
    split <;> rfl
  have hconfigure : everyStepOfAll spares (gather (pushed .main) p.configure) = true := by
    simp only [configure, gather_append, gather_push, gather_nil, pushed, if_true, List.append_nil, everyStepOfAll_append,
      hverify, hhead, hbias]
    rfl
  have hfirst : everyStepOfAll spares (gather (pushed .main) p.firstRun) = true := by
    simp only [firstRun, stopAndContinue, measureRuns, loadAndStart]
    (repeat' split) <;> rfl
  have hfurther : everyStepOfAll spares (gather (pushed .main) p.furtherRuns) = true := by
    simp only [furtherRuns]
    split <;> rfl
  have hleave : everyStepOfAll spares p.leavePll = true := by
    simp only [leavePll]
    split <;> rfl
  simp only [runOps, everyStepOfAll_append, hconfigure, hfirst, hfurther, hleave, Bool.and_true]

/-! ## Plans of the two layouts -/

/-- A combined plan, and the one that differs from it in the layout. -/
inductive SplitOf : Plan → Plan → Prop
  | mk (settings : Settings) (legal : settings.conflict? = none)
      (legal' : { settings with layout := .splitApi : Settings }.conflict? = none) (device : Device) (mask : GroupMask)
      (units units' : List CodeUnit) (verifies : Bool) (h : settings.layout = .combined) :
      SplitOf ⟨⟨settings, legal⟩, device, mask, units, verifies⟩
        ⟨⟨{ settings with layout := .splitApi }, legal'⟩, device, mask, units', verifies⟩

namespace SplitOf

variable {p q : Plan}

theorem isSplit (h : SplitOf p q) : p.config.isSplit = false ∧ q.config.isSplit = true := by
  cases h with
  | mk settings _ _ _ _ _ _ _ h => exact ⟨by simp [Configuration.isSplit, h], rfl⟩

/-- The mask follows from the groups and the device. -/
theorem of_coherent (hp : p.Coherent) (hq : q.Coherent) (hd : q.device = p.device) (hv : q.verifies = p.verifies)
    (hl : p.config.layout = .combined) (hl' : q.config.toSettings = { p.config.toSettings with layout := .splitApi }) :
    SplitOf p q := by
  have hmask : q.mask = p.mask := by
    have hgroups : q.config.groups = p.config.groups := by rw [hl']
    have hmake := hq.mask
    rw [hgroups, hd, hp.mask] at hmake
    exact (Except.ok.inj hmake).symm
  obtain ⟨⟨settings, legal⟩, device, mask, units, verifies⟩ := p
  obtain ⟨⟨settings', legal'⟩, device', mask', units', verifies'⟩ := q
  cases hl'
  cases hd
  cases hv
  cases hmask
  exact .mk _ _ _ _ _ _ _ _ hl

theorem boost_eq (h : SplitOf p q) : q.config.boost = p.config.boost := by
  cases h
  rfl

theorem forever_eq (h : SplitOf p q) : q.config.forever = p.config.forever := by
  cases h
  rfl

/-- What the layout has no influence on. -/
theorem phases_eq (h : SplitOf p q) :
    q.leadOps = p.leadOps ∧ q.runOps = p.runOps ∧ q.retrieve = p.retrieve ∧ q.epilogue = p.epilogue := by
  cases h
  exact ⟨rfl, rfl, rfl, rfl⟩

theorem owns (h : SplitOf p q) : p.owns = true ∧ q.owns = true := by
  have howner : q.owns = true := by
    have hx := q.config.no_conflict
      (x := (!q.config.topology.ownsAccelerator && q.config.layout = .splitApi, .acceleratorOwnerRequired .splitLayout))
      (by simp [Settings.conflicts, Settings.topologyConflicts])
    have hs := h.isSplit.2
    simp_all [Plan.owns, Configuration.isSplit]
  have heq : q.owns = p.owns := by
    cases h
    rfl
  exact ⟨heq ▸ howner, howner⟩

theorem sdkRuntime (h : SplitOf p q) : p.sdkRuntime = true ∧ q.sdkRuntime = true := by
  have hq := Plan.sdkRuntime_of_split h.isSplit.2
  have heq : q.sdkRuntime = p.sdkRuntime := by
    cases h
    rfl
  exact ⟨heq ▸ hq, hq⟩

theorem measureEnergy (h : SplitOf p q) : p.config.measureEnergy = false ∧ q.config.measureEnergy = false := by
  have hp : p.config.measureEnergy = false := by
    by_contra he
    have := p.config.split_of_measureEnergy (by simpa using he)
    rw [h.isSplit.1] at this
    cases this
  have heq : q.config.measureEnergy = p.config.measureEnergy := by
    cases h
    rfl
  exact ⟨hp, heq ▸ hp⟩

end SplitOf

/-! ## Functions of the split layout -/

section

variable {q : Plan}

theorem mem_functions_of_inside {f : EmittedFunction} (h : f ∈ gather whole q.inside) : f ∈ q.functions := by
  simp [functions_eq, h]

theorem api_functions (ho : q.owns = true) (hs : q.config.isSplit = true) :
    ⟨.api, enableSignature, q.enableBody, some "CNN_OK"⟩ ∈ q.functions ∧
    ⟨.api, ⟨"int", "cnn_boost_enable", boostParameters⟩, drivePin "port" "pin" .high, some "CNN_OK"⟩ ∈ q.functions ∧
    ⟨.api, ⟨"int", "cnn_boost_disable", boostParameters⟩, drivePin "port" "pin" .low, some "CNN_OK"⟩ ∈ q.functions ∧
    ⟨.api, .status "cnn_disable", q.shutdown, some "CNN_OK"⟩ ∈ q.functions := by
  have hr := sdkRuntime_of_split hs
  refine ⟨mem_functions_of_inside ?_, mem_functions_of_inside ?_, mem_functions_of_inside ?_, mem_functions_of_inside ?_⟩
  · simp [inside, acceleratorPhases, ho, acceleratorBringUp, hr, hs, whole]
  · simp [inside, acceleratorPhases, ho, acceleratorBringUp, boostOn, boostFunction, hr, hs, whole]
  · simp [inside, acceleratorPhases, ho, execute, boostOff, boostFunction, hs, whole]
  · simp only [inside, acceleratorPhases, ho, ending, acceleratorShutdown, disableFunction]
    cases q.config.forever <;> simp [hs, whole]

end

/-! ## What the functions of the split layout do -/

theorem trace_enable {p q : Plan} (taken : String → Bool) (h : SplitOf p q) (hq : q.Coherent) :
    inlinedTrace taken q.functions q.enableCall = trace taken p.enableBody := by
  have hpower : q.powerUp = p.powerUp := by
    cases h
    rfl
  have hvector : q.completionVector = p.completionVector := by
    cases h
    rfl
  have hpll : q.config.pll = p.config.pll := by
    cases h
    rfl
  have hclock : q.enableClock = selectClock .parameter .parameter none q.device := by
    rw [enableClock, if_pos h.isSplit.2]
  obtain ⟨source, hsource, hcombined⟩ : ∃ source, q.requestedClock.2 = ClockSource.selector source ∧
      trace taken p.enableClock = .ofList [.write clockRegister .assign (clockSelection source (.fixed 1))] := by
    refine ⟨_, requestedClock_eq hq, ?_⟩
    simp only [enableClock, h.isSplit.1, hpll]
    cases p.config.pll <;> exact trace_selectClock _ _ _ _ _
  have hbindings : enableSignature.bindings [q.requestedClock.2, (ClockDivider.fixed 1).selector] =
      clockBindings q.requestedClock.2.toList (ClockDivider.fixed 1).selector.toList := rfl
  have hsplit (a b c : Operation) : inlinedTrace taken q.functions [a, b, c] =
      (inlinedTrace taken q.functions [a, b]).andThen (inlinedTrace taken q.functions [c]) :=
    inlinedTrace_append taken q.functions [a, b] [c]
  have hcall (args : List String) : inlinedTrace taken q.functions [callEmitted "cnn_enable" args] =
      trace taken (substituteAll (enableSignature.bindings args) q.enableBody) :=
    inlinedTrace_call taken (api_functions h.owns.2 h.isSplit.2).1 hq.functionNames_nodup
      (by simp [enableSignature, apiFunctions]) args none
  have hcomments (first second : String) : inlinedTrace taken q.functions [.comment first, .comment second] =
      .ofList [] := rfl
  rw [enableCall, hsplit, hcomments, hcall, hbindings, hsource, substituteAll_eq_map, enableBody, hclock]
  simp only [List.map_append, trace_append, substitute_powerUp, substitute_completionVector,
    trace_substitute_selectClock]
  rw [enableBody, hpower, hvector]
  simp only [trace_append, hcombined]
  rfl

theorem substitute_drivePin (name port pin : String) (level : Level) :
    substituteAll (Signature.bindings ⟨"int", name, boostParameters⟩ [port, pin]) (drivePin "port" "pin" level) =
      drivePin port pin level := by
  have hnames : parameterNames (tokens boostParameters.toList) = ["port".toList, "pin".toList] := by decide
  have hport (a b : List Char) : Bindings.replace [("port".toList, a), ("pin".toList, b)] []
      (tokens ("gpio_out.port = " ++ "port" ++ ";").toList) = "gpio_out.port = ".toList ++ (a ++ ";".toList) := rfl
  have hmask (a b : List Char) : Bindings.replace [("port".toList, a), ("pin".toList, b)] []
      (tokens ("gpio_out.mask = " ++ "pin" ++ ";").toList) = "gpio_out.mask = ".toList ++ (b ++ ";".toList) := rfl
  have hport' : Bindings.apply [("port".toList, port.toList), ("pin".toList, pin.toList)]
      ("gpio_out.port = " ++ "port" ++ ";") = "gpio_out.port = " ++ port ++ ";" := by
    rw [Bindings.apply, hport]
    simp only [String.ofList_append, String.ofList_toList, String.append_assoc]
  have hmask' : Bindings.apply [("port".toList, port.toList), ("pin".toList, pin.toList)]
      ("gpio_out.mask = " ++ "pin" ++ ";") = "gpio_out.mask = " ++ pin ++ ";" := by
    rw [Bindings.apply, hmask]
    simp only [String.ofList_append, String.ofList_toList, String.append_assoc]
  rw [Signature.bindings, hnames, drivePin, drivePin]
  simp only [List.map_cons, List.map_nil, List.zip_cons_cons, List.zip_nil_right, substituteAll, substitute, hport', hmask']
  rfl

section

variable {p q : Plan} (taken : String → Bool)

theorem inlined_disable (h : p.Coherent) (ho : p.owns = true) (hs : p.config.isSplit = true) (note : Option String) :
    inlined taken p.functions [callEmitted "cnn_disable" [] note] = executionOfAll taken p.shutdown := by
  obtain ⟨_, _, _, hdown⟩ := api_functions ho hs
  have hcall := inlined_call taken hdown h.functionNames_nodup (by simp [apiFunctions, Signature.status]) [] note
  have hbindings : (Signature.status "cnn_disable").bindings [] = [] := rfl
  rw [EmittedFunction.instantiate, hbindings, substituteAll_nil] at hcall
  exact hcall

theorem inlined_boost (h : p.Coherent) (ho : p.owns = true) (hs : p.config.isSplit = true) (port pin : String)
    (note : Option String) :
    inlined taken p.functions [callEmitted "cnn_boost_enable" [port, pin] note] =
        executionOfAll taken (drivePin port pin .high) ∧
      inlined taken p.functions [callEmitted "cnn_boost_disable" [port, pin] note] =
        executionOfAll taken (drivePin port pin .low) := by
  obtain ⟨_, hup, hdown, _⟩ := api_functions ho hs
  constructor
  · have hcall := inlined_call taken hup h.functionNames_nodup (by simp [apiFunctions]) [port, pin] note
    rw [EmittedFunction.instantiate, substitute_drivePin] at hcall
    exact hcall
  · have hcall := inlined_call taken hdown h.functionNames_nodup (by simp [apiFunctions]) [port, pin] note
    rw [EmittedFunction.instantiate, substitute_drivePin] at hcall
    exact hcall

theorem trace_boost (h : SplitOf p q) (hq : q.Coherent) (port pin : String) (note : Option String) :
    inlinedTrace taken q.functions [callEmitted "cnn_boost_enable" [port, pin] note] =
        trace taken (drivePin port pin .high) ∧
      inlinedTrace taken q.functions [callEmitted "cnn_boost_disable" [port, pin] note] =
        trace taken (drivePin port pin .low) := by
  obtain ⟨hup, hdown⟩ := inlined_boost taken hq h.owns.2 h.isSplit.2 port pin note
  rw [inlinedTrace, inlinedTrace, hup, hdown]
  exact ⟨rfl, rfl⟩

theorem trace_disable (h : SplitOf p q) (hq : q.Coherent) (note : Option String) :
    inlinedTrace taken q.functions [callEmitted "cnn_disable" [] note] = trace taken p.shutdown := by
  have hshutdown : q.shutdown = p.shutdown := by
    cases h
    rfl
  rw [inlinedTrace, inlined_disable taken hq h.owns.2 h.isSplit.2, hshutdown, trace]

end

end Plan

end AccelFirmware
