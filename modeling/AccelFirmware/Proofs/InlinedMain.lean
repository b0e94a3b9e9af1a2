import AccelFirmware.Proofs.Layouts

/-!
# `main` with its functions inlined

The functions of the split layout in the place of their calls. What `main` then does is what one list of operations does,
`openedMain`, in which no call of these functions is left; in the combined layout the list is the body of `main` itself.
-/

namespace AccelFirmware

namespace Plan

open Operation AccelFirmware.Action EmitStep

variable (p : Plan)

/-! ## Opened phases -/

/-- The source that `main` asks for. -/
def requestedSource : ClockSource := if p.config.pll then .ito else .pclk

/-- The comparison that guards the wait for a source, once the parameter is replaced. -/
def sourceGuard : String := p.requestedSource.selector ++ " == " ++ pllSymbol

/-- The switch to a source that is passed as an argument. -/
def passedClock : List Operation :=
  (if p.device.supportsPll then [Operation.guarded p.sourceGuard (.waitUntil pllNotReady (some "Wait for PLL"))] else []) ++
  [Operation.write clockRegister .assign (clockSelection p.requestedSource (.fixed 1))]

def openedEnable : List Operation :=
  if p.config.isSplit then
    p.enableCall.take 2 ++ p.powerUp ++ [Operation.blank] ++ p.passedClock ++
    [callProvided "MXC_SYS_ClockEnable" ["MXC_SYS_PERIPH_CLOCK_CNN"] (some "Enable CNN clock"), .blank] ++
    p.completionVector
  else p.enableBody

def openedBoostOn : List Operation :=
  if p.config.isSplit then
    match p.config.boost with
    | none => []
    | some b => drivePin b.portName b.pinName .high
  else gather (pushed .main) p.boostOn

def openedBringUp : List Operation :=
  if p.sdkRuntime then
    (if p.config.measureEnergy then p.shutdown ++ p.measureBasePower.tail else []) ++
    p.openedEnable ++ p.openedBoostOn ++ [Operation.blank]
  else []

def openedBoostOff : List Operation :=
  if p.config.isSplit then
    if p.config.forever then []
    else
      match p.config.boost with
      | none => []
      | some b => drivePin b.portName b.pinName .low ++ [Operation.blank]
  else gather (pushed .main) p.boostOff

def openedEnding : List Operation :=
  if p.config.isSplit && !p.config.forever then
    p.shutdown ++ [Operation.blank] ++ if p.printsClasses then p.classPrintout else []
  else gather (pushed .main) p.ending

/-- The body of `main` with the functions of the split layout in the place of their calls. -/
def openedMain : List Operation :=
  p.leadOps ++ p.openedBringUp ++ p.runOps ++ p.openedBoostOff ++ gather (pushed .main) p.retrieve ++ p.openedEnding ++
    p.epilogue

/-! ## Calls that are opened -/

section

variable {p : Plan} (taken : String → Bool)

theorem apply_guard (source divider : List Char) :
    (clockBindings source divider).apply ("clock_source == " ++ pllSymbol) =
      String.ofList source ++ " == " ++ pllSymbol := by
  have hwords : (clockBindings source divider).replace [] (tokens ("clock_source == " ++ pllSymbol).toList) =
      source ++ (" == ".toList ++ pllSymbol.toList) := rfl
  simp only [Bindings.apply, hwords, String.ofList_append, String.ofList_toList, String.append_assoc]

/-- The arguments of `main` in the place of the parameters. -/
theorem substitute_parameterClock (p : Plan) :
    (selectClock .parameter .parameter none p.device).map
        (substitute (clockBindings p.requestedSource.selector.toList (ClockDivider.fixed 1).selector.toList)) =
      p.passedClock := by
  have hready : (clockBindings p.requestedSource.selector.toList (ClockDivider.fixed 1).selector.toList).apply pllNotReady =
      pllNotReady := apply_of_missing_letter (by decide)
  have hregister : clockRegister.substitute
      (clockBindings p.requestedSource.selector.toList (ClockDivider.fixed 1).selector.toList) = clockRegister := rfl
  have hwrite := apply_clockSelection p.requestedSource (.fixed 1)
  simp only [selectClock, ClockSource.readyWait, passedClock, sourceGuard]
  split
  · simp [substitute, apply_guard, hready, hregister, hwrite]
  · simp [substitute, hregister, hwrite]

theorem inlined_enableCall (h : p.Coherent) (ho : p.owns = true) (hs : p.config.isSplit = true) :
    inlined taken p.functions p.enableCall = executionOfAll taken p.openedEnable := by
  have hcall := inlined_call taken (api_functions ho hs).1 h.functionNames_nodup (by simp [enableSignature, apiFunctions])
    [p.requestedClock.2, (ClockDivider.fixed 1).selector] none
  have hbindings : enableSignature.bindings [p.requestedClock.2, (ClockDivider.fixed 1).selector] =
      clockBindings p.requestedSource.selector.toList (ClockDivider.fixed 1).selector.toList := by
    rw [requestedClock_eq h]
    rfl
  have hclock : p.enableClock = selectClock .parameter .parameter none p.device := by
    rw [enableClock, if_pos hs]
  rw [EmittedFunction.instantiate, hbindings, substituteAll_eq_map, enableBody, hclock] at hcall
  simp only [List.map_append, substitute_powerUp, substitute_completionVector, substitute_parameterClock] at hcall
  have hcomments : inlined taken p.functions (p.enableCall.take 2) = executionOfAll taken (p.enableCall.take 2) := rfl
  have hsplit : p.enableCall = p.enableCall.take 2 ++ p.enableCall.drop 2 := rfl
  rw [hsplit, inlined_append, hcomments]
  simp only [openedEnable, if_pos hs, List.append_assoc, executionOfAll_append taken (p.enableCall.take 2)]
  rw [← List.append_assoc, ← List.append_assoc, ← List.append_assoc]
  exact congrArg _ hcall

/-! ## Phases that are opened -/

/-- Only the split layout has calls to open. -/
theorem independent_combined (p : Plan) (hs : p.config.isSplit = false) :
    Independent (gather (pushed .main) p.boostOn) ∧ Independent (gather (pushed .main) p.boostOff) ∧
      Independent p.enableBody ∧ Independent (gather (pushed .main) p.ending) := by
  have hdown (port mask : String) (level : Level) : Independent (drivePin port mask level) :=
    independent_of_references rfl
  have hbody : Independent p.enableBody := by
    rw [Independent, references_enableBody]
    cases p.config.topology <;> simp [apiFunctions]
  have hshutdown : Independent p.shutdown := independent_of_references p.references_shutdown
  have hprint : Independent p.classPrintout := independent_of_references p.references_classPrintout
  refine ⟨?_, ?_, hbody, ?_⟩
  · simp only [boostOn, hs]
    cases p.config.boost with
    | none => exact independent_nil
    | some b => simp [pushed, Operation.references, hdown]
  · simp only [boostOff, hs]
    cases p.config.forever <;> cases p.config.boost <;> exact independent_of_references rfl
  · simp only [ending, acceleratorShutdown, hs]
    cases p.config.forever with
    | true => simpa [pushed] using p.independent_endlessLoop
    | false => cases p.printsClasses <;> simp [pushed, hshutdown, hprint]

theorem inlined_boostOn (h : p.Coherent) (ho : p.owns = true) :
    inlined taken p.functions (gather (pushed .main) p.boostOn) = executionOfAll taken p.openedBoostOn := by
  simp only [openedBoostOn]
  split
  · rename_i hs
    simp only [boostOn, if_pos hs]
    cases p.config.boost with
    | none => rfl
    | some b => exact (inlined_boost taken h ho hs b.portName b.pinName (some "Turn on the boost circuit")).1
  · rename_i hs
    exact inlined_of_references taken _ (p.independent_combined (by simpa using hs)).1

theorem inlined_boostOff (h : p.Coherent) (ho : p.owns = true) :
    inlined taken p.functions (gather (pushed .main) p.boostOff) = executionOfAll taken p.openedBoostOff := by
  simp only [openedBoostOff]
  split
  · rename_i hs
    simp only [boostOff, hs, boostFunction]
    cases p.config.forever with
    | true => rfl
    | false =>
      cases p.config.boost with
      | none => rfl
      | some b =>
        have hcall := (inlined_boost taken h ho hs b.portName b.pinName (some "Turn off the boost circuit")).2
        have hsplit := inlined_append taken p.functions
          [callEmitted "cnn_boost_disable" [b.portName, b.pinName] (some "Turn off the boost circuit")] [.blank]
        rw [hcall] at hsplit
        simp only [Bool.false_eq_true, if_false, executionOfAll_append]
        exact hsplit
  · rename_i hs
    exact inlined_of_references taken _ (p.independent_combined (by simpa using hs)).2.1

theorem inlined_bringUp (h : p.Coherent) (ho : p.owns = true) :
    inlined taken p.functions (gather (pushed .main) p.acceleratorBringUp) = executionOfAll taken p.openedBringUp := by
  simp only [acceleratorBringUp, openedBringUp]
  split
  · have hbase : inlined taken p.functions
        (gather (pushed .main) (if p.config.measureEnergy then [.push .main p.measureBasePower] else [])) =
        executionOfAll taken (if p.config.measureEnergy then p.shutdown ++ p.measureBasePower.tail else []) := by
      split
      · rename_i he
        have hcall := inlined_disable taken h ho (p.config.split_of_measureEnergy he)
          (some "Disable clock and power to CNN")
        have hrest : Independent p.measureBasePower.tail := by
          simp only [measureBasePower]
          cases p.config.topology <;> exact independent_of_references rfl
        have hsplit : gather (pushed .main) [.push .main p.measureBasePower] =
            [callEmitted "cnn_disable" [] (some "Disable clock and power to CNN")] ++ p.measureBasePower.tail := by
          simp [pushed, measureBasePower]
        rw [hsplit, inlined_append, hcall, inlined_of_references taken p.functions hrest, executionOfAll_append]
      · rfl
    have henable : inlined taken p.functions (gather (pushed .main) (if p.config.isSplit then
        [.push .main p.enableCall, .function .api enableSignature p.enableBody (some "CNN_OK")]
        else [.push .main p.enableBody])) = executionOfAll taken p.openedEnable := by
      split
      · rename_i hs
        simpa [pushed] using inlined_enableCall taken h ho hs
      · rename_i hs
        rw [openedEnable, if_neg hs]
        simpa [pushed] using inlined_of_references taken p.functions (p.independent_combined (by simpa using hs)).2.2.1
    simp only [gather_append, inlined_append, executionOfAll_append, hbase, henable, inlined_boostOn taken h ho]
    rfl
  · rfl

theorem inlined_ending (h : p.Coherent) (ho : p.owns = true) :
    inlined taken p.functions (gather (pushed .main) p.ending) = executionOfAll taken p.openedEnding := by
  simp only [openedEnding]
  cases hs : p.config.isSplit with
  | false => exact inlined_of_references taken _ (p.independent_combined hs).2.2.2
  | true =>
    cases hf : p.config.forever with
    | true =>
      have hloop : gather (pushed .main) p.ending = p.endlessLoop := by
        simp [ending, hf, hs, disableFunction, pushed]
      rw [hloop, inlined_of_references taken p.functions p.independent_endlessLoop]
      rfl
    | false =>
      have hending : gather (pushed .main) p.ending =
          [callEmitted "cnn_disable" [] (some "Shut down CNN clock, disable peripheral")] ++
            ([Operation.blank] ++ if p.printsClasses then p.classPrintout else []) := by
        simp only [ending, acceleratorShutdown, hf, hs, disableFunction]
        cases p.printsClasses <;> simp [pushed]
      have hprint : Independent ([Operation.blank] ++ if p.printsClasses then p.classPrintout else []) := by
        split <;> exact independent_of_references rfl
      rw [hending, inlined_append, inlined_disable taken h ho hs, inlined_of_references taken p.functions hprint]
      simp [executionOfAll_append]

/-- With the functions inlined, `main` does what its opened body does. -/
theorem Coherent.inlined_main (h : p.Coherent) (ho : p.owns = true) :
    inlined taken p.functions (EmittedFunction.bodyOf "main" p.functions) = executionOfAll taken p.openedMain := by
  rw [h.main_body, inside_eq ho, openedMain]
  simp only [inlined_append, executionOfAll_append, inlined_of_references taken p.functions p.independent_leadOps,
    inlined_of_references taken p.functions p.independent_runOps,
    inlined_of_references taken p.functions p.independent_retrieve,
    inlined_of_references taken p.functions p.independent_epilogue, inlined_bringUp taken h ho,
    inlined_boostOff taken h ho, inlined_ending taken h ho]

end

end Plan

end AccelFirmware
