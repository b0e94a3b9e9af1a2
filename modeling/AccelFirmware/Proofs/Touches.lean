import AccelFirmware.Proofs.Execution
import AccelFirmware.Proofs.Functions

/-!
# What operations touch

The registers that operations write, the functions they call, the conditions they wait for. A phase that touches nothing of
some kind has no step of that kind, however its loops and guards are run.
-/

namespace AccelFirmware

/-- Something that an operation acts on, apart from the texts in it. -/
inductive Touch where
  | register (r : Register)
  | function (name : String)
  | handler (name : String)
  | condition (text : String)
  | completion
  | endlessLoop
  deriving DecidableEq, Repr

namespace Operation

mutual

def touches : Operation → List Touch
  | .write register _ _ _ => [.register register]
  | .call callee _ _ | .check callee _ => [.function callee.name]
  | .installVector _ handler _ => [.handler handler]
  | .waitUntil condition _ => [.condition condition]
  | .await _ => [.completion]
  | .guarded _ body => body.touches
  | .counted _ body => touchesOfAll body
  | .forever body => .endlessLoop :: touchesOfAll body
  | _ => []

def touchesOfAll : List Operation → List Touch
  | [] => []
  | op :: ops => op.touches ++ touchesOfAll ops

end

theorem collects_touches : Collects touches touchesOfAll :=
  ⟨fun _ _ => List.Subset.refl _, fun _ _ => List.Subset.refl _, fun _ => List.subset_cons_self _ _, fun _ _ => rfl⟩

@[simp] theorem touchesOfAll_append (as bs : List Operation) :
    touchesOfAll (as ++ bs) = touchesOfAll as ++ touchesOfAll bs :=
  collects_touches.append rfl as bs

variable (taken : String → Bool)

/-- Every step of some operations touches only what the operations touch. -/
theorem executionOfAll_touches (ops : List Operation) :
    (executionOfAll taken ops).All fun step => step.touches ⊆ touchesOfAll ops :=
  collects_touches.executionOfAll taken ops

mutual

theorem execution_ends : (op : Operation) → .endlessLoop ∉ op.touches → (op.execution taken).endless = none
  | .guarded condition body, h => by
      simp only [execution]
      split
      · exact execution_ends body h
      · rfl
  | .counted count body, h => Execution.times_ends (executionOfAll_ends body h) count.toNat
  | .forever body, h => absurd (List.mem_cons_self ..) h
  | .header _ _ _, _ | .define _ _, _ | .declare _, _ | .statement _ _, _ | .write _ _ _ _, _ | .call _ _ _, _
  | .installVector _ _ _, _ | .waitUntil _ _, _ | .await _, _ | .check _ _, _ | .comment _, _ | .blank, _
  | .verbatim _, _ => rfl

/-- Without an endless loop among them, operations come to an end. -/
theorem executionOfAll_ends :
    (ops : List Operation) → .endlessLoop ∉ touchesOfAll ops → (executionOfAll taken ops).endless = none
  | [], _ => rfl
  | op :: ops, h => by
      have hparts : .endlessLoop ∉ op.touches ∧ .endlessLoop ∉ touchesOfAll ops := by simpa [touchesOfAll] using h
      rw [executionOfAll, Execution.andThen_of_ends (execution_ends op hparts.1)]
      exact executionOfAll_ends ops hparts.2

end

/-- Operations that touch nothing of some kinds. -/
def Avoids (kinds : List Touch) (ops : List Operation) : Prop := ∀ t ∈ touchesOfAll ops, t ∉ kinds

section

variable {kinds : List Touch} {as bs ops : List Operation}

@[simp] theorem avoids_nil : Avoids kinds [] := by
  simp [Avoids, touchesOfAll]

@[simp] theorem avoids_append : Avoids kinds (as ++ bs) ↔ Avoids kinds as ∧ Avoids kinds bs := by
  simp [Avoids, or_imp, forall_and]

/-- A list that is checked item by item; the operations may carry texts that are not known. -/
theorem avoids_of_all (h : (touchesOfAll ops).all (fun t => !kinds.contains t) = true) : Avoids kinds ops := by
  intro t ht
  simpa using List.all_eq_true.1 h t ht

theorem avoids_of_subset {allowed : List Touch} (hsub : touchesOfAll ops ⊆ allowed)
    (h : allowed.all (fun t => !kinds.contains t) = true) : Avoids kinds ops := by
  intro t ht
  simpa using List.all_eq_true.1 h t (hsub ht)

mutual

theorem everyStep_of_touches {P : Operation → Bool} (hP : ∀ op : Operation, (∀ t ∈ op.touches, t ∉ kinds) → P op = true) :
    (op : Operation) → (∀ t ∈ op.touches, t ∉ kinds) → op.everyStep P = true
  | .guarded _ body, h => everyStep_of_touches hP body h
  | .counted _ body, h => everyStepOfAll_of_touches hP body h
  | .forever body, h => everyStepOfAll_of_touches hP body fun t ht => h t (List.mem_cons_of_mem _ ht)
  | .header _ _ _, h | .define _ _, h | .declare _, h | .statement _ _, h | .write _ _ _ _, h | .call _ _ _, h
  | .installVector _ _ _, h | .waitUntil _ _, h | .await _, h | .check _ _, h | .comment _, h | .blank, h
  | .verbatim _, h => hP _ h

/-- A check that only looks at what is touched, inside loops and guards too. -/
theorem everyStepOfAll_of_touches {P : Operation → Bool}
    (hP : ∀ op : Operation, (∀ t ∈ op.touches, t ∉ kinds) → P op = true) :
    (ops : List Operation) → Avoids kinds ops → everyStepOfAll P ops = true
  | [], _ => rfl
  | op :: ops, h => by
      have hparts : (∀ t ∈ op.touches, t ∉ kinds) ∧ Avoids kinds ops := by
        simpa [Avoids, touchesOfAll, or_imp, forall_and] using h
      rw [everyStepOfAll, everyStep_of_touches hP op hparts.1, everyStepOfAll_of_touches hP ops hparts.2]
      rfl

end

theorem Avoids.mono (h : Avoids kinds ops) {fewer : List Touch} (hsub : fewer ⊆ kinds) : Avoids fewer ops :=
  fun t ht hm => h t ht (hsub hm)

theorem Avoids.steps (h : Avoids kinds ops) (taken : String → Bool) :
    (executionOfAll taken ops).All fun step => ∀ t ∈ step.touches, t ∉ kinds :=
  (executionOfAll_touches taken ops).mono fun _ hsub t ht => h t (hsub ht)

/-- Operations that avoid all that is observed come to an end, and nothing is observed of them. -/
theorem Avoids.filterMap {β : Type} {f : Operation → Option β} (h : Avoids kinds ops) (hloop : .endlessLoop ∈ kinds)
    (hf : ∀ op : Operation, (∀ t ∈ op.touches, t ∉ kinds) → f op = none) (taken : String → Bool) :
    (executionOfAll taken ops).filterMap f = .ofList [] := by
  have hends : (executionOfAll taken ops).endless = none :=
    executionOfAll_ends taken ops fun hm => h _ hm hloop
  have honce : (executionOfAll taken ops).once.filterMap f = [] :=
    List.filterMap_eq_nil_iff.2 fun op hop => hf op ((h.steps taken).1 op hop)
  rw [Execution.filterMap, hends, honce]
  rfl

end

theorem touches_of_all {ops : List Operation} {allowed : List Touch}
    (h : (touchesOfAll ops).all allowed.contains = true) : touchesOfAll ops ⊆ allowed := by
  intro t ht
  simpa using List.all_eq_true.1 h t ht

end Operation

open Operation

theorem touches_powerSequence (c : PowerController) (direction : PowerDirection) (m : GroupMask) :
    touchesOfAll (powerSequence c direction m) = [3, 1, 0, 2, 3].map fun index => .register (c.register index) := rfl

namespace Plan

variable (p : Plan)

open AccelFirmware.Action EmitStep

/-! ## Cores and camera -/

theorem touches_locals : touchesOfAll (gather (pushed .main) p.locals) = [] := by
  have hvariables : touchesOfAll p.localVariables = [] := by
    simp only [localVariables, printoutLocals]
    (repeat' split) <;> rfl
  simp only [locals]
  split
  · rfl
  · simp [pushed, hvariables]
    rfl

theorem avoids_locals (kinds : List Touch) : Avoids kinds (gather (pushed .main) p.locals) := by
  simp [Avoids, touches_locals]

theorem touches_trimOperations :
    touchesOfAll p.trimOperations ⊆
      [.register (.address trimKey), .register (.address trimShared), .register (.address trimLimit),
       .register (.address trimFast)] := by
  simp only [trimOperations]
  split
  · cases p.config.clockTrim with
    | none => exact touches_of_all rfl
    | some t =>
      simp only [Option.map_some, Option.getD_some, ClockTrim.operations, ClockTrim.sharedWrites, ClockTrim.fastWrites]
      cases t.hirc8m <;> cases t.hirc <;> cases t.hirc96m <;> exact touches_of_all rfl
  · exact touches_of_all rfl

theorem touches_debuggerPause : touchesOfAll p.debuggerPause ⊆ [.function "MXC_Delay"] := by
  simp only [debuggerPause]
  split <;> exact touches_of_all rfl

theorem touches_companionBringUp :
    touchesOfAll p.companionBringUp ⊆
      [.function "Debug_Init", .function "MXC_ICC_Enable", .function "icache1_enable",
       .function "invalidate_icache1"] := by
  simp only [companionBringUp]
  (repeat' split) <;> exact touches_of_all rfl

theorem touches_camera :
    touchesOfAll p.camera ⊆
      [.function "enable_pcif_clock", .function "set_pcif_gpio_altf", .register (.named "MXC_PCIF->ctrl"),
       .register (.named "MXC_CAMERAIF0->ctrl")] := by
  simp only [camera, cameraRegister]
  cases p.config.camera <;> cases p.device.modernSim <;> exact touches_of_all rfl

/-! ## Runs and results -/

/-- The parts of the accelerator, of its clock and of the power monitor that the runs touch. -/
def runTouches : List Touch :=
  [.function "cnn_init", .function "cnn_load_weights", .function "cnn_verify_weights", .function "cnn_load_bias",
   .function "cnn_configure", .function "load_input", .function "cnn_start", .function "cnn_stop",
   .function "cnn_continue", .completion, .function "MXC_TMR_Delay", .condition pllNotReady, .register clockRegister,
   .register (.named "MXC_GCR->ito_ctrl")]

theorem touches_configure : touchesOfAll (gather (pushed .main) p.configure) ⊆ runTouches := by
  have hhead (note : Option String) : touchesOfAll
      ((if p.embedded then [Operation.statement "printf(\"\\n*** CNN Inference Test ***\\n\");", .blank] else []) ++
        [callProvided "cnn_init" [] note]) ⊆ runTouches := by
    split <;> exact touches_of_all rfl
  have hkernels : touchesOfAll p.loadKernels ⊆ runTouches := by
    simp only [loadKernels, measureLoading, switchToPll]
    (repeat' split) <;> exact touches_of_all rfl
  have hverify : touchesOfAll (gather (pushed .main)
      (if p.config.verifyKernels then p.fatalCheck (.provided "cnn_verify_weights") else [])) ⊆ runTouches := by
    split <;> exact touches_of_all rfl
  have hbias : touchesOfAll [p.loadBias] ⊆ runTouches := by
    simp only [loadBias]
    (repeat' split) <;> exact touches_of_all rfl
  have hcheck : touchesOfAll (gather (pushed .main) (p.fatalCheck (.provided "cnn_configure"))) ⊆ runTouches :=
    touches_of_all rfl
  have hphases : gather (pushed .main) p.configure =
      ((if p.embedded then [Operation.statement "printf(\"\\n*** CNN Inference Test ***\\n\");", .blank] else []) ++
        [callProvided "cnn_init" [] (some "Bring state machine into consistent state")]) ++ p.loadKernels ++
      gather (pushed .main) (if p.config.verifyKernels then p.fatalCheck (.provided "cnn_verify_weights") else []) ++
      [p.loadBias] ++ gather (pushed .main) (p.fatalCheck (.provided "cnn_configure")) := by
    simp [configure, pushed]
  rw [hphases]
  simp only [touchesOfAll_append (_ ++ _), List.append_subset]
  exact ⟨⟨⟨⟨hhead _, hkernels⟩, hverify⟩, hbias⟩, hcheck⟩

theorem touches_firstRun : touchesOfAll (gather (pushed .main) p.firstRun) ⊆ runTouches := by
  simp only [firstRun, stopAndContinue, measureRuns, loadAndStart]
  (repeat' split) <;> exact touches_of_all rfl

theorem touches_furtherRuns : touchesOfAll (gather (pushed .main) p.furtherRuns) ⊆ runTouches := by
  simp only [furtherRuns]
  split <;> exact touches_of_all rfl

theorem touches_leavePll : touchesOfAll p.leavePll ⊆ runTouches := by
  simp only [leavePll]
  split <;> exact touches_of_all rfl

theorem touches_retrieve :
    touchesOfAll (gather (pushed .main) p.retrieve) ⊆
      [.function "check_output", .function "fc_layer", .function "softmax_layer", .function "cnn_unload",
       .function "fc_verify"] := by
  simp only [retrieve, gather_append, touchesOfAll_append, List.append_subset]
  refine ⟨⟨⟨?_, ?_⟩, ?_⟩, ?_⟩
  · split <;> exact touches_of_all rfl
  · simp only [retrieval]
    cases p.config.retrieval <;> exact touches_of_all rfl
  · split <;> exact touches_of_all rfl
  · simp only [passReport]
    cases p.embedded <;> cases p.config.measureEnergy <;> exact touches_of_all rfl

theorem touches_endlessLoop :
    touchesOfAll p.endlessLoop ⊆ [.function "LED_On", .endlessLoop, .function "cnn_start", .completion] := by
  simp only [endlessLoop]
  split <;> exact touches_of_all rfl

end Plan

end AccelFirmware
