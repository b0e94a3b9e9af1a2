import AccelFirmware.Proofs.Emission
import AccelFirmware.Proofs.References
import AccelFirmware.Synthesis

/-!
# Functions of a program

The functions that the actions of a plan define, `main` among them, and why their run succeeds.
-/

namespace AccelFirmware

/-! ## Steps among actions -/

namespace Action

def step? : Action → Option EmitStep
  | .emit s => some s
  | .event _ | .refuse _ _ => none

def steps (actions : List Action) : List EmitStep := actions.filterMap step?

/-- Actions that are no steps: events, and refusals. -/
def others (actions : List Action) : List Action := actions.filter fun a => a.step?.isNone

@[simp] theorem steps_nil : steps [] = [] := rfl

@[simp] theorem steps_append (as bs : List Action) : steps (as ++ bs) = steps as ++ steps bs :=
  List.filterMap_append

@[simp] theorem steps_emit (s : EmitStep) (as : List Action) : steps (.emit s :: as) = s :: steps as := rfl

@[simp] theorem steps_event (e : LifecycleEvent) (as : List Action) : steps (.event e :: as) = steps as := rfl

@[simp] theorem steps_refuse (feature : DeviceFeature) (device : String) (as : List Action) :
    steps (.refuse feature device :: as) = steps as := rfl

/-- What the steps among some actions contribute to a list. -/
def gather {α : Type} (f : EmitStep → List α) (actions : List Action) : List α :=
  (steps actions).flatMap f

section

variable {α : Type} (f : EmitStep → List α) (as bs : List Action)

@[simp] theorem gather_nil : gather f [] = [] := rfl

@[simp] theorem gather_append : gather f (as ++ bs) = gather f as ++ gather f bs := by
  simp [gather]

@[simp] theorem gather_emit (s : EmitStep) : gather f (.emit s :: as) = f s ++ gather f as := rfl

@[simp] theorem gather_event (e : LifecycleEvent) : gather f (.event e :: as) = gather f as := rfl

@[simp] theorem gather_refuse (feature : DeviceFeature) (device : String) :
    gather f (.refuse feature device :: as) = gather f as := rfl

@[simp] theorem gather_push (s : Sink) (ops : List Operation) :
    gather f (.push s ops :: as) = f (.push s ops) ++ gather f as := rfl

@[simp] theorem gather_function (s : Sink) (signature : Signature) (body : List Operation) (result : Option String) :
    gather f (.function s signature body result :: as) = f (.function s signature body result) ++ gather f as := rfl

@[simp] theorem gather_advance (stage : Stage) : gather f (.advance stage :: as) = gather f as := rfl

end

@[simp] theorem others_nil : others [] = [] := rfl

@[simp] theorem others_append (as bs : List Action) : others (as ++ bs) = others as ++ others bs :=
  List.filter_append as bs

@[simp] theorem others_emit (s : EmitStep) (as : List Action) : others (.emit s :: as) = others as := rfl

@[simp] theorem others_event (e : LifecycleEvent) (as : List Action) :
    others (.event e :: as) = .event e :: others as := rfl

@[simp] theorem others_refuse (feature : DeviceFeature) (device : String) (as : List Action) :
    others (.refuse feature device :: as) = .refuse feature device :: others as := rfl

@[simp] theorem others_push (s : Sink) (ops : List Operation) (as : List Action) :
    others (.push s ops :: as) = others as := rfl

@[simp] theorem others_function (s : Sink) (signature : Signature) (body : List Operation) (result : Option String)
    (as : List Action) : others (.function s signature body result :: as) = others as := rfl

@[simp] theorem others_advance (stage : Stage) (as : List Action) :
    others (.advance stage :: as) = .event (.advance stage) :: others as := rfl

/-- The definitions that a step makes on its own, `none` for one end of a function. -/
def marks : EmitStep → List (Option Definition)
  | .openUnit _ _ | .closeUnit _ _ => [none]
  | .function s signature _ _ => [some ⟨s, signature.name⟩]
  | .push _ _ | .raw _ _ => []

/-- Actions that define some functions in order, each of them as a whole. -/
def Define (actions : List Action) (definitions : List Definition) : Prop :=
  gather marks actions = definitions.map some

theorem Define.append {as bs : List Action} {ds es : List Definition} (ha : Define as ds) (hb : Define bs es) :
    Define (as ++ bs) (ds ++ es) := by
  rw [Define, gather_append, ha, hb, List.map_append]

theorem Define.isPlain {as : List Action} {ds : List Definition} (h : Define as ds) {busy : Sink → Bool}
    (hb : ∀ d ∈ ds, busy d.sink = false) : ∀ s ∈ steps as, s.isPlain busy = true := by
  intro s hs
  have hm (m : Option Definition) (hm : m ∈ marks s) : ∃ d ∈ ds, m = some d := by
    have := List.mem_flatMap.2 ⟨s, hs, hm⟩
    rw [← gather, h] at this
    obtain ⟨d, hd, rfl⟩ := List.mem_map.1 this
    exact ⟨d, hd, rfl⟩
  cases s with
  | openUnit _ _ => obtain ⟨_, _, he⟩ := hm none (by simp [marks]); cases he
  | closeUnit _ _ => obtain ⟨_, _, he⟩ := hm none (by simp [marks]); cases he
  | function t signature _ _ =>
    obtain ⟨d, hd, he⟩ := hm (some ⟨t, signature.name⟩) (by simp [marks])
    cases he
    simpa [EmitStep.isPlain] using hb _ hd
  | push _ _ => rfl
  | raw _ _ => rfl

theorem Define.whole {as : List Action} {ds : List Definition} (h : Define as ds) :
    (gather EmitStep.whole as).map EmittedFunction.definition = ds := by
  rw [Define, gather] at h
  rw [gather]
  generalize steps as = ss at h ⊢
  induction ss generalizing ds with
  | nil =>
    cases ds with
    | nil => rfl
    | cons _ _ => simp at h
  | cons s ss ih =>
    cases s with
    | openUnit _ _ => cases ds <;> simp [marks] at h
    | closeUnit _ _ => cases ds <;> simp [marks] at h
    | push _ _ => exact ih h
    | raw _ _ => exact ih h
    | function t signature body result =>
      cases ds with
      | nil => simp [marks] at h
      | cons d ds =>
        simp only [List.flatMap_cons, marks, List.singleton_append, List.map_cons, List.cons.injEq,
          Option.some.injEq] at h
        obtain ⟨rfl, h⟩ := h
        simp [EmitStep.whole, ih h, EmittedFunction.definition]

end Action

/-- Takes the events in order and stops at the first refusal. -/
def Lifecycle.run (l : Lifecycle) (events : List LifecycleEvent) : Except TransitionError Lifecycle :=
  events.foldlM Lifecycle.step l

open AccelFirmware.Action in
/-- Emitter and lifecycle run side by side, where the device is not refused. -/
theorem Progress.run_ok {g : Progress} {actions : List Action} {events : List LifecycleEvent} {e : Emitter} {l : Lifecycle}
    (he : g.emitter.run (steps actions) = .ok e) (hevents : others actions = events.map .event)
    (hl : g.lifecycle.run events = .ok l) : actions.foldlM Progress.step g = .ok ⟨e, l⟩ := by
  induction actions generalizing g events with
  | nil =>
    obtain rfl := List.map_eq_nil_iff.1 hevents.symm
    cases he
    cases hl
    rfl
  | cons a actions ih =>
    rw [List.foldlM_cons]
    cases a with
    | emit s =>
      rw [steps_emit, Emitter.run, List.foldlM_cons] at he
      cases hs : g.emitter.step s with
      | error _ => rw [hs] at he; cases he
      | ok e₁ =>
        rw [hs] at he
        simp only [step, hs]
        exact ih (g := ⟨e₁, g.lifecycle⟩) he hevents hl
    | event ev =>
      obtain ⟨_, rest, rfl, hev, hrest⟩ := List.map_eq_cons_iff.1 hevents.symm
      cases hev
      rw [Lifecycle.run, List.foldlM_cons] at hl
      cases hs : g.lifecycle.step ev with
      | error _ => rw [hs] at hl; cases hl
      | ok l₁ =>
        rw [hs] at hl
        simp only [step, hs]
        exact ih (g := ⟨g.emitter, l₁⟩) he hrest.symm hl
    | refuse feature device =>
      obtain ⟨_, _, -, hev, -⟩ := List.map_eq_cons_iff.1 hevents.symm
      cases hev

theorem Program.ofActions_ok {actions : List Action} {events : List LifecycleEvent} {e : Emitter} {l : Lifecycle}
    {t : EmittedText} (he : Emitter.empty.run (Action.steps actions) = .ok e)
    (hevents : Action.others actions = events.map .event) (hl : Lifecycle.start.run events = .ok l)
    (ht : e.finish = .ok t) : Program.ofActions actions = .ok ⟨t, l⟩ := by
  have hrun := Progress.run_ok (g := .start) he hevents hl
  rw [ofActions, hrun]
  simp [bind, Except.bind, ht, pure, Except.pure]

/-- Functions that only the split layout calls. They switch the accelerator on and off but do not drive it. -/
def apiFunctions : List String := ["cnn_enable", "cnn_disable", "cnn_boost_enable", "cnn_boost_disable"]

namespace Plan

variable (p : Plan)

/-! ## Around and inside `main` -/

def opening : List Action := p.declarations ++ p.fileScopeFunctions

/-- The actions between the head of `main` and its end. -/
def inside : List Action :=
  p.locals ++ p.coreBringUp ++ [Action.push .main p.camera] ++ p.acceleratorPhases ++ [Action.push .main p.epilogue]

theorem actions_eq :
    p.actions = p.opening ++ [Action.emit (.openUnit .main (.status "main"))] ++ p.inside ++
      [Action.emit (.closeUnit .main (some "0"))] := by
  simp [actions, opening, inside]

theorem steps_coreBringUp : Action.steps p.coreBringUp = [.push .main p.coreOperations] := by
  simp only [coreBringUp, coreOperations]
  cases p.config.topology with
  | singleCore => rfl
  | armHost => cases p.device.companion <;> rfl
  | companion => rfl

@[simp] theorem gather_coreBringUp {α : Type} (f : EmitStep → List α) :
    Action.gather f p.coreBringUp = f (.push .main p.coreOperations) := by
  simp [Action.gather, steps_coreBringUp]

/-- What `main` contributes is bounded by what its phases do. -/
theorem gather_inside_subset {α : Type} {f : EmitStep → List α} {allowed : List α}
    (hmain : ∀ ops, f (.push .main ops) ⊆ allowed) (hlocals : Action.gather f p.locals ⊆ allowed)
    (hbringUp : Action.gather f p.acceleratorBringUp ⊆ allowed) (hconfigure : Action.gather f p.configure ⊆ allowed)
    (hexecute : Action.gather f p.execute ⊆ allowed) (hretrieve : Action.gather f p.retrieve ⊆ allowed)
    (hending : Action.gather f p.ending ⊆ allowed) : Action.gather f p.inside ⊆ allowed := by
  have hphases : Action.gather f p.acceleratorPhases ⊆ allowed := by
    simp only [acceleratorPhases]
    split
    · simp only [Action.gather_append, List.append_subset]
      exact ⟨⟨⟨⟨hbringUp, hconfigure⟩, hexecute⟩, hretrieve⟩, hending⟩
    · simp
  simp only [inside, Action.gather_append, gather_coreBringUp, Action.gather_push, Action.gather_nil, List.append_nil,
    List.append_subset]
  exact ⟨⟨⟨⟨hlocals, hmain _⟩, hmain _⟩, hphases⟩, hmain _⟩

/-- The functions of the program, in order of their ends. -/
def functions : List EmittedFunction := (Outline.empty.run (Action.steps p.actions)).functions

/-! ## Definitions -/

def completionName : String :=
  match p.waitStrategy with
  | .interrupt => p.handlerSignature.name
  | .poll => "cnn_wait"

def bringsHelper : Bool := p.config.topology = .armHost && p.config.sleep && !p.embedded

def failDefinitions : List Definition := if p.owns && p.embedded then [⟨.main, "fail"⟩] else []

def libraryDefinitions : List Definition :=
  if p.owns then
    ⟨p.routeSink, p.completionName⟩ ::
      if p.config.master.isSome then [⟨p.routeSink, "cnn_continue"⟩, ⟨p.routeSink, "cnn_stop"⟩] else []
  else []

def unitDefinitions : List Definition :=
  if p.owns then p.units.map fun u => ⟨.main, u.signature.name⟩ else []

def hostDefinitions : List Definition :=
  (if p.hostsWakeHandler then [⟨.main, "WakeISR"⟩] else []) ++
  if p.bringsHelper then [⟨.main, "_MXC_LP_ClearWakeStatus"⟩] else []

def apiDefinitions : List Definition :=
  if p.owns && p.config.isSplit then
    (if p.sdkRuntime then [⟨.api, "cnn_enable"⟩, ⟨.api, "cnn_boost_enable"⟩] else []) ++
      [⟨.api, "cnn_boost_disable"⟩, ⟨.api, "cnn_disable"⟩]
  else []

/-- The functions of the program in order, with their sinks. -/
def definitions : List Definition :=
  p.failDefinitions ++ p.libraryDefinitions ++ p.unitDefinitions ++ p.hostDefinitions ++ p.apiDefinitions ++
    [⟨.main, "main"⟩]

open AccelFirmware.Action

theorem define_applicationState (sink : Sink) :
    Define (p.applicationState sink) (if p.embedded then [⟨sink, "fail"⟩] else []) := by
  simp only [applicationState]
  (repeat' split) <;> rfl

theorem define_library (sink : Sink) :
    Define (p.completionFunction sink :: p.groupControl sink)
      (⟨sink, p.completionName⟩ ::
        if p.config.master.isSome then [⟨sink, "cnn_continue"⟩, ⟨sink, "cnn_stop"⟩] else []) := by
  have hcompletion : Define [p.completionFunction sink] [⟨sink, p.completionName⟩] := by
    simp only [completionFunction, completionName]
    cases p.waitStrategy <;> rfl
  have hcontrol : Define (p.groupControl sink)
      (if p.config.master.isSome then [⟨sink, "cnn_continue"⟩, ⟨sink, "cnn_stop"⟩] else []) := by
    simp only [groupControl]
    cases p.config.master <;> rfl
  exact hcompletion.append hcontrol

theorem define_sourceHead (sink : Sink) (part : Part) :
    Define (p.sourceHead sink part)
      (if p.owns then
        (if part.isApplication && p.embedded then [⟨sink, "fail"⟩] else []) ++
        if part.isLibrary then
          ⟨sink, p.completionName⟩ ::
            if p.config.master.isSome then [⟨sink, "cnn_continue"⟩, ⟨sink, "cnn_stop"⟩] else []
        else []
      else []) := by
  have hcons (ops : List Operation) (as : List Action) (ds : List Definition) :
      Define (.push sink ops :: as) ds ↔ Define as ds := Iff.rfl
  rw [sourceHead, hcons]
  cases p.owns with
  | false => rfl
  | true =>
    cases part with
    | whole => simpa [Part.isApplication, Part.isLibrary] using (p.define_applicationState sink).append (p.define_library sink)
    | application => simpa [Part.isApplication, Part.isLibrary] using p.define_applicationState sink
    | library => simpa [Part.isApplication, Part.isLibrary] using p.define_library sink

theorem define_declarations : Define p.declarations (p.failDefinitions ++ p.libraryDefinitions) := by
  simp only [failDefinitions, libraryDefinitions]
  cases hl : p.config.layout with
  | combined =>
    have hroute : p.routeSink = .main := by simp [routeSink, Configuration.isSplit, hl]
    have hhead := p.define_sourceHead .main .whole
    rw [declarations, hl, hroute]
    cases ho : p.owns <;> simpa [ho, Part.isApplication, Part.isLibrary] using hhead
  | splitApi =>
    have hroute : p.routeSink = .api := by simp [routeSink, Configuration.isSplit, hl]
    have hheads := (p.define_sourceHead .main .application).append (p.define_sourceHead .api .library)
    rw [declarations, hl, hroute]
    cases ho : p.owns <;> simpa [ho, Part.isApplication, Part.isLibrary] using hheads

theorem gather_flatMap {α β : Type} (f : EmitStep → List α) (g : β → List Action) (xs : List β) :
    gather f (xs.flatMap g) = xs.flatMap fun x => gather f (g x) := by
  induction xs with
  | nil => rfl
  | cons x xs ih => simp [ih]

/-- Literals aside, a unit is its declarations and its function. -/
theorem gather_unitActions {α : Type} (f : EmitStep → List α) {u : CodeUnit}
    (hraw : ∀ literal ∈ u.literals, ∀ text, f (.raw literal.1 text) = []) :
    gather f (unitActions u) = f (.push .main u.declarations) ++ f (.function .main u.signature u.body u.result) := by
  rw [unitActions, gather_append, gather_flatMap, List.flatMap_eq_nil_iff.2 ?_]
  · simp
  · rintro ⟨sink, text⟩ hm
    simp [hraw _ hm]

theorem define_unitActions (u : CodeUnit) : Define (unitActions u) [⟨.main, u.signature.name⟩] :=
  gather_unitActions marks fun _ _ _ => rfl

theorem define_fileScopeFunctions :
    Define p.fileScopeFunctions (p.unitDefinitions ++ p.hostDefinitions) := by
  have hunits (us : List CodeUnit) :
      Define (us.flatMap unitActions) (us.map fun u => ⟨.main, u.signature.name⟩) := by
    induction us with
    | nil => rfl
    | cons u us ih => exact (define_unitActions u).append ih
  have hbuffer : Define (if p.config.retrieval = .unload then
      [.push .main [outputBuffer p.config.outputWidth, .blank]] else []) [] := by
    split <;> rfl
  have hwake : Define (if p.hostsWakeHandler then [wakeHandler] else [])
      (if p.hostsWakeHandler then [⟨.main, "WakeISR"⟩] else []) := by
    split <;> rfl
  have hhelper : Define (if p.bringsHelper then [wakeStatusHelper] else [])
      (if p.bringsHelper then [⟨.main, "_MXC_LP_ClearWakeStatus"⟩] else []) := by
    split <;> rfl
  have howner : Define (if p.owns then p.units.flatMap unitActions ++
      (if p.config.retrieval = .unload then [Action.push .main [outputBuffer p.config.outputWidth, .blank]] else [])
      else []) p.unitDefinitions := by
    simp only [unitDefinitions]
    cases p.owns with
    | false => rfl
    | true => simpa using (hunits p.units).append hbuffer
  rw [hostDefinitions, ← List.append_assoc]
  exact (howner.append hwake).append hhelper

theorem define_opening :
    Define p.opening (p.failDefinitions ++ p.libraryDefinitions ++ (p.unitDefinitions ++ p.hostDefinitions)) :=
  p.define_declarations.append p.define_fileScopeFunctions

theorem define_acceleratorBringUp :
    Define p.acceleratorBringUp
      (if p.sdkRuntime && p.config.isSplit then [⟨.api, "cnn_enable"⟩, ⟨.api, "cnn_boost_enable"⟩] else []) := by
  have hboost : Define p.boostOn (if p.config.isSplit then [⟨.api, "cnn_boost_enable"⟩] else []) := by
    simp only [boostOn]
    cases p.config.isSplit <;> cases p.config.boost <;> rfl
  simp only [acceleratorBringUp]
  cases p.sdkRuntime with
  | false => rfl
  | true =>
    have hbase : Define (if p.config.measureEnergy then [.push .main p.measureBasePower] else []) [] := by
      split <;> rfl
    have henable : Define (if p.config.isSplit then
        [.push .main p.enableCall, .function .api enableSignature p.enableBody (some "CNN_OK")]
        else [.push .main p.enableBody]) (if p.config.isSplit then [⟨.api, "cnn_enable"⟩] else []) := by
      split <;> rfl
    have hblank : Define [.push .main [.blank]] [] := rfl
    have hall := ((hbase.append henable).append hboost).append hblank
    cases hs : p.config.isSplit <;> simpa [hs] using hall

theorem define_execute : Define p.execute (if p.config.isSplit then [⟨.api, "cnn_boost_disable"⟩] else []) := by
  have hfirst : Define p.firstRun [] := by
    simp only [firstRun]
    split <;> rfl
  have hfurther : Define p.furtherRuns [] := by
    simp only [furtherRuns]
    split <;> rfl
  have hboost : Define p.boostOff (if p.config.isSplit then [⟨.api, "cnn_boost_disable"⟩] else []) := by
    simp only [boostOff]
    cases p.config.isSplit <;> cases p.config.forever <;> cases p.config.boost <;> rfl
  have hcomplete : Define [.advance .complete, .push .main p.leavePll] [] := rfl
  exact ((hfirst.append hfurther).append hcomplete).append hboost

theorem define_ending : Define p.ending (if p.config.isSplit then [⟨.api, "cnn_disable"⟩] else []) := by
  simp only [ending, acceleratorShutdown]
  cases p.config.forever <;> cases p.config.isSplit <;> cases p.printsClasses <;> rfl

theorem define_acceleratorPhases : Define p.acceleratorPhases p.apiDefinitions := by
  have hconfigure : Define p.configure [] := by
    simp only [configure]
    (repeat' split) <;> rfl
  have hretrieve : Define p.retrieve [] := by
    simp only [retrieve]
    (repeat' split) <;> rfl
  simp only [acceleratorPhases, apiDefinitions]
  cases p.owns with
  | false => rfl
  | true =>
    have hall := (((p.define_acceleratorBringUp.append hconfigure).append p.define_execute).append
      hretrieve).append p.define_ending
    cases hr : p.sdkRuntime <;> cases hs : p.config.isSplit <;> simpa [hr, hs] using hall

theorem define_inside : Define p.inside p.apiDefinitions := by
  have hlocals : Define p.locals [] := by
    simp only [locals]
    split <;> rfl
  have hcore : Define p.coreBringUp [] := by simp [Define, marks]
  have hcamera : Define [.push .main p.camera] [] := rfl
  have hepilogue : Define [.push .main p.epilogue] [] := rfl
  simpa [inside] using (((hlocals.append hcore).append hcamera).append p.define_acceleratorPhases).append hepilogue

end Plan

end AccelFirmware
