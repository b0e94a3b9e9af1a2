import AccelFirmware.Emission.Emitter

/-!
# Functions of an emission

What the steps of the emitter define, apart from its text: functions with the operations in them. Steps that neither open nor
close a function run through as soon as the functions they define beside the open ones are new.
-/

namespace AccelFirmware

/-- A function that steps of the emitter define. -/
structure EmittedFunction where
  sink : Sink
  signature : Signature
  body : List Operation
  result : Option String

namespace EmittedFunction

def definition (f : EmittedFunction) : Definition := ⟨f.sink, f.signature.name⟩

def named? (name : String) (functions : List EmittedFunction) : Option EmittedFunction :=
  functions.find? (·.signature.name == name)

def bodyOf (name : String) (functions : List EmittedFunction) : List Operation :=
  ((named? name functions).map body).getD []

end EmittedFunction

/-! ## Outlines -/

/-- The functions that are open, by sink, and those that have been closed, with their operations. -/
structure Outline where
  units : PerSink (Option (Signature × List Operation))
  functions : List EmittedFunction

namespace Outline

def empty : Outline := ⟨.const none, []⟩

def step (o : Outline) : EmitStep → Outline
  | .openUnit s signature => { o with units := o.units.set s (some (signature, [])) }
  | .closeUnit s result =>
      match o.units.get s with
      | none => o
      | some (signature, body) => ⟨o.units.set s none, o.functions ++ [⟨s, signature, body, result⟩]⟩
  | .function s signature body result =>
      { o with functions := o.functions ++ [⟨s, signature, body, result⟩] }
  | .push s ops =>
      { o with units := o.units.set s ((o.units.get s).map fun (signature, body) => (signature, body ++ ops)) }
  | .raw _ _ => o

def run (o : Outline) (steps : List EmitStep) : Outline :=
  steps.foldl step o

theorem run_append (o : Outline) (steps more : List EmitStep) :
    o.run (steps ++ more) = (o.run steps).run more := by
  simp [run]

end Outline

/-! ## Plain steps -/

namespace EmitStep

/-- Neither opens nor closes a function, and defines none on a busy sink. -/
def isPlain (busy : Sink → Bool) : EmitStep → Bool
  | .openUnit _ _ | .closeUnit _ _ => false
  | .function s _ _ _ => !busy s
  | .push _ _ | .raw _ _ => true

def whole : EmitStep → List EmittedFunction
  | .function s signature body result => [⟨s, signature, body, result⟩]
  | _ => []

/-- The operations that a step adds to the open function of a sink. -/
def pushed (sink : Sink) : EmitStep → List Operation
  | .push s ops => if s = sink then ops else []
  | _ => []

def references : EmitStep → List String
  | .function _ _ body _ => Operation.referencesOfAll body
  | .push _ ops => Operation.referencesOfAll ops
  | _ => []

end EmitStep

def functionNames (functions : List EmittedFunction) : List String :=
  functions.map (·.signature.name)

@[simp] theorem functionNames_append (fs gs : List EmittedFunction) :
    functionNames (fs ++ gs) = functionNames fs ++ functionNames gs := by
  simp [functionNames]

namespace EmittedFunction

variable {functions : List EmittedFunction} {f : EmittedFunction}

/-- Where names differ, a name stands for one function. -/
theorem named?_of_mem (hn : (functionNames functions).Nodup) (hf : f ∈ functions) :
    named? f.signature.name functions = some f := by
  induction functions with
  | nil => cases hf
  | cons g functions ih =>
    obtain ⟨hg, hn⟩ := List.nodup_cons.1 hn
    rcases List.mem_cons.1 hf with rfl | hf
    · simp [named?]
    · have hne : g.signature.name ≠ f.signature.name := by
        intro he
        exact hg (List.mem_map.2 ⟨f, hf, he.symm⟩)
      rw [← ih hn hf]
      simp [named?, hne]

theorem bodyOf_of_mem (hn : (functionNames functions).Nodup) (hf : f ∈ functions) :
    bodyOf f.signature.name functions = f.body := by
  rw [bodyOf, named?_of_mem hn hf]
  rfl

end EmittedFunction

namespace Outline

theorem run_plain {busy : Sink → Bool} {steps : List EmitStep} (h : ∀ s ∈ steps, s.isPlain busy = true)
    (o : Outline) :
    (o.run steps).functions = o.functions ++ steps.flatMap EmitStep.whole ∧
    ∀ t, (o.run steps).units.get t =
      (o.units.get t).map fun (signature, body) => (signature, body ++ steps.flatMap (EmitStep.pushed t)) := by
  induction steps generalizing o with
  | nil => simp [run]
  | cons s steps ih =>
    have hs := h s (by simp)
    obtain ⟨hf, hu⟩ := ih (fun s hs => h s (by simp [hs])) (o.step s)
    change ((o.step s).run steps).functions = _ ∧ ∀ t, ((o.step s).run steps).units.get t = _
    rw [hf]
    constructor
    · cases s <;> simp_all [step, EmitStep.isPlain, EmitStep.whole]
    · intro t
      rw [hu t]
      cases s with
      | openUnit _ _ => simp [EmitStep.isPlain] at hs
      | closeUnit _ _ => simp [EmitStep.isPlain] at hs
      | function _ _ _ _ => simp [step, EmitStep.pushed]
      | raw _ _ => simp [step, EmitStep.pushed]
      | push r ops =>
        simp only [step, PerSink.get_set, List.flatMap_cons, EmitStep.pushed]
        by_cases hr : t = r
        · subst hr
          cases o.units.get t <;> simp
        · simp [hr, Ne.symm hr]

end Outline

namespace Emitter

/-- What steps have done to an emitter, apart from its text. -/
structure Grown (e : Emitter) (steps : List EmitStep) (e' : Emitter) : Prop where
  units : ∀ t, (e'.streams.get t).unit = (e.streams.get t).unit
  defined : e'.defined = e.defined ++ (steps.flatMap EmitStep.whole).map EmittedFunction.definition
  referenced : e'.referenced = e.referenced ++ steps.flatMap EmitStep.references

theorem defines_eq_false_iff (e : Emitter) (name : String) :
    e.defines name = false ↔ name ∉ e.defined.map Definition.name := by
  simp [defines]

@[simp] theorem unit_raw (e : Emitter) (s t : Sink) (text : String) :
    ((e.raw s text).streams.get t).unit = (e.streams.get t).unit := by
  simp only [raw, PerSink.get_set]
  split <;> simp_all

@[simp] theorem defined_raw (e : Emitter) (s : Sink) (text : String) : (e.raw s text).defined = e.defined := rfl

@[simp] theorem referenced_raw (e : Emitter) (s : Sink) (text : String) :
    (e.raw s text).referenced = e.referenced := rfl

@[simp] theorem unit_push (e : Emitter) (s t : Sink) (ops : List Operation) :
    ((e.push s ops).streams.get t).unit = (e.streams.get t).unit :=
  unit_raw e s t _

@[simp] theorem defined_push (e : Emitter) (s : Sink) (ops : List Operation) :
    (e.push s ops).defined = e.defined := rfl

@[simp] theorem referenced_push (e : Emitter) (s : Sink) (ops : List Operation) :
    (e.push s ops).referenced = e.referenced ++ Operation.referencesOfAll ops := rfl

theorem openUnit_ok {e : Emitter} {s : Sink} (signature : Signature) (hu : (e.streams.get s).unit = none)
    (hn : e.defines signature.name = false) :
    ∃ e', e.openUnit s signature = .ok e' ∧ e'.defined = e.defined ∧ e'.referenced = e.referenced ∧
      ∀ t, (e'.streams.get t).unit = if t = s then some signature else (e.streams.get t).unit := by
  refine ⟨{ e with streams := e.streams.set s ⟨(e.streams.get s).text ++ signature.render ++ "\n\x7b\n",
    some signature⟩ }, by simp [openUnit, hu, hn], rfl, rfl, ?_⟩
  intro t
  simp only [PerSink.get_set]
  split <;> rfl

theorem closeUnit_ok {e : Emitter} {s : Sink} {signature : Signature} (result : Option String)
    (hu : (e.streams.get s).unit = some signature) :
    ∃ e', e.closeUnit s result = .ok e' ∧ e'.defined = e.defined ++ [⟨s, signature.name⟩] ∧
      e'.referenced = e.referenced ∧
      ∀ t, (e'.streams.get t).unit = if t = s then none else (e.streams.get t).unit := by
  refine ⟨{ e with
    streams := e.streams.set s ⟨(e.streams.get s).text ++ closing result, none⟩
    defined := e.defined ++ [⟨s, signature.name⟩] }, by simp [closeUnit, hu], rfl, rfl, ?_⟩
  intro t
  simp only [PerSink.get_set]
  split <;> rfl

theorem step_plain {e : Emitter} {s : EmitStep} (h : s.isPlain e.isOpen = true)
    (hn : ∀ f ∈ s.whole, e.defines f.signature.name = false) : ∃ e', e.step s = .ok e' ∧ e.Grown [s] e' := by
  cases s with
  | openUnit _ _ => simp [EmitStep.isPlain] at h
  | closeUnit _ _ => simp [EmitStep.isPlain] at h
  | push s ops => exact ⟨_, rfl, ⟨fun t => unit_push e s t ops, by simp [EmitStep.whole], by simp [EmitStep.references]⟩⟩
  | raw s text => exact ⟨_, rfl, ⟨fun t => unit_raw e s t text, by simp [EmitStep.whole], by simp [EmitStep.references]⟩⟩
  | function s signature body result =>
    have hu : (e.streams.get s).unit = none := by simpa [EmitStep.isPlain, isOpen] using h
    obtain ⟨e₁, h₁, hd₁, hr₁, hu₁⟩ := openUnit_ok signature hu (hn _ (List.mem_singleton.2 rfl))
    have hopen : ((e₁.push s body).streams.get s).unit = some signature := by simp [hu₁]
    obtain ⟨e₂, h₂, hd₂, hr₂, hu₂⟩ := closeUnit_ok result hopen
    refine ⟨e₂, by simp only [step, h₁]; exact h₂, ⟨?_, ?_, ?_⟩⟩
    · intro t
      rw [hu₂ t, unit_push, hu₁ t]
      by_cases ht : t = s
      · simp [ht, hu]
      · simp [ht]
    · simp [hd₂, hd₁, EmitStep.whole, EmittedFunction.definition]
    · simp [hr₂, hr₁, EmitStep.references]

theorem Grown.isOpen_eq {e e' : Emitter} {steps : List EmitStep} (h : e.Grown steps e') : e'.isOpen = e.isOpen := by
  funext t
  simp [isOpen, h.units t]

theorem Grown.trans {e e₁ e₂ : Emitter} {steps more : List EmitStep} (h : e.Grown steps e₁)
    (h' : e₁.Grown more e₂) : e.Grown (steps ++ more) e₂ where
  units t := (h'.units t).trans (h.units t)
  defined := by simp [h'.defined, h.defined]
  referenced := by simp [h'.referenced, h.referenced]

/-- Plain steps run through when their functions are new and bear different names. -/
theorem run_plain {e : Emitter} {steps : List EmitStep} (h : ∀ s ∈ steps, s.isPlain e.isOpen = true)
    (hn : (e.defined.map Definition.name ++ functionNames (steps.flatMap EmitStep.whole)).Nodup) :
    ∃ e', e.run steps = .ok e' ∧ e.Grown steps e' := by
  induction steps generalizing e with
  | nil => exact ⟨e, rfl, ⟨fun _ => rfl, by simp, by simp⟩⟩
  | cons s steps ih =>
    have hnew : ∀ f ∈ s.whole, e.defines f.signature.name = false := by
      intro f hf
      rw [defines_eq_false_iff]
      intro hd
      refine (List.nodup_append.1 hn).2.2 _ hd _ ?_ rfl
      exact List.mem_map.2 ⟨f, List.mem_flatMap.2 ⟨s, by simp, hf⟩, rfl⟩
    obtain ⟨e₁, h₁, hg₁⟩ := step_plain (h s (by simp)) hnew
    have hn₁ : (e₁.defined.map Definition.name ++ functionNames (steps.flatMap EmitStep.whole)).Nodup := by
      simpa [hg₁.defined, functionNames, EmittedFunction.definition, Function.comp_def] using hn
    have hplain : ∀ r ∈ steps, r.isPlain e₁.isOpen = true := by
      rw [hg₁.isOpen_eq]
      exact fun r hr => h r (by simp [hr])
    obtain ⟨e₂, h₂, hg₂⟩ := ih hplain hn₁
    refine ⟨e₂, ?_, hg₁.trans hg₂⟩
    change (e.step s >>= fun e => e.run steps) = _
    rw [h₁]
    exact h₂

/-! ## Closing -/

theorem leastName?_eq_none_iff {names : List String} : leastName? names = none ↔ names = [] := by
  cases names with
  | nil => simp [leastName?]
  | cons name names =>
    simp only [leastName?]
    split <;> simp

/-- An emitter with nothing open and nothing unresolved can be finished. -/
theorem finish_ok {e : Emitter} (hu : ∀ s, (e.streams.get s).unit = none)
    (hr : ∀ name ∈ e.referenced, name ∈ e.defined.map Definition.name) :
    ∃ t, e.finish = .ok t ∧ t.functions = e.defined := by
  have hopen : e.leftOpen? = none := by simp [leftOpen?, Sink.all, hu]
  have hnames : e.unresolved? = none := by
    rw [unresolved?, leastName?_eq_none_iff, List.filter_eq_nil_iff]
    intro name hm hd
    rw [Bool.not_eq_true', defines_eq_false_iff] at hd
    exact hd (hr name hm)
  exact ⟨_, by rw [finish, hopen, hnames], rfl⟩

end Emitter

/-! ## One function around plain steps -/

section

variable {opening inside : List EmitStep} {s : Sink}

theorem Outline.run_around (signature : Signature) (result : Option String)
    (ho : ∀ r ∈ opening, r.isPlain (fun _ => false) = true) (hi : ∀ r ∈ inside, r.isPlain (· = s) = true) :
    (Outline.empty.run
        (opening ++ [EmitStep.openUnit s signature] ++ inside ++ [EmitStep.closeUnit s result])).functions =
      opening.flatMap EmitStep.whole ++ inside.flatMap EmitStep.whole ++
        [⟨s, signature, inside.flatMap (EmitStep.pushed s), result⟩] := by
  obtain ⟨hf, _⟩ := run_plain ho .empty
  let o := (empty.run opening).step (.openUnit s signature)
  obtain ⟨hf', hu⟩ := run_plain hi o
  have hopen : (o.run inside).units.get s = some (signature, inside.flatMap (EmitStep.pushed s)) := by
    rw [hu s]
    simp [o, step]
  have hfunctions : o.functions = opening.flatMap EmitStep.whole := by
    simpa [o, step, empty] using hf
  rw [run_append, run_append, run_append]
  change ((o.run inside).step (.closeUnit s result)).functions = _
  simp [step, hopen, hf', hfunctions]

/-- Such a program runs through when all function names differ and every reference has its function. -/
theorem Emitter.run_around (signature : Signature) (result : Option String)
    (ho : ∀ r ∈ opening, r.isPlain (fun _ => false) = true) (hi : ∀ r ∈ inside, r.isPlain (· = s) = true)
    {ds : List Definition}
    (hd : (opening.flatMap EmitStep.whole ++ inside.flatMap EmitStep.whole).map EmittedFunction.definition ++
      [⟨s, signature.name⟩] = ds) (hn : (ds.map Definition.name).Nodup)
    (hr : ∀ name ∈ opening.flatMap EmitStep.references ++ inside.flatMap EmitStep.references,
      name ∈ ds.map Definition.name) :
    ∃ e t,
      Emitter.empty.run
        (opening ++ [EmitStep.openUnit s signature] ++ inside ++ [EmitStep.closeUnit s result]) = .ok e ∧
      e.finish = .ok t ∧ t.functions = ds := by
  have hempty : empty.isOpen = fun _ => false := by
    funext t
    simp [isOpen, empty]
  have hnames : (functionNames (opening.flatMap EmitStep.whole) ++
      (functionNames (inside.flatMap EmitStep.whole) ++ [signature.name])).Nodup := by
    simpa [← hd, functionNames, EmittedFunction.definition, Function.comp_def] using hn
  obtain ⟨hopening, hrest, hnew⟩ := List.nodup_append.1 hnames
  -- `opening` leaves everything closed, so the head of the function is accepted.
  obtain ⟨e₁, h₁, hg₁⟩ := run_plain (e := empty) (by rwa [hempty]) (by simpa [empty] using hopening)
  have hd₁ : e₁.defined.map Definition.name = functionNames (opening.flatMap EmitStep.whole) := by
    simp [hg₁.defined, empty, functionNames, EmittedFunction.definition, Function.comp_def]
  obtain ⟨e₂, h₂, hd₂, hr₂, hu₂⟩ := openUnit_ok signature (s := s) (e := e₁)
    (by simp [hg₁.units, empty])
    (by
      rw [defines_eq_false_iff, hd₁]
      exact fun hm => hnew _ hm _ (by simp) rfl)
  -- Only `s` is busy from here on.
  have hbusy : e₂.isOpen = (· = s) := by
    funext t
    simp only [isOpen, hu₂ t, hg₁.units t]
    by_cases ht : t = s <;> simp [ht, empty]
  obtain ⟨e₃, h₃, hg₃⟩ := run_plain (e := e₂) (by rwa [hbusy])
    (by
      rw [hd₂, hd₁]
      refine hnames.sublist (List.Sublist.append_left ?_ _)
      simp)
  obtain ⟨e₄, h₄, hd₄, hr₄, hu₄⟩ := closeUnit_ok result
    (show (e₃.streams.get s).unit = some signature by simp [hg₃.units, hu₂])
  have hdefined : e₄.defined = ds := by
    rw [hd₄, hg₃.defined, hd₂, hg₁.defined, ← hd]
    simp [empty]
  have hreferenced : e₄.referenced = opening.flatMap EmitStep.references ++ inside.flatMap EmitStep.references := by
    rw [hr₄, hg₃.referenced, hr₂, hg₁.referenced]
    simp [empty]
  obtain ⟨t, ht, hft⟩ := finish_ok (e := e₄)
    (fun r => by
      rw [hu₄, hg₃.units, hu₂, hg₁.units]
      by_cases hr : r = s <;> simp [hr, empty])
    (by rwa [hreferenced, hdefined])
  refine ⟨e₄, t, ?_, ht, hft.trans hdefined⟩
  simp only [run, step, List.foldlM_append, List.foldlM_cons, List.foldlM_nil] at h₁ h₃ ⊢
  simp [h₁, h₂, h₃, h₄, bind, Except.bind, pure, Except.pure]

end

end AccelFirmware
