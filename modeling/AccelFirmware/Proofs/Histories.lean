import AccelFirmware.Proofs.Pieces
import Mathlib.Data.List.Induction

/-!
# Histories of an emitter

What has happened to an emitter that is offered steps of which it refuses some. The history is the list of the steps it took, a
function as a whole being its opening, its body and its closing. All that an emitter holds apart from its texts can be read off the
history: what is open, what has been closed, and what its operations refer to.
-/

namespace AccelFirmware

namespace Emitter

/-! ## Refusals -/

/-- A refused step leaves the emitter as it is. -/
def attempt (e : Emitter) (s : EmitStep) : Emitter :=
  match e.step s with
  | .ok e' => e'
  | .error _ => e

/-- Offers the steps in order. -/
def attempts (e : Emitter) (steps : List EmitStep) : Emitter := steps.foldl attempt e

/-- The steps that are not refused. -/
def accepted (e : Emitter) : List EmitStep → List EmitStep
  | [] => []
  | s :: steps =>
      match e.step s with
      | .ok e' => s :: e'.accepted steps
      | .error _ => e.accepted steps

variable {e e' : Emitter}

@[simp] theorem run_nil (e : Emitter) : e.run [] = .ok e := rfl

theorem run_cons {s : EmitStep} {steps : List EmitStep} (h : e.step s = .ok e') : e.run (s :: steps) = e'.run steps := by
  rw [run, List.foldlM_cons, h]
  rfl

theorem run_append_ok {steps more : List EmitStep} (h : e.run steps = .ok e') : e.run (steps ++ more) = e'.run more := by
  simp only [run] at h ⊢
  rw [List.foldlM_append, h]
  rfl

theorem run_cons_eq_ok {s : EmitStep} {steps : List EmitStep} (h : e.run (s :: steps) = .ok e') :
    ∃ next, e.step s = .ok next ∧ next.run steps = .ok e' := by
  cases hs : e.step s with
  | ok next => exact ⟨next, rfl, by rw [← run_cons hs, h]⟩
  | error _ =>
    rw [run, List.foldlM_cons, hs] at h
    cases h

/-- A run that gets through gets through the first part of its steps. -/
theorem run_append_eq_ok {steps more : List EmitStep} (h : e.run (steps ++ more) = .ok e') :
    ∃ between, e.run steps = .ok between ∧ between.run more = .ok e' := by
  cases hs : e.run steps with
  | ok between => exact ⟨between, rfl, by rw [← run_append_ok hs, h]⟩
  | error _ =>
    simp only [run] at h hs
    rw [List.foldlM_append, hs] at h
    cases h

theorem step_of_run_singleton {s : EmitStep} (h : e.run [s] = .ok e') : e.step s = .ok e' := by
  obtain ⟨next, hs, hend⟩ := run_cons_eq_ok h
  cases hend
  exact hs

/-- Refused steps aside, nothing is refused. -/
theorem run_accepted (e : Emitter) (steps : List EmitStep) : e.run (e.accepted steps) = .ok (e.attempts steps) := by
  induction steps generalizing e with
  | nil => rfl
  | cons s steps ih =>
    rw [attempts, List.foldl_cons, attempt, accepted]
    cases hs : e.step s with
    | ok next => exact (run_cons hs).trans (ih next)
    | error _ => exact ih e

end Emitter

/-! ## Steps one by one -/

namespace EmitStep

def sink : EmitStep → Sink
  | .openUnit s _ | .closeUnit s _ | .function s _ _ _ | .push s _ | .raw s _ => s

/-- A function as a whole, step by step. -/
def parts : EmitStep → List EmitStep
  | .function s signature body result => [.openUnit s signature, .push s body, .closeUnit s result]
  | step => [step]

/-- Whether a step is one of its own, and not a function as a whole. -/
def isSingle : EmitStep → Bool
  | .function _ _ _ _ => false
  | _ => true

/-- Whether a step opens or closes a function on a sink. -/
def brackets (sink : Sink) : EmitStep → Bool
  | .openUnit s _ | .closeUnit s _ | .function s _ _ _ => s = sink
  | .push _ _ | .raw _ _ => false

theorem isSingle_parts {step part : EmitStep} (h : part ∈ step.parts) : part.isSingle = true := by
  cases step with
  | function s signature body result =>
    simp only [parts, List.mem_cons, List.not_mem_nil, or_false] at h
    rcases h with rfl | rfl | rfl <;> rfl
  | openUnit _ _ | closeUnit _ _ | push _ _ | raw _ _ =>
    obtain rfl := List.mem_singleton.1 h
    rfl

end EmitStep

namespace Emitter

/-- The steps that an emitter has taken, one by one. -/
def history (steps : List EmitStep) : List EmitStep := (empty.accepted steps).flatMap EmitStep.parts

theorem isSingle_history {steps : List EmitStep} {s : EmitStep} (h : s ∈ history steps) : s.isSingle = true := by
  obtain ⟨_, -, hs⟩ := List.mem_flatMap.1 h
  exact EmitStep.isSingle_parts hs

theorem run_parts {e e' : Emitter} {s : EmitStep} (h : e.step s = .ok e') : e.run s.parts = .ok e' := by
  cases s with
  | function s signature body result =>
    simp only [step, bind, Except.bind] at h
    cases ho : e.openUnit s signature with
    | error _ => rw [ho] at h; cases h
    | ok opened =>
      rw [ho] at h
      have hopened : e.step (.openUnit s signature) = .ok opened := ho
      have hclosed : (opened.push s body).step (.closeUnit s result) = .ok e' := h
      have hpushed : opened.step (.push s body) = .ok (opened.push s body) := rfl
      rw [EmitStep.parts, run_cons hopened, run_cons hpushed, run_cons hclosed, run_nil]
  | openUnit _ _ | closeUnit _ _ | push _ _ | raw _ _ => exact run_cons h

/-- Functions as a whole may be taken step by step. -/
theorem run_flatMap_parts {e e' : Emitter} {log : List EmitStep} (h : e.run log = .ok e') :
    e.run (log.flatMap EmitStep.parts) = .ok e' := by
  induction log generalizing e with
  | nil => exact h
  | cons s log ih =>
    obtain ⟨next, hs, hrest⟩ := run_cons_eq_ok h
    rw [List.flatMap_cons, run_append_ok (run_parts hs), ih hrest]

theorem run_history (steps : List EmitStep) : empty.run (history steps) = .ok (empty.attempts steps) :=
  run_flatMap_parts (run_accepted empty steps)

end Emitter

/-! ## References of an operation -/

namespace Operation

/-- An operation, or one inside it, calls or installs a function of this name. -/
inductive RefersTo : Operation → String → Prop where
  | call {name : String} (args : List String) (note : Option String) : RefersTo (.call (.emitted name) args note) name
  | installVector {name : String} (irq : String) (note : Option String) : RefersTo (.installVector irq name note) name
  | await : RefersTo (.await .poll) "cnn_wait"
  | check {name : String} (policy : FailPolicy) : RefersTo (.check (.emitted name) policy) name
  | halt (callee : Callee) : RefersTo (.check callee .halt) "fail"
  | guarded {body : Operation} {name : String} (condition : String) (h : RefersTo body name) :
      RefersTo (.guarded condition body) name
  | counted {op : Operation} {body : List Operation} {name : String} (count : UInt32) (hop : op ∈ body)
      (h : RefersTo op name) : RefersTo (.counted count body) name
  | forever {op : Operation} {body : List Operation} {name : String} (hop : op ∈ body) (h : RefersTo op name) :
      RefersTo (.forever body) name

variable {name : String}

theorem refersTo_of_callee {callee : Callee} (policy : FailPolicy) (h : name ∈ calleeReferences callee) :
    RefersTo (.check callee policy) name := by
  cases callee with
  | emitted _ =>
    obtain rfl := List.mem_singleton.1 h
    exact .check policy
  | provided _ => cases h

mutual

theorem refersTo_of_mem : (op : Operation) → name ∈ op.references → RefersTo op name
  | .call (.emitted _) args note, h => by
      obtain rfl := List.mem_singleton.1 h
      exact .call args note
  | .installVector irq _ note, h => by
      obtain rfl := List.mem_singleton.1 h
      exact .installVector irq note
  | .await .poll, h => by
      obtain rfl := List.mem_singleton.1 h
      exact .await
  | .check callee policy, h => by
      rcases List.mem_append.1 h with hcallee | hfail
      · exact refersTo_of_callee policy hcallee
      · cases policy with
        | halt =>
          obtain rfl := List.mem_singleton.1 hfail
          exact .halt callee
        | abortAndReturn => cases hfail
  | .guarded condition body, h => .guarded condition (refersTo_of_mem body h)
  | .counted count body, h => by
      obtain ⟨op, hop, hname⟩ := exists_refersTo_of_mem body h
      exact .counted count hop hname
  | .forever body, h => by
      obtain ⟨op, hop, hname⟩ := exists_refersTo_of_mem body h
      exact .forever hop hname

theorem exists_refersTo_of_mem : (ops : List Operation) → name ∈ referencesOfAll ops → ∃ op ∈ ops, op.RefersTo name
  | op :: ops, h => by
      rcases List.mem_append.1 h with hop | hops
      · exact ⟨op, List.mem_cons_self, refersTo_of_mem op hop⟩
      · obtain ⟨other, hother, hname⟩ := exists_refersTo_of_mem ops hops
        exact ⟨other, List.mem_cons_of_mem op hother, hname⟩

end

theorem RefersTo.mem_references {op : Operation} (h : op.RefersTo name) : name ∈ op.references := by
  have hnested {inner : Operation} {body : List Operation} {n : String} (hop : inner ∈ body) (hn : n ∈ inner.references) :
      n ∈ referencesOfAll body := by
    rw [referencesOfAll_eq_flatMap]
    exact List.mem_flatMap.2 ⟨inner, hop, hn⟩
  induction h with
  | call _ _ | installVector _ _ | await => exact List.mem_singleton_self _
  | check _ => exact List.mem_append_left _ (List.mem_singleton_self _)
  | halt _ => exact List.mem_append_right _ (List.mem_singleton_self _)
  | guarded _ _ ih => exact ih
  | counted _ hop _ ih => exact hnested hop ih
  | forever hop _ ih => exact hnested hop ih

theorem mem_references_iff (op : Operation) : name ∈ op.references ↔ op.RefersTo name :=
  ⟨refersTo_of_mem op, RefersTo.mem_references⟩

end Operation

/-! ## Reading a history -/

/-- On this sink, the last bracket of a history opens a function. -/
def LeavesOpen (log : List EmitStep) (sink : Sink) (signature : Signature) : Prop :=
  ∃ before after, log = before ++ .openUnit sink signature :: after ∧ ∀ s ∈ after, s.brackets sink = false

/-- A function is opened on this sink, and the next bracket there closes it. -/
def Closes (log : List EmitStep) (sink : Sink) (signature : Signature) (result : Option String) : Prop :=
  ∃ before inside after, log = before ++ .openUnit sink signature :: (inside ++ .closeUnit sink result :: after) ∧
    ∀ s ∈ inside, s.brackets sink = false

/-- Some function of this name has been closed on this sink. -/
def ClosesName (log : List EmitStep) (sink : Sink) (name : String) : Prop :=
  ∃ signature result, signature.name = name ∧ Closes log sink signature result

/-- An operation that is pushed refers to a function of this name. -/
def Mentions (log : List EmitStep) (name : String) : Prop :=
  ∃ sink ops op, .push sink ops ∈ log ∧ op ∈ ops ∧ op.RefersTo name

variable {log : List EmitStep} {s : EmitStep} {sink : Sink} {signature : Signature} {result : Option String}

theorem append_singleton_eq_iff {α : Type} {xs before after : List α} {x y : α} :
    xs ++ [x] = before ++ y :: after ↔
      (after = [] ∧ xs = before ∧ x = y) ∨ ∃ rest, after = rest ++ [x] ∧ xs = before ++ y :: rest := by
  constructor
  · intro h
    rcases List.eq_nil_or_concat after with rfl | ⟨rest, z, rfl⟩
    · obtain ⟨rfl, hx⟩ := List.append_inj' h rfl
      exact Or.inl ⟨rfl, rfl, List.singleton_inj.1 hx⟩
    · rw [List.concat_eq_append, ← List.cons_append, ← List.append_assoc] at h
      obtain ⟨rfl, hx⟩ := List.append_inj' h rfl
      obtain rfl := List.singleton_inj.1 hx
      exact Or.inr ⟨rest, List.concat_eq_append, rfl⟩
  · rintro (⟨rfl, rfl, rfl⟩ | ⟨rest, rfl, rfl⟩) <;> simp

theorem leavesOpen_append_singleton : LeavesOpen (log ++ [s]) sink signature ↔
    s = .openUnit sink signature ∨ (LeavesOpen log sink signature ∧ s.brackets sink = false) := by
  constructor
  · rintro ⟨before, after, hlog, hafter⟩
    rcases append_singleton_eq_iff.1 hlog with ⟨-, -, rfl⟩ | ⟨rest, rfl, rfl⟩
    · exact Or.inl rfl
    · obtain ⟨hrest, hs⟩ := List.forall_mem_append.1 hafter
      exact Or.inr ⟨⟨before, rest, rfl, hrest⟩, hs s (List.mem_singleton_self s)⟩
  · rintro (rfl | ⟨⟨before, after, rfl, hafter⟩, hs⟩)
    · exact ⟨log, [], rfl, by simp⟩
    · refine ⟨before, after ++ [s], by simp, List.forall_mem_append.2 ⟨hafter, ?_⟩⟩
      simpa using hs

theorem closes_append_singleton : Closes (log ++ [s]) sink signature result ↔
    Closes log sink signature result ∨ (LeavesOpen log sink signature ∧ s = .closeUnit sink result) := by
  constructor
  · rintro ⟨before, inside, after, hlog, hinside⟩
    rw [← List.cons_append, ← List.append_assoc] at hlog
    rcases append_singleton_eq_iff.1 hlog with ⟨-, rfl, rfl⟩ | ⟨rest, rfl, rfl⟩
    · exact Or.inr ⟨⟨before, inside, rfl, hinside⟩, rfl⟩
    · exact Or.inl ⟨before, inside, rest, by simp, hinside⟩
  · rintro (⟨before, inside, after, rfl, hinside⟩ | ⟨⟨before, inside, rfl, hinside⟩, rfl⟩)
    · exact ⟨before, inside, after ++ [s], by simp, hinside⟩
    · exact ⟨before, inside, [], by simp, hinside⟩

theorem closesName_append_singleton {name : String} : ClosesName (log ++ [s]) sink name ↔
    ClosesName log sink name ∨
      ∃ signature result, signature.name = name ∧ LeavesOpen log sink signature ∧ s = .closeUnit sink result := by
  simp only [ClosesName, closes_append_singleton]
  constructor
  · rintro ⟨signature, result, hname, hcloses | hopen⟩
    · exact Or.inl ⟨signature, result, hname, hcloses⟩
    · exact Or.inr ⟨signature, result, hname, hopen⟩
  · rintro (⟨signature, result, hname, hcloses⟩ | ⟨signature, result, hname, hopen⟩)
    · exact ⟨signature, result, hname, Or.inl hcloses⟩
    · exact ⟨signature, result, hname, Or.inr hopen⟩

theorem mentions_append_singleton {name : String} : Mentions (log ++ [s]) name ↔
    Mentions log name ∨ ∃ sink ops op, s = .push sink ops ∧ op ∈ ops ∧ op.RefersTo name := by
  simp only [Mentions, List.mem_append, List.mem_singleton]
  constructor
  · rintro ⟨sink, ops, op, hlog | hs, hop⟩
    · exact Or.inl ⟨sink, ops, op, hlog, hop⟩
    · exact Or.inr ⟨sink, ops, op, hs.symm, hop⟩
  · rintro (⟨sink, ops, op, hlog, hop⟩ | ⟨sink, ops, op, rfl, hop⟩)
    · exact ⟨sink, ops, op, Or.inl hlog, hop⟩
    · exact ⟨sink, ops, op, Or.inr rfl, hop⟩

/-! ## What an emitter holds -/

namespace Emitter

/-- What holds of the empty emitter and after every further step holds after every run, step by step. -/
@[elab_as_elim]
theorem run_induction {P : List EmitStep → Emitter → Prop} {e : Emitter} (hempty : P [] empty)
    (hstep : ∀ log e s e', (∀ r ∈ log, r.isSingle = true) → empty.run log = .ok e → s.isSingle = true → e.step s = .ok e' →
      P log e → P (log ++ [s]) e')
    (hs : ∀ s ∈ log, s.isSingle = true) (h : empty.run log = .ok e) : P log e := by
  induction log using List.reverseRecOn generalizing e with
  | nil =>
    cases h
    exact hempty
  | append_singleton log s ih =>
    obtain ⟨hlog, hlast⟩ := List.forall_mem_append.1 hs
    obtain ⟨between, hbetween, hend⟩ := run_append_eq_ok h
    exact hstep log between s e hlog hbetween (hlast s (List.mem_singleton_self s)) (step_of_run_singleton hend)
      (ih hlog hbetween)

/-- An emitter holds what can be read off a history. -/
structure Holds (e : Emitter) (log : List EmitStep) : Prop where
  unit : ∀ sink signature, (e.streams.get sink).unit = some signature ↔ LeavesOpen log sink signature
  defined : ∀ sink name, ⟨sink, name⟩ ∈ e.defined ↔ ClosesName log sink name
  referenced : ∀ name, name ∈ e.referenced ↔ Mentions log name

theorem holds_empty : empty.Holds [] where
  unit sink signature := by simp [empty, LeavesOpen]
  defined sink name := by simp [empty, ClosesName, Closes]
  referenced name := by simp [empty, Mentions]

variable {e e' : Emitter}

theorem openUnit_eq_ok (h : e.openUnit sink signature = .ok e') :
    (e.streams.get sink).unit = none ∧ e.defines signature.name = false ∧ e'.defined = e.defined ∧
      e'.referenced = e.referenced ∧
      ∀ t, (e'.streams.get t).unit = if t = sink then some signature else (e.streams.get t).unit := by
  cases hu : (e.streams.get sink).unit with
  | some current => simp [openUnit, hu] at h
  | none =>
    cases hd : e.defines signature.name with
    | true => simp [openUnit, hu, hd] at h
    | false =>
      obtain ⟨opened, hopened, hfacts⟩ := openUnit_ok signature hu hd
      cases hopened.symm.trans h
      exact ⟨rfl, rfl, hfacts⟩

theorem closeUnit_eq_ok (h : e.closeUnit sink result = .ok e') :
    ∃ signature, (e.streams.get sink).unit = some signature ∧ e'.defined = e.defined ++ [⟨sink, signature.name⟩] ∧
      e'.referenced = e.referenced ∧ ∀ t, (e'.streams.get t).unit = if t = sink then none else (e.streams.get t).unit := by
  cases hu : (e.streams.get sink).unit with
  | none => simp [closeUnit, hu] at h
  | some signature =>
    obtain ⟨closed, hclosed, hfacts⟩ := closeUnit_ok result hu
    cases hclosed.symm.trans h
    exact ⟨signature, rfl, hfacts⟩

theorem holds_step (he : e.Holds log) (hs : s.isSingle = true) (h : e.step s = .ok e') : e'.Holds (log ++ [s]) := by
  cases s with
  | function _ _ _ _ => cases hs
  | openUnit t opened =>
    obtain ⟨hnone, -, hdefined, hreferenced, hunit⟩ := openUnit_eq_ok h
    constructor
    · intro sink signature
      rw [hunit, leavesOpen_append_singleton, ← he.unit]
      by_cases hsink : sink = t
      · subst hsink
        simp [EmitStep.brackets]
      · simp [hsink, EmitStep.brackets, Ne.symm hsink]
    · intro sink name
      simp [hdefined, closesName_append_singleton, he.defined]
    · intro name
      simp [hreferenced, mentions_append_singleton, he.referenced]
  | closeUnit t result =>
    obtain ⟨closed, hsome, hdefined, hreferenced, hunit⟩ := closeUnit_eq_ok h
    constructor
    · intro sink signature
      rw [hunit, leavesOpen_append_singleton, ← he.unit]
      by_cases hsink : sink = t
      · subst hsink
        simp [EmitStep.brackets]
      · simp [hsink, EmitStep.brackets, Ne.symm hsink]
    · intro sink name
      rw [hdefined, List.mem_append, he.defined, closesName_append_singleton, List.mem_singleton, Definition.mk.injEq]
      refine or_congr_right ⟨?_, ?_⟩
      · rintro ⟨rfl, rfl⟩
        exact ⟨closed, result, rfl, (he.unit _ _).1 hsome, rfl⟩
      · rintro ⟨signature, result', rfl, hopen, hclose⟩
        cases hclose
        cases hsome.symm.trans ((he.unit _ _).2 hopen)
        exact ⟨rfl, rfl⟩
    · intro name
      simp [hreferenced, mentions_append_singleton, he.referenced]
  | push t ops =>
    cases h
    constructor
    · intro sink signature
      simp [he.unit, leavesOpen_append_singleton, EmitStep.brackets]
    · intro sink name
      simp [he.defined, closesName_append_singleton]
    · intro name
      rw [referenced_push, List.mem_append, he.referenced, mentions_append_singleton, Operation.referencesOfAll_eq_flatMap,
        List.mem_flatMap]
      simp only [Operation.mem_references_iff]
      refine or_congr_right ⟨?_, ?_⟩
      · rintro ⟨op, hop, hname⟩
        exact ⟨t, ops, op, rfl, hop, hname⟩
      · rintro ⟨_, _, op, hpush, hop, hname⟩
        cases hpush
        exact ⟨op, hop, hname⟩
  | raw t text =>
    cases h
    constructor
    · intro sink signature
      simp [he.unit, leavesOpen_append_singleton, EmitStep.brackets]
    · intro sink name
      simp [he.defined, closesName_append_singleton]
    · intro name
      simp [he.referenced, mentions_append_singleton]

theorem holds_run (hs : ∀ s ∈ log, s.isSingle = true) (h : empty.run log = .ok e) : e.Holds log := by
  refine run_induction ?_ ?_ hs h
  · exact holds_empty
  · intro log e s e' _ _ hsingle hstep he
    exact holds_step he hsingle hstep

theorem holds_attempts (steps : List EmitStep) : (empty.attempts steps).Holds (history steps) :=
  holds_run (fun _ => isSingle_history) (run_history steps)

theorem Holds.defines_iff (he : e.Holds log) (name : String) : e.defines name = true ↔ ∃ sink, ClosesName log sink name := by
  simp only [← he.defined, defines, List.any_eq_true, beq_iff_eq]
  constructor
  · rintro ⟨⟨sink, _⟩, hmem, rfl⟩
    exact ⟨sink, hmem⟩
  · rintro ⟨sink, hmem⟩
    exact ⟨_, hmem, rfl⟩

/-- While a function is open, the next bracket on its sink closes it. -/
theorem closes_next {before after : List EmitStep} (hs : ∀ s ∈ before ++ after, s.isSingle = true)
    (h : empty.run (before ++ after) = .ok e) (hopen : LeavesOpen before sink signature)
    (hbracket : ∃ s ∈ after, s.brackets sink = true) :
    ∃ inside result rest, after = inside ++ .closeUnit sink result :: rest ∧ ∀ s ∈ inside, s.brackets sink = false := by
  obtain ⟨s, hfind⟩ := Option.isSome_iff_exists.1 (List.find?_isSome.2 hbracket)
  obtain ⟨hsink, inside, rest, rfl, hinside⟩ := List.find?_eq_some_iff_append.1 hfind
  have hquiet : ∀ s ∈ inside, s.brackets sink = false := fun s hs => by simpa using hinside s hs
  -- The function is still open when the bracket comes, so this is no opening.
  have hstill : LeavesOpen (before ++ inside) sink signature := by
    obtain ⟨ahead, behind, rfl, hbehind⟩ := hopen
    exact ⟨ahead, behind ++ inside, by simp, List.forall_mem_append.2 ⟨hbehind, hquiet⟩⟩
  rw [← List.append_assoc] at h hs
  obtain ⟨between, hbetween, hrest⟩ := run_append_eq_ok h
  obtain ⟨next, hnext, -⟩ := run_cons_eq_ok hrest
  have hunit := ((holds_run (fun r hr => hs r (List.mem_append_left _ hr)) hbetween).unit sink signature).2 hstill
  cases s with
  | closeUnit t result =>
    obtain rfl : t = sink := by simpa [EmitStep.brackets] using hsink
    exact ⟨inside, result, rest, rfl, hquiet⟩
  | openUnit t opened =>
    obtain rfl : t = sink := by simpa [EmitStep.brackets] using hsink
    have hnone := (openUnit_eq_ok hnext).1
    rw [hunit] at hnone
    cases hnone
  | function t opened body result => simpa [EmitStep.isSingle] using hs (.function t opened body result) (by simp)
  | push t ops | raw t ops => cases hsink

/-- A function that is open is closed by the next bracket on its sink, or stays open. -/
theorem open_or_closed {before after : List EmitStep} (hs : ∀ s ∈ before ++ after, s.isSingle = true)
    (h : empty.run (before ++ after) = .ok e) (hopen : LeavesOpen before sink signature) :
    LeavesOpen (before ++ after) sink signature ∨
      ∃ inside result rest, after = inside ++ .closeUnit sink result :: rest ∧ ∀ s ∈ inside, s.brackets sink = false := by
  by_cases hbracket : ∃ s ∈ after, s.brackets sink = true
  · exact Or.inr (closes_next hs h hopen hbracket)
  · obtain ⟨ahead, behind, rfl, hbehind⟩ := hopen
    have hquiet : ∀ s ∈ after, s.brackets sink = false := by simpa using hbracket
    exact Or.inl ⟨ahead, behind ++ after, by simp, List.forall_mem_append.2 ⟨hbehind, hquiet⟩⟩

/-! ## Finished emitters -/

/-- A finished emitter has nothing open. -/
theorem closed_of_finish {text : EmittedText} (h : e.finish = .ok text) (sink : Sink) : (e.streams.get sink).unit = none := by
  rw [finish] at h
  split at h
  · cases h
  · rename_i hopen
    simpa using List.findSome?_eq_none_iff.1 hopen sink (Sink.mem_all sink)

theorem functions_of_finish {text : EmittedText} (h : e.finish = .ok text) : text.functions = e.defined := by
  rw [finish] at h
  split at h
  · cases h
  · split at h
    · cases h
    · cases h
      rfl

end Emitter

end AccelFirmware
