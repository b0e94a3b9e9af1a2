import AccelFirmware.Operation.Basic
import Mathlib.Data.List.Basic

/-!
# Executions

What operations do in the order in which they do it: loops are unrolled, and a loop without an end is the last thing that
happens. A check is passed, and whether a guard holds is a parameter.
-/

namespace AccelFirmware

/-- Steps that are taken once, and perhaps some that are then taken over and over. -/
structure Execution (α : Type) where
  once : List α
  endless : Option (List α)

namespace Execution

variable {α β : Type}

def ofList (steps : List α) : Execution α := ⟨steps, none⟩

/-- What comes after an endless loop is never reached. -/
def andThen (x y : Execution α) : Execution α :=
  match x.endless with
  | none => ⟨x.once ++ y.once, y.endless⟩
  | some _ => x

def times (x : Execution α) : Nat → Execution α
  | 0 => ofList []
  | n + 1 => x.andThen (x.times n)

/-- Endless repetition; an endless loop inside is entered in the first round. -/
def endlessly (x : Execution α) : Execution α :=
  match x.endless with
  | none => ⟨[], some x.once⟩
  | some _ => x

def sequence (f : α → Execution β) : List α → Execution β
  | [] => ofList []
  | a :: as => (f a).andThen (sequence f as)

/-- Puts an execution in the place of every step. -/
def bind (x : Execution α) (f : α → Execution β) : Execution β :=
  (sequence f x.once).andThen
    (match x.endless with
     | none => ofList []
     | some steps => (sequence f steps).endlessly)

def filterMap (f : α → Option β) (x : Execution α) : Execution β :=
  ⟨x.once.filterMap f, x.endless.map (List.filterMap f)⟩

def All (P : α → Prop) (x : Execution α) : Prop :=
  (∀ a ∈ x.once, P a) ∧ ∀ steps, x.endless = some steps → ∀ a ∈ steps, P a

/-- The steps up to the end of some rounds of the endless loop. -/
def laps (x : Execution α) (rounds : Nat) : List α :=
  x.once ++ (List.replicate rounds (x.endless.getD [])).flatten

/-! ## Laws -/

@[simp] theorem nil_andThen (x : Execution α) : (ofList []).andThen x = x := rfl

@[simp] theorem andThen_nil (x : Execution α) : x.andThen (ofList []) = x := by
  obtain ⟨once, endless⟩ := x
  cases endless <;> simp [andThen, ofList]

theorem andThen_assoc (x y z : Execution α) : (x.andThen y).andThen z = x.andThen (y.andThen z) := by
  obtain ⟨_, ex⟩ := x
  obtain ⟨_, ey⟩ := y
  cases ex <;> cases ey <;> simp [andThen]

@[simp] theorem ofList_andThen_ofList (as bs : List α) : (ofList as).andThen (ofList bs) = ofList (as ++ bs) := rfl

theorem andThen_of_ends {x : Execution α} (h : x.endless = none) (y : Execution α) :
    x.andThen y = ⟨x.once ++ y.once, y.endless⟩ := by
  simp [andThen, h]

theorem andThen_of_endless {x : Execution α} (h : x.endless.isSome = true) (y : Execution α) : x.andThen y = x := by
  obtain ⟨once, endless⟩ := x
  cases endless with
  | none => cases h
  | some _ => rfl

theorem endlessly_isSome (x : Execution α) : x.endlessly.endless.isSome = true := by
  obtain ⟨once, endless⟩ := x
  cases endless <;> rfl

@[simp] theorem times_ofList (as : List α) (n : Nat) :
    (ofList as).times n = ofList (List.replicate n as).flatten := by
  induction n with
  | zero => rfl
  | succ n ih => rw [times, ih, ofList_andThen_ofList, List.replicate_succ, List.flatten_cons]

theorem times_ends {x : Execution α} (h : x.endless = none) (n : Nat) : (x.times n).endless = none := by
  induction n with
  | zero => rfl
  | succ n ih =>
    rw [times, andThen_of_ends h]
    exact ih

section

variable (f : α → Execution β)

theorem sequence_append (as bs : List α) : sequence f (as ++ bs) = (sequence f as).andThen (sequence f bs) := by
  induction as with
  | nil => rfl
  | cons a as ih => rw [List.cons_append, sequence, ih, sequence, andThen_assoc]

@[simp] theorem bind_ofList (as : List α) : (ofList as).bind f = sequence f as :=
  andThen_nil _

theorem bind_isSome {x : Execution α} (h : x.endless.isSome = true) : (x.bind f).endless.isSome = true := by
  obtain ⟨once, endless⟩ := x
  cases endless with
  | none => cases h
  | some steps =>
    simp only [bind]
    cases hs : (sequence f once).endless with
    | none => simpa [andThen, hs] using endlessly_isSome _
    | some _ => simp [andThen, hs]

theorem bind_andThen (x y : Execution α) : (x.andThen y).bind f = (x.bind f).andThen (y.bind f) := by
  cases hx : x.endless with
  | none =>
    rw [andThen_of_ends hx]
    simp only [bind, hx, sequence_append, andThen_nil, andThen_assoc]
  | some _ =>
    have hsome : x.endless.isSome = true := by simp [hx]
    rw [andThen_of_endless hsome, andThen_of_endless (bind_isSome f hsome)]

end

section

variable (f : α → Option β)

theorem filterMap_once (x : Execution α) : (x.filterMap f).once = x.once.filterMap f := rfl

@[simp] theorem filterMap_ofList (as : List α) : (ofList as).filterMap f = ofList (as.filterMap f) := rfl

theorem filterMap_filterMap {γ : Type} (g : β → Option γ) (x : Execution α) :
    (x.filterMap f).filterMap g = x.filterMap fun a => (f a).bind g := by
  obtain ⟨once, endless⟩ := x
  cases endless <;> simp [filterMap, List.filterMap_filterMap]

theorem filterMap_congr {g : α → Option β} {x : Execution α} (h : x.All fun a => f a = g a) :
    x.filterMap f = x.filterMap g := by
  obtain ⟨once, endless⟩ := x
  have honce : once.filterMap f = once.filterMap g := List.filterMap_congr h.1
  cases endless with
  | none => simp [filterMap, honce]
  | some steps => simp [filterMap, honce, List.filterMap_congr (h.2 steps rfl)]

@[simp] theorem filterMap_andThen (x y : Execution α) :
    (x.andThen y).filterMap f = (x.filterMap f).andThen (y.filterMap f) := by
  obtain ⟨_, ex⟩ := x
  cases ex <;> simp [andThen, filterMap]

@[simp] theorem filterMap_times (x : Execution α) (n : Nat) : (x.times n).filterMap f = (x.filterMap f).times n := by
  induction n with
  | zero => rfl
  | succ n ih => rw [times, filterMap_andThen, ih, times]

@[simp] theorem filterMap_endlessly (x : Execution α) : x.endlessly.filterMap f = (x.filterMap f).endlessly := by
  obtain ⟨_, ex⟩ := x
  cases ex <;> simp [endlessly, filterMap]

theorem filterMap_ends {x : Execution α} : (x.filterMap f).endless = none ↔ x.endless = none := by
  simp [filterMap]

theorem filterMap_laps (x : Execution α) (rounds : Nat) : (x.laps rounds).filterMap f = (x.filterMap f).laps rounds := by
  obtain ⟨once, endless⟩ := x
  cases endless <;> simp [laps, filterMap, List.filterMap_flatten]

end

theorem laps_of_ends {x : Execution α} (h : x.endless = none) (rounds : Nat) : x.laps rounds = x.once := by
  simp [laps, h]

theorem laps_andThen {x : Execution α} (h : x.endless = none) (y : Execution α) (rounds : Nat) :
    (x.andThen y).laps rounds = x.laps rounds ++ y.laps rounds := by
  rw [laps_of_ends h, andThen_of_ends h]
  simp [laps]

/-! ## Properties of all steps -/

section

variable {P : α → Prop}

theorem all_ofList {as : List α} (h : ∀ a ∈ as, P a) : (ofList as).All P :=
  ⟨h, by simp [ofList]⟩

theorem All.andThen {x y : Execution α} (hx : x.All P) (hy : y.All P) : (x.andThen y).All P := by
  cases he : x.endless with
  | none =>
    rw [andThen_of_ends he]
    refine ⟨fun a ha => ?_, hy.2⟩
    rcases List.mem_append.1 ha with ha | ha
    · exact hx.1 a ha
    · exact hy.1 a ha
  | some _ => rwa [andThen_of_endless (by simp [he])]

theorem All.times {x : Execution α} (hx : x.All P) (n : Nat) : (x.times n).All P := by
  induction n with
  | zero => exact all_ofList (by simp)
  | succ n ih => exact hx.andThen ih

theorem All.endlessly {x : Execution α} (hx : x.All P) : x.endlessly.All P := by
  obtain ⟨once, endless⟩ := x
  cases endless with
  | none =>
    refine ⟨by simp [Execution.endlessly], fun steps hs a ha => ?_⟩
    cases hs
    exact hx.1 a ha
  | some _ => exact hx

theorem All.mono {Q : α → Prop} {x : Execution α} (hx : x.All P) (h : ∀ a, P a → Q a) : x.All Q :=
  ⟨fun a ha => h a (hx.1 a ha), fun steps hs a ha => h a (hx.2 steps hs a ha)⟩

theorem All.laps {x : Execution α} (hx : x.All P) (rounds : Nat) : ∀ a ∈ x.laps rounds, P a := by
  intro a ha
  rcases List.mem_append.1 ha with ha | ha
  · exact hx.1 a ha
  · obtain ⟨steps, hsteps, ha⟩ := List.mem_flatten.1 ha
    obtain ⟨-, rfl⟩ := List.mem_replicate.1 hsteps
    cases he : x.endless with
    | none => simp [he] at ha
    | some steps => exact hx.2 steps he a (by simpa [he] using ha)

theorem All.filterMap {Q : β → Prop} {f : α → Option β} {x : Execution α} (hx : x.All P)
    (h : ∀ a, P a → ∀ b, f a = some b → Q b) : (x.filterMap f).All Q := by
  have hlist (as : List α) (has : ∀ a ∈ as, P a) : ∀ b ∈ as.filterMap f, Q b := by
    intro b hb
    obtain ⟨a, ha, he⟩ := List.mem_filterMap.1 hb
    exact h a (has a ha) b he
  refine ⟨hlist _ hx.1, fun steps hs => ?_⟩
  obtain ⟨as, has, rfl⟩ := Option.map_eq_some_iff.1 hs
  exact hlist as (hx.2 as has)

theorem All.of_filterMap {Q : β → Prop} {f : α → Option β} {x : Execution α} (h : (x.filterMap f).All Q) :
    x.All fun a => ∀ b, f a = some b → Q b := by
  refine ⟨fun a ha b hb => h.1 b (List.mem_filterMap.2 ⟨a, ha, hb⟩), fun steps hs a ha b hb => ?_⟩
  exact h.2 (steps.filterMap f) (by simp [Execution.filterMap, hs]) b (List.mem_filterMap.2 ⟨a, ha, hb⟩)

/-- Steps that stand for themselves. -/
theorem bind_of_all {f : α → Execution α} {x : Execution α} (h : x.All fun a => f a = ofList [a]) : x.bind f = x := by
  have hsequence (as : List α) (has : ∀ a ∈ as, f a = ofList [a]) : sequence f as = ofList as := by
    induction as with
    | nil => rfl
    | cons a as ih => rw [sequence, has a (by simp), ih fun a ha => has a (by simp [ha])]; rfl
  obtain ⟨once, endless⟩ := x
  cases endless with
  | none => simp only [bind, hsequence once h.1, andThen_nil]; rfl
  | some steps =>
    simp only [bind, hsequence once h.1, hsequence steps (h.2 steps rfl)]
    simp [ofList, endlessly, Execution.andThen]

end

end Execution

/-! ## Operations -/

namespace Operation

variable (taken : String → Bool)

mutual

/-- What an operation does, step by step. -/
def execution : Operation → Execution Operation
  | .guarded condition body => if taken condition then body.execution else .ofList []
  | .counted count body => (executionOfAll body).times count.toNat
  | .forever body => (executionOfAll body).endlessly
  | op => .ofList [op]

def executionOfAll : List Operation → Execution Operation
  | [] => .ofList []
  | op :: ops => op.execution.andThen (executionOfAll ops)

end

theorem executionOfAll_append (as bs : List Operation) :
    executionOfAll taken (as ++ bs) = (executionOfAll taken as).andThen (executionOfAll taken bs) := by
  induction as with
  | nil => rfl
  | cons a as ih => rw [List.cons_append, executionOfAll, ih, executionOfAll, Execution.andThen_assoc]

mutual

/-- Checks every operation that is neither a loop nor a guard. -/
def everyStep (P : Operation → Bool) : Operation → Bool
  | .guarded _ body => body.everyStep P
  | .counted _ body | .forever body => everyStepOfAll P body
  | op => P op

def everyStepOfAll (P : Operation → Bool) : List Operation → Bool
  | [] => true
  | op :: ops => op.everyStep P && everyStepOfAll P ops

end

@[simp] theorem everyStepOfAll_append (P : Operation → Bool) (as bs : List Operation) :
    everyStepOfAll P (as ++ bs) = (everyStepOfAll P as && everyStepOfAll P bs) := by
  induction as with
  | nil => rfl
  | cons a as ih => rw [List.cons_append, everyStepOfAll, ih, everyStepOfAll, Bool.and_assoc]

mutual

theorem execution_all {P : Operation → Bool} :
    (op : Operation) → op.everyStep P = true → (op.execution taken).All (P · = true)
  | .guarded condition body, h => by
      simp only [execution]
      split
      · exact execution_all body h
      · exact Execution.all_ofList (by simp)
  | .counted count body, h => (executionOfAll_all body h).times count.toNat
  | .forever body, h => (executionOfAll_all body h).endlessly
  | .header _ _ _, h | .define _ _, h | .declare _, h | .statement _ _, h | .write _ _ _ _, h | .call _ _ _, h
  | .installVector _ _ _, h | .waitUntil _ _, h | .await _, h | .check _ _, h | .comment _, h | .blank, h
  | .verbatim _, h => Execution.all_ofList fun a ha => by rwa [List.mem_singleton.1 ha]

theorem executionOfAll_all {P : Operation → Bool} :
    (ops : List Operation) → everyStepOfAll P ops = true → (executionOfAll taken ops).All (P · = true)
  | [], _ => Execution.all_ofList (by simp)
  | op :: ops, h =>
      have hops := Bool.and_eq_true_iff.1 h
      (execution_all op hops.1).andThen (executionOfAll_all ops hops.2)

end

/-- What is collected from operations, also from the bodies of loops and guards. -/
structure Collects {α : Type} (one : Operation → List α) (every : List Operation → List α) : Prop where
  guarded : ∀ condition body, one body ⊆ one (.guarded condition body)
  counted : ∀ count body, every body ⊆ one (.counted count body)
  forever : ∀ body, every body ⊆ one (.forever body)
  cons : ∀ op ops, every (op :: ops) = one op ++ every ops

section

variable {α : Type} {one : Operation → List α} {every : List Operation → List α}

mutual

/-- From every step of an operation, only what is collected from the operation. -/
theorem Collects.execution (h : Collects one every) :
    (op : Operation) → (op.execution taken).All fun step => one step ⊆ one op
  | .guarded condition body => by
      simp only [Operation.execution]
      split
      · exact (h.execution body).mono fun _ hstep => List.Subset.trans hstep (h.guarded condition body)
      · exact Execution.all_ofList (by simp)
  | .counted count body =>
      ((h.executionOfAll body).mono fun _ hstep => List.Subset.trans hstep (h.counted count body)).times count.toNat
  | .forever body =>
      ((h.executionOfAll body).mono fun _ hstep => List.Subset.trans hstep (h.forever body)).endlessly
  | .header _ _ _ | .define _ _ | .declare _ | .statement _ _ | .write _ _ _ _ | .call _ _ _ | .installVector _ _ _
  | .waitUntil _ _ | .await _ | .check _ _ | .comment _ | .blank | .verbatim _ =>
      Execution.all_ofList (by simp)

theorem Collects.executionOfAll (h : Collects one every) :
    (ops : List Operation) → (executionOfAll taken ops).All fun step => one step ⊆ every ops
  | [] => Execution.all_ofList (by simp)
  | op :: ops => by
      rw [h.cons]
      exact ((h.execution op).mono fun _ hstep => List.subset_append_of_subset_left _ hstep).andThen
        ((h.executionOfAll ops).mono fun _ hstep => List.subset_append_of_subset_right _ hstep)

end

theorem Collects.subset (h : Collects one every) {op : Operation} {ops : List Operation} (hop : op ∈ ops) :
    one op ⊆ every ops := by
  induction ops with
  | nil => cases hop
  | cons first ops ih =>
    rw [h.cons]
    rcases List.mem_cons.1 hop with rfl | hop
    · exact List.subset_append_left _ _
    · exact List.subset_append_of_subset_right _ (ih hop)

theorem Collects.append (h : Collects one every) (hnil : every [] = []) (as bs : List Operation) :
    every (as ++ bs) = every as ++ every bs := by
  induction as with
  | nil => rw [hnil]; rfl
  | cons a as ih => rw [List.cons_append, h.cons, ih, h.cons, List.append_assoc]

end

theorem collects_references : Collects references referencesOfAll :=
  ⟨fun _ _ => List.Subset.refl _, fun _ _ => List.Subset.refl _, fun _ => List.Subset.refl _, fun _ _ => rfl⟩

/-- Every step of some operations refers only to functions that the operations refer to. -/
theorem executionOfAll_references (ops : List Operation) :
    (executionOfAll taken ops).All fun step => step.references ⊆ referencesOfAll ops :=
  collects_references.executionOfAll taken ops

end Operation

end AccelFirmware
