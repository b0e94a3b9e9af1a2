import AccelFirmware.Proofs.Execution

/-!
# Neighbouring steps

Steps of one kind that come right after, or right before, steps of another. Such a property of lists holds of a
concatenation as soon as it holds of the parts, and so it passes from the parts of an execution to the whole.
-/

namespace AccelFirmware

variable {α β : Type}

/-! ## Neighbours in a list -/

/-- Every element of the second kind comes right after one of the first kind. -/
def Follows (P Q : α → Prop) (xs : List α) : Prop :=
  ∀ before x after, xs = before ++ x :: after → Q x → ∃ y ∈ before.getLast?, P y

/-- Every element of the first kind comes right before one of the second kind. -/
def Leads (P Q : α → Prop) (xs : List α) : Prop :=
  ∀ before x after, xs = before ++ x :: after → P x → ∃ y ∈ after.head?, Q y

section

variable {P Q : α → Prop} {xs ys : List α}

/-- Read backwards, what leads becomes what follows. -/
theorem leads_iff_follows_reverse : Leads P Q xs ↔ Follows Q P xs.reverse := by
  constructor
  · intro h before x after hxs hx
    have hrev : xs = after.reverse ++ x :: before.reverse := by
      rw [← xs.reverse_reverse, hxs]
      simp
    simpa using h _ _ _ hrev hx
  · intro h before x after hxs hx
    have hrev : xs.reverse = after.reverse ++ x :: before.reverse := by
      rw [hxs]
      simp
    simpa using h _ _ _ hrev hx

theorem Follows.of_forall (h : ∀ x ∈ xs, ¬ Q x) : Follows P Q xs := by
  rintro before x after rfl hx
  exact absurd hx (h x (by simp))

theorem Leads.of_forall (h : ∀ x ∈ xs, ¬ P x) : Leads P Q xs := by
  rintro before x after rfl hx
  exact absurd hx (h x (by simp))

theorem Follows.append (hx : Follows P Q xs) (hy : Follows P Q ys) : Follows P Q (xs ++ ys) := by
  intro before z after hsplit hz
  rcases List.append_eq_append_iff.1 hsplit with ⟨rest, rfl, hys⟩ | ⟨rest, rfl, hrest⟩
  · obtain ⟨y, hlast, hy⟩ := hy rest z after hys hz
    exact ⟨y, by simp [Option.mem_def.1 hlast], hy⟩
  · cases rest with
    | nil =>
      obtain ⟨y, hlast, _⟩ := hy [] z after hrest.symm hz
      cases hlast
    | cons w rest =>
      obtain ⟨rfl, _⟩ := List.cons.inj hrest
      exact hx before z rest rfl hz

theorem Leads.append (hx : Leads P Q xs) (hy : Leads P Q ys) : Leads P Q (xs ++ ys) := by
  rw [leads_iff_follows_reverse] at hx hy ⊢
  rw [List.reverse_append]
  exact hy.append hx

theorem Follows.pair {x y : α} (hx : P x) (hq : ¬ Q x) : Follows P Q [x, y] := by
  intro before z after hsplit hz
  cases before with
  | nil =>
    obtain ⟨rfl, _⟩ := List.cons.inj hsplit
    exact absurd hz hq
  | cons w before =>
    obtain ⟨rfl, hrest⟩ := List.cons.inj hsplit
    cases before with
    | nil => exact ⟨x, rfl, hx⟩
    | cons v before => simp at hrest

theorem Leads.pair {x y : α} (hy : Q y) (hp : ¬ P y) : Leads P Q [x, y] :=
  leads_iff_follows_reverse.2 (.pair hy hp)

/-- What is seen of a list keeps its neighbours, as long as nothing of either kind is overlooked or made up. -/
theorem Follows.filterMap {P' Q' : β → Prop} {f : α → Option β} (h : Follows P Q xs)
    (hP : ∀ x, P x → ∃ y, f x = some y ∧ P' y) (hQ : ∀ x y, f x = some y → Q' y → Q x) :
    Follows P' Q' (xs.filterMap f) := by
  intro before y after hsplit hy
  obtain ⟨left, right, rfl, hleft, hright⟩ := List.filterMap_eq_append_iff.1 hsplit
  obtain ⟨skipped, x, rest, rfl, hskipped, hx, _⟩ := List.filterMap_eq_cons_iff.1 hright
  obtain ⟨z, hlast, hz⟩ := h (left ++ skipped) x rest (by simp) (hQ x y hx hy)
  obtain ⟨w, hw, hPw⟩ := hP z hz
  rcases List.eq_nil_or_concat skipped with rfl | ⟨skipped, z', rfl⟩
  · refine ⟨w, ?_, hPw⟩
    obtain ⟨init, hinit⟩ := List.getLast?_eq_some_iff.1 (by simpa using hlast)
    rw [← hleft, hinit]
    simp [hw]
  · have hz' : z' = z := by simpa using hlast
    subst hz'
    have hnone := hskipped z' (by simp)
    rw [hw] at hnone
    cases hnone

end

/-! ## Properties of lists that executions inherit -/

/-- A property of lists that holds of a concatenation when it holds of the parts. -/
structure Joinable (R : List α → Prop) : Prop where
  nil : R []
  append : ∀ {xs ys}, R xs → R ys → R (xs ++ ys)

theorem joinable_follows (P Q : α → Prop) : Joinable (Follows P Q) :=
  ⟨.of_forall (by simp), Follows.append⟩

theorem joinable_leads (P Q : α → Prop) : Joinable (Leads P Q) :=
  ⟨.of_forall (by simp), Leads.append⟩

namespace Joinable

variable {R : List α → Prop}

theorem flatten_replicate (h : Joinable R) {xs : List α} (hx : R xs) (n : Nat) : R (List.replicate n xs).flatten := by
  induction n with
  | zero => exact h.nil
  | succ n ih =>
    rw [List.replicate_succ, List.flatten_cons]
    exact h.append hx ih

theorem once_andThen (h : Joinable R) {x y : Execution α} (hx : R x.once) (hy : R y.once) : R (x.andThen y).once := by
  cases he : x.endless with
  | none =>
    rw [Execution.andThen_of_ends he]
    exact h.append hx hy
  | some _ => rwa [Execution.andThen_of_endless (by simp [he])]

theorem once_times (h : Joinable R) {x : Execution α} (hx : R x.once) (n : Nat) : R (x.times n).once := by
  induction n with
  | zero => exact h.nil
  | succ n ih => exact h.once_andThen hx ih

end Joinable

/-- A property of the steps that are taken once, and of a round of the others. -/
structure Execution.Throughout (R : List α → Prop) (x : Execution α) : Prop where
  once : R x.once
  endless : ∀ steps, x.endless = some steps → R steps

namespace Execution.Throughout

variable {R : List α → Prop} {x y : Execution α}

theorem ofList {xs : List α} (h : R xs) : (Execution.ofList xs).Throughout R :=
  ⟨h, by simp [Execution.ofList]⟩

theorem of_all {P : α → Prop} (hx : x.All P) (h : ∀ xs, (∀ a ∈ xs, P a) → R xs) : x.Throughout R :=
  ⟨h _ hx.1, fun steps hs => h steps (hx.2 steps hs)⟩

theorem andThen (h : Joinable R) (hx : x.Throughout R) (hy : y.Throughout R) : (x.andThen y).Throughout R := by
  cases he : x.endless with
  | none =>
    rw [Execution.andThen_of_ends he]
    exact ⟨h.append hx.once hy.once, hy.endless⟩
  | some _ => rwa [Execution.andThen_of_endless (by simp [he])]

theorem laps (h : Joinable R) (hx : x.Throughout R) (rounds : Nat) : R (x.laps rounds) := by
  refine h.append hx.once (h.flatten_replicate ?_ rounds)
  cases he : x.endless with
  | none => exact h.nil
  | some steps => exact hx.endless steps he

end Execution.Throughout

end AccelFirmware
