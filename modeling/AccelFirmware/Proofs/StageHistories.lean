import AccelFirmware.Lifecycle.InPlace
import Mathlib.Computability.RegularExpressions
import Mathlib.Data.List.Chain

/-!
# Histories of stages

The stages that a record has been through, whatever events it is offered. They are the paths of the permitted moves, and these
paths are a regular language: a run is configured, runs at least once, completes, and is torn down or loops forever; it may be
delegated at the start, and it may fail wherever a fatal check may stand.
-/

namespace AccelFirmware

namespace Stage

open RegularExpression

/-! ## The language -/

def runs : RegularExpression Stage := char .running * star (char .running)

def completedRun : RegularExpression Stage := char .uninitialized * char .configured * runs * char .complete

def wholeRun : RegularExpression Stage := completedRun * (char .tornDown + char .loopingForever)

def failedRun : RegularExpression Stage :=
  (char .uninitialized + char .uninitialized * char .configured + completedRun) * char .failed

/-- The beginning of a whole run, a run that is delegated, or one that has failed. -/
def IsHistory (stages : List Stage) : Prop :=
  (∃ word ∈ wholeRun.matches', stages <+: word) ∨ stages = [.uninitialized, .delegated] ∨ stages ∈ failedRun.matches'

variable {stages : List Stage}

theorem mem_runs_iff : stages ∈ runs.matches' ↔ ∃ n, stages = .running :: List.replicate n .running := by
  have hstar (more : List Stage) : more ∈ (star (char Stage.running)).matches' ↔ ∃ n, more = List.replicate n .running := by
    rw [matches'_star, Language.mem_kstar]
    constructor
    · rintro ⟨pieces, rfl, hpieces⟩
      rw [List.eq_replicate_of_mem hpieces, List.flatten_replicate_singleton]
      exact ⟨_, rfl⟩
    · rintro ⟨n, rfl⟩
      exact ⟨List.replicate n [.running], List.flatten_replicate_singleton.symm, fun _ => List.eq_of_mem_replicate⟩
  rw [runs, matches'_mul, Language.mem_mul]
  constructor
  · rintro ⟨first, rfl, more, hmore, rfl⟩
    obtain ⟨n, rfl⟩ := (hstar more).1 hmore
    exact ⟨n, rfl⟩
  · rintro ⟨n, rfl⟩
    exact ⟨[.running], rfl, _, (hstar _).2 ⟨n, rfl⟩, rfl⟩

theorem mem_completedRun_iff : stages ∈ completedRun.matches' ↔
    ∃ n, stages = [.uninitialized, .configured, .running] ++ List.replicate n .running ++ [.complete] := by
  simp only [completedRun, matches'_mul, matches'_char, Language.mem_mul, mem_runs_iff]
  constructor
  · rintro ⟨_, ⟨_, ⟨_, rfl, _, rfl, rfl⟩, _, ⟨n, rfl⟩, rfl⟩, _, rfl, rfl⟩
    exact ⟨n, by simp⟩
  · rintro ⟨n, rfl⟩
    exact ⟨_, ⟨_, ⟨_, rfl, _, rfl, rfl⟩, _, ⟨n, rfl⟩, rfl⟩, _, rfl, by simp⟩

theorem mem_wholeRun_iff : stages ∈ wholeRun.matches' ↔
    ∃ run ∈ completedRun.matches', stages = run ++ [.tornDown] ∨ stages = run ++ [.loopingForever] := by
  simp only [wholeRun, matches'_mul, matches'_add, matches'_char, Language.mem_mul, Language.mem_add]
  constructor
  · rintro ⟨run, hrun, _, rfl | rfl, rfl⟩
    · exact ⟨run, hrun, Or.inl rfl⟩
    · exact ⟨run, hrun, Or.inr rfl⟩
  · rintro ⟨run, hrun, rfl | rfl⟩
    · exact ⟨run, hrun, _, Or.inl rfl, rfl⟩
    · exact ⟨run, hrun, _, Or.inr rfl, rfl⟩

theorem mem_failedRun_iff : stages ∈ failedRun.matches' ↔
    stages = [.uninitialized, .failed] ∨ stages = [.uninitialized, .configured, .failed] ∨
      ∃ run ∈ completedRun.matches', stages = run ++ [.failed] := by
  simp only [failedRun, matches'_mul, matches'_add, matches'_char, Language.mem_mul, Language.mem_add]
  constructor
  · rintro ⟨_, (rfl | ⟨_, rfl, _, rfl, rfl⟩) | hrun, _, rfl, rfl⟩
    · exact Or.inl rfl
    · exact Or.inr (Or.inl rfl)
    · exact Or.inr (Or.inr ⟨_, hrun, rfl⟩)
  · rintro (rfl | rfl | ⟨run, hrun, rfl⟩)
    · exact ⟨_, Or.inl (Or.inl rfl), _, rfl, rfl⟩
    · exact ⟨_, Or.inl (Or.inr ⟨_, rfl, _, rfl, rfl⟩), _, rfl, rfl⟩
    · exact ⟨run, Or.inr hrun, _, rfl, rfl⟩

/-! ## Paths of permitted moves -/

/-- Every stage is one that the stage before it permits. -/
def IsPath (stages : List Stage) : Prop := stages.IsChain fun s next => s.permits next = true

theorem isPath_cons_cons {s next : Stage} : IsPath (s :: next :: stages) ↔ s.permits next = true ∧ IsPath (next :: stages) :=
  List.isChain_cons_cons

theorem permits_eq_false_of_isTerminal {s : Stage} (h : s.isTerminal = true) (next : Stage) : s.permits next = false := by
  cases s with
  | tornDown | loopingForever | failed | delegated => rfl
  | _ => cases h

/-- A fatal check stands where a run may fail. -/
theorem permits_failed_iff (s : Stage) : s.permits .failed = true ↔ s ∈ [uninitialized, configured, complete] := by
  cases s <;> decide

/-- Nothing comes after a terminal stage. -/
theorem IsPath.eq_nil_of_isTerminal {s : Stage} (h : IsPath (s :: stages)) (hs : s.isTerminal = true) : stages = [] := by
  cases stages with
  | nil => rfl
  | cons next stages =>
    have hpermits := (isPath_cons_cons.1 h).1
    rw [permits_eq_false_of_isTerminal hs] at hpermits
    cases hpermits

/-- From a run on, a path runs again and may complete, and then it may come to one of three ends. -/
theorem IsPath.after_running (h : IsPath (.running :: stages)) :
    ∃ n rest, stages = List.replicate n .running ++ rest ∧
      (rest = [] ∨ rest = [.complete] ∨ ∃ last ∈ [tornDown, loopingForever, failed], rest = [.complete, last]) := by
  induction stages with
  | nil => exact ⟨0, [], rfl, Or.inl rfl⟩
  | cons next stages ih =>
    obtain ⟨hpermits, hrest⟩ := isPath_cons_cons.1 h
    cases next with
    | running =>
      obtain ⟨n, rest, rfl, hends⟩ := ih hrest
      exact ⟨n + 1, rest, rfl, hends⟩
    | complete =>
      refine ⟨0, .complete :: stages, rfl, Or.inr ?_⟩
      cases stages with
      | nil => exact Or.inl rfl
      | cons last stages =>
        obtain ⟨hpermits, hlast⟩ := isPath_cons_cons.1 hrest
        have hterminal : last.isTerminal = true ∧ last ∈ [tornDown, loopingForever, failed] := by
          revert hpermits
          cases last <;> decide
        obtain rfl := hlast.eq_nil_of_isTerminal hterminal.1
        exact Or.inr ⟨last, hterminal.2, rfl⟩
    | _ => cases hpermits

theorem IsPath.run_again (h : IsPath (.running :: stages)) (n : Nat) :
    IsPath (.running :: (List.replicate n .running ++ stages)) := by
  induction n with
  | zero => exact h
  | succ n ih => exact isPath_cons_cons.2 ⟨rfl, ih⟩

/-- A completed run goes on to what its last stage permits. -/
theorem isPath_completedRun {run : List Stage} (h : run ∈ completedRun.matches') {last : Stage}
    (hlast : Stage.complete.permits last = true) : IsPath (run ++ [last]) := by
  obtain ⟨n, rfl⟩ := mem_completedRun_iff.1 h
  have hend : IsPath [.running, .complete, last] :=
    isPath_cons_cons.2 ⟨rfl, isPath_cons_cons.2 ⟨hlast, List.IsChain.singleton _⟩⟩
  simpa using isPath_cons_cons.2 ⟨rfl, isPath_cons_cons.2 ⟨rfl, hend.run_again n⟩⟩

theorem exists_cons_of_mem_completedRun {run : List Stage} (h : run ∈ completedRun.matches') :
    ∃ later, run = .uninitialized :: later := by
  obtain ⟨n, rfl⟩ := mem_completedRun_iff.1 h
  exact ⟨_, rfl⟩

/-! ## Paths and histories -/

theorem IsHistory.isPath (h : IsHistory stages) : IsPath stages := by
  rcases h with ⟨word, hword, hprefix⟩ | rfl | hfailed
  · have hpath : IsPath word := by
      obtain ⟨run, hrun, rfl | rfl⟩ := mem_wholeRun_iff.1 hword
      · exact isPath_completedRun hrun rfl
      · exact isPath_completedRun hrun rfl
    obtain ⟨rest, rfl⟩ := hprefix
    exact hpath.left_of_append
  · exact isPath_cons_cons.2 ⟨rfl, List.IsChain.singleton _⟩
  · rcases mem_failedRun_iff.1 hfailed with rfl | rfl | ⟨run, hrun, rfl⟩
    · exact isPath_cons_cons.2 ⟨rfl, List.IsChain.singleton _⟩
    · exact isPath_cons_cons.2 ⟨rfl, isPath_cons_cons.2 ⟨rfl, List.IsChain.singleton _⟩⟩
    · exact isPath_completedRun hrun rfl

theorem IsHistory.exists_cons (h : IsHistory stages) (hne : stages ≠ []) : ∃ later, stages = .uninitialized :: later := by
  rcases h with ⟨word, hword, hprefix⟩ | rfl | hfailed
  · obtain ⟨later, rfl⟩ : ∃ later, word = .uninitialized :: later := by
      obtain ⟨run, hrun, hword⟩ := mem_wholeRun_iff.1 hword
      obtain ⟨later, rfl⟩ := exists_cons_of_mem_completedRun hrun
      rcases hword with rfl | rfl <;> exact ⟨_, rfl⟩
    obtain ⟨first, more, rfl⟩ := List.exists_cons_of_ne_nil hne
    rw [(List.cons_prefix_cons.1 hprefix).1]
    exact ⟨more, rfl⟩
  · exact ⟨_, rfl⟩
  · rcases mem_failedRun_iff.1 hfailed with rfl | rfl | ⟨run, hrun, rfl⟩
    · exact ⟨_, rfl⟩
    · exact ⟨_, rfl⟩
    · obtain ⟨later, rfl⟩ := exists_cons_of_mem_completedRun hrun
      exact ⟨_, rfl⟩

/-- What a whole run begins with. -/
theorem isHistory_of_prefix (n : Nat) (h : stages <+: [.uninitialized, .configured, .running] ++ List.replicate n .running ++
    [.complete, .tornDown]) : IsHistory stages :=
  Or.inl ⟨_, mem_wholeRun_iff.2 ⟨_, mem_completedRun_iff.2 ⟨n, rfl⟩, Or.inl (by simp)⟩, h⟩

/-- A path from the first stage on is a history. -/
theorem IsPath.isHistory (h : IsPath (.uninitialized :: stages)) : IsHistory (.uninitialized :: stages) := by
  cases stages with
  | nil => exact isHistory_of_prefix 0 (by decide)
  | cons next stages =>
    obtain ⟨hpermits, hnext⟩ := isPath_cons_cons.1 h
    cases next with
    | delegated =>
      obtain rfl := hnext.eq_nil_of_isTerminal rfl
      exact Or.inr (Or.inl rfl)
    | failed =>
      obtain rfl := hnext.eq_nil_of_isTerminal rfl
      exact Or.inr (Or.inr (mem_failedRun_iff.2 (Or.inl rfl)))
    | configured =>
      cases stages with
      | nil => exact isHistory_of_prefix 0 (by decide)
      | cons next stages =>
        obtain ⟨hpermits, hnext⟩ := isPath_cons_cons.1 hnext
        cases next with
        | failed =>
          obtain rfl := hnext.eq_nil_of_isTerminal rfl
          exact Or.inr (Or.inr (mem_failedRun_iff.2 (Or.inr (Or.inl rfl))))
        | running =>
          obtain ⟨n, rest, rfl, rfl | rfl | ⟨last, hlast, rfl⟩⟩ := hnext.after_running
          · exact isHistory_of_prefix n ⟨[.complete, .tornDown], by simp⟩
          · exact isHistory_of_prefix n ⟨[.tornDown], by simp⟩
          · have hrun : [.uninitialized, .configured, .running] ++ List.replicate n .running ++ [.complete] ∈
                completedRun.matches' := mem_completedRun_iff.2 ⟨n, rfl⟩
            simp only [List.mem_cons, List.not_mem_nil, or_false] at hlast
            rcases hlast with rfl | rfl | rfl
            · exact isHistory_of_prefix n (by simp)
            · exact Or.inl ⟨_, mem_wholeRun_iff.2 ⟨_, hrun, Or.inr rfl⟩, by simp⟩
            · exact Or.inr (Or.inr (mem_failedRun_iff.2 (Or.inr (Or.inr ⟨_, hrun, by simp⟩))))
        | _ => cases hpermits
    | _ => cases hpermits

end Stage

end AccelFirmware
