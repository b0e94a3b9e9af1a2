import AccelFirmware.Proofs.StageHistories

/-!
# Records of runs

What a record holds after any events, of which it refuses some: its stages are a history, every fatal check that it took is
counted, and a stage that is terminal is the last one. Every history is the record of some run.
-/

namespace AccelFirmware

theorem LiveLifecycle.runOn_permitted (l : LiveLifecycle) (next : Stage) (changes : Recording Unit) :
    (permitted next changes).runOn l =
      if l.stage.permits next then changes.runOn l else (.error ⟨l.stage, next⟩, l) := by
  have hget : (permitted next changes).runOn l =
      (if l.stage.permits next then changes else throw ⟨l.stage, next⟩ : Recording Unit).runOn l := rfl
  rw [hget]
  split <;> rfl

namespace Lifecycle

/-! ## Records in place -/

/-- The record as it is kept in place. -/
def live (l : Lifecycle) : LiveLifecycle := ⟨l.stage, l.history, l.fatalChecks⟩

/-- A refused event leaves the record as it is. -/
def attempt (l : Lifecycle) (event : LifecycleEvent) : Lifecycle :=
  match l.step event with
  | .ok next => next
  | .error _ => l

def attempts (l : Lifecycle) (events : List LifecycleEvent) : Lifecycle := events.foldl attempt l

/-- An event in place answers as the event does, and leaves what the event leaves if it is not refused and nothing if it is. -/
theorem perform_live (l : Lifecycle) (event : LifecycleEvent) :
    l.live.perform event = ((l.step event).map fun _ => (), (l.attempt event).live) := by
  have hstage (next : Stage) : l.live.stage.permits next = l.stage.permits next := rfl
  cases event with
  | advance next =>
    rw [LiveLifecycle.perform, LiveLifecycle.action, LiveLifecycle.advance, LiveLifecycle.runOn_permitted, attempt, step, hstage]
    split <;> rfl
  | fatalCheck =>
    rw [LiveLifecycle.perform, LiveLifecycle.action, LiveLifecycle.fatalCheck, LiveLifecycle.runOn_permitted, attempt, step,
      hstage]
    split <;> rfl

theorem after_live (l : Lifecycle) (events : List LifecycleEvent) : l.live.after events = (l.attempts events).live := by
  induction events generalizing l with
  | nil => rfl
  | cons event events ih =>
    rw [LiveLifecycle.after, List.foldl_cons, perform_live]
    exact ih (l.attempt event)

theorem answers_live_cons (l : Lifecycle) (event : LifecycleEvent) (events : List LifecycleEvent) :
    l.live.answers (event :: events) = (l.step event).map (fun _ => ()) :: (l.attempt event).live.answers events := by
  rw [LiveLifecycle.answers, perform_live]

/-! ## Single events -/

/-- An event is refused, or it is a move or a check that the stage permits. -/
theorem step_cases (l : Lifecycle) (event : LifecycleEvent) :
    (∃ err, l.step event = .error err) ∨
    (∃ next, event = .advance next ∧ l.stage.permits next = true ∧ l.step event = .ok ⟨l.history, next, l.fatalChecks⟩) ∨
    (event = .fatalCheck ∧ l.stage.permits .failed = true ∧
      l.step event = .ok ⟨l.passed, l.stage, l.fatalChecks + 1⟩) := by
  cases event with
  | advance next =>
    by_cases hpermits : l.stage.permits next = true
    · exact Or.inr (Or.inl ⟨next, rfl, hpermits, if_pos hpermits⟩)
    · exact Or.inl ⟨_, if_neg hpermits⟩
  | fatalCheck =>
    by_cases hpermits : l.stage.permits .failed = true
    · exact Or.inr (Or.inr ⟨rfl, hpermits, if_pos hpermits⟩)
    · exact Or.inl ⟨_, if_neg hpermits⟩

variable {l : Lifecycle} {event : LifecycleEvent}

theorem attempt_of_error {err : TransitionError} (h : l.step event = .error err) : l.attempt event = l := by
  rw [attempt, h]

theorem attempt_of_ok {next : Lifecycle} (h : l.step event = .ok next) : l.attempt event = next := by
  rw [attempt, h]

/-- What a refusal leaves is the record as it was. -/
theorem perform_live_error {err : TransitionError} (h : (l.live.perform event).1 = .error err) :
    (l.live.perform event).2 = l.live := by
  rw [perform_live] at h ⊢
  cases hstep : l.step event with
  | error e => rw [attempt_of_error hstep]
  | ok next =>
    rw [hstep] at h
    cases h

theorem perform_live_fatalCheck : (l.live.perform .fatalCheck).1 = .ok () ↔ l.stage.permits .failed = true := by
  rw [perform_live]
  constructor
  · intro hok
    by_contra hrefused
    have hstep : l.step .fatalCheck = .error ⟨l.stage, .failed⟩ := if_neg hrefused
    rw [hstep] at hok
    cases hok
  · intro hpermits
    have hstep : l.step .fatalCheck = .ok ⟨l.passed, l.stage, l.fatalChecks + 1⟩ := if_pos hpermits
    rw [hstep]
    rfl

theorem step_of_isTerminal (h : l.stage.isTerminal = true) (event : LifecycleEvent) : ∃ err, l.step event = .error err := by
  obtain herr | ⟨next, -, hpermits, -⟩ | ⟨-, hpermits, -⟩ := l.step_cases event
  · exact herr
  · rw [Stage.permits_eq_false_of_isTerminal h] at hpermits
    cases hpermits
  · rw [Stage.permits_eq_false_of_isTerminal h] at hpermits
    cases hpermits

/-! ## Histories -/

/-- The stages of the record are a path from the first one on. -/
structure Tracked (l : Lifecycle) : Prop where
  path : Stage.IsPath l.history
  first : l.history.head? = some .uninitialized

theorem tracked_start : start.Tracked := ⟨List.IsChain.singleton _, rfl⟩

theorem Tracked.attempt (h : l.Tracked) (event : LifecycleEvent) : (l.attempt event).Tracked := by
  obtain ⟨err, hstep⟩ | ⟨next, -, hpermits, hstep⟩ | ⟨-, -, hstep⟩ := l.step_cases event
  · rwa [attempt_of_error hstep]
  · rw [attempt_of_ok hstep]
    refine ⟨List.isChain_append.2 ⟨h.path, List.IsChain.singleton _, ?_⟩, ?_⟩
    · simpa [history] using hpermits
    · change (l.history ++ [next]).head? = _
      rw [List.head?_append, h.first]
      rfl
  · rw [attempt_of_ok hstep]
    exact ⟨h.path, h.first⟩

theorem Tracked.attempts (h : l.Tracked) (events : List LifecycleEvent) : (l.attempts events).Tracked := by
  induction events generalizing l with
  | nil => exact h
  | cons event events ih => exact ih (h.attempt event)

theorem Tracked.isHistory (h : l.Tracked) : Stage.IsHistory l.history := by
  obtain ⟨later, hlater⟩ := List.head?_eq_some_iff.1 h.first
  have hpath := h.path
  rw [hlater] at hpath ⊢
  exact hpath.isHistory

/-- A path from the stage of a record on is taken as it is. -/
theorem attempts_path {stages : List Stage} (h : Stage.IsPath (l.stage :: stages)) :
    (l.attempts (stages.map .advance)).history = l.history ++ stages ∧
      ∀ answer ∈ l.live.answers (stages.map .advance), answer = .ok () := by
  induction stages generalizing l with
  | nil => exact ⟨(List.append_nil _).symm, by simp [LiveLifecycle.answers]⟩
  | cons next stages ih =>
    obtain ⟨hpermits, hrest⟩ := Stage.isPath_cons_cons.1 h
    have hstep : l.step (.advance next) = .ok ⟨l.history, next, l.fatalChecks⟩ := if_pos hpermits
    obtain ⟨hhistory, hanswers⟩ := ih (l := ⟨l.history, next, l.fatalChecks⟩) hrest
    constructor
    · rw [List.map_cons, Lifecycle.attempts, List.foldl_cons, attempt_of_ok hstep]
      exact hhistory.trans (by simp [history])
    · rw [List.map_cons, answers_live_cons, attempt_of_ok hstep, hstep]
      exact List.forall_mem_cons.2 ⟨rfl, hanswers⟩

/-! ## Fatal checks -/

/-- Fatal checks among some events that have not been refused. -/
def takenChecks (events : List LifecycleEvent) (answers : List (Except TransitionError Unit)) : Nat :=
  (events.zip answers).countP fun pair => pair.1 = .fatalCheck && pair.2.isOk

theorem fatalChecks_attempt (l : Lifecycle) (event : LifecycleEvent) :
    (l.attempt event).fatalChecks =
      l.fatalChecks + if event = .fatalCheck ∧ (l.step event).isOk = true then 1 else 0 := by
  obtain ⟨err, hstep⟩ | ⟨next, rfl, -, hstep⟩ | ⟨rfl, -, hstep⟩ := l.step_cases event
  · rw [attempt_of_error hstep, hstep]
    simp [Except.isOk, Except.toBool]
  · rw [attempt_of_ok hstep]
    simp
  · rw [attempt_of_ok hstep, hstep]
    simp [Except.isOk, Except.toBool]

theorem fatalChecks_attempts (l : Lifecycle) (events : List LifecycleEvent) :
    (l.attempts events).fatalChecks = l.fatalChecks + takenChecks events (l.live.answers events) := by
  induction events generalizing l with
  | nil => rfl
  | cons event events ih =>
    have hanswer : ((l.step event).map fun _ => ()).isOk = (l.step event).isOk := by
      cases l.step event <;> rfl
    calc (l.attempts (event :: events)).fatalChecks
        = (l.attempt event).fatalChecks + takenChecks events ((l.attempt event).live.answers events) := ih (l.attempt event)
      _ = l.fatalChecks + takenChecks (event :: events) (l.live.answers (event :: events)) := by
        rw [fatalChecks_attempt, answers_live_cons, takenChecks, takenChecks, List.zip_cons_cons, List.countP_cons, hanswer]
        simp only [Bool.and_eq_true, decide_eq_true_eq]
        omega

/-! ## Ends -/

theorem attempts_of_isTerminal (h : l.stage.isTerminal = true) (events : List LifecycleEvent) :
    ∀ answer ∈ l.live.answers events, answer.isOk = false := by
  induction events with
  | nil => simp [LiveLifecycle.answers]
  | cons event events ih =>
    obtain ⟨err, hstep⟩ := step_of_isTerminal h event
    rw [answers_live_cons, attempt_of_error hstep, hstep]
    exact List.forall_mem_cons.2 ⟨rfl, ih⟩

end Lifecycle

namespace LiveLifecycle

/-- After any events, refused ones among them: a refusal changes nothing, the stage is the last one of the history, the stages are
a history, the count is that of the checks that were taken, which are taken at three of the stages, and once the stage is terminal
everything is refused. There is a record of every history, and it takes nothing else to get there. -/
theorem records_histories :
    (∀ events : List LifecycleEvent,
      (∀ event err, ((start.after events).perform event).1 = .error err →
        ((start.after events).perform event).2 = start.after events) ∧
      (start.after events).history.getLast? = some (start.after events).stage ∧
      Stage.IsHistory (start.after events).history ∧
      (start.after events).fatalChecks = Lifecycle.takenChecks events (start.answers events) ∧
      (((start.after events).perform .fatalCheck).1 = .ok () ↔
        (start.after events).stage ∈ [Stage.uninitialized, .configured, .complete]) ∧
      ((start.after events).stage.isTerminal = true →
        ∀ more, ∀ answer ∈ (start.after events).answers more, answer.isOk = false)) ∧
    ∀ stages, Stage.IsHistory stages → stages ≠ [] →
      ∃ events, (start.after events).history = stages ∧ ∀ answer ∈ start.answers events, answer = .ok () := by
  have hstart : start = Lifecycle.start.live := rfl
  constructor
  · intro events
    obtain ⟨l, hl⟩ : ∃ l, l = Lifecycle.start.attempts events := ⟨_, rfl⟩
    have hafter : start.after events = l.live := by rw [hstart, Lifecycle.after_live, hl]
    rw [hafter]
    refine ⟨fun event err => Lifecycle.perform_live_error, List.getLast?_concat, ?_, ?_, ?_, fun hterminal =>
      Lifecycle.attempts_of_isTerminal hterminal⟩
    · exact hl ▸ (Lifecycle.tracked_start.attempts events).isHistory
    · exact hl ▸ (Lifecycle.fatalChecks_attempts .start events).trans (Nat.zero_add _)
    · exact Lifecycle.perform_live_fatalCheck.trans (Stage.permits_failed_iff l.stage)
  · intro stages hhistory hne
    obtain ⟨later, rfl⟩ := hhistory.exists_cons hne
    obtain ⟨hstages, hanswers⟩ := Lifecycle.attempts_path (l := .start) hhistory.isPath
    refine ⟨later.map .advance, ?_, hanswers⟩
    rw [hstart, Lifecycle.after_live]
    exact hstages

/-- A run that is torn down and then offered more, with a check that comes too late. -/
def tornDownEvents : List LifecycleEvent :=
  [.fatalCheck, .advance .configured, .advance .running, .fatalCheck, .advance .running, .advance .complete, .fatalCheck,
   .advance .tornDown, .advance .running]

theorem records_histories_torn_down :
    ((start.after tornDownEvents).stage.isTerminal = true ∧
      (start.after tornDownEvents).fatalChecks = Lifecycle.takenChecks tornDownEvents (start.answers tornDownEvents) ∧
      ∀ more, ∀ answer ∈ (start.after tornDownEvents).answers more, answer.isOk = false) ∧
    (Stage.IsHistory [.uninitialized, .configured, .running, .running] ∧
      ∃ events, (start.after events).history = [.uninitialized, .configured, .running, .running] ∧
        ∀ answer ∈ start.answers events, answer = .ok ()) := by
  obtain ⟨-, -, -, hchecks, -, hends⟩ := records_histories.1 tornDownEvents
  have hterminal : (start.after tornDownEvents).stage.isTerminal = true := by decide
  have hhistory : Stage.IsHistory [.uninitialized, .configured, .running, .running] := Stage.isHistory_of_prefix 1 (by decide)
  exact ⟨⟨hterminal, hchecks, hends hterminal⟩, hhistory, records_histories.2 _ hhistory (by simp)⟩

/-- Of two checks, the one in a run is not counted. -/
example : (start.after [.fatalCheck, .advance .configured, .advance .running, .fatalCheck]).fatalChecks = 1 := by decide

end LiveLifecycle

end AccelFirmware
