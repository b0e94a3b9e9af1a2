import AccelFirmware.Proofs.Histories

/-!
# Closing an emitter

When an emitter can be finished, what is in the way when it cannot, and what its sources consist of when it can. All three are
questions about the steps that it has taken.
-/

namespace AccelFirmware

/-! ## Least names -/

namespace Emitter

variable {names : List String} {name : String}

/-- The least of some names is one of them, and none of them is less. -/
theorem leastName?_eq_some (h : leastName? names = some name) : name ∈ names ∧ ∀ other ∈ names, name ≤ other := by
  induction names generalizing name with
  | nil => cases h
  | cons head names ih =>
    simp only [leastName?] at h
    cases hleast : leastName? names with
    | none =>
      rw [hleast] at h
      cases h
      rw [leastName?_eq_none_iff.1 hleast]
      exact ⟨List.mem_singleton_self head, by simp⟩
    | some least =>
      obtain ⟨hmem, hall⟩ := ih hleast
      rw [hleast] at h
      by_cases hlt : head < least
      · obtain rfl : head = name := by simpa [hlt] using h
        have hle : head ≤ least := String.not_lt.1 (String.lt_asymm hlt)
        exact ⟨List.mem_cons_self, List.forall_mem_cons.2 ⟨String.le_refl head, fun other ho =>
          String.le_trans hle (hall other ho)⟩⟩
      · obtain rfl : least = name := by simpa [hlt] using h
        exact ⟨List.mem_cons_of_mem head hmem, List.forall_mem_cons.2 ⟨String.not_lt.1 hlt, hall⟩⟩

theorem leastName?_eq_some_iff : leastName? names = some name ↔ name ∈ names ∧ ∀ other ∈ names, name ≤ other := by
  constructor
  · exact leastName?_eq_some
  · rintro ⟨hmem, hall⟩
    cases hleast : leastName? names with
    | none =>
      rw [leastName?_eq_none_iff.1 hleast] at hmem
      cases hmem
    | some least =>
      obtain ⟨hleastMem, hleastAll⟩ := leastName?_eq_some hleast
      rw [String.le_antisymm (hall least hleastMem) (hleastAll name hmem)]

end Emitter

/-! ## Brackets and names of a history -/

/-- The next bracket after every opening is a closing on its sink. -/
def Matched (log : List EmitStep) : Prop :=
  ∀ before sink signature after, log = before ++ .openUnit sink signature :: after →
    ∃ inside result rest, after = inside ++ .closeUnit sink result :: rest ∧ ∀ s ∈ inside, s.brackets sink = false

/-- A function that is referred to has not been closed on any sink. -/
def Missing (log : List EmitStep) (name : String) : Prop :=
  Mentions log name ∧ ∀ sink, ¬ ClosesName log sink name

/-- What is left open on the first sink on which something is left open. -/
def FirstOpen (log : List EmitStep) (err : EmitError) : Prop :=
  ∃ before sink after signature, Sink.all = before ++ sink :: after ∧
    (∀ earlier ∈ before, ∀ other, ¬ LeavesOpen log earlier other) ∧ LeavesOpen log sink signature ∧
    err = .leftOpen sink signature.name

/-- The alphabetically first name that is missing. -/
def FirstMissing (log : List EmitStep) (err : EmitError) : Prop :=
  ∃ name, Missing log name ∧ (∀ other, Missing log other → name ≤ other) ∧ err = .unresolved name

variable {log : List EmitStep}

namespace Emitter

variable {e : Emitter} {err : EmitError} {text : EmittedText}

/-- Everything is matched as soon as nothing is left open. -/
theorem matched_iff (hs : ∀ s ∈ log, s.isSingle = true) (h : empty.run log = .ok e) :
    Matched log ↔ ∀ sink signature, ¬ LeavesOpen log sink signature := by
  constructor
  · rintro hmatched sink signature ⟨before, after, hlog, hquiet⟩
    obtain ⟨inside, result, rest, rfl, -⟩ := hmatched before sink signature after hlog
    simpa [EmitStep.brackets] using hquiet (.closeUnit sink result) (by simp)
  · rintro hnone before sink signature after rfl
    have hopen : LeavesOpen (before ++ [.openUnit sink signature]) sink signature := ⟨before, [], rfl, by simp⟩
    rw [List.append_cons] at hs h hnone
    exact (open_or_closed hs h hopen).resolve_left (hnone sink signature)

theorem Holds.unit_eq_none_iff (he : e.Holds log) (sink : Sink) :
    (e.streams.get sink).unit = none ↔ ∀ signature, ¬ LeavesOpen log sink signature := by
  simp only [Option.eq_none_iff_forall_ne_some, ne_eq, he.unit]

theorem leftOpen?_eq_none_iff (he : e.Holds log) :
    e.leftOpen? = none ↔ ∀ sink signature, ¬ LeavesOpen log sink signature := by
  simp only [leftOpen?, List.findSome?_eq_none_iff, Option.map_eq_none_iff, he.unit_eq_none_iff]
  exact ⟨fun hnone sink => hnone sink (Sink.mem_all sink), fun hnone sink _ => hnone sink⟩

theorem leftOpen?_eq_some_iff (he : e.Holds log) : e.leftOpen? = some err ↔ FirstOpen log err := by
  simp only [leftOpen?, List.findSome?_eq_some_iff, Option.map_eq_some_iff, Option.map_eq_none_iff, he.unit_eq_none_iff,
    he.unit, FirstOpen]
  constructor
  · rintro ⟨before, sink, after, hall, ⟨signature, hopen, rfl⟩, hearlier⟩
    exact ⟨before, sink, after, signature, hall, hearlier, hopen, rfl⟩
  · rintro ⟨before, sink, after, signature, hall, hearlier, hopen, rfl⟩
    exact ⟨before, sink, after, hall, ⟨signature, hopen, rfl⟩, hearlier⟩

theorem mem_unresolved_iff (he : e.Holds log) (name : String) :
    name ∈ e.referenced.filter (fun name => !e.defines name) ↔ Missing log name := by
  rw [List.mem_filter, he.referenced, Missing, Bool.not_eq_true', ← Bool.not_eq_true, he.defines_iff, not_exists]

theorem unresolved?_eq_none_iff (he : e.Holds log) : e.unresolved? = none ↔ ∀ name, ¬ Missing log name := by
  rw [unresolved?, leastName?_eq_none_iff, List.eq_nil_iff_forall_not_mem]
  exact forall_congr' fun name => not_congr (mem_unresolved_iff he name)

theorem unresolved?_eq_some_iff (he : e.Holds log) (name : String) :
    e.unresolved? = some name ↔ Missing log name ∧ ∀ other, Missing log other → name ≤ other := by
  simp only [unresolved?, leastName?_eq_some_iff, mem_unresolved_iff he]

end Emitter

/-! ## Pieces and their steps -/

def Fragment.step (sink : Sink) : Fragment → EmitStep
  | .code ops => .push sink ops
  | .raw text => .raw sink text

/-- The steps that make a piece of a source. -/
def Piece.steps (sink : Sink) : Piece → List EmitStep
  | .loose fragment => [fragment.step sink]
  | .function signature body result =>
      .openUnit sink signature :: body.map (Fragment.step sink) ++ [.closeUnit sink result]

namespace Draft

/-- The steps that make a draft. -/
def steps (sink : Sink) (d : Draft) : List EmitStep :=
  d.pieces.flatMap (Piece.steps sink) ++
    match d.unit with
    | none => []
    | some (signature, body) => .openUnit sink signature :: body.map (Fragment.step sink)

variable {d : Draft} {sink : Sink} {e e' : Emitter}

theorem steps_add (d : Draft) (sink : Sink) (fragment : Fragment) :
    (d.add fragment).steps sink = d.steps sink ++ [fragment.step sink] := by
  obtain ⟨pieces, unit⟩ := d
  cases unit <;> simp [add, steps, Piece.steps]

/-- A draft grows by the steps on its sink. -/
theorem steps_step {s : EmitStep} (hs : s.isSingle = true) (h : d.Shows (e.streams.get sink)) (he : e.step s = .ok e') :
    (d.step sink s).steps sink = d.steps sink ++ [s].filter (·.sink = sink) := by
  cases s with
  | function _ _ _ _ => cases hs
  | openUnit t signature =>
    by_cases ht : t = sink
    · subst ht
      have hnone : d.unit = none := by
        have hunit := h.unit
        rw [(Emitter.openUnit_eq_ok he).1] at hunit
        exact Option.map_eq_none_iff.1 hunit.symm
      simp [step, steps, hnone, EmitStep.sink]
    · simp [step, EmitStep.sink, ht]
  | closeUnit t result =>
    by_cases ht : t = sink
    · subst ht
      obtain ⟨signature, hopen, -⟩ := Emitter.closeUnit_eq_ok he
      have hunit := h.unit
      rw [hopen] at hunit
      obtain ⟨⟨_, body⟩, hsome, -⟩ := Option.map_eq_some_iff.1 hunit.symm
      simp [step, close, steps, hsome, Piece.steps, EmitStep.sink]
    · simp [step, EmitStep.sink, ht]
  | push t ops =>
    by_cases ht : t = sink
    · simp [step, EmitStep.sink, ht, steps_add, Fragment.step]
    · simp [step, EmitStep.sink, ht]
  | raw t text =>
    by_cases ht : t = sink
    · simp [step, EmitStep.sink, ht, steps_add, Fragment.step]
    · simp [step, EmitStep.sink, ht]

theorem steps_run {log : List EmitStep} (hs : ∀ s ∈ log, s.isSingle = true) (h : d.Shows (e.streams.get sink))
    (he : e.run log = .ok e') : (d.run sink log).steps sink = d.steps sink ++ log.filter (·.sink = sink) := by
  induction log generalizing d e with
  | nil => simp [run]
  | cons s log ih =>
    obtain ⟨hfirst, hrest⟩ := List.forall_mem_cons.1 hs
    obtain ⟨next, hstep, hrun⟩ := Emitter.run_cons_eq_ok he
    rw [run, List.foldl_cons]
    refine (ih hrest (shows_step hstep h) hrun).trans ?_
    rw [steps_step hfirst h hstep, List.append_assoc, ← List.filter_append, List.singleton_append]

end Draft

/-! ## Streams -/

theorem EmittedText.mem_streams_iff (t : EmittedText) (sink : Sink) (text : String) :
    (sink, text) ∈ t.streams ↔ text = t.texts.get sink ∧ text ≠ "" := by
  simp only [streams, List.mem_filter, List.mem_map, Prod.mk.injEq]
  constructor
  · rintro ⟨⟨_, _, rfl, rfl⟩, htext⟩
    exact ⟨rfl, by simpa using htext⟩
  · rintro ⟨rfl, htext⟩
    exact ⟨⟨sink, Sink.mem_all sink, rfl, rfl⟩, by simpa using htext⟩

/-! ## The law -/

/-- What closing an emitter comes to after a history: whether it succeeds, which error it reports and what the streams are. -/
structure Settles (log : List EmitStep) (outcome : Except EmitError EmittedText) : Prop where
  succeeds : (∃ text, outcome = .ok text) ↔ Matched log ∧ ∀ name, Mentions log name → ∃ sink, ClosesName log sink name
  fails : ∀ err, outcome = .error err ↔ FirstOpen log err ∨ Matched log ∧ FirstMissing log err
  writes : ∀ text, outcome = .ok text → ∀ sink, ∃ pieces,
    log.filter (·.sink = sink) = pieces.flatMap (Piece.steps sink) ∧
      ∀ stream, (sink, stream) ∈ text.streams ↔ stream = Piece.renderAll pieces ∧ stream ≠ ""

namespace Emitter

variable {e : Emitter} {err : EmitError} {text : EmittedText}

theorem finish_eq_ok_iff : (∃ text, e.finish = .ok text) ↔ e.leftOpen? = none ∧ e.unresolved? = none := by
  rw [finish]
  cases e.leftOpen? <;> cases e.unresolved? <;> simp

theorem finish_eq_error_iff : e.finish = .error err ↔
    e.leftOpen? = some err ∨ e.leftOpen? = none ∧ ∃ name, e.unresolved? = some name ∧ err = .unresolved name := by
  rw [finish]
  cases e.leftOpen? <;> cases e.unresolved? <;> simp [eq_comm]

/-- Where nothing is open, the steps on a sink are those of the pieces that it shows. -/
theorem pieces_of_finish (hs : ∀ s ∈ log, s.isSingle = true) (h : empty.run log = .ok e) (htext : e.finish = .ok text)
    (sink : Sink) : ∃ pieces, log.filter (·.sink = sink) = pieces.flatMap (Piece.steps sink) ∧
      text.texts.get sink = Piece.renderAll pieces := by
  have hempty : Draft.empty.Shows (empty.streams.get sink) := by
    constructor <;> simp [empty, Draft.empty, Draft.text]
  have hnone : (Draft.empty.run sink log).unit = none := by
    have hunit := (Draft.shows_run h hempty).unit
    rw [closed_of_finish htext sink] at hunit
    exact Option.map_eq_none_iff.1 hunit.symm
  have hsteps : (Draft.empty.run sink log).steps sink = log.filter (·.sink = sink) := Draft.steps_run hs hempty h
  refine ⟨(Draft.empty.run sink log).pieces, ?_, Draft.texts_of_finish h htext sink⟩
  rw [← hsteps, Draft.steps, hnone, List.append_nil]

/-- Whatever steps an emitter is offered, closing it comes to what its history says. -/
theorem finish_settles (steps : List EmitStep) : Settles (history steps) (empty.attempts steps).finish := by
  have hsingle : ∀ s ∈ history steps, s.isSingle = true := fun _ => isSingle_history
  have hrun := run_history steps
  have hholds := holds_attempts steps
  have hmatched : (empty.attempts steps).leftOpen? = none ↔ Matched (history steps) :=
    (leftOpen?_eq_none_iff hholds).trans (matched_iff hsingle hrun).symm
  constructor
  · rw [finish_eq_ok_iff, hmatched, unresolved?_eq_none_iff hholds]
    simp only [Missing, not_and, not_forall, not_not]
  · intro err
    rw [finish_eq_error_iff, hmatched, leftOpen?_eq_some_iff hholds]
    simp only [unresolved?_eq_some_iff hholds, FirstMissing, and_assoc]
  · intro text htext sink
    obtain ⟨pieces, hpieces, htexts⟩ := pieces_of_finish hsingle hrun htext sink
    refine ⟨pieces, hpieces, fun stream => ?_⟩
    rw [EmittedText.mem_streams_iff, htexts]

end Emitter

end AccelFirmware
