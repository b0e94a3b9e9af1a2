import AccelFirmware.Proofs.Closing

/-!
# Interleavings

Sinks do not depend on one another. Steps that are taken in two orders, each sink seeing its own steps in one order, leave the same
streams and end the same way; only the order of functions on different sinks can tell the two apart.
-/

namespace AccelFirmware

/-- The steps of two histories are the same for every sink. -/
def SameBySink (log other : List EmitStep) : Prop :=
  ∀ sink, log.filter (·.sink = sink) = other.filter (·.sink = sink)

/-- Texts that differ in the order of functions on different sinks only. -/
structure EmittedText.Reordered (t u : EmittedText) : Prop where
  streams : t.streams = u.streams
  functions : t.functions.Perm u.functions
  bySink : ∀ sink, t.functions.filter (·.sink = sink) = u.functions.filter (·.sink = sink)

variable {log other : List EmitStep} {sink : Sink}

/-! ## Histories by sink -/

theorem SameBySink.mem_iff (h : SameBySink log other) (s : EmitStep) : s ∈ log ↔ s ∈ other := by
  have hfilter : s ∈ log.filter (·.sink = s.sink) ↔ s ∈ other.filter (·.sink = s.sink) := by rw [h]
  simpa [List.mem_filter] using hfilter

theorem SameBySink.mentions_iff (h : SameBySink log other) (name : String) : Mentions log name ↔ Mentions other name := by
  simp only [Mentions, h.mem_iff]

theorem EmitStep.sink_parts {step part : EmitStep} (h : part ∈ step.parts) : part.sink = step.sink := by
  cases step with
  | function s signature body result =>
    simp only [parts, List.mem_cons, List.not_mem_nil, or_false] at h
    rcases h with rfl | rfl | rfl <;> rfl
  | openUnit _ _ | closeUnit _ _ | push _ _ | raw _ _ =>
    obtain rfl := List.mem_singleton.1 h
    rfl

theorem filter_parts (log : List EmitStep) (sink : Sink) :
    (log.flatMap EmitStep.parts).filter (·.sink = sink) = (log.filter (·.sink = sink)).flatMap EmitStep.parts := by
  induction log with
  | nil => rfl
  | cons s log ih =>
    rw [List.flatMap_cons, List.filter_append, ih, List.filter_cons]
    by_cases hs : s.sink = sink
    · have hall : s.parts.filter (·.sink = sink) = s.parts :=
        List.filter_eq_self.2 fun part hpart => by simp [EmitStep.sink_parts hpart, hs]
      simp [hall, hs]
    · have hnone : s.parts.filter (·.sink = sink) = [] :=
        List.filter_eq_nil_iff.2 fun part hpart => by simp [EmitStep.sink_parts hpart, hs]
      simp [hnone, hs]

theorem SameBySink.parts (h : SameBySink log other) :
    SameBySink (log.flatMap EmitStep.parts) (other.flatMap EmitStep.parts) := by
  intro sink
  rw [filter_parts, filter_parts, h]

/-! ## Drafts by sink -/

namespace Draft

theorem step_of_ne {s : EmitStep} (h : s.sink ≠ sink) (d : Draft) : d.step sink s = d := by
  cases s <;> exact if_neg h

/-- A draft is made by the steps on its sink. -/
theorem run_filter (sink : Sink) (d : Draft) (log : List EmitStep) :
    d.run sink (log.filter (·.sink = sink)) = d.run sink log := by
  induction log generalizing d with
  | nil => rfl
  | cons s log ih =>
    rw [List.filter_cons]
    by_cases hs : s.sink = sink
    · simpa [run, hs] using ih (d.step sink s)
    · simpa [run, hs, step_of_ne hs] using ih d

def definitions (sink : Sink) (d : Draft) : List Definition :=
  (d.pieces.filterMap (Piece.function? sink)).map EmittedFunction.definition

theorem definitions_add (d : Draft) (fragment : Fragment) : (d.add fragment).definitions sink = d.definitions sink := by
  obtain ⟨pieces, unit⟩ := d
  cases unit <;> simp [add, definitions, Piece.function?]

variable {d : Draft} {e e' : Emitter}

/-- The functions that an emitter has defined on a sink are those of the draft, in the same order. -/
theorem definitions_step {s : EmitStep} (hs : s.isSingle = true) (he : e.step s = .ok e') (h : d.Shows (e.streams.get sink))
    (hd : e.defined.filter (·.sink = sink) = d.definitions sink) :
    e'.defined.filter (·.sink = sink) = (d.step sink s).definitions sink := by
  cases s with
  | function _ _ _ _ => cases hs
  | openUnit t signature =>
    rw [(Emitter.openUnit_eq_ok he).2.2.1, hd, step]
    split <;> rfl
  | closeUnit t result =>
    obtain ⟨signature, hopen, hdefined, -⟩ := Emitter.closeUnit_eq_ok he
    rw [hdefined, List.filter_append, hd]
    by_cases ht : t = sink
    · subst ht
      obtain ⟨⟨_, body⟩, hsome, rfl⟩ := Option.map_eq_some_iff.1 (h.unit.symm.trans hopen)
      simp [step, close, hsome, definitions, Piece.function?, EmittedFunction.definition]
    · simp [step, ht]
  | push t ops =>
    cases he
    rw [Emitter.defined_push, hd, step]
    split
    · rw [definitions_add]
    · rfl
  | raw t text =>
    cases he
    rw [Emitter.defined_raw, hd, step]
    split
    · rw [definitions_add]
    · rfl

theorem definitions_run (hs : ∀ s ∈ log, s.isSingle = true) (he : e.run log = .ok e') (h : d.Shows (e.streams.get sink))
    (hd : e.defined.filter (·.sink = sink) = d.definitions sink) :
    e'.defined.filter (·.sink = sink) = (d.run sink log).definitions sink := by
  induction log generalizing d e with
  | nil =>
    cases he
    exact hd
  | cons s log ih =>
    obtain ⟨hfirst, hrest⟩ := List.forall_mem_cons.1 hs
    obtain ⟨next, hstep, hrun⟩ := Emitter.run_cons_eq_ok he
    exact ih hrest hrun (shows_step hstep h) (definitions_step hfirst hstep h hd)

end Draft

/-! ## Emitters after two interleavings -/

namespace Emitter

variable {e f : Emitter}

theorem stream_eq (h : SameBySink log other) (he : empty.run log = .ok e) (hf : empty.run other = .ok f) (sink : Sink) :
    e.streams.get sink = f.streams.get sink := by
  have hempty : Draft.empty.Shows (empty.streams.get sink) := by
    constructor <;> simp [empty, Draft.empty, Draft.text]
  have hdraft : Draft.empty.run sink log = Draft.empty.run sink other := by
    rw [← Draft.run_filter, h, Draft.run_filter]
  obtain ⟨htext, hunit⟩ := Draft.shows_run he hempty
  obtain ⟨htext', hunit'⟩ := Draft.shows_run hf hempty
  rw [hdraft] at htext hunit
  exact (Stream.mk.injEq ..).mpr ⟨htext.trans htext'.symm, hunit.trans hunit'.symm⟩

theorem defined_filter_eq (h : SameBySink log other) (hs : ∀ s ∈ log, s.isSingle = true)
    (ho : ∀ s ∈ other, s.isSingle = true) (he : empty.run log = .ok e) (hf : empty.run other = .ok f) (sink : Sink) :
    e.defined.filter (·.sink = sink) = f.defined.filter (·.sink = sink) := by
  have hempty : Draft.empty.Shows (empty.streams.get sink) := by
    constructor <;> simp [empty, Draft.empty, Draft.text]
  rw [Draft.definitions_run hs he hempty rfl, Draft.definitions_run ho hf hempty rfl, ← Draft.run_filter, h,
    Draft.run_filter]

theorem defined_perm (h : ∀ sink, e.defined.filter (·.sink = sink) = f.defined.filter (·.sink = sink)) :
    e.defined.Perm f.defined := by
  refine List.perm_iff_count.2 fun d => ?_
  have hcount (ds : List Definition) : ds.count d = (ds.filter (·.sink = d.sink)).count d :=
    (List.count_filter (by simp)).symm
  rw [hcount, h, ← hcount]

theorem leftOpen?_congr (h : ∀ sink, e.streams.get sink = f.streams.get sink) : e.leftOpen? = f.leftOpen? := by
  simp only [leftOpen?, h]

/-- Which names are missing is a question of what is mentioned and what has been closed, not of the order. -/
theorem unresolved?_congr (h : SameBySink log other) (he : e.Holds log) (hf : f.Holds other)
    (hdefined : e.defined.Perm f.defined) : e.unresolved? = f.unresolved? := by
  have hmissing (name : String) : Missing log name ↔ Missing other name := by
    simp only [Missing, h.mentions_iff, ← he.defined, ← hf.defined, hdefined.mem_iff]
  refine Option.ext fun name => ?_
  simp only [unresolved?_eq_some_iff he, unresolved?_eq_some_iff hf, hmissing]

/-- Two interleavings of the same steps on every sink that are both taken as a whole have the same functions open, and are closed
with the same error or with the same streams and the same functions, which lie in the same order on every sink. -/
theorem interleavings_agree (h : SameBySink log other) (he : empty.run log = .ok e) (hf : empty.run other = .ok f) :
    (∀ sink, e.isOpen sink = f.isOpen sink) ∧
    ((∃ err, e.finish = .error err ∧ f.finish = .error err) ∨
      ∃ t u, e.finish = .ok t ∧ f.finish = .ok u ∧ t.Reordered u) := by
  have hstreams := stream_eq h he hf
  -- Functions as a whole are opened, filled and closed.
  have hsingle (steps : List EmitStep) : ∀ s ∈ steps.flatMap EmitStep.parts, s.isSingle = true := by
    intro s hs
    obtain ⟨_, -, hpart⟩ := List.mem_flatMap.1 hs
    exact EmitStep.isSingle_parts hpart
  have hparts := h.parts
  replace he := run_flatMap_parts he
  replace hf := run_flatMap_parts hf
  have hbySink := defined_filter_eq hparts (hsingle log) (hsingle other) he hf
  have hdefined := defined_perm hbySink
  have hleft := leftOpen?_congr hstreams
  have hnames := unresolved?_congr hparts (holds_run (hsingle log) he) (holds_run (hsingle other) hf) hdefined
  refine ⟨fun sink => by rw [isOpen, isOpen, hstreams], ?_⟩
  rw [finish, finish, hleft, hnames]
  cases f.leftOpen? with
  | some err => exact Or.inl ⟨err, rfl, rfl⟩
  | none =>
    cases f.unresolved? with
    | some name => exact Or.inl ⟨.unresolved name, rfl, rfl⟩
    | none =>
      refine Or.inr ⟨_, _, rfl, rfl, ?_, hdefined, hbySink⟩
      simp only [EmittedText.streams, PerSink.get_map, hstreams]

/-- A function on the main sink and one on the library's, one after the other. -/
def apart : List EmitStep :=
  [.openUnit .main (.procedure "f"), .raw .main "a\n", .closeUnit .main none,
    .function .api (.procedure "g") [.blank] none]

/-- The same two functions, the second one defined while the first one is open. -/
def nested : List EmitStep :=
  [.openUnit .main (.procedure "f"), .function .api (.procedure "g") [.blank] none, .raw .main "a\n",
    .closeUnit .main none]

/-- Both orders are taken, and only the order of the functions tells them apart. -/
theorem interleavings_agree_nested : SameBySink apart nested ∧
    ∃ e f t u, empty.run apart = .ok e ∧ empty.run nested = .ok f ∧ e.finish = .ok t ∧ f.finish = .ok u ∧
      t.Reordered u ∧ t.functions ≠ u.functions := by
  have hsame : SameBySink apart nested := by
    intro sink
    cases sink <;> rfl
  rcases (interleavings_agree hsame rfl rfl).2 with ⟨err, herr, -⟩ | ⟨t, u, ht, hu, hreordered⟩
  · cases herr
  · refine ⟨hsame, _, _, t, u, rfl, rfl, ht, hu, hreordered, ?_⟩
    rw [functions_of_finish ht, functions_of_finish hu]
    decide

end Emitter

end AccelFirmware
