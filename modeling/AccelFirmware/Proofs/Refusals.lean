import AccelFirmware.Emission.InPlace
import AccelFirmware.Proofs.Histories

/-!
# Refused steps

A step that is refused may have changed an emitter in place before it was refused. None of that can be seen: the emitter answers
every question as if the step had not been offered. Only openings and closings are refused, and a function as a whole is refused
by its opening or not at all.
-/

namespace AccelFirmware

/-! ## Actions on an emitter -/

namespace Emitting

variable {α β : Type} {e e' : LiveEmitter}

theorem runOn_bind (action : Emitting α) (next : α → Emitting β) (e : LiveEmitter) :
    runOn (action >>= next) e =
      match runOn action e with
      | (.ok a, between) => runOn (next a) between
      | (.error err, between) => (.error err, between) := by
  simp only [runOn, ExceptT.run, bind, ExceptT.bind, ExceptT.mk, StateT.run, StateT.bind, ExceptT.bindCont]
  rcases action e with ⟨error | a, between⟩ <;> rfl

theorem runOn_bind_ok {action : Emitting α} {a : α} (h : runOn action e = (.ok a, e')) (next : α → Emitting β) :
    runOn (action >>= next) e = runOn (next a) e' := by
  rw [runOn_bind, h]

theorem runOn_bind_error {action : Emitting α} {err : EmitError} (h : runOn action e = (.error err, e'))
    (next : α → Emitting β) : runOn (action >>= next) e = (.error err, e') := by
  rw [runOn_bind, h]

end Emitting

namespace Emitter

theorem raw_empty (e : Emitter) (s : Sink) : e.raw s "" = e := by
  rw [raw, String.append_empty, PerSink.set_get_self]

theorem raw_raw (e : Emitter) (s : Sink) (text more : String) : (e.raw s text).raw s more = e.raw s (text ++ more) := by
  simp only [raw, PerSink.get_set_self, PerSink.set_set, String.append_assoc]

theorem push_nil (e : Emitter) (s : Sink) : e.push s [] = e := by
  have htext : Operation.renderAll [] (e.depth s) = "" := rfl
  rw [push, htext, raw_empty, Operation.referencesOfAll, List.append_nil]

/-- Operations one by one are the same as all at once. -/
theorem push_cons (e : Emitter) (s : Sink) (op : Operation) (ops : List Operation) :
    (e.push s [op]).push s ops = e.push s (op :: ops) := by
  have hdepth : (e.push s [op]).depth s = e.depth s := by
    rw [depth, depth, isOpen, isOpen, unit_push]
  have hstreams : ((e.push s [op]).push s ops).streams = (e.push s (op :: ops)).streams := by
    calc ((e.push s [op]).push s ops).streams
        = ((e.raw s (Operation.renderAll [op] (e.depth s))).raw s (Operation.renderAll ops (e.depth s))).streams := by
          rw [push, hdepth]
          rfl
      _ = (e.push s (op :: ops)).streams := by
          rw [raw_raw, ← Operation.renderAll_append]
          rfl
  have hreferenced : ((e.push s [op]).push s ops).referenced = (e.push s (op :: ops)).referenced := by
    simp only [referenced_push, Operation.referencesOfAll, List.append_nil, List.append_assoc]
  exact (Emitter.mk.injEq ..).mpr ⟨hstreams, rfl, hreferenced⟩

end Emitter

namespace LiveEmitter

/-- What can be seen of a live emitter: a stream that is not there is like one that is empty. -/
def settled (e : LiveEmitter) : Emitter := ⟨e.streams.map (·.getD ⟨"", none⟩), e.defined, e.referenced⟩

variable {e e' : LiveEmitter} {s : Sink}

@[simp] theorem settled_empty : empty.settled = Emitter.empty := rfl

theorem isOpen_settled (e : LiveEmitter) (s : Sink) : e.settled.isOpen s = e.isOpen s := by
  rw [Emitter.isOpen, settled, PerSink.get_map, isOpen]
  cases e.streams.get s <;> rfl

theorem leftOpen?_settled (e : LiveEmitter) : e.settled.leftOpen? = e.leftOpen? := by
  rw [Emitter.leftOpen?, leftOpen?]
  congr 1
  funext s
  rw [settled, PerSink.get_map]
  cases e.streams.get s <;> rfl

theorem finish_settled (e : LiveEmitter) : e.settled.finish = e.finish := by
  have htexts : e.settled.streams.map (·.text) = e.streams.map fun stream => (stream.map (·.text)).getD "" := by
    simp only [settled, PerSink.map_map]
    congr 1
    funext stream
    cases stream <;> rfl
  rw [Emitter.finish, finish, leftOpen?_settled, htexts]
  rfl

/-! ## Single changes -/

/-- A stream that is asked for is there afterwards, which cannot be seen. -/
theorem runOn_stream (e : LiveEmitter) (s : Sink) :
    ∃ e', (stream s).runOn e = (.ok (e.settled.streams.get s), e') ∧ e'.settled = e.settled := by
  refine ⟨{ e with streams := e.streams.set s (some ((e.streams.get s).getD ⟨"", none⟩)) }, ?_, ?_⟩
  · rw [settled, PerSink.get_map]
    rfl
  · have hstream : (e.streams.get s).getD ⟨"", none⟩ = e.settled.streams.get s := by
      rw [settled, PerSink.get_map]
    rw [settled, PerSink.map_set, Option.getD_some, hstream]
    exact congrArg (Emitter.mk · e.defined e.referenced) (PerSink.set_get_self _ s)

theorem runOn_setStream (e : LiveEmitter) (s : Sink) (stream : Stream) :
    ∃ e', (setStream s stream).runOn e = (.ok (), e') ∧
      e'.settled = { e.settled with streams := e.settled.streams.set s stream } := by
  refine ⟨{ e with streams := e.streams.set s (some stream) }, rfl, ?_⟩
  rw [settled, PerSink.map_set]
  rfl

theorem runOn_raw (e : LiveEmitter) (s : Sink) (text : String) :
    ∃ e', (raw s text).runOn e = (.ok (), e') ∧ e'.settled = e.settled.raw s text := by
  obtain ⟨e₁, hstream, hsettled⟩ := runOn_stream e s
  obtain ⟨e₂, hset, hsettled₂⟩ := runOn_setStream e₁ s
    { e.settled.streams.get s with text := (e.settled.streams.get s).text ++ text }
  refine ⟨e₂, (Emitting.runOn_bind_ok hstream _).trans hset, ?_⟩
  rw [hsettled₂, hsettled]
  rfl

theorem runOn_pushOne (e : LiveEmitter) (s : Sink) (op : Operation) :
    ∃ e', (pushOne s op).runOn e = (.ok (), e') ∧ e'.settled = e.settled.push s [op] := by
  let noted : LiveEmitter := { e with referenced := e.referenced ++ op.references }
  have hnoted : noted.settled = { e.settled with referenced := e.settled.referenced ++ op.references } := rfl
  obtain ⟨e₁, hstream, hsettled⟩ := runOn_stream noted s
  obtain ⟨e₂, hraw, hsettled₂⟩ := runOn_raw e₁ s
    (op.render (if (noted.settled.streams.get s).unit.isSome then 1 else 0))
  refine ⟨e₂, ?_, ?_⟩
  · have hstart : (pushOne s op).runOn e =
        Emitting.runOn (do
          let current ← stream s
          raw s (op.render (if current.unit.isSome then 1 else 0))) noted := rfl
    rw [hstart, Emitting.runOn_bind_ok hstream, hraw]
  · have htext (depth : Nat) : Operation.renderAll [op] depth = op.render depth := by
      rw [Operation.renderAll, Operation.linesOfAll, Operation.linesOfAll, List.append_nil, Operation.render]
    rw [hsettled₂, hsettled, hnoted, Emitter.push, htext, Operation.referencesOfAll, Operation.referencesOfAll,
      List.append_nil]
    rfl

theorem runOn_push (e : LiveEmitter) (s : Sink) (ops : List Operation) :
    ∃ e', (push s ops).runOn e = (.ok (), e') ∧ e'.settled = e.settled.push s ops := by
  induction ops generalizing e with
  | nil => exact ⟨e, rfl, by rw [Emitter.push_nil]⟩
  | cons op ops ih =>
    obtain ⟨next, hone, hsettled⟩ := runOn_pushOne e s op
    obtain ⟨e', hrest, hend⟩ := ih next
    refine ⟨e', ?_, ?_⟩
    · rw [push, List.forM, Emitting.runOn_bind_ok hone]
      exact hrest
    · rw [hend, hsettled, Emitter.push_cons]

/-! ## Steps -/

/-- A refused opening has asked for the stream of its sink and changed nothing else. -/
theorem runOn_openUnit (e : LiveEmitter) (s : Sink) (signature : Signature) :
    ∃ e', (openUnit s signature).runOn e = ((e.settled.openUnit s signature).map fun _ => (), e') ∧
      e'.settled = e.settled.attempt (.openUnit s signature) := by
  obtain ⟨e₁, hstream, hsettled⟩ := runOn_stream e s
  rw [openUnit, Emitting.runOn_bind_ok hstream, Emitter.attempt, Emitter.step, Emitter.openUnit]
  cases hunit : (e.settled.streams.get s).unit with
  | some unit => exact ⟨e₁, rfl, hsettled⟩
  | none =>
    have hdefines : e₁.defines signature.name = e.settled.defines signature.name :=
      congrArg (fun e : Emitter => e.defines signature.name) hsettled
    have hget : Emitting.runOn get e₁ = (.ok e₁, e₁) := rfl
    simp only [Emitting.runOn_bind_ok hget, hdefines]
    cases e.settled.defines signature.name with
    | true => exact ⟨e₁, rfl, hsettled⟩
    | false =>
      obtain ⟨e₂, hset, hsettled₂⟩ := runOn_setStream e₁ s
        ⟨(e.settled.streams.get s).text ++ signature.render ++ "\n\x7b\n", some signature⟩
      exact ⟨e₂, hset, by rw [hsettled₂, hsettled]; rfl⟩

theorem runOn_takeUnit (e : LiveEmitter) (s : Sink) :
    ∃ e', (takeUnit s).runOn e = (.ok (e.settled.streams.get s).unit, e') ∧
      e'.settled = { e.settled with streams := e.settled.streams.set s ⟨(e.settled.streams.get s).text, none⟩ } := by
  obtain ⟨e₁, hstream, hsettled⟩ := runOn_stream e s
  obtain ⟨e₂, hset, hsettled₂⟩ := runOn_setStream e₁ s ⟨(e.settled.streams.get s).text, none⟩
  refine ⟨e₂, ?_, by rw [hsettled₂, hsettled]⟩
  rw [takeUnit, Emitting.runOn_bind_ok hstream, Emitting.runOn_bind_ok hset]
  rfl

/-- A refused closing has taken the open function off a sink that has none. -/
theorem runOn_closeUnit (e : LiveEmitter) (s : Sink) (result : Option String) :
    ∃ e', (closeUnit s result).runOn e = ((e.settled.closeUnit s result).map fun _ => (), e') ∧
      e'.settled = e.settled.attempt (.closeUnit s result) := by
  obtain ⟨e₁, htake, hsettled⟩ := runOn_takeUnit e s
  rw [closeUnit, Emitting.runOn_bind_ok htake, Emitter.attempt, Emitter.step, Emitter.closeUnit]
  cases hunit : (e.settled.streams.get s).unit with
  | none =>
    have htaken : (⟨(e.settled.streams.get s).text, none⟩ : Stream) = e.settled.streams.get s := by
      rw [← hunit]
    refine ⟨e₁, rfl, ?_⟩
    rw [hsettled, htaken, PerSink.set_get_self]
  | some signature =>
    obtain ⟨e₂, hraw, hsettled₂⟩ := runOn_raw e₁ s (Emitter.closing result)
    let closed : LiveEmitter := { e₂ with defined := e₂.defined ++ [⟨s, signature.name⟩] }
    have hclosed : closed.settled = { e₂.settled with defined := e₂.settled.defined ++ [⟨s, signature.name⟩] } := rfl
    refine ⟨closed, Emitting.runOn_bind_ok hraw _, ?_⟩
    rw [hclosed, hsettled₂, hsettled, Emitter.raw]
    simp only [PerSink.get_set_self, PerSink.set_set]

/-- A function as a whole is refused by its opening only: what is opened is closed. -/
theorem runOn_function (e : LiveEmitter) (s : Sink) (signature : Signature) (body : List Operation)
    (result : Option String) :
    ∃ e', (action (.function s signature body result)).runOn e =
        ((e.settled.step (.function s signature body result)).map fun _ => (), e') ∧
      e'.settled = e.settled.attempt (.function s signature body result) := by
  obtain ⟨e₁, hopen, hsettled⟩ := runOn_openUnit e s signature
  rw [Emitter.attempt, Emitter.step] at hsettled
  rw [action, Emitter.attempt, Emitter.step]
  cases hopened : e.settled.openUnit s signature with
  | error err =>
    rw [hopened] at hopen hsettled
    exact ⟨e₁, Emitting.runOn_bind_error hopen _, hsettled⟩
  | ok opened =>
    rw [hopened] at hopen hsettled
    obtain ⟨e₂, hpush, hsettled₂⟩ := runOn_push e₁ s body
    obtain ⟨e₃, hclose, hsettled₃⟩ := runOn_closeUnit e₂ s result
    have hunit : ((opened.push s body).streams.get s).unit = some signature := by
      rw [Emitter.unit_push, (Emitter.openUnit_eq_ok hopened).2.2.2.2, if_pos rfl]
    obtain ⟨closed, hclosed, -⟩ := Emitter.closeUnit_ok result hunit
    rw [hsettled₂, hsettled, Emitter.attempt, Emitter.step] at hsettled₃
    rw [hsettled₂, hsettled] at hclose
    refine ⟨e₃, ?_, ?_⟩
    · rw [Emitting.runOn_bind_ok hopen, Emitting.runOn_bind_ok hpush, hclose]
      rfl
    · rw [hsettled₃]
      simp only [bind, Except.bind, hclosed]

/-- A step in place answers as the step does, and is seen to do what the step does if it is not refused and nothing if it is. -/
theorem perform_settled (e : LiveEmitter) (s : EmitStep) :
    (e.perform s).1 = (e.settled.step s).map (fun _ => ()) ∧ (e.perform s).2.settled = e.settled.attempt s := by
  obtain ⟨e', hrun, hsettled⟩ : ∃ e', (action s).runOn e = ((e.settled.step s).map fun _ => (), e') ∧
      e'.settled = e.settled.attempt s := by
    cases s with
    | openUnit s signature => exact runOn_openUnit e s signature
    | closeUnit s result => exact runOn_closeUnit e s result
    | function s signature body result => exact runOn_function e s signature body result
    | push s ops => exact runOn_push e s ops
    | raw s text => exact runOn_raw e s text
  rw [perform, hrun]
  exact ⟨rfl, hsettled⟩

/-! ## Runs -/

theorem after_settled (e : LiveEmitter) (steps : List EmitStep) : (e.after steps).settled = e.settled.attempts steps := by
  induction steps generalizing e with
  | nil => rfl
  | cons s steps ih =>
    rw [after, List.foldl_cons, Emitter.attempts, List.foldl_cons, ← (perform_settled e s).2]
    exact ih _

theorem kept_settled (e : LiveEmitter) (steps : List EmitStep) : e.kept steps = e.settled.accepted steps := by
  induction steps generalizing e with
  | nil => rfl
  | cons s steps ih =>
    obtain ⟨hanswer, hsettled⟩ := perform_settled e s
    have hrest := ih (e.perform s).2
    rw [hsettled, Emitter.attempt] at hrest
    rw [kept, answers, List.zip_cons_cons, List.filter_cons, hanswer, Emitter.accepted]
    cases hs : e.settled.step s with
    | ok next =>
      rw [hs] at hrest
      exact congrArg (s :: ·) hrest
    | error err =>
      rw [hs] at hrest
      exact hrest

/-- Steps that an emitter takes are taken in place as well. -/
theorem answers_of_run {e : LiveEmitter} {next : Emitter} {steps : List EmitStep} (h : e.settled.run steps = .ok next) :
    (∀ answer ∈ e.answers steps, answer = .ok ()) ∧ (e.after steps).settled = next := by
  induction steps generalizing e with
  | nil =>
    cases h
    exact ⟨by simp [answers], rfl⟩
  | cons s steps ih =>
    obtain ⟨between, hstep, hrest⟩ := Emitter.run_cons_eq_ok h
    obtain ⟨hanswer, hsettled⟩ := perform_settled e s
    rw [hstep] at hanswer
    have hnext : (e.perform s).2.settled = between := by rw [hsettled, Emitter.attempt, hstep]
    obtain ⟨hanswers, hend⟩ := ih (hnext ▸ hrest)
    exact ⟨List.forall_mem_cons.2 ⟨hanswer, hanswers⟩, hend⟩

/-- Without the steps that are refused nothing is refused, and the emitter shows the same: what is open, what has been defined, and
how closing it ends. It shows what an emitter shows that refused steps never touch. -/
theorem refusals_leave_no_trace (e : LiveEmitter) (steps : List EmitStep) :
    (∀ answer ∈ e.answers (e.kept steps), answer = .ok ()) ∧
    (∀ s, (e.after (e.kept steps)).isOpen s = (e.after steps).isOpen s) ∧
    (e.after (e.kept steps)).defined = (e.after steps).defined ∧
    (e.after (e.kept steps)).finish = (e.after steps).finish ∧
    e.settled.run (e.kept steps) = .ok (e.after steps).settled := by
  have hrun : e.settled.run (e.kept steps) = .ok (e.after steps).settled := by
    rw [kept_settled, after_settled]
    exact Emitter.run_accepted e.settled steps
  obtain ⟨hanswers, hsettled⟩ := answers_of_run hrun
  refine ⟨hanswers, fun s => ?_, ?_, ?_, hrun⟩
  · rw [← isOpen_settled, ← isOpen_settled, hsettled]
  · exact congrArg Emitter.defined hsettled
  · rw [← finish_settled, ← finish_settled, hsettled]

/-- Something does stay behind that does not show, here the stream that a refused closing has asked for. -/
example : (empty.perform (.closeUnit .api none)).1 = .error (.nothingOpen .api) ∧
    (empty.perform (.closeUnit .api none)).2 ≠ empty := by decide

end LiveEmitter

end AccelFirmware
