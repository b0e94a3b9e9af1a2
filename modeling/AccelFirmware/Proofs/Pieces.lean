import AccelFirmware.Proofs.Emission

/-!
# The pieces of a source

What the text of a sink consists of: functions, and what stands between them. A draft is a source that is being written. At
every point of a run the stream of a sink is the text of its draft, and the functions of the draft are those of the outline.
-/

namespace AccelFirmware

/-! ## Text of operations -/

namespace Operation

theorem linesOfAll_append (as bs : List Operation) (depth : Nat) :
    linesOfAll (as ++ bs) depth = linesOfAll as depth ++ linesOfAll bs depth := by
  induction as with
  | nil => rfl
  | cons a as ih => rw [List.cons_append, linesOfAll, ih, linesOfAll, List.append_assoc]

theorem renderAll_append (as bs : List Operation) (depth : Nat) :
    renderAll (as ++ bs) depth = renderAll as depth ++ renderAll bs depth := by
  simp [renderAll, linesOfAll_append, Line.renderAll]

end Operation

/-! ## Pieces -/

/-- Code, or text that is taken as it is. -/
inductive Fragment where
  | code (ops : List Operation)
  | raw (text : String)

namespace Fragment

def render (depth : Nat) : Fragment → String
  | .code ops => Operation.renderAll ops depth
  | .raw text => text

def renderAll (depth : Nat) (fragments : List Fragment) : String :=
  String.join (fragments.map (render depth))

def operations : Fragment → List Operation
  | .code ops => ops
  | .raw _ => []

end Fragment

/-- A function of a source, or what stands between functions. -/
inductive Piece where
  | loose (fragment : Fragment)
  | function (signature : Signature) (body : List Fragment) (result : Option String)

namespace Piece

/-- The head of a function and its body so far. -/
def begun (signature : Signature) (body : List Fragment) : String :=
  signature.render ++ "\n\x7b\n" ++ Fragment.renderAll 1 body

def render : Piece → String
  | .loose fragment => fragment.render 0
  | .function signature body result => begun signature body ++ Emitter.closing result

def renderAll (pieces : List Piece) : String := String.join (pieces.map render)

def operations : Piece → List Operation
  | .loose fragment => fragment.operations
  | .function _ body _ => body.flatMap Fragment.operations

/-- The function that a piece is. -/
def function? (sink : Sink) : Piece → Option EmittedFunction
  | .loose _ => none
  | .function signature body result => some ⟨sink, signature, body.flatMap Fragment.operations, result⟩

@[simp] theorem renderAll_nil : renderAll [] = "" := rfl

@[simp] theorem renderAll_append (ps qs : List Piece) : renderAll (ps ++ qs) = renderAll ps ++ renderAll qs := by
  simp [renderAll]

@[simp] theorem renderAll_singleton (piece : Piece) : renderAll [piece] = piece.render := by
  simp [renderAll]

theorem renderAll_eq_empty_iff (pieces : List Piece) : renderAll pieces = "" ↔ ∀ piece ∈ pieces, piece.render = "" := by
  induction pieces with
  | nil => simp
  | cons piece pieces ih => simp [renderAll, ← ih]

theorem begun_append (signature : Signature) (body : List Fragment) (fragment : Fragment) :
    begun signature (body ++ [fragment]) = begun signature body ++ fragment.render 1 := by
  simp [begun, Fragment.renderAll, String.append_assoc]

end Piece

/-! ## Drafts -/

/-- The pieces of a source so far, and the function open on it. -/
structure Draft where
  pieces : List Piece
  unit : Option (Signature × List Fragment)

namespace Draft

def empty : Draft := ⟨[], none⟩

def text (d : Draft) : String :=
  Piece.renderAll d.pieces ++
    match d.unit with
    | none => ""
    | some (signature, body) => Piece.begun signature body

/-- A fragment belongs to the open function, or stands alone. -/
def add (d : Draft) (fragment : Fragment) : Draft :=
  match d.unit with
  | none => { d with pieces := d.pieces ++ [.loose fragment] }
  | some (signature, body) => { d with unit := some (signature, body ++ [fragment]) }

def close (d : Draft) (result : Option String) : Draft :=
  match d.unit with
  | none => d
  | some (signature, body) => ⟨d.pieces ++ [.function signature body result], none⟩

/-- What a step of the emitter does to the draft of a sink. -/
def step (sink : Sink) (d : Draft) : EmitStep → Draft
  | .openUnit s signature => if s = sink then { d with unit := some (signature, []) } else d
  | .closeUnit s result => if s = sink then d.close result else d
  | .function s signature body result =>
      if s = sink then { d with pieces := d.pieces ++ [.function signature [.code body] result] } else d
  | .push s ops => if s = sink then d.add (.code ops) else d
  | .raw s text => if s = sink then d.add (.raw text) else d

def run (sink : Sink) (d : Draft) (steps : List EmitStep) : Draft :=
  steps.foldl (step sink) d

theorem run_append (sink : Sink) (d : Draft) (steps more : List EmitStep) :
    d.run sink (steps ++ more) = (d.run sink steps).run sink more := by
  simp [run]

/-- A stream with the text and the open function of a draft. -/
structure Shows (d : Draft) (stream : Stream) : Prop where
  text : stream.text = d.text
  unit : stream.unit = d.unit.map Prod.fst

variable {d : Draft} {sink : Sink}

theorem shows_add {e : Emitter} (h : d.Shows (e.streams.get sink)) (fragment : Fragment) :
    (d.add fragment).Shows ((e.raw sink (fragment.render (e.depth sink))).streams.get sink) := by
  obtain ⟨pieces, unit⟩ := d
  obtain ⟨htext, hunit⟩ := h
  cases unit with
  | none =>
    have hdepth : e.depth sink = 0 := by simp [Emitter.depth, Emitter.isOpen, hunit]
    constructor <;> simp [Emitter.raw, add, text, htext, hunit, hdepth, Piece.render]
  | some open_ =>
    obtain ⟨signature, body⟩ := open_
    have hdepth : e.depth sink = 1 := by simp [Emitter.depth, Emitter.isOpen, hunit]
    constructor <;>
      simp [Emitter.raw, add, text, htext, hunit, hdepth, Piece.begun_append, String.append_assoc]

theorem shows_push {e : Emitter} {s : Sink} {ops : List Operation} (h : d.Shows (e.streams.get sink)) :
    (d.step sink (.push s ops)).Shows ((e.push s ops).streams.get sink) := by
  by_cases hs : s = sink
  · subst hs
    rw [step, if_pos rfl]
    exact shows_add h (.code ops)
  · have hother : (e.push s ops).streams.get sink = e.streams.get sink := by
      simp [Emitter.push, Emitter.raw, PerSink.get_set, Ne.symm hs]
    simpa [step, hs, hother] using h

theorem shows_openUnit {e e' : Emitter} {s : Sink} {signature : Signature} (he : e.openUnit s signature = .ok e')
    (h : d.Shows (e.streams.get sink)) : (d.step sink (.openUnit s signature)).Shows (e'.streams.get sink) := by
  simp only [Emitter.openUnit] at he
  split at he
  · cases he
  rename_i hclosed
  split at he
  · cases he
  cases he
  by_cases hs : s = sink
  · subst hs
    have hunit : d.unit = none := by simpa [hclosed] using h.unit.symm
    constructor
    · simp [step, text, h.text, hunit, Piece.begun, Fragment.renderAll, String.append_assoc]
    · simp [step]
  · simpa [step, hs, PerSink.get_set, Ne.symm hs] using h

theorem shows_closeUnit {e e' : Emitter} {s : Sink} {result : Option String} (he : e.closeUnit s result = .ok e')
    (h : d.Shows (e.streams.get sink)) : (d.step sink (.closeUnit s result)).Shows (e'.streams.get sink) := by
  simp only [Emitter.closeUnit] at he
  split at he
  · cases he
  rename_i signature hopen
  cases he
  by_cases hs : s = sink
  · subst hs
    obtain ⟨⟨signature', body⟩, hunit, rfl⟩ : ∃ unit, d.unit = some unit ∧ unit.1 = signature := by
      simpa [hopen] using h.unit.symm
    constructor <;> simp [step, close, text, h.text, hunit, Piece.render, String.append_assoc]
  · simpa [step, hs, PerSink.get_set, Ne.symm hs] using h

/-- Where nothing is open, a function as a whole is the same as its parts. -/
theorem step_function {s : Sink} (hd : s = sink → d.unit = none) (signature : Signature) (body : List Operation)
    (result : Option String) :
    d.step sink (.function s signature body result) =
      ((d.step sink (.openUnit s signature)).step sink (.push s body)).step sink (.closeUnit s result) := by
  by_cases hs : s = sink
  · simp [step, hs, add, close, hd hs]
  · simp [step, hs]

theorem shows_step {e e' : Emitter} {s : EmitStep} (he : e.step s = .ok e') (h : d.Shows (e.streams.get sink)) :
    (d.step sink s).Shows (e'.streams.get sink) := by
  cases s with
  | openUnit s signature => exact shows_openUnit he h
  | closeUnit s result => exact shows_closeUnit he h
  | push s ops =>
    cases he
    exact shows_push h
  | raw s text =>
    cases he
    by_cases hs : s = sink
    · subst hs
      rw [step, if_pos rfl]
      exact shows_add h (.raw text)
    · simpa [step, hs, Emitter.raw, PerSink.get_set, Ne.symm hs] using h
  | function s signature body result =>
    cases ho : e.openUnit s signature with
    | error _ => simp [Emitter.step, ho, bind, Except.bind] at he
    | ok opened =>
      simp only [Emitter.step, ho, bind, Except.bind] at he
      have hclosed : s = sink → d.unit = none := by
        rintro rfl
        simp only [Emitter.openUnit] at ho
        split at ho
        · cases ho
        · rename_i hclosed
          simpa [hclosed] using h.unit.symm
      rw [step_function hclosed]
      exact shows_closeUnit he (shows_push (shows_openUnit ho h))

/-- Every run that is not refused writes its draft. -/
theorem shows_run {e e' : Emitter} {steps : List EmitStep} (he : e.run steps = .ok e')
    (h : d.Shows (e.streams.get sink)) : (d.run sink steps).Shows (e'.streams.get sink) := by
  induction steps generalizing e d with
  | nil =>
    cases he
    exact h
  | cons s steps ih =>
    rw [Emitter.run, List.foldlM_cons] at he
    cases hs : e.step s with
    | error _ => rw [hs] at he; cases he
    | ok e₁ =>
      rw [hs] at he
      exact ih he (shows_step hs h)

/-- A finished emitter has nothing open, and every sink holds the text of its pieces. -/
theorem texts_of_finish {e : Emitter} {steps : List EmitStep} {t : EmittedText} (he : Emitter.empty.run steps = .ok e)
    (ht : e.finish = .ok t) (sink : Sink) :
    t.texts.get sink = Piece.renderAll (empty.run sink steps).pieces := by
  have hempty : empty.Shows (Emitter.empty.streams.get sink) := by
    constructor <;> simp [Emitter.empty, empty, text]
  obtain ⟨htext, hunit⟩ := shows_run he hempty
  rw [Emitter.finish] at ht
  split at ht
  · cases ht
  rename_i hopen
  split at ht
  · cases ht
  cases ht
  have hclosed : (e.streams.get sink).unit = none := by
    simpa using List.findSome?_eq_none_iff.1 hopen sink (Sink.mem_all sink)
  have hnone : (empty.run sink steps).unit = none := by simpa [hclosed] using hunit.symm
  simp [htext, text, hnone]

/-! ## Functions of a draft -/

/-- The functions of a draft are those of an outline that lie on its sink, and the open function is the same. -/
structure Agrees (sink : Sink) (d : Draft) (o : Outline) : Prop where
  functions : d.pieces.filterMap (Piece.function? sink) = o.functions.filter (·.sink = sink)
  unit : o.units.get sink = d.unit.map fun (signature, body) => (signature, body.flatMap Fragment.operations)

theorem Agrees.step {o : Outline} (h : d.Agrees sink o) (s : EmitStep) : (d.step sink s).Agrees sink (o.step s) := by
  obtain ⟨pieces, unit⟩ := d
  obtain ⟨hfunctions, hunit⟩ := h
  cases s with
  | openUnit s signature =>
    by_cases hs : s = sink
    · constructor <;> simp [Draft.step, Outline.step, hs, hfunctions]
    · constructor <;> simp [Draft.step, Outline.step, hs, PerSink.get_set, Ne.symm hs, hfunctions, hunit]
  | closeUnit s result =>
    by_cases hs : s = sink
    · subst hs
      cases unit with
      | none => constructor <;> simp_all [Draft.step, Outline.step, close]
      | some open_ => constructor <;> simp_all [Draft.step, Outline.step, close, Piece.function?]
    · cases ho : o.units.get s with
      | none => constructor <;> simp_all [Draft.step, Outline.step]
      | some open_ => constructor <;> simp [Draft.step, Outline.step, hs, ho, PerSink.get_set, Ne.symm hs, hfunctions, hunit]
  | function s signature body result =>
    by_cases hs : s = sink
    · constructor <;> simp [Draft.step, Outline.step, hs, hfunctions, hunit, Piece.function?, Fragment.operations]
    · constructor <;> simp [Draft.step, Outline.step, hs, hfunctions, hunit]
  | push s ops =>
    by_cases hs : s = sink
    · subst hs
      cases unit <;> constructor <;>
        simp_all [Draft.step, Outline.step, add, Piece.function?, Fragment.operations]
    · constructor <;> simp [Draft.step, Outline.step, hs, PerSink.get_set, Ne.symm hs, hfunctions, hunit]
  | raw s text =>
    by_cases hs : s = sink
    · subst hs
      cases unit <;> constructor <;>
        simp_all [Draft.step, Outline.step, add, Piece.function?, Fragment.operations]
    · constructor <;> simp [Draft.step, Outline.step, hs, hfunctions, hunit]

theorem Agrees.run {o : Outline} (h : d.Agrees sink o) (steps : List EmitStep) :
    (d.run sink steps).Agrees sink (o.run steps) := by
  induction steps generalizing d o with
  | nil => exact h
  | cons s steps ih => exact ih (h.step s)

theorem agrees_empty (sink : Sink) : empty.Agrees sink .empty := by
  constructor <;> simp [empty, Outline.empty]

end Draft

/-! ## Pieces of plain steps -/

namespace EmitStep

/-- The piece that a step adds to a sink with nothing open. -/
def pieces (sink : Sink) : EmitStep → List Piece
  | .push s ops => if s = sink then [.loose (.code ops)] else []
  | .raw s text => if s = sink then [.loose (.raw text)] else []
  | .function s signature body result => if s = sink then [.function signature [.code body] result] else []
  | _ => []

/-- The fragment that a step adds to the open function of a sink. -/
def fragments (sink : Sink) : EmitStep → List Fragment
  | .push s ops => if s = sink then [.code ops] else []
  | .raw s text => if s = sink then [.raw text] else []
  | _ => []

theorem fragments_operations (sink : Sink) (step : EmitStep) :
    (step.fragments sink).flatMap Fragment.operations = step.pushed sink := by
  cases step with
  | push s ops => by_cases hs : s = sink <;> simp [fragments, pushed, Fragment.operations, hs]
  | raw s text => by_cases hs : s = sink <;> simp [fragments, pushed, Fragment.operations, hs]
  | _ => rfl

end EmitStep

namespace Draft

variable {sink : Sink} {busy : Sink → Bool} {steps : List EmitStep}

theorem run_plain (h : ∀ s ∈ steps, s.isPlain busy = true) (pieces : List Piece) :
    run sink ⟨pieces, none⟩ steps = ⟨pieces ++ steps.flatMap (EmitStep.pieces sink), none⟩ := by
  induction steps generalizing pieces with
  | nil => simp [run]
  | cons s steps ih =>
    have hstep : step sink ⟨pieces, none⟩ s = ⟨pieces ++ s.pieces sink, none⟩ := by
      cases s with
      | openUnit _ _ => simpa [EmitStep.isPlain] using h _ List.mem_cons_self
      | closeUnit _ _ => simpa [EmitStep.isPlain] using h _ List.mem_cons_self
      | push s ops => by_cases hs : s = sink <;> simp [step, add, EmitStep.pieces, hs]
      | raw s text => by_cases hs : s = sink <;> simp [step, add, EmitStep.pieces, hs]
      | function s signature body result => by_cases hs : s = sink <;> simp [step, EmitStep.pieces, hs]
    have hrest := ih (fun r hr => h r (List.mem_cons_of_mem _ hr)) (pieces ++ s.pieces sink)
    rw [← hstep] at hrest
    simpa [run] using hrest

/-- In a function, code and text go to its body. -/
theorem run_plain_open (h : ∀ s ∈ steps, s.isPlain busy = true) (hb : busy sink = true) (pieces : List Piece)
    (signature : Signature) (body : List Fragment) :
    run sink ⟨pieces, some (signature, body)⟩ steps =
      ⟨pieces, some (signature, body ++ steps.flatMap (EmitStep.fragments sink))⟩ := by
  induction steps generalizing body with
  | nil => simp [run]
  | cons s steps ih =>
    have hplain := h s List.mem_cons_self
    have hstep : step sink ⟨pieces, some (signature, body)⟩ s =
        ⟨pieces, some (signature, body ++ s.fragments sink)⟩ := by
      cases s with
      | openUnit _ _ => simp [EmitStep.isPlain] at hplain
      | closeUnit _ _ => simp [EmitStep.isPlain] at hplain
      | push s ops => by_cases hs : s = sink <;> simp [step, add, EmitStep.fragments, hs]
      | raw s text => by_cases hs : s = sink <;> simp [step, add, EmitStep.fragments, hs]
      | function s _ _ _ =>
        have hs : s ≠ sink := by
          rintro rfl
          simp [EmitStep.isPlain, hb] at hplain
        simp [step, EmitStep.fragments, hs]
    have hrest := ih (fun r hr => h r (List.mem_cons_of_mem _ hr)) (body ++ s.fragments sink)
    rw [← hstep] at hrest
    simpa [run] using hrest

/-- The pieces of a program that is one function around plain steps. -/
theorem pieces_around {opening inside : List EmitStep} {s : Sink} (signature : Signature) (result : Option String)
    (ho : ∀ r ∈ opening, r.isPlain (fun _ => false) = true) (hi : ∀ r ∈ inside, r.isPlain (· = s) = true) (sink : Sink) :
    (empty.run sink (opening ++ [EmitStep.openUnit s signature] ++ inside ++ [EmitStep.closeUnit s result])).pieces =
      opening.flatMap (EmitStep.pieces sink) ++
        if sink = s then [.function signature (inside.flatMap (EmitStep.fragments sink)) result]
        else inside.flatMap (EmitStep.pieces sink) := by
  rw [run_append, run_append, run_append, empty, run_plain ho]
  by_cases hs : s = sink
  · subst hs
    have hopened (pieces : List Piece) :
        run s ⟨pieces, none⟩ [EmitStep.openUnit s signature] = ⟨pieces, some (signature, [])⟩ := by simp [run, step]
    rw [hopened, run_plain_open hi (by simp)]
    simp [run, step, close]
  · have hopened (d : Draft) : run sink d [EmitStep.openUnit s signature] = d := by simp [run, step, hs]
    have hclosed (d : Draft) : run sink d [EmitStep.closeUnit s result] = d := by simp [run, step, hs]
    rw [hopened, hclosed, run_plain hi]
    simp [Ne.symm hs]

end Draft

end AccelFirmware
