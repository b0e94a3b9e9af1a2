/-!
# Sinks

The four streams a program is written to, and values kept for each of them. The order of `Sink.all` is the
order of every listing.
-/

namespace AccelFirmware

inductive Sink where
  | main
  /-- The accelerator functions of the split layout. -/
  | api
  | weights
  | sampleData
  deriving DecidableEq, Repr

namespace Sink

def all : List Sink := [.main, .api, .weights, .sampleData]

def name : Sink → String
  | .main => "main"
  | .api => "api"
  | .weights => "weights"
  | .sampleData => "sample-data"

theorem mem_all (s : Sink) : s ∈ all := by cases s <;> simp [all]

end Sink

/-- One value for every sink. -/
structure PerSink (α : Type) where
  main : α
  api : α
  weights : α
  sampleData : α
  deriving DecidableEq, Repr

namespace PerSink

variable {α β : Type}

def const (a : α) : PerSink α := ⟨a, a, a, a⟩

def get (p : PerSink α) : Sink → α
  | .main => p.main
  | .api => p.api
  | .weights => p.weights
  | .sampleData => p.sampleData

def set (p : PerSink α) (s : Sink) (a : α) : PerSink α :=
  match s with
  | .main => { p with main := a }
  | .api => { p with api := a }
  | .weights => { p with weights := a }
  | .sampleData => { p with sampleData := a }

def map (f : α → β) (p : PerSink α) : PerSink β :=
  ⟨f p.main, f p.api, f p.weights, f p.sampleData⟩

@[simp] theorem get_const (a : α) (s : Sink) : (const a).get s = a := by cases s <;> rfl

@[simp] theorem get_map (f : α → β) (p : PerSink α) (s : Sink) : (p.map f).get s = f (p.get s) := by
  cases s <;> rfl

@[simp] theorem get_set_self (p : PerSink α) (s : Sink) (a : α) : (p.set s a).get s = a := by
  cases s <;> rfl

theorem get_set (p : PerSink α) (s t : Sink) (a : α) :
    (p.set s a).get t = if t = s then a else p.get t := by
  cases s <;> cases t <;> rfl

@[simp] theorem set_get_self (p : PerSink α) (s : Sink) : p.set s (p.get s) = p := by cases s <;> rfl

@[simp] theorem set_set (p : PerSink α) (s : Sink) (a b : α) : (p.set s a).set s b = p.set s b := by cases s <;> rfl

theorem map_map {γ : Type} (f : α → β) (g : β → γ) (p : PerSink α) : (p.map f).map g = p.map fun a => g (f a) := rfl

theorem map_set (f : α → β) (p : PerSink α) (s : Sink) (a : α) : (p.set s a).map f = (p.map f).set s (f a) := by
  cases s <;> rfl

end PerSink

end AccelFirmware
