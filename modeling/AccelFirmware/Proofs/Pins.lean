import AccelFirmware.Program.Gpio
import AccelFirmware.Proofs.Execution

/-!
# Output pins under execution

What operations do to output pins. A pin is driven through the variable `gpio_out`: its fields are assigned, the pin is
configured, and then it is set or cleared. Only the last of these has an effect outside of the variable.
-/

namespace AccelFirmware

inductive PinField where
  | port
  | mask
  | pad
  | func
  deriving DecidableEq, Repr

namespace PinField

def all : List PinField := [.port, .mask, .pad, .func]

def name : PinField → String
  | .port => "port"
  | .mask => "mask"
  | .pad => "pad"
  | .func => "func"

/-- What comes before the value in the assignment of a field. -/
def target (f : PinField) : String := "gpio_out." ++ f.name ++ " = "

/-- The value that a statement assigns to a field. -/
def assigned? (f : PinField) (text : String) : Option String :=
  match f.target.toList.isPrefixOf? text.toList with
  | some rest => if rest.getLast? = some ';' then some (String.ofList rest.dropLast) else none
  | none => none

end PinField

structure PinSetup where
  port : String
  mask : String
  pad : String
  func : String
  deriving DecidableEq, Repr

namespace PinSetup

def blank : PinSetup := ⟨"", "", "", ""⟩

def set (s : PinSetup) (value : String) : PinField → PinSetup
  | .port => { s with port := value }
  | .mask => { s with mask := value }
  | .pad => { s with pad := value }
  | .func => { s with func := value }

def output (port mask : String) : PinSetup := ⟨port, mask, "MXC_GPIO_PAD_NONE", "MXC_GPIO_FUNC_OUT"⟩

end PinSetup

/-- The variable, and its contents at the last configuration. -/
structure PinState where
  setup : PinSetup
  configured : Option PinSetup
  deriving DecidableEq, Repr

/-- An operation as it stands, or a pin that is driven. -/
inductive Effect where
  | plain (op : Operation)
  | drive (setup : PinSetup) (level : Level)

namespace PinState

def fresh : PinState := ⟨.blank, none⟩

def driven? (name : String) (args : List String) : Option Level :=
  if args = ["gpio_out.port", "gpio_out.mask"] then
    if name = Level.high.driver then some .high else if name = Level.low.driver then some .low else none
  else none

/-- Runs an operation, and tells its effects. Pins can be driven once they are configured. -/
def step (st : PinState) : Operation → PinState × List Effect
  | .declare text => if text = "mxc_gpio_cfg_t gpio_out;" then (fresh, []) else (st, [.plain (.declare text)])
  | .statement text note =>
      match PinField.all.findSome? fun f => (f.assigned? text).map (f, ·) with
      | some (f, value) => ({ st with setup := st.setup.set value f }, [])
      | none => (st, [.plain (.statement text note)])
  | .call (.provided name) args note =>
      if name = "MXC_GPIO_Config" ∧ args = ["&gpio_out"] then ({ st with configured := some st.setup }, [])
      else
        match driven? name args with
        | some level =>
            if st.configured = some st.setup then (st, [.drive st.setup level])
            else (st, [.plain (.call (.provided name) args note)])
        | none => (st, [.plain (.call (.provided name) args note)])
  | op => (st, [.plain op])

def run (st : PinState) : List Operation → PinState × List Effect
  | [] => (st, [])
  | op :: ops =>
      let first := st.step op
      let rest := first.1.run ops
      (rest.1, first.2 ++ rest.2)

theorem run_append (st : PinState) (as bs : List Operation) :
    st.run (as ++ bs) = (((st.run as).1.run bs).1, (st.run as).2 ++ ((st.run as).1.run bs).2) := by
  induction as generalizing st with
  | nil => rfl
  | cons a as ih => simp [run, ih]

/-! ## Operations that leave pins alone -/

/-- Neither declares, assigns nor configures. -/
def spares : Operation → Bool
  | .declare text => text ≠ "mxc_gpio_cfg_t gpio_out;"
  | .statement text _ => PinField.all.all fun f => (f.assigned? text).isNone
  | .call callee _ _ => callee.name ≠ "MXC_GPIO_Config"
  | _ => true

theorem step_of_spares {op : Operation} (h : spares op = true) (st : PinState) : (st.step op).1 = st := by
  cases op with
  | declare text =>
    have hne : text ≠ "mxc_gpio_cfg_t gpio_out;" := by simpa [spares] using h
    simp only [step, if_neg hne]
  | statement text note =>
    have hnone : (PinField.all.findSome? fun f => (f.assigned? text).map (f, ·)) = none := by
      simpa [spares, List.findSome?_eq_none_iff] using h
    simp only [step, hnone]
  | call callee args note =>
    cases callee with
    | emitted _ => rfl
    | provided name =>
      have hne : name ≠ "MXC_GPIO_Config" := of_decide_eq_true h
      simp only [step, hne, false_and, if_false]
      split
      · split <;> rfl
      · rfl
  | _ => rfl

theorem run_of_spares {ops : List Operation} (h : ∀ op ∈ ops, spares op = true) (st : PinState) : (st.run ops).1 = st := by
  induction ops with
  | nil => rfl
  | cons op ops ih =>
    simp only [run, step_of_spares (h op (by simp)), ih fun op hop => h op (by simp [hop])]

end PinState

/-! ## Driving a pin -/

namespace PinField

theorem toList_assignment (f : PinField) (value : String) :
    (f.target ++ value ++ ";").toList = f.target.toList ++ (value.toList ++ [';']) := by
  simp

theorem assigned?_self (f : PinField) (value : String) : f.assigned? (f.target ++ value ++ ";") = some value := by
  rw [assigned?, toList_assignment, List.isPrefixOf?_eq_some_iff_append_eq.2 rfl]
  simp

theorem assigned?_of_ne {f g : PinField} (h : f ≠ g) (value : String) :
    f.assigned? (g.target ++ value ++ ";") = none := by
  rw [assigned?, toList_assignment]
  cases f <;> cases g <;> first | rfl | exact absurd rfl h

end PinField

namespace PinState

theorem step_assignment (st : PinState) (f : PinField) (value : String) (note : Option String) :
    st.step (.statement (f.target ++ value ++ ";") note) = ({ st with setup := st.setup.set value f }, []) := by
  have hfound : (PinField.all.findSome? fun g => (g.assigned? (f.target ++ value ++ ";")).map (g, ·)) =
      some (f, value) := by
    cases f <;> simp [PinField.all, PinField.assigned?_self, PinField.assigned?_of_ne]
  simp only [step, hfound]

theorem run_driver (setup : PinSetup) (level : Level) (ops : List Operation) :
    PinState.run ⟨setup, some setup⟩ (callProvided level.driver ["gpio_out.port", "gpio_out.mask"] :: ops) =
      (((⟨setup, some setup⟩ : PinState).run ops).1,
        .drive setup level :: ((⟨setup, some setup⟩ : PinState).run ops).2) := by
  cases level <;> simp [run, step, callProvided, driven?, Level.driver]

/-- Whatever has been done to pins before, the operations that drive one have this one effect. -/
theorem run_drivePin (st : PinState) (port mask : String) (level : Level) :
    st.run (drivePin port mask level) =
      (⟨.output port mask, some (.output port mask)⟩, [.drive (.output port mask) level]) := by
  have hdeclare : st.step (.declare "mxc_gpio_cfg_t gpio_out;") = (fresh, []) := rfl
  have hport (st : PinState) : st.step (.statement ("gpio_out.port = " ++ port ++ ";")) =
      ({ st with setup := st.setup.set port .port }, []) := st.step_assignment .port port none
  have hmask (st : PinState) : st.step (.statement ("gpio_out.mask = " ++ mask ++ ";")) =
      ({ st with setup := st.setup.set mask .mask }, []) := st.step_assignment .mask mask none
  have hpad (st : PinState) : st.step (.statement "gpio_out.pad = MXC_GPIO_PAD_NONE;") =
      ({ st with setup := st.setup.set "MXC_GPIO_PAD_NONE" .pad }, []) := rfl
  have hfunc (st : PinState) : st.step (.statement "gpio_out.func = MXC_GPIO_FUNC_OUT;") =
      ({ st with setup := st.setup.set "MXC_GPIO_FUNC_OUT" .func }, []) := rfl
  have hconfig (st : PinState) : st.step (callProvided "MXC_GPIO_Config" ["&gpio_out"]) =
      ({ st with configured := some st.setup }, []) := rfl
  simp only [drivePin, run, hdeclare, hport, hmask, hpad, hfunc, hconfig, List.nil_append]
  exact run_driver (.output port mask) level []

end PinState

end AccelFirmware
