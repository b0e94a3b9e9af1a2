import AccelFirmware.Operation.Render
import AccelFirmware.Proofs.Addresses
import AccelFirmware.Proofs.Numerals

/-!
# What is polled

Programs without an interrupt wait in `cnn_wait()`, which polls one word of the accelerator. That word is the start of its
control block, which is the control register of a group only for the first group, and only where the register comes first.
-/

namespace AccelFirmware

namespace Operation

/-- The condition of a wait for the completion bit of the word at an address. -/
def pollOf (address : UInt32) : String :=
  "(" ++ (Register.address address).render ++ " & (1<<12)) != 1<<12"

/-- Operations that wait for the completion bit of the word at an address. -/
def Polls (ops : List Operation) (address : UInt32) : Prop :=
  ∃ note, .waitUntil (pollOf address) note ∈ ops

/-- Different words are polled by different conditions. -/
theorem pollOf_injective : Function.Injective pollOf := by
  intro a b h
  have hrender : "*((volatile uint32_t *) 0x" ++ hexWide 8 a.toNat ++ ")" =
      "*((volatile uint32_t *) 0x" ++ hexWide 8 b.toNat ++ ")" := eq_of_surrounded h
  exact UInt32.toNat_inj.1 (hexWide_injective 8 (eq_of_surrounded hrender))

/-- A single wait polls one word. -/
theorem polls_singleton_iff {a b : UInt32} {note : Option String} :
    Polls [.waitUntil (pollOf a) note] b ↔ b = a := by
  constructor
  · rintro ⟨_, hm⟩
    obtain ⟨hcondition, _⟩ := Operation.waitUntil.inj (List.mem_singleton.1 hm)
    exact pollOf_injective hcondition
  · rintro rfl
    exact ⟨note, List.mem_singleton_self _⟩

end Operation

open Operation

namespace Plan

open AccelFirmware.Action EmitStep

variable {p : Plan}

theorem pollCondition_eq (p : Plan) : p.pollCondition = pollOf p.device.baseAddress := by
  have hhead : "(*((volatile uint32_t *) 0x" = "(" ++ "*((volatile uint32_t *) 0x" := by decide
  have htail : ") & (1<<12)) != 1<<12" = ")" ++ " & (1<<12)) != 1<<12" := by decide
  -- Stated for variables because the literals are appends to `String.append_assoc`, too.
  have hassoc (a b c d e : String) : (a ++ b) ++ c ++ (d ++ e) = a ++ (b ++ c ++ d) ++ e := by
    simp only [String.append_assoc]
  have h := hassoc "(" "*((volatile uint32_t *) 0x" (hexWide 8 p.device.baseAddress.toNat) ")" " & (1<<12)) != 1<<12"
  rw [← hhead, ← htail] at h
  exact h

theorem waitFunction_mem (ho : p.owns = true) (hw : p.waitStrategy = .poll) :
    ⟨p.routeSink, .procedure "cnn_wait", [.waitUntil p.pollCondition], none⟩ ∈ p.functions := by
  refine p.library_subset ho ?_
  simp [completionFunction, hw, whole, gather, steps, step?, Action.function]

theorem Coherent.wait_body (h : p.Coherent) (ho : p.owns = true) (hw : p.waitStrategy = .poll) :
    EmittedFunction.bodyOf "cnn_wait" p.functions = [.waitUntil p.pollCondition] := by
  have hbody := EmittedFunction.bodyOf_of_mem h.functionNames_nodup (waitFunction_mem ho hw)
  exact hbody

end Plan

namespace Synthesis

variable {c : Configuration} {d : Device} {i : Inputs} {s : Synthesis}

/-- A program without an interrupt polls a group that it runs only if the control register is the first one of its group and
the first group is in use; otherwise the word it waits for is not the control register of any group it runs. -/
theorem main_polls_group_iff (h : run c d i = .ok s) (ho : c.topology.ownsAccelerator = true)
    (hw : c.waitStrategy d = .poll) :
    (∃ g ∈ c.groups, Polls (EmittedFunction.bodyOf "cnn_wait" s.plan.functions) (d.ctlAddress g)) ↔
      d.ctlRegister = 0 ∧ 0 ∈ c.groups := by
  have hinRange : ∀ g ∈ c.groups, g < d.groupCount := (enforces_run c d i).met h (q := .groupsInRange) (by simp [Demand.all])
  obtain ⟨hcoherent, rfl, rfl, _⟩ := run_ok h
  rw [hcoherent.wait_body ho hw, Plan.pollCondition_eq]
  constructor
  · rintro ⟨g, hg, hpolls⟩
    obtain ⟨hregister, rfl⟩ :=
      (Device.ctlAddress_eq_baseAddress_iff hcoherent.sound (hinRange g hg)).1 (polls_singleton_iff.1 hpolls)
    exact ⟨hregister, hg⟩
  · rintro ⟨hregister, hg⟩
    refine ⟨0, hg, polls_singleton_iff.2 ?_⟩
    exact (Device.ctlAddress_eq_baseAddress_iff hcoherent.sound (hinRange 0 hg)).2 ⟨hregister, rfl⟩

/-- A simulation that runs the second group alone. -/
def secondGroup : Configuration := ⟨{ Settings.initial with groups := .ofList [1] }, by decide⟩

theorem main_polls_group_second : ∃ s, run secondGroup .ai84 .empty = .ok s ∧
    ¬ ∃ g ∈ secondGroup.groups, Polls (EmittedFunction.bodyOf "cnn_wait" s.plan.functions) (Device.ai84.ctlAddress g) := by
  obtain ⟨s, hs⟩ := exists_run (c := secondGroup) (d := .ai84) (i := .empty) (by decide)
  refine ⟨s, hs, ?_⟩
  rw [main_polls_group_iff hs rfl rfl]
  decide

end Synthesis

end AccelFirmware
