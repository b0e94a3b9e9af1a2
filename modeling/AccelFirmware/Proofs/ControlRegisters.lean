import AccelFirmware.Proofs.Addresses
import AccelFirmware.Proofs.RegisterContents
import AccelFirmware.Proofs.Reports
import Mathlib.Data.List.Nodup

/-!
# Control registers

Whether the control registers of a device fit into its address space, where they lie, and which of them a program writes: its
interrupt handler acknowledges every group in use at an address of its own, and the control of a run is that of one such group.
-/

namespace AccelFirmware

/-! ## Checked words -/

theorem exists_addChecked {a b : UInt32} (h : a.toNat + b.toNat < 2 ^ 32) :
    ∃ w, addChecked a b = some w ∧ w.toNat = a.toNat + b.toNat := by
  have hsome : addChecked a b = some (a + b) := if_pos h
  exact ⟨a + b, hsome, toNat_of_addChecked hsome⟩

theorem exists_mulChecked {a b : UInt32} (h : a.toNat * b.toNat < 2 ^ 32) :
    ∃ w, mulChecked a b = some w ∧ w.toNat = a.toNat * b.toNat := by
  have hsome : mulChecked a b = some (a * b) := if_pos h
  exact ⟨a * b, hsome, toNat_of_mulChecked hsome⟩

namespace Device

variable {d : Device} {group other : UInt8}

/-! ## Overflow -/

theorem toNat_lastGroup (d : Device) : d.lastGroup.toNat = d.groupCount.toNat - 1 := by
  rw [lastGroup]
  split
  · rename_i hzero
    rw [hzero]
    rfl
  · rename_i hne
    have hpos : d.groupCount.toNat ≠ 0 := fun hz => hne (UInt8.toNat_inj.1 hz)
    have hone : (1 : UInt8) ≤ d.groupCount := UInt8.le_iff_toNat_le.2 (Nat.one_le_iff_ne_zero.2 hpos)
    exact UInt8.toNat_sub_of_le _ _ hone

/-- No step towards the last control register is stricter than the whole sum. -/
theorem exists_lastCtl (h : d.ctlOffset d.lastGroup < 2 ^ 32) : ∃ w, d.lastCtl? = some w := by
  simp only [ctlOffset] at h
  have hgroup : d.lastGroup.toUInt32.toNat = d.lastGroup.toNat := UInt8.toNat_toUInt32 _
  have hfour : (4 : UInt32).toNat = 4 := rfl
  obtain ⟨base, hbase, nbase⟩ := exists_addChecked (a := d.apbBase) (b := d.cnnBase) (by omega)
  obtain ⟨offset, hoffset, noffset⟩ := exists_mulChecked (a := d.groupStride) (b := d.lastGroup.toUInt32) (by rw [hgroup]; omega)
  obtain ⟨start, hstart, nstart⟩ := exists_addChecked (a := base) (b := offset) (by rw [nbase, noffset, hgroup]; omega)
  obtain ⟨index, hindex, nindex⟩ := exists_mulChecked (a := d.ctlRegister) (b := 4) (by rw [hfour]; omega)
  obtain ⟨w, hw, -⟩ := exists_addChecked (a := start) (b := index) (by rw [nstart, nbase, noffset, nindex, hgroup, hfour]; omega)
  exact ⟨w, by simp [lastCtl?, hbase, hoffset, hstart, hindex, hw]⟩

theorem addressOverflow_mem_issues_iff : .addressOverflow ∈ d.issues ↔ 2 ^ 32 ≤ d.ctlOffset d.lastGroup := by
  have hissue : .addressOverflow ∈ d.issues ↔ d.lastCtl? = none := by simp [issues, findings]
  rw [hissue]
  constructor
  · intro hnone
    refine Nat.le_of_not_lt fun hlt => ?_
    obtain ⟨w, hw⟩ := exists_lastCtl hlt
    rw [hnone] at hw
    cases hw
  · intro hle
    cases hw : d.lastCtl? with
    | none => rfl
    | some w => exact absurd hle (Nat.not_le.2 (ctlOffset_of_lastCtl hw ▸ w.toNat_lt))

/-! ## Alignment and distance -/

theorem ctlOffset_mod_four (h : d.errors = []) (group : UInt8) : d.ctlOffset group % 4 = 0 := by
  have hfound : (DeviceIssue.misaligned,
      decide (d.apbBase % 4 ≠ 0) || decide (d.cnnBase % 4 ≠ 0) || decide (d.groupStride % 4 ≠ 0)) ∈ d.findings := by
    simp [findings]
  have hfine := finding_eq_false h hfound rfl
  simp only [ne_eq, Bool.or_eq_false_iff, decide_eq_false_iff_not, not_not] at hfine
  obtain ⟨⟨hbus, hblock⟩, hstride⟩ := hfine
  have hword {w : UInt32} (hw : w % 4 = 0) : w.toNat % 4 = 0 := by
    simpa using congrArg UInt32.toNat hw
  have hgroups : d.groupStride.toNat * group.toNat % 4 = 0 := by rw [Nat.mul_mod, hword hstride, Nat.zero_mul]
  have := hword hbus
  have := hword hblock
  rw [ctlOffset]
  omega

/-- Two groups never share a control register. -/
theorem eq_of_ctlAddress_eq (h : d.errors = []) (hg : group < d.groupCount) (ho : other < d.groupCount)
    (he : d.ctlAddress group = d.ctlAddress other) : group = other := by
  rw [← UInt32.toNat_inj, toNat_ctlAddress h hg, toNat_ctlAddress h ho, ctlOffset, ctlOffset] at he
  have hproduct : d.groupStride.toNat * group.toNat = d.groupStride.toNat * other.toNat := by omega
  by_contra hne
  -- One of the two is beyond the first group, so there is a distance between groups.
  have hstride : 0 < d.groupStride.toNat := by
    by_cases hzero : group = 0
    · exact groupStride_pos h ho fun hother => hne (hzero.trans hother.symm)
    · exact groupStride_pos h hg hzero
  exact hne (UInt8.toNat_inj.1 (Nat.eq_of_mul_eq_mul_left hstride hproduct))

end Device

/-! ## Writes of functions -/

namespace Operation

/-- The register that is written, how, and with which value. -/
def write? : Operation → Option (Register × WriteMode × String)
  | .write r mode value _ => some (r, mode, value)
  | _ => none

/-- Operations that hold no others are done one after the other. -/
theorem executionOfAll_of_simple (taken : String → Bool) {ops : List Operation} (h : ops.all isSimple = true) :
    executionOfAll taken ops = .ofList ops := by
  induction ops with
  | nil => rfl
  | cons op ops ih =>
    obtain ⟨hop, hops⟩ : op.isSimple = true ∧ ops.all isSimple = true := by simpa using h
    have hself : op.execution taken = .ofList [op] := by cases op <;> first | rfl | cases hop
    rw [executionOfAll, ih hops, hself]
    rfl

end Operation

open Operation

/-- The functions that control a run. -/
def controlFunctions : List String := ["cnn_continue", "cnn_stop"]

namespace Plan

open AccelFirmware.Action EmitStep

variable {p : Plan}

theorem handler_mem (ho : p.owns = true) (hw : p.waitStrategy = .interrupt) :
    ⟨p.routeSink, p.handlerSignature, p.handlerBody, none⟩ ∈ p.functions := by
  refine p.library_subset ho ?_
  simp [completionFunction, hw, whole, gather, steps, step?, Action.function]

/-- The bits of a control register that an acknowledgement clears: completion, and enabling where a run is not repeated. -/
def acknowledged (p : Plan) : UInt32 := if p.config.oneshot > 0 && !p.device.requireOneshotClear then 0x1000 else 0x1001

theorem valueIn?_acknowledgement (s : Contents) : valueIn? s (tokens p.acknowledgement.toList) = some (~~~p.acknowledged) := by
  rw [acknowledgement, acknowledged]
  split <;> rfl

theorem writes_handlerBody (taken : String → Bool) : (executionOfAll taken p.handlerBody).filterMap write? =
    .ofList (p.config.groups.members.map fun g => (.address (p.device.ctlAddress g), .keepBits, p.acknowledgement)) := by
  rw [executionOfAll_of_simple taken p.simple_handlerBody, Execution.filterMap_ofList, handlerBody]
  have hgroups : (p.config.groups.members.map fun g => writeAt (p.device.ctlAddress g) .keepBits p.acknowledgement).filterMap write? =
      p.config.groups.members.map fun g => (.address (p.device.ctlAddress g), .keepBits, p.acknowledgement) := by
    rw [List.filterMap_map, ← List.filterMap_eq_map]
    rfl
  have hcomplete : (if p.embedded && !p.config.measureEnergy then
      [Operation.statement "CNN_COMPLETE;" (some "Signal that processing is complete")] else []).filterMap write? = [] := by
    split <;> rfl
  have hpending : (if p.config.topology = .companion then
      [.blank, callProvided "NVIC_ClearPendingIRQ" ["CNN_IRQn"], callProvided "NVIC_ClearPendingEVENT" ["CNN_IRQn"]]
      else []).filterMap write? = [] := by
    split <;> rfl
  simp only [List.cons_append, List.filterMap_cons, List.filterMap_append, hgroups, hcomplete, hpending]
  simp [write?]

/-- With a master group, both functions are there, and each of them writes the control register of that group and no other. -/
theorem exists_control (ho : p.owns = true) {master : UInt8} (hm : p.config.master = some master) {name : String}
    (hname : name ∈ controlFunctions) : ∃ f ∈ p.functions, f.signature.name = name ∧ ∃ mode value, ∀ taken,
      (executionOfAll taken f.body).filterMap write? = .ofList [(.address (p.device.ctlAddress master), mode, value)] := by
  have hlibrary : ∀ f ∈ gather whole (p.groupControl p.routeSink), f ∈ p.functions := by
    intro f hf
    refine p.library_subset ho ?_
    rw [← List.singleton_append, gather_append]
    exact List.mem_append_right _ hf
  simp only [groupControl, hm, gather_function, gather_nil, whole, List.append_nil, List.cons_append, List.nil_append,
    List.forall_mem_cons] at hlibrary
  obtain ⟨hcontinue, hstop, -⟩ := hlibrary
  rcases List.mem_cons.1 hname with rfl | hname
  · refine ⟨_, hcontinue, rfl, .setBits, "1", fun taken => ?_⟩
    cases p.waitStrategy <;> rfl
  · obtain rfl := List.mem_singleton.1 hname
    exact ⟨_, hstop, rfl, .keepBits, "~1", fun _ => rfl⟩

/-- Without a master group, or without the accelerator, nothing controls a run. -/
theorem Coherent.master_of_control (h : p.Coherent) {f : EmittedFunction} (hf : f ∈ p.functions)
    (hname : f.signature.name ∈ controlFunctions) : p.owns = true ∧ ∃ master, p.config.master = some master := by
  have hdefined : f.definition ∈ p.definitions := by
    rw [← functions_definitions]
    exact List.mem_map_of_mem hf
  have hother {ds : List Definition} (hds : ∀ d ∈ ds, d.name ∉ controlFunctions) : f.definition ∉ ds :=
    fun hd => hds _ hd hname
  have hfail : f.definition ∉ p.failDefinitions := hother (by simp only [failDefinitions]; split <;> decide)
  have hunits : f.definition ∉ p.unitDefinitions := by
    cases ho : p.owns with
    | false => simp [unitDefinitions, ho]
    | true =>
      have hlayers : ∀ name ∈ p.layerNames, name ∉ controlFunctions := by
        rw [layerNames]
        cases p.config.retrieval <;> cases p.verifies <;> decide
      exact hother fun d hd => hlayers d.name (h.unitDefinition_names ho ▸ List.mem_map_of_mem hd)
  have hhost : f.definition ∉ p.hostDefinitions := hother (by simp only [hostDefinitions]; (repeat' split) <;> decide)
  have hapi : f.definition ∉ p.apiDefinitions := hother (by simp only [apiDefinitions]; (repeat' split) <;> decide)
  have hmain : f.definition ∉ [⟨.main, "main"⟩] := hother (by decide)
  have hlibrary : f.definition ∈ p.libraryDefinitions := by
    simp only [definitions, List.mem_append] at hdefined
    tauto
  rw [libraryDefinitions] at hlibrary
  split at hlibrary
  · rename_i ho
    refine ⟨ho, ?_⟩
    cases hm : p.config.master with
    | some master => exact ⟨master, rfl⟩
    | none =>
      have hcompletion : p.completionName ∉ controlFunctions := by
        simp only [completionName, handlerSignature]
        (repeat' split) <;> decide
      simp only [hm, Option.isSome_none, Bool.false_eq_true, if_false, List.mem_singleton] at hlibrary
      have hsame : f.signature.name = p.completionName := congrArg Definition.name hlibrary
      exact absurd (hsame ▸ hname) hcompletion
  · cases hlibrary

end Plan

namespace Synthesis

/-- The overflow of addresses is found exactly where the last control register does not fit. Without errors, the control
registers lie where the sum says, aligned and each at an address of its own. Programs then acknowledge every group in use once,
and control their run through the register of such a group. -/
theorem control_registers (d : Device) :
    (.addressOverflow ∈ d.issues ↔ 2 ^ 32 ≤ d.apbBase.toNat + d.cnnBase.toNat +
      d.groupStride.toNat * (d.groupCount.toNat - 1) + 4 * d.ctlRegister.toNat) ∧
    (d.errors = [] →
      (∀ g < d.groupCount, ∃ sum, sum = d.apbBase.toNat + d.cnnBase.toNat + d.groupStride.toNat * g.toNat + 4 * d.ctlRegister.toNat ∧
        (d.ctlAddress g).toNat = sum ∧ sum < 2 ^ 32 ∧ sum % 4 = 0) ∧
      ∀ g < d.groupCount, ∀ g' < d.groupCount, g ≠ g' → d.ctlAddress g ≠ d.ctlAddress g') ∧
    ∀ c i s, run c d i = .ok s → s.WritesFunctions ∧
      (c.topology.ownsAccelerator = true → c.waitStrategy d = .interrupt →
        ∃ f ∈ s.plan.functions, f.signature = s.plan.handlerSignature ∧ (c.groups.members.map d.ctlAddress).Nodup ∧
          ∃ value, (∀ t, valueIn? t (tokens value.toList) = some (~~~s.plan.acknowledged)) ∧ ∀ taken,
            (executionOfAll taken f.body).filterMap write? =
              .ofList (c.groups.members.map fun g => (.address (d.ctlAddress g), .keepBits, value))) ∧
      ∀ f ∈ s.plan.functions, f.signature.name ∈ controlFunctions → ∃ g ∈ c.groups, ∃ mode value, ∀ taken,
        (executionOfAll taken f.body).filterMap write? = .ofList [(.address (d.ctlAddress g), mode, value)] := by
  have hoffset (g : UInt8) : d.apbBase.toNat + d.cnnBase.toNat + d.groupStride.toNat * g.toNat + 4 * d.ctlRegister.toNat =
      d.ctlOffset g := by rw [Device.ctlOffset, Nat.mul_comm 4]
  refine ⟨?_, fun hsound => ⟨fun g hg => ?_, fun g hg g' hg' hne he => hne (Device.eq_of_ctlAddress_eq hsound hg hg' he)⟩, ?_⟩
  · rw [← Device.toNat_lastGroup, hoffset]
    exact Device.addressOverflow_mem_issues_iff
  · have haddress := Device.toNat_ctlAddress hsound hg
    exact ⟨_, rfl, haddress.trans (hoffset g).symm, hoffset g ▸ haddress ▸ (d.ctlAddress g).toNat_lt,
      hoffset g ▸ Device.ctlOffset_mod_four hsound g⟩
  · intro c i s h
    have hwrites := writes_functions h
    have hinRange : ∀ g ∈ c.groups, g < d.groupCount := (enforces_run c d i).met h (q := .groupsInRange) (by simp [Demand.all])
    obtain ⟨hcoherent, rfl, rfl, -⟩ := run_ok h
    refine ⟨hwrites, fun ho hw => ?_, fun f hf hname => ?_⟩
    · have hdistinct : (s.plan.config.groups.members.map s.plan.device.ctlAddress).Nodup := by
        have hnodup : s.plan.config.groups.members.Nodup := s.plan.config.groups.ascending.imp fun hlt => UInt8.ne_of_lt hlt
        exact List.Nodup.map_on (fun g hg g' hg' => Device.eq_of_ctlAddress_eq hcoherent.sound (hinRange g hg) (hinRange g' hg')) hnodup
      exact ⟨_, Plan.handler_mem ho hw, rfl, hdistinct, _, Plan.valueIn?_acknowledgement, Plan.writes_handlerBody⟩
    · obtain ⟨ho, master, hmaster⟩ := hcoherent.master_of_control hf hname
      obtain ⟨f', hf', hsame, hwrites⟩ := Plan.exists_control ho hmaster hname
      obtain rfl : f' = f := List.inj_on_of_nodup_map hcoherent.functionNames_nodup hf' hf hsame
      exact ⟨master, s.plan.config.master_mem hmaster, hwrites⟩

/-- Two groups that are acknowledged by the handler, and a run that stops through the register of the first one. -/
theorem control_registers_sample : Device.ai87.errors = [] ∧ (Device.ai87.ctlAddress 3).toNat = 0x50d00000 ∧
    ∃ s, run .sample .ai87 .empty = .ok s ∧
      (∃ f ∈ s.plan.functions, f.signature = .procedure "CNN_ISR" ∧ ∃ value, ∀ taken,
        (executionOfAll taken f.body).filterMap write? =
          .ofList [(.address 0x50100000, .keepBits, value), (.address 0x50500000, .keepBits, value)]) ∧
      ∃ f ∈ s.plan.functions, f.signature.name = "cnn_stop" ∧ ∃ g ∈ Configuration.sample.groups, ∃ mode value, ∀ taken,
        (executionOfAll taken f.body).filterMap write? = .ofList [(.address (Device.ai87.ctlAddress g), mode, value)] := by
  obtain ⟨-, hsums, hruns⟩ := control_registers .ai87
  obtain ⟨haddresses, -⟩ := hsums (by decide)
  obtain ⟨sum, rfl, hsum, -⟩ := haddresses 3 (by decide)
  obtain ⟨s, hs⟩ := exists_run (c := .sample) (d := .ai87) (i := .empty) (by decide)
  obtain ⟨-, hhandler, hcontrol⟩ := hruns .sample .empty s hs
  obtain ⟨-, hconfig, hdevice, -⟩ := run_ok hs
  refine ⟨by decide, hsum, s, hs, ?_, ?_⟩
  · obtain ⟨f, hf, hsignature, -, value, -, hwrites⟩ := hhandler rfl rfl
    refine ⟨f, hf, ?_, value, hwrites⟩
    rw [hsignature, Plan.handlerSignature, hconfig]
    rfl
  · have howns : s.plan.owns = true := by rw [Plan.owns, hconfig]; rfl
    have hmaster : s.plan.config.master = some 0 := by rw [hconfig]; rfl
    obtain ⟨f, hf, hname, -⟩ := Plan.exists_control howns hmaster (show "cnn_stop" ∈ controlFunctions by decide)
    exact ⟨f, hf, hname, hcontrol f hf (by rw [hname]; decide)⟩

end Synthesis

end AccelFirmware
