import AccelFirmware.Proofs.GroupMasks
import AccelFirmware.Proofs.Programs

/-!
# Outcomes of a synthesis

What a synthesis asks of its configuration, device and inputs. A demand is stated without the checks that enforce it. The
error of a run is that of the first demand which is not met, and nothing goes wrong once all of them are.
-/

namespace AccelFirmware

/-- What a run asks for, one constructor for every kind of error. -/
inductive Demand where
  | soundDevice
  | companionCore
  | pllClock
  | goldenLayer
  | groupsInRange
  | weightsGiven
  | weightsShaped
  deriving DecidableEq, Repr

def Configuration.needsWeights (c : Configuration) : Prop :=
  c.retrieval = .fullyConnected ∧ c.topology ≠ .armHost

namespace Demand

/-- Every demand, in the order in which a run looks at them. -/
def all : List Demand :=
  [.soundDevice, .companionCore, .pllClock, .goldenLayer, .groupsInRange, .weightsGiven, .weightsShaped]

/-- Sizes are numbers without bound here, so a product never overflows into the right length. -/
def Met (c : Configuration) (d : Device) (i : Inputs) : Demand → Prop
  | .soundDevice => d.errors = []
  | .companionCore => c.topology.isDualCore = true → d.companion.isSome = true
  | .pllClock => c.pll = true → d.clocks.pll.isSome = true
  | .goldenLayer => i.expected.isSome = true → c.retrieval = .fullyConnected
  | .groupsInRange => ∀ g ∈ c.groups, g < d.groupCount
  | .weightsGiven => c.needsWeights → i.weights.isSome = true
  | .weightsShaped => c.needsWeights → ∀ w, i.weights = some w → w.rows * w.cols = w.values.length

instance (c : Configuration) (d : Device) (i : Inputs) : (q : Demand) → Decidable (q.Met c d i)
  | .soundDevice => inferInstanceAs (Decidable (d.errors = []))
  | .companionCore => inferInstanceAs (Decidable (c.topology.isDualCore = true → d.companion.isSome = true))
  | .pllClock => inferInstanceAs (Decidable (c.pll = true → d.clocks.pll.isSome = true))
  | .goldenLayer => inferInstanceAs (Decidable (i.expected.isSome = true → c.retrieval = .fullyConnected))
  | .groupsInRange => List.decidableBAll (fun g => g < d.groupCount) c.groups.members
  | .weightsGiven =>
      inferInstanceAs (Decidable (c.retrieval = .fullyConnected ∧ c.topology ≠ .armHost → i.weights.isSome = true))
  | .weightsShaped =>
      decidable_of_iff (c.retrieval = .fullyConnected ∧ c.topology ≠ .armHost →
          i.weights.all (fun w => w.rows * w.cols = w.values.length) = true)
        (by cases hw : i.weights <;> simp [Met, Configuration.needsWeights, hw])

/-- The error for a demand that is not met. -/
def Reports (c : Configuration) (d : Device) (i : Inputs) (e : SynthesisError) : Demand → Prop
  | .soundDevice => e = .device (.invalid ("; ".intercalate (d.errors.map DeviceIssue.message)))
  | .companionCore => e = .unsupported .dualCore d.name
  | .pllClock => e = .unsupported .pll d.name
  | .goldenLayer => e = .config (.fullyConnectedRequired .goldenOutput)
  | .groupsInRange => ∃ g ∈ c.groups, d.groupCount ≤ g ∧ (∀ g' ∈ c.groups, g' < g → g' < d.groupCount) ∧
      e = .group ⟨g, d.name, d.groupCount⟩
  | .weightsGiven => e = .classification .missingWeights
  | .weightsShaped => ∃ w, i.weights = some w ∧ e = .classification (.shape ⟨w.rows, w.cols, w.values.length⟩)

/-- A demand that is not met although those before it are. -/
def FirstUnmet (c : Configuration) (d : Device) (i : Inputs) (demands : List Demand) (q : Demand) : Prop :=
  ∃ before after, demands = before ++ q :: after ∧ (∀ r ∈ before, r.Met c d i) ∧ ¬ q.Met c d i

end Demand

/-! ## Checks against demands -/

section

variable {c : Configuration} {d : Device} {i : Inputs} {α β : Type}

/-- A computation that succeeds if and only if some demands are met, and reports the first one that is not. -/
def Enforces (c : Configuration) (d : Device) (i : Inputs) (demands : List Demand) : Except SynthesisError α → Prop
  | .ok _ => ∀ q ∈ demands, q.Met c d i
  | .error e => ∃ q, Demand.FirstUnmet c d i demands q ∧ q.Reports c d i e

theorem Enforces.bind {x : Except SynthesisError α} {f : α → Except SynthesisError β} {qs : List Demand}
    (hx : Enforces c d i qs x) (rs : List Demand) (hf : ∀ a, x = .ok a → Enforces c d i rs (f a)) :
    Enforces c d i (qs ++ rs) (x >>= f) := by
  cases x with
  | error e =>
    obtain ⟨q, ⟨before, after, rfl, hb, hq⟩, he⟩ := hx
    exact ⟨q, ⟨before, after ++ rs, by simp, hb, hq⟩, he⟩
  | ok a =>
    have hfa := hf a rfl
    change Enforces c d i (qs ++ rs) (f a)
    cases hb : f a with
    | ok b =>
      rw [hb] at hfa
      intro q hq
      rcases List.mem_append.1 hq with hq | hq
      · exact hx q hq
      · exact hfa q hq
    | error e =>
      rw [hb] at hfa
      obtain ⟨q, ⟨before, after, rfl, hbefore, hq⟩, he⟩ := hfa
      refine ⟨q, ⟨qs ++ before, after, by simp, ?_, hq⟩, he⟩
      intro r hr
      rcases List.mem_append.1 hr with hr | hr
      · exact hx r hr
      · exact hbefore r hr

theorem Enforces.ok (a : α) : Enforces c d i [] (.ok a) := by
  simp [Enforces]

theorem Enforces.check {q : Demand} {qs : List Demand} {P : Prop} [Decidable P] {e : SynthesisError}
    {x : Except SynthesisError α} (hq : q.Met c d i ↔ ¬ P) (he : P → q.Reports c d i e)
    (hx : ¬ P → Enforces c d i qs x) : Enforces c d i (q :: qs) (if P then .error e else x) := by
  by_cases h : P
  · rw [if_pos h]
    exact ⟨q, ⟨[], qs, rfl, by simp, fun hm => hq.1 hm h⟩, he h⟩
  · rw [if_neg h]
    have hone : Enforces c d i [q] (.ok ()) := by simpa [Enforces] using hq.2 h
    exact hone.bind (f := fun _ => x) qs fun _ _ => hx h

theorem enforces_checkDevice : Enforces c d i [.soundDevice] (checkDevice d) := by
  rw [checkDevice, ← ite_not]
  refine .check ?_ (fun _ => rfl) fun _ => .ok ()
  simp [Demand.Met]

theorem enforces_checkSupport : Enforces c d i [.companionCore, .pllClock] (checkSupport c d) := by
  refine .check ?_ (fun _ => rfl) fun _ => .check ?_ (fun _ => rfl) fun _ => .ok ()
  · simp [Demand.Met, Device.hasCompanion, Option.isSome_iff_ne_none]
  · simp [Demand.Met, Device.supportsPll, Option.isSome_iff_ne_none]

theorem enforces_checkInputs : Enforces c d i [.goldenLayer] (checkInputs c i) := by
  refine .check ?_ (fun _ => rfl) fun _ => .ok ()
  simp [Demand.Met]

/-- Nothing that counts as an error is found in a device without errors. -/
theorem Device.finding_eq_false {issue : DeviceIssue} {found : Bool} (h : d.errors = [])
    (hf : (issue, found) ∈ d.findings) (hs : issue.severity = .error) : found = false := by
  by_contra hfound
  have hissue : issue ∈ d.errors := by
    simp only [Device.errors, Device.issues, List.mem_filter, List.mem_map]
    exact ⟨⟨(issue, found), ⟨hf, by simpa using hfound⟩, rfl⟩, by simp [hs]⟩
  rw [h] at hissue
  cases hissue

/-- A device without errors has at most sixteen groups. -/
theorem Device.groupCount_le (h : d.errors = []) : d.groupCount ≤ 16 := by
  have hfound : (DeviceIssue.groupCount d.groupCount, decide (d.groupCount = 0) || decide (d.groupCount > 16)) ∈
      d.findings := by simp [Device.findings]
  have hfine := Device.finding_eq_false h hfound rfl
  simp only [Bool.or_eq_false_iff, decide_eq_false_iff_not] at hfine
  exact UInt8.not_lt.1 hfine.2

theorem enforces_mask (h : d.errors = []) :
    Enforces c d i [.groupsInRange] ((GroupMask.make c.groups d).mapError SynthesisError.group) := by
  have hwidth := Device.maskWidth_eq (Device.groupCount_le h)
  cases hmake : GroupMask.make c.groups d with
  | ok m =>
    refine List.forall_mem_singleton.2 fun g hg => ?_
    have hin := (GroupMask.make_eq_ok_iff.1 hmake).1 g hg
    rw [hwidth] at hin
    exact UInt8.lt_iff_toNat_lt.2 hin
  | error e =>
    obtain ⟨⟨hg, hout, hleast⟩, he⟩ := GroupMask.make_eq_error_iff.1 hmake
    rw [hwidth] at hout
    have hout : d.groupCount ≤ e.group := UInt8.le_iff_toNat_le.2 hout
    refine ⟨.groupsInRange, ⟨[], [], rfl, by simp, fun hall => UInt8.not_le.2 (hall e.group hg) hout⟩, e.group, hg, hout, ?_,
      congrArg SynthesisError.group he⟩
    intro g hg hlt
    refine UInt8.not_le.1 fun hge => UInt8.not_le.2 hlt (hleast g hg ?_)
    rw [hwidth]
    exact UInt8.le_iff_toNat_le.1 hge

theorem enforces_units :
    Enforces c d i [.weightsGiven, .weightsShaped]
      ((classificationUnits c i).mapError SynthesisError.classification) := by
  have hneed : c.needsWeights ↔ c.retrieval = .fullyConnected ∧ c.topology.ownsAccelerator = true := by
    rw [Configuration.needsWeights]
    cases c.topology <;> simp [Topology.ownsAccelerator]
  have hnone (hn : ¬ c.needsWeights) : ∀ q ∈ [Demand.weightsGiven, .weightsShaped], q.Met c d i := by
    simp [Demand.Met, hn]
  simp only [classificationUnits, LayerStyle.mapM_verification]
  cases hr : c.retrieval with
  | unload => exact hnone (by simp [hneed, hr])
  | softmaxOnly =>
    simp only [LayerKind.ofRetrieval?]
    split <;> exact hnone (by simp [hneed, hr])
  | fullyConnected =>
    simp only [LayerKind.ofRetrieval?]
    cases ho : c.topology.ownsAccelerator with
    | false => exact hnone (by simp [hneed, ho])
    | true =>
      have hn : c.needsWeights := hneed.2 ⟨hr, ho⟩
      cases hw : i.weights with
      | none =>
        refine ⟨.weightsGiven, ⟨[], [.weightsShaped], rfl, by simp, fun hm => ?_⟩, rfl⟩
        have hgiven : i.weights.isSome = true := hm hn
        simp [hw] at hgiven
      | some w =>
        have hgiven : Demand.weightsGiven.Met c d i := fun _ => by simp [hw]
        by_cases hs : w.rows * w.cols = w.values.length
        · have hshaped : Demand.weightsShaped.Met c d i := by
            intro _ w' hw'
            cases hw.symm.trans hw'
            exact hs
          simpa [LayerStyle.layer, WeightMatrix.checkShape, hs, LayerStyle.fullyConnected_eq, bind, Except.bind,
            Except.mapError, pure, Except.pure, Enforces] using ⟨hgiven, hshaped⟩
        · have hshaped : ¬ Demand.weightsShaped.Met c d i := fun hm => hs (hm hn w hw)
          simp only [LayerStyle.layer, WeightMatrix.checkShape, if_neg hs, if_true, bind, Except.bind, Except.mapError]
          exact ⟨.weightsShaped, ⟨[.weightsGiven], [], rfl, by simpa using hgiven, hshaped⟩, w, hw, rfl⟩

theorem enforces_make (h : d.errors = []) :
    Enforces c d i [.groupsInRange, .weightsGiven, .weightsShaped] (Plan.make c d i) := by
  refine (enforces_mask h).bind [.weightsGiven, .weightsShaped] fun mask _ => ?_
  exact enforces_units.bind [] fun units _ => .ok _

/-! ## Runs -/

theorem bind_eq_ok {ε : Type} {x : Except ε α} {f : α → Except ε β} {b : β} :
    (x >>= f) = .ok b ↔ ∃ a, x = .ok a ∧ f a = .ok b := by
  cases x <;> simp [bind, Except.bind]

theorem mapError_eq_ok {ε ε' : Type} {x : Except ε α} {f : ε → ε'} {a : α} : x.mapError f = .ok a ↔ x = .ok a := by
  cases x <;> simp [Except.mapError]

theorem Enforces.met {x : Except SynthesisError α} {qs : List Demand} {a : α} (h : Enforces c d i qs x)
    (hx : x = .ok a) {q : Demand} (hq : q ∈ qs) : q.Met c d i := by
  rw [hx] at h
  exact h q hq

theorem Plan.make_ok {p : Plan} (h : Plan.make c d i = .ok p) :
    GroupMask.make c.groups d = .ok p.mask ∧ classificationUnits c i = .ok p.units ∧ p.config = c ∧ p.device = d ∧
      p.verifies = i.expected.isSome := by
  simp only [Plan.make] at h
  cases hm : GroupMask.make c.groups d with
  | error e => rw [hm] at h; cases h
  | ok mask =>
    cases hu : classificationUnits c i with
    | error e => rw [hm, hu] at h; cases h
    | ok units =>
      rw [hm, hu] at h
      cases h
      exact ⟨rfl, rfl, rfl, rfl, rfl⟩

/-- The plan of a run is coherent by the time its actions are run. -/
theorem Plan.make_coherent {p : Plan} (hd : checkDevice d = .ok ()) (hs : checkSupport c d = .ok ())
    (hi : checkInputs c i = .ok ()) (h : Plan.make c d i = .ok p) : p.Coherent := by
  obtain ⟨hmask, hunits, rfl, rfl, hv⟩ := Plan.make_ok h
  exact {
    sound := (enforces_checkDevice (c := p.config) (i := i)).met hd (q := .soundDevice) (by simp)
    companion := (enforces_checkSupport (i := i)).met hs (q := .companionCore) (by simp)
    pll := (enforces_checkSupport (i := i)).met hs (q := .pllClock) (by simp)
    golden := by
      rw [hv]
      exact (enforces_checkInputs (d := p.device)).met hi (q := .goldenLayer) (by simp)
    mask := hmask
    units := ⟨i, hunits, hv.symm⟩ }

theorem Synthesis.enforces_run (c : Configuration) (d : Device) (i : Inputs) :
    Enforces c d i Demand.all (run c d i) := by
  refine enforces_checkDevice.bind (Demand.all.drop 1) fun _ hd => ?_
  refine enforces_checkSupport.bind (Demand.all.drop 3) fun _ hs => ?_
  refine enforces_checkInputs.bind (Demand.all.drop 4) fun _ hi => ?_
  have hsound : d.errors = [] := (enforces_checkDevice (c := c) (i := i)).met hd (q := .soundDevice) (by simp)
  refine (enforces_make hsound).bind [] fun p hp => ?_
  -- The plan is coherent by now, so the run of its actions adds no demand.
  obtain ⟨P, hP, _⟩ := (Plan.make_coherent hd hs hi hp).run_ok
  rw [hP]
  exact .ok _

end

namespace Synthesis

variable {c : Configuration} {d : Device} {i : Inputs}

/-- The checks pass one after the other, then the actions of the plan are run. -/
theorem run_steps {s : Synthesis} (h : run c d i = .ok s) :
    checkDevice d = .ok () ∧ checkSupport c d = .ok () ∧ checkInputs c i = .ok () ∧ Plan.make c d i = .ok s.plan ∧
      Program.ofActions s.plan.actions = .ok s.program := by
  obtain ⟨⟨⟩, hdevice, h⟩ := bind_eq_ok.1 h
  obtain ⟨⟨⟩, hsupport, h⟩ := bind_eq_ok.1 h
  obtain ⟨⟨⟩, hinputs, h⟩ := bind_eq_ok.1 h
  obtain ⟨p, hplan, h⟩ := bind_eq_ok.1 h
  obtain ⟨P, hprogram, h⟩ := bind_eq_ok.1 h
  cases h
  exact ⟨hdevice, hsupport, hinputs, hplan, mapError_eq_ok.1 hprogram⟩

/-- A run that gets through has run the actions of a coherent plan. -/
theorem run_ok {s : Synthesis} (h : run c d i = .ok s) :
    s.plan.Coherent ∧ s.plan.config = c ∧ s.plan.device = d ∧ s.plan.verifies = i.expected.isSome := by
  obtain ⟨hdevice, hsupport, hinputs, hplan, _⟩ := run_steps h
  obtain ⟨_, _, hc, hd, hv⟩ := Plan.make_ok hplan
  exact ⟨Plan.make_coherent hdevice hsupport hinputs hplan, hc, hd, hv⟩

/-- Where every demand is met, a run gets through. -/
theorem exists_run (h : ∀ q ∈ Demand.all, q.Met c d i) : ∃ s, run c d i = .ok s := by
  have hrun := enforces_run c d i
  cases hs : run c d i with
  | ok s => exact ⟨s, rfl⟩
  | error e =>
    rw [hs] at hrun
    obtain ⟨q, ⟨before, after, hall, _, hq⟩, _⟩ := hrun
    exact absurd (h q (by simp [hall])) hq

/-- A run gets through exactly when every demand is met. Its error is that of the first one which is not: the actions of a
plan are never refused by the emitter, the lifecycle or the device, and the arrays never for their format. -/
theorem run_outcome (c : Configuration) (d : Device) (i : Inputs) :
    ((∃ s, run c d i = .ok s) ↔ ∀ q ∈ Demand.all, q.Met c d i) ∧
    ∀ e, run c d i = .error e →
      (∃ q, Demand.FirstUnmet c d i Demand.all q ∧ q.Reports c d i e) ∧ (∀ inner, e ≠ .program inner) ∧
        ∀ inner, e ≠ .classification (.format inner) := by
  have hrun := enforces_run c d i
  refine ⟨⟨?_, exists_run⟩, ?_⟩
  · rintro ⟨s, hs⟩ q hq
    exact hrun.met hs hq
  · intro e he
    rw [he] at hrun
    obtain ⟨q, hq, hreports⟩ := hrun
    refine ⟨⟨q, hq, hreports⟩, ?_⟩
    cases q with
    | soundDevice | companionCore | pllClock | goldenLayer | weightsGiven =>
      obtain rfl := hreports
      simp
    | groupsInRange =>
      obtain ⟨_, _, _, _, rfl⟩ := hreports
      simp
    | weightsShaped =>
      obtain ⟨_, _, rfl⟩ := hreports
      simp

end Synthesis

/-! ## Samples -/

/-- A single core that runs three times, with the PLL, a boost circuit and the exercise of stopping. -/
def Settings.sample : Settings :=
  { initial with
    target := .embedded, oneshot := 2, stopStart := true, pll := true, boost := some ⟨2, 5⟩
    groups := .ofList [0, 1], master := some 0 }

def Configuration.sample : Configuration := ⟨.sample, by decide⟩

def Configuration.splitSample : Configuration := ⟨{ Settings.sample with layout := .splitApi }, by decide⟩

def Configuration.measuredSample : Configuration :=
  ⟨{ Settings.sample with layout := .splitApi, measureEnergy := true }, by decide⟩

end AccelFirmware
