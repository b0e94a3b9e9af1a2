import AccelFirmware.Proofs.Delegation

/-!
# Options that a host has no use for

A host leaves the accelerator to its companion. How the accelerator is to be run therefore changes nothing in the program of the
host: two configurations that differ in no more than that have the same sources, functions and stages. The groups count among
these options wherever the host does not power the accelerator up.
-/

namespace AccelFirmware

/-- These settings, with the accelerator run as in other settings. -/
def Settings.runAs (s other : Settings) : Settings :=
  { s with
    master := other.master
    oneshot := other.oneshot
    stopStart := other.stopStart
    fifo := other.fifo
    boost := other.boost
    retrieval := other.retrieval
    outputWidth := other.outputWidth
    bias := other.bias
    loadKernels := other.loadKernels
    verifyOutput := other.verifyOutput
    forever := other.forever
    waitMode := other.waitMode
    failIndicator := other.failIndicator
    jtagDebug := other.jtagDebug
    groups := other.groups }

/-- Configurations that differ in no more than how the accelerator is run, and that have the same groups where these are powered
up together with the core. -/
structure Configuration.AlikeOnHost (d : Device) (c c' : Configuration) : Prop where
  options : c'.toSettings = c.toSettings.runAs c'.toSettings
  groups : c.target = .simulation → d.modernSim = false → c'.groups = c.groups

namespace Plan

/-- Plans of hosts that differ in no more than how the accelerator is run. -/
structure AlikeOnHost (p q : Plan) : Prop where
  host : p.config.topology = .armHost
  options : q.config.toSettings = p.config.toSettings.runAs q.config.toSettings
  device : q.device = p.device
  verifies : q.verifies = p.verifies
  mask : p.config.target = .simulation → p.device.modernSim = false → q.mask = p.mask

namespace AlikeOnHost

variable {p q : Plan}

/-- The other plan is this one but for the run of the accelerator, which `owns` keeps a host from looking at. -/
theorem exists_eq (h : p.AlikeOnHost q) : ∃ settings legal mask units,
    q = ⟨⟨p.config.toSettings.runAs settings, legal⟩, p.device, mask, units, p.verifies⟩ := by
  obtain ⟨⟨settings, legal⟩, device, mask, units, verifies⟩ := q
  obtain ⟨-, hoptions, hdevice, hverifies, -⟩ := h
  dsimp only at hoptions hdevice hverifies
  subst hdevice hverifies
  refine ⟨settings, hoptions ▸ legal, mask, units, ?_⟩
  congr 2

theorem owns_left (h : p.AlikeOnHost q) : p.owns = false := by
  rw [owns, h.host]
  rfl

theorem owns_right (h : p.AlikeOnHost q) : q.owns = false := by
  have hp := h.owns_left
  obtain ⟨settings, legal, mask, units, rfl⟩ := h.exists_eq
  exact hp

theorem declarations_eq (h : p.AlikeOnHost q) : q.declarations = p.declarations := by
  have hhead (sink : Sink) (part : Part) : q.sourceHead sink part = p.sourceHead sink part := by
    rw [sourceHead, sourceHead, h.owns_left, h.owns_right]
    obtain ⟨settings, legal, mask, units, rfl⟩ := h.exists_eq
    rfl
  have hlayout : q.config.layout = p.config.layout := by rw [h.options]; rfl
  simp only [declarations, hhead, hlayout]

theorem fileScopeFunctions_eq (h : p.AlikeOnHost q) : q.fileScopeFunctions = p.fileScopeFunctions := by
  rw [fileScopeFunctions, fileScopeFunctions, h.owns_left, h.owns_right]
  obtain ⟨settings, legal, mask, units, rfl⟩ := h.exists_eq
  rfl

theorem locals_eq (h : p.AlikeOnHost q) : q.locals = p.locals := by
  have hprints : p.printsClasses = false ∧ q.printsClasses = false := by
    simp only [printsClasses, h.owns_left, h.owns_right, Bool.and_false, and_self]
  have hvariables : q.localVariables = p.localVariables := by
    simp only [localVariables, printoutLocals, hprints, h.owns_left, h.owns_right, Bool.false_and]
    obtain ⟨settings, legal, mask, units, rfl⟩ := h.exists_eq
    rfl
  rw [locals, locals, hvariables]

/-- The groups get into the bring-up of the core only with the power of the accelerator. -/
theorem coreClock_eq (h : p.AlikeOnHost q) : q.coreClock = p.coreClock := by
  have hsdk : q.sdk = p.sdk := by rw [sdk, h.options]; rfl
  rw [coreClock, coreClock, hsdk]
  cases hp : p.sdk with
  | true =>
    obtain ⟨settings, legal, mask, units, rfl⟩ := h.exists_eq
    rfl
  | false =>
    have htarget : p.config.target = .simulation := by
      cases ht : p.config.target <;> simp [sdk, ht, Target.usesSdk] at hp
      rfl
    simp only [Bool.false_eq_true, if_false, simulationCoreClock, h.device]
    cases hm : p.device.modernSim with
    | true =>
      obtain ⟨settings, legal, mask, units, rfl⟩ := h.exists_eq
      rfl
    | false =>
      have hmask := h.mask htarget hm
      obtain ⟨settings, legal, mask, units, rfl⟩ := h.exists_eq
      cases hmask
      rfl

theorem coreBringUp_eq (h : p.AlikeOnHost q) : q.coreBringUp = p.coreBringUp := by
  have hboot (m : CompanionMemory) : q.bootCompanion m = p.bootCompanion m := by
    obtain ⟨settings, legal, mask, units, rfl⟩ := h.exists_eq
    rfl
  have hhost : q.config.topology = .armHost := by
    rw [h.options]
    exact h.host
  rw [coreBringUp, coreBringUp, h.host, hhost]
  simp only [h.coreClock_eq, hboot, h.device]

theorem epilogue_eq (h : p.AlikeOnHost q) : q.epilogue = p.epilogue := by
  obtain ⟨settings, legal, mask, units, rfl⟩ := h.exists_eq
  rfl

theorem actions_eq (h : p.AlikeOnHost q) : q.actions = p.actions := by
  have hcamera : q.camera = p.camera := by
    obtain ⟨settings, legal, mask, units, rfl⟩ := h.exists_eq
    rfl
  have hphases : q.acceleratorPhases = p.acceleratorPhases := by
    simp only [acceleratorPhases, h.owns_left, h.owns_right, Bool.false_eq_true, if_false]
  rw [actions, actions, h.declarations_eq, h.fileScopeFunctions_eq, h.locals_eq, h.coreBringUp_eq, hcamera, hphases, h.epilogue_eq]

end AlikeOnHost

end Plan

namespace Synthesis

variable {c c' : Configuration} {d : Device} {i i' : Inputs} {s t : Synthesis}

/-- Syntheses that agree in all but their advice. -/
structure SameButAdvice (s t : Synthesis) : Prop where
  streams : s.streams = t.streams
  fileNames : ∀ sink, s.config.fileName sink = t.config.fileName sink
  functions : s.program.text.functions = t.program.text.functions
  stages : s.program.lifecycle.history = t.program.lifecycle.history
  fatalChecks : s.program.lifecycle.fatalChecks = t.program.lifecycle.fatalChecks
  /-- Warnings about the device are the same, and come ahead of the advice. -/
  warnings : ∃ aboutDevice, s.warnings = aboutDevice ++ advisories s.config ∧ t.warnings = aboutDevice ++ advisories t.config
  /-- Warnings aside, the reports are the same. -/
  report : ∀ warnings, { s.report with warnings } = { t.report with warnings }

theorem plan_alikeOnHost (hs : run c d i = .ok s) (ht : run c' d i' = .ok t) (hhost : c.topology = .armHost)
    (hc : c.AlikeOnHost d c') (hi : i'.expected = i.expected) : s.plan.AlikeOnHost t.plan := by
  obtain ⟨-, -, -, hplan, -⟩ := run_steps hs
  obtain ⟨-, -, -, hplan', -⟩ := run_steps ht
  obtain ⟨hmask, -, hconfig, hdevice, hverifies⟩ := Plan.make_ok hplan
  obtain ⟨hmask', -, hconfig', hdevice', hverifies'⟩ := Plan.make_ok hplan'
  refine ⟨by rw [hconfig, hhost], by rw [hconfig, hconfig', ← hc.options], hdevice'.trans hdevice.symm, ?_, ?_⟩
  · rw [hverifies', hverifies, hi]
  · intro htarget hmodern
    rw [hconfig] at htarget
    rw [hdevice] at hmodern
    rw [hc.groups htarget hmodern, hmask] at hmask'
    exact (Except.ok.inj hmask').symm

/-- How the accelerator is run changes nothing that the host of a companion is made of. -/
theorem host_ignores_accelerator (hs : run c d i = .ok s) (ht : run c' d i' = .ok t) (hhost : c.topology = .armHost)
    (hc : c.AlikeOnHost d c') (hi : i'.expected = i.expected) : s.SameButAdvice t := by
  have halike := plan_alikeOnHost hs ht hhost hc hi
  obtain ⟨-, -, -, -, hprogram⟩ := run_steps hs
  obtain ⟨-, -, -, -, hprogram'⟩ := run_steps ht
  rw [halike.actions_eq, hprogram] at hprogram'
  have hsame : s.program = t.program := Except.ok.inj hprogram'
  have hstreams : s.streams = t.streams := by rw [streams, streams, hsame]
  have hdevice : t.device = s.device := halike.device
  have hoptions : t.config.toSettings = s.config.toSettings.runAs t.config.toSettings := halike.options
  refine ⟨hstreams, ?_, by rw [hsame], by rw [hsame], by rw [hsame], ⟨deviceWarnings s.device, rfl, ?_⟩, ?_⟩
  · intro sink
    cases sink with
    | main | api => rfl
    | weights | sampleData =>
      rw [Configuration.fileName, Configuration.fileName, hoptions]
      rfl
  · rw [warnings, hdevice]
  · intro warnings
    rw [report, report, hsame, hdevice, hstreams, hoptions]
    rfl

def plainHost : Configuration :=
  ⟨{ Settings.initial with target := .embedded, topology := .armHost, groups := .ofList [0] }, by decide⟩

/-- A host whose companion runs another accelerator, in about every other way. -/
def busyHost : Configuration :=
  ⟨{ plainHost.toSettings with
      master := some 2, oneshot := 3, stopStart := true, fifo := true, boost := some ⟨2, 5⟩, retrieval := .fullyConnected
      outputWidth := .w32, bias := true, loadKernels := false, verifyOutput := false, forever := true, waitMode := .spin
      failIndicator := true, jtagDebug := true, groups := .ofList [1, 2] }, by decide⟩

theorem host_ignores_accelerator_busy : ∃ s t, run plainHost .ai85 .empty = .ok s ∧ run busyHost .ai85 smallWeights = .ok t ∧
    plainHost.topology = .armHost ∧ plainHost.AlikeOnHost .ai85 busyHost ∧ smallWeights.expected = Inputs.empty.expected ∧
    s.SameButAdvice t ∧ s.warnings ≠ t.warnings := by
  obtain ⟨s, hs⟩ := exists_run (c := plainHost) (d := .ai85) (i := .empty) (by decide)
  obtain ⟨t, ht⟩ := exists_run (c := busyHost) (d := .ai85) (i := smallWeights) (by decide)
  have halike : plainHost.AlikeOnHost .ai85 busyHost := ⟨rfl, fun hsimulation _ => by cases hsimulation⟩
  refine ⟨s, t, hs, ht, rfl, halike, rfl, host_ignores_accelerator hs ht rfl halike rfl, ?_⟩
  obtain ⟨-, hc, hd, -⟩ := run_ok hs
  obtain ⟨-, hc', hd', -⟩ := run_ok ht
  rw [warnings, warnings, config, config, device, device, hc, hc', hd, hd', ne_eq, List.append_right_inj]
  decide

end Synthesis

end AccelFirmware
