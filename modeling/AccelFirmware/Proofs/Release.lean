import AccelFirmware.Proofs.HostMain
import AccelFirmware.Proofs.Reports

/-!
# Release of the companion

A host gives its companion an address to boot from, sets up the memory and the signal between the two, starts the clock of the
companion, and sleeps. Where the address is a symbol of the linker, the source has to declare the symbol.
-/

namespace AccelFirmware

/-! ## Steps towards the release -/

inductive HostStep where
  | bootAddress (value : String)
  | exclusiveMemory
  | handler
  | pause
  | release
  | sleep
  deriving DecidableEq, Repr

def HostStep.isBootAddress : HostStep → Bool
  | .bootAddress _ => true
  | _ => false

namespace Operation

def companionStep? : Operation → Option HostStep
  | .write register mode value _ =>
      if register = .named "MXC_FCR->urvbootaddr" ∨ register = .named "MXC_NBBFC->reg4" then some (.bootAddress value)
      else if register = .named "MXC_FCR->urvctrl" ∨ register = .address Plan.memoryControl then some .exclusiveMemory
      else if register = .named "MXC_GCR->perckcn1" ∧ mode = .keepBits ∧ value = "~MXC_F_GCR_PERCKCN1_CPU1" then some .release
      else none
  | .call callee args _ =>
      if callee.name = "MXC_SYS_ClockEnable" ∧ args = ["MXC_SYS_PERIPH_CLOCK_CPU1"] then some .release
      else if callee.name = "MXC_Delay" then some .pause
      else none
  | .installVector _ handler _ => if handler = "WakeISR" then some .handler else none
  | .await (.sleep .arm) => some .sleep
  | _ => none

/-- What an operation does for the release: whatever has the instruction for sleep in it is sleep. -/
def hostStep? (op : Operation) : Option HostStep :=
  if op.mentions Reserved.sleep.text then some .sleep else op.companionStep?

theorem companionStep?_eq_none {op : Operation} (h : ∀ t ∈ op.touches, t ∉ companionKinds) : op.companionStep? = none := by
  cases op with
  | call callee args note =>
    have hname (name : String) (hm : .function name ∈ companionKinds) : callee.name ≠ name := fun he =>
      h (.function callee.name) (by simp [touches]) (he ▸ hm)
    simp [companionStep?, hname "MXC_SYS_ClockEnable" (by decide), hname "MXC_Delay" (by decide)]
  | installVector irq handler note =>
    have hname : handler ≠ "WakeISR" := fun he => h (.handler handler) (by simp [touches]) (he ▸ by decide)
    simp [companionStep?, hname]
  | write register mode value note =>
    have hregister (r : Register) (hm : .register r ∈ companionKinds) : register ≠ r := fun he =>
      h (.register register) (by simp [touches]) (he ▸ hm)
    simp [companionStep?, hregister (.named "MXC_FCR->urvbootaddr") (by decide), hregister (.named "MXC_NBBFC->reg4") (by decide),
      hregister (.named "MXC_FCR->urvctrl") (by decide), hregister (.address Plan.memoryControl) (by decide),
      hregister (.named "MXC_GCR->perckcn1") (by decide)]
  | await wait => exact absurd (show Touch.completion ∈ companionKinds by decide) (h .completion (by simp [touches]))
  | _ => rfl

variable (taken : String → Bool)

def hostSteps (ops : List Operation) : Execution HostStep := (executionOfAll taken ops).filterMap hostStep?

@[simp] theorem hostSteps_append (as bs : List Operation) :
    hostSteps taken (as ++ bs) = (hostSteps taken as).andThen (hostSteps taken bs) := by
  simp [hostSteps, executionOfAll_append]

theorem hostSteps_of_awake {allowed : List Reserved} {ops : List Operation} (h : MentionsOnly allowed ops)
    (hs : .sleep ∉ allowed) : hostSteps taken ops = (executionOfAll taken ops).filterMap companionStep? := by
  refine Execution.filterMap_congr _ ((Lacks.steps h (Reserved.mem_otherWords hs) taken).mono fun op hop => ?_)
  rw [hostStep?, hop]
  rfl

theorem hostSteps_of_idle {allowed : List Reserved} {ops : List Operation} (h : MentionsOnly allowed ops)
    (hs : .sleep ∉ allowed) (ha : Avoids companionKinds ops) : hostSteps taken ops = .ofList [] := by
  rw [hostSteps_of_awake taken h hs]
  exact ha.filterMap (by decide) (fun _ => companionStep?_eq_none) taken

end Operation

open Operation

/-! ## The protocol -/

def linkerSymbol : Operation := .declare "extern volatile void const *__FlashStart_; // Defined in linker file"

/-- One release, with one address to boot from and all that is set up ahead of it, and sleep behind it. -/
def ReleasesOnce (steps : List HostStep) : Prop :=
  ∃ before after, steps = before ++ HostStep.release :: after ∧ .release ∉ before ∧ .release ∉ after ∧
    before.countP HostStep.isBootAddress = 1 ∧ after.countP HostStep.isBootAddress = 0 ∧
    .exclusiveMemory ∉ after ∧ .handler ∉ after ∧ .pause ∉ after ∧ after.count .sleep = 1

/-- The release of a companion, by the steps that the `main` of its host takes and the source that `main` stands in. -/
structure ReleaseProtocol (steps : Execution HostStep) (source : List Operation) : Prop where
  ends : steps.endless = none
  released : ReleasesOnce steps.once
  declared : Declared Reserved.flashStart.text linkerSymbol source

namespace Plan

variable {p : Plan}

open AccelFirmware.Action EmitStep Reserved

/-! ## Phases -/

variable (p)

def addressSteps (m : CompanionMemory) : List HostStep :=
  if p.config.bootFromFlashCache then
    [.bootAddress (if p.sdk then "(uint32_t) &__FlashStart_" else "0x" ++ hexWide 8 m.codeOrigin.toNat)]
  else if p.device.modernSim then [.bootAddress ("0x" ++ hexWide 8 m.sramOrigin.toNat)]
  else []

def memorySteps : List HostStep := if p.config.exclusiveSram then [.exclusiveMemory] else []

def signalSteps : List HostStep :=
  if p.hostsWakeHandler then .handler :: if p.sdk && p.config.debugWait > 0 then [.pause] else [] else []

/-- The symbol of the linker, where the companion boots from its flash cache. -/
def addressWords : List Reserved := if p.config.bootFromFlashCache && p.sdk then [.flashStart] else []

theorem mentions_bootAddress (m : CompanionMemory) : MentionsOnly p.addressWords (p.bootAddress m) := by
  have hregister {allowed : List Reserved} {register value : String} {note : Option String}
      (h : Excludes (otherWords allowed) register) (h' : Excludes (otherWords allowed) value) :
      MentionsOnly allowed [writeNamed register .assign value note] := by
    simpa [MentionsOnly, Lacks, textsOfAll, texts, writeNamed, Register.texts] using ⟨h, h'⟩
  have horigin (n : Nat) : Excludes (otherWords []) ("0x" ++ hexWide 8 n) :=
    excludes_others (.append .literal (.hexWide _ _)) rfl
  have hplain (note : Option String) (n : Nat) :
      MentionsOnly [] [writeNamed "MXC_FCR->urvbootaddr" .assign ("0x" ++ hexWide 8 n) note] :=
    hregister (excludes_others .literal rfl) (horigin n)
  simp only [bootAddress, addressWords]
  cases p.config.bootFromFlashCache with
  | true =>
    cases p.sdk with
    | true => exact mentionsOnly_of_spelled (by repeat' constructor)
    | false =>
      cases p.device.modernSim with
      | true => exact hplain _ _
      | false => exact hregister (excludes_others .literal rfl) (horigin _)
  | false =>
    cases p.device.modernSim with
    | true => exact hplain _ _
    | false => exact mentionsOnly_nil

theorem mentions_exclusiveMemory : MentionsOnly [] p.exclusiveMemory := by
  simp only [exclusiveMemory]
  (repeat' split) <;> exact mentionsOnly_of_spelled (by repeat' constructor)

theorem mentions_releaseCompanion : MentionsOnly [] p.releaseCompanion := by
  have hsignal : MentionsOnly []
      [callProvided "MXC_SYS_ClockEnable" ["MXC_SYS_PERIPH_CLOCK_SMPHR"] (some "Enable Semaphore clock"),
       .installVector "RISCV_IRQn" "WakeISR" (some "Set wakeup ISR")] := mentionsOnly_of_spelled (by repeat' constructor)
  have hclock : MentionsOnly []
      [callProvided "MXC_SYS_ClockEnable" ["MXC_SYS_PERIPH_CLOCK_CPU1"] (some "Enable RISC-V clock")] :=
    mentionsOnly_of_spelled (by repeat' constructor)
  have hpause : MentionsOnly [] (if p.sdk && p.config.debugWait > 0 then
      [Operation.blank] ++ debuggerDelay p.config.debugWait ++ [Operation.blank] else []) := by
    split
    · exact mentionsOnly_append.2 ⟨mentionsOnly_append.2 ⟨mentionsOnly_blank, mentions_debuggerDelay _⟩, mentionsOnly_blank⟩
    · exact mentionsOnly_nil
  simp only [releaseCompanion]
  split
  · exact mentionsOnly_append.2 ⟨mentionsOnly_append.2 ⟨hsignal, hpause⟩, hclock⟩
  · exact mentionsOnly_of_spelled (by repeat' constructor)

theorem mentions_deepSleep : MentionsOnly [] p.deepSleep := by
  simp only [deepSleep]
  cases p.device.requireSemaLpwken <;> cases p.embedded <;> exact mentionsOnly_of_spelled (by repeat' constructor)

variable (taken : String → Bool)

theorem hostSteps_bootAddress (m : CompanionMemory) : hostSteps taken (p.bootAddress m) = .ofList (p.addressSteps m) := by
  have hawake : .sleep ∉ p.addressWords := by
    simp only [addressWords]
    split <;> decide
  rw [hostSteps_of_awake taken (p.mentions_bootAddress m) hawake]
  simp only [bootAddress, addressSteps]
  cases p.config.bootFromFlashCache <;> cases p.sdk <;> cases p.device.modernSim <;> rfl

theorem hostSteps_exclusiveMemory : hostSteps taken p.exclusiveMemory = .ofList p.memorySteps := by
  rw [hostSteps_of_awake taken p.mentions_exclusiveMemory (by decide)]
  simp only [exclusiveMemory, memorySteps]
  cases p.config.exclusiveSram <;> cases (p.sdk || p.device.modernSim) <;> rfl

theorem hostSteps_releaseCompanion : hostSteps taken p.releaseCompanion = .ofList (p.signalSteps ++ [HostStep.release]) := by
  rw [hostSteps_of_awake taken p.mentions_releaseCompanion (by decide)]
  simp only [releaseCompanion, signalSteps]
  cases p.hostsWakeHandler <;> cases (p.sdk && decide (p.config.debugWait > 0)) <;> rfl

theorem mentions_hostEpilogue (ht : p.config.topology = .armHost) : MentionsOnly [.sleep] p.epilogue := by
  have hdeep : MentionsOnly [] (if p.config.sleep then p.deepSleep else []) := by
    split
    · exact p.mentions_deepSleep
    · exact mentionsOnly_nil
  have hpass : MentionsOnly [] (if p.sdk then [] else [.blank, callProvided "pass"]) := by
    split <;> exact mentionsOnly_of_spelled (by repeat' constructor)
  simp only [epilogue, handoff, ht, mentionsOnly_append, hdeep.anywhere, hpass.anywhere, and_true, true_and]
  exact mentionsOnly_of_spelled (by repeat' constructor)

theorem includes_bare (hb : p.config.target = .bareMetalArm) :
    p.includes p.mainPart =
      p.systemHeaders ++ p.platformHeaders p.mainPart ++ p.programHeaders p.mainPart ++ [Operation.blank] ++
        linkerSymbol :: [.blank] := by
  simp [includes, constants, sdk, hb, Target.usesSdk, linkerSymbol]

theorem hostSteps_epilogue (ht : p.config.topology = .armHost) : hostSteps taken p.epilogue = .ofList [.sleep] := by
  have hdeep : hostSteps taken (if p.config.sleep then p.deepSleep else []) = .ofList [] := by
    have havoids : Avoids companionKinds p.deepSleep := by
      simp only [deepSleep]
      cases p.device.requireSemaLpwken <;> cases p.embedded <;> exact avoids_of_all rfl
    split
    · exact hostSteps_of_idle taken p.mentions_deepSleep (by decide) havoids
    · rfl
  have hpass : hostSteps taken (if p.sdk then [] else [.blank, callProvided "pass"]) = .ofList [] := by
    have hwords : MentionsOnly [] [.blank, callProvided "pass"] := mentionsOnly_of_spelled (by repeat' constructor)
    split
    · rfl
    · exact hostSteps_of_idle taken hwords (by decide) (avoids_of_all rfl)
  have hsleep : hostSteps taken [.statement "__WFI();" (some "Let RISC-V run")] = .ofList [.sleep] := by
    have hmentions : (Operation.statement "__WFI();" (some "Let RISC-V run")).mentions Reserved.sleep.text = true := by
      decide +kernel
    simp [hostSteps, executionOfAll, execution, hostStep?, hmentions]
  simp only [epilogue, handoff, ht, hostSteps_append, hdeep, hsleep, hpass]
  rfl

/-! ## The whole of `main` -/

variable {p} {m : CompanionMemory}

theorem Coherent.hostSteps_main (h : p.Coherent) (ht : p.config.topology = .armHost) (hm : p.device.companion = some m) :
    (inlined taken p.functions (EmittedFunction.bodyOf "main" p.functions)).filterMap hostStep? =
      .ofList (p.addressSteps m ++ p.memorySteps ++ p.signalSteps ++ [HostStep.release, .sleep]) := by
  have ho : p.owns = false := by simp [owns, ht, Topology.ownsAccelerator]
  have hd : p.config.topology.isDualCore = true := by simp [ht, Topology.isDualCore]
  have hawake : .sleep ∉ p.trimWords := by
    simp only [trimWords]
    split <;> decide
  have hlocals := hostSteps_of_idle taken p.mentions_locals (by decide) (p.avoids_locals _)
  have hclock := hostSteps_of_idle taken p.mentions_coreClock hawake (p.avoids_coreClock (h.current hd))
  have hblank : hostSteps taken [.blank] = .ofList [] := rfl
  have hcamera := hostSteps_of_idle taken p.mentions_camera (by decide) (avoids_of_subset p.touches_camera rfl)
  rw [h.inlined_host ho, ← hostSteps]
  simp only [leadOps, p.coreOperations_host ht hm, bootCompanion, hostSteps_append, hlocals, hclock, hblank, hcamera, hostSteps_bootAddress,
    hostSteps_exclusiveMemory, hostSteps_releaseCompanion, hostSteps_epilogue p taken ht, Execution.andThen_nil,
    Execution.ofList_andThen_ofList]
  simp

/-- Everything is set up ahead of the release, so all that may be missing is the address. -/
theorem releasesOnce_iff :
    ReleasesOnce (p.addressSteps m ++ p.memorySteps ++ p.signalSteps ++ [HostStep.release, .sleep]) ↔
      p.config.bootFromFlashCache = true ∨ p.device.modernSim = true := by
  have haddress : (p.addressSteps m).countP HostStep.isBootAddress =
      if p.config.bootFromFlashCache || p.device.modernSim then 1 else 0 := by
    simp only [addressSteps]
    cases p.config.bootFromFlashCache <;> cases p.device.modernSim <;> rfl
  have hmemory : p.memorySteps.countP HostStep.isBootAddress = 0 := by
    simp only [memorySteps]
    split <;> rfl
  have hsignal : p.signalSteps.countP HostStep.isBootAddress = 0 := by
    simp only [signalSteps]
    (repeat' split) <;> rfl
  constructor
  · rintro ⟨before, after, hsteps, -, -, hbefore, hafter, -⟩
    by_contra hnone
    rw [if_neg (by simpa using hnone)] at haddress
    have hcount := congrArg (List.countP HostStep.isBootAddress) hsteps
    simp [haddress, hmemory, hsignal, hbefore, hafter, HostStep.isBootAddress] at hcount
  · intro hgiven
    have hone : (p.addressSteps m ++ p.memorySteps ++ p.signalSteps).countP HostStep.isBootAddress = 1 := by
      simp [haddress, hmemory, hsignal, hgiven]
    have hrelease : .release ∉ p.addressSteps m ++ p.memorySteps ++ p.signalSteps := by
      simp only [addressSteps, memorySteps, signalSteps]
      (repeat' split) <;> simp
    exact ⟨_, [.sleep], rfl, hrelease, by decide, hone, rfl, by decide, by decide, by decide, rfl⟩

/-! ## The source -/

variable (p)

/-- The functions in the source of a host, ahead of `main`. -/
def hostFunctions : List Operation :=
  gather (operationsOn .main)
    ((if p.hostsWakeHandler then [wakeHandler] else []) ++ if p.bringsHelper then [wakeStatusHelper] else [])

theorem mentions_hostFunctions : MentionsOnly [] p.hostFunctions := by
  simp only [hostFunctions]
  cases p.hostsWakeHandler <;> cases p.bringsHelper <;> exact mentionsOnly_of_spelled (by repeat' constructor)

variable {p}

theorem operations_host (ht : p.config.topology = .armHost) :
    gather (operationsOn .main) p.actions = p.includes p.mainPart ++ p.hostFunctions ++ (p.leadOps ++ p.epilogue) := by
  have ho : p.owns = false := by simp [owns, ht, Topology.ownsAccelerator]
  have hdeclarations : gather (operationsOn .main) p.declarations = p.includes p.mainPart := by
    cases hl : p.config.layout with
    | combined =>
      have hs : p.config.isSplit = false := by simp [Configuration.isSplit, hl]
      simp [declarations, hl, sourceHead, ho, mainPart, hs, operationsOn]
    | splitApi =>
      have hs : p.config.isSplit = true := by simp [Configuration.isSplit, hl]
      simp [declarations, hl, sourceHead, ho, mainPart, hs, operationsOn]
  have hscope : gather (operationsOn .main) p.fileScopeFunctions = p.hostFunctions := by
    simp [fileScopeFunctions, ho, hostFunctions, bringsHelper]
  rw [actions_eq, opening]
  simp only [gather_append, hdeclarations, hscope, operations_inside, inside_of_host ho]
  simp [operationsOn]

/-- Wherever the companion boots from a symbol, the source declares it exactly if it runs on bare metal. -/
theorem declared_iff (ht : p.config.topology = .armHost) (hm : p.device.companion = some m) :
    Declared flashStart.text linkerSymbol (gather (operationsOn .main) p.actions) ↔
      ((p.config.bootFromFlashCache && p.sdk) = true → p.config.target = .bareMetalArm) := by
  -- The source with the address in its middle; nothing else has the symbol but the head of the source.
  have hsource : gather (operationsOn .main) p.actions =
      p.includes p.mainPart ++ (p.hostFunctions ++ gather (pushed .main) p.locals ++ p.coreClock) ++
        (p.bootAddress m ++ (p.exclusiveMemory ++ p.releaseCompanion ++ [Operation.blank] ++ p.camera ++ p.epilogue)) := by
    rw [operations_host ht]
    simp [leadOps, p.coreOperations_host ht hm, bootCompanion]
  have htrim : p.trimWords ⊆ .sleep :: localWords := by
    simp only [trimWords]
    split <;> decide
  have hahead : MentionsOnly (.sleep :: localWords) (p.hostFunctions ++ gather (pushed .main) p.locals ++ p.coreClock) :=
    mentionsOnly_append.2 ⟨mentionsOnly_append.2 ⟨p.mentions_hostFunctions.anywhere, p.mentions_locals.mono (by decide)⟩,
      p.mentions_coreClock.mono htrim⟩
  have hbehind : MentionsOnly (.sleep :: localWords)
      (p.exclusiveMemory ++ p.releaseCompanion ++ [Operation.blank] ++ p.camera ++ p.epilogue) := by
    simp only [mentionsOnly_append, p.mentions_exclusiveMemory.anywhere, p.mentions_releaseCompanion.anywhere,
      mentionsOnly_blank, p.mentions_camera.anywhere,
      (p.mentions_hostEpilogue ht).mono (show [.sleep] ⊆ .sleep :: localWords by decide), and_self]
  have hword : flashStart ∉ Reserved.sleep :: localWords := by decide
  by_cases hbare : p.config.target = .bareMetalArm
  · have hdeclared := Lacks.declared_append (p.mentions_headers p.mainPart) (mem_otherWords (List.not_mem_nil (a := flashStart)))
      linkerSymbol
    simp only [hbare, implies_true, iff_true, hsource, p.includes_bare hbare]
    simpa using hdeclared _
  · have hincludes : MentionsOnly [] (p.includes p.mainPart) := by
      have hnone : p.symbolWords p.mainPart = [] := by simp [symbolWords, hbare]
      simpa [hnone] using p.mentions_includes p.mainPart
    have hfirst := mentionsOnly_append.2 ⟨hincludes.anywhere, hahead⟩
    by_cases haddress : (p.config.bootFromFlashCache && p.sdk) = true
    · obtain ⟨hflash, hsdk⟩ := Bool.and_eq_true_iff.1 haddress
      have hwrite : (writeNamed "MXC_FCR->urvbootaddr" .assign "(uint32_t) &__FlashStart_"
          (some "Set RISC-V boot address")).mentions flashStart.text = true := by decide +kernel
      have hsymbol : linkerSymbol.mentions flashStart.text = true := by decide +kernel
      -- The address has the symbol, and there is no declaration ahead of it.
      have hundeclared := Lacks.not_declared (mentionsOnly_append.2 ⟨hfirst, mentionsOnly_blank⟩) (mem_otherWords hword)
        hwrite hsymbol (by intro heq; cases heq)
        (p.exclusiveMemory ++ p.releaseCompanion ++ [Operation.blank] ++ p.camera ++ p.epilogue)
      rw [hsource, bootAddress, if_pos hflash, if_pos hsdk]
      simpa [hflash, hsdk, hbare] using hundeclared
    · have hnone : p.addressWords = [] := by simp [addressWords, haddress]
      have haddressed : MentionsOnly [] (p.bootAddress m) := hnone ▸ p.mentions_bootAddress m
      have hall := mentionsOnly_append.2 ⟨hfirst, mentionsOnly_append.2 ⟨haddressed.anywhere, hbehind⟩⟩
      rw [hsource]
      exact iff_of_true (Lacks.declared hall (mem_otherWords hword) linkerSymbol) fun hflash => absurd hflash haddress

end Plan

namespace Synthesis

variable {c : Configuration} {d : Device} {i : Inputs} {s : Synthesis}

/-- A host releases its companion by the protocol unless an embedded host boots it from its flash cache, by a symbol that is only
declared on bare metal, or there is no address for it, because it does not boot from its flash cache and the device is not one of
the current simulations. -/
theorem host_release_iff (h : run c d i = .ok s) (ht : c.topology = .armHost) (taken : String → Bool) :
    ReleaseProtocol
        ((inlined taken s.plan.functions (EmittedFunction.bodyOf "main" s.plan.functions)).filterMap hostStep?)
        ((s.plan.pieces .main).flatMap Piece.operations) ↔
      if c.bootFromFlashCache then c.target ≠ .embedded else d.modernSim = true := by
  obtain ⟨hcoherent, rfl, rfl, -⟩ := run_ok h
  have hd : s.plan.config.topology.isDualCore = true := by simp [ht, Topology.isDualCore]
  obtain ⟨m, hm⟩ := Option.isSome_iff_exists.1 (hcoherent.companion hd)
  have hdeclared := Plan.declared_iff ht hm
  have hsdk : s.plan.sdk = true ↔ s.plan.config.target ≠ .simulation := by
    cases htarget : s.plan.config.target <;> simp [Plan.sdk, htarget, Target.usesSdk]
  have hparts : ReleaseProtocol
        ((inlined taken s.plan.functions (EmittedFunction.bodyOf "main" s.plan.functions)).filterMap hostStep?)
        ((s.plan.pieces .main).flatMap Piece.operations) ↔
      (s.plan.config.bootFromFlashCache = true ∨ s.plan.device.modernSim = true) ∧
        ((s.plan.config.bootFromFlashCache && s.plan.sdk) = true → s.plan.config.target = .bareMetalArm) := by
    rw [hcoherent.hostSteps_main taken ht hm, Plan.operations_pieces, ← Plan.releasesOnce_iff (m := m), ← hdeclared]
    exact ⟨fun hp => ⟨hp.released, hp.declared⟩, fun hp => ⟨rfl, hp.1, hp.2⟩⟩
  rw [hparts]
  cases hflash : s.plan.config.bootFromFlashCache with
  | false => simp
  | true =>
    simp only [Bool.true_and, true_or, true_and, hsdk, if_true]
    cases s.plan.config.target <;> simp

/-- An embedded host that boots its companion from flash. -/
def embeddedHost : Configuration :=
  ⟨{ Settings.initial with groups := .ofList [0], topology := .armHost, target := .embedded, bootFromFlashCache := true },
    by decide⟩

theorem host_release_embedded : ∃ s, run embeddedHost .ai85 .empty = .ok s ∧ ∀ taken, ¬ ReleaseProtocol
    ((inlined taken s.plan.functions (EmittedFunction.bodyOf "main" s.plan.functions)).filterMap hostStep?)
    ((s.plan.pieces .main).flatMap Piece.operations) := by
  obtain ⟨s, hs⟩ := exists_run (c := embeddedHost) (d := .ai85) (i := .empty) (by decide)
  refine ⟨s, hs, fun taken => ?_⟩
  rw [host_release_iff hs rfl]
  decide

end Synthesis

end AccelFirmware
