import AccelFirmware.Proofs.Phrases
import AccelFirmware.Proofs.Sites

/-!
# The wording of phases

None of the phrases is in what the phases of a program write, apart from those that are meant: the stamp of the handler, the
instruction that sleeps until the other core is done, and the headers that a configuration names.
-/

namespace AccelFirmware

open AccelFirmware.Action EmitStep

/-- The headers that a configuration names. -/
def Configuration.arrayHeaders (c : Configuration) : List Operation := [.header c.weightsHeader, .header c.sampleHeader]

namespace Plan

variable (p : Plan)

open Operation

/-! ## Heads -/

theorem says_includes (part : Part) : ∀ op ∈ p.includes part, op ∈ p.config.arrayHeaders ∨ SaysOnly [] [op] := by
  have hsystem : SaysOnly [] p.systemHeaders := by
    simp only [systemHeaders]
    (repeat' split) <;> exact saysOnly_of_phrased (by repeat' constructor)
  have hplatform : SaysOnly [] (p.platformHeaders part) := by
    simp only [platformHeaders, PowerController.header]
    (repeat' split) <;> exact saysOnly_of_phrased (by repeat' constructor)
  have hconstants : SaysOnly [] (p.constants part) := by
    simp only [constants]
    (repeat' split) <;> exact saysOnly_of_phrased (by repeat' constructor)
  have hprogram : ∀ op ∈ p.programHeaders part, op ∈ p.config.arrayHeaders ∨ SaysOnly [] [op] := by
    have hcamera : SaysOnly [] (if p.config.camera.isSome then
        [.header "pcif_defines_af2.h", .define "NUM_DATA_WORDS" "4", .header "pcif.c"] else []) := by
      split <;> exact saysOnly_of_phrased (by repeat' constructor)
    have hfunctions : SaysOnly [] (if p.embedded then [.header "cnn.h"] else []) := by
      split <;> exact saysOnly_of_phrased (by repeat' constructor)
    simp only [programHeaders, List.forall_mem_append]
    refine ⟨⟨⟨fun op hop => Or.inr (hcamera.of_mem hop), fun op hop => Or.inr (hfunctions.of_mem hop)⟩, ?_⟩, ?_⟩ <;>
    · split <;> simp [Configuration.arrayHeaders]
  simp only [includes, List.forall_mem_append]
  exact ⟨⟨⟨⟨fun op hop => Or.inr (hsystem.of_mem hop), fun op hop => Or.inr (hplatform.of_mem hop)⟩, hprogram⟩,
    by simp⟩, fun op hop => Or.inr (hconstants.of_mem hop)⟩

theorem says_drivePin {port mask : String} (hport : Omits [] ("gpio_out.port = " ++ port ++ ";"))
    (hmask : Omits [] ("gpio_out.mask = " ++ mask ++ ";")) (level : Level) : SaysOnly [] (drivePin port mask level) := by
  have hdeclare : SaysOnly [] [.declare "mxc_gpio_cfg_t gpio_out;"] := saysOnly_of_phrased (by repeat' constructor)
  have hdriver : SaysOnly []
      [.statement "gpio_out.pad = MXC_GPIO_PAD_NONE;", .statement "gpio_out.func = MXC_GPIO_FUNC_OUT;",
       callProvided "MXC_GPIO_Config" ["&gpio_out"], callProvided level.driver ["gpio_out.port", "gpio_out.mask"]] := by
    cases level <;> exact saysOnly_of_phrased (by repeat' constructor)
  have hfields : SaysOnly [] [.statement ("gpio_out.port = " ++ port ++ ";"), .statement ("gpio_out.mask = " ++ mask ++ ";")] := by
    simpa [SaysOnly, wordingOfAll, wording] using ⟨hport, hmask⟩
  exact saysOnly_append.2 ⟨saysOnly_append.2 ⟨hdeclare, hfields⟩, hdriver⟩

theorem says_failBody : SaysOnly [] p.failBody := by
  have hdrive : SaysOnly [] (drivePin "MXC_GPIO2" "MXC_GPIO_PIN_4" .high) :=
    says_drivePin (omits_of_blurred (.append (.append .literal .literal) .literal) rfl)
      (omits_of_blurred (.append (.append .literal .literal) .literal) rfl) .high
  have hindicator : SaysOnly [] (if p.config.failIndicator then
      drivePin "MXC_GPIO2" "MXC_GPIO_PIN_4" .high ++ [Operation.blank] else []) := by
    split
    · exact saysOnly_append.2 ⟨hdrive, saysOnly_blank⟩
    · exact saysOnly_nil
  exact saysOnly_append.2 ⟨hindicator, saysOnly_of_phrased (by repeat' constructor)⟩

theorem says_handlerBody : SaysOnly [.stamp] p.handlerBody := by
  have hacknowledgement : Omits [.stamp] p.acknowledgement := by
    simp only [acknowledgement]
    split <;> exact omits_of_blurred .literal rfl
  have hgroups : SaysOnly [.stamp]
      (p.config.groups.members.map fun g => writeAt (p.device.ctlAddress g) .keepBits p.acknowledgement) := by
    refine saysOnly_of_forall fun op hop => ?_
    obtain ⟨g, _, rfl⟩ := List.mem_map.1 hop
    simpa [SaysOnly, wordingOfAll, wording, writeAt, Register.texts] using hacknowledgement
  have hheading : SaysOnly [.stamp] [.comment "Acknowledge interrupt to all groups"] :=
    saysOnly_of_phrased (by repeat' constructor)
  have hrest : SaysOnly [.stamp] ([Operation.blank] ++ (if p.embedded && !p.config.measureEnergy then
      [Operation.statement "CNN_COMPLETE;" (some "Signal that processing is complete")] else []) ++
      [Operation.verbatim timerStop]) := by
    split <;> exact saysOnly_of_phrased (by repeat' constructor)
  have hcompanion : SaysOnly [.stamp] (if p.config.topology = .companion then
      [.blank, callProvided "NVIC_ClearPendingIRQ" ["CNN_IRQn"], callProvided "NVIC_ClearPendingEVENT" ["CNN_IRQn"]]
      else []) := by
    split <;> exact saysOnly_of_phrased (by repeat' constructor)
  have hbody := saysOnly_append.2 ⟨hheading, saysOnly_append.2 ⟨hgroups, saysOnly_append.2 ⟨hrest, hcompanion⟩⟩⟩
  simpa [handlerBody] using hbody

/-! ## Classification code -/

theorem says_outputBuffer (w : OutputWidth) : SaysOnly [] [outputBuffer w] := by
  cases w with
  | w32 => exact saysOnly_of_phrased (by repeat' constructor)
  | w8 | w16 =>
    have htext (m n : Nat) : Omits [] ("static int32_t ml_data32[(CNN_NUM_OUTPUTS + " ++ decimal m ++ ") / " ++
        decimal n ++ "];") :=
      omits_of_blurred (.append (.append (.append (.append .literal (.decimal _)) .literal) (.decimal _)) .literal) rfl
    simpa [outputBuffer, SaysOnly, wordingOfAll, wording] using htext _ _

theorem says_unloadCall (w : OutputWidth) : SaysOnly [] [unloadCall w] := by
  have hname : Omits [] "cnn_unload" := omits_of_written .literal rfl
  have hbuffer : Omits [] ("(uint32_t *) " ++ bufferName w) := by
    cases w <;> exact omits_of_written (.append .literal .literal) rfl
  simpa [unloadCall, SaysOnly, wordingOfAll, wording, Callee.name] using ⟨hname, hbuffer⟩

theorem says_softmaxOnly (w : OutputWidth) :
    SaysOnly [] ((LayerStyle.standard w).softmaxOnly.declarations ++ (LayerStyle.standard w).softmaxOnly.body) := by
  have hheading : SaysOnly [] [.comment "Classification layer:"] := saysOnly_of_phrased (by repeat' constructor)
  have hsoftmax : SaysOnly [] [.declare "static q15_t ml_softmax[CNN_NUM_OUTPUTS];", .blank] :=
    saysOnly_of_phrased (by repeat' constructor)
  have hdeclarations := saysOnly_append.2 ⟨hheading, saysOnly_append.2 ⟨says_outputBuffer w, hsoftmax⟩⟩
  refine saysOnly_append.2 ⟨hdeclarations, saysOnly_cons.2 ⟨says_unloadCall w, ?_⟩⟩
  cases w <;> exact saysOnly_of_phrased (by repeat' constructor)

theorem says_fullyConnected (w : OutputWidth) (weights : WeightMatrix) (bias : Option (List Int)) :
    SaysOnly [] (((LayerStyle.standard w).weightedLayer weights bias).declarations ++
      ((LayerStyle.standard w).weightedLayer weights bias).body) := by
  have hheading : SaysOnly [] [.comment "Classification layer:"] := saysOnly_of_phrased (by repeat' constructor)
  have hinputs : SaysOnly [] [.define "FC_IN" (decimal weights.cols)] := by
    have hname : Omits [] "FC_IN" := omits_of_written .literal rfl
    have hcols : Omits [] (decimal weights.cols) := omits_of_blurred (.decimal _) rfl
    simpa [SaysOnly, wordingOfAll, wording] using ⟨hname, hcols⟩
  have hweights : SaysOnly [] [.declare "static const q7_t fc_weights[] = FC_WEIGHTS;", .blank] :=
    saysOnly_of_phrased (by repeat' constructor)
  have harrays : SaysOnly [] [.declare "static q15_t fc_buffer[FC_IN];", .declare "static q15_t fc_output[CNN_NUM_OUTPUTS];",
      .declare "static q15_t ml_softmax[CNN_NUM_OUTPUTS];", .blank] := saysOnly_of_phrased (by repeat' constructor)
  have hbias : SaysOnly [] (if bias.isSome then [.declare "static const q7_t fc_bias[] = FC_BIAS;", .blank] else []) := by
    split <;> exact saysOnly_of_phrased (by repeat' constructor)
  have hinput : Omits [] ("(q7_t *) " ++ bufferName w) := by
    cases w <;> exact omits_of_written (.append .literal .literal) rfl
  have hkernels : SaysOnly [] [.call (.provided "arm_fully_connected_q7_q8p7_opt")
      ["(q7_t *) " ++ bufferName w, "fc_weights", "FC_IN", "CNN_NUM_OUTPUTS", "0", "7",
        if bias.isSome then "fc_bias" else "NULL", "fc_output", "fc_buffer"],
      .call (.provided "arm_softmax_q8p7_q15") ["fc_output", "CNN_NUM_OUTPUTS", "ml_softmax"]] := by
    have hfixed : ∀ text ∈ ["arm_fully_connected_q7_q8p7_opt", "fc_weights", "FC_IN", "CNN_NUM_OUTPUTS", "0", "7", "fc_output",
        "fc_buffer", "arm_softmax_q8p7_q15", "ml_softmax", "fc_bias", "NULL"], Omits [] text :=
      Phrased.omits (by repeat' constructor)
    simp only [List.forall_mem_cons] at hfixed
    cases bias.isSome <;> simp [SaysOnly, wordingOfAll, wording, Callee.name, hinput, hfixed]
  have hdeclarations := saysOnly_append.2 ⟨saysOnly_append.2 ⟨hheading, saysOnly_append.2 ⟨hinputs, saysOnly_append.2 ⟨hweights,
    saysOnly_append.2 ⟨says_outputBuffer w, harrays⟩⟩⟩⟩, hbias⟩
  exact saysOnly_append.2 ⟨hdeclarations, saysOnly_cons.2 ⟨says_unloadCall w, hkernels⟩⟩

theorem Coherent.says_units {p : Plan} (h : p.Coherent) :
    SaysOnly [] (gather EmitStep.operations (p.units.flatMap unitActions)) := by
  have hunit (u : CodeUnit) : gather EmitStep.operations (unitActions u) = u.declarations ++ u.body :=
    gather_unitActions _ fun _ _ _ => rfl
  obtain ⟨hnil, -⟩ | ⟨hlayer, -⟩ | ⟨-, -, weights, bias, expected, hunits, -⟩ := h.units_cases
  · rw [hnil]
    exact saysOnly_nil
  · simpa [hlayer, hunit] using says_softmaxOnly p.config.outputWidth
  · have hexpected : SaysOnly [] ([Operation.comment "Expected output of classification layer:"] ++
        [.declare "static q15_t fc_expected[CNN_NUM_OUTPUTS] = FC_EXPECTED;", .blank]) :=
      saysOnly_of_phrased (by repeat' constructor)
    have hlayer := says_fullyConnected p.config.outputWidth weights bias
    rw [hunits]
    cases expected with
    | none => simpa [hunit] using hlayer
    | some values => simpa [hunit, LayerStyle.comparison, LayerStyle.comparisonCode] using saysOnly_append.2 ⟨hlayer, hexpected⟩

/-! ## Around the phases of the accelerator -/

theorem says_locals : SaysOnly [] (gather EmitStep.operations p.locals) := by
  have hbuffer (w : OutputWidth) : Omits [] ("int" ++ decimal w.bits ++ "_t" ++ " *ml_data = (" ++
      ("int" ++ decimal w.bits ++ "_t") ++ " *) ml_data32;") := by
    have htype : Blurred ("int" ++ decimal w.bits ++ "_t") _ := .append (.append .literal (.decimal _)) .literal
    exact omits_of_blurred (.append (.append (.append htype .literal) htype) .literal) rfl
  have hprintout : SaysOnly [] p.printoutLocals := by
    have hdigits : SaysOnly [] [.declare "int digs, tens;"] := saysOnly_of_phrased (by repeat' constructor)
    simp only [printoutLocals]
    split
    · split
      · exact hdigits
      · refine saysOnly_append.2 ⟨hdigits, saysOnly_of_wording ?_⟩
        simpa [wordingOfAll, wording] using hbuffer _
    · exact saysOnly_nil
  have hvariables : SaysOnly [] p.localVariables := by
    simp only [localVariables, saysOnly_append]
    refine ⟨⟨?_, ?_⟩, hprintout⟩ <;> split <;> exact saysOnly_of_phrased (by repeat' constructor)
  simp only [locals]
  split
  · exact saysOnly_nil
  · simpa [EmitStep.operations] using hvariables

theorem says_trimOperations : SaysOnly [] p.trimOperations := by
  have hread (address : UInt32) : Blurred (readAt address) _ := .append (.append .literal (.hexWide _ _)) .literal
  have hload : Omits [] ("trim = " ++ readAt trimShared ++ ";") := omits_of_blurred (.append (.append .literal (hread _)) .literal) rfl
  have hlimit : Omits [] ("trim = " ++ readAt trimLimit ++ " & ~(0x1ff << 15);") :=
    omits_of_blurred (.append (.append .literal (hread _)) .literal) rfl
  have hslow (n : Nat) : Omits [] ("trim |= 0x" ++ hex n ++ ";") := omits_of_blurred (.append (.append .literal (.hex _)) .literal) rfl
  have hsixty (n : Nat) : Omits [] ("trim |= 0x" ++ hex n ++ " << 22;") :=
    omits_of_blurred (.append (.append .literal (.hex _)) .literal) rfl
  have hfast (n : Nat) : Omits [] ("0x" ++ hex n) := omits_of_blurred (.append .literal (.hex _)) rfl
  have hfixed : ∀ text ∈ ["1", "0", "trim", "trim &= ~0xffff;", "trim &= ~(0x1ff << 22);", "trim | (0xff << 15)",
      "Manual clock trim override:", "Set TME", "Clear TME", "HIRC8M (7.3728 MHz) trim", "HIRC (60 MHz) trim", "HILIM",
      "HIRC96M (100 MHz) trim"], Omits [] text := Phrased.omits (by repeat' constructor)
  simp only [List.forall_mem_cons] at hfixed
  simp only [trimOperations]
  split
  · cases p.config.clockTrim with
    | none => exact saysOnly_nil
    | some t =>
      refine saysOnly_of_wording ?_
      simp only [Option.map_some, Option.getD_some, ClockTrim.operations, ClockTrim.sharedWrites, ClockTrim.fastWrites]
      cases t.hirc8m <;> cases t.hirc <;> cases t.hirc96m <;>
        simp [wordingOfAll, wording, writeAt, Register.texts, hload, hlimit, hslow, hsixty, hfast, hfixed]
  · exact saysOnly_nil

theorem says_debuggerDelay (seconds : UInt32) : SaysOnly [] (debuggerDelay seconds) := by
  have hseconds (n : Nat) : Omits [] ("SEC(" ++ decimal n ++ ")") :=
    omits_of_blurred (.append (.append .literal (.decimal _)) .literal) rfl
  have hfixed : ∀ text ∈ ["DO NOT DELETE THIS LINE:", "MXC_Delay", "Let debugger interrupt if needed"], Omits [] text :=
    Phrased.omits (by repeat' constructor)
  simp only [List.forall_mem_cons] at hfixed
  refine saysOnly_of_wording ?_
  simp [debuggerDelay, wordingOfAll, wording, callProvided, Callee.name, hseconds, hfixed]

theorem says_powerSequence (c : PowerController) (direction : PowerDirection) (m : GroupMask) :
    SaysOnly [] (powerSequence c direction m) := by
  have hregister (index : Nat) : Omits [] (c.block ++ "->reg" ++ decimal index) := by
    cases c <;> exact omits_of_blurred (.append (.append .literal .literal) (.decimal _)) rfl
  have hvalue (n : Nat) : Omits [] ("0x" ++ hex n) := omits_of_blurred (.append .literal (.hex _)) rfl
  have hheading : Omits [] direction.heading := by
    cases direction <;> exact omits_of_written .literal rfl
  have hfixed : ∀ text ∈ ["Reset", "Mask memory", "Power", "Iso"], Omits [] text := Phrased.omits (by repeat' constructor)
  simp only [List.forall_mem_cons] at hfixed
  refine saysOnly_of_wording ?_
  simp [powerSequence, powerWrites, wordingOfAll, wording, PowerController.register, Register.texts, hregister, hvalue, hheading,
    hfixed]

theorem says_selectClock {source : ClockSource} {divider : ClockDivider} {note : Option String} {device : Device}
    (hd : divider = .fixed 1 ∨ divider = .parameter) (hn : ∀ text, note = some text → Omits [] text) :
    SaysOnly [] (selectClock source divider note device) := by
  have hselection : Omits [] (clockSelection source divider) := by
    rcases hd with rfl | rfl
    · cases source <;>
        exact omits_of_blurred (.append (.append (.append .literal (.append .literal (.decimal 1))) .literal) .literal) rfl
    · cases source <;> exact omits_of_written (.append (.append (.append .literal .literal) .literal) .literal) rfl
  have hguard : Omits [] ("clock_source == " ++ pllSymbol) := omits_of_written (.append .literal .literal) rfl
  have hfixed : ∀ text ∈ [pllNotReady, "Wait for PLL", "MXC_GCR->pclkdiv"], Omits [] text := Phrased.omits (by repeat' constructor)
  simp only [List.forall_mem_cons] at hfixed
  refine saysOnly_of_wording ?_
  cases source <;> cases note <;> cases hp : device.supportsPll <;>
    simp [selectClock, ClockSource.readyWait, hp, clockRegister, wordingOfAll, wording, Register.texts, hselection, hguard, hfixed, hn]

theorem says_fixedClock {source : ClockSource} {text : String} {device : Device} (h : Omits [] text) :
    SaysOnly [] (selectClock source (.fixed 1) (some text) device) :=
  says_selectClock (Or.inl rfl) fun _ ht => Option.some.inj ht ▸ h

theorem says_enablePll : SaysOnly [] p.enablePll := by
  simp only [enablePll]
  split <;> exact saysOnly_of_phrased (by repeat' constructor)

theorem says_sdkCoreClock : SaysOnly [] p.sdkCoreClock := by
  have hselect (n : Nat) : SaysOnly [] [.comment ("Switch to " ++ decimal n ++ " MHz clock"),
      callProvided "MXC_SYS_Clock_Select" ["MXC_SYS_CLOCK_IPO"]] := by
    have hswitch : Omits [] ("Switch to " ++ decimal n ++ " MHz clock") :=
      omits_of_blurred (.append (.append .literal (.decimal _)) .literal) rfl
    have hcall : SaysOnly [] [callProvided "MXC_SYS_Clock_Select" ["MXC_SYS_CLOCK_IPO"]] :=
      saysOnly_of_phrased (by repeat' constructor)
    refine saysOnly_cons.2 ⟨?_, hcall⟩
    simpa [SaysOnly, wordingOfAll, wording] using hswitch
  simp only [sdkCoreClock]
  split
  · exact saysOnly_of_phrased (by repeat' constructor)
  · simp only [saysOnly_append, says_trimOperations, says_enablePll, hselect, and_true]
    exact ⟨saysOnly_of_phrased (by repeat' constructor), saysOnly_of_phrased (by repeat' constructor)⟩

theorem says_simulationOscillator : SaysOnly [] p.simulationOscillator := by
  simp only [simulationOscillator]
  cases p.device.powerController with
  | bbfc => exact saysOnly_of_phrased (by repeat' constructor)
  | gcfr =>
    simp only [saysOnly_append, says_enablePll, and_true]
    exact ⟨saysOnly_of_phrased (by repeat' constructor), saysOnly_of_phrased (by repeat' constructor)⟩

theorem says_simulationPowerUp : SaysOnly [] p.simulationPowerUp := by
  have hup : SaysOnly [] p.powerUp := says_powerSequence _ _ _
  simp only [simulationPowerUp]
  cases p.device.powerController with
  | bbfc =>
    simp only [saysOnly_append, hup, saysOnly_blank, true_and]
    exact saysOnly_of_phrased (by repeat' constructor)
  | gcfr =>
    have hclock : SaysOnly [] (selectClock .pclk (.fixed 1) (some "CNN clock: APB div 1") p.device) :=
      says_fixedClock (omits_of_written .literal rfl)
    simp only [saysOnly_append, hup, saysOnly_blank, hclock, true_and]
    exact saysOnly_of_phrased (by repeat' constructor)

theorem says_simulationCoreClock : SaysOnly [] p.simulationCoreClock := by
  simp only [simulationCoreClock, saysOnly_append]
  refine ⟨saysOnly_of_phrased (by repeat' constructor), ?_⟩
  split
  · exact saysOnly_of_phrased (by repeat' constructor)
  · simp only [saysOnly_append, says_simulationOscillator]
    refine ⟨⟨saysOnly_of_phrased (by repeat' constructor), trivial⟩, ?_⟩
    split
    · exact saysOnly_nil
    · exact p.says_simulationPowerUp

theorem says_coreClock : SaysOnly [] p.coreClock := by
  simp only [coreClock]
  split
  · exact p.says_sdkCoreClock
  · exact p.says_simulationCoreClock

theorem says_debuggerPause : SaysOnly [] p.debuggerPause := by
  simp only [debuggerPause]
  split
  · exact saysOnly_append.2 ⟨saysOnly_of_phrased (by repeat' constructor), says_debuggerDelay _⟩
  · exact saysOnly_nil

theorem says_bootAddress (m : CompanionMemory) : SaysOnly [] (p.bootAddress m) := by
  have horigin (n : Nat) : Omits [] ("0x" ++ hexWide 8 n) := omits_of_blurred (.append .literal (.hexWide _ _)) rfl
  have hfixed : ∀ text ∈ ["MXC_FCR->urvbootaddr", "MXC_NBBFC->reg4", "Set RISC-V boot address"], Omits [] text :=
    Phrased.omits (by repeat' constructor)
  simp only [List.forall_mem_cons] at hfixed
  simp only [bootAddress]
  cases p.config.bootFromFlashCache with
  | true =>
    cases p.sdk with
    | true => exact saysOnly_of_phrased (by repeat' constructor)
    | false => cases p.device.modernSim <;> simp [SaysOnly, wordingOfAll, wording, writeNamed, Register.texts, horigin, hfixed]
  | false => cases p.device.modernSim <;> simp [SaysOnly, wordingOfAll, wording, writeNamed, Register.texts, horigin, hfixed]

theorem says_exclusiveMemory : SaysOnly [] p.exclusiveMemory := by
  simp only [exclusiveMemory]
  (repeat' split) <;> exact saysOnly_of_phrased (by repeat' constructor)

theorem says_releaseCompanion : SaysOnly [] p.releaseCompanion := by
  have hpause : SaysOnly [] (if p.sdk && p.config.debugWait > 0 then
      [Operation.blank] ++ debuggerDelay p.config.debugWait ++ [Operation.blank] else []) := by
    split
    · exact saysOnly_append.2 ⟨saysOnly_append.2 ⟨saysOnly_blank, says_debuggerDelay _⟩, saysOnly_blank⟩
    · exact saysOnly_nil
  simp only [releaseCompanion]
  split
  · simp only [saysOnly_append, hpause, and_true]
    exact ⟨saysOnly_of_phrased (by repeat' constructor), saysOnly_of_phrased (by repeat' constructor)⟩
  · exact saysOnly_of_phrased (by repeat' constructor)

theorem says_bootCompanion (m : CompanionMemory) : SaysOnly [] (p.bootCompanion m) :=
  saysOnly_append.2 ⟨saysOnly_append.2 ⟨p.says_bootAddress m, p.says_exclusiveMemory⟩, p.says_releaseCompanion⟩

theorem says_companionBringUp : SaysOnly [] p.companionBringUp := by
  simp only [companionBringUp]
  (repeat' split) <;> exact saysOnly_of_phrased (by repeat' constructor)

theorem says_coreOperations : SaysOnly [] p.coreOperations :=
  p.coreOperations_of_parts (fun _ _ has hbs => saysOnly_append.2 ⟨has, hbs⟩) saysOnly_blank p.says_coreClock
    p.says_debuggerPause p.says_bootCompanion p.says_companionBringUp

theorem says_camera : SaysOnly [] p.camera := by
  have hfields (c : Camera) : Omits [] (" +\n".intercalate (p.cameraFields c)) := by
    have hlead : Blurred ("MXC_S_CAMERAIF_CTRL_READ_MODE_SINGLE_IMG" ++ " +\n" ++
        ("MXC_S_CAMERAIF_CTRL_DATA_WIDTH_" ++ decimal c.format.dataWidth ++ "BIT")) _ :=
      .append (.append .literal .literal) (.append (.append .literal (.decimal _)) .literal)
    have hfield {fields : String} {cs : List Char} (h : Blurred fields cs) (letters : List Char) :
        Blurred (fields ++ " +\n" ++ String.ofList letters) _ := .append (.append h .literal) .literal
    simp only [cameraFields]
    cases p.device.modernSim with
    | true =>
      simp only [if_true]
      split
      · exact omits_of_blurred (hfield (hfield hlead _) _) rfl
      · exact omits_of_blurred (hfield hlead _) rfl
    | false =>
      simp only [Bool.false_eq_true, if_false]
      split
      · exact omits_of_blurred (hfield (hfield (hfield hlead _) _) _) rfl
      · exact omits_of_blurred (hfield (hfield hlead _) _) rfl
  have hregister : Omits [] p.cameraRegister := by
    simp only [cameraRegister]
    split <;> exact omits_of_written .literal rfl
  have hlabel (c : Camera) : Omits [] ("Enable " ++ c.format.label ++ " format single image in external timing mode") := by
    cases c.format <;> exact omits_of_written (.append (.append .literal .literal) .literal) rfl
  have hfixed : ∀ text ∈ ["enable_pcif_clock", "Enable camera clock", "set_pcif_gpio_altf"], Omits [] text :=
    Phrased.omits (by repeat' constructor)
  simp only [List.forall_mem_cons] at hfixed
  simp only [camera]
  cases p.config.camera with
  | none => exact saysOnly_nil
  | some c =>
    refine saysOnly_of_wording ?_
    simp [wordingOfAll, wording, callProvided, Callee.name, writeNamed, Register.texts, hregister, hfields, hlabel, hfixed]

/-- What wakes the core at the end of `main`. -/
def handoffPhrases : List Phrase := if p.config.topology = .armHost then [.armSleep] else []

theorem says_epilogue : SaysOnly p.handoffPhrases p.epilogue := by
  have hdeep : SaysOnly [] (if p.config.sleep then p.deepSleep else []) := by
    simp only [deepSleep]
    cases p.config.sleep <;> cases p.device.requireSemaLpwken <;> cases p.embedded <;>
      exact saysOnly_of_phrased (by repeat' constructor)
  have hsignal : SaysOnly [] (if p.sdkRuntime then [.blank, .comment "Signal the Cortex-M4",
      writeNamed "MXC_SEMA->irq0" .assign "MXC_F_SEMA_IRQ0_EN | MXC_F_SEMA_IRQ0_CM4_IRQ"] else []) := by
    split <;> exact saysOnly_of_phrased (by repeat' constructor)
  have hhandoff : SaysOnly p.handoffPhrases p.handoff := by
    simp only [handoff, handoffPhrases]
    cases p.config.topology with
    | singleCore => exact saysOnly_nil
    | armHost => exact saysOnly_append.2 ⟨hdeep.anywhere, saysOnly_of_phrased (by repeat' constructor)⟩
    | companion => exact hsignal.anywhere
  refine saysOnly_append.2 ⟨hhandoff, SaysOnly.anywhere ?_⟩
  split <;> exact saysOnly_of_phrased (by repeat' constructor)

/-! ## On and off -/

theorem says_enableBody : SaysOnly [] p.enableBody := by
  have hclock : SaysOnly [] p.enableClock := by
    have hpll : Omits [] "CNN clock: PLL div 1" := omits_of_written .literal rfl
    have happly : Omits [] "CNN clock: APB div 1" := omits_of_written .literal rfl
    simp only [enableClock]
    (repeat' split)
    · exact says_selectClock (Or.inr rfl) (by simp)
    · exact says_fixedClock hpll
    · exact says_fixedClock happly
  have hvector : SaysOnly [] p.completionVector := by
    simp only [completionVector]
    split <;> exact saysOnly_of_phrased (by repeat' constructor)
  simp only [enableBody, powerUp, saysOnly_append, says_powerSequence, saysOnly_blank, hclock, hvector, true_and, and_true]
  exact saysOnly_of_phrased (by repeat' constructor)

theorem says_enableCall : SaysOnly [] p.enableCall := by
  have hspeed (n : Nat) : Omits [] ("CNN clock: " ++ decimal n ++ " MHz div 1") :=
    omits_of_blurred (.append (.append .literal (.decimal _)) .literal) rfl
  have hdivider : Omits [] (ClockDivider.fixed 1).selector := omits_of_blurred (.append .literal (.decimal 1)) rfl
  have hsource : Omits [] p.requestedClock.2 := by
    simp only [requestedClock]
    (repeat' split) <;> exact omits_of_written .literal rfl
  have hfixed : ∀ text ∈ ["Enable peripheral, enable CNN interrupt, turn on CNN clock", "cnn_enable"], Omits [] text :=
    Phrased.omits (by repeat' constructor)
  simp only [List.forall_mem_cons] at hfixed
  refine saysOnly_of_wording ?_
  simp [enableCall, wordingOfAll, wording, callEmitted, Callee.name, hspeed, hdivider, hsource, hfixed]

theorem says_boost : SaysOnly [] (gather EmitStep.operations p.boostOn) ∧ SaysOnly [] (gather EmitStep.operations p.boostOff) := by
  have hdrive (level : Level) : SaysOnly [] (drivePin "port" "pin" level) :=
    says_drivePin (omits_of_written (.append (.append .literal .literal) .literal) rfl)
      (omits_of_written (.append (.append .literal .literal) .literal) rfl) level
  have hclear : SaysOnly [] [.comment "Turn off the CNN Boost",
      callProvided "MXC_GPIO_OutClr" ["gpio_out.port", "gpio_out.mask"], .blank] := saysOnly_of_phrased (by repeat' constructor)
  have hcall (b : BoostPin) (name note : String) (hname : Omits [] name) (hnote : Omits [] note) :
      SaysOnly [] [callEmitted name [b.portName, b.pinName] (some note)] := by
    have hport : Omits [] b.portName := omits_of_blurred (.append .literal (.decimal _)) rfl
    have hpin : Omits [] b.pinName := omits_of_blurred (.append .literal (.decimal _)) rfl
    simpa [SaysOnly, wordingOfAll, wording, callEmitted, Callee.name] using ⟨hname, hport, hpin, hnote⟩
  have henable (b : BoostPin) : SaysOnly [] [callEmitted "cnn_boost_enable" [b.portName, b.pinName] (some "Turn on the boost circuit")] :=
    hcall b _ _ (omits_of_written .literal rfl) (omits_of_written .literal rfl)
  have hdisable (b : BoostPin) :
      SaysOnly [] [callEmitted "cnn_boost_disable" [b.portName, b.pinName] (some "Turn off the boost circuit"), .blank] :=
    saysOnly_cons.2 ⟨hcall b _ _ (omits_of_written .literal rfl) (omits_of_written .literal rfl), saysOnly_blank⟩
  have hpin (b : BoostPin) : SaysOnly [] (.blank ::
      .comment ("Configure P" ++ decimal b.port.toNat ++ "." ++ decimal b.pin.toNat ++ ", turn on the CNN Boost") ::
      drivePin b.portName b.pinName .high) := by
    have hheading : Omits [] ("Configure P" ++ decimal b.port.toNat ++ "." ++ decimal b.pin.toNat ++ ", turn on the CNN Boost") :=
      omits_of_blurred (.append (.append (.append (.append .literal (.decimal _)) .literal) (.decimal _)) .literal) rfl
    have hpins : SaysOnly [] (drivePin b.portName b.pinName .high) :=
      says_drivePin (omits_of_blurred (.append (.append .literal (.append .literal (.decimal _))) .literal) rfl)
        (omits_of_blurred (.append (.append .literal (.append .literal (.decimal _))) .literal) rfl) .high
    refine saysOnly_cons.2 ⟨saysOnly_blank, saysOnly_cons.2 ⟨?_, hpins⟩⟩
    simpa [SaysOnly, wordingOfAll, wording] using hheading
  constructor
  · simp only [boostOn, boostFunction]
    cases p.config.isSplit <;> cases p.config.boost <;> simp [EmitStep.operations, hdrive, henable, hpin]
  · simp only [boostOff, boostFunction]
    cases p.config.isSplit <;> cases p.config.forever <;> cases p.config.boost <;>
      simp [EmitStep.operations, hdrive, hdisable, hclear]

theorem says_acceleratorBringUp : SaysOnly [] (gather EmitStep.operations p.acceleratorBringUp) := by
  have hbase : SaysOnly [] p.measureBasePower := by
    simp only [measureBasePower]
    cases p.config.topology <;> exact saysOnly_of_phrased (by repeat' constructor)
  obtain ⟨hboost, -⟩ := p.says_boost
  simp only [acceleratorBringUp]
  cases p.sdkRuntime with
  | false => exact saysOnly_nil
  | true =>
    cases p.config.measureEnergy <;> cases p.config.isSplit <;>
      simp [EmitStep.operations, hbase, hboost, p.says_enableBody, p.says_enableCall]

theorem says_shutdown : SaysOnly [] p.shutdown := by
  refine saysOnly_append.2 ⟨?_, says_powerSequence _ _ _⟩
  split <;> exact saysOnly_of_phrased (by repeat' constructor)

end Plan

end AccelFirmware
