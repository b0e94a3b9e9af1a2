import AccelFirmware.Proofs.CallOrder
import AccelFirmware.Proofs.Scopes
import Mathlib.Data.List.Perm.Basic

/-!
# Places in the code

Where a program waits for the accelerator, where it calls the functions that fetch a result, and where it declares the buffer for
the result, over all of its sources and at any depth.
-/

namespace AccelFirmware

open Operation AccelFirmware.Action EmitStep Reserved

/-- A place in the code, by what is done there. -/
inductive Site where
  | wait (wait : CompletionWait)
  | call (name : String)
  | declaration (name : String)
  deriving DecidableEq, Repr

namespace Operation

mutual

def sites : Operation → List Site
  | .await wait => [.wait wait]
  | .call callee _ _ | .check callee _ => [.call callee.name]
  | .declare text => (declaredIn text.toList).map fun name => .declaration (String.ofList name)
  | .guarded _ body => body.sites
  | .counted _ body | .forever body => sitesOfAll body
  | _ => []

def sitesOfAll : List Operation → List Site
  | [] => []
  | op :: ops => op.sites ++ sitesOfAll ops

end

theorem collects_sites : Collects sites sitesOfAll :=
  ⟨fun _ _ => List.Subset.refl _, fun _ _ => List.Subset.refl _, fun _ => List.Subset.refl _, fun _ _ => rfl⟩

@[simp] theorem sitesOfAll_append (as bs : List Operation) : sitesOfAll (as ++ bs) = sitesOfAll as ++ sitesOfAll bs :=
  collects_sites.append rfl as bs

theorem sitesOfAll_eq_flatMap (ops : List Operation) : sitesOfAll ops = ops.flatMap sites := by
  induction ops with
  | nil => rfl
  | cons op ops ih => rw [sitesOfAll, ih, List.flatMap_cons]

end Operation

/-- The functions that fetch a result, directly or by way of a layer. -/
def retrievalFunctions : List String := ["cnn_unload", "fc_layer", "softmax_layer"]

/-- The function by which `main` fetches the result. -/
def Configuration.fetchName (c : Configuration) : String :=
  match c.retrieval with
  | .fullyConnected => "fc_layer"
  | .softmaxOnly => "softmax_layer"
  | .unload => "cnn_unload"

theorem bufferWord_text (w : OutputWidth) : (bufferWord w).text = bufferName w := by
  cases w <;> rfl

namespace Plan

variable (p : Plan)

/-- Waits, calls that fetch the result and the declaration of its buffer. -/
def tracks : Site → Bool
  | .wait _ => true
  | .call name => retrievalFunctions.contains name
  | .declaration name => name == bufferName p.config.outputWidth

/-- The tracked places in operations, in order. -/
def places (ops : List Operation) : List Site := (sitesOfAll ops).filter p.tracks

@[simp] theorem places_nil : p.places [] = [] := rfl

@[simp] theorem places_append (as bs : List Operation) : p.places (as ++ bs) = p.places as ++ p.places bs := by
  simp [places]

theorem places_cons (op : Operation) (ops : List Operation) : p.places (op :: ops) = p.places [op] ++ p.places ops :=
  show p.places ([op] ++ ops) = _ from p.places_append _ _

@[simp] theorem places_comment (text : String) (ops : List Operation) : p.places (.comment text :: ops) = p.places ops := rfl

@[simp] theorem places_blank (ops : List Operation) : p.places (.blank :: ops) = p.places ops := rfl

@[simp] theorem places_define (name value : String) (ops : List Operation) :
    p.places (.define name value :: ops) = p.places ops := rfl

/-- The tracked places of a step. -/
def stepPlaces (step : EmitStep) : List Site := p.places step.operations

theorem places_declare_other {text : String} {cs : List Char} (hw : Written text cs)
    (hd : (declaredIn cs).contains (bufferWord p.config.outputWidth).letters = false) : p.places [.declare text] = [] := by
  have hnames : ∀ name ∈ declaredIn text.toList, String.ofList name ≠ bufferName p.config.outputWidth := by
    intro name hname heq
    rw [hw.toList_eq] at hname
    rw [← bufferWord_text] at heq
    rw [← Bool.not_eq_true, List.contains_iff_mem, ← String.ofList_injective heq] at hd
    exact hd hname
  simpa [places, sitesOfAll, sites, tracks, List.filter_eq_nil_iff] using hnames

/-- A declaration that has nothing to do with the result. -/
theorem places_declare {text : String} {cs : List Char} (hw : Written text cs)
    (hd : (declaredIn cs).any [Reserved.data.letters, Reserved.packedData.letters].contains = false) :
    p.places [.declare text] = [] := by
  refine p.places_declare_other hw ?_
  rw [← Bool.not_eq_true, List.contains_iff_mem]
  intro hm
  refine List.any_eq_false.1 hd _ hm ?_
  cases p.config.outputWidth <;> decide

/-- Simple operations that ask nothing of the accelerator. -/
theorem places_of_simple {ops : List Operation} (hs : ops.all isSimple = true) (hq : ops.all isQuiet = true) :
    p.places ops = [] := by
  induction ops with
  | nil => rfl
  | cons op ops ih =>
    obtain ⟨hsimple, hss⟩ : op.isSimple = true ∧ ops.all isSimple = true := by simpa using hs
    obtain ⟨hquiet, hqs⟩ : op.isQuiet = true ∧ ops.all isQuiet = true := by simpa using hq
    rw [places_cons, ih hss hqs, List.append_nil]
    cases op with
    | call callee args note =>
      have hname : isAcceleratorFunction callee.name = false := by
        cases hf : isAcceleratorFunction callee.name with
        | false => rfl
        | true => simp [isQuiet, acceleratorStep?, hf] at hquiet
      have hdrives : ∀ name ∈ retrievalFunctions, isAcceleratorFunction name = true := by decide
      have hnot : callee.name ∉ retrievalFunctions := by
        intro hm
        rw [hdrives _ hm] at hname
        cases hname
      simp [places, sitesOfAll, sites, tracks, hnot]
    | declare text | await wait | guarded condition body | counted count body | forever body | check callee policy => cases hsimple
    | _ => rfl

/-! ## Heads -/

theorem places_includes (part : Part) : p.places (p.includes part) = [] := by
  have hheaders : p.places (p.systemHeaders ++ p.platformHeaders part ++ p.programHeaders part ++ [.blank]) = [] := by
    refine p.places_of_simple ?_ ?_ <;>
    · simp only [systemHeaders, platformHeaders, programHeaders]
      (repeat' split) <;> rfl
  have hconstants : p.places (p.constants part) = [] := by
    have hsymbol : p.places [.declare "extern volatile void const *__FlashStart_; // Defined in linker file"] = [] :=
      p.places_declare .literal rfl
    have hrest : p.places [.declare "extern volatile void const *__FlashStart_; // Defined in linker file", .blank] = [] := by
      rw [places_cons, hsymbol]
      rfl
    simp only [constants, places_append]
    split <;> split <;> first | exact hrest | rfl
  rw [includes, places_append, hheaders, hconstants]
  rfl

theorem places_drivePin (port mask : String) (level : Level) : p.places (drivePin port mask level) = [] := by
  have hpin : p.places [.declare "mxc_gpio_cfg_t gpio_out;"] = [] := p.places_declare .literal rfl
  rw [drivePin, places_cons, hpin]
  cases level <;> rfl

theorem places_failBody : p.places p.failBody = [] := by
  simp only [failBody]
  split
  · simp only [places_append, places_drivePin]
    rfl
  · rfl

theorem quiet_handlerBody : p.handlerBody.all isQuiet = true := by
  have hgroups : (p.config.groups.members.map fun g =>
      writeAt (p.device.ctlAddress g) .keepBits p.acknowledgement).all isQuiet = true := by
    simp [writeAt, isQuiet, acceleratorStep?]
  simp only [handlerBody, List.cons_append, List.all_cons, List.all_append, hgroups]
  (repeat' split) <;> rfl

theorem places_declarations : gather p.stepPlaces p.declarations = [] := by
  have happlication (sink : Sink) : gather p.stepPlaces (p.applicationState sink) = [] := by
    have htime : p.places [.declare "volatile uint32_t cnn_time; // Stopwatch", .blank] = [] := by
      rw [places_cons, p.places_declare .literal rfl]
      rfl
    simp only [applicationState]
    cases p.sdkRuntime <;> cases p.embedded <;> simp [stepPlaces, operations, htime, p.places_failBody]
  have hlibrary (sink : Sink) : gather p.stepPlaces (p.completionFunction sink :: p.groupControl sink) = [] := by
    have hhandler := p.places_of_simple p.simple_handlerBody p.quiet_handlerBody
    have hcompletion : gather p.stepPlaces [p.completionFunction sink] = [] := by
      simp only [completionFunction]
      cases p.waitStrategy with
      | interrupt => simp [stepPlaces, operations, hhandler]
      | poll => rfl
    have hcontrol : gather p.stepPlaces (p.groupControl sink) = [] := by
      simp only [groupControl]
      cases p.config.master <;> cases p.waitStrategy <;> rfl
    rw [← List.singleton_append, gather_append, hcompletion, hcontrol]
    rfl
  have hhead (sink : Sink) (part : Part) : gather p.stepPlaces (p.sourceHead sink part) = [] := by
    simp only [sourceHead, gather_push, stepPlaces, operations, places_includes]
    cases p.owns with
    | false => rfl
    | true => cases part <;> simp [Part.isApplication, Part.isLibrary, happlication, hlibrary]
  simp only [declarations]
  cases p.config.layout <;> simp [hhead]

/-! ## Classification code -/

theorem places_outputBuffer :
    p.places [outputBuffer p.config.outputWidth] = [.declaration (bufferName p.config.outputWidth)] := by
  have hdeclare {text : String} {cs : List Char} (hw : Written text cs)
      (hd : declaredIn cs = [(bufferWord p.config.outputWidth).letters]) :
      p.places [.declare text] = [.declaration (bufferName p.config.outputWidth)] := by
    have hname : String.ofList (bufferWord p.config.outputWidth).letters = bufferName p.config.outputWidth := bufferWord_text _
    simp [places, sitesOfAll, sites, tracks, hw.toList_eq, hd, hname]
  have hpacked {round words : String} (hround : round = "3" ∨ round = "1") (hwords : words = "4" ∨ words = "2")
      (hb : bufferWord p.config.outputWidth = .packedData) :
      p.places [.declare ("static int32_t ml_data32[(CNN_NUM_OUTPUTS + " ++ round ++ ") / " ++ words ++ "];")] =
        [.declaration (bufferName p.config.outputWidth)] := by
    rcases hround with rfl | rfl <;> rcases hwords with rfl | rfl <;>
      exact hdeclare (.append (.append (.append (.append .literal .literal) .literal) .literal) .literal) (by rw [hb]; rfl)
  cases hw : p.config.outputWidth with
  | w32 =>
    rw [hw] at hdeclare
    exact hdeclare .literal rfl
  | w8 =>
    rw [hw] at hpacked
    exact hpacked (Or.inl (by decide +kernel)) (Or.inl (by decide +kernel)) rfl
  | w16 =>
    rw [hw] at hpacked
    exact hpacked (Or.inr (by decide +kernel)) (Or.inr (by decide +kernel)) rfl

/-- The places of the classification code, and of the buffer of a program without any. -/
def unitPlaces : List Site :=
  .declaration (bufferName p.config.outputWidth) ::
    match p.config.retrieval with
    | .unload => []
    | .fullyConnected | .softmaxOnly => [.call "cnn_unload"]

theorem places_unit (u : CodeUnit) :
    gather p.stepPlaces (unitActions u) = p.places u.declarations ++ p.places u.body := by
  rw [gather_unitActions _ fun _ _ _ => rfl]
  rfl

theorem places_softmaxOnly :
    gather p.stepPlaces (unitActions (LayerStyle.standard p.config.outputWidth).softmaxOnly) =
      [.declaration (bufferName p.config.outputWidth), .call "cnn_unload"] := by
  have hsoftmax : p.places [.declare "static q15_t ml_softmax[CNN_NUM_OUTPUTS];", .blank] = [] := by
    rw [places_cons, p.places_declare .literal rfl]
    rfl
  have hdeclarations : p.places (LayerStyle.standard p.config.outputWidth).softmaxOnly.declarations =
      [.declaration (bufferName p.config.outputWidth)] := by
    simp only [LayerStyle.softmaxOnly, LayerStyle.standard]
    rw [places_comment, places_cons, places_outputBuffer, hsoftmax]
    rfl
  have hbody : p.places (LayerStyle.standard p.config.outputWidth).softmaxOnly.body = [.call "cnn_unload"] := by
    simp only [LayerStyle.softmaxOnly, LayerStyle.standard]
    cases p.config.outputWidth <;> rfl
  rw [places_unit, hdeclarations, hbody]
  rfl

theorem places_fullyConnected (weights : WeightMatrix) (bias : Option (List Int)) :
    gather p.stepPlaces (unitActions ((LayerStyle.standard p.config.outputWidth).weightedLayer weights bias)) =
      [.declaration (bufferName p.config.outputWidth), .call "cnn_unload"] := by
  have hhead : p.places [.comment "Classification layer:", .define "FC_IN" (decimal weights.cols),
      .declare "static const q7_t fc_weights[] = FC_WEIGHTS;", .blank] = [] := by
    have hweights : p.places [.declare "static const q7_t fc_weights[] = FC_WEIGHTS;", .blank] = [] := by
      rw [places_cons, p.places_declare .literal rfl]
      rfl
    rw [places_comment, places_define, hweights]
  have harrays : p.places [.declare "static q15_t fc_buffer[FC_IN];", .declare "static q15_t fc_output[CNN_NUM_OUTPUTS];",
      .declare "static q15_t ml_softmax[CNN_NUM_OUTPUTS];", .blank] = [] := by
    rw [places_cons, p.places_declare .literal rfl, places_cons, p.places_declare .literal rfl, places_cons,
      p.places_declare .literal rfl]
    rfl
  have hbias : p.places (if bias.isSome then [.declare "static const q7_t fc_bias[] = FC_BIAS;", .blank] else []) = [] := by
    split
    · rw [places_cons, p.places_declare .literal rfl]
      rfl
    · rfl
  have hdeclarations :
      p.places ((LayerStyle.standard p.config.outputWidth).weightedLayer weights bias).declarations =
        [.declaration (bufferName p.config.outputWidth)] := by
    have hsplit : ((LayerStyle.standard p.config.outputWidth).weightedLayer weights bias).declarations =
        [.comment "Classification layer:", .define "FC_IN" (decimal weights.cols),
          .declare "static const q7_t fc_weights[] = FC_WEIGHTS;", .blank] ++ [outputBuffer p.config.outputWidth] ++
        [.declare "static q15_t fc_buffer[FC_IN];", .declare "static q15_t fc_output[CNN_NUM_OUTPUTS];",
          .declare "static q15_t ml_softmax[CNN_NUM_OUTPUTS];", .blank] ++
        if bias.isSome then [.declare "static const q7_t fc_bias[] = FC_BIAS;", .blank] else [] := rfl
    rw [hsplit]
    simp only [places_append, hhead, harrays, hbias, places_outputBuffer]
    rfl
  have hbody : p.places ((LayerStyle.standard p.config.outputWidth).weightedLayer weights bias).body = [.call "cnn_unload"] := rfl
  rw [places_unit, hdeclarations, hbody]
  rfl

theorem places_comparison (values : List Int) :
    gather p.stepPlaces (unitActions ((LayerStyle.standard p.config.outputWidth).comparison values)) = [] := by
  have hdeclarations : p.places ((LayerStyle.standard p.config.outputWidth).comparison values).declarations = [] := by
    have hexpected : p.places [.declare "static q15_t fc_expected[CNN_NUM_OUTPUTS] = FC_EXPECTED;", .blank] = [] := by
      rw [places_cons, p.places_declare .literal rfl]
      rfl
    rw [LayerStyle.comparison, LayerStyle.comparisonCode, places_comment, hexpected]
  rw [places_unit, hdeclarations]
  rfl

theorem Coherent.places_opening {p : Plan} (h : p.Coherent) :
    gather p.stepPlaces p.opening = if p.owns then p.unitPlaces else [] := by
  have hbuffer : p.places [outputBuffer p.config.outputWidth, .blank] = [.declaration (bufferName p.config.outputWidth)] := by
    rw [places_cons, places_outputBuffer]
    rfl
  have hunits (ho : p.owns = true) : gather p.stepPlaces (p.units.flatMap unitActions ++
      if p.config.retrieval = .unload then [.push .main [outputBuffer p.config.outputWidth, .blank]] else []) = p.unitPlaces := by
    obtain ⟨hnil, hunload⟩ | ⟨hlayer, -, hr⟩ | ⟨-, hr, weights, bias, expected, hunits, -⟩ := h.units_cases
    · simp [hnil, hunload ho, unitPlaces, stepPlaces, operations, hbuffer]
    · simp [hlayer, hr, unitPlaces, places_softmaxOnly]
    · rw [hunits]
      cases expected <;> simp [hr, unitPlaces, places_fullyConnected, places_comparison]
  have hwake : gather p.stepPlaces (if p.hostsWakeHandler then [wakeHandler] else []) = [] := by
    split <;> rfl
  have hhelper : gather p.stepPlaces
      (if p.config.topology = .armHost && p.config.sleep && !p.embedded then [wakeStatusHelper] else []) = [] := by
    split <;> rfl
  simp only [opening, fileScopeFunctions, gather_append, places_declarations, hwake, hhelper, List.append_nil, List.nil_append]
  cases ho : p.owns with
  | false => rfl
  | true => simpa using hunits ho

/-! ## Around the phases of the accelerator -/

theorem places_printoutLocals : p.places p.printoutLocals = [] := by
  have hdigits : p.places [.declare "int digs, tens;"] = [] := p.places_declare .literal rfl
  -- The output is unpacked from the buffer, which has another name then.
  have hpacked {type bits : String} (htype : type = "int" ++ bits ++ "_t") (hbits : bits = "8" ∨ bits = "16")
      (hb : bufferWord p.config.outputWidth = .packedData) :
      p.places [.declare (type ++ " *ml_data = (" ++ type ++ " *) ml_data32;")] = [] := by
    subst htype
    rcases hbits with rfl | rfl <;>
      exact p.places_declare_other (.append (.append (.append (.append (.append .literal .literal) .literal) .literal)
        (.append (.append .literal .literal) .literal)) .literal) (by rw [hb]; rfl)
  have height : decimal 8 = "8" := by decide +kernel
  have hsixteen : decimal 16 = "16" := by decide +kernel
  simp only [printoutLocals]
  cases p.printsClasses with
  | false => rfl
  | true =>
    rw [if_pos rfl, places_cons, hdigits, List.nil_append]
    cases hw : p.config.outputWidth with
    | w32 => rfl
    | w8 =>
      rw [hw] at hpacked
      exact hpacked (congrArg (fun bits => "int" ++ bits ++ "_t") height) (Or.inl rfl) rfl
    | w16 =>
      rw [hw] at hpacked
      exact hpacked (congrArg (fun bits => "int" ++ bits ++ "_t") hsixteen) (Or.inr rfl) rfl

theorem places_localVariables : p.places p.localVariables = [] := by
  have htrim : p.places (if p.appliesTrim then [.declare "uint32_t trim;"] else []) = [] := by
    split
    · exact p.places_declare .literal rfl
    · rfl
  have hcounter (P : Bool) : p.places (if P then [.declare "int i;"] else []) = [] := by
    split
    · exact p.places_declare .literal rfl
    · rfl
  simp only [localVariables, places_append, htrim, hcounter, places_printoutLocals]
  rfl

theorem places_locals : gather p.stepPlaces p.locals = [] := by
  simp only [locals]
  split
  · rfl
  · simp [stepPlaces, operations, places_localVariables]

theorem places_coreOperations : p.places p.coreOperations = [] := p.places_of_simple p.simple_coreOperations p.quiet_coreOperations

theorem places_camera : p.places p.camera = [] := by
  simp only [camera]
  split <;> rfl

theorem places_epilogue : p.places p.epilogue = [] := by
  simp only [epilogue, handoff, deepSleep]
  cases p.config.topology <;> (repeat' split) <;> rfl

theorem places_selectClock (source : ClockSource) (divider : ClockDivider) (note : Option String) (device : Device) :
    p.places (selectClock source divider note device) = [] := by
  simp only [selectClock, ClockSource.readyWait]
  cases source <;> cases note <;> cases device.supportsPll <;> rfl

theorem places_acceleratorBringUp : gather p.stepPlaces p.acceleratorBringUp = [] := by
  have henable : p.places p.enableBody = [] := by
    have hclock : p.places p.enableClock = [] := by
      simp only [enableClock]
      (repeat' split) <;> exact p.places_selectClock _ _ _ _
    have hpower : p.places p.powerUp = [] := rfl
    have hvector : p.places p.completionVector = [] := by
      simp only [completionVector]
      cases p.config.topology <;> rfl
    simp only [enableBody, places_append, hclock, hpower, hvector]
    rfl
  have hbase : p.places p.measureBasePower = [] := by
    simp only [measureBasePower]
    cases p.config.topology <;> rfl
  have hboost : gather p.stepPlaces p.boostOn = [] := by
    have hpin (b : BoostPin) (text : String) :
        p.places (.blank :: .comment text :: drivePin b.portName b.pinName .high) = [] := by
      rw [places_blank, places_comment, places_drivePin]
    have hswitch (args : List String) (note : Option String) : p.places [callEmitted "cnn_boost_enable" args note] = [] := rfl
    simp only [boostOn, boostFunction]
    cases p.config.isSplit <;> cases p.config.boost <;> simp [stepPlaces, operations, places_drivePin, hpin, hswitch]
  have hcall : p.places p.enableCall = [] := rfl
  simp only [acceleratorBringUp]
  cases p.sdkRuntime with
  | false => rfl
  | true =>
    cases p.config.measureEnergy <;> cases p.config.isSplit <;>
      simp [stepPlaces, operations, hbase, hcall, hboost, henable]

theorem places_shutdown : p.places p.shutdown = [] := by
  simp only [shutdown]
  split <;> rfl

/-! ## Runs -/

theorem places_configure : gather p.stepPlaces p.configure = [] := by
  have hhead : p.places
      (if p.embedded then [.statement "printf(\"\\n*** CNN Inference Test ***\\n\");", .blank] else []) = [] := by
    split <;> rfl
  have hkernels : p.places p.loadKernels = [] := by
    have hswitch : p.places p.switchToPll = [] := by
      simp only [switchToPll]
      split
      · exact p.places_selectClock _ _ _ _
      · rfl
    simp only [loadKernels, measureLoading]
    cases p.config.measureEnergy with
    | true =>
      simp only [if_true, places_append, hswitch]
      rfl
    | false => cases p.config.loadKernels <;> rfl
  have hbias : p.places [p.loadBias] = [] := by
    simp only [loadBias]
    (repeat' split) <;> rfl
  have hverify : gather p.stepPlaces (if p.config.verifyKernels then p.fatalCheck (.provided "cnn_verify_weights") else []) = [] := by
    split <;> rfl
  have hcheck : gather p.stepPlaces (p.fatalCheck (.provided "cnn_configure")) = [] := rfl
  have hinit (note : Option String) : p.places (callProvided "cnn_init" [] note :: p.loadKernels) = [] := hkernels
  simp only [configure, gather_append, hverify, hcheck]
  simp [stepPlaces, operations, hhead, hinit, hbias]

theorem places_firstRun : gather p.stepPlaces p.firstRun = [.wait p.completionWait] := by
  have hload (note : String) : p.places (p.loadAndStart note) = [] := by
    simp only [loadAndStart]
    split <;> rfl
  have hstop : p.places p.stopAndContinue = [] := by
    simp only [stopAndContinue]
    split <;> rfl
  have hwait (ops : List Operation) : p.places (.await p.completionWait :: ops) = .wait p.completionWait :: p.places ops := rfl
  have hloop (ops : List Operation) : p.places [.counted energyLoops ops] = p.places ops := by
    simp [places, sitesOfAll, sites]
  have hmeasure : p.places p.measureRuns = [.wait p.completionWait] := by
    have hsplit (note : Option String) (ops : List Operation) : p.places
        [.statement "printf(\"Measuring input load + inference...\\n\");",
         callProvided "MXC_TMR_Delay" ["MXC_TMR0", "500000"], .statement "CNN_START;" note,
         .counted energyLoops ops, .statement "CNN_COMPLETE;", .blank] = p.places [.counted energyLoops ops] := rfl
    rw [measureRuns, hsplit, hloop, places_append, hload, hwait]
    rfl
  simp only [firstRun]
  split
  · simp [stepPlaces, operations, hstop, hmeasure]
  · simp [stepPlaces, operations, hstop, hload, hwait]

theorem places_furtherRuns :
    gather p.stepPlaces p.furtherRuns = if p.config.oneshot > 0 then [.wait p.completionWait] else [] := by
  simp only [furtherRuns]
  split <;> rfl

theorem places_execute :
    gather p.stepPlaces p.execute =
      .wait p.completionWait :: if p.config.oneshot > 0 then [.wait p.completionWait] else [] := by
  have hleave : p.places p.leavePll = [] := by
    simp only [leavePll]
    split
    · rw [places_append, places_selectClock]
      rfl
    · rfl
  have hboost : gather p.stepPlaces p.boostOff = [] := by
    simp only [boostOff, boostFunction]
    cases p.config.isSplit <;> cases p.config.forever <;> cases p.config.boost <;>
      simp [stepPlaces, operations, places_drivePin] <;> rfl
  simp [execute, places_firstRun, places_furtherRuns, hboost, stepPlaces, operations, hleave]

theorem places_retrieve : gather p.stepPlaces p.retrieve = [.call p.config.fetchName] := by
  have houtput : gather p.stepPlaces (if p.config.verifyOutput then p.fatalCheck (.provided "check_output") else []) = [] := by
    split <;> rfl
  have hverify : gather p.stepPlaces (if p.verifies then p.fatalCheck (.emitted "fc_verify") else []) = [] := by
    split <;> rfl
  have hreport : p.places p.passReport = [] := by
    simp only [passReport]
    cases p.config.measureEnergy <;> rfl
  have hretrieval : p.places [p.retrieval] = [.call p.config.fetchName] := by
    simp only [retrieval, Configuration.fetchName]
    cases p.config.retrieval <;> rfl
  simp only [retrieve, gather_append, houtput, hverify]
  cases p.embedded <;> simp [stepPlaces, operations, hretrieval, hreport]

theorem places_ending : gather p.stepPlaces p.ending = if p.config.forever then [.wait p.completionWait] else [] := by
  have hloop : p.places p.endlessLoop = [.wait p.completionWait] := by
    simp only [endlessLoop]
    split <;> rfl
  have hprintout : p.places p.classPrintout = [] := rfl
  have hcall (note : Option String) : p.places [callEmitted "cnn_disable" [] note, .blank] = [] := rfl
  simp only [ending, acceleratorShutdown, disableFunction]
  cases p.config.forever <;> cases p.config.isSplit <;> cases p.printsClasses <;>
    simp [stepPlaces, operations, hloop, hprintout, hcall, places_shutdown]

/-! ## Whole programs -/

/-- The places of a program, in the order in which they are written. -/
def allPlaces : List Site :=
  if p.owns then
    p.unitPlaces ++
    (.wait p.completionWait :: if p.config.oneshot > 0 then [.wait p.completionWait] else []) ++
    [.call p.config.fetchName] ++
    if p.config.forever then [.wait p.completionWait] else []
  else []

theorem Coherent.places_actions {p : Plan} (h : p.Coherent) : gather p.stepPlaces p.actions = p.allPlaces := by
  have hphases : gather p.stepPlaces p.acceleratorPhases = if p.owns then
      (.wait p.completionWait :: if p.config.oneshot > 0 then [.wait p.completionWait] else []) ++ [.call p.config.fetchName] ++
        (if p.config.forever then [.wait p.completionWait] else []) else [] := by
    simp only [acceleratorPhases]
    split
    · simp only [gather_append, places_acceleratorBringUp, places_configure, places_execute, places_retrieve, places_ending]
      rfl
    · rfl
  have hinside : gather p.stepPlaces p.inside = gather p.stepPlaces p.acceleratorPhases := by
    simp [inside, places_locals, stepPlaces, operations, places_coreOperations, places_camera, places_epilogue]
  have hends : gather p.stepPlaces [Action.emit (.openUnit .main (.status "main"))] = [] ∧
      gather p.stepPlaces [Action.emit (.closeUnit .main (some "0"))] = [] := ⟨rfl, rfl⟩
  rw [actions_eq, gather_append, gather_append, gather_append, h.places_opening, hinside, hphases, hends.1, hends.2, allPlaces]
  split <;> simp

/-! ## All sources -/

/-- The operations of all sources. -/
def emitted : List Operation := Sink.all.flatMap fun sink => (p.pieces sink).flatMap Piece.operations

/-- Every operation is in one source. -/
theorem emitted_perm : p.emitted.Perm (gather EmitStep.operations p.actions) := by
  simp only [emitted, operations_pieces, gather]
  induction steps p.actions with
  | nil => exact .nil
  | cons step rest ih =>
    have hstep : (Sink.all.flatMap fun sink => step.operationsOn sink).Perm step.operations := by
      cases step with
      | push s ops | function s signature body result =>
        cases s <;> simp [Sink.all, operationsOn, EmitStep.operations]
      | openUnit _ _ | closeUnit _ _ | raw _ _ => exact .nil
    simp only [List.flatMap_cons]
    exact (List.flatMap_append_perm _ _ _).symm.trans (hstep.append ih)

theorem gather_stepPlaces (actions : List Action) : gather p.stepPlaces actions = p.places (gather EmitStep.operations actions) := by
  simp only [gather]
  induction steps actions with
  | nil => rfl
  | cons step rest ih => rw [List.flatMap_cons, List.flatMap_cons, places_append, ih, stepPlaces]

/-- The tracked places of all sources are those that the phases make. -/
theorem Coherent.places_emitted {p : Plan} (h : p.Coherent) : (p.places p.emitted).Perm p.allPlaces := by
  rw [← h.places_actions, gather_stepPlaces, places, places, sitesOfAll_eq_flatMap, sitesOfAll_eq_flatMap]
  exact (p.emitted_perm.flatMap_right _).filter _

theorem Coherent.count_site {p : Plan} (h : p.Coherent) {site : Site} (ht : p.tracks site = true) :
    (sitesOfAll p.emitted).count site = p.allPlaces.count site := by
  rw [← h.places_emitted.count_eq, places, List.count_filter ht]

end Plan

end AccelFirmware
