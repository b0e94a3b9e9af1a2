import AccelFirmware.Proofs.InlinedMain
import AccelFirmware.Proofs.Words

/-!
# Reserved words

The variable of the output pins and the macros of the array literals are kept for the phases that they belong to. The other
phases of `main` have none of these words.
-/

namespace AccelFirmware

/-! ## Words -/

/-- Words with a place of their own in a program: the variable of the output pins, the macros of the array literals, the variables
of `main` and of the classification code, and the symbol and the instruction of a host. -/
inductive Reserved where
  | pin
  | weightsMacro
  | biasMacro
  | expectedMacro
  | trim
  | counter
  | digits
  | tens
  | data
  | packedData
  | softmax
  | weights
  | bias
  | buffer
  | output
  | expected
  | time
  | flashStart
  | sleep
  deriving DecidableEq

namespace Reserved

/-- A word letter by letter. -/
def letters : Reserved → List Char
  | .pin => ['g', 'p', 'i', 'o', '_', 'o', 'u', 't']
  | .weightsMacro => ['F', 'C', '_', 'W', 'E', 'I', 'G', 'H', 'T', 'S']
  | .biasMacro => ['F', 'C', '_', 'B', 'I', 'A', 'S']
  | .expectedMacro => ['F', 'C', '_', 'E', 'X', 'P', 'E', 'C', 'T', 'E', 'D']
  | .trim => ['t', 'r', 'i', 'm']
  | .counter => ['i']
  | .digits => ['d', 'i', 'g', 's']
  | .tens => ['t', 'e', 'n', 's']
  | .data => ['m', 'l', '_', 'd', 'a', 't', 'a']
  | .packedData => ['m', 'l', '_', 'd', 'a', 't', 'a', '3', '2']
  | .softmax => ['m', 'l', '_', 's', 'o', 'f', 't', 'm', 'a', 'x']
  | .weights => ['f', 'c', '_', 'w', 'e', 'i', 'g', 'h', 't', 's']
  | .bias => ['f', 'c', '_', 'b', 'i', 'a', 's']
  | .buffer => ['f', 'c', '_', 'b', 'u', 'f', 'f', 'e', 'r']
  | .output => ['f', 'c', '_', 'o', 'u', 't', 'p', 'u', 't']
  | .expected => ['f', 'c', '_', 'e', 'x', 'p', 'e', 'c', 't', 'e', 'd']
  | .time => ['c', 'n', 'n', '_', 't', 'i', 'm', 'e']
  | .flashStart => ['_', '_', 'F', 'l', 'a', 's', 'h', 'S', 't', 'a', 'r', 't', '_']
  | .sleep => ['_', '_', 'W', 'F', 'I']

def text (r : Reserved) : String := String.ofList r.letters

def all : List Reserved :=
  [.pin, .weightsMacro, .biasMacro, .expectedMacro, .trim, .counter, .digits, .tens, .data, .packedData, .softmax, .weights,
   .bias, .buffer, .output, .expected, .time, .flashStart, .sleep]

theorem mem_all (r : Reserved) : r ∈ all := by
  cases r <;> decide

/-- The words apart from some that are allowed. -/
def others (allowed : List Reserved) : List (List Char) := (all.filter fun r => !allowed.contains r).map letters

def otherWords (allowed : List Reserved) : List String := (others allowed).map String.ofList

theorem mem_otherWords {r : Reserved} {allowed : List Reserved} (h : r ∉ allowed) : r.text ∈ otherWords allowed := by
  simp only [otherWords, others, List.map_map, List.mem_map, List.mem_filter]
  exact ⟨r, ⟨r.mem_all, by simpa using h⟩, rfl⟩

theorem otherWords_subset {allowed more : List Reserved} (h : allowed ⊆ more) : otherWords more ⊆ otherWords allowed := by
  intro word hword
  simp only [otherWords, others, List.map_map, List.mem_map, List.mem_filter] at hword
  obtain ⟨r, ⟨-, hr⟩, rfl⟩ := hword
  have hnot : r ∉ more := by simpa using hr
  exact mem_otherWords fun hm => hnot (h hm)

/-- The words that have nothing to do with pins and literals. -/
def identifiers : List Reserved :=
  [.trim, .counter, .digits, .tens, .data, .packedData, .softmax, .weights, .bias, .buffer, .output, .expected, .time,
   .flashStart, .sleep]

end Reserved

open Reserved

def macroWords : List String := otherWords (.pin :: identifiers)

theorem macroWords_eq : macroWords = ["FC_WEIGHTS", "FC_BIAS", "FC_EXPECTED"] := rfl

def reservedWords : List String := otherWords identifiers

theorem pin_mem_reservedWords : pinVariable ∈ reservedWords := List.mem_cons_self

theorem excludes_others {allowed : List Reserved} {text : String} {cs : List Char} (hb : Blurred text cs)
    (h : (tokens cs).any (Token.isShapedLike (others allowed)) = false) : Excludes (otherWords allowed) text :=
  excludes_of_shapes hb h

theorem Excludes.allow {allowed more : List Reserved} {text : String} (h : Excludes (otherWords allowed) text)
    (hsub : allowed ⊆ more) : Excludes (otherWords more) text :=
  fun word hword => h word (otherWords_subset hsub hword)

namespace Operation

/-- Operations without reserved words, apart from some that are allowed. -/
def MentionsOnly (allowed : List Reserved) (ops : List Operation) : Prop := Lacks (otherWords allowed) ops

/-- Operations that have nothing to do with pins and literals. -/
abbrev Neutral (ops : List Operation) : Prop := Lacks reservedWords ops

section

variable {allowed more : List Reserved} {as bs ops : List Operation}

@[simp] theorem mentionsOnly_nil : MentionsOnly allowed [] := lacks_nil

@[simp] theorem mentionsOnly_append :
    MentionsOnly allowed (as ++ bs) ↔ MentionsOnly allowed as ∧ MentionsOnly allowed bs := lacks_append

@[simp] theorem mentionsOnly_blank : MentionsOnly allowed [.blank] := lacks_of_spelled .nil

theorem mentionsOnly_cons {op : Operation} :
    MentionsOnly allowed (op :: ops) ↔ MentionsOnly allowed [op] ∧ MentionsOnly allowed ops := lacks_cons

theorem mentionsOnly_verbatim {text : String} :
    MentionsOnly allowed [.verbatim text] ↔ Excludes (otherWords allowed) text := lacks_verbatim

theorem mentionsOnly_of_texts (h : ∀ text ∈ textsOfAll ops, Excludes (otherWords allowed) text) : MentionsOnly allowed ops := h

theorem mentionsOnly_of_spelled (h : Spelled (others allowed) (textsOfAll ops)) : MentionsOnly allowed ops := lacks_of_spelled h

theorem MentionsOnly.mono (h : MentionsOnly allowed ops) (hsub : allowed ⊆ more) : MentionsOnly more ops :=
  Lacks.mono h (otherWords_subset hsub)

/-- Without any of the words, operations may stand wherever some are allowed. -/
theorem MentionsOnly.anywhere (h : MentionsOnly [] ops) : MentionsOnly allowed ops := h.mono (List.nil_subset _)

theorem MentionsOnly.not_mentions (h : MentionsOnly allowed ops) {r : Reserved} (hr : r ∉ allowed) {op : Operation}
    (hop : op ∈ ops) : op.mentions r.text = false :=
  Lacks.not_mentions h (mem_otherWords hr) hop

theorem MentionsOnly.neutral (h : MentionsOnly allowed ops) (hsub : allowed ⊆ identifiers) : Neutral ops := h.mono hsub

theorem MentionsOnly.macros (h : MentionsOnly allowed ops) (hsub : allowed ⊆ .pin :: identifiers) : Lacks macroWords ops :=
  h.mono hsub

end

theorem mentions_powerSequence (c : PowerController) (direction : PowerDirection) (m : GroupMask) :
    MentionsOnly [] (powerSequence c direction m) := by
  have hregister (index : Nat) : Excludes (otherWords []) (c.block ++ "->reg" ++ decimal index) := by
    cases c <;> exact excludes_others (.append (.append .literal .literal) (.decimal _)) rfl
  have hvalue (n : Nat) : Excludes (otherWords []) ("0x" ++ hex n) := excludes_others (.append .literal (.hex _)) rfl
  refine mentionsOnly_of_texts ?_
  simp [powerSequence, powerWrites, textsOfAll, texts, PowerController.register, Register.texts, hregister, hvalue]

/-- The buffer of the output. -/
def bufferWord : OutputWidth → Reserved
  | .w32 => .data
  | .w8 | .w16 => .packedData

theorem mentions_unloadCall (w : OutputWidth) : MentionsOnly [bufferWord w] [unloadCall w] := by
  have hcallee : Excludes (otherWords [bufferWord w]) "cnn_unload" := by
    cases w <;> exact excludes_others .literal rfl
  have hbuffer : Excludes (otherWords [bufferWord w]) ("(uint32_t *) " ++ bufferName w) := by
    cases w <;> exact excludes_of_written (.append .literal .literal) rfl
  simpa [MentionsOnly, Lacks, unloadCall, textsOfAll, texts, Callee.name] using ⟨hcallee, hbuffer⟩

end Operation

namespace Plan

variable (p : Plan)

open Operation AccelFirmware.Action EmitStep

/-! ## Cores and camera -/

theorem excludes_clockSelection {source : ClockSource} (h : source ≠ .parameter) :
    Excludes (otherWords []) (clockSelection source (.fixed 1)) := by
  cases source with
  | parameter => exact absurd rfl h
  | ito | pclk =>
    exact excludes_others
      (.append (.append (.append .literal (.append .literal (.decimal 1))) .literal) .literal) rfl

theorem mentions_selectClock {source : ClockSource} (h : source ≠ .parameter) (note : Option String) (device : Device) :
    MentionsOnly [] (selectClock source (.fixed 1) note device) := by
  have hselection := excludes_clockSelection h
  have hready : Excludes (otherWords []) pllNotReady := excludes_others .literal rfl
  have hregister : Excludes (otherWords []) "MXC_GCR->pclkdiv" := excludes_others .literal rfl
  refine mentionsOnly_of_texts ?_
  cases source with
  | parameter => exact absurd rfl h
  | ito | pclk =>
    cases note <;>
      simp [selectClock, ClockSource.readyWait, clockRegister, textsOfAll, texts, Register.texts, hselection, hready, hregister]

/-- The variables that `main` may have. -/
def localWords : List Reserved := [.trim, .counter, .digits, .tens, .data, .packedData]

theorem mentions_locals : MentionsOnly localWords (gather (pushed .main) p.locals) := by
  have hbuffer (w : OutputWidth) : Excludes (otherWords localWords) ("int" ++ decimal w.bits ++ "_t" ++ " *ml_data = (" ++
      ("int" ++ decimal w.bits ++ "_t") ++ " *) ml_data32;") := by
    have htype : Blurred ("int" ++ decimal w.bits ++ "_t") _ := .append (.append .literal (.decimal _)) .literal
    exact excludes_others (.append (.append (.append htype .literal) htype) .literal) rfl
  have hprintout : MentionsOnly localWords p.printoutLocals := by
    have hdigits : MentionsOnly localWords [.declare "int digs, tens;"] :=
      mentionsOnly_of_spelled (by repeat' constructor)
    simp only [printoutLocals]
    split
    · split
      · exact hdigits
      · refine mentionsOnly_append.2 ⟨hdigits, mentionsOnly_of_texts ?_⟩
        simpa [textsOfAll, texts] using hbuffer _
    · exact mentionsOnly_nil
  have hvariables : MentionsOnly localWords p.localVariables := by
    simp only [localVariables, mentionsOnly_append]
    refine ⟨⟨?_, ?_⟩, hprintout⟩ <;> split <;> exact mentionsOnly_of_spelled (by repeat' constructor)
  simp only [locals]
  split
  · exact mentionsOnly_nil
  · simpa [pushed] using hvariables

/-- The variable of the trim code, where there is any. -/
def trimWords : List Reserved := if p.appliesTrim then [.trim] else []

theorem mentions_trimOperations : MentionsOnly p.trimWords p.trimOperations := by
  have hread (address : UInt32) : Blurred (readAt address) _ := .append (.append .literal (.hexWide _ _)) .literal
  have hload : Excludes (otherWords [.trim]) ("trim = " ++ readAt trimShared ++ ";") :=
    excludes_others (.append (.append .literal (hread _)) .literal) rfl
  have hlimit : Excludes (otherWords [.trim]) ("trim = " ++ readAt trimLimit ++ " & ~(0x1ff << 15);") :=
    excludes_others (.append (.append .literal (hread _)) .literal) rfl
  have hslow (n : Nat) : Excludes (otherWords [.trim]) ("trim |= 0x" ++ hex n ++ ";") :=
    excludes_others (.append (.append .literal (.hex _)) .literal) rfl
  have hsixty (n : Nat) : Excludes (otherWords [.trim]) ("trim |= 0x" ++ hex n ++ " << 22;") :=
    excludes_others (.append (.append .literal (.hex _)) .literal) rfl
  have hfast (n : Nat) : Excludes (otherWords [.trim]) ("0x" ++ hex n) := excludes_others (.append .literal (.hex _)) rfl
  have hfixed : ∀ text ∈ ["1", "0", "trim", "trim &= ~0xffff;", "trim &= ~(0x1ff << 22);", "trim | (0xff << 15)"],
      Excludes (otherWords [.trim]) text := Spelled.excludes (by repeat' constructor)
  simp only [List.forall_mem_cons] at hfixed
  simp only [trimOperations, trimWords]
  split
  · cases p.config.clockTrim with
    | none => exact mentionsOnly_nil
    | some t =>
      refine mentionsOnly_of_texts ?_
      simp only [Option.map_some, Option.getD_some, ClockTrim.operations, ClockTrim.sharedWrites, ClockTrim.fastWrites]
      cases t.hirc8m <;> cases t.hirc <;> cases t.hirc96m <;>
        simp [textsOfAll, texts, writeAt, Register.texts, hload, hlimit, hslow, hsixty, hfast, hfixed]
  · exact mentionsOnly_nil

theorem mentions_debuggerDelay (seconds : UInt32) : MentionsOnly [] (debuggerDelay seconds) := by
  have hseconds (n : Nat) : Excludes (otherWords []) ("SEC(" ++ decimal n ++ ")") :=
    excludes_others (.append (.append .literal (.decimal _)) .literal) rfl
  have hdelay : Excludes (otherWords []) "MXC_Delay" := excludes_others .literal rfl
  refine mentionsOnly_of_texts ?_
  simp [debuggerDelay, textsOfAll, texts, callProvided, Callee.name, hseconds, hdelay]

theorem mentions_debuggerPause : MentionsOnly [] p.debuggerPause := by
  simp only [debuggerPause]
  split
  · exact mentionsOnly_append.2 ⟨mentionsOnly_of_spelled (by repeat' constructor), mentions_debuggerDelay _⟩
  · exact mentionsOnly_nil

theorem mentions_camera : MentionsOnly [] p.camera := by
  have hfields (c : Camera) : Excludes (otherWords []) (" +\n".intercalate (p.cameraFields c)) := by
    have hlead : Blurred ("MXC_S_CAMERAIF_CTRL_READ_MODE_SINGLE_IMG" ++ " +\n" ++
        ("MXC_S_CAMERAIF_CTRL_DATA_WIDTH_" ++ decimal c.format.dataWidth ++ "BIT")) _ :=
      .append (.append .literal .literal) (.append (.append .literal (.decimal _)) .literal)
    have hfield {fields : String} {cs : List Char} (h : Blurred fields cs) (letters : List Char) :
        Blurred (fields ++ " +\n" ++ String.ofList letters) _ := .append (.append h .literal) .literal
    simp only [cameraFields]
    cases p.device.modernSim with
    | true =>
      simp only [if_true]
      split
      · exact excludes_others (hfield (hfield hlead _) _) rfl
      · exact excludes_others (hfield hlead _) rfl
    | false =>
      simp only [Bool.false_eq_true, if_false]
      split
      · exact excludes_others (hfield (hfield (hfield hlead _) _) _) rfl
      · exact excludes_others (hfield (hfield hlead _) _) rfl
  have hregister : Excludes (otherWords []) p.cameraRegister := by
    simp only [cameraRegister]
    split <;> exact excludes_others .literal rfl
  simp only [camera]
  cases p.config.camera with
  | none => exact mentionsOnly_nil
  | some c =>
    have hcalls (first second : Option String) (text : String) : MentionsOnly []
        [callProvided "enable_pcif_clock" [] first, callProvided "set_pcif_gpio_altf" [] second, .blank, .comment text] :=
      mentionsOnly_of_spelled (by repeat' constructor)
    refine mentionsOnly_append.2 ⟨hcalls _ _ _, mentionsOnly_of_texts ?_⟩
    simpa [textsOfAll, texts, writeNamed, Register.texts] using ⟨hregister, hfields c⟩

theorem mentions_enablePll : MentionsOnly [] p.enablePll := by
  simp only [enablePll]
  split <;> exact mentionsOnly_of_spelled (by repeat' constructor)

theorem mentions_sdkCoreClock : MentionsOnly p.trimWords p.sdkCoreClock := by
  have hlegacy : MentionsOnly [] [callProvided "icache_enable", .blank, callProvided "SYS_ClockEnable" ["SYS_PERIPH_CLOCK_AI"]] :=
    mentionsOnly_of_spelled (by repeat' constructor)
  have hcache : MentionsOnly [] [callProvided "MXC_ICC_Enable" ["MXC_ICC0"] (some "Enable cache"), .blank] :=
    mentionsOnly_of_spelled (by repeat' constructor)
  have hselect (note : String) : MentionsOnly [] [.comment note, callProvided "MXC_SYS_Clock_Select" ["MXC_SYS_CLOCK_IPO"]] :=
    mentionsOnly_of_spelled (by repeat' constructor)
  have hupdate : MentionsOnly [] [callProvided "SystemCoreClockUpdate"] := mentionsOnly_of_spelled (by repeat' constructor)
  simp only [sdkCoreClock]
  split
  · exact hlegacy.anywhere
  · simp only [mentionsOnly_append, mentions_trimOperations, p.mentions_enablePll.anywhere, hcache.anywhere, (hselect _).anywhere,
      hupdate.anywhere, and_self]

theorem mentions_simulationOscillator : MentionsOnly [] p.simulationOscillator := by
  simp only [simulationOscillator]
  cases p.device.powerController with
  | bbfc => exact mentionsOnly_of_spelled (by repeat' constructor)
  | gcfr =>
    simp only [mentionsOnly_append, mentions_enablePll, and_true]
    exact ⟨mentionsOnly_of_spelled (by repeat' constructor), mentionsOnly_of_spelled (by repeat' constructor)⟩

theorem mentions_simulationPowerUp : MentionsOnly [] p.simulationPowerUp := by
  have hpower : MentionsOnly [] p.powerUp := mentions_powerSequence _ _ _
  simp only [simulationPowerUp]
  cases p.device.powerController with
  | bbfc =>
    simp only [mentionsOnly_append, hpower, and_true]
    exact ⟨⟨mentionsOnly_of_spelled (by repeat' constructor), mentionsOnly_of_spelled (by repeat' constructor)⟩,
      mentionsOnly_of_spelled (by repeat' constructor)⟩
  | gcfr =>
    simp only [mentionsOnly_append, hpower, mentions_selectClock (by decide : ClockSource.pclk ≠ .parameter), and_true, true_and]
    exact ⟨⟨mentionsOnly_of_spelled (by repeat' constructor), mentionsOnly_of_spelled (by repeat' constructor)⟩,
      mentionsOnly_of_spelled (by repeat' constructor)⟩

theorem mentions_simulationCoreClock : MentionsOnly [] p.simulationCoreClock := by
  simp only [simulationCoreClock, mentionsOnly_append]
  refine ⟨mentionsOnly_of_spelled (by repeat' constructor), ?_⟩
  split
  · exact mentionsOnly_of_spelled (by repeat' constructor)
  · simp only [mentionsOnly_append, mentions_simulationOscillator]
    refine ⟨⟨mentionsOnly_of_spelled (by repeat' constructor), trivial⟩, ?_⟩
    split
    · exact mentionsOnly_nil
    · exact p.mentions_simulationPowerUp

theorem mentions_companionBringUp : MentionsOnly [] p.companionBringUp := by
  simp only [companionBringUp]
  (repeat' split) <;> exact mentionsOnly_of_spelled (by repeat' constructor)

theorem mentions_coreClock : MentionsOnly p.trimWords p.coreClock := by
  simp only [coreClock]
  split
  · exact p.mentions_sdkCoreClock
  · exact p.mentions_simulationCoreClock.anywhere

theorem mentions_coreOperations (ho : p.owns = true) : MentionsOnly p.trimWords p.coreOperations := by
  simp only [coreOperations]
  cases ht : p.config.topology with
  | singleCore =>
    exact mentionsOnly_append.2 ⟨mentionsOnly_append.2 ⟨p.mentions_coreClock, p.mentions_debuggerPause.anywhere⟩,
      mentionsOnly_blank⟩
  | armHost => simp [owns, ht, Topology.ownsAccelerator] at ho
  | companion => exact p.mentions_companionBringUp.anywhere

theorem neutral_leadOps (ho : p.owns = true) : Neutral p.leadOps := by
  have htrim : p.trimWords ⊆ identifiers := by
    simp only [trimWords]
    split <;> decide
  exact lacks_append.2 ⟨lacks_append.2 ⟨p.mentions_locals.neutral (by decide), (p.mentions_coreOperations ho).neutral htrim⟩,
    p.mentions_camera.neutral (by decide)⟩

theorem mentions_shutdown : MentionsOnly [] p.shutdown := by
  refine mentionsOnly_append.2 ⟨?_, mentions_powerSequence _ _ _⟩
  split <;> exact mentionsOnly_of_spelled (by repeat' constructor)

theorem mentions_measureBasePower : MentionsOnly [] p.measureBasePower := by
  simp only [measureBasePower]
  cases p.config.topology <;> exact mentionsOnly_of_spelled (by repeat' constructor)

theorem mentions_completionVector : MentionsOnly [] p.completionVector := by
  simp only [completionVector]
  cases p.config.topology <;> exact mentionsOnly_of_spelled (by repeat' constructor)

theorem mentions_enableClock : MentionsOnly []
    [callProvided "MXC_SYS_ClockEnable" ["MXC_SYS_PERIPH_CLOCK_CNN"] (some "Enable CNN clock"), .blank] :=
  mentionsOnly_of_spelled (by repeat' constructor)

/-- The source is passed to the function of the split layout. -/
theorem mentions_enableCall : MentionsOnly [] p.enableCall := by
  have hdivider : Excludes (otherWords []) (ClockDivider.fixed 1).selector :=
    excludes_others (.append .literal (.decimal 1)) rfl
  have hsource : Excludes (otherWords []) p.requestedClock.2 := by
    simp only [requestedClock]
    (repeat' split) <;> exact excludes_others .literal rfl
  have hname : Excludes (otherWords []) "cnn_enable" := excludes_others .literal rfl
  refine mentionsOnly_of_texts ?_
  simp [enableCall, textsOfAll, texts, callEmitted, Callee.name, hdivider, hsource, hname]

theorem mentions_enableBody (hs : p.config.isSplit = false) : MentionsOnly [] p.enableBody := by
  have hclock : MentionsOnly [] p.enableClock := by
    rw [enableClock, hs]
    simp only [Bool.false_eq_true, if_false]
    split <;> exact mentions_selectClock (by decide) _ _
  simp only [enableBody, mentionsOnly_append]
  exact ⟨⟨⟨⟨mentions_powerSequence _ _ _, mentionsOnly_blank⟩, hclock⟩, mentions_enableClock⟩, p.mentions_completionVector⟩

theorem mentions_passedClock : MentionsOnly [] p.passedClock := by
  have hselection : Excludes (otherWords []) (clockSelection p.requestedSource (.fixed 1)) := by
    refine excludes_clockSelection ?_
    rw [requestedSource]
    split <;> decide
  have hguard : Excludes (otherWords []) p.sourceGuard := by
    rw [sourceGuard, requestedSource]
    split <;> exact excludes_others (.append (.append .literal .literal) .literal) rfl
  have hready : Excludes (otherWords []) pllNotReady := excludes_others .literal rfl
  have hregister : Excludes (otherWords []) "MXC_GCR->pclkdiv" := excludes_others .literal rfl
  refine mentionsOnly_of_texts ?_
  cases hp : p.device.supportsPll <;>
    simp [passedClock, hp, clockRegister, textsOfAll, texts, Register.texts, hselection, hguard, hready, hregister]

theorem mentions_openedEnable : MentionsOnly [] p.openedEnable := by
  have hcomments : MentionsOnly [] (p.enableCall.take 2) := mentionsOnly_nil
  cases hs : p.config.isSplit with
  | false =>
    rw [openedEnable, hs]
    exact p.mentions_enableBody hs
  | true =>
    simp only [openedEnable, hs, if_true, mentionsOnly_append]
    exact ⟨⟨⟨⟨⟨hcomments, mentions_powerSequence _ _ _⟩, mentionsOnly_blank⟩, p.mentions_passedClock⟩, mentions_enableClock⟩,
      p.mentions_completionVector⟩

theorem mentions_configure : MentionsOnly [] (gather (pushed .main) p.configure) := by
  have hhead (note : Option String) : MentionsOnly []
      ((if p.embedded then [Operation.statement "printf(\"\\n*** CNN Inference Test ***\\n\");", .blank] else []) ++
        [callProvided "cnn_init" [] note]) := by
    split <;> exact mentionsOnly_of_spelled (by repeat' constructor)
  have hswitch : MentionsOnly [] p.switchToPll := by
    simp only [switchToPll]
    split
    · exact mentions_selectClock (by decide) _ _
    · exact mentionsOnly_nil
  have hkernels : MentionsOnly [] p.loadKernels := by
    simp only [loadKernels]
    split
    · exact mentionsOnly_append.2 ⟨hswitch, mentionsOnly_of_spelled (by repeat' constructor)⟩
    · split <;> exact mentionsOnly_of_spelled (by repeat' constructor)
  have hverify : MentionsOnly [] (gather (pushed .main)
      (if p.config.verifyKernels then p.fatalCheck (.provided "cnn_verify_weights") else [])) := by
    split <;> exact mentionsOnly_of_spelled (by repeat' constructor)
  have hbias : MentionsOnly [] [p.loadBias] := by
    simp only [loadBias]
    (repeat' split) <;> exact mentionsOnly_of_spelled (by repeat' constructor)
  have hcheck : MentionsOnly [] (gather (pushed .main) (p.fatalCheck (.provided "cnn_configure"))) :=
    mentionsOnly_of_spelled (by repeat' constructor)
  simp only [configure, gather_append, gather_push, gather_advance, gather_nil, pushed, if_true, List.append_nil]
  simp only [@mentionsOnly_append _ (_ ++ _)]
  exact ⟨⟨⟨⟨hhead _, hkernels⟩, hverify⟩, hbias⟩, hcheck⟩

theorem mentions_runOps : MentionsOnly [] p.runOps := by
  have hfirst : MentionsOnly [] (gather (pushed .main) p.firstRun) := by
    simp only [firstRun, stopAndContinue, measureRuns, loadAndStart]
    (repeat' split) <;> exact mentionsOnly_of_spelled (by repeat' constructor)
  have hfurther : MentionsOnly [] (gather (pushed .main) p.furtherRuns) := by
    simp only [furtherRuns]
    split <;> exact mentionsOnly_of_spelled (by repeat' constructor)
  have hleave : MentionsOnly [] p.leavePll := by
    simp only [leavePll]
    split
    · exact mentionsOnly_append.2 ⟨mentions_selectClock (by decide) _ _, mentionsOnly_of_spelled (by repeat' constructor)⟩
    · exact mentionsOnly_nil
  exact mentionsOnly_append.2 ⟨mentionsOnly_append.2 ⟨mentionsOnly_append.2 ⟨p.mentions_configure, hfirst⟩, hfurther⟩, hleave⟩

theorem neutral_runOps : Neutral p.runOps := p.mentions_runOps.neutral (by decide)

theorem mentions_passReport : MentionsOnly [.time] p.passReport := by
  have hpass : MentionsOnly [] [.blank, .statement "printf(\"\\n*** PASS ***\\n\\n\");", .blank] :=
    mentionsOnly_of_spelled (by repeat' constructor)
  have hrest : MentionsOnly [] ([Operation.blank] ++ if p.config.measureEnergy then
      [Operation.statement "printf(\"See monitor display for inference energy.\\n\\n\");", .blank] else []) := by
    split <;> exact mentionsOnly_of_spelled (by repeat' constructor)
  refine mentionsOnly_append.2 ⟨mentionsOnly_append.2 ⟨hpass.anywhere, mentionsOnly_verbatim.2 ?_⟩, hrest.anywhere⟩
  split <;> exact excludes_others (.append (.append .literal .literal) .literal) rfl

/-- The buffer that `main` itself fetches the result into, if it does. -/
def retrievalWords : List Reserved :=
  match p.config.retrieval with
  | .unload => [bufferWord p.config.outputWidth]
  | .fullyConnected | .softmaxOnly => []

theorem mentions_retrieval : MentionsOnly p.retrievalWords [p.retrieval] := by
  simp only [retrieval, retrievalWords]
  cases p.config.retrieval with
  | unload => exact mentions_unloadCall _
  | fullyConnected | softmaxOnly => exact mentionsOnly_of_spelled (by repeat' constructor)

/-- The stamp in the report of an embedded program. -/
def reportWords : List Reserved := if p.embedded then [.time] else []

theorem mentions_retrieve : MentionsOnly (p.retrievalWords ++ p.reportWords) (gather (pushed .main) p.retrieve) := by
  have houtput : MentionsOnly [] (gather (pushed .main)
      (if p.config.verifyOutput then p.fatalCheck (.provided "check_output") else [])) := by
    split <;> exact mentionsOnly_of_spelled (by repeat' constructor)
  have hverify : MentionsOnly [] (gather (pushed .main) (if p.verifies then p.fatalCheck (.emitted "fc_verify") else [])) := by
    split <;> exact mentionsOnly_of_spelled (by repeat' constructor)
  have hreport : MentionsOnly p.reportWords (gather (pushed .main) (if p.embedded then [.push .main p.passReport] else [])) := by
    simp only [reportWords]
    split
    · simpa [pushed] using p.mentions_passReport
    · exact mentionsOnly_nil
  simp only [retrieve, gather_append, gather_push, gather_nil, pushed, if_true, List.append_nil, mentionsOnly_append]
  exact ⟨⟨⟨houtput.anywhere, p.mentions_retrieval.mono (List.subset_append_left _ _)⟩, hverify.anywhere⟩,
    hreport.mono (List.subset_append_right _ _)⟩

theorem neutral_retrieve : Neutral (gather (pushed .main) p.retrieve) := by
  refine p.mentions_retrieve.neutral (List.append_subset.2 ⟨?_, ?_⟩)
  · simp only [retrievalWords]
    cases p.config.retrieval <;> cases p.config.outputWidth <;> decide
  · simp only [reportWords]
    split <;> decide

theorem mentions_endlessLoop : MentionsOnly [] p.endlessLoop := by
  simp only [endlessLoop]
  split <;> exact mentionsOnly_of_spelled (by repeat' constructor)

/-- The variables of the classification printout, and the array that it prints. -/
def printoutWords : List Reserved :=
  [Reserved.counter, .digits, .tens, .softmax] ++ match p.config.retrieval with
    | .fullyConnected => [Reserved.output]
    | .softmaxOnly | .unload => [Reserved.data]

theorem mentions_classPrintout : MentionsOnly p.printoutWords p.classPrintout := by
  have hheading : MentionsOnly [] [.statement "printf(\"Classification results:\\n\");"] :=
    mentionsOnly_of_spelled (by repeat' constructor)
  refine mentionsOnly_append.2 ⟨hheading.anywhere, mentionsOnly_verbatim.2 ?_⟩
  simp only [classSource, printoutWords]
  cases p.config.retrieval <;>
    exact excludes_of_written (.append (.append (.append .literal .literal) .literal) .literal) rfl

theorem mentions_epilogue (ho : p.owns = true) : MentionsOnly [] p.epilogue := by
  have hhandoff : MentionsOnly [] p.handoff := by
    cases ht : p.config.topology with
    | armHost => simp [owns, ht, Topology.ownsAccelerator] at ho
    | singleCore =>
      rw [handoff, ht]
      exact mentionsOnly_nil
    | companion =>
      simp only [handoff, ht]
      split <;> exact mentionsOnly_of_spelled (by repeat' constructor)
  refine mentionsOnly_append.2 ⟨hhandoff, ?_⟩
  split <;> exact mentionsOnly_of_spelled (by repeat' constructor)

theorem neutral_epilogue (ho : p.owns = true) : Neutral p.epilogue := (p.mentions_epilogue ho).neutral (by decide)

/-- The variables at the end of `main`. -/
def endingWords : List Reserved := if p.printsClasses then p.printoutWords else []

theorem endingWords_subset : p.endingWords ⊆ identifiers := by
  simp only [endingWords, printoutWords]
  (repeat' split) <;> decide

theorem mentions_printout :
    MentionsOnly p.endingWords (gather (pushed .main) (if p.printsClasses then [.push .main p.classPrintout] else [])) := by
  simp only [endingWords]
  split
  · simpa [pushed] using p.mentions_classPrintout
  · exact mentionsOnly_nil

theorem mentions_ending : MentionsOnly p.endingWords (gather (pushed .main) p.ending) := by
  have hcall : MentionsOnly [] [callEmitted "cnn_disable" [] (some "Shut down CNN clock, disable peripheral"), .blank] :=
    mentionsOnly_of_spelled (by repeat' constructor)
  simp only [ending, acceleratorShutdown, disableFunction]
  cases p.config.forever with
  | true => cases p.config.isSplit <;> simpa [pushed] using p.mentions_endlessLoop.anywhere
  | false =>
    cases p.config.isSplit with
    | true => exact mentionsOnly_append.2 ⟨hcall.anywhere, p.mentions_printout⟩
    | false =>
      simp only [Bool.false_eq_true, if_false, gather_append, mentionsOnly_append, p.mentions_printout, and_true]
      simpa [pushed] using p.mentions_shutdown.anywhere

theorem neutral_ending : Neutral (gather (pushed .main) p.ending) ∧ Neutral p.openedEnding := by
  have hending := p.mentions_ending.neutral p.endingWords_subset
  refine ⟨hending, ?_⟩
  simp only [openedEnding]
  split
  · have hprint : Neutral (if p.printsClasses then p.classPrintout else []) := by
      have hpushed := p.mentions_printout.neutral p.endingWords_subset
      cases hp : p.printsClasses with
      | false => exact lacks_nil
      | true => simpa [hp, pushed] using hpushed
    exact lacks_append.2 ⟨(mentionsOnly_append.2 ⟨p.mentions_shutdown, mentionsOnly_blank⟩).neutral (by decide), hprint⟩
  · exact hending

/-- Energy is measured from a switched-off accelerator, which takes a call in the split layout. -/
theorem mentions_base : MentionsOnly [] (if p.config.measureEnergy then p.shutdown ++ p.measureBasePower.tail else []) := by
  have hrest : MentionsOnly [] p.measureBasePower.tail := (mentionsOnly_cons.1 p.mentions_measureBasePower).2
  split
  · exact mentionsOnly_append.2 ⟨p.mentions_shutdown, hrest⟩
  · exact mentionsOnly_nil

theorem mentions_boostCalls (b : BoostPin) (name : String) (note : Option String)
    (h : name ∈ ["cnn_boost_enable", "cnn_boost_disable"]) : MentionsOnly [] [callEmitted name [b.portName, b.pinName] note] := by
  have hport : Excludes (otherWords []) b.portName := excludes_others (.append .literal (.decimal _)) rfl
  have hpin : Excludes (otherWords []) b.pinName := excludes_others (.append .literal (.decimal _)) rfl
  have hname : Excludes (otherWords []) name := by
    simp only [List.mem_cons, List.not_mem_nil, or_false] at h
    rcases h with rfl | rfl <;> exact excludes_others .literal rfl
  refine mentionsOnly_of_texts ?_
  simp [textsOfAll, texts, callEmitted, Callee.name, hport, hpin, hname]

/-- How the accelerator is switched on, up to the boost circuit. -/
theorem mentions_enable :
    MentionsOnly [] (gather (pushed .main) ((if p.config.measureEnergy then [Action.push .main p.measureBasePower] else []) ++
      (if p.config.isSplit then
        [Action.push .main p.enableCall, .function .api enableSignature p.enableBody (some "CNN_OK")]
       else [Action.push .main p.enableBody]))) := by
  have hbase : MentionsOnly []
      (gather (pushed .main) (if p.config.measureEnergy then [.push .main p.measureBasePower] else [])) := by
    split
    · simpa [pushed] using p.mentions_measureBasePower
    · exact mentionsOnly_nil
  have henable : MentionsOnly [] (gather (pushed .main) (if p.config.isSplit then
      [.push .main p.enableCall, .function .api enableSignature p.enableBody (some "CNN_OK")]
      else [.push .main p.enableBody])) := by
    cases hs : p.config.isSplit with
    | true => simpa [pushed] using p.mentions_enableCall
    | false => simpa [pushed] using p.mentions_enableBody hs
  rw [gather_append]
  exact mentionsOnly_append.2 ⟨hbase, henable⟩

/-- What stands in `main` ahead of the boost circuit. -/
theorem neutral_enable (ho : p.owns = true) :
    Neutral (p.leadOps ++ gather (pushed .main) ((if p.config.measureEnergy then [Action.push .main p.measureBasePower] else []) ++
      (if p.config.isSplit then
        [Action.push .main p.enableCall, .function .api enableSignature p.enableBody (some "CNN_OK")]
       else [Action.push .main p.enableBody]))) :=
  lacks_append.2 ⟨p.neutral_leadOps ho, p.mentions_enable.neutral (by decide)⟩

variable {p}

/-- Reserved words are only mentioned in `main` where the boost circuit mentions them. -/
theorem lacks_inside (ho : p.owns = true) {words : List String} (hw : words ⊆ reservedWords)
    (hon : Lacks words (gather (pushed .main) p.boostOn)) (hoff : Lacks words (gather (pushed .main) p.boostOff)) :
    Lacks words (gather (pushed .main) p.inside) := by
  have hbringUp : Lacks words (p.leadOps ++ gather (pushed .main) p.acceleratorBringUp) := by
    simp only [acceleratorBringUp]
    split
    · have hblank : MentionsOnly [] (gather (pushed .main) [.push .main [.blank]]) := mentionsOnly_blank
      rw [gather_append, gather_append, ← List.append_assoc, ← List.append_assoc]
      exact lacks_append.2 ⟨lacks_append.2 ⟨(p.neutral_enable ho).mono hw, hon⟩, (hblank.neutral (by decide)).mono hw⟩
    · simpa using (p.neutral_leadOps ho).mono hw
  rw [inside_eq ho]
  simp only [@lacks_append _ (_ ++ _)]
  exact ⟨⟨⟨⟨⟨hbringUp, p.neutral_runOps.mono hw⟩, hoff⟩, p.neutral_retrieve.mono hw⟩, p.neutral_ending.1.mono hw⟩,
    (p.neutral_epilogue ho).mono hw⟩

end Plan

end AccelFirmware
