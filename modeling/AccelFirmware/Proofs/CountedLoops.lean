import AccelFirmware.Proofs.RegisterContents
import AccelFirmware.Proofs.Scopes

/-!
# Counted loops

How often the counted loops of `main` run their bodies. All of them count with one variable, a signed word of 32 bits, up to a
limit that is written as a constant. Past the largest number of its type the variable has no value.
-/

namespace AccelFirmware

/-! ## Heads of loops -/

/-- A decimal constant that is a word. -/
theorem constant?_decimal (n : UInt32) : constant? (decimal n.toNat).toList = some n := by
  rw [decimal, String.toList_ofList]
  by_cases hn : n.toNat = 0
  · have hzero : Radix.decimal.write 0 = ['0'] := by
      rw [Radix.write, digits]
      rfl
    rw [hn, hzero, UInt32.toNat_inj.1 (show n.toNat = UInt32.toNat 0 from hn)]
    rfl
  · obtain ⟨c, cs, hwrite, hc⟩ := write_decimal_of_pos (Nat.pos_of_ne_zero hn)
    have hread : Radix.decimal.read? (c :: cs) = some n.toNat := hwrite ▸ Radix.read?_write .decimal 0 _
    have hplain : constant? (c :: cs) = (Radix.decimal.read? (c :: cs)).bind wordOf? := by
      rw [constant?]
      · rintro text htext
        exact hc (List.cons.inj htext).1
      · intro htext
        exact hc (List.cons.inj htext).1
      · intro text htext
        exact hc (List.cons.inj htext).1
    rw [hwrite, hplain, hread]
    simp [wordOf?, n.toNat_lt]

/-- What the first line of a counting loop says: a variable, its first value and the limit that it stays below. -/
structure ForHead where
  counter : List Char
  first : UInt32
  limit : UInt32
  deriving DecidableEq, Repr

def forHead? : List Token → Option ForHead
  | [.word keyword, .mark ' ', .mark '(', .word counter, .mark ' ', .mark '=', .mark ' ', .word first, .mark ';', .mark ' ',
      .word tested, .mark ' ', .mark '<', .mark ' ', .word limit, .mark ';', .mark ' ',
      .word stepped, .mark '+', .mark '+', .mark ')', .mark ' ', .mark '\x7b'] =>
      if keyword = "for".toList ∧ tested = counter ∧ stepped = counter then do
        some ⟨counter, ← constant? first, ← constant? limit⟩
      else none
  | _ => none

namespace Operation

/-- The head of a counting loop, read from the first line of the code. -/
def forHead? (op : Operation) : Option ForHead :=
  (op.lines 0).head?.bind fun line => AccelFirmware.forHead? (tokens line.text.toList)

theorem tokens_decimal (n : Nat) : tokens (decimal n).toList = [.word (decimal n).toList] := by
  rw [decimal, String.toList_ofList]
  exact tokens_word (write_ne_nil _ _) fun c hc =>
    Token.isWordChar_of_isNumeralChar (isNumeralChar_of_mem_write (by decide) hc)

theorem tokens_head (n : Nat) : tokens ("for (i = 0; i < " ++ decimal n ++ "; i++) \x7b").toList =
    tokens "for (i = 0; i <".toList ++
      .mark ' ' :: .word (decimal n).toList :: .mark ';' :: tokens " i++) \x7b".toList := by
  have htext : ("for (i = 0; i < " ++ decimal n ++ "; i++) \x7b").toList =
      "for (i = 0; i <".toList ++ ' ' :: ((decimal n).toList ++ ';' :: " i++) \x7b".toList) := by
    simp
  rw [htext, tokens_append_mark rfl, tokens_append_mark rfl, tokens_decimal]
  rfl

theorem forHead?_counted (count : UInt32) (body : List Operation) :
    (counted count body).forHead? = some ⟨['i'], 0, count⟩ := by
  have hread : (counted count body).forHead? = AccelFirmware.forHead?
      (tokens ("for (i = 0; i < " ++ decimal count.toNat ++ "; i++) \x7b").toList) := rfl
  rw [hread, tokens_head]
  show ((constant? ['0']).bind fun first => (constant? (decimal count.toNat).toList).bind fun limit =>
    some (⟨['i'], first, limit⟩ : ForHead)) = _
  rw [constant?_decimal]
  rfl

/-! ## Runs of loops -/

/-- Operations that are neither loops nor guards and do not speak of the counter. -/
def keepsCounter : Operation → Bool
  | .guarded _ _ | .counted _ _ | .forever _ => false
  | op => !op.mentions "i"

variable (taken : String → Bool)

mutual

/-- An operation that is begun with one value of the counter ends with another one. A loop without an end has no rule. -/
inductive Runs : Operation → Int32 → Int32 → Prop where
  | step {op : Operation} {i : Int32} (hop : op.keepsCounter = true) : Runs op i i
  | enter {condition : String} {body : Operation} {i j : Int32} (hcondition : taken condition = true)
      (hword : hasWord "i" condition = false) (hbody : Runs body i j) : Runs (.guarded condition body) i j
  | skip {condition : String} {body : Operation} {i : Int32} (hcondition : taken condition = false)
      (hword : hasWord "i" condition = false) : Runs (.guarded condition body) i i
  | loop {count : UInt32} {body : List Operation} {head : ForHead} {i j : Int32} {n : Nat}
      (hhead : (counted count body).forHead? = some head) (hcounter : head.counter = ['i'])
      (hrounds : Rounds body head.limit head.first.toInt32 n j) : Runs (.counted count body) i j

inductive RunsAll : List Operation → Int32 → Int32 → Prop where
  | nil {i : Int32} : RunsAll [] i i
  | cons {op : Operation} {ops : List Operation} {i j k : Int32} (hop : Runs op i j) (hops : RunsAll ops j k) :
      RunsAll (op :: ops) i k

/-- A loop that has come to a test of its counter ends after some more rounds. The test is one of integers. There is no rule for
the step that would leave the type of the counter. -/
inductive Rounds : List Operation → UInt32 → Int32 → Nat → Int32 → Prop where
  | done {body : List Operation} {limit : UInt32} {i : Int32} (htest : (limit.toNat : Int) ≤ i.toInt) : Rounds body limit i 0 i
  | next {body : List Operation} {limit : UInt32} {i j k : Int32} {n : Nat} (htest : i.toInt < limit.toNat)
      (hbody : RunsAll body i j) (hstep : j ≠ Int32.maxValue) (hrest : Rounds body limit (j + 1) n k) :
      Rounds body limit i (n + 1) k

end

end Operation

/-- A counted loop of some operations. -/
structure CountedLoop where
  count : UInt32
  body : List Operation
  deriving Repr

/-- The loop ends, and it has had `n` rounds. -/
def CountedLoop.EndsAfter (taken : String → Bool) (loop : CountedLoop) (n : Nat) : Prop :=
  ∃ head last, (Operation.counted loop.count loop.body).forHead? = some head ∧ head.counter = ['i'] ∧
    Operation.Rounds taken loop.body head.limit head.first.toInt32 n last

namespace Operation

variable {taken : String → Bool} {op : Operation} {ops body : List Operation} {limit : UInt32} {i j : Int32} {n : Nat}

theorem Runs.eq_of_keepsCounter (h : Runs taken op i j) (hop : op.keepsCounter = true) : j = i := by
  cases h with
  | step _ => rfl
  | enter _ _ _ | skip _ _ | loop _ _ _ => cases hop

/-- Operations that do not speak of the counter leave it alone. -/
theorem runsAll_iff (h : ops.all keepsCounter = true) : RunsAll taken ops i j ↔ j = i := by
  induction ops with
  | nil =>
    refine ⟨fun hrun => ?_, fun heq => heq ▸ .nil⟩
    cases hrun
    rfl
  | cons op ops ih =>
    obtain ⟨hop, hops⟩ : op.keepsCounter = true ∧ ops.all keepsCounter = true := by simpa using h
    constructor
    · intro hrun
      cases hrun with
      | cons hfirst hrest =>
        obtain rfl := hfirst.eq_of_keepsCounter hop
        exact (ih hops).1 hrest
    · exact fun heq => .cons (.step hop) ((ih hops).2 heq)

theorem toInt_add_one (h : i ≠ Int32.maxValue) : (i + 1).toInt = i.toInt + 1 := by
  have hlow := Int32.le_toInt i
  have hhigh : i.toInt < 2 ^ 31 - 1 := by
    refine lt_of_le_of_ne ?_ fun heq => h (Int32.toInt_inj.1 (heq.trans Int32.toInt_maxValue.symm))
    exact Int32.toInt_maxValue ▸ Int32.toInt_le i
  rw [Int32.toInt_add, Int32.toInt_one]
  exact Int.bmod_eq_of_le (by omega) (by omega)

/-- A loop that ends has counted up to its limit, so its limit is a value of the counter. -/
theorem Rounds.count_eq (hbody : body.all keepsCounter = true) (h : Rounds taken body limit i n j)
    (hi : i.toInt ≤ limit.toNat) : i.toInt + n = limit.toNat ∧ limit.toNat < 2 ^ 31 := by
  -- On the rounds that are left: they and the counter add up to the limit, and the last test is made at the limit itself.
  induction n generalizing i with
  | zero =>
    cases h with
    | done htest =>
      have hlast := Int32.toInt_lt j
      omega
  | succ n ih =>
    cases h with
    | next htest hrun hstep hrest =>
      obtain rfl := (runsAll_iff hbody).1 hrun
      have hnext := toInt_add_one hstep
      obtain ⟨hcount, hlimit⟩ := ih hrest (by omega)
      omega

theorem exists_rounds (hbody : body.all keepsCounter = true) (hlimit : limit.toNat < 2 ^ 31) (h : i.toInt + n = limit.toNat) :
    ∃ last, Rounds taken body limit i n last := by
  induction n generalizing i with
  | zero => exact ⟨i, .done (by omega)⟩
  | succ n ih =>
    have hstep : i ≠ Int32.maxValue := by
      rintro rfl
      rw [Int32.toInt_maxValue] at h
      omega
    obtain ⟨last, hrest⟩ := ih (i := i + 1) (by rw [toInt_add_one hstep]; omega)
    exact ⟨last, .next (by omega) ((runsAll_iff hbody).2 rfl) hstep hrest⟩

end Operation

namespace CountedLoop

variable {taken : String → Bool} {loop : CountedLoop}

/-- A loop whose count is no value of the counter does not end. -/
theorem endsAfter_iff (h : loop.body.all Operation.keepsCounter = true) (n : Nat) :
    loop.EndsAfter taken n ↔ n = loop.count.toNat ∧ loop.count.toNat < 2 ^ 31 := by
  have hfirst : (UInt32.toInt32 0).toInt = 0 := rfl
  constructor
  · rintro ⟨head, last, hhead, -, hrounds⟩
    obtain rfl := Option.some.inj ((Operation.forHead?_counted _ _).symm.trans hhead)
    have hcount : (UInt32.toInt32 0).toInt + n = loop.count.toNat ∧ loop.count.toNat < 2 ^ 31 :=
      hrounds.count_eq h (Int.natCast_nonneg _)
    omega
  · rintro ⟨rfl, hlimit⟩
    obtain ⟨last, hrounds⟩ : ∃ last,
        Operation.Rounds taken loop.body loop.count (UInt32.toInt32 0) loop.count.toNat last :=
      Operation.exists_rounds h hlimit (by rw [hfirst, Int.zero_add])
    exact ⟨_, last, Operation.forHead?_counted _ _, rfl, hrounds⟩

end CountedLoop

/-! ## Loops of operations -/

namespace Operation

mutual

/-- The counted loops of an operation, wherever they are in it. -/
def loops : Operation → List CountedLoop
  | .guarded _ body => body.loops
  | .counted count body => ⟨count, body⟩ :: loopsOfAll body
  | .forever body => loopsOfAll body
  | _ => []

def loopsOfAll : List Operation → List CountedLoop
  | [] => []
  | op :: ops => op.loops ++ loopsOfAll ops

end

theorem collects_loops : Collects loops loopsOfAll :=
  ⟨fun _ _ => List.Subset.refl _, fun _ _ => List.subset_cons_self _ _, fun _ => List.Subset.refl _, fun _ _ => rfl⟩

@[simp] theorem loopsOfAll_append (as bs : List Operation) : loopsOfAll (as ++ bs) = loopsOfAll as ++ loopsOfAll bs :=
  collects_loops.append rfl as bs

mutual

/-- Without the need of a counter there is no loop. -/
theorem loops_eq_nil : (op : Operation) → .counter ∉ op.obligations → op.loops = []
  | .guarded _ body, h => loops_eq_nil body h
  | .counted _ _, h => absurd List.mem_cons_self h
  | .forever body, h => loopsOfAll_eq_nil body h
  | .header _ _ _, _ | .define _ _, _ | .declare _, _ | .statement _ _, _ | .write _ _ _ _, _ | .call _ _ _, _
  | .installVector _ _ _, _ | .waitUntil _ _, _ | .await _, _ | .check _ _, _ | .comment _, _ | .blank, _ | .verbatim _, _ => rfl

theorem loopsOfAll_eq_nil : (ops : List Operation) → .counter ∉ obligationsOfAll ops → loopsOfAll ops = []
  | [], _ => rfl
  | op :: ops, h => by
      obtain ⟨hop, hops⟩ := not_or.1 (mt List.mem_append.2 h)
      rw [loopsOfAll, loops_eq_nil op hop, loopsOfAll_eq_nil ops hops, List.append_nil]

end

theorem obligations_of_isQuiet : (op : Operation) → op.isQuiet = true → .counter ∉ op.obligations
  | .guarded _ body, h => obligations_of_isQuiet body h
  | .header _ _ _, _ | .define _ _, _ | .declare _, _ | .statement _ _, _ | .write _ _ _ _, _ | .call _ _ _, _
  | .installVector _ _ _, _ | .waitUntil _ _, _ | .comment _, _ | .blank, _ | .verbatim _, _ => List.not_mem_nil
  | .check _ _, _ => by simp [obligations]

theorem loopsOfAll_of_isQuiet {ops : List Operation} (h : ops.all isQuiet = true) : loopsOfAll ops = [] := by
  induction ops with
  | nil => rfl
  | cons op ops ih =>
    obtain ⟨hop, hops⟩ : op.isQuiet = true ∧ ops.all isQuiet = true := by simpa using h
    rw [loopsOfAll, loops_eq_nil op (obligations_of_isQuiet op hop), ih hops, List.append_nil]

end Operation

namespace Plan

variable (p : Plan)

open Operation AccelFirmware.Action EmitStep

theorem loops_pushed {actions : List Action} (h : .counter ∉ gather EmitStep.obligations actions) :
    loopsOfAll (gather (pushed .main) actions) = [] :=
  loopsOfAll_eq_nil _ fun hm => h (obligations_pushed .main actions hm)

/-! ## Loops of `main` -/

/-- The loops that load for the power monitor. -/
def loadingLoops : List CountedLoop :=
  if p.config.measureEnergy then
    [⟨energyLoops, [loadWeights]⟩, ⟨energyLoops, [callProvided "load_input" [] (some "Load data input")]⟩]
  else []

def measuringLoops : List CountedLoop :=
  if p.config.measureEnergy then [⟨energyLoops, p.loadAndStart "Run inference" ++ [.await p.completionWait]⟩] else []

def repeatingLoops : List CountedLoop :=
  if p.config.oneshot > 0 then [⟨p.config.oneshot, [callEmitted "cnn_continue", .await p.completionWait]⟩] else []

theorem loops_configure : loopsOfAll (gather (pushed .main) p.configure) = p.loadingLoops := by
  have hswitch : loopsOfAll p.switchToPll = [] := by
    simp only [switchToPll]
    split
    · exact loopsOfAll_eq_nil _ (by simp [obligations_selectClock])
    · rfl
  have hkernels : loopsOfAll p.loadKernels = p.loadingLoops := by
    simp only [loadKernels, measureLoading, loadingLoops]
    cases p.config.measureEnergy with
    | true =>
      rw [if_pos rfl, loopsOfAll_append, hswitch]
      rfl
    | false => cases p.config.loadKernels <;> rfl
  have hhead : loopsOfAll
      (if p.embedded then [.statement "printf(\"\\n*** CNN Inference Test ***\\n\");", .blank] else []) = [] := by
    split <;> rfl
  have hbias : p.loadBias.loops = [] := by
    simp only [loadBias]
    (repeat' split) <;> rfl
  simp only [configure, fatalCheck]
  cases p.config.verifyKernels <;> simp [pushed, hhead, hkernels, hbias, loopsOfAll, loops, callProvided]

theorem loops_firstRun : loopsOfAll (gather (pushed .main) p.firstRun) = p.measuringLoops := by
  have hstop : loopsOfAll p.stopAndContinue = [] := by
    simp only [stopAndContinue]
    split <;> rfl
  have hload (note : String) : loopsOfAll (p.loadAndStart note) = [] :=
    loopsOfAll_eq_nil _ (by simp [obligations_loadAndStart])
  simp only [firstRun, measureRuns, measuringLoops]
  cases p.config.measureEnergy <;> simp [pushed, hstop, hload, loopsOfAll, loops, callProvided]

theorem loops_furtherRuns : loopsOfAll (gather (pushed .main) p.furtherRuns) = p.repeatingLoops := by
  simp only [furtherRuns, repeatingLoops]
  split <;> simp [pushed, loopsOfAll, loops, callEmitted]

theorem loops_inside (ho : p.owns = true) :
    loopsOfAll (gather (pushed .main) p.inside) = p.loadingLoops ++ p.measuringLoops ++ p.repeatingLoops := by
  have hlead : loopsOfAll p.leadOps = [] := by
    simp [leadOps, loopsOfAll_of_isQuiet, quiet_locals, quiet_coreOperations, quiet_camera]
  have hbringUp := loopsOfAll_of_isQuiet p.quiet_acceleratorBringUp
  have hretrieve : loopsOfAll (gather (pushed .main) p.retrieve) = [] := by
    refine loops_pushed ?_
    rw [obligations_retrieve]
    (repeat' split) <;> decide
  have hending : loopsOfAll (gather (pushed .main) p.ending) = [] := by
    refine loops_pushed ?_
    rw [obligations_ending, waitObligations_eq]
    (repeat' split) <;> decide
  rw [inside_eq ho]
  simp only [runOps, loopsOfAll_append, hlead, hbringUp, loops_configure, loops_firstRun, loops_furtherRuns,
    loopsOfAll_of_isQuiet p.quiet_leavePll, loopsOfAll_of_isQuiet p.quiet_boostOff, hretrieve, hending,
    loopsOfAll_of_isQuiet p.quiet_epilogue, List.nil_append, List.append_nil]

/-- A main program that hands the accelerator over has no loops. -/
theorem loops_inside_of_host (ho : p.owns = false) : loopsOfAll (gather (pushed .main) p.inside) = [] := by
  refine loops_pushed ?_
  rw [obligations_inside, acceleratorPhases, ho]
  exact List.not_mem_nil

/-- A loop of `main` is one for the power monitor, with a fixed count, or that of the further runs. Its body leaves the counter
alone. -/
theorem loop_cases (ho : p.owns = true) {loop : CountedLoop} (h : loop ∈ loopsOfAll (gather (pushed .main) p.inside)) :
    loop.body.all keepsCounter = true ∧
      (p.config.measureEnergy = true ∧ loop.count = energyLoops ∨
        p.config.oneshot > 0 ∧ loop.count = p.config.oneshot) := by
  have hruns : (p.loadAndStart "Run inference" ++ [Operation.await p.completionWait]).all keepsCounter = true := by
    simp only [loadAndStart]
    split <;> rfl
  simp only [p.loops_inside ho, loadingLoops, measuringLoops, repeatingLoops, List.mem_append, List.mem_ite_nil_right,
    List.mem_cons, List.not_mem_nil, or_false] at h
  rcases h with (⟨hm, rfl | rfl⟩ | ⟨hm, rfl⟩) | ⟨hn, rfl⟩
  · exact ⟨rfl, Or.inl ⟨hm, rfl⟩⟩
  · exact ⟨rfl, Or.inl ⟨hm, rfl⟩⟩
  · exact ⟨hruns, Or.inl ⟨hm, rfl⟩⟩
  · exact ⟨rfl, Or.inr ⟨hn, rfl⟩⟩

/-- Where there is a loop, its counter is declared as a signed word. -/
theorem declares_counter (ho : p.owns = true) {loop : CountedLoop} (h : loop ∈ loopsOfAll (gather (pushed .main) p.inside)) :
    .declare "int i;" ∈ gather (pushed .main) p.inside := by
  have hvariable : .declare "int i;" ∈ p.localVariables := by
    rcases (p.loop_cases ho h).2 with ⟨hn, -⟩ | ⟨hn, -⟩ <;> simp [localVariables, ho, hn]
  have hlocals : .declare "int i;" ∈ gather (pushed .main) p.locals := by
    have hsome : p.localVariables.isEmpty = false := by
      simpa using List.ne_nil_of_mem hvariable
    simp [locals, hsome, pushed, hvariable]
  simp [inside, hlocals]

theorem repeats_inside (ho : p.owns = true) (hn : p.config.oneshot > 0) :
    .counted p.config.oneshot [callEmitted "cnn_continue", .await p.completionWait] ∈ gather (pushed .main) p.inside := by
  rw [inside_eq ho]
  simp [runOps, furtherRuns, hn, pushed]

end Plan

namespace Synthesis

open Operation

variable {c : Configuration} {d : Device} {i : Inputs} {s : Synthesis}

/-- The loops of `main` all end after as many rounds as their counts say, if and only if the number of further runs is a value of
the counter. Any number of them is accepted, and beyond the values of the counter their loop does not end. -/
theorem main_loops_iff (h : run c d i = .ok s) (taken : String → Bool) :
    ((∀ loop ∈ loopsOfAll (EmittedFunction.bodyOf "main" s.plan.functions), ∀ n,
        loop.EndsAfter taken n ↔ n = loop.count.toNat) ↔
          (c.topology.ownsAccelerator = true → c.oneshot.toNat < 2 ^ 31)) ∧
      (∀ loop ∈ loopsOfAll (EmittedFunction.bodyOf "main" s.plan.functions),
        .declare "int i;" ∈ EmittedFunction.bodyOf "main" s.plan.functions ∧
          ∀ n, loop.EndsAfter taken n ↔ n = loop.count.toNat ∧ loop.count.toNat < 2 ^ 31) ∧
      (c.topology.ownsAccelerator = true → 0 < c.oneshot →
        .counted c.oneshot [callEmitted "cnn_continue", .await s.plan.completionWait] ∈
          EmittedFunction.bodyOf "main" s.plan.functions) := by
  obtain ⟨hcoherent, rfl, rfl, -⟩ := run_ok h
  rw [hcoherent.main_body]
  cases ho : s.plan.owns with
  | false =>
    have hhost : s.plan.config.topology.ownsAccelerator = false := ho
    simp [s.plan.loops_inside_of_host ho, hhost]
  | true =>
    have howns : s.plan.config.topology.ownsAccelerator = true := ho
    have hends : ∀ loop ∈ loopsOfAll (Action.gather (EmitStep.pushed .main) s.plan.inside), ∀ n,
        loop.EndsAfter taken n ↔ n = loop.count.toNat ∧ loop.count.toNat < 2 ^ 31 := fun loop hloop =>
      loop.endsAfter_iff (s.plan.loop_cases ho hloop).1
    refine ⟨⟨fun hall _ => ?_, fun hlimit loop hloop n => ?_⟩, fun loop hloop => ⟨?_, hends loop hloop⟩,
      fun _ => s.plan.repeats_inside ho⟩
    · by_cases hn : s.plan.config.oneshot > 0
      · -- The loop of the further runs ends, so its count is in range.
        have hloop := collects_loops.subset (s.plan.repeats_inside ho hn) List.mem_cons_self
        exact ((hends _ hloop _).1 ((hall _ hloop _).2 rfl)).2
      · have hzero : s.plan.config.oneshot.toNat = 0 := by
          simpa [UInt32.lt_iff_toNat_lt] using hn
        omega
    · have hcount : loop.count.toNat < 2 ^ 31 := by
        rcases (s.plan.loop_cases ho hloop).2 with ⟨-, hcount⟩ | ⟨-, hcount⟩
        · rw [hcount]
          decide
        · rw [hcount]
          exact hlimit howns
      rw [hends loop hloop n, and_iff_left hcount]
    · exact s.plan.declares_counter ho hloop

/-- More further runs than a signed word can count. -/
def manyRunsSettings : Settings :=
  { Settings.initial with target := .embedded, oneshot := 0x80000000, groups := .ofList [0], master := some 0 }

def manyRunsConfiguration : Configuration := ⟨manyRunsSettings, by decide⟩

theorem main_loops_overflow : ∃ s, run manyRunsConfiguration .ai85 .empty = .ok s ∧
    .counted 0x80000000 [callEmitted "cnn_continue", .await s.plan.completionWait] ∈
      EmittedFunction.bodyOf "main" s.plan.functions ∧
    ∀ taken n, ¬ CountedLoop.EndsAfter taken ⟨0x80000000, [callEmitted "cnn_continue", .await s.plan.completionWait]⟩ n := by
  obtain ⟨s, hs⟩ := exists_run (c := manyRunsConfiguration) (d := .ai85) (i := .empty) (by decide)
  have hrepeats := (main_loops_iff hs fun _ => true).2.2 rfl (by decide)
  refine ⟨s, hs, hrepeats, fun taken n hends => ?_⟩
  have hloop := collects_loops.subset hrepeats List.mem_cons_self
  have hlimit : (0x80000000 : UInt32).toNat < 2 ^ 31 := ((((main_loops_iff hs taken).2.1 _ hloop).2 n).1 hends).2
  exact absurd hlimit (by decide)

end Synthesis

end AccelFirmware
