import AccelFirmware.Proofs.Reports

/-!
# Agreement of the two layouts

`main` in the split layout, with the functions of the layout inlined, does what `main` does in the combined layout. The two
are the same step by step, except where the boost circuit is switched off: the split layout configures the pin anew, the
combined layout clears the pin that `gpio_out` still holds.
-/

namespace AccelFirmware

namespace Plan

open Operation AccelFirmware.Action EmitStep

/-! ## Phases in which the layouts agree -/

section

variable {p q : Plan} (taken : String → Bool)

def boostSteps (p : Plan) : List Operation :=
  match p.config.boost with
  | none => []
  | some b => drivePin b.portName b.pinName .high

theorem trace_drivePin (port pin : String) (level : Level) :
    trace taken (drivePin port pin level) = .ofList (drivePin port pin level) := by
  cases level <;> rfl

theorem trace_boostOn (h : SplitOf p q) (hq : q.Coherent) :
    trace taken (gather (pushed .main) p.boostOn) = .ofList p.boostSteps ∧
      inlinedTrace taken q.functions (gather (pushed .main) q.boostOn) = .ofList p.boostSteps := by
  simp only [boostOn, boostSteps, h.isSplit.1, h.isSplit.2, h.boost_eq]
  cases p.config.boost with
  | none => exact ⟨rfl, rfl⟩
  | some b =>
    constructor
    · rfl
    · have hcall := (trace_boost taken h hq b.portName b.pinName (some "Turn on the boost circuit")).1
      rw [trace_drivePin] at hcall
      exact hcall

theorem trace_bringUp (h : SplitOf p q) (hq : q.Coherent) :
    trace taken (gather (pushed .main) p.acceleratorBringUp) =
        (trace taken p.enableBody).andThen (.ofList p.boostSteps) ∧
      inlinedTrace taken q.functions (gather (pushed .main) q.acceleratorBringUp) =
        (trace taken p.enableBody).andThen (.ofList p.boostSteps) := by
  obtain ⟨hboost, hboost'⟩ := trace_boostOn taken h hq
  have hblank : trace taken [.blank] = .ofList [] := rfl
  have hblank' : inlinedTrace taken q.functions [.blank] = .ofList [] := rfl
  constructor
  · simp [acceleratorBringUp, h.sdkRuntime.1, h.measureEnergy.1, h.isSplit.1, pushed, trace_append, hboost, hblank]
  · simp [acceleratorBringUp, h.sdkRuntime.2, h.measureEnergy.2, h.isSplit.2, pushed, inlinedTrace_append, hboost',
      hblank', trace_enable taken h hq]

theorem trace_shutdown (h : SplitOf p q) (hq : q.Coherent) :
    inlinedTrace taken q.functions (gather (pushed .main) q.acceleratorShutdown) =
      trace taken (gather (pushed .main) p.acceleratorShutdown) := by
  have hcalls : inlinedTrace taken q.functions
      [callEmitted "cnn_disable" [] (some "Shut down CNN clock, disable peripheral"), .blank] =
      trace taken p.shutdown := by
    rw [← trace_disable taken h hq (some "Shut down CNN clock, disable peripheral")]
    exact inlinedTrace_blank taken _ [_]
  simp [acceleratorShutdown, disableFunction, h.isSplit.1, h.isSplit.2, pushed, hcalls]

theorem trace_ending (h : SplitOf p q) (hq : q.Coherent) :
    inlinedTrace taken q.functions (gather (pushed .main) q.ending) =
      trace taken (gather (pushed .main) p.ending) := by
  have hprint : Independent (gather (pushed .main) (if p.printsClasses then [.push .main p.classPrintout] else [])) := by
    split
    · exact independent_of_references p.references_classPrintout
    · exact independent_nil
  obtain ⟨hloop, hprints⟩ : q.endlessLoop = p.endlessLoop ∧
      (if q.printsClasses then [Action.push .main q.classPrintout] else []) =
        if p.printsClasses then [Action.push .main p.classPrintout] else [] := by
    cases h
    exact ⟨rfl, rfl⟩
  simp only [ending, h.forever_eq, hloop, hprints]
  cases p.config.forever with
  | true =>
    have hloops := inlinedTrace_of_references taken q.functions p.independent_endlessLoop
    simp [disableFunction, h.isSplit.1, h.isSplit.2, pushed, hloops]
  | false =>
    have hadvance : gather (pushed .main) [advance .tornDown] = [] := rfl
    simp only [Bool.false_eq_true, if_false, gather_append, hadvance, List.append_nil, inlinedTrace_append, trace_append]
    rw [trace_shutdown taken h hq, inlinedTrace_of_references taken _ hprint]

/-- The circuit is switched off through the variable that it was switched on through, or through the pin. -/
theorem trace_boostOff (h : SplitOf p q) (hq : q.Coherent) :
    inlinedTrace taken q.functions (gather (pushed .main) q.boostOff) = trace taken (gather (pushed .main) p.boostOff) ∨
    ∃ b : BoostPin, p.boostSteps = drivePin b.portName b.pinName .high ∧
      inlinedTrace taken q.functions (gather (pushed .main) q.boostOff) =
        .ofList (drivePin b.portName b.pinName .low) ∧
      trace taken (gather (pushed .main) p.boostOff) =
        .ofList [callProvided Level.low.driver ["gpio_out.port", "gpio_out.mask"]] := by
  simp only [boostOff, boostSteps, h.isSplit.1, h.isSplit.2, h.boost_eq, h.forever_eq]
  cases p.config.forever with
  | true => exact Or.inl rfl
  | false =>
    cases p.config.boost with
    | none => exact Or.inl rfl
    | some b =>
      refine Or.inr ⟨b, rfl, ?_, rfl⟩
      have hcall := (trace_boost taken h hq b.portName b.pinName (some "Turn off the boost circuit")).2
      rw [trace_drivePin, ← inlinedTrace_blank] at hcall
      exact hcall

end

/-! ## Pins that stay configured -/

/-- An execution that, if it ends, leaves a configured pin in `gpio_out`. -/
def Settles (setup : PinSetup) (x : Execution Operation) : Prop :=
  x.endless = none → ∀ st, (PinState.run st x.once).1 = ⟨setup, some setup⟩

section

variable {setup : PinSetup} {x y : Execution Operation}

theorem Settles.after (hy : Settles setup y) (x : Execution Operation) : Settles setup (x.andThen y) := by
  intro he st
  cases hx : x.endless with
  | some _ =>
    rw [Execution.andThen_of_endless (by simp [hx]), hx] at he
    cases he
  | none =>
    rw [Execution.andThen_of_ends hx] at he ⊢
    rw [PinState.run_append]
    exact hy he _

theorem Settles.andThen (hx : Settles setup x) (hy : y.All (PinState.spares · = true)) : Settles setup (x.andThen y) := by
  intro he st
  cases hx' : x.endless with
  | some _ =>
    rw [Execution.andThen_of_endless (by simp [hx']), hx'] at he
    cases he
  | none =>
    rw [Execution.andThen_of_ends hx', PinState.run_append, PinState.run_of_spares hy.1]
    exact hx hx' st

theorem settles_drivePin (port mask : String) (level : Level) :
    Settles (.output port mask) (.ofList (drivePin port mask level)) := by
  intro _ st
  rw [Execution.ofList, PinState.run_drivePin]

/-- To configure the pin anew and drive it has the effect of driving the pin in `gpio_out`. -/
theorem Settles.same_effects {port mask : String} (hx : Settles (.output port mask) x) (level : Level)
    (y : Execution Operation) (rounds : Nat) :
    (PinState.fresh.run
      ((x.andThen ((Execution.ofList (drivePin port mask level)).andThen y)).laps rounds)).2 =
    (PinState.fresh.run ((x.andThen ((Execution.ofList
      [callProvided level.driver ["gpio_out.port", "gpio_out.mask"]]).andThen y)).laps rounds)).2 := by
  cases hx' : x.endless with
  | some _ =>
    rw [Execution.andThen_of_endless (by simp [hx']), Execution.andThen_of_endless (by simp [hx'])]
  | none =>
    have hlaps (ops : List Operation) : (x.andThen ((Execution.ofList ops).andThen y)).laps rounds =
        x.once ++ (ops ++ y.laps rounds) := by
      have hops : (Execution.ofList ops).andThen y = ⟨ops ++ y.once, y.endless⟩ := rfl
      simp [Execution.andThen_of_ends hx', hops, Execution.laps]
    have hrun (ops : List Operation) : (PinState.fresh.run (x.once ++ ops)).2 = (PinState.fresh.run x.once).2 ++
        ((⟨.output port mask, some (.output port mask)⟩ : PinState).run ops).2 := by
      rw [PinState.run_append, hx hx']
    rw [hlaps, hlaps, hrun, hrun, List.singleton_append, PinState.run_driver, PinState.run_append, PinState.run_drivePin]
    rfl

end

/-! ## The two bodies of `main` -/

section

variable {p q : Plan} (taken : String → Bool)

theorem trace_runs (h : SplitOf p q) (hq : q.Coherent) :
    inlinedTrace taken q.functions (q.leadOps ++ gather (pushed .main) q.acceleratorBringUp ++ q.runOps) =
      trace taken (p.leadOps ++ gather (pushed .main) p.acceleratorBringUp ++ p.runOps) := by
  obtain ⟨hlead, hruns, _, _⟩ := h.phases_eq
  obtain ⟨hup, hup'⟩ := trace_bringUp taken h hq
  rw [hlead, hruns]
  simp only [inlinedTrace_append, trace_append, hup, hup']
  rw [inlinedTrace_of_references taken _ p.independent_leadOps, inlinedTrace_of_references taken _ p.independent_runOps]

theorem trace_results (h : SplitOf p q) (hq : q.Coherent) :
    inlinedTrace taken q.functions (gather (pushed .main) q.retrieve ++ gather (pushed .main) q.ending ++ q.epilogue) =
      trace taken (gather (pushed .main) p.retrieve ++ gather (pushed .main) p.ending ++ p.epilogue) := by
  obtain ⟨_, _, hretrieve, hepilogue⟩ := h.phases_eq
  rw [hretrieve, hepilogue]
  simp only [inlinedTrace_append, trace_append, trace_ending taken h hq]
  rw [inlinedTrace_of_references taken _ p.independent_retrieve,
    inlinedTrace_of_references taken _ p.independent_epilogue]

/-- The runs leave the pin of the boost circuit in `gpio_out`. -/
theorem settles_runs (h : SplitOf p q) (hq : q.Coherent) {port mask : String}
    (hboost : p.boostSteps = drivePin port mask .high) :
    Settles (.output port mask)
      (trace taken (p.leadOps ++ gather (pushed .main) p.acceleratorBringUp ++ p.runOps)) := by
  have hspares : (trace taken p.runOps).All (PinState.spares · = true) :=
    (executionOfAll_all taken p.runOps p.spares_runOps).filterMap fun _ hop _ he => essential?_eq he ▸ hop
  rw [trace_append, trace_append, (trace_bringUp taken h hq).1, hboost]
  exact (((settles_drivePin port mask .high).after _).after _).andThen hspares

/-- Both layouts are the same up to the boost circuit, and after it. -/
theorem trace_inside (h : SplitOf p q) (hq : q.Coherent) : ∃ runs results : Execution Operation,
    (∀ port mask, p.boostSteps = drivePin port mask .high → Settles (.output port mask) runs) ∧
    trace taken (gather (pushed .main) p.inside) =
      runs.andThen ((trace taken (gather (pushed .main) p.boostOff)).andThen results) ∧
    inlinedTrace taken q.functions (gather (pushed .main) q.inside) =
      runs.andThen ((inlinedTrace taken q.functions (gather (pushed .main) q.boostOff)).andThen results) := by
  have hinside {r : Plan} (ho : r.owns = true) : gather (pushed .main) r.inside =
      (r.leadOps ++ gather (pushed .main) r.acceleratorBringUp ++ r.runOps) ++ (gather (pushed .main) r.boostOff ++
        (gather (pushed .main) r.retrieve ++ gather (pushed .main) r.ending ++ r.epilogue)) := by
    rw [inside_eq ho]
    simp only [List.append_assoc]
  refine ⟨trace taken (p.leadOps ++ gather (pushed .main) p.acceleratorBringUp ++ p.runOps),
    trace taken (gather (pushed .main) p.retrieve ++ gather (pushed .main) p.ending ++ p.epilogue), ?_, ?_, ?_⟩
  · intro port mask hboost
    exact settles_runs taken h hq hboost
  · rw [hinside h.owns.1, trace_append, trace_append taken (gather (pushed .main) p.boostOff)]
  · rw [hinside h.owns.2, inlinedTrace_append, inlinedTrace_append taken q.functions (gather (pushed .main) q.boostOff),
      trace_runs taken h hq, trace_results taken h hq]

theorem effects_inside (h : SplitOf p q) (hq : q.Coherent) (rounds : Nat) :
    (PinState.fresh.run ((inlinedTrace taken q.functions (gather (pushed .main) q.inside)).laps rounds)).2 =
      (PinState.fresh.run ((trace taken (gather (pushed .main) p.inside)).laps rounds)).2 := by
  obtain ⟨runs, results, hsettles, hp, hq'⟩ := trace_inside taken h hq
  rw [hp, hq']
  rcases trace_boostOff taken h hq with hoff | ⟨b, hboost, hoff', hoff⟩
  · rw [hoff]
  · rw [hoff', hoff]
    exact (hsettles _ _ hboost).same_effects .low _ rounds

/-- One layout enters an endless loop if and only if the other does. -/
theorem endless_inside (h : SplitOf p q) (hq : q.Coherent) :
    (inlinedTrace taken q.functions (gather (pushed .main) q.inside)).endless =
      (trace taken (gather (pushed .main) p.inside)).endless := by
  obtain ⟨runs, results, _, hp, hq'⟩ := trace_inside taken h hq
  have hloop (ops : List Operation) :
      (runs.andThen ((Execution.ofList ops).andThen results)).endless = (runs.andThen results).endless := by
    cases hx : runs.endless with
    | none =>
      rw [Execution.andThen_of_ends hx, Execution.andThen_of_ends hx]
      rfl
    | some _ => rw [Execution.andThen_of_endless (by simp [hx]), Execution.andThen_of_endless (by simp [hx])]
  rw [hp, hq']
  rcases trace_boostOff taken h hq with hoff | ⟨b, _, hoff', hoff⟩
  · rw [hoff]
  · rw [hoff', hoff, hloop, hloop]

end

end Plan

/-! ## The same program -/

namespace Synthesis

variable {c c' : Configuration} {d : Device} {i : Inputs} {s s' : Synthesis}

open Operation EmittedFunction

/-- Split and combined layouts are the same program: after any number of rounds of the endless loop, if there is one, `main`
has had the same effects. -/
theorem main_layouts_agree (h : run c d i = .ok s) (h' : run c' d i = .ok s') (hl : c.layout = .combined)
    (hl' : c'.toSettings = { c.toSettings with layout := .splitApi }) (taken : String → Bool) :
    let combined := trace taken (bodyOf "main" s.plan.functions)
    let split := inlinedTrace taken s'.plan.functions (bodyOf "main" s'.plan.functions)
    s.WritesFunctions ∧ s'.WritesFunctions ∧ split.endless = combined.endless ∧
      ∀ rounds, (PinState.fresh.run (split.laps rounds)).2 = (PinState.fresh.run (combined.laps rounds)).2 := by
  obtain ⟨hp, hc, hd, hv⟩ := run_ok h
  obtain ⟨hq, hc', hd', hv'⟩ := run_ok h'
  have hsplit : s.plan.SplitOf s'.plan :=
    .of_coherent hp hq (hd'.trans hd.symm) (hv'.trans hv.symm) (by rw [hc, hl]) (by rw [hc', hl', hc])
  rw [hp.main_body, hq.main_body]
  exact ⟨writes_functions h, writes_functions h', Plan.endless_inside taken hsplit hq, Plan.effects_inside taken hsplit hq⟩

/-- With the PLL and a boost circuit. -/
theorem main_layouts_agree_sample : ∃ s s', run .sample .ai87 .empty = .ok s ∧ run .splitSample .ai87 .empty = .ok s' ∧
    s.WritesFunctions ∧ s'.WritesFunctions ∧ ∀ rounds,
      (PinState.fresh.run ((inlinedTrace (fun _ => true) s'.plan.functions (bodyOf "main" s'.plan.functions)).laps rounds)).2 =
      (PinState.fresh.run ((trace (fun _ => true) (bodyOf "main" s.plan.functions)).laps rounds)).2 := by
  obtain ⟨s, hs⟩ := exists_run (c := .sample) (d := .ai87) (i := .empty) (by decide)
  obtain ⟨s', hs'⟩ := exists_run (c := .splitSample) (d := .ai87) (i := .empty) (by decide)
  obtain ⟨hcombined, hsplit, -, heffects⟩ := main_layouts_agree hs hs' rfl rfl (fun _ => true)
  exact ⟨s, s', hs, hs', hcombined, hsplit, heffects⟩

end Synthesis

end AccelFirmware
