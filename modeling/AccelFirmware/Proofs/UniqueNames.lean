import AccelFirmware.Proofs.Histories
import Mathlib.Data.List.Nodup

/-!
# Names of functions

A name that has been closed is refused from then on, so no sink defines a function twice. A name that is open on one sink can
still be opened on another: two sinks define functions of one name exactly when both were open at once.
-/

namespace AccelFirmware

/-- A function of this name is open on a sink at the end of a history. -/
def LeavesOpenName (log : List EmitStep) (sink : Sink) (name : String) : Prop :=
  ∃ signature, signature.name = name ∧ LeavesOpen log sink signature

variable {log : List EmitStep} {s t : Sink} {signature : Signature} {name : String}

namespace Emitter

variable {e e' : Emitter}

/-! ## One sink -/

/-- No sink has defined a function twice, or is about to. -/
structure Distinct (e : Emitter) : Prop where
  nodup : e.defined.Nodup
  new : ∀ sink signature, (e.streams.get sink).unit = some signature → ⟨sink, signature.name⟩ ∉ e.defined

theorem distinct_empty : empty.Distinct := ⟨List.nodup_nil, fun _ _ _ => List.not_mem_nil⟩

theorem distinct_openUnit (he : e.Distinct) (h : e.openUnit s signature = .ok e') : e'.Distinct := by
  obtain ⟨-, hnew, hdefined, -, hunit⟩ := openUnit_eq_ok h
  rw [defines_eq_false_iff] at hnew
  refine ⟨hdefined ▸ he.nodup, fun sink opened hopen => ?_⟩
  rw [hdefined]
  rw [hunit] at hopen
  split at hopen
  · cases hopen
    exact fun hmem => hnew (List.mem_map.2 ⟨_, hmem, rfl⟩)
  · exact he.new sink opened hopen

theorem distinct_closeUnit {result : Option String} (he : e.Distinct) (h : e.closeUnit s result = .ok e') : e'.Distinct := by
  obtain ⟨closed, hsome, hdefined, -, hunit⟩ := closeUnit_eq_ok h
  refine ⟨?_, fun sink opened hopen => ?_⟩
  · rw [hdefined]
    exact List.nodup_append.2 ⟨he.nodup, List.nodup_singleton _, fun a ha b hb hab =>
      he.new s closed hsome (List.mem_singleton.1 hb ▸ hab ▸ ha)⟩
  · rw [hunit] at hopen
    rw [hdefined, List.mem_append, List.mem_singleton, not_or]
    split at hopen
    · cases hopen
    · rename_i hsink
      exact ⟨he.new sink opened hopen, fun heq => hsink (Definition.mk.inj heq).1⟩

theorem distinct_step {step : EmitStep} (he : e.Distinct) (hs : step.isSingle = true) (h : e.step step = .ok e') :
    e'.Distinct := by
  cases step with
  | openUnit _ _ => exact distinct_openUnit he h
  | closeUnit _ _ => exact distinct_closeUnit he h
  | function _ _ _ _ => cases hs
  | push _ _ =>
    cases h
    exact ⟨he.nodup, fun sink opened hopen => he.new sink opened (by rwa [unit_push] at hopen)⟩
  | raw _ _ =>
    cases h
    exact ⟨he.nodup, fun sink opened hopen => he.new sink opened (by rwa [unit_raw] at hopen)⟩

theorem distinct_run (hs : ∀ step ∈ log, step.isSingle = true) (h : empty.run log = .ok e) : e.Distinct := by
  refine run_induction ?_ ?_ hs h
  · exact distinct_empty
  · intro log e step e' _ _ hsingle hstep he
    exact distinct_step he hsingle hstep

/-! ## Two sinks -/

/-- Two functions of a name are open at once in the course of a history, and both are closed. -/
def Overlap (log : List EmitStep) (s t : Sink) (name : String) : Prop :=
  ∃ before after, log = before ++ after ∧ LeavesOpenName before s name ∧ LeavesOpenName before t name ∧
    (∃ result, .closeUnit s result ∈ after) ∧ ∃ result, .closeUnit t result ∈ after

/-- A name that has been closed while a function of this name is open was open together with it. -/
theorem open_together (hs : ∀ step ∈ log, step.isSingle = true) (h : empty.run log = .ok e) :
    LeavesOpen log t signature → ClosesName log s signature.name →
      ∃ before after, log = before ++ after ∧ LeavesOpenName before s signature.name ∧
        LeavesOpenName before t signature.name ∧ ∃ result, .closeUnit s result ∈ after := by
  refine run_induction ?_ ?_ hs h
  · rintro ⟨before, after, hlog, -⟩
    cases before <;> cases hlog
  · intro log e step e' hlog hrun _ hstep ih hopen hcloses
    rcases leavesOpen_append_singleton.1 hopen with rfl | ⟨hstill, -⟩
    · -- The name was new when it was opened last.
      have hnew := (openUnit_eq_ok hstep).2.1
      rcases closesName_append_singleton.1 hcloses with hcloses | ⟨_, _, _, _, hclose⟩
      · rw [((holds_run hlog hrun).defines_iff signature.name).2 ⟨s, hcloses⟩] at hnew
        cases hnew
      · cases hclose
    · rcases closesName_append_singleton.1 hcloses with hcloses | ⟨closed, result, hname, hclosed, rfl⟩
      · obtain ⟨before, after, rfl, hfirst, hsecond, result, hmem⟩ := ih hstill hcloses
        exact ⟨before, after ++ [step], by simp, hfirst, hsecond, result, List.mem_append_left _ hmem⟩
      · exact ⟨log, [.closeUnit s result], rfl, ⟨closed, hname, hclosed⟩, ⟨signature, rfl, hstill⟩, result,
          List.mem_singleton_self _⟩

theorem overlap_of_closesName (hne : s ≠ t) (hs : ∀ step ∈ log, step.isSingle = true) (h : empty.run log = .ok e) :
    ClosesName log s name → ClosesName log t name → Overlap log s t name := by
  refine run_induction ?_ ?_ hs h
  · rintro ⟨_, _, _, before, _, _, hlog, -⟩
    cases before <;> cases hlog
  · intro log e step e' hlog hrun _ _ ih hfirst hsecond
    -- The one that is closed last is open while the other one has been closed.
    rcases closesName_append_singleton.1 hfirst with hearlier | ⟨closed, result, rfl, hopen, rfl⟩
    · rcases closesName_append_singleton.1 hsecond with hboth | ⟨closed, result, rfl, hopen, rfl⟩
      · obtain ⟨before, after, rfl, hs, ht, ⟨rs, hrs⟩, rt, hrt⟩ := ih hearlier hboth
        exact ⟨before, after ++ [step], by simp, hs, ht, ⟨rs, List.mem_append_left _ hrs⟩, rt, List.mem_append_left _ hrt⟩
      · obtain ⟨before, after, rfl, hs, ht, rs, hrs⟩ := open_together hlog hrun hopen hearlier
        exact ⟨before, after ++ [.closeUnit t result], by simp, hs, ht, ⟨rs, List.mem_append_left _ hrs⟩, result, by simp⟩
    · rcases closesName_append_singleton.1 hsecond with hearlier | ⟨_, _, _, _, hclose⟩
      · obtain ⟨before, after, rfl, ht, hs, rt, hrt⟩ := open_together hlog hrun hopen hearlier
        exact ⟨before, after ++ [.closeUnit s result], by simp, hs, ht, ⟨result, by simp⟩, rt, List.mem_append_left _ hrt⟩
      · exact absurd (EmitStep.closeUnit.inj hclose).1 hne

/-- What is open when a part of the history is over, and closed in the rest, is defined in the end. -/
theorem closesName_of_open {before after : List EmitStep} (hs : ∀ step ∈ before ++ after, step.isSingle = true)
    (h : empty.run (before ++ after) = .ok e) (hopen : LeavesOpenName before s name)
    (hbracket : ∃ step ∈ after, step.brackets s = true) : ClosesName (before ++ after) s name := by
  obtain ⟨opened, hname, hopened⟩ := hopen
  obtain ⟨inside, result, rest, rfl, hinside⟩ := closes_next hs h hopened hbracket
  obtain ⟨ahead, behind, rfl, hbehind⟩ := hopened
  exact ⟨opened, result, hname, ahead, behind ++ inside, rest, by simp, List.forall_mem_append.2 ⟨hbehind, hinside⟩⟩

theorem overlap_iff (hs : ∀ step ∈ log, step.isSingle = true) (h : empty.run log = .ok e) (hne : s ≠ t) :
    (ClosesName log s name ∧ ClosesName log t name) ↔ Overlap log s t name := by
  constructor
  · rintro ⟨hfirst, hsecond⟩
    exact overlap_of_closesName hne hs h hfirst hsecond
  · rintro ⟨before, after, rfl, hfirst, hsecond, ⟨rs, hrs⟩, rt, hrt⟩
    exact ⟨closesName_of_open hs h hfirst ⟨_, hrs, by simp [EmitStep.brackets]⟩,
      closesName_of_open hs h hsecond ⟨_, hrt, by simp [EmitStep.brackets]⟩⟩

theorem names_nodup_iff (he : e.Distinct) : (e.defined.map Definition.name).Nodup ↔
    ∀ s t name, ⟨s, name⟩ ∈ e.defined → ⟨t, name⟩ ∈ e.defined → s = t := by
  rw [List.nodup_map_iff_inj_on he.nodup]
  constructor
  · intro hinj s t name hs ht
    exact (Definition.mk.inj (hinj _ hs _ ht rfl)).1
  · rintro hsame ⟨s, name⟩ hs ⟨t, _⟩ ht rfl
    rw [hsame s t name hs ht]

/-- No sink defines a function twice. All names are different exactly when no two functions that are closed in the end have been
open at once under one name, and for a finished emitter when no two functions have. -/
theorem names_distinct_iff (steps : List EmitStep) :
    (empty.attempts steps).defined.Nodup ∧
    (((empty.attempts steps).defined.map Definition.name).Nodup ↔
      ∀ s t name, Overlap (history steps) s t name → s = t) ∧
    ∀ text, (empty.attempts steps).finish = .ok text → ((text.functions.map Definition.name).Nodup ↔
      ∀ before after s t name, history steps = before ++ after → LeavesOpenName before s name →
        LeavesOpenName before t name → s = t) := by
  have hsingle : ∀ step ∈ history steps, step.isSingle = true := fun _ => isSingle_history
  have hrun := run_history steps
  have hholds := holds_attempts steps
  have hdistinct := distinct_run hsingle hrun
  have hiff : ((empty.attempts steps).defined.map Definition.name).Nodup ↔
      ∀ s t name, Overlap (history steps) s t name → s = t := by
    rw [names_nodup_iff hdistinct]
    refine forall₃_congr fun s t name => ?_
    by_cases hne : s = t
    · simp [hne]
    · rw [hholds.defined, hholds.defined, ← and_imp, overlap_iff hsingle hrun hne]
  refine ⟨hdistinct.nodup, hiff, fun text htext => ?_⟩
  rw [functions_of_finish htext, hiff]
  constructor
  · -- In the end nothing is open, so whatever has been open has been closed.
    intro hoverlap before after s t name hlog hfirst hsecond
    have hcloses (sink : Sink) (hopen : LeavesOpenName before sink name) : ∃ result, .closeUnit sink result ∈ after := by
      obtain ⟨opened, -, hopened⟩ := hopen
      rw [hlog] at hsingle hrun hholds
      rcases open_or_closed hsingle hrun hopened with hleft | ⟨inside, result, rest, rfl, -⟩
      · have hend := (hholds.unit sink opened).2 hleft
        rw [closed_of_finish htext sink] at hend
        cases hend
      · exact ⟨result, by simp⟩
    exact hoverlap s t name ⟨before, after, hlog, hfirst, hsecond, hcloses s hfirst, hcloses t hsecond⟩
  · rintro hone s t name ⟨before, after, hlog, hfirst, hsecond, -, -⟩
    exact hone before after s t name hlog hfirst hsecond

/-- Two functions of one name, the second opened before the first is closed. -/
def interleaved : List EmitStep :=
  [.openUnit .main (.procedure "f"), .openUnit .api (.procedure "f"), .closeUnit .main none, .closeUnit .api none]

/-- Interleaved on two sinks, a function is defined twice and nothing is refused. -/
theorem names_distinct_interleaved : ∃ text, (empty.attempts interleaved).finish = .ok text ∧
    text.functions = [⟨.main, "f"⟩, ⟨.api, "f"⟩] ∧ ¬ (text.functions.map Definition.name).Nodup := by
  refine ⟨_, rfl, rfl, fun hnodup => ?_⟩
  have hone := ((names_distinct_iff interleaved).2.2 _ rfl).1 hnodup
    [.openUnit .main (.procedure "f"), .openUnit .api (.procedure "f")] [.closeUnit .main none, .closeUnit .api none]
    .main .api "f" rfl
    ⟨.procedure "f", rfl, [], [.openUnit .api (.procedure "f")], rfl, by simp [EmitStep.brackets]⟩
    ⟨.procedure "f", rfl, [.openUnit .main (.procedure "f")], [], rfl, by simp⟩
  cases hone

end Emitter

end AccelFirmware
