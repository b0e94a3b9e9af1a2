import AccelFirmware.Proofs.LineWording
import AccelFirmware.Proofs.RunWording
import AccelFirmware.Proofs.TwoCores

/-!
# Waits of a program

A program waits for the accelerator in one way wherever it waits: asleep or spinning on the stamp of its handler, or by a function
that polls. What belongs to the other ways is not there.
-/

namespace AccelFirmware

open Operation AccelFirmware.Action

/-! ## What is written -/

/-- Whether some text stands in a line of an operation. -/
def Operation.Writes (op : Operation) (text : String) : Prop :=
  ∃ depth, ∃ line ∈ op.lines depth, text.toList <:+: line.text.toList

/-- What is not said is not written. -/
theorem Operation.SaysOnly.not_writes {allowed : List Phrase} {op : Operation} (h : SaysOnly allowed [op]) {ph : Phrase}
    (hph : ph ∉ .opening :: .closing :: allowed) {text : String} (ht : ph.letters <:+: text.toList) : ¬ op.Writes text := by
  rintro ⟨depth, line, hline, hin⟩
  have hwording : ∀ text ∈ op.wording, Omits allowed text := fun text hm => h text (by simpa [wordingOfAll] using hm)
  exact omits_lines op hwording depth line hline ph hph (ht.trans hin)

namespace SleepInstruction

/-- The letters by which an instruction is known. -/
def mnemonic : SleepInstruction → String
  | .arm => "WFI"
  | .riscV => "wfi"

def phrase : SleepInstruction → Phrase
  | .arm => .armSleep
  | .riscV => .riscVSleep

theorem phrase_letters (i : SleepInstruction) : i.phrase.letters = i.mnemonic.toList := by
  cases i <;> decide +kernel

end SleepInstruction

/-! ## Ways to wait -/

def Site.wait? : Site → Option CompletionWait
  | .wait w => some w
  | _ => none

/-- How some operations wait for the accelerator, at any depth. -/
def awaits (ops : List Operation) : List CompletionWait := (sitesOfAll ops).filterMap Site.wait?

/-- The functions that a wait may rely on. -/
def completionFunctions : List String := ["cnn_wait", "CNN_ISR", "CNN_IRQHandler"]

namespace Plan

variable {p : Plan}

theorem Coherent.awaits_emitted (h : p.Coherent) (ho : p.owns = true) : awaits p.emitted =
    List.replicate (1 + (if p.config.oneshot > 0 then 1 else 0) + if p.config.forever then 1 else 0) p.completionWait := by
  have htracked : awaits p.emitted = (p.places p.emitted).filterMap Site.wait? := by
    rw [awaits, places, List.filterMap_filter]
    refine List.filterMap_congr fun site _ => ?_
    cases site <;> simp [Site.wait?, tracks]
  have hphases : p.allPlaces.filterMap Site.wait? =
      List.replicate (1 + (if p.config.oneshot > 0 then 1 else 0) + if p.config.forever then 1 else 0) p.completionWait := by
    rw [allPlaces, if_pos ho, unitPlaces]
    cases p.config.retrieval <;> by_cases hn : p.config.oneshot > 0 <;> cases p.config.forever <;>
      simp [hn, List.filterMap_cons, Site.wait?]
  rw [htracked, ← List.perm_replicate, ← hphases]
  exact h.places_emitted.filterMap _

/-- Of the functions for waiting, a program has the one that fits its device. -/
theorem Coherent.completion_defined (h : p.Coherent) (ho : p.owns = true) :
    (p.definitions.map Definition.name).filter (completionFunctions.contains ·) = [p.completionName] := by
  have hnone {ds : List Definition} (hds : ∀ d ∈ ds, d.name ∉ completionFunctions) :
      (ds.map Definition.name).filter (completionFunctions.contains ·) = [] := by
    rw [List.filter_eq_nil_iff]
    intro name hname
    obtain ⟨d, hd, rfl⟩ := List.mem_map.1 hname
    simpa using hds d hd
  have hfail : ∀ d ∈ p.failDefinitions, d.name ∉ completionFunctions := by
    simp only [failDefinitions]
    split <;> decide
  have hlibrary : (p.libraryDefinitions.map Definition.name).filter (completionFunctions.contains ·) = [p.completionName] := by
    have hcompletion : p.completionName ∈ completionFunctions := by
      simp only [completionName, handlerSignature]
      (repeat' split) <;> decide
    have hcontrol : ∀ d ∈ if p.config.master.isSome then
        [Definition.mk p.routeSink "cnn_continue", Definition.mk p.routeSink "cnn_stop"] else [],
        d.name ∉ completionFunctions := by
      split <;> simp [completionFunctions]
    rw [libraryDefinitions, if_pos ho, List.map_cons, List.filter_cons_of_pos (by simpa using hcompletion), hnone hcontrol]
  have hunits : ∀ d ∈ p.unitDefinitions, d.name ∉ completionFunctions := by
    have hlayers : ∀ name ∈ p.layerNames, name ∉ completionFunctions := by
      rw [layerNames]
      cases p.config.retrieval <;> cases p.verifies <;> decide
    intro d hd
    exact hlayers d.name (h.unitDefinition_names ho ▸ List.mem_map_of_mem hd)
  have hhost : ∀ d ∈ p.hostDefinitions, d.name ∉ completionFunctions := by
    simp only [hostDefinitions]
    (repeat' split) <;> decide
  have hapi : ∀ d ∈ p.apiDefinitions, d.name ∉ completionFunctions := by
    simp only [apiDefinitions]
    (repeat' split) <;> decide
  simp only [definitions, List.map_append, List.filter_append, hnone hfail, hlibrary, hnone hunits, hnone hhost, hnone hapi]
  rfl

theorem completionWait_eq_poll_iff : p.completionWait = .poll ↔ p.waitStrategy = .poll := by
  rw [completionWait]
  cases p.waitStrategy <;> cases p.config.waitMode <;> simp

theorem completionName_cases : p.completionName = "cnn_wait" ∧ p.waitStrategy = .poll ∨
    (p.completionName = "CNN_ISR" ∨ p.completionName = "CNN_IRQHandler") ∧ p.waitStrategy = .interrupt := by
  rw [completionName]
  cases p.waitStrategy with
  | poll => exact Or.inl ⟨rfl, rfl⟩
  | interrupt =>
    refine Or.inr ⟨?_, rfl⟩
    simp only [handlerSignature]
    cases p.config.topology with
    | companion => exact Or.inr rfl
    | singleCore | armHost => exact Or.inl rfl

theorem handoffPhrases_of_owns (ho : p.owns = true) : p.handoffPhrases = [] := by
  refine if_neg fun hhost => ?_
  rw [owns, hhost] at ho
  cases ho

theorem stamp_notMem_phrases (ho : p.owns = true) (hw : p.completionWait = .poll) : .stamp ∉ p.phrases := by
  have hstamp : p.stampPhrases = [] := by
    refine if_neg fun hr => ?_
    rw [completionWait_eq_poll_iff, waitStrategy_eq_interrupt hr] at hw
    cases hw
  simp [phrases, hstamp, handoffPhrases_of_owns ho, hw, CompletionWait.phrases]

theorem sleep_notMem_phrases (ho : p.owns = true) {i : SleepInstruction} (hw : p.completionWait ≠ .sleep i) :
    i.phrase ∉ p.phrases := by
  have hstamp : i.phrase ∉ p.stampPhrases := by
    simp only [stampPhrases]
    cases i <;> split <;> simp [SleepInstruction.phrase]
  have hwait : i.phrase ∉ p.completionWait.phrases := by
    rcases hc : p.completionWait with (_ | _) | _ | _ <;> cases i <;>
      simp_all [CompletionWait.phrases, SleepInstruction.phrase]
  simp [phrases, hstamp, hwait, handoffPhrases_of_owns ho]

theorem instruction_of_completionWait {i : SleepInstruction} (hw : p.completionWait = .sleep i) :
    i = if p.config.topology = .companion then .riscV else .arm := by
  have hi : p.config.topology.sleepInstruction = i := by
    rw [completionWait] at hw
    cases hs : p.waitStrategy <;> cases hm : p.config.waitMode <;> simp [hs, hm] at hw
    exact hw
  rw [← hi]
  cases p.config.topology <;> rfl

end Plan

namespace Synthesis

/-- One way to wait, with all that it relies on and nothing else. -/
structure WaitsBy (s : Synthesis) (c : Configuration) (w : CompletionWait) : Prop where
  /-- In the first run, in the further ones and in the endless loop. -/
  awaits : awaits s.plan.emitted = List.replicate (1 + (if c.oneshot > 0 then 1 else 0) + if c.forever then 1 else 0) w
  mechanism : ∃ name,
    (s.program.text.functions.map Definition.name).filter (completionFunctions.contains ·) = [name]
  polls : w = .poll ↔ "cnn_wait" ∈ s.program.text.functions.map Definition.name
  handles : "cnn_wait" ∈ s.program.text.functions.map Definition.name ↔
    "CNN_ISR" ∉ s.program.text.functions.map Definition.name ∧
      "CNN_IRQHandler" ∉ s.program.text.functions.map Definition.name
  stamp : w = .poll → ∀ op ∈ s.plan.emitted, op ∉ c.arrayHeaders → ¬ op.Writes "cnn_time"
  instruction : ∀ i, w = .sleep i → i = if c.topology = .companion then .riscV else .arm
  /-- The instruction of the wait is the only one of its kind. -/
  sleeps : ∀ op ∈ s.plan.emitted, op ∉ c.arrayHeaders → ∀ i : SleepInstruction, op.Writes i.mnemonic → w = .sleep i

variable {c : Configuration} {d : Device} {i : Inputs} {s : Synthesis}

/-- A core that drives the accelerator waits for it in one way. -/
theorem waits_one_way (h : run c d i = .ok s) (ho : c.topology.ownsAccelerator = true) :
    (∀ sink, s.program.text.texts.get sink = Piece.renderAll (s.plan.pieces sink)) ∧
      s.WaitsBy c s.plan.completionWait := by
  have htext := text_eq h
  obtain ⟨-, hfunctions⟩ := lifecycle_eq h
  obtain ⟨hcoherent, rfl, -, -⟩ := run_ok h
  have howns : s.plan.owns = true := ho
  have hdefined := hcoherent.completion_defined howns
  -- A function for waiting is defined if it is the one that fits.
  have hmem (name : String) (hn : name ∈ completionFunctions) :
      name ∈ s.plan.definitions.map Definition.name ↔ name = s.plan.completionName := by
    rw [← List.mem_singleton, ← hdefined, List.mem_filter]
    simp [hn]
  have hwait := hmem "cnn_wait" (by decide)
  have hisr := hmem "CNN_ISR" (by decide)
  have hirq := hmem "CNN_IRQHandler" (by decide)
  have hnot {op : Operation} (hop : op ∈ s.plan.emitted) (hheader : op ∉ s.plan.config.arrayHeaders) (ph : Phrase)
      (hph : ph ∉ .opening :: .closing :: s.plan.phrases) {text : String} (ht : ph.letters <:+: text.toList) :
      ¬ op.Writes text := by
    rcases hcoherent.says_emitted op hop with hop | hop | hop
    · exact absurd hop hheader
    · have hbrackets : ph ∉ .opening :: .closing :: [.opening, .closing] := by simp_all
      exact (s.plan.says_classPrintout.of_mem hop).not_writes hbrackets ht
    · exact hop.not_writes hph ht
  refine ⟨htext, ?_⟩
  exact {
    awaits := hcoherent.awaits_emitted howns
    mechanism := ⟨s.plan.completionName, by rw [hfunctions, hdefined]⟩
    polls := by
      rw [hfunctions, hwait, Plan.completionWait_eq_poll_iff]
      rcases s.plan.completionName_cases with ⟨hn, hw⟩ | ⟨hn | hn, hw⟩ <;> simp [hn, hw]
    handles := by
      rw [hfunctions, hwait, hisr, hirq]
      rcases s.plan.completionName_cases with ⟨hn, -⟩ | ⟨hn | hn, -⟩ <;> simp [hn]
    stamp := by
      intro hw op hop hheader
      have hstamp := Plan.stamp_notMem_phrases howns hw
      exact hnot hop hheader .stamp (by simpa using hstamp) ⟨['c'], ['e'], by decide +kernel⟩
    instruction := fun _ => Plan.instruction_of_completionWait
    sleeps := by
      intro op hop hheader i hwrites
      by_contra hw
      have hsleep := Plan.sleep_notMem_phrases howns hw
      have hbracket : i.phrase ≠ .opening ∧ i.phrase ≠ .closing := by cases i <;> decide
      have hletters : i.phrase.letters <:+: i.mnemonic.toList := by simp [i.phrase_letters]
      exact hnot hop hheader i.phrase (by simpa [hbracket] using hsleep) hletters hwrites }

/-- The companion core sleeps until the interrupt of the accelerator. -/
theorem waits_one_way_companion : ∃ s, run embeddedCompanion .ai85 .empty = .ok s ∧ s.WaitsBy embeddedCompanion (.sleep .riscV) := by
  obtain ⟨s, hs⟩ := exists_run (c := embeddedCompanion) (d := .ai85) (i := .empty) (by decide)
  obtain ⟨-, hwaits⟩ := waits_one_way hs rfl
  obtain ⟨-, hconfig, hdevice, -⟩ := run_ok hs
  have hw : s.plan.completionWait = .sleep .riscV := by
    rw [Plan.completionWait, Plan.waitStrategy, hconfig, hdevice]
    rfl
  exact ⟨s, hs, hw ▸ hwaits⟩

end Synthesis

end AccelFirmware
