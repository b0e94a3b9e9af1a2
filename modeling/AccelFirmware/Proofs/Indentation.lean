import AccelFirmware.Proofs.Nesting
import AccelFirmware.Proofs.Reports

/-!
# Indentation

The depth at which an operation is rendered shows in blanks in front of its lines and in nothing else. Lines for the preprocessor
and empty lines stay in the first column at every depth.
-/

namespace AccelFirmware

/-! ## Lines and where they come from -/

/-- The lines of a text whose last line is ended, without their line feeds. A carriage return is part of its line. -/
def feedLines (text : String) : List (List Char) := (text.toList.splitOn '\n').dropLast

/-- What a line of rendered text is written for. A directive is a preformatted line with a number sign in front. -/
inductive LineOrigin where
  | header
  | define
  | directive
  | code
  deriving DecidableEq, Repr

/-- A line that is moved `depth` levels further in, where that is done to it. -/
def LineOrigin.indent (depth : Nat) (origin : LineOrigin) (line : List Char) : List Char :=
  if origin = .code ∧ line ≠ [] then List.replicate (2 * depth) ' ' ++ line else line

/-- A text with its lines moved `depth` levels further in. -/
def indentLines (depth : Nat) (origins : List LineOrigin) (text : String) : String :=
  String.ofList ((List.zipWith (LineOrigin.indent depth) origins (feedLines text)).flatMap (· ++ ['\n']))

/-- Text within a line. -/
def Feedless (text : String) : Prop := '\n' ∉ text.toList

namespace Operation

mutual

/-- For each line of an operation in turn, what it is written for. -/
def origins : Operation → List LineOrigin
  | .header _ _ _ => [.header]
  | .define _ _ => [.define]
  | .write _ _ value _ => List.replicate (max 1 (splitLines value).length) .code
  | .await (.sleep _) => [.code, .code]
  | .guarded _ body => .code :: body.origins
  | .counted _ body | .forever body => .code :: originsOfAll body ++ [.code]
  | .verbatim text => (splitLines text).map fun line => if line.toList.head? = some '#' then .directive else .code
  | _ => [.code]

def originsOfAll : List Operation → List LineOrigin
  | [] => []
  | op :: ops => op.origins ++ originsOfAll ops

end

mutual

/-- The texts of an operation that are written within a line: all but register values and preformatted text. -/
def lineTexts : Operation → List String
  | .header name _ note => name :: note.toList
  | .define name value => [name, value]
  | .declare text | .comment text => [text]
  | .statement text note => text :: note.toList
  | .write register _ _ note => register.texts ++ note.toList
  | .call callee args note => callee.name :: args ++ note.toList
  | .installVector irq handler note => irq :: handler :: note.toList
  | .waitUntil condition note => condition :: note.toList
  | .guarded condition body => condition :: body.lineTexts
  | .counted _ body | .forever body => lineTextsOfAll body
  | .check callee _ => [callee.name]
  | .await _ | .blank | .verbatim _ => []

def lineTextsOfAll : List Operation → List String
  | [] => []
  | op :: ops => op.lineTexts ++ lineTextsOfAll ops

end

mutual

/-- The texts that are a line by themselves. -/
def statementTexts : Operation → List String
  | .declare text | .statement text _ => [text]
  | .guarded _ body => body.statementTexts
  | .counted _ body | .forever body => statementTextsOfAll body
  | _ => []

def statementTextsOfAll : List Operation → List String
  | [] => []
  | op :: ops => op.statementTexts ++ statementTextsOfAll ops

end

/-- Texts keep to their lines, and statements say something. -/
structure Tidy (op : Operation) : Prop where
  feedless : ∀ text ∈ op.lineTexts, Feedless text
  nonempty : ∀ text ∈ op.statementTexts, text ≠ ""

structure TidyAll (ops : List Operation) : Prop where
  feedless : ∀ text ∈ lineTextsOfAll ops, Feedless text
  nonempty : ∀ text ∈ statementTextsOfAll ops, text ≠ ""

end Operation

/-- Text that only moves further in as the depth grows, and one origin for each line of it. -/
def Indents (origins : List LineOrigin) (rendering : Nat → String) : Prop :=
  ∀ depth, origins.length = (feedLines (rendering 0)).length ∧ rendering depth = indentLines depth origins (rendering 0)

/-! ## Texts within a line -/

section

variable {a b : String}

theorem feedless_append : Feedless (a ++ b) ↔ Feedless a ∧ Feedless b := by
  simp [Feedless]

theorem feedless_literal {text : String} (h : text.toList.contains '\n' = false) : Feedless text := by
  simpa [Feedless] using h

/-- Text between two fixed ones. -/
theorem feedless_between {before after : String} (hbefore : before.toList.contains '\n' = false) (ha : Feedless a)
    (hafter : after.toList.contains '\n' = false) : Feedless (before ++ a ++ after) :=
  feedless_append.2 ⟨feedless_append.2 ⟨feedless_literal hbefore, ha⟩, feedless_literal hafter⟩

theorem feedless_indentation (n : Nat) : Feedless (String.ofList (List.replicate n ' ')) := by
  simp [Feedless]

theorem feedless_decimal (n : Nat) : Feedless (decimal n) := by
  rw [Feedless, decimal, String.toList_ofList]
  exact not_mem_write rfl _ n

theorem feedless_hexWide (width n : Nat) : Feedless (hexWide width n) := by
  rw [Feedless, hexWide, String.toList_ofList, padLeft, List.mem_append, not_or]
  exact ⟨by simp, not_mem_write rfl _ n⟩

theorem feedless_annotate {note : Option String} (ha : Feedless a) (hn : ∀ text ∈ note, Feedless text) :
    Feedless (annotate a note) := by
  cases note with
  | none => exact ha
  | some text => exact feedless_append.2 ⟨feedless_append.2 ⟨ha, by simp [Feedless]⟩, hn text rfl⟩

theorem annotate_ne_empty (ha : a ≠ "") (note : Option String) : annotate a note ≠ "" := by
  cases note <;> simp [annotate, ha]

theorem feedless_intercalate {texts : List String} (h : ∀ text ∈ texts, Feedless text) : Feedless (", ".intercalate texts) := by
  induction texts with
  | nil => simp [Feedless]
  | cons text texts ih =>
    obtain ⟨htext, hrest⟩ := List.forall_mem_cons.1 h
    cases texts with
    | nil => simpa using htext
    | cons next texts =>
      rw [String.intercalate_cons_cons]
      exact feedless_append.2 ⟨feedless_append.2 ⟨htext, by simp [Feedless]⟩, ih hrest⟩

theorem feedless_closeLine {seen : List Char} (h : '\n' ∉ seen) : Feedless (closeLine seen) :=
  fun hm => h (List.mem_reverse.1 ((closeLine_isInfix seen).subset hm))

theorem feedless_of_mem_splitLinesFrom {seen cs : List Char} {line : String} (h : '\n' ∉ seen)
    (hm : line ∈ splitLinesFrom seen cs) : Feedless line := by
  induction cs generalizing seen with
  | nil =>
    rw [splitLinesFrom] at hm
    split at hm
    · cases hm
    · obtain rfl := List.mem_singleton.1 hm
      simpa [Feedless] using h
  | cons c cs ih =>
    by_cases hc : c = '\n'
    · subst hc
      rcases List.mem_cons.1 hm with rfl | hm
      · exact feedless_closeLine h
      · exact ih List.not_mem_nil hm
    · have hnext : splitLinesFrom seen (c :: cs) = splitLinesFrom (c :: seen) cs := by
        rw [splitLinesFrom]
        exact hc
      rw [hnext] at hm
      exact ih (List.not_mem_cons_of_ne_of_not_mem (Ne.symm hc) h) hm

theorem feedless_of_mem_splitLines {text line : String} (h : line ∈ splitLines text) : Feedless line :=
  feedless_of_mem_splitLinesFrom List.not_mem_nil h

end

/-! ## Lines at two depths -/

/-- A line, and the same line `depth` levels further in. -/
inductive Moved (depth : Nat) : LineOrigin → Line → Line → Prop where
  | indented {text : String} (indent : Nat) (hfeed : Feedless text) (hne : text ≠ "") :
      Moved depth .code ⟨indent, text⟩ ⟨indent + depth, text⟩
  | kept {origin : LineOrigin} {text : String} (hfeed : Feedless text) (h : origin ≠ .code ∨ text = "") :
      Moved depth origin ⟨0, text⟩ ⟨0, text⟩

inductive AllMoved (depth : Nat) : List LineOrigin → List Line → List Line → Prop where
  | nil : AllMoved depth [] [] []
  | cons {origin : LineOrigin} {origins : List LineOrigin} {line moved : Line} {ls ms : List Line}
      (hline : Moved depth origin line moved) (hls : AllMoved depth origins ls ms) :
      AllMoved depth (origin :: origins) (line :: ls) (moved :: ms)

namespace Line

/-- The characters of a line without its line feed. -/
def chars (l : Line) : List Char := List.replicate (2 * l.indent) ' ' ++ l.text.toList

theorem toList_render (l : Line) : l.render.toList = l.chars ++ ['\n'] := by
  simp [render, chars, indentation]

theorem toList_renderAll (ls : List Line) : (renderAll ls).toList = (ls.map chars).flatMap (· ++ ['\n']) := by
  induction ls with
  | nil => rfl
  | cons l ls ih => simp [renderAll_cons, toList_render, ih]

end Line

theorem feedLines_flatMap {lines : List (List Char)} (h : ∀ line ∈ lines, '\n' ∉ line) :
    feedLines (String.ofList (lines.flatMap (· ++ ['\n']))) = lines := by
  have hsplit : (lines.flatMap (· ++ ['\n'])).splitOn '\n' = lines ++ [[]] := by
    induction lines with
    | nil => rfl
    | cons line lines ih =>
      obtain ⟨hline, hlines⟩ := List.forall_mem_cons.1 h
      rw [List.flatMap_cons, List.append_assoc, List.singleton_append, List.splitOn_append_cons_self_of_not_mem hline,
        ih hlines, List.cons_append]
  rw [feedLines, String.toList_ofList, hsplit, List.dropLast_concat]

namespace Moved

variable {depth : Nat} {origin : LineOrigin} {line moved : Line}

theorem not_mem_chars (h : Moved depth origin line moved) : '\n' ∉ line.chars := by
  cases h with
  | indented indent hfeed hne => simpa [Line.chars, Feedless] using hfeed
  | kept hfeed h => simpa [Line.chars, Feedless] using hfeed

theorem chars_eq (h : Moved depth origin line moved) : moved.chars = origin.indent depth line.chars := by
  cases h with
  | @indented text indent hfeed hne =>
    have hblanks : List.replicate (2 * (indent + depth)) ' ' =
        List.replicate (2 * depth) ' ' ++ List.replicate (2 * indent) ' ' := by
      rw [← List.replicate_add, ← Nat.mul_add, Nat.add_comm]
    rw [LineOrigin.indent, if_pos ⟨rfl, by simp [Line.chars, hne]⟩, Line.chars, hblanks, List.append_assoc, Line.chars]
  | kept hfeed h =>
    rw [LineOrigin.indent, if_neg]
    rintro ⟨horigin, hline⟩
    rcases h with h | h
    · exact h horigin
    · exact hline (by simp [Line.chars, h])

end Moved

namespace AllMoved

variable {depth : Nat} {origins more : List LineOrigin} {ls ms ls' ms' : List Line}

theorem append (h : AllMoved depth origins ls ms) (h' : AllMoved depth more ls' ms') :
    AllMoved depth (origins ++ more) (ls ++ ls') (ms ++ ms') := by
  induction h with
  | nil => exact h'
  | cons hline _ ih => exact .cons hline ih

theorem singleton {origin : LineOrigin} {line moved : Line} (h : Moved depth origin line moved) :
    AllMoved depth [origin] [line] [moved] := .cons h .nil

theorem length_eq (h : AllMoved depth origins ls ms) : origins.length = ls.length := by
  induction h with
  | nil => rfl
  | cons _ _ ih => simp [ih]

theorem not_mem_chars (h : AllMoved depth origins ls ms) : ∀ line ∈ ls.map Line.chars, '\n' ∉ line := by
  induction h with
  | nil => simp
  | cons hline _ ih => exact List.forall_mem_cons.2 ⟨hline.not_mem_chars, ih⟩

theorem map_chars_eq (h : AllMoved depth origins ls ms) :
    ms.map Line.chars = List.zipWith (LineOrigin.indent depth) origins (ls.map Line.chars) := by
  induction h with
  | nil => rfl
  | cons hline _ ih => simp [hline.chars_eq, ih]

theorem feedLines_eq (h : AllMoved depth origins ls ms) : feedLines (Line.renderAll ls) = ls.map Line.chars := by
  have htext := feedLines_flatMap h.not_mem_chars
  rwa [← Line.toList_renderAll, String.ofList_toList] at htext

theorem renderAll_eq (h : AllMoved depth origins ls ms) :
    Line.renderAll ms = indentLines depth origins (Line.renderAll ls) := by
  rw [indentLines, h.feedLines_eq, ← h.map_chars_eq, ← Line.toList_renderAll, String.ofList_toList]

end AllMoved

theorem indents_of_allMoved {origins : List LineOrigin} {lines : Nat → List Line}
    (h : ∀ depth, AllMoved depth origins (lines 0) (lines (0 + depth))) :
    Indents origins fun depth => Line.renderAll (lines depth) := by
  intro depth
  have hdepth := h depth
  rw [Nat.zero_add] at hdepth
  exact ⟨by rw [hdepth.feedLines_eq, List.length_map, hdepth.length_eq], hdepth.renderAll_eq⟩

/-! ## Lines of an operation at two depths -/

/-- Lines of code of one operation move in together. -/
theorem allMoved_code {texts : List String} (h : ∀ text ∈ texts, Feedless text ∧ text ≠ "") (k depth : Nat) :
    AllMoved depth (List.replicate texts.length .code) (texts.map fun s => ⟨k, s⟩) (texts.map fun s => ⟨k + depth, s⟩) := by
  induction texts with
  | nil => exact .nil
  | cons text texts ih =>
    obtain ⟨⟨hfeed, hne⟩, hrest⟩ := List.forall_mem_cons.1 h
    exact .cons (.indented k hfeed hne) (ih hrest)

theorem length_mapLast (f : String → String) (texts : List String) : (mapLast f texts).length = texts.length := by
  induction texts with
  | nil => rfl
  | cons text texts ih =>
    cases texts with
    | nil => rfl
    | cons next texts => simpa [mapLast] using ih

theorem length_assignmentLines (left value : String) :
    (assignmentLines left value).length = max 1 (splitLines value).length := by
  rw [assignmentLines]
  cases splitLines value with
  | nil => rfl
  | cons first rest => simp

/-- An assignment has its target in every line, or blanks in its place. -/
theorem tidy_assignmentLines {left : String} (hl : Feedless left) (hne : left ≠ "") (value : String) :
    ∀ text ∈ assignmentLines left value, Feedless text ∧ text ≠ "" := by
  have hpart : ∀ part ∈ splitLines value, Feedless part := fun _ hp => feedless_of_mem_splitLines hp
  rw [assignmentLines]
  split
  · exact List.forall_mem_singleton.2 ⟨hl, hne⟩
  · rename_i first rest hlines
    rw [hlines, List.forall_mem_cons] at hpart
    refine List.forall_mem_cons.2 ⟨⟨feedless_append.2 ⟨hl, hpart.1⟩, by simp [hne]⟩, fun text ht => ?_⟩
    obtain ⟨part, hp, rfl⟩ := List.mem_map.1 ht
    refine ⟨feedless_append.2 ⟨feedless_indentation _, hpart.2 part hp⟩, fun hempty => hne ?_⟩
    have hblanks := String.ofList_eq_empty_iff.1 (String.append_eq_empty_iff.1 hempty).1
    exact String.utf8ByteSize_eq_zero_iff.1 ((List.replicate_eq_nil_iff _).1 hblanks)

theorem tidy_mapLast {texts : List String} (h : ∀ text ∈ texts, Feedless text ∧ text ≠ "") {note : Option String}
    (hn : ∀ text ∈ note, Feedless text) :
    ∀ text ∈ mapLast (fun s => annotate (s ++ ";") note) texts, Feedless text ∧ text ≠ "" := by
  intro text hm
  rcases mem_mapLast hm with ht | ⟨t, ht, rfl⟩
  · exact h text ht
  · exact ⟨feedless_annotate (feedless_append.2 ⟨(h t ht).1, feedless_literal rfl⟩) hn, annotate_ne_empty (by simp) note⟩

theorem allMoved_line {text : String} (hfeed : Feedless text) (hne : text ≠ "") (k depth : Nat) :
    AllMoved depth [.code] [⟨k, text⟩] [⟨k + depth, text⟩] :=
  .singleton (.indented k hfeed hne)

/-- Preformatted lines: a directive and an empty line are in the first column at every depth. -/
theorem allMoved_verbatim {texts : List String} (h : ∀ text ∈ texts, Feedless text) (k depth : Nat) :
    AllMoved depth (texts.map fun line => if line.toList.head? = some '#' then .directive else .code)
      (texts.map (verbatimLine k)) (texts.map (verbatimLine (k + depth))) := by
  induction texts with
  | nil => exact .nil
  | cons text texts ih =>
    obtain ⟨hfeed, hrest⟩ := List.forall_mem_cons.1 h
    refine .cons ?_ (ih hrest)
    by_cases hempty : text = ""
    · subst hempty
      exact .kept hfeed (.inr rfl)
    · by_cases hhash : text.toList.head? = some '#'
      · simpa [verbatimLine, hhash] using Moved.kept hfeed (.inl (by decide))
      · simpa [verbatimLine, hhash, hempty] using Moved.indented k hfeed hempty

/-- Lines between a head and a closing bracket, one level further in than these. -/
theorem allMoved_block {head : String} (hfeed : Feedless head) (hne : head ≠ "") {k depth : Nat} {origins : List LineOrigin}
    {lines : Nat → List Line} (h : AllMoved depth origins (lines (k + 1)) (lines (k + 1 + depth))) :
    AllMoved depth (.code :: origins ++ [.code]) (⟨k, head⟩ :: lines (k + 1) ++ [⟨k, "\x7d"⟩])
      (⟨k + depth, head⟩ :: lines (k + depth + 1) ++ [⟨k + depth, "\x7d"⟩]) := by
  rw [Nat.add_right_comm] at h
  exact .cons (.indented k hfeed hne) (h.append (allMoved_line (feedless_literal rfl) (by decide) k depth))

namespace Operation

theorem feedless_target {register : Register} (h : ∀ text ∈ register.texts, Feedless text) (mode : WriteMode) :
    Feedless (register.render ++ " " ++ mode.symbol ++ " ") := by
  have htarget : Feedless register.render := by
    cases register with
    | address value =>
      exact feedless_between rfl (feedless_hexWide 8 _) rfl
    | named name => exact h name (by simp [Register.texts])
  have hsymbol : Feedless mode.symbol := by cases mode <;> exact feedless_literal rfl
  simp only [feedless_append]
  exact ⟨⟨⟨htarget, feedless_literal rfl⟩, hsymbol⟩, feedless_literal rfl⟩

mutual

/-- The lines of an operation are the same at every depth, apart from where they begin. -/
theorem allMoved_lines (depth : Nat) : (op : Operation) → (∀ text ∈ op.lineTexts, Feedless text) →
    (∀ text ∈ op.statementTexts, text ≠ "") → (k : Nat) →
    AllMoved depth op.origins (op.lines k) (op.lines (k + depth))
  | .header name system note, h, _, _ => by
      obtain ⟨hname, hnote⟩ := List.forall_mem_cons.1 h
      refine .singleton (.kept (feedless_annotate ?_ (by simpa using hnote)) (.inl (by decide)))
      split <;> exact feedless_between rfl hname rfl
  | .define name value, h, _, _ => by
      have hname := h name (by simp [lineTexts])
      have hvalue := h value (by simp [lineTexts])
      refine .singleton (.kept ?_ (.inl (by decide)))
      exact feedless_append.2 ⟨feedless_between rfl hname rfl, hvalue⟩
  | .declare text, h, hs, k => allMoved_line (h text (by simp [lineTexts])) (hs text (by simp [statementTexts])) k depth
  | .statement text note, h, hs, k => by
      obtain ⟨htext, hnote⟩ := List.forall_mem_cons.1 h
      have hne := hs text (by simp [statementTexts])
      exact allMoved_line (feedless_annotate htext (by simpa using hnote)) (annotate_ne_empty hne note) k depth
  | .write register mode value note, h, _, k => by
      obtain ⟨htarget, hnote⟩ := List.forall_mem_append.1 h
      have hlines := tidy_assignmentLines (feedless_target htarget mode) (by simp) value
      have hcode := allMoved_code (tidy_mapLast hlines (by simpa using hnote)) k depth
      rwa [length_mapLast, length_assignmentLines] at hcode
  | .call callee args note, h, _, k => by
      obtain ⟨hcall, hnote⟩ := List.forall_mem_append.1 h
      obtain ⟨hname, hargs⟩ := List.forall_mem_cons.1 hcall
      refine allMoved_line (feedless_annotate ?_ (by simpa using hnote)) (annotate_ne_empty (by simp) note) k depth
      simp only [feedless_append]
      exact ⟨⟨⟨hname, feedless_literal rfl⟩, feedless_intercalate hargs⟩, feedless_literal rfl⟩
  | .installVector irq handler note, h, _, k => by
      obtain ⟨hirq, hrest⟩ := List.forall_mem_cons.1 h
      obtain ⟨hhandler, hnote⟩ := List.forall_mem_cons.1 hrest
      refine allMoved_line (feedless_annotate ?_ (by simpa using hnote)) (annotate_ne_empty (by simp) note) k depth
      simp only [feedless_append]
      exact ⟨⟨⟨⟨feedless_literal rfl, hirq⟩, feedless_literal rfl⟩, hhandler⟩, feedless_literal rfl⟩
  | .waitUntil condition note, h, _, k => by
      obtain ⟨hcondition, hnote⟩ := List.forall_mem_cons.1 h
      have hloop : Feedless ("while (" ++ condition ++ ") ;") := feedless_between rfl hcondition rfl
      exact allMoved_line (feedless_annotate hloop (by simpa using hnote)) (annotate_ne_empty (by simp) note) k depth
  | .await (.sleep instruction), _, _, k => by
      have hinstruction : Feedless (annotate instruction.statement (some "Wait for CNN")) := by
        cases instruction <;> exact feedless_literal rfl
      have hne : annotate instruction.statement (some "Wait for CNN") ≠ "" :=
        annotate_ne_empty (by cases instruction <;> decide) _
      have hinner := allMoved_line hinstruction hne (k + 1) depth
      rw [Nat.add_right_comm] at hinner
      exact (allMoved_line (feedless_literal rfl) (by decide) k depth).append hinner
  | .await .spin, _, _, k => allMoved_line (feedless_literal rfl) (by decide) k depth
  | .await .poll, _, _, k => allMoved_line (feedless_literal rfl) (by decide) k depth
  | .guarded condition body, h, hs, k => by
      obtain ⟨hcondition, hbody⟩ := List.forall_mem_cons.1 h
      -- At both depths the body stands one level further in than its condition.
      have hinner := allMoved_lines depth body hbody hs (k + 1)
      rw [Nat.add_right_comm] at hinner
      exact .cons (.indented k (feedless_between rfl hcondition rfl) (by simp)) hinner
  | .counted count body, h, hs, k =>
      allMoved_block (feedless_between rfl (feedless_decimal _) rfl) (by simp) (allMoved_linesOfAll depth body h hs (k + 1))
  | .forever body, h, hs, k =>
      allMoved_block (feedless_literal rfl) (by decide) (allMoved_linesOfAll depth body h hs (k + 1))
  | .check callee policy, h, _, k => by
      have hname := h callee.name (by simp [lineTexts])
      have haction : Feedless policy.action := by cases policy <;> exact feedless_literal rfl
      exact allMoved_line (feedless_append.2 ⟨feedless_between rfl hname rfl, haction⟩) (by simp) k depth
  | .comment text, h, _, k => by
      have htext := h text (by simp [lineTexts])
      exact allMoved_line (feedless_append.2 ⟨feedless_literal rfl, htext⟩) (by simp) k depth
  | .blank, _, _, _ => .singleton (.kept (feedless_literal rfl) (.inr rfl))
  | .verbatim text, _, _, k => allMoved_verbatim (fun _ hline => feedless_of_mem_splitLines hline) k depth

theorem allMoved_linesOfAll (depth : Nat) : (ops : List Operation) → (∀ text ∈ lineTextsOfAll ops, Feedless text) →
    (∀ text ∈ statementTextsOfAll ops, text ≠ "") → (k : Nat) →
    AllMoved depth (originsOfAll ops) (linesOfAll ops k) (linesOfAll ops (k + depth))
  | [], _, _, _ => .nil
  | op :: ops, h, hs, k => by
      obtain ⟨hop, hops⟩ := List.forall_mem_append.1 h
      obtain ⟨hsop, hsops⟩ := List.forall_mem_append.1 hs
      exact (allMoved_lines depth op hop hsop k).append (allMoved_linesOfAll depth ops hops hsops k)

end

theorem Tidy.indents {op : Operation} (h : op.Tidy) : Indents op.origins op.render :=
  indents_of_allMoved fun depth => allMoved_lines depth op h.feedless h.nonempty 0

theorem TidyAll.indents {ops : List Operation} (h : TidyAll ops) : Indents (originsOfAll ops) (renderAll ops) :=
  indents_of_allMoved fun depth => allMoved_linesOfAll depth ops h.feedless h.nonempty 0

theorem endsLine_render (op : Operation) (depth : Nat) : EndsLine (op.render depth) := by
  simpa [renderAll, linesOfAll, render] using endsLine_renderAll [op] depth

/-- Between two depths, rendered operations differ in the indentation of their code and in nothing else. They end their last line,
and operations in a row are rendered in a row. -/
theorem rendering_depth (op : Operation) (ops more : List Operation) (depth : Nat) :
    (op.Tidy → Indents op.origins op.render) ∧
      (TidyAll ops → Indents (originsOfAll ops) (renderAll ops)) ∧
      EndsLine (op.render depth) ∧ EndsLine (renderAll ops depth) ∧
      renderAll (ops ++ more) depth = renderAll ops depth ++ renderAll more depth :=
  ⟨Tidy.indents, TidyAll.indents, op.endsLine_render depth, endsLine_renderAll ops depth, renderAll_append ops more depth⟩

theorem rendering_depth_nested :
    render (.forever [.guarded "cnn_time == 0" (.write (.named "STATUS") .setBits "A\n| B"),
        .verbatim "#ifdef TRACE\n\ntrace();\n#endif\n", .define "COUNT" "3", .blank]) 2 =
      indentLines 2 [.code, .code, .code, .code, .directive, .code, .code, .directive, .define, .code, .code]
        (render (.forever [.guarded "cnn_time == 0" (.write (.named "STATUS") .setBits "A\n| B"),
          .verbatim "#ifdef TRACE\n\ntrace();\n#endif\n", .define "COUNT" "3", .blank]) 0) := by
  refine ((rendering_depth _ [] [] 0).1 ⟨?_, ?_⟩ 2).2
  · simp [lineTexts, lineTextsOfAll, Register.texts, Feedless]
  · simp [statementTexts, statementTextsOfAll]

end Operation

end AccelFirmware
