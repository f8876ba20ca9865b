/-
# Lox.Proofs.Prompt -- a conversation at the prompt

Without a script every line of the input is a program of its own.  The session that runs them
has been through all the lines before, but a sink that never fails lets nothing of that show:
what a line comes to is what it comes to in a new session.

* `Command.IsLines`, `Command.Entered` -- the lines of an input, and the texts among them that
  are read.
* `Command.Ready` -- the session between two lines; `turn?_of_ready` is one line, in a session
  that may have run any others, and `converse_of_ready` all of them.
* `Command.reply_prompt` -- the reply to a command line without a script.
-/
import Mathlib.Data.List.SplitBy
import Lox.Proofs.Script

namespace Lox.Command

set_option autoImplicit false

/-! ## Lines -/

/-- The byte that ends a line. -/
def newline : ByteArray := ⟨#[10]⟩

/-- The lines of an input: each goes through the next newline, and what is left without one is
the last. -/
inductive IsLines : ByteArray → List ByteArray → Prop
  | nil : IsLines .empty []
  | last {line : ByteArray} (some : line ≠ .empty) (free : 10 ∉ line.data.toList) :
      IsLines line [line]
  | cons {line rest : ByteArray} {others : List ByteArray} (free : 10 ∉ line.data.toList)
      (beyond : IsLines rest others) :
      IsLines (line ++ newline ++ rest) ((line ++ newline) :: others)

/-- Bytes with no newline before their last are one line. -/
theorem splitBy_of_free {bytes : List UInt8} (some : bytes ≠ [])
    (free : 10 ∉ bytes.dropLast) : bytes.splitBy (fun byte _ => byte != 10) = [bytes] := by
  refine List.splitBy_of_isChain some ?_
  obtain ⟨front, last, rfl⟩ := (List.eq_nil_or_concat bytes).resolve_left some
  rw [List.concat_eq_append, List.dropLast_concat] at free
  have inside : ∀ byte ∈ front, (byte != 10) = true := by
    intro byte member
    rw [bne_iff_ne]
    rintro rfl
    exact free member
  rw [List.concat_eq_append, List.isChain_append]
  refine ⟨?_, .singleton last, fun byte ends _ _ => inside byte (List.mem_of_getLast? ends)⟩
  exact (List.pairwise_of_forall_mem_list fun byte member _ _ => inside byte member).isChain

theorem lines_last {line : ByteArray} (some : line ≠ .empty) (free : 10 ∉ line.data.toList) :
    lines line = [line] := by
  have bytes : line.data.toList ≠ [] := by
    intro none
    exact some (ByteArray.ext (Array.toList_inj.1 none))
  rw [lines, splitBy_of_free bytes fun member => free (List.mem_of_mem_dropLast member)]
  rfl

theorem lines_cons {line : ByteArray} (free : 10 ∉ line.data.toList) (rest : ByteArray) :
    lines (line ++ newline ++ rest) = (line ++ newline) :: lines rest := by
  have split : (line ++ newline ++ rest).data.toList =
      (line.data.toList ++ [10]) ++ rest.data.toList := by
    simp [newline]
  have first : (line.data.toList ++ [10]).splitBy (fun byte _ => byte != 10) =
      [line.data.toList ++ [10]] :=
    splitBy_of_free (by simp) (by simpa using free)
  rw [lines, split, List.splitBy_append (by simp), first]
  have front : (⟨(line.data.toList ++ [10]).toArray⟩ : ByteArray) = line ++ newline :=
    ByteArray.ext (Array.toList_inj.1 (by simp [newline]))
  rw [List.singleton_append, List.map_cons, front]
  rfl

theorem isLines_lines (input : ByteArray) : IsLines input (lines input) := by
  induction n : input.size using Nat.strongRecOn generalizing input with
  | ind n ih =>
      subst n
      by_cases ends : 10 ∈ input.data.toList
      · obtain ⟨front, behind, split, free⟩ := List.eq_append_cons_of_mem ends
        obtain rfl : input = ⟨front.toArray⟩ ++ newline ++ ⟨behind.toArray⟩ := by
          refine ByteArray.ext (Array.toList_inj.1 ?_)
          simp [split, newline]
        have shorter : (⟨behind.toArray⟩ : ByteArray).size <
            (⟨front.toArray⟩ ++ newline ++ ⟨behind.toArray⟩ : ByteArray).size := by
          simp [newline, ByteArray.size]
          omega
        rw [lines_cons free]
        exact .cons free (ih _ shorter _ rfl)
      · by_cases none : input = .empty
        · subst none
          exact .nil
        · rw [lines_last none ends]
          exact .last none ends

/-- An input has lines in one way only. -/
theorem isLines_iff {input : ByteArray} {others : List ByteArray} :
    IsLines input others ↔ others = lines input := by
  constructor
  · intro isLines
    induction isLines with
    | nil => rfl
    | last some free => rw [lines_last some free]
    | cons free beyond ih => rw [lines_cons free, ih]
  · rintro rfl
    exact isLines_lines input

/-- No text has the bytes of the first line, if there is one. -/
def Undecodable (rest : List ByteArray) : Prop :=
  ∀ line ∈ rest.head?, ∀ text : String, text.toUTF8 ≠ line

/-- The texts are the lines of the input before the first that is no text. -/
def Entered (input : ByteArray) (texts : List String) : Prop :=
  ∃ rest, IsLines input (texts.map String.toUTF8 ++ rest) ∧ Undecodable rest

theorem fromUTF8?_eq_none {line : ByteArray} (none : ∀ text : String, text.toUTF8 ≠ line) :
    String.fromUTF8? line = Option.none :=
  dif_neg fun valid => none (String.fromUTF8 line valid) rfl

theorem exists_undecodable (lines : List ByteArray) :
    ∃ (texts : List String) (rest : List ByteArray),
      lines = texts.map String.toUTF8 ++ rest ∧ Undecodable rest := by
  induction lines with
  | nil => exact ⟨[], [], rfl, by simp [Undecodable]⟩
  | cons line lines ih =>
      by_cases some : ∃ text : String, text.toUTF8 = line
      · obtain ⟨text, rfl⟩ := some
        obtain ⟨texts, rest, rfl, stops⟩ := ih
        exact ⟨text :: texts, rest, rfl, stops⟩
      · refine ⟨[], line :: lines, rfl, fun line' first text same => some ⟨text, ?_⟩⟩
        rw [same]
        exact (Option.some.inj first).symm

theorem texts_unique {texts texts' : List String} {rest rest' : List ByteArray}
    (same : texts.map String.toUTF8 ++ rest = texts'.map String.toUTF8 ++ rest')
    (stops : Undecodable rest) (stops' : Undecodable rest') : texts = texts' := by
  induction texts generalizing texts' with
  | nil =>
      cases texts' with
      | nil => rfl
      | cons text' texts' =>
          rw [List.map_nil, List.nil_append] at same
          exact absurd rfl (stops _ (by rw [same]; rfl) text')
  | cons text texts ih =>
      cases texts' with
      | nil =>
          rw [List.map_nil, List.nil_append] at same
          exact absurd rfl (stops' _ (by rw [← same]; rfl) text)
      | cons text' texts' =>
          obtain ⟨head, tail⟩ := List.cons.inj same
          rw [String.toByteArray_inj.1 head, ih tail]

/-- An input has its texts in one way only. -/
theorem exists_entered (input : ByteArray) :
    ∃ texts, ∀ other, Entered input other ↔ other = texts := by
  obtain ⟨texts, rest, split, stops⟩ := exists_undecodable (lines input)
  refine ⟨texts, fun other => ⟨?_, ?_⟩⟩
  · rintro ⟨rest', isLines, stops'⟩
    exact texts_unique ((isLines_iff.1 isLines).trans split) stops' stops
  · rintro rfl
    exact ⟨rest, isLines_iff.2 split.symm, stops⟩

/-! ## One line -/

theorem report_append (ds ds' : List Diagnostic) :
    Diagnostic.report (ds ++ ds') = Diagnostic.report ds ++ Diagnostic.report ds' := by
  simp [Diagnostic.report]

/-- Nothing is dumped. -/
structure Options.Quiet (o : Options) : Prop where
  tokens : o.dumpTokens = false
  trees : o.dumpTrees = none

theorem Options.Quiet.dump_eq {o : Options} (quiet : o.Quiet) (text : String) :
    o.dump text = "" := by
  rw [dump, quiet.tokens, quiet.trees]
  rfl

/-- A session when what it wrote has been taken from it. -/
def drained (s : Session) : Session :=
  let sink := { s.interpreter.sink with content := .empty }
  { s with interpreter := { s.interpreter with sink } }

/-- The session between two lines: whatever it ran before, it is able to run the next one, and
what it wrote has been taken from it. -/
structure Ready (o : Options) (s : Session) : Prop extends
    s.Able { maxDepth := o.maxDepth } where
  taken : s.interpreter.sink.content = .empty

variable {o : Options} {s : Session}

theorem ready_drained (able : s.Able { maxDepth := o.maxDepth }) : Ready o (drained s) :=
  ⟨⟨⟨able.config_eq, able.limit_eq⟩, able.boundless.room, able.boundless.flushes⟩, rfl⟩

/-- A line comes to what it comes to in a new session, and leaves a session ready for the
next. -/
theorem turn?_of_ready (quiet : o.Quiet) (ready : Ready o s) (text : String) :
    ∃ next, turn? o s text.toUTF8 =
        some ⟨o.output text, Diagnostic.report (o.diagnostics text), next⟩ ∧ Ready o next := by
  -- Both sessions are able, so the limits alone decide what the line comes to.
  have able : s.resetErrors.Able { maxDepth := o.maxDepth } := ready.after .resetErrors
  obtain ⟨answer, bytes, added, added'⟩ := able.agree (able_session o) (.run text)
  have result : (s.resetErrors.run text).1 = (o.session.run text).1 :=
    Session.Answer.ran.inj answer
  have written : (s.resetErrors.run text).2.interpreter.sink.content = o.output text := by
    have taken : s.resetErrors.interpreter.sink.content = .empty := ready.taken
    have before : o.session.interpreter.sink.content = .empty := rfl
    rw [Session.Adds, taken] at added
    rw [Session.Adds, before] at added'
    exact added.trans added'.symm
  refine ⟨drained (s.resetErrors.run text).2, ?_, ready_drained (able.after (.run text))⟩
  rw [turn?, fromUTF8?_toUTF8]
  dsimp only
  rw [quiet.dump_eq, String.empty_append, result, reported_run, written]
  rfl

/-! ## All lines -/

/-- Lines come one after the other to what they come to alone, up to one that is no text. -/
theorem converse_of_ready (quiet : o.Quiet) (ready : Ready o s) (texts : List String)
    {rest : List ByteArray} (stops : Undecodable rest) (soFar : Reply) :
    converse o s soFar (texts.map String.toUTF8 ++ rest) =
      { soFar with
        stdout := soFar.stdout ++
          texts.foldr (fun text behind => promptText ++ o.output text ++ behind) promptText
        stderr := soFar.stderr ++ Diagnostic.report (texts.flatMap o.diagnostics) } := by
  induction texts generalizing s soFar with
  | nil =>
      cases rest with
      | nil => simp [converse, Diagnostic.report]
      | cons line rest =>
          have none : turn? o s line = Option.none := by
            rw [turn?, fromUTF8?_eq_none (stops line rfl)]
          simp [converse, none, Diagnostic.report]
  | cons text texts ih =>
      obtain ⟨next, turn, ready⟩ := turn?_of_ready quiet ready text
      rw [List.map_cons, List.cons_append, converse, turn]
      dsimp only
      rw [ih ready]
      simp [ByteArray.append_assoc, String.append_assoc, report_append]

/-- **Every line at the prompt is a program of its own.**  Without a script and without dumps,
whatever the limit on trees, an input is read line by line up to the first line that is no text
in UTF-8; each line with its newline, and the last perhaps without one.  What is written is a
prompt and the output of a line in turn, and a prompt at the end; what is told are the
diagnostics of the lines in turn; and both are for each line what a new session makes of it, so
that no line, however it fails and whatever it leaves open, has an effect on a later one.  The
exit code is 0. -/
theorem reply_prompt (readFile : String → Except ReadFailure ByteArray) {args : List String}
    (asked : Request.ofArgs args = .run o) (unnamed : o.script? = none) (quiet : o.Quiet)
    (input : ByteArray) :
    ∃ texts, (∀ other, Entered input other ↔ other = texts) ∧
      reply readFile input args =
        { stdout :=
            texts.foldr (fun text behind => promptText ++ o.output text ++ behind) promptText
          stderr := Diagnostic.report (texts.flatMap o.diagnostics)
          code := 0 } := by
  obtain ⟨texts, only⟩ := exists_entered input
  obtain ⟨rest, isLines, stops⟩ := (only texts).2 rfl
  have ready : Ready o o.session := ⟨able_session o, rfl⟩
  refine ⟨texts, only, ?_⟩
  rw [reply, asked]
  dsimp only
  rw [unnamed]
  dsimp only
  rw [runPrompt, ← isLines_iff.1 isLines, converse_of_ready quiet ready texts stops]
  simp

/-- A line that prints and then fails, a string and a comment that stay open, a line that is too
high for two levels, and one that prints. -/
def brokenTexts : List String :=
  ["print \"a\"; -nil;\n", "print \"x\n", "/*\n", "!!true;\n", "print nil;\n"]

/-- These lines, one that is no text, and another behind it. -/
def brokenInput : ByteArray :=
  (String.join brokenTexts).toUTF8 ++ ⟨#[255, 10]⟩ ++ "print true;".toUTF8

/-- Whatever is wrong with a line, the next is read as if there were none before, until one is
no text. -/
theorem reply_prompt_brokenInput :
    Request.ofArgs ["--max-depth", "2"] = .run { maxDepth? := some 2 } ∧
      reply (fun _ => .error .missing) brokenInput ["--max-depth", "2"] =
        { stdout := "> a\n> > > > nil\n> ".toUTF8
          stderr := "[line 1] Error at '-': Operand of negation must be a number.\n" ++
            "[line 2] Error: Unterminated string.\n" ++
            "[line 2] Error at end: Expect expression.\n" ++
            "[line 1] Error at 'true': Expression nesting too deep.\n"
          code := 0 } := by
  have asked : Request.ofArgs ["--max-depth", "2"] = .run { maxDepth? := some 2 } := by cbv
  obtain ⟨texts, only, replied⟩ :=
    reply_prompt (fun _ => .error .missing) asked rfl ⟨rfl, rfl⟩ brokenInput
  have entered : Entered brokenInput brokenTexts := by
    refine ⟨[⟨#[255, 10]⟩, "print true;".toUTF8], isLines_iff.2 (by cbv), ?_⟩
    rintro line first text same
    cases first
    have invalid : ¬ (⟨#[255, 10]⟩ : ByteArray).IsValidUTF8 := by
      rw [← ByteArray.validateUTF8_eq_true_iff]
      decide
    exact invalid (same ▸ text.isValidUTF8)
  obtain rfl := (only _).1 entered
  have diagnostics : brokenTexts.flatMap ({ maxDepth? := some 2 } : Options).diagnostics =
      [⟨1, .atLexeme "-", "Operand of negation must be a number."⟩,
        ⟨2, .nowhere, "Unterminated string."⟩, ⟨2, .atEnd, "Expect expression."⟩,
        ⟨1, .atLexeme "true", "Expression nesting too deep."⟩] := by
    cbv
  have written : brokenTexts.foldr (fun text behind =>
      promptText ++ ({ maxDepth? := some 2 } : Options).output text ++ behind) promptText =
        "> a\n> > > > nil\n> ".toUTF8 := by
    cbv
  rw [diagnostics, written] at replied
  exact ⟨asked, replied⟩

end Lox.Command
