/-
# Lox.Proofs.Lockstep -- two programs of the same kinds

What a parser makes of tokens is decided by their kinds, of which a literal is part.  Two parsers
on tokens of the same kinds go on in lockstep, whatever the spellings and the lines: where one
reads a statement the other reads it too, with its own tokens for operators, and where one reports
something the other reports the same of its own token at that place.

* `Parser.Corresponds` -- two tokens at one place.
* `Parse.Delimits.forall₂` -- what comes before the end of the input corresponds, and so does the
  end.
* `Parser.program_corresponds` -- programs of corresponding tokens.
* `Parser.numbered`, `Parser.Numbers` -- places for lines, so that equal tokens are told apart.
* `Parser.program_alike` -- programs of tokens of the same kinds.
-/
import Lox.Proofs.Lines
import Lox.Proofs.Progress

namespace Lox

set_option autoImplicit false

variable {R : Token → Token → Prop}

/-- Two diagnostics with one message, each at one of two tokens that correspond. -/
inductive Diagnostic.Alike (R : Token → Token → Prop) : Diagnostic → Diagnostic → Prop
  | diagnose {t u : Token} (message : String) (tokens : R t u) :
      Alike R (t.diagnose message) (u.diagnose message)

namespace Parse

/-- Where tokens correspond that have the same kind, the input ends at corresponding places. -/
theorem Delimits.forall₂ (kinds : ∀ {t u}, R t u → t.kind = u.kind)
    {all all' tokens tokens' : List Token} {last last' : Token}
    (delimits : Delimits all tokens last) (delimits' : Delimits all' tokens' last')
    (correspond : List.Forall₂ R all all') : List.Forall₂ R tokens tokens' ∧ R last last' := by
  have eofs {t u : Token} (same : R t u) : t.isEof = u.isEof := by
    simp only [Token.isEof, kinds same]
  obtain ⟨⟨behind, rfl⟩, inner, ends⟩ := delimits
  obtain ⟨⟨behind', rfl⟩, inner', ends'⟩ := delimits'
  induction tokens generalizing tokens' with
  | nil =>
      cases tokens' with
      | nil =>
          obtain ⟨same, -⟩ := List.forall₂_cons.1 correspond
          exact ⟨.nil, same⟩
      | cons t' tokens' =>
          obtain ⟨same, -⟩ := List.forall₂_cons.1 correspond
          rw [eofs same, inner' t' List.mem_cons_self] at ends
          cases ends
  | cons t tokens ih =>
      cases tokens' with
      | nil =>
          obtain ⟨same, -⟩ := List.forall₂_cons.1 correspond
          rw [← eofs same, inner t List.mem_cons_self] at ends'
          cases ends'
      | cons t' tokens' =>
          obtain ⟨same, others⟩ := List.forall₂_cons.1 correspond
          rw [List.forall_mem_cons] at inner inner'
          obtain ⟨ahead, last⟩ := ih inner.2 inner'.2 others
          exact ⟨.cons same ahead, last⟩

end Parse

namespace Parser

open Parse

/-- The tokens stand at one place, the one in the first and the other in the second sequence. -/
def Corresponds (A B : List Token) (t u : Token) : Prop :=
  ∃ i : Nat, A[i]? = some t ∧ B[i]? = some u

theorem forall₂_corresponds {A B : List Token} (length : A.length = B.length) :
    List.Forall₂ (Corresponds A B) A B := by
  rw [List.forall₂_iff_get]
  refine ⟨length, fun i inside inside' => ⟨i, ?_, ?_⟩⟩ <;> simp

theorem Corresponds.kind_eq {A B : List Token} (same : A.map Token.kind = B.map Token.kind)
    {t u : Token} (corresponds : Corresponds A B t u) : t.kind = u.kind := by
  obtain ⟨i, here, there⟩ := corresponds
  have kinds : (A.map Token.kind)[i]? = (B.map Token.kind)[i]? := by rw [same]
  simpa [here, there] using kinds

/-- Whether an end of the input has to be put behind tokens hangs on their kinds. -/
theorem any_isEof_getLast? (tokens : List Token) :
    tokens.getLast?.any Token.isEof = (tokens.map Token.kind).getLast?.any (· == .eof) := by
  rw [List.getLast?_map]
  cases tokens.getLast? <;> rfl

theorem map_kind_completed (tokens : List Token) :
    (completed tokens).map Token.kind =
      if (tokens.map Token.kind).getLast?.any (· == .eof) then tokens.map Token.kind
      else tokens.map Token.kind ++ [.eof] := by
  rw [completed, any_isEof_getLast?]
  split <;> simp [Token.eof]

theorem completed_of_kinds {A B : List Token} (same : A.map Token.kind = B.map Token.kind) :
    (completed A).map Token.kind = (completed B).map Token.kind := by
  rw [map_kind_completed, map_kind_completed, same]

/-! ### Places for lines -/

/-- The tokens with their places for lines, so that one can be told from another. -/
def numbered (tokens : List Token) : List Token :=
  tokens.mapIdx fun i t => { t with line := i }

/-- The second token has the kind of the first, and stands at the place that is the line of the
first. -/
def Numbers (all : List Token) (t u : Token) : Prop :=
  t.kind = u.kind ∧ all[t.line]? = some u

@[simp] theorem map_kind_numbered (tokens : List Token) :
    (numbered tokens).map Token.kind = tokens.map Token.kind :=
  List.ext_getElem (by simp [numbered]) fun i _ _ => by simp [numbered]

theorem forall₂_numbers {A B : List Token} (same : A.map Token.kind = B.map Token.kind) :
    List.Forall₂ (Numbers B) (numbered A) B := by
  have length : A.length = B.length := by simpa using congrArg List.length same
  rw [List.forall₂_iff_get]
  refine ⟨by simpa [numbered] using length, fun i inside inside' => ?_⟩
  have kinds : (A.map Token.kind)[i]? = (B.map Token.kind)[i]? := by rw [same]
  have inside : i < A.length := length ▸ inside'
  exact ⟨by simpa [numbered, inside, inside'] using kinds, by simp [numbered, inside']⟩

/-- Tokens that have an end keep it when they are numbered. -/
theorem completed_numbered_completed (tokens : List Token) :
    completed (numbered (completed tokens)) = numbered (completed tokens) := by
  apply if_pos
  rw [any_isEof_getLast?, map_kind_numbered, map_kind_completed]
  split
  · assumption
  · simp

/-! ### Programs -/

/-- What is reported of corresponding attempts. -/
theorem complaint?_alike {p q : Parser} (last : R p.last q.last) {attempt attempt' : Attempt}
    (alike : Attempt.Alike R attempt attempt') :
    Option.Rel (Diagnostic.Alike R) (p.complaint? attempt) (q.complaint? attempt') := by
  cases alike with
  | done read => exact .none
  | @failed problem site site' blamed =>
      cases blamed with
      | nil => exact .some (.diagnose problem.message last)
      | cons same others => exact .some (.diagnose problem.message same)

theorem stmt?_alike {attempt attempt' : Attempt} (alike : Attempt.Alike R attempt attempt') :
    Option.Rel (Stmt.Alike R) attempt.stmt? attempt'.stmt? := by
  cases alike with
  | done read => exact .some read
  | failed blamed => exact .none

/-- Parsers with corresponding tokens ahead read corresponding statements and report the same of
corresponding tokens. -/
theorem program_corresponds (kinds : ∀ {t u}, R t u → t.kind = u.kind) {p q : Parser}
    (bound : p.bound = q.bound) (ahead : List.Forall₂ R p.ahead q.ahead) (last : R p.last q.last)
    (reported : List.Forall₂ (Diagnostic.Alike R) p.reported q.reported) :
    List.Forall₂ (Stmt.Alike R) p.program.1 q.program.1 ∧
      List.Forall₂ (Diagnostic.Alike R) p.program.2.reported q.program.2.reported := by
  have made := @attempts_alike R p.bound kinds _ _ ahead
  rw [program_eq, program_eq, ← bound]
  constructor
  · exact List.rel_filterMap (fun _ _ alike => stmt?_alike alike) made
  · exact List.rel_append reported
      (List.rel_filterMap (fun _ _ alike => complaint?_alike last alike) made)

/-- The parser of tokens further down is further down. -/
theorem ofTokens_shifted {tokens : List Token} (some : tokens ≠ []) (k bound : Nat) :
    ofTokens (tokens.map (Token.shifted k)) bound = (ofTokens tokens bound).shifted k := by
  have last : endOf (tokens.map (Token.shifted k)) = (endOf tokens).shifted k := by
    rw [endOf, endOf, List.find?_map, List.getLast?_map,
      show Token.isEof ∘ Token.shifted k = Token.isEof from rfl,
      List.getLast?_eq_some_getLast some]
    cases tokens.find? Token.isEof <;> rfl
  simp only [ofTokens, shifted, last, List.takeWhile_map, List.map_nil]
  rfl

/-- Tokens further down are a program further down, also where there are none. -/
theorem program_ofTokens_shifted (k bound : Nat) (tokens : List Token) :
    (ofTokens (tokens.map (Token.shifted k)) bound).program.1 =
        (ofTokens tokens bound).program.1.map (Stmt.shifted k) ∧
      (ofTokens (tokens.map (Token.shifted k)) bound).program.2.reported =
        (ofTokens tokens bound).program.2.reported.map (Diagnostic.shifted k) := by
  by_cases none : tokens = []
  · -- The end that is put behind no tokens stands on line 1, but nothing is blamed on it.
    subst none
    simp [program_eq, ofTokens]
  · rw [ofTokens_shifted none, program_shifted]
    exact ⟨rfl, rfl⟩

/-- Programs of tokens that correspond, up to their first ends, in a way that keeps the kinds. -/
theorem program_ofTokens_corresponds (kinds : ∀ {t u}, R t u → t.kind = u.kind) (bound : Nat)
    {A B : List Token} (correspond : List.Forall₂ R (completed A) (completed B)) :
    List.Forall₂ (Stmt.Alike R) (ofTokens A bound).program.1 (ofTokens B bound).program.1 ∧
      List.Forall₂ (Diagnostic.Alike R) (ofTokens A bound).program.2.reported
        (ofTokens B bound).program.2.reported := by
  obtain ⟨ahead, last⟩ := (delimits_completed A bound).forall₂ kinds (delimits_completed B bound)
    correspond
  exact program_corresponds kinds rfl ahead last .nil

/-- **Parsing looks at kinds only.**  Take two sequences of tokens of the same kinds, literals
included, spelled and placed in any way.  Under any bound they are read to as many statements of
the same forms, whose trees are equal but for their operators, and these are tokens at one place in
both; and as much is reported, with the same messages, of tokens at one place.  The place behind
the last token counts as one if the input has no end of its own.  There is even one plan, with
places for the lines of its tokens, that gives either program when the tokens of either sequence
are put where their places are named.  So where all lines are higher by some number, just the lines
of operators and of what is reported are. -/
theorem program_alike (bound : Nat) {A B : List Token}
    (same : A.map Token.kind = B.map Token.kind) :
    let corresponds := Corresponds (completed A) (completed B)
    List.Forall₂ (Stmt.Alike corresponds) (ofTokens A bound).program.1
        (ofTokens B bound).program.1 ∧
      List.Forall₂ (Diagnostic.Alike corresponds) (ofTokens A bound).program.2.reported
        (ofTokens B bound).program.2.reported ∧
      (∃ plan told, ∀ C ∈ [A, B],
        List.Forall₂ (Stmt.Alike (Numbers (completed C))) plan (ofTokens C bound).program.1 ∧
          List.Forall₂ (Diagnostic.Alike (Numbers (completed C))) told
            (ofTokens C bound).program.2.reported) ∧
      ∀ k, (ofTokens (A.map (Token.shifted k)) bound).program.1 =
          (ofTokens A bound).program.1.map (Stmt.shifted k) ∧
        (ofTokens (A.map (Token.shifted k)) bound).program.2.reported =
          (ofTokens A bound).program.2.reported.map (Diagnostic.shifted k) := by
  intro corresponds
  have same := completed_of_kinds same
  have length : (completed A).length = (completed B).length := by
    simpa using congrArg List.length same
  obtain ⟨stmts, reported⟩ := program_ofTokens_corresponds (Corresponds.kind_eq same) bound
    (forall₂_corresponds length)
  refine ⟨stmts, reported, ?_, fun k => program_ofTokens_shifted k bound A⟩
  refine ⟨(ofTokens (numbered (completed A)) bound).program.1,
    (ofTokens (numbered (completed A)) bound).program.2.reported, fun C member => ?_⟩
  have kinds : (completed A).map Token.kind = (completed C).map Token.kind := by
    rcases List.mem_pair.1 member with rfl | rfl
    · rfl
    · exact same
  apply program_ofTokens_corresponds And.left bound
  rw [completed_numbered_completed]
  exact forall₂_numbers kinds

/-- A difference, and then a sign with nothing behind it. -/
def cutOff : List Token :=
  [.fixed (.keyword .nilWord) 1, .fixed (.symbol .minus) 1, .fixed (.keyword .nilWord) 2,
    .fixed (.symbol .semicolon) 2, .fixed (.symbol .bang) 3]

/-- The same, spelled in ways that are never scanned, on lines that go up. -/
def scrawled : List Token :=
  [⟨.keyword .nilWord, "null", 9⟩, ⟨.symbol .minus, "minus", 8⟩, ⟨.keyword .nilWord, "", 7⟩,
    ⟨.symbol .semicolon, "!", 6⟩, ⟨.symbol .bang, ";", 5⟩]

/-- The operator of one is that of the other at its place, and what is missing at the end is told
on the line of the last token. -/
theorem program_alike_scrawled :
    cutOff.map Token.kind = scrawled.map Token.kind ∧
      List.Forall₂ (Stmt.Alike (Corresponds (completed cutOff) (completed scrawled)))
        [.expression (.binary (.fixed (.symbol .minus) 1) (.literal .nil) (.literal .nil))]
        [.expression (.binary ⟨.symbol .minus, "minus", 8⟩ (.literal .nil) (.literal .nil))] ∧
      List.Forall₂ (Diagnostic.Alike (Corresponds (completed cutOff) (completed scrawled)))
        [⟨3, .atEnd, "Expect expression."⟩] [⟨5, .atEnd, "Expect expression."⟩] := by
  have kinds : cutOff.map Token.kind = scrawled.map Token.kind := by decide
  obtain ⟨stmts, reported, -⟩ := program_alike 2 kinds
  have read : (ofTokens cutOff 2).program.1 =
      [.expression (.binary (.fixed (.symbol .minus) 1) (.literal .nil) (.literal .nil))] := by
    cbv
  have read' : (ofTokens scrawled 2).program.1 =
      [.expression (.binary ⟨.symbol .minus, "minus", 8⟩ (.literal .nil) (.literal .nil))] := by
    cbv
  have told : (ofTokens cutOff 2).program.2.reported = [⟨3, .atEnd, "Expect expression."⟩] := by
    cbv
  have told' : (ofTokens scrawled 2).program.2.reported = [⟨5, .atEnd, "Expect expression."⟩] := by
    cbv
  rw [read, read'] at stmts
  rw [told, told'] at reported
  exact ⟨kinds, stmts, reported⟩

end Parser

end Lox
