/-
# Lox.Proofs.Progress -- a program is read in rounds that never go back

Each round reads a statement, or meets a fault and skips to where a statement may begin.  What
a fault is blamed on lies between where its round began and where reading stopped, and the next
round begins beyond that; so no token is blamed twice, the blame moves on down the tokens, and
there are no more rounds than tokens.

* `Parse.Round`, `Parse.Rounds` -- the rounds that read a program.
* `Parse.Boundary`, `Parse.Delimits.recover_isLeast` -- where a statement may begin; recovery
  goes on at the first such place.
* `Parse.Proceeds` -- rounds that go on down the tokens; `Parse.Rounds.proceeds` says that
  those of a program do, and what follows for all of them is derived from that alone.
* `Parser.program_proceeds` -- programs, and what is reported of them.
-/
import Mathlib.Order.Bounds.Defs
import Lox.Proofs.Recovery
import Lox.Proofs.Segmentation
import Lox.Proofs.Sentences

namespace Lox

set_option autoImplicit false

namespace Parse

/-! ## Places -/

/-- The index among the tokens of the first that is left. -/
def place (tokens rest : List Token) : Nat :=
  tokens.length - rest.length

/-- The token at the index stands for the end of the input. -/
def EndsAt (all : List Token) (i : Nat) : Prop :=
  ∃ t ∈ all[i]?, t.isEof = true

/-- A statement may begin at the index: the input ends there, or a semicolon comes before it,
or a word that starts a statement stands there. -/
def Boundary (all : List Token) (i : Nat) : Prop :=
  EndsAt all i ∨ (∃ t ∈ all[i - 1]?, t.is .semicolon = true) ∨
    ∃ t ∈ all[i]?, t.kind.startsStatement = true

/-- Among all tokens, `tokens` are those before the first that stands for the end of the input,
and that one is `last`. -/
structure Delimits (all tokens : List Token) (last : Token) : Prop where
  split : ∃ behind, all = tokens ++ last :: behind
  inner : ∀ t ∈ tokens, t.isEof = false
  ends : last.isEof = true

section Places

variable {tokens rest : List Token}

theorem place_append (front rest : List Token) : place (front ++ rest) rest = front.length := by
  simp [place]

theorem place_mono {site : List Token} (suffix : rest <:+ site) :
    place tokens site ≤ place tokens rest :=
  Nat.sub_le_sub_left suffix.length_le _

theorem place_add_le {site : List Token} {n : Nat} (within : site <:+ tokens)
    (shorter : rest.length + n ≤ site.length) : place tokens site + n ≤ place tokens rest := by
  have := within.length_le
  simp only [place]
  omega

theorem place_tail {t : Token} {more : List Token} (within : t :: more <:+ tokens) :
    place tokens more = place tokens (t :: more) + 1 := by
  have := within.length_le
  simp only [place, List.length_cons] at *
  omega

variable {all : List Token} {last : Token}

theorem Delimits.kind_last (delimits : Delimits all tokens last) : last.kind = .eof := by
  simpa [Token.isEof] using delimits.ends

theorem Delimits.getElem?_place (delimits : Delimits all tokens last) (within : rest <:+ tokens) :
    all[place tokens rest]? = some (rest.head?.getD last) := by
  obtain ⟨behind, rfl⟩ := delimits.split
  obtain ⟨front, rfl⟩ := within
  rw [place_append, List.append_assoc, List.getElem?_append_right (Nat.le_refl _), Nat.sub_self]
  cases rest <;> rfl

theorem Delimits.endsAt_place_iff (delimits : Delimits all tokens last)
    (within : rest <:+ tokens) : EndsAt all (place tokens rest) ↔ rest = [] := by
  rw [EndsAt, delimits.getElem?_place within]
  cases rest with
  | nil => simp [delimits.ends]
  | cons t more => simp [delimits.inner t (within.subset List.mem_cons_self)]

/-- Whether a statement may begin behind a token hangs on that token and the next. -/
theorem Delimits.boundary_place_iff (delimits : Delimits all tokens last) {t : Token}
    {more : List Token} (within : t :: more <:+ tokens) :
    Boundary all (place tokens more) ↔
      more = [] ∨ (t.is .semicolon || more.head?.any (·.kind.startsStatement)) = true := by
  have within' : more <:+ tokens := (List.suffix_cons t more).trans within
  have before : all[place tokens more - 1]? = some t := by
    rw [place_tail within, Nat.add_sub_cancel, delimits.getElem?_place within]
    rfl
  rw [Boundary, delimits.endsAt_place_iff within', before, delimits.getElem?_place within']
  cases more <;> simp

/-- Recovery goes on at the first place beyond where a statement may begin. -/
theorem Delimits.recover_isLeast (delimits : Delimits all tokens last) (within : rest <:+ tokens)
    (some : rest ≠ []) :
    IsLeast {i | place tokens rest < i ∧ Boundary all i} (place tokens (recover rest)) := by
  induction rest with
  | nil => exact absurd rfl some
  | cons t more ih =>
      have within' : more <:+ tokens := (List.suffix_cons t more).trans within
      have next := place_tail within
      by_cases boundary : Boundary all (place tokens more)
      · have same : recover (t :: more) = more := by
          rw [recover]
          split
          · rfl
          · obtain rfl := ((delimits.boundary_place_iff within).1 boundary).resolve_right ‹_›
            rfl
        rw [same]
        exact ⟨⟨by omega, boundary⟩, fun i beyond => by have := beyond.1; omega⟩
      · have other := mt (delimits.boundary_place_iff within).2 boundary
        rw [not_or] at other
        rw [recover, if_neg other.2]
        obtain ⟨⟨beyond, found⟩, least⟩ := ih within' other.1
        refine ⟨⟨by omega, found⟩, ?_⟩
        rintro i ⟨beyond, found⟩
        refine least ⟨?_, found⟩
        have : i ≠ place tokens more := by
          rintro rfl
          exact boundary found
        omega

end Places

/-! ## Rounds -/

/-- One round of reading a program, with the indices of the tokens where it stood. -/
inductive Round where
  /-- The statement was read from `start` on, and reading goes on at `next`. -/
  | read (stmt : Stmt) (start next : Nat)
  /-- Of what begins at `start` the token at `blamed` is refused; reading stopped before the
  token at `stop` and goes on at `next`. -/
  | failed (problem : Problem) (start blamed stop next : Nat)

namespace Round

/-- The index where the round begins. -/
def start : Round → Nat
  | read _ start _ | failed _ start _ _ _ => start

/-- The index where the next round begins, if there is one. -/
def next : Round → Nat
  | read _ _ next | failed _ _ _ _ next => next

/-- The statement that was read. -/
def stmt? : Round → Option Stmt
  | read stmt _ _ => some stmt
  | failed .. => none

/-- The index that a fault is blamed on, and the problem. -/
def blame? : Round → Option (Nat × Problem)
  | read .. => none
  | failed problem _ blamed _ _ => some (blamed, problem)

/-- The round moves on.  A statement takes two tokens at least; a fault is blamed on a token
from where the round began up to where it stopped, and what is beyond is skipped up to the
first place where a statement may begin, unless the input ends there. -/
inductive Advances (all : List Token) : Round → Prop
  | read {stmt : Stmt} {start next : Nat} (two : start + 2 ≤ next) :
      Advances all (.read stmt start next)
  | failed {problem : Problem} {start blamed stop next : Nat} (begun : start ≤ blamed)
      (reached : blamed ≤ stop) (stays : EndsAt all stop → next = stop)
      (resumes : ¬ EndsAt all stop → IsLeast {i | stop < i ∧ Boundary all i} next) :
      Advances all (.failed problem start blamed stop next)

end Round

/-- Rounds from an index on: each moves on, the next begins where it says, and there is a next
one until the input ends. -/
inductive Proceeds (all : List Token) : Nat → List Round → Prop
  | done {i : Nat} (ends : EndsAt all i) : Proceeds all i []
  | round {i : Nat} {round : Round} {rounds : List Round} (more : ¬ EndsAt all i)
      (starts : round.start = i) (advances : round.Advances all)
      (others : Proceeds all round.next rounds) : Proceeds all i (round :: rounds)

theorem Round.Advances.start_lt_next {all : List Token} {round : Round}
    (advances : round.Advances all) (more : ¬ EndsAt all round.start) :
    round.start < round.next := by
  cases advances with
  | read two => exact Nat.lt_of_succ_lt two
  | @failed _ start blamed stop next begun reached stays resumes =>
      change start < next
      by_cases ends : EndsAt all stop
      · have : start ≠ stop := by
          rintro rfl
          exact more ends
        have := stays ends
        omega
      · have : stop < next := (resumes ends).1.1
        omega

/-- What is blamed lies before the next round, if there is one. -/
theorem Round.Advances.blamed_lt_next {all : List Token} {round : Round}
    (advances : round.Advances all) {blame : Nat × Problem} (blames : round.blame? = some blame)
    (more : ¬ EndsAt all round.next) : blame.1 < round.next := by
  cases advances with
  | read => cases blames
  | @failed _ start blamed stop next begun reached stays resumes =>
      cases blames
      change blamed < next
      by_cases ends : EndsAt all stop
      · exact absurd (stays ends ▸ ends) more
      · have : stop < next := (resumes ends).1.1
        omega

theorem Round.Advances.start_le_blamed {all : List Token} {round : Round}
    (advances : round.Advances all) {blame : Nat × Problem} (blames : round.blame? = some blame) :
    round.start ≤ blame.1 := by
  cases advances with
  | read => cases blames
  | failed begun =>
      cases blames
      exact begun

namespace Proceeds

variable {all : List Token} {i : Nat} {rounds : List Round}

/-- There are no more rounds than tokens before the end of the input. -/
theorem add_length_lt (proceeds : Proceeds all i rounds) : i + rounds.length < all.length := by
  induction proceeds with
  | done ends =>
      obtain ⟨t, found, -⟩ := ends
      exact (List.getElem?_eq_some_iff.1 found).1
  | round more starts advances others ih =>
      subst starts
      have := advances.start_lt_next more
      rw [List.length_cons]
      omega

theorem le_blamed (proceeds : Proceeds all i rounds) :
    ∀ blame ∈ rounds.filterMap Round.blame?, i ≤ blame.1 := by
  induction proceeds with
  | done => simp
  | @round i round rounds more starts advances others ih =>
      intro blame member
      subst starts
      obtain ⟨round', among, blames⟩ := List.mem_filterMap.1 member
      rcases List.mem_cons.1 among with rfl | later
      · exact advances.start_le_blamed blames
      · have := ih blame (List.mem_filterMap.2 ⟨round', later, blames⟩)
        have := advances.start_lt_next more
        omega

/-- The blame moves on down the tokens. -/
theorem pairwise_blamed (proceeds : Proceeds all i rounds) :
    (rounds.filterMap Round.blame?).Pairwise fun a b => a.1 < b.1 := by
  induction proceeds with
  | done => exact .nil
  | @round i round rounds more starts advances others ih =>
      rw [List.filterMap_cons]
      cases blames : round.blame? with
      | none => exact ih
      | some blame =>
          refine .cons (fun later member => ?_) ih
          have := others.le_blamed later member
          -- Another fault means that another round begins, so the input goes on.
          cases others with
          | done => cases member
          | round more' => exact Nat.lt_of_lt_of_le (advances.blamed_lt_next blames more') this

end Proceeds

/-! ## The rounds of a program -/

/-- What is said of the token that a fault is blamed on. -/
def diagnosis? (all : List Token) (blame : Nat × Problem) : Option Diagnostic :=
  all[blame.1]?.map (·.diagnose blame.2.message)

/-- The rounds that read what is left of the tokens. -/
inductive Rounds (bound : Nat) (tokens : List Token) : List Token → List Round → Prop
  | nil : Rounds bound tokens [] []
  | read {now rest : List Token} {stmt : Stmt} {rounds : List Round}
      (came : outcome (statement bound now) = .ok (stmt, rest))
      (others : Rounds bound tokens rest rounds) :
      Rounds bound tokens now (.read stmt (place tokens now) (place tokens rest) :: rounds)
  | failed {now : List Token} {refusal : Refusal} {rounds : List Round} (more : now ≠ [])
      (came : outcome (statement bound now) = .error refusal)
      (others : Rounds bound tokens (recover refusal.stop) rounds) :
      Rounds bound tokens now
        (.failed refusal.problem (place tokens now) (place tokens refusal.site)
            (place tokens refusal.stop) (place tokens (recover refusal.stop)) :: rounds)

/-- A statement takes two tokens at least. -/
theorem length_add_two_le_of_statement {bound : Nat} {tokens rest : List Token} {stmt : Stmt}
    (came : outcome (statement bound tokens) = .ok (stmt, rest)) :
    rest.length + 2 ≤ tokens.length := by
  obtain ⟨read, rfl, sentence⟩ := outcome_statement_eq_ok_iff.1 came
  have two : 2 ≤ read.length := by
    cases sentence.yields with
    | print => simp
    | expression yields =>
        have := List.length_pos_iff.2 yields.ne_nil
        simp
        omega
  rw [List.length_append]
  omega

section Rounds

variable {bound : Nat} {tokens now : List Token}

theorem exists_rounds (bound : Nat) (tokens now : List Token) :
    ∃ rounds, Rounds bound tokens now rounds := by
  induction now using attempts_induction bound with
  | nil => exact ⟨[], .nil⟩
  | ok came _ ih =>
      obtain ⟨rounds, others⟩ := ih
      exact ⟨_, .read came others⟩
  | error more came _ ih =>
      obtain ⟨rounds, others⟩ := ih
      exact ⟨_, .failed more came others⟩

/-- There is one way to read what is left. -/
theorem Rounds.unique {rounds other : List Round} (front : Rounds bound tokens now rounds)
    (front' : Rounds bound tokens now other) : other = rounds := by
  induction front generalizing other with
  | nil =>
      cases front' with
      | nil => rfl
      | read came => exact absurd rfl (ne_nil_of_outcome came)
      | failed more => exact absurd rfl more
  | read came others ih =>
      cases front' with
      | nil => exact absurd rfl (ne_nil_of_outcome came)
      | read came' others' =>
          cases came.symm.trans came'
          rw [ih others']
      | failed more came' => cases came.symm.trans came'
  | failed more came others ih =>
      cases front' with
      | nil => exact absurd rfl more
      | read came' => cases came.symm.trans came'
      | failed more' came' others' =>
          cases came.symm.trans came'
          rw [ih others']

variable {all : List Token} {last : Token} {rounds : List Round}

/-- The rounds that read a program go on down its tokens. -/
theorem Rounds.proceeds (front : Rounds bound tokens now rounds)
    (delimits : Delimits all tokens last) (within : now <:+ tokens) :
    Proceeds all (place tokens now) rounds := by
  induction front with
  | nil => exact .done ((delimits.endsAt_place_iff within).2 rfl)
  | @read now rest stmt rounds came others ih =>
      have suffix := (suffix_of_outcome came).1
      have more := ne_nil_of_outcome came
      refine .round (mt (delimits.endsAt_place_iff within).1 more) rfl ?_ (ih (suffix.trans within))
      exact .read (place_add_le within (length_add_two_le_of_statement came))
  | @failed now refusal rounds more came others ih =>
      obtain ⟨stop_site, site_now⟩ := suffix_of_refusal came
      have site := site_now.trans within
      have stop := stop_site.trans site
      refine .round (mt (delimits.endsAt_place_iff within).1 more) rfl ?_
        (ih (recover_suffix stop))
      refine .failed (place_mono site_now) (place_mono stop_site) (fun ends => ?_) fun goesOn => ?_
      · rw [(delimits.endsAt_place_iff stop).1 ends]
        rfl
      · exact delimits.recover_isLeast stop (mt (delimits.endsAt_place_iff stop).2 goesOn)

/-- The statements of the rounds are those that were read. -/
theorem Rounds.filterMap_stmt? (front : Rounds bound tokens now rounds) :
    (attempts bound now).filterMap Attempt.stmt? = rounds.filterMap Round.stmt? := by
  induction front with
  | nil =>
      rw [attempts_nil]
      rfl
  | read came others ih =>
      rw [attempts_of_ok came, List.filterMap_cons, List.filterMap_cons, ih]
      rfl
  | failed more came others ih =>
      rw [attempts_of_error more came, List.filterMap_cons, List.filterMap_cons, ih]
      rfl

/-- What is reported is said, fault by fault, of the token that is blamed. -/
theorem Rounds.map_some_complaints (front : Rounds bound tokens now rounds) {p : Parser}
    (delimits : Delimits all tokens p.last) (within : now <:+ tokens) :
    ((attempts bound now).filterMap p.complaint?).map some =
      (rounds.filterMap Round.blame?).map (diagnosis? all) := by
  induction front with
  | nil =>
      rw [attempts_nil]
      rfl
  | read came others ih =>
      rw [attempts_of_ok came]
      exact ih ((suffix_of_outcome came).1.trans within)
  | @failed now refusal rounds more came others ih =>
      obtain ⟨stop_site, site_now⟩ := suffix_of_refusal came
      have site := site_now.trans within
      have complaint : p.complaint? (.failed refusal.problem refusal.site) =
          some ((refusal.site.head?.getD p.last).diagnose refusal.problem.message) :=
        rfl
      have said : diagnosis? all (place tokens refusal.site, refusal.problem) =
          some ((refusal.site.head?.getD p.last).diagnose refusal.problem.message) := by
        rw [diagnosis?, delimits.getElem?_place site]
        rfl
      rw [attempts_of_error more came, List.filterMap_cons_some complaint, List.map_cons,
        ih (recover_suffix (stop_site.trans site)), ← said]
      rfl

end Rounds

end Parse

namespace Parser

open Parse

/-- The tokens as a parser keeps them: with an end of the input behind them, if the last does
not stand for it. -/
def completed (tokens : List Token) : List Token :=
  if tokens.getLast?.any Token.isEof then tokens
  else tokens ++ [.eof ((tokens.getLast?.map Token.line).getD 1)]

/-- A parser has the tokens before the end of the input ahead. -/
theorem delimits_completed (tokens : List Token) (bound : Nat) :
    Delimits (completed tokens) (ofTokens tokens bound).ahead (ofTokens tokens bound).last := by
  cases found : tokens.find? Token.isEof with
  | none =>
      have inner : ∀ t ∈ tokens, t.isEof = false := by simpa using found
      have lacks : ¬ tokens.getLast?.any Token.isEof = true := by
        intro ends
        obtain ⟨t, last, eof⟩ := (Option.any_eq_true ..).1 ends
        cases (inner t (List.mem_of_getLast? last)).symm.trans eof
      have ahead : (ofTokens tokens bound).ahead = tokens := ahead_ofTokens bound inner
      refine ⟨⟨[], ?_⟩, ?_, ?_⟩
      · rw [completed, if_neg lacks, ahead, ofTokens, endOf, found]
      · rwa [ahead]
      · rw [ofTokens, endOf, found]
        rfl
  | some t =>
      obtain ⟨ends, front, behind, rfl, inner⟩ := List.find?_eq_some_iff_append.1 found
      replace inner : ∀ t ∈ front, t.isEof = false := by simpa using inner
      have ahead : (ofTokens (front ++ t :: behind) bound).ahead = front := by
        rw [ahead_ofTokens_append _ bound inner]
        simp [ofTokens, ends]
      have last : (ofTokens (front ++ t :: behind) bound).last = t := by
        rw [ofTokens, endOf, found]
      refine ⟨?_, by rwa [ahead], by rwa [last]⟩
      rw [completed, ahead, last]
      split
      · exact ⟨behind, rfl⟩
      · exact ⟨_, List.append_assoc front (t :: behind) _⟩

theorem completed_ofText (text : String) :
    completed (Scan.ofText text).tokens = (Scan.ofText text).tokens :=
  if_pos (by simp [Scan.ofText, Token.isEof, Token.eof])

/-- Where the tokens go down the lines, what is blamed one token after the other is reported
line after line. -/
theorem pairwise_line_of_blames {all : List Token}
    (lines : all.Pairwise fun t u => t.line ≤ u.line) {blames : List (Nat × Problem)}
    (moves : blames.Pairwise fun a b => a.1 < b.1) {reported : List Diagnostic}
    (said : reported.map some = blames.map (diagnosis? all)) :
    reported.Pairwise fun d e => d.line ≤ e.line := by
  have ordered : (blames.map (diagnosis? all)).Pairwise fun x y =>
      ∀ d ∈ x, ∀ e ∈ y, d.line ≤ e.line := by
    refine List.pairwise_map.2 (moves.imp fun {a b} before => ?_)
    rintro d found e found'
    obtain ⟨t, here, rfl⟩ := Option.map_eq_some_iff.1 found
    obtain ⟨u, there, rfl⟩ := Option.map_eq_some_iff.1 found'
    obtain ⟨inside, rfl⟩ := List.getElem?_eq_some_iff.1 here
    obtain ⟨inside', rfl⟩ := List.getElem?_eq_some_iff.1 there
    exact List.pairwise_iff_getElem.1 lines _ _ inside inside' before
  rw [← said] at ordered
  simpa [List.pairwise_map] using ordered

/-- **Reading a program goes on and blames no token twice.**  The tokens are read in rounds,
which go on down them from the first to where the input ends.  A statement takes two tokens at
least; a fault is blamed on a token from where its round began up to where reading stopped, and
beyond that reading goes on at the first place where a statement may begin.  So there are no
more rounds than tokens; what is reported are the faults of the rounds, one by one and each at
the token that is blamed; the blame moves on down the tokens; and where these were scanned from
a text, it moves on down the lines. -/
theorem program_proceeds (tokens : List Token) (bound : Nat) :
    let p := ofTokens tokens bound
    let all := completed tokens
    ∃ rounds, (∀ other, Rounds bound p.ahead p.ahead other ↔ other = rounds) ∧
      Proceeds all 0 rounds ∧ rounds.length ≤ tokens.length ∧
      p.program.1 = rounds.filterMap Round.stmt? ∧
      p.program.2.reported.length = (rounds.filterMap Round.blame?).length ∧
      p.program.2.reported.map some = (rounds.filterMap Round.blame?).map (diagnosis? all) ∧
      ((rounds.filterMap Round.blame?).Pairwise fun a b => a.1 < b.1) ∧
      ∀ text, tokens = (Scan.ofText text).tokens →
        p.program.2.reported.Pairwise fun d e => d.line ≤ e.line := by
  intro p all
  obtain ⟨rounds, front⟩ := exists_rounds bound p.ahead p.ahead
  have delimits : Delimits all p.ahead p.last := delimits_completed tokens bound
  have proceeds : Proceeds all 0 rounds := by
    simpa [place] using front.proceeds delimits List.suffix_rfl
  have reported : p.program.2.reported = (attempts bound p.ahead).filterMap p.complaint? := by
    rw [program_eq]
    rfl
  have said := front.map_some_complaints delimits List.suffix_rfl
  rw [← reported] at said
  have few : rounds.length ≤ tokens.length := by
    have := proceeds.add_length_lt
    have : all.length ≤ tokens.length + 1 := by
      show (completed tokens).length ≤ _
      unfold completed
      split <;> simp
    omega
  refine ⟨rounds, fun other => ⟨front.unique, fun same => same ▸ front⟩, proceeds, few, ?_, ?_,
    said, proceeds.pairwise_blamed, ?_⟩
  · rw [program_eq]
    exact front.filterMap_stmt?
  · simpa using congrArg List.length said
  · rintro text rfl
    have lines : all.Pairwise fun t u => t.line ≤ u.line := by
      rw [show all = (Scan.ofText text).tokens from completed_ofText text]
      exact Scan.pairwise_line_ofText text
    exact pairwise_line_of_blames lines proceeds.pairwise_blamed said

/-- A sum that is too high for one level, and then a parenthesis that nothing opened in front
of a statement. -/
def steepSum : List Token :=
  [.fixed (.keyword .nilWord) 1, .fixed (.symbol .plus) 1, .fixed (.keyword .nilWord) 1,
    .fixed (.symbol .semicolon) 1, .fixed (.symbol .rightParen) 2,
    .fixed (.keyword .printWord) 2, .fixed (.keyword .nilWord) 2, .fixed (.symbol .semicolon) 2,
    .eof 2]

/-- The sum is blamed on its operator, though reading went on past that. -/
theorem program_proceeds_steepSum :
    steepSum = (Scan.ofText "nil + nil;\n) print nil;").tokens ∧
      Proceeds (completed steepSum) 0
        [.failed .tooDeep 0 1 3 4, .failed .expressionExpected 4 4 4 5,
          .read (.print (.literal .nil)) 5 8] ∧
      (ofTokens steepSum 1).program.1 = [.print (.literal .nil)] ∧
      (ofTokens steepSum 1).program.2.reported.map some =
        [diagnosis? steepSum (1, .tooDeep), diagnosis? steepSum (4, .expressionExpected)] ∧
      (ofTokens steepSum 1).program.2.reported.Pairwise fun d e => d.line ≤ e.line := by
  obtain ⟨rounds, only, proceeds, -, read, -, said, -, lines⟩ := program_proceeds steepSum 1
  have scanned : steepSum = (Scan.ofText "nil + nil;\n) print nil;").tokens := by cbv
  let ahead := steepSum.dropLast
  have sum : outcome (statement 1 ahead) =
      .error ⟨.tooDeep, ahead.drop 1, ahead.drop 3⟩ := by cbv
  have paren : outcome (statement 1 (ahead.drop 4)) =
      .error ⟨.expressionExpected, ahead.drop 4, ahead.drop 4⟩ := by cbv
  have print : outcome (statement 1 (ahead.drop 5)) = .ok (.print (.literal .nil), []) := by cbv
  have front : Rounds 1 ahead ahead
      [.failed .tooDeep 0 1 3 4, .failed .expressionExpected 4 4 4 5,
        .read (.print (.literal .nil)) 5 8] :=
    .failed (List.cons_ne_nil _ _) sum (.failed (List.cons_ne_nil _ _) paren (.read print .nil))
  obtain rfl := (only _).1 front
  exact ⟨scanned, proceeds, read, said, lines _ scanned⟩

end Parser

end Lox
