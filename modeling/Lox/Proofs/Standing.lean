/-
# Lox.Proofs.Standing -- where a parser stands after any calls

A program is read by index in a loop, and where a statement is rejected, in another that skips
tokens: it looks at the current one and at the one before it, so that much more of the tokens has
to be there.  It is, and both loops come to an end.  So a parser can be called again and again,
whatever comes of it: it stays among its tokens, goes on and never back, and is inside of no
expression when a call is over.

* `Parser.Answer`, `Parser.answer` -- what comes of a call.
* `Cursor.program`, `Cursor.call`, `Cursor.afterAll` -- programs and calls by index.
* `Cursor.skip_tracks`, `Cursor.statements_tracks` -- the loops come to what the parser does.
* `Cursor.afterAll_inside` -- parsers after any calls.
-/
import Lox.Proofs.Cursor

namespace Lox

set_option autoImplicit false

namespace Parser

/-- What a parser answers to a call. -/
inductive Answer where
  | program (came : Except Rejection (List Stmt))
  | stmt (came : Except Rejection Stmt)
  | expr (came : Except Rejection Expr)
  | tree (came : Option Expr)

/-- The answer to a call.  There always is a program. -/
def answer (p : Parser) : Call → Answer
  | .program => .program (.ok p.program.1)
  | .stmt => .stmt p.stmt.1
  | .expr => .expr p.expr.1
  | .expression => .tree p.expression?.1
  | .prefixNotation => .tree p.prefixExpr?.1

section Progress

variable {p q : Parser}

theorem length_ahead_of_stmt_ok {stmt : Stmt} (read : p.stmt = (.ok stmt, q)) :
    q.ahead.length < p.ahead.length := by
  obtain ⟨rest, done, rfl⟩ := read_eq_ok_iff.1 read
  exact (Parse.suffix_of_outcome done).2

theorem length_recover_of_stmt_error {rejection : Rejection} (some : p.ahead ≠ [])
    (read : p.stmt = (.error rejection, q)) :
    (Parse.recover q.ahead).length < p.ahead.length := by
  obtain ⟨refusal, refused, -, rfl⟩ := read_eq_error_iff.1 read
  obtain ⟨stop, site⟩ := Parse.suffix_of_refusal refused
  exact Parse.length_recover_lt (stop.trans site) some

end Progress

/-- The tokens as a parser keeps them end with one that stands for the end of the input. -/
theorem getLast?_completed (tokens : List Token) :
    ∃ t ∈ (completed tokens).getLast?, t.isEof = true := by
  unfold completed
  split
  · rename_i ends
    exact (Option.any_eq_true ..).1 ends
  · exact ⟨_, List.getLast?_concat, rfl⟩

end Parser

namespace Cursor

open Lox.Parser (Call Answer completed)

variable {α : Type}

/-! ## Programs -/

/-- The token before the current one, or this one where there is none before. -/
def previous : Action Token := tokenAt fun c => c.now.index - 1

/-- Goes on to just after a semicolon or just before a word that starts a statement, in at most
`rounds` turns. -/
def skip : Nat → Action Unit
  | 0 => stop
  | rounds + 1 => do
    let t ← peek
    if t.isEof then pure ()
    else
      let before ← previous
      if before.is .semicolon || t.kind.startsStatement then pure ()
      else
        let _ ← next
        skip rounds

/-- Past the current token, and on to where a statement may begin. -/
def synchronize : Action Unit := do
  let _ ← next
  fun c => skip c.tokens.length c

/-- Does something, and takes a rejection as its outcome. -/
def attempt (action : Action α) : Action (Except Rejection α) := fun c =>
  (action c).map fun (came, c) => (.ok came, c)

/-- Statements to the end of the input, without those that are rejected; there are at most
`rounds` turns. -/
def statements (bound : Nat) : Nat → Action (List Stmt)
  | 0 => stop
  | rounds + 1 => do
    let t ← peek
    if t.isEof then pure []
    else
      let came ← attempt (statement bound)
      match came with
      | .ok stmt =>
        let stmts ← statements bound rounds
        pure (stmt :: stmts)
      | .error _ =>
        let _ ← synchronize
        statements bound rounds

/-- A program. -/
def program (bound : Nat) : Action (List Stmt) := fun c =>
  statements bound c.tokens.length c

/-! ## Calls -/

/-- A parser at the start of its tokens. -/
def ofTokens (tokens : List Token) (reported : List Diagnostic) : Cursor where
  tokens := completed tokens
  reported

/-- The answer to a call, and the parser afterwards. -/
def call (bound : Nat) (c : Cursor) : Call → Option (Answer × Cursor)
  | .program => (program bound c).map (Prod.map .program id)
  | .stmt => (statement bound c).map (Prod.map .stmt id)
  | .expr => (expression bound c).map (Prod.map .expr id)
  | .expression => (expression bound c).map (Prod.map (fun came => .tree came.toOption) id)
  | .prefixNotation =>
    (prefixExpression bound c).map (Prod.map (fun came => .tree came.toOption) id)

/-- The parser after calls, the first of them first. -/
def afterAll (bound : Nat) (c : Cursor) (calls : List Call) : Option Cursor :=
  calls.foldlM (fun c call => (c.call bound call).map Prod.snd) c

section Programs

variable {all : List Token} {p : Parser} {c : Cursor} (delimits : Parse.Delimits all p.ahead p.last)

include delimits

theorem Sound.length_ahead_lt (sound : c.Sound all p.bound) :
    (c.seen p).ahead.length < c.tokens.length := by
  obtain ⟨behind, split⟩ := delimits.split
  rw [sound.tokens, split, List.length_append, List.length_cons, seen, List.length_drop]
  omega

/-- Recovery by index: what is looked at is the current token and the one before it. -/
theorem skip_tracks (sound : c.Sound all p.bound) {t : Token}
    (before : (c.seen p).ahead ≠ [] → c.tokens[c.now.index - 1]? = some t) {rounds : Nat}
    (enough : (c.seen p).ahead.length < rounds) :
    Tracks all p c (skip rounds c)
      (.ok (), (c.seen p).before (Parse.recover (t :: (c.seen p).ahead))) := by
  induction rounds generalizing c t with
  | zero => cases enough
  | succ rounds ih =>
      rw [skip, sound.peek_bind delimits, isEof_current delimits]
      cases left : (c.seen p).ahead with
      | nil =>
          have same : (c.seen p).before (Parse.recover [t]) = c.seen p := by
            simp [Parse.recover, Descent.before, ← left]
          rw [same]
          exact pure_follows () sound rfl
      | cons u rest =>
          have stands : (c.seen p).current = u := by simp [Descent.current, left]
          have looks (k : Token → Action Unit) : (previous >>= k) c = k t c := by
            rw [bind_apply, previous, tokenAt, before (by simp [left])]
            rfl
          rw [stands, List.isEmpty_cons, if_neg (by decide), looks, Parse.recover,
            List.head?_cons, Option.any_some]
          split
          · have same : (c.seen p).before (u :: rest) = c.seen p := by
              rw [Descent.before, ← left]
            rw [same]
            exact pure_follows () sound rfl
          · -- The token that is skipped is the one before the current in the next turn.
            obtain ⟨c', taken, same, leads, before'⟩ := sound.exists_next delimits
            have ahead' : (c'.seen p).ahead = rest := by
              rw [same, Descent.advance, left, List.tail_cons]
            have fewer : (c'.seen p).ahead.length < rounds := by
              rw [left] at enough
              rw [ahead']
              exact Nat.lt_of_succ_lt_succ enough
            have onward := ih leads.sound (fun _ => before' (by simp [left])) fewer
            rw [ahead', stands, same] at onward
            rw [bind_apply, taken]
            exact onward.of_leads leads

/-- Past the current token, what is skipped by index is what recovery skips. -/
theorem synchronize_tracks (sound : c.Sound all p.bound) :
    Tracks all p c (synchronize c)
      (.ok (), (c.seen p).before (Parse.recover (c.seen p).ahead)) := by
  obtain ⟨c', taken, same, leads, before⟩ := sound.exists_next delimits
  have ahead' : (c'.seen p).ahead = (c.seen p).ahead.tail := by rw [same, Descent.advance]
  have more : (c'.seen p).ahead ≠ [] → (c.seen p).ahead ≠ [] := by
    rw [ahead']
    exact mt fun none => by rw [none, List.tail_nil]
  have recovers : Parse.recover ((c.seen p).current :: (c'.seen p).ahead) =
      Parse.recover (c.seen p).ahead := by
    rw [ahead']
    cases left : (c.seen p).ahead with
    | nil => simp [Parse.recover]
    | cons t rest => simp [Descent.current, left]
  have onward := skip_tracks delimits leads.sound (before ∘ more)
    (leads.sound.length_ahead_lt delimits)
  rw [recovers, same] at onward
  rw [synchronize, bind_apply, taken]
  exact onward.of_leads leads

/-- A program by index comes to an end: the statements are those of the parser, and it is where the
input ends. -/
theorem statements_tracks (sound : c.Sound all p.bound) (outside : c.now.depth = 0) {rounds : Nat}
    (enough : (c.seen p).ahead.length < rounds) :
    Tracks all p c (statements p.bound rounds c)
      (.ok (c.seen p).program.1, ⟨(c.seen p).program.2, 0⟩) := by
  induction rounds generalizing c with
  | zero => cases enough
  | succ rounds ih =>
      have ends : (c.seen p).last.kind = .eof := delimits.kind_last
      rw [statements, sound.peek_bind delimits, isEof_current delimits]
      split
      · rename_i none
        rw [Parser.program_of_ahead_nil (List.isEmpty_iff.1 none)]
        refine ⟨c, rfl, ?_, .refl sound⟩
        rw [← outside]
        rfl
      · rename_i more
        -- Whichever way the statement goes, fewer tokens are ahead than there are turns left.
        obtain ⟨c', came, same, leads⟩ :=
          (statement_follows delimits).read sound outside (Descent.statement_mk ends)
        have outside' := leads.depth.trans outside
        have tried : attempt (statement p.bound) c = some (.ok (c.seen p).stmt.1, c') := by
          rw [attempt, came]
          rfl
        rw [bind_apply, tried]
        cases read : (c.seen p).stmt with
        | mk answer q =>
            rw [read] at same
            cases answer with
            | ok stmt =>
                have shorter : (c'.seen p).ahead.length < rounds := by
                  rw [same]
                  exact (Parser.length_ahead_of_stmt_ok read).trans_le (Nat.le_of_lt_succ enough)
                obtain ⟨c'', others, same', leads'⟩ := ih leads.sound outside' shorter
                rw [same] at others same'
                dsimp only
                rw [Parser.program_of_stmt_ok read, bind_apply, others]
                exact ⟨c'', rfl, same', leads.trans leads'⟩
            | error rejection =>
                have some := mt List.isEmpty_iff.2 more
                obtain ⟨c'', skipped, same', leads'⟩ := synchronize_tracks delimits leads.sound
                rw [same] at same'
                have shorter : (c''.seen p).ahead.length < rounds := by
                  rw [same']
                  exact (Parser.length_recover_of_stmt_error some read).trans_le
                    (Nat.le_of_lt_succ enough)
                have onward := ih leads'.sound (leads'.depth.trans outside') shorter
                rw [same'] at onward
                dsimp only
                rw [Parser.program_of_stmt_error some read, bind_apply, skipped]
                exact onward.of_leads (leads.trans leads')

/-- Each call by index gives the parser's answer, and its course is in order. -/
theorem Sound.exists_call (sound : c.Sound all p.bound) (outside : c.now.depth = 0)
    (asked : Call) :
    ∃ c', c.call p.bound asked = some ((c.seen p).answer asked, c') ∧
      c'.seen p = ⟨(c.seen p).toParser.after asked, 0⟩ ∧ c.Leads all p.bound c' := by
  have ends : (c.seen p).last.kind = .eof := delimits.kind_last
  have expr := (expression_follows delimits).read sound outside (Descent.expression_mk ends)
  cases asked with
  | program =>
      obtain ⟨c', came, same, leads⟩ :=
        statements_tracks delimits sound outside (sound.length_ahead_lt delimits)
      exact ⟨c', by rw [call, program, came]; rfl, same, leads⟩
  | stmt =>
      obtain ⟨c', came, same, leads⟩ :=
        (statement_follows delimits).read sound outside (Descent.statement_mk ends)
      exact ⟨c', by rw [call, came]; rfl, same, leads⟩
  | expr | expression =>
      obtain ⟨c', came, same, leads⟩ := expr
      exact ⟨c', by rw [call, came]; rfl, same, leads⟩
  | prefixNotation =>
      obtain ⟨c', came, same, leads⟩ :=
        (prefixExpression_follows delimits).read sound outside (Descent.prefixExpression_mk ends)
      exact ⟨c', by rw [call, came]; rfl, same, leads⟩

theorem Sound.exists_afterAll (sound : c.Sound all p.bound) (outside : c.now.depth = 0)
    (calls : List Call) :
    ∃ c', c.afterAll p.bound calls = some c' ∧
      c'.seen p = ⟨(c.seen p).toParser.afterAll calls, 0⟩ ∧ c.Leads all p.bound c' := by
  induction calls generalizing c with
  | nil =>
      refine ⟨c, rfl, ?_, .refl sound⟩
      rw [← outside]
      rfl
  | cons asked calls ih =>
      obtain ⟨c', came, same, leads⟩ := sound.exists_call delimits outside asked
      obtain ⟨c'', others, same', leads'⟩ := ih leads.sound (leads.depth.trans outside)
      refine ⟨c'', ?_, ?_, leads.trans leads'⟩
      · rw [afterAll, List.foldlM_cons, came]
        exact others
      · rw [same', same]
        rfl

end Programs

/-- At the end of the input a course goes on to no other index. -/
theorem Leads.eq_of_endsAt {all : List Token} {bound : Nat} {c c' : Cursor}
    (leads : c.Leads all bound c') (ends : Parse.EndsAt all c.now.index) : c'.now = c.now := by
  obtain ⟨t, found, eof⟩ := ends
  obtain ⟨inside, rfl⟩ := List.getElem?_eq_some_iff.1 found
  have first : all.findIdx Token.isEof ≤ c.now.index := by
    by_contra before
    have other := List.not_of_lt_findIdx (Nat.lt_of_not_le before)
    cases other.symm.trans eof
  have index : c'.now.index = c.now.index :=
    Nat.le_antisymm (leads.sound.now.1.trans first) leads.index_le
  exact congrArg₂ Moment.mk index leads.depth

theorem sound_ofTokens (tokens : List Token) (bound : Nat) (reported : List Diagnostic) :
    (ofTokens tokens reported).Sound (completed tokens) bound where
  tokens := rfl
  within := List.forall_mem_singleton.2 ⟨Nat.zero_le _, Nat.zero_le _⟩
  onward := List.pairwise_singleton ..

/-- **A parser stays among its tokens and within its bound.**  This is a parser by index over any
tokens and with any bound, after any calls, whatever came of them.  All of them came to an end and
looked only at tokens that there are, of which the last stands for the end of the input and which
are what they were.  No moment of the parser has been beyond the first token that stands for the
end of the input, none has been before an earlier one, none inside of more expressions than the
bound, and now it is inside of none.  So it will be after a next call, which leaves it where it is
if the input ends there.  The answers are those of the parser that has ahead what is left. -/
theorem afterAll_inside (tokens : List Token) (bound : Nat) (earlier : List Diagnostic)
    (calls : List Call) :
    let all := completed tokens
    let start : Parser := { Parser.ofTokens tokens bound with reported := earlier }
    let q := start.afterAll calls
    (∃ t ∈ all.getLast?, t.isEof = true) ∧
      ∃ c, (ofTokens tokens earlier).afterAll bound calls = some c ∧
        c.Sound all bound ∧ c.now.depth = 0 ∧
        q = { start with ahead := start.ahead.drop c.now.index, reported := c.reported } ∧
        ∀ asked, ∃ c', c.call bound asked = some (q.answer asked, c') ∧
          c'.Sound all bound ∧ c'.now.depth = 0 ∧ c.moments <:+ c'.moments ∧
          (Parse.EndsAt all c.now.index → c'.now = c.now) := by
  intro all start q
  have delimits : Parse.Delimits all start.ahead start.last :=
    Parser.delimits_completed tokens bound
  have sound : (ofTokens tokens earlier).Sound all start.bound :=
    sound_ofTokens tokens bound earlier
  obtain ⟨c, came, same, leads⟩ := sound.exists_afterAll delimits rfl calls
  have now : q = (c.seen start).toParser := (congrArg Descent.toParser same).symm
  refine ⟨Parser.getLast?_completed tokens, c, came, leads.sound, leads.depth, now, ?_⟩
  intro asked
  obtain ⟨c', answered, -, leads'⟩ := leads.sound.exists_call delimits leads.depth asked
  rw [now]
  exact ⟨c', answered, leads'.sound, leads'.depth.trans leads.depth, leads'.history,
    leads'.eq_of_endsAt⟩

/-- An expression, and then one that fails where the input ends, with a token behind that: the
index stays at the end, and each time the one level that there is gets entered and left. -/
example :
    ((ofTokens [.fixed (.keyword .nilWord) 1, .eof 1, .fixed (.keyword .nilWord) 2] []).afterAll 1
        [.expr, .expr]).map moments =
      some [⟨1, 0⟩, ⟨1, 1⟩, ⟨1, 0⟩, ⟨1, 1⟩, ⟨0, 1⟩, ⟨0, 0⟩] := by
  cbv

end Cursor

end Lox
