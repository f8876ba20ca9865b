/-
# Lox.Proofs.Recognition -- reading an expression recognizes the grammar

What reading an expression accepts is exactly the grammar, and the tree it builds is the one
that the grammar gives the tokens:

* `operandWithin_sound` and `levels_sound` -- what is read is canonical, is no higher than
  the bound, and is written by the tokens consumed.
* `operandWithin_complete` and `levels_complete` -- a canonical tree for which there is room
  is read from the tokens that write it, whatever comes after them, as long as the next
  token is no operator that would bind on.
* `Canonical.eq_of_yields` -- tokens write at most one canonical tree.

Both directions go by the rank of what is read: a level keeps its operands one rank tighter
than its nodes.
-/
import Lox.Proofs.Grammar
import Lox.Proofs.Outcome

namespace Lox.Parse

set_option autoImplicit false

/-- The next token, if there is one, is no operator of this rank or a tighter one. -/
def Free (rank : Nat) (tokens : List Token) : Prop :=
  ∀ op ∈ tokens.head?, ∀ level, op.level? = some level → level.rank < rank

theorem Free.mono {a b : Nat} {tokens : List Token} (le : a ≤ b) (free : Free a tokens) :
    Free b tokens :=
  fun op next level found => Nat.lt_of_lt_of_le (free op next level found) le

theorem free_cons {rank : Nat} {t : Token} (rest : List Token)
    (looser : ∀ level, t.level? = some level → level.rank < rank) : Free rank (t :: rest) := by
  intro op next
  cases next
  exact looser

theorem free_four (tokens : List Token) : Free 4 tokens :=
  fun _ _ level _ => level.rank_lt

/-- Where a level is looser than all that follows it is free of its operators. -/
theorem Free.level?_ne {level : Level} {tokens : List Token} (free : Free level.rank tokens) :
    ∀ op ∈ tokens.head?, op.level? ≠ some level :=
  fun op next found => Nat.lt_irrefl _ (free op next level found)

theorem Free.tighten {level : Level} {tokens : List Token} (free : Free (level.rank + 1) tokens)
    (other : ∀ op ∈ tokens.head?, op.level? ≠ some level) : Free level.rank tokens := by
  intro op next level' found
  have ne : level'.rank ≠ level.rank := by
    intro same
    exact other op next (Level.rank_inj same ▸ found)
  have := free op next level' found
  omega

/-! ## What is read is canonical -/

/-- A tree read from the front of `tokens` that leaves `rest`: its root binds as tightly as
`rank` at least, and no operator of rank `follow` or tighter comes next. -/
structure Accepted (bound rank follow : Nat) (tokens : List Token) (e : Expr)
    (rest : List Token) : Prop where
  canonical : e.Canonical
  tight : rank ≤ e.rank
  low : e.height ≤ bound
  yields : ∃ read, tokens = read ++ rest ∧ e.Yields read
  free : Free follow rest

/-- A reader of trees of a rank reads accepted ones only. -/
def Sound (bound rank : Nat) (reader : Reader Expr) : Prop :=
  ∀ {tokens e rest}, outcome (reader tokens) = .ok (e, rest) →
    Accepted bound rank rank tokens e rest

section Soundness

variable {bound : Nat} {level : Level} {reader : Reader Expr}

/-- One fold keeps the left operand accepted. -/
theorem Accepted.fold {tokens rest beyond : List Token} {op : Token} {left right : Expr}
    (leftAccepted : Accepted bound level.rank (level.rank + 1) tokens left (op :: rest))
    (found : op.level? = some level)
    (rightAccepted : Accepted bound (level.rank + 1) (level.rank + 1) rest right beyond)
    (low : (Expr.binary op left right).height ≤ bound) :
    Accepted bound level.rank (level.rank + 1) tokens (.binary op left right) beyond where
  canonical := ⟨level, found, leftAccepted.tight, rightAccepted.tight, leftAccepted.canonical,
    rightAccepted.canonical⟩
  tight := Nat.le_of_eq (Expr.rank_binary left right found).symm
  low := low
  yields := by
    obtain ⟨before, rfl, leftYields⟩ := leftAccepted.yields
    obtain ⟨after, rfl, rightYields⟩ := rightAccepted.yields
    exact ⟨before ++ op :: after, by simp, .binary leftYields rightYields⟩
  free := rightAccepted.free

theorem foldFrom_sound (sound : Sound bound (level.rank + 1) reader) {tokens : List Token}
    {left e : Expr} {next rest : List Token}
    (accepted : Accepted bound level.rank (level.rank + 1) tokens left next)
    (done : foldFrom bound level reader left next = .ok (e, rest)) :
    Accepted bound level.rank level.rank tokens e rest := by
  induction next using fold_induction level reader generalizing left with
  | stop other =>
      rw [foldFrom_of_level?_ne left other] at done
      cases done
      exact { accepted with free := accepted.free.tighten other }
  | @turn op next found ih =>
      rw [foldFrom_cons left next found] at done
      obtain ⟨right, beyond, readRight, joined⟩ := Outcome.andThen_eq_ok done
      obtain ⟨node, beyond', isCapped, folded⟩ := Outcome.andThen_eq_ok joined
      obtain ⟨rfl, rfl, low⟩ := capped_eq_ok isCapped
      have node := accepted.fold found (sound readRight) low
      exact ih right beyond' readRight node folded

theorem leftAssociative_sound (level : Level) (sound : Sound bound (level.rank + 1) reader) :
    Sound bound level.rank (leftAssociative bound level reader) := by
  intro tokens e rest done
  rw [outcome_leftAssociative] at done
  obtain ⟨left, next, readLeft, done⟩ := Outcome.andThen_eq_ok done
  have accepted := sound readLeft
  exact foldFrom_sound sound
    { accepted with tight := Nat.le_of_succ_le accepted.tight } done

theorem levels_sound (sound : Sound bound 4 reader) : Sound bound 0 (levels bound reader) :=
  leftAssociative_sound .equality <|
    leftAssociative_sound .comparison <|
      leftAssociative_sound .term <|
        leftAssociative_sound .factor sound

theorem closing_sound {tokens next rest : List Token} {opening : Token} {inner e : Expr}
    (opens : opening.is .leftParen = true) (accepted : Accepted bound 0 0 tokens inner next)
    (done : closing bound inner next = .ok (e, rest)) :
    Accepted bound 4 4 (opening :: tokens) e rest := by
  cases next with
  | nil => cases done
  | cons t next =>
      by_cases closes : t.is .rightParen = true
      · rw [closing, if_pos closes] at done
        obtain ⟨rfl, rfl, low⟩ := capped_eq_ok done
        obtain ⟨read, rfl, yields⟩ := accepted.yields
        exact
          { canonical := accepted.canonical
            tight := Nat.le_refl 4
            low
            yields := ⟨opening :: read ++ [t], by simp, .grouping opens yields closes⟩
            free := free_four rest }
      · rw [closing, if_neg closes] at done
        cases done

theorem operand_sound {deeper : Reader Expr} (positive : 1 ≤ bound) (sound : Sound bound 4 deeper) :
    Sound bound 4 (operand bound deeper) := by
  intro tokens e rest done
  cases tokens with
  | nil => cases done
  | cons t next =>
      rw [outcome_operand_cons] at done
      split at done
      · rename_i unary
        obtain ⟨arg, beyond, readArg, done⟩ := Outcome.andThen_eq_ok done
        obtain ⟨rfl, rfl, low⟩ := capped_eq_ok done
        have accepted := sound readArg
        obtain ⟨read, rfl, yields⟩ := accepted.yields
        exact
          { canonical := ⟨unary, accepted.tight, accepted.canonical⟩
            tight := Nat.le_refl 4
            low
            yields := ⟨t :: read, rfl, .unary yields⟩
            free := accepted.free }
      · split at done
        · rename_i value denotes
          cases done
          exact
            { canonical := trivial
              tight := Nat.le_refl 4
              low := positive
              yields := ⟨[t], rfl, .literal denotes⟩
              free := free_four rest }
        · split at done
          · rename_i opens
            obtain ⟨inner, beyond, readInner, done⟩ := Outcome.andThen_eq_ok done
            exact closing_sound opens (levels_sound sound readInner) done
          · cases done

theorem operandWithin_sound (bound room : Nat) (enough : room ≤ bound) :
    Sound bound 4 (operandWithin bound room) := by
  induction room with
  | zero =>
      intro tokens e rest done
      cases done
  | succ room ih =>
      exact operand_sound (Nat.le_trans (Nat.succ_le_succ room.zero_le) enough)
        (ih (Nat.le_of_succ_le enough))

end Soundness

/-! ## What is canonical is read -/

/-- A reader of trees of a rank reads every canonical tree of so many levels from the tokens
that write it, and leaves what comes after them. -/
def Complete (room rank : Nat) (reader : Reader Expr) : Prop :=
  ∀ {e read rest}, e.Canonical → rank ≤ e.rank → e.height ≤ room → e.Yields read →
    Free rank rest → outcome (reader (read ++ rest)) = .ok (e, rest)

section Completeness

variable {bound room : Nat} {level : Level} {reader : Reader Expr}

/-- Having read the tokens of a tree of the level, reading stands with the tree as its left
operand. -/
theorem leftAssociative_reaches (complete : Complete room (level.rank + 1) reader)
    (enough : room ≤ bound) {e : Expr} {read : List Token} (yields : e.Yields read)
    (canonical : e.Canonical) (tight : level.rank ≤ e.rank) (low : e.height ≤ room)
    {rest : List Token} (free : Free (level.rank + 1) rest) :
    outcome (leftAssociative bound level reader (read ++ rest)) =
      foldFrom bound level reader e rest := by
  induction yields generalizing rest with
  | @binary op lhs rhs before after left right ihLeft ihRight =>
      obtain tighter | same := Nat.lt_or_eq_of_le tight
      · rw [outcome_leftAssociative, complete canonical tighter low (.binary left right) free,
          Outcome.andThen_ok]
      · obtain ⟨_, _, _, ⟨⟩, found, leftTight, rightTight, leftCanonical, rightCanonical⟩ :=
          canonical.eq_binary same.symm
        simp only [Expr.height] at low
        have opFree : Free (level.rank + 1) (op :: (after ++ rest)) :=
          free_cons _ fun level' found' => by
            rw [found] at found'
            cases found'
            exact Nat.lt_succ_self _
        rw [List.append_assoc, List.cons_append,
          ihLeft leftCanonical leftTight (by omega) opFree, foldFrom_cons lhs _ found,
          complete rightCanonical rightTight (by omega) right free, Outcome.andThen_ok,
          capped_of_le (by simp only [Expr.height]; omega), Outcome.andThen_ok]
  | literal denotes =>
      rw [outcome_leftAssociative, complete canonical level.rank_lt low (.literal denotes) free,
        Outcome.andThen_ok]
  | grouping opens yields closes =>
      rw [outcome_leftAssociative,
        complete canonical level.rank_lt low (.grouping opens yields closes) free,
        Outcome.andThen_ok]
  | unary yields =>
      rw [outcome_leftAssociative, complete canonical level.rank_lt low (.unary yields) free,
        Outcome.andThen_ok]

theorem leftAssociative_complete (level : Level) (enough : room ≤ bound)
    (complete : Complete room (level.rank + 1) reader) :
    Complete room level.rank (leftAssociative bound level reader) := by
  intro e read rest canonical tight low yields free
  rw [leftAssociative_reaches complete enough yields canonical tight low
    (free.mono (Nat.le_succ _)), foldFrom_of_level?_ne e free.level?_ne]

theorem levels_complete (enough : room ≤ bound) (complete : Complete room 4 reader) :
    Complete room 0 (levels bound reader) :=
  leftAssociative_complete .equality enough <|
    leftAssociative_complete .comparison enough <|
      leftAssociative_complete .term enough <|
        leftAssociative_complete .factor enough complete

theorem operand_complete {deeper : Reader Expr} (complete : Complete room 4 deeper)
    (enough : room + 1 ≤ bound) : Complete (room + 1) 4 (operand bound deeper) := by
  intro e read rest canonical tight low yields free
  cases yields with
  | @literal value t denotes =>
      have notUnary : ¬ t.isUnary = true := by
        rw [Token.isUnary_iff]
        rintro (kind | kind) <;> exact Token.not_symbol_of_value? denotes _ kind
      rw [List.singleton_append, outcome_operand_cons, if_neg notUnary, denotes]
  | @unary op arg read yields =>
      obtain ⟨unary, argTight, argCanonical⟩ := canonical
      rw [List.cons_append, outcome_operand_cons, if_pos unary,
        complete argCanonical argTight (by simpa [Expr.height] using low) yields free,
        Outcome.andThen_ok, capped_of_le (Nat.le_trans low enough)]
  | @grouping inner read opening closing' opens yields closes =>
      have innerCanonical : inner.Canonical := canonical
      have openKind := Token.is_iff.1 opens
      have notUnary : ¬ opening.isUnary = true := by simp [Token.isUnary_iff, openKind]
      have closeFree : Free 0 (closing' :: rest) := free_cons _ fun level found => by
        rw [Token.level?_of_kind (Token.is_iff.1 closes)] at found
        cases found
      rw [List.cons_append, List.cons_append, outcome_operand_cons, if_neg notUnary,
        Token.value?_of_symbol openKind, List.append_assoc, List.singleton_append]
      dsimp only
      rw [if_pos opens, levels_complete (Nat.le_of_succ_le enough) complete innerCanonical
          (Nat.zero_le _) (by simpa [Expr.height] using low) yields closeFree,
        Outcome.andThen_ok, Parse.closing, if_pos closes, capped_of_le (Nat.le_trans low enough)]
  | @binary op lhs rhs before after left right =>
      obtain ⟨level, found, -⟩ := canonical
      rw [Expr.rank_binary lhs rhs found] at tight
      exact absurd level.rank_lt (Nat.not_lt.2 tight)

theorem operandWithin_complete (bound room : Nat) (enough : room ≤ bound) :
    Complete room 4 (operandWithin bound room) := by
  induction room with
  | zero =>
      intro e read rest canonical tight low
      exact absurd e.height_pos (Nat.not_lt.2 low)
  | succ room ih => exact operand_complete (ih (Nat.le_of_succ_le enough)) enough

end Completeness

/-! ## Expressions -/

/-- Reading an expression accepts the grammar and nothing else, and consumes as much as the
grammar can. -/
theorem outcome_expression_eq_ok_iff {bound : Nat} {tokens rest : List Token} {e : Expr} :
    outcome (expression bound tokens) = .ok (e, rest) ↔
      e.Canonical ∧ e.height ≤ bound ∧ (∃ read, tokens = read ++ rest ∧ e.Yields read) ∧
        ∀ t ∈ rest.head?, t.level? = none := by
  have free : Free 0 rest ↔ ∀ t ∈ rest.head?, t.level? = none := by
    simp [Free, Option.eq_none_iff_forall_not_mem]
  rw [← free]
  constructor
  · intro done
    have accepted := levels_sound (operandWithin_sound bound bound (Nat.le_refl _)) done
    exact ⟨accepted.canonical, accepted.low, accepted.yields, accepted.free⟩
  · rintro ⟨canonical, low, ⟨read, rfl, yields⟩, free⟩
    exact levels_complete (Nat.le_refl _) (operandWithin_complete bound bound (Nat.le_refl _))
      canonical (Nat.zero_le _) low yields free

end Lox.Parse

namespace Lox

open Parse

/-- Tokens write at most one canonical tree. -/
theorem Expr.Canonical.eq_of_yields {a b : Expr} {tokens : List Token}
    (aCanonical : a.Canonical) (bCanonical : b.Canonical) (aYields : a.Yields tokens)
    (bYields : b.Yields tokens) : a = b := by
  have reads {e : Expr} (canonical : e.Canonical) (low : e.height ≤ max a.height b.height)
      (yields : e.Yields tokens) :
      outcome (expression (max a.height b.height) tokens) = .ok (e, []) :=
    outcome_expression_eq_ok_iff.2 ⟨canonical, low, ⟨tokens, by simp, yields⟩, by simp⟩
  have := (reads aCanonical (Nat.le_max_left ..) aYields).symm.trans
    (reads bCanonical (Nat.le_max_right ..) bYields)
  cases this
  rfl

theorem Expr.Yields.ne_nil {e : Expr} {tokens : List Token} (yields : e.Yields tokens) :
    tokens ≠ [] := by
  cases yields <;> simp

namespace Parser

/-- The parser once it has passed so many of its tokens. -/
def skip (p : Parser) (n : Nat) : Parser :=
  { p with ahead := p.ahead.drop n }

/-- **A parser reads an expression exactly where the grammar has one.**  From its token `i`
it reads `e`, reports nothing and stops before token `j` if and only if the grammar derives
`e`, there is room for it, the tokens from `i` to `j` write it, and no binary operator comes
next. -/
theorem expr_eq_ok_iff (p : Parser) (i j : Nat) (e : Expr) :
    j ≤ p.ahead.length ∧ (p.skip i).expr = (.ok e, p.skip j) ↔
      e.Canonical ∧ e.height ≤ p.bound ∧ i ≤ j ∧ j ≤ p.ahead.length ∧
        e.Yields ((p.ahead.drop i).take (j - i)) ∧ ∀ t ∈ p.ahead[j]?, t.level? = none := by
  rw [expr, read_eq_ok_iff]
  simp only [skip, outcome_expression_eq_ok_iff]
  constructor
  · rintro ⟨within, rest, ⟨canonical, low, ⟨read, split, yields⟩, free⟩, same⟩
    obtain rfl : p.ahead.drop j = rest := congrArg Parser.ahead same
    have lengths := congrArg List.length split
    have := List.length_pos_iff.2 yields.ne_nil
    simp only [List.length_append, List.length_drop] at lengths
    have readLength : j - i = read.length := by omega
    refine ⟨canonical, low, by omega, within, ?_, ?_⟩
    · rw [split, readLength, List.take_left]
      exact yields
    · rwa [List.head?_drop] at free
  · rintro ⟨canonical, low, ordered, within, yields, free⟩
    refine ⟨within, p.ahead.drop j, ⟨canonical, low, ⟨_, ?_, yields⟩, ?_⟩, rfl⟩
    · have := List.take_append_drop (j - i) (p.ahead.drop i)
      rwa [List.drop_drop, Nat.add_sub_cancel' ordered, eq_comm] at this
    · rwa [List.head?_drop]

end Parser

end Lox
