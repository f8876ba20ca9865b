/-
# Lox.Proofs.Cursor -- a parser with an index into its tokens

A parser in place has ahead what is left of its tokens, up to the end of the input.  It may as well
keep all tokens, and an index that goes up by one where a token is taken.  Then nothing but its own
course holds the index among the tokens: a look at an index where there is no token would end
everything, and so would a recursion that goes on and on.  Neither comes about.  The index gets to
the first token that stands for the end of the input and no further, and it never goes down; the
count of expressions stays within the bound, and each failure inside of some puts it back as well.
The height of a tree is carried along with it here too, and it is the one that reading in place
carries.

* `Cursor`, `Cursor.Moment` -- a parser with an index, which keeps each index and count it had.
* `Cursor.Action` -- what it can be made to do, if that comes to anything.
* `Cursor.tree` -- reading an expression with its height by index; `Cursor.expression`,
  `Cursor.statement`, `Cursor.prefixExpression` -- reading by index without.
* `Cursor.Sound`, `Cursor.Leads` -- cursors with a course in order, and what they get to.
* `Cursor.Tracks`, `Cursor.Follows` -- reading by index comes to what reading in place does.
-/
import Lox.Proofs.Reporting

namespace Lox

set_option autoImplicit false

/-- Where a parser stands, and how many expressions it is inside of. -/
structure Cursor.Moment where
  index : Nat := 0
  depth : Nat := 0
deriving DecidableEq, Repr, Inhabited

/-- A parser that stands at an index of its tokens. -/
structure Cursor where
  tokens : List Token
  reported : List Diagnostic
  now : Cursor.Moment := {}
  /-- The moments before, the latest first. -/
  past : List Cursor.Moment := []
deriving Repr, Inhabited

namespace Cursor

/-! ## Actions -/

/-- All moments, the latest first. -/
def moments (c : Cursor) : List Moment :=
  c.now :: c.past

/-- On to another moment. -/
def move (c : Cursor) (now : Moment) : Cursor :=
  { c with now, past := c.moments }

/-- One token further. -/
def forward (c : Cursor) : Cursor :=
  c.move { c.now with index := c.now.index + 1 }

/-- One expression further in. -/
def down (c : Cursor) : Cursor :=
  c.move { c.now with depth := c.now.depth + 1 }

/-- Out of an expression again. -/
def up (c : Cursor) : Cursor :=
  c.move { c.now with depth := c.now.depth - 1 }

/-- What is done by a parser: a value or a rejection, and the parser afterwards.  It is nothing
where there is no token at an index, or a recursion or a loop takes more turns than it may. -/
abbrev Action := ExceptT Rejection (StateT Cursor Option)

variable {α β : Type}

/-- Nothing comes of it. -/
def stop : Action α := fun _ => none

/-- The token at an index. -/
def tokenAt (place : Cursor → Nat) : Action Token := fun c =>
  c.tokens[place c]?.map fun t => (.ok t, c)

/-- The token that the parser stands at. -/
def peek : Action Token := tokenAt fun c => c.now.index

/-- Takes the current token, and goes past it unless the input ends. -/
def next : Action Token := do
  let t ← peek
  fun c => some (.ok t, if t.isEof then c else c.forward)

/-- Rejects a token, and reports it at once. -/
def raise (t : Token) (problem : Problem) : Action α := fun c =>
  let rejection : Rejection := ⟨t, problem⟩
  some (.error rejection, { c with reported := c.reported ++ [rejection.diagnostic] })

/-- Rejects the current token. -/
def unexpected (problem : Problem) : Action α := do
  let t ← peek
  raise t problem

/-- Demands a symbol and takes it. -/
def expect (s : Symbol) (otherwise : Problem) : Action Token := do
  let t ← peek
  if t.is s then next else unexpected otherwise

/-- Does something inside of one more expression, unless there are as many as may be, and comes
out again whatever it came to. -/
def nested (bound : Nat) (inside : Action α) : Action α := fun c =>
  if bound ≤ c.now.depth then unexpected .tooDeep c else (inside c.down).map (Prod.map id up)

/-- The height of a node whose highest operand is so high.  Beyond the bound there is none, and the
token of the node is rejected. -/
def grow (bound : Nat) (t : Token) (height : Nat) : Action Nat :=
  if bound ≤ height then raise t .tooDeep else pure (height + 1)

/-- A node whose highest operand is so high, with its own height. -/
def node (bound : Nat) (t : Token) (e : Expr) (height : Nat) : Action Measured := do
  let height ← grow bound t height
  pure (e, height)

/-! ## Expressions -/

/-- Goes on from a left operand as long as operators of the level come. -/
def fold (bound : Nat) (level : Level) (operand : Action Measured) (left : Measured) :
    Action Measured := do
  let t ← peek
  if t.level? = some level then
    let op ← next
    let right ← operand
    if bound ≤ max left.2 right.2 then raise op .tooDeep
    else fold bound level operand (.binary op left.1 right.1, max left.2 right.2 + 1)
  else pure left
termination_by bound - left.2

/-- Operands joined by operators of one level. -/
def joined (bound : Nat) (level : Level) (operand : Action Measured) : Action Measured := do
  let left ← operand
  fold bound level operand left

/-- Operands joined by any binary operators, the tighter levels first. -/
def levels (bound : Nat) (operand : Action Measured) : Action Measured :=
  joined bound .equality <|
    joined bound .comparison <|
      joined bound .term <|
        joined bound .factor operand

/-- An expression with its height, one expression further in. -/
def tree (bound : Nat) (operand : Action Measured) : Action Measured :=
  nested bound (levels bound operand)

/-- The parenthesis that closes a grouping. -/
def close (bound : Nat) (inner : Measured) : Action Measured := do
  let paren ← expect .rightParen .parenAfterExpressionExpected
  node bound paren (.grouping inner.1) inner.2

/-- A literal, a grouping, or a unary operator with its operand; `deeper` reads operands one
expression further in. -/
def operand (bound : Nat) (deeper : Action Measured) : Action Measured := do
  let t ← peek
  if t.isUnary then
    let op ← next
    let arg ← nested bound deeper
    node bound op (.unary op arg.1) arg.2
  else
    match t.kind.value? with
    | some value =>
      let _ ← next
      pure (.literal value, 1)
    | none =>
      if t.is .leftParen then
        let _ ← next
        let inner ← tree bound deeper
        close bound inner
      else unexpected .expressionExpected

/-- An operand with expressions inside of it, at most `room` of them inside of each other. -/
def operandWithin (bound : Nat) : Nat → Action Measured
  | 0 => operand bound stop
  | room + 1 => operand bound (operandWithin bound room)

/-- An expression. -/
def expression (bound : Nat) : Action Expr := do
  let read ← tree bound (operandWithin bound bound)
  pure read.1

/-! ## Statements -/

/-- An expression made into a statement, and the semicolon that ends it. -/
def terminated (bound : Nat) (make : Expr → Stmt) (missing : Problem) : Action Stmt := do
  let e ← expression bound
  let _ ← expect .semicolon missing
  pure (make e)

/-- A statement. -/
def statement (bound : Nat) : Action Stmt := do
  let t ← peek
  if t.kind = .keyword .printWord then
    let _ ← next
    terminated bound .print .semicolonAfterValueExpected
  else terminated bound .expression .semicolonAfterExpressionExpected

/-! ## Prefix form -/

/-- The operands of a binary operator, or the one operand of a minus sign. -/
def operandsOf (deeper : Action Expr) (head : Token) : Action Expr := do
  let lhs ← deeper
  let t ← peek
  if head.is .minus && t.is .rightParen then pure (.unary head lhs)
  else
    let rhs ← deeper
    pure (.binary head lhs rhs)

/-- What follows a head, which has been taken and may turn out to be none. -/
def headed (deeper : Action Expr) (head : Token) : Action Expr :=
  if Parse.isGroupHead head then do
    let inner ← deeper
    pure (.grouping inner)
  else if head.is .bang then do
    let arg ← deeper
    pure (.unary head arg)
  else if head.level?.isSome then operandsOf deeper head
  else raise head .headExpected

/-- The head, the operands and the closing parenthesis of a form. -/
def form (deeper : Action Expr) : Action Expr := do
  let head ← next
  let e ← headed deeper head
  let _ ← expect .rightParen .parenAfterOperandsExpected
  pure e

/-- A literal or a form. -/
def prefixNode (deeper : Action Expr) : Action Expr := do
  let t ← peek
  match t.kind.value? with
  | some value =>
    let _ ← next
    pure (.literal value)
  | none =>
    if t.is .leftParen then
      let _ ← next
      form deeper
    else unexpected .expressionExpected

/-- A tree in prefix form with trees inside of it, at most `room` of them inside of each other. -/
def prefixWithin (bound : Nat) : Nat → Action Expr
  | 0 => nested bound stop
  | room + 1 => nested bound (prefixNode (prefixWithin bound room))

/-- A tree in prefix form, after which the input ends. -/
def prefixExpression (bound : Nat) : Action Expr := do
  let tree ← prefixWithin bound bound
  let t ← peek
  if t.isEof then pure tree else unexpected .endExpected

/-! ## What it comes to -/

/-- The parser in place that the cursor is: ahead of it is what is left from its index on. -/
def seen (p : Parser) (c : Cursor) : Descent :=
  { p with ahead := p.ahead.drop c.now.index, reported := c.reported, depth := c.now.depth }

/-- A cursor of these tokens with a course in order: no moment lies beyond the first token that
stands for the end of the input or inside of more expressions than may be, and none lies before
an earlier one. -/
structure Sound (all : List Token) (bound : Nat) (c : Cursor) : Prop where
  tokens : c.tokens = all
  within : ∀ m ∈ c.moments, m.index ≤ all.findIdx Token.isEof ∧ m.depth ≤ bound
  onward : c.moments.Pairwise fun later m => m.index ≤ later.index

/-- From one cursor to another there is more of a course in order, at whose end there are as many
expressions around as there were. -/
structure Leads (all : List Token) (bound : Nat) (c c' : Cursor) : Prop where
  sound : c'.Sound all bound
  history : c.moments <:+ c'.moments
  depth : c'.now.depth = c.now.depth

/-- What came of an action is what is done in place, and the course there is in order. -/
def Tracks (all : List Token) (p : Parser) (c : Cursor)
    (came : Option (Except Rejection α × Cursor)) (plain : Except Rejection α × Descent) : Prop :=
  ∃ c', came = some (plain.1, c') ∧ c'.seen p = plain.2 ∧ c.Leads all p.bound c'

/-- In a cursor with a course in order, at this count, the action comes to what is done in place. -/
def Follows (all : List Token) (p : Parser) (depth : Nat) (action : Action α)
    (plain : Descent.Action α) : Prop :=
  ∀ ⦃c : Cursor⦄, c.Sound all p.bound → c.now.depth = depth →
    Tracks all p c (action c) (plain (c.seen p))

section Course

variable {all : List Token} {bound : Nat} {c c' c'' : Cursor}

theorem Sound.le_now (sound : c.Sound all bound) : ∀ m ∈ c.moments, m.index ≤ c.now.index :=
  List.forall_mem_cons.2 ⟨Nat.le_refl _, (List.pairwise_cons.1 sound.onward).1⟩

/-- A course goes on in order to a moment that is not before the last. -/
theorem Sound.move (sound : c.Sound all bound) {m : Moment} (after : c.now.index ≤ m.index)
    (inside : m.index ≤ all.findIdx Token.isEof) (shallow : m.depth ≤ bound) :
    (c.move m).Sound all bound where
  tokens := sound.tokens
  within := List.forall_mem_cons.2 ⟨⟨inside, shallow⟩, sound.within⟩
  onward := List.pairwise_cons.2
    ⟨fun m' member => (sound.le_now m' member).trans after, sound.onward⟩

theorem Sound.now (sound : c.Sound all bound) :
    c.now.index ≤ all.findIdx Token.isEof ∧ c.now.depth ≤ bound :=
  sound.within c.now List.mem_cons_self

theorem history_move (c : Cursor) (m : Moment) : c.moments <:+ (c.move m).moments :=
  List.suffix_cons m c.moments

theorem Leads.refl (sound : c.Sound all bound) : c.Leads all bound c :=
  ⟨sound, List.suffix_rfl, rfl⟩

theorem Leads.trans (first : c.Leads all bound c') (second : c'.Leads all bound c'') :
    c.Leads all bound c'' :=
  ⟨second.sound, first.history.trans second.history, second.depth.trans first.depth⟩

/-- A course leads on to no index before. -/
theorem Leads.index_le (leads : c.Leads all bound c') : c.now.index ≤ c'.now.index :=
  leads.sound.le_now c.now (leads.history.subset List.mem_cons_self)

end Course

section Follows

variable {all : List Token} {p : Parser} {c : Cursor} {depth : Nat}

/-! ### Steps -/

section Steps

theorem bind_apply (first : Action α) (next : α → Action β) (c : Cursor) :
    (first >>= next) c =
      match first c with
      | some (.ok a, c') => next a c'
      | some (.error rejection, c') => some (.error rejection, c')
      | none => none := by
  show Option.bind (first c) _ = _
  rcases first c with _ | ⟨_ | _, _⟩ <;> rfl

/-- On from where the course has led. -/
theorem Tracks.of_leads {c' : Cursor} {came : Option (Except Rejection α × Cursor)}
    {plain : Except Rejection α × Descent} (leads : c.Leads all p.bound c')
    (tracks : Tracks all p c' came plain) : Tracks all p c came plain := by
  obtain ⟨c'', rfl, same, further⟩ := tracks
  exact ⟨c'', rfl, same, leads.trans further⟩

/-- Reading by index goes on where reading in place does. -/
theorem Follows.bind {first : Action α} {next : α → Action β} {first' : Descent.Action α}
    {next' : α → Descent.Action β} (front : Follows all p depth first first')
    (back : ∀ a, Follows all p depth (next a) (next' a)) :
    Follows all p depth (first >>= next) (Descent.andThen first' next') := by
  intro c sound counted
  obtain ⟨c', came, same, leads⟩ := front sound counted
  rw [bind_apply, came, Descent.andThen]
  cases plain : first' (c.seen p) with
  | mk read d =>
      rw [plain] at same
      obtain rfl : c'.seen p = d := same
      cases read with
      | error rejection => exact ⟨c', rfl, rfl, leads⟩
      | ok a => exact (back a leads.sound (leads.depth.trans counted)).of_leads leads

theorem pure_follows (a : α) : Follows all p depth (pure a) fun d => (.ok a, d) :=
  fun _ sound _ => ⟨_, rfl, rfl, .refl sound⟩

theorem raise_follows (t : Token) (problem : Problem) :
    Follows all p depth (raise t problem : Action α) (Descent.raise t problem) :=
  fun _ sound _ =>
    ⟨_, rfl, rfl, ⟨sound.tokens, sound.within, sound.onward⟩, List.suffix_rfl, rfl⟩

theorem grow_follows (t : Token) (height : Nat) :
    Follows all p depth (grow p.bound t height) (Descent.grow p.bound t height) := by
  intro c sound counted
  rw [grow, Descent.grow]
  split
  · exact raise_follows t .tooDeep sound counted
  · exact pure_follows (height + 1) sound counted

theorem node_follows (t : Token) (e : Expr) (height : Nat) :
    Follows all p depth (node p.bound t e height) (Descent.node p.bound t e height) :=
  (grow_follows t height).bind fun height => pure_follows (e, height)

/-- What is read by index inside of no expression is what the parser reads. -/
theorem Follows.read {action : Action α} {plain : Descent.Action α}
    (follows : Follows all p 0 action plain) (sound : c.Sound all p.bound)
    (outside : c.now.depth = 0) {came : Except Rejection α × Parser}
    (reads : plain ⟨(c.seen p).toParser, 0⟩ = (came.1, ⟨came.2, 0⟩)) :
    Tracks all p c (action c) (came.1, ⟨came.2, 0⟩) := by
  have tracks := follows sound outside
  have same : c.seen p = ⟨(c.seen p).toParser, 0⟩ := by rw [← outside]; rfl
  rwa [same, reads] at tracks

end Steps

variable (delimits : Parse.Delimits all p.ahead p.last)

include delimits

/-- The first token that stands for the end of the input comes behind what is ahead. -/
theorem findIdx_isEof : all.findIdx Token.isEof = p.ahead.length := by
  obtain ⟨behind, rfl⟩ := delimits.split
  have none : p.ahead.findIdx Token.isEof = p.ahead.length :=
    List.findIdx_eq_length_of_false delimits.inner
  rw [List.findIdx_append, none, if_neg (Nat.lt_irrefl _), List.findIdx_cons, delimits.ends]
  exact Nat.zero_add _

/-- The token at the index is that at which reading in place stands. -/
theorem Sound.getElem? (sound : c.Sound all p.bound) :
    c.tokens[c.now.index]? = some (c.seen p).current := by
  have place : Parse.place p.ahead (p.ahead.drop c.now.index) = c.now.index := by
    have := findIdx_isEof delimits ▸ sound.now.1
    simp only [Parse.place, List.length_drop]
    omega
  have found := delimits.getElem?_place (List.drop_suffix c.now.index p.ahead)
  rwa [place, ← sound.tokens] at found

theorem isEof_current (c : Cursor) :
    (c.seen p).current.isEof = (c.seen p).ahead.isEmpty := by
  cases left : (c.seen p).ahead with
  | nil =>
      rw [Descent.current, left]
      exact delimits.ends
  | cons t rest =>
      have within : t :: rest <:+ p.ahead := left ▸ List.drop_suffix c.now.index p.ahead
      rw [Descent.current, left]
      exact delimits.inner t (within.subset List.mem_cons_self)

/-- Looking at the current token always comes to something. -/
theorem Sound.peek_bind (sound : c.Sound all p.bound) (k : Token → Action α) :
    (peek >>= k) c = k (c.seen p).current c := by
  rw [bind_apply, peek, tokenAt, sound.getElem? delimits]
  rfl

/-- Taking a token goes on to the next, and at the end of the input it stays there. -/
theorem Sound.exists_next (sound : c.Sound all p.bound) :
    ∃ c', next c = some (.ok (c.seen p).current, c') ∧ c'.seen p = (c.seen p).advance ∧
      c.Leads all p.bound c' ∧
      ((c.seen p).ahead ≠ [] → c'.tokens[c'.now.index - 1]? = some (c.seen p).current) := by
  refine ⟨_, sound.peek_bind delimits _, ?_⟩
  rw [isEof_current delimits]
  split
  · rename_i ends
    refine ⟨?_, .refl sound, absurd (List.isEmpty_iff.1 ends)⟩
    rw [Descent.advance, List.isEmpty_iff.1 ends, List.tail_nil, ← List.isEmpty_iff.1 ends]
  · rename_i more
    have inside : c.now.index + 1 ≤ all.findIdx Token.isEof := by
      rw [findIdx_isEof delimits]
      simpa [seen] using more
    have leads : c.Leads all p.bound c.forward :=
      ⟨sound.move (Nat.le_succ _) inside sound.now.2, history_move _ _, rfl⟩
    refine ⟨?_, leads, fun _ => sound.getElem? delimits⟩
    simp [seen, forward, Cursor.move, Descent.advance]

theorem Sound.tracks_next (sound : c.Sound all p.bound) (counted : c.now.depth = depth)
    {k : Token → Action α} {plain : Descent.Action α}
    (follows : Follows all p depth (k (c.seen p).current) plain) :
    Tracks all p c ((next >>= k) c) (plain (c.seen p).advance) := by
  obtain ⟨c', taken, same, leads, -⟩ := sound.exists_next delimits
  rw [bind_apply, taken, ← same]
  exact (follows leads.sound (leads.depth.trans counted)).of_leads leads

theorem unexpected_follows (problem : Problem) :
    Follows all p depth (unexpected problem : Action α) (Descent.unexpected problem) := by
  intro c sound counted
  rw [unexpected, sound.peek_bind delimits]
  exact raise_follows _ problem sound counted

theorem expect_bind_follows (s : Symbol) (otherwise : Problem) {k : Token → Action α}
    {plain : Token → Descent.Action α} (follows : ∀ t, Follows all p depth (k t) (plain t)) :
    Follows all p depth (expect s otherwise >>= k) fun d =>
      if d.current.is s then plain d.current d.advance else Descent.unexpected otherwise d := by
  intro c sound counted
  rw [bind_apply, expect, sound.peek_bind delimits]
  dsimp only
  by_cases stands : (c.seen p).current.is s = true
  · rw [if_pos stands, if_pos stands, ← bind_apply]
    exact sound.tracks_next delimits counted (follows _)
  · rw [if_neg stands, if_neg stands, ← bind_apply]
    exact (unexpected_follows delimits otherwise).bind follows sound counted

/-- The count is put back whatever comes of what is done inside. -/
theorem nested_follows {inside : Action α} {plain : Descent.Action α}
    (follows : depth < p.bound → Follows all p (depth + 1) inside plain) :
    Follows all p depth (nested p.bound inside) (Descent.nested p.bound plain) := by
  rintro c sound rfl
  rw [nested, Descent.nested]
  show Tracks all p c (if _ then _ else _) (if p.bound ≤ c.now.depth then _ else _)
  split
  · exact unexpected_follows delimits .tooDeep sound rfl
  · rename_i free
    have shallow : c.now.depth + 1 ≤ p.bound := by omega
    have entered : c.down.Sound all p.bound := sound.move (Nat.le_refl _) sound.now.1 shallow
    obtain ⟨c', came, same, leads⟩ := follows shallow entered rfl
    -- What was done inside has left its own count as it was, so one less is the count of before.
    have left : c'.now.depth - 1 = c.now.depth := by
      rw [leads.depth]
      rfl
    have shallow' : c'.now.depth - 1 ≤ p.bound := by omega
    have sound' : c'.up.Sound all p.bound :=
      leads.sound.move (Nat.le_refl _) leads.sound.now.1 shallow'
    rw [came]
    refine ⟨c'.up, rfl, ?_, sound', ?_, left⟩
    · show c'.up.seen p = (plain (c.down.seen p)).2.up
      rw [← same]
      rfl
    · exact (history_move _ _).trans (leads.history.trans (history_move _ _))

/-! ### Expressions -/

section Expressions

variable {action : Action Measured} {plain : Descent.Action Measured}

theorem fold_follows (level : Level) (follows : Follows all p depth action plain)
    (left : Measured) :
    Follows all p depth (fold p.bound level action left)
      (Descent.fold p.bound level plain left) := by
  intro c sound counted
  induction room : p.bound - left.2 using Nat.strong_induction_on generalizing left c with
  | _ n ih =>
    -- With each turn the node gets higher, and what is left of the bound gets less.
    subst room
    rw [fold, sound.peek_bind delimits]
    by_cases same : (c.seen p).current.level? = some level
    · rw [if_pos same, Descent.fold_turn same]
      refine sound.tracks_next delimits counted ?_
      refine follows.bind fun right c' sound' counted' => ?_
      rw [Descent.andThen, Descent.node, Descent.andThen, Descent.grow]
      split
      · exact raise_follows _ .tooDeep sound' counted'
      · exact ih _ (by omega) _ sound' counted' rfl
    · rw [if_neg same, Descent.fold, if_neg same]
      exact pure_follows left sound counted

theorem joined_follows (level : Level) (follows : Follows all p depth action plain) :
    Follows all p depth (joined p.bound level action) (Descent.joined p.bound level plain) :=
  follows.bind fun left => fold_follows delimits level follows left

theorem levels_follows (follows : Follows all p depth action plain) :
    Follows all p depth (levels p.bound action) (Descent.levels p.bound plain) :=
  joined_follows delimits .equality <|
    joined_follows delimits .comparison <|
      joined_follows delimits .term <|
        joined_follows delimits .factor follows

theorem tree_follows (below : depth < p.bound → Follows all p (depth + 1) action plain) :
    Follows all p depth (tree p.bound action) (Descent.tree p.bound plain) :=
  nested_follows delimits fun free => levels_follows delimits (below free)

theorem close_follows (inner : Measured) :
    Follows all p depth (close p.bound inner) (Descent.close p.bound inner) :=
  expect_bind_follows delimits .rightParen .parenAfterExpressionExpected fun paren =>
    node_follows paren (.grouping inner.1) inner.2

theorem operand_follows (below : depth < p.bound → Follows all p (depth + 1) action plain) :
    Follows all p depth (operand p.bound action) (Descent.operand p.bound plain) := by
  intro c sound counted
  rw [operand, sound.peek_bind delimits, Descent.operand]
  split
  · refine sound.tracks_next delimits counted ?_
    exact (nested_follows delimits below).bind fun arg => node_follows _ _ _
  · cases (c.seen p).current.kind.value? with
    | some value => exact sound.tracks_next delimits counted (pure_follows (Expr.literal value, 1))
    | none =>
        dsimp only
        split
        · refine sound.tracks_next delimits counted ?_
          exact (tree_follows delimits below).bind fun inner => close_follows delimits inner
        · exact unexpected_follows delimits .expressionExpected sound counted

/-- There is always room enough: the count refuses one expression more before it runs out. -/
theorem operandWithin_follows {room : Nat} (enough : p.bound ≤ depth + room) :
    Follows all p depth (operandWithin p.bound room) (Descent.operandWithin p.bound room) := by
  induction room generalizing depth with
  | zero => exact operand_follows delimits fun free => absurd enough (Nat.not_le_of_lt free)
  | succ room ih => exact operand_follows delimits fun _ => ih (by omega)

theorem expression_follows :
    Follows all p 0 (expression p.bound) (Descent.expression p.bound) :=
  (tree_follows delimits fun _ => operandWithin_follows delimits (by omega)).bind
    fun read => pure_follows read.1

end Expressions

/-! ### Statements -/

theorem terminated_follows (make : Expr → Stmt) (missing : Problem) :
    Follows all p 0 (terminated p.bound make missing)
      (Descent.terminated p.bound make missing) :=
  (expression_follows delimits).bind fun e =>
    expect_bind_follows delimits .semicolon missing fun _ => pure_follows (make e)

theorem statement_follows : Follows all p 0 (statement p.bound) (Descent.statement p.bound) := by
  intro c sound counted
  rw [statement, sound.peek_bind delimits, Descent.statement]
  split
  · exact sound.tracks_next delimits counted (terminated_follows delimits _ _)
  · exact terminated_follows delimits _ _ sound counted

/-! ### Prefix form -/

variable {action : Action Expr} {plain : Descent.Action Expr}

theorem operandsOf_follows (follows : Follows all p depth action plain) (head : Token) :
    Follows all p depth (operandsOf action head) (Descent.operandsOf plain head) := by
  refine follows.bind fun lhs c sound counted => ?_
  rw [sound.peek_bind delimits]
  split
  · exact pure_follows _ sound counted
  · exact (follows.bind fun rhs => pure_follows (Expr.binary head lhs rhs)) sound counted

theorem headed_follows (follows : Follows all p depth action plain) (head : Token) :
    Follows all p depth (headed action head) (Descent.headed plain head) := by
  unfold headed Descent.headed
  split
  · exact follows.bind fun inner => pure_follows (Expr.grouping inner)
  · split
    · exact follows.bind fun arg => pure_follows (Expr.unary head arg)
    · split
      · exact operandsOf_follows delimits follows head
      · exact raise_follows head .headExpected

theorem form_follows (follows : Follows all p depth action plain) :
    Follows all p depth (form action) (Descent.form plain) := by
  intro c sound counted
  refine sound.tracks_next delimits counted ?_
  exact (headed_follows delimits follows _).bind fun e =>
    expect_bind_follows delimits .rightParen .parenAfterOperandsExpected fun _ => pure_follows e

theorem prefixNode_follows (follows : Follows all p depth action plain) :
    Follows all p depth (prefixNode action) (Descent.prefixNode plain) := by
  intro c sound counted
  rw [prefixNode, sound.peek_bind delimits, Descent.prefixNode]
  cases (c.seen p).current.kind.value? with
  | some value => exact sound.tracks_next delimits counted (pure_follows (Expr.literal value))
  | none =>
      dsimp only
      split
      · exact sound.tracks_next delimits counted (form_follows delimits follows)
      · exact unexpected_follows delimits .expressionExpected sound counted

theorem prefixWithin_follows {room : Nat} (enough : p.bound ≤ depth + room) :
    Follows all p depth (prefixWithin p.bound room) (Descent.prefixWithin p.bound room) := by
  induction room generalizing depth with
  | zero => exact nested_follows delimits fun free => absurd enough (Nat.not_le_of_lt free)
  | succ room ih =>
      exact nested_follows delimits fun _ => prefixNode_follows delimits (ih (by omega))

theorem prefixExpression_follows :
    Follows all p 0 (prefixExpression p.bound) (Descent.prefixExpression p.bound) := by
  refine (prefixWithin_follows delimits (by omega)).bind fun tree c sound counted => ?_
  rw [sound.peek_bind delimits, isEof_current delimits]
  split
  · exact pure_follows tree sound counted
  · exact unexpected_follows delimits .endExpected sound counted

end Follows

end Cursor

end Lox
