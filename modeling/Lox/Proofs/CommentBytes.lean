/-
# Lox.Proofs.CommentBytes -- a block comment, byte by byte

How far a block comment goes is a matter of characters, but it can be found out on the bytes that
they are written as: two at a time for an opener or a closer inside, one at a time for anything
else, and with a count of the comments that are open.  A character beyond ASCII takes several
turns; none of its bytes is a slash, a star or a newline, so that nothing happens before it is
over.  The loop ends where the comment does, between two characters.

* `depthAfter` -- how many comments are open behind a text.
* `CommentSpan` -- how far the outermost of some comments goes, one case for each thing that can
  stand next; `CommentSpan.isLeast_or_ended`, `CommentSpan.commentBody`.
* `utf8` -- the bytes of characters; `eq_of_mem_utf8EncodeChar` says where an ASCII byte comes from.
* `Skim` -- the loop, whose count of comments has 32 bits; `Skim.run_of_span` is what it comes to.
* `Lexer.skipComment_to_matching_closer` -- a lexer that skips a comment.
-/
import Lox.Proofs.Cutting
import Mathlib.Order.Bounds.Defs

namespace Lox

set_option autoImplicit false

namespace Piece

/-! ## Depth -/

/-- How many comments are open behind a text, if so many are in front of it.  Openers and closers
are read from left to right and share no character. -/
def depthAfter (depth : Int) : List Char → Int
  | [] => depth
  | '/' :: '*' :: rest => depthAfter (depth + 1) rest
  | '*' :: '/' :: rest => depthAfter (depth - 1) rest
  | _ :: rest => depthAfter depth rest

variable {depth : Int} {c : Char} {text : List Char} {length : Nat}

theorem depthAfter_cons (opens : ¬ ['/', '*'] <+: c :: text) (closes : ¬ ['*', '/'] <+: c :: text)
    (depth : Int) : depthAfter depth (c :: text) = depthAfter depth text := by
  rw [depthAfter.eq_def]
  split
  case h_1 same => cases same
  case h_2 same =>
    cases same
    simp at opens
  case h_3 same =>
    cases same
    simp at closes
  case h_4 same =>
    cases same
    rfl

/-- A character that begins no pair begins none in a part of the text either. -/
theorem depthAfter_take_succ (opens : ¬ ['/', '*'] <+: c :: text)
    (closes : ¬ ['*', '/'] <+: c :: text) (depth : Int) (k : Nat) :
    depthAfter depth ((c :: text).take (k + 1)) = depthAfter depth (text.take k) := by
  have front : c :: text.take k <+: c :: text :=
    List.cons_prefix_cons.2 ⟨rfl, List.take_prefix k text⟩
  exact depthAfter_cons (fun pair => opens (pair.trans front))
    (fun pair => closes (pair.trans front)) depth

/-- A text does not open more comments than it has characters. -/
theorem depthAfter_le (depth : Int) (text : List Char) :
    depthAfter depth text ≤ depth + text.length := by
  fun_induction depthAfter depth text with
  | case1 => simp
  | case2 depth rest ih | case3 depth rest ih | case4 depth c rest _ _ ih =>
      simp only [List.length_cons]
      omega

/-- In a text inside of so many comments, the outermost goes on for so many characters. -/
inductive CommentSpan : Int → List Char → Nat → Prop
  /-- It is closed. -/
  | closed {text : List Char} : CommentSpan 0 text 0
  /-- The text ends in it. -/
  | ended {depth : Int} (inside : 0 < depth) : CommentSpan depth [] 0
  | opener {depth : Int} {text : List Char} {length : Nat} (inside : 0 < depth)
      (beyond : CommentSpan (depth + 1) text length) :
      CommentSpan depth ('/' :: '*' :: text) (length + 2)
  | closer {depth : Int} {text : List Char} {length : Nat} (inside : 0 < depth)
      (beyond : CommentSpan (depth - 1) text length) :
      CommentSpan depth ('*' :: '/' :: text) (length + 2)
  | char {depth : Int} {c : Char} {text : List Char} {length : Nat} (inside : 0 < depth)
      (opens : ¬ ['/', '*'] <+: c :: text) (closes : ¬ ['*', '/'] <+: c :: text)
      (beyond : CommentSpan depth text length) : CommentSpan depth (c :: text) (length + 1)

/-- The characters that are counted are those of the comment. -/
theorem commentSpan_commentLength (inner count : Nat) (text : List Char) :
    ∃ length, CommentSpan (inner + 1) text length ∧
      commentLength inner count text = count + length := by
  have inside (inner : Nat) : (0 : Int) < inner + 1 := by omega
  fun_induction commentLength inner count text with
  | case1 inner count => exact ⟨0, .ended (inside inner), rfl⟩
  | case2 inner count rest ih =>
      obtain ⟨length, span, counted⟩ := ih
      exact ⟨length + 2, .opener (inside inner) (by exact_mod_cast span), by omega⟩
  | case3 count rest => exact ⟨2, .closer (inside 0) .closed, rfl⟩
  | case4 count rest inner ih =>
      obtain ⟨length, span, counted⟩ := ih
      refine ⟨length + 2, .closer (inside _) ?_, by omega⟩
      rwa [Nat.cast_succ, Int.add_sub_cancel]
  | case5 inner count c rest opens closes ih =>
      obtain ⟨length, span, counted⟩ := ih
      refine ⟨length + 1, .char (inside inner) ?_ ?_ span, by omega⟩
      · rintro ⟨rest', same⟩
        cases same
        exact opens _ rfl rfl
      · rintro ⟨rest', same⟩
        cases same
        exact closes _ rfl rfl

namespace CommentSpan

theorem length_le (span : CommentSpan depth text length) : length ≤ text.length := by
  induction span with
  | closed | ended => exact Nat.zero_le _
  | opener _ _ ih | closer _ _ ih => exact Nat.add_le_add_right ih 2
  | char _ _ _ _ ih => exact Nat.succ_le_succ ih

/-- Before its end a comment is open. -/
theorem depthAfter_pos (span : CommentSpan depth text length) {k : Nat} (before : k < length) :
    0 < depthAfter depth (text.take k) := by
  induction span generalizing k with
  | closed | ended => cases before
  | opener inside _ ih | closer inside _ ih =>
      match k with
      | 0 | 1 => exact inside
      | k + 2 => exact ih (by omega)
  | char inside opens closes _ ih =>
      cases k with
      | zero => exact inside
      | succ k =>
          rw [depthAfter_take_succ opens closes]
          exact ih (by omega)

/-- At its end it is closed, or the text ends there. -/
theorem closed_or_ended (span : CommentSpan depth text length) :
    depthAfter depth (text.take length) = 0 ∨
      0 < depthAfter depth (text.take length) ∧ length = text.length := by
  induction span with
  | closed => exact .inl rfl
  | ended inside => exact .inr ⟨inside, rfl⟩
  | opener _ _ ih | closer _ _ ih =>
      exact ih.imp id (And.imp id (congrArg (· + 2)))
  | char _ opens closes _ ih =>
      rw [depthAfter_take_succ opens closes]
      exact ih.imp id (And.imp id (congrArg (· + 1)))

/-- What closes so many comments is as many bodies, one behind the other. -/
theorem exists_bodies (span : CommentSpan depth text length)
    (ends : depthAfter depth (text.take length) = 0) :
    ∃ bodies : List (List Char), (bodies.length : Int) = depth ∧
      (∀ body ∈ bodies, CommentBody body) ∧ text.take length = bodies.flatten := by
  induction span with
  | closed => exact ⟨[], rfl, by simp, rfl⟩
  | ended inside => exact absurd ends inside.ne'
  | @opener depth text length inside _ ih =>
      obtain ⟨bodies, count, closed, joined⟩ := ih ends
      -- Two of the bodies behind an opener are the comment inside and what goes on around it.
      match bodies with
      | [] | [_] => simp at count; omega
      | inner :: others :: bodies =>
          simp only [List.forall_mem_cons] at closed
          refine ⟨('/' :: '*' :: (inner ++ others)) :: bodies, ?_, ?_, ?_⟩
          · simp only [List.length_cons, Nat.cast_add, Nat.cast_one] at count ⊢
            omega
          · exact List.forall_mem_cons.2 ⟨.nested closed.1 closed.2.1, closed.2.2⟩
          · simp [joined]
  | closer inside _ ih =>
      obtain ⟨bodies, count, closed, joined⟩ := ih ends
      refine ⟨['*', '/'] :: bodies, ?_, List.forall_mem_cons.2 ⟨.closer, closed⟩, ?_⟩
      · simp only [List.length_cons, Nat.cast_add, Nat.cast_one]
        omega
      · simp [joined]
  | @char depth c text length inside opens closes _ ih =>
      rw [depthAfter_take_succ opens closes] at ends
      obtain ⟨bodies, count, closed, joined⟩ := ih ends
      match bodies with
      | [] => exact absurd count inside.ne
      | body :: bodies =>
          rw [List.forall_mem_cons] at closed
          have front : c :: body <+: c :: text := by
            have within : body <+: text.take length := ⟨bodies.flatten, joined.symm⟩
            exact List.cons_prefix_cons.2 ⟨rfl, within.trans (List.take_prefix length text)⟩
          refine ⟨(c :: body) :: bodies, count, List.forall_mem_cons.2 ⟨?_, closed.2⟩, ?_⟩
          · exact .char (fun pair => opens (pair.trans front))
              (fun pair => closes (pair.trans front)) closed.1
          · simp [joined]

/-- The end is where the depth is zero for the first time, if it ever is. -/
theorem isLeast_or_ended (span : CommentSpan depth text length) :
    IsLeast {k | depthAfter depth (text.take k) = 0} length ∨
      (∀ k, depthAfter depth (text.take k) ≠ 0) ∧ length = text.length := by
  obtain closed | ⟨inside, last⟩ := span.closed_or_ended
  · refine .inl ⟨closed, fun k zero => Nat.le_of_not_lt fun before => ?_⟩
    exact (span.depthAfter_pos before).ne' zero
  · refine .inr ⟨fun k => ?_, last⟩
    by_cases before : k < length
    · exact (span.depthAfter_pos before).ne'
    · rw [List.take_of_length_le (by omega), ← List.take_of_length_le last.ge]
      exact inside.ne'

theorem commentBody (span : CommentSpan 1 text length)
    (ends : depthAfter 1 (text.take length) = 0) : CommentBody (text.take length) := by
  obtain ⟨bodies, count, closed, joined⟩ := span.exists_bodies ends
  obtain ⟨body, rfl⟩ := List.length_eq_one_iff.1 (by exact_mod_cast count)
  rw [joined]
  simpa using closed

end CommentSpan

/-- A body is all of its comment, whatever stands behind it. -/
theorem CommentBody.commentSpan {body : List Char} (closed : CommentBody body)
    (other : List Char) : CommentSpan 1 (body ++ other) body.length := by
  obtain ⟨length, span, counted⟩ := commentSpan_commentLength 0 0 (body ++ other)
  rw [closed.commentLength_append] at counted
  obtain rfl : length = body.length := by simpa using counted.symm
  simpa using span

end Piece

/-! ## Bytes -/

/-- The bytes that characters are written as. -/
def utf8 (text : List Char) : List UInt8 :=
  text.flatMap String.utf8EncodeChar

theorem utf8_cons (c : Char) (text : List Char) :
    utf8 (c :: text) = String.utf8EncodeChar c ++ utf8 text := rfl

theorem toList_toUTF8 (text : List Char) : (String.ofList text).toUTF8.data.toList = utf8 text := by
  simp [List.utf8Encode, utf8]

/-- A character is written as one byte, which is its code, or as bytes that are not ASCII. -/
theorem utf8EncodeChar_cases (c : Char) :
    (c.toNat < 128 ∧ String.utf8EncodeChar c = [c.toUInt8]) ∨
      ∀ b ∈ String.utf8EncodeChar c, 128 ≤ b.toNat := by
  by_cases ascii : c.toNat < 128
  · left
    refine ⟨ascii, String.utf8EncodeChar_eq_singleton ?_⟩
    rw [Char.utf8Size_eq_one_iff, UInt32.le_iff_toNat_le]
    exact Nat.le_of_lt_succ ascii
  · right
    have wide : ¬ c.val.toNat ≤ 127 := fun small => ascii (Nat.lt_succ_of_le small)
    simp only [String.utf8EncodeChar, if_neg wide]
    split
    · simp
      omega
    · split
      · simp
        omega
      · simp
        omega

/-- An ASCII byte is written for the character with its code only. -/
theorem eq_of_mem_utf8EncodeChar {a c : Char} (ascii : a.toNat < 128)
    (member : a.toUInt8 ∈ String.utf8EncodeChar c) : a = c := by
  have code {d : Char} (ascii : d.toNat < 128) : d.toUInt8.toNat = d.toNat :=
    UInt8.toNat_ofNat_of_lt' (Nat.lt_trans ascii (by decide))
  obtain ⟨ascii', single⟩ | wide := utf8EncodeChar_cases c
  · rw [single, List.mem_singleton] at member
    rw [← Char.toNat_inj, ← code ascii, ← code ascii', member]
  · have := wide _ member
    rw [code ascii] at this
    omega

theorem head?_eq_of_head?_utf8 {a : Char} {text : List Char} (ascii : a.toNat < 128)
    (first : (utf8 text).head? = some a.toUInt8) : text.head? = some a := by
  cases text with
  | nil => cases first
  | cons c text =>
      have member : a.toUInt8 ∈ String.utf8EncodeChar c := by
        cases bytes : String.utf8EncodeChar c with
        | nil => exact absurd bytes String.utf8EncodeChar_ne_nil
        | cons b others =>
            rw [utf8_cons, bytes] at first
            cases first
            exact List.mem_cons_self
      rw [eq_of_mem_utf8EncodeChar ascii member]
      rfl

/-- What comes of a count that 32 bits, one of them for the sign, do not hold: nothing, or what is
left of it in 32 bits. -/
inductive Overflow where
  | stops
  | wraps
deriving DecidableEq, Repr, Inhabited

/-- A count, if it can be gone on with. -/
def Overflow.hold : Overflow → Int → Option Int
  | stops, n => if -2 ^ 31 ≤ n ∧ n < 2 ^ 31 then some n else none
  | wraps, n => some (n.bmod (2 ^ 32))

theorem Overflow.hold_of_fits (overflow : Overflow) {n : Int} (low : -2 ^ 31 ≤ n)
    (high : n < 2 ^ 31) : overflow.hold n = some n := by
  cases overflow with
  | stops => exact if_pos ⟨low, high⟩
  | wraps => exact congrArg some (Int.bmod_eq_of_le (by omega) (by omega))

/-- How far a loop over the bytes behind a comment's opener has come: the bytes behind it, the
comments that are open, and the newlines so far. -/
structure Skim where
  index : Nat := 0
  depth : Int := 1
  newlines : Nat := 0
deriving DecidableEq, Repr, Inhabited

namespace Skim

/-- Whether there is another turn. -/
abbrev GoesOn (bytes : List UInt8) (s : Skim) : Prop :=
  s.index < bytes.length ∧ 0 < s.depth

/-- One turn.  It is nothing where there is no byte at the index. -/
def turn (overflow : Overflow) (bytes : List UInt8) (s : Skim) : Option Skim :=
  bytes[s.index]?.bind fun b =>
    let next := bytes[s.index + 1]?
    if b = '/'.toUInt8 ∧ next = some '*'.toUInt8 then
      (overflow.hold (s.depth + 1)).map fun depth => { s with index := s.index + 2, depth }
    else if b = '*'.toUInt8 ∧ next = some '/'.toUInt8 then
      (overflow.hold (s.depth - 1)).map fun depth => { s with index := s.index + 2, depth }
    else if b = '\n'.toUInt8 then
      some { s with index := s.index + 1, newlines := s.newlines + 1 }
    else some { s with index := s.index + 1 }

/-- All turns, of which there may be so many.  It is nothing if there are more. -/
def run (overflow : Overflow) (bytes : List UInt8) : Nat → Skim → Option Skim
  | 0, s => if s.GoesOn bytes then none else some s
  | turns + 1, s =>
    if s.GoesOn bytes then (turn overflow bytes s).bind (run overflow bytes turns) else some s

variable {overflow : Overflow} {bytes rest : List UInt8} {index newlines turns : Nat} {depth : Int}

theorem run_of_not_goesOn {s : Skim} (done : ¬ s.GoesOn bytes) (turns : Nat) :
    run overflow bytes turns s = some s := by
  cases turns <;> exact if_neg done

theorem run_of_turn {s t : Skim} (goesOn : s.GoesOn bytes)
    (turned : turn overflow bytes s = some t) (turns : Nat) :
    run overflow bytes (turns + 1) s = run overflow bytes turns t := by
  rw [run, if_pos goesOn, turned]
  rfl

theorem lt_length_of_drop {b : UInt8} (ahead : bytes.drop index = b :: rest) :
    index < bytes.length := by
  by_contra beyond
  rw [List.drop_eq_nil_of_le (Nat.le_of_not_lt beyond)] at ahead
  cases ahead

theorem drop_add_of_drop (front : List UInt8) (ahead : bytes.drop index = front ++ rest) :
    bytes.drop (index + front.length) = rest := by
  rw [← List.drop_drop, ahead, List.drop_left]

/-- A turn looks at the first two bytes ahead. -/
theorem turn_of_drop {b : UInt8} (ahead : bytes.drop index = b :: rest) (depth : Int)
    (newlines : Nat) :
    turn overflow bytes ⟨index, depth, newlines⟩ =
      if b = '/'.toUInt8 ∧ rest.head? = some '*'.toUInt8 then
        (overflow.hold (depth + 1)).map (⟨index + 2, ·, newlines⟩)
      else if b = '*'.toUInt8 ∧ rest.head? = some '/'.toUInt8 then
        (overflow.hold (depth - 1)).map (⟨index + 2, ·, newlines⟩)
      else if b = '\n'.toUInt8 then some ⟨index + 1, depth, newlines + 1⟩
      else some ⟨index + 1, depth, newlines⟩ := by
  have current : bytes[index]? = some b := by
    rw [← Nat.add_zero index, ← List.getElem?_drop, ahead]
    rfl
  have next : bytes[index + 1]? = rest.head? := by
    rw [← List.getElem?_drop, ahead, List.getElem?_cons_succ, List.head?_eq_getElem?]
  simp only [turn, current, next, Option.bind_some]

/-- An opener takes one turn, if the count holds the comment. -/
theorem run_opener (ahead : bytes.drop index = '/'.toUInt8 :: '*'.toUInt8 :: rest)
    (inside : 0 < depth) (fits : depth + 1 < 2 ^ 31) :
    run overflow bytes (turns + 1) ⟨index, depth, newlines⟩ =
      run overflow bytes turns ⟨index + 2, depth + 1, newlines⟩ := by
  refine run_of_turn ⟨lt_length_of_drop ahead, inside⟩ ?_ turns
  rw [turn_of_drop ahead, if_pos ⟨rfl, rfl⟩, overflow.hold_of_fits (by omega) fits]
  rfl

/-- So does a closer. -/
theorem run_closer (ahead : bytes.drop index = '*'.toUInt8 :: '/'.toUInt8 :: rest)
    (inside : 0 < depth) (fits : depth < 2 ^ 31) :
    run overflow bytes (turns + 1) ⟨index, depth, newlines⟩ =
      run overflow bytes turns ⟨index + 2, depth - 1, newlines⟩ := by
  have apart : '*'.toUInt8 ≠ '/'.toUInt8 := by decide
  refine run_of_turn ⟨lt_length_of_drop ahead, inside⟩ ?_ turns
  rw [turn_of_drop ahead, if_neg fun pair => apart pair.1, if_pos ⟨rfl, rfl⟩,
    overflow.hold_of_fits (by omega) (by omega)]
  rfl

/-- Bytes that are not ASCII take a turn each. -/
theorem run_wide {wide : List UInt8} (ahead : bytes.drop index = wide ++ rest)
    (beyond : ∀ b ∈ wide, 128 ≤ b.toNat) (inside : 0 < depth) :
    run overflow bytes (turns + wide.length) ⟨index, depth, newlines⟩ =
      run overflow bytes turns ⟨index + wide.length, depth, newlines⟩ := by
  induction wide generalizing index with
  | nil => rfl
  | cons b wide ih =>
      rw [List.forall_mem_cons] at beyond
      have apart {a : Char} (ascii : a.toUInt8.toNat < 128) : b ≠ a.toUInt8 := by
        rintro rfl
        omega
      have turned : turn overflow bytes ⟨index, depth, newlines⟩ =
          some ⟨index + 1, depth, newlines⟩ := by
        rw [turn_of_drop ahead, if_neg fun pair => apart (by decide) pair.1,
          if_neg fun pair => apart (by decide) pair.1, if_neg (apart (by decide))]
      have next : bytes.drop (index + 1) = wide ++ rest := drop_add_of_drop [b] ahead
      rw [List.length_cons, ← Nat.add_assoc turns,
        run_of_turn ⟨lt_length_of_drop ahead, inside⟩ turned, ih next beyond.2, Nat.add_assoc,
        Nat.add_comm 1]

/-- A character that begins no pair takes a turn for each of its bytes. -/
theorem run_char {c : Char} {text : List Char} (ahead : bytes.drop index = utf8 (c :: text))
    (opens : ¬ ['/', '*'] <+: c :: text) (closes : ¬ ['*', '/'] <+: c :: text)
    (inside : 0 < depth) :
    run overflow bytes (turns + (String.utf8EncodeChar c).length) ⟨index, depth, newlines⟩ =
      run overflow bytes turns
        ⟨index + (String.utf8EncodeChar c).length, depth, newlines + [c].count '\n'⟩ := by
  have same {a : Char} (ascii : a.toNat < 128) {b : UInt8}
      (member : b ∈ String.utf8EncodeChar c) (code : b = a.toUInt8) : a = c :=
    eq_of_mem_utf8EncodeChar ascii (code ▸ member)
  have apart {a d : Char} (ascii : a.toNat < 128) (ascii' : d.toNat < 128)
      (pair : ¬ [a, d] <+: c :: text) {b : UInt8} (member : b ∈ String.utf8EncodeChar c) :
      ¬ (b = a.toUInt8 ∧ (utf8 text).head? = some d.toUInt8) := by
    rintro ⟨code, next⟩
    obtain ⟨rest, rfl⟩ := List.head?_eq_some_iff.1 (head?_eq_of_head?_utf8 ascii' next)
    exact pair ⟨rest, by rw [same ascii member code]; rfl⟩
  rw [utf8_cons] at ahead
  obtain ⟨-, single⟩ | beyond := utf8EncodeChar_cases c
  · rw [single] at same apart ahead ⊢
    have member : c.toUInt8 ∈ [c.toUInt8] := List.mem_cons_self
    rw [List.singleton_append] at ahead
    refine run_of_turn ⟨lt_length_of_drop ahead, inside⟩ ?_ turns
    rw [turn_of_drop ahead, if_neg (apart (by decide) (by decide) opens member),
      if_neg (apart (by decide) (by decide) closes member)]
    by_cases newline : c = '\n'
    · subst newline
      rfl
    · rw [if_neg fun code => newline (same (by decide) member code).symm,
        List.count_singleton, if_neg (by simpa using newline)]
      rfl
  · have newline : c ≠ '\n' := by
      rintro rfl
      exact absurd (beyond _ List.mem_cons_self) (by decide)
    rw [run_wide ahead beyond inside, List.count_singleton, if_neg (by simpa using newline)]
    rfl

/-- What the loop comes to behind some bytes it comes to in front of them, if it gets behind them in
no more turns than they are. -/
theorem run_of_reaches {now next done : Skim} {used : Nat} (front taken : List UInt8)
    (few : used ≤ front.length)
    (reaches : ∀ more, run overflow bytes (more + used) now = run overflow bytes more next)
    (enough : (front ++ taken).length ≤ turns)
    (others : ∀ more, taken.length ≤ more → run overflow bytes more next = some done) :
    run overflow bytes turns now = some done := by
  rw [List.length_append] at enough
  obtain ⟨more, rfl⟩ : ∃ more, turns = more + used := Nat.exists_eq_add_of_le' (by omega)
  rw [reaches]
  exact others more (by omega)

/-- Where the bytes ahead are those of a text inside of so many comments, the loop stops behind the
outermost of them and has counted its newlines; and it takes no more turns than those are bytes. -/
theorem run_of_span {text : List Char} {length : Nat} (span : Piece.CommentSpan depth text length)
    (within : ∀ k ≤ length, Piece.depthAfter depth (text.take k) < 2 ^ 31)
    (ahead : bytes.drop index = utf8 text) (enough : (utf8 (text.take length)).length ≤ turns) :
    run overflow bytes turns ⟨index, depth, newlines⟩ =
      some ⟨index + (utf8 (text.take length)).length, Piece.depthAfter depth (text.take length),
        newlines + (text.take length).count '\n'⟩ := by
  induction span generalizing index newlines turns with
  | closed => exact run_of_not_goesOn (fun goesOn => Int.lt_irrefl 0 goesOn.2) turns
  | ended inside =>
      refine run_of_not_goesOn (fun goesOn => ?_) turns
      exact absurd goesOn.1 (Nat.not_lt.2 (List.drop_eq_nil_iff.1 ahead))
  | @opener depth text length inside _ ih =>
      have next : bytes.drop (index + 2) = utf8 text := drop_add_of_drop [_, _] ahead
      have opened (more : Nat) := @run_opener overflow bytes _ index newlines more depth ahead
        inside (within 2 (Nat.le_add_left 2 length))
      refine run_of_reaches ['/'.toUInt8, '*'.toUInt8] (utf8 (text.take length))
        (by decide) opened enough fun more enough => ?_
      rw [ih (fun k le => within (k + 2) (Nat.add_le_add_right le 2)) next enough, Nat.add_assoc,
        Nat.add_comm 2]
      rfl
  | @closer depth text length inside _ ih =>
      have next : bytes.drop (index + 2) = utf8 text := drop_add_of_drop [_, _] ahead
      have closed (more : Nat) := @run_closer overflow bytes _ index newlines more depth ahead
        inside (within 0 (Nat.zero_le _))
      refine run_of_reaches ['*'.toUInt8, '/'.toUInt8] (utf8 (text.take length))
        (by decide) closed enough fun more enough => ?_
      rw [ih (fun k le => within (k + 2) (Nat.add_le_add_right le 2)) next enough, Nat.add_assoc,
        Nat.add_comm 2]
      rfl
  | @char depth c text length inside opens closes _ ih =>
      have next : bytes.drop (index + (String.utf8EncodeChar c).length) = utf8 text :=
        drop_add_of_drop _ ahead
      have deep (k : Nat) := Piece.depthAfter_take_succ opens closes depth k
      refine run_of_reaches _ (utf8 (text.take length)) (Nat.le_refl _)
        (fun more => run_char ahead opens closes inside) enough fun more enough => ?_
      rw [ih (fun k le => deep k ▸ within (k + 1) (Nat.succ_le_succ le)) next enough, deep,
        List.take_succ_cons, utf8_cons, List.length_append, ← Nat.add_assoc, Nat.add_assoc newlines,
        ← List.count_append]
      rfl

/-- Where the loop stands behind some characters of a comment. -/
def behind (front : List Char) : Skim :=
  ⟨(utf8 front).length, Piece.depthAfter 1 front, front.count '\n'⟩

theorem run_eq_behind {front other : List Char}
    (span : Piece.CommentSpan 1 (front ++ other) front.length)
    (within : ∀ k ≤ front.length, Piece.depthAfter 1 (front.take k) < 2 ^ 31)
    (enough : (utf8 front).length ≤ turns) :
    run overflow (utf8 (front ++ other)) turns {} = some (behind front) := by
  have found := @run_of_span overflow (utf8 (front ++ other)) 0 0 turns 1 _ _ span
    (fun k le => by rw [List.take_append_of_le_length le]; exact within k le) rfl
    (by rwa [List.take_left])
  rwa [List.take_left, Nat.zero_add, Nat.zero_add] at found

end Skim

/-! ## A lexer -/

/-- A lexer that is made elsewhere: the text that it has not taken yet, and how it takes so many
bytes more. -/
structure Lexer (σ : Type) where
  remainder : σ → String
  bump : σ → Nat → Option σ

namespace Lexer

variable {σ : Type} {lexer : Lexer σ}

/-- Bytes can be taken that are whole characters of the text, and what is left is the rest of it.
Nothing is said of more bytes than there are, or of parts of characters. -/
structure Lawful (lexer : Lexer σ) : Prop where
  bump_of_append : ∀ {s : σ} {front behind : String}, lexer.remainder s = front ++ behind →
    ∃ s', lexer.bump s front.utf8ByteSize = some s' ∧ lexer.remainder s' = behind

/-- Skips a block comment behind its opener, in so many turns at most, and counts the lines on. -/
def skipComment (lexer : Lexer σ) (overflow : Overflow) (turns : Nat) (s : σ) (line : Nat) :
    Option (σ × Nat) :=
  let bytes := (lexer.remainder s).toUTF8.data.toList
  (Skim.run overflow bytes turns {}).bind fun skim =>
    (lexer.bump s skim.index).map fun s => (s, line + skim.newlines)

open Piece

theorem first_block (text : List Char) :
    first '/' ('*' :: text) = (.blockComment, commentLength 0 1 text) := rfl

theorem utf8ByteSize_ofList (text : List Char) :
    (String.ofList text).utf8ByteSize = (utf8 text).length := by
  rw [← toList_toUTF8]
  rfl

/-- **A block comment is skipped through the closer that matches its opener.**  Take a lexer right
behind an opener, and a text ahead whose comment is never open so often that 32 bits, one of them
for the sign, do not hold the count.  The loop over the bytes of the text ends, in no more turns
than the comment has bytes.  Then it is behind the first characters at whose end as many comments
are closed as were opened, or behind all of the text if there are none such; this is where the
piece of the scanner ends.  It stands between two characters, so that the lexer can take what is
in front of it, and the lines go on by the newlines therein.  A comment that is closed is well
nested, and whatever else stands behind it, the loop takes the same bytes. -/
theorem skipComment_to_matching_closer (lawful : lexer.Lawful) (overflow : Overflow) {s : σ}
    {text : List Char} (ahead : lexer.remainder s = String.ofList text)
    (within : ∀ k, (∀ j < k, depthAfter 1 (text.take j) ≠ 0) →
      depthAfter 1 (text.take k) < 2 ^ 31) :
    ∃ front behind, text = front ++ behind ∧
      first '/' ('*' :: text) = (.blockComment, front.length + 1) ∧
      (IsLeast {k | depthAfter 1 (text.take k) = 0} front.length ∨
        (∀ k, depthAfter 1 (text.take k) ≠ 0) ∧ behind = []) ∧
      String.Pos.Raw.IsValid (String.ofList text) ⟨(Skim.behind front).index⟩ ∧
      (∀ turns, (utf8 front).length ≤ turns →
        Skim.run overflow (utf8 text) turns {} = some (.behind front) ∧
        ∀ line, ∃ s', lexer.skipComment overflow turns s line =
            some (s', line + front.count '\n') ∧
          lexer.remainder s' = String.ofList behind) ∧
      (depthAfter 1 front = 0 → CommentBody front ∧ ∀ other,
        first '/' ('*' :: (front ++ other)) = (.blockComment, front.length + 1) ∧
        ∀ turns, (utf8 front).length ≤ turns →
          Skim.run overflow (utf8 (front ++ other)) turns {} = some (.behind front)) := by
  obtain ⟨length, span, counted⟩ := commentSpan_commentLength 0 1 text
  obtain ⟨front, behind, rfl, rfl⟩ : ∃ front behind, text = front ++ behind ∧
      front.length = length :=
    ⟨_, _, (List.take_append_drop length text).symm, List.length_take_of_le span.length_le⟩
  have shallow (k : Nat) (le : k ≤ front.length) : depthAfter 1 (front.take k) < 2 ^ 31 := by
    rw [← List.take_append_of_le_length le]
    refine within k fun j before => ?_
    exact (span.depthAfter_pos (Nat.lt_of_lt_of_le before le)).ne'
  refine ⟨front, behind, rfl, ?_, ?_, ?_, ?_, ?_⟩
  · rw [first_block, counted, Nat.add_comm]
  · simpa using span.isLeast_or_ended
  · refine String.Pos.Raw.isValid_iff_exists_append.2 ⟨_, _, String.ofList_append, ?_⟩
    exact String.Pos.Raw.ext (utf8ByteSize_ofList front).symm
  · intro turns enough
    have found : Skim.run overflow (utf8 (front ++ behind)) turns {} = some (.behind front) :=
      Skim.run_eq_behind span shallow enough
    refine ⟨found, fun line => ?_⟩
    rw [String.ofList_append] at ahead
    obtain ⟨s', bumped, left⟩ := lawful.bump_of_append ahead
    refine ⟨s', ?_, left⟩
    rw [← String.ofList_append] at ahead
    rw [utf8ByteSize_ofList] at bumped
    rw [skipComment, ahead, toList_toUTF8, found]
    simp [Skim.behind, bumped]
  · intro closed
    have body : CommentBody front := by
      have := span.commentBody (by rwa [List.take_left])
      rwa [List.take_left] at this
    refine ⟨body, fun other => ⟨?_, fun turns enough => ?_⟩⟩
    · rw [first_block, body.commentLength_append, Nat.add_comm]
    · exact Skim.run_eq_behind (body.commentSpan other) shallow enough

/-- What is left of a text behind so many bytes, which have to be whole characters of it. -/
def dropBytes : List Char → Nat → Option (List Char)
  | text, 0 => some text
  | [], _ + 1 => none
  | c :: text, n + 1 => if c.utf8Size ≤ n + 1 then dropBytes text (n + 1 - c.utf8Size) else none

theorem dropBytes_append (front behind : List Char) :
    dropBytes (front ++ behind) (utf8 front).length = some behind := by
  induction front with
  | nil => cases behind <;> rfl
  | cons c front ih =>
      obtain ⟨n, size⟩ := Nat.exists_eq_add_one.2 c.utf8Size_pos
      rw [utf8_cons, List.length_append, String.length_utf8EncodeChar, size, Nat.add_right_comm,
        List.cons_append, dropBytes, size, if_pos (by omega), Nat.add_right_comm,
        Nat.add_sub_cancel_left, ih]

/-- A lexer that is nothing but the text it has not taken yet. -/
def plain : Lexer (List Char) where
  remainder := String.ofList
  bump := dropBytes

theorem lawful_plain : plain.Lawful where
  bump_of_append {s front behind} split := by
    refine ⟨behind.toList, ?_, String.ofList_toList⟩
    have text : s = front.toList ++ behind.toList := by
      rw [← String.toList_append, ← split]
      exact String.toList_ofList.symm
    rw [text, ← String.ofList_toList (s := front), utf8ByteSize_ofList, String.toList_ofList]
    exact dropBytes_append front.toList behind.toList

/-- The rest of a comment with another inside, whose star is no closer's as well, with a character
of two bytes, a newline and two stars at its end; and a numeral behind it. -/
def accentedRemark : List Char :=
  [' ', '/', '*', '/', 'é', '\n', '*', '/', ' ', '*', '*', '/', '1']

/-- It is skipped in as many turns as it has bytes, on to the second line. -/
theorem skipComment_to_matching_closer_accentedRemark :
    plain.Lawful ∧ plain.remainder accentedRemark = String.ofList accentedRemark ∧
      (∀ k, (∀ j < k, depthAfter 1 (accentedRemark.take j) ≠ 0) →
        depthAfter 1 (accentedRemark.take k) < 2 ^ 31) ∧
      plain.skipComment .wraps 13 accentedRemark 1 = some (['1'], 2) := by
  have shallow (k : Nat) : depthAfter 1 (accentedRemark.take k) < 2 ^ 31 := by
    have deepest := depthAfter_le 1 (accentedRemark.take k)
    have short : (accentedRemark.take k).length ≤ 13 := List.length_take_le' k accentedRemark
    omega
  have within (k : Nat) (_ : ∀ j < k, depthAfter 1 (accentedRemark.take j) ≠ 0) := shallow k
  refine ⟨lawful_plain, rfl, within, ?_⟩
  obtain ⟨front, behind, text, found, -, -, ends, -⟩ :=
    skipComment_to_matching_closer lawful_plain .wraps (s := accentedRemark) rfl within
  have block : first '/' ('*' :: accentedRemark) = (.blockComment, 13) := by decide
  obtain ⟨rfl, rfl⟩ : front = accentedRemark.take 12 ∧ behind = ['1'] := by
    have length : front.length = 12 := by
      rw [block] at found
      simpa using found.symm
    refine ⟨?_, ?_⟩
    · rw [text, ← length, List.take_left]
    · have : behind = accentedRemark.drop 12 := by rw [text, ← length, List.drop_left]
      exact this
  obtain ⟨-, skipped⟩ := ends 13 (by decide)
  obtain ⟨s', skipped, left⟩ := skipped 1
  obtain rfl : s' = ['1'] := String.ofList_injective left
  exact skipped

end Lexer

end Lox
