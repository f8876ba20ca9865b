/-
# Lox.Sink -- where output goes

A sink keeps the bytes written to it, in order.  It may have room for so many bytes only: a
write that does not fit leaves the part that fits and fails, and so does every later write.
It may also be unable to flush.
-/

namespace Lox

set_option autoImplicit false

/-- Why a sink refuses. -/
inductive SinkFault where
  | full
  | flushFailed
deriving DecidableEq, Repr, Inhabited

/-- The wording of a sink's refusal. -/
def SinkFault.text : SinkFault → String
  | full => "sink full"
  | flushFailed => "flush failed"

/-- The bytes written, the room for more (`none` is no limit), and whether a flush fails. -/
structure Sink where
  content : ByteArray := .empty
  room : Option Nat := none
  flushFails : Bool := false
deriving Inhabited

namespace Sink

/-- Writes bytes, as many as there is room for. -/
def write (s : Sink) (bytes : ByteArray) : Except SinkFault Unit × Sink :=
  match s.room with
  | none => (.ok (), { s with content := s.content ++ bytes })
  | some room =>
    if bytes.size ≤ room then
      (.ok (), { s with content := s.content ++ bytes, room := some (room - bytes.size) })
    else
      (.error .full, { s with content := s.content ++ bytes.extract 0 room, room := some 0 })

/-- Flushes what was written. -/
def flush (s : Sink) : Except SinkFault Unit :=
  if s.flushFails then .error .flushFailed else .ok ()

end Sink

end Lox
