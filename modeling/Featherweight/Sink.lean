/-!
# Print sinks

What a program prints goes to a sink. A sink may have room for so many bytes only: it then keeps the
bytes up to its limit and refuses the rest. It may also refuse to be flushed.
-/

namespace Featherweight

/-- A sink: the bytes it holds, how many more it takes if that is limited, and whether it can be
flushed. -/
structure Sink where
  written : ByteArray
  room : Option Nat
  flushes : Bool

namespace Sink

/-- An empty sink that takes everything. -/
def unlimited : Sink := ⟨.empty, none, true⟩

/-- The sink after `bytes` are written to it, and whether it took all of them. -/
def write (bytes : ByteArray) (s : Sink) : Bool × Sink :=
  match s.room with
  | none => (true, { s with written := s.written ++ bytes })
  | some room =>
    if bytes.size ≤ room then
      (true, { s with written := s.written ++ bytes, room := some (room - bytes.size) })
    else
      (false, { s with written := s.written ++ bytes.extract 0 room, room := some 0 })

end Sink

end Featherweight
