/-!
Sources of random bytes: an endless stream and how much of it has been handed out.
-/

namespace ChipEight

/-- A stream of bytes with the number of bytes taken from it. -/
structure RandomSource where
  /-- All bytes of the stream in order. -/
  stream : Nat → UInt8
  /-- The number of bytes already taken. -/
  position : Nat

namespace RandomSource

/-- The next byte, and the source without it. -/
def next (s : RandomSource) : UInt8 × RandomSource :=
  (s.stream s.position, { s with position := s.position + 1 })

/-- Hands out the given bytes one after another and then starts over; without any it hands out
zeros. -/
def cycling (bytes : Array UInt8) : RandomSource where
  stream k := bytes[k % bytes.size]?.getD 0
  position := 0

end RandomSource

end ChipEight
