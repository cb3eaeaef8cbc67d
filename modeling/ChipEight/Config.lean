/-!
What a machine and its host can be told to do differently.
-/

namespace ChipEight

/-- The settings of a machine. -/
structure Config where
  /-- Whether observers are told about executed instructions. -/
  trace : Bool := false
  /-- How many cycles a second the host aims at. -/
  hertz : Nat := 300
deriving DecidableEq

namespace Config

/-- The time between two cycles in whole nanoseconds; a rate of zero counts as one. -/
def interval (c : Config) : Nat := 1000000000 / max c.hertz 1

end Config

end ChipEight
