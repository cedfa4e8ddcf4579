import Mathlib.Data.Int.Notation

/-!
# Status codes and lifecycle states

What the classes of the source return when they refuse, and the strings their `state()` reports.
-/

namespace Holesail

def uvEINVAL : ℤ := -22

def uvEIo : ℤ := -5

def uvENOMEM : ℤ := -12

def uvEALREADY : ℤ := -114

def uvECANCELED : ℤ := -125

/-- The strings `state()` can report: empty at first, then one of four words. -/
inductive EndpointState where
  | initial
  | waiting
  | listening
  | paused
  | destroyed
deriving DecidableEq

end Holesail
