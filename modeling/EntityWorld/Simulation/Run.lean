/-
# Runs: ticks of one length up to a last one

A run derives the length of its ticks from the rate: one second divided by it,
rounded to whole nanoseconds, a tie to the even one. Each tick is due one length
after the one before. A run that is early waits, and a run that is late goes on
from where the clock stands instead of hurrying; either way the world only sees
ticks of one length. A clock tells instants in a certain range only: a tick that is
due later than that ends the run, after the tick before it.

Key definitions: `Double.toNanoseconds?`, `Simulation.tickLength?`,
`Simulation.pace`, `Simulation.run`.
-/
import EntityWorld.Simulation.Ticks

namespace EntityWorld

/-- The natural number nearest to a fraction, a tie going to the even one. -/
def roundHalfEven (num den : Nat) : Nat :=
  let q := num / den
  let twice := 2 * (num % den)
  if twice < den then q
  else if den < twice then q + 1
  else q + q % 2

def nanosecondsPerSecond : Nat := 1000000000

namespace Double

/-- The whole nanoseconds nearest to a number of seconds. There are none for a
negative number, a NaN and a number of 2^64 or more. -/
def toNanoseconds? (x : Double) : Option Nat :=
  let exponent := ((x.bits >>> 52) &&& 0x7ff).toNat
  let fraction := (x.bits &&& 0x000fffffffffffff).toNat
  let negative := x.bits >>> 63 == 1
  if negative && !(exponent == 0 && fraction == 0) then none
  else if 1023 + 64 ≤ exponent then none
  else
    let (m, e) := if exponent = 0 then (fraction, 1) else (0x10000000000000 + fraction, exponent)
    some (roundHalfEven ((m * nanosecondsPerSecond) <<< e) (1 <<< (1023 + 52)))

/-- Some nanoseconds as seconds: the whole seconds and the rest of them are rounded
each on its own. -/
def ofNanoseconds (n : Nat) : Double :=
  .ofFloat ((UInt64.ofNat (n / nanosecondsPerSecond)).toFloat
    + (UInt64.ofNat (n % nanosecondsPerSecond)).toFloat / 1e9)

end Double

namespace Simulation

/-- The length in nanoseconds of a tick at some rate. -/
def tickLength? (rate : Double) : Option Nat := (Double.ofFloat (1.0 / rate.toFloat)).toNanoseconds?

/-- The instants of a clock are those before this one: seconds are counted in signed
64-bit words. -/
def clockLimit : Nat := 0x8000000000000000 * nanosecondsPerSecond

/-- How long to wait before the next tick, and when it is due, if the last one was due
at `due` and the clock shows `now`; nothing if no clock tells when it is due. -/
def pace (length due now : Nat) : Option (Nat × Nat) :=
  let due := due + length
  if clockLimit ≤ due then none
  else if now ≤ due then some (due - now, due)
  else some (0, now)

inductive RunError where
  /-- The rate gives no length of ticks. -/
  | badRate
  /-- There is no last tick. -/
  | endless
  /-- The next tick is due at an instant that no clock tells. -/
  | beyondClock
  /-- A tick failed. -/
  | world (cause : WorldError)

variable {κ : Type} [Family κ] [DecidableEq κ]

/-- Ticks of some length up to the last one. It stops at the first that fails, and
after the first whose successor is due when no clock tells. The clock shows `clock t`
after tick `t`, and the last tick was due at `due`. The result is how long the run
waited after each tick. -/
def runFrom (clock : Nat → Nat) (length due : Nat) (s : Simulation κ) :
    EStateM.Result RunError (Simulation κ) (List Nat) :=
  if _h : s.tick < s.rules.maxTicks then
    match _hs : advance (.ofNanoseconds length) s with
    | .error cause t => .error (.world cause) t
    | .ok () t =>
      match pace length due (clock t.tick) with
      | none => .error .beyondClock t
      | some (wait, due) =>
        match runFrom clock length due t with
        | .error cause u => .error cause u
        | .ok waits u => .ok (wait :: waits) u
  else .ok [] s
termination_by s.rules.maxTicks - s.tick
decreasing_by
  obtain ⟨h₁, h₂⟩ := tick_advance _hs
  rw [h₁, h₂]; omega

/-- Runs the simulation up to its last tick. The result is how long the run waited
after each tick. -/
def run (clock : Nat → Nat) : EStateM RunError (Simulation κ) (List Nat) := fun s =>
  match tickLength? s.rules.tickRate with
  | none => .error .badRate s
  | some length =>
    if s.rules.maxTicks = 0 then .error .endless s
    else runFrom clock length (clock s.tick) s

end Simulation
end EntityWorld
