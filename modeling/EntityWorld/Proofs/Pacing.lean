/-
# A run is its ticks

A run waits where it is early and goes on at once where it is late. The clock tells it
when the next tick is due and nothing else: the simulation goes through the ticks that
are left up to the last one, all of one length, whatever the clock shows
(`Simulation.run_eq_ticked`). The run stops, as every tick that succeeds is one
less to go, and one that fails is the last.

What is asked of the clock is that it can tell when each next tick is due
(`Simulation.ClockLasts`). That is so if its readings stay clear of the end of time by
the length of the run (`Simulation.clockLasts_of_lt`).

Key definitions: `Simulation.ClockLasts`, `Simulation.ticked`.
Key theorems: `Simulation.advanceMany_cases`, `Simulation.bare_runFrom`,
`Simulation.run_eq_ticked`.
-/
import EntityWorld.Proofs.Refusals
import EntityWorld.Proofs.Ticking
import EntityWorld.Simulation.Run
import Mathlib.Tactic

namespace EntityWorld

/-- What an action comes to, without what it gives back. -/
def bare {ε σ α : Type} : EStateM.Result ε σ α → EStateM.Result ε σ Unit
  | .ok _ t => .ok () t
  | .error c t => .error c t

variable {κ : Type} [Family κ] [DecidableEq κ]

namespace Simulation

variable {clock : Nat → Nat} {length due n : Nat} {dt : Double} {s t u : Simulation κ}
  {c : WorldError}

/-! ### Ticks of one length -/

theorem advanceMany_succ_of_ok (h : advance dt s = .ok () t) :
    advanceMany (n + 1) dt s = advanceMany n dt t := bind_of_ok h

theorem advanceMany_succ_of_error (h : advance dt s = .error c t) :
    advanceMany (n + 1) dt s = .error c t := bind_of_error h

/-- Some ticks all succeed, and are counted, or some of them succeed and the next is the
last. -/
theorem advanceMany_cases (n : Nat) (dt : Double) (s : Simulation κ) :
    (∃ t, advanceMany n dt s = .ok () t ∧ t.tick = s.tick + n ∧ t.rules = s.rules) ∨
      ∃ k u c t, k < n ∧ advanceMany k dt s = .ok () u ∧ advance dt u = .error c t ∧
        advanceMany n dt s = .error c t := by
  induction n generalizing s with
  | zero => exact Or.inl ⟨s, rfl, rfl, rfl⟩
  | succ n ih =>
    cases h : advance dt s with
    | error c t =>
      exact Or.inr ⟨0, s, c, t, Nat.succ_pos n, rfl, h, advanceMany_succ_of_error h⟩
    | ok _ v =>
      obtain ⟨htick, hrules⟩ := tick_advance h
      rcases ih v with ⟨t, hall, hcount, hkeep⟩ | ⟨k, u, c, t, hk, hbefore, hlast, hstop⟩
      · refine Or.inl ⟨t, (advanceMany_succ_of_ok h).trans hall, ?_, hkeep.trans hrules⟩
        omega
      · exact Or.inr ⟨k + 1, u, c, t, Nat.succ_lt_succ hk, (advanceMany_succ_of_ok h).trans hbefore,
          hlast, (advanceMany_succ_of_ok h).trans hstop⟩

/-! ### The clock -/

/-- After each of the next `n` ticks that succeeds, the clock can tell when the one after
it is due: the last was due at `due`, and a run that is late counts from what the clock
shows. -/
def ClockLasts (clock : Nat → Nat) (length : Nat) : Nat → Nat → Simulation κ → Prop
  | 0, _, _ => True
  | n + 1, due, s => ∀ t, advance (.ofNanoseconds length) s = .ok () t →
      due + length < clockLimit ∧
        ClockLasts clock length n (max (due + length) (clock t.tick)) t

/-- A clock lasts if no reading is so late that the ticks to come would be due beyond its
range. -/
theorem clockLasts_of_lt (hclock : ∀ i, clock i + n * length < clockLimit)
    (hdue : due + n * length < clockLimit) : ClockLasts clock length n due s := by
  induction n generalizing due s with
  | zero => exact trivial
  | succ n ih =>
    rw [Nat.succ_mul] at hdue
    simp only [Nat.succ_mul] at hclock
    have hlater : ∀ i, clock i + n * length < clockLimit := fun i => by
      have := hclock i
      omega
    refine fun t _ => ⟨by omega, ih hlater ?_⟩
    rcases max_choice (due + length) (clock t.tick) with hmax | hmax
    · rw [hmax]
      omega
    · rw [hmax]
      exact hlater _

/-- Whether a run is early or late, the next tick is due a length later or now. -/
theorem pace_of_lt (h : due + length < clockLimit) (now : Nat) :
    pace length due now = some (due + length - now, max (due + length) now) := by
  unfold pace
  rw [if_neg (Nat.not_le.mpr h)]
  split
  · next hearly => rw [max_eq_left hearly]
  · next hlate => rw [max_eq_right (by omega), Nat.sub_eq_zero_of_le (by omega)]

/-! ### Runs -/

theorem runFrom_of_le (h : s.rules.maxTicks ≤ s.tick) : runFrom clock length due s = .ok [] s := by
  rw [runFrom, dif_neg (Nat.not_lt.mpr h)]

theorem runFrom_of_error (hlt : s.tick < s.rules.maxTicks)
    (h : advance (.ofNanoseconds length) s = .error c t) :
    runFrom clock length due s = .error (.world c) t := by
  rw [runFrom, dif_pos hlt]
  split
  · next h' =>
    rw [h] at h'
    cases h'
    rfl
  · next h' =>
    rw [h] at h'
    cases h'

/-- A tick that succeeds, and a run that goes on from there. -/
theorem bare_runFrom_of_ok (hlt : s.tick < s.rules.maxTicks)
    (h : advance (.ofNanoseconds length) s = .ok () t) (hdue : due + length < clockLimit) :
    bare (runFrom clock length due s) =
      bare (runFrom clock length (max (due + length) (clock t.tick)) t) := by
  rw [runFrom, dif_pos hlt]
  split
  · next h' =>
    rw [h] at h'
    cases h'
  · next h' =>
    rw [h] at h'
    cases h'
    rw [pace_of_lt hdue]
    dsimp only
    cases runFrom clock length (max (due + length) (clock t.tick)) t <;> rfl

/-- What the ticks of a run come to, as a run has it. -/
def ticked (n : Nat) (dt : Double) : EStateM RunError (Simulation κ) Unit :=
  EStateM.adaptExcept .world (advanceMany n dt)

theorem ticked_of_ok (h : advanceMany n dt s = .ok () t) : ticked n dt s = .ok () t := by
  simp only [ticked, EStateM.adaptExcept, h]

theorem ticked_of_error (h : advanceMany n dt s = .error c t) :
    ticked n dt s = .error (.world c) t := by
  simp only [ticked, EStateM.adaptExcept, h]

/-- A run with `n` ticks to go is these ticks. -/
theorem bare_runFrom (hn : s.rules.maxTicks - s.tick = n)
    (hclock : ClockLasts clock length n due s) :
    bare (runFrom clock length due s) = ticked n (.ofNanoseconds length) s := by
  induction n generalizing s due with
  | zero =>
    have hdone : s.rules.maxTicks ≤ s.tick := by omega
    rw [runFrom_of_le hdone]
    rfl
  | succ n ih =>
    have hlt : s.tick < s.rules.maxTicks := by omega
    cases h : advance (.ofNanoseconds length) s with
    | error c t =>
      rw [runFrom_of_error hlt h, ticked_of_error (advanceMany_succ_of_error h)]
      rfl
    | ok _ t =>
      obtain ⟨htick, hrules⟩ := tick_advance h
      obtain ⟨hdue, hlater⟩ := hclock t h
      have hleft : t.rules.maxTicks - t.tick = n := by
        rw [hrules]
        omega
      rw [bare_runFrom_of_ok hlt h hdue, ih hleft hlater]
      simp only [ticked, EStateM.adaptExcept, advanceMany_succ_of_ok h]

/-- **A run is its ticks, whatever the clock shows.** Where there is a last tick, and the
rate gives ticks a length, a run comes to what the ticks come to that are left. All
of them succeed, and the run ends after the last one or where it was if that was over;
or one is the first to fail, and the run ends there with its error. -/
theorem run_eq_ticked (hmax : 0 < s.rules.maxTicks)
    (hlength : tickLength? s.rules.tickRate = some length)
    (hclock : ClockLasts clock length (s.rules.maxTicks - s.tick) (clock s.tick) s) :
    let n := s.rules.maxTicks - s.tick
    let dt := Double.ofNanoseconds length
    bare (run clock s) = ticked n dt s ∧
      ((∃ t, advanceMany n dt s = .ok () t ∧ bare (run clock s) = .ok () t ∧
          t.tick = max s.tick s.rules.maxTicks) ∨
        ∃ k u c t, k < n ∧ advanceMany k dt s = .ok () u ∧ advance dt u = .error c t ∧
          bare (run clock s) = .error (.world c) t) := by
  intro n dt
  have hrun : run clock s = runFrom clock length (clock s.tick) s := by
    simp only [run, hlength, if_neg hmax.ne']
  have hticked : bare (run clock s) = ticked n dt s := by
    rw [hrun]
    exact bare_runFrom rfl hclock
  refine ⟨hticked, ?_⟩
  rcases advanceMany_cases n dt s with ⟨t, hall, hcount, -⟩ | ⟨k, u, c, t, hk, hbefore, hlast, hstop⟩
  · exact Or.inl ⟨t, hall, hticked.trans (ticked_of_ok hall), by omega⟩
  · exact Or.inr ⟨k, u, c, t, hk, hbefore, hlast, hticked.trans (ticked_of_error hstop)⟩

/-- A star that drifts, with two ticks of a millisecond left. -/
def twoTicksLeft : Simulation Empty where
  rules := { tickRate := ⟨0x408f400000000000⟩, maxTicks := 3, particles := 0 }
  world := World.run {} [.register .particle, .register .star, .register .transform, .spawn,
    .add .star ⟨0, 0⟩ (Star.mk 1), .add .transform ⟨0, 0⟩ (Transform.ofPosition ⟨0, 0, 0⟩)]
  tick := 1

/-- A clock on which every tick takes a second. -/
def sluggish (i : Nat) : Nat := min i 3 * nanosecondsPerSecond

theorem run_eq_ticked_twoTicksLeft :
    ∃ t, bare (run sluggish twoTicksLeft) = .ok () t ∧ t.tick = 3 := by
  have hlength : tickLength? twoTicksLeft.rules.tickRate = some 1000000 := by decide +kernel
  have hbound : ∀ i, sluggish i + 2 * 1000000 < clockLimit := fun i => by
    unfold sluggish clockLimit nanosecondsPerSecond
    omega
  have hclock : ClockLasts sluggish 1000000 2 (sluggish twoTicksLeft.tick) twoTicksLeft :=
    clockLasts_of_lt hbound (hbound _)
  obtain ⟨hticked, hend⟩ := run_eq_ticked (by decide) hlength hclock
  rcases hend with ⟨t, -, hrun, htick⟩ | ⟨k, u, c, t, -, -, -, hrun⟩
  · exact ⟨t, hrun, htick⟩
  · have hnone : (failed? (ticked 2 (.ofNanoseconds 1000000)) twoTicksLeft).isNone := by
      decide +kernel
    have hfail : ticked 2 (.ofNanoseconds 1000000) twoTicksLeft = .error (.world c) t :=
      hticked.symm.trans hrun
    rw [failed?_of_error hfail] at hnone
    cases hnone

end Simulation
end EntityWorld
