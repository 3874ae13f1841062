import Usnet.Lib.CInt

/-! # A timing wheel

    The wheel has `n` slots and turns by one slot a tick; `idx` is the slot of the
    time `now`.  A timer whose deadline is less than `n` ticks away is in the slot
    that its distance leads to, and the others wait outside, in slot `n`.  Those
    outside are looked at from time to time only: `slack` says how far one may have
    come into range since.
-/

namespace Wheel

open CInt

/-- The difference of two signed values that has a signed value. -/
theorem sint_sub {x y : UInt32} (hlow : -2 ^ 31 ≤ sint x - sint y)
    (hup : sint x - sint y < 2 ^ 31) : sint (x - y) = sint x - sint y := by
  simp only [sint_eq, toNat_sub] at *
  have := x.toNat_lt
  have := y.toNat_lt
  split at hlow <;> split at hlow <;> split <;> omega

/-- A timer with the deadline `ts` is in the slot `k`. -/
structure Sits (n : Nat) (slack : Nat → Int) (idx : Nat) (now cur : UInt32) (k : Int)
    (ts : UInt32) : Prop where
  wheel : idx < n
  ahead : 0 ≤ sint (ts - now)
  near : sint (ts - now) - sint (cur - now) < 2 ^ 31
  place : k = n ∧ n ≤ sint (ts - now) + slack idx ∨
    sint (ts - now) < n ∧ k = (((sint (ts - now)).toNat + idx) % n : Nat)

variable {n idx : Nat} {slack : Nat → Int} {now cur ts : UInt32} {k : Int}

/-- The time since the deadline, counted over the wheel's own time. -/
theorem Sits.since (h : Sits n slack idx now cur k ts) :
    sint (cur - ts) = sint (cur - now) - sint (ts - now) := by
  have hsub : cur - ts = (cur - now) - (ts - now) := by grind
  have hahead := h.ahead
  have hnear := h.near
  have hupper := sint_upper (cur - now)
  rw [hsub, sint_sub (by omega) (by omega)]

theorem Sits.at_now (h : Sits n slack idx now cur idx ts) : sint (ts - now) = 0 := by
  have hwheel := h.wheel
  have hahead := h.ahead
  rcases h.place with ⟨hout, -⟩ | ⟨hin, hslot⟩
  · omega
  · have hmod : idx = ((sint (ts - now)).toNat + idx) % n := Int.ofNat.inj hslot
    rcases Nat.lt_or_ge ((sint (ts - now)).toNat + idx) n with hlt | hge
    · rw [Nat.mod_eq_of_lt hlt] at hmod
      omega
    · rw [Nat.mod_eq_sub_mod hge, Nat.mod_eq_of_lt (by omega)] at hmod
      omega

/-- What is in the slot of the present time is due. -/
theorem Sits.due (h : Sits n slack idx now cur idx ts) (hnow : 0 ≤ sint (cur - now)) :
    0 ≤ sint (cur - ts) := by
  rw [h.since, h.at_now]
  omega

/-- Nothing is due before the wheel gets there. -/
theorem Sits.pending (h : Sits n slack idx now cur k ts) (hnow : sint (cur - now) < 0) :
    sint (cur - ts) < 0 := by
  have hahead := h.ahead
  rw [h.since]
  omega

/-- Time goes on. -/
theorem Sits.later (h : Sits n slack idx now cur k ts) {cur' : UInt32}
    (hle : sint (cur - now) ≤ sint (cur' - now)) : Sits n slack idx now cur' k ts := by
  have hnear := h.near
  exact ⟨h.wheel, h.ahead, by omega, h.place⟩

theorem sint_sub_succ {a b : UInt32} (h : -2 ^ 31 < sint (a - b)) :
    sint (a - (b + 1)) = sint (a - b) - 1 := by
  have hsub : a - (b + 1) = (a - b) - 1 := by grind
  have hone : sint 1 = 1 := by decide
  have hupper := sint_upper (a - b)
  rw [hsub, sint_sub (by rw [hone]; omega) (by rw [hone]; omega), hone]

/-- The wheel turns on, when the slot of the present time is empty. -/
theorem Sits.advance (h : Sits n slack idx now cur k ts) (hnow : 0 ≤ sint (cur - now))
    (hempty : k ≠ idx) (hout : k = n → n ≤ sint (ts - now) - 1 + slack ((idx + 1) % n))
    (hfar : k = n → 0 < sint (ts - now)) :
    Sits n slack ((idx + 1) % n) (now + 1) cur k ts := by
  have hwheel := h.wheel
  have hahead := h.ahead
  have hnear := h.near
  have hpos : 0 < sint (ts - now) := by
    rcases h.place with ⟨hk, -⟩ | ⟨hin, hslot⟩
    · exact hfar hk
    · rcases hahead.lt_or_eq with hlt | hzero
      · exact hlt
      · refine absurd ?_ hempty
        rw [hslot, ← hzero, Int.toNat_zero, Nat.zero_add, Nat.mod_eq_of_lt hwheel]
  have hts := sint_sub_succ (a := ts) (b := now) (by omega)
  have hcur := sint_sub_succ (a := cur) (b := now) (by omega)
  refine ⟨Nat.mod_lt _ (by omega), by omega, by omega, ?_⟩
  rw [hts]
  rcases h.place with ⟨hk, -⟩ | ⟨hin, hslot⟩
  · exact .inl ⟨hk, hout hk⟩
  · refine .inr ⟨by omega, ?_⟩
    have hleft : (sint (ts - now)).toNat = (sint (ts - now) - 1).toNat + 1 := by omega
    rw [hslot, hleft, Nat.add_mod_mod]
    congr 2
    omega

end Wheel
