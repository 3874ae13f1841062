import Mathlib.Logic.Relation
import Mathlib.Tactic

/-! # Walking over a sequence of items

    A parser moves from the start of one item to the start of the next until it
    stops.  It may meet an item that leads back to itself and repeat for ever.
-/

namespace Walk

open Relation

/-! ## Section 1: The items met -/

variable {next : Nat → Option Nat} {n : Nat}

/-- The positions met in `fuel` turns. -/
def walk (next : Nat → Option Nat) : Nat → Nat → List Nat
  | 0, _ => []
  | fuel + 1, i => i :: (match next i with
    | none => []
    | some j => walk next fuel j)

/-- The positions met at all. -/
def Visited (next : Nat → Option Nat) : Nat → Nat → Prop :=
  ReflTransGen fun i j => next i = some j

/-- No position is met after the end, and none before the last one met. -/
structure Forward (next : Nat → Option Nat) (n : Nat) : Prop where
  inside : ∀ i j, next i = some j → i < n
  onward : ∀ i j, next i = some j → i ≤ j

theorem Visited.of_walk {fuel i j : Nat} (h : j ∈ walk next fuel i) : Visited next i j := by
  induction fuel generalizing i with
  | zero => cases h
  | succ fuel ih =>
    unfold walk at h
    rcases List.mem_cons.mp h with rfl | h
    · exact .refl
    · split at h
      · cases h
      · rename_i k hk
        exact .head hk (ih h)

/-- An item that leads back to itself is the last one met. -/
theorem Visited.stuck {i j : Nat} (hi : next i = some i) (h : Visited next i j) : j = i := by
  induction h with
  | refl => rfl
  | tail _ hs ih =>
    rw [ih, hi] at hs
    exact (Option.some.inj hs).symm

/-- Enough turns meet every position. -/
theorem Visited.mem_walk (hf : Forward next n) {fuel i j : Nat} (hfuel : n - i < fuel)
    (h : Visited next i j) : j ∈ walk next fuel i := by
  induction fuel generalizing i with
  | zero => omega
  | succ fuel ih =>
    unfold walk
    rcases ReflTransGen.cases_head h with rfl | ⟨k, hk, hkj⟩
    · exact List.mem_cons_self
    · have hlt := hf.inside i k hk
      have hle := hf.onward i k hk
      by_cases hself : k = i
      · subst hself
        rw [Visited.stuck hk hkj]
        exact List.mem_cons_self
      · rw [hk]
        exact List.mem_cons_of_mem _ (ih (by omega) hkj)

/-- What enough turns meet. -/
theorem mem_walk_iff (hf : Forward next n) {fuel i j : Nat} (hfuel : n - i < fuel) :
    j ∈ walk next fuel i ↔ Visited next i j :=
  ⟨.of_walk, fun h => h.mem_walk hf hfuel⟩

/-! ## Section 2: Walks that end -/

/-- The walk stops within `fuel` turns. -/
def ended (next : Nat → Option Nat) : Nat → Nat → Bool
  | 0, _ => false
  | fuel + 1, i => match next i with
    | none => true
    | some j => ended next fuel j

/-- A walk that ends meets no item that leads back to itself. -/
theorem ended_not_stuck {fuel i j : Nat} (h : ended next fuel i = true) (hj : Visited next i j) :
    next j ≠ some j := by
  induction fuel generalizing i with
  | zero => cases h
  | succ fuel ih =>
    unfold ended at h
    rcases ReflTransGen.cases_head hj with rfl | ⟨k, hk, hkj⟩
    · intro hself
      rw [hself] at h
      exact ih h .refl hself
    · rw [hk] at h
      exact ih h hkj

/-- Where nothing leads back to itself the distance from the end shrinks. -/
theorem ended_of_not_stuck (hf : Forward next n) {fuel i : Nat} (hfuel : n - i < fuel)
    (h : ∀ j, Visited next i j → next j ≠ some j) : ended next fuel i = true := by
  induction fuel generalizing i with
  | zero => omega
  | succ fuel ih =>
    unfold ended
    cases hk : next i with
    | none => rfl
    | some k =>
      have hlt := hf.inside i k hk
      have hle := hf.onward i k hk
      have hne : k ≠ i := by
        intro hself
        apply h i .refl
        rw [hk, hself]
      exact ih (by omega) fun j hj => h j (.head hk hj)

theorem ended_iff (hf : Forward next n) {fuel i : Nat} (hfuel : n - i < fuel) :
    ended next fuel i = true ↔ ∀ j, Visited next i j → next j ≠ some j :=
  ⟨fun h _ hj => ended_not_stuck h hj, ended_of_not_stuck hf hfuel⟩

/-! ## Section 3: Two walks over the same items -/

/-- Two ways of going on that agree wherever the first one comes lead to the same
    items. -/
theorem visited_congr {next' : Nat → Option Nat} {i : Nat}
    (h : ∀ j, Visited next i j → next j = next' j) (j : Nat) :
    Visited next' i j ↔ Visited next i j := by
  constructor
  · intro hj
    induction hj with
    | refl => exact .refl
    | tail _ hstep ih => exact ih.tail ((h _ ih).trans hstep)
  · intro hj
    induction hj with
    | refl => exact .refl
    | tail hp hstep ih => exact ih.tail ((h _ hp).symm.trans hstep)

theorem walk_congr {next' : Nat → Option Nat} {i : Nat} (fuel : Nat)
    (h : ∀ j, Visited next i j → next j = next' j) : walk next' fuel i = walk next fuel i := by
  induction fuel generalizing i with
  | zero => rfl
  | succ fuel ih =>
    unfold walk
    rw [← h i .refl]
    cases hk : next i with
    | none => rfl
    | some k => exact congrArg _ (ih fun j hj => h j (.head hk hj))

/-- A walk has one end. -/
theorem visited_end_unique {i j k : Nat} (hj : Visited next i j) (hk : Visited next i k)
    (hjn : next j = none) (hkn : next k = none) : j = k := by
  have hunique : Relator.RightUnique fun i j => next i = some j := by
    intro a b c hb hc
    exact Option.some.inj (hb.symm.trans hc)
  rcases ReflTransGen.total_of_right_unique hunique hj hk with h | h
  · rcases ReflTransGen.cases_head h with heq | ⟨c, hc, -⟩
    · exact heq
    · rw [hjn] at hc
      cases hc
  · rcases ReflTransGen.cases_head h with heq | ⟨c, hc, -⟩
    · exact heq.symm
    · rw [hkn] at hc
      cases hc

/-- A walk by its first item. -/
theorem walk_of_none {i fuel : Nat} (h : next i = none) : walk next (fuel + 1) i = [i] := by
  unfold walk
  rw [h]

theorem walk_of_some {i j fuel : Nat} (h : next i = some j) :
    walk next (fuel + 1) i = i :: walk next fuel j := by
  rw [walk, h]

end Walk
