import Mathlib.Algebra.BigOperators.Group.Finset.Basic
import Mathlib.Data.Finset.Range
import Mathlib.Data.List.Nodup
import Mathlib.Tactic.Common

/-! # Lists in buckets

    Elements are kept in an array of lists, and each carries the number of the
    bucket it is in, negative for none.
-/

namespace Buckets

open Finset Function

variable {α : Type*}

/-- The number an element carries is right, and nothing is in a bucket twice. -/
structure At (x : α) (i : Int) (f : Nat → List α) : Prop where
  nodup : ∀ k, (f k).Nodup
  mem : ∀ k, x ∈ f k ↔ i = k

/-- Insertion at the end of one bucket. -/
def insert (f : Nat → List α) (k : Nat) (x : α) : Nat → List α := update f k (f k ++ [x])

theorem insert_others {f : Nat → List α} {j : Nat} {x y : α} (hy : y ≠ x) (k : Nat) :
    y ∈ insert f j x k ↔ y ∈ f k := by
  unfold insert
  by_cases hk : k = j
  · subst hk
    simp [hy]
  · rw [update_of_ne hk]

theorem At.insert {x : α} {i : Int} {f : Nat → List α} (h : At x i f) (hi : i < 0) (j : Nat) :
    At x j (insert f j x) := by
  have hout : ∀ k, x ∉ f k := by
    intro k hk
    have := (h.mem k).mp hk
    omega
  refine ⟨fun k => ?_, fun k => ?_⟩
  · by_cases hk : k = j
    · subst hk
      simp only [Buckets.insert, update_self]
      rw [List.nodup_append]
      refine ⟨h.nodup k, List.nodup_singleton x, ?_⟩
      rintro a ha b hb rfl
      exact hout k (List.mem_singleton.mp hb ▸ ha)
    · simp only [Buckets.insert, update_of_ne hk]
      exact h.nodup k
  · by_cases hk : k = j
    · subst hk
      simp [Buckets.insert]
    · simp only [Buckets.insert, update_of_ne hk]
      constructor
      · exact fun hmem => absurd hmem (hout k)
      · intro hjk
        exact absurd (Int.ofNat.inj hjk).symm hk

/-- The number of elements in the first `n` buckets. -/
def total (n : Nat) (f : Nat → List α) : Nat := ∑ k ∈ range n, (f k).length

theorem total_update {n j : Nat} (hj : j < n) (f : Nat → List α) (l : List α) :
    total n (update f j l) + (f j).length = total n f + l.length := by
  have hmem : j ∈ range n := mem_range.mpr hj
  have hrest : ∀ k ∈ (range n).erase j, ((update f j l) k).length = (f k).length := by
    intro k hk
    rw [update_of_ne (ne_of_mem_erase hk)]
  unfold total
  rw [← add_sum_erase _ _ hmem, ← add_sum_erase _ (fun k => (f k).length) hmem,
    sum_congr rfl hrest, update_self]
  omega

theorem total_insert {n j : Nat} (hj : j < n) (f : Nat → List α) (x : α) :
    total n (insert f j x) = total n f + 1 := by
  have h := total_update hj f (f j ++ [x])
  simp only [List.length_append, List.length_singleton] at h
  unfold insert
  omega

theorem total_zero {n : Nat} {f : Nat → List α} (h : total n f = 0) {k : Nat} (hk : k < n) :
    f k = [] := by
  have hlen := (sum_eq_zero_iff.mp h) k (mem_range.mpr hk)
  exact List.length_eq_zero_iff.mp hlen

variable [DecidableEq α]

/-- Removal from one bucket. -/
def remove (f : Nat → List α) (k : Nat) (x : α) : Nat → List α := update f k ((f k).erase x)

theorem remove_others {f : Nat → List α} {j : Nat} {x y : α} (hy : y ≠ x) (k : Nat) :
    y ∈ remove f j x k ↔ y ∈ f k := by
  unfold remove
  by_cases hk : k = j
  · subst hk
    rw [update_self, List.mem_erase_of_ne hy]
  · rw [update_of_ne hk]

theorem At.remove {x : α} {j : Nat} {f : Nat → List α} (h : At x j f) {i : Int} (hi : i < 0) :
    At x i (remove f j x) := by
  refine ⟨fun k => ?_, fun k => ?_⟩
  · by_cases hk : k = j
    · subst hk
      simp only [Buckets.remove, update_self]
      exact (h.nodup k).erase x
    · simp only [Buckets.remove, update_of_ne hk]
      exact h.nodup k
  · have hne : i ≠ k := by omega
    by_cases hk : k = j
    · subst hk
      simp only [Buckets.remove, update_self, (h.nodup k).mem_erase_iff]
      simp [hne]
    · simp only [Buckets.remove, update_of_ne hk, h.mem]
      constructor
      · intro hjk
        exact absurd (Int.ofNat.inj hjk).symm hk
      · exact fun hik => absurd hik hne

/-- Removing what is not there changes nothing. -/
theorem remove_absent {x : α} {f : Nat → List α} {j : Nat} (h : x ∉ f j) : remove f j x = f := by
  unfold remove
  rw [List.erase_of_not_mem h, update_eq_self]

theorem total_remove {n j : Nat} (hj : j < n) {f : Nat → List α} {x : α} (hx : x ∈ f j) :
    total n (remove f j x) + 1 = total n f := by
  have h := total_update hj f ((f j).erase x)
  have hpos := List.length_pos_of_mem hx
  rw [List.length_erase_of_mem hx] at h
  unfold remove
  omega

end Buckets
