import Mathlib.Data.List.Basic
import Mathlib.Data.Set.Lattice
import Mathlib.Order.Bounds.Basic
import Mathlib.Tactic

/-! # Lists of separated intervals

    A set of naturals kept as a list of half-open intervals in increasing
    order, with a gap between any two.  Inserting an interval merges it with
    every interval it overlaps or touches.
-/

namespace IvList

/-- The interval from `lo` up to, not including, `hi`. -/
structure Iv where
  lo : Nat
  hi : Nat

/-- The members of an interval. -/
def Iv.toSet (i : Iv) : Set Nat := {x | i.lo ≤ x ∧ x < i.hi}

/-- The members of a list of intervals. -/
def cover (l : List Iv) : Set Nat := {x | ∃ i ∈ l, x ∈ i.toSet}

/-- Overlapping intervals, or such that one begins where the other ends. -/
def Iv.touches (a b : Iv) : Prop := b.lo ≤ a.hi ∧ a.lo ≤ b.hi

instance (a b : Iv) : Decidable (a.touches b) :=
  inferInstanceAs (Decidable (b.lo ≤ a.hi ∧ a.lo ≤ b.hi))

/-- The interval spanned by two. -/
def Iv.merge (a b : Iv) : Iv := ⟨min a.lo b.lo, max a.hi b.hi⟩

/-- Insertion into a sorted list, absorbing whatever touches. -/
def insertIv (n : Iv) : List Iv → List Iv
  | [] => [n]
  | i :: t =>
    if n.touches i then insertIv (n.merge i) t
    else if n.hi < i.lo then n :: i :: t
    else i :: insertIv n t

/-- Nonempty intervals in increasing order with gaps between them. -/
structure Separated (l : List Iv) : Prop where
  nonempty : ∀ i ∈ l, i.lo < i.hi
  sorted : l.Pairwise fun a b => a.hi < b.lo

/-! ## Section 1: Covered sets -/

@[simp] theorem Iv.mem_toSet {i : Iv} {x : Nat} : x ∈ i.toSet ↔ i.lo ≤ x ∧ x < i.hi :=
  Iff.rfl

@[simp] theorem mem_cover {l : List Iv} {x : Nat} :
    x ∈ cover l ↔ ∃ i ∈ l, i.lo ≤ x ∧ x < i.hi :=
  Iff.rfl

@[simp] theorem cover_nil : cover [] = ∅ := by
  ext x
  simp

theorem cover_cons (i : Iv) (l : List Iv) : cover (i :: l) = i.toSet ∪ cover l := by
  ext x
  simp

/-- Touching intervals span exactly their union. -/
theorem toSet_merge {a b : Iv} (h : a.touches b) :
    (a.merge b).toSet = a.toSet ∪ b.toSet := by
  obtain ⟨h₁, h₂⟩ := h
  ext x
  simp only [Iv.merge, Iv.mem_toSet, Set.mem_union]
  omega

theorem merge_lt {a b : Iv} (ha : a.lo < a.hi) : (a.merge b).lo < (a.merge b).hi := by
  simp only [Iv.merge]
  omega

/-! ## Section 2: Separated lists -/

theorem separated_nil : Separated [] := ⟨by simp, List.Pairwise.nil⟩

theorem separated_cons {i : Iv} {l : List Iv} :
    Separated (i :: l) ↔ i.lo < i.hi ∧ (∀ j ∈ l, i.hi < j.lo) ∧ Separated l := by
  constructor
  · rintro ⟨hne, hs⟩
    rw [List.pairwise_cons] at hs
    exact ⟨hne i (by simp), hs.1, fun j hj => hne j (by simp [hj]), hs.2⟩
  · rintro ⟨hi, hlt, hne, hs⟩
    refine ⟨?_, List.pairwise_cons.mpr ⟨hlt, hs⟩⟩
    intro j hj
    rcases List.mem_cons.mp hj with rfl | hj
    · exact hi
    · exact hne j hj

/-- Whatever lies below all intervals and the new one lies below the result. -/
theorem lower_insertIv {n : Iv} {l : List Iv} {b : Nat} (hn : b ≤ n.lo)
    (hl : ∀ i ∈ l, b ≤ i.lo) : ∀ i ∈ insertIv n l, b ≤ i.lo := by
  induction l generalizing n with
  | nil =>
    intro i hi
    rw [List.mem_singleton.mp hi]
    exact hn
  | cons j t ih =>
    have hj := hl j (by simp)
    have ht : ∀ i ∈ t, b ≤ i.lo := fun i hi => hl i (by simp [hi])
    unfold insertIv
    split
    · exact ih (by simp only [Iv.merge]; omega) ht
    · split
      · intro i hi
        rcases List.mem_cons.mp hi with rfl | hi
        · exact hn
        · exact hl i hi
      · intro i hi
        rcases List.mem_cons.mp hi with rfl | hi
        · exact hj
        · exact ih hn ht i hi

/-- Whatever lies above all intervals and the new one lies above the result. -/
theorem upper_insertIv {n : Iv} {l : List Iv} {b : Nat} (hn : n.hi ≤ b)
    (hl : ∀ i ∈ l, i.hi ≤ b) : ∀ i ∈ insertIv n l, i.hi ≤ b := by
  induction l generalizing n with
  | nil =>
    intro i hi
    rw [List.mem_singleton.mp hi]
    exact hn
  | cons j t ih =>
    have hj := hl j (by simp)
    have ht : ∀ i ∈ t, i.hi ≤ b := fun i hi => hl i (by simp [hi])
    unfold insertIv
    split
    · exact ih (by simp only [Iv.merge]; omega) ht
    · split
      · intro i hi
        rcases List.mem_cons.mp hi with rfl | hi
        · exact hn
        · exact hl i hi
      · intro i hi
        rcases List.mem_cons.mp hi with rfl | hi
        · exact hj
        · exact ih hn ht i hi

/-- Insertion keeps a list separated. -/
theorem separated_insertIv {n : Iv} {l : List Iv} (hn : n.lo < n.hi) (hl : Separated l) :
    Separated (insertIv n l) := by
  induction l generalizing n with
  | nil => exact separated_cons.mpr ⟨hn, by simp, separated_nil⟩
  | cons j t ih =>
    obtain ⟨hj, hlt, ht⟩ := separated_cons.mp hl
    unfold insertIv
    split
    · exact ih (merge_lt hn) ht
    · rename_i htouch
      split
      · rename_i hlo
        refine separated_cons.mpr ⟨hn, ?_, hl⟩
        intro i hi
        rcases List.mem_cons.mp hi with rfl | hi
        · exact hlo
        · have := hlt i hi
          omega
      · rename_i hlo
        -- the new interval lies wholly behind `j`
        have hjn : j.hi < n.lo := by
          unfold Iv.touches at htouch
          omega
        refine separated_cons.mpr ⟨hj, ?_, ih hn ht⟩
        intro i hi
        exact lower_insertIv (b := j.hi + 1) hjn (fun i hi => hlt i hi) i hi

/-- Insertion adds exactly the new interval's members. -/
theorem cover_insertIv {n : Iv} {l : List Iv} (hn : n.lo < n.hi) (hl : Separated l) :
    cover (insertIv n l) = n.toSet ∪ cover l := by
  induction l generalizing n with
  | nil => simp [insertIv, cover_cons]
  | cons j t ih =>
    obtain ⟨-, -, ht⟩ := separated_cons.mp hl
    unfold insertIv
    split
    · rename_i htouch
      rw [ih (merge_lt hn) ht, toSet_merge htouch, cover_cons, Set.union_assoc]
    · split
      · rw [cover_cons]
      · rw [cover_cons, ih hn ht, cover_cons]
        exact Set.union_left_comm _ _ _

/-! ## Section 3: Absorbing the front -/

/-- Move an interval `k` towards zero. -/
def Iv.shift (k : Nat) (i : Iv) : Iv := ⟨i.lo - k, i.hi - k⟩

/-- When the first interval starts at zero it is taken off, and the rest is
    counted from its end. -/
def absorb : List Iv → Nat × List Iv
  | [] => (0, [])
  | i :: t => if i.lo = 0 then (i.hi, t.map (Iv.shift i.hi)) else (0, i :: t)

theorem absorb_cons (i : Iv) (t : List Iv) :
    absorb (i :: t) = if i.lo = 0 then (i.hi, t.map (Iv.shift i.hi)) else (0, i :: t) := rfl

/-- What absorbing leaves behind starts strictly after the new zero. -/
theorem absorb_pos {l : List Iv} (h : Separated l) : ∀ i ∈ (absorb l).2, 0 < i.lo := by
  cases l with
  | nil => simp [absorb]
  | cons j t =>
    obtain ⟨hj, hlt, -⟩ := separated_cons.mp h
    rw [absorb_cons]
    split
    · intro i hi
      obtain ⟨i', hi', rfl⟩ := List.mem_map.mp hi
      have := hlt i' hi'
      simp only [Iv.shift]
      omega
    · intro i hi
      rcases List.mem_cons.mp hi with rfl | hi
      · omega
      · have := hlt i hi
        omega

theorem separated_absorb {l : List Iv} (h : Separated l) : Separated (absorb l).2 := by
  cases l with
  | nil => exact separated_nil
  | cons j t =>
    obtain ⟨hj, hlt, hne, hs⟩ := separated_cons.mp h
    rw [absorb_cons]
    split
    · refine ⟨?_, ?_⟩
      · intro i hi
        obtain ⟨i', hi', rfl⟩ := List.mem_map.mp hi
        have := hne i' hi'
        have := hlt i' hi'
        simp only [Iv.shift]
        omega
      · rw [List.pairwise_map]
        refine hs.imp_of_mem ?_
        intro a b ha hb hab
        have := hlt b hb
        simp only [Iv.shift]
        omega
    · exact h

theorem upper_absorb {l : List Iv} {b : Nat} (h : ∀ i ∈ l, i.hi ≤ b) :
    ∀ i ∈ (absorb l).2, i.hi ≤ b := by
  cases l with
  | nil => simp [absorb]
  | cons j t =>
    rw [absorb_cons]
    split
    · intro i hi
      obtain ⟨i', hi', rfl⟩ := List.mem_map.mp hi
      have := h i' (by simp [hi'])
      simp only [Iv.shift]
      omega
    · exact h

/-- The members before and after absorbing, counted from the new zero. -/
theorem mem_cover_absorb {l : List Iv} (h : Separated l) (x : Nat) :
    (absorb l).1 + x ∈ cover l ↔ x ∈ cover (absorb l).2 := by
  cases l with
  | nil => simp [absorb]
  | cons j t =>
    obtain ⟨hj, hlt, -⟩ := separated_cons.mp h
    rw [absorb_cons]
    split
    · rename_i h0
      simp only [mem_cover, List.mem_cons, List.mem_map]
      constructor
      · rintro ⟨i, rfl | hi, h₁, h₂⟩
        · omega
        · exact ⟨_, ⟨i, hi, rfl⟩, by simp only [Iv.shift]; omega, by simp only [Iv.shift]; omega⟩
      · rintro ⟨_, ⟨i, hi, rfl⟩, h₁, h₂⟩
        have := hlt i hi
        simp only [Iv.shift] at h₁ h₂
        exact ⟨i, .inr hi, by omega, by omega⟩
    · simp

/-- Everything up to the new zero was covered. -/
theorem mem_cover_of_lt_absorb {l : List Iv} {x : Nat} (h : x < (absorb l).1) :
    x ∈ cover l := by
  cases l with
  | nil => simp [absorb] at h
  | cons j t =>
    rw [absorb_cons] at h
    split at h
    · exact ⟨j, by simp, by simp only [Iv.mem_toSet]; omega⟩
    · simp at h

theorem absorb_fst_le {l : List Iv} {b : Nat} (h : ∀ i ∈ l, i.hi ≤ b) : (absorb l).1 ≤ b := by
  cases l with
  | nil => simp [absorb]
  | cons j t =>
    rw [absorb_cons]
    split
    · exact h j (by simp)
    · simp

/-- The new zero itself was not covered. -/
theorem absorb_fst_not_mem {l : List Iv} (h : Separated l) : (absorb l).1 ∉ cover l := by
  have hmem := mem_cover_absorb h 0
  rw [Nat.add_zero] at hmem
  rw [hmem]
  rintro ⟨i, hi, hlo, -⟩
  have := absorb_pos h i hi
  omega

/-- Absorbing goes past `n` when everything up to `n` is covered. -/
theorem lt_absorb_fst_iff {l : List Iv} (h : Separated l) (n : Nat) :
    n < (absorb l).1 ↔ ∀ x ≤ n, x ∈ cover l := by
  constructor
  · intro hn x hx
    exact mem_cover_of_lt_absorb (Nat.lt_of_le_of_lt hx hn)
  · intro hall
    by_contra hle
    exact absorb_fst_not_mem h (hall _ (by omega))

end IvList
