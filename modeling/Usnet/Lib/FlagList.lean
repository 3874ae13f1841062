import Mathlib.Data.List.Nodup
import Mathlib.Tactic.Common

/-! # Lists with a membership flag

    An element of a list carries a flag that says whether it is on the list, and
    the list carries a counter.  `Linked` relates the three; `Relinks` says that
    an operation on one element keeps them related and moves nobody else.
-/

namespace FlagList

variable {α : Type*}

/-- A flag of an element, the list and its counter. -/
abbrev Queue (α : Type*) : Type _ := Bool × List α × Int

/-- Flag, list and counter agree about `x`. -/
structure Linked (x : α) (q : Queue α) : Prop where
  nodup : q.2.1.Nodup
  mem : x ∈ q.2.1 ↔ q.1 = true
  cnt : q.2.2 = q.2.1.length

/-- An operation on `x` keeps them in agreement, and keeps the others. -/
structure Relinks (x : α) (q q' : Queue α) : Prop where
  linked : Linked x q → Linked x q'
  others : ∀ y, y ≠ x → (y ∈ q'.2.1 ↔ y ∈ q.2.1)

theorem Relinks.refl {x : α} {q : Queue α} : Relinks x q q := ⟨fun h => h, fun _ _ => Iff.rfl⟩

theorem Relinks.of_eq {x : α} {q q' : Queue α} (h : q' = q) : Relinks x q q' := h ▸ .refl

theorem Relinks.trans {x : α} {q r q' : Queue α} (h : Relinks x q r) (h' : Relinks x r q') :
    Relinks x q q' :=
  ⟨fun hq => h'.linked (h.linked hq), fun y hy => (h'.others y hy).trans (h.others y hy)⟩

/-- Insertion at the end, of an element that is not on the list. -/
theorem Relinks.append (x : α) (l : List α) (n : Int) :
    Relinks x (false, l, n) (true, l ++ [x], n + 1) := by
  constructor
  · intro h
    have hx : x ∉ l := by simpa using h.mem
    refine ⟨?_, by simp, ?_⟩
    · rw [List.nodup_append]
      refine ⟨h.nodup, List.nodup_singleton x, ?_⟩
      intro a ha b hb hab
      rw [List.mem_singleton.mp hb] at hab
      exact hx (hab ▸ ha)
    · have := h.cnt
      simp only [List.length_append, List.length_singleton] at this ⊢
      omega
  · intro y hy
    simp [hy]

/-- Insertion in front. -/
theorem Relinks.cons (x : α) (l : List α) (n : Int) :
    Relinks x (false, l, n) (true, x :: l, n + 1) := by
  constructor
  · intro h
    have hx : x ∉ l := by simpa using h.mem
    refine ⟨List.nodup_cons.mpr ⟨hx, h.nodup⟩, by simp, ?_⟩
    have := h.cnt
    simp only [List.length_cons] at this ⊢
    omega
  · intro y hy
    simp [hy]

variable [DecidableEq α]

/-- Removal of an element that is on the list. -/
theorem Relinks.erase (x : α) (l : List α) (n : Int) :
    Relinks x (true, l, n) (false, l.erase x, n - 1) := by
  constructor
  · intro h
    have hx : x ∈ l := h.mem.mpr rfl
    refine ⟨h.nodup.erase x, by simp [h.nodup.mem_erase_iff], ?_⟩
    have hcnt := h.cnt
    have hpos := List.length_pos_of_mem hx
    simp only [List.length_erase_of_mem hx] at hcnt ⊢
    omega
  · intro y hy
    exact List.mem_erase_of_ne hy

/-- A move to the end. -/
theorem Relinks.move (x : α) (l : List α) (n : Int) :
    Relinks x (true, l, n) (true, l.erase x ++ [x], n) := by
  have h := (Relinks.erase x l n).trans (Relinks.append x (l.erase x) (n - 1))
  rwa [Int.sub_add_cancel] at h

end FlagList
