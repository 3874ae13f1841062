import Usnet.Lib.Circular

/-! # Reading a ring in pieces

    A reader takes at most `c` bytes at a time from a position on, each time in
    one block, and starts again at zero when it has come to the end.  It never
    looks where the end is, so a piece may lie across it.
-/

namespace Circular

variable {β : Type*}

/-- A position at or behind the end is counted from zero again. -/
def wrap (size p : Nat) : Nat := if size ≤ p then p - size else p

theorem wrap_modEq (size p : Nat) : wrap size p ≡ p [MOD size] := by
  unfold wrap
  split
  · exact ((Nat.modEq_iff_dvd' (by omega)).mpr ⟨1, by omega⟩)
  · rfl

theorem wrap_le {size p : Nat} (h : p ≤ 2 * size) : wrap size p ≤ size := by
  unfold wrap
  split <;> omega

theorem window_wrap (mem : Nat → β) (size p n : Nat) :
    window mem size (wrap size p) n = window mem size p n := by
  unfold wrap
  split
  · rw [← window_add_size, Nat.sub_add_cancel ‹_›]
  · rfl

/-- The bytes from one position to another, which is reached without passing the
    first again. -/
def span (size p q : Nat) : Nat := if p ≤ q then q - p else size + q - p

theorem span_modEq {size p q : Nat} (hp : p ≤ size) : p + span size p q ≡ q [MOD size] := by
  unfold span
  split
  · rw [Nat.add_sub_cancel' ‹_›]
  · rw [show p + (size + q - p) = q + size by omega]
    exact Nat.add_modEq_right

theorem span_le {size p q : Nat} (hq : q ≤ size) : span size p q ≤ size := by
  unfold span
  split <;> omega

theorem span_lt {size p q : Nat} (hq : q < size) : span size p q < size := by
  unfold span
  split <;> omega

/-- Going on from the first position leaves so much less. -/
theorem span_wrap {size p q n : Nat} (hp : p ≤ size) (hq : q < size)
    (hn : n ≤ span size p q) : span size (wrap size (p + n)) q = span size p q - n := by
  unfold span wrap at *
  split_ifs at hn ⊢ <;> omega

/-- The pieces, as offset and length, in which `n` bytes are read from `p` on. -/
def pieces (size c p n : Nat) : List (Nat × Nat) :=
  if 0 < c ∧ 0 < n then
    (p, min c n) :: pieces size c (wrap size (p + min c n)) (n - min c n)
  else []
termination_by n
decreasing_by omega

@[simp] theorem pieces_zero (size c p : Nat) : pieces size c p 0 = [] := by
  rw [pieces]
  simp

theorem pieces_pos {size c p n : Nat} (hc : 0 < c) (hn : 0 < n) :
    pieces size c p n
      = (p, min c n) :: pieces size c (wrap size (p + min c n)) (n - min c n) := by
  rw [pieces, if_pos ⟨hc, hn⟩]

/-- No piece reaches behind the end of the block. -/
def Inside (size : Nat) (l : List (Nat × Nat)) : Prop := ∀ q ∈ l, q.1 + q.2 ≤ size

theorem Inside.nil (size : Nat) : Inside size [] := fun _ h => nomatch h

theorem inside_cons {size : Nat} {q : Nat × Nat} {l : List (Nat × Nat)} :
    Inside size (q :: l) ↔ q.1 + q.2 ≤ size ∧ Inside size l :=
  List.forall_mem_cons

/-- Pieces inside the block read what lies there cyclically. -/
theorem pieces_read (mem : Nat → β) {size c : Nat} (hc : 0 < c) (n : Nat) {p : Nat}
    (h : Inside size (pieces size c p n)) :
    (pieces size c p n).flatMap (fun q => slice mem q.1 q.2) = window mem size p n := by
  induction n using Nat.strong_induction_on generalizing p with
  | _ n ih =>
    by_cases hn : 0 < n
    · rw [pieces_pos hc hn] at h ⊢
      obtain ⟨hfirst, hrest⟩ := inside_cons.mp h
      rw [List.flatMap_cons, ih (n - min c n) (by omega) hrest, window_wrap,
        ← window_eq_of_le hfirst, ← window_append]
      congr 1
      omega
    · obtain rfl : n = 0 := by omega
      simp

/-- What ends before the end of the block is read inside it. -/
theorem pieces_inside_of_le {size c : Nat} (hc : 0 < c) (n : Nat) {p : Nat}
    (h : p + n ≤ size) : Inside size (pieces size c p n) := by
  induction n using Nat.strong_induction_on generalizing p with
  | _ n ih =>
    by_cases hn : 0 < n
    · rw [pieces_pos hc hn]
      refine inside_cons.mpr ⟨by simp only; omega, ih _ (by omega) ?_⟩
      unfold wrap
      split <;> omega
    · obtain rfl : n = 0 := by omega
      rw [pieces_zero]
      exact .nil size

/-- Otherwise the end has to lie between two pieces. -/
theorem pieces_inside_iff {size c : Nat} (hc : 0 < c) (n : Nat) {p : Nat} (hp : p < size)
    (hn : n ≤ size) :
    Inside size (pieces size c p n) ↔ p + n ≤ size ∨ c ∣ size - p := by
  induction n using Nat.strong_induction_on generalizing p with
  | _ n ih =>
    by_cases hle : p + n ≤ size
    · exact ⟨fun _ => .inl hle, fun _ => pieces_inside_of_le hc n hle⟩
    · have hpos : 0 < n := by omega
      -- the first full piece leaves a shorter way to the end
      have hstep : c ≤ size - p → (c ∣ size - (p + c) ↔ c ∣ size - p) := by
        intro hcp
        rw [show size - p = size - (p + c) + c by omega]
        exact (Nat.dvd_add_self_right).symm
      rw [pieces_pos hc hpos, inside_cons]
      refine ⟨fun ⟨hfirst, hrest⟩ => .inr ?_, fun hdvd => ?_⟩
      · have hmin : min c n = c := by
          simp only at hfirst
          omega
        rw [hmin] at hfirst hrest
        simp only at hfirst
        rcases Nat.lt_or_ge (p + c) size with hlt | hge
        · have hwrap : wrap size (p + c) = p + c := by
            unfold wrap
            exact if_neg (by omega)
          rw [hwrap, ih (n - c) (by omega) hlt (by omega)] at hrest
          exact (hstep (by omega)).mp (hrest.resolve_left (by omega))
        · rw [show size - p = c by omega]
      · have hdvd := hdvd.resolve_left hle
        have hcp : c ≤ size - p := Nat.le_of_dvd (by omega) hdvd
        have hmin : min c n = c := by omega
        rw [hmin]
        refine ⟨by simp only; omega, ?_⟩
        rcases Nat.lt_or_ge (p + c) size with hlt | hge
        · have hwrap : wrap size (p + c) = p + c := by
            unfold wrap
            exact if_neg (by omega)
          rw [hwrap, ih (n - c) (by omega) hlt (by omega)]
          exact .inr ((hstep hcp).mpr hdvd)
        · have hwrap : wrap size (p + c) = 0 := by
            unfold wrap
            rw [if_pos hge]
            omega
          rw [hwrap]
          exact pieces_inside_of_le hc _ (by omega)

/-- From the very end nothing is read inside the block. -/
theorem pieces_not_inside {size c n : Nat} (hc : 0 < c) (hn : 0 < n) :
    ¬ Inside size (pieces size c size n) := by
  rw [pieces_pos hc hn, inside_cons]
  rintro ⟨hfirst, -⟩
  simp only at hfirst
  omega

end Circular
