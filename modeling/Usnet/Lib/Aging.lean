import Usnet.Lib.CInt

/-! # Lists in the order of their time stamps

    Elements carry the time they were last seen, modulo `2^32`, and are kept
    with the oldest in front.  As long as nothing is older than `2^31`, the
    order by age is the order by signed difference of the stamps.
-/

namespace Aging

open CInt

variable {α : Type*}

/-- Oldest first, and nothing older than half the range of the clock. -/
structure Aged (now : UInt32) (f : α → UInt32) (l : List α) : Prop where
  sorted : l.Pairwise fun a b => ahead (f b) now ≤ ahead (f a) now
  recent : ∀ a ∈ l, ahead (f a) now < 2 ^ 31

theorem Aged.nil {now : UInt32} {f : α → UInt32} : Aged now f [] :=
  ⟨.nil, fun _ ha => absurd ha List.not_mem_nil⟩

/-- Only the stamps of the elements count. -/
theorem Aged.congr {now : UInt32} {f g : α → UInt32} {l : List α} (h : Aged now f l)
    (hfg : ∀ a ∈ l, g a = f a) : Aged now g l := by
  constructor
  · refine h.sorted.imp_of_mem fun ha hb hab => ?_
    rw [hfg _ ha, hfg _ hb]
    exact hab
  · intro a ha
    rw [hfg a ha]
    exact h.recent a ha

theorem Aged.sublist {now : UInt32} {f : α → UInt32} {l l' : List α} (h : Aged now f l)
    (hl : l'.Sublist l) : Aged now f l' :=
  ⟨h.sorted.sublist hl, fun a ha => h.recent a (hl.subset ha)⟩

/-- The stamp of what is not on the list does not count. -/
theorem Aged.update [DecidableEq α] {now ts ts' : UInt32} {f : α → UInt32} {x : α} {l : List α}
    (h : Aged now (Function.update f x ts) l) (hx : x ∉ l) :
    Aged now (Function.update f x ts') l := by
  refine h.congr fun a ha => ?_
  have hne : a ≠ x := fun hax => hx (hax ▸ ha)
  rw [Function.update_of_ne hne, Function.update_of_ne hne]

/-- What has just been seen goes to the end. -/
theorem Aged.append {now : UInt32} {f : α → UInt32} {l : List α} (h : Aged now f l) {x : α}
    (hx : f x = now) : Aged now f (l ++ [x]) := by
  have hage : ahead (f x) now = 0 := by rw [hx, ahead_self]
  constructor
  · refine List.pairwise_append.mpr ⟨h.sorted, List.pairwise_singleton _ _, ?_⟩
    intro a _ b hb
    rw [List.mem_singleton.mp hb, hage]
    exact Nat.zero_le _
  · intro a ha
    rcases List.mem_append.mp ha with ha | ha
    · exact h.recent a ha
    · rw [List.mem_singleton.mp ha, hage]
      exact Nat.two_pow_pos 31

/-- The clock goes on, by no more than half its range at a time. -/
theorem Aged.later {now now' : UInt32} {f : α → UInt32} {l : List α} (h : Aged now f l)
    (hle : ahead now now' ≤ 2 ^ 31) (hrecent : ∀ a ∈ l, ahead (f a) now' < 2 ^ 31) :
    Aged now' f l := by
  refine ⟨h.sorted.imp_of_mem fun {a b} ha hb hab => ?_, hrecent⟩
  have hage : ∀ c ∈ l, ahead (f c) now' = ahead (f c) now + ahead now now' := by
    intro c hc
    have hlt := h.recent c hc
    exact ahead_trans (by omega)
  rw [hage a ha, hage b hb]
  exact Nat.add_le_add_right hab _

/-- The order of the stamps themselves. -/
theorem Aged.stamps {now : UInt32} {f : α → UInt32} {l : List α} (h : Aged now f l) :
    l.Pairwise fun a b => sint (f a - f b) ≤ 0 := by
  refine h.sorted.imp_of_mem fun {a b} ha hb hab => ?_
  have hdist : ahead (f a) (f b) = ahead (f a) now - ahead (f b) now := by
    have hlt := h.recent a ha
    unfold ahead at *
    simp only [toNat_sub] at *
    have := (f a).toNat_lt
    have := (f b).toNat_lt
    have := now.toNat_lt
    omega
  have hlt := h.recent a ha
  rw [sint_sub_eq (h := f a) (by rw [ahead_self]; omega) (by omega), ahead_self, hdist]
  omega

/-- The signed age of an element is its age. -/
theorem Aged.age {now : UInt32} {f : α → UInt32} {l : List α} (h : Aged now f l) {a : α}
    (ha : a ∈ l) : sint (now - f a) = ahead (f a) now :=
  sint_of_lt (h.recent a ha)

/-- Behind an element that is younger than a bound there are only such. -/
theorem Aged.fresh {now : UInt32} {f : α → UInt32} {x : α} {l : List α} {n : Int}
    (h : Aged now f (x :: l)) (hx : sint (now - f x) < n) {a : α} (ha : a ∈ l) :
    sint (now - f a) < n := by
  have hsorted := (List.pairwise_cons.mp h.sorted).1 a ha
  rw [h.age (List.mem_cons_of_mem x ha)]
  rw [h.age List.mem_cons_self] at hx
  omega

end Aging
