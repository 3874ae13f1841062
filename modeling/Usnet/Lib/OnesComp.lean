import Mathlib.Data.Nat.ModEq
import Mathlib.Tactic.Common

/-! # One's-complement sums of 16-bit words

    Addition of words with the carry put back in at the low end is addition
    modulo 65535, where 65535 stands for zero once anything but zero has been
    added.  Such a sum may be taken of the words in either byte order, in one
    go or in parts, and folded at the end or after every step.
-/

namespace OnesComp

/-! ## Section 1: Sums -/

/-- Add a word and put the carry back in. -/
def add1 (a w : Nat) : Nat := if a + w < 65536 then a + w else a + w - 65535

/-- The one's-complement sum of words. -/
def osum (ws : List Nat) : Nat := ws.foldl add1 0

/-- What a sum of words comes to when all its carries have been put back. -/
def fold (n : Nat) : Nat := if n = 0 then 0 else (n - 1) % 65535 + 1

theorem fold_le (n : Nat) : fold n ≤ 65535 := by
  unfold fold
  split <;> omega

theorem fold_mod (n : Nat) : fold n % 65535 = n % 65535 := by
  unfold fold
  split <;> omega

/-- Only a positive multiple of 65535 comes to all ones. -/
theorem fold_eq_max {n : Nat} : fold n = 65535 ↔ 0 < n ∧ n % 65535 = 0 := by
  unfold fold
  split <;> omega

/-- Sums that come to the same may be added. -/
theorem fold_add {a a' b b' : Nat} (ha : fold a = fold a') (hb : fold b = fold b') :
    fold (a + b) = fold (a' + b') := by
  unfold fold at *
  split at ha <;> split at ha <;> split at hb <;> split at hb <;> split <;> split <;> omega

/-- The two halves of a number are two of its words. -/
theorem fold_halves (a b : Nat) : fold (a + 65536 * b) = fold (a + b) := by
  unfold fold
  split <;> split <;> omega

/-- The carry out of 32 bits may be put back in, too. -/
theorem fold_carry32 (n : Nat) : fold (n % 2 ^ 32 + n / 2 ^ 32) = fold n := by
  unfold fold
  split <;> split <;> omega

theorem add1_fold (n : Nat) {w : Nat} (hw : w < 65536) : add1 (fold n) w = fold (n + w) := by
  unfold add1 fold
  split <;> split <;> split <;> omega

/-- Putting back the carry at every step or once at the end is the same. -/
theorem foldl_add1 (ws : List Nat) (n : Nat) (h : ∀ w ∈ ws, w < 65536) :
    ws.foldl add1 (fold n) = fold (n + ws.sum) := by
  induction ws generalizing n with
  | nil => rfl
  | cons w ws ih =>
    have hw := h w (by simp)
    rw [List.foldl_cons, add1_fold n hw, ih (n + w) fun x hx => h x (by simp [hx]),
      List.sum_cons, Nat.add_assoc]

theorem osum_eq {ws : List Nat} (h : ∀ w ∈ ws, w < 65536) : osum ws = fold ws.sum := by
  have hfold := foldl_add1 ws 0 h
  rw [Nat.zero_add] at hfold
  exact hfold

/-- One fold of a 32-bit sum leaves less than two turns. -/
theorem fold_once {n : Nat} (h : n < 2 ^ 32) :
    n / 65536 + n % 65536 ≤ 131070 ∧ fold (n / 65536 + n % 65536) = fold n := by
  constructor
  · omega
  · unfold fold
    split <;> split <;> omega

/-- Another one leaves the sum, up to a bit above the word. -/
theorem fold_twice {n : Nat} (h : n ≤ 131070) : (n + n / 65536) % 65536 = fold n := by
  unfold fold
  by_cases hlow : n < 65536
  · split <;> omega
  · have hcarry : n / 65536 = 1 := by omega
    rw [hcarry, if_neg (by omega)]
    omega

/-- The complement of a sum, added to it, gives all ones. -/
theorem fold_complement (n : Nat) (h : 0 < n) : fold (n + (65535 - fold n)) = 65535 := by
  have hle := fold_le n
  have hmod := fold_mod n
  rw [fold_eq_max]
  omega

/-- Two words that complete the same sum to all ones are equal, or they are the two
    words that stand for zero. -/
theorem fold_complete {n w w' : Nat} (hw : w < 65536) (hw' : w' < 65536)
    (h : fold (n + w) = 65535) (h' : fold (n + w') = 65535) :
    w = w' ∨ w = 0 ∧ w' = 65535 ∨ w = 65535 ∧ w' = 0 := by
  rw [fold_eq_max] at h h'
  omega

/-! ## Section 2: Words of bytes -/

/-- The 16-bit words of a list of bytes, an odd one padded with zero; `f` says
    which byte counts 256. -/
def words (f : Nat → Nat → Nat) : List UInt8 → List Nat
  | [] => []
  | [b] => [f b.toNat 0]
  | b :: c :: l => f b.toNat c.toNat :: words f l

/-- The first byte is the high one. -/
def big (b c : Nat) : Nat := 256 * b + c

/-- The first byte is the low one. -/
def little (b c : Nat) : Nat := b + 256 * c

theorem words_append (f : Nat → Nat → Nat) (l l' : List UInt8) (h : l.length % 2 = 0) :
    words f (l ++ l') = words f l ++ words f l' := by
  induction l using words.induct with
  | case1 => rfl
  | case2 b => simp at h
  | case3 b c l ih =>
    rw [List.length_cons, List.length_cons] at h
    rw [List.cons_append, List.cons_append, words, words, List.cons_append, ih (by omega)]

/-- Words below 65536 in either order. -/
theorem words_lt {f : Nat → Nat → Nat} (hf : ∀ b c, b < 256 → c < 256 → f b c < 65536)
    (l : List UInt8) : ∀ w ∈ words f l, w < 65536 := by
  induction l using words.induct with
  | case1 => simp [words]
  | case2 b =>
    intro w hw
    rw [List.mem_singleton.mp hw]
    exact hf _ _ b.toNat_lt (by decide)
  | case3 b c l ih =>
    intro w hw
    rcases List.mem_cons.mp hw with rfl | hw
    · exact hf _ _ b.toNat_lt c.toNat_lt
    · exact ih w hw

theorem big_lt (b c : Nat) (hb : b < 256) (hc : c < 256) : big b c < 65536 := by
  unfold big
  omega

theorem little_lt (b c : Nat) (hb : b < 256) (hc : c < 256) : little b c < 65536 := by
  unfold little
  omega

/-- There are as many words as pairs of bytes have begun. -/
theorem words_length (f : Nat → Nat → Nat) (l : List UInt8) :
    (words f l).length = (l.length + 1) / 2 := by
  induction l using words.induct with
  | case1 => rfl
  | case2 b => simp [words]
  | case3 b c l ih =>
    rw [words, List.length_cons, ih, List.length_cons, List.length_cons]
    omega

theorem sum_le_of_lt (ws : List Nat) (h : ∀ w ∈ ws, w < 65536) :
    ws.sum ≤ 65535 * ws.length := by
  induction ws with
  | nil => rfl
  | cons w ws ih =>
    have hw := h w (by simp)
    have hrest := ih fun x hx => h x (by simp [hx])
    rw [List.sum_cons, List.length_cons]
    omega

/-- The sum of the words the other way round is 256 times the sum, modulo 65535. -/
theorem sum_little_mod (l : List UInt8) :
    (words little l).sum % 65535 = 256 * (words big l).sum % 65535 := by
  induction l using words.induct with
  | case1 => rfl
  | case2 b =>
    simp only [words, List.sum_cons, List.sum_nil, little, big]
    omega
  | case3 b c l ih =>
    simp only [words, List.sum_cons, little, big]
    omega

/-- Both are zero where all bytes are. -/
theorem sum_little_eq_zero (l : List UInt8) :
    (words little l).sum = 0 ↔ (words big l).sum = 0 := by
  induction l using words.induct with
  | case1 => rfl
  | case2 b =>
    simp only [words, List.sum_cons, List.sum_nil, little, big]
    omega
  | case3 b c l ih =>
    simp only [words, List.sum_cons, little, big]
    omega

/-- Whether a sum comes to all ones does not depend on the byte order. -/
theorem osum_little_eq_max (l : List UInt8) :
    fold (words little l).sum = 65535 ↔ osum (words big l) = 65535 := by
  have hmod := sum_little_mod l
  have hzero := sum_little_eq_zero l
  rw [osum_eq (words_lt big_lt l), fold_eq_max, fold_eq_max]
  omega

end OnesComp
