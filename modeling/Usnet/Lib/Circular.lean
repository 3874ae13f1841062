import Mathlib.Data.List.Basic
import Mathlib.Logic.Function.Basic
import Mathlib.Data.Nat.ModEq
import Mathlib.Tactic

/-! # Circular memory

    A block of memory addressed by natural numbers, block copies into it, and
    the contents read cyclically from a position.  A position may rest at the
    end of the block: it then denotes the same cell as position zero, which
    is what reading modulo the size says.
-/

namespace Circular

variable {β : Type*}

/-! ## Section 1: Block copies -/

/-- Copy the bytes `src` to address `off`. -/
def memcpy (mem : Nat → β) (off : Nat) (src : List β) : Nat → β :=
  fun i => if off ≤ i then src[i - off]?.getD (mem i) else mem i

theorem memcpy_below {mem : Nat → β} {off : Nat} {src : List β} {i : Nat} (h : i < off) :
    memcpy mem off src i = mem i := by
  simp [memcpy, Nat.not_le.mpr h]

theorem memcpy_above {mem : Nat → β} {off : Nat} {src : List β} {i : Nat}
    (h : off + src.length ≤ i) : memcpy mem off src i = mem i := by
  have hnone : src[i - off]? = none := List.getElem?_eq_none (by omega)
  simp [memcpy, hnone]

/-- Outside the copied block nothing changes. -/
theorem memcpy_outside {mem : Nat → β} {off : Nat} {src : List β} {i : Nat}
    (h : i < off ∨ off + src.length ≤ i) : memcpy mem off src i = mem i :=
  h.elim memcpy_below memcpy_above

theorem memcpy_inside {mem : Nat → β} {off : Nat} {src : List β} {j : Nat}
    (h : j < src.length) : memcpy mem off src (off + j) = src[j] := by
  simp [memcpy, h]

@[simp] theorem memcpy_nil (mem : Nat → β) (off : Nat) : memcpy mem off [] = mem := by
  funext i
  simp [memcpy]

/-- The `n` bytes from address `off` on, read in one piece. -/
def slice (mem : Nat → β) (off n : Nat) : List β :=
  (List.range n).map fun i => mem (off + i)

@[simp] theorem slice_length (mem : Nat → β) (off n : Nat) : (slice mem off n).length = n := by
  simp [slice]

/-! ## Section 2: Reading cyclically -/

/-- The `n` bytes found from position `p` on, in a block of `size` bytes. -/
def window (mem : Nat → β) (size p n : Nat) : List β :=
  (List.range n).map fun i => mem ((p + i) % size)

@[simp] theorem window_length (mem : Nat → β) (size p n : Nat) :
    (window mem size p n).length = n := by
  simp [window]

@[simp] theorem window_zero (mem : Nat → β) (size p : Nat) : window mem size p 0 = [] := rfl

@[simp] theorem getElem_window (mem : Nat → β) (size p n i : Nat)
    (h : i < (window mem size p n).length) :
    (window mem size p n)[i] = mem ((p + i) % size) := by
  simp [window]

/-- One reduction is enough below twice the size. -/
theorem mod_wrap {size x : Nat} (h : x < 2 * size) :
    x % size = if x < size then x else x - size := by
  split
  · exact Nat.mod_eq_of_lt ‹_›
  · rw [Nat.mod_eq_sub_mod (by omega), Nat.mod_eq_of_lt (by omega)]

/-- A window depends only on the cells it covers. -/
theorem window_congr {mem mem' : Nat → β} {size p p' n : Nat}
    (h : ∀ i < n, mem' ((p' + i) % size) = mem ((p + i) % size)) :
    window mem' size p' n = window mem size p n := by
  apply List.ext_getElem
  · simp
  · intro i h₁ h₂
    simpa using h i (by simpa using h₁)

/-- The two names of the block's end read the same bytes. -/
theorem window_end (mem : Nat → β) (size n : Nat) :
    window mem size size n = window mem size 0 n :=
  window_congr fun i _ => by rw [Nat.add_mod_left, Nat.zero_add]

/-- Reading from a position moved by one whole turn. -/
theorem window_add_size (mem : Nat → β) (size p n : Nat) :
    window mem size (p + size) n = window mem size p n :=
  window_congr fun i _ => by
    rw [show p + size + i = p + i + size by omega, Nat.add_mod_right]

theorem window_append (mem : Nat → β) (size p m n : Nat) :
    window mem size p (m + n) = window mem size p m ++ window mem size (p + m) n := by
  unfold window
  rw [List.range_add, List.map_append, List.map_map]
  simp [Function.comp_def, Nat.add_assoc]

/-- Skipping the first bytes of a window moves its start. -/
theorem window_drop {mem : Nat → β} {size p n k : Nat} (h : k ≤ n) :
    (window mem size p n).drop k = window mem size (p + k) (n - k) := by
  obtain ⟨d, rfl⟩ := Nat.exists_eq_add_of_le h
  rw [window_append, List.drop_append_of_le_length (by simp), Nat.add_sub_cancel_left]
  simp

theorem window_take {mem : Nat → β} {size p n k : Nat} (h : k ≤ n) :
    (window mem size p n).take k = window mem size p k := by
  obtain ⟨d, rfl⟩ := Nat.exists_eq_add_of_le h
  rw [window_append, List.take_append_of_le_length (by simp)]
  simp

/-- A window read in one piece. -/
theorem window_eq_of_le {mem : Nat → β} {size p n : Nat} (h : p + n ≤ size) :
    window mem size p n = slice mem p n := by
  apply List.map_congr_left
  intro i hi
  rw [Nat.mod_eq_of_lt (by have := List.mem_range.mp hi; omega)]

/-! ## Section 3: Writing behind a window -/

/-- A copy that misses a window's cells leaves the window as it was. -/
theorem window_memcpy_outside {mem : Nat → β} {size p n off : Nat} {src : List β}
    (h : ∀ i < n, (p + i) % size < off ∨ off + src.length ≤ (p + i) % size) :
    window (memcpy mem off src) size p n = window mem size p n :=
  window_congr fun i hi => memcpy_outside (h i hi)

/-- A copy in one piece is what a window starting there reads. -/
theorem window_memcpy_inside {mem : Nat → β} {size p off : Nat} {src : List β}
    (h : ∀ i < src.length, (p + i) % size = off + i) :
    window (memcpy mem off src) size p src.length = src := by
  apply List.ext_getElem
  · simp
  · intro i h₁ h₂
    rw [getElem_window, h i h₂, memcpy_inside h₂]

/-- A copy to the cells just behind a window extends it. -/
theorem window_memcpy_append {mem : Nat → β} {size p n off : Nat} {src : List β}
    (hout : ∀ i < n, (p + i) % size < off ∨ off + src.length ≤ (p + i) % size)
    (hin : ∀ i < src.length, (p + n + i) % size = off + i) :
    window (memcpy mem off src) size p (n + src.length) = window mem size p n ++ src := by
  rw [window_append, window_memcpy_outside hout, window_memcpy_inside hin]

/-! ## Section 4: Positions that may rest at the end -/

/-- The position `n` behind `p`, where a position that reaches the end of the
    block stays there and one that passes it starts again. -/
def advance (size p n : Nat) : Nat := if p + n ≤ size then p + n else p + n - size

theorem advance_zero {size p : Nat} (hp : p ≤ size) : advance size p 0 = p := by
  simp [advance, hp]

theorem advance_le {size p n : Nat} (hp : p ≤ size) (hn : n ≤ size) :
    advance size p n ≤ size := by
  unfold advance
  split <;> omega

theorem advance_advance {size p m n : Nat} (hp : p ≤ size) (hmn : m + n ≤ size) :
    advance size (advance size p m) n = advance size p (m + n) := by
  unfold advance
  split <;> split <;> split <;> omega

/-- Only no move at all, or a full turn, comes back to the same position. -/
theorem advance_eq_self {size p n : Nat} (hn : n < size) (h : advance size p n = p) :
    n = 0 := by
  unfold advance at h
  split at h <;> omega

theorem window_advance (mem : Nat → β) (size p n k : Nat) :
    window mem size (advance size p n) k = window mem size (p + n) k := by
  unfold advance
  split
  · rfl
  · rw [← window_add_size, Nat.sub_add_cancel (by omega)]

theorem advance_add_mod (size p n i : Nat) :
    (advance size p n + i) % size = (p + n + i) % size := by
  unfold advance
  split
  · rfl
  · rw [show p + n + i = p + n - size + i + size by omega, Nat.add_mod_right]

/-- A copy that goes on at the start of the block where it reaches the end. -/
def memcpy_wrap (mem : Nat → β) (size off : Nat) (src : List β) : Nat → β :=
  memcpy (memcpy mem off (src.take (size - off))) 0 (src.drop (size - off))

theorem memcpy_wrap_of_le {mem : Nat → β} {size off : Nat} {src : List β}
    (h : off + src.length ≤ size) : memcpy_wrap mem size off src = memcpy mem off src := by
  unfold memcpy_wrap
  rw [List.take_of_length_le (by omega), List.drop_eq_nil_of_le (by omega), memcpy_nil]

/-- Such a copy from the position behind a window extends the window. -/
theorem window_memcpy_wrap (mem : Nat → β) {size p n : Nat} {src : List β} (hp : p ≤ size)
    (hroom : n + src.length ≤ size) :
    window (memcpy_wrap mem size (advance size p n) src) size p (n + src.length)
      = window mem size p n ++ src := by
  obtain ⟨off, hoff⟩ : ∃ off, off = advance size p n := ⟨_, rfl⟩
  have hle : off ≤ size := hoff ▸ advance_le hp (by omega)
  unfold advance at hoff
  have htake : (src.take (size - off)).length = min (size - off) src.length :=
    List.length_take
  have hdrop : (src.drop (size - off)).length = src.length - (size - off) :=
    List.length_drop
  have hsum : n + src.length
      = n + (src.take (size - off)).length + (src.drop (size - off)).length := by omega
  have hstart : advance size p n = off := by
    unfold advance
    exact hoff.symm
  unfold memcpy_wrap
  rw [hstart, hsum, window_memcpy_append, window_memcpy_append, List.append_assoc,
    List.take_append_drop]
  -- the first piece fills the block up to its end, the second starts at zero
  · intro i hi
    rw [mod_wrap (by omega)]
    split at hoff <;> split <;> omega
  · intro i hi
    rw [mod_wrap (by split at hoff <;> omega)]
    split at hoff <;> split <;> omega
  · intro i hi
    rw [mod_wrap (by split at hoff <;> omega)]
    split at hoff <;> split <;> omega
  · intro i hi
    rw [mod_wrap (by split at hoff <;> omega)]
    split at hoff <;> split <;> omega

/-- Cells less than one turn apart are different. -/
theorem cell_ne {size p i j : Nat} (hij : i < j) (hj : j < i + size) :
    (p + i) % size ≠ (p + j) % size := by
  intro h
  have hmod : i ≡ j [MOD size] := Nat.ModEq.add_left_cancel' p h
  have hdvd : size ∣ j - i := (Nat.modEq_iff_dvd' (by omega)).mp hmod
  have := Nat.le_of_dvd (by omega) hdvd
  omega

/-- A store to the cell just behind a window extends it by one. -/
theorem window_update_append (mem : Nat → β) {size p n : Nat} (b : β) (hn : n < size) :
    window (Function.update mem ((p + n) % size) b) size p (n + 1)
      = window mem size p n ++ [b] := by
  rw [window_append]
  congr 1
  · apply window_congr
    intro i hi
    exact Function.update_of_ne (cell_ne hi (by omega)) _ _
  · simp [window]

/-- A store to a cell outside a window leaves it as it was. -/
theorem window_update_of_le (mem : Nat → β) {size p n k : Nat} (b : β) (hk : n ≤ k)
    (hsize : k < size) :
    window (Function.update mem ((p + k) % size) b) size p n = window mem size p n := by
  apply window_congr
  intro i hi
  exact Function.update_of_ne (cell_ne (by omega) (by omega)) _ _

end Circular
