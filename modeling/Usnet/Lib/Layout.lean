import Usnet.Lib.Circular

/-! # Records in memory

    A record is a block of bytes, a field of it an offset and a size.  Fields
    are loaded and stored as little-endian numbers; what is stored in one field
    is seen in no other that does not overlap it.
-/

namespace Layout

open Circular

/-- The contents of a block, by the distance from its start. -/
abbrev Block := Nat → UInt8

structure Field where
  off : Nat
  size : Nat
  deriving DecidableEq

namespace Field

/-- The byte belongs to the field. -/
def Has (f : Field) (i : Nat) : Prop := f.off ≤ i ∧ i < f.off + f.size

def Disjoint (f g : Field) : Prop := f.off + f.size ≤ g.off ∨ g.off + g.size ≤ f.off

instance (f g : Field) : Decidable (f.Disjoint g) := inferInstanceAs (Decidable (_ ∨ _))

theorem Disjoint.not_has {f g : Field} (h : f.Disjoint g) {i : Nat} (hi : f.Has i) :
    ¬ g.Has i := by
  unfold Disjoint Has at *
  omega

end Field

/-! ## Section 1: Numbers as bytes -/

/-- The `n` bytes of a number, lowest first. -/
def le_bytes (n v : Nat) : List UInt8 :=
  (List.range n).map fun i => UInt8.ofNat (v / 256 ^ i)

/-- The number stored in bytes, lowest first. -/
def le_value : List UInt8 → Nat
  | [] => 0
  | b :: l => b.toNat + 256 * le_value l

@[simp] theorem le_bytes_length (n v : Nat) : (le_bytes n v).length = n := by
  simp [le_bytes]

theorem le_bytes_succ (n v : Nat) :
    le_bytes (n + 1) v = UInt8.ofNat v :: le_bytes n (v / 256) := by
  unfold le_bytes
  rw [List.range_succ_eq_map, List.map_cons, List.map_map]
  simp [Function.comp_def, pow_succ, Nat.div_div_eq_div_mul, Nat.mul_comm]

theorem le_value_bytes (n v : Nat) (h : v < 256 ^ n) : le_value (le_bytes n v) = v := by
  induction n generalizing v with
  | zero =>
    rw [pow_zero] at h
    have hzero : v = 0 := by omega
    rw [hzero]
    rfl
  | succ n ih =>
    rw [pow_succ] at h
    rw [le_bytes_succ, le_value, ih (v / 256) (by omega), UInt8.toNat_ofNat']
    omega

theorem le_value_zero (n : Nat) : le_value (List.replicate n 0) = 0 := by
  induction n with
  | zero => rfl
  | succ n ih =>
    rw [List.replicate_succ, le_value, ih]
    rfl

/-! ## Section 2: Loads and stores -/

def load (b : Block) (f : Field) : Nat := le_value (slice b f.off f.size)

def store (b : Block) (f : Field) (v : Nat) : Block := memcpy b f.off (le_bytes f.size v)

/-- `memset` of the first `n` bytes to zero. -/
def clear (b : Block) (n : Nat) : Block := memcpy b 0 (List.replicate n 0)

theorem slice_congr {b b' : Block} {f : Field} (h : ∀ i, f.Has i → b' i = b i) :
    slice b' f.off f.size = slice b f.off f.size := by
  apply List.map_congr_left
  intro i hi
  have hlt := List.mem_range.mp hi
  exact h _ ⟨by omega, by omega⟩

/-- A load depends on the field's bytes only. -/
theorem load_congr {b b' : Block} {f : Field} (h : ∀ i, f.Has i → b' i = b i) :
    load b' f = load b f := by
  unfold load
  rw [slice_congr h]

/-- What is stored is loaded. -/
theorem load_store (b : Block) (f : Field) {v : Nat} (h : v < 256 ^ f.size) :
    load (store b f v) f = v := by
  have hslice : slice (store b f v) f.off f.size = le_bytes f.size v := by
    apply List.ext_getElem
    · simp
    · intro i h₁ h₂
      simp only [slice, List.getElem_map, List.getElem_range]
      exact memcpy_inside h₂
  rw [load, hslice, le_value_bytes _ _ h]

/-- A field that lies in the part cleared is zero. -/
theorem load_clear (b : Block) {f : Field} {n : Nat} (h : f.off + f.size ≤ n) :
    load (clear b n) f = 0 := by
  have hslice : slice (clear b n) f.off f.size = List.replicate f.size 0 := by
    apply List.ext_getElem
    · simp
    · intro i h₁ h₂
      rw [List.length_replicate] at h₂
      have hin := @memcpy_inside UInt8 b 0 (List.replicate n 0) (f.off + i)
        (by rw [List.length_replicate]; omega)
      rw [Nat.zero_add, List.getElem_replicate] at hin
      simp only [slice, List.getElem_map, List.getElem_range, List.getElem_replicate]
      exact hin
  rw [load, hslice, le_value_zero]

/-- A field behind the part cleared is as it was. -/
theorem load_clear_behind (b : Block) {f : Field} {n : Nat} (h : n ≤ f.off) :
    load (clear b n) f = load b f := by
  apply load_congr
  rintro i ⟨hi, -⟩
  exact memcpy_above (by rw [List.length_replicate]; omega)

/-! ## Section 3: What a function stores to -/

/-- Only bytes of these fields may have changed. -/
def Touches (fs : List Field) (b b' : Block) : Prop := ∀ i, (∀ f ∈ fs, ¬ f.Has i) → b' i = b i

namespace Touches

variable {fs gs : List Field} {b b' b'' : Block}

theorem none (b : Block) : Touches fs b b := fun _ _ => rfl

theorem store (b : Block) (f : Field) (v : Nat) : Touches [f] b (Layout.store b f v) := by
  intro i hi
  have hout := hi f (by simp)
  unfold Field.Has at hout
  exact memcpy_outside (by rw [le_bytes_length]; omega)

theorem trans (h : Touches fs b b') (h' : Touches gs b' b'') : Touches (fs ++ gs) b b'' := by
  intro i hi
  rw [h' i fun f hf => hi f (List.mem_append_right _ hf),
    h i fun f hf => hi f (List.mem_append_left _ hf)]

theorem mono (h : Touches fs b b') (hsub : fs ⊆ gs) : Touches gs b b' :=
  fun i hi => h i fun f hf => hi f (hsub hf)

/-- A field that overlaps none of them is as it was. -/
theorem load (h : Touches fs b b') {f : Field} (hf : ∀ g ∈ fs, f.Disjoint g) :
    Layout.load b' f = Layout.load b f := by
  apply load_congr
  intro i hi
  exact h i fun g hg => (hf g hg).not_has hi

end Touches

theorem load_store_ne (b : Block) {f g : Field} (v : Nat) (h : f.Disjoint g) :
    load (store b g v) f = load b f :=
  (Touches.store b g v).load fun g' hg' => by
    rw [List.mem_singleton.mp hg']
    exact h

end Layout
