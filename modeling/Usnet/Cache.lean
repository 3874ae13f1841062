import Usnet.Lib.CInt
import Mathlib.Logic.Function.Basic

/-! # The hashed tables (cache.c)

    A table has `hb_time` rows.  An item may lie in one slot of each row, the
    remainder of its key modulo the row's own number.  A search takes the first
    of these slots that equals the item, an insertion the first that is empty.
-/

namespace Usnet

open CInt

/-! ## Section 1: The code -/

/-- The inner loop of `usnet_hashbase_init`: `i` has no divisor from 2 to the
    square root of `hb_len`. -/
def hashbase_flag (hb_len i : Nat) : Bool :=
  (List.range (hb_len + 1)).all fun k => k < 2 || hb_len < k * k || i % k != 0

/-- `usnet_hashbase_init`: the numbers from `hb_len` down that pass.  Where
    there are too few of them the process ends. -/
def usnet_hashbase_init (hb_time hb_len : Nat) : List Nat :=
  ((List.range (hb_len + 1)).reverse.filter (hashbase_flag hb_len)).take hb_time

/-- `usn_hashbase_t`.  An address in `hb_cache` is a row and a slot in it. -/
structure UsnHashbase (α : Type) where
  hb_time : Nat
  hb_base : List Nat
  hb_cache : Nat × Nat → α
  hb_eqfn : α → α → Bool
  hb_keyfn : α → UInt32
  hb_isemptyfn : α → Bool
  hb_setemptyfn : α → α

namespace UsnHashbase

variable {α : Type}

/-- The address the loops compute in row `i`. -/
def slot (base : UsnHashbase α) (sitem : α) (i : Nat) : Nat × Nat :=
  (i, (base.hb_keyfn sitem).toNat % base.hb_base.getD i 0)

/-- The addresses the loops visit for an item. -/
def path (base : UsnHashbase α) (sitem : α) : List (Nat × Nat) :=
  (List.range base.hb_time).map (base.slot sitem)

/-- An assignment to the item at an address. -/
def set (base : UsnHashbase α) (item : Nat × Nat) (x : α) : UsnHashbase α :=
  { base with hb_cache := Function.update base.hb_cache item x }

end UsnHashbase

variable {α : Type}

/-- `usnet_cache_search`. -/
def usnet_cache_search (base : UsnHashbase α) (sitem : α) : Option (Nat × Nat) :=
  (base.path sitem).find? fun item => base.hb_eqfn (base.hb_cache item) sitem

/-- `usnet_cache_get`. -/
def usnet_cache_get (base : UsnHashbase α) (sitem : α) : Option (Nat × Nat) :=
  (base.path sitem).find? fun item => base.hb_isemptyfn (base.hb_cache item)

/-- `usnet_cache_insert`. -/
def usnet_cache_insert (base : UsnHashbase α) (sitem : α) :
    Option ((Nat × Nat) × UsnHashbase α) :=
  ((base.path sitem).find? fun item => base.hb_isemptyfn (base.hb_cache item)).map
    fun item => (item, base.set item sitem)

/-- `usnet_cache_remove`. -/
def usnet_cache_remove (base : UsnHashbase α) (item : Nat × Nat) : UsnHashbase α :=
  base.set item (base.hb_setemptyfn (base.hb_cache item))

/-! ## Section 2: What the functions find and change -/

namespace UsnHashbase

@[simp] theorem path_set (base : UsnHashbase α) (item : Nat × Nat) (x sitem : α) :
    (base.set item x).path sitem = base.path sitem := rfl

/-- A path depends on the key alone. -/
theorem path_congr (base : UsnHashbase α) {x y : α} (h : base.hb_keyfn x = base.hb_keyfn y) :
    base.path x = base.path y := by
  unfold path slot
  rw [h]

@[simp] theorem set_self (base : UsnHashbase α) (item : Nat × Nat) (x : α) :
    (base.set item x).hb_cache item = x := Function.update_self ..

theorem set_ne (base : UsnHashbase α) {item item' : Nat × Nat} (x : α) (h : item' ≠ item) :
    (base.set item x).hb_cache item' = base.hb_cache item' := Function.update_of_ne h ..

@[simp] theorem set_set (base : UsnHashbase α) (item : Nat × Nat) (x y : α) :
    (base.set item x).set item y = base.set item y := by
  simp only [set, Function.update_idem]

/-- The slots of a path lie inside the rows, so that different addresses are
    different places in memory. -/
theorem slot_lt {base : UsnHashbase α} {hb_len : Nat} {sitem : α} {item : Nat × Nat}
    (hrows : base.hb_time ≤ base.hb_base.length)
    (hbase : ∀ b ∈ base.hb_base, 0 < b ∧ b ≤ hb_len)
    (h : item ∈ base.path sitem) : item.1 < base.hb_time ∧ item.2 < hb_len := by
  obtain ⟨i, hi, rfl⟩ := List.mem_map.mp h
  have hi' := List.mem_range.mp hi
  have hlt : i < base.hb_base.length := by omega
  have hget : base.hb_base.getD i 0 = base.hb_base[i] := by simp [hlt]
  obtain ⟨hpos, hle⟩ := hbase _ (List.getElem_mem hlt)
  refine ⟨hi', ?_⟩
  show (base.hb_keyfn sitem).toNat % base.hb_base.getD i 0 < hb_len
  rw [hget]
  exact Nat.lt_of_lt_of_le (Nat.mod_lt _ hpos) hle

/-- What a search finds. -/
theorem of_search {base : UsnHashbase α} {sitem : α} {item : Nat × Nat}
    (h : usnet_cache_search base sitem = some item) :
    item ∈ base.path sitem ∧ base.hb_eqfn (base.hb_cache item) sitem = true := by
  have heq := List.find?_some h
  exact ⟨List.mem_of_find?_eq_some h, heq⟩

/-- What an insertion does. -/
theorem of_insert {base base' : UsnHashbase α} {sitem : α} {item : Nat × Nat}
    (h : usnet_cache_insert base sitem = some (item, base')) :
    item ∈ base.path sitem ∧ base.hb_isemptyfn (base.hb_cache item) = true ∧
      base' = base.set item sitem := by
  obtain ⟨item', hfind, heq⟩ := Option.map_eq_some_iff.mp h
  obtain ⟨rfl, rfl⟩ := Prod.mk.inj heq
  have hempty := List.find?_some hfind
  exact ⟨List.mem_of_find?_eq_some hfind, hempty, rfl⟩

/-- A search that fails has seen no equal item. -/
theorem search_eq_none {base : UsnHashbase α} {sitem : α} :
    usnet_cache_search base sitem = none ↔
      ∀ item ∈ base.path sitem, base.hb_eqfn (base.hb_cache item) sitem = false := by
  unfold usnet_cache_search
  rw [List.find?_eq_none]
  simp only [Bool.not_eq_true]

end UsnHashbase

end Usnet
