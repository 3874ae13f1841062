import Usnet.Cache
import Usnet.TcbTable
import Usnet.Lib.Run

/-! # The table as a map (cache.c)

    For any number of rows, any row numbers up to `hb_len` and any key, runs of
    the three operations act on a finite map from the keys to the slots and items
    that were inserted last and are not removed.
-/

namespace Usnet

open CInt Run

/-! ## Section 1: Keys -/

variable {α κ : Type}

/-- The shape of the table and what its functions have in common: equality and
    hash agree on a key, and whether an item is empty depends on its key. -/
structure Keyed (key : α → κ) (hb_len : Nat) (base : UsnHashbase α) : Prop where
  rows : base.hb_time ≤ base.hb_base.length
  bases : ∀ b ∈ base.hb_base, 0 < b ∧ b ≤ hb_len
  eqfn : ∀ x y, base.hb_eqfn x y = true ↔ key x = key y
  keyfn : ∀ x y, key x = key y → base.hb_keyfn x = base.hb_keyfn y
  isempty : ∀ x y, key x = key y → base.hb_isemptyfn x = base.hb_isemptyfn y
  setempty : ∀ x, base.hb_isemptyfn (base.hb_setemptyfn x) = true

namespace Keyed

variable {key : α → κ} {hb_len : Nat} {base : UsnHashbase α}

theorem set (hk : Keyed key hb_len base) (item : Nat × Nat) (x : α) :
    Keyed key hb_len (base.set item x) :=
  ⟨hk.rows, hk.bases, hk.eqfn, hk.keyfn, hk.isempty, hk.setempty⟩

/-- Items of one key have one path. -/
theorem path (hk : Keyed key hb_len base) {x y : α} (h : key x = key y) :
    base.path x = base.path y := by
  unfold UsnHashbase.path UsnHashbase.slot
  rw [hk.keyfn x y h]

/-- The offset of a slot from `hb_cache`, in items. -/
def offset (hb_len : Nat) (item : Nat × Nat) : Nat := item.1 * hb_len + item.2

/-- The slots the operations touch are different places of the block. -/
theorem offset_inj (hk : Keyed key hb_len base) {x y : α} {p q : Nat × Nat}
    (hp : p ∈ base.path x) (hq : q ∈ base.path y) (h : offset hb_len p = offset hb_len q) :
    p = q := by
  have hplt := (UsnHashbase.slot_lt hk.rows hk.bases hp).2
  have hqlt := (UsnHashbase.slot_lt hk.rows hk.bases hq).2
  have hrow : ∀ r : Nat × Nat, r.2 < hb_len → offset hb_len r / hb_len = r.1 := by
    intro r hr
    unfold offset
    rw [Nat.mul_comm, Nat.mul_add_div (by omega), Nat.div_eq_of_lt hr, Nat.add_zero]
  have h₁ : p.1 = q.1 := by
    rw [← hrow p hplt, h, hrow q hqlt]
  have h₂ : p.2 = q.2 := by
    unfold offset at h
    rw [h₁] at h
    exact Nat.add_left_cancel h
  exact Prod.ext h₁ h₂

/-- They lie inside it. -/
theorem offset_lt (hk : Keyed key hb_len base) {x : α} {p : Nat × Nat} (hp : p ∈ base.path x) :
    offset hb_len p < base.hb_time * hb_len := by
  obtain ⟨hrow, hslot⟩ := UsnHashbase.slot_lt hk.rows hk.bases hp
  calc offset hb_len p < p.1 * hb_len + hb_len := Nat.add_lt_add_left hslot _
    _ = (p.1 + 1) * hb_len := (Nat.succ_mul _ _).symm
    _ ≤ base.hb_time * hb_len := Nat.mul_le_mul_right _ hrow

end Keyed

/-! ## Section 2: Runs -/

/-- A table, and the map its history makes. -/
structure CacheRun (α κ : Type) where
  base : UsnHashbase α
  map : κ → Option ((Nat × Nat) × α)

inductive CacheOp (α : Type) where
  | insert (sitem : α)
  | search (sitem : α)
  | remove (item : Nat × Nat)

variable {key : α → κ} {hb_len : Nat}

/-- What lies at an address is removed. -/
def CacheRun.drop (s : CacheRun α κ) (item : Nat × Nat) : CacheRun α κ :=
  { base := usnet_cache_remove s.base item
    map := fun k => (s.map k).filter fun e => e.1 ≠ item }

/-- An empty table. -/
structure CacheRun.Fresh (key : α → κ) (hb_len : Nat) (s : CacheRun α κ) : Prop where
  keyed : Keyed key hb_len s.base
  empty : ∀ item, s.base.hb_isemptyfn (s.base.hb_cache item) = true
  map : ∀ k, s.map k = none

/-- The map holds what is stored, where it is stored, and everything that is. -/
structure CacheInv (key : α → κ) (hb_len : Nat) (s : CacheRun α κ) : Prop where
  keyed : Keyed key hb_len s.base
  stored : ∀ k item x, s.map k = some (item, x) →
    item ∈ s.base.path x ∧ s.base.hb_cache item = x ∧ key x = k ∧ s.base.hb_isemptyfn x = false
  mapped : ∀ item, s.base.hb_isemptyfn (s.base.hb_cache item) = false →
    s.map (key (s.base.hb_cache item)) = some (item, s.base.hb_cache item)

theorem CacheInv.fresh {s : CacheRun α κ} (h : s.Fresh key hb_len) : CacheInv key hb_len s := by
  refine ⟨h.keyed, fun k item x hmap => ?_, fun item hfull => ?_⟩
  · cases (h.map k).symm.trans hmap
  · cases (h.empty item).symm.trans hfull

/-- A search reads the map. -/
theorem CacheInv.search {s : CacheRun α κ} (hi : CacheInv key hb_len s) {sitem : α}
    (hne : s.base.hb_isemptyfn sitem = false) :
    usnet_cache_search s.base sitem = (s.map (key sitem)).map Prod.fst := by
  -- whatever equals the item is the one the map has
  have heq : ∀ item, s.base.hb_eqfn (s.base.hb_cache item) sitem = true →
      s.map (key sitem) = some (item, s.base.hb_cache item) := by
    intro item h
    have hkey := (hi.keyed.eqfn _ _).mp h
    rw [← hkey]
    exact hi.mapped item ((hi.keyed.isempty _ _ hkey).trans hne)
  cases hmap : s.map (key sitem) with
  | none =>
    rw [Option.map_none, UsnHashbase.search_eq_none]
    intro item _
    by_contra hne
    cases hmap.symm.trans (heq item (Bool.eq_true_of_not_eq_false hne))
  | some e =>
    obtain ⟨item, x⟩ := e
    obtain ⟨hpath, hcache, hkey, -⟩ := hi.stored _ item x hmap
    cases hfind : usnet_cache_search s.base sitem with
    | none =>
      have hmiss := UsnHashbase.search_eq_none.mp hfind item (hi.keyed.path hkey ▸ hpath)
      rw [hcache, (hi.keyed.eqfn x sitem).mpr hkey] at hmiss
      cases hmiss
    | some item' =>
      have hsame := heq item' (UsnHashbase.of_search hfind).2
      rw [hmap] at hsame
      obtain ⟨rfl, -⟩ := Prod.mk.inj (Option.some.inj hsame)
      rfl

theorem CacheInv.remove {s : CacheRun α κ} (hi : CacheInv key hb_len s) (item : Nat × Nat) :
    CacheInv key hb_len (s.drop item) := by
  refine ⟨hi.keyed.set item _, fun k p x hmap => ?_, fun p hfull => ?_⟩
  · simp only [CacheRun.drop, Option.filter_eq_some_iff, decide_eq_true_eq] at hmap
    obtain ⟨hmap, hne⟩ := hmap
    obtain ⟨hp, hcache, hkey, hfull⟩ := hi.stored k p x hmap
    exact ⟨hp, (s.base.set_ne _ hne).trans hcache, hkey, hfull⟩
  · simp only [CacheRun.drop, usnet_cache_remove] at hfull ⊢
    by_cases hp : p = item
    · subst hp
      rw [s.base.set_self] at hfull
      cases (hi.keyed.setempty _).symm.trans hfull
    · rw [s.base.set_ne _ hp] at hfull ⊢
      rw [hi.mapped p hfull, Option.filter_some]
      simp only [hp, ne_eq, not_false_eq_true, decide_true, if_true]

variable [DecidableEq κ]

/-- An item is inserted. -/
def CacheRun.put (key : α → κ) (s : CacheRun α κ) (base : UsnHashbase α) (item : Nat × Nat)
    (sitem : α) : CacheRun α κ :=
  { base := base, map := Function.update s.map (key sitem) (some (item, sitem)) }

/-- One operation.  Items are inserted under keys that are not empty, after a
    search that has missed them. -/
def cache_step (key : α → κ) (s : CacheRun α κ) (op : CacheOp α) (s' : CacheRun α κ) : Prop :=
  match op with
  | .insert sitem =>
    s.base.hb_isemptyfn sitem = false ∧ usnet_cache_search s.base sitem = none ∧
    s' = match usnet_cache_insert s.base sitem with
      | none => s
      | some (item, base) => s.put key base item sitem
  | .search _ => s' = s
  | .remove item => s' = s.drop item

/-- What any run reaches. -/
abbrev CacheReachable (key : α → κ) (hb_len : Nat) : CacheRun α κ → Prop :=
  Reachable (cache_step key) (CacheRun.Fresh key hb_len)

theorem CacheInv.insert {s : CacheRun α κ} (hi : CacheInv key hb_len s) {sitem : α}
    {item : Nat × Nat} {base : UsnHashbase α} (hne : s.base.hb_isemptyfn sitem = false)
    (hmiss : usnet_cache_search s.base sitem = none)
    (hok : usnet_cache_insert s.base sitem = some (item, base)) :
    CacheInv key hb_len (s.put key base item sitem) := by
  obtain ⟨hpath, hempty, rfl⟩ := UsnHashbase.of_insert hok
  have hnone : s.map (key sitem) = none := by
    have hsearch := hi.search hne
    rw [hmiss] at hsearch
    exact Option.map_eq_none_iff.mp hsearch.symm
  -- the slot was empty, so nothing stored lies there
  have hother : ∀ k p x, s.map k = some (p, x) → p ≠ item := by
    rintro k p x hmap rfl
    obtain ⟨-, hcache, -, hfull⟩ := hi.stored k p x hmap
    rw [hcache] at hempty
    cases hempty.symm.trans hfull
  refine ⟨hi.keyed.set item sitem, fun k p x hmap => ?_, fun p hfull => ?_⟩
  · simp only [CacheRun.put] at hmap ⊢
    by_cases hk : k = key sitem
    · subst hk
      rw [Function.update_self] at hmap
      obtain ⟨rfl, rfl⟩ := Prod.mk.inj (Option.some.inj hmap)
      exact ⟨hpath, s.base.set_self _ _, rfl, hne⟩
    · rw [Function.update_of_ne hk] at hmap
      obtain ⟨hp, hcache, hkey, hfull⟩ := hi.stored k p x hmap
      exact ⟨hp, (s.base.set_ne _ (hother k p x hmap)).trans hcache, hkey, hfull⟩
  · simp only [CacheRun.put] at hfull ⊢
    by_cases hp : p = item
    · subst hp
      rw [s.base.set_self, Function.update_self]
    · rw [s.base.set_ne _ hp] at hfull ⊢
      have hmap := hi.mapped p hfull
      rw [Function.update_of_ne ?_, hmap]
      intro hkey
      rw [hkey, hnone] at hmap
      cases hmap

theorem CacheInv.step {s s' : CacheRun α κ} {op : CacheOp α} (hi : CacheInv key hb_len s)
    (hstep : cache_step key s op s') : CacheInv key hb_len s' := by
  cases op with
  | insert sitem =>
    obtain ⟨hne, hmiss, rfl⟩ := hstep
    split
    · exact hi
    · rename_i item base hok
      exact hi.insert hne hmiss hok
  | search sitem =>
    obtain rfl := hstep
    exact hi
  | remove item =>
    obtain rfl := hstep
    exact hi.remove item

theorem CacheReachable.inv {s : CacheRun α κ} (h : CacheReachable key hb_len s) :
    CacheInv key hb_len s :=
  h.invariant (fun _ hf => .fresh hf) fun _ _ _ hi _ hs => hi.step hs

/-! ## Section 3: The table refines the map -/

/-- The operation is about the item of a key. -/
def CacheOp.concerns (key : α → κ) (s : CacheRun α κ) (k : κ) : CacheOp α → Prop
  | .insert sitem => key sitem = k
  | .search _ => False
  | .remove item => key (s.base.hb_cache item) = k

/-- What the operations promise in a state: a search finds what the map has, and
    what it has is the item itself; an insertion fails only in a full path, and
    then changes nothing; no operation alters or hides what is under another key;
    and the slots in question are different places inside the block. -/
structure RefinesMap (key : α → κ) (hb_len : Nat) (s : CacheRun α κ) : Prop where
  search : ∀ sitem, s.base.hb_isemptyfn sitem = false →
    usnet_cache_search s.base sitem = (s.map (key sitem)).map Prod.fst
  stored : ∀ k item x, s.map k = some (item, x) → s.base.hb_cache item = x ∧ key x = k
  fails : ∀ sitem, usnet_cache_insert s.base sitem = none ↔
    ∀ item ∈ s.base.path sitem, s.base.hb_isemptyfn (s.base.hb_cache item) = false
  unchanged : ∀ sitem s', cache_step key s (.insert sitem) s' →
    usnet_cache_insert s.base sitem = none → s' = s
  others : ∀ op s', cache_step key s op s' → ∀ sitem, s.base.hb_isemptyfn sitem = false →
    ¬ op.concerns key s (key sitem) →
    usnet_cache_search s'.base sitem = usnet_cache_search s.base sitem ∧
    ∀ item, usnet_cache_search s.base sitem = some item →
      s'.base.hb_cache item = s.base.hb_cache item
  placed : ∀ x y p q, p ∈ s.base.path x → q ∈ s.base.path y →
    Keyed.offset hb_len p < s.base.hb_time * hb_len ∧
    (Keyed.offset hb_len p = Keyed.offset hb_len q → p = q)

theorem insert_eq_none {base : UsnHashbase α} {sitem : α} :
    usnet_cache_insert base sitem = none ↔
      ∀ item ∈ base.path sitem, base.hb_isemptyfn (base.hb_cache item) = false := by
  unfold usnet_cache_insert
  rw [Option.map_eq_none_iff, List.find?_eq_none]
  simp only [Bool.not_eq_true]

/-- An operation leaves the entries of the other keys. -/
theorem cache_step_map {s s' : CacheRun α κ} {op : CacheOp α} (hi : CacheInv key hb_len s)
    (hstep : cache_step key s op s') {k : κ} (hk : ¬ op.concerns key s k) :
    s'.map k = s.map k := by
  cases op with
  | insert sitem =>
    obtain ⟨-, -, rfl⟩ := hstep
    split
    · rfl
    · exact Function.update_of_ne (Ne.symm hk) ..
  | search sitem => rw [hstep]
  | remove item =>
    obtain rfl := hstep
    simp only [CacheRun.drop]
    cases he : s.map k with
    | none => rfl
    | some e =>
      obtain ⟨p, x⟩ := e
      obtain ⟨-, hcache, hkey, -⟩ := hi.stored k p x he
      have hne : p ≠ item := by
        rintro rfl
        exact hk (by rw [CacheOp.concerns, hcache, hkey])
      rw [Option.filter_some, if_pos (decide_eq_true hne)]

theorem cache_step_isempty {s s' : CacheRun α κ} {op : CacheOp α}
    (hstep : cache_step key s op s') : s'.base.hb_isemptyfn = s.base.hb_isemptyfn := by
  cases op with
  | insert sitem =>
    obtain ⟨-, -, rfl⟩ := hstep
    split
    · rfl
    · rename_i hok
      obtain ⟨-, -, rfl⟩ := UsnHashbase.of_insert hok
      rfl
  | search sitem => rw [hstep]
  | remove item =>
    obtain rfl := hstep
    rfl

/-- In every state any run of the operations reaches, the table is the map. -/
theorem cache_refines_map {s : CacheRun α κ} (hr : CacheReachable key hb_len s) :
    RefinesMap key hb_len s := by
  have hi := hr.inv
  refine ⟨fun _ => hi.search, fun k item x hmap => ?_, fun _ => insert_eq_none, ?_, ?_, ?_⟩
  · obtain ⟨-, hcache, hkey, -⟩ := hi.stored k item x hmap
    exact ⟨hcache, hkey⟩
  · rintro sitem s' ⟨-, -, rfl⟩ hfail
    rw [hfail]
  · intro op s' hstep sitem hne hk
    have hi' := hi.step hstep
    have hmap := cache_step_map hi hstep hk
    have hne' : s'.base.hb_isemptyfn sitem = false := by
      rw [cache_step_isempty hstep]
      exact hne
    refine ⟨by rw [hi'.search hne', hi.search hne, hmap], fun item hfound => ?_⟩
    rw [hi.search hne] at hfound
    obtain ⟨⟨p, x⟩, hentry, rfl⟩ := Option.map_eq_some_iff.mp hfound
    obtain ⟨-, hcache, -, -⟩ := hi.stored _ p x hentry
    obtain ⟨-, hcache', -, -⟩ := hi'.stored _ p x (hmap.trans hentry)
    exact hcache'.trans hcache.symm
  · intro x y p q hp hq
    exact ⟨hi.keyed.offset_lt hp, hi.keyed.offset_inj hp hq⟩

/-! ## Section 4: The table of control blocks -/

/-- The four addresses, by which `usnet_tcb_eq` compares. -/
def TcbSlot.addresses (tcb : TcbSlot) : UInt32 × UInt32 × UInt16 × UInt16 :=
  (tcb.saddr, tcb.daddr, tcb.sport, tcb.dport)

theorem usnet_tcb_init_keyed :
    Keyed TcbSlot.addresses 100 TcbCtx.usnet_tcb_init.tcb_cache := by
  refine ⟨by decide, by decide, fun x y => ?_, fun x y h => ?_, fun x y h => ?_, fun x => rfl⟩
  · simp only [TcbCtx.usnet_tcb_init, TcbSlot.usnet_tcb_eq, TcbSlot.addresses, Bool.and_eq_true,
      beq_iff_eq, Prod.mk.injEq, and_assoc]
  · simp only [TcbSlot.addresses, Prod.mk.injEq] at h
    obtain ⟨h₁, h₂, h₃, h₄⟩ := h
    simp only [TcbCtx.usnet_tcb_init, TcbSlot.usnet_tcb_key, TcbSlot.key, h₁, h₂, h₃, h₄]
  · simp only [TcbSlot.addresses, Prod.mk.injEq] at h
    obtain ⟨h₁, h₂, h₃, h₄⟩ := h
    simp only [TcbCtx.usnet_tcb_init, TcbSlot.usnet_tcb_isempty, h₁, h₂, h₃, h₄]

/-- The empty table of control blocks. -/
def tcb_run : CacheRun TcbSlot (UInt32 × UInt32 × UInt16 × UInt16) :=
  { base := TcbCtx.usnet_tcb_init.tcb_cache, map := fun _ => none }

theorem tcb_run_fresh : tcb_run.Fresh TcbSlot.addresses 100 :=
  ⟨usnet_tcb_init_keyed, fun _ => rfl, fun _ => rfl⟩

/-- A connection is put into the table and found again. -/
theorem cache_refines_map_sample : ∃ s : CacheRun TcbSlot _,
    (s.map (TcbSlot.stcb 1 2 3 4).addresses).isSome ∧ RefinesMap TcbSlot.addresses 100 s := by
  have hput : CacheReachable TcbSlot.addresses 100 _ := .next (.init tcb_run_fresh)
    (a := .insert (.stcb 1 2 3 4)) ⟨rfl, rfl, rfl⟩ trivial
  exact ⟨_, rfl, cache_refines_map hput⟩

end Usnet
