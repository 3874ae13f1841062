import Usnet.Lib.CInt
import Usnet.Lib.Chain
import Usnet.Lib.Run
import Mathlib.Data.List.Perm.Basic
import Mathlib.Logic.Function.Basic

/-! # The chunk pools (mempool.c)

    Free chunks lie in runs of neighbours, whose first chunk holds the length of
    the run and a pointer to the next one.  An allocation takes the first chunk of
    the first run and writes the header anew behind it; a freed chunk becomes a
    run of its own.
-/

namespace Usnet

open CInt Run Chain

/-! ## Section 1: The code -/

/-- `mem_chunk`. -/
structure MemChunk where
  mc_free_chunks : Int
  mc_next : Option Int

/-- `usn_mempool_t`.  Pointers are offsets from `mp_startptr`, and `mem` is what
    the memory holds at them. -/
structure UsnMempool where
  mp_freeptr : Option Int
  mp_free_chunks : Int
  mp_total_chunks : Int
  mp_chunk_size : Int
  mem : Int → MemChunk

/-- A header is written. -/
def UsnMempool.write (mp : UsnMempool) (p : Int) (chunk : MemChunk) : UsnMempool :=
  { mp with mem := Function.update mp.mem p chunk }

/-- `posix_memalign`, which may refuse any size and refuses what is larger than
    `PTRDIFF_MAX`. -/
structure PosixMemalign where
  grants : UInt64 → Bool
  ptrdiff_max : ∀ size, grants size = true → size.toNat < 2 ^ 63

/-- The conversion of an `int` to `size_t`. -/
def u64 (i : Int) : UInt64 := UInt64.ofInt i

/-- `usn_mempool_create`, in memory that holds anything.  It has no result where
    the code returns NULL or ends the process. -/
def usn_mempool_create (posix_memalign : PosixMemalign) (mem : Int → MemChunk)
    (chunk_size : Int32) (total_size : UInt64) : Option UsnMempool :=
  if u64 chunk_size.toInt < 16 then none
  else if chunk_size.toInt.tmod 4 ≠ 0 then none
  else
    let mp_free_chunks :=
      sint ((total_size + u64 (chunk_size.toInt - 1)) / u64 chunk_size.toInt).toUInt32
    if posix_memalign.grants (u64 chunk_size.toInt * u64 mp_free_chunks) then
      some
        { mp_freeptr := some 0, mp_free_chunks := mp_free_chunks
          mp_total_chunks := mp_free_chunks, mp_chunk_size := chunk_size.toInt
          mem := Function.update mem 0 { mc_free_chunks := mp_free_chunks, mc_next := none } }
    else none

/-- `usnet_mempool_allocate`.  It has no result where the assertion fails or a
    null pointer is followed. -/
def usnet_mempool_allocate (mp : UsnMempool) : Option (Option Int × UsnMempool) :=
  if mp.mp_free_chunks = 0 then some (none, mp)
  else
    match mp.mp_freeptr with
    | none => none
    | some p =>
      let chunk := mp.mem p
      if chunk.mc_free_chunks > 0 ∧ chunk.mc_free_chunks ≤ chunk.mc_free_chunks then
        let mc_free_chunks := chunk.mc_free_chunks - 1
        let mp := mp.write p { chunk with mc_free_chunks := mc_free_chunks }
        let mp := { mp with mp_free_chunks := mp.mp_free_chunks - 1 }
        if mc_free_chunks ≠ 0 then
          -- move right by one chunk
          let q := p + mp.mp_chunk_size
          some (some p, { mp.write q { chunk with mc_free_chunks := mc_free_chunks } with
            mp_freeptr := some q })
        else some (some p, { mp with mp_freeptr := chunk.mc_next })
      else none

/-- `usnet_mempool_free`.  It has no result where the assertion fails. -/
def usnet_mempool_free (mp : UsnMempool) (p : Option Int) : Option UsnMempool :=
  match p with
  | none => some mp
  | some p =>
    if p.tmod mp.mp_chunk_size = 0 then
      some { mp.write p { mc_free_chunks := 1, mc_next := mp.mp_freeptr } with
        mp_freeptr := some p, mp_free_chunks := mp.mp_free_chunks + 1 }
    else none

/-! ## Section 2: Runs -/

/-- A pool and the chunks in use. -/
structure PoolRun where
  mp : UsnMempool
  live : List Int

inductive PoolOp where
  | allocate
  | free (p : Option Int)
  | write (p : Int) (chunk : MemChunk)

/-- One operation.  Whoever has a chunk may write into it, and frees it at most
    once. -/
def pool_step (s : PoolRun) (op : PoolOp) (s' : PoolRun) : Prop :=
  match op with
  | .allocate => ∃ p mp, usnet_mempool_allocate s.mp = some (p, mp) ∧ s' = ⟨mp, p.toList ++ s.live⟩
  | .free none => ∃ mp, usnet_mempool_free s.mp none = some mp ∧ s' = ⟨mp, s.live⟩
  | .free (some p) =>
    p ∈ s.live ∧ ∃ mp, usnet_mempool_free s.mp (some p) = some mp ∧ s' = ⟨mp, s.live.erase p⟩
  | .write p chunk => p ∈ s.live ∧ s' = ⟨s.mp.write p chunk, s.live⟩

/-- A new pool. -/
def PoolRun.Created (s : PoolRun) : Prop :=
  s.live = [] ∧ ∃ posix_memalign mem chunk_size total_size,
    usn_mempool_create posix_memalign mem chunk_size total_size = some s.mp

/-- What a pool can become. -/
abbrev PoolReachable : PoolRun → Prop := Reachable pool_step PoolRun.Created

/-! ## Section 3: The runs of free chunks -/

/-- `n` chunks from `p` on. -/
def chunks (size : Int) (p : Int) (n : Nat) : List Int :=
  (List.range n).map fun k : Nat => p + (k : Int) * size

theorem chunks_succ (size p : Int) (n : Nat) :
    chunks size p (n + 1) = p :: chunks size (p + size) n := by
  unfold chunks
  rw [List.range_succ_eq_map, List.map_cons, List.map_map]
  congr 1
  · simp
  · apply List.map_congr_left
    intro k _
    simp only [Function.comp, Nat.succ_eq_add_one]
    push_cast
    ring

/-- The run whose header is at `p`. -/
def UsnMempool.free_run (mp : UsnMempool) (p : Int) : List Int :=
  chunks mp.mp_chunk_size p (mp.mem p).mc_free_chunks.toNat

/-- The free list and the live chunks share the pool between them. -/
structure PoolInv (n : Nat) (s : PoolRun) (heads : List Int) : Prop where
  total : s.mp.mp_total_chunks = n
  size : 0 < n → 16 ≤ s.mp.mp_chunk_size
  chain : Links (fun p => (s.mp.mem p).mc_next) s.mp.mp_freeptr heads
  filled : 0 < n → ∀ p ∈ heads, 0 < (s.mp.mem p).mc_free_chunks
  perm : (heads.flatMap s.mp.free_run ++ s.live).Perm (chunks s.mp.mp_chunk_size 0 n)
  count : s.mp.mp_free_chunks = (heads.flatMap s.mp.free_run).length

theorem toNat_u64 (i : Int) : (u64 i).toNat = (i % 2 ^ 64).toNat := by
  unfold u64 UInt64.ofInt
  rw [UInt64.toNat_ofNat']
  omega

theorem toNat_u64_mul (c f : Int) : (u64 c * u64 f).toNat = (c * f % 2 ^ 64).toNat := by
  have hmul : u64 c * u64 f = u64 (c * f) := (UInt64.ofInt_mul c f).symm
  rw [hmul, toNat_u64]

/-- A block of a negative number of chunks is refused. -/
theorem chunks_nonneg {c f : Int} (hc : 16 ≤ c) (hc' : c < 2 ^ 31) (hf : -2 ^ 31 ≤ f)
    (hsize : (u64 c * u64 f).toNat < 2 ^ 63) : 0 ≤ f := by
  by_contra hneg
  rw [toNat_u64_mul] at hsize
  have hlow : -2 ^ 62 ≤ c * f := by nlinarith
  have hhigh : c * f < 0 := by nlinarith
  omega

/-- A negative chunk size passes as a large one, and leaves no chunk at all. -/
theorem no_chunk {c : Int} {total_size : UInt64} (hc : c < 0) (hc' : -2 ^ 31 ≤ c)
    (hsize : (u64 c * u64 (sint ((total_size + u64 (c - 1)) / u64 c).toUInt32)).toNat < 2 ^ 63) :
    sint ((total_size + u64 (c - 1)) / u64 c).toUInt32 = 0 := by
  generalize hx : total_size + u64 (c - 1) = x at hsize ⊢
  have hquot : (x / u64 c).toNat ≤ 1 := by
    rw [UInt64.toNat_div, toNat_u64]
    have hlt := x.toNat_lt
    apply Nat.le_of_lt_succ
    apply (Nat.div_lt_iff_lt_mul (by omega)).mpr
    omega
  have hsint : sint (x / u64 c).toUInt32 = (x / u64 c).toNat := by
    have hnat : (x / u64 c).toUInt32.toNat = (x / u64 c).toNat := by
      rw [UInt64.toNat_toUInt32]
      omega
    rw [sint_of_lt (by omega), hnat]
  rw [hsint] at hsize ⊢
  rw [toNat_u64_mul] at hsize
  have hcases : (x / u64 c).toNat = 0 ∨ (x / u64 c).toNat = 1 := by omega
  rcases hcases with h | h
  · rw [h]
    rfl
  · rw [h] at hsize
    omega

/-- What `usn_mempool_create` makes of the sizes it is given. -/
theorem usn_mempool_create_shape {posix_memalign : PosixMemalign} {mem : Int → MemChunk}
    {chunk_size : Int32} {total_size : UInt64} {mp : UsnMempool}
    (h : usn_mempool_create posix_memalign mem chunk_size total_size = some mp) :
    ∃ n : Nat, mp.mp_free_chunks = n ∧ mp.mp_total_chunks = n ∧ (0 < n → 16 ≤ mp.mp_chunk_size) ∧
      mp.mp_freeptr = some 0 ∧ mp.mem 0 = ⟨n, none⟩ := by
  unfold usn_mempool_create at h
  have hlow := chunk_size.le_toInt
  have hhigh := chunk_size.toInt_lt
  generalize chunk_size.toInt = c at h hlow hhigh
  split at h
  · cases h
  rename_i hlarge
  split at h
  · cases h
  simp only at h
  generalize hf : sint ((total_size + u64 (c - 1)) / u64 c).toUInt32 = f at h
  split at h
  · rename_i hgrant
    obtain rfl := Option.some.inj h
    have hsize := posix_memalign.ptrdiff_max _ hgrant
    have hshape : 0 ≤ f ∧ (0 < f → 16 ≤ c) := by
      by_cases hneg : c < 0
      · have hzero := @no_chunk c total_size hneg hlow (by rw [hf]; exact hsize)
        rw [hf] at hzero
        omega
      · have hc : 16 ≤ c := by
          rw [UInt64.lt_iff_toNat_lt, toNat_u64] at hlarge
          have h16 : (16 : UInt64).toNat = 16 := rfl
          omega
        refine ⟨chunks_nonneg hc hhigh ?_ hsize, fun _ => hc⟩
        rw [← hf]
        exact sint_lower _
    refine ⟨f.toNat, ?_⟩
    rw [Int.toNat_of_nonneg hshape.1]
    exact ⟨rfl, rfl, fun hpos => hshape.2 (by omega), rfl, Function.update_self (0 : Int) _ mem⟩
  · cases h

variable {n : Nat} {s : PoolRun} {heads : List Int}

theorem PoolInv.created (h : s.Created) : ∃ n, PoolInv n s [0] := by
  obtain ⟨hlive, posix_memalign, mem, chunk_size, total_size, hmp⟩ := h
  obtain ⟨n, hfree, htotal, hsize, hptr, hmem⟩ := usn_mempool_create_shape hmp
  have hrun : s.mp.free_run 0 = chunks s.mp.mp_chunk_size 0 n := by
    unfold UsnMempool.free_run
    rw [hmem]
    rfl
  refine ⟨n, htotal, hsize, ⟨hptr, ?_⟩, fun hpos p hp => ?_, ?_, ?_⟩
  · simp only [hmem, Links]
  · rw [List.mem_singleton.mp hp, hmem]
    exact Int.natCast_pos.mpr hpos
  · rw [hlive, List.flatMap_singleton, hrun, List.append_nil]
  · rw [List.flatMap_singleton, hrun, hfree, chunks, List.length_map, List.length_range]

/-- A header is the first chunk of its run. -/
theorem UsnMempool.mem_free_run {mp : UsnMempool} {p : Int} (h : 0 < (mp.mem p).mc_free_chunks) :
    p ∈ mp.free_run p := by
  obtain ⟨m, hm⟩ : ∃ m, (mp.mem p).mc_free_chunks.toNat = m + 1 :=
    ⟨(mp.mem p).mc_free_chunks.toNat - 1, by omega⟩
  rw [UsnMempool.free_run, hm, chunks_succ]
  exact List.mem_cons_self

theorem chunks_nodup {size p : Int} {n : Nat} (h : 0 < n → 0 < size) : (chunks size p n).Nodup := by
  unfold chunks
  refine (List.nodup_map_iff_inj_on List.nodup_range).mpr fun i hi j hj hij => ?_
  have hpos := h (by have := List.mem_range.mp hi; omega)
  have hmul : (i : Int) * size = j * size := by omega
  have heq := Int.eq_of_mul_eq_mul_right (by omega) hmul
  omega

theorem PoolInv.nodup (hi : PoolInv n s heads) :
    (heads.flatMap s.mp.free_run ++ s.live).Nodup := by
  refine hi.perm.nodup_iff.mpr (chunks_nodup fun hpos => ?_)
  have hsize := hi.size hpos
  omega

theorem mem_chunks {size p q : Int} {n : Nat} :
    p ∈ chunks size q n ↔ ∃ k : Nat, k < n ∧ p = q + k * size := by
  simp only [chunks, List.mem_map, List.mem_range, eq_comm]

/-- Runs whose headers are left alone stay as they are. -/
theorem free_runs_congr {mp mp' : UsnMempool} {l : List Int}
    (hsize : mp'.mp_chunk_size = mp.mp_chunk_size) (hmem : ∀ p ∈ l, mp'.mem p = mp.mem p) :
    l.flatMap mp'.free_run = l.flatMap mp.free_run :=
  List.flatMap_congr fun p hp => by
    unfold UsnMempool.free_run
    rw [hsize, hmem p hp]

theorem chain_congr {mp mp' : UsnMempool} {l : List Int} {head : Option Int}
    (h : Links (fun p => (mp.mem p).mc_next) head l) (hmem : ∀ p ∈ l, mp'.mem p = mp.mem p) :
    Links (fun p => (mp'.mem p).mc_next) head l :=
  h.congr fun p hp => by rw [hmem p hp]

/-- A live chunk lies in the pool and in no run. -/
theorem PoolInv.live (hi : PoolInv n s heads) {p : Int} (hp : p ∈ s.live) :
    0 < n ∧ p ∈ chunks s.mp.mp_chunk_size 0 n ∧ p ∉ heads := by
  have hmem := hi.perm.mem_iff.mp (List.mem_append_right _ hp)
  have hpos : 0 < n := by
    obtain ⟨k, hk, -⟩ := mem_chunks.mp hmem
    omega
  refine ⟨hpos, hmem, fun hhead => ?_⟩
  have hfree : p ∈ heads.flatMap s.mp.free_run :=
    List.mem_flatMap.mpr ⟨p, hhead, UsnMempool.mem_free_run (hi.filled hpos p hhead)⟩
  exact (List.nodup_append.mp hi.nodup).2.2 p hfree p hp rfl

theorem PoolInv.write (hi : PoolInv n s heads) {p : Int} (hp : p ∈ s.live) (chunk : MemChunk) :
    PoolInv n ⟨s.mp.write p chunk, s.live⟩ heads := by
  obtain ⟨-, -, hhead⟩ := hi.live hp
  have hmem : ∀ q ∈ heads, (s.mp.write p chunk).mem q = s.mp.mem q := by
    intro q hq
    have hne : q ≠ p := fun h => hhead (h ▸ hq)
    exact Function.update_of_ne hne ..
  have hruns : heads.flatMap (s.mp.write p chunk).free_run = heads.flatMap s.mp.free_run :=
    free_runs_congr rfl hmem
  refine ⟨hi.total, hi.size, chain_congr hi.chain hmem, fun hpos q hq => ?_, ?_, ?_⟩
  · rw [hmem q hq]
    exact hi.filled hpos q hq
  · rw [hruns]
    exact hi.perm
  · rw [hruns]
    exact hi.count

theorem PoolInv.free (hi : PoolInv n s heads) {p : Int} (hp : p ∈ s.live) :
    ∃ mp, usnet_mempool_free s.mp (some p) = some mp ∧
      PoolInv n ⟨mp, s.live.erase p⟩ (p :: heads) := by
  obtain ⟨hpos, hchunk, hhead⟩ := hi.live hp
  have halign : p.tmod s.mp.mp_chunk_size = 0 := by
    obtain ⟨k, -, rfl⟩ := mem_chunks.mp hchunk
    rw [Int.zero_add]
    exact Int.mul_tmod_left _ _
  unfold usnet_mempool_free
  simp only [halign, if_true]
  refine ⟨_, rfl, ?_⟩
  generalize hmp : ({ s.mp.write p { mc_free_chunks := 1, mc_next := s.mp.mp_freeptr } with
    mp_freeptr := some p, mp_free_chunks := s.mp.mp_free_chunks + 1 } : UsnMempool) = mp
  -- the chunk was live, so no header of a run is overwritten
  have hmem : ∀ q ∈ heads, mp.mem q = s.mp.mem q := by
    intro q hq
    have hne : q ≠ p := fun h => hhead (h ▸ hq)
    rw [← hmp]
    exact Function.update_of_ne hne ..
  have hself : mp.mem p = ⟨1, s.mp.mp_freeptr⟩ := by
    rw [← hmp]
    exact Function.update_self ..
  have hsize : mp.mp_chunk_size = s.mp.mp_chunk_size := by
    rw [← hmp]
    rfl
  -- it becomes a run of its own in front of the others
  have hruns : (p :: heads).flatMap mp.free_run = p :: heads.flatMap s.mp.free_run := by
    rw [List.flatMap_cons, free_runs_congr hsize hmem, UsnMempool.free_run, hself]
    simp [chunks]
  refine ⟨?_, ?_, ⟨?_, ?_⟩, fun _ q hq => ?_, ?_, ?_⟩
  · rw [← hmp]
    exact hi.total
  · rw [hsize]
    exact hi.size
  · rw [← hmp]
  · simp only [hself]
    exact chain_congr hi.chain hmem
  · rcases List.mem_cons.mp hq with rfl | hq
    · rw [hself]
      exact Int.one_pos
    · rw [hmem q hq]
      exact hi.filled hpos q hq
  · rw [hruns, hsize]
    refine List.Perm.trans ?_ hi.perm
    rw [List.cons_append]
    exact List.perm_middle.symm.trans ((List.perm_cons_erase hp).symm.append_left _)
  · rw [hruns, ← hmp]
    simp only [List.length_cons, hi.count]
    push_cast
    ring

/-- As long as chunks are free the list is not empty, and its first run has one. -/
theorem PoolInv.first (hi : PoolInv n s heads) (hfree : s.mp.mp_free_chunks ≠ 0) :
    ∃ p rest m, heads = p :: rest ∧ s.mp.mp_freeptr = some p ∧
      Links (fun p => (s.mp.mem p).mc_next) (s.mp.mem p).mc_next rest ∧
      (s.mp.mem p).mc_free_chunks = (m : Nat) + 1 ∧
      heads.flatMap s.mp.free_run
        = p :: (chunks s.mp.mp_chunk_size (p + s.mp.mp_chunk_size) m ++ rest.flatMap s.mp.free_run) := by
  have hcount := hi.count
  have hheads : heads ≠ [] := by
    rintro rfl
    simp only [List.flatMap_nil, List.length_nil] at hcount
    omega
  obtain ⟨p, rest, rfl, hptr, hchain⟩ := hi.chain.ne_nil hheads
  have hpos : 0 < n := by
    have hlen := hi.perm.length_eq
    simp only [List.length_append, chunks, List.length_map, List.length_range] at hlen
    omega
  have hfilled := hi.filled hpos p List.mem_cons_self
  refine ⟨p, rest, ((s.mp.mem p).mc_free_chunks - 1).toNat, rfl, hptr, hchain, by omega, ?_⟩
  have hlen : (s.mp.mem p).mc_free_chunks.toNat
      = ((s.mp.mem p).mc_free_chunks - 1).toNat + 1 := by omega
  rw [List.flatMap_cons, UsnMempool.free_run, hlen, chunks_succ, List.cons_append]

/-- The first free chunk goes to the live ones. -/
theorem PoolInv.taken (hi : PoolInv n s heads) {p : Int} {tail : List Int}
    (hflat : heads.flatMap s.mp.free_run = p :: tail) {mp : UsnMempool} {heads' : List Int}
    (htotal : mp.mp_total_chunks = s.mp.mp_total_chunks)
    (hsize : mp.mp_chunk_size = s.mp.mp_chunk_size)
    (hfree : mp.mp_free_chunks = s.mp.mp_free_chunks - 1)
    (hchain : Links (fun p => (mp.mem p).mc_next) mp.mp_freeptr heads')
    (hfilled : ∀ q ∈ heads', 0 < (mp.mem q).mc_free_chunks)
    (hruns : heads'.flatMap mp.free_run = tail) : PoolInv n ⟨mp, p :: s.live⟩ heads' := by
  refine ⟨htotal.trans hi.total, ?_, hchain, fun _ => hfilled, ?_, ?_⟩
  · rw [hsize]
    exact hi.size
  · rw [hruns, hsize]
    refine List.perm_middle.trans ?_
    rw [← List.cons_append, ← hflat]
    exact hi.perm
  · rw [hruns, hfree, hi.count, hflat, List.length_cons]
    push_cast
    ring

/-- An allocation has a result; it finds nothing exactly when all chunks are live. -/
theorem PoolInv.allocate (hi : PoolInv n s heads) :
    ∃ p mp heads', usnet_mempool_allocate s.mp = some (p, mp) ∧
      PoolInv n ⟨mp, p.toList ++ s.live⟩ heads' ∧ (p = none ↔ s.live.length = n) := by
  have hlen := hi.perm.length_eq
  have hcount := hi.count
  simp only [List.length_append, chunks, List.length_map, List.length_range] at hlen
  unfold usnet_mempool_allocate
  by_cases hfree : s.mp.mp_free_chunks = 0
  · rw [if_pos hfree]
    refine ⟨none, s.mp, heads, rfl, hi, ?_⟩
    simp only [true_iff]
    omega
  rw [if_neg hfree]
  -- `mp_freeptr` points to the first run, of `m + 1` chunks
  obtain ⟨p, rest, m, rfl, hptr, hchain, hm, hflat⟩ := hi.first hfree
  have hnodup := hi.nodup
  have hlive : ∀ q ∈ rest, 0 < (s.mp.mem q).mc_free_chunks := by
    intro q hq
    refine hi.filled ?_ q (List.mem_cons_of_mem p hq)
    rw [hflat, List.length_cons] at hlen
    omega
  have hfilled : ∀ q ∈ rest, q ∈ rest.flatMap s.mp.free_run := by
    intro q hq
    exact List.mem_flatMap.mpr ⟨q, hq, UsnMempool.mem_free_run (hlive q hq)⟩
  have hsome : some p = none ↔ s.live.length = n := by
    rw [hflat, List.length_cons] at hlen
    simp only [reduceCtorEq, false_iff]
    omega
  rw [hflat, List.cons_append, List.append_assoc] at hnodup
  obtain ⟨hp, hrest⟩ := List.nodup_cons.mp hnodup
  have hpne : ∀ q ∈ rest, q ≠ p := by
    rintro q hq rfl
    exact hp (List.mem_append_right _ (List.mem_append_left _ (hfilled q hq)))
  simp only [hptr, hm]
  rw [if_pos ⟨by omega, le_refl _⟩]
  simp only [Int.add_sub_cancel]
  by_cases hone : (m : Int) = 0
  · -- the run was one chunk long
    rw [if_neg (not_not.mpr hone)]
    have hmzero : m = 0 := by omega
    subst hmzero
    refine ⟨some p, _, rest, rfl, ?_, hsome⟩
    have hmem : ∀ q ∈ rest, (s.mp.write p ⟨0, (s.mp.mem p).mc_next⟩).mem q = s.mp.mem q :=
      fun q hq => Function.update_of_ne (hpne q hq) ..
    refine hi.taken hflat rfl rfl rfl (chain_congr hchain hmem) (fun q hq => ?_)
      (free_runs_congr rfl hmem)
    exact (hmem q hq).symm ▸ hlive q hq
  · -- the rest of the run gets a header behind the chunk taken
    rw [if_pos hone]
    generalize hq : p + s.mp.mp_chunk_size = q at hflat hrest hp
    obtain ⟨k, rfl⟩ : ∃ k, m = k + 1 := ⟨m - 1, by omega⟩
    have hqrun : q ∈ chunks s.mp.mp_chunk_size q (k + 1) := by
      rw [chunks_succ]
      exact List.mem_cons_self
    have hqne : ∀ r ∈ rest, r ≠ q := by
      rintro r hr rfl
      exact (List.nodup_append.mp hrest).2.2 r hqrun r
        (List.mem_append_left _ (hfilled r hr)) rfl
    refine ⟨some p, _, q :: rest, rfl, ?_, hsome⟩
    generalize hmp : UsnMempool.mk _ _ _ _ _ = mp
    have hsize : mp.mp_chunk_size = s.mp.mp_chunk_size := by
      rw [← hmp]
      rfl
    have hmem : ∀ r ∈ rest, mp.mem r = s.mp.mem r := by
      intro r hr
      have hne : r ≠ p + s.mp.mp_chunk_size := hq.symm ▸ hqne r hr
      rw [← hmp]
      exact (Function.update_of_ne hne ..).trans (Function.update_of_ne (hpne r hr) ..)
    have hself : mp.mem q = ⟨(k + 1 : Nat), (s.mp.mem p).mc_next⟩ := by
      rw [← hmp, ← hq]
      exact Function.update_self ..
    refine hi.taken hflat ?_ hsize ?_ ⟨?_, ?_⟩ (fun r hr => ?_) ?_
    · rw [← hmp]
      rfl
    · rw [← hmp]
      rfl
    · rw [← hmp, ← hq]
      rfl
    · simp only [hself]
      exact chain_congr hchain hmem
    · rcases List.mem_cons.mp hr with rfl | hr
      · rw [hself]
        exact Int.natCast_pos.mpr (Nat.succ_pos k)
      · rw [hmem r hr]
        exact hlive r hr
    · rw [List.flatMap_cons, free_runs_congr hsize hmem, UsnMempool.free_run, hself, hsize]
      rfl

theorem PoolReachable.inv (hr : PoolReachable s) : ∃ n heads, PoolInv n s heads := by
  refine hr.invariant (I := fun s => ∃ n heads, PoolInv n s heads) (fun s hc => ?_) ?_
  · obtain ⟨n, hi⟩ := PoolInv.created hc
    exact ⟨n, [0], hi⟩
  · rintro s op s' ⟨n, heads, hi⟩ - hstep
    cases op with
    | allocate =>
      obtain ⟨p, mp, hok, rfl⟩ := hstep
      obtain ⟨p', mp', heads', hok', hi', -⟩ := hi.allocate
      obtain ⟨rfl, rfl⟩ := Prod.mk.inj (Option.some.inj (hok.symm.trans hok'))
      exact ⟨n, heads', hi'⟩
    | free p =>
      cases p with
      | none =>
        obtain ⟨mp, hok, rfl⟩ := hstep
        obtain rfl := Option.some.inj hok
        exact ⟨n, heads, hi⟩
      | some p =>
        obtain ⟨hp, mp, hok, rfl⟩ := hstep
        obtain ⟨mp', hok', hi'⟩ := hi.free hp
        obtain rfl := Option.some.inj (hok.symm.trans hok')
        exact ⟨n, _, hi'⟩
    | write p chunk =>
      obtain ⟨hp, rfl⟩ := hstep
      exact ⟨n, heads, hi.write hp chunk⟩

/-! ## Section 4: The allocator -/

/-- A chunk of the pool: aligned on the chunk size, and inside the block. -/
structure UsnMempool.IsChunk (mp : UsnMempool) (p : Int) : Prop where
  aligned : p % mp.mp_chunk_size = 0
  inside : 0 ≤ p ∧ p + mp.mp_chunk_size ≤ mp.mp_total_chunks * mp.mp_chunk_size

/-- What the pool promises: the live chunks are chunks of it that do not overlap,
    the counter is what is left, an allocation gives a chunk that is not live, or
    nothing exactly when all are live, and neither operation ends the process. -/
structure Allocates (s : PoolRun) : Prop where
  nodup : s.live.Nodup
  chunk : ∀ p ∈ s.live, s.mp.IsChunk p
  apart : ∀ p ∈ s.live, ∀ q ∈ s.live, p ≠ q →
    p + s.mp.mp_chunk_size ≤ q ∨ q + s.mp.mp_chunk_size ≤ p
  counter : s.mp.mp_free_chunks = s.mp.mp_total_chunks - s.live.length
  allocate : ∃ p mp, usnet_mempool_allocate s.mp = some (p, mp) ∧
    (p = none ↔ s.live.length = s.mp.mp_total_chunks) ∧
    ∀ q, p = some q → q ∉ s.live ∧ s.mp.IsChunk q
  free : ∀ p ∈ s.live, (usnet_mempool_free s.mp (some p)).isSome

theorem mem_chunks_apart {size p q : Int} {n : Nat} (hsize : 0 < n → 16 ≤ size)
    (hp : p ∈ chunks size 0 n) (hq : q ∈ chunks size 0 n) (hne : p ≠ q) :
    p + size ≤ q ∨ q + size ≤ p := by
  obtain ⟨i, hi, rfl⟩ := mem_chunks.mp hp
  obtain ⟨j, hj, rfl⟩ := mem_chunks.mp hq
  have hpos := hsize (by omega)
  have hij : i ≠ j := by
    rintro rfl
    exact hne rfl
  rcases Nat.lt_or_gt_of_ne hij with hlt | hlt
  · left
    nlinarith
  · right
    nlinarith

theorem PoolInv.isChunk (hi : PoolInv n s heads) {p : Int}
    (hp : p ∈ chunks s.mp.mp_chunk_size 0 n) : s.mp.IsChunk p := by
  obtain ⟨k, hk, rfl⟩ := mem_chunks.mp hp
  have hpos := hi.size (by omega)
  rw [Int.zero_add]
  refine ⟨Int.mul_emod_left _ _, ?_, ?_⟩
  · exact Int.mul_nonneg (Int.natCast_nonneg k) (by omega)
  · rw [hi.total]
    nlinarith

theorem usnet_mempool_allocate_size {mp mp' : UsnMempool} {p : Option Int}
    (h : usnet_mempool_allocate mp = some (p, mp')) : mp'.mp_chunk_size = mp.mp_chunk_size := by
  unfold usnet_mempool_allocate at h
  simp only at h
  split at h
  · obtain ⟨-, rfl⟩ := Prod.mk.inj (Option.some.inj h)
    rfl
  split at h
  · cases h
  split at h
  · split at h
    · obtain ⟨-, rfl⟩ := Prod.mk.inj (Option.some.inj h)
      rfl
    · obtain ⟨-, rfl⟩ := Prod.mk.inj (Option.some.inj h)
      rfl
  · cases h

/-- In every run of a pool, with the chunks freed in any order and written to by
    whoever has them, the pool is a correct allocator. -/
theorem pool_allocates {s : PoolRun} (hr : PoolReachable s) : Allocates s := by
  obtain ⟨n, heads, hi⟩ := hr.inv
  have hnodup := List.nodup_append.mp hi.nodup
  have hlen := hi.perm.length_eq
  have hcount := hi.count
  simp only [List.length_append, chunks, List.length_map, List.length_range] at hlen
  refine ⟨hnodup.2.1, fun p hp => hi.isChunk (hi.live hp).2.1, fun p hp q hq => ?_, ?_, ?_, ?_⟩
  · exact mem_chunks_apart hi.size (hi.live hp).2.1 (hi.live hq).2.1
  · have htotal := hi.total
    omega
  · obtain ⟨p, mp, heads', hok, hi', hfull⟩ := hi.allocate
    have htotal := hi.total
    refine ⟨p, mp, hok, ?_, ?_⟩
    · rw [hfull]
      omega
    · rintro q rfl
      have hsize := usnet_mempool_allocate_size hok
      have hq : q ∈ q :: s.live := List.mem_cons_self
      refine ⟨(List.nodup_cons.mp (List.nodup_append.mp hi'.nodup).2.1).1, ?_⟩
      have hchunk := (hi'.live hq).2.1
      rw [hsize] at hchunk
      exact hi.isChunk hchunk
  · intro p hp
    obtain ⟨mp, hok, -⟩ := hi.free hp
    rw [hok]
    rfl

/-- A pool of three chunks of 16 bytes. -/
def small_pool : UsnMempool :=
  { mp_freeptr := some 0, mp_free_chunks := 3, mp_total_chunks := 3, mp_chunk_size := 16
    mem := Function.update (fun _ => ⟨0, none⟩) 0 ⟨3, none⟩ }

theorem small_pool_created : PoolRun.Created ⟨small_pool, []⟩ := ⟨rfl, ⟨fun n => n < 1000, by
  intro size hsize
  have hlt := UInt64.lt_iff_toNat_lt.mp (of_decide_eq_true hsize)
  have hmax : (1000 : UInt64).toNat = 1000 := rfl
  omega⟩, fun _ => ⟨0, none⟩, 16, 40, rfl⟩

/-- Two chunks are taken, and the first is given back. -/
theorem pool_allocates_sample : ∃ s, s.live = [16] ∧ s.mp.mp_freeptr = some 0 ∧ Allocates s := by
  have hnew : PoolReachable ⟨small_pool, []⟩ := .init small_pool_created
  have hone : PoolReachable _ := hnew.next (a := .allocate) ⟨_, _, rfl, rfl⟩ trivial
  have htwo : PoolReachable _ := hone.next (a := .allocate) ⟨_, _, rfl, rfl⟩ trivial
  have hfreed : PoolReachable _ := htwo.next (a := .free (some 0)) ⟨by decide, _, rfl, rfl⟩ trivial
  exact ⟨_, rfl, rfl, pool_allocates hfreed⟩

/-! ## Section 5: Pools in use -/

namespace UsnMempool

variable {mp mp' : UsnMempool} {live : List Int}

/-- The chunks in use are those of the list. -/
def Takes (mp : UsnMempool) (live : List Int) : Prop := ∃ n heads, PoolInv n ⟨mp, live⟩ heads

/-- How many chunks are in use. -/
def taken (mp : UsnMempool) : Int := mp.mp_total_chunks - mp.mp_free_chunks

theorem Takes.created (h : PoolRun.Created ⟨mp, []⟩) : mp.Takes [] := by
  obtain ⟨n, hi⟩ := PoolInv.created h
  exact ⟨n, [0], hi⟩

theorem Takes.perm {live' : List Int} (h : mp.Takes live) (hp : live.Perm live') :
    mp.Takes live' := by
  obtain ⟨n, heads, hi⟩ := h
  exact ⟨n, heads, hi.total, hi.size, hi.chain, hi.filled, (hp.symm.append_left _).trans hi.perm,
    hi.count⟩

/-- The counters say how long the list is. -/
theorem Takes.taken_eq (h : mp.Takes live) : mp.taken = live.length := by
  obtain ⟨n, heads, hi⟩ := h
  have hlen := hi.perm.length_eq
  have hcount := hi.count
  have htotal := hi.total
  simp only [List.length_append, chunks, List.length_map, List.length_range] at hlen hcount htotal
  unfold taken
  omega

theorem Takes.allocate (h : mp.Takes live) {p : Option Int}
    (hok : usnet_mempool_allocate mp = some (p, mp')) : mp'.Takes (p.toList ++ live) := by
  obtain ⟨n, heads, hi⟩ := h
  obtain ⟨q, mq, heads', hok', hi', -⟩ := hi.allocate
  obtain ⟨rfl, rfl⟩ := Prod.mk.inj (Option.some.inj (hok.symm.trans hok'))
  exact ⟨n, heads', hi'⟩

theorem Takes.free {p : Int} (h : mp.Takes (p :: live))
    (hok : usnet_mempool_free mp (some p) = some mp') : mp'.Takes live := by
  obtain ⟨n, heads, hi⟩ := h
  obtain ⟨mq, hok', hi'⟩ := hi.free List.mem_cons_self
  obtain rfl := Option.some.inj (hok.symm.trans hok')
  rw [List.erase_cons_head] at hi'
  exact ⟨n, _, hi'⟩

end UsnMempool

/-- A chunk is found as long as one is free. -/
theorem usnet_mempool_allocate_found {mp mp' : UsnMempool} {p : Option Int}
    (hok : usnet_mempool_allocate mp = some (p, mp')) :
    p.isSome = decide (mp.mp_free_chunks ≠ 0) ∧ (p = none → mp' = mp) := by
  unfold usnet_mempool_allocate at hok
  by_cases hfree : mp.mp_free_chunks = 0
  · rw [if_pos hfree] at hok
    obtain ⟨rfl, rfl⟩ := Prod.mk.inj (Option.some.inj hok)
    simp [hfree]
  · rw [if_neg hfree] at hok
    simp only at hok
    split at hok
    · cases hok
    split at hok
    · split at hok
      · obtain ⟨rfl, -⟩ := Prod.mk.inj (Option.some.inj hok)
        simp [hfree]
      · obtain ⟨rfl, -⟩ := Prod.mk.inj (Option.some.inj hok)
        simp [hfree]
    · cases hok

end Usnet
