import Usnet.Receive
import Usnet.FragPool
import Usnet.TcbTable

/-! # What connections hold (tcb.c, ringbuf.c, sndbuf.c)

    A connection has a chunk of `rcvvars_mp` and one of `sndvars_mp` from its
    creation to its release, and may have a slot of `ringbuf_cache`, one of
    `sndbuf_cache` and a chunk of `frag_mp` for every fragment its receive buffer
    waits with.  The calls that take and give back any of these are put together
    in any order; only what they are called with is left open.
-/

namespace Usnet

open CInt Run UsnMempool

/-! ## Section 1: The buffer caches -/

namespace RingSlot

/-- `usnet_rb_key`. -/
def usnet_rb_key (item : RingSlot) : UInt32 := item.buf.fd

/-- `usnet_rb_eq`. -/
def usnet_rb_eq (item1 item2 : RingSlot) : Bool := item1.buf.fd == item2.buf.fd

/-- `usnet_rb_isempty`. -/
def usnet_rb_isempty (item : RingSlot) : Bool := item.buf.fd == 0

/-- `usnet_rb_setempty`. -/
def usnet_rb_setempty (item : RingSlot) : RingSlot :=
  { item with buf := { item.buf with fd := 0 } }

/-- A slot set to zero, with the descriptor it is looked for by. -/
def zero (fd : UInt32) : RingSlot :=
  { buf := { fd := fd, data := 0, head := 0, size := 0, head_seq := 0, last_seq := 0
             merged_len := 0, win := 0, frags := [], data_ptr := fun _ => 0 }
    nodes := [], frags := rfl }

end RingSlot

namespace UsnSendbuf

/-- `usnet_sb_key`. -/
def usnet_sb_key (item : UsnSendbuf) : UInt32 := item.fd

/-- `usnet_sb_eq`. -/
def usnet_sb_eq (item1 item2 : UsnSendbuf) : Bool := item1.fd == item2.fd

/-- `usnet_sb_isempty`. -/
def usnet_sb_isempty (item : UsnSendbuf) : Bool := item.fd == 0

/-- `usnet_sb_setempty`. -/
def usnet_sb_setempty (item : UsnSendbuf) : UsnSendbuf := { item with fd := 0 }

/-- A slot set to zero, with the descriptor it is looked for by. -/
def zero (fd : UInt32) : UsnSendbuf :=
  { fd := fd, head := 0, sent_head := 0, tail := 0, len := 0, size := 0, head_seq := 0
    init_seq := 0, data_ptr := fun _ => 0 }

end UsnSendbuf

/-- The cache of `usnet_ringbuf_init`. -/
def usnet_ringbuf_init : UsnHashbase RingSlot :=
  { hb_time := 10, hb_base := usnet_hashbase_init 10 100, hb_cache := fun _ => .zero 0
    hb_eqfn := RingSlot.usnet_rb_eq, hb_keyfn := RingSlot.usnet_rb_key
    hb_isemptyfn := RingSlot.usnet_rb_isempty, hb_setemptyfn := RingSlot.usnet_rb_setempty }

/-- The cache of `usnet_sendbuf_init`. -/
def usnet_sendbuf_init : UsnHashbase UsnSendbuf :=
  { hb_time := 10, hb_base := usnet_hashbase_init 10 100, hb_cache := fun _ => .zero 0
    hb_eqfn := UsnSendbuf.usnet_sb_eq, hb_keyfn := UsnSendbuf.usnet_sb_key
    hb_isemptyfn := UsnSendbuf.usnet_sb_isempty, hb_setemptyfn := UsnSendbuf.usnet_sb_setempty }

/-! ## Section 2: The calls -/

/-- What the two parts of a connection are: their chunks, and the slots of the
    buffers they point to. -/
structure ConnVars where
  rcvvar : Int
  sndvar : Int
  rcvbuf : Option (Nat × Nat)
  sndbuf : Option (Nat × Nat)

/-- The context, as far as connections take something from it. -/
structure Resources where
  table : TcbCtx
  vars : Nat × Nat → ConnVars
  rcvvars_mp : UsnMempool
  sndvars_mp : UsnMempool
  frag_mp : UsnMempool
  ringbuf_cache : UsnHashbase RingSlot
  sndbuf_cache : UsnHashbase UsnSendbuf

namespace Resources

/-- `CACHE_REMOVE`, where the pointer may be NULL. -/
def cache_remove {α : Type} (base : UsnHashbase α) (item : Option (Nat × Nat)) : UsnHashbase α :=
  match item with
  | none => base
  | some item => usnet_cache_remove base item

/-- `usnet_init_newtcb` without a socket.  It has no result where a pool ends the
    process. -/
def usnet_init_newtcb (r : Resources) (saddr : UInt32) (sport : UInt16) (daddr : UInt32)
    (dport : UInt16) : Option (Resources × Option (Nat × Nat)) :=
  match usnet_cache_insert r.table.tcb_cache (.stcb saddr sport daddr dport) with
  | none => some (r, none)
  | some (tcb, base) =>
    let fd := match r.table.listen_tcb with
      | none => 0
      | some p => (base.hb_cache p).fd
    let item := { base.hb_cache tcb with fd := fd }
    match usnet_mempool_allocate r.rcvvars_mp with
    | none => none
    | some (none, rcvvars_mp) =>
      some ({ r with
        rcvvars_mp := rcvvars_mp
        table := { r.table with tcb_cache := usnet_cache_remove (base.set tcb item) tcb } }, none)
    | some (some rcvvar, rcvvars_mp) =>
      match usnet_mempool_allocate r.sndvars_mp with
      | none => none
      | some (none, sndvars_mp) =>
        match usnet_mempool_free rcvvars_mp (some rcvvar) with
        | none => none
        | some rcvvars_mp =>
          let item := { item with rcvvar := .freed }
          some ({ r with
            rcvvars_mp := rcvvars_mp
            sndvars_mp := sndvars_mp
            table := { r.table with tcb_cache := usnet_cache_remove (base.set tcb item) tcb } },
            none)
      | some (some sndvar, sndvars_mp) =>
        let item := { item with rcvvar := .live, sndvar := .live, on_hash_table := true
                                state := .listen }
        some ({ r with
          rcvvars_mp := rcvvars_mp
          sndvars_mp := sndvars_mp
          table := { r.table with tcb_cache := base.set tcb item }
          vars := Function.update r.vars tcb
            { rcvvar := rcvvar, sndvar := sndvar, rcvbuf := none, sndbuf := none } }, some tcb)

/-- `usnet_get_ringbuf`, and what `usnet_process_tcp_payload` does with the result. -/
def get_ringbuf (r : Resources) (tcb : Nat × Nat) (init_seq : UInt32) : Resources :=
  let fd := (r.table.tcb tcb).fd
  let slot := usnet_cache_get r.ringbuf_cache (.zero fd)
  let data_ptr := slot.map fun item => (r.ringbuf_cache.hb_cache item).buf.data_ptr
  match slot, usnet_get_ringbuf data_ptr RINGBUF_SIZE fd init_seq with
  | some item, some buf => { r with
      ringbuf_cache := r.ringbuf_cache.set item (.of buf [])
      vars := Function.update r.vars tcb { r.vars tcb with rcvbuf := some item } }
  | _, _ => r

/-- `usnet_connect_net_handler` at the connection it has found. -/
def usnet_connect_net_handler (r : Resources) (tcb : Nat × Nat) (so_fd init_seq : UInt32) :
    Resources :=
  let r := { r with table := { r.table with
    tcb_cache := r.table.tcb_cache.set tcb { r.table.tcb tcb with fd := so_fd } } }
  if (r.vars tcb).sndbuf.isSome then r
  else
    let slot := usnet_cache_get r.sndbuf_cache (.zero so_fd)
    let data_ptr := slot.map fun item => (r.sndbuf_cache.hb_cache item).data_ptr
    match slot, usnet_get_sendbuf data_ptr SENDBUF_SIZE so_fd init_seq with
    | some item, some buf => { r with
        sndbuf_cache := r.sndbuf_cache.set item buf
        vars := Function.update r.vars tcb { r.vars tcb with sndbuf := some item } }
    | _, _ => r

/-- `usnet_release_tcb`. -/
def usnet_release_tcb (r : Resources) (tcb : Nat × Nat) : Option Resources :=
  match usnet_mempool_free r.rcvvars_mp (some (r.vars tcb).rcvvar),
    usnet_mempool_free r.sndvars_mp (some (r.vars tcb).sndvar) with
  | some rcvvars_mp, some sndvars_mp => some { r with
      sndbuf_cache := cache_remove r.sndbuf_cache (r.vars tcb).sndbuf
      ringbuf_cache := cache_remove r.ringbuf_cache (r.vars tcb).rcvbuf
      rcvvars_mp := rcvvars_mp
      sndvars_mp := sndvars_mp
      table := r.table.usnet_release_tcb tcb }
  | _, _ => none

end Resources

/-- The calls, at the connection they are made for. -/
inductive ResourceCall where
  | register (so_fd addr : UInt32) (port : UInt16)
  | create (saddr : UInt32) (sport : UInt16) (daddr : UInt32) (dport : UInt16)
  | connect (tcb : Nat × Nat) (so_fd init_seq : UInt32)
  | get_ringbuf (tcb : Nat × Nat) (init_seq : UInt32)
  | insert (tcb : Nat × Nat) (data : List UInt8) (seq : UInt32)
  | read (buf : Nat × Nat) (count : Nat)
  | release (tcb : Nat × Nat)

/-- One call.  Connections are created for addresses that no search has found;
    every other call has a connection that is live, and the payload of a segment
    goes to a buffer the connection has. -/
def resource_next (flags : Int → UInt16) (r : Resources) : ResourceCall → Option Resources
  | .register so_fd addr port =>
    some { r with table := (r.table.usnet_register_socket (some so_fd) addr port 0 0).2 }
  | .create saddr sport daddr dport =>
    if usnet_cache_search r.table.tcb_cache (.stcb saddr sport daddr dport) = none then
      (r.usnet_init_newtcb saddr sport daddr dport).map Prod.fst
    else none
  | .connect tcb so_fd init_seq =>
    if (r.table.tcb tcb).Live then some (r.usnet_connect_net_handler tcb so_fd init_seq) else none
  | .get_ringbuf tcb init_seq =>
    if (r.table.tcb tcb).Live ∧ (r.vars tcb).rcvbuf = none then some (r.get_ringbuf tcb init_seq)
    else none
  | .insert tcb data seq =>
    match (r.vars tcb).rcvbuf with
    | none => none
    | some item =>
      if (r.table.tcb tcb).Live then
        match usnet_insert_node flags r.frag_mp (r.ringbuf_cache.hb_cache item) data seq with
        | none => none
        | some (_, frag_mp, slot) =>
          some { r with frag_mp := frag_mp, ringbuf_cache := r.ringbuf_cache.set item slot }
      else none
  | .read item count =>
    let slot := r.ringbuf_cache.hb_cache item
    some { r with ringbuf_cache :=
      r.ringbuf_cache.set item (.of (read_ringbuf slot.buf count).2.2 slot.nodes) }
  | .release tcb => if (r.table.tcb tcb).Live then r.usnet_release_tcb tcb else none

def resource_step (flags : Int → UInt16) (r : Resources) (call : ResourceCall) (r' : Resources) :
    Prop := resource_next flags r call = some r'

/-- The start of the network process: new pools and empty tables. -/
structure Resources.Init (r : Resources) : Prop where
  table : r.table = TcbCtx.usnet_tcb_init
  rcvvars : PoolRun.Created ⟨r.rcvvars_mp, []⟩
  sndvars : PoolRun.Created ⟨r.sndvars_mp, []⟩
  frag : PoolRun.Created ⟨r.frag_mp, []⟩
  ringbuf_cache : r.ringbuf_cache = usnet_ringbuf_init
  sndbuf_cache : r.sndbuf_cache = usnet_sendbuf_init

/-! ## Section 3: What has to be accounted for -/

namespace Resources

/-- The slot holds a connection made by `usnet_init_newtcb` and not released. -/
def live (r : Resources) (p : Nat × Nat) : Prop := (r.table.tcb p).Live

def rcvbuf (r : Resources) (p : Nat × Nat) : Option (Nat × Nat) := (r.vars p).rcvbuf

def sndbuf (r : Resources) (p : Nat × Nat) : Option (Nat × Nat) := (r.vars p).sndbuf

/-- The list of the receive buffer a connection has. -/
def frags (r : Resources) (p : Nat × Nat) : List FragNode :=
  match r.rcvbuf p with
  | none => []
  | some item => (r.ringbuf_cache.hb_cache item).nodes

/-- All live connections, each once. -/
def LiveTcbs (r : Resources) (tcbs : List (Nat × Nat)) : Prop :=
  tcbs.Nodup ∧ ∀ p, p ∈ tcbs ↔ r.live p

/-- What a call that makes no connection leaves as it was: the chunks in use, the
    occupied slots of the table and the caches. -/
structure Unchanged (r r' : Resources) : Prop where
  rcvvars : ∀ used, r.rcvvars_mp.Takes used → r'.rcvvars_mp.Takes used
  rcvvars_taken : r'.rcvvars_mp.taken = r.rcvvars_mp.taken
  sndvars : r'.sndvars_mp = r.sndvars_mp
  frag : r'.frag_mp = r.frag_mp
  empty : ∀ p, (r'.table.tcb p).usnet_tcb_isempty = (r.table.tcb p).usnet_tcb_isempty
  full : ∀ p, (r.table.tcb p).usnet_tcb_isempty = false → r'.table.tcb p = r.table.tcb p
  ringbuf_cache : r'.ringbuf_cache = r.ringbuf_cache
  sndbuf_cache : r'.sndbuf_cache = r.sndbuf_cache

/-- The calls that keep account: a connection is released when its list is empty,
    and a buffer is not taken from a slot that is a live connection's already. -/
def Keeps (r : Resources) : ResourceCall → Prop
  | .release tcb => r.frags tcb = []
  | .get_ringbuf tcb _ => ∀ item,
    usnet_cache_get r.ringbuf_cache (.zero (r.table.tcb tcb).fd) = some item →
    ∀ p, r.live p → r.rcvbuf p ≠ some item
  | .connect tcb so_fd _ => r.sndbuf tcb = none → ∀ item,
    usnet_cache_get r.sndbuf_cache (.zero so_fd) = some item →
    ∀ p, r.live p → r.sndbuf p ≠ some item
  | _ => True

end Resources

/-! ## Section 4: Slots and their owners -/

/-- Every occupied slot is the buffer of a live connection, and no slot that of two. -/
structure Owned {α : Type} (base : UsnHashbase α) (live : Nat × Nat → Prop)
    (buf : Nat × Nat → Option (Nat × Nat)) : Prop where
  setempty : ∀ x, base.hb_isemptyfn (base.hb_setemptyfn x) = true
  owner : ∀ item, base.hb_isemptyfn (base.hb_cache item) = false →
    ∃ p, live p ∧ buf p = some item
  once : ∀ p q item, live p → live q → buf p = some item → buf q = some item → p = q

namespace Owned

variable {α : Type} {base : UsnHashbase α} {live live' : Nat × Nat → Prop}
  {buf buf' : Nat × Nat → Option (Nat × Nat)}

theorem unique (h : Owned base live buf) {item : Nat × Nat}
    (hfull : base.hb_isemptyfn (base.hb_cache item) = false) :
    ∃! p, live p ∧ buf p = some item := by
  obtain ⟨p, hp, hbuf⟩ := h.owner item hfull
  exact ⟨p, ⟨hp, hbuf⟩, fun q ⟨hq, hbuf'⟩ => h.once q p item hq hp hbuf' hbuf⟩

/-- A connection that starts without a buffer. -/
theorem create (h : Owned base live buf) {q : Nat × Nat} (hlive : ∀ p, live' p ↔ p = q ∨ live p)
    (hq : buf' q = none) (hbuf : ∀ p, live p → buf' p = buf p) : Owned base live' buf' := by
  refine ⟨h.setempty, fun item hfull => ?_, fun p₁ p₂ item h₁ h₂ hb₁ hb₂ => ?_⟩
  · obtain ⟨p, hp, hb⟩ := h.owner item hfull
    exact ⟨p, (hlive p).mpr (.inr hp), (hbuf p hp).trans hb⟩
  · have hold : ∀ p, live' p → buf' p = some item → live p := by
      intro p hp hb
      rcases (hlive p).mp hp with rfl | hp
      · cases hq.symm.trans hb
      · exact hp
    have h₁' := hold p₁ h₁ hb₁
    have h₂' := hold p₂ h₂ hb₂
    exact h.once p₁ p₂ item h₁' h₂' ((hbuf p₁ h₁').symm.trans hb₁) ((hbuf p₂ h₂').symm.trans hb₂)

/-- Neither the connections nor their buffers change. -/
theorem congr (h : Owned base live buf) (hlive : ∀ p, live' p ↔ live p)
    (hbuf : ∀ p, live p → buf' p = buf p) : Owned base live' buf' := by
  refine ⟨h.setempty, fun item hfull => ?_, fun p₁ p₂ item h₁ h₂ hb₁ hb₂ => ?_⟩
  · obtain ⟨p, hp, hb⟩ := h.owner item hfull
    exact ⟨p, (hlive p).mpr hp, (hbuf p hp).trans hb⟩
  · have h₁' := (hlive p₁).mp h₁
    have h₂' := (hlive p₂).mp h₂
    exact h.once p₁ p₂ item h₁' h₂' ((hbuf p₁ h₁').symm.trans hb₁) ((hbuf p₂ h₂').symm.trans hb₂)

/-- What is written into a slot leaves it occupied, or free. -/
theorem write (h : Owned base live buf) {item : Nat × Nat} {x : α}
    (hx : base.hb_isemptyfn x = base.hb_isemptyfn (base.hb_cache item)) :
    Owned (base.set item x) live buf := by
  refine ⟨h.setempty, fun item' hfull => ?_, h.once⟩
  by_cases hi : item' = item
  · subst hi
    rw [UsnHashbase.set_self] at hfull
    exact h.owner item' (hx.symm.trans hfull)
  · rw [UsnHashbase.set_ne _ _ hi] at hfull
    exact h.owner item' hfull

/-- A slot that is nobody's becomes a connection's first buffer. -/
theorem take (h : Owned base live buf) {q item : Nat × Nat} {x : α} (hq : live q)
    (hnone : buf q = none) (hfree : ∀ p, live p → buf p ≠ some item)
    (hself : buf' q = some item) (hbuf : ∀ p, p ≠ q → buf' p = buf p) :
    Owned (base.set item x) live buf' := by
  have hold : ∀ p item', live p → item' ≠ item → (buf' p = some item' ↔ buf p = some item') := by
    intro p item' _ hi
    by_cases hp : p = q
    · subst hp
      rw [hself, hnone]
      simp only [Option.some.injEq, reduceCtorEq, iff_false]
      exact fun h => hi h.symm
    · rw [hbuf p hp]
  have hmine : ∀ p, live p → buf' p = some item → p = q := by
    intro p hp hb
    by_contra hpq
    exact hfree p hp ((hbuf p hpq).symm.trans hb)
  refine ⟨h.setempty, fun item' hfull => ?_, fun p₁ p₂ item' h₁ h₂ hb₁ hb₂ => ?_⟩
  · by_cases hi : item' = item
    · exact ⟨q, hq, hi ▸ hself⟩
    · rw [UsnHashbase.set_ne _ _ hi] at hfull
      obtain ⟨p, hp, hb⟩ := h.owner item' hfull
      exact ⟨p, hp, (hold p item' hp hi).mpr hb⟩
  · by_cases hi : item' = item
    · subst hi
      exact (hmine p₁ h₁ hb₁).trans (hmine p₂ h₂ hb₂).symm
    · exact h.once p₁ p₂ item' h₁ h₂ ((hold p₁ item' h₁ hi).mp hb₁) ((hold p₂ item' h₂ hi).mp hb₂)

/-- A connection goes, and its buffer with it. -/
theorem release (h : Owned base live buf) {q : Nat × Nat} (hlive : ∀ p, live' p ↔ live p ∧ p ≠ q) :
    Owned (Resources.cache_remove base (buf q)) live' buf := by
  have honce : ∀ p₁ p₂ item, live' p₁ → live' p₂ → buf p₁ = some item → buf p₂ = some item →
      p₁ = p₂ := fun p₁ p₂ item h₁ h₂ => h.once p₁ p₂ item ((hlive p₁).mp h₁).1 ((hlive p₂).mp h₂).1
  unfold Resources.cache_remove
  split
  · rename_i hnone
    refine ⟨h.setempty, fun item hfull => ?_, honce⟩
    obtain ⟨p, hp, hb⟩ := h.owner item hfull
    refine ⟨p, (hlive p).mpr ⟨hp, ?_⟩, hb⟩
    rintro rfl
    cases hnone.symm.trans hb
  · rename_i item hsome
    refine ⟨h.setempty, fun item' hfull => ?_, honce⟩
    have hi : item' ≠ item := by
      rintro rfl
      rw [usnet_cache_remove, UsnHashbase.set_self] at hfull
      cases (h.setempty _).symm.trans hfull
    rw [usnet_cache_remove, UsnHashbase.set_ne _ _ hi] at hfull
    obtain ⟨p, hp, hb⟩ := h.owner item' hfull
    refine ⟨p, (hlive p).mpr ⟨hp, ?_⟩, hb⟩
    rintro rfl
    exact hi (Option.some.inj (hb.symm.trans hsome))

end Owned

/-! ## Section 5: The invariant -/

/-- The value of one element is in front of what the others add up to. -/
theorem flatMap_put {α β : Type} [BEq α] [LawfulBEq α] {l : List α} {f g : α → List β} {x : α}
    (hl : l.Nodup) (hx : x ∈ l) (hsame : ∀ y ∈ l, y ≠ x → g y = f y) :
    (l.flatMap f).Perm (f x ++ (l.erase x).flatMap f) ∧
    (l.flatMap g).Perm (g x ++ (l.erase x).flatMap f) := by
  have hperm := List.perm_cons_erase hx
  refine ⟨hperm.flatMap_right f, ?_⟩
  have hrest : (l.erase x).flatMap g = (l.erase x).flatMap f :=
    List.flatMap_congr fun y hy => hsame y (List.mem_of_mem_erase hy) (by
      rintro rfl
      exact (hl.mem_erase_iff.mp hy).1 rfl)
  rw [← hrest]
  exact hperm.flatMap_right g

namespace Resources

/-- The chunks of a connection's list. -/
def held (r : Resources) (p : Nat × Nat) : List Int := frag_chunks (r.frags p)

/-- What the pools, the table and the caches agree on. -/
structure Inv (r : Resources) : Prop where
  fns : TcbCtx.Fns r.table.tcb_cache
  live_full : ∀ p, r.live p → (r.table.tcb p).usnet_tcb_isempty = false
  pools : ∃ tcbs, r.LiveTcbs tcbs ∧
    r.rcvvars_mp.Takes (tcbs.map fun p => (r.vars p).rcvvar) ∧
    r.sndvars_mp.Takes (tcbs.map fun p => (r.vars p).sndvar) ∧
    r.frag_mp.Takes (tcbs.flatMap r.held)
  ring_fn : r.ringbuf_cache.hb_isemptyfn = RingSlot.usnet_rb_isempty
  ring_empty : r.ringbuf_cache.hb_setemptyfn = RingSlot.usnet_rb_setempty
  send_fn : r.sndbuf_cache.hb_isemptyfn = UsnSendbuf.usnet_sb_isempty
  rings : Owned r.ringbuf_cache r.live r.rcvbuf
  sends : Owned r.sndbuf_cache r.live r.sndbuf

variable {r r' : Resources}

theorem Inv.init (h : r.Init) : r.Inv := by
  have hdead : ∀ p, ¬ r.live p := by
    intro p hp
    unfold live TcbCtx.tcb at hp
    rw [h.table] at hp
    cases hp.1
  refine ⟨?_, fun p hp => absurd hp (hdead p), ⟨[], ⟨List.nodup_nil, fun p => ?_⟩, ?_, ?_, ?_⟩,
    ?_, ?_, ?_, ?_, ?_⟩
  · rw [h.table]
    exact TcbCtx.Inv.init.fns
  · exact ⟨fun hp => (nomatch hp), fun hp => absurd hp (hdead p)⟩
  · exact .created h.rcvvars
  · exact .created h.sndvars
  · exact .created h.frag
  · rw [h.ringbuf_cache]
    rfl
  · rw [h.ringbuf_cache]
    rfl
  · rw [h.sndbuf_cache]
    rfl
  · rw [h.ringbuf_cache]
    exact ⟨fun _ => rfl, fun item hfull => (nomatch hfull), fun p _ _ hp => absurd hp (hdead p)⟩
  · rw [h.sndbuf_cache]
    exact ⟨fun _ => rfl, fun item hfull => (nomatch hfull), fun p _ _ hp => absurd hp (hdead p)⟩

/-- A free slot is written to, and no connection is there then. -/
def PutDead (t t' : TcbCtx) : Prop :=
  ∃ p x, t'.tcb_cache = t.tcb_cache.set p x ∧ (t.tcb p).usnet_tcb_isempty = true ∧ ¬ x.Live

/-- It is free again afterwards. -/
structure Frees (t t' : TcbCtx) : Prop where
  wrote : PutDead t t'
  empty : ∀ p, (t'.tcb p).usnet_tcb_isempty = (t.tcb p).usnet_tcb_isempty

/-- A creation that fails. -/
structure Rejected (r r' : Resources) : Prop where
  vars : r'.vars = r.vars
  frag : r'.frag_mp = r.frag_mp
  sndvars : r'.sndvars_mp = r.sndvars_mp
  rcvvars : r'.rcvvars_mp = r.rcvvars_mp ∨ ∃ rcvvar mp,
    usnet_mempool_allocate r.rcvvars_mp = some (some rcvvar, mp) ∧
    usnet_mempool_free mp (some rcvvar) = some r'.rcvvars_mp
  ringbuf_cache : r'.ringbuf_cache = r.ringbuf_cache
  sndbuf_cache : r'.sndbuf_cache = r.sndbuf_cache
  table : r'.table = r.table ∨ Frees r.table r'.table

/-- A creation that succeeds. -/
structure Creates (r r' : Resources) (sitem : TcbSlot) (p : Nat × Nat) : Prop where
  path : p ∈ r.table.tcb_cache.path sitem
  free : (r.table.tcb p).usnet_tcb_isempty = true
  table : ∃ x : TcbSlot, r'.table.tcb_cache = r.table.tcb_cache.set p x ∧ x.Live ∧
    x.usnet_tcb_eq sitem = true
  parts : ∃ rcvvar sndvar,
    usnet_mempool_allocate r.rcvvars_mp = some (some rcvvar, r'.rcvvars_mp) ∧
    usnet_mempool_allocate r.sndvars_mp = some (some sndvar, r'.sndvars_mp) ∧
    r'.vars = Function.update r.vars p ⟨rcvvar, sndvar, none, none⟩
  frag : r'.frag_mp = r.frag_mp
  ringbuf_cache : r'.ringbuf_cache = r.ringbuf_cache
  sndbuf_cache : r'.sndbuf_cache = r.sndbuf_cache

theorem frees_of_remove {t : TcbCtx} (hf : TcbCtx.Fns t.tcb_cache) {p : Nat × Nat} (x : TcbSlot)
    (hp : (t.tcb p).usnet_tcb_isempty = true) (hx : ¬ x.Live) :
    Frees t { t with tcb_cache := usnet_cache_remove (t.tcb_cache.set p x) p } := by
  rw [hf.remove_set]
  refine ⟨⟨p, _, rfl, hp, hx⟩, fun q => ?_⟩
  by_cases hq : q = p
  · subst hq
    rw [hp, TcbCtx.tcb, UsnHashbase.set_self]
    rfl
  · rw [TcbCtx.tcb, UsnHashbase.set_ne _ _ hq]

/-- The two ways a creation returns. -/
theorem usnet_init_newtcb_cases (hf : TcbCtx.Fns r.table.tcb_cache) {saddr daddr : UInt32}
    {sport dport : UInt16} {out : Option (Nat × Nat)}
    (h : r.usnet_init_newtcb saddr sport daddr dport = some (r', out)) :
    (out = none ∧ Rejected r r') ∨
    ∃ p, out = some p ∧ Creates r r' (.stcb saddr sport daddr dport) p := by
  unfold usnet_init_newtcb at h
  cases hins : usnet_cache_insert r.table.tcb_cache (.stcb saddr sport daddr dport) with
  | none =>
    rw [hins] at h
    obtain ⟨rfl, rfl⟩ := Prod.mk.inj (Option.some.inj h)
    exact .inl ⟨rfl, rfl, rfl, rfl, .inl rfl, rfl, rfl, .inl rfl⟩
  | some c =>
    obtain ⟨p, base⟩ := c
    rw [hins] at h
    obtain ⟨hpath, hempty, rfl⟩ := UsnHashbase.of_insert hins
    rw [hf.isemptyfn] at hempty
    simp only [UsnHashbase.set_self, UsnHashbase.set_set] at h
    -- each failure gives back what was taken before it
    cases hrcv : usnet_mempool_allocate r.rcvvars_mp with
    | none =>
      rw [hrcv] at h
      cases h
    | some a =>
      obtain ⟨rcvvar, rcvvars_mp⟩ := a
      rw [hrcv] at h
      cases rcvvar with
      | none =>
        obtain ⟨rfl, rfl⟩ := Prod.mk.inj (Option.some.inj h)
        have hsame := (usnet_mempool_allocate_found hrcv).2 rfl
        exact .inl ⟨rfl, rfl, rfl, rfl, .inl hsame, rfl, rfl,
          .inr (frees_of_remove hf _ hempty fun hl => nomatch hl.1)⟩
      | some rcvvar =>
        simp only at h
        cases hsnd : usnet_mempool_allocate r.sndvars_mp with
        | none =>
          rw [hsnd] at h
          cases h
        | some a =>
          obtain ⟨sndvar, sndvars_mp⟩ := a
          rw [hsnd] at h
          cases sndvar with
          | none =>
            simp only at h
            split at h
            · cases h
            · rename_i mp hback
              obtain ⟨rfl, rfl⟩ := Prod.mk.inj (Option.some.inj h)
              have hsame := (usnet_mempool_allocate_found hsnd).2 rfl
              exact .inl ⟨rfl, rfl, rfl, hsame, .inr ⟨rcvvar, rcvvars_mp, hrcv, hback⟩, rfl, rfl,
                .inr (frees_of_remove hf _ hempty fun hl => nomatch hl.1)⟩
          | some sndvar =>
            obtain ⟨rfl, rfl⟩ := Prod.mk.inj (Option.some.inj h)
            exact .inr ⟨p, rfl, hpath, hempty,
              ⟨_, rfl, ⟨rfl, rfl⟩, TcbSlot.eq_iff.mpr ⟨rfl, rfl, rfl, rfl⟩⟩,
              ⟨rcvvar, sndvar, hrcv, hsnd, rfl⟩, rfl, rfl, rfl⟩

/-- The table is the one of the creation that is told whether the pools have a
    chunk. -/
theorem usnet_init_newtcb_table {saddr daddr : UInt32} {sport dport : UInt16}
    {out : Option (Nat × Nat)}
    (h : r.usnet_init_newtcb saddr sport daddr dport = some (r', out)) :
    (r'.table, out) = r.table.usnet_init_newtcb (decide (r.rcvvars_mp.mp_free_chunks ≠ 0))
      (decide (r.sndvars_mp.mp_free_chunks ≠ 0)) saddr sport daddr dport := by
  unfold usnet_init_newtcb at h
  unfold TcbCtx.usnet_init_newtcb
  cases hins : usnet_cache_insert r.table.tcb_cache (.stcb saddr sport daddr dport) with
  | none =>
    rw [hins] at h
    obtain ⟨rfl, rfl⟩ := Prod.mk.inj (Option.some.inj h)
    rfl
  | some c =>
    obtain ⟨p, base⟩ := c
    rw [hins] at h
    simp only at h ⊢
    -- both ask the pools in the same order
    cases hrcv : usnet_mempool_allocate r.rcvvars_mp with
    | none =>
      rw [hrcv] at h
      cases h
    | some a =>
      obtain ⟨rcvvar, rcvvars_mp⟩ := a
      have hfound := (usnet_mempool_allocate_found hrcv).1
      rw [hrcv] at h
      rw [← hfound]
      cases rcvvar with
      | none =>
        obtain ⟨rfl, rfl⟩ := Prod.mk.inj (Option.some.inj h)
        rfl
      | some rcvvar =>
        simp only [Option.isSome_some, Bool.true_eq_false, if_false] at h ⊢
        cases hsnd : usnet_mempool_allocate r.sndvars_mp with
        | none =>
          rw [hsnd] at h
          cases h
        | some a =>
          obtain ⟨sndvar, sndvars_mp⟩ := a
          have hfound' := (usnet_mempool_allocate_found hsnd).1
          rw [hsnd] at h
          rw [← hfound']
          cases sndvar with
          | none =>
            simp only at h
            split at h
            · cases h
            · obtain ⟨rfl, rfl⟩ := Prod.mk.inj (Option.some.inj h)
              rfl
          | some sndvar =>
            obtain ⟨rfl, rfl⟩ := Prod.mk.inj (Option.some.inj h)
            rfl

/-! ## Section 6: Every call keeps it -/

/-- Live connections lie in occupied slots, so none is written over. -/
theorem PutDead.live {t t' : TcbCtx} (h : PutDead t t')
    (hfull : ∀ p, (t.tcb p).Live → (t.tcb p).usnet_tcb_isempty = false) (q : Nat × Nat) :
    ((t'.tcb q).Live ↔ (t.tcb q).Live) ∧
    ((t.tcb q).usnet_tcb_isempty = false → t'.tcb q = t.tcb q) := by
  obtain ⟨p, x, hset, hempty, hdead⟩ := h
  unfold TcbCtx.tcb at *
  rw [hset]
  by_cases hq : q = p
  · subst hq
    rw [UsnHashbase.set_self]
    refine ⟨⟨fun hl => absurd hl hdead, fun hl => ?_⟩, fun hne => ?_⟩
    · cases hempty.symm.trans (hfull q hl)
    · cases hempty.symm.trans hne
  · rw [UsnHashbase.set_ne _ _ hq]
    exact ⟨Iff.rfl, fun _ => rfl⟩

theorem PutDead.fns {t t' : TcbCtx} (h : PutDead t t') (hf : TcbCtx.Fns t.tcb_cache) :
    TcbCtx.Fns t'.tcb_cache := by
  obtain ⟨p, x, hset, -, -⟩ := h
  rw [hset]
  exact hf.set p x

/-- Only the table changes, and no connection with it. -/
theorem Inv.table (h : r.Inv) (htable : r'.table = r.table ∨ PutDead r.table r'.table)
    (hvars : r'.vars = r.vars)
    (hrcv : ∀ used, r.rcvvars_mp.Takes used → r'.rcvvars_mp.Takes used)
    (hsnd : r'.sndvars_mp = r.sndvars_mp) (hfrag : r'.frag_mp = r.frag_mp)
    (hring : r'.ringbuf_cache = r.ringbuf_cache) (hsend : r'.sndbuf_cache = r.sndbuf_cache) :
    r'.Inv := by
  have hboth : TcbCtx.Fns r'.table.tcb_cache ∧ ∀ q, (r'.live q ↔ r.live q) ∧
      ((r.table.tcb q).usnet_tcb_isempty = false → r'.table.tcb q = r.table.tcb q) := by
    rcases htable with hsame | hput
    · unfold live
      rw [hsame]
      exact ⟨h.fns, fun q => ⟨Iff.rfl, fun _ => rfl⟩⟩
    · exact ⟨hput.fns h.fns, hput.live h.live_full⟩
  obtain ⟨hfns, hslots⟩ := hboth
  -- what a connection holds is looked up by its variables, which stay
  have hheld : r'.held = r.held := by
    funext p
    unfold held frags rcvbuf
    rw [hvars, hring]
  have hrcvbuf : r'.rcvbuf = r.rcvbuf := by
    unfold rcvbuf
    rw [hvars]
  have hsndbuf : r'.sndbuf = r.sndbuf := by
    unfold sndbuf
    rw [hvars]
  obtain ⟨tcbs, ⟨hnodup, hmem⟩, hr, hs, hg⟩ := h.pools
  refine ⟨hfns, fun q hq => ?_, ⟨tcbs, ⟨hnodup, fun p => (hmem p).trans (hslots p).1.symm⟩,
    ?_, ?_, ?_⟩, ?_, ?_, ?_, ?_, ?_⟩
  · have hfull := h.live_full q ((hslots q).1.mp hq)
    rw [(hslots q).2 hfull]
    exact hfull
  · rw [hvars]
    exact hrcv _ hr
  · rw [hvars, hsnd]
    exact hs
  · rw [hheld, hfrag]
    exact hg
  · rw [hring]
    exact h.ring_fn
  · rw [hring]
    exact h.ring_empty
  · rw [hsend]
    exact h.send_fn
  · rw [hring, hrcvbuf]
    exact h.rings.congr (fun q => (hslots q).1) fun _ _ => rfl
  · rw [hsend, hsndbuf]
    exact h.sends.congr (fun q => (hslots q).1) fun _ _ => rfl

/-- The chunk a failed creation has taken is given back. -/
theorem Rejected.takes (hr : Rejected r r') {used : List Int} (ht : r.rcvvars_mp.Takes used) :
    r'.rcvvars_mp.Takes used := by
  rcases hr.rcvvars with hsame | ⟨rcvvar, mp, hal, hfree⟩
  · rw [hsame]
    exact ht
  · exact (ht.allocate hal).free hfree

theorem Inv.rejected (h : r.Inv) (hr : Rejected r r') : r'.Inv :=
  h.table (hr.table.imp_right Frees.wrote) hr.vars (fun _ => hr.takes) hr.sndvars hr.frag
    hr.ringbuf_cache hr.sndbuf_cache

theorem Inv.unchanged (h : r.Inv) (hr : Rejected r r') : r.Unchanged r' := by
  obtain ⟨tcbs, -, ht, -, -⟩ := h.pools
  refine ⟨fun _ => hr.takes, ?_, hr.sndvars, hr.frag, fun p => ?_, fun p hfull => ?_,
    hr.ringbuf_cache, hr.sndbuf_cache⟩
  · rw [(hr.takes ht).taken_eq, ht.taken_eq]
  · rcases hr.table with hsame | hfrees
    · rw [hsame]
    · exact hfrees.empty p
  · rcases hr.table with hsame | hfrees
    · rw [hsame]
    · exact (hfrees.wrote.live h.live_full p).2 hfull

theorem Inv.register (h : r.Inv) (so_fd addr : UInt32) (port : UInt16) :
    Inv { r with table := (r.table.usnet_register_socket (some so_fd) addr port 0 0).2 } := by
  refine h.table ?_ rfl (fun _ => id) rfl rfl rfl rfl
  rcases TcbCtx.register_cases (t := r.table) so_fd addr port with hsame | ⟨p, -, hempty, hset⟩
  · exact .inl hsame
  · rw [h.fns.isemptyfn] at hempty
    simp only [hset]
    exact .inr ⟨p, _, rfl, hempty, fun hl => nomatch hl.1⟩

/-- Addresses that a search has missed are not those of a free slot. -/
theorem Inv.missed (h : r.Inv) {sitem : TcbSlot} {p : Nat × Nat}
    (hmiss : usnet_cache_search r.table.tcb_cache sitem = none)
    (hpath : p ∈ r.table.tcb_cache.path sitem) (hfree : (r.table.tcb p).usnet_tcb_isempty = true) :
    sitem.usnet_tcb_isempty = false := by
  have hne := UsnHashbase.search_eq_none.mp hmiss p hpath
  rw [h.fns.eqfn] at hne
  by_contra hempty
  obtain ⟨h₁, h₂, h₃, h₄⟩ := TcbSlot.isempty_iff.mp (Bool.eq_true_of_not_eq_false hempty)
  obtain ⟨g₁, g₂, g₃, g₄⟩ := TcbSlot.isempty_iff.mp hfree
  have heq : (r.table.tcb p).usnet_tcb_eq sitem = true :=
    TcbSlot.eq_iff.mpr ⟨g₁.trans h₁.symm, g₂.trans h₂.symm, g₃.trans h₃.symm, g₄.trans h₄.symm⟩
  cases heq.symm.trans hne

theorem Inv.creates (h : r.Inv) {sitem : TcbSlot} {p : Nat × Nat}
    (hmiss : usnet_cache_search r.table.tcb_cache sitem = none) (hc : Creates r r' sitem p) :
    r'.Inv := by
  obtain ⟨x, hset, hxlive, hxeq⟩ := hc.table
  obtain ⟨rcvvar, sndvar, hrcv, hsnd, hvars⟩ := hc.parts
  have hself : r'.table.tcb p = x := by
    rw [TcbCtx.tcb, hset, UsnHashbase.set_self]
  have hother : ∀ q, q ≠ p → r'.table.tcb q = r.table.tcb q := fun q hq => by
    rw [TcbCtx.tcb, hset, UsnHashbase.set_ne _ _ hq]
  -- the place was empty, so the connections there are keep theirs
  have hnew : ¬ r.live p := fun hl => by cases hc.free.symm.trans (h.live_full p hl)
  have hne : ∀ q, r.live q → q ≠ p := fun q hq he => hnew (he ▸ hq)
  have hlive : ∀ q, r'.live q ↔ q = p ∨ r.live q := by
    intro q
    unfold live
    by_cases hq : q = p
    · subst hq
      rw [hself]
      exact ⟨fun _ => .inl rfl, fun _ => hxlive⟩
    · rw [hother q hq]
      exact ⟨.inr, fun hl => hl.resolve_left hq⟩
  have hold : ∀ q, r.live q → r'.vars q = r.vars q := fun q hq => by
    rw [hvars, Function.update_of_ne (hne q hq)]
  have hfirst : r'.vars p = ⟨rcvvar, sndvar, none, none⟩ := by
    rw [hvars, Function.update_self]
  -- the new connection goes to the front of the list that owns the chunks
  obtain ⟨tcbs, ⟨hnodup, hmem⟩, hr, hs, hg⟩ := h.pools
  have hlist : ∀ q ∈ tcbs, r'.vars q = r.vars q := fun q hq => hold q ((hmem q).mp hq)
  refine ⟨?_, fun q hq => ?_, ⟨p :: tcbs, ⟨?_, fun q => ?_⟩, ?_, ?_, ?_⟩, ?_, ?_, ?_, ?_, ?_⟩
  · rw [hset]
    exact h.fns.set p x
  · by_cases hqp : q = p
    · subst hqp
      obtain ⟨g₁, g₂, g₃, g₄⟩ := TcbSlot.eq_iff.mp hxeq
      have hfull := h.missed hmiss hc.path hc.free
      rw [hself]
      unfold TcbSlot.usnet_tcb_isempty at hfull ⊢
      rw [g₁, g₂, g₃, g₄]
      exact hfull
    · rw [hother q hqp]
      exact h.live_full q (((hlive q).mp hq).resolve_left hqp)
  · exact List.nodup_cons.mpr ⟨fun hp => hnew ((hmem p).mp hp), hnodup⟩
  · rw [List.mem_cons, hmem q, hlive q]
  · have hmap : (tcbs.map fun q => (r'.vars q).rcvvar) = tcbs.map fun q => (r.vars q).rcvvar :=
      List.map_congr_left fun q hq => by rw [hlist q hq]
    rw [List.map_cons, hmap, hfirst]
    exact hr.allocate hrcv
  · have hmap : (tcbs.map fun q => (r'.vars q).sndvar) = tcbs.map fun q => (r.vars q).sndvar :=
      List.map_congr_left fun q hq => by rw [hlist q hq]
    rw [List.map_cons, hmap, hfirst]
    exact hs.allocate hsnd
  · have hflat : tcbs.flatMap r'.held = tcbs.flatMap r.held :=
      List.flatMap_congr fun q hq => by
        unfold held frags rcvbuf
        rw [hlist q hq, hc.ringbuf_cache]
    have hzero : r'.held p = [] := by
      unfold held frags rcvbuf
      rw [hfirst]
      rfl
    rw [List.flatMap_cons, hflat, hzero, hc.frag]
    exact hg
  · rw [hc.ringbuf_cache]
    exact h.ring_fn
  · rw [hc.ringbuf_cache]
    exact h.ring_empty
  · rw [hc.sndbuf_cache]
    exact h.send_fn
  · rw [hc.ringbuf_cache]
    exact h.rings.create hlive (congrArg ConnVars.rcvbuf hfirst)
      fun q hq => congrArg ConnVars.rcvbuf (hold q hq)
  · rw [hc.sndbuf_cache]
    exact h.sends.create hlive (congrArg ConnVars.sndbuf hfirst)
      fun q hq => congrArg ConnVars.sndbuf (hold q hq)

/-- What a call leaves of a connection's parts: the chunks. -/
theorem update_parts (r : Resources) (p : Nat × Nat) (v : ConnVars)
    (hrcv : v.rcvvar = (r.vars p).rcvvar) (hsnd : v.sndvar = (r.vars p).sndvar) (q : Nat × Nat) :
    (Function.update r.vars p v q).rcvvar = (r.vars q).rcvvar ∧
    (Function.update r.vars p v q).sndvar = (r.vars q).sndvar := by
  by_cases hq : q = p
  · subst hq
    rw [Function.update_self]
    exact ⟨hrcv, hsnd⟩
  · rw [Function.update_of_ne hq]
    exact ⟨rfl, rfl⟩

theorem Inv.get_ringbuf (h : r.Inv) {tcb : Nat × Nat} {init_seq : UInt32} (hlive : r.live tcb)
    (hnone : r.rcvbuf tcb = none) (hkeeps : r.Keeps (.get_ringbuf tcb init_seq)) :
    (r.get_ringbuf tcb init_seq).Inv := by
  unfold Resources.get_ringbuf
  cases hget : usnet_cache_get r.ringbuf_cache (.zero (r.table.tcb tcb).fd) with
  | none =>
    simp only [hget, Option.map_none]
    exact h
  | some item =>
    simp only [hget, Option.map_some, usnet_get_ringbuf]
    -- no live connection has this buffer
    have hfree : ∀ p, r.live p → r.rcvbuf p ≠ some item := hkeeps item hget
    generalize hv : ({ r.vars tcb with rcvbuf := some item } : ConnVars) = v
    generalize hx : RingSlot.of _ [] = x
    have hparts := update_parts r tcb v (by rw [← hv]) (by rw [← hv])
    obtain ⟨tcbs, hall, hr, hs, hg⟩ := h.pools
    have hself : (Function.update r.vars tcb v tcb).rcvbuf = some item := by
      rw [Function.update_self, ← hv]
    have hother : ∀ p, p ≠ tcb → (Function.update r.vars tcb v p).rcvbuf = r.rcvbuf p := fun p hp => by
      rw [Function.update_of_ne hp]
      rfl
    refine ⟨h.fns, h.live_full, ⟨tcbs, hall, ?_, ?_, ?_⟩, h.ring_fn, h.ring_empty, h.send_fn,
      h.rings.take hlive hnone hfree hself hother, ?_⟩
    · simp only [(hparts _).1]
      exact hr
    · simp only [(hparts _).2]
      exact hs
    · -- the new list is empty, as the connection had none before
      have hflat : ∀ p ∈ tcbs, Resources.held { r with
          ringbuf_cache := r.ringbuf_cache.set item x
          vars := Function.update r.vars tcb v } p = r.held p := by
        intro p hp
        unfold held frags
        by_cases hpt : p = tcb
        · subst hpt
          have hbuf : Resources.rcvbuf { r with
              ringbuf_cache := r.ringbuf_cache.set item x
              vars := Function.update r.vars p v } p = some item := hself
          rw [hbuf, hnone]
          simp only [UsnHashbase.set_self, ← hx]
          rfl
        · have hbuf : Resources.rcvbuf { r with
              ringbuf_cache := r.ringbuf_cache.set item x
              vars := Function.update r.vars tcb v } p = r.rcvbuf p := hother p hpt
          rw [hbuf]
          cases hpb : r.rcvbuf p with
          | none => rfl
          | some item' =>
            have hi : item' ≠ item := by
              rintro rfl
              exact hfree p ((hall.2 p).mp hp) hpb
            simp only [UsnHashbase.set_ne _ _ hi]
      rw [List.flatMap_congr hflat]
      exact hg
    · refine h.sends.congr (fun _ => Iff.rfl) fun p _ => ?_
      show (Function.update r.vars tcb v p).sndbuf = (r.vars p).sndbuf
      by_cases hpt : p = tcb
      · subst hpt
        rw [Function.update_self, ← hv]
      · rw [Function.update_of_ne hpt]

/-- The descriptor of a connection is set. -/
def set_fd (r : Resources) (tcb : Nat × Nat) (so_fd : UInt32) : Resources :=
  { r with table := { r.table with
    tcb_cache := r.table.tcb_cache.set tcb { r.table.tcb tcb with fd := so_fd } } }

theorem set_fd_slot (r : Resources) (tcb : Nat × Nat) (so_fd : UInt32) (q : Nat × Nat) :
    ((r.set_fd tcb so_fd).live q ↔ r.live q) ∧
    ((r.set_fd tcb so_fd).table.tcb q).usnet_tcb_isempty = (r.table.tcb q).usnet_tcb_isempty := by
  unfold live set_fd TcbCtx.tcb
  by_cases hq : q = tcb
  · subst hq
    simp only [UsnHashbase.set_self]
    exact ⟨.rfl, rfl⟩
  · simp only [UsnHashbase.set_ne _ _ hq]
    exact ⟨trivial, trivial⟩

theorem Inv.set_fd (h : r.Inv) (tcb : Nat × Nat) (so_fd : UInt32) : (r.set_fd tcb so_fd).Inv := by
  have hslot := r.set_fd_slot tcb so_fd
  obtain ⟨tcbs, ⟨hnodup, hmem⟩, hr, hs, hg⟩ := h.pools
  exact ⟨h.fns.set _ _, fun q hq => (hslot q).2.trans (h.live_full q ((hslot q).1.mp hq)),
    ⟨tcbs, ⟨hnodup, fun p => (hmem p).trans (hslot p).1.symm⟩, hr, hs, hg⟩, h.ring_fn,
    h.ring_empty, h.send_fn, h.rings.congr (fun q => (hslot q).1) fun _ _ => rfl,
    h.sends.congr (fun q => (hslot q).1) fun _ _ => rfl⟩

theorem Inv.take_sendbuf (h : r.Inv) {tcb item : Nat × Nat} (buf : UsnSendbuf) (hlive : r.live tcb)
    (hnone : r.sndbuf tcb = none) (hfree : ∀ p, r.live p → r.sndbuf p ≠ some item) :
    Inv { r with
      sndbuf_cache := r.sndbuf_cache.set item buf
      vars := Function.update r.vars tcb { r.vars tcb with sndbuf := some item } } := by
  generalize hv : ({ r.vars tcb with sndbuf := some item } : ConnVars) = v
  have hparts := update_parts r tcb v (by rw [← hv]) (by rw [← hv])
  have hself : (Function.update r.vars tcb v tcb).sndbuf = some item := by
    rw [Function.update_self, ← hv]
  have hother : ∀ p, p ≠ tcb → (Function.update r.vars tcb v p).sndbuf = r.sndbuf p := fun p hp => by
    rw [Function.update_of_ne hp]
    rfl
  have hrcvbuf : ∀ p, (Function.update r.vars tcb v p).rcvbuf = r.rcvbuf p := by
    intro p
    by_cases hpt : p = tcb
    · subst hpt
      rw [Function.update_self, ← hv]
      rfl
    · rw [Function.update_of_ne hpt]
      rfl
  obtain ⟨tcbs, hall, hr, hs, hg⟩ := h.pools
  refine ⟨h.fns, h.live_full, ⟨tcbs, hall, ?_, ?_, ?_⟩, h.ring_fn, h.ring_empty, h.send_fn,
    h.rings.congr (fun _ => Iff.rfl) fun p _ => hrcvbuf p,
    h.sends.take hlive hnone hfree hself hother⟩
  · simp only [(hparts _).1]
    exact hr
  · simp only [(hparts _).2]
    exact hs
  · have hheld : ∀ p ∈ tcbs, Resources.held { r with
        sndbuf_cache := r.sndbuf_cache.set item buf
        vars := Function.update r.vars tcb v } p = r.held p := by
      intro p _
      unfold held frags Resources.rcvbuf
      simp only
      rw [hrcvbuf p]
      rfl
    rw [List.flatMap_congr hheld]
    exact hg

theorem Inv.connect (h : r.Inv) {tcb : Nat × Nat} {so_fd init_seq : UInt32} (hlive : r.live tcb)
    (hkeeps : r.Keeps (.connect tcb so_fd init_seq)) :
    (r.usnet_connect_net_handler tcb so_fd init_seq).Inv := by
  have hfd := h.set_fd tcb so_fd
  have hslot := r.set_fd_slot tcb so_fd
  unfold usnet_connect_net_handler
  simp only
  split
  · exact hfd
  rename_i hnone
  have hnone : r.sndbuf tcb = none := Option.not_isSome_iff_eq_none.mp hnone
  cases hget : usnet_cache_get r.sndbuf_cache (.zero so_fd) with
  | none => exact hfd
  | some item =>
    have hfree : ∀ p, r.live p → r.sndbuf p ≠ some item := hkeeps hnone item hget
    exact hfd.take_sendbuf _ ((hslot tcb).1.mpr hlive) hnone fun p hp => hfree p ((hslot p).1.mp hp)

/-- A buffer is written to, and keeps its descriptor. -/
theorem Inv.write_ring (h : r.Inv) {item : Nat × Nat} {slot : RingSlot} {frag_mp : UsnMempool}
    (hfd : slot.buf.fd = (r.ringbuf_cache.hb_cache item).buf.fd)
    (htakes : ∀ tcbs, r.LiveTcbs tcbs → r.frag_mp.Takes (tcbs.flatMap r.held) →
      frag_mp.Takes (tcbs.flatMap (Resources.held
        { r with frag_mp := frag_mp, ringbuf_cache := r.ringbuf_cache.set item slot }))) :
    Inv { r with frag_mp := frag_mp, ringbuf_cache := r.ringbuf_cache.set item slot } := by
  obtain ⟨tcbs, hall, hr, hs, hg⟩ := h.pools
  refine ⟨h.fns, h.live_full, ⟨tcbs, hall, hr, hs, htakes tcbs hall hg⟩, h.ring_fn, h.ring_empty,
    h.send_fn, h.rings.write ?_, h.sends⟩
  rw [h.ring_fn]
  unfold RingSlot.usnet_rb_isempty
  rw [hfd]

theorem Inv.insert (h : r.Inv) {flags : Int → UInt16} {tcb item : Nat × Nat} {data : List UInt8}
    {seq : UInt32} {result : Int} {frag_mp : UsnMempool} {slot : RingSlot} (hlive : r.live tcb)
    (hbuf : r.rcvbuf tcb = some item)
    (hins : usnet_insert_node flags r.frag_mp (r.ringbuf_cache.hb_cache item) data seq
      = some (result, frag_mp, slot)) :
    Inv { r with frag_mp := frag_mp, ringbuf_cache := r.ringbuf_cache.set item slot } := by
  refine h.write_ring (usnet_insert_fragment_kept (usnet_insert_node_plain hins)).2.1 ?_
  intro tcbs hall hg
  generalize hr' : ({ r with
    frag_mp := frag_mp, ringbuf_cache := r.ringbuf_cache.set item slot } : Resources) = r'
  have hmine : r.held tcb = frag_chunks (r.ringbuf_cache.hb_cache item).nodes := by
    unfold held frags
    rw [hbuf]
  have hnew : r'.held tcb = frag_chunks slot.nodes := by
    have hbuf' : r'.rcvbuf tcb = some item := by
      rw [← hr']
      exact hbuf
    unfold held frags
    rw [hbuf', ← hr']
    simp only [UsnHashbase.set_self]
  -- no other connection has the buffer
  have hother : ∀ p ∈ tcbs, p ≠ tcb → r'.held p = r.held p := by
    intro p hp hpt
    have hbuf' : r'.rcvbuf p = r.rcvbuf p := by
      rw [← hr']
      rfl
    unfold held frags
    rw [hbuf']
    cases hpb : r.rcvbuf p with
    | none => rfl
    | some item' =>
      have hi : item' ≠ item := by
        rintro rfl
        exact hpt (h.rings.once p tcb item' ((hall.2 p).mp hp) hlive hpb hbuf)
      rw [← hr']
      simp only [UsnHashbase.set_ne _ _ hi]
  obtain ⟨hbefore, hafter⟩ := flatMap_put hall.1 ((hall.2 tcb).mpr hlive) hother
  rw [hmine] at hbefore
  rw [hnew] at hafter
  exact (usnet_insert_node_takes (hg.perm hbefore) hins).perm hafter.symm

theorem Inv.read (h : r.Inv) (item : Nat × Nat) (count : Nat) :
    Inv { r with ringbuf_cache := r.ringbuf_cache.set item (.of
      (read_ringbuf (r.ringbuf_cache.hb_cache item).buf count).2.2
      (r.ringbuf_cache.hb_cache item).nodes) } := by
  refine h.write_ring ?_ fun tcbs _ hg => ?_
  · unfold RingSlot.of
    rw [read_ringbuf_frame]
  · rw [List.flatMap_congr fun p _ => ?_]
    · exact hg
    · unfold held frags
      show frag_chunks (match r.rcvbuf p with | none => [] | some item' => _) = _
      cases r.rcvbuf p with
      | none => rfl
      | some item' =>
        by_cases hi : item' = item
        · subst hi
          simp only [UsnHashbase.set_self]
          rfl
        · simp only [UsnHashbase.set_ne _ _ hi]

/-- What a connection holds is taken from it, but for the chunks of its list. -/
structure Releases (r r' : Resources) (tcb : Nat × Nat) : Prop where
  fns : TcbCtx.Fns r'.table.tcb_cache
  live : ∀ p, r'.live p ↔ r.live p ∧ p ≠ tcb
  slots : ∀ p, p ≠ tcb → r'.table.tcb p = r.table.tcb p
  rcvvars : usnet_mempool_free r.rcvvars_mp (some (r.vars tcb).rcvvar) = some r'.rcvvars_mp
  sndvars : usnet_mempool_free r.sndvars_mp (some (r.vars tcb).sndvar) = some r'.sndvars_mp
  frag : r'.frag_mp = r.frag_mp
  vars : r'.vars = r.vars
  ringbuf_cache : r'.ringbuf_cache = cache_remove r.ringbuf_cache (r.rcvbuf tcb)
  sndbuf_cache : r'.sndbuf_cache = cache_remove r.sndbuf_cache (r.sndbuf tcb)

theorem Inv.released (h : r.Inv) {tcb : Nat × Nat} (hok : r.usnet_release_tcb tcb = some r') :
    Releases r r' tcb := by
  unfold usnet_release_tcb at hok
  split at hok
  · rename_i rcvvars_mp sndvars_mp hrcv hsnd
    obtain rfl := Option.some.inj hok
    have htable : (r.table.usnet_release_tcb tcb).tcb_cache = r.table.tcb_cache.set tcb
        { r.table.tcb tcb with
          saddr := 0, daddr := 0, sport := 0, dport := 0, rcvvar := .freed, sndvar := .freed } :=
      h.fns.remove_set _ _
    have hother : ∀ p, p ≠ tcb → (r.table.usnet_release_tcb tcb).tcb p = r.table.tcb p := fun p hp => by
      rw [TcbCtx.tcb, htable, UsnHashbase.set_ne _ _ hp]
    refine ⟨?_, fun p => ?_, hother, hrcv, hsnd, rfl, rfl, rfl, rfl⟩
    · simp only [htable]
      exact h.fns.set _ _
    · unfold live
      by_cases hp : p = tcb
      · subst hp
        rw [TcbCtx.tcb, htable, UsnHashbase.set_self]
        constructor
        · intro hl
          cases hl.1
        · intro hl
          exact absurd rfl hl.2
      · simp only [hother p hp]
        exact ⟨fun hl => ⟨hl, hp⟩, And.left⟩
  · cases hok

theorem Inv.release_step (h : r.Inv) {flags : Int → UInt16} {tcb : Nat × Nat}
    (hstep : resource_step flags r (.release tcb) r') : r.live tcb ∧ Releases r r' tcb := by
  unfold resource_step resource_next at hstep
  simp only at hstep
  split at hstep
  · rename_i hlive
    exact ⟨hlive, h.released hstep⟩
  · cases hstep

/-- Freeing a slot leaves its list. -/
theorem cache_remove_nodes (h : r.Inv) (item : Option (Nat × Nat)) (p : Nat × Nat) :
    ((cache_remove r.ringbuf_cache item).hb_cache p).nodes = (r.ringbuf_cache.hb_cache p).nodes := by
  cases item with
  | none => rfl
  | some item =>
    unfold cache_remove usnet_cache_remove
    simp only
    by_cases hp : p = item
    · subst hp
      rw [UsnHashbase.set_self, h.ring_empty]
      rfl
    · rw [UsnHashbase.set_ne _ _ hp]

theorem Releases.held (hrel : Releases r r' tcb) (h : r.Inv) (p : Nat × Nat) : r'.held p = r.held p := by
  have hbuf : r'.rcvbuf p = r.rcvbuf p := by
    unfold rcvbuf
    rw [hrel.vars]
  unfold Resources.held frags
  rw [hbuf, hrel.ringbuf_cache]
  cases r.rcvbuf p with
  | none => rfl
  | some item => simp only [cache_remove_nodes h]

/-- The chunks of a released connection's list stay in use. -/
theorem Releases.pools (hrel : Releases r r' tcb) (h : r.Inv) (hlive : r.live tcb) :
    ∃ tcbs, r'.LiveTcbs tcbs ∧
      r'.rcvvars_mp.Takes (tcbs.map fun p => (r'.vars p).rcvvar) ∧
      r'.sndvars_mp.Takes (tcbs.map fun p => (r'.vars p).sndvar) ∧
      r'.frag_mp.Takes (r.held tcb ++ tcbs.flatMap r'.held) := by
  obtain ⟨tcbs, ⟨hnodup, hmem⟩, hr, hs, hg⟩ := h.pools
  have htcb := (hmem tcb).mpr hlive
  have hperm := List.perm_cons_erase htcb
  refine ⟨tcbs.erase tcb, ⟨hnodup.erase _, fun p => ?_⟩, ?_, ?_, ?_⟩
  · rw [hnodup.mem_erase_iff, hmem p, hrel.live p]
    exact And.comm
  · rw [hrel.vars]
    exact (hr.perm (hperm.map _)).free hrel.rcvvars
  · rw [hrel.vars]
    exact (hs.perm (hperm.map _)).free hrel.sndvars
  · rw [hrel.frag, List.flatMap_congr fun p _ => hrel.held h p]
    exact hg.perm (flatMap_put hnodup htcb fun _ _ _ => rfl).1

theorem Inv.release (h : r.Inv) {tcb : Nat × Nat} (hlive : r.live tcb)
    (hrel : Releases r r' tcb) (hempty : r.frags tcb = []) : r'.Inv := by
  obtain ⟨tcbs, hall, hr, hs, hg⟩ := hrel.pools h hlive
  have hrcvbuf : r'.rcvbuf = r.rcvbuf := by
    unfold rcvbuf
    rw [hrel.vars]
  have hsndbuf : r'.sndbuf = r.sndbuf := by
    unfold sndbuf
    rw [hrel.vars]
  refine ⟨hrel.fns, fun p hp => ?_, ⟨tcbs, hall, hr, hs, ?_⟩, ?_, ?_, ?_, ?_, ?_⟩
  · obtain ⟨hp', hne⟩ := (hrel.live p).mp hp
    rw [hrel.slots p hne]
    exact h.live_full p hp'
  · have hnone : r.held tcb = [] := by
      unfold held
      rw [hempty]
      rfl
    rw [hnone] at hg
    exact hg
  · rw [hrel.ringbuf_cache, ← h.ring_fn]
    cases r.rcvbuf tcb <;> rfl
  · rw [hrel.ringbuf_cache, ← h.ring_empty]
    cases r.rcvbuf tcb <;> rfl
  · rw [hrel.sndbuf_cache, ← h.send_fn]
    cases r.sndbuf tcb <;> rfl
  · rw [hrel.ringbuf_cache, hrcvbuf]
    exact h.rings.release hrel.live
  · rw [hrel.sndbuf_cache, hsndbuf]
    exact h.sends.release hrel.live

theorem Inv.step (h : r.Inv) {flags : Int → UInt16} {call : ResourceCall} (hkeeps : r.Keeps call)
    (hstep : resource_step flags r call r') : r'.Inv := by
  -- one lemma for each call
  cases call with
  | register so_fd addr port =>
    obtain rfl := Option.some.inj hstep
    exact h.register so_fd addr port
  | create saddr sport daddr dport =>
    unfold resource_step resource_next at hstep
    simp only at hstep
    split at hstep
    · rename_i hmiss
      obtain ⟨⟨s, out⟩, hinit, rfl⟩ := Option.map_eq_some_iff.mp hstep
      rcases usnet_init_newtcb_cases h.fns hinit with ⟨-, hrej⟩ | ⟨p, -, hcr⟩
      · exact h.rejected hrej
      · exact h.creates hmiss hcr
    · cases hstep
  | connect tcb so_fd init_seq =>
    unfold resource_step resource_next at hstep
    simp only at hstep
    split at hstep
    · rename_i hlive
      obtain rfl := Option.some.inj hstep
      exact h.connect hlive hkeeps
    · cases hstep
  | get_ringbuf tcb init_seq =>
    unfold resource_step resource_next at hstep
    simp only at hstep
    split at hstep
    · rename_i hcond
      obtain rfl := Option.some.inj hstep
      exact h.get_ringbuf hcond.1 hcond.2 hkeeps
    · cases hstep
  | insert tcb data seq =>
    unfold resource_step resource_next at hstep
    simp only at hstep
    split at hstep
    · cases hstep
    rename_i item hbuf
    split at hstep
    · rename_i hlive
      split at hstep
      · cases hstep
      · rename_i hins
        obtain rfl := Option.some.inj hstep
        exact h.insert hlive hbuf hins
    · cases hstep
  | read item count =>
    obtain rfl := Option.some.inj hstep
    exact h.read item count
  | release tcb =>
    obtain ⟨hlive, hrel⟩ := h.release_step hstep
    exact h.release hlive hrel hkeeps

end Resources

/-! ## Section 7: Runs -/

end Usnet
