import Usnet.Cache
import Usnet.TcpIn
import Usnet.Lib.Run

/-! # The table of control blocks (tcb.c, tcp.c)

    Listening sockets, connections and free slots lie in one table, and one
    comparison of the four addresses finds them.  A free slot is all zero; a
    listening socket has no peer.  Which slots a run can leave behind decides
    what a segment can find.
-/

namespace Usnet

open CInt Run

/-! ## Section 1: The items -/

/-- A pointer to an element of `rcvvars_mp` or `sndvars_mp`. -/
inductive VarsPtr where
  | null | live | freed
  deriving DecidableEq, Repr

/-- `usn_tcb_t` as the table stores it: the addresses, and pointers to the two
    parts of the connection. -/
structure TcbSlot where
  fd : UInt32
  saddr : UInt32
  daddr : UInt32
  sport : UInt16
  dport : UInt16
  on_hash_table : Bool
  state : TcpState
  rcvvar : VarsPtr
  sndvar : VarsPtr
  deriving DecidableEq, Repr

namespace TcbSlot

/-- A block set to zero with the addresses filled in, as `stcb`. -/
def stcb (saddr : UInt32) (sport : UInt16) (daddr : UInt32) (dport : UInt16) : TcbSlot :=
  { fd := 0, saddr := saddr, daddr := daddr, sport := sport, dport := dport
    on_hash_table := false, state := .closed, rcvvar := .null, sndvar := .null }

/-- The twelve bytes from `saddr` on. -/
def key (tcb : TcbSlot) : List UInt8 :=
  [tcb.saddr.toUInt8, (tcb.saddr >>> 8).toUInt8, (tcb.saddr >>> 16).toUInt8,
    (tcb.saddr >>> 24).toUInt8, tcb.daddr.toUInt8, (tcb.daddr >>> 8).toUInt8,
    (tcb.daddr >>> 16).toUInt8, (tcb.daddr >>> 24).toUInt8, tcb.sport.toUInt8,
    (tcb.sport >>> 8).toUInt8, tcb.dport.toUInt8, (tcb.dport >>> 8).toUInt8]

/-- A `char` in unsigned arithmetic. -/
def schar (b : UInt8) : UInt32 := if b < 128 then b.toUInt32 else b.toUInt32 - 256

/-- `usnet_tcb_key`. -/
def usnet_tcb_key (tcb : TcbSlot) : UInt32 :=
  let hash := tcb.key.foldl (fun hash b =>
    let hash := hash + schar b
    let hash := hash + (hash <<< 10)
    hash ^^^ (hash >>> 6)) 0
  let hash := hash + (hash <<< 3)
  let hash := hash ^^^ (hash >>> 11)
  hash + (hash <<< 15)

/-- `usnet_tcb_eq`. -/
def usnet_tcb_eq (item1 item2 : TcbSlot) : Bool :=
  item1.saddr == item2.saddr && item1.daddr == item2.daddr &&
    item1.sport == item2.sport && item1.dport == item2.dport

/-- `usnet_tcb_isempty`. -/
def usnet_tcb_isempty (item : TcbSlot) : Bool :=
  item.saddr == 0 && item.daddr == 0 && item.sport == 0 && item.dport == 0

/-- `usnet_tcb_setempty`. -/
def usnet_tcb_setempty (item : TcbSlot) : TcbSlot :=
  { item with saddr := 0, daddr := 0, sport := 0, dport := 0 }

/-- The block of a connection, as the table stores it. -/
def of (tcb : UsnTcb) : TcbSlot :=
  { fd := tcb.fd, saddr := tcb.saddr, daddr := tcb.daddr, sport := tcb.sport
    dport := tcb.dport, on_hash_table := true, state := tcb.state
    rcvvar := .live, sndvar := .live }

/-- Both parts are there. -/
def Live (tcb : TcbSlot) : Prop := tcb.rcvvar = .live ∧ tcb.sndvar = .live

/-- There is someone at the other end. -/
def Peer (tcb : TcbSlot) : Prop := tcb.daddr ≠ 0 ∨ tcb.dport ≠ 0

instance (tcb : TcbSlot) : Decidable tcb.Live := inferInstanceAs (Decidable (_ ∧ _))
instance (tcb : TcbSlot) : Decidable tcb.Peer := inferInstanceAs (Decidable (_ ∨ _))

end TcbSlot

/-! ## Section 2: The table -/

/-- The context, as far as the table is concerned. -/
structure TcbCtx where
  tcb_cache : UsnHashbase TcbSlot
  listen_tcb : Option (Nat × Nat)

namespace TcbCtx

/-- The item at an address. -/
abbrev tcb (t : TcbCtx) (p : Nat × Nat) : TcbSlot := t.tcb_cache.hb_cache p

/-- `usnet_tcb_init`, with the rest of the context zero. -/
def usnet_tcb_init : TcbCtx :=
  { tcb_cache :=
      { hb_time := 10, hb_base := usnet_hashbase_init 10 100
        hb_cache := fun _ => .stcb 0 0 0 0
        hb_eqfn := TcbSlot.usnet_tcb_eq, hb_keyfn := TcbSlot.usnet_tcb_key
        hb_isemptyfn := TcbSlot.usnet_tcb_isempty
        hb_setemptyfn := TcbSlot.usnet_tcb_setempty }
    listen_tcb := none }

/-- `usnet_register_socket`.  The socket is given by its `so_fd`. -/
def usnet_register_socket (t : TcbCtx) (so : Option UInt32) (saddr : UInt32)
    (sport : UInt16) (daddr : UInt32) (dport : UInt16) : Int × TcbCtx :=
  match usnet_cache_insert t.tcb_cache (.stcb saddr sport daddr dport) with
  | none => (-1, t)
  | some (tcb, base) =>
    let item := { base.hb_cache tcb with on_hash_table := true }
    match so with
    | none => (-2, { t with tcb_cache := usnet_cache_remove (base.set tcb item) tcb })
    | some so_fd =>
      (0, { tcb_cache := base.set tcb { item with fd := so_fd, state := .listen }
            listen_tcb := some tcb })

/-- `usnet_init_newtcb`, where the pools have an element left or not. -/
def usnet_init_newtcb (t : TcbCtx) (rcvvars_mp sndvars_mp : Bool) (saddr : UInt32)
    (sport : UInt16) (daddr : UInt32) (dport : UInt16) : TcbCtx × Option (Nat × Nat) :=
  match usnet_cache_insert t.tcb_cache (.stcb saddr sport daddr dport) with
  | none => (t, none)
  | some (tcb, base) =>
    -- the item may be the listening one, which the insertion has then set to zero
    let fd := match t.listen_tcb with
      | none => 0
      | some p => (base.hb_cache p).fd
    let item := { base.hb_cache tcb with fd := fd }
    if rcvvars_mp = false then
      ({ t with tcb_cache := usnet_cache_remove (base.set tcb item) tcb }, none)
    else if sndvars_mp = false then
      let item := { item with rcvvar := .freed }
      ({ t with tcb_cache := usnet_cache_remove (base.set tcb item) tcb }, none)
    else
      let item := { item with rcvvar := .live, sndvar := .live, on_hash_table := true
                              state := .listen }
      ({ t with tcb_cache := base.set tcb item }, some tcb)

/-- What `usnet_handle_syn_pkt` reads of the listening socket. -/
def listener (t : TcbCtx) : Option Listener :=
  t.listen_tcb.map fun p => { fd := (t.tcb p).fd, saddr := (t.tcb p).saddr, sport := (t.tcb p).sport }

/-- `usnet_handle_syn_pkt`. -/
def usnet_handle_syn_pkt (t : TcbCtx) (ip : UInt32) (port : UInt16) : Bool :=
  match t.listen_tcb with
  | none => false
  | some p => ip == (t.tcb p).saddr && port == (t.tcb p).sport

/-- `usnet_handle_passive_open`, without the replies. -/
def usnet_handle_passive_open (t : TcbCtx) (rcvvars_mp sndvars_mp : Bool) (seg : Segment) :
    TcbCtx × Option (Nat × Nat) :=
  if seg.has TH_SYN ∧ ¬ seg.has TH_ACK ∧ t.usnet_handle_syn_pkt seg.ip_dst seg.th_dport then
    t.usnet_init_newtcb rcvvars_mp sndvars_mp seg.ip_dst seg.th_dport seg.ip_src seg.th_sport
  else (t, none)

/-- The item `usnet_tcp_input` looks for. -/
def sitem (seg : Segment) : TcbSlot :=
  .stcb seg.ip_dst seg.th_dport seg.ip_src seg.th_sport

/-- The search of `usnet_tcp_input`. -/
def found (t : TcbCtx) (seg : Segment) : Option (Nat × Nat) :=
  usnet_cache_search t.tcb_cache (sitem seg)

/-- `usnet_tcp_input` up to the connection it works on. -/
def usnet_tcp_input (t : TcbCtx) (rcvvars_mp sndvars_mp : Bool) (seg : Segment) :
    TcbCtx × Option (Nat × Nat) :=
  match t.found seg with
  | some tcb => (t, some tcb)
  | none => t.usnet_handle_passive_open rcvvars_mp sndvars_mp seg

/-- `usnet_release_tcb`: both parts are given back, and the slot. -/
def usnet_release_tcb (t : TcbCtx) (tcb : Nat × Nat) : TcbCtx :=
  { t with
    tcb_cache := usnet_cache_remove
      (t.tcb_cache.set tcb { t.tcb tcb with rcvvar := .freed, sndvar := .freed }) tcb }

end TcbCtx

/-- What changes the table.  `usnet_listen_net_handler` registers a socket
    without a peer; a connection may be released at any time. -/
inductive TableAction where
  | register (so_fd : UInt32) (addr : UInt32) (port : UInt16)
  | segment (rcvvars_mp sndvars_mp : Bool) (seg : Segment)
  | release (tcb : Nat × Nat)

/-- One action. -/
def table_step (t : TcbCtx) (a : TableAction) (t' : TcbCtx) : Prop :=
  match a with
  | .register so_fd addr port => t' = (t.usnet_register_socket (some so_fd) addr port 0 0).2
  | .segment rcvvars_mp sndvars_mp seg => t' = (t.usnet_tcp_input rcvvars_mp sndvars_mp seg).1
  | .release tcb => (t.tcb tcb).Live ∧ t' = t.usnet_release_tcb tcb

/-- The tables a run can reach. -/
abbrev TableReachable : TcbCtx → Prop :=
  Reachable table_step fun t => t = TcbCtx.usnet_tcb_init

/-- What is found is a connection that was created and not released. -/
def FoundLive (t : TcbCtx) (seg : Segment) : Prop :=
  ∀ tcb, t.found seg = some tcb → (t.tcb tcb).Live

/-- On the segment's path lies a slot for its destination without a peer: a
    listening socket or, for destination zero, a free slot. -/
def PeerlessSlot (t : TcbCtx) (seg : Segment) : Prop :=
  ∃ p ∈ t.tcb_cache.path (TcbCtx.sitem seg),
    (t.tcb p).saddr = seg.ip_dst ∧ (t.tcb p).sport = seg.th_dport ∧ ¬ (t.tcb p).Peer

/-! ## Section 3: The invariant -/

namespace TcbSlot

theorem eq_iff {a b : TcbSlot} : a.usnet_tcb_eq b = true ↔
    a.saddr = b.saddr ∧ a.daddr = b.daddr ∧ a.sport = b.sport ∧ a.dport = b.dport := by
  simp only [usnet_tcb_eq, Bool.and_eq_true, beq_iff_eq, and_assoc]

theorem isempty_iff {a : TcbSlot} : a.usnet_tcb_isempty = true ↔
    a.saddr = 0 ∧ a.daddr = 0 ∧ a.sport = 0 ∧ a.dport = 0 := by
  simp only [usnet_tcb_isempty, Bool.and_eq_true, beq_iff_eq, and_assoc]

theorem not_peer_iff {a : TcbSlot} : ¬ a.Peer ↔ a.daddr = 0 ∧ a.dport = 0 := by
  unfold Peer
  rw [not_or, not_not, not_not]

/-- The hash is one of the four addresses. -/
theorem key_congr {a b : TcbSlot} (h : a.usnet_tcb_eq b = true) :
    a.usnet_tcb_key = b.usnet_tcb_key := by
  obtain ⟨hsa, hda, hsp, hdp⟩ := eq_iff.mp h
  simp only [usnet_tcb_key, key, hsa, hda, hsp, hdp]

/-- Connections are the slots with a peer. -/
def Ok (tcb : TcbSlot) : Prop := tcb.Live ↔ tcb.Peer

theorem ok_of_freed {tcb : TcbSlot} (hl : ¬ tcb.Live) (hp : ¬ tcb.Peer) : tcb.Ok :=
  ⟨fun h => absurd h hl, fun h => absurd h hp⟩

end TcbSlot

namespace TcbCtx

/-- A slot from which the listening socket's addresses are read: all zero as far
    as the own address goes, or an item a search for its own addresses finds. -/
def ListenSlot (t : TcbCtx) (p : Nat × Nat) : Prop :=
  ((t.tcb p).saddr = 0 ∧ (t.tcb p).sport = 0) ∨
  (¬ (t.tcb p).Peer ∧ (t.tcb p).usnet_tcb_isempty = false ∧
    p ∈ t.tcb_cache.path (t.tcb p))

/-- The functions `usnet_tcb_init` gives the table. -/
structure Fns (base : UsnHashbase TcbSlot) : Prop where
  eqfn : base.hb_eqfn = TcbSlot.usnet_tcb_eq
  keyfn : base.hb_keyfn = TcbSlot.usnet_tcb_key
  isemptyfn : base.hb_isemptyfn = TcbSlot.usnet_tcb_isempty
  setemptyfn : base.hb_setemptyfn = TcbSlot.usnet_tcb_setempty

/-- What holds of the table in every run. -/
structure Inv (t : TcbCtx) : Prop where
  fns : Fns t.tcb_cache
  slots : ∀ p, (t.tcb p).Ok
  listen : ∀ p, t.listen_tcb = some p → t.ListenSlot p

theorem Fns.set {base : UsnHashbase TcbSlot} (h : Fns base) (p : Nat × Nat) (x : TcbSlot) :
    Fns (base.set p x) := ⟨h.eqfn, h.keyfn, h.isemptyfn, h.setemptyfn⟩

/-- Items with the same addresses have the same path. -/
theorem Fns.path_congr {base : UsnHashbase TcbSlot} (h : Fns base) {a b : TcbSlot}
    (heq : a.usnet_tcb_eq b = true) : base.path a = base.path b := by
  have hslot : base.slot a = base.slot b := by
    funext i
    simp only [UsnHashbase.slot, h.keyfn, TcbSlot.key_congr heq]
  simp only [UsnHashbase.path, hslot]

theorem Fns.remove_set {base : UsnHashbase TcbSlot} (h : Fns base) (p : Nat × Nat)
    (x : TcbSlot) : usnet_cache_remove (base.set p x) p = base.set p x.usnet_tcb_setempty := by
  simp only [usnet_cache_remove, UsnHashbase.set_self, UsnHashbase.set_set, (h.set p x).setemptyfn]

theorem Inv.init : Inv usnet_tcb_init := by
  refine ⟨⟨rfl, rfl, rfl, rfl⟩, fun p => ?_, fun p hp => by cases hp⟩
  show (TcbSlot.stcb 0 0 0 0).Ok
  unfold TcbSlot.Ok
  decide

/-- Writing one slot, whoever listens then. -/
theorem Inv.set {t : TcbCtx} (h : t.Inv) {p : Nat × Nat} {x : TcbSlot}
    {l : Option (Nat × Nat)} (hx : x.Ok)
    (hl : ∀ q, l = some q → ListenSlot ⟨t.tcb_cache.set p x, l⟩ q) :
    Inv ⟨t.tcb_cache.set p x, l⟩ := by
  refine ⟨h.fns.set p x, fun q => ?_, hl⟩
  by_cases hq : q = p
  · subst hq
    rw [tcb, UsnHashbase.set_self]
    exact hx
  · rw [tcb, UsnHashbase.set_ne _ _ hq]
    exact h.slots q

/-- The listening slot stays one when it is given away without an own address. -/
theorem ListenSlot.set {t : TcbCtx} {p q : Nat × Nat} {x : TcbSlot} (h : t.ListenSlot q)
    (hx : q = p → x.saddr = 0 ∧ x.sport = 0) (l : Option (Nat × Nat)) :
    ListenSlot ⟨t.tcb_cache.set p x, l⟩ q := by
  unfold ListenSlot
  by_cases hq : q = p
  · left
    subst hq
    rw [tcb, UsnHashbase.set_self]
    exact hx rfl
  · rw [tcb, UsnHashbase.set_ne _ _ hq]
    exact h

/-- A free slot has neither parts nor addresses. -/
theorem Inv.free {t : TcbCtx} (h : t.Inv) {p : Nat × Nat}
    (he : t.tcb_cache.hb_isemptyfn (t.tcb p) = true) :
    (t.tcb p).saddr = 0 ∧ (t.tcb p).sport = 0 ∧ ¬ (t.tcb p).Peer := by
  rw [h.fns.isemptyfn] at he
  obtain ⟨hsa, hda, hsp, hdp⟩ := TcbSlot.isempty_iff.mp he
  exact ⟨hsa, hsp, TcbSlot.not_peer_iff.mpr ⟨hda, hdp⟩⟩

/-! ## Section 4: What the steps do to it -/

/-- A socket is registered in a free slot of its path, or not at all. -/
theorem register_cases {t : TcbCtx} (so_fd saddr : UInt32) (sport : UInt16) :
    (t.usnet_register_socket (some so_fd) saddr sport 0 0).2 = t ∨
    ∃ p, p ∈ t.tcb_cache.path (.stcb saddr sport 0 0) ∧
      t.tcb_cache.hb_isemptyfn (t.tcb p) = true ∧
      (t.usnet_register_socket (some so_fd) saddr sport 0 0).2
        = ⟨t.tcb_cache.set p { TcbSlot.stcb saddr sport 0 0 with
            fd := so_fd, on_hash_table := true, state := .listen }, some p⟩ := by
  unfold usnet_register_socket
  cases hins : usnet_cache_insert t.tcb_cache (.stcb saddr sport 0 0) with
  | none => exact .inl rfl
  | some r =>
    obtain ⟨p, base⟩ := r
    obtain ⟨hp, hempty, rfl⟩ := UsnHashbase.of_insert hins
    refine .inr ⟨p, hp, hempty, ?_⟩
    simp only [UsnHashbase.set_self, UsnHashbase.set_set]

/-- A new block is put into a free slot of its path; without room for its parts
    the slot is free again. -/
theorem init_newtcb_cases {t : TcbCtx} (h : Fns t.tcb_cache) (rcvvars_mp sndvars_mp : Bool)
    (saddr : UInt32) (sport : UInt16) (daddr : UInt32) (dport : UInt16) :
    t.usnet_init_newtcb rcvvars_mp sndvars_mp saddr sport daddr dport = (t, none) ∨
    ∃ p x, p ∈ t.tcb_cache.path (.stcb saddr sport daddr dport) ∧
      t.tcb_cache.hb_isemptyfn (t.tcb p) = true ∧
      (t.usnet_init_newtcb rcvvars_mp sndvars_mp saddr sport daddr dport).1
        = { t with tcb_cache := t.tcb_cache.set p x } ∧
      (x.usnet_tcb_isempty = true ∧ ¬ x.Live ∨
        x.usnet_tcb_eq (.stcb saddr sport daddr dport) = true ∧ x.Live) := by
  unfold usnet_init_newtcb
  cases hins : usnet_cache_insert t.tcb_cache (.stcb saddr sport daddr dport) with
  | none => exact .inl rfl
  | some r =>
    obtain ⟨p, base⟩ := r
    obtain ⟨hp, hempty, rfl⟩ := UsnHashbase.of_insert hins
    refine .inr ⟨p, ?_⟩
    simp only [UsnHashbase.set_self, h.remove_set, UsnHashbase.set_set]
    by_cases hr : rcvvars_mp = false
    · rw [if_pos hr]
      exact ⟨_, hp, hempty, rfl, .inl ⟨rfl, fun hl => nomatch hl.1⟩⟩
    · rw [if_neg hr]
      by_cases hs : sndvars_mp = false
      · rw [if_pos hs]
        exact ⟨_, hp, hempty, rfl, .inl ⟨rfl, fun hl => nomatch hl.1⟩⟩
      · rw [if_neg hs]
        exact ⟨_, hp, hempty, rfl, .inr ⟨TcbSlot.eq_iff.mpr ⟨rfl, rfl, rfl, rfl⟩, rfl, rfl⟩⟩

/-- The listening socket a new connection is for. -/
theorem listening_of_syn {t : TcbCtx} {ip : UInt32} {port : UInt16}
    (h : t.usnet_handle_syn_pkt ip port = true) :
    ∃ q, t.listen_tcb = some q ∧ ip = (t.tcb q).saddr ∧ port = (t.tcb q).sport := by
  unfold usnet_handle_syn_pkt at h
  cases hlisten : t.listen_tcb with
  | none =>
    rw [hlisten] at h
    cases h
  | some q =>
    rw [hlisten] at h
    simp only [Bool.and_eq_true, beq_iff_eq] at h
    exact ⟨q, rfl, h⟩

/-- A search that fails has not passed an item with the segment's addresses. -/
theorem Inv.not_on_path {t : TcbCtx} (h : t.Inv) {seg : Segment} (hfound : t.found seg = none)
    {p : Nat × Nat} (hp : p ∈ t.tcb_cache.path (sitem seg)) :
    (t.tcb p).usnet_tcb_eq (sitem seg) = false := by
  have hunseen := UsnHashbase.search_eq_none.mp hfound p hp
  rw [h.fns.eqfn] at hunseen
  exact hunseen

/-- A segment that opens a connection has a source: otherwise the search would
    have found the free slot, or the listening one. -/
theorem Inv.new_source {t : TcbCtx} (h : t.Inv) {seg : Segment} (hfound : t.found seg = none)
    {p q : Nat × Nat} (hlisten : t.listen_tcb = some q) (hip : seg.ip_dst = (t.tcb q).saddr)
    (hport : seg.th_dport = (t.tcb q).sport) (hp : p ∈ t.tcb_cache.path (sitem seg))
    (hempty : t.tcb_cache.hb_isemptyfn (t.tcb p) = true) : (sitem seg).Peer := by
  by_contra hno
  obtain ⟨hda, hdp⟩ := TcbSlot.not_peer_iff.mp hno
  obtain ⟨hsa, hsp, hpeer⟩ := h.free hempty
  rcases h.listen q hlisten with ⟨hqa, hqp⟩ | ⟨hqpeer, -, hqpath⟩
  · have hsame : (t.tcb p).usnet_tcb_eq (sitem seg) = true := by
      obtain ⟨hpa, hpp⟩ := TcbSlot.not_peer_iff.mp hpeer
      refine TcbSlot.eq_iff.mpr ⟨?_, by rw [hpa, hda], ?_, by rw [hpp, hdp]⟩
      · rw [hsa, ← hqa, ← hip]
        rfl
      · rw [hsp, ← hqp, ← hport]
        rfl
    rw [h.not_on_path hfound hp] at hsame
    cases hsame
  · have hsame : (t.tcb q).usnet_tcb_eq (sitem seg) = true := by
      obtain ⟨hpa, hpp⟩ := TcbSlot.not_peer_iff.mp hqpeer
      exact TcbSlot.eq_iff.mpr ⟨hip.symm, by rw [hpa, hda], hport.symm, by rw [hpp, hdp]⟩
    rw [h.fns.path_congr hsame] at hqpath
    rw [h.not_on_path hfound hqpath] at hsame
    cases hsame

/-- A segment keeps the invariant, also where it opens a connection. -/
theorem Inv.tcp_input {t : TcbCtx} (h : t.Inv) (rcvvars_mp sndvars_mp : Bool)
    (seg : Segment) : (t.usnet_tcp_input rcvvars_mp sndvars_mp seg).1.Inv := by
  unfold usnet_tcp_input
  cases hfound : t.found seg with
  | some p => exact h
  | none =>
    show (t.usnet_handle_passive_open rcvvars_mp sndvars_mp seg).1.Inv
    unfold usnet_handle_passive_open
    split
    case isFalse => exact h
    case isTrue hsyn =>
    obtain ⟨q, hlisten, hip, hport⟩ := listening_of_syn hsyn.2.2
    rcases init_newtcb_cases h.fns rcvvars_mp sndvars_mp seg.ip_dst seg.th_dport seg.ip_src
      seg.th_sport with heq | ⟨p, x, hp, hempty, heq, hx⟩
    · rw [heq]
      exact h
    rw [heq]
    have hsrc := h.new_source hfound hlisten hip hport hp hempty
    obtain ⟨hsa, hsp, -⟩ := h.free hempty
    have hok : x.Ok := by
      rcases hx with ⟨hnil, hdead⟩ | ⟨hsame, hlive⟩
      · obtain ⟨-, hda, -, hdp⟩ := TcbSlot.isempty_iff.mp hnil
        exact TcbSlot.ok_of_freed hdead (TcbSlot.not_peer_iff.mpr ⟨hda, hdp⟩)
      · obtain ⟨-, hda, -, hdp⟩ := TcbSlot.eq_iff.mp hsame
        refine ⟨fun _ => ?_, fun _ => hlive⟩
        unfold TcbSlot.Peer
        rw [hda, hdp]
        exact hsrc
    refine h.set hok fun q' hq' => (h.listen q' hq').set (fun hpq => ?_) _
    -- the listening slot itself is used again: its own address is the segment's, zero
    obtain rfl := Option.some.inj (hlisten.symm.trans hq')
    subst hpq
    rcases hx with ⟨hnil, -⟩ | ⟨hsame, -⟩
    · obtain ⟨hxa, -, hxp, -⟩ := TcbSlot.isempty_iff.mp hnil
      exact ⟨hxa, hxp⟩
    · obtain ⟨hxa, -, hxp, -⟩ := TcbSlot.eq_iff.mp hsame
      exact ⟨hxa.trans (hip.trans hsa), hxp.trans (hport.trans hsp)⟩

/-- What is found has the segment's addresses. -/
theorem Inv.eq_of_found {t : TcbCtx} (h : t.Inv) {seg : Segment} {p : Nat × Nat}
    (hfound : t.found seg = some p) :
    (t.tcb p).saddr = seg.ip_dst ∧ (t.tcb p).daddr = seg.ip_src ∧
      (t.tcb p).sport = seg.th_dport ∧ (t.tcb p).dport = seg.th_sport := by
  have heq := (UsnHashbase.of_search hfound).2
  rw [h.fns.eqfn] at heq
  exact TcbSlot.eq_iff.mp heq

theorem Inv.register {t : TcbCtx} (h : t.Inv) (so_fd saddr : UInt32) (sport : UInt16) :
    (t.usnet_register_socket (some so_fd) saddr sport 0 0).2.Inv := by
  rcases @register_cases t so_fd saddr sport with heq | ⟨p, hp, hempty, heq⟩
  · rw [heq]
    exact h
  · rw [heq]
    have hpeer : ¬ (TcbSlot.stcb saddr sport 0 0).Peer := TcbSlot.not_peer_iff.mpr ⟨rfl, rfl⟩
    refine h.set (TcbSlot.ok_of_freed (fun hl => nomatch hl.1) hpeer) fun q hq => ?_
    obtain rfl := Option.some.inj hq
    unfold ListenSlot
    rw [tcb, UsnHashbase.set_self, UsnHashbase.path_set]
    by_cases hz : saddr = 0 ∧ sport = 0
    · exact .inl hz
    · refine .inr ⟨hpeer, ?_, ?_⟩
      · rw [Bool.eq_false_iff]
        intro hnil
        obtain ⟨hsa, -, hsp, -⟩ := TcbSlot.isempty_iff.mp hnil
        exact hz ⟨hsa, hsp⟩
      · rw [← h.fns.path_congr (a := .stcb saddr sport 0 0)]
        · exact hp
        · exact TcbSlot.eq_iff.mpr ⟨rfl, rfl, rfl, rfl⟩

theorem Inv.release {t : TcbCtx} (h : t.Inv) (p : Nat × Nat) : (t.usnet_release_tcb p).Inv := by
  unfold usnet_release_tcb
  rw [h.fns.remove_set]
  refine h.set (TcbSlot.ok_of_freed (fun hl => nomatch hl.1) ?_)
    fun q hq => (h.listen q hq).set (fun _ => ⟨rfl, rfl⟩) _
  exact TcbSlot.not_peer_iff.mpr ⟨rfl, rfl⟩

end TcbCtx

theorem TableReachable.inv {t : TcbCtx} (h : TableReachable t) : t.Inv := by
  refine RunWhere.invariant (I := TcbCtx.Inv) ?_ ?_ h
  · rintro t rfl
    exact .init
  · intro t a t' hi _ hstep
    cases a with
    | register so_fd addr port =>
      obtain rfl := hstep
      exact hi.register so_fd addr port
    | segment rcvvars_mp sndvars_mp seg =>
      obtain rfl := hstep
      exact hi.tcp_input rcvvars_mp sndvars_mp seg
    | release p =>
      obtain ⟨-, rfl⟩ := hstep
      exact hi.release p

/-- The places searched lie inside the table, one row behind the other. -/
theorem tcb_slot_lt (sitem : TcbSlot) {p : Nat × Nat}
    (h : p ∈ TcbCtx.usnet_tcb_init.tcb_cache.path sitem) : p.1 < 10 ∧ p.2 < 100 := by
  refine UsnHashbase.slot_lt ?_ ?_ h
  · decide
  · decide

/-- A connection is offered to the listener the table knows. -/
theorem handle_syn_pkt_eq {t : TcbCtx} {c : Ctx} (h : c.listen_tcb = t.listener)
    (ip : UInt32) (port : UInt16) :
    (usnet_handle_syn_pkt c ip port).isSome = t.usnet_handle_syn_pkt ip port := by
  unfold usnet_handle_syn_pkt TcbCtx.usnet_handle_syn_pkt
  rw [h, TcbCtx.listener]
  cases t.listen_tcb with
  | none => rfl
  | some p => simp only [Option.map_some, Option.isSome_filter, Option.any_some]

/-- The slot of a new connection holds the block `usnet_init_newtcb` fills in, and
    a connection that cannot be made leaves no slot taken. -/
theorem init_newtcb_slot {t : TcbCtx} {c : Ctx} {l : Listener} {saddr daddr : UInt32}
    {sport dport : UInt16} (code : Nat × Nat → Nat)
    (hcache : c.tcb_cache = (usnet_cache_insert t.tcb_cache
      (.stcb saddr sport daddr dport)).map fun r => code r.1)
    (hl : ∀ p base q, usnet_cache_insert t.tcb_cache (.stcb saddr sport daddr dport)
      = some (p, base) → t.listen_tcb = some q → (base.hb_cache q).fd = l.fd)
    (hlisten : t.listen_tcb.isSome) :
    let (t', made) := t.usnet_init_newtcb c.rcvvars_mp c.sndvars_mp saddr sport daddr dport
    match usnet_init_newtcb c l saddr sport daddr dport with
    | none => made = none
    | some tcb => ∃ p, made = some p ∧ tcb.id = code p ∧ t'.tcb p = TcbSlot.of tcb := by
  unfold TcbCtx.usnet_init_newtcb usnet_init_newtcb
  cases hins : usnet_cache_insert t.tcb_cache (.stcb saddr sport daddr dport) with
  | none =>
    rw [hins] at hcache
    simp only [hcache, Option.map_none]
  | some r =>
    obtain ⟨p, base⟩ := r
    obtain ⟨q, hq⟩ := Option.isSome_iff_exists.mp hlisten
    obtain ⟨-, -, hbase⟩ := UsnHashbase.of_insert hins
    rw [hins] at hcache
    simp only [hcache, Option.map_some, hq, hl p base q hins hq]
    cases hr : c.rcvvars_mp with
    | false => simp only [if_true]
    | true =>
      cases hs : c.sndvars_mp with
      | false => simp only [Bool.true_eq_false, if_true, if_false]
      | true =>
        simp only [Bool.true_eq_false, if_false]
        refine ⟨p, rfl, rfl, ?_⟩
        rw [hbase]
        simp only [TcbCtx.tcb, UsnHashbase.set_self]
        rfl

/-! ## Section 5: What a segment finds -/

/-- In every table a run reaches, a segment finds a connection, or nothing, when it
    has a source, or when no slot without a peer is on its path; and only then. -/
theorem found_live {t : TcbCtx} (h : TableReachable t) (seg : Segment) :
    FoundLive t seg ↔ (seg.ip_src ≠ 0 ∨ seg.th_sport ≠ 0) ∨ ¬ PeerlessSlot t seg := by
  have hinv := h.inv
  constructor
  · intro hlive
    by_contra hno
    rw [not_or, not_or, not_not, not_not, not_not] at hno
    obtain ⟨⟨hsrc, hsport⟩, p, hp, hsa, hsp, hpeer⟩ := hno
    have hsame : (t.tcb p).usnet_tcb_eq (TcbCtx.sitem seg) = true := by
      obtain ⟨hda, hdp⟩ := TcbSlot.not_peer_iff.mp hpeer
      exact TcbSlot.eq_iff.mpr ⟨hsa, hda.trans hsrc.symm, hsp, hdp.trans hsport.symm⟩
    cases hfound : t.found seg with
    | none =>
      rw [hinv.not_on_path hfound hp] at hsame
      cases hsame
    | some q =>
      -- what is found has no peer either, so it is no connection
      obtain ⟨-, hda, -, hdp⟩ := hinv.eq_of_found hfound
      rcases (hinv.slots q).mp (hlive q hfound) with hpeer' | hpeer'
      · exact hpeer' (hda.trans hsrc)
      · exact hpeer' (hdp.trans hsport)
  · rintro hcond q hfound
    obtain ⟨hsa, hda, hsp, hdp⟩ := hinv.eq_of_found hfound
    by_contra hdead
    have hpeer : ¬ (t.tcb q).Peer := fun hp => hdead ((hinv.slots q).mpr hp)
    obtain ⟨hqa, hqp⟩ := TcbSlot.not_peer_iff.mp hpeer
    rcases hcond with (hsrc | hsport) | hnone
    · exact hsrc (hda.symm.trans hqa)
    · exact hsport (hdp.symm.trans hqp)
    · exact hnone ⟨q, (UsnHashbase.of_search hfound).1, hsa, hsp, hpeer⟩

/-- The table with a socket listening on 10.0.0.1:80. -/
def one_socket : TcbCtx :=
  (TcbCtx.usnet_tcb_init.usnet_register_socket (some 1) 0x0100000a 0x5000 0 0).2

theorem one_socket_reachable : TableReachable one_socket :=
  .step (a := .register 1 0x0100000a 0x5000) (.init rfl) trivial rfl

/-- A SYN to 10.0.0.1:80. -/
def syn_from (ip_src : UInt32) (th_sport : UInt16) : Segment :=
  { ip_src := ip_src, ip_dst := 0x0100000a, th_sport := th_sport, th_dport := 0x5000
    seq := 0, ack_seq := 0, flags := TH_SYN, window := 0, opts := [], payload := []
    trailer := [], short := nil_short }

/-- A connection from 10.0.0.2:1234 is found by its next segment. -/
theorem found_live_sample :
    let t := (one_socket.usnet_tcp_input true true (syn_from 0x0200000a 0xd204)).1
    t.found (syn_from 0x0200000a 0xd204) = some (0, 2) ∧ (t.tcb (0, 2)).Live := by
  refine ⟨by decide, ?_⟩
  refine (found_live (.step (a := .segment true true (syn_from 0x0200000a 0xd204))
    one_socket_reachable trivial rfl) (syn_from 0x0200000a 0xd204)).mpr (.inl (.inl ?_)) _ ?_
  · decide
  · decide

/-- A segment from 0.0.0.0:0 finds the listening socket, which has no parts. -/
theorem listener_found :
    ∃ t seg, TableReachable t ∧ ∃ p, t.found seg = some p ∧ (t.tcb p).sndvar = .null := by
  refine ⟨one_socket, syn_from 0 0, one_socket_reachable, (0, 10), ?_, ?_⟩
  · decide
  · decide

end Usnet
