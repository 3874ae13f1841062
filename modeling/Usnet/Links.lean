import Usnet.Event
import Usnet.InputSpec
import Mathlib.Logic.Relation

/-! # What the functions do to the lists

    The functions of a connection reach the six lists through a handful of
    operations.  `Links` is what these read and write; `Moves` says that a
    function is a sequence of them, with other work in between, and `Outcome`
    that it may also have released the block at the end.  What a list needs is
    then proved of each operation once.
-/

namespace Usnet

open CInt Circular Relation

/-! ## Section 1: The operations -/

/-- The part of a connection and its context the lists depend on. -/
structure Links where
  id : Nat
  empty : Bool
  on_control_list : Bool
  on_send_list : Bool
  on_ack_list : Bool
  on_timeout_list : Bool
  on_timewait_list : Bool
  on_rto_idx : Int
  last_active_ts : UInt32
  buf_fd : Option UInt32
  cur_time : UInt32
  tcp_timeout : Int
  control_list : List Nat
  control_list_cnt : Int
  send_list : List Nat
  send_list_cnt : Int
  ack_list : List Nat
  ack_list_cnt : Int
  timewait_list : List Nat
  timewait_list_cnt : Int
  timeout_list : List Nat
  timeout_list_cnt : Int
  rto_store : RtoStore
  rto_list_cnt : Int

def Conn.links (s : Conn) : Links :=
  { id := s.tcb.id
    empty := usnet_tcb_isempty s.tcb
    on_control_list := s.tcb.sndvar.on_control_list
    on_send_list := s.tcb.sndvar.on_send_list
    on_ack_list := s.tcb.sndvar.on_ack_list
    on_timeout_list := s.tcb.on_timeout_list
    on_timewait_list := s.tcb.on_timewait_list
    on_rto_idx := s.tcb.on_rto_idx
    last_active_ts := s.tcb.last_active_ts
    buf_fd := s.tcb.sndvar.sndbuf.map UsnSendbuf.fd
    cur_time := s.ctx.cur_time
    tcp_timeout := s.ctx.tcp_timeout
    control_list := s.ctx.control_list
    control_list_cnt := s.ctx.control_list_cnt
    send_list := s.ctx.send_list
    send_list_cnt := s.ctx.send_list_cnt
    ack_list := s.ctx.ack_list
    ack_list_cnt := s.ctx.ack_list_cnt
    timewait_list := s.ctx.timewait_list
    timewait_list_cnt := s.ctx.timewait_list_cnt
    timeout_list := s.ctx.timeout_list
    timeout_list_cnt := s.ctx.timeout_list_cnt
    rto_store := s.ctx.rto_store
    rto_list_cnt := s.ctx.rto_list_cnt }

theorem Conn.links_onSnd (s : Conn) {f : SndVars → SndVars}
    (h : (f s.tcb.sndvar).on_control_list = s.tcb.sndvar.on_control_list ∧
      (f s.tcb.sndvar).on_send_list = s.tcb.sndvar.on_send_list ∧
      (f s.tcb.sndvar).on_ack_list = s.tcb.sndvar.on_ack_list ∧
      (f s.tcb.sndvar).sndbuf.map UsnSendbuf.fd = s.tcb.sndvar.sndbuf.map UsnSendbuf.fd) :
    (s.onSnd f).links = s.links := by
  obtain ⟨hc, hs, ha, hb⟩ := h
  simp only [Conn.links, Conn.onSnd_tcb, Conn.onSnd_ctx, hc, hs, ha, hb]
  rfl

/-- The connection has just been active. -/
def touch (s : Conn) : Conn :=
  usnet_update_timeout_list (s.onTcb fun t => { t with last_active_ts := s.ctx.cur_time })

/-- The reinsertion in `usnet_send_tcp_control_list`. -/
def requeue_control (s : Conn) : Conn :=
  (s.onSnd fun v => { v with on_control_list := true }).onCtx fun c => { c with
    control_list := s.tcb.id :: c.control_list
    control_list_cnt := c.control_list_cnt + 1 }

/-- Work that leaves the lists alone, and the operations that come with a packet. -/
inductive PacketStep : Conn → Conn → Prop
  | quiet {s s' : Conn} (h : s'.links = s.links) : PacketStep s s'
  | touch (s : Conn) : PacketStep s (touch s)
  | add_rto (s : Conn) : PacketStep s (usnet_add_rto_list s)
  | add_ack (s : Conn) : PacketStep s (usnet_add_ack_list s)
  | remove_ack (s : Conn) : PacketStep s (usnet_remove_ack_list s)

/-- One operation on a list. -/
inductive ListStep : Conn → Conn → Prop
  | packet {s s' : Conn} (h : PacketStep s s') : ListStep s s'
  | queue_control (s : Conn) : ListStep s (queue_control s)
  | requeue_control (s : Conn) (h : s.tcb.sndvar.on_control_list = false) :
      ListStep s (requeue_control s)
  | remove_control (s : Conn) : ListStep s (usnet_remove_control_list s)
  | add_send (s : Conn) : ListStep s (usnet_add_send_list s)
  | remove_send (s : Conn) : ListStep s (usnet_remove_send_list s)
  | remove_rto (s : Conn) : ListStep s (usnet_remove_rto_list s)
  | add_timeout {s s' : Conn} (hpos : 0 < s.ctx.tcp_timeout)
      (hfresh : s.tcb.last_active_ts = s.ctx.cur_time) (h : usnet_add_timeout_list s = .ok s') :
      ListStep s s'
  | remove_timeout (s : Conn) : ListStep s (usnet_remove_timeout_list s)
  | add_timewait {s s' : Conn} (h : usnet_add_timewait_list s = .ok s') : ListStep s s'
  | unlink_timewait (s : Conn) (h : s.tcb.on_timewait_list = true) :
      ListStep s (unlink_timewait s)

/-- Packets, and what comes with them. -/
def Packets (s s' : Conn) : Prop := ReflTransGen PacketStep s s'

theorem Packets.refl {s : Conn} : Packets s s := ReflTransGen.refl

theorem Packets.trans {s t s' : Conn} (h : Packets s t) (h' : Packets t s') : Packets s s' :=
  ReflTransGen.trans h h'

theorem Packets.tail {s t s' : Conn} (h : Packets s t) (h' : PacketStep t s') : Packets s s' :=
  ReflTransGen.tail h h'

theorem Packets.quiet {s s' : Conn} (h : s'.links = s.links) : Packets s s' :=
  ReflTransGen.single (.quiet h)

/-- A sequence of operations. -/
def Moves (s s' : Conn) : Prop := ReflTransGen ListStep s s'

theorem Moves.refl {s : Conn} : Moves s s := ReflTransGen.refl

theorem Moves.trans {s t s' : Conn} (h : Moves s t) (h' : Moves t s') : Moves s s' :=
  ReflTransGen.trans h h'

theorem Moves.one {s s' : Conn} (h : ListStep s s') : Moves s s' := ReflTransGen.single h

theorem Moves.tail {s t s' : Conn} (h : Moves s t) (h' : ListStep t s') : Moves s s' :=
  ReflTransGen.tail h h'

theorem Packets.moves {s s' : Conn} (h : Packets s s') : Moves s s' := by
  induction h with
  | refl => exact .refl
  | tail _ hstep ih => exact ih.tail (.packet hstep)

theorem Moves.quiet {s s' : Conn} (h : s'.links = s.links) : Moves s s' := (Packets.quiet h).moves

/-- Operations and then the release of the block. -/
def Released (s s' : Conn) : Prop := ∃ t, Moves s t ∧ s'.links = (usnet_release_tcb t).links

/-- What a function may do. -/
def Outcome (s s' : Conn) : Prop := Moves s s' ∨ Released s s'

theorem Moves.outcome {s s' : Conn} (h : Moves s s') : Outcome s s' := .inl h

theorem Moves.then {s t s' : Conn} (h : Moves s t) (h' : Outcome t s') : Outcome s s' := by
  rcases h' with h' | ⟨u, h', hu⟩
  · exact .inl (Moves.trans h h')
  · exact .inr ⟨u, h.trans h', hu⟩

/-- Work after the function that leaves the lists alone. -/
theorem Outcome.quiet {s t s' : Conn} (h : Outcome s t) (h' : s'.links = t.links) :
    Outcome s s' := by
  rcases h with h | ⟨u, h, hu⟩
  · exact .inl (h.trans (.quiet h'))
  · exact .inr ⟨u, h, h'.trans hu⟩

theorem raise_moves (s : Conn) (ev : TcpEvent) : Moves s (s.raise ev) := .quiet rfl

theorem Moves.release {s t : Conn} (h : Moves s t) : Released s (usnet_release_tcb t) :=
  ⟨t, h, rfl⟩

theorem released (s : Conn) : Outcome s (usnet_release_tcb s) := .inr (Moves.refl.release)

/-- A sequence keeps what every operation keeps. -/
theorem Moves.invariant {I : Conn → Prop} (hstep : ∀ s s', I s → ListStep s s' → I s')
    {s s' : Conn} (h : Moves s s') (hi : I s) : I s' := by
  induction h with
  | refl => exact hi
  | tail _ hs ih => exact hstep _ _ ih hs

/-- What no operation changes. -/
structure Framed (s s' : Conn) : Prop where
  id : s'.tcb.id = s.tcb.id
  empty : usnet_tcb_isempty s'.tcb = usnet_tcb_isempty s.tcb
  buf_fd : s'.tcb.sndvar.sndbuf.map UsnSendbuf.fd = s.tcb.sndvar.sndbuf.map UsnSendbuf.fd
  cur_time : s'.ctx.cur_time = s.ctx.cur_time
  tcp_timeout : s'.ctx.tcp_timeout = s.ctx.tcp_timeout

theorem Framed.of_same {s s' : Conn} (h : Same s s') : Framed s s' := by
  obtain ⟨hk, ⟨hsa, hda, hsp, hdp, -⟩, -⟩ := h
  refine ⟨hk.1, ?_, ?_, ?_, ?_⟩
  · simp only [usnet_tcb_isempty, hsa, hda, hsp, hdp]
  all_goals simp only [hk]

theorem Framed.of_links {s s' : Conn} (h : s'.links = s.links) : Framed s s' :=
  ⟨congrArg Links.id h, congrArg Links.empty h, congrArg Links.buf_fd h,
    congrArg Links.cur_time h, congrArg Links.tcp_timeout h⟩

theorem Framed.trans {s t s' : Conn} (h : Framed s t) (h' : Framed t s') : Framed s s' :=
  ⟨h'.id.trans h.id, h'.empty.trans h.empty, h'.buf_fd.trans h.buf_fd,
    h'.cur_time.trans h.cur_time, h'.tcp_timeout.trans h.tcp_timeout⟩

theorem PacketStep.framed {s s' : Conn} (h : PacketStep s s') : Framed s s' := by
  cases h with
  | quiet h => exact .of_links h
  | touch =>
    unfold Usnet.touch usnet_update_timeout_list
    split <;> exact ⟨rfl, rfl, rfl, rfl, rfl⟩
  | add_rto => exact .of_same (usnet_add_rto_list_same s)
  | add_ack => exact .of_same (usnet_add_ack_list_same s)
  | remove_ack => exact .of_same (usnet_remove_ack_list_same s)

theorem ListStep.framed {s s' : Conn} (h : ListStep s s') : Framed s s' := by
  cases h with
  | packet h => exact h.framed
  | queue_control => exact .of_same (queue_control_same s)
  | requeue_control => exact ⟨rfl, rfl, rfl, rfl, rfl⟩
  | remove_control => exact .of_same (usnet_remove_control_list_same s)
  | add_send => exact .of_same (usnet_add_send_list_same s)
  | remove_send => exact .of_same (usnet_remove_send_list_same s)
  | remove_rto => exact .of_same (usnet_remove_rto_list_same s)
  | add_timeout _ _ h => exact .of_same (usnet_add_timeout_list_same h)
  | remove_timeout => exact .of_same (usnet_remove_timeout_list_same s)
  | add_timewait h =>
    unfold usnet_add_timewait_list at h
    simp only at h
    split at h
    · obtain rfl := Except.ok.inj h
      exact ⟨rfl, rfl, rfl, rfl, rfl⟩
    · split at h
      · cases h
      · obtain rfl := Except.ok.inj h
        exact ⟨rfl, rfl, rfl, rfl, rfl⟩
  | unlink_timewait => exact .of_same (unlink_timewait_same s)

theorem Moves.framed {s s' : Conn} (h : Moves s s') : Framed s s' := by
  induction h with
  | refl => exact ⟨rfl, rfl, rfl, rfl, rfl⟩
  | tail _ hstep ih => exact ih.trans hstep.framed

/-! ## Section 2: Release -/

/-- The flags and the index are cleared. -/
structure Unlinked (s : Conn) : Prop where
  control : s.tcb.sndvar.on_control_list = false
  send : s.tcb.sndvar.on_send_list = false
  ack : s.tcb.sndvar.on_ack_list = false
  rto : s.tcb.on_rto_idx < 0
  timewait : s.tcb.on_timewait_list = false
  timeout : 0 < s.ctx.tcp_timeout → s.tcb.on_timeout_list = false

@[simp] theorem usnet_remove_control_list_tcb (s : Conn) :
    (usnet_remove_control_list s).tcb
      = { s.tcb with sndvar := { s.tcb.sndvar with on_control_list := false } } := by
  unfold usnet_remove_control_list
  split
  · rfl
  · rename_i h
    rw [← Bool.eq_false_iff.mpr h]

@[simp] theorem usnet_remove_send_list_tcb (s : Conn) :
    (usnet_remove_send_list s).tcb
      = { s.tcb with sndvar := { s.tcb.sndvar with on_send_list := false } } := by
  unfold usnet_remove_send_list
  split
  · rfl
  · rename_i h
    rw [← Bool.eq_false_iff.mpr h]

@[simp] theorem usnet_remove_ack_list_tcb (s : Conn) :
    (usnet_remove_ack_list s).tcb
      = { s.tcb with sndvar := { s.tcb.sndvar with on_ack_list := false } } := by
  unfold usnet_remove_ack_list
  split
  · rfl
  · rename_i h
    rw [← Bool.eq_false_iff.mpr h]

@[simp] theorem usnet_remove_timeout_list_tcb (s : Conn) :
    (usnet_remove_timeout_list s).tcb = { s.tcb with on_timeout_list := false } := by
  unfold usnet_remove_timeout_list
  split
  · rfl
  · rename_i h
    rw [← Bool.eq_false_iff.mpr h]

theorem unlink_tcb_unlinked (s : Conn) : Unlinked (unlink_tcb s) := by
  unfold unlink_tcb
  simp only
  generalize ht : usnet_remove_ack_list (usnet_remove_send_list (usnet_remove_control_list s)) = t
  have hflags : t.tcb.sndvar.on_control_list = false ∧ t.tcb.sndvar.on_send_list = false ∧
      t.tcb.sndvar.on_ack_list = false := by
    rw [← ht]
    simp
  have hrto : ∀ t : Conn, (if t.tcb.on_rto_idx ≥ 0 then usnet_remove_rto_list t else t).tcb
      = { t.tcb with on_rto_idx := min t.tcb.on_rto_idx (-1) } := by
    intro t
    by_cases h : t.tcb.on_rto_idx ≥ 0
    · rw [if_pos h, Int.min_eq_right (by omega)]
      unfold usnet_remove_rto_list
      rw [if_neg (by omega)]
      rfl
    · rw [if_neg h, Int.min_eq_left (by omega)]
  have htw : ∀ t : Conn, (if t.tcb.on_timewait_list then unlink_timewait t else t).tcb
      = { t.tcb with on_timewait_list := false } := by
    intro t
    split
    · rfl
    · rename_i h
      rw [← Bool.eq_false_iff.mpr h]
  -- one list after the other; none of them enters another
  obtain ⟨hc, hs, ha⟩ := hflags
  generalize hu : (if t.tcb.on_rto_idx ≥ 0 then usnet_remove_rto_list t else t) = u
  have hut := hrto t
  rw [hu] at hut
  generalize hv : (if u.tcb.on_timewait_list then unlink_timewait u else u) = v
  have hvt := htw u
  rw [hv, hut] at hvt
  by_cases hto : v.ctx.tcp_timeout > 0
  · rw [if_pos hto]
    refine ⟨?_, ?_, ?_, ?_, ?_, fun _ => ?_⟩
    all_goals simp only [usnet_remove_timeout_list_tcb, hvt, hc, hs, ha]
    omega
  · rw [if_neg hto]
    refine ⟨?_, ?_, ?_, ?_, ?_, fun h => absurd h hto⟩
    all_goals simp only [hvt, hc, hs, ha]
    omega

theorem unlink_tcb_moves (s : Conn) : Moves s (unlink_tcb s) := by
  unfold unlink_tcb
  simp only
  generalize ht : usnet_remove_ack_list (usnet_remove_send_list (usnet_remove_control_list s)) = t
  have hst : Moves s t := by
    rw [← ht]
    exact (Moves.one (.remove_control s)).tail (.remove_send _) |>.tail (.packet (.remove_ack _))
  have hrto : Moves t (if t.tcb.on_rto_idx ≥ 0 then usnet_remove_rto_list t else t) := by
    split
    · exact .one (.remove_rto t)
    · exact .refl
  generalize (if t.tcb.on_rto_idx ≥ 0 then usnet_remove_rto_list t else t) = u at hrto
  have htw : Moves u (if u.tcb.on_timewait_list then unlink_timewait u else u) := by
    split
    · rename_i h
      exact .one (.unlink_timewait u h)
    · exact .refl
  generalize (if u.tcb.on_timewait_list then unlink_timewait u else u) = v at htw
  refine (hst.trans hrto).trans (htw.trans ?_)
  split
  · exact .one (.remove_timeout v)
  · exact .refl

/-- What a release leaves behind: no flags, and no addresses. -/
theorem Released.unlinked {s s' : Conn} (h : Released s s') :
    ∃ t, Moves s t ∧ Unlinked t ∧ s'.links = { t.links with empty := true } := by
  obtain ⟨t, ht, hlinks⟩ := h
  exact ⟨unlink_tcb t, ht.trans (unlink_tcb_moves t), unlink_tcb_unlinked t, hlinks⟩

/-! ## Section 3: Output -/

theorem usnet_enqueue_ack_packets (s : Conn) (opt : AckOpt) :
    Packets s (usnet_enqueue_ack s opt) := by
  unfold usnet_enqueue_ack
  refine .tail (.quiet ?_) (.add_ack _)
  cases opt <;> rfl

theorem usnet_enqueue_ack_moves (s : Conn) (opt : AckOpt) : Moves s (usnet_enqueue_ack s opt) :=
  (usnet_enqueue_ack_packets s opt).moves

theorem note_header_packets (s : Conn) (flags : UInt8) : Packets s (note_header s flags) := by
  unfold note_header
  have hfin : Packets s (note_fin s flags) := by
    unfold note_fin
    split
    · exact .refl
    · split
      · exact .quiet rfl
      · exact .refl
  have hack : ∀ s, Packets s (note_ack s flags) := by
    intro s
    unfold note_ack
    split
    · have hsent : Packets s (s.onSnd fun v => { v with ts_lastack_sent := s.ctx.cur_time }) :=
        .quiet rfl
      exact hsent.tail (.touch _)
    · exact .refl
  have hwin : ∀ s, Packets s (note_window s flags) := by
    intro s
    unfold note_window
    generalize (if has flags TH_SYN then 0 else s.tcb.sndvar.wscale) = wscale
    simp only
    split
    · exact .quiet rfl
    · exact .refl
  exact (hfin.trans (hack _)).trans (hwin _)

theorem arm_rto_packets (s : Conn) (payloadlen : Int) : Packets s (arm_rto s payloadlen) := by
  unfold arm_rto
  split
  · refine .tail (.quiet ?_) (.add_rto _)
    rfl
  · exact .refl

theorem transmit_packets (s : Conn) (frame : Frame) : Packets s (transmit s frame).2 := by
  unfold transmit
  simp only
  refine .tail (.trans (.quiet ?_) (arm_rto_packets _ _)) (.quiet rfl)
  rfl

theorem usnet_send_tcp_packet_packets (s : Conn) (flags : UInt8) (payload : List UInt8) :
    Packets s (usnet_send_tcp_packet s flags payload).2 := by
  unfold usnet_send_tcp_packet
  simp only
  split
  · exact .refl
  · have hout : Packets s (s.onCtx fun _ => (usnet_ipv4_output s.ctx).2) := by
      rw [usnet_ipv4_output_ctx]
      exact .quiet rfl
    split
    · exact hout
    · exact (hout.trans (note_header_packets _ flags)).trans (transmit_packets _ _)

theorem usnet_send_control_packet_packets {s : Conn} (h : s.tcb.state ≠ .closed) :
    Packets s (usnet_send_control_packet s).2 := by
  have hsent : ∀ t flags, Packets t (usnet_remove_ack_list (usnet_send_tcp_packet t flags []).2) :=
    fun t flags => (usnet_send_tcp_packet_packets t flags []).tail (.remove_ack _)
  unfold usnet_send_control_packet
  cases hst : s.tcb.state with
  | closed => exact absurd hst h
  | listen => exact .refl
  | syn_sent => exact usnet_send_tcp_packet_packets s TH_SYN []
  | syn_received =>
    refine .trans (.quiet ?_) (hsent _ _)
    rfl
  | established => exact hsent s TH_ACK
  | close_wait => exact hsent s TH_ACK
  | fin_wait_2 => exact hsent s TH_ACK
  | time_wait => exact hsent s TH_ACK
  | last_ack =>
    simp only
    split
    · exact .refl
    · exact hsent s _
  | fin_wait_1 =>
    simp only
    split
    · exact .refl
    · exact hsent s _
  | closing =>
    simp only
    split
    · split
      · exact hsent s _
      · exact hsent s _
    · exact hsent s _

/-- A control packet that fails leaves the other lists alone. -/
theorem usnet_send_control_packet_fails {s : Conn} (h : (usnet_send_control_packet s).1 < 0) :
    Packets s (usnet_send_control_packet s).2 := by
  by_cases hst : s.tcb.state = .closed
  · unfold usnet_send_control_packet at h ⊢
    rw [hst] at h ⊢
    simp only at h ⊢
    split
    · exact .refl
    · rename_i hbusy
      rw [if_neg hbusy] at h
      split
      · rename_i hge
        rw [if_pos hge] at h
        exact absurd h (Int.not_lt.mpr hge)
      · exact usnet_send_tcp_packet_packets s TH_RST []
  · exact usnet_send_control_packet_packets hst

/-- A block is released only with the last packet of a closed connection. -/
theorem usnet_send_control_packet_outcome (s : Conn) :
    Outcome s (usnet_send_control_packet s).2 := by
  by_cases hst : s.tcb.state = .closed
  · unfold usnet_send_control_packet
    rw [hst]
    simp only
    split
    · exact Moves.refl.outcome
    · have hsend := (usnet_send_tcp_packet_packets s TH_RST []).moves
      split
      · exact hsend.then (released _)
      · exact hsend.outcome
  · exact (usnet_send_control_packet_packets hst).moves.outcome

/-- After a release no list is left to remove the block from. -/
theorem Released.remove_control {s s' : Conn} (h : Released s s') :
    (usnet_remove_control_list s').links = s'.links := by
  obtain ⟨t, -, hoff, ht⟩ := h.unlinked
  have hoff' : s'.tcb.sndvar.on_control_list = false :=
    (congrArg Links.on_control_list ht).trans hoff.control
  unfold usnet_remove_control_list
  rw [if_neg (by simp [hoff'])]

theorem usnet_add_control_list_moves {s : Conn} (h : s.tcb.state ≠ .closed) :
    Moves s (usnet_add_control_list s) := by
  have hmoves := (usnet_send_control_packet_packets h).moves
  unfold usnet_add_control_list
  simp only
  split
  · exact hmoves.tail (.queue_control _)
  · exact hmoves.tail (.remove_control _)

theorem usnet_add_control_list_outcome (s : Conn) : Outcome s (usnet_add_control_list s) := by
  unfold usnet_add_control_list
  simp only
  split
  · rename_i hlt
    exact ((usnet_send_control_packet_fails hlt).moves.tail (.queue_control _)).outcome
  · rcases usnet_send_control_packet_outcome s with hmoves | hrel
    · exact (hmoves.tail (.remove_control _)).outcome
    · exact Outcome.quiet (.inr hrel) hrel.remove_control

/-- The buffer the loop works on carries the `fd` of the connection's own. -/
def SameFd (s : Conn) (buf : UsnSendbuf) : Prop :=
  s.tcb.sndvar.sndbuf.map UsnSendbuf.fd = some buf.fd

/-- A turn of the send loop. -/
theorem flush_turn_packets {s : Conn} {buf : UsnSendbuf} {maxlen window head tail : UInt32}
    {packets : Int} {turn : FlushTurn} (hbuf : SameFd s buf)
    (h : flush_turn s buf maxlen window head tail packets = .ok turn) :
    (∃ r s', turn = .stop r s' ∧ Packets s s') ∨
    ∃ s' buf' head', turn = .again s' buf' head' ∧ Packets s s' ∧ SameFd s' buf' := by
  unfold flush_turn at h
  simp only at h
  generalize flush_len buf maxlen (buffered buf.size head tail) = len at h
  by_cases hseq : TCP_SEQ_LT s.tcb.snd_nxt buf.head_seq
  · rw [if_pos hseq] at h
    cases h
  rw [if_neg hseq] at h
  split at h
  · exact .inl ⟨_, _, (Except.ok.inj h).symm, .refl⟩
  split at h
  · exact .inl ⟨_, _, (Except.ok.inj h).symm, .refl⟩
  split at h
  · obtain rfl := Except.ok.inj h
    unfold no_window
    split
    · exact .inl ⟨_, _, rfl, usnet_enqueue_ack_packets s .wack⟩
    · exact .inl ⟨_, _, rfl, .refl⟩
  · obtain rfl := Except.ok.inj h
    unfold send_turn
    simp only
    generalize slice buf.data_ptr head.toNat len.toNat = data
    have hsend := usnet_send_tcp_packet_packets s TH_ACK data
    have hkept := (usnet_send_tcp_packet_kept s TH_ACK data).1
    split
    · exact .inl ⟨_, _, rfl, hsend⟩
    · refine .inr ⟨_, _, _, rfl, hsend.trans (.quiet (Conn.links_onSnd _ ⟨rfl, rfl, rfl, ?_⟩)), rfl⟩
      simp only [hkept]
      exact hbuf.symm

theorem flush_loop_packets {maxlen window tail : UInt32} :
    ∀ (fuel : Nat) {s s' : Conn} {buf : UsnSendbuf} {head : UInt32} {packets r : Int},
      SameFd s buf → flush_loop maxlen window tail fuel s buf head packets = .ok (r, s') →
      Packets s s'
  | 0, _, _, _, _, _, _, _, h => by cases h
  | fuel + 1, s, s', buf, head, packets, r, hbuf, h => by
    unfold flush_loop at h
    cases hturn : flush_turn s buf maxlen window head tail packets with
    | error e =>
      rw [hturn] at h
      cases h
    | ok turn =>
      rw [hturn] at h
      rcases flush_turn_packets hbuf hturn with ⟨r₁, s₁, rfl, hm⟩ | ⟨s₁, buf₁, head₁, rfl, hm, hb⟩
      · obtain ⟨-, rfl⟩ := Prod.mk.inj (Except.ok.inj h)
        exact hm
      · exact hm.trans (flush_loop_packets fuel hb h)

theorem usnet_flush_tcp_sendbuf_packets {s s' : Conn} {r : Int}
    (h : usnet_flush_tcp_sendbuf s = .ok (r, s')) : Packets s s' := by
  unfold usnet_flush_tcp_sendbuf at h
  cases hbuf : s.tcb.sndvar.sndbuf with
  | none =>
    rw [hbuf] at h
    cases h
  | some buf =>
    rw [hbuf] at h
    simp only at h
    split at h
    · obtain ⟨-, rfl⟩ := Prod.mk.inj (Except.ok.inj h)
      exact .refl
    · refine flush_loop_packets _ ?_ h
      rw [SameFd, hbuf]
      rfl

/-! ## Section 4: Timers and acknowledgements -/

theorem usnet_update_retransmission_timer_moves {s s' : Conn}
    (h : usnet_update_retransmission_timer s = .ok s') : Moves s s' := by
  unfold usnet_update_retransmission_timer at h
  by_cases hrto : s.tcb.sndvar.rto = 0
  · rw [if_pos hrto] at h
    cases h
  rw [if_neg hrto] at h
  simp only at h
  generalize ht : s.onSnd (fun v => { v with nrtx := 0 }) = t at h
  have hst : Moves s t := by
    rw [← ht]
    exact .quiet rfl
  have hrem : Moves t (if t.tcb.on_rto_idx ≥ 0 then usnet_remove_rto_list t else t) := by
    split
    · exact .one (.remove_rto t)
    · exact .refl
  generalize (if t.tcb.on_rto_idx ≥ 0 then usnet_remove_rto_list t else t) = u at h hrem
  split at h
  · obtain rfl := Except.ok.inj h
    refine (hst.trans hrem).trans (.tail (.quiet ?_) (.packet (.add_rto _)))
    rfl
  · obtain rfl := Except.ok.inj h
    exact hst.trans hrem

theorem give_up_outcome (s : Conn) : Outcome s (give_up s) := by
  have hclosed : ∀ reason, Moves s
      (s.onTcb fun t => { t with state := .closed, close_reason := reason }) := fun _ => .quiet rfl
  unfold give_up
  split
  · exact (hclosed _).then (released _)
  · simp only
    split
    · exact ((hclosed _).trans (raise_moves _ _)).outcome
    · exact (hclosed _).then (released _)

theorem back_off_links (s : Conn) : (back_off s).links = s.links := by
  unfold back_off
  simp only
  refine (Conn.links_onSnd _ ⟨rfl, rfl, rfl, rfl⟩).trans ((Conn.links_onSnd _ ?_).trans
    ((Conn.links_onSnd _ ⟨rfl, rfl, rfl, rfl⟩).trans (Conn.links_onSnd _ ⟨rfl, rfl, rfl, rfl⟩)))
  split
  · exact ⟨rfl, rfl, rfl, rfl⟩
  · exact ⟨rfl, rfl, rfl, rfl⟩

theorem retransmit_outcome (s : Conn) : Outcome s (retransmit s) := by
  unfold retransmit
  simp only
  generalize ht : s.onTcb (fun t => { t with snd_nxt := t.sndvar.snd_una }) = t
  have hst : Moves s t := by
    rw [← ht]
    exact .quiet rfl
  refine hst.then ?_
  have hclose : Outcome t
      (if TCP_SEQ_LT t.tcb.snd_nxt t.tcb.sndvar.fss then
        usnet_add_send_list <|
          (usnet_remove_control_list t).onTcb fun t => { t with control_list_waiting := true }
      else usnet_add_control_list t) := by
    split
    · refine Moves.outcome (.tail (.trans (.one (.remove_control t)) (.quiet ?_)) (.add_send _))
      rfl
    · exact usnet_add_control_list_outcome t
  cases t.tcb.state with
  | established => exact (Moves.one (.add_send t)).outcome
  | close_wait => exact (Moves.one (.add_send t)).outcome
  | fin_wait_1 => exact hclose
  | closing => exact hclose
  | last_ack => exact hclose
  | _ => exact usnet_add_control_list_outcome t

theorem usnet_handle_rto_outcome {s s' : Conn} {r : Int}
    (h : usnet_handle_rto s = .ok (r, s')) : Outcome s s' := by
  unfold usnet_handle_rto at h
  split at h
  · cases h
  split at h
  · obtain ⟨-, rfl⟩ := Prod.mk.inj (Except.ok.inj h)
    exact give_up_outcome s
  simp only at h
  generalize ht : back_off s = t at h
  have hst : Moves s t := by
    rw [← ht]
    exact .quiet (back_off_links s)
  refine hst.then ?_
  have hsyn : ∀ u, Moves t u → Outcome t
      (if u.tcb.socket.isSome then usnet_raise_error_event u else usnet_release_tcb u) := by
    intro u hu
    split
    · exact (hu.trans (raise_moves _ _)).outcome
    · exact hu.then (released u)
  -- in SYN_SENT it may give up at once, in the states without data it releases
  cases hstate : t.tcb.state with
  | syn_sent =>
    rw [hstate] at h
    simp only at h
    split at h
    · obtain ⟨-, rfl⟩ := Prod.mk.inj (Except.ok.inj h)
      exact hsyn _ (.quiet rfl)
    · obtain ⟨-, rfl⟩ := Prod.mk.inj (Except.ok.inj h)
      exact retransmit_outcome t
  | closed | listen | fin_wait_2 | time_wait =>
    rw [hstate] at h
    obtain ⟨-, rfl⟩ := Prod.mk.inj (Except.ok.inj h)
    exact (raise_moves _ _).then (released _)
  | _ =>
    rw [hstate] at h
    obtain ⟨-, rfl⟩ := Prod.mk.inj (Except.ok.inj h)
    exact retransmit_outcome t

theorem usnet_estimate_rtt_moves (s : Conn) (mrtt : UInt32) :
    Moves s (usnet_estimate_rtt s mrtt) := by
  unfold usnet_estimate_rtt
  simp only
  split
  · split
    · exact .quiet rfl
    · exact .quiet rfl
  · exact .quiet rfl

theorem update_window_moves (s : Conn) (seg : Segment) (ack_seq : UInt32) :
    Moves s (update_window s seg ack_seq) := by
  unfold update_window
  simp only
  split
  · have hset : Moves s ((s.onSnd fun v => { v with peer_wnd := cwindow s.tcb seg }).onRcv
        fun v => { v with snd_wl1 := seg.seq, snd_wl2 := ack_seq }) := .quiet rfl
    split
    · exact hset.trans (raise_moves _ _)
    · exact hset
  · exact .refl

theorem check_dup_moves (s : Conn) (seg : Segment) (ack_seq edge : UInt32) :
    Moves s (check_dup s seg ack_seq edge).2 := by
  unfold check_dup
  split
  · exact .quiet rfl
  · exact .quiet rfl

theorem fast_retransmit_moves (s : Conn) (ack_seq : UInt32) (dup : Bool) :
    Moves s (fast_retransmit s ack_seq dup) := by
  rcases fast_retransmit_cases s ack_seq dup with
    ⟨u, cwnd, ssthresh, nrtx, hu, heq⟩ | ⟨cwnd, heq⟩
  · have hset : Moves s u := by
      rcases hu with rfl | rfl
      · exact .refl
      · exact .quiet rfl
    rw [heq]
    refine hset.trans (.tail (.quiet ?_) (.add_send _))
    rfl
  · rw [heq]
    exact .quiet rfl

theorem forward_nxt_moves (s : Conn) (buf : UsnSendbuf) (ack_seq : UInt32) :
    Moves s (forward_nxt s buf ack_seq) := by
  unfold forward_nxt
  split
  · have hset : Moves s (s.onTcb fun t => { t with snd_nxt := ack_seq }) := .quiet rfl
    simp only
    split
    · exact hset.tail (.remove_send _)
    · exact hset
  · exact .refl

theorem update_rto_moves {s s' : Conn} (h : update_rto s = .ok s') : Moves s s' := by
  unfold update_rto at h
  simp only at h
  split at h
  · split at h
    · cases h
    · obtain rfl := Except.ok.inj h
      have hrtt := usnet_estimate_rtt_moves s (s.ctx.cur_time - s.tcb.rcvvar.ts_lastack_rcvd)
      exact hrtt.trans (.quiet rfl)
  · obtain rfl := Except.ok.inj h
    exact .refl

theorem update_cwnd_moves {s s' : Conn} {packets : UInt16}
    (h : update_cwnd s packets = .ok s') : Moves s s' := by
  unfold update_cwnd at h
  simp only at h
  split at h
  · split at h
    · obtain rfl := Except.ok.inj h
      exact .quiet rfl
    · split at h
      · cases h
      · obtain rfl := Except.ok.inj h
        exact .quiet rfl
  · obtain rfl := Except.ok.inj h
    exact .refl

theorem usnet_remove_data_fd (buf : UsnSendbuf) (len : Int) :
    (usnet_remove_data buf len).2.fd = buf.fd := by
  unfold usnet_remove_data
  simp only
  split
  · split <;> rfl
  · split <;> rfl

theorem remove_acked_moves {s s' : Conn} {buf : UsnSendbuf} {ack_seq : UInt32}
    (hbuf : SameFd s buf) (h : remove_acked s buf ack_seq = .ok s') : Moves s s' := by
  unfold remove_acked at h
  simp only at h
  generalize hr : (usnet_remove_data buf (sint (ack_seq - buf.head_seq))).2 = buf' at h
  have hfd : buf'.fd = buf.fd := by
    rw [← hr]
    exact usnet_remove_data_fd _ _
  generalize hu : s.onSnd (fun v => { v with
    sndbuf := some buf', snd_una := ack_seq, snd_wnd := buf'.size - buf'.len }) = u at h
  have hsu : Moves s u := by
    rw [← hu]
    refine .quiet (Conn.links_onSnd _ ⟨rfl, rfl, rfl, ?_⟩)
    rw [SameFd] at hbuf
    rw [hbuf, ← hfd]
    rfl
  have huv : Moves u (if s.tcb.sndvar.snd_wnd = 0 then usnet_raise_write_event u else u) := by
    split
    · exact raise_moves _ _
    · exact .refl
  exact (hsu.trans huv).trans (usnet_update_retransmission_timer_moves h)

theorem ack_data_moves {s s' : Conn} {buf : UsnSendbuf} {ack_seq : UInt32} {r : Int}
    (hbuf : SameFd s buf) (h : ack_data s buf ack_seq = .ok (r, s')) : Moves s s' := by
  unfold ack_data at h
  simp only at h
  split at h
  · cases h
  cases hrto : update_rto s with
  | error e => simp [hrto, bind, Except.bind] at h
  | ok s₁ =>
    cases hcwnd : update_cwnd s₁ (acked_packets s (ack_seq - buf.head_seq)) with
    | error e => simp [hrto, hcwnd, bind, Except.bind] at h
    | ok s₂ =>
      cases hrem : remove_acked s₂ buf ack_seq with
      | error e => simp [hrto, hcwnd, hrem, bind, Except.bind] at h
      | ok s₃ =>
        simp only [hrto, hcwnd, hrem, bind, Except.bind, pure, Except.pure] at h
        obtain ⟨-, rfl⟩ := Prod.mk.inj (Except.ok.inj h)
        have hb₁ := (update_rto_kept hrto).2.1.2.2
        have hb₂ := (update_cwnd_kept hcwnd).2.1.2.2
        have hbuf₂ : SameFd s₂ buf := by
          rw [SameFd, hb₂, hb₁]
          exact hbuf
        exact ((update_rto_moves hrto).trans (update_cwnd_moves hcwnd)).trans
          (remove_acked_moves hbuf₂ hrem)

theorem usnet_process_ack_moves {s s' : Conn} {buf : UsnSendbuf} {seg : Segment} {r : Int}
    (hbuf : s.tcb.sndvar.sndbuf = some buf) (h : usnet_process_ack s buf seg = .ok (r, s')) :
    Moves s s' := by
  unfold usnet_process_ack at h
  simp only at h
  split at h
  · obtain ⟨-, rfl⟩ := Prod.mk.inj (Except.ok.inj h)
    exact .refl
  unfold process_valid_ack at h
  simp only at h
  -- part by part; the send buffer stays the connection's own throughout
  generalize counted_ack s seg.ack_seq = ack_seq at h
  generalize hs₁ : s.onCtx (fun c => { c with applied := c.applied ++ [.ack] }) = s₁ at h
  have h₁ : Moves s s₁ := by
    rw [← hs₁]
    exact .quiet rfl
  have hb₁ : s₁.tcb.sndvar.sndbuf = some buf := by
    rw [← hs₁]
    exact hbuf
  have h₂ := update_window_moves s₁ seg ack_seq
  have hk₂ := update_window_kept s₁ seg ack_seq
  generalize update_window s₁ seg ack_seq = s₂ at h h₂ hk₂
  generalize s₁.tcb.sndvar.peer_wnd + s₁.tcb.rcvvar.snd_wl2 = edge at h
  have h₃ := check_dup_moves s₂ seg ack_seq edge
  have hk₃ := check_dup_kept s₂ seg ack_seq edge
  generalize check_dup s₂ seg ack_seq edge = d at h h₃ hk₃
  have h₄ := fast_retransmit_moves d.2 ack_seq d.1
  have hk₄ := fast_retransmit_kept d.2 ack_seq d.1
  generalize fast_retransmit d.2 ack_seq d.1 = s₄ at h h₄ hk₄
  have h₅ := forward_nxt_moves s₄ buf ack_seq
  have hk₅ := forward_nxt_kept s₄ buf ack_seq
  generalize forward_nxt s₄ buf ack_seq = s₅ at h h₅ hk₅
  have h₁₅ : Moves s s₅ := ((h₁.trans h₂).trans h₃).trans (h₄.trans h₅)
  have hb₅ : SameFd s₅ buf := by
    rw [SameFd, hk₅.2.2.1, hk₄.2.2.1, hk₃.2.1.2.2, hk₂.2.1.2.2, hb₁]
    rfl
  split at h
  · obtain ⟨-, rfl⟩ := Prod.mk.inj (Except.ok.inj h)
    exact h₁₅
  · exact h₁₅.trans (ack_data_moves hb₅ h)

/-! ## Section 5: Input -/

theorem store_payload_moves {s s' : Conn} {buf : UsnRingbuf} {seg : Segment} {r : Int}
    (h : store_payload s buf seg = .ok (r, s')) : Moves s s' := by
  unfold store_payload at h
  simp only at h
  split at h
  · cases h
  · rename_i r' buf' hins
    have hset : Moves s (((s.onCtx fun c => { c with applied := c.applied ++ [.payload] }).onTcb
        fun t => { t with rcv_nxt := buf'.head_seq }).onRcv
        fun v => { v with rcvbuf := some buf', rcv_wnd := buf'.win }) := .quiet rfl
    split at h
    · obtain ⟨-, rfl⟩ := Prod.mk.inj (Except.ok.inj h)
      exact hset
    · split at h
      · obtain ⟨-, rfl⟩ := Prod.mk.inj (Except.ok.inj h)
        exact hset.trans (raise_moves _ _)
      · obtain ⟨-, rfl⟩ := Prod.mk.inj (Except.ok.inj h)
        exact hset

theorem usnet_process_tcp_payload_moves {s s' : Conn} {seg : Segment} {r : Int}
    (h : usnet_process_tcp_payload s seg = .ok (r, s')) : Moves s s' := by
  unfold usnet_process_tcp_payload at h
  split at h
  · obtain ⟨-, rfl⟩ := Prod.mk.inj (Except.ok.inj h)
    exact .refl
  split at h
  · obtain ⟨-, rfl⟩ := Prod.mk.inj (Except.ok.inj h)
    exact .refl
  split at h
  · obtain ⟨-, rfl⟩ := Prod.mk.inj (Except.ok.inj h)
    have hset : Moves s (s.onTcb fun t => { t with state := .closed, close_reason := .no_mem }) :=
      .quiet rfl
    exact hset.trans (raise_moves _ _)
  · exact store_payload_moves h

theorem handle_payload_moves {s s' : Conn} {seg : Segment} {stored refused : AckOpt}
    (h : handle_payload s seg stored refused = .ok s') : Moves s s' := by
  unfold handle_payload at h
  split at h
  · split at h
    · cases h
    · rename_i ret t hpay
      obtain rfl := Except.ok.inj h
      exact (usnet_process_tcp_payload_moves hpay).trans (usnet_enqueue_ack_moves _ _)
  · obtain rfl := Except.ok.inj h
    exact .refl

theorem process_ack_if_buffered_moves {s s' : Conn} {seg : Segment}
    (h : process_ack_if_buffered s seg = .ok s') : Moves s s' := by
  unfold process_ack_if_buffered at h
  split at h
  · obtain rfl := Except.ok.inj h
    exact .refl
  · rename_i buf hbuf
    split at h
    · cases h
    · rename_i r t hack
      obtain rfl := Except.ok.inj h
      exact usnet_process_ack_moves hbuf hack

theorem validate_timestamp_moves {s s' : Conn} {seg : Segment} {r : Int}
    (h : validate_timestamp s seg = .ok (r, s')) : Moves s s' := by
  unfold validate_timestamp at h
  split at h
  · split at h
    · cases h
    · obtain ⟨-, rfl⟩ := Prod.mk.inj (Except.ok.inj h)
      exact .refl
    · split at h
      · obtain ⟨-, rfl⟩ := Prod.mk.inj (Except.ok.inj h)
        exact usnet_enqueue_ack_moves s .now
      · obtain ⟨-, rfl⟩ := Prod.mk.inj (Except.ok.inj h)
        exact .quiet rfl
  · obtain ⟨-, rfl⟩ := Prod.mk.inj (Except.ok.inj h)
    exact .refl

theorem usnet_add_timewait_list_state {s s' : Conn} (h : usnet_add_timewait_list s = .ok s') :
    s'.tcb.state = s.tcb.state := by
  unfold usnet_add_timewait_list at h
  simp only at h
  split at h
  · obtain rfl := Except.ok.inj h
    rfl
  · split at h
    · cases h
    · obtain rfl := Except.ok.inj h
      rfl

/-- Only a connection that is not closed has its sequence numbers checked. -/
theorem reject_seq_moves {s s' : Conn} {seg : Segment} {r : Int} (hst : s.tcb.state ≠ .closed)
    (h : reject_seq s seg = .ok (r, s')) : Moves s s' := by
  unfold reject_seq at h
  split at h
  · obtain ⟨-, rfl⟩ := Prod.mk.inj (Except.ok.inj h)
    exact .refl
  split at h
  · split at h
    · obtain ⟨-, rfl⟩ := Prod.mk.inj (Except.ok.inj h)
      exact usnet_enqueue_ack_moves s .aggregate
    · split at h
      · obtain ⟨-, rfl⟩ := Prod.mk.inj (Except.ok.inj h)
        exact usnet_enqueue_ack_moves s .aggregate
      · obtain ⟨-, rfl⟩ := Prod.mk.inj (Except.ok.inj h)
        exact usnet_enqueue_ack_moves s .now
  split at h
  · split at h
    · cases h
    · rename_i t htw
      obtain ⟨-, rfl⟩ := Prod.mk.inj (Except.ok.inj h)
      have hst' : t.tcb.state ≠ .closed := by
        rw [usnet_add_timewait_list_state htw]
        exact hst
      exact (Moves.one (.add_timewait htw)).trans (usnet_add_control_list_moves hst')
  · obtain ⟨-, rfl⟩ := Prod.mk.inj (Except.ok.inj h)
    exact usnet_add_control_list_moves hst

theorem usnet_validate_seq_moves {s s' : Conn} {seg : Segment} {r : Int}
    (hst : s.tcb.state ≠ .closed) (h : usnet_validate_seq s seg = .ok (r, s')) : Moves s s' := by
  unfold usnet_validate_seq at h
  split at h
  · cases h
  · rename_i r₁ t hts
    have hm := validate_timestamp_moves hts
    split at h
    · obtain ⟨-, rfl⟩ := Prod.mk.inj (Except.ok.inj h)
      exact hm
    split at h
    · obtain ⟨-, rfl⟩ := Prod.mk.inj (Except.ok.inj h)
      exact hm
    · have hst' : t.tcb.state ≠ .closed := by
        have hq := validate_timestamp_quiet hts
        simpa [hq] using hst
      exact hm.trans (reject_seq_moves hst' h)

theorem check_segment_moves {s s' : Conn} {seg : Segment} {r : Int}
    (h : check_segment s seg = .ok (r, s')) : Moves s s' := by
  unfold check_segment at h
  split at h
  · rename_i hst
    refine usnet_validate_seq_moves (fun hc => ?_) h
    rw [hc] at hst
    exact absurd hst (by decide)
  · obtain ⟨-, rfl⟩ := Prod.mk.inj (Except.ok.inj h)
    exact .refl

theorem usnet_handle_syn_sent_outcome (s : Conn) (seg : Segment) :
    Outcome s (usnet_handle_syn_sent s seg) := by
  unfold usnet_handle_syn_sent
  split
  · split
    · exact Moves.refl.outcome
    · have hreply : Moves s (s.onCtx fun c => reply_rst c seg seg.ack_seq 0 TH_RST) := by
        refine .quiet ?_
        unfold reply_rst usnet_send_tcp_packet_alone
        simp only [usnet_ipv4_output_ctx, Conn.links, Conn.onCtx_ctx, Conn.onCtx_tcb]
        split
        · rfl
        · split <;> rfl
      exact hreply.outcome
  · simp only
    generalize ht : (if seg.has TH_ACK then s.onSnd fun v => { v with snd_una := v.snd_una + 1 }
      else s) = t
    have hst : Moves s t := by
      rw [← ht]
      split
      · exact .quiet rfl
      · exact .refl
    refine hst.then ?_
    split
    · split
      · have hset : Moves t (t.onTcb fun t => { t with state := .close_wait, close_reason := .reset }) :=
          .quiet rfl
        split
        · exact (hset.trans (raise_moves _ _)).outcome
        · exact hset.then (released _)
      · exact Moves.refl.outcome
    · split
      · have hset : Moves t (t.onTcb fun t =>
            { t with state := .syn_received, snd_nxt := t.sndvar.iss }) := .quiet rfl
        exact hset.then (usnet_add_control_list_outcome _)
      · exact Moves.refl.outcome

/-- A connection goes on the timeout list right after its segment was noted. -/
theorem establish_moves {s s' : Conn} {seg : Segment}
    (hfresh : s.tcb.last_active_ts = s.ctx.cur_time) (h : establish s seg = .ok s') :
    Moves s s' := by
  unfold establish at h
  simp only at h
  generalize hu : (s.onSnd fun v =>
    { v with
      snd_una := v.snd_una + 1
      cwnd := if v.cwnd = 1 then v.mss.toUInt32 * 2 else v.mss.toUInt32
      nrtx := 0 }).onTcb (fun t => { t with snd_nxt := seg.ack_seq }) = u at h
  have hlinks : u.links = s.links := by
    rw [← hu]
    rfl
  have hfresh' : (usnet_remove_rto_list u).tcb.last_active_ts
      = (usnet_remove_rto_list u).ctx.cur_time := by
    have hact := congrArg Links.last_active_ts hlinks
    have hcur := congrArg Links.cur_time hlinks
    unfold usnet_remove_rto_list
    split <;> exact hact.trans (hfresh.trans hcur.symm)
  have hmoves : Moves s ((usnet_remove_rto_list u).onTcb fun t => { t with state := .established }) :=
    ((Moves.quiet hlinks).tail (.remove_rto u)).trans (.quiet rfl)
  split at h
  · rename_i hpos
    exact hmoves.tail (.add_timeout hpos hfresh' h)
  · obtain rfl := Except.ok.inj h
    exact hmoves

theorem usnet_handle_syn_received_moves {s s' : Conn} {seg : Segment}
    (hst : s.tcb.state = .syn_received) (hfresh : s.tcb.last_active_ts = s.ctx.cur_time)
    (h : usnet_handle_syn_received s seg = .ok s') : Moves s s' := by
  unfold usnet_handle_syn_received at h
  split at h
  · split at h
    · obtain rfl := Except.ok.inj h
      exact .refl
    · exact establish_moves hfresh h
  · obtain rfl := Except.ok.inj h
    have hset : Moves s (s.onTcb fun t => { t with snd_nxt := t.sndvar.iss }) := .quiet rfl
    refine hset.trans (usnet_add_control_list_moves ?_)
    show s.tcb.state ≠ .closed
    rw [hst]
    decide

theorem established_ack_moves {s s' : Conn} {seg : Segment}
    (h : established_ack s seg = .ok s') : Moves s s' := by
  unfold established_ack at h
  split at h
  · exact process_ack_if_buffered_moves h
  · obtain rfl := Except.ok.inj h
    exact .refl

theorem established_fin_moves (s : Conn) (seg : Segment) : Moves s (established_fin s seg) := by
  unfold established_fin
  split
  · split
    · have hset : Moves s (s.onTcb fun t =>
          { t with state := .close_wait, rcv_nxt := t.rcv_nxt + 1 }) := .quiet rfl
      exact (hset.trans (usnet_add_control_list_moves (by simp))).trans (raise_moves _ _)
    · exact usnet_enqueue_ack_moves s .now
  · exact .refl

theorem usnet_handle_established_moves {s s' : Conn} {seg : Segment}
    (hst : s.tcb.state = .established) (h : usnet_handle_established s seg = .ok s') :
    Moves s s' := by
  unfold usnet_handle_established at h
  split at h
  · obtain rfl := Except.ok.inj h
    have hset : Moves s (s.onTcb fun t => { t with snd_nxt := seg.ack_seq }) := .quiet rfl
    refine hset.trans (usnet_add_control_list_moves ?_)
    show s.tcb.state ≠ .closed
    rw [hst]
    decide
  · cases hpay : handle_payload s seg .aggregate .now with
    | error e => simp [hpay, bind, Except.bind] at h
    | ok s₁ =>
      cases hack : established_ack s₁ seg with
      | error e => simp [hpay, hack, bind, Except.bind] at h
      | ok s₂ =>
        simp only [hpay, hack, bind, Except.bind, pure, Except.pure] at h
        obtain rfl := Except.ok.inj h
        exact ((handle_payload_moves hpay).trans (established_ack_moves hack)).trans
          (established_fin_moves s₂ seg)

theorem usnet_handle_close_wait_outcome {s s' : Conn} {seg : Segment}
    (h : usnet_handle_close_wait s seg = .ok s') : Outcome s s' := by
  unfold usnet_handle_close_wait at h
  split at h
  · obtain rfl := Except.ok.inj h
    exact usnet_add_control_list_outcome s
  · exact (process_ack_if_buffered_moves h).outcome

theorem fin_acked_moves (s : Conn) (seg : Segment) : Moves s (fin_acked s seg) := by
  unfold fin_acked
  split
  · simp only
    generalize ht : (s.onSnd fun v => { v with snd_una := seg.ack_seq, nrtx := 0 }).onTcb (fun t =>
      { t with snd_nxt := if TCP_SEQ_GT seg.ack_seq t.snd_nxt then seg.ack_seq
          else t.snd_nxt }) = t
    have hst : Moves s t := by
      rw [← ht]
      exact .quiet rfl
    exact (hst.tail (.remove_rto t)).trans (.quiet rfl)
  · exact .refl

theorem fin_wait1_fin_outcome {s s' : Conn} {seg : Segment}
    (h : fin_wait1_fin s seg = .ok s') : Outcome s s' := by
  unfold fin_wait1_fin at h
  split at h
  · simp only at h
    generalize ht : s.onTcb (fun t => { t with rcv_nxt := t.rcv_nxt + 1 }) = t at h
    have hst : Moves s t := by
      rw [← ht]
      exact .quiet rfl
    refine hst.then ?_
    cases hstate : t.tcb.state with
    | fin_wait_1 =>
      rw [hstate] at h
      obtain rfl := Except.ok.inj h
      have hset : Moves t (t.onTcb fun t => { t with state := .closing }) := .quiet rfl
      exact hset.then (usnet_add_control_list_outcome _)
    | fin_wait_2 =>
      rw [hstate] at h
      simp only [bind, Except.bind] at h
      split at h
      · cases h
      · rename_i u htw
        obtain rfl := Except.ok.inj h
        have hset : Moves t (t.onTcb fun t => { t with state := .time_wait }) := .quiet rfl
        exact (hset.tail (.add_timewait htw)).then (usnet_add_control_list_outcome _)
    | _ =>
      rw [hstate] at h
      obtain rfl := Except.ok.inj h
      exact usnet_add_control_list_outcome t
  · obtain rfl := Except.ok.inj h
    exact Moves.refl.outcome

theorem usnet_handle_fin_wait1_outcome {s s' : Conn} {seg : Segment}
    (h : usnet_handle_fin_wait1 s seg = .ok s') : Outcome s s' := by
  unfold usnet_handle_fin_wait1 at h
  split at h
  · obtain rfl := Except.ok.inj h
    exact usnet_add_control_list_outcome s
  split at h
  · simp only [bind, Except.bind] at h
    split at h
    · cases h
    rename_i s₁ hack
    split at h
    · cases h
    rename_i s₂ hpay
    exact (((process_ack_if_buffered_moves hack).trans (fin_acked_moves s₁ seg)).trans
      (handle_payload_moves hpay)).then (fin_wait1_fin_outcome h)
  · obtain rfl := Except.ok.inj h
    exact Moves.refl.outcome

theorem usnet_handle_closing_moves {s s' : Conn} {seg : Segment}
    (h : usnet_handle_closing s seg = .ok s') : Moves s s' := by
  unfold usnet_handle_closing at h
  split at h
  · simp only [bind, Except.bind, pure, Except.pure] at h
    split at h
    · cases h
    rename_i s₁ hack
    have h₁ := process_ack_if_buffered_moves hack
    split at h
    · obtain rfl := Except.ok.inj h
      exact h₁
    split at h
    · obtain rfl := Except.ok.inj h
      exact h₁
    split at h
    · cases h
    rename_i s₂ htimer
    have hset : Moves s₁ ((s₁.onSnd fun v => { v with snd_una := seg.ack_seq }).onTcb
        fun t => { t with snd_nxt := seg.ack_seq }) := .quiet rfl
    have h₂ := (h₁.trans hset).trans (usnet_update_retransmission_timer_moves htimer)
    have hset₂ : Moves s₂ (s₂.onTcb fun t => { t with state := .time_wait }) := .quiet rfl
    exact (h₂.trans hset₂).tail (.add_timewait h)
  · obtain rfl := Except.ok.inj h
    exact .refl

theorem usnet_handle_last_ack_outcome {s s' : Conn} {seg : Segment}
    (h : usnet_handle_last_ack s seg = .ok s') : Outcome s s' := by
  unfold usnet_handle_last_ack at h
  split at h
  · obtain rfl := Except.ok.inj h
    exact Moves.refl.outcome
  split at h
  · simp only [bind, Except.bind, pure, Except.pure] at h
    split at h
    · cases h
    rename_i s₁ hack
    have h₁ := process_ack_if_buffered_moves hack
    split at h
    · obtain rfl := Except.ok.inj h
      exact h₁.outcome
    split at h
    · split at h
      · cases h
      rename_i s₂ htimer
      obtain rfl := Except.ok.inj h
      have hset : Moves s₁ (s₁.onSnd fun v => { v with snd_una := v.snd_una + 1 }) := .quiet rfl
      have hset₂ : Moves s₂ (s₂.onTcb fun t =>
          { t with state := .closed, close_reason := .passive_close }) := .quiet rfl
      exact (((h₁.trans hset).trans (usnet_update_retransmission_timer_moves htimer)).trans
        hset₂).then (released _)
    · obtain rfl := Except.ok.inj h
      exact h₁.then (usnet_add_control_list_outcome _)
  · obtain rfl := Except.ok.inj h
    exact usnet_add_control_list_outcome s

theorem usnet_handle_fin_wait2_outcome {s s' : Conn} {seg : Segment}
    (h : usnet_handle_fin_wait2 s seg = .ok s') : Outcome s s' := by
  unfold usnet_handle_fin_wait2 at h
  split at h
  · simp only [bind, Except.bind, pure, Except.pure] at h
    split at h
    · cases h
    rename_i s₁ hack
    split at h
    · cases h
    rename_i s₂ hpay
    have h₂ := (process_ack_if_buffered_moves hack).trans (handle_payload_moves hpay)
    split at h
    · split at h
      · cases h
      rename_i s₃ htw
      obtain rfl := Except.ok.inj h
      have hset : Moves s₂ (s₂.onTcb fun t =>
          { t with state := .time_wait, rcv_nxt := t.rcv_nxt + 1 }) := .quiet rfl
      exact ((h₂.trans hset).tail (.add_timewait htw)).then (usnet_add_control_list_outcome _)
    · obtain rfl := Except.ok.inj h
      exact h₂.outcome
  · obtain rfl := Except.ok.inj h
    exact Moves.refl.outcome

theorem usnet_handle_time_wait_outcome {s s' : Conn}
    (h : usnet_handle_time_wait s = .ok s') : Outcome s s' := by
  unfold usnet_handle_time_wait at h
  split at h
  · rename_i hon
    simp only [bind, Except.bind, pure, Except.pure] at h
    split at h
    · cases h
    rename_i s₁ hrem
    split at h
    · cases h
    rename_i s₂ hadd
    obtain rfl := Except.ok.inj h
    unfold usnet_remove_timewait_list at hrem
    rw [if_pos hon] at hrem
    obtain rfl := Except.ok.inj hrem
    exact ((Moves.one (.unlink_timewait s hon)).tail (.add_timewait hadd)).then
      (usnet_add_control_list_outcome _)
  · obtain rfl := Except.ok.inj h
    exact usnet_add_control_list_outcome s

/-- The handlers, for a connection whose segment was just noted. -/
theorem handle_state_outcome {s s' : Conn} {seg : Segment}
    (hfresh : s.tcb.last_active_ts = s.ctx.cur_time) (h : handle_state s seg = .ok s') :
    Outcome s s' := by
  unfold handle_state at h
  -- one handler for each state
  cases hst : s.tcb.state with
  | listen =>
    rw [hst] at h
    obtain rfl := Except.ok.inj h
    unfold usnet_handle_listen
    split
    · have hset : Moves s (s.onTcb fun t =>
          { t with state := .syn_received, rcv_nxt := t.rcv_nxt + 1 }) := .quiet rfl
      exact (hset.trans (raise_moves _ _)).outcome
    · exact Moves.refl.outcome
  | syn_sent =>
    rw [hst] at h
    obtain rfl := Except.ok.inj h
    exact usnet_handle_syn_sent_outcome s seg
  | syn_received =>
    rw [hst] at h
    exact (usnet_handle_syn_received_moves hst hfresh h).outcome
  | established =>
    rw [hst] at h
    exact (usnet_handle_established_moves hst h).outcome
  | close_wait =>
    rw [hst] at h
    exact usnet_handle_close_wait_outcome h
  | fin_wait_1 =>
    rw [hst] at h
    exact usnet_handle_fin_wait1_outcome h
  | closing =>
    rw [hst] at h
    exact (usnet_handle_closing_moves h).outcome
  | last_ack =>
    rw [hst] at h
    exact usnet_handle_last_ack_outcome h
  | fin_wait_2 =>
    rw [hst] at h
    exact usnet_handle_fin_wait2_outcome h
  | time_wait =>
    rw [hst] at h
    exact usnet_handle_time_wait_outcome h
  | closed =>
    rw [hst] at h
    obtain rfl := Except.ok.inj h
    exact Moves.refl.outcome

theorem note_segment_moves (s : Conn) (seg : Segment) :
    Moves s (note_segment s seg) ∧
      (note_segment s seg).tcb.last_active_ts = (note_segment s seg).ctx.cur_time := by
  unfold note_segment
  simp only
  generalize ht : s.onSnd (fun v => { v with peer_wnd := if seg.has TH_SYN then seg.window.toUInt32
    else seg.window.toUInt32 <<< v.wscale.toUInt32 }) = t
  have hst : Moves s t := by
    rw [← ht]
    exact .quiet rfl
  refine ⟨hst.tail (.packet (.touch t)), ?_⟩
  unfold usnet_update_timeout_list
  split <;> rfl

/-- A reset ends in a closed connection where it releases the block. -/
theorem process_rst_outcome (s : Conn) (seg : Segment) :
    (Moves s (process_rst s seg).2 ∧
      (process_rst s seg).2.tcb.last_active_ts = s.tcb.last_active_ts ∧
      (process_rst s seg).2.ctx.cur_time = s.ctx.cur_time) ∨
    (Released s (process_rst s seg).2 ∧ (process_rst s seg).2.tcb.state = .closed) := by
  have hrel : ∀ reason, Released s (usnet_release_tcb
      ((s.onTcb fun t => { t with have_reset := true }).onTcb
        fun t => { t with state := .closed, close_reason := reason })) := by
    intro reason
    refine Moves.release (.quiet ?_)
    rfl
  have hset : Moves s (s.onTcb fun t => { t with have_reset := true }) := .quiet rfl
  unfold process_rst
  split
  · simp only
    split
    · unfold usnet_handle_rst
      cases hst : (s.onTcb fun t => { t with have_reset := true }).tcb.state with
      | closed | listen | syn_sent => exact .inl ⟨hset, rfl, rfl⟩
      | syn_received =>
        simp only
        split
        · exact .inr ⟨hrel _, by simp⟩
        · exact .inl ⟨hset, rfl, rfl⟩
      | established | close_wait =>
        simp only
        split
        · exact .inl ⟨hset, rfl, rfl⟩
        · refine .inl ⟨hset.trans (.trans (.quiet ?_) (raise_moves _ _)), rfl, rfl⟩
          rfl
      | _ => exact .inr ⟨hrel _, by simp⟩
    · exact .inl ⟨hset, rfl, rfl⟩
  · exact .inl ⟨.refl, rfl, rfl⟩

theorem input_segment_outcome {s s' : Conn} {seg : Segment} {r : Int}
    (h : input_segment s seg = .ok (r, s')) : Outcome s s' := by
  unfold input_segment at h
  cases hcheck : check_segment s seg with
  | error e => simp [hcheck, bind, Except.bind] at h
  | ok rt =>
    obtain ⟨ret, t⟩ := rt
    have ht := check_segment_moves hcheck
    obtain ⟨hnote, hfresh⟩ := note_segment_moves t seg
    simp only [hcheck, bind, Except.bind, pure, Except.pure] at h
    split at h
    · obtain ⟨-, rfl⟩ := Prod.mk.inj (Except.ok.inj h)
      exact ht.outcome
    refine (ht.trans hnote).then ?_
    have hrst := process_rst_outcome (note_segment t seg) seg
    split at h
    · obtain ⟨-, rfl⟩ := Prod.mk.inj (Except.ok.inj h)
      rcases hrst with ⟨hm, -⟩ | ⟨hrel, -⟩
      · exact hm.outcome
      · exact .inr hrel
    split at h
    · cases h
    rename_i u hstate
    obtain ⟨-, rfl⟩ := Prod.mk.inj (Except.ok.inj h)
    rcases hrst with ⟨hm, hact, hcur⟩ | ⟨hrel, hclosed⟩
    · exact hm.then (handle_state_outcome (hact.trans (hfresh.trans hcur.symm)) hstate)
    · unfold handle_state at hstate
      rw [hclosed] at hstate
      obtain rfl := Except.ok.inj hstate
      exact .inr hrel

/-! ## Section 6: The other events -/

/-- The control list as a connection sees it. -/
def Conn.controlQ (s : Conn) : Bool × List Nat × Int :=
  (s.tcb.sndvar.on_control_list, s.ctx.control_list, s.ctx.control_list_cnt)

/-- The send list. -/
def Conn.sendQ (s : Conn) : Bool × List Nat × Int :=
  (s.tcb.sndvar.on_send_list, s.ctx.send_list, s.ctx.send_list_cnt)

/-- A packet uses neither list. -/
theorem Packets.queues {s s' : Conn} (h : Packets s s') :
    s'.controlQ = s.controlQ ∧ s'.sendQ = s.sendQ := by
  induction h with
  | refl => exact ⟨rfl, rfl⟩
  | @tail t u _ hstep ih =>
    suffices hkeep : u.controlQ = t.controlQ ∧ u.sendQ = t.sendQ from
      ⟨hkeep.1.trans ih.1, hkeep.2.trans ih.2⟩
    cases hstep with
    | quiet h =>
      exact ⟨congrArg (fun l => (l.on_control_list, l.control_list, l.control_list_cnt)) h,
        congrArg (fun l => (l.on_send_list, l.send_list, l.send_list_cnt)) h⟩
    | touch =>
      unfold touch usnet_update_timeout_list
      split <;> exact ⟨rfl, rfl⟩
    | add_rto =>
      unfold usnet_add_rto_list
      simp only
      split
      · split
        · split <;> exact ⟨rfl, rfl⟩
        · exact ⟨rfl, rfl⟩
      · split
        · split <;> exact ⟨rfl, rfl⟩
        · exact ⟨rfl, rfl⟩
    | add_ack =>
      unfold usnet_add_ack_list
      split <;> exact ⟨rfl, rfl⟩
    | remove_ack =>
      unfold usnet_remove_ack_list
      split <;> exact ⟨rfl, rfl⟩

theorem send_acks_packets : ∀ (n : Nat) (s : Conn), Packets s (send_acks n s)
  | 0, _ => .refl
  | n + 1, s => by
    have hsend := usnet_send_tcp_packet_packets s TH_ACK []
    unfold send_acks
    simp only
    split
    · exact hsend
    · refine (hsend.trans (.quiet ?_)).trans (send_acks_packets n _)
      rfl

theorem send_wack_packets (s : Conn) : Packets s (send_wack s) := by
  unfold send_wack
  split
  · have hset : Packets s (s.onSnd fun v => { v with is_wack := false }) := .quiet rfl
    have hsend := hset.trans (usnet_send_tcp_packet_packets _ (TH_ACK ||| TH_WACK) [])
    simp only
    split
    · exact hsend.trans (.quiet rfl)
    · exact hsend
  · exact .refl

theorem send_waiting_outcome (s : Conn) (on_list : Bool) : Outcome s (send_waiting s on_list) := by
  unfold send_waiting
  split
  · have hset : Moves s (s.onTcb fun t => { t with control_list_waiting := false }) := .quiet rfl
    exact hset.then (usnet_add_control_list_outcome _)
  · exact Moves.refl.outcome

theorem ack_or_drop_packets (s : Conn) : Packets s (ack_or_drop s) := by
  unfold ack_or_drop
  split
  · have hsend := (send_acks_packets s.tcb.sndvar.ack_cnt.toNat s).trans (send_wack_packets _)
    simp only
    split
    · exact hsend
    · exact hsend.tail (.remove_ack _)
  · have hset : Packets s (s.onSnd fun v => { v with ack_cnt := 0, is_wack := false }) := .quiet rfl
    exact hset.tail (.remove_ack _)

theorem ack_visit_outcome {s : Conn} (h : s.tcb.sndvar.on_ack_list = true) :
    Outcome s (ack_visit s) := by
  unfold ack_visit
  rw [if_pos h]
  exact (ack_or_drop_packets s).moves.then (send_waiting_outcome _ _)

/-- A connection visited on the control list is taken off, and put back in front
    when its packet cannot be sent. -/
theorem control_visit_outcome {s : Conn} (h : s.tcb.sndvar.on_control_list = true) :
    Outcome s (control_visit s) := by
  have htake : usnet_remove_control_list s
      = (s.onCtx fun c => { c with
          control_list := c.control_list.erase s.tcb.id
          control_list_cnt := c.control_list_cnt - 1 }).onSnd
            fun v => { v with on_control_list := false } := by
    unfold usnet_remove_control_list
    rw [if_pos h]
    rfl
  have hoff : (usnet_remove_control_list s).tcb.sndvar.on_control_list = false := by
    rw [usnet_remove_control_list_tcb]
  unfold control_visit
  simp only [Conn.onCtx_tcb, h, if_true]
  rw [← htake]
  have hst : Moves s (usnet_remove_control_list s) := .one (.remove_control s)
  have hid : (usnet_remove_control_list s).tcb.id = s.tcb.id := by
    rw [usnet_remove_control_list_tcb]
  generalize usnet_remove_control_list s = t at hoff hst hid
  split
  · rename_i hlt
    have hfail := usnet_send_control_packet_fails hlt
    have hoff' : (usnet_send_control_packet t).2.tcb.sndvar.on_control_list = false :=
      (congrArg Prod.fst hfail.queues.1).trans hoff
    have hid' : s.tcb.id = (usnet_send_control_packet t).2.tcb.id :=
      hid.symm.trans (usnet_send_control_packet_kept t).1.1.symm
    rw [hid']
    exact ((hst.trans hfail.moves).tail (.requeue_control _ hoff')).outcome
  · exact hst.then (usnet_send_control_packet_outcome t)

/-- The visit of the send list takes the connection off before it sends. -/
def take_send (s : Conn) : Conn :=
  s.onCtx fun c => { c with send_list := c.send_list.erase s.tcb.id }

/-- It puts the connection back at the end when not all could be sent. -/
def put_send (s : Conn) : Conn :=
  s.onCtx fun c => { c with send_list := c.send_list ++ [s.tcb.id] }

/-- Otherwise the connection is off the list for good. -/
def drop_send (s : Conn) : Conn :=
  (s.onSnd fun v => { v with on_send_list := false }).onCtx fun c =>
    { c with send_list_cnt := c.send_list_cnt - 1 }

theorem send_data_packets {s s' : Conn} {r : Int} (h : send_data s = .ok (r, s')) :
    Packets s s' := by
  unfold send_data at h
  split at h
  · split at h
    · obtain ⟨-, rfl⟩ := Prod.mk.inj (Except.ok.inj h)
      exact .refl
    · exact usnet_flush_tcp_sendbuf_packets h
  · exact usnet_flush_tcp_sendbuf_packets h
  · exact usnet_flush_tcp_sendbuf_packets h
  · exact usnet_flush_tcp_sendbuf_packets h
  · obtain ⟨-, rfl⟩ := Prod.mk.inj (Except.ok.inj h)
    exact .refl

theorem data_visit_cases {s s' : Conn} (hon : s.tcb.sndvar.on_send_list = true)
    (h : data_visit s = .ok s') :
    ∃ t, Packets (take_send s) t ∧ (s' = put_send t ∨ Outcome (drop_send t) s') := by
  unfold data_visit at h
  simp only [Conn.onCtx_tcb, hon, if_true] at h
  rw [show s.onCtx (fun c => { c with send_list := c.send_list.erase s.tcb.id }) = take_send s
    from rfl] at h
  split at h
  · cases h
  · rename_i ret t hsend
    have hp := send_data_packets hsend
    refine ⟨t, hp, ?_⟩
    split at h
    · obtain rfl := Except.ok.inj h
      left
      unfold put_send
      rw [hp.moves.framed.id]
    · obtain rfl := Except.ok.inj h
      right
      exact send_waiting_outcome _ _

theorem timewait_visit_outcome (s : Conn) : Outcome s (timewait_visit s) := by
  unfold timewait_visit
  split
  · rename_i h
    have hset : Moves s ((unlink_timewait s).onTcb fun t =>
        { t with state := .closed, close_reason := .active_close }) :=
      (Moves.one (.unlink_timewait s h.1)).trans (.quiet rfl)
    exact hset.then (released _)
  · exact Moves.refl.outcome

theorem timeout_visit_outcome (s : Conn) : Outcome s (timeout_visit s) := by
  unfold timeout_visit
  split
  · have hset : Moves s ((usnet_remove_timeout_list s).onTcb fun t =>
        { t with state := .closed, close_reason := .timedout }) :=
      (Moves.one (.remove_timeout s)).trans (.quiet rfl)
    simp only
    split
    · exact (hset.trans (raise_moves _ _)).outcome
    · exact hset.then (released _)
  · exact Moves.refl.outcome

theorem usnet_write_net_handler_moves (s : Conn) (so_tcb : Bool) (fd : UInt32) :
    Moves s (usnet_write_net_handler s so_tcb fd) := by
  unfold usnet_write_net_handler
  split
  · exact .refl
  split
  · exact .refl
  split
  · exact .refl
  split
  · exact .one (.add_send s)
  · exact .refl

/-- An accepted connection may get its send buffer, and then sends. -/
theorem usnet_connect_net_handler_outcome (s : Conn) (so : Bool) (fd : UInt32) (result : Int) :
    ∃ t buf_fd, t.links = { s.links with buf_fd := buf_fd } ∧
      (buf_fd = s.links.buf_fd ∨ buf_fd = some fd) ∧
      Outcome t (usnet_connect_net_handler s so fd result) := by
  have hstay : ∃ t buf_fd, t.links = { s.links with buf_fd := buf_fd } ∧
      (buf_fd = s.links.buf_fd ∨ buf_fd = some fd) ∧ Outcome t s :=
    ⟨s, _, rfl, .inl rfl, Moves.refl.outcome⟩
  unfold usnet_connect_net_handler
  split
  · exact hstay
  split
  · exact hstay
  simp only
  generalize ht : s.onTcb (fun t => { t with socket := some fd, fd := fd }) = t
  have hlinks : t.links = s.links := by
    rw [← ht]
    rfl
  have hfd : t.tcb.fd = fd := by
    rw [← ht]
    rfl
  split
  · exact ⟨t, _, hlinks, .inl rfl, usnet_add_control_list_outcome t⟩
  · split
    · exact ⟨t, _, hlinks, .inl rfl, Moves.refl.outcome⟩
    · rename_i buf hget
      refine ⟨t.onSnd fun v => { v with sndbuf := some buf }, some buf.fd, ?_, .inr ?_,
        usnet_add_control_list_outcome _⟩
      · rw [← hlinks]
        rfl
      · unfold usnet_get_sendbuf at hget
        obtain ⟨data_ptr, -, rfl⟩ := Option.map_eq_some_iff.mp hget
        rw [← hfd]

/-! ## Section 7: New connections -/

/-- Options do not concern the lists. -/
theorem parse_opts_loop_links {cur_time : UInt32} {seg : Segment} (c : Ctx) (fuel i : Nat)
    {t t' : UsnTcb} (h : parse_opts_loop cur_time seg fuel i t = .ok t') :
    (Conn.mk c t').links = (Conn.mk c t).links ∧ t'.state = t.state := by
  induction fuel generalizing i t with
  | zero => cases h
  | succ fuel ih =>
    unfold parse_opts_loop at h
    by_cases hi : i < seg.opts.length
    · rw [if_pos hi] at h
      simp only at h
      split at h
      · obtain rfl := Except.ok.inj h
        exact ⟨rfl, rfl⟩
      split at h
      · have hrest := ih _ h
        exact hrest
      split at h
      · obtain rfl := Except.ok.inj h
        exact ⟨rfl, rfl⟩
      split at h
      · have hrest := ih _ h
        exact hrest
      split at h
      · have hrest := ih _ h
        exact hrest
      split at h
      · have hrest := ih _ h
        exact hrest
      split at h
      · have hrest := ih _ h
        exact hrest
      · have hrest := ih _ h
        exact hrest
    · rw [if_neg hi] at h
      obtain rfl := Except.ok.inj h
      exact ⟨rfl, rfl⟩

/-- A new block is on no list. -/
theorem usnet_create_tcb_links {c : Ctx} {l : Listener} {seg : Segment} {t : UsnTcb}
    (h : usnet_create_tcb c l seg = .ok (some t)) :
    t.state = .listen ∧ ∃ id, c.tcb_cache = some id ∧
      (Conn.mk c t).links = (Conn.mk c (init_newtcb c id l seg.ip_dst seg.th_dport seg.ip_src
        seg.th_sport)).links := by
  obtain ⟨id, hid, -, -, hopts⟩ := usnet_create_tcb_made h
  obtain ⟨hlinks, hst⟩ := parse_opts_loop_links c _ _ hopts
  exact ⟨hst, id, hid, hlinks⟩

/-- What opening a connection, or refusing it, leaves of the lists. -/
theorem usnet_handle_passive_open_links {c c' : Ctx} {seg : Segment} {t : Option UsnTcb}
    (h : usnet_handle_passive_open c seg = .ok (c', t)) :
    match t with
    | none => ∀ u, (Conn.mk c' u).links = (Conn.mk c u).links
    | some t => c' = c ∧ seg.has TH_SYN = true ∧ ∃ l, usnet_create_tcb c l seg = .ok (some t) := by
  have hreply : ∀ seq ack_seq flags u,
      (Conn.mk (reply_rst c seg seq ack_seq flags) u).links = (Conn.mk c u).links := by
    intro seq ack_seq flags u
    unfold reply_rst usnet_send_tcp_packet_alone
    simp only [usnet_ipv4_output_ctx, Conn.links]
    split
    · rfl
    · split <;> rfl
  unfold usnet_handle_passive_open at h
  split at h
  · rename_i hsyn
    simp only at h
    split at h
    · obtain ⟨rfl, rfl⟩ := Prod.mk.inj (Except.ok.inj h)
      exact hreply _ _ _
    · rename_i l hl
      split at h
      · cases h
      · obtain ⟨rfl, rfl⟩ := Prod.mk.inj (Except.ok.inj h)
        exact hreply _ _ _
      · rename_i t₁ hcreate
        obtain ⟨rfl, rfl⟩ := Prod.mk.inj (Except.ok.inj h)
        exact ⟨rfl, hsyn.1, l, hcreate⟩
  split at h
  · obtain ⟨rfl, rfl⟩ := Prod.mk.inj (Except.ok.inj h)
    exact fun _ => rfl
  split at h
  · obtain ⟨rfl, rfl⟩ := Prod.mk.inj (Except.ok.inj h)
    exact hreply _ _ _
  · obtain ⟨rfl, rfl⟩ := Prod.mk.inj (Except.ok.inj h)
    exact hreply _ _ _

/-- The SYN of a new connection is handled without touching a list. -/
theorem input_segment_listen {s s' : Conn} {seg : Segment} {r : Int}
    (hst : s.tcb.state = .listen) (hoff : s.tcb.on_timeout_list = false)
    (h : input_segment s seg = .ok (r, s')) :
    s'.links = { s.links with last_active_ts := s.ctx.cur_time } := by
  have hcheck : check_segment s seg = .ok (0, s) := by
    unfold check_segment
    rw [if_neg (by rw [hst]; decide)]
  have hnote : (note_segment s seg).links = { s.links with last_active_ts := s.ctx.cur_time } ∧
      (note_segment s seg).tcb.state = .listen := by
    unfold note_segment usnet_update_timeout_list
    simp only [Conn.onTcb_tcb, Conn.onSnd_tcb, hoff]
    exact ⟨rfl, hst⟩
  have hrst : (process_rst (note_segment s seg) seg).1 = false ∧
      (process_rst (note_segment s seg) seg).2.links = (note_segment s seg).links ∧
      (process_rst (note_segment s seg) seg).2.tcb.state = .listen := by
    unfold process_rst
    split
    · simp only [Conn.onTcb_tcb, hnote.2]
      exact ⟨rfl, rfl, hnote.2⟩
    · exact ⟨rfl, rfl, hnote.2⟩
  unfold input_segment at h
  simp only [hcheck, bind, Except.bind, pure, Except.pure] at h
  rw [if_neg (by decide)] at h
  rw [if_neg (by simp [hrst.1])] at h
  split at h
  · cases h
  · rename_i u hstate
    obtain ⟨-, rfl⟩ := Prod.mk.inj (Except.ok.inj h)
    unfold handle_state at hstate
    rw [hrst.2.2] at hstate
    obtain rfl := Except.ok.inj hstate
    rw [← hnote.1, ← hrst.2.1]
    unfold usnet_handle_listen
    split <;> rfl

/-- The lists stay as they are, and a new block is on none of them. -/
def Opened (c : Ctx) (seg : Segment) (c' : Ctx) : Option UsnTcb → Prop
  | none => ∀ u, (Conn.mk c' u).links = (Conn.mk c u).links
  | some t => ∃ id l, c.tcb_cache = some id ∧
      (Conn.mk c' t).links = { (Conn.mk c (init_newtcb c id l seg.ip_dst seg.th_dport seg.ip_src
        seg.th_sport)).links with last_active_ts := c.cur_time }

/-- A segment that no connection is found for. -/
theorem usnet_tcp_input_opened {c c' : Ctx} {seg : Segment} {ret : Int} {t : Option UsnTcb}
    (h : usnet_tcp_input c none seg = .ok (ret, c', t)) : Opened c seg c' t := by
  unfold usnet_tcp_input at h
  cases hopen : usnet_handle_passive_open c seg with
  | error e => simp [hopen, bind, Except.bind] at h
  | ok r =>
    obtain ⟨c₁, t₁⟩ := r
    have hlinks := usnet_handle_passive_open_links hopen
    simp only [hopen, bind, Except.bind, pure, Except.pure] at h
    cases t₁ with
    | none =>
      obtain ⟨-, hct⟩ := Prod.mk.inj (Except.ok.inj h)
      obtain ⟨rfl, rfl⟩ := Prod.mk.inj hct
      exact hlinks
    | some t₁ =>
      obtain ⟨rfl, -, l, hcreate⟩ := hlinks
      obtain ⟨hst, id, hid, hnew⟩ := usnet_create_tcb_links hcreate
      simp only at h
      split at h
      · cases h
      rename_i r hseg
      obtain ⟨-, hct⟩ := Prod.mk.inj (Except.ok.inj h)
      obtain ⟨rfl, rfl⟩ := Prod.mk.inj hct
      have hend := input_segment_listen hst (congrArg Links.on_timeout_list hnew) hseg
      rw [hnew] at hend
      exact ⟨id, l, hid, hend⟩

end Usnet
