import Usnet.Octets
import Usnet.Receive

/-! # Everything that is sent

    A frame of a connection is assembled by `usnet_send_tcp_packet` from the
    control block as it is at that moment.  Over any event its addresses are
    those of the connection, its flags are one of four combinations, only a bare
    ACK carries payload, and what it acknowledges is `rcv_nxt` before or after
    the event.
-/

namespace Usnet

open CInt Circular Run

/-! ## Section 1: Frames of a connection -/

/-- What a frame shows of its connection besides its position in the stream. -/
structure Face where
  saddr : UInt32
  daddr : UInt32
  sport : UInt16
  dport : UInt16
  rcv_nxt : UInt32

def UsnTcb.face (t : UsnTcb) : Face := ⟨t.saddr, t.daddr, t.sport, t.dport, t.rcv_nxt⟩

/-- The flags of the packets sent while nobody closes the connection actively. -/
def sent_flags : List UInt8 := [TH_SYN ||| TH_ACK, TH_ACK, TH_ACK ||| TH_WACK, TH_RST]

/-- A packet of a connection that looks like this. -/
def FrameOf (D : Frame → Prop) (face : Face) (f : Frame) : Prop :=
  ∃ s flags payload, s.tcb.face = face ∧ flags ∈ sent_flags ∧
    (payload = [] ∨ flags = TH_ACK ∧ D f) ∧ f = tcp_packet s flags payload

/-- A function that sends packets of its connection and leaves the connection in
    place. -/
structure Emits (D : Frame → Prop) (s s' : Conn) : Prop where
  face : s'.tcb.face = s.tcb.face
  sends : Sends (FrameOf D s.tcb.face) s.ctx s'.ctx

/-- The same, but the connection may have been released behind the last packet. -/
structure Leaves (D : Frame → Prop) (s s' : Conn) : Prop where
  rcv_nxt : s'.tcb.rcv_nxt = s.tcb.rcv_nxt
  sends : Sends (FrameOf D s.tcb.face) s.ctx s'.ctx

variable {D : Frame → Prop}

theorem Emits.refl {s : Conn} : Emits D s s := ⟨rfl, .of_eq rfl⟩

theorem Emits.trans {s t s' : Conn} (h : Emits D s t) (h' : Emits D t s') : Emits D s s' :=
  ⟨h'.face.trans h.face, h.sends.trans (h.face ▸ h'.sends)⟩

theorem Emits.quiet {s s' : Conn} (hface : s'.tcb.face = s.tcb.face)
    (hframes : s'.ctx.frames = s.ctx.frames) : Emits D s s' := ⟨hface, .of_eq hframes⟩

theorem Emits.of_same {s s' : Conn} (h : Same s s') : Emits D s s' :=
  .quiet (by simp only [UsnTcb.face, h]) (by simp only [h])

/-- What is set before does not count. -/
theorem Emits.after {s t s' : Conn} (h : Emits D t s') (hface : t.tcb.face = s.tcb.face)
    (hframes : t.ctx.frames = s.ctx.frames) : Emits D s s' := (Emits.quiet hface hframes).trans h

/-- Nor what is set afterwards. -/
theorem Emits.then {s t s' : Conn} (h : Emits D s t) (hface : s'.tcb.face = t.tcb.face)
    (hframes : s'.ctx.frames = t.ctx.frames) : Emits D s s' := h.trans (.quiet hface hframes)

theorem Emits.leaves {s s' : Conn} (h : Emits D s s') : Leaves D s s' :=
  ⟨congrArg Face.rcv_nxt h.face, h.sends⟩

theorem Leaves.quiet {s s' : Conn} (hnxt : s'.tcb.rcv_nxt = s.tcb.rcv_nxt)
    (hframes : s'.ctx.frames = s.ctx.frames) : Leaves D s s' := ⟨hnxt, .of_eq hframes⟩

theorem Emits.trans_leaves {s t s' : Conn} (h : Emits D s t) (h' : Leaves D t s') : Leaves D s s' :=
  ⟨h'.rcv_nxt.trans (congrArg Face.rcv_nxt h.face), h.sends.trans (h.face ▸ h'.sends)⟩

theorem Leaves.then {s t s' : Conn} (h : Leaves D s t) (hnxt : s'.tcb.rcv_nxt = t.tcb.rcv_nxt)
    (hframes : s'.ctx.frames = t.ctx.frames) : Leaves D s s' :=
  ⟨hnxt.trans h.rcv_nxt, h.sends.trans (.of_eq hframes)⟩

theorem Leaves.after {s t s' : Conn} (h : Leaves D t s') (hface : t.tcb.face = s.tcb.face)
    (hframes : t.ctx.frames = s.ctx.frames) : Leaves D s s' :=
  (Emits.quiet hface hframes).trans_leaves h

/-! ## Section 2: Packets and acknowledgements -/

theorem usnet_send_tcp_packet_emits (D : Frame → Prop) (s : Conn) (flags : UInt8) (payload : List UInt8)
    (hflags : flags ∈ sent_flags)
    (hpayload : payload = [] ∨ flags = TH_ACK ∧ D (tcp_packet s flags payload)) :
    Emits D s (usnet_send_tcp_packet s flags payload).2 := by
  refine ⟨by simp [UsnTcb.face], ?_⟩
  rcases usnet_send_tcp_packet_cases s flags payload with ⟨-, h⟩ | ⟨-, -, h⟩
  · exact .of_eq (by simp only [h])
  · exact .one h ⟨s, flags, payload, rfl, hflags, hpayload, rfl⟩

/-- In the states a passively opened connection can have, a control packet is one
    of these, and only that of a closed connection is followed by its release. -/
theorem usnet_send_control_packet_leaves {s : Conn} (h : tracked s.tcb.state) :
    Leaves D s (usnet_send_control_packet s).2 ∧
    (s.tcb.state ≠ .closed → Emits D s (usnet_send_control_packet s).2) := by
  have hack : ∀ t : Conn, Emits D t (usnet_remove_ack_list t) := fun t => .of_same (by simp)
  unfold usnet_send_control_packet
  rcases h with hst | hst | hst | hst
  · simp only [hst]
    have hsend := (usnet_send_tcp_packet_emits D (s.onTcb fun t => { t with snd_nxt := t.sndvar.iss }) (TH_SYN ||| TH_ACK) [] (by decide)
      (.inl rfl)).after (s := s) rfl rfl
    exact ⟨(hsend.trans (hack _)).leaves, fun _ => hsend.trans (hack _)⟩
  · simp only [hst]
    have hsend := usnet_send_tcp_packet_emits D s TH_ACK []
      (by decide) (.inl rfl)
    exact ⟨(hsend.trans (hack _)).leaves, fun _ => hsend.trans (hack _)⟩
  · simp only [hst]
    have hsend := usnet_send_tcp_packet_emits D s TH_ACK []
      (by decide) (.inl rfl)
    exact ⟨(hsend.trans (hack _)).leaves, fun _ => hsend.trans (hack _)⟩
  · refine ⟨?_, fun hne => absurd hst hne⟩
    simp only [hst]
    have hsend := usnet_send_tcp_packet_emits D s TH_RST []
      (by decide) (.inl rfl)
    split
    · exact Emits.refl.leaves
    · split
      · exact hsend.leaves.then (by simp) (by simp)
      · exact hsend.leaves

theorem usnet_add_control_list_leaves {s : Conn} (h : tracked s.tcb.state) :
    Leaves D s (usnet_add_control_list s) ∧
    (s.tcb.state ≠ .closed → Emits D s (usnet_add_control_list s)) := by
  obtain ⟨hleaves, hemits⟩ := usnet_send_control_packet_leaves h
  have hqueue : ∀ t : Conn, Same t (queue_control t) := fun t => by simp
  have hremove : ∀ t : Conn, Same t (usnet_remove_control_list t) := fun t => by simp
  unfold usnet_add_control_list
  simp only
  split
  · have hq := hqueue (usnet_send_control_packet s).2
    exact ⟨hleaves.then (by simp only [hq]) (by simp only [hq]),
      fun hne => (hemits hne).trans (.of_same hq)⟩
  · have hr := hremove (usnet_send_control_packet s).2
    exact ⟨hleaves.then (by simp only [hr]) (by simp only [hr]),
      fun hne => (hemits hne).trans (.of_same hr)⟩

theorem control_visit_leaves {s : Conn} (h : tracked s.tcb.state) : Leaves D s (control_visit s) := by
  unfold control_visit
  simp only
  split
  · generalize hr : usnet_send_control_packet _ = r
    have hb : Leaves D s r.2 := by
      rw [← hr]
      exact (usnet_send_control_packet_leaves (by exact h)).1.after rfl rfl
    split
    · exact hb.then rfl rfl
    · exact hb
  · exact .quiet rfl rfl

theorem send_acks_emits (n : Nat) (s : Conn) :
    Emits D s (send_acks n s) ∧ (send_acks n s).tcb.state = s.tcb.state := by
  induction n generalizing s with
  | zero => exact ⟨.refl, rfl⟩
  | succ n ih =>
    have hsend := usnet_send_tcp_packet_emits D s TH_ACK []
      (by decide) (.inl rfl)
    unfold send_acks
    simp only
    split
    · exact ⟨hsend, by simp⟩
    · obtain ⟨hrest, hst⟩ := ih ((usnet_send_tcp_packet s TH_ACK []).2.onSnd fun v =>
        { v with ack_cnt := v.ack_cnt - 1 })
      exact ⟨hsend.trans (hrest.after rfl rfl), hst.trans (by simp)⟩

theorem send_wack_emits (s : Conn) :
    Emits D s (send_wack s) ∧ (send_wack s).tcb.state = s.tcb.state := by
  unfold send_wack
  split
  · simp only
    generalize hr : usnet_send_tcp_packet _ (TH_ACK ||| TH_WACK) [] = r
    have hb : Emits D s r.2 ∧ r.2.tcb.state = s.tcb.state := by
      rw [← hr]
      exact ⟨(usnet_send_tcp_packet_emits D _ _ _ (by decide) (.inl rfl)).after rfl rfl, by simp⟩
    split
    · exact ⟨hb.1.then rfl rfl, hb.2⟩
    · exact hb
  · exact ⟨.refl, rfl⟩

theorem send_waiting_leaves {s : Conn} (h : tracked s.tcb.state) (on_list : Bool) :
    Leaves D s (send_waiting s on_list) := by
  unfold send_waiting
  split
  · exact (usnet_add_control_list_leaves (by exact h)).1.after rfl rfl
  · exact Emits.refl.leaves

theorem ack_or_drop_emits (s : Conn) :
    Emits D s (ack_or_drop s) ∧ (ack_or_drop s).tcb.state = s.tcb.state := by
  have hremove : ∀ t : Conn, Same t (usnet_remove_ack_list t) := fun t => by simp
  unfold ack_or_drop
  split
  · obtain ⟨hacks, hst⟩ := send_acks_emits s.tcb.sndvar.ack_cnt.toNat s
    obtain ⟨hwack, hst'⟩ := send_wack_emits (send_acks s.tcb.sndvar.ack_cnt.toNat s)
    simp only
    split
    · exact ⟨hacks.trans hwack, hst'.trans hst⟩
    · have hr := hremove (send_wack (send_acks s.tcb.sndvar.ack_cnt.toNat s))
      exact ⟨(hacks.trans hwack).trans (.of_same hr),
        (show _ = _ by simp only [hr]).trans (hst'.trans hst)⟩
  · have hr := hremove (s.onSnd fun v => { v with ack_cnt := 0, is_wack := false })
    exact ⟨(Emits.of_same hr).after rfl rfl, by simp only [hr]; rfl⟩

theorem ack_visit_leaves {s : Conn} (h : tracked s.tcb.state) : Leaves D s (ack_visit s) := by
  unfold ack_visit
  split
  · obtain ⟨hdrop, hst⟩ := ack_or_drop_emits s
    exact hdrop.trans_leaves (send_waiting_leaves (by rw [hst]; exact h) _)
  · exact .quiet rfl rfl

/-! ## Section 3: Timers and messages -/

theorem usnet_release_tcb_leaves (s : Conn) : Leaves D s (usnet_release_tcb s) :=
  .quiet (by simp) (by simp)

theorem give_up_leaves (s : Conn) : Leaves D s (give_up s) := by
  unfold give_up
  split
  · exact (usnet_release_tcb_leaves _).after rfl rfl
  · simp only
    split
    · exact .quiet rfl rfl
    · exact (usnet_release_tcb_leaves _).after rfl rfl

theorem back_off_emits (s : Conn) :
    Emits D s (back_off s) ∧ (back_off s).tcb.state = s.tcb.state := by
  have hsnd : ∀ (t : Conn) (f : SndVars → SndVars),
      Emits D t (t.onSnd f) ∧ (t.onSnd f).tcb.state = t.tcb.state := fun t f =>
    ⟨.quiet rfl rfl, rfl⟩
  have hboth : ∀ {t u v : Conn}, Emits D t u ∧ u.tcb.state = t.tcb.state →
      Emits D u v ∧ v.tcb.state = u.tcb.state → Emits D t v ∧ v.tcb.state = t.tcb.state :=
    fun h h' => ⟨h.1.trans h'.1, h'.2.trans h.2⟩
  unfold back_off
  simp only
  exact hboth (hboth (hboth (hsnd _ _) (hsnd _ _)) (hsnd _ _)) (hsnd _ _)

theorem usnet_add_send_list_emits (s : Conn) : Emits D s (usnet_add_send_list s) :=
  .of_same (by simp)

theorem retransmit_leaves {s : Conn} (h : tracked s.tcb.state) : Leaves D s (retransmit s) := by
  unfold retransmit
  simp only
  generalize ht : (s.onTcb fun t => { t with snd_nxt := t.sndvar.snd_una }) = t
  have hb : Emits D s t := by
    rw [← ht]
    exact .quiet rfl rfl
  have hst : tracked t.tcb.state := by
    rw [← ht]
    exact h
  have hsend := (hb.trans (usnet_add_send_list_emits t)).leaves
  have hcontrol := hb.trans_leaves (usnet_add_control_list_leaves hst).1
  have hlater : Leaves D s (if TCP_SEQ_LT t.tcb.snd_nxt t.tcb.sndvar.fss then
      usnet_add_send_list ((usnet_remove_control_list t).onTcb fun t =>
        { t with control_list_waiting := true })
      else usnet_add_control_list t) := by
    split
    · have hrem : Emits D t (usnet_remove_control_list t) := .of_same (by simp)
      exact hb.trans_leaves (hrem.trans_leaves
        ((usnet_add_send_list_emits _).leaves.after rfl rfl))
    · exact hcontrol
  split
  · exact hsend
  · exact hsend
  · exact hlater
  · exact hlater
  · exact hlater
  · exact hcontrol

theorem rto_visit_leaves {s s' : Conn} (h : tracked s.tcb.state) (hok : rto_visit s = .ok s') :
    Leaves D s s' := by
  unfold rto_visit at hok
  split at hok
  · split at hok
    · cases hok
    · rename_i r t ht
      obtain rfl := Except.ok.inj hok
      refine Leaves.then (t := t) ?_ rfl rfl
      unfold usnet_handle_rto at ht
      split at ht
      · cases ht
      · split at ht
        · obtain ⟨-, rfl⟩ := Prod.mk.inj (Except.ok.inj ht)
          exact give_up_leaves s
        · obtain ⟨hb, hst⟩ := @back_off_emits D s
          generalize back_off s = u at *
          have hre := hb.trans_leaves (retransmit_leaves (by rw [hst]; exact h))
          have hrel := hb.trans_leaves
            ((usnet_release_tcb_leaves (usnet_raise_error_event u)).after rfl rfl)
          simp only at ht
          split at ht
          · split at ht
            · obtain ⟨-, rfl⟩ := Prod.mk.inj (Except.ok.inj ht)
              split
              · exact hb.leaves.then rfl rfl
              · exact hb.trans_leaves ((usnet_release_tcb_leaves _).after rfl rfl)
            · obtain ⟨-, rfl⟩ := Prod.mk.inj (Except.ok.inj ht)
              exact hre
          all_goals
            obtain ⟨-, rfl⟩ := Prod.mk.inj (Except.ok.inj ht)
            assumption
  · obtain rfl := Except.ok.inj hok
    exact Emits.refl.leaves

theorem timewait_visit_leaves (s : Conn) : Leaves D s (timewait_visit s) := by
  unfold timewait_visit
  split
  · exact (usnet_release_tcb_leaves _).after rfl rfl
  · exact Emits.refl.leaves

theorem timeout_visit_leaves (s : Conn) : Leaves D s (timeout_visit s) := by
  unfold timeout_visit
  split
  · have hrem : Emits D s (usnet_remove_timeout_list s) := .of_same (by simp)
    simp only
    split
    · exact hrem.leaves.then rfl rfl
    · exact hrem.trans_leaves ((usnet_release_tcb_leaves _).after rfl rfl)
  · exact Emits.refl.leaves

theorem usnet_connect_net_handler_leaves {s : Conn} (h : tracked s.tcb.state) (so : Bool)
    (fd : UInt32) (result : Int) : Leaves D s (usnet_connect_net_handler s so fd result) := by
  unfold usnet_connect_net_handler
  split
  · exact Emits.refl.leaves
  · split
    · exact Emits.refl.leaves
    · simp only
      split
      · exact (usnet_add_control_list_leaves (by exact h)).1.after rfl rfl
      · split
        · exact .quiet rfl rfl
        · exact (usnet_add_control_list_leaves (by exact h)).1.after rfl rfl

theorem app_write_leaves {s s' : Conn} {fd : UInt32} {bytes : List UInt8}
    (hok : app_write s fd bytes = .ok s') : Leaves D s s' := by
  unfold app_write usnet_write at hok
  cases hbuf : s.tcb.sndvar.sndbuf with
  | none =>
    simp only [hbuf] at hok
    obtain rfl := Except.ok.inj hok
    exact .quiet rfl rfl
  | some buf =>
    simp only [hbuf] at hok
    split at hok
    · cases hok
    · rename_i r t ht
      obtain rfl := Except.ok.inj hok
      split at ht
      · obtain ⟨-, rfl⟩ := Prod.mk.inj (Except.ok.inj ht)
        exact .quiet rfl rfl
      · split at ht
        · cases ht
        · obtain ⟨-, rfl⟩ := Prod.mk.inj (Except.ok.inj ht)
          exact .quiet rfl rfl

/-! ## Section 4: Data -/

/-- The segment ends in a window of this size from `una` on. -/
def within (una window : UInt32) (f : Frame) : Prop :=
  f.seq - una + u32 f.payload.length ≤ window

/-- What the congestion window and the peer's window allow. -/
def allowed (t : UsnTcb) : Frame → Prop :=
  within t.sndvar.snd_una (min t.sndvar.cwnd t.sndvar.peer_wnd)

theorem data_packet_within {s : Conn} {buf : UsnSendbuf} {head window : UInt32} {len : UInt16}
    (h : ¬ s.tcb.snd_nxt - s.tcb.sndvar.snd_una + len.toUInt32 > window) :
    within s.tcb.sndvar.snd_una window
      (tcp_packet s TH_ACK (slice buf.data_ptr head.toNat len.toNat)) := by
  have hlen : (slice buf.data_ptr head.toNat len.toNat).length = len.toNat := by simp
  unfold within tcp_packet
  simp only [hlen, ← toUInt32_eq_u32]
  exact UInt32.not_lt.mp h

/-- The loop sends nothing that its window does not allow. -/
theorem flush_loop_emits {maxlen window tail : UInt32} (fuel : Nat) {s s' : Conn}
    {buf : UsnSendbuf} {head : UInt32} {packets r : Int}
    (h : flush_loop maxlen window tail fuel s buf head packets = .ok (r, s')) :
    Emits (within s.tcb.sndvar.snd_una window) s s' ∧ s'.tcb.state = s.tcb.state := by
  induction fuel generalizing s buf head packets with
  | zero => cases h
  | succ fuel ih =>
    have hack : Same s (usnet_enqueue_ack s .wack) := by simp
    unfold flush_loop flush_turn at h
    simp only at h
    split at h
    · cases h
    · rename_i r₁ s₁ hturn
      obtain ⟨rfl, rfl⟩ := Prod.mk.inj (Except.ok.inj h)
      split at hturn
      · cases hturn
      · split at hturn
        · obtain ⟨-, rfl⟩ := FlushTurn.stop.inj (Except.ok.inj hturn)
          exact ⟨.refl, rfl⟩
        · split at hturn
          · obtain ⟨-, rfl⟩ := FlushTurn.stop.inj (Except.ok.inj hturn)
            exact ⟨.refl, rfl⟩
          · split at hturn
            · unfold no_window at hturn
              split at hturn
              · obtain ⟨-, rfl⟩ := FlushTurn.stop.inj (Except.ok.inj hturn)
                exact ⟨.of_same hack, by simp only [hack]⟩
              · obtain ⟨-, rfl⟩ := FlushTurn.stop.inj (Except.ok.inj hturn)
                exact ⟨.refl, rfl⟩
            · rename_i hfree
              unfold send_turn at hturn
              simp only at hturn
              split at hturn
              · obtain ⟨-, rfl⟩ := FlushTurn.stop.inj (Except.ok.inj hturn)
                exact ⟨usnet_send_tcp_packet_emits _ s _ _ (by decide)
                  (.inr ⟨rfl, data_packet_within hfree⟩), by simp⟩
              · cases hturn
    · rename_i s₁ buf₁ head₁ hturn
      split at hturn
      · cases hturn
      · split at hturn
        · cases hturn
        · split at hturn
          · cases hturn
          · split at hturn
            · unfold no_window at hturn
              split at hturn <;> cases hturn
            · rename_i hfree
              unfold send_turn at hturn
              simp only at hturn
              split at hturn
              · cases hturn
              · obtain ⟨rfl, rfl, -⟩ := FlushTurn.again.inj (Except.ok.inj hturn)
                -- the next turn meets the connection behind the packet
                generalize hu : (usnet_send_tcp_packet s TH_ACK _).2 = u at h
                have hb : Emits (within s.tcb.sndvar.snd_una window) s u ∧
                    u.tcb.state = s.tcb.state ∧
                    u.tcb.sndvar.snd_una = s.tcb.sndvar.snd_una := by
                  rw [← hu]
                  exact ⟨usnet_send_tcp_packet_emits _ s _ _ (by decide)
                    (.inr ⟨rfl, data_packet_within hfree⟩), by simp, by simp⟩
                obtain ⟨hrest, hst⟩ := ih h
                simp only [Conn.onSnd_tcb, hb.2.2] at hrest
                exact ⟨hb.1.trans (hrest.after rfl rfl), hst.trans hb.2.1⟩

theorem usnet_flush_tcp_sendbuf_emits {s s' : Conn} {r : Int}
    (h : usnet_flush_tcp_sendbuf s = .ok (r, s')) :
    Emits (allowed s.tcb) s s' ∧ s'.tcb.state = s.tcb.state := by
  unfold usnet_flush_tcp_sendbuf at h
  split at h
  · cases h
  · split at h
    · obtain ⟨-, rfl⟩ := Prod.mk.inj (Except.ok.inj h)
      exact ⟨.refl, rfl⟩
    · exact flush_loop_emits _ h

theorem send_data_emits {s s' : Conn} {r : Int} (h : send_data s = .ok (r, s')) :
    Emits (allowed s.tcb) s s' ∧ s'.tcb.state = s.tcb.state := by
  unfold send_data at h
  split at h
  · split at h
    · obtain ⟨-, rfl⟩ := Prod.mk.inj (Except.ok.inj h)
      exact ⟨.refl, rfl⟩
    · exact usnet_flush_tcp_sendbuf_emits h
  · exact usnet_flush_tcp_sendbuf_emits h
  · exact usnet_flush_tcp_sendbuf_emits h
  · exact usnet_flush_tcp_sendbuf_emits h
  · obtain ⟨-, rfl⟩ := Prod.mk.inj (Except.ok.inj h)
    exact ⟨.refl, rfl⟩

theorem data_visit_leaves {s s' : Conn} (hst : tracked s.tcb.state)
    (h : data_visit s = .ok s') : Leaves (allowed s.tcb) s s' := by
  unfold data_visit at h
  simp only at h
  split at h
  · split at h
    · cases h
    · rename_i r u hsend
      obtain ⟨hb, hu⟩ := send_data_emits hsend
      have hb : Emits (allowed s.tcb) s u := hb.after rfl rfl
      split at h
      · obtain rfl := Except.ok.inj h
        exact hb.leaves.then rfl rfl
      · obtain rfl := Except.ok.inj h
        refine hb.trans_leaves ((send_waiting_leaves ?_ _).after rfl rfl)
        show tracked u.tcb.state
        rw [hu]
        exact hst
  · obtain rfl := Except.ok.inj h
    exact .quiet rfl rfl

/-! ## Section 5: Segments -/

/-- A packet that shows `rcv_nxt` as it was before or as it is afterwards. -/
def FrameBetween (D : Frame → Prop) (s s' : Conn) (f : Frame) : Prop :=
  FrameOf D s.tcb.face f ∨ FrameOf D { s.tcb.face with rcv_nxt := s'.tcb.rcv_nxt } f

theorem Leaves.between {s s' : Conn} (h : Leaves D s s') :
    Sends (FrameBetween D s s') s.ctx s'.ctx := h.sends.mono fun _ hf => .inl hf

/-- What is sent after others have been sent. -/
theorem Emits.between {s t s' : Conn} (h : Emits D s t)
    (h' : Sends (FrameBetween D t s') t.ctx s'.ctx) : Sends (FrameBetween D s s') s.ctx s'.ctx := by
  refine (h.sends.mono fun _ hf => .inl hf).trans (h'.mono fun f hf => ?_)
  unfold FrameBetween at hf ⊢
  rw [← h.face]
  exact hf

theorem Emits.of_quiet {s s' : Conn} (h : Quiet s s') : Emits D s s' :=
  .quiet (by simp only [UsnTcb.face, h]) (by simp only [h])

theorem AckOutcome.emits {s s' : Conn} {seg : Segment} (h : AckOutcome s seg s') :
    Emits D s s' := by
  have hkept := h.kept
  exact .quiet (by simp only [UsnTcb.face, hkept]) (by simp only [hkept])

/-- The states of a connection, that of one just created among them. -/
theorem passive_not_time_wait {st : TcpState} (h : passive st) : st ≠ .time_wait := by
  rcases h with h | h | h | h | h <;> rw [h] <;> decide

theorem check_segment_leaves {s s' : Conn} {seg : Segment} {r : Int}
    (hst : passive s.tcb.state) (h : check_segment s seg = .ok (r, s')) :
    Leaves D s s' ∧ (¬ r < 0 → Emits D s s' ∧ s'.tcb.state = s.tcb.state) := by
  unfold check_segment at h
  split at h
  · rename_i hsyn
    rcases usnet_validate_seq_cases h with
      ⟨-, -, hq⟩ | ⟨hr, hq⟩ | ⟨hr, -, -, -, t, hq, rfl⟩ | ⟨-, htw⟩
    · exact ⟨(Emits.of_quiet hq).leaves, fun _ => ⟨.of_quiet hq, by simp only [hq]⟩⟩
    · exact ⟨(Emits.of_quiet hq).leaves, fun hpos => absurd hr hpos⟩
    · have htracked : tracked s.tcb.state := by
        rcases hst with hst | hst
        · rw [hst] at hsyn
          exact absurd hsyn (by decide)
        · exact hst
      have ht : tracked t.tcb.state := by
        simp only [hq]
        exact htracked
      exact ⟨(Emits.of_quiet hq).trans_leaves (usnet_add_control_list_leaves ht).1,
        fun hpos => absurd hr hpos⟩
    · exact absurd htw (passive_not_time_wait hst)
  · obtain ⟨-, rfl⟩ := Prod.mk.inj (Except.ok.inj h)
    exact ⟨Emits.refl.leaves, fun _ => ⟨.refl, rfl⟩⟩

/-- The reset logic sends nothing; where it releases the connection, it is closed. -/
theorem usnet_handle_rst_leaves {s : Conn} (ack_seq : UInt32) (h : passive s.tcb.state) :
    Leaves D s (usnet_handle_rst s ack_seq).2 ∧
    ((usnet_handle_rst s ack_seq).2.tcb.state = .closed ∨
      Emits D s (usnet_handle_rst s ack_seq).2) := by
  have hrel : ∀ (r : CloseReason), Leaves D s (usnet_release_tcb (s.onTcb fun t =>
      { t with state := .closed, close_reason := r })) := fun r =>
    (usnet_release_tcb_leaves _).after rfl rfl
  unfold usnet_handle_rst
  rcases h with hst | hst | hst | hst | hst
  · simp only [hst]
    exact ⟨Emits.refl.leaves, .inr .refl⟩
  · simp only [hst]
    split
    · exact ⟨hrel _, .inl (by simp)⟩
    · exact ⟨Emits.refl.leaves, .inr .refl⟩
  all_goals
    simp only [hst]
    try split
  · exact ⟨Emits.refl.leaves, .inr .refl⟩
  · exact ⟨.quiet rfl rfl, .inr (.quiet rfl rfl)⟩
  · exact ⟨Emits.refl.leaves, .inr .refl⟩
  · exact ⟨.quiet rfl rfl, .inr (.quiet rfl rfl)⟩
  · exact ⟨Emits.refl.leaves, .inr .refl⟩

theorem process_rst_leaves {s : Conn} (seg : Segment) (h : passive s.tcb.state) :
    Leaves D s (process_rst s seg).2 ∧
    ((process_rst s seg).2.tcb.state = .closed ∨ Emits D s (process_rst s seg).2) := by
  unfold process_rst
  split
  · simp only
    split
    · obtain ⟨hleaves, hrest⟩ := usnet_handle_rst_leaves
        (s := s.onTcb fun t => { t with have_reset := true }) seg.ack_seq h
      exact ⟨hleaves.after rfl rfl, hrest.imp_right fun he => he.after rfl rfl⟩
    · exact ⟨.quiet rfl rfl, .inr (.quiet rfl rfl)⟩
  · exact ⟨Emits.refl.leaves, .inr .refl⟩

/-- A FIN is acknowledged with the number behind it. -/
theorem established_fin_shows (s : Conn) (seg : Segment) :
    Sends (FrameOf D { s.tcb.face with rcv_nxt := (established_fin s seg).tcb.rcv_nxt }) s.ctx
      (established_fin s seg).ctx := by
  by_cases hfin : seg.has TH_FIN ∧ seg.seq = s.tcb.rcv_nxt
  · generalize ht : (s.onTcb fun t =>
      { t with state := .close_wait, rcv_nxt := t.rcv_nxt + 1 }) = t
    have heq : established_fin s seg = usnet_raise_tcp_event (usnet_add_control_list t) := by
      unfold established_fin
      simp only [hfin, if_true, ht]
    have hst : t.tcb.state = .close_wait := by rw [← ht]; rfl
    have hemits := (@usnet_add_control_list_leaves D t (.inr (.inr (.inl hst)))).2
      (by rw [hst]; decide)
    have hnxt : (established_fin s seg).tcb.rcv_nxt = t.tcb.rcv_nxt := by
      rw [heq]
      exact congrArg Face.rcv_nxt hemits.face
    have hface : t.tcb.face = { s.tcb.face with rcv_nxt := (established_fin s seg).tcb.rcv_nxt } := by
      rw [hnxt, ← ht]
      rfl
    rw [← hface]
    exact hemits.sends.congr (by rw [← ht]; rfl) (by rw [heq]; rfl)
  · exact .of_eq (by simp only [established_fin_other hfin])

theorem usnet_handle_established_between {s s' : Conn} {seg : Segment}
    (hst : s.tcb.state = .established) (h : usnet_handle_established s seg = .ok s') :
    Sends (FrameBetween D s s') s.ctx s'.ctx := by
  by_cases hsyn : seg.has TH_SYN
  · unfold usnet_handle_established at h
    rw [if_pos hsyn] at h
    obtain rfl := Except.ok.inj h
    refine (Leaves.after (usnet_add_control_list_leaves ?_).1 rfl rfl).between
    exact .inr (.inl hst)
  · obtain ⟨s₁, s₂, hpay, hack, rfl⟩ :=
      usnet_handle_established_parts (by simpa using hsyn) h
    obtain ⟨hkept, -⟩ := handle_payload_kept hpay
    have hack := established_ack_kept hack
    -- nothing is sent before the FIN is looked at, only `rcv_nxt` moves
    have hframes : s₂.ctx.frames = s.ctx.frames := by simp only [hack, hkept]
    have hface : { s₂.tcb.face with rcv_nxt := (established_fin s₂ seg).tcb.rcv_nxt }
        = { s.tcb.face with rcv_nxt := (established_fin s₂ seg).tcb.rcv_nxt } := by
      simp only [UsnTcb.face, hack, hkept]
    refine ((@established_fin_shows D s₂ seg).mono fun f hf => ?_).congr hframes.symm rfl
    exact .inr (hface ▸ hf)

theorem handle_state_between {s s' : Conn} {seg : Segment} (hst : passive s.tcb.state)
    (h : handle_state s seg = .ok s') : Sends (FrameBetween D s s') s.ctx s'.ctx := by
  unfold handle_state at h
  rcases hst with hst | hst | hst | hst | hst
  · simp only [hst] at h
    obtain rfl := Except.ok.inj h
    refine .of_eq ?_
    unfold usnet_handle_listen
    split <;> rfl
  · simp only [hst] at h
    rcases usnet_handle_syn_received_cases h with ⟨-, -, rfl⟩ | ⟨-, -, hest⟩ | ⟨-, rfl⟩
    · exact .of_eq rfl
    · exact .of_eq hest.quiet.1
    · refine (Leaves.after (usnet_add_control_list_leaves ?_).1 rfl rfl).between
      exact .inl hst
  · simp only [hst] at h
    exact usnet_handle_established_between hst h
  · simp only [hst] at h
    rcases usnet_handle_close_wait_cases h with ⟨-, rfl⟩ | ⟨-, ho⟩
    · exact (usnet_add_control_list_leaves (.inr (.inr (.inl hst)))).1.between
    · exact ho.emits.leaves.between
  · simp only [hst] at h
    obtain rfl := Except.ok.inj h
    exact .of_eq rfl

theorem input_segment_between {s s' : Conn} {seg : Segment} {r : Int}
    (hst : passive s.tcb.state) (h : input_segment s seg = .ok (r, s')) :
    Sends (FrameBetween D s s') s.ctx s'.ctx := by
  rcases input_segment_cases h with ⟨-, r₀, -, hchk⟩ | ⟨-, r₀, s₁, hneg, hchk, hh⟩
  · exact (check_segment_leaves hst hchk).1.between
  · obtain ⟨hb, hst₁⟩ := (@check_segment_leaves D _ _ _ _ hst hchk).2 hneg
    have hnote : Quiet s₁ (note_segment s₁ seg) := note_segment_quiet s₁ seg
    have hb := hb.trans (.of_quiet hnote)
    have hpassive : passive (note_segment s₁ seg).tcb.state := by
      simp only [hnote, hst₁]
      exact hst
    obtain ⟨hleaves, hclosed | hemits⟩ := @process_rst_leaves D _ seg hpassive
    · -- a connection that has been closed is not handled any further
      unfold handle_state at hh
      simp only [hclosed] at hh
      obtain rfl := Except.ok.inj hh
      exact (hb.trans_leaves hleaves).between
    · exact (hb.trans hemits).between (handle_state_between (process_rst_passive hpassive) hh)

/-- Every event sends only such packets, and data only as the windows allow. -/
theorem life_conn_between {s s' : Conn} {ev : LifeEvent} (hst : tracked s.tcb.state)
    (h : life_conn s ev = .ok s') : Sends (FrameBetween (allowed s.tcb) s s') s.ctx s'.ctx := by
  cases ev with
  | segment seg =>
    simp only [life_conn] at h
    split at h
    · unfold effect at h
      split at h
      · cases h
      · rename_i hin
        obtain rfl := Except.ok.inj h
        exact input_segment_between (.inr hst) hin
    · obtain rfl := Except.ok.inj h
      exact .of_eq rfl
  | accept so fd result =>
    obtain rfl := Except.ok.inj h
    exact (usnet_connect_net_handler_leaves hst so fd result).between
  | wrote so_tcb fd =>
    obtain rfl := Except.ok.inj h
    have hsame := usnet_write_net_handler_same s so_tcb fd
    exact .of_eq (by simp only [hsame])
  | rto => exact (rto_visit_leaves hst h).between
  | control =>
    obtain rfl := Except.ok.inj h
    exact (control_visit_leaves hst).between
  | acks =>
    obtain rfl := Except.ok.inj h
    exact (ack_visit_leaves hst).between
  | data => exact (data_visit_leaves hst h).between
  | timewait =>
    obtain rfl := Except.ok.inj h
    exact (timewait_visit_leaves s).between
  | timeout =>
    obtain rfl := Except.ok.inj h
    split
    · exact (timeout_visit_leaves s).between
    · exact .of_eq rfl
  | write fd bytes => exact (app_write_leaves h).between
  | read fd count =>
    obtain rfl := Except.ok.inj h
    exact .of_eq rfl

/-! ## Section 6: What the frames look like -/

/-- The options are as long as the flags make the header say. -/
def OptsFit (f : Frame) : Prop := f.opts.length = (usnet_get_tcpopt_length f.flags).toNat

theorem FrameOf.optsFit {face : Face} {f : Frame} (h : FrameOf D face f) : OptsFit f := by
  obtain ⟨s, flags, payload, -, hflags, -, rfl⟩ := h
  have hall : ∀ flags ∈ sent_flags, has flags TH_SYN = true ∨ ¬ has flags TH_SACK = true := by
    decide +kernel
  exact usnet_generate_tcpopts_length s (hall flags hflags)

theorem reply_rst_optsFit (c : Ctx) (seg : Segment) (seq ack_seq : UInt32) (flags : UInt8) :
    Sends OptsFit c (reply_rst c seg seq ack_seq flags) := by
  have hge : ∀ flags, 12 ≤ (usnet_get_tcpopt_length flags).toNat := by
    intro flags
    unfold usnet_get_tcpopt_length
    split
    · decide
    · split <;> decide
  unfold reply_rst usnet_send_tcp_packet_alone
  simp only [usnet_ipv4_output_ctx]
  split
  · exact .of_eq rfl
  · split
    · exact .of_eq rfl
    · refine .one rfl ?_
      have hlen := hge flags
      unfold OptsFit
      simp [be32]
      omega

theorem usnet_tcp_input_optsFit {c c' : Ctx} {seg : Segment} {ret : Int} {o : Option UsnTcb}
    (h : usnet_tcp_input c none seg = .ok (ret, c', o)) : Sends OptsFit c c' := by
  have hopened : ∀ {c₁ : Ctx} {o₁ : Option UsnTcb},
      usnet_handle_passive_open c seg = .ok (c₁, o₁) → Sends OptsFit c c₁ := by
    intro c₁ o₁ hopen
    unfold usnet_handle_passive_open at hopen
    split at hopen
    · simp only at hopen
      split at hopen
      · obtain ⟨rfl, -⟩ := Prod.mk.inj (Except.ok.inj hopen)
        exact reply_rst_optsFit _ _ _ _ _
      · split at hopen
        · cases hopen
        · obtain ⟨rfl, -⟩ := Prod.mk.inj (Except.ok.inj hopen)
          exact reply_rst_optsFit _ _ _ _ _
        · obtain ⟨rfl, -⟩ := Prod.mk.inj (Except.ok.inj hopen)
          exact .of_eq rfl
    · split at hopen
      · obtain ⟨rfl, -⟩ := Prod.mk.inj (Except.ok.inj hopen)
        exact .of_eq rfl
      · split at hopen
        · obtain ⟨rfl, -⟩ := Prod.mk.inj (Except.ok.inj hopen)
          exact reply_rst_optsFit _ _ _ _ _
        · obtain ⟨rfl, -⟩ := Prod.mk.inj (Except.ok.inj hopen)
          exact reply_rst_optsFit _ _ _ _ _
  unfold usnet_tcp_input at h
  cases hopen : usnet_handle_passive_open c seg with
  | error e => simp [hopen, bind, Except.bind] at h
  | ok q =>
    obtain ⟨c₁, o₁⟩ := q
    simp only [hopen, bind, Except.bind, pure, Except.pure] at h
    cases o₁ with
    | none =>
      obtain ⟨-, hq⟩ := Prod.mk.inj (Except.ok.inj h)
      obtain ⟨rfl, -⟩ := Prod.mk.inj hq
      exact hopened hopen
    | some t₁ =>
      obtain ⟨-, l, hcreate⟩ := usnet_handle_passive_open_creates hopen
      simp only at h
      split at h
      · cases h
      · rename_i s' hseg
        obtain ⟨-, hq⟩ := Prod.mk.inj (Except.ok.inj h)
        obtain ⟨rfl, -⟩ := Prod.mk.inj hq
        have hst : passive t₁.state := .inl (usnet_create_tcb_listen hcreate).1
        refine (hopened hopen).trans ((@input_segment_between (fun _ => True) _ _ _ _ hst hseg).mono fun f hf => ?_)
        exact hf.elim FrameOf.optsFit FrameOf.optsFit

/-- The same of every step on the place of a connection. -/
theorem life_step_optsFit {c c' : Ctx} {o o' : Option UsnTcb} {ev : LifeEvent}
    (hinv : ∀ t, o = some t → LifeInv t) (h : life_step c o ev = .ok (c', o')) :
    Sends OptsFit c c' := by
  unfold life_step at h
  cases o with
  | some t =>
    simp only at h
    split at h
    · cases h
    · rename_i s hok
      obtain ⟨rfl, -⟩ := Prod.mk.inj (Except.ok.inj h)
      exact (life_conn_between (hinv t rfl).state hok).mono fun f hf =>
        hf.elim FrameOf.optsFit FrameOf.optsFit
  | none =>
    simp only at h
    split at h
    · split at h
      · cases h
      · rename_i ret c₁ o₁ hin
        obtain ⟨rfl, -⟩ := Prod.mk.inj (Except.ok.inj h)
        exact usnet_tcp_input_optsFit hin
    · obtain ⟨rfl, -⟩ := Prod.mk.inj (Except.ok.inj h)
      exact .of_eq rfl

/-- A connection at any time. -/
theorem lifeInv_of_life {C : LifeCond} {t : UsnTcb} (h : LifeWhere C (some t)) : LifeInv t :=
  (rcvInv_of_life h).life

/-- The peer closes. -/
def peer_fin : LifeEvent :=
  .segment (peer_segment 9001 5001 (TH_FIN ||| TH_ACK) [] nil_short)

def fin_answered : Conn := (life_conn ⟨quiet_ctx, opened_tcb⟩ peer_fin).toOption.get rfl

theorem fin_answered_run : life_conn ⟨quiet_ctx, opened_tcb⟩ peer_fin = .ok fin_answered := rfl

/-- The answer. -/
def fin_ack : Frame :=
  { saddr := 0x0100000a, daddr := 0x0200000a, sport := 0x5000, dport := 0xd204, seq := 5001
    ack := 9002, flags := TH_ACK, window := 114, opts := [1, 1, 8, 10, 0, 0, 3, 232, 0, 0, 0, 0], payload := [] }

theorem fin_answered_frames : fin_answered.ctx.frames = [fin_ack] := by decide +kernel

theorem fin_ack_sent {sent : List Frame}
    (h : fin_answered.ctx.frames = quiet_ctx.frames ++ sent) : fin_ack ∈ sent := by
  rw [fin_answered_frames] at h
  rw [show sent = [fin_ack] from h.symm]
  exact List.mem_singleton_self _

theorem fin_ack_fits : fin_ack.fits := show frame_len fin_ack ≤ 2048 by decide

/-- Whatever happens, in whichever order, the frames sent are what the input
    functions read from the bytes of the frames: addresses, ports, numbers, flags,
    window, options and payload, with both checksums in order. -/
theorem sent_frames_read_back {c c' : Ctx} {o o' : Option UsnTcb} {ev : LifeEvent}
    (h : LifeReachable o) (hok : life_step c o ev = .ok (c', o')) :
    ∃ sent, c'.frames = c.frames ++ sent ∧ ∀ f ∈ sent, f.fits →
      ∀ (m : Wire.Mem) (hwa haddr : Arp.Hwaddr) (trailer : List UInt8),
      ∃ hshort : f.payload.length < 2 ^ 16,
        (∀ ip_id, Octets.usnet_eth_input (Octets.usnet_send_tcp_packet m hwa haddr ip_id f) trailer
          = some (Octets.segment_of f trailer hshort)) ∧
        Octets.usnet_eth_input (Octets.usnet_send_tcp_packet_alone m hwa haddr f) trailer
          = some (Octets.segment_of f trailer hshort) := by
  have hinv : ∀ t, o = some t → LifeInv t := by
    rintro t rfl
    exact lifeInv_of_life h
  obtain ⟨sent, hsent, hopts⟩ := life_step_optsFit hinv hok
  refine ⟨sent, hsent, fun f hf hfits m hwa haddr trailer => ?_⟩
  have hbuilt : Octets.WellBuilt f := ⟨hopts f hf, hfits⟩
  exact ⟨hbuilt.short, hbuilt.read_back m hwa haddr trailer⟩

theorem sent_frames_read_back_opened :
    ∃ c' o', life_step quiet_ctx (some opened_tcb) peer_fin = .ok (c', o') ∧
      c'.frames = [fin_ack] ∧
      (Octets.usnet_eth_input (Octets.usnet_send_tcp_packet (fun _ => 0) #v[2, 0, 0, 0, 0, 1]
        #v[2, 0, 0, 0, 0, 2] 9 fin_ack) []).isSome := by
  have hstep : life_step quiet_ctx (some opened_tcb) peer_fin
      = .ok (fin_answered.ctx, alive fin_answered.tcb) := by
    unfold life_step
    simp only [fin_answered_run]
  obtain ⟨sent, hsent, hread⟩ := sent_frames_read_back opened_tcb_reachable hstep
  obtain ⟨_, hall, -⟩ := hread _ (fin_ack_sent hsent) fin_ack_fits (fun _ => 0) #v[2, 0, 0, 0, 0, 1]
    #v[2, 0, 0, 0, 0, 2] []
  exact ⟨_, _, hstep, fin_answered_frames, Option.isSome_iff_exists.mpr ⟨_, hall 9⟩⟩

/-- A connection sends to its peer and nobody else, never a FIN and never a SYN of
    its own, payload in a bare ACK only that ends where the windows end or before, and
    acknowledges what it expects next. -/
theorem connection_sends_only {c : Ctx} {t : UsnTcb} {ev : LifeEvent} {s' : Conn}
    (h : LifeReachable (some t)) (hok : life_conn ⟨c, t⟩ ev = .ok s') :
    Sends (fun f =>
      f.saddr = t.saddr ∧ f.daddr = t.daddr ∧ f.sport = t.sport ∧ f.dport = t.dport ∧
      f.flags ∈ [TH_SYN ||| TH_ACK, TH_ACK, TH_ACK ||| TH_WACK, TH_RST] ∧
      (f.payload = [] ∨ f.flags = TH_ACK ∧ allowed t f) ∧
      f.ack ∈ if f.flags = TH_RST then [0] else [t.rcv_nxt, s'.tcb.rcv_nxt]) c s'.ctx := by
  have hack : ∀ flags ∈ sent_flags, has flags TH_ACK = ! (flags == TH_RST) := by
    decide +kernel
  have hone : ∀ (face : Face) (f : Frame), FrameOf (allowed t) face f →
      f.saddr = face.saddr ∧ f.daddr = face.daddr ∧ f.sport = face.sport ∧ f.dport = face.dport ∧
      f.flags ∈ sent_flags ∧ (f.payload = [] ∨ f.flags = TH_ACK ∧ allowed t f) ∧
      f.ack = if f.flags = TH_RST then 0 else face.rcv_nxt := by
    rintro face f ⟨u, flags, payload, rfl, hflags, hpayload, rfl⟩
    refine ⟨rfl, rfl, rfl, rfl, hflags, hpayload, ?_⟩
    simp only [tcp_packet, hack flags hflags, UsnTcb.face]
    by_cases hrst : flags = TH_RST <;> simp [hrst]
  refine (life_conn_between (lifeInv_of_life h).state hok).mono fun f hf => ?_
  rcases hf with hf | hf
  · obtain ⟨h₁, h₂, h₃, h₄, h₅, h₆, h₇⟩ := hone _ f hf
    refine ⟨h₁, h₂, h₃, h₄, h₅, h₆, ?_⟩
    rw [h₇]
    split <;> simp [UsnTcb.face]
  · obtain ⟨h₁, h₂, h₃, h₄, h₅, h₆, h₇⟩ := hone _ f hf
    refine ⟨h₁, h₂, h₃, h₄, h₅, h₆, ?_⟩
    rw [h₇]
    split <;> simp

theorem connection_sends_only_opened :
    fin_ack ∈ fin_answered.ctx.frames ∧ fin_ack.daddr = opened_tcb.daddr ∧
      fin_ack.ack ∈ [opened_tcb.rcv_nxt, fin_answered.tcb.rcv_nxt] := by
  obtain ⟨sent, hsent, honly⟩ := connection_sends_only opened_tcb_reachable fin_answered_run
  obtain ⟨-, hdaddr, -, -, -, -, hack⟩ := honly _ (fin_ack_sent hsent)
  exact ⟨fin_answered_frames ▸ List.mem_singleton_self _, hdaddr, hack⟩

end Usnet
