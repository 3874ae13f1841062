import Usnet.Moves
import Usnet.StoreRuns

/-! # Unacknowledged data has a timer

    Whatever takes sequence numbers arms the retransmission timer on the way out,
    and only an acknowledgement of everything or a timeout disarms it.
-/

namespace Usnet

open CInt Run

/-! ## Section 1: A connection with a timer -/

/-- What decides whether a connection needs a timer and has one. -/
structure PendView where
  state : TcpState
  snd_nxt : UInt32
  snd_una : UInt32
  iss : UInt32
  is_fin_sent : Bool
  on_rto_idx : Int
  on_timewait_list : Bool
  sndbuf : Option UsnSendbuf

def UsnTcb.pend (t : UsnTcb) : PendView :=
  { state := t.state, snd_nxt := t.snd_nxt, snd_una := t.sndvar.snd_una
    iss := t.sndvar.iss, is_fin_sent := t.sndvar.is_fin_sent
    on_rto_idx := t.on_rto_idx, on_timewait_list := t.on_timewait_list
    sndbuf := t.sndvar.sndbuf }

/-- What is not acknowledged is timed, and a SYN is not acknowledged before the
    connection is established. -/
structure PendView.Timed (v : PendView) : Prop where
  no_fin : v.is_fin_sent = false
  timewait : v.on_timewait_list = false
  syn : v.state = .syn_received → v.snd_una = v.iss
  armed : TCP_SEQ_GT v.snd_nxt v.snd_una → 0 ≤ v.on_rto_idx

/-- A function keeps the state, and the timer. -/
structure KeepsTimed (s s' : Conn) : Prop where
  state : s'.tcb.state = s.tcb.state
  timed : s.tcb.pend.Timed → s'.tcb.pend.Timed

theorem KeepsTimed.of_eq {s s' : Conn} (h : s'.tcb.pend = s.tcb.pend) : KeepsTimed s s' :=
  ⟨congrArg PendView.state h, fun ht => h ▸ ht⟩

theorem KeepsTimed.trans {s t s' : Conn} (h : KeepsTimed s t) (h' : KeepsTimed t s') :
    KeepsTimed s s' := ⟨h'.state.trans h.state, fun ht => h'.timed (h.timed ht)⟩

theorem KeepsTimed.before {s t s' : Conn} (h : KeepsTimed t s') (hp : t.tcb.pend = s.tcb.pend) :
    KeepsTimed s s' := (KeepsTimed.of_eq hp).trans h

theorem not_gt_self (a : UInt32) : ¬ TCP_SEQ_GT a a := by
  simp [TCP_SEQ_GT, sint_eq]

/-! ## Section 2: The lists of output -/

theorem usnet_remove_control_list_pend (s : Conn) :
    (usnet_remove_control_list s).tcb.pend = s.tcb.pend := by
  unfold usnet_remove_control_list
  split <;> rfl

theorem queue_control_pend (s : Conn) : (queue_control s).tcb.pend = s.tcb.pend := by
  unfold queue_control
  split <;> rfl

theorem usnet_add_send_list_pend (s : Conn) :
    (usnet_add_send_list s).tcb.pend = s.tcb.pend := by
  unfold usnet_add_send_list
  split
  · rfl
  · split <;> rfl

theorem usnet_remove_send_list_pend (s : Conn) :
    (usnet_remove_send_list s).tcb.pend = s.tcb.pend := by
  unfold usnet_remove_send_list
  split <;> rfl

theorem usnet_remove_ack_list_pend (s : Conn) :
    (usnet_remove_ack_list s).tcb.pend = s.tcb.pend := by
  unfold usnet_remove_ack_list
  split <;> rfl

theorem usnet_enqueue_ack_pend (s : Conn) (opt : AckOpt) :
    (usnet_enqueue_ack s opt).tcb.pend = s.tcb.pend := by
  have hadd : ∀ t : Conn, (usnet_add_ack_list t).tcb.pend = t.tcb.pend := by
    intro t
    unfold usnet_add_ack_list
    split <;> rfl
  unfold usnet_enqueue_ack
  rw [hadd]
  cases opt <;> rfl

theorem usnet_update_timeout_list_pend (s : Conn) :
    (usnet_update_timeout_list s).tcb.pend = s.tcb.pend := by
  unfold usnet_update_timeout_list
  split <;> rfl

theorem usnet_remove_rto_list_pend (s : Conn) :
    ∃ i, (usnet_remove_rto_list s).tcb.pend = { s.tcb.pend with on_rto_idx := i } := by
  unfold usnet_remove_rto_list
  split
  · exact ⟨_, rfl⟩
  · exact ⟨_, rfl⟩

/-! ## Section 3: Packets -/

/-- A timer is started unless the connection is being closed for good. -/
theorem usnet_add_rto_list_armed {s : Conn} (htw : s.tcb.on_timewait_list = false) :
    ∃ i, 0 ≤ i ∧ (usnet_add_rto_list s).tcb.pend = { s.tcb.pend with on_rto_idx := i } := by
  rw [usnet_add_rto_list_eq]
  by_cases hidx : s.tcb.on_rto_idx < 0
  · rw [if_pos ⟨hidx, htw⟩]
    exact ⟨_, Int.natCast_nonneg _, rfl⟩
  · rw [if_neg fun h => hidx h.1]
    exact ⟨s.tcb.on_rto_idx, Int.not_lt.mp hidx, rfl⟩

/-- What moves `snd_nxt` starts the timer. -/
theorem transmit_timed (s : Conn) (frame : Frame) : KeepsTimed s (transmit s frame).2 := by
  unfold transmit arm_rto
  simp only
  generalize hlen : (frame.payload.length : Int) = len
  have hlen : 0 ≤ len := hlen ▸ Int.natCast_nonneg _
  have hsynfin : 0 ≤ synfin frame.flags := by
    unfold synfin
    split <;> decide
  generalize synfin frame.flags = sf at hsynfin
  generalize hs : s.onTcb (fun t => { t with snd_nxt := t.snd_nxt + u32 len + u32 sf }) = t
  have hpend : t.tcb.pend = { s.tcb.pend with snd_nxt := s.tcb.snd_nxt + u32 len + u32 sf } := by
    rw [← hs]
    rfl
  split
  · refine ⟨?_, fun h => ?_⟩
    · exact (usnet_add_rto_list_same _).2.1.2.2.2.2.trans (congrArg PendView.state hpend)
    · have htw : t.tcb.on_timewait_list = false :=
        (congrArg PendView.on_timewait_list hpend).trans h.timewait
      obtain ⟨i, hi, harm⟩ := usnet_add_rto_list_armed
        (s := t.onSnd fun v => { v with ts_rto := t.ctx.cur_time + v.rto }) htw
      have hpend' : (t.onSnd fun v => { v with ts_rto := t.ctx.cur_time + v.rto }).tcb.pend
          = t.tcb.pend := rfl
      simp only [Conn.onCtx_tcb, harm, hpend', hpend]
      exact ⟨h.no_fin, h.timewait, h.syn, fun _ => hi⟩
  · rename_i hnone
    have hlen : len = 0 := by omega
    have hsynfin : sf = 0 := by omega
    have hsame : s.tcb.snd_nxt + u32 len + u32 sf = s.tcb.snd_nxt := by
      rw [hlen, hsynfin]
      simp
    rw [hsame] at hpend
    exact .of_eq hpend

theorem note_header_pend {s : Conn} {flags : UInt8} (hfin : has flags TH_FIN = false) :
    (note_header s flags).tcb.pend = s.tcb.pend := by
  have hnofin : note_fin s flags = s := by
    unfold note_fin
    rw [hfin]
    split <;> rfl
  have hack : (note_ack s flags).tcb.pend = s.tcb.pend := by
    unfold note_ack
    split
    · exact usnet_update_timeout_list_pend _
    · rfl
  have hwin : ∀ t : Conn, (note_window t flags).tcb.pend = t.tcb.pend := by
    intro t
    unfold note_window
    generalize (if has flags TH_SYN then 0 else t.tcb.sndvar.wscale) = wscale
    simp only
    split <;> rfl
  unfold note_header
  rw [hnofin, hwin, hack]

theorem usnet_send_tcp_packet_timed (s : Conn) {flags : UInt8} (payload : List UInt8)
    (hfin : has flags TH_FIN = false) :
    KeepsTimed s (usnet_send_tcp_packet s flags payload).2 := by
  unfold usnet_send_tcp_packet
  simp only
  split
  · exact .of_eq rfl
  · split
    · exact .of_eq rfl
    · have hnote : (note_header (s.onCtx fun _ => (usnet_ipv4_output s.ctx).2) flags).tcb.pend
          = s.tcb.pend := note_header_pend hfin
      exact (KeepsTimed.of_eq hnote).trans (transmit_timed _ _)

/-- The states that need a timer. -/
def unclosed (st : TcpState) : Prop := st = .syn_received ∨ sending st

/-- A SYN/ACK is sent from the beginning again. -/
theorem timed_resyn {v : PendView} (h : v.Timed) (hst : v.state = .syn_received) :
    PendView.Timed { v with snd_nxt := v.iss } := by
  refine ⟨h.no_fin, h.timewait, h.syn, fun hgt => ?_⟩
  simp only [h.syn hst] at hgt
  exact absurd hgt (not_gt_self _)

theorem usnet_send_control_packet_timed {s : Conn} (hst : unclosed s.tcb.state) :
    KeepsTimed s (usnet_send_control_packet s).2 := by
  have hsent : ∀ t flags, has flags TH_FIN = false →
      KeepsTimed t (usnet_remove_ack_list (usnet_send_tcp_packet t flags []).2) :=
    fun t flags hfin => (usnet_send_tcp_packet_timed t [] hfin).trans
      (.of_eq (usnet_remove_ack_list_pend _))
  unfold usnet_send_control_packet
  rcases hst with hst | hst | hst
  · simp only [hst]
    have hresyn : KeepsTimed s (s.onTcb fun t => { t with snd_nxt := t.sndvar.iss }) :=
      ⟨rfl, fun h => timed_resyn h hst⟩
    exact hresyn.trans (hsent _ _ rfl)
  · simp only [hst]
    exact hsent _ _ rfl
  · simp only [hst]
    exact hsent _ _ rfl

theorem usnet_add_control_list_timed {s : Conn} (hst : unclosed s.tcb.state) :
    KeepsTimed s (usnet_add_control_list s) := by
  refine (usnet_send_control_packet_timed hst).trans (.of_eq ?_)
  unfold usnet_add_control_list
  simp only
  split
  · exact queue_control_pend _
  · exact usnet_remove_control_list_pend _

/-! ## Section 4: The visits of the dispatch loop -/

theorem control_visit_timed {s : Conn} (hst : unclosed s.tcb.state) :
    KeepsTimed s (control_visit s) := by
  unfold control_visit
  simp only
  split
  · generalize ht : Conn.onSnd (s.onCtx _) _ = t
    have hpend : t.tcb.pend = s.tcb.pend := by
      rw [← ht]
      rfl
    have hstate : t.tcb.state = s.tcb.state := congrArg PendView.state hpend
    have hsend := (KeepsTimed.of_eq hpend).trans
      (usnet_send_control_packet_timed (hstate.symm ▸ hst))
    split
    · exact hsend.trans (.of_eq rfl)
    · exact hsend
  · exact .of_eq rfl

theorem send_acks_timed (n : Nat) (s : Conn) : KeepsTimed s (send_acks n s) := by
  induction n generalizing s with
  | zero => exact .of_eq rfl
  | succ n ih =>
    have hpkt := @usnet_send_tcp_packet_timed s TH_ACK [] rfl
    unfold send_acks
    simp only
    split
    · exact hpkt
    · exact hpkt.trans ((ih _).before rfl)

theorem send_wack_timed (s : Conn) : KeepsTimed s (send_wack s) := by
  unfold send_wack
  split
  · simp only
    generalize ht : s.onSnd (fun v => { v with is_wack := false }) = t
    have hpend : t.tcb.pend = s.tcb.pend := by
      rw [← ht]
      rfl
    have hpkt := (KeepsTimed.of_eq hpend).trans
      (@usnet_send_tcp_packet_timed t (TH_ACK ||| TH_WACK) [] rfl)
    split
    · exact hpkt.trans (.of_eq rfl)
    · exact hpkt
  · exact .of_eq rfl

theorem send_waiting_timed {s : Conn} (on_list : Bool) (hst : unclosed s.tcb.state) :
    KeepsTimed s (send_waiting s on_list) := by
  unfold send_waiting
  split
  · have hcontrol := usnet_add_control_list_timed
      (s := s.onTcb fun t => { t with control_list_waiting := false }) hst
    exact hcontrol.before rfl
  · exact .of_eq rfl

theorem ack_visit_timed {s : Conn} (hst : unclosed s.tcb.state) : KeepsTimed s (ack_visit s) := by
  have hack : KeepsTimed s (ack_or_drop s) := by
    unfold ack_or_drop
    split
    · simp only
      have hacks := (send_acks_timed s.tcb.sndvar.ack_cnt.toNat s).trans (send_wack_timed _)
      split
      · exact hacks
      · exact hacks.trans (.of_eq (usnet_remove_ack_list_pend _))
    · exact (KeepsTimed.of_eq rfl).trans (.of_eq (usnet_remove_ack_list_pend _))
  unfold ack_visit
  split
  · exact hack.trans (send_waiting_timed _ (hack.state.symm ▸ hst))
  · exact .of_eq rfl

/-- The send buffer does not count. -/
theorem KeepsTimed.of_sndbuf {s s' : Conn} {sndbuf : Option UsnSendbuf}
    (h : s'.tcb.pend = { s.tcb.pend with sndbuf := sndbuf }) : KeepsTimed s s' :=
  ⟨congrArg PendView.state h, fun ht => h ▸ ⟨ht.no_fin, ht.timewait, ht.syn, ht.armed⟩⟩

theorem flush_turn_timed {s : Conn} {buf : UsnSendbuf} {maxlen window head tail : UInt32}
    {packets : Int} {turn : FlushTurn}
    (h : flush_turn s buf maxlen window head tail packets = .ok turn) :
    KeepsTimed s turn.conn := by
  unfold flush_turn at h
  simp only at h
  split at h
  · cases h
  split at h
  · obtain rfl := Except.ok.inj h
    exact .of_eq rfl
  split at h
  · obtain rfl := Except.ok.inj h
    exact .of_eq rfl
  split at h
  · obtain rfl := Except.ok.inj h
    unfold no_window
    split
    · exact .of_eq (usnet_enqueue_ack_pend s .wack)
    · exact .of_eq rfl
  · obtain rfl := Except.ok.inj h
    unfold send_turn
    simp only
    split
    · exact usnet_send_tcp_packet_timed s _ rfl
    · exact (usnet_send_tcp_packet_timed s _ rfl).trans (.of_sndbuf rfl)

theorem flush_loop_timed {maxlen window tail : UInt32} (fuel : Nat) {s s' : Conn}
    {buf : UsnSendbuf} {head : UInt32} {packets r : Int}
    (h : flush_loop maxlen window tail fuel s buf head packets = .ok (r, s')) :
    KeepsTimed s s' := by
  induction fuel generalizing s buf head packets with
  | zero => cases h
  | succ fuel ih =>
    unfold flush_loop at h
    split at h
    · cases h
    · rename_i hturn
      obtain ⟨-, rfl⟩ := Prod.mk.inj (Except.ok.inj h)
      exact flush_turn_timed hturn
    · rename_i hturn
      exact (flush_turn_timed hturn).trans (ih h)

theorem usnet_flush_tcp_sendbuf_timed {s s' : Conn} {r : Int}
    (h : usnet_flush_tcp_sendbuf s = .ok (r, s')) : KeepsTimed s s' := by
  unfold usnet_flush_tcp_sendbuf at h
  split at h
  · cases h
  · split at h
    · obtain ⟨-, rfl⟩ := Prod.mk.inj (Except.ok.inj h)
      exact .of_eq rfl
    · exact flush_loop_timed _ h

theorem data_visit_timed {s s' : Conn} (hst : unclosed s.tcb.state) (h : data_visit s = .ok s') :
    KeepsTimed s s' := by
  have hsend : ∀ t r u, send_data t = .ok (r, u) → KeepsTimed t u := by
    intro t r u hu
    unfold send_data at hu
    split at hu
    · split at hu
      · obtain ⟨-, rfl⟩ := Prod.mk.inj (Except.ok.inj hu)
        exact .of_eq rfl
      · exact usnet_flush_tcp_sendbuf_timed hu
    · exact usnet_flush_tcp_sendbuf_timed hu
    · exact usnet_flush_tcp_sendbuf_timed hu
    · exact usnet_flush_tcp_sendbuf_timed hu
    · obtain ⟨-, rfl⟩ := Prod.mk.inj (Except.ok.inj hu)
      exact .of_eq rfl
  unfold data_visit at h
  simp only at h
  generalize ht : s.onCtx (fun c => { c with send_list := c.send_list.erase s.tcb.id }) = t at h
  have htcb : t.tcb = s.tcb := by
    rw [← ht]
    rfl
  have hfirst : KeepsTimed s t := .of_eq (by rw [htcb])
  split at h
  · split at h
    · cases h
    · rename_i r u hu
      have hkept := hfirst.trans (hsend t r u hu)
      split at h
      · obtain rfl := Except.ok.inj h
        exact hkept.trans (.of_eq rfl)
      · obtain rfl := Except.ok.inj h
        refine hkept.trans ((send_waiting_timed _ ?_).before rfl)
        exact hkept.state.symm ▸ hst
  · obtain rfl := Except.ok.inj h
    exact hfirst

/-! ## Section 5: Timeouts -/

theorem back_off_pend (s : Conn) : (back_off s).tcb.pend = s.tcb.pend := by
  have hkept : ∀ (s : Conn) (f : SndVars → SndVars),
      (f s.tcb.sndvar).snd_una = s.tcb.sndvar.snd_una →
      (f s.tcb.sndvar).iss = s.tcb.sndvar.iss →
      (f s.tcb.sndvar).is_fin_sent = s.tcb.sndvar.is_fin_sent →
      (f s.tcb.sndvar).sndbuf = s.tcb.sndvar.sndbuf → (s.onSnd f).tcb.pend = s.tcb.pend := by
    intro s f h₁ h₂ h₃ h₄
    simp only [UsnTcb.pend, Conn.onSnd_tcb, h₁, h₂, h₃, h₄]
  unfold back_off
  simp only
  refine (hkept _ _ rfl rfl rfl rfl).trans ((hkept _ _ ?_ ?_ ?_ ?_).trans
    ((hkept _ _ rfl rfl rfl rfl).trans (hkept _ _ rfl rfl rfl rfl)))
  all_goals split <;> rfl

/-- A packet that cannot leave changes nothing that counts. -/
theorem usnet_send_tcp_packet_blocked {s : Conn} {flags : UInt8}
    (hout : (usnet_ipv4_output s.ctx).1 = false) :
    usnet_send_tcp_packet s flags [] = (-2, s.onCtx fun _ => (usnet_ipv4_output s.ctx).2) := by
  unfold usnet_send_tcp_packet
  simp only [hout, List.length_nil]
  rw [if_neg (by omega)]
  rfl

/-- After a retransmission everything is to be sent again. -/
theorem retransmit_pend {s : Conn} (h : s.tcb.pend.Timed) (hst : unclosed s.tcb.state)
    (hout : s.tcb.state = .syn_received → (usnet_ipv4_output s.ctx).1 = false) :
    (retransmit s).tcb.pend = { s.tcb.pend with snd_nxt := s.tcb.sndvar.snd_una } := by
  unfold retransmit
  simp only
  -- in SYN_RECEIVED the SYN/ACK would be sent at once, but the interface takes nothing
  rcases hst with hst | hst | hst
  · simp only [Conn.onTcb_tcb, hst]
    have hsyn : s.tcb.sndvar.snd_una = s.tcb.sndvar.iss := h.syn hst
    generalize ht : s.onTcb (fun t => { t with snd_nxt := t.sndvar.snd_una }) = t
    have hctx : t.ctx = s.ctx := by
      rw [← ht]
      rfl
    have hstate : t.tcb.state = .syn_received := by
      rw [← ht]
      exact hst
    have hpend : t.tcb.pend = { s.tcb.pend with snd_nxt := s.tcb.sndvar.snd_una } := by
      rw [← ht]
      rfl
    have hiss : t.tcb.sndvar.iss = s.tcb.sndvar.snd_una := by
      rw [hsyn, ← ht]
      rfl
    have hblocked := @usnet_send_tcp_packet_blocked
      (t.onTcb fun t => { t with snd_nxt := t.sndvar.iss }) (TH_SYN ||| TH_ACK)
      (hctx.symm ▸ hout hst)
    have hneg : (-2 : Int) < 0 := by decide
    have hresyn : (t.onTcb fun t => { t with snd_nxt := t.sndvar.iss }).tcb.pend = t.tcb.pend := by
      have hnxt : t.tcb.pend = { t.tcb.pend with snd_nxt := t.tcb.sndvar.iss } := by
        rw [hiss, hpend]
      exact hnxt.symm
    unfold usnet_add_control_list usnet_send_control_packet
    simp only [hstate, hblocked]
    rw [if_pos hneg]
    refine (queue_control_pend _).trans ((usnet_remove_ack_list_pend _).trans ?_)
    exact hresyn.trans hpend
  · simp only [Conn.onTcb_tcb, hst]
    exact usnet_add_send_list_pend _
  · simp only [Conn.onTcb_tcb, hst]
    exact usnet_add_send_list_pend _

/-- Everything that was sent is sent again, so no timer is needed. -/
theorem timed_again {v : PendView} (h : v.Timed) (i : Int) :
    PendView.Timed { v with snd_nxt := v.snd_una, on_rto_idx := i } :=
  ⟨h.no_fin, h.timewait, h.syn, fun hgt => absurd hgt (not_gt_self _)⟩

/-- A visit of the check leaves a connection without a timer, and in need of none
    unless a SYN/ACK has just left. -/
theorem rtm_visit_timed {idx : Nat} {s s' : Conn} (h : s.tcb.pend.Timed)
    (hst : unclosed s.tcb.state)
    (hout : s.tcb.state = .syn_received → gives_up s.tcb = false →
      (usnet_ipv4_output s.ctx).1 = false)
    (hok : rtm_visit idx s = .ok s') :
    s'.tcb.state = .closed ∨ s'.tcb.state = s.tcb.state ∧ s'.tcb.pend.Timed := by
  unfold rtm_visit at hok
  split at hok
  · split at hok
    · cases hok
    · rename_i r u hrto
      obtain rfl := Except.ok.inj hok
      unfold usnet_handle_rto at hrto
      split at hrto
      · cases hrto
      split at hrto
      · obtain ⟨-, hu⟩ := Prod.mk.inj (Except.ok.inj hrto)
        have hclosed := congrArg Core.state (give_up_core s)
        rw [hu] at hclosed
        exact .inl hclosed
      rename_i hmax
      have hpend := back_off_pend s
      have hctx : (back_off s).ctx = s.ctx := by
        unfold back_off
        simp only [Conn.onSnd_ctx]
      generalize back_off s = t at hrto hpend hctx
      have hstate : t.tcb.state = s.tcb.state := congrArg PendView.state hpend
      -- the states before a FIN all resend
      have hagain : retransmit t = u := by
        simp only [hstate] at hrto
        rcases hst with hst | hst | hst
        all_goals
          simp only [hst] at hrto
          exact (Prod.mk.inj (Except.ok.inj hrto)).2
      subst hagain
      have hout' : t.tcb.state = .syn_received → (usnet_ipv4_output t.ctx).1 = false := by
        intro hsyn
        rw [hctx]
        refine hout (hstate ▸ hsyn) ?_
        unfold gives_up
        rw [if_neg hmax, ← hstate, hsyn]
      have ht : t.tcb.pend.Timed := hpend.symm ▸ h
      have hresent := retransmit_pend ht (hstate.symm ▸ hst) hout'
      generalize retransmit t = u at hresent
      refine .inr ⟨(congrArg PendView.state hresent).trans hstate, ?_⟩
      -- the list is left, but with `snd_nxt` at `snd_una` no timer is needed
      have hnew : (u.onTcb fun t => { t with on_rto_idx := -1 }).tcb.pend
          = { t.tcb.pend with snd_nxt := t.tcb.sndvar.snd_una, on_rto_idx := -1 } :=
        congrArg (fun v : PendView => { v with on_rto_idx := -1 }) hresent
      exact hnew ▸ timed_again ht (-1)
  · obtain rfl := Except.ok.inj hok
    exact .inr ⟨rfl, h⟩

/-! ## Section 6: Acknowledgements -/

theorem update_window_pend (s : Conn) (seg : Segment) (ack_seq : UInt32) :
    (update_window s seg ack_seq).tcb.pend = s.tcb.pend := by
  unfold update_window
  simp only
  split
  · split <;> rfl
  · rfl

theorem check_dup_pend (s : Conn) (seg : Segment) (ack_seq edge : UInt32) :
    (check_dup s seg ack_seq edge).2.tcb.pend = s.tcb.pend := by
  unfold check_dup
  split <;> rfl

/-- `snd_nxt` stays, or is what is acknowledged. -/
def NxtOr (ack_seq : UInt32) (s s' : Conn) : Prop :=
  s'.tcb.pend = s.tcb.pend ∨ s'.tcb.pend = { s.tcb.pend with snd_nxt := ack_seq }

theorem NxtOr.trans {ack_seq : UInt32} {s t s' : Conn} (h : NxtOr ack_seq s t)
    (h' : NxtOr ack_seq t s') : NxtOr ack_seq s s' := by
  rcases h' with h' | h'
  · rcases h with h | h
    · exact .inl (h'.trans h)
    · exact .inr (h'.trans h)
  · rcases h with h | h
    · exact .inr (by rw [h', h])
    · exact .inr (by rw [h', h])

theorem fast_retransmit_pend (s : Conn) (ack_seq : UInt32) (dup : Bool) :
    NxtOr ack_seq s (fast_retransmit s ack_seq dup) := by
  rcases fast_retransmit_cases s ack_seq dup with
    ⟨u, cwnd, ssthresh, nrtx, rfl | rfl, heq⟩ | ⟨cwnd, heq⟩
  · rw [heq]
    exact .inl (usnet_add_send_list_pend _)
  · rw [heq]
    exact .inr (usnet_add_send_list_pend _)
  · rw [heq]
    exact .inl rfl

theorem forward_nxt_pend (s : Conn) (buf : UsnSendbuf) (ack_seq : UInt32) :
    NxtOr ack_seq s (forward_nxt s buf ack_seq) := by
  unfold forward_nxt
  simp only
  split
  · split
    · exact .inr (usnet_remove_send_list_pend _)
    · exact .inr rfl
  · exact .inl rfl

theorem usnet_estimate_rtt_pend (s : Conn) (mrtt : UInt32) :
    (usnet_estimate_rtt s mrtt).tcb.pend = s.tcb.pend := by
  unfold usnet_estimate_rtt
  simp only
  split
  · split <;> rfl
  · rfl

theorem update_rto_pend {s s' : Conn} (h : update_rto s = .ok s') : s'.tcb.pend = s.tcb.pend := by
  unfold update_rto at h
  split at h
  · simp only at h
    split at h
    · cases h
    · obtain rfl := Except.ok.inj h
      exact usnet_estimate_rtt_pend _ _
  · obtain rfl := Except.ok.inj h
    rfl

theorem update_cwnd_pend {s s' : Conn} {packets : UInt16} (h : update_cwnd s packets = .ok s') :
    s'.tcb.pend = s.tcb.pend := by
  unfold update_cwnd at h
  simp only at h
  split at h
  · split at h
    · obtain rfl := Except.ok.inj h
      rfl
    · split at h
      · cases h
      · obtain rfl := Except.ok.inj h
        rfl
  · obtain rfl := Except.ok.inj h
    rfl

/-- The timer is started afresh when something is left to be acknowledged. -/
theorem usnet_update_retransmission_timer_timed {s s' : Conn}
    (hfin : s.tcb.sndvar.is_fin_sent = false) (htw : s.tcb.on_timewait_list = false)
    (hst : s.tcb.state ≠ .syn_received)
    (h : usnet_update_retransmission_timer s = .ok s') :
    s'.tcb.state = s.tcb.state ∧ s'.tcb.pend.Timed := by
  unfold usnet_update_retransmission_timer at h
  split at h
  · cases h
  simp only at h
  generalize ht : (if (s.onSnd fun v => { v with nrtx := 0 }).tcb.on_rto_idx ≥ 0 then
    usnet_remove_rto_list (s.onSnd fun v => { v with nrtx := 0 })
    else s.onSnd fun v => { v with nrtx := 0 }) = t at h
  have hpend : ∃ i, t.tcb.pend = { s.tcb.pend with on_rto_idx := i } := by
    rw [← ht]
    split
    · exact usnet_remove_rto_list_pend _
    · exact ⟨_, rfl⟩
  obtain ⟨i, hpend⟩ := hpend
  split at h
  · obtain rfl := Except.ok.inj h
    generalize hu : t.onSnd (fun v => { v with ts_rto := t.ctx.cur_time + v.rto }) = u
    have hupend : u.tcb.pend = { s.tcb.pend with on_rto_idx := i } := by
      rw [← hpend, ← hu]
      rfl
    have hutw : u.tcb.on_timewait_list = false :=
      (congrArg PendView.on_timewait_list hupend).trans htw
    obtain ⟨j, hj, harm⟩ := usnet_add_rto_list_armed hutw
    rw [hupend] at harm
    refine ⟨congrArg PendView.state harm, ?_⟩
    rw [harm]
    exact ⟨hfin, htw, fun hsyn => absurd hsyn hst, fun _ => hj⟩
  -- all that was sent is acknowledged, so the timer may stay off
  · rename_i hnone
    obtain rfl := Except.ok.inj h
    have hnxt : t.tcb.snd_nxt = s.tcb.snd_nxt := congrArg PendView.snd_nxt hpend
    have huna : t.tcb.sndvar.snd_una = s.tcb.sndvar.snd_una := congrArg PendView.snd_una hpend
    rw [hnxt, huna] at hnone
    refine ⟨congrArg PendView.state hpend, ?_⟩
    rw [hpend]
    exact ⟨hfin, htw, fun hsyn => absurd hsyn hst, fun hgt => absurd hgt hnone⟩

theorem ack_data_timed {s s' : Conn} {buf : UsnSendbuf} {ack_seq : UInt32} {r : Int}
    (hfin : s.tcb.sndvar.is_fin_sent = false) (htw : s.tcb.on_timewait_list = false)
    (hst : s.tcb.state ≠ .syn_received) (h : ack_data s buf ack_seq = .ok (r, s')) :
    s'.tcb.state = s.tcb.state ∧ s'.tcb.pend.Timed := by
  unfold ack_data at h
  simp only at h
  split at h
  · cases h
  simp only [bind, Except.bind] at h
  split at h
  · cases h
  rename_i s₁ hrto
  split at h
  · cases h
  rename_i s₂ hcwnd
  split at h
  · cases h
  rename_i s₃ hremove
  obtain ⟨-, rfl⟩ := Prod.mk.inj (Except.ok.inj h)
  -- estimator and congestion window do not touch what the timer is about
  have hpend : s₂.tcb.pend = s.tcb.pend := (update_cwnd_pend hcwnd).trans (update_rto_pend hrto)
  unfold remove_acked at hremove
  simp only at hremove
  generalize ht : Conn.onSnd s₂ _ = t at hremove
  have htpend : ∃ una buf, t.tcb.pend = { s.tcb.pend with snd_una := una, sndbuf := buf } := by
    rw [← ht, ← hpend]
    exact ⟨_, _, rfl⟩
  have huser : ∃ u, u.tcb.pend = t.tcb.pend ∧ usnet_update_retransmission_timer u = .ok s₃ := by
    split at hremove
    · exact ⟨usnet_raise_write_event t, rfl, hremove⟩
    · exact ⟨t, rfl, hremove⟩
  obtain ⟨una, buf', htpend⟩ := htpend
  obtain ⟨u, hu, htimer⟩ := huser
  rw [htpend] at hu
  have hstate : u.tcb.state = s.tcb.state := congrArg PendView.state hu
  obtain ⟨hs, ht⟩ := usnet_update_retransmission_timer_timed
    ((congrArg PendView.is_fin_sent hu).trans hfin)
    ((congrArg PendView.on_timewait_list hu).trans htw) (hstate.symm ▸ hst) htimer
  exact ⟨hs.trans hstate, ht⟩

/-- An acknowledgement of nothing new does not lead `snd_nxt` ahead of `snd_una`
    without a timer. -/
def acks_timed (v : PendView) (ack_seq : UInt32) : Prop :=
  ∀ buf, v.sndbuf = some buf → ¬ TCP_SEQ_GT ack_seq (buf.head_seq + buf.len) →
    TCP_SEQ_GEQ buf.head_seq ack_seq → TCP_SEQ_GT ack_seq v.snd_una → 0 ≤ v.on_rto_idx

theorem process_valid_ack_timed {s s' : Conn} {buf : UsnSendbuf} {seg : Segment}
    {ack_seq : UInt32} {r : Int} (h : s.tcb.pend.Timed) (hst : s.tcb.state ≠ .syn_received)
    (hc : TCP_SEQ_GEQ buf.head_seq ack_seq → TCP_SEQ_GT ack_seq s.tcb.sndvar.snd_una →
      0 ≤ s.tcb.on_rto_idx) (hok : process_valid_ack s buf seg ack_seq = .ok (r, s')) :
    s'.tcb.state = s.tcb.state ∧ s'.tcb.pend.Timed := by
  unfold process_valid_ack at hok
  simp only at hok
  generalize hs₁ : update_window _ seg ack_seq = s₁ at hok
  have hp₁ : s₁.tcb.pend = s.tcb.pend := by
    rw [← hs₁]
    exact update_window_pend _ _ _
  generalize hs₂ : check_dup s₁ seg ack_seq _ = s₂ at hok
  have hp₂ : s₂.2.tcb.pend = s₁.tcb.pend := by
    rw [← hs₂]
    exact check_dup_pend _ _ _ _
  have hnxt : NxtOr ack_seq s₂.2 (forward_nxt (fast_retransmit s₂.2 ack_seq s₂.1) buf ack_seq) :=
    (fast_retransmit_pend _ _ _).trans (forward_nxt_pend _ _ _)
  generalize forward_nxt (fast_retransmit s₂.2 ack_seq s₂.1) buf ack_seq = u at hok hnxt
  -- up to here only `snd_nxt` may have moved, to the acknowledgement
  have hu : ∃ n, (n = s.tcb.snd_nxt ∨ n = ack_seq) ∧
      u.tcb.pend = { s.tcb.pend with snd_nxt := n } := by
    rcases hnxt with hnxt | hnxt
    · exact ⟨s.tcb.snd_nxt, .inl rfl, hnxt.trans (hp₂.trans hp₁)⟩
    · exact ⟨ack_seq, .inr rfl, by rw [hnxt, hp₂, hp₁]⟩
  obtain ⟨n, hn, hu⟩ := hu
  have hstate : u.tcb.state = s.tcb.state := congrArg PendView.state hu
  split at hok
  · rename_i hold
    obtain ⟨-, rfl⟩ := Prod.mk.inj (Except.ok.inj hok)
    refine ⟨hstate, ?_⟩
    rw [hu]
    refine ⟨h.no_fin, h.timewait, h.syn, fun hgt => ?_⟩
    -- moved back and old: the connection still has its timer, by `hc`
    rcases hn with rfl | rfl
    · exact h.armed hgt
    · exact hc hold hgt
  · obtain ⟨hs, ht⟩ := ack_data_timed ((congrArg PendView.is_fin_sent hu).trans h.no_fin)
      ((congrArg PendView.on_timewait_list hu).trans h.timewait) (hstate.symm ▸ hst) hok
    exact ⟨hs.trans hstate, ht⟩

/-- Before a FIN is sent every acknowledgement counts as it is. -/
theorem counted_ack_no_fin {s : Conn} (h : s.tcb.sndvar.is_fin_sent = false) (ack_seq : UInt32) :
    counted_ack s ack_seq = ack_seq := by
  unfold counted_ack
  split <;> simp [h]

theorem process_ack_if_buffered_timed {s s' : Conn} {seg : Segment} (h : s.tcb.pend.Timed)
    (hst : s.tcb.state ≠ .syn_received)
    (hc : acks_timed s.tcb.pend seg.ack_seq)
    (hok : process_ack_if_buffered s seg = .ok s') :
    s'.tcb.state = s.tcb.state ∧ s'.tcb.pend.Timed := by
  unfold process_ack_if_buffered at hok
  split at hok
  · obtain rfl := Except.ok.inj hok
    exact ⟨rfl, h⟩
  · rename_i buf hbuf
    unfold usnet_process_ack at hok
    rw [counted_ack_no_fin h.no_fin] at hok
    by_cases hgt : TCP_SEQ_GT seg.ack_seq (buf.head_seq + buf.len)
    · simp only [hgt, if_true] at hok
      obtain rfl := Except.ok.inj hok
      exact ⟨rfl, h⟩
    · simp only [hgt, if_false] at hok
      split at hok
      · cases hok
      · rename_i r s₁ hvalid
        obtain rfl := Except.ok.inj hok
        exact process_valid_ack_timed h hst (hc buf hbuf hgt) hvalid

/-! ## Section 7: Segments -/

theorem validate_timestamp_pend {s s' : Conn} {seg : Segment} {r : Int}
    (h : validate_timestamp s seg = .ok (r, s')) : s'.tcb.pend = s.tcb.pend := by
  unfold validate_timestamp at h
  split at h
  · split at h
    · cases h
    · obtain ⟨-, rfl⟩ := Prod.mk.inj (Except.ok.inj h)
      rfl
    · split at h
      · obtain ⟨-, rfl⟩ := Prod.mk.inj (Except.ok.inj h)
        exact usnet_enqueue_ack_pend _ _
      · obtain ⟨-, rfl⟩ := Prod.mk.inj (Except.ok.inj h)
        rfl
  · obtain ⟨-, rfl⟩ := Prod.mk.inj (Except.ok.inj h)
    rfl

theorem unclosed.not_time_wait {st : TcpState} (h : unclosed st) : st ≠ .time_wait := by
  rcases h with rfl | rfl | rfl <;> decide

theorem reject_seq_timed {s s' : Conn} {seg : Segment} {r : Int} (hst : unclosed s.tcb.state)
    (h : reject_seq s seg = .ok (r, s')) : r < 0 ∧ KeepsTimed s s' := by
  unfold reject_seq at h
  split at h
  · obtain ⟨rfl, rfl⟩ := Prod.mk.inj (Except.ok.inj h)
    exact ⟨by decide, .of_eq rfl⟩
  split at h
  · split at h
    · obtain ⟨rfl, rfl⟩ := Prod.mk.inj (Except.ok.inj h)
      exact ⟨by decide, .of_eq (usnet_enqueue_ack_pend _ _)⟩
    · split at h
      · obtain ⟨rfl, rfl⟩ := Prod.mk.inj (Except.ok.inj h)
        exact ⟨by decide, .of_eq (usnet_enqueue_ack_pend _ _)⟩
      · obtain ⟨rfl, rfl⟩ := Prod.mk.inj (Except.ok.inj h)
        exact ⟨by decide, .of_eq (usnet_enqueue_ack_pend _ _)⟩
  split at h
  · rename_i htw
    exact absurd htw hst.not_time_wait
  · obtain ⟨rfl, rfl⟩ := Prod.mk.inj (Except.ok.inj h)
    exact ⟨by decide, usnet_add_control_list_timed hst⟩

/-- A segment that passes the check changes nothing that counts. -/
theorem usnet_validate_seq_timed {s s' : Conn} {seg : Segment} {r : Int}
    (hst : unclosed s.tcb.state) (h : usnet_validate_seq s seg = .ok (r, s')) :
    r < 0 ∧ KeepsTimed s s' ∨ ¬ r < 0 ∧ s'.tcb.pend = s.tcb.pend := by
  unfold usnet_validate_seq at h
  split at h
  · cases h
  rename_i r₁ s₁ hts
  have hp := validate_timestamp_pend hts
  split at h
  · rename_i hneg
    obtain ⟨rfl, rfl⟩ := Prod.mk.inj (Except.ok.inj h)
    exact .inl ⟨hneg, .of_eq hp⟩
  split at h
  · obtain ⟨rfl, rfl⟩ := Prod.mk.inj (Except.ok.inj h)
    exact .inr ⟨by decide, hp⟩
  · have hst₁ : s₁.tcb.state = s.tcb.state := congrArg PendView.state hp
    obtain ⟨hneg, hk⟩ := reject_seq_timed (hst₁.symm ▸ hst) h
    exact .inl ⟨hneg, hk.before hp⟩

theorem note_segment_pend (s : Conn) (seg : Segment) :
    (note_segment s seg).tcb.pend = s.tcb.pend :=
  usnet_update_timeout_list_pend _

/-- The end of the handshake acknowledges all there is. -/
theorem usnet_handle_syn_received_timed {s s' : Conn} {seg : Segment} (h : s.tcb.pend.Timed)
    (hst : s.tcb.state = .syn_received) (hok : usnet_handle_syn_received s seg = .ok s') :
    s'.tcb.pend.Timed := by
  unfold usnet_handle_syn_received at hok
  split at hok
  · split at hok
    · obtain rfl := Except.ok.inj hok
      exact h
    rename_i hack
    -- `snd_una` and `snd_nxt` are both put behind the SYN
    have hack : seg.ack_seq = s.tcb.sndvar.iss + 1 := not_not.mp hack
    have huna : s.tcb.sndvar.snd_una = s.tcb.sndvar.iss := h.syn hst
    unfold establish at hok
    simp only at hok
    generalize hs₁ : (s.onSnd fun v =>
      { v with
        snd_una := v.snd_una + 1
        cwnd := if v.cwnd = 1 then v.mss.toUInt32 * 2 else v.mss.toUInt32
        nrtx := 0 }).onTcb (fun t => { t with snd_nxt := seg.ack_seq }) = s₁ at hok
    have hp₁ : s₁.tcb.pend = { s.tcb.pend with
        snd_nxt := s.tcb.sndvar.iss + 1, snd_una := s.tcb.sndvar.iss + 1 } := by
      rw [← hs₁, ← hack]
      simp only [UsnTcb.pend, Conn.onTcb_tcb, Conn.onSnd_tcb, huna, hack]
    obtain ⟨i, hrem⟩ := usnet_remove_rto_list_pend s₁
    generalize hs₂ : (usnet_remove_rto_list s₁).onTcb (fun t => { t with state := .established })
      = s₂ at hok
    have hp₂ : s₂.tcb.pend = { s.tcb.pend with
        state := .established, on_rto_idx := i
        snd_nxt := s.tcb.sndvar.iss + 1, snd_una := s.tcb.sndvar.iss + 1 } := by
      rw [← hs₂]
      have hst₂ := congrArg (fun v : PendView => { v with state := .established }) hrem
      rw [hp₁] at hst₂
      exact hst₂
    have hp : s'.tcb.pend = s₂.tcb.pend := by
      split at hok
      · unfold usnet_add_timeout_list at hok
        split at hok
        · cases hok
        · obtain rfl := Except.ok.inj hok
          rfl
      · obtain rfl := Except.ok.inj hok
        rfl
    rw [hp, hp₂]
    exact ⟨h.no_fin, h.timewait, nofun, fun hgt => absurd hgt (not_gt_self _)⟩
  · obtain rfl := Except.ok.inj hok
    have hresyn : KeepsTimed s (s.onTcb fun t => { t with snd_nxt := t.sndvar.iss }) :=
      ⟨rfl, fun h => timed_resyn h hst⟩
    exact (hresyn.trans (usnet_add_control_list_timed (.inl hst))).timed h

/-- The connection stays as it is or is closed. -/
def StaysOr (s s' : Conn) : Prop :=
  s'.tcb.pend = s.tcb.pend ∨ s'.tcb.pend = { s.tcb.pend with state := .closed }

theorem handle_payload_pend {s s' : Conn} {seg : Segment} {stored refused : AckOpt}
    (h : handle_payload s seg stored refused = .ok s') : StaysOr s s' := by
  -- without memory for the payload the connection is closed
  have hpay : ∀ {r u}, usnet_process_tcp_payload s seg = .ok (r, u) → StaysOr s u := by
    intro r u hu
    unfold usnet_process_tcp_payload at hu
    split at hu
    · obtain ⟨-, rfl⟩ := Prod.mk.inj (Except.ok.inj hu)
      exact .inl rfl
    split at hu
    · obtain ⟨-, rfl⟩ := Prod.mk.inj (Except.ok.inj hu)
      exact .inl rfl
    split at hu
    · obtain ⟨-, rfl⟩ := Prod.mk.inj (Except.ok.inj hu)
      exact .inr rfl
    · unfold store_payload at hu
      simp only at hu
      split at hu
      · cases hu
      split at hu
      · obtain ⟨-, rfl⟩ := Prod.mk.inj (Except.ok.inj hu)
        exact .inl rfl
      split at hu
      · obtain ⟨-, rfl⟩ := Prod.mk.inj (Except.ok.inj hu)
        exact .inl rfl
      · obtain ⟨-, rfl⟩ := Prod.mk.inj (Except.ok.inj hu)
        exact .inl rfl
  unfold handle_payload at h
  split at h
  · split at h
    · cases h
    · rename_i hu
      obtain rfl := Except.ok.inj h
      have hack := usnet_enqueue_ack_pend
      exact (hpay hu).imp (hack _ _).trans (hack _ _).trans
  · obtain rfl := Except.ok.inj h
    exact .inl rfl

theorem StaysOr.timed {s s' : Conn} (h : StaysOr s s') (ht : s.tcb.pend.Timed) :
    s'.tcb.pend.Timed := by
  rcases h with h | h
  · exact h ▸ ht
  · exact h ▸ ⟨ht.no_fin, ht.timewait, nofun, ht.armed⟩

theorem StaysOr.acks_timed {s s' : Conn} (h : StaysOr s s') {ack_seq : UInt32}
    (hc : acks_timed s.tcb.pend ack_seq) : acks_timed s'.tcb.pend ack_seq := by
  rcases h with h | h
  · exact h ▸ hc
  · exact h ▸ hc

theorem StaysOr.state {s s' : Conn} (h : StaysOr s s') :
    s'.tcb.state = s.tcb.state ∨ s'.tcb.state = .closed :=
  h.imp (congrArg PendView.state) (congrArg PendView.state)

/-- Where the connection is not closed it is timed. -/
def TimedOrClosed (s : Conn) : Prop := s.tcb.state = .closed ∨ s.tcb.pend.Timed

/-- A SYN in the established state, whose acknowledgement becomes `snd_nxt`. -/
theorem established_syn_timed {s s' : Conn} {seg : Segment} (h : s.tcb.pend.Timed)
    (hst : s.tcb.state = .established) (hsyn : seg.has TH_SYN = true)
    (hc : TCP_SEQ_GT seg.ack_seq s.tcb.sndvar.snd_una → 0 ≤ s.tcb.on_rto_idx)
    (hok : usnet_handle_established s seg = .ok s') : s'.tcb.pend.Timed := by
  unfold usnet_handle_established at hok
  rw [if_pos hsyn] at hok
  obtain rfl := Except.ok.inj hok
  have hkept := usnet_add_control_list_timed (s := s.onTcb fun t => { t with snd_nxt := seg.ack_seq })
    (.inr (.inl hst))
  refine hkept.timed ⟨h.no_fin, h.timewait, fun hsyn => ?_, hc⟩
  exact h.syn hsyn

theorem established_fin_timed {s : Conn} (seg : Segment) (h : s.tcb.pend.Timed) :
    (established_fin s seg).tcb.pend.Timed := by
  unfold established_fin
  split
  · split
    · have hkept := usnet_add_control_list_timed (s := s.onTcb fun t =>
        { t with state := .close_wait, rcv_nxt := t.rcv_nxt + 1 }) (.inr (.inr rfl))
      exact hkept.timed ⟨h.no_fin, h.timewait, nofun, h.armed⟩
    · exact (usnet_enqueue_ack_pend s .now) ▸ h
  · exact h

theorem usnet_handle_established_timed {s s' : Conn} {seg : Segment} (h : s.tcb.pend.Timed)
    (hst : s.tcb.state = .established) (hsyn : seg.has TH_SYN = false)
    (hc : seg.has TH_ACK → acks_timed s.tcb.pend seg.ack_seq)
    (hok : usnet_handle_established s seg = .ok s') : s'.tcb.pend.Timed := by
  obtain ⟨s₁, s₂, hpay, hack, rfl⟩ := usnet_handle_established_parts hsyn hok
  have hstay := handle_payload_pend hpay
  have hne : s₁.tcb.state ≠ .syn_received := by
    rcases hstay.state with h₁ | h₁
    · rw [h₁, hst]
      decide
    · rw [h₁]
      decide
  have hs₂ : s₂.tcb.state = s₁.tcb.state ∧ s₂.tcb.pend.Timed := by
    unfold established_ack at hack
    split at hack
    · rename_i hflag
      exact process_ack_if_buffered_timed (hstay.timed h) hne (hstay.acks_timed (hc hflag)) hack
    · obtain rfl := Except.ok.inj hack
      exact ⟨rfl, hstay.timed h⟩
  exact established_fin_timed seg hs₂.2

theorem usnet_handle_close_wait_timed {s s' : Conn} {seg : Segment} (h : s.tcb.pend.Timed)
    (hst : s.tcb.state = .close_wait)
    (hc : ¬ TCP_SEQ_LT seg.seq s.tcb.rcv_nxt → acks_timed s.tcb.pend seg.ack_seq)
    (hok : usnet_handle_close_wait s seg = .ok s') : s'.tcb.pend.Timed := by
  unfold usnet_handle_close_wait at hok
  split at hok
  · obtain rfl := Except.ok.inj hok
    exact (usnet_add_control_list_timed (.inr (.inr hst))).timed h
  · rename_i hseq
    refine (process_ack_if_buffered_timed h ?_ (hc hseq) hok).2
    rw [hst]
    decide

/-- The segments that do not lead `snd_nxt` ahead of `snd_una` without a timer. -/
structure SegmentTimed (t : UsnTcb) (seg : Segment) : Prop where
  syn : t.state = .established → in_window t seg → (seg.has TH_RST → ¬ reset_accepted t seg) →
    seg.has TH_SYN → TCP_SEQ_GT seg.ack_seq t.sndvar.snd_una → 0 ≤ t.on_rto_idx
  ack : in_window t seg → ack_looked_at t seg → acks_timed t.pend seg.ack_seq

/-- The connection a handler finds, in the state the reset logic leaves. -/
structure Found (s : Conn) (seg : Segment) (n : Conn) : Prop where
  pend : n.tcb.pend = { s.tcb.pend with state := n.tcb.state }
  rcv_nxt : n.tcb.rcv_nxt = s.tcb.rcv_nxt
  state : n.tcb.state = s.tcb.state ∧ (seg.has TH_RST → ¬ reset_accepted s.tcb seg) ∨
    n.tcb.state = .close_wait ∧
      (s.tcb.state = .close_wait ∨ seg.has TH_RST ∧ reset_accepted s.tcb seg)

theorem handle_state_timed {s n s' : Conn} {seg : Segment} (h : s.tcb.pend.Timed)
    (hs : sending s.tcb.state) (hw : in_window s.tcb seg) (hc : SegmentTimed s.tcb seg)
    (hn : Found s seg n) (hok : handle_state n seg = .ok s') : s'.tcb.pend.Timed := by
  obtain ⟨hpend, hnxt, hst⟩ := hn
  have hneed : n.tcb.state ≠ .syn_received → n.tcb.pend.Timed := by
    intro hne
    rw [hpend]
    exact ⟨h.no_fin, h.timewait, fun hsyn => absurd hsyn hne, h.armed⟩
  unfold handle_state at hok
  by_cases hcw : n.tcb.state = .close_wait
  · simp only [hcw] at hok
    have hfrom : s.tcb.state = .close_wait ∨ seg.has TH_RST ∧ reset_accepted s.tcb seg := by
      rcases hst with ⟨hst, -⟩ | ⟨-, hfrom⟩
      · exact .inl (hst.symm.trans hcw)
      · exact hfrom
    refine usnet_handle_close_wait_timed (hneed (by rw [hcw]; decide)) hcw (fun hseq => ?_) hok
    rw [hpend]
    rw [hnxt] at hseq
    exact hc.ack hw (.inr ⟨hfrom, hseq⟩)
  · obtain ⟨hst, hrst⟩ := hst.resolve_right fun h => hcw h.1
    have hest : s.tcb.state = .established := hs.resolve_right (hst ▸ hcw)
    have hnest : n.tcb.state = .established := hst.trans hest
    have ht := hneed (by rw [hnest]; decide)
    simp only [hnest] at hok
    by_cases hsyn : seg.has TH_SYN
    · refine established_syn_timed ht hnest hsyn (fun hgt => ?_) hok
      have huna : n.tcb.sndvar.snd_una = s.tcb.sndvar.snd_una := congrArg PendView.snd_una hpend
      have hidx : n.tcb.on_rto_idx = s.tcb.on_rto_idx := congrArg PendView.on_rto_idx hpend
      rw [hidx]
      exact hc.syn hest hw hrst hsyn (huna ▸ hgt)
    · have hsyn : seg.has TH_SYN = false := by simpa using hsyn
      refine usnet_handle_established_timed ht hnest hsyn (fun hack => ?_) hok
      rw [hpend]
      exact hc.ack hw (.inl ⟨hest, fun hr => hrst hr.1 hr.2, hack, hsyn⟩)

theorem marked_pend (s : Conn) (seg : Segment) : (marked s seg).tcb.pend = s.tcb.pend :=
  note_segment_pend s seg

theorem usnet_handle_rst_pend {s : Conn} (hs : sending s.tcb.state) (ack_seq : UInt32) :
    ∃ st, (usnet_handle_rst s ack_seq).2.tcb.pend = { s.tcb.pend with state := st } := by
  unfold usnet_handle_rst
  rcases hs with hs | hs
  all_goals
    simp only [hs]
    split
    · exact ⟨s.tcb.state, rfl⟩
    · exact ⟨.close_wait, rfl⟩

/-- A reset in the window, of a connection that sends. -/
theorem found_rst {s : Conn} {seg : Segment} (hs : sending s.tcb.state)
    (hrst : seg.has TH_RST) (hw : in_window s.tcb seg) :
    Found s seg (usnet_handle_rst (marked s seg) seg.ack_seq).2 := by
  obtain ⟨hn, hst⟩ := noted_rst hs hw
  have hm := marked_pend s seg
  have hms : (marked s seg).tcb.state = s.tcb.state := congrArg PendView.state hm
  obtain ⟨st, hp⟩ := usnet_handle_rst_pend (hms.symm ▸ hs) seg.ack_seq
  refine ⟨?_, congrArg Core.rcv_nxt hn.core, hst.imp (fun h => ⟨h.1, fun _ => h.2⟩) fun h =>
    ⟨h.1, h.2.imp_right fun ha => ⟨hrst, ha⟩⟩⟩
  have hst' : (usnet_handle_rst (marked s seg) seg.ack_seq).2.tcb.state = st :=
    congrArg PendView.state hp
  rw [hst', hp, hm]

/-- Another segment in the window. -/
theorem found_quiet {s s₁ : Conn} {seg : Segment} (hrst : seg.has TH_RST = false)
    (hp : s₁.tcb.pend = s.tcb.pend) (hnxt : s₁.tcb.rcv_nxt = s.tcb.rcv_nxt) :
    Found s seg (note_segment s₁ seg) := by
  have hn := (note_segment_pend s₁ seg).trans hp
  have hst : (note_segment s₁ seg).tcb.state = s.tcb.state := congrArg PendView.state hn
  refine ⟨?_, ?_, .inl ⟨hst, fun hr => ?_⟩⟩
  · rw [hst, hn]
    rfl
  · have hcore := Quiet.core (note_segment_quiet s₁ seg)
    exact (congrArg Core.rcv_nxt hcore).trans hnxt
  · rw [hrst] at hr
    cases hr

/-- A reset in the handshake is taken or passed over. -/
theorem handle_rst_syn {s s' : Conn} {seg : Segment} (h : s.tcb.pend.Timed)
    (hst : s.tcb.state = .syn_received)
    (hok : handle_state (usnet_handle_rst s seg.ack_seq).2 seg = .ok s') : TimedOrClosed s' := by
  unfold usnet_handle_rst at hok
  simp only [hst] at hok
  split at hok
  · have hclosed := (usnet_release_tcb_kept
      (s.onTcb fun t => { t with state := .closed, close_reason := .reset })).2.1
    unfold handle_state at hok
    simp only [hclosed, Conn.onTcb_tcb] at hok
    obtain rfl := Except.ok.inj hok
    exact .inl hclosed
  · unfold handle_state at hok
    simp only [hst] at hok
    exact .inr (usnet_handle_syn_received_timed h hst hok)

/-- A segment of a connection. -/
theorem input_segment_timed {s s' : Conn} {seg : Segment} {r : Int} (h : s.tcb.pend.Timed)
    (hst : unclosed s.tcb.state) (hc : SegmentTimed s.tcb seg)
    (hok : input_segment s seg = .ok (r, s')) : TimedOrClosed s' := by
  have hval : s.tcb.state.val ≥ TcpState.syn_received.val := by
    rcases hst with hst | hst | hst <;> rw [hst] <;> decide
  by_cases hrst : seg.has TH_RST
  · rcases input_segment_rst hrst hok with ⟨-, -, rfl⟩ | ⟨hv, -⟩ | ⟨-, hw, hs⟩
    · exact .inr h
    · omega
    · have hm := marked_pend s seg
      rcases hst with hst | hst
      · exact handle_rst_syn (hm.symm ▸ h) ((congrArg PendView.state hm).trans hst) hs
      · exact .inr (handle_state_timed h hst hw hc (found_rst hst hrst hw) hs)
  · have hrst : seg.has TH_RST = false := by simpa using hrst
    rcases input_segment_cases hok with ⟨-, r₀, hneg, hchk⟩ | ⟨-, r₀, s₁, hneg, hchk, hs⟩
    · rw [check_segment, if_pos hval] at hchk
      rcases usnet_validate_seq_timed hst hchk with ⟨-, hk⟩ | ⟨hpos, -⟩
      · exact .inr (hk.timed h)
      · exact absurd hneg hpos
    · rw [check_segment, if_pos hval] at hchk
      rw [process_rst_none hrst] at hs
      have hp := ((usnet_validate_seq_timed hst hchk).resolve_left fun h => hneg h.1).2
      rcases usnet_validate_seq_cases hchk with ⟨-, hw, hq⟩ | ⟨hr, -⟩ | ⟨hr, -⟩ | ⟨hr, -⟩
      · rcases hst with hst | hst
        · have hn := (note_segment_pend s₁ seg).trans hp
          have hnst : (note_segment s₁ seg).tcb.state = .syn_received :=
            (congrArg PendView.state hn).trans hst
          unfold handle_state at hs
          simp only [hnst] at hs
          exact .inr (usnet_handle_syn_received_timed (hn.symm ▸ h) hnst hs)
        · have hnxt : s₁.tcb.rcv_nxt = s.tcb.rcv_nxt := congrArg Core.rcv_nxt hq.core
          exact .inr (handle_state_timed h hst hw hc (found_quiet hrst hp hnxt) hs)
      · exact absurd hr hneg
      · exact absurd hr hneg
      · exact absurd hr hneg

end Usnet
