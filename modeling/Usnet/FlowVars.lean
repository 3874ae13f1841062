import Usnet.Moves
import Usnet.Options

/-! # The variables of flow and congestion control

    The peer's window, the estimator of the round trip and the congestion window
    are written by a few functions only.  Once for every event, this module says
    which of them an event reaches and how it may fail; the proofs about whole
    runs start from it.
-/

namespace Usnet

open CInt Run

/-! ## Section 1: The variables -/

/-- What flow control, congestion control and the estimator work with. -/
structure Flow where
  saw_timestamp : Bool
  mss : UInt16
  eff_mss : UInt16
  wscale : UInt8
  peer_wnd : UInt32
  rto : UInt32
  cwnd : UInt32
  ssthresh : UInt32
  snd_wl1 : UInt32
  snd_wl2 : UInt32
  ts_lastack_rcvd : UInt32
  srtt : UInt32
  mdev : UInt32
  mdev_max : UInt32
  rttvar : UInt32
  rtt_seq : UInt32
  last_ack_seq : UInt32
  dup_acks : UInt16

/-- Those of a connection. -/
def UsnTcb.flow (t : UsnTcb) : Flow :=
  { saw_timestamp := t.saw_timestamp
    mss := t.sndvar.mss, eff_mss := t.sndvar.eff_mss, wscale := t.sndvar.wscale
    peer_wnd := t.sndvar.peer_wnd, rto := t.sndvar.rto
    cwnd := t.sndvar.cwnd, ssthresh := t.sndvar.ssthresh
    snd_wl1 := t.rcvvar.snd_wl1, snd_wl2 := t.rcvvar.snd_wl2
    ts_lastack_rcvd := t.rcvvar.ts_lastack_rcvd
    srtt := t.rcvvar.srtt, mdev := t.rcvvar.mdev, mdev_max := t.rcvvar.mdev_max
    rttvar := t.rcvvar.rttvar, rtt_seq := t.rcvvar.rtt_seq
    last_ack_seq := t.rcvvar.last_ack_seq, dup_acks := t.rcvvar.dup_acks }

/-! ## Section 2: Lists and output -/

@[simp] theorem usnet_remove_control_list_flow (s : Conn) :
    (usnet_remove_control_list s).tcb.flow = s.tcb.flow := by
  unfold usnet_remove_control_list
  split <;> rfl

@[simp] theorem queue_control_flow (s : Conn) : (queue_control s).tcb.flow = s.tcb.flow := by
  unfold queue_control
  split <;> rfl

@[simp] theorem usnet_remove_send_list_flow (s : Conn) :
    (usnet_remove_send_list s).tcb.flow = s.tcb.flow := by
  unfold usnet_remove_send_list
  split <;> rfl

@[simp] theorem usnet_add_send_list_flow (s : Conn) :
    (usnet_add_send_list s).tcb.flow = s.tcb.flow := by
  unfold usnet_add_send_list
  split
  · rfl
  · split <;> rfl

@[simp] theorem usnet_remove_ack_list_flow (s : Conn) :
    (usnet_remove_ack_list s).tcb.flow = s.tcb.flow := by
  unfold usnet_remove_ack_list
  split <;> rfl

@[simp] theorem usnet_enqueue_ack_flow (s : Conn) (opt : AckOpt) :
    (usnet_enqueue_ack s opt).tcb.flow = s.tcb.flow := by
  have hlist : ∀ u : Conn, (usnet_add_ack_list u).tcb.flow = u.tcb.flow := by
    intro u
    unfold usnet_add_ack_list
    split <;> rfl
  unfold usnet_enqueue_ack
  rw [hlist]
  cases opt with
  | now => rfl
  | aggregate => rfl
  | wack => rfl

@[simp] theorem usnet_add_rto_list_flow (s : Conn) :
    (usnet_add_rto_list s).tcb.flow = s.tcb.flow := by
  have hbody : ∀ u : Conn, u.tcb = s.tcb → (if u.tcb.on_rto_idx < 0 then
      if u.tcb.on_timewait_list then u
      else
        let diff := u.tcb.sndvar.ts_rto - u.ctx.rto_store.rto_now_ts
        let idx := if sint diff < RTO_HASH.toNat then
            (diff + u.ctx.rto_store.rto_now_idx) % RTO_HASH
          else RTO_HASH
        (u.onTcb fun t => { t with on_rto_idx := idx.toNat }).onCtx fun c => { c with
          rto_store := c.rto_store.insert idx.toNat u.tcb.id
          rto_list_cnt := c.rto_list_cnt + 1 }
      else u).tcb.flow = s.tcb.flow := by
    intro u hu
    split
    · split
      · rw [hu]
      · rw [← hu]
        rfl
    · rw [hu]
  unfold usnet_add_rto_list
  apply hbody
  split <;> rfl

@[simp] theorem usnet_remove_rto_list_flow (s : Conn) :
    (usnet_remove_rto_list s).tcb.flow = s.tcb.flow := by
  unfold usnet_remove_rto_list
  split <;> rfl

@[simp] theorem usnet_remove_timeout_list_flow (s : Conn) :
    (usnet_remove_timeout_list s).tcb.flow = s.tcb.flow := by
  unfold usnet_remove_timeout_list
  split <;> rfl

@[simp] theorem unlink_timewait_flow (s : Conn) :
    (unlink_timewait s).tcb.flow = s.tcb.flow := rfl

@[simp] theorem unlink_tcb_flow (s : Conn) : (unlink_tcb s).tcb.flow = s.tcb.flow := by
  unfold unlink_tcb
  simp only
  split
  all_goals split
  all_goals split
  all_goals simp only [usnet_remove_timeout_list_flow, unlink_timewait_flow,
    usnet_remove_rto_list_flow, usnet_remove_ack_list_flow, usnet_remove_send_list_flow,
    usnet_remove_control_list_flow]

@[simp] theorem usnet_release_tcb_flow (s : Conn) :
    (usnet_release_tcb s).tcb.flow = s.tcb.flow := unlink_tcb_flow s

@[simp] theorem note_header_flow (s : Conn) (flags : UInt8) :
    (note_header s flags).tcb.flow = s.tcb.flow := by
  have hfin : (note_fin s flags).tcb.flow = s.tcb.flow := by
    unfold note_fin
    split
    · rfl
    · split <;> rfl
  have hack : ∀ u : Conn, (note_ack u flags).tcb.flow = u.tcb.flow := by
    intro u
    unfold note_ack
    split
    · rw [usnet_update_timeout_list_tcb]
      rfl
    · rfl
  have hwnd : ∀ u : Conn, (note_window u flags).tcb.flow = u.tcb.flow := by
    intro u
    unfold note_window
    simp only
    split <;> split <;> rfl
  unfold note_header
  rw [hwnd, hack, hfin]

/-- No packet touches them. -/
@[simp] theorem usnet_send_tcp_packet_flow (s : Conn) (flags : UInt8) (payload : List UInt8) :
    (usnet_send_tcp_packet s flags payload).2.tcb.flow = s.tcb.flow := by
  have hsent : ∀ (u : Conn) (frame : Frame), (transmit u frame).2.tcb.flow = u.tcb.flow := by
    intro u frame
    unfold transmit arm_rto
    simp only [Conn.onCtx_tcb]
    split
    · rw [usnet_add_rto_list_flow]
      rfl
    · rfl
  unfold usnet_send_tcp_packet
  simp only
  split
  · rfl
  · split
    · rfl
    · rw [hsent, note_header_flow]
      rfl

@[simp] theorem usnet_send_control_packet_flow (s : Conn) :
    (usnet_send_control_packet s).2.tcb.flow = s.tcb.flow := by
  have hpacket : ∀ (u : Conn) flags, u.tcb.flow = s.tcb.flow →
      (usnet_remove_ack_list (usnet_send_tcp_packet u flags []).2).tcb.flow = s.tcb.flow := by
    intro u flags hu
    rw [usnet_remove_ack_list_flow, usnet_send_tcp_packet_flow, hu]
  unfold usnet_send_control_packet
  cases hst : s.tcb.state with
  | listen => rfl
  | syn_sent => exact usnet_send_tcp_packet_flow s TH_SYN []
  | syn_received => exact hpacket _ (TH_SYN ||| TH_ACK) rfl
  | established | close_wait | fin_wait_2 | time_wait => exact hpacket s TH_ACK rfl
  | last_ack | fin_wait_1 =>
    simp only
    split
    · rfl
    · exact hpacket s (TH_FIN ||| TH_ACK) rfl
  | closing =>
    simp only
    split
    · split
      · exact hpacket s (TH_FIN ||| TH_ACK) rfl
      · exact hpacket s TH_ACK rfl
    · exact hpacket s (TH_FIN ||| TH_ACK) rfl
  | closed =>
    simp only
    split
    · rfl
    · split
      · rw [usnet_release_tcb_flow, usnet_send_tcp_packet_flow]
      · exact usnet_send_tcp_packet_flow s TH_RST []

@[simp] theorem usnet_add_control_list_flow (s : Conn) :
    (usnet_add_control_list s).tcb.flow = s.tcb.flow := by
  unfold usnet_add_control_list
  simp only
  split
  · rw [queue_control_flow, usnet_send_control_packet_flow]
  · rw [usnet_remove_control_list_flow, usnet_send_control_packet_flow]

/-! ## Section 3: What keeps them -/

/-- The result of a function that leaves the variables at `fl`.  If it fails, then
    not in a division, and in an assertion on `rto` only where that is 0. -/
def Keeps (fl : Flow) : Except Fault Conn → Prop
  | .ok s => s.tcb.flow = fl
  | .error e => e ≠ .division ∧ (e = .rto_assert → fl.rto = 0)

/-- A failure that has nothing to do with them. -/
theorem Keeps.of_error {fl : Flow} {e : Fault} (hd : e ≠ .division) (hr : e ≠ .rto_assert) :
    Keeps fl (.error e) := ⟨hd, fun h => absurd h hr⟩

/-- Assignments to other fields before it do not count. -/
theorem Keeps.of_eq {fl fl' : Flow} {r : Except Fault Conn} (hr : Keeps fl r) (h : fl = fl') :
    Keeps fl' r := h ▸ hr

theorem Keeps.bind {fl : Flow} {x : Except Fault Conn} {f : Conn → Except Fault Conn}
    (hx : Keeps fl x) (hf : ∀ s, s.tcb.flow = fl → Keeps fl (f s)) : Keeps fl (x >>= f) := by
  cases x with
  | error e => exact hx
  | ok s => exact hf s hx

theorem flush_turn_keeps (s : Conn) (buf : UsnSendbuf) (maxlen window head tail : UInt32)
    (packets : Int) :
    match flush_turn s buf maxlen window head tail packets with
    | .error e => e = .invalid_sequence
    | .ok t => t.conn.tcb.flow = s.tcb.flow := by
  -- the two ways a turn touches the connection
  have hwnd : ∀ len, (no_window s len).conn.tcb.flow = s.tcb.flow := by
    intro len
    unfold no_window
    split
    · exact usnet_enqueue_ack_flow s .wack
    · rfl
  have hsend : ∀ len, (send_turn s buf head len).conn.tcb.flow = s.tcb.flow := by
    intro len
    unfold send_turn
    simp only
    split
    · exact usnet_send_tcp_packet_flow _ _ _
    · exact usnet_send_tcp_packet_flow _ _ _
  unfold flush_turn
  simp only
  by_cases hseq : TCP_SEQ_LT s.tcb.snd_nxt buf.head_seq
  · simp only [hseq, if_true]
  · simp only [hseq, if_false]
    by_cases hempty : buffered buf.size head tail = 0
    · simp only [hempty, if_true]
      rfl
    · simp only [hempty, if_false]
      by_cases hlen : flush_len buf maxlen (buffered buf.size head tail) = 0
      · simp only [hlen, if_true]
        rfl
      · simp only [hlen, if_false]
        split
        · rename_i h
          split at h
          · cases h
          · cases h
        · rename_i t h
          split at h
          · obtain rfl := Except.ok.inj h
            exact hwnd _
          · obtain rfl := Except.ok.inj h
            exact hsend _

theorem flush_loop_keeps {maxlen window tail : UInt32} (fuel : Nat) (s : Conn)
    (buf : UsnSendbuf) (head : UInt32) (packets : Int) :
    Keeps s.tcb.flow (effect (flush_loop maxlen window tail fuel s buf head packets)) := by
  induction fuel generalizing s buf head packets with
  | zero => exact .of_error (by decide) (by decide)
  | succ fuel ih =>
    have hturn := flush_turn_keeps s buf maxlen window head tail packets
    unfold flush_loop
    cases h : flush_turn s buf maxlen window head tail packets with
    | error e =>
      rw [h] at hturn
      rw [show e = .invalid_sequence from hturn]
      exact .of_error (by decide) (by decide)
    | ok t =>
      rw [h] at hturn
      cases t with
      | stop r s₁ => exact hturn
      | again s₁ buf₁ head₁ =>
        have hflow : s₁.tcb.flow = s.tcb.flow := hturn
        rw [← hflow]
        exact ih s₁ buf₁ head₁ _

theorem usnet_flush_tcp_sendbuf_keeps (s : Conn) :
    Keeps s.tcb.flow (effect (usnet_flush_tcp_sendbuf s)) := by
  unfold usnet_flush_tcp_sendbuf
  split
  · exact .of_error (by decide) (by decide)
  · split
    · show s.tcb.flow = s.tcb.flow
      rfl
    · apply flush_loop_keeps

theorem usnet_add_timewait_list_keeps (s : Conn) :
    Keeps s.tcb.flow (usnet_add_timewait_list s) := by
  unfold usnet_add_timewait_list
  simp only
  split
  · exact (rfl : s.tcb.flow = s.tcb.flow)
  · split
    · exact .of_error (by decide) (by decide)
    · exact (rfl : s.tcb.flow = s.tcb.flow)

theorem usnet_add_timeout_list_keeps (s : Conn) :
    Keeps s.tcb.flow (usnet_add_timeout_list s) := by
  unfold usnet_add_timeout_list
  split
  · exact .of_error (by decide) (by decide)
  · exact (rfl : s.tcb.flow = s.tcb.flow)

/-- The assertion fails only where `rto` is 0. -/
theorem usnet_update_retransmission_timer_keeps (s : Conn) :
    Keeps s.tcb.flow (usnet_update_retransmission_timer s) := by
  unfold usnet_update_retransmission_timer
  by_cases hrto : s.tcb.sndvar.rto = 0
  · rw [if_pos hrto]
    exact ⟨by decide, fun _ => hrto⟩
  · rw [if_neg hrto]
    have hbody : ∀ u : Conn, u.tcb.flow = s.tcb.flow →
        Keeps s.tcb.flow (if TCP_SEQ_GT u.tcb.snd_nxt u.tcb.sndvar.snd_una then
          .ok (usnet_add_rto_list <| u.onSnd fun v => { v with ts_rto := u.ctx.cur_time + v.rto })
        else .ok u) := by
      intro u hu
      split
      · show (usnet_add_rto_list _).tcb.flow = _
        rw [usnet_add_rto_list_flow, ← hu]
        rfl
      · exact hu
    apply hbody
    split
    · rw [usnet_remove_rto_list_flow]
      rfl
    · rfl

theorem store_payload_keeps (s : Conn) (buf : UsnRingbuf) (seg : Segment) :
    Keeps s.tcb.flow (effect (store_payload s buf seg)) := by
  unfold store_payload
  simp only
  split
  · exact .of_error (by decide) (by decide)
  · split
    · exact (rfl : s.tcb.flow = s.tcb.flow)
    · split
      · exact (rfl : s.tcb.flow = s.tcb.flow)
      · exact (rfl : s.tcb.flow = s.tcb.flow)

theorem handle_payload_keeps (s : Conn) (seg : Segment) (stored refused : AckOpt) :
    Keeps s.tcb.flow (handle_payload s seg stored refused) := by
  have hpay : Keeps s.tcb.flow (effect (usnet_process_tcp_payload s seg)) := by
    unfold usnet_process_tcp_payload
    split
    · exact (rfl : s.tcb.flow = s.tcb.flow)
    · split
      · exact (rfl : s.tcb.flow = s.tcb.flow)
      · split
        · exact (rfl : s.tcb.flow = s.tcb.flow)
        · exact store_payload_keeps s _ seg
  unfold handle_payload
  split
  · split
    · rename_i h
      rw [h] at hpay
      exact hpay
    · rename_i ret u h
      rw [h] at hpay
      show (usnet_enqueue_ack _ _).tcb.flow = _
      rw [usnet_enqueue_ack_flow]
      exact hpay
  · exact (rfl : s.tcb.flow = s.tcb.flow)

@[simp] theorem established_fin_flow (s : Conn) (seg : Segment) :
    (established_fin s seg).tcb.flow = s.tcb.flow := by
  unfold established_fin
  split
  · split
    · simp only [usnet_raise_tcp_event, raise_tcb, usnet_add_control_list_flow]
      rfl
    · exact usnet_enqueue_ack_flow s .now
  · rfl

@[simp] theorem fin_acked_flow (s : Conn) (seg : Segment) :
    (fin_acked s seg).tcb.flow = s.tcb.flow := by
  unfold fin_acked
  split
  · show (usnet_remove_rto_list _).tcb.flow = s.tcb.flow
    rw [usnet_remove_rto_list_flow]
    rfl
  · rfl

theorem fin_wait1_fin_keeps (s : Conn) (seg : Segment) :
    Keeps s.tcb.flow (fin_wait1_fin s seg) := by
  unfold fin_wait1_fin
  split
  · simp only
    split
    · show (usnet_add_control_list _).tcb.flow = s.tcb.flow
      rw [usnet_add_control_list_flow]
      rfl
    · apply Keeps.bind (usnet_add_timewait_list_keeps _)
      intro u hu
      show (usnet_add_control_list u).tcb.flow = s.tcb.flow
      rw [usnet_add_control_list_flow, hu]
      rfl
    · show (usnet_add_control_list _).tcb.flow = s.tcb.flow
      rw [usnet_add_control_list_flow]
      rfl
  · exact (rfl : s.tcb.flow = s.tcb.flow)

/-! ## Section 4: The handlers -/

/-- The handler of the state calls `usnet_process_ack` where there is a send
    buffer. -/
def takes_ack (tcb : UsnTcb) (seg : Segment) : Prop :=
  match tcb.state with
  | .established => seg.has TH_SYN = false ∧ seg.has TH_ACK = true
  | .close_wait => ¬ TCP_SEQ_LT seg.seq tcb.rcv_nxt
  | .fin_wait_1 | .last_ack => ¬ TCP_SEQ_LT seg.seq tcb.rcv_nxt ∧ seg.has TH_ACK = true
  | .closing | .fin_wait_2 => seg.has TH_ACK = true
  | _ => False

/-- What `usnet_process_ack` finds in `u` is as it was when the handler was called
    in `n`. -/
structure AckEntry (n u : Conn) : Prop where
  flow : u.tcb.flow = n.tcb.flow
  seq : SameSeq n u
  cur_time : u.ctx.cur_time = n.ctx.cur_time
  counted : ∀ ack_seq, counted_ack u ack_seq = counted_ack n ack_seq
  state : u.tcb.state = n.tcb.state ∨ u.tcb.state = .closed

theorem AckEntry.refl (n : Conn) : AckEntry n n :=
  ⟨rfl, ⟨rfl, rfl, rfl⟩, rfl, fun _ => rfl, .inl rfl⟩

/-- What a handler does to the variables of the connection it is called with. -/
inductive HandleFlow (n : Conn) (seg : Segment) : Except Fault Conn → Prop where
  | kept {r : Except Fault Conn} : ¬ (takes_ack n.tcb seg ∧ n.tcb.sndvar.sndbuf.isSome) →
      Keeps n.tcb.flow r → HandleFlow n seg r
  | opened {r : Except Fault Conn} : n.tcb.state = .syn_received →
      Keeps { n.tcb.flow with
        cwnd := if n.tcb.sndvar.cwnd = 1 then n.tcb.sndvar.mss.toUInt32 * 2
          else n.tcb.sndvar.mss.toUInt32 } r → HandleFlow n seg r
  | acked {u u' : Conn} {buf : UsnSendbuf} {ret : Int} {r : Except Fault Conn} :
      takes_ack n.tcb seg → AckEntry n u → n.tcb.sndvar.sndbuf = some buf →
      usnet_process_ack u buf seg = .ok (ret, u') → Keeps u'.tcb.flow r → HandleFlow n seg r
  | ack_failed {u : Conn} {buf : UsnSendbuf} {e : Fault} :
      takes_ack n.tcb seg → AckEntry n u → n.tcb.sndvar.sndbuf = some buf →
      usnet_process_ack u buf seg = .error e → HandleFlow n seg (.error e)
  | failed {e : Fault} : e ≠ .division → e ≠ .rto_assert → HandleFlow n seg (.error e)

section
variable {n u : Conn} {seg : Segment}

/-- The call of `usnet_process_ack` and what follows it. -/
theorem HandleFlow.of_process_ack {k : Conn → Except Fault Conn}
    (ht : takes_ack n.tcb seg) (he : AckEntry n u) (hk : ∀ v, Keeps v.tcb.flow (k v)) :
    HandleFlow n seg (process_ack_if_buffered u seg >>= k) := by
  unfold process_ack_if_buffered
  cases hbuf : u.tcb.sndvar.sndbuf with
  | none =>
    apply HandleFlow.kept
    · rw [← he.seq.2.2, hbuf]
      simp
    · rw [← he.flow]
      exact hk u
  | some buf =>
    have hn : n.tcb.sndvar.sndbuf = some buf := he.seq.2.2 ▸ hbuf
    simp only
    cases hp : usnet_process_ack u buf seg with
    | error e => exact .ack_failed ht he hn hp
    | ok q => exact .acked ht he hn hp (hk q.2)

/-- A part before the acknowledgement that keeps the variables. -/
theorem HandleFlow.after {x : Except Fault Conn} {k : Conn → Except Fault Conn}
    (hx : Keeps n.tcb.flow x) (hno : x ≠ .error .rto_assert)
    (hk : ∀ v, x = .ok v → HandleFlow n seg (k v)) : HandleFlow n seg (x >>= k) := by
  cases x with
  | ok v => exact hk v rfl
  | error e =>
    apply HandleFlow.failed hx.1
    intro he
    exact hno (congrArg Except.error he)

end

theorem handle_payload_no_rto (s : Conn) (seg : Segment) (stored refused : AckOpt) :
    handle_payload s seg stored refused ≠ .error .rto_assert := by
  intro h
  unfold handle_payload usnet_process_tcp_payload store_payload at h
  simp only at h
  split at h
  · split at h
    · rename_i hpay
      rw [Except.error.inj h] at hpay
      split at hpay
      · cases hpay
      · split at hpay
        · cases hpay
        · split at hpay
          · cases hpay
          · split at hpay
            · cases Except.error.inj hpay
            · split at hpay
              · cases hpay
              · split at hpay <;> cases hpay
    · cases h
  · cases h

theorem usnet_handle_established_flow {n : Conn} (seg : Segment)
    (hst : n.tcb.state = .established) :
    HandleFlow n seg (usnet_handle_established n seg) := by
  have htakes : takes_ack n.tcb seg ↔ seg.has TH_SYN = false ∧ seg.has TH_ACK = true := by
    unfold takes_ack
    rw [hst]
  unfold usnet_handle_established
  by_cases hsyn : seg.has TH_SYN
  · rw [if_pos hsyn]
    apply HandleFlow.kept
    · rw [htakes, hsyn]
      simp
    · show (usnet_add_control_list _).tcb.flow = n.tcb.flow
      rw [usnet_add_control_list_flow]
      rfl
  · rw [if_neg hsyn]
    apply HandleFlow.after (handle_payload_keeps n seg _ _) (handle_payload_no_rto n seg _ _)
    intro u hu
    have hkeeps := handle_payload_keeps n seg .aggregate .now
    rw [hu] at hkeeps
    obtain ⟨⟨hkept, -⟩, hstate⟩ := handle_payload_kept hu
    -- the payload part writes none of what `usnet_process_ack` reads
    have hentry : AckEntry n u := by
      refine ⟨hkeeps, hkept.2.2.2.2.2.2.2.1, by simp [hkept], ?_, hstate⟩
      intro ack_seq
      unfold counted_ack
      rcases hstate with h | h <;> simp [h, hst]
    have hfin : ∀ v : Conn, Keeps v.tcb.flow (.ok (established_fin v seg)) :=
      fun v => established_fin_flow v seg
    unfold established_ack
    by_cases hack : seg.has TH_ACK
    · rw [if_pos hack]
      exact .of_process_ack (htakes.mpr ⟨by simpa using hsyn, hack⟩) hentry hfin
    · rw [if_neg hack]
      apply HandleFlow.kept
      · rw [htakes]
        simp [hack]
      · show (established_fin u seg).tcb.flow = n.tcb.flow
        rw [established_fin_flow, hentry.flow]

/-- A handler that does not come to the acknowledgement. -/
theorem HandleFlow.of_keeps {n : Conn} {seg : Segment} {r : Except Fault Conn}
    (ht : ¬ takes_ack n.tcb seg) (hr : Keeps n.tcb.flow r) : HandleFlow n seg r :=
  .kept (fun h => ht h.1) hr

theorem usnet_handle_close_wait_flow {n : Conn} (seg : Segment)
    (hst : n.tcb.state = .close_wait) :
    HandleFlow n seg (usnet_handle_close_wait n seg) := by
  have htakes : takes_ack n.tcb seg ↔ ¬ TCP_SEQ_LT seg.seq n.tcb.rcv_nxt := by
    unfold takes_ack
    rw [hst]
  unfold usnet_handle_close_wait
  split
  · rename_i hold
    apply HandleFlow.of_keeps (fun h => htakes.mp h hold)
    exact usnet_add_control_list_flow n
  · rename_i hnew
    have h := HandleFlow.of_process_ack (k := Except.ok) (htakes.mpr hnew) (.refl n) fun v => rfl
    rwa [show (process_ack_if_buffered n seg >>= Except.ok) = process_ack_if_buffered n seg by
      cases process_ack_if_buffered n seg <;> rfl] at h

theorem usnet_handle_fin_wait1_flow {n : Conn} (seg : Segment)
    (hst : n.tcb.state = .fin_wait_1) :
    HandleFlow n seg (usnet_handle_fin_wait1 n seg) := by
  have htakes : takes_ack n.tcb seg ↔
      ¬ TCP_SEQ_LT seg.seq n.tcb.rcv_nxt ∧ seg.has TH_ACK = true := by
    unfold takes_ack
    rw [hst]
  unfold usnet_handle_fin_wait1
  split
  · rename_i hold
    apply HandleFlow.of_keeps (fun h => (htakes.mp h).1 hold)
    exact usnet_add_control_list_flow n
  · rename_i hnew
    split
    · rename_i hack
      apply HandleFlow.of_process_ack (htakes.mpr ⟨hnew, hack⟩) (.refl n)
      intro v
      apply Keeps.bind ((handle_payload_keeps _ seg _ _).of_eq (fin_acked_flow v seg))
      intro u hu
      exact (fin_wait1_fin_keeps u seg).of_eq hu
    · rename_i hack
      exact .of_keeps (fun h => hack (htakes.mp h).2) rfl

theorem usnet_handle_closing_flow {n : Conn} (seg : Segment) (hst : n.tcb.state = .closing) :
    HandleFlow n seg (usnet_handle_closing n seg) := by
  have htakes : takes_ack n.tcb seg ↔ seg.has TH_ACK = true := by
    unfold takes_ack
    rw [hst]
  unfold usnet_handle_closing
  split
  · rename_i hack
    apply HandleFlow.of_process_ack (htakes.mpr hack) (.refl n)
    intro v
    simp only
    split
    · exact (rfl : v.tcb.flow = v.tcb.flow)
    · split
      · exact (rfl : v.tcb.flow = v.tcb.flow)
      · generalize hw : Conn.onTcb (v.onSnd _) _ = w
        have hflow : w.tcb.flow = v.tcb.flow := by
          rw [← hw]
          rfl
        apply Keeps.bind ((usnet_update_retransmission_timer_keeps w).of_eq hflow)
        intro u hu
        generalize hx : u.onTcb _ = x
        have hflow : x.tcb.flow = v.tcb.flow := by
          rw [← hx]
          exact hu
        exact (usnet_add_timewait_list_keeps x).of_eq hflow
  · rename_i hack
    exact .of_keeps (fun h => hack (htakes.mp h)) rfl

theorem usnet_handle_last_ack_flow {n : Conn} (seg : Segment) (hst : n.tcb.state = .last_ack) :
    HandleFlow n seg (usnet_handle_last_ack n seg) := by
  have htakes : takes_ack n.tcb seg ↔
      ¬ TCP_SEQ_LT seg.seq n.tcb.rcv_nxt ∧ seg.has TH_ACK = true := by
    unfold takes_ack
    rw [hst]
  unfold usnet_handle_last_ack
  split
  · rename_i hold
    exact .of_keeps (fun h => (htakes.mp h).1 hold) rfl
  · rename_i hnew
    split
    · rename_i hack
      apply HandleFlow.of_process_ack (htakes.mpr ⟨hnew, hack⟩) (.refl n)
      intro v
      split
      · exact (rfl : v.tcb.flow = v.tcb.flow)
      · split
        · apply Keeps.bind ((usnet_update_retransmission_timer_keeps _).of_eq rfl)
          intro u hu
          show (usnet_release_tcb _).tcb.flow = v.tcb.flow
          rw [usnet_release_tcb_flow]
          exact hu
        · exact usnet_add_control_list_flow v
    · rename_i hack
      exact .of_keeps (fun h => hack (htakes.mp h).2) (usnet_add_control_list_flow n)

theorem usnet_handle_fin_wait2_flow {n : Conn} (seg : Segment)
    (hst : n.tcb.state = .fin_wait_2) :
    HandleFlow n seg (usnet_handle_fin_wait2 n seg) := by
  have htakes : takes_ack n.tcb seg ↔ seg.has TH_ACK = true := by
    unfold takes_ack
    rw [hst]
  unfold usnet_handle_fin_wait2
  split
  · rename_i hack
    apply HandleFlow.of_process_ack (htakes.mpr hack) (.refl n)
    intro v
    apply Keeps.bind (handle_payload_keeps _ seg _ _)
    intro u hu
    simp only
    split
    · generalize hw : u.onTcb _ = w
      have hflow : w.tcb.flow = v.tcb.flow := by
        rw [← hw]
        exact hu
      apply Keeps.bind ((usnet_add_timewait_list_keeps w).of_eq hflow)
      intro x hx
      show (usnet_add_control_list x).tcb.flow = v.tcb.flow
      rw [usnet_add_control_list_flow, hx]
    · exact hu
  · rename_i hack
    exact .of_keeps (fun h => hack (htakes.mp h)) rfl

theorem usnet_handle_time_wait_keeps (n : Conn) : Keeps n.tcb.flow (usnet_handle_time_wait n) := by
  unfold usnet_handle_time_wait usnet_remove_timewait_list
  split
  · apply Keeps.bind ((usnet_add_timewait_list_keeps (unlink_timewait n)).of_eq
      (unlink_timewait_flow n))
    intro v hv
    show (usnet_add_control_list v).tcb.flow = n.tcb.flow
    rw [usnet_add_control_list_flow, hv]
  · exact usnet_add_control_list_flow n

theorem usnet_handle_syn_received_flow {n : Conn} (seg : Segment)
    (hst : n.tcb.state = .syn_received) :
    HandleFlow n seg (usnet_handle_syn_received n seg) := by
  have htakes : ¬ takes_ack n.tcb seg := by
    unfold takes_ack
    rw [hst]
    exact id
  unfold usnet_handle_syn_received
  split
  · split
    · exact .of_keeps htakes rfl
    · apply HandleFlow.opened hst
      unfold establish
      simp only
      generalize hu : usnet_remove_rto_list _ = u
      have hflow : u.tcb.flow = { n.tcb.flow with
          cwnd := if n.tcb.sndvar.cwnd = 1 then n.tcb.sndvar.mss.toUInt32 * 2
            else n.tcb.sndvar.mss.toUInt32 } := by
        rw [← hu, usnet_remove_rto_list_flow]
        rfl
      rw [← hflow]
      split
      · exact usnet_add_timeout_list_keeps _
      · exact (rfl : u.tcb.flow = u.tcb.flow)
  · apply HandleFlow.of_keeps htakes
    show (usnet_add_control_list _).tcb.flow = n.tcb.flow
    rw [usnet_add_control_list_flow]
    rfl

theorem usnet_handle_syn_sent_flow (n : Conn) (seg : Segment) :
    (usnet_handle_syn_sent n seg).tcb.flow = n.tcb.flow := by
  have hrest : ∀ u : Conn, u.tcb.flow = n.tcb.flow → (if seg.has TH_RST then
      if seg.has TH_ACK then
        let s := u.onTcb fun t => { t with state := .close_wait, close_reason := .reset }
        if s.tcb.socket.isSome then usnet_raise_error_event s else usnet_release_tcb s
      else u
    else if seg.has TH_SYN ∧ ¬ seg.has TH_ACK then
      usnet_add_control_list <|
        u.onTcb fun t => { t with state := .syn_received, snd_nxt := t.sndvar.iss }
    else u).tcb.flow = n.tcb.flow := by
    intro u hu
    simp only
    split
    · split
      · split
        · exact hu
        · rw [usnet_release_tcb_flow]
          exact hu
      · exact hu
    · split
      · rw [usnet_add_control_list_flow]
        exact hu
      · exact hu
  unfold usnet_handle_syn_sent
  split
  · split <;> rfl
  · apply hrest
    split <;> rfl

/-- The `switch` of `usnet_tcp_input`. -/
theorem handle_state_flow (n : Conn) (seg : Segment) :
    HandleFlow n seg (handle_state n seg) := by
  have hno : n.tcb.state = .listen ∨ n.tcb.state = .syn_sent ∨ n.tcb.state = .time_wait ∨
      n.tcb.state = .closed → ¬ takes_ack n.tcb seg := by
    intro h
    unfold takes_ack
    rcases h with h | h | h | h <;> rw [h] <;> exact id
  unfold handle_state
  cases hst : n.tcb.state with
  | listen =>
    apply HandleFlow.of_keeps (hno (.inl hst))
    show (usnet_handle_listen n seg).tcb.flow = n.tcb.flow
    unfold usnet_handle_listen
    split <;> rfl
  | syn_sent => exact .of_keeps (hno (.inr (.inl hst))) (usnet_handle_syn_sent_flow n seg)
  | syn_received => exact usnet_handle_syn_received_flow seg hst
  | established => exact usnet_handle_established_flow seg hst
  | close_wait => exact usnet_handle_close_wait_flow seg hst
  | fin_wait_1 => exact usnet_handle_fin_wait1_flow seg hst
  | closing => exact usnet_handle_closing_flow seg hst
  | last_ack => exact usnet_handle_last_ack_flow seg hst
  | fin_wait_2 => exact usnet_handle_fin_wait2_flow seg hst
  | time_wait =>
    exact .of_keeps (hno (.inr (.inr (.inl hst)))) (usnet_handle_time_wait_keeps n)
  | closed => exact .of_keeps (hno (.inr (.inr (.inr hst)))) rfl

/-! ## Section 5: A segment -/

/-- The echo that is noted of a segment, before the check of its numbers. -/
def last_echo (tcb : UsnTcb) (seg : Segment) : UInt32 :=
  if tcb.state.val ≥ TcpState.syn_received.val ∧ seg.has TH_RST = false ∧
      tcb.saw_timestamp = true then
    match usnet_parse_tcptimestamp seg with
    | .ok (some (_, ts_ref)) => ts_ref
    | _ => tcb.rcvvar.ts_lastack_rcvd
  else tcb.rcvvar.ts_lastack_rcvd

/-- The window that is noted. -/
def noted_wnd (tcb : UsnTcb) (seg : Segment) : UInt32 :=
  if seg.has TH_SYN then seg.window.toUInt32
  else seg.window.toUInt32 <<< tcb.sndvar.wscale.toUInt32

/-- The variables a handler finds. -/
def noted_flow (tcb : UsnTcb) (seg : Segment) : Flow :=
  { tcb.flow with peer_wnd := noted_wnd tcb seg, ts_lastack_rcvd := last_echo tcb seg }

theorem validate_timestamp_flow {s s₁ : Conn} {seg : Segment} {r : Int}
    (hst : s.tcb.state.val ≥ TcpState.syn_received.val)
    (h : validate_timestamp s seg = .ok (r, s₁)) :
    (r < 0 ∧ s₁.tcb.flow = s.tcb.flow) ∨
    (¬ r < 0 ∧ s₁.tcb.flow = { s.tcb.flow with ts_lastack_rcvd := last_echo s.tcb seg }) := by
  unfold validate_timestamp at h
  unfold last_echo
  by_cases hts : seg.has TH_RST = false ∧ s.tcb.saw_timestamp = true
  · rw [if_pos hts] at h
    rw [if_pos ⟨hst, hts⟩]
    split at h
    · cases h
    · obtain ⟨rfl, rfl⟩ := Prod.mk.inj (Except.ok.inj h)
      exact .inl ⟨by decide, rfl⟩
    · rename_i hparse
      rw [hparse]
      split at h
      · obtain ⟨rfl, rfl⟩ := Prod.mk.inj (Except.ok.inj h)
        exact .inl ⟨by decide, usnet_enqueue_ack_flow s .now⟩
      · obtain ⟨rfl, rfl⟩ := Prod.mk.inj (Except.ok.inj h)
        exact .inr ⟨by decide, rfl⟩
  · rw [if_neg hts] at h
    rw [if_neg fun hall => hts hall.2]
    obtain ⟨rfl, rfl⟩ := Prod.mk.inj (Except.ok.inj h)
    exact .inr ⟨by decide, rfl⟩

theorem reject_seq_flow {s s₁ : Conn} {seg : Segment} {r : Int}
    (h : reject_seq s seg = .ok (r, s₁)) : r < 0 ∧ s₁.tcb.flow = s.tcb.flow := by
  unfold reject_seq at h
  split at h
  · obtain ⟨rfl, rfl⟩ := Prod.mk.inj (Except.ok.inj h)
    exact ⟨by decide, rfl⟩
  · split at h
    · split at h
      · obtain ⟨rfl, rfl⟩ := Prod.mk.inj (Except.ok.inj h)
        exact ⟨by decide, usnet_enqueue_ack_flow s .aggregate⟩
      · split at h
        · obtain ⟨rfl, rfl⟩ := Prod.mk.inj (Except.ok.inj h)
          exact ⟨by decide, usnet_enqueue_ack_flow s .aggregate⟩
        · obtain ⟨rfl, rfl⟩ := Prod.mk.inj (Except.ok.inj h)
          exact ⟨by decide, usnet_enqueue_ack_flow s .now⟩
    · split at h
      · split at h
        · cases h
        · rename_i t ht
          obtain ⟨rfl, rfl⟩ := Prod.mk.inj (Except.ok.inj h)
          have hkeeps := usnet_add_timewait_list_keeps s
          rw [ht] at hkeeps
          exact ⟨by decide, (usnet_add_control_list_flow t).trans hkeeps⟩
      · obtain ⟨rfl, rfl⟩ := Prod.mk.inj (Except.ok.inj h)
        exact ⟨by decide, usnet_add_control_list_flow s⟩

/-- The check notes the echo of a segment that passes. -/
theorem check_segment_flow {s s₁ : Conn} {seg : Segment} {r : Int}
    (h : check_segment s seg = .ok (r, s₁)) :
    (r < 0 ∧ ∃ x, s₁.tcb.flow = { s.tcb.flow with ts_lastack_rcvd := x }) ∨
    (¬ r < 0 ∧ s₁.tcb.flow = { s.tcb.flow with ts_lastack_rcvd := last_echo s.tcb seg } ∧
      Quiet s s₁) := by
  unfold check_segment at h
  by_cases hst : s.tcb.state.val ≥ TcpState.syn_received.val
  · rw [if_pos hst] at h
    have hcases := usnet_validate_seq_cases h
    unfold usnet_validate_seq at h
    split at h
    · cases h
    · rename_i r₁ t ht
      -- a timestamp that is too old ends the check before the echo is noted
      have hecho := validate_timestamp_flow hst ht
      split at h
      · rename_i hr₁
        obtain ⟨rfl, rfl⟩ := Prod.mk.inj (Except.ok.inj h)
        rcases hecho with ⟨hr, hflow⟩ | ⟨hr, -⟩
        · exact .inl ⟨hr, s.tcb.rcvvar.ts_lastack_rcvd, hflow⟩
        · exact absurd hr₁ hr
      · rename_i hr₁
        rcases hecho with ⟨hr, -⟩ | ⟨hr, hflow⟩
        · exact absurd hr hr₁
        · split at h
          · obtain ⟨rfl, rfl⟩ := Prod.mk.inj (Except.ok.inj h)
            rcases hcases with ⟨-, -, hq⟩ | ⟨hneg, -⟩ | ⟨hneg, -⟩ | ⟨hneg, -⟩
            · exact .inr ⟨by decide, hflow, hq⟩
            · exact absurd hneg (by decide)
            · exact absurd hneg (by decide)
            · exact absurd hneg (by decide)
          · obtain ⟨hneg, hsame⟩ := reject_seq_flow h
            exact .inl ⟨hneg, last_echo s.tcb seg, hsame.trans hflow⟩
  · rw [if_neg hst] at h
    obtain ⟨rfl, rfl⟩ := Prod.mk.inj (Except.ok.inj h)
    refine .inr ⟨by decide, ?_, by simp⟩
    unfold last_echo
    rw [if_neg fun hall => hst hall.1]
    rfl

theorem usnet_parse_tcptimestamp_failed {seg : Segment} {e : Fault}
    (h : usnet_parse_tcptimestamp seg = .error e) : e = .endless_loop := by
  unfold usnet_parse_tcptimestamp at h
  rw [parse_timestamp_loop_eq] at h
  split at h
  · cases h
  · exact (Except.error.inj h).symm

theorem usnet_add_timewait_list_failed {s : Conn} {e : Fault}
    (h : usnet_add_timewait_list s = .error e) : e = .timewait_assert := by
  unfold usnet_add_timewait_list at h
  simp only at h
  split at h
  · cases h
  · split at h
    · exact (Except.error.inj h).symm
    · cases h

/-- The check fails in ways of its own. -/
theorem check_segment_failed {s : Conn} {seg : Segment} {e : Fault}
    (h : check_segment s seg = .error e) : e = .endless_loop ∨ e = .timewait_assert := by
  unfold check_segment at h
  split at h
  · unfold usnet_validate_seq at h
    split at h
    · rename_i hts
      obtain rfl := Except.error.inj h
      unfold validate_timestamp at hts
      split at hts
      · split at hts
        · rename_i hparse
          obtain rfl := Except.error.inj hts
          exact .inl (usnet_parse_tcptimestamp_failed hparse)
        · cases hts
        · split at hts <;> cases hts
      · cases hts
    · split at h
      · cases h
      · split at h
        · cases h
        · unfold reject_seq at h
          split at h
          · cases h
          · split at h
            · split at h
              · cases h
              · split at h <;> cases h
            · split at h
              · split at h
                · rename_i htw
                  obtain rfl := Except.error.inj h
                  exact .inr (usnet_add_timewait_list_failed htw)
                · cases h
              · cases h
  · cases h

@[simp] theorem usnet_handle_rst_flow (s : Conn) (ack_seq : UInt32) :
    (usnet_handle_rst s ack_seq).2.tcb.flow = s.tcb.flow := by
  have hreleased : ∀ reason : CloseReason, (usnet_release_tcb <|
      s.onTcb fun t => { t with state := .closed, close_reason := reason }).tcb.flow =
        s.tcb.flow := by
    intro reason
    rw [usnet_release_tcb_flow]
    rfl
  unfold usnet_handle_rst
  cases hst : s.tcb.state with
  | syn_received =>
    simp only
    split
    · exact hreleased .reset
    · rfl
  | established =>
    simp only
    split <;> rfl
  | close_wait =>
    simp only
    split <;> rfl
  | fin_wait_1 => exact hreleased .active_close
  | fin_wait_2 => exact hreleased .active_close
  | last_ack => exact hreleased .active_close
  | closing => exact hreleased .active_close
  | time_wait => exact hreleased .active_close
  | closed => rfl
  | listen => rfl
  | syn_sent => rfl

@[simp] theorem process_rst_flow (s : Conn) (seg : Segment) :
    (process_rst s seg).2.tcb.flow = s.tcb.flow := by
  unfold process_rst
  split
  · simp only
    split
    · rw [usnet_handle_rst_flow]
      rfl
    · rfl
  · rfl

/-- The variables of the send side that `usnet_process_ack` reads besides. -/
@[simp] abbrev SameAck (s s' : Conn) : Prop :=
  SameSeq s s' ∧ s'.ctx.cur_time = s.ctx.cur_time ∧
  s'.tcb.sndvar.is_fin_sent = s.tcb.sndvar.is_fin_sent ∧
  s'.tcb.sndvar.fss = s.tcb.sndvar.fss ∧ s'.tcb.rcv_nxt = s.tcb.rcv_nxt

theorem process_rst_ack (s : Conn) (seg : Segment) : SameAck s (process_rst s seg).2 := by
  have hrst : ∀ u : Conn, SameAck u (usnet_handle_rst u seg.ack_seq).2 := by
    intro u
    unfold usnet_handle_rst
    cases hst : u.tcb.state with
    | syn_received => by_cases hack : seg.ack_seq = u.tcb.rcv_nxt <;> simp [hack]
    | established =>
      simp only
      split <;> simp
    | close_wait =>
      simp only
      split <;> simp
    | _ => simp
  unfold process_rst
  split
  · simp only
    split
    · exact hrst _
    · simp
  · simp

theorem note_segment_flow (s : Conn) (seg : Segment) :
    (note_segment s seg).tcb.flow = { s.tcb.flow with peer_wnd := noted_wnd s.tcb seg } := by
  unfold note_segment
  simp only [usnet_update_timeout_list_tcb]
  rfl

/-- The connection as a handler finds it, if the segment gets that far. -/
structure Entered (s : Conn) (seg : Segment) (n : Conn) : Prop where
  entered : ∃ r s₁, ¬ r < 0 ∧ check_segment s seg = .ok (r, s₁) ∧
    n = (process_rst (note_segment s₁ seg) seg).2
  flow : n.tcb.flow = noted_flow s.tcb seg
  same : SameAck s n

/-- What a segment does to the variables of its connection. -/
inductive InputFlow (s : Conn) (seg : Segment) : Except Fault (Int × Conn) → Prop where
  | refused {s' : Conn} {x : UInt32} :
      s'.tcb.flow = { s.tcb.flow with ts_lastack_rcvd := x } → InputFlow s seg (.ok (-3, s'))
  | handled {n : Conn} {s' : Conn} : Entered s seg n → handle_state n seg = .ok s' →
      InputFlow s seg (.ok (0, s'))
  | failed {n : Conn} {e : Fault} : Entered s seg n → handle_state n seg = .error e →
      InputFlow s seg (.error e)
  | check_failed {e : Fault} : e ≠ .division → e ≠ .rto_assert → InputFlow s seg (.error e)

theorem input_segment_flow (s : Conn) (seg : Segment) :
    InputFlow s seg (input_segment s seg) := by
  unfold input_segment
  cases hcheck : check_segment s seg with
  | error e =>
    have he := check_segment_failed hcheck
    apply InputFlow.check_failed <;> rcases he with rfl | rfl <;> decide
  | ok p =>
    obtain ⟨r, s₁⟩ := p
    simp only [bind, Except.bind]
    rcases check_segment_flow hcheck with ⟨hr, x, hflow⟩ | ⟨hr, hflow, hq⟩
    · simp only [hr, if_true, pure, Except.pure]
      exact .refused hflow
    · have hentered : Entered s seg (process_rst (note_segment s₁ seg) seg).2 := by
        refine ⟨⟨r, s₁, hr, hcheck, rfl⟩, ?_, ?_⟩
        · have hws : s₁.tcb.sndvar.wscale = s.tcb.sndvar.wscale := congrArg Flow.wscale hflow
          rw [process_rst_flow, note_segment_flow, hflow]
          unfold noted_flow noted_wnd
          rw [hws]
        · have hnote : SameAck s₁ (note_segment s₁ seg) := by simp
          have hrst := process_rst_ack (note_segment s₁ seg) seg
          generalize note_segment s₁ seg = u at *
          generalize (process_rst u seg).2 = v at *
          simp_all
      simp only [hr, if_false, process_rst_continues, Bool.false_eq_true]
      cases hh : handle_state (process_rst (note_segment s₁ seg) seg).2 seg with
      | error e => exact .failed hentered hh
      | ok s' => exact .handled hentered hh

/-! ## Section 6: Any event -/

theorem usnet_connect_net_handler_flow (s : Conn) (so : Bool) (fd : UInt32) (result : Int) :
    (usnet_connect_net_handler s so fd result).tcb.flow = s.tcb.flow := by
  unfold usnet_connect_net_handler
  split
  · rfl
  · split
    · rfl
    · simp only
      split
      · rw [usnet_add_control_list_flow]
        rfl
      · split
        · rfl
        · rw [usnet_add_control_list_flow]
          rfl

theorem usnet_write_net_handler_flow (s : Conn) (so_tcb : Bool) (fd : UInt32) :
    (usnet_write_net_handler s so_tcb fd).tcb.flow = s.tcb.flow := by
  unfold usnet_write_net_handler
  split
  · rfl
  · split
    · rfl
    · split
      · rfl
      · split
        · exact usnet_add_send_list_flow s
        · rfl

theorem control_visit_flow (s : Conn) : (control_visit s).tcb.flow = s.tcb.flow := by
  unfold control_visit
  simp only
  split
  · split
    · show (usnet_send_control_packet _).2.tcb.flow = _
      rw [usnet_send_control_packet_flow]
      rfl
    · rw [usnet_send_control_packet_flow]
      rfl
  · rfl

@[simp] theorem send_acks_flow (k : Nat) (s : Conn) : (send_acks k s).tcb.flow = s.tcb.flow := by
  induction k generalizing s with
  | zero => rfl
  | succ k ih =>
    unfold send_acks
    simp only
    split
    · exact usnet_send_tcp_packet_flow s TH_ACK []
    · rw [ih]
      exact usnet_send_tcp_packet_flow s TH_ACK []

@[simp] theorem send_wack_flow (s : Conn) : (send_wack s).tcb.flow = s.tcb.flow := by
  unfold send_wack
  split
  · simp only
    split
    · exact usnet_send_tcp_packet_flow _ _ _
    · exact usnet_send_tcp_packet_flow _ _ _
  · rfl

@[simp] theorem send_waiting_flow (s : Conn) (on_list : Bool) :
    (send_waiting s on_list).tcb.flow = s.tcb.flow := by
  unfold send_waiting
  split
  · rw [usnet_add_control_list_flow]
    rfl
  · rfl

theorem ack_visit_flow (s : Conn) : (ack_visit s).tcb.flow = s.tcb.flow := by
  have hdrop : (ack_or_drop s).tcb.flow = s.tcb.flow := by
    unfold ack_or_drop
    split
    · simp only
      split
      · rw [send_wack_flow, send_acks_flow]
      · rw [usnet_remove_ack_list_flow, send_wack_flow, send_acks_flow]
    · rw [usnet_remove_ack_list_flow]
      rfl
  unfold ack_visit
  split
  · rw [send_waiting_flow, hdrop]
  · rfl

theorem data_visit_keeps (s : Conn) : Keeps s.tcb.flow (data_visit s) := by
  have hsend : ∀ u : Conn, Keeps u.tcb.flow (effect (send_data u)) := by
    intro u
    unfold send_data
    split
    · split
      · exact (rfl : u.tcb.flow = u.tcb.flow)
      · exact usnet_flush_tcp_sendbuf_keeps u
    · exact usnet_flush_tcp_sendbuf_keeps u
    · exact usnet_flush_tcp_sendbuf_keeps u
    · exact usnet_flush_tcp_sendbuf_keeps u
    · exact (rfl : u.tcb.flow = u.tcb.flow)
  unfold data_visit
  simp only
  generalize hu : (s.onCtx fun c => { c with send_list := c.send_list.erase s.tcb.id }) = u
  have htcb : u.tcb = s.tcb := by
    rw [← hu]
    rfl
  have hkeeps := hsend u
  rw [htcb] at hkeeps
  split
  · split
    · rename_i h
      rw [h] at hkeeps
      exact hkeeps
    · rename_i ret v h
      rw [h] at hkeeps
      split
      · exact hkeeps
      · show (send_waiting _ _).tcb.flow = s.tcb.flow
        rw [send_waiting_flow]
        exact hkeeps
  · exact congrArg UsnTcb.flow htcb

theorem timewait_visit_flow (s : Conn) : (timewait_visit s).tcb.flow = s.tcb.flow := by
  unfold timewait_visit
  split
  · rw [usnet_release_tcb_flow]
    rfl
  · rfl

theorem timeout_visit_flow (s : Conn) : (timeout_visit s).tcb.flow = s.tcb.flow := by
  unfold timeout_visit
  split
  · simp only
    split
    · exact usnet_remove_timeout_list_flow s
    · rw [usnet_release_tcb_flow]
      exact usnet_remove_timeout_list_flow s
  · rfl

theorem app_write_keeps (s : Conn) (fd : UInt32) (bytes : List UInt8) :
    Keeps s.tcb.flow (app_write s fd bytes) := by
  unfold app_write usnet_write
  split
  · rename_i h
    split at h
    · cases h
    · split at h
      · cases h
      · split at h
        · obtain rfl := Except.error.inj h
          exact .of_error (by decide) (by decide)
        · cases h
  · rename_i ret t h
    show t.flow = s.tcb.flow
    split at h
    · obtain ⟨-, rfl⟩ := Prod.mk.inj (Except.ok.inj h)
      rfl
    · split at h
      · obtain ⟨-, rfl⟩ := Prod.mk.inj (Except.ok.inj h)
        rfl
      · split at h
        · cases h
        · obtain ⟨-, rfl⟩ := Prod.mk.inj (Except.ok.inj h)
          rfl

@[simp] theorem give_up_flow (s : Conn) : (give_up s).tcb.flow = s.tcb.flow := by
  unfold give_up
  split
  · rw [usnet_release_tcb_flow]
    rfl
  · simp only
    split
    · rfl
    · rw [usnet_release_tcb_flow]
      rfl

@[simp] theorem retransmit_flow (s : Conn) : (retransmit s).tcb.flow = s.tcb.flow := by
  unfold retransmit
  simp only
  split
  · rw [usnet_add_send_list_flow]
    rfl
  · rw [usnet_add_send_list_flow]
    rfl
  all_goals try rw [usnet_add_control_list_flow]
  all_goals try rfl
  all_goals
    split
    · rw [usnet_add_send_list_flow]
      exact usnet_remove_control_list_flow _
    · rw [usnet_add_control_list_flow]
      rfl

/-- A timeout goes back to one segment.  The new `rto` replaces the old one only if
    it is not 0. -/
theorem back_off_flow (s : Conn) :
    ∃ rto ssthresh, (back_off s).tcb.flow =
        { s.tcb.flow with
          rto := rto, ssthresh := ssthresh, cwnd := s.tcb.sndvar.mss.toUInt32 } ∧
      (rto = s.tcb.sndvar.rto ∨ rto ≠ 0) := by
  unfold back_off
  simp only
  generalize hu : Conn.onSnd (Conn.onSnd s _) _ = u
  have hflow : u.tcb.flow = s.tcb.flow := by
    rw [← hu]
    rfl
  have hmss : u.tcb.sndvar.mss = s.tcb.sndvar.mss := congrArg Flow.mss hflow
  have hrto : u.tcb.sndvar.rto = s.tcb.sndvar.rto := congrArg Flow.rto hflow
  rw [← hflow, ← hmss, ← hrto]
  by_cases hst : u.tcb.state.val ≥ TcpState.established.val
  · simp only [hst, if_true]
    generalize hr : ((u.tcb.rcvvar.srtt >>> 3) + u.tcb.rcvvar.rttvar) <<<
      (min u.tcb.sndvar.nrtx TCP_MAX_BACKOFF).toUInt32 = rto
    refine ⟨if rto = 0 then u.tcb.sndvar.rto else rto, _, by rw [← hr]; rfl, ?_⟩
    split
    · exact .inl rfl
    · rename_i hne
      exact .inr hne
  · simp only [hst, if_false]
    exact ⟨u.tcb.sndvar.rto, _, rfl, .inl rfl⟩

/-- What an event does to the variables of a connection. -/
inductive LifeFlow (s : Conn) : LifeEvent → Except Fault Conn → Prop where
  | kept {ev : LifeEvent} {r : Except Fault Conn} : Keeps s.tcb.flow r → LifeFlow s ev r
  | backed_off {s' : Conn} : s'.tcb.flow = (back_off s).tcb.flow → LifeFlow s .rto (.ok s')
  | input {seg : Segment} : addressed s.tcb seg = true → InputFlow s seg (input_segment s seg) →
      LifeFlow s (.segment seg) (effect (input_segment s seg))

/-- A timeout gives up, or backs off. -/
theorem usnet_handle_rto_flow (s : Conn) :
    Keeps s.tcb.flow (effect (usnet_handle_rto s)) ∨
    ∃ r s', usnet_handle_rto s = .ok (r, s') ∧ s'.tcb.flow = (back_off s).tcb.flow := by
  unfold usnet_handle_rto
  by_cases hrto : s.tcb.sndvar.rto = 0
  · rw [if_pos hrto]
    exact .inl ⟨by decide, fun _ => hrto⟩
  · rw [if_neg hrto]
    by_cases hmax : s.tcb.sndvar.nrtx ≥ TCP_MAX_RTX
    · rw [if_pos hmax]
      exact .inl (give_up_flow s)
    · rw [if_neg hmax]
      -- what follows the back-off resends or releases, and writes none of the variables
      right
      have hsent : ∃ r s', (.ok (0, retransmit (back_off s)) : Except Fault (Int × Conn)) =
          .ok (r, s') ∧ s'.tcb.flow = (back_off s).tcb.flow :=
        ⟨_, _, rfl, retransmit_flow _⟩
      have hgone : ∃ r s', (.ok (-3, usnet_release_tcb (usnet_raise_error_event (back_off s))) :
          Except Fault (Int × Conn)) = .ok (r, s') ∧ s'.tcb.flow = (back_off s).tcb.flow :=
        ⟨_, _, rfl, usnet_release_tcb_flow _⟩
      cases hst : (back_off s).tcb.state with
      | syn_sent =>
        simp only [hst]
        split
        · refine ⟨_, _, rfl, ?_⟩
          split
          · rfl
          · rw [usnet_release_tcb_flow]
            rfl
        · exact hsent
      | syn_received => simpa only [hst] using hsent
      | established => simpa only [hst] using hsent
      | close_wait => simpa only [hst] using hsent
      | last_ack => simpa only [hst] using hsent
      | fin_wait_1 => simpa only [hst] using hsent
      | closing => simpa only [hst] using hsent
      | closed => simpa only [hst] using hgone
      | listen => simpa only [hst] using hgone
      | fin_wait_2 => simpa only [hst] using hgone
      | time_wait => simpa only [hst] using hgone

theorem rto_visit_flow (s : Conn) : LifeFlow s .rto (rto_visit s) := by
  unfold rto_visit
  split
  · rcases usnet_handle_rto_flow s with hkeeps | ⟨r, s', hok, hflow⟩
    · split
      · rename_i h
        rw [h] at hkeeps
        exact .kept hkeeps
      · rename_i h
        rw [h] at hkeeps
        exact .kept hkeeps
    · rw [hok]
      exact .backed_off hflow
  · exact .kept rfl

theorem life_conn_flow (s : Conn) (ev : LifeEvent) : LifeFlow s ev (life_conn s ev) := by
  cases ev with
  | segment seg =>
    by_cases haddr : addressed s.tcb seg = true
    · simp only [life_conn, haddr, if_true]
      exact .input haddr (input_segment_flow s seg)
    · simp only [life_conn, haddr]
      exact .kept rfl
  | accept so fd result => exact .kept (usnet_connect_net_handler_flow s so fd result)
  | wrote so_tcb fd => exact .kept (usnet_write_net_handler_flow s so_tcb fd)
  | rto => exact rto_visit_flow s
  | control => exact .kept (control_visit_flow s)
  | acks => exact .kept (ack_visit_flow s)
  | data => exact .kept (data_visit_keeps s)
  | timewait => exact .kept (timewait_visit_flow s)
  | timeout =>
    apply LifeFlow.kept
    show (if s.tcb.on_timeout_list then timeout_visit s else s).tcb.flow = s.tcb.flow
    split
    · exact timeout_visit_flow s
    · rfl
  | write fd bytes => exact .kept (app_write_keeps s fd bytes)
  | read fd count => exact .kept rfl

/-! ## Section 7: A new connection -/

/-- The variables as the SYN leaves them that makes the connection. -/
def created_flow (seg : Segment) : Flow :=
  let v := option_values seg (parsed_at seg)
  { saw_timestamp := v.ts_val.isSome
    mss := v.mss.getD TCP_DEFAULT_MSS, eff_mss := (v.mss.map (· - 12)).getD 0
    wscale := v.wscale.getD TCP_DEFAULT_WSCALE, peer_wnd := seg.window.toUInt32
    rto := TCP_INITIAL_RTO, cwnd := 1, ssthresh := 0, snd_wl1 := 0 - 1, snd_wl2 := 0
    ts_lastack_rcvd := 0, srtt := 0, mdev := 0, mdev_max := 0, rttvar := 0, rtt_seq := 0
    last_ack_seq := 0, dup_acks := 0 }

theorem usnet_create_tcb_flow {c : Ctx} {l : Listener} {seg : Segment} {t : UsnTcb}
    (h : usnet_create_tcb c l seg = .ok (some t)) : t.flow = created_flow seg := by
  obtain ⟨id, -, -, -, hopts⟩ := usnet_create_tcb_made h
  have hends : usnet_parse_tcpopts c.cur_time seg (syn_noted (init_newtcb c id l seg.ip_dst
      seg.th_dport seg.ip_src seg.th_sport) seg) ≠ .error .endless_loop := by
    rw [hopts]
    intro h
    cases h
  rw [usnet_parse_tcpopts_eq hends] at hopts
  rw [← Except.ok.inj hopts]
  rfl

/-- A new connection starts with them. -/
theorem usnet_tcp_input_flow {c c' : Ctx} {seg : Segment} {ret : Int} {t : UsnTcb}
    (h : usnet_tcp_input c none seg = .ok (ret, c', some t)) : t.flow = created_flow seg := by
  obtain ⟨hsyn, l, t₀, c₁, b, hcreate, rfl⟩ := usnet_tcp_input_opens h
  have hflow := usnet_create_tcb_flow hcreate
  show (note_segment ⟨c₁, t₀⟩ seg).tcb.flow = created_flow seg
  rw [note_segment_flow, hflow]
  unfold noted_wnd
  rw [if_pos hsyn]
  rfl

end Usnet
