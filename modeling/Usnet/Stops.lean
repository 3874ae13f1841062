import Usnet.Accept
import Usnet.Divisors
import Usnet.PendingRuns
import Usnet.Progress
import Usnet.Rtt
import Usnet.SendOrder

/-! # Where the process can stop

    The network process serves all connections, so an assertion that fails, a copy
    of negative length or a loop without end on one of them takes the others down.
    Which event can end so is a question of what the functions find; that none does
    is one of what the events have been like.
-/

namespace Usnet

open CInt Circular Run

/-! ## Section 1: The rings -/

/-- An insertion behind the first check of `usnet_process_tcp_payload` fails only
    where its copy would start behind the block. -/
theorem usnet_insert_fragment_none {chunk : Bool} {buf : UsnRingbuf} {data : List UInt8}
    {seq : UInt32} (hsize : buf.size.toNat ≤ 65535) (hpos : 0 < data.length)
    (hshort : data.length < 2 ^ 16) (hinv : FragInv buf)
    (hend : ¬ TCP_SEQ_LT (seq + u32 data.length) buf.head_seq)
    (h : usnet_insert_fragment chunk buf data seq = none) :
    InRange buf data seq ∧ 2 * buf.size.toNat < buf.head.toNat + ahead buf.head_seq seq := by
  -- the segment ends behind the front, so it starts less than 2^16 before it
  have hlt := ahead_lt buf.head_seq seq
  have hnear : sint (seq - buf.head_seq) + data.length < 2 ^ 31 ∧
      (minseq buf.head_seq seq = buf.head_seq → 0 ≤ sint (seq - buf.head_seq)) := by
    have hadd : ahead buf.head_seq (seq + u32 data.length)
        = (ahead buf.head_seq seq + data.length) % 2 ^ 32 := by
      unfold ahead
      rw [show seq + u32 (data.length : Int) - buf.head_seq
          = (seq - buf.head_seq) + u32 (data.length : Int) by grind]
      rw [toNat_add, toNat_u32_of_lt (by omega)]
    unfold TCP_SEQ_LT at hend
    rw [sint_sub_ahead buf.head_seq, ahead_self, hadd] at hend
    have hsint : sint (seq - buf.head_seq) = if ahead buf.head_seq seq < 2 ^ 31
        then (ahead buf.head_seq seq : Int) else (ahead buf.head_seq seq : Int) - 2 ^ 32 := by
      unfold ahead
      rw [sint_eq]
    refine ⟨?_, fun hmin => ?_⟩
    · rw [hsint]
      split_ifs at hend ⊢ <;> omega
    · by_contra hneg
      rw [hsint] at hneg
      -- a start before the front is the earlier of the two
      have hback : ¬ ahead buf.head_seq seq < 2 ^ 31 := by
        intro hsmall
        rw [if_pos hsmall] at hneg
        omega
      have hbehind : 2 ^ 32 - 2 ^ 16 ≤ ahead buf.head_seq seq := by
        split_ifs at hend <;> omega
      unfold minseq at hmin
      unfold ahead at hbehind
      simp only [← UInt32.toNat_inj, UInt32.lt_iff_toNat_lt, UInt32.le_iff_toNat_le, toNat_sub]
        at hmin hbehind
      have hmax : (MAXSEQ / 2).toNat = 2147483647 := by decide
      have h₁ := seq.toNat_lt
      have h₂ := buf.head_seq.toNat_lt
      rw [hmax] at hmin
      split_ifs at hmin <;> omega
  unfold usnet_insert_fragment at h
  simp only at h
  by_cases hmin : minseq buf.head_seq seq = buf.head_seq
  swap
  · rw [if_pos hmin] at h
    cases h
  rw [if_neg (not_not.mpr hmin)] at h
  by_cases hfits : u32 (data.length : Int) > buf.size
  · rw [if_pos hfits] at h
    cases h
  have hoff := hnear.2 hmin
  rw [if_neg hfits, if_neg (by omega)] at h
  by_cases havail : sint (seq - buf.head_seq) + data.length > buf.avail_len
  · rw [if_pos havail] at h
    cases h
  rw [if_neg havail] at h
  have hrange : InRange buf data seq :=
    ⟨hmin, hfits, hoff, hnear.1, by omega⟩
  obtain ⟨hsint, hle⟩ := hrange.offset hsize
  refine ⟨hrange, ?_⟩
  split at h
  · rename_i hcopy
    rw [hsint] at hcopy
    exact (copy_payload_none
      { buf with last_seq := if seq + u32 data.length > buf.last_seq
          then seq + u32 data.length else buf.last_seq } data _ (by omega) hsize).mp hcopy
  · rename_i copied hcopy
    obtain ⟨frags, hlink, -⟩ := hrange.link hsize hpos hinv
    have hframe : copied.frags = buf.frags := by rw [copy_payload_frame hcopy]
    rw [hframe, hlink] at h
    split at h <;> cases h

/-! ## Section 2: The send loop -/

/-- A turn fails in one way only, and there may be too many of them. -/
theorem flush_loop_stops {maxlen window tail : UInt32} (fuel : Nat) {s : Conn}
    {buf : UsnSendbuf} {head : UInt32} {packets : Int} {e : Fault}
    (h : flush_loop maxlen window tail fuel s buf head packets = .error e) :
    e = .invalid_sequence ∨ e = .endless_loop := by
  induction fuel generalizing s buf head packets with
  | zero => exact .inr (Except.error.inj h).symm
  | succ fuel ih =>
    unfold flush_loop at h
    split at h
    · rename_i hturn
      obtain rfl := Except.error.inj h
      unfold flush_turn at hturn
      simp only at hturn
      split_ifs at hturn
      exact .inl (Except.error.inj hturn).symm
    · cases h
    · exact ih h

section
variable {buf : UsnSendbuf} (hsize : buf.size.toNat < 2 ^ 15)
  (htail : buf.tail.toNat ≤ buf.size.toNat)
include hsize

include htail

end

/-! ## Section 3: Segments -/

/-- An acknowledgement stops in a division or in the assertion on the timeout. -/
theorem usnet_process_ack_stops {s : Conn} {buf : UsnSendbuf} {seg : Segment} {e : Fault}
    (h : usnet_process_ack s buf seg = .error e) : e = .division ∨ e = .rto_assert := by
  unfold usnet_process_ack at h
  simp only at h
  split at h
  · cases h
  unfold process_valid_ack at h
  simp only at h
  split at h
  · cases h
  unfold ack_data at h
  simp only at h
  split at h
  · exact .inl (Except.error.inj h).symm
  -- the estimator, the window and the timer, one after the other
  generalize forward_nxt _ _ _ = u at h
  cases hrto : update_rto u with
  | error f =>
    simp only [hrto, bind, Except.bind] at h
    obtain rfl := Except.error.inj h
    exact .inr (update_rto_failed hrto).1
  | ok v =>
    simp only [hrto, bind, Except.bind] at h
    cases hcwnd : update_cwnd v (acked_packets u (counted_ack s seg.ack_seq - buf.head_seq)) with
    | error f =>
      simp only [hcwnd] at h
      obtain rfl := Except.error.inj h
      unfold update_cwnd at hcwnd
      simp only at hcwnd
      split_ifs at hcwnd
      exact .inl (Except.error.inj hcwnd).symm
    | ok w =>
      simp only [hcwnd] at h
      split at h
      · rename_i hrem
        obtain rfl := Except.error.inj h
        unfold remove_acked usnet_update_retransmission_timer at hrem
        simp only at hrem
        split_ifs at hrem
        all_goals exact .inr (Except.error.inj hrem).symm
      · cases h

theorem process_ack_if_buffered_stops {s : Conn} {seg : Segment} {e : Fault}
    (h : process_ack_if_buffered s seg = .error e) : e = .division ∨ e = .rto_assert := by
  unfold process_ack_if_buffered at h
  split at h
  · cases h
  · split at h
    · rename_i hack
      obtain rfl := Except.error.inj h
      exact usnet_process_ack_stops hack
    · cases h

/-- A payload stops where its insertion does. -/
theorem handle_payload_stops {s : Conn} {seg : Segment} {stored refused : AckOpt} {e : Fault}
    (h : handle_payload s seg stored refused = .error e) :
    e = .bad_copy ∧ 0 < seg.payload.length ∧ payload_fits s.tcb seg ∧
    ∃ buf, receive_buffer s = some buf ∧
      usnet_insert_fragment s.ctx.frag_mp buf seg.payload seg.seq = none := by
  unfold handle_payload at h
  split at h
  · rename_i hpos
    split at h
    · rename_i hpay
      obtain rfl := Except.error.inj h
      unfold usnet_process_tcp_payload at hpay
      split at hpay
      · cases hpay
      rename_i hbefore
      split at hpay
      · cases hpay
      rename_i hbehind
      split at hpay
      · cases hpay
      · rename_i buf hbuf
        unfold store_payload at hpay
        simp only at hpay
        split at hpay
        · rename_i hins
          exact ⟨(Except.error.inj hpay).symm, hpos, ⟨hbefore, hbehind⟩, buf, hbuf, hins⟩
        · split_ifs at hpay
    · cases h
  · cases h

/-- The sequence check looks for a timestamp in the options. -/
def looks_for_timestamp (tcb : UsnTcb) (seg : Segment) : Prop :=
  seg.has TH_RST = false ∧ tcb.saw_timestamp

/-- Outside of TIME_WAIT it stops in the options only. -/
theorem check_segment_stops {s : Conn} {seg : Segment} {e : Fault}
    (hst : s.tcb.state ≠ .time_wait) (h : check_segment s seg = .error e) :
    e = .endless_loop ∧ looks_for_timestamp s.tcb seg ∧
    usnet_parse_tcptimestamp seg = .error .endless_loop := by
  unfold check_segment at h
  split at h
  · unfold usnet_validate_seq at h
    split at h
    · rename_i hts
      obtain rfl := Except.error.inj h
      unfold validate_timestamp at hts
      split at hts
      · rename_i hlooks
        split at hts
        · rename_i hparse
          obtain rfl := Except.error.inj hts
          obtain rfl := usnet_parse_tcptimestamp_failed hparse
          exact ⟨rfl, hlooks, hparse⟩
        · cases hts
        · split at hts <;> cases hts
      · cases hts
    · rename_i r t hts
      split at h
      · cases h
      split at h
      · cases h
      -- the answer to a segment outside the window asserts in TIME_WAIT alone
      have htst : t.tcb.state = s.tcb.state := by
        have hq := validate_timestamp_quiet hts
        simp [hq]
      unfold reject_seq at h
      split_ifs at h
      rename_i htw
      exact absurd (htst.symm.trans htw) hst
  · cases h

/-- The connection as its handler finds it, while data is being sent. -/
theorem handler_noted {s s₁ : Conn} {seg : Segment} {r : Int} (hs : sending s.tcb.state)
    (hok : check_segment s seg = .ok (r, s₁)) (hr : ¬ r < 0) :
    in_window s.tcb seg ∧ Noted s seg (process_rst (note_segment s₁ seg) seg).2 ∧
    ((process_rst (note_segment s₁ seg) seg).2.tcb.state = s.tcb.state ∨
      (process_rst (note_segment s₁ seg) seg).2.tcb.state = .close_wait) := by
  have hval : s.tcb.state.val ≥ TcpState.syn_received.val := by
    rcases hs with hs | hs <;> rw [hs] <;> decide
  unfold check_segment at hok
  rw [if_pos hval] at hok
  by_cases hrst : seg.has TH_RST = true
  · -- a reset is not looked at for its timestamp, and goes through the reset logic
    have hts : validate_timestamp s seg = .ok (0, s) := by
      unfold validate_timestamp
      rw [if_neg (by simp [hrst])]
    unfold usnet_validate_seq at hok
    rw [hts] at hok
    simp only at hok
    rw [if_neg (by decide)] at hok
    by_cases hw : in_window s.tcb seg
    · rw [if_pos hw] at hok
      obtain ⟨rfl, rfl⟩ := Prod.mk.inj (Except.ok.inj hok)
      have hrun : (process_rst (note_segment s seg) seg).2
          = (usnet_handle_rst (marked s seg) seg.ack_seq).2 := by
        unfold process_rst
        rw [if_pos hrst]
        simp only [Conn.onTcb_tcb, show (note_segment s seg).tcb.state = s.tcb.state by simp]
        rw [if_pos (by simp only [TcpState.val] at hval ⊢; omega)]
        rfl
      obtain ⟨hn, hst⟩ := noted_rst hs hw
      rw [hrun]
      exact ⟨hw, hn, hst.imp (·.1) (·.1)⟩
    · rw [if_neg hw] at hok
      unfold reject_seq at hok
      rw [if_pos hrst] at hok
      obtain ⟨rfl, -⟩ := Prod.mk.inj (Except.ok.inj hok)
      exact absurd (by decide) hr
  · have hnone : seg.has TH_RST = false := by simpa using hrst
    have hdup := usnet_validate_seq_dup hok hr
    rcases usnet_validate_seq_cases hok with ⟨-, hw, hq⟩ | ⟨hneg, -⟩ | ⟨hneg, -⟩ | ⟨hneg, -⟩
    · obtain ⟨hn, hst⟩ := noted_quiet seg hq hdup
      rw [process_rst_none hnone]
      exact ⟨hw, hn, .inl hst⟩
    · exact absurd hneg hr
    · exact absurd hneg hr
    · exact absurd hneg hr

/-! ## Section 4: The lists -/

/-- On the send list only with a send buffer. -/
def queued_with_buffer (s : Conn) : Prop :=
  s.links.on_send_list = true → s.links.buf_fd.isSome

theorem queued_with_buffer.of_eq {s s' : Conn} (h : queued_with_buffer s)
    (hon : s'.links.on_send_list = s.links.on_send_list)
    (hfd : s'.links.buf_fd = s.links.buf_fd) : queued_with_buffer s' := by
  unfold queued_with_buffer
  rw [hon, hfd]
  exact h

/-- `usnet_add_send_list` is the only operation that puts it there, and looks first. -/
theorem ListStep.queued {s s' : Conn} (h : ListStep s s') (hq : queued_with_buffer s) :
    queued_with_buffer s' := by
  have hfd : s'.links.buf_fd = s.links.buf_fd := h.framed.buf_fd
  cases h with
  | packet h =>
    refine hq.of_eq ?_ hfd
    cases h with
    | quiet h => exact congrArg Links.on_send_list h
    | touch =>
      unfold touch usnet_update_timeout_list
      split <;> rfl
    | add_rto =>
      rw [usnet_add_rto_list_eq]
      split <;> rfl
    | add_ack =>
      unfold usnet_add_ack_list
      split <;> rfl
    | remove_ack =>
      unfold usnet_remove_ack_list
      split <;> rfl
  | queue_control =>
    refine hq.of_eq ?_ hfd
    unfold Usnet.queue_control
    split <;> rfl
  | requeue_control => exact hq.of_eq rfl hfd
  | remove_control =>
    refine hq.of_eq ?_ hfd
    unfold usnet_remove_control_list
    split <;> rfl
  | add_send =>
    intro _
    unfold usnet_add_send_list
    by_cases hnone : s.tcb.sndvar.sndbuf.isNone
    · rename_i hon
      unfold usnet_add_send_list at hon
      rw [if_pos hnone] at hon ⊢
      exact hq hon
    · have hsome : s.links.buf_fd.isSome := by
        cases hbuf : s.tcb.sndvar.sndbuf with
        | none => exact absurd (by rw [hbuf]; rfl) hnone
        | some buf => simp [Conn.links, hbuf]
      rw [if_neg hnone]
      split <;> exact hsome
  | remove_send =>
    intro hon
    unfold usnet_remove_send_list at hon ⊢
    split at hon
    · cases hon
    · rename_i hoff
      exact absurd hon hoff
  | remove_rto =>
    refine hq.of_eq ?_ hfd
    unfold usnet_remove_rto_list
    split <;> rfl
  | add_timeout _ _ h =>
    refine hq.of_eq ?_ hfd
    unfold usnet_add_timeout_list at h
    split at h
    · cases h
    · obtain rfl := Except.ok.inj h
      rfl
  | remove_timeout =>
    refine hq.of_eq ?_ hfd
    unfold usnet_remove_timeout_list
    split <;> rfl
  | add_timewait h =>
    refine hq.of_eq ?_ hfd
    unfold usnet_add_timewait_list at h
    simp only at h
    split at h
    · obtain rfl := Except.ok.inj h
      rfl
    · split at h
      · cases h
      · obtain rfl := Except.ok.inj h
        rfl
  | unlink_timewait => exact hq.of_eq rfl hfd

theorem Outcome.queued {s s' : Conn} (h : Outcome s s') (hq : queued_with_buffer s) :
    queued_with_buffer s' := by
  rcases h with h | h
  · exact h.invariant (fun _ _ hi hs => hs.queued hi) hq
  · -- a block that is released is on no list
    obtain ⟨t, -, hoff, hlinks⟩ := h.unlinked
    intro hon
    rw [hlinks] at hon
    exact absurd hon (by
      show ¬ t.tcb.sndvar.on_send_list = true
      rw [hoff.send]
      decide)

/-- Every event keeps it so. -/
theorem life_conn_queued {s s' : Conn} {ev : LifeEvent} (hq : queued_with_buffer s)
    (hok : life_conn s ev = .ok s') : queued_with_buffer s' := by
  cases ev with
  | segment seg =>
    simp only [life_conn] at hok
    split at hok
    · unfold effect at hok
      split at hok
      · cases hok
      · rename_i hseg
        obtain rfl := Except.ok.inj hok
        exact (input_segment_outcome hseg).queued hq
    · obtain rfl := Except.ok.inj hok
      exact hq
  | accept so fd result =>
    obtain rfl := Except.ok.inj hok
    obtain ⟨t, buf_fd, hlinks, hfd, hout⟩ := usnet_connect_net_handler_outcome s so fd result
    refine hout.queued fun hon => ?_
    rw [hlinks] at hon ⊢
    rcases hfd with rfl | rfl
    · exact hq hon
    · rfl
  | wrote so_tcb fd =>
    obtain rfl := Except.ok.inj hok
    exact (usnet_write_net_handler_moves s so_tcb fd).outcome.queued hq
  | rto =>
    simp only [life_conn, rto_visit] at hok
    split at hok
    · split at hok
      · cases hok
      · rename_i hrto
        obtain rfl := Except.ok.inj hok
        exact ((usnet_handle_rto_outcome hrto).queued hq).of_eq rfl rfl
    · obtain rfl := Except.ok.inj hok
      exact hq
  | control =>
    obtain rfl := Except.ok.inj hok
    cases hon : s.tcb.sndvar.on_control_list with
    | true => exact (control_visit_outcome hon).queued hq
    | false =>
      unfold control_visit
      simp only [Conn.onCtx_tcb, hon]
      exact hq.of_eq rfl rfl
  | acks =>
    obtain rfl := Except.ok.inj hok
    by_cases hon : s.tcb.sndvar.on_ack_list = true
    · exact (ack_visit_outcome hon).queued hq
    · unfold ack_visit
      rw [if_neg hon]
      exact hq.of_eq rfl rfl
  | data =>
    cases hon : s.tcb.sndvar.on_send_list with
    | true =>
      obtain ⟨t, hp, hend⟩ := data_visit_cases hon hok
      have ht : queued_with_buffer t := hp.moves.outcome.queued (hq.of_eq rfl rfl)
      rcases hend with rfl | hend
      · exact ht.of_eq rfl rfl
      · refine hend.queued fun hoff => ?_
        cases hoff
    | false =>
      simp only [life_conn, data_visit, Conn.onCtx_tcb, hon] at hok
      obtain rfl := Except.ok.inj hok
      exact hq.of_eq rfl rfl
  | timewait =>
    obtain rfl := Except.ok.inj hok
    exact (timewait_visit_outcome s).queued hq
  | timeout =>
    obtain rfl := Except.ok.inj hok
    split
    · exact (timeout_visit_outcome s).queued hq
    · exact hq
  | write fd bytes =>
    have hlinks := app_write_links hok
    exact hq.of_eq (congrArg Links.on_send_list hlinks) (congrArg Links.buf_fd hlinks)
  | read fd count =>
    obtain rfl := Except.ok.inj hok
    exact hq.of_eq rfl rfl

/-- Nothing leads back to SYN_RECEIVED. -/
theorem LifeMove.still_waiting {s s' : Conn} {ev : LifeEvent} (h : LifeMove s ev s')
    (hst : s'.tcb.state = .syn_received) : s.tcb.state = .syn_received := by
  have hclosed : s'.tcb.state ≠ .closed := by
    rw [hst]
    decide
  cases h with
  | control hct => exact hct.state.symm.trans hst
  | closed hcl => exact absurd (congrArg Core.state hcl) hclosed
  | resent _ hre => exact (congrArg Core.state hre).symm.trans hst
  | joined _ hcore hctl =>
    exact ((hctl.state.trans (congrArg Core.state hcore)).symm).trans hst
  | written _ _ hw => exact (congrArg Core.state hw).symm.trans hst
  | read hrd => exact (congrArg Core.state hrd).symm.trans hst
  | flushed _ h₀ hfl h₁ =>
    obtain ⟨buf, p, -, hcore⟩ := flushed_core h₀ hfl h₁
    exact (congrArg Core.state hcore).symm.trans hst
  | opened _ _ _ hop =>
    have hest : s'.tcb.state = .established := congrArg Core.state hop
    rw [hst] at hest
    cases hest
  | resynced _ _ _ _ hre => exact (congrArg Core.state hre).symm.trans hst
  | handled _ hh =>
    rcases hh.state with hsame | hcw | hcl
    · exact hsame.symm.trans hst
    · rw [hst] at hcw
      cases hcw
    · exact absurd hcl hclosed

/-- What is done about packets has nothing to do with the timeout list. -/
theorem Packets.on_timeout {s s' : Conn} (h : Packets s s') :
    s'.tcb.on_timeout_list = s.tcb.on_timeout_list := by
  induction h with
  | refl => rfl
  | tail _ hstep ih =>
    rw [← ih]
    cases hstep with
    | quiet h => exact congrArg Links.on_timeout_list h
    | touch =>
      unfold touch usnet_update_timeout_list
      split <;> rfl
    | add_rto =>
      rw [usnet_add_rto_list_eq]
      split <;> rfl
    | add_ack =>
      unfold usnet_add_ack_list
      split <;> rfl
    | remove_ack =>
      unfold usnet_remove_ack_list
      split <;> rfl

theorem usnet_add_control_list_on_timeout {s : Conn} (h : s.tcb.state = .syn_received) :
    (usnet_add_control_list s).tcb.on_timeout_list = s.tcb.on_timeout_list := by
  have hne : s.tcb.state ≠ .closed := by
    rw [h]
    decide
  rw [← (usnet_send_control_packet_packets hne).on_timeout]
  unfold usnet_add_control_list
  simp only
  split
  · unfold queue_control
    split <;> rfl
  · rw [usnet_remove_control_list_tcb]

theorem send_waiting_on_timeout {s : Conn} (h : s.tcb.state = .syn_received) (on_list : Bool) :
    (send_waiting s on_list).tcb.on_timeout_list = s.tcb.on_timeout_list := by
  unfold send_waiting
  split
  · rw [usnet_add_control_list_on_timeout (by exact h)]
    rfl
  · rfl

/-- What the handler of SYN_RECEIVED finds, unless the connection was reset. -/
theorem handler_waiting {s s₁ : Conn} {seg : Segment} {r : Int}
    (hst : s.tcb.state = .syn_received) (hok : check_segment s seg = .ok (r, s₁))
    (hr : ¬ r < 0) :
    ((process_rst (note_segment s₁ seg) seg).2.tcb.state = .syn_received ∧
      (process_rst (note_segment s₁ seg) seg).2.tcb.on_timeout_list = s.tcb.on_timeout_list) ∨
    (process_rst (note_segment s₁ seg) seg).2.tcb.state = .closed := by
  have hchecked : s₁.tcb.state = .syn_received ∧
      s₁.tcb.on_timeout_list = s.tcb.on_timeout_list := by
    unfold check_segment at hok
    rw [if_pos (by rw [hst])] at hok
    unfold usnet_validate_seq at hok
    split at hok
    · cases hok
    · rename_i r₁ t hts
      have hwait := validate_timestamp_wait hts
      split at hok
      · rename_i hneg
        obtain ⟨rfl, -⟩ := Prod.mk.inj (Except.ok.inj hok)
        exact absurd hneg hr
      split at hok
      · obtain ⟨-, rfl⟩ := Prod.mk.inj (Except.ok.inj hok)
        exact ⟨hwait.1.trans hst, hwait.2.2.2.2.2.2.2⟩
      · obtain ⟨hneg, -⟩ := reject_seq_flow hok
        exact absurd hneg hr
  have hnoted : (note_segment s₁ seg).tcb.state = .syn_received ∧
      (note_segment s₁ seg).tcb.on_timeout_list = s.tcb.on_timeout_list := by
    unfold note_segment
    simp only [usnet_update_timeout_list_tcb]
    exact hchecked
  generalize note_segment s₁ seg = n at hnoted
  unfold process_rst
  split
  · simp only [Conn.onTcb_tcb, hnoted.1]
    rw [if_pos (by decide)]
    unfold usnet_handle_rst
    simp only [Conn.onTcb_tcb, hnoted.1]
    split
    · right
      simp
    · exact .inl hnoted
  · exact .inl hnoted

/-- Until the handshake ends the connection stays off the timeout list. -/
theorem life_conn_waiting {s s' : Conn} {ev : LifeEvent} (h : LifeInv s.tcb)
    (hoff : s.tcb.state = .syn_received → s.tcb.on_timeout_list = false)
    (hok : life_conn s ev = .ok s') (hst' : s'.tcb.state = .syn_received) :
    s'.tcb.on_timeout_list = false := by
  have hst := (life_conn_move h hok).still_waiting hst'
  rw [← hoff hst]
  have hne : s.tcb.state ≠ .closed := by
    rw [hst]
    decide
  have hleft : ∀ {t : Conn}, t = s' → t.tcb.state = .closed →
      s'.tcb.on_timeout_list = s.tcb.on_timeout_list := by
    rintro t rfl hcl
    rw [hcl] at hst'
    cases hst'
  cases ev with
  | segment seg =>
    simp only [life_conn] at hok
    split at hok
    · unfold effect at hok
      split at hok
      · cases hok
      rename_i r u hseg
      obtain rfl := Except.ok.inj hok
      rcases input_segment_cases hseg with ⟨-, r₀, hneg, hc⟩ | ⟨-, r₀, s₁, hnot, hc, hs⟩
      · -- turned away by the check
        unfold check_segment at hc
        rw [if_pos (by rw [hst])] at hc
        unfold usnet_validate_seq at hc
        split at hc
        · cases hc
        · rename_i r₁ t hts
          have hwait := validate_timestamp_wait hts
          have hon := hwait.2.2.2.2.2.2.2
          have htst := hwait.1.trans hst
          split at hc
          · obtain ⟨-, rfl⟩ := Prod.mk.inj (Except.ok.inj hc)
            exact hon
          split at hc
          · obtain ⟨-, rfl⟩ := Prod.mk.inj (Except.ok.inj hc)
            exact hon
          · unfold reject_seq at hc
            rw [htst] at hc
            split at hc
            · obtain ⟨-, rfl⟩ := Prod.mk.inj (Except.ok.inj hc)
              exact hon
            · rw [if_neg (by decide), if_neg (by decide)] at hc
              obtain ⟨-, rfl⟩ := Prod.mk.inj (Except.ok.inj hc)
              rw [usnet_add_control_list_on_timeout htst]
              exact hon
      · rcases handler_waiting hst hc hnot with ⟨hn, hon⟩ | hcl
        · generalize (process_rst (note_segment s₁ seg) seg).2 = n at *
          unfold handle_state at hs
          rw [hn] at hs
          rcases usnet_handle_syn_received_cases hs with
            ⟨-, -, rfl⟩ | ⟨-, -, he⟩ | ⟨-, rfl⟩
          · exact hon
          · exact absurd (he.state.symm.trans hst') (by decide)
          · rw [usnet_add_control_list_on_timeout (by exact hn)]
            exact hon
        · generalize (process_rst (note_segment s₁ seg) seg).2 = n at *
          unfold handle_state at hs
          rw [hcl] at hs
          obtain rfl := Except.ok.inj hs
          exact hleft rfl hcl
    · obtain rfl := Except.ok.inj hok
      rfl
  | accept so fd result =>
    obtain rfl := Except.ok.inj hok
    unfold usnet_connect_net_handler
    split
    · rfl
    split
    · rfl
    simp only
    split
    · rw [usnet_add_control_list_on_timeout (by exact hst)]
      rfl
    · split
      · rfl
      · rw [usnet_add_control_list_on_timeout (by exact hst)]
        rfl
  | wrote so_tcb fd =>
    obtain rfl := Except.ok.inj hok
    have hsend : (usnet_add_send_list s).tcb.on_timeout_list = s.tcb.on_timeout_list := by
      unfold usnet_add_send_list
      split
      · rfl
      · split <;> rfl
    unfold usnet_write_net_handler
    split
    · rfl
    · split_ifs
      · rfl
      · rfl
      · exact hsend
      · rfl
  | rto =>
    simp only [life_conn, rto_visit] at hok
    split at hok
    · split at hok
      · cases hok
      · rename_i r u hrto
        obtain rfl := Except.ok.inj hok
        unfold usnet_handle_rto at hrto
        split at hrto
        · cases hrto
        split at hrto
        · obtain ⟨-, rfl⟩ := Prod.mk.inj (Except.ok.inj hrto)
          -- a connection given up is closed
          have hcl : (give_up s).tcb.state = .closed := by
            unfold give_up
            rw [if_pos (by rw [hst]; decide)]
            simp
          exact hleft rfl hcl
        · have hback : (back_off s).tcb.state = .syn_received ∧
              (back_off s).tcb.on_timeout_list = s.tcb.on_timeout_list :=
            ⟨(congrArg PendView.state (back_off_pend s)).trans hst,
              congrArg Links.on_timeout_list (back_off_links s)⟩
          simp only [hback.1] at hrto
          obtain ⟨-, rfl⟩ := Prod.mk.inj (Except.ok.inj hrto)
          rw [← hback.2]
          show (retransmit (back_off s)).tcb.on_timeout_list = _
          unfold retransmit
          simp only [Conn.onTcb_tcb, hback.1]
          rw [usnet_add_control_list_on_timeout (by exact hback.1)]
          rfl
    · obtain rfl := Except.ok.inj hok
      rfl
  | control =>
    obtain rfl := Except.ok.inj hok
    unfold control_visit
    simp only
    split
    · generalize ht : Conn.onSnd (s.onCtx _) _ = t
      have htcb : t.tcb.state = s.tcb.state ∧ t.tcb.on_timeout_list = s.tcb.on_timeout_list := by
        rw [← ht]
        exact ⟨rfl, rfl⟩
      have hsend := (usnet_send_control_packet_packets
        (htcb.1.symm ▸ hne : t.tcb.state ≠ .closed)).on_timeout
      split
      · exact hsend.trans htcb.2
      · exact hsend.trans htcb.2
    · rfl
  | acks =>
    obtain rfl := Except.ok.inj hok
    unfold ack_visit
    split
    · have hack := ack_or_drop_packets s
      rw [send_waiting_on_timeout]
      · exact hack.on_timeout
      · exact (congrArg Core.state (ack_or_drop_core s)).trans hst
    · rfl
  | data =>
    simp only [life_conn, data_visit] at hok
    split at hok
    · have hsend : send_data (s.onCtx fun c => { c with send_list := c.send_list.erase s.tcb.id })
          = .ok (0, s.onCtx fun c => { c with send_list := c.send_list.erase s.tcb.id }) := by
        unfold send_data
        simp only [Conn.onCtx_tcb, hst]
      rw [hsend] at hok
      simp only at hok
      rw [if_neg (by decide)] at hok
      obtain rfl := Except.ok.inj hok
      rw [send_waiting_on_timeout (by exact hst)]
      rfl
    · obtain rfl := Except.ok.inj hok
      rfl
  | timewait =>
    obtain rfl := Except.ok.inj hok
    by_cases hexpired : s.tcb.on_timewait_list ∧
        sint (s.ctx.cur_time - s.tcb.rcvvar.ts_tw_expire) ≥ 0 ∧
        s.tcb.sndvar.on_control_list = false
    · have hcl : (timewait_visit s).tcb.state = .closed := by
        unfold timewait_visit
        rw [if_pos hexpired]
        simp
      exact hleft rfl hcl
    · unfold timewait_visit
      rw [if_neg hexpired]
  | timeout =>
    obtain rfl := Except.ok.inj hok
    split
    · rename_i hon
      rw [hoff hst] at hon
      cases hon
    · rfl
  | write fd bytes => exact congrArg Links.on_timeout_list (app_write_links hok)
  | read fd count =>
    obtain rfl := Except.ok.inj hok
    rfl

/-! ## Section 5: Events -/

/-- The lists agree with the state and with the buffer. -/
structure ListsInv (t : UsnTcb) : Prop where
  life : LifeInv t
  waiting : t.state = .syn_received → t.on_timeout_list = false
  queued : t.sndvar.on_send_list = true → t.sndvar.sndbuf.isSome

theorem ListsInv.of_life {t : UsnTcb} (h : LifeReachable (some t)) : ListsInv t := by
  have hqueued : ∀ (c : Ctx) (t : UsnTcb), queued_with_buffer ⟨c, t⟩ ↔
      (t.sndvar.on_send_list = true → t.sndvar.sndbuf.isSome) := by
    intro c t
    simp [queued_with_buffer, Conn.links]
  refine LifeWhere.invariant (I := ListsInv) (fun c seg ret c' t hin => ?_)
    (fun s ev s' hi _ hok => ?_) h
  · have hwait := Unaccepted.created hin
    obtain ⟨id, l, -, hlinks⟩ := usnet_tcp_input_opened hin
    have hoff : t.sndvar.on_send_list = false := congrArg Links.on_send_list hlinks
    refine ⟨⟨.inl hwait.state, (usnet_tcp_input_created hin).send.2.2⟩,
      fun _ => hwait.timers.2.2, fun hon => ?_⟩
    rw [hoff] at hon
    cases hon
  · exact ⟨(life_conn_move hi.life hok).inv hi.life, life_conn_waiting hi.life hi.waiting hok,
      (hqueued s'.ctx s'.tcb).mp (life_conn_queued ((hqueued s.ctx s.tcb).mpr hi.queued) hok)⟩

/-- The ways an event can stop the process. -/
inductive Stops (s : Conn) : LifeEvent → Fault → Prop where
  | options {seg : Segment} : addressed s.tcb seg = true → looks_for_timestamp s.tcb seg →
      usnet_parse_tcptimestamp seg = .error .endless_loop →
      Stops s (.segment seg) .endless_loop
  | copy {seg : Segment} {buf : UsnRingbuf} : addressed s.tcb seg = true →
      0 < seg.payload.length → receive_buffer s = some buf → InRange buf seg.payload seg.seq →
      2 * buf.size.toNat < buf.head.toNat + ahead buf.head_seq seg.seq →
      Stops s (.segment seg) .bad_copy
  | ack {seg : Segment} {e : Fault} : addressed s.tcb seg = true →
      e = .division ∨ e = .rto_assert → Stops s (.segment seg) e
  | timer : Stops s .rto .rto_assert
  | flush {e : Fault} : s.tcb.sndvar.on_send_list = true → sending s.tcb.state →
      usnet_flush_tcp_sendbuf (take_send s) = .error e → Stops s .data e
  | write {fd : UInt32} {bytes : List UInt8} {buf : UsnSendbuf} :
      s.tcb.sndvar.sndbuf = some buf → usnet_write_data buf bytes = none →
      Stops s (.write fd bytes) .bad_copy

/-- The end of the handshake enters the timeout list. -/
theorem usnet_handle_syn_received_runs {n : Conn} {seg : Segment} {e : Fault}
    (hoff : n.tcb.on_timeout_list = false) : usnet_handle_syn_received n seg ≠ .error e := by
  intro herr
  have hkept : ∀ u : Conn, (usnet_remove_rto_list u).tcb.on_timeout_list
      = u.tcb.on_timeout_list := by
    intro u
    unfold usnet_remove_rto_list
    split <;> rfl
  unfold usnet_handle_syn_received establish usnet_add_timeout_list at herr
  simp only [Conn.onTcb_tcb, hkept, Conn.onSnd_tcb, hoff, Bool.false_eq_true, if_false] at herr
  split_ifs at herr

/-- A connection that is closed handles nothing. -/
theorem handler_closed {s s₁ : Conn} {seg : Segment} {r : Int} {e : Fault}
    (hst : s.tcb.state = .closed) (hok : check_segment s seg = .ok (r, s₁)) :
    handle_state (process_rst (note_segment s₁ seg) seg).2 seg ≠ .error e := by
  unfold check_segment at hok
  rw [if_neg (by rw [hst]; decide)] at hok
  obtain ⟨-, rfl⟩ := Prod.mk.inj (Except.ok.inj hok)
  have hn : (note_segment s seg).tcb.state = .closed := by simp [hst]
  generalize note_segment s seg = n at hn
  have hclosed : (process_rst n seg).2.tcb.state = .closed := by
    unfold process_rst
    split
    · simp only [Conn.onTcb_tcb, hn]
      rw [if_neg (by decide)]
      exact hn
    · exact hn
  intro herr
  unfold handle_state at herr
  rw [hclosed] at herr
  cases herr

/-- The established handler stops in the copy of the payload or in the acknowledgement. -/
theorem usnet_handle_established_stops {s n : Conn} {seg : Segment} {e : Fault}
    (hrcv : RcvInv s.tcb) (haddr : addressed s.tcb seg = true)
    (hst : s.tcb.state = .established) (hn : Noted s seg n)
    (herr : usnet_handle_established n seg = .error e) : Stops s (.segment seg) e := by
  unfold usnet_handle_established at herr
  split at herr
  · cases herr
  cases hpay : handle_payload n seg .aggregate .now with
  | error f =>
    simp only [hpay, bind, Except.bind] at herr
    obtain rfl := Except.error.inj herr
    obtain ⟨rfl, hpos, hfits, buf, hbuf, hins⟩ := handle_payload_stops hpay
    obtain ⟨hnxt, hwnd, hrb⟩ := hn.receive
    have hbuf' : receive_buffer s = some buf := by
      rw [← hbuf]
      unfold receive_buffer
      simp only [hrb, hn.pools.2, hn.kept]
    obtain ⟨hf, hsize, hfront⟩ := hrcv.receive_buffer hbuf'
    -- the front of the ring is `rcv_nxt`, and the payload ends behind it
    have hend : ¬ TCP_SEQ_LT (seg.seq + u32 seg.payload.length) buf.head_seq := by
      rw [hfront (.inr hst), ← hnxt]
      exact hfits.1
    obtain ⟨hrange, hlt⟩ := usnet_insert_fragment_none (RINGBUF_SIZE_le hsize) hpos
      seg.short hf hend hins
    exact .copy haddr hpos hbuf' hrange hlt
  | ok u =>
    simp only [hpay, bind, Except.bind] at herr
    split at herr
    · rename_i hack
      obtain rfl := Except.error.inj herr
      unfold established_ack at hack
      split at hack
      · exact .ack haddr (process_ack_if_buffered_stops hack)
      · cases hack
    · cases herr

theorem usnet_handle_close_wait_stops {s n : Conn} {seg : Segment} {e : Fault}
    (haddr : addressed s.tcb seg = true) (herr : usnet_handle_close_wait n seg = .error e) :
    Stops s (.segment seg) e := by
  unfold usnet_handle_close_wait at herr
  split at herr
  · cases herr
  · exact .ack haddr (process_ack_if_buffered_stops herr)

/-- A segment: the check, and then the handler of the state. -/
theorem input_segment_stops {s : Conn} {seg : Segment} {e : Fault} (h : ListsInv s.tcb)
    (hrcv : RcvInv s.tcb) (haddr : addressed s.tcb seg = true)
    (herr : input_segment s seg = .error e) : Stops s (.segment seg) e := by
  unfold input_segment at herr
  cases hcheck : check_segment s seg with
  | error f =>
    simp only [hcheck, bind, Except.bind] at herr
    obtain rfl := Except.error.inj herr
    have htw : s.tcb.state ≠ .time_wait := by
      rcases h.life.state with hst | hst | hst | hst <;> rw [hst] <;> decide
    obtain ⟨rfl, hlooks, hparse⟩ := check_segment_stops htw hcheck
    exact .options haddr hlooks hparse
  | ok p =>
    obtain ⟨r, s₁⟩ := p
    simp only [hcheck, bind, Except.bind] at herr
    by_cases hneg : r < 0
    · simp only [hneg, if_true, pure, Except.pure] at herr
      cases herr
    simp only [hneg, if_false, process_rst_continues, Bool.false_eq_true] at herr
    have hh : handle_state (process_rst (note_segment s₁ seg) seg).2 seg = .error e := by
      split at herr
      · rename_i hf
        obtain rfl := Except.error.inj herr
        exact hf
      · cases herr
    have hsending : ∀ hs : sending s.tcb.state, Stops s (.segment seg) e := by
      intro hs
      obtain ⟨-, hn, hnst⟩ := handler_noted hs hcheck hneg
      generalize (process_rst (note_segment s₁ seg) seg).2 = n at *
      unfold handle_state at hh
      by_cases hcw : n.tcb.state = .close_wait
      · rw [hcw] at hh
        exact usnet_handle_close_wait_stops haddr hh
      · have hnst := hnst.resolve_right hcw
        have hest : s.tcb.state = .established := hs.resolve_right (hnst ▸ hcw)
        rw [hnst, hest] at hh
        exact usnet_handle_established_stops hrcv haddr hest hn hh
    rcases h.life.state with hst | hst | hst | hst
    · rcases handler_waiting hst hcheck hneg with ⟨hn, hon⟩ | hcl
      · rw [h.waiting hst] at hon
        unfold handle_state at hh
        rw [hn] at hh
        exact absurd hh (usnet_handle_syn_received_runs hon)
      · unfold handle_state at hh
        rw [hcl] at hh
        cases hh
    · exact hsending (.inl hst)
    · exact hsending (.inr hst)
    · exact absurd hh (handler_closed hst hcheck)

/-- Where an event stops the process. -/
theorem life_conn_stops {s : Conn} {ev : LifeEvent} {e : Fault} (h : ListsInv s.tcb)
    (hrcv : RcvInv s.tcb) (herr : life_conn s ev = .error e) : Stops s ev e := by
  cases ev with
  | segment seg =>
    simp only [life_conn] at herr
    split at herr
    · rename_i haddr
      unfold effect at herr
      split at herr
      · rename_i hseg
        obtain rfl := Except.error.inj herr
        exact input_segment_stops h hrcv haddr hseg
      · cases herr
    · cases herr
  | rto =>
    simp only [life_conn, rto_visit] at herr
    split at herr
    · split at herr
      · rename_i hrto
        obtain rfl := Except.error.inj herr
        unfold usnet_handle_rto at hrto
        split at hrto
        · obtain rfl := Except.error.inj hrto
          exact .timer
        · split at hrto
          · cases hrto
          · simp only at hrto
            split at hrto
            · split at hrto <;> cases hrto
            all_goals cases hrto
      · cases herr
    · cases herr
  | data =>
    simp only [life_conn, data_visit] at herr
    split at herr
    · rename_i hon
      split at herr
      · rename_i hsend
        obtain rfl := Except.error.inj herr
        -- nothing is sent before the handshake ends or when the connection is closed
        have hsend : send_data (take_send s) = .error _ := hsend
        have htake : (take_send s).tcb.state = s.tcb.state := rfl
        unfold send_data at hsend
        rw [htake] at hsend
        rcases h.life.state with hst | hst | hst | hst
        · rw [hst] at hsend
          cases hsend
        · rw [hst] at hsend
          simp only at hsend
          split at hsend
          · cases hsend
          · exact .flush hon (.inl hst) hsend
        · rw [hst] at hsend
          exact .flush hon (.inr hst) hsend
        · rw [hst] at hsend
          cases hsend
      · split at herr <;> cases herr
    · cases herr
  | write fd bytes =>
    simp only [life_conn, app_write] at herr
    split at herr
    · rename_i hw
      obtain rfl := Except.error.inj herr
      unfold usnet_write at hw
      split at hw
      · cases hw
      · rename_i buf hbuf
        split at hw
        · cases hw
        · split at hw
          · rename_i hnone
            obtain rfl := Except.error.inj hw
            exact .write hbuf hnone
          · cases hw
    · cases herr
  | accept so fd result => cases herr
  | wrote so_tcb fd => cases herr
  | control => cases herr
  | acks => cases herr
  | timewait => cases herr
  | timeout => cases herr
  | read fd count => cases herr

/-- A fault of a connection the code can have is none of the lists'. -/
theorem life_conn_lists {t : UsnTcb} (h : LifeReachable (some t)) {c : Ctx} {ev : LifeEvent}
    {e : Fault} (herr : life_conn ⟨c, t⟩ ev = .error e) :
    e ≠ .timewait_assert ∧ e ≠ .timeout_assert ∧ e ≠ .no_send_buffer := by
  have hlists := ListsInv.of_life h
  have hrcv := (wndFollows_of_life h).1
  cases life_conn_stops (s := ⟨c, t⟩) hlists hrcv herr with
  | options => exact ⟨nofun, nofun, nofun⟩
  | copy => exact ⟨nofun, nofun, nofun⟩
  | ack _ hor => rcases hor with rfl | rfl <;> exact ⟨nofun, nofun, nofun⟩
  | timer => exact ⟨nofun, nofun, nofun⟩
  | flush hon _ hfl =>
    -- there is a buffer, so only the loop is left to stop
    obtain ⟨buf, hbuf⟩ := Option.isSome_iff_exists.mp (hlists.queued hon)
    unfold usnet_flush_tcp_sendbuf at hfl
    rw [show (take_send ⟨c, t⟩).tcb.sndvar.sndbuf = some buf from hbuf] at hfl
    simp only at hfl
    split at hfl
    · cases hfl
    · rcases flush_loop_stops _ hfl with rfl | rfl <;> exact ⟨nofun, nofun, nofun⟩
  | write => exact ⟨nofun, nofun, nofun⟩

/-- Whatever a connection has been through and whatever happens to it next, the
    assertions on the timewait and timeout lists hold, and a visit of the send list
    finds a send buffer. -/
theorem list_assertions_hold {t : UsnTcb} (h : LifeReachable (some t)) (c : Ctx)
    (ev : LifeEvent) :
    life_conn ⟨c, t⟩ ev ≠ .error .timewait_assert ∧
    life_conn ⟨c, t⟩ ev ≠ .error .timeout_assert ∧
    life_conn ⟨c, t⟩ ev ≠ .error .no_send_buffer :=
  ⟨fun herr => (life_conn_lists h herr).1 rfl, fun herr => (life_conn_lists h herr).2.1 rfl,
    fun herr => (life_conn_lists h herr).2.2 rfl⟩

theorem list_assertions_hold_opened :
    life_conn ⟨quiet_ctx, opened_tcb⟩ .data ≠ .error .timewait_assert ∧
    life_conn ⟨quiet_ctx, opened_tcb⟩ .data ≠ .error .timeout_assert ∧
    life_conn ⟨quiet_ctx, opened_tcb⟩ .data ≠ .error .no_send_buffer :=
  list_assertions_hold opened_tcb_reachable quiet_ctx .data

end Usnet
