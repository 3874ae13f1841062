import Usnet.FlowVars

/-! # What an acknowledgement does to the variables

    `usnet_process_ack` part by part, as far as flow control, congestion control
    and the estimator are concerned, and all of it at the end.
-/

namespace Usnet

open CInt Run

/-! ## Section 1: The window and the duplicates -/

/-- The test in front of "Update window". -/
abbrev updates_window (tcb : UsnTcb) (seg : Segment) (ack_seq : UInt32) : Prop :=
  TCP_SEQ_LT tcb.rcvvar.snd_wl1 seg.seq ∨
  (tcb.rcvvar.snd_wl1 = seg.seq ∧ TCP_SEQ_LT tcb.rcvvar.snd_wl2 ack_seq) ∨
  (tcb.rcvvar.snd_wl2 = ack_seq ∧ cwindow tcb seg > tcb.sndvar.peer_wnd)

/-- The variables behind it. -/
def window_flow (tcb : UsnTcb) (seg : Segment) (ack_seq : UInt32) : Flow :=
  if updates_window tcb seg ack_seq then
    { tcb.flow with peer_wnd := cwindow tcb seg, snd_wl1 := seg.seq, snd_wl2 := ack_seq }
  else tcb.flow

/-- The test of "Check duplicated ack count".  `right_wnd_edge` was taken before the
    window was updated. -/
abbrev counts_dup (tcb : UsnTcb) (seg : Segment) (ack_seq : UInt32) : Prop :=
  TCP_SEQ_LT ack_seq tcb.snd_nxt ∧ ack_seq = tcb.rcvvar.last_ack_seq ∧
  seg.payload.length = 0 ∧
  (window_flow tcb seg ack_seq).snd_wl2 + (window_flow tcb seg ack_seq).peer_wnd =
    tcb.sndvar.peer_wnd + tcb.rcvvar.snd_wl2

/-- The variables behind that.  A duplicate carries the last `ack_seq` again. -/
def dup_flow (tcb : UsnTcb) (seg : Segment) (ack_seq : UInt32) : Flow :=
  { window_flow tcb seg ack_seq with
    dup_acks := if counts_dup tcb seg ack_seq then tcb.rcvvar.dup_acks + 1 else 0
    last_ack_seq := ack_seq }

theorem update_window_flow (s : Conn) (seg : Segment) (ack_seq : UInt32) :
    (update_window s seg ack_seq).tcb.flow = window_flow s.tcb seg ack_seq := by
  unfold update_window window_flow
  by_cases h : updates_window s.tcb seg ack_seq
  · rw [if_pos h]
    simp only
    rw [if_pos h]
    split <;> rfl
  · rw [if_neg h]
    simp only
    rw [if_neg h]

/-- The third duplicate raises `ssthresh` to two segments at least; what comes later
    lets `cwnd` grow. -/
theorem fast_retransmit_flow (s : Conn) (ack_seq : UInt32) (dup : Bool) :
    ∃ cwnd ssthresh,
      (fast_retransmit s ack_seq dup).tcb.flow =
        { s.tcb.flow with cwnd := cwnd, ssthresh := ssthresh } ∧
      (2 * s.tcb.sndvar.mss.toUInt32 ≤ ssthresh ∨
        ssthresh = s.tcb.sndvar.ssthresh ∧ s.tcb.sndvar.cwnd ≤ cwnd) := by
  have hmax : ∀ a b : UInt32, b ≤ max a b := by
    intro a b
    rw [UInt32.max_def]
    split
    · exact UInt32.le_refl b
    · rename_i h
      exact UInt32.le_of_lt (UInt32.not_le.mp h)
  unfold fast_retransmit
  simp only
  split
  -- the third duplicate, whether or not `snd_nxt` has to go back to it
  · split
    · refine ⟨_, _, by rw [usnet_add_send_list_flow]; rfl, .inl (hmax _ _)⟩
    · refine ⟨_, _, by rw [usnet_add_send_list_flow]; rfl, .inl (hmax _ _)⟩
  · split
    · refine ⟨if s.tcb.sndvar.cwnd + s.tcb.sndvar.mss.toUInt32 > s.tcb.sndvar.cwnd then
          s.tcb.sndvar.cwnd + s.tcb.sndvar.mss.toUInt32 else s.tcb.sndvar.cwnd,
        s.tcb.sndvar.ssthresh, rfl, .inr ⟨rfl, ?_⟩⟩
      split
      · rename_i h
        exact UInt32.le_of_lt h
      · exact UInt32.le_refl _
    · exact ⟨s.tcb.sndvar.cwnd, s.tcb.sndvar.ssthresh, rfl, .inr ⟨rfl, UInt32.le_refl _⟩⟩

@[simp] theorem forward_nxt_flow (s : Conn) (buf : UsnSendbuf) (ack_seq : UInt32) :
    (forward_nxt s buf ack_seq).tcb.flow = s.tcb.flow := by
  unfold forward_nxt
  split
  · simp only
    split
    · rw [usnet_remove_send_list_flow]
      rfl
    · rfl
  · rfl

/-- The connection when all that is left is to take the bytes from the send
    buffer. -/
def noted_ack (s : Conn) (buf : UsnSendbuf) (seg : Segment) (ack_seq : UInt32) : Conn :=
  let s := s.onCtx fun c => { c with applied := c.applied ++ [.ack] }
  let right_wnd_edge := s.tcb.sndvar.peer_wnd + s.tcb.rcvvar.snd_wl2
  let s := update_window s seg ack_seq
  let (dup, s) := check_dup s seg ack_seq right_wnd_edge
  forward_nxt (fast_retransmit s ack_seq dup) buf ack_seq

theorem process_valid_ack_eq (s : Conn) (buf : UsnSendbuf) (seg : Segment) (ack_seq : UInt32) :
    process_valid_ack s buf seg ack_seq =
      if TCP_SEQ_GEQ buf.head_seq ack_seq then .ok (-2, noted_ack s buf seg ack_seq)
      else ack_data (noted_ack s buf seg ack_seq) buf ack_seq := rfl

theorem check_dup_flow (s : Conn) (seg : Segment) (ack_seq : UInt32) :
    (check_dup (update_window s seg ack_seq) seg ack_seq
      (s.tcb.sndvar.peer_wnd + s.tcb.rcvvar.snd_wl2)).2.tcb.flow = dup_flow s.tcb seg ack_seq := by
  have hw := update_window_flow s seg ack_seq
  obtain ⟨-, ⟨hnxt, -, -⟩, -⟩ := update_window_kept s seg ack_seq
  have hlast : (update_window s seg ack_seq).tcb.rcvvar.last_ack_seq =
      s.tcb.rcvvar.last_ack_seq := by
    refine (congrArg Flow.last_ack_seq hw).trans ?_
    unfold window_flow
    split <;> rfl
  have hcount : (update_window s seg ack_seq).tcb.rcvvar.dup_acks = s.tcb.rcvvar.dup_acks := by
    refine (congrArg Flow.dup_acks hw).trans ?_
    unfold window_flow
    split <;> rfl
  have hwl2 : (update_window s seg ack_seq).tcb.rcvvar.snd_wl2 =
      (window_flow s.tcb seg ack_seq).snd_wl2 := congrArg Flow.snd_wl2 hw
  have hpeer : (update_window s seg ack_seq).tcb.sndvar.peer_wnd =
      (window_flow s.tcb seg ack_seq).peer_wnd := congrArg Flow.peer_wnd hw
  unfold check_dup dup_flow
  rw [hnxt, hlast, hwl2, hpeer]
  -- counted, it leaves `last_ack_seq`, which is `ack_seq` then anyway
  by_cases hdup : counts_dup s.tcb seg ack_seq
  · rw [if_pos hdup, if_pos hdup]
    show { (update_window s seg ack_seq).tcb.flow with
      dup_acks := (update_window s seg ack_seq).tcb.rcvvar.dup_acks + 1 } = _
    have hagain : (window_flow s.tcb seg ack_seq).last_ack_seq = ack_seq :=
      ((congrArg Flow.last_ack_seq hw).symm.trans hlast).trans hdup.2.1.symm
    rw [hcount, hw]
    generalize window_flow s.tcb seg ack_seq = w at hagain ⊢
    rw [← hagain]
  · rw [if_neg hdup, if_neg hdup]
    show { (update_window s seg ack_seq).tcb.flow with dup_acks := 0, last_ack_seq := ack_seq } = _
    rw [hw]

/-- All that comes before the bytes are taken. -/
theorem noted_ack_flow (s : Conn) (buf : UsnSendbuf) (seg : Segment) (ack_seq : UInt32) :
    ∃ cwnd ssthresh,
      (noted_ack s buf seg ack_seq).tcb.flow =
        { dup_flow s.tcb seg ack_seq with cwnd := cwnd, ssthresh := ssthresh } ∧
      (2 * s.tcb.sndvar.mss.toUInt32 ≤ ssthresh ∨
        ssthresh = s.tcb.sndvar.ssthresh ∧ s.tcb.sndvar.cwnd ≤ cwnd) := by
  unfold noted_ack
  simp only [forward_nxt_flow]
  generalize hs₀ : (s.onCtx fun c => { c with applied := c.applied ++ [.ack] }) = s₀
  have htcb : s₀.tcb = s.tcb := by
    rw [← hs₀]
    rfl
  have hdup := check_dup_flow s₀ seg ack_seq
  rw [htcb] at hdup ⊢
  generalize check_dup (update_window s₀ seg ack_seq) seg ack_seq
    (s.tcb.sndvar.peer_wnd + s.tcb.rcvvar.snd_wl2) = d at hdup ⊢
  -- neither the window nor the count of duplicates is about these three
  have hmss : d.2.tcb.sndvar.mss = s.tcb.sndvar.mss := by
    refine (congrArg Flow.mss hdup).trans ?_
    unfold dup_flow window_flow
    split <;> rfl
  have hss : d.2.tcb.sndvar.ssthresh = s.tcb.sndvar.ssthresh := by
    refine (congrArg Flow.ssthresh hdup).trans ?_
    unfold dup_flow window_flow
    split <;> rfl
  have hcwnd : d.2.tcb.sndvar.cwnd = s.tcb.sndvar.cwnd := by
    refine (congrArg Flow.cwnd hdup).trans ?_
    unfold dup_flow window_flow
    split <;> rfl
  obtain ⟨cwnd, ssthresh, hflow, hcase⟩ := fast_retransmit_flow d.2 ack_seq d.1
  rw [hmss, hss, hcwnd] at hcase
  rw [hdup] at hflow
  exact ⟨cwnd, ssthresh, hflow, hcase⟩

/-! ## Section 2: The estimator and the congestion window -/

/-- The estimator after a measurement. -/
def estimated (s : Conn) : Conn :=
  usnet_estimate_rtt s (s.ctx.cur_time - s.tcb.rcvvar.ts_lastack_rcvd)

/-- `rto` as it is computed from the estimator. -/
def rto_of (v : RcvVars) : UInt32 := (v.srtt >>> 3) + v.rttvar

/-- The variables the estimator has no part in. -/
def Flow.besides_rtt (f : Flow) (srtt mdev mdev_max rttvar rtt_seq rto : UInt32) : Flow :=
  { f with srtt := srtt, mdev := mdev, mdev_max := mdev_max, rttvar := rttvar
           rtt_seq := rtt_seq, rto := rto }

theorem usnet_estimate_rtt_flow (s : Conn) (mrtt : UInt32) :
    ∃ srtt mdev mdev_max rttvar rtt_seq, (usnet_estimate_rtt s mrtt).tcb.flow =
      s.tcb.flow.besides_rtt srtt mdev mdev_max rttvar rtt_seq s.tcb.sndvar.rto := by
  unfold usnet_estimate_rtt
  simp only
  split
  · split <;> exact ⟨_, _, _, _, _, rfl⟩
  · exact ⟨_, _, _, _, _, rfl⟩

theorem update_rto_ok {s s' : Conn} (h : update_rto s = .ok s') :
    s.tcb.saw_timestamp = false ∧ s' = s ∨
    s.tcb.saw_timestamp = true ∧ rto_of (estimated s).tcb.rcvvar ≠ 0 ∧
      s' = (estimated s).onSnd fun v => { v with rto := rto_of (estimated s).tcb.rcvvar } := by
  unfold update_rto at h
  cases hts : s.tcb.saw_timestamp with
  | false =>
    rw [hts] at h
    exact .inl ⟨rfl, (Except.ok.inj h).symm⟩
  | true =>
    rw [if_pos hts] at h
    simp only at h
    split at h
    · cases h
    · rename_i hrto
      exact .inr ⟨rfl, hrto, (Except.ok.inj h).symm⟩

/-- The estimator writes its own variables and `rto`. -/
theorem update_rto_flow {s s' : Conn} (h : update_rto s = .ok s') :
    ∃ srtt mdev mdev_max rttvar rtt_seq rto,
      s'.tcb.flow = s.tcb.flow.besides_rtt srtt mdev mdev_max rttvar rtt_seq rto := by
  rcases update_rto_ok h with ⟨-, rfl⟩ | ⟨-, -, rfl⟩
  · exact ⟨_, _, _, _, _, _, rfl⟩
  · obtain ⟨srtt, mdev, mdev_max, rttvar, rtt_seq, hest⟩ :=
      usnet_estimate_rtt_flow s (s.ctx.cur_time - s.tcb.rcvvar.ts_lastack_rcvd)
    refine ⟨srtt, mdev, mdev_max, rttvar, rtt_seq, rto_of (estimated s).tcb.rcvvar, ?_⟩
    show { (estimated s).tcb.flow with rto := rto_of (estimated s).tcb.rcvvar } = _
    rw [show (estimated s).tcb.flow = _ from hest]
    rfl

theorem update_rto_failed {s : Conn} {e : Fault} (h : update_rto s = .error e) :
    e = .rto_assert ∧ s.tcb.saw_timestamp = true ∧ rto_of (estimated s).tcb.rcvvar = 0 := by
  unfold update_rto at h
  cases hts : s.tcb.saw_timestamp with
  | false =>
    rw [hts] at h
    cases h
  | true =>
    rw [if_pos hts] at h
    simp only at h
    split at h
    · rename_i hrto
      exact ⟨(Except.error.inj h).symm, rfl, hrto⟩
    · cases h

/-- Slow start wants a `cwnd` below `ssthresh`; congestion avoidance lets it grow. -/
theorem update_cwnd_ok {s s' : Conn} {packets : UInt16} (h : update_cwnd s packets = .ok s') :
    ∃ cwnd, s' = (s.onSnd fun v => { v with cwnd := cwnd }) ∧
      (s.tcb.sndvar.cwnd < s.tcb.sndvar.ssthresh ∨ s.tcb.sndvar.cwnd ≤ cwnd) := by
  unfold update_cwnd at h
  simp only at h
  split at h
  · split at h
    · rename_i hslow
      exact ⟨_, (Except.ok.inj h).symm, .inl hslow⟩
    · split at h
      · cases h
      · refine ⟨_, (Except.ok.inj h).symm, .inr ?_⟩
        split
        · rename_i hmore
          exact UInt32.le_of_lt hmore
        · exact UInt32.le_refl _
  · exact ⟨s.tcb.sndvar.cwnd, (Except.ok.inj h).symm, .inr (UInt32.le_refl _)⟩

theorem update_cwnd_failed {s : Conn} {packets : UInt16} {e : Fault}
    (h : update_cwnd s packets = .error e) :
    e = .division ∧ s.tcb.sndvar.cwnd = 0 ∧ s.tcb.sndvar.ssthresh = 0 := by
  unfold update_cwnd at h
  simp only at h
  split at h
  · split at h
    · cases h
    · rename_i hslow
      split at h
      · rename_i hzero
        refine ⟨(Except.error.inj h).symm, hzero, ?_⟩
        rw [hzero] at hslow
        exact UInt32.toNat_inj.mp (Nat.le_zero.mp (UInt32.not_lt.mp hslow))
      · cases h
  · cases h

theorem remove_acked_keeps (s : Conn) (buf : UsnSendbuf) (ack_seq : UInt32) :
    Keeps s.tcb.flow (remove_acked s buf ack_seq) := by
  unfold remove_acked
  simp only
  split
  · exact (usnet_update_retransmission_timer_keeps _).of_eq rfl
  · exact (usnet_update_retransmission_timer_keeps _).of_eq rfl

/-! ## Section 3: All of it -/

/-- How `usnet_process_ack` ends, and through which parts. -/
inductive AckFlow (u : Conn) (buf : UsnSendbuf) (seg : Segment) :
    Except Fault (Int × Conn) → Prop where
  | beyond : TCP_SEQ_GT (counted_ack u seg.ack_seq) (buf.head_seq + buf.len) →
      AckFlow u buf seg (.ok (-1, u))
  | old : ¬ TCP_SEQ_GT (counted_ack u seg.ack_seq) (buf.head_seq + buf.len) →
      TCP_SEQ_GEQ buf.head_seq (counted_ack u seg.ack_seq) →
      AckFlow u buf seg (.ok (-2, noted_ack u buf seg (counted_ack u seg.ack_seq)))
  | data {v w x : Conn} {cwnd : UInt32} :
      ¬ TCP_SEQ_GT (counted_ack u seg.ack_seq) (buf.head_seq + buf.len) →
      ¬ TCP_SEQ_GEQ buf.head_seq (counted_ack u seg.ack_seq) →
      v = noted_ack u buf seg (counted_ack u seg.ack_seq) → update_rto v = .ok w →
      (w.tcb.sndvar.cwnd < w.tcb.sndvar.ssthresh ∨ w.tcb.sndvar.cwnd ≤ cwnd) →
      x.tcb.flow = { w.tcb.flow with cwnd := cwnd } → AckFlow u buf seg (.ok (0, x))
  | division {v : Conn} : v = noted_ack u buf seg (counted_ack u seg.ack_seq) →
      (v.tcb.sndvar.eff_mss = 0 ∨
        ∃ w, update_rto v = .ok w ∧ w.tcb.sndvar.cwnd = 0 ∧ w.tcb.sndvar.ssthresh = 0) →
      AckFlow u buf seg (.error .division)
  | estimate {v : Conn} {e : Fault} :
      ¬ TCP_SEQ_GT (counted_ack u seg.ack_seq) (buf.head_seq + buf.len) →
      ¬ TCP_SEQ_GEQ buf.head_seq (counted_ack u seg.ack_seq) →
      v = noted_ack u buf seg (counted_ack u seg.ack_seq) → update_rto v = .error e →
      AckFlow u buf seg (.error e)
  | timer {v w : Conn} {e : Fault} :
      ¬ TCP_SEQ_GT (counted_ack u seg.ack_seq) (buf.head_seq + buf.len) →
      ¬ TCP_SEQ_GEQ buf.head_seq (counted_ack u seg.ack_seq) →
      v = noted_ack u buf seg (counted_ack u seg.ack_seq) → update_rto v = .ok w → e ≠ .division → (e = .rto_assert → w.tcb.sndvar.rto = 0) →
      AckFlow u buf seg (.error e)

theorem usnet_process_ack_flow (u : Conn) (buf : UsnSendbuf) (seg : Segment) :
    AckFlow u buf seg (usnet_process_ack u buf seg) := by
  unfold usnet_process_ack
  simp only
  -- the ways out of the function in the order of its text
  by_cases hbeyond : TCP_SEQ_GT (counted_ack u seg.ack_seq) (buf.head_seq + buf.len)
  · rw [if_pos hbeyond]
    exact .beyond hbeyond
  · rw [if_neg hbeyond, process_valid_ack_eq]
    by_cases hold : TCP_SEQ_GEQ buf.head_seq (counted_ack u seg.ack_seq)
    · rw [if_pos hold]
      exact .old hbeyond hold
    · rw [if_neg hold]
      generalize hv : noted_ack u buf seg (counted_ack u seg.ack_seq) = v
      unfold ack_data
      simp only
      -- `rmlen / sndvar->eff_mss`
      by_cases heff : v.tcb.sndvar.eff_mss = 0
      · rw [if_pos heff]
        exact .division hv.symm (.inl heff)
      · rw [if_neg heff]
        cases hrto : update_rto v with
        | error e => exact .estimate hbeyond hold hv.symm hrto
        | ok w =>
          simp only [bind, Except.bind]
          cases hcwnd : update_cwnd w
              (acked_packets v (counted_ack u seg.ack_seq - buf.head_seq)) with
          | error e =>
            obtain ⟨rfl, hzero⟩ := update_cwnd_failed hcwnd
            exact .division hv.symm (.inr ⟨w, hrto, hzero⟩)
          | ok x =>
            obtain ⟨cwnd, rfl, hgrown⟩ := update_cwnd_ok hcwnd
            have hkeeps := remove_acked_keeps (w.onSnd fun v => { v with cwnd := cwnd }) buf
              (counted_ack u seg.ack_seq)
            dsimp only
            cases hrem : remove_acked (w.onSnd fun v => { v with cwnd := cwnd }) buf
                (counted_ack u seg.ack_seq) with
            | error e =>
              rw [hrem] at hkeeps
              exact .timer hbeyond hold hv.symm hrto hkeeps.1 hkeeps.2
            | ok y =>
              rw [hrem] at hkeeps
              exact .data hbeyond hold hv.symm hrto hgrown hkeeps

/-- The ways it returns: the acknowledgement lies beyond the send buffer, or is old,
    or takes bytes from the buffer. -/
theorem usnet_process_ack_returns {u u' : Conn} {buf : UsnSendbuf} {seg : Segment} {ret : Int}
    (h : usnet_process_ack u buf seg = .ok (ret, u')) :
    (TCP_SEQ_GT (counted_ack u seg.ack_seq) (buf.head_seq + buf.len) ∧ u' = u) ∨
    (¬ TCP_SEQ_GT (counted_ack u seg.ack_seq) (buf.head_seq + buf.len) ∧
      TCP_SEQ_GEQ buf.head_seq (counted_ack u seg.ack_seq) ∧
      u' = noted_ack u buf seg (counted_ack u seg.ack_seq)) ∨
    (¬ TCP_SEQ_GT (counted_ack u seg.ack_seq) (buf.head_seq + buf.len) ∧
      ¬ TCP_SEQ_GEQ buf.head_seq (counted_ack u seg.ack_seq) ∧
      ∃ w cwnd, update_rto (noted_ack u buf seg (counted_ack u seg.ack_seq)) = .ok w ∧
        (w.tcb.sndvar.cwnd < w.tcb.sndvar.ssthresh ∨ w.tcb.sndvar.cwnd ≤ cwnd) ∧
        u'.tcb.flow = { w.tcb.flow with cwnd := cwnd }) := by
  have hflow := usnet_process_ack_flow u buf seg
  rw [h] at hflow
  generalize hr : (Except.ok (ret, u') : Except Fault (Int × Conn)) = r at hflow
  cases hflow with
  | beyond hbeyond =>
    obtain ⟨-, rfl⟩ := Prod.mk.inj (Except.ok.inj hr)
    exact .inl ⟨hbeyond, rfl⟩
  | old hnot hold =>
    obtain ⟨-, rfl⟩ := Prod.mk.inj (Except.ok.inj hr)
    exact .inr (.inl ⟨hnot, hold, rfl⟩)
  | @data v w x cwnd hnot hnew hv hrto hgrown hx =>
    obtain ⟨-, rfl⟩ := Prod.mk.inj (Except.ok.inj hr)
    exact .inr (.inr ⟨hnot, hnew, w, cwnd, hv ▸ hrto, hgrown, hx⟩)
  | division _ _ => cases hr
  | estimate _ _ _ _ => cases hr
  | timer _ _ _ _ _ _ => cases hr

/-- The ways it fails: a division, the assertion of the estimator, or one behind
    it. -/
theorem usnet_process_ack_faults {u : Conn} {buf : UsnSendbuf} {seg : Segment} {e : Fault}
    (h : usnet_process_ack u buf seg = .error e) :
    (e = .division ∧
      ((noted_ack u buf seg (counted_ack u seg.ack_seq)).tcb.sndvar.eff_mss = 0 ∨
        ∃ w, update_rto (noted_ack u buf seg (counted_ack u seg.ack_seq)) = .ok w ∧
          w.tcb.sndvar.cwnd = 0 ∧ w.tcb.sndvar.ssthresh = 0)) ∨
    (¬ TCP_SEQ_GT (counted_ack u seg.ack_seq) (buf.head_seq + buf.len) ∧
      ¬ TCP_SEQ_GEQ buf.head_seq (counted_ack u seg.ack_seq) ∧
      (update_rto (noted_ack u buf seg (counted_ack u seg.ack_seq)) = .error e ∨
        ∃ w, update_rto (noted_ack u buf seg (counted_ack u seg.ack_seq)) = .ok w ∧
          e ≠ .division ∧ (e = .rto_assert → w.tcb.sndvar.rto = 0))) := by
  have hflow := usnet_process_ack_flow u buf seg
  rw [h] at hflow
  generalize hr : (Except.error e : Except Fault (Int × Conn)) = r at hflow
  cases hflow with
  | beyond _ => cases hr
  | old _ _ => cases hr
  | data _ _ _ _ _ _ => cases hr
  | division hv hzero =>
    obtain rfl := Except.error.inj hr
    exact .inl ⟨rfl, hv ▸ hzero⟩
  | estimate hnot hnew hv hrto =>
    obtain rfl := Except.error.inj hr
    exact .inr ⟨hnot, hnew, .inl (hv ▸ hrto)⟩
  | @timer v w _ hnot hnew hv hrto hne hzero =>
    obtain rfl := Except.error.inj hr
    exact .inr ⟨hnot, hnew, .inr ⟨w, hv ▸ hrto, hne, hzero⟩⟩

/-- Two agree on the window and the duplicates. -/
structure SameWindow (f g : Flow) : Prop where
  wscale : f.wscale = g.wscale
  peer_wnd : f.peer_wnd = g.peer_wnd
  snd_wl1 : f.snd_wl1 = g.snd_wl1
  snd_wl2 : f.snd_wl2 = g.snd_wl2
  last_ack_seq : f.last_ack_seq = g.last_ack_seq
  dup_acks : f.dup_acks = g.dup_acks

theorem SameWindow.refl (f : Flow) : SameWindow f f := ⟨rfl, rfl, rfl, rfl, rfl, rfl⟩

theorem SameWindow.trans {f g h : Flow} (h₁ : SameWindow f g) (h₂ : SameWindow g h) :
    SameWindow f h :=
  ⟨h₁.wscale.trans h₂.wscale, h₁.peer_wnd.trans h₂.peer_wnd, h₁.snd_wl1.trans h₂.snd_wl1,
    h₁.snd_wl2.trans h₂.snd_wl2, h₁.last_ack_seq.trans h₂.last_ack_seq,
    h₁.dup_acks.trans h₂.dup_acks⟩

theorem noted_ack_window (u : Conn) (buf : UsnSendbuf) (seg : Segment) (ack_seq : UInt32) :
    SameWindow (noted_ack u buf seg ack_seq).tcb.flow (dup_flow u.tcb seg ack_seq) := by
  obtain ⟨cwnd, ssthresh, hflow, -⟩ := noted_ack_flow u buf seg ack_seq
  rw [hflow]
  exact ⟨rfl, rfl, rfl, rfl, rfl, rfl⟩

/-- An acknowledgement beyond the send buffer changes nothing; any other leaves the
    window and the duplicates as they are behind their two tests. -/
theorem usnet_process_ack_window {u u' : Conn} {buf : UsnSendbuf} {seg : Segment} {ret : Int}
    (h : usnet_process_ack u buf seg = .ok (ret, u')) :
    (TCP_SEQ_GT (counted_ack u seg.ack_seq) (buf.head_seq + buf.len) ∧ u' = u) ∨
    (¬ TCP_SEQ_GT (counted_ack u seg.ack_seq) (buf.head_seq + buf.len) ∧
      SameWindow u'.tcb.flow (dup_flow u.tcb seg (counted_ack u seg.ack_seq))) := by
  rcases usnet_process_ack_returns h with hbeyond | ⟨hnot, -, rfl⟩ |
    ⟨hnot, -, w, cwnd, hrto, -, hx⟩
  · exact .inl hbeyond
  · exact .inr ⟨hnot, noted_ack_window u buf seg _⟩
  · -- neither the estimator nor `cwnd` is among them
    obtain ⟨_, _, _, _, _, _, hest⟩ := update_rto_flow hrto
    refine .inr ⟨hnot, SameWindow.trans ?_ (noted_ack_window u buf seg _)⟩
    rw [hx, hest]
    exact ⟨rfl, rfl, rfl, rfl, rfl, rfl⟩

/-- Only the variables and `snd_nxt` decide. -/
theorem dup_flow_congr {t t' : UsnTcb} (hflow : t.flow = t'.flow) (hnxt : t.snd_nxt = t'.snd_nxt)
    (seg : Segment) (ack_seq : UInt32) : dup_flow t seg ack_seq = dup_flow t' seg ack_seq := by
  have hwl1 : t.rcvvar.snd_wl1 = t'.rcvvar.snd_wl1 := congrArg Flow.snd_wl1 hflow
  have hwl2 : t.rcvvar.snd_wl2 = t'.rcvvar.snd_wl2 := congrArg Flow.snd_wl2 hflow
  have hpeer : t.sndvar.peer_wnd = t'.sndvar.peer_wnd := congrArg Flow.peer_wnd hflow
  have hscale : t.sndvar.wscale = t'.sndvar.wscale := congrArg Flow.wscale hflow
  have hlast : t.rcvvar.last_ack_seq = t'.rcvvar.last_ack_seq :=
    congrArg Flow.last_ack_seq hflow
  have hdups : t.rcvvar.dup_acks = t'.rcvvar.dup_acks := congrArg Flow.dup_acks hflow
  have hcwin : cwindow t seg = cwindow t' seg := by
    unfold cwindow
    rw [hscale]
  -- the test reads the record and the window, and writes variables only
  have hwin : window_flow t seg ack_seq = window_flow t' seg ack_seq := by
    unfold window_flow updates_window
    rw [hflow, hwl1, hwl2, hpeer, hcwin]
  unfold dup_flow counts_dup
  rw [hwin, hnxt, hlast, hpeer, hwl2, hdups]

/-- The segment's acknowledgement passes the first check of `usnet_process_ack` in
    the connection its handler finds. -/
def processes_ack (n : Conn) (seg : Segment) : Prop :=
  takes_ack n.tcb seg ∧ ∃ buf, n.tcb.sndvar.sndbuf = some buf ∧
    ¬ TCP_SEQ_GT (counted_ack n seg.ack_seq) (buf.head_seq + buf.len)

/-- The window and the duplicates after an accepted segment. -/
theorem handle_state_window {n s' : Conn} {seg : Segment} (h : handle_state n seg = .ok s') :
    (¬ processes_ack n seg ∧ SameWindow s'.tcb.flow n.tcb.flow) ∨
    (processes_ack n seg ∧
      SameWindow s'.tcb.flow (dup_flow n.tcb seg (counted_ack n seg.ack_seq))) := by
  have hflow := handle_state_flow n seg
  rw [h] at hflow
  cases hflow with
  | kept hno hkeeps =>
    left
    constructor
    · rintro ⟨ht, buf, hbuf, -⟩
      exact hno ⟨ht, by rw [hbuf]; rfl⟩
    · rw [show s'.tcb.flow = n.tcb.flow from hkeeps]
      exact .refl _
  | opened hst hkeeps =>
    left
    constructor
    · rintro ⟨ht, -⟩
      unfold takes_ack at ht
      rw [hst] at ht
      exact ht
    · rw [show s'.tcb.flow = _ from hkeeps]
      exact ⟨rfl, rfl, rfl, rfl, rfl, rfl⟩
  -- all that counts behind `usnet_process_ack` leaves the two alone
  | @acked u u' buf ret _ ht hentry hbuf hack hkeeps =>
    rw [show s'.tcb.flow = u'.tcb.flow from hkeeps]
    have hwin := usnet_process_ack_window hack
    rw [hentry.counted] at hwin
    rcases hwin with ⟨hbeyond, rfl⟩ | ⟨hnot, hwin⟩
    · left
      constructor
      · rintro ⟨-, buf', hbuf', hnot⟩
        obtain rfl := Option.some.inj (hbuf.symm.trans hbuf')
        exact hnot hbeyond
      · rw [hentry.flow]
        exact .refl _
    · right
      refine ⟨⟨ht, buf, hbuf, hnot⟩, ?_⟩
      rw [← dup_flow_congr hentry.flow hentry.seq.1]
      exact hwin

/-- What the handler finds is determined by the connection and the segment. -/
theorem Entered.unique {s n n' : Conn} {seg : Segment} (h : Entered s seg n)
    (h' : Entered s seg n') : n = n' := by
  obtain ⟨r, s₁, -, hcheck, rfl⟩ := h.entered
  obtain ⟨r', s₁', -, hcheck', rfl⟩ := h'.entered
  rw [hcheck] at hcheck'
  obtain ⟨-, rfl⟩ := Prod.mk.inj (Except.ok.inj hcheck')
  rfl

/-- The handler decides about such a segment. -/
theorem Entered.input {s n : Conn} {seg : Segment} (h : Entered s seg n) :
    input_segment s seg = (handle_state n seg).map fun s' => (0, s') := by
  obtain ⟨r, s₁, hr, hcheck, rfl⟩ := h.entered
  unfold input_segment
  rw [hcheck]
  simp only [bind, Except.bind, hr, if_false, process_rst_continues, Bool.false_eq_true]
  cases handle_state (process_rst (note_segment s₁ seg) seg).2 seg with
  | error e => rfl
  | ok s' => rfl

/-- An accepted segment reaches its handler. -/
theorem input_segment_accepted {s s' : Conn} {seg : Segment}
    (h : input_segment s seg = .ok (0, s')) :
    ∃ n, Entered s seg n ∧ handle_state n seg = .ok s' := by
  have hflow := input_segment_flow s seg
  rw [h] at hflow
  cases hflow with
  | handled hentered hh => exact ⟨_, hentered, hh⟩

/-- The same, as far as the connection tells before the segment is noted: the
    acknowledgement is looked at and passes the first check. -/
def acts_on (tcb : UsnTcb) (seg : Segment) : Prop :=
  ack_looked_at tcb seg ∧ ∃ buf, tcb.sndvar.sndbuf = some buf ∧
    ¬ TCP_SEQ_GT seg.ack_seq (buf.head_seq + buf.len)

section
variable {s n : Conn} {seg : Segment} (hs : sending s.tcb.state) (hentered : Entered s seg n)
include hs hentered

theorem Entered.takes_ack_iff : takes_ack n.tcb seg ↔ ack_looked_at s.tcb seg := by
  obtain ⟨r, s₁, hr, hcheck, rfl⟩ := hentered.entered
  obtain ⟨-, -, -, hstate⟩ := noted_by_check hs hcheck hr
  have hnxt := hentered.same.2.2.2.2
  generalize (process_rst (note_segment s₁ seg) seg).2 = n at *
  unfold takes_ack ack_looked_at
  -- a reset that is accepted moves the connection to CLOSE_WAIT before its handler
  -- runs, and there `seq` decides instead of the flags
  rcases hstate with ⟨hst, hrst⟩ | ⟨hst, hfrom⟩
  · have hno : ¬ (seg.has TH_RST = true ∧ reset_accepted s.tcb seg) := fun h => hrst h.1 h.2
    rcases hs with h | h
    · simp [hst, h, hno, and_comm]
    · simp [hst, h, hnxt]
  · have hno : ¬ (s.tcb.state = .established ∧
        ¬ (seg.has TH_RST = true ∧ reset_accepted s.tcb seg) ∧
        seg.has TH_ACK = true ∧ seg.has TH_SYN = false) := by
      rintro ⟨hest, hnot, -⟩
      rcases hfrom with h | h
      · rw [h] at hest
        cases hest
      · exact hnot h
    simp only [hst, hnxt]
    constructor
    · intro h
      exact .inr ⟨hfrom, h⟩
    · intro h
      exact (h.resolve_left hno).2

/-- Before a FIN is sent the handler processes the acknowledgements that act on the
    connection. -/
theorem Entered.processes_iff (hfin : s.tcb.sndvar.is_fin_sent = false) :
    (processes_ack n seg ↔ acts_on s.tcb seg) ∧ counted_ack n seg.ack_seq = seg.ack_seq := by
  have hcount : counted_ack n seg.ack_seq = seg.ack_seq := by
    have hn : n.tcb.sndvar.is_fin_sent = false := hentered.same.2.2.1.trans hfin
    unfold counted_ack
    split <;> simp [hn]
  unfold processes_ack acts_on
  rw [hentered.takes_ack_iff hs, hcount, hentered.same.1.2.2]
  exact ⟨Iff.rfl, rfl⟩

end

/-- The block as the handler finds it, as far as the window and the duplicates go. -/
def arrived (tcb : UsnTcb) (seg : Segment) : UsnTcb :=
  { tcb with
    sndvar := { tcb.sndvar with peer_wnd := noted_wnd tcb seg }
    rcvvar := { tcb.rcvvar with ts_lastack_rcvd := last_echo tcb seg } }

/-- The window and the duplicates after an accepted segment of a connection that
    sends. -/
theorem input_segment_window {s s' : Conn} {seg : Segment} (hs : sending s.tcb.state)
    (hfin : s.tcb.sndvar.is_fin_sent = false) (h : input_segment s seg = .ok (0, s')) :
    (¬ acts_on s.tcb seg ∧ SameWindow s'.tcb.flow (noted_flow s.tcb seg)) ∨
    (acts_on s.tcb seg ∧
      SameWindow s'.tcb.flow (dup_flow (arrived s.tcb seg) seg seg.ack_seq)) := by
  obtain ⟨n, hentered, hh⟩ := input_segment_accepted h
  obtain ⟨hiff, hcount⟩ := hentered.processes_iff hs hfin
  have hwin := handle_state_window hh
  rw [hiff, hcount, hentered.flow] at hwin
  have hflow : n.tcb.flow = (arrived s.tcb seg).flow := hentered.flow
  have hnxt : n.tcb.snd_nxt = (arrived s.tcb seg).snd_nxt := hentered.same.1.1
  rw [dup_flow_congr hflow hnxt] at hwin
  exact hwin

/-! ## Section 4: Runs of one connection -/

/-- An event that does not release the connection. -/
def ConnStep (t : UsnTcb) (a : Ctx × LifeEvent) (t' : UsnTcb) : Prop :=
  ∃ c', life_step a.1 (some t) a.2 = .ok (c', some t')

/-- The connection is made of the segment. -/
def created_by (seg : Segment) (t : UsnTcb) : Prop :=
  ∃ c ret c', usnet_tcp_input c none seg = .ok (ret, c', some t)

/-- What the connection a SYN creates becomes in a run, whatever the clock, the
    allocations and the output do. -/
abbrev ConnOf (seg : Segment) : UsnTcb → Prop := Reachable ConnStep (created_by seg)

/-- Such a step is the event and nothing else. -/
theorem ConnStep.life_conn {t t' : UsnTcb} {a : Ctx × LifeEvent} (h : ConnStep t a t') :
    ∃ s', life_conn ⟨a.1, t⟩ a.2 = .ok s' ∧ s'.tcb = t' := by
  obtain ⟨c', h⟩ := h
  unfold life_step at h
  simp only at h
  split at h
  · cases h
  · rename_i s' hok
    obtain ⟨-, halive⟩ := Prod.mk.inj (Except.ok.inj h)
    exact ⟨s', hok, (alive_some halive).2⟩

/-- The events of a run on a connection that survives them. -/
def conn_run (t : UsnTcb) : List (Ctx × LifeEvent) → Option UsnTcb
  | [] => some t
  | a :: as =>
    match life_step a.1 (some t) a.2 with
    | .ok (_, some t) => conn_run t as
    | _ => none

theorem ConnOf.run {seg : Segment} {t t' : UsnTcb} (h : ConnOf seg t)
    (evs : List (Ctx × LifeEvent)) (hr : conn_run t evs = some t') : ConnOf seg t' := by
  induction evs generalizing t with
  | nil =>
    obtain rfl := Option.some.inj hr
    exact h
  | cons a as ih =>
    unfold conn_run at hr
    split at hr
    · rename_i c' t₁ hstep
      exact ih (.step h trivial ⟨c', hstep⟩) hr
    · cases hr

/-- A property of the variables that every part of the code keeps that writes
    them. -/
structure FlowInvariant (P : Flow → Prop) : Prop where
  noted : ∀ f w x, P f → P { f with peer_wnd := w, ts_lastack_rcvd := x }
  opened : ∀ f, P f → P { f with
    cwnd := if f.cwnd = 1 then f.mss.toUInt32 * 2 else f.mss.toUInt32 }
  backed_off : ∀ s : Conn, P s.tcb.flow → P (back_off s).tcb.flow
  acked : ∀ (u : Conn) buf seg ret u', P u.tcb.flow →
    usnet_process_ack u buf seg = .ok (ret, u') → P u'.tcb.flow

section
variable {P : Flow → Prop} (h : FlowInvariant P)
include h

theorem FlowInvariant.handled {n s' : Conn} {seg : Segment} (hn : P n.tcb.flow)
    (hh : HandleFlow n seg (.ok s')) : P s'.tcb.flow := by
  cases hh with
  | kept _ hkeeps =>
    rw [show s'.tcb.flow = n.tcb.flow from hkeeps]
    exact hn
  | opened _ hkeeps =>
    rw [show s'.tcb.flow = _ from hkeeps]
    exact h.opened _ hn
  | acked _ hentry _ hack hkeeps =>
    rw [show s'.tcb.flow = _ from hkeeps]
    apply h.acked _ _ _ _ _ _ hack
    rw [hentry.flow]
    exact hn

/-- Any event keeps it. -/
theorem FlowInvariant.step {s s' : Conn} {ev : LifeEvent} (hs : P s.tcb.flow)
    (hok : life_conn s ev = .ok s') : P s'.tcb.flow := by
  have hflow := life_conn_flow s ev
  rw [hok] at hflow
  generalize hr : (Except.ok s' : Except Fault Conn) = r at hflow
  cases hflow with
  | kept hkeeps =>
    rw [← hr] at hkeeps
    rw [show s'.tcb.flow = s.tcb.flow from hkeeps]
    exact hs
  | backed_off hback =>
    obtain rfl := Except.ok.inj hr
    rw [hback]
    exact h.backed_off s hs
  -- `usnet_tcp_input` notes window and echo first, then the handler runs
  | @input seg _ hinput =>
    generalize input_segment s seg = q at hr hinput
    cases hinput with
    | refused hrefused =>
      obtain rfl := Except.ok.inj hr
      rw [hrefused]
      exact h.noted s.tcb.flow s.tcb.flow.peer_wnd _ hs
    | handled hentered hh =>
      obtain rfl := Except.ok.inj hr
      have hn := h.noted s.tcb.flow (noted_wnd s.tcb seg) (last_echo s.tcb seg) hs
      exact h.handled (hentered.flow ▸ hn) (hh ▸ handle_state_flow _ _)
    | failed _ _ => cases hr
    | check_failed _ _ => cases hr

/-- So it holds of the connection at any time. -/
theorem FlowInvariant.conn_of {seg : Segment} {t : UsnTcb} (hnew : P (created_flow seg))
    (ht : ConnOf seg t) : P t.flow := by
  -- it holds of what a SYN creates, and every event keeps it
  apply RunWhere.invariant (I := fun t => P t.flow) _ _ ht
  · rintro t ⟨c, ret, c', hin⟩
    show P t.flow
    rw [usnet_tcp_input_flow hin]
    exact hnew
  · intro t a t' ht _ hstep
    obtain ⟨s', hok, rfl⟩ := hstep.life_conn
    exact h.step ht hok

end

/-- How an event can fail, as far as divisions and the assertions on `rto` go. -/
inductive LifeFails (s : Conn) (e : Fault) : LifeEvent → Prop where
  | timer {ev : LifeEvent} : e ≠ .division → (e = .rto_assert → s.tcb.sndvar.rto = 0) →
      LifeFails s e ev
  | acked {seg : Segment} {n u u' : Conn} {buf : UsnSendbuf} {ret : Int} :
      addressed s.tcb seg = true → Entered s seg n → takes_ack n.tcb seg → AckEntry n u →
      n.tcb.sndvar.sndbuf = some buf → usnet_process_ack u buf seg = .ok (ret, u') →
      e ≠ .division → (e = .rto_assert → u'.tcb.sndvar.rto = 0) → LifeFails s e (.segment seg)
  | ack {seg : Segment} {n u : Conn} {buf : UsnSendbuf} :
      addressed s.tcb seg = true → Entered s seg n → takes_ack n.tcb seg → AckEntry n u →
      n.tcb.sndvar.sndbuf = some buf → usnet_process_ack u buf seg = .error e →
      LifeFails s e (.segment seg)

/-- The events of a run keep the connection one that was reached. -/
theorem ConnStep.reachable {t t' : UsnTcb} {a : Ctx × LifeEvent} (h : ConnStep t a t')
    (hreach : LifeReachable (some t)) : LifeReachable (some t') :=
  .step hreach (fun _ _ => trivial) h

theorem life_conn_failed {s : Conn} {ev : LifeEvent} {e : Fault}
    (h : life_conn s ev = .error e) : LifeFails s e ev := by
  have hflow := life_conn_flow s ev
  rw [h] at hflow
  generalize hr : (Except.error e : Except Fault Conn) = r at hflow
  cases hflow with
  | kept hkeeps =>
    rw [← hr] at hkeeps
    exact .timer hkeeps.1 hkeeps.2
  | backed_off _ => cases hr
  | @input seg haddr hinput =>
    generalize input_segment s seg = q at hr hinput
    cases hinput with
    | refused _ => cases hr
    | handled _ _ => cases hr
    | check_failed hd ha =>
      obtain rfl := Except.error.inj hr
      exact .timer hd fun he => absurd he ha
    | @failed n _ hentered hh =>
      obtain rfl := Except.error.inj hr
      have hrto : n.tcb.sndvar.rto = s.tcb.sndvar.rto := congrArg Flow.rto hentered.flow
      -- the handler fails in a part of its own or in `usnet_process_ack`
      have hcases := handle_state_flow n seg
      rw [hh] at hcases
      cases hcases with
      | kept _ hkeeps => exact .timer hkeeps.1 fun he => hrto ▸ hkeeps.2 he
      | opened _ hkeeps => exact .timer hkeeps.1 fun he => hrto ▸ hkeeps.2 he
      | acked ht hentry hbuf hack hkeeps =>
        exact .acked haddr hentered ht hentry hbuf hack hkeeps.1 hkeeps.2
      | ack_failed ht hentry hbuf hack => exact .ack haddr hentered ht hentry hbuf hack
      | failed hd ha => exact .timer hd fun he => absurd he ha

/-- Whatever is not a segment leaves the window and the duplicates. -/
theorem other_event_window {s s' : Conn} {ev : LifeEvent} (hev : ∀ seg, ev ≠ .segment seg)
    (hok : life_conn s ev = .ok s') : SameWindow s'.tcb.flow s.tcb.flow := by
  have hflow := life_conn_flow s ev
  rw [hok] at hflow
  generalize hr : (Except.ok s' : Except Fault Conn) = r at hflow
  cases hflow with
  | kept hkeeps =>
    rw [← hr] at hkeeps
    rw [show s'.tcb.flow = s.tcb.flow from hkeeps]
    exact .refl _
  | backed_off hback =>
    obtain rfl := Except.ok.inj hr
    obtain ⟨rto, ssthresh, hflow, -⟩ := back_off_flow s
    rw [hback, hflow]
    exact ⟨rfl, rfl, rfl, rfl, rfl, rfl⟩
  | input _ _ => exact absurd rfl (hev _)

/-- The same of a run's step. -/
theorem ConnStep.other_window {t t' : UsnTcb} {c : Ctx} {ev : LifeEvent}
    (hconn : ConnStep t (c, ev) t') (hev : ∀ seg, ev ≠ .segment seg) :
    SameWindow t'.flow t.flow := by
  obtain ⟨s', hok, rfl⟩ := hconn.life_conn
  exact other_event_window hev hok

/-- So does a segment that is refused. -/
theorem refused_window {s s' : Conn} {seg : Segment} (hok : input_segment s seg = .ok (-3, s')) :
    SameWindow s'.tcb.flow s.tcb.flow := by
  have hflow := input_segment_flow s seg
  rw [hok] at hflow
  -- a refused segment has its echo noted, but not its window
  cases hflow with
  | refused hrefused =>
    rw [hrefused]
    exact ⟨rfl, rfl, rfl, rfl, rfl, rfl⟩

end Usnet
