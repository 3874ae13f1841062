import Usnet.AckFlow
import Usnet.Options

/-! # The growth of the congestion window

    An acknowledgement of new data opens the congestion window by one segment
    for every segment acknowledged.  The code counts them with a division that
    rounds down, keeps the count in 16 bits, and guards one sum while it
    computes another.
-/

namespace Usnet

open CInt

/-! ## Section 1: The numbers the window grows by -/

/-- The number of segments that carry `n` bytes, `size` in each but the last. -/
def segments (n size : Nat) : Nat := (n + size - 1) / size

/-- `packets` as the code counts it: whole segments, in 16 bits. -/
def whole_packets (n size : Nat) : Nat := n / size % 2 ^ 16

theorem whole_packets_le (n size : Nat) (hsize : 0 < size) :
    whole_packets n size ≤ segments n size := by
  have hle : n / size ≤ (n + size - 1) / size := Nat.div_le_div_right (by omega)
  have hmod := Nat.mod_le (n / size) (2 ^ 16)
  unfold whole_packets segments
  omega

theorem segments_pos {n size : Nat} (hn : 0 < n) (hsize : 0 < size) : 0 < segments n size :=
  Nat.div_pos (by omega) hsize

/-- The two agree when there is no remainder and the count fits. -/
theorem whole_packets_eq_iff {n size : Nat} (hn : 0 < n) (hsize : 0 < size) :
    whole_packets n size = segments n size ↔ size ∣ n ∧ n / size < 2 ^ 16 := by
  have hsplit := Nat.div_add_mod n size
  have hrem := Nat.mod_lt n hsize
  have hceil : segments n size = n / size + if size ∣ n then 0 else 1 := by
    unfold segments
    by_cases hdvd : size ∣ n
    · obtain ⟨k, rfl⟩ := hdvd
      rw [if_pos (Nat.dvd_mul_right size k), Nat.mul_div_cancel_left k hsize]
      apply Nat.div_eq_of_lt_le
      · rw [Nat.add_zero, Nat.mul_comm]
        omega
      · rw [Nat.add_zero, Nat.succ_mul, Nat.mul_comm k]
        omega
    · have hpos : 0 < n % size := by
        by_contra hzero
        exact hdvd (Nat.dvd_of_mod_eq_zero (by omega))
      rw [if_neg hdvd]
      apply Nat.div_eq_of_lt_le
      · rw [Nat.succ_mul, Nat.mul_comm]
        omega
      · rw [Nat.succ_mul, Nat.succ_mul, Nat.mul_comm]
        omega
  have hmod := Nat.mod_lt (n / size) (show 0 < 2 ^ 16 by decide)
  have hle := Nat.mod_le (n / size) (2 ^ 16)
  rw [hceil]
  unfold whole_packets
  constructor
  · intro heq
    split at heq
    · rename_i hdvd
      exact ⟨hdvd, by omega⟩
    · omega
  · rintro ⟨hdvd, hlt⟩
    rw [if_pos hdvd, Nat.mod_eq_of_lt hlt, Nat.add_zero]

theorem acked_packets_eq (s : Conn) (rmlen : UInt32) :
    (acked_packets s rmlen).toNat =
      whole_packets rmlen.toNat s.tcb.sndvar.eff_mss.toNat := by
  -- the correction behind the division would need a product above the dividend
  have hno : ¬ rmlen / s.tcb.sndvar.eff_mss.toUInt32 * s.tcb.sndvar.eff_mss.toUInt32 > rmlen := by
    have hle := Nat.div_mul_le_self rmlen.toNat s.tcb.sndvar.eff_mss.toNat
    rw [gt_iff_lt, UInt32.lt_iff_toNat_lt, UInt32.toNat_mul, UInt32.toNat_div,
      UInt16.toNat_toUInt32]
    have hlt := rmlen.toNat_lt
    rw [Nat.mod_eq_of_lt (by omega)]
    omega
  unfold acked_packets whole_packets
  simp only
  rw [if_neg hno, UInt32.toNat_toUInt16, UInt32.toNat_div, UInt16.toNat_toUInt32]

/-! ## Section 2: Where the acknowledged bytes are counted -/

def Flow.windows (f : Flow) : UInt32 × UInt32 := (f.cwnd, f.ssthresh)

/-- `cwnd` and `ssthresh` behind "Fast retransmission". -/
def dup_windows (f : Flow) (dup : Bool) : UInt32 × UInt32 :=
  let mss := f.mss.toUInt32
  let ssthresh := max (min f.cwnd f.peer_wnd / 2) (2 * mss)
  if dup = true ∧ f.dup_acks = 3 then (ssthresh + 3 * mss, ssthresh)
  else if f.dup_acks > 3 then (if f.cwnd + mss > f.cwnd then f.cwnd + mss else f.cwnd, f.ssthresh)
  else f.windows

theorem fast_retransmit_windows (s : Conn) (ack_seq : UInt32) (dup : Bool) :
    (fast_retransmit s ack_seq dup).tcb.flow.windows = dup_windows s.tcb.flow dup := by
  have hthird : ∀ u : Conn, u.tcb.flow = s.tcb.flow →
      (usnet_add_send_list (((u.onSnd fun v =>
          { v with ssthresh := max (min v.cwnd v.peer_wnd / 2) (2 * v.mss.toUInt32) }).onSnd
        fun v => { v with cwnd := v.ssthresh + 3 * v.mss.toUInt32 }).onSnd
        fun v => { v with nrtx := if v.nrtx < TCP_MAX_RTX then v.nrtx + 1 else v.nrtx })).tcb.flow.windows
      = (max (min s.tcb.flow.cwnd s.tcb.flow.peer_wnd / 2) (2 * s.tcb.flow.mss.toUInt32)
          + 3 * s.tcb.flow.mss.toUInt32,
        max (min s.tcb.flow.cwnd s.tcb.flow.peer_wnd / 2) (2 * s.tcb.flow.mss.toUInt32)) := by
    intro u hu
    rw [usnet_add_send_list_flow, ← hu]
    rfl
  unfold fast_retransmit dup_windows
  by_cases hdup : dup = true ∧ s.tcb.rcvvar.dup_acks = 3
  · rw [if_pos hdup]
    simp only
    rw [if_pos (show dup = true ∧ s.tcb.flow.dup_acks = 3 from hdup)]
    split
    · exact hthird _ rfl
    · exact hthird _ rfl
  · rw [if_neg hdup]
    simp only
    rw [if_neg (show ¬ (dup = true ∧ s.tcb.flow.dup_acks = 3) from hdup)]
    by_cases hmore : s.tcb.rcvvar.dup_acks > 3
    · rw [if_pos hmore, if_pos (show s.tcb.flow.dup_acks > 3 from hmore)]
      rfl
    · rw [if_neg hmore, if_neg (show ¬ s.tcb.flow.dup_acks > 3 from hmore)]

/-- `cwnd` and `ssthresh` when the acknowledged bytes are counted. -/
def before_growth (t : UsnTcb) (seg : Segment) : UInt32 × UInt32 :=
  dup_windows (dup_flow t seg seg.ack_seq) (decide (counts_dup t seg seg.ack_seq))

/-- The acknowledgement is counted for a third or a later duplicate. -/
def late_duplicate (t : UsnTcb) (seg : Segment) : Prop :=
  counts_dup t seg seg.ack_seq ∧ 3 ≤ t.rcvvar.dup_acks + 1

/-- Otherwise they are the connection's own. -/
theorem before_growth_own {t : UsnTcb} {seg : Segment} (h : ¬ late_duplicate t seg) :
    before_growth t seg = (t.sndvar.cwnd, t.sndvar.ssthresh) := by
  have hown : (dup_flow t seg seg.ack_seq).windows = (t.sndvar.cwnd, t.sndvar.ssthresh) := by
    unfold dup_flow window_flow
    split <;> rfl
  have hcount : (dup_flow t seg seg.ack_seq).dup_acks =
      if counts_dup t seg seg.ack_seq then t.rcvvar.dup_acks + 1 else 0 := rfl
  unfold late_duplicate at h
  unfold before_growth dup_windows
  simp only [hcount, decide_eq_true_eq]
  by_cases hdup : counts_dup t seg seg.ack_seq
  · have hlt : ¬ 3 ≤ t.rcvvar.dup_acks + 1 := fun hle => h ⟨hdup, hle⟩
    simp only [if_pos hdup]
    rw [if_neg, if_neg, hown]
    · intro hgt
      exact hlt (UInt16.le_of_lt hgt)
    · rintro ⟨-, heq⟩
      rw [heq] at hlt
      exact hlt (UInt16.le_refl _)
  · simp only [if_neg hdup]
    rw [if_neg (fun h => hdup h.1), if_neg (by decide), hown]

theorem check_dup_counts (s : Conn) (seg : Segment) (ack_seq : UInt32) :
    (check_dup (update_window s seg ack_seq) seg ack_seq
      (s.tcb.sndvar.peer_wnd + s.tcb.rcvvar.snd_wl2)).1 = decide (counts_dup s.tcb seg ack_seq) := by
  have hw := update_window_flow s seg ack_seq
  obtain ⟨-, ⟨hnxt, -, -⟩, -⟩ := update_window_kept s seg ack_seq
  have hlast : (update_window s seg ack_seq).tcb.rcvvar.last_ack_seq =
      s.tcb.rcvvar.last_ack_seq := by
    apply (congrArg Flow.last_ack_seq hw).trans
    unfold window_flow
    split <;> rfl
  have hwl2 : (update_window s seg ack_seq).tcb.rcvvar.snd_wl2 =
      (window_flow s.tcb seg ack_seq).snd_wl2 := congrArg Flow.snd_wl2 hw
  have hpeer : (update_window s seg ack_seq).tcb.sndvar.peer_wnd =
      (window_flow s.tcb seg ack_seq).peer_wnd := congrArg Flow.peer_wnd hw
  unfold check_dup
  rw [hnxt, hlast, hwl2, hpeer]
  by_cases hdup : counts_dup s.tcb seg ack_seq
  · rw [if_pos hdup, decide_eq_true hdup]
  · rw [if_neg hdup, decide_eq_false hdup]

/-- The parts of `usnet_process_ack` in front of the count arrive at them. -/
theorem noted_ack_windows (u : Conn) (buf : UsnSendbuf) (seg : Segment) :
    (noted_ack u buf seg seg.ack_seq).tcb.flow.windows = before_growth u.tcb seg := by
  unfold noted_ack before_growth
  simp only [forward_nxt_flow, fast_retransmit_windows]
  generalize hs₀ : (u.onCtx fun c => { c with applied := c.applied ++ [.ack] }) = s₀
  have htcb : s₀.tcb = u.tcb := by
    rw [← hs₀]
    rfl
  have hflow := check_dup_flow s₀ seg seg.ack_seq
  have hcount := check_dup_counts s₀ seg seg.ack_seq
  rw [htcb] at hflow hcount ⊢
  rw [hflow, hcount]

/-- They leave the segment sizes and the state as they are. -/
theorem noted_ack_sizes (u : Conn) (buf : UsnSendbuf) (seg : Segment) :
    (noted_ack u buf seg seg.ack_seq).tcb.flow.mss = u.tcb.sndvar.mss ∧
    (noted_ack u buf seg seg.ack_seq).tcb.flow.eff_mss = u.tcb.sndvar.eff_mss := by
  obtain ⟨cwnd, ssthresh, hflow, -⟩ := noted_ack_flow u buf seg seg.ack_seq
  rw [hflow]
  unfold dup_flow window_flow
  constructor
  · split <;> rfl
  · split <;> rfl

theorem noted_ack_state (u : Conn) (buf : UsnSendbuf) (seg : Segment) :
    (noted_ack u buf seg seg.ack_seq).tcb.state = u.tcb.state := by
  unfold noted_ack
  simp

/-- What follows on the count: the estimator, then the congestion window. -/
theorem usnet_process_ack_new {u u' : Conn} {buf : UsnSendbuf} {seg : Segment}
    (hst : u.tcb.state = .established) (h : usnet_process_ack u buf seg = .ok (0, u')) :
    ∃ v w x, v = noted_ack u buf seg seg.ack_seq ∧ update_rto v = .ok w ∧
      update_cwnd w (acked_packets v (seg.ack_seq - buf.head_seq)) = .ok x ∧
      u'.tcb.flow = x.tcb.flow ∧ 0 < (seg.ack_seq - buf.head_seq).toNat := by
  have hcounted : counted_ack u seg.ack_seq = seg.ack_seq := by
    unfold counted_ack
    rw [hst]
  unfold usnet_process_ack at h
  simp only [hcounted, process_valid_ack_eq] at h
  split at h
  · cases h
  · split at h
    · cases h
    · rename_i hnew
      generalize hv : noted_ack u buf seg seg.ack_seq = v at h
      have hpos : 0 < (seg.ack_seq - buf.head_seq).toNat := by
        by_contra hzero
        apply hnew
        have hzero : ahead buf.head_seq seg.ack_seq = 0 := by
          unfold ahead
          omega
        have hsame := ahead_eq_zero.mp hzero
        unfold TCP_SEQ_GEQ
        rw [hsame, UInt32.sub_self]
        decide
      unfold ack_data at h
      simp only at h
      split at h
      · cases h
      · cases hrto : update_rto v with
        | error e =>
          rw [hrto] at h
          cases h
        | ok w =>
          rw [hrto] at h
          cases hcwnd : update_cwnd w (acked_packets v (seg.ack_seq - buf.head_seq)) with
          | error e =>
            simp only [bind, Except.bind, hcwnd] at h
            cases h
          | ok x =>
            have hkeeps := remove_acked_keeps x buf seg.ack_seq
            simp only [bind, Except.bind, hcwnd] at h
            cases hrem : remove_acked x buf seg.ack_seq with
            | error e =>
              rw [hrem] at h
              cases h
            | ok y =>
              rw [hrem] at h hkeeps
              obtain ⟨-, rfl⟩ := Prod.mk.inj (Except.ok.inj h)
              exact ⟨v, w, x, rfl, hrto, hcwnd, hkeeps, hpos⟩

/-! ## Section 3: The growth -/

/-- The growth an acknowledgement of `n` bytes is to cause.  In congestion
    avoidance the code multiplies `packets` twice by `mss`, on `int`. -/
structure WindowGrows (cwnd ssthresh mss eff_mss n packets cwnd' : Nat) : Prop where
  slow_start : cwnd < ssthresh → cwnd + mss * segments n eff_mss < 2 ^ 32 →
    cwnd' = cwnd + mss * segments n eff_mss
  beyond : cwnd < ssthresh → 2 ^ 32 ≤ cwnd + mss * segments n eff_mss → cwnd ≤ cwnd'
  avoidance : ssthresh ≤ cwnd → cwnd ≤ cwnd'
  products : ssthresh ≤ cwnd → packets * mss ≤ INT_MAX ∧ packets * mss * mss ≤ INT_MAX

/-- When it does.  In slow start whole segments are acknowledged, fewer than
    65536 of them; past the largest `cwnd` the guard stops the sum, or the sum
    over whole segments still fits; in congestion avoidance the products fit. -/
structure GrowthFits (cwnd ssthresh mss eff_mss n : Nat) : Prop where
  whole : cwnd < ssthresh → cwnd + mss * segments n eff_mss < 2 ^ 32 →
    eff_mss ∣ n ∧ n / eff_mss < 2 ^ 16
  guarded : cwnd < ssthresh → 2 ^ 32 ≤ cwnd + mss * segments n eff_mss →
    2 ^ 32 ≤ cwnd + mss ∨ cwnd + mss * (n / eff_mss % 2 ^ 16) < 2 ^ 32
  products : ssthresh ≤ cwnd → n / eff_mss % 2 ^ 16 * mss * mss ≤ INT_MAX

/-- In slow start such an acknowledgement never leaves `cwnd` as it was. -/
theorem WindowGrows.changes {cwnd ssthresh mss eff_mss n packets cwnd' : Nat}
    (h : WindowGrows cwnd ssthresh mss eff_mss n packets cwnd') (hmss : 0 < mss)
    (heff : 0 < eff_mss) (hn : 0 < n) (hslow : cwnd < ssthresh)
    (hlt : cwnd + mss * segments n eff_mss < 2 ^ 32) : cwnd' ≠ cwnd := by
  have hpos := Nat.mul_pos hmss (segments_pos hn heff)
  have heq := h.slow_start hslow hlt
  omega

theorem update_cwnd_value {s s' : Conn} {packets : UInt16} (hst : s.tcb.state = .established)
    (h : update_cwnd s packets = .ok s') :
    s'.tcb.sndvar.cwnd =
      if s.tcb.sndvar.cwnd < s.tcb.sndvar.ssthresh then
        if s.tcb.sndvar.cwnd + s.tcb.sndvar.mss.toUInt32 > s.tcb.sndvar.cwnd then
          s.tcb.sndvar.cwnd + s.tcb.sndvar.mss.toUInt32 * packets.toUInt32
        else s.tcb.sndvar.cwnd
      else
        if s.tcb.sndvar.cwnd + packets.toUInt32 * s.tcb.sndvar.mss.toUInt32 *
            s.tcb.sndvar.mss.toUInt32 / s.tcb.sndvar.cwnd > s.tcb.sndvar.cwnd then
          s.tcb.sndvar.cwnd + packets.toUInt32 * s.tcb.sndvar.mss.toUInt32 *
            s.tcb.sndvar.mss.toUInt32 / s.tcb.sndvar.cwnd
        else s.tcb.sndvar.cwnd := by
  unfold update_cwnd at h
  simp only at h
  rw [if_pos (by rw [hst])] at h
  by_cases hslow : s.tcb.sndvar.cwnd < s.tcb.sndvar.ssthresh
  · rw [if_pos hslow] at h ⊢
    rw [← Except.ok.inj h]
    rfl
  · rw [if_neg hslow] at h ⊢
    split at h
    · cases h
    · rw [← Except.ok.inj h]
      rfl

/-- The sum of slow start in natural numbers. -/
theorem slow_start_toNat {cwnd : UInt32} {mss packets : UInt16} :
    (if cwnd + mss.toUInt32 > cwnd then cwnd + mss.toUInt32 * packets.toUInt32
      else cwnd).toNat =
    if 0 < mss.toNat ∧ cwnd.toNat + mss.toNat < 2 ^ 32 then
      (cwnd.toNat + mss.toNat * packets.toNat) % 2 ^ 32
    else cwnd.toNat := by
  have hc := cwnd.toNat_lt
  have hm := mss.toNat_lt
  have hp := packets.toNat_lt
  have hprod : mss.toNat * packets.toNat < 2 ^ 32 :=
    Nat.lt_of_lt_of_eq (Nat.mul_lt_mul'' hm hp) (by norm_num)
  have hguard : cwnd + mss.toUInt32 > cwnd ↔
      0 < mss.toNat ∧ cwnd.toNat + mss.toNat < 2 ^ 32 := by
    rw [gt_iff_lt, UInt32.lt_iff_toNat_lt, UInt32.toNat_add, UInt16.toNat_toUInt32]
    omega
  by_cases h : cwnd + mss.toUInt32 > cwnd
  · rw [if_pos h, if_pos (hguard.mp h), UInt32.toNat_add, UInt32.toNat_mul,
      UInt16.toNat_toUInt32, UInt16.toNat_toUInt32, Nat.mod_eq_of_lt hprod]
  · rw [if_neg h, if_neg (fun hg => h (hguard.mpr hg))]

/-- What slow start makes of `cwnd`: the sum, the sum after a wrap, or no change. -/
theorem slow_start_cases {cwnd : UInt32} {mss packets : UInt16} (hmss : 0 < mss.toNat) :
    let cwnd' := (if cwnd + mss.toUInt32 > cwnd then cwnd + mss.toUInt32 * packets.toUInt32
      else cwnd).toNat
    (cwnd.toNat + mss.toNat < 2 ^ 32 ∧ cwnd.toNat + mss.toNat * packets.toNat < 2 ^ 32 ∧
      cwnd' = cwnd.toNat + mss.toNat * packets.toNat) ∨
    (cwnd.toNat + mss.toNat < 2 ^ 32 ∧ 2 ^ 32 ≤ cwnd.toNat + mss.toNat * packets.toNat ∧
      cwnd' < cwnd.toNat) ∨
    (2 ^ 32 ≤ cwnd.toNat + mss.toNat ∧ cwnd' = cwnd.toNat) := by
  have hc := cwnd.toNat_lt
  have hprod : mss.toNat * packets.toNat < 2 ^ 32 :=
    Nat.lt_of_lt_of_eq (Nat.mul_lt_mul'' mss.toNat_lt packets.toNat_lt) (by norm_num)
  simp only [slow_start_toNat]
  by_cases hguard : cwnd.toNat + mss.toNat < 2 ^ 32
  · rw [if_pos ⟨hmss, hguard⟩]
    by_cases hwrap : cwnd.toNat + mss.toNat * packets.toNat < 2 ^ 32
    · exact .inl ⟨hguard, hwrap, Nat.mod_eq_of_lt hwrap⟩
    · refine .inr (.inl ⟨hguard, by omega, ?_⟩)
      rw [Nat.mod_eq_sub_mod (by omega), Nat.mod_eq_of_lt (by omega)]
      omega
  · rw [if_neg (fun h => hguard h.2)]
    exact .inr (.inr ⟨by omega, rfl⟩)

/-- The exact condition, on the numbers. -/
theorem window_grows_iff {cwnd ssthresh cwnd' : UInt32} {mss eff_mss packets : UInt16} {n : Nat}
    (hmss : mss ≠ 0) (heff : eff_mss ≠ 0) (hn : 0 < n)
    (hpackets : packets.toNat = whole_packets n eff_mss.toNat)
    (hslow : cwnd < ssthresh → cwnd' = if cwnd + mss.toUInt32 > cwnd
      then cwnd + mss.toUInt32 * packets.toUInt32 else cwnd)
    (hfast : ¬ cwnd < ssthresh → cwnd ≤ cwnd') :
    WindowGrows cwnd.toNat ssthresh.toNat mss.toNat eff_mss.toNat n packets.toNat cwnd'.toNat ↔
      GrowthFits cwnd.toNat ssthresh.toNat mss.toNat eff_mss.toNat n := by
  have hmss : 0 < mss.toNat := Nat.pos_of_ne_zero fun h => hmss (UInt16.toNat_inj.mp h)
  have heff : 0 < eff_mss.toNat := Nat.pos_of_ne_zero fun h => heff (UInt16.toNat_inj.mp h)
  have hiff := whole_packets_eq_iff hn heff
  have hle := Nat.mul_le_mul_left mss.toNat (whole_packets_le n eff_mss.toNat heff)
  have hone : mss.toNat ≤ mss.toNat * segments n eff_mss.toNat :=
    Nat.le_mul_of_pos_right _ (segments_pos hn heff)
  -- the two sums are the same for the same count
  have hcount : mss.toNat * whole_packets n eff_mss.toNat =
      mss.toNat * segments n eff_mss.toNat ↔
        whole_packets n eff_mss.toNat = segments n eff_mss.toNat := Nat.mul_right_inj (by omega)
  rw [UInt32.lt_iff_toNat_lt] at hslow hfast
  have hvalue := @slow_start_cases cwnd mss packets hmss
  simp only [← hpackets] at hiff hle hcount
  constructor
  · intro hgrows
    refine ⟨?_, ?_, ?_⟩
    · intro hss hlt
      have heq := hgrows.slow_start hss hlt
      rw [hslow hss] at heq
      apply hiff.mp
      apply hcount.mp
      rcases hvalue with ⟨-, -, hv⟩ | ⟨-, hover, -⟩ | ⟨hover, -⟩
      · omega
      · omega
      · omega
    · intro hss hge
      have hkept := hgrows.beyond hss hge
      rw [hslow hss] at hkept
      show _ ∨ cwnd.toNat + mss.toNat * whole_packets n eff_mss.toNat < 2 ^ 32
      rw [← hpackets]
      rcases hvalue with ⟨-, hlt, -⟩ | ⟨-, -, hless⟩ | ⟨hover, -⟩
      · exact .inr hlt
      · omega
      · exact .inl hover
    · intro hss
      have hprod := (hgrows.products hss).2
      rw [hpackets] at hprod
      exact hprod
  · intro hfits
    refine ⟨?_, ?_, ?_, ?_⟩
    · intro hss hlt
      have hsame := hcount.mpr (hiff.mpr (hfits.whole hss hlt))
      rw [hslow hss]
      rcases hvalue with ⟨-, -, hv⟩ | ⟨-, hover, -⟩ | ⟨hover, -⟩
      · omega
      · omega
      · omega
    · intro hss hge
      have hguard : 2 ^ 32 ≤ cwnd.toNat + mss.toNat ∨
          cwnd.toNat + mss.toNat * whole_packets n eff_mss.toNat < 2 ^ 32 :=
        hfits.guarded hss hge
      rw [← hpackets] at hguard
      rw [hslow hss]
      rcases hvalue with ⟨-, -, hv⟩ | ⟨hno, hover, -⟩ | ⟨-, hv⟩
      · omega
      · omega
      · omega
    · intro hss
      exact UInt32.le_iff_toNat_le.mp (hfast (by omega))
    · intro hss
      have hprod : whole_packets n eff_mss.toNat * mss.toNat * mss.toNat ≤ INT_MAX :=
        hfits.products hss
      rw [← hpackets] at hprod
      have hfirst := Nat.le_mul_of_pos_right (packets.toNat * mss.toNat) hmss
      exact ⟨by omega, hprod⟩

/-- For every established connection and every acknowledgement of new bytes that
    is processed: the window grows as it should exactly when whole segments are
    acknowledged and nothing overflows.  It grows from the connection's own
    `cwnd`, unless the acknowledgement is counted for a late duplicate as well. -/
theorem cwnd_growth_exact {u u' : Conn} {buf : UsnSendbuf} {seg : Segment}
    (hst : u.tcb.state = .established) (hmss : u.tcb.sndvar.mss ≠ 0)
    (heff : u.tcb.sndvar.eff_mss ≠ 0) (h : usnet_process_ack u buf seg = .ok (0, u')) :
    (¬ late_duplicate u.tcb seg →
      before_growth u.tcb seg = (u.tcb.sndvar.cwnd, u.tcb.sndvar.ssthresh)) ∧
    (WindowGrows (before_growth u.tcb seg).1.toNat (before_growth u.tcb seg).2.toNat
        u.tcb.sndvar.mss.toNat u.tcb.sndvar.eff_mss.toNat (seg.ack_seq - buf.head_seq).toNat
        (acked_packets u (seg.ack_seq - buf.head_seq)).toNat u'.tcb.sndvar.cwnd.toNat ↔
      GrowthFits (before_growth u.tcb seg).1.toNat (before_growth u.tcb seg).2.toNat
        u.tcb.sndvar.mss.toNat u.tcb.sndvar.eff_mss.toNat
        (seg.ack_seq - buf.head_seq).toNat) := by
  obtain ⟨v, w, x, hv, hrto, hcwnd, hx, hpos⟩ := usnet_process_ack_new hst h
  have hwindows := noted_ack_windows u buf seg
  have hsizes := noted_ack_sizes u buf seg
  have hst' := noted_ack_state u buf seg
  rw [← hv] at hwindows hsizes hst'
  -- the estimator leaves all of these alone
  obtain ⟨srtt, mdev, mdev_max, rttvar, rtt_seq, rto, hest⟩ := update_rto_flow hrto
  have hmss' : w.tcb.sndvar.mss = u.tcb.sndvar.mss := (congrArg Flow.mss hest).trans hsizes.1
  have hcw : w.tcb.sndvar.cwnd = (before_growth u.tcb seg).1 :=
    (congrArg Flow.cwnd hest).trans (congrArg Prod.fst hwindows)
  have hss : w.tcb.sndvar.ssthresh = (before_growth u.tcb seg).2 :=
    (congrArg Flow.ssthresh hest).trans (congrArg Prod.snd hwindows)
  have hstw : w.tcb.state = .established := by
    obtain ⟨⟨-, -, -, ⟨-, -, -, -, hsame⟩, -⟩, -⟩ := update_rto_kept hrto
    exact hsame.trans (hst'.trans hst)
  have hpackets : acked_packets v (seg.ack_seq - buf.head_seq)
      = acked_packets u (seg.ack_seq - buf.head_seq) := by
    apply UInt16.toNat_inj.mp
    rw [acked_packets_eq, acked_packets_eq]
    rw [show v.tcb.sndvar.eff_mss = u.tcb.sndvar.eff_mss from hsizes.2]
  have hvalue := update_cwnd_value hstw hcwnd
  rw [hpackets, hmss', hcw, hss] at hvalue
  have hu' : u'.tcb.sndvar.cwnd = x.tcb.sndvar.cwnd := congrArg Flow.cwnd hx
  rw [hu']
  refine ⟨before_growth_own, ?_⟩
  apply window_grows_iff hmss heff hpos (acked_packets_eq u _)
  · intro hslow
    rw [if_pos hslow] at hvalue
    exact hvalue
  · intro hfast
    rw [if_neg hfast] at hvalue
    rw [hvalue]
    split
    · rename_i hmore
      exact UInt32.le_of_lt hmore
    · exact UInt32.le_refl _

/-- A connection with segments of 1460 bytes is opened, three bytes are sent, and
    they time out. -/
def restart_run : List (Ctx × LifeEvent) :=
  [(quiet_ctx, .segment mss_syn),
   (quiet_ctx, .accept true 5 0),
   (quiet_ctx, .segment (peer_segment 9001 5001 TH_ACK [] nil_short)),
   (quiet_ctx, .write 5 [1, 2, 3]),
   (quiet_ctx, .wrote true 5),
   (quiet_ctx, .data),
   (quiet_ctx, .rto)]

/-- Slow start, with a `cwnd` of one segment and an `ssthresh` of two. -/
def restarted_tcb : UsnTcb := (life_run none restart_run).toOption.join.get rfl

theorem restarted_reachable : LifeReachable (some restarted_tcb) :=
  .run (.init rfl) (life_run_meets_true _ _)
    (show life_run none restart_run = .ok (some restarted_tcb) from rfl)

def restarted_buf : UsnSendbuf := restarted_tcb.sndvar.sndbuf.get rfl

/-- The peer acknowledges the three bytes. -/
def three_acked : Segment := peer_segment 9001 5004 TH_ACK [] nil_short

def after_three : Conn :=
  ((usnet_process_ack ⟨quiet_ctx, restarted_tcb⟩ restarted_buf three_acked).toOption.map
    Prod.snd).getD ⟨quiet_ctx, restarted_tcb⟩

theorem three_acked_run :
    usnet_process_ack ⟨quiet_ctx, restarted_tcb⟩ restarted_buf three_acked
      = .ok (0, after_three) := rfl

theorem cwnd_growth_exact_sample :
    (¬ late_duplicate restarted_tcb three_acked →
      before_growth restarted_tcb three_acked = (1460, 2920)) ∧
    (WindowGrows (before_growth restarted_tcb three_acked).1.toNat
        (before_growth restarted_tcb three_acked).2.toNat 1460 1448
        (three_acked.ack_seq - restarted_buf.head_seq).toNat
        (acked_packets ⟨quiet_ctx, restarted_tcb⟩
          (three_acked.ack_seq - restarted_buf.head_seq)).toNat
        after_three.tcb.sndvar.cwnd.toNat ↔
      GrowthFits (before_growth restarted_tcb three_acked).1.toNat
        (before_growth restarted_tcb three_acked).2.toNat 1460 1448
        (three_acked.ack_seq - restarted_buf.head_seq).toNat) :=
  @cwnd_growth_exact ⟨quiet_ctx, restarted_tcb⟩ after_three restarted_buf three_acked rfl
    (by decide) (by decide) three_acked_run

/-- They are less than a segment, and the window does not grow. -/
theorem small_ack_not_counted :
    LifeReachable (some restarted_tcb) ∧ restarted_tcb.state = .established ∧
    restarted_tcb.sndvar.cwnd < restarted_tcb.sndvar.ssthresh ∧
    restarted_tcb.sndvar.eff_mss ≠ 0 ∧
    usnet_process_ack ⟨quiet_ctx, restarted_tcb⟩ restarted_buf three_acked
      = .ok (0, after_three) ∧
    (three_acked.ack_seq - restarted_buf.head_seq).toNat = 3 ∧
    ¬ late_duplicate restarted_tcb three_acked ∧
    after_three.tcb.sndvar.cwnd = restarted_tcb.sndvar.cwnd ∧
    ¬ WindowGrows restarted_tcb.sndvar.cwnd.toNat restarted_tcb.sndvar.ssthresh.toNat
        restarted_tcb.sndvar.mss.toNat restarted_tcb.sndvar.eff_mss.toNat 3
        (acked_packets ⟨quiet_ctx, restarted_tcb⟩ 3).toNat
        after_three.tcb.sndvar.cwnd.toNat := by
  refine ⟨restarted_reachable, rfl, by decide, by decide, three_acked_run, rfl, ?_, rfl, ?_⟩
  · rintro ⟨hdup, -⟩
    exact absurd hdup (by decide)
  · intro h
    exact absurd (h.slow_start (by decide) (by decide)) (by decide)

end Usnet
