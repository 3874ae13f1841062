import Usnet.Timer

/-! # Acknowledgements (usnet_process_ack in tcp.c)

    The function is long; its parts are separate definitions in the order in
    which they run.
-/

namespace Usnet

open CInt

/-! ## Section 1: The parts of `usnet_process_ack` -/

/-- The smoothing step of `usnet_estimate_rtt`.  The differences are taken on a
    signed `long` and stored back into unsigned fields. -/
def smooth_rtt (v : RcvVars) (m : Int) : RcvVars :=
  let m := m - (v.srtt >>> 3).toNat
  let srtt := u32 (v.srtt.toNat + m)
  let m := if m < 0 then
      let m := -m - (v.mdev >>> 2).toNat
      if m > 0 then m >>> (3 : Nat) else m
    else m - (v.mdev >>> 2).toNat
  let mdev := u32 (v.mdev.toNat + m)
  { v with
    srtt := srtt
    mdev := mdev
    mdev_max := if mdev > v.mdev_max then mdev else v.mdev_max
    rttvar := if mdev > v.mdev_max ∧ mdev > v.rttvar then mdev else v.rttvar }

/-- The end of a measuring period in `usnet_estimate_rtt`. -/
def end_period (v : RcvVars) (snd_nxt : UInt32) : RcvVars :=
  { v with
    rttvar := if v.mdev_max < v.rttvar then v.rttvar - ((v.rttvar - v.mdev_max) >>> 2)
      else v.rttvar
    rtt_seq := snd_nxt
    mdev_max := 0 }

/-- A measurement counts at least one tick. -/
def measured (mrtt : UInt32) : Int := if mrtt = 0 then 1 else mrtt.toNat

/-- `usnet_estimate_rtt`. -/
def usnet_estimate_rtt (s : Conn) (mrtt : UInt32) : Conn :=
  let m := measured mrtt
  if s.tcb.rcvvar.srtt ≠ 0 then
    let s := s.onRcv fun v => smooth_rtt v m
    if TCP_SEQ_GT s.tcb.sndvar.snd_una s.tcb.rcvvar.rtt_seq then
      s.onRcv fun v => end_period v s.tcb.snd_nxt
    else s
  else
    s.onRcv fun v =>
      { v with
        srtt := u32 m <<< 3, mdev := u32 m <<< 1, mdev_max := u32 m <<< 1
        rttvar := u32 m <<< 1, rtt_seq := s.tcb.snd_nxt }

/-- The `ack_seq` the checks work with: an acknowledged FIN does not count. -/
def counted_ack (s : Conn) (ack_seq : UInt32) : UInt32 :=
  match s.tcb.state with
  | .fin_wait_1 | .fin_wait_2 | .closing | .close_wait | .last_ack =>
    if s.tcb.sndvar.is_fin_sent ∧ ack_seq = s.tcb.sndvar.fss + 1 then ack_seq - 1 else ack_seq
  | _ => ack_seq

/-- `cwindow`.  The parameter `window` is a signed 16-bit value, so from
    `0x8000` on it is extended with ones. -/
def cwindow (tcb : UsnTcb) (seg : Segment) : UInt32 :=
  let cwindow := u32 (s16 seg.window.toNat)
  if seg.has TH_SYN then cwindow else cwindow <<< tcb.sndvar.wscale.toUInt32

/-- "Update window". -/
def update_window (s : Conn) (seg : Segment) (ack_seq : UInt32) : Conn :=
  let cwindow := cwindow s.tcb seg
  if TCP_SEQ_LT s.tcb.rcvvar.snd_wl1 seg.seq ∨
      (s.tcb.rcvvar.snd_wl1 = seg.seq ∧ TCP_SEQ_LT s.tcb.rcvvar.snd_wl2 ack_seq) ∨
      (s.tcb.rcvvar.snd_wl2 = ack_seq ∧ cwindow > s.tcb.sndvar.peer_wnd) then
    let cwindow_prev := s.tcb.sndvar.peer_wnd
    let s := s.onSnd fun v => { v with peer_wnd := cwindow }
    let s := s.onRcv fun v => { v with snd_wl1 := seg.seq, snd_wl2 := ack_seq }
    let flight := s.tcb.snd_nxt - s.tcb.sndvar.snd_una
    if cwindow_prev < flight ∧ cwindow ≥ flight then usnet_raise_write_event s else s
  else s

/-- "Check duplicated ack count".  The comparison `dup_acks + 1 > dup_acks` is
    made on `int` and always holds. -/
def check_dup (s : Conn) (seg : Segment) (ack_seq right_wnd_edge : UInt32) : Bool × Conn :=
  if TCP_SEQ_LT ack_seq s.tcb.snd_nxt ∧ ack_seq = s.tcb.rcvvar.last_ack_seq ∧
      seg.payload.length = 0 ∧
      s.tcb.rcvvar.snd_wl2 + s.tcb.sndvar.peer_wnd = right_wnd_edge then
    (true, s.onRcv fun v => { v with dup_acks := v.dup_acks + 1 })
  else
    (false, s.onRcv fun v => { v with dup_acks := 0, last_ack_seq := ack_seq })

/-- "Fast retransmission": the third duplicate moves `snd_nxt` back, further
    ones inflate the congestion window. -/
def fast_retransmit (s : Conn) (ack_seq : UInt32) (dup : Bool) : Conn :=
  if dup ∧ s.tcb.rcvvar.dup_acks = 3 then
    let s := if TCP_SEQ_LT ack_seq s.tcb.snd_nxt then
        s.onTcb fun t => { t with snd_nxt := ack_seq }
      else s
    let s := s.onSnd fun v =>
      { v with ssthresh := max (min v.cwnd v.peer_wnd / 2) (2 * v.mss.toUInt32) }
    let s := s.onSnd fun v => { v with cwnd := v.ssthresh + 3 * v.mss.toUInt32 }
    let s := s.onSnd fun v => { v with nrtx := if v.nrtx < TCP_MAX_RTX then v.nrtx + 1 else v.nrtx }
    usnet_add_send_list s
  else if s.tcb.rcvvar.dup_acks > 3 then
    s.onSnd fun v =>
      { v with cwnd := if v.cwnd + v.mss.toUInt32 > v.cwnd then v.cwnd + v.mss.toUInt32 else v.cwnd }
  else s

/-- "updating snd_nxt (when recovered from loss)". -/
def forward_nxt (s : Conn) (buf : UsnSendbuf) (ack_seq : UInt32) : Conn :=
  if TCP_SEQ_GT ack_seq s.tcb.snd_nxt then
    let s := s.onTcb fun t => { t with snd_nxt := ack_seq }
    if buf.len = 0 then usnet_remove_send_list s else s
  else s

/-- The number of packets acknowledged, counted in whole segments. -/
def acked_packets (s : Conn) (rmlen : UInt32) : UInt16 :=
  let eff_mss := s.tcb.sndvar.eff_mss.toUInt32
  let packets := (rmlen / eff_mss).toUInt16
  if rmlen / eff_mss * eff_mss > rmlen then packets + 1 else packets

/-- "Estimate RTT and calculate rto". -/
def update_rto (s : Conn) : Except Fault Conn :=
  if s.tcb.saw_timestamp then
    let s := usnet_estimate_rtt s (s.ctx.cur_time - s.tcb.rcvvar.ts_lastack_rcvd)
    let s := s.onSnd fun v =>
      { v with rto := (s.tcb.rcvvar.srtt >>> 3) + s.tcb.rcvvar.rttvar }
    if s.tcb.sndvar.rto = 0 then .error .rto_assert else .ok s
  else .ok s

/-- "Update congestion control variables". -/
def update_cwnd (s : Conn) (packets : UInt16) : Except Fault Conn :=
  let v := s.tcb.sndvar
  let mss := v.mss.toUInt32
  if s.tcb.state.val ≥ TcpState.established.val then
    if v.cwnd < v.ssthresh then
      .ok (s.onSnd fun v =>
        { v with cwnd := if v.cwnd + mss > v.cwnd then v.cwnd + mss * packets.toUInt32
            else v.cwnd })
    else if v.cwnd = 0 then .error .division
    else
      let new_cwnd := v.cwnd + packets.toUInt32 * mss * mss / v.cwnd
      .ok (s.onSnd fun v => { v with cwnd := if new_cwnd > v.cwnd then new_cwnd else v.cwnd })
  else .ok s

/-- The removal from the send buffer and what follows from it. -/
def remove_acked (s : Conn) (buf : UsnSendbuf) (ack_seq : UInt32) : Except Fault Conn :=
  let buf := (usnet_remove_data buf (sint (ack_seq - buf.head_seq))).2
  let snd_wnd_prev := s.tcb.sndvar.snd_wnd
  let s := s.onSnd fun v =>
    { v with sndbuf := some buf, snd_una := ack_seq, snd_wnd := buf.size - buf.len }
  let s := if snd_wnd_prev = 0 then usnet_raise_write_event s else s
  usnet_update_retransmission_timer s

/-- "Remove acked sequence from send buffer". -/
def ack_data (s : Conn) (buf : UsnSendbuf) (ack_seq : UInt32) : Except Fault (Int × Conn) :=
  let rmlen := ack_seq - buf.head_seq
  if s.tcb.sndvar.eff_mss = 0 then .error .division
  else do
    let packets := acked_packets s rmlen
    let s ← update_rto s
    let s ← update_cwnd s packets
    let s ← remove_acked s buf ack_seq
    return (0, s)

/-! ## Section 2: The function -/

/-- `usnet_process_ack` behind its first check. -/
def process_valid_ack (s : Conn) (buf : UsnSendbuf) (seg : Segment) (ack_seq : UInt32) :
    Except Fault (Int × Conn) :=
  let s := s.onCtx fun c => { c with applied := c.applied ++ [.ack] }
  let right_wnd_edge := s.tcb.sndvar.peer_wnd + s.tcb.rcvvar.snd_wl2
  let s := update_window s seg ack_seq
  let (dup, s) := check_dup s seg ack_seq right_wnd_edge
  let s := fast_retransmit s ack_seq dup
  let s := forward_nxt s buf ack_seq
  if TCP_SEQ_GEQ buf.head_seq ack_seq then .ok (-2, s) else ack_data s buf ack_seq

/-- `usnet_process_ack`, called with the connection's send buffer. -/
def usnet_process_ack (s : Conn) (buf : UsnSendbuf) (seg : Segment) :
    Except Fault (Int × Conn) :=
  let ack_seq := counted_ack s seg.ack_seq
  if TCP_SEQ_GT ack_seq (buf.head_seq + buf.len) then .ok (-1, s)
  else process_valid_ack s buf seg ack_seq

/-! ## Section 3: What an acknowledgement leaves alone -/

/-- Everything an acknowledgement does not reach. -/
@[simp] abbrev AckKept (s s' : Conn) : Prop :=
  s'.tcb.id = s.tcb.id ∧ s'.tcb.fd = s.tcb.fd ∧ s'.tcb.socket = s.tcb.socket ∧
  SameState s s' ∧ s'.tcb.saw_timestamp = s.tcb.saw_timestamp ∧
  s'.tcb.rcv_nxt = s.tcb.rcv_nxt ∧
  s'.tcb.rcvvar.rcv_wnd = s.tcb.rcvvar.rcv_wnd ∧ s'.tcb.rcvvar.irs = s.tcb.rcvvar.irs ∧
  s'.tcb.rcvvar.rcvbuf = s.tcb.rcvvar.rcvbuf ∧
  s'.tcb.sndvar.iss = s.tcb.sndvar.iss ∧ s'.tcb.sndvar.fss = s.tcb.sndvar.fss ∧
  s'.tcb.sndvar.is_fin_sent = s.tcb.sndvar.is_fin_sent ∧
  s'.ctx.cur_time = s.ctx.cur_time ∧ s'.ctx.tcp_timeout = s.ctx.tcp_timeout ∧
  s'.ctx.frag_mp = s.ctx.frag_mp ∧ s'.ctx.ringbuf_cache = s.ctx.ringbuf_cache ∧
  s'.ctx.frames = s.ctx.frames

/-- The variables of the send side. -/
@[simp] abbrev SameSeq (s s' : Conn) : Prop :=
  s'.tcb.snd_nxt = s.tcb.snd_nxt ∧ s'.tcb.sndvar.snd_una = s.tcb.sndvar.snd_una ∧
  s'.tcb.sndvar.sndbuf = s.tcb.sndvar.sndbuf

/-- The send side, and which segments were applied. -/
@[simp] abbrev SameSend (s s' : Conn) : Prop :=
  SameSeq s s' ∧ s'.ctx.applied = s.ctx.applied

/-- Nothing changes but bookkeeping. -/
@[simp] abbrev Quiet (s s' : Conn) : Prop := AckKept s s' ∧ SameSend s s'

@[simp] theorem smooth_rtt_kept (v : RcvVars) (m : Int) :
    (smooth_rtt v m).rcv_wnd = v.rcv_wnd ∧ (smooth_rtt v m).irs = v.irs ∧
    (smooth_rtt v m).rcvbuf = v.rcvbuf := ⟨rfl, rfl, rfl⟩

@[simp] theorem end_period_kept (v : RcvVars) (snd_nxt : UInt32) :
    (end_period v snd_nxt).rcv_wnd = v.rcv_wnd ∧ (end_period v snd_nxt).irs = v.irs ∧
    (end_period v snd_nxt).rcvbuf = v.rcvbuf := ⟨rfl, rfl, rfl⟩

@[simp] theorem usnet_estimate_rtt_kept (s : Conn) (mrtt : UInt32) :
    AckKept s (usnet_estimate_rtt s mrtt) ∧ SameSend s (usnet_estimate_rtt s mrtt) := by
  unfold usnet_estimate_rtt
  simp only
  split
  · split <;> simp
  · simp

@[simp] theorem update_window_kept (s : Conn) (seg : Segment) (ack_seq : UInt32) :
    AckKept s (update_window s seg ack_seq) ∧ SameSend s (update_window s seg ack_seq) := by
  unfold update_window
  simp only
  split
  · split <;> simp
  · simp

@[simp] theorem check_dup_kept (s : Conn) (seg : Segment) (ack_seq edge : UInt32) :
    AckKept s (check_dup s seg ack_seq edge).2 ∧
    SameSend s (check_dup s seg ack_seq edge).2 := by
  unfold check_dup
  split <;> simp

/-- What duplicates lead to.  After the third the connection, maybe back at `ack_seq`,
    waits to be flushed; later ones only let `cwnd` grow. -/
theorem fast_retransmit_cases (s : Conn) (ack_seq : UInt32) (dup : Bool) :
    (∃ u cwnd ssthresh nrtx, (u = s ∨ u = s.onTcb fun t => { t with snd_nxt := ack_seq }) ∧
      fast_retransmit s ack_seq dup = usnet_add_send_list (u.onSnd fun v =>
        { v with cwnd := cwnd, ssthresh := ssthresh, nrtx := nrtx })) ∨
    ∃ cwnd, fast_retransmit s ack_seq dup = s.onSnd fun v => { v with cwnd := cwnd } := by
  -- the three assignments after the third duplicate as one
  have hthird : ∀ u : Conn, ∃ cwnd ssthresh nrtx,
      (((u.onSnd fun v =>
          { v with ssthresh := max (min v.cwnd v.peer_wnd / 2) (2 * v.mss.toUInt32) }).onSnd
        fun v => { v with cwnd := v.ssthresh + 3 * v.mss.toUInt32 }).onSnd
        fun v => { v with nrtx := if v.nrtx < TCP_MAX_RTX then v.nrtx + 1 else v.nrtx })
      = u.onSnd fun v => { v with cwnd := cwnd, ssthresh := ssthresh, nrtx := nrtx } :=
    fun u => ⟨_, _, _, rfl⟩
  unfold fast_retransmit
  split
  · left
    by_cases hlt : TCP_SEQ_LT ack_seq s.tcb.snd_nxt
    · obtain ⟨cwnd, ssthresh, nrtx, heq⟩ := hthird (s.onTcb fun t => { t with snd_nxt := ack_seq })
      simp only [if_pos hlt]
      exact ⟨_, cwnd, ssthresh, nrtx, .inr rfl, congrArg usnet_add_send_list heq⟩
    · obtain ⟨cwnd, ssthresh, nrtx, heq⟩ := hthird s
      simp only [if_neg hlt]
      exact ⟨_, cwnd, ssthresh, nrtx, .inl rfl, congrArg usnet_add_send_list heq⟩
  · right
    split
    · exact ⟨_, rfl⟩
    · exact ⟨s.tcb.sndvar.cwnd, rfl⟩

@[simp] theorem fast_retransmit_kept (s : Conn) (ack_seq : UInt32) (dup : Bool) :
    AckKept s (fast_retransmit s ack_seq dup) ∧
    (fast_retransmit s ack_seq dup).tcb.sndvar.snd_una = s.tcb.sndvar.snd_una ∧
    (fast_retransmit s ack_seq dup).tcb.sndvar.sndbuf = s.tcb.sndvar.sndbuf ∧
    (fast_retransmit s ack_seq dup).ctx.applied = s.ctx.applied := by
  unfold fast_retransmit
  simp only
  split
  · split <;> simp
  · split <;> simp

@[simp] theorem forward_nxt_kept (s : Conn) (buf : UsnSendbuf) (ack_seq : UInt32) :
    AckKept s (forward_nxt s buf ack_seq) ∧
    (forward_nxt s buf ack_seq).tcb.sndvar.snd_una = s.tcb.sndvar.snd_una ∧
    (forward_nxt s buf ack_seq).tcb.sndvar.sndbuf = s.tcb.sndvar.sndbuf ∧
    (forward_nxt s buf ack_seq).ctx.applied = s.ctx.applied := by
  unfold forward_nxt
  simp only
  split
  · split <;> simp
  · simp

theorem update_rto_kept {s s' : Conn} (h : update_rto s = .ok s') :
    AckKept s s' ∧ SameSend s s' := by
  unfold update_rto at h
  simp only at h
  split at h
  · split at h
    · cases h
    · obtain rfl := Except.ok.inj h
      simp
  · obtain rfl := Except.ok.inj h
    simp

theorem update_cwnd_kept {s s' : Conn} {packets : UInt16}
    (h : update_cwnd s packets = .ok s') : AckKept s s' ∧ SameSend s s' := by
  unfold update_cwnd at h
  simp only at h
  split at h
  · split at h
    · obtain rfl := Except.ok.inj h
      simp
    · split at h
      · cases h
      · obtain rfl := Except.ok.inj h
        simp
  · obtain rfl := Except.ok.inj h
    simp

theorem remove_acked_spec {s s' : Conn} {buf : UsnSendbuf} {ack_seq : UInt32}
    (h : remove_acked s buf ack_seq = .ok s') :
    AckKept s s' ∧ s'.tcb.snd_nxt = s.tcb.snd_nxt ∧ s'.ctx.applied = s.ctx.applied ∧
    s'.tcb.sndvar.snd_una = ack_seq ∧
    s'.tcb.sndvar.sndbuf
      = some (usnet_remove_data buf (sint (ack_seq - buf.head_seq))).2 := by
  unfold remove_acked at h
  simp only at h
  have hsame := usnet_update_retransmission_timer_same h
  by_cases hwnd : s.tcb.sndvar.snd_wnd = 0
  · simp [hwnd] at hsame
    simp [hsame]
  · simp [hwnd] at hsame
    simp [hsame]

theorem ack_data_spec {s s' : Conn} {buf : UsnSendbuf} {ack_seq : UInt32} {r : Int}
    (h : ack_data s buf ack_seq = .ok (r, s')) :
    r = 0 ∧ AckKept s s' ∧ s'.tcb.snd_nxt = s.tcb.snd_nxt ∧
    s'.ctx.applied = s.ctx.applied ∧ s'.tcb.sndvar.snd_una = ack_seq ∧
    s'.tcb.sndvar.sndbuf
      = some (usnet_remove_data buf (sint (ack_seq - buf.head_seq))).2 := by
  unfold ack_data at h
  simp only at h
  split at h
  · cases h
  · cases hrto : update_rto s with
    | error e => simp [hrto, bind, Except.bind] at h
    | ok s₁ =>
      cases hcwnd : update_cwnd s₁ (acked_packets s (ack_seq - buf.head_seq)) with
      | error e => simp [hrto, hcwnd, bind, Except.bind] at h
      | ok s₂ =>
        cases hrem : remove_acked s₂ buf ack_seq with
        | error e => simp [hrto, hcwnd, hrem, bind, Except.bind] at h
        | ok s₃ =>
          simp [hrto, hcwnd, hrem, bind, Except.bind, pure, Except.pure] at h
          obtain ⟨rfl, rfl⟩ := h
          have h₁ := update_rto_kept hrto
          have h₂ := update_cwnd_kept hcwnd
          have h₃ := remove_acked_spec hrem
          simp_all

/-! ## Section 4: What an acknowledgement changes -/

/-- The acknowledgement is the third duplicate. -/
def third_dup (s : Conn) (seg : Segment) (ack_seq : UInt32) : Bool :=
  let right_wnd_edge := s.tcb.sndvar.peer_wnd + s.tcb.rcvvar.snd_wl2
  let r := check_dup (update_window s seg ack_seq) seg ack_seq right_wnd_edge
  r.1 && r.2.tcb.rcvvar.dup_acks == 3

/-- Where `snd_nxt` is after the two assignments of `usnet_process_ack`. -/
def nxt_after_ack (s : Conn) (seg : Segment) (ack_seq : UInt32) : UInt32 :=
  if third_dup s seg ack_seq then ack_seq
  else if TCP_SEQ_GT ack_seq s.tcb.snd_nxt then ack_seq
  else s.tcb.snd_nxt

theorem fast_retransmit_nxt {s : Conn} {ack_seq : UInt32} {dup : Bool}
    (hlt : dup → TCP_SEQ_LT ack_seq s.tcb.snd_nxt) :
    (fast_retransmit s ack_seq dup).tcb.snd_nxt
      = if dup ∧ s.tcb.rcvvar.dup_acks = 3 then ack_seq else s.tcb.snd_nxt := by
  unfold fast_retransmit
  by_cases h : dup ∧ s.tcb.rcvvar.dup_acks = 3
  · have := hlt h.1
    simp [h, this]
  · simp only [h, if_false]
    split <;> rfl

theorem forward_nxt_nxt (s : Conn) (buf : UsnSendbuf) (ack_seq : UInt32) :
    (forward_nxt s buf ack_seq).tcb.snd_nxt
      = if TCP_SEQ_GT ack_seq s.tcb.snd_nxt then ack_seq else s.tcb.snd_nxt := by
  unfold forward_nxt
  by_cases h : TCP_SEQ_GT ack_seq s.tcb.snd_nxt
  · by_cases hlen : buf.len = 0 <;> simp [h, hlen]
  · simp [h]

/-- The window update and the count of duplicates look at the control block only. -/
theorem update_window_tcb {s t : Conn} (seg : Segment) (ack_seq : UInt32)
    (h : s.tcb = t.tcb) :
    (update_window s seg ack_seq).tcb = (update_window t seg ack_seq).tcb := by
  have key : ∀ u : Conn, (update_window u seg ack_seq).tcb
      = if TCP_SEQ_LT u.tcb.rcvvar.snd_wl1 seg.seq ∨
          (u.tcb.rcvvar.snd_wl1 = seg.seq ∧ TCP_SEQ_LT u.tcb.rcvvar.snd_wl2 ack_seq) ∨
          (u.tcb.rcvvar.snd_wl2 = ack_seq ∧ cwindow u.tcb seg > u.tcb.sndvar.peer_wnd) then
        { u.tcb with
          sndvar := { u.tcb.sndvar with peer_wnd := cwindow u.tcb seg }
          rcvvar := { u.tcb.rcvvar with snd_wl1 := seg.seq, snd_wl2 := ack_seq } }
        else u.tcb := by
    intro u
    unfold update_window
    simp only
    split
    · split <;> rfl
    · rfl
  rw [key, key, h]

theorem check_dup_tcb {s t : Conn} (seg : Segment) (ack_seq edge : UInt32)
    (h : s.tcb = t.tcb) :
    (check_dup s seg ack_seq edge).1 = (check_dup t seg ack_seq edge).1 ∧
    (check_dup s seg ack_seq edge).2.tcb = (check_dup t seg ack_seq edge).2.tcb := by
  unfold check_dup
  rw [h]
  split <;> simp [h]

/-- A duplicate lies before `snd_nxt`. -/
theorem check_dup_lt {s : Conn} {seg : Segment} {ack_seq edge : UInt32}
    (h : (check_dup s seg ack_seq edge).1) : TCP_SEQ_LT ack_seq s.tcb.snd_nxt := by
  unfold check_dup at h
  split at h
  · rename_i hdup
    exact hdup.1
  · simp at h

theorem third_dup_tcb {s t : Conn} (seg : Segment) (ack_seq : UInt32) (h : s.tcb = t.tcb) :
    third_dup s seg ack_seq = third_dup t seg ack_seq := by
  unfold third_dup
  rw [h]
  have hdup := check_dup_tcb seg ack_seq (t.tcb.sndvar.peer_wnd + t.tcb.rcvvar.snd_wl2)
    (update_window_tcb seg ack_seq h)
  simp only [hdup.1, hdup.2]

/-- What an acknowledgement that passes the first check does. -/
structure AckDone (s : Conn) (buf : UsnSendbuf) (seg : Segment) (ack_seq : UInt32)
    (r : Int) (s' : Conn) : Prop where
  kept : AckKept s s'
  applied : s'.ctx.applied = s.ctx.applied ++ [.ack]
  snd_nxt : s'.tcb.snd_nxt = nxt_after_ack s seg ack_seq
  data : (r = -2 ∧ TCP_SEQ_GEQ buf.head_seq ack_seq ∧
      s'.tcb.sndvar.snd_una = s.tcb.sndvar.snd_una ∧
      s'.tcb.sndvar.sndbuf = s.tcb.sndvar.sndbuf) ∨
    (r = 0 ∧ ¬ TCP_SEQ_GEQ buf.head_seq ack_seq ∧ s'.tcb.sndvar.snd_una = ack_seq ∧
      s'.tcb.sndvar.sndbuf
        = some (usnet_remove_data buf (sint (ack_seq - buf.head_seq))).2)

theorem process_valid_ack_done {s s' : Conn} {buf : UsnSendbuf} {seg : Segment}
    {ack_seq : UInt32} {r : Int} (h : process_valid_ack s buf seg ack_seq = .ok (r, s')) :
    AckDone s buf seg ack_seq r s' := by
  unfold process_valid_ack at h
  simp only at h
  generalize hs₀ : (s.onCtx fun c => { c with applied := c.applied ++ [.ack] }) = s₀ at h
  have htcb : s₀.tcb = s.tcb := by rw [← hs₀]; rfl
  have happ : s₀.ctx.applied = s.ctx.applied ++ [.ack] := by rw [← hs₀]; rfl
  have hctx : AckKept s s₀ := by rw [← hs₀]; simp
  generalize hw : update_window s₀ seg ack_seq = w at h
  generalize hd : check_dup w seg ack_seq _ = d at h
  have hwk : AckKept s₀ w ∧ SameSend s₀ w := by rw [← hw]; simp
  have hdk : AckKept w d.2 ∧ SameSend w d.2 := by rw [← hd]; simp
  -- the duplicate test and the third duplicate are the same thing seen twice
  have hthird : third_dup s seg ack_seq = (d.1 && d.2.tcb.rcvvar.dup_acks == 3) := by
    rw [← third_dup_tcb seg ack_seq htcb]
    unfold third_dup
    simp only [hw, hd]
  have hlt : d.1 → TCP_SEQ_LT ack_seq d.2.tcb.snd_nxt := by
    intro h1
    rw [hdk.2.1.1]
    rw [← hd] at h1
    exact check_dup_lt h1
  have hnxt := fast_retransmit_nxt (s := d.2) hlt
  have hfwd := forward_nxt_nxt (fast_retransmit d.2 ack_seq d.1) buf ack_seq
  have hsnd : (forward_nxt (fast_retransmit d.2 ack_seq d.1) buf ack_seq).tcb.snd_nxt
      = nxt_after_ack s seg ack_seq := by
    rw [hfwd, hnxt]
    unfold nxt_after_ack
    have hs : d.2.tcb.snd_nxt = s.tcb.snd_nxt := by simp_all
    by_cases h3 : third_dup s seg ack_seq
    · have h3' : d.1 = true ∧ d.2.tcb.rcvvar.dup_acks = 3 := by simpa [hthird] using h3
      have hself : ¬ TCP_SEQ_GT ack_seq ack_seq := by simp [sint]
      simp only [h3, h3', and_self, if_true, hself, if_false]
    · have h3' : ¬ (d.1 = true ∧ d.2.tcb.rcvvar.dup_acks = 3) := by simpa [hthird] using h3
      simp only [h3, h3', if_false, hs]
      rfl
  split at h
  · rename_i hgeq
    obtain ⟨rfl, rfl⟩ := h
    refine ⟨by simp_all, by simp_all, hsnd, .inl ⟨rfl, hgeq, by simp_all, by simp_all⟩⟩
  · rename_i hgeq
    obtain ⟨rfl, hk, hn, ha, hu, hb⟩ := ack_data_spec h
    refine ⟨by simp_all, by simp_all, by rw [hn, hsnd], .inr ⟨rfl, hgeq, hu, hb⟩⟩

end Usnet
