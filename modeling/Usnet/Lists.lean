import Usnet.Tcb

/-! # The lists a connection is kept on (timer.c, tcp_out.c, event.c, tcb.c)

    Membership in the send, acknowledgement, control, timeout, timewait and
    retransmission lists is recorded twice, by a flag of the control block and
    in the list itself.  None of these operations touches the variables of the
    protocol; `Same` says so once and for all.
-/

namespace Usnet

open CInt

/-! ## Section 1: What bookkeeping leaves alone -/

/-- The variables no output function changes. -/
@[simp] abbrev Kept (s s' : Conn) : Prop :=
  s'.tcb.id = s.tcb.id ∧ s'.tcb.fd = s.tcb.fd ∧ s'.tcb.socket = s.tcb.socket ∧
  s'.tcb.saw_timestamp = s.tcb.saw_timestamp ∧ s'.tcb.rcv_nxt = s.tcb.rcv_nxt ∧
  s'.tcb.rcvvar = s.tcb.rcvvar ∧
  s'.tcb.sndvar.mss = s.tcb.sndvar.mss ∧ s'.tcb.sndvar.eff_mss = s.tcb.sndvar.eff_mss ∧
  s'.tcb.sndvar.wscale = s.tcb.sndvar.wscale ∧
  s'.tcb.sndvar.snd_una = s.tcb.sndvar.snd_una ∧
  s'.tcb.sndvar.peer_wnd = s.tcb.sndvar.peer_wnd ∧
  s'.tcb.sndvar.iss = s.tcb.sndvar.iss ∧ s'.tcb.sndvar.fss = s.tcb.sndvar.fss ∧
  s'.tcb.sndvar.cwnd = s.tcb.sndvar.cwnd ∧
  s'.tcb.sndvar.ssthresh = s.tcb.sndvar.ssthresh ∧
  s'.tcb.sndvar.sndbuf = s.tcb.sndvar.sndbuf ∧
  s'.ctx.cur_time = s.ctx.cur_time ∧ s'.ctx.tcp_timeout = s.ctx.tcp_timeout ∧
  s'.ctx.frag_mp = s.ctx.frag_mp ∧ s'.ctx.ringbuf_cache = s.ctx.ringbuf_cache ∧
  s'.ctx.sndbuf_cache = s.ctx.sndbuf_cache ∧ s'.ctx.applied = s.ctx.applied

/-- The connection's addresses and state. -/
@[simp] abbrev SameState (s s' : Conn) : Prop :=
  s'.tcb.saddr = s.tcb.saddr ∧ s'.tcb.daddr = s.tcb.daddr ∧
  s'.tcb.sport = s.tcb.sport ∧ s'.tcb.dport = s.tcb.dport ∧
  s'.tcb.state = s.tcb.state

/-- All protocol variables, and nothing sent. -/
@[simp] abbrev Same (s s' : Conn) : Prop :=
  Kept s s' ∧ SameState s s' ∧ s'.tcb.snd_nxt = s.tcb.snd_nxt ∧
  s'.tcb.sndvar.is_fin_sent = s.tcb.sndvar.is_fin_sent ∧
  s'.ctx.frames = s.ctx.frames

/-- Only frames that satisfy `P` go out between the two contexts. -/
def Sends (P : Frame → Prop) (c c' : Ctx) : Prop :=
  ∃ sent, c'.frames = c.frames ++ sent ∧ ∀ f ∈ sent, P f

theorem Sends.of_eq {P : Frame → Prop} {c c' : Ctx} (h : c'.frames = c.frames) :
    Sends P c c' := ⟨[], by simp [h], by simp⟩

theorem Sends.one {P : Frame → Prop} {c c' : Ctx} {f : Frame}
    (h : c'.frames = c.frames ++ [f]) (hf : P f) : Sends P c c' :=
  ⟨[f], h, by simpa using hf⟩

theorem Sends.trans {P : Frame → Prop} {c c' c'' : Ctx} (h : Sends P c c')
    (h' : Sends P c' c'') : Sends P c c'' := by
  obtain ⟨l, hl, hP⟩ := h
  obtain ⟨l', hl', hP'⟩ := h'
  refine ⟨l ++ l', by rw [hl', hl, List.append_assoc], fun f hf => ?_⟩
  rcases List.mem_append.mp hf with hf | hf
  · exact hP f hf
  · exact hP' f hf

theorem Sends.mono {P Q : Frame → Prop} {c c' : Ctx} (hPQ : ∀ f, P f → Q f)
    (h : Sends P c c') : Sends Q c c' := by
  obtain ⟨l, hl, hP⟩ := h
  exact ⟨l, hl, fun f hf => hPQ f (hP f hf)⟩

/-- Only the record of frames counts. -/
theorem Sends.congr {P : Frame → Prop} {c c' d d' : Ctx} (h : Sends P c c')
    (hd : d.frames = c.frames) (hd' : d'.frames = c'.frames) : Sends P d d' := by
  obtain ⟨l, hl, hP⟩ := h
  exact ⟨l, by rw [hd', hl, hd], hP⟩

/-! ## Section 2: Events -/

/-- The enqueueing in the `usnet_raise_*_event` functions. -/
def Conn.raise (s : Conn) (ev : TcpEvent) : Conn :=
  s.onCtx fun c => { c with events := c.events ++ [ev] }

@[simp] def usnet_raise_read_event (s : Conn) : Conn := s.raise (.read s.tcb.fd)
@[simp] def usnet_raise_write_event (s : Conn) : Conn := s.raise (.write s.tcb.fd)
@[simp] def usnet_raise_error_event (s : Conn) : Conn := s.raise (.error s.tcb.fd)
@[simp] def usnet_raise_tcp_event (s : Conn) : Conn := s.raise (.tcpst s.tcb.fd s.tcb.state)
@[simp] def usnet_raise_connect_event (s : Conn) : Conn :=
  s.raise (.connect s.tcb.fd s.tcb.saddr s.tcb.sport s.tcb.daddr s.tcb.dport)

@[simp] theorem raise_tcb (s : Conn) (ev : TcpEvent) : (s.raise ev).tcb = s.tcb := rfl

@[simp] theorem raise_same (s : Conn) (ev : TcpEvent) : Same s (s.raise ev) := by
  simp [Conn.raise]

/-! ## Section 3: Control, send and acknowledgement lists -/

def usnet_remove_control_list (s : Conn) : Conn :=
  if s.tcb.sndvar.on_control_list then
    (s.onSnd fun v => { v with on_control_list := false }).onCtx fun c =>
      { c with
        control_list := c.control_list.erase s.tcb.id
        control_list_cnt := c.control_list_cnt - 1 }
  else s

/-- The queueing half of `usnet_add_control_list`. -/
def queue_control (s : Conn) : Conn :=
  if s.tcb.sndvar.on_control_list then s
  else
    (s.onSnd fun v => { v with on_control_list := true }).onCtx fun c =>
      { c with
        control_list := c.control_list ++ [s.tcb.id]
        control_list_cnt := c.control_list_cnt + 1 }

def usnet_remove_send_list (s : Conn) : Conn :=
  if s.tcb.sndvar.on_send_list then
    (s.onSnd fun v => { v with on_send_list := false }).onCtx fun c =>
      { c with
        send_list := c.send_list.erase s.tcb.id
        send_list_cnt := c.send_list_cnt - 1 }
  else s

def usnet_add_send_list (s : Conn) : Conn :=
  if s.tcb.sndvar.sndbuf.isNone then s
  else if s.tcb.sndvar.on_send_list then s
  else
    (s.onSnd fun v => { v with on_send_list := true }).onCtx fun c =>
      { c with
        send_list := c.send_list ++ [s.tcb.id]
        send_list_cnt := c.send_list_cnt + 1 }

def usnet_add_ack_list (s : Conn) : Conn :=
  if s.tcb.sndvar.on_ack_list then s
  else
    (s.onSnd fun v => { v with on_ack_list := true }).onCtx fun c =>
      { c with
        ack_list := c.ack_list ++ [s.tcb.id]
        ack_list_cnt := c.ack_list_cnt + 1 }

def usnet_remove_ack_list (s : Conn) : Conn :=
  if s.tcb.sndvar.on_ack_list then
    (s.onSnd fun v => { v with on_ack_list := false }).onCtx fun c =>
      { c with
        ack_list := c.ack_list.erase s.tcb.id
        ack_list_cnt := c.ack_list_cnt - 1 }
  else s

/-- `enum ack_opt`. -/
inductive AckOpt where
  | now
  | aggregate
  | wack
  deriving DecidableEq, Repr

/-- `usnet_enqueue_ack`.  The comparison `ack_cnt < ack_cnt + 1` is made on
    `int` and always holds; the six-bit field itself wraps. -/
def usnet_enqueue_ack (s : Conn) (opt : AckOpt) : Conn :=
  usnet_add_ack_list (s.onSnd fun v =>
    match opt with
    | .now => { v with ack_cnt := v.ack_cnt + 1 }
    | .aggregate => { v with ack_cnt := if v.ack_cnt = 0 then 1 else v.ack_cnt }
    | .wack => { v with is_wack := true })

@[simp] theorem usnet_remove_control_list_same (s : Conn) :
    Same s (usnet_remove_control_list s) := by
  unfold usnet_remove_control_list
  split <;> simp

@[simp] theorem queue_control_same (s : Conn) : Same s (queue_control s) := by
  unfold queue_control
  split <;> simp

@[simp] theorem usnet_remove_send_list_same (s : Conn) :
    Same s (usnet_remove_send_list s) := by
  unfold usnet_remove_send_list
  split <;> simp

@[simp] theorem usnet_add_send_list_same (s : Conn) : Same s (usnet_add_send_list s) := by
  unfold usnet_add_send_list
  split
  · simp
  · split <;> simp

@[simp] theorem usnet_add_ack_list_same (s : Conn) : Same s (usnet_add_ack_list s) := by
  unfold usnet_add_ack_list
  split <;> simp

@[simp] theorem usnet_remove_ack_list_same (s : Conn) :
    Same s (usnet_remove_ack_list s) := by
  unfold usnet_remove_ack_list
  split <;> simp

@[simp] theorem usnet_enqueue_ack_same (s : Conn) (opt : AckOpt) :
    Same s (usnet_enqueue_ack s opt) := by
  unfold usnet_enqueue_ack
  cases opt with
  | now => simp
  | wack => simp
  | aggregate => simp

/-! ## Section 4: Timer lists -/

/-- `TAILQ_INSERT_TAIL` on one bucket. -/
def RtoStore.insert (hs : RtoStore) (idx id : Nat) : RtoStore :=
  { hs with rto_list := Function.update hs.rto_list idx (hs.rto_list idx ++ [id]) }

/-- `TAILQ_REMOVE` on one bucket. -/
def RtoStore.remove (hs : RtoStore) (idx id : Nat) : RtoStore :=
  { hs with rto_list := Function.update hs.rto_list idx ((hs.rto_list idx).erase id) }

/-- `usnet_add_rto_list`.  The bucket is computed in unsigned arithmetic, so it
    is below `RTO_HASH` whatever the sign of `diff`. -/
def usnet_add_rto_list (s : Conn) : Conn :=
  let s := if s.ctx.rto_list_cnt = 0 then
      s.onCtx fun c => { c with
        rto_store := { c.rto_store with
          rto_now_idx := 0
          rto_now_ts := s.tcb.sndvar.ts_rto } }
    else s
  if s.tcb.on_rto_idx < 0 then
    if s.tcb.on_timewait_list then s
    else
      let diff := s.tcb.sndvar.ts_rto - s.ctx.rto_store.rto_now_ts
      let idx := if sint diff < RTO_HASH.toNat then
          (diff + s.ctx.rto_store.rto_now_idx) % RTO_HASH
        else RTO_HASH
      (s.onTcb fun t => { t with on_rto_idx := idx.toNat }).onCtx fun c => { c with
        rto_store := c.rto_store.insert idx.toNat s.tcb.id
        rto_list_cnt := c.rto_list_cnt + 1 }
  else s

def usnet_remove_rto_list (s : Conn) : Conn :=
  if s.tcb.on_rto_idx < 0 then s
  else
    (s.onTcb fun t => { t with on_rto_idx := -1 }).onCtx fun c => { c with
      rto_store := c.rto_store.remove s.tcb.on_rto_idx.toNat s.tcb.id
      rto_list_cnt := c.rto_list_cnt - 1 }

def usnet_add_timewait_list (s : Conn) : Except Fault Conn :=
  let s := s.onRcv fun v => { v with ts_tw_expire := s.ctx.cur_time + u32 s.ctx.tcp_timewait }
  if s.tcb.on_timewait_list then
    .ok (s.onCtx fun c => { c with
      timewait_list := c.timewait_list.erase s.tcb.id ++ [s.tcb.id] })
  else if s.tcb.on_rto_idx ≥ 0 then .error .timewait_assert
  else
    .ok ((s.onTcb fun t => { t with on_timewait_list := true }).onCtx fun c => { c with
      timewait_list := c.timewait_list ++ [s.tcb.id]
      timewait_list_cnt := c.timewait_list_cnt + 1 })

/-- The body of `usnet_remove_timewait_list` behind its assertion. -/
def unlink_timewait (s : Conn) : Conn :=
  (s.onTcb fun t => { t with on_timewait_list := false }).onCtx fun c => { c with
    timewait_list := c.timewait_list.erase s.tcb.id
    timewait_list_cnt := c.timewait_list_cnt - 1 }

def usnet_remove_timewait_list (s : Conn) : Except Fault Conn :=
  if s.tcb.on_timewait_list then .ok (unlink_timewait s) else .error .timewait_assert

def usnet_add_timeout_list (s : Conn) : Except Fault Conn :=
  if s.tcb.on_timeout_list then .error .timeout_assert
  else
    .ok ((s.onTcb fun t => { t with on_timeout_list := true }).onCtx fun c => { c with
      timeout_list := c.timeout_list ++ [s.tcb.id]
      timeout_list_cnt := c.timeout_list_cnt + 1 })

def usnet_remove_timeout_list (s : Conn) : Conn :=
  if s.tcb.on_timeout_list then
    (s.onTcb fun t => { t with on_timeout_list := false }).onCtx fun c => { c with
      timeout_list := c.timeout_list.erase s.tcb.id
      timeout_list_cnt := c.timeout_list_cnt - 1 }
  else s

/-- `usnet_update_timeout_list`, and `usnet_update_timerlist` of tcp.c. -/
def usnet_update_timeout_list (s : Conn) : Conn :=
  if s.tcb.on_timeout_list then
    s.onCtx fun c => { c with timeout_list := c.timeout_list.erase s.tcb.id ++ [s.tcb.id] }
  else s

@[simp] theorem usnet_add_rto_list_same (s : Conn) : Same s (usnet_add_rto_list s) := by
  unfold usnet_add_rto_list
  by_cases hcnt : s.ctx.rto_list_cnt = 0
  · by_cases hidx : s.tcb.on_rto_idx < 0
    · by_cases htw : s.tcb.on_timewait_list <;> simp [hcnt, hidx, htw]
    · simp [hcnt, hidx]
  · by_cases hidx : s.tcb.on_rto_idx < 0
    · by_cases htw : s.tcb.on_timewait_list <;> simp [hcnt, hidx, htw]
    · simp [hcnt, hidx]

@[simp] theorem usnet_remove_rto_list_same (s : Conn) :
    Same s (usnet_remove_rto_list s) := by
  unfold usnet_remove_rto_list
  split <;> simp

@[simp] theorem unlink_timewait_same (s : Conn) : Same s (unlink_timewait s) := by
  simp [unlink_timewait]

@[simp] theorem usnet_remove_timeout_list_same (s : Conn) :
    Same s (usnet_remove_timeout_list s) := by
  unfold usnet_remove_timeout_list
  split <;> simp

@[simp] theorem usnet_update_timeout_list_same (s : Conn) :
    Same s (usnet_update_timeout_list s) := by
  unfold usnet_update_timeout_list
  split <;> simp

@[simp] theorem usnet_update_timeout_list_tcb (s : Conn) :
    (usnet_update_timeout_list s).tcb = s.tcb := by
  unfold usnet_update_timeout_list
  split <;> rfl

theorem usnet_add_timeout_list_same {s s' : Conn} (h : usnet_add_timeout_list s = .ok s') :
    Same s s' := by
  unfold usnet_add_timeout_list at h
  split at h
  · cases h
  · obtain rfl := Except.ok.inj h
    simp

/-! ## Section 5: Release -/

/-- The unlinking in `usnet_release_tcb`. -/
def unlink_tcb (s : Conn) : Conn :=
  let s := usnet_remove_control_list s
  let s := usnet_remove_send_list s
  let s := usnet_remove_ack_list s
  let s := if s.tcb.on_rto_idx ≥ 0 then usnet_remove_rto_list s else s
  let s := if s.tcb.on_timewait_list then unlink_timewait s else s
  if s.ctx.tcp_timeout > 0 then usnet_remove_timeout_list s else s

/-- `usnet_release_tcb`.  The slots of the two rings are emptied together with
    the block's own, so an empty block also has no ring to be found. -/
def usnet_release_tcb (s : Conn) : Conn := (unlink_tcb s).onTcb usnet_tcb_setempty

@[simp] theorem unlink_tcb_same (s : Conn) : Same s (unlink_tcb s) := by
  unfold unlink_tcb
  simp only
  split
  all_goals split
  all_goals split
  all_goals simp

@[simp] theorem usnet_release_tcb_kept (s : Conn) :
    Kept s (usnet_release_tcb s) ∧ (usnet_release_tcb s).tcb.state = s.tcb.state ∧
    (usnet_release_tcb s).tcb.snd_nxt = s.tcb.snd_nxt ∧
    (usnet_release_tcb s).tcb.sndvar.is_fin_sent = s.tcb.sndvar.is_fin_sent ∧
    (usnet_release_tcb s).ctx.frames = s.ctx.frames := by
  simp [usnet_release_tcb, usnet_tcb_setempty]

@[simp] theorem usnet_release_tcb_empty (s : Conn) :
    usnet_tcb_isempty (usnet_release_tcb s).tcb = true := rfl

end Usnet
