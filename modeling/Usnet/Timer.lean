import Usnet.TcpOut

/-! # Timers (timer.c)

    The retransmission timer of a connection and the bodies of the three loops
    that visit the timer lists.
-/

namespace Usnet

open CInt

/-! ## Section 1: Retransmission -/

/-- `usnet_update_retransmission_timer`. -/
def usnet_update_retransmission_timer (s : Conn) : Except Fault Conn :=
  if s.tcb.sndvar.rto = 0 then .error .rto_assert
  else
    let s := s.onSnd fun v => { v with nrtx := 0 }
    let s := if s.tcb.on_rto_idx ≥ 0 then usnet_remove_rto_list s else s
    if TCP_SEQ_GT s.tcb.snd_nxt s.tcb.sndvar.snd_una then
      .ok (usnet_add_rto_list <|
        s.onSnd fun v => { v with ts_rto := s.ctx.cur_time + v.rto })
    else .ok s

/-- `usnet_handle_rto` once the retransmissions are used up. -/
def give_up (s : Conn) : Conn :=
  if s.tcb.state.val < TcpState.established.val then
    usnet_release_tcb <|
      s.onTcb fun t => { t with state := .closed, close_reason := .conn_fail }
  else
    let s := s.onTcb fun t => { t with state := .closed, close_reason := .conn_lost }
    if s.tcb.socket.isSome then usnet_raise_error_event s else usnet_release_tcb s

/-- The backoff of `rto` and of the congestion window in `usnet_handle_rto`. -/
def back_off (s : Conn) : Conn :=
  let s := s.onSnd fun v => { v with nrtx := v.nrtx + 1 }
  let s := s.onSnd fun v => { v with max_nrtx := max v.max_nrtx v.nrtx }
  let s := s.onSnd fun v =>
    if s.tcb.state.val ≥ TcpState.established.val then
      let backoff := min v.nrtx TCP_MAX_BACKOFF
      let rto := ((s.tcb.rcvvar.srtt >>> 3) + s.tcb.rcvvar.rttvar) <<< backoff.toUInt32
      { v with rto := if rto = 0 then v.rto else rto }
    else v
  s.onSnd fun v =>
    { v with
      ssthresh := max (min v.cwnd v.peer_wnd / 2) (2 * v.mss.toUInt32)
      cwnd := v.mss.toUInt32 }

/-- The last part of `usnet_handle_rto`. -/
def retransmit (s : Conn) : Conn :=
  let s := s.onTcb fun t => { t with snd_nxt := t.sndvar.snd_una }
  match s.tcb.state with
  | .established | .close_wait => usnet_add_send_list s
  | .fin_wait_1 | .closing | .last_ack =>
    if TCP_SEQ_LT s.tcb.snd_nxt s.tcb.sndvar.fss then
      usnet_add_send_list <|
        (usnet_remove_control_list s).onTcb fun t => { t with control_list_waiting := true }
    else usnet_add_control_list s
  | _ => usnet_add_control_list s

/-- `usnet_handle_rto`. -/
def usnet_handle_rto (s : Conn) : Except Fault (Int × Conn) :=
  if s.tcb.sndvar.rto = 0 then .error .rto_assert
  else if s.tcb.sndvar.nrtx ≥ TCP_MAX_RTX then .ok (-1, give_up s)
  else
    let s := back_off s
    match s.tcb.state with
    | .syn_sent =>
      if s.tcb.sndvar.nrtx > TCP_MAX_SYN_RETRY then
        let s := s.onTcb fun t => { t with state := .closed, close_reason := .conn_fail }
        .ok (-2, if s.tcb.socket.isSome then usnet_raise_error_event s
          else usnet_release_tcb s)
      else .ok (0, retransmit s)
    | .syn_received | .established | .close_wait | .last_ack | .fin_wait_1 | .closing =>
      .ok (0, retransmit s)
    | _ => .ok (-3, usnet_release_tcb (usnet_raise_error_event s))

theorem usnet_update_retransmission_timer_same {s s' : Conn}
    (h : usnet_update_retransmission_timer s = .ok s') : Same s s' := by
  unfold usnet_update_retransmission_timer at h
  by_cases hrto : s.tcb.sndvar.rto = 0
  · rw [if_pos hrto] at h
    cases h
  · rw [if_neg hrto] at h
    by_cases hidx : s.tcb.on_rto_idx ≥ 0
    · simp only [Conn.onSnd_tcb, hidx, if_true] at h
      split at h
      all_goals obtain rfl := Except.ok.inj h
      all_goals simp
    · simp only [Conn.onSnd_tcb, hidx, if_false] at h
      split at h
      all_goals obtain rfl := Except.ok.inj h
      all_goals simp

/-! ## Section 2: Visits -/

/-- `usnet_check_rtm_timeout` at one connection of the bucket that is due. -/
def rto_visit (s : Conn) : Except Fault Conn :=
  if s.tcb.on_rto_idx ≥ 0 then
    match usnet_handle_rto s with
    | .error e => .error e
    | .ok (_, s) =>
      .ok ((s.onTcb fun t => { t with on_rto_idx := -1 }).onCtx fun c => { c with
        rto_store := c.rto_store.remove c.rto_store.rto_now_idx.toNat s.tcb.id
        rto_list_cnt := c.rto_list_cnt - 1 })
  else .ok s

/-- `usnet_check_timewait_expire` at one connection. -/
def timewait_visit (s : Conn) : Conn :=
  if s.tcb.on_timewait_list ∧ sint (s.ctx.cur_time - s.tcb.rcvvar.ts_tw_expire) ≥ 0 ∧
      s.tcb.sndvar.on_control_list = false then
    usnet_release_tcb <| (unlink_timewait s).onTcb fun t =>
      { t with state := .closed, close_reason := .active_close }
  else s

/-- `usnet_check_connection_timeout` at one connection. -/
def timeout_visit (s : Conn) : Conn :=
  if sint (s.ctx.cur_time - s.tcb.last_active_ts) ≥ s.ctx.tcp_timeout then
    let s := usnet_remove_timeout_list s
    let s := s.onTcb fun t => { t with state := .closed, close_reason := .timedout }
    if s.tcb.socket.isSome then usnet_raise_error_event s else usnet_release_tcb s
  else s

end Usnet
