import Usnet.TcpOpen

/-! # Input (tcp.c)

    From a segment to the state it leaves the connection in: the payload, the
    sequence check, the reset, the handler of each state and their dispatch.
-/

namespace Usnet

open CInt

/-! ## Section 1: Payload -/

/-- The receive buffer, obtained on first use. -/
def receive_buffer (s : Conn) : Option UsnRingbuf :=
  match s.tcb.rcvvar.rcvbuf with
  | some buf => some buf
  | none =>
    usnet_get_ringbuf s.ctx.ringbuf_cache RINGBUF_SIZE s.tcb.fd (s.tcb.rcvvar.irs + 1)

/-- `usnet_process_tcp_payload` once there is a receive buffer. -/
def store_payload (s : Conn) (buf : UsnRingbuf) (seg : Segment) : Except Fault (Int × Conn) :=
  let s := s.onCtx fun c => { c with applied := c.applied ++ [.payload] }
  let prev_rcv_nxt := s.tcb.rcv_nxt
  match usnet_insert_fragment s.ctx.frag_mp buf seg.payload seg.seq with
  | none => .error .bad_copy
  | some (_, buf) =>
    -- the result of the insertion is only logged
    let s := s.onTcb fun t => { t with rcv_nxt := buf.head_seq }
    let s := s.onRcv fun v => { v with rcvbuf := some buf, rcv_wnd := buf.win }
    if TCP_SEQ_LEQ s.tcb.rcv_nxt prev_rcv_nxt then .ok (-1, s)
    else if s.tcb.state = .established then .ok (0, usnet_raise_read_event s)
    else .ok (0, s)

/-- `usnet_process_tcp_payload`. -/
def usnet_process_tcp_payload (s : Conn) (seg : Segment) : Except Fault (Int × Conn) :=
  if TCP_SEQ_LT (seg.seq + seg.payloadlen) s.tcb.rcv_nxt then .ok (-1, s)
  else if TCP_SEQ_GT (seg.seq + seg.payloadlen) (s.tcb.rcv_nxt + s.tcb.rcvvar.rcv_wnd) then
    .ok (-2, s)
  else
    match receive_buffer s with
    | none =>
      .ok (-3, usnet_raise_error_event <|
        s.onTcb fun t => { t with state := .closed, close_reason := .no_mem })
    | some buf => store_payload s buf seg

/-! ## Section 2: The sequence check -/

/-- The timestamp half of `usnet_validate_seq`. -/
def validate_timestamp (s : Conn) (seg : Segment) : Except Fault (Int × Conn) :=
  if seg.has TH_RST = false ∧ s.tcb.saw_timestamp then
    match usnet_parse_tcptimestamp seg with
    | .error e => .error e
    | .ok none => .ok (-1, s)
    | .ok (some (ts_val, ts_ref)) =>
      if TCP_SEQ_LT ts_val s.tcb.rcvvar.ts_recent then .ok (-2, usnet_enqueue_ack s .now)
      else
        .ok (0, s.onRcv fun v =>
          { v with
            ts_last_ts_upd := if TCP_SEQ_GT ts_val v.ts_recent then s.ctx.cur_time
              else v.ts_last_ts_upd
            ts_recent := ts_val
            ts_lastack_rcvd := ts_ref })
  else .ok (0, s)

/-- The end of the segment lies in the receive window, both ends included. -/
def in_window (tcb : UsnTcb) (seg : Segment) : Prop :=
  TCP_SEQ_BETWEEN (seg.seq + seg.payloadlen) tcb.rcv_nxt
    (tcb.rcv_nxt + tcb.rcvvar.rcv_wnd - 1)

instance (tcb : UsnTcb) (seg : Segment) : Decidable (in_window tcb seg) :=
  inferInstanceAs (Decidable (TCP_SEQ_BETWEEN _ _ _))

/-- The answer of `usnet_validate_seq` to a segment outside the window. -/
def reject_seq (s : Conn) (seg : Segment) : Except Fault (Int × Conn) :=
  if seg.has TH_RST then .ok (-3, s)
  else if s.tcb.state = .established then
    if seg.seq + 1 = s.tcb.rcv_nxt then .ok (-4, usnet_enqueue_ack s .aggregate)
    else if TCP_SEQ_LEQ seg.seq s.tcb.rcv_nxt then .ok (-5, usnet_enqueue_ack s .aggregate)
    else .ok (-5, usnet_enqueue_ack s .now)
  else if s.tcb.state = .time_wait then
    match usnet_add_timewait_list s with
    | .error e => .error e
    | .ok s => .ok (-5, usnet_add_control_list s)
  else .ok (-5, usnet_add_control_list s)

/-- `usnet_validate_seq`. -/
def usnet_validate_seq (s : Conn) (seg : Segment) : Except Fault (Int × Conn) :=
  match validate_timestamp s seg with
  | .error e => .error e
  | .ok (r, s) =>
    if r < 0 then .ok (r, s)
    else if in_window s.tcb seg then .ok (0, s)
    else reject_seq s seg

/-! ## Section 3: Reset -/

/-- `usnet_handle_rst`. -/
def usnet_handle_rst (s : Conn) (ack_seq : UInt32) : Int × Conn :=
  match s.tcb.state with
  | .closed | .listen | .syn_sent => (-1, s)
  | .syn_received =>
    if ack_seq = s.tcb.rcv_nxt then
      (0, usnet_release_tcb <|
        s.onTcb fun t => { t with state := .closed, close_reason := .reset })
    else (0, s)
  | .fin_wait_1 | .fin_wait_2 | .last_ack | .closing | .time_wait =>
    (0, usnet_release_tcb <|
      s.onTcb fun t => { t with state := .closed, close_reason := .active_close })
  | .established | .close_wait =>
    let v := s.tcb.sndvar
    if v.on_closeq || v.on_closeq_int || v.on_resetq || v.on_resetq_int then (0, s)
    else
      (0, usnet_raise_tcp_event <|
        s.onTcb fun t => { t with state := .close_wait, close_reason := .reset })

/-! ## Section 4: The handlers up to the established state -/

/-- `usnet_handle_listen`. -/
def usnet_handle_listen (s : Conn) (seg : Segment) : Conn :=
  if seg.has TH_SYN then
    usnet_raise_connect_event <|
      s.onTcb fun t => { t with state := .syn_received, rcv_nxt := t.rcv_nxt + 1 }
  else s

/-- `usnet_handle_syn_sent`.  A SYN with an acknowledgement ends in
    `usnet_handle_active_open`, which returns 0 at once. -/
def usnet_handle_syn_sent (s : Conn) (seg : Segment) : Conn :=
  if seg.has TH_ACK ∧ (TCP_SEQ_LEQ seg.ack_seq s.tcb.sndvar.iss ∨
      TCP_SEQ_GT seg.ack_seq s.tcb.snd_nxt) then
    if seg.has TH_RST then s
    else s.onCtx fun c => reply_rst c seg seg.ack_seq 0 TH_RST
  else
    let s := if seg.has TH_ACK then s.onSnd fun v => { v with snd_una := v.snd_una + 1 }
      else s
    if seg.has TH_RST then
      if seg.has TH_ACK then
        let s := s.onTcb fun t => { t with state := .close_wait, close_reason := .reset }
        if s.tcb.socket.isSome then usnet_raise_error_event s else usnet_release_tcb s
      else s
    else if seg.has TH_SYN ∧ ¬ seg.has TH_ACK then
      usnet_add_control_list <|
        s.onTcb fun t => { t with state := .syn_received, snd_nxt := t.sndvar.iss }
    else s

/-- The end of the handshake in `usnet_handle_syn_received`. -/
def establish (s : Conn) (seg : Segment) : Except Fault Conn :=
  let s := s.onSnd fun v =>
    { v with
      snd_una := v.snd_una + 1
      cwnd := if v.cwnd = 1 then v.mss.toUInt32 * 2 else v.mss.toUInt32
      nrtx := 0 }
  let s := usnet_remove_rto_list (s.onTcb fun t => { t with snd_nxt := seg.ack_seq })
  let s := s.onTcb fun t => { t with state := .established }
  if s.ctx.tcp_timeout > 0 then usnet_add_timeout_list s else .ok s

/-- `usnet_handle_syn_received`. -/
def usnet_handle_syn_received (s : Conn) (seg : Segment) : Except Fault Conn :=
  if seg.has TH_ACK then
    if seg.ack_seq ≠ s.tcb.sndvar.iss + 1 then .ok s else establish s seg
  else
    .ok (usnet_add_control_list <| s.onTcb fun t => { t with snd_nxt := t.sndvar.iss })

/-- The call of `usnet_process_ack` where there is a send buffer. -/
def process_ack_if_buffered (s : Conn) (seg : Segment) : Except Fault Conn :=
  match s.tcb.sndvar.sndbuf with
  | none => .ok s
  | some buf =>
    match usnet_process_ack s buf seg with
    | .error e => .error e
    | .ok (_, s) => .ok s

/-- The payload part of a handler; `stored` and `refused` are the ways of
    acknowledging it. -/
def handle_payload (s : Conn) (seg : Segment) (stored refused : AckOpt) :
    Except Fault Conn :=
  if seg.payload.length > 0 then
    match usnet_process_tcp_payload s seg with
    | .error e => .error e
    | .ok (ret, s) => .ok (usnet_enqueue_ack s (if ret = 0 then stored else refused))
  else .ok s

/-- The acknowledgement part of `usnet_handle_established`. -/
def established_ack (s : Conn) (seg : Segment) : Except Fault Conn :=
  if seg.has TH_ACK then process_ack_if_buffered s seg else .ok s

/-- The FIN part of `usnet_handle_established`. -/
def established_fin (s : Conn) (seg : Segment) : Conn :=
  if seg.has TH_FIN then
    if seg.seq = s.tcb.rcv_nxt then
      let s := s.onTcb fun t => { t with state := .close_wait, rcv_nxt := t.rcv_nxt + 1 }
      usnet_raise_tcp_event (usnet_add_control_list s)
    else usnet_enqueue_ack s .now
  else s

/-- `usnet_handle_established`. -/
def usnet_handle_established (s : Conn) (seg : Segment) : Except Fault Conn :=
  if seg.has TH_SYN then
    .ok (usnet_add_control_list <| s.onTcb fun t => { t with snd_nxt := seg.ack_seq })
  else do
    let s ← handle_payload s seg .aggregate .now
    let s ← established_ack s seg
    return established_fin s seg

/-! ## Section 5: The handlers of a connection being closed -/

/-- `usnet_handle_close_wait`, which does not look at the ACK flag. -/
def usnet_handle_close_wait (s : Conn) (seg : Segment) : Except Fault Conn :=
  if TCP_SEQ_LT seg.seq s.tcb.rcv_nxt then .ok (usnet_add_control_list s)
  else process_ack_if_buffered s seg

/-- The acknowledgement of a FIN in `usnet_handle_fin_wait1`. -/
def fin_acked (s : Conn) (seg : Segment) : Conn :=
  if s.tcb.sndvar.is_fin_sent ∧ seg.ack_seq = s.tcb.sndvar.fss + 1 then
    let s := s.onSnd fun v => { v with snd_una := seg.ack_seq, nrtx := 0 }
    let s := s.onTcb fun t =>
      { t with snd_nxt := if TCP_SEQ_GT seg.ack_seq t.snd_nxt then seg.ack_seq
          else t.snd_nxt }
    (usnet_remove_rto_list s).onTcb fun t => { t with state := .fin_wait_2 }
  else s

/-- The FIN part of `usnet_handle_fin_wait1`. -/
def fin_wait1_fin (s : Conn) (seg : Segment) : Except Fault Conn :=
  if seg.has TH_FIN ∧ seg.seq = s.tcb.rcv_nxt then
    let s := s.onTcb fun t => { t with rcv_nxt := t.rcv_nxt + 1 }
    match s.tcb.state with
    | .fin_wait_1 => .ok (usnet_add_control_list (s.onTcb fun t => { t with state := .closing }))
    | .fin_wait_2 => do
      let s ← usnet_add_timewait_list (s.onTcb fun t => { t with state := .time_wait })
      return usnet_add_control_list s
    | _ => .ok (usnet_add_control_list s)
  else .ok s

/-- `usnet_handle_fin_wait1`. -/
def usnet_handle_fin_wait1 (s : Conn) (seg : Segment) : Except Fault Conn :=
  if TCP_SEQ_LT seg.seq s.tcb.rcv_nxt then .ok (usnet_add_control_list s)
  else if seg.has TH_ACK then do
    let s ← process_ack_if_buffered s seg
    let s ← handle_payload (fin_acked s seg) seg .now .aggregate
    fin_wait1_fin s seg
  else .ok s

/-- `usnet_handle_closing`. -/
def usnet_handle_closing (s : Conn) (seg : Segment) : Except Fault Conn :=
  if seg.has TH_ACK then do
    let s ← process_ack_if_buffered s seg
    if s.tcb.sndvar.is_fin_sent = false then return s
    else if seg.ack_seq ≠ s.tcb.sndvar.fss + 1 then return s
    else
      let s := s.onSnd fun v => { v with snd_una := seg.ack_seq }
      let s := s.onTcb fun t => { t with snd_nxt := seg.ack_seq }
      let s ← usnet_update_retransmission_timer s
      usnet_add_timewait_list (s.onTcb fun t => { t with state := .time_wait })
  else .ok s

/-- `usnet_handle_last_ack`. -/
def usnet_handle_last_ack (s : Conn) (seg : Segment) : Except Fault Conn :=
  if TCP_SEQ_LT seg.seq s.tcb.rcv_nxt then .ok s
  else if seg.has TH_ACK then do
    let s ← process_ack_if_buffered s seg
    if s.tcb.sndvar.is_fin_sent = false then return s
    else if seg.ack_seq = s.tcb.sndvar.fss + 1 then
      let s := s.onSnd fun v => { v with snd_una := v.snd_una + 1 }
      let s ← usnet_update_retransmission_timer s
      return usnet_release_tcb <|
        s.onTcb fun t => { t with state := .closed, close_reason := .passive_close }
    else return usnet_add_control_list s
  else .ok (usnet_add_control_list s)

/-- `usnet_handle_fin_wait2`. -/
def usnet_handle_fin_wait2 (s : Conn) (seg : Segment) : Except Fault Conn :=
  if seg.has TH_ACK then do
    let s ← process_ack_if_buffered s seg
    let s ← handle_payload s seg .now .aggregate
    if seg.has TH_FIN ∧ seg.seq = s.tcb.rcv_nxt then
      let s := s.onTcb fun t => { t with state := .time_wait, rcv_nxt := t.rcv_nxt + 1 }
      let s ← usnet_add_timewait_list s
      return usnet_add_control_list s
    else return s
  else .ok s

/-- `usnet_handle_time_wait`. -/
def usnet_handle_time_wait (s : Conn) : Except Fault Conn :=
  if s.tcb.on_timewait_list then do
    let s ← usnet_remove_timewait_list s
    let s ← usnet_add_timewait_list s
    return usnet_add_control_list s
  else .ok (usnet_add_control_list s)

/-! ## Section 6: Dispatch -/

/-- The `switch` of `usnet_tcp_input`. -/
def handle_state (s : Conn) (seg : Segment) : Except Fault Conn :=
  match s.tcb.state with
  | .listen => .ok (usnet_handle_listen s seg)
  | .syn_sent => .ok (usnet_handle_syn_sent s seg)
  | .syn_received => usnet_handle_syn_received s seg
  | .established => usnet_handle_established s seg
  | .close_wait => usnet_handle_close_wait s seg
  | .fin_wait_1 => usnet_handle_fin_wait1 s seg
  | .closing => usnet_handle_closing s seg
  | .last_ack => usnet_handle_last_ack s seg
  | .fin_wait_2 => usnet_handle_fin_wait2 s seg
  | .time_wait => usnet_handle_time_wait s
  | .closed => .ok s

/-- What `usnet_tcp_input` notes of every segment it goes on to handle. -/
def note_segment (s : Conn) (seg : Segment) : Conn :=
  let s := s.onSnd fun v =>
    { v with peer_wnd := if seg.has TH_SYN then seg.window.toUInt32
        else seg.window.toUInt32 <<< v.wscale.toUInt32 }
  usnet_update_timeout_list (s.onTcb fun t => { t with last_active_ts := s.ctx.cur_time })

/-- "process RST flag": the result tells whether handling ends here. -/
def process_rst (s : Conn) (seg : Segment) : Bool × Conn :=
  if seg.has TH_RST then
    let s := s.onTcb fun t => { t with have_reset := true }
    if s.tcb.state.val > TcpState.syn_sent.val then
      let r := usnet_handle_rst s seg.ack_seq
      (r.1 ≠ 0, r.2)
    else (false, s)
  else (false, s)

/-- The sequence check of `usnet_tcp_input`, made from SYN_RECEIVED on. -/
def check_segment (s : Conn) (seg : Segment) : Except Fault (Int × Conn) :=
  if s.tcb.state.val ≥ TcpState.syn_received.val then usnet_validate_seq s seg
  else .ok (0, s)

/-- `usnet_tcp_input` for the connection found or created. -/
def input_segment (s : Conn) (seg : Segment) : Except Fault (Int × Conn) := do
  let (ret, s) ← check_segment s seg
  if ret < 0 then return (-3, s)
  else
    let (done, s) := process_rst (note_segment s seg) seg
    if done then return (0, s)
    else
      let s ← handle_state s seg
      return (0, s)

/-- `usnet_tcp_input`, where `found` is the connection the cache holds for the
    segment's addresses. -/
def usnet_tcp_input (c : Ctx) (found : Option UsnTcb) (seg : Segment) :
    Except Fault (Int × Ctx × Option UsnTcb) := do
  let (c, cur_tcb) ← match found with
    | some tcb => .ok (c, some tcb)
    | none => usnet_handle_passive_open c seg
  match cur_tcb with
  | none => return (0, c, none)
  | some tcb =>
    let (ret, s) ← input_segment ⟨c, tcb⟩ seg
    return (ret, s.ctx, some s.tcb)

end Usnet
