import Usnet.Lists

/-! # Output (tcp_out.c)

    Building and sending segments, control packets, and the loop that empties
    the send ring onto the wire.
-/

namespace Usnet

open CInt Circular

/-! ## Section 1: Options and standalone packets -/

/-- The four bytes of `htonl`. -/
def be32 (x : UInt32) : List UInt8 :=
  [(x >>> 24).toUInt8, (x >>> 16).toUInt8, (x >>> 8).toUInt8, x.toUInt8]

/-- `usnet_get_tcpopt_length`. -/
def usnet_get_tcpopt_length (flags : UInt8) : UInt16 :=
  if has flags TH_SYN then 20 else if has flags TH_SACK then 24 else 12

/-- `usnet_generate_tcpts`. -/
def usnet_generate_tcpts (ts_recent cur_ts : UInt32) : List UInt8 :=
  [TCPOPT_TIMESTAMP, TCPOLEN_TIMESTAMP] ++ be32 cur_ts ++ be32 ts_recent

/-- `usnet_generate_tcpopts`. -/
def usnet_generate_tcpopts (s : Conn) (flags : UInt8) : List UInt8 :=
  let ts := usnet_generate_tcpts s.tcb.rcvvar.ts_recent s.ctx.cur_time
  if has flags TH_SYN then
    [TCPOPT_MAXSEG, TCPOLEN_MAXSEG, (s.tcb.sndvar.mss >>> 8).toUInt8,
      s.tcb.sndvar.mss.toUInt8] ++
    [TCPOPT_NOP, TCPOPT_NOP] ++ ts ++
    [TCPOPT_NOP, TCPOPT_WINDOW, TCPOLEN_WINDOW, s.tcb.sndvar.wscale]
  else [TCPOPT_NOP, TCPOPT_NOP] ++ ts

/-- The assertion at the end of `usnet_generate_tcpopts`, for the flags its
    callers pass. -/
theorem usnet_generate_tcpopts_length (s : Conn) {flags : UInt8}
    (h : has flags TH_SYN ∨ ¬ has flags TH_SACK) :
    (usnet_generate_tcpopts s flags).length = (usnet_get_tcpopt_length flags).toNat := by
  unfold usnet_generate_tcpopts usnet_get_tcpopt_length
  by_cases hsyn : has flags TH_SYN
  · simp [hsyn, usnet_generate_tcpts, be32]
  · have hsack : ¬ has flags TH_SACK := h.resolve_left hsyn
    simp [hsyn, hsack, usnet_generate_tcpts, be32]

/-- `usnet_ipv4_output` and `usnet_ipv4_output_alone` as far as they succeed:
    the hardware address is known and the interface has a free slot. -/
def usnet_ipv4_output (c : Ctx) : Bool × Ctx :=
  match c.tx with
  | [] => (false, c)
  | ok :: tx => (ok, { c with tx := tx })

/-- `usnet_send_tcp_packet_alone`, for a segment that belongs to no connection. -/
def usnet_send_tcp_packet_alone (c : Ctx) (saddr : UInt32) (sport : UInt16)
    (daddr : UInt32) (dport : UInt16) (seq ack_seq : UInt32) (window : UInt16)
    (flags : UInt8) (payload : List UInt8) (cur_ts echo_ts : UInt32) : Int × Ctx :=
  let optlen := (usnet_get_tcpopt_length flags).toNat
  if payload.length > TCP_DEFAULT_MSS.toNat + optlen then (-1, c)
  else
    let (ok, c) := usnet_ipv4_output c
    if ok = false then (-2, c)
    else
      let frame : Frame :=
        { saddr := saddr, daddr := daddr, sport := sport, dport := dport, seq := seq
          ack := if has flags TH_ACK then ack_seq else 0
          flags := flags, window := window
          opts := [TCPOPT_NOP, TCPOPT_NOP, TCPOPT_TIMESTAMP, TCPOLEN_TIMESTAMP] ++
            be32 cur_ts ++ be32 echo_ts ++ List.replicate (optlen - 12) 0
          payload := payload }
      (payload.length + (if has flags (TH_SYN ||| TH_FIN) then 1 else 0),
        { c with frames := c.frames ++ [frame] })

/-! ## Section 2: Packets of a connection -/

/-- The segment `usnet_send_tcp_packet` builds. -/
def tcp_packet (s : Conn) (flags : UInt8) (payload : List UInt8) : Frame :=
  let wscale := if has flags TH_SYN then 0 else s.tcb.sndvar.wscale
  { saddr := s.tcb.saddr, daddr := s.tcb.daddr
    sport := s.tcb.sport, dport := s.tcb.dport
    seq := if has flags TH_WACK then s.tcb.snd_nxt - 1
      else if has flags TH_FIN then s.tcb.sndvar.fss
      else s.tcb.snd_nxt
    ack := if has flags TH_ACK then s.tcb.rcv_nxt else 0
    flags := flags
    window := (s.tcb.rcvvar.rcv_wnd >>> wscale.toUInt32).toUInt16
    opts := usnet_generate_tcpopts s flags
    payload := payload }

/-- A FIN is noted when its header is filled in. -/
def note_fin (s : Conn) (flags : UInt8) : Conn :=
  if has flags TH_WACK then s
  else if has flags TH_FIN then s.onSnd fun v => { v with is_fin_sent := true }
  else s

/-- So is an acknowledgement. -/
def note_ack (s : Conn) (flags : UInt8) : Conn :=
  if has flags TH_ACK then
    usnet_update_timeout_list <|
      (s.onSnd fun v => { v with ts_lastack_sent := s.ctx.cur_time }).onTcb fun t =>
        { t with last_active_ts := s.ctx.cur_time }
  else s

/-- A window of zero has to be advertised again later. -/
def note_window (s : Conn) (flags : UInt8) : Conn :=
  let wscale := if has flags TH_SYN then 0 else s.tcb.sndvar.wscale
  if s.tcb.rcvvar.rcv_wnd >>> wscale.toUInt32 = 0 then
    s.onTcb fun t => { t with need_wnd_adv := true }
  else s

/-- What `usnet_send_tcp_packet` notes while it fills in the header. -/
def note_header (s : Conn) (flags : UInt8) : Conn :=
  note_window (note_ack (note_fin s flags) flags) flags

/-- The sequence number taken by a SYN or a FIN. -/
def synfin (flags : UInt8) : Int := if has flags (TH_SYN ||| TH_FIN) then 1 else 0

/-- The retransmission timer is armed for what occupies sequence numbers. -/
def arm_rto (s : Conn) (payloadlen : Int) : Conn :=
  if payloadlen > 0 then
    usnet_add_rto_list <| s.onSnd fun v => { v with ts_rto := s.ctx.cur_time + v.rto }
  else s

/-- The end of `usnet_send_tcp_packet`: `snd_nxt` moves, the timer is armed and
    the segment goes out. -/
def transmit (s : Conn) (frame : Frame) : Int × Conn :=
  let payloadlen : Int := frame.payload.length
  let s := s.onTcb fun t =>
    { t with snd_nxt := t.snd_nxt + u32 payloadlen + u32 (synfin frame.flags) }
  let payloadlen := payloadlen + synfin frame.flags
  (payloadlen, (arm_rto s payloadlen).onCtx fun c => { c with frames := c.frames ++ [frame] })

/-- `usnet_send_tcp_packet`. -/
def usnet_send_tcp_packet (s : Conn) (flags : UInt8) (payload : List UInt8) : Int × Conn :=
  let optlen := usnet_get_tcpopt_length flags
  if payload.length > s.tcb.sndvar.mss.toNat + optlen.toNat then (-1, s)
  else
    let (ok, ctx) := usnet_ipv4_output s.ctx
    let s := s.onCtx fun _ => ctx
    if ok = false then (-2, s)
    else transmit (note_header s flags) (tcp_packet s flags payload)

/-- `usnet_send_control_packet`. -/
def usnet_send_control_packet (s : Conn) : Int × Conn :=
  let busy := s.tcb.sndvar.on_send_list || s.tcb.sndvar.on_ack_list
  let sent_ack := fun (r : Int × Conn) => (r.1, usnet_remove_ack_list r.2)
  match s.tcb.state with
  | .syn_sent => usnet_send_tcp_packet s TH_SYN []
  | .syn_received =>
    sent_ack (usnet_send_tcp_packet
      (s.onTcb fun t => { t with snd_nxt := t.sndvar.iss }) (TH_SYN ||| TH_ACK) [])
  | .established | .close_wait | .fin_wait_2 | .time_wait =>
    sent_ack (usnet_send_tcp_packet s TH_ACK [])
  | .last_ack | .fin_wait_1 =>
    if busy then (-1, s) else sent_ack (usnet_send_tcp_packet s (TH_FIN ||| TH_ACK) [])
  | .closing =>
    if s.tcb.sndvar.is_fin_sent then
      if s.tcb.snd_nxt = s.tcb.sndvar.fss then
        sent_ack (usnet_send_tcp_packet s (TH_FIN ||| TH_ACK) [])
      else sent_ack (usnet_send_tcp_packet s TH_ACK [])
    else sent_ack (usnet_send_tcp_packet s (TH_FIN ||| TH_ACK) [])
  | .closed =>
    if busy then (-1, s)
    else
      let r := usnet_send_tcp_packet s TH_RST []
      if r.1 ≥ 0 then (r.1, usnet_release_tcb r.2) else r
  | .listen => (0, s)

/-- `usnet_add_control_list`, which first tries to send. -/
def usnet_add_control_list (s : Conn) : Conn :=
  let r := usnet_send_control_packet s
  if r.1 < 0 then queue_control r.2 else usnet_remove_control_list r.2

/-! ## Section 3: The send loop -/

/-- `TS_TO_MSEC`, with the product taken modulo `2^32`. -/
def TS_TO_MSEC (t : UInt32) : UInt32 := t * 1000 / 1000

/-- The number of bytes one turn of the loop in `usnet_flush_tcp_sendbuf` tries
    to send, of the `buffered_len` it finds. -/
def flush_len (buf : UsnSendbuf) (maxlen buffered_len : UInt32) : UInt16 :=
  let len := if buffered_len > maxlen then maxlen.toUInt16 else buffered_len.toUInt16
  let tail_len := sint (buf.size - buf.tail)
  if (len.toNat : Int) ≥ tail_len then u16 tail_len else len

/-- How one turn of the loop ends. -/
inductive FlushTurn where
  | stop (r : Int) (s : Conn)
  | again (s : Conn) (buf : UsnSendbuf) (head : UInt32)

/-- Where a turn of the send loop leads. -/
def FlushTurn.conn : FlushTurn → Conn
  | .stop _ s => s
  | .again s _ _ => s

/-- `buffered_len`, the bytes between two positions of the ring. -/
def buffered (size head tail : UInt32) : UInt32 :=
  if tail ≥ head then tail - head else size + tail - head

/-- The position behind the bytes just sent. -/
def next_head (size head : UInt32) (sndlen : Int) : UInt32 :=
  if head + u32 sndlen ≥ size then head + u32 sndlen - size else head + u32 sndlen

/-- The last part of a turn: the segment is sent and `head` moves behind it. -/
def send_turn (s : Conn) (buf : UsnSendbuf) (head : UInt32) (len : UInt16) : FlushTurn :=
  let data := slice buf.data_ptr head.toNat len.toNat
  let r := usnet_send_tcp_packet s TH_ACK data
  let sndlen := s16 r.1
  if sndlen < 0 then .stop sndlen r.2
  else
    let head := next_head buf.size head sndlen
    let buf := { buf with sent_head := head }
    .again (r.2.onSnd fun v => { v with sndbuf := some buf }) buf head

/-- The window does not hold the segment: a zero window may have to be asked for. -/
def no_window (s : Conn) (len : UInt16) : FlushTurn :=
  if s.tcb.snd_nxt - s.tcb.sndvar.snd_una + len.toUInt32 > s.tcb.sndvar.peer_wnd ∧
      TS_TO_MSEC (s.ctx.cur_time - s.tcb.sndvar.ts_lastack_sent) > 500 then
    .stop (-3) (usnet_enqueue_ack s .wack)
  else .stop (-3) s

/-- One turn of the loop in `usnet_flush_tcp_sendbuf`. -/
def flush_turn (s : Conn) (buf : UsnSendbuf) (maxlen window head tail : UInt32)
    (packets : Int) : Except Fault FlushTurn :=
  let seq := s.tcb.snd_nxt
  if TCP_SEQ_LT seq buf.head_seq then .error .invalid_sequence
  else
    let buffered_len := buffered buf.size head tail
    let len := flush_len buf maxlen buffered_len
    if buffered_len = 0 then .ok (.stop packets s)
    else if len = 0 then .ok (.stop packets s)
    else if seq - s.tcb.sndvar.snd_una + len.toUInt32 > window then .ok (no_window s len)
    else .ok (send_turn s buf head len)

/-- The loop of `usnet_flush_tcp_sendbuf`; each turn that continues has sent at
    least one byte. -/
def flush_loop (maxlen window tail : UInt32) :
    Nat → Conn → UsnSendbuf → UInt32 → Int → Except Fault (Int × Conn)
  | 0, _, _, _, _ => .error .endless_loop
  | fuel + 1, s, buf, head, packets =>
    match flush_turn s buf maxlen window head tail packets with
    | .error e => .error e
    | .ok (.stop r s) => .ok (r, s)
    | .ok (.again s buf head) => flush_loop maxlen window tail fuel s buf head (packets + 1)

/-- `usnet_flush_tcp_sendbuf`. -/
def usnet_flush_tcp_sendbuf (s : Conn) : Except Fault (Int × Conn) :=
  match s.tcb.sndvar.sndbuf with
  | none => .error .no_send_buffer
  | some buf =>
    if buf.head = buf.tail then .ok (0, s)
    else
      let maxlen := s.tcb.sndvar.mss.toUInt32 - (usnet_get_tcpopt_length TH_ACK).toUInt32
      flush_loop maxlen (min s.tcb.sndvar.cwnd s.tcb.sndvar.peer_wnd) buf.tail
        (buf.size.toNat + 1) s buf buf.sent_head 0

/-! ## Section 4: What sending changes -/

@[simp] theorem usnet_ipv4_output_ctx (c : Ctx) :
    (usnet_ipv4_output c).2 = { c with tx := c.tx.tail } := by
  unfold usnet_ipv4_output
  split
  · rename_i h
    rw [h, List.tail_nil, ← h]
  · rename_i h
    rw [h, List.tail_cons]

@[simp] theorem note_fin_kept (s : Conn) (flags : UInt8) :
    Kept s (note_fin s flags) ∧ SameState s (note_fin s flags) ∧
    (note_fin s flags).tcb.snd_nxt = s.tcb.snd_nxt ∧
    (note_fin s flags).ctx.frames = s.ctx.frames := by
  unfold note_fin
  split
  · simp
  · split <;> simp

@[simp] theorem note_ack_same (s : Conn) (flags : UInt8) : Same s (note_ack s flags) := by
  unfold note_ack
  split <;> simp

@[simp] theorem note_window_same (s : Conn) (flags : UInt8) :
    Same s (note_window s flags) := by
  unfold note_window
  simp only
  split
  all_goals split
  all_goals simp

@[simp] theorem note_header_kept (s : Conn) (flags : UInt8) :
    Kept s (note_header s flags) ∧ SameState s (note_header s flags) ∧
    (note_header s flags).tcb.snd_nxt = s.tcb.snd_nxt ∧
    (note_header s flags).ctx.frames = s.ctx.frames := by
  simp [note_header]

@[simp] theorem arm_rto_same (s : Conn) (payloadlen : Int) :
    Same s (arm_rto s payloadlen) := by
  unfold arm_rto
  split <;> simp

@[simp] theorem transmit_kept (s : Conn) (frame : Frame) :
    Kept s (transmit s frame).2 ∧ SameState s (transmit s frame).2 ∧
    (transmit s frame).2.tcb.sndvar.is_fin_sent = s.tcb.sndvar.is_fin_sent ∧
    (transmit s frame).2.tcb.snd_nxt = s.tcb.snd_nxt + u32 (transmit s frame).1 ∧
    (transmit s frame).2.ctx.frames = s.ctx.frames ++ [frame] := by
  simp [transmit, u32_add, UInt32.add_assoc]

/-- No packet changes more than `snd_nxt`, the marks and the timers. -/
@[simp] theorem usnet_send_tcp_packet_kept (s : Conn) (flags : UInt8)
    (payload : List UInt8) :
    Kept s (usnet_send_tcp_packet s flags payload).2 ∧
    SameState s (usnet_send_tcp_packet s flags payload).2 := by
  unfold usnet_send_tcp_packet
  simp only
  split
  · simp
  · split <;> simp

/-- A packet is refused without effect on the sequence numbers, or it goes out
    and `snd_nxt` moves past it. -/
theorem usnet_send_tcp_packet_cases (s : Conn) (flags : UInt8) (payload : List UInt8) :
    ((usnet_send_tcp_packet s flags payload).1 < 0 ∧
      Same s (usnet_send_tcp_packet s flags payload).2) ∨
    ((usnet_send_tcp_packet s flags payload).1 = payload.length + synfin flags ∧
      (usnet_send_tcp_packet s flags payload).2.tcb.snd_nxt
        = s.tcb.snd_nxt + u32 (payload.length + synfin flags) ∧
      (usnet_send_tcp_packet s flags payload).2.ctx.frames
        = s.ctx.frames ++ [tcp_packet s flags payload]) := by
  unfold usnet_send_tcp_packet
  simp only
  by_cases hlen : payload.length > s.tcb.sndvar.mss.toNat +
      (usnet_get_tcpopt_length flags).toNat
  · rw [if_pos hlen]
    exact .inl (by simp)
  · rw [if_neg hlen]
    by_cases hok : (usnet_ipv4_output s.ctx).1 = false
    · rw [if_pos hok]
      exact .inl (by simp)
    · rw [if_neg hok]
      right
      simp [transmit, tcp_packet, usnet_generate_tcpopts, u32_add, UInt32.add_assoc]

/-- The two ways of being refused. -/
theorem usnet_send_tcp_packet_refused {s : Conn} {flags : UInt8} {payload : List UInt8}
    (h : (usnet_send_tcp_packet s flags payload).1 < 0) :
    (usnet_send_tcp_packet s flags payload).1 = -1 ∨
    (usnet_send_tcp_packet s flags payload).1 = -2 := by
  unfold usnet_send_tcp_packet at *
  simp only at *
  by_cases hlen : payload.length > s.tcb.sndvar.mss.toNat +
      (usnet_get_tcpopt_length flags).toNat
  · left
    rw [if_pos hlen]
  · rw [if_neg hlen] at h ⊢
    by_cases hok : (usnet_ipv4_output s.ctx).1 = false
    · right
      rw [if_pos hok]
    · rw [if_neg hok] at h
      have hsynfin : 0 ≤ synfin flags := by
        unfold synfin
        split <;> decide
      simp only [transmit, tcp_packet] at h
      omega

theorem usnet_send_tcp_packet_sends (s : Conn) (flags : UInt8) (payload : List UInt8) :
    Sends (fun f => f.flags = flags ∧ f.payload = payload) s.ctx
      (usnet_send_tcp_packet s flags payload).2.ctx := by
  rcases usnet_send_tcp_packet_cases s flags payload with ⟨-, h⟩ | ⟨-, -, h⟩
  · exact .of_eq (by simp [h])
  · exact .one h ⟨rfl, rfl⟩

/-- Only a FIN sets `is_fin_sent`. -/
theorem usnet_send_tcp_packet_fin (s : Conn) (flags : UInt8) (payload : List UInt8)
    (h : has flags TH_FIN = false) :
    (usnet_send_tcp_packet s flags payload).2.tcb.sndvar.is_fin_sent
      = s.tcb.sndvar.is_fin_sent := by
  have hfin : ∀ s, note_fin s flags = s := by
    intro s
    simp [note_fin, h]
  unfold usnet_send_tcp_packet
  simp only
  split
  · rfl
  · split
    · simp
    · simp [note_header, hfin]

@[simp] theorem synfin_ack : synfin TH_ACK = 0 := rfl

/-- A bare acknowledgement takes no sequence number. -/
@[simp] theorem usnet_send_tcp_packet_ack (s : Conn) :
    (usnet_send_tcp_packet s TH_ACK []).2.tcb.snd_nxt = s.tcb.snd_nxt := by
  rcases usnet_send_tcp_packet_cases s TH_ACK [] with ⟨-, h⟩ | ⟨-, h, -⟩
  · simp [h]
  · simp [h]

/-! ## Section 5: Control packets -/

/-- The flags of the control packet each state calls for. -/
def control_flags : TcpState → List UInt8
  | .syn_sent => [TH_SYN]
  | .syn_received => [TH_SYN ||| TH_ACK]
  | .established | .close_wait | .fin_wait_2 | .time_wait => [TH_ACK]
  | .last_ack | .fin_wait_1 => [TH_FIN ||| TH_ACK]
  | .closing => [TH_FIN ||| TH_ACK, TH_ACK]
  | .closed => [TH_RST]
  | .listen => []

@[simp] theorem usnet_send_control_packet_kept (s : Conn) :
    Kept s (usnet_send_control_packet s).2 ∧
    (usnet_send_control_packet s).2.tcb.state = s.tcb.state := by
  unfold usnet_send_control_packet
  cases hst : s.tcb.state with
  | last_ack => by_cases hb : s.tcb.sndvar.on_send_list || s.tcb.sndvar.on_ack_list <;>
      simp [hb, hst]
  | fin_wait_1 => by_cases hb : s.tcb.sndvar.on_send_list || s.tcb.sndvar.on_ack_list <;>
      simp [hb, hst]
  | closing =>
    by_cases hf : s.tcb.sndvar.is_fin_sent
    · by_cases hn : s.tcb.snd_nxt = s.tcb.sndvar.fss <;> simp [hf, hn, hst]
    · simp [hf, hst]
  | closed =>
    by_cases hb : s.tcb.sndvar.on_send_list || s.tcb.sndvar.on_ack_list
    · simp [hb, hst]
    · by_cases hr : (usnet_send_tcp_packet s TH_RST []).1 ≥ 0 <;> simp [hb, hr, hst]
  | _ => simp [hst]

@[simp] theorem usnet_add_control_list_kept (s : Conn) :
    Kept s (usnet_add_control_list s) ∧
    (usnet_add_control_list s).tcb.state = s.tcb.state := by
  unfold usnet_add_control_list
  simp only
  split <;> simp

/-- In every state the frames a control packet sends carry that state's flags and
    no payload. -/
theorem usnet_send_control_packet_sends (s : Conn) :
    Sends (fun f => f.flags ∈ control_flags s.tcb.state ∧ f.payload = []) s.ctx
      (usnet_send_control_packet s).2.ctx := by
  -- one packet at most, followed by list operations that send nothing
  have key : ∀ (st : TcpState) (t s' : Conn) (flags : UInt8), flags ∈ control_flags st →
      t.ctx.frames = s.ctx.frames →
      s'.ctx.frames = (usnet_send_tcp_packet t flags []).2.ctx.frames →
      Sends (fun f => f.flags ∈ control_flags st ∧ f.payload = []) s.ctx s'.ctx := by
    intro st t s' flags hflags ht hs'
    refine ((usnet_send_tcp_packet_sends t flags []).mono ?_).congr ht.symm hs'
    rintro f ⟨rfl, hpayload⟩
    exact ⟨hflags, hpayload⟩
  unfold usnet_send_control_packet
  cases hst : s.tcb.state with
  | listen => exact .of_eq rfl
  | syn_sent => exact key _ s _ TH_SYN (by decide) rfl rfl
  | syn_received =>
    exact key _ (s.onTcb fun t => { t with snd_nxt := t.sndvar.iss }) _ (TH_SYN ||| TH_ACK)
      (by decide) rfl (by simp)
  | established => exact key _ s _ TH_ACK (by decide) rfl (by simp)
  | close_wait => exact key _ s _ TH_ACK (by decide) rfl (by simp)
  | fin_wait_2 => exact key _ s _ TH_ACK (by decide) rfl (by simp)
  | time_wait => exact key _ s _ TH_ACK (by decide) rfl (by simp)
  | last_ack =>
    simp only
    split
    · exact .of_eq rfl
    · exact key _ s _ (TH_FIN ||| TH_ACK) (by decide) rfl (by simp)
  | fin_wait_1 =>
    simp only
    split
    · exact .of_eq rfl
    · exact key _ s _ (TH_FIN ||| TH_ACK) (by decide) rfl (by simp)
  | closing =>
    simp only
    split
    · split
      · exact key _ s _ (TH_FIN ||| TH_ACK) (by decide) rfl (by simp)
      · exact key _ s _ TH_ACK (by decide) rfl (by simp)
    · exact key _ s _ (TH_FIN ||| TH_ACK) (by decide) rfl (by simp)
  | closed =>
    simp only
    split
    · exact .of_eq rfl
    · split
      · exact key _ s _ TH_RST (by decide) rfl (by simp)
      · exact key _ s _ TH_RST (by decide) rfl rfl

theorem usnet_add_control_list_sends (s : Conn) :
    Sends (fun f => f.flags ∈ control_flags s.tcb.state ∧ f.payload = []) s.ctx
      (usnet_add_control_list s).ctx := by
  refine (usnet_send_control_packet_sends s).congr rfl ?_
  unfold usnet_add_control_list
  simp only
  split <;> simp

/-- Where a bare acknowledgement is due, nothing but the frame is new. -/
theorem usnet_send_control_packet_acks {s : Conn}
    (h : s.tcb.state = .established ∨ s.tcb.state = .close_wait) :
    SameState s (usnet_send_control_packet s).2 ∧
    (usnet_send_control_packet s).2.tcb.snd_nxt = s.tcb.snd_nxt ∧
    (usnet_send_control_packet s).2.tcb.sndvar.is_fin_sent
      = s.tcb.sndvar.is_fin_sent := by
  have hfin := usnet_send_tcp_packet_fin s TH_ACK [] rfl
  unfold usnet_send_control_packet
  rcases h with h | h <;> simp [h, hfin]

theorem usnet_add_control_list_acks {s : Conn}
    (h : s.tcb.state = .established ∨ s.tcb.state = .close_wait) :
    SameState s (usnet_add_control_list s) ∧
    (usnet_add_control_list s).tcb.snd_nxt = s.tcb.snd_nxt ∧
    (usnet_add_control_list s).tcb.sndvar.is_fin_sent = s.tcb.sndvar.is_fin_sent := by
  have hctl := usnet_send_control_packet_acks h
  unfold usnet_add_control_list
  simp only
  split <;> simp [hctl]

/-- Before the handshake ends a control packet is a SYN/ACK. -/
theorem usnet_send_control_packet_syn {s : Conn} (h : s.tcb.state = .syn_received) :
    SameState s (usnet_send_control_packet s).2 ∧
    ((usnet_send_control_packet s).2.tcb.snd_nxt = s.tcb.sndvar.iss ∨
      (usnet_send_control_packet s).2.tcb.snd_nxt = s.tcb.sndvar.iss + 1) ∧
    (usnet_send_control_packet s).2.tcb.sndvar.is_fin_sent
      = s.tcb.sndvar.is_fin_sent := by
  have hfin := usnet_send_tcp_packet_fin
    (s.onTcb fun t => { t with snd_nxt := t.sndvar.iss }) (TH_SYN ||| TH_ACK) [] rfl
  have hnxt := usnet_send_tcp_packet_cases
    (s.onTcb fun t => { t with snd_nxt := t.sndvar.iss }) (TH_SYN ||| TH_ACK) []
  have hone : ((([] : List UInt8).length : Int) + synfin (TH_SYN ||| TH_ACK)) = 1 := by decide
  unfold usnet_send_control_packet
  rw [hone] at hnxt
  simp only [h]
  refine ⟨by simp [h], ?_, by simpa using hfin⟩
  rcases hnxt with ⟨-, hsame⟩ | ⟨-, hnxt, -⟩
  · left
    simp [hsame]
  · right
    simpa using hnxt

theorem usnet_add_control_list_syn {s : Conn} (h : s.tcb.state = .syn_received) :
    SameState s (usnet_add_control_list s) ∧
    ((usnet_add_control_list s).tcb.snd_nxt = s.tcb.sndvar.iss ∨
      (usnet_add_control_list s).tcb.snd_nxt = s.tcb.sndvar.iss + 1) ∧
    (usnet_add_control_list s).tcb.sndvar.is_fin_sent = s.tcb.sndvar.is_fin_sent := by
  have hctl := usnet_send_control_packet_syn h
  unfold usnet_add_control_list
  simp only
  split <;> simpa using hctl

end Usnet
