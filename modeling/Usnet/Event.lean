import Usnet.TcpIn

/-! # The application's side and the dispatch loops (event.c, core.c)

    The messages an application sends to the network process, its own accesses
    to the two rings, and the visits the dispatch loop pays to a connection on
    one of its lists.
-/

namespace Usnet

open CInt Circular

/-! ## Section 1: Messages to the network process -/

/-- `usnet_connect_net_handler` for a connection found in the cache; `so` says
    whether there is a socket of that `fd`. -/
def usnet_connect_net_handler (s : Conn) (so : Bool) (fd : UInt32) (result : Int) : Conn :=
  if so = false then s
  else if result < 0 then s
  else
    let s := s.onTcb fun t => { t with socket := some fd, fd := fd }
    match s.tcb.sndvar.sndbuf with
    | some _ => usnet_add_control_list s
    | none =>
      match usnet_get_sendbuf s.ctx.sndbuf_cache SENDBUF_SIZE s.tcb.fd
          (s.tcb.sndvar.iss + 1) with
      | none => s
      | some buf => usnet_add_control_list (s.onSnd fun v => { v with sndbuf := some buf })

/-- `usnet_write_net_handler`, where `so_tcb` says whether the socket of that
    `fd` leads back to this connection. -/
def usnet_write_net_handler (s : Conn) (so_tcb : Bool) (fd : UInt32) : Conn :=
  match s.tcb.sndvar.sndbuf with
  | none => s
  | some buf =>
    if buf.fd ≠ fd then s
    else if buf.head = buf.tail then s
    else if so_tcb then usnet_add_send_list s
    else s

/-! ## Section 2: Reading and writing -/

/-- `usnet_write`, as far as the connection's send buffer is concerned. -/
def usnet_write (tcb : UsnTcb) (fd : UInt32) (data : List UInt8) :
    Except Fault (Int × UsnTcb) :=
  match tcb.sndvar.sndbuf with
  | none => .ok (-1, tcb)
  | some buf =>
    if buf.fd ≠ fd then .ok (-1, tcb)
    else
      match usnet_write_data buf data with
      | none => .error .bad_copy
      | some (ret, buf) => .ok (ret, { tcb with sndvar := { tcb.sndvar with sndbuf := some buf } })

/-- The part of `usnet_read` that works on the ring.  The result carries the
    bytes copied to the caller's buffer, of which the first `ret` are meant. -/
def read_ringbuf (buf : UsnRingbuf) (count : Nat) : Int × List UInt8 × UsnRingbuf :=
  let clamp := fun data_len : Int =>
    if data_len < 0 ∨ data_len > count then (count : Int) else data_len
  if buf.head = buf.data then (-2, [], buf)
  else if buf.head > buf.data then
    let data_len := clamp (buf.head.toNat - buf.data.toNat)
    (data_len, slice buf.data_ptr buf.data.toNat data_len.toNat,
      { buf with data := buf.data + u16 data_len })
  else
    let tail_len := sint (buf.size - buf.data.toUInt32)
    let data_len := clamp (sint (buf.size + buf.head.toUInt32 - buf.data.toUInt32))
    if data_len ≤ tail_len then
      -- copies up to the end of the block, whatever `data_len` is
      (data_len, slice buf.data_ptr buf.data.toNat tail_len.toNat,
        { buf with data := buf.data + u16 data_len })
    else
      (data_len, slice buf.data_ptr buf.data.toNat tail_len.toNat ++
          slice buf.data_ptr 0 (data_len - tail_len).toNat,
        { buf with data := u16 (data_len - tail_len) })

/-- `usnet_read` on the receive buffer that may carry the `fd`. -/
def usnet_read (rcvbuf : Option UsnRingbuf) (fd : UInt32) (count : Nat) :
    Int × List UInt8 × Option UsnRingbuf :=
  match rcvbuf with
  | none => (-1, [], none)
  | some buf =>
    if buf.fd ≠ fd then (-1, [], some buf)
    else
      let r := read_ringbuf buf count
      (r.1, r.2.1, some r.2.2)

/-! ## Section 3: Visits of the dispatch loop -/

/-- `usnet_send_tcp_control_list` at one connection. -/
def control_visit (s : Conn) : Conn :=
  let s := s.onCtx fun c => { c with
    control_list := c.control_list.erase s.tcb.id
    control_list_cnt := c.control_list_cnt - 1 }
  if s.tcb.sndvar.on_control_list then
    let r := usnet_send_control_packet (s.onSnd fun v => { v with on_control_list := false })
    if r.1 < 0 then
      (r.2.onSnd fun v => { v with on_control_list := true }).onCtx fun c => { c with
        control_list := s.tcb.id :: c.control_list
        control_list_cnt := c.control_list_cnt + 1 }
    else r.2
  else s

/-- The loop over `ack_cnt` in `usnet_send_tcp_ack_list`. -/
def send_acks : Nat → Conn → Conn
  | 0, s => s
  | n + 1, s =>
    let r := usnet_send_tcp_packet s TH_ACK []
    if r.1 < 0 then r.2
    else send_acks n (r.2.onSnd fun v => { v with ack_cnt := v.ack_cnt - 1 })

/-- The request for a window advertisement. -/
def send_wack (s : Conn) : Conn :=
  if s.tcb.sndvar.is_wack then
    let r := usnet_send_tcp_packet (s.onSnd fun v => { v with is_wack := false })
      (TH_ACK ||| TH_WACK) []
    if r.1 < 0 then r.2.onSnd fun v => { v with is_wack := true } else r.2
  else s

/-- `to_ack`: whether the list visit acknowledges anything. -/
def to_ack (tcb : UsnTcb) : Bool :=
  match tcb.state with
  | .established | .close_wait | .fin_wait_1 | .fin_wait_2 | .time_wait =>
    match tcb.rcvvar.rcvbuf with
    | some buf => decide (TCP_SEQ_LEQ tcb.rcv_nxt buf.head_seq)
    | none => false
  | _ => false

/-- A control packet that waited for one of the other lists. -/
def send_waiting (s : Conn) (on_list : Bool) : Conn :=
  if s.tcb.control_list_waiting ∧ on_list = false then
    usnet_add_control_list (s.onTcb fun t => { t with control_list_waiting := false })
  else s

/-- The acknowledging half of `usnet_send_tcp_ack_list` at one connection. -/
def ack_or_drop (s : Conn) : Conn :=
  if to_ack s.tcb then
    let s := send_wack (send_acks s.tcb.sndvar.ack_cnt.toNat s)
    if s.tcb.sndvar.ack_cnt ≠ 0 ∨ s.tcb.sndvar.is_wack then s else usnet_remove_ack_list s
  else
    usnet_remove_ack_list (s.onSnd fun v => { v with ack_cnt := 0, is_wack := false })

/-- `usnet_send_tcp_ack_list` at one connection of the list. -/
def ack_visit (s : Conn) : Conn :=
  if s.tcb.sndvar.on_ack_list then
    let s := ack_or_drop s
    send_waiting s s.tcb.sndvar.on_send_list
  else
    s.onCtx fun c => { c with
      ack_list := c.ack_list.erase s.tcb.id
      ack_list_cnt := c.ack_list_cnt - 1 }

/-- The sending half of `usnet_send_tcp_data_list` at one connection. -/
def send_data (s : Conn) : Except Fault (Int × Conn) :=
  match s.tcb.state with
  | .established =>
    if s.tcb.sndvar.on_control_list then .ok (-1, s) else usnet_flush_tcp_sendbuf s
  | .close_wait | .fin_wait_1 | .last_ack => usnet_flush_tcp_sendbuf s
  | _ => .ok (0, s)

/-- `usnet_send_tcp_data_list` at one connection of the list. -/
def data_visit (s : Conn) : Except Fault Conn :=
  let s := s.onCtx fun c => { c with send_list := c.send_list.erase s.tcb.id }
  if s.tcb.sndvar.on_send_list then
    match send_data s with
    | .error e => .error e
    | .ok (ret, s) =>
      if ret < 0 then .ok (s.onCtx fun c => { c with send_list := c.send_list ++ [s.tcb.id] })
      else
        let s := s.onSnd fun v => { v with on_send_list := false }
        let s := s.onCtx fun c => { c with send_list_cnt := c.send_list_cnt - 1 }
        .ok (send_waiting s s.tcb.sndvar.on_ack_list)
  else .ok s

end Usnet
