import Usnet.Ringbuf
import Usnet.Sndbuf

/-! # The control block (tcb.h, tcp.h, timer.c)

    One connection together with the part of the context its code touches.
    What lies outside is data of the context: the clock, which output attempts
    succeed, which allocations do, and the random number drawn.  The context
    also records what the code hands out: frames and events.
-/

namespace Usnet

open CInt

/-! ## Section 1: Constants and sequence comparisons -/

def TH_FIN : UInt8 := 0x01
def TH_SYN : UInt8 := 0x02
def TH_RST : UInt8 := 0x04
def TH_ACK : UInt8 := 0x10
def TH_SACK : UInt8 := 0x40
def TH_WACK : UInt8 := 0x80

def TCPOPT_EOL : UInt8 := 0
def TCPOPT_NOP : UInt8 := 1
def TCPOPT_MAXSEG : UInt8 := 2
def TCPOLEN_MAXSEG : UInt8 := 4
def TCPOPT_WINDOW : UInt8 := 3
def TCPOLEN_WINDOW : UInt8 := 3
def TCPOPT_SACK_PERMITTED : UInt8 := 4
def TCPOPT_TIMESTAMP : UInt8 := 8
def TCPOLEN_TIMESTAMP : UInt8 := 10

/-- `flags & f`. -/
def has (flags f : UInt8) : Bool := flags &&& f != 0

def TCP_DEFAULT_MSS : UInt16 := 1460
def TCP_DEFAULT_WSCALE : UInt8 := 7
def TCP_MAX_SEQ : UInt32 := 4294967295
def TCP_INITIAL_WINDOW : UInt32 := 14600
def TCP_SNDBUF_SIZE : UInt32 := 8192
def TCP_INITIAL_RTO : UInt32 := 500
def TCP_MAX_RTX : UInt8 := 16
def TCP_MAX_SYN_RETRY : UInt8 := 7
def TCP_MAX_BACKOFF : UInt8 := 7
def RTO_HASH : UInt32 := 3000

/-- The sizes `usnet_net_setup` gives the rings. -/
def RINGBUF_SIZE : UInt32 := 8096
def SENDBUF_SIZE : UInt32 := 4 * 8096

abbrev TCP_SEQ_LT (a b : UInt32) : Prop := sint (a - b) < 0
abbrev TCP_SEQ_LEQ (a b : UInt32) : Prop := sint (a - b) ≤ 0
abbrev TCP_SEQ_GT (a b : UInt32) : Prop := sint (a - b) > 0
abbrev TCP_SEQ_GEQ (a b : UInt32) : Prop := sint (a - b) ≥ 0
abbrev TCP_SEQ_BETWEEN (a b c : UInt32) : Prop := TCP_SEQ_GEQ a b ∧ TCP_SEQ_LEQ a c

/-- `TCPS_*`. -/
inductive TcpState where
  | closed | listen | syn_sent | syn_received | established | fin_wait_1
  | fin_wait_2 | close_wait | closing | last_ack | time_wait
  deriving DecidableEq, Repr

/-- The order in which the code compares states. -/
def TcpState.val : TcpState → Nat
  | closed => 0 | listen => 1 | syn_sent => 2 | syn_received => 3
  | established => 4 | fin_wait_1 => 5 | fin_wait_2 => 6 | close_wait => 7
  | closing => 8 | last_ack => 9 | time_wait => 10

/-- The `close_reason` values the code sets. -/
inductive CloseReason where
  | not_closed | active_close | passive_close | conn_fail | conn_lost | reset
  | no_mem | timedout
  deriving DecidableEq, Repr

/-! ## Section 2: The control block -/

/-- `usn_rcvvars_t`. -/
structure RcvVars where
  rcv_wnd : UInt32
  irs : UInt32
  snd_wl1 : UInt32
  snd_wl2 : UInt32
  ts_recent : UInt32
  ts_lastack_rcvd : UInt32
  ts_last_ts_upd : UInt32
  ts_tw_expire : UInt32
  srtt : UInt32
  mdev : UInt32
  mdev_max : UInt32
  rttvar : UInt32
  rtt_seq : UInt32
  last_ack_seq : UInt32
  dup_acks : UInt16
  rcvbuf : Option UsnRingbuf

/-- `usn_sndvars_t`. -/
structure SndVars where
  mss : UInt16
  eff_mss : UInt16
  wscale : UInt8
  snd_una : UInt32
  snd_wnd : UInt32
  peer_wnd : UInt32
  iss : UInt32
  fss : UInt32
  nrtx : UInt8
  max_nrtx : UInt8
  rto : UInt32
  ts_rto : UInt32
  cwnd : UInt32
  ssthresh : UInt32
  ts_lastack_sent : UInt32
  is_wack : Bool
  ack_cnt : BitVec 6
  on_control_list : Bool
  on_send_list : Bool
  on_ack_list : Bool
  on_closeq : Bool
  on_resetq : Bool
  on_closeq_int : Bool
  on_resetq_int : Bool
  is_fin_sent : Bool
  sndbuf : Option UsnSendbuf

/-- `usn_tcb_t`.  `id` stands for its address, `socket` for the socket's `so_fd`. -/
structure UsnTcb where
  id : Nat
  fd : UInt32
  socket : Option UInt32
  saddr : UInt32
  daddr : UInt32
  sport : UInt16
  dport : UInt16
  state : TcpState
  close_reason : CloseReason
  on_timewait_list : Bool
  need_wnd_adv : Bool
  on_rto_idx : Int
  on_timeout_list : Bool
  saw_timestamp : Bool
  sack_permit : Bool
  control_list_waiting : Bool
  have_reset : Bool
  snd_nxt : UInt32
  rcv_nxt : UInt32
  last_active_ts : UInt32
  rcvvar : RcvVars
  sndvar : SndVars

/-- `usnet_tcb_isempty`. -/
def usnet_tcb_isempty (tcb : UsnTcb) : Bool :=
  tcb.saddr == 0 && tcb.daddr == 0 && tcb.sport == 0 && tcb.dport == 0

/-- `usnet_tcb_setempty`. -/
def usnet_tcb_setempty (tcb : UsnTcb) : UsnTcb :=
  { tcb with saddr := 0, daddr := 0, sport := 0, dport := 0 }

/-! ## Section 3: The context -/

/-- An incoming segment as `usnet_tcp_input` reads it, with the addresses of
    its IP header.  `trailer` is what lies in the receive slot behind it. -/
structure Segment where
  ip_src : UInt32
  ip_dst : UInt32
  th_sport : UInt16
  th_dport : UInt16
  seq : UInt32
  ack_seq : UInt32
  flags : UInt8
  window : UInt16
  opts : List UInt8
  payload : List UInt8
  trailer : List UInt8
  short : payload.length < 2 ^ 16

/-- A segment without payload is short. -/
theorem nil_short : ([] : List UInt8).length < 2 ^ 16 := by decide

/-- `tcph->th_flags & f`. -/
def Segment.has (seg : Segment) (f : UInt8) : Bool := Usnet.has seg.flags f

/-- `payloadlen`. -/
def Segment.payloadlen (seg : Segment) : UInt32 := u32 seg.payload.length

/-- A segment handed to the network interface. -/
structure Frame where
  saddr : UInt32
  daddr : UInt32
  sport : UInt16
  dport : UInt16
  seq : UInt32
  ack : UInt32
  flags : UInt8
  window : UInt16
  opts : List UInt8
  payload : List UInt8
  deriving DecidableEq, Repr

/-- A message for the application's queue. -/
inductive TcpEvent where
  | read (fd : UInt32)
  | write (fd : UInt32)
  | error (fd : UInt32)
  | tcpst (fd : UInt32) (state : TcpState)
  | connect (fd saddr : UInt32) (sport : UInt16) (daddr : UInt32) (dport : UInt16)
  deriving DecidableEq, Repr

/-- The two ways a segment's content reaches the connection. -/
inductive Applied where
  | ack
  | payload
  deriving DecidableEq, Repr

/-- How the process ends or stops answering. -/
inductive Fault where
  | invalid_sequence
  | no_send_buffer
  | bad_copy
  | rto_assert
  | timewait_assert
  | timeout_assert
  | division
  | endless_loop
  deriving DecidableEq, Repr

/-- `struct rto_hashstore`. -/
structure RtoStore where
  rto_now_idx : UInt32
  rto_now_ts : UInt32
  rto_list : Nat → List Nat

/-- What is read of `ctx->listen_tcb`. -/
structure Listener where
  fd : UInt32
  saddr : UInt32
  sport : UInt16

/-- `usn_context_t`.  The lists hold control blocks by `id`. -/
structure Ctx where
  cur_time : UInt32
  tcp_timewait : Int
  tcp_timeout : Int
  listen_tcb : Option Listener
  /-- Outcomes of the output attempts to come; when used up they fail. -/
  tx : List Bool
  /-- The free slot in `tcb_cache` for the connection, if any. -/
  tcb_cache : Option Nat
  rcvvars_mp : Bool
  sndvars_mp : Bool
  frag_mp : Bool
  ringbuf_cache : Option (Nat → UInt8)
  sndbuf_cache : Option (Nat → UInt8)
  rand : UInt32
  control_list : List Nat
  control_list_cnt : Int
  send_list : List Nat
  send_list_cnt : Int
  ack_list : List Nat
  ack_list_cnt : Int
  timewait_list : List Nat
  timewait_list_cnt : Int
  timeout_list : List Nat
  timeout_list_cnt : Int
  rto_store : RtoStore
  rto_list_cnt : Int
  frames : List Frame
  events : List TcpEvent
  /-- Record of the acknowledgements that pass the first check of
      `usnet_process_ack` and of the payloads handed to
      `usnet_insert_fragment`; the code keeps no such record. -/
  applied : List Applied

/-- A connection and the context its code runs in. -/
structure Conn where
  ctx : Ctx
  tcb : UsnTcb

namespace Conn

/-- Assignments to fields of the context. -/
def onCtx (s : Conn) (f : Ctx → Ctx) : Conn := { s with ctx := f s.ctx }

/-- Assignments to fields of the control block. -/
def onTcb (s : Conn) (f : UsnTcb → UsnTcb) : Conn := { s with tcb := f s.tcb }

/-- Assignments through `cur_tcb->rcvvar`. -/
def onRcv (s : Conn) (f : RcvVars → RcvVars) : Conn :=
  s.onTcb fun t => { t with rcvvar := f t.rcvvar }

/-- Assignments through `cur_tcb->sndvar`. -/
def onSnd (s : Conn) (f : SndVars → SndVars) : Conn :=
  s.onTcb fun t => { t with sndvar := f t.sndvar }

@[simp] theorem onCtx_ctx (s : Conn) (f : Ctx → Ctx) : (s.onCtx f).ctx = f s.ctx := rfl
@[simp] theorem onCtx_tcb (s : Conn) (f : Ctx → Ctx) : (s.onCtx f).tcb = s.tcb := rfl
@[simp] theorem onTcb_ctx (s : Conn) (f : UsnTcb → UsnTcb) : (s.onTcb f).ctx = s.ctx := rfl
@[simp] theorem onTcb_tcb (s : Conn) (f : UsnTcb → UsnTcb) : (s.onTcb f).tcb = f s.tcb := rfl
@[simp] theorem onRcv_ctx (s : Conn) (f : RcvVars → RcvVars) : (s.onRcv f).ctx = s.ctx := rfl
@[simp] theorem onRcv_tcb (s : Conn) (f : RcvVars → RcvVars) :
    (s.onRcv f).tcb = { s.tcb with rcvvar := f s.tcb.rcvvar } := rfl
@[simp] theorem onSnd_ctx (s : Conn) (f : SndVars → SndVars) : (s.onSnd f).ctx = s.ctx := rfl
@[simp] theorem onSnd_tcb (s : Conn) (f : SndVars → SndVars) :
    (s.onSnd f).tcb = { s.tcb with sndvar := f s.tcb.sndvar } := rfl

end Conn

end Usnet
