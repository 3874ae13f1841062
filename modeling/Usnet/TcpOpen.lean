import Usnet.AckIn

/-! # Options and passive open (tcp.c, tcb.c)

    The two option parsers, and what happens to a segment for which there is
    no connection.
-/

namespace Usnet

open CInt

/-! ## Section 1: Options -/

/-- The byte at `tcpopt + i`, which may lie behind the options. -/
def Segment.byte (seg : Segment) (i : Nat) : UInt8 :=
  (seg.opts ++ seg.payload ++ seg.trailer).getD i 0

/-- `ntohl(*(uint32_t *)(tcpopt + i))`. -/
def Segment.long (seg : Segment) (i : Nat) : UInt32 :=
  (seg.byte i).toUInt32 <<< 24 ||| (seg.byte (i + 1)).toUInt32 <<< 16 |||
    (seg.byte (i + 2)).toUInt32 <<< 8 ||| (seg.byte (i + 3)).toUInt32

/-- The loop of `usnet_parse_tcptimestamp`.  A turn that does not move `i`
    forward meets an option of length zero and repeats for ever. -/
def parse_timestamp_loop (seg : Segment) : Nat → Nat → Except Fault (Option (UInt32 × UInt32))
  | 0, _ => .error .endless_loop
  | fuel + 1, i =>
    if i < seg.opts.length then
      let opt := seg.byte i
      let i := i + 1
      if opt = TCPOPT_EOL then .ok none
      else if opt = TCPOPT_NOP then parse_timestamp_loop seg fuel i
      else
        let optlen := (seg.byte i).toNat
        let i := i + 1
        if i + optlen - 2 > seg.opts.length then .ok none
        else if opt = TCPOPT_TIMESTAMP then .ok (some (seg.long i, seg.long (i + 4)))
        else parse_timestamp_loop seg fuel (i + optlen - 2)
    else .ok none

/-- `usnet_parse_tcptimestamp`. -/
def usnet_parse_tcptimestamp (seg : Segment) : Except Fault (Option (UInt32 × UInt32)) :=
  parse_timestamp_loop seg (seg.opts.length + 1) 0

/-- The loop of `usnet_parse_tcpopts`, with the same way of not ending. -/
def parse_opts_loop (cur_time : UInt32) (seg : Segment) :
    Nat → Nat → UsnTcb → Except Fault UsnTcb
  | 0, _, _ => .error .endless_loop
  | fuel + 1, i, tcb =>
    if i < seg.opts.length then
      let opt := seg.byte i
      let i := i + 1
      if opt = TCPOPT_EOL then .ok tcb
      else if opt = TCPOPT_NOP then parse_opts_loop cur_time seg fuel i tcb
      else
        let optlen := (seg.byte i).toNat
        let i := i + 1
        if i + optlen - 2 > seg.opts.length then .ok tcb
        else if opt = TCPOPT_MAXSEG then
          let mss := (seg.byte i).toUInt16 <<< 8 + (seg.byte (i + 1)).toUInt16
          parse_opts_loop cur_time seg fuel (i + 2)
            { tcb with sndvar := { tcb.sndvar with mss := mss, eff_mss := mss - 12 } }
        else if opt = TCPOPT_WINDOW then
          parse_opts_loop cur_time seg fuel (i + 1)
            { tcb with sndvar := { tcb.sndvar with wscale := seg.byte i } }
        else if opt = TCPOPT_SACK_PERMITTED then
          parse_opts_loop cur_time seg fuel i { tcb with sack_permit := true }
        else if opt = TCPOPT_TIMESTAMP then
          parse_opts_loop cur_time seg fuel (i + 8)
            { tcb with
              saw_timestamp := true
              rcvvar := { tcb.rcvvar with
                ts_recent := seg.long i, ts_last_ts_upd := cur_time } }
        else parse_opts_loop cur_time seg fuel (i + optlen - 2) tcb
    else .ok tcb

/-- `usnet_parse_tcpopts`. -/
def usnet_parse_tcpopts (cur_time : UInt32) (seg : Segment) (tcb : UsnTcb) :
    Except Fault UsnTcb :=
  parse_opts_loop cur_time seg (seg.opts.length + 1) 0 tcb

/-! ## Section 2: Creation -/

/-- The block as `usnet_init_newtcb` fills it in. -/
def init_newtcb (c : Ctx) (id : Nat) (listen_tcb : Listener) (saddr : UInt32)
    (sport : UInt16) (daddr : UInt32) (dport : UInt16) : UsnTcb :=
  let iss := c.rand % TCP_MAX_SEQ
  { id := id, fd := listen_tcb.fd, socket := none
    saddr := saddr, daddr := daddr, sport := sport, dport := dport
    state := .listen, close_reason := .not_closed, on_timewait_list := false
    need_wnd_adv := false, on_rto_idx := -1, on_timeout_list := false
    saw_timestamp := false, sack_permit := false, control_list_waiting := false
    have_reset := false, snd_nxt := iss, rcv_nxt := 0, last_active_ts := 0
    rcvvar :=
      { rcv_wnd := TCP_INITIAL_WINDOW, irs := 0, snd_wl1 := 0 - 1, snd_wl2 := 0
        ts_recent := 0, ts_lastack_rcvd := 0, ts_last_ts_upd := 0, ts_tw_expire := 0
        srtt := 0, mdev := 0, mdev_max := 0, rttvar := 0, rtt_seq := 0
        last_ack_seq := 0, dup_acks := 0, rcvbuf := none }
    sndvar :=
      { mss := TCP_DEFAULT_MSS, eff_mss := 0, wscale := TCP_DEFAULT_WSCALE
        snd_una := iss, snd_wnd := TCP_SNDBUF_SIZE, peer_wnd := 0, iss := iss, fss := 0
        nrtx := 0, max_nrtx := 0, rto := TCP_INITIAL_RTO, ts_rto := 0, cwnd := 0
        ssthresh := 0, ts_lastack_sent := 0, is_wack := false, ack_cnt := 0
        on_control_list := false, on_send_list := false, on_ack_list := false
        on_closeq := false, on_resetq := false, on_closeq_int := false
        on_resetq_int := false, is_fin_sent := false, sndbuf := none } }

/-- `usnet_init_newtcb`: a slot and both parts have to be had. -/
def usnet_init_newtcb (c : Ctx) (listen_tcb : Listener) (saddr : UInt32) (sport : UInt16)
    (daddr : UInt32) (dport : UInt16) : Option UsnTcb :=
  match c.tcb_cache with
  | none => none
  | some id =>
    if c.rcvvars_mp = false then none
    else if c.sndvars_mp = false then none
    else some (init_newtcb c id listen_tcb saddr sport daddr dport)

/-- `usnet_create_tcb`. -/
def usnet_create_tcb (c : Ctx) (listen_tcb : Listener) (seg : Segment) :
    Except Fault (Option UsnTcb) :=
  match usnet_init_newtcb c listen_tcb seg.ip_dst seg.th_dport seg.ip_src seg.th_sport with
  | none => .ok none
  | some tcb => do
    let tcb := { tcb with
      rcvvar := { tcb.rcvvar with irs := seg.seq }
      sndvar := { tcb.sndvar with peer_wnd := seg.window.toUInt32, cwnd := 1 }
      rcv_nxt := seg.seq }
    let tcb ← usnet_parse_tcpopts c.cur_time seg tcb
    return some tcb

/-- The new block with what the header of the SYN says, before its options are
    read. -/
def syn_noted (tcb : UsnTcb) (seg : Segment) : UsnTcb :=
  { tcb with
    rcvvar := { tcb.rcvvar with irs := seg.seq }
    sndvar := { tcb.sndvar with peer_wnd := seg.window.toUInt32, cwnd := 1 }
    rcv_nxt := seg.seq }

/-- A block is made where every pool has one, and the options are read into it. -/
theorem usnet_create_tcb_made {c : Ctx} {l : Listener} {seg : Segment} {t : UsnTcb}
    (h : usnet_create_tcb c l seg = .ok (some t)) :
    ∃ id, c.tcb_cache = some id ∧ c.rcvvars_mp = true ∧ c.sndvars_mp = true ∧
      usnet_parse_tcpopts c.cur_time seg (syn_noted (init_newtcb c id l seg.ip_dst seg.th_dport
        seg.ip_src seg.th_sport) seg) = .ok t := by
  unfold usnet_create_tcb at h
  split at h
  · cases h
  · rename_i t₀ hinit
    unfold usnet_init_newtcb at hinit
    split at hinit
    · cases hinit
    rename_i id hid
    split at hinit
    · cases hinit
    rename_i hrcv
    split at hinit
    · cases hinit
    rename_i hsnd
    obtain rfl := Option.some.inj hinit
    simp only [bind, Except.bind, pure, Except.pure] at h
    split at h
    · cases h
    · rename_i t₁ hopts
      obtain rfl := Option.some.inj (Except.ok.inj h)
      exact ⟨id, hid, eq_true_of_ne_false hrcv, eq_true_of_ne_false hsnd, hopts⟩

/-- A reply of `usnet_handle_passive_open` to the sender of a segment. -/
def reply_rst (c : Ctx) (seg : Segment) (seq ack_seq : UInt32) (flags : UInt8) : Ctx :=
  (usnet_send_tcp_packet_alone c seg.ip_dst seg.th_dport seg.ip_src seg.th_sport
    seq ack_seq 0 flags [] c.cur_time 0).2

/-- `usnet_handle_syn_pkt`: the listener the segment is addressed to. -/
def usnet_handle_syn_pkt (c : Ctx) (ip : UInt32) (port : UInt16) : Option Listener :=
  c.listen_tcb.filter fun l => ip == l.saddr && port == l.sport

/-- `usnet_handle_passive_open`. -/
def usnet_handle_passive_open (c : Ctx) (seg : Segment) :
    Except Fault (Ctx × Option UsnTcb) :=
  if seg.has TH_SYN ∧ ¬ seg.has TH_ACK then
    let refuse := reply_rst c seg 0 (seg.seq + seg.payloadlen + 1) (TH_RST ||| TH_ACK)
    match usnet_handle_syn_pkt c seg.ip_dst seg.th_dport with
    | none => .ok (refuse, none)
    | some listen_tcb =>
      match usnet_create_tcb c listen_tcb seg with
      | .error e => .error e
      | .ok none => .ok (refuse, none)
      | .ok (some tcb) => .ok (c, some tcb)
  else if seg.has TH_RST then .ok (c, none)
  else if seg.has TH_ACK then .ok (reply_rst c seg seg.ack_seq 0 TH_RST, none)
  else .ok (reply_rst c seg 0 (seg.seq + seg.payloadlen) (TH_RST ||| TH_ACK), none)

end Usnet
