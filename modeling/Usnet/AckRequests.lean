import Usnet.Idle
import Usnet.FrameSizes

/-! # Requested acknowledgements

    Requests are kept in a counter of six bits, a flag for the window probe and the
    membership in the acknowledgement list, until `usnet_send_tcp_ack_list` comes
    past.  What it sends then is compared with what was requested.
-/

namespace Usnet

open CInt Run

/-! ## Section 1: Requests -/

/-- `usnet_enqueue_ack` for one option after the other. -/
def enqueue_acks (s : Conn) (opts : List AckOpt) : Conn := opts.foldl usnet_enqueue_ack s

/-- The three places a request is kept in. -/
def UsnTcb.requests (t : UsnTcb) : BitVec 6 × Bool × Bool :=
  (t.sndvar.ack_cnt, t.sndvar.is_wack, t.sndvar.on_ack_list)

/-- The acknowledgements due after one more request.  An aggregated one is added
    where the counter shows none. -/
def ack_due (acks : Nat) : AckOpt → Nat
  | .now => acks + 1
  | .aggregate => if 2 ^ 6 ∣ acks then acks + 1 else acks
  | .wack => acks

/-- The acknowledgements due after all of them. -/
def acks_due (acks : Nat) (opts : List AckOpt) : Nat := opts.foldl ack_due acks

/-- A window probe is among them, or was due before. -/
def probe_due (wack : Bool) (opts : List AckOpt) : Prop := wack = true ∨ .wack ∈ opts

theorem counter_eq_zero (n : Nat) : BitVec.ofNat 6 n = 0 ↔ 2 ^ 6 ∣ n := by
  rw [Nat.dvd_iff_mod_eq_zero, ← BitVec.toNat_inj, BitVec.toNat_ofNat]
  rfl

/-- The list does not matter to the counter and to the flag. -/
theorem usnet_add_ack_list_requests (s : Conn) :
    (usnet_add_ack_list s).tcb.requests = (s.tcb.sndvar.ack_cnt, s.tcb.sndvar.is_wack, true) := by
  unfold usnet_add_ack_list
  split
  · rename_i hon
    unfold UsnTcb.requests
    rw [hon]
  · rfl

/-- The counter counts what is due modulo 64. -/
theorem usnet_enqueue_ack_cnt {s : Conn} {acks : Nat}
    (hcnt : s.tcb.sndvar.ack_cnt = BitVec.ofNat 6 acks) (opt : AckOpt) :
    (usnet_enqueue_ack s opt).tcb.sndvar.ack_cnt = BitVec.ofNat 6 (ack_due acks opt) := by
  refine (congrArg (·.1) (usnet_add_ack_list_requests _)).trans ?_
  -- the guard `ack_cnt < ack_cnt + 1` compares two ints and always lets the field wrap
  cases opt with
  | now =>
    show s.tcb.sndvar.ack_cnt + 1 = BitVec.ofNat 6 (acks + 1)
    rw [hcnt, BitVec.ofNat_add]
    rfl
  | aggregate =>
    show (if s.tcb.sndvar.ack_cnt = 0 then 1 else s.tcb.sndvar.ack_cnt) =
      BitVec.ofNat 6 (if 2 ^ 6 ∣ acks then acks + 1 else acks)
    have hzero := counter_eq_zero acks
    rw [← hcnt] at hzero
    by_cases h : s.tcb.sndvar.ack_cnt = 0
    · rw [if_pos h, if_pos (hzero.mp h), BitVec.ofNat_add, ← hcnt, h]
      rfl
    · rw [if_neg h, if_neg fun hd => h (hzero.mpr hd), hcnt]
  | wack => exact hcnt

/-- The flag remembers a probe. -/
theorem usnet_enqueue_ack_wack (s : Conn) (opt : AckOpt) :
    (usnet_enqueue_ack s opt).tcb.sndvar.is_wack = true ↔
      s.tcb.sndvar.is_wack = true ∨ opt = .wack := by
  have h := congrArg (·.2.1) (usnet_add_ack_list_requests
    (s.onSnd fun v =>
      match opt with
      | .now => { v with ack_cnt := v.ack_cnt + 1 }
      | .aggregate => { v with ack_cnt := if v.ack_cnt = 0 then 1 else v.ack_cnt }
      | .wack => { v with is_wack := true }))
  rw [show (usnet_enqueue_ack s opt).tcb.sndvar.is_wack = _ from h]
  cases opt with
  | now => simp
  | aggregate => simp
  | wack => simp

theorem usnet_enqueue_ack_listed (s : Conn) (opt : AckOpt) :
    (usnet_enqueue_ack s opt).tcb.sndvar.on_ack_list = true :=
  congrArg (·.2.2) (usnet_add_ack_list_requests _)

/-- The same of all requests. -/
theorem enqueue_acks_counts (opts : List AckOpt) {s : Conn} {acks : Nat}
    (hcnt : s.tcb.sndvar.ack_cnt = BitVec.ofNat 6 acks) :
    (enqueue_acks s opts).tcb.sndvar.ack_cnt = BitVec.ofNat 6 (acks_due acks opts) ∧
    ((enqueue_acks s opts).tcb.sndvar.is_wack = true ↔ probe_due s.tcb.sndvar.is_wack opts) := by
  unfold probe_due
  induction opts generalizing s acks with
  | nil =>
    refine ⟨hcnt, ?_⟩
    show s.tcb.sndvar.is_wack = true ↔ _
    simp
  | cons opt opts ih =>
    obtain ⟨hacks, hprobe⟩ := ih (usnet_enqueue_ack_cnt hcnt opt)
    refine ⟨hacks, hprobe.trans ?_⟩
    rw [usnet_enqueue_ack_wack, List.mem_cons, or_assoc, @eq_comm _ opt .wack]

/-- With one request at least the connection is on the list. -/
theorem enqueue_acks_listed {opts : List AckOpt} (h : opts ≠ []) (s : Conn) :
    (enqueue_acks s opts).tcb.sndvar.on_ack_list = true := by
  -- every request leaves it there, the last one too
  have hlast := List.dropLast_append_getLast h
  rw [← hlast, enqueue_acks, List.foldl_append]
  exact usnet_enqueue_ack_listed _ _

/-! ## Section 2: What a visit sends -/

/-- The addresses of a connection, in the order of a frame's. -/
def UsnTcb.addresses (t : UsnTcb) : UInt32 × UInt32 × UInt16 × UInt16 :=
  (t.saddr, t.daddr, t.sport, t.dport)

def Frame.addresses (f : Frame) : UInt32 × UInt32 × UInt16 × UInt16 :=
  (f.saddr, f.daddr, f.sport, f.dport)

/-- What decides about the rest of a visit while it is sending. -/
structure Waiting where
  addresses : UInt32 × UInt32 × UInt16 × UInt16
  state : TcpState
  ack_cnt : BitVec 6
  is_wack : Bool
  control_list_waiting : Bool
  on_send_list : Bool

def UsnTcb.waiting (t : UsnTcb) : Waiting :=
  { addresses := t.addresses, state := t.state, ack_cnt := t.sndvar.ack_cnt
    is_wack := t.sndvar.is_wack, control_list_waiting := t.control_list_waiting
    on_send_list := t.sndvar.on_send_list }

/-- One frame goes out for each of the flags, and the answers of the interface are
    used up. -/
structure SendsFlags (s s' : Conn) (flags : List UInt8) : Prop where
  frames : ∃ sent, s'.ctx.frames = s.ctx.frames ++ sent ∧ sent.map Frame.flags = flags ∧
    ∀ f ∈ sent, f.addresses = s.tcb.addresses
  tx : s'.ctx.tx = s.ctx.tx.drop flags.length
  addresses : s'.tcb.addresses = s.tcb.addresses

theorem SendsFlags.none {s s' : Conn} (hframes : s'.ctx.frames = s.ctx.frames)
    (htx : s'.ctx.tx = s.ctx.tx) (haddr : s'.tcb.addresses = s.tcb.addresses) :
    SendsFlags s s' [] :=
  ⟨⟨[], by rw [hframes, List.append_nil], rfl, by simp⟩, htx, haddr⟩

theorem SendsFlags.trans {s t s' : Conn} {l l' : List UInt8} (h : SendsFlags s t l)
    (h' : SendsFlags t s' l') : SendsFlags s s' (l ++ l') := by
  obtain ⟨⟨sent, hframes, hflags, haddr⟩, htx, hsame⟩ := h
  obtain ⟨⟨sent', hframes', hflags', haddr'⟩, htx', hsame'⟩ := h'
  refine ⟨⟨sent ++ sent', ?_, ?_, ?_⟩, ?_, hsame'.trans hsame⟩
  · rw [hframes', hframes, List.append_assoc]
  · rw [List.map_append, hflags, hflags']
  · intro f hf
    rcases List.mem_append.mp hf with hf | hf
    · exact haddr f hf
    · exact (haddr' f hf).trans hsame
  · rw [htx', htx, List.drop_drop, List.length_append]

@[simp] theorem note_header_waiting (s : Conn) (flags : UInt8) :
    (note_header s flags).tcb.waiting = s.tcb.waiting := by
  -- the header writes the FIN's place, the last acknowledgement and the advertised
  -- window; none of them decides about the rest of the visit
  have hfin : (note_fin s flags).tcb.waiting = s.tcb.waiting := by
    unfold note_fin
    split
    · rfl
    · split <;> rfl
  have hack : ∀ u : Conn, (note_ack u flags).tcb.waiting = u.tcb.waiting := by
    intro u
    unfold note_ack
    split
    · rw [usnet_update_timeout_list_tcb]
      rfl
    · rfl
  have hwnd : ∀ u : Conn, (note_window u flags).tcb.waiting = u.tcb.waiting := by
    intro u
    unfold note_window
    simp only
    split
    all_goals split
    all_goals rfl
  unfold note_header
  rw [hwnd, hack, hfin]

/-- A packet without payload that takes no sequence number goes out when the
    interface takes it. -/
theorem bare_packet_out {s : Conn} {flags : UInt8} {tx : List Bool} (hflags : synfin flags = 0)
    (htx : s.ctx.tx = true :: tx) :
    ¬ (usnet_send_tcp_packet s flags []).1 < 0 ∧
    SendsFlags s (usnet_send_tcp_packet s flags []).2 [flags] ∧
    (usnet_send_tcp_packet s flags []).2.tcb.waiting = s.tcb.waiting := by
  obtain ⟨hpos, htx'⟩ := @usnet_send_tcp_packet_out s flags [] tx (Nat.zero_le _) htx
  have hwaiting : (usnet_send_tcp_packet s flags []).2.tcb.waiting = s.tcb.waiting := by
    have hsent : ∀ u v : Conn, (transmit u (tcp_packet v flags [])).2.tcb.waiting =
        u.tcb.waiting := by
      intro u v
      unfold transmit arm_rto
      have hnone : ¬ ((((tcp_packet v flags []).payload.length : Int) +
          synfin (tcp_packet v flags []).flags) > 0) := by
        show ¬ ((0 : Int) + synfin flags > 0)
        rw [hflags]
        decide
      simp only [if_neg hnone]
      rfl
    unfold usnet_send_tcp_packet
    simp only
    split
    · rfl
    · split
      · rfl
      · rw [hsent, note_header_waiting]
        rfl
  refine ⟨by omega, ⟨?_, ?_, congrArg Waiting.addresses hwaiting⟩, hwaiting⟩
  · rcases usnet_send_tcp_packet_cases s flags [] with ⟨hneg, -⟩ | ⟨-, -, hframes⟩
    · omega
    · refine ⟨[tcp_packet s flags []], hframes, rfl, ?_⟩
      intro f hf
      obtain rfl := List.mem_singleton.mp hf
      rfl
  · rw [htx', htx]
    rfl

/-- The interface takes the next `n` segments. -/
def takes_segments (c : Ctx) (n : Nat) : Prop := List.replicate n true <+: c.tx

theorem takes_segments.head {c : Ctx} {n : Nat} (h : takes_segments c (n + 1)) :
    ∃ tx, c.tx = true :: tx := by
  obtain ⟨rest, hrest⟩ := h
  exact ⟨List.replicate n true ++ rest, hrest.symm⟩

theorem takes_segments.drop {c c' : Ctx} {n k : Nat} (h : takes_segments c (n + k))
    (htx : c'.tx = c.tx.drop n) : takes_segments c' k := by
  obtain ⟨rest, hrest⟩ := h
  refine ⟨rest, ?_⟩
  rw [htx, ← hrest, List.replicate_add, List.append_assoc, List.drop_left']
  exact List.length_replicate

theorem takes_segments.mono {c : Ctx} {n k : Nat} (h : takes_segments c n) (hk : k ≤ n) :
    takes_segments c k := by
  obtain ⟨rest, hrest⟩ := h
  refine ⟨List.replicate (n - k) true ++ rest, ?_⟩
  rw [← List.append_assoc, ← List.replicate_add, Nat.add_sub_cancel' hk, hrest]

/-- The loop over `ack_cnt`. -/
theorem send_acks_out (n : Nat) {s : Conn} (htx : takes_segments s.ctx n) :
    SendsFlags s (send_acks n s) (List.replicate n TH_ACK) ∧
    (send_acks n s).tcb.waiting =
      { s.tcb.waiting with ack_cnt := s.tcb.sndvar.ack_cnt - BitVec.ofNat 6 n } := by
  -- one turn for each acknowledgement that was due when the loop was entered
  induction n generalizing s with
  | zero =>
    refine ⟨.none rfl rfl rfl, ?_⟩
    show s.tcb.waiting = _
    rw [show s.tcb.sndvar.ack_cnt - BitVec.ofNat 6 0 = s.tcb.sndvar.ack_cnt from BitVec.sub_zero _]
    rfl
  | succ n ih =>
    obtain ⟨tx, hhead⟩ := htx.head
    obtain ⟨hok, hsends, hwaiting⟩ := @bare_packet_out s TH_ACK tx rfl hhead
    unfold send_acks
    simp only [if_neg hok]
    generalize usnet_send_tcp_packet s TH_ACK [] = r at hsends hwaiting
    have hone : SendsFlags s (r.2.onSnd fun v => { v with ack_cnt := v.ack_cnt - 1 }) [TH_ACK] :=
      ⟨hsends.frames, hsends.tx, hsends.addresses⟩
    rw [Nat.add_comm] at htx
    obtain ⟨hrest, hend⟩ := ih (htx.drop hone.tx)
    refine ⟨hone.trans hrest, hend.trans ?_⟩
    have hcnt : r.2.tcb.sndvar.ack_cnt = s.tcb.sndvar.ack_cnt := congrArg Waiting.ack_cnt hwaiting
    show { r.2.tcb.waiting with
      ack_cnt := r.2.tcb.sndvar.ack_cnt - 1 - BitVec.ofNat 6 n } = _
    rw [hwaiting, hcnt, Nat.add_comm n 1, BitVec.ofNat_add, BitVec.sub_sub]
    rfl

/-- The request for a window advertisement. -/
theorem send_wack_out {s : Conn} (htx : takes_segments s.ctx 1) :
    SendsFlags s (send_wack s) (if s.tcb.sndvar.is_wack then [TH_ACK ||| TH_WACK] else []) ∧
    (send_wack s).tcb.waiting = { s.tcb.waiting with is_wack := false } := by
  unfold send_wack
  cases hwack : s.tcb.sndvar.is_wack with
  | false =>
    refine ⟨.none rfl rfl rfl, ?_⟩
    show s.tcb.waiting = { s.tcb.waiting with is_wack := false }
    rw [← hwack]
    rfl
  | true =>
    obtain ⟨tx, hhead⟩ := htx.head
    obtain ⟨hok, hsends, hwaiting⟩ :=
      @bare_packet_out (s.onSnd fun v => { v with is_wack := false }) (TH_ACK ||| TH_WACK) tx rfl hhead
    simp only [if_true, if_neg hok]
    exact ⟨⟨hsends.frames, hsends.tx, hsends.addresses⟩, hwaiting⟩

/-- The packets of the acknowledging half. -/
def requested_flags (t : UsnTcb) : List UInt8 :=
  if to_ack t then
    List.replicate t.sndvar.ack_cnt.toNat TH_ACK ++
      (if t.sndvar.is_wack then [TH_ACK ||| TH_WACK] else [])
  else []

/-- The control packet that waited, in the states where it is an acknowledgement. -/
def control_acks (t : UsnTcb) : List UInt8 :=
  if t.control_list_waiting = true ∧ t.sndvar.on_send_list = false then [TH_ACK] else []

theorem usnet_remove_ack_list_quiet (s : Conn) :
    (usnet_remove_ack_list s).tcb.waiting = s.tcb.waiting ∧
    (usnet_remove_ack_list s).ctx.frames = s.ctx.frames ∧
    (usnet_remove_ack_list s).ctx.tx = s.ctx.tx := by
  unfold usnet_remove_ack_list
  split
  · exact ⟨rfl, rfl, rfl⟩
  · exact ⟨rfl, rfl, rfl⟩

theorem SendsFlags.remove_ack {s t : Conn} {l : List UInt8} (h : SendsFlags s t l) :
    SendsFlags s (usnet_remove_ack_list t) l := by
  obtain ⟨hwaiting, hframes, htx⟩ := usnet_remove_ack_list_quiet t
  have hquiet := SendsFlags.none hframes htx (congrArg Waiting.addresses hwaiting)
  simpa using h.trans hquiet

/-- The acknowledging half sends all that the counter and the flag show, or nothing;
    nothing is requested any more in the end. -/
theorem ack_or_drop_out {s : Conn}
    (htx : takes_segments s.ctx (s.tcb.sndvar.ack_cnt.toNat + 1)) :
    SendsFlags s (ack_or_drop s) (requested_flags s.tcb) ∧
    (ack_or_drop s).tcb.waiting = { s.tcb.waiting with ack_cnt := 0, is_wack := false } := by
  unfold ack_or_drop requested_flags
  -- the `if (to_ack)` of the source; its else clears the counter and the flag
  by_cases hto : to_ack s.tcb = true
  · obtain ⟨hacks, hrest⟩ := send_acks_out _ (htx.mono (Nat.le_succ _))
    have htx' := htx.drop (hacks.tx.trans (by rw [List.length_replicate]))
    obtain ⟨hwack, hend⟩ := send_wack_out htx'
    have hflag : (send_acks s.tcb.sndvar.ack_cnt.toNat s).tcb.sndvar.is_wack =
        s.tcb.sndvar.is_wack := congrArg Waiting.is_wack hrest
    rw [hflag] at hwack
    rw [hrest, BitVec.ofNat_toNat, BitVec.setWidth_eq, BitVec.sub_self] at hend
    rw [if_pos hto, if_pos hto]
    generalize send_wack (send_acks s.tcb.sndvar.ack_cnt.toNat s) = u at hwack hend
    have hcnt : u.tcb.sndvar.ack_cnt = 0 := congrArg Waiting.ack_cnt hend
    have hoff : u.tcb.sndvar.is_wack = false := congrArg Waiting.is_wack hend
    -- everything was sent, so the connection leaves the list
    have hdone : ¬ (u.tcb.sndvar.ack_cnt ≠ 0 ∨ u.tcb.sndvar.is_wack = true) := by
      simp [hcnt, hoff]
    simp only [if_neg hdone]
    exact ⟨(hacks.trans hwack).remove_ack, (usnet_remove_ack_list_quiet u).1.trans hend⟩
  · rw [if_neg hto, if_neg hto]
    have hset : SendsFlags s (s.onSnd fun v => { v with ack_cnt := 0, is_wack := false }) [] :=
      .none rfl rfl rfl
    exact ⟨hset.remove_ack, (usnet_remove_ack_list_quiet _).1⟩

/-- The control packet. -/
theorem send_waiting_out {s : Conn} (hst : s.tcb.state = .established)
    (htx : takes_segments s.ctx 1) :
    SendsFlags s (send_waiting s s.tcb.sndvar.on_send_list) (control_acks s.tcb) := by
  unfold send_waiting control_acks
  split
  · obtain ⟨tx, hhead⟩ := htx.head
    obtain ⟨hok, hsends, -⟩ :=
      @bare_packet_out (s.onTcb fun t => { t with control_list_waiting := false }) TH_ACK tx rfl
        hhead
    have hctl : usnet_send_control_packet (s.onTcb fun t => { t with control_list_waiting := false })
        = ((usnet_send_tcp_packet
            (s.onTcb fun t => { t with control_list_waiting := false }) TH_ACK []).1,
          usnet_remove_ack_list (usnet_send_tcp_packet
            (s.onTcb fun t => { t with control_list_waiting := false }) TH_ACK []).2) := by
      unfold usnet_send_control_packet
      simp only [Conn.onTcb_tcb, hst]
    unfold usnet_add_control_list
    rw [hctl]
    simp only [if_neg hok]
    have hgone := hsends.remove_ack
    generalize usnet_remove_ack_list _ = u at hgone ⊢
    have hlist : (usnet_remove_control_list u).tcb.addresses = u.tcb.addresses ∧
        (usnet_remove_control_list u).ctx.frames = u.ctx.frames ∧
        (usnet_remove_control_list u).ctx.tx = u.ctx.tx := by
      unfold usnet_remove_control_list
      split
      · exact ⟨rfl, rfl, rfl⟩
      · exact ⟨rfl, rfl, rfl⟩
    have hall := hgone.trans (.none hlist.2.1 hlist.2.2 hlist.1)
    exact ⟨hall.frames, hall.tx, hall.addresses⟩
  · exact .none rfl rfl rfl

/-- The frames a visit adds. -/
def visit_frames (s : Conn) : List Frame :=
  (ack_visit s).ctx.frames.drop s.ctx.frames.length

/-- A visit of an established connection sends what is requested, or drops it, and
    then the control packet that waits for it. -/
theorem ack_visit_out {s : Conn} (hst : s.tcb.state = .established)
    (hon : s.tcb.sndvar.on_ack_list = true) (htx : takes_segments s.ctx (2 ^ 6 + 1)) :
    (ack_visit s).ctx.frames = s.ctx.frames ++ visit_frames s ∧
    (visit_frames s).map Frame.flags = requested_flags s.tcb ++ control_acks s.tcb ∧
    ∀ f ∈ visit_frames s, f.addresses = s.tcb.addresses := by
  have hfew : (requested_flags s.tcb).length ≤ s.tcb.sndvar.ack_cnt.toNat + 1 := by
    unfold requested_flags
    split
    · rw [List.length_append, List.length_replicate]
      split <;> simp
    · exact Nat.zero_le _
  have hcnt := s.tcb.sndvar.ack_cnt.isLt
  obtain ⟨hacks, hend⟩ := ack_or_drop_out (htx.mono (k := s.tcb.sndvar.ack_cnt.toNat + 1) (by omega))
  have hst' : (ack_or_drop s).tcb.state = .established :=
    (congrArg Waiting.state hend).trans hst
  -- the acknowledging half neither takes the control packet nor sends data
  have hsame : control_acks (ack_or_drop s).tcb = control_acks s.tcb := by
    have hw : (ack_or_drop s).tcb.control_list_waiting = s.tcb.control_list_waiting :=
      congrArg Waiting.control_list_waiting hend
    have hq : (ack_or_drop s).tcb.sndvar.on_send_list = s.tcb.sndvar.on_send_list :=
      congrArg Waiting.on_send_list hend
    unfold control_acks
    rw [hw, hq]
  -- 63 acknowledgements, a probe and the control packet are at most 65
  have hleft : takes_segments s.ctx ((requested_flags s.tcb).length + 1) := htx.mono (by omega)
  have hctl := send_waiting_out hst' (hleft.drop hacks.tx)
  rw [hsame] at hctl
  obtain ⟨sent, hframes, hflags, haddr⟩ := (hacks.trans hctl).frames
  have hvisit : (ack_visit s).ctx.frames = s.ctx.frames ++ sent := by
    unfold ack_visit
    rw [if_pos hon]
    exact hframes
  have hsent : visit_frames s = sent := by
    unfold visit_frames
    rw [hvisit, List.drop_left]
  rw [hsent]
  exact ⟨hvisit, hflags, haddr⟩

/-! ## Section 3: The pass that reaches the connection -/

/-- The process when the loop of `usnet_send_tcp_ack_list` first visits a
    connection, if it does. -/
def ack_loop_reaches (id : Nat) (last : Option Nat) : Nat → Host → Option Nat → Option Host
  | 0, _, _ => none
  | _, _, none => none
  | cnt + 1, h, some cur_tcb =>
    if cur_tcb = id then some h
    else
      let next := tailq_next h.ctx.ack_list cur_tcb
      match h.on cur_tcb fun s => .ok (ack_visit s) with
      | .error _ => none
      | .ok h' =>
        if some cur_tcb = last then none else ack_loop_reaches id last cnt h' next

/-- The same for a pass of `usnet_send_tcp_ack_list`. -/
def pass_reaches (h : Host) (thresh : Int) (id : Nat) : Option Host :=
  ack_loop_reaches id h.ctx.ack_list.getLast? thresh.toNat h h.ctx.ack_list.head?

/-- A visit does not fail, keeps what was sent and leaves the other connections. -/
theorem ack_visit_on (h : Host) (cur : Nat) :
    ∃ h', h.on cur (fun s => .ok (ack_visit s)) = .ok h' ∧ h.ctx.frames <+: h'.ctx.frames ∧
      (∀ id, id ≠ cur → h'.tcb id = h.tcb id) ∧
      ∀ t, h.tcb cur = some t → h'.ctx = (ack_visit ⟨h.ctx, t⟩).ctx := by
  cases ht : h.tcb cur with
  | none =>
    refine ⟨h, ?_, List.prefix_refl _, fun _ _ => rfl, ?_⟩
    · unfold Host.on
      rw [ht]
    · intro t ht'
      cases ht'
  | some t =>
    obtain ⟨sent, hsent, -⟩ := (ack_visit_builds ⟨h.ctx, t⟩).sends
    refine ⟨h.put cur (ack_visit ⟨h.ctx, t⟩), ?_, ⟨sent, hsent.symm⟩, ?_, ?_⟩
    · unfold Host.on
      rw [ht]
    · intro id hid
      exact Function.update_of_ne hid _ _
    · intro t' ht'
      obtain rfl := Option.some.inj ht'
      rfl

theorem ack_loop_total (last : Option Nat) (cnt : Nat) (h : Host) (cur : Option Nat) :
    ∃ h', ack_loop last cnt h cur = .ok h' ∧ h.ctx.frames <+: h'.ctx.frames := by
  -- on the visits left
  induction cnt generalizing h cur with
  | zero => exact ⟨h, rfl, List.prefix_refl _⟩
  | succ cnt ih =>
    cases cur with
    | none => exact ⟨h, rfl, List.prefix_refl _⟩
    | some c =>
      obtain ⟨h₁, hon, hframes, -⟩ := ack_visit_on h c
      unfold ack_loop
      simp only [hon]
      split
      · exact ⟨h₁, rfl, hframes⟩
      · obtain ⟨h', hrest, hmore⟩ := ih h₁ (tailq_next h.ctx.ack_list c)
        exact ⟨h', hrest, hframes.trans hmore⟩

/-- Until its first visit nobody touches the connection, and what is sent then is
    part of what the pass sends. -/
theorem ack_loop_visits {id : Nat} {last : Option Nat} {cnt : Nat} {h g : Host}
    {cur : Option Nat} {t : UsnTcb} (ht : h.tcb id = some t)
    (hreach : ack_loop_reaches id last cnt h cur = some g) :
    g.tcb id = some t ∧ ∃ h', ack_loop last cnt h cur = .ok h' ∧
      (ack_visit ⟨g.ctx, t⟩).ctx.frames <+: h'.ctx.frames := by
  -- on the visits left; the one of `id` ends it
  induction cnt generalizing h cur with
  | zero => cases hreach
  | succ cnt ih =>
    cases cur with
    | none => cases hreach
    | some c =>
      obtain ⟨h₁, hon, -, hothers, hctx⟩ := ack_visit_on h c
      unfold ack_loop_reaches at hreach
      unfold ack_loop
      by_cases hc : c = id
      · rw [if_pos hc] at hreach
        obtain rfl := Option.some.inj hreach
        refine ⟨ht, ?_⟩
        simp only [hon]
        rw [← hctx t (hc ▸ ht)]
        split
        · exact ⟨h₁, rfl, List.prefix_refl _⟩
        · exact ack_loop_total last cnt h₁ _
      -- a visit of another connection changes nothing of this one
      · rw [if_neg hc] at hreach
        simp only [hon] at hreach ⊢
        split at hreach
        · cases hreach
        · rename_i hlast
          rw [if_neg hlast]
          exact ih ((hothers id (Ne.symm hc)).trans ht) hreach

/-! ## Section 4: What is requested and what is sent -/

/-- An acknowledgement of the connection. -/
def Frame.acknowledges (f : Frame) (t : UsnTcb) : Prop :=
  f.addresses = t.addresses ∧ has f.flags TH_ACK = true

/-- One at least is sent, and a window probe if one is due. -/
def acknowledged (t : UsnTcb) (probe : Prop) (sent : List Frame) : Prop :=
  (∃ f ∈ sent, f.acknowledges t) ∧
  (probe → ∃ f ∈ sent, f.acknowledges t ∧ has f.flags TH_WACK = true)

/-- The connection has a receive buffer, with all before it received, and a probe is
    due or a number of acknowledgements that six bits do not take for zero; or a
    control packet, which is an acknowledgement too, waits for the visit and no probe
    is due. -/
def request_heard (t : UsnTcb) (acks : Nat) (probe : Prop) : Prop :=
  (∃ buf, t.rcvvar.rcvbuf = some buf ∧ TCP_SEQ_LEQ t.rcv_nxt buf.head_seq ∧
    (probe ∨ ¬ 2 ^ 6 ∣ acks)) ∨
  (t.control_list_waiting = true ∧ t.sndvar.on_send_list = false ∧ ¬ probe)

theorem to_ack_iff {t : UsnTcb} (hst : t.state = .established) :
    to_ack t = true ↔
      ∃ buf, t.rcvvar.rcvbuf = some buf ∧ TCP_SEQ_LEQ t.rcv_nxt buf.head_seq := by
  unfold to_ack
  rw [hst]
  cases hbuf : t.rcvvar.rcvbuf with
  | none => simp
  | some buf => simp

/-- Of frames for the connection the flags alone count. -/
theorem acknowledged_iff {t : UsnTcb} {probe : Prop} {sent : List Frame} {flags : List UInt8}
    (hflags : sent.map Frame.flags = flags) (haddr : ∀ f ∈ sent, f.addresses = t.addresses) :
    acknowledged t probe sent ↔ (∃ x ∈ flags, has x TH_ACK = true) ∧
      (probe → ∃ x ∈ flags, has x TH_ACK = true ∧ has x TH_WACK = true) := by
  have hex : ∀ P : UInt8 → Prop, (∃ f ∈ sent, f.addresses = t.addresses ∧ P f.flags) ↔
      ∃ x ∈ flags, P x := by
    intro P
    rw [← hflags]
    constructor
    · rintro ⟨f, hf, -, hP⟩
      exact ⟨f.flags, List.mem_map_of_mem hf, hP⟩
    · rintro ⟨x, hx, hP⟩
      obtain ⟨f, hf, rfl⟩ := List.mem_map.mp hx
      exact ⟨f, hf, haddr f hf, hP⟩
  unfold acknowledged Frame.acknowledges
  simp only [and_assoc, hex fun x => has x TH_ACK = true,
    hex fun x => has x TH_ACK = true ∧ has x TH_WACK = true]

/-- The packets of a visit against what is due. -/
theorem requested_flags_heard {t : UsnTcb} {acks : Nat} {probe : Prop}
    (hst : t.state = .established) (hcnt : t.sndvar.ack_cnt = BitVec.ofNat 6 acks)
    (hwack : t.sndvar.is_wack = true ↔ probe) :
    ((∃ x ∈ requested_flags t ++ control_acks t, has x TH_ACK = true) ∧
      (probe → ∃ x ∈ requested_flags t ++ control_acks t,
        has x TH_ACK = true ∧ has x TH_WACK = true)) ↔
    request_heard t acks probe := by
  have hctl : ∀ x ∈ control_acks t, x = TH_ACK ∧ t.control_list_waiting = true ∧
      t.sndvar.on_send_list = false := by
    intro x hx
    unfold control_acks at hx
    split at hx
    · rename_i hwait
      exact ⟨List.mem_singleton.mp hx, hwait⟩
    · cases hx
  have hctl' : t.control_list_waiting = true ∧ t.sndvar.on_send_list = false →
      TH_ACK ∈ control_acks t := by
    intro hwait
    unfold control_acks
    rw [if_pos hwait]
    exact List.mem_singleton_self _
  unfold request_heard
  -- without a buffer to acknowledge only the control packet can answer
  by_cases hto : to_ack t = true
  · have hreq : requested_flags t = List.replicate t.sndvar.ack_cnt.toNat TH_ACK ++
        (if t.sndvar.is_wack then [TH_ACK ||| TH_WACK] else []) := if_pos hto
    obtain ⟨buf, hbuf, hseq⟩ := (to_ack_iff hst).mp hto
    -- a probe is sent if its flag is set; else the counter has to show a number
    by_cases hp : probe
    · have hmem : TH_ACK ||| TH_WACK ∈ requested_flags t ++ control_acks t := by
        rw [hreq, if_pos (hwack.mpr hp)]
        simp
      exact ⟨fun _ => .inl ⟨buf, hbuf, hseq, .inl hp⟩,
        fun _ => ⟨⟨_, hmem, rfl⟩, fun _ => ⟨_, hmem, rfl, rfl⟩⟩⟩
    · rw [if_neg fun hw => hp (hwack.mp hw), List.append_nil] at hreq
      constructor
      · rintro ⟨⟨x, hx, -⟩, -⟩
        rcases List.mem_append.mp hx with hx | hx
        · rw [hreq] at hx
          -- a frame goes out only for a counter that is not zero
          refine .inl ⟨buf, hbuf, hseq, .inr fun hd => ?_⟩
          rw [hcnt, (counter_eq_zero acks).mpr hd] at hx
          exact absurd hx (List.not_mem_nil)
        · exact .inr ⟨(hctl x hx).2.1, (hctl x hx).2.2, hp⟩
      · intro h
        have hmem : TH_ACK ∈ requested_flags t ++ control_acks t := by
          rcases h with ⟨-, -, -, hor⟩ | ⟨hwait, hoff, -⟩
          · apply List.mem_append_left
            rw [hreq, List.mem_replicate]
            refine ⟨fun hz => hor.resolve_left hp ?_, rfl⟩
            rw [← counter_eq_zero, ← hcnt]
            exact BitVec.toNat_inj.mp hz
          · exact List.mem_append_right _ (hctl' ⟨hwait, hoff⟩)
        exact ⟨⟨_, hmem, rfl⟩, fun hyes => absurd hyes hp⟩
  · have hreq : requested_flags t = [] := if_neg hto
    rw [hreq, List.nil_append]
    constructor
    · rintro ⟨⟨x, hx, -⟩, hprobe⟩
      refine .inr ⟨(hctl x hx).2.1, (hctl x hx).2.2, fun hp => ?_⟩
      -- a control packet is no probe
      obtain ⟨y, hy, -, hw⟩ := hprobe hp
      rw [(hctl y hy).1] at hw
      exact absurd hw (by decide)
    · rintro (⟨buf, hbuf, hseq, -⟩ | ⟨hwait, hoff, hno⟩)
      · exact absurd ((to_ack_iff hst).mpr ⟨buf, hbuf, hseq⟩) hto
      · exact ⟨⟨_, hctl' ⟨hwait, hoff⟩, rfl⟩, fun hp => absurd hp hno⟩

/-- After any number of requests the pass that reaches an established connection,
    with an interface that takes what it sends, acknowledges exactly where the
    request is heard. -/
theorem requested_acks_sent {c : Ctx} {t₀ t : UsnTcb} {opts : List AckOpt} {h g : Host}
    {thresh : Int} {id : Nat} (hopts : opts ≠ [])
    (hreq : t.requests = (enqueue_acks ⟨c, t₀⟩ opts).tcb.requests) (ht : h.tcb id = some t)
    (hst : t.state = .established) (hreach : pass_reaches h thresh id = some g)
    (htx : takes_segments g.ctx (2 ^ 6 + 1)) :
    (∃ h', usnet_send_tcp_ack_list h thresh = .ok h' ∧
      g.ctx.frames ++ visit_frames ⟨g.ctx, t⟩ <+: h'.ctx.frames) ∧
    (acknowledged t (probe_due t₀.sndvar.is_wack opts) (visit_frames ⟨g.ctx, t⟩) ↔
      request_heard t (acks_due t₀.sndvar.ack_cnt.toNat opts)
        (probe_due t₀.sndvar.is_wack opts)) := by
  obtain ⟨hcnt, hwack⟩ :=
    @enqueue_acks_counts opts ⟨c, t₀⟩ t₀.sndvar.ack_cnt.toNat (by simp)
  have hcnt' : t.sndvar.ack_cnt = _ := (congrArg (·.1) hreq).trans hcnt
  have hflag : t.sndvar.is_wack = (enqueue_acks ⟨c, t₀⟩ opts).tcb.sndvar.is_wack :=
    congrArg (·.2.1) hreq
  have hon : t.sndvar.on_ack_list = true :=
    (congrArg (·.2.2) hreq).trans (enqueue_acks_listed hopts _)
  rw [← hflag] at hwack
  -- what the first visit sends is kept to the end of the pass
  obtain ⟨hframes, hflags, haddr⟩ := ack_visit_out (s := ⟨g.ctx, t⟩) hst hon htx
  obtain ⟨-, h', hpass, hkept⟩ := ack_loop_visits ht hreach
  rw [hframes] at hkept
  refine ⟨⟨h', hpass, hkept⟩, ?_⟩
  rw [acknowledged_iff hflags haddr]
  exact requested_flags_heard hst hcnt' hwack

/-- The open connection, one segment later and with the link up. -/
def host_after (seg : Segment) : List HostEvent :=
  [.segment (some 7) seg,
    .surroundings
      { tx := List.replicate 65 true, tcb_cache := none, rcvvars_mp := true
        sndvars_mp := true, frag_mp := true, ringbuf_cache := some fun _ => 0
        sndbuf_cache := some fun _ => 0, rand := 5000 }]

theorem host_after_reached {seg : Segment} {h : Host}
    (hrun : host_run opened_host (host_after seg) = some h) : HostReachable h :=
  host_run_reaches opened_host_reached.reachable (fun _ _ _ => trivial) hrun

/-- A byte of data, which a buffer is taken for. -/
def data_host : Host :=
  (host_run opened_host (host_after (peer_segment 9001 5001 TH_ACK [9] (by decide)))).get rfl

theorem requested_acks_sent_data :
    ∃ t, data_host.tcb 7 = some t ∧
      acknowledged t (probe_due false [.aggregate]) (visit_frames ⟨data_host.ctx, t⟩) := by
  have hsent := @requested_acks_sent quiet_ctx opened_tcb ((data_host.tcb 7).get rfl) [.aggregate]
    data_host data_host 1 7 (by decide) rfl rfl rfl rfl ⟨[], rfl⟩
  refine ⟨_, rfl, hsent.2.mpr (.inl ⟨_, rfl, ?_, .inr ?_⟩)⟩
  · decide
  · decide

/-- A segment far outside the window, which is answered by an acknowledgement. -/
def stray_host : Host :=
  (host_run opened_host (host_after (peer_segment 900000000 5001 TH_ACK [] nil_short))).get rfl

/-- The connection has no receive buffer yet, and the pass drops the request. -/
theorem request_dropped :
    ¬ ∀ (c : Ctx) (t₀ t : UsnTcb) (opts : List AckOpt) (h g : Host) (thresh : Int) (id : Nat),
      HostReachable h → opts ≠ [] → t.requests = (enqueue_acks ⟨c, t₀⟩ opts).tcb.requests →
      h.tcb id = some t → t.state = .established → pass_reaches h thresh id = some g →
      takes_segments g.ctx (2 ^ 6 + 1) →
      acknowledged t (probe_due t₀.sndvar.is_wack opts) (visit_frames ⟨g.ctx, t⟩) := by
  intro h
  have hreached : HostReachable stray_host := host_after_reached (Option.some_get rfl).symm
  obtain ⟨⟨f, hf, -⟩, -⟩ := h quiet_ctx opened_tcb ((stray_host.tcb 7).get rfl) [.now] stray_host
    stray_host 1 7 hreached (by decide) rfl rfl rfl rfl ⟨[], rfl⟩
  have hnone : visit_frames ⟨stray_host.ctx, (stray_host.tcb 7).get rfl⟩ = [] := rfl
  rw [hnone] at hf
  cases hf

end Usnet
