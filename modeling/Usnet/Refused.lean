import Usnet.Life

/-! # Refused segments

    `usnet_validate_seq` stores the timestamp of a segment before it looks at
    the segment's number.  A segment it then turns away has left its timestamp
    behind, and the timestamps of later segments are compared with that one.
-/

namespace Usnet

open CInt Run

/-! ## Section 1: What a refusal leaves alone -/

/-- What transmitting the answer may do to `snd_nxt`: a SYN|ACK goes out from
    `iss` again, and a FIN takes a number. -/
def answered_nxt (t : UsnTcb) (snd_nxt : UInt32) : Prop :=
  snd_nxt = t.snd_nxt ∨
  t.state = .syn_received ∧ (snd_nxt = t.sndvar.iss ∨ snd_nxt = t.sndvar.iss + 1) ∨
  (t.state = .fin_wait_1 ∨ t.state = .last_ack ∨ t.state = .closing) ∧
    snd_nxt = t.snd_nxt + 1

/-- The connection is active only when a frame went out. -/
def answered_ts (s s' : Conn) : Prop :=
  s'.tcb.last_active_ts = s.tcb.last_active_ts ∨
  s'.tcb.last_active_ts = s.ctx.cur_time ∧ s'.ctx.frames ≠ s.ctx.frames

/-- Everything later validation and transmission depend on is as before, except
    for what transmitting the answer updates. -/
structure Unchanged (s s' : Conn) : Prop where
  receive : s'.tcb.rcv_nxt = s.tcb.rcv_nxt ∧ s'.tcb.rcvvar.rcv_wnd = s.tcb.rcvvar.rcv_wnd
  timestamps : s'.tcb.rcvvar.ts_recent = s.tcb.rcvvar.ts_recent ∧
    s'.tcb.rcvvar.ts_lastack_rcvd = s.tcb.rcvvar.ts_lastack_rcvd
  send : s'.tcb.sndvar.snd_una = s.tcb.sndvar.snd_una ∧
    s'.tcb.sndvar.peer_wnd = s.tcb.sndvar.peer_wnd
  snd_nxt : answered_nxt s.tcb s'.tcb.snd_nxt
  last_active_ts : answered_ts s s'

/-- The timestamp `usnet_validate_seq` stores, before it looks at the number. -/
def stored_timestamp (tcb : UsnTcb) (seg : Segment) : Option (UInt32 × UInt32) :=
  if seg.has TH_RST = false ∧ tcb.saw_timestamp then
    match usnet_parse_tcptimestamp seg with
    | .error _ => none
    | .ok none => none
    | .ok (some (ts_val, ts_ref)) =>
      if TCP_SEQ_LT ts_val tcb.rcvvar.ts_recent then none else some (ts_val, ts_ref)
  else none

/-- Nothing is stored, or what is there already. -/
def stores_nothing_new (tcb : UsnTcb) (seg : Segment) : Prop :=
  ∀ ts_val ts_ref, stored_timestamp tcb seg = some (ts_val, ts_ref) →
    ts_val = tcb.rcvvar.ts_recent ∧ ts_ref = tcb.rcvvar.ts_lastack_rcvd

instance (tcb : UsnTcb) (seg : Segment) : Decidable (stores_nothing_new tcb seg) :=
  match h : stored_timestamp tcb seg with
  | none => isTrue fun _ _ h' => by simp [h] at h'
  | some (ts_val, ts_ref) =>
    decidable_of_iff
      (ts_val = tcb.rcvvar.ts_recent ∧ ts_ref = tcb.rcvvar.ts_lastack_rcvd) <| by
      unfold stores_nothing_new
      simp [h]

/-! ## Section 2: The answer -/

theorem answered_ts.refl (s : Conn) : answered_ts s s := .inl rfl

/-- What does not touch the stamp may come before and after. -/
theorem answered_ts.congr {s t s' t' : Conn} (h : answered_ts s s')
    (hts : t.tcb.last_active_ts = s.tcb.last_active_ts) (htime : t.ctx.cur_time = s.ctx.cur_time)
    (hframes : t.ctx.frames = s.ctx.frames)
    (hts' : t'.tcb.last_active_ts = s'.tcb.last_active_ts)
    (hframes' : t'.ctx.frames = s'.ctx.frames) : answered_ts t t' := by
  unfold answered_ts
  rw [hts, htime, hframes, hts', hframes']
  exact h

@[simp] theorem usnet_add_ack_list_ts (s : Conn) :
    (usnet_add_ack_list s).tcb.last_active_ts = s.tcb.last_active_ts := by
  unfold usnet_add_ack_list
  split <;> rfl

@[simp] theorem usnet_enqueue_ack_ts (s : Conn) (opt : AckOpt) :
    (usnet_enqueue_ack s opt).tcb.last_active_ts = s.tcb.last_active_ts := by
  unfold usnet_enqueue_ack
  simp

@[simp] theorem usnet_remove_ack_list_ts (s : Conn) :
    (usnet_remove_ack_list s).tcb.last_active_ts = s.tcb.last_active_ts := by
  unfold usnet_remove_ack_list
  split <;> rfl

@[simp] theorem queue_control_ts (s : Conn) :
    (queue_control s).tcb.last_active_ts = s.tcb.last_active_ts := by
  unfold queue_control
  split <;> rfl

@[simp] theorem usnet_remove_control_list_ts (s : Conn) :
    (usnet_remove_control_list s).tcb.last_active_ts = s.tcb.last_active_ts := by
  unfold usnet_remove_control_list
  split <;> rfl

@[simp] theorem arm_rto_ts (s : Conn) (payloadlen : Int) :
    (arm_rto s payloadlen).tcb.last_active_ts = s.tcb.last_active_ts := by
  unfold arm_rto usnet_add_rto_list
  by_cases hlen : payloadlen > 0
  · rw [if_pos hlen]
    simp only
    split
    · split
      · split <;> rfl
      · rfl
    · split
      · split <;> rfl
      · rfl
  · rw [if_neg hlen]

theorem note_header_ts (s : Conn) (flags : UInt8) :
    (note_header s flags).tcb.last_active_ts = s.tcb.last_active_ts ∨
    (note_header s flags).tcb.last_active_ts = s.ctx.cur_time := by
  have hwnd : ∀ t, (note_window t flags).tcb.last_active_ts = t.tcb.last_active_ts := by
    intro t
    unfold note_window
    simp only
    split
    all_goals split
    all_goals rfl
  have hfin : (note_fin s flags).tcb.last_active_ts = s.tcb.last_active_ts ∧
      (note_fin s flags).ctx = s.ctx := by
    unfold note_fin
    split
    · exact ⟨rfl, rfl⟩
    · split <;> exact ⟨rfl, rfl⟩
  unfold note_header note_ack
  rw [hwnd]
  split
  · right
    simp [hfin]
  · exact .inl hfin.1

theorem usnet_send_tcp_packet_ts (s : Conn) (flags : UInt8) (payload : List UInt8) :
    answered_ts s (usnet_send_tcp_packet s flags payload).2 := by
  unfold usnet_send_tcp_packet
  simp only
  split
  · exact .refl s
  · split
    · exact .inl rfl
    · have hts := note_header_ts (s.onCtx fun _ => (usnet_ipv4_output s.ctx).2) flags
      simp only [Conn.onCtx_tcb, Conn.onCtx_ctx, usnet_ipv4_output_ctx] at hts
      rcases hts with hts | hts
      · left
        simpa [transmit] using hts
      · right
        simpa [transmit] using hts

theorem usnet_release_tcb_ts (s : Conn) :
    (usnet_release_tcb s).tcb.last_active_ts = s.tcb.last_active_ts := by
  have hsend : ∀ t, (usnet_remove_send_list t).tcb.last_active_ts = t.tcb.last_active_ts := by
    intro t
    unfold usnet_remove_send_list
    split <;> rfl
  have hrto : ∀ t, (usnet_remove_rto_list t).tcb.last_active_ts = t.tcb.last_active_ts := by
    intro t
    unfold usnet_remove_rto_list
    split <;> rfl
  have htimeout : ∀ t,
      (usnet_remove_timeout_list t).tcb.last_active_ts = t.tcb.last_active_ts := by
    intro t
    unfold usnet_remove_timeout_list
    split <;> rfl
  unfold usnet_release_tcb unlink_tcb
  simp only [Conn.onTcb_tcb, usnet_tcb_setempty]
  split
  all_goals split
  all_goals split
  all_goals simp only [htimeout, unlink_timewait, Conn.onCtx_tcb, Conn.onTcb_tcb, hrto,
    usnet_remove_ack_list_ts, hsend, usnet_remove_control_list_ts]

theorem usnet_send_control_packet_ts (s : Conn) :
    answered_ts s (usnet_send_control_packet s).2 := by
  have hack : ∀ flags,
      answered_ts s (usnet_remove_ack_list (usnet_send_tcp_packet s flags []).2) := fun flags =>
    (usnet_send_tcp_packet_ts s flags []).congr rfl rfl rfl (by simp) (by simp)
  unfold usnet_send_control_packet
  -- in every state one packet at most, which notes the timestamp it carries
  cases hst : s.tcb.state with
  | listen => exact .refl s
  | syn_sent => exact usnet_send_tcp_packet_ts s TH_SYN []
  | syn_received =>
    exact (usnet_send_tcp_packet_ts (s.onTcb fun t => { t with snd_nxt := t.sndvar.iss })
      (TH_SYN ||| TH_ACK) []).congr rfl rfl rfl (by simp) (by simp)
  | established => exact hack _
  | close_wait => exact hack _
  | fin_wait_2 => exact hack _
  | time_wait => exact hack _
  | last_ack =>
    simp only
    split
    · exact .refl s
    · exact hack _
  | fin_wait_1 =>
    simp only
    split
    · exact .refl s
    · exact hack _
  | closing =>
    simp only
    split
    · split
      · exact hack _
      · exact hack _
    · exact hack _
  | closed =>
    simp only
    split
    · exact .refl s
    · have hrst := usnet_send_tcp_packet_ts s TH_RST []
      split
      · exact hrst.congr rfl rfl rfl (usnet_release_tcb_ts _) (by simp)
      · exact hrst

theorem usnet_add_control_list_ts (s : Conn) : answered_ts s (usnet_add_control_list s) := by
  refine (usnet_send_control_packet_ts s).congr rfl rfl rfl ?_ ?_
  · unfold usnet_add_control_list
    simp only
    split <;> simp
  · unfold usnet_add_control_list
    simp only
    split <;> simp

/-- A packet with a FIN and no SYN takes one number, if it goes out. -/
theorem usnet_send_tcp_packet_fin_nxt (s : Conn) :
    (usnet_send_tcp_packet s (TH_FIN ||| TH_ACK) []).2.tcb.snd_nxt = s.tcb.snd_nxt ∨
    (usnet_send_tcp_packet s (TH_FIN ||| TH_ACK) []).2.tcb.snd_nxt = s.tcb.snd_nxt + 1 := by
  have hone : u32 ((([] : List UInt8).length : Int) + synfin (TH_FIN ||| TH_ACK)) = 1 := by decide
  rcases usnet_send_tcp_packet_cases s (TH_FIN ||| TH_ACK) [] with ⟨-, h⟩ | ⟨-, h, -⟩
  · exact .inl (by simp [h])
  · rw [hone] at h
    exact .inr h

theorem usnet_add_control_list_nxt {s : Conn}
    (hst : s.tcb.state.val ≥ TcpState.syn_received.val) :
    answered_nxt s.tcb (usnet_add_control_list s).tcb.snd_nxt := by
  have hnxt : (usnet_add_control_list s).tcb.snd_nxt
      = (usnet_send_control_packet s).2.tcb.snd_nxt := by
    unfold usnet_add_control_list
    simp only
    split <;> simp
  -- only a FIN takes a sequence number, in the states that send one
  have hfin := usnet_send_tcp_packet_fin_nxt s
  rw [hnxt]
  cases hs : s.tcb.state with
  | syn_received => exact .inr (.inl ⟨hs, (usnet_send_control_packet_syn hs).2.1⟩)
  | established => exact .inl (usnet_send_control_packet_acks (.inl hs)).2.1
  | close_wait => exact .inl (usnet_send_control_packet_acks (.inr hs)).2.1
  | fin_wait_2 =>
    left
    unfold usnet_send_control_packet
    simp [hs]
  | time_wait =>
    left
    unfold usnet_send_control_packet
    simp [hs]
  | fin_wait_1 =>
    unfold usnet_send_control_packet
    simp only [hs]
    split
    · exact .inl rfl
    · rcases hfin with h | h
      · exact .inl (by simpa using h)
      · exact .inr (.inr ⟨.inl hs, by simpa using h⟩)
  | last_ack =>
    unfold usnet_send_control_packet
    simp only [hs]
    split
    · exact .inl rfl
    · rcases hfin with h | h
      · exact .inl (by simpa using h)
      · exact .inr (.inr ⟨.inr (.inl hs), by simpa using h⟩)
  | closing =>
    have hcases : (usnet_send_control_packet s).2.tcb.snd_nxt = s.tcb.snd_nxt ∨
        (usnet_send_control_packet s).2.tcb.snd_nxt = s.tcb.snd_nxt + 1 := by
      unfold usnet_send_control_packet
      simp only [hs]
      split
      · split
        · simpa using hfin
        · exact .inl (by simp)
      · simpa using hfin
    rcases hcases with h | h
    · exact .inl h
    · exact .inr (.inr ⟨.inr (.inr hs), h⟩)
  | closed => rw [hs] at hst; exact absurd hst (by decide)
  | listen => rw [hs] at hst; exact absurd hst (by decide)
  | syn_sent => rw [hs] at hst; exact absurd hst (by decide)

/-! ## Section 3: The check -/

/-- The assignments for a valid timestamp. -/
def stamp (s : Conn) (ts_val ts_ref : UInt32) : Conn :=
  s.onRcv fun v =>
    { v with
      ts_last_ts_upd := if TCP_SEQ_GT ts_val v.ts_recent then s.ctx.cur_time
        else v.ts_last_ts_upd
      ts_recent := ts_val
      ts_lastack_rcvd := ts_ref }

/-- What the timestamp half does: the segment is refused and nothing stored, or
    its timestamp is stored where there is one to store. -/
theorem validate_timestamp_cases {s s₁ : Conn} {seg : Segment} {r : Int}
    (h : validate_timestamp s seg = .ok (r, s₁)) :
    r < 0 ∧ stored_timestamp s.tcb seg = none ∧
      (s₁ = s ∨ s₁ = usnet_enqueue_ack s .now) ∨
    r = 0 ∧ stored_timestamp s.tcb seg = none ∧ s₁ = s ∨
    r = 0 ∧ ∃ ts_val ts_ref,
      stored_timestamp s.tcb seg = some (ts_val, ts_ref) ∧
      s₁ = stamp s ts_val ts_ref := by
  unfold validate_timestamp at h
  unfold stored_timestamp
  by_cases hts : seg.has TH_RST = false ∧ s.tcb.saw_timestamp
  · rw [if_pos hts] at h ⊢
    generalize usnet_parse_tcptimestamp seg = parsed at h ⊢
    rcases parsed with e | (_ | ⟨ts_val, ts_ref⟩)
    · cases h
    · obtain ⟨rfl, rfl⟩ := h
      exact .inl ⟨by decide, rfl, .inl rfl⟩
    · simp only at h ⊢
      by_cases hlt : TCP_SEQ_LT ts_val s.tcb.rcvvar.ts_recent
      · rw [if_pos hlt] at h ⊢
        obtain ⟨hr, hs⟩ := Prod.mk.inj (Except.ok.inj h)
        exact .inl ⟨by rw [← hr]; decide, rfl, .inr hs.symm⟩
      · rw [if_neg hlt] at h ⊢
        obtain ⟨hr, hs⟩ := Prod.mk.inj (Except.ok.inj h)
        exact .inr (.inr ⟨hr.symm, ts_val, ts_ref, rfl, hs.symm⟩)
  · rw [if_neg hts] at h ⊢
    obtain ⟨rfl, rfl⟩ := h
    exact .inr (.inl ⟨rfl, rfl, rfl⟩)

/-- What the check for a segment outside the window does besides answering. -/
structure Answered (s s' : Conn) : Prop where
  kept : s'.tcb.rcv_nxt = s.tcb.rcv_nxt ∧ s'.tcb.saw_timestamp = s.tcb.saw_timestamp ∧
    s'.tcb.sndvar.snd_una = s.tcb.sndvar.snd_una ∧
    s'.tcb.sndvar.peer_wnd = s.tcb.sndvar.peer_wnd ∧ s'.tcb.state = s.tcb.state
  rcvvar : ∃ ts_tw_expire, s'.tcb.rcvvar = { s.tcb.rcvvar with ts_tw_expire := ts_tw_expire }
  snd_nxt : answered_nxt s.tcb s'.tcb.snd_nxt
  last_active_ts : answered_ts s s'

theorem Answered.refl (s : Conn) : Answered s s :=
  ⟨⟨rfl, rfl, rfl, rfl, rfl⟩, ⟨_, rfl⟩, .inl rfl, .refl s⟩

theorem Answered.enqueue_ack (s : Conn) (opt : AckOpt) :
    Answered s (usnet_enqueue_ack s opt) :=
  ⟨by simp, ⟨s.tcb.rcvvar.ts_tw_expire, by simp⟩, .inl (by simp), .inl (by simp)⟩

theorem Answered.control {s t : Conn} (hst : s.tcb.state.val ≥ TcpState.syn_received.val)
    (hkept : t.tcb.rcv_nxt = s.tcb.rcv_nxt ∧ t.tcb.saw_timestamp = s.tcb.saw_timestamp ∧
      t.tcb.sndvar = s.tcb.sndvar ∧ t.tcb.state = s.tcb.state ∧ t.tcb.snd_nxt = s.tcb.snd_nxt)
    (hrcv : ∃ ts_tw_expire, t.tcb.rcvvar = { s.tcb.rcvvar with ts_tw_expire := ts_tw_expire })
    (hts : t.tcb.last_active_ts = s.tcb.last_active_ts ∧ t.ctx.cur_time = s.ctx.cur_time ∧
      t.ctx.frames = s.ctx.frames) :
    Answered s (usnet_add_control_list t) := by
  obtain ⟨hnxt, hsaw, hsnd, hstate, hsndnxt⟩ := hkept
  obtain ⟨hlast, htime, hframes⟩ := hts
  have hctl := usnet_add_control_list_nxt (s := t) (by rw [hstate]; exact hst)
  refine ⟨by simp [hnxt, hsaw, hsnd, hstate], ?_, ?_, ?_⟩
  · obtain ⟨e, he⟩ := hrcv
    exact ⟨e, by simp [he]⟩
  · unfold answered_nxt at hctl ⊢
    rw [hsnd, hstate, hsndnxt] at hctl
    exact hctl
  · exact (usnet_add_control_list_ts t).congr hlast.symm htime.symm hframes.symm rfl rfl

theorem reject_seq_answered {s s' : Conn} {seg : Segment} {r : Int}
    (hst : s.tcb.state.val ≥ TcpState.syn_received.val) (h : reject_seq s seg = .ok (r, s')) :
    r < 0 ∧ Answered s s' := by
  unfold reject_seq at h
  by_cases hrst : seg.has TH_RST
  · rw [if_pos hrst] at h
    obtain ⟨rfl, rfl⟩ := h
    exact ⟨by decide, .refl _⟩
  · rw [if_neg hrst] at h
    by_cases hest : s.tcb.state = .established
    · rw [if_pos hest] at h
      split at h
      · obtain ⟨rfl, rfl⟩ := h
        exact ⟨by decide, .enqueue_ack s _⟩
      · split at h
        · obtain ⟨rfl, rfl⟩ := h
          exact ⟨by decide, .enqueue_ack s _⟩
        · obtain ⟨rfl, rfl⟩ := h
          exact ⟨by decide, .enqueue_ack s _⟩
    · rw [if_neg hest] at h
      by_cases htw : s.tcb.state = .time_wait
      · rw [if_pos htw] at h
        split at h
        · cases h
        · rename_i t ht
          obtain ⟨rfl, rfl⟩ := h
          -- the timewait list takes the connection in again, with a new expiry time
          unfold usnet_add_timewait_list at ht
          simp only at ht
          split at ht
          · obtain rfl := Except.ok.inj ht
            exact ⟨by decide, .control hst ⟨rfl, rfl, rfl, rfl, rfl⟩ ⟨_, rfl⟩ ⟨rfl, rfl, rfl⟩⟩
          · split at ht
            · cases ht
            · obtain rfl := Except.ok.inj ht
              exact ⟨by decide, .control hst ⟨rfl, rfl, rfl, rfl, rfl⟩ ⟨_, rfl⟩ ⟨rfl, rfl, rfl⟩⟩
      · rw [if_neg htw] at h
        obtain ⟨rfl, rfl⟩ := h
        exact ⟨by decide, .control hst ⟨rfl, rfl, rfl, rfl, rfl⟩ ⟨_, rfl⟩ ⟨rfl, rfl, rfl⟩⟩

/-- A refusal answers, and has stored the timestamp where there was one. -/
theorem refused_answered {s s' : Conn} {seg : Segment}
    (h : input_segment s seg = .ok (-3, s')) :
    s.tcb.state.val ≥ TcpState.syn_received.val ∧
    ∃ s₁, Answered s₁ s' ∧
      (stored_timestamp s.tcb seg = none ∧ s₁ = s ∨
        ∃ ts_val ts_ref,
          stored_timestamp s.tcb seg = some (ts_val, ts_ref) ∧
          s₁ = stamp s ts_val ts_ref) := by
  rcases input_segment_cases h with ⟨-, r₀, hneg, hchk⟩ | ⟨hr, -⟩
  · unfold check_segment at hchk
    by_cases hst : s.tcb.state.val ≥ TcpState.syn_received.val
    · rw [if_pos hst] at hchk
      refine ⟨hst, ?_⟩
      unfold usnet_validate_seq at hchk
      split at hchk
      · cases hchk
      · rename_i r₁ s₁ hts
        -- the timestamp is stored before the window is looked at
        rcases validate_timestamp_cases hts with ⟨hr₁, hnone, hs₁⟩ | ⟨rfl, hnone, rfl⟩ |
          ⟨rfl, ts_val, ts_ref, hsome, rfl⟩
        · rw [if_pos hr₁] at hchk
          obtain ⟨-, rfl⟩ := hchk
          refine ⟨s, ?_, .inl ⟨hnone, rfl⟩⟩
          rcases hs₁ with rfl | rfl
          · exact .refl _
          · exact .enqueue_ack s _
        · rw [if_neg (by decide)] at hchk
          split at hchk
          · obtain ⟨rfl, -⟩ := hchk
            exact absurd hneg (by decide)
          · exact ⟨_, (reject_seq_answered hst hchk).2, .inl ⟨hnone, rfl⟩⟩
        · rw [if_neg (by decide)] at hchk
          split at hchk
          · obtain ⟨rfl, -⟩ := hchk
            exact absurd hneg (by decide)
          · have hans := reject_seq_answered (s := stamp s ts_val ts_ref) hst hchk
            exact ⟨stamp s ts_val ts_ref, hans.2, .inr ⟨ts_val, ts_ref, hsome, rfl⟩⟩
    · rw [if_neg hst] at hchk
      obtain ⟨rfl, -⟩ := hchk
      exact absurd hneg (by decide)
  · cases hr

/-- A refused segment changes nothing exactly when it stores no new timestamp. -/
theorem refused_unchanged_iff {s s' : Conn} {seg : Segment}
    (h : input_segment s seg = .ok (-3, s')) :
    Unchanged s s' ↔ stores_nothing_new s.tcb seg := by
  obtain ⟨-, s₁, hans, hstored⟩ := refused_answered h
  obtain ⟨⟨hnxt, -, huna, hpeer, -⟩, ⟨e, hrcv⟩, hsndnxt, hlast⟩ := hans
  rcases hstored with ⟨hnone, rfl⟩ | ⟨ts_val, ts_ref, hsome, rfl⟩
  · refine ⟨fun _ v e hs => ?_, fun _ => ?_⟩
    · rw [hnone] at hs
      cases hs
    · exact ⟨⟨hnxt, by rw [hrcv]⟩, ⟨by rw [hrcv], by rw [hrcv]⟩, ⟨huna, hpeer⟩, hsndnxt, hlast⟩
  · have hrecent : s'.tcb.rcvvar.ts_recent = ts_val := by rw [hrcv]; rfl
    have hlastack : s'.tcb.rcvvar.ts_lastack_rcvd = ts_ref := by rw [hrcv]; rfl
    refine ⟨fun hun v e hs => ?_, fun hnew => ?_⟩
    · rw [hsome] at hs
      obtain ⟨rfl, rfl⟩ := Prod.mk.inj (Option.some.inj hs)
      exact ⟨hrecent.symm.trans hun.timestamps.1, hlastack.symm.trans hun.timestamps.2⟩
    · obtain ⟨hv, hr⟩ := hnew _ _ hsome
      exact ⟨⟨hnxt, by rw [hrcv]; rfl⟩, ⟨hrecent.trans hv, hlastack.trans hr⟩, ⟨huna, hpeer⟩,
        hsndnxt, hlast.congr rfl rfl rfl rfl rfl⟩

/-! ## Section 4: Segments that follow -/

/-- The segment passes the sequence check. -/
def passes (s : Conn) (seg : Segment) : Prop := ∃ s', check_segment s seg = .ok (0, s')

/-- What the check reads of a connection, and what else it must not change. -/
structure Validates (t t' : UsnTcb) : Prop where
  state : t'.state = t.state
  saw_timestamp : t'.saw_timestamp = t.saw_timestamp
  receive : t'.rcv_nxt = t.rcv_nxt ∧ t'.rcvvar.rcv_wnd = t.rcvvar.rcv_wnd
  timestamps : t'.rcvvar.ts_recent = t.rcvvar.ts_recent ∧
    t'.rcvvar.ts_lastack_rcvd = t.rcvvar.ts_lastack_rcvd

theorem Validates.refl (t : UsnTcb) : Validates t t := ⟨rfl, rfl, ⟨rfl, rfl⟩, rfl, rfl⟩

theorem Validates.trans {t t' t'' : UsnTcb} (h : Validates t t') (h' : Validates t' t'') :
    Validates t t'' :=
  ⟨h'.state.trans h.state, h'.saw_timestamp.trans h.saw_timestamp,
    ⟨h'.receive.1.trans h.receive.1, h'.receive.2.trans h.receive.2⟩,
    h'.timestamps.1.trans h.timestamps.1, h'.timestamps.2.trans h.timestamps.2⟩

/-- The timestamp half lets a segment through that has a timestamp to store, or
    needs none. -/
theorem validate_timestamp_passes {s : Conn} {seg : Segment} :
    (∃ s₁, validate_timestamp s seg = .ok (0, s₁)) ↔
    (seg.has TH_RST = false ∧ s.tcb.saw_timestamp → (stored_timestamp s.tcb seg).isSome) := by
  unfold validate_timestamp stored_timestamp
  by_cases hts : seg.has TH_RST = false ∧ s.tcb.saw_timestamp
  · simp only [if_pos hts]
    cases hparse : usnet_parse_tcptimestamp seg with
    | error e => simp [hts]
    | ok o =>
      cases o with
      | none => simp [hts]
      | some p =>
        obtain ⟨ts_val, ts_ref⟩ := p
        by_cases hlt : TCP_SEQ_LT ts_val s.tcb.rcvvar.ts_recent <;> simp [hts, hlt]
  · simp [hts]

/-- A segment passes when both halves of the check let it through. -/
theorem passes_iff {s : Conn} {seg : Segment} :
    passes s seg ↔
    (s.tcb.state.val ≥ TcpState.syn_received.val →
      (∃ s₁, validate_timestamp s seg = .ok (0, s₁)) ∧ in_window s.tcb seg) := by
  unfold passes
  by_cases hst : s.tcb.state.val ≥ TcpState.syn_received.val
  · have hchk : check_segment s seg = usnet_validate_seq s seg := if_pos hst
    simp only [hchk, hst, true_implies]
    refine ⟨?_, ?_⟩
    -- a result of 0 comes from the window only, behind a timestamp that is let through
    · rintro ⟨s', h⟩
      unfold usnet_validate_seq at h
      split at h
      · cases h
      · rename_i r₁ s₁ hts
        have hq := validate_timestamp_quiet hts
        by_cases hneg : r₁ < 0
        · rw [if_pos hneg] at h
          obtain ⟨rfl, -⟩ := h
          exact absurd hneg (by decide)
        · rw [if_neg hneg] at h
          have hzero : r₁ = 0 := by
            rcases validate_timestamp_cases hts with ⟨hr, -⟩ | ⟨hr, -⟩ | ⟨hr, -⟩
            · exact absurd hr hneg
            · exact hr
            · exact hr
          by_cases hwin : in_window s₁.tcb seg
          · refine ⟨⟨s₁, by rw [hts, hzero]⟩, ?_⟩
            exact (in_window_congr (by simp [hq]) (by simp [hq])).mp hwin
          · rw [if_neg hwin] at h
            have hst₁ : s₁.tcb.state = s.tcb.state := by simp [hq]
            exact absurd (reject_seq_answered (hst₁ ▸ hst) h).1 (by decide)
    · rintro ⟨⟨s₁, hts⟩, hwin⟩
      have hq := validate_timestamp_quiet hts
      have hwin₁ : in_window s₁.tcb seg :=
        (in_window_congr (by simp [hq]) (by simp [hq])).mpr hwin
      refine ⟨s₁, ?_⟩
      unfold usnet_validate_seq
      rw [hts]
      simp only
      rw [if_neg (by decide), if_pos hwin₁]
  · have hchk : check_segment s seg = .ok (0, s) := if_neg hst
    exact ⟨fun _ h => absurd h hst, fun _ => ⟨s, hchk⟩⟩

theorem Validates.passes {t t' : UsnTcb} (h : Validates t t') (c : Ctx) (seg : Segment) :
    passes ⟨c, t'⟩ seg ↔ passes ⟨c, t⟩ seg := by
  have hstored : stored_timestamp t' seg = stored_timestamp t seg := by
    unfold stored_timestamp
    rw [h.saw_timestamp, h.timestamps.1]
  have hwin : in_window t' seg ↔ in_window t seg := in_window_congr h.receive.1 h.receive.2
  rw [passes_iff, passes_iff, validate_timestamp_passes, validate_timestamp_passes]
  simp only [h.state, h.saw_timestamp, hstored, hwin]

/-- A refused segment, in whatever context. -/
def Refusal (t : UsnTcb) (a : Ctx × Segment) (t' : UsnTcb) : Prop :=
  ∃ c', usnet_tcp_input a.1 (some t) a.2 = .ok (-3, c', some t')

theorem usnet_tcp_input_found {c c' : Ctx} {t t' : UsnTcb} {seg : Segment} {r : Int}
    (h : usnet_tcp_input c (some t) seg = .ok (r, c', some t')) :
    input_segment ⟨c, t⟩ seg = .ok (r, ⟨c', t'⟩) := by
  unfold usnet_tcp_input at h
  simp only [bind, Except.bind] at h
  cases hin : input_segment ⟨c, t⟩ seg with
  | error e => simp [hin] at h
  | ok p =>
    obtain ⟨r₀, s⟩ := p
    simp only [hin, pure, Except.pure] at h
    obtain ⟨rfl, rfl, hs⟩ := h
    rfl

/-- A refusal that stores nothing new keeps what the check reads. -/
theorem Refusal.validates {t t' : UsnTcb} {a : Ctx × Segment} (h : Refusal t a t')
    (hnew : stores_nothing_new t a.2) : Validates t t' := by
  obtain ⟨c', h⟩ := h
  have hin := usnet_tcp_input_found h
  have hun := (refused_unchanged_iff hin).mpr hnew
  obtain ⟨-, s₁, hans, hs₁⟩ := refused_answered hin
  obtain ⟨hsaw, hstate⟩ : t'.saw_timestamp = t.saw_timestamp ∧ t'.state = t.state := by
    obtain ⟨-, hsaw, -, -, hstate⟩ := hans.kept
    rcases hs₁ with ⟨-, rfl⟩ | ⟨ts_val, ts_ref, -, rfl⟩
    · exact ⟨hsaw, hstate⟩
    · exact ⟨hsaw, hstate⟩
  exact ⟨hstate, hsaw, hun.receive, hun.timestamps⟩

/-- So does a sequence of them. -/
theorem refusals_validate {t t' : UsnTcb}
    (h : RunWhere Refusal (fun t a => stores_nothing_new t a.2) (· = t) t') :
    Validates t t' := by
  refine h.invariant (fun t' ht => ?_) (fun t₁ a t₂ ih hc hs => ?_)
  · rw [ht]
    exact .refl _
  · exact ih.trans (hs.validates hc)

/-! ## Section 5: The result -/

/-- A segment that `usnet_tcp_input` drops leaves the connection as it was
    exactly when it stores no new timestamp, and after any number of such
    segments the same segments pass the check as before. -/
theorem refused_leaves_unchanged (t t' : UsnTcb) :
    (∀ c seg c', usnet_tcp_input c (some t) seg = .ok (-3, c', some t') →
      (Unchanged ⟨c, t⟩ ⟨c', t'⟩ ↔ stores_nothing_new t seg)) ∧
    (RunWhere Refusal (fun t a => stores_nothing_new t a.2) (· = t) t' →
      ∀ c seg, passes ⟨c, t'⟩ seg ↔ passes ⟨c, t⟩ seg) := by
  refine ⟨fun c seg c' h => ?_, fun h c seg => ?_⟩
  · exact refused_unchanged_iff (usnet_tcp_input_found h)
  · exact (refusals_validate h).passes c seg

/-- A segment outside the window that carries no timestamp: dropped, and nothing of
    it is left. -/
theorem refused_leaves_unchanged_sample :
    ∃ c' t', usnet_tcp_input quiet_ctx (some opened_tcb)
        (peer_segment 3000000 0 TH_ACK [] (by decide)) = .ok (-3, c', some t') ∧
      Unchanged ⟨quiet_ctx, opened_tcb⟩ ⟨c', t'⟩ ∧
      (passes ⟨quiet_ctx, t'⟩ (peer_segment 9001 5001 TH_ACK [7] (by decide)) ↔
        passes ⟨quiet_ctx, opened_tcb⟩ (peer_segment 9001 5001 TH_ACK [7] (by decide))) := by
  have hnew : stores_nothing_new opened_tcb (peer_segment 3000000 0 TH_ACK [] (by decide)) := by
    decide
  refine ⟨_, _, rfl, ?_, ?_⟩
  · exact ((refused_leaves_unchanged opened_tcb _).1 _ _ _ rfl).mpr hnew
  · refine (refused_leaves_unchanged opened_tcb _).2 ?_ quiet_ctx _
    exact .step (a := (quiet_ctx, peer_segment 3000000 0 TH_ACK [] (by decide)))
      (.init rfl) hnew ⟨_, rfl⟩

/-- A segment from the peer of `opened_tcb` with a timestamp. -/
def stamped_segment (seq ack_seq : UInt32) (flags : UInt8) (ts_val : UInt8)
    (payload : List UInt8) (short : payload.length < 2 ^ 16) : Segment :=
  { peer_segment seq ack_seq flags payload short with
    opts := [1, 1, 8, 10, 0, 0, 0, ts_val, 0, 0, 0, 0] }

/-- The handshake of a peer that uses timestamps. -/
def stamped_handshake : List (Ctx × LifeEvent) :=
  [(quiet_ctx, .segment (stamped_segment 9000 0 TH_SYN 100 [] nil_short)),
   (quiet_ctx, .accept true 5 0),
   (quiet_ctx, .segment (stamped_segment 9001 5001 TH_ACK 101 [] nil_short))]

/-- The connection it leaves. -/
def stamped_tcb : UsnTcb := (life_run none stamped_handshake).toOption.join.get rfl

theorem stamped_tcb_reachable : LifeReachable (some stamped_tcb) :=
  .run (.init rfl) (life_run_meets_true none stamped_handshake) rfl

/-- The connection after a segment. -/
def after_segment (c : Ctx) (t : UsnTcb) (seg : Segment) : Option (Ctx × UsnTcb) :=
  match usnet_tcp_input c (some t) seg with
  | .ok (_, c, some t) => some (c, t)
  | _ => none

/-- What a segment far outside the window with a timestamp of its own leaves. -/
def misled : Ctx × UsnTcb :=
  (after_segment quiet_ctx stamped_tcb
    (stamped_segment 3000000 0 TH_ACK 200 [] nil_short)).get rfl

/-- That segment is dropped; the peer's next segment, which would have passed, is
    dropped too. -/
theorem forged_segment_blocks : LifeReachable (some stamped_tcb) ∧
    usnet_tcp_input quiet_ctx (some stamped_tcb)
        (stamped_segment 3000000 0 TH_ACK 200 [] (by decide))
      = .ok (-3, misled.1, some misled.2) ∧
    ¬ Unchanged ⟨quiet_ctx, stamped_tcb⟩ ⟨misled.1, misled.2⟩ ∧
    passes ⟨quiet_ctx, stamped_tcb⟩ (stamped_segment 9001 5001 TH_ACK 102 [7] (by decide)) ∧
    ¬ passes ⟨quiet_ctx, misled.2⟩ (stamped_segment 9001 5001 TH_ACK 102 [7] (by decide)) := by
  refine ⟨stamped_tcb_reachable, rfl, ?_, ⟨_, rfl⟩, ?_⟩
  · intro h
    exact absurd h.timestamps.1 (by decide)
  · rintro ⟨s', h⟩
    have hpaws : (check_segment ⟨quiet_ctx, misled.2⟩
        (stamped_segment 9001 5001 TH_ACK 102 [7] (by decide))).toOption.map Prod.fst
        = some (-2) := by decide
    rw [h] at hpaws
    have hzero : (0 : Int) = -2 := Option.some.inj hpaws
    exact absurd hzero (by decide)

end Usnet
