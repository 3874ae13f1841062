import Usnet.InputSpec

/-! # Resets

    A segment with RST set is meant to end a connection and to do nothing else.
    The source's own handling of it comes apart in four places: a SYN with RST
    for which there is no connection is treated as a SYN, a listening
    connection does not look at RST, a reset that SYN_RECEIVED does not take
    may still complete the handshake, and `usnet_handle_rst` returns 0 in every
    case, so that the ordinary handler of the new state runs on the segment.
-/

namespace Usnet

open CInt

/-! ## Section 1: What is promised -/

/-- `usnet_handle_rst` takes the reset: the connection is closed by it. -/
def reset_accepted (tcb : UsnTcb) (seg : Segment) : Prop :=
  in_window tcb seg ∧
  match tcb.state with
  | .closed | .listen | .syn_sent => False
  | .syn_received => seg.ack_seq = tcb.rcv_nxt
  | .established | .close_wait =>
    (tcb.sndvar.on_closeq || tcb.sndvar.on_closeq_int || tcb.sndvar.on_resetq ||
      tcb.sndvar.on_resetq_int) = false
  | _ => True

/-- A call of `usnet_tcp_input` only tears down. -/
structure TearsDown (c : Ctx) (found : Option UsnTcb) (seg : Segment) (c' : Ctx)
    (tcb' : Option UsnTcb) : Prop where
  no_creation : found = none → tcb' = none
  no_opening : ∀ t', tcb' = some t' → t'.state = .syn_received ∨ t'.state = .established →
    ∃ t, found = some t ∧ t.state = t'.state
  no_reset_sent : Sends (fun f => has f.flags TH_RST = false) c c'
  not_applied : ∀ t, found = some t → reset_accepted t seg → c'.applied = c.applied

/-- A connection would be made for the segment. -/
def would_create (c : Ctx) (seg : Segment) : Prop :=
  ∃ l, usnet_handle_syn_pkt c seg.ip_dst seg.th_dport = some l ∧
    (usnet_init_newtcb c l seg.ip_dst seg.th_dport seg.ip_src seg.th_sport).isSome

/-- The acknowledgement of a segment passes the first check of
    `usnet_process_ack` in CLOSE_WAIT. -/
def ack_passes (tcb : UsnTcb) (seg : Segment) : Prop :=
  ∃ buf, tcb.sndvar.sndbuf = some buf ∧
    let ack_seq := if tcb.sndvar.is_fin_sent ∧ seg.ack_seq = tcb.sndvar.fss + 1 then
        seg.ack_seq - 1
      else seg.ack_seq
    ¬ TCP_SEQ_GT ack_seq (buf.head_seq + buf.len)

/-- The segments with RST set that the code handles as promised. -/
def reset_handled (c : Ctx) (found : Option UsnTcb) (seg : Segment) : Prop :=
  match found with
  | none => seg.has TH_SYN → seg.has TH_ACK = false →
      ¬ would_create c seg ∧ (usnet_ipv4_output c).1 = false
  | some t =>
    match t.state with
    | .listen => seg.has TH_SYN = false
    | .syn_received => in_window t seg → seg.ack_seq ≠ t.rcv_nxt → seg.has TH_ACK →
        seg.ack_seq ≠ t.sndvar.iss + 1
    | .established | .close_wait => reset_accepted t seg → ack_passes t seg →
        TCP_SEQ_LT seg.seq t.rcv_nxt
    | _ => True

/-! ## Section 2: No connection -/

/-- A reply goes out exactly when the interface takes it. -/
theorem reply_rst_frames (c : Ctx) (seg : Segment) (seq ack_seq : UInt32) (flags : UInt8) :
    ((usnet_ipv4_output c).1 = false →
      (reply_rst c seg seq ack_seq flags).frames = c.frames) ∧
    ((usnet_ipv4_output c).1 = true → ∃ f : Frame,
      (reply_rst c seg seq ack_seq flags).frames = c.frames ++ [f] ∧ f.flags = flags) := by
  unfold reply_rst usnet_send_tcp_packet_alone
  constructor
  · intro hout
    simp [hout]
  · intro hout
    simp [hout]

/-- What `usnet_handle_passive_open` answers to a reset: nothing, unless it is a
    SYN as well. -/
theorem usnet_handle_passive_open_rst {c c' : Ctx} {seg : Segment} {cur : Option UsnTcb}
    (hrst : seg.has TH_RST) (h : usnet_handle_passive_open c seg = .ok (c', cur)) :
    (¬ (seg.has TH_SYN ∧ seg.has TH_ACK = false) ∧ c' = c ∧ cur = none) ∨
    ((seg.has TH_SYN ∧ seg.has TH_ACK = false) ∧ would_create c seg ∧ cur.isSome) ∨
    ((seg.has TH_SYN ∧ seg.has TH_ACK = false) ∧ ¬ would_create c seg ∧ cur = none ∧
      c' = reply_rst c seg 0 (seg.seq + seg.payloadlen + 1) (TH_RST ||| TH_ACK)) := by
  unfold usnet_handle_passive_open at h
  -- the SYN is looked at first, and the reset only in its `else`
  by_cases hsyn : seg.has TH_SYN ∧ ¬ seg.has TH_ACK
  · rw [if_pos hsyn] at h
    have hsyn' : seg.has TH_SYN ∧ seg.has TH_ACK = false := by simpa using hsyn
    right
    simp only at h
    cases hl : usnet_handle_syn_pkt c seg.ip_dst seg.th_dport with
    | none =>
      simp only [hl] at h
      obtain ⟨rfl, rfl⟩ := h
      exact .inr ⟨hsyn', fun ⟨l, hl', _⟩ => by simp [hl] at hl', rfl, rfl⟩
    | some l =>
      simp only [hl] at h
      unfold usnet_create_tcb at h
      cases hn : usnet_init_newtcb c l seg.ip_dst seg.th_dport seg.ip_src seg.th_sport with
      | none =>
        simp only [hn] at h
        obtain ⟨rfl, rfl⟩ := h
        refine .inr ⟨hsyn', fun ⟨l', hl', hsome⟩ => ?_, rfl, rfl⟩
        obtain rfl : l = l' := by simpa [hl] using hl'
        simp [hn] at hsome
      | some tcb =>
        simp only [hn] at h
        cases hopts : usnet_parse_tcpopts c.cur_time seg
          { tcb with
            rcvvar := { tcb.rcvvar with irs := seg.seq }
            sndvar := { tcb.sndvar with peer_wnd := seg.window.toUInt32, cwnd := 1 }
            rcv_nxt := seg.seq } with
        | error e => simp [hopts, bind, Except.bind] at h
        | ok tcb' =>
          simp only [hopts, bind, Except.bind, pure, Except.pure] at h
          obtain ⟨rfl, rfl⟩ := h
          exact .inl ⟨hsyn', ⟨l, hl, by simp [hn]⟩, rfl⟩
  · rw [if_neg hsyn, if_pos hrst] at h
    obtain ⟨rfl, rfl⟩ := h
    exact .inl ⟨by simpa using hsyn, rfl, rfl⟩

/-- With no connection the promise is kept unless the segment is also a SYN. -/
theorem tears_down_none {c c' : Ctx} {seg : Segment} {tcb' : Option UsnTcb} {ret : Int}
    (hrst : seg.has TH_RST) (h : usnet_tcp_input c none seg = .ok (ret, c', tcb')) :
    TearsDown c none seg c' tcb' ↔ reset_handled c none seg := by
  unfold usnet_tcp_input at h
  cases hopen : usnet_handle_passive_open c seg with
  | error e => simp [hopen, bind, Except.bind] at h
  | ok p =>
    obtain ⟨c₁, cur⟩ := p
    simp only [hopen, bind, Except.bind] at h
    -- nothing happens, or a connection is created, or the reset is answered by one
    rcases usnet_handle_passive_open_rst hrst hopen with
      ⟨hsyn, rfl, rfl⟩ | ⟨⟨hsyn, hack⟩, hcreate, hcur⟩ | ⟨⟨hsyn, hack⟩, hcreate, rfl, rfl⟩
    · obtain ⟨-, rfl, rfl⟩ := h
      constructor
      · intro _ hs ha
        exact absurd ⟨hs, ha⟩ hsyn
      · intro _
        exact ⟨fun _ => rfl, fun t' ht' => (nomatch ht'), .of_eq rfl,
        fun t ht => (nomatch ht)⟩
    · obtain ⟨tcb, rfl⟩ := Option.isSome_iff_exists.mp hcur
      cases hin : input_segment ⟨c₁, tcb⟩ seg with
      | error e => simp [hin] at h
      | ok q =>
        obtain ⟨r, s⟩ := q
        simp only [hin, pure, Except.pure] at h
        obtain ⟨-, -, rfl⟩ := h
        constructor
        · intro ht
          have hnone := ht.no_creation rfl
          cases hnone
        · intro hok
          exact absurd hcreate (hok hsyn hack).1
    · obtain ⟨-, rfl, rfl⟩ := h
      have hframes := reply_rst_frames c seg 0 (seg.seq + seg.payloadlen + 1)
        (TH_RST ||| TH_ACK)
      constructor
      · intro ht _ _
        refine ⟨hcreate, ?_⟩
        by_contra hout
        obtain ⟨f, hf, hflags⟩ := hframes.2 (by simpa using hout)
        obtain ⟨sent, hsent, hno⟩ := ht.no_reset_sent
        have heq : sent = [f] := List.append_cancel_left (hsent.symm.trans hf)
        have hnone : has f.flags TH_RST = false := hno f (by simp [heq])
        rw [hflags] at hnone
        exact absurd hnone (by decide)
      · intro hok
        exact ⟨fun _ => rfl, fun t' ht' => (nomatch ht'),
          .of_eq (hframes.1 (hok hsyn hack).2), fun t ht => (nomatch ht)⟩

/-! ## Section 3: A connection before the handshake is complete -/

/-- The connection as the reset logic finds it. -/
def marked (s : Conn) (seg : Segment) : Conn :=
  (note_segment s seg).onTcb fun t => { t with have_reset := true }

@[simp] theorem marked_quiet (s : Conn) (seg : Segment) : Quiet s (marked s seg) := by
  simp [marked]

/-- The queue flags the reset logic looks at. -/
@[simp] theorem marked_queues (s : Conn) (seg : Segment) :
    (marked s seg).tcb.sndvar.on_closeq = s.tcb.sndvar.on_closeq ∧
    (marked s seg).tcb.sndvar.on_closeq_int = s.tcb.sndvar.on_closeq_int ∧
    (marked s seg).tcb.sndvar.on_resetq = s.tcb.sndvar.on_resetq ∧
    (marked s seg).tcb.sndvar.on_resetq_int = s.tcb.sndvar.on_resetq_int := by
  simp [marked, note_segment]

/-- A segment with RST is dropped outside the window; otherwise it goes through
    the reset logic to the handler of the state that leaves. -/
theorem input_segment_rst {s s' : Conn} {seg : Segment} {r : Int} (hrst : seg.has TH_RST)
    (h : input_segment s seg = .ok (r, s')) :
    (s.tcb.state.val ≥ TcpState.syn_received.val ∧ ¬ in_window s.tcb seg ∧ s' = s) ∨
    (s.tcb.state.val < TcpState.syn_received.val ∧
      handle_state (marked s seg) seg = .ok s') ∨
    (s.tcb.state.val ≥ TcpState.syn_received.val ∧ in_window s.tcb seg ∧
      handle_state (usnet_handle_rst (marked s seg) seg.ack_seq).2 seg = .ok s') := by
  have hst : ∀ u : Conn, (note_segment u seg).tcb.state = u.tcb.state := by
    intro u
    simp
  -- the reset logic is for the states from SYN_RECEIVED on
  have hlow : s.tcb.state.val < TcpState.syn_received.val →
      (process_rst (note_segment s seg) seg).2 = marked s seg := by
    intro hv
    unfold process_rst
    simp only [hrst, if_true, Conn.onTcb_tcb, hst]
    rw [if_neg (by simp only [TcpState.val] at hv ⊢; omega)]
    rfl
  have hhigh : s.tcb.state.val ≥ TcpState.syn_received.val →
      (process_rst (note_segment s seg) seg).2
        = (usnet_handle_rst (marked s seg) seg.ack_seq).2 := by
    intro hv
    unfold process_rst
    simp only [hrst, if_true, Conn.onTcb_tcb, hst]
    rw [if_pos (by simp only [TcpState.val] at hv ⊢; omega)]
    rfl
  by_cases hv : s.tcb.state.val ≥ TcpState.syn_received.val
  · have hchk : check_segment s seg = .ok (if in_window s.tcb seg then 0 else -3, s) := by
      unfold check_segment
      rw [if_pos hv, usnet_validate_seq_rst hrst]
    rcases input_segment_cases h with ⟨-, r₀, hneg, hc⟩ | ⟨-, r₀, s₁, hneg, hc, hs⟩
    · rw [hchk] at hc
      obtain ⟨rfl, rfl⟩ := hc
      left
      refine ⟨hv, fun hw => ?_, rfl⟩
      simp [hw] at hneg
    · rw [hchk] at hc
      obtain ⟨rfl, rfl⟩ := hc
      right
      right
      refine ⟨hv, ?_, hhigh hv ▸ hs⟩
      by_contra hw
      simp [hw] at hneg
  · have hchk : check_segment s seg = .ok (0, s) := by
      unfold check_segment
      rw [if_neg hv]
    rcases input_segment_cases h with ⟨-, r₀, hneg, hc⟩ | ⟨-, r₀, s₁, hneg, hc, hs⟩
    · rw [hchk] at hc
      obtain ⟨rfl, rfl⟩ := hc
      exact absurd hneg (by decide)
    · rw [hchk] at hc
      obtain ⟨rfl, rfl⟩ := hc
      exact .inr (.inl ⟨by omega, hlow (by omega) ▸ hs⟩)

/-- The promise for a connection that exists. -/
structure DownOnly (s : Conn) (seg : Segment) (s' : Conn) : Prop where
  no_opening : s'.tcb.state = .syn_received ∨ s'.tcb.state = .established →
    s.tcb.state = s'.tcb.state
  no_reset_sent : Sends (fun f => has f.flags TH_RST = false) s.ctx s'.ctx
  not_applied : reset_accepted s.tcb seg → s'.ctx.applied = s.ctx.applied

theorem tearsDown_some {c c' : Ctx} {t t' : UsnTcb} {seg : Segment} :
    TearsDown c (some t) seg c' (some t') ↔ DownOnly ⟨c, t⟩ seg ⟨c', t'⟩ := by
  constructor
  · intro h
    refine ⟨fun hst => ?_, h.no_reset_sent, h.not_applied t rfl⟩
    obtain ⟨u, hu, hut⟩ := h.no_opening t' rfl hst
    obtain rfl : t = u := Option.some.inj hu
    exact hut
  · intro h
    refine ⟨fun hn => (nomatch hn), ?_, h.no_reset_sent, ?_⟩
    · intro u hu hst
      obtain rfl : t' = u := Option.some.inj hu
      exact ⟨t, rfl, h.no_opening hst⟩
    · intro u hu hacc
      obtain rfl : t = u := Option.some.inj hu
      exact h.not_applied hacc

/-- Steps that send nothing and apply nothing, and end in a state that is not
    an opening one. -/
theorem DownOnly.of_quiet {s s' : Conn} {seg : Segment}
    (hst : s'.tcb.state = s.tcb.state ∨
      (s'.tcb.state ≠ .syn_received ∧ s'.tcb.state ≠ .established))
    (hframes : s'.ctx.frames = s.ctx.frames) (happ : s'.ctx.applied = s.ctx.applied) :
    DownOnly s seg s' := by
  refine ⟨fun ho => ?_, .of_eq hframes, fun _ => happ⟩
  rcases hst with hst | ⟨h₁, h₂⟩
  · exact hst.symm
  · rcases ho with ho | ho
    · exact absurd ho h₁
    · exact absurd ho h₂

/-- `usnet_handle_syn_sent` given a reset. -/
theorem usnet_handle_syn_sent_rst {s : Conn} {seg : Segment} (hrst : seg.has TH_RST) :
    ((usnet_handle_syn_sent s seg).tcb.state = s.tcb.state ∨
      (usnet_handle_syn_sent s seg).tcb.state = .close_wait) ∧
    (usnet_handle_syn_sent s seg).ctx.frames = s.ctx.frames ∧
    (usnet_handle_syn_sent s seg).ctx.applied = s.ctx.applied := by
  unfold usnet_handle_syn_sent
  by_cases hbad : seg.has TH_ACK ∧ (TCP_SEQ_LEQ seg.ack_seq s.tcb.sndvar.iss ∨
      TCP_SEQ_GT seg.ack_seq s.tcb.snd_nxt)
  · simp [hbad, hrst]
  · rw [if_neg hbad]
    by_cases hack : seg.has TH_ACK
    · by_cases hso : s.tcb.socket.isSome <;> simp [hack, hrst, hso]
    · simp [hack, hrst]

/-- SYN_RECEIVED keeps the promise unless the handshake is completed by a reset
    it does not take. -/
theorem down_only_syn_received {s s' : Conn} {seg : Segment}
    (hst : s.tcb.state = .syn_received)
    (h : handle_state (usnet_handle_rst (marked s seg) seg.ack_seq).2 seg = .ok s') :
    DownOnly s seg s' ↔
      (seg.ack_seq ≠ s.tcb.rcv_nxt → seg.has TH_ACK →
        seg.ack_seq ≠ s.tcb.sndvar.iss + 1) := by
  have hm : (marked s seg).tcb.state = .syn_received := by simp [hst]
  unfold usnet_handle_rst at h
  simp only [hm] at h
  -- the reset is taken if it acknowledges `rcv_nxt`; else the handshake goes on with it
  by_cases hack : seg.ack_seq = s.tcb.rcv_nxt
  · have hack' : seg.ack_seq = (marked s seg).tcb.rcv_nxt := by simpa using hack
    rw [if_pos hack'] at h
    simp only [handle_state, usnet_release_tcb_kept, Conn.onTcb_tcb] at h
    obtain rfl := Except.ok.inj h
    constructor
    · intro _ hne
      exact absurd hack hne
    · intro _
      exact .of_quiet (.inr (by simp)) (by simp) (by simp)
  · have hack' : ¬ seg.ack_seq = (marked s seg).tcb.rcv_nxt := by simpa using hack
    rw [if_neg hack'] at h
    simp only [handle_state, hm] at h
    rcases usnet_handle_syn_received_cases h with
      ⟨hA, hne, rfl⟩ | ⟨hA, heq, hest⟩ | ⟨hA, rfl⟩
    · constructor
      · intro _ _ _
        simpa using hne
      · intro _
        exact .of_quiet (.inl (by simp)) (by simp) (by simp)
    · constructor
      · intro hd
        have hbad := hd.no_opening (.inr hest.state)
        rw [hst, hest.state] at hbad
        cases hbad
      · intro hc
        exact absurd (by simpa using heq) (hc hack hA)
    · constructor
      · intro _ _ hA'
        rw [hA] at hA'
        cases hA'
      · intro _
        refine ⟨fun _ => by simp, ?_, fun _ => by simp⟩
        refine ((usnet_add_control_list_sends _).mono ?_).congr (by simp) rfl
        rintro f ⟨hf, -⟩
        have hflags : f.flags = TH_SYN ||| TH_ACK := by simpa [hst, control_flags] using hf
        rw [hflags]
        decide

/-! ## Section 4: An open connection -/

/-- What follows once a reset has moved an open connection to CLOSE_WAIT. -/
theorem down_only_taken {s u s' : Conn} {seg : Segment} (hacc : reset_accepted s.tcb seg)
    (hu : u.tcb.state = .close_wait) (hq : SameSend s u) (hf : u.ctx.frames = s.ctx.frames)
    (hnxt : u.tcb.rcv_nxt = s.tcb.rcv_nxt)
    (hfin : u.tcb.sndvar.is_fin_sent = s.tcb.sndvar.is_fin_sent ∧
      u.tcb.sndvar.fss = s.tcb.sndvar.fss)
    (h : usnet_handle_close_wait u seg = .ok s') :
    DownOnly s seg s' ↔ (ack_passes s.tcb seg → TCP_SEQ_LT seg.seq s.tcb.rcv_nxt) := by
  obtain ⟨hst, hsends⟩ := usnet_handle_close_wait_state hu h
  have hcount : counted_ack u seg.ack_seq
      = if s.tcb.sndvar.is_fin_sent ∧ seg.ack_seq = s.tcb.sndvar.fss + 1 then
          seg.ack_seq - 1
        else seg.ack_seq := by
    simp [counted_ack, hu, hfin]
  have hdown : s'.ctx.applied = s.ctx.applied → DownOnly s seg s' := by
    intro happ
    refine ⟨fun ho => ?_, (hsends.mono ?_).congr hf.symm rfl, fun _ => happ⟩
    · rw [hst] at ho
      rcases ho with ho | ho <;> cases ho
    · rintro f hflags
      rw [hflags]
      decide
  rcases usnet_handle_close_wait_cases h with ⟨hlt, rfl⟩ | ⟨hlt, ho⟩
  · rw [hnxt] at hlt
    exact ⟨fun _ _ => hlt, fun _ => hdown (by simp [hq])⟩
  · rw [hnxt] at hlt
    cases ho with
    | no_buffer hbuf hs =>
      subst hs
      refine ⟨fun _ hp => ?_, fun _ => hdown (by simp [hq])⟩
      obtain ⟨buf, hbuf', -⟩ := hp
      rw [← hq.1.2.2, hbuf] at hbuf'
      cases hbuf'
    | refused buf hbuf hgt hs =>
      subst hs
      refine ⟨fun _ hp => ?_, fun _ => hdown (by simp [hq])⟩
      obtain ⟨buf', hbuf', hpass⟩ := hp
      rw [← hq.1.2.2, hbuf] at hbuf'
      obtain rfl := Option.some.inj hbuf'
      rw [hcount] at hgt
      exact absurd hgt hpass
    | done buf r hbuf hgt hd =>
      constructor
      · intro hdown _
        have happ := hdown.not_applied hacc
        rw [hd.applied, hq.2] at happ
        simp at happ
      · intro hc
        refine absurd (hc ⟨buf, ?_, ?_⟩) hlt
        · rw [← hq.1.2.2, hbuf]
        · rw [hcount] at hgt
          exact hgt

/-- The queue flags keep the reset logic from taking a reset. -/
def queued (v : SndVars) : Bool :=
  v.on_closeq || v.on_closeq_int || v.on_resetq || v.on_resetq_int

theorem down_only_open {s s' : Conn} {seg : Segment}
    (hst : s.tcb.state = .established ∨ s.tcb.state = .close_wait)
    (hwin : in_window s.tcb seg)
    (h : handle_state (usnet_handle_rst (marked s seg) seg.ack_seq).2 seg = .ok s') :
    DownOnly s seg s' ↔
      (reset_accepted s.tcb seg → ack_passes s.tcb seg →
        TCP_SEQ_LT seg.seq s.tcb.rcv_nxt) := by
  have hm : (marked s seg).tcb.state = s.tcb.state := by simp
  have hacc : reset_accepted s.tcb seg ↔ queued s.tcb.sndvar = false := by
    unfold reset_accepted
    rcases hst with hst | hst <;> simp [hst, hwin, queued]
  have hrst : (usnet_handle_rst (marked s seg) seg.ack_seq).2
      = if queued s.tcb.sndvar then marked s seg
        else usnet_raise_tcp_event ((marked s seg).onTcb fun t =>
          { t with state := .close_wait, close_reason := .reset }) := by
    unfold usnet_handle_rst
    rcases hst with hst | hst
    · simp only [hm, hst, marked_queues]
      unfold queued
      split <;> rfl
    · simp only [hm, hst, marked_queues]
      unfold queued
      split <;> rfl
  rw [hrst] at h
  by_cases hq : queued s.tcb.sndvar
  · rw [if_pos hq] at h
    have hna : ¬ reset_accepted s.tcb seg := by simp [hacc, hq]
    refine ⟨fun _ ha => absurd ha hna, fun _ => ?_⟩
    -- the handler of the unchanged state runs; it sends acknowledgements only
    have hend : (s'.tcb.state = s.tcb.state ∨ s'.tcb.state = .closed ∨
        s'.tcb.state = .close_wait) ∧ Sends (fun f => f.flags = TH_ACK) (marked s seg).ctx
          s'.ctx := by
      rcases hst with hst | hst
      · simp only [handle_state, hm, hst] at h
        have hend := usnet_handle_established_state (by simp [hst]) h
        rwa [hst]
      · simp only [handle_state, hm, hst] at h
        have hend := usnet_handle_close_wait_state (by simp [hst]) h
        exact ⟨.inr (.inr hend.1), hend.2⟩
    refine ⟨fun ho => ?_, (hend.2.mono ?_).congr (by simp) rfl, fun ha => absurd ha hna⟩
    · rcases hend.1 with he | he | he
      · exact he.symm
      · rw [he] at ho
        rcases ho with ho | ho <;> cases ho
      · rw [he] at ho
        rcases ho with ho | ho <;> cases ho
    · rintro f hflags
      rw [hflags]
      decide
  · rw [if_neg hq] at h
    have ha : reset_accepted s.tcb seg := by simpa [hacc] using hq
    simp only [handle_state, usnet_raise_tcp_event, raise_tcb, Conn.onTcb_tcb] at h
    have hiff := down_only_taken ha (u := (((marked s seg).onTcb fun t =>
      { t with state := .close_wait, close_reason := .reset }).raise _)) (by simp) (by simp)
      (by simp) (by simp) (by simp) h
    exact ⟨fun hd _ => hiff.mp hd, fun hc => hiff.mpr (hc ha)⟩

/-! ## Section 5: Every reset -/

/-- The promise for a connection that exists, in whatever state it is. -/
theorem down_only_iff {s s' : Conn} {seg : Segment} {r : Int} (hrst : seg.has TH_RST)
    (h : input_segment s seg = .ok (r, s')) :
    DownOnly s seg s' ↔ reset_handled s.ctx (some s.tcb) seg := by
  rcases input_segment_rst hrst h with ⟨hv, hwin, rfl⟩ | ⟨hv, hs⟩ | ⟨hv, hwin, hs⟩
  · -- outside the window: nothing happens, and nothing is asked
    have hd : DownOnly s' seg s' := .of_quiet (.inl rfl) rfl rfl
    refine ⟨fun _ => ?_, fun _ => hd⟩
    have hna : ¬ reset_accepted s'.tcb seg := fun ha => hwin ha.1
    unfold reset_handled
    cases hst : s'.tcb.state <;> simp [hst, TcpState.val] at hv ⊢
    all_goals tauto
  · -- before SYN_RECEIVED the reset logic is not asked
    cases hst : s.tcb.state with
    | closed =>
      simp only [handle_state, (marked_quiet s seg).1.2.2.2.1.2.2.2.2, hst] at hs
      obtain rfl := Except.ok.inj hs
      simp only [reset_handled, hst, iff_true]
      exact .of_quiet (.inl (by simp)) (by simp) (by simp)
    | listen =>
      simp only [handle_state, (marked_quiet s seg).1.2.2.2.1.2.2.2.2, hst] at hs
      obtain rfl := Except.ok.inj hs
      simp only [reset_handled, hst]
      unfold usnet_handle_listen
      by_cases hsyn : seg.has TH_SYN
      · simp only [hsyn, if_true, Bool.true_eq_false, iff_false]
        intro hd
        have hbad := hd.no_opening (.inl (by simp))
        rw [hst] at hbad
        simp at hbad
      · simp only [hsyn, iff_true]
        exact .of_quiet (.inl (by simp)) (by simp) (by simp)
    | syn_sent =>
      simp only [handle_state, (marked_quiet s seg).1.2.2.2.1.2.2.2.2, hst] at hs
      obtain rfl := Except.ok.inj hs
      simp only [reset_handled, hst, iff_true]
      obtain ⟨hend, hframes, happ⟩ := usnet_handle_syn_sent_rst (s := marked s seg) hrst
      refine .of_quiet ?_ (by simp [hframes]) (by simp [happ])
      rcases hend with hend | hend
      · exact .inl (by simp [hend])
      · exact .inr (by simp [hend])
    | _ => simp [hst, TcpState.val] at hv
  · -- from SYN_RECEIVED on the reset logic goes first
    have hclosed : ∀ u : Conn, Kept (marked s seg) u → u.tcb.state = .closed →
        u.ctx.frames = (marked s seg).ctx.frames → handle_state u seg = .ok s' →
        DownOnly s seg s' := by
      intro u hk hu hf hs
      simp only [handle_state, hu] at hs
      obtain rfl := Except.ok.inj hs
      refine .of_quiet (.inr (by simp [hu])) (by simp [hf]) ?_
      simp [hk]
    cases hst : s.tcb.state with
    | closed => simp [hst, TcpState.val] at hv
    | listen => simp [hst, TcpState.val] at hv
    | syn_sent => simp [hst, TcpState.val] at hv
    | syn_received =>
      simp only [reset_handled, hst, hwin, true_implies]
      exact down_only_syn_received hst hs
    | established =>
      simp only [reset_handled, hst]
      exact down_only_open (.inl hst) hwin hs
    | close_wait =>
      simp only [reset_handled, hst]
      exact down_only_open (.inr hst) hwin hs
    | _ =>
      simp only [reset_handled, hst, iff_true]
      refine hclosed _ ?_ ?_ ?_ hs
      all_goals simp [usnet_handle_rst, hst]

/-- For every segment with RST set and every connection or none: the call only
    tears down if and only if the segment is one the code handles as promised. -/
theorem reset_only_tears_down {c c' : Ctx} {found tcb' : Option UsnTcb} {seg : Segment}
    {ret : Int} (hrst : seg.has TH_RST)
    (h : usnet_tcp_input c found seg = .ok (ret, c', tcb')) :
    TearsDown c found seg c' tcb' ↔ reset_handled c found seg := by
  cases found with
  | none => exact tears_down_none hrst h
  | some t =>
    unfold usnet_tcp_input at h
    cases hin : input_segment ⟨c, t⟩ seg with
    | error e => simp [hin, bind, Except.bind] at h
    | ok q =>
      obtain ⟨r, s⟩ := q
      simp only [hin, bind, Except.bind, pure, Except.pure] at h
      obtain ⟨-, rfl, rfl⟩ := h
      rw [tearsDown_some]
      exact down_only_iff hrst hin

/-- A listener is at 10.0.0.1:80, and every allocation and output succeeds. -/
def reset_ctx : Ctx :=
  { cur_time := 1000, tcp_timewait := 60, tcp_timeout := 120
    listen_tcb := some { fd := 1, saddr := 0x0100000a, sport := 0x5000 }
    tx := [true, true], tcb_cache := some 7, rcvvars_mp := true, sndvars_mp := true
    frag_mp := true, ringbuf_cache := some fun _ => 0, sndbuf_cache := some fun _ => 0
    rand := 5000, control_list := [], control_list_cnt := 0, send_list := []
    send_list_cnt := 0, ack_list := [], ack_list_cnt := 0, timewait_list := []
    timewait_list_cnt := 0, timeout_list := [], timeout_list_cnt := 0
    rto_store := { rto_now_idx := 0, rto_now_ts := 0, rto_list := fun _ => [] }
    rto_list_cnt := 0, frames := [], events := [], applied := [] }

/-- A segment with these flags from 10.0.0.2:1234 to the listener. -/
def reset_segment (flags : UInt8) : Segment :=
  { ip_src := 0x0200000a, ip_dst := 0x0100000a, th_sport := 0xd204, th_dport := 0x5000
    seq := 9000, ack_seq := 0, flags := flags, window := 1024, opts := [], payload := []
    trailer := [], short := nil_short }

theorem reset_only_tears_down_sample :
    ∃ c' tcb', usnet_tcp_input reset_ctx none (reset_segment TH_RST) = .ok (0, c', tcb') ∧
      (TearsDown reset_ctx none (reset_segment TH_RST) c' tcb' ↔
        reset_handled reset_ctx none (reset_segment TH_RST)) :=
  ⟨_, _, rfl, reset_only_tears_down (by decide) rfl⟩

/-- A SYN that carries RST opens a connection. -/
theorem reset_opens_connection :
    ∃ c' t', usnet_tcp_input reset_ctx none (reset_segment (TH_SYN ||| TH_RST))
        = .ok (0, c', some t') ∧ t'.state = .syn_received ∧
      ¬ TearsDown reset_ctx none (reset_segment (TH_SYN ||| TH_RST)) c' (some t') :=
  ⟨_, _, rfl, rfl, fun h => nomatch h.no_creation rfl⟩

end Usnet
