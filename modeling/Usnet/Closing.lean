import Usnet.Moves
import Usnet.Queues
import Usnet.Refused

/-! # Closed connections

    A connection becomes CLOSED in nine places.  Some release the block, some
    do so only where no socket is attached, and one never does.  A block that
    is not released stays in the table under its addresses.
-/

namespace Usnet

open CInt Run

/-! ## Section 1: What is promised -/

/-- There is no memory for the payload of the segment, and the segment is one
    whose payload is looked at. -/
structure RunsOut (s : Conn) (seg : Segment) : Prop where
  state : s.tcb.state = .established
  passes : passes s seg
  no_reset : seg.has TH_RST → ¬ reset_accepted s.tcb seg
  no_syn : seg.has TH_SYN = false
  payload : 0 < seg.payload.length ∧ payload_fits s.tcb seg
  no_ring : receive_buffer s = none

/-- The event closes the connection and does not release it. -/
def leaves_closed (s : Conn) : LifeEvent → Prop
  | .segment seg => addressed s.tcb seg ∧ RunsOut s seg
  | .rto => s.tcb.on_rto_idx ≥ 0 ∧ s.tcb.sndvar.nrtx ≥ TCP_MAX_RTX ∧
      s.tcb.state ≠ .syn_received ∧ s.tcb.socket.isSome
  | .timeout => s.tcb.on_timeout_list ∧
      sint (s.ctx.cur_time - s.tcb.last_active_ts) ≥ s.ctx.tcp_timeout ∧ s.tcb.socket.isSome
  | _ => False

/-- The event makes the connection CLOSED, possibly on the way to another state. -/
def closes (s : Conn) (ev : LifeEvent) (s' : Conn) : Prop :=
  s'.tcb.state = .closed ∨ ∃ seg, ev = .segment seg ∧ addressed s.tcb seg ∧ RunsOut s seg

/-- A SYN with the addresses of a connection, in a context that can take it: its
    options can be parsed, it is for the listening socket, and there is room for
    one more connection. -/
structure ValidSyn (c : Ctx) (t : UsnTcb) (seg : Segment) : Prop where
  addressed : addressed t seg = true
  flags : seg.has TH_SYN = true ∧ seg.has TH_ACK = false ∧ seg.has TH_RST = false
  options : ∀ tcb, ∃ tcb', usnet_parse_tcpopts c.cur_time seg tcb = .ok tcb'
  listening : ∃ l, c.listen_tcb = some l ∧ l.saddr = seg.ip_dst ∧ l.sport = seg.th_dport
  room : c.tcb_cache.isSome ∧ c.rcvvars_mp = true ∧ c.sndvars_mp = true

/-- The segment is handled as a new passive open. -/
def opens_anew (c : Ctx) (o : Option UsnTcb) (seg : Segment) : Prop :=
  ∃ c' t', life_step c o (.segment seg) = .ok (c', some t') ∧ Created t'

/-! ## Section 2: A free place -/

/-- A connection can be made for a valid SYN. -/
theorem ValidSyn.creates {c : Ctx} {t : UsnTcb} {seg : Segment} (h : ValidSyn c t seg) :
    ∃ c' t', usnet_tcp_input c none seg = .ok (0, c', some t') := by
  obtain ⟨l, hl, hsaddr, hsport⟩ := h.listening
  obtain ⟨hcache, hrcv, hsnd⟩ := h.room
  obtain ⟨hsyn, hack, hrst⟩ := h.flags
  obtain ⟨id, hid⟩ := Option.isSome_iff_exists.mp hcache
  have hpkt : usnet_handle_syn_pkt c seg.ip_dst seg.th_dport = some l := by
    unfold usnet_handle_syn_pkt
    rw [hl]
    simp [hsaddr, hsport]
  have hinit : usnet_init_newtcb c l seg.ip_dst seg.th_dport seg.ip_src seg.th_sport
      = some (init_newtcb c id l seg.ip_dst seg.th_dport seg.ip_src seg.th_sport) := by
    unfold usnet_init_newtcb
    rw [hid]
    simp [hrcv, hsnd]
  -- the options are the only part of it that could fail
  obtain ⟨t₀, hcreate⟩ : ∃ t₀, usnet_create_tcb c l seg = .ok (some t₀) := by
    unfold usnet_create_tcb
    rw [hinit]
    simp only
    generalize UsnTcb.mk .. = t₁
    obtain ⟨t₂, ht₂⟩ := h.options t₁
    refine ⟨t₂, ?_⟩
    rw [ht₂]
    rfl
  have hopen : usnet_handle_passive_open c seg = .ok (c, some t₀) := by
    unfold usnet_handle_passive_open
    rw [if_pos ⟨hsyn, by simp [hack]⟩]
    simp only [hpkt, hcreate]
  have hst := (usnet_create_tcb_listen hcreate).1
  -- in LISTEN there is no sequence number to check against
  have hchk : check_segment ⟨c, t₀⟩ seg = .ok (0, ⟨c, t₀⟩) := by
    unfold check_segment
    rw [if_neg (by rw [hst]; decide)]
  have hnote : (note_segment ⟨c, t₀⟩ seg).tcb.state = .listen := by simp [hst]
  unfold usnet_tcp_input
  simp only [hopen, bind, Except.bind]
  unfold input_segment
  simp only [hchk, bind, Except.bind, pure, Except.pure, process_rst_continues]
  rw [process_rst_none hrst]
  unfold handle_state
  simp only [hnote]
  exact ⟨_, _, rfl⟩

theorem ValidSyn.opens {c : Ctx} {t : UsnTcb} {seg : Segment} (h : ValidSyn c t seg)
    (hlive : usnet_tcb_isempty t = false) : opens_anew c none seg := by
  obtain ⟨c', t', hin⟩ := h.creates
  have hlive' : usnet_tcb_isempty t' = false := by
    obtain ⟨id, l, -, hlinks⟩ := usnet_tcp_input_opened hin
    have hempty := congrArg Links.empty hlinks
    refine hempty.trans (Eq.trans ?_ hlive)
    -- the addresses are those of the segment, as the connection's were
    have haddr := h.addressed
    simp only [Usnet.addressed, Bool.and_eq_true, beq_iff_eq] at haddr
    obtain ⟨⟨⟨h₁, h₂⟩, h₃⟩, h₄⟩ := haddr
    simp only [Conn.links, init_newtcb, usnet_tcb_isempty, h₁, h₂, h₃, h₄]
  refine ⟨c', t', ?_, usnet_tcp_input_created hin⟩
  unfold life_step
  simp only [hin, Option.bind_some]
  rw [alive_of_live hlive']

/-- No event leads back to the handshake. -/
theorem LifeMove.not_reopened {s s' : Conn} {ev : LifeEvent} (hm : LifeMove s ev s')
    (h : s.tcb.state ≠ .syn_received) : s'.tcb.state ≠ .syn_received := by
  have hsame : s'.tcb.state = s.tcb.state → s'.tcb.state ≠ .syn_received := fun hst => by
    rw [hst]
    exact h
  cases hm with
  | control hc => exact hsame hc.state
  | closed hc => rw [show s'.tcb.state = .closed from congrArg Core.state hc]; decide
  | resent _ hc => exact hsame (congrArg Core.state hc)
  | joined _ hc hctl => exact hsame (hctl.state.trans (congrArg Core.state hc))
  | written _ _ hc => exact hsame (congrArg Core.state hc)
  | read hc => exact hsame (congrArg Core.state hc)
  | flushed _ h₀ hfl h₁ =>
    obtain ⟨buf, p, -, hc⟩ := flushed_core h₀ hfl h₁
    exact hsame (congrArg Core.state hc)
  | opened _ _ _ hc => rw [show s'.tcb.state = .established from congrArg Core.state hc]; decide
  | resynced _ _ _ _ hc => exact hsame (congrArg Core.state hc)
  | handled _ hh =>
    rcases hh.state with hst | hst | hst
    · exact hsame hst
    · rw [hst]; decide
    · rw [hst]; decide

/-- A block that is still there takes the SYN for itself. -/
theorem not_opens_anew {c : Ctx} {t : UsnTcb} {seg : Segment} (hlife : LifeInv t)
    (hst : t.state ≠ .syn_received) : ¬ opens_anew c (some t) seg := by
  rintro ⟨c', t', hstep, hcreated⟩
  unfold life_step at hstep
  simp only at hstep
  split at hstep
  · cases hstep
  · rename_i s hok
    obtain ⟨-, hs⟩ := Prod.mk.inj (Except.ok.inj hstep)
    unfold alive at hs
    split at hs
    · cases hs
    · obtain rfl := Option.some.inj hs
      exact (life_conn_move hlife hok).not_reopened hst hcreated.state

/-! ## Section 3: Which events close a connection -/

/-- A segment for a connection in ESTABLISHED or CLOSE_WAIT, up to its handler. -/
theorem input_segment_sending {s s' : Conn} {seg : Segment} {r : Int}
    (hs : sending s.tcb.state) (hok : input_segment s seg = .ok (r, s')) :
    (Moves s s' ∧ s'.tcb.state = s.tcb.state ∧ ¬ passes s seg) ∨
    ∃ n, passes s seg ∧ Moves s n ∧ Noted s seg n ∧
      (n.tcb.state = s.tcb.state ∧ (seg.has TH_RST → ¬ reset_accepted s.tcb seg) ∨
        n.tcb.state = .close_wait ∧ (s.tcb.state = .close_wait ∨
          seg.has TH_RST ∧ reset_accepted s.tcb seg)) ∧
      handle_state n seg = .ok s' := by
  have hval : s.tcb.state.val ≥ TcpState.syn_received.val := by
    rcases hs with hs | hs <;> rw [hs] <;> decide
  rcases input_segment_cases hok with ⟨-, r₀, hneg, hchk⟩ | ⟨-, r₀, s₁, hneg, hchk, hh⟩
  · refine .inl ⟨check_segment_moves hchk, ?_, ?_⟩
    · rw [check_segment, if_pos hval] at hchk
      rcases usnet_validate_seq_cases hchk with
        ⟨rfl, -, -⟩ | ⟨-, hq⟩ | ⟨-, -, -, -, t, hq, rfl⟩ | ⟨-, hst⟩
      · exact absurd hneg (by decide)
      · exact congrArg Core.state (Quiet.core hq)
      -- answered with a control packet, which does not change the state
      · have hst : t.tcb.state = s.tcb.state := congrArg Core.state hq.core
        exact (usnet_add_control_list_core (hst ▸ hs.elim (.inr ∘ .inl) (.inr ∘ .inr ∘ .inl))).state.trans
          hst
      · rcases hs with hs | hs <;> rw [hs] at hst <;> cases hst
    · rintro ⟨t, ht⟩
      rw [hchk] at ht
      obtain ⟨rfl, -⟩ := ht
      exact absurd hneg (by decide)
  · obtain ⟨rfl, -, hnoted, hstate⟩ := noted_by_check hs hchk hneg
    refine .inr ⟨_, ⟨s₁, hchk⟩, ?_, hnoted, hstate, hh⟩
    have hnote := (check_segment_moves hchk).trans (note_segment_moves s₁ seg).1
    rcases process_rst_outcome (note_segment s₁ seg) seg with ⟨hm, -⟩ | ⟨-, hst⟩
    · exact hnote.trans hm
    · -- only the states of a connection being closed are released here
      exfalso
      rcases hstate with ⟨h, -⟩ | ⟨h, -⟩
      · rcases hs with hs | hs <;> rw [hst, hs] at h <;> cases h
      · rw [hst] at h
        cases h

/-- The payload closes a connection only where there is no memory for it. -/
theorem PayloadDone.closed {s s' : Conn} {seg : Segment} {r : Int}
    (h : PayloadDone s seg s' r) (hst : s.tcb.state = .established)
    (hc : s'.tcb.state = .closed) : payload_fits s.tcb seg ∧ receive_buffer s = none := by
  have hne : s'.tcb.state ≠ s.tcb.state := by
    rw [hst, hc]
    decide
  cases h with
  | outside _ _ hq => exact absurd (congrArg Core.state (Quiet.core hq)) hne
  | no_mem _ hfits hbuf => exact ⟨hfits, hbuf⟩
  | inserted _ _ _ _ _ _ _ hsame => exact absurd hsame hne

theorem Noted.fits {s n : Conn} {seg : Segment} (h : Noted s seg n) :
    payload_fits n.tcb seg ↔ payload_fits s.tcb seg := by
  obtain ⟨hnxt, hwnd, -⟩ := h.receive
  unfold payload_fits
  rw [hnxt, hwnd]

theorem Noted.receive_buffer {s n : Conn} {seg : Segment} (h : Noted s seg n) :
    Usnet.receive_buffer n = Usnet.receive_buffer s := by
  obtain ⟨-, -, hrb⟩ := h.receive
  obtain ⟨-, hcache⟩ := h.pools
  unfold Usnet.receive_buffer
  simp only [hrb, hcache, h.kept]

/-- A connection in ESTABLISHED or CLOSE_WAIT is not released by a segment, and
    closed only when there is no memory for the payload. -/
theorem sending_closes {s s' : Conn} {seg : Segment} {r : Int} (hs : sending s.tcb.state)
    (hok : input_segment s seg = .ok (r, s')) :
    Moves s s' ∧ (s'.tcb.state = .closed → RunsOut s seg) := by
  have hne : s.tcb.state ≠ .closed := by
    rcases hs with hs | hs <;> rw [hs] <;> decide
  rcases input_segment_sending hs hok with ⟨hm, hst, -⟩ | ⟨n, hpass, hm, hn, hst, hh⟩
  · exact ⟨hm, fun hc => absurd (hst.symm.trans hc) hne⟩
  · unfold handle_state at hh
    by_cases hcw : n.tcb.state = .close_wait
    · simp only [hcw] at hh
      refine ⟨?_, fun hc => ?_⟩
      · unfold usnet_handle_close_wait at hh
        split at hh
        · obtain rfl := Except.ok.inj hh
          exact hm.trans (usnet_add_control_list_moves (by rw [hcw]; decide))
        · exact hm.trans (process_ack_if_buffered_moves hh)
      · rw [(usnet_handle_close_wait_state hcw hh).1] at hc
        cases hc
    · obtain ⟨hst, hrst⟩ := hst.resolve_right fun h => hcw h.1
      have hest : s.tcb.state = .established := hs.resolve_right (hst ▸ hcw)
      have hnst : n.tcb.state = .established := hst.trans hest
      simp only [hnst] at hh
      refine ⟨hm.trans (usnet_handle_established_moves hnst hh), fun hc => ?_⟩
      by_cases hsyn : seg.has TH_SYN
      · obtain ⟨-, -, hsame, -⟩ := usnet_handle_established_syn hnst hsyn hh
        rw [hsame.2.2.2.2, hnst] at hc
        cases hc
      · have hsyn' : seg.has TH_SYN = false := by simpa using hsyn
        obtain ⟨s₁, s₂, hpay, hack, rfl⟩ := usnet_handle_established_parts hsyn' hh
        have hkept := established_ack_kept hack
        have hst₁ : s₁.tcb.state = .closed := by
          by_cases hfin : seg.has TH_FIN ∧ seg.seq = s₂.tcb.rcv_nxt
          · rw [(established_fin_taken hfin.1 hfin.2).1] at hc
            cases hc
          · have hsame := established_fin_other hfin
            simp_all
        rcases handle_payload_done hpay with ⟨-, rfl⟩ | ⟨hpos, r₁, hd⟩
        · rw [hnst] at hst₁
          cases hst₁
        · obtain ⟨hfits, hbuf⟩ := hd.closed hnst hst₁
          exact ⟨hest, hpass, hrst, hsyn', ⟨hpos, hn.fits.mp hfits⟩, hn.receive_buffer.symm.trans hbuf⟩

/-- In the handshake a segment closes a connection by a reset, which releases it. -/
theorem syn_received_closes {s s' : Conn} {seg : Segment} {r : Int}
    (hs : s.tcb.state = .syn_received) (hok : input_segment s seg = .ok (r, s'))
    (hc : s'.tcb.state = .closed) : usnet_tcb_isempty s'.tcb = true := by
  have hnot : ∀ n : Conn, n.tcb.state = .syn_received →
      handle_state n seg = .ok s' → False := by
    intro n hn hh
    simp only [handle_state, hn] at hh
    rcases usnet_handle_syn_received_cases hh with ⟨-, -, rfl⟩ | ⟨-, -, he⟩ | ⟨-, rfl⟩
    · rw [hn] at hc
      cases hc
    · rw [he.1] at hc
      cases hc
    · have hst := (usnet_add_control_list_core
        (s := n.onTcb fun t => { t with snd_nxt := t.sndvar.iss }) (.inl hn)).state
      rw [hst] at hc
      exact absurd (hn.symm.trans hc) (by decide)
  -- only a reset can close it: the handler of SYN_RECEIVED and the check do not
  by_cases hrst : seg.has TH_RST
  · rcases input_segment_rst hrst hok with ⟨-, -, rfl⟩ | ⟨hv, -⟩ | ⟨-, -, hh⟩
    · rw [hs] at hc
      cases hc
    · rw [hs] at hv
      exact absurd hv (by decide)
    · have hm : (marked s seg).tcb.state = .syn_received := by simp [hs]
      unfold usnet_handle_rst at hh
      simp only [hm] at hh
      split at hh
      · -- the reset is taken: the block is released and the handler does nothing
        simp only [handle_state, usnet_release_tcb_kept, Conn.onTcb_tcb] at hh
        obtain rfl := Except.ok.inj hh
        exact usnet_release_tcb_empty _
      · exact (hnot _ hm hh).elim
  · have hrst' : seg.has TH_RST = false := by simpa using hrst
    have hval : s.tcb.state.val ≥ TcpState.syn_received.val := by rw [hs]
    rcases input_segment_cases hok with ⟨-, r₀, hneg, hchk⟩ | ⟨-, r₀, s₁, hneg, hchk, hh⟩
    · rw [check_segment, if_pos hval] at hchk
      exfalso
      rcases usnet_validate_seq_cases hchk with
        ⟨rfl, -, -⟩ | ⟨-, hq⟩ | ⟨-, -, -, -, t, hq, rfl⟩ | ⟨-, hst⟩
      · exact absurd hneg (by decide)
      · have hst : s'.tcb.state = s.tcb.state := congrArg Core.state (Quiet.core hq)
        rw [hst, hs] at hc
        cases hc
      · have hst : t.tcb.state = .syn_received := (congrArg Core.state hq.core).trans hs
        rw [(usnet_add_control_list_core (.inl hst)).state, hst] at hc
        cases hc
      · rw [hs] at hst
        cases hst
    · rw [check_segment, if_pos hval] at hchk
      rw [process_rst_none hrst'] at hh
      rcases usnet_validate_seq_cases hchk with ⟨-, -, hq⟩ | ⟨hr, -⟩ | ⟨hr, -⟩ | ⟨hr, -⟩
      · refine (hnot _ ?_ hh).elim
        have hst : s₁.tcb.state = s.tcb.state := congrArg Core.state (Quiet.core hq)
        simp [hst, hs]
      · exact absurd hr hneg
      · exact absurd hr hneg
      · exact absurd hr hneg

/-- With retransmissions left the connection stays in its state. -/
theorem usnet_handle_rto_stays {s s' : Conn} {r : Int} (h : tracked s.tcb.state)
    (hne : s.tcb.state ≠ .closed) (hmax : ¬ s.tcb.sndvar.nrtx ≥ TCP_MAX_RTX)
    (hok : usnet_handle_rto s = .ok (r, s')) : s'.tcb.state = s.tcb.state := by
  unfold usnet_handle_rto at hok
  by_cases hrto : s.tcb.sndvar.rto = 0
  · rw [if_pos hrto] at hok
    cases hok
  · rw [if_neg hrto, if_neg hmax] at hok
    have hback := back_off_core s
    generalize back_off s = t at *
    have hst : t.tcb.state = s.tcb.state := congrArg Core.state hback
    have hresent : retransmit t = s' → s'.tcb.state = s.tcb.state := by
      rintro rfl
      exact (retransmit_core (hst ▸ h)).state.trans hst
    simp only [hst] at hok
    rcases h with h | h | h | h
    · rw [h] at hok
      exact hresent (Prod.mk.inj (Except.ok.inj hok)).2
    · rw [h] at hok
      exact hresent (Prod.mk.inj (Except.ok.inj hok)).2
    · rw [h] at hok
      exact hresent (Prod.mk.inj (Except.ok.inj hok)).2
    · exact absurd h hne

/-- A connection that is given up is kept where it is past the handshake and has
    a socket. -/
theorem give_up_empty {s : Conn} (h : tracked s.tcb.state)
    (hlive : usnet_tcb_isempty s.tcb = false) :
    usnet_tcb_isempty (give_up s).tcb = false ↔
      s.tcb.state ≠ .syn_received ∧ s.tcb.state ≠ .closed ∧ s.tcb.socket.isSome := by
  have hval : s.tcb.state.val < TcpState.established.val ↔
      ¬ (s.tcb.state ≠ .syn_received ∧ s.tcb.state ≠ .closed) := by
    rcases h with h | h | h | h <;> rw [h] <;> decide
  unfold give_up
  by_cases hst : s.tcb.state.val < TcpState.established.val
  · rw [if_pos hst, usnet_release_tcb_empty]
    exact ⟨fun hf => (by cases hf), fun hk => absurd ⟨hk.1, hk.2.1⟩ (hval.mp hst)⟩
  · obtain ⟨hsyn, hcl⟩ := not_not.mp (mt hval.mpr hst)
    rw [if_neg hst]
    simp only
    split
    · rename_i hsock
      exact ⟨fun _ => ⟨hsyn, hcl, hsock⟩, fun _ => hlive⟩
    · rename_i hsock
      rw [usnet_release_tcb_empty]
      exact ⟨fun hf => (by cases hf), fun hk => absurd hk.2.2 hsock⟩

/-- The retransmission timer closes a connection by giving it up. -/
theorem rto_closes {s s' : Conn} (h : tracked s.tcb.state) (hne : s.tcb.state ≠ .closed)
    (hlive : usnet_tcb_isempty s.tcb = false) (hok : rto_visit s = .ok s')
    (hc : s'.tcb.state = .closed) :
    usnet_tcb_isempty s'.tcb = false ↔ leaves_closed s .rto := by
  unfold rto_visit at hok
  by_cases hidx : s.tcb.on_rto_idx ≥ 0
  · rw [if_pos hidx] at hok
    split at hok
    · cases hok
    · rename_i r t ht
      obtain rfl := Except.ok.inj hok
      have hmax : s.tcb.sndvar.nrtx ≥ TCP_MAX_RTX := by
        by_contra hmax
        exact hne ((usnet_handle_rto_stays h hne hmax ht).symm.trans hc)
      unfold usnet_handle_rto at ht
      by_cases hrto : s.tcb.sndvar.rto = 0
      · rw [if_pos hrto] at ht
        cases ht
      · rw [if_neg hrto, if_pos hmax] at ht
        obtain ⟨-, rfl⟩ := ht
        refine (give_up_empty h hlive).trans ?_
        exact ⟨fun hk => ⟨hidx, hmax, hk.1, hk.2.2⟩, fun hk => ⟨hk.2.2.1, hne, hk.2.2.2⟩⟩
  · rw [if_neg hidx] at hok
    obtain rfl := Except.ok.inj hok
    exact absurd hc hne

/-- The idle sweep closes a connection and keeps it where it has a socket. -/
theorem timeout_closes {s : Conn} (hlive : usnet_tcb_isempty s.tcb = false)
    (hon : s.tcb.on_timeout_list) (hidle : sint (s.ctx.cur_time - s.tcb.last_active_ts)
      ≥ s.ctx.tcp_timeout) :
    usnet_tcb_isempty (timeout_visit s).tcb = false ↔ leaves_closed s .timeout := by
  have hsame := usnet_remove_timeout_list_same s
  have hsock : (usnet_remove_timeout_list s).tcb.socket = s.tcb.socket := by simp
  have hempty := (Framed.of_same hsame).empty
  unfold timeout_visit
  rw [if_pos hidle]
  simp only [Conn.onTcb_tcb, hsock]
  by_cases hs : s.tcb.socket.isSome
  · rw [if_pos hs]
    exact ⟨fun _ => ⟨hon, hidle, hs⟩, fun _ => hempty.trans hlive⟩
  · rw [if_neg hs, usnet_release_tcb_empty]
    exact ⟨fun hf => (by cases hf), fun hk => absurd hk.2.2 hs⟩

/-- The application does not close a connection. -/
theorem accept_stays {s : Conn} (h : tracked s.tcb.state) (so : Bool) (fd : UInt32)
    (result : Int) : (usnet_connect_net_handler s so fd result).tcb.state = s.tcb.state := by
  unfold usnet_connect_net_handler
  split
  · rfl
  · split
    · rfl
    · simp only
      split
      · exact (usnet_add_control_list_core (by exact h)).state
      · split
        · rfl
        · exact (usnet_add_control_list_core (by exact h)).state

theorem app_write_stays {s s' : Conn} {fd : UInt32} {bytes : List UInt8}
    (h : app_write s fd bytes = .ok s') : s'.tcb.state = s.tcb.state := by
  unfold app_write usnet_write at h
  cases hbuf : s.tcb.sndvar.sndbuf with
  | none =>
    simp only [hbuf] at h
    obtain rfl := Except.ok.inj h
    rfl
  | some buf =>
    simp only [hbuf] at h
    by_cases hfd : buf.fd ≠ fd
    · rw [if_pos hfd] at h
      obtain rfl := Except.ok.inj h
      rfl
    · rw [if_neg hfd] at h
      cases hw : usnet_write_data buf bytes with
      | none => simp [hw] at h
      | some p =>
        simp only [hw] at h
        obtain rfl := Except.ok.inj h
        rfl

/-- A block that becomes CLOSED and stays in the table is one that an event was
    bound to leave there. -/
theorem closed_stays_iff {s s' : Conn} {ev : LifeEvent} (hlife : LifeInv s.tcb)
    (hlive : usnet_tcb_isempty s.tcb = false) (hne : s.tcb.state ≠ .closed)
    (hok : life_conn s ev = .ok s') (hcl : closes s ev s') :
    usnet_tcb_isempty s'.tcb = false ↔ leaves_closed s ev := by
  -- most events do not change the state, so they are not the ones that close it
  have hstays : s'.tcb.state = s.tcb.state → s'.tcb.state = .closed → False :=
    fun hst hc => hne (hst.symm.trans hc)
  have hother : (∀ seg, ev ≠ .segment seg) → s'.tcb.state = .closed := by
    intro hev
    apply hcl.resolve_right
    rintro ⟨seg, h, -⟩
    exact hev seg h
  -- the events that can: a segment, a timeout, the idle check
  cases ev with
  | segment seg =>
    simp only [life_conn] at hok
    by_cases haddr : addressed s.tcb seg
    · rw [if_pos haddr] at hok
      unfold effect at hok
      split at hok
      · cases hok
      · rename_i r t hin
        obtain rfl := Except.ok.inj hok
        by_cases hs : sending s.tcb.state
        · obtain ⟨hm, hc⟩ := sending_closes hs hin
          refine ⟨fun _ => ⟨haddr, ?_⟩, fun _ => hm.framed.empty.trans hlive⟩
          rcases hcl with hst | ⟨seg', hev, -, hrun⟩
          · exact hc hst
          · cases hev
            exact hrun
        · have hsyn : s.tcb.state = .syn_received := by
            rcases hlife.state with h | h | h | h
            · exact h
            · exact absurd (.inl h) hs
            · exact absurd (.inr h) hs
            · exact absurd h hne
          have hno : ∀ seg', ¬ RunsOut s seg' := fun seg' h => hs (.inl h.state)
          have hst : t.tcb.state = .closed := by
            apply hcl.resolve_right
            rintro ⟨seg', -, -, h⟩
            exact hno seg' h
          rw [syn_received_closes hsyn hin hst]
          exact ⟨fun hf => (by cases hf), fun h => absurd h.2 (hno seg)⟩
    · rw [if_neg haddr] at hok
      obtain rfl := Except.ok.inj hok
      rcases hcl with hst | ⟨seg', hev, h, -⟩
      · exact absurd hst hne
      · cases hev
        exact absurd h haddr
  | rto => exact rto_closes hlife.state hne hlive hok (hother (by simp))
  | timeout =>
    obtain rfl := Except.ok.inj hok
    have hst := hother (by simp)
    by_cases hon : s.tcb.on_timeout_list
    · rw [if_pos hon] at hst ⊢
      by_cases hidle : sint (s.ctx.cur_time - s.tcb.last_active_ts) ≥ s.ctx.tcp_timeout
      · exact timeout_closes hlive hon hidle
      · unfold timeout_visit at hst
        rw [if_neg hidle] at hst
        exact absurd hst hne
    · rw [if_neg hon] at hst
      exact absurd hst hne
  | timewait =>
    obtain rfl := Except.ok.inj hok
    have hst := hother (by simp)
    unfold timewait_visit at hst ⊢
    split at hst
    · rename_i hexp
      rw [if_pos hexp, usnet_release_tcb_empty]
      exact ⟨fun hf => (by cases hf), fun hf => hf.elim⟩
    · exact absurd hst hne
  | accept so fd result =>
    obtain rfl := Except.ok.inj hok
    exact (hstays (accept_stays hlife.state so fd result) (hother (by simp))).elim
  | wrote so_tcb fd =>
    obtain rfl := Except.ok.inj hok
    have hsame := Same.core (usnet_write_net_handler_same s so_tcb fd)
    exact (hstays (congrArg Core.state hsame) (hother (by simp))).elim
  | control =>
    obtain rfl := Except.ok.inj hok
    exact (hstays (control_visit_core hlife.state).state (hother (by simp))).elim
  | acks =>
    obtain rfl := Except.ok.inj hok
    exact (hstays (ack_visit_core hlife.state).state (hother (by simp))).elim
  | data =>
    refine (hstays ?_ (hother (by simp))).elim
    rcases data_visit_core hlife.state hok with hc | ⟨s₀, s₁, r, -, h₀, hfl, h₁⟩
    · exact hc.state
    · obtain ⟨buf, p, -, hc⟩ := flushed_core h₀ hfl h₁
      exact congrArg Core.state hc
  | write fd bytes =>
    exact (hstays (app_write_stays hok) (hother (by simp))).elim
  | read fd count =>
    obtain rfl := Except.ok.inj hok
    exact (hstays rfl (hother (by simp))).elim

/-! ## Section 4: The address of a closed connection -/

theorem LifeReachable.inv {t : UsnTcb} (h : LifeReachable (some t)) :
    usnet_tcb_isempty t = false ∧ LifeInv t := by
  refine LifeWhere.invariant_live (fun c seg ret c' t hin => ?_)
    (fun s ev s' _ hi _ hok _ => (life_conn_move hi hok).inv hi) h
  have hc := usnet_tcp_input_created hin
  exact ⟨.inl hc.state, hc.send.2.2⟩

/-- A SYN from the peer of a connection. -/
def peer_syn (t : UsnTcb) : Segment :=
  { ip_src := t.daddr, ip_dst := t.saddr, th_sport := t.dport, th_dport := t.sport
    seq := 0, ack_seq := 0, flags := TH_SYN, window := 1024, opts := [], payload := []
    trailer := [], short := nil_short }

/-- A context that listens at the address of a connection. -/
def listening_ctx (t : UsnTcb) : Ctx :=
  { quiet_ctx with listen_tcb := some { fd := 1, saddr := t.saddr, sport := t.sport } }

theorem peer_syn_valid (t : UsnTcb) : ValidSyn (listening_ctx t) t (peer_syn t) where
  addressed := by simp [addressed, peer_syn]
  flags := by
    have hbits : has TH_SYN TH_SYN = true ∧ has TH_SYN TH_ACK = false ∧
        has TH_SYN TH_RST = false := by decide
    exact hbits
  options tcb := ⟨tcb, rfl⟩
  listening := ⟨_, rfl, rfl, rfl⟩
  room := ⟨rfl, rfl, rfl⟩

/-- While no event leaves a CLOSED block behind there is none. -/
theorem none_closed {t : UsnTcb} (h : LifeWhere (fun s ev => ¬ leaves_closed s ev) (some t)) :
    t.state ≠ .closed := by
  suffices hi : LifeInv t ∧ t.state ≠ .closed from hi.2
  refine (h.invariant_live (I := fun t => LifeInv t ∧ t.state ≠ .closed)
    (fun c seg ret c' t hin => ?_) (fun s ev s' hlive hi hno hok hlive' => ?_)).2
  · have hc := usnet_tcp_input_created hin
    refine ⟨⟨.inl hc.state, hc.send.2.2⟩, ?_⟩
    rw [hc.state]
    decide
  · obtain ⟨hlife, hne⟩ := hi
    exact ⟨(life_conn_move hlife hok).inv hlife,
      fun hc => hno ((closed_stays_iff hlife hlive hne hok (.inl hc)).mp hlive')⟩

/-- A connection that an event closes frees its addresses if and only if the event
    is none of those that leave a CLOSED block behind.  In a run without such events
    no block in the table is CLOSED, and in no run does an event lead out of CLOSED. -/
theorem closed_frees_tuple (s s' : Conn) (ev : LifeEvent) :
    (LifeReachable (some s.tcb) → s.tcb.state ≠ .closed → life_conn s ev = .ok s' →
      closes s ev s' →
      ((∀ c seg, ValidSyn c s.tcb seg → opens_anew c (alive s'.tcb) seg) ↔
        ¬ leaves_closed s ev)) ∧
    (∀ t, LifeWhere (fun s ev => ¬ leaves_closed s ev) (some t) → t.state ≠ .closed) ∧
    (LifeReachable (some s.tcb) → s.tcb.state = .closed → life_conn s ev = .ok s' →
      s'.tcb.state = .closed) := by
  refine ⟨fun hr hne hok hcl => ?_, fun t ht => none_closed ht,
    fun hr hc hok => (life_conn_move hr.inv.2 hok).stays_closed hc⟩
  obtain ⟨hlive, hlife⟩ := hr.inv
  have hiff := closed_stays_iff hlife hlive hne hok hcl
  have hmove := life_conn_move hlife hok
  constructor
  · -- the block that stays takes the SYN for itself
    intro hopens hleaves
    have hlive' := hiff.mpr hleaves
    have hnot : s'.tcb.state ≠ .syn_received := by
      rcases hcl with hst | ⟨seg, rfl, -, hrun⟩
      · rw [hst]
        decide
      · refine hmove.not_reopened ?_
        rw [hrun.state]
        decide
    have hopen := hopens _ _ (peer_syn_valid s.tcb)
    rw [alive_of_live hlive'] at hopen
    exact not_opens_anew (hmove.inv hlife) hnot hopen
  · intro hleaves c seg hsyn
    have hgone : usnet_tcb_isempty s'.tcb = true := by
      by_contra hlive'
      exact hleaves (hiff.mp (by simpa using hlive'))
    have hnone : alive s'.tcb = none := by
      unfold alive
      rw [if_pos hgone]
    rw [hnone]
    exact hsyn.opens hlive

/-- A connection the application has not accepted. -/
def unaccepted : List (Ctx × LifeEvent) :=
  [(quiet_ctx, .segment (peer_segment 9000 0 TH_SYN [] nil_short)),
   (quiet_ctx, .segment (peer_segment 9001 5001 TH_ACK [] nil_short))]

def unaccepted_tcb : UsnTcb := (life_run none unaccepted).toOption.join.get rfl

theorem unaccepted_tcb_run : life_run none unaccepted = .ok (some unaccepted_tcb) := rfl

theorem unaccepted_tcb_reachable : LifeReachable (some unaccepted_tcb) :=
  .run (.init rfl) (life_run_meets_true _ _) unaccepted_tcb_run

/-- 200 ticks later. -/
def idle_ctx : Ctx := { quiet_ctx with cur_time := 1200 }

theorem closed_frees_tuple_sample :
    LifeReachable (some unaccepted_tcb) ∧
    ∃ s', life_conn ⟨idle_ctx, unaccepted_tcb⟩ .timeout = .ok s' ∧ s'.tcb.state = .closed ∧
      ∀ c seg, ValidSyn c unaccepted_tcb seg → opens_anew c (alive s'.tcb) seg := by
  refine ⟨unaccepted_tcb_reachable, _, rfl, rfl, ?_⟩
  refine ((closed_frees_tuple ⟨idle_ctx, unaccepted_tcb⟩ _ .timeout).1 unaccepted_tcb_reachable
    (by decide) rfl (.inl rfl)).mpr ?_
  exact fun h => absurd h.2.2 (by decide)

/-- A connection with a socket times out.  Its block stays CLOSED in the table, and
    the SYN with which its peer comes back finds it there and is not answered. -/
theorem idle_tuple_blackholed :
    LifeReachable (some opened_tcb) ∧ opened_tcb.socket = some 5 ∧
    ∃ s', life_conn ⟨idle_ctx, opened_tcb⟩ .timeout = .ok s' ∧ s'.tcb.state = .closed ∧
      ValidSyn (listening_ctx opened_tcb) opened_tcb (peer_syn opened_tcb) ∧
      ¬ opens_anew (listening_ctx opened_tcb) (alive s'.tcb) (peer_syn opened_tcb) ∧
      ∃ c t, life_step (listening_ctx opened_tcb) (alive s'.tcb)
        (.segment (peer_syn opened_tcb)) = .ok (c, some t) ∧ t.state = .closed ∧
        c.frames = [] := by
  refine ⟨opened_tcb_reachable, rfl, _, rfl, rfl, peer_syn_valid _, ?_, _, _, rfl, rfl, rfl⟩
  rintro ⟨c', t', hstep, hcreated⟩
  obtain ⟨-, ht⟩ := Prod.mk.inj (Except.ok.inj hstep)
  obtain rfl := Option.some.inj ht
  exact absurd hcreated.state (by decide)

end Usnet
