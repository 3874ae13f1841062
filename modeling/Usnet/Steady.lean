import Usnet.Options
import Usnet.Stops

/-! # Runs in which nothing stops

    What the peer and the application have to keep to so that no event of a
    connection's life stops the process, from the SYN that opens it to the next
    one after it is released.
-/

namespace Usnet

open CInt Circular Run Wire

/-! ## Section 1: The send ring up to the end -/

/-- In CLOSE_WAIT too an acknowledgement that passes the check is in order. -/
def closes_in_order (s : Conn) : LifeEvent → Prop
  | .segment seg => s.tcb.state = .close_wait → in_window s.tcb seg →
    ∀ buf, s.tcb.sndvar.sndbuf = some buf → ack_looked_at s.tcb seg →
      ¬ TCP_SEQ_GT seg.ack_seq (buf.head_seq + buf.len) → ack_in_order s buf seg
  | _ => True

/-- The ring of a connection that sends begins at `snd_una`, and the next number is
    ahead of it. -/
def SendsAhead (t : UsnTcb) : Prop :=
  ∀ buf, t.sndvar.sndbuf = some buf →
    t.sndvar.snd_una = buf.head_seq ∧ SendAhead buf t.snd_nxt

/-- What holds of the send side from the SYN to the release. -/
structure SteadyInv (t : UsnTcb) : Prop where
  order : OrderInv t
  accept : AcceptInv t
  ring : ∀ buf, t.sndvar.sndbuf = some buf → IndexWf buf
  closing : t.state = .close_wait → SendsAhead t

theorem SteadyInv.sends {t : UsnTcb} (h : SteadyInv t) (hs : sending t.state) :
    SendsAhead t := by
  rcases hs with hst | hst
  · intro buf hbuf
    have huna := h.order.una (.inr hst)
    have hring := h.order.ring (.inr hst) buf hbuf
    unfold next_una base_seq at huna
    rw [if_pos hst, hbuf] at huna
    rw [show next_seq t = t.snd_nxt from if_pos hst] at hring
    exact ⟨huna, hring⟩
  · exact h.closing hst

/-- A connection that sends has been accepted. -/
theorem SteadyInv.equipped {t : UsnTcb} (h : SteadyInv t) (hs : sending t.state) :
    t.sndvar.sndbuf.isSome := by
  rcases h.accept.phase with hwait | hacc
  · rw [hwait.state] at hs
    rcases hs with hs | hs <;> cases hs
  · exact hacc.own.2

theorem SendsAhead.same {t t' : UsnTcb} (h : SendsAhead t)
    (hbuf : t'.sndvar.sndbuf = t.sndvar.sndbuf)
    (huna : t'.sndvar.snd_una = t.sndvar.snd_una) (hnxt : t'.snd_nxt = t.snd_nxt) :
    SendsAhead t' := by
  intro buf hb
  rw [huna, hnxt]
  exact h buf (hbuf ▸ hb)

/-- An acknowledgement in order keeps it. -/
theorem Acked.ahead {s s' : Conn} {buf : UsnSendbuf} {seg : Segment} (h : Acked s buf seg s')
    (hs : SendsAhead s.tcb) (horder : ack_in_order s buf seg) :
    ∃ buf', s'.tcb.sndvar.sndbuf = some buf' ∧ s'.tcb.sndvar.snd_una = buf'.head_seq ∧
      SendAhead buf' s'.tcb.snd_nxt := by
  obtain ⟨huna, hahead⟩ := hs buf h.sndbuf
  rw [h.snd_nxt]
  rcases h.data with ⟨hgeq, hkept, hbuf⟩ | ⟨hfresh, hmoved, hbuf⟩
  · exact ⟨buf, hbuf, hkept.trans huna, hahead.acked_old horder hgeq⟩
  · obtain ⟨buf', hrem, hseq, hnew⟩ := hahead.acked_new horder hfresh
    exact ⟨buf', hbuf.trans (congrArg some hrem), hmoved.trans hseq.symm, hnew⟩

theorem SteadyInv.step {s s' : Conn} {ev : LifeEvent} (h : SteadyInv s.tcb)
    (horder : keeps_order s ev) (hclosing : closes_in_order s ev) (haccept : awaits_accept s ev)
    (hok : life_conn s ev = .ok s') (hlive : usnet_tcb_isempty s'.tcb = false) :
    SteadyInv s'.tcb := by
  have horder' := h.order.step horder hok
  have haccept' := h.accept.step haccept hok hlive
  -- with the ring that there was, nothing else may have moved in CLOSE_WAIT
  have hsame : s'.tcb.sndvar.sndbuf = s.tcb.sndvar.sndbuf →
      (s'.tcb.state = .close_wait → SendsAhead s'.tcb) → SteadyInv s'.tcb :=
    fun hbuf hcw => ⟨horder', haccept', fun buf hb => h.ring buf (hbuf ▸ hb), hcw⟩
  have hnew : ∀ buf', s'.tcb.sndvar.sndbuf = some buf' → IndexWf buf' →
      (s'.tcb.state = .close_wait → s'.tcb.sndvar.snd_una = buf'.head_seq ∧
        SendAhead buf' s'.tcb.snd_nxt) → SteadyInv s'.tcb := by
    intro buf' hbuf hwf hcw
    refine ⟨horder', haccept', fun buf hb => ?_, fun hst buf hb => ?_⟩
    · obtain rfl := Option.some.inj (hbuf.symm.trans hb)
      exact hwf
    · obtain rfl := Option.some.inj (hbuf.symm.trans hb)
      exact hcw hst
  cases life_conn_move h.order.life hok with
  | control hct =>
    have hbuf : s'.tcb.sndvar.sndbuf = s.tcb.sndvar.sndbuf := congrArg Core.sndbuf hct.core
    refine hsame hbuf fun hst => ?_
    have hst₀ := hct.state.symm.trans hst
    exact (h.closing hst₀).same hbuf (congrArg Core.snd_una hct.core) (hct.snd_nxt (.inr hst₀))
  | closed hcl =>
    refine hsame (congrArg Core.sndbuf hcl) fun hst => ?_
    have hst' : s'.tcb.state = .closed := congrArg Core.state hcl
    rw [hst] at hst'
    cases hst'
  | resent hs hre =>
    have hbuf : s'.tcb.sndvar.sndbuf = s.tcb.sndvar.sndbuf := congrArg Core.sndbuf hre
    have huna : s'.tcb.sndvar.snd_una = s.tcb.sndvar.snd_una := congrArg Core.snd_una hre
    have hnxt : s'.tcb.snd_nxt = s.tcb.sndvar.snd_una := congrArg Core.snd_nxt hre
    refine hsame hbuf fun _ buf hb => ?_
    obtain ⟨hbase, hahead⟩ := h.sends hs buf (hbuf ▸ hb)
    refine ⟨huna.trans hbase, ?_⟩
    -- back to where the buffer begins
    rw [hnxt, hbase]
    apply SendAhead.of_le hahead.wf hahead.size hahead.sent_le
    rw [ahead_self]
    exact Nat.zero_le _
  | @joined fd result sndbuf s₁ s' hbuf hcore hctl =>
    have hend := joined_core hcore hctl
    have hsnd : s'.tcb.sndvar.sndbuf = sndbuf := congrArg Core.sndbuf hend
    have hst : s'.tcb.state = s.tcb.state := hctl.state.trans (congrArg Core.state hcore)
    have hst₁ : s₁.tcb.state = s.tcb.state := congrArg Core.state hcore
    rcases hbuf with hold | ⟨hnone, slot, hmake⟩
    · refine hsame (hsnd.trans hold) fun hcw => ?_
      have hcw₀ := hst.symm.trans hcw
      refine (h.closing hcw₀).same (hsnd.trans hold) (congrArg Core.snd_una hend) ?_
      exact (hctl.snd_nxt (.inr (hst₁.trans hcw₀))).trans (congrArg Core.snd_nxt hcore)
    · have hno : s'.tcb.state ≠ .close_wait := by
        intro hcw
        have hsome := h.equipped (.inr (hst.symm.trans hcw))
        rw [hnone] at hsome
        cases hsome
      cases hmade : sndbuf with
      | none =>
        exact hsame (hsnd.trans (hmade.trans hnone.symm)) fun hcw => absurd hcw hno
      | some buf' =>
        have hwf := (Overcounts.made (hmake.symm.trans hmade)).wf
        exact hnew buf' (hsnd.trans hmade) hwf fun hcw => absurd hcw hno
  | @written fd bytes buf buf' r s' hbuf hw hcore =>
    have hst : s'.tcb.state = s.tcb.state := congrArg Core.state hcore
    have huna : s'.tcb.sndvar.snd_una = s.tcb.sndvar.snd_una := congrArg Core.snd_una hcore
    have hnxt : s'.tcb.snd_nxt = s.tcb.snd_nxt := congrArg Core.snd_nxt hcore
    have hend : IndexWf buf' ∧ buf'.head_seq = buf.head_seq := by
      rcases usnet_write_data_cases bytes (h.ring buf hbuf) with
        ⟨-, hw'⟩ | ⟨-, buf₁, hw', hwf, hmoved⟩
      · rw [hw'] at hw
        obtain ⟨-, rfl⟩ := Prod.mk.inj (Option.some.inj hw)
        exact ⟨h.ring _ hbuf, rfl⟩
      · rw [hw'] at hw
        obtain ⟨-, rfl⟩ := Prod.mk.inj (Option.some.inj hw)
        exact ⟨hwf, hmoved.ends.2.2.2⟩
    refine hnew buf' (congrArg Core.sndbuf hcore) hend.1 fun hcw => ?_
    obtain ⟨hbase, hahead⟩ := h.closing (hst.symm.trans hcw) buf hbuf
    refine ⟨(huna.trans hbase).trans hend.2.symm, ?_⟩
    rw [hnxt]
    exact hahead.written hw
  | read hrd =>
    refine hsame (congrArg Core.sndbuf hrd) fun hcw => ?_
    exact (h.closing ((congrArg Core.state hrd).symm.trans hcw)).same (congrArg Core.sndbuf hrd)
      (congrArg Core.snd_una hrd) (congrArg Core.snd_nxt hrd)
  | @flushed s₀ s₁ s' r hs h₀ hfl h₁ =>
    obtain ⟨buf, p, hbuf, hcore⟩ := flushed_core h₀ hfl h₁
    obtain ⟨hbase, hahead⟩ := h.sends hs buf hbuf
    have hwf := hahead.wf
    refine hnew _ (congrArg Core.sndbuf hcore) ⟨hwf.size_le, hwf.head_lt, hwf.tail_le⟩ fun _ => ?_
    have huna : s'.tcb.sndvar.snd_una = s.tcb.sndvar.snd_una := congrArg Core.snd_una hcore
    refine ⟨huna.trans hbase, ?_⟩
    have hbuf₀ : s₀.tcb.sndvar.sndbuf = some buf := (congrArg Core.sndbuf h₀).trans hbuf
    have hI : SendAhead { buf with sent_head := buf.sent_head } s₀.tcb.snd_nxt := by
      rw [show s₀.tcb.snd_nxt = s.tcb.snd_nxt from congrArg Core.snd_nxt h₀]
      exact hahead
    obtain ⟨head, fs, hb, -, hend⟩ := (sendAhead_rule buf).flush (sendbuf_small hahead.size)
      hwf.tail_le hbuf₀ hI hfl
    have hhead : p = head := by
      have hb' : s'.tcb.sndvar.sndbuf = _ := (congrArg Core.sndbuf h₁).trans hb
      have heq := (congrArg Core.sndbuf hcore).symm.trans hb'
      exact congrArg UsnSendbuf.sent_head (Option.some.inj heq)
    rw [hhead, show s'.tcb.snd_nxt = s₁.tcb.snd_nxt from congrArg Core.snd_nxt h₁]
    exact hend
  | opened _ _ _ hop =>
    refine hsame (congrArg Core.sndbuf hop) fun hcw => ?_
    have hest : s'.tcb.state = .established := congrArg Core.state hop
    rw [hcw] at hest
    cases hest
  | resynced hst _ _ _ hre =>
    refine hsame (congrArg Core.sndbuf hre) fun hcw => ?_
    have hest : s'.tcb.state = s.tcb.state := congrArg Core.state hre
    rw [hcw, hst] at hest
    cases hest
  | @handled seg s' hwin hh =>
    have hs := hh.sending
    rcases hh.send with ⟨hnxt, huna, hbuf⟩ | ⟨buf, ha⟩
    · exact hsame hbuf fun _ => (h.sends hs).same hbuf huna hnxt
    · have hin : ack_in_order s buf seg := by
        rcases hs with hst | hst
        · exact (horder hst hwin).2 buf ha.sndbuf ha.looked_at ha.passes
        · exact hclosing hst hwin buf ha.sndbuf ha.looked_at ha.passes
      obtain ⟨buf', hbuf, huna, hahead⟩ := ha.ahead (h.sends hs) hin
      exact hnew buf' hbuf hahead.wf fun _ => ⟨huna, hahead⟩

/-! ## Section 2: What an event has to be like -/

/-- An event that keeps to the rules: acknowledgements are in order, the application
    accepts before the handshake goes on, a sample fits the estimator, the options
    looked through have no length of zero, and a payload in range is copied to a
    place inside the ring. -/
structure Regular (s : Conn) (ev : LifeEvent) : Prop where
  order : keeps_order s ev
  closing : closes_in_order s ev
  accept : awaits_accept s ev
  samples : SampleCond s ev
  options : ∀ seg, ev = .segment seg → addressed s.tcb seg = true →
    looks_for_timestamp s.tcb seg → ∀ i, Walk.Visited (ts_next seg) 0 i →
    ¬ zero_length timestamp_fields seg i
  copies : ∀ seg buf, ev = .segment seg → addressed s.tcb seg = true →
    0 < seg.payload.length → receive_buffer s = some buf → InRange buf seg.payload seg.seq →
    buf.head.toNat + ahead buf.head_seq seg.seq ≤ 2 * buf.size.toNat

/-- An event that is no segment has the application's rules to keep only. -/
theorem Regular.other {s : Conn} {ev : LifeEvent} (h : ∀ seg, ev ≠ .segment seg)
    (haccept : awaits_accept s ev) : Regular s ev := by
  refine ⟨?_, ?_, haccept, fun seg hev => absurd hev (h seg), fun seg hev => absurd hev (h seg),
    fun seg _ hev => absurd hev (h seg)⟩
  · cases ev with
    | segment seg => exact absurd rfl (h seg)
    | _ => trivial
  · cases ev with
    | segment seg => exact absurd rfl (h seg)
    | _ => trivial

/-- A SYN that keeps to them asks for usable segments in options that end. -/
def opens_regularly (seg : Segment) : Prop :=
  seg.has TH_SYN → mss_usable seg ∧
    ∀ i, Walk.Visited (opts_next seg) 0 i → ¬ zero_length tcpopts_fields seg i

/-- On a place that is taken, and on one that is free. -/
def regular (o : Option UsnTcb) (a : Ctx × LifeEvent) : Prop :=
  match o with
  | some t => Regular ⟨a.1, t⟩ a.2
  | none => ∀ seg, a.2 = .segment seg → opens_regularly seg

/-- Reached from no connection by such events. -/
abbrev RegularRun : Option UsnTcb → Prop := RunWhere LifeStep regular (· = none)

theorem RegularRun.where {C : LifeCond} (hC : ∀ s ev, Regular s ev → C s ev)
    {o : Option UsnTcb} (h : RegularRun o) : LifeWhere C o := by
  refine RunWhere.mono (fun o a hr t ht => ?_) h
  rw [ht] at hr
  exact hC _ _ hr

/-- The timeout stays positive. -/
theorem RegularRun.sound {t : UsnTcb} (h : RegularRun (some t)) :
    Sound t.rcvvar t.sndvar.rto := by
  have hrun : LifeWhere SampleCond (some t) := RegularRun.where (fun _ _ hr => hr.samples) h
  refine hrun.invariant (I := fun t => Sound t.rcvvar t.sndvar.rto)
    (fun c seg ret c' t hin => ?_) (fun s ev s' hs hc hok => (life_conn_rtt hs hc hok).sound)
  have hflow := usnet_tcp_input_flow hin
  have hrto : t.sndvar.rto = TCP_INITIAL_RTO := congrArg Flow.rto hflow
  have hsrtt : t.rcvvar.srtt = 0 := congrArg Flow.srtt hflow
  refine ⟨?_, fun hne => absurd hsrtt hne⟩
  rw [hrto]
  decide

/-- So do the divisors. -/
theorem RegularRun.divides {t : UsnTcb} (h : RegularRun (some t)) : t.flow.divides := by
  suffices hall : ∀ o, RegularRun o → ∀ t, o = some t → t.flow.divides from hall _ h t rfl
  intro o ho
  refine RunWhere.invariant (I := fun o => ∀ t, o = some t → t.flow.divides)
    (fun o hnone t ht => ?_) (fun o a o' hi hr hstep t ht => ?_) ho
  · rw [hnone] at ht
    cases ht
  obtain ⟨c', hstep⟩ := hstep
  unfold life_step at hstep
  cases o with
  | some t₀ =>
    simp only at hstep
    split at hstep
    · cases hstep
    · rename_i s hok
      obtain ⟨-, rfl⟩ := Prod.mk.inj (Except.ok.inj hstep)
      obtain ⟨-, rfl⟩ := alive_some ht
      exact divides_invariant.step (hi t₀ rfl) hok
  | none =>
    simp only at hstep
    split at hstep
    · rename_i seg hev
      split at hstep
      · cases hstep
      · rename_i ret c₁ tcb hin
        obtain ⟨-, rfl⟩ := Prod.mk.inj (Except.ok.inj hstep)
        cases tcb with
        | none => cases ht
        | some t₁ =>
          obtain ⟨-, rfl⟩ := alive_some ht
          rw [usnet_tcp_input_flow hin]
          exact created_flow_divides (hr seg hev (usnet_tcp_input_opens hin).1).1
    · obtain ⟨-, rfl⟩ := Prod.mk.inj (Except.ok.inj hstep)
      cases ht

/-! ## Section 3: Nothing stops -/

end Usnet
