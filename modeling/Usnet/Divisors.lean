import Usnet.AckFlow

/-! # The divisions of an acknowledgement

    `usnet_process_ack` divides by `eff_mss` and by `cwnd`.  The first comes from
    the options of the SYN and has no default; the second starts at one and is
    `mss` or twice that after the handshake and after a timeout.
-/

namespace Usnet

open CInt Run

/-! ## Section 1: The invariant -/

/-- Neither divisor is zero.  In slow start, below `ssthresh`, nothing is divided
    by `cwnd`, and there it may wrap around to zero. -/
def Flow.divides (f : Flow) : Prop :=
  f.mss ≠ 0 ∧ f.eff_mss ≠ 0 ∧ (f.cwnd ≠ 0 ∨ f.ssthresh ≠ 0)

/-- The SYN asks for segments with room for more than a timestamp. -/
def mss_usable (seg : Segment) : Prop :=
  ∃ mss, (option_values seg (parsed_at seg)).mss = some mss ∧ mss ≠ 0 ∧ mss ≠ 12

theorem widened_ne_zero {mss : UInt16} (h : mss ≠ 0) :
    mss.toUInt32 ≠ 0 ∧ 2 * mss.toUInt32 ≠ 0 ∧ mss.toUInt32 * 2 ≠ 0 := by
  have hpos : 0 < mss.toNat := by
    apply Nat.pos_of_ne_zero
    intro hz
    exact h (UInt16.toNat_inj.mp hz)
  have hlt := mss.toNat_lt
  refine ⟨?_, ?_, ?_⟩
  all_goals
    intro hz
    have hz' := congrArg UInt32.toNat hz
    simp at hz'
    omega

theorem created_flow_divides {seg : Segment} (h : mss_usable seg) :
    (created_flow seg).divides := by
  obtain ⟨mss, hmss, hzero, htwelve⟩ := h
  unfold created_flow Flow.divides
  simp only [hmss]
  refine ⟨hzero, ?_, .inl (by decide)⟩
  -- `eff_mss` is the value of the option less 12, on 16 bits
  intro hz
  exact htwelve (by simpa [sub_eq_zero] using hz)

/-- Growing does not bring a divisor to zero, nor does an `ssthresh` of two
    segments. -/
theorem Flow.divides.grown {f : Flow} (h : f.divides) {cwnd ssthresh : UInt32}
    (hcase : 2 * f.mss.toUInt32 ≤ ssthresh ∨ ssthresh = f.ssthresh ∧ f.cwnd ≤ cwnd) :
    cwnd ≠ 0 ∨ ssthresh ≠ 0 := by
  obtain ⟨hmss, -, hor⟩ := h
  have htwo := (widened_ne_zero hmss).2.1
  have hle : ∀ {a b : UInt32}, a ≤ b → a ≠ 0 → b ≠ 0 := by
    intro a b hab ha hb
    rw [hb] at hab
    exact ha (UInt32.toNat_inj.mp (Nat.le_zero.mp hab))
  -- the third duplicate sets `ssthresh`; a later one leaves it and adds to `cwnd`
  rcases hcase with hss | ⟨rfl, hgrow⟩
  · exact .inr (hle hss htwo)
  · rcases hor with hc | hs
    · exact .inl (hle hgrow hc)
    · exact .inr hs

theorem noted_ack_divides {u : Conn} (h : u.tcb.flow.divides) (buf : UsnSendbuf) (seg : Segment)
    (ack_seq : UInt32) : (noted_ack u buf seg ack_seq).tcb.flow.divides := by
  obtain ⟨cwnd, ssthresh, hflow, hcase⟩ := noted_ack_flow u buf seg ack_seq
  have hor := h.grown hcase
  rw [hflow]
  refine ⟨?_, ?_, hor⟩
  · unfold dup_flow window_flow
    split <;> exact h.1
  · unfold dup_flow window_flow
    split <;> exact h.2.1

theorem update_rto_divides {v w : Conn} (h : v.tcb.flow.divides) (hw : update_rto v = .ok w) :
    w.tcb.flow.divides := by
  obtain ⟨_, _, _, _, _, _, hflow⟩ := update_rto_flow hw
  rw [hflow]
  exact h

theorem divides_invariant : FlowInvariant Flow.divides := by
  constructor
  · intro f w x h
    exact h
  -- the handshake makes `cwnd` one segment or two
  · intro f h
    refine ⟨h.1, h.2.1, .inl ?_⟩
    show (if f.cwnd = 1 then f.mss.toUInt32 * 2 else f.mss.toUInt32) ≠ 0
    obtain ⟨hone, -, htwo⟩ := widened_ne_zero h.1
    split
    · exact htwo
    · exact hone
  · intro s h
    -- a timeout goes back to one segment
    obtain ⟨rto, ssthresh, hflow, -⟩ := back_off_flow s
    rw [hflow]
    exact ⟨h.1, h.2.1, .inl (widened_ne_zero h.1).1⟩
  · intro u buf seg ret u' h hack
    rcases usnet_process_ack_returns hack with ⟨-, rfl⟩ | ⟨-, -, rfl⟩ |
      ⟨-, -, w, cwnd, hrto, hgrown, hx⟩
    · exact h
    · exact noted_ack_divides h buf seg _
    · have hw := update_rto_divides (noted_ack_divides h buf seg _) hrto
      rw [hx]
      refine ⟨hw.1, hw.2.1, ?_⟩
      rcases hgrown with hslow | hgrow
      · -- slow start lies below an `ssthresh` that is not zero
        right
        intro hz
        have hss : w.tcb.sndvar.ssthresh = 0 := hz
        rw [hss] at hslow
        exact absurd hslow (Nat.not_lt_zero _)
      · exact hw.grown (.inr ⟨rfl, hgrow⟩)

/-! ## Section 2: Divisions -/

/-- Where the invariant holds the acknowledgement does not divide by zero. -/
theorem usnet_process_ack_divides {u : Conn} (h : u.tcb.flow.divides) (buf : UsnSendbuf)
    (seg : Segment) : usnet_process_ack u buf seg ≠ .error .division := by
  intro hack
  have hnoted := noted_ack_divides h buf seg (counted_ack u seg.ack_seq)
  rcases usnet_process_ack_faults hack with ⟨-, heff | ⟨w, hrto, hcwnd, hss⟩⟩ |
    ⟨-, -, hrto | ⟨w, -, hne, -⟩⟩
  · exact hnoted.2.1 heff
  · rcases (update_rto_divides hnoted hrto).2.2 with hc | hs
    · exact hc hcwnd
    · exact hs hss
  · -- the estimator fails in its assertion only
    exact absurd (update_rto_failed hrto).1 (by decide)
  · exact hne rfl

/-- On a connection whose SYN asks for usable segments no event ends in a division
    by zero, in any run. -/
theorem acks_divide {seg : Segment} (h : mss_usable seg) {t : UsnTcb} (ht : ConnOf seg t)
    (c : Ctx) (ev : LifeEvent) : life_conn ⟨c, t⟩ ev ≠ .error .division := by
  intro hfault
  have hdivides := divides_invariant.conn_of (created_flow_divides h) ht
  cases life_conn_failed hfault with
  | timer hne _ => exact hne rfl
  | acked _ _ _ _ _ _ hne _ => exact hne rfl
  | ack _ hentered _ hentry _ hack =>
    apply usnet_process_ack_divides _ _ _ hack
    rw [hentry.flow, hentered.flow]
    exact hdivides

/-- The peer's SYN creates the connection that the handshake opens. -/
theorem opened_tcb_of_syn : ConnOf (peer_segment 9000 0 TH_SYN [] (by decide)) opened_tcb := by
  have hnew : created_by (peer_segment 9000 0 TH_SYN [] (by decide))
      ((life_run none (handshake.take 1)).toOption.join.get rfl) := ⟨quiet_ctx, _, _, rfl⟩
  exact ConnOf.run (.init hnew) (handshake.drop 1) rfl

theorem acks_divide_opened :
    life_conn ⟨quiet_ctx, opened_tcb⟩ (.segment (peer_segment 9001 5001 TH_ACK [] (by decide))) ≠
      .error .division :=
  acks_divide ⟨1460, rfl, by decide, by decide⟩ opened_tcb_of_syn _ _

/-- A SYN that says nothing about the maximum segment size leaves `eff_mss` zero. -/
def silent_syn : Segment := with_opts []

/-- Its connection is opened and three bytes are written. -/
def silent_run : List (Ctx × LifeEvent) :=
  [(quiet_ctx, .segment silent_syn),
   (quiet_ctx, .accept true 5 0),
   (quiet_ctx, .segment (peer_segment 9001 5001 TH_ACK [] nil_short)),
   (quiet_ctx, .write 5 [1, 2, 3])]

def silent_tcb : UsnTcb := (life_run none silent_run).toOption.join.get rfl

theorem silent_tcb_of_syn : ConnOf silent_syn silent_tcb := by
  have hnew : created_by silent_syn
      ((life_run none (silent_run.take 1)).toOption.join.get rfl) := ⟨quiet_ctx, _, _, rfl⟩
  exact ConnOf.run (.init hnew) (silent_run.drop 1) rfl

/-- The acknowledgement of the first byte divides by zero. -/
theorem ack_divides_by_zero :
    ¬ ∀ (seg : Segment) (t : UsnTcb), ConnOf seg t →
      ∀ (c : Ctx) (ev : LifeEvent), life_conn ⟨c, t⟩ ev ≠ .error .division := by
  intro h
  exact h silent_syn silent_tcb silent_tcb_of_syn quiet_ctx
    (.segment (peer_segment 9001 5002 TH_ACK [] (by decide))) rfl

end Usnet
