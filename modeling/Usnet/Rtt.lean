import Usnet.AckFlow

/-! # The estimator of the round trip

    `usnet_estimate_rtt` works on 32 bits with scaled values, and what it measures
    is up to the peer, which sends the timestamp back.  Here is how far the
    timeout made of it stays positive.
-/

namespace Usnet

open CInt Run

/-! ## Section 1: One measurement -/

/-- `mdev` after a measurement of `m` ticks, before it is stored on 32 bits. -/
def next_mdev (v : RcvVars) (m : Nat) : Nat :=
  let srtt := v.srtt.toNat / 8
  let mdev := v.mdev.toNat
  if srtt ≤ m then mdev - mdev / 4 + (m - srtt)
  else if srtt - m ≤ mdev / 4 then mdev - mdev / 4 + (srtt - m)
  else mdev + (srtt - m - mdev / 4) / 8

/-- `srtt` after it, likewise. -/
def next_srtt (v : RcvVars) (m : Nat) : Nat := v.srtt.toNat - v.srtt.toNat / 8 + m

/-- A measurement the estimator is fit for.  The first is stored eight times as
    large, so a multiple of 2^29 is lost; later ones must not bring `srtt` to 2^32
    exactly, nor the timeout to 2^32 or more. -/
def sample_fits (v : RcvVars) (m : Nat) : Prop :=
  if v.srtt = 0 then ¬ 2 ^ 29 ∣ m
  else next_srtt v m ≠ 2 ^ 32 ∧
    next_srtt v m % 2 ^ 32 / 8 + max v.rttvar.toNat (next_mdev v m) < 2 ^ 32

instance (v : RcvVars) (m : Nat) : Decidable (sample_fits v m) :=
  inferInstanceAs (Decidable (if v.srtt = 0 then ¬ 2 ^ 29 ∣ m
    else next_srtt v m ≠ 2 ^ 32 ∧
      next_srtt v m % 2 ^ 32 / 8 + max v.rttvar.toNat (next_mdev v m) < 2 ^ 32))

theorem u32_ne_zero {x : UInt32} (h : x.toNat ≠ 0) : x ≠ 0 := by
  rintro rfl
  exact h rfl

theorem toNat_ne_zero {x : UInt32} (h : x ≠ 0) : x.toNat ≠ 0 := by
  intro hz
  exact h (UInt32.toNat_inj.mp hz)

theorem toNat_shiftRight_three (x : UInt32) : (x >>> 3).toNat = x.toNat / 8 := by
  rw [UInt32.toNat_shiftRight]
  exact Nat.shiftRight_eq_div_pow _ 3

theorem toNat_shiftRight_two (x : UInt32) : (x >>> 2).toNat = x.toNat / 4 := by
  rw [UInt32.toNat_shiftRight]
  exact Nat.shiftRight_eq_div_pow _ 2

/-- The timeout of a positive deviation, if it does not overflow. -/
theorem rto_of_ne_zero {v : RcvVars} (hv : v.rttvar ≠ 0)
    (hsum : v.srtt.toNat / 8 + v.rttvar.toNat < 2 ^ 32) : rto_of v ≠ 0 := by
  have hpos := toNat_ne_zero hv
  apply u32_ne_zero
  unfold rto_of
  -- without overflow the sum is at least the deviation
  rw [toNat_add, toNat_shiftRight_three, Nat.mod_eq_of_lt hsum]
  omega

theorem smooth_rtt_srtt (v : RcvVars) (m : Nat) :
    (smooth_rtt v m).srtt.toNat = next_srtt v m % 2 ^ 32 := by
  have hle := Nat.div_le_self v.srtt.toNat 8
  unfold smooth_rtt next_srtt
  simp only
  rw [toNat_u32, toNat_shiftRight_three]
  omega

theorem smooth_rtt_mdev (v : RcvVars) (m : Nat) :
    (smooth_rtt v m).mdev.toNat = next_mdev v m % 2 ^ 32 := by
  have hle := Nat.div_le_self v.mdev.toNat 4
  unfold smooth_rtt next_mdev
  simp only
  rw [toNat_u32, toNat_shiftRight_three, toNat_shiftRight_two]
  -- the three cases of the difference and of the new deviation
  by_cases hup : v.srtt.toNat / 8 ≤ m
  · rw [if_neg (by omega), if_pos hup]
    omega
  · rw [if_pos (by omega), if_neg hup]
    by_cases hsmall : v.srtt.toNat / 8 - m ≤ v.mdev.toNat / 4
    · rw [if_neg (by omega), if_pos hsmall]
      omega
    · rw [if_pos (by omega), if_neg hsmall]
      have hshift : ∀ i : Int, i >>> (3 : Nat) = i / 8 := fun i => Int.shiftRight_eq_div_pow i 3
      have hdiff : -((m : Int) - (v.srtt.toNat / 8 : Nat)) - (v.mdev.toNat / 4 : Nat) =
          (v.srtt.toNat / 8 - m - v.mdev.toNat / 4 : Nat) := by omega
      rw [hshift, hdiff]
      omega

/-- `rttvar` takes over a larger deviation. -/
theorem smooth_rtt_rttvar {v : RcvVars} {m : Nat} (hfit : next_mdev v m < 2 ^ 32) :
    v.rttvar.toNat ≤ (smooth_rtt v m).rttvar.toNat ∧
    (smooth_rtt v m).rttvar.toNat ≤ max v.rttvar.toNat (next_mdev v m) := by
  have hmdev := smooth_rtt_mdev v m
  rw [Nat.mod_eq_of_lt hfit] at hmdev
  generalize hw : (smooth_rtt v m).mdev = mdev at hmdev
  have hrttvar : (smooth_rtt v m).rttvar =
      if mdev > v.mdev_max ∧ mdev > v.rttvar then mdev else v.rttvar := by
    rw [← hw]
    rfl
  rw [hrttvar, ← hmdev]
  split
  · rename_i hmore
    exact ⟨Nat.le_of_lt hmore.2, Nat.le_max_right _ _⟩
  · exact ⟨Nat.le_refl _, Nat.le_max_left _ _⟩

/-- The end of a period takes a quarter of it at most. -/
theorem end_period_rttvar (v : RcvVars) (snd_nxt : UInt32) :
    (end_period v snd_nxt).rttvar.toNat ≤ v.rttvar.toNat ∧
    (v.rttvar ≠ 0 → (end_period v snd_nxt).rttvar ≠ 0) := by
  unfold end_period
  simp only
  split
  · rename_i hlt
    have hle : v.mdev_max.toNat ≤ v.rttvar.toNat := Nat.le_of_lt hlt
    have hdiff : (v.rttvar - v.mdev_max).toNat = v.rttvar.toNat - v.mdev_max.toNat :=
      sub_toNat_of_le hle
    have hquarter : ((v.rttvar - v.mdev_max) >>> 2).toNat =
        (v.rttvar.toNat - v.mdev_max.toNat) / 4 := by
      rw [toNat_shiftRight_two, hdiff]
    have hnew : (v.rttvar - ((v.rttvar - v.mdev_max) >>> 2)).toNat =
        v.rttvar.toNat - (v.rttvar.toNat - v.mdev_max.toNat) / 4 := by
      rw [sub_toNat_of_le (by rw [hquarter]; omega), hquarter]
    refine ⟨by rw [hnew]; omega, fun hne => ?_⟩
    have hpos := toNat_ne_zero hne
    apply u32_ne_zero
    rw [hnew]
    omega
  -- `rttvar` goes down only after a period whose deviations stayed below it
  · exact ⟨Nat.le_refl _, id⟩

/-- A fitting measurement leaves a positive timeout, and an `srtt` and a `rttvar`
    that are not 0. -/
structure Positive (v : RcvVars) : Prop where
  srtt : v.srtt ≠ 0
  rttvar : v.rttvar ≠ 0
  rto : rto_of v ≠ 0

theorem smooth_rtt_positive {v : RcvVars} {m : Nat} (hsrtt : v.srtt ≠ 0) (hrttvar : v.rttvar ≠ 0)
    (hm : 0 < m) (hlt : m < 2 ^ 32) (hfit : sample_fits v m) :
    Positive (smooth_rtt v m) ∧ ∀ snd_nxt, Positive (end_period (smooth_rtt v m) snd_nxt) := by
  unfold sample_fits at hfit
  rw [if_neg hsrtt] at hfit
  obtain ⟨hne, hsum⟩ := hfit
  have hold := toNat_ne_zero hrttvar
  have hbound := v.srtt.toNat_lt
  have hnew := smooth_rtt_srtt v m
  obtain ⟨hlo, hhi⟩ := smooth_rtt_rttvar (v := v) (m := m) (by omega)
  -- the sum is between 1 and 2^33, so it leaves 0 on 32 bits only as 2^32
  have hs : (smooth_rtt v m).srtt ≠ 0 := by
    apply u32_ne_zero
    rw [hnew]
    unfold next_srtt at hne ⊢
    omega
  have hr : (smooth_rtt v m).rttvar ≠ 0 := by
    apply u32_ne_zero
    omega
  rw [← hnew] at hsum
  refine ⟨⟨hs, hr, rto_of_ne_zero hr (by omega)⟩, ?_⟩
  intro snd_nxt
  obtain ⟨hle, hkept⟩ := end_period_rttvar (smooth_rtt v m) snd_nxt
  have hsame : (end_period (smooth_rtt v m) snd_nxt).srtt = (smooth_rtt v m).srtt := rfl
  exact ⟨hs, hkept hr, rto_of_ne_zero (hkept hr) (by rw [hsame]; omega)⟩

/-- Three times what is below 2^29 is no multiple of 2^30. -/
theorem tripled_ne_zero {x : Nat} (y : Nat) (hx : x ≠ 0) (hlt : x < 2 ^ 29) :
    (x + (2 * x + 2 ^ 30 * y)) % 2 ^ 32 ≠ 0 := by
  intro h
  have hsum : 2 ^ 30 ∣ 3 * x + 2 ^ 30 * y := by
    rw [show 3 * x + 2 ^ 30 * y = x + (2 * x + 2 ^ 30 * y) by ring]
    exact (Nat.pow_dvd_pow 2 (by decide)).trans (Nat.dvd_of_mod_eq_zero h)
  have hthree : 2 ^ 30 ∣ 3 * x := (Nat.dvd_add_left (Nat.dvd_mul_right _ _)).mp hsum
  have hle := Nat.le_of_dvd (Nat.pos_of_ne_zero hx)
    ((Nat.Coprime.dvd_mul_left (by decide)).mp hthree)
  exact absurd (Nat.lt_of_le_of_lt hle hlt) (by decide)

/-- The first measurement. -/
theorem fresh_positive {v : RcvVars} {m : Nat} (hlt : m < 2 ^ 32) (hfit : ¬ 2 ^ 29 ∣ m)
    (hsrtt : v.srtt = u32 m <<< 3) (hrttvar : v.rttvar = u32 m <<< 1) : Positive v := by
  have hs : v.srtt.toNat = m * 8 % 2 ^ 32 := by
    rw [hsrtt, UInt32.toNat_shiftLeft, toNat_u32_of_lt hlt]
    exact congrArg (· % 2 ^ 32) (Nat.shiftLeft_eq m 3)
  have hr : v.rttvar.toNat = m * 2 % 2 ^ 32 := by
    rw [hrttvar, UInt32.toNat_shiftLeft, toNat_u32_of_lt hlt]
    exact congrArg (· % 2 ^ 32) (Nat.shiftLeft_eq m 1)
  rw [Nat.dvd_iff_mod_eq_zero] at hfit
  refine ⟨u32_ne_zero (by omega), u32_ne_zero (by omega), u32_ne_zero ?_⟩
  unfold rto_of
  rw [toNat_add, toNat_shiftRight_three, hs, hr]
  -- with x for what 2^29 leaves of m the sum is 3 * x, up to multiples of 2^30
  have hx : m * 8 % 2 ^ 32 / 8 = m % 2 ^ 29 := by omega
  have hy : m * 2 % 2 ^ 32 = 2 * (m % 2 ^ 29) + 2 ^ 30 * (m / 2 ^ 29 % 4) := by omega
  rw [hx, hy]
  exact tripled_ne_zero _ hfit (Nat.mod_lt _ (by decide))

/-! ## Section 2: An acknowledgement -/

/-- The acknowledgement takes bytes from the send buffer of a connection that uses
    timestamps, so the echo is measured. -/
def measured_by (u : Conn) (buf : UsnSendbuf) (seg : Segment) : Prop :=
  u.tcb.saw_timestamp = true ∧
  ¬ TCP_SEQ_GT (counted_ack u seg.ack_seq) (buf.head_seq + buf.len) ∧
  ¬ TCP_SEQ_GEQ buf.head_seq (counted_ack u seg.ack_seq)

/-- What is measured, one tick at least. -/
def measurement (cur_time echo : UInt32) : Nat := max 1 (cur_time - echo).toNat

theorem measured_eq (mrtt : UInt32) : measured mrtt = (max 1 mrtt.toNat : Nat) := by
  unfold measured
  by_cases h : mrtt = 0
  · rw [if_pos h, h]
    rfl
  · rw [if_neg h, Nat.max_eq_right (Nat.pos_of_ne_zero (toNat_ne_zero h))]

theorem measurement_pos (cur_time echo : UInt32) : 0 < measurement cur_time echo :=
  Nat.lt_of_lt_of_le Nat.zero_lt_one (Nat.le_max_left _ _)

theorem measurement_lt (cur_time echo : UInt32) : measurement cur_time echo < 2 ^ 32 :=
  Nat.max_lt.mpr ⟨by decide, (cur_time - echo).toNat_lt⟩

/-- Only these of the variables count. -/
theorem sample_fits_congr {v v' : RcvVars} {m : Nat} (hfit : sample_fits v m)
    (hsrtt : v'.srtt = v.srtt) (hmdev : v'.mdev = v.mdev) (hrttvar : v'.rttvar = v.rttvar) :
    sample_fits v' m := by
  unfold sample_fits next_srtt next_mdev at hfit ⊢
  rwa [hsrtt, hmdev, hrttvar]

theorem estimated_positive {v : Conn} (hold : v.tcb.rcvvar.srtt ≠ 0 → v.tcb.rcvvar.rttvar ≠ 0)
    (hfit : sample_fits v.tcb.rcvvar
      (measurement v.ctx.cur_time v.tcb.rcvvar.ts_lastack_rcvd)) :
    Positive (estimated v).tcb.rcvvar := by
  have hpos := measurement_pos v.ctx.cur_time v.tcb.rcvvar.ts_lastack_rcvd
  have hlt := measurement_lt v.ctx.cur_time v.tcb.rcvvar.ts_lastack_rcvd
  unfold estimated usnet_estimate_rtt
  rw [measured_eq]
  generalize hm : measurement v.ctx.cur_time v.tcb.rcvvar.ts_lastack_rcvd = m at *
  rw [show max 1 _ = m from hm]
  -- a later sample, or the first one
  by_cases hsrtt : v.tcb.rcvvar.srtt ≠ 0
  · obtain ⟨hsmooth, hend⟩ := smooth_rtt_positive hsrtt (hold hsrtt) hpos hlt hfit
    simp only [if_pos hsrtt]
    split
    · exact hend _
    · exact hsmooth
  · simp only [if_neg hsrtt]
    unfold sample_fits at hfit
    rw [if_pos (by simpa using hsrtt)] at hfit
    exact fresh_positive hlt hfit rfl rfl

/-- The part of a connection the estimator works with, as the runs find it. -/
structure Sound (v : RcvVars) (rto : UInt32) : Prop where
  rto : rto ≠ 0
  rttvar : v.srtt ≠ 0 → v.rttvar ≠ 0

/-- Two connections that measure the same. -/
structure SameRtt (u v : Conn) : Prop where
  cur_time : v.ctx.cur_time = u.ctx.cur_time
  saw_timestamp : v.tcb.saw_timestamp = u.tcb.saw_timestamp
  echo : v.tcb.rcvvar.ts_lastack_rcvd = u.tcb.rcvvar.ts_lastack_rcvd
  srtt : v.tcb.rcvvar.srtt = u.tcb.rcvvar.srtt
  mdev : v.tcb.rcvvar.mdev = u.tcb.rcvvar.mdev
  rttvar : v.tcb.rcvvar.rttvar = u.tcb.rcvvar.rttvar
  rto : v.tcb.sndvar.rto = u.tcb.sndvar.rto

/-- The parts before the estimator do not touch it. -/
theorem noted_ack_rtt (u : Conn) (buf : UsnSendbuf) (seg : Segment) (ack_seq : UInt32) :
    SameRtt u (noted_ack u buf seg ack_seq) := by
  obtain ⟨cwnd, ssthresh, hflow, -⟩ := noted_ack_flow u buf seg ack_seq
  have hdup : (dup_flow u.tcb seg ack_seq).saw_timestamp = u.tcb.saw_timestamp ∧
      (dup_flow u.tcb seg ack_seq).ts_lastack_rcvd = u.tcb.rcvvar.ts_lastack_rcvd ∧
      (dup_flow u.tcb seg ack_seq).srtt = u.tcb.rcvvar.srtt ∧
      (dup_flow u.tcb seg ack_seq).mdev = u.tcb.rcvvar.mdev ∧
      (dup_flow u.tcb seg ack_seq).rttvar = u.tcb.rcvvar.rttvar ∧
      (dup_flow u.tcb seg ack_seq).rto = u.tcb.sndvar.rto := by
    unfold dup_flow window_flow
    split <;> exact ⟨rfl, rfl, rfl, rfl, rfl, rfl⟩
  obtain ⟨hsaw, hecho, hsrtt, hmdev, hrttvar, hrto⟩ := hdup
  constructor
  · simp [noted_ack]
  · exact (congrArg Flow.saw_timestamp hflow).trans hsaw
  · exact (congrArg Flow.ts_lastack_rcvd hflow).trans hecho
  · exact (congrArg Flow.srtt hflow).trans hsrtt
  · exact (congrArg Flow.mdev hflow).trans hmdev
  · exact (congrArg Flow.rttvar hflow).trans hrttvar
  · exact (congrArg Flow.rto hflow).trans hrto

/-- What is sound in one is sound in the other. -/
theorem SameRtt.sound {u v : Conn} (h : SameRtt u v)
    (hu : Sound u.tcb.rcvvar u.tcb.sndvar.rto) : Sound v.tcb.rcvvar v.tcb.sndvar.rto := by
  obtain ⟨hrto, hrttvar⟩ := hu
  constructor
  · rw [h.rto]
    exact hrto
  · rw [h.srtt, h.rttvar]
    exact hrttvar

/-- A measurement that fits one fits the other. -/
theorem SameRtt.fits {u v : Conn} (h : SameRtt u v)
    (hfit : sample_fits u.tcb.rcvvar
      (measurement u.ctx.cur_time u.tcb.rcvvar.ts_lastack_rcvd)) :
    sample_fits v.tcb.rcvvar (measurement v.ctx.cur_time v.tcb.rcvvar.ts_lastack_rcvd) := by
  rw [h.cur_time, h.echo]
  exact sample_fits_congr hfit h.srtt h.mdev h.rttvar

section
variable {u : Conn} {buf : UsnSendbuf} {seg : Segment}
  (hu : Sound u.tcb.rcvvar u.tcb.sndvar.rto)
  (hfit : measured_by u buf seg → sample_fits u.tcb.rcvvar
    (measurement u.ctx.cur_time u.tcb.rcvvar.ts_lastack_rcvd))
include hu hfit

/-- The estimator behind an acknowledgement of new data, which is measured if the
    connection uses timestamps. -/
theorem update_rto_sound (hnot : ¬ TCP_SEQ_GT (counted_ack u seg.ack_seq) (buf.head_seq + buf.len))
    (hnew : ¬ TCP_SEQ_GEQ buf.head_seq (counted_ack u seg.ack_seq)) :
    ∃ w, update_rto (noted_ack u buf seg (counted_ack u seg.ack_seq)) = .ok w ∧
      Sound w.tcb.rcvvar w.tcb.sndvar.rto ∧
      (measured_by u buf seg → w.tcb.rcvvar.srtt ≠ 0) ∧
      (¬ measured_by u buf seg → w.tcb.rcvvar.srtt = u.tcb.rcvvar.srtt) := by
  have hsame := noted_ack_rtt u buf seg (counted_ack u seg.ack_seq)
  generalize noted_ack u buf seg (counted_ack u seg.ack_seq) = v at hsame
  have hv := hsame.sound hu
  cases hts : u.tcb.saw_timestamp with
  -- without timestamps nothing is measured and nothing written
  | false =>
    have hnone : ¬ measured_by u buf seg := by
      intro hm
      rw [hm.1] at hts
      cases hts
    refine ⟨v, ?_, hv, fun hm => absurd hm hnone, fun _ => hsame.srtt⟩
    unfold update_rto
    rw [hsame.saw_timestamp, hts]
    rfl
  | true =>
    have hm : measured_by u buf seg := ⟨hts, hnot, hnew⟩
    have hpos := estimated_positive hv.rttvar (hsame.fits (hfit hm))
    refine ⟨(estimated v).onSnd fun x => { x with rto := rto_of (estimated v).tcb.rcvvar },
      ?_, ⟨hpos.rto, fun _ => hpos.rttvar⟩, fun _ => hpos.srtt, fun hnone => absurd hm hnone⟩
    unfold update_rto
    rw [hsame.saw_timestamp, hts]
    exact if_neg hpos.rto

/-- If what an acknowledgement measures is fit for the estimator, the variables stay
    sound; `srtt` changes by a measurement only, and is not 0 then. -/
theorem usnet_process_ack_sound {u' : Conn} {ret : Int}
    (h : usnet_process_ack u buf seg = .ok (ret, u')) :
    Sound u'.tcb.rcvvar u'.tcb.sndvar.rto ∧
    (measured_by u buf seg → u'.tcb.rcvvar.srtt ≠ 0) ∧
    (¬ measured_by u buf seg → u'.tcb.rcvvar.srtt = u.tcb.rcvvar.srtt) := by
  rcases usnet_process_ack_returns h with ⟨hbeyond, rfl⟩ | ⟨-, hold, rfl⟩ |
    ⟨hnot, hnew, w, cwnd, hrto, -, hx⟩
  · exact ⟨hu, fun hm => absurd hbeyond hm.2.1, fun _ => rfl⟩
  · have hsame := noted_ack_rtt u buf seg (counted_ack u seg.ack_seq)
    exact ⟨hsame.sound hu, fun hm => absurd hold hm.2.2, fun _ => hsame.srtt⟩
  · obtain ⟨w', hok, hsound, hmeas, hnone⟩ := update_rto_sound hu hfit hnot hnew
    rw [hrto] at hok
    obtain rfl := Except.ok.inj hok
    have hs : u'.tcb.rcvvar.srtt = w.tcb.rcvvar.srtt := congrArg Flow.srtt hx
    have hv' : u'.tcb.rcvvar.rttvar = w.tcb.rcvvar.rttvar := congrArg Flow.rttvar hx
    have ho : u'.tcb.sndvar.rto = w.tcb.sndvar.rto := congrArg Flow.rto hx
    rw [hs]
    refine ⟨⟨ho ▸ hsound.rto, ?_⟩, hmeas, hnone⟩
    rw [hs, hv']
    exact hsound.rttvar

/-- Nor does an assertion on `rto` fail. -/
theorem usnet_process_ack_asserts : usnet_process_ack u buf seg ≠ .error .rto_assert := by
  intro h
  -- its own assertion, or that of `usnet_update_retransmission_timer` behind it
  rcases usnet_process_ack_faults h with ⟨hdiv, -⟩ | ⟨hnot, hnew, hrto | ⟨w', hrto, -, hzero⟩⟩
  · cases hdiv
  · obtain ⟨w, hok, -⟩ := update_rto_sound hu hfit hnot hnew
    rw [hrto] at hok
    cases hok
  · obtain ⟨w, hok, hsound, -⟩ := update_rto_sound hu hfit hnot hnew
    rw [hrto] at hok
    obtain rfl := Except.ok.inj hok
    exact hsound.rto (hzero rfl)

end

/-! ## Section 3: An event -/

/-- The segment's echo is measured. -/
def takes_sample (s : Conn) (seg : Segment) : Prop :=
  addressed s.tcb seg = true ∧ ∃ n buf, Entered s seg n ∧ takes_ack n.tcb seg ∧
    n.tcb.sndvar.sndbuf = some buf ∧ measured_by n buf seg

/-- The ticks measured then: from the time the peer echoes until now. -/
def sample (s : Conn) (seg : Segment) : Nat :=
  measurement s.ctx.cur_time (last_echo s.tcb seg)

/-- The event takes a sample. -/
def samples (s : Conn) (ev : LifeEvent) : Prop := ∃ seg, ev = .segment seg ∧ takes_sample s seg

/-- Every sample is fit for the estimator. -/
def SampleCond (s : Conn) (ev : LifeEvent) : Prop :=
  ∀ seg, ev = .segment seg → takes_sample s seg → sample_fits s.tcb.rcvvar (sample s seg)

/-- What `usnet_process_ack` finds of the estimator. -/
structure AckRtt (s u : Conn) (seg : Segment) : Prop where
  cur_time : u.ctx.cur_time = s.ctx.cur_time
  echo : u.tcb.rcvvar.ts_lastack_rcvd = last_echo s.tcb seg
  srtt : u.tcb.rcvvar.srtt = s.tcb.rcvvar.srtt
  mdev : u.tcb.rcvvar.mdev = s.tcb.rcvvar.mdev
  rttvar : u.tcb.rcvvar.rttvar = s.tcb.rcvvar.rttvar
  rto : u.tcb.sndvar.rto = s.tcb.sndvar.rto

theorem AckEntry.measured_by {n u : Conn} (h : AckEntry n u) (buf : UsnSendbuf)
    (seg : Segment) : measured_by u buf seg ↔ measured_by n buf seg := by
  have hsaw : u.tcb.saw_timestamp = n.tcb.saw_timestamp := congrArg Flow.saw_timestamp h.flow
  unfold Usnet.measured_by
  rw [hsaw, h.counted]

section
variable {s n u : Conn} {buf : UsnSendbuf} {seg : Segment} (hentered : Entered s seg n)
  (hentry : AckEntry n u)
include hentered hentry

theorem ack_rtt : AckRtt s u seg := by
  have hflow := hentry.flow.trans hentered.flow
  constructor
  · exact hentry.cur_time.trans hentered.same.2.1
  · exact congrArg Flow.ts_lastack_rcvd hflow
  · exact congrArg Flow.srtt hflow
  · exact congrArg Flow.mdev hflow
  · exact congrArg Flow.rttvar hflow
  · exact congrArg Flow.rto hflow

theorem ack_sound (hs : Sound s.tcb.rcvvar s.tcb.sndvar.rto) :
    Sound u.tcb.rcvvar u.tcb.sndvar.rto := by
  have hrtt := ack_rtt hentered hentry
  obtain ⟨hrto, hrttvar⟩ := hs
  constructor
  · rw [hrtt.rto]
    exact hrto
  · rw [hrtt.srtt, hrtt.rttvar]
    exact hrttvar

/-- What the acknowledgement measures is the segment's sample. -/
theorem ack_fits (haddr : addressed s.tcb seg = true) (ht : takes_ack n.tcb seg)
    (hbuf : n.tcb.sndvar.sndbuf = some buf) (hc : SampleCond s (.segment seg))
    (hm : measured_by u buf seg) :
    sample_fits u.tcb.rcvvar (measurement u.ctx.cur_time u.tcb.rcvvar.ts_lastack_rcvd) := by
  have hrtt := ack_rtt hentered hentry
  have hfit := hc seg rfl
    ⟨haddr, n, buf, hentered, ht, hbuf, (hentry.measured_by buf seg).mp hm⟩
  rw [hrtt.cur_time, hrtt.echo]
  exact sample_fits_congr hfit hrtt.srtt hrtt.mdev hrtt.rttvar

end

/-- The variables after an event: sound, with an `srtt` after a sample and the old one
    otherwise. -/
structure RttStep (s : Conn) (ev : LifeEvent) (s' : Conn) : Prop where
  sound : Sound s'.tcb.rcvvar s'.tcb.sndvar.rto
  sampled : samples s ev → s'.tcb.rcvvar.srtt ≠ 0
  kept : ¬ samples s ev → s'.tcb.rcvvar.srtt = s.tcb.rcvvar.srtt

/-- An event that takes no sample and writes `rto` only if the value is not 0. -/
theorem RttStep.of_kept {s s' : Conn} {ev : LifeEvent} (hs : Sound s.tcb.rcvvar s.tcb.sndvar.rto)
    (hno : ¬ samples s ev) (hsrtt : s'.tcb.rcvvar.srtt = s.tcb.rcvvar.srtt)
    (hrttvar : s'.tcb.rcvvar.rttvar = s.tcb.rcvvar.rttvar)
    (hrto : s'.tcb.sndvar.rto = s.tcb.sndvar.rto ∨ s'.tcb.sndvar.rto ≠ 0) : RttStep s ev s' := by
  refine ⟨⟨?_, ?_⟩, fun h => absurd h hno, fun _ => hsrtt⟩
  · rcases hrto with h | h
    · rw [h]
      exact hs.rto
    · exact h
  · rw [hsrtt, hrttvar]
    exact hs.rttvar

theorem RttStep.of_flow {s s' : Conn} {ev : LifeEvent} (hs : Sound s.tcb.rcvvar s.tcb.sndvar.rto)
    (hno : ¬ samples s ev) (hflow : s'.tcb.flow = s.tcb.flow) : RttStep s ev s' :=
  .of_kept hs hno (congrArg Flow.srtt hflow) (congrArg Flow.rttvar hflow)
    (.inl (congrArg Flow.rto hflow))

/-- A segment that is handled. -/
theorem handled_rtt {s n s' : Conn} {seg : Segment} (hs : Sound s.tcb.rcvvar s.tcb.sndvar.rto)
    (haddr : addressed s.tcb seg = true) (hc : SampleCond s (.segment seg))
    (hentered : Entered s seg n) (hh : handle_state n seg = .ok s') :
    RttStep s (.segment seg) s' := by
  have hsrtt : n.tcb.rcvvar.srtt = s.tcb.rcvvar.srtt := congrArg Flow.srtt hentered.flow
  have hrttvar : n.tcb.rcvvar.rttvar = s.tcb.rcvvar.rttvar := congrArg Flow.rttvar hentered.flow
  have hrto : n.tcb.sndvar.rto = s.tcb.sndvar.rto := congrArg Flow.rto hentered.flow
  -- a sample is taken by this handler or not at all
  have hsample : samples s (.segment seg) → ∃ buf, takes_ack n.tcb seg ∧
      n.tcb.sndvar.sndbuf = some buf ∧ measured_by n buf seg := by
    rintro ⟨seg', hev, -, n', buf, hentered', ht, hbuf, hm⟩
    obtain rfl := LifeEvent.segment.inj hev
    obtain rfl := hentered.unique hentered'
    exact ⟨buf, ht, hbuf, hm⟩
  have hflow := handle_state_flow n seg
  rw [hh] at hflow
  cases hflow with
  | kept hno hkeeps =>
    have hsame : s'.tcb.flow = n.tcb.flow := hkeeps
    apply RttStep.of_kept hs
    · intro h
      obtain ⟨buf, ht, hbuf, -⟩ := hsample h
      exact hno ⟨ht, by rw [hbuf]; rfl⟩
    · exact (congrArg Flow.srtt hsame).trans hsrtt
    · exact (congrArg Flow.rttvar hsame).trans hrttvar
    · exact .inl ((congrArg Flow.rto hsame).trans hrto)
  | opened hst hkeeps =>
    apply RttStep.of_kept hs
    · intro h
      obtain ⟨buf, ht, -, -⟩ := hsample h
      unfold takes_ack at ht
      rw [hst] at ht
      exact ht
    · exact (congrArg Flow.srtt hkeeps).trans hsrtt
    · exact (congrArg Flow.rttvar hkeeps).trans hrttvar
    · exact .inl ((congrArg Flow.rto hkeeps).trans hrto)
  | @acked u u' buf ret _ ht hentry hbuf hack hkeeps =>
    obtain ⟨hsound, hmeas, hnone⟩ := usnet_process_ack_sound (ack_sound hentered hentry hs)
      (ack_fits hentered hentry haddr ht hbuf hc) hack
    have hsame : s'.tcb.flow = u'.tcb.flow := hkeeps
    have hs' : s'.tcb.rcvvar.srtt = u'.tcb.rcvvar.srtt := congrArg Flow.srtt hsame
    have hv' : s'.tcb.rcvvar.rttvar = u'.tcb.rcvvar.rttvar := congrArg Flow.rttvar hsame
    have ho' : s'.tcb.sndvar.rto = u'.tcb.sndvar.rto := congrArg Flow.rto hsame
    refine ⟨⟨ho' ▸ hsound.rto, ?_⟩, ?_, ?_⟩
    · rw [hs', hv']
      exact hsound.rttvar
    · intro h
      obtain ⟨buf', -, hbuf', hm⟩ := hsample h
      obtain rfl := Option.some.inj (hbuf.symm.trans hbuf')
      rw [hs']
      exact hmeas ((hentry.measured_by buf seg).mpr hm)
    · intro h
      rw [hs', hnone fun hm => h ⟨seg, rfl, haddr, n, buf, hentered, ht, hbuf,
        (hentry.measured_by buf seg).mp hm⟩]
      exact (ack_rtt hentered hentry).srtt

/-- What any event does to the estimator, if every sample is fit for it. -/
theorem life_conn_rtt {s s' : Conn} {ev : LifeEvent} (hs : Sound s.tcb.rcvvar s.tcb.sndvar.rto)
    (hc : SampleCond s ev) (hok : life_conn s ev = .ok s') : RttStep s ev s' := by
  by_cases hseg : ∃ seg, ev = .segment seg ∧ addressed s.tcb seg = true
  · obtain ⟨seg, rfl, haddr⟩ := hseg
    simp only [life_conn, haddr, if_true] at hok
    have hflow := input_segment_flow s seg
    generalize hq : input_segment s seg = q at hok hflow
    cases hflow with
    | @refused s₁ x hrefused =>
      obtain rfl := Except.ok.inj hok
      apply RttStep.of_kept hs
      -- a segment that is refused never reaches a handler, so no echo is measured
      · rintro ⟨seg', hev, -, n, buf, hentered, -⟩
        obtain rfl := LifeEvent.segment.inj hev
        rw [hentered.input] at hq
        cases hh : handle_state n seg with
        | error e =>
          rw [hh] at hq
          cases hq
        | ok v =>
          rw [hh] at hq
          have hret : (0 : Int) = -3 := congrArg Prod.fst (Except.ok.inj hq)
          exact absurd hret (by decide)
      · exact congrArg Flow.srtt hrefused
      · exact congrArg Flow.rttvar hrefused
      · exact .inl (congrArg Flow.rto hrefused)
    | handled hentered hh =>
      obtain rfl := Except.ok.inj hok
      exact handled_rtt hs haddr hc hentered hh
    | failed _ _ => cases hok
    | check_failed _ _ => cases hok
  · have hno : ¬ samples s ev := by
      rintro ⟨seg, rfl, haddr, -⟩
      exact hseg ⟨seg, rfl, haddr⟩
    have hflow := life_conn_flow s ev
    rw [hok] at hflow
    generalize hr : (Except.ok s' : Except Fault Conn) = r at hflow
    cases hflow with
    | kept hkeeps =>
      rw [← hr] at hkeeps
      exact .of_flow hs hno hkeeps
    | backed_off hback =>
      obtain rfl := Except.ok.inj hr
      obtain ⟨rto, ssthresh, hflow, hrto⟩ := back_off_flow s
      rw [hflow] at hback
      have ho : s'.tcb.sndvar.rto = rto := congrArg Flow.rto hback
      apply RttStep.of_kept hs hno (congrArg Flow.srtt hback) (congrArg Flow.rttvar hback)
      rw [ho]
      exact hrto
    | input haddr _ => exact absurd ⟨_, rfl, haddr⟩ hseg

/-- Then no assertion on `rto` fails. -/
theorem life_conn_asserts {s : Conn} {ev : LifeEvent} (hs : Sound s.tcb.rcvvar s.tcb.sndvar.rto)
    (hc : SampleCond s ev) : life_conn s ev ≠ .error .rto_assert := by
  intro h
  cases life_conn_failed h with
  | timer _ hzero => exact hs.rto (hzero rfl)
  | acked haddr hentered ht hentry hbuf hack _ hzero =>
    obtain ⟨hsound, -, -⟩ := usnet_process_ack_sound (ack_sound hentered hentry hs)
      (ack_fits hentered hentry haddr ht hbuf hc) hack
    exact hsound.rto (hzero rfl)
  | ack haddr hentered ht hentry hbuf hack =>
    exact usnet_process_ack_asserts (ack_sound hentered hentry hs)
      (ack_fits hentered hentry haddr ht hbuf hc) hack

/-! ## Section 4: Runs -/

/-- A connection, and whether a sample has been taken since it was created. -/
structure Sampling where
  tcb : UsnTcb
  sampled : Prop

/-- The connection as it is created. -/
def Sampling.Fresh (σ : Sampling) : Prop :=
  (∃ c seg ret c', usnet_tcp_input c none seg = .ok (ret, c', some σ.tcb)) ∧ ¬ σ.sampled

/-- An event that does not release it. -/
def SamplingStep (σ : Sampling) (a : Ctx × LifeEvent) (σ' : Sampling) : Prop :=
  ConnStep σ.tcb a σ'.tcb ∧ (σ'.sampled ↔ σ.sampled ∨ samples ⟨a.1, σ.tcb⟩ a.2)

/-- In a run whose samples all are fit for the estimator the timeout stays positive,
    no assertion on it fails and `srtt` does not come back to 0. -/
theorem rto_stays_positive {σ : Sampling}
    (h : RunWhere SamplingStep (fun σ a => SampleCond ⟨a.1, σ.tcb⟩ a.2) Sampling.Fresh σ) :
    σ.tcb.sndvar.rto > 0 ∧ (σ.sampled → σ.tcb.rcvvar.srtt ≠ 0) ∧
    ∀ (c : Ctx) (ev : LifeEvent), SampleCond ⟨c, σ.tcb⟩ ev →
      life_conn ⟨c, σ.tcb⟩ ev ≠ .error .rto_assert := by
  -- `rttvar` is carried along: it is what keeps the sum positive
  have hinv : Sound σ.tcb.rcvvar σ.tcb.sndvar.rto ∧ (σ.sampled → σ.tcb.rcvvar.srtt ≠ 0) := by
    apply RunWhere.invariant (I := fun σ => Sound σ.tcb.rcvvar σ.tcb.sndvar.rto ∧
      (σ.sampled → σ.tcb.rcvvar.srtt ≠ 0)) _ _ h
    · rintro σ ⟨⟨c, seg, ret, c', hin⟩, hnot⟩
      have hflow := usnet_tcp_input_flow hin
      have hrto : σ.tcb.sndvar.rto = TCP_INITIAL_RTO := congrArg Flow.rto hflow
      have hsrtt : σ.tcb.rcvvar.srtt = 0 := congrArg Flow.srtt hflow
      refine ⟨⟨?_, fun hne => absurd hsrtt hne⟩, fun hs => absurd hs hnot⟩
      rw [hrto]
      decide
    · intro σ a σ' hi hc hstep
      obtain ⟨hconn, hsampled⟩ := hstep
      obtain ⟨s', hok, htcb⟩ := hconn.life_conn
      have hstep := life_conn_rtt hi.1 hc hok
      rw [← htcb]
      refine ⟨hstep.sound, fun hs => ?_⟩
      by_cases hnow : samples ⟨a.1, σ.tcb⟩ a.2
      · exact hstep.sampled hnow
      · rw [hstep.kept hnow]
        rcases hsampled.mp hs with hbefore | hnow'
        · exact hi.2 hbefore
        · exact absurd hnow' hnow
  refine ⟨?_, hinv.2, fun c ev hc => life_conn_asserts hinv.1 hc⟩
  exact Nat.pos_of_ne_zero (toNat_ne_zero hinv.1.rto)

/-- Every event of a run on a connection meets the condition. -/
def conn_meets (C : LifeCond) (t : UsnTcb) : List (Ctx × LifeEvent) → Prop
  | [] => True
  | a :: as =>
    C ⟨a.1, t⟩ a.2 ∧
    match life_step a.1 (some t) a.2 with
    | .ok (_, some t) => conn_meets C t as
    | _ => True

theorem Sampling.run {σ : Sampling} {t' : UsnTcb}
    (h : RunWhere SamplingStep (fun σ a => SampleCond ⟨a.1, σ.tcb⟩ a.2) Sampling.Fresh σ)
    (evs : List (Ctx × LifeEvent)) (hm : conn_meets SampleCond σ.tcb evs)
    (hr : conn_run σ.tcb evs = some t') :
    ∃ sampled, RunWhere SamplingStep (fun σ a => SampleCond ⟨a.1, σ.tcb⟩ a.2) Sampling.Fresh
      ⟨t', sampled⟩ := by
  induction evs generalizing σ with
  | nil =>
    obtain rfl := Option.some.inj hr
    exact ⟨σ.sampled, h⟩
  | cons a as ih =>
    obtain ⟨hc, hm⟩ := hm
    unfold conn_run at hr
    split at hr
    · rename_i c' t₁ hstep
      rw [hstep] at hm
      have hnext : SamplingStep σ a ⟨t₁, σ.sampled ∨ samples ⟨a.1, σ.tcb⟩ a.2⟩ :=
        ⟨⟨c', hstep⟩, Iff.rfl⟩
      exact ih (.step h hc hnext) hm hr
    · cases hr

/-- A segment of a peer that uses timestamps. -/
def echoing (ack_seq : UInt32) (echo : UInt32) : Segment :=
  { peer_segment 9001 ack_seq TH_ACK [] nil_short with
    opts := [1, 1, 8, 10, 0, 0, 0, 1] ++ be32 echo }

/-- Its SYN. -/
def echoed_syn : Segment := with_opts [2, 4, 5, 0xb4, 1, 1, 8, 10, 0, 0, 0, 1, 0, 0, 0, 0]

/-- The connection is opened and three bytes are written. -/
def echoing_run : List (Ctx × LifeEvent) :=
  [(quiet_ctx, .segment echoed_syn),
   (quiet_ctx, .accept true 5 0),
   (quiet_ctx, .segment (echoing 5001 990)),
   (quiet_ctx, .write 5 [1, 2, 3])]

def echoed_tcb : UsnTcb := (life_run none echoing_run).toOption.join.get rfl

theorem echoed_tcb_of_syn : ConnOf echoed_syn echoed_tcb := by
  have hnew : created_by echoed_syn
      ((life_run none (echoing_run.take 1)).toOption.join.get rfl) := ⟨quiet_ctx, _, _, rfl⟩
  exact ConnOf.run (.init hnew) (echoing_run.drop 1) rfl

/-- An echo of ten ticks ago is measured and leaves a timeout of 30 ticks. -/
theorem rto_stays_positive_echoed :
    ∃ t, conn_run echoed_tcb [(quiet_ctx, .segment (echoing 5002 990))] = some t ∧
      t.sndvar.rto > 0 := by
  have hnew : Sampling.Fresh
      ⟨(life_run none (echoing_run.take 1)).toOption.join.get rfl, False⟩ :=
    ⟨⟨quiet_ctx, echoed_syn, _, _, rfl⟩, id⟩
  -- what is no segment takes no sample, and the samples of this run fit
  have hno : ∀ (s : Conn) (ev : LifeEvent), (∀ seg, ev ≠ .segment seg) → SampleCond s ev := by
    intro s ev hev seg h
    exact absurd h (hev seg)
  have hfits : ∀ (s : Conn) (seg : Segment), sample_fits s.tcb.rcvvar (sample s seg) →
      SampleCond s (.segment seg) := by
    intro s seg hfit seg' h _
    obtain rfl := LifeEvent.segment.inj h
    exact hfit
  have hmeets : conn_meets SampleCond
      ((life_run none (echoing_run.take 1)).toOption.join.get rfl)
      (echoing_run.drop 1 ++ [(quiet_ctx, .segment (echoing 5002 990))]) := by
    refine ⟨hno _ _ nofun, ?_⟩
    show SampleCond _ _ ∧ _
    refine ⟨hfits _ _ ?_, ?_⟩
    · decide
    show SampleCond _ _ ∧ _
    refine ⟨hno _ _ nofun, ?_⟩
    show SampleCond _ _ ∧ _
    refine ⟨hfits _ _ ?_, trivial⟩
    decide
  obtain ⟨sampled, hrun⟩ := Sampling.run (.init hnew) _ hmeets rfl
  exact ⟨_, rfl, (rto_stays_positive hrun).1⟩

/-- With an echo of 2^31 ticks ago the first measurement is lost, and the timeout
    made of it is 0. -/
theorem rto_overflows :
    ¬ ∀ (seg : Segment) (t : UsnTcb), ConnOf seg t →
      ∀ (c : Ctx) (ev : LifeEvent), life_conn ⟨c, t⟩ ev ≠ .error .rto_assert := by
  intro h
  exact h echoed_syn echoed_tcb echoed_tcb_of_syn quiet_ctx
    (.segment (echoing 5002 0x800003e8)) rfl

end Usnet
