import Usnet.Divisors

/-! # The peer's window

    How far a window field is shifted, and what `usnet_tcp_input` and
    `usnet_process_ack`, each in its own arithmetic, make of it.
-/

namespace Usnet

open CInt Run Wire

/-! ## Section 1: The scale -/

/-- The scale the SYN offers: the last window-scale option the parser takes. -/
def offered_wscale (seg : Segment) : Option UInt8 :=
  (option_values seg (parsed_at seg)).wscale

/-- The scale that is agreed on. -/
def negotiated (offered : Option UInt8) : UInt8 :=
  match offered with
  | none => 0
  | some wscale => min wscale 14

theorem wscale_invariant (wscale : UInt8) : FlowInvariant fun f => f.wscale = wscale := by
  constructor
  · intro f w x h
    exact h
  · intro f h
    exact h
  · intro s h
    obtain ⟨rto, ssthresh, hflow, -⟩ := back_off_flow s
    rw [hflow]
    exact h
  · intro u buf seg ret u' h hack
    rcases usnet_process_ack_window hack with ⟨-, rfl⟩ | ⟨-, hwin⟩
    · exact h
    · rw [hwin.wscale]
      unfold dup_flow window_flow
      split <;> exact h

/-- A connection shifts by what its SYN offers, or by 7. -/
theorem wscale_of_syn {seg : Segment} {t : UsnTcb} (ht : ConnOf seg t) :
    t.sndvar.wscale = (offered_wscale seg).getD TCP_DEFAULT_WSCALE :=
  (wscale_invariant _).conn_of rfl ht

/-- At any time of a connection windows are shifted by the scale agreed on exactly
    where the SYN offers one of 14 at most.  In a well declared SYN the option meant
    is the last one its length bytes lead to. -/
theorem wscale_negotiated {seg : Segment} {t : UsnTcb} (ht : ConnOf seg t) :
    (t.sndvar.wscale = negotiated (offered_wscale seg) ↔
      ∃ wscale, offered_wscale seg = some wscale ∧ wscale ≤ 14) ∧
    (well_declared tcpopts_fields (fun _ => false) seg → offered_wscale seg =
      (option_values seg (declared_at tcpopts_fields (fun _ => false) seg)).wscale) := by
  constructor
  · rw [wscale_of_syn ht]
    cases hoffer : offered_wscale seg with
    | none =>
      constructor
      · intro h
        exact absurd h (by decide)
      · rintro ⟨wscale, h, -⟩
        cases h
    | some wscale =>
      show wscale = (if wscale ≤ 14 then wscale else 14) ↔ _
      by_cases hle : wscale ≤ 14
      · rw [if_pos hle]
        exact ⟨fun _ => ⟨wscale, rfl, hle⟩, fun _ => rfl⟩
      · rw [if_neg hle]
        constructor
        · rintro rfl
          exact absurd (UInt8.le_refl 14) hle
        · rintro ⟨wscale', h, hle'⟩
          obtain rfl := Option.some.inj h
          exact absurd hle' hle
  · intro hwell
    unfold offered_wscale option_values
    rw [show parsed_at seg TCPOPT_WINDOW = _ from parsed_at_eq_declared hwell (n := 1) rfl]

theorem wscale_negotiated_syn :
    ∃ t, ConnOf (with_opts [3, 3, 9]) t ∧ t.sndvar.wscale = 9 := by
  have hnew : created_by (with_opts [3, 3, 9])
      ((life_run none [(quiet_ctx, .segment (with_opts [3, 3, 9]))]).toOption.join.get rfl) :=
    ⟨quiet_ctx, _, _, rfl⟩
  exact ⟨_, .init hnew, (wscale_negotiated (.init hnew)).1.mpr ⟨9, rfl, by decide⟩⟩

/-- The peer of the handshake does not offer a scale, and its windows are shifted by
    7. -/
theorem wscale_not_offered :
    ¬ ∀ (seg : Segment) (t : UsnTcb), ConnOf seg t →
      t.sndvar.wscale = negotiated (offered_wscale seg) := by
  intro h
  have h7 := h _ opened_tcb opened_tcb_of_syn
  exact absurd h7 (by decide)

/-! ## Section 2: The window of a segment -/

/-- What a window field stands for: unsigned, times the power of two agreed on. -/
def advertised (wscale : UInt8) (window : UInt16) : UInt32 :=
  UInt32.ofNat (window.toNat * 2 ^ wscale.toNat)

theorem toNat_advertised (wscale : UInt8) (window : UInt16) :
    (advertised wscale window).toNat = window.toNat * 2 ^ wscale.toNat % 2 ^ 32 :=
  UInt32.toNat_ofNat'

/-- `usnet_tcp_input` takes the field unsigned. -/
theorem shifted_window {wscale : UInt8} (h : wscale ≤ 14) (window : UInt16) :
    window.toUInt32 <<< wscale.toUInt32 = advertised wscale window := by
  have hsmall : wscale.toNat ≤ 14 := h
  apply UInt32.toNat_inj.mp
  rw [UInt32.toNat_shiftLeft, UInt8.toNat_toUInt32, Nat.mod_eq_of_lt (show _ < 32 by omega),
    Nat.shiftLeft_eq, UInt16.toNat_toUInt32, toNat_advertised]

/-- `usnet_process_ack` takes it signed, which makes no difference below 0x8000, nor
    where the sign is shifted out. -/
theorem signed_window (window : UInt16) (shift : UInt32) :
    u32 (s16 window.toNat) <<< shift = window.toUInt32 <<< shift ↔
      window < 0x8000 ∨ 16 ≤ shift.toNat % 32 := by
  have hlt := window.toNat_lt
  by_cases hwin : window < 0x8000
  · have hnat : window.toNat < 2 ^ 15 := hwin
    have hs : u32 (s16 window.toNat) = window.toUInt32 := by
      rw [s16_of_lt (by omega) (by omega)]
      apply UInt32.toNat_inj.mp
      rw [toNat_u32_of_lt (by omega), UInt16.toNat_toUInt32]
    rw [hs]
    exact ⟨fun _ => .inl hwin, fun _ => rfl⟩
  · have hnat : ¬ window.toNat < 2 ^ 15 := hwin
    have hs : (u32 (s16 window.toNat)).toNat = window.toNat + (2 ^ 32 - 2 ^ 16) := by
      rw [toNat_u32]
      unfold s16
      rw [Int.bmod_def]
      omega
    have hpow : (2 ^ 32 - 2 ^ 16) * 2 ^ (shift.toNat % 32) =
        (2 ^ 16 - 1) * 2 ^ (16 + shift.toNat % 32) := by
      rw [Nat.pow_add, ← Nat.mul_assoc]
      rfl
    -- the two differ by 2^16 - 1 times a power of two
    have hmod : u32 (s16 window.toNat) <<< shift = window.toUInt32 <<< shift ↔
        2 ^ 32 ∣ (2 ^ 16 - 1) * 2 ^ (16 + shift.toNat % 32) := by
      rw [← UInt32.toNat_inj, UInt32.toNat_shiftLeft, UInt32.toNat_shiftLeft, hs,
        UInt16.toNat_toUInt32, Nat.shiftLeft_eq, Nat.shiftLeft_eq, Nat.add_mul, hpow]
      constructor
      · intro h
        exact Nat.modEq_zero_iff_dvd.mp (Nat.ModEq.add_left_cancel' _ h)
      · intro h
        rw [Nat.add_mod, Nat.mod_eq_zero_of_dvd h, Nat.add_zero, Nat.mod_mod]
    rw [hmod, Nat.Coprime.dvd_mul_left (by decide), Nat.pow_dvd_pow_iff_le_right (by decide)]
    constructor
    · intro h
      exact .inr (by omega)
    · intro h
      have := h.resolve_left hwin
      omega

/-- The two functions take the window field for the same. -/
def undistorted (tcb : UsnTcb) (seg : Segment) : Prop :=
  seg.window < 0x8000 ∨ 16 ≤ tcb.sndvar.wscale.toNat % 32

theorem cwindow_eq_noted {tcb : UsnTcb} {seg : Segment} (hsyn : seg.has TH_SYN = false) :
    cwindow tcb seg = noted_wnd tcb seg ↔ undistorted tcb seg := by
  have hshift : tcb.sndvar.wscale.toUInt32.toNat = tcb.sndvar.wscale.toNat :=
    UInt8.toNat_toUInt32 _
  unfold cwindow noted_wnd undistorted
  rw [hsyn, ← hshift]
  exact signed_window seg.window _

/-- After an accepted segment `peer_wnd` is one of the two values. -/
theorem input_segment_peer_wnd {s s' : Conn} {seg : Segment}
    (h : input_segment s seg = .ok (0, s')) :
    s'.tcb.sndvar.peer_wnd = noted_wnd s.tcb seg ∨ s'.tcb.sndvar.peer_wnd = cwindow s.tcb seg := by
  obtain ⟨n, hentered, hh⟩ := input_segment_accepted h
  have hpeer : n.tcb.flow.peer_wnd = noted_wnd s.tcb seg := congrArg Flow.peer_wnd hentered.flow
  have hscale : n.tcb.sndvar.wscale = s.tcb.sndvar.wscale := congrArg Flow.wscale hentered.flow
  have hcwin : cwindow n.tcb seg = cwindow s.tcb seg := by
    unfold cwindow
    rw [hscale]
  rcases handle_state_window hh with ⟨-, hwin⟩ | ⟨-, hwin⟩
  · exact .inl (hwin.peer_wnd.trans hpeer)
  · rw [show s'.tcb.sndvar.peer_wnd = _ from hwin.peer_wnd, ← hcwin, ← hpeer]
    unfold dup_flow window_flow
    split
    · exact .inr rfl
    · exact .inl rfl

/-- The two functions agree on the window of a segment, and the peer is not taken to
    have advertised more than it did, exactly if the field is below 0x8000. -/
theorem windows_agree {s s' : Conn} {seg : Segment} (hscale : s.tcb.sndvar.wscale ≤ 14)
    (hok : input_segment s seg = .ok (0, s')) (hsyn : seg.has TH_SYN = false) :
    (cwindow s.tcb seg = noted_wnd s.tcb seg ∧
      noted_wnd s.tcb seg = advertised s.tcb.sndvar.wscale seg.window ∧
      s'.tcb.sndvar.peer_wnd ≤ advertised s.tcb.sndvar.wscale seg.window) ↔
    seg.window < 0x8000 := by
  have hnoted : noted_wnd s.tcb seg = advertised s.tcb.sndvar.wscale seg.window := by
    unfold noted_wnd
    rw [hsyn]
    exact shifted_window hscale seg.window
  have hsmall : s.tcb.sndvar.wscale.toNat ≤ 14 := hscale
  have hcwin : cwindow s.tcb seg = advertised s.tcb.sndvar.wscale seg.window ↔
      seg.window < 0x8000 := by
    rw [← hnoted, cwindow_eq_noted hsyn]
    unfold undistorted
    constructor
    · intro h
      exact h.resolve_right (by omega)
    · intro h
      exact .inl h
  rw [hnoted, ← hcwin]
  constructor
  · intro h
    exact h.1
  · intro h
    refine ⟨h, rfl, ?_⟩
    rcases input_segment_peer_wnd hok with hpeer | hpeer
    · rw [hpeer, hnoted]
      exact UInt32.le_refl _
    · rw [hpeer, h]
      exact UInt32.le_refl _

/-- The peer's acknowledgement of nothing new, with the given window. -/
def window_segment (window : UInt16) : Segment :=
  { peer_segment 9001 5001 TH_ACK [] nil_short with window := window }

theorem windows_agree_opened :
    cwindow opened_tcb (window_segment 512) = noted_wnd opened_tcb (window_segment 512) :=
  ((@windows_agree ⟨quiet_ctx, opened_tcb⟩ _ (window_segment 512) (by decide) rfl rfl).mpr
    (by decide)).1

/-- A window of 0x8000 is sign-extended, and `peer_wnd` ends up near 2^32. -/
theorem window_sign_extended :
    ¬ ∀ (s s' : Conn) (seg : Segment), s.tcb.sndvar.wscale ≤ 14 →
      input_segment s seg = .ok (0, s') → seg.has TH_SYN = false → seg.has TH_ACK = true →
      cwindow s.tcb seg = noted_wnd s.tcb seg ∧
      s'.tcb.sndvar.peer_wnd ≤ advertised s.tcb.sndvar.wscale seg.window := by
  intro h
  have hwin := (h ⟨quiet_ctx, opened_tcb⟩ _ (window_segment 0x8000) (by decide) rfl rfl rfl).2
  exact absurd hwin (by decide)

end Usnet
