import Usnet.PeerWindow
import Usnet.Receive

/-! # Window updates out of order

    `usnet_tcp_input` writes `peer_wnd` for every segment it accepts, and
    `usnet_process_ack` once more for those its update rule takes for newer than
    `snd_wl1` and `snd_wl2`.  A ghost remembers the newest segment of a run, to
    compare `peer_wnd` with.
-/

namespace Usnet

open CInt Run

/-! ## Section 1: Newer and older -/

/-- The segment lies behind a place given by a sequence number and an
    acknowledgement. -/
def segment_newer (seq ack_seq : UInt32) (seg : Segment) : Prop :=
  TCP_SEQ_LT seq seg.seq ∨ (seq = seg.seq ∧ TCP_SEQ_LT ack_seq seg.ack_seq)

/-- It lies in front of it. -/
def segment_older (seq ack_seq : UInt32) (seg : Segment) : Prop :=
  TCP_SEQ_LT seg.seq seq ∨ (seg.seq = seq ∧ TCP_SEQ_LT seg.ack_seq ack_seq)

instance (seq ack_seq : UInt32) (seg : Segment) : Decidable (segment_newer seq ack_seq seg) :=
  inferInstanceAs (Decidable (_ ∨ _))

instance (seq ack_seq : UInt32) (seg : Segment) : Decidable (segment_older seq ack_seq seg) :=
  inferInstanceAs (Decidable (_ ∨ _))

/-- Only the place itself is neither. -/
theorem segment_at {seq ack_seq : UInt32} {seg : Segment} (hn : ¬ segment_newer seq ack_seq seg)
    (ho : ¬ segment_older seq ack_seq seg) : seg.seq = seq ∧ seg.ack_seq = ack_seq := by
  obtain ⟨hlt, heq⟩ := not_or.mp hn
  obtain ⟨hgt, heq'⟩ := not_or.mp ho
  have hseq : seg.seq = seq := eq_of_not_behind hlt hgt
  refine ⟨hseq, eq_of_not_behind ?_ ?_⟩
  · intro h
    exact heq ⟨hseq.symm, h⟩
  · intro h
    exact heq' ⟨hseq, h⟩

/-! ## Section 2: One segment -/

/-- The segment is accepted by a connection in ESTABLISHED and acknowledges
    something without being a SYN. -/
def accepts (c : Ctx) (t : UsnTcb) (seg : Segment) (t' : UsnTcb) : Prop :=
  t.state = .established ∧ seg.has TH_SYN = false ∧ seg.has TH_ACK = true ∧
  ∃ c', input_segment ⟨c, t⟩ seg = .ok (0, ⟨c', t'⟩)

/-- The last update of the window, as the connection remembers it, lies before the
    segment. -/
abbrev newer_than_update (t : UsnTcb) (seg : Segment) : Prop :=
  segment_newer t.rcvvar.snd_wl1 t.rcvvar.snd_wl2 seg

/-- Or behind it. -/
abbrev older_than_update (t : UsnTcb) (seg : Segment) : Prop :=
  segment_older t.rcvvar.snd_wl1 t.rcvvar.snd_wl2 seg

/-- The segment is taken as its place in the order asks for.  A newer one reaches
    the update rule with a window both functions take for the same; an older one
    announces the window that is stored already; one that acknowledges what the last
    update did is not taken for a larger window than it announces. -/
structure InOrder (t : UsnTcb) (seg : Segment) : Prop where
  newer : newer_than_update t seg → acts_on t seg ∧ undistorted t seg
  older : older_than_update t seg → noted_wnd t seg = t.sndvar.peer_wnd
  same : acts_on t seg → seg.ack_seq = t.rcvvar.snd_wl2 → undistorted t seg

section
variable {c : Ctx} {t t' : UsnTcb} {seg : Segment} (hfin : t.sndvar.is_fin_sent = false)
  (h : InOrder t seg) (hacc : accepts c t seg t')
include hfin h hacc

/-- Then `peer_wnd` is the window it announces, and it is recorded if and only if it
    is newer. -/
theorem InOrder.taken :
    t'.sndvar.peer_wnd = noted_wnd t seg ∧
    (newer_than_update t seg → t'.rcvvar.snd_wl1 = seg.seq ∧ t'.rcvvar.snd_wl2 = seg.ack_seq) ∧
    (¬ newer_than_update t seg → t'.rcvvar.snd_wl1 = t.rcvvar.snd_wl1 ∧
      t'.rcvvar.snd_wl2 = t.rcvvar.snd_wl2) := by
  obtain ⟨hst, hsyn, -, c', hok⟩ := hacc
  -- not processed, the segment leaves no more than the window `usnet_tcp_input` stored
  rcases input_segment_window (.inl hst) hfin hok with ⟨hno, hwin⟩ | ⟨hacts, hwin⟩
  · exact ⟨hwin.peer_wnd, fun hnew => absurd (h.newer hnew).1 hno,
      fun _ => ⟨hwin.snd_wl1, hwin.snd_wl2⟩⟩
  · -- the rule meets the window just stored by `usnet_tcp_input`
    have hcwin : cwindow (arrived t seg) seg = cwindow t seg := rfl
    -- so its third clause, a larger window, never holds, and the rule is the order
    have hrule : updates_window (arrived t seg) seg seg.ack_seq ↔ newer_than_update t seg := by
      constructor
      · rintro (hlt | heq | ⟨hsame, hmore⟩)
        · exact .inl hlt
        · exact .inr heq
        · rw [hcwin, (cwindow_eq_noted hsyn).mpr (h.same hacts hsame.symm)] at hmore
          exact absurd hmore (UInt32.lt_irrefl _)
      · rintro (hlt | heq)
        · exact .inl hlt
        · exact .inr (.inl heq)
    by_cases hnew : newer_than_update t seg
    · have hflow : window_flow (arrived t seg) seg seg.ack_seq = { (arrived t seg).flow with
          peer_wnd := cwindow t seg, snd_wl1 := seg.seq, snd_wl2 := seg.ack_seq } :=
        if_pos (hrule.mpr hnew)
      refine ⟨?_, fun _ => ⟨?_, ?_⟩, fun hno => absurd hnew hno⟩
      · rw [← (cwindow_eq_noted hsyn).mpr (h.newer hnew).2]
        exact hwin.peer_wnd.trans (congrArg Flow.peer_wnd hflow)
      · exact hwin.snd_wl1.trans (congrArg Flow.snd_wl1 hflow)
      · exact hwin.snd_wl2.trans (congrArg Flow.snd_wl2 hflow)
    · have hflow : window_flow (arrived t seg) seg seg.ack_seq = (arrived t seg).flow :=
        if_neg fun hup => hnew (hrule.mp hup)
      refine ⟨?_, fun hyes => absurd hyes hnew, fun _ => ⟨?_, ?_⟩⟩
      · exact hwin.peer_wnd.trans (congrArg Flow.peer_wnd hflow)
      · exact hwin.snd_wl1.trans (congrArg Flow.snd_wl1 hflow)
      · exact hwin.snd_wl2.trans (congrArg Flow.snd_wl2 hflow)

end

/-! ## Section 3: Runs -/

/-- What a segment announces. -/
structure Announced where
  seq : UInt32
  ack_seq : UInt32
  wnd : UInt32

/-- A connection and the newest segment of its run. -/
structure Windowed where
  tcb : UsnTcb
  newest : Option Announced

/-- The newest with one more segment; of two at the same place it is the later. -/
def latest (newest : Option Announced) (seg : Segment) (wnd : UInt32) : Announced :=
  match newest with
  | none => ⟨seg.seq, seg.ack_seq, wnd⟩
  | some a =>
    if segment_older a.seq a.ack_seq seg ∧ ¬ segment_newer a.seq a.ack_seq seg then a
    else ⟨seg.seq, seg.ack_seq, wnd⟩

/-- An established connection before its first window update. -/
def Windowed.Start (σ : Windowed) : Prop :=
  LifeReachable (some σ.tcb) ∧ σ.tcb.state = .established ∧
  σ.tcb.rcvvar.snd_wl1 = 0 - 1 ∧ σ.tcb.rcvvar.snd_wl2 = 0 ∧ σ.newest = none

/-- Segments arrive in any order, and between them anything happens that is not a
    segment or is refused. -/
inductive WindowStep : Windowed → Ctx × LifeEvent → Windowed → Prop
  | accepted {σ : Windowed} {c : Ctx} {seg : Segment} {t' : UsnTcb} :
      ConnStep σ.tcb (c, .segment seg) t' → accepts c σ.tcb seg t' →
      WindowStep σ (c, .segment seg)
        ⟨t', some (latest σ.newest seg (noted_wnd σ.tcb seg))⟩
  | refused {σ : Windowed} {c c' : Ctx} {seg : Segment} {t' : UsnTcb} :
      ConnStep σ.tcb (c, .segment seg) t' →
      input_segment ⟨c, σ.tcb⟩ seg = .ok (-3, ⟨c', t'⟩) →
      WindowStep σ (c, .segment seg) ⟨t', σ.newest⟩
  | other {σ : Windowed} {c : Ctx} {ev : LifeEvent} {t' : UsnTcb} :
      (∀ seg, ev ≠ .segment seg) → ConnStep σ.tcb (c, ev) t' →
      WindowStep σ (c, ev) ⟨t', σ.newest⟩

/-- Every segment accepted is taken in order, the first one as newer than anything
    before. -/
def WindowCond (σ : Windowed) (a : Ctx × LifeEvent) : Prop :=
  ∀ seg t', a.2 = .segment seg → accepts a.1 σ.tcb seg t' →
    InOrder σ.tcb seg ∧ (σ.newest = none → newer_than_update σ.tcb seg)

/-- The connection remembers the newest segment, and its window is the one in
    force. -/
def Windowed.Current (σ : Windowed) : Prop :=
  ∀ a, σ.newest = some a → σ.tcb.rcvvar.snd_wl1 = a.seq ∧ σ.tcb.rcvvar.snd_wl2 = a.ack_seq ∧
    σ.tcb.sndvar.peer_wnd = a.wnd

theorem Windowed.Current.kept {σ : Windowed} {t' : UsnTcb} (h : σ.Current)
    (hsame : SameWindow t'.flow σ.tcb.flow) : Windowed.Current ⟨t', σ.newest⟩ := by
  intro a ha
  obtain ⟨h₁, h₂, h₃⟩ := h a ha
  exact ⟨hsame.snd_wl1.trans h₁, hsame.snd_wl2.trans h₂, hsame.peer_wnd.trans h₃⟩

/-- One more segment. -/
theorem Windowed.Current.accepted {σ : Windowed} {c : Ctx} {seg : Segment} {t' : UsnTcb}
    (h : σ.Current) (hfin : σ.tcb.sndvar.is_fin_sent = false) (hord : InOrder σ.tcb seg)
    (hfirst : σ.newest = none → newer_than_update σ.tcb seg) (hacc : accepts c σ.tcb seg t') :
    Windowed.Current ⟨t', some (latest σ.newest seg (noted_wnd σ.tcb seg))⟩ := by
  obtain ⟨hpeer, hnew, hold⟩ := hord.taken hfin hacc
  intro a ha
  obtain rfl := Option.some.inj ha
  by_cases hn : newer_than_update σ.tcb seg
  · -- a newer segment becomes the newest
    have hlatest : latest σ.newest seg (noted_wnd σ.tcb seg) =
        ⟨seg.seq, seg.ack_seq, noted_wnd σ.tcb seg⟩ := by
      unfold latest
      cases hnewest : σ.newest with
      | none => rfl
      | some b =>
        obtain ⟨h₁, h₂, -⟩ := h b hnewest
        simp only
        rw [if_neg]
        rw [← h₁, ← h₂]
        exact fun hno => hno.2 hn
    rw [hlatest]
    exact ⟨(hnew hn).1, (hnew hn).2, hpeer⟩
  -- the record stays; what remains is whether `newest` does
  · obtain ⟨hwl1, hwl2⟩ := hold hn
    cases hnewest : σ.newest with
    | none => exact absurd (hfirst hnewest) hn
    | some b =>
      obtain ⟨h₁, h₂, h₃⟩ := h b hnewest
      unfold latest
      simp only
      rw [← h₁, ← h₂]
      by_cases ho : older_than_update σ.tcb seg
      · rw [if_pos ⟨ho, hn⟩]
        exact ⟨hwl1.trans h₁, hwl2.trans h₂, (hpeer.trans (hord.older ho)).trans h₃⟩
      · -- it stands where the newest one stands
        obtain ⟨hseq, hack⟩ := segment_at hn ho
        rw [if_neg fun hno => ho hno.1]
        exact ⟨hwl1.trans hseq.symm, hwl2.trans hack.symm, hpeer⟩

/-- In a run whose segments all are taken in order, older ones leave `peer_wnd`,
    newer ones are recorded, and `peer_wnd` is the window of the newest. -/
theorem windows_in_order {σ : Windowed} (h : RunWhere WindowStep WindowCond Windowed.Start σ) :
    σ.Current ∧
    ∀ (c : Ctx) (seg : Segment) (t' : UsnTcb), accepts c σ.tcb seg t' →
      WindowCond σ (c, .segment seg) →
      (older_than_update σ.tcb seg → t'.sndvar.peer_wnd = σ.tcb.sndvar.peer_wnd) ∧
      (newer_than_update σ.tcb seg →
        t'.rcvvar.snd_wl1 = seg.seq ∧ t'.rcvvar.snd_wl2 = seg.ack_seq) := by
  -- over the run: the connection was reached (for `is_fin_sent`) and is current
  have hinv : LifeReachable (some σ.tcb) ∧ σ.Current := by
    apply RunWhere.invariant (I := fun σ => LifeReachable (some σ.tcb) ∧ σ.Current) _ _ h
    · rintro σ ⟨hreach, -, -, -, hnone⟩
      refine ⟨hreach, fun a ha => ?_⟩
      rw [hnone] at ha
      cases ha
    · rintro σ a σ' ⟨hreach, hcur⟩ hc hstep
      cases hstep with
      | @accepted c seg t' hconn hacc =>
        obtain ⟨hord, hfirst⟩ := hc seg t' rfl hacc
        have hfin := (rcvInv_of_life hreach).life.no_fin
        exact ⟨hconn.reachable hreach, hcur.accepted hfin hord hfirst hacc⟩
      | refused hconn hok =>
        exact ⟨hconn.reachable hreach, hcur.kept (refused_window hok)⟩
      | other hev hconn => exact ⟨hconn.reachable hreach, hcur.kept (hconn.other_window hev)⟩
  refine ⟨hinv.2, ?_⟩
  intro c seg t' hacc hc
  obtain ⟨hord, -⟩ := hc seg t' rfl hacc
  obtain ⟨hpeer, hnew, -⟩ := hord.taken (rcvInv_of_life hinv.1).life.no_fin hacc
  exact ⟨fun ho => hpeer.trans (hord.older ho), hnew⟩

theorem opened_tcb_start : Windowed.Start ⟨opened_tcb, none⟩ :=
  ⟨opened_tcb_reachable, rfl, rfl, rfl, rfl⟩

theorem windows_in_order_opened :
    ∃ t', accepts quiet_ctx opened_tcb (window_segment 512) t' ∧
      t'.rcvvar.snd_wl1 = 9001 ∧ t'.rcvvar.snd_wl2 = 5001 := by
  have hord : InOrder opened_tcb (window_segment 512) := by
    refine ⟨fun _ => ⟨⟨.inl ⟨rfl, ?_, rfl, rfl⟩, _, rfl, by decide⟩, .inl (by decide)⟩,
      fun ho => absurd ho (by decide), fun _ _ => .inl (by decide)⟩
    intro h
    exact absurd h.1 (by decide)
  have hcond : WindowCond ⟨opened_tcb, none⟩ (quiet_ctx, .segment (window_segment 512)) := by
    intro seg t' hseg _
    obtain rfl := LifeEvent.segment.inj hseg
    exact ⟨hord, fun _ => .inl (by decide)⟩
  have hacc : accepts quiet_ctx opened_tcb (window_segment 512)
      ((conn_run opened_tcb [(quiet_ctx, .segment (window_segment 512))]).get rfl) :=
    ⟨rfl, rfl, rfl, _, rfl⟩
  exact ⟨_, hacc, ((windows_in_order (.init opened_tcb_start)).2 quiet_ctx _ _ hacc hcond).2
    (.inl (by decide))⟩

/-- A segment that overtakes one of ten bytes. -/
def overtaking_segment : Segment := peer_segment 9011 5001 TH_ACK [7] (by decide)

/-- The one overtaken announces a smaller window, and that is taken over. -/
theorem window_overridden :
    ¬ ∀ σ : Windowed, Reachable WindowStep Windowed.Start σ →
      σ.Current ∧
      ∀ (c : Ctx) (seg : Segment) (t' : UsnTcb), accepts c σ.tcb seg t' →
        (older_than_update σ.tcb seg → t'.sndvar.peer_wnd = σ.tcb.sndvar.peer_wnd) ∧
        (newer_than_update σ.tcb seg →
          t'.rcvvar.snd_wl1 = seg.seq ∧ t'.rcvvar.snd_wl2 = seg.ack_seq) := by
  intro h
  have hconn : ConnStep opened_tcb (quiet_ctx, .segment overtaking_segment)
      ((conn_run opened_tcb [(quiet_ctx, .segment overtaking_segment)]).get rfl) := ⟨_, rfl⟩
  have hrun : Reachable WindowStep Windowed.Start _ :=
    .step (.init opened_tcb_start) trivial (.accepted hconn ⟨rfl, rfl, rfl, _, rfl⟩)
  -- its seq 9001 lies before the 9011 recorded in `snd_wl1`
  have hold := ((h _ hrun).2 quiet_ctx (window_segment 512) _ ⟨rfl, rfl, rfl, _, rfl⟩).1
    (.inl (by decide))
  exact absurd hold (by decide)

end Usnet
