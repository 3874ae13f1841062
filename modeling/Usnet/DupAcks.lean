import Usnet.WindowOrder

/-! # Duplicate acknowledgements

    `usnet_process_ack` lists five conditions for a duplicate.  The code compares
    with `last_ack_seq`, and compares the right edges of the window before and after
    an update of which `usnet_tcp_input` has done one half already.
-/

namespace Usnet

open CInt Run

/-! ## Section 1: Duplicates as they are documented, and as they are counted -/

/-- A duplicate acknowledgement, the segment before it having announced the window
    `prev`. -/
def genuine (t : UsnTcb) (prev : UInt32) (seg : Segment) : Prop :=
  seg.has TH_ACK = true ∧ seg.payload.length = 0 ∧ seg.ack_seq = t.sndvar.snd_una ∧
  TCP_SEQ_LT t.sndvar.snd_una t.snd_nxt ∧ noted_wnd t seg = prev

instance (t : UsnTcb) (prev : UInt32) (seg : Segment) : Decidable (genuine t prev seg) :=
  inferInstanceAs (Decidable (_ ∧ _))

/-- A segment without payload repeats the acknowledgement seen last, below
    `snd_nxt`. -/
def repeats (t : UsnTcb) (seg : Segment) : Prop :=
  acts_on t seg ∧ seg.payload.length = 0 ∧ seg.ack_seq = t.rcvvar.last_ack_seq ∧
  TCP_SEQ_LT seg.ack_seq t.snd_nxt

/-- The right edge of the window is where it was: there is no update, or it leads
    to the same place. -/
def edge_kept (t : UsnTcb) (seg : Segment) : Prop :=
  updates_window (arrived t seg) seg seg.ack_seq →
    seg.ack_seq + cwindow t seg = noted_wnd t seg + t.rcvvar.snd_wl2

theorem counts_dup_iff {t : UsnTcb} {seg : Segment} :
    acts_on t seg ∧ counts_dup (arrived t seg) seg seg.ack_seq ↔
      repeats t seg ∧ edge_kept t seg := by
  have hedge : (window_flow (arrived t seg) seg seg.ack_seq).snd_wl2 +
      (window_flow (arrived t seg) seg seg.ack_seq).peer_wnd =
        (arrived t seg).sndvar.peer_wnd + (arrived t seg).rcvvar.snd_wl2 ↔
      edge_kept t seg := by
    unfold edge_kept window_flow
    -- `peer_wnd` is the segment's own window already, so without an update the two
    -- edges are the same sum
    by_cases hup : updates_window (arrived t seg) seg seg.ack_seq
    · rw [if_pos hup]
      exact ⟨fun h _ => h, fun h => h hup⟩
    · rw [if_neg hup]
      exact ⟨fun _ h => absurd h hup, fun _ => UInt32.add_comm _ _⟩
  unfold counts_dup
  rw [hedge]
  constructor
  · rintro ⟨hacts, hlt, hlast, hlen, hkept⟩
    exact ⟨⟨hacts, hlen, hlast, hlt⟩, hkept⟩
  · rintro ⟨⟨hacts, hlen, hlast, hlt⟩, hkept⟩
    exact ⟨hacts, hlt, hlast, hlen, hkept⟩

/-- What an accepted segment does to the count. -/
theorem dup_acks_after {c c' : Ctx} {t t' : UsnTcb} {seg : Segment}
    (hst : t.state = .established) (hfin : t.sndvar.is_fin_sent = false)
    (h : input_segment ⟨c, t⟩ seg = .ok (0, ⟨c', t'⟩)) :
    (repeats t seg ∧ edge_kept t seg ∧ t'.rcvvar.dup_acks = t.rcvvar.dup_acks + 1) ∨
    (¬ (repeats t seg ∧ edge_kept t seg) ∧ acts_on t seg ∧ t'.rcvvar.dup_acks = 0) ∨
    (¬ (repeats t seg ∧ edge_kept t seg) ∧ ¬ acts_on t seg ∧
      t'.rcvvar.dup_acks = t.rcvvar.dup_acks) := by
  rcases input_segment_window (.inl hst) hfin h with ⟨hno, hwin⟩ | ⟨hacts, hwin⟩
  · refine .inr (.inr ⟨?_, hno, hwin.dup_acks⟩)
    intro hc
    exact hno hc.1.1
  -- the acknowledgement is processed: the count goes up by one or starts again
  · have hdup : t'.rcvvar.dup_acks =
        if counts_dup (arrived t seg) seg seg.ack_seq then t.rcvvar.dup_acks + 1 else 0 :=
      hwin.dup_acks
    by_cases hc : counts_dup (arrived t seg) seg seg.ack_seq
    · obtain ⟨hrep, hkept⟩ := counts_dup_iff.mp ⟨hacts, hc⟩
      rw [if_pos hc] at hdup
      exact .inl ⟨hrep, hkept, hdup⟩
    · rw [if_neg hc] at hdup
      refine .inr (.inl ⟨?_, hacts, hdup⟩)
      intro hcounted
      exact hc (counts_dup_iff.mpr hcounted).2

/-! ## Section 2: Runs -/

/-- A connection with the window announced last, how many genuine duplicates came
    last, and how often `dup_acks` reached 3 among them. -/
structure Duplicates where
  tcb : UsnTcb
  prev : UInt32
  streak : Nat
  entries : Nat

/-- `dup_acks` reaches 3. -/
def enters (t t' : UsnTcb) : Prop :=
  t.rcvvar.dup_acks ≠ 3 ∧ t'.rcvvar.dup_acks = 3

instance (t t' : UsnTcb) : Decidable (enters t t') := inferInstanceAs (Decidable (_ ∧ _))

/-- What is remembered after an accepted segment. -/
def Duplicates.after (σ : Duplicates) (seg : Segment) (t' : UsnTcb) : Duplicates where
  tcb := t'
  prev := noted_wnd σ.tcb seg
  streak := if genuine σ.tcb σ.prev seg then σ.streak + 1 else 0
  entries :=
    if genuine σ.tcb σ.prev seg then σ.entries + (if enters σ.tcb t' then 1 else 0) else 0

/-- The segment is accepted in ESTABLISHED, with whatever flags. -/
def accepted_in_established (c : Ctx) (t : UsnTcb) (seg : Segment) (t' : UsnTcb) : Prop :=
  t.state = .established ∧ ∃ c', input_segment ⟨c, t⟩ seg = .ok (0, ⟨c', t'⟩)

/-- An established connection without duplicates so far. -/
def Duplicates.Start (σ : Duplicates) : Prop :=
  LifeReachable (some σ.tcb) ∧ σ.tcb.state = .established ∧ σ.tcb.rcvvar.dup_acks = 0 ∧
  σ.streak = 0 ∧ σ.entries = 0

/-- Segments are accepted, and between them anything happens that is not a segment
    or is refused. -/
inductive DupStep : Duplicates → Ctx × LifeEvent → Duplicates → Prop
  | accepted {σ : Duplicates} {c : Ctx} {seg : Segment} {t' : UsnTcb} :
      ConnStep σ.tcb (c, .segment seg) t' → accepted_in_established c σ.tcb seg t' →
      DupStep σ (c, .segment seg) (σ.after seg t')
  | refused {σ : Duplicates} {c c' : Ctx} {seg : Segment} {t' : UsnTcb} :
      ConnStep σ.tcb (c, .segment seg) t' →
      input_segment ⟨c, σ.tcb⟩ seg = .ok (-3, ⟨c', t'⟩) →
      DupStep σ (c, .segment seg) { σ with tcb := t' }
  | other {σ : Duplicates} {c : Ctx} {ev : LifeEvent} {t' : UsnTcb} :
      (∀ seg, ev ≠ .segment seg) → ConnStep σ.tcb (c, ev) t' →
      DupStep σ (c, ev) { σ with tcb := t' }

/-- The segment is taken for what it is.  One that repeats the acknowledgement seen
    last, and moves no edge, is an ACK for `snd_una` and announces the window
    announced before; a genuine duplicate repeats it and moves no edge, and does not
    come so late that the 16 bits of `dup_acks` reach 3 once more; what is not a
    duplicate has its acknowledgement looked at, or finds no duplicates counted. -/
structure Told (σ : Duplicates) (seg : Segment) : Prop where
  counted : repeats σ.tcb seg → edge_kept σ.tcb seg →
    seg.has TH_ACK = true ∧ seg.ack_seq = σ.tcb.sndvar.snd_una ∧ noted_wnd σ.tcb seg = σ.prev
  duplicate : genuine σ.tcb σ.prev seg →
    repeats σ.tcb seg ∧ edge_kept σ.tcb seg ∧ σ.streak + 1 < 2 ^ 16 + 3
  other : ¬ genuine σ.tcb σ.prev seg → acts_on σ.tcb seg ∨ σ.tcb.rcvvar.dup_acks = 0

theorem Told.genuine_of_counted {σ : Duplicates} {seg : Segment} (h : Told σ seg)
    (hrep : repeats σ.tcb seg) (hkept : edge_kept σ.tcb seg) : genuine σ.tcb σ.prev seg := by
  obtain ⟨hack, huna, hwnd⟩ := h.counted hrep hkept
  obtain ⟨-, hlen, -, hlt⟩ := hrep
  exact ⟨hack, hlen, huna, huna ▸ hlt, hwnd⟩

/-- Every segment accepted is taken for what it is. -/
def DupCond (σ : Duplicates) (a : Ctx × LifeEvent) : Prop :=
  ∀ seg t', a.2 = .segment seg → accepted_in_established a.1 σ.tcb seg t' → Told σ seg

/-- `dup_acks` is the number of genuine duplicates that came last, and it reached 3
    once if there were that many. -/
structure Duplicates.Counted (σ : Duplicates) : Prop where
  count : σ.tcb.rcvvar.dup_acks = UInt16.ofNat σ.streak
  short : σ.streak < 2 ^ 16 + 3
  entered : σ.entries = if 3 ≤ σ.streak then 1 else 0

theorem Duplicates.Counted.kept {σ : Duplicates} {t' : UsnTcb} (h : σ.Counted)
    (hsame : SameWindow t'.flow σ.tcb.flow) : Duplicates.Counted { σ with tcb := t' } :=
  ⟨hsame.dup_acks.trans h.count, h.short, h.entered⟩

/-- Counting on from a streak that has not wrapped around reaches 3 once. -/
theorem reaches_three {n : Nat} (h : n + 1 < 2 ^ 16 + 3) :
    (UInt16.ofNat n ≠ 3 ∧ UInt16.ofNat n + 1 = 3) ↔ n = 2 := by
  have hnat : ∀ m : Nat, UInt16.ofNat m = 3 ↔ m % 2 ^ 16 = 3 := by
    intro m
    rw [← UInt16.toNat_inj, UInt16.toNat_ofNat']
    rfl
  have hsucc : UInt16.ofNat n + 1 = UInt16.ofNat (n + 1) := (UInt16.ofNat_add n 1).symm
  rw [hsucc, ne_eq, hnat, hnat]
  omega

/-- One more segment. -/
theorem Duplicates.Counted.accepted {σ : Duplicates} {c : Ctx} {seg : Segment} {t' : UsnTcb}
    (h : σ.Counted) (hfin : σ.tcb.sndvar.is_fin_sent = false) (htold : Told σ seg)
    (hacc : accepted_in_established c σ.tcb seg t') : (σ.after seg t').Counted := by
  obtain ⟨hst, c', hok⟩ := hacc
  have hafter := dup_acks_after hst hfin hok
  -- `Told` makes the code's test and the documented one agree on this segment
  by_cases hgen : genuine σ.tcb σ.prev seg
  · obtain ⟨hrep, hkept, hshort⟩ := htold.duplicate hgen
    have hcount : t'.rcvvar.dup_acks = UInt16.ofNat σ.streak + 1 := by
      rcases hafter with ⟨-, -, hd⟩ | ⟨hno, -⟩ | ⟨hno, -⟩
      · rw [hd, h.count]
      · exact absurd ⟨hrep, hkept⟩ hno
      · exact absurd ⟨hrep, hkept⟩ hno
    -- 16 bits show a 3 for the third duplicate and for no other of a short streak
    have henters : enters σ.tcb t' ↔ σ.streak = 2 := by
      unfold enters
      rw [hcount, h.count]
      exact reaches_three hshort
    constructor
    · show t'.rcvvar.dup_acks = UInt16.ofNat (if genuine σ.tcb σ.prev seg then σ.streak + 1 else 0)
      rw [if_pos hgen, hcount]
      exact (UInt16.ofNat_add σ.streak 1).symm
    · show (if genuine σ.tcb σ.prev seg then σ.streak + 1 else 0) < 2 ^ 16 + 3
      rw [if_pos hgen]
      exact hshort
    · show (if genuine σ.tcb σ.prev seg then _ else 0) =
        if 3 ≤ (if genuine σ.tcb σ.prev seg then σ.streak + 1 else 0) then 1 else 0
      rw [if_pos hgen, if_pos hgen, h.entered]
      simp only [henters]
      split <;> split <;> split <;> omega
  · -- the streak is over, and so is the count
    have hcount : t'.rcvvar.dup_acks = 0 := by
      rcases hafter with ⟨hrep, hkept, -⟩ | ⟨-, -, hd⟩ | ⟨-, hno, hd⟩
      · exact absurd (htold.genuine_of_counted hrep hkept) hgen
      · exact hd
      · rw [hd]
        exact (htold.other hgen).resolve_left hno
    constructor
    · show t'.rcvvar.dup_acks = UInt16.ofNat (if genuine σ.tcb σ.prev seg then σ.streak + 1 else 0)
      rw [if_neg hgen, hcount]
      rfl
    · show (if genuine σ.tcb σ.prev seg then σ.streak + 1 else 0) < 2 ^ 16 + 3
      rw [if_neg hgen]
      decide
    · show (if genuine σ.tcb σ.prev seg then _ else 0) =
        if 3 ≤ (if genuine σ.tcb σ.prev seg then σ.streak + 1 else 0) then 1 else 0
      rw [if_neg hgen, if_neg hgen]
      rfl

/-- In a run whose segments all are told apart, fast retransmit is entered once for
    a streak of genuine duplicates that is long enough, and nothing else raises
    `dup_acks`. -/
theorem duplicates_counted {σ : Duplicates} (h : RunWhere DupStep DupCond Duplicates.Start σ) :
    (σ.entries = if 3 ≤ σ.streak then 1 else 0) ∧
    ∀ (c : Ctx) (seg : Segment) (t' : UsnTcb), accepted_in_established c σ.tcb seg t' →
      DupCond σ (c, .segment seg) → σ.tcb.rcvvar.dup_acks < t'.rcvvar.dup_acks →
      genuine σ.tcb σ.prev seg := by
  -- that the connection was reached is carried along for `is_fin_sent`
  have hinv : LifeReachable (some σ.tcb) ∧ σ.Counted := by
    apply RunWhere.invariant (I := fun σ => LifeReachable (some σ.tcb) ∧ σ.Counted) _ _ h
    · rintro σ ⟨hreach, -, hzero, hstreak, hentries⟩
      refine ⟨hreach, ?_, ?_, ?_⟩
      · rw [hzero, hstreak]
        rfl
      · rw [hstreak]
        decide
      · rw [hentries, hstreak]
        rfl
    · rintro σ a σ' ⟨hreach, hcount⟩ hc hstep
      cases hstep with
      | @accepted c seg t' hconn hacc =>
        have hfin := (rcvInv_of_life hreach).life.no_fin
        have htold := hc seg t' rfl hacc
        exact ⟨hconn.reachable hreach, hcount.accepted hfin htold hacc⟩
      | refused hconn hok =>
        exact ⟨hconn.reachable hreach, hcount.kept (refused_window hok)⟩
      | other hev hconn => exact ⟨hconn.reachable hreach, hcount.kept (hconn.other_window hev)⟩
  refine ⟨hinv.2.entered, ?_⟩
  intro c seg t' hacc hc hmore
  have htold := hc seg t' rfl hacc
  obtain ⟨hst, c', hok⟩ := hacc
  -- only the first of the three ways raises the count
  rcases dup_acks_after hst (rcvInv_of_life hinv.1).life.no_fin hok with
    ⟨hrep, hkept, -⟩ | ⟨-, -, hd⟩ | ⟨-, -, hd⟩
  · exact htold.genuine_of_counted hrep hkept
  · rw [hd] at hmore
    exact absurd hmore (Nat.not_lt_zero _)
  · rw [hd] at hmore
    exact absurd hmore (UInt16.lt_irrefl _)

/-! ## Section 3: Three bytes in flight -/

/-- Events that are no segments, on a connection that survives them. -/
theorem run_others {σ : Duplicates} {t' : UsnTcb}
    (h : RunWhere DupStep DupCond Duplicates.Start σ) (evs : List (Ctx × LifeEvent))
    (hev : ∀ a ∈ evs, ∀ seg, a.2 ≠ .segment seg) (hr : conn_run σ.tcb evs = some t') :
    RunWhere DupStep DupCond Duplicates.Start { σ with tcb := t' } := by
  induction evs generalizing σ with
  | nil =>
    obtain rfl := Option.some.inj hr
    exact h
  | cons a as ih =>
    unfold conn_run at hr
    split at hr
    · rename_i c' t₁ hstep
      have hno := hev a List.mem_cons_self
      have hnext : RunWhere DupStep DupCond Duplicates.Start { σ with tcb := t₁ } := by
        apply h.step _ (.other hno ⟨c', hstep⟩)
        intro seg t' hseg
        exact absurd hseg (hno seg)
      have hrest := ih hnext (fun b hb => hev b (List.mem_cons_of_mem _ hb)) hr
      exact hrest
    · cases hr

/-- Three bytes are written and sent. -/
def three_bytes : List (Ctx × LifeEvent) :=
  [(quiet_ctx, .write 5 [1, 2, 3]), (quiet_ctx, .wrote true 5), (quiet_ctx, .data)]

/-- The connection after one more acknowledgement of the handshake. -/
def greeted_tcb : UsnTcb :=
  (conn_run opened_tcb [(quiet_ctx, .segment (window_segment 1024))]).get rfl

/-- With the three bytes in flight. -/
def flight_tcb : UsnTcb := (conn_run greeted_tcb three_bytes).get rfl

/-- Nothing is a duplicate until then. -/
theorem flight_run :
    RunWhere DupStep DupCond Duplicates.Start ⟨flight_tcb, 0x20000, 0, 0⟩ := by
  have hstart : Duplicates.Start ⟨opened_tcb, 0x20000, 0, 0⟩ :=
    ⟨opened_tcb_reachable, rfl, rfl, rfl, rfl⟩
  have htold : Told ⟨opened_tcb, 0x20000, 0, 0⟩ (window_segment 1024) := by
    constructor
    · intro hrep
      exact absurd hrep.2.2.1 (by decide)
    · intro hgen
      exact absurd hgen (by decide)
    · intro _
      exact .inr rfl
  have hcond : DupCond ⟨opened_tcb, 0x20000, 0, 0⟩ (quiet_ctx, .segment (window_segment 1024)) := by
    intro seg t' hseg _
    obtain rfl := LifeEvent.segment.inj hseg
    exact htold
  have hstep : DupStep ⟨opened_tcb, 0x20000, 0, 0⟩ (quiet_ctx, .segment (window_segment 1024))
      (Duplicates.after ⟨opened_tcb, 0x20000, 0, 0⟩ (window_segment 1024) greeted_tcb) :=
    .accepted ⟨_, rfl⟩ ⟨rfl, _, rfl⟩
  have hgreeted : RunWhere DupStep DupCond Duplicates.Start ⟨greeted_tcb, 0x20000, 0, 0⟩ :=
    .step (.init hstart) hcond hstep
  apply run_others hgreeted three_bytes _ rfl
  intro a ha
  simp only [three_bytes, List.mem_cons, List.not_mem_nil, or_false] at ha
  rcases ha with rfl | rfl | rfl <;> exact fun _ => nofun

theorem duplicates_counted_flight : genuine flight_tcb 0x20000 (window_segment 1024) := by
  have hacts : acts_on flight_tcb (window_segment 1024) := by
    refine ⟨.inl ⟨rfl, ?_, rfl, rfl⟩, _, rfl, by decide⟩
    intro h
    exact absurd h.1 (by decide)
  have htold : Told ⟨flight_tcb, 0x20000, 0, 0⟩ (window_segment 1024) := by
    constructor
    · intro _ _
      exact ⟨rfl, rfl, rfl⟩
    · intro _
      exact ⟨⟨hacts, rfl, rfl, by decide⟩, fun hup => absurd hup (by decide), by decide⟩
    · intro _
      exact .inl hacts
  have hcond : DupCond ⟨flight_tcb, 0x20000, 0, 0⟩ (quiet_ctx, .segment (window_segment 1024)) := by
    intro seg t' hseg _
    obtain rfl := LifeEvent.segment.inj hseg
    exact htold
  have hacc : accepted_in_established quiet_ctx flight_tcb (window_segment 1024)
      ((conn_run flight_tcb [(quiet_ctx, .segment (window_segment 1024))]).get rfl) :=
    ⟨rfl, _, rfl⟩
  exact (duplicates_counted flight_run).2 quiet_ctx _ _ hacc hcond (by decide)

/-- An acknowledgement that closes half the window is counted for a duplicate. -/
theorem window_change_counted :
    ¬ ∀ σ : Duplicates, Reachable DupStep Duplicates.Start σ →
      (σ.entries = if 3 ≤ σ.streak then 1 else 0) ∧
      ∀ (c : Ctx) (seg : Segment) (t' : UsnTcb), accepted_in_established c σ.tcb seg t' →
        σ.tcb.rcvvar.dup_acks < t'.rcvvar.dup_acks → genuine σ.tcb σ.prev seg := by
  intro h
  have hacc : accepted_in_established quiet_ctx flight_tcb (window_segment 512)
      ((conn_run flight_tcb [(quiet_ctx, .segment (window_segment 512))]).get rfl) :=
    ⟨rfl, _, rfl⟩
  have hgen := (h _ flight_run.reachable).2 quiet_ctx _ _ hacc (by decide)
  exact absurd hgen (by decide)

end Usnet
