import Usnet.Held
import Usnet.Sent

/-! # What is acknowledged has arrived

    A ghost counts the numbers of the peer's stream from its first byte on and
    remembers which of them segments have carried, a FIN included.  Every frame of
    a connection acknowledges a number before which everything has arrived,
    whatever the order, the overlaps and the losses on the way were.
-/

namespace Usnet

open CInt Circular IvList Run

/-! ## Section 1: How far an event gets -/

/-- Where an event leaves the receive side: where it was, with bytes read out of the
    ring, or behind what a segment has brought, its FIN included if that is next. -/
inductive Advance (s s' : Conn) : LifeEvent → Prop
  | still {ev : LifeEvent} : s'.tcb.rcv_nxt = s.tcb.rcv_nxt →
      s'.tcb.rcvvar.rcvbuf = s.tcb.rcvvar.rcvbuf → Advance s s' ev
  | read {fd : UInt32} {count : Nat} : s'.tcb.rcv_nxt = s.tcb.rcv_nxt →
      s'.tcb.rcvvar.rcvbuf = (usnet_read s.tcb.rcvvar.rcvbuf fd count).2.2 →
      Advance s s' (.read fd count)
  | taken {seg : Segment} {rcv_nxt : UInt32} : addressed s.tcb seg →
      Received s seg rcv_nxt s'.tcb.rcvvar.rcv_wnd s'.tcb.rcvvar.rcvbuf →
      (s'.tcb.rcv_nxt = rcv_nxt ∨ seg.has TH_FIN ∧ seg.seq = rcv_nxt ∧
        s'.tcb.rcv_nxt = rcv_nxt + 1 ∧ s'.tcb.state = .close_wait) →
      Advance s s' (.segment seg)

theorem Advance.of_core {s s' : Conn} {ev : LifeEvent} (c : Core) (hc : s'.tcb.core = c)
    (hnxt : c.rcv_nxt = s.tcb.rcv_nxt) (hbuf : c.rcvbuf = s.tcb.rcvvar.rcvbuf) :
    Advance s s' ev := by
  obtain rfl := hc
  exact .still hnxt hbuf

/-- The handler of the established state. -/
theorem usnet_handle_established_advance {s n s' : Conn} {seg : Segment}
    (ha : addressed s.tcb seg) (hn : Noted s seg n) (hst : s.tcb.state = .established)
    (hnst : n.tcb.state = .established) (hok : usnet_handle_established n seg = .ok s') :
    Advance s s' (.segment seg) := by
  by_cases hsyn : seg.has TH_SYN
  · obtain ⟨-, hk, -⟩ := usnet_handle_established_syn hnst hsyn hok
    have hcore := hn.receive
    refine .still ?_ ?_
    all_goals simp_all
  · obtain ⟨s₁, s₂, hpay, hack, rfl⟩ := usnet_handle_established_parts (by simpa using hsyn) hok
    have hk := established_ack_kept hack
    obtain ⟨-, hrcv, -, -⟩ := established_fin_kept s₂ seg
    have hbuf : (established_fin s₂ seg).tcb.rcvvar.rcvbuf = s₁.tcb.rcvvar.rcvbuf := by
      rw [hrcv]
      simp_all
    have hwnd : (established_fin s₂ seg).tcb.rcvvar.rcv_wnd = s₁.tcb.rcvvar.rcv_wnd := by
      rw [hrcv]
      simp_all
    have hnxt : s₂.tcb.rcv_nxt = s₁.tcb.rcv_nxt := by simp_all
    refine .taken ha (?_ : Received s seg s₁.tcb.rcv_nxt _ _) ?_
    · rw [hbuf, hwnd]
      exact hn.payload hst (by simpa using hsyn) hpay
    · by_cases hfin : seg.has TH_FIN ∧ seg.seq = s₂.tcb.rcv_nxt
      · obtain ⟨hcw, hone⟩ := established_fin_taken hfin.1 hfin.2
        exact .inr ⟨hfin.1, hfin.2.trans hnxt, by rw [hone, hnxt], hcw⟩
      · left
        simp only [established_fin_other hfin, hnxt]

/-- CLOSE_WAIT, where nothing is received any more. -/
theorem usnet_handle_close_wait_advance {s n s' : Conn} {seg : Segment} (hn : Noted s seg n)
    (hnst : n.tcb.state = .close_wait) (hok : usnet_handle_close_wait n seg = .ok s') :
    Advance s s' (.segment seg) := by
  obtain ⟨hnxt, -, hbuf⟩ := hn.receive
  rcases usnet_handle_close_wait_cases hok with ⟨-, rfl⟩ | ⟨-, ho⟩
  · have hctl := usnet_add_control_list_core (.inr (.inr (.inl hnst)))
    refine .of_core _ hctl.core hnxt hbuf
  · have hk := ho.kept
    refine .still ?_ ?_
    all_goals simp_all

/-- Every segment a sending connection gets. -/
theorem input_segment_advance {s s' : Conn} {seg : Segment} {r : Int}
    (ha : addressed s.tcb seg) (hs : sending s.tcb.state)
    (hok : input_segment s seg = .ok (r, s')) : Advance s s' (.segment seg) := by
  rcases input_segment_cases hok with ⟨-, r₀, hneg, hchk⟩ | ⟨-, r₀, s₁, hneg, hchk, hh⟩
  · -- the check refuses it, with an acknowledgement or without
    have hval : s.tcb.state.val ≥ TcpState.syn_received.val := by
      rcases hs with hs | hs <;> rw [hs] <;> decide
    rw [check_segment, if_pos hval] at hchk
    rcases usnet_validate_seq_cases hchk with
      ⟨rfl, -, -⟩ | ⟨-, hq⟩ | ⟨-, -, -, -, t, hq, rfl⟩ | ⟨-, htw⟩
    · exact absurd hneg (by decide)
    · exact .of_core _ (Quiet.core hq) rfl rfl
    · have hst : t.tcb.state = s.tcb.state := congrArg Core.state hq.core
      have hctl := usnet_add_control_list_core (s := t) (hst ▸ .inr (hs.imp_right .inl))
      exact .of_core _ (hq.core.control.trans hctl).core rfl rfl
    · rcases hs with hs | hs <;> rw [hs] at htw <;> cases htw
  · obtain ⟨-, -, hn, hst⟩ := noted_by_check hs hchk hneg
    generalize (process_rst (note_segment s₁ seg) seg).2 = n at hn hst hh
    unfold handle_state at hh
    rcases hst with ⟨hst, -⟩ | ⟨hst, -⟩
    · rcases hs with hs | hs
      · rw [hst, hs] at hh
        exact usnet_handle_established_advance ha hn hs (hst.trans hs) hh
      · rw [hst, hs] at hh
        exact usnet_handle_close_wait_advance hn (hst.trans hs) hh
    · rw [hst] at hh
      exact usnet_handle_close_wait_advance hn hst hh

/-- Every event. -/
theorem life_conn_advance {s s' : Conn} {ev : LifeEvent} (h : LifeInv s.tcb)
    (hok : life_conn s ev = .ok s') : Advance s s' ev := by
  cases life_conn_move h hok with
  | control hc => exact .of_core _ hc.core rfl rfl
  | closed hc => exact .of_core _ hc rfl rfl
  | resent _ hc => exact .of_core _ hc rfl rfl
  | joined _ hc hctl => exact .of_core _ (joined_core hc hctl) rfl rfl
  | written _ _ hc => exact .of_core _ hc rfl rfl
  | flushed _ h₀ hfl h₁ =>
    obtain ⟨buf, p, -, hcore⟩ := flushed_core h₀ hfl h₁
    exact .of_core _ hcore rfl rfl
  | opened _ _ _ hc => exact .of_core _ hc rfl rfl
  | resynced _ _ _ _ hc => exact .of_core _ hc rfl rfl
  | read hc => exact .read (congrArg Core.rcv_nxt hc) (congrArg Core.rcvbuf hc)
  | handled _ hh =>
    simp only [life_conn] at hok
    split at hok
    · rename_i ha
      unfold effect at hok
      split at hok
      · cases hok
      · rename_i hin
        obtain rfl := Except.ok.inj hok
        exact input_segment_advance ha hh.sending hin
    · obtain rfl := Except.ok.inj hok
      exact .still rfl rfl

/-- The numbers count from the same place throughout, and no connection opens again. -/
theorem LifeMove.from_opening {s s' : Conn} {ev : LifeEvent} (hm : LifeMove s ev s') :
    s'.tcb.rcvvar.irs = s.tcb.rcvvar.irs ∧ (opening s'.tcb.state → opening s.tcb.state) := by
  have hshut : opening TcpState.closed → opening s.tcb.state := by
    rintro (h | h) <;> cases h
  have hsame : ∀ c : Core, s'.tcb.core = c → (opening c.state → opening s.tcb.state) →
      c.irs = s.tcb.rcvvar.irs →
      s'.tcb.rcvvar.irs = s.tcb.rcvvar.irs ∧ (opening s'.tcb.state → opening s.tcb.state) := by
    rintro c rfl hst hirs
    exact ⟨hirs, hst⟩
  cases hm with
  | control hc => exact hsame _ hc.core id rfl
  | closed hc => exact hsame _ hc hshut rfl
  | resent _ hc => exact hsame _ hc id rfl
  | joined _ hc hctl => exact hsame _ (joined_core hc hctl) id rfl
  | written _ _ hc => exact hsame _ hc id rfl
  | flushed _ h₀ hfl h₁ =>
    obtain ⟨buf, p, -, hcore⟩ := flushed_core h₀ hfl h₁
    exact hsame _ hcore id rfl
  | opened hst _ _ hc => exact hsame _ hc (fun _ => .inl hst) rfl
  | resynced _ _ _ _ hc => exact hsame _ hc id rfl
  | read hc => exact hsame _ hc id rfl
  | handled _ hh =>
    obtain ⟨-, -, -, hirs, -⟩ := hh.kept
    refine ⟨hirs, fun ho => ?_⟩
    rcases hh.state with hst | hst | hst
    · exact hst ▸ ho
    · rw [hst] at ho
      rcases ho with ho | ho <;> cases ho
    · exact hshut (hst ▸ ho)

/-! ## Section 2: The ghost -/

/-- A connection, the numbers that have arrived for it, and how many of them from
    the first on are behind `rcv_nxt`. -/
structure Arrivals where
  tcb : UsnTcb
  got : Set Nat
  upto : Nat

/-- The numbers a segment takes up, its payload and a FIN, counted from where
    `rcv_nxt` is. -/
def Arrivals.span (a : Arrivals) (seg : Segment) : Set Nat :=
  {n | ∃ i : Nat, i < seg.payload.length + (if seg.has TH_FIN then 1 else 0) ∧
    (n : Int) = a.upto + sint (seg.seq - a.tcb.rcv_nxt) + i}

/-- What an event brings. -/
def Arrivals.brought (a : Arrivals) : LifeEvent → Set Nat
  | .segment seg => if addressed a.tcb seg then a.span seg else ∅
  | _ => ∅

/-- The connection after an event. -/
def Arrivals.next (a : Arrivals) (ev : LifeEvent) (t' : UsnTcb) : Arrivals :=
  { tcb := t', got := a.got ∪ a.brought ev, upto := a.upto + ahead a.tcb.rcv_nxt t'.rcv_nxt }

/-- Any event in any context, while the connection is there. -/
inductive Arrivals.Step : Arrivals → Ctx × LifeEvent → Arrivals → Prop
  | event {a : Arrivals} {c : Ctx} {ev : LifeEvent} {s' : Conn} {t' : UsnTcb} :
      life_conn ⟨c, a.tcb⟩ ev = .ok s' → alive s'.tcb = some t' → Step a (c, ev) (a.next ev t')

/-- A connection just made by a SYN. -/
def Arrivals.Start (a : Arrivals) : Prop :=
  (∃ c seg ret c', usnet_tcp_input c none seg = .ok (ret, c', some a.tcb)) ∧
    a.got = ∅ ∧ a.upto = 0

/-! ## Section 3: The invariant -/

/-- Everything before `rcv_nxt` has arrived, and so has what the ring holds beyond. -/
structure Arrivals.Inv (a : Arrivals) : Prop where
  rcv : RcvInv a.tcb
  position : a.tcb.rcv_nxt = a.tcb.rcvvar.irs + 1 + u32 a.upto
  behind : ∀ n < a.upto, n ∈ a.got
  held : opening a.tcb.state → ∀ buf, a.tcb.rcvvar.rcvbuf = some buf →
    ∀ x ∈ cover buf.ivs, a.upto + x ∈ a.got

theorem Arrivals.Inv.start {a : Arrivals} (h : a.Start) : a.Inv := by
  obtain ⟨⟨c, seg, ret, c', hin⟩, hgot, hupto⟩ := h
  have hnew := usnet_tcp_input_created hin
  obtain ⟨hnxt, hbuf, -⟩ := hnew.receive
  refine ⟨RcvInv.created hnew, ?_, ?_, ?_⟩
  · rw [hnxt, hupto]
    exact (UInt32.add_zero _).symm
  · rw [hupto]
    exact fun n hn => absurd hn (Nat.not_lt_zero n)
  · intro _ buf hb
    rw [hbuf] at hb
    cases hb

variable {a : Arrivals} {c : Ctx} {s' : Conn}

/-- What the ring holds has arrived also when it has only just been allocated. -/
theorem Arrivals.Inv.found (h : a.Inv) (ho : opening a.tcb.state) {buf : UsnRingbuf}
    (hbuf : receive_buffer ⟨c, a.tcb⟩ = some buf) : ∀ x ∈ cover buf.ivs, a.upto + x ∈ a.got := by
  unfold receive_buffer at hbuf
  cases hrb : a.tcb.rcvvar.rcvbuf with
  | some buf₀ =>
    simp only [hrb] at hbuf
    obtain rfl := Option.some.inj hbuf
    exact h.held ho _ hrb
  | none =>
    simp only [hrb, usnet_get_ringbuf, Option.map_eq_some_iff] at hbuf
    obtain ⟨mem, -, rfl⟩ := hbuf
    rintro x ⟨i, hi, -⟩
    simp [UsnRingbuf.ivs] at hi

/-- How far the front of the ring has moved, and what is known of the numbers. -/
structure Arrivals.Reaches (a : Arrivals) (seg : Segment) (rcv_nxt : UInt32)
    (rcvbuf : Option UsnRingbuf) (k : Nat) : Prop where
  front : rcv_nxt = a.tcb.rcv_nxt + u32 k
  near : k ≤ 65535
  behind : ∀ n < a.upto + k, n ∈ a.got ∪ a.span seg
  held : opening a.tcb.state → ∀ buf, rcvbuf = some buf →
    ∀ x ∈ cover buf.ivs, a.upto + k + x ∈ a.got ∪ a.span seg

theorem Arrivals.Inv.reaches_still (h : a.Inv) (seg : Segment) :
    a.Reaches seg a.tcb.rcv_nxt a.tcb.rcvvar.rcvbuf 0 :=
  ⟨(UInt32.add_zero _).symm, Nat.zero_le _, fun n hn => .inl (h.behind n hn),
    fun ho buf hb x hx => .inl (h.held ho buf hb x hx)⟩

/-- The payload part. -/
theorem Arrivals.Inv.received (h : a.Inv) {seg : Segment} {rcv_nxt rcv_wnd : UInt32}
    {rcvbuf : Option UsnRingbuf} (hrcv : Received ⟨c, a.tcb⟩ seg rcv_nxt rcv_wnd rcvbuf) :
    ∃ k, a.Reaches seg rcv_nxt rcvbuf k := by
  cases hrcv with
  | nothing hnxt _ hbuf => exact ⟨0, hnxt ▸ hbuf ▸ h.reaches_still seg⟩
  | @inserted buf buf' r hins hnxt _ hbuf =>
    have ho : opening a.tcb.state := .inr hins.established.1
    obtain ⟨hf, hsize, hfront⟩ := h.rcv.receive_buffer hins.buffer
    have hfound := h.found ho hins.buffer
    have hsame : buf'.head_seq = buf.head_seq → buf'.ivs = buf.ivs →
        ∃ k, a.Reaches seg rcv_nxt rcvbuf k := by
      intro hseq hivs
      refine ⟨0, ?_, Nat.zero_le _, fun n hn => .inl (h.behind n hn), ?_⟩
      · rw [hnxt, hseq, hfront ho]
        exact (UInt32.add_zero _).symm
      · intro _ b hb x hx
        obtain rfl := Option.some.inj (hbuf.symm.trans hb)
        exact .inl (hfound x (hivs ▸ hx))
    rcases usnet_insert_fragment_cases hins.run with
      ⟨-, -, rfl, -⟩ | ⟨-, -, -, hcopy⟩ | ⟨-, -, hstored⟩
    · exact hsame rfl rfl
    · have hframe := copy_payload_frame hcopy
      refine hsame (by rw [hframe]) ?_
      unfold UsnRingbuf.ivs
      rw [hframe]
    · obtain ⟨l, hl⟩ := hstored.frags (RINGBUF_SIZE_le hsize) hins.payload.1 hf
      obtain ⟨hoff, -⟩ := hstored.in_range.offset (RINGBUF_SIZE_le hsize)
      -- the new interval has just been brought, the others were known
      have hcover : ∀ x ∈ cover l, a.upto + x ∈ a.got ∪ a.span seg := by
        intro x hx
        rw [hl.inserted, cover_insertIv (by simp only; have := hins.payload.1; omega)
          hf.separated] at hx
        rcases hx with ⟨hlo, hhi⟩ | hx
        · simp only at hlo hhi
          refine .inr ⟨x - ahead buf.head_seq seg.seq, by omega, ?_⟩
          rw [← hfront ho, hoff]
          omega
        · exact .inl (hfound x hx)
      refine ⟨(absorb l).1, ?_, absorb_fst_le hl.bound, ?_, ?_⟩
      · rw [hnxt, hl.absorbed.1, hfront ho]
      · intro n hn
        by_cases hlt : n < a.upto
        · exact .inl (h.behind n hlt)
        · have hx := hcover (n - a.upto) (mem_cover_of_lt_absorb (by omega))
          rwa [show a.upto + (n - a.upto) = n by omega] at hx
      · intro _ b hb x hx
        obtain rfl := Option.some.inj (hbuf.symm.trans hb)
        rw [hl.absorbed.2] at hx
        have hx := hcover _ ((mem_cover_absorb hl.separated x).mpr hx)
        rwa [← Nat.add_assoc] at hx

/-- Numbers are counted on from `rcv_nxt`. -/
theorem Arrivals.Inv.next_position (h : a.Inv) {ev : LifeEvent} {t' : UsnTcb}
    (hirs : t'.rcvvar.irs = a.tcb.rcvvar.irs) :
    t'.rcv_nxt = t'.rcvvar.irs + 1 + u32 (a.next ev t').upto := by
  simp only [Arrivals.next]
  rw [u32_natCast_add, ← UInt32.add_assoc, hirs, ← h.position, add_ahead]

/-- What a segment leaves, its FIN included. -/
theorem Arrivals.Reaches.taken {seg : Segment} {rcv_nxt : UInt32} {k : Nat} {t' : UsnTcb}
    (h : a.Reaches seg rcv_nxt t'.rcvvar.rcvbuf k) (ha : addressed a.tcb seg)
    (ho : opening t'.state → opening a.tcb.state)
    (hend : t'.rcv_nxt = rcv_nxt ∨ seg.has TH_FIN ∧ seg.seq = rcv_nxt ∧
      t'.rcv_nxt = rcv_nxt + 1 ∧ t'.state = .close_wait) :
    (∀ n < (a.next (.segment seg) t').upto, n ∈ (a.next (.segment seg) t').got) ∧
    (opening t'.state → ∀ buf, t'.rcvvar.rcvbuf = some buf →
      ∀ x ∈ cover buf.ivs, (a.next (.segment seg) t').upto + x ∈ (a.next (.segment seg) t').got) := by
  have hnear := h.near
  have hgot : (a.next (.segment seg) t').got = a.got ∪ a.span seg := by
    simp only [Arrivals.next, Arrivals.brought, ha, if_true]
  have hupto : (a.next (.segment seg) t').upto = a.upto + ahead a.tcb.rcv_nxt t'.rcv_nxt := rfl
  rw [hgot, hupto]
  rcases hend with hnxt | ⟨hfin, hseq, hnxt, hst⟩
  · rw [ahead_of_add (hnxt.trans h.front) (by omega)]
    exact ⟨h.behind, fun hst => h.held (ho hst)⟩
  · have hone : t'.rcv_nxt = a.tcb.rcv_nxt + u32 ((k + 1 : Nat) : Int) := by
      rw [hnxt, h.front, u32_natCast_add, UInt32.add_assoc]
      rfl
    rw [ahead_of_add hone (by omega)]
    refine ⟨fun n hn => ?_, fun ho => ?_⟩
    · by_cases hlt : n < a.upto + k
      · exact h.behind n hlt
      · -- the number the FIN itself takes up
        have hoff : sint (seg.seq - a.tcb.rcv_nxt) = k := by
          have hahead : (seg.seq - a.tcb.rcv_nxt).toNat = k :=
            ahead_of_add (hseq.trans h.front) (by omega)
          rw [sint_eq, hahead]
          split <;> omega
        refine .inr ⟨0, ?_, ?_⟩
        · simp only [hfin, if_true]
          omega
        · rw [hoff]
          omega
    · rw [hst] at ho
      rcases ho with ho | ho <;> cases ho

/-- One event. -/
theorem Arrivals.Inv.step {ev : LifeEvent} (h : a.Inv)
    (hok : life_conn ⟨c, a.tcb⟩ ev = .ok s') : (a.next ev s'.tcb).Inv := by
  obtain ⟨hirs, ho⟩ := (life_conn_move h.rcv.life hok).from_opening
  have hstill : s'.tcb.rcv_nxt = a.tcb.rcv_nxt →
      (opening s'.tcb.state → ∀ buf, s'.tcb.rcvvar.rcvbuf = some buf →
        ∃ buf₀, a.tcb.rcvvar.rcvbuf = some buf₀ ∧ buf.ivs = buf₀.ivs) →
      (∀ n < (a.next ev s'.tcb).upto, n ∈ (a.next ev s'.tcb).got) ∧
      (opening s'.tcb.state → ∀ buf, s'.tcb.rcvvar.rcvbuf = some buf →
        ∀ x ∈ cover buf.ivs, (a.next ev s'.tcb).upto + x ∈ (a.next ev s'.tcb).got) := by
    intro hnxt hbufs
    have hupto : (a.next ev s'.tcb).upto = a.upto := by
      simp only [Arrivals.next, hnxt, ahead_self, Nat.add_zero]
    rw [hupto]
    refine ⟨fun n hn => .inl (h.behind n hn), fun hst buf hb x hx => ?_⟩
    obtain ⟨buf₀, hb₀, hivs⟩ := hbufs hst buf hb
    exact .inl (h.held (ho hst) buf₀ hb₀ x (hivs ▸ hx))
  have hrest : (∀ n < (a.next ev s'.tcb).upto, n ∈ (a.next ev s'.tcb).got) ∧
      (opening s'.tcb.state → ∀ buf, s'.tcb.rcvvar.rcvbuf = some buf →
        ∀ x ∈ cover buf.ivs, (a.next ev s'.tcb).upto + x ∈ (a.next ev s'.tcb).got) := by
    cases life_conn_advance h.rcv.life hok with
    | still hnxt hbuf => exact hstill hnxt fun _ buf hb => ⟨buf, hbuf ▸ hb, rfl⟩
    | read hnxt hbuf =>
      refine hstill hnxt fun _ buf hb => ?_
      obtain ⟨buf₀, hb₀, hframe⟩ := usnet_read_frame (hbuf ▸ hb)
      refine ⟨buf₀, hb₀, ?_⟩
      unfold UsnRingbuf.ivs
      rw [hframe]
    | taken ha hrcv hend =>
      obtain ⟨k, hreach⟩ := h.received hrcv
      exact hreach.taken ha ho hend
  exact ⟨h.rcv.step hok, h.next_position hirs, hrest.1, hrest.2⟩

/-- It holds at any time. -/
theorem Arrivals.Inv.reachable {a : Arrivals} (h : Reachable Arrivals.Step Arrivals.Start a) :
    a.Inv := by
  refine h.invariant (fun a ha => .start ha) ?_
  rintro a - a' hinv - ⟨hok, halive⟩
  obtain ⟨-, rfl⟩ := alive_some halive
  exact hinv.step hok

/-! ## Section 4: Acknowledgements -/

/-- Whatever comes next, a frame that acknowledges anything acknowledges all the
    numbers before some place, and every one of them has been carried by a segment. -/
theorem acknowledges_only_arrived {a : Arrivals}
    (h : Reachable Arrivals.Step Arrivals.Start a) {c : Ctx} {ev : LifeEvent} {s' : Conn}
    (hok : life_conn ⟨c, a.tcb⟩ ev = .ok s') :
    Sends (fun f => f.flags = TH_RST ∨
      ∃ k : Nat, f.ack = a.tcb.rcvvar.irs + 1 + u32 k ∧ a.upto ≤ k ∧
        ∀ n < k, n ∈ a.got ∪ a.brought ev) c s'.ctx := by
  have hinv := Arrivals.Inv.reachable h
  have hnext := hinv.step hok
  obtain ⟨hirs, -⟩ := (life_conn_move hinv.rcv.life hok).from_opening
  refine (life_conn_between hinv.rcv.life.state hok).mono fun f hf => ?_
  have hack : ∀ flags ∈ sent_flags, flags = TH_RST ∨ has flags TH_ACK = true := by
    decide +kernel
  rcases hf with ⟨u, flags, payload, hface, hflags, -, rfl⟩ |
    ⟨u, flags, payload, hface, hflags, -, rfl⟩
  · refine (hack flags hflags).imp id fun hflag => ⟨a.upto, ?_, le_rfl, ?_⟩
    · have hnxt : u.tcb.rcv_nxt = a.tcb.rcv_nxt := congrArg Face.rcv_nxt hface
      simp only [tcp_packet, hflag, if_true, hnxt, hinv.position]
    · exact fun n hn => .inl (hinv.behind n hn)
  · refine (hack flags hflags).imp id fun hflag =>
      ⟨(a.next ev s'.tcb).upto, ?_, Nat.le_add_right _ _, hnext.behind⟩
    have hnxt : u.tcb.rcv_nxt = s'.tcb.rcv_nxt := congrArg Face.rcv_nxt hface
    have hposition : s'.tcb.rcv_nxt = s'.tcb.rcvvar.irs + 1 + u32 (a.next ev s'.tcb).upto :=
      hnext.position
    simp only [tcp_packet, hflag, if_true, hnxt, hposition, hirs]

/-- The connection of the handshake, from its SYN on. -/
def syn_arrived : Arrivals :=
  { tcb := offered_run.tcb, got := ∅, upto := 0 }

def accept_arrived : Arrivals :=
  syn_arrived.next (.accept true 5 0)
    ((life_conn ⟨quiet_ctx, syn_arrived.tcb⟩ (.accept true 5 0)).toOption.get rfl).tcb

def peer_ack : LifeEvent := .segment (peer_segment 9001 5001 TH_ACK [] nil_short)

def ack_arrived : Arrivals := accept_arrived.next peer_ack opened_tcb

theorem ack_arrived_reached : Reachable Arrivals.Step Arrivals.Start ack_arrived := by
  have hstart : syn_arrived.Start := ⟨⟨quiet_ctx, peer_segment 9000 0 TH_SYN [] nil_short, _, _, rfl⟩, rfl, rfl⟩
  have haccept : Arrivals.Step syn_arrived (quiet_ctx, .accept true 5 0) accept_arrived :=
    .event rfl rfl
  have hack : Arrivals.Step accept_arrived (quiet_ctx, peer_ack) ack_arrived := .event rfl rfl
  exact ((RunWhere.init hstart).next haccept trivial).next hack trivial

/-- A FIN is acknowledged together with all that comes before it. -/
theorem acknowledges_only_arrived_fin :
    ∃ k : Nat, fin_ack.ack = opened_tcb.rcvvar.irs + 1 + u32 k ∧
      ∀ n < k, n ∈ ack_arrived.got ∪ ack_arrived.brought peer_fin := by
  obtain ⟨sent, hsent, hall⟩ := acknowledges_only_arrived ack_arrived_reached fin_answered_run
  obtain ⟨k, hack, -, hgot⟩ := (hall _ (fin_ack_sent hsent)).resolve_left (by decide)
  exact ⟨k, hack, hgot⟩

end Usnet
