import Usnet.Moves
import Usnet.Reassembly

/-! # The receive side over a whole life

    Until the connection leaves the established state `rcv_nxt` is the front of
    the receive ring, or the first byte of the stream while there is no ring.
-/

namespace Usnet

open CInt Run

/-! ## Section 1: The invariant -/

/-- The states before the peer's FIN. -/
def opening (st : TcpState) : Prop := st = .syn_received ∨ st = .established

/-- The receive ring agrees with `rcv_nxt`. -/
structure RcvInv (t : UsnTcb) : Prop where
  life : LifeInv t
  without : opening t.state → t.rcvvar.rcvbuf = none → t.rcv_nxt = t.rcvvar.irs + 1
  front : opening t.state → ∀ buf, t.rcvvar.rcvbuf = some buf → buf.head_seq = t.rcv_nxt
  frags : ∀ buf, t.rcvvar.rcvbuf = some buf → FragInv buf ∧ buf.size = RINGBUF_SIZE

/-- The buffer a segment meets, found or fresh. -/
theorem RcvInv.receive_buffer {t : UsnTcb} (h : RcvInv t) {c : Ctx} {buf : UsnRingbuf}
    (hbuf : receive_buffer ⟨c, t⟩ = some buf) :
    FragInv buf ∧ buf.size = RINGBUF_SIZE ∧ (opening t.state → buf.head_seq = t.rcv_nxt) := by
  unfold Usnet.receive_buffer at hbuf
  cases hrb : t.rcvvar.rcvbuf with
  | some buf₀ =>
    simp only [hrb] at hbuf
    obtain rfl := Option.some.inj hbuf
    obtain ⟨hf, hs⟩ := h.frags _ hrb
    exact ⟨hf, hs, fun ho => h.front ho _ hrb⟩
  | none =>
    simp only [hrb, usnet_get_ringbuf, Option.map_eq_some_iff] at hbuf
    obtain ⟨mem, -, rfl⟩ := hbuf
    refine ⟨⟨?_, ?_, ?_⟩, rfl, fun ho => (h.without ho hrb).symm⟩
    · exact IvList.separated_nil
    · simp [UsnRingbuf.ivs]
    · simp [UsnRingbuf.ivs]

theorem RINGBUF_SIZE_le {buf : UsnRingbuf} (h : buf.size = RINGBUF_SIZE) :
    buf.size.toNat ≤ 65535 := by
  rw [h]
  decide

/-- The invariant depends on these variables only. -/
theorem RcvInv.congr {t t' : UsnTcb} (h : RcvInv t) (hlife : LifeInv t')
    (hst : opening t'.state → opening t.state)
    (hnxt : t'.rcv_nxt = t.rcv_nxt) (hirs : t'.rcvvar.irs = t.rcvvar.irs)
    (hbuf : t'.rcvvar.rcvbuf = t.rcvvar.rcvbuf) : RcvInv t' := by
  refine ⟨hlife, fun ho hb => ?_, fun ho buf hb => ?_, fun buf hb => ?_⟩
  · rw [hnxt, hirs]
    exact h.without (hst ho) (hbuf ▸ hb)
  · rw [hnxt]
    exact h.front (hst ho) buf (hbuf ▸ hb)
  · exact h.frags buf (hbuf ▸ hb)

theorem RcvInv.created {t : UsnTcb} (h : Created t) : RcvInv t := by
  obtain ⟨hnxt, hbuf, -⟩ := h.receive
  refine ⟨⟨.inl h.state, h.send.2.2⟩, fun _ _ => hnxt, fun _ buf hb => ?_, fun buf hb => ?_⟩
  · rw [hbuf] at hb
    cases hb
  · rw [hbuf] at hb
    cases hb

/-- A read moves the read position only. -/
theorem read_ringbuf_frame (buf : UsnRingbuf) (count : Nat) :
    (read_ringbuf buf count).2.2 = { buf with data := (read_ringbuf buf count).2.2.data } := by
  unfold read_ringbuf
  simp only
  split
  · rfl
  · split
    · rfl
    · split
      all_goals split
      all_goals rfl

theorem usnet_read_frame {rcvbuf : Option UsnRingbuf} {fd : UInt32} {count : Nat}
    {buf' : UsnRingbuf} (h : (usnet_read rcvbuf fd count).2.2 = some buf') :
    ∃ buf, rcvbuf = some buf ∧ buf' = { buf with data := buf'.data } := by
  unfold usnet_read at h
  cases rcvbuf with
  | none => cases h
  | some buf =>
    refine ⟨buf, rfl, ?_⟩
    simp only at h
    split at h
    · obtain rfl := Option.some.inj h
      rfl
    · obtain rfl := Option.some.inj h
      exact read_ringbuf_frame buf count

theorem usnet_read_none {rcvbuf : Option UsnRingbuf} {fd : UInt32} {count : Nat}
    (h : (usnet_read rcvbuf fd count).2.2 = none) : rcvbuf = none := by
  unfold usnet_read at h
  cases rcvbuf with
  | none => rfl
  | some buf =>
    simp only at h
    split at h <;> cases h

/-- What an event does to the receive ring and the window announced. -/
inductive ReceiveMove (s s' : Conn) : LifeEvent → Prop where
  | kept {ev : LifeEvent} : s'.tcb.rcvvar.rcv_wnd = s.tcb.rcvvar.rcv_wnd →
      s'.tcb.rcvvar.rcvbuf = s.tcb.rcvvar.rcvbuf → ReceiveMove s s' ev
  | read {fd : UInt32} {count : Nat} : s'.tcb.rcvvar.rcv_wnd = s.tcb.rcvvar.rcv_wnd →
      s'.tcb.rcvvar.rcvbuf = (usnet_read s.tcb.rcvvar.rcvbuf fd count).2.2 →
      ReceiveMove s s' (.read fd count)
  | inserted {seg : Segment} {buf buf' : UsnRingbuf} {r : Int} : in_window s.tcb seg →
      Inserted s seg buf buf' r → s'.tcb.rcvvar.rcv_wnd = buf'.win →
      s'.tcb.rcvvar.rcvbuf = some buf' → ReceiveMove s s' (.segment seg)

theorem ReceiveMove.of_core {s s' : Conn} {ev : LifeEvent} (c : Core) (hc : s'.tcb.core = c)
    (hwnd : c.rcv_wnd = s.tcb.rcvvar.rcv_wnd) (hbuf : c.rcvbuf = s.tcb.rcvvar.rcvbuf) :
    ReceiveMove s s' ev := by
  obtain rfl := hc
  exact .kept hwnd hbuf

theorem life_conn_receive {s s' : Conn} {ev : LifeEvent} (h : LifeInv s.tcb)
    (hok : life_conn s ev = .ok s') : ReceiveMove s s' ev := by
  -- only a read and a segment with payload touch the ring
  cases life_conn_move h hok with
  | control hc => exact .of_core _ hc.core rfl rfl
  | closed hc => exact .of_core _ hc rfl rfl
  | resent _ hc => exact .of_core _ hc rfl rfl
  | joined _ hc hctl =>
    exact .of_core _ (joined_core hc hctl) rfl rfl
  | written _ _ hc => exact .of_core _ hc rfl rfl
  | flushed _ h₀ hfl h₁ =>
    obtain ⟨buf, p, -, hcore⟩ := flushed_core h₀ hfl h₁
    exact .of_core _ hcore rfl rfl
  | opened _ _ _ hc => exact .of_core _ hc rfl rfl
  | resynced _ _ _ _ hc => exact .of_core _ hc rfl rfl
  | read hc => exact .read (congrArg Core.rcv_wnd hc) (congrArg Core.rcvbuf hc)
  | handled hw hh =>
    obtain ⟨rcv_nxt, hrcv, -⟩ := hh.receive
    cases hrcv with
    | nothing _ hwnd hbuf => exact .kept hwnd hbuf
    | inserted hins _ hwnd hbuf => exact .inserted hw hins hwnd hbuf

/-- Every event keeps it. -/
theorem RcvInv.step {s s' : Conn} {ev : LifeEvent} (h : RcvInv s.tcb)
    (hok : life_conn s ev = .ok s') : RcvInv s'.tcb := by
  have hm := life_conn_move h.life hok
  have hlife := hm.inv h.life
  -- most events change the receive side as little as this
  have hsame : ∀ c : Core, s'.tcb.core = c → (opening c.state → opening s.tcb.state) →
      c.rcv_nxt = s.tcb.rcv_nxt → c.irs = s.tcb.rcvvar.irs →
      c.rcvbuf = s.tcb.rcvvar.rcvbuf → RcvInv s'.tcb := by
    rintro c rfl hst hnxt hirs hbuf
    exact h.congr hlife hst hnxt hirs hbuf
  have hshut : opening TcpState.closed → opening s.tcb.state := by
    rintro (h | h) <;> cases h
  cases hm with
  | control hc => exact hsame _ hc.core id rfl rfl rfl
  | closed hc => exact hsame _ hc hshut rfl rfl rfl
  | resent _ hc => exact hsame _ hc id rfl rfl rfl
  | joined _ hc hctl =>
    exact hsame _ (joined_core hc hctl) id rfl rfl rfl
  | written _ _ hc => exact hsame _ hc id rfl rfl rfl
  | flushed _ h₀ hfl h₁ =>
    obtain ⟨buf, p, -, hcore⟩ := flushed_core h₀ hfl h₁
    exact hsame _ hcore id rfl rfl rfl
  | opened hst _ _ hc => exact hsame _ hc (fun _ => .inl hst) rfl rfl rfl
  | resynced _ _ _ _ hc => exact hsame _ hc id rfl rfl rfl
  | read hc =>
    have hbuf := congrArg Core.rcvbuf hc
    have hst : s'.tcb.state = s.tcb.state := congrArg Core.state hc
    have hnxt : s'.tcb.rcv_nxt = s.tcb.rcv_nxt := congrArg Core.rcv_nxt hc
    have hirs : s'.tcb.rcvvar.irs = s.tcb.rcvvar.irs := congrArg Core.irs hc
    simp only [UsnTcb.core] at hbuf
    refine ⟨hlife, fun ho hb => ?_, fun ho buf' hb => ?_, fun buf' hb => ?_⟩
    · rw [hnxt, hirs]
      exact h.without (hst ▸ ho) (usnet_read_none (hbuf ▸ hb))
    · rw [hbuf] at hb
      obtain ⟨buf, hb₀, hframe⟩ := usnet_read_frame hb
      rw [hframe, hnxt]
      exact h.front (hst ▸ ho) buf hb₀
    · rw [hbuf] at hb
      obtain ⟨buf, hb₀, hframe⟩ := usnet_read_frame hb
      obtain ⟨hf, hs⟩ := h.frags buf hb₀
      rw [hframe]
      exact ⟨hf.congr rfl rfl, hs⟩
  | handled _ hh =>
    obtain ⟨rcv_nxt, hrcv, hend⟩ := hh.receive
    obtain ⟨-, -, -, hirs, -⟩ := hh.kept
    have hst : opening s'.tcb.state → opening s.tcb.state ∧ s'.tcb.rcv_nxt = rcv_nxt := by
      intro ho
      have hne : s'.tcb.state ≠ .close_wait := by
        rcases ho with ho | ho <;> rw [ho] <;> decide
      refine ⟨?_, hend.resolve_right hne⟩
      rcases hh.state with hst | hst | hst
      · exact hst ▸ ho
      · exact absurd hst hne
      · exact hshut (hst ▸ ho)
    cases hrcv with
    | nothing hnxt _ hbuf =>
      refine ⟨hlife, fun ho hb => ?_, fun ho buf hb => ?_, fun buf hb => ?_⟩
      · rw [(hst ho).2, hnxt, hirs]
        exact h.without (hst ho).1 (hbuf ▸ hb)
      · rw [(hst ho).2, hnxt]
        exact h.front (hst ho).1 buf (hbuf ▸ hb)
      · exact h.frags buf (hbuf ▸ hb)
    | inserted hins hnxt _ hbuf =>
      obtain ⟨hf, hsize, -⟩ := h.receive_buffer hins.buffer
      have hkept := usnet_insert_fragment_kept hins.run
      refine ⟨hlife, fun _ hb => ?_, fun ho b hb => ?_, fun b hb => ?_⟩
      · rw [hbuf] at hb
        cases hb
      · rw [hbuf] at hb
        obtain rfl := Option.some.inj hb
        rw [(hst ho).2, hnxt]
      · rw [hbuf] at hb
        obtain rfl := Option.some.inj hb
        exact ⟨hf.insert (RINGBUF_SIZE_le hsize) hins.payload.1 hins.run,
          hkept.1.trans hsize⟩

/-- It holds of every connection at any time. -/
theorem rcvInv_of_life {C : LifeCond} {t : UsnTcb} (h : LifeWhere C (some t)) : RcvInv t :=
  LifeWhere.invariant (fun _ _ _ _ _ hin => RcvInv.created (usnet_tcp_input_created hin))
    (fun _ _ _ hi _ hok => hi.step hok) h

end Usnet
