import Usnet.Event
import Usnet.InputSpec

/-! # The core of a connection

    The variables that decide what is sent and what is delivered, apart from
    the bookkeeping around them, and what the output functions and the visits
    of the dispatch loop do to them.
-/

namespace Usnet

open CInt

/-! ## Section 1: The variables that count -/

/-- The part of a connection the properties of whole runs speak about. -/
@[ext] structure Core where
  fd : UInt32
  socket : Option UInt32
  state : TcpState
  snd_nxt : UInt32
  rcv_nxt : UInt32
  snd_una : UInt32
  iss : UInt32
  irs : UInt32
  is_fin_sent : Bool
  sndbuf : Option UsnSendbuf
  rcv_wnd : UInt32
  rcvbuf : Option UsnRingbuf

def UsnTcb.core (t : UsnTcb) : Core :=
  { fd := t.fd, socket := t.socket, state := t.state, snd_nxt := t.snd_nxt
    rcv_nxt := t.rcv_nxt, snd_una := t.sndvar.snd_una, iss := t.sndvar.iss
    irs := t.rcvvar.irs, is_fin_sent := t.sndvar.is_fin_sent
    sndbuf := t.sndvar.sndbuf, rcv_wnd := t.rcvvar.rcv_wnd, rcvbuf := t.rcvvar.rcvbuf }

/-- Nothing that counts has changed. -/
abbrev SameCore (s s' : Conn) : Prop := s'.tcb.core = s.tcb.core

/-- The states a connection goes through when the application does not close it. -/
def tracked (st : TcpState) : Prop :=
  st = .syn_received ∨ st = .established ∨ st = .close_wait ∨ st = .closed

/-- The states in which data is sent. -/
def sending (st : TcpState) : Prop := st = .established ∨ st = .close_wait

theorem sending.tracked {st : TcpState} (h : sending st) : tracked st :=
  .inr (h.elim .inl (.inr ∘ .inl))

/-- Only `snd_nxt` moves, and not while data is being sent. -/
structure ControlCore (s s' : Conn) : Prop where
  core : s'.tcb.core = { s.tcb.core with snd_nxt := s'.tcb.snd_nxt }
  snd_nxt : sending s.tcb.state → s'.tcb.snd_nxt = s.tcb.snd_nxt

theorem Same.core {s s' : Conn} (h : Same s s') : SameCore s s' := by
  ext <;> simp [UsnTcb.core, h]

theorem Quiet.core {s s' : Conn} (h : Quiet s s') : SameCore s s' := by
  ext <;> simp [UsnTcb.core, h]

theorem SameCore.control {s s' : Conn} (h : SameCore s s') : ControlCore s s' := by
  have hnxt : s'.tcb.snd_nxt = s.tcb.snd_nxt := congrArg Core.snd_nxt h
  exact ⟨by rw [h, hnxt]; rfl, fun _ => hnxt⟩

theorem ControlCore.state {s s' : Conn} (h : ControlCore s s') :
    s'.tcb.state = s.tcb.state := by
  have := congrArg Core.state h.core
  exact this

theorem ControlCore.trans {s s' s'' : Conn} (h : ControlCore s s') (h' : ControlCore s' s'') :
    ControlCore s s'' := by
  refine ⟨?_, fun hs => ?_⟩
  · rw [h'.core, h.core]
  · rw [h'.snd_nxt (by rw [h.state]; exact hs), h.snd_nxt hs]

/-- Of a packet without SYN and FIN only the frame is new. -/
theorem usnet_send_tcp_packet_core (s : Conn) {flags : UInt8} (hfin : has flags TH_FIN = false)
    (hlen : synfin flags = 0) :
    SameCore s (usnet_send_tcp_packet s flags []).2 := by
  have hfin := usnet_send_tcp_packet_fin s flags [] hfin
  have hnxt : (usnet_send_tcp_packet s flags []).2.tcb.snd_nxt = s.tcb.snd_nxt := by
    rcases usnet_send_tcp_packet_cases s flags [] with ⟨-, h⟩ | ⟨-, h, -⟩
    · simp [h]
    · simp [h, hlen]
  ext <;> simp [UsnTcb.core, hfin, hnxt]

/-- A control packet in a state the connection can be in. -/
theorem usnet_send_control_packet_core {s : Conn} (h : tracked s.tcb.state) :
    ControlCore s (usnet_send_control_packet s).2 := by
  rcases h with h | h | h | h
  · obtain ⟨-, -, hfin⟩ := usnet_send_control_packet_syn h
    refine ⟨?_, fun hs => ?_⟩
    · ext <;> simp [UsnTcb.core, hfin]
    · rcases hs with hs | hs <;> rw [h] at hs <;> cases hs
  · obtain ⟨-, hnxt, hfin⟩ := usnet_send_control_packet_acks (.inl h)
    refine ⟨?_, fun _ => hnxt⟩
    ext <;> simp [UsnTcb.core, hfin]
  · obtain ⟨-, hnxt, hfin⟩ := usnet_send_control_packet_acks (.inr h)
    refine ⟨?_, fun _ => hnxt⟩
    ext <;> simp [UsnTcb.core, hfin]
  · apply SameCore.control
    have hrst : SameCore s (usnet_send_tcp_packet s TH_RST []).2 :=
      usnet_send_tcp_packet_core s rfl rfl
    unfold usnet_send_control_packet
    simp only [h]
    split
    · rfl
    · split
      · refine Eq.trans ?_ hrst
        ext <;> simp [UsnTcb.core]
      · exact hrst

theorem usnet_add_control_list_core {s : Conn} (h : tracked s.tcb.state) :
    ControlCore s (usnet_add_control_list s) := by
  refine (usnet_send_control_packet_core h).trans (SameCore.control ?_)
  unfold usnet_add_control_list
  simp only
  split
  · exact Same.core (by simp)
  · exact Same.core (by simp)

/-! ## Section 2: Visits of the dispatch loop -/

theorem control_visit_core {s : Conn} (h : tracked s.tcb.state) :
    ControlCore s (control_visit s) := by
  unfold control_visit
  simp only
  generalize ht : (s.onCtx fun c => { c with
    control_list := c.control_list.erase s.tcb.id
    control_list_cnt := c.control_list_cnt - 1 }) = t
  have htcb : t.tcb = s.tcb := by rw [← ht]; rfl
  have hst : ControlCore s t := SameCore.control (by rw [SameCore, htcb])
  split
  · -- the packet goes out from a connection that is off the list
    have hoff : SameCore t (t.onSnd fun v => { v with on_control_list := false }) := rfl
    have hpkt := usnet_send_control_packet_core
      (s := t.onSnd fun v => { v with on_control_list := false }) (by simpa [htcb] using h)
    have hall := (hst.trans hoff.control).trans hpkt
    split
    · exact hall.trans (SameCore.control rfl)
    · exact hall
  · exact hst

theorem send_acks_core (n : Nat) (s : Conn) : SameCore s (send_acks n s) := by
  induction n generalizing s with
  | zero => rfl
  | succ n ih =>
    have hpkt : SameCore s (usnet_send_tcp_packet s TH_ACK []).2 :=
      usnet_send_tcp_packet_core s rfl rfl
    unfold send_acks
    simp only
    split
    · exact hpkt
    · exact (ih _).trans hpkt

theorem send_wack_core (s : Conn) : SameCore s (send_wack s) := by
  unfold send_wack
  split
  · simp only
    have hpkt := @usnet_send_tcp_packet_core (s.onSnd fun v => { v with is_wack := false })
      (TH_ACK ||| TH_WACK) rfl rfl
    split
    · exact hpkt
    · exact hpkt
  · rfl

theorem send_waiting_core {s : Conn} (on_list : Bool) (h : tracked s.tcb.state) :
    ControlCore s (send_waiting s on_list) := by
  unfold send_waiting
  split
  · have hoff : SameCore s (s.onTcb fun t => { t with control_list_waiting := false }) := rfl
    exact hoff.control.trans (usnet_add_control_list_core h)
  · exact SameCore.control rfl

theorem ack_or_drop_core (s : Conn) : SameCore s (ack_or_drop s) := by
  unfold ack_or_drop
  split
  · simp only
    have hacks := (send_wack_core (send_acks s.tcb.sndvar.ack_cnt.toNat s)).trans
      (send_acks_core s.tcb.sndvar.ack_cnt.toNat s)
    split
    · exact hacks
    · exact (Same.core (usnet_remove_ack_list_same _)).trans hacks
  · exact (Same.core (usnet_remove_ack_list_same _)).trans rfl

theorem ack_visit_core {s : Conn} (h : tracked s.tcb.state) : ControlCore s (ack_visit s) := by
  unfold ack_visit
  split
  · have hack := (ack_or_drop_core s).control
    exact hack.trans (send_waiting_core _ (by rw [hack.state]; exact h))
  · exact SameCore.control rfl

end Usnet
