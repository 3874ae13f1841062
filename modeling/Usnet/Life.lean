import Usnet.Event
import Usnet.InputSpec
import Usnet.Lib.Run

/-! # The life of a connection

    Runs of the whole system as one connection sees it: segments addressed to
    it, the application's messages and its accesses to the rings, timeouts and
    the visits of the dispatch loop, in any order.  Every event comes with a
    context of its own, so clock, allocations, output and the other entries of
    the lists are arbitrary at every step.
-/

namespace Usnet

open CInt Run

/-! ## Section 1: Events -/

/-- What can happen next. -/
inductive LifeEvent where
  | segment (seg : Segment)
  | accept (so : Bool) (fd : UInt32) (result : Int)
  | wrote (so_tcb : Bool) (fd : UInt32)
  | rto
  | control
  | acks
  | data
  | timewait
  | timeout
  | write (fd : UInt32) (bytes : List UInt8)
  | read (fd : UInt32) (count : Nat)

/-- `usnet_tcb_eq` of a connection and the addresses of a segment. -/
def addressed (tcb : UsnTcb) (seg : Segment) : Bool :=
  tcb.saddr == seg.ip_dst && tcb.daddr == seg.ip_src && tcb.sport == seg.th_dport &&
    tcb.dport == seg.th_sport

/-- The effect of a function that also returns a value. -/
def effect {α : Type} (r : Except Fault (α × Conn)) : Except Fault Conn :=
  match r with
  | .error e => .error e
  | .ok (_, s) => .ok s

/-- The application's write, which the network process does not see at once. -/
def app_write (s : Conn) (fd : UInt32) (bytes : List UInt8) : Except Fault Conn :=
  match usnet_write s.tcb fd bytes with
  | .error e => .error e
  | .ok (_, tcb) => .ok { s with tcb := tcb }

/-- The application's read. -/
def app_read (s : Conn) (fd : UInt32) (count : Nat) : Conn :=
  s.onRcv fun v => { v with rcvbuf := (usnet_read v.rcvbuf fd count).2.2 }

/-- What an event does to a connection.  A segment found to be its own goes
    through `input_segment`, the rest of `usnet_tcp_input`. -/
def life_conn (s : Conn) : LifeEvent → Except Fault Conn
  | .segment seg => if addressed s.tcb seg then effect (input_segment s seg) else .ok s
  | .accept so fd result => .ok (usnet_connect_net_handler s so fd result)
  | .wrote so_tcb fd => .ok (usnet_write_net_handler s so_tcb fd)
  | .rto => rto_visit s
  | .control => .ok (control_visit s)
  | .acks => .ok (ack_visit s)
  | .data => data_visit s
  | .timewait => .ok (timewait_visit s)
  | .timeout => .ok (if s.tcb.on_timeout_list then timeout_visit s else s)
  | .write fd bytes => app_write s fd bytes
  | .read fd count => .ok (app_read s fd count)

/-- A released block is no connection any more. -/
def alive (tcb : UsnTcb) : Option UsnTcb := if usnet_tcb_isempty tcb then none else some tcb

/-- A place that is taken is taken by a block that has addresses. -/
theorem alive_some {t t' : UsnTcb} (h : alive t = some t') :
    usnet_tcb_isempty t' = false ∧ t = t' := by
  unfold alive at h
  split at h
  · cases h
  · rename_i hne
    obtain rfl := Option.some.inj h
    exact ⟨by simpa using hne, rfl⟩

/-- One event on the place of a connection, taken or not. -/
def life_step (c : Ctx) (tcb : Option UsnTcb) (ev : LifeEvent) :
    Except Fault (Ctx × Option UsnTcb) :=
  match tcb with
  | some tcb =>
    match life_conn ⟨c, tcb⟩ ev with
    | .error e => .error e
    | .ok s => .ok (s.ctx, alive s.tcb)
  | none =>
    match ev with
    | .segment seg =>
      match usnet_tcp_input c none seg with
      | .error e => .error e
      | .ok (_, c, tcb) => .ok (c, tcb.bind alive)
    | _ => .ok (c, none)

/-! ## Section 2: Runs -/

/-- A step of a run: the event with the context it meets. -/
def LifeStep (tcb : Option UsnTcb) (a : Ctx × LifeEvent) (tcb' : Option UsnTcb) : Prop :=
  ∃ c', life_step a.1 tcb a.2 = .ok (c', tcb')

/-- A condition on the events that find a connection. -/
abbrev LifeCond := Conn → LifeEvent → Prop

/-- Reached from no connection by events that meet `C` whenever there is a
    connection for them to meet. -/
def LifeWhere (C : LifeCond) : Option UsnTcb → Prop :=
  RunWhere LifeStep (fun tcb a => ∀ t, tcb = some t → C ⟨a.1, t⟩ a.2) (· = none)

/-- Reached by any events. -/
abbrev LifeReachable : Option UsnTcb → Prop := LifeWhere fun _ _ => True

/-- The invariant rule for connections: what holds of every connection created
    and is kept by every event that does not release it holds of the connection at
    any time.  The place is never taken by a released block. -/
theorem LifeWhere.invariant_live {C : LifeCond} {I : UsnTcb → Prop}
    (hnew : ∀ c seg ret c' t, usnet_tcp_input c none seg = .ok (ret, c', some t) → I t)
    (hstep : ∀ s ev s', usnet_tcb_isempty s.tcb = false → I s.tcb → C s ev →
      life_conn s ev = .ok s' → usnet_tcb_isempty s'.tcb = false → I s'.tcb)
    {t : UsnTcb} (h : LifeWhere C (some t)) : usnet_tcb_isempty t = false ∧ I t := by
  suffices hall : ∀ o, LifeWhere C o → ∀ t, o = some t → usnet_tcb_isempty t = false ∧ I t from
    hall _ h t rfl
  intro o ho
  -- on the run
  induction ho with
  | init h =>
    intro t ht
    rw [h] at ht
    cases ht
  | @step tcb tcb' a _ hc hs ih =>
    intro t ht
    obtain ⟨c, ev⟩ := a
    obtain ⟨c', hs⟩ := hs
    unfold life_step at hs
    cases tcb with
    | some t₀ =>
      obtain ⟨hlive₀, hi₀⟩ := ih t₀ rfl
      simp only at hs
      split at hs
      · cases hs
      · rename_i s hok
        obtain ⟨-, rfl⟩ := hs
        obtain ⟨hlive, rfl⟩ := alive_some ht
        exact ⟨hlive, hstep _ _ _ hlive₀ hi₀ (hc t₀ rfl) hok hlive⟩
    -- an empty place is taken by a segment that creates a connection
    | none =>
      simp only at hs
      split at hs
      · rename_i seg
        split at hs
        · cases hs
        · rename_i ret c₁ tcb₁ hin
          obtain ⟨-, rfl⟩ := hs
          cases tcb₁ with
          | none => cases ht
          | some t₁ =>
            obtain ⟨hlive, rfl⟩ := alive_some ht
            exact ⟨hlive, hnew _ _ _ _ _ hin⟩
      · obtain ⟨-, rfl⟩ := hs
        cases ht

/-- The same for what also holds of a block just released. -/
theorem LifeWhere.invariant {C : LifeCond} {I : UsnTcb → Prop}
    (hnew : ∀ c seg ret c' t, usnet_tcp_input c none seg = .ok (ret, c', some t) → I t)
    (hstep : ∀ s ev s', I s.tcb → C s ev → life_conn s ev = .ok s' → I s'.tcb)
    {t : UsnTcb} (h : LifeWhere C (some t)) : I t :=
  (h.invariant_live hnew fun _ _ _ _ hi hc hok _ => hstep _ _ _ hi hc hok).2

/-- A run under a condition is a run. -/
theorem LifeWhere.reachable {C : LifeCond} {o : Option UsnTcb} (h : LifeWhere C o) :
    LifeReachable o :=
  RunWhere.mono (fun _ _ _ _ _ => trivial) h

/-! ## Section 3: Runs on given events -/

/-- The run on a list of events. -/
def life_run (o : Option UsnTcb) : List (Ctx × LifeEvent) → Except Fault (Option UsnTcb)
  | [] => .ok o
  | a :: as =>
    match life_step a.1 o a.2 with
    | .error e => .error e
    | .ok (_, o) => life_run o as

/-- Every event of the run that finds a connection meets the condition. -/
def life_run_meets (C : LifeCond) (o : Option UsnTcb) : List (Ctx × LifeEvent) → Prop
  | [] => True
  | a :: as =>
    (∀ t, o = some t → C ⟨a.1, t⟩ a.2) ∧
    match life_step a.1 o a.2 with
    | .error _ => True
    | .ok (_, o) => life_run_meets C o as

/-- A run on given events reaches what it computes. -/
theorem LifeWhere.run {C : LifeCond} {o o' : Option UsnTcb} {evs : List (Ctx × LifeEvent)}
    (h : LifeWhere C o) (hm : life_run_meets C o evs) (hr : life_run o evs = .ok o') :
    LifeWhere C o' := by
  induction evs generalizing o with
  | nil =>
    obtain rfl := Except.ok.inj hr
    exact h
  | cons a as ih =>
    obtain ⟨hc, hm⟩ := hm
    unfold life_run at hr
    cases hs : life_step a.1 o a.2 with
    | error e => simp [hs] at hr
    | ok q =>
      simp only [hs] at hr hm
      exact ih (.step h hc ⟨q.1, hs⟩) hm hr

theorem life_run_meets_true (o : Option UsnTcb) (evs : List (Ctx × LifeEvent)) :
    life_run_meets (fun _ _ => True) o evs := by
  induction evs generalizing o with
  | nil => trivial
  | cons a as ih =>
    refine ⟨fun _ _ => trivial, ?_⟩
    split
    · trivial
    · exact ih _

/-- A listener is at 10.0.0.1:80, and every allocation and output succeeds. -/
def quiet_ctx : Ctx :=
  { cur_time := 1000, tcp_timewait := 60, tcp_timeout := 120
    listen_tcb := some { fd := 1, saddr := 0x0100000a, sport := 0x5000 }
    tx := List.replicate 8 true, tcb_cache := some 7, rcvvars_mp := true
    sndvars_mp := true, frag_mp := true, ringbuf_cache := some fun _ => 0
    sndbuf_cache := some fun _ => 0, rand := 5000, control_list := []
    control_list_cnt := 0, send_list := [], send_list_cnt := 0, ack_list := []
    ack_list_cnt := 0, timewait_list := [], timewait_list_cnt := 0
    timeout_list := [], timeout_list_cnt := 0
    rto_store := { rto_now_idx := 0, rto_now_ts := 0, rto_list := fun _ => [] }
    rto_list_cnt := 0, frames := [], events := [], applied := [] }

/-- A segment from 10.0.0.2:1234 to the listener. -/
def peer_segment (seq ack_seq : UInt32) (flags : UInt8) (payload : List UInt8)
    (short : payload.length < 2 ^ 16) : Segment :=
  { ip_src := 0x0200000a, ip_dst := 0x0100000a, th_sport := 0xd204, th_dport := 0x5000
    seq := seq, ack_seq := ack_seq, flags := flags, window := 1024
    opts := [2, 4, 5, 0xb4], payload := payload, trailer := [], short := short }

/-- The peer's SYN, the application's accept and the end of the handshake. -/
def handshake : List (Ctx × LifeEvent) :=
  [(quiet_ctx, .segment (peer_segment 9000 0 TH_SYN [] (by decide))),
   (quiet_ctx, .accept true 5 0),
   (quiet_ctx, .segment (peer_segment 9001 5001 TH_ACK [] (by decide)))]

/-- The connection the handshake leaves. -/
def opened_tcb : UsnTcb := (life_run none handshake).toOption.join.get rfl

theorem opened_tcb_run : life_run none handshake = .ok (some opened_tcb) := rfl

/-- It is a connection the code can have. -/
theorem opened_tcb_reachable : LifeReachable (some opened_tcb) :=
  .run (.init rfl) (life_run_meets_true _ _) opened_tcb_run

end Usnet
