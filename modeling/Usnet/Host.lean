import Usnet.Life
import Usnet.Links
import Usnet.Lib.FlagList

/-! # The network process (core.c, timer.c, event.c)

    All connections with their common context: the events that find one of them,
    and the loops of the dispatcher over the lists.
-/

namespace Usnet

open CInt Run FlagList

/-! ## Section 1: The process -/

/-- The context, the control blocks by their addresses, and what the sockets'
    `so_tcb` point to. -/
structure Host where
  ctx : Ctx
  tcb : Nat → Option UsnTcb
  so_tcb : UInt32 → Option Nat

namespace Host

/-- A connection's function has run. -/
def put (h : Host) (id : Nat) (s : Conn) : Host :=
  { h with ctx := s.ctx, tcb := Function.update h.tcb id (alive s.tcb) }

/-- A function runs on the block at an address. -/
def on (h : Host) (id : Nat) (f : Conn → Except Fault Conn) : Except Fault Host :=
  match h.tcb id with
  | none => .ok h
  | some t =>
    match f ⟨h.ctx, t⟩ with
    | .error e => .error e
    | .ok s => .ok (h.put id s)

/-- What holds of the block at an address. -/
def test (h : Host) (id : Nat) (p : Conn → Bool) : Bool :=
  match h.tcb id with
  | none => false
  | some t => p ⟨h.ctx, t⟩

end Host

/-- `TAILQ_NEXT`. -/
def tailq_next (l : List Nat) (x : Nat) : Option Nat := l[l.idxOf x + 1]?

/-- The result of sending in `usnet_send_tcp_control_list` is negative. -/
def control_fails (s : Conn) : Bool :=
  s.tcb.sndvar.on_control_list &&
    decide ((usnet_send_control_packet (usnet_remove_control_list s)).1 < 0)

/-- The loop of `usnet_send_tcp_control_list`, which runs at most as often as
    `cnt` allows. -/
def control_loop (last : Option Nat) : Nat → Host → Option Nat → Except Fault Host
  | 0, h, _ => .ok h
  | _, h, none => .ok h
  | cnt + 1, h, some cur_stream =>
    let next := tailq_next h.ctx.control_list cur_stream
    match h.on cur_stream fun s => .ok (control_visit s) with
    | .error e => .error e
    | .ok h' =>
      if h.test cur_stream control_fails then .ok h'
      else if some cur_stream = last then .ok h'
      else control_loop last cnt h' next

/-- `usnet_send_tcp_control_list`. -/
def usnet_send_tcp_control_list (h : Host) (thresh : Int) : Except Fault Host :=
  control_loop h.ctx.control_list.getLast? (min thresh h.ctx.control_list_cnt).toNat h
    h.ctx.control_list.head?

/-- The loop of `usnet_send_tcp_ack_list`. -/
def ack_loop (last : Option Nat) : Nat → Host → Option Nat → Except Fault Host
  | 0, h, _ => .ok h
  | _, h, none => .ok h
  | cnt + 1, h, some cur_tcb =>
    let next := tailq_next h.ctx.ack_list cur_tcb
    match h.on cur_tcb fun s => .ok (ack_visit s) with
    | .error e => .error e
    | .ok h' => if some cur_tcb = last then .ok h' else ack_loop last cnt h' next

/-- `usnet_send_tcp_ack_list`. -/
def usnet_send_tcp_ack_list (h : Host) (thresh : Int) : Except Fault Host :=
  ack_loop h.ctx.ack_list.getLast? thresh.toNat h h.ctx.ack_list.head?

/-- The result of sending in `usnet_send_tcp_data_list` is negative. -/
def data_fails (s : Conn) : Bool :=
  s.tcb.sndvar.on_send_list &&
    match send_data (take_send s) with
    | .error _ => false
    | .ok (ret, _) => decide (ret < 0)

/-- The loop of `usnet_send_tcp_data_list`. -/
def data_loop (last : Option Nat) : Nat → Host → Option Nat → Except Fault Host
  | 0, h, _ => .ok h
  | _, h, none => .ok h
  | cnt + 1, h, some cur_tcb =>
    let next := tailq_next h.ctx.send_list cur_tcb
    match h.on cur_tcb data_visit with
    | .error e => .error e
    | .ok h' =>
      if h.test cur_tcb data_fails then .ok h'
      else if some cur_tcb = last then .ok h'
      else data_loop last cnt h' next

/-- `usnet_send_tcp_data_list`. -/
def usnet_send_tcp_data_list (h : Host) (thresh : Int) : Except Fault Host :=
  data_loop h.ctx.send_list.getLast? thresh.toNat h h.ctx.send_list.head?

/-- The test of `usnet_check_connection_timeout`. -/
def idle (s : Conn) : Bool := decide (sint (s.ctx.cur_time - s.tcb.last_active_ts) ≥ s.ctx.tcp_timeout)

/-- The loop of `usnet_check_connection_timeout`, which ends at the first
    connection that is not idle. -/
def timeout_loop : Nat → Host → Option Nat → Except Fault Host
  | 0, h, _ => .ok h
  | _, h, none => .ok h
  | cnt + 1, h, some walk =>
    let next := tailq_next h.ctx.timeout_list walk
    if h.test walk idle then
      match h.on walk fun s => .ok (timeout_visit s) with
      | .error e => .error e
      | .ok h' => timeout_loop cnt h' next
    else .ok h

/-- `usnet_check_connection_timeout`. -/
def usnet_check_connection_timeout (h : Host) (thresh : Int) : Except Fault Host :=
  timeout_loop thresh.toNat h h.ctx.timeout_list.head?

/-- `usnet_add_send_list` on the block a socket leads to, which may have been
    released before. -/
def Host.add_send (h : Host) (id : Nat) : Host :=
  match h.tcb id with
  | some t => h.put id (usnet_add_send_list ⟨h.ctx, t⟩)
  | none =>
    { h with ctx := { h.ctx with
        send_list := h.ctx.send_list ++ [id]
        send_list_cnt := h.ctx.send_list_cnt + 1 } }

/-! ## Section 2: Events -/

/-- What the process does not decide itself. -/
structure Env where
  tx : List Bool
  tcb_cache : Option Nat
  rcvvars_mp : Bool
  sndvars_mp : Bool
  frag_mp : Bool
  ringbuf_cache : Option (Nat → UInt8)
  sndbuf_cache : Option (Nat → UInt8)
  rand : UInt32

/-- A context with other surroundings. -/
def Ctx.within (c : Ctx) (e : Env) : Ctx :=
  { c with
    tx := e.tx, tcb_cache := e.tcb_cache, rcvvars_mp := e.rcvvars_mp
    sndvars_mp := e.sndvars_mp, frag_mp := e.frag_mp, ringbuf_cache := e.ringbuf_cache
    sndbuf_cache := e.sndbuf_cache, rand := e.rand }

inductive HostEvent where
  | surroundings (e : Env)
  | clock (cur_time : UInt32)
  | segment (found : Option Nat) (seg : Segment)
  | rto (id : Nat)
  | connect (id : Nat) (so : Bool) (fd : UInt32) (result : Int)
  | wrote (id : Nat) (fd : UInt32)
  | control (thresh : Int)
  | acks (thresh : Int)
  | data (thresh : Int)
  | release (id : Nat)
  | timeout (thresh : Int)

/-- The block `usnet_tcp_input` finds, or the free slot for a new one. -/
def Host.finds (h : Host) (found : Option Nat) (seg : Segment) : Prop :=
  match found with
  | some id => ∃ t, h.tcb id = some t ∧ addressed t seg
  | none => ∀ id, h.ctx.tcb_cache = some id → h.tcb id = none

/-- One event.  A connection's descriptor is drawn afresh by `usnet_accept`, so no
    two connect events carry the same one. -/
def host_step (h : Host) (ev : HostEvent) (h' : Host) : Prop :=
  match ev with
  | .surroundings e => h' = { h with ctx := h.ctx.within e }
  | .clock cur_time => h' = { h with ctx := { h.ctx with cur_time := cur_time } }
  | .segment found seg =>
    h.finds found seg ∧ ∃ ret c t,
      usnet_tcp_input h.ctx (found.bind h.tcb) seg = .ok (ret, c, t) ∧
      h' = match t with
        | none => { h with ctx := c }
        | some t => h.put t.id ⟨c, t⟩
  | .rto id => (h.tcb id).isSome ∧ h.on id (fun s => effect (usnet_handle_rto s)) = .ok h'
  | .connect id so fd result =>
    (h.tcb id).isSome ∧ h.so_tcb fd = none ∧
    ∃ h₁, h.on id (fun s => .ok (usnet_connect_net_handler s so fd result)) = .ok h₁ ∧
      h' = if so ∧ 0 ≤ result then { h₁ with so_tcb := Function.update h.so_tcb fd (some id) }
        else h₁
  | .wrote id fd =>
    ∃ t buf, h.tcb id = some t ∧ t.sndvar.sndbuf = some buf ∧ buf.fd = fd ∧
      h' = if buf.head = buf.tail then h
        else match h.so_tcb fd with
          | none => h
          | some id => h.add_send id
  | .control thresh => usnet_send_tcp_control_list h thresh = .ok h'
  | .acks thresh => usnet_send_tcp_ack_list h thresh = .ok h'
  | .data thresh => usnet_send_tcp_data_list h thresh = .ok h'
  | .release id => (h.tcb id).isSome ∧ h.on id (fun s => .ok (usnet_release_tcb s)) = .ok h'
  | .timeout thresh => usnet_check_connection_timeout h thresh = .ok h'

/-- No connection and nothing on the lists. -/
structure Host.Fresh (h : Host) : Prop where
  tcb : ∀ id, h.tcb id = none
  so_tcb : ∀ fd, h.so_tcb fd = none
  control : h.ctx.control_list = [] ∧ h.ctx.control_list_cnt = 0
  send : h.ctx.send_list = [] ∧ h.ctx.send_list_cnt = 0
  ack : h.ctx.ack_list = [] ∧ h.ctx.ack_list_cnt = 0
  timeout : h.ctx.timeout_list = [] ∧ h.ctx.timeout_list_cnt = 0

/-! ## Section 3: Runs on given events -/

/-- Whether `finds` holds. -/
def Host.does_find (h : Host) (found : Option Nat) (seg : Segment) : Bool :=
  match found with
  | some id => (h.tcb id).any fun t => addressed t seg
  | none => (h.ctx.tcb_cache.bind h.tcb).isNone

theorem Host.finds_of {h : Host} {found : Option Nat} {seg : Segment}
    (hf : h.does_find found seg = true) : h.finds found seg := by
  cases found with
  | some id =>
    obtain ⟨t, ht, haddr⟩ := Option.any_eq_true _ _ |>.mp hf
    exact ⟨t, ht, haddr⟩
  | none =>
    intro id hid
    simpa [Host.does_find, hid] using hf

/-- What a segment leads to. -/
def segment_next (h : Host) (found : Option Nat) (seg : Segment) : Option Host :=
  match usnet_tcp_input h.ctx (found.bind h.tcb) seg with
  | .error _ => none
  | .ok (_, c, none) => some { h with ctx := c }
  | .ok (_, c, some t) => some (h.put t.id ⟨c, t⟩)

/-- The step an event leads to, where it is possible. -/
def host_next (h : Host) : HostEvent → Option Host
  | .surroundings e => some { h with ctx := h.ctx.within e }
  | .clock cur_time => some { h with ctx := { h.ctx with cur_time := cur_time } }
  | .segment found seg => if h.does_find found seg then segment_next h found seg else none
  | .rto id =>
    if (h.tcb id).isSome then (h.on id fun s => effect (usnet_handle_rto s)).toOption else none
  | .connect id so fd result =>
    if (h.tcb id).isSome ∧ (h.so_tcb fd).isNone then
      match h.on id fun s => .ok (usnet_connect_net_handler s so fd result) with
      | .error _ => none
      | .ok h₁ => some <| if so ∧ 0 ≤ result then
          { h₁ with so_tcb := Function.update h.so_tcb fd (some id) } else h₁
    else none
  | .wrote id fd =>
    match (h.tcb id).bind fun t => t.sndvar.sndbuf with
    | none => none
    | some buf =>
      if buf.fd = fd then
        some <| if buf.head = buf.tail then h
          else match h.so_tcb fd with
            | none => h
            | some id => h.add_send id
      else none
  | .control thresh => (usnet_send_tcp_control_list h thresh).toOption
  | .acks thresh => (usnet_send_tcp_ack_list h thresh).toOption
  | .data thresh => (usnet_send_tcp_data_list h thresh).toOption
  | .release id =>
    if (h.tcb id).isSome then (h.on id fun s => .ok (usnet_release_tcb s)).toOption else none
  | .timeout thresh => (usnet_check_connection_timeout h thresh).toOption

theorem toOption_eq_some {r : Except Fault Host} {h : Host} (hr : r.toOption = some h) :
    r = .ok h := by
  cases r with
  | error e => cases hr
  | ok h' => rw [Option.some.inj hr]

theorem host_next_step {h h' : Host} {ev : HostEvent} (hn : host_next h ev = some h') :
    host_step h ev h' := by
  -- `host_next` fails where a step's conditions do not hold
  cases ev with
  | surroundings e => exact (Option.some.inj hn).symm
  | clock cur_time => exact (Option.some.inj hn).symm
  | segment found seg =>
    simp only [host_next] at hn
    split at hn
    · rename_i hfinds
      refine ⟨Host.finds_of hfinds, ?_⟩
      unfold segment_next at hn
      split at hn
      · cases hn
      · rename_i hin
        exact ⟨_, _, _, hin, (Option.some.inj hn).symm⟩
      · rename_i hin
        exact ⟨_, _, _, hin, (Option.some.inj hn).symm⟩
    · cases hn
  | rto id =>
    simp only [host_next] at hn
    split at hn
    · rename_i hsome
      exact ⟨hsome, toOption_eq_some hn⟩
    · cases hn
  | connect id so fd result =>
    simp only [host_next] at hn
    split at hn
    · rename_i hcond
      split at hn
      · cases hn
      · rename_i h₁ hon
        exact ⟨hcond.1, Option.isNone_iff_eq_none.mp hcond.2, h₁, hon, (Option.some.inj hn).symm⟩
    · cases hn
  | wrote id fd =>
    simp only [host_next] at hn
    split at hn
    · cases hn
    · rename_i buf hbuf
      split at hn
      · rename_i hfd
        obtain ⟨t, ht, htbuf⟩ := Option.bind_eq_some_iff.mp hbuf
        exact ⟨t, buf, ht, htbuf, hfd, (Option.some.inj hn).symm⟩
      · cases hn
  | control thresh => exact toOption_eq_some hn
  | acks thresh => exact toOption_eq_some hn
  | data thresh => exact toOption_eq_some hn
  | release id =>
    simp only [host_next] at hn
    split at hn
    · rename_i hsome
      exact ⟨hsome, toOption_eq_some hn⟩
    · cases hn
  | timeout thresh => exact toOption_eq_some hn

/-- The run on a list of events. -/
def host_run (h : Host) : List HostEvent → Option Host
  | [] => some h
  | ev :: evs => (host_next h ev).bind fun h => host_run h evs

/-- A run on given events, which meet the condition anywhere, reaches what it computes. -/
theorem host_run_reaches {C : Host → HostEvent → Prop} {init : Host → Prop} {h h' : Host}
    {evs : List HostEvent} (hr : RunWhere host_step C init h) (hm : ∀ ev ∈ evs, ∀ h, C h ev)
    (hn : host_run h evs = some h') : RunWhere host_step C init h' := by
  induction evs generalizing h with
  | nil =>
    obtain rfl := Option.some.inj hn
    exact hr
  | cons ev evs ih =>
    obtain ⟨h₁, hnext, hrest⟩ := Option.bind_eq_some_iff.mp hn
    obtain ⟨hc, hm⟩ := List.forall_mem_cons.mp hm
    exact ih (.step hr (hc h) (host_next_step hnext)) hm hrest

end Usnet
