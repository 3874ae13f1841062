import Usnet.Lib.Run
import Usnet.MqLayout

/-! # Registering a listening socket (socket.c, event.c)

    `usnet_send_listen_event` asks the network process to register a listening
    socket and waits for the answer in the queue that also carries the events of
    all connections.  It takes the first message it finds there.
-/

namespace Usnet

open CInt Circular Run

/-! ## Section 1: The messages -/

/-- The two bytes of a `uint16_t` in memory, lowest first. -/
def bytes16 (x : UInt16) : List UInt8 := [x.toUInt8, (x >>> 8).toUInt8]

/-- `struct header` with `TCP_TYPE`. -/
def ev_header (event : UInt8) (length : UInt16) : List UInt8 := [1, event] ++ bytes16 length

/-- What the network process sends to the application.  `request` numbers the
    calls; it is not part of the message. -/
inductive NetEvent where
  | read (fd : UInt32)
  | write (fd : UInt32)
  | accept (fd : UInt32)
  | tcpst (fd state : UInt32)
  | error (fd : UInt32)
  | connect (fd saddr : UInt32) (sport : UInt16) (daddr : UInt32) (dport : UInt16)
  | listen (fd addr : UInt32) (port : UInt16) (result : Int) (request : Nat)
  deriving DecidableEq

/-- The structures of event.h.  A port is followed by two bytes of padding. -/
def NetEvent.bytes : NetEvent → List UInt8
  | .read fd => ev_header 1 8 ++ bytes32 fd
  | .write fd => ev_header 2 8 ++ bytes32 fd
  | .accept fd => ev_header 3 20 ++ bytes32 fd ++ bytes32 0 ++ bytes32 0 ++ bytes32 0
  | .tcpst fd state => ev_header 4 12 ++ bytes32 fd ++ bytes32 state
  | .error fd => ev_header 5 12 ++ bytes32 fd ++ bytes32 0
  | .connect fd saddr sport daddr dport =>
    ev_header 7 28 ++ bytes32 fd ++ bytes32 saddr ++ (bytes16 sport ++ [0, 0]) ++
      bytes32 daddr ++ (bytes16 dport ++ [0, 0]) ++ bytes32 0
  | .listen fd addr port result _ =>
    ev_header 6 20 ++ bytes32 fd ++ bytes32 addr ++ (bytes16 port ++ [0, 0]) ++
      bytes32 (u32 result)

/-- The socket an event belongs to. -/
def NetEvent.fd : NetEvent → UInt32
  | .read fd | .write fd | .accept fd | .tcpst fd _ | .error fd | .connect fd _ _ _ _
  | .listen fd _ _ _ _ => fd

/-- The event as a message of the queue. -/
def NetEvent.msg (ev : NetEvent) : MqMsg := { data := ev.bytes, flow := ev.fd }

/-- What the application sends to the network process. -/
inductive AppEvent where
  | write (fd : UInt32)
  | connect (fd saddr : UInt32) (sport : UInt16) (daddr : UInt32) (dport : UInt16)
  | listen (fd addr : UInt32) (port : UInt16) (request : Nat)
  deriving DecidableEq

/-- `sizeof` of its structure. -/
def AppEvent.size : AppEvent → Nat
  | .write _ => 8
  | .connect _ _ _ _ _ => 28
  | .listen _ _ _ _ => 20

/-- There is room for a message of `len` bytes behind `used` bytes. -/
def mq_room (block_size used len : Nat) : Prop := used + (8 + len) < block_size

instance (block_size used len : Nat) : Decidable (mq_room block_size used len) :=
  inferInstanceAs (Decidable (_ < _))

/-- It is what `usnet_write_mq` asks for. -/
theorem mq_room_iff {block_size head tail : UInt32} {m : MqMsg} {n : Nat}
    (hbs : block_size.toNat < 2 ^ 31) (hhead : head.toNat ≤ block_size.toNat)
    (hn : n < block_size.toNat) (hlen : m.data.length < 2 ^ 31)
    (htail : tail.toNat = advance block_size.toNat head.toNat n) :
    mq_room block_size.toNat n m.data.length ↔
      (usnet_write_mq block_size head tail m).isSome := by
  unfold mq_room
  rcases usnet_write_mq_eq hbs hhead hn hlen htail with ⟨hroom, hnone⟩ | ⟨hroom, next, hsome, -⟩
  · rw [hnone]
    unfold MqMsg.total at hroom
    exact ⟨fun h => by omega, fun h => by cases h⟩
  · rw [hsome]
    exact ⟨fun _ => rfl, fun _ => hroom⟩

/-- The bytes a queue of messages of these sizes occupies. -/
def used_bytes (sizes : List Nat) : Nat := (sizes.map (8 + ·)).sum

/-! ## Section 2: The two ends of the call -/

/-- The `result` of `usnet_listen_net_handler`, where the socket was found or not
    and `usnet_register_socket` returned this. -/
def usnet_listen_net_handler (found : Bool) (ret : Int) : Int :=
  if found = false then -1 else if ret < 0 then -2 else 0

/-- What `usnet_send_listen_event` returns for the message in its buffer. -/
def listen_return (data : List UInt8) : Int :=
  if data.length < 20 then -8 else sint (read32 (data.drop 16))

/-- The result comes through when the message is the answer. -/
theorem listen_return_answer (fd addr : UInt32) (port : UInt16) (found : Bool) (ret : Int)
    (request : Nat) :
    listen_return (NetEvent.listen fd addr port (usnet_listen_net_handler found ret) request).bytes
      = usnet_listen_net_handler found ret := by
  have hlen : (NetEvent.listen fd addr port (usnet_listen_net_handler found ret)
      request).bytes.length = 20 := rfl
  have hdrop : (NetEvent.listen fd addr port (usnet_listen_net_handler found ret)
      request).bytes.drop 16 = bytes32 (u32 (usnet_listen_net_handler found ret)) := rfl
  unfold listen_return
  rw [hlen, hdrop, if_neg (by decide), read32_bytes32]
  unfold usnet_listen_net_handler
  split
  · decide
  · split <;> decide

/-- An event without a `result` field is read as one all the same: of a connect
    event it is the peer's address. -/
theorem listen_return_connect (fd saddr : UInt32) (sport : UInt16) (daddr : UInt32)
    (dport : UInt16) :
    listen_return (NetEvent.connect fd saddr sport daddr dport).bytes = sint daddr := by
  have hlen : (NetEvent.connect fd saddr sport daddr dport).bytes.length = 28 := rfl
  have hdrop : (NetEvent.connect fd saddr sport daddr dport).bytes.drop 16
      = bytes32 daddr ++ (bytes16 dport ++ [0, 0]) ++ bytes32 0 := rfl
  unfold listen_return
  rw [hlen, hdrop, if_neg (by decide)]
  exact congrArg sint (read32_bytes32 daddr)

/-! ## Section 3: The two processes -/

/-- Where the application is: outside the call, asleep on the fifo in
    `usnet_shmmq_dequeue_wait`, or behind the fifo, reading until there is a
    message. -/
inductive ListenPc where
  | idle
  | asleep (request : Nat)
  | reading (request : Nat)
  deriving DecidableEq

/-- The number of the request under way. -/
def ListenPc.request : ListenPc → Option Nat
  | .idle => none
  | .asleep request | .reading request => some request

/-- A call that has returned: its number, its value and the message it took. -/
structure Returned where
  request : Nat
  value : Int
  taken : Option NetEvent

/-- Both queues, the bytes in the fifo, the messages whose byte is still to be
    written, the application, the calls made and what became of them. -/
structure ListenState where
  ev_app2net_mq : List AppEvent
  ev_net2app_mq : List NetEvent
  fifo : Nat
  between : Nat
  pc : ListenPc
  calls : Nat
  results : List (Nat × Int)
  returned : List Returned

/-- The steps of both processes. -/
inductive ListenAction where
  | call (fd addr : UInt32) (port : UInt16)
  | request (ev : AppEvent)
  | take_event
  | wake
  | interrupt
  | reread
  | raise (ev : NetEvent)
  | handle (found : Bool) (ret : Int)
  | signal

section
variable (block_size : Nat)

/-- `usnet_shmmq_enqueue` to the network process; a refusal is not looked at. -/
def send_app (s : ListenState) (ev : AppEvent) : ListenState :=
  if mq_room block_size (used_bytes (s.ev_app2net_mq.map AppEvent.size)) ev.size then
    { s with ev_app2net_mq := s.ev_app2net_mq ++ [ev] }
  else s

/-- `usnet_shmmq_enqueue` to the application, up to the byte for the fifo. -/
def send_net (s : ListenState) (ev : NetEvent) : ListenState :=
  if mq_room block_size (total (s.ev_net2app_mq.map NetEvent.msg)) ev.bytes.length then
    { s with ev_net2app_mq := s.ev_net2app_mq ++ [ev], between := s.between + 1 }
  else s

/-- What the network process does with a message of the application. -/
def usnet_tcpev_net_handler (s : ListenState) (ev : AppEvent) (found : Bool) (ret : Int) :
    ListenState :=
  match ev with
  | .listen fd addr port request =>
    let result := usnet_listen_net_handler found ret
    send_net block_size { s with results := s.results ++ [(request, result)] }
      (.listen fd addr port result request)
  | _ => s

/-- The interleaved steps.  The application sends and takes other messages only
    outside the call, and nothing but the answer is a listen event. -/
inductive ListenStep : ListenState → ListenAction → ListenState → Prop where
  | call {s : ListenState} (fd addr : UInt32) (port : UInt16) : s.pc = .idle →
      ListenStep s (.call fd addr port)
        { send_app block_size s (.listen fd addr port s.calls) with
          pc := .asleep s.calls, calls := s.calls + 1 }
  | request {s : ListenState} {ev : AppEvent} : s.pc = .idle →
      (∀ fd addr port n, ev ≠ .listen fd addr port n) →
      ListenStep s (.request ev) (send_app block_size s ev)
  | take_event {s : ListenState} {ev : NetEvent} {q : List NetEvent} : s.pc = .idle →
      s.ev_net2app_mq = ev :: q → ListenStep s .take_event { s with ev_net2app_mq := q }
  | wake {s : ListenState} {n : Nat} : s.pc = .asleep n → 0 < s.fifo →
      ListenStep s .wake { s with fifo := s.fifo - 1, pc := .reading n }
  | interrupt {s : ListenState} {n : Nat} : s.pc = .asleep n →
      ListenStep s .interrupt
        { s with pc := .idle, returned := s.returned ++ [⟨n, listen_return [], none⟩] }
  | reread {s : ListenState} {n : Nat} {ev : NetEvent} {q : List NetEvent} :
      s.pc = .reading n → s.ev_net2app_mq = ev :: q →
      ListenStep s .reread
        { s with
          ev_net2app_mq := q
          pc := .idle
          returned := s.returned ++ [⟨n, listen_return ev.bytes, some ev⟩] }
  | raise {s : ListenState} {ev : NetEvent} : (∀ fd addr port r n, ev ≠ .listen fd addr port r n) →
      ListenStep s (.raise ev) (send_net block_size s ev)
  | handle {s : ListenState} {ev : AppEvent} {q : List AppEvent} (found : Bool) (ret : Int) :
      s.ev_app2net_mq = ev :: q →
      ListenStep s (.handle found ret)
        (usnet_tcpev_net_handler block_size { s with ev_app2net_mq := q } ev found ret)
  | signal {s : ListenState} : 0 < s.between →
      ListenStep s .signal { s with fifo := s.fifo + 1, between := s.between - 1 }

end

/-- Nothing sent yet. -/
def ListenState.Init (s : ListenState) : Prop :=
  s.ev_app2net_mq = [] ∧ s.ev_net2app_mq = [] ∧ s.fifo = 0 ∧ s.between = 0 ∧ s.pc = .idle ∧
    s.calls = 0 ∧ s.results = [] ∧ s.returned = []

/-! ## Section 4: The answer of a call -/

/-- The message answers the request. -/
def answers (n : Nat) (ev : NetEvent) : Prop :=
  ∃ fd addr port r, ev = .listen fd addr port r n

/-- Every call has returned the result computed for its own request, and the
    message it took was the answer to it. -/
def OwnAnswers (s : ListenState) : Prop :=
  ∀ c ∈ s.returned, (c.request, c.value) ∈ s.results ∧ ∃ ev, c.taken = some ev ∧ answers c.request ev

/-- No event is in the queue when a call begins, none is raised before the answer
    is in the queue, and no signal interrupts the wait. -/
def undisturbed (s : ListenState) : ListenAction → Prop
  | .call _ _ _ => s.ev_net2app_mq = []
  | .raise _ => s.pc.request.isSome → s.ev_net2app_mq ≠ []
  | .interrupt => False
  | _ => True

/-- The request a message carries. -/
def AppEvent.request : AppEvent → Option Nat
  | .listen _ _ _ request => some request
  | _ => none

/-- The requests still to be handled. -/
def ListenState.requests (s : ListenState) : List Nat :=
  s.ev_app2net_mq.filterMap AppEvent.request

/-- The answer to the request under way is the first message in the queue. -/
def answered (s : ListenState) (n : Nat) : Prop :=
  ∃ ev q, s.ev_net2app_mq = ev :: q ∧ answers n ev ∧ (n, listen_return ev.bytes) ∈ s.results ∧
    s.requests = []

/-- The request under way is the only one there is, and the queue is empty until
    it is answered. -/
structure CallInv (s : ListenState) : Prop where
  own : OwnAnswers s
  outside : s.pc.request = none → s.requests = []
  inside : ∀ n, s.pc.request = some n →
    s.ev_net2app_mq = [] ∧ (s.requests = [] ∨ s.requests = [n]) ∨ answered s n

variable {block_size : Nat} {s s' : ListenState}

theorem send_net_kept (s : ListenState) (ev : NetEvent) :
    (send_net block_size s ev).ev_app2net_mq = s.ev_app2net_mq ∧
    (send_net block_size s ev).pc = s.pc ∧
    (send_net block_size s ev).results = s.results ∧
    (send_net block_size s ev).returned = s.returned ∧
    ((send_net block_size s ev).ev_net2app_mq = s.ev_net2app_mq ∨
      (send_net block_size s ev).ev_net2app_mq = s.ev_net2app_mq ++ [ev]) := by
  unfold send_net
  split
  · exact ⟨rfl, rfl, rfl, rfl, .inr rfl⟩
  · exact ⟨rfl, rfl, rfl, rfl, .inl rfl⟩

theorem send_app_kept (s : ListenState) (ev : AppEvent) :
    (send_app block_size s ev).ev_net2app_mq = s.ev_net2app_mq ∧
    (send_app block_size s ev).pc = s.pc ∧
    (send_app block_size s ev).results = s.results ∧
    (send_app block_size s ev).returned = s.returned ∧
    ((send_app block_size s ev).requests = s.requests ∨
      (send_app block_size s ev).requests = s.requests ++ ev.request.toList) := by
  unfold send_app ListenState.requests
  split
  · refine ⟨rfl, rfl, rfl, rfl, .inr ?_⟩
    simp only [List.filterMap_append]
    cases ev <;> rfl
  · exact ⟨rfl, rfl, rfl, rfl, .inl rfl⟩

/-- More results do no harm to the calls that have returned. -/
theorem OwnAnswers.mono (h : OwnAnswers s) (hret : s'.returned = s.returned)
    (hres : ∀ r ∈ s.results, r ∈ s'.results) : OwnAnswers s' := by
  intro c hc
  obtain ⟨hin, htaken⟩ := h c (hret ▸ hc)
  exact ⟨hres _ hin, htaken⟩

/-- The call has ended with this value and this message. -/
theorem OwnAnswers.returns {c : Returned} (h : OwnAnswers s)
    (hret : s'.returned = s.returned ++ [c]) (hres : s'.results = s.results)
    (hin : (c.request, c.value) ∈ s.results)
    (htaken : ∃ ev, c.taken = some ev ∧ answers c.request ev) : OwnAnswers s' := by
  intro d hd
  rw [hres]
  rw [hret, List.mem_append, List.mem_singleton] at hd
  rcases hd with hd | rfl
  · exact h d hd
  · exact ⟨hin, htaken⟩

theorem CallInv.init (h : s.Init) : CallInv s := by
  obtain ⟨happ, hnet, -, -, hpc, -, -, hret⟩ := h
  refine ⟨?_, ?_, ?_⟩
  · intro c hc
    rw [hret] at hc
    cases hc
  · intro _
    unfold ListenState.requests
    rw [happ]
    rfl
  · intro n hn
    rw [hpc] at hn
    cases hn

/-- The network process answers the request, or does something else. -/
theorem CallInv.handle (h : CallInv s) {ev : AppEvent} {q : List AppEvent} (found : Bool)
    (ret : Int) (happ : s.ev_app2net_mq = ev :: q) :
    CallInv (usnet_tcpev_net_handler block_size { s with ev_app2net_mq := q } ev found ret) := by
  have hreq : s.requests = ev.request.toList ++ q.filterMap AppEvent.request := by
    unfold ListenState.requests
    rw [happ]
    cases ev <;> rfl
  have hskip : ev.request = none → CallInv { s with ev_app2net_mq := q } := by
    intro hnone
    have hsame : ({ s with ev_app2net_mq := q } : ListenState).requests = s.requests := by
      rw [hreq, hnone]
      rfl
    refine ⟨h.own.mono rfl fun _ hr => hr, fun hn => hsame.trans (h.outside hn), fun n hn => ?_⟩
    rcases h.inside n hn with ⟨hnet, hr⟩ | ⟨ev', q', hnet, hans, hres, hr⟩
    · exact .inl ⟨hnet, by rwa [hsame]⟩
    · exact .inr ⟨ev', q', hnet, hans, hres, hsame.trans hr⟩
  cases ev with
  | write fd => exact hskip rfl
  | connect fd saddr sport daddr dport => exact hskip rfl
  | listen fd addr port request =>
    -- the only request there can be is the one under way
    obtain ⟨hpc, hq, hnet⟩ : s.pc.request = some request ∧
        q.filterMap AppEvent.request = [] ∧ s.ev_net2app_mq = [] := by
      have hcons : s.requests = request :: q.filterMap AppEvent.request := hreq
      cases hpc : s.pc.request with
      | none =>
        rw [h.outside hpc] at hcons
        cases hcons
      | some n =>
        rcases h.inside n hpc with ⟨hnet, hr | hr⟩ | ⟨_, _, _, _, _, hr⟩
        · rw [hr] at hcons
          cases hcons
        · rw [hr] at hcons
          obtain ⟨rfl, hnil⟩ := List.cons.inj hcons
          exact ⟨rfl, hnil.symm, hnet⟩
        · rw [hr] at hcons
          cases hcons
    unfold usnet_tcpev_net_handler
    simp only
    generalize ht : ({ s with
      ev_app2net_mq := q
      results := s.results ++ [(request, usnet_listen_net_handler found ret)] } : ListenState)
      = t
    obtain ⟨hk₁, hk₂, hk₃, hk₄, hk₅⟩ := @send_net_kept block_size t
      (.listen fd addr port (usnet_listen_net_handler found ret) request)
    generalize send_net block_size t
      (.listen fd addr port (usnet_listen_net_handler found ret) request) = u at *
    have hreqs : u.requests = [] := by
      unfold ListenState.requests
      rw [hk₁, ← ht]
      exact hq
    have hres : u.results = s.results ++ [(request, usnet_listen_net_handler found ret)] := by
      rw [hk₃, ← ht]
    have hupc : u.pc.request = some request := by
      rw [hk₂, ← ht]
      exact hpc
    refine ⟨h.own.mono ?_ ?_, fun _ => hreqs, fun n hn => ?_⟩
    · rw [hk₄, ← ht]
    · intro r hr
      rw [hres]
      exact List.mem_append_left _ hr
    · rw [hupc] at hn
      obtain rfl := Option.some.inj hn
      rcases hk₅ with hk₅ | hk₅
      · left
        rw [hk₅, ← ht]
        exact ⟨hnet, .inl hreqs⟩
      · right
        refine ⟨.listen fd addr port (usnet_listen_net_handler found ret) request, [], ?_,
          ⟨fd, addr, port, _, rfl⟩, ?_, hreqs⟩
        · rw [hk₅, ← ht]
          exact congrArg (· ++ _) hnet
        · rw [listen_return_answer, hres]
          exact List.mem_append_right _ (List.mem_singleton.mpr rfl)

/-- The invariant under steps that do not disturb the call. -/
theorem CallInv.step {a : ListenAction} (h : CallInv s) (hc : undisturbed s a)
    (hs : ListenStep block_size s a s') : CallInv s' := by
  -- a call is outside, or waits with an empty queue, or has its answer in front
  cases hs with
  | call fd addr port hpc =>
    obtain ⟨hk₁, -, hk₃, hk₄, hk₅⟩ := @send_app_kept block_size s
      (.listen fd addr port s.calls)
    have hnil : s.requests = [] := h.outside (by rw [hpc]; rfl)
    refine ⟨h.own.mono hk₄ fun r hr => by rw [hk₃]; exact hr, fun hn => (by cases hn),
      fun n hn => ?_⟩
    obtain rfl := Option.some.inj hn
    refine .inl ⟨hk₁.trans hc, ?_⟩
    rw [hnil] at hk₅
    exact hk₅
  | @request ev hpc hno =>
    obtain ⟨hk₁, hk₂, hk₃, hk₄, hk₅⟩ := @send_app_kept block_size s ev
    have hnone : ev.request = none := by
      cases ev with
      | listen fd addr port n => exact absurd rfl (hno fd addr port n)
      | _ => rfl
    have hreqs : (send_app block_size s ev).requests = s.requests := by
      rcases hk₅ with hk₅ | hk₅
      · exact hk₅
      · rw [hk₅, hnone]
        exact List.append_nil _
    refine ⟨h.own.mono hk₄ fun r hr => by rw [hk₃]; exact hr, fun _ => ?_, fun n hn => ?_⟩
    · rw [hreqs]
      exact h.outside (by rw [hpc]; rfl)
    · rw [hk₂, hpc] at hn
      cases hn
  | @take_event ev q hpc hnet =>
    refine ⟨h.own.mono rfl fun _ hr => hr, h.outside, fun n hn => ?_⟩
    have hidle : s.pc.request = some n := hn
    rw [hpc] at hidle
    cases hidle
  | @wake n hpc hfifo =>
    have hsame : ListenPc.request (.reading n) = s.pc.request := by rw [hpc]; rfl
    exact ⟨h.own.mono rfl fun _ hr => hr, fun hn => (by cases hn),
      fun m hm => h.inside m (hsame ▸ hm)⟩
  -- these two are what disturbs a call
  | interrupt hpc => exact hc.elim
  | @reread n ev q hpc hnet =>
    rcases h.inside n (by rw [hpc]; rfl) with ⟨hempty, -⟩ | ⟨ev', q', hnet', hans, hres, hreqs⟩
    · rw [hempty] at hnet
      cases hnet
    · rw [hnet] at hnet'
      obtain ⟨rfl, rfl⟩ := List.cons.inj hnet'
      exact ⟨h.own.returns rfl rfl hres ⟨ev, rfl, hans⟩, fun _ => hreqs, fun m hm => by cases hm⟩
  | @raise ev hno =>
    obtain ⟨hk₁, hk₂, hk₃, hk₄, hk₅⟩ := @send_net_kept block_size s ev
    have hreqs : (send_net block_size s ev).requests = s.requests := by
      unfold ListenState.requests
      rw [hk₁]
    refine ⟨h.own.mono hk₄ fun r hr => by rw [hk₃]; exact hr, fun hn => ?_, fun n hn => ?_⟩
    · rw [hreqs]
      exact h.outside (hk₂ ▸ hn)
    · have hn' : s.pc.request = some n := hk₂ ▸ hn
      rcases h.inside n hn' with ⟨hempty, -⟩ | ⟨ev', q', hnet, hans, hres, hr⟩
      · exact absurd hempty (hc (by rw [hn']; rfl))
      · -- the answer stays in front
        right
        rcases hk₅ with hk₅ | hk₅
        · exact ⟨ev', q', hk₅.trans hnet, hans, by rw [hk₃]; exact hres, hreqs.trans hr⟩
        · refine ⟨ev', q' ++ [ev], ?_, hans, by rw [hk₃]; exact hres, hreqs.trans hr⟩
          rw [hk₅, hnet]
          rfl
  | handle found ret happ => exact h.handle found ret happ
  | signal hb => exact ⟨h.own.mono rfl fun _ hr => hr, h.outside, h.inside⟩

/-! ## Section 5: A call that is disturbed -/

/-- The call under way has this message in front of it, or has returned without
    its answer. -/
def Disturbed (n : Nat) (ev : NetEvent) (s : ListenState) : Prop :=
  (s.pc.request = some n ∧ ∃ q, s.ev_net2app_mq = ev :: q) ∨
  ∃ c ∈ s.returned, c.request = n ∧ (c.taken = some ev ∨ c.taken = none)

/-- A call that has returned stays returned. -/
theorem ListenStep.returned_kept {a : ListenAction} (hs : ListenStep block_size s a s')
    {c : Returned} (hc : c ∈ s.returned) : c ∈ s'.returned := by
  have hnet : ∀ t ev, (send_net block_size t ev).returned = t.returned :=
    fun t ev => (send_net_kept t ev).2.2.2.1
  have happ : ∀ t ev, (send_app block_size t ev).returned = t.returned :=
    fun t ev => (send_app_kept t ev).2.2.2.1
  cases hs with
  | call fd addr port _ =>
    show c ∈ (send_app block_size s _).returned
    rwa [happ]
  | request _ _ => rwa [happ]
  | take_event _ _ => exact hc
  | wake _ _ => exact hc
  | interrupt _ => exact List.mem_append_left _ hc
  | reread _ _ => exact List.mem_append_left _ hc
  | raise _ => rwa [hnet]
  | @handle ev q found ret _ =>
    cases ev with
    | write fd => exact hc
    | connect fd saddr sport daddr dport => exact hc
    | listen fd addr port request =>
      show c ∈ (send_net block_size _ _).returned
      rw [hnet]
      exact hc
  | signal _ => exact hc

/-- What is behind the first message does not matter to the call. -/
theorem Disturbed.step {n : Nat} {ev : NetEvent} {a : ListenAction} (h : Disturbed n ev s)
    (hs : ListenStep block_size s a s') : Disturbed n ev s' := by
  rcases h with ⟨hpc, q, hnet⟩ | ⟨c, hc, hn, htaken⟩
  · have hidle : s.pc ≠ .idle := fun hi => by
      rw [hi] at hpc
      cases hpc
    -- new messages go behind the one in front
    have hsend : ∀ t : ListenState, t.pc = s.pc → t.ev_net2app_mq = s.ev_net2app_mq →
        ∀ ev', Disturbed n ev (send_net block_size t ev') := by
      intro t htpc htnet ev'
      obtain ⟨-, hk₂, -, -, hk₅⟩ := @send_net_kept block_size t ev'
      refine .inl ⟨by rw [hk₂, htpc, hpc], ?_⟩
      rcases hk₅ with hk₅ | hk₅
      · exact ⟨q, by rw [hk₅, htnet, hnet]⟩
      · refine ⟨q ++ [ev'], ?_⟩
        rw [hk₅, htnet, hnet]
        rfl
    cases hs with
    | call fd addr port hi => exact absurd hi hidle
    | request hi _ => exact absurd hi hidle
    | take_event hi _ => exact absurd hi hidle
    | @wake m hm _ =>
      rw [hm] at hpc
      exact .inl ⟨hpc, q, hnet⟩
    | @interrupt m hm =>
      rw [hm] at hpc
      obtain rfl := Option.some.inj hpc
      exact .inr ⟨_, List.mem_append_right _ (List.mem_singleton.mpr rfl), rfl, .inr rfl⟩
    -- the message in front is taken for the answer
    | @reread m ev' q' hm hnet' =>
      rw [hm] at hpc
      obtain rfl := Option.some.inj hpc
      rw [hnet] at hnet'
      obtain ⟨rfl, rfl⟩ := List.cons.inj hnet'
      exact .inr ⟨_, List.mem_append_right _ (List.mem_singleton.mpr rfl), rfl, .inl rfl⟩
    | @raise ev' _ => exact hsend s rfl rfl ev'
    | @handle ev' q' found ret _ =>
      cases ev' with
      | write fd => exact .inl ⟨hpc, q, hnet⟩
      | connect fd saddr sport daddr dport => exact .inl ⟨hpc, q, hnet⟩
      | listen fd addr port request => exact hsend _ (by rfl) (by rfl) _
    | signal _ => exact .inl ⟨hpc, q, hnet⟩
  · exact .inr ⟨c, hs.returned_kept hc, hn, htaken⟩

/-- In a run in which no call is disturbed every call returns its own result and
    takes no message but its answer.  A call that has a message of another kind in
    front of it returns without its answer, whatever happens next. -/
theorem listen_own_answer (block_size : Nat) :
    (∀ s, RunWhere (ListenStep block_size) undisturbed ListenState.Init s → OwnAnswers s) ∧
    (∀ s n ev q, s.pc.request = some n → s.ev_net2app_mq = ev :: q → ¬ answers n ev →
      ∀ s', Reachable (ListenStep block_size) (· = s) s' →
        s'.pc.request = some n ∨ ¬ OwnAnswers s') := by
  refine ⟨fun s h => ?_, fun s n ev q hpc hnet hno s' h => ?_⟩
  · have hinv := h.invariant (fun _ => CallInv.init) fun _ _ _ hi hc hs => hi.step hc hs
    exact hinv.own
  · have hdis : Disturbed n ev s' := by
      refine h.invariant (fun t ht => ?_) fun _ _ _ hi _ hs => hi.step hs
      rw [ht]
      exact .inl ⟨hpc, q, hnet⟩
    rcases hdis with ⟨hpc', -⟩ | ⟨c, hc, hn, htaken⟩
    · exact .inl hpc'
    · refine .inr fun hown => ?_
      obtain ⟨-, ev', hev', hans⟩ := hown c hc
      rcases htaken with htaken | htaken
      · obtain rfl := Option.some.inj (htaken.symm.trans hev')
        exact hno (hn ▸ hans)
      · rw [htaken] at hev'
        cases hev'

/-- Nothing has been sent. -/
def silent : ListenState :=
  { ev_app2net_mq := [], ev_net2app_mq := [], fifo := 0, between := 0, pc := .idle, calls := 0
    results := [], returned := [] }

theorem silent_init : silent.Init := ⟨rfl, rfl, rfl, rfl, rfl, rfl, rfl, rfl⟩

theorem listen_own_answer_sample : ∃ s : ListenState,
    s.returned = [⟨0, 0, some (.listen 3 0x0100000a 0x5000 0 0)⟩] ∧ OwnAnswers s := by
  have h₀ : RunWhere (ListenStep 4096) undisturbed ListenState.Init silent := .init silent_init
  have h₁ := h₀.next (.call 3 0x0100000a 0x5000 rfl) rfl
  have h₂ := h₁.next (.handle true 0 rfl) trivial
  have h₃ := h₂.next (.signal (by decide)) trivial
  have h₄ := h₃.next (.wake rfl (by decide)) trivial
  have h₅ := h₄.next (.reread rfl rfl) trivial
  exact ⟨_, rfl, (listen_own_answer 4096).1 _ h₅⟩

/-- A connection from 10.0.0.200 has just been announced when the application
    registers another socket: the call takes the announcement and returns the peer's
    address as an error, although the socket was registered. -/
theorem listen_takes_event : ∃ s : ListenState,
    Reachable (ListenStep 4096) ListenState.Init s ∧ s.results = [(0, 0)] ∧
    s.returned = [⟨0, -939524086, some (.connect 1 0x0100000a 0x5000 0xc800000a 0xd204)⟩] ∧
    ¬ OwnAnswers s := by
  have h₀ : Reachable (ListenStep 4096) ListenState.Init silent := .init silent_init
  have h₁ := h₀.next (@ListenStep.raise _ _ (.connect 1 0x0100000a 0x5000 0xc800000a 0xd204) (by simp))
    trivial
  have h₂ := h₁.next (.signal (by decide)) trivial
  have h₃ := h₂.next (.call 3 0x0100000a 0x5000 rfl) trivial
  have h₄ := h₃.next (.handle true 0 rfl) trivial
  have h₅ := h₄.next (.wake rfl (by decide)) trivial
  have h₆ := h₅.next (.reread rfl rfl) trivial
  refine ⟨_, h₆, rfl, rfl, fun hown => ?_⟩
  obtain ⟨hin, -⟩ := hown _ (List.mem_singleton.mpr rfl)
  exact absurd hin (by decide)

end Usnet
