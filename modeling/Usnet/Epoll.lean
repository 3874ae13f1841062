import Usnet.Listen
import Usnet.Sockets

/-! # The event loop of a server (epoll.c, echosvr.c)

    The network process raises events as messages, `usnet_epoll_wait` turns the
    messages into events, and the loop of the sample server accepts a connection
    for every event of its listening socket and calls `handle_fd` for the others.
    An accepted connection is announced to the network process, and its descriptor
    is put on the list of those whose events are reported.
-/

namespace Usnet

open CInt Run

/-! ## Section 1: Watched descriptors -/

def USN_EPOLLIN : UInt32 := 0x001
def USN_EPOLLOUT : UInt32 := 0x004
def USN_EPOLLET : UInt32 := 0x80000000

/-- `struct usn_epoll_event`; of its data the code uses `fd`. -/
structure UsnEpollEvent where
  events : UInt32
  fd : UInt32
  deriving DecidableEq

/-- `struct usn_epoll_fd`. -/
structure UsnEpollFd where
  fd : UInt32
  epollid : Int
  ev : UsnEpollEvent

namespace UsnEpollFd

/-- `usnet_ep_key`. -/
def usnet_ep_key (item : UsnEpollFd) : UInt32 := item.fd

/-- `usnet_ep_eq`. -/
def usnet_ep_eq (item1 item2 : UsnEpollFd) : Bool := item1.fd == item2.fd

/-- `usnet_ep_isempty`. -/
def usnet_ep_isempty (item : UsnEpollFd) : Bool := item.fd == 0

/-- `usnet_ep_setempty`. -/
def usnet_ep_setempty (item : UsnEpollFd) : UsnEpollFd := { item with fd := 0 }

/-- A slot set to zero, with the descriptor it is looked for by. -/
def zero (fd : UInt32) : UsnEpollFd := { fd := fd, epollid := 0, ev := ⟨0, 0⟩ }

end UsnEpollFd

/-- The cache of `usnet_epoll_init`. -/
def usnet_epoll_init : UsnHashbase UsnEpollFd :=
  { hb_time := 10, hb_base := usnet_hashbase_init 10 100, hb_cache := fun _ => .zero 0
    hb_eqfn := UsnEpollFd.usnet_ep_eq, hb_keyfn := UsnEpollFd.usnet_ep_key
    hb_isemptyfn := UsnEpollFd.usnet_ep_isempty, hb_setemptyfn := UsnEpollFd.usnet_ep_setempty }

/-- `usnet_epoll_watch`. -/
def usnet_epoll_watch (epoll_cache : UsnHashbase UsnEpollFd) (fd : UInt32) : Bool :=
  (usnet_cache_search epoll_cache (.zero fd)).isSome

/-- `enum usn_epoll_op`. -/
inductive UsnEpollOp where
  | ctl_add
  | ctl_del
  | ctl_mod
  deriving DecidableEq

/-- `usnet_epoll_ctl`. -/
def usnet_epoll_ctl (epoll_cache : UsnHashbase UsnEpollFd) (epid : Int) (op : UsnEpollOp)
    (fd : UInt32) (ev : UsnEpollEvent) : Int × UsnHashbase UsnEpollFd :=
  match op with
  | .ctl_add =>
    match usnet_cache_insert epoll_cache { fd := fd, epollid := epid, ev := ev } with
    | none => (-1, epoll_cache)
    | some (_, epoll_cache) => (0, epoll_cache)
  | .ctl_mod => (0, epoll_cache)
  | .ctl_del => (0, epoll_cache)

/-- The cache's functions are those above, and an item lies on its path. -/
structure Watching (epoll_cache : UsnHashbase UsnEpollFd) : Prop where
  eqfn : epoll_cache.hb_eqfn = UsnEpollFd.usnet_ep_eq
  keyfn : epoll_cache.hb_keyfn = UsnEpollFd.usnet_ep_key
  isemptyfn : epoll_cache.hb_isemptyfn = UsnEpollFd.usnet_ep_isempty
  placed : ∀ p, (epoll_cache.hb_cache p).fd ≠ 0 → p ∈ epoll_cache.path (epoll_cache.hb_cache p)

theorem usnet_epoll_init_watching : Watching usnet_epoll_init :=
  ⟨rfl, rfl, rfl, fun _ hp => absurd rfl hp⟩

/-- What is in the cache is watched. -/
theorem Watching.watch_iff {epoll_cache : UsnHashbase UsnEpollFd} (h : Watching epoll_cache)
    {fd : UInt32} (hfd : fd ≠ 0) :
    usnet_epoll_watch epoll_cache fd = true ↔ ∃ p, (epoll_cache.hb_cache p).fd = fd := by
  unfold usnet_epoll_watch
  constructor
  · intro hfound
    obtain ⟨p, hp⟩ := Option.isSome_iff_exists.mp hfound
    have heq := (UsnHashbase.of_search hp).2
    rw [h.eqfn, UsnEpollFd.usnet_ep_eq, beq_iff_eq] at heq
    exact ⟨p, heq⟩
  · rintro ⟨p, hp⟩
    by_contra hmiss
    rw [Bool.not_eq_true, Option.isSome_eq_false_iff, Option.isNone_iff_eq_none,
      UsnHashbase.search_eq_none] at hmiss
    have hpath : p ∈ epoll_cache.path (.zero fd) := by
      rw [← @UsnHashbase.path_congr _ epoll_cache (epoll_cache.hb_cache p) (.zero fd) ?_]
      · exact h.placed p (by rwa [hp])
      · rw [h.keyfn, UsnEpollFd.usnet_ep_key, hp]
        rfl
    have hne := hmiss p hpath
    rw [h.eqfn, UsnEpollFd.usnet_ep_eq, hp] at hne
    simp [UsnEpollFd.zero] at hne

/-- Nothing is ever forgotten, and what `USN_EPOLL_CTL_ADD` has put in is watched. -/
theorem Watching.ctl {epoll_cache : UsnHashbase UsnEpollFd} (h : Watching epoll_cache)
    (epid : Int) (op : UsnEpollOp) (fd : UInt32) (ev : UsnEpollEvent) :
    let r := usnet_epoll_ctl epoll_cache epid op fd ev
    Watching r.2 ∧
    (∀ fd', fd' ≠ 0 → usnet_epoll_watch epoll_cache fd' = true → usnet_epoll_watch r.2 fd' = true) ∧
    (op = .ctl_add → r.1 = 0 → fd ≠ 0 → usnet_epoll_watch r.2 fd = true) := by
  intro r
  cases op with
  | ctl_mod => exact ⟨h, fun _ _ hw => hw, fun hop => by cases hop⟩
  | ctl_del => exact ⟨h, fun _ _ hw => hw, fun hop => by cases hop⟩
  | ctl_add =>
    simp only [r, usnet_epoll_ctl]
    cases hins : usnet_cache_insert epoll_cache { fd := fd, epollid := epid, ev := ev } with
    | none => exact ⟨h, fun _ _ hw => hw, fun _ hr => absurd (show (-1 : Int) = 0 from hr) (by decide)⟩
    | some next =>
      obtain ⟨q, epoll_cache'⟩ := next
      obtain ⟨hpath, hempty, rfl⟩ := UsnHashbase.of_insert hins
      rw [h.isemptyfn, UsnEpollFd.usnet_ep_isempty, beq_iff_eq] at hempty
      have hw : Watching (epoll_cache.set q { fd := fd, epollid := epid, ev := ev }) := by
        refine ⟨h.eqfn, h.keyfn, h.isemptyfn, fun p hp => ?_⟩
        by_cases hpq : p = q
        · rw [hpq, UsnHashbase.set_self]
          exact hpath
        · rw [UsnHashbase.set_ne _ _ hpq] at hp ⊢
          exact h.placed p hp
      refine ⟨hw, fun fd' hfd' hwatch => ?_, fun _ _ hfd => ?_⟩
      · -- the slot was empty, so what was there still is
        obtain ⟨p, hp⟩ := (h.watch_iff hfd').mp hwatch
        have hpq : p ≠ q := by
          rintro rfl
          exact hfd' (hp.symm.trans hempty)
        exact (hw.watch_iff hfd').mpr ⟨p, by rw [UsnHashbase.set_ne _ _ hpq, hp]⟩
      · exact (hw.watch_iff hfd).mpr ⟨q, by rw [UsnHashbase.set_self]⟩

/-! ## Section 2: Messages -/

def TCP_TYPE : UInt8 := 1
def USN_READ_EV : UInt8 := 1
def USN_WRITE_EV : UInt8 := 2
def USN_CONNECT_EV : UInt8 := 7

/-- A `uint16_t` in memory, lowest byte first. -/
def read16 (b : List UInt8) : UInt16 :=
  UInt16.ofNat ((b.getD 0 0).toNat + 256 * (b.getD 1 0).toNat)

/-- What `usnet_epoll_wait` works on. -/
structure Worker where
  sock : SockTable
  epoll_cache : UsnHashbase UsnEpollFd

/-- The `switch` of `usnet_epoll_wait` for a message, with the events it writes
    into the array; `none` where `usnet_accept_newconn` leaves one. -/
def epoll_message (w : Worker) (data : List UInt8) : Option (List UsnEpollEvent × Worker) :=
  if data.length < 4 then some ([], w)
  else if data.getD 0 0 ≠ TCP_TYPE then some ([], w)
  else if data.getD 1 0 = USN_READ_EV then
    if data.length < 8 then some ([], w)
    else
      let fd := read32 (data.drop 4)
      if usnet_epoll_watch w.epoll_cache fd = false then some ([], w)
      else some ([⟨USN_EPOLLIN, fd⟩], w)
  else if data.getD 1 0 = USN_WRITE_EV then
    if data.length < 8 then some ([], w)
    else some ([⟨USN_EPOLLOUT, read32 (data.drop 4)⟩], w)
  else if data.getD 1 0 = USN_CONNECT_EV then
    if data.length < 28 then some ([], w)
    else
      let fd := read32 (data.drop 4)
      match w.sock.usnet_accept_newconn fd (read32 (data.drop 8)) (read16 (data.drop 12))
          (read32 (data.drop 16)) (read16 (data.drop 20)) with
      | none => none
      | some (_, sock) => some ([⟨USN_EPOLLIN, fd⟩], { w with sock := sock })
  else some ([], w)

/-- A port comes out as it went in. -/
theorem read16_bytes16 (x : UInt16) (rest : List UInt8) : read16 (bytes16 x ++ rest) = x := by
  have hx := x.toNat_lt
  apply UInt16.toNat_inj.mp
  simp only [read16, bytes16, List.cons_append, List.getD_cons_zero, List.getD_cons_succ,
    UInt16.toNat_ofNat', UInt16.toNat_toUInt8, UInt16.toNat_shiftRight]
  simp only [show (8 : UInt16).toNat % 16 = 8 from rfl, Nat.shiftRight_eq_div_pow]
  omega

/-- What the network process puts into a message, the application reads from it. -/
theorem epoll_message_bytes (w : Worker) (ev : NetEvent) :
    epoll_message w ev.bytes = match ev with
      | .read fd =>
        some (if usnet_epoll_watch w.epoll_cache fd then [⟨USN_EPOLLIN, fd⟩] else [], w)
      | .write fd => some ([⟨USN_EPOLLOUT, fd⟩], w)
      | .connect fd saddr sport daddr dport =>
        (w.sock.usnet_accept_newconn fd saddr sport daddr dport).map fun r =>
          ([⟨USN_EPOLLIN, fd⟩], { w with sock := r.2 })
      | _ => some ([], w) := by
  cases ev with
  | read fd =>
    have hlen : (NetEvent.read fd).bytes.length = 8 := rfl
    have htype : (NetEvent.read fd).bytes.getD 0 0 = TCP_TYPE := rfl
    have hevent : (NetEvent.read fd).bytes.getD 1 0 = USN_READ_EV := rfl
    have hfd : read32 ((NetEvent.read fd).bytes.drop 4) = fd := read32_bytes32 fd
    unfold epoll_message
    rw [hlen, htype, hevent, hfd, if_neg (by decide), if_neg (by decide), if_pos rfl,
      if_neg (by decide)]
    simp only
    cases usnet_epoll_watch w.epoll_cache fd with
    | false => rfl
    | true => rfl
  | write fd =>
    have hfd : read32 ((NetEvent.write fd).bytes.drop 4) = fd := read32_bytes32 fd
    show some ([UsnEpollEvent.mk USN_EPOLLOUT (read32 ((NetEvent.write fd).bytes.drop 4))], w) = _
    rw [hfd]
  | connect fd saddr sport daddr dport =>
    let b := (NetEvent.connect fd saddr sport daddr dport).bytes
    have hfd : read32 (b.drop 4) = fd := read32_bytes32 fd
    have hsaddr : read32 (b.drop 8) = saddr := read32_bytes32 saddr
    have hsport : read16 (b.drop 12) = sport := read16_bytes16 sport _
    have hdaddr : read32 (b.drop 16) = daddr := read32_bytes32 daddr
    have hdport : read16 (b.drop 20) = dport := read16_bytes16 dport _
    show (match w.sock.usnet_accept_newconn (read32 (b.drop 4)) (read32 (b.drop 8))
        (read16 (b.drop 12)) (read32 (b.drop 16)) (read16 (b.drop 20)) with
      | none => none
      | some (_, sock) =>
        some ([UsnEpollEvent.mk USN_EPOLLIN (read32 (b.drop 4))], { w with sock := sock })) = _
    rw [hfd, hsaddr, hsport, hdaddr, hdport]
    simp only
    cases w.sock.usnet_accept_newconn fd saddr sport daddr dport with
    | none => rfl
    | some r => rfl
  | accept fd => rfl
  | tcpst fd state => rfl
  | error fd => rfl
  | listen fd addr port result request => rfl

/-! ## Section 3: The server -/

/-- The four addresses of a connection. -/
abbrev Addresses := UInt32 × UInt16 × UInt32 × UInt16

def UsnSocket.addresses (so : UsnSocket) : Addresses :=
  (so.so_saddr, so.so_sport, so.so_daddr, so.so_dport)

def UsnConnectEv.addresses (ev : UsnConnectEv) : Addresses :=
  (ev.saddr, ev.sport, ev.daddr, ev.dport)

/-- The connection an event announces. -/
def NetEvent.connection : NetEvent → Option Addresses
  | .connect _ saddr sport daddr dport => some (saddr, sport, daddr, dport)
  | _ => none

/-- The descriptor with which an event of a connection is reported. -/
def NetEvent.data_fd : NetEvent → Option UInt32
  | .read fd | .write fd => some fd
  | _ => none

/-- `MAX_EVENTS`. -/
def MAX_EVENTS : Nat := 10

/-- Where the main loop is: before `usnet_epoll_wait`, in its loop with the events
    collected so far, in the loop over the events returned, or between
    `usnet_accept` and `usnet_epoll_ctl`. -/
inductive ServerPc where
  | waiting
  | collecting (cnt : Nat) (events : List UsnEpollEvent)
  | serving (events : List UsnEpollEvent)
  | adding (conn_sock : Int) (events : List UsnEpollEvent)

/-- The events not yet served. -/
def ServerPc.events : ServerPc → List UsnEpollEvent
  | .waiting => []
  | .collecting _ events | .serving events | .adding _ events => events

/-- The server, the queue to it, and how many of the connections it has announced
    the network process knows.  Ghosts are what was raised, what was taken from the
    queue, and the descriptors `handle_fd` was called with. -/
structure Server where
  worker : Worker
  ev_net2app_mq : List NetEvent
  pc : ServerPc
  connected : Nat
  raised : List NetEvent
  taken : List NetEvent
  handled : List UInt32

/-- The steps of both processes; `room` says whether the announcement fits into
    the queue to the network process. -/
inductive ServerAction where
  | raise (ev : NetEvent)
  | connect
  | poll
  | leave
  | take
  | serve (room : Bool)
  | add

/-- The descriptor `usnet_socket` has drawn first. -/
def listen_fd : UInt32 := 1

/-- The two processes. -/
inductive Server.Step : Server → ServerAction → Server → Prop
  | raise {s : Server} (ev : NetEvent) :
      Step s (.raise ev)
        { s with ev_net2app_mq := s.ev_net2app_mq ++ [ev], raised := s.raised ++ [ev] }
  | connect {s : Server} : s.connected < s.worker.sock.ev_app2net_mq.length →
      Step s .connect { s with connected := s.connected + 1 }
  | poll {s : Server} : s.pc = .waiting → Step s .poll { s with pc := .collecting 0 [] }
  | leave {s : Server} {cnt : Nat} {events : List UsnEpollEvent} : s.pc = .collecting cnt events →
      (cnt + 1) % 10000 = 0 ∨ events.length ≥ MAX_EVENTS ∨ s.ev_net2app_mq = [] →
      Step s .leave { s with pc := .serving events }
  | take {s : Server} {cnt : Nat} {events new : List UsnEpollEvent} {ev : NetEvent}
      {q : List NetEvent} {w : Worker} : s.pc = .collecting cnt events →
      ¬ (cnt + 1) % 10000 = 0 → ¬ events.length ≥ MAX_EVENTS → s.ev_net2app_mq = ev :: q →
      epoll_message s.worker ev.bytes = some (new, w) →
      Step s .take
        { s with
          worker := w
          ev_net2app_mq := q
          pc := .collecting (cnt + 1) (events ++ new)
          taken := s.taken ++ [ev] }
  | finish {s : Server} {room : Bool} : s.pc = .serving [] →
      Step s (.serve room) { s with pc := .waiting }
  | accept {s : Server} {e : UsnEpollEvent} {events : List UsnEpollEvent} {room : Bool}
      {conn_sock : Int} {sock : SockTable} : s.pc = .serving (e :: events) → e.fd = listen_fd →
      s.worker.sock.usnet_accept listen_fd room = some (conn_sock, sock) →
      Step s (.serve room)
        { s with worker := { s.worker with sock := sock }, pc := .adding conn_sock events }
  | handle {s : Server} {e : UsnEpollEvent} {events : List UsnEpollEvent} {room : Bool} :
      s.pc = .serving (e :: events) → e.fd ≠ listen_fd →
      Step s (.serve room) { s with pc := .serving events, handled := s.handled ++ [e.fd] }
  | add {s : Server} {conn_sock : Int} {events : List UsnEpollEvent} :
      s.pc = .adding conn_sock events →
      Step s .add
        { s with
          worker := { s.worker with
            epoll_cache := (usnet_epoll_ctl s.worker.epoll_cache 0 .ctl_add (u32 conn_sock)
              ⟨USN_EPOLLIN ||| USN_EPOLLET, u32 conn_sock⟩).2 }
          pc := .serving events }

/-- The calls of `main` before the loop. -/
def setup (port : UInt16) (addr : UInt32) (answer : Int) : List SockCall :=
  [.socket 2 1 0, .bind listen_fd 2 port addr 16, .listen listen_fd true true answer]

/-- The loop is entered after these calls have succeeded. -/
structure Server.Start (s : Server) : Prop where
  setup : ∃ port addr answer, 0 ≤ answer ∧
    SockTable.start.calls (setup port addr answer) = some s.worker.sock
  epoll_cache : s.worker.epoll_cache = usnet_epoll_init
  idle : s.ev_net2app_mq = [] ∧ s.pc = .waiting ∧ s.connected = 0
  ghosts : s.raised = [] ∧ s.taken = [] ∧ s.handled = []

/-- The connections the server has accepted, as it announces them. -/
def Server.accepted (s : Server) : List UsnConnectEv := s.worker.sock.ev_app2net_mq

/-- The connections that have come in. -/
def Server.connections (s : Server) : List Addresses := s.taken.filterMap NetEvent.connection

/-- The network process raises events of connections it knows by their descriptors
    and connections of the listening socket.  There is room for every socket, every
    announcement and every descriptor watched, and the accept queue does not come to
    its end. -/
def Server.served (s : Server) : ServerAction → Prop
  | .raise (.read fd) | .raise (.write fd) => fd ∈ (s.accepted.take s.connected).map (·.fd)
  | .raise (.connect fd _ _ _ _) => fd = listen_fd
  | .raise (.listen _ _ _ _ _) => False
  | .take => (s.ev_net2app_mq.head?.bind NetEvent.connection).isSome →
      s.worker.sock.room ∧ 0 < sint s.worker.sock.g_fd ∧ s.connections.length < SO_DEFAULT_BACKLOG
  | .serve room => room = true
  | .add =>
    match s.pc with
    | .adding conn_sock _ =>
      (usnet_epoll_ctl s.worker.epoll_cache 0 .ctl_add (u32 conn_sock)
        ⟨USN_EPOLLIN ||| USN_EPOLLET, u32 conn_sock⟩).1 = 0
    | _ => True
  | _ => True

/-! ## Section 4: What the calls do to the connections -/

/-- The addresses a descriptor stands for. -/
def SockCtx.peer (ctx : SockCtx) (fd : UInt32) : Option Addresses :=
  (ctx.socket_cache fd).map UsnSocket.addresses

/-- A socket that keeps its addresses is the same to the network process. -/
theorem SockCtx.peer_set (ctx : SockCtx) {fd : UInt32} {so so' : UsnSocket}
    (h : ctx.socket_cache fd = some so) (haddr : so'.addresses = so.addresses) :
    (ctx.set fd so').peer = ctx.peer := by
  funext fd'
  unfold peer
  by_cases hself : fd' = fd
  · rw [hself, SockCtx.set_self, h, Option.map_some, Option.map_some, haddr]
  · rw [SockCtx.set_ne _ _ hself]

theorem SockCtx.peer_new (ctx : SockCtx) (fd : UInt32) (so : UsnSocket) :
    (ctx.set fd so).peer = Function.update ctx.peer fd (some so.addresses) := by
  funext fd'
  unfold peer
  by_cases hself : fd' = fd
  · rw [hself, SockCtx.set_self, Function.update_self]
    rfl
  · rw [SockCtx.set_ne _ _ hself, Function.update_of_ne hself]

/-- A connection gets the descriptor drawn. -/
theorem usnet_accept_newconn_spec {ctx : SockCtx} {fd : UInt32} {so : UsnSocket}
    {queue queue' : BacklogQueue} (hso : ctx.socket_cache fd = some so) (hl : so.listening)
    (hqueue : so.so_backlogq = some queue) (hpush : queue.push ctx.g_fd = some queue')
    (hfree : ctx.socket_cache ctx.g_fd = none) (saddr : UInt32) (sport : UInt16)
    (daddr : UInt32) (dport : UInt16) :
    ∃ ctx', usnet_accept_newconn ctx fd saddr sport daddr dport true
        = some (sint ctx.g_fd, ctx') ∧
      ctx'.g_fd = ctx.g_fd + 1 ∧ ctx'.ev_app2net_mq = ctx.ev_app2net_mq ∧
      ctx'.peer = Function.update ctx.peer ctx.g_fd (some (saddr, sport, daddr, dport)) ∧
      ∃ so', ctx'.socket_cache fd = some so' ∧ so'.listening := by
  have hne : fd ≠ ctx.g_fd := by
    rintro rfl
    cases hso.symm.trans hfree
  let ctx₁ := ({ ctx with g_fd := ctx.g_fd + 1 } : SockCtx).set ctx.g_fd
    (new_socket so ctx.g_fd saddr sport daddr dport)
  have hrun : usnet_accept_newconn ctx fd saddr sport daddr dport true
      = some (sint ctx.g_fd, ctx₁.set fd { so with so_backlogq := some queue' }) := by
    simp only [usnet_accept_newconn, hso, hl, hqueue, hpush, Bool.true_eq_false, if_false, ctx₁]
  have hsame : (ctx₁.set fd { so with so_backlogq := some queue' }).peer = ctx₁.peer := by
    refine @SockCtx.peer_set ctx₁ fd so _ ?_ rfl
    exact (SockCtx.set_ne _ _ hne).trans hso
  refine ⟨_, hrun, rfl, rfl, ?_, _, SockCtx.set_self .., hl⟩
  rw [hsame, SockCtx.peer_new]
  rfl

/-- The connection taken off the queue is announced. -/
theorem usnet_accept_spec {ctx : SockCtx} {fd con_fd : UInt32} {so : UsnSocket}
    {queue queue' : BacklogQueue} {addr : Addresses} (hso : ctx.socket_cache fd = some so)
    (hl : so.listening) (hqueue : so.so_backlogq = some queue)
    (hne : queue.bq_head ≠ queue.bq_tail) (hpop : queue.pop = some (con_fd, queue'))
    (hpeer : ctx.peer con_fd = some addr) :
    ∃ ctx' ev, usnet_accept ctx fd = some (sint con_fd, ctx') ∧
      ctx'.g_fd = ctx.g_fd ∧ ctx'.ev_app2net_mq = ctx.ev_app2net_mq ++ [ev] ∧
      ev.fd = con_fd ∧ ev.addresses = addr ∧ ctx'.peer = ctx.peer ∧
      ctx'.socket_cache = (ctx.set fd { so with so_backlogq := some queue' }).socket_cache := by
  have hsame : (ctx.set fd { so with so_backlogq := some queue' }).peer = ctx.peer :=
    SockCtx.peer_set _ hso rfl
  have hfound := hpeer
  rw [← hsame] at hfound
  obtain ⟨con, hcon, haddr⟩ := Option.map_eq_some_iff.mp hfound
  let ctx₁ := ctx.set fd { so with so_backlogq := some queue' }
  let ev : UsnConnectEv :=
    { fd := con_fd, saddr := con.so_saddr, sport := con.so_sport, daddr := con.so_daddr
      dport := con.so_dport, result := 0 }
  have hrun : usnet_accept ctx fd
      = some (sint con_fd, { ctx₁ with ev_app2net_mq := ctx₁.ev_app2net_mq ++ [ev] }) := by
    simp only [usnet_accept, hso, hl, hqueue, hpop, hcon, Bool.true_eq_false, if_false,
      if_neg hne, ctx₁, ev]
  exact ⟨_, ev, hrun, rfl, rfl, rfl, haddr, hsame, rfl⟩

/-! ## Section 5: The invariant -/

/-- The queue of the listening socket, with the descriptors that have arrived on it. -/
def Server.backlog (s : Server) (arrived : List UInt32) : BacklogRun :=
  { ctx := s.worker.sock.sockets
    arrived := Function.update (fun _ => []) listen_fd arrived
    returned := Function.update (fun _ => []) listen_fd (s.accepted.map (·.fd))
    fault := false }

/-- What is known of a message in the queue. -/
def Server.expected (s : Server) : NetEvent → Prop
  | .read fd | .write fd => fd ∈ s.accepted.map (·.fd)
  | .connect fd _ _ _ _ => fd = listen_fd
  | .listen _ _ _ _ _ => False
  | _ => True

/-- Every connection that has come in has a descriptor of its own and an event that
    is still to be served, or it has been announced; and what has been announced is
    watched before the next call of `usnet_epoll_wait`. -/
structure Server.Inv (arrived : List UInt32) (s : Server) : Prop where
  table : s.worker.sock.Ok
  watching : Watching s.worker.epoll_cache
  backlog : BacklogInv (s.backlog arrived)
  listener : ∃ so, s.worker.sock.sockets.socket_cache listen_fd = some so ∧ so.listening
  own : arrived.Nodup ∧ listen_fd.toNat < s.worker.sock.g_fd.toNat ∧
    ∀ fd ∈ arrived, fd ≠ listen_fd ∧ fd.toNat < s.worker.sock.g_fd.toNat
  peers : arrived.map s.worker.sock.sockets.peer = s.connections.map some
  announced : ∀ ev ∈ s.accepted, s.worker.sock.sockets.peer ev.fd = some ev.addresses
  count : arrived.length = s.accepted.length + (s.pc.events.countP (·.fd = listen_fd))
  watched : ∀ ev ∈ s.accepted, usnet_epoll_watch s.worker.epoll_cache ev.fd = true ∨
    ∃ events, s.pc = .adding (sint ev.fd) events
  queue : ∀ ev ∈ s.ev_net2app_mq, s.expected ev
  fifo : s.raised = s.taken ++ s.ev_net2app_mq
  handled : s.handled ++ (s.pc.events.filter (·.fd ≠ listen_fd)).map (·.fd)
    = s.taken.filterMap NetEvent.data_fd
  array : s.pc.events.length ≤ MAX_EVENTS

namespace Server.Inv

variable {arrived : List UInt32} {s : Server}

/-- The announcements are those of the first that arrived. -/
theorem order (h : s.Inv arrived) : s.accepted.map (·.fd) <+: arrived := by
  simpa [Server.backlog] using h.backlog.order listen_fd

/-- They carry the connections' addresses in the order in which these came in. -/
theorem addresses (h : s.Inv arrived) :
    s.accepted.map UsnConnectEv.addresses <+: s.connections := by
  have hmap := h.order.map s.worker.sock.sockets.peer
  rw [h.peers, List.map_map] at hmap
  have hsome : s.accepted.map (s.worker.sock.sockets.peer ∘ fun ev => ev.fd)
      = (s.accepted.map UsnConnectEv.addresses).map some := by
    rw [List.map_map]
    exact List.map_congr_left h.announced
  rw [hsome] at hmap
  obtain ⟨rest, hrest⟩ := hmap
  obtain ⟨l₁, l₂, hl, h₁, h₂⟩ := List.map_eq_append_iff.mp hrest.symm
  have heq : l₁ = s.accepted.map UsnConnectEv.addresses :=
    List.map_injective_iff.mpr (Option.some_injective _) h₁
  exact ⟨l₂, by rw [hl, heq]⟩

/-- What is announced is the descriptor of a connection. -/
theorem announced_ne (h : s.Inv arrived) {fd : UInt32} (hfd : fd ∈ s.accepted.map (·.fd)) :
    fd ≠ listen_fd := (h.own.2.2 fd (h.order.subset hfd)).1

/-- The network process adds to the queue. -/
theorem raise (h : s.Inv arrived) {ev : NetEvent} (hc : s.served (.raise ev)) :
    Inv arrived
      { s with ev_net2app_mq := s.ev_net2app_mq ++ [ev], raised := s.raised ++ [ev] } := by
  have hexp : s.expected ev := by
    cases ev with
    | read fd => exact List.map_subset _ (List.take_subset ..) hc
    | write fd => exact List.map_subset _ (List.take_subset ..) hc
    | connect fd saddr sport daddr dport => exact hc
    | listen fd addr port result request => exact hc
    | accept fd => trivial
    | tcpst fd state => trivial
    | error fd => trivial
  refine ⟨h.table, h.watching, h.backlog, h.listener, h.own, h.peers, h.announced, h.count,
    h.watched, fun ev' hin => ?_, ?_, h.handled, h.array⟩
  · rcases List.mem_append.mp hin with hin | hin
    · exact h.queue ev' hin
    · rw [List.mem_singleton.mp hin]
      exact hexp
  · rw [h.fifo, List.append_assoc]

/-- Between two calls of `usnet_epoll_ctl` all that is announced is watched. -/
theorem watches (h : s.Inv arrived) (hpc : ∀ conn_sock events, s.pc ≠ .adding conn_sock events)
    {ev : UsnConnectEv} (hin : ev ∈ s.accepted) :
    usnet_epoll_watch s.worker.epoll_cache ev.fd = true := by
  rcases h.watched ev hin with hw | ⟨events, hadd⟩
  · exact hw
  · exact absurd hadd (hpc _ _)

/-- What a message of a known connection is reported as. -/
theorem take_quiet (h : s.Inv arrived) {cnt : Nat} {events new : List UsnEpollEvent}
    {ev : NetEvent} {q : List NetEvent} (hpc : s.pc = .collecting cnt events)
    (hroom : events.length < MAX_EVENTS) (hq : s.ev_net2app_mq = ev :: q)
    (hconn : ev.connection = none) (hnew : new.map (·.fd) = ev.data_fd.toList) :
    Inv arrived
      { s with
        ev_net2app_mq := q, pc := .collecting (cnt + 1) (events ++ new), taken := s.taken ++ [ev] } := by
  have hother : ∀ e ∈ new, e.fd ≠ listen_fd := by
    intro e he
    have hfd : e.fd ∈ ev.data_fd.toList := hnew ▸ List.mem_map_of_mem he
    have hexp := h.queue ev (by rw [hq]; exact List.mem_cons_self ..)
    cases ev with
    | read fd =>
      rw [List.mem_singleton.mp hfd]
      exact h.announced_ne hexp
    | write fd =>
      rw [List.mem_singleton.mp hfd]
      exact h.announced_ne hexp
    | connect fd saddr sport daddr dport => cases hconn
    | listen fd addr port result request => cases hfd
    | accept fd => cases hfd
    | tcpst fd state => cases hfd
    | error fd => cases hfd
  have hone : new.length ≤ 1 := by
    rw [← List.length_map (·.fd), hnew]
    cases ev.data_fd with
    | none => exact Nat.zero_le _
    | some fd => exact Nat.le_refl _
  have hcount := h.count
  have hhandled := h.handled
  rw [hpc] at hcount hhandled
  simp only [ServerPc.events] at hcount hhandled
  refine ⟨h.table, h.watching, h.backlog, h.listener, h.own, ?_, h.announced, ?_, fun ev' hin => ?_,
    fun ev' hin => ?_, ?_, ?_, ?_⟩
  · rw [h.peers]
    simp only [connections, List.filterMap_append, List.filterMap_cons, hconn, List.filterMap_nil,
      List.append_nil]
  · have hzero : new.countP (·.fd = listen_fd) = 0 := by
      rw [List.countP_eq_zero]
      exact fun e he => by simpa using hother e he
    simp only [ServerPc.events, List.countP_append, hzero]
    exact hcount
  · exact .inl (h.watches (fun _ _ hadd => by rw [hpc] at hadd; cases hadd) hin)
  · exact h.queue ev' (by rw [hq]; exact List.mem_cons_of_mem _ hin)
  · rw [h.fifo, hq, List.append_assoc, List.singleton_append]
  · have hall : new.filter (·.fd ≠ listen_fd) = new := by
      rw [List.filter_eq_self]
      exact fun e he => by simpa using hother e he
    have hlast : [ev].filterMap NetEvent.data_fd = ev.data_fd.toList := by
      cases hd : ev.data_fd with
      | none => simp [hd]
      | some fd => simp [hd]
    simp only [ServerPc.events, List.filter_append, hall, List.map_append, hnew,
      List.filterMap_append, hlast, ← hhandled, List.append_assoc]
  · simp only [ServerPc.events, List.length_append]
    omega

/-- As many have arrived as have come in. -/
theorem arrived_length (h : s.Inv arrived) : arrived.length = s.connections.length := by
  simpa using congrArg List.length h.peers

/-- The queue of the listening socket. -/
theorem listening (h : s.Inv arrived) :
    ∃ so queue, s.worker.sock.sockets.socket_cache listen_fd = some so ∧ so.listening ∧
      so.so_backlogq = some queue ∧ QueueInv queue arrived (s.accepted.map (·.fd)) := by
  obtain ⟨so, hso, hl⟩ := h.listener
  obtain ⟨queue, hqueue, hinv⟩ := h.backlog.queue listen_fd so hso hl
  simp only [Server.backlog, Function.update_self] at hinv
  exact ⟨so, queue, hso, hl, hqueue, hinv⟩

/-- A connection gets a descriptor that is in use nowhere. -/
theorem newconn (h : s.Inv arrived) (hroom : s.worker.sock.room)
    (hpos : 0 < sint s.worker.sock.g_fd) (hfew : s.connections.length < SO_DEFAULT_BACKLOG)
    (saddr : UInt32) (sport : UInt16) (daddr : UInt32) (dport : UInt16) :
    ∃ r t', s.worker.sock.usnet_accept_newconn listen_fd saddr sport daddr dport = some (r, t') ∧
      t'.Ok ∧ t'.g_fd.toNat = s.worker.sock.g_fd.toNat + 1 ∧ t'.ev_app2net_mq = s.accepted ∧
      t'.sockets.peer s.worker.sock.g_fd = some (saddr, sport, daddr, dport) ∧
      (∀ fd, fd ≠ s.worker.sock.g_fd → t'.sockets.peer fd = s.worker.sock.sockets.peer fd) ∧
      (∃ so, t'.sockets.socket_cache listen_fd = some so ∧ so.listening) ∧
      BacklogInv { s.backlog (arrived ++ [s.worker.sock.g_fd]) with ctx := t'.sockets } := by
  obtain ⟨so, queue, hso, hl, hqueue, hinv⟩ := h.listening
  have hlen := h.arrived_length
  have hsmall : s.worker.sock.g_fd.toNat < 2 ^ 31 := by
    by_contra hge
    have hneg := sint_of_ge (Nat.le_of_not_lt hge)
    have hlt := s.worker.sock.g_fd.toNat_lt
    omega
  have hzero : s.worker.sock.g_fd ≠ 0 := by
    intro hz
    rw [hz] at hpos
    exact absurd hpos (by decide)
  have hfree : s.worker.sock.sockets.socket_cache s.worker.sock.g_fd = none := by
    rw [Option.eq_none_iff_forall_ne_some]
    intro so' hso'
    obtain ⟨p, hp, -⟩ := (h.table.sockets_iff hzero).mp hso'
    exact absurd (hp ▸ h.table.drawn p) (Nat.lt_irrefl _)
  obtain ⟨queue', hpush, -⟩ := hinv.push (by omega) s.worker.sock.g_fd
  obtain ⟨ctx', hrun, hg, hmq, hpeer, hl'⟩ :=
    usnet_accept_newconn_spec hso hl hqueue hpush hfree saddr sport daddr dport
  -- the same on the table
  obtain ⟨hmap, hok⟩ := @SockTable.Ok.call _ h.table
    (.newconn listen_fd saddr sport daddr dport) ⟨by decide, by omega⟩
  simp only [SockTable.call, SockCtx.call, hroom] at hmap hok
  rw [hrun] at hmap
  obtain ⟨⟨r, t'⟩, hcall, hpair⟩ := Option.map_eq_some_iff.mp hmap
  obtain ⟨rfl, rfl⟩ := Prod.mk.inj hpair
  have hb := @BacklogInv.step _ h.backlog (.newconn listen_fd saddr sport daddr dport true) (by
    intro so' _ _ _
    refine ⟨hpos, hfree, ?_⟩
    simp only [Server.backlog, Function.update_self]
    omega)
  simp only [backlog_step, Server.backlog, hrun] at hb
  rw [@record_of_pos s.worker.sock.sockets.g_fd _ _ hpos, Function.update_self,
    Function.update_idem] at hb
  have hnext := SockTable.g_fd_next (show s.worker.sock.g_fd.toNat + 1 < 2 ^ 32 by omega)
  refine ⟨_, t', hcall, hok _ hcall, (congrArg UInt32.toNat hg).trans hnext, hmq, ?_, fun fd hne => ?_,
    hl', hb⟩
  · rw [hpeer]
    exact Function.update_self ..
  · rw [hpeer]
    exact Function.update_of_ne hne ..

/-- A connection gets a descriptor and an event. -/
theorem take_connect (h : s.Inv arrived) {cnt : Nat} {events : List UsnEpollEvent}
    {saddr daddr : UInt32} {sport dport : UInt16} {q : List NetEvent}
    (hpc : s.pc = .collecting cnt events) (hevents : events.length < MAX_EVENTS)
    (hq : s.ev_net2app_mq = .connect listen_fd saddr sport daddr dport :: q)
    (hroom : s.worker.sock.room) (hpos : 0 < sint s.worker.sock.g_fd)
    (hfew : s.connections.length < SO_DEFAULT_BACKLOG) :
    ∃ w, epoll_message s.worker (NetEvent.connect listen_fd saddr sport daddr dport).bytes
        = some ([⟨USN_EPOLLIN, listen_fd⟩], w) ∧
      Inv (arrived ++ [s.worker.sock.g_fd])
        { s with
          worker := w, ev_net2app_mq := q
          pc := .collecting (cnt + 1) (events ++ [⟨USN_EPOLLIN, listen_fd⟩])
          taken := s.taken ++ [.connect listen_fd saddr sport daddr dport] } := by
  obtain ⟨r, t', hcall, hok, hg, hmq, hself, hother, hl, hb⟩ :=
    h.newconn hroom hpos hfew saddr sport daddr dport
  have hmsg : epoll_message s.worker (NetEvent.connect listen_fd saddr sport daddr dport).bytes
      = some ([⟨USN_EPOLLIN, listen_fd⟩], { s.worker with sock := t' }) := by
    rw [epoll_message_bytes]
    simp only [hcall, Option.map_some]
  have hcount := h.count
  have hhandled := h.handled
  rw [hpc] at hcount hhandled
  simp only [ServerPc.events] at hcount hhandled
  have hlt := h.own.2.1
  have hold : ∀ fd ∈ arrived, t'.sockets.peer fd = s.worker.sock.sockets.peer fd := by
    intro fd hfd
    refine hother fd ?_
    rintro rfl
    exact absurd (h.own.2.2 _ hfd).2 (Nat.lt_irrefl _)
  refine ⟨_, hmsg, hok, h.watching, ?_, hl, ⟨?_, by simp only; omega, fun fd hfd => ?_⟩, ?_,
    fun ev hin => ?_, ?_, fun ev hin => ?_, fun ev hin => ?_, ?_, ?_, ?_⟩
  · simp only [Server.backlog, Server.accepted, hmq] at hb ⊢
    exact hb
  · exact List.nodup_append.mpr ⟨h.own.1, List.nodup_singleton _, fun fd hfd fd' hfd' heq => by
      rw [List.mem_singleton.mp hfd'] at heq
      exact absurd (heq ▸ (h.own.2.2 fd hfd).2) (Nat.lt_irrefl _)⟩
  · simp only
    rcases List.mem_append.mp hfd with hfd | hfd
    · obtain ⟨hne, hlt'⟩ := h.own.2.2 fd hfd
      exact ⟨hne, by omega⟩
    · rw [List.mem_singleton.mp hfd]
      refine ⟨fun heq => ?_, by omega⟩
      rw [heq] at hlt
      exact absurd hlt (Nat.lt_irrefl _)
  · rw [List.map_append, List.map_congr_left hold, h.peers]
    simp only [connections, List.filterMap_append, List.filterMap_cons, NetEvent.connection,
      List.filterMap_nil, List.map_append, List.map_cons, List.map_nil, hself]
  · simp only [Server.accepted, hmq] at hin
    rw [← h.announced ev hin]
    exact hold _ (h.order.subset (List.mem_map_of_mem hin))
  · simp only [ServerPc.events, List.countP_append, Server.accepted, hmq, List.length_append,
      List.length_singleton]
    rw [List.countP_cons_of_pos (by simp)]
    simp only [List.countP_nil, Server.accepted] at hcount ⊢
    omega
  · simp only [Server.accepted, hmq] at hin
    exact .inl (h.watches (fun _ _ hadd => by rw [hpc] at hadd; cases hadd) hin)
  · have hexp := h.queue ev (by rw [hq]; exact List.mem_cons_of_mem _ hin)
    unfold Server.expected Server.accepted at hexp ⊢
    rw [hmq]
    exact hexp
  · rw [h.fifo, hq, List.append_assoc, List.singleton_append]
  · simp only [ServerPc.events, List.filter_append, List.map_append, List.filterMap_append,
      ← hhandled]
    simp [NetEvent.data_fd]
  · simp only [ServerPc.events, List.length_append, List.length_singleton]
    omega

/-- An event of the listening socket finds a connection in the queue. -/
theorem accept_call (h : s.Inv arrived) (hmore : s.accepted.length < arrived.length) :
    ∃ con_fd t' ev, s.worker.sock.usnet_accept listen_fd true = some (sint con_fd, t') ∧
      0 < sint con_fd ∧ t'.Ok ∧ t'.g_fd = s.worker.sock.g_fd ∧ t'.ev_app2net_mq = s.accepted ++ [ev] ∧
      ev.fd = con_fd ∧ t'.sockets.peer ev.fd = some ev.addresses ∧
      t'.sockets.peer = s.worker.sock.sockets.peer ∧
      (∃ so, t'.sockets.socket_cache listen_fd = some so ∧ so.listening) ∧
      BacklogInv { s.backlog arrived with
        ctx := t'.sockets
        returned := Function.update (fun _ => []) listen_fd (s.accepted.map (·.fd) ++ [con_fd]) } := by
  obtain ⟨so, queue, hso, hl, hqueue, hinv⟩ := h.listening
  have hfew := hinv.few
  have hlen : (s.accepted.map (·.fd)).length = s.accepted.length := List.length_map ..
  obtain ⟨con_fd, queue', hcon, hpop, -⟩ := hinv.pop (by omega) (by omega)
  have hne : queue.bq_head ≠ queue.bq_tail := by
    have hhead := hinv.head
    have htail := hinv.tail
    rw [if_neg (by omega)] at hhead
    omega
  have hin : con_fd ∈ arrived := List.mem_of_getElem? hcon
  obtain ⟨hpos, -⟩ := h.backlog.known listen_fd con_fd (by
    simpa only [Server.backlog, Function.update_self] using hin)
  obtain ⟨addr, -, hpeer⟩ : ∃ addr ∈ s.connections, some addr = s.worker.sock.sockets.peer con_fd := by
    have hmem := List.mem_map_of_mem (f := s.worker.sock.sockets.peer) hin
    rw [h.peers] at hmem
    exact List.mem_map.mp hmem
  obtain ⟨ctx', ev, hrun, hg, hmq, hfd, haddr, hsame, hcache⟩ :=
    usnet_accept_spec hso hl hqueue hne hpop hpeer.symm
  -- the same on the table
  obtain ⟨hmap, hok⟩ := @SockTable.Ok.call _ h.table (.accept listen_fd true) ⟨by decide, rfl⟩
  simp only [SockTable.call, SockCtx.call] at hmap hok
  rw [hrun] at hmap
  obtain ⟨⟨r, t'⟩, hcall, hpair⟩ := Option.map_eq_some_iff.mp hmap
  obtain ⟨rfl, rfl⟩ := Prod.mk.inj hpair
  have hb := @BacklogInv.step _ h.backlog (.accept listen_fd) (by
    intro so' _ _
    simp only [Server.backlog, Function.update_self]
    omega)
  simp only [backlog_step, Server.backlog, hrun] at hb
  rw [record_of_pos hpos, Function.update_self, Function.update_idem] at hb
  refine ⟨con_fd, t', ev, hcall, hpos, hok _ hcall, hg, hmq, hfd, ?_, hsame, ?_, hb⟩
  · rw [hsame, hfd, haddr]
    exact hpeer.symm
  · refine ⟨{ so with so_backlogq := some queue' }, ?_, hl⟩
    show (SockTable.sockets t').socket_cache listen_fd = _
    rw [show (SockTable.sockets t').socket_cache = _ from hcache, SockCtx.set_self]

/-- The connection accepted is the next to be watched. -/
theorem accept (h : s.Inv arrived) {e : UsnEpollEvent} {events : List UsnEpollEvent}
    (hpc : s.pc = .serving (e :: events)) (he : e.fd = listen_fd) :
    ∃ conn_sock sock, s.worker.sock.usnet_accept listen_fd true = some (conn_sock, sock) ∧
      Inv arrived
        { s with worker := { s.worker with sock := sock }, pc := .adding conn_sock events } := by
  have hcount := h.count
  have hhandled := h.handled
  have harray := h.array
  rw [hpc] at hcount hhandled harray
  simp only [ServerPc.events] at hcount hhandled harray
  rw [List.countP_cons_of_pos (by simpa using he)] at hcount
  obtain ⟨con_fd, t', ev, hcall, -, hok, hg, hmq, hfd, hev, hpeer, hl, hb⟩ :=
    h.accept_call (by omega)
  refine ⟨_, t', hcall, hok, h.watching, ?_, hl, ?_, ?_, fun ev' hin => ?_, ?_, fun ev' hin => ?_,
    fun ev' hin => ?_, h.fifo, ?_, ?_⟩
  · simp only [Server.backlog, Server.accepted, hmq, List.map_append, List.map_cons, List.map_nil,
      hfd] at hb ⊢
    exact hb
  · simp only [hg]
    exact h.own
  · simp only [hpeer]
    exact h.peers
  · simp only [Server.accepted, hmq] at hin
    rcases List.mem_append.mp hin with hin | hin
    · simp only [hpeer]
      exact h.announced ev' hin
    · rw [List.mem_singleton.mp hin]
      exact hev
  · simp only [ServerPc.events, Server.accepted, hmq, List.length_append, List.length_singleton]
    unfold Server.accepted at hcount
    omega
  · simp only [Server.accepted, hmq] at hin
    rcases List.mem_append.mp hin with hin | hin
    · exact .inl (h.watches (fun _ _ hadd => by rw [hpc] at hadd; cases hadd) hin)
    · rw [List.mem_singleton.mp hin, hfd]
      exact .inr ⟨events, rfl⟩
  · have hexp := h.queue ev' hin
    unfold Server.expected Server.accepted at hexp ⊢
    rw [hmq, List.map_append]
    revert hexp
    cases ev' with
    | read fd => exact fun hexp => List.mem_append_left _ hexp
    | write fd => exact fun hexp => List.mem_append_left _ hexp
    | connect fd saddr sport daddr dport => exact id
    | listen fd addr port result request => exact id
    | accept fd => exact id
    | tcpst fd state => exact id
    | error fd => exact id
  · rw [List.filter_cons_of_neg (by simpa using he)] at hhandled
    exact hhandled
  · simp only [ServerPc.events]
    rw [List.length_cons] at harray
    omega

/-- An event of a connection goes to `handle_fd`. -/
theorem handle (h : s.Inv arrived) {e : UsnEpollEvent} {events : List UsnEpollEvent}
    (hpc : s.pc = .serving (e :: events)) (he : e.fd ≠ listen_fd) :
    Inv arrived { s with pc := .serving events, handled := s.handled ++ [e.fd] } := by
  have hcount := h.count
  have hhandled := h.handled
  have harray := h.array
  rw [hpc] at hcount hhandled harray
  simp only [ServerPc.events] at hcount hhandled harray
  rw [List.countP_cons_of_neg (by simpa using he)] at hcount
  rw [List.filter_cons_of_pos (by simpa using he), List.map_cons] at hhandled
  refine ⟨h.table, h.watching, h.backlog, h.listener, h.own, h.peers, h.announced, hcount,
    fun ev hin => ?_, h.queue, h.fifo, ?_, ?_⟩
  · exact .inl (h.watches (fun _ _ hadd => by rw [hpc] at hadd; cases hadd) hin)
  · simp only [ServerPc.events, List.append_assoc, List.singleton_append]
    exact hhandled
  · simp only [ServerPc.events]
    rw [List.length_cons] at harray
    omega

/-- The place in the loop changes, and the events at it do not. -/
theorem move (h : s.Inv arrived) {pc : ServerPc} (hevents : pc.events = s.pc.events)
    (hpc : ∀ conn_sock events, s.pc ≠ .adding conn_sock events) :
    Inv arrived { s with pc := pc } := by
  refine ⟨h.table, h.watching, h.backlog, h.listener, h.own, h.peers, h.announced, ?_,
    fun ev hin => .inl (h.watches hpc hin), h.queue, h.fifo, ?_, ?_⟩
  · simp only [hevents]
    exact h.count
  · simp only [hevents]
    exact h.handled
  · simp only [hevents]
    exact h.array

/-- The descriptor is put on the list before the loop goes on. -/
theorem add (h : s.Inv arrived) {conn_sock : Int} {events : List UsnEpollEvent} (ev : UsnEpollEvent)
    (hpc : s.pc = .adding conn_sock events)
    (hroom : (usnet_epoll_ctl s.worker.epoll_cache 0 .ctl_add (u32 conn_sock) ev).1 = 0) :
    Inv arrived
      { s with
        worker := { s.worker with
          epoll_cache := (usnet_epoll_ctl s.worker.epoll_cache 0 .ctl_add (u32 conn_sock) ev).2 }
        pc := .serving events } := by
  have hcount := h.count
  have hhandled := h.handled
  have harray := h.array
  rw [hpc] at hcount hhandled harray
  obtain ⟨hw, hkeep, hnew⟩ := h.watching.ctl 0 .ctl_add (u32 conn_sock) ev
  refine ⟨h.table, hw, h.backlog, h.listener, h.own, h.peers, h.announced, hcount,
    fun ev' hin => .inl ?_, h.queue, h.fifo, hhandled, harray⟩
  -- descriptors of connections are positive
  obtain ⟨hpos, -⟩ := h.backlog.known listen_fd ev'.fd (by
    simp only [Server.backlog, Function.update_self]
    exact h.order.subset (List.mem_map_of_mem hin))
  have hne : ev'.fd ≠ 0 := by
    intro hz
    rw [hz] at hpos
    exact absurd hpos (by decide)
  rcases h.watched ev' hin with hwatch | ⟨events', hadd⟩
  · exact hkeep _ hne hwatch
  · rw [hpc] at hadd
    obtain ⟨rfl, -⟩ := ServerPc.adding.inj hadd
    rw [u32_sint] at hnew hroom ⊢
    exact hnew rfl hroom hne

/-- The next message of the queue. -/
theorem take (h : s.Inv arrived) {cnt : Nat} {events : List UsnEpollEvent} {ev : NetEvent}
    {q : List NetEvent} (hpc : s.pc = .collecting cnt events) (hevents : events.length < MAX_EVENTS)
    (hq : s.ev_net2app_mq = ev :: q) (hc : s.served .take) :
    ∃ new w arrived', epoll_message s.worker ev.bytes = some (new, w) ∧
      Inv arrived'
        { s with
          worker := w, ev_net2app_mq := q, pc := .collecting (cnt + 1) (events ++ new)
          taken := s.taken ++ [ev] } := by
  have hexp := h.queue ev (by rw [hq]; exact List.mem_cons_self ..)
  have hquiet : ∀ new : List UsnEpollEvent, ev.connection = none →
      new.map (·.fd) = ev.data_fd.toList → epoll_message s.worker ev.bytes = some (new, s.worker) →
      ∃ new w arrived', epoll_message s.worker ev.bytes = some (new, w) ∧
        Inv arrived'
          { s with
            worker := w, ev_net2app_mq := q, pc := .collecting (cnt + 1) (events ++ new)
            taken := s.taken ++ [ev] } :=
    fun new hconn hnew hmsg => ⟨new, s.worker, arrived, hmsg, h.take_quiet hpc hevents hq hconn hnew⟩
  cases ev with
  | read fd =>
    -- it was announced, and this is not the moment before it is watched
    obtain ⟨ev, hin, rfl⟩ := List.mem_map.mp hexp
    have hwatch := h.watches (fun _ _ hadd => by rw [hpc] at hadd; cases hadd) hin
    refine hquiet [⟨USN_EPOLLIN, ev.fd⟩] rfl rfl ?_
    rw [epoll_message_bytes]
    simp only [hwatch, if_true]
  | write fd => exact hquiet [⟨USN_EPOLLOUT, fd⟩] rfl rfl (epoll_message_bytes ..)
  | connect fd saddr sport daddr dport =>
    obtain rfl : fd = listen_fd := hexp
    obtain ⟨hroom, hpos, hfew⟩ := hc (by rw [hq]; rfl)
    obtain ⟨w, hmsg, hinv⟩ := h.take_connect hpc hevents hq hroom hpos hfew
    exact ⟨_, w, _, hmsg, hinv⟩
  | listen fd addr port result request => exact hexp.elim
  | accept fd => exact hquiet [] rfl rfl (epoll_message_bytes ..)
  | tcpst fd state => exact hquiet [] rfl rfl (epoll_message_bytes ..)
  | error fd => exact hquiet [] rfl rfl (epoll_message_bytes ..)

theorem step {s' : Server} {a : ServerAction} (h : s.Inv arrived) (hc : s.served a)
    (hs : Step s a s') : ∃ arrived', s'.Inv arrived' := by
  cases hs with
  | raise ev => exact ⟨arrived, h.raise hc⟩
  | connect hmore =>
    exact ⟨arrived, h.table, h.watching, h.backlog, h.listener, h.own, h.peers, h.announced,
      h.count, h.watched, h.queue, h.fifo, h.handled, h.array⟩
  | poll hpc =>
    refine ⟨arrived, h.move ?_ (fun _ _ hadd => by rw [hpc] at hadd; cases hadd)⟩
    rw [hpc]
    rfl
  | leave hpc hwhy =>
    refine ⟨arrived, h.move ?_ (fun _ _ hadd => by rw [hpc] at hadd; cases hadd)⟩
    rw [hpc]
    rfl
  | take hpc _ hevents hq hmsg =>
    obtain ⟨new, w, arrived', hmsg', hinv⟩ := h.take hpc (Nat.lt_of_not_le hevents) hq hc
    rw [hmsg] at hmsg'
    obtain ⟨rfl, rfl⟩ := Prod.mk.inj (Option.some.inj hmsg')
    exact ⟨arrived', hinv⟩
  | finish hpc =>
    refine ⟨arrived, h.move ?_ (fun _ _ hadd => by rw [hpc] at hadd; cases hadd)⟩
    rw [hpc]
    rfl
  | accept hpc he hcall =>
    obtain ⟨conn_sock, sock, hcall', hinv⟩ := h.accept hpc he
    obtain rfl : _ = true := hc
    rw [hcall] at hcall'
    obtain ⟨rfl, rfl⟩ := Prod.mk.inj (Option.some.inj hcall')
    exact ⟨arrived, hinv⟩
  | handle hpc he => exact ⟨arrived, h.handle hpc he⟩
  | add hpc =>
    simp only [served, hpc] at hc
    exact ⟨arrived, h.add _ hpc hc⟩

end Server.Inv

/-! ## Section 6: Runs -/

/-- A call that has succeeded, on the map of sockets. -/
theorem SockTable.Ok.call_sockets {t t' : SockTable} {c : SockCall} {r : Int} (h : t.Ok)
    (hc : t.fits c) (hcall : t.call c = some (r, t')) :
    t'.Ok ∧ t.sockets.call t.room c = some (r, t'.sockets) := by
  obtain ⟨hmap, hok⟩ := h.call hc
  rw [hcall] at hmap
  exact ⟨hok _ hcall, hmap.symm⟩

/-- The calls of `main` leave one socket, which listens. -/
theorem setup_sockets {port : UInt16} {addr : UInt32} {answer : Int} {t : SockTable}
    (hanswer : 0 ≤ answer) (h : SockTable.start.calls (setup port addr answer) = some t) :
    t.Ok ∧ t.g_fd = 2 ∧ t.ev_app2net_mq = [] ∧
    ∃ so queue, so.listening ∧ so.so_backlogq = some queue ∧ queue.Fresh ∧
      t.sockets.socket_cache = Function.update (fun _ => none) listen_fd (some so) := by
  obtain ⟨hfits₁, r₁, t₁, hcall₁, hrest⟩ := SockTable.calls_cons h
  obtain ⟨hfits₂, r₂, t₂, hcall₂, hrest⟩ := SockTable.calls_cons hrest
  obtain ⟨hfits₃, r₃, t₃, hcall₃, hrest⟩ := SockTable.calls_cons hrest
  obtain rfl : t₃ = t := Option.some.inj hrest
  have hroom : SockTable.start.room = true := SockTable.start_ok.room_of_few (by decide)
  have hempty : SockTable.start.sockets.socket_cache = fun _ => none := by
    funext fd
    by_cases hfd : fd = 0
    · rw [hfd]
      rfl
    · rw [Option.eq_none_iff_forall_ne_some]
      intro so hso
      obtain ⟨p, hp, -⟩ := (SockTable.start_ok.sockets_iff hfd).mp hso
      exact hfd hp.symm
  obtain ⟨hok₁, hmap₁⟩ := SockTable.start_ok.call_sockets hfits₁ hcall₁
  obtain ⟨hok₂, hmap₂⟩ := hok₁.call_sockets hfits₂ hcall₂
  obtain ⟨hok₃, hmap₃⟩ := hok₂.call_sockets hfits₃ hcall₃
  -- one socket, which gets its address and then its queue
  simp only [SockCtx.call, SockCtx.usnet_socket, hroom, Bool.true_eq_false, if_false] at hmap₁
  have h₁ := (Prod.mk.inj (Option.some.inj hmap₁)).2
  rw [← h₁] at hmap₂
  simp only [SockCtx.call, SockCtx.usnet_bind, SockCtx.set, listen_fd,
    show SockTable.start.sockets.g_fd = 1 from rfl, Function.update_self, ne_eq, not_true_eq_false,
    if_false] at hmap₂
  have h₂ := (Prod.mk.inj (Option.some.inj hmap₂)).2
  rw [← h₂] at hmap₃
  simp only [SockCtx.call, usnet_listen, SockCtx.set, listen_fd, Function.update_self,
    Bool.true_eq_false, if_false, if_neg (Int.not_lt.mpr hanswer), Function.update_idem,
    hempty] at hmap₃
  have h₃ := (Prod.mk.inj (Option.some.inj hmap₃)).2
  refine ⟨hok₃, congrArg SockCtx.g_fd h₃.symm, congrArg SockCtx.ev_app2net_mq h₃.symm, _, _, ?_, rfl,
    ?_, congrArg SockCtx.socket_cache h₃.symm⟩
  · exact (by decide : ((0 ||| SO_BIND ||| SO_ACCEPT) &&& SO_ACCEPT != 0) = true)
  · exact ⟨rfl, rfl, rfl⟩

namespace Server

variable {s : Server}

theorem Inv.start (h : s.Start) : s.Inv [] := by
  obtain ⟨⟨port, addr, answer, hanswer, hcalls⟩, hcache, ⟨hqueue, hpc, -⟩, hraised, htaken,
    hhandled⟩ := h
  obtain ⟨hok, hg, hmq, so, queue, hl, hq, hfresh, hmap⟩ := setup_sockets hanswer hcalls
  have haccepted : s.accepted = [] := hmq
  have hlisten : s.worker.sock.sockets.socket_cache listen_fd = some so := by
    rw [hmap, Function.update_self]
  refine ⟨hok, by rw [hcache]; exact usnet_epoll_init_watching, ?_, ⟨so, hlisten, hl⟩,
    ⟨List.nodup_nil, by rw [hg]; decide, fun fd hfd => by cases hfd⟩, ?_, ?_, ?_, ?_, ?_, ?_, ?_, ?_⟩
  · have hghost : Function.update (fun _ => []) listen_fd [] = fun _ : UInt32 => ([] : List UInt32) :=
      Function.update_eq_self ..
    refine BacklogInv.fresh ⟨⟨hghost, ?_, rfl⟩, fun fd so' hso' _ => ?_⟩
    · simp only [Server.backlog, haccepted]
      exact hghost
    · simp only [Server.backlog, hmap] at hso'
      by_cases hfd : fd = listen_fd
      · rw [hfd, Function.update_self] at hso'
        obtain rfl := Option.some.inj hso'
        exact ⟨queue, hq, hfresh⟩
      · rw [Function.update_of_ne hfd] at hso'
        cases hso'
  · rw [connections, htaken]
    rfl
  · rw [haccepted]
    exact fun ev hin => by cases hin
  · rw [haccepted, hpc]
    rfl
  · rw [haccepted]
    exact fun ev hin => by cases hin
  · rw [hqueue]
    exact fun ev hin => by cases hin
  · rw [hraised, htaken, hqueue]
    rfl
  · rw [hhandled, hpc, htaken]
    rfl
  · rw [hpc]
    exact Nat.zero_le _

/-- What the server does for its connections: messages are neither lost nor
    repeated; no more events are collected than fit the array; every event of a
    connection goes to `handle_fd`, in order; connections are accepted and announced
    in the order in which they came in, each under a descriptor of its own; none is
    left when the loop waits; and no message or event leads outside an array. -/
structure Serves (s : Server) : Prop where
  queue : s.raised = s.taken ++ s.ev_net2app_mq
  array : s.pc.events.length ≤ MAX_EVENTS
  handled : s.handled ++ (s.pc.events.filter (·.fd ≠ listen_fd)).map (·.fd)
    = s.taken.filterMap NetEvent.data_fd
  accepted : s.accepted.map UsnConnectEv.addresses <+: s.connections
  own : (s.accepted.map (·.fd)).Nodup ∧ ∀ ev ∈ s.accepted, ev.fd ≠ listen_fd ∧ 0 < sint ev.fd
  idle : s.pc = .waiting →
    s.accepted.map UsnConnectEv.addresses = s.connections ∧
    s.handled = s.taken.filterMap NetEvent.data_fd
  reads : ∀ cnt events ev q, s.pc = .collecting cnt events → events.length < MAX_EVENTS →
    s.ev_net2app_mq = ev :: q → s.served .take → (epoll_message s.worker ev.bytes).isSome
  accepts : ∀ e events, s.pc = .serving (e :: events) → e.fd = listen_fd →
    ∃ conn_sock sock, s.worker.sock.usnet_accept listen_fd true = some (conn_sock, sock) ∧
      0 < conn_sock

theorem Inv.serves {arrived : List UInt32} (h : s.Inv arrived) : s.Serves := by
  refine ⟨h.fifo, h.array, h.handled, h.addresses, ⟨h.own.1.sublist h.order.sublist, fun ev hin => ?_⟩,
    fun hpc => ?_, fun cnt events ev q hpc hevents hq hc => ?_, fun e events hpc he => ?_⟩
  · have hfd := List.mem_map_of_mem (f := fun ev : UsnConnectEv => ev.fd) hin
    obtain ⟨hpos, -⟩ := h.backlog.known listen_fd ev.fd (by
      simp only [Server.backlog, Function.update_self]
      exact h.order.subset hfd)
    exact ⟨h.announced_ne hfd, hpos⟩
  · have hcount := h.count
    have hhandled := h.handled
    rw [hpc] at hcount hhandled
    simp only [ServerPc.events, List.countP_nil, List.filter_nil, List.map_nil, List.append_nil]
      at hcount hhandled
    refine ⟨h.addresses.eq_of_length ?_, hhandled⟩
    rw [List.length_map, ← h.arrived_length]
    omega
  · obtain ⟨new, w, -, hmsg, -⟩ := h.take hpc hevents hq hc
    rw [hmsg]
    rfl
  · have hcount := h.count
    rw [hpc] at hcount
    simp only [ServerPc.events] at hcount
    rw [List.countP_cons_of_pos (by simpa using he)] at hcount
    obtain ⟨con_fd, t', -, hcall, hpos, -⟩ := h.accept_call (by omega)
    exact ⟨_, t', hcall, hpos⟩

/-- In every interleaving of the network process and the server, as long as there is
    room, the server serves. -/
theorem server_serves (h : RunWhere Step served Start s) : s.Serves := by
  have hinv : ∃ arrived, s.Inv arrived := by
    refine RunWhere.invariant (I := fun s => ∃ arrived, s.Inv arrived) ?_ ?_ h
    · exact fun s hs => ⟨[], Inv.start hs⟩
    · rintro s a s' ⟨arrived, hi⟩ hc hs
      exact hi.step hc hs
  obtain ⟨arrived, hinv⟩ := hinv
  exact hinv.serves

/-! ## Section 7: Runs on given actions -/

/-- The step an action leads to, where it is possible. -/
def next (s : Server) : ServerAction → Option Server
  | .raise ev =>
    some { s with ev_net2app_mq := s.ev_net2app_mq ++ [ev], raised := s.raised ++ [ev] }
  | .connect =>
    if s.connected < s.worker.sock.ev_app2net_mq.length then
      some { s with connected := s.connected + 1 }
    else none
  | .poll =>
    match s.pc with
    | .waiting => some { s with pc := .collecting 0 [] }
    | _ => none
  | .leave =>
    match s.pc with
    | .collecting cnt events =>
      if (cnt + 1) % 10000 = 0 ∨ events.length ≥ MAX_EVENTS ∨ s.ev_net2app_mq.length = 0 then
        some { s with pc := .serving events }
      else none
    | _ => none
  | .take =>
    match s.pc, s.ev_net2app_mq with
    | .collecting cnt events, ev :: q =>
      if (cnt + 1) % 10000 = 0 ∨ events.length ≥ MAX_EVENTS then none
      else (epoll_message s.worker ev.bytes).map fun r => { s with
        worker := r.2, ev_net2app_mq := q, pc := .collecting (cnt + 1) (events ++ r.1)
        taken := s.taken ++ [ev] }
    | _, _ => none
  | .serve room =>
    match s.pc with
    | .serving [] => some { s with pc := .waiting }
    | .serving (e :: events) =>
      if e.fd = listen_fd then
        (s.worker.sock.usnet_accept listen_fd room).map fun r => { s with
          worker := { s.worker with sock := r.2 }, pc := .adding r.1 events }
      else some { s with pc := .serving events, handled := s.handled ++ [e.fd] }
    | _ => none
  | .add =>
    match s.pc with
    | .adding conn_sock events =>
      some { s with
        worker := { s.worker with
          epoll_cache := (usnet_epoll_ctl s.worker.epoll_cache 0 .ctl_add (u32 conn_sock)
            ⟨USN_EPOLLIN ||| USN_EPOLLET, u32 conn_sock⟩).2 }
        pc := .serving events }
    | _ => none

theorem next_step {s' : Server} {a : ServerAction} (h : s.next a = some s') : Step s a s' := by
  cases a with
  | raise ev => exact Option.some.inj h ▸ .raise ev
  | connect =>
    simp only [next] at h
    split at h
    · rename_i hmore
      exact Option.some.inj h ▸ .connect hmore
    · cases h
  | poll =>
    simp only [next] at h
    split at h
    · rename_i hpc
      exact Option.some.inj h ▸ .poll hpc
    · cases h
  | leave =>
    simp only [next] at h
    split at h
    · rename_i hpc
      split at h
      · rename_i hwhy
        rw [List.length_eq_zero_iff] at hwhy
        exact Option.some.inj h ▸ .leave hpc hwhy
      · cases h
    · cases h
  | take =>
    simp only [next] at h
    split at h
    · rename_i hpc hq
      split at h
      · cases h
      · rename_i hgo
        obtain ⟨⟨new, w⟩, hmsg, rfl⟩ := Option.map_eq_some_iff.mp h
        exact .take hpc (fun hmod => hgo (.inl hmod)) (fun hfull => hgo (.inr hfull)) hq hmsg
    · cases h
  | serve room =>
    simp only [next] at h
    split at h
    · rename_i hpc
      exact Option.some.inj h ▸ .finish hpc
    · rename_i hpc
      split at h
      · rename_i he
        obtain ⟨⟨conn_sock, sock⟩, hcall, rfl⟩ := Option.map_eq_some_iff.mp h
        exact .accept hpc he hcall
      · rename_i he
        exact Option.some.inj h ▸ .handle hpc he
    · cases h
  | add =>
    simp only [next] at h
    split at h
    · rename_i hpc
      exact Option.some.inj h ▸ .add hpc
    · cases h

instance : (s : Server) → (a : ServerAction) → Decidable (s.served a)
  | _, .raise (.read _) => inferInstanceAs (Decidable (_ ∈ _))
  | _, .raise (.write _) => inferInstanceAs (Decidable (_ ∈ _))
  | _, .raise (.connect _ _ _ _ _) => inferInstanceAs (Decidable (_ = _))
  | _, .raise (.listen _ _ _ _ _) => inferInstanceAs (Decidable False)
  | _, .raise (.accept _) => inferInstanceAs (Decidable True)
  | _, .raise (.tcpst _ _) => inferInstanceAs (Decidable True)
  | _, .raise (.error _) => inferInstanceAs (Decidable True)
  | _, .connect => inferInstanceAs (Decidable True)
  | _, .poll => inferInstanceAs (Decidable True)
  | _, .leave => inferInstanceAs (Decidable True)
  | _, .take => inferInstanceAs (Decidable (_ → _))
  | _, .serve _ => inferInstanceAs (Decidable (_ = _))
  | ⟨_, _, .waiting, _, _, _, _⟩, .add => inferInstanceAs (Decidable True)
  | ⟨_, _, .collecting _ _, _, _, _, _⟩, .add => inferInstanceAs (Decidable True)
  | ⟨_, _, .serving _, _, _, _, _⟩, .add => inferInstanceAs (Decidable True)
  | ⟨_, _, .adding _ _, _, _, _, _⟩, .add => inferInstanceAs (Decidable (_ = _))

/-- The actions one after the other, as long as there is room. -/
def run (s : Server) : List ServerAction → Option Server
  | [] => some s
  | a :: as => if s.served a then (s.next a).bind fun s => s.run as else none

theorem run_reaches {s' : Server} {as : List ServerAction} (h : RunWhere Step served Start s)
    (has : s.run as = some s') : RunWhere Step served Start s' := by
  induction as generalizing s with
  | nil => exact Option.some.inj has ▸ h
  | cons a as ih =>
    rw [run] at has
    split at has
    · rename_i hc
      obtain ⟨s₁, hs₁, hrest⟩ := Option.bind_eq_some_iff.mp has
      exact ih (h.next (next_step hs₁) hc) hrest
    · cases has

/-- A connection comes in, is accepted, and has something to read. -/
def one_client : List ServerAction :=
  [.raise (.connect listen_fd 0x0200000a 0xd204 0x0100000a 0x5000), .poll, .take, .leave,
    .serve true, .add, .connect, .raise (.read 2), .serve true, .poll, .take, .leave, .serve true,
    .serve true]

/-- The server in front of its loop. -/
def started (sock : SockTable) : Server :=
  { worker := { sock := sock, epoll_cache := usnet_epoll_init }, ev_net2app_mq := [], pc := .waiting
    connected := 0, raised := [], taken := [], handled := [] }

theorem server_serves_one : ∃ s : Server, s.handled = [2] ∧ s.Serves := by
  have hrun : ((SockTable.start.calls (setup 0x1b8a 0x020a0a0a 0)).bind fun sock =>
      ((started sock).run one_client).map handled) = some [2] := by
    decide +kernel
  obtain ⟨sock, hsock, hrest⟩ := Option.bind_eq_some_iff.mp hrun
  obtain ⟨s, hs, hhandled⟩ := Option.map_eq_some_iff.mp hrest
  have hstart : (started sock).Start :=
    ⟨⟨_, _, 0, by decide, hsock⟩, rfl, ⟨rfl, rfl, rfl⟩, rfl, rfl, rfl⟩
  exact ⟨s, hhandled, server_serves (run_reaches (.init hstart) hs)⟩

end Server

end Usnet
