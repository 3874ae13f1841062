import Usnet.Lib.CInt
import Usnet.Lib.Run

/-! # The accept queue (core.c, socket.h)

    A listening socket keeps the connections that wait for the application in
    an array used as a ring.  `bq_tail` wraps when it has passed `bq_size`,
    `bq_head` when it has reached it.
-/

namespace Usnet

open CInt Run

/-! ## Section 1: Sockets -/

def SO_DEFAULT_BACKLOG : Nat := 500
def SO_ACCEPT : UInt16 := 0x0002
def SO_ISCONNECTING : UInt16 := 0x004

/-- `struct backlog_queue`. -/
structure BacklogQueue where
  bq_head : Nat
  bq_tail : Nat
  bq_size : Nat
  bq_connq : Nat → UInt32

/-- `usn_socket_t`. -/
structure UsnSocket where
  so_fd : UInt32
  so_dom : UInt16
  so_type : UInt16
  so_proto : UInt16
  so_state : UInt16
  so_sport : UInt16
  so_dport : UInt16
  so_saddr : UInt32
  so_daddr : UInt32
  so_options : UInt16
  so_backlogq : Option BacklogQueue

/-- The test of `SO_ACCEPT`. -/
def UsnSocket.listening (so : UsnSocket) : Bool := so.so_options &&& SO_ACCEPT != 0

/-- `struct usn_connect_ev`, as `usnet_accept` fills it in. -/
structure UsnConnectEv where
  fd : UInt32
  saddr : UInt32
  sport : UInt16
  daddr : UInt32
  dport : UInt16
  result : Int

/-- What the socket calls use of the context.  `socket_cache` says what
    `CACHE_SEARCH` finds for a descriptor. -/
structure SockCtx where
  g_fd : UInt32
  socket_cache : UInt32 → Option UsnSocket
  ev_app2net_mq : List UsnConnectEv

/-- Writing through a pointer to the socket with this descriptor. -/
def SockCtx.set (ctx : SockCtx) (fd : UInt32) (so : UsnSocket) : SockCtx :=
  { ctx with socket_cache := Function.update ctx.socket_cache fd (some so) }

@[simp] theorem SockCtx.set_self (ctx : SockCtx) (fd : UInt32) (so : UsnSocket) :
    (ctx.set fd so).socket_cache fd = some so := by
  simp [SockCtx.set]

@[simp] theorem SockCtx.set_ne (ctx : SockCtx) {fd fd' : UInt32} (so : UsnSocket)
    (h : fd' ≠ fd) : (ctx.set fd so).socket_cache fd' = ctx.socket_cache fd' := by
  simp [SockCtx.set, h]

/-! ## Section 2: The calls -/

/-- `usnet_listen`, with the outcomes of the two allocations and the answer to
    the listen event.  Where it fails after the first allocation the socket
    keeps a pointer to freed memory, which is the queue `none`. -/
def usnet_listen (ctx : SockCtx) (fd : UInt32) (queue_mem connq_mem : Bool) (answer : Int) :
    Int × SockCtx :=
  match ctx.socket_cache fd with
  | none => (-1, ctx)
  | some so =>
    if queue_mem = false then (-2, ctx)
    else if connq_mem = false then (-3, ctx.set fd { so with so_backlogq := none })
    else
      let so := { so with so_options := so.so_options ||| SO_ACCEPT }
      if answer < 0 then (-4, ctx.set fd { so with so_backlogq := none })
      else
        let queue : BacklogQueue :=
          { bq_head := 0, bq_tail := 0, bq_size := SO_DEFAULT_BACKLOG
            bq_connq := fun _ => 0 }
        (answer, ctx.set fd { so with so_backlogq := some queue })

/-- `queue->bq_connq[queue->bq_tail++] = fd` and the wrap.  `none` is a write
    behind the array. -/
def BacklogQueue.push (queue : BacklogQueue) (fd : UInt32) : Option BacklogQueue :=
  if queue.bq_tail < queue.bq_size then
    some { queue with
      bq_connq := Function.update queue.bq_connq queue.bq_tail fd
      bq_tail := if queue.bq_tail + 1 > queue.bq_size then queue.bq_tail + 1 - queue.bq_size
        else queue.bq_tail + 1 }
  else none

/-- `queue->bq_connq[queue->bq_head++]` and the wrap.  `none` is a read behind
    the array. -/
def BacklogQueue.pop (queue : BacklogQueue) : Option (UInt32 × BacklogQueue) :=
  if queue.bq_head < queue.bq_size then
    some (queue.bq_connq queue.bq_head, { queue with
      bq_head := if queue.bq_head + 1 ≥ queue.bq_size then queue.bq_head + 1 - queue.bq_size
        else queue.bq_head + 1 })
  else none

/-- The socket `usnet_accept_newconn` makes for a connection. -/
def new_socket (accept_so : UsnSocket) (fd saddr : UInt32) (sport : UInt16) (daddr : UInt32)
    (dport : UInt16) : UsnSocket :=
  { so_fd := fd, so_dom := accept_so.so_dom, so_type := accept_so.so_type
    so_proto := accept_so.so_proto, so_state := SO_ISCONNECTING, so_sport := sport
    so_dport := dport, so_saddr := saddr, so_daddr := daddr, so_options := 0
    so_backlogq := none }

/-- `usnet_accept_newconn`, where `room` says whether the cache has a free slot. -/
def usnet_accept_newconn (ctx : SockCtx) (fd saddr : UInt32) (sport : UInt16)
    (daddr : UInt32) (dport : UInt16) (room : Bool) : Option (Int × SockCtx) :=
  match ctx.socket_cache fd with
  | none => some (-1, ctx)
  | some accept_so =>
    if accept_so.listening = false then some (-2, ctx)
    else
      let so_fd := ctx.g_fd
      let ctx := { ctx with g_fd := ctx.g_fd + 1 }
      if room = false then some (-3, ctx)
      else
        let ctx := ctx.set so_fd (new_socket accept_so so_fd saddr sport daddr dport)
        match accept_so.so_backlogq with
        | none => none
        | some queue =>
          match queue.push so_fd with
          | none => none
          | some queue =>
            some (sint so_fd, ctx.set fd { accept_so with so_backlogq := some queue })

/-- `usnet_accept`. -/
def usnet_accept (ctx : SockCtx) (fd : UInt32) : Option (Int × SockCtx) :=
  match ctx.socket_cache fd with
  | none => some (-1, ctx)
  | some so =>
    if so.listening = false then some (-2, ctx)
    else
      match so.so_backlogq with
      | none => none
      | some queue =>
        if queue.bq_head = queue.bq_tail then some (0, ctx)
        else
          match queue.pop with
          | none => none
          | some (con_fd, queue) =>
            let ctx := ctx.set fd { so with so_backlogq := some queue }
            match ctx.socket_cache con_fd with
            | none => some (-3, ctx)
            | some con =>
              let ev : UsnConnectEv :=
                { fd := con_fd, saddr := con.so_saddr, sport := con.so_sport
                  daddr := con.so_daddr, dport := con.so_dport, result := 0 }
              some (sint con_fd, { ctx with ev_app2net_mq := ctx.ev_app2net_mq ++ [ev] })

/-! ## Section 3: Runs -/

/-- The calls the property speaks of. -/
inductive BacklogCall where
  | newconn (fd saddr : UInt32) (sport : UInt16) (daddr : UInt32) (dport : UInt16)
      (room : Bool)
  | accept (fd : UInt32)

/-- The sockets, with the descriptors queued on and returned from each of them.
    `fault` records an access outside an array. -/
structure BacklogRun where
  ctx : SockCtx
  arrived : UInt32 → List UInt32
  returned : UInt32 → List UInt32
  fault : Bool

/-- Descriptors are positive results. -/
def record (l : UInt32 → List UInt32) (fd : UInt32) (r : Int) : UInt32 → List UInt32 :=
  if 0 < r then Function.update l fd (l fd ++ [u32 r]) else l

def backlog_step (s : BacklogRun) : BacklogCall → BacklogRun
  | .newconn fd saddr sport daddr dport room =>
    match usnet_accept_newconn s.ctx fd saddr sport daddr dport room with
    | none => { s with fault := true }
    | some (r, ctx) => { s with ctx := ctx, arrived := record s.arrived fd r }
  | .accept fd =>
    match usnet_accept s.ctx fd with
    | none => { s with fault := true }
    | some (r, ctx) => { s with ctx := ctx, returned := record s.returned fd r }

/-- A queue as `usnet_listen` leaves it. -/
structure BacklogQueue.Fresh (queue : BacklogQueue) : Prop where
  head : queue.bq_head = 0
  tail : queue.bq_tail = 0
  size : queue.bq_size = SO_DEFAULT_BACKLOG

theorem usnet_listen_fresh {ctx : SockCtx} {fd : UInt32} {queue_mem connq_mem : Bool}
    {answer : Int} (h : 0 ≤ (usnet_listen ctx fd queue_mem connq_mem answer).1) :
    ∃ so queue, (usnet_listen ctx fd queue_mem connq_mem answer).2.socket_cache fd = some so ∧
      so.so_backlogq = some queue ∧ queue.Fresh := by
  unfold usnet_listen at *
  cases hso : ctx.socket_cache fd with
  | none => simp [hso] at h
  | some so =>
    simp only [hso] at h ⊢
    split at h
    · simp at h
    · split at h
      · simp at h
      · rename_i hq hc
        rw [if_neg hq, if_neg hc]
        split at h
        · simp at h
        · rename_i ha
          rw [if_neg ha]
          exact ⟨_, _, SockCtx.set_self .., rfl, rfl, rfl, rfl⟩

/-- Every listening socket has just been set up by `usnet_listen`. -/
structure BacklogRun.Fresh (s : BacklogRun) : Prop where
  ghosts : s.arrived = (fun _ => []) ∧ s.returned = (fun _ => []) ∧ s.fault = false
  queues : ∀ fd so, s.ctx.socket_cache fd = some so → so.listening →
    ∃ queue, so.so_backlogq = some queue ∧ queue.Fresh

/-- The calls that are served as promised: the descriptor drawn is positive and
    not in use, fewer than 500 connections have arrived on the socket, and
    fewer than 500 have been returned. -/
def backlog_served (s : BacklogRun) : BacklogCall → Prop
  | .newconn fd _ _ _ _ room =>
    ∀ so, s.ctx.socket_cache fd = some so → so.listening → room →
      0 < sint s.ctx.g_fd ∧ s.ctx.socket_cache s.ctx.g_fd = none ∧
      (s.arrived fd).length < SO_DEFAULT_BACKLOG
  | .accept fd =>
    ∀ so, s.ctx.socket_cache fd = some so → so.listening →
      (s.returned fd).length < SO_DEFAULT_BACKLOG

/-- The runs of such calls. -/
def BacklogWhere (C : BacklogRun → BacklogCall → Prop) : BacklogRun → Prop :=
  RunWhere (fun s a s' => s' = backlog_step s a) C BacklogRun.Fresh

/-- The queue is a FIFO: nothing outside the array is touched, what has been
    returned is what arrived first, in order and without repetition, and the
    next call returns what arrived next or reports that nothing is left. -/
structure BacklogFifo (s : BacklogRun) : Prop where
  safe : s.fault = false
  order : ∀ fd, s.returned fd <+: s.arrived fd
  next : ∀ fd so, s.ctx.socket_cache fd = some so → so.listening →
    backlog_served s (.accept fd) →
    ∃ ctx', usnet_accept s.ctx fd = some
      (match (s.arrived fd).drop (s.returned fd).length with
        | [] => 0
        | con_fd :: _ => sint con_fd, ctx')

/-! ## Section 4: The invariant -/

/-- The array holds the arrivals from its start; neither index has wrapped but
    `bq_head` behind the last element. -/
structure QueueInv (queue : BacklogQueue) (arrived returned : List UInt32) : Prop where
  size : queue.bq_size = SO_DEFAULT_BACKLOG
  few : arrived.length ≤ SO_DEFAULT_BACKLOG
  tail : queue.bq_tail = arrived.length
  order : returned <+: arrived
  head : queue.bq_head = if returned.length = SO_DEFAULT_BACKLOG then 0 else returned.length
  cells : ∀ i < arrived.length, arrived[i]? = some (queue.bq_connq i)

structure BacklogInv (s : BacklogRun) : Prop where
  safe : s.fault = false
  order : ∀ fd, s.returned fd <+: s.arrived fd
  queue : ∀ fd so, s.ctx.socket_cache fd = some so → so.listening →
    ∃ queue, so.so_backlogq = some queue ∧ QueueInv queue (s.arrived fd) (s.returned fd)
  known : ∀ fd, ∀ con_fd ∈ s.arrived fd,
    0 < sint con_fd ∧ (s.ctx.socket_cache con_fd).isSome

theorem BacklogInv.fresh {s : BacklogRun} (h : s.Fresh) : BacklogInv s := by
  obtain ⟨⟨harr, hret, hfault⟩, hq⟩ := h
  refine ⟨hfault, fun fd => ?_, fun fd so hso hl => ?_, fun fd con_fd hin => ?_⟩
  · rw [hret, harr]
  · obtain ⟨queue, hqueue, hf⟩ := hq fd so hso hl
    rw [harr, hret]
    exact ⟨queue, hqueue, hf.size, Nat.zero_le _, hf.tail, List.prefix_rfl, hf.head,
      fun i hi => absurd hi (Nat.not_lt_zero i)⟩
  · rw [harr] at hin
    cases hin

/-- A descriptor is queued behind the others. -/
theorem QueueInv.push {queue : BacklogQueue} {arrived returned : List UInt32}
    (h : QueueInv queue arrived returned) (hlen : arrived.length < SO_DEFAULT_BACKLOG)
    (fd : UInt32) :
    ∃ queue', queue.push fd = some queue' ∧ QueueInv queue' (arrived ++ [fd]) returned := by
  have htail := h.tail
  have hsize := h.size
  unfold BacklogQueue.push
  rw [if_pos (by omega), if_neg (by omega)]
  refine ⟨_, rfl, h.size, ?_, ?_, ?_, h.head, fun i hi => ?_⟩
  · rw [List.length_append, List.length_singleton]
    omega
  · rw [List.length_append, List.length_singleton, ← htail]
  · exact h.order.trans (List.prefix_append _ _)
  · rw [List.length_append, List.length_singleton] at hi
    simp only [htail]
    by_cases hlast : i = arrived.length
    · rw [hlast, Function.update_self, List.getElem?_append_right (Nat.le_refl _), Nat.sub_self]
      rfl
    · rw [Function.update_of_ne hlast, List.getElem?_append_left (by omega)]
      exact h.cells i (by omega)

/-- The first descriptor not yet returned is taken off. -/
theorem QueueInv.pop {queue : BacklogQueue} {arrived returned : List UInt32}
    (h : QueueInv queue arrived returned) (hlen : returned.length < SO_DEFAULT_BACKLOG)
    (hmore : returned.length < arrived.length) :
    ∃ con_fd queue', arrived[returned.length]? = some con_fd ∧
      queue.pop = some (con_fd, queue') ∧
      QueueInv queue' arrived (returned ++ [con_fd]) := by
  have hhead := h.head
  have hsize := h.size
  have hcell := h.cells _ hmore
  rw [if_neg (by omega)] at hhead
  refine ⟨_, { queue with bq_head := if returned.length + 1 ≥ queue.bq_size
      then returned.length + 1 - queue.bq_size else returned.length + 1 },
    hcell, ?_, h.size, h.few, h.tail, ?_, ?_, h.cells⟩
  · unfold BacklogQueue.pop
    rw [if_pos (by omega), hhead]
  · obtain ⟨rest, hrest⟩ := h.order
    cases rest with
    | nil =>
      rw [← hrest, List.append_nil] at hmore
      omega
    | cons x xs =>
      rw [← hrest, List.getElem?_append_right (Nat.le_refl _), Nat.sub_self] at hcell
      obtain rfl := Option.some.inj hcell
      exact ⟨xs, by rw [← hrest, List.append_assoc, List.singleton_append]⟩
  · rw [List.length_append, List.length_singleton]
    simp only [hsize]
    split <;> split <;> omega

/-- Descriptors are. -/
theorem record_of_pos {fd : UInt32} {l : UInt32 → List UInt32} {lfd : UInt32}
    (h : 0 < sint fd) : record l lfd (sint fd) = Function.update l lfd (l lfd ++ [fd]) := by
  unfold record
  rw [if_pos h, u32_sint]

/-- What `usnet_accept` does on a listening socket. -/
theorem BacklogInv.accept {s : BacklogRun} (h : BacklogInv s) {fd : UInt32} {so : UsnSocket}
    (hso : s.ctx.socket_cache fd = some so) (hl : so.listening)
    (hlen : (s.returned fd).length < SO_DEFAULT_BACKLOG) :
    (s.arrived fd = s.returned fd ∧ usnet_accept s.ctx fd = some (0, s.ctx)) ∨
    ∃ con_fd queue ctx', (s.arrived fd)[(s.returned fd).length]? = some con_fd ∧
      usnet_accept s.ctx fd = some (sint con_fd, ctx') ∧ 0 < sint con_fd ∧
      ctx'.socket_cache
        = (s.ctx.set fd { so with so_backlogq := some queue }).socket_cache ∧
      QueueInv queue (s.arrived fd) (s.returned fd ++ [con_fd]) := by
  obtain ⟨queue, hqueue, hq⟩ := h.queue fd so hso hl
  have hhead := hq.head
  have htail := hq.tail
  rw [if_neg (by omega)] at hhead
  have hle := hq.order.length_le
  unfold usnet_accept
  simp only [hso, hl, Bool.true_eq_false, if_false, hqueue]
  by_cases hempty : queue.bq_head = queue.bq_tail
  · left
    rw [if_pos hempty]
    exact ⟨(hq.order.eq_of_length (by omega)).symm, rfl⟩
  · right
    rw [if_neg hempty]
    obtain ⟨con_fd, queue', hcon, hpop, hq'⟩ := hq.pop hlen (by omega)
    have hin : con_fd ∈ s.arrived fd := List.mem_of_getElem? hcon
    obtain ⟨hpos, hknown⟩ := h.known fd con_fd hin
    have hfound : ∃ con, (s.ctx.set fd { so with so_backlogq := some queue' }).socket_cache
        con_fd = some con := by
      by_cases hself : con_fd = fd
      · exact ⟨_, by rw [hself, SockCtx.set_self]⟩
      · rw [SockCtx.set_ne _ _ hself]
        exact Option.isSome_iff_exists.mp hknown
    obtain ⟨con, hfound⟩ := hfound
    simp only [hpop, hfound]
    exact ⟨con_fd, queue', _, hcon, rfl, hpos, rfl, hq'⟩

/-- Writing to a socket's queue leaves the others alone. -/
theorem BacklogInv.set {s : BacklogRun} (h : BacklogInv s) {fd : UInt32} {so : UsnSocket}
    {queue : BacklogQueue} {ctx : SockCtx} {arrived returned : List UInt32}
    (hctx : ctx.socket_cache
      = (s.ctx.set fd { so with so_backlogq := some queue }).socket_cache)
    (hq : QueueInv queue arrived returned)
    (hknown : ∀ con_fd ∈ arrived, 0 < sint con_fd ∧ (ctx.socket_cache con_fd).isSome) :
    BacklogInv { s with
      ctx := ctx
      arrived := Function.update s.arrived fd arrived
      returned := Function.update s.returned fd returned } := by
  -- no socket goes away, one is replaced
  have hkept : ∀ con_fd, (s.ctx.socket_cache con_fd).isSome →
      (ctx.socket_cache con_fd).isSome := by
    intro con_fd hc
    rw [hctx]
    by_cases hself : con_fd = fd
    · rw [hself, SockCtx.set_self]
      rfl
    · rw [SockCtx.set_ne _ _ hself]
      exact hc
  refine ⟨h.safe, fun fd' => ?_, fun fd' so' hso' hl' => ?_, fun fd' con_fd hin => ?_⟩
  · by_cases hself : fd' = fd
    · subst hself
      simpa using hq.order
    · simpa [hself] using h.order fd'
  · by_cases hself : fd' = fd
    · subst hself
      rw [hctx, SockCtx.set_self] at hso'
      obtain rfl := Option.some.inj hso'
      exact ⟨queue, rfl, by simpa using hq⟩
    · rw [hctx, SockCtx.set_ne _ _ hself] at hso'
      simpa [hself] using h.queue fd' so' hso' hl'
  · by_cases hself : fd' = fd
    · subst hself
      simp only [Function.update_self] at hin
      exact hknown con_fd hin
    · simp only [Function.update_of_ne hself] at hin
      obtain ⟨hpos, hc⟩ := h.known fd' con_fd hin
      exact ⟨hpos, hkept con_fd hc⟩

/-- A socket for a new connection. -/
theorem BacklogInv.set_new {s : BacklogRun} (h : BacklogInv s) {ctx : SockCtx} {fd : UInt32}
    {so : UsnSocket} (hl : so.listening = false)
    (hctx : ctx.socket_cache = (s.ctx.set fd so).socket_cache) :
    BacklogInv { s with ctx := ctx } := by
  refine ⟨h.safe, h.order, fun fd' so' hso' hl' => ?_, fun fd' con_fd hin => ?_⟩
  · simp only [hctx] at hso'
    by_cases hself : fd' = fd
    · subst hself
      rw [SockCtx.set_self] at hso'
      obtain rfl := Option.some.inj hso'
      rw [hl] at hl'
      cases hl'
    · rw [SockCtx.set_ne _ _ hself] at hso'
      exact h.queue fd' so' hso' hl'
  · obtain ⟨hp, hk⟩ := h.known fd' con_fd hin
    refine ⟨hp, ?_⟩
    simp only [hctx]
    by_cases hself : con_fd = fd
    · rw [hself, SockCtx.set_self]
      rfl
    · rw [SockCtx.set_ne _ _ hself]
      exact hk

/-- Results that are not positive concern no queue. -/
theorem record_of_nonpos (l : UInt32 → List UInt32) (fd : UInt32) {r : Int} (h : r ≤ 0) :
    record l fd r = l := by
  unfold record
  rw [if_neg (by omega)]

theorem BacklogInv.newconn {s : BacklogRun} (h : BacklogInv s) {fd saddr : UInt32}
    {sport : UInt16} {daddr : UInt32} {dport : UInt16} {room : Bool}
    (hc : backlog_served s (.newconn fd saddr sport daddr dport room)) :
    BacklogInv (backlog_step s (.newconn fd saddr sport daddr dport room)) := by
  simp only [backlog_step, usnet_accept_newconn]
  cases hso : s.ctx.socket_cache fd with
  | none =>
    simp only [record_of_nonpos _ _ (show (-1 : Int) ≤ 0 by decide)]
    exact h
  -- the ways out of the source: no listener, no room for a socket, and the new one
  | some so =>
    simp only
    by_cases hl : so.listening = false
    · simp only [hl, if_true, record_of_nonpos _ _ (show (-2 : Int) ≤ 0 by decide)]
      exact h
    · simp only [hl]
      cases room with
      | false =>
        simp only [if_true]
        exact ⟨h.safe, h.order, h.queue, h.known⟩
      | true =>
        obtain ⟨hpos, hfree, hlen⟩ := hc so hso (by simpa using hl) rfl
        obtain ⟨queue, hqueue, hq⟩ := h.queue fd so hso (by simpa using hl)
        obtain ⟨queue', hpush, hq'⟩ := hq.push hlen s.ctx.g_fd
        simp only [Bool.true_eq_false, if_false, hqueue, hpush, record_of_pos hpos]
        -- first the new socket is stored, then its number is pushed on the listener's queue
        generalize hctx : SockCtx.set { s.ctx with g_fd := s.ctx.g_fd + 1 } s.ctx.g_fd
          (new_socket so s.ctx.g_fd saddr sport daddr dport) = ctx
        have hnew : BacklogInv { s with ctx := ctx } := by
          have hl' : (new_socket so s.ctx.g_fd saddr sport daddr dport).listening = false := by
            simp [UsnSocket.listening, new_socket]
          exact h.set_new hl' (by rw [← hctx]; rfl)
        have hset := @BacklogInv.set _ hnew fd so _ _ _ _ rfl hq' (fun con_fd hin => ?_)
        · rw [Function.update_eq_self] at hset
          exact hset
        · rcases List.mem_append.mp hin with hin | hin
          · obtain ⟨hp, hk⟩ := hnew.known fd con_fd hin
            refine ⟨hp, ?_⟩
            by_cases hself : con_fd = fd
            · rw [hself, SockCtx.set_self]
              rfl
            · rw [SockCtx.set_ne _ _ hself]
              exact hk
          · obtain rfl := List.mem_singleton.mp hin
            -- the number was free, so the listener does not lose its place to it
            have hne : s.ctx.g_fd ≠ fd := by
              intro heq
              rw [heq, hso] at hfree
              cases hfree
            refine ⟨hpos, ?_⟩
            rw [SockCtx.set_ne _ _ hne, ← hctx, SockCtx.set_self]
            rfl

/-- Every call served as promised keeps it. -/
theorem BacklogInv.step {s : BacklogRun} (h : BacklogInv s) {a : BacklogCall}
    (hc : backlog_served s a) : BacklogInv (backlog_step s a) := by
  cases a with
  | newconn fd saddr sport daddr dport room => exact h.newconn hc
  | accept fd =>
    simp only [backlog_step]
    cases hso : s.ctx.socket_cache fd with
    | none =>
      simp only [usnet_accept, hso, record_of_nonpos _ _ (show (-1 : Int) ≤ 0 by decide)]
      exact h
    | some so =>
      by_cases hl : so.listening = false
      · simp only [usnet_accept, hso, hl, if_true,
          record_of_nonpos _ _ (show (-2 : Int) ≤ 0 by decide)]
        exact h
      · rcases h.accept hso (by simpa using hl) (hc so hso (by simpa using hl)) with
          ⟨-, hacc⟩ | ⟨con_fd, queue, ctx', -, hacc, hpos, hctx, hq⟩
        · simp only [hacc, record_of_nonpos _ _ (show (0 : Int) ≤ 0 by decide)]
          exact h
        · simp only [hacc, record_of_pos hpos]
          have hset := h.set hctx hq (fun con_fd hin => ?_)
          · rw [Function.update_eq_self] at hset
            exact hset
          · obtain ⟨hp, hk⟩ := h.known fd con_fd hin
            refine ⟨hp, ?_⟩
            rw [hctx]
            by_cases hself : con_fd = fd
            · rw [hself, SockCtx.set_self]
              rfl
            · rw [SockCtx.set_ne _ _ hself]
              exact hk

theorem BacklogInv.fifo {s : BacklogRun} (h : BacklogInv s) : BacklogFifo s := by
  refine ⟨h.safe, h.order, fun fd so hso hl hc => ?_⟩
  rcases h.accept hso hl (hc so hso hl) with ⟨heq, hacc⟩ | ⟨con_fd, -, ctx', hcon, hacc, -⟩
  · rw [heq, List.drop_length]
    exact ⟨_, hacc⟩
  · obtain ⟨hlt, hget⟩ := List.getElem?_eq_some_iff.mp hcon
    rw [List.drop_eq_getElem_cons hlt, hget]
    exact ⟨_, hacc⟩

/-- In every run of calls that are served as promised the queues are FIFOs. -/
theorem backlog_fifo {s : BacklogRun} (h : BacklogWhere backlog_served s) : BacklogFifo s := by
  have hinv : BacklogInv s := by
    refine RunWhere.invariant (I := BacklogInv) (fun _ hf => .fresh hf) ?_ h
    rintro s a s' hi hc rfl
    exact hi.step hc
  exact hinv.fifo

/-! ## Section 5: Runs on given calls -/

/-- A socket that listens, as `usnet_listen` leaves it. -/
def listening_socket (queue : BacklogQueue) : UsnSocket :=
  { so_fd := 1, so_dom := 2, so_type := 1, so_proto := 0, so_state := 0
    so_sport := 0x5000, so_dport := 0, so_saddr := 0x0100000a, so_daddr := 0
    so_options := SO_ACCEPT, so_backlogq := some queue }

theorem listening_socket_listens (queue : BacklogQueue) :
    (listening_socket queue).listening = true ∧
    (listening_socket queue).so_backlogq = some queue := by
  constructor
  · simp [UsnSocket.listening, listening_socket, SO_ACCEPT]
  · rfl

/-- One listening socket, and no connection yet. -/
def one_listener : BacklogRun :=
  { ctx :=
      { g_fd := 2
        socket_cache := Function.update (fun _ => none) 1
          (some (listening_socket { bq_head := 0, bq_tail := 0, bq_size := SO_DEFAULT_BACKLOG
                                    bq_connq := fun _ => 0 }))
        ev_app2net_mq := [] }
    arrived := fun _ => [], returned := fun _ => [], fault := false }

theorem one_listener_fresh : one_listener.Fresh := by
  refine ⟨⟨rfl, rfl, rfl⟩, fun fd so hso _ => ?_⟩
  by_cases h : fd = 1
  · subst h
    simp only [one_listener, Function.update_self] at hso
    obtain rfl := Option.some.inj hso
    exact ⟨_, rfl, rfl, rfl, rfl⟩
  · simp [one_listener, h] at hso

/-- A connection from 10.0.0.2:1234. -/
def conn_call : BacklogCall := .newconn 1 0x0200000a 0xd204 0x0100000a 0x5000 true

/-- Two connections, the first of them accepted. -/
def two_arrived : BacklogRun :=
  backlog_step (backlog_step (backlog_step one_listener conn_call) conn_call) (.accept 1)

theorem backlog_fifo_sample :
    BacklogFifo two_arrived ∧ two_arrived.arrived 1 = [2, 3] ∧ two_arrived.returned 1 = [2] := by
  refine ⟨backlog_fifo ?_, by decide, by decide⟩
  refine .step (.step (.step (.init one_listener_fresh) ?_ rfl) ?_ rfl) ?_ rfl
  · intro so hso hl hr
    exact ⟨by decide, rfl, by decide⟩
  · intro so hso hl hr
    exact ⟨by decide, rfl, by decide⟩
  · intro so hso hl
    exact (by decide : (0 : Nat) < 500)

/-- Where the queue stands after `n` connections. -/
structure Filled (s : BacklogRun) (n : Nat) : Prop where
  drawn : s.ctx.g_fd.toNat = 2 + n
  queue : ∃ connq, s.ctx.socket_cache 1 = some (listening_socket
    { bq_head := 0, bq_tail := n, bq_size := SO_DEFAULT_BACKLOG, bq_connq := connq })

theorem Filled.step {s : BacklogRun} {n : Nat} (h : Filled s n) (hn : n < SO_DEFAULT_BACKLOG) :
    Filled (backlog_step s conn_call) (n + 1) := by
  obtain ⟨hdrawn, connq, hqueue⟩ := h
  have hmax : SO_DEFAULT_BACKLOG = 500 := rfl
  simp only [conn_call, backlog_step, usnet_accept_newconn, hqueue, listening_socket_listens, BacklogQueue.push,
    Bool.true_eq_false, if_false, if_pos hn]
  refine ⟨?_, Function.update connq n s.ctx.g_fd, ?_⟩
  · show (s.ctx.g_fd + 1).toNat = 2 + (n + 1)
    have hone : (1 : UInt32).toNat = 1 := rfl
    rw [toNat_add, hdrawn, hone]
    omega
  · rw [SockCtx.set_self, if_neg (by omega)]
    rfl

theorem Filled.overflow {s : BacklogRun} (h : Filled s SO_DEFAULT_BACKLOG) :
    (backlog_step s conn_call).fault = true := by
  obtain ⟨-, connq, hqueue⟩ := h
  simp only [conn_call, backlog_step, usnet_accept_newconn, hqueue, listening_socket_listens,
    BacklogQueue.push, Bool.true_eq_false, if_false, Nat.lt_irrefl]

/-- The connection after the last place is written behind the array. -/
theorem backlog_overflows :
    ∃ s, BacklogWhere (fun _ _ => True) s ∧ s.fault = true := by
  have hfilled : ∀ n ≤ SO_DEFAULT_BACKLOG,
      Filled ((fun s => backlog_step s conn_call)^[n] one_listener) n := by
    intro n
    induction n with
    | zero => exact fun _ => ⟨rfl, fun _ => 0, rfl⟩
    | succ n ih =>
      intro hn
      rw [Function.iterate_succ_apply']
      exact (ih (by omega)).step hn
  have hrun : BacklogWhere (fun _ _ => True)
      ((fun s => backlog_step s conn_call)^[SO_DEFAULT_BACKLOG] one_listener) :=
    .iterate (f := fun s => backlog_step s conn_call) (a := conn_call) (fun _ => rfl)
      (fun _ => trivial) _ (.init one_listener_fresh)
  exact ⟨_, .step (a := conn_call) hrun trivial rfl, (hfilled _ (Nat.le_refl _)).overflow⟩

end Usnet
