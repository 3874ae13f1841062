import Usnet.Backlog
import Usnet.Cache

/-! # The socket table (socket.c, core.c)

    Sockets lie in a hashed table and are found by their descriptors, which
    `g_fd` counts up.  A slot with the descriptor 0 is empty.  Seen through the
    searches, the calls are those on a map from descriptors to sockets.
-/

namespace Usnet

open CInt Run

/-! ## Section 1: The table -/

namespace UsnSocket

/-- `usnet_so_key`. -/
def usnet_so_key (item : UsnSocket) : UInt32 := item.so_fd

/-- `usnet_so_eq`. -/
def usnet_so_eq (item1 item2 : UsnSocket) : Bool := item1.so_fd == item2.so_fd

/-- `usnet_so_isempty`. -/
def usnet_so_isempty (item : UsnSocket) : Bool := item.so_fd == 0

/-- `usnet_so_setempty`. -/
def usnet_so_setempty (item : UsnSocket) : UsnSocket := { item with so_fd := 0 }

/-- A socket set to zero, with a descriptor. -/
def zero (fd : UInt32) : UsnSocket :=
  { so_fd := fd, so_dom := 0, so_type := 0, so_proto := 0, so_state := 0, so_sport := 0
    so_dport := 0, so_saddr := 0, so_daddr := 0, so_options := 0, so_backlogq := none }

end UsnSocket

/-- The cache of `usnet_socket_init`. -/
def usnet_socket_init : UsnHashbase UsnSocket :=
  { hb_time := 10, hb_base := usnet_hashbase_init 10 100, hb_cache := fun _ => .zero 0
    hb_eqfn := UsnSocket.usnet_so_eq, hb_keyfn := UsnSocket.usnet_so_key
    hb_isemptyfn := UsnSocket.usnet_so_isempty, hb_setemptyfn := UsnSocket.usnet_so_setempty }

def SO_BIND : UInt16 := 0x0001

/-- What the socket calls use of the context. -/
structure SockTable where
  g_fd : UInt32
  socket_cache : UsnHashbase UsnSocket
  ev_app2net_mq : List UsnConnectEv

/-- `bq_head` has not overtaken `bq_tail`, and what lies below that are descriptors. -/
structure BacklogQueue.Sane (queue : BacklogQueue) : Prop where
  head : queue.bq_head ≤ queue.bq_tail
  cells : ∀ i < queue.bq_tail, queue.bq_connq i ≠ 0

namespace SockTable

/-- `CACHE_SEARCH` with a descriptor. -/
def search (t : SockTable) (fd : UInt32) : Option (Nat × Nat) :=
  usnet_cache_search t.socket_cache (.zero fd)

/-- The socket at an address. -/
def so (t : SockTable) (p : Nat × Nat) : UsnSocket := t.socket_cache.hb_cache p

/-- An assignment to it. -/
def put (t : SockTable) (p : Nat × Nat) (so : UsnSocket) : SockTable :=
  { t with socket_cache := t.socket_cache.set p so }

/-! ## Section 2: The calls -/

/-- `usnet_socket`. -/
def usnet_socket (t : SockTable) (dom type proto : UInt16) : Int × SockTable :=
  let so_fd := t.g_fd
  let t := { t with g_fd := t.g_fd + 1 }
  match usnet_cache_get t.socket_cache (.zero so_fd) with
  | none => (-1, t)
  | some p =>
    (sint so_fd,
      t.put p { UsnSocket.zero so_fd with so_dom := dom, so_type := type, so_proto := proto })

/-- `usnet_bind`, where `len` is to be the size of a `struct sockaddr_in`. -/
def usnet_bind (t : SockTable) (fd : UInt32) (sin_family sin_port : UInt16) (s_addr : UInt32)
    (len : Int) : Int × SockTable :=
  match t.search fd with
  | none => (-1, t)
  | some p =>
    if len ≠ 16 then (-2, t)
    else if (t.so p).so_dom ≠ sin_family then (-3, t)
    else (0, t.put p { t.so p with
      so_sport := sin_port, so_saddr := s_addr, so_options := (t.so p).so_options ||| SO_BIND })

/-- `usnet_listen`, with the outcomes of the two allocations and the answer to
    the listen event.  A pointer to freed memory is the queue `none`. -/
def usnet_listen (t : SockTable) (fd : UInt32) (queue_mem connq_mem : Bool) (answer : Int) :
    Int × SockTable :=
  match t.search fd with
  | none => (-1, t)
  | some p =>
    let so := { t.so p with so_backlogq := none }
    if queue_mem = false then (-2, t.put p so)
    else if connq_mem = false then (-3, t.put p so)
    else
      let so := { so with so_options := so.so_options ||| SO_ACCEPT }
      if answer < 0 then (-4, t.put p so)
      else
        let queue : BacklogQueue :=
          { bq_head := 0, bq_tail := 0, bq_size := SO_DEFAULT_BACKLOG
            bq_connq := fun _ => 0 }
        (answer, t.put p { so with so_backlogq := some queue })

/-- `usnet_accept_newconn`.  The new socket is set to zero before anything is
    copied from the listening one. -/
def usnet_accept_newconn (t : SockTable) (fd saddr : UInt32) (sport : UInt16) (daddr : UInt32)
    (dport : UInt16) : Option (Int × SockTable) :=
  match t.search fd with
  | none => some (-1, t)
  | some p =>
    if (t.so p).listening = false then some (-2, t)
    else
      let so_fd := t.g_fd
      let t := { t with g_fd := t.g_fd + 1 }
      match usnet_cache_get t.socket_cache (.zero so_fd) with
      | none => some (-3, t)
      | some q =>
        let t := t.put q (.zero so_fd)
        let t := t.put q (new_socket (t.so p) so_fd saddr sport daddr dport)
        match (t.so p).so_backlogq with
        | none => none
        | some queue =>
          match queue.push so_fd with
          | none => none
          | some queue => some (sint so_fd, t.put p { t.so p with so_backlogq := some queue })

/-- `usnet_accept`, where `room` says whether the connect event fits into the
    queue; that it does not is not looked at. -/
def usnet_accept (t : SockTable) (fd : UInt32) (room : Bool) : Option (Int × SockTable) :=
  match t.search fd with
  | none => some (-1, t)
  | some p =>
    if (t.so p).listening = false then some (-2, t)
    else
      match (t.so p).so_backlogq with
      | none => none
      | some queue =>
        if queue.bq_head = queue.bq_tail then some (0, t)
        else
          match queue.pop with
          | none => none
          | some (con_fd, queue) =>
            let t := t.put p { t.so p with so_backlogq := some queue }
            match t.search con_fd with
            | none => some (-3, t)
            | some q =>
              let ev : UsnConnectEv :=
                { fd := con_fd, saddr := (t.so q).so_saddr, sport := (t.so q).so_sport
                  daddr := (t.so q).so_daddr, dport := (t.so q).so_dport, result := 0 }
              some (sint con_fd,
                if room then { t with ev_app2net_mq := t.ev_app2net_mq ++ [ev] } else t)

/-! ## Section 3: What a search finds -/

/-- The table's functions are those of the sockets; a socket lies on the path of
    its descriptor, and no two of them have one descriptor.  All descriptors have
    been drawn from `g_fd`. -/
structure Ok (t : SockTable) : Prop where
  eqfn : t.socket_cache.hb_eqfn = UsnSocket.usnet_so_eq
  keyfn : t.socket_cache.hb_keyfn = UsnSocket.usnet_so_key
  isemptyfn : t.socket_cache.hb_isemptyfn = UsnSocket.usnet_so_isempty
  rows : t.socket_cache.hb_time = 10 ∧ t.socket_cache.hb_base = usnet_hashbase_init 10 100
  placed : ∀ p, (t.so p).so_fd ≠ 0 → p ∈ t.socket_cache.path (t.so p)
  once : ∀ p q, (t.so p).so_fd = (t.so q).so_fd → (t.so p).so_fd ≠ 0 → p = q
  drawn : ∀ p, (t.so p).so_fd.toNat < t.g_fd.toNat
  queues : ∀ p queue, (t.so p).so_backlogq = some queue → queue.Sane

variable {t : SockTable}

/-- The path depends on the descriptor. -/
theorem path_congr (h : t.socket_cache.hb_keyfn = UsnSocket.usnet_so_key) {x y : UsnSocket}
    (hfd : x.so_fd = y.so_fd) : t.socket_cache.path x = t.socket_cache.path y := by
  refine t.socket_cache.path_congr ?_
  rw [h, UsnSocket.usnet_so_key, UsnSocket.usnet_so_key, hfd]

/-- A search finds the socket of the descriptor, wherever it lies. -/
theorem Ok.search_iff (h : t.Ok) {fd : UInt32} (hfd : fd ≠ 0) {p : Nat × Nat} :
    t.search fd = some p ↔ (t.so p).so_fd = fd := by
  have hequal : ∀ q, t.socket_cache.hb_eqfn (t.socket_cache.hb_cache q) (.zero fd) = true ↔
      (t.so q).so_fd = fd := by
    intro q
    rw [h.eqfn, UsnSocket.usnet_so_eq, beq_iff_eq]
    exact Iff.rfl
  constructor
  · intro hfound
    exact (hequal p).mp (UsnHashbase.of_search hfound).2
  · intro hp
    have hpath : p ∈ t.socket_cache.path (.zero fd) := by
      rw [← @path_congr t h.keyfn (t.so p) (.zero fd) hp]
      exact h.placed p (by rwa [hp])
    cases hfound : t.search fd with
    | none =>
      have hmiss := UsnHashbase.search_eq_none.mp hfound p hpath
      rw [(hequal p).mpr hp] at hmiss
      cases hmiss
    | some q =>
      have hq := (hequal q).mp (UsnHashbase.of_search hfound).2
      rw [h.once q p (hq.trans hp.symm) (by rwa [hq])]

/-- What `CACHE_GET` returns is an empty slot on the path. -/
theorem Ok.get (h : t.Ok) {fd : UInt32} {p : Nat × Nat}
    (hget : usnet_cache_get t.socket_cache (.zero fd) = some p) :
    p ∈ t.socket_cache.path (.zero fd) ∧ (t.so p).so_fd = 0 := by
  have hempty := List.find?_some hget
  rw [h.isemptyfn, UsnSocket.usnet_so_isempty, beq_iff_eq] at hempty
  exact ⟨List.mem_of_find?_eq_some hget, hempty⟩

/-- Seen through the searches. -/
def sockets (t : SockTable) : SockCtx :=
  { g_fd := t.g_fd
    socket_cache := fun fd => if fd = 0 then none else (t.search fd).map t.so
    ev_app2net_mq := t.ev_app2net_mq }

@[simp] theorem so_put_self (t : SockTable) (p : Nat × Nat) (x : UsnSocket) :
    (t.put p x).so p = x := UsnHashbase.set_self ..

theorem so_put_ne (t : SockTable) {p q : Nat × Nat} (x : UsnSocket) (h : q ≠ p) :
    (t.put p x).so q = t.so q := UsnHashbase.set_ne _ _ h

@[simp] theorem put_put (t : SockTable) (p : Nat × Nat) (x y : UsnSocket) :
    (t.put p x).put p y = t.put p y := by
  simp only [put, UsnHashbase.set_set]

/-- The map at a descriptor. -/
theorem Ok.sockets_iff (h : t.Ok) {fd : UInt32} (hfd : fd ≠ 0) {so : UsnSocket} :
    t.sockets.socket_cache fd = some so ↔ ∃ p, (t.so p).so_fd = fd ∧ t.so p = so := by
  simp only [sockets, if_neg hfd, Option.map_eq_some_iff, h.search_iff hfd]

/-- A socket goes into an empty slot of its path or replaces one of its own
    descriptor. -/
theorem Ok.put (h : t.Ok) {p : Nat × Nat} {x : UsnSocket}
    (hpath : p ∈ t.socket_cache.path x) (hdrawn : x.so_fd.toNat < t.g_fd.toNat)
    (hold : (t.so p).so_fd = x.so_fd ∨ ∀ q, (t.so q).so_fd ≠ x.so_fd)
    (hqueue : ∀ queue, x.so_backlogq = some queue → queue.Sane) : (t.put p x).Ok := by
  -- another slot with this descriptor would have been there before
  have hother : ∀ q, q ≠ p → (t.so q).so_fd = x.so_fd → x.so_fd = 0 := by
    intro q hne heq
    by_contra hzero
    rcases hold with hp | hnew
    · exact hne (h.once q p (heq.trans hp.symm) (by rwa [heq]))
    · exact hnew q heq
  refine ⟨h.eqfn, h.keyfn, h.isemptyfn, h.rows, fun q hq => ?_, fun q r heq hne => ?_, fun q => ?_,
    fun q queue hq => ?_⟩
  · by_cases hqp : q = p
    · rw [hqp, so_put_self]
      exact hpath
    · rw [so_put_ne _ _ hqp] at hq ⊢
      exact h.placed q hq
  · by_cases hqp : q = p
    · subst hqp
      by_contra hqr
      rw [so_put_self] at heq hne
      rw [so_put_ne _ _ (Ne.symm hqr)] at heq
      exact hne (hother r (Ne.symm hqr) heq.symm)
    · rw [so_put_ne _ _ hqp] at heq hne
      by_cases hrp : r = p
      · subst hrp
        rw [so_put_self] at heq
        exact absurd (heq.trans (hother q hqp heq)) hne
      · rw [so_put_ne _ _ hrp] at heq
        exact h.once q r heq hne
  · by_cases hqp : q = p
    · rw [hqp, so_put_self]
      exact hdrawn
    · rw [so_put_ne _ _ hqp]
      exact h.drawn q
  · by_cases hqp : q = p
    · rw [hqp, so_put_self] at hq
      exact hqueue queue hq
    · rw [so_put_ne _ _ hqp] at hq
      exact h.queues q queue hq

/-- The map then has the socket under its descriptor, and nothing else changes. -/
theorem Ok.sockets_put (h : t.Ok) {p : Nat × Nat} {x : UsnSocket} (hok : (t.put p x).Ok)
    (hfd : x.so_fd ≠ 0) (hold : (t.so p).so_fd = x.so_fd ∨ (t.so p).so_fd = 0) :
    (t.put p x).sockets = t.sockets.set x.so_fd x := by
  have hmap : (t.put p x).sockets.socket_cache = (t.sockets.set x.so_fd x).socket_cache := by
    funext fd
    by_cases hzero : fd = 0
    · subst hzero
      rw [SockCtx.set_ne _ _ (Ne.symm hfd)]
      rfl
    by_cases hself : fd = x.so_fd
    · rw [hself, SockCtx.set_self]
      exact (hok.sockets_iff hfd).mpr ⟨p, by rw [so_put_self], so_put_self ..⟩
    rw [SockCtx.set_ne _ _ hself]
    -- whoever has another descriptor lies in another slot
    refine Option.ext fun so => ?_
    rw [hok.sockets_iff hzero, h.sockets_iff hzero]
    have hne : ∀ q, (t.so q).so_fd = fd → q ≠ p := by
      rintro q hq rfl
      rcases hold with hp | hp
      · exact hself (hq.symm.trans hp)
      · exact hzero (hq.symm.trans hp)
    constructor
    · rintro ⟨q, hq, rfl⟩
      have hqp : q ≠ p := by
        rintro rfl
        rw [so_put_self] at hq
        exact hself hq.symm
      rw [so_put_ne _ _ hqp] at hq ⊢
      exact ⟨q, hq, rfl⟩
    · rintro ⟨q, hq, rfl⟩
      exact ⟨q, by rw [so_put_ne _ _ (hne q hq), hq], so_put_ne _ _ (hne q hq)⟩
  unfold SockCtx.set at hmap ⊢
  exact SockCtx.mk.injEq .. ▸ ⟨rfl, hmap, rfl⟩

/-- A socket of the table changes without its descriptor. -/
theorem Ok.replace (h : t.Ok) {p : Nat × Nat} {x : UsnSocket} (hfd : (t.so p).so_fd ≠ 0)
    (hx : x.so_fd = (t.so p).so_fd)
    (hqueue : ∀ queue, x.so_backlogq = some queue → queue.Sane) :
    (t.put p x).Ok ∧ (t.put p x).sockets = t.sockets.set x.so_fd x := by
  have hok : (t.put p x).Ok := by
    refine h.put ?_ ?_ (.inl hx.symm) hqueue
    · rw [path_congr h.keyfn hx]
      exact h.placed p hfd
    · rw [hx]
      exact h.drawn p
  exact ⟨hok, h.sockets_put hok (by rwa [hx]) (.inl hx.symm)⟩

theorem g_fd_next {fd : UInt32} (hmore : fd.toNat + 1 < 2 ^ 32) :
    (fd + 1).toNat = fd.toNat + 1 := by
  rw [UInt32.toNat_add]
  exact Nat.mod_eq_of_lt hmore

/-- Drawing a descriptor. -/
theorem Ok.draw (h : t.Ok) (hmore : t.g_fd.toNat + 1 < 2 ^ 32) :
    ({ t with g_fd := t.g_fd + 1 } : SockTable).Ok := by
  have hnext := g_fd_next hmore
  refine ⟨h.eqfn, h.keyfn, h.isemptyfn, h.rows, h.placed, h.once, fun p => ?_, h.queues⟩
  have hp := h.drawn p
  simp only [so] at hp ⊢
  omega

/-- A new socket under the descriptor just drawn. -/
theorem Ok.create (h : t.Ok) (hmore : t.g_fd.toNat + 1 < 2 ^ 32) {p : Nat × Nat} {x : UsnSocket}
    (hget : usnet_cache_get t.socket_cache (.zero t.g_fd) = some p) (hx : x.so_fd = t.g_fd)
    (hqueue : x.so_backlogq = none) :
    let t' : SockTable := { t with g_fd := t.g_fd + 1 }
    (t'.put p x).Ok ∧ (t'.put p x).sockets = t'.sockets.set t.g_fd x := by
  intro t'
  obtain ⟨hpath, hempty⟩ := h.get hget
  have hpos : t.g_fd ≠ 0 := by
    intro hzero
    have hlt := h.drawn p
    rw [hzero] at hlt
    exact absurd hlt (Nat.not_lt_zero _)
  have hok' : t'.Ok := h.draw hmore
  have hok : (t'.put p x).Ok := by
    refine hok'.put ?_ ?_ (.inr fun q hq => ?_) (fun queue hsome => ?_)
    · rw [path_congr h.keyfn (show x.so_fd = (UsnSocket.zero t.g_fd).so_fd from hx)]
      exact hpath
    · rw [hx, g_fd_next hmore]
      exact Nat.lt_succ_self _
    · have hlt := h.drawn q
      rw [hx] at hq
      exact absurd (hq ▸ hlt) (Nat.lt_irrefl _)
    · rw [hqueue] at hsome
      cases hsome
  have hset := hok'.sockets_put hok (by rwa [hx]) (.inr hempty)
  rw [hx] at hset
  exact ⟨hok, hset⟩

end SockTable

/-! ## Section 4: The map of sockets -/

namespace SockCtx

/-- `usnet_socket` on the map. -/
def usnet_socket (ctx : SockCtx) (dom type proto : UInt16) (room : Bool) : Int × SockCtx :=
  let so_fd := ctx.g_fd
  let ctx := { ctx with g_fd := ctx.g_fd + 1 }
  if room = false then (-1, ctx)
  else (sint so_fd, ctx.set so_fd
    { UsnSocket.zero so_fd with so_dom := dom, so_type := type, so_proto := proto })

/-- `usnet_bind` on the map. -/
def usnet_bind (ctx : SockCtx) (fd : UInt32) (sin_family sin_port : UInt16) (s_addr : UInt32)
    (len : Int) : Int × SockCtx :=
  match ctx.socket_cache fd with
  | none => (-1, ctx)
  | some so =>
    if len ≠ 16 then (-2, ctx)
    else if so.so_dom ≠ sin_family then (-3, ctx)
    else (0, ctx.set fd { so with
      so_sport := sin_port, so_saddr := s_addr, so_options := so.so_options ||| SO_BIND })

end SockCtx

/-- The calls of the application. -/
inductive SockCall where
  | socket (dom type proto : UInt16)
  | bind (fd : UInt32) (sin_family sin_port : UInt16) (s_addr : UInt32) (len : Int)
  | listen (fd : UInt32) (queue_mem connq_mem : Bool) (answer : Int)
  | newconn (fd saddr : UInt32) (sport : UInt16) (daddr : UInt32) (dport : UInt16)
  | accept (fd : UInt32) (room : Bool)

namespace SockTable

def call (t : SockTable) : SockCall → Option (Int × SockTable)
  | .socket dom type proto => some (t.usnet_socket dom type proto)
  | .bind fd sin_family sin_port s_addr len =>
    some (t.usnet_bind fd sin_family sin_port s_addr len)
  | .listen fd queue_mem connq_mem answer => some (t.usnet_listen fd queue_mem connq_mem answer)
  | .newconn fd saddr sport daddr dport => t.usnet_accept_newconn fd saddr sport daddr dport
  | .accept fd room => t.usnet_accept fd room

/-- There is an empty slot for the next descriptor. -/
def room (t : SockTable) : Bool := (usnet_cache_get t.socket_cache (.zero t.g_fd)).isSome

end SockTable

/-- The calls on the map, where `room` says whether a new socket finds a slot. -/
def SockCtx.call (ctx : SockCtx) (room : Bool) : SockCall → Option (Int × SockCtx)
  | .socket dom type proto => some (ctx.usnet_socket dom type proto room)
  | .bind fd sin_family sin_port s_addr len =>
    some (ctx.usnet_bind fd sin_family sin_port s_addr len)
  | .listen fd queue_mem connq_mem answer =>
    some (usnet_listen ctx fd queue_mem connq_mem answer)
  | .newconn fd saddr sport daddr dport =>
    usnet_accept_newconn ctx fd saddr sport daddr dport room
  | .accept fd _ => usnet_accept ctx fd

namespace SockTable

variable {t : SockTable}

/-- The descriptor is not 0, no descriptor comes up twice, and what fails on the
    way out of `usnet_listen` and `usnet_accept` leaves no trace. -/
def fits (t : SockTable) : SockCall → Prop
  | .socket _ _ _ => t.g_fd.toNat + 1 < 2 ^ 32
  | .bind fd _ _ _ _ => fd ≠ 0
  | .listen fd queue_mem _ _ => fd ≠ 0 ∧ queue_mem = true
  | .newconn fd _ _ _ _ => fd ≠ 0 ∧ t.g_fd.toNat + 1 < 2 ^ 32
  | .accept fd room => fd ≠ 0 ∧ room = true

/-- A call does on the map what it does on the table. -/
def Refines (t : SockTable) (c : SockCall) : Prop :=
  (t.call c).map (fun r => (r.1, r.2.sockets)) = t.sockets.call t.room c ∧
  ∀ r, t.call c = some r → r.2.Ok

/-- The socket found, in the table and in the map. -/
theorem Ok.found (h : t.Ok) {fd : UInt32} (hfd : fd ≠ 0) :
    (t.search fd = none ∧ t.sockets.socket_cache fd = none) ∨
    ∃ p, t.search fd = some p ∧ t.sockets.socket_cache fd = some (t.so p) ∧
      (t.so p).so_fd = fd := by
  cases hp : t.search fd with
  | none => exact .inl ⟨rfl, by simp [sockets, hfd, hp]⟩
  | some p => exact .inr ⟨p, rfl, by simp [sockets, hfd, hp], (h.search_iff hfd).mp hp⟩

theorem Ok.bind (h : t.Ok) {fd : UInt32} (hfd : fd ≠ 0) (sin_family sin_port : UInt16)
    (s_addr : UInt32) (len : Int) : t.Refines (.bind fd sin_family sin_port s_addr len) := by
  simp only [Refines, call, SockCtx.call, usnet_bind, SockCtx.usnet_bind]
  rcases h.found hfd with ⟨hp, hmap⟩ | ⟨p, hp, hmap, rfl⟩
  · simp only [hp, hmap]
    exact ⟨rfl, fun r hr => Option.some.inj hr ▸ h⟩
  · simp only [hp, hmap]
    split
    · exact ⟨rfl, fun r hr => Option.some.inj hr ▸ h⟩
    · split
      · exact ⟨rfl, fun r hr => Option.some.inj hr ▸ h⟩
      · obtain ⟨hok, hset⟩ := @Ok.replace t h p { t.so p with
          so_sport := sin_port, so_saddr := s_addr, so_options := (t.so p).so_options ||| SO_BIND }
          hfd rfl (h.queues p)
        exact ⟨by rw [Option.map_some, hset], fun r hr => Option.some.inj hr ▸ hok⟩

theorem Ok.listen (h : t.Ok) {fd : UInt32} (hfd : fd ≠ 0) (connq_mem : Bool) (answer : Int) :
    t.Refines (.listen fd true connq_mem answer) := by
  simp only [Refines, call, SockCtx.call, usnet_listen, Usnet.usnet_listen]
  rcases h.found hfd with ⟨hp, hmap⟩ | ⟨p, hp, hmap, rfl⟩
  · simp only [hp, hmap]
    exact ⟨rfl, fun r hr => Option.some.inj hr ▸ h⟩
  -- wherever the call ends, the socket keeps its descriptor and has no queue or an empty one
  · have hput : ∀ (so_options : UInt16) (so_backlogq : Option BacklogQueue),
        (∀ queue, so_backlogq = some queue → queue.Sane) →
        let x := { t.so p with so_options := so_options, so_backlogq := so_backlogq }
        (t.put p x).Ok ∧ (t.put p x).sockets = t.sockets.set (t.so p).so_fd x :=
      fun so_options so_backlogq hq => h.replace hfd rfl hq
    have hnone : ∀ queue : BacklogQueue, none = some queue → queue.Sane := fun _ hq => by cases hq
    simp only [hp, hmap, Bool.true_eq_false, if_false]
    split
    · obtain ⟨hok, hset⟩ := hput (t.so p).so_options none hnone
      exact ⟨by rw [Option.map_some, hset], fun r hr => Option.some.inj hr ▸ hok⟩
    · split
      · obtain ⟨hok, hset⟩ := hput ((t.so p).so_options ||| SO_ACCEPT) none hnone
        exact ⟨by rw [Option.map_some, hset], fun r hr => Option.some.inj hr ▸ hok⟩
      · obtain ⟨hok, hset⟩ := hput ((t.so p).so_options ||| SO_ACCEPT)
          (some { bq_head := 0, bq_tail := 0, bq_size := SO_DEFAULT_BACKLOG, bq_connq := fun _ => 0 })
          (fun queue hq => by
            obtain rfl := Option.some.inj hq
            exact ⟨Nat.le_refl 0, fun i hi => absurd hi (Nat.not_lt_zero i)⟩)
        exact ⟨by rw [Option.map_some, hset], fun r hr => Option.some.inj hr ▸ hok⟩

theorem Ok.socket (h : t.Ok) (hmore : t.g_fd.toNat + 1 < 2 ^ 32) (dom type proto : UInt16) :
    t.Refines (.socket dom type proto) := by
  cases hget : usnet_cache_get t.socket_cache (.zero t.g_fd) with
  | none =>
    have hroom : t.room = false := by rw [room, hget]; rfl
    simp only [Refines, call, SockCtx.call, usnet_socket, SockCtx.usnet_socket, hget, hroom, if_true]
    exact ⟨rfl, fun r hr => Option.some.inj hr ▸ h.draw hmore⟩
  | some p =>
    have hroom : t.room = true := by rw [room, hget]; rfl
    simp only [Refines, call, SockCtx.call, usnet_socket, SockCtx.usnet_socket, hget, hroom,
      Bool.true_eq_false, if_false]
    obtain ⟨hok, hset⟩ := @Ok.create t h hmore p
      { UsnSocket.zero t.g_fd with so_dom := dom, so_type := type, so_proto := proto } hget rfl rfl
    exact ⟨by rw [Option.map_some, hset]; rfl, fun r hr => Option.some.inj hr ▸ hok⟩

end SockTable

/-- A descriptor goes behind the others. -/
theorem BacklogQueue.Sane.push {queue queue' : BacklogQueue} {fd : UInt32} (h : queue.Sane)
    (hfd : fd ≠ 0) (hpush : queue.push fd = some queue') : queue'.Sane := by
  obtain ⟨hhead, hcells⟩ := h
  unfold BacklogQueue.push at hpush
  split at hpush
  · rename_i hlt
    obtain rfl := Option.some.inj hpush
    rw [if_neg (by omega)]
    refine ⟨Nat.le_succ_of_le hhead, fun i hi => ?_⟩
    by_cases hi' : i = queue.bq_tail
    · simpa [hi'] using hfd
    · simpa [hi'] using hcells i (by simp only at hi; omega)
  · cases hpush

/-- What is taken off a queue that is not empty is a descriptor. -/
theorem BacklogQueue.Sane.pop {queue queue' : BacklogQueue} {con_fd : UInt32} (h : queue.Sane)
    (hne : queue.bq_head ≠ queue.bq_tail) (hpop : queue.pop = some (con_fd, queue')) :
    con_fd ≠ 0 ∧ queue'.Sane := by
  obtain ⟨hhead, hcells⟩ := h
  unfold BacklogQueue.pop at hpop
  split at hpop
  · obtain ⟨rfl, rfl⟩ := Prod.mk.inj (Option.some.inj hpop)
    refine ⟨hcells _ (by omega), ?_, hcells⟩
    simp only
    split <;> omega
  · cases hpop

namespace SockTable

variable {t : SockTable}

theorem Ok.newconn (h : t.Ok) {fd : UInt32} (hfd : fd ≠ 0) (hmore : t.g_fd.toNat + 1 < 2 ^ 32)
    (saddr : UInt32) (sport : UInt16) (daddr : UInt32) (dport : UInt16) :
    t.Refines (.newconn fd saddr sport daddr dport) := by
  rcases h.found hfd with ⟨hp, hmap⟩ | ⟨p, hp, hmap, rfl⟩
  · simp only [Refines, call, SockCtx.call, usnet_accept_newconn, Usnet.usnet_accept_newconn, hp,
      hmap]
    exact ⟨rfl, fun r hr => Option.some.inj hr ▸ h⟩
  cases hl : (t.so p).listening with
  | false =>
    simp only [Refines, call, SockCtx.call, usnet_accept_newconn, Usnet.usnet_accept_newconn, hp,
      hmap, hl, if_true]
    exact ⟨rfl, fun r hr => Option.some.inj hr ▸ h⟩
  | true =>
    cases hget : usnet_cache_get t.socket_cache (.zero t.g_fd) with
    | none =>
      have hroom : t.room = false := by rw [room, hget]; rfl
      simp only [Refines, call, SockCtx.call, usnet_accept_newconn, Usnet.usnet_accept_newconn, hp,
        hmap, hl, hget, hroom, Bool.true_eq_false, if_true, if_false]
      exact ⟨rfl, fun r hr => Option.some.inj hr ▸ h.draw hmore⟩
    | some q =>
      have hroom : t.room = true := by rw [room, hget]; rfl
      -- the listening socket is not in the empty slot
      have hpq : p ≠ q := by
        rintro rfl
        exact hfd (h.get hget).2
      have hso : ∀ (g_fd : UInt32) (x : UsnSocket),
          (({ t with g_fd := g_fd } : SockTable).put q x).so p = t.so p :=
        fun _ x => UsnHashbase.set_ne _ x hpq
      obtain ⟨hok, hset⟩ := @Ok.create t h hmore q
        (new_socket (t.so p) t.g_fd saddr sport daddr dport) hget rfl rfl
      have hg : t.g_fd ≠ 0 := by
        intro hzero
        have hlt := h.drawn p
        rw [hzero] at hlt
        exact absurd hlt (Nat.not_lt_zero _)
      simp only [Refines, call, SockCtx.call, usnet_accept_newconn, Usnet.usnet_accept_newconn, hp,
        hmap, hl, hget, hroom, Bool.true_eq_false, if_false, hso, put_put]
      cases hqueue : (t.so p).so_backlogq with
      | none => exact ⟨rfl, fun r hr => by cases hr⟩
      | some queue =>
        cases hpush : queue.push t.g_fd with
        | none =>
          simp only [sockets, hpush]
          exact ⟨rfl, fun r hr => by cases hr⟩
        | some queue' =>
          -- the new socket first, then the queue of the listening one
          generalize hnew : ({ t with g_fd := t.g_fd + 1 } : SockTable).put q
            (new_socket (t.so p) t.g_fd saddr sport daddr dport) = t' at hok hset ⊢
          have hsop : t'.so p = t.so p := by
            rw [← hnew]
            exact hso _ _
          have hsane := (h.queues p queue hqueue).push hg hpush
          obtain ⟨hok', hset'⟩ := @Ok.replace t' hok p { t.so p with so_backlogq := some queue' }
            (by rwa [hsop]) (by rw [hsop])
            (fun queue hq => by
              obtain rfl := Option.some.inj hq
              exact hsane)
          have hg_fd : t.sockets.g_fd = t.g_fd := rfl
          simp only [hg_fd, hpush]
          refine ⟨?_, fun r hr => Option.some.inj hr ▸ hok'⟩
          rw [Option.map_some, hset', hset]
          rfl

theorem Ok.accept (h : t.Ok) {fd : UInt32} (hfd : fd ≠ 0) : t.Refines (.accept fd true) := by
  rcases h.found hfd with ⟨hp, hmap⟩ | ⟨p, hp, hmap, rfl⟩
  · simp only [Refines, call, SockCtx.call, usnet_accept, Usnet.usnet_accept, hp, hmap]
    exact ⟨rfl, fun r hr => Option.some.inj hr ▸ h⟩
  simp only [Refines, call, SockCtx.call, usnet_accept, Usnet.usnet_accept, hp, hmap]
  split
  · exact ⟨rfl, fun r hr => Option.some.inj hr ▸ h⟩
  cases hqueue : (t.so p).so_backlogq with
  | none => exact ⟨rfl, fun r hr => by cases hr⟩
  | some queue =>
    simp only
    split
    · exact ⟨rfl, fun r hr => Option.some.inj hr ▸ h⟩
    · rename_i hne
      cases hpop : queue.pop with
      | none => exact ⟨rfl, fun r hr => by cases hr⟩
      | some next =>
        obtain ⟨con_fd, queue'⟩ := next
        obtain ⟨hcon, hsane⟩ := (h.queues p queue hqueue).pop hne hpop
        obtain ⟨hok, hset⟩ := @Ok.replace t h p { t.so p with so_backlogq := some queue' } hfd rfl
          (fun queue hq => by
            obtain rfl := Option.some.inj hq
            exact hsane)
        simp only [← hset]
        -- the connection is looked for in the table as it is now
        generalize t.put p { t.so p with so_backlogq := some queue' } = t' at hok ⊢
        rcases hok.found hcon with ⟨hq, hmap'⟩ | ⟨q, hq, hmap', -⟩
        · simp only [hq, hmap']
          exact ⟨rfl, fun r hr => Option.some.inj hr ▸ hok⟩
        · simp only [hq, hmap', if_true]
          exact ⟨rfl, fun r hr => Option.some.inj hr ▸
            ⟨hok.eqfn, hok.keyfn, hok.isemptyfn, hok.rows, hok.placed, hok.once, hok.drawn, hok.queues⟩⟩

theorem Ok.call (h : t.Ok) {c : SockCall} (hc : t.fits c) : t.Refines c := by
  cases c with
  | socket dom type proto => exact h.socket hc dom type proto
  | bind fd sin_family sin_port s_addr len => exact h.bind hc sin_family sin_port s_addr len
  | listen fd queue_mem connq_mem answer =>
    obtain ⟨hfd, rfl⟩ := hc
    exact h.listen hfd connq_mem answer
  | newconn fd saddr sport daddr dport => exact h.newconn hc.1 hc.2 saddr sport daddr dport
  | accept fd room =>
    obtain ⟨hfd, rfl⟩ := hc
    exact h.accept hfd

/-! ## Section 5: Runs -/

/-- One call; where it leaves an array there is no next state. -/
def Step (t : SockTable) (c : SockCall) (t' : SockTable) : Prop := ∃ r, t.call c = some (r, t')

/-- What `usnet_create_context` and `usnet_socket_init` leave. -/
def start : SockTable := { g_fd := 1, socket_cache := usnet_socket_init, ev_app2net_mq := [] }

theorem start_ok : start.Ok :=
  ⟨rfl, rfl, rfl, ⟨rfl, rfl⟩, fun _ hp => absurd rfl hp, fun _ _ _ hp => absurd rfl hp,
    fun _ => (by decide : (0 : Nat) < 1), fun _ _ hq => by cases hq⟩

/-- The first row alone has a slot for each of the first 96 descriptors. -/
theorem Ok.room_of_few (h : t.Ok) (hfew : t.g_fd.toNat < 97) : t.room = true := by
  obtain ⟨htime, hbase⟩ := h.rows
  have hfirst : t.socket_cache.hb_base.getD 0 0 = 97 := by
    rw [hbase]
    decide +kernel
  have hslot : ∀ x : UsnSocket, t.socket_cache.slot x 0 = (0, x.so_fd.toNat % 97) := by
    intro x
    unfold UsnHashbase.slot
    rw [hfirst, h.keyfn, UsnSocket.usnet_so_key]
  -- whoever lay there would have the same descriptor
  have hempty : (t.so (0, t.g_fd.toNat)).so_fd = 0 := by
    by_contra hne
    obtain ⟨i, -, hi⟩ := List.mem_map.mp (h.placed _ hne)
    have hrow : i = 0 := congrArg Prod.fst hi
    rw [hrow, hslot] at hi
    have hlt := h.drawn (0, t.g_fd.toNat)
    have hmod := congrArg Prod.snd hi
    simp only at hmod
    rw [Nat.mod_eq_of_lt (by omega)] at hmod
    omega
  have hpath : (0, t.g_fd.toNat) ∈ t.socket_cache.path (.zero t.g_fd) := by
    refine List.mem_map.mpr ⟨0, List.mem_range.mpr (by omega), ?_⟩
    rw [hslot]
    exact congrArg (Prod.mk 0) (Nat.mod_eq_of_lt hfew)
  rw [room, usnet_cache_get, List.find?_isSome]
  refine ⟨_, hpath, ?_⟩
  rw [h.isemptyfn, UsnSocket.usnet_so_isempty, beq_iff_eq]
  exact hempty

instance (t : SockTable) : (c : SockCall) → Decidable (t.fits c)
  | .socket _ _ _ => inferInstanceAs (Decidable (_ < _))
  | .bind _ _ _ _ _ => inferInstanceAs (Decidable (_ ≠ _))
  | .listen _ _ _ _ => inferInstanceAs (Decidable (_ ∧ _))
  | .newconn _ _ _ _ _ => inferInstanceAs (Decidable (_ ∧ _))
  | .accept _ _ => inferInstanceAs (Decidable (_ ∧ _))

/-- The calls one after the other, as long as they fit. -/
def calls (t : SockTable) : List SockCall → Option SockTable
  | [] => some t
  | c :: cs => if t.fits c then (t.call c).bind fun r => r.2.calls cs else none

theorem calls_cons {t' : SockTable} {c : SockCall} {cs : List SockCall}
    (h : t.calls (c :: cs) = some t') :
    t.fits c ∧ ∃ r t₁, t.call c = some (r, t₁) ∧ t₁.calls cs = some t' := by
  rw [calls] at h
  split at h
  · rename_i hfits
    obtain ⟨⟨r, t₁⟩, hr, hrest⟩ := Option.bind_eq_some_iff.mp h
    exact ⟨hfits, r, t₁, hr, hrest⟩
  · cases h

/-- A socket is bound and listens, and a connection comes in on it. -/
def opening : List SockCall :=
  [.socket 2 1 0, .bind 1 2 0x1b8a 0x020a0a0a 16, .listen 1 true true 0,
    .newconn 1 0x0200000a 0xd204 0x0100000a 0x5000]

end SockTable

end Usnet
