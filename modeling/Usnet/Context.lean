import Usnet.Lib.Layout

/-! # A new context (core.c and the init functions it calls)

    `usnet_create_context` clears `sizeof(ctx)` bytes of the block it has got
    from `malloc`: the size of the pointer, not of the context.  Everything
    behind the first field keeps what the block held before, unless one of the
    init functions stores to it.
-/

namespace Usnet

namespace Context

open Layout

/-! ## Section 1: The layout of `struct usn_context` -/

def nmd : Field := ⟨0, 8⟩
def log : Field := ⟨8, 8⟩
def cur_time : Field := ⟨16, 8⟩
def g_fd : Field := ⟨24, 4⟩
def flow_cnt : Field := ⟨28, 4⟩
def tcp_timewait : Field := ⟨32, 4⟩
def tcp_timeout : Field := ⟨36, 4⟩
def ifnet : Field := ⟨40, 8⟩
def arp_entries : Field := ⟨48, 8⟩
def arp_cnt : Field := ⟨56, 4⟩
def api_net2app_mq : Field := ⟨64, 8⟩
def api_app2net_mq : Field := ⟨72, 8⟩
def ev_net2app_mq : Field := ⟨80, 8⟩
def ev_app2net_mq : Field := ⟨88, 8⟩
def trigger_ring : Field := ⟨96, 16⟩
def nm_buf : Field := ⟨112, 8⟩
def tcb_cache : Field := ⟨120, 8⟩
def socket_cache : Field := ⟨128, 8⟩
def ringbuf_cache : Field := ⟨136, 8⟩
def sndbuf_cache : Field := ⟨144, 8⟩
def epoll_cache : Field := ⟨152, 8⟩
def rcvvars_mp : Field := ⟨160, 8⟩
def sndvars_mp : Field := ⟨168, 8⟩
def frag_mp : Field := ⟨176, 8⟩
def control_list_cnt : Field := ⟨232, 4⟩
def send_list_cnt : Field := ⟨236, 4⟩
def ack_list_cnt : Field := ⟨240, 4⟩
def rto_store : Field := ⟨248, 8⟩
def rto_list_cnt : Field := ⟨256, 4⟩
def timewait_list_cnt : Field := ⟨296, 4⟩
def timeout_list_cnt : Field := ⟨300, 4⟩
def listen_tcb : Field := ⟨304, 8⟩

/-- `TAILQ_HEAD`: the first element, and where the next one is linked. -/
structure Head where
  tqh_first : Field
  tqh_last : Field
  deriving DecidableEq

def control_list : Head := ⟨⟨184, 8⟩, ⟨192, 8⟩⟩
def send_list : Head := ⟨⟨200, 8⟩, ⟨208, 8⟩⟩
def ack_list : Head := ⟨⟨216, 8⟩, ⟨224, 8⟩⟩
def timewait_list : Head := ⟨⟨264, 8⟩, ⟨272, 8⟩⟩
def timeout_list : Head := ⟨⟨280, 8⟩, ⟨288, 8⟩⟩

/-- `sizeof(usn_context_t)`, and `sizeof(ctx)` of a pointer to one. -/
def sizeof_usn_context : Nat := 312
def sizeof_ctx : Nat := 8

/-! ## Section 2: The init functions -/

/-- What the allocations and the calls outside return; a null pointer is 0. -/
structure Env where
  /-- The address of the context. -/
  ctx : Nat
  ifcfg : Nat
  log : Nat
  nmd : Nat
  nm_buf : Nat
  /-- `calloc` of the `rto_hashstore`. -/
  hs : Nat
  arp_entries : Nat
  socket_cache : Nat
  tcb_cache : Nat
  ringbuf_cache : Nat
  frag_mp : Nat
  rcvvars_mp : Nat
  sndbuf_cache : Nat
  sndvars_mp : Nat
  ev_net2app_mq : Nat
  /-- Whether `usnet_init_shmmq` of the first queue succeeds. -/
  shmmq : Bool
  ev_app2net_mq : Nat
  /-- The context lies in the address space. -/
  fits : ctx + sizeof_usn_context ≤ 2 ^ 64

/-- `TAILQ_INIT` of a head in the context. -/
def TAILQ_INIT (ctx : Nat) (b : Block) (h : Head) : Block :=
  store (store b h.tqh_first 0) h.tqh_last (ctx + h.tqh_first.off)

/-- `usnet_create_context`, where `n` bytes are cleared. -/
def create_context (n : Nat) (env : Env) (b : Block) : Block :=
  let b := clear b n
  let b := store b g_fd 1
  let b := store b timewait_list_cnt 0
  let b := TAILQ_INIT env.ctx b timewait_list
  let b := TAILQ_INIT env.ctx b timeout_list
  let b := TAILQ_INIT env.ctx b control_list
  let b := TAILQ_INIT env.ctx b send_list
  let b := TAILQ_INIT env.ctx b ack_list
  let b := store b tcp_timewait 60
  let b := store b tcp_timeout 120
  store b g_fd 1

def usnet_create_context : Env → Block → Block := create_context sizeof_ctx

/-- The field of the context `usnet_get_network_info` sets. -/
def usnet_get_network_info (env : Env) (b : Block) : Block :=
  if env.ifcfg = 0 then b else store b ifnet env.ifcfg

def usnet_rtohash_init (env : Env) (b : Block) : Block :=
  if env.hs = 0 then b else store b rto_store env.hs

def usnet_arp_init (env : Env) (b : Block) : Block :=
  let b := store b arp_cnt 0
  let b := store b arp_entries env.arp_entries
  store b arp_cnt ((load b arp_cnt + 1) % 2 ^ 32)

def usnet_socket_init (env : Env) (b : Block) : Block := store b socket_cache env.socket_cache

def usnet_tcp_init (env : Env) (b : Block) : Block := store b tcb_cache env.tcb_cache

def usnet_ringbuf_init (env : Env) (b : Block) : Block :=
  let b := store b ringbuf_cache env.ringbuf_cache
  if env.ringbuf_cache = 0 then b
  else store (store b frag_mp env.frag_mp) rcvvars_mp env.rcvvars_mp

def usnet_sendbuf_init (env : Env) (b : Block) : Block :=
  let b := store b sndbuf_cache env.sndbuf_cache
  if env.sndbuf_cache = 0 then b else store b sndvars_mp env.sndvars_mp

def usnet_tcpev_init (env : Env) (b : Block) : Block :=
  let b := store b ev_net2app_mq env.ev_net2app_mq
  if env.ev_net2app_mq = 0 ∨ env.shmmq = false then b
  else store b ev_app2net_mq env.ev_app2net_mq

/-- `usnet_net_setup` down to `usnet_dispatch_net`, where the log and the netmap
    device have been opened. -/
def usnet_net_setup (env : Env) (b : Block) : Block :=
  let b := store b log env.log
  let b := store b nmd env.nmd
  let b := store b nm_buf env.nm_buf
  let b := usnet_rtohash_init env b
  let b := usnet_arp_init env b
  let b := usnet_socket_init env b
  let b := usnet_tcp_init env b
  let b := usnet_ringbuf_init env b
  let b := usnet_sendbuf_init env b
  usnet_tcpev_init env b

/-- The context the network side starts with, of a block that held `b`, where `n`
    bytes are cleared. -/
def new_context (n : Nat) (env : Env) (b : Block) : Block :=
  usnet_net_setup env (usnet_get_network_info env (create_context n env b))

example (env : Env) (b : Block) : new_context sizeof_ctx env b
    = usnet_net_setup env (usnet_get_network_info env (usnet_create_context env b)) := rfl

/-! ## Section 3: What they store to -/

/-- The fields set by `usnet_create_context` itself. -/
def created : List Field :=
  [g_fd, timewait_list_cnt, tcp_timewait, tcp_timeout, timewait_list.tqh_first,
    timewait_list.tqh_last, timeout_list.tqh_first, timeout_list.tqh_last,
    control_list.tqh_first, control_list.tqh_last, send_list.tqh_first, send_list.tqh_last,
    ack_list.tqh_first, ack_list.tqh_last]

/-- The fields set afterwards. -/
def initialised : List Field :=
  [ifnet, log, nmd, nm_buf, rto_store, arp_cnt, arp_entries, socket_cache, tcb_cache,
    ringbuf_cache, frag_mp, rcvvars_mp, sndbuf_cache, sndvars_mp, ev_net2app_mq,
    ev_app2net_mq]

/-- One more store to a field of a list. -/
theorem touches_then {fs : List Field} {b b' : Block} {f : Field} (v : Nat) (h : Touches fs b b')
    (hf : f ∈ fs) : Touches fs b (store b' f v) :=
  (h.trans (Touches.store b' f v)).mono (by
    intro g hg
    rcases List.mem_append.mp hg with hg | hg
    · exact hg
    · rw [List.mem_singleton.mp hg]
      exact hf)

theorem create_context_touches (n : Nat) (env : Env) (b : Block) :
    Touches created (clear b n) (create_context n env b) := by
  unfold create_context TAILQ_INIT
  repeat' apply touches_then _ _ (by decide)
  exact Touches.none _

section
variable {env : Env} {fs : List Field} {b b' : Block}

theorem usnet_get_network_info_touches (h : Touches initialised b b') :
    Touches initialised b (usnet_get_network_info env b') := by
  unfold usnet_get_network_info
  split
  · exact h
  · exact touches_then _ h (by decide)

theorem usnet_rtohash_init_touches (h : Touches initialised b b') :
    Touches initialised b (usnet_rtohash_init env b') := by
  unfold usnet_rtohash_init
  split
  · exact h
  · exact touches_then _ h (by decide)

theorem usnet_arp_init_touches (h : Touches initialised b b') :
    Touches initialised b (usnet_arp_init env b') := by
  unfold usnet_arp_init
  repeat' apply touches_then _ _ (by decide)
  exact h

theorem usnet_ringbuf_init_touches (h : Touches initialised b b') :
    Touches initialised b (usnet_ringbuf_init env b') := by
  have hcache := @touches_then initialised b b' ringbuf_cache env.ringbuf_cache h (by decide)
  unfold usnet_ringbuf_init
  simp only
  split
  · exact hcache
  · exact touches_then _ (touches_then _ hcache (by decide)) (by decide)

theorem usnet_sendbuf_init_touches (h : Touches initialised b b') :
    Touches initialised b (usnet_sendbuf_init env b') := by
  have hcache := @touches_then initialised b b' sndbuf_cache env.sndbuf_cache h (by decide)
  unfold usnet_sendbuf_init
  simp only
  split
  · exact hcache
  · exact touches_then _ hcache (by decide)

theorem usnet_tcpev_init_touches (h : Touches initialised b b') :
    Touches initialised b (usnet_tcpev_init env b') := by
  have hmq := @touches_then initialised b b' ev_net2app_mq env.ev_net2app_mq h (by decide)
  unfold usnet_tcpev_init
  simp only
  split
  · exact hmq
  · exact touches_then _ hmq (by decide)

end

theorem new_context_touches (n : Nat) (env : Env) (b : Block) :
    Touches initialised (create_context n env b) (new_context n env b) := by
  unfold new_context usnet_net_setup usnet_tcp_init usnet_socket_init
  apply usnet_tcpev_init_touches
  apply usnet_sendbuf_init_touches
  apply usnet_ringbuf_init_touches
  apply touches_then _ _ (by decide)
  apply touches_then _ _ (by decide)
  apply usnet_arp_init_touches
  apply usnet_rtohash_init_touches
  repeat' apply touches_then _ _ (by decide)
  apply usnet_get_network_info_touches
  exact Touches.none _

/-! ## Section 4: What the context starts with -/

/-- What later operations read before they write it. -/
def read_first : List Field :=
  [control_list_cnt, send_list_cnt, ack_list_cnt, rto_list_cnt, timeout_list_cnt, listen_tcb,
    epoll_cache, flow_cnt]

/-- No init function stores to any of them. -/
theorem read_first_untouched (n : Nat) (env : Env) (b : Block) {f : Field}
    (hf : f ∈ read_first) : load (new_context n env b) f = load (clear b n) f := by
  have hcreated : ∀ f ∈ read_first, ∀ g ∈ created, f.Disjoint g := by decide
  have hinit : ∀ f ∈ read_first, ∀ g ∈ initialised, f.Disjoint g := by decide
  rw [(new_context_touches n env b).load (hinit f hf),
    (create_context_touches n env b).load (hcreated f hf)]

/-- The queue is empty: no first element, and the next one is linked at the head. -/
def Head.IsEmpty (h : Head) (ctx : Nat) (b : Block) : Prop :=
  load b h.tqh_first = 0 ∧ load b h.tqh_last = ctx + h.tqh_first.off

/-- The queues with their counters. -/
def counted : List (Head × Field) :=
  [(control_list, control_list_cnt), (send_list, send_list_cnt), (ack_list, ack_list_cnt),
    (timewait_list, timewait_list_cnt), (timeout_list, timeout_list_cnt)]

/-- The invariants of the lists at the start: no element, and none counted. -/
def CountsStart (ctx : Nat) (b : Block) : Prop :=
  (∀ p ∈ counted, p.1.IsEmpty ctx b ∧ load b p.2 = 0) ∧ load b rto_list_cnt = 0

/-- `usnet_create_context` makes every queue empty. -/
theorem create_context_empty (n : Nat) (env : Env) (b : Block) :
    ∀ p ∈ counted, p.1.IsEmpty env.ctx (create_context n env b) := by
  have hfits := env.fits
  have hsize : sizeof_usn_context = 312 := rfl
  have hfirst : 0 < 256 ^ 8 := by decide
  have hlast : ∀ off < 312, env.ctx + off < 256 ^ 8 := fun off hoff => by omega
  intro p hp
  unfold Head.IsEmpty create_context TAILQ_INIT
  simp only [counted, List.mem_cons, List.not_mem_nil, or_false] at hp
  -- the two stores of each head, behind the stores to other fields
  rcases hp with rfl | rfl | rfl | rfl | rfl
  all_goals
    constructor
    · repeat rw [load_store_ne _ _ (by decide)]
      exact load_store _ _ hfirst
    · repeat rw [load_store_ne _ _ (by decide)]
      exact load_store _ _ (hlast _ (by decide))

/-- So they are when the network side starts. -/
theorem new_context_empty (n : Nat) (env : Env) (b : Block) :
    ∀ p ∈ counted, p.1.IsEmpty env.ctx (new_context n env b) := by
  intro p hp
  have hdisjoint : ∀ p ∈ counted, ∀ g ∈ initialised,
      p.1.tqh_first.Disjoint g ∧ p.1.tqh_last.Disjoint g := by decide
  obtain ⟨hfirst, hlast⟩ := create_context_empty n env b p hp
  have htouches := new_context_touches n env b
  constructor
  · rw [htouches.load fun g hg => (hdisjoint p hp g hg).1, hfirst]
  · rw [htouches.load fun g hg => (hdisjoint p hp g hg).2, hlast]

theorem timewait_list_cnt_zero (n : Nat) (env : Env) (b : Block) :
    load (new_context n env b) timewait_list_cnt = 0 := by
  have hdisjoint : ∀ g ∈ initialised, timewait_list_cnt.Disjoint g := by decide
  rw [(new_context_touches n env b).load hdisjoint]
  unfold create_context TAILQ_INIT
  repeat rw [load_store_ne _ _ (by decide)]
  exact load_store _ _ (by decide)

/-- The counters start right where those read first are zero. -/
theorem countsStart_of_zero {n : Nat} {env : Env} {b : Block}
    (h : ∀ f ∈ read_first, load (new_context n env b) f = 0) :
    CountsStart env.ctx (new_context n env b) := by
  have hcnt : ∀ p ∈ counted, p.2 = timewait_list_cnt ∨ p.2 ∈ read_first := by decide
  constructor
  · intro p hp
    refine ⟨new_context_empty n env b p hp, ?_⟩
    rcases hcnt p hp with htw | hmem
    · rw [htw, timewait_list_cnt_zero]
    · exact h _ hmem
  · exact h _ (by decide)

/-- Two blocks lead to contexts alike in all that is read first, zero and null, with
    the list invariants. -/
def Fresh (n : Nat) (env : Env) (b₁ b₂ : Block) : Prop :=
  (∀ f ∈ read_first, load (new_context n env b₁) f = load (new_context n env b₂) f ∧
    load (new_context n env b₁) f = 0) ∧
  CountsStart env.ctx (new_context n env b₁) ∧ CountsStart env.ctx (new_context n env b₂)

theorem fresh_iff_zero {n : Nat} {env : Env} {b₁ b₂ : Block} :
    Fresh n env b₁ b₂ ↔ ∀ f ∈ read_first,
      load (new_context n env b₁) f = 0 ∧ load (new_context n env b₂) f = 0 := by
  constructor
  · rintro ⟨hsame, -⟩ f hf
    obtain ⟨heq, hzero⟩ := hsame f hf
    exact ⟨hzero, heq.symm.trans hzero⟩
  · intro h
    refine ⟨?_, countsStart_of_zero fun f hf => (h f hf).1,
      countsStart_of_zero fun f hf => (h f hf).2⟩
    intro f hf
    obtain ⟨h₁, h₂⟩ := h f hf
    exact ⟨h₁.trans h₂.symm, h₁⟩

/-- Clearing the whole context would do, whatever the block held. -/
theorem fresh_of_cleared {n : Nat} (env : Env) (b₁ b₂ : Block)
    (hn : sizeof_usn_context ≤ n) : Fresh n env b₁ b₂ := by
  have hin : ∀ f ∈ read_first, f.off + f.size ≤ sizeof_usn_context := by decide
  rw [fresh_iff_zero]
  intro f hf
  have hle := Nat.le_trans (hin f hf) hn
  rw [read_first_untouched n env b₁ hf, read_first_untouched n env b₂ hf]
  exact ⟨load_clear b₁ hle, load_clear b₂ hle⟩

/-- Clearing as many bytes as a pointer has does exactly where the blocks held zeros
    in these fields. -/
theorem new_context_fresh_iff (env : Env) (b₁ b₂ : Block) :
    Fresh sizeof_ctx env b₁ b₂ ↔ ∀ f ∈ read_first, load b₁ f = 0 ∧ load b₂ f = 0 := by
  have hbehind : ∀ f ∈ read_first, sizeof_ctx ≤ f.off := by decide
  have hkeep : ∀ b, ∀ f ∈ read_first, load (new_context sizeof_ctx env b) f = load b f := by
    intro b f hf
    rw [read_first_untouched sizeof_ctx env b hf, load_clear_behind b (hbehind f hf)]
  rw [fresh_iff_zero]
  constructor
  · intro h f hf
    have hf' := h f hf
    rwa [hkeep b₁ f hf, hkeep b₂ f hf] at hf'
  · intro h f hf
    rw [hkeep b₁ f hf, hkeep b₂ f hf]
    exact h f hf

/-- Every allocation succeeds. -/
def some_env : Env :=
  { ctx := 4096, ifcfg := 1, log := 1, nmd := 1, nm_buf := 1, hs := 1, arp_entries := 1,
    socket_cache := 1, tcb_cache := 1, ringbuf_cache := 1, frag_mp := 1, rcvvars_mp := 1,
    sndbuf_cache := 1, sndvars_mp := 1, ev_net2app_mq := 1, shmmq := true, ev_app2net_mq := 1,
    fits := by decide }

/-- A block of zeros and one of ones: the lists are empty in both contexts, but the
    second one counts elements in all of them. -/
theorem stale_counters :
    ¬ Fresh sizeof_ctx some_env (fun _ => 0) (fun _ => 1) ∧
    control_list.IsEmpty some_env.ctx
      (new_context sizeof_ctx some_env (fun _ => 1)) ∧
    load (new_context sizeof_ctx some_env (fun _ => 1)) control_list_cnt = 0x01010101 := by
  have hcnt : load (new_context sizeof_ctx some_env (fun _ => 1)) control_list_cnt
      = 0x01010101 := by
    rw [read_first_untouched sizeof_ctx some_env _ (by decide),
      load_clear_behind _ (by decide)]
    decide
  refine ⟨?_, new_context_empty sizeof_ctx some_env _ (control_list, control_list_cnt)
    (by decide), hcnt⟩
  rw [fresh_iff_zero]
  intro h
  have hzero := (h control_list_cnt (by decide)).2
  rw [hcnt] at hzero
  cases hzero

end Context

end Usnet
