import Usnet.Queues

/-! # The timer lists

    The timeout, timewait and retransmission lists as the functions of a
    connection move it on them, and the rule by which an invariant of these
    lists is kept by every event: it is enough to look at the list operations.
-/

namespace Usnet

open CInt Run FlagList Relation

/-! ## Section 1: One connection -/

/-- What a block says about the timer lists. -/
structure TcbTimers where
  id : Nat
  empty : Bool
  on_timeout_list : Bool
  on_timewait_list : Bool
  on_rto_idx : Int
  last_active_ts : UInt32

/-- The timer lists and the clock. -/
structure CtxTimers where
  cur_time : UInt32
  tcp_timeout : Int
  timewait_list : List Nat
  timewait_list_cnt : Int
  timeout_list : List Nat
  timeout_list_cnt : Int
  rto_store : RtoStore
  rto_list_cnt : Int

def UsnTcb.timers (t : UsnTcb) : TcbTimers :=
  { id := t.id
    empty := usnet_tcb_isempty t
    on_timeout_list := t.on_timeout_list
    on_timewait_list := t.on_timewait_list
    on_rto_idx := t.on_rto_idx
    last_active_ts := t.last_active_ts }

def Ctx.timers (c : Ctx) : CtxTimers :=
  { cur_time := c.cur_time
    tcp_timeout := c.tcp_timeout
    timewait_list := c.timewait_list
    timewait_list_cnt := c.timewait_list_cnt
    timeout_list := c.timeout_list
    timeout_list_cnt := c.timeout_list_cnt
    rto_store := c.rto_store
    rto_list_cnt := c.rto_list_cnt }

/-- The two agree. -/
structure SameTimers (s s' : Conn) : Prop where
  tcb : s'.tcb.timers = s.tcb.timers
  ctx : s'.ctx.timers = s.ctx.timers

theorem SameTimers.refl {s : Conn} : SameTimers s s := ⟨rfl, rfl⟩

/-- The timer lists in the view of all lists. -/
def Links.timers (l : Links) : TcbTimers × CtxTimers :=
  (⟨l.id, l.empty, l.on_timeout_list, l.on_timewait_list, l.on_rto_idx, l.last_active_ts⟩,
    ⟨l.cur_time, l.tcp_timeout, l.timewait_list, l.timewait_list_cnt, l.timeout_list,
      l.timeout_list_cnt, l.rto_store, l.rto_list_cnt⟩)

theorem SameTimers.of_links {s s' : Conn} (h : s'.links.timers = s.links.timers) :
    SameTimers s s' := ⟨congrArg (·.1) h, congrArg (·.2) h⟩

/-- One operation on the timer lists. -/
inductive TimerStep : Conn → Conn → Prop
  | quiet {s s' : Conn} (h : SameTimers s s') : TimerStep s s'
  | touch (s : Conn) : TimerStep s (touch s)
  | add_rto (s : Conn) : TimerStep s (usnet_add_rto_list s)
  | remove_rto (s : Conn) : TimerStep s (usnet_remove_rto_list s)
  | add_timeout {s s' : Conn} (hpos : 0 < s.ctx.tcp_timeout)
      (hfresh : s.tcb.last_active_ts = s.ctx.cur_time) (h : usnet_add_timeout_list s = .ok s') :
      TimerStep s s'
  | remove_timeout (s : Conn) : TimerStep s (usnet_remove_timeout_list s)
  | add_timewait {s s' : Conn} (h : usnet_add_timewait_list s = .ok s') : TimerStep s s'
  | unlink_timewait (s : Conn) (h : s.tcb.on_timewait_list = true) :
      TimerStep s (unlink_timewait s)

theorem ListStep.timers {s s' : Conn} (h : ListStep s s') : TimerStep s s' := by
  cases h with
  | packet h =>
    cases h with
    | quiet h => exact .quiet (.of_links (congrArg Links.timers h))
    | touch => exact .touch s
    | add_rto => exact .add_rto s
    | add_ack =>
      refine .quiet ?_
      unfold usnet_add_ack_list
      split <;> exact ⟨rfl, rfl⟩
    | remove_ack =>
      refine .quiet ?_
      unfold usnet_remove_ack_list
      split <;> exact ⟨rfl, rfl⟩
  | queue_control =>
    refine .quiet ?_
    unfold Usnet.queue_control
    split <;> exact ⟨rfl, rfl⟩
  | requeue_control => exact .quiet ⟨rfl, rfl⟩
  | remove_control =>
    refine .quiet ?_
    unfold usnet_remove_control_list
    split <;> exact ⟨rfl, rfl⟩
  | add_send =>
    refine .quiet ?_
    unfold usnet_add_send_list
    split
    · exact .refl
    · split <;> exact ⟨rfl, rfl⟩
  | remove_send =>
    refine .quiet ?_
    unfold usnet_remove_send_list
    split <;> exact ⟨rfl, rfl⟩
  | remove_rto => exact .remove_rto s
  | add_timeout hpos hfresh h => exact .add_timeout hpos hfresh h
  | remove_timeout => exact .remove_timeout s
  | add_timewait h => exact .add_timewait h
  | unlink_timewait h => exact .unlink_timewait s h

/-- A sequence of operations. -/
def TimerMoves (s s' : Conn) : Prop := ReflTransGen TimerStep s s'

theorem TimerMoves.refl {s : Conn} : TimerMoves s s := ReflTransGen.refl

theorem TimerMoves.trans {s t s' : Conn} (h : TimerMoves s t) (h' : TimerMoves t s') :
    TimerMoves s s' := ReflTransGen.trans h h'

theorem TimerMoves.quiet {s s' : Conn} (h : SameTimers s s') : TimerMoves s s' :=
  ReflTransGen.single (.quiet h)

theorem Moves.timers {s s' : Conn} (h : Moves s s') : TimerMoves s s' := by
  induction h with
  | refl => exact .refl
  | tail _ hstep ih => exact ReflTransGen.tail ih hstep.timers

/-- A sequence keeps what every operation keeps. -/
theorem TimerMoves.invariant {I : Conn → Prop} (hstep : ∀ s s', I s → TimerStep s s' → I s')
    {s s' : Conn} (h : TimerMoves s s') (hi : I s) : I s' := by
  induction h with
  | refl => exact hi
  | tail _ hs ih => exact hstep _ _ ih hs

/-- What no operation changes. -/
structure TimerFramed (s s' : Conn) : Prop where
  id : s'.tcb.id = s.tcb.id
  empty : usnet_tcb_isempty s'.tcb = usnet_tcb_isempty s.tcb
  cur_time : s'.ctx.cur_time = s.ctx.cur_time
  tcp_timeout : s'.ctx.tcp_timeout = s.ctx.tcp_timeout

theorem Framed.timers {s s' : Conn} (h : Framed s s') : TimerFramed s s' :=
  ⟨h.id, h.empty, h.cur_time, h.tcp_timeout⟩

theorem SameTimers.framed {s s' : Conn} (h : SameTimers s s') : TimerFramed s s' :=
  ⟨congrArg TcbTimers.id h.tcb, congrArg TcbTimers.empty h.tcb, congrArg CtxTimers.cur_time h.ctx,
    congrArg CtxTimers.tcp_timeout h.ctx⟩

theorem TimerStep.framed {s s' : Conn} (h : TimerStep s s') : TimerFramed s s' := by
  cases h with
  | quiet h => exact h.framed
  | touch => exact (PacketStep.touch s).framed.timers
  | add_rto => exact (PacketStep.add_rto s).framed.timers
  | remove_rto => exact (ListStep.remove_rto s).framed.timers
  | add_timeout hpos hfresh h => exact (ListStep.add_timeout hpos hfresh h).framed.timers
  | remove_timeout => exact (ListStep.remove_timeout s).framed.timers
  | add_timewait h => exact (ListStep.add_timewait h).framed.timers
  | unlink_timewait h => exact (ListStep.unlink_timewait s h).framed.timers

theorem TimerMoves.framed {s s' : Conn} (h : TimerMoves s s') : TimerFramed s s' := by
  induction h with
  | refl => exact ⟨rfl, rfl, rfl, rfl⟩
  | tail _ hstep ih =>
    have hf := hstep.framed
    exact ⟨hf.id.trans ih.id, hf.empty.trans ih.empty, hf.cur_time.trans ih.cur_time,
      hf.tcp_timeout.trans ih.tcp_timeout⟩

/-- A function has run, and perhaps released the block. -/
def TimerRun (s s' : Conn) : Prop :=
  ∃ t, TimerMoves s t ∧ (SameTimers t s' ∨
    Unlinked t ∧ s'.ctx.timers = t.ctx.timers ∧ s'.tcb.timers = { t.tcb.timers with empty := true })

theorem TimerRun.refl {s : Conn} : TimerRun s s := ⟨s, .refl, .inl .refl⟩

theorem TimerMoves.run {s t s' : Conn} (h : TimerMoves s t) (h' : TimerRun t s') :
    TimerRun s s' := by
  obtain ⟨u, hu, hend⟩ := h'
  exact ⟨u, h.trans hu, hend⟩

/-- No function moves the clock. -/
theorem TimerRun.clock {s s' : Conn} (h : TimerRun s s') :
    s'.ctx.cur_time = s.ctx.cur_time ∧ s'.ctx.tcp_timeout = s.ctx.tcp_timeout := by
  obtain ⟨t, ht, hend⟩ := h
  have hctx : s'.ctx.timers = t.ctx.timers := by
    rcases hend with hsame | ⟨-, hctx, -⟩
    · exact hsame.ctx
    · exact hctx
  exact ⟨(congrArg CtxTimers.cur_time hctx).trans ht.framed.cur_time,
    (congrArg CtxTimers.tcp_timeout hctx).trans ht.framed.tcp_timeout⟩

theorem Outcome.timers {s s' : Conn} (h : Outcome s s') : TimerRun s s' := by
  rcases h with h | h
  · exact ⟨s', h.timers, .inl .refl⟩
  · obtain ⟨t, ht, hoff, hlinks⟩ := h.unlinked
    have htimers := congrArg Links.timers hlinks
    exact ⟨t, ht.timers, .inr ⟨hoff, congrArg (·.2) htimers, congrArg (·.1) htimers⟩⟩

theorem data_visit_timers {s s' : Conn} (hon : s.tcb.sndvar.on_send_list = true)
    (h : data_visit s = .ok s') : TimerRun s s' := by
  obtain ⟨t, ht, hend⟩ := data_visit_cases hon h
  have htake : SameTimers s (take_send s) := ⟨rfl, rfl⟩
  have hmoves : TimerMoves s t := (TimerMoves.quiet htake).trans ht.moves.timers
  rcases hend with rfl | hend
  · exact hmoves.run ⟨t, .refl, .inl ⟨rfl, rfl⟩⟩
  · have hdrop : SameTimers t (drop_send t) := ⟨rfl, rfl⟩
    exact (hmoves.trans (.quiet hdrop)).run hend.timers

/-! ## Section 2: All connections -/

/-- A new block, on none of the timer lists. -/
structure OnNoTimer (c : Ctx) (s : Conn) : Prop where
  ctx : s.ctx.timers = c.timers
  timeout : s.tcb.on_timeout_list = false
  timewait : s.tcb.on_timewait_list = false
  rto : s.tcb.on_rto_idx = -1

/-- A property of the process that follows the timer lists. -/
structure TimerKept (J : Host → Prop) : Prop where
  put : ∀ {h : Host} {id : Nat} {t : UsnTcb} {s : Conn}, OutputInv h → J h → h.tcb id = some t →
    TimerRun ⟨h.ctx, t⟩ s → J (h.put id s)
  create : ∀ {h : Host} {s : Conn}, OutputInv h → J h → h.tcb s.tcb.id = none → OnNoTimer h.ctx s →
    J (h.put s.tcb.id s)
  ctx : ∀ {h : Host} {c : Ctx}, J h → c.timers = h.ctx.timers → J { h with ctx := c }
  sockets : ∀ {h : Host} {f : UInt32 → Option Nat}, J h → J { h with so_tcb := f }

variable {J : Host → Prop}

theorem TimerKept.on (hk : TimerKept J) {h h' : Host} (hi : OutputInv h) (hj : J h) {id : Nat}
    {f : Conn → Except Fault Conn}
    (hf : ∀ t s, h.tcb id = some t → f ⟨h.ctx, t⟩ = .ok s → TimerRun ⟨h.ctx, t⟩ s)
    (hon : h.on id f = .ok h') : J h' := by
  unfold Host.on at hon
  cases ht : h.tcb id with
  | none =>
    rw [ht] at hon
    obtain rfl := Except.ok.inj hon
    exact hj
  | some t =>
    rw [ht] at hon
    simp only at hon
    split at hon
    · cases hon
    · rename_i s hs
      obtain rfl := Except.ok.inj hon
      exact hk.put hi hj ht (hf t s ht hs)

/-- A segment that no connection is found for. -/
theorem TimerKept.opened (hk : TimerKept J) {h : Host} (hi : OutputInv h) (hj : J h) {seg : Segment}
    {ret : Int} {c : Ctx} {t : Option UsnTcb}
    (hfree : ∀ id, h.ctx.tcb_cache = some id → h.tcb id = none) :
    usnet_tcp_input h.ctx none seg = .ok (ret, c, t) →
    J (match t with
      | none => { h with ctx := c }
      | some t => h.put t.id ⟨c, t⟩) := by
  intro hin
  have hlinks := usnet_tcp_input_opened hin
  cases t with
  | none =>
    have hsame := congrArg Links.timers (hlinks (init_newtcb c 0 ⟨0, 0, 0⟩ 0 0 0 0))
    exact hk.ctx hj (congrArg (·.2) hsame)
  | some t =>
    obtain ⟨id, l, hid, hnew⟩ := hlinks
    have htid : t.id = id := congrArg Links.id hnew
    have hsame := congrArg Links.timers hnew
    exact hk.create hi hj (htid ▸ hfree id hid) ⟨congrArg (·.2) hsame,
      congrArg Links.on_timeout_list hnew, congrArg Links.on_timewait_list hnew,
      congrArg Links.on_rto_idx hnew⟩

/-- Every event but the clock keeps it. -/
theorem TimerKept.step (hk : TimerKept J) {h h' : Host} {ev : HostEvent} (hi : OutputInv h)
    (hj : J h) (hclock : ∀ c, ev = .clock c → J { h with ctx := { h.ctx with cur_time := c } })
    (hstep : host_step h ev h') : J h' := by
  -- each event is a visit of one connection, or a loop of such visits
  cases ev with
  | surroundings e =>
    obtain rfl := hstep
    exact hk.ctx hj rfl
  | clock cur_time =>
    obtain rfl := hstep
    exact hclock cur_time rfl
  | segment found seg =>
    obtain ⟨hfinds, ret, c, t, hin, rfl⟩ := hstep
    cases found with
    | none => exact hk.opened hi hj hfinds hin
    | some id =>
      obtain ⟨u, hu, -⟩ := hfinds
      simp only [Option.bind_some, hu, usnet_tcp_input, bind, Except.bind, pure, Except.pure] at hin
      split at hin
      · cases hin
      rename_i r hseg
      obtain ⟨-, hct⟩ := Prod.mk.inj (Except.ok.inj hin)
      obtain ⟨rfl, rfl⟩ := Prod.mk.inj hct
      have hout := input_segment_outcome hseg
      have hid : r.2.tcb.id = id := (hout.queueRun (hi.live id u hu)).id.trans (hi.id id u hu)
      simp only [hid]
      exact hk.put hi hj hu hout.timers
  | rto id =>
    refine hk.on hi hj (fun t s _ hs => ?_) hstep.2
    unfold effect at hs
    split at hs
    · cases hs
    · rename_i r s₁ hrto
      obtain rfl := Except.ok.inj hs
      exact (usnet_handle_rto_outcome hrto).timers
  | connect id so fd result =>
    obtain ⟨-, -, h₁, hon, rfl⟩ := hstep
    have hj₁ : J h₁ := by
      refine hk.on hi hj (fun t s _ hs => ?_) hon
      obtain rfl := Except.ok.inj hs
      obtain ⟨u, buf_fd, hlinks, -, hout⟩ :=
        usnet_connect_net_handler_outcome ⟨h.ctx, t⟩ so fd result
      have hsame := (congrArg Links.timers hlinks).trans rfl
      exact (TimerMoves.quiet (.of_links hsame)).run hout.timers
    split
    · exact hk.sockets hj₁
    · exact hj₁
  | wrote id fd =>
    obtain ⟨t, buf, ht, hbuf, rfl, rfl⟩ := hstep
    split
    · exact hj
    · rw [hi.so_tcb id t buf.fd ht (by rw [hbuf]; rfl)]
      simp only [Host.add_send, ht]
      exact hk.put hi hj ht (Moves.one (.add_send ⟨h.ctx, t⟩)).outcome.timers
  | control thresh =>
    refine (OutputInv.control_loop (fun h h' c hi hj hc hon => ?_) _ hi hj
      (fun c hc => List.mem_of_mem_head? hc) hstep).2
    refine hk.on hi hj (fun t s ht hs => ?_) hon
    obtain ⟨t', ht', hflag⟩ := (hi.queues.control.mem c).mp hc
    obtain rfl := Option.some.inj (ht.symm.trans ht')
    obtain rfl := Except.ok.inj hs
    exact (control_visit_outcome hflag).timers
  | acks thresh =>
    refine (OutputInv.ack_loop (fun h h' c hi hj hc hon => ?_) _ hi hj
      (fun c hc => List.mem_of_mem_head? hc) hstep).2
    refine hk.on hi hj (fun t s ht hs => ?_) hon
    obtain ⟨t', ht', hflag⟩ := (hi.queues.ack.mem c).mp hc
    obtain rfl := Option.some.inj (ht.symm.trans ht')
    obtain rfl := Except.ok.inj hs
    exact (ack_visit_outcome hflag).timers
  | data thresh =>
    refine (OutputInv.data_loop (fun h h' c hi hj hc hon => ?_) _ hi hj
      (fun c hc => List.mem_of_mem_head? hc) hstep).2
    refine hk.on hi hj (fun t s ht hs => ?_) hon
    obtain ⟨t', ht', hflag⟩ := (hi.queues.send.mem c).mp hc
    obtain rfl := Option.some.inj (ht.symm.trans ht')
    exact data_visit_timers hflag hs
  | release id =>
    refine hk.on hi hj (fun t s _ hs => ?_) hstep.2
    obtain rfl := Except.ok.inj hs
    exact (released _).timers
  | timeout thresh =>
    refine (OutputInv.timeout_loop (fun h h' c hi hj hon => ?_) _ hi hj hstep).2
    refine hk.on hi hj (fun t s _ hs => ?_) hon
    obtain rfl := Except.ok.inj hs
    exact (timeout_visit_outcome _).timers

end Usnet
