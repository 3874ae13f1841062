import Usnet.TimerLists
import Usnet.Lib.Aging

/-! # Idle connections

    The timeout list is kept in the order of the connections' last activity,
    which is what allows `usnet_check_connection_timeout` to stop at the first
    connection that is not idle.
-/

namespace Usnet

open CInt Run FlagList Aging

/-! ## Section 1: One connection -/

/-- The timeout list as a connection sees it. -/
def Conn.timeoutQ (s : Conn) : Queue Nat :=
  (s.tcb.on_timeout_list, s.ctx.timeout_list, s.ctx.timeout_list_cnt)

/-- A connection in the course of a function: `f` are the stamps of the others,
    and `q` is the list as it was when the function began. -/
structure Idling (id : Nat) (q : Queue Nat) (f : Nat → UInt32) (s : Conn) : Prop where
  tcb_id : s.tcb.id = id
  relinks : Relinks id q s.timeoutQ
  linked : Linked id s.timeoutQ
  aged : Aged s.ctx.cur_time (Function.update f id s.tcb.last_active_ts) s.ctx.timeout_list
  timed : s.ctx.timeout_list ≠ [] → 0 < s.ctx.tcp_timeout

/-- What the list depends on. -/
structure SameIdle (s s' : Conn) : Prop where
  id : s'.tcb.id = s.tcb.id
  queue : s'.timeoutQ = s.timeoutQ
  last_active_ts : s'.tcb.last_active_ts = s.tcb.last_active_ts
  cur_time : s'.ctx.cur_time = s.ctx.cur_time
  tcp_timeout : s'.ctx.tcp_timeout = s.ctx.tcp_timeout

theorem Idling.congr {id : Nat} {q : Queue Nat} {f : Nat → UInt32} {s s' : Conn}
    (hi : Idling id q f s) (h : SameIdle s s') : Idling id q f s' := by
  have hlist : s'.ctx.timeout_list = s.ctx.timeout_list := congrArg (fun q => q.2.1) h.queue
  refine ⟨h.id.trans hi.tcb_id, ?_, ?_, ?_, ?_⟩
  · rw [h.queue]
    exact hi.relinks
  · rw [h.queue]
    exact hi.linked
  · rw [h.cur_time, h.last_active_ts, hlist]
    exact hi.aged
  · rw [hlist, h.tcp_timeout]
    exact hi.timed

theorem SameTimers.idle {s s' : Conn} (h : SameTimers s s') : SameIdle s s' :=
  ⟨h.framed.id, Prod.ext (congrArg TcbTimers.on_timeout_list h.tcb)
    (congrArg (fun c : CtxTimers => (c.timeout_list, c.timeout_list_cnt)) h.ctx),
    congrArg TcbTimers.last_active_ts h.tcb, h.framed.cur_time, h.framed.tcp_timeout⟩

theorem touch_on {s : Conn} (hon : s.tcb.on_timeout_list = true) :
    touch s = (s.onTcb fun t => { t with last_active_ts := s.ctx.cur_time }).onCtx fun c =>
      { c with timeout_list := c.timeout_list.erase s.tcb.id ++ [s.tcb.id] } := by
  unfold touch usnet_update_timeout_list
  exact if_pos hon

theorem touch_off {s : Conn} (hoff : ¬ s.tcb.on_timeout_list = true) :
    touch s = s.onTcb fun t => { t with last_active_ts := s.ctx.cur_time } := by
  unfold touch usnet_update_timeout_list
  exact if_neg hoff

/-- An active connection gets a new stamp and goes to the end. -/
theorem Idling.touch {id : Nat} {q : Queue Nat} {f : Nat → UInt32} {s : Conn}
    (hi : Idling id q f s) : Idling id q f (touch s) := by
  obtain ⟨hid, hrel, hlinked, haged, htimed⟩ := hi
  by_cases hon : s.tcb.on_timeout_list = true
  · rw [touch_on hon]
    have hmove : Relinks id s.timeoutQ
        (true, s.ctx.timeout_list.erase s.tcb.id ++ [s.tcb.id], s.ctx.timeout_list_cnt) := by
      rw [Conn.timeoutQ, hon, hid]
      exact .move _ _ _
    have hnot : id ∉ s.ctx.timeout_list.erase id :=
      fun h => (hlinked.nodup.mem_erase_iff.mp h).1 rfl
    refine ⟨hid, ?_, ?_, ?_, fun _ => htimed (List.ne_nil_of_mem (hlinked.mem.mpr hon))⟩
    · have hrel' := hrel.trans hmove
      rw [← hon] at hrel'
      exact hrel'
    · have hlinked' := hmove.linked hlinked
      rw [← hon] at hlinked'
      exact hlinked'
    · have herased : Aged s.ctx.cur_time (Function.update f id s.ctx.cur_time)
          (s.ctx.timeout_list.erase id) :=
        (haged.sublist List.erase_sublist).update hnot
      have happ := herased.append (x := id) (Function.update_self ..)
      simp only [Conn.onCtx_ctx, Conn.onCtx_tcb, Conn.onTcb_ctx, Conn.onTcb_tcb, hid]
      exact happ
  · rw [touch_off hon]
    exact ⟨hid, hrel, hlinked, haged.update fun h => hon (hlinked.mem.mp h), htimed⟩

theorem TimerStep.idling {id : Nat} {q : Queue Nat} {f : Nat → UInt32} {s s' : Conn}
    (hi : Idling id q f s) (h : TimerStep s s') : Idling id q f s' := by
  -- the other lists do not matter; on this one a connection goes last or goes away
  cases h with
  | quiet h => exact hi.congr h.idle
  | touch =>
    exact hi.touch
  | add_rto =>
    refine hi.congr ?_
    unfold usnet_add_rto_list
    simp only
    split
    · split
      · split <;> exact ⟨rfl, rfl, rfl, rfl, rfl⟩
      · exact ⟨rfl, rfl, rfl, rfl, rfl⟩
    · split
      · split <;> exact ⟨rfl, rfl, rfl, rfl, rfl⟩
      · exact ⟨rfl, rfl, rfl, rfl, rfl⟩
  | remove_rto =>
    refine hi.congr ?_
    unfold usnet_remove_rto_list
    split <;> exact ⟨rfl, rfl, rfl, rfl, rfl⟩
  | add_timeout hpos hfresh h =>
    obtain ⟨hid, hrel, hlinked, haged, -⟩ := hi
    unfold usnet_add_timeout_list at h
    split at h
    · cases h
    rename_i hoff
    obtain rfl := Except.ok.inj h
    have happ : Relinks id s.timeoutQ
        (true, s.ctx.timeout_list ++ [s.tcb.id], s.ctx.timeout_list_cnt + 1) := by
      rw [Conn.timeoutQ, Bool.eq_false_iff.mpr hoff, hid]
      exact .append _ _ _
    refine ⟨hid, hrel.trans happ, happ.linked hlinked, ?_, fun _ => hpos⟩
    simp only [Conn.onCtx_ctx, Conn.onCtx_tcb, Conn.onTcb_ctx, Conn.onTcb_tcb, hid]
    exact haged.append ((Function.update_self ..).trans hfresh)
  | remove_timeout =>
    obtain ⟨hid, hrel, hlinked, haged, htimed⟩ := hi
    unfold usnet_remove_timeout_list
    split
    · rename_i hon
      have herase : Relinks id s.timeoutQ
          (false, s.ctx.timeout_list.erase s.tcb.id, s.ctx.timeout_list_cnt - 1) := by
        rw [Conn.timeoutQ, hon, hid]
        exact .erase _ _ _
      exact ⟨hid, hrel.trans herase, herase.linked hlinked, haged.sublist List.erase_sublist,
        fun _ => htimed (List.ne_nil_of_mem (hlinked.mem.mpr hon))⟩
    · exact ⟨hid, hrel, hlinked, haged, htimed⟩
  | add_timewait h =>
    refine hi.congr ?_
    unfold usnet_add_timewait_list at h
    simp only at h
    split at h
    · obtain rfl := Except.ok.inj h
      exact ⟨rfl, rfl, rfl, rfl, rfl⟩
    · split at h
      · cases h
      · obtain rfl := Except.ok.inj h
        exact ⟨rfl, rfl, rfl, rfl, rfl⟩
  | unlink_timewait => exact hi.congr ⟨rfl, rfl, rfl, rfl, rfl⟩

theorem TimerMoves.idling {id : Nat} {q : Queue Nat} {f : Nat → UInt32} {s s' : Conn}
    (hi : Idling id q f s) (h : TimerMoves s s') : Idling id q f s' :=
  h.invariant (fun _ _ hi hstep => hstep.idling hi) hi

/-! ## Section 2: All connections -/

/-- When the connection at an address was last active. -/
def Host.stamp (h : Host) (id : Nat) : UInt32 :=
  match h.tcb id with
  | none => 0
  | some t => t.last_active_ts

/-- The timeout list is in order. -/
structure IdleInv (h : Host) : Prop where
  listed : Listed h (·.on_timeout_list) h.ctx.timeout_list h.ctx.timeout_list_cnt
  aged : Aged h.ctx.cur_time h.stamp h.ctx.timeout_list
  timed : h.ctx.timeout_list ≠ [] → 0 < h.ctx.tcp_timeout

theorem Host.stamp_update {h : Host} {id : Nat} {t : UsnTcb} (ht : h.tcb id = some t) :
    Function.update h.stamp id t.last_active_ts = h.stamp := by
  refine Function.update_eq_self_iff.mpr ?_
  rw [Host.stamp, ht]

/-- A connection takes its place again. -/
theorem IdleInv.placed {h : Host} (hi : IdleInv h) {id : Nat} {s : Conn} {q : Queue Nat}
    (hold : Linked id q) (hlist : q.2 = (h.ctx.timeout_list, h.ctx.timeout_list_cnt))
    (hs : Idling id q h.stamp s)
    (halive : alive s.tcb = some s.tcb ∨ alive s.tcb = none ∧ s.tcb.on_timeout_list = false) :
    IdleInv (h.put id s) := by
  obtain ⟨b, l, n⟩ := q
  obtain ⟨rfl, rfl⟩ := Prod.mk.inj hlist
  refine ⟨hi.listed.put hold hs.relinks halive, ?_, hs.timed⟩
  refine hs.aged.congr fun a ha => ?_
  by_cases haid : a = id
  · subst haid
    rcases halive with halive | ⟨-, hoff⟩
    · simp only [Host.stamp, Host.put, Function.update_self, halive]
    · cases (hs.linked.mem.mp ha).symm.trans hoff
  · simp only [Host.stamp, Host.put, Function.update_of_ne haid]

theorem IdleInv.put {h : Host} (hi : OutputInv h) (hj : IdleInv h) {id : Nat} {t : UsnTcb} {s : Conn}
    (ht : h.tcb id = some t) (hrun : TimerRun ⟨h.ctx, t⟩ s) : IdleInv (h.put id s) := by
  obtain ⟨u, hmoves, hend⟩ := hrun
  have hold := hj.listed.linked ht
  have hstart : Idling id (t.on_timeout_list, h.ctx.timeout_list, h.ctx.timeout_list_cnt) h.stamp
      ⟨h.ctx, t⟩ := by
    refine ⟨hi.id id t ht, .refl, hold, ?_, hj.timed⟩
    rw [Host.stamp_update ht]
    exact hj.aged
  have hu := hmoves.idling hstart
  rcases hend with hsame | ⟨hoff, hctx, htcb⟩
  · refine hj.placed hold rfl (hu.congr hsame.idle) (.inl (alive_of_live ?_))
    exact hsame.framed.empty.trans (hmoves.framed.empty.trans (hi.live id t ht))
  · have hflag : u.tcb.on_timeout_list = false := by
      by_contra hon
      rw [Bool.not_eq_false] at hon
      have hpos := hu.timed (List.ne_nil_of_mem (hu.linked.mem.mpr hon))
      cases hon.symm.trans (hoff.timeout hpos)
    have hsame : SameIdle u s := ⟨congrArg TcbTimers.id htcb,
      Prod.ext (congrArg TcbTimers.on_timeout_list htcb)
        (congrArg (fun c : CtxTimers => (c.timeout_list, c.timeout_list_cnt)) hctx),
      congrArg TcbTimers.last_active_ts htcb, congrArg CtxTimers.cur_time hctx,
      congrArg CtxTimers.tcp_timeout hctx⟩
    refine hj.placed hold rfl (hu.congr hsame) (.inr ⟨?_, ?_⟩)
    · have hempty : usnet_tcb_isempty s.tcb = true := congrArg TcbTimers.empty htcb
      rw [alive, hempty]
      rfl
    · exact (congrArg TcbTimers.on_timeout_list htcb).trans hflag

theorem IdleInv.create {h : Host} (hj : IdleInv h) {s : Conn} (hfree : h.tcb s.tcb.id = none)
    (hnew : OnNoTimer h.ctx s) : IdleInv (h.put s.tcb.id s) := by
  have hold := hj.listed.absent hfree
  have hlist := congrArg (fun c : CtxTimers => (c.timeout_list, c.timeout_list_cnt)) hnew.ctx
  have hq : s.timeoutQ = (false, h.ctx.timeout_list, h.ctx.timeout_list_cnt) :=
    Prod.ext hnew.timeout hlist
  have hnot : s.tcb.id ∉ h.ctx.timeout_list := fun hmem => by cases hold.mem.mp hmem
  have halive : alive s.tcb = some s.tcb ∨ alive s.tcb = none ∧ s.tcb.on_timeout_list = false := by
    unfold Usnet.alive
    split
    · exact .inr ⟨rfl, hnew.timeout⟩
    · exact .inl rfl
  refine hj.placed hold rfl ⟨rfl, .of_eq hq, hq ▸ hold, ?_, ?_⟩ halive
  · rw [show s.ctx.cur_time = h.ctx.cur_time from congrArg CtxTimers.cur_time hnew.ctx,
      show s.ctx.timeout_list = h.ctx.timeout_list from congrArg (·.1) hlist]
    refine hj.aged.congr fun a ha => Function.update_of_ne ?_ _ _
    rintro rfl
    exact hnot ha
  · rw [show s.ctx.timeout_list = h.ctx.timeout_list from congrArg (·.1) hlist,
      show s.ctx.tcp_timeout = h.ctx.tcp_timeout from congrArg CtxTimers.tcp_timeout hnew.ctx]
    exact hj.timed

theorem IdleInv.ctx {h : Host} (hj : IdleInv h) {c : Ctx} (hc : c.timers = h.ctx.timers) :
    IdleInv { h with ctx := c } := by
  obtain ⟨hlisted, haged, htimed⟩ := hj
  have hlist : c.timeout_list = h.ctx.timeout_list := congrArg CtxTimers.timeout_list hc
  have hcnt : c.timeout_list_cnt = h.ctx.timeout_list_cnt := congrArg CtxTimers.timeout_list_cnt hc
  have hcur : c.cur_time = h.ctx.cur_time := congrArg CtxTimers.cur_time hc
  have hto : c.tcp_timeout = h.ctx.tcp_timeout := congrArg CtxTimers.tcp_timeout hc
  refine ⟨?_, ?_, ?_⟩
  · simp only [hlist, hcnt]
    exact hlisted.congr rfl
  · simp only [hlist, hcur]
    exact haged
  · simp only [hlist, hto]
    exact htimed

theorem IdleInv.kept : TimerKept IdleInv where
  put hi hj ht hrun := hj.put hi ht hrun
  create _ hj hfree hnew := hj.create hfree hnew
  ctx hj hc := hj.ctx hc
  sockets hj := ⟨hj.listed.congr rfl, hj.aged, hj.timed⟩

/-! ## Section 3: Runs -/

/-- The clock never goes back, and stays within `2^31` of the stamps on the list. -/
def clock_goes_on (h : Host) : HostEvent → Prop
  | .clock cur_time => TCP_SEQ_LEQ h.ctx.cur_time cur_time ∧
      ∀ id ∈ h.ctx.timeout_list, (cur_time - h.stamp id).toNat < 2 ^ 31
  | _ => True

/-- Reached while the clock goes on. -/
abbrev TimedReachable : Host → Prop := RunWhere host_step clock_goes_on Host.Fresh

theorem IdleInv.clock {h : Host} (hj : IdleInv h) {cur_time : UInt32}
    (hc : clock_goes_on h (.clock cur_time)) :
    IdleInv { h with ctx := { h.ctx with cur_time := cur_time } } := by
  obtain ⟨hle, hrecent⟩ := hc
  exact ⟨hj.listed.congr rfl, hj.aged.later (ahead_le_of_sint_sub hle) hrecent, hj.timed⟩

theorem IdleInv.fresh {h : Host} (hf : h.Fresh) : IdleInv h := by
  obtain ⟨hlist, hcnt⟩ := hf.timeout
  refine ⟨⟨?_, fun id => ?_, ?_⟩, ?_, ?_⟩
  · rw [hlist]
    exact List.nodup_nil
  · rw [hlist, hf.tcb id]
    simp
  · rw [hlist, hcnt]
    rfl
  · rw [hlist]
    exact .nil
  · exact fun hne => absurd hlist hne

theorem TimedReachable.inv {h : Host} (hr : TimedReachable h) : OutputInv h ∧ IdleInv h := by
  refine RunWhere.invariant (I := fun h => OutputInv h ∧ IdleInv h)
    (fun h hf => ⟨.fresh hf, .fresh hf⟩) ?_ hr
  rintro h ev h' ⟨hi, hj⟩ hc hstep
  refine ⟨hi.step hstep, IdleInv.kept.step hi hj ?_ hstep⟩
  rintro c rfl
  exact hj.clock hc

/-! ## Section 4: The check -/

/-- What becomes of a connection that has timed out. -/
def timed_out (t : UsnTcb) : Option UsnTcb :=
  if t.socket.isSome then
    some { t with on_timeout_list := false, state := .closed, close_reason := .timedout }
  else none

/-- Exactly the idle connections on the list are closed. -/
structure ClosesIdle (h h' : Host) : Prop where
  closed : ∀ id ∈ h.ctx.timeout_list, h.test id idle → id ∉ h'.ctx.timeout_list ∧
    h'.tcb id = (h.tcb id).bind timed_out
  kept : ∀ id, ¬ (id ∈ h.ctx.timeout_list ∧ h.test id idle) → h'.tcb id = h.tcb id ∧
    (id ∈ h'.ctx.timeout_list ↔ id ∈ h.ctx.timeout_list)

/-- Off the timeout list, which is `l`. -/
def OffTimeout (l : List Nat) (s : Conn) : Prop :=
  s.tcb.on_timeout_list = false ∧ s.ctx.timeout_list = l

theorem unlink_tcb_offTimeout {l : List Nat} {s : Conn} (h : OffTimeout l s) :
    OffTimeout l (unlink_tcb s) := by
  have hcontrol : ∀ {s}, OffTimeout l s → OffTimeout l (usnet_remove_control_list s) := by
    intro s h
    unfold usnet_remove_control_list
    split <;> exact h
  have hsend : ∀ {s}, OffTimeout l s → OffTimeout l (usnet_remove_send_list s) := by
    intro s h
    unfold usnet_remove_send_list
    split <;> exact h
  have hack : ∀ {s}, OffTimeout l s → OffTimeout l (usnet_remove_ack_list s) := by
    intro s h
    unfold usnet_remove_ack_list
    split <;> exact h
  have hrto : ∀ {s}, OffTimeout l s → OffTimeout l (usnet_remove_rto_list s) := by
    intro s h
    unfold usnet_remove_rto_list
    split <;> exact h
  have htimeout : ∀ {s}, OffTimeout l s → OffTimeout l (usnet_remove_timeout_list s) := by
    intro s h
    unfold usnet_remove_timeout_list
    rw [if_neg (by rw [h.1]; decide)]
    exact h
  -- the lists in the order in which they are left
  have hqueues := hack (hsend (hcontrol h))
  unfold unlink_tcb
  simp only
  generalize usnet_remove_ack_list (usnet_remove_send_list (usnet_remove_control_list s)) = t at hqueues
  have ht : OffTimeout l (if t.tcb.on_rto_idx ≥ 0 then usnet_remove_rto_list t else t) := by
    split
    · exact hrto hqueues
    · exact hqueues
  generalize (if t.tcb.on_rto_idx ≥ 0 then usnet_remove_rto_list t else t) = u at ht
  have hu : OffTimeout l (if u.tcb.on_timewait_list then unlink_timewait u else u) := by
    split <;> exact ht
  generalize (if u.tcb.on_timewait_list then unlink_timewait u else u) = v at hu
  split
  · exact htimeout hu
  · exact hu

/-- A connection taken off the list and closed. -/
def close_idle (s : Conn) : Conn :=
  (s.onTcb fun t =>
    { t with on_timeout_list := false, state := .closed, close_reason := .timedout }).onCtx fun c =>
    { c with
      timeout_list := c.timeout_list.erase s.tcb.id
      timeout_list_cnt := c.timeout_list_cnt - 1 }

theorem timeout_visit_eq {s : Conn} (hon : s.tcb.on_timeout_list = true) (hidle : idle s = true) :
    timeout_visit s = if s.tcb.socket.isSome then usnet_raise_error_event (close_idle s)
      else usnet_release_tcb (close_idle s) := by
  have hdue : sint (s.ctx.cur_time - s.tcb.last_active_ts) ≥ s.ctx.tcp_timeout :=
    of_decide_eq_true hidle
  unfold timeout_visit usnet_remove_timeout_list
  rw [if_pos hdue, if_pos hon]
  rfl

/-- The visit of an idle connection. -/
theorem timeout_visit_idle {s : Conn} (hlive : usnet_tcb_isempty s.tcb = false)
    (hon : s.tcb.on_timeout_list = true) (hidle : idle s = true) :
    alive (timeout_visit s).tcb = timed_out s.tcb ∧
    (timeout_visit s).ctx.timeout_list = s.ctx.timeout_list.erase s.tcb.id := by
  rw [timeout_visit_eq hon hidle]
  unfold timed_out
  split
  · exact ⟨alive_of_live hlive, rfl⟩
  · refine ⟨?_, (unlink_tcb_offTimeout ⟨rfl, rfl⟩).2⟩
    rw [alive, usnet_release_tcb_empty]
    rfl

theorem Host.test_of_some {h : Host} {id : Nat} {t : UsnTcb} (ht : h.tcb id = some t)
    (p : Conn → Bool) : h.test id p = p ⟨h.ctx, t⟩ := by
  rw [Host.test, ht]

theorem Host.test_idle {h : Host} {id : Nat} {t : UsnTcb} (ht : h.tcb id = some t) :
    h.test id idle = decide (sint (h.ctx.cur_time - h.stamp id) ≥ h.ctx.tcp_timeout) := by
  rw [h.test_of_some ht, Host.stamp, ht]
  rfl

/-- When the first connection is not idle, none is. -/
theorem IdleInv.none_idle {h : Host} (hj : IdleInv h) {c : Nat} {rest : List Nat}
    (hl : h.ctx.timeout_list = c :: rest) (hc : ¬ h.test c idle = true) :
    ClosesIdle h h := by
  refine ⟨fun id hid hidle => ?_, fun id _ => ⟨rfl, Iff.rfl⟩⟩
  obtain ⟨t, ht, -⟩ := (hj.listed.mem id).mp hid
  obtain ⟨tc, htc, -⟩ := (hj.listed.mem c).mp (by rw [hl]; exact List.mem_cons_self)
  rw [h.test_idle htc, decide_eq_true_eq] at hc
  rw [h.test_idle ht, decide_eq_true_eq] at hidle
  have haged := hj.aged
  rw [hl] at hid haged
  rcases List.mem_cons.mp hid with rfl | hid
  · exact absurd hidle hc
  · have hfresh := haged.fresh (lt_of_not_ge hc) hid
    omega

/-- Closing the first connection and then the others. -/
theorem ClosesIdle.cons {h h₁ h' : Host} {c : Nat} {rest : List Nat} {t : UsnTcb}
    (hl : h.ctx.timeout_list = c :: rest) (hc : c ∉ rest) (ht : h.tcb c = some t)
    (hl₁ : h₁.ctx.timeout_list = rest) (hc₁ : h₁.tcb c = timed_out t)
    (hothers : ∀ id, id ≠ c → h₁.tcb id = h.tcb id ∧ h₁.test id idle = h.test id idle)
    (hidle : h.test c idle = true) (hrest : ClosesIdle h₁ h') : ClosesIdle h h' := by
  have hkept := hrest.kept c (fun hin => hc (hl₁ ▸ hin.1))
  refine ⟨fun id hid hid' => ?_, fun id hid => ?_⟩
  · by_cases hne : id = c
    · subst hne
      rw [hkept.1, hkept.2, hl₁, ht]
      exact ⟨hc, hc₁⟩
    · rw [hl] at hid
      have hin : id ∈ h₁.ctx.timeout_list := by
        rw [hl₁]
        exact (List.mem_cons.mp hid).resolve_left hne
      obtain ⟨htcb, htest⟩ := hothers id hne
      rw [← htcb]
      exact hrest.closed id hin (htest ▸ hid')
  · have hne : id ≠ c := by
      rintro rfl
      exact hid ⟨by rw [hl]; exact List.mem_cons_self, hidle⟩
    obtain ⟨htcb, htest⟩ := hothers id hne
    have hmem : id ∈ h₁.ctx.timeout_list ↔ id ∈ h.ctx.timeout_list := by
      rw [hl₁, hl, List.mem_cons, or_iff_right hne]
    rw [← htest, ← hmem] at hid
    obtain ⟨hsame, hin⟩ := hrest.kept id hid
    exact ⟨hsame.trans htcb, hin.trans hmem⟩

/-- The check of a list that is not too long. -/
theorem timeout_loop_closes : ∀ (cnt : Nat) {h : Host}, OutputInv h → IdleInv h →
    h.ctx.timeout_list.length ≤ cnt →
    ∃ h', timeout_loop cnt h h.ctx.timeout_list.head? = .ok h' ∧ ClosesIdle h h'
  | cnt, h, hi, hj, hlen => by
    -- on the length of the list, whose head is visited and taken off
    cases hl : h.ctx.timeout_list with
    | nil =>
      refine ⟨h, ?_, ?_, fun id _ => ⟨rfl, Iff.rfl⟩⟩
      · cases cnt <;> rfl
      · intro id hid
        rw [hl] at hid
        cases hid
    | cons c rest =>
      rw [hl] at hlen
      obtain ⟨cnt, rfl⟩ : ∃ n, cnt = n + 1 := ⟨cnt - 1, by simp only [List.length_cons] at hlen; omega⟩
      obtain ⟨t, ht, hon⟩ := (hj.listed.mem c).mp (by rw [hl]; exact List.mem_cons_self)
      have hnext : tailq_next h.ctx.timeout_list c = rest.head? := by
        rw [hl]
        simp [tailq_next, List.head?_eq_getElem?]
      have hnodup := hj.listed.nodup
      rw [hl] at hnodup
      unfold timeout_loop
      simp only [List.head?_cons, hnext]
      by_cases hidle : h.test c idle = true
      · rw [if_pos hidle]
        have hout := timeout_visit_outcome ⟨h.ctx, t⟩
        have hlive := hi.live c t ht
        have hi₁ := (hi.put ht (hout.queueRun hlive)).1
        have hj₁ := hj.put hi ht hout.timers
        obtain ⟨hdone, hlist⟩ := timeout_visit_idle (s := ⟨h.ctx, t⟩) hlive hon
          (h.test_of_some ht idle ▸ hidle)
        have hl₁ : (h.put c (timeout_visit ⟨h.ctx, t⟩)).ctx.timeout_list = rest := by
          refine hlist.trans ?_
          rw [hl, hi.id c t ht]
          exact List.erase_cons_head c rest
        obtain ⟨h', hok, hcloses⟩ := timeout_loop_closes cnt hi₁ hj₁ (by
          rw [hl₁]
          simpa using hlen)
        have hon : h.on c (fun s => .ok (timeout_visit s)) = .ok (h.put c (timeout_visit ⟨h.ctx, t⟩)) := by
          rw [Host.on, ht]
        rw [hl₁] at hok
        simp only [hon]
        refine ⟨h', hok, hcloses.cons hl (List.nodup_cons.mp hnodup).1 ht hl₁ ?_ ?_ hidle⟩
        · exact (Function.update_self ..).trans hdone
        · intro id hne
          have htcb : (h.put c (timeout_visit ⟨h.ctx, t⟩)).tcb id = h.tcb id :=
            Function.update_of_ne hne ..
          refine ⟨htcb, ?_⟩
          -- the visit does not touch the clock the others are tested by
          obtain ⟨hcur, hto⟩ := hout.timers.clock
          unfold Host.test
          rw [htcb]
          cases h.tcb id with
          | none => rfl
          | some u =>
            unfold idle Host.put
            simp only [hcur, hto]
      -- the list is sorted by age, so none behind it is idle either
      · rw [if_neg hidle]
        exact ⟨h, rfl, hj.none_idle hl hidle⟩

/-- While the clock goes on, the timeout list is in the order of last activity, and
    a check that is allowed as many visits as there are connections closes exactly
    the idle ones. -/
theorem idle_detection {h : Host} (hr : TimedReachable h) :
    h.ctx.timeout_list.Pairwise (fun a b => TCP_SEQ_LEQ (h.stamp a) (h.stamp b)) ∧
    ∀ thresh : Int, h.ctx.timeout_list.length ≤ thresh →
      ∃ h', usnet_check_connection_timeout h thresh = .ok h' ∧ ClosesIdle h h' := by
  obtain ⟨hi, hj⟩ := hr.inv
  refine ⟨hj.aged.stamps, fun thresh hlen => ?_⟩
  exact timeout_loop_closes thresh.toNat hi hj (by omega)

/-- A process whose link is up. -/
def up_host : Host := { ctx := quiet_ctx, tcb := fun _ => none, so_tcb := fun _ => none }

theorem up_host_fresh : up_host.Fresh :=
  ⟨fun _ => rfl, fun _ => rfl, ⟨rfl, rfl⟩, ⟨rfl, rfl⟩, ⟨rfl, rfl⟩, ⟨rfl, rfl⟩⟩

/-- A connection is accepted and established. -/
def accepted : List HostEvent :=
  [.segment none (peer_segment 9000 0 TH_SYN [] nil_short), .connect 7 true 5 0,
    .segment (some 7) (peer_segment 9001 5001 TH_ACK [] nil_short)]

def opened_host : Host := (host_run up_host accepted).get rfl

theorem opened_host_reached : TimedReachable opened_host := by
  have hall : ∀ ev ∈ accepted, ∀ h, clock_goes_on h ev := by simp [accepted, clock_goes_on]
  exact host_run_reaches (.init up_host_fresh) hall (Option.some_get rfl).symm

/-- It has been silent for 200 ticks. -/
def silent_host : Host := { opened_host with ctx := { opened_host.ctx with cur_time := 1200 } }

theorem silent_host_reached : TimedReachable silent_host := by
  have hlist : opened_host.ctx.timeout_list = [7] := rfl
  refine opened_host_reached.next (a := .clock 1200) rfl ⟨by decide, fun id hid => ?_⟩
  rw [hlist] at hid
  obtain rfl := List.mem_singleton.mp hid
  decide

theorem idle_detection_sample :
    silent_host.ctx.timeout_list = [7] ∧ silent_host.test 7 idle = true ∧
      ∃ h', usnet_check_connection_timeout silent_host 1 = .ok h' ∧ ClosesIdle silent_host h' :=
  ⟨rfl, rfl, (idle_detection silent_host_reached).2 1 (by decide)⟩

end Usnet
