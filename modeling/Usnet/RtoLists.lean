import Usnet.Rtm
import Usnet.Lib.Buckets

/-! # Membership in the retransmission lists

    A block carries the number of the list it is on, and the lists are counted.
    Every operation keeps this, and so does the check as long as the timeouts it
    handles leave the block in place; a block that `usnet_handle_rto` has released
    is taken off a second time.
-/

namespace Usnet

open CInt Run

/-! ## Section 1: What a timeout does to its own block -/

/-- The block stays on its list. -/
structure RtoSame (s s' : Conn) : Prop where
  idx : s'.tcb.on_rto_idx = s.tcb.on_rto_idx
  lists : s'.ctx.rto_store.rto_list = s.ctx.rto_store.rto_list
  cnt : s'.ctx.rto_list_cnt = s.ctx.rto_list_cnt
  wheel : s.ctx.rto_list_cnt ≠ 0 → s'.ctx.rto_store = s.ctx.rto_store

theorem RtoSame.refl {s : Conn} : RtoSame s s := ⟨rfl, rfl, rfl, fun _ => rfl⟩

theorem RtoSame.trans {s t s' : Conn} (h : RtoSame s t) (h' : RtoSame t s') : RtoSame s s' :=
  ⟨h'.idx.trans h.idx, h'.lists.trans h.lists, h'.cnt.trans h.cnt,
    fun hcnt => (h'.wheel (h.cnt ▸ hcnt)).trans (h.wheel hcnt)⟩

theorem RtoSame.of_links {s s' : Conn} (h : s'.links = s.links) : RtoSame s s' :=
  ⟨congrArg Links.on_rto_idx h, congrArg (fun l => l.rto_store.rto_list) h,
    congrArg Links.rto_list_cnt h, fun _ => congrArg Links.rto_store h⟩

/-- A packet does not move the timer of a connection that is on a list. -/
theorem PacketStep.rto {s s' : Conn} (h : PacketStep s s') (hidx : 0 ≤ s.tcb.on_rto_idx) :
    RtoSame s s' := by
  cases h with
  | quiet h => exact .of_links h
  | touch =>
    unfold Usnet.touch usnet_update_timeout_list
    split <;> exact ⟨rfl, rfl, rfl, fun _ => rfl⟩
  | add_rto =>
    unfold usnet_add_rto_list
    by_cases hcnt : s.ctx.rto_list_cnt = 0
    · simp only [hcnt, if_true, Conn.onCtx_tcb]
      rw [if_neg (by omega)]
      exact ⟨rfl, rfl, rfl, fun h => absurd hcnt h⟩
    · simp only [hcnt, if_false]
      rw [if_neg (by omega)]
      exact .refl
  | add_ack =>
    unfold usnet_add_ack_list
    split <;> exact ⟨rfl, rfl, rfl, fun _ => rfl⟩
  | remove_ack =>
    unfold usnet_remove_ack_list
    split <;> exact ⟨rfl, rfl, rfl, fun _ => rfl⟩

theorem Packets.rto {s s' : Conn} (h : Packets s s') (hidx : 0 ≤ s.tcb.on_rto_idx) :
    RtoSame s s' := by
  induction h with
  | refl => exact .refl
  | tail _ hstep ih => exact ih.trans (hstep.rto (ih.idx ▸ hidx))

theorem usnet_add_send_list_rto (s : Conn) : RtoSame s (usnet_add_send_list s) := by
  unfold usnet_add_send_list
  split
  · exact .refl
  · split <;> exact ⟨rfl, rfl, rfl, fun _ => rfl⟩

theorem usnet_remove_control_list_rto (s : Conn) : RtoSame s (usnet_remove_control_list s) := by
  unfold usnet_remove_control_list
  split <;> exact ⟨rfl, rfl, rfl, fun _ => rfl⟩

theorem usnet_add_control_list_rto {s : Conn} (hidx : 0 ≤ s.tcb.on_rto_idx)
    (hst : s.tcb.state ≠ .closed) : RtoSame s (usnet_add_control_list s) := by
  have hsend := (usnet_send_control_packet_packets hst).rto hidx
  unfold usnet_add_control_list
  simp only
  split
  · refine hsend.trans ?_
    unfold queue_control
    split <;> exact ⟨rfl, rfl, rfl, fun _ => rfl⟩
  · exact hsend.trans (usnet_remove_control_list_rto _)

/-- A retransmission keeps the block, and its timer. -/
theorem retransmit_kept {s : Conn} (hidx : 0 ≤ s.tcb.on_rto_idx) (hst : s.tcb.state ≠ .closed) :
    Moves s (retransmit s) ∧ RtoSame s (retransmit s) := by
  unfold retransmit
  simp only
  generalize ht : s.onTcb (fun t => { t with snd_nxt := t.sndvar.snd_una }) = t
  have hlinks : t.links = s.links := by
    rw [← ht]
    rfl
  have hstate : t.tcb.state = s.tcb.state := by
    rw [← ht]
    rfl
  have hsame : t.tcb.on_rto_idx = s.tcb.on_rto_idx := congrArg Links.on_rto_idx hlinks
  have hidx' : 0 ≤ t.tcb.on_rto_idx := hsame.symm ▸ hidx
  have hst' : t.tcb.state ≠ .closed := hstate.symm ▸ hst
  have hfirst : ∀ u, Moves t u ∧ RtoSame t u → Moves s u ∧ RtoSame s u := fun u hu =>
    ⟨(Moves.quiet hlinks).trans hu.1, (RtoSame.of_links hlinks).trans hu.2⟩
  refine hfirst _ ?_
  have hsend : Moves t (usnet_add_send_list t) ∧ RtoSame t (usnet_add_send_list t) :=
    ⟨.one (.add_send t), usnet_add_send_list_rto t⟩
  have hcontrol : Moves t (usnet_add_control_list t) ∧ RtoSame t (usnet_add_control_list t) :=
    ⟨usnet_add_control_list_moves hst', usnet_add_control_list_rto hidx' hst'⟩
  have hclose : ∀ u, (if TCP_SEQ_LT t.tcb.snd_nxt t.tcb.sndvar.fss then
        usnet_add_send_list <|
          (usnet_remove_control_list t).onTcb fun t => { t with control_list_waiting := true }
      else usnet_add_control_list t) = u → Moves t u ∧ RtoSame t u := by
    rintro u rfl
    split
    · generalize hu : (usnet_remove_control_list t).onTcb
        (fun t => { t with control_list_waiting := true }) = u
      have hwait : u.links = (usnet_remove_control_list t).links := by
        rw [← hu]
        rfl
      exact ⟨((Moves.one (.remove_control t)).trans (.quiet hwait)).tail (.add_send u),
        ((usnet_remove_control_list_rto t).trans (.of_links hwait)).trans
          (usnet_add_send_list_rto u)⟩
    · exact hcontrol
  cases t.tcb.state with
  | established => exact hsend
  | close_wait => exact hsend
  | fin_wait_1 => exact hclose _ rfl
  | closing => exact hclose _ rfl
  | last_ack => exact hclose _ rfl
  | _ => exact hcontrol

/-- `usnet_handle_rto` releases the block: the retransmissions are used up and
    nobody is told, or the state has no retransmission. -/
def gives_up (t : UsnTcb) : Bool :=
  if t.sndvar.nrtx ≥ TCP_MAX_RTX then
    decide (t.state.val < TcpState.established.val) || t.socket.isNone
  else
    match t.state with
    | .syn_sent => decide (t.sndvar.nrtx + 1 > TCP_MAX_SYN_RETRY) && t.socket.isNone
    | .syn_received | .established | .close_wait | .last_ack | .fin_wait_1 | .closing => false
    | _ => true

/-- The block is released with its lists as they were. -/
def ReleasedHere (s s' : Conn) : Prop := ∃ t, t.links = s.links ∧ s' = usnet_release_tcb t

/-- The application is told, or the block released where there is no socket. -/
theorem notify_cases {s t u : Conn} (hlinks : t.links = s.links)
    (hu : u = if t.tcb.socket.isSome then usnet_raise_error_event t else usnet_release_tcb t) :
    if t.tcb.socket.isNone then ReleasedHere s u else Moves s u ∧ RtoSame s u := by
  by_cases hsock : t.tcb.socket.isSome
  · rw [if_pos hsock] at hu
    rw [if_neg (by simpa [Option.isSome_iff_ne_none] using hsock), hu]
    exact ⟨(Moves.quiet hlinks).trans (raise_moves _ _), .of_links hlinks⟩
  · rw [if_neg hsock] at hu
    rw [if_pos (by simpa using hsock), hu]
    exact ⟨t, hlinks, rfl⟩

theorem give_up_cases (s : Conn) :
    if decide (s.tcb.state.val < TcpState.established.val) || s.tcb.socket.isNone then
      ReleasedHere s (give_up s)
    else Moves s (give_up s) ∧ RtoSame s (give_up s) := by
  unfold give_up
  by_cases hst : s.tcb.state.val < TcpState.established.val
  · rw [if_pos hst]
    simp only [hst, decide_true, Bool.true_or, if_true]
    exact ⟨s.onTcb fun t => { t with state := .closed, close_reason := .conn_fail }, rfl, rfl⟩
  · rw [if_neg hst]
    simp only [hst, decide_false, Bool.false_or]
    exact notify_cases (s := s)
      (t := s.onTcb fun t => { t with state := .closed, close_reason := .conn_lost }) rfl rfl

theorem back_off_fields (s : Conn) :
    (back_off s).tcb.state = s.tcb.state ∧ (back_off s).tcb.socket = s.tcb.socket ∧
    (back_off s).tcb.sndvar.nrtx = s.tcb.sndvar.nrtx + 1 := by
  have hkept : ∀ (s : Conn) (f : SndVars → SndVars), (f s.tcb.sndvar).nrtx = s.tcb.sndvar.nrtx →
      (s.onSnd f).tcb.sndvar.nrtx = s.tcb.sndvar.nrtx := fun _ _ h => h
  unfold back_off
  refine ⟨by simp only [Conn.onSnd_tcb], by simp only [Conn.onSnd_tcb], ?_⟩
  simp only
  refine (hkept _ _ rfl).trans ((hkept _ _ ?_).trans (hkept _ _ rfl))
  split <;> rfl

/-- Either the block is released, or it stays on its list. -/
theorem usnet_handle_rto_cases {s s' : Conn} {r : Int} (hidx : 0 ≤ s.tcb.on_rto_idx)
    (h : usnet_handle_rto s = .ok (r, s')) :
    if gives_up s.tcb then ReleasedHere s s' else Moves s s' ∧ RtoSame s s' := by
  unfold usnet_handle_rto at h
  split at h
  · cases h
  unfold gives_up
  split at h
  · rename_i hmax
    obtain ⟨-, rfl⟩ := Prod.mk.inj (Except.ok.inj h)
    rw [if_pos hmax]
    exact give_up_cases s
  rename_i hmax
  rw [if_neg hmax]
  simp only at h
  obtain ⟨hstate, hsock, hnrtx⟩ := back_off_fields s
  have hlinks := back_off_links s
  generalize back_off s = t at h hstate hsock hnrtx hlinks
  have hsame : t.tcb.on_rto_idx = s.tcb.on_rto_idx := congrArg Links.on_rto_idx hlinks
  have hagain : t.tcb.state ≠ .closed → Moves s (retransmit t) ∧ RtoSame s (retransmit t) := by
    intro hst
    obtain ⟨hmoves, hrto⟩ := retransmit_kept (hsame.symm ▸ hidx) hst
    exact ⟨(Moves.quiet hlinks).trans hmoves, (RtoSame.of_links hlinks).trans hrto⟩
  rw [hstate] at h hagain
  rw [hnrtx] at h
  -- SYN_SENT has a limit of its own; the states without data release at once
  cases hst : s.tcb.state with
  | syn_sent =>
    rw [hst] at h
    simp only at h ⊢
    split at h
    · rename_i hretry
      obtain ⟨-, rfl⟩ := Prod.mk.inj (Except.ok.inj h)
      simp only [hretry, decide_true, Bool.true_and]
      rw [← hsock]
      exact notify_cases (t := t.onTcb fun t =>
        { t with state := .closed, close_reason := .conn_fail }) hlinks rfl
    · rename_i hretry
      obtain ⟨-, rfl⟩ := Prod.mk.inj (Except.ok.inj h)
      simp only [hretry, decide_false, Bool.false_and, Bool.false_eq_true, if_false]
      exact hagain (by rw [hst]; decide)
  | closed | listen | fin_wait_2 | time_wait =>
    rw [hst] at h
    obtain ⟨-, rfl⟩ := Prod.mk.inj (Except.ok.inj h)
    exact ⟨usnet_raise_error_event t, hlinks, rfl⟩
  | _ =>
    rw [hst] at h hagain
    obtain ⟨-, rfl⟩ := Prod.mk.inj (Except.ok.inj h)
    simp only [Bool.false_eq_true, if_false]
    exact hagain (by decide)

/-! ## Section 2: One connection -/

/-- A connection in the course of a function: `f` are the lists as they were when
    the function began, and `d` is what the counter is off by. -/
structure Bucketed (id : Nat) (f : Nat → List Nat) (d : Int) (s : Conn) : Prop where
  tcb_id : s.tcb.id = id
  place : Buckets.At id s.tcb.on_rto_idx s.ctx.rto_store.rto_list
  range : s.tcb.on_rto_idx ≤ RTO_HASH.toNat
  others : ∀ y, y ≠ id → ∀ k, y ∈ s.ctx.rto_store.rto_list k ↔ y ∈ f k
  cnt : s.ctx.rto_list_cnt = d + Buckets.total (RTO_HASH.toNat + 1) s.ctx.rto_store.rto_list

theorem Bucketed.drift {id : Nat} {f : Nat → List Nat} {d e : Int} {s s' : Conn}
    (hb : Bucketed id f d s) (hid : s'.tcb.id = s.tcb.id)
    (hidx : s'.tcb.on_rto_idx = s.tcb.on_rto_idx)
    (hlists : s'.ctx.rto_store.rto_list = s.ctx.rto_store.rto_list)
    (hcnt : s'.ctx.rto_list_cnt = s.ctx.rto_list_cnt + e) : Bucketed id f (d + e) s' := by
  refine ⟨hid.trans hb.tcb_id, ?_, ?_, ?_, ?_⟩
  · rw [hidx, hlists]
    exact hb.place
  · rw [hidx]
    exact hb.range
  · rw [hlists]
    exact hb.others
  · have hold := hb.cnt
    rw [hcnt, hlists]
    omega

theorem Bucketed.congr {id : Nat} {f : Nat → List Nat} {d : Int} {s s' : Conn}
    (hb : Bucketed id f d s) (hid : s'.tcb.id = s.tcb.id)
    (hidx : s'.tcb.on_rto_idx = s.tcb.on_rto_idx)
    (hlists : s'.ctx.rto_store.rto_list = s.ctx.rto_store.rto_list)
    (hcnt : s'.ctx.rto_list_cnt = s.ctx.rto_list_cnt) : Bucketed id f d s' := by
  have h := hb.drift (e := 0) hid hidx hlists (by omega)
  rwa [Int.add_zero] at h

/-- The wheel a timer is put on, which is started anew when it is empty. -/
def rto_started (s : Conn) : RtoStore :=
  if s.ctx.rto_list_cnt = 0 then
    { s.ctx.rto_store with rto_now_idx := 0, rto_now_ts := s.tcb.sndvar.ts_rto }
  else s.ctx.rto_store

theorem rto_started_list (s : Conn) : (rto_started s).rto_list = s.ctx.rto_store.rto_list := by
  unfold rto_started
  split <;> rfl

/-- The list a timer goes on. -/
def rto_slot (hs : RtoStore) (ts_rto : UInt32) : UInt32 :=
  if sint (ts_rto - hs.rto_now_ts) < RTO_HASH.toNat then
    (ts_rto - hs.rto_now_ts + hs.rto_now_idx) % RTO_HASH
  else RTO_HASH

theorem rto_slot_le (hs : RtoStore) (ts_rto : UInt32) : (rto_slot hs ts_rto).toNat ≤ RTO_HASH.toNat := by
  unfold rto_slot
  split
  · rw [UInt32.toNat_mod]
    have hpos : 0 < RTO_HASH.toNat := by decide
    exact (Nat.mod_lt _ hpos).le
  · exact Nat.le_refl _

/-- The connection is put on a list. -/
def put_rto (s : Conn) (hs : RtoStore) (slot : Nat) : Conn :=
  (s.onTcb fun t => { t with on_rto_idx := slot }).onCtx fun c => { c with
    rto_store := hs.insert slot s.tcb.id
    rto_list_cnt := c.rto_list_cnt + 1 }

theorem usnet_add_rto_list_eq (s : Conn) :
    usnet_add_rto_list s =
      if s.tcb.on_rto_idx < 0 ∧ s.tcb.on_timewait_list = false then
        put_rto s (rto_started s) (rto_slot (rto_started s) s.tcb.sndvar.ts_rto).toNat
      else s.onCtx fun c => { c with rto_store := rto_started s } := by
  have hstart : (if s.ctx.rto_list_cnt = 0 then
      s.onCtx fun c => { c with
        rto_store := { c.rto_store with
          rto_now_idx := 0
          rto_now_ts := s.tcb.sndvar.ts_rto } }
    else s) = s.onCtx fun c => { c with rto_store := rto_started s } := by
    unfold rto_started
    split <;> rfl
  unfold usnet_add_rto_list
  rw [hstart]
  by_cases hidx : s.tcb.on_rto_idx < 0
  · by_cases htw : s.tcb.on_timewait_list = true
    · simp [hidx, htw]
    · simp only [Bool.not_eq_true] at htw
      simp only [hidx, htw, Conn.onCtx_tcb, if_true, and_self, Bool.false_eq_true, if_false]
      rfl
  · simp [hidx]

theorem Bucketed.put {id : Nat} {f : Nat → List Nat} {d : Int} {s : Conn} (hb : Bucketed id f d s)
    (hidx : s.tcb.on_rto_idx < 0) {hs : RtoStore} (hlists : hs.rto_list = s.ctx.rto_store.rto_list)
    {slot : Nat} (hslot : slot ≤ RTO_HASH.toNat) : Bucketed id f d (put_rto s hs slot) := by
  obtain ⟨hid, hplace, -, hothers, hcnt⟩ := hb
  have hnew : (hs.insert slot s.tcb.id).rto_list
      = Buckets.insert s.ctx.rto_store.rto_list slot id := by
    rw [← hlists, ← hid]
    rfl
  refine ⟨hid, ?_, ?_, fun y hy k => ?_, ?_⟩
  · have hat := hplace.insert hidx slot
    rw [← hnew] at hat
    exact hat
  · exact Int.ofNat_le.mpr hslot
  · have hmem := Buckets.insert_others (f := s.ctx.rto_store.rto_list) (j := slot) hy k
    rw [← hnew] at hmem
    exact hmem.trans (hothers y hy k)
  · have htotal := Buckets.total_insert (Nat.lt_succ_of_le hslot) s.ctx.rto_store.rto_list id
    rw [← hnew] at htotal
    simp only [put_rto, Conn.onCtx_ctx, Conn.onTcb_ctx, Nat.succ_eq_add_one] at htotal ⊢
    omega

/-- The connection is taken off its list. -/
def take_rto (s : Conn) : Conn :=
  (s.onTcb fun t => { t with on_rto_idx := -1 }).onCtx fun c => { c with
    rto_store := c.rto_store.remove s.tcb.on_rto_idx.toNat s.tcb.id
    rto_list_cnt := c.rto_list_cnt - 1 }

theorem Bucketed.take {id : Nat} {f : Nat → List Nat} {d : Int} {s : Conn} (hb : Bucketed id f d s)
    (hidx : 0 ≤ s.tcb.on_rto_idx) : Bucketed id f d (take_rto s) := by
  obtain ⟨hid, hplace, hrange, hothers, hcnt⟩ := hb
  obtain ⟨j, hj⟩ := Int.eq_ofNat_of_zero_le hidx
  have hnew : (s.ctx.rto_store.remove s.tcb.on_rto_idx.toNat s.tcb.id).rto_list
      = Buckets.remove s.ctx.rto_store.rto_list j id := by
    rw [hj, hid]
    rfl
  rw [hj] at hplace hrange
  refine ⟨hid, ?_, ?_, fun y hy k => ?_, ?_⟩
  · have hat := hplace.remove (i := -1) (by decide)
    rw [← hnew] at hat
    exact hat
  · exact (by decide : (-1 : Int) ≤ RTO_HASH.toNat)
  · have hmem := Buckets.remove_others (f := s.ctx.rto_store.rto_list) (j := j) hy k
    rw [← hnew] at hmem
    exact hmem.trans (hothers y hy k)
  · have htotal := Buckets.total_remove (n := RTO_HASH.toNat + 1)
      (Nat.lt_succ_of_le (Int.ofNat_le.mp hrange)) ((hplace.mem j).mpr rfl)
    rw [← hnew] at htotal
    simp only [take_rto, Conn.onCtx_ctx, Conn.onTcb_ctx]
    omega

theorem TimerStep.bucketed {id : Nat} {f : Nat → List Nat} {d : Int} {s s' : Conn}
    (hb : Bucketed id f d s) (h : TimerStep s s') : Bucketed id f d s' := by
  -- only the two steps about timers move anything between the lists
  cases h with
  | quiet h =>
    exact hb.congr h.framed.id (congrArg TcbTimers.on_rto_idx h.tcb)
      (congrArg (fun c : CtxTimers => c.rto_store.rto_list) h.ctx)
      (congrArg CtxTimers.rto_list_cnt h.ctx)
  | touch =>
    refine hb.congr ?_ ?_ ?_ ?_
    all_goals
      unfold Usnet.touch usnet_update_timeout_list
      split <;> rfl
  | add_rto =>
    rw [usnet_add_rto_list_eq]
    split
    · rename_i hnew
      exact hb.put hnew.1 (rto_started_list s) (rto_slot_le _ _)
    · exact hb.congr rfl rfl (rto_started_list s) rfl
  | remove_rto =>
    unfold usnet_remove_rto_list
    split
    · exact hb
    · rename_i hidx
      exact hb.take (by omega)
  | add_timeout _ _ h =>
    unfold usnet_add_timeout_list at h
    split at h
    · cases h
    · obtain rfl := Except.ok.inj h
      exact hb.congr rfl rfl rfl rfl
  | remove_timeout =>
    unfold usnet_remove_timeout_list
    split
    · exact hb.congr rfl rfl rfl rfl
    · exact hb
  | add_timewait h =>
    unfold usnet_add_timewait_list at h
    simp only at h
    split at h
    · obtain rfl := Except.ok.inj h
      exact hb.congr rfl rfl rfl rfl
    · split at h
      · cases h
      · obtain rfl := Except.ok.inj h
        exact hb.congr rfl rfl rfl rfl
  | unlink_timewait => exact hb.congr rfl rfl rfl rfl

theorem TimerMoves.bucketed {id : Nat} {f : Nat → List Nat} {d : Int} {s s' : Conn}
    (hb : Bucketed id f d s) (h : TimerMoves s s') : Bucketed id f d s' :=
  h.invariant (fun _ _ hb hstep => hstep.bucketed hb) hb

/-! ## Section 3: The visit of the check -/

/-- What a connection and its context say about the retransmission lists. -/
structure RtoView where
  id : Nat
  on_rto_idx : Int
  rto_store : RtoStore
  rto_list_cnt : Int
  cur_time : UInt32

def Conn.rto (s : Conn) : RtoView :=
  { id := s.tcb.id
    on_rto_idx := s.tcb.on_rto_idx
    rto_store := s.ctx.rto_store
    rto_list_cnt := s.ctx.rto_list_cnt
    cur_time := s.ctx.cur_time }

/-- The lists in the view of all lists. -/
def Links.rto (l : Links) : RtoView :=
  ⟨l.id, l.on_rto_idx, l.rto_store, l.rto_list_cnt, l.cur_time⟩

theorem rto_of_links {s s' : Conn} (h : s'.links = s.links) : s'.rto = s.rto :=
  congrArg Links.rto h

theorem usnet_remove_rto_list_rto {s t : Conn} (h : t.rto = s.rto) :
    (usnet_remove_rto_list t).rto = (usnet_remove_rto_list s).rto := by
  have hid : t.tcb.id = s.tcb.id := congrArg RtoView.id h
  have hidx : t.tcb.on_rto_idx = s.tcb.on_rto_idx := congrArg RtoView.on_rto_idx h
  have hstore : t.ctx.rto_store = s.ctx.rto_store := congrArg RtoView.rto_store h
  have hcnt : t.ctx.rto_list_cnt = s.ctx.rto_list_cnt := congrArg RtoView.rto_list_cnt h
  have hcur : t.ctx.cur_time = s.ctx.cur_time := congrArg RtoView.cur_time h
  unfold usnet_remove_rto_list
  rw [hidx]
  split
  · exact h
  · simp only [Conn.rto, Conn.onCtx_tcb, Conn.onCtx_ctx, Conn.onTcb_tcb, Conn.onTcb_ctx, hid,
      hstore, hcnt, hcur]

/-- A release takes the block off its list, and changes nothing else about the lists. -/
theorem usnet_release_tcb_rto (s : Conn) :
    (usnet_release_tcb s).rto = (usnet_remove_rto_list s).rto := by
  have hcontrol : ∀ s, (usnet_remove_control_list s).rto = s.rto := by
    intro s
    unfold usnet_remove_control_list
    split <;> rfl
  have hsend : ∀ s, (usnet_remove_send_list s).rto = s.rto := by
    intro s
    unfold usnet_remove_send_list
    split <;> rfl
  have hack : ∀ s, (usnet_remove_ack_list s).rto = s.rto := by
    intro s
    unfold usnet_remove_ack_list
    split <;> rfl
  have htimeout : ∀ s, (usnet_remove_timeout_list s).rto = s.rto := by
    intro s
    unfold usnet_remove_timeout_list
    split <;> rfl
  -- the other lists are left without touching this one
  have hqueues : ∀ s, (usnet_remove_ack_list
      (usnet_remove_send_list (usnet_remove_control_list s))).rto = s.rto := fun s =>
    (hack _).trans ((hsend _).trans (hcontrol s))
  have hguard : ∀ t : Conn, (if t.tcb.on_rto_idx ≥ 0 then usnet_remove_rto_list t else t)
      = usnet_remove_rto_list t := by
    intro t
    split
    · rfl
    · rename_i hoff
      unfold usnet_remove_rto_list
      rw [if_pos (by omega)]
  unfold usnet_release_tcb unlink_tcb
  simp only [hguard]
  have hoff := usnet_remove_rto_list_rto (hqueues s)
  generalize usnet_remove_rto_list _ = t at hoff
  have ht : (if t.tcb.on_timewait_list then unlink_timewait t else t).rto = t.rto := by
    split <;> rfl
  generalize (if t.tcb.on_timewait_list then unlink_timewait t else t) = u at ht
  have hu : (if u.ctx.tcp_timeout > 0 then usnet_remove_timeout_list u else u).rto = u.rto := by
    split
    · exact htimeout u
    · rfl
  exact hu.trans (ht.trans hoff)

/-- What a visit does: the block is off the list `idx`, where it was, and the
    counter is one lower, or two when the block had been released before. -/
structure Visited (idx : Nat) (s s' : Conn) : Prop where
  tcb_id : s'.tcb.id = s.tcb.id
  off : s'.tcb.on_rto_idx = -1
  lists : s'.ctx.rto_store.rto_list = Buckets.remove s.ctx.rto_store.rto_list idx s.tcb.id
  cnt : s'.ctx.rto_list_cnt = s.ctx.rto_list_cnt - if gives_up s.tcb then 2 else 1
  empty : usnet_tcb_isempty s'.tcb = (usnet_tcb_isempty s.tcb || gives_up s.tcb)
  kept : gives_up s.tcb = false → s'.ctx.cur_time = s.ctx.cur_time ∧
    (s.ctx.rto_list_cnt ≠ 0 → s'.ctx.rto_store = s.ctx.rto_store.remove idx s.tcb.id)

/-- The second removal of a block that is released changes no list. -/
theorem remove_twice {f : Nat → List Nat} {idx id : Nat} (hnodup : (f idx).Nodup) :
    Buckets.remove (Buckets.remove f idx id) idx id = Buckets.remove f idx id := by
  refine Buckets.remove_absent fun hmem => ?_
  simp only [Buckets.remove, Function.update_self, hnodup.mem_erase_iff] at hmem
  exact hmem.1 rfl

theorem rtm_visit_visited {idx : Nat} {s s' : Conn} (hidx : s.tcb.on_rto_idx = idx)
    (hnodup : (s.ctx.rto_store.rto_list idx).Nodup) (h : rtm_visit idx s = .ok s') :
    Visited idx s s' := by
  unfold rtm_visit at h
  rw [if_pos (by omega)] at h
  split at h
  · cases h
  rename_i r u hrto
  obtain rfl := Except.ok.inj h
  have hcases := usnet_handle_rto_cases (by omega) hrto
  -- released, the block has left the list already, and the check removes it twice
  cases hg : gives_up s.tcb with
  | true =>
    rw [hg, if_pos rfl] at hcases
    obtain ⟨t, hlinks, rfl⟩ := hcases
    have hview : (usnet_release_tcb t).rto = (take_rto s).rto := by
      refine (usnet_release_tcb_rto t).trans ((usnet_remove_rto_list_rto (rto_of_links hlinks)).trans ?_)
      unfold usnet_remove_rto_list
      rw [if_neg (by omega)]
      rfl
    have hstore : (usnet_release_tcb t).ctx.rto_store = s.ctx.rto_store.remove idx s.tcb.id := by
      have htake := congrArg RtoView.rto_store hview
      simp only [Conn.rto, take_rto, Conn.onCtx_ctx, Conn.onTcb_ctx, hidx, Int.toNat_natCast] at htake
      exact htake
    have hid : (usnet_release_tcb t).tcb.id = s.tcb.id := congrArg RtoView.id hview
    have hcnt : (usnet_release_tcb t).ctx.rto_list_cnt = s.ctx.rto_list_cnt - 1 :=
      congrArg RtoView.rto_list_cnt hview
    refine ⟨hid, rfl, ?_, ?_, ?_, fun hno => absurd (hg.symm.trans hno) (by decide)⟩
    · simp only [Conn.onCtx_ctx, Conn.onTcb_ctx, hid, hstore]
      exact remove_twice hnodup
    · simp only [hg, Conn.onCtx_ctx, Conn.onTcb_ctx, hcnt, if_true]
      omega
    · simp only [hg, Bool.or_true]
      rfl
  | false =>
    rw [hg] at hcases
    simp only [Bool.false_eq_true, if_false] at hcases
    obtain ⟨hmoves, hsame⟩ := hcases
    refine ⟨hmoves.framed.id, rfl, ?_, ?_, ?_, fun _ => ⟨hmoves.framed.cur_time, fun hcnt => ?_⟩⟩
    · simp only [Conn.onCtx_ctx, Conn.onTcb_ctx, RtoStore.remove, hsame.lists, hmoves.framed.id]
      rfl
    · simp only [hg, Conn.onCtx_ctx, Conn.onTcb_ctx, hsame.cnt]
      rfl
    · rw [hg, Bool.or_false]
      exact hmoves.framed.empty
    · simp only [Conn.onCtx_ctx, Conn.onTcb_ctx, hsame.wheel hcnt, hmoves.framed.id]

theorem Visited.bucketed {idx id : Nat} {f : Nat → List Nat} {d : Int} {s s' : Conn}
    (hv : Visited idx s s') (hb : Bucketed id f d s) (hidx : s.tcb.on_rto_idx = idx) :
    Bucketed id f (d - if gives_up s.tcb then 1 else 0) s' := by
  have htake := hb.take (by omega)
  have hstore : (take_rto s).ctx.rto_store = s.ctx.rto_store.remove idx s.tcb.id := by
    simp only [take_rto, Conn.onCtx_ctx, hidx, Int.toNat_natCast, Conn.onTcb_ctx]
  refine htake.drift hv.tcb_id hv.off ?_ ?_
  · rw [hv.lists, hstore]
    rfl
  · have hcnt := hv.cnt
    simp only [take_rto, Conn.onCtx_ctx, Conn.onTcb_ctx]
    split at hcnt
    · rename_i hg
      rw [if_pos hg]
      omega
    · rename_i hg
      rw [if_neg hg]
      omega

/-! ## Section 4: All connections -/

/-- The lists hold the live blocks that carry their number, and the counter is
    off by `d`. -/
structure RtoInv (d : Int) (h : Host) : Prop where
  nodup : ∀ k, (h.ctx.rto_store.rto_list k).Nodup
  mem : ∀ id k, id ∈ h.ctx.rto_store.rto_list k ↔ ∃ t, h.tcb id = some t ∧ t.on_rto_idx = k
  range : ∀ id t, h.tcb id = some t → t.on_rto_idx ≤ RTO_HASH.toNat
  tcb_id : ∀ id t, h.tcb id = some t → t.id = id
  live : ∀ id t, h.tcb id = some t → usnet_tcb_isempty t = false
  cnt : h.ctx.rto_list_cnt = d + Buckets.total (RTO_HASH.toNat + 1) h.ctx.rto_store.rto_list

variable {d : Int} {h : Host}

theorem RtoInv.bucketed (hi : RtoInv d h) {id : Nat} {t : UsnTcb} (ht : h.tcb id = some t) :
    Bucketed id h.ctx.rto_store.rto_list d ⟨h.ctx, t⟩ := by
  refine ⟨hi.tcb_id id t ht, ⟨hi.nodup, fun k => ?_⟩, hi.range id t ht, fun _ _ _ => Iff.rfl, hi.cnt⟩
  rw [hi.mem id k]
  constructor
  · rintro ⟨u, hu, hidx⟩
    obtain rfl := Option.some.inj (ht.symm.trans hu)
    exact hidx
  · exact fun hidx => ⟨t, ht, hidx⟩

/-- A block takes its place again. -/
theorem RtoInv.placed (hi : RtoInv d h) {e : Int} {id : Nat} {s : Conn}
    (hb : Bucketed id h.ctx.rto_store.rto_list e s)
    (halive : alive s.tcb = some s.tcb ∨ alive s.tcb = none ∧ s.tcb.on_rto_idx < 0) :
    RtoInv e (h.put id s) := by
  -- this block is what `s` says, the others are as they were
  have hput : ∀ u, (h.put id s).tcb id = some u → u = s.tcb ∧ usnet_tcb_isempty u = false := by
    intro u hu
    simp only [Host.put, Function.update_self] at hu
    unfold Usnet.alive at hu
    split at hu
    · cases hu
    · rename_i hempty
      obtain rfl := Option.some.inj hu
      exact ⟨rfl, Bool.eq_false_iff.mpr hempty⟩
  have hkept : ∀ y, y ≠ id → (h.put id s).tcb y = h.tcb y := by
    intro y hy
    simp only [Host.put, Function.update_of_ne hy]
  refine ⟨hb.place.nodup, fun y k => ?_, ?_, ?_, ?_, hb.cnt⟩
  · by_cases hy : y = id
    · subst hy
      refine (hb.place.mem k).trans ?_
      simp only [Host.put, Function.update_self]
      rcases halive with ha | ⟨ha, hoff⟩
      · simp [ha]
      · simp only [ha, reduceCtorEq, false_and, exists_false, iff_false]
        omega
    · rw [hkept y hy]
      exact (hb.others y hy k).trans (hi.mem y k)
  all_goals intro y u hu
  all_goals by_cases hy : y = id
  · subst hy
    rw [(hput u hu).1]
    exact hb.range
  · rw [hkept y hy] at hu
    exact hi.range y u hu
  · subst hy
    rw [(hput u hu).1]
    exact hb.tcb_id
  · rw [hkept y hy] at hu
    exact hi.tcb_id y u hu
  · subst hy
    exact (hput u hu).2
  · rw [hkept y hy] at hu
    exact hi.live y u hu

theorem RtoInv.put (hi : RtoInv d h) {id : Nat} {t : UsnTcb} {s : Conn} (ht : h.tcb id = some t)
    (hrun : TimerRun ⟨h.ctx, t⟩ s) : RtoInv d (h.put id s) := by
  obtain ⟨u, hu, hend⟩ := hrun
  have hb := hu.bucketed (hi.bucketed ht)
  have hlive : usnet_tcb_isempty u.tcb = false := hu.framed.empty.trans (hi.live id t ht)
  rcases hend with hsame | ⟨hoff, hctx, htcb⟩
  · have hempty : usnet_tcb_isempty s.tcb = false :=
      (congrArg TcbTimers.empty hsame.tcb).trans hlive
    exact hi.placed (hb.congr hsame.framed.id (congrArg TcbTimers.on_rto_idx hsame.tcb)
      (congrArg (fun c : CtxTimers => c.rto_store.rto_list) hsame.ctx)
      (congrArg CtxTimers.rto_list_cnt hsame.ctx)) (.inl (alive_of_live hempty))
  · have hempty : usnet_tcb_isempty s.tcb = true := congrArg TcbTimers.empty htcb
    have hidx : s.tcb.on_rto_idx = u.tcb.on_rto_idx := congrArg TcbTimers.on_rto_idx htcb
    refine hi.placed (hb.congr (congrArg TcbTimers.id htcb) hidx
      (congrArg (fun c : CtxTimers => c.rto_store.rto_list) hctx)
      (congrArg CtxTimers.rto_list_cnt hctx)) (.inr ⟨?_, hidx ▸ hoff.rto⟩)
    rw [alive, hempty]
    rfl

theorem RtoInv.congr (hi : RtoInv d h) {h' : Host} (htcb : h'.tcb = h.tcb)
    (hstore : h'.ctx.rto_store.rto_list = h.ctx.rto_store.rto_list)
    (hcnt : h'.ctx.rto_list_cnt = h.ctx.rto_list_cnt) : RtoInv d h' := by
  obtain ⟨h₁, h₂, h₃, h₄, h₅, h₆⟩ := hi
  rw [← hstore] at h₁ h₂ h₆
  rw [← htcb] at h₂ h₃ h₄ h₅
  rw [← hcnt] at h₆
  exact ⟨h₁, h₂, h₃, h₄, h₅, h₆⟩

/-- Every event of the process keeps the lists, whatever the counter is off by. -/
theorem RtoInv.kept (d : Int) : TimerKept (RtoInv d) where
  put _ hj ht hrun := hj.put ht hrun
  create := by
    intro h s _ hj hfree hnew
    have hstore : s.ctx.rto_store = h.ctx.rto_store := congrArg CtxTimers.rto_store hnew.ctx
    have hcnt : s.ctx.rto_list_cnt = h.ctx.rto_list_cnt := congrArg CtxTimers.rto_list_cnt hnew.ctx
    have hb : Bucketed s.tcb.id h.ctx.rto_store.rto_list d s := by
      refine ⟨rfl, ?_, ?_, fun _ _ _ => ?_, ?_⟩
      · rw [hnew.rto, hstore]
        refine ⟨hj.nodup, fun k => ?_⟩
        simp only [hj.mem, hfree, reduceCtorEq, false_and, exists_false]
      · rw [hnew.rto]
        decide
      · rw [hstore]
      · rw [hcnt, hstore]
        exact hj.cnt
    refine hj.placed hb ?_
    unfold Usnet.alive
    split
    · exact .inr ⟨rfl, by rw [hnew.rto]; decide⟩
    · exact .inl rfl
  ctx hj hc := hj.congr rfl (congrArg (fun c : CtxTimers => c.rto_store.rto_list) hc)
    (congrArg CtxTimers.rto_list_cnt hc)
  sockets hj := hj.congr rfl rfl rfl

/-- A visit keeps the lists, and the counter unless the block is given up. -/
theorem RtoInv.visit {h' : Host} {idx walk : Nat} (hi : RtoInv d h)
    (hmem : walk ∈ h.ctx.rto_store.rto_list idx) (hon : h.on walk (rtm_visit idx) = .ok h') :
    RtoInv (d - if h.test walk (fun s => gives_up s.tcb) then 1 else 0) h' ∧
    h'.ctx.rto_store.rto_list idx = (h.ctx.rto_store.rto_list idx).erase walk := by
  obtain ⟨t, ht, hidx⟩ := (hi.mem walk idx).mp hmem
  have hid := hi.tcb_id walk t ht
  simp only [Host.on, ht] at hon
  split at hon
  · cases hon
  rename_i s hs
  obtain rfl := Except.ok.inj hon
  have hv := rtm_visit_visited hidx (hi.nodup idx) hs
  have hb := hv.bucketed (hi.bucketed ht) hidx
  simp only [Host.test, ht]
  refine ⟨hi.placed hb ?_, ?_⟩
  · have hempty := hv.empty
    simp only [hi.live walk t ht, Bool.false_or] at hempty
    unfold Usnet.alive
    split
    · exact .inr ⟨rfl, hv.off ▸ by decide⟩
    · exact .inl rfl
  · have hlists := congrFun hv.lists idx
    simp only [Buckets.remove, Function.update_self, hid] at hlists
    exact hlists

/-! ## Section 5: The overflow list -/

/-- The list a connection of the overflow list moves to. -/
def rearrange_slot (hs : RtoStore) (ts_rto : UInt32) : UInt32 :=
  (hs.rto_now_ts - ts_rto + hs.rto_now_idx) % RTO_HASH

theorem rearrange_slot_lt (hs : RtoStore) (ts_rto : UInt32) :
    (rearrange_slot hs ts_rto).toNat < RTO_HASH.toNat := by
  have hpos : 0 < RTO_HASH.toNat := by decide
  rw [rearrange_slot, UInt32.toNat_mod]
  exact Nat.mod_lt _ hpos

/-- A connection that moves is taken off the overflow list and put on another. -/
theorem rearrange_visit_eq {s : Conn} (hidx : s.tcb.on_rto_idx = RTO_HASH.toNat) :
    rearrange_visit s =
      if sint (s.ctx.rto_store.rto_now_ts - s.tcb.sndvar.ts_rto) < RTO_HASH.toNat then
        put_rto (take_rto s) (take_rto s).ctx.rto_store
          (rearrange_slot s.ctx.rto_store s.tcb.sndvar.ts_rto).toNat
      else s := by
  unfold rearrange_visit
  simp only
  split
  · simp only [put_rto, take_rto, rearrange_slot, hidx, Int.toNat_natCast, Conn.onTcb, Conn.onCtx,
      Int.sub_add_cancel]
  · rfl

theorem rearrange_visit_bucketed {id : Nat} {f : Nat → List Nat} {s : Conn}
    (hb : Bucketed id f d s) (hidx : s.tcb.on_rto_idx = RTO_HASH.toNat) :
    Bucketed id f d (rearrange_visit s) := by
  rw [rearrange_visit_eq hidx]
  split
  · have hoff : (-1 : Int) < 0 := by decide
    exact (hb.take (by omega)).put hoff rfl (rearrange_slot_lt _ _).le
  · exact hb

/-- The loop of `usnet_rearrange_rto_store` keeps what every visit keeps, which may
    depend on who has still to be visited. -/
theorem rearrange_loop_rule {J : List Nat → Host → Prop}
    (hvisit : ∀ (h : Host) (walk : Nat) (rest : List Nat) (t : UsnTcb), J (walk :: rest) h →
      RtoInv d h → h.tcb walk = some t → t.on_rto_idx = RTO_HASH.toNat →
      RtoInv d (h.put walk (rearrange_visit ⟨h.ctx, t⟩)) →
      J rest (h.put walk (rearrange_visit ⟨h.ctx, t⟩))) :
    ∀ (l : List Nat) {h : Host}, RtoInv d h → J l h → l.Nodup →
      (∀ x ∈ l, x ∈ h.ctx.rto_store.rto_list RTO_HASH.toNat) →
      RtoInv d (rearrange_loop l h) ∧ J [] (rearrange_loop l h)
  | [], _, hi, hj, _, _ => ⟨hi, hj⟩
  | walk :: rest, h, hi, hj, hnodup, hl => by
    obtain ⟨t, ht, hidx⟩ := (hi.mem walk _).mp (hl walk List.mem_cons_self)
    obtain ⟨hwalk, hnodup⟩ := List.nodup_cons.mp hnodup
    have hb := rearrange_visit_bucketed (hi.bucketed ht) hidx
    have hlive : usnet_tcb_isempty (rearrange_visit ⟨h.ctx, t⟩).tcb = false := by
      have hsame : usnet_tcb_isempty (rearrange_visit ⟨h.ctx, t⟩).tcb = usnet_tcb_isempty t := by
        unfold rearrange_visit
        simp only
        split <;> rfl
      exact hsame.trans (hi.live walk t ht)
    have hi' := hi.placed hb (.inl (alive_of_live hlive))
    simp only [rearrange_loop, ht]
    refine rearrange_loop_rule hvisit rest hi' (hvisit h walk rest t hj hi ht hidx hi') hnodup
      fun x hx => ?_
    have hne : x ≠ walk := by
      rintro rfl
      exact hwalk hx
    exact (hb.others x hne _).mpr (hl x (List.mem_cons_of_mem _ hx))

theorem RtoInv.rearrange (hi : RtoInv d h) : RtoInv d (usnet_rearrange_rto_store h) :=
  (rearrange_loop_rule (J := fun _ _ => True) (fun _ _ _ _ _ _ _ _ _ => trivial) _ hi trivial
    (hi.nodup _) fun _ hx => hx).1

theorem RtoInv.tick (hi : RtoInv d h) : RtoInv d (rtm_tick h) := by
  have hadvance : RtoInv d { h with ctx :=
      { h.ctx with rto_store := rto_advance h.ctx.rto_store } } := hi.congr rfl rfl rfl
  unfold rtm_tick
  simp only
  split
  · exact hadvance.rearrange
  · exact hadvance

/-- The check keeps the lists, with some count. -/
theorem RtoInv.check_rule : CheckRule (fun _ _ => True) (fun _ => True) (fun h => ∃ d, RtoInv d h)
    (fun _ h => ∃ d, RtoInv d h) where
  start hi _ := hi
  visit idx h h' walk hi hmem _ hon := by
    obtain ⟨d, hi⟩ := hi
    obtain ⟨hi', hlist⟩ := hi.visit hmem hon
    exact ⟨⟨_, hi'⟩, hlist⟩
  stop hi := hi
  tick hi _ _ := by
    obtain ⟨d, hi⟩ := hi
    exact ⟨d, hi.tick⟩

end Usnet
