import Usnet.RtoLists

/-! # Runs over the retransmission lists

    The functions on the retransmission lists in any order, for any number of
    connections, with anything between them that leaves the lists alone.
-/

namespace Usnet

open CInt Run

/-! ## Section 1: The run -/

/-- The number of its list and the deadline of a block that is on one. -/
def Host.armed (h : Host) (id : Nat) : Option (Int × UInt32) :=
  (h.tcb id).bind fun t =>
    if 0 ≤ t.on_rto_idx then some (t.on_rto_idx, t.sndvar.ts_rto) else none

/-- Work that does not concern the lists: blocks are made and freed, but none that
    is on a list. -/
structure OtherWork (h h' : Host) : Prop where
  store : h'.ctx.rto_store = h.ctx.rto_store
  cnt : h'.ctx.rto_list_cnt = h.ctx.rto_list_cnt
  cur_time : h'.ctx.cur_time = h.ctx.cur_time
  armed : ∀ id, h'.armed id = h.armed id
  seated : ∀ id t, h'.tcb id = some t → t.id = id ∧ usnet_tcb_isempty t = false

inductive StoreEvent where
  | other
  | clock (cur_time : UInt32)
  | add (id : Nat)
  | remove (id : Nat)
  | send (id : Nat) (payloadlen : Int)
  | ack (id : Nat)
  | release (id : Nat)
  | rearrange
  | rtm (thresh : Int)

/-- A function runs on a live block. -/
def Host.runs (h : Host) (id : Nat) (f : Conn → Except Fault Conn) (h' : Host) : Prop :=
  (h.tcb id).isSome ∧ h.on id f = .ok h'

/-- One event.  Of `usnet_send_tcp_packet` it is the part that arms the timer. -/
def store_step (h : Host) (ev : StoreEvent) (h' : Host) : Prop :=
  match ev with
  | .other => OtherWork h h'
  | .clock cur_time => h' = { h with ctx := { h.ctx with cur_time := cur_time } }
  | .add id => h.runs id (fun s => .ok (usnet_add_rto_list s)) h'
  | .remove id => h.runs id (fun s => .ok (usnet_remove_rto_list s)) h'
  | .send id payloadlen => h.runs id (fun s => .ok (arm_rto s payloadlen)) h'
  | .ack id => h.runs id usnet_update_retransmission_timer h'
  | .release id => h.runs id (fun s => .ok (usnet_release_tcb s)) h'
  | .rearrange => h' = usnet_rearrange_rto_store h
  | .rtm thresh => ∃ cnt, usnet_check_rtm_timeout h thresh = .ok (h', cnt)

/-- Nothing is on a list. -/
structure EmptyStore (h : Host) : Prop where
  lists : ∀ k, h.ctx.rto_store.rto_list k = []
  cnt : h.ctx.rto_list_cnt = 0
  off : ∀ id t, h.tcb id = some t → t.on_rto_idx < 0
  seated : ∀ id t, h.tcb id = some t → t.id = id ∧ usnet_tcb_isempty t = false

theorem RtoInv.empty {h : Host} (he : EmptyStore h) : RtoInv 0 h := by
  refine ⟨fun k => ?_, fun id k => ?_, fun id t ht => ?_, fun id t ht => (he.seated id t ht).1,
    fun id t ht => (he.seated id t ht).2, ?_⟩
  · rw [he.lists]
    exact List.nodup_nil
  · rw [he.lists]
    simp only [List.not_mem_nil, false_iff]
    rintro ⟨t, ht, hidx⟩
    have hoff := he.off id t ht
    omega
  · have hoff := he.off id t ht
    omega
  · have hnone : Buckets.total (RTO_HASH.toNat + 1) h.ctx.rto_store.rto_list = 0 := by
      simp [Buckets.total, he.lists]
    rw [he.cnt, hnone]
    rfl

/-- What `armed` says about the block. -/
theorem armed_iff {h : Host} {id : Nat} {i : Int} {ts_rto : UInt32} :
    h.armed id = some (i, ts_rto) ↔
      0 ≤ i ∧ ∃ t, h.tcb id = some t ∧ t.on_rto_idx = i ∧ t.sndvar.ts_rto = ts_rto := by
  unfold Host.armed
  constructor
  · intro ha
    obtain ⟨t, ht, ha⟩ := Option.bind_eq_some_iff.mp ha
    split at ha
    · rename_i hidx
      obtain ⟨rfl, rfl⟩ := Prod.mk.inj (Option.some.inj ha)
      exact ⟨hidx, t, ht, rfl, rfl⟩
    · cases ha
  · rintro ⟨hidx, t, ht, rfl, rfl⟩
    rw [ht, Option.bind_some, if_pos hidx]

theorem OtherWork.listed {h h' : Host} (ho : OtherWork h h') (id k : Nat) :
    (∃ t, h'.tcb id = some t ∧ t.on_rto_idx = k) ↔ ∃ t, h.tcb id = some t ∧ t.on_rto_idx = k := by
  have hside : ∀ {h₁ h₂ : Host}, (∀ id, h₂.armed id = h₁.armed id) →
      (∃ t, h₁.tcb id = some t ∧ t.on_rto_idx = k) →
      ∃ t, h₂.tcb id = some t ∧ t.on_rto_idx = k := by
    rintro h₁ h₂ harmed ⟨t, ht, hidx⟩
    have ha : h₁.armed id = some ((k : Int), t.sndvar.ts_rto) :=
      armed_iff.mpr ⟨Int.natCast_nonneg k, t, ht, hidx, rfl⟩
    obtain ⟨-, u, hu, hui, -⟩ := armed_iff.mp ((harmed id).trans ha)
    exact ⟨u, hu, hui⟩
  exact ⟨hside fun id => (ho.armed id).symm, hside ho.armed⟩

theorem RtoInv.other {d : Int} {h h' : Host} (hi : RtoInv d h) (ho : OtherWork h h') :
    RtoInv d h' := by
  refine ⟨?_, fun id k => ?_, fun id t ht => ?_, fun id t ht => (ho.seated id t ht).1,
    fun id t ht => (ho.seated id t ht).2, ?_⟩
  · rw [ho.store]
    exact hi.nodup
  · rw [ho.store, ho.listed]
    exact hi.mem id k
  · by_cases hidx : 0 ≤ t.on_rto_idx
    · have ha : h'.armed id = some (t.on_rto_idx, t.sndvar.ts_rto) :=
        armed_iff.mpr ⟨hidx, t, ht, rfl, rfl⟩
      obtain ⟨-, u, hu, hui, -⟩ := armed_iff.mp ((ho.armed id).symm.trans ha)
      rw [← hui]
      exact hi.range id u hu
    · omega
  · rw [ho.cnt, ho.store]
    exact hi.cnt

/-- A function of a block that is known by its operations on the timer lists. -/
theorem RtoInv.runs {d : Int} {h h' : Host} (hi : RtoInv d h) {id : Nat}
    {f : Conn → Except Fault Conn} (hf : ∀ s s', f s = .ok s' → TimerRun s s')
    (hrun : h.runs id f h') : RtoInv d h' := by
  obtain ⟨hsome, hon⟩ := hrun
  obtain ⟨t, ht⟩ := Option.isSome_iff_exists.mp hsome
  simp only [Host.on, ht] at hon
  split at hon
  · cases hon
  · rename_i s hs
    obtain rfl := Except.ok.inj hon
    exact hi.put ht (hf _ s hs)

theorem usnet_add_rto_list_timers (s : Conn) : TimerRun s (usnet_add_rto_list s) :=
  (Moves.one (.packet (.add_rto s))).outcome.timers

theorem usnet_remove_rto_list_timers (s : Conn) : TimerRun s (usnet_remove_rto_list s) :=
  (Moves.one (.remove_rto s)).outcome.timers

theorem arm_rto_timers (s : Conn) (payloadlen : Int) : TimerRun s (arm_rto s payloadlen) :=
  (arm_rto_packets s payloadlen).moves.outcome.timers

/-! ## Section 2: The lists between the events -/

/-- The block is one that the handler of its timeout releases. -/
def Host.gives_up (h : Host) (id : Nat) : Prop := h.test id (fun s => Usnet.gives_up s.tcb) = true

/-- The check visits no connection that is given up. -/
def none_given_up (h : Host) : StoreEvent → Prop
  | .rtm thresh => check_visits (fun h walk => ¬ h.gives_up walk) (fun _ => True) thresh h
  | _ => True

theorem RtoInv.sound_rule : CheckRule (fun h walk => ¬ h.gives_up walk) (fun _ => True) (RtoInv 0)
    (fun _ => RtoInv 0) where
  start hi _ := hi
  visit idx h h' walk hi hmem hno hon := by
    obtain ⟨hi', hlist⟩ := hi.visit hmem hon
    have hkeep : ¬ (h.test walk fun s => Usnet.gives_up s.tcb) = true := hno
    rw [if_neg hkeep] at hi'
    exact ⟨hi', hlist⟩
  stop hi := hi
  tick hi _ _ := hi.tick

theorem RtoInv.step {h h' : Host} {ev : StoreEvent} (hi : RtoInv 0 h) (hc : none_given_up h ev)
    (hstep : store_step h ev h') : RtoInv 0 h' := by
  cases ev with
  | other => exact hi.other hstep
  | clock cur_time =>
    obtain rfl := hstep
    exact hi.congr rfl rfl rfl
  | add id =>
    refine hi.runs (fun s s' hs => ?_) hstep
    obtain rfl := Except.ok.inj hs
    exact usnet_add_rto_list_timers s
  | remove id =>
    refine hi.runs (fun s s' hs => ?_) hstep
    obtain rfl := Except.ok.inj hs
    exact usnet_remove_rto_list_timers s
  | send id payloadlen =>
    refine hi.runs (fun s s' hs => ?_) hstep
    obtain rfl := Except.ok.inj hs
    exact arm_rto_timers s payloadlen
  | ack id =>
    exact hi.runs (fun s s' hs => (usnet_update_retransmission_timer_moves hs).outcome.timers) hstep
  | release id =>
    refine hi.runs (fun s s' hs => ?_) hstep
    obtain rfl := Except.ok.inj hs
    exact (released s).timers
  | rearrange =>
    obtain rfl := hstep
    exact hi.rearrange
  | rtm thresh =>
    obtain ⟨cnt, hok⟩ := hstep
    exact RtoInv.sound_rule.run hi hc hok

/-- A block on the list `k` is there once and nowhere else, a block on no list and
    a released one are nowhere, and the counter is the length of all lists. -/
structure Consistent (h : Host) : Prop where
  on : ∀ id t (k : Nat), h.tcb id = some t → t.on_rto_idx = k →
    ∀ j, (h.ctx.rto_store.rto_list j).count id = if j = k then 1 else 0
  off : ∀ id t, h.tcb id = some t → t.on_rto_idx < 0 → ∀ j, id ∉ h.ctx.rto_store.rto_list j
  released : ∀ id, h.tcb id = none → ∀ j, id ∉ h.ctx.rto_store.rto_list j
  cnt : h.ctx.rto_list_cnt = Buckets.total (RTO_HASH.toNat + 1) h.ctx.rto_store.rto_list

theorem RtoInv.consistent {h : Host} (hi : RtoInv 0 h) : Consistent h := by
  refine ⟨fun id t k ht hidx j => ?_, fun id t ht hidx j hmem => ?_, fun id hnone j hmem => ?_, ?_⟩
  · split
    · rename_i hjk
      subst hjk
      exact List.count_eq_one_of_mem (hi.nodup j) ((hi.mem id j).mpr ⟨t, ht, hidx⟩)
    · rename_i hjk
      refine List.count_eq_zero_of_not_mem fun hmem => hjk ?_
      obtain ⟨u, hu, huj⟩ := (hi.mem id j).mp hmem
      obtain rfl := Option.some.inj (ht.symm.trans hu)
      exact Int.ofNat.inj (huj.symm.trans hidx)
  · obtain ⟨u, hu, huj⟩ := (hi.mem id j).mp hmem
    obtain rfl := Option.some.inj (ht.symm.trans hu)
    omega
  · obtain ⟨u, hu, -⟩ := (hi.mem id j).mp hmem
    cases hnone.symm.trans hu
  · have hcnt := hi.cnt
    omega

/-- The visit takes a block off its list that `usnet_handle_rto` has released,
    and so taken off already. -/
def unlinks_again (h : Host) (walk : Nat) : Prop :=
  ∃ t ret s, h.tcb walk = some t ∧ 0 ≤ t.on_rto_idx ∧
    usnet_handle_rto ⟨h.ctx, t⟩ = .ok (ret, s) ∧ usnet_tcb_isempty s.tcb = true

theorem RtoInv.unlinks_again {d : Int} {h : Host} (hi : RtoInv d h) {walk : Nat}
    (hno : ¬ h.gives_up walk) : ¬ unlinks_again h walk := by
  rintro ⟨t, ret, s, ht, hidx, hrto, hempty⟩
  simp only [Host.gives_up, Host.test, ht, Bool.not_eq_true] at hno
  have hcases := usnet_handle_rto_cases (s := ⟨h.ctx, t⟩) hidx hrto
  rw [hno] at hcases
  simp only [Bool.false_eq_true, if_false] at hcases
  have hlive := hcases.1.framed.empty.trans (hi.live walk t ht)
  cases hlive.symm.trans hempty

/-- In a run whose checks give up no connection, the lists are consistent at every
    moment and no check takes a released block off a list. -/
theorem rto_lists_consistent {h : Host} (hr : RunWhere store_step none_given_up EmptyStore h) :
    Consistent h ∧ ∀ thresh, none_given_up h (.rtm thresh) →
      check_visits (fun h walk => ¬ unlinks_again h walk) (fun _ => True) thresh h := by
  have hi : RtoInv 0 h := hr.invariant (fun _ he => .empty he) fun _ _ _ hi hc hs => hi.step hc hs
  exact ⟨hi.consistent, fun thresh hc => RtoInv.sound_rule.imp
    (fun _ h walk hi _ hno => hi.unlinks_again hno) hi hc⟩

/-! ## Section 3: A connection that is given up -/

/-- A connection in SYN_RECEIVED that has been retransmitted so often. -/
def timed_tcb (nrtx : UInt8) : UsnTcb :=
  let t := init_newtcb quiet_ctx 7 { fd := 1, saddr := 0x0100000a, sport := 0x5000 }
    0x0100000a 0x5000 0x0200000a 0xd204
  { t with state := .syn_received, sndvar := { t.sndvar with nrtx := nrtx } }

/-- The process with one connection, on no list. -/
def timed_host (nrtx : UInt8) : Host :=
  { ctx := quiet_ctx
    tcb := Function.update (fun _ => none) 7 (some (timed_tcb nrtx))
    so_tcb := fun _ => none }

theorem timed_host_empty (nrtx : UInt8) : EmptyStore (timed_host nrtx) := by
  have htcb : ∀ id t, (timed_host nrtx).tcb id = some t → id = 7 ∧ t = timed_tcb nrtx := by
    intro id t ht
    by_cases hid : id = 7
    · subst hid
      simp only [timed_host, Function.update_self] at ht
      exact ⟨rfl, (Option.some.inj ht).symm⟩
    · simp only [timed_host, Function.update_of_ne hid] at ht
      cases ht
  refine ⟨fun _ => rfl, rfl, fun id t ht => ?_, fun id t ht => ?_⟩
  all_goals obtain ⟨rfl, rfl⟩ := htcb id t ht
  · exact (by decide : (-1 : Int) < 0)
  · exact ⟨rfl, rfl⟩

/-- After the last retransmission the connection is released by the handler of its
    timeout and then taken off its list again, which is counted. -/
theorem rto_lists_fails : ¬ ∀ h, Reachable store_step EmptyStore h →
    Consistent h ∧ ∀ thresh,
      check_visits (fun h walk => ¬ unlinks_again h walk) (fun _ => True) thresh h := by
  intro hall
  have hsent : Reachable store_step EmptyStore _ :=
    .next (.init (timed_host_empty 16)) (a := .send 7 1) ⟨rfl, rfl⟩ trivial
  have hdue : Reachable store_step EmptyStore _ := hsent.next (a := .clock 1500) rfl trivial
  have hchecked : Reachable store_step EmptyStore _ := hdue.next (a := .rtm 10) ⟨_, rfl⟩ trivial
  have hcnt := (hall _ hchecked).1.cnt
  have hneg : (-1 : Int) = _ := hcnt
  omega

/-- One that is retransmitted is off its list after the check. -/
theorem rto_lists_sample : ∃ h, RunWhere store_step none_given_up EmptyStore h ∧
    h.ctx.rto_store.rto_list 0 = [7] ∧ Consistent h ∧
    check_visits (fun h walk => ¬ unlinks_again h walk) (fun _ => True) 10 h := by
  have hsent : RunWhere store_step none_given_up EmptyStore _ :=
    .next (.init (timed_host_empty 0)) (a := .send 7 1) ⟨rfl, rfl⟩ trivial
  have hdue : RunWhere store_step none_given_up EmptyStore _ :=
    hsent.next (a := .clock 1500) rfl trivial
  have hsound := rto_lists_consistent hdue
  refine ⟨_, hdue, rfl, hsound.1, hsound.2 10 ?_⟩
  exact Or.inr (Or.inr ⟨Or.inr ⟨Bool.false_ne_true, trivial⟩, Or.inr ⟨trivial, trivial⟩⟩)

end Usnet
