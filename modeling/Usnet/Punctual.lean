import Usnet.StoreRuns
import Usnet.Lib.Wheel

/-! # Timers that fire in time

    The retransmission lists are a timing wheel.  As long as every timer is put on
    it where its deadline belongs, none fires early and a check that is not cut
    short leaves none behind that is due.
-/

namespace Usnet

open CInt Run Wheel

/-! ## Section 1: The place of a timer -/

/-- A timer is where the wheel of the store wants it. -/
def Seat (slack : Nat → Int) (hs : RtoStore) (cur : UInt32) (k : Int) (ts_rto : UInt32) : Prop :=
  Sits RTO_HASH.toNat slack hs.rto_now_idx.toNat hs.rto_now_ts cur k ts_rto

theorem Seat.congr {slack : Nat → Int} {hs hs' : RtoStore} {cur ts_rto : UInt32} {k : Int}
    (h : Seat slack hs cur k ts_rto) (hidx : hs'.rto_now_idx = hs.rto_now_idx)
    (hts : hs'.rto_now_ts = hs.rto_now_ts) : Seat slack hs' cur k ts_rto := by
  unfold Seat at *
  rw [hidx, hts]
  exact h

/-- The deadline is not behind the wheel, and less than `2^31` ahead of the clock. -/
def in_reach (hs : RtoStore) (cur ts_rto : UInt32) : Prop :=
  0 ≤ sint (ts_rto - hs.rto_now_ts) ∧
    sint (ts_rto - hs.rto_now_ts) - sint (cur - hs.rto_now_ts) < 2 ^ 31

theorem rto_slot_near {hs : RtoStore} {ts_rto : UInt32}
    (hidx : hs.rto_now_idx.toNat < RTO_HASH.toNat) (hahead : 0 ≤ sint (ts_rto - hs.rto_now_ts))
    (hnear : sint (ts_rto - hs.rto_now_ts) < RTO_HASH.toNat) :
    (rto_slot hs ts_rto).toNat =
      ((sint (ts_rto - hs.rto_now_ts)).toNat + hs.rto_now_idx.toNat) % RTO_HASH.toNat := by
  have hhash : RTO_HASH.toNat = 3000 := rfl
  have hlt := (ts_rto - hs.rto_now_ts).toNat_lt
  have hdiff : (sint (ts_rto - hs.rto_now_ts)).toNat = (ts_rto - hs.rto_now_ts).toNat := by
    rw [sint_eq] at hahead ⊢
    split at hahead <;> omega
  unfold rto_slot
  rw [if_pos hnear, UInt32.toNat_mod, hdiff, add_toNat_of_lt (by omega)]

theorem rto_slot_far {hs : RtoStore} {ts_rto : UInt32}
    (hfar : ¬ sint (ts_rto - hs.rto_now_ts) < RTO_HASH.toNat) : rto_slot hs ts_rto = RTO_HASH := by
  unfold rto_slot
  rw [if_neg hfar]

variable {slack : Nat → Int}

/-- The list of `usnet_add_rto_list` is the place of a timer. -/
theorem seat_slot (hslack : ∀ i, 0 ≤ slack i) {hs : RtoStore} {cur ts_rto : UInt32}
    (hidx : hs.rto_now_idx.toNat < RTO_HASH.toNat) (hreach : in_reach hs cur ts_rto) :
    Seat slack hs cur (rto_slot hs ts_rto).toNat ts_rto := by
  refine ⟨hidx, hreach.1, hreach.2, ?_⟩
  by_cases hnear : sint (ts_rto - hs.rto_now_ts) < RTO_HASH.toNat
  · exact .inr ⟨hnear, by rw [rto_slot_near hidx hreach.1 hnear]⟩
  · have hpos := hslack hs.rto_now_idx.toNat
    exact .inl ⟨by rw [rto_slot_far hnear], by omega⟩

/-- Every timer of the process is in its place. -/
structure WheelInv (slack : Nat → Int) (h : Host) : Prop where
  lists : RtoInv 0 h
  seats : ∀ id k ts_rto, h.armed id = some (k, ts_rto) →
    Seat slack h.ctx.rto_store h.ctx.cur_time k ts_rto

/-! ## Section 2: One connection -/

/-- A connection in the course of a function, among the others' timers. -/
structure Wheeled (slack : Nat → Int) (h : Host) (id : Nat) (s : Conn) : Prop where
  bucketed : Bucketed id h.ctx.rto_store.rto_list 0 s
  others : ∀ y, y ≠ id → ∀ k ts_rto, h.armed y = some (k, ts_rto) →
    Seat slack s.ctx.rto_store s.ctx.cur_time k ts_rto
  self : 0 ≤ s.tcb.on_rto_idx →
    Seat slack s.ctx.rto_store s.ctx.cur_time s.tcb.on_rto_idx s.tcb.sndvar.ts_rto

variable {h : Host} {id : Nat} {s : Conn}

theorem RtoInv.armed_listed {d : Int} (hi : RtoInv d h) {y : Nat} {k : Int} {ts_rto : UInt32}
    (ha : h.armed y = some (k, ts_rto)) :
    ∃ j : Nat, k = j ∧ j < RTO_HASH.toNat + 1 ∧ y ∈ h.ctx.rto_store.rto_list j := by
  obtain ⟨hk, t, ht, hidx, -⟩ := armed_iff.mp ha
  obtain ⟨j, rfl⟩ := Int.eq_ofNat_of_zero_le hk
  have hrange := hi.range y t ht
  exact ⟨j, rfl, by omega, (hi.mem y j).mpr ⟨t, ht, hidx⟩⟩

theorem RtoInv.listed_armed {d : Int} (hi : RtoInv d h) {y j : Nat}
    (hmem : y ∈ h.ctx.rto_store.rto_list j) : ∃ ts_rto, h.armed y = some ((j : Int), ts_rto) := by
  obtain ⟨t, ht, hidx⟩ := (hi.mem y j).mp hmem
  exact ⟨t.sndvar.ts_rto, armed_iff.mpr ⟨Int.natCast_nonneg j, t, ht, hidx, rfl⟩⟩

theorem WheelInv.wheeled (hi : WheelInv slack h) {t : UsnTcb} (ht : h.tcb id = some t) :
    Wheeled slack h id ⟨h.ctx, t⟩ := by
  refine ⟨hi.lists.bucketed ht, fun y _ k ts_rto ha => hi.seats y k ts_rto ha, fun hidx => ?_⟩
  exact hi.seats id _ _ (armed_iff.mpr ⟨hidx, t, ht, rfl, rfl⟩)

/-- With a counter of zero there is no timer. -/
theorem Wheeled.none (hi : RtoInv 0 h) (hw : Wheeled slack h id s) (hcnt : s.ctx.rto_list_cnt = 0) :
    (∀ y, y ≠ id → h.armed y = none) ∧ s.tcb.on_rto_idx < 0 := by
  have htotal : Buckets.total (RTO_HASH.toNat + 1) s.ctx.rto_store.rto_list = 0 := by
    have h := hw.bucketed.cnt
    omega
  constructor
  · intro y hy
    by_contra hsome
    obtain ⟨⟨k, ts_rto⟩, ha⟩ := Option.ne_none_iff_exists'.mp hsome
    obtain ⟨j, rfl, hj, hmem⟩ := hi.armed_listed ha
    have hmem' := (hw.bucketed.others y hy j).mpr hmem
    rw [Buckets.total_zero htotal hj] at hmem'
    exact absurd hmem' List.not_mem_nil
  · by_contra hidx
    obtain ⟨j, hj⟩ := Int.eq_ofNat_of_zero_le (Int.not_lt.mp hidx)
    have hrange := hw.bucketed.range
    have hmem := (hw.bucketed.place.mem j).mpr hj
    rw [Buckets.total_zero htotal (by omega)] at hmem
    exact absurd hmem List.not_mem_nil

/-- With any other the wheel is in a position of its own. -/
theorem Wheeled.wheel (hi : RtoInv 0 h) (hw : Wheeled slack h id s)
    (hcnt : s.ctx.rto_list_cnt ≠ 0) : s.ctx.rto_store.rto_now_idx.toNat < RTO_HASH.toNat := by
  have hsome : ∃ j, ∃ y, y ∈ s.ctx.rto_store.rto_list j := by
    by_contra hnone
    push Not at hnone
    have hall : ∀ j, s.ctx.rto_store.rto_list j = [] := fun j =>
      List.eq_nil_iff_forall_not_mem.mpr (hnone j)
    have hzero := hw.bucketed.cnt
    simp only [Buckets.total, hall, List.length_nil, Finset.sum_const_zero] at hzero
    exact hcnt hzero
  obtain ⟨j, y, hy⟩ := hsome
  by_cases hid : y = id
  · subst hid
    have hidx := (hw.bucketed.place.mem j).mp hy
    exact (hw.self (by omega)).wheel
  · obtain ⟨ts_rto, ha⟩ := hi.listed_armed ((hw.bucketed.others y hid j).mp hy)
    exact (hw.others y hid _ _ ha).wheel

/-- If the timer is started now, it is put where it belongs. -/
def arms_well (s : Conn) : Prop :=
  s.tcb.on_rto_idx < 0 → s.tcb.on_timewait_list = false →
    in_reach (rto_started s) s.ctx.cur_time s.tcb.sndvar.ts_rto

theorem rto_started_of_ne (hcnt : s.ctx.rto_list_cnt ≠ 0) : rto_started s = s.ctx.rto_store := by
  unfold rto_started
  rw [if_neg hcnt]

theorem Wheeled.add (hslack : ∀ i, 0 ≤ slack i) (hi : RtoInv 0 h) (hw : Wheeled slack h id s) (harm : arms_well s) :
    Wheeled slack h id (usnet_add_rto_list s) := by
  -- an empty wheel may be started anew, any other is as it was
  have hothers : ∀ y, y ≠ id → ∀ k ts_rto, h.armed y = some (k, ts_rto) →
      Seat slack (rto_started s) s.ctx.cur_time k ts_rto := by
    intro y hy k ts_rto ha
    by_cases hcnt : s.ctx.rto_list_cnt = 0
    · cases ((hw.none hi hcnt).1 y hy).symm.trans ha
    · rw [rto_started_of_ne hcnt]
      exact hw.others y hy k ts_rto ha
  rw [usnet_add_rto_list_eq]
  split
  · rename_i hnew
    refine ⟨hw.bucketed.put hnew.1 (rto_started_list s) (rto_slot_le _ _),
      fun y hy k ts_rto ha => (hothers y hy k ts_rto ha).congr rfl rfl, fun _ => ?_⟩
    have hwheel : (rto_started s).rto_now_idx.toNat < RTO_HASH.toNat := by
      by_cases hcnt : s.ctx.rto_list_cnt = 0
      · unfold rto_started
        rw [if_pos hcnt]
        exact (by decide : 0 < RTO_HASH.toNat)
      · rw [rto_started_of_ne hcnt]
        exact hw.wheel hi hcnt
    exact (seat_slot hslack hwheel (harm hnew.1 hnew.2)).congr rfl rfl
  · refine ⟨hw.bucketed.congr rfl rfl (rto_started_list s) rfl, hothers, fun hidx => ?_⟩
    have hcnt : s.ctx.rto_list_cnt ≠ 0 := by
      intro hcnt
      have hoff := (hw.none hi hcnt).2
      simp only [Conn.onCtx_tcb] at hidx
      omega
    simp only [Conn.onCtx_ctx, Conn.onCtx_tcb, rto_started_of_ne hcnt]
    exact hw.self hidx

theorem Wheeled.remove (hw : Wheeled slack h id s) :
    Wheeled slack h id (usnet_remove_rto_list s) ∧ (usnet_remove_rto_list s).tcb.on_rto_idx < 0 := by
  unfold usnet_remove_rto_list
  split
  · rename_i hoff
    exact ⟨hw, hoff⟩
  · have hoff : (-1 : Int) < 0 := by decide
    refine ⟨⟨hw.bucketed.take (by omega), fun y hy k ts_rto ha => ?_, fun hidx => ?_⟩, hoff⟩
    · exact (hw.others y hy k ts_rto ha).congr rfl rfl
    · simp only [Conn.onCtx_tcb, Conn.onTcb_tcb] at hidx
      omega

/-- Only the view of the lists and the deadline count. -/
theorem Wheeled.congr (hw : Wheeled slack h id s) {s' : Conn} (hview : s'.rto = s.rto)
    (hts : 0 ≤ s.tcb.on_rto_idx → s'.tcb.sndvar.ts_rto = s.tcb.sndvar.ts_rto) :
    Wheeled slack h id s' := by
  have hidx : s'.tcb.on_rto_idx = s.tcb.on_rto_idx := congrArg RtoView.on_rto_idx hview
  have hstore : s'.ctx.rto_store = s.ctx.rto_store := congrArg RtoView.rto_store hview
  have hcur : s'.ctx.cur_time = s.ctx.cur_time := congrArg RtoView.cur_time hview
  refine ⟨hw.bucketed.congr (congrArg RtoView.id hview) hidx (congrArg RtoStore.rto_list hstore)
    (congrArg RtoView.rto_list_cnt hview), ?_, fun hon => ?_⟩
  · rw [hstore, hcur]
    exact hw.others
  · rw [hidx] at hon
    rw [hstore, hcur, hidx, hts hon]
    exact hw.self hon

/-! ## Section 3: All connections -/

theorem armed_put_of_ne {y : Nat} (hy : y ≠ id) : (h.put id s).armed y = h.armed y := by
  simp only [Host.armed, Host.put, Function.update_of_ne hy]

theorem armed_put_self {k : Int} {ts_rto : UInt32} (ha : (h.put id s).armed id = some (k, ts_rto)) :
    alive s.tcb = some s.tcb ∧ 0 ≤ k ∧ s.tcb.on_rto_idx = k ∧ s.tcb.sndvar.ts_rto = ts_rto := by
  obtain ⟨hk, t, ht, hidx, hts⟩ := armed_iff.mp ha
  simp only [Host.put, Function.update_self] at ht
  have hsame : t = s.tcb := by
    unfold Usnet.alive at ht
    split at ht
    · cases ht
    · exact (Option.some.inj ht).symm
  subst hsame
  exact ⟨ht, hk, hidx, hts⟩

/-- A connection takes its place again. -/
theorem WheelInv.placed (hi : WheelInv slack h) (hw : Wheeled slack h id s)
    (halive : alive s.tcb = some s.tcb ∨ alive s.tcb = none ∧ s.tcb.on_rto_idx < 0) :
    WheelInv slack (h.put id s) := by
  refine ⟨hi.lists.placed hw.bucketed halive, fun y k ts_rto ha => ?_⟩
  by_cases hy : y = id
  · subst hy
    obtain ⟨-, hk, rfl, rfl⟩ := armed_put_self ha
    exact hw.self hk
  · rw [armed_put_of_ne hy] at ha
    exact hw.others y hy k ts_rto ha

/-- A function of a live block that keeps it on the wheel. -/
theorem WheelInv.runs (hi : WheelInv slack h) {f : Conn → Except Fault Conn} {h' : Host}
    (hf : ∀ t s, h.tcb id = some t → f ⟨h.ctx, t⟩ = .ok s → Wheeled slack h id ⟨h.ctx, t⟩ →
      Wheeled slack h id s ∧
      (usnet_tcb_isempty s.tcb = usnet_tcb_isempty t ∨ s.tcb.on_rto_idx < 0))
    (hrun : h.runs id f h') : WheelInv slack h' := by
  obtain ⟨hsome, hon⟩ := hrun
  obtain ⟨t, ht⟩ := Option.isSome_iff_exists.mp hsome
  simp only [Host.on, ht] at hon
  split at hon
  · cases hon
  rename_i s hs
  obtain rfl := Except.ok.inj hon
  obtain ⟨hw, hend⟩ := hf t s ht hs (hi.wheeled ht)
  refine hi.placed hw ?_
  rcases hend with hlive | hoff
  · exact .inl (alive_of_live (hlive.trans (hi.lists.live id t ht)))
  · unfold Usnet.alive
    split
    · exact .inr ⟨rfl, hoff⟩
    · exact .inl rfl

/-! ## Section 4: The overflow list -/

/-- Every connection on the overflow list goes where `usnet_add_rto_list` would put it. -/
def rearranges (h : Host) : Prop :=
  ∀ id t, h.tcb id = some t → t.on_rto_idx = RTO_HASH.toNat →
    rearrange_slot h.ctx.rto_store t.sndvar.ts_rto = rto_slot h.ctx.rto_store t.sndvar.ts_rto

theorem sint_neg_of_nonneg {a b : UInt32} (h : 0 ≤ sint (a - b)) : sint (b - a) ≤ 0 := by
  simp only [sint_eq, toNat_sub] at *
  have := a.toNat_lt
  have := b.toNat_lt
  split at h <;> split <;> omega

/-- During the pass: `rest` are still to be visited. -/
structure Passing (slack : Nat → Int) (hs : RtoStore) (cur : UInt32) (rest : List Nat)
    (h : Host) : Prop where
  now_idx : h.ctx.rto_store.rto_now_idx = hs.rto_now_idx
  now_ts : h.ctx.rto_store.rto_now_ts = hs.rto_now_ts
  cur_time : h.ctx.cur_time = cur
  seats : ∀ id k ts_rto, h.armed id = some (k, ts_rto) → k ≠ RTO_HASH.toNat →
    Seat slack hs cur k ts_rto
  outside : ∀ id ts_rto, h.armed id = some ((RTO_HASH.toNat : Int), ts_rto) →
    id ∈ rest ∧ in_reach hs cur ts_rto ∧ rearrange_slot hs ts_rto = rto_slot hs ts_rto

theorem Passing.visit (hslack : ∀ i, 0 ≤ slack i) {hs : RtoStore} {cur : UInt32}
    (hwheel : hs.rto_now_idx.toNat < RTO_HASH.toNat) {walk : Nat} {rest : List Nat} {t : UsnTcb}
    (hp : Passing slack hs cur (walk :: rest) h) (ht : h.tcb walk = some t)
    (hidx : t.on_rto_idx = RTO_HASH.toNat) :
    Passing slack hs cur rest (h.put walk (rearrange_visit ⟨h.ctx, t⟩)) := by
  have hhash : RTO_HASH.toNat = 3000 := rfl
  obtain ⟨-, hreach, hslot⟩ := hp.outside walk t.sndvar.ts_rto
    (armed_iff.mpr ⟨by omega, t, ht, hidx, rfl⟩)
  have hmove : rearrange_visit ⟨h.ctx, t⟩ = put_rto (take_rto ⟨h.ctx, t⟩)
      (take_rto ⟨h.ctx, t⟩).ctx.rto_store (rearrange_slot hs t.sndvar.ts_rto).toNat := by
    have hclose : sint (h.ctx.rto_store.rto_now_ts - t.sndvar.ts_rto) < RTO_HASH.toNat := by
      rw [hp.now_ts]
      have hle := sint_neg_of_nonneg hreach.1
      omega
    rw [rearrange_visit_eq hidx, if_pos hclose]
    unfold rearrange_slot
    rw [hp.now_ts, hp.now_idx]
  rw [hmove]
  refine ⟨hp.now_idx, hp.now_ts, hp.cur_time, fun y k ts_rto ha hk => ?_, fun y ts_rto ha => ?_⟩
  · by_cases hy : y = walk
    · subst hy
      obtain ⟨-, -, rfl, rfl⟩ := armed_put_self ha
      have hseat := seat_slot hslack hwheel hreach
      rw [← hslot] at hseat
      exact hseat
    · rw [armed_put_of_ne hy] at ha
      exact hp.seats y k ts_rto ha hk
  · by_cases hy : y = walk
    · subst hy
      obtain ⟨-, -, hslot', -⟩ := armed_put_self ha
      have hlt := rearrange_slot_lt hs t.sndvar.ts_rto
      have hsame : ((rearrange_slot hs t.sndvar.ts_rto).toNat : Int) = RTO_HASH.toNat := hslot'
      omega
    · rw [armed_put_of_ne hy] at ha
      obtain ⟨hmem, hrest⟩ := hp.outside y ts_rto ha
      exact ⟨(List.mem_cons.mp hmem).resolve_left hy, hrest⟩

/-- The pass puts everything from the overflow list in its place. -/
theorem Passing.rearrange (hslack : ∀ i, 0 ≤ slack i) {hs : RtoStore} {cur : UInt32}
    (hwheel : hs.rto_now_idx.toNat < RTO_HASH.toNat) (hi : RtoInv 0 h)
    (hp : Passing slack hs cur (h.ctx.rto_store.rto_list RTO_HASH.toNat) h) :
    WheelInv slack (usnet_rearrange_rto_store h) := by
  obtain ⟨hi', hp'⟩ := rearrange_loop_rule (J := Passing slack hs cur)
    (fun h walk rest t hj _ ht hidx _ => Passing.visit hslack hwheel hj ht hidx) _ hi hp
    (hi.nodup _) fun _ hx => hx
  refine ⟨hi', fun id k ts_rto ha => ?_⟩
  have hin : k ≠ RTO_HASH.toNat := by
    rintro rfl
    exact absurd (hp'.outside id ts_rto ha).1 List.not_mem_nil
  have hseat := hp'.seats id k ts_rto ha hin
  rw [← hp'.cur_time] at hseat
  exact hseat.congr hp'.now_idx hp'.now_ts

theorem rearranges.armed (hr : rearranges h) {ts_rto : UInt32}
    (ha : h.armed id = some ((RTO_HASH.toNat : Int), ts_rto)) :
    rearrange_slot h.ctx.rto_store ts_rto = rto_slot h.ctx.rto_store ts_rto := by
  obtain ⟨-, t, ht, hidx, rfl⟩ := armed_iff.mp ha
  exact hr id t ht hidx

/-- A pass over a wheel that has its timers in place, but for those outside. -/
theorem usnet_rearrange_rto_store_seats (hslack : ∀ i, 0 ≤ slack i) (hi : RtoInv 0 h)
    (hseats : ∀ id k ts_rto, h.armed id = some (k, ts_rto) → k ≠ RTO_HASH.toNat →
      Seat slack h.ctx.rto_store h.ctx.cur_time k ts_rto)
    (hover : ∀ id ts_rto, h.armed id = some ((RTO_HASH.toNat : Int), ts_rto) →
      h.ctx.rto_store.rto_now_idx.toNat < RTO_HASH.toNat ∧
      in_reach h.ctx.rto_store h.ctx.cur_time ts_rto)
    (hr : rearranges h) : WheelInv slack (usnet_rearrange_rto_store h) := by
  by_cases hnone : h.ctx.rto_store.rto_list RTO_HASH.toNat = []
  · -- nothing is outside
    unfold usnet_rearrange_rto_store
    rw [hnone]
    refine ⟨hi, fun id k ts_rto ha => hseats id k ts_rto ha ?_⟩
    rintro rfl
    obtain ⟨-, t, ht, hidx, -⟩ := armed_iff.mp ha
    have hmem := (hi.mem id _).mpr ⟨t, ht, hidx⟩
    rw [hnone] at hmem
    exact absurd hmem List.not_mem_nil
  · obtain ⟨y, hy⟩ := List.exists_mem_of_ne_nil _ hnone
    obtain ⟨ts_rto, ha⟩ := hi.listed_armed hy
    have hwheel := (hover y ts_rto ha).1
    have hp : Passing slack h.ctx.rto_store h.ctx.cur_time
        (h.ctx.rto_store.rto_list RTO_HASH.toNat) h := by
      refine ⟨rfl, rfl, rfl, hseats, fun y ts_rto ha => ?_⟩
      obtain ⟨-, t, ht, hidx, -⟩ := armed_iff.mp ha
      exact ⟨(hi.mem y _).mpr ⟨t, ht, hidx⟩, (hover y ts_rto ha).2, hr.armed ha⟩
    exact Passing.rearrange hslack hwheel hi hp

theorem WheelInv.rearrange (hslack : ∀ i, 0 ≤ slack i) (hi : WheelInv slack h)
    (hr : rearranges h) : WheelInv slack (usnet_rearrange_rto_store h) :=
  usnet_rearrange_rto_store_seats hslack hi.lists (fun id k ts_rto ha _ => hi.seats id k ts_rto ha)
    (fun id ts_rto ha => ⟨(hi.seats id _ ts_rto ha).wheel, (hi.seats id _ ts_rto ha).ahead,
      (hi.seats id _ ts_rto ha).near⟩) hr

/-! ## Section 5: A turn of the check -/

/-- The wheel has moved on, before the overflow list is looked at. -/
def turned (h : Host) : Host :=
  { h with ctx := { h.ctx with rto_store := rto_advance h.ctx.rto_store } }

theorem rtm_tick_eq (h : Host) :
    rtm_tick h = if (turned h).ctx.rto_store.rto_now_idx % 1000 = 0 then
      usnet_rearrange_rto_store (turned h) else turned h := rfl

/-- When the turn ends with a look at the overflow list, everything goes where it
    belongs. -/
def turns_well (h : Host) : Prop :=
  (turned h).ctx.rto_store.rto_now_idx % 1000 = 0 → rearranges (turned h)

theorem rto_advance_idx {hs : RtoStore} (hwheel : hs.rto_now_idx.toNat < RTO_HASH.toNat) :
    (rto_advance hs).rto_now_idx.toNat = (hs.rto_now_idx.toNat + 1) % RTO_HASH.toNat := by
  have hhash : RTO_HASH.toNat = 3000 := rfl
  have hone : (1 : UInt32).toNat = 1 := rfl
  unfold rto_advance
  rw [UInt32.toNat_mod, add_toNat_of_lt (by omega), hone]

/-- What is outside the wheel stays far enough away. -/
def StaysOut (slack : Nat → Int) (h : Host) : Prop :=
  ∀ id ts_rto, h.armed id = some ((RTO_HASH.toNat : Int), ts_rto) →
    0 < sint (ts_rto - h.ctx.rto_store.rto_now_ts) ∧
    ((turned h).ctx.rto_store.rto_now_idx % 1000 ≠ 0 →
      RTO_HASH.toNat ≤ sint (ts_rto - h.ctx.rto_store.rto_now_ts) - 1
        + slack (turned h).ctx.rto_store.rto_now_idx.toNat)

theorem WheelInv.tick (hslack : ∀ i, 0 ≤ slack i) (hi : WheelInv slack h)
    (hnow : 0 ≤ sint (h.ctx.cur_time - h.ctx.rto_store.rto_now_ts))
    (hempty : h.ctx.rto_store.rto_list h.ctx.rto_store.rto_now_idx.toNat = [])
    (hq : turns_well h) (hout : StaysOut slack h) : WheelInv slack (rtm_tick h) := by
  have hlists : RtoInv 0 (turned h) := hi.lists.congr rfl rfl rfl
  -- the list just passed is empty
  have hother : ∀ id k ts_rto, h.armed id = some (k, ts_rto) →
      k ≠ h.ctx.rto_store.rto_now_idx.toNat := by
    rintro id k ts_rto ha rfl
    obtain ⟨-, t, ht, hidx, -⟩ := armed_iff.mp ha
    have hmem := (hi.lists.mem id _).mpr ⟨t, ht, hidx⟩
    rw [hempty] at hmem
    exact absurd hmem List.not_mem_nil
  -- with one tick the place comes one list nearer
  have hadvance : ∀ id k ts_rto, h.armed id = some (k, ts_rto) →
      (k = RTO_HASH.toNat → RTO_HASH.toNat ≤ sint (ts_rto - h.ctx.rto_store.rto_now_ts) - 1
        + slack (turned h).ctx.rto_store.rto_now_idx.toNat) →
      Seat slack (turned h).ctx.rto_store h.ctx.cur_time k ts_rto := by
    intro id k ts_rto ha hover
    have hseat := hi.seats id k ts_rto ha
    have hidx := rto_advance_idx hseat.wheel
    have hidx' : (turned h).ctx.rto_store.rto_now_idx.toNat
        = (h.ctx.rto_store.rto_now_idx.toNat + 1) % RTO_HASH.toNat := hidx
    unfold Seat
    rw [hidx']
    rw [hidx'] at hover
    refine Sits.advance hseat hnow (hother id k ts_rto ha) hover ?_
    rintro rfl
    exact (hout id ts_rto ha).1
  rw [rtm_tick_eq]
  -- every thousandth tick sorts the timers too far ahead into the lists
  by_cases hpass : (turned h).ctx.rto_store.rto_now_idx % 1000 = 0
  · rw [if_pos hpass]
    refine usnet_rearrange_rto_store_seats hslack hlists
      (fun id k ts_rto ha hk => hadvance id k ts_rto ha fun hk' => absurd hk' hk)
      (fun id ts_rto ha => ?_) (hq hpass)
    have hseat := hi.seats id _ ts_rto ha
    have hpos := (hout id ts_rto ha).1
    have hidx : (turned h).ctx.rto_store.rto_now_idx.toNat
        = (h.ctx.rto_store.rto_now_idx.toNat + 1) % RTO_HASH.toNat := rto_advance_idx hseat.wheel
    have hhash : 0 < RTO_HASH.toNat := by decide
    have hts : sint (ts_rto - (turned h).ctx.rto_store.rto_now_ts) = _ := sint_sub_succ (by omega)
    have hcur : sint (h.ctx.cur_time - (turned h).ctx.rto_store.rto_now_ts) = _ :=
      sint_sub_succ (by omega)
    have hnear := hseat.near
    have hcur' : (turned h).ctx.cur_time = h.ctx.cur_time := rfl
    refine ⟨hidx ▸ Nat.mod_lt _ hhash, ?_, ?_⟩
    · rw [hts]
      omega
    · rw [hcur', hts, hcur]
      omega
  · rw [if_neg hpass]
    refine ⟨hlists, fun id k ts_rto ha => hadvance id k ts_rto ha ?_⟩
    rintro rfl
    exact (hout id ts_rto ha).2 hpass

/-! ## Section 6: The check -/

/-- During a turn the wheel stands still. -/
structure Turning (slack : Nat → Int) (hs : RtoStore) (cur : UInt32) (h : Host) : Prop where
  inv : WheelInv slack h
  now_idx : h.ctx.rto_store.rto_now_idx = hs.rto_now_idx
  now_ts : h.ctx.rto_store.rto_now_ts = hs.rto_now_ts
  cur_time : h.ctx.cur_time = cur

theorem Turning.visit (hs : RtoStore) (cur : UInt32) (idx : Nat) :
    VisitKeeps (fun h walk => ¬ h.gives_up walk) (Turning slack hs cur) idx := by
  intro h h' walk hj hmem hno hon
  obtain ⟨hi, hnow, hts, hcur⟩ := hj
  obtain ⟨-, hlist⟩ := hi.lists.visit hmem hon
  refine ⟨?_, hlist⟩
  obtain ⟨t, ht, hidx⟩ := (hi.lists.mem walk idx).mp hmem
  have hw := hi.wheeled ht
  have hkeep : gives_up t = false := by
    simpa only [Host.gives_up, Host.test, ht, Bool.not_eq_true] using hno
  simp only [Host.on, ht] at hon
  split at hon
  · cases hon
  rename_i s hs
  obtain rfl := Except.ok.inj hon
  have hv := rtm_visit_visited hidx (hi.lists.nodup idx) hs
  have hcnt : h.ctx.rto_list_cnt ≠ 0 := by
    intro hcnt
    have hoff := (hw.none hi.lists hcnt).2
    simp only [hidx] at hoff
    omega
  -- a visit that resends takes the connection off the list and moves nothing else
  obtain ⟨hsame, hstore⟩ := hv.kept hkeep
  have hstore := hstore hcnt
  have hb := hv.bucketed hw.bucketed hidx
  simp only [hkeep, Bool.false_eq_true, if_false, Int.sub_zero] at hb
  have hoff : s.tcb.on_rto_idx < 0 := by
    rw [hv.off]
    decide
  have hempty : usnet_tcb_isempty s.tcb = false := by
    have hempty := hv.empty
    simp only [hi.lists.live walk t ht, hkeep, Bool.or_false] at hempty
    exact hempty
  have hw' : Wheeled slack h walk s := by
    refine ⟨hb, fun y hy k ts_rto ha => ?_, fun hon => by omega⟩
    rw [hsame, hstore]
    exact (hw.others y hy k ts_rto ha).congr rfl rfl
  refine ⟨hi.placed hw' (.inl (alive_of_live hempty)), ?_, ?_, hsame.trans hcur⟩
  · exact (congrArg RtoStore.rto_now_idx hstore).trans hnow
  · exact (congrArg RtoStore.rto_now_ts hstore).trans hts

/-- The deadline of the block has come. -/
def due (h : Host) (walk : Nat) : Prop :=
  ∀ t, h.tcb walk = some t → 0 ≤ t.on_rto_idx → 0 ≤ sint (h.ctx.cur_time - t.sndvar.ts_rto)

/-- In the turn of the list `idx`. -/
def InTurn (slack : Nat → Int) (idx : Nat) (h : Host) : Prop :=
  WheelInv slack h ∧ h.ctx.rto_store.rto_now_idx.toNat = idx ∧
    0 ≤ sint (h.ctx.cur_time - h.ctx.rto_store.rto_now_ts)

theorem InTurn.due {idx walk : Nat} (hj : InTurn slack idx h)
    (hmem : walk ∈ h.ctx.rto_store.rto_list idx) : due h walk := by
  obtain ⟨hi, hidx, hnow⟩ := hj
  intro t ht hon
  obtain ⟨u, hu, hui⟩ := (hi.lists.mem walk idx).mp hmem
  obtain rfl := Option.some.inj (ht.symm.trans hu)
  have hseat := hi.seats walk _ _ (armed_iff.mpr ⟨hon, t, ht, rfl, rfl⟩)
  rw [hui, ← hidx] at hseat
  exact Sits.due hseat hnow

/-- The check keeps the timers in their places, if every turn ends well. -/
theorem WheelInv.check_rule (hslack : ∀ i, 0 ≤ slack i) {Q : Host → Prop}
    (hq : ∀ h, WheelInv slack h → Q h → turns_well h ∧ StaysOut slack h) :
    CheckRule (fun h walk => ¬ h.gives_up walk) Q (WheelInv slack) (InTurn slack) where
  start hi hnow := ⟨hi, rfl, hnow⟩
  visit idx h h' walk hj hmem hno hon := by
    obtain ⟨hi, hidx, hnow⟩ := hj
    obtain ⟨⟨hi', hnow', hts', hcur'⟩, hlist⟩ :=
      Turning.visit h.ctx.rto_store h.ctx.cur_time idx h h' walk ⟨hi, rfl, rfl, rfl⟩ hmem hno hon
    refine ⟨⟨hi', ?_, ?_⟩, hlist⟩
    · rw [hnow', hidx]
    · rw [hcur', hts']
      exact hnow
  stop hj := hj.1
  tick hj hempty hQ := by
    obtain ⟨hi, hidx, hnow⟩ := hj
    obtain ⟨hturn, hout⟩ := hq _ hi hQ
    rw [← hidx] at hempty
    exact hi.tick hslack hnow hempty hturn hout

theorem rearrange_loop_now (l : List Nat) (h : Host) :
    (rearrange_loop l h).ctx.cur_time = h.ctx.cur_time ∧
    (rearrange_loop l h).ctx.rto_store.rto_now_ts = h.ctx.rto_store.rto_now_ts := by
  induction l generalizing h with
  | nil => exact ⟨rfl, rfl⟩
  | cons walk rest ih =>
    unfold rearrange_loop
    split
    · exact ih h
    · rename_i t ht
      have hvisit : (rearrange_visit ⟨h.ctx, t⟩).ctx.cur_time = h.ctx.cur_time ∧
          (rearrange_visit ⟨h.ctx, t⟩).ctx.rto_store.rto_now_ts = h.ctx.rto_store.rto_now_ts := by
        unfold rearrange_visit
        simp only
        split <;> exact ⟨rfl, rfl⟩
      obtain ⟨hcur, hts⟩ := ih (h.put walk (rearrange_visit ⟨h.ctx, t⟩))
      exact ⟨hcur.trans hvisit.1, hts.trans hvisit.2⟩

theorem rtm_tick_now (h : Host) :
    (rtm_tick h).ctx.cur_time = h.ctx.cur_time ∧
    (rtm_tick h).ctx.rto_store.rto_now_ts = h.ctx.rto_store.rto_now_ts + 1 := by
  rw [rtm_tick_eq]
  split
  · exact rearrange_loop_now _ (turned h)
  · exact ⟨rfl, rfl⟩

/-- A check that is not cut short gets the wheel past the present. -/
theorem rtm_loop_past (hslack : ∀ i, 0 ≤ slack i) {Q : Host → Prop}
    (hq : ∀ h, WheelInv slack h → Q h → turns_well h ∧ StaysOut slack h) {thresh : Int} :
    ∀ (n : Nat) {h h' : Host} {cnt m : Int}, WheelInv slack h →
      sint (h.ctx.cur_time - h.ctx.rto_store.rto_now_ts) < n →
      loop_visits (fun h walk => ¬ h.gives_up walk) Q thresh n h cnt →
      rtm_loop thresh n h cnt = .ok (h', m) → m ≤ thresh →
      WheelInv slack h' ∧ sint (h'.ctx.cur_time - h'.ctx.rto_store.rto_now_ts) < 0
  | 0, h, h', cnt, m, hi, hn, _, hok, _ => by
    obtain ⟨rfl, -⟩ := Prod.mk.inj (Except.ok.inj hok)
    exact ⟨hi, hn⟩
  | n + 1, h, h', cnt, m, hi, hn, hv, hok, hm => by
    -- on the ticks left; each turn empties a list and moves on by one
    simp only [rtm_loop] at hok
    simp only [loop_visits] at hv
    split at hok
    · rename_i hpast
      obtain ⟨rfl, -⟩ := Prod.mk.inj (Except.ok.inj hok)
      exact ⟨hi, hpast⟩
    rename_i hdue
    obtain ⟨hb, hv⟩ := hv.resolve_left hdue
    split at hok
    · cases hok
    rename_i h₁ cnt₁ hbucket
    simp only [hbucket] at hv
    obtain ⟨⟨hi₁, hidx, hts, hcur⟩, hempty⟩ := hb.run (Turning.visit h.ctx.rto_store h.ctx.cur_time _)
      _ ⟨hi, rfl, rfl, rfl⟩ rfl hbucket
    split at hok
    · rename_i hcut
      obtain ⟨-, rfl⟩ := Prod.mk.inj (Except.ok.inj hok)
      omega
    · rename_i hcut
      obtain ⟨hQ, hv⟩ := hv.resolve_left hcut
      obtain ⟨hturn, hout⟩ := hq h₁ hi₁ hQ
      have hempty := hempty (not_lt.mp hcut)
      rw [← hidx] at hempty
      have hnow : 0 ≤ sint (h₁.ctx.cur_time - h₁.ctx.rto_store.rto_now_ts) := by
        rw [hcur, hts]
        omega
      have htick := hi₁.tick hslack hnow hempty hturn hout
      refine rtm_loop_past hslack hq n htick ?_ hv hok hm
      obtain ⟨hcur₂, hts₂⟩ := rtm_tick_now h₁
      rw [hcur₂, hts₂, sint_sub_succ (by omega), hcur, hts]
      push_cast at hn
      omega

/-- No timer is left that is due. -/
def none_due (h : Host) : Prop :=
  ∀ id t, h.tcb id = some t → 0 ≤ t.on_rto_idx → sint (h.ctx.cur_time - t.sndvar.ts_rto) < 0

theorem WheelInv.check_past (hslack : ∀ i, 0 ≤ slack i) (hi : WheelInv slack h) {Q : Host → Prop}
    (hq : ∀ h, WheelInv slack h → Q h → turns_well h ∧ StaysOut slack h) {thresh cnt : Int}
    {h' : Host} (hv : check_visits (fun h walk => ¬ h.gives_up walk) Q thresh h)
    (hok : usnet_check_rtm_timeout h thresh = .ok (h', cnt)) (hcnt : cnt ≤ thresh) :
    none_due h' := by
  unfold usnet_check_rtm_timeout at hok
  intro id t ht hon
  split at hok
  · rename_i hzero
    obtain ⟨rfl, -⟩ := Prod.mk.inj (Except.ok.inj hok)
    have hoff := ((hi.wheeled ht).none hi.lists hzero).2
    simp only at hoff
    omega
  · rename_i hsome
    have hle : sint (h.ctx.cur_time - h.ctx.rto_store.rto_now_ts)
        < ((h.ctx.cur_time - h.ctx.rto_store.rto_now_ts).toNat + 1 : Nat) := by
      rw [sint_eq]
      split <;> omega
    obtain ⟨hi', hpast⟩ := rtm_loop_past hslack hq _ hi hle (hv.resolve_left hsome) hok hcnt
    exact Sits.pending (hi'.seats id _ _ (armed_iff.mpr ⟨hon, t, ht, rfl, rfl⟩)) hpast

/-! ## Section 7: Runs -/

/-- A packet that occupies sequence numbers is sent now. -/
def timed (s : Conn) : Conn := s.onSnd fun v => { v with ts_rto := s.ctx.cur_time + v.rto }

/-- The clock does not go back or wrap around as the wheel sees it, timers are
    started where they belong and not moved while they are on the wheel, and every
    turn of a check ends as `Q` wants it. -/
def in_time (Q : Host → Prop) (h : Host) : StoreEvent → Prop
  | .clock cur_time => h.ctx.rto_list_cnt ≠ 0 →
      sint (h.ctx.cur_time - h.ctx.rto_store.rto_now_ts)
        ≤ sint (cur_time - h.ctx.rto_store.rto_now_ts)
  | .add id => ∀ t, h.tcb id = some t → arms_well ⟨h.ctx, t⟩
  | .send id payloadlen => ∀ t, h.tcb id = some t → 0 < payloadlen →
      arms_well (timed ⟨h.ctx, t⟩) ∧
      (0 ≤ t.on_rto_idx → h.ctx.cur_time + t.sndvar.rto = t.sndvar.ts_rto)
  | .ack id => ∀ t, h.tcb id = some t → TCP_SEQ_GT t.snd_nxt t.sndvar.snd_una →
      arms_well (timed (usnet_remove_rto_list ⟨h.ctx, t⟩))
  | .rearrange => rearranges h
  | .rtm thresh => check_visits (fun h walk => ¬ h.gives_up walk) Q thresh h
  | _ => True

theorem usnet_update_retransmission_timer_wheeled (hslack : ∀ i, 0 ≤ slack i) (hi : RtoInv 0 h)
    {s s' : Conn} (hw : Wheeled slack h id s)
    (hc : TCP_SEQ_GT s.tcb.snd_nxt s.tcb.sndvar.snd_una →
      arms_well (timed (usnet_remove_rto_list s)))
    (hok : usnet_update_retransmission_timer s = .ok s') : Wheeled slack h id s' := by
  -- taken off first, the timer is put on again where data are outstanding
  have hfirst : ∀ u : Conn, (if u.tcb.on_rto_idx ≥ 0 then usnet_remove_rto_list u else u)
      = usnet_remove_rto_list u := by
    intro u
    split
    · rfl
    · rename_i hoff
      unfold usnet_remove_rto_list
      rw [if_pos (by omega)]
  unfold usnet_update_retransmission_timer at hok
  split at hok
  · cases hok
  simp only [hfirst] at hok
  generalize hu : s.onSnd (fun v => { v with nrtx := 0 }) = u at hok
  have hview : u.rto = s.rto := by
    rw [← hu]
    rfl
  have hts : u.tcb.sndvar.ts_rto = s.tcb.sndvar.ts_rto := by
    rw [← hu]
    rfl
  have hwu : Wheeled slack h id u := hw.congr hview fun _ => hts
  obtain ⟨hoff, hidx⟩ := hwu.remove
  have hseq : (usnet_remove_rto_list u).tcb.snd_nxt = s.tcb.snd_nxt ∧
      (usnet_remove_rto_list u).tcb.sndvar.snd_una = s.tcb.sndvar.snd_una := by
    rw [← hu]
    unfold usnet_remove_rto_list
    split <;> exact ⟨rfl, rfl⟩
  rw [hseq.1, hseq.2] at hok
  split at hok
  · rename_i hgt
    obtain rfl := Except.ok.inj hok
    have hcomm : usnet_remove_rto_list u
        = (usnet_remove_rto_list s).onSnd fun v => { v with nrtx := 0 } := by
      have hoffu : u.tcb.on_rto_idx = s.tcb.on_rto_idx := congrArg RtoView.on_rto_idx hview
      unfold usnet_remove_rto_list
      rw [hoffu]
      by_cases hon : s.tcb.on_rto_idx < 0
      · rw [if_pos hon, if_pos hon, hu]
      · rw [if_neg hon, if_neg hon, ← hu]
        rfl
    have harm : arms_well (timed (usnet_remove_rto_list u)) := by
      rw [hcomm]
      exact hc hgt
    exact Wheeled.add hslack hi (hoff.congr rfl fun hon => by omega) harm
  · obtain rfl := Except.ok.inj hok
    exact hoff

/-- Every step that meets the condition keeps the timers in their places. -/
theorem WheelInv.step (hslack : ∀ i, 0 ≤ slack i) {Q : Host → Prop}
    (hq : ∀ h, WheelInv slack h → Q h → turns_well h ∧ StaysOut slack h) {h' : Host}
    {ev : StoreEvent} (hi : WheelInv slack h) (hc : in_time Q h ev) (hstep : store_step h ev h') :
    WheelInv slack h' := by
  -- one connection at a time is moved, except by the check and the rearrangement
  cases ev with
  | other =>
    refine ⟨hi.lists.other hstep, fun id k ts_rto ha => ?_⟩
    rw [hstep.armed] at ha
    rw [hstep.store, hstep.cur_time]
    exact hi.seats id k ts_rto ha
  | clock cur_time =>
    obtain rfl := hstep
    refine ⟨hi.lists.congr rfl rfl rfl, fun id k ts_rto ha => ?_⟩
    have hcnt : h.ctx.rto_list_cnt ≠ 0 := by
      intro hcnt
      obtain ⟨hk, t, ht, hidx, -⟩ := armed_iff.mp ha
      have hoff := ((hi.wheeled ht).none hi.lists hcnt).2
      simp only [hidx] at hoff
      omega
    exact Sits.later (hi.seats id k ts_rto ha) (hc hcnt)
  | add id =>
    refine hi.runs (fun t s ht hs hw => ?_) hstep
    obtain rfl := Except.ok.inj hs
    exact ⟨hw.add hslack hi.lists (hc t ht), .inl (PacketStep.add_rto _).framed.empty⟩
  | remove id =>
    refine hi.runs (fun t s ht hs hw => ?_) hstep
    obtain rfl := Except.ok.inj hs
    exact ⟨hw.remove.1, .inr hw.remove.2⟩
  | send id payloadlen =>
    refine hi.runs (fun t s ht hs hw => ?_) hstep
    obtain rfl := Except.ok.inj hs
    refine ⟨?_, .inl (arm_rto_packets _ _).moves.framed.empty⟩
    unfold arm_rto
    split
    · rename_i hpos
      obtain ⟨harm, hsame⟩ := hc t ht hpos
      exact Wheeled.add hslack hi.lists (hw.congr rfl hsame) harm
    · exact hw
  | ack id =>
    refine hi.runs (fun t s ht hs hw => ?_) hstep
    exact ⟨usnet_update_retransmission_timer_wheeled hslack hi.lists hw (hc t ht) hs,
      .inl (usnet_update_retransmission_timer_moves hs).framed.empty⟩
  | release id =>
    refine hi.runs (fun t s ht hs hw => ?_) hstep
    obtain rfl := Except.ok.inj hs
    obtain ⟨hoff, hidx⟩ := hw.remove
    have hview := usnet_release_tcb_rto ⟨h.ctx, t⟩
    have hidx' : (usnet_release_tcb ⟨h.ctx, t⟩).tcb.on_rto_idx < 0 := by
      have hsame : (usnet_release_tcb ⟨h.ctx, t⟩).tcb.on_rto_idx = _ :=
        congrArg RtoView.on_rto_idx hview
      rw [hsame]
      exact hidx
    exact ⟨hoff.congr hview fun hon => by omega, .inr hidx'⟩
  | rearrange =>
    obtain rfl := hstep
    exact hi.rearrange hslack hc
  | rtm thresh =>
    obtain ⟨cnt, hok⟩ := hstep
    exact (WheelInv.check_rule hslack hq).run hi hc hok

theorem WheelInv.empty (he : EmptyStore h) : WheelInv slack h := by
  refine ⟨.empty he, fun id k ts_rto ha => ?_⟩
  obtain ⟨hk, t, ht, hidx, -⟩ := armed_iff.mp ha
  have hoff := he.off id t ht
  omega

/-- The overflow list is looked at every 1000 ticks, and until then what comes into
    range stays on it. -/
def pass_slack (idx : Nat) : Int := (idx % 1000 : Nat)

theorem turned_idx (hwheel : h.ctx.rto_store.rto_now_idx.toNat < RTO_HASH.toNat) :
    (turned h).ctx.rto_store.rto_now_idx.toNat
        = (h.ctx.rto_store.rto_now_idx.toNat + 1) % RTO_HASH.toNat ∧
    ((turned h).ctx.rto_store.rto_now_idx % 1000 ≠ 0 →
      (turned h).ctx.rto_store.rto_now_idx.toNat % 1000 ≠ 0) := by
  refine ⟨rto_advance_idx hwheel, fun hne hzero => hne (UInt32.toNat_inj.mp ?_)⟩
  rw [UInt32.toNat_mod]
  exact hzero

theorem turns_well.staysOut (hi : WheelInv pass_slack h) (hq : turns_well h) :
    turns_well h ∧ StaysOut pass_slack h := by
  refine ⟨hq, fun id ts_rto ha => ?_⟩
  have hseat := hi.seats id _ ts_rto ha
  have hhash : RTO_HASH.toNat = 3000 := rfl
  have hwheel := hseat.wheel
  have hfar : (RTO_HASH.toNat : Int) ≤ sint (ts_rto - h.ctx.rto_store.rto_now_ts)
      + pass_slack h.ctx.rto_store.rto_now_idx.toNat := by
    rcases hseat.place with ⟨-, hfar⟩ | ⟨-, hslot⟩
    · exact hfar
    · have hlt := Nat.mod_lt ((sint (ts_rto - h.ctx.rto_store.rto_now_ts)).toNat
        + h.ctx.rto_store.rto_now_idx.toNat) (by decide : 0 < RTO_HASH.toNat)
      omega
  unfold pass_slack at *
  refine ⟨by omega, fun hpass => ?_⟩
  obtain ⟨hidx, hne⟩ := turned_idx hwheel
  have hne := hne hpass
  rw [hidx, hhash] at hne ⊢
  omega

/-- Nothing outside the wheel comes into range before the overflow list is looked at. -/
def turns_exactly (h : Host) : Prop :=
  turns_well h ∧ ∀ id t, h.tcb id = some t → t.on_rto_idx = RTO_HASH.toNat →
    RTO_HASH.toNat ≤ sint (t.sndvar.ts_rto - (turned h).ctx.rto_store.rto_now_ts) ∨
    (turned h).ctx.rto_store.rto_now_idx % 1000 = 0

theorem turns_exactly.staysOut (hi : WheelInv (fun _ => 0) h) (hq : turns_exactly h) :
    turns_well h ∧ StaysOut (fun _ => 0) h := by
  refine ⟨hq.1, fun id ts_rto ha => ?_⟩
  have hseat := hi.seats id _ ts_rto ha
  have hhash : RTO_HASH.toNat = 3000 := rfl
  have hfar : (RTO_HASH.toNat : Int) ≤ sint (ts_rto - h.ctx.rto_store.rto_now_ts) := by
    rcases hseat.place with ⟨-, hfar⟩ | ⟨-, hslot⟩
    · omega
    · have hlt := Nat.mod_lt ((sint (ts_rto - h.ctx.rto_store.rto_now_ts)).toNat
        + h.ctx.rto_store.rto_now_idx.toNat) (by decide : 0 < RTO_HASH.toNat)
      omega
  refine ⟨by omega, fun hpass => ?_⟩
  obtain ⟨-, t, ht, hidx, rfl⟩ := armed_iff.mp ha
  have hleft := (hq.2 id t ht hidx).resolve_right hpass
  have hts : sint (t.sndvar.ts_rto - (turned h).ctx.rto_store.rto_now_ts) = _ :=
    sint_sub_succ (by omega)
  simp only
  omega

/-- A timer that is less than `RTO_HASH` ticks away is on the list its distance
    leads to, and any other on the overflow list. -/
def in_place (h : Host) : Prop :=
  ∀ id t, h.tcb id = some t → 0 ≤ t.on_rto_idx →
    let diff := sint (t.sndvar.ts_rto - h.ctx.rto_store.rto_now_ts)
    let slot := if diff < RTO_HASH.toNat
      then (diff.toNat + h.ctx.rto_store.rto_now_idx.toNat) % RTO_HASH.toNat
      else RTO_HASH.toNat
    0 ≤ diff ∧ t.on_rto_idx = slot

theorem WheelInv.in_place (hi : WheelInv (fun _ => 0) h) : in_place h := by
  intro id t ht hon
  have hseat := hi.seats id _ _ (armed_iff.mpr ⟨hon, t, ht, rfl, rfl⟩)
  refine ⟨hseat.ahead, ?_⟩
  rcases hseat.place with ⟨hout, hfar⟩ | ⟨hnear, hslot⟩
  · rw [hout, if_neg (by omega)]
  · rw [if_pos hnear, hslot]

/-- In a run where timers are started where they belong and the overflow list is
    rearranged right, a check handles only timeouts whose time has come, and leaves
    none behind unless it is cut short.  If nothing comes into range between two
    passes either, every timer is on its own list. -/
theorem rto_timers_in_time (h : Host) :
    (RunWhere store_step (in_time turns_well) EmptyStore h →
      ∀ thresh, in_time turns_well h (.rtm thresh) →
        check_visits due turns_well thresh h ∧
        ∀ h' cnt, usnet_check_rtm_timeout h thresh = .ok (h', cnt) → cnt ≤ thresh → none_due h') ∧
    (RunWhere store_step (in_time turns_exactly) EmptyStore h → in_place h) := by
  constructor
  · intro hr thresh hc
    have hslack : ∀ i, 0 ≤ pass_slack i := fun i => Int.natCast_nonneg _
    have hq := fun h hi hq => turns_well.staysOut (h := h) hi hq
    have hi : WheelInv pass_slack h := hr.invariant (fun _ he => .empty he)
      fun _ _ _ hi hc hs => hi.step hslack hq hc hs
    exact ⟨(WheelInv.check_rule hslack hq).imp (fun _ _ _ hj hmem _ => hj.due hmem) hi hc,
      fun h' cnt hok hcnt => hi.check_past hslack hq hc hok hcnt⟩
  · intro hr
    have hi : WheelInv (fun _ => 0) h := hr.invariant (fun _ he => .empty he)
      fun _ _ _ hi hc hs => hi.step (fun _ => le_refl 0)
        (fun h hi hq => turns_exactly.staysOut (h := h) hi hq) hc hs
    exact hi.in_place

/-- A connection whose SYN/ACK is sent again after two ticks, or after one. -/
def quick_tcb (id : Nat) (rto : UInt32) : UsnTcb :=
  let t := timed_tcb 0
  { t with id := id, sndvar := { t.sndvar with rto := rto } }

/-- The process with two connections, on no list. -/
def quick_host : Host :=
  { ctx := quiet_ctx
    tcb := fun id => if id = 7 then some (quick_tcb 7 2)
      else if id = 8 then some (quick_tcb 8 1) else none
    so_tcb := fun _ => none }

theorem quick_host_empty : EmptyStore quick_host := by
  have htcb : ∀ id t, quick_host.tcb id = some t →
      id = 7 ∧ t = quick_tcb 7 2 ∨ id = 8 ∧ t = quick_tcb 8 1 := by
    intro id t ht
    unfold quick_host at ht
    simp only at ht
    split at ht
    · rename_i hid
      exact .inl ⟨hid, (Option.some.inj ht).symm⟩
    · split at ht
      · rename_i hid
        exact .inr ⟨hid, (Option.some.inj ht).symm⟩
      · cases ht
  refine ⟨fun _ => rfl, rfl, fun id t ht => ?_, fun id t ht => ?_⟩
  · rcases htcb id t ht with ⟨rfl, rfl⟩ | ⟨rfl, rfl⟩ <;> exact (by decide : (-1 : Int) < 0)
  · rcases htcb id t ht with ⟨rfl, rfl⟩ | ⟨rfl, rfl⟩ <;> exact ⟨rfl, rfl⟩

/-- The clock goes on. -/
def clock_forward (h : Host) : StoreEvent → Prop
  | .clock cur_time => h.ctx.cur_time ≤ cur_time
  | _ => True

/-- The wheel starts at the deadline of the first timer.  The second, which is a
    tick earlier, is put behind it and is not found by the check that handles the first. -/
theorem rto_timers_late : ¬ ∀ h, RunWhere store_step clock_forward EmptyStore h →
    ∀ thresh, check_visits due (fun _ => True) thresh h ∧
      ∀ h' cnt, usnet_check_rtm_timeout h thresh = .ok (h', cnt) → cnt ≤ thresh →
        none_due h' := by
  intro hall
  have hfirst : RunWhere store_step clock_forward EmptyStore _ :=
    .next (.init quick_host_empty) (a := .send 7 1) ⟨rfl, rfl⟩ trivial
  have hsecond : RunWhere store_step clock_forward EmptyStore _ :=
    hfirst.next (a := .send 8 1) ⟨rfl, rfl⟩ trivial
  have hlater : RunWhere store_step clock_forward EmptyStore _ :=
    hsecond.next (a := .clock 1002) rfl (by decide : (1000 : UInt32) ≤ 1002)
  have hnone := (hall _ hlater 10).2 _ _ rfl (by decide)
  have hleft := hnone 8 _ rfl (by decide)
  exact absurd hleft (by decide)

/-- A timer that is started, runs off and is handled. -/
theorem rto_timers_sample : ∃ h h', h.ctx.rto_store.rto_list 0 = [7] ∧ in_place h ∧
    check_visits due turns_well 10 h ∧
    usnet_check_rtm_timeout h 10 = .ok (h', 1) ∧ none_due h' := by
  have hreach : arms_well (timed ⟨(timed_host 0).ctx, timed_tcb 0⟩) :=
    fun _ _ => ⟨by decide, by decide⟩
  have hsend : ∀ Q, in_time Q (timed_host 0) (.send 7 1) := by
    intro Q t ht _
    obtain rfl := Option.some.inj ht
    exact ⟨hreach, fun hon => absurd hon (by decide)⟩
  have hdue : ∀ Q, RunWhere store_step (in_time Q) EmptyStore _ := fun Q =>
    ((RunWhere.init (timed_host_empty 0)).next (a := .send 7 1) ⟨rfl, rfl⟩ (hsend Q)).next
      (a := .clock 1500) rfl (fun _ => by decide)
  have hcheck := (rto_timers_in_time _).1 (hdue _) 10
    (Or.inr (Or.inr ⟨Or.inr ⟨Bool.false_ne_true, trivial⟩, Or.inr ⟨?_, trivial⟩⟩))
  refine ⟨_, _, rfl, (rto_timers_in_time _).2 (hdue _), hcheck.1, rfl, hcheck.2 _ _ rfl (by decide)⟩
  exact fun hpass => absurd hpass (by decide)

end Usnet
