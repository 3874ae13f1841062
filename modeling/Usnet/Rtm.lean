import Usnet.TimerLists

/-! # The retransmission check (timer.c)

    `usnet_check_rtm_timeout` turns the wheel of retransmission lists up to the
    present and visits what is due, and `usnet_rearrange_rto_store` takes what has
    come into range from the overflow list.
-/

namespace Usnet

open CInt Run

/-! ## Section 1: The wheel -/

/-- The body of the loop in `usnet_check_rtm_timeout` for one connection on
    `rto_list`, which is the list `idx`. -/
def rtm_visit (idx : Nat) (s : Conn) : Except Fault Conn :=
  if s.tcb.on_rto_idx ≥ 0 then
    match usnet_handle_rto s with
    | .error e => .error e
    | .ok (_, s) =>
      .ok ((s.onTcb fun t => { t with on_rto_idx := -1 }).onCtx fun c => { c with
        rto_store := c.rto_store.remove idx s.tcb.id
        rto_list_cnt := c.rto_list_cnt - 1 })
  else .ok s

/-- The body of the loop in `usnet_rearrange_rto_store`.  The sum is taken in
    unsigned arithmetic. -/
def rearrange_visit (s : Conn) : Conn :=
  let diff := s.ctx.rto_store.rto_now_ts - s.tcb.sndvar.ts_rto
  if sint diff < RTO_HASH.toNat then
    let offset := (diff + s.ctx.rto_store.rto_now_idx) % RTO_HASH
    (s.onTcb fun t => { t with on_rto_idx := offset.toNat }).onCtx fun c => { c with
      rto_store := (c.rto_store.remove RTO_HASH.toNat s.tcb.id).insert offset.toNat s.tcb.id }
  else s

/-- The loop of `usnet_rearrange_rto_store`, whose visits take nothing but
    themselves off the list. -/
def rearrange_loop : List Nat → Host → Host
  | [], h => h
  | walk :: rest, h =>
    match h.tcb walk with
    | none => rearrange_loop rest h
    | some t => rearrange_loop rest (h.put walk (rearrange_visit ⟨h.ctx, t⟩))

/-- `usnet_rearrange_rto_store`. -/
def usnet_rearrange_rto_store (h : Host) : Host :=
  rearrange_loop (h.ctx.rto_store.rto_list RTO_HASH.toNat) h

/-- The wheel moves on by one tick. -/
def rto_advance (hs : RtoStore) : RtoStore :=
  { hs with rto_now_idx := (hs.rto_now_idx + 1) % RTO_HASH, rto_now_ts := hs.rto_now_ts + 1 }

/-- The end of a turn of the outer loop. -/
def rtm_tick (h : Host) : Host :=
  let h := { h with ctx := { h.ctx with rto_store := rto_advance h.ctx.rto_store } }
  if h.ctx.rto_store.rto_now_idx % 1000 = 0 then usnet_rearrange_rto_store h else h

/-- The inner loop of `usnet_check_rtm_timeout`, which a list of `n` elements
    allows `n` visits. -/
def rtm_bucket (idx : Nat) (thresh : Int) :
    Nat → Host → Int → Option Nat → Except Fault (Host × Int)
  | 0, h, cnt, _ => .ok (h, cnt)
  | _, h, cnt, none => .ok (h, cnt)
  | n + 1, h, cnt, some walk =>
    if cnt + 1 > thresh then .ok (h, cnt + 1)
    else
      let next := tailq_next (h.ctx.rto_store.rto_list idx) walk
      match h.on walk (rtm_visit idx) with
      | .error e => .error e
      | .ok h => rtm_bucket idx thresh n h (cnt + 1) next

/-- The outer loop, for as many turns as there are ticks to make up. -/
def rtm_loop (thresh : Int) : Nat → Host → Int → Except Fault (Host × Int)
  | 0, h, cnt => .ok (h, cnt)
  | n + 1, h, cnt =>
    let hs := h.ctx.rto_store
    if sint (h.ctx.cur_time - hs.rto_now_ts) < 0 then .ok (h, cnt)
    else
      let rto_list := hs.rto_list hs.rto_now_idx.toNat
      match rtm_bucket hs.rto_now_idx.toNat thresh rto_list.length h cnt rto_list.head? with
      | .error e => .error e
      | .ok (h, cnt) =>
        if cnt > thresh then .ok (h, cnt) else rtm_loop thresh n (rtm_tick h) cnt

/-- `usnet_check_rtm_timeout`; with the state, the number of visits is returned. -/
def usnet_check_rtm_timeout (h : Host) (thresh : Int) : Except Fault (Host × Int) :=
  if h.ctx.rto_list_cnt = 0 then .ok (h, 0)
  else rtm_loop thresh ((h.ctx.cur_time - h.ctx.rto_store.rto_now_ts).toNat + 1) h 0

/-! ## Section 2: What the visits meet -/

/-- Every visit of the inner loop finds a state that satisfies `P`. -/
def bucket_visits (P : Host → Nat → Prop) (idx : Nat) (thresh : Int) :
    Nat → Host → Int → Option Nat → Prop
  | 0, _, _, _ => True
  | _, _, _, none => True
  | n + 1, h, cnt, some walk =>
    cnt + 1 > thresh ∨
    P h walk ∧ match h.on walk (rtm_visit idx) with
      | .error _ => True
      | .ok h' => bucket_visits P idx thresh n h' (cnt + 1)
          (tailq_next (h.ctx.rto_store.rto_list idx) walk)

/-- So does every visit of the check, and every turn ends in a state that
    satisfies `Q`. -/
def loop_visits (P : Host → Nat → Prop) (Q : Host → Prop) (thresh : Int) : Nat → Host → Int → Prop
  | 0, _, _ => True
  | n + 1, h, cnt =>
    let hs := h.ctx.rto_store
    let rto_list := hs.rto_list hs.rto_now_idx.toNat
    sint (h.ctx.cur_time - hs.rto_now_ts) < 0 ∨
    bucket_visits P hs.rto_now_idx.toNat thresh rto_list.length h cnt rto_list.head? ∧
    match rtm_bucket hs.rto_now_idx.toNat thresh rto_list.length h cnt rto_list.head? with
    | .error _ => True
    | .ok (h, cnt) =>
      cnt > thresh ∨ Q h ∧ loop_visits P Q thresh n (rtm_tick h) cnt

def check_visits (P : Host → Nat → Prop) (Q : Host → Prop) (thresh : Int) (h : Host) : Prop :=
  h.ctx.rto_list_cnt = 0 ∨
  loop_visits P Q thresh ((h.ctx.cur_time - h.ctx.rto_store.rto_now_ts).toNat + 1) h 0

/-! ## Section 3: The rule of the loops -/

/-- A visit keeps `J` and takes what it visits off its list. -/
def VisitKeeps (P : Host → Nat → Prop) (J : Host → Prop) (idx : Nat) : Prop :=
  ∀ h h' walk, J h → walk ∈ h.ctx.rto_store.rto_list idx → P h walk →
    h.on walk (rtm_visit idx) = .ok h' →
    J h' ∧ h'.ctx.rto_store.rto_list idx = (h.ctx.rto_store.rto_list idx).erase walk

theorem tailq_next_cons (c : Nat) (rest : List Nat) : tailq_next (c :: rest) c = rest.head? := by
  simp [tailq_next, List.head?_eq_getElem?]

variable {P P' : Host → Nat → Prop} {Q : Host → Prop}

/-- The inner loop keeps what the visits keep, and empties the list unless it is
    cut short. -/
theorem bucket_visits.run {J : Host → Prop} {idx : Nat} {thresh : Int} (hk : VisitKeeps P J idx) :
    ∀ (l : List Nat) {h h' : Host} {cnt n : Int}, J h → h.ctx.rto_store.rto_list idx = l →
      bucket_visits P idx thresh l.length h cnt l.head? →
      rtm_bucket idx thresh l.length h cnt l.head? = .ok (h', n) →
      J h' ∧ (n ≤ thresh → h'.ctx.rto_store.rto_list idx = [])
  | [], h, h', cnt, n, hj, hl, _, hok => by
    obtain ⟨rfl, -⟩ := Prod.mk.inj (Except.ok.inj hok)
    exact ⟨hj, fun _ => hl⟩
  | c :: rest, h, h', cnt, n, hj, hl, hv, hok => by
    simp only [List.length_cons, List.head?_cons, rtm_bucket] at hok
    simp only [List.length_cons, List.head?_cons, bucket_visits] at hv
    split at hok
    · obtain ⟨rfl, rfl⟩ := Prod.mk.inj (Except.ok.inj hok)
      exact ⟨hj, fun hle => by omega⟩
    · rename_i hcut
      obtain ⟨hp, hv⟩ := hv.resolve_left hcut
      split at hok
      · cases hok
      · rename_i h₁ hon
        rw [hon, hl, tailq_next_cons] at hv
        rw [hl, tailq_next_cons] at hok
        have hmem : c ∈ h.ctx.rto_store.rto_list idx := by
          rw [hl]
          exact List.mem_cons_self
        obtain ⟨hj₁, hl₁⟩ := hk h h₁ c hj hmem hp hon
        rw [hl, List.erase_cons_head] at hl₁
        exact bucket_visits.run hk rest hj₁ hl₁ hv hok

/-- What follows from the condition where the invariant holds is true of every visit. -/
theorem bucket_visits.imp {J : Host → Prop} {idx : Nat} {thresh : Int} (hk : VisitKeeps P J idx)
    (himp : ∀ h walk, J h → walk ∈ h.ctx.rto_store.rto_list idx → P h walk → P' h walk) :
    ∀ (l : List Nat) {h : Host} {cnt : Int}, J h → h.ctx.rto_store.rto_list idx = l →
      bucket_visits P idx thresh l.length h cnt l.head? →
      bucket_visits P' idx thresh l.length h cnt l.head?
  | [], _, _, _, _, _ => trivial
  | c :: rest, h, cnt, hj, hl, hv => by
    simp only [List.length_cons, List.head?_cons, bucket_visits] at hv ⊢
    rcases hv with hcut | ⟨hp, hv⟩
    · exact .inl hcut
    · have hmem : c ∈ h.ctx.rto_store.rto_list idx := by
        rw [hl]
        exact List.mem_cons_self
      refine .inr ⟨himp h c hj hmem hp, ?_⟩
      split
      · trivial
      · rename_i h₁ hon
        rw [hon, hl, tailq_next_cons] at hv
        rw [hl, tailq_next_cons]
        obtain ⟨hj₁, hl₁⟩ := hk h h₁ c hj hmem hp hon
        rw [hl, List.erase_cons_head] at hl₁
        exact bucket_visits.imp hk himp rest hj₁ hl₁ hv

/-- An invariant of the check: `J idx` holds during the turn of the list `idx`. -/
structure CheckRule (P : Host → Nat → Prop) (Q : Host → Prop) (I : Host → Prop)
    (J : Nat → Host → Prop) : Prop where
  start : ∀ {h : Host}, I h → 0 ≤ sint (h.ctx.cur_time - h.ctx.rto_store.rto_now_ts) →
    J h.ctx.rto_store.rto_now_idx.toNat h
  visit : ∀ idx, VisitKeeps P (J idx) idx
  stop : ∀ {idx : Nat} {h : Host}, J idx h → I h
  tick : ∀ {idx : Nat} {h : Host}, J idx h → h.ctx.rto_store.rto_list idx = [] → Q h →
    I (rtm_tick h)

variable {I : Host → Prop} {J : Nat → Host → Prop}

theorem CheckRule.loop (hr : CheckRule P Q I J) {thresh : Int} : ∀ (n : Nat) {h h' : Host}
    {cnt m : Int}, I h → loop_visits P Q thresh n h cnt → rtm_loop thresh n h cnt = .ok (h', m) → I h'
  | 0, h, h', cnt, m, hi, _, hok => by
    obtain ⟨rfl, -⟩ := Prod.mk.inj (Except.ok.inj hok)
    exact hi
  | n + 1, h, h', cnt, m, hi, hv, hok => by
    simp only [rtm_loop] at hok
    simp only [loop_visits] at hv
    split at hok
    · obtain ⟨rfl, -⟩ := Prod.mk.inj (Except.ok.inj hok)
      exact hi
    rename_i hdue
    obtain ⟨hb, hv⟩ := hv.resolve_left hdue
    split at hok
    · cases hok
    rename_i h₁ cnt₁ hbucket
    simp only [hbucket] at hv
    obtain ⟨hj, hempty⟩ := hb.run (hr.visit _) _ (hr.start hi (not_lt.mp hdue)) rfl hbucket
    split at hok
    · obtain ⟨rfl, -⟩ := Prod.mk.inj (Except.ok.inj hok)
      exact hr.stop hj
    · rename_i hcut
      obtain ⟨hq, hv⟩ := hv.resolve_left hcut
      exact CheckRule.loop hr n (hr.tick hj (hempty (not_lt.mp hcut)) hq) hv hok

/-- The check keeps its invariant. -/
theorem CheckRule.run (hr : CheckRule P Q I J) {thresh m : Int} {h h' : Host} (hi : I h)
    (hv : check_visits P Q thresh h) (hok : usnet_check_rtm_timeout h thresh = .ok (h', m)) :
    I h' := by
  unfold usnet_check_rtm_timeout at hok
  split at hok
  · obtain ⟨rfl, -⟩ := Prod.mk.inj (Except.ok.inj hok)
    exact hi
  · rename_i hcnt
    exact hr.loop _ hi (hv.resolve_left hcnt) hok

theorem CheckRule.loop_imp (hr : CheckRule P Q I J)
    (himp : ∀ idx h walk, J idx h → walk ∈ h.ctx.rto_store.rto_list idx → P h walk → P' h walk)
    {thresh : Int} : ∀ (n : Nat) {h : Host} {cnt : Int}, I h → loop_visits P Q thresh n h cnt →
    loop_visits P' Q thresh n h cnt
  | 0, _, _, _, _ => trivial
  | n + 1, h, cnt, hi, hv => by
    simp only [loop_visits] at hv ⊢
    by_cases hdue : sint (h.ctx.cur_time - h.ctx.rto_store.rto_now_ts) < 0
    · exact .inl hdue
    obtain ⟨hb, hv⟩ := hv.resolve_left hdue
    have hj := hr.start hi (not_lt.mp hdue)
    refine .inr ⟨hb.imp (hr.visit _) (himp _) _ hj rfl, ?_⟩
    split
    · trivial
    · rename_i h₁ cnt₁ hbucket
      simp only [hbucket] at hv
      rcases hv with hcut | ⟨hq, hv⟩
      · exact .inl hcut
      · obtain ⟨hj₁, hempty⟩ := hb.run (hr.visit _) _ hj rfl hbucket
        by_cases hcut : cnt₁ > thresh
        · exact .inl hcut
        · exact .inr ⟨hq, CheckRule.loop_imp hr himp n
            (hr.tick hj₁ (hempty (not_lt.mp hcut)) hq) hv⟩

/-- What is true of every visit of a check. -/
theorem CheckRule.imp (hr : CheckRule P Q I J)
    (himp : ∀ idx h walk, J idx h → walk ∈ h.ctx.rto_store.rto_list idx → P h walk → P' h walk)
    {thresh : Int} {h : Host} (hi : I h) (hv : check_visits P Q thresh h) :
    check_visits P' Q thresh h :=
  hv.imp_right (hr.loop_imp himp _ hi)

end Usnet
