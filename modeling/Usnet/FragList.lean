import Usnet.Ringbuf
import Usnet.Lib.IvList

/-! # The fragment list as a list of intervals

    Measured from `head_seq`, a fragment is an interval of naturals as long as
    everything stays within 65535 of it.  The traversal of
    `usnet_insert_fragment` is then insertion into a list of separated
    intervals, and taking off the first fragment is absorbing the front.
-/

namespace Usnet

open CInt Circular IvList

/-! ## Section 1: Sequence comparisons as comparisons of distances -/

theorem ahead_minseq {h a b : UInt32} (ha : ahead h a < 2 ^ 31) (hb : ahead h b < 2 ^ 31) :
    ahead h (minseq a b) = min (ahead h a) (ahead h b) := by
  have hmax : (MAXSEQ / 2).toNat = 2147483647 := by decide
  have := a.toNat_lt
  have := b.toNat_lt
  have := h.toNat_lt
  unfold minseq
  simp only [UInt32.lt_iff_toNat_lt, UInt32.le_iff_toNat_le, hmax,
    ← UInt32.toNat_inj, ahead, toNat_sub] at *
  split_ifs <;> omega

theorem ahead_maxseq {h a b : UInt32} (ha : ahead h a < 2 ^ 31) (hb : ahead h b < 2 ^ 31) :
    ahead h (maxseq a b) = max (ahead h a) (ahead h b) := by
  have hmax : (MAXSEQ / 2).toNat = 2147483647 := by decide
  have := a.toNat_lt
  have := b.toNat_lt
  have := h.toNat_lt
  unfold maxseq
  simp only [UInt32.lt_iff_toNat_lt, UInt32.le_iff_toNat_le, hmax,
    ← UInt32.toNat_inj, ahead, toNat_sub] at *
  split_ifs <;> omega

theorem minseq_eq_left {h a b : UInt32} (ha : ahead h a < 2 ^ 31) (hb : ahead h b < 2 ^ 31) :
    minseq a b = a ↔ ahead h a ≤ ahead h b := by
  constructor
  · intro heq
    have := ahead_minseq ha hb
    rw [heq] at this
    omega
  · intro hle
    exact ahead_inj ((ahead_minseq ha hb).trans (Nat.min_eq_left hle))

theorem minseq_eq_right {h a b : UInt32} (ha : ahead h a < 2 ^ 31) (hb : ahead h b < 2 ^ 31) :
    minseq a b = b ↔ ahead h b ≤ ahead h a := by
  constructor
  · intro heq
    have := ahead_minseq ha hb
    rw [heq] at this
    omega
  · intro hle
    exact ahead_inj ((ahead_minseq ha hb).trans (Nat.min_eq_right hle))

theorem maxseq_eq_right {h a b : UInt32} (ha : ahead h a < 2 ^ 31) (hb : ahead h b < 2 ^ 31) :
    maxseq a b = b ↔ ahead h a ≤ ahead h b := by
  constructor
  · intro heq
    have := ahead_maxseq ha hb
    rw [heq] at this
    omega
  · intro hle
    exact ahead_inj ((ahead_maxseq ha hb).trans (Nat.max_eq_right hle))

/-! ## Section 2: Fragments as intervals -/

/-- A fragment measured from the sequence number `h`. -/
def Fragment.iv (h : UInt32) (f : Fragment) : Iv :=
  ⟨ahead h f.seq, ahead h f.seq + f.len.toNat⟩

theorem toUInt32_eq_u32 (x : UInt16) : x.toUInt32 = u32 x.toNat := by
  apply UInt32.toNat_inj.mp
  have := x.toNat_lt
  rw [toNat_u32_of_lt (by omega)]
  simp

/-- The sequence number behind a fragment. -/
theorem Fragment.ahead_end {h : UInt32} {f : Fragment} (hf : (f.iv h).hi ≤ 65535) :
    ahead h (f.seq + f.len.toUInt32) = (f.iv h).hi := by
  unfold Fragment.iv at *
  simp only at *
  rw [toUInt32_eq_u32, ahead_add_right (by omega)]

theorem Fragment.ahead_end_succ {h : UInt32} {f : Fragment} (hf : (f.iv h).hi ≤ 65535) :
    ahead h (f.seq + f.len.toUInt32 + 1) = (f.iv h).hi + 1 := by
  have hend := Fragment.ahead_end hf
  rw [ahead_succ (by omega), hend]

theorem Fragment.lo_le {h : UInt32} {f : Fragment} (hf : (f.iv h).hi ≤ 65535) :
    ahead h f.seq ≤ 65535 := by
  unfold Fragment.iv at hf
  simp only at hf
  omega

/-- `canmerge` says that the intervals touch. -/
theorem canmerge_iff {h : UInt32} {a b : Fragment} (ha : (a.iv h).hi ≤ 65535)
    (hb : (b.iv h).hi ≤ 65535) : canmerge a b = true ↔ (a.iv h).touches (b.iv h) := by
  have hae := Fragment.ahead_end_succ ha
  have hbe := Fragment.ahead_end_succ hb
  have hal := Fragment.lo_le ha
  have hbl := Fragment.lo_le hb
  have h₁ := minseq_eq_left (h := h) (a := a.seq + a.len.toUInt32 + 1) (b := b.seq)
    (by omega) (by omega)
  have h₂ := minseq_eq_left (h := h) (a := b.seq + b.len.toUInt32 + 1) (b := a.seq)
    (by omega) (by omega)
  have hlo : (a.iv h).lo = ahead h a.seq := rfl
  have hlo' : (b.iv h).lo = ahead h b.seq := rfl
  unfold canmerge Iv.touches
  simp only [h₁, h₂, hae, hbe, hlo, hlo']
  split <;> simp only [Bool.false_eq_true, true_iff, false_iff] <;> omega

/-- Merging fragments spans their intervals. -/
theorem iv_merge_fragments {h : UInt32} {a b : Fragment} (ha : (a.iv h).hi ≤ 65535)
    (hb : (b.iv h).hi ≤ 65535) :
    (merge_fragments a b).iv h = (a.iv h).merge (b.iv h) := by
  have hae := Fragment.ahead_end ha
  have hbe := Fragment.ahead_end hb
  have hal := Fragment.lo_le ha
  have hbl := Fragment.lo_le hb
  have hmin := ahead_minseq (h := h) (a := a.seq) (b := b.seq) (by omega) (by omega)
  have hmax := ahead_maxseq (h := h) (a := a.seq + a.len.toUInt32)
    (b := b.seq + b.len.toUInt32) (by omega) (by omega)
  have hlo : (a.iv h).lo = ahead h a.seq := rfl
  have hlo' : (b.iv h).lo = ahead h b.seq := rfl
  have hhi : (a.iv h).hi = ahead h a.seq + a.len.toNat := rfl
  have hhi' : (b.iv h).hi = ahead h b.seq + b.len.toNat := rfl
  have hlen : (maxseq (a.seq + a.len.toUInt32) (b.seq + b.len.toUInt32)
      - minseq a.seq b.seq).toUInt16.toNat
      = max (a.iv h).hi (b.iv h).hi - min (a.iv h).lo (b.iv h).lo := by
    have hsub := sint_sub_eq (h := h)
      (a := maxseq (a.seq + a.len.toUInt32) (b.seq + b.len.toUInt32))
      (b := minseq a.seq b.seq) (by omega) (by omega)
    have hcast : ∀ x : UInt32, x.toUInt16.toNat = x.toNat % 2 ^ 16 := fun x => by simp
    rw [hcast]
    rw [sint_eq] at hsub
    split at hsub <;> omega
  unfold merge_fragments Fragment.iv Iv.merge at *
  simp only [hmin] at *
  rw [hlen]
  simp only [Iv.mk.injEq, true_and]
  omega

/-! ## Section 3: The traversal -/

variable {h seq_end : UInt32} {new_frag : Fragment}

/-- Once merged, the traversal goes on absorbing what the fragment touches. -/
theorem merge_loop_merged {iter passed : List Fragment} (hn : (new_frag.iv h).hi ≤ 65535)
    (hb : ∀ f ∈ iter, (f.iv h).hi ≤ 65535)
    (hs : Separated (iter.map (Fragment.iv h)))
    (hlo : ∀ f ∈ iter, (new_frag.iv h).lo < (f.iv h).lo) :
    ∃ passed' iter',
      merge_loop seq_end new_frag true (new_frag :: passed) iter = (true, passed', iter') ∧
      (passed'.reverse ++ iter').map (Fragment.iv h)
        = passed.reverse.map (Fragment.iv h) ++
            insertIv (new_frag.iv h) (iter.map (Fragment.iv h)) := by
  -- on the fragments still ahead; the merged one grows on the way
  induction iter generalizing new_frag with
  | nil => exact ⟨new_frag :: passed, [], rfl, by simp [insertIv]⟩
  | cons i t ih =>
    have hi := hb i (by simp)
    have ht : ∀ f ∈ t, (f.iv h).hi ≤ 65535 := fun f hf => hb f (by simp [hf])
    have hni := hlo i (by simp)
    rw [List.map_cons] at hs ⊢
    obtain ⟨hine, hilt, hst⟩ := separated_cons.mp hs
    unfold merge_loop insertIv
    by_cases hm : canmerge new_frag i = true
    · have htouch := (canmerge_iff hn hi).mp hm
      have hiv := iv_merge_fragments hn hi
      rw [if_pos hm, if_pos htouch, ← hiv]
      refine ih ?_ ht hst ?_
      · rw [hiv]
        simp only [Iv.merge]
        omega
      · intro f hf
        have := hilt _ (List.mem_map_of_mem hf)
        rw [hiv]
        simp only [Iv.merge]
        omega
    -- the list is sorted, so what is not touched lies ahead, and the traversal ends
    · have htouch : ¬ (new_frag.iv h).touches (i.iv h) := fun ht => hm ((canmerge_iff hn hi).mpr ht)
      have hgap : (new_frag.iv h).hi < (i.iv h).lo := by
        unfold Iv.touches at htouch
        omega
      rw [if_neg hm, if_pos (.inl rfl), if_neg htouch, if_pos hgap]
      exact ⟨_, _, rfl, by simp⟩

/-- From the start, the traversal either merges somewhere, or stops between the
    fragments before and the fragments after the new one. -/
theorem merge_loop_fresh {iter : List Fragment} (passed : List Fragment)
    (hn : (new_frag.iv h).hi ≤ 65535)
    (hne : (new_frag.iv h).lo < (new_frag.iv h).hi)
    (hend : ahead h seq_end = (new_frag.iv h).hi)
    (hb : ∀ f ∈ iter, (f.iv h).hi ≤ 65535)
    (hs : Separated (iter.map (Fragment.iv h))) :
    (∃ passed' iter',
      merge_loop seq_end new_frag false passed iter = (true, passed', iter') ∧
      (passed'.reverse ++ iter').map (Fragment.iv h)
        = passed.reverse.map (Fragment.iv h) ++
            insertIv (new_frag.iv h) (iter.map (Fragment.iv h))) ∨
    (∃ before after, iter = before ++ after ∧
      merge_loop seq_end new_frag false passed iter
        = (false, before.reverse ++ passed, after) ∧
      (before ++ new_frag :: after).map (Fragment.iv h)
        = insertIv (new_frag.iv h) (iter.map (Fragment.iv h)) ∧
      (∀ f ∈ before, (f.iv h).hi < (new_frag.iv h).lo) ∧
      (∀ f ∈ after, (new_frag.iv h).hi < (f.iv h).lo)) := by
  -- on the fragments still ahead
  induction iter generalizing passed with
  | nil => exact .inr ⟨[], [], rfl, rfl, rfl, by simp, by simp⟩
  | cons i t ih =>
    have hi := hb i (by simp)
    have ht : ∀ f ∈ t, (f.iv h).hi ≤ 65535 := fun f hf => hb f (by simp [hf])
    have hil := Fragment.lo_le hi
    rw [List.map_cons] at hs
    obtain ⟨hine, hilt, hst⟩ := separated_cons.mp hs
    unfold merge_loop
    rw [List.map_cons]
    unfold insertIv
    by_cases hm : canmerge new_frag i = true
    · have htouch := (canmerge_iff hn hi).mp hm
      have hiv := iv_merge_fragments hn hi
      rw [if_pos hm, if_pos htouch, ← hiv]
      left
      refine merge_loop_merged ?_ ht hst ?_
      · rw [hiv]
        simp only [Iv.merge]
        omega
      · intro f hf
        have := hilt _ (List.mem_map_of_mem hf)
        rw [hiv]
        simp only [Iv.merge]
        omega
    -- the traversal stops where the new fragment ends before the next
    · have htouch : ¬ (new_frag.iv h).touches (i.iv h) := fun ht => hm ((canmerge_iff hn hi).mpr ht)
      have hlo : (i.iv h).lo = ahead h i.seq := rfl
      have hstop : maxseq seq_end i.seq = i.seq ↔ (new_frag.iv h).hi ≤ (i.iv h).lo := by
        rw [maxseq_eq_right (h := h) (by omega) (by omega), hend, hlo]
      rw [if_neg hm, if_neg htouch]
      by_cases hgap : (new_frag.iv h).hi < (i.iv h).lo
      · rw [if_pos (.inr (hstop.mpr (by omega))), if_pos hgap]
        right
        refine ⟨[], i :: t, rfl, rfl, rfl, by simp, ?_⟩
        intro f hf
        rcases List.mem_cons.mp hf with rfl | hf
        · exact hgap
        · have := hilt _ (List.mem_map_of_mem hf)
          omega
      · -- neither touching nor ahead: the new fragment lies behind `i`
        have hbehind : (i.iv h).hi < (new_frag.iv h).lo := by
          unfold Iv.touches at htouch
          omega
        have hgo : ¬ ((false : Bool) = true ∨ maxseq seq_end i.seq = i.seq) := by
          rw [hstop]
          simp only [Bool.false_eq_true, false_or]
          omega
        rw [if_neg hgo, if_neg hgap]
        rcases ih (i :: passed) ht hst with
          ⟨passed', iter', hloop, hmap⟩ | ⟨before, after, hsplit, hloop, hmap, hbf, haf⟩
        · left
          refine ⟨passed', iter', hloop, ?_⟩
          rw [hmap]
          simp
        · right
          refine ⟨i :: before, after, by rw [hsplit]; rfl, by rw [hloop]; simp, ?_, ?_, haf⟩
          · rw [List.cons_append, List.map_cons, hmap]
          · intro f hf
            rcases List.mem_cons.mp hf with rfl | hf
            · exact hbehind
            · exact hbf f hf

/-- Linking a fragment in never fails and is insertion into the intervals. -/
theorem link_fragment_eq {frags : List Fragment} (hn : (new_frag.iv h).hi ≤ 65535)
    (hne : (new_frag.iv h).lo < (new_frag.iv h).hi)
    (hend : ahead h seq_end = (new_frag.iv h).hi)
    (hb : ∀ f ∈ frags, (f.iv h).hi ≤ 65535)
    (hs : Separated (frags.map (Fragment.iv h))) :
    ∃ frags', link_fragment frags new_frag seq_end = some frags' ∧
      frags'.map (Fragment.iv h)
        = insertIv (new_frag.iv h) (frags.map (Fragment.iv h)) := by
  have hnl := Fragment.lo_le hn
  have hlo : (new_frag.iv h).lo = ahead h new_frag.seq := rfl
  unfold link_fragment
  rcases merge_loop_fresh [] hn hne hend hb hs with
    ⟨passed', iter', hloop, hmap⟩ | ⟨before, after, hsplit, hloop, hmap, hbf, haf⟩
  · rw [hloop]
    exact ⟨_, rfl, by simpa using hmap⟩
  -- nothing was merged: the new fragment goes to the front, or behind `prev`
  · rw [hloop, List.append_nil]
    subst hsplit
    cases before with
    | nil =>
      cases after with
      | nil => exact ⟨_, rfl, hmap⟩
      | cons first rest =>
        have hfirst := haf first (by simp)
        have hfl : (first.iv h).lo = ahead h first.seq := rfl
        have hfb := Fragment.lo_le (hb first (by simp))
        have hmin : minseq new_frag.seq first.seq = new_frag.seq := by
          rw [minseq_eq_left (h := h) (by omega) (by omega)]
          omega
        refine ⟨_, if_pos hmin, hmap⟩
    | cons first rest =>
      have hfirst := hbf first (by simp)
      have hfl : (first.iv h).lo ≤ (first.iv h).hi := by
        simp only [Fragment.iv]; omega
      have hfl' : (first.iv h).lo = ahead h first.seq := rfl
      have hfb := Fragment.lo_le (hb first (by simp))
      have hmin : ¬ minseq new_frag.seq first.seq = new_frag.seq := by
        rw [minseq_eq_left (h := h) (by omega) (by omega)]
        omega
      obtain ⟨prev, front, hrev⟩ : ∃ prev front, (first :: rest).reverse = prev :: front := by
        cases hr : (first :: rest).reverse with
        | nil => simp at hr
        | cons p q => exact ⟨p, q, rfl⟩
      have hmem : prev ∈ first :: rest := by
        rw [← List.mem_reverse, hrev]
        simp
      have hprev := hbf prev hmem
      have hpb := hb prev (List.mem_append_left _ hmem)
      have hpe := Fragment.ahead_end hpb
      -- the assertion of the source
      have hassert : minseq new_frag.seq (prev.seq + prev.len.toUInt32)
          = prev.seq + prev.len.toUInt32 := by
        rw [minseq_eq_right (h := h) (by omega) (by omega)]
        omega
      refine ⟨(first :: rest) ++ new_frag :: after, ?_, hmap⟩
      rw [hrev]
      simp only [List.cons_append]
      rw [if_neg hmin, if_pos hassert, ← hrev, List.reverse_reverse]
      rfl

/-- Taking off the first fragment is absorbing the front. -/
theorem pop_front_eq (buf : UsnRingbuf)
    (hs : Separated (buf.frags.map (Fragment.iv buf.head_seq))) :
    let l := absorb (buf.frags.map (Fragment.iv buf.head_seq))
    (pop_front buf).head_seq = buf.head_seq + u32 l.1 ∧
      (pop_front buf).frags.map (Fragment.iv (pop_front buf).head_seq) = l.2 := by
  unfold pop_front
  split
  · rename_i hnil
    rw [hnil]
    simp [absorb]
  · rename_i first next hcons
    rw [hcons, List.map_cons] at hs
    rw [hcons, List.map_cons]
    obtain ⟨-, hlt, -⟩ := separated_cons.mp hs
    rw [absorb_cons]
    have hlo : (first.iv buf.head_seq).lo = ahead buf.head_seq first.seq := rfl
    have hhi : (first.iv buf.head_seq).hi
        = ahead buf.head_seq first.seq + first.len.toNat := rfl
    by_cases h0 : buf.head_seq = first.seq
    · have hd : ahead buf.head_seq first.seq = 0 := ahead_eq_zero.mpr h0.symm
      rw [if_pos h0, if_pos (hlo.trans hd), hhi, hd, Nat.zero_add, toUInt32_eq_u32]
      refine ⟨rfl, ?_⟩
      rw [List.map_map]
      apply List.map_congr_left
      intro f hf
      have hlt' := hlt _ (List.mem_map_of_mem hf)
      have hfl : (f.iv buf.head_seq).lo = ahead buf.head_seq f.seq := rfl
      rw [hfl, hhi, hd] at hlt'
      simp only [Function.comp_apply, Fragment.iv, Iv.shift, Iv.mk.injEq]
      rw [ahead_add_left (by omega)]
      omega
    · have hd : ¬ ahead buf.head_seq first.seq = 0 := fun hd => h0 (ahead_eq_zero.mp hd).symm
      rw [if_neg h0, if_neg (by rw [hlo]; exact hd)]
      refine ⟨by simp, ?_⟩
      rw [hcons, List.map_cons]

end Usnet
