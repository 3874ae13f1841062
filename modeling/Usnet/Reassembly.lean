import Usnet.FragList
import Usnet.Lib.Run
import Mathlib.Order.Lattice.Nat

/-! # Reassembly

    The receive side keeps the set of bytes received so far in two pieces: the
    sequence number `head_seq` up to which everything has arrived, and the
    fragment list for what has arrived beyond it.  Here that state is compared
    with the set itself.
-/

namespace Usnet

open CInt Circular IvList Run

/-! ## Section 1: The fragment invariant -/

/-- The fragments measured from `head_seq`. -/
def UsnRingbuf.ivs (buf : UsnRingbuf) : List Iv := buf.frags.map (Fragment.iv buf.head_seq)

/-- The fragments are separated, start strictly after `head_seq` and end within
    65535 of it. -/
structure FragInv (buf : UsnRingbuf) : Prop where
  separated : Separated buf.ivs
  after : ∀ i ∈ buf.ivs, 0 < i.lo
  bound : ∀ i ∈ buf.ivs, i.hi ≤ 65535

/-- The invariant depends on the list and on `head_seq` only. -/
theorem FragInv.congr {buf buf' : UsnRingbuf} (h : FragInv buf)
    (hfrags : buf'.frags = buf.frags) (hseq : buf'.head_seq = buf.head_seq) :
    FragInv buf' := by
  have hivs : buf'.ivs = buf.ivs := by
    unfold UsnRingbuf.ivs
    rw [hfrags, hseq]
  exact ⟨hivs ▸ h.separated, hivs ▸ h.after, hivs ▸ h.bound⟩

/-- The free space never exceeds a ring of at most 65535 bytes. -/
theorem avail_len_le {buf : UsnRingbuf} (hsize : buf.size.toNat ≤ 65535) :
    buf.avail_len ≤ 65535 := by
  have hd := buf.data.toNat_lt
  have hh := buf.head.toNat_lt
  unfold UsnRingbuf.avail_len
  simp only [toUInt32_eq_u32, UInt16.lt_iff_toNat_lt, gt_iff_lt]
  rw [sint_eq]
  split <;> split <;>
    simp only [toNat_sub, toNat_add, toNat_u32] at * <;> omega

/-- The bytes of a segment in range, measured from `head_seq`. -/
theorem InRange.offset {buf : UsnRingbuf} {data : List UInt8} {seq : UInt32}
    (h : InRange buf data seq) (hsize : buf.size.toNat ≤ 65535) :
    sint (seq - buf.head_seq) = ahead buf.head_seq seq ∧
      ahead buf.head_seq seq + data.length ≤ 65535 := by
  have hnonneg := h.off_nonneg
  have havail := h.avail
  have hle := avail_len_le hsize
  have hs : sint (seq - buf.head_seq) = ahead buf.head_seq seq := by
    unfold ahead
    rw [sint_eq] at hnonneg ⊢
    have := (seq - buf.head_seq).toNat_lt
    split at hnonneg <;> omega
  exact ⟨hs, by omega⟩

/-- The interval of a segment in range. -/
theorem InRange.iv_eq {buf : UsnRingbuf} {data : List UInt8} {seq : UInt32}
    (h : InRange buf data seq) (hsize : buf.size.toNat ≤ 65535) :
    Fragment.iv buf.head_seq { seq := seq, len := u16 data.length }
      = ⟨ahead buf.head_seq seq, ahead buf.head_seq seq + data.length⟩ := by
  obtain ⟨-, hle⟩ := h.offset hsize
  unfold Fragment.iv
  simp only [Iv.mk.injEq, true_and]
  rw [toNat_u16_of_lt (by omega)]

/-- Linking the fragment of a segment in range does not fail. -/
theorem InRange.link {buf : UsnRingbuf} {data : List UInt8} {seq : UInt32}
    (h : InRange buf data seq) (hsize : buf.size.toNat ≤ 65535) (hpos : 0 < data.length)
    (hinv : FragInv buf) :
    ∃ frags,
      link_fragment buf.frags { seq := seq, len := u16 data.length }
        (seq + u32 data.length) = some frags ∧
      frags.map (Fragment.iv buf.head_seq)
        = insertIv ⟨ahead buf.head_seq seq, ahead buf.head_seq seq + data.length⟩
            buf.ivs := by
  have hiv := h.iv_eq hsize
  obtain ⟨-, hle⟩ := h.offset hsize
  rw [← hiv]
  refine link_fragment_eq ?_ ?_ ?_ ?_ hinv.separated
  · rw [hiv]; exact hle
  · rw [hiv]; simp only; omega
  · rw [hiv, ahead_add_right (by omega)]
  · intro f hf
    exact hinv.bound _ (List.mem_map_of_mem hf)

/-- What storing a segment does to the fragments: its interval is inserted and
    the front absorbed into `head_seq`. -/
structure FragStored (buf : UsnRingbuf) (data : List UInt8) (seq : UInt32)
    (buf' : UsnRingbuf) (l : List Iv) : Prop where
  inserted :
    l = insertIv ⟨ahead buf.head_seq seq, ahead buf.head_seq seq + data.length⟩ buf.ivs
  separated : Separated l
  bound : ∀ i ∈ l, i.hi ≤ 65535
  absorbed : buf'.head_seq = buf.head_seq + u32 (absorb l).1 ∧ buf'.ivs = (absorb l).2

theorem Stored.frags {buf buf' : UsnRingbuf} {data : List UInt8} {seq : UInt32}
    (h : Stored buf data seq buf') (hsize : buf.size.toNat ≤ 65535)
    (hpos : 0 < data.length) (hinv : FragInv buf) :
    ∃ l, FragStored buf data seq buf' l := by
  obtain ⟨hrange, copied, frags, hcopy, hlink, hbuf'⟩ := h
  obtain ⟨frags₁, hlink₁, hmap⟩ := hrange.link hsize hpos hinv
  obtain ⟨-, hle⟩ := hrange.offset hsize
  obtain rfl : frags₁ = frags := Option.some.inj (hlink₁.symm.trans hlink)
  have hframe := copy_payload_frame hcopy
  have hseq : copied.head_seq = buf.head_seq := by rw [hframe]
  have hsep : Separated (insertIv ⟨ahead buf.head_seq seq,
      ahead buf.head_seq seq + data.length⟩ buf.ivs) :=
    separated_insertIv (by simp only; omega) hinv.separated
  refine ⟨_, rfl, hsep, upper_insertIv hle hinv.bound, ?_⟩
  generalize insertIv _ buf.ivs = l at *
  rw [← hseq] at hmap
  have hpop := pop_front_eq { copied with frags := frags₁ } (by rw [hmap]; exact hsep)
  simp only [hmap] at hpop
  rw [hbuf', ← hseq]
  exact hpop

theorem FragStored.fragInv {buf buf' : UsnRingbuf} {data : List UInt8} {seq : UInt32}
    {l : List Iv} (h : FragStored buf data seq buf' l) : FragInv buf' := by
  refine ⟨?_, ?_, ?_⟩
  · rw [h.absorbed.2]; exact separated_absorb h.separated
  · rw [h.absorbed.2]; exact absorb_pos h.separated
  · rw [h.absorbed.2]; exact upper_absorb h.bound

/-- Every insertion that returns keeps the fragment invariant, wherever the
    ring indices stand. -/
theorem FragInv.insert {chunk : Bool} {buf buf' : UsnRingbuf} {data : List UInt8}
    {seq : UInt32} {r : Int} (hinv : FragInv buf) (hsize : buf.size.toNat ≤ 65535)
    (hpos : 0 < data.length)
    (h : usnet_insert_fragment chunk buf data seq = some (r, buf')) : FragInv buf' := by
  rcases usnet_insert_fragment_cases h with
    ⟨-, -, rfl, -⟩ | ⟨-, -, -, hcopy⟩ | ⟨-, -, hstored⟩
  · exact hinv
  · have hframe := copy_payload_frame hcopy
    exact hinv.congr (by rw [hframe]) (by rw [hframe])
  · obtain ⟨l, hl⟩ := hstored.frags hsize hpos hinv
    exact hl.fragInv

/-! ## Section 2: Runs of insertions -/

/-- The ring with the initial sequence number and the set of stream offsets
    covered by accepted segments. -/
structure Reassembly where
  buf : UsnRingbuf
  irs : UInt32
  got : Set Nat

/-- The least offset no accepted segment covers. -/
noncomputable def Reassembly.frontier (s : Reassembly) : Nat := sInf {n | n ∉ s.got}

/-- The offsets a segment covers, counted from the frontier. -/
def Reassembly.span (s : Reassembly) (data : List UInt8) (seq : UInt32) : Set Nat :=
  {n | s.frontier + sint (seq - s.buf.head_seq) ≤ (n : Int) ∧
    (n : Int) < s.frontier + sint (seq - s.buf.head_seq) + data.length}

/-- A call of `usnet_insert_fragment`. -/
structure InsertCall where
  chunk : Bool
  data : List UInt8
  seq : UInt32

/-- Calls with data and within the signed distance `2^30` of `head_seq`. -/
structure InsertCall.Near (c : InsertCall) (buf : UsnRingbuf) : Prop where
  nonempty : 0 < c.data.length
  is_int : c.data.length ≤ INT_MAX
  lower : -2 ^ 30 ≤ sint (c.seq - buf.head_seq)
  upper : sint (c.seq - buf.head_seq) ≤ 2 ^ 30

/-- One call; the segment counts as accepted when the result is not negative. -/
inductive Reassembly.Step : Reassembly → InsertCall → Reassembly → Prop
  | insert {s : Reassembly} {c : InsertCall} {r : Int} {buf' : UsnRingbuf} :
      c.Near s.buf → usnet_insert_fragment c.chunk s.buf c.data c.seq = some (r, buf') →
      Step s c ⟨buf', s.irs, if r < 0 then s.got else s.got ∪ s.span c.data c.seq⟩

/-- A ring just obtained, of at most 65535 bytes. -/
def Reassembly.Fresh (s : Reassembly) : Prop :=
  ∃ slot size fd, size.toNat ≤ 65535 ∧
    usnet_get_ringbuf (some slot) size fd s.irs = some s.buf ∧ s.got = ∅

/-- What it means that the ring tracks the accepted set. -/
structure Reassembly.Tracks (s : Reassembly) : Prop where
  least : IsLeast {n | n ∉ s.got} s.frontier
  head_seq : s.buf.head_seq = s.irs + u32 s.frontier
  increasing : s.buf.frags.Pairwise fun f g =>
    ahead s.buf.head_seq f.seq + f.len.toNat < ahead s.buf.head_seq g.seq
  after : ∀ f ∈ s.buf.frags, 0 < ahead s.buf.head_seq f.seq ∧
    ahead s.buf.head_seq f.seq + f.len.toNat ≤ 65535
  covers : ∀ x, s.frontier + x ∈ s.got ↔
    ∃ f ∈ s.buf.frags, ahead s.buf.head_seq f.seq ≤ x ∧
      x < ahead s.buf.head_seq f.seq + f.len.toNat
  no_abort : ∀ c : InsertCall, c.Near s.buf →
    usnet_insert_fragment c.chunk s.buf c.data c.seq ≠ none

/-! ## Section 3: The invariant of insertion runs -/

/-- Without reads `data` stays at zero and `head` inside the block. -/
structure Reassembly.Inv (s : Reassembly) : Prop where
  frag : FragInv s.buf
  size : s.buf.size.toNat ≤ 65535
  data : s.buf.data = 0
  head : s.buf.head.toNat ≤ s.buf.size.toNat
  tracked : ∃ base, IsLeast {n | n ∉ s.got} base ∧ s.buf.head_seq = s.irs + u32 base ∧
    ∀ x, base + x ∈ s.got ↔ x ∈ cover s.buf.ivs

theorem Reassembly.Inv.fresh {s : Reassembly} (h : s.Fresh) : s.Inv := by
  obtain ⟨slot, size, fd, hsize, hbuf, hgot⟩ := h
  obtain ⟨buf, irs, got⟩ := s
  simp only at hbuf hgot
  obtain rfl := Option.some.inj hbuf
  subst hgot
  refine ⟨⟨separated_nil, ?_, ?_⟩, hsize, rfl, Nat.zero_le _, 0, ?_, ?_, ?_⟩
  · intro i hi
    cases hi
  · intro i hi
    cases hi
  · exact ⟨by simp, fun _ _ => Nat.zero_le _⟩
  · simp
  · intro x
    simp [UsnRingbuf.ivs]

/-- With `data` at zero the free space is what lies behind `head`. -/
theorem Reassembly.Inv.avail_len {s : Reassembly} (h : s.Inv) :
    s.buf.avail_len = s.buf.size.toNat - s.buf.head.toNat := by
  have hs := h.size
  have hh := h.head
  have hgt : ¬ (0 : UInt16) > s.buf.head := by
    simp [UInt16.lt_iff_toNat_lt]
  unfold UsnRingbuf.avail_len
  rw [h.data, if_neg hgt]
  have hzero : (0 : UInt16).toUInt32 + s.buf.size = s.buf.size := by simp
  rw [hzero, toUInt32_eq_u32]
  have hnat : (u32 s.buf.head.toNat).toNat = s.buf.head.toNat := toNat_u32_of_lt (by omega)
  have hsub : (s.buf.size - u32 s.buf.head.toNat).toNat
      = s.buf.size.toNat - s.buf.head.toNat := by
    rw [sub_toNat_of_le (by omega), hnat]
  rw [sint_of_lt (by omega), hsub]
  omega

/-- The copy is in one piece and `head` stays inside the block. -/
theorem Reassembly.Inv.copy {s : Reassembly} {data : List UInt8} {seq : UInt32}
    (last_seq : UInt32) (h : s.Inv) (hr : InRange s.buf data seq) :
    ∃ copied,
      copy_payload { s.buf with last_seq := last_seq } data (sint (seq - s.buf.head_seq))
        = some copied ∧
      copied.data = 0 ∧ copied.size = s.buf.size ∧
      copied.head.toNat ≤ copied.size.toNat := by
  have hs := h.size
  have hh := h.head
  have havail := hr.avail
  have hoff := hr.off_nonneg
  rw [h.avail_len] at havail
  generalize hd : sint (seq - s.buf.head_seq) = off at *
  obtain ⟨d, rfl⟩ := Int.eq_ofNat_of_zero_le hoff
  -- behind `head` there is room for all of it, so nothing wraps around
  have hstart : UsnRingbuf.start_off { s.buf with last_seq := last_seq } d
      = ((s.buf.head.toNat + d : Nat) : Int) := by
    have hnat : (u32 ((s.buf.head.toNat + d : Nat) : Int)).toNat = s.buf.head.toNat + d :=
      toNat_u32_of_lt (by omega)
    unfold UsnRingbuf.start_off
    simp only [← Nat.cast_add, gt_iff_lt, UInt32.lt_iff_toNat_lt, hnat]
    rw [if_neg (by omega)]
  have htail : sint (s.buf.size - u32 ((s.buf.head.toNat + d : Nat) : Int))
      = s.buf.size.toNat - (s.buf.head.toNat + d) := by
    have hnat : (u32 ((s.buf.head.toNat + d : Nat) : Int)).toNat = s.buf.head.toNat + d :=
      toNat_u32_of_lt (by omega)
    have hsub := sub_toNat_of_le (a := s.buf.size)
      (b := u32 ((s.buf.head.toNat + d : Nat) : Int)) (by omega)
    rw [sint_of_lt (by omega), hsub, hnat]
    omega
  unfold copy_payload
  simp only [hstart, htail]
  rw [if_pos (by omega)]
  refine ⟨_, rfl, h.data, rfl, ?_⟩
  show (s.buf.head + u16 data.length).toNat ≤ s.buf.size.toNat
  rw [UInt16.toNat_add, toNat_u16_of_lt (by omega)]
  omega

/-- A segment behind `head_seq` fails the first check. -/
theorem minseq_ne_of_neg {h seq : UInt32} (hneg : sint (seq - h) < 0)
    (hlow : -2 ^ 30 ≤ sint (seq - h)) : minseq h seq ≠ h := by
  have hmax : (MAXSEQ / 2).toNat = 2147483647 := by decide
  have := seq.toNat_lt
  have := h.toNat_lt
  intro heq
  unfold minseq at heq
  rw [sint_eq] at hneg hlow
  simp only [UInt32.lt_iff_toNat_lt, UInt32.le_iff_toNat_le, hmax, ← UInt32.toNat_inj,
    toNat_sub] at *
  split_ifs at * <;> omega

/-- No call within the distance aborts. -/
theorem Reassembly.Inv.no_abort {s : Reassembly} (h : s.Inv) {c : InsertCall}
    (hc : c.Near s.buf) : ∃ r buf',
      usnet_insert_fragment c.chunk s.buf c.data c.seq = some (r, buf') := by
  have hs := h.size
  obtain ⟨hpos, hint, hlow, hup⟩ := hc
  unfold INT_MAX at hint
  unfold usnet_insert_fragment
  simp only
  -- the refusals in the order of the source; behind them copy and links succeed
  by_cases h₁ : minseq s.buf.head_seq c.seq = s.buf.head_seq
  · have hoff : 0 ≤ sint (c.seq - s.buf.head_seq) := by
      by_contra hneg
      exact minseq_ne_of_neg (by omega) hlow h₁
    rw [if_neg (not_not.mpr h₁)]
    by_cases h₂ : u32 c.data.length > s.buf.size
    · exact ⟨_, _, if_pos h₂⟩
    · have hlen : c.data.length ≤ s.buf.size.toNat := by
        have := UInt32.le_iff_toNat_le.mp (UInt32.not_lt.mp h₂)
        rwa [toNat_u32_of_lt (by omega)] at this
      have h₃ : ¬ (sint (c.seq - s.buf.head_seq) < 0 ∨
          sint (c.seq - s.buf.head_seq) + c.data.length ≥ 2 ^ 31) := by omega
      rw [if_neg h₂, if_neg h₃]
      by_cases h₄ : sint (c.seq - s.buf.head_seq) + c.data.length > s.buf.avail_len
      · exact ⟨_, _, if_pos h₄⟩
      · have hr : InRange s.buf c.data c.seq := ⟨h₁, h₂, hoff, by omega, by omega⟩
        obtain ⟨copied, hcopy, -⟩ := Reassembly.Inv.copy
          (if c.seq + u32 c.data.length > s.buf.last_seq then c.seq + u32 c.data.length
            else s.buf.last_seq) h hr
        have hframe := copy_payload_frame hcopy
        have hfrags : copied.frags = s.buf.frags := by rw [hframe]
        obtain ⟨frags, hlink, -⟩ := hr.link hs hpos h.frag
        rw [if_neg h₄, hcopy]
        simp only [hfrags, hlink]
        split
        · exact ⟨_, _, rfl⟩
        · exact ⟨_, _, rfl⟩
  · exact ⟨_, _, if_pos h₁⟩

/-- The frontier is the least offset not received. -/
theorem Reassembly.frontier_eq {s : Reassembly} {base : Nat}
    (h : IsLeast {n | n ∉ s.got} base) : s.frontier = base := h.csInf_eq

/-- A stored segment adds its interval to the set beyond the frontier. -/
theorem Reassembly.Inv.got_stored {s : Reassembly} {data : List UInt8} {seq : UInt32}
    {buf' : UsnRingbuf} {l : List Iv} {base : Nat} (h : s.Inv)
    (hleast : IsLeast {n | n ∉ s.got} base)
    (hgot : ∀ x, base + x ∈ s.got ↔ x ∈ cover s.buf.ivs)
    (hr : InRange s.buf data seq) (hpos : 0 < data.length)
    (hl : FragStored s.buf data seq buf' l) (x : Nat) :
    base + x ∈ s.got ∪ s.span data seq ↔ x ∈ cover l := by
  obtain ⟨hoff, -⟩ := hr.offset h.size
  rw [hl.inserted, cover_insertIv (by simp only; omega) h.frag.separated]
  simp only [Set.mem_union, hgot x, Reassembly.span, Set.mem_ofPred_eq,
    Reassembly.frontier_eq hleast, hoff, Iv.mem_toSet]
  constructor
  · rintro (hx | hx)
    · exact .inr hx
    · exact .inl (by omega)
  · rintro (hx | hx)
    · exact .inr (by omega)
    · exact .inl hx

/-- After a stored segment the frontier is the end of what was absorbed. -/
theorem Reassembly.Inv.tracked_stored {s : Reassembly} {data : List UInt8} {seq : UInt32}
    {buf' : UsnRingbuf} {l : List Iv} (h : s.Inv) (hr : InRange s.buf data seq)
    (hpos : 0 < data.length) (hl : FragStored s.buf data seq buf' l) :
    ∃ base, IsLeast {n | n ∉ s.got ∪ s.span data seq} base ∧
      buf'.head_seq = s.irs + u32 base ∧
      ∀ x, base + x ∈ s.got ∪ s.span data seq ↔ x ∈ cover buf'.ivs := by
  obtain ⟨base, hleast, hseq, hgot⟩ := h.tracked
  have hmem := h.got_stored hleast hgot hr hpos hl
  obtain ⟨hhead, hivs⟩ := hl.absorbed
  have hrest : ∀ x, base + (absorb l).1 + x ∈ s.got ∪ s.span data seq ↔
      x ∈ cover buf'.ivs := by
    intro x
    rw [Nat.add_assoc, hmem, mem_cover_absorb hl.separated, hivs]
  refine ⟨base + (absorb l).1, ⟨?_, ?_⟩, ?_, hrest⟩
  · show base + (absorb l).1 + 0 ∉ s.got ∪ s.span data seq
    rw [hrest 0]
    rintro ⟨i, hi, hlo, -⟩
    have := hl.fragInv.after i hi
    omega
  · -- every smaller offset was received before or has just been absorbed
    intro n hn
    by_contra hlt
    apply hn
    rcases Nat.lt_or_ge n base with hb | hb
    · left
      by_contra hnot
      have := hleast.2 hnot
      omega
    · obtain ⟨y, rfl⟩ := Nat.exists_eq_add_of_le hb
      rw [hmem]
      exact mem_cover_of_lt_absorb (by omega)
  · rw [hhead, hseq, u32_natCast_add, UInt32.add_assoc]

/-- One call keeps the invariant. -/
theorem Reassembly.Inv.step {s s' : Reassembly} {c : InsertCall} (h : s.Inv)
    (hstep : Step s c s') : s'.Inv := by
  cases hstep with
  | @insert r buf' hnear hcall =>
    have hfrag := h.frag.insert h.size hnear.nonempty hcall
    -- refused, copied without a fragment, or stored
    rcases usnet_insert_fragment_cases hcall with
      ⟨-, hr, rfl, -⟩ | ⟨rfl, -, hrange, hcopy⟩ | ⟨rfl, -, hstored⟩
    · rw [if_pos hr]
      exact h
    · -- copied, but no fragment left to record it: nothing is accepted
      obtain ⟨base, hleast, hseq, hgot⟩ := h.tracked
      obtain ⟨copied, hcopied, hdata, hsize, hhead⟩ := Reassembly.Inv.copy _ h hrange
      obtain rfl := Option.some.inj (hcopied.symm.trans hcopy)
      have hframe := copy_payload_frame hcopy
      rw [if_pos (by omega)]
      refine ⟨hfrag, by rw [hsize]; exact h.size, hdata, hhead, base, hleast, ?_, ?_⟩
      · rw [hframe]; exact hseq
      · intro x
        rw [hgot x, hframe]
        rfl
    · rw [if_neg (by omega)]
      have hrange := hstored.in_range
      obtain ⟨l, hl⟩ := hstored.frags h.size hnear.nonempty h.frag
      have htracked := h.tracked_stored hrange hnear.nonempty hl
      obtain ⟨-, copied, frags, hcopy, -, hbuf'⟩ := hstored
      obtain ⟨copied', hcopied, hdata, hsize, hhead⟩ := Reassembly.Inv.copy _ h hrange
      obtain rfl := Option.some.inj (hcopied.symm.trans hcopy)
      refine ⟨hfrag, ?_, ?_, ?_, htracked⟩
      · rw [hbuf']
        simpa [UsnRingbuf.set_win, hsize] using h.size
      · rw [hbuf']
        simpa [UsnRingbuf.set_win] using hdata
      · rw [hbuf']
        simpa [UsnRingbuf.set_win] using hhead

/-- The invariant says that the ring tracks the accepted set. -/
theorem Reassembly.Inv.tracks {s : Reassembly} (h : s.Inv) : s.Tracks := by
  obtain ⟨base, hleast, hseq, hgot⟩ := h.tracked
  have hfront := Reassembly.frontier_eq hleast
  refine ⟨hfront ▸ hleast, hfront ▸ hseq, ?_, ?_, ?_, ?_⟩
  · have := h.frag.separated.sorted
    unfold UsnRingbuf.ivs at this
    rwa [List.pairwise_map] at this
  · intro f hf
    have hmem : f.iv s.buf.head_seq ∈ s.buf.ivs := List.mem_map_of_mem hf
    exact ⟨h.frag.after _ hmem, h.frag.bound _ hmem⟩
  · intro x
    rw [hfront, hgot x]
    simp [UsnRingbuf.ivs, Fragment.iv]
  · intro c hc habort
    obtain ⟨r, buf', hsome⟩ := h.no_abort hc
    rw [hsome] at habort
    cases habort

/-- In every run of insertions the ring tracks exactly the accepted set. -/
theorem reassembly_tracks {s : Reassembly} (h : Reachable Reassembly.Step Reassembly.Fresh s) :
    s.Tracks := by
  have hinv : s.Inv :=
    h.invariant (fun _ hf => Reassembly.Inv.fresh hf) fun _ _ _ hi _ hs =>
      Reassembly.Inv.step hi hs
  exact hinv.tracks

/-- Three segments around the wrap of the sequence numbers: two apart, then one
    that joins them. -/
theorem reassembly_tracks_sample :
    ∃ s : Reassembly, s.buf.frags = [⟨0, 5⟩] ∧ s.buf.head_seq = 0xFFFFFFFE ∧ s.Tracks := by
  have h₀ : Reachable Reassembly.Step Reassembly.Fresh
      ⟨⟨7, 0, 0, 16, 0xFFFFFFFE, 0xFFFFFFFE, 0, 0, [], fun _ => 0⟩, 0xFFFFFFFE, ∅⟩ :=
    .init ⟨fun _ => 0, 16, 7, by decide, rfl, rfl⟩
  have h₁ := RunWhere.step h₀ trivial
    (.insert (c := ⟨true, [1, 2], 0⟩) ⟨by decide, by decide, by decide, by decide⟩ rfl)
  have h₂ := RunWhere.step h₁ trivial
    (.insert (c := ⟨true, [5], 4⟩) ⟨by decide, by decide, by decide, by decide⟩ rfl)
  have h₃ := RunWhere.step h₂ trivial
    (.insert (c := ⟨true, [3, 4], 2⟩) ⟨by decide, by decide, by decide, by decide⟩ rfl)
  exact ⟨_, rfl, rfl, reassembly_tracks h₃⟩

end Usnet
