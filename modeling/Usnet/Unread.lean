import Usnet.Window

/-! # What is unread in the receive ring

    `usnet_read` derives the number of unread bytes from the positions `data`
    and `head` alone.  Either may rest at the end of the block or at its start,
    and equal positions mean an empty ring.
-/

namespace Usnet

open CInt Circular Run

/-! ## Section 1: Positions -/

/-- The `data_len` of `usnet_read` before `count` limits it, and zero where the
    two positions are the same. -/
def UsnRingbuf.unread (buf : UsnRingbuf) : Nat :=
  if buf.data ≤ buf.head then buf.head.toNat - buf.data.toNat
  else buf.size.toNat + buf.head.toNat - buf.data.toNat

/-- The number of bytes a read with room for `count` is to return. -/
def UsnRingbuf.wanted (buf : UsnRingbuf) (count : Nat) : Nat := min count buf.unread

/-- The `n` oldest bytes of the ring, in ring order. -/
def UsnRingbuf.oldest (buf : UsnRingbuf) (n : Nat) : List UInt8 :=
  window buf.data_ptr buf.size.toNat buf.data.toNat n

/-- A ring with `n` unread bytes and at least one byte free: both positions in
    the block and `head` that far behind `data`. -/
structure Holds (buf : UsnRingbuf) (n : Nat) : Prop where
  data : buf.data.toNat ≤ buf.size.toNat
  head : buf.head.toNat = advance buf.size.toNat buf.data.toNat n
  free : n < buf.size.toNat

theorem Holds.unread_eq {buf : UsnRingbuf} {n : Nat} (h : Holds buf n) : buf.unread = n := by
  obtain ⟨hd, hh, hn⟩ := h
  unfold UsnRingbuf.unread
  simp only [UInt16.le_iff_toNat_le, hh]
  unfold advance
  split_ifs <;> omega

/-- Equal positions mean that nothing is unread. -/
theorem Holds.empty_iff {buf : UsnRingbuf} {n : Nat} (h : Holds buf n) :
    buf.head = buf.data ↔ n = 0 := by
  obtain ⟨hd, hh, hn⟩ := h
  constructor
  · intro heq
    apply advance_eq_self hn
    rw [← hh, heq]
  · intro hzero
    apply UInt16.toNat_inj.mp
    rw [hh, hzero, advance_zero hd]

/-! ## Section 2: The three layouts of a read -/

/-- Nothing wraps: the bytes lie between the positions. -/
theorem read_ringbuf_straight {buf : UsnRingbuf} {count : Nat} (h : buf.data < buf.head) :
    read_ringbuf buf count =
      ((buf.wanted count : Int), slice buf.data_ptr buf.data.toNat (buf.wanted count),
        { buf with data := buf.data + u16 (buf.wanted count) }) := by
  rw [UInt16.lt_iff_toNat_lt] at h
  have hne : buf.head ≠ buf.data := by
    intro heq
    rw [heq] at h
    omega
  have hun : buf.unread = buf.head.toNat - buf.data.toNat := by
    unfold UsnRingbuf.unread
    rw [if_pos (UInt16.le_iff_toNat_le.mpr (by omega))]
  have hgt : buf.head > buf.data := UInt16.lt_iff_toNat_lt.mpr h
  have hlen : (if (buf.head.toNat : Int) - buf.data.toNat < 0 ∨
      (buf.head.toNat : Int) - buf.data.toNat > count then (count : Int)
      else (buf.head.toNat : Int) - buf.data.toNat) = (buf.wanted count : Int) := by
    unfold UsnRingbuf.wanted
    rw [hun]
    split_ifs <;> omega
  unfold read_ringbuf
  simp only [if_neg hne, if_pos hgt, hlen, Int.toNat_natCast]

/-- The lengths `usnet_read` works with when the bytes wrap around the end. -/
theorem wrapped_lengths {buf : UsnRingbuf} (h : buf.head < buf.data)
    (hd : buf.data.toNat ≤ buf.size.toNat) (hsize : buf.size.toNat < 2 ^ 31) :
    sint (buf.size - buf.data.toUInt32) = (buf.size.toNat - buf.data.toNat : Nat) ∧
    sint (buf.size + buf.head.toUInt32 - buf.data.toUInt32) = (buf.unread : Nat) ∧
    buf.unread = buf.size.toNat - buf.data.toNat + buf.head.toNat := by
  rw [UInt16.lt_iff_toNat_lt] at h
  have hun : buf.unread = buf.size.toNat - buf.data.toNat + buf.head.toNat := by
    unfold UsnRingbuf.unread
    rw [if_neg (by rw [UInt16.le_iff_toNat_le]; omega)]
    omega
  refine ⟨?_, ?_, hun⟩
  · simp only [toUInt32_eq_u32]
    rw [sint_eq]
    simp only [toNat_sub, toNat_u32]
    split <;> omega
  · rw [hun]
    simp only [toUInt32_eq_u32]
    rw [sint_eq]
    simp only [toNat_sub, toNat_add, toNat_u32]
    split <;> omega

/-- What is wanted lies in front of the end of the block: the copy runs up to
    that end, whatever is wanted. -/
theorem read_ringbuf_front {buf : UsnRingbuf} {count : Nat} (h : buf.head < buf.data)
    (hd : buf.data.toNat ≤ buf.size.toNat) (hsize : buf.size.toNat < 2 ^ 31)
    (hn : buf.wanted count ≤ buf.size.toNat - buf.data.toNat) :
    read_ringbuf buf count =
      ((buf.wanted count : Int),
        slice buf.data_ptr buf.data.toNat (buf.size.toNat - buf.data.toNat),
        { buf with data := buf.data + u16 (buf.wanted count) }) := by
  obtain ⟨htail, hdata, -⟩ := wrapped_lengths h hd hsize
  rw [UInt16.lt_iff_toNat_lt] at h
  have hne : buf.head ≠ buf.data := by
    intro heq
    rw [heq] at h
    omega
  have hngt : ¬ buf.head > buf.data := by
    rw [gt_iff_lt, UInt16.lt_iff_toNat_lt]
    omega
  have hlen : (if (buf.unread : Int) < 0 ∨ (buf.unread : Int) > count then (count : Int)
      else (buf.unread : Int)) = (buf.wanted count : Int) := by
    unfold UsnRingbuf.wanted
    split_ifs <;> omega
  unfold read_ringbuf
  simp only [if_neg hne, if_neg hngt, htail, hdata, hlen]
  rw [if_pos (by omega)]
  simp only [Int.toNat_natCast]

/-- What is wanted runs past the end of the block: two copies. -/
theorem read_ringbuf_split {buf : UsnRingbuf} {count : Nat} (h : buf.head < buf.data)
    (hd : buf.data.toNat ≤ buf.size.toNat) (hsize : buf.size.toNat < 2 ^ 31)
    (hn : buf.size.toNat - buf.data.toNat < buf.wanted count) :
    read_ringbuf buf count =
      ((buf.wanted count : Int),
        slice buf.data_ptr buf.data.toNat (buf.size.toNat - buf.data.toNat) ++
          slice buf.data_ptr 0
            (buf.wanted count - (buf.size.toNat - buf.data.toNat)),
        { buf with
          data := u16 ((buf.wanted count - (buf.size.toNat - buf.data.toNat) : Nat) : Int) }) := by
  obtain ⟨htail, hdata, -⟩ := wrapped_lengths h hd hsize
  rw [UInt16.lt_iff_toNat_lt] at h
  have hne : buf.head ≠ buf.data := by
    intro heq
    rw [heq] at h
    omega
  have hngt : ¬ buf.head > buf.data := by
    rw [gt_iff_lt, UInt16.lt_iff_toNat_lt]
    omega
  have hlen : (if (buf.unread : Int) < 0 ∨ (buf.unread : Int) > count then (count : Int)
      else (buf.unread : Int)) = (buf.wanted count : Int) := by
    unfold UsnRingbuf.wanted
    split_ifs <;> omega
  have hrest : (buf.wanted count : Int) - (buf.size.toNat - buf.data.toNat : Nat)
      = (buf.wanted count - (buf.size.toNat - buf.data.toNat) : Nat) := by
    omega
  unfold read_ringbuf
  simp only [if_neg hne, if_neg hngt, htail, hdata, hlen]
  rw [if_neg (by omega), hrest]
  simp only [Int.toNat_natCast]

/-! ## Section 3: The caller's buffer -/

/-- A read does what it is for: it stores the oldest bytes that fit, returns
    their number and leaves the others unread. -/
structure ReadExact (buf : UsnRingbuf) (count : Nat) : Prop where
  written : (usnet_read (some buf) buf.fd count).2.1 = buf.oldest (buf.wanted count)
  returned : (usnet_read (some buf) buf.fd count).1 = buf.wanted count
  left : (usnet_read (some buf) buf.fd count).2.2.map UsnRingbuf.unread
    = some (buf.unread - buf.wanted count)

/-- Where the bytes wrap, the caller has room for all of them up to the end of
    the block, and `data` can rest at that end or goes past it. -/
structure WrappedFits (buf : UsnRingbuf) (count : Nat) : Prop where
  room : buf.size.toNat - buf.data.toNat ≤ count
  rests : buf.size.toNat ≤ 65535 ∨ 65536 ∣ buf.size.toNat ∨
    buf.size.toNat - buf.data.toNat < buf.wanted count

theorem usnet_read_own (buf : UsnRingbuf) (count : Nat) :
    usnet_read (some buf) buf.fd count =
      ((read_ringbuf buf count).1, (read_ringbuf buf count).2.1,
        some (read_ringbuf buf count).2.2) := by
  unfold usnet_read
  simp

theorem ReadExact.straight {buf : UsnRingbuf} {count : Nat} (h : buf.data < buf.head)
    (hh : buf.head.toNat ≤ buf.size.toNat) : ReadExact buf count := by
  have hrun := @read_ringbuf_straight buf count h
  rw [UInt16.lt_iff_toNat_lt] at h
  have hun : buf.unread = buf.head.toNat - buf.data.toNat := by
    unfold UsnRingbuf.unread
    rw [if_pos (UInt16.le_iff_toNat_le.mpr (by omega))]
  have hle : buf.wanted count ≤ buf.unread := by
    unfold UsnRingbuf.wanted
    omega
  have hhlt := buf.head.toNat_lt
  refine ⟨?_, ?_, ?_⟩
  · rw [usnet_read_own, hrun]
    exact (window_eq_of_le (by omega)).symm
  · rw [usnet_read_own, hrun]
  · rw [usnet_read_own, hrun]
    simp only [Option.map_some, Option.some.injEq]
    have hdata : (buf.data + u16 (buf.wanted count)).toNat = buf.data.toNat + buf.wanted count := by
      rw [UInt16.toNat_add, toNat_u16]
      omega
    unfold UsnRingbuf.unread
    simp only [UInt16.le_iff_toNat_le, hdata]
    rw [if_pos (by omega), if_pos (by omega)]
    omega

/-- The bytes up to the end of the block are among the oldest. -/
theorem oldest_front {buf : UsnRingbuf} (hd : buf.data.toNat ≤ buf.size.toNat) :
    buf.oldest (buf.size.toNat - buf.data.toNat) =
      slice buf.data_ptr buf.data.toNat (buf.size.toNat - buf.data.toNat) :=
  window_eq_of_le (by omega)

/-- Behind them come those at the start of the block. -/
theorem oldest_split {buf : UsnRingbuf} {n : Nat} (hd : buf.data.toNat ≤ buf.size.toNat)
    (hn : n ≤ buf.size.toNat) :
    buf.oldest (buf.size.toNat - buf.data.toNat + n) =
      slice buf.data_ptr buf.data.toNat (buf.size.toNat - buf.data.toNat) ++
        slice buf.data_ptr 0 n := by
  rw [← oldest_front hd]
  unfold UsnRingbuf.oldest
  rw [window_append]
  congr 1
  rw [show buf.data.toNat + (buf.size.toNat - buf.data.toNat) = buf.size.toNat by omega,
    window_end]
  exact window_eq_of_le (by omega)

/-- What is left of a wrapped ring once `data` has moved to the block's end. -/
theorem unread_at_end {buf : UsnRingbuf} (h : buf.head < buf.data)
    (hd : buf.data.toNat ≤ buf.size.toNat) :
    ({ buf with data := buf.data + u16 (buf.size.toNat - buf.data.toNat : Nat) } :
        UsnRingbuf).unread = buf.head.toNat ↔
      buf.size.toNat ≤ 65535 ∨ 65536 ∣ buf.size.toNat := by
  rw [UInt16.lt_iff_toNat_lt] at h
  have hhlt := buf.head.toNat_lt
  have hdata : (buf.data + u16 (buf.size.toNat - buf.data.toNat : Nat)).toNat
      = buf.size.toNat % 65536 := by
    rw [UInt16.toNat_add, toNat_u16]
    omega
  unfold UsnRingbuf.unread
  simp only [UInt16.le_iff_toNat_le, hdata]
  split_ifs <;> omega

theorem wrapped_exact_iff {buf : UsnRingbuf} {count : Nat} (h : buf.head < buf.data)
    (hd : buf.data.toNat ≤ buf.size.toNat) (hsize : buf.size.toNat < 2 ^ 31) :
    ReadExact buf count ↔ WrappedFits buf count := by
  obtain ⟨-, -, hun⟩ := wrapped_lengths h hd hsize
  have hlt := UInt16.lt_iff_toNat_lt.mp h
  have hwanted : buf.wanted count = min count buf.unread := rfl
  rcases Nat.lt_trichotomy (buf.wanted count) (buf.size.toNat - buf.data.toNat) with
    hshort | hall | hlong
  -- the copy runs up to the end of the block although less was wanted
  · have hrun := @read_ringbuf_front buf count h hd hsize (by omega)
    constructor
    · intro hexact
      have hlen := congrArg List.length hexact.written
      rw [usnet_read_own, hrun] at hlen
      simp only [slice_length, UsnRingbuf.oldest, window_length] at hlen
      omega
    · intro hfits
      have hroom := hfits.room
      omega
  -- what was wanted is what lies in front of the end
  · have hrun := @read_ringbuf_front buf count h hd hsize (by omega)
    rw [hall] at hrun
    have hleft := unread_at_end h hd
    constructor
    · intro hexact
      have hrest := hexact.left
      rw [usnet_read_own, hrun] at hrest
      simp only [Option.map_some, Option.some.injEq] at hrest
      refine ⟨by omega, ?_⟩
      rcases hleft.mp (by omega) with hsmall | hdvd
      · exact .inl hsmall
      · exact .inr (.inl hdvd)
    · intro hfits
      refine ⟨?_, ?_, ?_⟩
      · rw [usnet_read_own, hrun, hall]
        exact (oldest_front hd).symm
      · rw [usnet_read_own, hrun, hall]
      · rw [usnet_read_own, hrun]
        simp only [Option.map_some, Option.some.injEq]
        rw [hleft.mpr (by have := hfits.rests; omega)]
        omega
  -- two copies
  · have hrun := @read_ringbuf_split buf count h hd hsize hlong
    constructor
    · intro
      exact ⟨by omega, .inr (.inr hlong)⟩
    · intro
      have hle : buf.wanted count - (buf.size.toNat - buf.data.toNat) ≤ buf.head.toNat := by
        omega
      have hsum : buf.size.toNat - buf.data.toNat
          + (buf.wanted count - (buf.size.toNat - buf.data.toNat)) = buf.wanted count := by
        omega
      refine ⟨?_, ?_, ?_⟩
      · have hsplit := @oldest_split buf (buf.wanted count - (buf.size.toNat - buf.data.toNat))
          hd (by omega)
        rw [hsum] at hsplit
        rw [usnet_read_own, hrun, hsplit]
      · rw [usnet_read_own, hrun]
      · rw [usnet_read_own, hrun]
        simp only [Option.map_some, Option.some.injEq]
        have hhlt := buf.head.toNat_lt
        have hdata : (u16 (buf.wanted count - (buf.size.toNat - buf.data.toNat) : Nat)).toNat
            = buf.wanted count - (buf.size.toNat - buf.data.toNat) := by
          rw [toNat_u16]
          omega
        rw [hun]
        unfold UsnRingbuf.unread
        simp only [UInt16.le_iff_toNat_le, hdata]
        rw [if_pos (by omega)]
        omega

/-- For every state of a ring and every room the caller gives: the read is
    exact when the unread bytes do not wrap or the room reaches the end of the
    block, and in no other case. -/
theorem read_respects_buffer {buf : UsnRingbuf} {count : Nat}
    (hd : buf.data.toNat ≤ buf.size.toNat) (hh : buf.head.toNat ≤ buf.size.toNat)
    (hsize : buf.size.toNat < 2 ^ 31) (hun : 0 < buf.unread) (_hcount : 1 ≤ count) :
    ReadExact buf count ↔ buf.data < buf.head ∨ WrappedFits buf count := by
  by_cases hlt : buf.data < buf.head
  · constructor
    · intro
      exact .inl hlt
    · intro
      exact .straight hlt hh
  · have hwrap : buf.head < buf.data := by
      rw [UInt16.lt_iff_toNat_lt] at hlt ⊢
      by_contra hge
      have heq : buf.unread = 0 := by
        unfold UsnRingbuf.unread
        rw [if_pos (UInt16.le_iff_toNat_le.mpr (by omega))]
        omega
      omega
    rw [wrapped_exact_iff hwrap hd hsize]
    constructor
    · intro hfits
      exact .inr hfits
    · intro hor
      exact hor.resolve_left hlt

/-- Eight bytes unread, six of them in front of the end of the block. -/
def wrapped_ring : UsnRingbuf :=
  { fd := 5, data := 8090, head := 2, size := 8096, head_seq := 9009, last_seq := 9009,
    merged_len := 8, win := 8087, frags := [], data_ptr := fun i => (i % 251).toUInt8 }

theorem read_respects_buffer_sample :
    ReadExact wrapped_ring 7 ↔ wrapped_ring.data < wrapped_ring.head ∨
      WrappedFits wrapped_ring 7 :=
  read_respects_buffer (by decide) (by decide) (by decide) (by decide) (by decide)

/-- With room for three bytes six are stored. -/
theorem read_overruns :
    wrapped_ring.unread = 8 ∧
    (usnet_read (some wrapped_ring) 5 3).1 = 3 ∧
    (usnet_read (some wrapped_ring) 5 3).2.1.length = 6 ∧ ¬ ReadExact wrapped_ring 3 := by
  have hlen : (usnet_read (some wrapped_ring) 5 3).2.1.length = 6 := by decide
  refine ⟨by decide, by decide, hlen, ?_⟩
  intro hexact
  have hwritten := congrArg List.length hexact.written
  rw [show (usnet_read (some wrapped_ring) wrapped_ring.fd 3).2.1.length = 6 from hlen]
    at hwritten
  exact absurd hwritten (by decide)

/-! ## Section 4: Runs in order -/

/-- The ring with the number of bytes inserted and read so far. -/
structure RingRun where
  buf : UsnRingbuf
  inserted : Nat
  consumed : Nat

inductive RingCall where
  | insert (data : List UInt8)
  | read (count : Nat)

/-- A ring just made, of a size from 1 to 32767. -/
def RingRun.Fresh (s : RingRun) : Prop :=
  ∃ mem size fd init_seq, 1 ≤ size.toNat ∧ size.toNat ≤ 32767 ∧
    usnet_get_ringbuf (some mem) size fd init_seq = some s.buf ∧
    s.inserted = 0 ∧ s.consumed = 0

/-- A segment that starts at `head_seq` and is accepted, or a read of at most
    what is unread. -/
inductive RingRun.Step : RingRun → RingCall → RingRun → Prop
  | insert {s : RingRun} {chunk : Bool} {data : List UInt8} {r : Int} {buf : UsnRingbuf} :
      0 < data.length →
      usnet_insert_fragment chunk s.buf data s.buf.head_seq = some (r, buf) → 0 ≤ r →
      Step s (.insert data) { s with buf := buf, inserted := s.inserted + data.length }
  | read {s : RingRun} {count : Nat} :
      count ≤ s.buf.unread →
      Step s (.read count)
        { s with
          buf := (read_ringbuf s.buf count).2.2
          consumed := s.consumed + (read_ringbuf s.buf count).1.toNat }

/-- The insertion leaves one byte of the ring free. -/
def leaves_one_free (s : RingRun) : RingCall → Prop
  | .insert data => s.buf.unread + data.length < s.buf.size.toNat
  | .read _ => True

/-- The positions tell what is unread. -/
structure RingRun.Exact (s : RingRun) : Prop where
  unread : s.inserted = s.consumed + s.buf.unread
  empty : s.buf.head = s.buf.data ↔ s.consumed = s.inserted

/-- The `win` of a ring with `n` bytes unread is what is free less one byte. -/
def UsnRingbuf.announces (buf : UsnRingbuf) (n : Nat) : Prop :=
  buf.win.toNat + n + 1 = buf.size.toNat

/-- The invariant of a run in order: no fragment is ever left pending. -/
structure RingRun.Inv (s : RingRun) : Prop where
  sized : s.buf.size.toNat ≤ 32767
  holds : Holds s.buf (s.inserted - s.consumed)
  counted : s.consumed ≤ s.inserted
  frags : s.buf.frags = []

theorem RingRun.Inv.fresh {s : RingRun} (h : s.Fresh) : s.Inv := by
  obtain ⟨mem, size, fd, init_seq, hpos, hsize, hget, hins, hcon⟩ := h
  have hbuf := Option.some.inj hget
  have hzero : s.inserted - s.consumed = 0 := by omega
  refine ⟨?_, ?_, by omega, ?_⟩
  · rw [← hbuf]
    exact hsize
  · rw [hzero, ← hbuf]
    exact ⟨Nat.zero_le _, (advance_zero (Nat.zero_le _)).symm, hpos⟩
  · rw [← hbuf]

/-- A fragment at the front of an empty list is taken off at once. -/
theorem pop_front_alone {buf : UsnRingbuf} {seq : UInt32} (len : UInt16)
    (h : buf.head_seq = seq) :
    (pop_front { buf with frags := [{ seq := seq, len := len }] }).frags = [] := by
  unfold pop_front
  simp [h]

/-- `head` after a segment in order. -/
theorem head_after_in_order {buf : UsnRingbuf} {n len : Nat} (h : Holds buf n)
    (hsize : buf.size.toNat ≤ 32767) (hlen : n + len < buf.size.toNat) :
    (buf.head_after 0 len).toNat = advance buf.size.toNat buf.data.toNat (n + len) := by
  obtain ⟨hd, hh, hn⟩ := h
  have hle : buf.head.toNat ≤ buf.size.toNat := by
    rw [hh]
    exact advance_le hd (by omega)
  have hstart := @ring_start_off_eq buf 0 (by omega) (by omega)
  have hsint : sint buf.size = buf.size.toNat := sint_of_lt (by omega)
  rw [← advance_advance hd (by omega), ← hh]
  unfold UsnRingbuf.head_after advance
  rw [hstart, hsint, Nat.add_zero, if_pos hle]
  by_cases hfront : buf.head.toNat + len ≤ buf.size.toNat
  · rw [if_pos (by omega), if_pos hfront, UInt16.toNat_add, toNat_u16]
    omega
  · rw [if_neg (by omega), if_neg hfront, UInt16.toNat_add, toNat_u16]
    omega

/-- The window announced for a ring with a byte free. -/
theorem Holds.set_win {buf : UsnRingbuf} {n : Nat} (h : Holds buf n)
    (hsize : buf.size.toNat ≤ 32767) : Holds buf.set_win n ∧ buf.set_win.announces n := by
  have hholds : Holds buf.set_win n := ⟨h.data, h.head, h.free⟩
  refine ⟨hholds, ?_⟩
  obtain ⟨hd, hh, hn⟩ := h
  have hwin := @set_win_eq buf (buf.size.toNat - n) (by omega)
    (by
      simp only [gt_iff_lt, UInt16.lt_iff_toNat_lt, hh]
      unfold advance
      split_ifs <;> omega)
    (by omega)
  unfold UsnRingbuf.announces
  have hsame : buf.set_win.size = buf.size := rfl
  rw [hsame]
  omega

/-- A segment in order that leaves a byte free: `head` moves over it, nothing
    stays pending, and the window is what is free less one. -/
theorem Holds.insert {buf buf' : UsnRingbuf} {n : Nat} {chunk : Bool} {data : List UInt8}
    {r : Int} (h : Holds buf n) (hsize : buf.size.toNat ≤ 32767) (hfrags : buf.frags = [])
    (hins : usnet_insert_fragment chunk buf data buf.head_seq = some (r, buf')) (hr : 0 ≤ r)
    (hfree : n + data.length < buf.size.toNat) :
    Holds buf' (n + data.length) ∧ buf'.frags = [] ∧
      buf'.announces (n + data.length) := by
  rcases usnet_insert_fragment_cases hins with
    ⟨-, hneg, -⟩ | ⟨rfl, -⟩ | ⟨-, -, hrange, copied, frags, hcopy, hlink, hbuf'⟩
  · omega
  · omega
  · have hframe := copy_payload_frame hcopy
    have hhead := hrange.copied_head (by omega) hcopy
    rw [ahead_self] at hhead
    -- the only fragment is the new one, and it is taken off
    rw [hfrags] at hlink
    obtain rfl := Option.some.inj hlink
    have hseq : copied.head_seq = buf.head_seq := by rw [hframe]
    have hdata : copied.data = buf.data := by rw [hframe]
    have hcsize : copied.size = buf.size := by rw [hframe]
    have hnone := pop_front_alone (u16 data.length) hseq
    have hholds : Holds (pop_front { copied with
        frags := [{ seq := buf.head_seq, len := u16 data.length }] }) (n + data.length) := by
      refine ⟨?_, ?_, ?_⟩
      · simp only [pop_front_data, pop_front_size, hdata, hcsize]
        exact h.data
      · simp only [pop_front_data, pop_front_size, pop_front_head, hdata, hcsize, hhead]
        exact head_after_in_order h hsize hfree
      · simp only [pop_front_size, hcsize]
        exact hfree
    obtain ⟨hset, hwin⟩ := hholds.set_win (by
      simp only [pop_front_size, hcsize]
      exact hsize)
    rw [hbuf']
    exact ⟨hset, hnone, hwin⟩

/-- A read returns the oldest bytes that are wanted, as the first of those it
    copies, and moves `data` over them. -/
theorem Holds.read {buf : UsnRingbuf} {n : Nat} (h : Holds buf n)
    (hsize : buf.size.toNat ≤ 32767) (count : Nat) :
    (read_ringbuf buf count).1.toNat = min count n ∧
    (read_ringbuf buf count).2.1.take (min count n) = buf.oldest (min count n) ∧
    (read_ringbuf buf count).2.2.data.toNat
      = advance buf.size.toNat buf.data.toNat (min count n) := by
  have hun := h.unread_eq
  have hempty := h.empty_iff
  obtain ⟨hd, hh, hn⟩ := h
  have hwanted : buf.wanted count = min count n := by
    unfold UsnRingbuf.wanted
    rw [hun]
  have hhlt := buf.head.toNat_lt
  rcases Nat.lt_trichotomy buf.data.toNat buf.head.toNat with hlt | heq | hgt
  · rw [read_ringbuf_straight (UInt16.lt_iff_toNat_lt.mpr hlt), hwanted]
    refine ⟨Int.toNat_natCast _, ?_, ?_⟩
    · rw [List.take_of_length_le (by simp)]
      refine (window_eq_of_le ?_).symm
      unfold advance at hh
      split at hh <;> omega
    · unfold advance at hh ⊢
      rw [UInt16.toNat_add, toNat_u16]
      split at hh <;> split <;> omega
  -- nothing is unread
  · have hsame : buf.head = buf.data := UInt16.toNat_inj.mp heq.symm
    obtain rfl := hempty.mp hsame
    rw [Nat.min_zero, advance_zero hd]
    unfold read_ringbuf
    rw [if_pos hsame]
    exact ⟨rfl, rfl, rfl⟩
  · have hlt : buf.head < buf.data := UInt16.lt_iff_toNat_lt.mpr hgt
    by_cases hfront : min count n ≤ buf.size.toNat - buf.data.toNat
    · rw [read_ringbuf_front hlt hd (by omega) (by omega), hwanted]
      refine ⟨Int.toNat_natCast _, ?_, ?_⟩
      · rw [← oldest_front hd]
        exact window_take hfront
      · unfold advance
        rw [UInt16.toNat_add, toNat_u16]
        split <;> omega
    · rw [read_ringbuf_split hlt hd (by omega) (by omega), hwanted]
      have hrest := @oldest_split buf (min count n - (buf.size.toNat - buf.data.toNat)) hd
        (by omega)
      rw [Nat.add_sub_cancel' (by omega)] at hrest
      refine ⟨Int.toNat_natCast _, ?_, ?_⟩
      · rw [← hrest]
        refine List.take_of_length_le (Nat.le_of_eq ?_)
        exact window_length _ _ _ _
      · unfold advance
        rw [toNat_u16]
        split <;> omega

/-- What is left then is what was there behind them. -/
theorem Holds.after_read {buf buf' : UsnRingbuf} {n k : Nat} (h : Holds buf n) (hk : k ≤ n)
    (hframe : buf' = { buf with data := buf'.data })
    (hdata : buf'.data.toNat = advance buf.size.toNat buf.data.toNat k) :
    Holds buf' (n - k) ∧ buf'.oldest (n - k) = (buf.oldest n).drop k := by
  obtain ⟨hd, hh, hn⟩ := h
  rw [hframe]
  refine ⟨⟨?_, ?_, by simp only; omega⟩, ?_⟩
  · simp only [hdata]
    exact advance_le hd (by omega)
  · simp only [hdata]
    rw [advance_advance hd (by omega), hh]
    congr 1
    omega
  · unfold UsnRingbuf.oldest
    simp only [hdata]
    rw [window_advance, window_drop hk]

theorem RingRun.Inv.step {s s' : RingRun} {c : RingCall} (h : s.Inv)
    (hc : leaves_one_free s c) (hs : RingRun.Step s c s') : s'.Inv := by
  obtain ⟨hsize, hholds, hcount, hfrags⟩ := h
  have hun := hholds.unread_eq
  cases hs with
  | @insert chunk data r buf hpos hins hr =>
    have hkept := usnet_insert_fragment_kept hins
    have hfree : s.buf.unread + data.length < s.buf.size.toNat := hc
    obtain ⟨hnew, hnone, -⟩ := hholds.insert hsize hfrags hins hr (by omega)
    refine ⟨?_, ?_, ?_, hnone⟩
    · simp only [hkept.1]
      exact hsize
    · have hsum : s.inserted + data.length - s.consumed
          = s.inserted - s.consumed + data.length := by omega
      simp only [hsum]
      exact hnew
    · simp only
      omega
  | @read count hle =>
    obtain ⟨hret, -, hdata⟩ := hholds.read hsize count
    have hframe := read_ringbuf_frame s.buf count
    rw [Nat.min_eq_left (by omega)] at hret hdata
    obtain ⟨hnew, -⟩ := hholds.after_read (by omega) hframe hdata
    refine ⟨?_, ?_, ?_, ?_⟩
    · show (read_ringbuf s.buf count).2.2.size.toNat ≤ 32767
      rw [hframe]
      exact hsize
    · have hsum : s.inserted - (s.consumed + count) = s.inserted - s.consumed - count := by
        omega
      simp only [hret, hsum]
      exact hnew
    · simp only [hret]
      omega
    · show (read_ringbuf s.buf count).2.2.frags = []
      rw [hframe]
      exact hfrags

/-- It holds throughout a run whose insertions leave a byte free. -/
theorem RingRun.inv_of_run {s : RingRun}
    (h : RunWhere RingRun.Step leaves_one_free RingRun.Fresh s) : s.Inv :=
  h.invariant (fun _ hs => .fresh hs) (fun _ _ _ hi hc hs => hi.step hc hs)

/-- In every run in order whose insertions leave a byte of the ring free, the
    positions give what has been inserted and not yet read, they are equal only
    when nothing is unread, and each insertion announces what is left. -/
theorem ring_occupancy_exact {s : RingRun}
    (h : RunWhere RingRun.Step leaves_one_free RingRun.Fresh s) :
    s.Exact ∧ ∀ data s', leaves_one_free s (.insert data) →
      RingRun.Step s (.insert data) s' → s'.buf.announces (s'.inserted - s'.consumed) := by
  have hinv := RingRun.inv_of_run h
  have hcount := hinv.counted
  refine ⟨⟨?_, ?_⟩, ?_⟩
  · rw [hinv.holds.unread_eq]
    omega
  · rw [hinv.holds.empty_iff]
    omega
  · intro data s' hfree hs
    cases hs with
    | insert hpos hins hr =>
      have hun := hinv.holds.unread_eq
      have hfree : s.buf.unread + data.length < s.buf.size.toNat := hfree
      have hwin := (hinv.holds.insert hinv.sized hinv.frags hins hr (by omega)).2.2
      have hsum : s.inserted + data.length - s.consumed
          = s.inserted - s.consumed + data.length := by omega
      simp only [hsum]
      exact hwin

/-- A fresh ring of four bytes. -/
def four_ring : RingRun :=
  { buf := (usnet_get_ringbuf (some fun _ => 0) 4 5 9001).get rfl, inserted := 0, consumed := 0 }

theorem four_ring_fresh : four_ring.Fresh :=
  ⟨_, 4, 5, 9001, by decide, by decide, rfl, rfl, rfl⟩

/-- The run of calls from a state, with the ring each of them leaves. -/
def ring_after (buf : UsnRingbuf) (data : List UInt8) : UsnRingbuf :=
  ((usnet_insert_fragment true buf data buf.head_seq).map Prod.snd).getD buf

/-- Three bytes inserted and two of them read. -/
def three_in : RingRun := ⟨ring_after four_ring.buf [1, 2, 3], 3, 0⟩
def two_out : RingRun := ⟨(read_ringbuf three_in.buf 2).2.2, 3, 2⟩

theorem three_in_step : RingRun.Step four_ring (.insert [1, 2, 3]) three_in :=
  @RingRun.Step.insert four_ring true _ 3 _ (by decide) rfl (by decide)

theorem two_out_step : RingRun.Step three_in (.read 2) two_out := .read (by decide)

theorem ring_occupancy_sample :
    two_out.Exact ∧ ∀ data s', leaves_one_free two_out (.insert data) →
      RingRun.Step two_out (.insert data) s' → s'.buf.announces (s'.inserted - s'.consumed) := by
  have hfree : leaves_one_free four_ring (.insert [1, 2, 3]) := by
    unfold leaves_one_free
    decide
  have hread : leaves_one_free three_in (.read 2) := trivial
  exact ring_occupancy_exact
    (.step (.step (.init four_ring_fresh) hfree three_in_step) hread two_out_step)

/-- The ring filled up again, which takes three more bytes. -/
def filled : RingRun := ⟨ring_after two_out.buf [4, 5, 6], 6, 2⟩

theorem filled_step : RingRun.Step two_out (.insert [4, 5, 6]) filled :=
  @RingRun.Step.insert two_out true _ 3 _ (by decide) rfl (by decide)

/-- A full ring looks like an empty one, and its window is not what is left. -/
theorem full_ring_looks_empty :
    Reachable RingRun.Step RingRun.Fresh filled ∧ filled.buf.head = filled.buf.data ∧
    filled.inserted - filled.consumed = 4 ∧ ¬ filled.Exact ∧
    RingRun.Step two_out (.insert [4, 5, 6]) filled ∧
    ¬ filled.buf.announces (filled.inserted - filled.consumed) := by
  refine ⟨?_, by decide, by decide, ?_, filled_step, ?_⟩
  · exact .step (.step (.step (.init four_ring_fresh) trivial three_in_step) trivial
      two_out_step) trivial filled_step
  · intro h
    exact absurd h.unread (by decide)
  · unfold UsnRingbuf.announces
    decide

end Usnet
