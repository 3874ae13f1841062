import Usnet.Lib.CInt
import Usnet.Lib.Circular

/-! # The receive ring (ringbuf.c)

    Payload is copied into the ring at the place its sequence number calls for
    and recorded as a fragment.  The fragment list merges neighbours; when its
    first fragment starts at `head_seq` that fragment is taken off and
    `head_seq` moves to its end.
-/

namespace Usnet

open CInt Circular

/-! ## Section 1: Data -/

/-- `struct fragment`, linked through a list. -/
structure Fragment where
  seq : UInt32
  len : UInt16
  deriving DecidableEq, Repr

/-- `usn_ringbuf_t`. -/
structure UsnRingbuf where
  fd : UInt32
  data : UInt16
  head : UInt16
  size : UInt32
  head_seq : UInt32
  last_seq : UInt32
  merged_len : UInt32
  win : UInt32
  frags : List Fragment
  data_ptr : Nat → UInt8

/-- `usnet_get_ringbuf`: the slot's memory is reused as it is, only the header
    is cleared.  No slot means that the cache is full. -/
def usnet_get_ringbuf (slot : Option (Nat → UInt8)) (size fd init_seq : UInt32) :
    Option UsnRingbuf :=
  slot.map fun data_ptr =>
    { fd := fd, data := 0, head := 0, size := size, head_seq := init_seq,
      last_seq := init_seq, merged_len := 0, win := 0, frags := [], data_ptr := data_ptr }

/-! ## Section 2: Sequence comparisons -/

def MAXSEQ : UInt32 := 0xFFFFFFFF

/-- The earlier of two sequence numbers. -/
def minseq (a b : UInt32) : UInt32 :=
  if a = b then a
  else if a < b then (if b - a ≤ MAXSEQ / 2 then a else b)
  else (if a - b ≤ MAXSEQ / 2 then b else a)

/-- The later of two sequence numbers. -/
def maxseq (a b : UInt32) : UInt32 :=
  if a = b then a
  else if a < b then (if b - a ≤ MAXSEQ / 2 then b else a)
  else (if a - b ≤ MAXSEQ / 2 then a else b)

/-- `canmerge`: neither fragment ends before the other starts. -/
def canmerge (a b : Fragment) : Bool :=
  let a_end := a.seq + a.len.toUInt32 + 1
  let b_end := b.seq + b.len.toUInt32 + 1
  if minseq a_end b.seq = a_end ∨ minseq b_end a.seq = b_end then false else true

/-- `merge_fragments`: the second fragment grows to cover both. -/
def merge_fragments (a b : Fragment) : Fragment :=
  let min_seq := minseq a.seq b.seq
  let max_seq := maxseq (a.seq + a.len.toUInt32) (b.seq + b.len.toUInt32)
  { seq := min_seq, len := (max_seq - min_seq).toUInt16 }

/-! ## Section 3: The fragment list -/

/-- The list traversal of `usnet_insert_fragment`, over the fragments already
    passed, latest first, and those still ahead (`iter`).  Once merged, the
    fragment merged into is the latest one passed, so a further merge takes it
    out of the list (`prev == new_frag`). -/
def merge_loop (seq_end : UInt32) (new_frag : Fragment) (merged : Bool)
    (passed : List Fragment) : List Fragment → Bool × List Fragment × List Fragment
  | [] => (merged, passed, [])
  | iter :: next =>
    if canmerge new_frag iter then
      let iter := merge_fragments new_frag iter
      merge_loop seq_end iter true (iter :: if merged then passed.tail else passed) next
    else if merged ∨ maxseq seq_end iter.seq = iter.seq then (merged, passed, iter :: next)
    else merge_loop seq_end new_frag merged (iter :: passed) next

/-- The list after traversal and, where nothing merged, linking the new
    fragment in.  `none` is the failed assertion or the missing `prev`. -/
def link_fragment (frags : List Fragment) (new_frag : Fragment) (seq_end : UInt32) :
    Option (List Fragment) :=
  match merge_loop seq_end new_frag false [] frags with
  | (true, passed, iter) => some (passed.reverse ++ iter)
  | (false, passed, iter) =>
    match frags with
    | [] => some [new_frag]
    | first :: _ =>
      if minseq new_frag.seq first.seq = new_frag.seq then some (new_frag :: frags)
      else match passed with
        | [] => none
        | prev :: _ =>
          if minseq new_frag.seq (prev.seq + prev.len.toUInt32)
              = prev.seq + prev.len.toUInt32 then
            some (passed.reverse ++ new_frag :: iter)
          else none

/-- The end of `usnet_insert_fragment`: take off the first fragment if it
    starts at `head_seq`. -/
def pop_front (buf : UsnRingbuf) : UsnRingbuf :=
  match buf.frags with
  | [] => buf
  | first :: next =>
    if buf.head_seq = first.seq then
      { buf with
        merged_len := first.len.toUInt32
        frags := next
        head_seq := buf.head_seq + first.len.toUInt32 }
    else buf

/-! ## Section 4: Insertion -/

/-- `start_off` in `usnet_insert_fragment`. -/
def UsnRingbuf.start_off (buf : UsnRingbuf) (data_off : Int) : Int :=
  let start_off : Int := buf.head.toNat + data_off
  if u32 start_off > buf.size then sint (u32 start_off - buf.size) else start_off

/-- The payload copy of `usnet_insert_fragment`, with the move of `head` by the
    segment's length wherever the segment starts.  `none` is a `memcpy` with a
    negative length. -/
def copy_payload (buf : UsnRingbuf) (data : List UInt8) (data_off : Int) :
    Option UsnRingbuf :=
  let len : Int := data.length
  let start_off := buf.start_off data_off
  let tail_len := sint (buf.size - u32 start_off)
  if tail_len ≥ len then
    some { buf with
      data_ptr := memcpy buf.data_ptr start_off.toNat data
      head := buf.head + u16 len }
  else if tail_len < 0 then none
  else
    let first := memcpy buf.data_ptr start_off.toNat (data.take tail_len.toNat)
    some { buf with
      data_ptr := memcpy first 0 (data.drop tail_len.toNat)
      head := buf.head + u16 (len - sint buf.size) }

/-- `avail_len` in `usnet_insert_fragment`. -/
def UsnRingbuf.avail_len (buf : UsnRingbuf) : Int :=
  sint (if buf.data > buf.head then buf.data.toUInt32 - buf.head.toUInt32
        else buf.data.toUInt32 + buf.size - buf.head.toUInt32)

/-- The window announced after an insertion: the free space less one. -/
def UsnRingbuf.set_win (buf : UsnRingbuf) : UsnRingbuf :=
  { buf with
    win := (if buf.data > buf.head then buf.data.toUInt32 - buf.head.toUInt32
            else buf.size + buf.data.toUInt32 - buf.head.toUInt32) - 1 }

/-- `usnet_insert_fragment`, where `chunk` says whether the pool has a fragment
    left.  The result is `none` where the code aborts: an assertion, a sum
    `data_off + len` that overflows an `int`, or `data_off` negative, which the
    first check lets through at `head_seq + 2^31` alone and which ends in a
    `memcpy` with a negative length. -/
def usnet_insert_fragment (chunk : Bool) (buf : UsnRingbuf) (data : List UInt8)
    (seq : UInt32) : Option (Int × UsnRingbuf) :=
  let len : Int := data.length
  let data_off := sint (seq - buf.head_seq)
  let end_off := data_off + len
  if minseq buf.head_seq seq ≠ buf.head_seq then some (-1, buf)
  else if u32 len > buf.size then some (-2, buf)
  else if data_off < 0 ∨ end_off ≥ 2 ^ 31 then none
  else if end_off > buf.avail_len then some (-3, buf)
  else
    let buf := { buf with
      last_seq := if seq + u32 len > buf.last_seq then seq + u32 len else buf.last_seq }
    match copy_payload buf data data_off with
    | none => none
    | some buf =>
      if chunk = false then some (-4, buf)
      else
        match link_fragment buf.frags { seq := seq, len := u16 len } (seq + u32 len) with
        | none => none
        | some frags => some (len, (pop_front { buf with frags := frags }).set_win)

/-! ## Section 5: What an insertion does -/

/-- The checks `usnet_insert_fragment` makes before it touches the ring. -/
structure InRange (buf : UsnRingbuf) (data : List UInt8) (seq : UInt32) : Prop where
  not_before : minseq buf.head_seq seq = buf.head_seq
  fits : ¬ u32 data.length > buf.size
  off_nonneg : 0 ≤ sint (seq - buf.head_seq)
  no_overflow : sint (seq - buf.head_seq) + data.length < 2 ^ 31
  avail : sint (seq - buf.head_seq) + data.length ≤ buf.avail_len

/-- The copy touches the memory and `head` only. -/
theorem copy_payload_frame {buf buf' : UsnRingbuf} {data : List UInt8} {data_off : Int}
    (h : copy_payload buf data data_off = some buf') :
    buf' = { buf with data_ptr := buf'.data_ptr, head := buf'.head } := by
  unfold copy_payload at h
  simp only at h
  split at h
  · obtain rfl := Option.some.inj h
    rfl
  · split at h
    · cases h
    · obtain rfl := Option.some.inj h
      rfl

@[simp] theorem pop_front_data (buf : UsnRingbuf) : (pop_front buf).data = buf.data := by
  unfold pop_front
  split
  · rfl
  · split <;> rfl

@[simp] theorem pop_front_head (buf : UsnRingbuf) : (pop_front buf).head = buf.head := by
  unfold pop_front
  split
  · rfl
  · split <;> rfl

@[simp] theorem pop_front_size (buf : UsnRingbuf) : (pop_front buf).size = buf.size := by
  unfold pop_front
  split
  · rfl
  · split <;> rfl

@[simp] theorem pop_front_data_ptr (buf : UsnRingbuf) :
    (pop_front buf).data_ptr = buf.data_ptr := by
  unfold pop_front
  split
  · rfl
  · split <;> rfl

@[simp] theorem pop_front_fd (buf : UsnRingbuf) : (pop_front buf).fd = buf.fd := by
  unfold pop_front
  split
  · rfl
  · split <;> rfl

/-- A fragment is stored: the bytes copied, the list extended, the front taken off. -/
structure Stored (buf : UsnRingbuf) (data : List UInt8) (seq : UInt32)
    (buf' : UsnRingbuf) : Prop where
  in_range : InRange buf data seq
  run : ∃ copied frags,
    copy_payload
      { buf with last_seq :=
          if seq + u32 data.length > buf.last_seq then seq + u32 data.length
          else buf.last_seq } data (sint (seq - buf.head_seq)) = some copied ∧
    link_fragment buf.frags { seq := seq, len := u16 data.length }
      (seq + u32 data.length) = some frags ∧
    buf' = (pop_front { copied with frags := frags }).set_win

/-- The three ways an insertion returns: refused without effect, copied without
    a fragment to record it, or stored. -/
theorem usnet_insert_fragment_cases {chunk : Bool} {buf buf' : UsnRingbuf}
    {data : List UInt8} {seq : UInt32} {r : Int}
    (h : usnet_insert_fragment chunk buf data seq = some (r, buf')) :
    (-4 < r ∧ r < 0 ∧ buf' = buf ∧ ¬ InRange buf data seq) ∨
    (r = -4 ∧ chunk = false ∧ InRange buf data seq ∧
      copy_payload
        { buf with last_seq :=
            if seq + u32 data.length > buf.last_seq then seq + u32 data.length
            else buf.last_seq } data (sint (seq - buf.head_seq)) = some buf') ∨
    (r = data.length ∧ chunk = true ∧ Stored buf data seq buf') := by
  unfold usnet_insert_fragment at h
  simp only at h
  -- before the front, longer than the ring, too far for an `int`, beyond the ring
  by_cases h₁ : minseq buf.head_seq seq = buf.head_seq
  · rw [if_neg (not_not.mpr h₁)] at h
    by_cases h₂ : u32 data.length > buf.size
    · rw [if_pos h₂] at h
      obtain ⟨rfl, rfl⟩ := h
      exact .inl ⟨by omega, by omega, rfl, fun hr => hr.fits h₂⟩
    · rw [if_neg h₂] at h
      by_cases h₃ : sint (seq - buf.head_seq) < 0 ∨
          sint (seq - buf.head_seq) + data.length ≥ 2 ^ 31
      · rw [if_pos h₃] at h
        cases h
      · rw [if_neg h₃] at h
        by_cases h₄ : sint (seq - buf.head_seq) + data.length > buf.avail_len
        · rw [if_pos h₄] at h
          obtain ⟨rfl, rfl⟩ := h
          exact .inl ⟨by omega, by omega, rfl, fun hr => absurd hr.avail (by omega)⟩
        · rw [if_neg h₄] at h
          have hrange : InRange buf data seq := ⟨h₁, h₂, by omega, by omega, by omega⟩
          right
          split at h
          · cases h
          · rename_i copied hcopy
            have hframe := copy_payload_frame hcopy
            have hfrags : copied.frags = buf.frags := by rw [hframe]
            cases chunk with
            | false =>
              rw [if_pos rfl] at h
              obtain ⟨rfl, rfl⟩ := h
              exact .inl ⟨rfl, rfl, hrange, hcopy⟩
            | true =>
              rw [if_neg (by decide), hfrags] at h
              split at h
              · cases h
              · rename_i frags hlink
                obtain ⟨rfl, rfl⟩ := h
                exact .inr ⟨rfl, rfl, hrange, copied, frags, hcopy, hlink, rfl⟩
  · rw [if_pos h₁] at h
    obtain ⟨rfl, rfl⟩ := h
    exact .inl ⟨by omega, by omega, rfl, fun hr => h₁ hr.not_before⟩

@[simp] theorem set_win_frame (buf : UsnRingbuf) :
    (buf.set_win).size = buf.size ∧ (buf.set_win).fd = buf.fd ∧
    (buf.set_win).data = buf.data ∧ (buf.set_win).head = buf.head ∧
    (buf.set_win).head_seq = buf.head_seq ∧ (buf.set_win).frags = buf.frags ∧
    (buf.set_win).data_ptr = buf.data_ptr := ⟨rfl, rfl, rfl, rfl, rfl, rfl, rfl⟩

/-- The size, the descriptor and the read position are not the insertion's. -/
theorem usnet_insert_fragment_kept {chunk : Bool} {buf buf' : UsnRingbuf}
    {data : List UInt8} {seq : UInt32} {r : Int}
    (h : usnet_insert_fragment chunk buf data seq = some (r, buf')) :
    buf'.size = buf.size ∧ buf'.fd = buf.fd ∧ buf'.data = buf.data := by
  rcases usnet_insert_fragment_cases h with
    ⟨-, -, rfl, -⟩ | ⟨-, -, -, hcopy⟩ | ⟨-, -, -, copied, frags, hcopy, -, rfl⟩
  · simp
  · rw [copy_payload_frame hcopy]
    simp
  · rw [copy_payload_frame hcopy]
    simp

end Usnet
