import Usnet.Lib.CInt
import Usnet.Lib.Circular

/-! # The send ring (sndbuf.c)

    Bytes written by the application wait between `head` and `tail` until they
    are acknowledged.  `head` is normalised to stay below `size`, while `tail`
    may rest at `size` after a write that ends exactly at the end of the block.
-/

namespace Usnet

open CInt Circular

/-! ## Section 1: The buffer and its operations -/

/-- `usn_sendbuf_t`. -/
structure UsnSendbuf where
  fd : UInt32
  head : UInt32
  sent_head : UInt32
  tail : UInt32
  len : UInt32
  size : UInt32
  head_seq : UInt32
  init_seq : UInt32
  data_ptr : Nat → UInt8

/-- `usnet_get_sendbuf`: the slot's memory is reused as it is, only the header
    is cleared.  No slot means that the cache is full. -/
def usnet_get_sendbuf (slot : Option (Nat → UInt8)) (size fd init_seq : UInt32) :
    Option UsnSendbuf :=
  slot.map fun data_ptr =>
    { fd := fd, head := 0, sent_head := 0, tail := 0, len := 0, size := size,
      head_seq := init_seq, init_seq := init_seq, data_ptr := data_ptr }

/-- `usnet_get_sendbuf_len`. -/
def usnet_get_sendbuf_len (buf : UsnSendbuf) : Int :=
  sint (if buf.tail ≥ buf.head then buf.tail - buf.head
        else buf.size + buf.tail - buf.head)

/-- The end of a write: the bytes are in place, `tail` moves and `len` is
    computed afresh. -/
def UsnSendbuf.put (buf : UsnSendbuf) (data_ptr : Nat → UInt8) (tail : UInt32) : UsnSendbuf :=
  let buf := { buf with data_ptr := data_ptr, tail := tail }
  { buf with len := u32 (usnet_get_sendbuf_len buf) }

/-- `usnet_write_data`.  The result is `none` where the code would call
    `memcpy` with a negative length. -/
def usnet_write_data (buf : UsnSendbuf) (data : List UInt8) : Option (Int × UsnSendbuf) :=
  let len : Int := data.length
  let avail_len := sint (if buf.head > buf.tail then buf.head - buf.tail
                         else buf.size + buf.head - buf.tail)
  let tail_len := sint (buf.size - buf.tail)
  if avail_len ≤ len then some (-1, buf)
  else if tail_len ≥ len then
    some (len, buf.put (memcpy buf.data_ptr buf.tail.toNat data) (buf.tail + u32 len))
  else if tail_len < 0 then none
  else
    let first := memcpy buf.data_ptr buf.tail.toNat (data.take tail_len.toNat)
    -- the second copy starts at `data` again, not behind the bytes already copied
    some (len, buf.put (memcpy first 0 (data.take (len - tail_len).toNat))
      (u32 (len - tail_len)))

/-- `usnet_remove_data`. -/
def usnet_remove_data (buf : UsnSendbuf) (len : Int) : Int × UsnSendbuf :=
  let data_len := sint (if buf.tail ≥ buf.head then buf.tail - buf.head
                        else buf.size + buf.tail - buf.head)
  if len > data_len then
    (data_len, { buf with head := 0, tail := 0, head_seq := buf.head_seq + u32 data_len })
  else
    let head := buf.head + u32 len
    let head := if head ≥ buf.size then head - buf.size else head
    (len, { buf with head := head, head_seq := buf.head_seq + u32 len })

/-! ## Section 2: The indices -/

/-- The indices lie where the code leaves them. -/
structure IndexWf (buf : UsnSendbuf) : Prop where
  size_le : buf.size.toNat ≤ INT_MAX
  head_lt : buf.head.toNat < buf.size.toNat
  tail_le : buf.tail.toNat ≤ buf.size.toNat

/-- The number of bytes from `head` to `tail` as the code counts it. -/
def UsnSendbuf.bytes (buf : UsnSendbuf) : Nat :=
  if buf.head.toNat ≤ buf.tail.toNat then buf.tail.toNat - buf.head.toNat
  else buf.size.toNat + buf.tail.toNat - buf.head.toNat

theorem bytes_le {buf : UsnSendbuf} (h : IndexWf buf) : buf.bytes ≤ buf.size.toNat := by
  have := h.tail_le
  unfold UsnSendbuf.bytes
  split <;> omega

theorem usnet_get_sendbuf_len_eq {buf : UsnSendbuf} (h : IndexWf buf) :
    usnet_get_sendbuf_len buf = buf.bytes := by
  obtain ⟨hs, hh, ht⟩ := h
  unfold INT_MAX at hs
  unfold usnet_get_sendbuf_len UsnSendbuf.bytes
  simp only [ge_iff_le, UInt32.le_iff_toNat_le]
  split
  · rw [sint_of_lt] <;> rw [sub_toNat_of_le ‹_›]
    omega
  · have hadd : (buf.size + buf.tail).toNat = buf.size.toNat + buf.tail.toNat :=
      add_toNat_of_lt (by omega)
    have hsub : (buf.size + buf.tail - buf.head).toNat
        = buf.size.toNat + buf.tail.toNat - buf.head.toNat := by
      rw [sub_toNat_of_le (by omega), hadd]
    rw [sint_of_lt (by omega), hsub]

/-- The free space the code computes is what the held bytes leave. -/
theorem avail_len_eq {buf : UsnSendbuf} (h : IndexWf buf) :
    sint (if buf.head > buf.tail then buf.head - buf.tail
          else buf.size + buf.head - buf.tail) = buf.size.toNat - buf.bytes := by
  have hb := bytes_le h
  obtain ⟨hs, hh, ht⟩ := h
  unfold INT_MAX at hs
  unfold UsnSendbuf.bytes at *
  simp only [gt_iff_lt, UInt32.lt_iff_toNat_lt]
  split
  · rw [if_neg (by omega), sint_of_lt] <;> rw [sub_toNat_of_le (by omega)] <;> omega
  · have hadd : (buf.size + buf.head).toNat = buf.size.toNat + buf.head.toNat :=
      add_toNat_of_lt (by omega)
    have hsub : (buf.size + buf.head - buf.tail).toNat
        = buf.size.toNat + buf.head.toNat - buf.tail.toNat := by
      rw [sub_toNat_of_le (by omega), hadd]
    rw [if_pos (by omega), sint_of_lt (by omega), hsub]
    omega

theorem tail_len_eq {buf : UsnSendbuf} (h : IndexWf buf) :
    sint (buf.size - buf.tail) = buf.size.toNat - buf.tail.toNat := by
  obtain ⟨hs, hh, ht⟩ := h
  unfold INT_MAX at hs
  have hsub := sub_toNat_of_le ht
  rw [sint_of_lt (by omega), hsub]
  omega

/-! ## Section 3: What a write does -/

/-- A write that leaves no free byte over is refused and changes nothing. -/
theorem usnet_write_data_refused {buf : UsnSendbuf} {data : List UInt8} (h : IndexWf buf)
    (hfull : buf.size.toNat ≤ buf.bytes + data.length) :
    usnet_write_data buf data = some (-1, buf) := by
  unfold usnet_write_data
  simp only [avail_len_eq h]
  rw [if_pos (by omega)]

/-- A write that ends before the end of the block, or exactly at it. -/
theorem usnet_write_data_straight {buf : UsnSendbuf} {data : List UInt8} (h : IndexWf buf)
    (hroom : buf.bytes + data.length < buf.size.toNat)
    (hend : buf.tail.toNat + data.length ≤ buf.size.toNat) :
    usnet_write_data buf data = some ((data.length : Int),
      buf.put (memcpy buf.data_ptr buf.tail.toNat data) (buf.tail + u32 data.length)) := by
  unfold usnet_write_data
  simp only [avail_len_eq h, tail_len_eq h]
  rw [if_neg (by omega), if_pos (by omega)]

/-- A write that continues at the start of the block. -/
theorem usnet_write_data_wrapped {buf : UsnSendbuf} {data : List UInt8} (h : IndexWf buf)
    (hroom : buf.bytes + data.length < buf.size.toNat)
    (hend : buf.size.toNat < buf.tail.toNat + data.length) :
    usnet_write_data buf data = some ((data.length : Int),
      buf.put
        (memcpy (memcpy buf.data_ptr buf.tail.toNat
                  (data.take (buf.size.toNat - buf.tail.toNat)))
          0 (data.take (buf.tail.toNat + data.length - buf.size.toNat)))
        (u32 ((buf.tail.toNat + data.length - buf.size.toNat : Nat) : Int))) := by
  have ht := h.tail_le
  unfold usnet_write_data
  simp only [avail_len_eq h, tail_len_eq h]
  rw [if_neg (by omega), if_neg (by omega), if_neg (by omega)]
  have e₁ : ((buf.size.toNat : Int) - buf.tail.toNat).toNat
      = buf.size.toNat - buf.tail.toNat := by omega
  have e₂ : (data.length : Int) - (buf.size.toNat - buf.tail.toNat)
      = ((buf.tail.toNat + data.length - buf.size.toNat : Nat) : Int) := by omega
  rw [e₁, e₂, Int.toNat_natCast]

/-- The indices after `n` bytes were put at the tail. -/
structure TailMoved (buf buf' : UsnSendbuf) (n : Nat) : Prop where
  tail : buf'.tail.toNat = buf.tail.toNat + n ∨
    buf'.tail.toNat + buf.size.toNat = buf.tail.toNat + n
  bytes : buf'.bytes = buf.bytes + n
  len : buf'.len = u32 buf'.bytes
  rest : { buf' with data_ptr := buf.data_ptr, tail := buf.tail, len := buf.len } = buf

theorem put_tailMoved {buf : UsnSendbuf} {n : Nat} {tail : UInt32} (mem : Nat → UInt8)
    (h : IndexWf buf) (hroom : buf.bytes + n < buf.size.toNat)
    (htail : tail.toNat = if buf.tail.toNat + n ≤ buf.size.toNat then buf.tail.toNat + n
      else buf.tail.toNat + n - buf.size.toNat) :
    IndexWf (buf.put mem tail) ∧ TailMoved buf (buf.put mem tail) n := by
  obtain ⟨hs, hh, ht⟩ := h
  have hwf : IndexWf { buf with data_ptr := mem, tail := tail } := by
    refine ⟨hs, hh, ?_⟩
    show tail.toNat ≤ buf.size.toNat
    unfold UsnSendbuf.bytes at hroom
    split at htail <;> split at hroom <;> omega
  have hbytes : (buf.put mem tail).bytes = buf.bytes + n := by
    unfold UsnSendbuf.bytes UsnSendbuf.put at *
    show (if buf.head.toNat ≤ tail.toNat then tail.toNat - buf.head.toNat
      else buf.size.toNat + tail.toNat - buf.head.toNat) = _
    rw [htail]
    split at hroom <;> split <;> split <;> omega
  refine ⟨⟨hs, hh, hwf.tail_le⟩, ⟨?_, hbytes, ?_, rfl⟩⟩
  · show tail.toNat = _ ∨ tail.toNat + _ = _
    split at htail <;> omega
  · show u32 (usnet_get_sendbuf_len _) = _
    rw [usnet_get_sendbuf_len_eq hwf]
    rfl

/-- What any write does to the indices: it is refused without effect, or `tail`
    moves forward by the bytes written and nothing else moves. -/
theorem usnet_write_data_cases {buf : UsnSendbuf} (data : List UInt8) (h : IndexWf buf) :
    (buf.size.toNat ≤ buf.bytes + data.length ∧
      usnet_write_data buf data = some (-1, buf)) ∨
    (buf.bytes + data.length < buf.size.toNat ∧
      ∃ buf', usnet_write_data buf data = some ((data.length : Int), buf') ∧
        IndexWf buf' ∧ TailMoved buf buf' data.length) := by
  by_cases hroom : buf.bytes + data.length < buf.size.toNat
  · right
    have hs := h.size_le
    have ht := h.tail_le
    unfold INT_MAX at hs
    refine ⟨hroom, ?_⟩
    by_cases hend : buf.tail.toNat + data.length ≤ buf.size.toNat
    · refine ⟨_, usnet_write_data_straight h hroom hend, put_tailMoved _ h hroom ?_⟩
      rw [if_pos hend, toNat_add, toNat_u32_of_lt (by omega)]
      omega
    · refine ⟨_, usnet_write_data_wrapped h hroom (by omega), put_tailMoved _ h hroom ?_⟩
      rw [if_neg hend, toNat_u32_of_lt (by omega)]
  · exact .inl ⟨by omega, usnet_write_data_refused h (by omega)⟩

/-! ## Section 4: What a removal does -/

/-- Removing bytes the ring holds moves `head` and `head_seq` by that many. -/
theorem usnet_remove_data_held {buf : UsnSendbuf} {n : Nat} (h : IndexWf buf)
    (hn : n ≤ buf.bytes) :
    ∃ head : UInt32,
      usnet_remove_data buf n =
        ((n : Int), { buf with head := head, head_seq := buf.head_seq + u32 n }) ∧
      head.toNat = if buf.head.toNat + n < buf.size.toNat then buf.head.toNat + n
        else buf.head.toNat + n - buf.size.toNat := by
  have hb := bytes_le h
  have hlen := usnet_get_sendbuf_len_eq h
  obtain ⟨hs, hh, ht⟩ := h
  unfold INT_MAX at hs
  have hadd : (buf.head + u32 n).toNat = buf.head.toNat + n := by
    rw [toNat_add, toNat_u32_of_lt (by omega)]
    omega
  refine ⟨if buf.head + u32 n ≥ buf.size then buf.head + u32 n - buf.size
    else buf.head + u32 n, ?_, ?_⟩
  · unfold usnet_remove_data
    unfold usnet_get_sendbuf_len at hlen
    simp only [hlen]
    rw [if_neg (by omega)]
  · simp only [ge_iff_le, UInt32.le_iff_toNat_le, hadd]
    split
    · rw [sub_toNat_of_le (by omega), hadd, if_neg (by omega)]
    · rw [hadd, if_pos (by omega)]

/-- A removal of more than the ring holds empties it, and counts only what it held. -/
theorem usnet_remove_data_overflow {buf : UsnSendbuf} {n : Int} (h : IndexWf buf)
    (hn : (buf.bytes : Int) < n) :
    usnet_remove_data buf n =
      ((buf.bytes : Int),
        { buf with head := 0, tail := 0, head_seq := buf.head_seq + u32 buf.bytes }) := by
  have hlen := usnet_get_sendbuf_len_eq h
  unfold usnet_get_sendbuf_len at hlen
  unfold usnet_remove_data
  simp only [hlen]
  rw [if_pos hn]

/-- A removal forward leaves the indices where they may be. -/
theorem IndexWf.removed {buf : UsnSendbuf} {n : Int} (h : IndexWf buf) (hn : 0 ≤ n) :
    IndexWf (usnet_remove_data buf n).2 := by
  obtain ⟨k, rfl⟩ := Int.eq_ofNat_of_zero_le hn
  by_cases hle : k ≤ buf.bytes
  · obtain ⟨head, hrem, hhead⟩ := usnet_remove_data_held h hle
    rw [hrem]
    have hb := bytes_le h
    refine ⟨h.size_le, ?_, h.tail_le⟩
    show head.toNat < buf.size.toNat
    have := h.head_lt
    rw [hhead]
    split <;> omega
  · rw [usnet_remove_data_overflow h (by omega)]
    refine ⟨h.size_le, ?_, Nat.zero_le _⟩
    exact Nat.lt_of_le_of_lt (Nat.zero_le _) h.head_lt

end Usnet
