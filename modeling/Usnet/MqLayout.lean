import Usnet.Mq
import Usnet.Lib.Circular

/-! # Messages in the block

    Producer and consumer split a message at the end of the block in three and
    in four different ways.  All of them amount to the same walk: byte `i` of a
    message at position `p` lies in cell `(p + i) % block_size`, and the position
    behind `n` bytes is `advance block_size p n`.
-/

namespace Usnet

open CInt Circular

/-! ## Section 1: Messages as bytes -/

theorem read32_bytes32 (x : UInt32) : read32 (bytes32 x) = x := by
  apply UInt32.toNat_inj.mp
  have := x.toNat_lt
  simp only [read32, bytes32, List.range_succ, List.range_zero, List.nil_append,
    List.map_cons, List.map_nil, List.cons_append, List.getD_cons_zero,
    List.getD_cons_succ, UInt8.toNat_ofNat', UInt32.toNat_ofNat']
  omega

@[simp] theorem bytes32_length (x : UInt32) : (bytes32 x).length = 4 := rfl

@[simp] theorem msg_head_length (total_len flow : UInt32) :
    (msg_head total_len flow).length = 8 := rfl

/-- `total_len`. -/
def MqMsg.total (m : MqMsg) : Nat := 8 + m.data.length

/-- The bytes a message occupies in the block. -/
def MqMsg.enc (m : MqMsg) : List UInt8 :=
  msg_head (u32 m.data.length + C_HEAD_SIZE) m.flow ++ m.data

@[simp] theorem MqMsg.enc_length (m : MqMsg) : m.enc.length = m.total := by
  simp [MqMsg.enc, MqMsg.total]

/-- The bytes of a queue of messages. -/
def total (q : List MqMsg) : Nat := (q.map MqMsg.total).sum

@[simp] theorem total_nil : total [] = 0 := rfl

@[simp] theorem total_cons (m : MqMsg) (q : List MqMsg) :
    total (m :: q) = m.total + total q := by
  simp [total]

@[simp] theorem total_append (q q' : List MqMsg) : total (q ++ q') = total q + total q' := by
  simp [total]

theorem MqMsg.total_pos (m : MqMsg) : 0 < m.total := by
  unfold MqMsg.total
  omega

/-! ## Section 2: Both sides walk through the block alike -/

/-- The stores that put bytes behind a position. -/
def cells (size p : Nat) (src : List UInt8) : List (Nat × UInt8) :=
  src.mapIdx fun i b => ((p + i) % size, b)

/-- The addresses of the `n` bytes behind a position. -/
def addrs (size p n : Nat) : List Nat := (List.range n).map fun i => (p + i) % size

@[simp] theorem cells_length (size p : Nat) (src : List UInt8) :
    (cells size p src).length = src.length := by
  simp [cells]

@[simp] theorem addrs_length (size p n : Nat) : (addrs size p n).length = n := by
  simp [addrs]

theorem cells_append (size p : Nat) (a b : List UInt8) :
    cells size p (a ++ b) = cells size p a ++ cells size (p + a.length) b := by
  unfold cells
  rw [List.mapIdx_append]
  simp only [Nat.add_assoc, Nat.add_comm a.length]

theorem addrs_add (size p m n : Nat) :
    addrs size p (m + n) = addrs size p m ++ addrs size (p + m) n := by
  unfold addrs
  rw [List.range_add, List.map_append, List.map_map]
  simp [Function.comp_def, Nat.add_assoc]

/-- Addresses behind an advanced position. -/
theorem addrs_advance (size p m n : Nat) :
    addrs size (advance size p m) n = addrs size (p + m) n :=
  List.map_congr_left fun i _ => advance_add_mod size p m i

theorem stores_eq {size p : Nat} {off : UInt32} {src : List UInt8}
    (h : ∀ i < src.length, off.toNat + i = (p + i) % size) :
    stores off src = cells size p src := by
  apply List.ext_getElem
  · simp [stores, cells]
  · intro i h₁ h₂
    have hi : i < src.length := by simpa [stores] using h₁
    simp [stores, cells, h i hi]

theorem loads_eq {size p : Nat} {off len : UInt32}
    (h : ∀ i < len.toNat, off.toNat + i = (p + i) % size) :
    loads off len = addrs size p len.toNat := by
  apply List.map_congr_left
  intro i hi
  exact h i (List.mem_range.mp hi)

/-- The free space left over `n` bytes in use. -/
theorem free_len_eq {block_size head tail : UInt32} {n : Nat}
    (hbs : block_size.toNat < 2 ^ 31) (hhead : head.toNat ≤ block_size.toNat)
    (hn : n < block_size.toNat)
    (htail : tail.toNat = advance block_size.toNat head.toNat n) :
    (free_len block_size head tail).toNat = block_size.toNat - n := by
  unfold advance at htail
  unfold free_len
  simp only [gt_iff_lt, UInt32.lt_iff_toNat_lt]
  split at htail
  · rw [if_neg (by omega), sub_toNat_of_le] <;> rw [add_toNat_of_lt (by omega)] <;> omega
  · rw [if_pos (by omega), sub_toNat_of_le (by omega)]
    omega

/-- The used space of `n` bytes in use. -/
theorem used_len_eq {block_size head tail : UInt32} {n : Nat}
    (hbs : block_size.toNat < 2 ^ 31) (hhead : head.toNat ≤ block_size.toNat)
    (hpos : 0 < n) (hn : n < block_size.toNat)
    (htail : tail.toNat = advance block_size.toNat head.toNat n) :
    (used_len block_size head tail).toNat = n := by
  unfold advance at htail
  unfold used_len
  simp only [gt_iff_lt, UInt32.lt_iff_toNat_lt]
  split at htail
  · rw [if_pos (by omega), sub_toNat_of_le (by omega)]
    omega
  · rw [if_neg (by omega), sub_toNat_of_le] <;> rw [add_toNat_of_lt (by omega)] <;> omega

section Splits

variable (size : Nat) {tail : UInt32} {sHead data : List UInt8}

/-- The whole message lies before the end of the block. -/
theorem stores_straight (hs : size < 2 ^ 31) (hhead : sHead.length = 8)
    (hend : tail.toNat + 8 + data.length ≤ size) :
    stores tail sHead ++ stores (tail + C_HEAD_SIZE) data
      = cells size tail.toNat (sHead ++ data) := by
  have hhs : C_HEAD_SIZE.toNat = 8 := rfl
  have hadd : (tail + C_HEAD_SIZE).toNat = tail.toNat + 8 := add_toNat_of_lt (by omega)
  rw [cells_append, hhead, stores_eq, stores_eq]
  · intro i hi
    rw [hadd, Nat.mod_eq_of_lt (by omega)]
  · intro i hi
    rw [Nat.mod_eq_of_lt (by omega)]

/-- The data continues at the start of the block. -/
theorem stores_data_wrapped (hs : size < 2 ^ 31) (hhead : sHead.length = 8) {f : Nat}
    (hf : tail.toNat + 8 + f = size) (hdata : data.length ≤ size) :
    stores tail sHead ++ stores (tail + C_HEAD_SIZE) (data.take f) ++ stores 0 (data.drop f)
      = cells size tail.toNat (sHead ++ data) := by
  have hhs : C_HEAD_SIZE.toNat = 8 := rfl
  have hadd : (tail + C_HEAD_SIZE).toNat = tail.toNat + 8 := add_toNat_of_lt (by omega)
  have hzero : (0 : UInt32).toNat = 0 := rfl
  by_cases hlen : data.length ≤ f
  · rw [List.take_of_length_le hlen, List.drop_of_length_le hlen]
    have hnil : stores 0 [] = [] := rfl
    rw [hnil, List.append_nil, stores_straight size hs hhead (by omega)]
  · have htake : (data.take f).length = f := by
      rw [List.length_take]; omega
    have hdrop : (data.drop f).length = data.length - f := List.length_drop
    conv_rhs => rw [← List.take_append_drop f data, ← List.append_assoc, cells_append,
      cells_append, List.length_append, hhead, htake]
    rw [stores_eq, stores_eq, stores_eq]
    · intro i hi
      rw [hzero, ← Nat.add_assoc, hf, Nat.add_mod_left, Nat.mod_eq_of_lt (by omega),
        Nat.zero_add]
    · intro i hi
      rw [hadd, Nat.mod_eq_of_lt (by omega)]
    · intro i hi
      rw [Nat.mod_eq_of_lt (by omega)]

/-- The header itself continues at the start of the block. -/
theorem stores_head_wrapped {second_len : UInt32} (hhead : sHead.length = 8) {f : Nat}
    (hf : tail.toNat + f = size) (hf8 : f < 8) (hsecond : second_len.toNat = 8 - f)
    (hdata : 8 + data.length ≤ size) :
    stores tail (sHead.take f) ++ stores 0 (sHead.drop f) ++ stores second_len data
      = cells size tail.toNat (sHead ++ data) := by
  have hzero : (0 : UInt32).toNat = 0 := rfl
  have htake : (sHead.take f).length = f := by
    rw [List.length_take]; omega
  have hdrop : (sHead.drop f).length = 8 - f := by
    rw [List.length_drop, hhead]
  conv_rhs => rw [cells_append, hhead, ← List.take_append_drop f sHead, cells_append, htake]
  rw [stores_eq, stores_eq, stores_eq]
  · intro i hi
    rw [hsecond, show tail.toNat + 8 + i = size + (8 - f + i) by omega, Nat.add_mod_left,
      Nat.mod_eq_of_lt (by omega)]
  · intro i hi
    rw [hf, hzero, Nat.add_mod_left, Nat.mod_eq_of_lt (by omega), Nat.zero_add]
  · intro i hi
    rw [Nat.mod_eq_of_lt (by omega)]

end Splits

/-- What the producer does with a position: the three ways of splitting a
    message at the end of the block are one. -/
theorem usnet_write_mq_eq {block_size head tail : UInt32} {m : MqMsg} {n : Nat}
    (hbs : block_size.toNat < 2 ^ 31) (hhead : head.toNat ≤ block_size.toNat)
    (hn : n < block_size.toNat) (hlen : m.data.length < 2 ^ 31)
    (htail : tail.toNat = advance block_size.toNat head.toNat n) :
    (block_size.toNat ≤ n + m.total ∧ usnet_write_mq block_size head tail m = none) ∨
    (n + m.total < block_size.toNat ∧ ∃ next : UInt32,
      usnet_write_mq block_size head tail m
        = some (cells block_size.toNat tail.toNat m.enc, next) ∧
      next.toNat = advance block_size.toNat tail.toNat m.total) := by
  have hfree := free_len_eq hbs hhead hn htail
  have hle : tail.toNat ≤ block_size.toNat := htail ▸ advance_le hhead (by omega)
  have hdata : (u32 m.data.length).toNat = m.data.length := toNat_u32_of_lt (by omega)
  have hhs : C_HEAD_SIZE.toNat = 8 := rfl
  have htotal : (u32 m.data.length + C_HEAD_SIZE).toNat = 8 + m.data.length := by
    rw [add_toNat_of_lt (by omega)]; omega
  have htotal' : (C_HEAD_SIZE + u32 m.data.length).toNat = 8 + m.data.length := by
    rw [add_toNat_of_lt (by omega)]; omega
  have htl : (block_size - tail).toNat = block_size.toNat - tail.toNat := sub_toNat_of_le hle
  have hml : (msg_head (u32 m.data.length + C_HEAD_SIZE) m.flow).length = 8 :=
    msg_head_length _ _
  unfold usnet_write_mq MqMsg.enc MqMsg.total
  simp only [UInt32.le_iff_toNat_le, UInt32.lt_iff_toNat_lt, ge_iff_le, hfree, htotal, htotal',
    htl, hhs]
  -- refused, or written straight on, or wrapped around in the data or in the header
  by_cases hroom : block_size.toNat - n ≤ 8 + m.data.length
  · exact .inl ⟨by omega, if_pos hroom⟩
  · right
    refine ⟨by omega, ?_⟩
    rw [if_neg hroom]
    by_cases h₁ : 8 + m.data.length ≤ block_size.toNat - tail.toNat
    · refine ⟨tail + (u32 m.data.length + C_HEAD_SIZE), ?_, ?_⟩
      · rw [if_pos h₁, stores_straight _ hbs hml (by omega)]
      · rw [add_toNat_of_lt (by omega), htotal, advance, if_pos (by omega)]
    · rw [if_neg h₁]
      by_cases h₂ : 8 ≤ block_size.toNat - tail.toNat
      · have hfirst : (block_size - tail - C_HEAD_SIZE).toNat
            = block_size.toNat - tail.toNat - 8 := by
          rw [sub_toNat_of_le (by omega), htl, hhs]
        refine ⟨tail + u32 m.data.length + C_HEAD_SIZE - block_size, ?_, ?_⟩
        · rw [if_pos ⟨h₂, by omega⟩, hfirst, stores_data_wrapped _ hbs hml (by omega) (by omega)]
        · have hsum : (tail + u32 m.data.length + C_HEAD_SIZE).toNat
              = tail.toNat + m.data.length + 8 := by
            rw [add_toNat_of_lt, add_toNat_of_lt, hdata, hhs] <;>
              (try rw [add_toNat_of_lt]) <;> omega
          rw [sub_toNat_of_le (by omega), hsum, advance, if_neg (by omega)]
          omega
      · have hsecond : (C_HEAD_SIZE - (block_size - tail)).toNat
            = 8 - (block_size.toNat - tail.toNat) := by
          rw [sub_toNat_of_le (by omega), htl, hhs]
        refine ⟨C_HEAD_SIZE - (block_size - tail) + u32 m.data.length, ?_, ?_⟩
        · rw [if_neg (by omega),
            stores_head_wrapped block_size.toNat hml (by omega) (by omega) hsecond (by omega)]
        · rw [add_toNat_of_lt (by omega), hsecond, hdata, advance, if_neg (by omega)]
          omega

/-- A read of `len` bytes behind a position, split at the end of the block or not. -/
theorem read_data_eq {block_size head : UInt32} (len : UInt32) (hbs : block_size.toNat < 2 ^ 31)
    (hhead : head.toNat ≤ block_size.toNat) (hlen : len.toNat ≤ block_size.toNat) :
    (read_data block_size head len).1 = addrs block_size.toNat head.toNat len.toNat ∧
    (read_data block_size head len).2.toNat
      = advance block_size.toNat head.toNat len.toNat := by
  have hzero : (0 : UInt32).toNat = 0 := rfl
  have hadd : (head + len).toNat = head.toNat + len.toNat := add_toNat_of_lt (by omega)
  have hfirst : (block_size - head).toNat = block_size.toNat - head.toNat :=
    sub_toNat_of_le hhead
  unfold read_data
  simp only [gt_iff_lt, UInt32.lt_iff_toNat_lt, hadd]
  -- two loads where the block ends in between
  by_cases hend : block_size.toNat < head.toNat + len.toNat
  · have hsecond : (len - (block_size - head)).toNat
        = len.toNat - (block_size.toNat - head.toNat) := by
      rw [sub_toNat_of_le (by omega), hfirst]
    have hsum : len.toNat
        = block_size.toNat - head.toNat + (len.toNat - (block_size.toNat - head.toNat)) := by
      omega
    rw [if_pos hend]
    constructor
    · conv_rhs => rw [hsum, addrs_add]
      rw [← hsecond, ← hfirst, loads_eq, loads_eq]
      · intro i hi
        rw [hfirst, hzero, show head.toNat + (block_size.toNat - head.toNat) + i
          = block_size.toNat + i by omega, Nat.add_mod_left, Nat.mod_eq_of_lt (by omega),
          Nat.zero_add]
      · intro i hi
        rw [Nat.mod_eq_of_lt (by omega)]
    · rw [hsecond, advance, if_neg (by omega)]
      omega
  · rw [if_neg hend]
    constructor
    · apply loads_eq
      intro i hi
      rw [Nat.mod_eq_of_lt (by omega)]
    · rw [hadd, advance, if_pos (by omega)]

/-- The header is read like any eight bytes. -/
theorem read_head_eq_read_data (block_size head : UInt32) :
    read_head block_size head = read_data block_size head C_HEAD_SIZE := rfl

end Usnet
