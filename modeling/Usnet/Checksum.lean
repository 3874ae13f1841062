import Usnet.Lib.OnesComp
import Usnet.MqLayout
import Usnet.Wire

/-! # The TCP checksum (utils.c, tcp.c, tcp_out.c)

    `tcp_cksum` adds the words as the processor loads them, in 32 bits, and folds
    the sum twice at the end.  What it computes is the complement of the
    one's-complement sum of the pseudo header and the segment; the byte order
    only swaps the two halves of the result.
-/

namespace Usnet

namespace Wire

open CInt OnesComp

/-! ## Section 1: Words in memory -/

/-- The `len` bytes from `off` on. -/
def bytes (m : Mem) (off : Int) (len : Nat) : List UInt8 :=
  (List.range len).map fun i : Nat => m (off + i)

@[simp] theorem bytes_length (m : Mem) (off : Int) (len : Nat) :
    (bytes m off len).length = len := by
  simp [bytes]

theorem bytes_add (m : Mem) (off : Int) (a b : Nat) :
    bytes m off (a + b) = bytes m off a ++ bytes m (off + a) b := by
  unfold bytes
  rw [List.range_add, List.map_append, List.map_map]
  simp [Function.comp_def, add_assoc]

theorem bytes_two (m : Mem) (off : Int) : bytes m off 2 = [m off, m (off + 1)] := by
  simp [bytes, List.range_succ]

/-- Bytes that are not changed. -/
theorem bytes_congr {m m' : Mem} {off : Int} {len : Nat}
    (h : ∀ i < len, m' (off + i) = m (off + i)) : bytes m' off len = bytes m off len := by
  apply List.map_congr_left
  intro i hi
  exact h i (List.mem_range.mp hi)

theorem words_two_little (b c : UInt8) : words little [b, c] = [b.toNat + 256 * c.toNat] := rfl

/-- `sum16` adds the words of the bytes, and does not overflow. -/
theorem sum16_toNat (m : Mem) (n : Nat) (off : Int) (hn : n ≤ 32768) :
    (sum16 m n off).toNat = (words little (bytes m off (2 * n))).sum := by
  induction n generalizing off with
  | zero => rfl
  | succ n ih =>
    have hrest := ih (off + 2) (by omega)
    have hbound := sum_le_of_lt _ (words_lt little_lt (bytes m (off + 2) (2 * n)))
    rw [words_length, bytes_length] at hbound
    have hle : le16 m off < 65536 := by
      have h₀ := (m off).toNat_lt
      have h₁ := (m (off + 1)).toNat_lt
      unfold le16
      omega
    have hword : (UInt32.ofNat (le16 m off)).toNat = le16 m off := by
      rw [UInt32.toNat_ofNat']
      omega
    rw [sum16, add_toNat_of_lt (by omega), hword, hrest,
      show 2 * (n + 1) = 2 + 2 * n by omega, bytes_add, words_append _ _ _ (by simp),
      List.sum_append, bytes_two, words_two_little, List.sum_singleton, le16]
    rfl

/-! ## Section 2: The accumulator of `tcp_cksum` -/

/-- `sum` in `pseudo_cksum` before it is folded. -/
def pseudo_sum (proto : UInt8) (m : Mem) (buf : Int) (len : UInt16) (saddr daddr : UInt32) :
    UInt32 :=
  let sum := sum16 m (len.toNat / 2) buf
  let sum := if len.toNat % 2 = 1 then sum + UInt32.ofNat (le16 m (buf + len.toNat - 1) % 256)
    else sum
  let sum := sum + (saddr &&& (0xffff : UInt32)) + (saddr >>> 16)
  let sum := sum + (daddr &&& (0xffff : UInt32)) + (daddr >>> 16)
  sum + (len <<< 8 ||| len >>> 8).toUInt32 + (proto.toUInt16 <<< 8).toUInt32

/-- The first and the second fold. -/
def fold_high (sum : UInt32) : UInt32 := (sum >>> 16) + (sum &&& (0xffff : UInt32))

def fold_carry (sum : UInt32) : UInt32 := sum + (sum >>> 16)

theorem pseudo_cksum_eq (proto : UInt8) (m : Mem) (buf : Int) (len : UInt16)
    (saddr daddr : UInt32) :
    pseudo_cksum proto m buf len saddr daddr
      = (~~~ fold_carry (fold_high (pseudo_sum proto m buf len saddr daddr))).toUInt16 := rfl

/-- The pseudo header as it is sent: both addresses, a zero, the protocol and the
    length. -/
def pseudo_header (proto : UInt8) (len : UInt16) (saddr daddr : UInt32) : List UInt8 :=
  bytes32 saddr ++ bytes32 daddr ++
    [0, proto, UInt8.ofNat (len.toNat / 256), UInt8.ofNat (len.toNat % 256)]

/-- All addends of `tcp_cksum` as natural numbers, added up. -/
def pseudo_total (proto : UInt8) (m : Mem) (buf : Int) (len : UInt16) (saddr daddr : UInt32) :
    Nat :=
  (words little (pseudo_header proto len saddr daddr ++ bytes m buf len.toNat)).sum

theorem low16_toNat (x : UInt32) : (x &&& (0xffff : UInt32)).toNat = x.toNat % 65536 := by
  rw [UInt32.toNat_and]
  exact Nat.and_two_pow_sub_one_eq_mod x.toNat 16

theorem high16_toNat (x : UInt32) : (x >>> 16).toNat = x.toNat / 65536 := by
  rw [UInt32.toNat_shiftRight]
  exact Nat.shiftRight_eq_div_pow x.toNat 16

/-- `htons`. -/
theorem swap16_toNat (x : UInt16) :
    (x <<< 8 ||| x >>> 8).toUInt32.toNat = x.toNat / 256 + 256 * (x.toNat % 256) := by
  have hx := x.toNat_lt
  have hlow : x.toNat / 256 < 2 ^ 8 := by omega
  rw [UInt16.toNat_toUInt32, UInt16.toNat_or, UInt16.toNat_shiftLeft, UInt16.toNat_shiftRight]
  show x.toNat <<< 8 % 2 ^ 16 ||| x.toNat >>> 8 = _
  rw [Nat.shiftLeft_eq, Nat.shiftRight_eq_div_pow,
    show x.toNat * 2 ^ 8 % 2 ^ 16 = 2 ^ 8 * (x.toNat % 256) by omega,
    ← Nat.two_pow_add_eq_or_of_lt hlow]
  omega

theorem proto_toNat (x : UInt8) : (x.toUInt16 <<< 8).toUInt32.toNat = 256 * x.toNat := by
  have hx := x.toNat_lt
  rw [UInt16.toNat_toUInt32, UInt16.toNat_shiftLeft, UInt8.toNat_toUInt16]
  show x.toNat <<< 8 % 2 ^ 16 = _
  rw [Nat.shiftLeft_eq]
  omega

theorem words_bytes32 (x : UInt32) :
    (words little (bytes32 x)).sum = x.toNat % 65536 + x.toNat / 65536 := by
  have hx := x.toNat_lt
  simp only [bytes32, List.range_succ, List.range_zero, List.nil_append, List.map_cons,
    List.map_nil, List.cons_append, words, little, List.sum_cons, List.sum_nil,
    UInt8.toNat_ofNat']
  omega

@[simp] theorem pseudo_header_length (proto : UInt8) (len : UInt16) (saddr daddr : UInt32) :
    (pseudo_header proto len saddr daddr).length = 12 := by
  simp [pseudo_header]

/-- The words of the pseudo header are those the code adds. -/
theorem pseudo_header_sum (proto : UInt8) (len : UInt16) (saddr daddr : UInt32) :
    (words little (pseudo_header proto len saddr daddr)).sum
      = (saddr.toNat % 65536 + saddr.toNat / 65536) + (daddr.toNat % 65536 + daddr.toNat / 65536)
        + (len.toNat / 256 + 256 * (len.toNat % 256)) + 256 * proto.toNat := by
  have hlen := len.toNat_lt
  unfold pseudo_header
  rw [words_append little (bytes32 saddr ++ bytes32 daddr) _ (by simp),
    words_append little (bytes32 saddr) _ (by simp), List.sum_append, List.sum_append, words_bytes32,
    words_bytes32]
  simp only [words, little, List.sum_cons, List.sum_nil, UInt8.toNat_ofNat', UInt8.toNat_zero]
  omega

/-- An odd last byte is added as a word of its own. -/
theorem bytes_sum (m : Mem) (buf : Int) (len : Nat) :
    (words little (bytes m buf len)).sum
      = (words little (bytes m buf (2 * (len / 2)))).sum
        + if len % 2 = 1 then (m (buf + len - 1)).toNat else 0 := by
  by_cases hodd : len % 2 = 1
  · have hlen : len = 2 * (len / 2) + 1 := by omega
    have hoff : buf + ((2 * (len / 2) : Nat) : Int) = buf + len - 1 := by omega
    rw [if_pos hodd]
    conv_lhs => rw [hlen, bytes_add, words_append _ _ _ (by simp), List.sum_append, hoff]
    simp [bytes, words, little]
  · have hlen : 2 * (len / 2) = len := by omega
    rw [if_neg hodd, hlen, Nat.add_zero]

/-- An addition whose operands are known and that does not overflow. -/
theorem toNat_add_eq {x y : UInt32} {a b : Nat} (hx : x.toNat = a) (hy : y.toNat = b)
    (h : a + b < 2 ^ 32) : (x + y).toNat = a + b := by
  rw [add_toNat_of_lt (by omega), hx, hy]

/-- The words of the segment, its odd last byte included. -/
theorem segment_sum_toNat (m : Mem) (buf : Int) (len : UInt16) :
    (if len.toNat % 2 = 1 then
        sum16 m (len.toNat / 2) buf + UInt32.ofNat (le16 m (buf + len.toNat - 1) % 256)
      else sum16 m (len.toNat / 2) buf).toNat
      = (words little (bytes m buf len.toNat)).sum := by
  have hlen := len.toNat_lt
  have hwords := sum16_toNat m (len.toNat / 2) buf (by omega)
  have hbound := sum_le_of_lt _ (words_lt little_lt (bytes m buf (2 * (len.toNat / 2))))
  rw [words_length, bytes_length] at hbound
  have hbyte := (m (buf + len.toNat - 1)).toNat_lt
  have hlast : (UInt32.ofNat (le16 m (buf + len.toNat - 1) % 256)).toNat
      = (m (buf + len.toNat - 1)).toNat := by
    rw [UInt32.toNat_ofNat']
    unfold le16
    omega
  rw [bytes_sum]
  split
  · exact toNat_add_eq hwords hlast (by omega)
  · rw [hwords, Nat.add_zero]

/-- The accumulator never overflows: before the folds it is the sum of all words
    as a natural number. -/
theorem pseudo_sum_toNat (proto : UInt8) (m : Mem) (buf : Int) (len : UInt16)
    (saddr daddr : UInt32) :
    (pseudo_sum proto m buf len saddr daddr).toNat = pseudo_total proto m buf len saddr daddr ∧
    pseudo_total proto m buf len saddr daddr < 2 ^ 32 := by
  have hlen := len.toNat_lt
  have hproto := proto.toNat_lt
  have hsaddr := saddr.toNat_lt
  have hdaddr := daddr.toNat_lt
  have hbound := sum_le_of_lt _ (words_lt little_lt (bytes m buf len.toNat))
  rw [words_length, bytes_length] at hbound
  have hseg := segment_sum_toNat m buf len
  unfold pseudo_total
  rw [words_append _ _ _ (by simp), List.sum_append, pseudo_header_sum]
  generalize (words little (bytes m buf len.toNat)).sum = seg at hbound hseg ⊢
  constructor
  · -- every addition in turn
    have h₁ := toNat_add_eq hseg (low16_toNat saddr) (by omega)
    have h₂ := toNat_add_eq h₁ (high16_toNat saddr) (by omega)
    have h₃ := toNat_add_eq h₂ (low16_toNat daddr) (by omega)
    have h₄ := toNat_add_eq h₃ (high16_toNat daddr) (by omega)
    have h₅ := toNat_add_eq h₄ (swap16_toNat len) (by omega)
    have h₆ := toNat_add_eq h₅ (proto_toNat proto) (by omega)
    unfold pseudo_sum
    rw [h₆]
    omega
  · omega

/-- Two folds are enough: what is left in the low 16 bits has all carries put
    back. -/
theorem two_folds (sum : UInt32) :
    (fold_high sum).toNat = sum.toNat / 65536 + sum.toNat % 65536 ∧
    (fold_carry (fold_high sum)).toNat
      = (fold_high sum).toNat + (fold_high sum).toNat / 65536 ∧
    (fold_carry (fold_high sum)).toNat % 65536 = fold sum.toNat := by
  have hsum := sum.toNat_lt
  obtain ⟨hle, hfold⟩ := fold_once hsum
  have hhigh : (fold_high sum).toNat = sum.toNat / 65536 + sum.toNat % 65536 :=
    toNat_add_eq (high16_toNat sum) (low16_toNat sum) (by omega)
  have hcarry : (fold_carry (fold_high sum)).toNat
      = (fold_high sum).toNat + (fold_high sum).toNat / 65536 :=
    toNat_add_eq rfl (high16_toNat _) (by omega)
  refine ⟨hhigh, hcarry, ?_⟩
  rw [hcarry, hhigh, fold_twice hle, hfold]

theorem not_low16 (x : UInt32) : (~~~ x).toUInt16.toNat = 65535 - x.toNat % 65536 := by
  have hx := x.toNat_lt
  have hsize : UInt32.size = 2 ^ 32 := rfl
  rw [UInt32.toNat_toUInt16, UInt32.toNat_not]
  omega

/-- `tcp_cksum` is the complement of the one's-complement sum. -/
theorem pseudo_cksum_toNat (proto : UInt8) (m : Mem) (buf : Int) (len : UInt16)
    (saddr daddr : UInt32) :
    (pseudo_cksum proto m buf len saddr daddr).toNat
      = 65535 - fold (pseudo_total proto m buf len saddr daddr) := by
  obtain ⟨-, -, hfold⟩ := two_folds (pseudo_sum proto m buf len saddr daddr)
  rw [pseudo_cksum_eq, not_low16, hfold, (pseudo_sum_toNat proto m buf len saddr daddr).1]

theorem pseudo_total_pos {proto : UInt8} (hproto : proto ≠ 0) (m : Mem) (buf : Int)
    (len : UInt16) (saddr daddr : UInt32) : 0 < pseudo_total proto m buf len saddr daddr := by
  have hpos : proto.toNat ≠ 0 := fun h => hproto (UInt8.toNat_inj.mp h)
  unfold pseudo_total
  rw [words_append _ _ _ (by simp), List.sum_append, pseudo_header_sum]
  omega

/-- It is zero exactly when the sum is all ones. -/
theorem pseudo_cksum_eq_zero (proto : UInt8) (m : Mem) (buf : Int) (len : UInt16)
    (saddr daddr : UInt32) :
    pseudo_cksum proto m buf len saddr daddr = 0 ↔
      osum (words big (pseudo_header proto len saddr daddr ++ bytes m buf len.toNat)) = 65535 := by
  have hle := fold_le (pseudo_total proto m buf len saddr daddr)
  have hcksum := pseudo_cksum_toNat proto m buf len saddr daddr
  rw [← osum_little_eq_max, ← pseudo_total, ← UInt16.toNat_inj, hcksum, UInt16.toNat_zero]
  omega

/-! ## Section 3: Storing the checksum -/

/-- A store of a `uint16_t`. -/
def store16 (m : Mem) (off : Int) (v : UInt16) : Mem :=
  Function.update (Function.update m off (UInt8.ofNat (v.toNat % 256))) (off + 1)
    (UInt8.ofNat (v.toNat / 256))

theorem store16_outside {m : Mem} {off i : Int} (v : UInt16) (h : i < off ∨ off + 2 ≤ i) :
    store16 m off v i = m i := by
  unfold store16
  rw [Function.update_of_ne (by omega), Function.update_of_ne (by omega)]

theorem le16_store16 (m : Mem) (off : Int) (v : UInt16) :
    le16 (store16 m off v) off = v.toNat := by
  have hv := v.toNat_lt
  unfold le16 store16
  rw [Function.update_of_ne (by omega), Function.update_self, Function.update_self,
    UInt8.toNat_ofNat', UInt8.toNat_ofNat']
  omega

/-- A word stored at an even distance is one addend of the sum. -/
theorem sum_store16 (m : Mem) (buf : Int) {k len : Nat} (v : UInt16) (hk : 2 * k + 2 ≤ len) :
    (words little (bytes (store16 m (buf + (2 * k : Nat)) v) buf len)).sum
      = (words little (bytes m buf (2 * k))).sum + v.toNat
        + (words little (bytes m (buf + (2 * k + 2 : Nat)) (len - (2 * k + 2)))).sum := by
  have hlen : len = 2 * k + 2 + (len - (2 * k + 2)) := by omega
  have hoff : buf + (2 * k : Nat) + (2 : Nat) = buf + (2 * k + 2 : Nat) := by omega
  conv_lhs => rw [hlen, bytes_add, bytes_add, words_append _ _ _ (by simp),
    words_append _ _ _ (by simp)]
  rw [List.sum_append, List.sum_append, bytes_two, words_two_little, List.sum_singleton]
  have hword := le16_store16 m (buf + (2 * k : Nat)) v
  unfold le16 at hword
  rw [hword]
  congr 1
  · congr 1
    rw [bytes_congr]
    intro i hi
    exact store16_outside v (by omega)
  · rw [bytes_congr]
    intro i hi
    exact store16_outside v (by omega)

/-- The checksum field of a TCP header. -/
def th_sum (tcph : Int) : Int := tcph + (16 : Nat)

/-- What is stored in a field at an even distance is added to the sum with an
    empty field. -/
theorem pseudo_total_store_at (proto : UInt8) (m : Mem) (buf : Int) {k : Nat} {len : UInt16}
    (v : UInt16) (saddr daddr : UInt32) (hlen : 2 * k + 2 ≤ len.toNat) :
    pseudo_total proto (store16 m (buf + (2 * k : Nat)) v) buf len saddr daddr
      = pseudo_total proto (store16 m (buf + (2 * k : Nat)) 0) buf len saddr daddr + v.toNat := by
  have h := fun v => @sum_store16 m buf k len.toNat v hlen
  unfold pseudo_total
  rw [words_append _ _ _ (by simp), words_append _ _ _ (by simp), List.sum_append,
    List.sum_append, h v, h 0, UInt16.toNat_zero]
  omega

/-- With the checksum stored there the sum is right. -/
theorem cksum_of_stored_at {proto : UInt8} (hproto : proto ≠ 0) (m : Mem) (buf : Int) {k : Nat}
    {len : UInt16} (saddr daddr : UInt32) (hlen : 2 * k + 2 ≤ len.toNat) :
    pseudo_cksum proto
      (store16 m (buf + (2 * k : Nat))
        (pseudo_cksum proto (store16 m (buf + (2 * k : Nat)) 0) buf len saddr daddr))
      buf len saddr daddr = 0 := by
  have hpos := pseudo_total_pos hproto (store16 m (buf + (2 * k : Nat)) 0) buf len saddr daddr
  rw [← UInt16.toNat_inj, pseudo_cksum_toNat, pseudo_total_store_at _ _ _ _ _ _ hlen,
    pseudo_cksum_toNat, fold_complement _ hpos]
  rfl

theorem pseudo_total_store (proto : UInt8) (m : Mem) (tcph : Int) {len : UInt16} (v : UInt16)
    (saddr daddr : UInt32) (hlen : 18 ≤ len.toNat) :
    pseudo_total proto (store16 m (th_sum tcph) v) tcph len saddr daddr
      = pseudo_total proto (store16 m (th_sum tcph) 0) tcph len saddr daddr + v.toNat :=
  @pseudo_total_store_at proto m tcph 8 len v saddr daddr hlen

/-- A segment with its checksum stored passes the check. -/
theorem cksum_of_stored {proto : UInt8} (hproto : proto ≠ 0) (m : Mem) (tcph : Int)
    {len : UInt16} (saddr daddr : UInt32) (hlen : 18 ≤ len.toNat) :
    pseudo_cksum proto
      (store16 m (th_sum tcph)
        (pseudo_cksum proto (store16 m (th_sum tcph) 0) tcph len saddr daddr))
      tcph len saddr daddr = 0 :=
  @cksum_of_stored_at proto hproto m tcph 8 len saddr daddr hlen

/-! ## Section 4: The check in `usnet_tcp_input` -/

/-- The length `usnet_tcp_input` computes the checksum of. -/
def tcp_len (m : Mem) (iph hl : Int) (iplen : Nat) : UInt16 :=
  let th_off := (m (iph + hl + 12)).toNat / 16
  let payloadlen := (iplen : Int) - (hl + 4 * th_off)
  UInt16.ofNat ((4 * th_off + payloadlen) % 65536).toNat

/-- The check does not refuse the segment. -/
def tcp_accepts (m : Mem) (iph hl : Int) (iplen : Nat) : Prop :=
  ¬ tcp_cksum m (iph + hl) (tcp_len m iph hl iplen) (le32 m (iph + 12)) (le32 m (iph + 16)) ≠ 0

/-- Where the check refuses, nothing else of the segment is looked at. -/
theorem usnet_tcp_input_refused {w : World} {m : Mem} {iph hl : Int} {iplen : Nat}
    (hoff : hl + 4 * ((m (iph + hl + 12)).toNat / 16 : Nat) ≤ iplen)
    (h : ¬ tcp_accepts m iph hl iplen) :
    usnet_tcp_input w m iph hl iplen
      = stop [⟨iph + hl + 12, 1⟩, ⟨iph + hl + 4, 4⟩, ⟨iph + hl + 8, 4⟩, ⟨iph + hl + 14, 2⟩,
          pseudo_span (iph + hl) (tcp_len m iph hl iplen), ⟨iph + 12, 8⟩] := by
  unfold tcp_accepts tcp_len at h
  unfold usnet_tcp_input tcp_len
  simp only at h ⊢
  rw [if_neg (by omega), if_pos (not_not.mp h)]
  rfl

/-- The length is that of the segment. -/
theorem tcp_len_toNat {m : Mem} {iph hl : Int} {iplen : Nat} {len : UInt16}
    (hlen : (iplen : Int) - hl = len.toNat) : tcp_len m iph hl iplen = len := by
  have hlt := len.toNat_lt
  apply UInt16.toNat_inj.mp
  unfold tcp_len
  rw [UInt16.toNat_ofNat']
  omega

/-- A word of the IP header is loaded as it was sent. -/
theorem bytes32_le32 (m : Mem) (off : Int) : bytes32 (le32 m off) = bytes m off 4 := by
  have h₀ := (m off).toNat_lt
  have h₁ := (m (off + 1)).toNat_lt
  have h₂ := (m (off + 2)).toNat_lt
  have h₃ := (m (off + 3)).toNat_lt
  have hnat : (le32 m off).toNat = (m off).toNat + 256 * (m (off + 1)).toNat
      + 65536 * ((m (off + 2)).toNat + 256 * (m (off + 3)).toNat) := by
    unfold le32 le16
    rw [UInt32.toNat_ofNat', show off + 2 + 1 = off + 3 by omega]
    omega
  have hbyte : ∀ (n : Nat) (b : UInt8), n % 256 = b.toNat → UInt8.ofNat n = b := by
    intro n b h
    apply UInt8.toNat_inj.mp
    rw [UInt8.toNat_ofNat', ← h]
  simp only [bytes32, bytes, List.range_succ, List.range_zero, List.nil_append, List.map_cons,
    List.map_nil, List.cons_append, hnat]
  rw [hbyte _ (m off) (by omega), hbyte _ (m (off + 1)) (by omega),
    hbyte _ (m (off + 2)) (by omega), hbyte _ (m (off + 3)) (by omega)]
  simp

/-- The pseudo header of a received segment: the addresses of its IP header, a
    zero, the protocol and its length. -/
def received_header (m : Mem) (iph : Int) (len : UInt16) : List UInt8 :=
  bytes m (iph + 12) 4 ++ bytes m (iph + 16) 4 ++
    [0, IPPROTO_TCP, UInt8.ofNat (len.toNat / 256), UInt8.ofNat (len.toNat % 256)]

/-- The accumulator does not overflow and two folds put back all carries; a
    segment with its checksum stored has checksum zero; and a segment is accepted
    exactly when the one's-complement sum of its pseudo header and its bytes is
    all ones. -/
theorem tcp_checksum_inverse (m : Mem) (tcph : Int) (len : UInt16) (saddr daddr : UInt32)
    (hlen : 20 ≤ len.toNat) :
    ((pseudo_sum IPPROTO_TCP m tcph len saddr daddr).toNat
        = pseudo_total IPPROTO_TCP m tcph len saddr daddr ∧
      pseudo_total IPPROTO_TCP m tcph len saddr daddr < 2 ^ 32 ∧
      tcp_cksum m tcph len saddr daddr
        = (~~~ fold_carry (fold_high (pseudo_sum IPPROTO_TCP m tcph len saddr daddr))).toUInt16 ∧
      (∀ sum, (fold_high sum).toNat = sum.toNat / 65536 + sum.toNat % 65536 ∧
        (fold_carry (fold_high sum)).toNat
          = (fold_high sum).toNat + (fold_high sum).toNat / 65536) ∧
      (fold_carry (fold_high (pseudo_sum IPPROTO_TCP m tcph len saddr daddr))).toNat % 65536
        = osum (words little (pseudo_header IPPROTO_TCP len saddr daddr ++
            bytes m tcph len.toNat))) ∧
    tcp_cksum
      (store16 m (th_sum tcph) (tcp_cksum (store16 m (th_sum tcph) 0) tcph len saddr daddr))
      tcph len saddr daddr = 0 ∧
    ∀ (iph hl : Int) (iplen : Nat), iph + hl = tcph → (iplen : Int) - hl = len.toNat →
      (tcp_accepts m iph hl iplen ↔
        osum (words big (received_header m iph len ++ bytes m tcph len.toNat)) = 65535) := by
  obtain ⟨hacc, hbound⟩ := pseudo_sum_toNat IPPROTO_TCP m tcph len saddr daddr
  obtain ⟨-, -, hfold⟩ := two_folds (pseudo_sum IPPROTO_TCP m tcph len saddr daddr)
  refine ⟨⟨hacc, hbound, rfl, ?_, ?_⟩,
    cksum_of_stored (by decide) m tcph saddr daddr (by omega), ?_⟩
  · intro sum
    obtain ⟨hhigh, hcarry, -⟩ := two_folds sum
    exact ⟨hhigh, hcarry⟩
  · rw [hfold, hacc, osum_eq (words_lt little_lt _), pseudo_total]
  · intro iph hl iplen htcph hiplen
    have hheader : received_header m iph len
        = pseudo_header IPPROTO_TCP len (le32 m (iph + 12)) (le32 m (iph + 16)) := by
      unfold received_header pseudo_header
      rw [bytes32_le32, bytes32_le32]
    unfold tcp_accepts
    rw [not_not, tcp_len_toNat hiplen, htcph, hheader]
    exact pseudo_cksum_eq_zero IPPROTO_TCP m tcph len _ _

/-- A header and one byte behind an IP header without options, the 21 bytes summed
    and stored. -/
theorem tcp_checksum_inverse_sample :
    let m : Mem := fun i => UInt8.ofNat (7 * i).toNat
    20 ≤ (21 : UInt16).toNat ∧
    tcp_cksum (store16 m (th_sum 34) (tcp_cksum (store16 m (th_sum 34) 0) 34 21 5 6)) 34 21 5 6
      = 0 ∧
    (tcp_accepts m 14 20 41 ↔
      osum (words big (received_header m 14 21 ++ bytes m 34 21)) = 65535) := by
  intro m
  obtain ⟨-, hstored, haccepts⟩ := tcp_checksum_inverse m 34 21 5 6 (by decide)
  exact ⟨by decide, hstored, haccepts 14 20 41 (by decide) (by decide)⟩

end Wire

end Usnet
