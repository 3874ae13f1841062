import Usnet.Arp
import Usnet.Checksum
import Usnet.FrameSizes

/-! # Frames as bytes (eth.c, ip.c, tcp_out.c, tcp.c)

    The output functions fill in the headers of a frame from the front, each
    layer with a checksum of its own, in a buffer that still holds the frame sent
    before.  The input functions look at one layer after the other and hand the
    segment to the state machine when nothing is wrong with it.
-/

namespace Usnet

namespace Octets

open CInt OnesComp Wire

/-! ## Section 1: Stores -/

/-- The bytes `l` are stored from `off` on. -/
def store (m : Mem) (off : Int) (l : List UInt8) : Mem :=
  fun i => if off ≤ i ∧ i < off + l.length then l.getD (i - off).toNat 0 else m i

/-- `htons`, by the bytes it leaves in memory. -/
def net16 (x : UInt16) : List UInt8 := [(x >>> 8).toUInt8, x.toUInt8]

/-- A `uint16_t` that is in network order already. -/
def raw16 (x : UInt16) : List UInt8 := [x.toUInt8, (x >>> 8).toUInt8]

/-- `ntohl` of the four bytes. -/
def be32_at (m : Mem) (off : Int) : UInt32 := UInt32.ofNat (65536 * be16 m off + be16 m (off + 2))

/-- The memory holds these bytes from `off` on. -/
def At (m : Mem) (off : Int) (l : List UInt8) : Prop := bytes m off l.length = l

variable {m : Mem} {off : Int}

theorem store_outside {l : List UInt8} {i : Int} (h : i < off ∨ off + l.length ≤ i) :
    store m off l i = m i := by
  unfold store
  rw [if_neg (by omega)]

/-- What is stored is there. -/
theorem at_store (m : Mem) (off : Int) (l : List UInt8) : At (store m off l) off l := by
  unfold At Wire.bytes
  apply List.ext_getElem
  · simp
  · intro i h₁ h₂
    have hidx : (off + (i : Int) - off).toNat = i := by omega
    rw [List.getElem_map, List.getElem_range]
    unfold store
    rw [if_pos (by omega), hidx, List.getD_eq_getElem?_getD, List.getElem?_eq_getElem h₂,
      Option.getD_some]

/-- Bytes that are not stored to. -/
theorem At.congr {m' : Mem} {l : List UInt8} (h : At m off l)
    (hsame : ∀ i : Nat, i < l.length → m' (off + i) = m (off + i)) : At m' off l :=
  (bytes_congr hsame).trans h

theorem At.store {l l' : List UInt8} {off' : Int} (h : At m off l)
    (hapart : off + l.length ≤ off' ∨ off' + l'.length ≤ off) : At (store m off' l') off l :=
  h.congr fun i hi => store_outside (by omega)

theorem At.store16 {l : List UInt8} {off' : Int} {v : UInt16} (h : At m off l)
    (hapart : off + l.length ≤ off' ∨ off' + 2 ≤ off) : At (store16 m off' v) off l :=
  h.congr fun i hi => store16_outside v (by omega)

theorem at_append (l l' : List UInt8) :
    At m off (l ++ l') ↔ At m off l ∧ At m (off + l.length) l' := by
  unfold At
  rw [List.length_append, bytes_add]
  constructor
  · intro h
    exact List.append_inj h (bytes_length _ _ _)
  · rintro ⟨h, h'⟩
    rw [h, h']

theorem at_cons (b : UInt8) (l : List UInt8) :
    At m off (b :: l) ↔ m off = b ∧ At m (off + 1) l := by
  have hone : At m off [b] ↔ m off = b := by
    simp [At, Wire.bytes]
  rw [← List.singleton_append, at_append, hone]
  rfl

/-- A piece of what is copied. -/
theorem At.copied {l : List UInt8} {k n : Nat} (h : At m (off + k) l) (hk : k + l.length ≤ n)
    (out : Mem) (off' : Int) : At (Octets.store out off' (Wire.bytes m off n)) (off' + k) l := by
  have hsplit : n = k + (l.length + (n - (k + l.length))) := by omega
  have hall := at_store out off' (Wire.bytes m off n)
  conv at hall => arg 3; rw [hsplit, bytes_add, bytes_add, h]
  rw [at_append, at_append, bytes_length] at hall
  exact hall.2.1

theorem at_store16 (m : Mem) (off : Int) (v : UInt16) : At (store16 m off v) off (raw16 v) := by
  have hv := v.toNat_lt
  have hlow : UInt8.ofNat (v.toNat % 256) = v.toUInt8 := by
    apply UInt8.toNat_inj.mp
    rw [UInt8.toNat_ofNat', UInt16.toNat_toUInt8]
    omega
  have hhigh : UInt8.ofNat (v.toNat / 256) = (v >>> 8).toUInt8 := by
    apply UInt8.toNat_inj.mp
    rw [UInt8.toNat_ofNat', UInt16.toNat_toUInt8, UInt16.toNat_shiftRight]
    show _ = v.toNat >>> 8 % 2 ^ 8
    rw [Nat.shiftRight_eq_div_pow]
  unfold raw16
  rw [at_cons, at_cons]
  refine ⟨?_, ?_, rfl⟩
  · rw [← hlow]
    simp [Wire.store16]
  · rw [← hhigh]
    simp [Wire.store16]

/-- A number in network order is read as it was written. -/
theorem At.be16 {x : UInt16} (h : At m off (net16 x)) : be16 m off = x.toNat := by
  have hx := x.toNat_lt
  obtain ⟨h₀, h₁⟩ := (at_cons _ _).mp h
  obtain ⟨h₁, -⟩ := (at_cons _ _).mp h₁
  have hhigh : (x >>> 8).toUInt8.toNat = x.toNat / 256 := by
    rw [UInt16.toNat_toUInt8, UInt16.toNat_shiftRight]
    show x.toNat >>> 8 % 2 ^ 8 = _
    rw [Nat.shiftRight_eq_div_pow]
    omega
  unfold Wire.be16
  rw [h₀, h₁, hhigh, UInt16.toNat_toUInt8]
  omega

theorem At.le16 {x : UInt16} (h : At m off (raw16 x)) : UInt16.ofNat (le16 m off) = x := by
  have hx := x.toNat_lt
  obtain ⟨h₀, h₁⟩ := (at_cons _ _).mp h
  obtain ⟨h₁, -⟩ := (at_cons _ _).mp h₁
  have hhigh : (x >>> 8).toUInt8.toNat = x.toNat / 256 := by
    rw [UInt16.toNat_toUInt8, UInt16.toNat_shiftRight]
    show x.toNat >>> 8 % 2 ^ 8 = _
    rw [Nat.shiftRight_eq_div_pow]
    omega
  apply UInt16.toNat_inj.mp
  unfold Wire.le16
  rw [h₀, h₁, hhigh, UInt16.toNat_toUInt8, UInt16.toNat_ofNat']
  omega

theorem At.le32 {x : UInt32} (h : At m off (bytes32 x)) : le32 m off = x := by
  have hb : bytes32 (Wire.le32 m off) = bytes32 x := (bytes32_le32 m off).trans h
  rw [← read32_bytes32 (Wire.le32 m off), hb, read32_bytes32]

theorem be32_eq (x : UInt32) :
    be32 x = net16 (x >>> 16).toUInt16 ++ net16 x.toUInt16 := by
  have hbits : ∀ y : UInt32, ((y >>> 16).toUInt16 >>> 8).toUInt8 = (y >>> 24).toUInt8 ∧
      (y >>> 16).toUInt16.toUInt8 = (y >>> 16).toUInt8 ∧
      (y.toUInt16 >>> 8).toUInt8 = (y >>> 8).toUInt8 ∧ y.toUInt16.toUInt8 = y.toUInt8 := by
    intro y
    refine ⟨?_, ?_, ?_, ?_⟩
    all_goals apply UInt8.toNat_inj.mp
    all_goals simp [Nat.shiftRight_eq_div_pow]
    all_goals omega
  obtain ⟨h₀, h₁, h₂, h₃⟩ := hbits x
  simp only [be32, net16, h₀, h₁, h₂, h₃, List.cons_append, List.nil_append]

theorem At.be32 {x : UInt32} (h : At m off (be32 x)) : be32_at m off = x := by
  have hx := x.toNat_lt
  rw [be32_eq, at_append] at h
  have hhigh := h.1.be16
  have hlow : Wire.be16 m (off + 2) = x.toUInt16.toNat := h.2.be16
  unfold be32_at
  rw [hhigh, hlow]
  apply UInt32.toNat_inj.mp
  have hshift : (x >>> 16).toUInt16.toNat = x.toNat / 65536 := by
    rw [UInt32.toNat_toUInt16, high16_toNat]
    omega
  rw [UInt32.toNat_ofNat', hshift, UInt32.toNat_toUInt16]
  omega

/-! ## Section 2: The checksum of an IP header -/

/-- The sum of the words in `n` double words. -/
def ip_sum (m : Mem) (off : Int) (n : Nat) : Nat := (words little (bytes m off (4 * n))).sum

theorem ip_sum_succ (m : Mem) (off : Int) (n : Nat) :
    ip_sum m off (n + 1) = le16 m off + le16 m (off + 2) + ip_sum m (off + 4) n := by
  have hsplit : 4 * (n + 1) = 2 + (2 + 4 * n) := by omega
  have hoff : off + (2 : Nat) + (2 : Nat) = off + 4 := by omega
  unfold ip_sum
  rw [hsplit, bytes_add, bytes_add, words_append _ _ _ (by simp), words_append _ _ _ (by simp),
    List.sum_append, List.sum_append, bytes_two, bytes_two, words_two_little, words_two_little,
    hoff]
  simp [Wire.le16, add_assoc]

theorem le16_lt (m : Mem) (off : Int) : le16 m off < 65536 := by
  have h₀ := (m off).toNat_lt
  have h₁ := (m (off + 1)).toNat_lt
  unfold Wire.le16
  omega

theorem fold_le32 (m : Mem) (off : Int) :
    fold (le32 m off).toNat = fold (le16 m off + le16 m (off + 2)) := by
  have h₀ := le16_lt m off
  have h₁ := le16_lt m (off + 2)
  have hnat : (le32 m off).toNat = le16 m off + 65536 * le16 m (off + 2) := by
    unfold Wire.le32
    rw [UInt32.toNat_ofNat']
    omega
  rw [hnat, fold_halves]

/-- A register and its carry stand for the sum of the words so far, and the carry
    can still be put back in. -/
structure Carried (sum : Nat) (s : UInt32 × Nat) : Prop where
  carry : s.2 ≤ 1
  room : s.2 = 1 → s.1.toNat + 1 < 2 ^ 32
  fold : fold (s.1.toNat + s.2) = fold sum

variable {sum : Nat} {s : UInt32 × Nat}

/-- `adcl`. -/
theorem Carried.adc (h : Carried sum s) {d : UInt32} {w : Nat}
    (hd : OnesComp.fold d.toNat = OnesComp.fold w) : Carried (sum + w) (adc s d) := by
  have hcarry := h.carry
  have hroom := h.room
  have hs := s.1.toNat_lt
  have hlt := d.toNat_lt
  have hlow : (Wire.adc s d).1.toNat = (s.1.toNat + d.toNat + s.2) % 2 ^ 32 :=
    UInt32.toNat_ofNat'
  have hhigh : (Wire.adc s d).2 = (s.1.toNat + d.toNat + s.2) / 2 ^ 32 := rfl
  refine ⟨?_, ?_, ?_⟩
  · omega
  · intro hone
    omega
  · rw [hlow, hhigh, fold_carry32, add_right_comm]
    exact fold_add h.fold hd

theorem Carried.load (h : Carried sum s) (m : Mem) (off : Int) :
    Carried (sum + (le16 m off + le16 m (off + 2))) (Wire.adc s (le32 m off)) :=
  h.adc (fold_le32 m off)

theorem csum_loop_carried (m : Mem) (n : Nat) (iph : Int) (sum : Nat) (s : UInt32 × Nat)
    (h : Carried sum s) : Carried (sum + ip_sum m (iph + 16) n) (csum_loop m n iph s) := by
  induction n generalizing iph sum s with
  | zero => exact h
  | succ n ih =>
    have hnext := ih (iph + 4) _ _ (h.load m (iph + 16))
    rw [show iph + 4 + 16 = iph + 16 + 4 by omega, add_assoc, ← ip_sum_succ] at hnext
    exact hnext

/-- `ip_fast_csum` is the complement of the one's-complement sum of the header. -/
theorem ip_fast_csum_eq (m : Mem) (iph : Int) {ihl : Nat} (h : 5 ≤ ihl) :
    ip_fast_csum m iph ihl = 65535 - OnesComp.fold (ip_sum m iph ihl) := by
  -- the register before the last carry is put back in
  obtain ⟨n, rfl⟩ : ∃ n, ihl = n + 1 + 1 + 1 + 1 := ⟨ihl - 4, by omega⟩
  have hfirst : Carried (le16 m iph + le16 m (iph + 2)) (le32 m iph, 0) :=
    ⟨Nat.zero_le 1, fun h => absurd h Nat.zero_ne_one, fold_le32 m iph⟩
  have hloop := csum_loop_carried m n iph _ _
    (((hfirst.load m (iph + 4)).load m (iph + 8)).load m (iph + 12))
  have hsum : ip_sum m iph (n + 1 + 1 + 1 + 1) = le16 m iph + le16 m (iph + 2) +
      (le16 m (iph + 4) + le16 m (iph + 4 + 2)) + (le16 m (iph + 8) + le16 m (iph + 8 + 2)) +
      (le16 m (iph + 12) + le16 m (iph + 12 + 2)) + ip_sum m (iph + 16) n := by
    rw [ip_sum_succ, ip_sum_succ, ip_sum_succ, ip_sum_succ,
      show iph + 4 + 4 + 4 + 4 = iph + 16 by omega, show iph + 4 + 4 + 4 = iph + 12 by omega,
      show iph + 4 + 4 = iph + 8 by omega]
    simp only [add_assoc]
  rw [← hsum] at hloop
  unfold ip_fast_csum
  rw [if_neg (by omega), show n + 1 + 1 + 1 + 1 - 4 = n by omega]
  simp only
  generalize hreg : csum_loop m n iph _ = s at hloop ⊢
  -- no carry is lost
  have hcarry := hloop.carry
  have hroom := hloop.room
  have hs := s.1.toNat_lt
  have hlast : (Wire.adc s 0).1.toNat = s.1.toNat + s.2 := by
    show (UInt32.ofNat (s.1.toNat + 0 + s.2)).toNat = _
    rw [UInt32.toNat_ofNat']
    omega
  obtain ⟨hle, honce⟩ := fold_once (n := s.1.toNat + s.2) (by omega)
  have htwice := fold_twice hle
  rw [honce, hloop.fold] at htwice
  rw [hlast, ← htwice]
  omega

/-- A word is replaced by another. -/
def Altered (m m' : Mem) (off : Int) : Prop := ∀ i, i < off ∨ off + 2 ≤ i → m' i = m i

/-- The words around an even distance. -/
theorem sum_around (m : Mem) (buf : Int) {k len : Nat} (hk : 2 * k + 2 ≤ len) :
    (words little (bytes m buf len)).sum
      = (words little (bytes m buf (2 * k))).sum + le16 m (buf + (2 * k : Nat))
        + (words little (bytes m (buf + (2 * k + 2 : Nat)) (len - (2 * k + 2)))).sum := by
  have hlen : len = 2 * k + 2 + (len - (2 * k + 2)) := by omega
  conv_lhs => rw [hlen, bytes_add, bytes_add, words_append _ _ _ (by simp),
    words_append _ _ _ (by simp)]
  rw [List.sum_append, List.sum_append, bytes_two, words_two_little, List.sum_singleton,
    ← Wire.le16, Nat.cast_add, ← add_assoc]

/-- Only the word itself makes a difference to the sum. -/
theorem Altered.sums {m' : Mem} {buf : Int} {k len : Nat}
    (h : Altered m m' (buf + (2 * k : Nat))) (hk : 2 * k + 2 ≤ len) :
    ∃ n, (words little (bytes m buf len)).sum = n + le16 m (buf + (2 * k : Nat)) ∧
      (words little (bytes m' buf len)).sum = n + le16 m' (buf + (2 * k : Nat)) := by
  refine ⟨(words little (bytes m buf (2 * k))).sum +
    (words little (bytes m (buf + (2 * k + 2 : Nat)) (len - (2 * k + 2)))).sum, ?_, ?_⟩
  · rw [sum_around m buf hk]
    omega
  · have hfront : bytes m' buf (2 * k) = bytes m buf (2 * k) :=
      bytes_congr fun i hi => h _ (by omega)
    have hback : bytes m' (buf + (2 * k + 2 : Nat)) (len - (2 * k + 2))
        = bytes m (buf + (2 * k + 2 : Nat)) (len - (2 * k + 2)) :=
      bytes_congr fun i _ => h _ (by omega)
    rw [sum_around m' buf hk, hfront, hback]
    omega

/-- Two words that are not equal, though both count as zero. -/
def BothZero (w w' : Nat) : Prop := w = 0 ∧ w' = 65535 ∨ w = 65535 ∧ w' = 0

theorem ip_fast_csum_zero (m : Mem) (iph : Int) {ihl : Nat} (h : 5 ≤ ihl) :
    ip_fast_csum m iph ihl = 0 ↔ OnesComp.fold (ip_sum m iph ihl) = 65535 := by
  have hle := fold_le (ip_sum m iph ihl)
  rw [ip_fast_csum_eq m iph h]
  omega

/-- A header in which one word has been altered is refused. -/
theorem ip_altered {m' : Mem} {iph : Int} {ihl k : Nat} (hihl : 5 ≤ ihl) (hk : k < 2 * ihl)
    (h : Altered m m' (iph + (2 * k : Nat))) (hok : ip_fast_csum m iph ihl = 0)
    (hok' : ip_fast_csum m' iph ihl = 0) :
    le16 m (iph + (2 * k : Nat)) = le16 m' (iph + (2 * k : Nat)) ∨
      BothZero (le16 m (iph + (2 * k : Nat))) (le16 m' (iph + (2 * k : Nat))) := by
  obtain ⟨n, hsum, hsum'⟩ := @Altered.sums m m' iph k (4 * ihl) h (by omega)
  rw [ip_fast_csum_zero _ _ hihl, ip_sum, hsum] at hok
  rw [ip_fast_csum_zero _ _ hihl, ip_sum, hsum'] at hok'
  exact fold_complete (le16_lt _ _) (le16_lt _ _) hok hok'

/-- So is a segment. -/
theorem tcp_altered {m' : Mem} {tcph : Int} {len : UInt16} {k : Nat} {saddr daddr : UInt32}
    (hk : 2 * k + 2 ≤ len.toNat) (h : Altered m m' (tcph + (2 * k : Nat)))
    (hok : tcp_cksum m tcph len saddr daddr = 0) (hok' : tcp_cksum m' tcph len saddr daddr = 0) :
    le16 m (tcph + (2 * k : Nat)) = le16 m' (tcph + (2 * k : Nat)) ∨
      BothZero (le16 m (tcph + (2 * k : Nat))) (le16 m' (tcph + (2 * k : Nat))) := by
  have hzero : ∀ m : Mem, tcp_cksum m tcph len saddr daddr = 0 →
      OnesComp.fold ((words little (pseudo_header IPPROTO_TCP len saddr daddr)).sum +
        (words little (bytes m tcph len.toNat)).sum) = 65535 := by
    intro m hm
    have hle := fold_le (pseudo_total IPPROTO_TCP m tcph len saddr daddr)
    have htotal := pseudo_cksum_toNat IPPROTO_TCP m tcph len saddr daddr
    unfold tcp_cksum at hm
    rw [hm, UInt16.toNat_zero] at htotal
    rw [← List.sum_append, ← words_append _ _ _ (by simp)]
    exact (show OnesComp.fold (pseudo_total IPPROTO_TCP m tcph len saddr daddr) = 65535 by omega)
  obtain ⟨n, hsum, hsum'⟩ := Altered.sums h hk
  have hok := hzero m hok
  have hok' := hzero m' hok'
  rw [hsum, ← add_assoc] at hok
  rw [hsum', ← add_assoc] at hok'
  exact fold_complete (le16_lt _ _) (le16_lt _ _) hok hok'

/-! ## Section 3: Output -/

/-- `htons`. -/
def htons (x : UInt16) : UInt16 := x <<< 8 ||| x >>> 8

/-- `usnet_eth_output_nm`, where `type` is in network order. -/
def usnet_eth_output_nm (m : Mem) (hwa haddr : Arp.Hwaddr) (type : UInt16) : Mem :=
  store m 0 (haddr.toList ++ hwa.toList ++ raw16 type)

/-- What the two output functions of `ip.c` fill in differently; `ip_id` is in
    network order. -/
structure UsnIphdr where
  ip_len : UInt16
  ip_id : UInt16
  ip_off : UInt16
  ip_ttl : UInt8
  ip_p : UInt8
  ip_src : UInt32
  ip_dst : UInt32

/-- The header before and behind its checksum. -/
def UsnIphdr.front (h : UsnIphdr) : List UInt8 :=
  [0x45, 0] ++ net16 h.ip_len ++ raw16 h.ip_id ++ net16 h.ip_off ++ [h.ip_ttl, h.ip_p]

def UsnIphdr.back (h : UsnIphdr) : List UInt8 := bytes32 h.ip_src ++ bytes32 h.ip_dst

/-- The header is filled in, its checksum last. -/
def write_iphdr (m : Mem) (h : UsnIphdr) : Mem :=
  let m := store (store m 14 h.front) 26 h.back
  let m := store16 m 24 0
  store16 m 24 (UInt16.ofNat (ip_fast_csum m 14 (IP_HEADER_LEN / 4)))

/-- `usnet_ipv4_output_alone`, for an address that is known. -/
def usnet_ipv4_output_alone (m : Mem) (hwa haddr : Arp.Hwaddr) (ip_id : UInt16) (proto : UInt8)
    (saddr daddr : UInt32) (len : Nat) : Mem :=
  write_iphdr (usnet_eth_output_nm m hwa haddr (htons 0x0800))
    { ip_len := UInt16.ofNat (len + IP_HEADER_LEN), ip_id := ip_id, ip_off := 0, ip_ttl := 255
      ip_p := proto, ip_src := saddr, ip_dst := daddr }

/-- `usnet_ipv4_output`, for an address that is known. -/
def usnet_ipv4_output (m : Mem) (hwa haddr : Arp.Hwaddr) (ip_id : UInt16)
    (saddr daddr : UInt32) (iplen : UInt16) : Mem :=
  write_iphdr (usnet_eth_output_nm m hwa haddr (htons 0x0800))
    { ip_len := UInt16.ofNat (IP_HEADER_LEN + iplen.toNat), ip_id := htons ip_id
      ip_off := 0x4000, ip_ttl := 64, ip_p := IPPROTO_TCP, ip_src := saddr, ip_dst := daddr }

/-- The TCP header before its checksum. -/
def tcp_front (f : Frame) : List UInt8 :=
  let optlen := (usnet_get_tcpopt_length f.flags).toNat
  raw16 f.sport ++ raw16 f.dport ++ be32 f.seq ++ be32 f.ack ++
    [UInt8.ofNat ((TCP_HEADER_LEN + optlen) / 4 % 16 * 16), f.flags] ++ net16 f.window

/-- The segment is filled in behind the IP header, its checksum last. -/
def write_segment (m : Mem) (f : Frame) : Mem :=
  let optlen := (usnet_get_tcpopt_length f.flags).toNat
  let m := store m 34 (List.replicate (TCP_HEADER_LEN + optlen) 0)
  let m := store m 34 (tcp_front f)
  let m := store m 54 f.opts
  let m := store m (54 + optlen) f.payload
  store16 m (th_sum 34) (tcp_cksum m 34
    (UInt16.ofNat (TCP_HEADER_LEN + optlen + f.payload.length)) f.saddr f.daddr)

/-- `usnet_send_tcp_packet_alone`, by the frame it assembles. -/
def usnet_send_tcp_packet_alone (m : Mem) (hwa haddr : Arp.Hwaddr) (f : Frame) : Mem :=
  let optlen := (usnet_get_tcpopt_length f.flags).toNat
  write_segment (usnet_ipv4_output_alone m hwa haddr 0 IPPROTO_TCP f.saddr f.daddr
    (TCP_HEADER_LEN + optlen + f.payload.length)) f

/-- `usnet_send_tcp_packet`. -/
def usnet_send_tcp_packet (m : Mem) (hwa haddr : Arp.Hwaddr) (ip_id : UInt16) (f : Frame) : Mem :=
  let optlen := (usnet_get_tcpopt_length f.flags).toNat
  write_segment (usnet_ipv4_output m hwa haddr ip_id f.saddr f.daddr
    (UInt16.ofNat (TCP_HEADER_LEN + optlen + f.payload.length))) f

/-! ## Section 4: Input -/

/-- The segment `usnet_tcp_input` finds, or what it returns for a bad one. -/
def usnet_tcp_input (m : Mem) (iph : Int) (hl iplen : Nat) (trailer : List UInt8)
    (hiplen : iplen < 2 ^ 16) : Except Int Segment :=
  let tcph := iph + hl
  let th_off := (m (tcph + 12)).toNat / 16
  if iplen < hl + 4 * th_off then .error (-1)
  else if tcp_cksum m tcph (tcp_len m iph hl iplen) (le32 m (iph + 12)) (le32 m (iph + 16)) ≠ 0
    then .error (-2)
  else
    .ok
      { ip_src := le32 m (iph + 12)
        ip_dst := le32 m (iph + 16)
        th_sport := UInt16.ofNat (le16 m tcph)
        th_dport := UInt16.ofNat (le16 m (tcph + 2))
        seq := be32_at m (tcph + 4)
        ack_seq := be32_at m (tcph + 8)
        flags := m (tcph + 13)
        window := UInt16.ofNat (be16 m (tcph + 14))
        opts := bytes m (tcph + 20) (4 * th_off - 20)
        payload := bytes m (tcph + 4 * th_off) (iplen - (hl + 4 * th_off))
        trailer := trailer
        short := by
          rw [bytes_length]
          omega }

/-- The segment `usnet_eth_input` leads to; a negative length of the IP header is
    left out, for which `ip_fast_csum` reads sixteen gigabytes. -/
def usnet_eth_input (m : Mem) (trailer : List UInt8) : Option Segment :=
  if be16 m 12 ≠ 0x0800 then none
  else if be16 m 16 < IP_HEADER_LEN then none
  else if ip_hl m < 0 then none
  else if ip_fast_csum m 14 (ip_hl m).toNat ≠ 0 then none
  else if (m 14).toNat / 16 ≠ 4 then none
  else if m 23 ≠ IPPROTO_TCP then none
  else (usnet_tcp_input m 14 (4 * ip_hl m).toNat (be16 m 16) trailer (be16_lt m 16)).toOption

/-- A frame as the segment the other side should find. -/
def segment_of (f : Frame) (trailer : List UInt8) (h : f.payload.length < 2 ^ 16) : Segment :=
  { ip_src := f.saddr, ip_dst := f.daddr, th_sport := f.sport, th_dport := f.dport
    seq := f.seq, ack_seq := f.ack, flags := f.flags, window := f.window
    opts := f.opts, payload := f.payload, trailer := trailer, short := h }

/-! ## Section 5: The headers are read back -/

theorem store16_store16 (m : Mem) (off : Int) (v w : UInt16) :
    store16 (store16 m off v) off w = store16 m off w := by
  funext i
  by_cases h₀ : i = off
  · subst h₀
    simp [store16]
  · by_cases h₁ : i = off + 1
    · subst h₁
      simp [store16]
    · rw [store16_outside _ (by omega), store16_outside _ (by omega), store16_outside _ (by omega)]

/-- A field that is zero already. -/
theorem store16_zero (h : At m off [0, 0]) : store16 m off 0 = m := by
  obtain ⟨h₀, h₁⟩ := (at_cons _ _).mp h
  obtain ⟨h₁, -⟩ := (at_cons _ _).mp h₁
  funext i
  by_cases hi : i = off
  · subst hi
    rw [h₀]
    simp [store16]
  · by_cases hi' : i = off + 1
    · subst hi'
      rw [h₁]
      simp [store16]
    · exact store16_outside _ (by omega)

/-- A header with its checksum stored passes the check. -/
theorem ip_cksum_of_stored (m : Mem) (iph : Int) {ihl : Nat} (hihl : 5 ≤ ihl)
    (hfirst : 0 < (m iph).toNat) :
    ip_fast_csum (store16 m (iph + (10 : Nat))
      (UInt16.ofNat (ip_fast_csum (store16 m (iph + (10 : Nat)) 0) iph ihl))) iph ihl = 0 := by
  have hstore := fun v => @sum_store16 m iph 5 (4 * ihl) v (by omega)
  have hsum : ∀ v : UInt16, ip_sum (store16 m (iph + (10 : Nat)) v) iph ihl
      = ip_sum (store16 m (iph + (10 : Nat)) 0) iph ihl + v.toNat := by
    intro v
    unfold ip_sum
    rw [hstore v, hstore 0, UInt16.toNat_zero]
    omega
  have hpos : 0 < ip_sum (store16 m (iph + (10 : Nat)) 0) iph ihl := by
    obtain ⟨n, rfl⟩ : ∃ n, ihl = n + 1 := ⟨ihl - 1, by omega⟩
    rw [ip_sum_succ]
    unfold Wire.le16
    rw [store16_outside (i := iph) 0 (.inl (by omega))]
    omega
  have hle := fold_le (ip_sum (store16 m (iph + (10 : Nat)) 0) iph ihl)
  rw [ip_fast_csum_eq _ _ hihl, ip_fast_csum_eq _ _ hihl, hsum, UInt16.toNat_ofNat',
    Nat.mod_eq_of_lt (by omega), fold_complement _ hpos]

/-- What is stored from `off` on leaves everything else as it was. -/
structure Behind (m m' : Mem) (off : Int) : Prop where
  before : ∀ i < off, m' i = m i

theorem Behind.at {m' : Mem} {off' : Int} {l : List UInt8} (h : Behind m m' off')
    (hl : At m off l) (hbefore : off + l.length ≤ off') : At m' off l :=
  hl.congr fun _ _ => h.before _ (by omega)

@[simp] theorem front_length (h : UsnIphdr) : h.front.length = 10 := rfl

@[simp] theorem back_length (h : UsnIphdr) : h.back.length = 8 := rfl

/-- The IP header is there, and its checksum is right. -/
theorem write_iphdr_at (m : Mem) (h : UsnIphdr) :
    Behind m (write_iphdr m h) 14 ∧ At (write_iphdr m h) 14 h.front ∧
    At (write_iphdr m h) 26 h.back ∧ ip_fast_csum (write_iphdr m h) 14 5 = 0 := by
  have hfront : At (store (store m 14 h.front) 26 h.back) 14 h.front :=
    (at_store m 14 h.front).store (.inl (by simp))
  have hback := at_store (store m 14 h.front) 26 h.back
  have hfirst : 0 < (store (store m 14 h.front) 26 h.back 14).toNat := by
    rw [((at_cons _ _).mp hfront).1]
    decide
  refine ⟨⟨?_⟩, (hfront.store16 (.inl (by simp))).store16 (.inl (by simp)), ?_, ?_⟩
  · intro i hi
    unfold write_iphdr
    rw [store16_outside _ (by omega), store16_outside _ (by omega), store_outside (by omega),
      store_outside (by omega)]
  · exact (hback.store16 (.inr (by decide))).store16 (.inr (by decide))
  · unfold write_iphdr
    rw [store16_store16]
    exact ip_cksum_of_stored _ 14 (by decide) hfirst

theorem usnet_eth_output_nm_type (m : Mem) (hwa haddr : Arp.Hwaddr) :
    be16 (usnet_eth_output_nm m hwa haddr (htons 0x0800)) 12 = 0x0800 := by
  have h := at_store m 0 (haddr.toList ++ hwa.toList ++ raw16 (htons 0x0800))
  obtain ⟨-, htype⟩ := (at_append _ _).mp h
  have hlen : (0 : Int) + (haddr.toList ++ hwa.toList).length = 12 := by simp
  rw [hlen] at htype
  exact htype.be16 (x := 0x0800)

/-- The headers stay as they are when what follows is written. -/
theorem Behind.headers {m' : Mem} {hwa haddr : Arp.Hwaddr} {h : UsnIphdr}
    (hkeep : Behind (write_iphdr (usnet_eth_output_nm m hwa haddr (htons 0x0800)) h) m' 34) :
    be16 m' 12 = 0x0800 ∧ At m' 14 h.front ∧ At m' 26 h.back ∧ ip_fast_csum m' 14 5 = 0 := by
  have htype := usnet_eth_output_nm_type m hwa haddr
  generalize usnet_eth_output_nm m hwa haddr (htons 0x0800) = m₁ at hkeep htype
  obtain ⟨hkeep₁, hfront, hback, hsum⟩ := write_iphdr_at m₁ h
  generalize write_iphdr m₁ h = m₂ at hkeep hkeep₁ hfront hback hsum
  refine ⟨?_, hkeep.at hfront (by simp), hkeep.at hback (by simp), ?_⟩
  · unfold Wire.be16 at htype ⊢
    rw [hkeep.before 12 (by decide), hkeep.before (12 + 1) (by decide),
      hkeep₁.before 12 (by decide), hkeep₁.before (12 + 1) (by decide), htype]
  · have hbytes : Wire.bytes m' 14 (4 * 5) = Wire.bytes m₂ 14 (4 * 5) :=
      bytes_congr fun i hi => hkeep.before _ (by omega)
    rw [ip_fast_csum_eq m₂ 14 le_rfl] at hsum
    rw [ip_fast_csum_eq m' 14 le_rfl, ip_sum, hbytes]
    exact hsum

/-- Where the parts of a segment are found. -/
structure SegmentAt (m : Mem) (f : Frame) : Prop where
  front : At m 34 (tcp_front f)
  opts : At m 54 f.opts
  payload : At m (54 + f.opts.length) f.payload
  cksum : tcp_cksum m 34 (UInt16.ofNat (TCP_HEADER_LEN + f.opts.length + f.payload.length))
    f.saddr f.daddr = 0

@[simp] theorem tcp_front_length (f : Frame) : (tcp_front f).length = 16 := rfl

/-- The segment is there, and its checksum is right. -/
theorem write_segment_at (m : Mem) {f : Frame}
    (hopts : f.opts.length = (usnet_get_tcpopt_length f.flags).toNat)
    (hlen : TCP_HEADER_LEN + f.opts.length + f.payload.length < 2 ^ 16) :
    Behind m (write_segment m f) 34 ∧ SegmentAt (write_segment m f) f := by
  have hhead : TCP_HEADER_LEN = 20 := rfl
  unfold write_segment
  simp only [← hopts]
  generalize hcleared : store m 34 (List.replicate (TCP_HEADER_LEN + f.opts.length) 0) = m₁
  have hclear : At m₁ 34 (List.replicate (TCP_HEADER_LEN + f.opts.length) 0) :=
    hcleared ▸ at_store m 34 _
  -- the checksum field is zero until it is stored
  have hempty : At m₁ 50 [0, 0] := by
    rw [show TCP_HEADER_LEN + f.opts.length = 16 + (2 + (2 + f.opts.length)) by omega,
      List.replicate_add, List.replicate_add, at_append, at_append] at hclear
    exact hclear.2.1
  have hzero : At (store (store (store m₁ 34 (tcp_front f)) 54 f.opts) (54 + f.opts.length)
      f.payload) 50 [0, 0] :=
    ((hempty.store (.inr (by simp))).store (.inl (by simp))).store (.inl (by simp; omega))
  have hfront : At (store (store (store m₁ 34 (tcp_front f)) 54 f.opts) (54 + f.opts.length)
      f.payload) 34 (tcp_front f) :=
    ((at_store m₁ 34 _).store (.inl (by simp))).store (.inl (by simp; omega))
  have hop : At (store (store (store m₁ 34 (tcp_front f)) 54 f.opts) (54 + f.opts.length)
      f.payload) 54 f.opts := (at_store _ 54 _).store (.inl le_rfl)
  have hpay := at_store (store (store m₁ 34 (tcp_front f)) 54 f.opts) (54 + f.opts.length) f.payload
  have hbefore : ∀ i < 34, store (store (store m₁ 34 (tcp_front f)) 54 f.opts)
      (54 + f.opts.length) f.payload i = m i := by
    intro i hi
    rw [store_outside (by omega), store_outside (by omega), store_outside (by omega), ← hcleared,
      store_outside (by omega)]
  have hcksum := @cksum_of_stored IPPROTO_TCP (by decide)
    (store (store (store m₁ 34 (tcp_front f)) 54 f.opts) (54 + f.opts.length) f.payload) 34
    (UInt16.ofNat (TCP_HEADER_LEN + f.opts.length + f.payload.length)) f.saddr f.daddr
    (by rw [UInt16.toNat_ofNat', Nat.mod_eq_of_lt hlen]; omega)
  have hsum : th_sum 34 = 50 := rfl
  rw [hsum, store16_zero hzero] at hcksum
  rw [hsum]
  refine ⟨⟨?_⟩, ?_, ?_, ?_, hcksum⟩
  · intro i hi
    rw [store16_outside _ (by omega)]
    exact hbefore i hi
  · exact hfront.store16 (.inl (by simp))
  · exact hop.store16 (.inr (by decide))
  · exact hpay.store16 (.inr (by omega))

/-- The fields of an IP header that is in memory. -/
theorem front_fields {h : UsnIphdr} (hat : At m 14 h.front) :
    (m 14).toNat = 0x45 ∧ be16 m 16 = h.ip_len.toNat ∧ m 23 = h.ip_p := by
  simp only [UsnIphdr.front, at_append, at_cons] at hat
  obtain ⟨⟨⟨⟨⟨hv, -⟩, hlen⟩, -⟩, -⟩, -, hp, -⟩ := hat
  exact ⟨by rw [hv]; rfl, hlen.be16, hp⟩

theorem front_words {h : UsnIphdr} (hat : At m 14 h.front) : ip_hl m = 5 := by
  unfold ip_hl ETH_HEADER_LEN
  rw [show ((14 : Nat) : Int) = 14 from rfl, (front_fields hat).1]
  rfl

theorem back_fields {h : UsnIphdr} (hat : At m 26 h.back) :
    le32 m 26 = h.ip_src ∧ le32 m 30 = h.ip_dst := by
  obtain ⟨hsrc, hdst⟩ := (at_append _ _).mp hat
  exact ⟨hsrc.le32, hdst.le32⟩

/-- The fields of a TCP header that is in memory. -/
theorem tcp_fields {f : Frame} (hat : At m 34 (tcp_front f)) :
    UInt16.ofNat (le16 m 34) = f.sport ∧ UInt16.ofNat (le16 m 36) = f.dport ∧
    be32_at m 38 = f.seq ∧ be32_at m 42 = f.ack ∧
    m 46 = UInt8.ofNat
      ((TCP_HEADER_LEN + (usnet_get_tcpopt_length f.flags).toNat) / 4 % 16 * 16) ∧
    m 47 = f.flags ∧ UInt16.ofNat (be16 m 48) = f.window := by
  simp only [tcp_front, at_append, at_cons] at hat
  obtain ⟨⟨⟨⟨⟨hsport, hdport⟩, hseq⟩, hack⟩, hoff, hflags, -⟩, hwin⟩ := hat
  refine ⟨hsport.le16, hdport.le16, hseq.be32, hack.be32, hoff, hflags, ?_⟩
  have hwin : be16 m 48 = f.window.toNat := hwin.be16
  rw [hwin]
  exact UInt16.ofNat_toNat

/-- The data offset is that of the options the flags call for. -/
theorem data_offset (flags : UInt8) :
    (UInt8.ofNat ((TCP_HEADER_LEN + (usnet_get_tcpopt_length flags).toNat) / 4 % 16 * 16)).toNat
      / 16 * 4 = TCP_HEADER_LEN + (usnet_get_tcpopt_length flags).toNat := by
  unfold usnet_get_tcpopt_length
  split
  · rfl
  · split <;> rfl

section
variable {h : UsnIphdr} {f : Frame} {trailer : List UInt8}
  (hopts : f.opts.length = (usnet_get_tcpopt_length f.flags).toNat)
include hopts

/-- The segment is found behind a header of five words. -/
theorem usnet_tcp_input_of_at (hlen : TCP_HEADER_LEN + f.opts.length + f.payload.length < 2 ^ 16)
    (hback : le32 m 26 = f.saddr ∧ le32 m 30 = f.daddr) (hat : SegmentAt m f) {iplen : Nat}
    (hiplen : iplen < 2 ^ 16)
    (heq : iplen = IP_HEADER_LEN + TCP_HEADER_LEN + f.opts.length + f.payload.length) :
    usnet_tcp_input m 14 20 iplen trailer hiplen
      = .ok (segment_of f trailer (by rw [heq] at hiplen; omega)) := by
  obtain ⟨hsrc, hdst⟩ := hback
  obtain ⟨hsport, hdport, hseq, hack, hoff, hflags, hwin⟩ := tcp_fields hat.front
  have hhead : TCP_HEADER_LEN = 20 := rfl
  have hip : IP_HEADER_LEN = 20 := rfl
  have hth : 4 * ((m 46).toNat / 16) = 20 + f.opts.length := by
    rw [hoff, Nat.mul_comm, data_offset, hopts, hhead]
  -- the places the code computes
  have hport : (14 : Int) + (20 : Nat) = 34 := rfl
  have hbody : (34 : Int) + 4 * ((m 46).toNat / 16 : Nat) = 54 + f.opts.length := by omega
  have htcplen : tcp_len m 14 (20 : Nat) iplen
      = UInt16.ofNat (TCP_HEADER_LEN + f.opts.length + f.payload.length) := by
    apply tcp_len_toNat
    rw [UInt16.toNat_ofNat', Nat.mod_eq_of_lt hlen]
    omega
  have hpaylen : iplen - (20 + 4 * ((m 46).toNat / 16)) = f.payload.length := by omega
  have hoptlen : 4 * ((m 46).toNat / 16) - 20 = f.opts.length := by omega
  have hop : Wire.bytes m 54 f.opts.length = f.opts := hat.opts
  have hpay : Wire.bytes m (54 + f.opts.length) f.payload.length = f.payload := hat.payload
  unfold usnet_tcp_input segment_of
  simp only [hport, show (34 : Int) + 12 = 46 from rfl, show (14 : Int) + 12 = 26 from rfl,
    show (14 : Int) + 16 = 30 from rfl, show (34 : Int) + 2 = 36 from rfl,
    show (34 : Int) + 4 = 38 from rfl, show (34 : Int) + 8 = 42 from rfl,
    show (34 : Int) + 13 = 47 from rfl, show (34 : Int) + 14 = 48 from rfl,
    show (34 : Int) + 20 = 54 from rfl]
  rw [if_neg (by omega), htcplen, hsrc, hdst, if_neg (not_not.mpr hat.cksum)]
  simp only [hsport, hdport, hseq, hack, hflags, hwin, hoptlen, hpaylen, hbody, hop, hpay]

/-- The frame is taken for a segment when the headers before it are right. -/
theorem usnet_eth_input_of_at (hlen : IP_HEADER_LEN + TCP_HEADER_LEN + f.opts.length +
      f.payload.length < 2 ^ 16)
    (hshort : f.payload.length < 2 ^ 16) (htype : be16 m 12 = 0x0800) (hfront : At m 14 h.front)
    (hback : At m 26 h.back) (hsum : ip_fast_csum m 14 5 = 0) (hat : SegmentAt m f)
    (hip : h.ip_len.toNat = IP_HEADER_LEN + TCP_HEADER_LEN + f.opts.length + f.payload.length)
    (hproto : h.ip_p = IPPROTO_TCP) (hsrc : h.ip_src = f.saddr) (hdst : h.ip_dst = f.daddr) :
    usnet_eth_input m trailer = some (segment_of f trailer hshort) := by
  obtain ⟨hv, hiplen, hp⟩ := front_fields hfront
  obtain ⟨hs, hd⟩ := back_fields hback
  rw [hip] at hiplen
  have hhl := front_words hfront
  have hsegment := @usnet_tcp_input_of_at m f trailer hopts (by omega)
    ⟨hs.trans hsrc, hd.trans hdst⟩ hat _ (be16_lt m 16) hiplen
  unfold usnet_eth_input
  rw [if_neg (not_not.mpr htype), if_neg (by omega), hhl, if_neg (by decide)]
  simp only [show ((5 : Int)).toNat = 5 from rfl, show (4 * (5 : Int)).toNat = 20 from rfl]
  rw [if_neg (not_not.mpr hsum), hv, if_neg (by decide), hp, if_neg (not_not.mpr hproto),
    hsegment]
  rfl

/-- A frame assembled behind any IP header with the right length, protocol and
    addresses. -/
theorem write_segment_read_back (hlen : IP_HEADER_LEN + TCP_HEADER_LEN + f.opts.length +
      f.payload.length < 2 ^ 16)
    (hshort : f.payload.length < 2 ^ 16) (m : Mem) (hwa haddr : Arp.Hwaddr)
    (hip : h.ip_len.toNat = IP_HEADER_LEN + TCP_HEADER_LEN + f.opts.length + f.payload.length)
    (hproto : h.ip_p = IPPROTO_TCP) (hsrc : h.ip_src = f.saddr) (hdst : h.ip_dst = f.daddr) :
    usnet_eth_input (write_segment
      (write_iphdr (usnet_eth_output_nm m hwa haddr (htons 0x0800)) h) f) trailer
      = some (segment_of f trailer hshort) := by
  obtain ⟨hkeep, hat⟩ := write_segment_at
    (write_iphdr (usnet_eth_output_nm m hwa haddr (htons 0x0800)) h) hopts (by omega)
  obtain ⟨htype, hfront, hback, hsum⟩ := hkeep.headers
  exact usnet_eth_input_of_at hopts hlen hshort htype hfront hback hsum hat hip hproto hsrc hdst

end

/-! ## Section 6: What the stack sends is what it receives -/

/-- A frame with the options its flags call for, which the buffer has room for. -/
structure WellBuilt (f : Frame) : Prop where
  opts : f.opts.length = (usnet_get_tcpopt_length f.flags).toNat
  fits : f.fits

theorem WellBuilt.length {f : Frame} (h : WellBuilt f) :
    IP_HEADER_LEN + TCP_HEADER_LEN + f.opts.length + f.payload.length ≤ 2034 := by
  have hfits := h.fits
  unfold Frame.fits NM_BUF_SIZE at hfits
  rw [frame_len_eq, ← h.opts] at hfits
  have htcp : TCP_HEADER_LEN = 20 := rfl
  have hip : IP_HEADER_LEN = 20 := rfl
  omega

theorem WellBuilt.short {f : Frame} (h : WellBuilt f) : f.payload.length < 2 ^ 16 := by
  have hlen := h.length
  omega

/-- Whatever the buffer holds and whichever function fills it, the input functions
    find the segment in it that was to be sent. -/
theorem WellBuilt.read_back {f : Frame} (h : WellBuilt f) (m : Mem) (hwa haddr : Arp.Hwaddr)
    (trailer : List UInt8) :
    (∀ ip_id, usnet_eth_input (usnet_send_tcp_packet m hwa haddr ip_id f) trailer
      = some (segment_of f trailer h.short)) ∧
    usnet_eth_input (usnet_send_tcp_packet_alone m hwa haddr f) trailer
      = some (segment_of f trailer h.short) := by
  have hlen := h.length
  have htcp : TCP_HEADER_LEN = 20 := rfl
  have hip : IP_HEADER_LEN = 20 := rfl
  constructor
  · intro ip_id
    refine write_segment_read_back h.opts (by omega) h.short m hwa haddr ?_ rfl rfl rfl
    simp only [UInt16.toNat_ofNat', ← h.opts]
    omega
  · refine write_segment_read_back h.opts (by omega) h.short m hwa haddr ?_ rfl rfl rfl
    simp only [UInt16.toNat_ofNat', ← h.opts]
    omega

/-! ## Section 7: What the checksums guarantee -/

/-- The word loop with carries computes the one's-complement sum of the header,
    which is also the one the receiver goes by; a header with its checksum stored
    passes, and one with a single word altered does not. -/
theorem ip_checksum_inverse (m : Mem) (iph : Int) (ihl : Nat) (h : 5 ≤ ihl) :
    ip_fast_csum m iph ihl = 65535 - osum (words little (bytes m iph (4 * ihl))) ∧
    (ip_fast_csum m iph ihl = 0 ↔ osum (words big (bytes m iph (4 * ihl))) = 65535) ∧
    (0 < (m iph).toNat →
      ip_fast_csum (store16 m (iph + 10)
        (UInt16.ofNat (ip_fast_csum (store16 m (iph + 10) 0) iph ihl))) iph ihl = 0) ∧
    ∀ (m' : Mem) (k : Nat), k < 2 * ihl → Altered m m' (iph + (2 * k : Nat)) →
      ip_fast_csum m iph ihl = 0 → ip_fast_csum m' iph ihl = 0 →
      le16 m (iph + (2 * k : Nat)) = le16 m' (iph + (2 * k : Nat)) ∨
        BothZero (le16 m (iph + (2 * k : Nat))) (le16 m' (iph + (2 * k : Nat))) := by
  have hsum : osum (words little (bytes m iph (4 * ihl))) = OnesComp.fold (ip_sum m iph ihl) :=
    osum_eq (words_lt little_lt _)
  refine ⟨?_, ?_, ip_cksum_of_stored m iph h, fun m' k hk halt => ip_altered h hk halt⟩
  · rw [hsum, ip_fast_csum_eq m iph h]
  · rw [ip_fast_csum_zero m iph h]
    exact osum_little_eq_max _

/-- A header of five words that counts up in sevens. -/
theorem ip_checksum_inverse_sample :
    let m : Mem := fun i => UInt8.ofNat (7 * i).toNat
    5 ≤ 5 ∧ ip_fast_csum m 14 5 = 65535 - osum (words little (bytes m 14 20)) ∧
    ip_fast_csum (store16 m 24 (UInt16.ofNat (ip_fast_csum (store16 m 24 0) 14 5))) 14 5 = 0 := by
  intro m
  obtain ⟨hsum, -, hstored, -⟩ := ip_checksum_inverse m 14 5 le_rfl
  exact ⟨le_rfl, hsum, hstored (by decide)⟩

/-- What has been checked of a frame that is taken. -/
structure Taken (m : Mem) (ihl : Nat) (len : UInt16) : Prop where
  header : ip_hl m = ihl
  words : 5 ≤ ihl
  length : 4 * ihl + len.toNat = be16 m 16
  ip : ip_fast_csum m 14 ihl = 0
  tcp : tcp_cksum m (14 + (4 * ihl : Nat)) len (le32 m 26) (le32 m 30) = 0

theorem usnet_tcp_input_ok {iph : Int} {hl iplen : Nat} {trailer : List UInt8}
    {hiplen : iplen < 2 ^ 16} {seg : Segment}
    (h : usnet_tcp_input m iph hl iplen trailer hiplen = .ok seg) :
    hl ≤ iplen ∧
    tcp_cksum m (iph + hl) (tcp_len m iph hl iplen) (le32 m (iph + 12)) (le32 m (iph + 16)) = 0 := by
  unfold usnet_tcp_input at h
  simp only at h
  split at h
  · cases h
  · split at h
    · cases h
    · rename_i hlen hsum
      exact ⟨by omega, not_not.mp hsum⟩

theorem usnet_eth_input_some {trailer : List UInt8} {seg : Segment}
    (h : usnet_eth_input m trailer = some seg) : ∃ ihl len, Taken m ihl len := by
  unfold usnet_eth_input at h
  split at h
  · cases h
  split at h
  · cases h
  split at h
  · cases h
  split at h
  · cases h
  split at h
  · cases h
  split at h
  · cases h
  rename_i hlen hpos hsum hversion hproto
  -- a header of four words or fewer has the wrong version
  have hwords : 5 ≤ (ip_hl m).toNat := by
    by_contra hfew
    exact short_header_refused (by omega) (not_not.mp hsum) (not_not.mp hversion)
  cases htcp : usnet_tcp_input m 14 (4 * ip_hl m).toNat (be16 m 16) trailer (be16_lt m 16) with
  | error e =>
    rw [htcp] at h
    cases h
  | ok s =>
    obtain ⟨hle, hcksum⟩ := usnet_tcp_input_ok htcp
    have hhl : (4 * ip_hl m).toNat = 4 * (ip_hl m).toNat := by omega
    have hlt := be16_lt m 16
    have htcplen := @tcp_len_toNat m 14 (4 * ip_hl m).toNat (be16 m 16)
      (UInt16.ofNat (be16 m 16 - (4 * ip_hl m).toNat))
      (by rw [UInt16.toNat_ofNat', Nat.mod_eq_of_lt (by omega)]; omega)
    rw [htcplen, hhl] at hcksum
    refine ⟨(ip_hl m).toNat, _, by omega, hwords, ?_, not_not.mp hsum, hcksum⟩
    rw [UInt16.toNat_ofNat', Nat.mod_eq_of_lt (by omega)]
    omega

/-- A frame that is taken is not taken again after a word of it has been altered,
    unless a zero has become all ones or the other way round. -/
theorem altered_frame_refused {m m' : Mem} {trailer trailer' : List UInt8} {seg : Segment}
    {k : Nat} (hok : usnet_eth_input m trailer = some seg) (hin : 2 * k + 2 ≤ be16 m 16)
    (halt : Altered m m' (14 + (2 * k : Nat))) (hfirst : m' 14 = m 14)
    (hword : le16 m (14 + (2 * k : Nat)) ≠ le16 m' (14 + (2 * k : Nat)))
    (hzero : ¬ BothZero (le16 m (14 + (2 * k : Nat))) (le16 m' (14 + (2 * k : Nat)))) :
    usnet_eth_input m' trailer' = none := by
  by_contra hsome
  obtain ⟨seg', hok'⟩ := Option.ne_none_iff_exists'.mp hsome
  obtain ⟨ihl, len, h⟩ := usnet_eth_input_some hok
  obtain ⟨ihl', len', h'⟩ := usnet_eth_input_some hok'
  have hhl : ip_hl m' = ip_hl m := by
    unfold ip_hl ETH_HEADER_LEN
    rw [show ((14 : Nat) : Int) = 14 from rfl, hfirst]
  have hihl : ihl' = ihl := by
    have := h.header
    have := h'.header
    omega
  subst hihl
  refine (not_or.mpr ⟨hword, hzero⟩) ?_
  by_cases hk : k < 2 * ihl'
  · exact ip_altered h.words hk halt h.ip h'.ip
  · -- the header is as it was, so the same bytes are summed
    have hsame : ∀ i : Int, i < 14 + (4 * ihl' : Nat) → m' i = m i :=
      fun i hi => halt i (by omega)
    have hwords := h.words
    have hlen : be16 m' 16 = be16 m 16 := by
      unfold be16
      rw [hsame 16 (by omega), hsame (16 + 1) (by omega)]
    have haddr : ∀ off : Int, 0 ≤ off → off + 4 ≤ 34 → le32 m' off = le32 m off := by
      intro off hoff hle
      unfold le32 le16
      rw [hsame off (by omega), hsame (off + 1) (by omega), hsame (off + 2) (by omega),
        hsame (off + 2 + 1) (by omega)]
    have hlen' : len' = len := by
      have hl := h.length
      have hl' := h'.length
      exact UInt16.toNat_inj.mp (by omega)
    have htcp' := h'.tcp
    rw [hlen', haddr 26 (by decide) (by decide), haddr 30 (by decide) (by decide)] at htcp'
    obtain ⟨j, rfl⟩ : ∃ j, k = 2 * ihl' + j := ⟨k - 2 * ihl', by omega⟩
    have hoff : (14 : Int) + (2 * (2 * ihl' + j) : Nat) = 14 + (4 * ihl' : Nat) + (2 * j : Nat) := by
      omega
    rw [hoff] at halt ⊢
    have hl := h.length
    exact tcp_altered (by omega) halt h.tcp htcp'

/-- An ACK with two bytes of payload, the first number after the ports altered. -/
def sample_frame : Frame :=
  { saddr := 0x0100000a, daddr := 0x0200000a, sport := 80, dport := 5001, seq := 9001, ack := 5001
    flags := TH_ACK, window := 4000, opts := List.replicate 12 1, payload := [3, 4] }

def sample_octets : Mem :=
  usnet_send_tcp_packet_alone (fun _ => 0) #v[2, 0, 0, 0, 0, 1] #v[2, 0, 0, 0, 0, 2] sample_frame

theorem altered_frame_refused_sample :
    (usnet_eth_input sample_octets []).isSome ∧
    usnet_eth_input (store16 sample_octets (14 + (2 * 12 : Nat)) 7) [] = none := by
  have hbuilt : WellBuilt sample_frame := ⟨rfl, show frame_len sample_frame ≤ 2048 by decide⟩
  have hok := (hbuilt.read_back (fun _ => 0) #v[2, 0, 0, 0, 0, 1] #v[2, 0, 0, 0, 0, 2] []).2
  refine ⟨Option.isSome_iff_exists.mpr ⟨_, hok⟩, altered_frame_refused hok (by decide +kernel)
    (fun i hi => store16_outside 7 hi) (by decide +kernel) (by decide +kernel) ?_⟩
  unfold BothZero
  decide +kernel

end Octets

end Usnet
