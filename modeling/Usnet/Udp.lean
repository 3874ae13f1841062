import Usnet.Octets

/-! # UDP (udp.c, ip.c)

    A datagram is sent back to where it came from: the two ports are swapped and
    the checksum is computed where the datagram was received, and what is there is
    copied behind a header of its own.  Nothing tells an answer from a question.
-/

namespace Usnet

namespace Octets

open CInt OnesComp Wire

/-! ## Section 1: The answer -/

/-- The two ports change places. -/
def swap_ports (m : Mem) (udph : Int) : Mem :=
  let port := UInt16.ofNat (le16 m (udph + 2))
  store16 (store16 m (udph + 2) (UInt16.ofNat (le16 m udph))) udph port

/-- What `usnet_udp_input` does to the datagram where it was received. -/
def turn_round (m : Mem) (udph : Int) (udplen : Nat) : Mem :=
  let m := store16 (swap_ports m udph) (udph + 6) 0
  store16 m (udph + 6) (udp_cksum m udph (UInt16.ofNat udplen) (le32 m 30) (le32 m 26))

/-- `usnet_udp_input`, for a sender whose hardware address is known. -/
def usnet_udp_input (m out : Mem) (hwa haddr : Arp.Hwaddr) (hl iplen : Nat) : Mem :=
  let udph : Int := 14 + hl
  let udplen := iplen - hl
  let out := usnet_ipv4_output_alone out hwa haddr (UInt16.ofNat (le16 m 18)) IPPROTO_UDP
    (le32 m 30) (le32 m 26) udplen
  store out 34 (bytes (turn_round m udph udplen) udph udplen)

/-- The answer `usnet_eth_input` leads to; left out are a negative length of the IP
    header and one beyond the packet, with which gigabytes are read. -/
def usnet_eth_input_udp (m out : Mem) (hwa haddr : Arp.Hwaddr) : Option Mem :=
  if be16 m 12 ≠ 0x0800 then none
  else if be16 m 16 < IP_HEADER_LEN then none
  else if ip_hl m < 0 then none
  else if ip_fast_csum m 14 (ip_hl m).toNat ≠ 0 then none
  else if (m 14).toNat / 16 ≠ 4 then none
  else if m 23 ≠ IPPROTO_UDP then none
  else if be16 m 16 < (4 * ip_hl m).toNat then none
  else some (usnet_udp_input m out hwa haddr (4 * ip_hl m).toNat (be16 m 16))

/-! ## Section 2: Datagrams -/

/-- The ports and the length are in network order. -/
structure Datagram where
  src : UInt32
  dst : UInt32
  uh_sport : UInt16
  uh_dport : UInt16
  uh_ulen : UInt16
  data : List UInt8
  deriving DecidableEq

def Datagram.reply (d : Datagram) : Datagram :=
  { d with src := d.dst, dst := d.src, uh_sport := d.uh_dport, uh_dport := d.uh_sport }

/-- The header before its checksum. -/
def Datagram.front (d : Datagram) : List UInt8 :=
  raw16 d.uh_sport ++ raw16 d.uh_dport ++ raw16 d.uh_ulen

@[simp] theorem Datagram.front_length (d : Datagram) : d.front.length = 6 := rfl

/-- The frame carries the datagram behind an IP header of `ihl` words. -/
structure Carries (m : Mem) (ihl : Nat) (d : Datagram) : Prop where
  type : be16 m 12 = 0x0800
  version : (m 14).toNat / 16 = 4
  header : ip_hl m = ihl
  words : 5 ≤ ihl
  ip : ip_fast_csum m 14 ihl = 0
  proto : m 23 = IPPROTO_UDP
  length : be16 m 16 = 4 * ihl + 8 + d.data.length
  src : le32 m 26 = d.src
  dst : le32 m 30 = d.dst
  front : At m (14 + (4 * ihl : Nat)) d.front
  data : At m (14 + (4 * ihl : Nat) + 8) d.data

/-- Its checksum is right. -/
def Checked (m : Mem) (ihl : Nat) (d : Datagram) : Prop :=
  udp_cksum m (14 + (4 * ihl : Nat)) (UInt16.ofNat (8 + d.data.length)) d.src d.dst = 0

variable {m : Mem} {ihl : Nat} {d : Datagram}

theorem swap_ports_at {udph : Int} (h : At m udph d.front) :
    At (swap_ports m udph) udph d.reply.front ∧
    ∀ i, i < udph ∨ udph + 4 ≤ i → swap_ports m udph i = m i := by
  simp only [Datagram.front, at_append] at h
  obtain ⟨⟨hsport, hdport⟩, hulen⟩ := h
  have hdport : At m (udph + 2) (raw16 d.uh_dport) := hdport
  have hulen : At m (udph + 4) (raw16 d.uh_ulen) := hulen
  unfold swap_ports
  rw [hsport.le16, hdport.le16]
  refine ⟨?_, fun i hi => by rw [store16_outside _ (by omega), store16_outside _ (by omega)]⟩
  simp only [Datagram.front, Datagram.reply, at_append]
  refine ⟨⟨at_store16 _ _ _, ?_⟩, ?_⟩
  · exact (at_store16 m (udph + 2) _).store16 (.inr (by omega))
  · exact (hulen.store16 (.inr (by omega))).store16 (.inr (by omega))

/-- The bytes that are summed are all that matters. -/
theorem pseudo_cksum_congr (proto : UInt8) {m' : Mem} {buf buf' : Int} {len : UInt16}
    (saddr daddr : UInt32) (h : bytes m buf len.toNat = bytes m' buf' len.toNat) :
    pseudo_cksum proto m buf len saddr daddr = pseudo_cksum proto m' buf' len saddr daddr := by
  apply UInt16.toNat_inj.mp
  rw [pseudo_cksum_toNat, pseudo_cksum_toNat, pseudo_total, pseudo_total, h]

/-- A datagram that is ready to be copied. -/
structure Ready (m : Mem) (udph : Int) (d : Datagram) : Prop where
  front : At m udph d.front
  data : At m (udph + 8) d.data
  cksum : udp_cksum m udph (UInt16.ofNat (8 + d.data.length)) d.src d.dst = 0

theorem turn_round_ready (h : Carries m ihl d) :
    Ready (turn_round m (14 + (4 * ihl : Nat)) (8 + d.data.length)) (14 + (4 * ihl : Nat))
      d.reply := by
  have hwords := h.words
  have hlen16 : (UInt16.ofNat (8 + d.data.length)).toNat = 8 + d.data.length := by
    have hlen := h.length
    have hshort := be16_lt m 16
    rw [UInt16.toNat_ofNat', Nat.mod_eq_of_lt (by omega)]
  generalize hudph : (14 : Int) + (4 * ihl : Nat) = udph
  obtain ⟨hswap, hkeep⟩ := swap_ports_at (hudph ▸ h.front)
  have hdata := hudph ▸ h.data
  unfold turn_round
  generalize swap_ports m udph = m₁ at hswap hkeep
  -- what was received is changed behind the IP header only
  have hsame : ∀ off : Int, off + 4 ≤ 34 → le32 (store16 m₁ (udph + 6) 0) off = le32 m off := by
    intro off hoff
    have hbyte : ∀ i : Int, i < 34 → store16 m₁ (udph + 6) 0 i = m i := by
      intro i hi
      rw [store16_outside _ (by omega), hkeep i (by omega)]
    unfold le32 le16
    rw [hbyte off (by omega), hbyte (off + 1) (by omega), hbyte (off + 2) (by omega),
      hbyte (off + 2 + 1) (by omega)]
  simp only
  rw [hsame 30 (by decide), hsame 26 (by decide), h.src, h.dst, store16_store16]
  refine ⟨hswap.store16 (.inl (by simp)), ?_, ?_⟩
  · have hmoved : At m₁ (udph + 8) d.data := hdata.congr fun i _ => hkeep _ (by omega)
    exact hmoved.store16 (.inr (by omega))
  · exact @cksum_of_stored_at IPPROTO_UDP (by decide) m₁ udph 3
      (UInt16.ofNat (8 + d.data.length)) d.dst d.src (by omega)

/-- Copied behind a header of its own it is a datagram again. -/
theorem Ready.carried {udph : Int} (h : Ready m udph d) (hlen : 28 + d.data.length < 2 ^ 16)
    (out : Mem) (hwa haddr : Arp.Hwaddr) (ip_id : UInt16) :
    let m' := store (usnet_ipv4_output_alone out hwa haddr ip_id IPPROTO_UDP d.src d.dst
      (8 + d.data.length)) 34 (bytes m udph (8 + d.data.length))
    Carries m' 5 d ∧ Checked m' 5 d := by
  have hlen16 : (UInt16.ofNat (8 + d.data.length)).toNat = 8 + d.data.length := by
    rw [UInt16.toNat_ofNat', Nat.mod_eq_of_lt (by omega)]
  have hip : IP_HEADER_LEN = 20 := rfl
  generalize hout : usnet_ipv4_output_alone out hwa haddr ip_id IPPROTO_UDP d.src d.dst
    (8 + d.data.length) = m₁
  intro m'
  have hfront : At m' (34 + (0 : Nat)) d.front := by
    refine At.copied ?_ (by simp only [Datagram.front_length]; omega) m₁ 34
    rw [Nat.cast_zero, add_zero]
    exact h.front
  have hdata : At m' (34 + (8 : Nat)) d.data :=
    At.copied (show At m (udph + (8 : Nat)) d.data from h.data) le_rfl m₁ 34
  have hall : At m' 34 (bytes m udph (8 + d.data.length)) := at_store m₁ 34 _
  have hbehind : Behind m₁ m' 34 := ⟨fun i hi => store_outside (.inl hi)⟩
  clear_value m'
  rw [← hout] at hbehind
  obtain ⟨htype, hhead, hback, hsum⟩ := Behind.headers hbehind
  obtain ⟨hv, hiplen, hproto⟩ := front_fields hhead
  obtain ⟨hsrc, hdst⟩ := back_fields hback
  refine ⟨⟨htype, by rw [hv], front_words hhead, le_rfl, hsum, hproto, ?_, hsrc, hdst, hfront,
    hdata⟩, ?_⟩
  · rw [hiplen, UInt16.toNat_ofNat', Nat.mod_eq_of_lt (by omega)]
    omega
  · unfold At at hall
    rw [bytes_length] at hall
    refine (pseudo_cksum_congr _ _ _ ?_).trans h.cksum
    rw [hlen16]
    exact hall

/-! ## Section 4: Answers to answers -/

/-- The frame after `n` answers, each with whatever buffer and hardware addresses
    the stack that sends it has. -/
def answers (m : Mem) (out : Nat → Mem) (hwa haddr : Nat → Arp.Hwaddr) : Nat → Option Mem
  | 0 => some m
  | n + 1 => (answers m out hwa haddr n).bind fun m =>
      usnet_eth_input_udp m (out n) (hwa n) (haddr n)

theorem Carries.answered (h : Carries m ihl d) (out : Mem) (hwa haddr : Arp.Hwaddr) :
    ∃ m', usnet_eth_input_udp m out hwa haddr = some m' ∧ Carries m' 5 d.reply ∧
      Checked m' 5 d.reply := by
  have hlen := h.length
  have hwords := h.words
  have hip : IP_HEADER_LEN = 20 := rfl
  have hshort := be16_lt m 16
  have hudplen : be16 m 16 - 4 * ihl = 8 + d.data.length := by omega
  refine ⟨usnet_udp_input m out hwa haddr (4 * ihl) (be16 m 16), ?_, ?_⟩
  · unfold usnet_eth_input_udp
    rw [h.header, show (4 * (ihl : Int)).toNat = 4 * ihl by omega, Int.toNat_natCast,
      if_neg (not_not.mpr h.type), if_neg (by omega), if_neg (by omega), if_neg (not_not.mpr h.ip),
      if_neg (not_not.mpr h.version), if_neg (not_not.mpr h.proto), if_neg (by omega)]
  · unfold usnet_udp_input
    simp only [hudplen, h.src, h.dst]
    have hdata : d.reply.data = d.data := rfl
    exact (turn_round_ready h).carried (by rw [hdata]; omega) out hwa haddr _

end Octets

end Usnet
