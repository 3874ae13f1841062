import Usnet.Lib.Walk
import Usnet.Refused

/-! # Received frames (eth.c, arp.c, ip.c, udp.c, ip_icmp.c, tcp.c, utils.c)

    The input functions below the state machine, with the bytes each of them
    reads and the frames each of them builds in answer.  They are given a pointer
    into the ring buffer; only `usnet_eth_input` and the two functions it calls
    are told how many bytes were received.
-/

namespace Usnet

namespace Wire

open CInt Walk

/-! ## Section 1: Memory -/

/-- The memory around a received frame, by the distance from its first byte. -/
abbrev Mem := Int → UInt8

/-- A run of bytes that is read. -/
structure Span where
  off : Int
  len : Nat
  deriving DecidableEq

/-- All of them lie in a frame of `len` bytes. -/
def Span.Inside (len : Nat) (r : Span) : Prop := r.len = 0 ∨ 0 ≤ r.off ∧ r.off + r.len ≤ len

instance (len : Nat) (r : Span) : Decidable (r.Inside len) :=
  inferInstanceAs (Decidable (_ ∨ _))

/-- What an input function reads, and the length of every frame it builds,
    headers and payload included. -/
structure Input where
  reads : List Span
  built : List Nat

/-- The function has read these bytes before. -/
def Input.after (i : Input) (reads : List Span) : Input := { i with reads := reads ++ i.reads }

/-- It stops here. -/
def stop (reads : List Span) : Input := { reads := reads, built := [] }

/-- `ntohs` of the two bytes. -/
def be16 (m : Mem) (off : Int) : Nat := 256 * (m off).toNat + (m (off + 1)).toNat

/-- A `uint16_t` as the processor loads it. -/
def le16 (m : Mem) (off : Int) : Nat := (m off).toNat + 256 * (m (off + 1)).toNat

/-- A `uint32_t` as the processor loads it. -/
def le32 (m : Mem) (off : Int) : UInt32 := UInt32.ofNat (le16 m off + 65536 * le16 m (off + 2))

/-! ## Section 2: Checksums -/

/-- `adcl`: the sum and the carry. -/
def adc (s : UInt32 × Nat) (d : UInt32) : UInt32 × Nat :=
  let t := s.1.toNat + d.toNat + s.2
  (UInt32.ofNat t, t / 2 ^ 32)

/-- The loop of `ip_fast_csum`. -/
def csum_loop (m : Mem) : Nat → Int → UInt32 × Nat → UInt32 × Nat
  | 0, _, s => s
  | ihl + 1, iph, s => csum_loop m ihl (iph + 4) (adc s (le32 m (iph + 16)))

/-- `ip_fast_csum`. -/
def ip_fast_csum (m : Mem) (iph : Int) (ihl : Nat) : Nat :=
  if ihl ≤ 4 then le16 m iph
  else
    let s := adc (le32 m iph, 0) (le32 m (iph + 4))
    let s := adc (adc s (le32 m (iph + 8))) (le32 m (iph + 12))
    let sum := (adc (csum_loop m (ihl - 4) iph s) 0).1.toNat
    let t := sum / 65536 + sum % 65536
    (65535 - (t % 65536 + t / 65536) % 65536)

/-- The bytes it reads: the first word only where `ihl` is at most 4. -/
def csum_span (iph : Int) (ihl : Nat) : Span := ⟨iph, if ihl ≤ 4 then 4 else 4 * ihl⟩

/-- The sum of `n` words of 16 bits. -/
def sum16 (m : Mem) : Nat → Int → UInt32
  | 0, _ => 0
  | n + 1, off => UInt32.ofNat (le16 m off) + sum16 m n (off + 2)

/-- One turn of `while (sum >> 16)`; what is below `2^16` stays as it is. -/
def fold16 (sum : UInt32) : UInt32 := (sum &&& (0xffff : UInt32)) + (sum >>> 16)

/-- `cksum`, whose last byte of an odd number is never added: the test before it
    is that of the loop. -/
def cksum (m : Mem) (buf : Int) (len : Int) : UInt16 :=
  (~~~ fold16 (fold16 (fold16 (sum16 m (len.toNat / 2) buf)))).toUInt16

def IPPROTO_ICMP : UInt8 := 1
def IPPROTO_TCP : UInt8 := 6
def IPPROTO_UDP : UInt8 := 17

/-- `tcp_cksum` and `udp_cksum`, which differ in the protocol number. -/
def pseudo_cksum (proto : UInt8) (m : Mem) (buf : Int) (len : UInt16) (saddr daddr : UInt32) :
    UInt16 :=
  let sum := sum16 m (len.toNat / 2) buf
  let sum := if len.toNat % 2 = 1 then sum + UInt32.ofNat (le16 m (buf + len.toNat - 1) % 256)
    else sum
  let sum := sum + (saddr &&& (0xffff : UInt32)) + (saddr >>> 16)
  let sum := sum + (daddr &&& (0xffff : UInt32)) + (daddr >>> 16)
  let sum := sum + (len <<< 8 ||| len >>> 8).toUInt32 + (proto.toUInt16 <<< 8).toUInt32
  let sum := (sum >>> 16) + (sum &&& (0xffff : UInt32))
  let sum := sum + (sum >>> 16)
  (~~~ sum).toUInt16

def tcp_cksum := pseudo_cksum IPPROTO_TCP
def udp_cksum := pseudo_cksum IPPROTO_UDP

/-- The bytes they read: an odd number is rounded up, the last word is loaded
    whole and masked. -/
def pseudo_span (buf : Int) (len : UInt16) : Span := ⟨buf, 2 * ((len.toNat + 1) / 2)⟩

/-! ## Section 3: What decides besides the frame -/

/-- The address of the interface, the addresses in the ARP table, and for TCP the
    context and the connection found. -/
structure World where
  addr : UInt32
  arp : UInt32 → Bool
  ctx : Ctx
  found : Option UsnTcb

/-- `sizeof` of the Ethernet, ARP and IP headers. -/
def ETH_HEADER_LEN : Nat := 14
def ARP_HEADER_LEN : Nat := 28
def IP_HEADER_LEN : Nat := 20

/-- `usnet_eth_output_nm`, where `size` bytes of payload are then copied behind
    the header. -/
def usnet_eth_output_nm (size : Nat) : Nat := ETH_HEADER_LEN + size

/-- `usnet_arp_output`. -/
def usnet_arp_output : Nat := usnet_eth_output_nm ARP_HEADER_LEN

/-- `usnet_ipv4_output_alone` and the copy of `len` bytes, which `memcpy` takes
    for a `size_t`.  An unknown address is asked for instead. -/
def usnet_ipv4_output_alone (w : World) (daddr : UInt32) (len : Int) : Bool × List Nat :=
  if w.arp daddr then (true, [usnet_eth_output_nm (IP_HEADER_LEN + (len % 2 ^ 64).toNat)])
  else (false, [usnet_arp_output])

/-! ## Section 4: ARP -/

/-- `usnet_arp_input`. -/
def usnet_arp_input (w : World) (m : Mem) (len : Nat) : Input :=
  let arph : Int := ETH_HEADER_LEN
  let spa : Span := ⟨arph + 14, 4⟩
  let sha : Span := ⟨arph + 8, 6⟩
  let learn := if w.arp (le32 m (arph + 14)) then [] else [sha]
  if le32 m (arph + 24) ≠ w.addr then stop [⟨arph + 24, 4⟩]
  else if be16 m (arph + 6) = 1 then
    { reads := [⟨arph + 24, 4⟩, ⟨0, len⟩, ⟨arph + 6, 2⟩, spa] ++ learn ++ [spa, sha]
      built := [usnet_arp_output] }
  else if be16 m (arph + 6) = 2 then
    stop ([⟨arph + 24, 4⟩, ⟨0, len⟩, ⟨arph + 6, 2⟩, spa] ++ learn)
  else stop [⟨arph + 24, 4⟩, ⟨0, len⟩, ⟨arph + 6, 2⟩]

/-! ## Section 5: UDP and ICMP -/

/-- `usnet_udp_input`, where `hl` is `ip_hl << 2`. -/
def usnet_udp_input (w : World) (m : Mem) (iph hl : Int) (iplen : Nat) : Input :=
  let udph := iph + hl
  let udplen := (iplen : Int) - hl
  let (payload, built) := usnet_ipv4_output_alone w (le32 m (iph + 12)) udplen
  let head : List Span := [⟨iph + 4, 2⟩, ⟨iph + 12, 8⟩]
  if payload = false then { reads := head, built := built }
  else
    { reads := head ++ [⟨udph, 4⟩, pseudo_span udph (UInt16.ofNat (udplen % 65536).toNat),
        ⟨udph, (udplen % 2 ^ 64).toNat⟩]
      built := built }

/-- `usnet_icmp_reflect`. -/
def usnet_icmp_reflect (w : World) (m : Mem) (iph icmph icmplen : Int) : Input :=
  let (payload, built) := usnet_ipv4_output_alone w (le32 m (iph + 12)) icmplen
  let head : List Span := [⟨icmph, 2 * (icmplen.toNat / 2)⟩, ⟨iph + 4, 2⟩, ⟨iph + 12, 8⟩]
  if payload = false then { reads := head, built := built }
  else { reads := head ++ [⟨icmph, icmplen.toNat⟩], built := built }

def ICMP_MINLEN : Int := 8
def ICMP_ECHO : UInt8 := 8

/-- `usnet_icmp_input`. -/
def usnet_icmp_input (w : World) (m : Mem) (iph hl : Int) (iplen : Nat) : Input :=
  let icmplen := (iplen : Int) - hl
  let icmph := iph + hl
  if icmplen < ICMP_MINLEN then stop []
  else
    let sum : Span := ⟨icmph, 2 * (icmplen.toNat / 2)⟩
    if cksum m icmph icmplen ≠ 0 then stop [sum]
    else if m icmph ≠ ICMP_ECHO then stop [sum, ⟨icmph, 1⟩]
    else (usnet_icmp_reflect w m iph icmph icmplen).after [sum, ⟨icmph, 1⟩]

/-! ## Section 6: TCP -/

/-- The fields read behind the kind and the length of an option in
    `usnet_parse_tcpopts`. -/
def tcpopts_fields (opt : UInt8) : Option Nat :=
  if opt = TCPOPT_MAXSEG then some 2 else if opt = TCPOPT_WINDOW then some 1
  else if opt = TCPOPT_SACK_PERMITTED then some 0 else if opt = TCPOPT_TIMESTAMP then some 8
  else none

/-- The same in `usnet_parse_tcptimestamp`, which ends there. -/
def timestamp_fields (opt : UInt8) : Option Nat :=
  if opt = TCPOPT_TIMESTAMP then some 8 else none

section
variable (fields : UInt8 → Option Nat) (last : UInt8 → Bool) (byte : Nat → UInt8) (len : Nat)

/-- The option after the one at `i`. -/
def option_next (i : Nat) : Option Nat :=
  if i < len then
    if byte i = TCPOPT_EOL then none
    else if byte i = TCPOPT_NOP then some (i + 1)
    else if i + 2 + (byte (i + 1)).toNat - 2 > len then none
    else if last (byte i) then none
    else match fields (byte i) with
      | some n => some (i + 2 + n)
      | none => some (i + 2 + (byte (i + 1)).toNat - 2)
  else none

/-- The number of bytes read of the option at `i`. -/
def option_size (i : Nat) : Nat :=
  if i < len then
    if byte i = TCPOPT_EOL ∨ byte i = TCPOPT_NOP then 1
    else if i + 2 + (byte (i + 1)).toNat - 2 > len then 2
    else 2 + (fields (byte i)).getD 0
  else 0

/-- The bytes both loops read, of options that begin at `base`. -/
def option_spans (base : Int) : List Span :=
  (walk (option_next fields last byte len) (len + 1) 0).map fun i : Nat =>
    ⟨base + i, option_size fields byte len i⟩

end

/-- What `usnet_parse_tcpopts` reads. -/
def tcpopts_spans (m : Mem) (base : Int) (len : Nat) : List Span :=
  option_spans tcpopts_fields (fun _ => false) (fun i => m (base + i)) len base

/-- What `usnet_parse_tcptimestamp` reads. -/
def timestamp_spans (m : Mem) (base : Int) (len : Nat) : List Span :=
  option_spans timestamp_fields (· == TCPOPT_TIMESTAMP) (fun i => m (base + i)) len base

/-- The listening socket is addressed and there is room for a connection. -/
def creates (c : Ctx) (ip : UInt32) (port : UInt16) : Bool :=
  match usnet_handle_syn_pkt c ip port with
  | none => false
  | some _ => c.tcb_cache.isSome && c.rcvvars_mp && c.sndvars_mp

/-- What is read of a segment handed to the state machine: the options of a SYN
    that creates a connection or those of a segment that is checked for its
    timestamp, and at most the payload, which the checksum has covered. -/
def segment_spans (w : World) (m : Mem) (iph tcph : Int) (th_off : Nat) (payloadlen : Nat) :
    List Span :=
  let base := tcph + 20
  let len := 4 * th_off - 20
  let flags := m (tcph + 13)
  let payload : Span := ⟨tcph + 4 * th_off, payloadlen⟩
  match w.found with
  | none =>
    if has flags TH_SYN = true ∧ has flags TH_ACK = false ∧
        creates w.ctx (le32 m (iph + 16)) (UInt16.ofNat (le16 m (tcph + 2))) = true then
      tcpopts_spans m base len ++ [payload]
    else []
  | some t =>
    if t.state.val ≥ TcpState.syn_received.val ∧ has flags TH_RST = false ∧
        t.saw_timestamp = true then
      timestamp_spans m base len ++ [payload]
    else [payload]

/-- `usnet_tcp_input` up to the state machine. -/
def usnet_tcp_input (w : World) (m : Mem) (iph hl : Int) (iplen : Nat) : Input :=
  let tcph := iph + hl
  let th_off := (m (tcph + 12)).toNat / 16
  let payloadlen := (iplen : Int) - (hl + 4 * th_off)
  let head : List Span := [⟨tcph + 12, 1⟩, ⟨tcph + 4, 4⟩, ⟨tcph + 8, 4⟩, ⟨tcph + 14, 2⟩]
  if (iplen : Int) < hl + 4 * th_off then stop head
  else
    let tcplen := UInt16.ofNat ((4 * th_off + payloadlen) % 65536).toNat
    let head := head ++ [pseudo_span tcph tcplen, ⟨iph + 12, 8⟩]
    if tcp_cksum m tcph tcplen (le32 m (iph + 12)) (le32 m (iph + 16)) ≠ 0 then stop head
    else stop (head ++ [⟨tcph, 4⟩, ⟨tcph + 13, 1⟩] ++
      segment_spans w m iph tcph th_off payloadlen.toNat)

/-! ## Section 7: IP and Ethernet -/

/-- `ip_hl`, a signed field of four bits. -/
def ip_hl (m : Mem) : Int :=
  let h := (m ETH_HEADER_LEN).toNat % 16
  if h < 8 then h else h - 16

/-- `usnet_ipv4_input`, which does not look at the length of the frame. -/
def usnet_ipv4_input (w : World) (m : Mem) : Input :=
  let iph : Int := ETH_HEADER_LEN
  let iplen := be16 m (iph + 2)
  if iplen < IP_HEADER_LEN then stop [⟨iph + 2, 2⟩]
  else
    let ihl := (ip_hl m % 2 ^ 32).toNat
    let head : List Span := [⟨iph + 2, 2⟩, ⟨iph, 1⟩, csum_span iph ihl]
    if ip_fast_csum m iph ihl ≠ 0 then stop head
    else if (m iph).toNat / 16 ≠ 4 then stop head
    else
      let head := head ++ [⟨iph + 9, 1⟩]
      let hl := 4 * ip_hl m
      if m (iph + 9) = IPPROTO_TCP then (usnet_tcp_input w m iph hl iplen).after head
      else if m (iph + 9) = IPPROTO_UDP then (usnet_udp_input w m iph hl iplen).after head
      else if m (iph + 9) = IPPROTO_ICMP then (usnet_icmp_input w m iph hl iplen).after head
      else stop head

/-- `usnet_eth_input`. -/
def usnet_eth_input (w : World) (m : Mem) (len : Nat) : Input :=
  if be16 m 12 = 0x0800 then (usnet_ipv4_input w m).after [⟨12, 2⟩]
  else if be16 m 12 = 0x0806 then (usnet_arp_input w m len).after [⟨12, 2⟩]
  else stop [⟨12, 2⟩]

/-! ## Section 8: Which frames contain all that is read -/

/-- Every option met lies in the frame, with the fields read of it. -/
def options_fit (next : Nat → Option Nat) (size : Nat → Nat) (base : Int) (len : Nat) : Prop :=
  ∀ i, Walk.Visited next 0 i → (Span.mk (base + i) (size i)).Inside len

/-- The segment and, where they are parsed, its options. -/
def tcp_fits (m : Mem) (hl : Int) (iplen len : Nat) : Prop :=
  let tcph := ETH_HEADER_LEN + hl
  let th_off := (m (tcph + 12)).toNat / 16
  let byte := fun i : Nat => m (tcph + 20 + i)
  let opts := 4 * th_off - 20
  tcph + 16 ≤ len ∧
  (hl + 4 * th_off ≤ iplen →
    tcph + 2 * ((iplen - hl + 1) / 2) ≤ len ∧
    (tcp_cksum m tcph (UInt16.ofNat (iplen - hl).toNat) (le32 m 26) (le32 m 30) = 0 →
      (has (m (tcph + 13)) TH_SYN = true ∧ has (m (tcph + 13)) TH_ACK = false →
        options_fit (option_next tcpopts_fields (fun _ => false) byte opts)
          (option_size tcpopts_fields byte opts) (tcph + 20) len) ∧
      (has (m (tcph + 13)) TH_RST = false →
        options_fit (option_next timestamp_fields (· == TCPOPT_TIMESTAMP) byte opts)
          (option_size timestamp_fields byte opts) (tcph + 20) len)))

/-- The datagram. -/
def udp_fits (hl : Int) (iplen len : Nat) : Prop :=
  hl ≤ iplen ∧ ETH_HEADER_LEN + hl + 4 ≤ len ∧
    ETH_HEADER_LEN + hl + 2 * ((iplen - hl + 1) / 2) ≤ len

/-- The message: all of it where it is answered, else without an odd last byte. -/
def icmp_fits (m : Mem) (hl : Int) (iplen len : Nat) : Prop :=
  let icmph := ETH_HEADER_LEN + hl
  ICMP_MINLEN ≤ iplen - hl →
    icmph + 2 * ((iplen - hl) / 2) ≤ len ∧
    (cksum m icmph (iplen - hl) = 0 ∧ m icmph = ICMP_ECHO → ETH_HEADER_LEN + iplen ≤ len)

/-- The IP header with its options and what it contains. -/
def ip_fits (m : Mem) (len : Nat) : Prop :=
  let iplen := be16 m 16
  let hl := 4 * ip_hl m
  18 ≤ len ∧
  (IP_HEADER_LEN ≤ iplen → 0 ≤ hl ∧
    (20 ≤ hl → ETH_HEADER_LEN + hl ≤ len ∧
      (ip_fast_csum m 14 (ip_hl m).toNat = 0 ∧ (m 14).toNat / 16 = 4 →
        (m 23 = IPPROTO_TCP → tcp_fits m hl iplen len) ∧
        (m 23 = IPPROTO_UDP → udp_fits hl iplen len) ∧
        (m 23 = IPPROTO_ICMP → icmp_fits m hl iplen len))))

/-- The headers and lengths of the frame claim no more than was received. -/
def frame_fits (m : Mem) (len : Nat) : Prop :=
  14 ≤ len ∧ (be16 m 12 = 0x0806 → 42 ≤ len) ∧ (be16 m 12 = 0x0800 → ip_fits m len)

/-! ## Section 9: The bytes read by each function -/

/-- All of them lie in the frame. -/
def AllInside (len : Nat) (l : List Span) : Prop := ∀ r ∈ l, r.Inside len

variable {len : Nat}

@[simp] theorem allInside_nil : AllInside len [] := fun _ h => by cases h

@[simp] theorem allInside_cons (r : Span) (l : List Span) :
    AllInside len (r :: l) ↔ r.Inside len ∧ AllInside len l := by
  simp [AllInside]

@[simp] theorem allInside_append (l l' : List Span) :
    AllInside len (l ++ l') ↔ AllInside len l ∧ AllInside len l' := by
  simp [AllInside, or_imp, forall_and]

@[simp] theorem after_reads (i : Input) (l : List Span) : (i.after l).reads = l ++ i.reads := rfl

@[simp] theorem stop_reads (l : List Span) : (stop l).reads = l := rfl

@[simp] theorem after_built (i : Input) (l : List Span) : (i.after l).built = i.built := rfl

@[simp] theorem stop_built (l : List Span) : (stop l).built = [] := rfl

section
variable (fields : UInt8 → Option Nat) (last : UInt8 → Bool) (byte : Nat → UInt8) (n : Nat)

theorem option_next_forward : Forward (option_next fields last byte n) n := by
  -- an option of length zero leads to itself, but none leads back
  have hboth : ∀ i j, option_next fields last byte n i = some j → i < n ∧ i ≤ j := by
    intro i j h
    unfold option_next at h
    by_cases hi : i < n
    · refine ⟨hi, ?_⟩
      rw [if_pos hi] at h
      split at h
      · cases h
      · split at h
        · obtain rfl := Option.some.inj h
          omega
        · split at h
          · cases h
          · split at h
            · cases h
            · split at h
              · obtain rfl := Option.some.inj h
                omega
              · obtain rfl := Option.some.inj h
                omega
    · rw [if_neg hi] at h
      cases h
  exact ⟨fun i j h => (hboth i j h).1, fun i j h => (hboth i j h).2⟩

/-- The loop stays in the frame when every option it meets does. -/
theorem option_spans_inside (base : Int) :
    AllInside len (option_spans fields last byte n base) ↔
      options_fit (option_next fields last byte n) (option_size fields byte n) base len := by
  have hmem : ∀ i, i ∈ walk (option_next fields last byte n) (n + 1) 0 ↔
      Walk.Visited (option_next fields last byte n) 0 i :=
    fun i => mem_walk_iff (option_next_forward fields last byte n) (by omega)
  unfold option_spans options_fit AllInside
  simp only [List.mem_map, forall_exists_index, and_imp, forall_apply_eq_imp_iff₂, hmem]

end

/-! ## Section 10: The options that are read are the options that are parsed -/

section
variable {seg seg' : Segment} {fields : UInt8 → Option Nat} {last : UInt8 → Bool} {i j : Nat}

/-- The same bytes wherever the loop over the options reads any from `i` on. -/
def SameOptions (fields : UInt8 → Option Nat) (last : UInt8 → Bool) (seg seg' : Segment)
    (i : Nat) : Prop :=
  ∀ j, Walk.Visited (option_next fields last seg.byte seg.opts.length) i j →
    ∀ k < option_size fields seg.byte seg.opts.length j, seg'.byte (j + k) = seg.byte (j + k)

theorem SameOptions.next (h : SameOptions fields last seg seg' i)
    (hj : option_next fields last seg.byte seg.opts.length i = some j) :
    SameOptions fields last seg seg' j := fun p hp => h p (.head hj hp)

/-- The kind of an option is read. -/
theorem SameOptions.kind (h : SameOptions fields last seg seg' i) (hi : i < seg.opts.length) :
    seg'.byte i = seg.byte i := by
  refine h i .refl 0 ?_
  unfold option_size
  rw [if_pos hi]
  split
  · decide
  · split <;> omega

section
variable (h : SameOptions fields last seg seg' i) (hi : i < seg.opts.length)
  (heol : seg.byte i ≠ TCPOPT_EOL) (hnop : seg.byte i ≠ TCPOPT_NOP)
include h hi heol hnop

/-- Its length is where it has one. -/
theorem SameOptions.optlen : seg'.byte (i + 1) = seg.byte (i + 1) := by
  refine h i .refl 1 ?_
  unfold option_size
  rw [if_pos hi, if_neg (by simp [heol, hnop])]
  split <;> omega

variable (hlong : ¬ i + 2 + (seg.byte (i + 1)).toNat - 2 > seg.opts.length)
include hlong

/-- Its fields are where it ends among the options. -/
theorem SameOptions.field {n k : Nat} (hn : fields (seg.byte i) = some n) (hk : k < n) :
    seg'.byte (i + 2 + k) = seg.byte (i + 2 + k) := by
  have hread := h i .refl (2 + k)
  unfold option_size at hread
  rw [if_pos hi, if_neg (by simp [heol, hnop]), if_neg hlong, hn, Option.getD_some] at hread
  simpa only [← Nat.add_assoc] using hread (by omega)

theorem SameOptions.long {n k : Nat} (hn : fields (seg.byte i) = some n) (hk : k + 4 ≤ n) :
    seg'.long (i + 2 + k) = seg.long (i + 2 + k) := by
  have hb : ∀ d < 4, seg'.byte (i + 2 + k + d) = seg.byte (i + 2 + k + d) := by
    intro d hd
    have := h.field hi heol hnop hlong (k := k + d) hn (by omega)
    simpa only [← Nat.add_assoc] using this
  unfold Segment.long
  rw [show seg'.byte (i + 2 + k) = seg.byte (i + 2 + k) from hb 0 (by decide), hb 1 (by decide),
    hb 2 (by decide), hb 3 (by decide)]

end

/-- What `usnet_parse_tcptimestamp` finds depends on the bytes listed as read only. -/
theorem parse_timestamp_loop_reads (hlen : seg'.opts.length = seg.opts.length) (fuel i : Nat)
    (h : SameOptions timestamp_fields (· == TCPOPT_TIMESTAMP) seg seg' i) :
    parse_timestamp_loop seg' fuel i = parse_timestamp_loop seg fuel i := by
  -- on the turns; each test is decided by a byte that is listed
  induction fuel generalizing i with
  | zero => rfl
  | succ fuel ih =>
    have hnext := fun j => h.next (j := j)
    unfold option_next at hnext
    unfold parse_timestamp_loop
    rw [hlen]
    by_cases hi : i < seg.opts.length
    · simp only [hi, if_true, h.kind hi] at hnext ⊢
      by_cases heol : seg.byte i = TCPOPT_EOL
      · simp only [heol, if_true]
      · by_cases hnop : seg.byte i = TCPOPT_NOP
        · simp only [hnop, if_true] at hnext ⊢
          exact ih _ (hnext _ rfl)
        · simp only [heol, hnop, if_false, h.optlen hi heol hnop] at hnext ⊢
          by_cases hlong : i + 2 + (seg.byte (i + 1)).toNat - 2 > seg.opts.length
          · simp only [hlong, if_true]
          · by_cases hts : seg.byte i = TCPOPT_TIMESTAMP
            · have hn : timestamp_fields (seg.byte i) = some 8 := if_pos hts
              have hval : seg'.long (i + 2) = seg.long (i + 2) :=
                h.long hi heol hnop hlong (k := 0) hn (by decide)
              have href : seg'.long (i + 2 + 4) = seg.long (i + 2 + 4) :=
                h.long hi heol hnop hlong hn (by decide)
              rw [if_neg hlong, if_neg hlong, if_pos hts, if_pos hts, hval, href]
            · have hn : timestamp_fields (seg.byte i) = none := if_neg hts
              have hlast : (seg.byte i == TCPOPT_TIMESTAMP) = false := by
                simpa using hts
              simp only [hlong, hlast, hn, Bool.false_eq_true, if_false, hts] at hnext ⊢
              exact ih _ (hnext _ rfl)
    · simp only [hi, if_false]

/-- What `usnet_parse_tcpopts` writes depends on them only, too. -/
theorem parse_opts_loop_reads (hlen : seg'.opts.length = seg.opts.length) (cur_time : UInt32)
    (fuel i : Nat) (t : UsnTcb) (h : SameOptions tcpopts_fields (fun _ => false) seg seg' i) :
    parse_opts_loop cur_time seg' fuel i t = parse_opts_loop cur_time seg fuel i t := by
  -- on the turns; each test is decided by a byte that is listed
  induction fuel generalizing i t with
  | zero => rfl
  | succ fuel ih =>
    have hnext := fun j => h.next (j := j)
    unfold option_next at hnext
    unfold parse_opts_loop
    rw [hlen]
    by_cases hi : i < seg.opts.length
    · simp only [hi, if_true, h.kind hi] at hnext ⊢
      by_cases heol : seg.byte i = TCPOPT_EOL
      · simp only [heol, if_true]
      · by_cases hnop : seg.byte i = TCPOPT_NOP
        · simp only [hnop, if_true] at hnext ⊢
          exact ih _ _ (hnext _ rfl)
        · simp only [heol, hnop, if_false, h.optlen hi heol hnop] at hnext ⊢
          by_cases hlong : i + 2 + (seg.byte (i + 1)).toNat - 2 > seg.opts.length
          · simp only [hlong, if_true]
          · simp only [hlong, Bool.false_eq_true, if_false] at hnext ⊢
            have hf := fun n k => h.field hi heol hnop hlong (n := n) (k := k)
            by_cases hmss : seg.byte i = TCPOPT_MAXSEG
            · have hn : tcpopts_fields (seg.byte i) = some 2 := if_pos hmss
              have h₀ : seg'.byte (i + 2) = seg.byte (i + 2) := hf 2 0 hn (by decide)
              have h₁ : seg'.byte (i + 2 + 1) = seg.byte (i + 2 + 1) := hf 2 1 hn (by decide)
              simp only [hn] at hnext
              rw [if_pos hmss, if_pos hmss, h₀, h₁]
              exact ih _ _ (hnext _ rfl)
            · rw [if_neg hmss, if_neg hmss]
              by_cases hwin : seg.byte i = TCPOPT_WINDOW
              · have hn : tcpopts_fields (seg.byte i) = some 1 := by
                  unfold tcpopts_fields
                  rw [if_neg hmss, if_pos hwin]
                have h₀ : seg'.byte (i + 2) = seg.byte (i + 2) := hf 1 0 hn (by decide)
                simp only [hn] at hnext
                rw [if_pos hwin, if_pos hwin, h₀]
                exact ih _ _ (hnext _ rfl)
              · rw [if_neg hwin, if_neg hwin]
                by_cases hsack : seg.byte i = TCPOPT_SACK_PERMITTED
                · have hn : tcpopts_fields (seg.byte i) = some 0 := by
                    unfold tcpopts_fields
                    rw [if_neg hmss, if_neg hwin, if_pos hsack]
                  simp only [hn] at hnext
                  rw [if_pos hsack, if_pos hsack]
                  exact ih _ _ (hnext _ rfl)
                · rw [if_neg hsack, if_neg hsack]
                  by_cases hts : seg.byte i = TCPOPT_TIMESTAMP
                  · have hn : tcpopts_fields (seg.byte i) = some 8 := by
                      unfold tcpopts_fields
                      rw [if_neg hmss, if_neg hwin, if_neg hsack, if_pos hts]
                    have hval : seg'.long (i + 2) = seg.long (i + 2) :=
                      h.long hi heol hnop hlong (k := 0) hn (by decide)
                    simp only [hn] at hnext
                    rw [if_pos hts, if_pos hts, hval]
                    exact ih _ _ (hnext _ rfl)
                  · have hn : tcpopts_fields (seg.byte i) = none := by
                      unfold tcpopts_fields
                      rw [if_neg hmss, if_neg hwin, if_neg hsack, if_neg hts]
                    simp only [hn] at hnext
                    rw [if_neg hts, if_neg hts]
                    exact ih _ _ (hnext _ rfl)
    · simp only [hi, if_false]

section
variable {m m' : Mem} {base : Int} (hm : ∀ k : Nat, seg.byte k = m (base + k))
  (hm' : ∀ k : Nat, seg'.byte k = m' (base + k))
include hm hm'

/-- Two segments in memory that differ only in bytes that are not listed. -/
theorem same_options_of_spans
    (h : ∀ r ∈ option_spans fields last (fun i => m (base + i)) seg.opts.length base,
      ∀ k < r.len, m' (r.off + k) = m (r.off + k)) : SameOptions fields last seg seg' 0 := by
  intro j hj k hk
  have hbytes : (fun i : Nat => m (base + i)) = seg.byte := funext fun i => (hm i).symm
  rw [hbytes] at h
  have hmem := (mem_walk_iff (option_next_forward fields last seg.byte seg.opts.length)
    (show seg.opts.length - 0 < seg.opts.length + 1 by omega)).mpr hj
  have hone := h _ (List.mem_map.mpr ⟨j, hmem, rfl⟩) k hk
  rw [hm, hm']
  simpa only [Nat.cast_add, ← add_assoc] using hone

/-- Nothing but the listed bytes decides what the options of a SYN do. -/
theorem usnet_parse_tcpopts_reads (hlen : seg'.opts.length = seg.opts.length)
    (h : ∀ r ∈ tcpopts_spans m base seg.opts.length, ∀ k < r.len, m' (r.off + k) = m (r.off + k))
    (cur_time : UInt32) (t : UsnTcb) :
    usnet_parse_tcpopts cur_time seg' t = usnet_parse_tcpopts cur_time seg t := by
  unfold usnet_parse_tcpopts
  rw [hlen]
  exact parse_opts_loop_reads hlen cur_time _ _ t (same_options_of_spans hm hm' h)

/-- Nothing but the listed bytes decides what the timestamp of a segment is. -/
theorem usnet_parse_tcptimestamp_reads (hlen : seg'.opts.length = seg.opts.length)
    (h : ∀ r ∈ timestamp_spans m base seg.opts.length,
      ∀ k < r.len, m' (r.off + k) = m (r.off + k)) :
    usnet_parse_tcptimestamp seg' = usnet_parse_tcptimestamp seg := by
  unfold usnet_parse_tcptimestamp
  rw [hlen]
  exact parse_timestamp_loop_reads hlen _ _ (same_options_of_spans hm hm' h)

end

end

/-! ## Section 11: Frames that contain all that is read -/

/-- A run of bytes that begins in the frame. -/
theorem inside_of_le {off : Int} {n : Nat} (h₀ : 0 ≤ off) (h : off + n ≤ len) :
    (Span.mk off n).Inside len := .inr ⟨h₀, h⟩

theorem inside_iff {off : Int} {n : Nat} (h₀ : 0 ≤ off) (hn : 0 < n) :
    (Span.mk off n).Inside len ↔ off + n ≤ len := by
  unfold Span.Inside
  simp only
  constructor
  · rintro (h | h)
    · omega
    · exact h.2
  · intro h
    exact .inr ⟨h₀, h⟩

/-- An ARP packet is read only where there is room for all of it. -/
theorem arp_inside (w : World) (m : Mem) :
    AllInside len (usnet_arp_input w m len).reads ↔ 42 ≤ len := by
  -- the target's address is read first and ends the packet
  have htpa : (Span.mk ((ETH_HEADER_LEN : Int) + 24) 4).Inside len ↔ 42 ≤ len := by
    rw [inside_iff (by decide) (by decide)]
    unfold ETH_HEADER_LEN
    omega
  unfold usnet_arp_input
  simp only
  constructor
  · intro h
    refine htpa.mp ?_
    split at h
    · exact h _ (by simp)
    · split at h
      · exact h _ (by simp)
      · split at h
        · exact h _ (by simp)
        · exact h _ (by simp)
  · intro hlen
    have hin : ∀ (off : Nat) (n : Nat), off + n ≤ 28 →
        (Span.mk ((ETH_HEADER_LEN : Int) + off) n).Inside len := by
      intro off n hoff
      refine inside_of_le (by omega) ?_
      unfold ETH_HEADER_LEN
      omega
    have hall : (Span.mk 0 len).Inside len := inside_of_le (by omega) (by omega)
    have hsha := hin 8 6 (by omega)
    have hspa := hin 14 4 (by omega)
    have hop := hin 6 2 (by omega)
    have hlearn : AllInside len (if w.arp (le32 m ((ETH_HEADER_LEN : Int) + 14)) then []
        else [⟨(ETH_HEADER_LEN : Int) + 8, 6⟩]) := by
      split
      · exact allInside_nil
      · exact (allInside_cons _ _).mpr ⟨hsha, allInside_nil⟩
    split
    · simpa using htpa.mpr hlen
    · split
      · simp only [allInside_append, allInside_cons]
        exact ⟨⟨⟨htpa.mpr hlen, hall, hop, hspa, allInside_nil⟩, hlearn⟩, hspa, hsha,
          allInside_nil⟩
      · split
        · simp only [stop_reads, allInside_append, allInside_cons]
          exact ⟨⟨htpa.mpr hlen, hall, hop, hspa, allInside_nil⟩, hlearn⟩
        · simp only [stop_reads, allInside_cons]
          exact ⟨htpa.mpr hlen, hall, hop, allInside_nil⟩

/-- A world in which every address is known and a connection can be made. -/
def open_world (ip : UInt32) (port : UInt16) : World :=
  { addr := 0, arp := fun _ => true, found := none
    ctx := { quiet_ctx with listen_tcb := some { fd := 1, saddr := ip, sport := port } } }

/-- A world in which the segment belongs to a connection that uses timestamps. -/
def stamped_world : World :=
  { addr := 0, arp := fun _ => true, found := some stamped_tcb, ctx := quiet_ctx }

section
variable {m : Mem} {hl : Int} {iplen : Nat}

/-- A datagram is read where its sender is known. -/
theorem udp_inside (hlen : len < 2 ^ 31) (h₀ : 20 ≤ hl) (hhl : 14 + hl ≤ len)
    (hip : iplen < 65536) :
    (∀ w, AllInside len (usnet_udp_input w m 14 hl iplen).reads) ↔ udp_fits hl iplen len := by
  have hid : (Span.mk (14 + 4) 2).Inside len := inside_of_le (by omega) (by omega)
  have hsrc : (Span.mk (14 + 12) 8).Inside len := inside_of_le (by omega) (by omega)
  unfold usnet_udp_input usnet_ipv4_output_alone udp_fits ETH_HEADER_LEN
  constructor
  -- a datagram to a sender that is known is read whole
  · intro h
    have h := h (open_world 0 0)
    simp only [open_world, if_true, Bool.true_eq_false, if_false, allInside_append,
      allInside_cons] at h
    obtain ⟨-, hports, hsum, hcopy, -⟩ := h
    rw [inside_iff (by omega) (by decide)] at hports
    -- a negative length is copied as a `size_t`
    have hle : hl ≤ iplen := by
      by_contra hlt
      rw [inside_iff (by omega) (by omega)] at hcopy
      omega
    refine ⟨hle, by omega, ?_⟩
    have hudp : (UInt16.ofNat (((iplen : Int) - hl) % 65536).toNat).toNat = ((iplen : Int) - hl).toNat := by
      simp only [UInt16.toNat_ofNat']
      omega
    unfold pseudo_span at hsum
    rw [hudp] at hsum
    by_cases hz : ((iplen : Int) - hl).toNat = 0
    · omega
    · rw [inside_iff (by omega) (by omega)] at hsum
      omega
  · rintro ⟨hle, hports, hsum⟩ w
    by_cases harp : w.arp (le32 m (14 + 12))
    · have hudp : (UInt16.ofNat (((iplen : Int) - hl) % 65536).toNat).toNat
          = ((iplen : Int) - hl).toNat := by
        simp only [UInt16.toNat_ofNat']
        omega
      simp only [harp, if_true, Bool.true_eq_false, if_false, allInside_append, allInside_cons]
      refine ⟨⟨hid, hsrc, allInside_nil⟩, inside_of_le (by omega) (by omega), ?_, ?_,
        allInside_nil⟩
      · unfold pseudo_span
        rw [hudp]
        exact inside_of_le (by omega) (by omega)
      · exact inside_of_le (by omega) (by omega)
    · simp only [harp, if_true, Bool.false_eq_true, if_false, allInside_cons]
      exact ⟨hid, hsrc, allInside_nil⟩

/-- A message is read whole where it is answered. -/
theorem icmp_inside (h₀ : 20 ≤ hl) (hhl : 14 + hl ≤ len) :
    (∀ w, AllInside len (usnet_icmp_input w m 14 hl iplen).reads) ↔ icmp_fits m hl iplen len := by
  have hid : (Span.mk (14 + 4) 2).Inside len := inside_of_le (by omega) (by omega)
  have hsrc : (Span.mk (14 + 12) 8).Inside len := inside_of_le (by omega) (by omega)
  unfold usnet_icmp_input icmp_fits
  -- the exits of the source: too short, wrong checksum, no echo, answered
  by_cases hmin : (iplen : Int) - hl < ICMP_MINLEN
  · simp only [hmin, if_true, stop_reads, allInside_nil, implies_true, true_iff]
    intro hge
    omega
  · have hmin' : 8 ≤ (iplen : Int) - hl := not_lt.mp hmin
    have hsum : (Span.mk (14 + hl) (2 * (((iplen : Int) - hl).toNat / 2))).Inside len ↔
        14 + hl + 2 * (((iplen : Int) - hl) / 2) ≤ len := by
      rw [inside_iff (by omega) (by omega)]
      omega
    have htype : 14 + hl + 2 * (((iplen : Int) - hl) / 2) ≤ len →
        (Span.mk (14 + hl) 1).Inside len := fun h => inside_of_le (by omega) (by omega)
    have hge : ICMP_MINLEN ≤ (iplen : Int) - hl := hmin'
    simp only [hmin, if_false, ETH_HEADER_LEN, Nat.cast_ofNat, hge, true_implies]
    by_cases hck : cksum m (14 + hl) ((iplen : Int) - hl) = 0
    · by_cases hecho : m (14 + hl) = ICMP_ECHO
      · simp only [hck, hecho, not_true_eq_false, ne_eq, if_false, after_reads, allInside_append,
          allInside_cons, allInside_nil, and_true, true_implies]
        unfold usnet_icmp_reflect usnet_ipv4_output_alone
        constructor
        · intro h
          have h := h (open_world 0 0)
          simp only [open_world, if_true, Bool.true_eq_false, if_false, allInside_append,
            allInside_cons] at h
          obtain ⟨⟨hs, -⟩, -, hcopy, -⟩ := h
          rw [inside_iff (by omega) (by omega)] at hcopy
          exact ⟨hsum.mp hs, by omega⟩
        · rintro ⟨hs, hall⟩ w
          refine ⟨⟨hsum.mpr hs, htype hs⟩, ?_⟩
          by_cases harp : w.arp (le32 m (14 + 12))
          · simp only [harp, if_true, Bool.true_eq_false, if_false, allInside_append,
              allInside_cons]
            exact ⟨⟨hsum.mpr hs, hid, hsrc, allInside_nil⟩,
              inside_of_le (by omega) (by omega), allInside_nil⟩
          · simp only [harp, if_true, Bool.false_eq_true, if_false, allInside_cons]
            exact ⟨hsum.mpr hs, hid, hsrc, allInside_nil⟩
      · simp only [hck, hecho, not_true_eq_false, ne_eq, if_false, not_false_eq_true, if_true,
          stop_reads, allInside_cons, allInside_nil, and_true, and_false, false_implies]
        exact ⟨fun h => hsum.mp (h (open_world 0 0)).1, fun h _ => ⟨hsum.mpr h, htype h⟩⟩
    · simp only [hck, ne_eq, not_false_eq_true, if_true, stop_reads, allInside_cons,
        allInside_nil, and_true, false_and, false_implies]
      exact ⟨fun h => hsum.mp (h (open_world 0 0)), fun h _ => hsum.mpr h⟩

/-- In its own world the segment's addresses are listened to. -/
theorem open_world_creates (ip : UInt32) (port : UInt16) :
    creates (open_world ip port).ctx ip port = true := by
  unfold creates usnet_handle_syn_pkt open_world
  simp [quiet_ctx, Option.filter]

/-- A segment's options are read in one world or another, unless it is a SYN with
    an acknowledgement and a reset. -/
theorem segment_inside {tcph : Int} {th_off payloadlen : Nat}
    (hpay : (Span.mk (tcph + 4 * th_off) payloadlen).Inside len) :
    (∀ w, AllInside len (segment_spans w m 14 tcph th_off payloadlen)) ↔
    (has (m (tcph + 13)) TH_SYN = true ∧ has (m (tcph + 13)) TH_ACK = false →
      AllInside len (tcpopts_spans m (tcph + 20) (4 * th_off - 20))) ∧
    (has (m (tcph + 13)) TH_RST = false →
      AllInside len (timestamp_spans m (tcph + 20) (4 * th_off - 20))) := by
  unfold segment_spans
  constructor
  -- one world in which the SYN creates a connection, and one with a connection found
  · intro h
    refine ⟨fun hflags => ?_, fun hrst => ?_⟩
    · obtain ⟨w, hfound, hcreates⟩ : ∃ w : World, w.found = none ∧
          creates w.ctx (le32 m (14 + 16)) (UInt16.ofNat (le16 m (tcph + 2))) = true :=
        ⟨open_world _ _, rfl, open_world_creates _ _⟩
      have h := h w
      simp only [hfound] at h
      rw [if_pos ⟨hflags.1, hflags.2, hcreates⟩] at h
      exact ((allInside_append _ _).mp h).1
    · obtain ⟨w, t, hfound, hval, hsaw⟩ : ∃ (w : World) (t : UsnTcb), w.found = some t ∧
          t.state.val ≥ TcpState.syn_received.val ∧ t.saw_timestamp = true :=
        ⟨stamped_world, stamped_tcb, rfl, by decide, by decide⟩
      have h := h w
      simp only [hfound] at h
      rw [if_pos ⟨hval, hrst, hsaw⟩] at h
      exact ((allInside_append _ _).mp h).1
  · rintro ⟨hopts, hts⟩ w
    have hone : AllInside len [⟨tcph + 4 * th_off, payloadlen⟩] :=
      (allInside_cons _ _).mpr ⟨hpay, allInside_nil⟩
    simp only
    cases w.found with
    | none =>
      simp only
      split
      · rename_i hsyn
        exact (allInside_append _ _).mpr ⟨hopts ⟨hsyn.1, hsyn.2.1⟩, hone⟩
      · exact allInside_nil
    | some t =>
      simp only
      split
      · rename_i hchk
        exact (allInside_append _ _).mpr ⟨hts hchk.2.1, hone⟩
      · exact hone

/-- A segment, up to the state machine and in it. -/
theorem tcp_inside (h₀ : 20 ≤ hl) (hhl : 14 + hl ≤ len) (hip : iplen < 65536) :
    (∀ w, AllInside len (usnet_tcp_input w m 14 hl iplen).reads) ↔ tcp_fits m hl iplen len := by
  have hsrc : (Span.mk (14 + 12) 8).Inside len := inside_of_le (by omega) (by omega)
  have hhead : AllInside len [⟨14 + hl + 12, 1⟩, ⟨14 + hl + 4, 4⟩, ⟨14 + hl + 8, 4⟩,
      ⟨14 + hl + 14, 2⟩] ↔ 14 + hl + 16 ≤ len := by
    simp only [allInside_cons, allInside_nil, and_true]
    rw [inside_iff (by omega) (by decide), inside_iff (by omega) (by decide),
      inside_iff (by omega) (by decide), inside_iff (by omega) (by decide)]
    omega
  unfold usnet_tcp_input tcp_fits
  simp only [ETH_HEADER_LEN, Nat.cast_ofNat]
  generalize hoff : (m (14 + hl + 12)).toNat / 16 = th_off
  by_cases hlt : (iplen : Int) < hl + 4 * th_off
  · -- the segment is shorter than its headers: nothing else is read
    simp only [hlt, if_true, stop_reads]
    constructor
    · intro h
      exact ⟨hhead.mp (h (open_world 0 0)), fun hle => absurd hlt (not_lt.mpr hle)⟩
    · rintro ⟨h, -⟩ w
      exact hhead.mpr h
  · have hle : hl + 4 * (th_off : Int) ≤ iplen := not_lt.mp hlt
    -- the length the checksum is taken over does not wrap here
    have hlen : (4 * (th_off : Int) + ((iplen : Int) - (hl + 4 * th_off))) % 65536
        = (iplen : Int) - hl := by omega
    have hnat : (UInt16.ofNat ((iplen : Int) - hl).toNat).toNat = ((iplen : Int) - hl).toNat := by
      simp only [UInt16.toNat_ofNat']
      omega
    have hsum : (pseudo_span (14 + hl) (UInt16.ofNat ((iplen : Int) - hl).toNat)).Inside len ↔
        14 + hl + 2 * (((iplen : Int) - hl + 1) / 2) ≤ len := by
      unfold pseudo_span
      rw [hnat]
      by_cases hz : ((iplen : Int) - hl).toNat = 0
      · rw [hz]
        exact ⟨fun _ => by omega, fun _ => .inl rfl⟩
      · rw [inside_iff (by omega) (by omega)]
        omega
    simp only [hlt, if_false, hlen, hle, true_implies]
    have h26 : (14 : Int) + 12 = 26 := rfl
    have h30 : (14 : Int) + 16 = 30 := rfl
    by_cases hck : tcp_cksum m (14 + hl) (UInt16.ofNat ((iplen : Int) - hl).toNat)
        (le32 m 26) (le32 m 30) = 0
    · simp only [h26, h30, hck, ne_eq, not_true_eq_false, if_false, stop_reads, true_implies,
        allInside_append, allInside_cons, allInside_nil, and_true]
      simp only [allInside_cons, allInside_nil, and_true] at hhead
      constructor
      · intro h
        obtain ⟨⟨⟨hh, hs, -⟩, -⟩, -⟩ := h (open_world 0 0)
        have hpay : (Span.mk (14 + hl + 4 * th_off)
            ((iplen : Int) - (hl + 4 * th_off)).toNat).Inside len :=
          inside_of_le (by omega) (by have := hsum.mp hs; omega)
        obtain ⟨hopts, hts⟩ := (segment_inside hpay).mp fun w => (h w).2
        exact ⟨hhead.mp hh, hsum.mp hs, fun hf => (option_spans_inside _ _ _ _ _).mp (hopts hf),
          fun hf => (option_spans_inside _ _ _ _ _).mp (hts hf)⟩
      · rintro ⟨hh, hs, hopts, hts⟩ w
        have hpay : (Span.mk (14 + hl + 4 * th_off)
            ((iplen : Int) - (hl + 4 * th_off)).toNat).Inside len :=
          inside_of_le (by omega) (by omega)
        refine ⟨⟨⟨hhead.mpr hh, hsum.mpr hs, hsrc⟩, inside_of_le (by omega) (by omega),
          inside_of_le (by omega) (by omega)⟩, ?_⟩
        exact (segment_inside hpay).mpr
          ⟨fun hf => (option_spans_inside _ _ _ _ _).mpr (hopts hf),
            fun hf => (option_spans_inside _ _ _ _ _).mpr (hts hf)⟩ w
    · simp only [h26, h30, hck, ne_eq, not_false_eq_true, if_true, stop_reads, false_implies,
        and_true, allInside_append, allInside_cons, allInside_nil]
      simp only [allInside_cons, allInside_nil, and_true] at hhead
      constructor
      · intro h
        obtain ⟨hh, hs, -⟩ := h (open_world 0 0)
        exact ⟨hhead.mp hh, hsum.mp hs⟩
      · rintro ⟨hh, hs⟩ w
        exact ⟨hhead.mpr hh, hsum.mpr hs, hsrc⟩

end

theorem be16_lt (m : Mem) (off : Int) : be16 m off < 65536 := by
  unfold be16
  have h₁ := (m off).toNat_lt
  have h₂ := (m (off + 1)).toNat_lt
  omega

theorem ip_hl_bounds (m : Mem) : -8 ≤ ip_hl m ∧ ip_hl m ≤ 7 := by
  unfold ip_hl
  simp only
  split <;> omega

/-- A header of at most four words never passes for a header of version 4. -/
theorem short_header_refused {m : Mem} {ihl : Nat} (h : ihl ≤ 4)
    (hsum : ip_fast_csum m 14 ihl = 0) : (m 14).toNat / 16 ≠ 4 := by
  unfold ip_fast_csum at hsum
  rw [if_pos h] at hsum
  unfold le16 at hsum
  omega

/-- A header whose length is negative has the checksum run through memory. -/
theorem negative_header {m : Mem} (hlen : len < 2 ^ 31) (hneg : ip_hl m < 0) :
    ¬ (csum_span 14 (ip_hl m % 2 ^ 32).toNat).Inside len := by
  have hb := ip_hl_bounds m
  have hihl : (ip_hl m % 2 ^ 32).toNat = (2 ^ 32 + ip_hl m).toNat := by omega
  unfold csum_span
  rw [hihl, if_neg (by omega), inside_iff (by decide) (by omega)]
  omega

/-- An IP packet, whatever its protocol. -/
theorem ip_inside {m : Mem} (hlen : len < 2 ^ 31) :
    (∀ w, AllInside len (usnet_ipv4_input w m).reads) ↔ ip_fits m len := by
  have hip := be16_lt m 16
  have hb := ip_hl_bounds m
  have hlenspan : (Span.mk 16 2).Inside len ↔ 18 ≤ len := by
    rw [inside_iff (by decide) (by decide)]
    omega
  have h16 : (14 : Int) + 2 = 16 := rfl
  have h23 : (14 : Int) + 9 = 23 := rfl
  unfold usnet_ipv4_input ip_fits
  simp only [ETH_HEADER_LEN, Nat.cast_ofNat, h16, h23]
  -- the exits of the source, before the protocols
  by_cases hshort : be16 m 16 < IP_HEADER_LEN
  · simp only [hshort, if_true, stop_reads, allInside_cons, allInside_nil, and_true]
    exact ⟨fun h => ⟨hlenspan.mp (h (open_world 0 0)), fun hge => absurd hshort (not_lt.mpr hge)⟩,
      fun h _ => hlenspan.mpr h.1⟩
  · have hge : IP_HEADER_LEN ≤ be16 m 16 := not_lt.mp hshort
    simp only [hshort, if_false, hge, true_implies]
    by_cases hneg : ip_hl m < 0
    · -- neither side holds
      constructor
      · intro h
        exfalso
        have h := h (open_world 0 0)
        refine negative_header hlen hneg ?_
        split at h
        · exact h _ (by simp)
        · split at h
          · exact h _ (by simp)
          · split at h
            · exact h _ (by simp)
            · split at h
              · exact h _ (by simp)
              · split at h
                · exact h _ (by simp)
                · exact h _ (by simp)
      · rintro ⟨-, h₀, -⟩
        omega
    · have hihl : (ip_hl m % 2 ^ 32).toNat = (ip_hl m).toNat := by omega
      rw [hihl]
      have hfirst : 18 ≤ len → (Span.mk 14 1).Inside len := fun h =>
        inside_of_le (by decide) (by omega)
      have hspan : (csum_span 14 (ip_hl m).toNat).Inside len ↔
          18 ≤ len ∧ (20 ≤ 4 * ip_hl m → 14 + 4 * ip_hl m ≤ len) := by
        unfold csum_span
        split
        · rw [inside_iff (by decide) (by decide)]
          omega
        · rw [inside_iff (by decide) (by omega)]
          omega
      have hhead : AllInside len [⟨16, 2⟩, ⟨14, 1⟩, csum_span 14 (ip_hl m).toNat] ↔
          18 ≤ len ∧ (20 ≤ 4 * ip_hl m → 14 + 4 * ip_hl m ≤ len) := by
        simp only [allInside_cons, allInside_nil, and_true, hspan, hlenspan]
        exact ⟨fun h => h.2.2, fun h => ⟨h.1, hfirst h.1, h⟩⟩
      have hrefused : (∀ _ : World,
          AllInside len [⟨16, 2⟩, ⟨14, 1⟩, csum_span 14 (ip_hl m).toNat]) ↔
          18 ≤ len ∧ 0 ≤ 4 * ip_hl m ∧ (20 ≤ 4 * ip_hl m → 14 + 4 * ip_hl m ≤ len) :=
        ⟨fun h => ⟨(hhead.mp (h (open_world 0 0))).1, by omega,
          (hhead.mp (h (open_world 0 0))).2⟩, fun h _ => hhead.mpr ⟨h.1, h.2.2⟩⟩
      by_cases hsum : ip_fast_csum m 14 (ip_hl m).toNat = 0
      · by_cases hver : (m 14).toNat / 16 = 4
        · -- a header that passes has at least five words
          have hfive : 20 ≤ 4 * ip_hl m := by
            by_contra hsmall
            exact short_header_refused (by omega) hsum hver
          have hbody : ∀ (body : World → Input) (fits : Prop),
              (14 + 4 * ip_hl m ≤ len → ((∀ w, AllInside len (body w).reads) ↔ fits)) →
              ((∀ w, AllInside len ([⟨16, 2⟩, ⟨14, 1⟩, csum_span 14 (ip_hl m).toNat] ++
                  [⟨23, 1⟩] ++ (body w).reads)) ↔
                18 ≤ len ∧ 0 ≤ 4 * ip_hl m ∧ 14 + 4 * ip_hl m ≤ len ∧ fits) := by
            intro body fits hfits
            constructor
            · intro h
              have hin := hhead.mp
                ((allInside_append _ _).mp ((allInside_append _ _).mp (h (open_world 0 0))).1).1
              exact ⟨hin.1, by omega, hin.2 hfive, (hfits (hin.2 hfive)).mp fun w =>
                ((allInside_append _ _).mp (h w)).2⟩
            · rintro ⟨h18, -, hhl, hf⟩ w
              have hproto : AllInside len [⟨23, 1⟩] :=
                (allInside_cons _ _).mpr ⟨inside_of_le (by decide) (by omega), allInside_nil⟩
              exact (allInside_append _ _).mpr
                ⟨(allInside_append _ _).mpr ⟨hhead.mpr ⟨h18, fun _ => hhl⟩, hproto⟩,
                  (hfits hhl).mpr hf w⟩
          have hne : IPPROTO_UDP ≠ IPPROTO_TCP ∧ IPPROTO_ICMP ≠ IPPROTO_TCP ∧
              IPPROTO_ICMP ≠ IPPROTO_UDP := by decide
          simp only [hsum, hver, hfive, ne_eq, not_true_eq_false, if_false, true_implies, and_self]
          by_cases htcp : m 23 = IPPROTO_TCP
          · simp only [htcp, if_true, true_implies, hne.1.symm, hne.2.1.symm, false_implies,
              and_true, after_reads]
            exact hbody _ _ fun hhl => tcp_inside hfive hhl hip
          · by_cases hudp : m 23 = IPPROTO_UDP
            · simp only [hudp, hne.1, if_true, if_false, true_implies, hne.2.2.symm,
                false_implies, and_true, true_and, after_reads]
              exact hbody _ _ fun hhl => udp_inside hlen hfive hhl hip
            · by_cases hicmp : m 23 = IPPROTO_ICMP
              · simp only [hicmp, hne.2.1, hne.2.2, if_true, if_false, true_implies,
                  false_implies, true_and, after_reads]
                exact hbody _ _ fun hhl => icmp_inside hfive hhl
              · simp only [htcp, hudp, hicmp, if_false, false_implies, and_self, and_true]
                have hnone := hbody (fun _ => stop []) True fun _ =>
                  ⟨fun _ => trivial, fun _ _ => allInside_nil⟩
                simpa only [stop_reads, List.append_nil, and_true] using hnone
        · simp only [hsum, hver, ne_eq, not_true_eq_false, not_false_eq_true, if_true, if_false,
            stop_reads, and_false, false_implies, and_true]
          exact hrefused
      · simp only [hsum, ne_eq, not_false_eq_true, if_true, stop_reads, false_and, false_implies,
          and_true]
        exact hrefused

/-- Everything read of a received frame lies in the frame, in whatever state the
    process is, if and only if its headers claim no more than was received. -/
theorem input_reads_inside (m : Mem) (len : Nat) (hlen : len < 2 ^ 31) :
    (∀ w, ∀ r ∈ (usnet_eth_input w m len).reads, r.Inside len) ↔ frame_fits m len := by
  have htype : (Span.mk 12 2).Inside len ↔ 14 ≤ len := by
    rw [inside_iff (by decide) (by decide)]
    omega
  have hbody : ∀ (body : World → Input) (fits : Prop),
      ((∀ w, AllInside len (body w).reads) ↔ fits) →
      ((∀ w, AllInside len ([⟨12, 2⟩] ++ (body w).reads)) ↔ 14 ≤ len ∧ fits) := by
    intro body fits hfits
    simp only [allInside_append, allInside_cons, allInside_nil, and_true, htype]
    exact ⟨fun h => ⟨(h (open_world 0 0)).1, hfits.mp fun w => (h w).2⟩,
      fun h w => ⟨h.1, hfits.mpr h.2 w⟩⟩
  show (∀ w, AllInside len (usnet_eth_input w m len).reads) ↔ _
  unfold usnet_eth_input frame_fits
  by_cases hip : be16 m 12 = 0x0800
  · have harp : ¬ be16 m 12 = 0x0806 := by omega
    simp only [hip, if_true, true_implies, after_reads]
    rw [hbody _ _ (ip_inside hlen)]
    simp
  · by_cases harp : be16 m 12 = 0x0806
    · simp only [if_neg hip, if_pos harp, after_reads]
      rw [hbody _ (42 ≤ len) ⟨fun h => (arp_inside _ _).mp (h (open_world 0 0)),
        fun h w => (arp_inside w m).mpr h⟩]
      exact ⟨fun h => ⟨h.1, fun _ => h.2, fun h' => absurd h' hip⟩,
        fun h => ⟨h.1, h.2.1 harp⟩⟩
    · simp only [if_neg hip, if_neg harp, stop_reads, allInside_cons, allInside_nil, and_true,
        htype]
      exact ⟨fun h => ⟨h (open_world 0 0), fun h' => absurd h' harp, fun h' => absurd h' hip⟩,
        fun h _ => h.1⟩

/-- The bytes of a frame that has been received. -/
def frame_of (l : List UInt8) : Mem := fun off => if 0 ≤ off then l.getD off.toNat 0 else 0

/-- A datagram from 10.0.0.1 to 10.0.0.2 with the checksum of its IP header as it
    is loaded; its own header is zero. -/
def udp_frame (iplen : Nat) (cksum : Nat) : Mem :=
  frame_of [0, 0, 0, 0, 0, 2, 0, 0, 0, 0, 0, 1, 8, 0, 0x45, 0, UInt8.ofNat (iplen / 256),
    UInt8.ofNat iplen, 0, 0, 0, 0, 64, IPPROTO_UDP, UInt8.ofNat cksum, UInt8.ofNat (cksum / 256),
    10, 0, 0, 1, 10, 0, 0, 2]

/-- A datagram of 26 bytes in a frame of 60. -/
theorem input_reads_inside_sample :
    AllInside 60 (usnet_eth_input (open_world 0 0) (udp_frame 46 48486) 60).reads := by
  refine (input_reads_inside (udp_frame 46 48486) 60 (by decide)).mpr ?_ (open_world 0 0)
  have hlen : be16 (udp_frame 46 48486) 16 = 46 := by decide
  have hhl : ip_hl (udp_frame 46 48486) = 5 := by decide
  have hproto : udp_frame 46 48486 23 = IPPROTO_UDP := by decide
  refine ⟨by decide, fun h => absurd h (by decide), fun _ => ⟨by decide, fun _ => ?_⟩⟩
  simp only [hlen, hhl, hproto]
  exact ⟨by decide, fun _ => ⟨by decide, fun _ => ⟨fun h => absurd h (by decide),
    fun _ => by unfold udp_fits; decide, fun h => absurd h (by decide)⟩⟩⟩

/-- The same frame with a valid header that claims 1500 bytes: the checksum and
    the echo take 1434 bytes from behind it. -/
theorem input_reads_behind :
    ¬ ∀ (m : Mem) (len : Nat), len < 2 ^ 31 →
      ∀ w, ∀ r ∈ (usnet_eth_input w m len).reads, r.Inside len := by
  intro h
  have hr : (Span.mk 34 1480) ∈ (usnet_eth_input (open_world 0 0) (udp_frame 1500 3937) 60).reads := by
    decide +kernel
  exact absurd (h _ 60 (by decide) _ _ hr) (by decide)

end Wire

end Usnet
