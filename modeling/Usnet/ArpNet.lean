import Mathlib.Data.Fintype.Card
import Mathlib.Data.List.Find
import Usnet.Arp
import Usnet.Lib.Run

/-! # Address resolution on a network (arp.c, ip.c)

    Any number of hosts that run this code and other stations on one link.  What
    has been sent may arrive anywhere, late, several times or never.  The first
    packet of a sender fills the entry for its address and nothing changes it
    afterwards, so every table is that of `arp_run` for the packets that have
    arrived, whatever came in between.
-/

namespace Usnet

namespace Arp

open Run

/-! ## Section 1: Hosts and packets -/

/-- `usnet_arp_request`: the packet that asks for the owner of an address. -/
def usnet_arp_request (ifnet : UsnIfnet) (ip : UInt32) : UsnArphdr :=
  usnet_arp_output ifnet USN_ARPOP_REQUEST ip (Vector.replicate 6 255)

/-- The tables of the hosts, the ARP packets they have sent and, to look back on, the
    packets that have arrived at each host and the IP packets that went out: who sent
    it, to which address and to which hardware address. -/
structure Net (ι : Type) where
  table : ι → UsnArpTable
  sent : Set UsnArphdr
  inbox : ι → List UsnArphdr
  frames : Set (ι × UInt32 × Hwaddr)

/-- A host has an IP packet for an address, or an ARP packet arrives at it. -/
inductive NetEvent (ι : Type) where
  | output (i : ι) (daddr : UInt32)
  | arrive (i : ι) (arph : UsnArphdr)

section
variable {ι : Type} (ifnet : ι → UsnIfnet) (foreign : Set UsnArphdr)

/-- What `usnet_ipv4_output` and `usnet_ipv4_output_alone` do first: the frame gets the
    hardware address found, or the address is asked for and the packet is lost. -/
def Net.output (s : Net ι) (i : ι) (daddr : UInt32) : Net ι :=
  match usnet_get_hwaddr (s.table i) daddr with
  | some haddr => { s with frames := insert (i, daddr, haddr) s.frames }
  | none => { s with sent := insert (usnet_arp_request (ifnet i) daddr) s.sent }

/-- Every host has just been started. -/
def Net.Start (s : Net ι) : Prop :=
  (∀ i, s.table i = usnet_arp_init (ifnet i)) ∧ s.sent = ∅ ∧ (∀ i, s.inbox i = []) ∧ s.frames = ∅

/-- Each table is what the packets that arrived make of it; these were sent by hosts or
    other stations, those of a host under its own addresses; a frame carries what the
    table says; and a request that has arrived at its host is answered. -/
structure Net.Inv (s : Net ι) : Prop where
  table : ∀ i, s.table i = arp_run (ifnet i) (s.inbox i)
  origin : ∀ i, ∀ p ∈ s.inbox i, p ∈ s.sent ∨ p ∈ foreign
  genuine : ∀ p ∈ s.sent, ∃ j, p.ar_spa = (ifnet j).addr ∧ p.ar_sha = (ifnet j).hwa
  frames : ∀ i daddr haddr, (i, daddr, haddr) ∈ s.frames →
    usnet_get_hwaddr (s.table i) daddr = some haddr
  answered : ∀ j, ∀ p ∈ s.inbox j, p.ar_tpa = (ifnet j).addr → p.ar_op = USN_ARPOP_REQUEST →
    usnet_arp_output (ifnet j) USN_ARPOP_REPLY p.ar_spa p.ar_sha ∈ s.sent

variable {ifnet foreign} {s : Net ι}

theorem Net.Inv.start (h : s.Start ifnet) : s.Inv ifnet foreign := by
  obtain ⟨htable, hsent, hinbox, hframes⟩ := h
  refine ⟨fun i => ?_, fun i p hp => ?_, fun p hp => ?_, fun i daddr haddr hf => ?_,
    fun j p hp => ?_⟩
  · rw [htable, hinbox]
    rfl
  · rw [hinbox] at hp
    cases hp
  · rw [hsent] at hp
    cases hp
  · rw [hframes] at hf
    cases hf
  · rw [hinbox] at hp
    cases hp

/-! ## Section 2: What a table says -/

/-- The first entry is the host's own, for address 0. -/
theorem arp_run_first (host : UsnIfnet) (ps : List UsnArphdr) :
    ((arp_run host ps).entries 0).ip = 0 ∧ 0 < (arp_run host ps).cnt := by
  induction ps using List.reverseRecOn with
  | nil => exact ⟨rfl, Nat.one_pos⟩
  | append_singleton ps arph ih =>
    rw [arp_run_snoc, usnet_arp_input_table]
    split
    · unfold learn
      split
      · rw [register_entries _ ih.2]
        exact ⟨ih.1, Nat.succ_pos _⟩
      · exact ih
    · exact ih

/-- The hardware address found has arrived in a packet of that sender. -/
theorem Net.Inv.announced (h : s.Inv ifnet foreign) {i : ι} {ip : UInt32} (hip : ip ≠ 0)
    {haddr : Hwaddr} (hget : usnet_get_hwaddr (s.table i) ip = some haddr) :
    ∃ p ∈ s.inbox i, p.ar_spa = ip ∧ p.ar_sha = haddr := by
  obtain ⟨k, hk, rfl⟩ := Option.map_eq_some_iff.mp hget
  obtain ⟨hlt, rfl⟩ := usnet_get_arp_some hk
  have hfirst := arp_run_first (ifnet i) (s.inbox i)
  have hannounced := (inv_run (ifnet i) (s.inbox i)).announced k
  rw [← h.table i] at hfirst hannounced
  have hpos : 0 < k := by
    rcases Nat.eq_zero_or_pos k with rfl | hpos
    · exact absurd hfirst.1 hip
    · exact hpos
  obtain ⟨p, hp, -, hspa, hsha⟩ := hannounced hpos hlt
  exact ⟨p, hp, hspa, hsha⟩

/-! ## Section 3: One event -/

/-- An entry that is found is found ever after. -/
theorem usnet_register_arp_hwaddr {t : UsnArpTable} {ip ip' : UInt32} {haddr haddr' : Hwaddr}
    (h : usnet_get_hwaddr t ip = some haddr) :
    usnet_get_hwaddr (usnet_register_arp t ip' haddr') ip = some haddr := by
  obtain ⟨i, hi, rfl⟩ := Option.map_eq_some_iff.mp h
  have hlt := (usnet_get_arp_some hi).1
  have hold : (List.range t.cnt).find?
      (fun j => ((usnet_register_arp t ip' haddr').entries j).ip = ip) = some i := by
    rw [← hi]
    apply List.find?_congr
    intro j hj
    rw [register_entries haddr' (List.mem_range.mp hj)]
  have hcnt : (usnet_register_arp t ip' haddr').cnt = t.cnt + 1 := rfl
  unfold usnet_get_hwaddr
  rw [hcnt, List.range_succ, List.find?_append, hold, Option.some_or, Option.map_some,
    register_entries haddr' hlt]

theorem usnet_arp_input_hwaddr {host : UsnIfnet} {t : UsnArpTable} {arph : UsnArphdr}
    {ip : UInt32} {haddr : Hwaddr} (h : usnet_get_hwaddr t ip = some haddr) :
    usnet_get_hwaddr (usnet_arp_input host t arph).1 ip = some haddr := by
  rw [usnet_arp_input_table]
  split
  · unfold learn
    split
    · exact usnet_register_arp_hwaddr h
    · exact h
  · exact h

/-- What a host sends in answer is an answer to the sender. -/
theorem usnet_arp_input_reply {host : UsnIfnet} {t : UsnArpTable} {arph p : UsnArphdr} :
    (usnet_arp_input host t arph).2.2 = some p ↔
      arph.ar_tpa = host.addr ∧ arph.ar_op = USN_ARPOP_REQUEST ∧
        p = usnet_arp_output host USN_ARPOP_REPLY arph.ar_spa arph.ar_sha := by
  have hother : USN_ARPOP_REPLY ≠ USN_ARPOP_REQUEST := by decide
  unfold usnet_arp_input usnet_arp_req_handler
  by_cases htpa : arph.ar_tpa = host.addr
  · by_cases hreq : arph.ar_op = USN_ARPOP_REQUEST
    · simp [htpa, hreq, eq_comm]
    · by_cases hrep : arph.ar_op = USN_ARPOP_REPLY <;> simp [htpa, hreq, hrep, hother]
  · simp [htpa]

theorem Net.Inv.output (h : s.Inv ifnet foreign) (i : ι) (daddr : UInt32) :
    (s.output ifnet i daddr).Inv ifnet foreign := by
  unfold Net.output
  split
  · rename_i haddr hfound
    refine ⟨h.table, h.origin, h.genuine, ?_, h.answered⟩
    rintro k d x (hnew | hold)
    · obtain ⟨rfl, rfl, rfl⟩ : k = i ∧ d = daddr ∧ x = haddr := by simpa using hnew
      exact hfound
    · exact h.frames k d x hold
  · refine ⟨h.table, fun k p hp => (h.origin k p hp).imp_left (.inr ·), ?_, h.frames,
      fun j p hp htpa hop => .inr (h.answered j p hp htpa hop)⟩
    rintro p (rfl | hp)
    · exact ⟨i, rfl, rfl⟩
    · exact h.genuine p hp

variable [DecidableEq ι]

/-- `usnet_arp_input` at a host. -/
def Net.arrive (ifnet : ι → UsnIfnet) (s : Net ι) (i : ι) (arph : UsnArphdr) : Net ι :=
  let (t, _, reply) := usnet_arp_input (ifnet i) (s.table i) arph
  { s with
    table := Function.update s.table i t
    sent := s.sent ∪ {p | reply = some p}
    inbox := Function.update s.inbox i (s.inbox i ++ [arph]) }

/-- Only what a host or another station has sent arrives. -/
inductive Net.Step (ifnet : ι → UsnIfnet) (foreign : Set UsnArphdr) :
    Net ι → NetEvent ι → Net ι → Prop
  | output {s : Net ι} (i : ι) (daddr : UInt32) :
      Step ifnet foreign s (.output i daddr) (s.output ifnet i daddr)
  | arrive {s : Net ι} (i : ι) {arph : UsnArphdr} : arph ∈ s.sent ∨ arph ∈ foreign →
      Step ifnet foreign s (.arrive i arph) (s.arrive ifnet i arph)

theorem Net.Inv.arrive (h : s.Inv ifnet foreign) (i : ι) {arph : UsnArphdr}
    (hfrom : arph ∈ s.sent ∨ arph ∈ foreign) : (s.arrive ifnet i arph).Inv ifnet foreign := by
  have hsent : ∀ p, p ∈ (s.arrive ifnet i arph).sent ↔ p ∈ s.sent ∨
      (usnet_arp_input (ifnet i) (s.table i) arph).2.2 = some p := fun p => Iff.rfl
  have hinbox : ∀ k, ∀ p ∈ (s.arrive ifnet i arph).inbox k, p ∈ s.inbox k ∨ k = i ∧ p = arph := by
    intro k p hp
    by_cases hk : k = i
    · subst hk
      simp only [Net.arrive, Function.update_self, List.mem_append, List.mem_singleton] at hp
      exact hp.imp_right fun hp => ⟨rfl, hp⟩
    · simp only [Net.arrive, Function.update_of_ne hk] at hp
      exact .inl hp
  refine ⟨fun k => ?_, fun k p hp => ?_, fun p hp => ?_, fun k daddr haddr hf => ?_,
    fun j p hp htpa hop => ?_⟩
  · by_cases hk : k = i
    · subst hk
      simp only [Net.arrive, Function.update_self]
      rw [arp_run_snoc, h.table]
    · simp only [Net.arrive, Function.update_of_ne hk]
      exact h.table k
  · rw [hsent]
    rcases hinbox k p hp with hp | ⟨-, rfl⟩
    · exact (h.origin k p hp).imp_left .inl
    · exact hfrom.imp_left .inl
  · rcases (hsent p).mp hp with hp | hp
    · exact h.genuine p hp
    · obtain ⟨-, -, rfl⟩ := usnet_arp_input_reply.mp hp
      exact ⟨i, rfl, rfl⟩
  · have hfound := h.frames k daddr haddr hf
    by_cases hk : k = i
    · subst hk
      simp only [Net.arrive, Function.update_self]
      exact usnet_arp_input_hwaddr hfound
    · simp only [Net.arrive, Function.update_of_ne hk]
      exact hfound
  · rw [hsent]
    rcases hinbox j p hp with hp | ⟨rfl, rfl⟩
    · exact .inl (h.answered j p hp htpa hop)
    · exact .inr (usnet_arp_input_reply.mpr ⟨htpa, hop, rfl⟩)

theorem Net.Inv.reachable (h : Reachable (Net.Step ifnet foreign) (Net.Start ifnet) s) :
    s.Inv ifnet foreign := by
  refine h.invariant (fun s hs => .start hs) ?_
  rintro s ev s' hinv - (⟨i, daddr⟩ | ⟨i, hfrom⟩)
  · exact hinv.output i daddr
  · exact hinv.arrive i hfrom

end

/-! ## Section 4: Resolution -/

/-- Two hosts, of which the first wants to send to the second. -/
def pair : Bool → UsnIfnet := fun b =>
  if b then { addr := 0x0a000002, hwa := Vector.replicate 6 2 }
  else { addr := 0x0a000001, hwa := Vector.replicate 6 1 }

def pair_started : Net Bool :=
  { table := fun i => usnet_arp_init (pair i), sent := ∅, inbox := fun _ => [], frames := ∅ }

def pair_asked : Net Bool := pair_started.output pair false 0x0a000002
def pair_answered : Net Bool :=
  pair_asked.arrive pair true (usnet_arp_request (pair false) 0x0a000002)
def pair_resolved : Net Bool :=
  pair_answered.arrive pair false
    (usnet_arp_output (pair true) USN_ARPOP_REPLY 0x0a000001 (Vector.replicate 6 1))
def pair_sent : Net Bool := pair_resolved.output pair false 0x0a000002

theorem pair_resolved_reached :
    Reachable (Net.Step pair ∅) (Net.Start pair) pair_resolved := by
  have hstart : pair_started.Start pair := ⟨fun _ => rfl, rfl, fun _ => rfl, rfl⟩
  have hasked : Net.Step pair ∅ pair_started (.output false 0x0a000002) pair_asked := .output _ _
  have hanswered : Net.Step pair ∅ pair_asked
      (.arrive true (usnet_arp_request (pair false) 0x0a000002)) pair_answered :=
    .arrive _ (.inl (.inl rfl))
  have hresolved : Net.Step pair ∅ pair_answered (.arrive false
      (usnet_arp_output (pair true) USN_ARPOP_REPLY 0x0a000001 (Vector.replicate 6 1)))
      pair_resolved := .arrive _ (.inl (.inr rfl))
  exact (((RunWhere.init hstart).next hasked trivial).next hanswered trivial).next hresolved trivial

theorem pair_sent_reached : Reachable (Net.Step pair ∅) (Net.Start pair) pair_sent :=
  pair_resolved_reached.next (.output _ _) trivial

/-- With fewer hosts than a table has entries, and nobody else on the link under an
    address of its own, no table is ever written to behind its block. -/
theorem arp_net_inside {ι : Type} [DecidableEq ι] [Fintype ι] {ifnet : ι → UsnIfnet}
    {foreign : Set UsnArphdr} {s : Net ι}
    (hforeign : ∀ p ∈ foreign, ∃ j, p.ar_spa = (ifnet j).addr)
    (hcard : Fintype.card ι < MAX_ARP_ENTRIES)
    (h : Reachable (Net.Step ifnet foreign) (Net.Start ifnet) s) (i : ι) :
    (s.table i).outside = false ∧ (s.table i).cnt ≤ Fintype.card ι + 1 := by
  have hinv := Net.Inv.reachable h
  have hsub : senders (ifnet i) (s.inbox i) ⊆ Finset.univ.image fun j => (ifnet j).addr := by
    intro ip hip
    obtain ⟨-, p, hp, -, rfl⟩ := mem_senders.mp hip
    rw [Finset.mem_image]
    rcases hinv.origin i p hp with hsent | hfrom
    · obtain ⟨k, hspa, -⟩ := hinv.genuine p hsent
      exact ⟨k, Finset.mem_univ k, hspa.symm⟩
    · obtain ⟨k, hspa⟩ := hforeign p hfrom
      exact ⟨k, Finset.mem_univ k, hspa.symm⟩
  have hle := (Finset.card_le_card hsub).trans Finset.card_image_le
  rw [Finset.card_univ] at hle
  have hrun := inv_run (ifnet i) (s.inbox i)
  rw [← hinv.table i] at hrun
  have hcnt := hrun.cnt
  refine ⟨?_, by omega⟩
  rw [hrun.outside]
  exact decide_eq_false (by omega)

theorem arp_net_inside_pair :
    (pair_sent.table false).outside = false ∧ (pair_sent.table false).cnt ≤ 3 :=
  arp_net_inside (fun _ h => absurd h (Set.notMem_empty _)) (by decide) pair_sent_reached false

end Arp

end Usnet
