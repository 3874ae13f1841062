import Mathlib.Data.Finset.Card
import Mathlib.Data.Finset.Dedup
import Mathlib.Data.List.Infix
import Mathlib.Logic.Function.Basic
import Mathlib.Data.UInt

/-! # The ARP table (arp.c)

    Every request or reply for this host whose sender is not in the table adds
    an entry behind the others.  The table is searched from the front, so the
    addresses stay different and the first entry of an address is its only one.
    Nothing removes an entry and nothing compares `cnt` with the size of the
    block: the number of entries is the number of senders there have been.
-/

namespace Usnet

namespace Arp

/-! ## Section 1: The table -/

def MAX_ARP_ENTRIES : Nat := 1024

/-- `ETH_LEN` bytes. -/
abbrev Hwaddr := Vector UInt8 6

structure UsnArpEntry where
  ip : UInt32
  haddr : Hwaddr

/-- `usn_arp_table`: the memory from `entries` on, of which `MAX_ARP_ENTRIES` have
    been allocated, and whether there has been a write behind these. -/
structure UsnArpTable where
  entries : Nat → UsnArpEntry
  cnt : Nat
  outside : Bool

/-- The address and the hardware address of the interface. -/
structure UsnIfnet where
  addr : UInt32
  hwa : Hwaddr

/-- `usn_arphdr`, in the byte order of the host. -/
structure UsnArphdr where
  ar_hrd : UInt16
  ar_pro : UInt16
  ar_hln : UInt8
  ar_pln : UInt8
  ar_op : UInt16
  ar_sha : Hwaddr
  ar_spa : UInt32
  ar_tha : Hwaddr
  ar_tpa : UInt32

def USN_ARPOP_REQUEST : UInt16 := 1
def USN_ARPOP_REPLY : UInt16 := 2

/-- The index of the entry `usnet_get_arp` returns. -/
def usnet_get_arp (t : UsnArpTable) (ip : UInt32) : Option Nat :=
  (List.range t.cnt).find? fun i => (t.entries i).ip = ip

def usnet_get_hwaddr (t : UsnArpTable) (ip : UInt32) : Option Hwaddr :=
  ((List.range t.cnt).find? fun i => (t.entries i).ip = ip).map fun i => (t.entries i).haddr

def usnet_register_arp (t : UsnArpTable) (ip : UInt32) (haddr : Hwaddr) : UsnArpTable :=
  let idx := t.cnt
  { entries := Function.update t.entries idx { ip := ip, haddr := haddr }
    cnt := t.cnt + 1
    outside := t.outside || decide (MAX_ARP_ENTRIES ≤ idx) }

/-- The packet `usnet_arp_output` sends to `dst_haddr`. -/
def usnet_arp_output (ifnet : UsnIfnet) (op : UInt16) (dst_ip : UInt32) (dst_haddr : Hwaddr) :
    UsnArphdr :=
  { ar_hrd := 1, ar_pro := 0x0800, ar_hln := 6, ar_pln := 4, ar_op := op, ar_sha := ifnet.hwa,
    ar_spa := ifnet.addr, ar_tha := dst_haddr, ar_tpa := dst_ip }

/-- What both handlers begin with. -/
def learn (t : UsnArpTable) (arph : UsnArphdr) : UsnArpTable :=
  match usnet_get_arp t arph.ar_spa with
  | none => usnet_register_arp t arph.ar_spa arph.ar_sha
  | some _ => t

def usnet_arp_req_handler (ifnet : UsnIfnet) (t : UsnArpTable) (arph : UsnArphdr) :
    UsnArpTable × UsnArphdr :=
  (learn t arph, usnet_arp_output ifnet USN_ARPOP_REPLY arph.ar_spa arph.ar_sha)

def usnet_arp_reply_handler (t : UsnArpTable) (arph : UsnArphdr) : UsnArpTable := learn t arph

/-- `usnet_arp_input`, with the packet sent in answer. -/
def usnet_arp_input (ifnet : UsnIfnet) (t : UsnArpTable) (arph : UsnArphdr) :
    UsnArpTable × Int × Option UsnArphdr :=
  if arph.ar_tpa ≠ ifnet.addr then (t, -1, none)
  else if arph.ar_op = USN_ARPOP_REQUEST then
    let (t, reply) := usnet_arp_req_handler ifnet t arph
    (t, 0, some reply)
  else if arph.ar_op = USN_ARPOP_REPLY then (usnet_arp_reply_handler t arph, 0, none)
  else (t, 0, none)

/-- `usnet_arp_init`: the first entry has the address 0 and the interface's own
    hardware address. -/
def usnet_arp_init (ifnet : UsnIfnet) : UsnArpTable :=
  let zero : UsnArpEntry := { ip := 0, haddr := Vector.replicate 6 0 }
  { entries := Function.update (fun _ => zero) 0 { zero with haddr := ifnet.hwa }
    cnt := 1
    outside := false }

/-! ## Section 2: Searching the table -/

variable {t : UsnArpTable} {ip : UInt32}

theorem usnet_get_arp_none :
    usnet_get_arp t ip = none ↔ ∀ i < t.cnt, (t.entries i).ip ≠ ip := by
  unfold usnet_get_arp
  simp

/-- What is found is an entry of that address. -/
theorem usnet_get_arp_some {i : Nat} (h : usnet_get_arp t ip = some i) :
    i < t.cnt ∧ (t.entries i).ip = ip := by
  unfold usnet_get_arp at h
  have hmem := List.mem_of_find?_eq_some h
  have hip := List.find?_some h
  exact ⟨List.mem_range.mp hmem, by simpa using hip⟩

theorem usnet_get_hwaddr_eq :
    usnet_get_hwaddr t ip = (usnet_get_arp t ip).map fun i => (t.entries i).haddr := rfl

/-- The addresses of the entries are different. -/
def Functional (t : UsnArpTable) : Prop :=
  ∀ i j, i < t.cnt → j < t.cnt → (t.entries i).ip = (t.entries j).ip → i = j

/-- Where the addresses are different, the search finds the one entry there is. -/
theorem Functional.found (h : Functional t) {i : Nat} (hi : i < t.cnt) :
    usnet_get_hwaddr t (t.entries i).ip = some (t.entries i).haddr := by
  rw [usnet_get_hwaddr_eq]
  cases hget : usnet_get_arp t (t.entries i).ip with
  | none => exact absurd rfl (usnet_get_arp_none.mp hget i hi)
  | some j =>
    obtain ⟨hj, hip⟩ := usnet_get_arp_some hget
    rw [h j i hj hi hip]
    rfl

/-- `usnet_register_arp` writes behind the entries there are. -/
theorem register_entries (haddr : Hwaddr) {i : Nat} (hi : i < t.cnt) :
    (usnet_register_arp t ip haddr).entries i = t.entries i :=
  Function.update_of_ne (Nat.ne_of_lt hi) _ _

theorem register_last (haddr : Hwaddr) :
    (usnet_register_arp t ip haddr).entries t.cnt = { ip := ip, haddr := haddr } :=
  Function.update_self _ _ _

/-! ## Section 3: Runs -/

/-- A request or reply addressed to this host. -/
def Handled (ifnet : UsnIfnet) (arph : UsnArphdr) : Prop :=
  arph.ar_tpa = ifnet.addr ∧ (arph.ar_op = USN_ARPOP_REQUEST ∨ arph.ar_op = USN_ARPOP_REPLY)

instance (ifnet : UsnIfnet) (arph : UsnArphdr) : Decidable (Handled ifnet arph) :=
  inferInstanceAs (Decidable (_ ∧ _))

/-- The table after the packets `ps`, from the one `usnet_arp_init` makes. -/
def arp_run (ifnet : UsnIfnet) (ps : List UsnArphdr) : UsnArpTable :=
  ps.foldl (fun t arph => (usnet_arp_input ifnet t arph).1) (usnet_arp_init ifnet)

/-- The sender addresses of the packets for this host, other than 0. -/
def senders (ifnet : UsnIfnet) (ps : List UsnArphdr) : Finset UInt32 :=
  ((ps.filter fun arph => Handled ifnet arph).map UsnArphdr.ar_spa).toFinset.erase 0

/-- Requests and replies change the table alike, other packets not at all. -/
theorem usnet_arp_input_table (ifnet : UsnIfnet) (t : UsnArpTable) (arph : UsnArphdr) :
    (usnet_arp_input ifnet t arph).1 = if Handled ifnet arph then learn t arph else t := by
  unfold usnet_arp_input
  by_cases htpa : arph.ar_tpa = ifnet.addr
  · rw [if_neg (by simpa using htpa)]
    by_cases hreq : arph.ar_op = USN_ARPOP_REQUEST
    · have hhandled : Handled ifnet arph := ⟨htpa, .inl hreq⟩
      rw [if_pos hreq, if_pos hhandled]
      rfl
    · rw [if_neg hreq]
      by_cases hrep : arph.ar_op = USN_ARPOP_REPLY
      · have hhandled : Handled ifnet arph := ⟨htpa, .inr hrep⟩
        rw [if_pos hrep, if_pos hhandled]
        rfl
      · have hother : ¬ Handled ifnet arph := fun h => h.2.elim hreq hrep
        rw [if_neg hrep, if_neg hother]
  · have hother : ¬ Handled ifnet arph := fun h => htpa h.1
    rw [if_pos htpa, if_neg hother]

theorem arp_run_snoc (ifnet : UsnIfnet) (ps : List UsnArphdr) (arph : UsnArphdr) :
    arp_run ifnet (ps ++ [arph]) = (usnet_arp_input ifnet (arp_run ifnet ps) arph).1 := by
  unfold arp_run
  rw [List.foldl_append]
  rfl

theorem mem_senders {ifnet : UsnIfnet} {ps : List UsnArphdr} :
    ip ∈ senders ifnet ps ↔ ip ≠ 0 ∧ ∃ arph ∈ ps, Handled ifnet arph ∧ arph.ar_spa = ip := by
  unfold senders
  simp [and_assoc]

/-- Fewer packets have fewer senders. -/
theorem senders_mono {ifnet : UsnIfnet} {qs ps : List UsnArphdr} (h : qs <+: ps) :
    senders ifnet qs ⊆ senders ifnet ps := by
  intro ip hip
  obtain ⟨hne, arph, hmem, hrest⟩ := mem_senders.mp hip
  exact mem_senders.mpr ⟨hne, arph, h.subset hmem, hrest⟩

/-- A sender that is known, or the address 0, adds nothing. -/
theorem senders_snoc_known {ifnet : UsnIfnet} {ps : List UsnArphdr} {arph : UsnArphdr}
    (h : Handled ifnet arph → arph.ar_spa = 0 ∨ arph.ar_spa ∈ senders ifnet ps) :
    senders ifnet (ps ++ [arph]) = senders ifnet ps := by
  apply Finset.Subset.antisymm
  · intro ip hip
    obtain ⟨hne, p, hmem, hhandled, hspa⟩ := mem_senders.mp hip
    rcases List.mem_append.mp hmem with hmem | hmem
    · exact mem_senders.mpr ⟨hne, p, hmem, hhandled, hspa⟩
    · rw [List.mem_singleton.mp hmem] at hhandled hspa
      rw [← hspa]
      rcases h hhandled with hzero | hin
      · exact absurd (hspa.symm.trans hzero) hne
      · exact hin
  · exact senders_mono (List.prefix_append _ _)

/-- A new sender is one more. -/
theorem senders_snoc_new {ifnet : UsnIfnet} {ps : List UsnArphdr} {arph : UsnArphdr}
    (hhandled : Handled ifnet arph) (hzero : arph.ar_spa ≠ 0)
    (hnew : arph.ar_spa ∉ senders ifnet ps) :
    (senders ifnet (ps ++ [arph])).card = (senders ifnet ps).card + 1 := by
  have hinsert : senders ifnet (ps ++ [arph]) = insert arph.ar_spa (senders ifnet ps) := by
    ext ip
    rw [Finset.mem_insert, mem_senders, mem_senders]
    constructor
    · rintro ⟨hne, p, hmem, hrest⟩
      rcases List.mem_append.mp hmem with hmem | hmem
      · exact .inr ⟨hne, p, hmem, hrest⟩
      · rw [List.mem_singleton.mp hmem] at hrest
        exact .inl hrest.2.symm
    · rintro (rfl | ⟨hne, p, hmem, hrest⟩)
      · exact ⟨hzero, arph, by simp, hhandled, rfl⟩
      · exact ⟨hne, p, by simp [hmem], hrest⟩
  rw [hinsert, Finset.card_insert_of_notMem hnew]

/-! ## Section 4: One entry for every sender -/

/-- Some packet of the list announced this entry. -/
def Announced (ifnet : UsnIfnet) (ps : List UsnArphdr) (e : UsnArpEntry) : Prop :=
  ∃ arph ∈ ps, Handled ifnet arph ∧ arph.ar_spa = e.ip ∧ arph.ar_sha = e.haddr

theorem Announced.mono {ifnet : UsnIfnet} {qs ps : List UsnArphdr} {e : UsnArpEntry}
    (h : Announced ifnet qs e) (hsub : qs ⊆ ps) : Announced ifnet ps e := by
  obtain ⟨arph, hmem, hrest⟩ := h
  exact ⟨arph, hsub hmem, hrest⟩

/-- The table after the packets `ps`: the host's own entry, then one entry for
    every sender. -/
structure Inv (ifnet : UsnIfnet) (ps : List UsnArphdr) (t : UsnArpTable) : Prop where
  cnt : t.cnt = (senders ifnet ps).card + 1
  outside : t.outside = decide (MAX_ARP_ENTRIES < t.cnt)
  functional : Functional t
  known : ∀ ip, (∃ i < t.cnt, (t.entries i).ip = ip) ↔ ip = 0 ∨ ip ∈ senders ifnet ps
  announced : ∀ i, 0 < i → i < t.cnt → Announced ifnet ps (t.entries i)

theorem Inv.init (ifnet : UsnIfnet) : Inv ifnet [] (usnet_arp_init ifnet) := by
  have hcnt : (usnet_arp_init ifnet).cnt = 1 := rfl
  refine ⟨rfl, rfl, ?_, ?_, ?_⟩
  · intro i j hi hj _
    omega
  · intro ip
    constructor
    · rintro ⟨i, hi, hip⟩
      obtain rfl : i = 0 := by omega
      exact .inl hip.symm
    · rintro (rfl | hmem)
      · exact ⟨0, Nat.one_pos, rfl⟩
      · obtain ⟨-, arph, hnil, -⟩ := mem_senders.mp hmem
        cases hnil
  · intro i hi hlt
    omega

/-- A packet that leaves the table alone. -/
theorem Inv.unchanged {ifnet : UsnIfnet} {ps : List UsnArphdr} {arph : UsnArphdr}
    (h : Inv ifnet ps t)
    (hknown : Handled ifnet arph → arph.ar_spa = 0 ∨ arph.ar_spa ∈ senders ifnet ps) :
    Inv ifnet (ps ++ [arph]) t := by
  have hsame := senders_snoc_known hknown
  obtain ⟨hcnt, hout, hfun, hips, hann⟩ := h
  rw [← hsame] at hcnt hips
  exact ⟨hcnt, hout, hfun, hips,
    fun i hi hlt => (hann i hi hlt).mono (List.subset_append_left _ _)⟩

/-- A packet from a new sender. -/
theorem Inv.register {ifnet : UsnIfnet} {ps : List UsnArphdr} {arph : UsnArphdr}
    (h : Inv ifnet ps t) (hhandled : Handled ifnet arph)
    (hnone : usnet_get_arp t arph.ar_spa = none) :
    Inv ifnet (ps ++ [arph]) (usnet_register_arp t arph.ar_spa arph.ar_sha) := by
  have habsent := usnet_get_arp_none.mp hnone
  obtain ⟨hcnt, hout, hfun, hips, hann⟩ := h
  have hnot : ¬ (arph.ar_spa = 0 ∨ arph.ar_spa ∈ senders ifnet ps) := by
    rw [← hips]
    rintro ⟨i, hi, hip⟩
    exact habsent i hi hip
  have hcard := senders_snoc_new hhandled (fun h => hnot (.inl h)) (fun h => hnot (.inr h))
  -- an entry is an old one or the one just written
  have hcnt' : (usnet_register_arp t arph.ar_spa arph.ar_sha).cnt = t.cnt + 1 := rfl
  have hold := fun i (hi : i < t.cnt) => @register_entries t arph.ar_spa arph.ar_sha i hi
  have hlast := @register_last t arph.ar_spa arph.ar_sha
  refine ⟨by rw [hcnt', hcard, hcnt], ?_, ?_, ?_, ?_⟩
  · show (t.outside || decide (MAX_ARP_ENTRIES ≤ t.cnt)) = decide (MAX_ARP_ENTRIES < t.cnt + 1)
    rw [hout, ← Bool.decide_or]
    apply decide_eq_decide.mpr
    omega
  · intro i j hi hj hip
    rw [hcnt'] at hi hj
    rcases Nat.lt_succ_iff_lt_or_eq.mp hi with hi | rfl
    · rcases Nat.lt_succ_iff_lt_or_eq.mp hj with hj | rfl
      · rw [hold i hi, hold j hj] at hip
        exact hfun i j hi hj hip
      · rw [hold i hi, hlast] at hip
        exact absurd hip (habsent i hi)
    · rcases Nat.lt_succ_iff_lt_or_eq.mp hj with hj | rfl
      · rw [hold j hj, hlast] at hip
        exact absurd hip.symm (habsent j hj)
      · rfl
  · intro ip
    constructor
    · rintro ⟨i, hi, rfl⟩
      rcases Nat.lt_succ_iff_lt_or_eq.mp hi with hi | rfl
      · rw [hold i hi]
        rcases (hips _).mp ⟨i, hi, rfl⟩ with hzero | hmem
        · exact .inl hzero
        · exact .inr (senders_mono (List.prefix_append _ _) hmem)
      · rw [hlast]
        exact .inr (mem_senders.mpr ⟨fun h => hnot (.inl h), arph, by simp, hhandled, rfl⟩)
    · intro hip
      by_cases hnew : ip = arph.ar_spa
      · exact ⟨t.cnt, Nat.lt_succ_self _, by rw [hlast, hnew]⟩
      · have hbefore : ip = 0 ∨ ip ∈ senders ifnet ps := by
          rcases hip with hzero | hmem
          · exact .inl hzero
          · obtain ⟨hne, p, hp, hph, hspa⟩ := mem_senders.mp hmem
            rcases List.mem_append.mp hp with hp | hp
            · exact .inr (mem_senders.mpr ⟨hne, p, hp, hph, hspa⟩)
            · rw [List.mem_singleton.mp hp] at hspa
              exact absurd hspa.symm hnew
        obtain ⟨i, hi, hip'⟩ := (hips ip).mpr hbefore
        exact ⟨i, Nat.lt_succ_of_lt hi, by rw [hold i hi, hip']⟩
  · intro i hpos hi
    rcases Nat.lt_succ_iff_lt_or_eq.mp hi with hi | rfl
    · rw [hold i hi]
      exact (hann i hpos hi).mono (List.subset_append_left _ _)
    · rw [hlast]
      exact ⟨arph, by simp, hhandled, rfl, rfl⟩

/-- The table after any packets. -/
theorem inv_run (ifnet : UsnIfnet) (ps : List UsnArphdr) : Inv ifnet ps (arp_run ifnet ps) := by
  induction ps using List.reverseRecOn with
  | nil => exact Inv.init ifnet
  | append_singleton ps arph ih =>
    rw [arp_run_snoc, usnet_arp_input_table]
    by_cases hhandled : Handled ifnet arph
    · rw [if_pos hhandled, learn]
      cases hget : usnet_get_arp (arp_run ifnet ps) arph.ar_spa with
      | none => exact ih.register hhandled hget
      | some i =>
        obtain ⟨hi, hip⟩ := usnet_get_arp_some hget
        exact ih.unchanged fun _ => (ih.known _).mp ⟨i, hi, hip⟩
    · rw [if_neg hhandled]
      exact ih.unchanged fun h => absurd h hhandled

/-! ## Section 5: When the table is large enough -/

/-- `ip` is the address of an entry `usnet_register_arp` has written; the first
    entry is the host's own. -/
def Registered (t : UsnArpTable) (ip : UInt32) : Prop :=
  ∃ i, 0 < i ∧ i < t.cnt ∧ (t.entries i).ip = ip

/-- The table is within its block, has no address twice, and gives out what was
    announced. -/
structure Sound (ifnet : UsnIfnet) (ps : List UsnArphdr) (t : UsnArpTable) : Prop where
  bound : t.cnt ≤ MAX_ARP_ENTRIES
  inside : t.outside = false
  functional : Functional t
  lookup : ∀ ip, Registered t ip → ∃ haddr, usnet_get_hwaddr t ip = some haddr ∧
    Announced ifnet ps { ip := ip, haddr := haddr }

/-- The table is sound all along exactly when the packets have fewer senders than
    it has entries, one of which is the host's own. -/
theorem arp_table_sound_iff (ifnet : UsnIfnet) (ps : List UsnArphdr) :
    (∀ qs, qs <+: ps → Sound ifnet qs (arp_run ifnet qs)) ↔
      (senders ifnet ps).card < MAX_ARP_ENTRIES := by
  constructor
  · intro h
    have hbound := (h ps List.prefix_rfl).bound
    have hcnt := (inv_run ifnet ps).cnt
    omega
  · intro hcard qs hqs
    have hle := Finset.card_le_card (@senders_mono ifnet qs ps hqs)
    obtain ⟨hcnt, hout, hfun, -, hann⟩ := inv_run ifnet qs
    refine ⟨by omega, ?_, hfun, ?_⟩
    · rw [hout]
      exact decide_eq_false (by omega)
    · rintro ip ⟨i, hpos, hi, rfl⟩
      exact ⟨_, hfun.found hi, hann i hpos hi⟩

/-- An interface, and requests to it from 1024 different addresses. -/
def host : UsnIfnet := { addr := 0x0a000001, hwa := Vector.replicate 6 2 }

def request (n : Nat) : UsnArphdr :=
  usnet_arp_output { addr := UInt32.ofNat (n + 1), hwa := Vector.replicate 6 4 }
    USN_ARPOP_REQUEST host.addr (Vector.replicate 6 255)

def requests : List UsnArphdr := (List.range 1024).map request

theorem requests_handled : ∀ arph ∈ requests, Handled host arph := by
  intro arph hmem
  obtain ⟨n, -, rfl⟩ := List.mem_map.mp hmem
  exact ⟨rfl, .inl rfl⟩

theorem card_senders_requests : (senders host requests).card = 1024 := by
  have himage : senders host requests
      = (Finset.range 1024).image fun n => UInt32.ofNat (n + 1) := by
    ext ip
    rw [mem_senders, Finset.mem_image]
    constructor
    · rintro ⟨-, arph, hmem, -, rfl⟩
      obtain ⟨n, hn, rfl⟩ := List.mem_map.mp hmem
      exact ⟨n, Finset.mem_range.mpr (List.mem_range.mp hn), rfl⟩
    · rintro ⟨n, hn, rfl⟩
      have hlt := Finset.mem_range.mp hn
      have hmem : request n ∈ requests := List.mem_map.mpr ⟨n, List.mem_range.mpr hlt, rfl⟩
      refine ⟨?_, request n, hmem, requests_handled _ hmem, rfl⟩
      intro hzero
      have hnat := congrArg UInt32.toNat hzero
      rw [UInt32.toNat_ofNat', UInt32.toNat_zero] at hnat
      omega
  rw [himage, Finset.card_image_of_injOn, Finset.card_range]
  intro i hi j hj hij
  have hi' := Finset.mem_range.mp hi
  have hj' := Finset.mem_range.mp hj
  have hnat := congrArg UInt32.toNat hij
  simp only [UInt32.toNat_ofNat'] at hnat
  omega

/-- The last of 1024 new senders is entered behind the block. -/
theorem arp_table_overruns :
    (∀ arph ∈ requests, Handled host arph) ∧
    ¬ Sound host requests (arp_run host requests) ∧
    (arp_run host requests).cnt = MAX_ARP_ENTRIES + 1 ∧
    (arp_run host requests).outside = true := by
  obtain ⟨hcnt, hout, -⟩ := inv_run host requests
  rw [card_senders_requests] at hcnt
  have hmax : MAX_ARP_ENTRIES = 1024 := rfl
  refine ⟨requests_handled, ?_, by rw [hcnt, hmax], ?_⟩
  · intro hsound
    have hbound := hsound.bound
    omega
  · rw [hout]
    exact decide_eq_true (by omega)

end Arp

end Usnet
