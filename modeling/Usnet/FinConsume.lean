import Usnet.Receive

/-! # The FIN of a segment

    A FIN is to be consumed when everything before it has been received.  The
    handler compares the segment's first byte with `rcv_nxt`, after it has
    processed the payload; the byte to compare is the one behind the payload.
-/

namespace Usnet

open CInt IvList Run

/-! ## Section 1: What is promised -/

/-- What `usnet_handle_established` does with the payload, before the FIN. -/
def payload_part (s : Conn) (seg : Segment) : Except Fault Conn :=
  if seg.has TH_SYN then .ok s else handle_payload s seg .aggregate .now

/-- The FIN of a segment has been consumed. -/
def fin_consumed (seg : Segment) (tcb : UsnTcb) : Prop :=
  tcb.state = .close_wait ∧ tcb.rcv_nxt = seg.seq + seg.payloadlen + 1

/-- The FIN is consumed exactly when `rcv_nxt`, once the payload has been
    processed, is the FIN's own number; otherwise it changes nothing. -/
structure FinExact (seg : Segment) (s₁ s' : Conn) : Prop where
  exact : fin_consumed seg s'.tcb ↔ s₁.tcb.rcv_nxt = seg.seq + seg.payloadlen
  refused : s₁.tcb.rcv_nxt ≠ seg.seq + seg.payloadlen →
    s'.tcb.state ≠ .close_wait ∧ s'.tcb.rcv_nxt = s₁.tcb.rcv_nxt

/-- The payload is stored. -/
def payload_stored (c : Ctx) (tcb : UsnTcb) (seg : Segment) (buf : UsnRingbuf) : Prop :=
  payload_fits tcb seg ∧ receive_buffer ⟨c, tcb⟩ = some buf ∧
  InRange buf seg.payload seg.seq ∧ c.frag_mp = true

/-- A fragment received earlier reaches from the payload or its end beyond it. -/
def reaches_beyond (tcb : UsnTcb) (seg : Segment) (buf : UsnRingbuf) : Prop :=
  ∃ f ∈ buf.frags, (f.seq - tcb.rcv_nxt).toNat ≤ seg.payload.length ∧
    seg.payload.length < (f.seq - tcb.rcv_nxt).toNat + f.len.toNat

/-- The segments with FIN that are handled as promised. -/
def fin_handled (c : Ctx) (tcb : UsnTcb) (seg : Segment) : Prop :=
  if seg.has TH_SYN then tcb.rcv_nxt ≠ seg.seq + seg.payloadlen
  else seg.payload = [] ∨
    (seg.seq ≠ tcb.rcv_nxt ∧ seg.seq + seg.payloadlen ≠ tcb.rcv_nxt) ∨
    (seg.seq = tcb.rcv_nxt ∧
      ∃ buf, payload_stored c tcb seg buf ∧ reaches_beyond tcb seg buf)

/-! ## Section 2: Where the payload leaves `rcv_nxt` -/

/-- A stored segment at the front moves `rcv_nxt` to its end, or beyond it where
    a fragment follows. -/
theorem stored_front {buf buf' : UsnRingbuf} {data : List UInt8} {seq : UInt32}
    (h : Stored buf data seq buf') (hsize : buf.size.toNat ≤ 65535)
    (hpos : 0 < data.length) (hinv : FragInv buf) (hseq : seq = buf.head_seq) :
    ∃ n, buf'.head_seq = buf.head_seq + u32 (n : Nat) ∧ n ≤ 65535 ∧ data.length ≤ n ∧
      (data.length < n ↔ ∃ f ∈ buf.frags,
        ahead buf.head_seq f.seq ≤ data.length ∧
        data.length < ahead buf.head_seq f.seq + f.len.toNat) := by
  obtain ⟨l, hl⟩ := h.frags hsize hpos hinv
  have hzero : ahead buf.head_seq seq = 0 := by rw [hseq, ahead_self]
  have hins := hl.inserted
  rw [hzero, Nat.zero_add] at hins
  have hcover : cover l = (⟨0, data.length⟩ : Iv).toSet ∪ cover buf.ivs := by
    rw [hins]
    exact cover_insertIv hpos hinv.separated
  refine ⟨(absorb l).1, hl.absorbed.1, absorb_fst_le hl.bound, ?_, ?_⟩
  · by_contra hlt
    refine absorb_fst_not_mem hl.separated ?_
    rw [hcover]
    exact .inl ⟨Nat.zero_le _, by simp only; omega⟩
  · rw [lt_absorb_fst_iff hl.separated, hcover]
    have hmem : data.length ∈ cover buf.ivs ↔ ∃ f ∈ buf.frags,
        ahead buf.head_seq f.seq ≤ data.length ∧
        data.length < ahead buf.head_seq f.seq + f.len.toNat := by
      simp only [UsnRingbuf.ivs, mem_cover, List.mem_map, exists_exists_and_eq_and]
      rfl
    rw [← hmem]
    constructor
    · intro hall
      rcases hall _ (Nat.le_refl _) with hin | hin
      · simp only [Iv.mem_toSet] at hin
        omega
      · exact hin
    · intro hin x hx
      by_cases hlt : x = data.length
      · exact .inr (hlt ▸ hin)
      · exact .inl ⟨Nat.zero_le _, by simp only; omega⟩

/-- A stored segment behind a gap leaves `rcv_nxt` where it was. -/
theorem stored_gap {buf buf' : UsnRingbuf} {data : List UInt8} {seq : UInt32}
    (h : Stored buf data seq buf') (hsize : buf.size.toNat ≤ 65535)
    (hpos : 0 < data.length) (hinv : FragInv buf) (hseq : seq ≠ buf.head_seq) :
    buf'.head_seq = buf.head_seq := by
  obtain ⟨l, hl⟩ := h.frags hsize hpos hinv
  have hahead : 0 < ahead buf.head_seq seq := by
    by_contra h0
    exact hseq (ahead_eq_zero.mp (by omega))
  have hzero : (absorb l).1 = 0 := by
    by_contra hne
    have hmem := mem_cover_of_lt_absorb (l := l) (x := 0) (by omega)
    rw [hl.inserted, cover_insertIv (by simp only; omega) hinv.separated] at hmem
    rcases hmem with hin | ⟨i, hi, hlo, -⟩
    · simp only [Iv.mem_toSet] at hin
      omega
    · have := hinv.after i hi
      omega
  rw [hl.absorbed.1, hzero]
  simp

/-- The two things the payload can do to `rcv_nxt`. -/
theorem payload_rcv_nxt {s s₁ : Conn} {seg : Segment} (hinv : RcvInv s.tcb)
    (ho : opening s.tcb.state) (hpos : 0 < seg.payload.length)
    (h : handle_payload s seg .aggregate .now = .ok s₁) :
    (s₁.tcb.rcv_nxt = s.tcb.rcv_nxt ∧
      ¬ (seg.seq = s.tcb.rcv_nxt ∧ ∃ buf, payload_stored s.ctx s.tcb seg buf)) ∨
    (seg.seq = s.tcb.rcv_nxt ∧ ∃ buf n, payload_stored s.ctx s.tcb seg buf ∧
      s₁.tcb.rcv_nxt = s.tcb.rcv_nxt + u32 (n : Nat) ∧ n ≤ 65535 ∧
      seg.payload.length ≤ n ∧ (seg.payload.length < n ↔ reaches_beyond s.tcb seg buf)) := by
  rcases handle_payload_done h with ⟨hnil, -⟩ | ⟨-, r, hd⟩
  · simp [hnil] at hpos
  · cases hd with
    -- dropped, without memory, or handed to the buffer, which may still refuse it
    | outside _ hfits hq =>
      exact .inl ⟨by simp [hq], fun ⟨_, _, hst⟩ => hfits hst.1⟩
    | no_mem _ _ hbuf _ _ hnxt =>
      refine .inl ⟨hnxt, fun ⟨_, buf, hst⟩ => ?_⟩
      rw [hst.2.1] at hbuf
      cases hbuf
    | inserted buf buf' r₀ hfits hbuf hins _ _ hnxt =>
      obtain ⟨hf, hsize, hfront⟩ := hinv.receive_buffer hbuf
      have hfront := hfront ho
      have hsize := RINGBUF_SIZE_le hsize
      rw [hnxt]
      have hsame : ∀ b, payload_stored s.ctx s.tcb seg b → b = buf := by
        intro b hst
        rw [hst.2.1] at hbuf
        exact Option.some.inj hbuf
      rcases usnet_insert_fragment_cases hins with
        ⟨-, -, rfl, hno⟩ | ⟨-, hmp, -, hcopy⟩ | ⟨-, hmp, hstored⟩
      · exact .inl ⟨hfront, fun ⟨_, b, hst⟩ => hno (hsame b hst ▸ hst.2.2.1)⟩
      · refine .inl ⟨?_, fun ⟨_, b, hst⟩ => ?_⟩
        · rw [copy_payload_frame hcopy]
          exact hfront
        · rw [hst.2.2.2] at hmp
          cases hmp
      -- stored: only a segment at the front moves `rcv_nxt`
      · by_cases hseq : seg.seq = s.tcb.rcv_nxt
        · obtain ⟨n, hn, hle, hge, hlt⟩ :=
            stored_front hstored hsize hpos hf (hseq.trans hfront.symm)
          refine .inr ⟨hseq, buf, n, ⟨hfits, hbuf, hstored.in_range, hmp⟩, ?_, hle, hge, ?_⟩
          · rw [hn, hfront]
          · rw [hlt, hfront]
            rfl
        · refine .inl ⟨?_, fun h => hseq h.1⟩
          rw [stored_gap hstored hsize hpos hf (hfront ▸ hseq), hfront]

/-! ## Section 3: The FIN -/

/-- The handler's own rule: the FIN is taken when the segment starts at `rcv_nxt`. -/
theorem usnet_handle_established_fin {s s₁ s' : Conn} {seg : Segment}
    (hsyn : seg.has TH_SYN = false) (hfin : seg.has TH_FIN) (hst : s.tcb.state = .established)
    (hpay : handle_payload s seg .aggregate .now = .ok s₁)
    (h : usnet_handle_established s seg = .ok s') :
    (seg.seq = s₁.tcb.rcv_nxt ∧ s'.tcb.state = .close_wait ∧
      s'.tcb.rcv_nxt = s₁.tcb.rcv_nxt + 1) ∨
    (seg.seq ≠ s₁.tcb.rcv_nxt ∧ s'.tcb.state ≠ .close_wait ∧
      s'.tcb.rcv_nxt = s₁.tcb.rcv_nxt) := by
  obtain ⟨t₁, t₂, hpay', hack, rfl⟩ := usnet_handle_established_parts hsyn h
  obtain rfl : s₁ = t₁ := Except.ok.inj (hpay.symm.trans hpay')
  obtain ⟨-, hst₁⟩ := handle_payload_kept hpay
  have ha := established_ack_kept hack
  have hnxt : t₂.tcb.rcv_nxt = s₁.tcb.rcv_nxt := by simp_all
  by_cases hseq : seg.seq = s₁.tcb.rcv_nxt
  · obtain ⟨h₁, h₂⟩ := established_fin_taken hfin (hseq.trans hnxt.symm)
    exact .inl ⟨hseq, h₁, h₂.trans (by rw [hnxt])⟩
  · have hother := @established_fin_other t₂ seg
      (fun hf => hseq (hf.2.trans hnxt))
    refine .inr ⟨hseq, ?_, by simp_all⟩
    have hst' : (established_fin t₂ seg).tcb.state = s₁.tcb.state := by simp_all
    rw [hst']
    rcases hst₁ with hst₁ | hst₁
    · rw [hst₁, hst]
      decide
    · rw [hst₁]
      decide

/-- Sequence numbers less than `2^32` apart are different. -/
theorem add_u32_eq_self {x : UInt32} {n : Nat} (hn : n < 2 ^ 32) (h : x + u32 n = x) : n = 0 := by
  have hahead := ahead_add_right (a := x) (b := x) (n := n) (by simpa using hn)
  rw [h, ahead_self] at hahead
  omega

theorem add_u32_inj {x : UInt32} {m n : Nat} (hm : m < 2 ^ 32) (hn : n < 2 ^ 32)
    (h : x + u32 m = x + u32 n) : m = n := by
  have h₁ := ahead_add_right (a := x) (b := x) (n := m) (by simpa using hm)
  have h₂ := ahead_add_right (a := x) (b := x) (n := n) (by simpa using hn)
  rw [h] at h₁
  omega

/-- With a SYN the handler does not look at the FIN. -/
theorem fin_exact_syn {s s' : Conn} {seg : Segment} (hsyn : seg.has TH_SYN)
    (hst : s.tcb.state = .established) (h : usnet_handle_established s seg = .ok s') :
    FinExact seg s s' ↔ s.tcb.rcv_nxt ≠ seg.seq + seg.payloadlen := by
  obtain ⟨-, hk, hss, -⟩ := usnet_handle_established_syn hst hsyn h
  have hstate : s'.tcb.state ≠ .close_wait := by
    rw [hss.2.2.2.2, hst]
    decide
  constructor
  · intro he hr
    exact hstate (he.exact.mpr hr).1
  · intro hne
    exact ⟨⟨fun hc => absurd hc.1 hstate, fun hr => absurd hr hne⟩,
      fun _ => ⟨hstate, by simp [hk]⟩⟩

/-- Without one it goes by where the segment starts. -/
theorem fin_exact_iff {s s₁ s' : Conn} {seg : Segment} (hsyn : seg.has TH_SYN = false)
    (hfin : seg.has TH_FIN) (hst : s.tcb.state = .established)
    (hpay : handle_payload s seg .aggregate .now = .ok s₁)
    (h : usnet_handle_established s seg = .ok s') :
    FinExact seg s₁ s' ↔ seg.payload = [] ∨
      (s₁.tcb.rcv_nxt ≠ seg.seq + seg.payloadlen ∧ seg.seq ≠ s₁.tcb.rcv_nxt) := by
  have hshort := seg.short
  -- the code looks for the FIN at `seq`, where it is if there is no payload
  have hzero : seg.seq + seg.payloadlen = seg.seq ↔ seg.payload = [] := by
    constructor
    · intro he
      exact List.eq_nil_of_length_eq_zero (add_u32_eq_self (by omega) he)
    · intro hnil
      simp [Segment.payloadlen, hnil]
  rcases usnet_handle_established_fin hsyn hfin hst hpay h with
    ⟨hseq, hcw, hnxt⟩ | ⟨hseq, hcw, hnxt⟩
  · -- taken: right when the payload is empty, wrong in every other case
    constructor
    · intro he
      by_cases hr : s₁.tcb.rcv_nxt = seg.seq + seg.payloadlen
      · exact .inl (hzero.mp (hr.symm.trans hseq.symm))
      · exact absurd hcw (he.refused hr).1
    · rintro (hnil | ⟨-, hne⟩)
      · have hr : s₁.tcb.rcv_nxt = seg.seq + seg.payloadlen :=
          hseq.symm.trans (hzero.mpr hnil).symm
        refine ⟨⟨fun _ => hr, fun _ => ⟨hcw, by rw [hnxt, hr]⟩⟩, fun hne => absurd hr hne⟩
      · exact absurd hseq hne
  · constructor
    · intro he
      by_cases hr : s₁.tcb.rcv_nxt = seg.seq + seg.payloadlen
      · exact absurd (he.exact.mpr hr).1 hcw
      · exact .inr ⟨hr, hseq⟩
    · rintro (hnil | ⟨hne, -⟩)
      · have hne : s₁.tcb.rcv_nxt ≠ seg.seq + seg.payloadlen := by
          rw [hzero.mpr hnil]
          exact Ne.symm hseq
        exact ⟨⟨fun hc => absurd hc.1 hcw, fun hr => absurd hr hne⟩, fun _ => ⟨hcw, hnxt⟩⟩
      · exact ⟨⟨fun hc => absurd hc.1 hcw, fun hr => absurd hr hne⟩, fun _ => ⟨hcw, hnxt⟩⟩

/-- Bookkeeping does not change which segments are handled as promised. -/
theorem fin_handled_congr {s n : Conn} {seg : Segment} (h : AckKept s n) :
    fin_handled n.ctx n.tcb seg ↔ fin_handled s.ctx s.tcb seg := by
  obtain ⟨-, hfd, -, -, -, hnxt, hwnd, hirs, hbuf, -, -, -, -, -, hmp, hcache, -⟩ := h
  unfold fin_handled payload_stored payload_fits reaches_beyond Usnet.receive_buffer
  simp only [hfd, hnxt, hwnd, hirs, hbuf, hmp, hcache]

/-- What the handler finds, in terms of where the payload leaves `rcv_nxt`. -/
theorem fin_exact_handled {s s₁ s' : Conn} {seg : Segment} (hinv : RcvInv s.tcb)
    (hst : s.tcb.state = .established) (hfin : seg.has TH_FIN)
    (hpay : payload_part s seg = .ok s₁) (h : usnet_handle_established s seg = .ok s') :
    FinExact seg s₁ s' ↔ fin_handled s.ctx s.tcb seg := by
  unfold payload_part at hpay
  unfold fin_handled
  by_cases hsyn : seg.has TH_SYN
  · rw [if_pos hsyn] at hpay ⊢
    obtain rfl := Except.ok.inj hpay
    exact fin_exact_syn hsyn hst h
  · rw [if_neg hsyn] at hpay ⊢
    rw [fin_exact_iff (by simpa using hsyn) hfin hst hpay h]
    by_cases hnil : seg.payload = []
    · simp [hnil]
    · have hpos : 0 < seg.payload.length := List.length_pos_iff.mpr hnil
      have hshort := seg.short
      simp only [hnil, false_or]
      rcases payload_rcv_nxt hinv (.inr hst) hpos hpay with
        ⟨hr, hno⟩ | ⟨hseq, buf, n, hstored, hr, hle, hge, hlt⟩
      · rw [hr]
        constructor
        · rintro ⟨h₁, h₂⟩
          exact .inl ⟨h₂, Ne.symm h₁⟩
        · rintro (⟨h₁, h₂⟩ | ⟨hseq, buf, hstored, -⟩)
          · exact ⟨Ne.symm h₂, h₁⟩
          · exact absurd ⟨hseq, buf, hstored⟩ hno
      -- `rcv_nxt` moved on by less than 2^32
      · have hstart : seg.seq ≠ s₁.tcb.rcv_nxt := by
          rw [hr, hseq]
          intro he
          have := add_u32_eq_self (by omega) he.symm
          omega
        have hend : s₁.tcb.rcv_nxt ≠ seg.seq + seg.payloadlen ↔ seg.payload.length < n := by
          rw [hr, hseq]
          constructor
          · intro hne
            by_contra hge'
            obtain rfl : n = seg.payload.length := by omega
            exact hne rfl
          · intro hlt' he
            have := add_u32_inj (by omega) (by omega) he
            omega
        rw [hend, hlt]
        constructor
        · rintro ⟨hb, -⟩
          exact .inr ⟨hseq, buf, hstored, hb⟩
        · rintro (⟨hne, -⟩ | ⟨-, b, hst', hb⟩)
          · exact absurd hseq hne
          · have hb' : b = buf := Option.some.inj (hst'.2.1.symm.trans hstored.2.1)
            exact ⟨hb' ▸ hb, hstart⟩

/-- For every established connection and every segment with FIN that passes the
    sequence check: the FIN is consumed exactly when everything before it has
    been received, if and only if the segment is one the code handles so. -/
theorem fin_consumed_exactly {t : UsnTcb} {c : Ctx} {seg : Segment} {s s₁ s' : Conn}
    (hreach : LifeReachable (some t)) (hst : t.state = .established)
    (hfin : seg.has TH_FIN) (hval : usnet_validate_seq ⟨c, t⟩ seg = .ok (0, s))
    (hpay : payload_part (note_segment s seg) seg = .ok s₁)
    (h : usnet_handle_established (note_segment s seg) seg = .ok s') :
    FinExact seg s₁ s' ↔ fin_handled c t seg := by
  have hinv := rcvInv_of_life hreach
  have hquiet : Quiet ⟨c, t⟩ s := by
    rcases usnet_validate_seq_cases hval with ⟨-, -, hq⟩ | ⟨hr, -⟩ | ⟨hr, -⟩ | ⟨hr, -⟩
    · exact hq
    all_goals exact absurd hr (by decide)
  have hn := note_segment_quiet s seg
  generalize note_segment s seg = n at *
  have hkept : AckKept ⟨c, t⟩ n := by simp_all
  have hnst : n.tcb.state = .established := by simp_all
  have hninv : RcvInv n.tcb :=
    hinv.congr ⟨.inr (.inl hnst), by simp [hkept, hinv.life.no_fin]⟩ (fun _ => .inr hst)
      (by simp [hkept]) (by simp [hkept]) (by simp [hkept])
  rw [fin_exact_handled hninv hnst hfin hpay h]
  exact fin_handled_congr hkept

/-- The FIN that ends the peer's stream, and the same with two bytes before it. -/
def fin_segment : Segment := peer_segment 9001 5001 (TH_FIN ||| TH_ACK) [] nil_short
def data_fin_segment : Segment :=
  peer_segment 9001 5001 (TH_FIN ||| TH_ACK) [0x61, 0x62] (by decide)

theorem fin_consumed_exactly_sample :
    ∃ s s₁ s', usnet_validate_seq ⟨quiet_ctx, opened_tcb⟩ fin_segment = .ok (0, s) ∧
      usnet_handle_established (note_segment s fin_segment) fin_segment = .ok s' ∧
      (FinExact fin_segment s₁ s' ↔ fin_handled quiet_ctx opened_tcb fin_segment) :=
  ⟨_, _, _, rfl, rfl, fin_consumed_exactly opened_tcb_reachable rfl (by decide) rfl rfl rfl⟩

/-- A FIN behind data that arrives in order is not consumed. -/
theorem data_fin_not_consumed :
    ∃ s s₁ s', LifeReachable (some opened_tcb) ∧ opened_tcb.state = .established ∧
      usnet_validate_seq ⟨quiet_ctx, opened_tcb⟩ data_fin_segment = .ok (0, s) ∧
      payload_part (note_segment s data_fin_segment) data_fin_segment = .ok s₁ ∧
      usnet_handle_established (note_segment s data_fin_segment) data_fin_segment
        = .ok s' ∧
      s₁.tcb.rcv_nxt = data_fin_segment.seq + data_fin_segment.payloadlen ∧
      ¬ fin_consumed data_fin_segment s'.tcb :=
  ⟨_, _, _, opened_tcb_reachable, rfl, rfl, rfl, rfl, rfl, fun h => nomatch h.1⟩

end Usnet
