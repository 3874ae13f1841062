import Usnet.Receive

/-! # The receive window

    Three checks look at where a segment lies: `usnet_validate_seq` wants its
    end before the last number of the window, `usnet_process_tcp_payload` not
    behind the window, and `usnet_insert_fragment` within the free space of the
    ring.
-/

namespace Usnet

open CInt Run

/-! ## Section 1: What is promised -/

/-- The segment carries a timestamp that is not older than the latest one,
    where the connection uses timestamps. -/
def timestamp_valid (tcb : UsnTcb) (seg : Segment) : Prop :=
  seg.has TH_RST = false → tcb.saw_timestamp = true → ∃ ts_val ts_ref,
    usnet_parse_tcptimestamp seg = .ok (some (ts_val, ts_ref)) ∧
    ¬ TCP_SEQ_LT ts_val tcb.rcvvar.ts_recent

/-- `rcv_nxt <= seq` and `seq + payloadlen <= rcv_nxt + rcv_wnd`, modulo `2^32`. -/
def inside_window (tcb : UsnTcb) (seg : Segment) : Prop :=
  ahead tcb.rcv_nxt seg.seq + seg.payload.length ≤ tcb.rcvvar.rcv_wnd.toNat

/-- The insertion `usnet_process_tcp_payload` makes, where it comes to one. -/
def payload_insertion (s : Conn) (seg : Segment) : Option (Int × UsnRingbuf) :=
  if TCP_SEQ_LT (seg.seq + seg.payloadlen) s.tcb.rcv_nxt then none
  else if TCP_SEQ_GT (seg.seq + seg.payloadlen) (s.tcb.rcv_nxt + s.tcb.rcvvar.rcv_wnd) then
    none
  else
    match receive_buffer s with
    | none => none
    | some buf => usnet_insert_fragment s.ctx.frag_mp buf seg.payload seg.seq

/-- The segment passes the sequence check and the insertion of its payload
    returns no error. -/
def accepted_and_stored (s : Conn) (seg : Segment) : Prop :=
  ∃ s₁ r buf', usnet_validate_seq s seg = .ok (0, s₁) ∧
    payload_insertion (note_segment s₁ seg) seg = some (r, buf') ∧ 0 ≤ r

/-- The ring has a place for `len` bytes from `off` behind its front. -/
structure RingFits (buf : UsnRingbuf) (off len : Nat) : Prop where
  length : len ≤ buf.size.toNat
  free : ((off + len : Nat) : Int) ≤ buf.avail_len
  position : buf.head.toNat + off ≤ 2 * buf.size.toNat

/-- The places at which the three checks agree that a segment is in the window:
    it ends before the window does, and the ring has the space announced. -/
structure WindowAgrees (c : Ctx) (tcb : UsnTcb) (seg : Segment) : Prop where
  before_edge : ahead tcb.rcv_nxt seg.seq + seg.payload.length < tcb.rcvvar.rcv_wnd.toNat
  near : ahead tcb.rcv_nxt seg.seq + seg.payload.length < 2 ^ 31
  edge_near : tcb.rcvvar.rcv_wnd.toNat
    ≤ ahead tcb.rcv_nxt seg.seq + seg.payload.length + 2 ^ 31
  ring : ∃ buf, receive_buffer ⟨c, tcb⟩ = some buf ∧
    RingFits buf (ahead tcb.rcv_nxt seg.seq) seg.payload.length

/-! ## Section 2: The sequence check -/

theorem validate_timestamp_valid {s : Conn} {seg : Segment} (h : timestamp_valid s.tcb seg) :
    ∃ s', validate_timestamp s seg = .ok (0, s') := by
  unfold validate_timestamp
  by_cases hts : seg.has TH_RST = false ∧ s.tcb.saw_timestamp
  · obtain ⟨ts_val, ts_ref, hparse, hlt⟩ := h hts.1 hts.2
    rw [if_pos hts, hparse]
    simp only
    rw [if_neg hlt]
    exact ⟨_, rfl⟩
  · rw [if_neg hts]
    exact ⟨_, rfl⟩

/-- The end of a segment, measured from `rcv_nxt`. -/
theorem ahead_seg_end {x : UInt32} {seg : Segment}
    (h : ahead x seg.seq + seg.payload.length < 2 ^ 32) :
    ahead x (seg.seq + seg.payloadlen) = ahead x seg.seq + seg.payload.length :=
  ahead_add_right h

/-- The signed comparison of two numbers by their distances from a third. -/
theorem sint_sub_ahead (x a b : UInt32) :
    sint (a - b) =
      if (ahead x a : Int) - ahead x b < -2 ^ 31 then (ahead x a : Int) - ahead x b + 2 ^ 32
      else if (ahead x a : Int) - ahead x b < 2 ^ 31 then (ahead x a : Int) - ahead x b
      else (ahead x a : Int) - ahead x b - 2 ^ 32 := by
  unfold ahead
  rw [sint_eq]
  simp only [toNat_sub]
  have := a.toNat_lt
  have := b.toNat_lt
  have := x.toNat_lt
  split_ifs <;> omega

theorem ahead_add (x y : UInt32) : ahead x (x + y) = y.toNat := by
  unfold ahead
  have h : x + y - x = y := by grind
  rw [h]

theorem ahead_last (x w : UInt32) (h : 0 < w.toNat) : ahead x (x + w - 1) = w.toNat - 1 := by
  unfold ahead
  have h' : x + w - 1 - x = w - 1 := by grind
  rw [h', toNat_sub]
  have := w.toNat_lt
  have hone : (1 : UInt32).toNat = 1 := rfl
  omega

/-- A segment inside the window passes the sequence check and the first check
    of `usnet_process_tcp_payload` when it ends before the window does. -/
theorem window_checks {tcb : UsnTcb} {seg : Segment} (hpos : 0 < seg.payload.length)
    (hin : inside_window tcb seg) :
    in_window tcb seg ∧ payload_fits tcb seg ↔
      ahead tcb.rcv_nxt seg.seq + seg.payload.length < tcb.rcvvar.rcv_wnd.toNat ∧
      ahead tcb.rcv_nxt seg.seq + seg.payload.length < 2 ^ 31 ∧
      tcb.rcvvar.rcv_wnd.toNat ≤ ahead tcb.rcv_nxt seg.seq + seg.payload.length + 2 ^ 31 := by
  unfold inside_window at hin
  have hw := tcb.rcvvar.rcv_wnd.toNat_lt
  have hend := @ahead_seg_end tcb.rcv_nxt seg (by omega)
  have hlast := ahead_last tcb.rcv_nxt tcb.rcvvar.rcv_wnd (by omega)
  have hedge := ahead_add tcb.rcv_nxt tcb.rcvvar.rcv_wnd
  unfold in_window payload_fits TCP_SEQ_BETWEEN TCP_SEQ_GEQ TCP_SEQ_LEQ TCP_SEQ_LT TCP_SEQ_GT
  rw [sint_sub_ahead tcb.rcv_nxt _ tcb.rcv_nxt, sint_sub_ahead tcb.rcv_nxt _ (_ - 1),
    sint_sub_ahead tcb.rcv_nxt _ (tcb.rcv_nxt + _), hend, hlast, hedge, ahead_self]
  have he : 0 < ahead tcb.rcv_nxt seg.seq + seg.payload.length := by omega
  generalize ahead tcb.rcv_nxt seg.seq + seg.payload.length = e at *
  constructor
  · rintro ⟨⟨h₁, h₂⟩, h₃, h₄⟩
    split_ifs at h₁ h₂ h₄ <;> omega
  · rintro ⟨h₁, h₂, h₃⟩
    refine ⟨⟨?_, ?_⟩, ?_, ?_⟩
    all_goals split_ifs <;> omega

/-! ## Section 3: The ring -/

/-- Where the copy starts. -/
theorem ring_start_off_eq (buf : UsnRingbuf) {off : Nat} (hoff : off ≤ 65535)
    (hsize : buf.size.toNat ≤ 65535) :
    buf.start_off off =
      ((if buf.head.toNat + off ≤ buf.size.toNat then buf.head.toNat + off
        else buf.head.toNat + off - buf.size.toNat : Nat) : Int) := by
  have hh := buf.head.toNat_lt
  have hnat : (u32 ((buf.head.toNat + off : Nat) : Int)).toNat = buf.head.toNat + off :=
    toNat_u32_of_lt (by omega)
  unfold UsnRingbuf.start_off
  simp only [← Nat.cast_add, gt_iff_lt, UInt32.lt_iff_toNat_lt, hnat]
  by_cases hle : buf.head.toNat + off ≤ buf.size.toNat
  · rw [if_neg (by omega), if_pos hle]
  · rw [if_pos (by omega), if_neg hle]
    have hsub := sub_toNat_of_le (a := u32 ((buf.head.toNat + off : Nat) : Int))
      (b := buf.size) (by omega)
    rw [sint_of_lt (by omega), hsub, hnat]

/-- What is left of the block from there, negative behind its end. -/
theorem ring_tail_len_eq (buf : UsnRingbuf) {off : Nat} (hoff : off ≤ 65535)
    (hsize : buf.size.toNat ≤ 65535) :
    sint (buf.size - u32 (buf.start_off off)) =
      if buf.head.toNat + off ≤ buf.size.toNat
      then (buf.size.toNat : Int) - (buf.head.toNat + off)
      else 2 * (buf.size.toNat : Int) - (buf.head.toNat + off) := by
  have hh := buf.head.toNat_lt
  rw [ring_start_off_eq buf hoff hsize]
  have hu : ∀ n : Nat, n < 2 ^ 31 →
      sint (buf.size - u32 (n : Int)) = (buf.size.toNat : Int) - n := by
    intro n hn
    rw [sint_eq, toNat_sub, toNat_u32_of_lt (by omega)]
    split <;> omega
  split
  · rw [hu _ (by omega)]
    omega
  · rw [hu _ (by omega)]
    omega

/-- The copy fails exactly when it would start behind the block. -/
theorem copy_payload_none (buf : UsnRingbuf) (data : List UInt8) (off : Nat)
    (hoff : off ≤ 65535) (hsize : buf.size.toNat ≤ 65535) :
    copy_payload buf data off = none ↔ 2 * buf.size.toNat < buf.head.toNat + off := by
  have htail := ring_tail_len_eq buf hoff hsize
  have hneg : sint (buf.size - u32 (buf.start_off off)) < 0 ↔
      2 * buf.size.toNat < buf.head.toNat + off := by
    rw [htail]
    split <;> omega
  unfold copy_payload
  simp only
  generalize sint (buf.size - u32 (buf.start_off off)) = tail_len at *
  rw [← hneg]
  by_cases hge : tail_len ≥ data.length
  · rw [if_pos hge]
    constructor
    · intro h
      cases h
    · intro h
      omega
  · rw [if_neg hge]
    by_cases h : tail_len < 0
    · simp [h]
    · simp [h]

/-- What is in range and can be copied has a place. -/
theorem InRange.ring_fits {buf copied : UsnRingbuf} {data : List UInt8} {seq last_seq : UInt32}
    (h : InRange buf data seq) (hsize : buf.size.toNat ≤ 65535)
    (hcopy : copy_payload { buf with last_seq := last_seq } data (sint (seq - buf.head_seq))
      = some copied) : RingFits buf (ahead buf.head_seq seq) data.length := by
  obtain ⟨hsint, hle⟩ := h.offset hsize
  have hfits := h.fits
  have havail := h.avail
  have hlen : (u32 data.length).toNat = data.length := toNat_u32_of_lt (by omega)
  rw [hsint] at havail hcopy
  rw [gt_iff_lt, UInt32.lt_iff_toNat_lt, hlen] at hfits
  refine ⟨by omega, by omega, ?_⟩
  by_contra hlt
  have hnone := (copy_payload_none { buf with last_seq := last_seq } data
    (ahead buf.head_seq seq) (by omega) hsize).mpr (by simp only; omega)
  rw [hnone] at hcopy
  cases hcopy

/-- A segment is stored exactly when the ring has a place for it. -/
theorem insertion_stored {buf : UsnRingbuf} {data : List UInt8} {seq : UInt32}
    (hsize : buf.size.toNat ≤ 65535) (hpos : 0 < data.length) (hinv : FragInv buf)
    (hoff : ahead buf.head_seq seq + data.length < 2 ^ 31) :
    (∃ r buf', usnet_insert_fragment true buf data seq = some (r, buf') ∧ 0 ≤ r) ↔
      RingFits buf (ahead buf.head_seq seq) data.length := by
  have hlen : (u32 data.length).toNat = data.length := toNat_u32_of_lt (by omega)
  have hsint : sint (seq - buf.head_seq) = ahead buf.head_seq seq :=
    sint_of_lt (by unfold ahead at hoff; omega)
  constructor
  · rintro ⟨r, buf', hins, hr⟩
    rcases usnet_insert_fragment_cases hins with
      ⟨-, hneg, -⟩ | ⟨rfl, -⟩ | ⟨-, -, hrange, copied, frags, hcopy, -⟩
    · omega
    · omega
    · exact hrange.ring_fits hsize hcopy
  -- with a place in the ring none of the refusals applies
  · rintro ⟨hlength, hfree, hposition⟩
    have hle := avail_len_le hsize
    have hnot_before : minseq buf.head_seq seq = buf.head_seq :=
      (minseq_eq_left (h := buf.head_seq) (by simp) (by omega)).mpr (by simp)
    have hfits : ¬ u32 data.length > buf.size := by
      rw [gt_iff_lt, UInt32.lt_iff_toNat_lt, hlen]
      omega
    have hrange : InRange buf data seq :=
      ⟨hnot_before, hfits, by omega, by omega, by omega⟩
    obtain ⟨frags, hlink, -⟩ := hrange.link hsize hpos hinv
    unfold usnet_insert_fragment
    simp only [hsint]
    rw [if_neg (not_not.mpr hnot_before), if_neg hfits, if_neg (by omega), if_neg (by omega)]
    split
    · rename_i hnone
      have hlt := (copy_payload_none
        { buf with last_seq := if seq + u32 data.length > buf.last_seq
            then seq + u32 data.length else buf.last_seq } data _ (by omega) hsize).mp hnone
      simp only at hlt
      omega
    · rename_i copied hcopy
      have hframe : copied.frags = buf.frags := by rw [copy_payload_frame hcopy]
      rw [if_neg (by decide), hframe, hlink]
      exact ⟨_, _, rfl, by omega⟩

/-! ## Section 4: Segments inside the window -/

/-- What the handler of a segment that passes the check finds. -/
theorem validated_same {s s₁ : Conn} {seg : Segment}
    (h : usnet_validate_seq s seg = .ok (0, s₁)) : AckKept s (note_segment s₁ seg) := by
  have hquiet : Quiet s s₁ := by
    rcases usnet_validate_seq_cases h with ⟨-, -, hq⟩ | ⟨hr, -⟩ | ⟨hr, -⟩ | ⟨hr, -⟩
    · exact hq
    all_goals exact absurd hr (by decide)
  have hn := note_segment_quiet s₁ seg
  generalize note_segment s₁ seg = n at *
  simp_all

/-- The buffer found or made does not depend on bookkeeping. -/
theorem receive_buffer_congr {s n : Conn} (h : AckKept s n) :
    receive_buffer n = receive_buffer s := by
  obtain ⟨-, hfd, -, -, -, -, -, hirs, hbuf, -, -, -, -, -, -, hcache, -⟩ := h
  unfold receive_buffer
  simp only [hfd, hirs, hbuf, hcache]

/-- A segment with a valid timestamp whose end is in the window passes. -/
theorem usnet_validate_seq_passes {s : Conn} {seg : Segment}
    (hts : timestamp_valid s.tcb seg) (hwin : in_window s.tcb seg) :
    ∃ s₁, usnet_validate_seq s seg = .ok (0, s₁) := by
  obtain ⟨s', hs'⟩ := validate_timestamp_valid hts
  have hq := validate_timestamp_quiet hs'
  have hw : in_window s'.tcb seg :=
    (in_window_congr (by simp [hq]) (by simp [hq])).mpr hwin
  unfold usnet_validate_seq
  rw [hs']
  simp only
  rw [if_neg (by decide), if_pos hw]
  exact ⟨s', rfl⟩

/-- The three checks one after the other. -/
theorem accepted_and_stored_iff {t : UsnTcb} {c : Ctx} {seg : Segment}
    (hinv : RcvInv t) (hst : t.state = .established)
    (hpos : 0 < seg.payload.length) (hts : timestamp_valid t seg)
    (hin : inside_window t seg) (hchunk : c.frag_mp = true) :
    accepted_and_stored ⟨c, t⟩ seg ↔ WindowAgrees c t seg := by
  constructor
  · rintro ⟨s₁, r, buf', hval, hins, hr⟩
    have hsame := validated_same hval
    -- the segment passed the check of the sequence numbers
    have hwin : in_window t seg := by
      rcases usnet_validate_seq_cases hval with ⟨-, hw, -⟩ | ⟨h, -⟩ | ⟨h, -⟩ | ⟨h, -⟩
      · exact hw
      all_goals exact absurd h (by decide)
    generalize note_segment s₁ seg = n at *
    have hnxt : n.tcb.rcv_nxt = t.rcv_nxt := by simp [hsame]
    have hwnd : n.tcb.rcvvar.rcv_wnd = t.rcvvar.rcv_wnd := by simp [hsame]
    have hbuf₀ : receive_buffer n = receive_buffer ⟨c, t⟩ := receive_buffer_congr hsame
    unfold payload_insertion at hins
    rw [hnxt, hwnd] at hins
    split at hins
    · cases hins
    · rename_i hlt
      split at hins
      · cases hins
      · rename_i hgt
        obtain ⟨h₁, h₂, h₃⟩ := (window_checks hpos hin).mp ⟨hwin, hlt, hgt⟩
        split at hins
        · cases hins
        · rename_i buf hbuf
          rw [hbuf₀] at hbuf
          obtain ⟨hf, hsize, hfront⟩ := hinv.receive_buffer hbuf
          have hfront := hfront (.inr hst)
          have hmp : n.ctx.frag_mp = true := by simp [hsame, hchunk]
          rw [hmp] at hins
          refine ⟨h₁, h₂, h₃, buf, hbuf, ?_⟩
          rw [← hfront] at h₂ ⊢
          exact (insertion_stored (RINGBUF_SIZE_le hsize) hpos hf h₂).mp ⟨r, buf', hins, hr⟩
  -- each of the three conditions is what one of the checks asks for
  · rintro ⟨h₁, h₂, h₃, buf, hbuf, hfits⟩
    obtain ⟨hwin, hlt, hgt⟩ := (window_checks hpos hin).mpr ⟨h₁, h₂, h₃⟩
    obtain ⟨s₁, hval⟩ := usnet_validate_seq_passes (s := ⟨c, t⟩) hts hwin
    obtain ⟨hf, hsize, hfront⟩ := hinv.receive_buffer hbuf
    have hfront := hfront (.inr hst)
    rw [← hfront] at h₂ hfits
    obtain ⟨r, buf', hins, hr⟩ :=
      (insertion_stored (RINGBUF_SIZE_le hsize) hpos hf h₂).mpr hfits
    have hsame := validated_same hval
    refine ⟨s₁, r, buf', hval, ?_, hr⟩
    generalize note_segment s₁ seg = n at *
    have hnxt : n.tcb.rcv_nxt = t.rcv_nxt := by simp [hsame]
    have hwnd : n.tcb.rcvvar.rcv_wnd = t.rcvvar.rcv_wnd := by simp [hsame]
    have hbuf₀ : receive_buffer n = some buf := (receive_buffer_congr hsame).trans hbuf
    have hmp : n.ctx.frag_mp = true := by simp [hsame, hchunk]
    unfold payload_insertion
    rw [hnxt, hwnd, if_neg hlt, if_neg hgt, hbuf₀, hmp]
    exact hins

/-- For every established connection and every data segment with a valid
    timestamp inside the receive window: it is accepted and stored exactly when
    the three checks agree on its place. -/
theorem window_accepts {t : UsnTcb} {c : Ctx} {seg : Segment}
    (hreach : LifeReachable (some t)) (hst : t.state = .established)
    (hpos : 0 < seg.payload.length) (hts : timestamp_valid t seg)
    (hin : inside_window t seg) (hchunk : c.frag_mp = true) :
    accepted_and_stored ⟨c, t⟩ seg ↔ WindowAgrees c t seg :=
  accepted_and_stored_iff (rcvInv_of_life hreach) hst hpos hts hin hchunk

/-- A byte at the start of the window the handshake leaves, and at its end. -/
def first_byte : Segment := peer_segment 9001 5001 TH_ACK [0x61] (by decide)
def last_byte : Segment := peer_segment 23600 5001 TH_ACK [0x61] (by decide)

theorem window_accepts_sample :
    accepted_and_stored ⟨quiet_ctx, opened_tcb⟩ first_byte ↔
      WindowAgrees quiet_ctx opened_tcb first_byte :=
  window_accepts opened_tcb_reachable rfl (by decide) (fun _ h => nomatch h)
    (by unfold inside_window; decide) rfl

/-- The last byte of the initial window is not accepted. -/
theorem last_byte_refused :
    LifeReachable (some opened_tcb) ∧ opened_tcb.state = .established ∧
    timestamp_valid opened_tcb last_byte ∧ inside_window opened_tcb last_byte ∧
    ¬ accepted_and_stored ⟨quiet_ctx, opened_tcb⟩ last_byte := by
  refine ⟨opened_tcb_reachable, rfl, fun _ h => (nomatch h), by unfold inside_window; decide,
    ?_⟩
  rintro ⟨s₁, r, buf', hval, -⟩
  cases hval

/-! ## Section 5: A window that stays open -/

/-- `head` after `len` bytes have been copied to `off` behind it. -/
def UsnRingbuf.head_after (buf : UsnRingbuf) (off len : Nat) : UInt16 :=
  if buf.start_off off + len ≤ buf.size.toNat then buf.head + u16 len
  else buf.head + u16 (len - sint buf.size)

/-- What is free then, the read position staying where it is. -/
def UsnRingbuf.free_after (buf : UsnRingbuf) (off len : Nat) : Int :=
  let head := buf.head_after off len
  if buf.data > head then buf.data.toNat - head.toNat
  else buf.size.toNat + buf.data.toNat - head.toNat

/-- A segment that does not close the window for good: the first one is stored,
    and one that is stored leaves three bytes free and `head` near the block. -/
structure StaysOpen (s : Conn) (seg : Segment) (buf : UsnRingbuf) : Prop where
  first : s.tcb.rcvvar.rcvbuf = none → s.ctx.frag_mp = true ∧
    RingFits buf (ahead s.tcb.rcv_nxt seg.seq) seg.payload.length
  head : RingFits buf (ahead s.tcb.rcv_nxt seg.seq) seg.payload.length →
    (buf.head_after (ahead s.tcb.rcv_nxt seg.seq) seg.payload.length).toNat
      ≤ 2 * buf.size.toNat
  free : RingFits buf (ahead s.tcb.rcv_nxt seg.seq) seg.payload.length →
    s.ctx.frag_mp = true →
    3 ≤ buf.free_after (ahead s.tcb.rcv_nxt seg.seq) seg.payload.length

/-- The events after which the window can still open: every one but a segment
    whose payload is handed to the ring and closes it. -/
def keeps_open (s : Conn) : LifeEvent → Prop
  | .segment seg =>
    s.tcb.state = .established → in_window s.tcb seg → payload_fits s.tcb seg →
      seg.has TH_SYN = false → 0 < seg.payload.length →
      ∀ buf, receive_buffer s = some buf → StaysOpen s seg buf
  | _ => True

/-- The application has read everything and no fragment is pending. -/
def drained (tcb : UsnTcb) : Prop :=
  ∀ buf, tcb.rcvvar.rcvbuf = some buf → buf.data = buf.head ∧ buf.frags = []

/-- The window is the ring's, and neither nearly closed nor out of range. -/
structure WindowOpen (t : UsnTcb) : Prop where
  without : t.rcvvar.rcvbuf = none → t.rcvvar.rcv_wnd = TCP_INITIAL_WINDOW
  win : ∀ buf, t.rcvvar.rcvbuf = some buf →
    t.rcvvar.rcv_wnd = buf.win ∧ 2 ≤ buf.win.toNat ∧ buf.win.toNat ≤ 2 ^ 31 ∧
    buf.head.toNat ≤ 2 * buf.size.toNat

theorem copy_payload_head {buf copied : UsnRingbuf} {data : List UInt8} {off : Nat}
    (hoff : off ≤ 65535) (hsize : buf.size.toNat ≤ 65535)
    (h : copy_payload buf data off = some copied) :
    copied.head = buf.head_after off data.length := by
  have htail := ring_tail_len_eq buf hoff hsize
  have hstart := ring_start_off_eq buf hoff hsize
  have hpiece : sint (buf.size - u32 (buf.start_off off)) ≥ data.length ↔
      buf.start_off off + data.length ≤ buf.size.toNat := by
    rw [htail, hstart]
    split <;> omega
  unfold copy_payload at h
  unfold UsnRingbuf.head_after
  simp only [hpiece] at h
  split at h
  · rename_i hle
    obtain rfl := Option.some.inj h
    rw [if_pos hle]
  · rename_i hle
    split at h
    · cases h
    · obtain rfl := Option.some.inj h
      rw [if_neg hle]

theorem InRange.copied_head {buf copied : UsnRingbuf} {data : List UInt8}
    {seq last_seq : UInt32} (h : InRange buf data seq) (hsize : buf.size.toNat ≤ 65535)
    (hcopy : copy_payload { buf with last_seq := last_seq } data (sint (seq - buf.head_seq))
      = some copied) : copied.head = buf.head_after (ahead buf.head_seq seq) data.length := by
  obtain ⟨hsint, hle⟩ := h.offset hsize
  rw [hsint] at hcopy
  exact @copy_payload_head { buf with last_seq := last_seq } _ _ _ (by omega) hsize hcopy

/-- The window announced after an insertion, when something is free. -/
theorem set_win_eq {buf : UsnRingbuf} {free : Int} (hsize : buf.size.toNat ≤ 65535)
    (hfree : free = if buf.data > buf.head then (buf.data.toNat : Int) - buf.head.toNat
      else buf.size.toNat + buf.data.toNat - buf.head.toNat) (hpos : 1 ≤ free) :
    (buf.set_win.win.toNat : Int) = free - 1 := by
  have hd := buf.data.toNat_lt
  have hh := buf.head.toNat_lt
  have hone : (1 : UInt32).toNat = 1 := rfl
  unfold UsnRingbuf.set_win
  simp only [toUInt32_eq_u32]
  split at hfree
  · rename_i hgt
    rw [if_pos hgt]
    simp only [toNat_sub, toNat_u32, hone]
    omega
  · rename_i hgt
    rw [if_neg hgt]
    simp only [toNat_sub, toNat_add, toNat_u32, hone]
    omega

/-- One insertion under the condition leaves the window open. -/
theorem WindowOpen.insert {s : Conn} {seg : Segment} {buf buf' : UsnRingbuf} {r : Int}
    (h : WindowOpen s.tcb) (hinv : RcvInv s.tcb) (hins : Inserted s seg buf buf' r)
    (hc : StaysOpen s seg buf) :
    2 ≤ buf'.win.toNat ∧ buf'.win.toNat ≤ 2 ^ 31 ∧
    buf'.head.toNat ≤ 2 * buf'.size.toNat := by
  obtain ⟨hf, hsize, hfront⟩ := hinv.receive_buffer hins.buffer
  have hfront := hfront (.inr hins.established.1)
  have hsize' := RINGBUF_SIZE_le hsize
  have hkept := usnet_insert_fragment_kept hins.run
  -- a ring that was there before is in order before
  have hold : s.tcb.rcvvar.rcvbuf ≠ none → 2 ≤ buf.win.toNat ∧ buf.win.toNat ≤ 2 ^ 31 ∧
      buf.head.toNat ≤ 2 * buf.size.toNat := by
    intro hne
    have hbuf := hins.buffer
    unfold receive_buffer at hbuf
    cases hrb : s.tcb.rcvvar.rcvbuf with
    | none => exact absurd hrb hne
    | some b =>
      simp only [hrb] at hbuf
      obtain rfl := Option.some.inj hbuf
      exact (h.win _ hrb).2
  obtain ⟨hfirst, hhead, hfree⟩ := hc
  rw [← hfront] at hfirst hhead hfree
  rcases usnet_insert_fragment_cases hins.run with
    ⟨-, hneg, rfl, -⟩ | ⟨rfl, hmp, hrange, hcopy⟩ | ⟨-, hmp, hrange, copied, frags, hcopy, -, rfl⟩
  · refine hold fun hnone => ?_
    -- refused, but the first segment is stored
    obtain ⟨hmp, hfits⟩ := hfirst hnone
    have hrun := hins.run
    obtain ⟨r', b, hins', hr'⟩ := (insertion_stored hsize' hins.payload.1 hf
      (by have := hfits.free; have := avail_len_le hsize'; omega)).mpr hfits
    rw [hmp, hins'] at hrun
    obtain ⟨rfl, -⟩ := hrun
    omega
  · have hne : s.tcb.rcvvar.rcvbuf ≠ none := by
      intro hnone
      rw [(hfirst hnone).1] at hmp
      cases hmp
    obtain ⟨h₁, h₂, -⟩ := hold hne
    have hfits := hrange.ring_fits hsize' hcopy
    have hhead' := hrange.copied_head hsize' hcopy
    rw [copy_payload_frame hcopy]
    refine ⟨h₁, h₂, ?_⟩
    simp only [hhead']
    exact hhead hfits
  · have hfits := hrange.ring_fits hsize' hcopy
    have hhead' := hrange.copied_head hsize' hcopy
    have hframe := copy_payload_frame hcopy
    have hdata : copied.data = buf.data := by rw [hframe]
    have hcsize : copied.size = buf.size := by rw [hframe]
    have hge := hfree hfits hmp
    have hwin := @set_win_eq (pop_front { copied with frags := frags })
      (buf.free_after (ahead buf.head_seq seg.seq) seg.payload.length)
      (by simp [hcsize, hsize'])
      (by
        unfold UsnRingbuf.free_after
        simp only [pop_front_data, pop_front_head, pop_front_size, hdata, hcsize, hhead'])
      (by omega)
    have hupper : buf.free_after (ahead buf.head_seq seg.seq) seg.payload.length
        ≤ 2 ^ 31 := by
      have hd := buf.data.toNat_lt
      unfold UsnRingbuf.free_after
      simp only
      split <;> omega
    refine ⟨by omega, by omega, ?_⟩
    simp only [set_win_frame, pop_front_head, pop_front_size, hhead', hcsize]
    exact hhead hfits

theorem WindowOpen.created {t : UsnTcb} (h : Created t) : WindowOpen t := by
  obtain ⟨-, hbuf, hwnd⟩ := h.receive
  refine ⟨fun _ => hwnd, fun buf hb => ?_⟩
  rw [hbuf] at hb
  cases hb

/-- It depends on the window and the ring only. -/
theorem WindowOpen.congr {t t' : UsnTcb} (h : WindowOpen t)
    (hwnd : t'.rcvvar.rcv_wnd = t.rcvvar.rcv_wnd)
    (hbuf : t'.rcvvar.rcvbuf = t.rcvvar.rcvbuf) : WindowOpen t' := by
  refine ⟨fun hb => ?_, fun buf hb => ?_⟩
  · rw [hwnd]
    exact h.without (hbuf ▸ hb)
  · rw [hwnd]
    exact h.win buf (hbuf ▸ hb)

/-- Every event under the condition keeps the window open. -/
theorem WindowOpen.step {s s' : Conn} {ev : LifeEvent} (h : WindowOpen s.tcb)
    (hinv : RcvInv s.tcb) (hcond : keeps_open s ev) (hok : life_conn s ev = .ok s') :
    WindowOpen s'.tcb := by
  cases life_conn_receive hinv.life hok with
  | kept hwnd hbuf => exact h.congr hwnd hbuf
  | read hwnd hbuf =>
    refine ⟨fun hb => ?_, fun buf' hb => ?_⟩
    · rw [hwnd]
      exact h.without (usnet_read_none (hbuf ▸ hb))
    · rw [hbuf] at hb
      obtain ⟨buf, hb₀, hframe⟩ := usnet_read_frame hb
      rw [hwnd, hframe]
      exact h.win buf hb₀
  | inserted hw hins hwnd hbuf =>
    have hopen := h.insert hinv hins (hcond hins.established.1 hw hins.payload.2
      hins.established.2 hins.payload.1 _ hins.buffer)
    refine ⟨fun hb => ?_, fun buf hb => ?_⟩
    · rw [hbuf] at hb
      cases hb
    · rw [hbuf] at hb
      obtain rfl := Option.some.inj hb
      exact ⟨hwnd, hopen⟩

theorem windowOpen_of_life {t : UsnTcb} (h : LifeWhere keeps_open (some t)) :
    RcvInv t ∧ WindowOpen t := by
  refine LifeWhere.invariant (I := fun t => RcvInv t ∧ WindowOpen t)
    (fun _ _ _ _ _ hin => ?_) (fun _ _ _ hi hc hok => ?_) h
  · have hnew := usnet_tcp_input_created hin
    exact ⟨.created hnew, .created hnew⟩
  · exact ⟨hi.1.step hok, hi.2.step hi.1 hc hok⟩

/-- An empty ring has a place for one byte. -/
theorem ringFits_one {buf : UsnRingbuf} (hsize : buf.size = RINGBUF_SIZE)
    (hempty : buf.data = buf.head) (hhead : buf.head.toNat ≤ 2 * buf.size.toNat) :
    RingFits buf 0 1 := by
  have hnat : buf.size.toNat = 8096 := by
    rw [hsize]
    rfl
  refine ⟨by omega, ?_, by omega⟩
  have havail : buf.avail_len = 8096 := by
    unfold UsnRingbuf.avail_len
    rw [hempty, if_neg (by simp)]
    have hsub : buf.head.toUInt32 + buf.size - buf.head.toUInt32 = buf.size := by grind
    rw [hsub, sint_of_lt (by omega), hnat]
    rfl
  rw [havail]
  decide

/-- In every run whose segments leave the window open: once the application has
    read everything and no fragment is pending, one byte in order is accepted
    and stored. -/
theorem window_reopens {t : UsnTcb} {c : Ctx} {seg : Segment}
    (hrun : LifeWhere keeps_open (some t)) (hst : t.state = .established)
    (hdrained : drained t) (hone : seg.payload.length = 1) (hseq : seg.seq = t.rcv_nxt)
    (hts : timestamp_valid t seg) (hchunk : c.frag_mp = true)
    (hring : (receive_buffer ⟨c, t⟩).isSome) : accepted_and_stored ⟨c, t⟩ seg := by
  obtain ⟨hinv, hopen⟩ := windowOpen_of_life hrun
  obtain ⟨buf, hbuf⟩ := Option.isSome_iff_exists.mp hring
  obtain ⟨-, hsize, -⟩ := hinv.receive_buffer hbuf
  have hoff : ahead t.rcv_nxt seg.seq = 0 := ahead_eq_zero.mpr hseq
  -- with a buffer the window is what it has room for; without one it is as at the start
  have hplace : 2 ≤ t.rcvvar.rcv_wnd.toNat ∧ t.rcvvar.rcv_wnd.toNat ≤ 2 ^ 31 ∧
      RingFits buf 0 1 := by
    unfold receive_buffer at hbuf
    cases hrb : t.rcvvar.rcvbuf with
    | some b =>
      simp only [hrb] at hbuf
      obtain rfl := Option.some.inj hbuf
      obtain ⟨hwnd, h₁, h₂, h₃⟩ := hopen.win _ hrb
      rw [hwnd]
      exact ⟨h₁, h₂, ringFits_one hsize (hdrained _ hrb).1 h₃⟩
    | none =>
      simp only [hrb, usnet_get_ringbuf, Option.map_eq_some_iff] at hbuf
      obtain ⟨mem, -, rfl⟩ := hbuf
      rw [hopen.without hrb]
      exact ⟨by decide, by decide, ringFits_one rfl rfl (Nat.zero_le _)⟩
  obtain ⟨h₁, h₂, hfits⟩ := hplace
  refine (accepted_and_stored_iff hinv hst (by omega) hts ?_ hchunk).mpr
    ⟨?_, ?_, ?_, buf, hbuf, ?_⟩
  · unfold inside_window
    omega
  · omega
  · omega
  · omega
  · rw [hoff, hone]
    exact hfits

/-- The handshake is over before there is any window to close. -/
theorem handshake_keeps_open : LifeWhere keeps_open (some opened_tcb) := by
  have hmeets : life_run_meets keeps_open none handshake := by
    refine ⟨fun _ h => (nomatch h), ⟨?_, ⟨?_, trivial⟩⟩⟩
    · intro t _
      trivial
    · rintro t ht hst
      obtain rfl := Option.some.inj ht
      cases hst
  exact .run (.init rfl) hmeets opened_tcb_run

/-- The ring the first byte meets. -/
def first_ring : UsnRingbuf := (receive_buffer ⟨quiet_ctx, opened_tcb⟩).get rfl

theorem first_byte_open : life_run_meets keeps_open (some opened_tcb)
    [(quiet_ctx, .segment first_byte), (quiet_ctx, .read 5 10)] := by
  refine ⟨?_, ?_, trivial⟩
  · rintro t ht - - - - - buf hbuf
    obtain rfl := Option.some.inj ht
    obtain rfl := Option.some.inj hbuf
    have hfits : RingFits first_ring (ahead opened_tcb.rcv_nxt first_byte.seq)
        first_byte.payload.length := ⟨by decide, by decide, by decide⟩
    exact ⟨fun _ => ⟨rfl, hfits⟩, fun _ => by decide, fun _ _ => by decide⟩
  · intro t _
    trivial

/-- The connection after that byte has been received and read. -/
def drained_tcb : UsnTcb :=
  (life_run (some opened_tcb)
    [(quiet_ctx, .segment first_byte), (quiet_ctx, .read 5 10)]).toOption.join.get rfl

def second_byte : Segment := peer_segment 9002 5001 TH_ACK [0x62] (by decide)

theorem window_reopens_sample :
    accepted_and_stored ⟨quiet_ctx, drained_tcb⟩ second_byte := by
  refine window_reopens (.run handshake_keeps_open first_byte_open rfl) rfl ?_ rfl rfl
    (fun _ h => nomatch h) rfl rfl
  intro buf hbuf
  obtain rfl := Option.some.inj hbuf
  exact ⟨rfl, rfl⟩

/-- A first segment beyond what the ring can hold, inside the initial window. -/
def far_byte : Segment := peer_segment 19001 5001 TH_ACK [0x7a] (by decide)

def closed_window_tcb : UsnTcb :=
  (life_run (some opened_tcb) [(quiet_ctx, .segment far_byte)]).toOption.join.get rfl

/-- It is refused, and after that the window is zero and nothing is accepted. -/
theorem window_locked :
    LifeReachable (some closed_window_tcb) ∧ closed_window_tcb.state = .established ∧
    drained closed_window_tcb ∧ first_byte.payload.length = 1 ∧
    first_byte.seq = closed_window_tcb.rcv_nxt ∧
    timestamp_valid closed_window_tcb first_byte ∧
    (receive_buffer ⟨quiet_ctx, closed_window_tcb⟩).isSome ∧
    ¬ accepted_and_stored ⟨quiet_ctx, closed_window_tcb⟩ first_byte := by
  have hrun : life_run (some opened_tcb) [(quiet_ctx, .segment far_byte)]
      = .ok (some closed_window_tcb) := rfl
  refine ⟨.run opened_tcb_reachable (life_run_meets_true _ _) hrun, rfl, ?_, rfl, rfl,
    fun _ h => (nomatch h), rfl, ?_⟩
  · intro buf hbuf
    obtain rfl := Option.some.inj hbuf
    exact ⟨rfl, rfl⟩
  · rintro ⟨s₁, r, buf', hval, -⟩
    cases hval

end Usnet
