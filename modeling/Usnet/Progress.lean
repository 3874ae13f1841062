import Usnet.FinConsume
import Usnet.Window

/-! # Insertions that fail and insertions that advance

    `usnet_insert_fragment` has four failure exits.  Three come before anything
    is written; the fourth, for lack of a fragment, comes after the copy.  What
    starts in front of `head_seq` leaves through the first exit, also when it
    ends behind it.
-/

namespace Usnet

open CInt Circular Run

/-! ## Section 1: Failed insertions -/

/-- Everything but the memory of the ring is as before. -/
structure Untouched (buf buf' : UsnRingbuf) : Prop where
  data : buf'.data = buf.data
  head : buf'.head = buf.head
  head_seq : buf'.head_seq = buf.head_seq
  last_seq : buf'.last_seq = buf.last_seq
  win : buf'.win = buf.win
  merged_len : buf'.merged_len = buf.merged_len
  frags : buf'.frags = buf.frags

/-- What the copy of `data` adds to `head`. -/
def UsnRingbuf.head_move (buf : UsnRingbuf) (data : List UInt8) (data_off : Int) : UInt16 :=
  if sint (buf.size - u32 (buf.start_off data_off)) ≥ data.length then u16 data.length
  else u16 (data.length - sint buf.size)

theorem copy_payload_head_move {buf copied : UsnRingbuf} {data : List UInt8} {data_off : Int}
    (h : copy_payload buf data data_off = some copied) :
    copied.head = buf.head + buf.head_move data data_off := by
  unfold copy_payload at h
  unfold UsnRingbuf.head_move
  simp only at h
  split at h
  · rename_i hge
    obtain rfl := Option.some.inj h
    rw [if_pos hge]
  · rename_i hge
    split at h
    · cases h
    · obtain rfl := Option.some.inj h
      rw [if_neg hge]

/-- The copy shows neither in `head` nor in `last_seq`. -/
structure NoTrace (buf : UsnRingbuf) (data : List UInt8) (seq : UInt32) : Prop where
  head : buf.head_move data (sint (seq - buf.head_seq)) = 0
  last_seq : ¬ seq + u32 data.length > buf.last_seq

/-- For every call that fails: the ring is as before exactly when the failure
    is not the lack of a fragment, or the copy left no trace. -/
theorem failed_insertion_unchanged {chunk : Bool} {buf buf' : UsnRingbuf} {data : List UInt8}
    {seq : UInt32} {r : Int} (h : usnet_insert_fragment chunk buf data seq = some (r, buf'))
    (hneg : r < 0) :
    Untouched buf buf' ↔ chunk = true ∨ ¬ InRange buf data seq ∨ NoTrace buf data seq := by
  rcases usnet_insert_fragment_cases h with
    ⟨-, -, rfl, hout⟩ | ⟨-, hchunk, hrange, hcopy⟩ | ⟨hr, -⟩
  · constructor
    · intro
      exact .inr (.inl hout)
    · intro
      exact ⟨rfl, rfl, rfl, rfl, rfl, rfl, rfl⟩
  · have hmove := copy_payload_head_move hcopy
    have hframe := copy_payload_frame hcopy
    have hlast : buf'.last_seq = if seq + u32 data.length > buf.last_seq
        then seq + u32 data.length else buf.last_seq := by rw [hframe]
    constructor
    · intro hsame
      refine .inr (.inr ⟨?_, ?_⟩)
      · have hhead := hsame.head
        rw [hmove] at hhead
        exact add_eq_left.mp hhead
      · intro hgt
        have hseq := hsame.last_seq
        rw [hlast, if_pos hgt] at hseq
        rw [hseq] at hgt
        exact absurd hgt (UInt32.lt_irrefl _)
    · intro hor
      obtain ⟨hzero, hle⟩ : NoTrace buf data seq := by
        rcases hor with hc | hout | htrace
        · rw [hchunk] at hc
          cases hc
        · exact absurd hrange hout
        · exact htrace
      refine ⟨?_, ?_, ?_, ?_, ?_, ?_, ?_⟩
      · rw [hframe]
      · rw [hmove]
        exact add_eq_left.mpr hzero
      · rw [hframe]
      · rw [hlast, if_neg hle]
      · rw [hframe]
      · rw [hframe]
      · rw [hframe]
  · omega

/-- A fresh ring of eight bytes, and a byte for it. -/
def eight_ring : UsnRingbuf := (usnet_get_ringbuf (some fun _ => 0) 8 5 9001).get rfl

/-- The fourth exit: the byte is not stored, and can be read. -/
def copied_ring : UsnRingbuf :=
  ((usnet_insert_fragment false eight_ring [0x61] 9001).map Prod.snd).getD eight_ring

theorem failed_insertion_unchanged_sample :
    Untouched eight_ring copied_ring ↔
      false = true ∨ ¬ InRange eight_ring [0x61] 9001 ∨ NoTrace eight_ring [0x61] 9001 :=
  @failed_insertion_unchanged false eight_ring copied_ring [0x61] 9001 (-4) rfl (by decide)

theorem unstored_byte_readable :
    usnet_insert_fragment false eight_ring [0x61] 9001 = some (-4, copied_ring) ∧
    ¬ Untouched eight_ring copied_ring ∧
    (usnet_read (some copied_ring) 5 10).1 = 1 ∧
    (usnet_read (some copied_ring) 5 10).2.1 = [0x61] := by
  refine ⟨rfl, ?_, rfl, rfl⟩
  intro h
  exact absurd h.head (by decide)

/-! ## Section 2: The window a connection announces -/

/-- A window no larger than 65535, or as far below zero. -/
def near_zero (win : UInt32) : Prop := win.toNat ≤ 65535 ∨ 2 ^ 32 - 65536 ≤ win.toNat

/-- The window is the initial one until there is a ring, and then the ring's. -/
structure WndFollows (t : UsnTcb) : Prop where
  without : t.rcvvar.rcvbuf = none → t.rcvvar.rcv_wnd = TCP_INITIAL_WINDOW
  win : ∀ buf, t.rcvvar.rcvbuf = some buf → t.rcvvar.rcv_wnd = buf.win ∧ near_zero buf.win

theorem WndFollows.near_zero {t : UsnTcb} (h : WndFollows t) :
    Usnet.near_zero t.rcvvar.rcv_wnd := by
  cases hbuf : t.rcvvar.rcvbuf with
  | none =>
    rw [h.without hbuf]
    exact .inl (by decide)
  | some buf =>
    obtain ⟨hwnd, hnear⟩ := h.win _ hbuf
    rw [hwnd]
    exact hnear

theorem WndFollows.created {t : UsnTcb} (h : Created t) : WndFollows t := by
  obtain ⟨-, hbuf, hwnd⟩ := h.receive
  refine ⟨fun _ => hwnd, fun buf hb => ?_⟩
  rw [hbuf] at hb
  cases hb

/-- What `set_win` computes, whatever the positions are. -/
theorem set_win_near_zero {buf : UsnRingbuf} (hsize : buf.size.toNat ≤ 65535) :
    near_zero buf.set_win.win := by
  have hd := buf.data.toNat_lt
  have hh := buf.head.toNat_lt
  have hone : (1 : UInt32).toNat = 1 := rfl
  unfold UsnRingbuf.set_win near_zero
  simp only [toUInt32_eq_u32]
  split
  · rename_i hgt
    rw [gt_iff_lt, UInt16.lt_iff_toNat_lt] at hgt
    simp only [toNat_sub, toNat_u32, hone]
    omega
  · rename_i hgt
    rw [gt_iff_lt, UInt16.lt_iff_toNat_lt] at hgt
    simp only [toNat_sub, toNat_add, toNat_u32, hone]
    omega

theorem usnet_insert_fragment_win {chunk : Bool} {buf buf' : UsnRingbuf} {data : List UInt8}
    {seq : UInt32} {r : Int} (hsize : buf.size.toNat ≤ 65535) (hnear : near_zero buf.win)
    (h : usnet_insert_fragment chunk buf data seq = some (r, buf')) : near_zero buf'.win := by
  rcases usnet_insert_fragment_cases h with
    ⟨-, -, rfl, -⟩ | ⟨-, -, -, hcopy⟩ | ⟨-, -, -, copied, frags, hcopy, -, rfl⟩
  · exact hnear
  · rw [copy_payload_frame hcopy]
    exact hnear
  · apply set_win_near_zero
    rw [pop_front_size, copy_payload_frame hcopy]
    exact hsize

theorem WndFollows.step {s s' : Conn} {ev : LifeEvent} (h : WndFollows s.tcb)
    (hinv : RcvInv s.tcb) (hok : life_conn s ev = .ok s') : WndFollows s'.tcb := by
  cases life_conn_receive hinv.life hok with
  | kept hwnd hbuf =>
    refine ⟨fun hb => ?_, fun buf hb => ?_⟩
    · rw [hwnd]
      exact h.without (hbuf ▸ hb)
    · rw [hwnd]
      exact h.win buf (hbuf ▸ hb)
  | read hwnd hbuf =>
    refine ⟨fun hb => ?_, fun buf' hb => ?_⟩
    · rw [hwnd]
      exact h.without (usnet_read_none (hbuf ▸ hb))
    · rw [hbuf] at hb
      obtain ⟨buf, hb₀, hframe⟩ := usnet_read_frame hb
      rw [hwnd, hframe]
      exact h.win buf hb₀
  | inserted hw hins hwnd hbuf =>
    obtain ⟨-, hsize, -⟩ := hinv.receive_buffer hins.buffer
    refine ⟨fun hb => ?_, fun b hb => ?_⟩
    · rw [hbuf] at hb
      cases hb
    · rw [hbuf] at hb
      obtain rfl := Option.some.inj hb
      refine ⟨hwnd, usnet_insert_fragment_win (RINGBUF_SIZE_le hsize) ?_ hins.run⟩
      -- a ring just made has no window yet
      have hmade := hins.buffer
      unfold receive_buffer at hmade
      cases hrb : s.tcb.rcvvar.rcvbuf with
      | some b =>
        simp only [hrb] at hmade
        obtain rfl := Option.some.inj hmade
        exact (h.win _ hrb).2
      | none =>
        simp only [hrb, usnet_get_ringbuf, Option.map_eq_some_iff] at hmade
        obtain ⟨mem, -, rfl⟩ := hmade
        left
        show (0 : UInt32).toNat ≤ 65535
        decide

theorem wndFollows_of_life {t : UsnTcb} (h : LifeReachable (some t)) :
    RcvInv t ∧ WndFollows t := by
  refine LifeWhere.invariant (I := fun t => RcvInv t ∧ WndFollows t)
    (fun _ _ _ _ _ hin => ?_) (fun _ _ _ hi _ hok => ?_) h
  · have hnew := usnet_tcp_input_created hin
    exact ⟨.created hnew, .created hnew⟩
  · exact ⟨hi.1.step hok, hi.2.step hi.1 hok⟩

/-! ## Section 3: Segments that cover the next byte -/

/-- `seq <= rcv_nxt < seq + payloadlen`, modulo `2^32`. -/
def covers_next (tcb : UsnTcb) (seg : Segment) : Prop :=
  ahead seg.seq tcb.rcv_nxt < seg.payload.length

/-- The number of bytes of a covering segment that are new. -/
def new_bytes (tcb : UsnTcb) (seg : Segment) : Nat :=
  seg.payload.length - ahead seg.seq tcb.rcv_nxt

/-- The ring has room for `n` more bytes at its front. -/
structure RoomFor (buf : UsnRingbuf) (n : Nat) : Prop where
  length : n ≤ buf.size.toNat
  free : (n : Int) ≤ buf.avail_len

/-- The payload is processed and `rcv_nxt` is not before the segment's end. -/
def advances (s : Conn) (seg : Segment) : Prop :=
  ∃ r s', usnet_process_tcp_payload s seg = .ok (r, s') ∧
    TCP_SEQ_GEQ s'.tcb.rcv_nxt (seg.seq + seg.payloadlen)

theorem window_payload_fits {tcb : UsnTcb} {seg : Segment} (hseq : seg.seq = tcb.rcv_nxt)
    (hnear : near_zero tcb.rcvvar.rcv_wnd) (hlen : seg.payload.length ≤ 65535)
    (hw : in_window tcb seg) : payload_fits tcb seg := by
  have hzero : ahead tcb.rcv_nxt seg.seq = 0 := by rw [hseq, ahead_self]
  have hend := @ahead_seg_end tcb.rcv_nxt seg (by omega)
  have hedge := ahead_add tcb.rcv_nxt tcb.rcvvar.rcv_wnd
  have hlast : ahead tcb.rcv_nxt (tcb.rcv_nxt + tcb.rcvvar.rcv_wnd - 1)
      = (tcb.rcvvar.rcv_wnd.toNat + 2 ^ 32 - 1) % 2 ^ 32 := by
    have hsub : tcb.rcv_nxt + tcb.rcvvar.rcv_wnd - 1 - tcb.rcv_nxt
        = tcb.rcvvar.rcv_wnd - 1 := by grind
    unfold ahead
    rw [hsub, toNat_sub]
    have hone : (1 : UInt32).toNat = 1 := rfl
    omega
  have hwlt := tcb.rcvvar.rcv_wnd.toNat_lt
  unfold near_zero at hnear
  unfold in_window payload_fits TCP_SEQ_BETWEEN TCP_SEQ_GEQ TCP_SEQ_LEQ TCP_SEQ_LT TCP_SEQ_GT
    at *
  rw [sint_sub_ahead tcb.rcv_nxt _ tcb.rcv_nxt, sint_sub_ahead tcb.rcv_nxt _ (_ - 1), hend,
    hlast, ahead_self, hzero] at hw
  rw [sint_sub_ahead tcb.rcv_nxt _ tcb.rcv_nxt, sint_sub_ahead tcb.rcv_nxt _ (tcb.rcv_nxt + _),
    hend, hedge, ahead_self, hzero]
  obtain ⟨h₁, h₂⟩ := hw
  constructor
  · split_ifs <;> omega
  · split_ifs at h₂ ⊢ <;> omega

/-- The processing of a payload returns when the insertion does. -/
theorem usnet_process_tcp_payload_returns {s : Conn} {seg : Segment} {buf : UsnRingbuf}
    {p : Int × UsnRingbuf} (hfits : payload_fits s.tcb seg) (hbuf : receive_buffer s = some buf)
    (hins : usnet_insert_fragment s.ctx.frag_mp buf seg.payload seg.seq = some p) :
    ∃ r s', usnet_process_tcp_payload s seg = .ok (r, s') := by
  cases hrun : usnet_process_tcp_payload s seg with
  | ok p => exact ⟨p.1, p.2, rfl⟩
  | error e =>
    unfold usnet_process_tcp_payload at hrun
    rw [if_neg hfits.1, if_neg hfits.2, hbuf] at hrun
    unfold store_payload at hrun
    simp only at hrun
    split at hrun
    · rename_i hnone
      have hnone : usnet_insert_fragment s.ctx.frag_mp buf seg.payload seg.seq = none := hnone
      rw [hins] at hnone
      cases hnone
    · rename_i r buf' _
      by_cases hleq : TCP_SEQ_LEQ buf'.head_seq s.tcb.rcv_nxt
      · rw [if_pos (by exact hleq)] at hrun
        cases hrun
      · rw [if_neg (by exact hleq)] at hrun
        split at hrun <;> cases hrun

/-- A `rcv_nxt` inside the segment is before its end. -/
theorem not_advanced {tcb : UsnTcb} {seg : Segment} {rcv_nxt : UInt32}
    (hcov : covers_next tcb seg) (hsame : rcv_nxt = tcb.rcv_nxt) :
    ¬ TCP_SEQ_GEQ rcv_nxt (seg.seq + seg.payloadlen) := by
  have hshort := seg.short
  unfold covers_next at hcov
  have hend := @ahead_seg_end seg.seq seg (by rw [ahead_self]; omega)
  unfold TCP_SEQ_GEQ
  rw [hsame, sint_sub_ahead seg.seq, hend, ahead_self]
  split_ifs <;> omega

/-- Moved over at least the segment, `rcv_nxt` is not before its end. -/
theorem advanced {seg : Segment} {n : Nat} (hle : n ≤ 65535) (hge : seg.payload.length ≤ n) :
    TCP_SEQ_GEQ (seg.seq + u32 n) (seg.seq + seg.payloadlen) := by
  have hend := @ahead_seg_end seg.seq seg (by rw [ahead_self]; omega)
  have hn : ahead seg.seq (seg.seq + u32 n) = n := by
    rw [ahead_add, toNat_u32_of_lt (by omega)]
  unfold TCP_SEQ_GEQ
  rw [sint_sub_ahead seg.seq, hend, hn, ahead_self]
  split_ifs <;> omega

/-- What is stored in front of a fragment list starts at `head_seq` or behind it. -/
theorem InRange.starts_at {buf : UsnRingbuf} {data : List UInt8} {seq : UInt32}
    (h : InRange buf data seq) (hnear : ahead seq buf.head_seq ≤ 65535) :
    seq = buf.head_seq := by
  have hlt := seq.toNat_lt
  have hlt' := buf.head_seq.toNat_lt
  by_contra hne
  have hpos : 0 < ahead seq buf.head_seq := by
    by_contra hzero
    exact hne (ahead_eq_zero.mp (by omega)).symm
  unfold ahead at hnear hpos
  rw [toNat_sub] at hnear hpos
  have hback : (seq - buf.head_seq).toNat = 2 ^ 32 - (buf.head_seq - seq).toNat := by
    rw [toNat_sub, toNat_sub]
    omega
  have hnonneg := h.off_nonneg
  rw [sint_eq, hback, toNat_sub] at hnonneg
  split at hnonneg <;> omega

/-- For every established connection and every segment that passes the check
    and covers the next byte, with a fragment left and room in the ring: it
    moves `rcv_nxt` to its end exactly when it starts at `rcv_nxt` and `head`
    has not left the ring. -/
theorem covering_segment_advances {t : UsnTcb} {c : Ctx} {seg : Segment} {s₁ : Conn}
    {buf : UsnRingbuf} (hreach : LifeReachable (some t)) (hst : t.state = .established)
    (hval : usnet_validate_seq ⟨c, t⟩ seg = .ok (0, s₁)) (hcov : covers_next t seg)
    (hchunk : c.frag_mp = true) (hbuf : receive_buffer ⟨c, t⟩ = some buf)
    (hroom : RoomFor buf (new_bytes t seg)) :
    advances (note_segment s₁ seg) seg ↔
      seg.seq = t.rcv_nxt ∧ buf.head.toNat ≤ 2 * buf.size.toNat := by
  obtain ⟨hinv, hwnd⟩ := wndFollows_of_life hreach
  obtain ⟨hf, hsize, hfront⟩ := hinv.receive_buffer hbuf
  have hfront := hfront (.inr hst)
  have hsize := RINGBUF_SIZE_le hsize
  have hshort := seg.short
  have hpos : 0 < seg.payload.length := by
    unfold covers_next at hcov
    omega
  -- the segment passed the check of the sequence numbers
  have hwin : in_window t seg := by
    rcases usnet_validate_seq_cases hval with ⟨-, hw, -⟩ | ⟨h, -⟩ | ⟨h, -⟩ | ⟨h, -⟩
    · exact hw
    all_goals exact absurd h (by decide)
  have hsame := validated_same hval
  have hbuf' : receive_buffer (note_segment s₁ seg) = some buf :=
    (receive_buffer_congr hsame).trans hbuf
  generalize note_segment s₁ seg = n at *
  have hnxt : n.tcb.rcv_nxt = t.rcv_nxt := by simp [hsame]
  have hwnd' : n.tcb.rcvvar.rcv_wnd = t.rcvvar.rcv_wnd := by simp [hsame]
  have hmp : n.ctx.frag_mp = true := by simp [hsame, hchunk]
  constructor
  · rintro ⟨r, s', hrun, hgeq⟩
    cases usnet_process_tcp_payload_done hrun with
    | outside _ _ hq => exact absurd hgeq (not_advanced hcov (by simp [hq, hnxt]))
    | no_mem _ _ _ _ _ hn => exact absurd hgeq (not_advanced hcov (hn.trans hnxt))
    | inserted b buf' r₀ _ hb hins _ _ hn =>
      obtain rfl : buf = b := Option.some.inj (hbuf'.symm.trans hb)
      rcases usnet_insert_fragment_cases hins with
        ⟨-, -, rfl, -⟩ | ⟨-, hno, -⟩ | ⟨-, -, hrange, copied, frags, hcopy, -⟩
      · exact absurd hgeq (not_advanced hcov (hn.trans hfront))
      · rw [hmp] at hno
        cases hno
      · have hseq : seg.seq = buf.head_seq := by
          apply hrange.starts_at
          rw [hfront]
          unfold covers_next at hcov
          omega
        have hplace := (hrange.ring_fits hsize hcopy).position
        rw [hseq, ahead_self] at hplace
        exact ⟨hseq.trans hfront, hplace⟩
  · rintro ⟨hseq, hhead⟩
    have hoff : ahead buf.head_seq seg.seq = 0 := by rw [hfront, hseq, ahead_self]
    have hnew : new_bytes t seg = seg.payload.length := by
      unfold new_bytes
      rw [hseq, ahead_self]
      rfl
    rw [hnew] at hroom
    have hfits := window_payload_fits hseq hwnd.near_zero (by omega) hwin
    have hfits' : payload_fits n.tcb seg := by
      unfold payload_fits at hfits ⊢
      rw [hnxt, hwnd']
      exact hfits
    have hplace : RingFits buf (ahead buf.head_seq seg.seq) seg.payload.length := by
      refine ⟨hroom.length, ?_, by omega⟩
      rw [hoff, Nat.zero_add]
      exact hroom.free
    obtain ⟨r, buf', hins, hr⟩ :=
      (@insertion_stored buf seg.payload seg.seq hsize hpos hf (by omega)).mpr hplace
    rw [← hmp] at hins
    obtain ⟨r', s', hrun⟩ := usnet_process_tcp_payload_returns hfits' hbuf' hins
    refine ⟨r', s', hrun, ?_⟩
    cases usnet_process_tcp_payload_done hrun with
    | outside _ hno => exact absurd hfits' hno
    | no_mem _ _ hno =>
      rw [hbuf'] at hno
      cases hno
    | inserted b b' r₀ _ hb hins' _ _ hn =>
      obtain rfl : buf = b := Option.some.inj (hbuf'.symm.trans hb)
      rw [hins] at hins'
      obtain ⟨rfl, rfl⟩ := hins'
      rcases usnet_insert_fragment_cases hins with ⟨-, hneg, -⟩ | ⟨hneg, -⟩ | ⟨-, -, hstored⟩
      · omega
      · omega
      · obtain ⟨m, hm, hle, hge, -⟩ :=
          stored_front hstored hsize hpos hf (hseq.trans hfront.symm)
        rw [hn, hm, hfront, ← hseq]
        exact advanced hle hge

/-- The ring of the connection whose first byte has been received and read. -/
def drained_ring : UsnRingbuf := (receive_buffer ⟨quiet_ctx, drained_tcb⟩).get rfl

theorem drained_reachable : LifeReachable (some drained_tcb) :=
  .run opened_tcb_reachable (life_run_meets_true _ _)
    (show life_run (some opened_tcb)
      [(quiet_ctx, .segment first_byte), (quiet_ctx, .read 5 10)] = .ok (some drained_tcb) from rfl)

/-- The connection after the check of a segment. -/
def checked (tcb : UsnTcb) (seg : Segment) : Conn :=
  match usnet_validate_seq ⟨quiet_ctx, tcb⟩ seg with
  | .ok (_, s) => s
  | .error _ => ⟨quiet_ctx, tcb⟩

theorem second_checked :
    usnet_validate_seq ⟨quiet_ctx, drained_tcb⟩ second_byte
      = .ok (0, checked drained_tcb second_byte) := rfl

theorem drained_ring_found : receive_buffer ⟨quiet_ctx, drained_tcb⟩ = some drained_ring := rfl

theorem second_covers : covers_next drained_tcb second_byte := by
  unfold covers_next
  decide

theorem second_room : RoomFor drained_ring (new_bytes drained_tcb second_byte) :=
  ⟨by decide +kernel, by decide +kernel⟩

theorem covering_segment_advances_sample :
    advances (note_segment (checked drained_tcb second_byte) second_byte) second_byte ↔
      second_byte.seq = drained_tcb.rcv_nxt ∧
      drained_ring.head.toNat ≤ 2 * drained_ring.size.toNat :=
  covering_segment_advances drained_reachable rfl second_checked second_covers rfl
    drained_ring_found second_room

theorem recut_short : ([0x61, 0x62] : List UInt8).length < 2 ^ 16 := by decide

/-- The first two bytes in one segment, after the first was lost on its way back
    as an acknowledgement. -/
def recut_bytes : Segment := peer_segment 9001 5001 TH_ACK [0x61, 0x62] recut_short

theorem recut_checked :
    usnet_validate_seq ⟨quiet_ctx, drained_tcb⟩ recut_bytes
      = .ok (0, checked drained_tcb recut_bytes) := rfl

/-- The second byte is not taken, however often the segment comes. -/
theorem recut_segment_stalls :
    LifeReachable (some drained_tcb) ∧ drained_tcb.state = .established ∧
    usnet_validate_seq ⟨quiet_ctx, drained_tcb⟩ recut_bytes
      = .ok (0, checked drained_tcb recut_bytes) ∧
    covers_next drained_tcb recut_bytes ∧ quiet_ctx.frag_mp = true ∧
    receive_buffer ⟨quiet_ctx, drained_tcb⟩ = some drained_ring ∧
    RoomFor drained_ring (new_bytes drained_tcb recut_bytes) ∧
    ¬ advances (note_segment (checked drained_tcb recut_bytes) recut_bytes) recut_bytes := by
  have hcov : covers_next drained_tcb recut_bytes := by
    unfold covers_next
    decide
  have hroom : RoomFor drained_ring (new_bytes drained_tcb recut_bytes) :=
    ⟨by decide +kernel, by decide +kernel⟩
  refine ⟨drained_reachable, rfl, recut_checked, hcov, rfl, drained_ring_found, hroom, ?_⟩
  rintro ⟨r, s', hrun, hgeq⟩
  have hnxt : ((usnet_process_tcp_payload
      (note_segment (checked drained_tcb recut_bytes) recut_bytes) recut_bytes).toOption.map
        fun p => p.2.tcb.rcv_nxt) = some drained_tcb.rcv_nxt := rfl
  rw [hrun] at hnxt
  exact not_advanced hcov (Option.some.inj hnxt) hgeq

end Usnet
