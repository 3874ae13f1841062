import Usnet.Progress
import Usnet.Unread

/-! # The stream the application reads

    Segments reach the receive ring in any order and the application reads at any
    time.  `usnet_insert_fragment` copies a segment to the place its number calls
    for, counted from `head`, but moves `head` by the segment's length wherever
    the segment starts, and `usnet_read` hands out all that lies in front of
    `head`.
-/

namespace Usnet

open CInt Circular Run

/-! ## Section 1: Runs -/

/-- A connection, the bytes its reads have returned, and `rcv_nxt` as a place in
    the stream. -/
structure StreamRun where
  tcb : UsnTcb
  delivered : List UInt8
  front : Nat

inductive StreamCall where
  | payload (c : Ctx) (seg : Segment)
  | read (fd : UInt32) (count : Nat)
  | other

/-- The payload is a piece of the stream, from the place its number stands for.
    In a stream longer than `2^32` that is the one less than a whole round of
    numbers away from `rcv_nxt`. -/
def cut_from (B : List UInt8) (s : StreamRun) (seg : Segment) : Prop :=
  ∃ off, seg.seq = s.tcb.rcvvar.irs + 1 + u32 (off : Nat) ∧
    seg.payload = (B.drop off).take seg.payload.length ∧
    off < s.front + 2 ^ 32 ∧ s.front < off + 2 ^ 32

/-- What else happens leaves the receive side alone. -/
structure SameReceive (t t' : UsnTcb) : Prop where
  rcv_nxt : t'.rcv_nxt = t.rcv_nxt
  irs : t'.rcvvar.irs = t.rcvvar.irs
  rcv_wnd : t'.rcvvar.rcv_wnd = t.rcvvar.rcv_wnd
  rcvbuf : t'.rcvvar.rcvbuf = t.rcvvar.rcvbuf

/-- The bytes `usnet_read` returns, the first `ret` of those it copies. -/
def returned (rcvbuf : Option UsnRingbuf) (fd : UInt32) (count : Nat) : List UInt8 :=
  (usnet_read rcvbuf fd count).2.1.take (usnet_read rcvbuf fd count).1.toNat

/-- A segment cut from the stream `B`, a read with any room, or anything else. -/
inductive StreamRun.Step (B : List UInt8) : StreamRun → StreamCall → StreamRun → Prop
  | payload {s : StreamRun} {c : Ctx} {seg : Segment} {r : Int} {s' : Conn} :
      s.tcb.state = .established → 0 < seg.payload.length → cut_from B s seg →
      usnet_process_tcp_payload ⟨c, s.tcb⟩ seg = .ok (r, s') →
      Step B s (.payload c seg)
        { s with tcb := s'.tcb, front := s.front + ahead s.tcb.rcv_nxt s'.tcb.rcv_nxt }
  | read {s : StreamRun} {c : Ctx} {fd : UInt32} {count : Nat} :
      Step B s (.read fd count)
        { s with
          tcb := (app_read ⟨c, s.tcb⟩ fd count).tcb
          delivered := s.delivered ++ returned s.tcb.rcvvar.rcvbuf fd count }
  | other {s : StreamRun} {t : UsnTcb} : SameReceive s.tcb t →
      Step B s .other { s with tcb := t }

/-- An established connection on which nothing has been received. -/
structure StreamRun.Start (s : StreamRun) : Prop where
  reachable : LifeReachable (some s.tcb)
  established : s.tcb.state = .established
  empty : s.tcb.rcvvar.rcvbuf = none ∧ s.delivered = [] ∧ s.front = 0

/-- What was delivered is the beginning of the stream and does not go past
    `rcv_nxt`, where the ring's front is. -/
structure StreamRun.Intact (B : List UInt8) (s : StreamRun) : Prop where
  in_order : s.delivered <+: B
  behind : s.delivered.length ≤ s.front
  frontier : s.tcb.rcv_nxt = s.tcb.rcvvar.irs + 1 + u32 (s.front : Nat)
  ring : ∀ buf, s.tcb.rcvvar.rcvbuf = some buf → buf.head_seq = s.tcb.rcv_nxt

/-- What the ring takes of a segment starts at its front, is recorded as a
    fragment, and leaves one byte free. -/
def stored_in_order (s : StreamRun) : StreamCall → Prop
  | .payload c seg => payload_fits s.tcb seg →
      ∀ buf, receive_buffer ⟨c, s.tcb⟩ = some buf → InRange buf seg.payload seg.seq →
        seg.seq = buf.head_seq ∧ c.frag_mp = true ∧
        buf.unread + seg.payload.length < buf.size.toNat
  | _ => True

/-! ## Section 2: A segment in order -/

/-- The copy of a segment in order starts at `head`. -/
theorem copy_payload_in_order {buf copied : UsnRingbuf} {data : List UInt8}
    (hsize : buf.size.toNat ≤ 32767) (hhead : buf.head.toNat ≤ buf.size.toNat)
    (h : copy_payload buf data 0 = some copied) :
    copied.data_ptr = memcpy_wrap buf.data_ptr buf.size.toNat buf.head.toNat data := by
  have hstart : buf.start_off 0 = (buf.head.toNat : Int) := by
    have hoff := @ring_start_off_eq buf 0 (by omega) (by omega)
    rw [if_pos (by omega)] at hoff
    exact hoff
  have htail : sint (buf.size - u32 (buf.start_off 0))
      = ((buf.size.toNat - buf.head.toNat : Nat) : Int) := by
    have hlen := @ring_tail_len_eq buf 0 (by omega) (by omega)
    rw [if_pos (by omega)] at hlen
    rw [show buf.start_off 0 = buf.start_off ((0 : Nat) : Int) from rfl, hlen]
    omega
  unfold copy_payload at h
  simp only at h
  rw [htail, hstart] at h
  simp only [Int.toNat_natCast] at h
  by_cases hfits : data.length ≤ buf.size.toNat - buf.head.toNat
  · rw [if_pos (by omega)] at h
    obtain rfl := Option.some.inj h
    exact (memcpy_wrap_of_le (by omega)).symm
  · rw [if_neg (by omega), if_neg (by omega)] at h
    obtain rfl := Option.some.inj h
    rfl

/-- A segment in order extends what is unread by its bytes, and `head_seq` moves
    to its end. -/
theorem Holds.stored {buf buf' : UsnRingbuf} {n : Nat} {data : List UInt8} {seq : UInt32}
    (h : Holds buf n) (hsize : buf.size.toNat ≤ 32767) (hfrags : buf.frags = [])
    (hst : Stored buf data seq buf') (hseq : seq = buf.head_seq)
    (hfree : n + data.length < buf.size.toNat) :
    buf'.oldest (n + data.length) = buf.oldest n ++ data ∧
    buf'.head_seq = buf.head_seq + u32 data.length := by
  obtain ⟨hd, hh, hn⟩ := h
  obtain ⟨-, copied, frags, hcopy, hlink, rfl⟩ := hst
  have hframe := copy_payload_frame hcopy
  have hhead : buf.head.toNat ≤ buf.size.toNat := by
    rw [hh]
    exact advance_le hd (by omega)
  rw [hseq, UInt32.sub_self] at hcopy
  have hmem := copy_payload_in_order (by exact hsize) (by exact hhead) hcopy
  have hsame : copied.head_seq = buf.head_seq ∧ copied.size = buf.size
      ∧ copied.data = buf.data := by
    rw [hframe]
    exact ⟨rfl, rfl, rfl⟩
  obtain ⟨hfront, hcsize, hcdata⟩ := hsame
  rw [hfrags] at hlink
  obtain rfl := Option.some.inj hlink
  constructor
  · unfold UsnRingbuf.oldest
    simp only [set_win_frame, pop_front_data_ptr, pop_front_size, pop_front_data]
    rw [hmem, hcsize, hcdata, hh]
    exact window_memcpy_wrap _ hd (Nat.le_of_lt hfree)
  · have hlen : (u16 data.length).toUInt32 = u32 data.length := by
      apply UInt32.toNat_inj.mp
      rw [UInt16.toNat_toUInt32, toNat_u16, toNat_u32]
      omega
    simp only [set_win_frame]
    unfold pop_front
    simp only [hfront, hseq, if_true, hlen]

/-! ## Section 3: The events of a life -/

theorem SameReceive.of_core {t t' : UsnTcb} (c : Core) (hc : t'.core = c)
    (hnxt : c.rcv_nxt = t.rcv_nxt) (hirs : c.irs = t.rcvvar.irs)
    (hwnd : c.rcv_wnd = t.rcvvar.rcv_wnd) (hbuf : c.rcvbuf = t.rcvvar.rcvbuf) :
    SameReceive t t' := by
  obtain rfl := hc
  exact ⟨hnxt, hirs, hwnd, hbuf⟩

/-- Whatever happens to a connection but a segment or a read leaves its receive
    side alone. -/
theorem SameReceive.of_life {s s' : Conn} {ev : LifeEvent} (h : LifeInv s.tcb)
    (hok : life_conn s ev = .ok s') (hseg : ∀ seg, ev ≠ .segment seg)
    (hread : ∀ fd count, ev ≠ .read fd count) : SameReceive s.tcb s'.tcb := by
  cases life_conn_move h hok with
  | control hc => exact .of_core _ hc.core rfl rfl rfl rfl
  | closed hc => exact .of_core _ hc rfl rfl rfl rfl
  | resent _ hc => exact .of_core _ hc rfl rfl rfl rfl
  | joined _ hc hctl =>
    exact .of_core _ (joined_core hc hctl) rfl rfl rfl rfl
  | written _ _ hc => exact .of_core _ hc rfl rfl rfl rfl
  | flushed _ h₀ hfl h₁ =>
    obtain ⟨buf, p, -, hcore⟩ := flushed_core h₀ hfl h₁
    exact .of_core _ hcore rfl rfl rfl rfl
  | read => exact absurd rfl (hread _ _)
  | opened => exact absurd rfl (hseg _)
  | resynced => exact absurd rfl (hseg _)
  | handled => exact absurd rfl (hseg _)

/-! ## Section 4: The invariant -/

/-- The ring holds what lies between the last byte delivered and the front. -/
structure StreamRun.RingAt (B : List UInt8) (s : StreamRun) (buf : UsnRingbuf) : Prop where
  size : buf.size = RINGBUF_SIZE
  holds : Holds buf (s.front - s.delivered.length)
  frags : buf.frags = []
  head_seq : buf.head_seq = s.tcb.rcv_nxt
  bytes : buf.oldest (s.front - s.delivered.length)
    = (B.drop s.delivered.length).take (s.front - s.delivered.length)

structure StreamRun.Inv (B : List UInt8) (s : StreamRun) : Prop where
  in_order : s.delivered = B.take s.delivered.length
  behind : s.delivered.length ≤ s.front
  in_stream : s.front ≤ B.length
  frontier : s.tcb.rcv_nxt = s.tcb.rcvvar.irs + 1 + u32 (s.front : Nat)
  without : s.tcb.rcvvar.rcvbuf = none → s.front = 0
  ring : ∀ buf, s.tcb.rcvvar.rcvbuf = some buf → s.RingAt B buf

/-- Before anything has been received. -/
theorem StreamRun.Inv.empty {B : List UInt8} {s : StreamRun}
    (hnxt : s.tcb.rcv_nxt = s.tcb.rcvvar.irs + 1)
    (hempty : s.tcb.rcvvar.rcvbuf = none ∧ s.delivered = [] ∧ s.front = 0) : s.Inv B := by
  obtain ⟨hbuf, hdel, hfront⟩ := hempty
  refine ⟨?_, ?_, ?_, ?_, ?_, ?_⟩
  · rw [hdel]
    rfl
  · rw [hdel]
    exact Nat.zero_le _
  · rw [hfront]
    exact Nat.zero_le _
  · rw [hfront, hnxt]
    show _ = _ + 1 + 0
    rw [UInt32.add_zero]
  · intro
    exact hfront
  · intro buf hb
    rw [hbuf] at hb
    cases hb

theorem StreamRun.Inv.start {B : List UInt8} {s : StreamRun} (h : s.Start) : s.Inv B :=
  .empty ((rcvInv_of_life h.reachable).without (.inr h.established) h.empty.1) h.empty

/-- The ring a segment meets, found or fresh. -/
theorem StreamRun.Inv.receive_buffer {B : List UInt8} {s : StreamRun} {c : Ctx}
    {buf : UsnRingbuf} (h : s.Inv B) (hbuf : receive_buffer ⟨c, s.tcb⟩ = some buf) :
    s.RingAt B buf := by
  unfold Usnet.receive_buffer at hbuf
  cases hrb : s.tcb.rcvvar.rcvbuf with
  | some buf₀ =>
    simp only [hrb] at hbuf
    obtain rfl := Option.some.inj hbuf
    exact h.ring _ hrb
  | none =>
    simp only [hrb, usnet_get_ringbuf, Option.map_eq_some_iff] at hbuf
    obtain ⟨mem, -, rfl⟩ := hbuf
    have hfront := h.without hrb
    have hnxt := h.frontier
    have hzero : s.front - s.delivered.length = 0 := by omega
    rw [hfront] at hnxt
    refine ⟨rfl, ?_, rfl, ?_, ?_⟩
    · rw [hzero]
      have hpos : 0 < RINGBUF_SIZE.toNat := by decide
      exact ⟨Nat.zero_le _, rfl, hpos⟩
    · rw [hnxt]
      exact (UInt32.add_zero _).symm
    · rw [hzero]
      rfl

/-- The place of a segment in order is the front. -/
theorem cut_from.in_order {B : List UInt8} {s : StreamRun} {seg : Segment}
    (h : cut_from B s seg) (hinv : s.Inv B) (hseq : seg.seq = s.tcb.rcv_nxt) :
    seg.payload = (B.drop s.front).take seg.payload.length ∧
      s.front + seg.payload.length ≤ B.length := by
  obtain ⟨off, hoff, hpay, hlt, hgt⟩ := h
  have hsame : u32 (off : Nat) = u32 (s.front : Nat) := by
    have heq := hoff.symm.trans (hseq.trans hinv.frontier)
    exact (UInt32.add_right_inj _).mp heq
  have hmod := congrArg UInt32.toNat hsame
  simp only [toNat_u32] at hmod
  obtain rfl : off = s.front := by omega
  have hlen := congrArg List.length hpay
  rw [List.length_take, List.length_drop] at hlen
  have hle := hinv.in_stream
  exact ⟨hpay, by omega⟩

/-- Everything but the receive side may change. -/
theorem StreamRun.Inv.congr {B : List UInt8} {s : StreamRun} {t : UsnTcb} (h : s.Inv B)
    (hnxt : t.rcv_nxt = s.tcb.rcv_nxt) (hirs : t.rcvvar.irs = s.tcb.rcvvar.irs)
    (hbuf : t.rcvvar.rcvbuf = s.tcb.rcvvar.rcvbuf) : StreamRun.Inv B { s with tcb := t } := by
  refine ⟨h.in_order, h.behind, h.in_stream, ?_, ?_, ?_⟩
  · simp only [hnxt, hirs]
    exact h.frontier
  · simp only [hbuf]
    exact h.without
  · simp only [hbuf]
    intro buf hb
    obtain ⟨hsize, hholds, hfrags, hseq, hbytes⟩ := h.ring buf hb
    exact ⟨hsize, hholds, hfrags, hseq.trans hnxt.symm, hbytes⟩

/-! ## Section 5: Steps -/

theorem ring_small {buf : UsnRingbuf} (h : buf.size = RINGBUF_SIZE) :
    buf.size.toNat ≤ 32767 := by
  rw [h]
  decide

/-- A segment in order extends the ring and moves the front to its end. -/
theorem StreamRun.Inv.stored {B : List UInt8} {s : StreamRun} {seg : Segment} {t : UsnTcb}
    {buf buf' : UsnRingbuf} (h : s.Inv B) (hring : s.RingAt B buf) (hcut : cut_from B s seg)
    (hins : usnet_insert_fragment true buf seg.payload seg.seq
      = some ((seg.payload.length : Int), buf'))
    (hst : Stored buf seg.payload seg.seq buf') (hseq : seg.seq = buf.head_seq)
    (hfree : buf.unread + seg.payload.length < buf.size.toNat)
    (hirs : t.rcvvar.irs = s.tcb.rcvvar.irs) (hnxt : t.rcv_nxt = buf'.head_seq)
    (hbuf : t.rcvvar.rcvbuf = some buf') :
    StreamRun.Inv B
      { s with tcb := t, front := s.front + ahead s.tcb.rcv_nxt t.rcv_nxt } := by
  obtain ⟨hsize, hholds, hfrags, hhead, hbytes⟩ := hring
  obtain ⟨hpay, hin⟩ := hcut.in_order h (hseq.trans hhead)
  have hsmall := ring_small hsize
  rw [hholds.unread_eq] at hfree
  have hkept := usnet_insert_fragment_kept hins
  rw [hseq] at hins
  obtain ⟨hnew, hnone, -⟩ := hholds.insert hsmall hfrags hins (by omega) hfree
  obtain ⟨hold, hhead'⟩ := hholds.stored hsmall hfrags hst hseq hfree
  -- the front moves by the length of the segment
  have hmoved : ahead s.tcb.rcv_nxt t.rcv_nxt = seg.payload.length := by
    rw [hnxt, hhead', hhead, ahead_add, toNat_u32_of_lt (by omega)]
  have hbehind := h.behind
  have hsum : s.front + seg.payload.length - s.delivered.length
      = s.front - s.delivered.length + seg.payload.length := by omega
  rw [hmoved]
  refine ⟨h.in_order, by simp only; omega, hin, ?_, ?_, ?_⟩
  · simp only
    rw [hirs, hnxt, hhead', hhead, h.frontier, UInt32.add_assoc _ (u32 _), ← u32_add,
      Nat.cast_add]
  · simp only [hbuf]
    intro hb
    cases hb
  · simp only [hbuf]
    rintro _ ⟨⟩
    refine ⟨hkept.1.trans hsize, ?_, hnone, hnxt.symm, ?_⟩
    · simp only [hsum]
      exact hnew
    · simp only [hsum]
      rw [hold, hbytes, List.take_add, List.drop_drop, Nat.add_sub_cancel' hbehind, ← hpay]

/-- A read delivers the next bytes of the stream and leaves the rest. -/
theorem StreamRun.Inv.read {B : List UInt8} {s : StreamRun} {c : Ctx} {fd : UInt32}
    {count : Nat} (h : s.Inv B) :
    StreamRun.Inv B
      { s with
        tcb := (app_read ⟨c, s.tcb⟩ fd count).tcb
        delivered := s.delivered ++ returned s.tcb.rcvvar.rcvbuf fd count } := by
  -- without a ring of that descriptor nothing happens
  have hnothing : usnet_read s.tcb.rcvvar.rcvbuf fd count = (-1, [], s.tcb.rcvvar.rcvbuf) →
      StreamRun.Inv B
        { s with
          tcb := (app_read ⟨c, s.tcb⟩ fd count).tcb
          delivered := s.delivered ++ returned s.tcb.rcvvar.rcvbuf fd count } := by
    intro hread
    have hret : returned s.tcb.rcvvar.rcvbuf fd count = [] := by
      unfold returned
      rw [hread]
      rfl
    rw [hret, List.append_nil]
    exact h.congr rfl rfl (by show (usnet_read _ _ _).2.2 = _; rw [hread])
  cases hrb : s.tcb.rcvvar.rcvbuf with
  | none =>
    rw [hrb] at hnothing
    exact hnothing rfl
  | some buf =>
    rw [hrb] at hnothing
    by_cases hfd : buf.fd = fd
    · obtain rfl := hfd
      obtain ⟨hsize, hholds, hfrags, hhead, hbytes⟩ := h.ring _ hrb
      obtain ⟨hret, htaken, hdata⟩ := hholds.read (ring_small hsize) count
      have hframe := read_ringbuf_frame buf count
      obtain ⟨hnew, hrest⟩ := hholds.after_read (by omega) hframe hdata
      have hbehind := h.behind
      have hstream := h.in_stream
      -- what the application gets are the oldest bytes of the ring
      have hgot : returned (some buf) buf.fd count = (B.drop s.delivered.length).take
          (min count (s.front - s.delivered.length)) := by
        have hold : (buf.oldest (s.front - s.delivered.length)).take
            (min count (s.front - s.delivered.length))
            = buf.oldest (min count (s.front - s.delivered.length)) :=
          window_take (by omega)
        unfold returned
        rw [usnet_read_own]
        simp only
        rw [hret, htaken, ← hold, hbytes, List.take_take, Nat.min_assoc, Nat.min_self]
      have hlen : (returned (some buf) buf.fd count).length
          = min count (s.front - s.delivered.length) := by
        rw [hgot, List.length_take, List.length_drop]
        omega
      refine ⟨?_, ?_, hstream, h.frontier, ?_, ?_⟩
      · simp only [List.length_append]
        rw [List.take_add, ← h.in_order, hlen, hgot]
      · simp only [List.length_append]
        omega
      · intro hb
        have hsome : (usnet_read s.tcb.rcvvar.rcvbuf buf.fd count).2.2 = none := hb
        have hnone := usnet_read_none hsome
        rw [hrb] at hnone
        cases hnone
      · intro buf' hb
        have hsome : (usnet_read s.tcb.rcvvar.rcvbuf buf.fd count).2.2 = some buf' := hb
        rw [hrb, usnet_read_own] at hsome
        obtain rfl := Option.some.inj hsome
        have hleft : s.front - (s.delivered ++ returned (some buf) buf.fd count).length
            = s.front - s.delivered.length - min count (s.front - s.delivered.length) := by
          rw [List.length_append, hlen]
          omega
        refine ⟨?_, ?_, ?_, ?_, ?_⟩
        · rw [hframe]
          exact hsize
        · simp only [hleft]
          exact hnew
        · rw [hframe]
          exact hfrags
        · rw [hframe]
          exact hhead
        · simp only [hleft]
          rw [hrest, hbytes, List.drop_take, List.drop_drop, List.length_append, hlen]
    · apply hnothing
      unfold usnet_read
      simp only
      rw [if_pos hfd]

/-- A segment that is not stored moves nothing, though a ring may have been made
    for it. -/
theorem StreamRun.Inv.refused {B : List UInt8} {s : StreamRun} {t : UsnTcb}
    {buf : UsnRingbuf} (h : s.Inv B) (hring : s.RingAt B buf)
    (hirs : t.rcvvar.irs = s.tcb.rcvvar.irs) (hnxt : t.rcv_nxt = buf.head_seq)
    (hbuf : t.rcvvar.rcvbuf = some buf) :
    StreamRun.Inv B
      { s with tcb := t, front := s.front + ahead s.tcb.rcv_nxt t.rcv_nxt } := by
  obtain ⟨hsize, hholds, hfrags, hhead, hbytes⟩ := hring
  have hsame : t.rcv_nxt = s.tcb.rcv_nxt := hnxt.trans hhead
  have hmoved : s.front + ahead s.tcb.rcv_nxt t.rcv_nxt = s.front := by
    rw [hsame, ahead_self, Nat.add_zero]
  rw [hmoved]
  refine ⟨h.in_order, h.behind, h.in_stream, ?_, ?_, ?_⟩
  · simp only
    rw [hsame, hirs]
    exact h.frontier
  · simp only [hbuf]
    intro hb
    cases hb
  · simp only [hbuf]
    rintro _ ⟨⟩
    exact ⟨hsize, hholds, hfrags, hhead.trans hsame.symm, hbytes⟩

/-- Whatever the ring does with a segment that may only be stored in order. -/
theorem StreamRun.Inv.inserted {B : List UInt8} {s : StreamRun} {c : Ctx} {seg : Segment}
    {t : UsnTcb} {buf buf' : UsnRingbuf} {r : Int} (h : s.Inv B)
    (hbuf : Usnet.receive_buffer ⟨c, s.tcb⟩ = some buf)
    (hins : usnet_insert_fragment c.frag_mp buf seg.payload seg.seq = some (r, buf'))
    (hcut : cut_from B s seg)
    (hc : InRange buf seg.payload seg.seq → seg.seq = buf.head_seq ∧ c.frag_mp = true ∧
      buf.unread + seg.payload.length < buf.size.toNat)
    (hirs : t.rcvvar.irs = s.tcb.rcvvar.irs) (hnxt : t.rcv_nxt = buf'.head_seq)
    (hrb : t.rcvvar.rcvbuf = some buf') :
    StreamRun.Inv B
      { s with tcb := t, front := s.front + ahead s.tcb.rcv_nxt t.rcv_nxt } := by
  have hring := h.receive_buffer hbuf
  rcases usnet_insert_fragment_cases hins with
    ⟨-, -, rfl, -⟩ | ⟨-, hchunk, hrange, -⟩ | ⟨rfl, hchunk, hstored⟩
  · exact h.refused hring hirs hnxt hrb
  -- without a fragment nothing was to be stored
  · have htrue := (hc hrange).2.1
    rw [hchunk] at htrue
    cases htrue
  · obtain ⟨hseq, -, hfree⟩ := hc hstored.in_range
    rw [hchunk] at hins
    exact h.stored hring hcut hins hstored hseq hfree hirs hnxt hrb

theorem StreamRun.Inv.step {B : List UInt8} {s s' : StreamRun} {a : StreamCall}
    (h : s.Inv B) (hc : stored_in_order s a) (hs : StreamRun.Step B s a s') : s'.Inv B := by
  cases hs with
  | @payload c seg r n hst hpos hcut hrun =>
    have hsame : n.tcb.rcv_nxt = s.tcb.rcv_nxt → n.tcb.rcvvar.irs = s.tcb.rcvvar.irs →
        n.tcb.rcvvar.rcvbuf = s.tcb.rcvvar.rcvbuf → StreamRun.Inv B
          { s with tcb := n.tcb, front := s.front + ahead s.tcb.rcv_nxt n.tcb.rcv_nxt } := by
      intro hnxt hirs hbuf
      rw [hnxt, ahead_self, Nat.add_zero]
      exact h.congr hnxt hirs hbuf
    cases usnet_process_tcp_payload_done hrun with
    | outside _ _ hq => exact hsame (by simp [hq]) (by simp [hq]) (by simp [hq])
    | no_mem _ _ _ _ _ hnxt hrcv =>
      rw [hrcv] at hsame
      exact hsame hnxt rfl rfl
    | inserted buf buf' r₀ hfits hbuf hins hkept _ hnxt hrb =>
      have hirs : n.tcb.rcvvar.irs = s.tcb.rcvvar.irs := by simp [hkept]
      exact h.inserted hbuf hins hcut (hc hfits buf hbuf) hirs hnxt hrb
  | read => exact h.read
  | other hsame => exact h.congr hsame.rcv_nxt hsame.irs hsame.rcvbuf

/-- For every stream and every run of segments cut from it, reads and whatever
    else happens, in which what the ring takes is in order, gets a fragment and
    leaves a byte free: what was delivered is the beginning of the stream, up to
    `rcv_nxt` at most. -/
theorem delivered_intact {B : List UInt8} {s : StreamRun}
    (h : RunWhere (StreamRun.Step B) stored_in_order StreamRun.Start s) : s.Intact B := by
  have hinv : s.Inv B :=
    h.invariant (fun _ hs => .start hs) (fun _ _ _ hi hc hs => hi.step hc hs)
  obtain ⟨hdel, hbehind, -, hfrontier, -, hring⟩ := hinv
  refine ⟨?_, hbehind, hfrontier, ?_⟩
  · rw [hdel]
    exact List.take_prefix _ _
  · intro buf hb
    exact (hring buf hb).head_seq

/-- The connection of the handshake, on which nothing has been received. -/
def opened_stream : StreamRun := ⟨opened_tcb, [], 0⟩

theorem opened_stream_start : opened_stream.Start :=
  ⟨opened_tcb_reachable, rfl, rfl, rfl, rfl⟩

/-- The calls from a state, for a context with everything in supply. -/
def StreamRun.take (s : StreamRun) (seg : Segment) : StreamRun :=
  match usnet_process_tcp_payload ⟨quiet_ctx, s.tcb⟩ seg with
  | .ok (_, n) => { s with tcb := n.tcb, front := s.front + ahead s.tcb.rcv_nxt n.tcb.rcv_nxt }
  | .error _ => s

def StreamRun.give (s : StreamRun) (fd : UInt32) (count : Nat) : StreamRun :=
  { s with
    tcb := (app_read ⟨quiet_ctx, s.tcb⟩ fd count).tcb
    delivered := s.delivered ++ returned s.tcb.rcvvar.rcvbuf fd count }

/-- What the payload does, for a segment that is processed. -/
theorem StreamRun.take_step {B : List UInt8} {s : StreamRun} {seg : Segment}
    (hst : s.tcb.state = .established) (hpos : 0 < seg.payload.length)
    (hcut : cut_from B s seg)
    (hok : (usnet_process_tcp_payload ⟨quiet_ctx, s.tcb⟩ seg).toBool = true) :
    StreamRun.Step B s (.payload quiet_ctx seg) (s.take seg) := by
  unfold StreamRun.take
  cases hrun : usnet_process_tcp_payload ⟨quiet_ctx, s.tcb⟩ seg with
  | error e =>
    rw [hrun] at hok
    cases hok
  | ok p => exact .payload hst hpos hcut hrun

/-- The first of two bytes comes and is read. -/
def first_taken : StreamRun := opened_stream.take first_byte
def first_read : StreamRun := first_taken.give 5 10

theorem first_taken_step :
    StreamRun.Step [0x61, 0x62] opened_stream (.payload quiet_ctx first_byte) first_taken :=
  StreamRun.take_step rfl (by decide) ⟨0, rfl, rfl, by decide, by decide⟩ rfl

theorem first_in_order : stored_in_order opened_stream (.payload quiet_ctx first_byte) := by
  intro _ buf hbuf _
  obtain rfl := Option.some.inj hbuf
  exact ⟨rfl, rfl, by decide⟩

theorem delivered_intact_sample :
    first_read.delivered = [0x61] ∧ first_read.Intact [0x61, 0x62] := by
  have hread : stored_in_order first_taken (.read 5 10) := trivial
  refine ⟨rfl, ?_⟩
  exact delivered_intact
    (.step (.step (.init opened_stream_start) first_in_order first_taken_step) hread
      (@StreamRun.Step.read _ _ quiet_ctx 5 10))

/-- The second byte comes first, and a read follows. -/
def second_taken : StreamRun := opened_stream.take second_byte
def stale_read : StreamRun := second_taken.give 5 10

theorem second_taken_step :
    StreamRun.Step [0x61, 0x62] opened_stream (.payload quiet_ctx second_byte) second_taken :=
  StreamRun.take_step rfl (by decide) ⟨1, rfl, rfl, by decide, by decide⟩ rfl

/-- A byte the peer never sent is delivered, in front of the first. -/
theorem reordered_byte_corrupts :
    Reachable (StreamRun.Step [0x61, 0x62]) StreamRun.Start stale_read ∧
    in_window opened_tcb second_byte ∧
    stale_read.delivered = [0] ∧ stale_read.front = 0 ∧ ¬ stale_read.Intact [0x61, 0x62] := by
  refine ⟨?_, by unfold in_window; decide, rfl, rfl, ?_⟩
  · exact .step (.step (.init opened_stream_start) trivial second_taken_step) trivial
      (@StreamRun.Step.read _ _ quiet_ctx 5 10)
  · intro h
    have hbehind : 1 ≤ 0 := h.behind
    omega

end Usnet
