import Usnet.Sndbuf
import Usnet.Lib.Run

/-! # The send ring as a byte queue

    The ring is compared with the queue it stands for: the bytes accepted and
    not yet removed.  Two things separate the code from that queue.  A write
    that wraps copies the first bytes of its data a second time instead of the
    remaining ones, and a removal of all bytes while `tail` rests at the end
    of the block leaves `head = 0` and `tail = size`, which reads as full.
-/

namespace Usnet

open CInt Circular Run

/-! ## Section 1: Runs of writes and removals -/

/-- The buffer together with the bytes it should hold and the number removed. -/
structure SendQueue where
  buf : UsnSendbuf
  held : List UInt8
  removed : Nat

/-- The two calls. -/
inductive SendOp where
  | write (data : List UInt8)
  | remove (len : Nat)

/-- One call with an argument its callers may pass. -/
inductive SendStep : SendQueue → SendOp → SendQueue → Prop
  | write {s : SendQueue} {data : List UInt8} {r : Int} {buf' : UsnSendbuf} :
      0 < data.length → data.length ≤ INT_MAX →
      usnet_write_data s.buf data = some (r, buf') →
      SendStep s (.write data) ⟨buf', if r < 0 then s.held else s.held ++ data, s.removed⟩
  | remove {s : SendQueue} {len : Nat} {r : Int} {buf' : UsnSendbuf} :
      0 < len → len ≤ s.held.length → usnet_remove_data s.buf len = (r, buf') →
      SendStep s (.remove len) ⟨buf', s.held.drop len, s.removed + len⟩

/-- A buffer just obtained, of a given size. -/
def SendQueue.Fresh (size : UInt32) (s : SendQueue) : Prop :=
  ∃ slot fd init_seq, usnet_get_sendbuf (some slot) size fd init_seq = some s.buf ∧
    s.held = [] ∧ s.removed = 0

/-- What it means that the buffer is a bounded first-in-first-out byte queue. -/
structure SendQueue.IsFifo (s : SendQueue) : Prop where
  contents :
    window s.buf.data_ptr s.buf.size.toNat s.buf.head.toNat s.held.length = s.held
  head_seq : s.buf.head_seq = s.buf.init_seq + u32 s.removed
  count : usnet_get_sendbuf_len s.buf = s.held.length
  accepts : ∀ data : List UInt8, 0 < data.length → data.length ≤ INT_MAX →
    ∃ r buf', usnet_write_data s.buf data = some (r, buf') ∧
      (0 ≤ r ↔ data.length < s.buf.size.toNat - s.held.length)

/-- The steps that keep the ring a queue: an accepted write ends inside the
    block or repeats the same bytes behind its end, and no removal takes all
    bytes while `tail` rests at the end of the block. -/
def KeepsQueue (s : SendQueue) : SendOp → Prop
  | .write data =>
    s.held.length + data.length < s.buf.size.toNat →
    s.buf.size.toNat < s.buf.tail.toNat + data.length →
      data.take (s.buf.tail.toNat + data.length - s.buf.size.toNat)
        = data.drop (s.buf.size.toNat - s.buf.tail.toNat)
  | .remove len => ¬ (len = s.held.length ∧ s.buf.tail = s.buf.size)

instance : ∀ s op, Decidable (KeepsQueue s op)
  | s, .write data => inferInstanceAs (Decidable
      (s.held.length + data.length < s.buf.size.toNat →
        s.buf.size.toNat < s.buf.tail.toNat + data.length →
        data.take (s.buf.tail.toNat + data.length - s.buf.size.toNat)
          = data.drop (s.buf.size.toNat - s.buf.tail.toNat)))
  | s, .remove len => inferInstanceAs (Decidable
      (¬ (len = s.held.length ∧ s.buf.tail = s.buf.size)))

/-! ## Section 2: The invariant -/

/-- The indices, the contents and the sequence number agree with the queue. -/
structure SendQueue.Inv (s : SendQueue) : Prop where
  wf : IndexWf s.buf
  bytes : s.buf.bytes = s.held.length
  room : s.held.length < s.buf.size.toNat
  contents :
    window s.buf.data_ptr s.buf.size.toNat s.buf.head.toNat s.held.length = s.held
  head_seq : s.buf.head_seq = s.buf.init_seq + u32 s.removed

/-- The held bytes end at `tail`, once round the block or not. -/
theorem SendQueue.Inv.tail_eq {s : SendQueue} (h : s.Inv) :
    s.buf.head.toNat + s.held.length = s.buf.tail.toNat ∨
    s.buf.head.toNat + s.held.length = s.buf.tail.toNat + s.buf.size.toNat ∧
      s.buf.tail.toNat < s.buf.head.toNat := by
  have hb := h.bytes
  have := h.wf.head_lt
  unfold UsnSendbuf.bytes at hb
  split at hb <;> omega

theorem SendQueue.Inv.fresh {size : UInt32} {s : SendQueue} (hpos : 0 < size.toNat)
    (hmax : size.toNat ≤ INT_MAX) (h : s.Fresh size) : s.Inv := by
  obtain ⟨slot, fd, init_seq, hbuf, hheld, hrem⟩ := h
  have hbuf' := Option.some.inj hbuf
  obtain ⟨buf, held, removed⟩ := s
  simp only at hheld hrem hbuf'
  subst hheld hrem hbuf'
  refine ⟨⟨hmax, hpos, Nat.zero_le _⟩, rfl, hpos, rfl, ?_⟩
  show init_seq = init_seq + u32 0
  simp

/-- A write inside the block puts the bytes behind the held ones. -/
theorem SendQueue.Inv.contents_straight {s : SendQueue} {data : List UInt8} (h : s.Inv)
    (hroom : s.held.length + data.length < s.buf.size.toNat)
    (hend : s.buf.tail.toNat + data.length ≤ s.buf.size.toNat) :
    window (memcpy s.buf.data_ptr s.buf.tail.toNat data) s.buf.size.toNat
      s.buf.head.toNat (s.held.length + data.length) = s.held ++ data := by
  have hh := h.wf.head_lt
  have htail := h.tail_eq
  rw [window_memcpy_append, h.contents]
  · intro i hi
    rw [mod_wrap (by omega)]
    split <;> omega
  · intro i hi
    rw [mod_wrap (by omega)]
    split <;> omega

/-- A write across the end of the block puts the first bytes there twice. -/
theorem SendQueue.Inv.contents_wrapped {s : SendQueue} {data : List UInt8} (h : s.Inv)
    (hroom : s.held.length + data.length < s.buf.size.toNat)
    (hend : s.buf.size.toNat < s.buf.tail.toNat + data.length) :
    window
      (memcpy
        (memcpy s.buf.data_ptr s.buf.tail.toNat
          (data.take (s.buf.size.toNat - s.buf.tail.toNat)))
        0 (data.take (s.buf.tail.toNat + data.length - s.buf.size.toNat)))
      s.buf.size.toNat s.buf.head.toNat (s.held.length + data.length)
      = s.held ++ data.take (s.buf.size.toNat - s.buf.tail.toNat) ++
          data.take (s.buf.tail.toNat + data.length - s.buf.size.toNat) := by
  have hh := h.wf.head_lt
  have ht := h.wf.tail_le
  have htail := h.tail_eq
  generalize hk : s.buf.size.toNat - s.buf.tail.toNat = k
  generalize hm : s.buf.tail.toNat + data.length - s.buf.size.toNat = m
  have hfirst : (data.take k).length = k := by
    rw [List.length_take]; omega
  have hsecond : (data.take m).length = m := by
    rw [List.length_take]; omega
  have hsum : s.held.length + data.length
      = s.held.length + (data.take k).length + (data.take m).length := by omega
  rw [hsum, window_memcpy_append, window_memcpy_append, h.contents]
  -- the first copy fills the block up to its end, the second starts at zero
  · intro i hi
    rw [mod_wrap (by omega)]
    split <;> omega
  · intro i hi
    rw [mod_wrap (by omega)]
    split <;> omega
  · intro i hi
    rw [mod_wrap (by omega)]
    split <;> omega
  · intro i hi
    rw [mod_wrap (by omega)]
    split <;> omega

/-- Bytes put at the tail in the right cells extend the queue. -/
theorem SendQueue.Inv.put {s : SendQueue} {data : List UInt8} {mem : Nat → UInt8}
    {tail : UInt32} (h : s.Inv) (hroom : s.held.length + data.length < s.buf.size.toNat)
    (htail : tail.toNat = if s.buf.tail.toNat + data.length ≤ s.buf.size.toNat
      then s.buf.tail.toNat + data.length
      else s.buf.tail.toNat + data.length - s.buf.size.toNat)
    (hmem : window mem s.buf.size.toNat s.buf.head.toNat (s.held.length + data.length)
      = s.held ++ data) :
    SendQueue.Inv ⟨s.buf.put mem tail, s.held ++ data, s.removed⟩ := by
  have hb := h.bytes
  obtain ⟨hwf, hmoved⟩ := put_tailMoved mem h.wf (by omega) htail
  have hlen : (s.held ++ data).length = s.held.length + data.length := List.length_append
  refine ⟨hwf, ?_, ?_, ?_, h.head_seq⟩
  · rw [hmoved.bytes, hlen, hb]
  · rwa [hlen]
  · rwa [hlen]

/-- An accepted or refused write keeps the invariant. -/
theorem SendQueue.Inv.write {s : SendQueue} {data : List UInt8} {r : Int}
    {buf' : UsnSendbuf} (h : s.Inv) (hkeep : KeepsQueue s (.write data))
    (hcall : usnet_write_data s.buf data = some (r, buf')) :
    SendQueue.Inv ⟨buf', if r < 0 then s.held else s.held ++ data, s.removed⟩ := by
  have hb := h.bytes
  have hs := h.wf.size_le
  have ht := h.wf.tail_le
  unfold INT_MAX at hs
  by_cases hroom : s.buf.bytes + data.length < s.buf.size.toNat
  · have hroom' : s.held.length + data.length < s.buf.size.toNat := by omega
    by_cases hend : s.buf.tail.toNat + data.length ≤ s.buf.size.toNat
    · rw [usnet_write_data_straight h.wf hroom hend] at hcall
      obtain ⟨rfl, rfl⟩ := hcall
      rw [if_neg (by omega)]
      refine h.put hroom' ?_ (h.contents_straight hroom' hend)
      rw [if_pos hend, toNat_add, toNat_u32_of_lt (by omega)]
      omega
    · rw [usnet_write_data_wrapped h.wf hroom (by omega)] at hcall
      obtain ⟨rfl, rfl⟩ := hcall
      rw [if_neg (by omega)]
      refine h.put hroom' ?_ ?_
      · rw [if_neg hend, toNat_u32_of_lt (by omega)]
      · rw [h.contents_wrapped hroom' (by omega), hkeep hroom' (by omega),
          List.append_assoc, List.take_append_drop]
  · rw [usnet_write_data_refused h.wf (by omega)] at hcall
    obtain ⟨rfl, rfl⟩ := hcall
    exact h

/-- A removal that does not empty a ring whose `tail` rests at the end. -/
theorem SendQueue.Inv.remove {s : SendQueue} {len : Nat} {r : Int} {buf' : UsnSendbuf}
    (h : s.Inv) (hkeep : KeepsQueue s (.remove len)) (hle : len ≤ s.held.length)
    (hcall : usnet_remove_data s.buf len = (r, buf')) :
    SendQueue.Inv ⟨buf', s.held.drop len, s.removed + len⟩ := by
  have hb := h.bytes
  obtain ⟨head, hremove, hhead⟩ := usnet_remove_data_held h.wf (hb ▸ hle)
  rw [hremove] at hcall
  obtain ⟨rfl, rfl⟩ := hcall
  have htail := h.tail_eq
  have hroom := h.room
  obtain ⟨hs, hh, ht⟩ := h.wf
  -- the removal puts `head` back to the start, which `tail` at the end does not follow
  have hne : len = s.held.length → s.buf.tail.toNat ≠ s.buf.size.toNat := by
    intro hall heq
    exact hkeep ⟨hall, UInt32.toNat_inj.mp heq⟩
  have hdrop : (s.held.drop len).length = s.held.length - len := List.length_drop
  refine ⟨⟨hs, ?_, ht⟩, ?_, ?_, ?_, ?_⟩
  · show head.toNat < s.buf.size.toNat
    rw [hhead]
    split <;> omega
  · show (if head.toNat ≤ s.buf.tail.toNat then s.buf.tail.toNat - head.toNat
      else s.buf.size.toNat + s.buf.tail.toNat - head.toNat) = (s.held.drop len).length
    rw [hdrop]
    split at hhead <;> split <;> omega
  · show (s.held.drop len).length < s.buf.size.toNat
    omega
  · -- the window from the new head is the old window without its first bytes
    show window s.buf.data_ptr s.buf.size.toNat head.toNat (s.held.drop len).length
      = s.held.drop len
    have hmove : window s.buf.data_ptr s.buf.size.toNat head.toNat (s.held.length - len)
        = window s.buf.data_ptr s.buf.size.toNat (s.buf.head.toNat + len)
            (s.held.length - len) := by
      split at hhead
      · rw [hhead]
      · rw [← window_add_size, hhead, Nat.sub_add_cancel (by omega)]
    rw [hdrop, hmove, ← window_drop hle, h.contents]
  · show s.buf.head_seq + u32 len = s.buf.init_seq + u32 ((s.removed + len : Nat) : Int)
    rw [h.head_seq, u32_natCast_add, UInt32.add_assoc]

/-- One step that keeps the queue keeps the invariant. -/
theorem SendQueue.Inv.step {s s' : SendQueue} {op : SendOp} (h : s.Inv)
    (hkeep : KeepsQueue s op) (hstep : SendStep s op s') : s'.Inv := by
  cases hstep with
  | write _ _ hcall => exact h.write hkeep hcall
  | remove _ hle hcall => exact h.remove hkeep hle hcall

/-- The invariant says that the ring is the queue. -/
theorem SendQueue.Inv.isFifo {s : SendQueue} (h : s.Inv) : s.IsFifo := by
  refine ⟨h.contents, h.head_seq, ?_, ?_⟩
  · rw [usnet_get_sendbuf_len_eq h.wf, h.bytes]
  · intro data hpos hmax
    have hb := h.bytes
    rcases usnet_write_data_cases data h.wf with
      ⟨hfull, hcall⟩ | ⟨hroom, buf', hcall, -, -⟩
    · exact ⟨_, _, hcall, by omega⟩
    · exact ⟨_, _, hcall, by omega⟩

/-! ## Section 3: Where the ring stops being a queue -/

/-- A ring larger than the largest `int` refuses the first byte. -/
theorem fresh_not_isFifo {size : UInt32} {s : SendQueue} (hmax : INT_MAX < size.toNat)
    (h : s.Fresh size) : ¬ s.IsFifo := by
  obtain ⟨slot, fd, init_seq, hbuf, hheld, -⟩ := h
  have hbuf' := Option.some.inj hbuf
  intro hfifo
  obtain ⟨r, buf', hcall, hiff⟩ := hfifo.accepts [0] (by decide) (by decide)
  have havail : sint size ≤ 1 := by
    unfold INT_MAX at hmax
    have := size.toNat_lt
    rw [sint_of_ge (by omega)]
    omega
  have hrefused : usnet_write_data s.buf [0] = some (-1, s.buf) := by
    rw [← hbuf']
    unfold usnet_write_data
    rw [if_pos]
    simpa using havail
  rw [hrefused] at hcall
  obtain ⟨rfl, rfl⟩ := hcall
  have hsize : s.buf.size = size := by rw [← hbuf']
  rw [hheld, hsize] at hiff
  have hroom : [(0 : UInt8)].length < size.toNat - 0 := by
    unfold INT_MAX at hmax
    simp only [List.length_singleton]
    omega
  have := hiff.mpr hroom
  omega

/-- An accepted write across the end of the block with other bytes behind it. -/
theorem write_not_isFifo {s : SendQueue} {data : List UInt8} {r : Int} {buf' : UsnSendbuf}
    (h : s.Inv) (hbreak : ¬ KeepsQueue s (.write data))
    (hcall : usnet_write_data s.buf data = some (r, buf')) :
    ¬ SendQueue.IsFifo ⟨buf', if r < 0 then s.held else s.held ++ data, s.removed⟩ := by
  have hb := h.bytes
  have ht := h.wf.tail_le
  unfold KeepsQueue at hbreak
  push Not at hbreak
  obtain ⟨hroom, hend, hne⟩ := hbreak
  rw [usnet_write_data_wrapped h.wf (by omega) hend] at hcall
  obtain ⟨rfl, rfl⟩ := hcall
  rw [if_neg (by omega)]
  intro hfifo
  have hcontents := hfifo.contents
  have hlen : (s.held ++ data).length = s.held.length + data.length := List.length_append
  have hread := h.contents_wrapped hroom hend
  rw [← hlen] at hread
  have hdata : data.take (s.buf.size.toNat - s.buf.tail.toNat) ++
      data.take (s.buf.tail.toNat + data.length - s.buf.size.toNat) = data := by
    have happ := hread.symm.trans hcontents
    rw [List.append_assoc] at happ
    exact List.append_cancel_left happ
  apply hne
  have := congrArg (List.drop (s.buf.size.toNat - s.buf.tail.toNat)) hdata
  rwa [List.drop_left' (by rw [List.length_take]; omega)] at this

/-- Emptying the ring while `tail` rests at the end makes it look full. -/
theorem remove_not_isFifo {s : SendQueue} {len : Nat} {r : Int} {buf' : UsnSendbuf}
    (h : s.Inv) (hbreak : ¬ KeepsQueue s (.remove len)) (hle : len ≤ s.held.length)
    (hcall : usnet_remove_data s.buf len = (r, buf')) :
    ¬ SendQueue.IsFifo ⟨buf', s.held.drop len, s.removed + len⟩ := by
  have hb := h.bytes
  have htail := h.tail_eq
  obtain ⟨hs, hh, ht⟩ := h.wf
  obtain ⟨hall, hend⟩ := not_not.mp hbreak
  obtain ⟨head, hremove, hhead⟩ := usnet_remove_data_held h.wf (hb ▸ hle)
  rw [hremove] at hcall
  obtain ⟨rfl, rfl⟩ := hcall
  rw [hend] at htail ht
  have hzero : head.toNat = 0 := by
    rw [hhead]
    split <;> omega
  have hwf : IndexWf { s.buf with head := head, head_seq := s.buf.head_seq + u32 len } :=
    ⟨hs, by show head.toNat < s.buf.size.toNat; omega, by rw [hend]⟩
  intro hfifo
  have hcount := hfifo.count
  have hbytes : UsnSendbuf.bytes
      { s.buf with head := head, head_seq := s.buf.head_seq + u32 len }
      = s.buf.size.toNat := by
    show (if head.toNat ≤ s.buf.tail.toNat then s.buf.tail.toNat - head.toNat
      else s.buf.size.toNat + s.buf.tail.toNat - head.toNat) = _
    rw [hend, hzero]
    simp
  rw [usnet_get_sendbuf_len_eq hwf, hbytes, hall, List.drop_length] at hcount
  simp only [List.length_nil] at hcount
  omega

/-- One step off the condition ends the queue. -/
theorem step_not_isFifo {s s' : SendQueue} {op : SendOp} (h : s.Inv)
    (hbreak : ¬ KeepsQueue s op) (hstep : SendStep s op s') : ¬ s'.IsFifo := by
  cases hstep with
  | write _ _ hcall => exact write_not_isFifo h hbreak hcall
  | remove _ hle hcall => exact remove_not_isFifo h hbreak hle hcall

/-! ## Section 4: The run -/

theorem SendQueue.inv_of_runWhere {size : UInt32} (hpos : 0 < size.toNat)
    (hmax : size.toNat ≤ INT_MAX) {s : SendQueue}
    (h : RunWhere SendStep KeepsQueue (SendQueue.Fresh size) s) : s.Inv :=
  h.invariant (fun _ hf => .fresh hpos hmax hf) fun _ _ _ hi hk hs => hi.step hk hs

/-- The ring is a bounded byte queue in every state of a run that keeps to the
    condition, provided its size is an `int`, and the first step off the
    condition ends that. -/
theorem send_ring_fifo (size : UInt32) (hpos : 0 < size.toNat) :
    (size.toNat ≤ INT_MAX → ∀ s, RunWhere SendStep KeepsQueue (SendQueue.Fresh size) s →
      s.IsFifo ∧
      ∀ op s', SendStep s op s' → (s'.IsFifo ↔ KeepsQueue s op)) ∧
    (INT_MAX < size.toNat → ∀ s : SendQueue, s.Fresh size → ¬ s.IsFifo) := by
  refine ⟨?_, fun hmax s hf => fresh_not_isFifo hmax hf⟩
  intro hmax s hrun
  have hinv := SendQueue.inv_of_runWhere hpos hmax hrun
  refine ⟨hinv.isFifo, ?_⟩
  intro op s' hstep
  constructor
  · intro hfifo
    by_contra hbreak
    exact step_not_isFifo hinv hbreak hstep hfifo
  · intro hkeep
    exact (hinv.step hkeep hstep).isFifo

/-- A ring of four bytes through which two bytes went, one of them removed. -/
theorem send_ring_fifo_sample :
    ∃ s : SendQueue, s.held = [2] ∧ s.IsFifo := by
  have hrun : RunWhere SendStep KeepsQueue (SendQueue.Fresh 4) _ :=
    .step (a := .remove 1)
      (.step (a := .write [1, 2])
        (.init (s := ⟨_, [], 0⟩) ⟨fun _ => 0, 7, 100, rfl, rfl, rfl⟩)
        (by decide) (.write (by decide) (by decide) rfl))
      (by decide) (.remove (by decide) (by decide) rfl)
  exact ⟨_, rfl, ((send_ring_fifo 4 (by decide)).1 (by decide) _ hrun).1⟩

/-- Four bytes of room: after three bytes went through, one more byte written
    and removed wedges the ring; two more bytes behind a held one are corrupted. -/
theorem send_ring_not_fifo :
    (∃ s : SendQueue, Reachable SendStep (SendQueue.Fresh 4) s ∧ s.held = [] ∧
      usnet_write_data s.buf [9] = some (-1, s.buf) ∧ ¬ s.IsFifo) ∧
    (∃ s : SendQueue, Reachable SendStep (SendQueue.Fresh 4) s ∧ s.held = [3, 4, 5] ∧
      window s.buf.data_ptr 4 s.buf.head.toNat 3 = [3, 4, 4] ∧ ¬ s.IsFifo) := by
  constructor
  · have hrun : Reachable SendStep (SendQueue.Fresh 4) _ :=
      .step (a := .remove 1)
        (.step (a := .write [4])
          (.step (a := .remove 3)
            (.step (a := .write [1, 2, 3])
              (.init (s := ⟨_, [], 0⟩) ⟨fun _ => 0, 7, 100, rfl, rfl, rfl⟩)
              trivial (.write (by decide) (by decide) rfl))
            trivial (.remove (by decide) (by decide) rfl))
          trivial (.write (by decide) (by decide) rfl))
        trivial (.remove (by decide) (by decide) rfl)
    exact ⟨_, hrun, rfl, rfl, fun h => absurd h.count (by decide)⟩
  · have hrun : Reachable SendStep (SendQueue.Fresh 4) _ :=
      .step (a := .write [4, 5])
        (.step (a := .remove 2)
          (.step (a := .write [1, 2, 3])
            (.init (s := ⟨_, [], 0⟩) ⟨fun _ => 0, 7, 100, rfl, rfl, rfl⟩)
            trivial (.write (by decide) (by decide) rfl))
          trivial (.remove (by decide) (by decide) rfl))
        trivial (.write (by decide) (by decide) rfl)
    exact ⟨_, hrun, rfl, rfl, fun h => absurd h.contents (by decide)⟩

end Usnet
