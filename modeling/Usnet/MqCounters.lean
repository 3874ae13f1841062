import Usnet.MqFifo

/-! # What the queue's counters count (mq.c)

    `usnet_write_mq` counts a message once it is published.  `usnet_read_mq`
    counts one as soon as it sees that the queue is not empty, before it knows
    whether the message fits the caller's buffer.  A read that does not fit
    gives up with the count already raised and the message still in the queue,
    so each such read lowers the difference of the counters by one.
-/

namespace Usnet

open CInt Circular Run

/-! ## Section 1: Whole calls -/

/-- The stores of a `memcpy`, one after the other. -/
def store_all (block : Nat → UInt8) (todo : List (Nat × UInt8)) : Nat → UInt8 :=
  todo.foldl (fun block c => Function.update block c.1 c.2) block

/-- `usnet_write_mq` from the loads of the indices to its return. -/
def UsnShmmq.write (mq : UsnShmmq) (m : MqMsg) : UsnShmmq × Int :=
  match usnet_write_mq mq.block_size mq.head mq.tail m with
  | none => (mq, -1)
  | some (todo, next) =>
    ({ mq with
        block := store_all mq.block todo
        tail := next
        enqueued_msg_cnt := mq.enqueued_msg_cnt + 1 },
      if free_len mq.block_size mq.head mq.tail = mq.block_size then 1 else 0)

/-- What `usnet_read_mq` hands back: the return value, `*data_len`, `*flow` where
    it is set, and the bytes copied to `buf`. -/
structure MqRead where
  ret : Int
  data_len : UInt32
  flow : Option UInt32
  buf : List UInt8
  deriving DecidableEq

/-- `usnet_read_mq`; `none` where `assert(total_len <= used_len)` ends the
    program. -/
def usnet_read_mq (mq : UsnShmmq) (buf_size : UInt32) : Option (UsnShmmq × MqRead) :=
  let head := mq.head
  let tail := mq.tail
  if head = tail then some (mq, { ret := 0, data_len := 0, flow := none, buf := [] })
  else
    let mq := { mq with dequeued_msg_cnt := mq.dequeued_msg_cnt + 1 }
    let (todo, head') := read_head mq.block_size head
    let sHead := todo.map mq.block
    let total_len := read32 (sHead.take 4)
    let flow := read32 (sHead.drop 4)
    if total_len ≤ used_len mq.block_size head tail then
      let data_len := total_len - C_HEAD_SIZE
      if data_len > buf_size then
        some (mq, { ret := -1, data_len := data_len, flow := some flow, buf := [] })
      else
        let (todo, next) := read_data mq.block_size head' data_len
        some ({ mq with head := next },
          { ret := 0, data_len := data_len, flow := some flow, buf := todo.map mq.block })
    else none

/-- `data_len` of the message at `head`, as its header has it. -/
def UsnShmmq.first_len (mq : UsnShmmq) : UInt32 :=
  read32 (((read_head mq.block_size mq.head).1.map mq.block).take 4) - C_HEAD_SIZE

/-! ### The calls are the steps of one side taken together -/

/-- The stores of the copy, taken one by one. -/
theorem writer_steps_copy (m : MqMsg) (next : UInt32) (ret : Int)
    (todo : List (Nat × UInt8)) (s : MqState) (hpc : s.writer = .copying m todo next ret) :
    (writer_step^[todo.length] s).mq = { s.mq with block := store_all s.mq.block todo } ∧
    (writer_step^[todo.length] s).writer = .copying m [] next ret := by
  induction todo generalizing s with
  | nil => exact ⟨rfl, hpc⟩
  | cons c todo ih =>
    have hmq : (writer_step s).mq
        = { s.mq with block := Function.update s.mq.block c.1 c.2 } := by
      unfold writer_step MqState.access
      rw [hpc]
      simp only
      split <;> rfl
    have hpc' : (writer_step s).writer = .copying m todo next ret := by
      unfold writer_step
      rw [hpc]
    have hrest := ih (writer_step s) hpc'
    rw [hmq] at hrest
    exact hrest

/-- The last two steps of the producer: publish the message, then count it. -/
theorem writer_steps_finish {s : MqState} {m : MqMsg} {next : UInt32} {ret : Int}
    (hpc : s.writer = .copying m [] next ret) :
    (writer_step^[2] s).mq
      = { s.mq with tail := next, enqueued_msg_cnt := s.mq.enqueued_msg_cnt + 1 } ∧
    (writer_step^[2] s).writer = .idle (some ret) := by
  have hpublish : writer_step s =
      { s with
        mq := { s.mq with tail := next }
        accepted := s.accepted ++ [m]
        writer := .counting ret } := by
    unfold writer_step
    rw [hpc]
  show (writer_step (writer_step s)).mq = _ ∧ (writer_step (writer_step s)).writer = _
  rw [hpublish]
  exact ⟨rfl, rfl⟩

/-- Left alone, the producer's steps end in what the whole call computes. -/
theorem writer_steps_write {s : MqState} {m : MqMsg}
    (hpc : s.writer = .loaded m s.mq.head s.mq.tail) :
    ∃ n, (writer_step^[n] s).mq = (s.mq.write m).1 ∧
      (writer_step^[n] s).writer = .idle (some (s.mq.write m).2) := by
  unfold UsnShmmq.write
  cases hplan : usnet_write_mq s.mq.block_size s.mq.head s.mq.tail m with
  | none =>
    use 1
    show (writer_step s).mq = _ ∧ (writer_step s).writer = _
    unfold writer_step
    rw [hpc]
    simp only [hplan, and_self]
  | some plan =>
    obtain ⟨todo, next⟩ := plan
    obtain ⟨ret, hret⟩ : ∃ ret : Int, ret =
        if free_len s.mq.block_size s.mq.head s.mq.tail = s.mq.block_size then 1 else 0 :=
      ⟨_, rfl⟩
    have hstart : writer_step s = { s with writer := .copying m todo next ret } := by
      unfold writer_step
      rw [hpc]
      simp only [hplan, hret]
    obtain ⟨hmq, hw⟩ := writer_steps_copy m next ret todo (writer_step s) (by rw [hstart])
    obtain ⟨hmq', hw'⟩ := writer_steps_finish hw
    use 2 + (todo.length + 1)
    rw [Function.iterate_add_apply, Function.iterate_succ_apply writer_step todo.length, hmq',
      hw', hmq, hstart]
    exact ⟨rfl, by rw [hret]⟩

/-- The loads of the header, taken one by one. -/
theorem reader_steps_header (buf_size ul next : UInt32) (todo : List Nat) (sHead : List UInt8)
    (s : MqState) (hpc : s.reader = .header ul todo sHead next) :
    ((reader_step buf_size)^[todo.length] s).mq = s.mq ∧
    ((reader_step buf_size)^[todo.length] s).reader
      = .header ul [] (sHead ++ todo.map s.mq.block) next := by
  induction todo generalizing s sHead with
  | nil => exact ⟨rfl, by simpa using hpc⟩
  | cons i todo ih =>
    have hmq : (reader_step buf_size s).mq = s.mq := by
      unfold reader_step MqState.access
      rw [hpc]
      simp only
      split <;> rfl
    have hpc' : (reader_step buf_size s).reader
        = .header ul todo (sHead ++ [s.mq.block i]) next := by
      unfold reader_step MqState.access
      rw [hpc]
      simp only
      split <;> rfl
    have hrest := ih _ (reader_step buf_size s) hpc'
    rw [hmq] at hrest
    simpa using hrest

/-- The loads of the data, taken one by one. -/
theorem reader_steps_payload (buf_size flow next : UInt32) (todo : List Nat)
    (buf : List UInt8) (s : MqState) (hpc : s.reader = .payload flow todo buf next) :
    ((reader_step buf_size)^[todo.length] s).mq = s.mq ∧
    ((reader_step buf_size)^[todo.length] s).reader
      = .payload flow [] (buf ++ todo.map s.mq.block) next := by
  induction todo generalizing s buf with
  | nil => exact ⟨rfl, by simpa using hpc⟩
  | cons i todo ih =>
    have hmq : (reader_step buf_size s).mq = s.mq := by
      unfold reader_step MqState.access
      rw [hpc]
      simp only
      split <;> rfl
    have hpc' : (reader_step buf_size s).reader
        = .payload flow todo (buf ++ [s.mq.block i]) next := by
      unfold reader_step MqState.access
      rw [hpc]
      simp only
      split <;> rfl
    have hrest := ih _ (reader_step buf_size s) hpc'
    rw [hmq] at hrest
    simpa using hrest

/-- The step that looks at a complete header. -/
theorem reader_step_parse {buf_size ul head : UInt32} {sHead : List UInt8} {s : MqState}
    (hpc : s.reader = .header ul [] sHead head) (hassert : read32 (sHead.take 4) ≤ ul) :
    reader_step buf_size s =
      if read32 (sHead.take 4) - C_HEAD_SIZE > buf_size then
        { s with reader := .idle (some (-1, (read32 (sHead.take 4) - C_HEAD_SIZE).toNat)) }
      else
        { s with
          reader := .payload (read32 (sHead.drop 4))
            (read_data s.mq.block_size head (read32 (sHead.take 4) - C_HEAD_SIZE)).1 []
            (read_data s.mq.block_size head (read32 (sHead.take 4) - C_HEAD_SIZE)).2 } := by
  unfold reader_step
  rw [hpc]
  simp only
  rw [if_pos hassert]

/-- Left alone, the consumer's steps end in what the whole call computes. -/
theorem reader_steps_read {buf_size : UInt32} {s : MqState} {mq' : UsnShmmq} {r : MqRead}
    (hpc : s.reader = .loaded s.mq.head s.mq.tail)
    (hread : usnet_read_mq s.mq buf_size = some (mq', r)) :
    ∃ n len, ((reader_step buf_size)^[n] s).mq = mq' ∧
      ((reader_step buf_size)^[n] s).reader = .idle (some (r.ret, len)) := by
  unfold usnet_read_mq at hread
  simp only at hread
  by_cases hempty : s.mq.head = s.mq.tail
  · rw [if_pos hempty] at hread
    obtain ⟨rfl, rfl⟩ := Prod.mk.inj (Option.some.inj hread)
    have hstep : reader_step buf_size s = { s with reader := .idle (some (0, 0)) } := by
      unfold reader_step
      rw [hpc]
      simp only
      rw [if_pos hempty]
    use 1, 0
    show (reader_step buf_size s).mq = _ ∧ (reader_step buf_size s).reader = _
    rw [hstep]
    exact ⟨rfl, rfl⟩
  · rw [if_neg hempty] at hread
    generalize hhead : read_head s.mq.block_size s.mq.head = todo_next at hread
    obtain ⟨todo, next⟩ := todo_next
    have hstart : reader_step buf_size s =
        { s with
          mq := { s.mq with dequeued_msg_cnt := s.mq.dequeued_msg_cnt + 1 }
          reader := .header (used_len s.mq.block_size s.mq.head s.mq.tail) todo [] next } := by
      unfold reader_step
      rw [hpc]
      simp only
      rw [if_neg hempty, hhead]
    obtain ⟨hmq, hr⟩ := reader_steps_header buf_size _ _ todo [] (reader_step buf_size s)
      (by rw [hstart])
    simp only [hstart, List.nil_append] at hmq hr
    generalize hparsed : (reader_step buf_size)^[todo.length] _ = t at hmq hr
    by_cases hassert : read32 ((todo.map s.mq.block).take 4)
        ≤ used_len s.mq.block_size s.mq.head s.mq.tail
    · rw [if_pos hassert] at hread
      have hparse := @reader_step_parse buf_size _ _ _ t hr hassert
      by_cases hbig : read32 ((todo.map s.mq.block).take 4) - C_HEAD_SIZE > buf_size
      · -- the message does not fit
        rw [if_pos hbig] at hread hparse
        obtain ⟨rfl, rfl⟩ := Prod.mk.inj (Option.some.inj hread)
        use 1 + (todo.length + 1),
          (read32 ((todo.map s.mq.block).take 4) - C_HEAD_SIZE).toNat
        rw [Function.iterate_add_apply, Function.iterate_succ_apply _ todo.length, hstart,
          hparsed, Function.iterate_one, hparse]
        exact ⟨hmq, rfl⟩
      · rw [if_neg hbig] at hread hparse
        obtain ⟨rfl, rfl⟩ := Prod.mk.inj (Option.some.inj hread)
        obtain ⟨hmq', hr'⟩ := reader_steps_payload buf_size _ _ _ [] (reader_step buf_size t)
          (by rw [hparse])
        simp only [hparse, hmq, List.nil_append] at hmq' hr'
        generalize hdata : read_data s.mq.block_size next
          (read32 ((todo.map s.mq.block).take 4) - C_HEAD_SIZE) = data_next at hmq' hr' hparse
        obtain ⟨data, next'⟩ := data_next
        generalize hcopied : (reader_step buf_size)^[data.length] _ = u at hmq' hr'
        have hdone : reader_step buf_size u =
            { u with
              mq := { u.mq with head := next' }
              received := u.received ++
                [{ data := data.map s.mq.block
                   flow := read32 ((todo.map s.mq.block).drop 4) }]
              reader := .idle (some (0, (data.map s.mq.block).length)) } := by
          unfold reader_step
          rw [hr']
        use 1 + (data.length + (1 + (todo.length + 1))), (data.map s.mq.block).length
        rw [Function.iterate_add_apply, Function.iterate_add_apply _ data.length,
          Function.iterate_add_apply _ 1 (todo.length + 1),
          Function.iterate_succ_apply _ todo.length, hstart, hparsed, Function.iterate_one,
          hparse, hmq, hdata, hcopied, hdone, hmq']
        exact ⟨rfl, rfl⟩
    · rw [if_neg hassert] at hread
      cases hread

/-! ## Section 2: The messages stored in the block -/

/-- The messages `q`, and no others, lie in the block between `head` and `tail`. -/
structure InBlock (mq : UsnShmmq) (q : List MqMsg) : Prop where
  size : mq.block_size.toNat < 2 ^ 31
  short : ∀ m ∈ q, m.data.length < 2 ^ 31
  head : mq.head.toNat ≤ mq.block_size.toNat
  room : total q < mq.block_size.toNat
  tail : mq.tail.toNat = advance mq.block_size.toNat mq.head.toNat (total q)
  contents : window mq.block mq.block_size.toNat mq.head.toNat (total q)
    = q.flatMap MqMsg.enc

theorem flatMap_enc_length (q : List MqMsg) : (q.flatMap MqMsg.enc).length = total q := by
  induction q with
  | nil => rfl
  | cons m q ih => rw [List.flatMap_cons, List.length_append, ih, m.enc_length, total_cons]

/-- The first four bytes of a message give its length. -/
theorem MqMsg.len_of_enc {m : MqMsg} {rest : List UInt8} (h : m.data.length < 2 ^ 31) :
    (read32 ((m.enc ++ rest).take 4)).toNat = m.total := by
  have hdata : (u32 m.data.length).toNat = m.data.length := toNat_u32_of_lt (by omega)
  have hhs : C_HEAD_SIZE.toNat = 8 := rfl
  unfold MqMsg.enc msg_head
  rw [List.append_assoc, List.append_assoc, List.take_left' (bytes32_length _),
    read32_bytes32, add_toNat_of_lt (by omega), hdata, hhs, MqMsg.total]
  omega

/-- A message can be read back from its bytes. -/
theorem MqMsg.enc_inj {m m' : MqMsg} (hlen : m.data.length = m'.data.length)
    (h : m.enc = m'.enc) : m = m' := by
  unfold MqMsg.enc at h
  obtain ⟨hhead, hdata⟩ := List.append_inj h (by rw [msg_head_length, msg_head_length])
  unfold msg_head at hhead
  obtain ⟨-, hflow⟩ := List.append_inj hhead (by rw [bytes32_length, bytes32_length])
  have hflow' := congrArg read32 hflow
  rw [read32_bytes32, read32_bytes32] at hflow'
  cases m
  cases m'
  simp only at hdata hflow'
  rw [hdata, hflow']

/-- The bytes of a queue tell its messages. -/
theorem flatMap_enc_inj (q q' : List MqMsg) (hq : ∀ m ∈ q, m.data.length < 2 ^ 31)
    (hq' : ∀ m ∈ q', m.data.length < 2 ^ 31)
    (h : q.flatMap MqMsg.enc = q'.flatMap MqMsg.enc) : q = q' := by
  induction q generalizing q' with
  | nil =>
    cases q' with
    | nil => rfl
    | cons m' q' =>
      have hlen := congrArg List.length h
      have := m'.total_pos
      rw [flatMap_enc_length, flatMap_enc_length, total_nil, total_cons] at hlen
      omega
  | cons m q ih =>
    cases q' with
    | nil =>
      have hlen := congrArg List.length h
      have := m.total_pos
      rw [flatMap_enc_length, flatMap_enc_length, total_nil, total_cons] at hlen
      omega
    | cons m' q' =>
      rw [List.flatMap_cons, List.flatMap_cons] at h
      have hm := @MqMsg.len_of_enc m (q.flatMap MqMsg.enc) (hq m (by simp))
      have hm' := @MqMsg.len_of_enc m' (q'.flatMap MqMsg.enc) (hq' m' (by simp))
      rw [h, hm'] at hm
      have hlen : m.data.length = m'.data.length := by
        unfold MqMsg.total at hm
        omega
      obtain ⟨hfirst, hrest⟩ := List.append_inj h (by rw [m.enc_length, m'.enc_length, hm])
      rw [MqMsg.enc_inj hlen hfirst,
        ih q' (fun x hx => hq x (by simp [hx])) (fun x hx => hq' x (by simp [hx])) hrest]

variable {mq mq' : UsnShmmq} {q q' : List MqMsg}

/-- The positions and the bytes leave no choice of the messages stored. -/
theorem InBlock.unique (h : InBlock mq q) (h' : InBlock mq q') : q' = q := by
  have hlen : total q' = total q := by
    have ht := h.tail
    have ht' := h'.tail
    have hr := h.room
    have hr' := h'.room
    have hh := h.head
    rw [ht] at ht'
    unfold advance at ht'
    split at ht' <;> split at ht' <;> omega
  have hc := h'.contents
  rw [hlen, h.contents] at hc
  exact (flatMap_enc_inj q q' h.short h'.short hc).symm

/-- Addressing cells from an advanced position. -/
theorem cells_advance (size p n : Nat) (src : List UInt8) :
    cells size (advance size p n) src = cells size (p + n) src := by
  unfold cells
  simp only [advance_add_mod]

/-- Stores behind a window extend it. -/
theorem window_store_all {size p : Nat} (src : List UInt8) (n : Nat) (block : Nat → UInt8)
    (hfit : n + src.length ≤ size) :
    window (store_all block (cells size (p + n) src)) size p (n + src.length)
      = window block size p n ++ src := by
  induction src generalizing n block with
  | nil => exact (List.append_nil _).symm
  | cons b src ih =>
    rw [List.length_cons] at hfit
    have hcells : cells size (p + n) (b :: src)
        = ((p + n) % size, b) :: cells size (p + (n + 1)) src := by
      rw [← List.singleton_append, cells_append]
      rfl
    have hrest := ih (n + 1) (Function.update block ((p + n) % size) b) (by omega)
    rw [window_update_append block b (by omega)] at hrest
    rw [hcells, List.length_cons, show n + (src.length + 1) = n + 1 + src.length by omega]
    show window (store_all (Function.update block _ b) _) _ _ _ = _
    rw [hrest, List.append_assoc]
    rfl

/-- A write refuses and changes nothing, or stores one message and counts it. -/
theorem InBlock.write (h : InBlock mq q) (m : MqMsg) (hm : m.data.length < 2 ^ 31) :
    (mq.write m = (mq, -1)) ∨
    (InBlock (mq.write m).1 (q ++ [m]) ∧ 0 ≤ (mq.write m).2 ∧
      (mq.write m).1.enqueued_msg_cnt = mq.enqueued_msg_cnt + 1 ∧
      (mq.write m).1.dequeued_msg_cnt = mq.dequeued_msg_cnt) := by
  unfold UsnShmmq.write
  rcases usnet_write_mq_eq h.size h.head h.room hm h.tail with
    ⟨-, hplan⟩ | ⟨hfit, next, hplan, hnext⟩
  · left
    rw [hplan]
  · right
    rw [hplan]
    refine ⟨⟨h.size, ?_, h.head, ?_, ?_, ?_⟩, ?_, rfl, rfl⟩
    · intro x hx
      rcases List.mem_append.mp hx with hx | hx
      · exact h.short x hx
      · rw [List.mem_singleton.mp hx]
        exact hm
    · show total (q ++ [m]) < mq.block_size.toNat
      simpa using hfit
    · show next.toNat = advance mq.block_size.toNat mq.head.toNat (total (q ++ [m]))
      rw [hnext, h.tail, advance_advance h.head (by omega)]
      simp
    · show window (store_all mq.block (cells mq.block_size.toNat mq.tail.toNat m.enc))
        mq.block_size.toNat mq.head.toNat (total (q ++ [m])) = _
      have hlen : total (q ++ [m]) = total q + m.enc.length := by simp
      rw [h.tail, cells_advance, hlen, window_store_all _ _ _ (by rw [m.enc_length]; omega),
        h.contents]
      simp
    · show (0 : Int) ≤ if _ then 1 else 0
      split <;> decide

/-! ### A read of the first message -/

/-- Loading cells one by one reads a window. -/
theorem map_addrs (block : Nat → UInt8) (size p n : Nat) :
    (addrs size p n).map block = window block size p n := by
  unfold addrs window
  rw [List.map_map]
  rfl

/-- The bytes of the first message lie at `head`. -/
theorem InBlock.first_window {m : MqMsg} {later : List MqMsg}
    (h : InBlock mq (m :: later)) :
    window mq.block mq.block_size.toNat mq.head.toNat m.total = m.enc := by
  have hc := h.contents
  rw [total_cons, window_append, List.flatMap_cons] at hc
  exact (List.append_inj hc (by rw [window_length, m.enc_length])).1

/-- The header `usnet_read_mq` reads is the one written. -/
theorem InBlock.read_header {m : MqMsg} {later : List MqMsg} (h : InBlock mq (m :: later)) :
    ((read_head mq.block_size mq.head).1.map mq.block)
      = msg_head (u32 m.data.length + C_HEAD_SIZE) m.flow ∧
    (read_head mq.block_size mq.head).2.toNat
      = advance mq.block_size.toNat mq.head.toNat 8 := by
  have hroom := h.room
  rw [total_cons] at hroom
  have h8 : 8 ≤ m.total := by
    unfold MqMsg.total
    omega
  have hhs : C_HEAD_SIZE.toNat = 8 := rfl
  obtain ⟨haddrs, hnext⟩ := read_data_eq C_HEAD_SIZE h.size h.head (by omega)
  rw [← read_head_eq_read_data] at haddrs hnext
  constructor
  · have hfirst := congrArg (List.take 8) h.first_window
    rw [window_take h8] at hfirst
    rw [haddrs, map_addrs, hhs, hfirst, MqMsg.enc, List.take_left' (msg_head_length _ _)]
  · exact hnext

/-- The length in the header is that of the message. -/
theorem InBlock.first_len_eq {m : MqMsg} {later : List MqMsg} (h : InBlock mq (m :: later)) :
    mq.first_len = u32 m.data.length := by
  unfold UsnShmmq.first_len
  rw [h.read_header.1, msg_head, List.take_left' (bytes32_length _), read32_bytes32]
  exact UInt32.add_sub_cancel _ _

/-- Only an empty queue has its indices equal. -/
theorem InBlock.nil_of_eq (h : InBlock mq q) (heq : mq.head = mq.tail) : q = [] := by
  have hadv := h.tail
  rw [← heq] at hadv
  have hzero := advance_eq_self h.room hadv.symm
  cases q with
  | nil => rfl
  | cons m q =>
    have := m.total_pos
    rw [total_cons] at hzero
    omega

theorem InBlock.cons_of_ne (h : InBlock mq q) (hne : mq.head ≠ mq.tail) :
    ∃ m later, q = m :: later := by
  cases q with
  | nil =>
    have hadv := h.tail
    rw [total_nil, advance_zero h.head] at hadv
    exact absurd (UInt32.toNat_inj.mp hadv).symm hne
  | cons m later => exact ⟨m, later, rfl⟩

/-- The queue without its first message. -/
theorem InBlock.consume {m : MqMsg} {later : List MqMsg} {next cnt : UInt32}
    (h : InBlock mq (m :: later))
    (hnext : next.toNat = advance mq.block_size.toNat mq.head.toNat m.total) :
    InBlock { mq with head := next, dequeued_msg_cnt := cnt } later := by
  obtain ⟨hsize, hshort, hhead, hroom, htail, hcont⟩ := h
  rw [total_cons] at hroom htail hcont
  refine ⟨hsize, fun x hx => hshort x (by simp [hx]), ?_, ?_, ?_, ?_⟩
  · show next.toNat ≤ mq.block_size.toNat
    rw [hnext]
    exact advance_le hhead (by omega)
  · show total later < mq.block_size.toNat
    omega
  · show mq.tail.toNat = advance mq.block_size.toNat next.toNat (total later)
    rw [htail, hnext, advance_advance hhead (by omega)]
  · -- the window behind the first message holds the others
    show window mq.block mq.block_size.toNat next.toNat (total later) = _
    rw [hnext, window_advance]
    rw [window_append, List.flatMap_cons] at hcont
    exact (List.append_inj hcont (by rw [window_length, m.enc_length])).2

/-- A read with a message in the queue, down to the comparison with the buffer. -/
theorem InBlock.read_checked {m : MqMsg} {later : List MqMsg} (h : InBlock mq (m :: later))
    (buf_size : UInt32) :
    usnet_read_mq mq buf_size
      = if u32 m.data.length > buf_size then
          some ({ mq with dequeued_msg_cnt := mq.dequeued_msg_cnt + 1 },
            { ret := -1, data_len := u32 m.data.length, flow := some m.flow, buf := [] })
        else
          some ({ mq with
                  head := (read_data mq.block_size (read_head mq.block_size mq.head).2
                    (u32 m.data.length)).2
                  dequeued_msg_cnt := mq.dequeued_msg_cnt + 1 },
            { ret := 0, data_len := u32 m.data.length, flow := some m.flow,
              buf := (read_data mq.block_size (read_head mq.block_size mq.head).2
                (u32 m.data.length)).1.map mq.block }) := by
  have hshort := h.short m (by simp)
  have hroom := h.room
  have hpos := m.total_pos
  have hhs : C_HEAD_SIZE.toNat = 8 := rfl
  have hdata : (u32 m.data.length).toNat = m.data.length := toNat_u32_of_lt (by omega)
  have hne : mq.head ≠ mq.tail := by
    intro heq
    have hnil := h.nil_of_eq heq
    cases hnil
  have hused := used_len_eq h.size h.head (by rw [total_cons]; omega) h.room h.tail
  have hlen : read32 (((read_head mq.block_size mq.head).1.map mq.block).take 4)
      = u32 m.data.length + C_HEAD_SIZE := by
    rw [h.read_header.1, msg_head, List.take_left' (bytes32_length _), read32_bytes32]
  have hflow : read32 (((read_head mq.block_size mq.head).1.map mq.block).drop 4) = m.flow := by
    rw [h.read_header.1, msg_head, List.drop_left' (bytes32_length _), read32_bytes32]
  have hsub : u32 m.data.length + C_HEAD_SIZE - C_HEAD_SIZE = u32 m.data.length :=
    UInt32.add_sub_cancel _ _
  have hassert : u32 m.data.length + C_HEAD_SIZE
      ≤ used_len mq.block_size mq.head mq.tail := by
    rw [UInt32.le_iff_toNat_le, hused, add_toNat_of_lt (by omega), hdata, hhs, total_cons,
      MqMsg.total]
    omega
  unfold usnet_read_mq
  simp only [hlen, hflow, hsub]
  rw [if_neg hne, if_pos hassert]

/-- A read of a message that does not fit: counted, and left where it is. -/
theorem InBlock.read_too_small {m : MqMsg} {later : List MqMsg} (h : InBlock mq (m :: later))
    {buf_size : UInt32} (hbig : buf_size < u32 m.data.length) :
    usnet_read_mq mq buf_size
      = some ({ mq with dequeued_msg_cnt := mq.dequeued_msg_cnt + 1 },
          { ret := -1, data_len := u32 m.data.length, flow := some m.flow, buf := [] }) := by
  rw [h.read_checked buf_size, if_pos hbig]

/-- A read of a message that fits takes it off the queue. -/
theorem InBlock.read_fits {m : MqMsg} {later : List MqMsg} (h : InBlock mq (m :: later))
    {buf_size : UInt32} (hfits : u32 m.data.length ≤ buf_size) :
    ∃ next : UInt32,
      InBlock { mq with head := next, dequeued_msg_cnt := mq.dequeued_msg_cnt + 1 } later ∧
      usnet_read_mq mq buf_size
        = some ({ mq with head := next, dequeued_msg_cnt := mq.dequeued_msg_cnt + 1 },
            { ret := 0, data_len := u32 m.data.length, flow := some m.flow,
              buf := m.data }) := by
  have hshort := h.short m (by simp)
  have hroom := h.room
  rw [total_cons, MqMsg.total] at hroom
  have hdata : (u32 m.data.length).toNat = m.data.length := toNat_u32_of_lt (by omega)
  obtain ⟨-, hnext⟩ := h.read_header
  have hnextle : (read_head mq.block_size mq.head).2.toNat ≤ mq.block_size.toNat := by
    rw [hnext]
    exact advance_le h.head (by omega)
  obtain ⟨haddrs, hend⟩ := read_data_eq (u32 m.data.length) h.size hnextle (by omega)
  rw [hdata, hnext] at haddrs hend
  -- the data behind the header is what is left of the message
  have hbuf : (read_data mq.block_size (read_head mq.block_size mq.head).2
      (u32 m.data.length)).1.map mq.block = m.data := by
    have hrest := congrArg (List.drop 8) h.first_window
    have hlen : m.total - 8 = m.data.length := by unfold MqMsg.total; omega
    rw [window_drop (by unfold MqMsg.total; omega), hlen, MqMsg.enc,
      List.drop_left' (msg_head_length _ _)] at hrest
    rw [haddrs, map_addrs, window_advance, hrest]
  use (read_data mq.block_size (read_head mq.block_size mq.head).2 (u32 m.data.length)).2
  constructor
  · apply h.consume
    rw [hend, advance_advance h.head (by omega)]
    rfl
  · rw [h.read_checked buf_size, if_neg (by simpa using hfits), hbuf]

/-! ## Section 3: Runs of calls -/

/-- The queue and the number of reads so far that have returned -1. -/
structure MqCalls where
  mq : UsnShmmq
  failed : Nat

/-- The calls: a message to write, or a read into a buffer of some size. -/
inductive MqCall where
  | write (m : MqMsg)
  | read (buf_size : UInt32)

/-- What `usnet_init_shmmq` leaves: indices and counters zero, any block. -/
def MqCalls.Init (s : MqCalls) : Prop :=
  s.mq.head = 0 ∧ s.mq.tail = 0 ∧ 0 < s.mq.block_size.toNat ∧
  s.mq.block_size.toNat < 2 ^ 31 ∧ s.mq.enqueued_msg_cnt = 0 ∧
  s.mq.dequeued_msg_cnt = 0 ∧ s.failed = 0

/-- One call.  `data_len` is an `int32_t`. -/
inductive MqCalls.Step : MqCalls → MqCall → MqCalls → Prop
  | write {s : MqCalls} {m : MqMsg} :
      m.data.length < 2 ^ 31 →
      Step s (.write m) { s with mq := (s.mq.write m).1 }
  | read {s : MqCalls} {buf_size : UInt32} {mq : UsnShmmq} {r : MqRead} :
      usnet_read_mq s.mq buf_size = some (mq, r) →
      Step s (.read buf_size)
        { mq := mq, failed := if r.ret = -1 then s.failed + 1 else s.failed }

/-- The queue is empty or its first message fits the buffer. -/
def read_fits (s : MqCalls) : MqCall → Prop
  | .write _ => True
  | .read buf_size => s.mq.head = s.mq.tail ∨ s.mq.first_len ≤ buf_size

/-- The difference of the counters is what is stored, less the reads that
    failed. -/
structure MqCalls.Inv (s : MqCalls) (q : List MqMsg) : Prop where
  stored : InBlock s.mq q
  count : s.mq.enqueued_msg_cnt - s.mq.dequeued_msg_cnt + u32 s.failed = u32 q.length

theorem MqCalls.Inv.init {s : MqCalls} (h : s.Init) : s.Inv [] := by
  obtain ⟨hhead, htail, hpos, hsize, henq, hdeq, hfailed⟩ := h
  constructor
  · refine ⟨hsize, by simp, ?_, hpos, ?_, rfl⟩
    · rw [hhead]
      exact Nat.zero_le _
    · rw [hhead, htail]
      exact (advance_zero (Nat.zero_le _)).symm
  · rw [henq, hdeq, hfailed]
    rfl

/-- What a read does to the account. -/
theorem MqCalls.Inv.read {s : MqCalls} {buf_size : UInt32} {q : List MqMsg} (h : s.Inv q) :
    ∃ mq r, usnet_read_mq s.mq buf_size = some (mq, r) ∧
      ((r.ret = 0 ∧ read_fits s (.read buf_size) ∧
          ∃ q', MqCalls.Inv { mq := mq, failed := s.failed } q') ∨
        (r.ret = -1 ∧ ¬ read_fits s (.read buf_size) ∧
          mq = { s.mq with dequeued_msg_cnt := s.mq.dequeued_msg_cnt + 1 } ∧
          MqCalls.Inv { mq := mq, failed := s.failed + 1 } q)) := by
  obtain ⟨hstored, hcount⟩ := h
  by_cases hempty : s.mq.head = s.mq.tail
  · -- nothing to read
    have hread : usnet_read_mq s.mq buf_size
        = some (s.mq, { ret := 0, data_len := 0, flow := none, buf := [] }) := by
      unfold usnet_read_mq
      simp only
      rw [if_pos hempty]
    exact ⟨_, _, hread, .inl ⟨rfl, .inl hempty, q, hstored, hcount⟩⟩
  · obtain ⟨m, later, rfl⟩ := hstored.cons_of_ne hempty
    have hfirst := hstored.first_len_eq
    by_cases hfits : u32 m.data.length ≤ buf_size
    · obtain ⟨next, hin, hread⟩ := hstored.read_fits hfits
      refine ⟨_, _, hread, .inl ⟨rfl, .inr (by rw [hfirst]; exact hfits), later, hin, ?_⟩⟩
      rw [List.length_cons, u32_natCast_add] at hcount
      show s.mq.enqueued_msg_cnt - (s.mq.dequeued_msg_cnt + 1) + u32 s.failed = _
      have hone : u32 ((1 : Nat) : Int) = 1 := rfl
      rw [hone] at hcount
      grind
    · refine ⟨_, _, hstored.read_too_small (by simpa using hfits), .inr ⟨rfl, ?_, rfl, ?_⟩⟩
      · rintro (h | h)
        · exact hempty h
        · rw [hfirst] at h
          exact hfits h
      · constructor
        · exact ⟨hstored.size, hstored.short, hstored.head, hstored.room, hstored.tail,
            hstored.contents⟩
        · show s.mq.enqueued_msg_cnt - (s.mq.dequeued_msg_cnt + 1)
            + u32 ((s.failed + 1 : Nat) : Int) = _
          rw [← hcount, u32_natCast_add]
          have hone : u32 ((1 : Nat) : Int) = 1 := rfl
          rw [hone]
          grind

/-- One call keeps the account, whatever the buffer. -/
theorem MqCalls.Inv.step {s s' : MqCalls} {c : MqCall} {q : List MqMsg} (h : s.Inv q)
    (hstep : s.Step c s') : ∃ q', s'.Inv q' := by
  cases hstep with
  | @write m hm =>
    obtain ⟨hstored, hcount⟩ := h
    rcases hstored.write m hm with hrefused | ⟨hin, -, henq, hdeq⟩
    · use q
      rw [hrefused]
      exact ⟨hstored, hcount⟩
    · use q ++ [m]
      refine ⟨hin, ?_⟩
      show (s.mq.write m).1.enqueued_msg_cnt - (s.mq.write m).1.dequeued_msg_cnt
        + u32 s.failed = _
      have hone : u32 ((1 : Nat) : Int) = 1 := rfl
      rw [henq, hdeq, List.length_append, List.length_singleton, u32_natCast_add, ← hcount,
        hone]
      grind
  | @read buf_size mq r hread =>
    obtain ⟨mq₀, r₀, hread₀, hcases⟩ := @MqCalls.Inv.read s buf_size q h
    obtain ⟨rfl, rfl⟩ := Prod.mk.inj (Option.some.inj (hread₀.symm.trans hread))
    rcases hcases with ⟨hret, -, q', hinv⟩ | ⟨hret, -, -, hinv⟩
    · use q'
      rw [hret]
      exact hinv
    · use q
      rw [hret]
      exact hinv

/-- A call that meets the condition fails no read. -/
theorem MqCalls.Inv.failed_step {s s' : MqCalls} {c : MqCall} {q : List MqMsg} (h : s.Inv q)
    (hc : read_fits s c) (hstep : s.Step c s') : s'.failed = s.failed := by
  cases hstep with
  | write hm => rfl
  | @read buf_size mq r hread =>
    obtain ⟨mq₀, r₀, hread₀, hcases⟩ := @MqCalls.Inv.read s buf_size q h
    obtain ⟨rfl, rfl⟩ := Prod.mk.inj (Option.some.inj (hread₀.symm.trans hread))
    rcases hcases with ⟨hret, -⟩ | ⟨-, hnot, -⟩
    · rw [hret]
      rfl
    · exact absurd hc hnot

/-- Over any run of calls the difference of the counters falls behind the
    messages stored by one for every read that failed. -/
theorem counters_drift {s : MqCalls} (h : Reachable MqCalls.Step MqCalls.Init s) :
    ∃ q, s.Inv q :=
  h.invariant (I := fun s => ∃ q, s.Inv q) (fun _ hi => ⟨[], .init hi⟩)
    fun _ _ _ ⟨_, hq⟩ _ hs => hq.step hs

theorem failed_of_fits {s : MqCalls} (h : RunWhere MqCalls.Step read_fits MqCalls.Init s) :
    s.failed = 0 := by
  apply h.invariant_of (K := fun s => ∃ q, s.Inv q) (I := fun s => s.failed = 0)
  · intro s hs
    exact counters_drift hs.reachable
  · intro s hi
    obtain ⟨-, -, -, -, -, -, hfailed⟩ := hi
    exact hfailed
  · intro s c s' ⟨q, hq⟩ hzero hc hs
    rw [hq.failed_step hc hs, hzero]

/-- As long as every read has found the queue empty or its buffer large enough,
    the counters tell the number of messages stored.  Of the next read it holds
    exactly under the same condition that it leaves the shared state alone when it
    returns -1. -/
theorem queue_counters_exact (s : MqCalls)
    (h : RunWhere MqCalls.Step read_fits MqCalls.Init s) :
    (∃ q, InBlock s.mq q ∧ (∀ q', InBlock s.mq q' → q' = q) ∧
      s.mq.enqueued_msg_cnt - s.mq.dequeued_msg_cnt = u32 q.length) ∧
    ∀ buf_size, ∃ mq r, usnet_read_mq s.mq buf_size = some (mq, r) ∧
      ((r.ret = -1 → mq = s.mq) ↔ read_fits s (.read buf_size)) := by
  obtain ⟨q, hq⟩ := counters_drift h.reachable
  have hzero := failed_of_fits h
  constructor
  · use q
    have hcount := hq.count
    rw [hzero] at hcount
    refine ⟨hq.stored, fun q' hq' => hq.stored.unique hq', ?_⟩
    simpa using hcount
  · intro buf_size
    obtain ⟨mq, r, hread, hcases⟩ := @MqCalls.Inv.read s buf_size q hq
    refine ⟨mq, r, hread, ?_⟩
    rcases hcases with ⟨hret, hfits, -⟩ | ⟨hret, hnot, hmq, -⟩
    · constructor
      · intro _
        exact hfits
      · intro _ hfail
        rw [hret] at hfail
        cases hfail
    · constructor
      · -- the count is raised, so the state is not the one before
        intro hsame
        have hcnt := congrArg UsnShmmq.dequeued_msg_cnt (hsame hret)
        rw [hmq] at hcnt
        have : s.mq.dequeued_msg_cnt + 1 = s.mq.dequeued_msg_cnt := hcnt
        grind
      · intro hfits
        exact absurd hfits hnot

/-- An empty queue of 32 bytes. -/
def empty_queue : UsnShmmq :=
  { head := 0, tail := 0, block := fun _ => 0, block_size := 32, enqueued_msg_cnt := 0,
    dequeued_msg_cnt := 0 }

/-- The queue with one message of three bytes. -/
def one_queued : UsnShmmq := (empty_queue.write { data := [1, 2, 3], flow := 5 }).1

theorem one_queued_run :
    RunWhere MqCalls.Step read_fits MqCalls.Init { mq := one_queued, failed := 0 } := by
  apply RunWhere.step (a := .write { data := [1, 2, 3], flow := 5 })
  · exact .init (s := { mq := empty_queue, failed := 0 })
      ⟨rfl, rfl, by decide, by decide, rfl, rfl, rfl⟩
  · trivial
  · exact .write (s := { mq := empty_queue, failed := 0 }) (by decide)

/-- Read into a buffer of three bytes, the message is handed out and counted. -/
theorem queue_counters_exact_sample : ∃ mq r, usnet_read_mq one_queued 3 = some (mq, r) ∧
    r.buf = [1, 2, 3] ∧ mq.enqueued_msg_cnt - mq.dequeued_msg_cnt = 0 ∧
    (∃ q, InBlock one_queued q ∧ u32 q.length = 1) ∧
    (r.ret = -1 → mq = one_queued) := by
  obtain ⟨⟨q, hq, -, hcount⟩, hreads⟩ := queue_counters_exact _ one_queued_run
  obtain ⟨mq, r, hread, hiff⟩ := hreads 3
  have hfits : read_fits { mq := one_queued, failed := 0 } (.read 3) := .inr (by decide +kernel)
  have hout : (usnet_read_mq one_queued 3).map
      (fun x => (x.2.buf, x.1.enqueued_msg_cnt - x.1.dequeued_msg_cnt)) = some ([1, 2, 3], 0) := by
    decide +kernel
  rw [hread] at hout
  obtain ⟨hbuf, hdiff⟩ := Prod.mk.inj (Option.some.inj hout)
  have hone : one_queued.enqueued_msg_cnt - one_queued.dequeued_msg_cnt = 1 := by decide +kernel
  exact ⟨mq, r, hread, hbuf, hdiff, ⟨q, hq, by rw [← hcount, hone]⟩, hiff.mpr hfits⟩

/-- Read into a buffer of two bytes, the message stays in the queue but counts as
    dequeued: one message is stored and the counters are equal. -/
theorem oversized_read_counted : ∃ s mq r,
    Reachable MqCalls.Step MqCalls.Init s ∧ usnet_read_mq s.mq 2 = some (mq, r) ∧
    r.ret = -1 ∧ mq ≠ s.mq ∧ InBlock mq [{ data := [1, 2, 3], flow := 5 }] ∧
    mq.enqueued_msg_cnt - mq.dequeued_msg_cnt = 0 := by
  have hin : InBlock one_queued [{ data := [1, 2, 3], flow := 5 }] :=
    ⟨by decide +kernel, by decide, by decide +kernel, by decide +kernel, by decide +kernel,
      by decide +kernel⟩
  have hread := @InBlock.read_too_small one_queued _ _ hin 2 (by decide)
  refine ⟨{ mq := one_queued, failed := 0 }, _, _, one_queued_run.reachable, hread, rfl, ?_,
    ⟨hin.size, hin.short, hin.head, hin.room, hin.tail, hin.contents⟩, by decide +kernel⟩
  intro hsame
  have hcnt : (1 : UInt32) = 0 := congrArg UsnShmmq.dequeued_msg_cnt hsame
  revert hcnt
  decide

end Usnet
