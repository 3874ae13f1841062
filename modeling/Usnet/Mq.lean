import Usnet.Lib.CInt
import Mathlib.Logic.Function.Basic

/-! # The message queue between the two processes (mq.c)

    One process writes messages into a circular block of shared memory and the
    other reads them.  Each call is broken into the steps the two processes can
    interleave: the loads of both indices, the copy of every single byte, and
    the store that publishes the new index.
-/

namespace Usnet

open CInt

/-! ## Section 1: Data -/

/-- The header in front of every message: `total_len` and `flow`. -/
def C_HEAD_SIZE : UInt32 := 8

/-- The shared part of `usn_shmmq_t`. -/
structure UsnShmmq where
  head : UInt32
  tail : UInt32
  block : Nat → UInt8
  block_size : UInt32
  enqueued_msg_cnt : UInt32
  dequeued_msg_cnt : UInt32

/-- A message as the producer passes it. -/
structure MqMsg where
  data : List UInt8
  flow : UInt32
  deriving DecidableEq

/-- The four bytes of a `uint32_t` in memory, lowest first. -/
def bytes32 (x : UInt32) : List UInt8 :=
  (List.range 4).map fun i => UInt8.ofNat (x.toNat / 256 ^ i)

/-- The `uint32_t` stored in four bytes. -/
def read32 (b : List UInt8) : UInt32 :=
  UInt32.ofNat ((b.getD 0 0).toNat + 256 * (b.getD 1 0).toNat +
    256 ^ 2 * (b.getD 2 0).toNat + 256 ^ 3 * (b.getD 3 0).toNat)

/-- `sHead`. -/
def msg_head (total_len flow : UInt32) : List UInt8 := bytes32 total_len ++ bytes32 flow

/-! ## Section 2: The local computations of the two calls -/

/-- A `memcpy` to the block as single stores. -/
def stores (off : UInt32) (src : List UInt8) : List (Nat × UInt8) :=
  src.mapIdx fun i b => (off.toNat + i, b)

/-- A `memcpy` from the block as single loads. -/
def loads (off len : UInt32) : List Nat := (List.range len.toNat).map (off.toNat + ·)

/-- `free_len` in `usnet_write_mq`. -/
def free_len (block_size head tail : UInt32) : UInt32 :=
  if head > tail then head - tail else head + block_size - tail

/-- What `usnet_write_mq` does after reading `head` and `tail`: refuse, or store
    these bytes and then this `tail`.  The code reads `*_tail` once more when it
    publishes; only this side stores to it. -/
def usnet_write_mq (block_size head tail : UInt32) (m : MqMsg) :
    Option (List (Nat × UInt8) × UInt32) :=
  let data_len := u32 m.data.length
  let tail_len := block_size - tail
  let total_len := data_len + C_HEAD_SIZE
  if free_len block_size head tail ≤ total_len then none
  else
    let sHead := msg_head total_len m.flow
    if tail_len ≥ total_len then
      some (stores tail sHead ++ stores (tail + C_HEAD_SIZE) m.data,
        tail + (data_len + C_HEAD_SIZE))
    else if tail_len ≥ C_HEAD_SIZE ∧ tail_len < C_HEAD_SIZE + data_len then
      let first_len := tail_len - C_HEAD_SIZE
      some (stores tail sHead ++ stores (tail + C_HEAD_SIZE) (m.data.take first_len.toNat) ++
          stores 0 (m.data.drop first_len.toNat),
        tail + data_len + C_HEAD_SIZE - block_size)
    else
      let second_len := C_HEAD_SIZE - tail_len
      some (stores tail (sHead.take tail_len.toNat) ++
          stores 0 (sHead.drop tail_len.toNat) ++ stores second_len m.data,
        second_len + data_len)

/-- `used_len` in `usnet_read_mq`. -/
def used_len (block_size head tail : UInt32) : UInt32 :=
  if tail > head then tail - head else tail + block_size - head

/-- The bytes `usnet_read_mq` reads next, and `head` behind them: the header. -/
def read_head (block_size head : UInt32) : List Nat × UInt32 :=
  if head + C_HEAD_SIZE > block_size then
    let first_size := block_size - head
    let second_size := C_HEAD_SIZE - first_size
    (loads head first_size ++ loads 0 second_size, second_size)
  else (loads head C_HEAD_SIZE, head + C_HEAD_SIZE)

/-- The bytes `usnet_read_mq` reads next, and `head` behind them: the data. -/
def read_data (block_size head data_len : UInt32) : List Nat × UInt32 :=
  if head + data_len > block_size then
    let first_size := block_size - head
    let second_size := data_len - first_size
    (loads head first_size ++ loads 0 second_size, second_size)
  else (loads head data_len, head + data_len)

/-! ## Section 3: The interleaved steps -/

/-- Where the producer is inside `usnet_write_mq`; `idle` keeps the last return
    value. -/
inductive WriterPc where
  | idle (ret : Option Int)
  | loaded (m : MqMsg) (head tail : UInt32)
  | copying (m : MqMsg) (todo : List (Nat × UInt8)) (next : UInt32) (ret : Int)
  | counting (ret : Int)

/-- Where the consumer is inside `usnet_read_mq`; `idle` keeps the last return
    value and length. -/
inductive ReaderPc where
  | idle (ret : Option (Int × Nat))
  | loaded (head tail : UInt32)
  | header (used_len : UInt32) (todo : List Nat) (sHead : List UInt8) (next : UInt32)
  | payload (flow : UInt32) (todo : List Nat) (buf : List UInt8) (next : UInt32)

/-- What must never happen. -/
inductive MqFault where
  | out_of_block
  | total_len_assert
  deriving DecidableEq

/-- The queue, both processes, the messages published and obtained so far, and
    the first fault. -/
structure MqState where
  mq : UsnShmmq
  writer : WriterPc
  reader : ReaderPc
  accepted : List MqMsg
  received : List MqMsg
  fault : Option MqFault

/-- Record an access outside the block. -/
def MqState.access (s : MqState) (i : Nat) : MqState :=
  if i < s.mq.block_size.toNat then s else { s with fault := some .out_of_block }

/-- The next step of the producer. -/
def writer_step (s : MqState) : MqState :=
  match s.writer with
  | .idle _ => s
  | .loaded m head tail =>
    match usnet_write_mq s.mq.block_size head tail m with
    | none => { s with writer := .idle (some (-1)) }
    | some (todo, next) =>
      let ret := if free_len s.mq.block_size head tail = s.mq.block_size then 1 else 0
      { s with writer := .copying m todo next ret }
  | .copying m ((i, b) :: todo) next ret =>
    let s := s.access i
    { s with
      mq := { s.mq with block := Function.update s.mq.block i b }
      writer := .copying m todo next ret }
  | .copying m [] next ret =>
    { s with
      mq := { s.mq with tail := next }
      accepted := s.accepted ++ [m]
      writer := .counting ret }
  | .counting ret =>
    { s with
      mq := { s.mq with enqueued_msg_cnt := s.mq.enqueued_msg_cnt + 1 }
      writer := .idle (some ret) }

/-- The next step of the consumer, whose buffer has `buf_size` bytes. -/
def reader_step (buf_size : UInt32) (s : MqState) : MqState :=
  match s.reader with
  | .idle _ => s
  | .loaded head tail =>
    if head = tail then { s with reader := .idle (some (0, 0)) }
    else
      let (todo, next) := read_head s.mq.block_size head
      { s with
        mq := { s.mq with dequeued_msg_cnt := s.mq.dequeued_msg_cnt + 1 }
        reader := .header (used_len s.mq.block_size head tail) todo [] next }
  | .header used_len (i :: todo) sHead next =>
    let s := s.access i
    { s with reader := .header used_len todo (sHead ++ [s.mq.block i]) next }
  | .header used_len [] sHead head =>
    let total_len := read32 (sHead.take 4)
    let flow := read32 (sHead.drop 4)
    if total_len ≤ used_len then
      let data_len := total_len - C_HEAD_SIZE
      if data_len > buf_size then { s with reader := .idle (some (-1, data_len.toNat)) }
      else
        let (todo, next) := read_data s.mq.block_size head data_len
        { s with reader := .payload flow todo [] next }
    else { s with fault := some .total_len_assert }
  | .payload flow (i :: todo) buf next =>
    let s := s.access i
    { s with reader := .payload flow todo (buf ++ [s.mq.block i]) next }
  | .payload flow [] buf next =>
    { s with
      mq := { s.mq with head := next }
      received := s.received ++ [{ data := buf, flow := flow }]
      reader := .idle (some (0, buf.length)) }

/-- The actions: a call on either side reads both indices, a step continues it. -/
inductive MqAction where
  | enqueue (m : MqMsg)
  | write
  | dequeue
  | read

/-- One action, for messages of at most `buf_size` bytes. -/
inductive MqStep (buf_size : UInt32) : MqState → MqAction → MqState → Prop
  | enqueue {s : MqState} {m : MqMsg} {ret : Option Int} :
      s.writer = .idle ret → 0 < m.data.length → m.data.length < 2 ^ 30 →
      m.data.length ≤ buf_size.toNat →
      MqStep buf_size s (.enqueue m) { s with writer := .loaded m s.mq.head s.mq.tail }
  | write {s : MqState} : MqStep buf_size s .write (writer_step s)
  | dequeue {s : MqState} {ret : Option (Int × Nat)} :
      s.reader = .idle ret →
      MqStep buf_size s .dequeue { s with reader := .loaded s.mq.head s.mq.tail }
  | read {s : MqState} : MqStep buf_size s .read (reader_step buf_size s)

/-- `usnet_init_shmmq` zeroes the indices and counters, and leaves the block. -/
def MqState.Init (s : MqState) : Prop :=
  ∃ block block_size, 9 ≤ block_size.toNat ∧ block_size.toNat ≤ 2 ^ 30 ∧
    s = { mq := { head := 0, tail := 0, block := block, block_size := block_size,
                  enqueued_msg_cnt := 0, dequeued_msg_cnt := 0 },
          writer := .idle none, reader := .idle none,
          accepted := [], received := [], fault := none }

end Usnet
