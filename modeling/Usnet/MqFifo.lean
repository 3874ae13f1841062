import Usnet.MqLayout
import Usnet.Lib.Run

/-! # The message queue is a lossless FIFO

    The messages published and not yet consumed lie one behind the other from
    `head` on.  The producer may work with an old `head` and the consumer with
    an old `tail`; what each has read remains a bound, because the other side
    only ever gives space or messages and never takes them.
-/

namespace Usnet

open CInt Circular Run

/-! ## Section 1: The invariant -/

/-- A message within the bounds of the system. -/
structure MqMsg.Ok (buf_size : UInt32) (m : MqMsg) : Prop where
  nonempty : 0 < m.data.length
  short : m.data.length < 2 ^ 30
  fits : m.data.length ≤ buf_size.toNat

/-- The producer's local state, over `used` bytes published and not consumed.
    An old `head` only makes the queue look fuller. -/
def WriterInv (buf_size : UInt32) (mq : UsnShmmq) (used : Nat) : WriterPc → Prop
  | .idle _ => True
  | .counting _ => True
  | .loaded m head tail => m.Ok buf_size ∧ tail = mq.tail ∧
      head.toNat ≤ mq.block_size.toNat ∧
      ∃ n, used ≤ n ∧ n < mq.block_size.toNat ∧
        tail.toNat = advance mq.block_size.toNat head.toNat n
  | .copying m todo next _ => m.Ok buf_size ∧
      used + m.total < mq.block_size.toNat ∧
      next.toNat = advance mq.block_size.toNat mq.tail.toNat m.total ∧
      ∃ k, k ≤ m.total ∧
        todo = (cells mq.block_size.toNat mq.tail.toNat m.enc).drop k ∧
        window mq.block mq.block_size.toNat mq.tail.toNat k = m.enc.take k

/-- The consumer's local state, over the queue of messages not yet consumed.  An
    old `tail` only hides the last ones. -/
def ReaderInv (mq : UsnShmmq) (q : List MqMsg) : ReaderPc → Prop
  | .idle ret => ∀ r, ret = some r → r.1 = 0
  | .loaded head tail => head = mq.head ∧
      ∃ seen later, q = seen ++ later ∧
        tail.toNat = advance mq.block_size.toNat head.toNat (total seen)
  | .header used_len todo sHead next =>
      ∃ m later, q = m :: later ∧ m.total ≤ used_len.toNat ∧
        next.toNat = advance mq.block_size.toNat mq.head.toNat 8 ∧
        ∃ k, k ≤ 8 ∧ todo = (addrs mq.block_size.toNat mq.head.toNat 8).drop k ∧
          sHead = m.enc.take k
  | .payload flow todo buf next =>
      ∃ m later, q = m :: later ∧ flow = m.flow ∧
        next.toNat = advance mq.block_size.toNat mq.head.toNat m.total ∧
        ∃ k, k ≤ m.data.length ∧
          todo = (addrs mq.block_size.toNat (mq.head.toNat + 8) m.data.length).drop k ∧
          buf = m.data.take k

/-- The queue `q` lies in the block between `head` and `tail`. -/
structure MqInv (buf_size : UInt32) (s : MqState) (q : List MqMsg) : Prop where
  size : s.mq.block_size.toNat ≤ 2 ^ 30
  history : s.accepted = s.received ++ q
  ok : ∀ m ∈ q, m.Ok buf_size
  head : s.mq.head.toNat ≤ s.mq.block_size.toNat
  room : total q < s.mq.block_size.toNat
  tail : s.mq.tail.toNat = advance s.mq.block_size.toNat s.mq.head.toNat (total q)
  contents : window s.mq.block s.mq.block_size.toNat s.mq.head.toNat (total q)
    = q.flatMap MqMsg.enc
  writer : WriterInv buf_size s.mq (total q) s.writer
  reader : ReaderInv s.mq q s.reader
  fault : s.fault = none

variable {buf_size : UInt32} {s s' : MqState} {q : List MqMsg}

theorem MqInv.tail_le (h : MqInv buf_size s q) :
    s.mq.tail.toNat ≤ s.mq.block_size.toNat := by
  have := h.room
  rw [h.tail]
  exact advance_le h.head (by omega)

theorem MqInv.init (h : s.Init) : MqInv buf_size s [] := by
  obtain ⟨block, block_size, hlow, hup, rfl⟩ := h
  refine ⟨hup, rfl, by simp, Nat.zero_le _, ?_, ?_, rfl, trivial, ?_, rfl⟩
  · show 0 < block_size.toNat
    omega
  · exact (advance_zero (Nat.zero_le _)).symm
  · intro r hr
    cases hr

/-- An access to a cell of the block records nothing. -/
theorem MqState.access_mod (s : MqState) (p : Nat) (hpos : 0 < s.mq.block_size.toNat) :
    s.access (p % s.mq.block_size.toNat) = s :=
  if_pos (Nat.mod_lt _ hpos)

/-- The bytes of the first message are those found behind `head`. -/
theorem MqInv.first_byte {m : MqMsg} {later : List MqMsg} (h : MqInv buf_size s q)
    (hq : q = m :: later) {k : Nat} (hk : k < m.total) :
    s.mq.block ((s.mq.head.toNat + k) % s.mq.block_size.toNat)
      = m.enc.get ⟨k, by rw [m.enc_length]; exact hk⟩ := by
  have hc := h.contents
  subst hq
  have hlen : k < (window s.mq.block s.mq.block_size.toNat s.mq.head.toNat
      (total (m :: later))).length := by
    rw [window_length, total_cons]
    omega
  have hget := getElem_window s.mq.block s.mq.block_size.toNat s.mq.head.toNat
    (total (m :: later)) k hlen
  rw [← hget]
  simp only [hc, List.flatMap_cons, List.get_eq_getElem]
  rw [List.getElem_append_left]

/-- The consumer's invariant looks at `head` only. -/
theorem ReaderInv.congr {mq mq' : UsnShmmq} {pc : ReaderPc} (h : ReaderInv mq q pc)
    (hhead : mq'.head = mq.head) (hsize : mq'.block_size = mq.block_size) :
    ReaderInv mq' q pc := by
  cases pc with
  | idle ret => exact h
  | loaded head tail =>
    unfold ReaderInv at *
    rwa [hhead, hsize]
  | header used_len todo sHead next =>
    unfold ReaderInv at *
    rwa [hhead, hsize]
  | payload flow todo buf next =>
    unfold ReaderInv at *
    rwa [hhead, hsize]

/-- More messages at the end of the queue do not disturb the consumer. -/
theorem ReaderInv.append {mq : UsnShmmq} {pc : ReaderPc} (m : MqMsg)
    (h : ReaderInv mq q pc) : ReaderInv mq (q ++ [m]) pc := by
  cases pc with
  | idle ret => exact h
  | loaded head tail =>
    obtain ⟨hhead, seen, later, hq, htail⟩ := h
    exact ⟨hhead, seen, later ++ [m], by rw [hq, List.append_assoc], htail⟩
  | header used_len todo sHead next =>
    obtain ⟨m', later, hq, hrest⟩ := h
    exact ⟨m', later ++ [m], by rw [hq]; rfl, hrest⟩
  | payload flow todo buf next =>
    obtain ⟨m', later, hq, hrest⟩ := h
    exact ⟨m', later ++ [m], by rw [hq]; rfl, hrest⟩

/-- Fewer bytes in use do not disturb the producer. -/
theorem WriterInv.mono {mq mq' : UsnShmmq} {used used' : Nat} {pc : WriterPc}
    (h : WriterInv buf_size mq used pc) (hused : used' ≤ used) (htail : mq'.tail = mq.tail)
    (hblock : mq'.block = mq.block) (hsize : mq'.block_size = mq.block_size) :
    WriterInv buf_size mq' used' pc := by
  cases pc with
  | idle ret => trivial
  | counting ret => trivial
  | loaded m head tail =>
    obtain ⟨hm, htl, hhd, n, hn, hrest⟩ := h
    unfold WriterInv
    rw [htail, hsize]
    exact ⟨hm, htl, hhd, n, by omega, hrest⟩
  | copying m todo next ret =>
    obtain ⟨hm, hfit, hrest⟩ := h
    unfold WriterInv
    rw [htail, hsize, hblock]
    exact ⟨hm, by omega, hrest⟩

/-! ## Section 2: The producer's steps -/

theorem MqInv.enqueue {m : MqMsg} (h : MqInv buf_size s q) (hm : m.Ok buf_size) :
    MqInv buf_size { s with writer := .loaded m s.mq.head s.mq.tail } q := by
  obtain ⟨hsize, hhist, hok, hhead, hroom, htail, hcont, -, hreader, hfault⟩ := h
  exact ⟨hsize, hhist, hok, hhead, hroom, htail, hcont,
    ⟨hm, rfl, hhead, total q, Nat.le_refl _, hroom, htail⟩, hreader, hfault⟩

/-- The producer decides: refused, or room for the whole message. -/
theorem MqInv.write_loaded {m : MqMsg} {head tail : UInt32} (h : MqInv buf_size s q)
    (hpc : s.writer = .loaded m head tail) : MqInv buf_size (writer_step s) q := by
  have hw := h.writer
  rw [hpc] at hw
  obtain ⟨hm, htl, hhd, n, hn, hnb, hadv⟩ := hw
  obtain ⟨hsize, hhist, hok, hhead, hroom, htail, hcont, -, hreader, hfault⟩ := h
  unfold writer_step
  rw [hpc]
  have hshort := hm.short
  rcases @usnet_write_mq_eq s.mq.block_size head tail m n (by omega) hhd hnb (by omega) hadv with
    ⟨-, hplan⟩ | ⟨hfit, next, hplan, hnext⟩
  · simp only [hplan]
    exact ⟨hsize, hhist, hok, hhead, hroom, htail, hcont, trivial, hreader, hfault⟩
  · simp only [hplan]
    refine ⟨hsize, hhist, hok, hhead, hroom, htail, hcont, ?_, hreader, hfault⟩
    refine ⟨hm, by show total q + m.total < s.mq.block_size.toNat; omega, ?_, 0,
      Nat.zero_le _, ?_, by simp⟩
    · rw [htl] at hnext
      exact hnext
    · rw [htl, List.drop_zero]

/-- One byte copied into the block. -/
theorem MqInv.write_copying {m : MqMsg} {i : Nat} {b : UInt8} {todo : List (Nat × UInt8)}
    {next : UInt32} {ret : Int} (h : MqInv buf_size s q)
    (hpc : s.writer = .copying m ((i, b) :: todo) next ret) :
    MqInv buf_size (writer_step s) q := by
  have hw := h.writer
  rw [hpc] at hw
  obtain ⟨hm, hfit, hnext, k, hk, htodo, hdone⟩ := hw
  have hklt : k < m.total := by
    by_contra hge
    rw [List.drop_of_length_le (by rw [cells_length, m.enc_length]; omega)] at htodo
    cases htodo
  have hdrop := List.drop_eq_getElem_cons (l := cells s.mq.block_size.toNat s.mq.tail.toNat
    m.enc) (i := k) (by rw [cells_length, m.enc_length]; exact hklt)
  rw [← htodo] at hdrop
  obtain ⟨hcell, htodo'⟩ := List.cons.inj hdrop
  have hke : k < m.enc.length := by rw [m.enc_length]; exact hklt
  have hcell' : i = (s.mq.tail.toNat + k) % s.mq.block_size.toNat ∧ b = m.enc[k] := by
    simpa [cells] using hcell
  obtain ⟨rfl, rfl⟩ := hcell'
  obtain ⟨hsize, hhist, hok, hhead, hroom, htail, hcont, -, hreader, hfault⟩ := h
  have haccess := s.access_mod (s.mq.tail.toNat + k) (by omega)
  unfold writer_step
  rw [hpc]
  simp only [haccess]
  refine ⟨hsize, hhist, hok, hhead, hroom, htail, ?_, ?_, ?_, hfault⟩
  · -- the cell lies behind everything published
    show window (Function.update s.mq.block _ _) _ _ _ = _
    rw [htail, advance_add_mod, Nat.add_assoc, window_update_of_le _ _ (by omega) (by omega),
      hcont]
  · refine ⟨hm, hfit, hnext, k + 1, hklt, htodo', ?_⟩
    show window (Function.update s.mq.block _ _) _ _ _ = _
    rw [window_update_append _ _ (by omega), hdone, List.take_append_getElem]
  · exact hreader.congr rfl rfl

/-- The new `tail` is stored: the message is published. -/
theorem MqInv.write_publish {m : MqMsg} {next : UInt32} {ret : Int}
    (h : MqInv buf_size s q) (hpc : s.writer = .copying m [] next ret) :
    MqInv buf_size (writer_step s) (q ++ [m]) := by
  have hw := h.writer
  rw [hpc] at hw
  obtain ⟨hm, hfit, hnext, k, hk, htodo, hdone⟩ := hw
  have hkeq : k = m.total := by
    have := congrArg List.length htodo
    rw [List.length_drop, cells_length, m.enc_length, List.length_nil] at this
    omega
  subst hkeq
  have hall : m.enc.take m.total = m.enc := List.take_of_length_le (by rw [m.enc_length])
  rw [hall] at hdone
  obtain ⟨hsize, hhist, hok, hhead, hroom, htail, hcont, -, hreader, hfault⟩ := h
  unfold writer_step
  rw [hpc]
  refine ⟨hsize, ?_, ?_, hhead, ?_, ?_, ?_, trivial, (hreader.append m).congr rfl rfl, hfault⟩
  · show s.accepted ++ [m] = s.received ++ (q ++ [m])
    rw [hhist, List.append_assoc]
  · intro m' hm'
    rcases List.mem_append.mp hm' with hm' | hm'
    · exact hok m' hm'
    · rw [List.mem_singleton.mp hm']
      exact hm
  · show total (q ++ [m]) < s.mq.block_size.toNat
    simpa using hfit
  · show next.toNat = advance s.mq.block_size.toNat s.mq.head.toNat (total (q ++ [m]))
    rw [hnext, htail, advance_advance hhead (by omega)]
    simp
  · show window s.mq.block s.mq.block_size.toNat s.mq.head.toNat (total (q ++ [m])) = _
    have hlen : total (q ++ [m]) = total q + m.total := by simp
    rw [hlen, window_append, hcont, ← window_advance, ← htail, hdone]
    simp

/-- Whatever the producer does next, the queue stays in order. -/
theorem MqInv.write (h : MqInv buf_size s q) :
    ∃ q', MqInv buf_size (writer_step s) q' := by
  cases hpc : s.writer with
  | idle ret =>
    refine ⟨q, ?_⟩
    unfold writer_step
    rw [hpc]
    exact h
  | loaded m head tail => exact ⟨q, h.write_loaded hpc⟩
  | copying m todo next ret =>
    cases todo with
    | nil => exact ⟨q ++ [m], h.write_publish hpc⟩
    | cons c todo => exact ⟨q, h.write_copying hpc⟩
  | counting ret =>
    obtain ⟨hsize, hhist, hok, hhead, hroom, htail, hcont, -, hreader, hfault⟩ := h
    refine ⟨q, ?_⟩
    unfold writer_step
    rw [hpc]
    exact ⟨hsize, hhist, hok, hhead, hroom, htail, hcont, trivial,
      hreader.congr rfl rfl, hfault⟩

/-! ## Section 3: The consumer's steps -/

theorem MqInv.dequeue (h : MqInv buf_size s q) :
    MqInv buf_size { s with reader := .loaded s.mq.head s.mq.tail } q := by
  obtain ⟨hsize, hhist, hok, hhead, hroom, htail, hcont, hwriter, -, hfault⟩ := h
  exact ⟨hsize, hhist, hok, hhead, hroom, htail, hcont, hwriter,
    ⟨rfl, q, [], by simp, htail⟩, hfault⟩

/-- The consumer decides: nothing seen, or a first message to read. -/
theorem MqInv.read_loaded {head tail : UInt32} (h : MqInv buf_size s q)
    (hpc : s.reader = .loaded head tail) : MqInv buf_size (reader_step buf_size s) q := by
  have hr := h.reader
  rw [hpc] at hr
  obtain ⟨rfl, seen, later, hq, hseen⟩ := hr
  obtain ⟨hsize, hhist, hok, hhead, hroom, htail, hcont, hwriter, -, hfault⟩ := h
  unfold reader_step
  rw [hpc]
  simp only
  by_cases hempty : s.mq.head = tail
  · rw [if_pos hempty]
    refine ⟨hsize, hhist, hok, hhead, hroom, htail, hcont, hwriter, ?_, hfault⟩
    intro r hr
    cases hr
    rfl
  · rw [if_neg hempty]
    have hlt : total seen < s.mq.block_size.toNat := by
      rw [hq, total_append] at hroom
      omega
    cases seen with
    | nil =>
      rw [total_nil, advance_zero hhead] at hseen
      exact absurd (UInt32.toNat_inj.mp hseen).symm hempty
    | cons m seen =>
      rw [total_cons] at hseen hlt
      have hpos := m.total_pos
      have hused := used_len_eq (by omega) hhead (by omega) hlt hseen
      have hmt : 8 ≤ m.total := by unfold MqMsg.total; omega
      obtain ⟨htodo, hnext⟩ := read_data_eq C_HEAD_SIZE (by omega) hhead
        (by show 8 ≤ s.mq.block_size.toNat; omega)
      refine ⟨hsize, hhist, hok, hhead, hroom, htail, hcont,
        hwriter.mono (Nat.le_refl _) rfl rfl rfl, ?_, hfault⟩
      refine ⟨m, seen ++ later, by rw [hq]; rfl, by omega, hnext, 0, Nat.zero_le _, ?_, by simp⟩
      rw [List.drop_zero]
      exact htodo

/-- One byte of the header. -/
theorem MqInv.read_header {ul : UInt32} {i : Nat} {todo : List Nat} {sHead : List UInt8}
    {next : UInt32} (h : MqInv buf_size s q)
    (hpc : s.reader = .header ul (i :: todo) sHead next) :
    MqInv buf_size (reader_step buf_size s) q := by
  have hr := h.reader
  rw [hpc] at hr
  obtain ⟨m, later, hq, hmt, hnext, k, hk, htodo, hdone⟩ := hr
  have hklt : k < 8 := by
    by_contra hge
    rw [List.drop_of_length_le (by rw [addrs_length]; omega)] at htodo
    cases htodo
  have hdrop := List.drop_eq_getElem_cons (l := addrs s.mq.block_size.toNat s.mq.head.toNat 8)
    (i := k) (by rw [addrs_length]; exact hklt)
  rw [← htodo] at hdrop
  obtain ⟨hcell, htodo'⟩ := List.cons.inj hdrop
  have hcell' : i = (s.mq.head.toNat + k) % s.mq.block_size.toNat := by
    simpa [addrs] using hcell
  subst hcell'
  have hkm : k < m.total := by unfold MqMsg.total; omega
  have hbyte := h.first_byte hq hkm
  have haccess := s.access_mod (s.mq.head.toNat + k) (by have := h.room; omega)
  obtain ⟨hsize, hhist, hok, hhead, hroom, htail, hcont, hwriter, -, hfault⟩ := h
  unfold reader_step
  rw [hpc]
  simp only [haccess]
  refine ⟨hsize, hhist, hok, hhead, hroom, htail, hcont, hwriter, ?_, hfault⟩
  refine ⟨m, later, hq, hmt, hnext, k + 1, hklt, htodo', ?_⟩
  rw [hdone, hbyte, List.get_eq_getElem, List.take_append_getElem]

/-- The header is complete: the assertion holds and the data comes next. -/
theorem MqInv.read_parse {ul : UInt32} {sHead : List UInt8} {next : UInt32}
    (h : MqInv buf_size s q) (hpc : s.reader = .header ul [] sHead next) :
    MqInv buf_size (reader_step buf_size s) q := by
  have hr := h.reader
  rw [hpc] at hr
  obtain ⟨m, later, hq, hmt, hnext, k, hk, htodo, hdone⟩ := hr
  -- no byte of the header is left to read
  have hkeq : k = 8 := by
    have := congrArg List.length htodo
    rw [List.length_drop, addrs_length, List.length_nil] at this
    omega
  subst hkeq
  have hm := h.ok m (by rw [hq]; simp)
  have hshort := hm.short
  obtain ⟨hsize, hhist, hok, hhead, hroom, htail, hcont, hwriter, -, hfault⟩ := h
  have hmroom : m.total < s.mq.block_size.toNat := by
    rw [hq, total_cons] at hroom
    omega
  unfold MqMsg.total at hmt hmroom
  have hdata : (u32 m.data.length).toNat = m.data.length := toNat_u32_of_lt (by omega)
  have hhs : C_HEAD_SIZE.toNat = 8 := rfl
  have htotal : (u32 m.data.length + C_HEAD_SIZE).toNat = 8 + m.data.length := by
    rw [add_toNat_of_lt (by omega)]; omega
  have hsHead : sHead = bytes32 (u32 m.data.length + C_HEAD_SIZE) ++ bytes32 m.flow := by
    rw [hdone, MqMsg.enc, List.take_left' (msg_head_length _ _), msg_head]
  -- the header read is the one written
  have hlen : read32 (sHead.take 4) = u32 m.data.length + C_HEAD_SIZE := by
    rw [hsHead, List.take_left' (bytes32_length _), read32_bytes32]
  have hflow : read32 (sHead.drop 4) = m.flow := by
    rw [hsHead, List.drop_left' (bytes32_length _), read32_bytes32]
  have hsub : u32 m.data.length + C_HEAD_SIZE - C_HEAD_SIZE = u32 m.data.length :=
    UInt32.add_sub_cancel _ _
  have hfits : ¬ u32 m.data.length > buf_size := by
    rw [gt_iff_lt, UInt32.lt_iff_toNat_lt, hdata]
    have := hm.fits
    omega
  have hnextle : next.toNat ≤ s.mq.block_size.toNat := by
    rw [hnext]
    exact advance_le hhead (by omega)
  obtain ⟨htodo', hnext'⟩ := read_data_eq (u32 m.data.length) (by omega) hnextle (by omega)
  unfold reader_step
  rw [hpc]
  simp only [hlen, hflow, hsub]
  rw [if_pos (by rw [UInt32.le_iff_toNat_le, htotal]; omega), if_neg hfits]
  refine ⟨hsize, hhist, hok, hhead, hroom, htail, hcont, hwriter, ?_, hfault⟩
  refine ⟨m, later, hq, rfl, ?_, 0, Nat.zero_le _, ?_, by simp⟩
  · rw [hnext', hnext, hdata, advance_advance hhead (by omega)]
    rfl
  · rw [htodo', hdata, hnext, addrs_advance, List.drop_zero]

/-- One byte of the data. -/
theorem MqInv.read_payload {flow : UInt32} {i : Nat} {todo : List Nat} {buf : List UInt8}
    {next : UInt32} (h : MqInv buf_size s q)
    (hpc : s.reader = .payload flow (i :: todo) buf next) :
    MqInv buf_size (reader_step buf_size s) q := by
  have hr := h.reader
  rw [hpc] at hr
  obtain ⟨m, later, hq, hflow, hnext, k, hk, htodo, hdone⟩ := hr
  have hklt : k < m.data.length := by
    by_contra hge
    rw [List.drop_of_length_le (by rw [addrs_length]; omega)] at htodo
    cases htodo
  have hdrop := List.drop_eq_getElem_cons
    (l := addrs s.mq.block_size.toNat (s.mq.head.toNat + 8) m.data.length)
    (i := k) (by rw [addrs_length]; exact hklt)
  rw [← htodo] at hdrop
  obtain ⟨hcell, htodo'⟩ := List.cons.inj hdrop
  have hcell' : i = (s.mq.head.toNat + (8 + k)) % s.mq.block_size.toNat := by
    simpa [addrs, Nat.add_assoc] using hcell
  subst hcell'
  have hkm : 8 + k < m.total := by unfold MqMsg.total; omega
  have hbyte := h.first_byte hq hkm
  have hget : m.enc.get ⟨8 + k, by rw [m.enc_length]; exact hkm⟩ = m.data[k] := by
    simp only [MqMsg.enc, List.get_eq_getElem]
    rw [List.getElem_append_right (by simp)]
    simp
  have haccess := s.access_mod (s.mq.head.toNat + (8 + k)) (by have := h.room; omega)
  obtain ⟨hsize, hhist, hok, hhead, hroom, htail, hcont, hwriter, -, hfault⟩ := h
  unfold reader_step
  rw [hpc]
  simp only [haccess]
  refine ⟨hsize, hhist, hok, hhead, hroom, htail, hcont, hwriter, ?_, hfault⟩
  refine ⟨m, later, hq, hflow, hnext, k + 1, hklt, htodo', ?_⟩
  rw [hdone, hbyte, hget, List.take_append_getElem]

/-- The new `head` is stored: the first message is consumed as it was written. -/
theorem MqInv.read_publish {flow : UInt32} {buf : List UInt8} {next : UInt32}
    (h : MqInv buf_size s q) (hpc : s.reader = .payload flow [] buf next) :
    MqInv buf_size (reader_step buf_size s) q.tail := by
  have hr := h.reader
  rw [hpc] at hr
  obtain ⟨m, later, hq, hflow, hnext, k, hk, htodo, hdone⟩ := hr
  -- no byte of the data is left to read
  have hkeq : k = m.data.length := by
    have := congrArg List.length htodo
    rw [List.length_drop, addrs_length, List.length_nil] at this
    omega
  subst hkeq hq
  rw [List.take_length] at hdone
  subst hdone hflow
  obtain ⟨hsize, hhist, hok, hhead, hroom, htail, hcont, hwriter, -, hfault⟩ := h
  rw [total_cons] at hroom htail hcont hwriter
  unfold reader_step
  rw [hpc, List.tail_cons]
  refine ⟨hsize, ?_, ?_, ?_, ?_, ?_, ?_, ?_, ?_, hfault⟩
  · show s.accepted = s.received ++ [m] ++ later
    rw [hhist, List.append_assoc]
    rfl
  · intro m' hm'
    exact hok m' (List.mem_cons_of_mem _ hm')
  · show next.toNat ≤ s.mq.block_size.toNat
    rw [hnext]
    exact advance_le hhead (by omega)
  · show total later < s.mq.block_size.toNat
    omega
  · show s.mq.tail.toNat = advance s.mq.block_size.toNat next.toNat (total later)
    rw [htail, hnext, advance_advance hhead (by omega)]
  · -- the window behind the first message holds the others
    show window s.mq.block s.mq.block_size.toNat next.toNat (total later) = _
    rw [hnext, window_advance]
    rw [window_append, List.flatMap_cons] at hcont
    have hlen : (window s.mq.block s.mq.block_size.toNat s.mq.head.toNat m.total).length
        = m.enc.length := by
      rw [window_length, m.enc_length]
    exact (List.append_inj hcont hlen).2
  · exact hwriter.mono (by omega) rfl rfl rfl
  · intro r hr
    cases hr
    rfl

/-- Whatever the consumer does next, the queue stays in order. -/
theorem MqInv.read (h : MqInv buf_size s q) :
    ∃ q', MqInv buf_size (reader_step buf_size s) q' := by
  cases hpc : s.reader with
  | idle ret =>
    refine ⟨q, ?_⟩
    unfold reader_step
    rw [hpc]
    exact h
  | loaded head tail => exact ⟨q, h.read_loaded hpc⟩
  | header ul todo sHead next =>
    cases todo with
    | nil => exact ⟨q, h.read_parse hpc⟩
    | cons i todo => exact ⟨q, h.read_header hpc⟩
  | payload flow todo buf next =>
    cases todo with
    | nil => exact ⟨q.tail, h.read_publish hpc⟩
    | cons i todo => exact ⟨q, h.read_payload hpc⟩

/-! ## Section 4: All interleavings -/

/-- Any step of either side keeps the queue in order. -/
theorem MqInv.step {a : MqAction} (h : MqInv buf_size s q) (hstep : MqStep buf_size s a s') :
    ∃ q', MqInv buf_size s' q' := by
  cases hstep with
  | enqueue hpc hpos hshort hfits => exact ⟨q, h.enqueue ⟨hpos, hshort, hfits⟩⟩
  | write => exact h.write
  | dequeue hpc => exact ⟨q, h.dequeue⟩
  | read => exact h.read

end Usnet
