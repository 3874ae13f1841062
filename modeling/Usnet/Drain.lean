import Usnet.Flush
import Usnet.Life
import Usnet.Lib.Pieces

/-! # What the send loop sends

    `usnet_flush_tcp_sendbuf` cuts a segment at the segment size, at the bytes
    buffered, and at the distance from `tail`, not from `head`, to the end of
    the ring.
-/

namespace Usnet

open CInt Circular

/-! ## Section 1: The ring and what is unsent -/

/-- `sent_head` is the position of `snd_nxt`, which is not behind the data. -/
structure SentTo (buf : UsnSendbuf) (snd_nxt : UInt32) : Prop where
  within : ahead buf.head_seq snd_nxt ≤ buf.bytes
  position : buf.sent_head.toNat ≡ buf.head.toNat + ahead buf.head_seq snd_nxt
    [MOD buf.size.toNat]

/-- The bytes between `snd_nxt` and the end of the data. -/
def UsnSendbuf.unsent (buf : UsnSendbuf) (snd_nxt : UInt32) : Nat :=
  buf.bytes - ahead buf.head_seq snd_nxt

/-- A ring ready to be flushed: both windows hold what is unsent, and every
    attempt to send will succeed. -/
structure FlushReady (s : Conn) (buf : UsnSendbuf) : Prop where
  sndbuf : s.tcb.sndvar.sndbuf = some buf
  size_le : buf.size.toNat ≤ INT_MAX
  indices : buf.head.toNat ≤ buf.size.toNat ∧ buf.sent_head.toNat ≤ buf.size.toNat ∧
    buf.tail.toNat ≤ buf.size.toNat
  sent : SentTo buf s.tcb.snd_nxt
  mss : 12 < s.tcb.sndvar.mss.toNat ∧ s.tcb.sndvar.mss.toNat ≤ 1460
  windows : ahead s.tcb.sndvar.snd_una s.tcb.snd_nxt + buf.unsent s.tcb.snd_nxt
    ≤ min s.tcb.sndvar.cwnd.toNat s.tcb.sndvar.peer_wnd.toNat
  tx : buf.unsent s.tcb.snd_nxt ≤ s.ctx.tx.length ∧ ∀ ok ∈ s.ctx.tx, ok = true

/-- Segments whose numbers follow one another. -/
def consecutive : UInt32 → List Frame → Prop
  | _, [] => True
  | seq, f :: fs => f.seq = seq ∧ consecutive (seq + u32 f.payload.length) fs

/-- The pieces of the ring, as offset and length, that the turns of the loop
    hand to `usnet_send_tcp_packet` before they go on. -/
def flush_reads (maxlen window tail : UInt32) :
    Nat → Conn → UsnSendbuf → UInt32 → List (Nat × Nat)
  | 0, _, _, _ => []
  | fuel + 1, s, buf, head =>
    match flush_turn s buf maxlen window head tail 0 with
    | .ok (.again s' buf' head') =>
      (head.toNat, (flush_len buf maxlen (buffered buf.size head tail)).toNat) ::
        flush_reads maxlen window tail fuel s' buf' head'
    | _ => []

/-- `maxlen` of `usnet_flush_tcp_sendbuf`. -/
def flush_maxlen (tcb : UsnTcb) : UInt32 :=
  tcb.sndvar.mss.toUInt32 - (usnet_get_tcpopt_length TH_ACK).toUInt32

/-- The reads of `usnet_flush_tcp_sendbuf`. -/
def usnet_flush_reads (s : Conn) (buf : UsnSendbuf) : List (Nat × Nat) :=
  if buf.head = buf.tail then []
  else
    flush_reads (flush_maxlen s.tcb) (min s.tcb.sndvar.cwnd s.tcb.sndvar.peer_wnd) buf.tail
      (buf.size.toNat + 1) s buf buf.sent_head

/-- The flush returns, its segments carry consecutive numbers from `snd_nxt` on
    and together exactly the unsent bytes of the ring, every byte read lies
    inside the ring, and nothing unsent is left. -/
structure FlushesAll (s : Conn) (buf : UsnSendbuf) : Prop where
  sends : ∃ s' fs buf', usnet_flush_tcp_sendbuf s = .ok ((fs.length : Int), s') ∧
    s'.ctx.frames = s.ctx.frames ++ fs ∧ consecutive s.tcb.snd_nxt fs ∧
    fs.flatMap Frame.payload = Circular.window buf.data_ptr buf.size.toNat
      buf.sent_head.toNat (buf.unsent s.tcb.snd_nxt) ∧
    s'.tcb.sndvar.sndbuf = some buf' ∧ SentTo buf' s'.tcb.snd_nxt ∧
    buf'.unsent s'.tcb.snd_nxt = 0
  inside : Inside buf.size.toNat (usnet_flush_reads s buf)

/-- Where the cuts fall right: nothing is unsent, or `tail` is not at the end of
    the ring and the unsent bytes do not pass the end, or pass it between two
    segments of the length the loop cuts. -/
def cuts_right (tcb : UsnTcb) (buf : UsnSendbuf) : Prop :=
  buf.unsent tcb.snd_nxt = 0 ∨
  buf.tail.toNat < buf.size.toNat ∧ buf.sent_head.toNat < buf.size.toNat ∧
    (buf.sent_head.toNat + buf.unsent tcb.snd_nxt ≤ buf.size.toNat ∨
      min (tcb.sndvar.mss.toNat - 12) (buf.size.toNat - buf.tail.toNat) ∣
        buf.size.toNat - buf.sent_head.toNat)

/-! ## Section 2: The machine's numbers -/

theorem buffered_toNat {size head tail : UInt32} (hsize : size.toNat ≤ INT_MAX)
    (hhead : head.toNat ≤ size.toNat) :
    (buffered size head tail).toNat = if head.toNat ≤ tail.toNat then tail.toNat - head.toNat
      else size.toNat + tail.toNat - head.toNat := by
  unfold INT_MAX at hsize
  unfold buffered
  simp only [ge_iff_le, UInt32.le_iff_toNat_le]
  split
  · exact sub_toNat_of_le ‹_›
  · have hadd : (size + tail).toNat = size.toNat + tail.toNat := add_toNat_of_lt (by omega)
    rw [sub_toNat_of_le (by omega), hadd]

theorem flush_len_toNat {buf : UsnSendbuf} {maxlen n : UInt32}
    (hsize : buf.size.toNat ≤ INT_MAX) (htail : buf.tail.toNat ≤ buf.size.toNat)
    (hmax : maxlen.toNat < 2 ^ 16) :
    (flush_len buf maxlen n).toNat
      = min (min maxlen.toNat n.toNat) (buf.size.toNat - buf.tail.toNat) := by
  unfold INT_MAX at hsize
  have hsub := sub_toNat_of_le htail
  have htl : sint (buf.size - buf.tail) = ((buf.size.toNat - buf.tail.toNat : Nat) : Int) := by
    rw [sint_of_lt (by omega), hsub]
  have hlen : (if n > maxlen then maxlen.toUInt16 else n.toUInt16).toNat
      = min maxlen.toNat n.toNat := by
    simp only [gt_iff_lt, UInt32.lt_iff_toNat_lt]
    split
    · rw [UInt32.toNat_toUInt16]
      omega
    · rw [UInt32.toNat_toUInt16]
      omega
  unfold flush_len
  simp only [hlen, htl]
  split
  · rw [toNat_u16_of_lt (by omega)]
    omega
  · rw [hlen]
    omega

theorem next_head_toNat {size head : UInt32} {n : Nat} (hsize : size.toNat ≤ INT_MAX)
    (hhead : head.toNat ≤ size.toNat) (hn : n ≤ size.toNat) :
    (next_head size head n).toNat = wrap size.toNat (head.toNat + n) := by
  unfold INT_MAX at hsize
  have hu : (u32 n).toNat = n := toNat_u32_of_lt (by omega)
  have hadd : (head + u32 n).toNat = head.toNat + n := by
    rw [add_toNat_of_lt (by omega), hu]
  unfold next_head wrap
  simp only [ge_iff_le, UInt32.le_iff_toNat_le, hadd]
  split
  · rw [sub_toNat_of_le (by omega), hadd]
  · exact hadd

theorem flush_maxlen_toNat {tcb : UsnTcb} (h : 12 < tcb.sndvar.mss.toNat) :
    (flush_maxlen tcb).toNat = tcb.sndvar.mss.toNat - 12 := by
  have hopt : (usnet_get_tcpopt_length TH_ACK).toUInt32 = 12 := by decide
  unfold flush_maxlen
  rw [hopt, sub_toNat_of_le]
  · rw [UInt16.toNat_toUInt32]
    rfl
  · rw [UInt16.toNat_toUInt32]
    exact Nat.le_of_lt h

/-! ## Section 3: One turn -/

@[simp] theorem note_header_tx (s : Conn) (flags : UInt8) :
    (note_header s flags).ctx.tx = s.ctx.tx := by
  have hwnd : ∀ t, (note_window t flags).ctx = t.ctx := by
    intro t
    unfold note_window
    simp only
    split
    all_goals split
    all_goals rfl
  have hfin : (note_fin s flags).ctx = s.ctx := by
    unfold note_fin
    split
    · rfl
    · split <;> rfl
  unfold note_header note_ack usnet_update_timeout_list
  rw [hwnd]
  split
  · split <;> simp [hfin]
  · rw [hfin]

@[simp] theorem arm_rto_tx (s : Conn) (payloadlen : Int) :
    (arm_rto s payloadlen).ctx.tx = s.ctx.tx := by
  unfold arm_rto usnet_add_rto_list
  by_cases hlen : payloadlen > 0
  · rw [if_pos hlen]
    simp only
    split
    · split
      · split <;> rfl
      · rfl
    · split
      · split <;> rfl
      · rfl
  · rw [if_neg hlen]

/-- A packet that fits goes out when the interface takes it. -/
theorem usnet_send_tcp_packet_out {s : Conn} {flags : UInt8} {payload : List UInt8}
    {tx : List Bool} (hlen : payload.length ≤ s.tcb.sndvar.mss.toNat)
    (htx : s.ctx.tx = true :: tx) :
    0 ≤ (usnet_send_tcp_packet s flags payload).1 ∧
    (usnet_send_tcp_packet s flags payload).2.ctx.tx = tx := by
  have hok : (usnet_ipv4_output s.ctx).1 = true := by
    unfold usnet_ipv4_output
    rw [htx]
  have hsynfin : 0 ≤ synfin flags := by
    unfold synfin
    split <;> decide
  unfold usnet_send_tcp_packet
  simp only
  rw [if_neg (by omega), if_neg (by rw [hok]; decide)]
  refine ⟨?_, by simp [transmit, htx]⟩
  simp only [transmit, tcp_packet]
  omega

/-- What a turn that goes on has done. -/
structure TurnSent (s : Conn) (buf : UsnSendbuf) (head : UInt32) (len : Nat) (s' : Conn)
    (buf' : UsnSendbuf) (head' : UInt32) : Prop where
  frame : ∃ f, s'.ctx.frames = s.ctx.frames ++ [f] ∧ f.seq = s.tcb.snd_nxt ∧
    f.payload = slice buf.data_ptr head.toNat len
  snd_nxt : s'.tcb.snd_nxt = s.tcb.snd_nxt + u32 len
  sndbuf : buf' = { buf with sent_head := head' } ∧ s'.tcb.sndvar.sndbuf = some buf'
  head : head' = next_head buf.size head len
  tx : s'.ctx.tx = s.ctx.tx.tail
  kept : s'.tcb.sndvar.mss = s.tcb.sndvar.mss ∧ s'.tcb.sndvar.snd_una = s.tcb.sndvar.snd_una

/-- A turn whose packet goes out goes on. -/
theorem send_turn_sends {s : Conn} (buf : UsnSendbuf) (head : UInt32) {len : UInt16}
    {tx : List Bool} (hlen : len.toNat ≤ s.tcb.sndvar.mss.toNat) (hshort : len.toNat < 2 ^ 15)
    (htx : s.ctx.tx = true :: tx) :
    ∃ s' buf' head', send_turn s buf head len = .again s' buf' head' ∧
      TurnSent s buf head len.toNat s' buf' head' := by
  obtain ⟨data, hdata⟩ : ∃ l, l = slice buf.data_ptr head.toNat len.toNat := ⟨_, rfl⟩
  have hdlen : data.length = len.toNat := by rw [hdata, slice_length]
  obtain ⟨hnonneg, htx'⟩ := @usnet_send_tcp_packet_out s TH_ACK data tx
    (hdlen ▸ hlen) htx
  rcases usnet_send_tcp_packet_cases s TH_ACK data with ⟨hr, -⟩ | ⟨hr, hnxt, hframes⟩
  · omega
  simp only [synfin_ack, add_zero, hdlen] at hr hnxt
  have hs16 : s16 (len.toNat : Int) = len.toNat := s16_of_lt (by omega) (by omega)
  obtain ⟨buf', hbuf'⟩ :
      ∃ b, b = { buf with sent_head := next_head buf.size head len.toNat } := ⟨_, rfl⟩
  have hturn : send_turn s buf head len
      = .again ((usnet_send_tcp_packet s TH_ACK data).2.onSnd fun v =>
          { v with sndbuf := some buf' }) buf' (next_head buf.size head len.toNat) := by
    unfold send_turn
    simp only [← hdata, hr, hs16, hbuf']
    exact if_neg (Int.not_lt.mpr (Int.natCast_nonneg _))
  have hwack : has TH_ACK TH_WACK = false := rfl
  have hfin : has TH_ACK TH_FIN = false := rfl
  refine ⟨_, _, _, hturn, ⟨_, hframes, ?_, ?_⟩, hnxt, ⟨hbuf', rfl⟩, rfl, ?_, ?_⟩
  · simp [tcp_packet, hwack, hfin]
  · exact hdata
  · rw [htx]
    exact htx'
  · simp

/-- The state in which the loop goes on sending `n` bytes from `head` on. -/
structure Draining (maxlen window : UInt32) (s : Conn) (buf : UsnSendbuf) (head : UInt32)
    (n : Nat) : Prop where
  size_le : buf.size.toNat ≤ INT_MAX
  head_le : head.toNat ≤ buf.size.toNat
  tail_lt : buf.tail.toNat < buf.size.toNat
  unsent : n = (buffered buf.size head buf.tail).toNat
  maxlen : 0 < maxlen.toNat ∧ maxlen.toNat ≤ 1448 ∧ maxlen.toNat ≤ s.tcb.sndvar.mss.toNat
  number : ahead buf.head_seq s.tcb.snd_nxt + n ≤ INT_MAX
  window : ahead s.tcb.sndvar.snd_una s.tcb.snd_nxt + n ≤ window.toNat
  tx : n ≤ s.ctx.tx.length ∧ ∀ ok ∈ s.ctx.tx, ok = true

/-- The length the loop cuts. -/
def cut (maxlen : UInt32) (buf : UsnSendbuf) : Nat :=
  min maxlen.toNat (buf.size.toNat - buf.tail.toNat)

theorem Draining.cut_pos {maxlen window : UInt32} {s : Conn} {buf : UsnSendbuf} {head : UInt32}
    {n : Nat} (h : Draining maxlen window s buf head n) : 0 < cut maxlen buf := by
  have := h.maxlen.1
  have := h.tail_lt
  unfold cut
  omega

theorem Draining.len {maxlen window : UInt32} {s : Conn} {buf : UsnSendbuf} {head : UInt32}
    {n : Nat} (h : Draining maxlen window s buf head n) :
    (flush_len buf maxlen (buffered buf.size head buf.tail)).toNat = min (cut maxlen buf) n := by
  have := h.maxlen.2.1
  rw [flush_len_toNat h.size_le (by have := h.tail_lt; omega) (by omega), ← h.unsent]
  unfold cut
  omega

theorem Draining.unsent_le {maxlen window : UInt32} {s : Conn} {buf : UsnSendbuf}
    {head : UInt32} {n : Nat} (h : Draining maxlen window s buf head n) :
    n ≤ buf.size.toNat := by
  have hlt := h.tail_lt
  have hn := h.unsent
  have hhead := h.head_le
  rw [buffered_toNat h.size_le hhead] at hn
  split at hn <;> omega

/-- While something is unsent a turn sends and goes on. -/
theorem flush_turn_sends {maxlen window : UInt32} {s : Conn} {buf : UsnSendbuf}
    {head : UInt32} {n : Nat} (h : Draining maxlen window s buf head n) (hn : 0 < n) :
    ∃ s' buf' head',
      (∀ packets, flush_turn s buf maxlen window head buf.tail packets
        = .ok (.again s' buf' head')) ∧
      TurnSent s buf head (min (cut maxlen buf) n) s' buf' head' := by
  have hlen := h.len
  have hcut := h.cut_pos
  have hnum := h.number
  have hwin := h.window
  have h32 := window.toNat_lt
  unfold INT_MAX at hnum
  have hcutle : cut maxlen buf ≤ maxlen.toNat := Nat.min_le_left ..
  have hmaxlen := h.maxlen
  generalize hl : flush_len buf maxlen (buffered buf.size head buf.tail) = len at hlen
  -- the four tests of the turn
  have hseq : ¬ TCP_SEQ_LT s.tcb.snd_nxt buf.head_seq := by
    have : sint (s.tcb.snd_nxt - buf.head_seq) = (ahead buf.head_seq s.tcb.snd_nxt : Int) :=
      sint_of_lt (by unfold ahead at hnum; omega)
    omega
  have hbuffered : buffered buf.size head buf.tail ≠ 0 := by
    intro h0
    have hz := h.unsent
    rw [h0] at hz
    have : (0 : UInt32).toNat = 0 := rfl
    omega
  have hlen0 : len ≠ 0 := by
    rintro rfl
    have : (0 : UInt16).toNat = 0 := rfl
    omega
  have hwindow : ¬ s.tcb.snd_nxt - s.tcb.sndvar.snd_una + len.toUInt32 > window := by
    have hto : len.toUInt32.toNat = len.toNat := UInt16.toNat_toUInt32 _
    have hadd : (s.tcb.snd_nxt - s.tcb.sndvar.snd_una + len.toUInt32).toNat
        = ahead s.tcb.sndvar.snd_una s.tcb.snd_nxt + len.toNat := by
      rw [add_toNat_of_lt (by unfold ahead at hwin; omega), hto]
      rfl
    rw [gt_iff_lt, UInt32.lt_iff_toNat_lt, hadd]
    omega
  have hturn : ∀ packets, flush_turn s buf maxlen window head buf.tail packets
      = .ok (send_turn s buf head len) := by
    intro packets
    unfold flush_turn
    simp only
    rw [if_neg hseq, if_neg hbuffered, hl, if_neg hlen0, if_neg hwindow]
  obtain ⟨tx, htx⟩ : ∃ tx, s.ctx.tx = true :: tx := by
    obtain ⟨htxlen, hall⟩ := h.tx
    cases htx : s.ctx.tx with
    | nil =>
      rw [htx] at htxlen
      have : ([] : List Bool).length = 0 := rfl
      omega
    | cons ok tx =>
      have hok : ok = true := hall ok (by rw [htx]; exact List.mem_cons_self ..)
      exact ⟨tx, by rw [hok]⟩
  obtain ⟨s', buf', head', hsend, hsent⟩ :=
    @send_turn_sends _ buf head len _ (by omega) (by omega) htx
  exact ⟨s', buf', head', fun packets => by rw [hturn, hsend], hlen ▸ hsent⟩

/-- The loop can go on with what is left. -/
theorem Draining.next {maxlen window : UInt32} {s s' : Conn} {buf buf' : UsnSendbuf}
    {head head' : UInt32} {n : Nat} (h : Draining maxlen window s buf head n)
    (hsent : TurnSent s buf head (min (cut maxlen buf) n) s' buf' head') :
    head'.toNat = wrap buf.size.toNat (head.toNat + min (cut maxlen buf) n) ∧
    Draining maxlen window s' buf' head' (n - min (cut maxlen buf) n) := by
  obtain ⟨-, hnxt, ⟨rfl, -⟩, hhead, htx, hmss, huna⟩ := hsent
  have hle := h.unsent_le
  have hhle := h.head_le
  have htail := h.tail_lt
  have hpos := h.cut_pos
  have hnum := h.number
  have hwin := h.window
  have h32 := window.toNat_lt
  have hmn : min (cut maxlen buf) n ≤ n := Nat.min_le_right ..
  have hmpos : 0 < n → 0 < min (cut maxlen buf) n := fun hn => by omega
  -- what the turn has sent
  generalize min (cut maxlen buf) n = m at *
  unfold INT_MAX at hnum
  have hto : head'.toNat = wrap buf.size.toNat (head.toNat + m) := by
    rw [hhead]
    exact next_head_toNat h.size_le hhle (by omega)
  have hwle : wrap buf.size.toNat (head.toNat + m) ≤ buf.size.toNat := wrap_le (by omega)
  refine ⟨hto, h.size_le, by rw [hto]; exact hwle, htail, ?_, ?_, ?_, ?_, ?_⟩
  · -- the bytes left are again those from the new `head` to `tail`
    have hun := h.unsent
    rw [buffered_toNat h.size_le hhle] at hun
    show n - m = (buffered buf.size head' buf.tail).toNat
    rw [buffered_toNat h.size_le (by rw [hto]; exact hwle), hto, hun]
    exact (span_wrap hhle htail (hmn.trans (Nat.le_of_eq hun))).symm
  · rw [hmss]
    exact h.maxlen
  · have hadd := ahead_add_right (a := buf.head_seq) (b := s.tcb.snd_nxt) (n := m) (by omega)
    show ahead buf.head_seq s'.tcb.snd_nxt + (n - m) ≤ INT_MAX
    rw [hnxt, hadd]
    unfold INT_MAX
    omega
  · have hadd := ahead_add_right (a := s.tcb.sndvar.snd_una) (b := s.tcb.snd_nxt) (n := m)
      (by omega)
    rw [hnxt, huna, hadd]
    omega
  · obtain ⟨htxlen, hall⟩ := h.tx
    rw [htx, List.length_tail]
    refine ⟨?_, fun ok hok => hall ok (List.mem_of_mem_tail hok)⟩
    by_cases hn : 0 < n
    · have := hmpos hn
      omega
    · omega

/-! ## Section 4: The loop -/

/-- What the loop has done when everything is sent. -/
structure Drained (s : Conn) (buf : UsnSendbuf) (l : List (Nat × Nat)) (n : Nat) (head : Nat)
    (fs : List Frame) (s' : Conn) (buf' : UsnSendbuf) : Prop where
  frames : s'.ctx.frames = s.ctx.frames ++ fs ∧ consecutive s.tcb.snd_nxt fs
  payload : fs.map Frame.payload = l.map fun q => slice buf.data_ptr q.1 q.2
  snd_nxt : s'.tcb.snd_nxt = s.tcb.snd_nxt + u32 n
  sndbuf : (∃ sent_head, buf' = { buf with sent_head := sent_head }) ∧
    s'.tcb.sndvar.sndbuf = some buf'
  sent_head : buf'.sent_head.toNat ≡ head + n [MOD buf.size.toNat]

theorem flush_loop_drains {maxlen window : UInt32} (fuel : Nat) {s : Conn} {buf : UsnSendbuf}
    {head : UInt32} {n : Nat} (hbuf : s.tcb.sndvar.sndbuf = some buf)
    (hhead : buf.sent_head = head) (h : Draining maxlen window s buf head n) (hfuel : n < fuel)
    (packets : Int) :
    flush_reads maxlen window buf.tail fuel s buf head
      = pieces buf.size.toNat (cut maxlen buf) head.toNat n ∧
    ∃ fs s' buf',
      flush_loop maxlen window buf.tail fuel s buf head packets
        = .ok (packets + fs.length, s') ∧
      Drained s buf (pieces buf.size.toNat (cut maxlen buf) head.toNat n) n head.toNat fs s'
        buf' := by
  -- on the turns; `Draining` says that the next one sends again or finds nothing left
  induction fuel generalizing s buf head n packets with
  | zero => omega
  | succ fuel ih =>
    by_cases hn : 0 < n
    · obtain ⟨s₁, buf₁, head₁, hturn, hsent⟩ := flush_turn_sends h hn
      obtain ⟨hto, hnext⟩ := h.next hsent
      have hcut := h.cut_pos
      have hlen := h.len
      obtain ⟨⟨f, hframes, hseq, hpayload⟩, hnxt, ⟨rfl, hbuf₁⟩, -, -, -⟩ := hsent
      have hm : 0 < min (cut maxlen buf) n := by omega
      obtain ⟨hreads, fs, s', buf', hloop, hdrained⟩ :=
        ih hbuf₁ rfl hnext (by omega) (packets + 1)
      generalize hrest : pieces buf.size.toNat (cut maxlen buf) head₁.toNat
        (n - min (cut maxlen buf) n) = rest at *
      have hpieces : pieces buf.size.toNat (cut maxlen buf) head.toNat n
          = (head.toNat, min (cut maxlen buf) n) :: rest := by
        rw [pieces_pos hcut hn, ← hto, hrest]
      rw [hpieces]
      unfold flush_reads flush_loop
      rw [hturn 0, hturn packets]
      refine ⟨?_, f :: fs, s', buf', ?_, ?_⟩
      · simp only [hlen]
        exact congrArg _ (hreads.trans hrest)
      · refine hloop.trans ?_
        rw [List.length_cons]
        congr 2
        push_cast
        ring
      · obtain ⟨⟨hfs, hcons⟩, hpay, hnxt', ⟨⟨p, hp⟩, hbuf'⟩, hsent'⟩ := hdrained
        have hflen : f.payload.length = min (cut maxlen buf) n := by rw [hpayload, slice_length]
        refine ⟨⟨?_, hseq, ?_⟩, ?_, ?_, ⟨⟨p, hp⟩, hbuf'⟩, ?_⟩
        · rw [hfs, hframes, List.append_assoc]
          rfl
        · rw [hflen, ← hnxt]
          exact hcons
        · rw [List.map_cons, List.map_cons, hpayload]
          exact congrArg _ (hpay.trans (congrArg (List.map _) hrest))
        · rw [hnxt', hnxt, UInt32.add_assoc, ← u32_natCast_add]
          congr 2
          omega
        · -- modulo the size the new position is the old one and the bytes sent
          refine hsent'.trans ?_
          rw [hto]
          refine ((wrap_modEq _ _).add_right _).trans ?_
          rw [show head.toNat + min (cut maxlen buf) n + (n - min (cut maxlen buf) n)
            = head.toNat + n by omega]
    -- nothing is left between `head` and `tail`, and the loop stops
    · obtain rfl : n = 0 := by omega
      have hbuffered : buffered buf.size head buf.tail = 0 :=
        UInt32.toNat_inj.mp h.unsent.symm
      have hseq : ¬ TCP_SEQ_LT s.tcb.snd_nxt buf.head_seq := by
        have hnum := h.number
        unfold INT_MAX at hnum
        have : sint (s.tcb.snd_nxt - buf.head_seq) = (ahead buf.head_seq s.tcb.snd_nxt : Int) :=
          sint_of_lt (by unfold ahead at hnum; omega)
        omega
      have hturn : ∀ packets, flush_turn s buf maxlen window head buf.tail packets
          = .ok (.stop packets s) := by
        intro packets
        unfold flush_turn
        simp only
        rw [if_neg hseq, if_pos hbuffered]
      rw [pieces_zero]
      unfold flush_reads flush_loop
      rw [hturn 0, hturn packets]
      refine ⟨rfl, [], s, buf, by simp, ⟨by simp, trivial⟩, rfl, by simp, ⟨⟨_, rfl⟩, hbuf⟩, ?_⟩
      rw [hhead]
      rfl

/-! ## Section 5: The whole flush -/

theorem bytes_eq_span (buf : UsnSendbuf) :
    buf.bytes = span buf.size.toNat buf.head.toNat buf.tail.toNat := rfl

theorem min_toNat (a b : UInt32) : (min a b).toNat = min a.toNat b.toNat := by
  have hmin : min a b = if a ≤ b then a else b := rfl
  rw [hmin]
  split <;> rename_i h <;> rw [UInt32.le_iff_toNat_le] at h <;> omega

theorem FlushReady.number {s : Conn} {buf : UsnSendbuf} (h : FlushReady s buf) :
    ahead buf.head_seq s.tcb.snd_nxt + buf.unsent s.tcb.snd_nxt ≤ INT_MAX := by
  have hsize := h.size_le
  have hwithin := h.sent.within
  have hle : buf.bytes ≤ buf.size.toNat := span_le h.indices.2.2
  unfold UsnSendbuf.unsent
  omega

theorem FlushReady.seq {s : Conn} {buf : UsnSendbuf} (h : FlushReady s buf) :
    ¬ TCP_SEQ_LT s.tcb.snd_nxt buf.head_seq := by
  have hnum := h.number
  unfold INT_MAX at hnum
  have : sint (s.tcb.snd_nxt - buf.head_seq) = (ahead buf.head_seq s.tcb.snd_nxt : Int) :=
    sint_of_lt (by unfold ahead at hnum; omega)
  omega

/-- Unless `tail` rests at the end, the loop counts what is unsent. -/
theorem FlushReady.unsent_eq {s : Conn} {buf : UsnSendbuf} (h : FlushReady s buf)
    (htail : buf.tail.toNat < buf.size.toNat) :
    buf.unsent s.tcb.snd_nxt = (buffered buf.size buf.sent_head buf.tail).toNat := by
  obtain ⟨hhead, hsent, htle⟩ := h.indices
  obtain ⟨hwithin, hpos⟩ := h.sent
  rw [buffered_toNat h.size_le hsent]
  show _ = span buf.size.toNat buf.sent_head.toNat buf.tail.toNat
  have hbytes : buf.bytes < buf.size.toNat := span_lt htail
  have hunsent : buf.sent_head.toNat + buf.unsent s.tcb.snd_nxt ≡ buf.tail.toNat
      [MOD buf.size.toNat] := by
    refine (hpos.add_right _).trans ?_
    unfold UsnSendbuf.unsent
    rw [Nat.add_assoc, Nat.add_sub_cancel' hwithin]
    exact span_modEq hhead
  refine Nat.ModEq.eq_of_lt_of_lt (m := buf.size.toNat) ?_ ?_ (span_lt htail)
  · exact Nat.ModEq.add_left_cancel' _ (hunsent.trans (span_modEq hsent).symm)
  · unfold UsnSendbuf.unsent
    omega

theorem FlushReady.draining {s : Conn} {buf : UsnSendbuf} (h : FlushReady s buf)
    (htail : buf.tail.toNat < buf.size.toNat) :
    Draining (flush_maxlen s.tcb) (min s.tcb.sndvar.cwnd s.tcb.sndvar.peer_wnd) s buf
      buf.sent_head (buf.unsent s.tcb.snd_nxt) := by
  obtain ⟨hmss, hmss'⟩ := h.mss
  refine ⟨h.size_le, h.indices.2.1, htail, h.unsent_eq htail, ?_, h.number, ?_, h.tx⟩
  · rw [flush_maxlen_toNat hmss]
    omega
  · rw [min_toNat]
    exact h.windows

/-- A ring without data is left alone. -/
theorem FlushReady.empty {s : Conn} {buf : UsnSendbuf} (h : FlushReady s buf)
    (hempty : buf.head = buf.tail) :
    usnet_flush_tcp_sendbuf s = .ok (0, s) ∧ usnet_flush_reads s buf = [] := by
  unfold usnet_flush_tcp_sendbuf usnet_flush_reads
  rw [h.sndbuf]
  simp only
  rw [if_pos hempty, if_pos hempty]
  exact ⟨rfl, rfl⟩

/-- With `tail` at the end of the ring nothing is sent. -/
theorem FlushReady.stuck {s : Conn} {buf : UsnSendbuf} (h : FlushReady s buf)
    (htail : buf.tail.toNat = buf.size.toNat) :
    usnet_flush_tcp_sendbuf s = .ok (0, s) ∧ usnet_flush_reads s buf = [] := by
  by_cases hempty : buf.head = buf.tail
  · exact h.empty hempty
  · unfold usnet_flush_tcp_sendbuf usnet_flush_reads
    rw [h.sndbuf]
    simp only
    rw [if_neg hempty, if_neg hempty]
    have hmax := flush_maxlen_toNat h.mss.1
    have hmss := h.mss.2
    -- the distance from `tail` to the end of the ring is zero
    have hlen : flush_len buf (flush_maxlen s.tcb) (buffered buf.size buf.sent_head buf.tail)
        = 0 := by
      rw [← UInt16.toNat_inj, flush_len_toNat h.size_le h.indices.2.2 (by omega), htail]
      simp
    have hturn : flush_turn s buf (flush_maxlen s.tcb)
        (min s.tcb.sndvar.cwnd s.tcb.sndvar.peer_wnd) buf.sent_head buf.tail 0
        = .ok (.stop 0 s) := by
      unfold flush_turn
      simp only
      rw [if_neg h.seq, hlen]
      split <;> rfl
    unfold flush_loop flush_reads
    unfold flush_maxlen at hturn ⊢
    rw [hturn]
    exact ⟨rfl, rfl⟩

/-- Otherwise everything unsent goes out, cut in pieces. -/
theorem FlushReady.drains {s : Conn} {buf : UsnSendbuf} (h : FlushReady s buf)
    (htail : buf.tail.toNat < buf.size.toNat) (hne : ¬ buf.head = buf.tail) :
    usnet_flush_reads s buf = pieces buf.size.toNat (cut (flush_maxlen s.tcb) buf)
        buf.sent_head.toNat (buf.unsent s.tcb.snd_nxt) ∧
    ∃ fs s' buf', usnet_flush_tcp_sendbuf s = .ok ((fs.length : Int), s') ∧
      Drained s buf (pieces buf.size.toNat (cut (flush_maxlen s.tcb) buf)
        buf.sent_head.toNat (buf.unsent s.tcb.snd_nxt)) (buf.unsent s.tcb.snd_nxt)
        buf.sent_head.toNat fs s' buf' := by
  have hdrain := h.draining htail
  have hle := hdrain.unsent_le
  obtain ⟨hreads, fs, s', buf', hloop, hdrained⟩ :=
    flush_loop_drains (buf.size.toNat + 1) h.sndbuf rfl hdrain (by omega) 0
  unfold usnet_flush_reads usnet_flush_tcp_sendbuf
  rw [if_neg hne, h.sndbuf]
  simp only
  rw [if_neg hne]
  rw [zero_add] at hloop
  exact ⟨hreads, fs, s', buf', hloop, hdrained⟩

theorem flatMap_payload {fs : List Frame} {l : List (Nat × Nat)} {mem : Nat → UInt8}
    (h : fs.map Frame.payload = l.map fun q => slice mem q.1 q.2) :
    fs.flatMap Frame.payload = l.flatMap fun q => slice mem q.1 q.2 := by
  rw [List.flatMap_def, List.flatMap_def, h]

/-- When everything has gone out the position is that of the new `snd_nxt`. -/
theorem FlushReady.sent_all {s s' : Conn} {buf buf' : UsnSendbuf} {fs : List Frame}
    {l : List (Nat × Nat)} (h : FlushReady s buf)
    (hd : Drained s buf l (buf.unsent s.tcb.snd_nxt) buf.sent_head.toNat fs s' buf') :
    SentTo buf' s'.tcb.snd_nxt ∧ buf'.unsent s'.tcb.snd_nxt = 0 := by
  have hnum := h.number
  have hwithin := h.sent.within
  have hpos := h.sent.position
  obtain ⟨-, -, hnxt, ⟨⟨p, rfl⟩, -⟩, hsent⟩ := hd
  unfold INT_MAX at hnum
  have hahead : ahead buf.head_seq s'.tcb.snd_nxt = buf.bytes := by
    rw [hnxt, ahead_add_right (by omega)]
    unfold UsnSendbuf.unsent
    omega
  refine ⟨⟨?_, ?_⟩, ?_⟩
  · show ahead buf.head_seq s'.tcb.snd_nxt ≤ buf.bytes
    omega
  · show p.toNat ≡ buf.head.toNat + ahead buf.head_seq s'.tcb.snd_nxt [MOD buf.size.toNat]
    refine hsent.trans ((hpos.add_right _).trans ?_)
    rw [hahead]
    unfold UsnSendbuf.unsent
    rw [Nat.add_assoc, Nat.add_sub_cancel' hwithin]
  · show buf.bytes - ahead buf.head_seq s'.tcb.snd_nxt = 0
    omega

/-- Nothing to send and nothing sent. -/
theorem FlushReady.idle {s : Conn} {buf : UsnSendbuf} (h : FlushReady s buf)
    (hflush : usnet_flush_tcp_sendbuf s = .ok (0, s)) (hreads : usnet_flush_reads s buf = []) :
    FlushesAll s buf ↔ buf.unsent s.tcb.snd_nxt = 0 := by
  refine ⟨fun ⟨⟨s', fs, buf', hok, _, _, hpay, _⟩, _⟩ => ?_, fun hz => ?_⟩
  · rw [hflush] at hok
    obtain ⟨hlen, rfl⟩ := Prod.mk.inj (Except.ok.inj hok)
    have hnil : fs = [] := List.eq_nil_of_length_eq_zero (by omega)
    have hlength := congrArg List.length hpay
    rw [hnil, window_length] at hlength
    exact hlength.symm
  · refine ⟨⟨s, [], buf, hflush, by simp, trivial, ?_, h.sndbuf, h.sent, hz⟩, ?_⟩
    · rw [hz]
      rfl
    · rw [hreads]
      exact .nil _

/-! ## Section 6: The result -/

/-- A flush sends exactly the unsent bytes when, and only when, the cuts fall
    right. -/
theorem flush_sends_unsent (s : Conn) (buf : UsnSendbuf) (h : FlushReady s buf) :
    FlushesAll s buf ↔ cuts_right s.tcb buf := by
  unfold cuts_right
  rcases Nat.lt_or_ge buf.tail.toNat buf.size.toNat with htail | htail
  · by_cases hempty : buf.head = buf.tail
    · have hz : buf.unsent s.tcb.snd_nxt = 0 := by
        have hbytes : buf.bytes = 0 := by
          rw [bytes_eq_span, hempty]
          simp [span]
        unfold UsnSendbuf.unsent
        omega
      obtain ⟨hflush, hreads⟩ := h.empty hempty
      exact ⟨fun _ => .inl hz, fun _ => (h.idle hflush hreads).mpr hz⟩
    · obtain ⟨hreads, fs, s', buf', hflush, hdrained⟩ := h.drains htail hempty
      have hcut := (h.draining htail).cut_pos
      have hle := (h.draining htail).unsent_le
      have hmin : cut (flush_maxlen s.tcb) buf
          = min (s.tcb.sndvar.mss.toNat - 12) (buf.size.toNat - buf.tail.toNat) := by
        unfold cut
        rw [flush_maxlen_toNat h.mss.1]
      -- all that can go wrong is a piece across the end
      have hinside : FlushesAll s buf ↔ Inside buf.size.toNat
          (pieces buf.size.toNat (cut (flush_maxlen s.tcb) buf) buf.sent_head.toNat
            (buf.unsent s.tcb.snd_nxt)) := by
        refine ⟨fun hall => hreads ▸ hall.inside, fun hin => ⟨?_, hreads ▸ hin⟩⟩
        obtain ⟨hpos, hzero⟩ := h.sent_all hdrained
        refine ⟨s', fs, buf', hflush, hdrained.frames.1, hdrained.frames.2, ?_,
          hdrained.sndbuf.2, hpos, hzero⟩
        rw [flatMap_payload hdrained.payload, pieces_read _ hcut _ hin]
      rw [hinside, ← hmin]
      by_cases hn : buf.unsent s.tcb.snd_nxt = 0
      · rw [hn, pieces_zero]
        exact ⟨fun _ => .inl rfl, fun _ => .nil _⟩
      · rcases Nat.lt_or_ge buf.sent_head.toNat buf.size.toNat with hlt | hge
        · rw [pieces_inside_iff hcut _ hlt hle]
          exact ⟨fun hor => .inr ⟨htail, hlt, hor⟩, fun hor =>
            (hor.resolve_left hn).2.2⟩
        · have heq : buf.sent_head.toNat = buf.size.toNat := by
            have := h.indices.2.1
            omega
          rw [heq]
          refine ⟨fun hin => absurd hin (pieces_not_inside hcut (by omega)), fun hor => ?_⟩
          have := (hor.resolve_left hn).2.1
          omega
  · obtain ⟨hflush, hreads⟩ := h.stuck (by have := h.indices.2.2; omega)
    rw [h.idle hflush hreads]
    refine ⟨.inl, fun hor => ?_⟩
    rcases hor with hz | ⟨hlt, -⟩
    · exact hz
    · omega

/-- A ring of sixteen bytes with the bytes from `head` to `tail` unsent. -/
def ring_of (head tail : UInt32) : UsnSendbuf :=
  { fd := 5, head := head, sent_head := head, tail := tail, len := 8, size := 16
    head_seq := 5001, init_seq := 5001, data_ptr := fun i => UInt8.ofNat i }

/-- The established connection with that ring. -/
def ring_conn (head tail : UInt32) : Conn :=
  { ctx := quiet_ctx
    tcb := { opened_tcb with
      sndvar := { opened_tcb.sndvar with sndbuf := some (ring_of head tail), cwnd := 1460 } } }

/-- Eight bytes in the middle of the ring go out as they should. -/
theorem flush_sends_unsent_sample :
    FlushReady (ring_conn 4 12) (ring_of 4 12) ∧ FlushesAll (ring_conn 4 12) (ring_of 4 12) := by
  have hready : FlushReady (ring_conn 4 12) (ring_of 4 12) :=
    ⟨rfl, by decide, by decide, ⟨by decide, by decide⟩, by decide, by decide, by decide⟩
  exact ⟨hready, (flush_sends_unsent _ _ hready).mpr (.inr (by decide))⟩

/-- Eight bytes that pass the end of the ring are read in one piece, four of them
    behind the end; eight bytes up to the end of the ring are not sent at all. -/
theorem flush_leaves_ring :
    (FlushReady (ring_conn 12 4) (ring_of 12 4) ∧ ¬ FlushesAll (ring_conn 12 4) (ring_of 12 4)) ∧
    (FlushReady (ring_conn 8 16) (ring_of 8 16) ∧ ¬ FlushesAll (ring_conn 8 16) (ring_of 8 16)) := by
  refine ⟨⟨⟨rfl, by decide, by decide, ⟨by decide, by decide⟩, by decide, by decide, by decide⟩,
    fun hall => ?_⟩, ⟨rfl, by decide, by decide, ⟨by decide, by decide⟩, by decide, by decide,
    by decide⟩, fun hall => ?_⟩
  · have hreads : usnet_flush_reads (ring_conn 12 4) (ring_of 12 4) = [(12, 8)] := rfl
    have hin := hall.inside
    rw [hreads] at hin
    exact absurd (hin (12, 8) (List.mem_singleton.mpr rfl)) (by decide)
  · obtain ⟨s', fs, buf', hok, -, -, hpay, -⟩ := hall.sends
    have hflush : usnet_flush_tcp_sendbuf (ring_conn 8 16) = .ok (0, ring_conn 8 16) := rfl
    rw [hflush] at hok
    have hlen : (0 : Int) = fs.length := (Prod.mk.inj (Except.ok.inj hok)).1
    have hnil : fs = [] := List.eq_nil_of_length_eq_zero (by omega)
    have hlength := congrArg List.length hpay
    rw [hnil, window_length] at hlength
    exact absurd hlength (by decide)

end Usnet
