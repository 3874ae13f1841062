import Usnet.Drain
import Usnet.Held

/-! # The position of `snd_nxt` in the send ring

    `sent_head` is written by the send loop alone, which moves it together with
    `snd_nxt`.  Acknowledgements, timeouts and an unexpected SYN move `snd_nxt`
    and leave `sent_head` where it is.
-/

namespace Usnet

open CInt Circular Run

/-! ## Section 1: What the send loop keeps -/

/-- A property of `snd_nxt`, the position sent from and the segments sent so far
    that each segment sent by the loop keeps. -/
def FlushRule (buf : UsnSendbuf) (I : UInt32 → UInt32 → List Frame → Prop) : Prop :=
  ∀ nxt head fs f len, I nxt head fs → 0 < len →
    len ≤ (buffered buf.size head buf.tail).toNat → len + buf.tail.toNat ≤ buf.size.toNat →
    f.seq = nxt → f.payload = slice buf.data_ptr head.toNat len →
    I (nxt + u32 len) (next_head buf.size head len) (fs ++ [f])

/-- A piece is no longer than what is buffered, or than the rest of the block. -/
theorem flush_len_le {buf : UsnSendbuf} {maxlen n : UInt32} (hsize : buf.size.toNat ≤ INT_MAX)
    (htail : buf.tail.toNat ≤ buf.size.toNat) :
    (flush_len buf maxlen n).toNat ≤ n.toNat ∧
    (flush_len buf maxlen n).toNat + buf.tail.toNat ≤ buf.size.toNat := by
  unfold INT_MAX at hsize
  have hsub := sub_toNat_of_le htail
  have htl : sint (buf.size - buf.tail) = ((buf.size.toNat - buf.tail.toNat : Nat) : Int) := by
    rw [sint_of_lt (by omega), hsub]
  have hlen : (if n > maxlen then maxlen.toUInt16 else n.toUInt16).toNat ≤ n.toNat := by
    simp only [gt_iff_lt, UInt32.lt_iff_toNat_lt]
    split
    · rw [UInt32.toNat_toUInt16]
      omega
    · rw [UInt32.toNat_toUInt16]
      omega
  unfold flush_len
  simp only [htl]
  generalize (if n > maxlen then maxlen.toUInt16 else n.toUInt16) = len at *
  have hlt := len.toNat_lt
  split
  · rw [toNat_u16_of_lt (by omega)]
    omega
  · omega

section
variable {buf : UsnSendbuf} {I : UInt32 → UInt32 → List Frame → Prop} (h : FlushRule buf I)
  (hsize : buf.size.toNat < 2 ^ 15) (htail : buf.tail.toNat ≤ buf.size.toNat)
include h hsize htail

/-- A turn that goes on has sent one segment. -/
theorem FlushRule.sent {maxlen : UInt32} {s s' : Conn} {buf' : UsnSendbuf}
    {head head' : UInt32} {fs : List Frame} (hI : I s.tcb.snd_nxt head fs)
    (hdone : TurnDone s { buf with sent_head := head } head
      (flush_len { buf with sent_head := head } maxlen (buffered buf.size head buf.tail))
      (.again s' buf' head')) :
    buf' = { buf with sent_head := head' } ∧
    s'.tcb.sndvar.sndbuf = some { buf with sent_head := head' } ∧
    ∃ f, s'.ctx.frames = s.ctx.frames ++ [f] ∧ I s'.tcb.snd_nxt head' (fs ++ [f]) := by
  have hle := @flush_len_le { buf with sent_head := head } maxlen
    (buffered buf.size head buf.tail) (by unfold INT_MAX; simp only; omega) htail
  cases hdone with
  | sent _ hpos hcore hsent =>
    refine ⟨rfl, congrArg Core.sndbuf hcore, _, hsent, ?_⟩
    have hnxt := congrArg Core.snd_nxt hcore
    simp only [UsnTcb.core] at hnxt
    rw [hnxt]
    apply h _ _ _ _ _ hI hpos hle.1 hle.2
    · rfl
    · rfl

/-- The loop, for a ring whose pieces fit a signed 16-bit length. -/
theorem FlushRule.loop {maxlen window : UInt32} (fuel : Nat) {c : List Frame} {s s' : Conn}
    {head : UInt32} {packets r : Int} {fs : List Frame}
    (hbuf : s.tcb.sndvar.sndbuf = some { buf with sent_head := head })
    (hframes : s.ctx.frames = c ++ fs) (hI : I s.tcb.snd_nxt head fs)
    (hrun : flush_loop maxlen window buf.tail fuel s { buf with sent_head := head } head packets
      = .ok (r, s')) :
    ∃ head' fs', s'.tcb.sndvar.sndbuf = some { buf with sent_head := head' } ∧
      s'.ctx.frames = c ++ fs' ∧ I s'.tcb.snd_nxt head' fs' := by
  -- on the turns; each that goes on has sent one segment
  induction fuel generalizing s head packets fs with
  | zero => cases hrun
  | succ fuel ih =>
    have hle := @flush_len_le { buf with sent_head := head } maxlen
      (buffered buf.size head buf.tail) (by unfold INT_MAX; simp only; omega) htail
    unfold flush_loop at hrun
    split at hrun
    · cases hrun
    · rename_i hturn
      obtain ⟨rfl, rfl⟩ := hrun
      cases flush_turn_done hturn with
      | idle hcore hsame =>
        have hnxt : s'.tcb.snd_nxt = s.tcb.snd_nxt := congrArg Core.snd_nxt hcore
        refine ⟨head, fs, ?_, hsame.trans hframes, ?_⟩
        · exact (congrArg Core.sndbuf hcore).trans hbuf
        · rw [hnxt]
          exact hI
      | overlong hlong =>
        simp only at hlong hle
        omega
    · rename_i s₁ buf₁ head₁ hturn
      obtain ⟨rfl, hbuf₁, f, hsent, hnext⟩ := h.sent hsize htail hI (flush_turn_done hturn)
      apply ih hbuf₁ _ hnext hrun
      rw [hsent, hframes, List.append_assoc]

/-- The whole flush. -/
theorem FlushRule.flush {s s' : Conn} {r : Int} (hbuf : s.tcb.sndvar.sndbuf = some buf)
    (hI : I s.tcb.snd_nxt buf.sent_head []) (hok : usnet_flush_tcp_sendbuf s = .ok (r, s')) :
    ∃ head fs, s'.tcb.sndvar.sndbuf = some { buf with sent_head := head } ∧
      s'.ctx.frames = s.ctx.frames ++ fs ∧ I s'.tcb.snd_nxt head fs := by
  unfold usnet_flush_tcp_sendbuf at hok
  rw [hbuf] at hok
  simp only at hok
  split at hok
  · obtain ⟨-, rfl⟩ := Prod.mk.inj (Except.ok.inj hok)
    exact ⟨buf.sent_head, [], hbuf, (List.append_nil _).symm, hI⟩
  · exact h.loop hsize htail _ hbuf (List.append_nil _).symm hI hok

/-- A turn does not abort where the number to send is not before `head_seq`. -/
theorem FlushRule.loop_no_abort {maxlen window : UInt32}
    (hseq : ∀ nxt head fs, I nxt head fs → ¬ TCP_SEQ_LT nxt buf.head_seq) (fuel : Nat)
    {s : Conn} {head : UInt32} {packets : Int} {fs : List Frame}
    (hI : I s.tcb.snd_nxt head fs) :
    flush_loop maxlen window buf.tail fuel s { buf with sent_head := head } head packets
      ≠ .error .invalid_sequence := by
  induction fuel generalizing s head packets fs with
  | zero =>
    intro herr
    cases herr
  | succ fuel ih =>
    intro herr
    unfold flush_loop at herr
    split at herr
    · rename_i e hturn
      unfold flush_turn at hturn
      rw [if_neg (by exact hseq _ _ _ hI)] at hturn
      simp only at hturn
      split_ifs at hturn
    · cases herr
    · rename_i s₁ buf₁ head₁ hturn
      obtain ⟨rfl, -, f, -, hnext⟩ := h.sent hsize htail hI (flush_turn_done hturn)
      exact ih hnext herr

theorem FlushRule.no_abort {s : Conn}
    (hseq : ∀ nxt head fs, I nxt head fs → ¬ TCP_SEQ_LT nxt buf.head_seq)
    (hbuf : s.tcb.sndvar.sndbuf = some buf) (hI : I s.tcb.snd_nxt buf.sent_head []) :
    usnet_flush_tcp_sendbuf s ≠ .error .invalid_sequence := by
  intro herr
  unfold usnet_flush_tcp_sendbuf at herr
  rw [hbuf] at herr
  simp only at herr
  split at herr
  · cases herr
  · exact h.loop_no_abort hsize htail hseq _ hI herr

end

/-! ## Section 2: The position -/

/-- `(sent_head - head) mod size`. -/
def UsnSendbuf.sent (buf : UsnSendbuf) : Nat :=
  (buf.size.toNat + buf.sent_head.toNat - buf.head.toNat) % buf.size.toNat

/-- The ring of a connection whose next number is `nxt`: `sent_head` is the
    position of that number, which is not behind the bytes held. -/
structure Positioned (buf : UsnSendbuf) (nxt : UInt32) : Prop where
  wf : IndexWf buf
  size : buf.size = SENDBUF_SIZE
  sent_lt : buf.sent_head.toNat < buf.size.toNat
  position : buf.sent = ahead buf.head_seq nxt
  within : buf.sent ≤ buf.held

theorem sendbuf_small {buf : UsnSendbuf} (h : buf.size = SENDBUF_SIZE) :
    buf.size.toNat < 2 ^ 15 := by
  rw [h]
  decide

theorem sent_eq {buf : UsnSendbuf} (h : IndexWf buf)
    (hsent : buf.sent_head.toNat < buf.size.toNat) :
    buf.sent = if buf.head.toNat ≤ buf.sent_head.toNat
      then buf.sent_head.toNat - buf.head.toNat
      else buf.size.toNat + buf.sent_head.toNat - buf.head.toNat := by
  have hh := h.head_lt
  unfold UsnSendbuf.sent
  rw [mod_wrap (by omega)]
  split_ifs <;> omega

theorem Positioned.made {slot : Option (Nat → UInt8)} {fd seq : UInt32} {buf : UsnSendbuf}
    (h : usnet_get_sendbuf slot SENDBUF_SIZE fd seq = some buf) : Positioned buf seq := by
  have hwf := (Overcounts.made h).wf
  unfold usnet_get_sendbuf at h
  obtain ⟨mem, -, rfl⟩ := Option.map_eq_some_iff.mp h
  have hpos : 0 < SENDBUF_SIZE.toNat := by decide
  have hzero : (SENDBUF_SIZE.toNat + 0 - 0) % SENDBUF_SIZE.toNat = 0 := by decide
  refine ⟨hwf, rfl, hpos, ?_, ?_⟩
  · rw [ahead_self]
    exact hzero
  · exact (Nat.le_of_eq hzero).trans (Nat.zero_le _)

/-- Bytes put behind the others are not sent yet. -/
theorem Positioned.written {buf buf' : UsnSendbuf} {nxt : UInt32} {data : List UInt8} {r : Int}
    (h : Positioned buf nxt) (hw : usnet_write_data buf data = some (r, buf')) :
    Positioned buf' nxt := by
  rcases usnet_write_data_cases data h.wf with ⟨-, hw'⟩ | ⟨hroom, buf₁, hw', hwf, hmoved⟩
  · rw [hw'] at hw
    obtain ⟨-, rfl⟩ := Prod.mk.inj (Option.some.inj hw)
    exact h
  · rw [hw'] at hw
    obtain ⟨-, rfl⟩ := Prod.mk.inj (Option.some.inj hw)
    obtain ⟨hwf₀, hsize, hlt, hpos, hin⟩ := h
    -- neither `head` nor `sent_head` has moved
    obtain ⟨hs, hh, hsh, hq⟩ := hmoved.ends
    have hsent : buf₁.sent = buf.sent := by
      unfold UsnSendbuf.sent
      rw [hs, hh, hsh]
    have hbytes := hmoved.bytes
    refine ⟨hwf, hs.trans hsize, ?_, ?_, ?_⟩
    · rw [hs, hsh]
      exact hlt
    · rw [hsent, hq]
      exact hpos
    · rw [held_eq hwf₀] at hin
      rw [hsent, held_eq hwf, hs, if_neg (by omega)]
      split at hin <;> omega

/-- An acknowledgement of bytes that were sent moves `head` under `sent_head`. -/
theorem Positioned.removed {buf : UsnSendbuf} {nxt : UInt32} {k : Nat}
    (h : Positioned buf nxt) (hk : k ≤ buf.sent) :
    Positioned (usnet_remove_data buf k).2 nxt := by
  obtain ⟨hwf, hsize, hlt, hpos, hin⟩ := h
  have hwf' := hwf.removed (Int.natCast_nonneg k)
  have hheld := held_removed hwf (hk.trans hin)
  have hhlt := held_lt hwf
  have hle : k ≤ buf.bytes := by
    rw [held_eq hwf] at hin
    split at hin <;> omega
  have hs := hwf.size_le
  have hh := hwf.head_lt
  unfold INT_MAX at hs
  obtain ⟨head, hrem, hhead⟩ := usnet_remove_data_held hwf hle
  have hlt' : (usnet_remove_data buf k).2.sent_head.toNat
      < (usnet_remove_data buf k).2.size.toNat := by
    rw [hrem]
    exact hlt
  have hsent : (usnet_remove_data buf k).2.sent = buf.sent - k := by
    rw [sent_eq hwf' hlt']
    rw [sent_eq hwf hlt] at hk ⊢
    rw [hrem]
    simp only
    split at hhead <;> split_ifs at hk ⊢ <;> omega
  have hmoved : ahead (usnet_remove_data buf k).2.head_seq nxt = ahead buf.head_seq nxt - k := by
    rw [hrem]
    exact ahead_add_left (by omega)
  refine ⟨hwf', ?_, hlt', ?_, ?_⟩
  · rw [usnet_remove_data_size]
    exact hsize
  · rw [hsent, hmoved, hpos]
  · rw [hsent, hheld]
    omega

/-- The ring position of a number. -/
def UsnSendbuf.pos_of (buf : UsnSendbuf) (seq : UInt32) : Nat :=
  (buf.head.toNat + ahead buf.head_seq seq) % buf.size.toNat

/-- The `n` bytes of the stream from a number on, as the ring holds them. -/
def UsnSendbuf.bytes_of (buf : UsnSendbuf) (seq : UInt32) (n : Nat) : List UInt8 :=
  window buf.data_ptr buf.size.toNat (buf.pos_of seq) n

/-- The payload is read from the position of the segment's own number on, and
    ends within the bytes held. -/
structure own_bytes (buf : UsnSendbuf) (f : Frame) : Prop where
  start : f.payload = slice buf.data_ptr (buf.pos_of f.seq) f.payload.length
  within : ahead buf.head_seq f.seq + f.payload.length ≤ buf.held

/-- A segment that does not pass the end of the block carries the bytes of its
    number. -/
theorem own_bytes.exact {buf : UsnSendbuf} {f : Frame} (h : own_bytes buf f)
    (hin : buf.pos_of f.seq + f.payload.length ≤ buf.size.toNat) :
    f.payload = buf.bytes_of f.seq f.payload.length :=
  h.start.trans (window_eq_of_le hin).symm

/-- What the loop keeps: the position, and that every segment carries its own bytes. -/
structure SendsOwn (buf : UsnSendbuf) (nxt head : UInt32) (fs : List Frame) : Prop where
  at_nxt : Positioned { buf with sent_head := head } nxt
  own : ∀ f ∈ fs, own_bytes buf f

/-- The bytes between the position and `tail` are those held and not sent. -/
theorem Positioned.buffered_eq {buf : UsnSendbuf} {nxt : UInt32} (h : Positioned buf nxt)
    (htail : buf.tail.toNat < buf.size.toNat) :
    (buffered buf.size buf.sent_head buf.tail).toNat = buf.held - buf.sent := by
  obtain ⟨hwf, hsize, hlt, hpos, hin⟩ := h
  rw [buffered_toNat hwf.size_le (by omega)]
  rw [sent_eq hwf hlt, held_eq hwf] at hin ⊢
  obtain ⟨hs, hh, ht⟩ := hwf
  unfold UsnSendbuf.bytes at *
  split_ifs at hin ⊢ <;> omega

theorem sendsOwn_rule (buf : UsnSendbuf) : FlushRule buf (SendsOwn buf) := by
  rintro nxt head fs f len ⟨hat, hown⟩ hpos hlen hend hseq hpay
  have hbuffered := hat.buffered_eq (by simp only; omega)
  obtain ⟨hwf, hsize, hlt, hposition, hin⟩ := hat
  have hsent := sent_eq hwf hlt
  have hheld : ({ buf with sent_head := head } : UsnSendbuf).held = buf.held := rfl
  have hheldlt := held_lt hwf
  have hh := hwf.head_lt
  have hle := hwf.size_le
  unfold INT_MAX at hle
  simp only at hsent hbuffered hle hlt hh hheldlt
  rw [hheld] at hbuffered hin hheldlt
  -- `head` has moved over the segment, and so has the number
  have hnext := next_head_toNat hwf.size_le (Nat.le_of_lt hlt) (n := len) (by simp only; omega)
  unfold wrap at hnext
  simp only at hnext
  have hmoved : ahead buf.head_seq (nxt + u32 len) = ahead buf.head_seq nxt + len :=
    ahead_add_right (by rw [← show _ = ahead buf.head_seq nxt from hposition]; omega)
  have hnew : (next_head buf.size head len).toNat < buf.size.toNat := by
    rw [hnext]
    split <;> omega
  have hwf' : IndexWf { buf with sent_head := next_head buf.size head len } :=
    ⟨hwf.size_le, hwf.head_lt, hwf.tail_le⟩
  have hsent' := sent_eq hwf' hnew
  simp only at hsent'
  have hsum : ({ buf with sent_head := next_head buf.size head len } : UsnSendbuf).sent
      = ({ buf with sent_head := head } : UsnSendbuf).sent + len := by
    rw [hsent', hsent, hnext]
    rw [hsent] at hbuffered hin
    split_ifs at hbuffered hin ⊢ <;> omega
  refine ⟨⟨hwf', hsize, hnew, ?_, ?_⟩, ?_⟩
  · rw [hsum, hposition]
    exact hmoved.symm
  · rw [hsum]
    show _ ≤ buf.held
    omega
  · intro g hg
    rcases List.mem_append.mp hg with hold | hnewf
    · exact hown g hold
    · obtain rfl := List.mem_singleton.mp hnewf
      have hplen : g.payload.length = len := by rw [hpay, slice_length]
      have hstart : buf.pos_of nxt = head.toNat := by
        unfold UsnSendbuf.pos_of
        rw [← show _ = ahead buf.head_seq nxt from hposition, hsent, mod_wrap]
        · split_ifs <;> omega
        · split_ifs <;> omega
      refine ⟨?_, ?_⟩
      · rw [hplen, hseq, hstart]
        exact hpay
      · rw [hplen, hseq, ← show _ = ahead buf.head_seq nxt from hposition]
        omega

/-! ## Section 3: Runs -/

/-- The timeout finds the connection on its list and retransmits once more. -/
def rto_due (t : UsnTcb) : Prop := 0 ≤ t.on_rto_idx ∧ t.sndvar.nrtx < TCP_MAX_RTX

/-- The number of the next byte.  In the handshake it is that of the first one. -/
def next_seq (t : UsnTcb) : UInt32 :=
  if t.state = .established then t.snd_nxt else t.sndvar.iss + 1

/-- The acknowledgement is not the third duplicate, does not go past `snd_nxt`,
    and is not half the sequence space ahead. -/
structure ack_in_place (s : Conn) (buf : UsnSendbuf) (seg : Segment) : Prop where
  first : third_dup (note_segment s seg) seg seg.ack_seq = false
  sent : ¬ TCP_SEQ_GT seg.ack_seq s.tcb.snd_nxt
  near : seg.ack_seq ≠ buf.head_seq + 0x80000000

/-- What leaves `snd_nxt` where the send loop left it: a timeout finds nothing in
    flight, a SYN acknowledges all that was sent, and an acknowledgement that
    passes the check is in place. -/
def keeps_position (s : Conn) : LifeEvent → Prop
  | .rto => s.tcb.state = .established → rto_due s.tcb → s.tcb.snd_nxt = s.tcb.sndvar.snd_una
  | .segment seg => s.tcb.state = .established → in_window s.tcb seg →
    (seg.has TH_SYN → (seg.has TH_RST → ¬ reset_accepted s.tcb seg) →
      seg.ack_seq = s.tcb.snd_nxt) ∧
    ∀ buf, s.tcb.sndvar.sndbuf = some buf → ack_looked_at s.tcb seg →
      ¬ TCP_SEQ_GT seg.ack_seq (buf.head_seq + buf.len) → ack_in_place s buf seg
  | _ => True

/-- Up to the peer's FIN the ring is positioned at the next number.  Before there
    is a ring nothing has been sent. -/
structure PositionInv (t : UsnTcb) : Prop where
  life : LifeInv t
  without : opening t.state → t.sndvar.sndbuf = none → next_seq t = t.sndvar.iss + 1
  ring : opening t.state → ∀ buf, t.sndvar.sndbuf = some buf → Positioned buf (next_seq t)

theorem PositionInv.created {t : UsnTcb} (h : Created t) : PositionInv t := by
  obtain ⟨-, hbuf, hfin⟩ := h.send
  refine ⟨⟨.inl h.state, hfin⟩, fun _ _ => ?_, fun _ buf hb => ?_⟩
  · unfold next_seq
    rw [h.state, if_neg (by decide)]
  · rw [hbuf] at hb
    cases hb

/-- It depends on these variables only. -/
theorem PositionInv.congr {t t' : UsnTcb} (h : PositionInv t) (hlife : LifeInv t')
    (hst : opening t'.state → opening t.state) (hnext : opening t'.state → next_seq t' = next_seq t)
    (hiss : t'.sndvar.iss = t.sndvar.iss) (hbuf : t'.sndvar.sndbuf = t.sndvar.sndbuf) :
    PositionInv t' := by
  refine ⟨hlife, fun ho hb => ?_, fun ho buf hb => ?_⟩
  · rw [hnext ho, hiss]
    exact h.without (hst ho) (hbuf ▸ hb)
  · rw [hnext ho]
    exact h.ring (hst ho) buf (hbuf ▸ hb)

/-- With the ring it has now. -/
theorem PositionInv.now {t' : UsnTcb} {buf' : UsnSendbuf} (hlife : LifeInv t')
    (hbuf : t'.sndvar.sndbuf = some buf')
    (hpos : opening t'.state → Positioned buf' (next_seq t')) : PositionInv t' := by
  refine ⟨hlife, fun _ hb => ?_, fun ho buf hb => ?_⟩
  · rw [hbuf] at hb
    cases hb
  · rw [hbuf] at hb
    exact Option.some.inj hb ▸ hpos ho

/-- Same state, same `snd_nxt`, same `iss`. -/
theorem next_seq_congr {t t' : UsnTcb} (hst : t'.state = t.state)
    (hnxt : t.state = .established → t'.snd_nxt = t.snd_nxt)
    (hiss : t'.sndvar.iss = t.sndvar.iss) : next_seq t' = next_seq t := by
  unfold next_seq
  rw [hst, hiss]
  by_cases h : t.state = .established
  · rw [if_pos h, if_pos h, hnxt h]
  · rw [if_neg h, if_neg h]

/-- A timeout that is not due does nothing, or gives the connection up. -/
theorem rto_visit_not_due {s s' : Conn} (hdue : ¬ rto_due s.tcb) (hok : rto_visit s = .ok s') :
    s' = s ∨ s'.tcb.state = .closed := by
  unfold rto_visit at hok
  by_cases hidx : s.tcb.on_rto_idx ≥ 0
  · have hmax : s.tcb.sndvar.nrtx ≥ TCP_MAX_RTX := by
      by_contra hlt
      exact hdue ⟨hidx, UInt8.not_le.mp hlt⟩
    rw [if_pos hidx] at hok
    unfold usnet_handle_rto at hok
    by_cases hrto : s.tcb.sndvar.rto = 0
    · rw [if_pos hrto] at hok
      cases hok
    · rw [if_neg hrto, if_pos hmax] at hok
      obtain rfl := Except.ok.inj hok
      exact .inr (congrArg Core.state (give_up_core s))
  · rw [if_neg hidx] at hok
    obtain rfl := Except.ok.inj hok
    exact .inl rfl

theorem not_opening_closed {t : UsnTcb} (h : t.state = .closed) : ¬ opening t.state := by
  rintro (ho | ho)
  · rw [h] at ho
    cases ho
  · rw [h] at ho
    cases ho

theorem established_of_sending {t : UsnTcb} (h : sending t.state) (ho : opening t.state) :
    t.state = .established := by
  rcases ho with ho | ho
  · rw [ho] at h
    rcases h with h | h <;> cases h
  · exact ho

/-- A segment that is handled and does not close the connection leaves it
    established. -/
theorem Handled.stays_open {s s' : Conn} {seg : Segment} (hh : Handled s seg s')
    (ho : opening s'.tcb.state) :
    s.tcb.state = .established ∧ s'.tcb.state = s.tcb.state := by
  rcases hh.state with hst | hst | hst
  · exact ⟨established_of_sending hh.sending (hst ▸ ho), hst⟩
  · rw [hst] at ho
    rcases ho with ho | ho <;> cases ho
  · exact absurd ho (not_opening_closed hst)

/-- An acknowledgement in place lies between the front of the ring and what was sent. -/
theorem Positioned.acked_ahead {s : Conn} {buf : UsnSendbuf} {seg : Segment}
    (h : Positioned buf s.tcb.snd_nxt) (hplace : ack_in_place s buf seg)
    (hfresh : ¬ TCP_SEQ_GEQ buf.head_seq seg.ack_seq) :
    sint (seg.ack_seq - buf.head_seq) = (ahead buf.head_seq seg.ack_seq : Int) ∧
      ahead buf.head_seq seg.ack_seq ≤ buf.sent := by
  have hs := h.wf.size_le
  have hlt := held_lt h.wf
  have hin := h.within
  have hpos := h.position
  unfold INT_MAX at hs
  have hsint := sint_sub_pos hfresh hplace.near
  have hahead : sint (seg.ack_seq - buf.head_seq) = (ahead buf.head_seq seg.ack_seq : Int) := by
    have hcut := sint_sub_ahead buf.head_seq seg.ack_seq buf.head_seq
    rw [ahead_self] at hcut
    have halt := ahead_lt buf.head_seq seg.ack_seq
    rw [hcut] at hsint ⊢
    split_ifs at hsint ⊢ <;> omega
  refine ⟨hahead, ?_⟩
  have hsent := hplace.sent
  have hupper := sint_upper (seg.ack_seq - buf.head_seq)
  unfold TCP_SEQ_GT at hsent
  rw [sint_sub_ahead buf.head_seq, ← hpos] at hsent
  split_ifs at hsent <;> omega

/-- It takes off what was sent. -/
theorem Positioned.acked {s : Conn} {buf buf' : UsnSendbuf} {seg : Segment}
    (h : Positioned buf s.tcb.snd_nxt) (hplace : ack_in_place s buf seg)
    (hfresh : ¬ TCP_SEQ_GEQ buf.head_seq seg.ack_seq)
    (hbuf : buf' = (usnet_remove_data buf (sint (seg.ack_seq - buf.head_seq))).2) :
    Positioned buf' s.tcb.snd_nxt := by
  obtain ⟨hahead, hle⟩ := h.acked_ahead hplace hfresh
  rw [hbuf, hahead]
  exact h.removed hle

theorem PositionInv.step {s s' : Conn} {ev : LifeEvent} (h : PositionInv s.tcb)
    (hc : keeps_position s ev) (hok : life_conn s ev = .ok s') : PositionInv s'.tcb := by
  have hm := life_conn_move h.life hok
  have hlife := hm.inv h.life
  have hclosed : s'.tcb.state = .closed → PositionInv s'.tcb := fun hst =>
    ⟨hlife, fun ho => absurd ho (not_opening_closed hst),
      fun ho => absurd ho (not_opening_closed hst)⟩
  -- most events change the send side as little as this
  have hsame : s'.tcb.state = s.tcb.state → (s.tcb.state = .established →
      s'.tcb.snd_nxt = s.tcb.snd_nxt) → s'.tcb.sndvar.iss = s.tcb.sndvar.iss →
      s'.tcb.sndvar.sndbuf = s.tcb.sndvar.sndbuf → PositionInv s'.tcb := by
    intro hst hnxt hiss hbuf
    exact h.congr hlife (fun ho => hst ▸ ho) (fun _ => next_seq_congr hst hnxt hiss) hiss hbuf
  cases hm with
  | control hct =>
    refine hsame hct.state (fun hest => hct.snd_nxt (.inl hest)) (congrArg Core.iss hct.core)
      (congrArg Core.sndbuf hct.core)
  | closed hcl => exact hclosed (congrArg Core.state hcl)
  | resent hs hre =>
    by_cases hdue : rto_due s.tcb
    · refine hsame (congrArg Core.state hre) (fun hest => ?_) (congrArg Core.iss hre)
        (congrArg Core.sndbuf hre)
      exact (congrArg Core.snd_nxt hre).trans (hc hest hdue).symm
    · rcases rto_visit_not_due hdue hok with rfl | hst
      · exact h
      · exact hclosed hst
  | @joined fd result sndbuf s₁ s' hbuf hcore hctl =>
    have hst : s'.tcb.state = s.tcb.state := hctl.state.trans (congrArg Core.state hcore)
    have hnxt : s.tcb.state = .established → s'.tcb.snd_nxt = s.tcb.snd_nxt := by
      intro hest
      have hst₁ : s₁.tcb.state = s.tcb.state := congrArg Core.state hcore
      exact (hctl.snd_nxt (.inl (hst₁.trans hest))).trans (congrArg Core.snd_nxt hcore)
    have hend := joined_core hcore hctl
    have hiss : s'.tcb.sndvar.iss = s.tcb.sndvar.iss := congrArg Core.iss hend
    have hsnd : s'.tcb.sndvar.sndbuf = sndbuf := congrArg Core.sndbuf hend
    rcases hbuf with hold | ⟨hnone, slot, hnew⟩
    · exact hsame hst hnxt hiss (hsnd.trans hold)
    · cases hmade : sndbuf with
      | none => exact hsame hst hnxt hiss (hsnd.trans (hmade.trans hnone.symm))
      | some buf' =>
        refine .now hlife (hsnd.trans hmade) fun ho => ?_
        rw [next_seq_congr hst hnxt hiss, h.without (hst ▸ ho) hnone]
        exact .made (hnew.symm.trans hmade)
  | written hbuf hw hcore =>
    have hst : s'.tcb.state = s.tcb.state := congrArg Core.state hcore
    refine .now hlife (congrArg Core.sndbuf hcore) fun ho => ?_
    rw [next_seq_congr hst (fun _ => congrArg Core.snd_nxt hcore) (congrArg Core.iss hcore)]
    exact (h.ring (hst ▸ ho) _ hbuf).written hw
  | read hrd =>
    exact hsame (congrArg Core.state hrd) (fun _ => congrArg Core.snd_nxt hrd)
      (congrArg Core.iss hrd) (congrArg Core.sndbuf hrd)
  | @flushed s₀ s₁ s' r hs h₀ hfl h₁ =>
    obtain ⟨buf, p, hbuf, hcore⟩ := flushed_core h₀ hfl h₁
    have hbuf₀ : s₀.tcb.sndvar.sndbuf = some buf := (congrArg Core.sndbuf h₀).trans hbuf
    have hst : s'.tcb.state = s.tcb.state := congrArg Core.state hcore
    have hnxt₀ : s₀.tcb.snd_nxt = s.tcb.snd_nxt := congrArg Core.snd_nxt h₀
    refine .now hlife (congrArg Core.sndbuf hcore) fun ho => ?_
    have hest := established_of_sending hs (hst ▸ ho)
    have hpos := h.ring (.inr hest) buf hbuf
    have hnext : next_seq s.tcb = s.tcb.snd_nxt := if_pos hest
    have hnext' : next_seq s'.tcb = s₁.tcb.snd_nxt :=
      (if_pos (hst.trans hest)).trans (congrArg Core.snd_nxt h₁)
    have hI : SendsOwn buf s₀.tcb.snd_nxt buf.sent_head [] := by
      refine ⟨?_, fun f hf => nomatch hf⟩
      rw [hnxt₀, ← hnext]
      exact hpos
    obtain ⟨head, fs, hb, -, hsends⟩ := (sendsOwn_rule buf).flush (sendbuf_small hpos.size)
      hpos.wf.tail_le hbuf₀ hI hfl
    have hhead : p = head := by
      have hb' : s'.tcb.sndvar.sndbuf = _ := (congrArg Core.sndbuf h₁).trans hb
      have heq := (congrArg Core.sndbuf hcore).symm.trans hb'
      exact congrArg UsnSendbuf.sent_head (Option.some.inj heq)
    rw [hnext', hhead]
    exact hsends.at_nxt
  | opened hst hack hseq hop =>
    have hst' : s'.tcb.state = .established := congrArg Core.state hop
    have hnext : next_seq s.tcb = s.tcb.sndvar.iss + 1 := by
      unfold next_seq
      rw [hst, if_neg (by decide)]
    have hnext' : next_seq s'.tcb = next_seq s.tcb := by
      rw [hnext, ← hseq]
      exact (if_pos hst').trans (congrArg Core.snd_nxt hop)
    exact h.congr hlife (fun _ => .inl hst) (fun _ => hnext') (congrArg Core.iss hop)
      (congrArg Core.sndbuf hop)
  | resynced hst hwin hrst hsyn hre =>
    refine hsame (congrArg Core.state hre) (fun _ => ?_) (congrArg Core.iss hre)
      (congrArg Core.sndbuf hre)
    exact (congrArg Core.snd_nxt hre).trans ((hc hst hwin).1 hsyn hrst)
  | @handled seg s' hwin hh =>
    have hiss := hh.kept.2.2.1
    have hopen := hh.stays_open
    rcases hh.send with ⟨hnxt, -, hbuf⟩ | ⟨buf, ha⟩
    · refine h.congr hlife (fun ho => .inr (hopen ho).1) (fun ho => ?_) hiss hbuf
      exact next_seq_congr (hopen ho).2 (fun _ => hnxt) hiss
    · have hplace : opening s'.tcb.state → ack_in_place s buf seg := fun ho =>
        (hc (hopen ho).1 hwin).2 buf ha.sndbuf ha.looked_at ha.passes
      have hnext : opening s'.tcb.state → next_seq s'.tcb = s.tcb.snd_nxt ∧
          next_seq s.tcb = s.tcb.snd_nxt := by
        intro ho
        obtain ⟨hest, hst⟩ := hopen ho
        refine ⟨?_, if_pos hest⟩
        have hsame : (note_segment s seg).tcb.snd_nxt = s.tcb.snd_nxt := by
          simp
        rw [show next_seq s'.tcb = s'.tcb.snd_nxt from if_pos (hst.trans hest), ha.snd_nxt]
        unfold nxt_after_ack
        rw [(hplace ho).first, hsame, if_neg Bool.false_ne_true, if_neg (hplace ho).sent]
      have hring : opening s'.tcb.state → Positioned buf s.tcb.snd_nxt := by
        intro ho
        rw [← (hnext ho).2]
        exact h.ring (.inr (hopen ho).1) buf ha.sndbuf
      rcases ha.data with ⟨-, -, hbuf⟩ | ⟨hfresh, -, hbuf⟩
      · refine .now hlife hbuf fun ho => ?_
        rw [(hnext ho).1]
        exact hring ho
      · refine .now hlife hbuf fun ho => ?_
        rw [(hnext ho).1]
        exact (hring ho).acked (hplace ho) hfresh rfl

/-- In every run in which `snd_nxt` is left where the send loop left it: on an
    established connection `sent_head` is the ring position of `snd_nxt`, and every
    segment the next flush sends is read from the position of its own number, which
    gives the bytes of that number where it does not pass the end of the block. -/
theorem send_position_follows {t : UsnTcb} {buf : UsnSendbuf}
    (h : LifeWhere keeps_position (some t)) (hst : t.state = .established)
    (hbuf : t.sndvar.sndbuf = some buf) :
    buf.sent = ahead buf.head_seq t.snd_nxt ∧
    ∀ c r s', usnet_flush_tcp_sendbuf ⟨c, t⟩ = .ok (r, s') →
      ∃ fs, s'.ctx.frames = c.frames ++ fs ∧ ∀ f ∈ fs, own_bytes buf f ∧
        (buf.pos_of f.seq + f.payload.length ≤ buf.size.toNat →
          f.payload = buf.bytes_of f.seq f.payload.length) := by
  have hinv : PositionInv t :=
    h.invariant (fun _ _ _ _ _ hin => .created (usnet_tcp_input_created hin))
      (fun _ _ _ hi hc hok => hi.step hc hok)
  have hpos := hinv.ring (.inr hst) buf hbuf
  rw [show next_seq t = t.snd_nxt from if_pos hst] at hpos
  refine ⟨hpos.position, fun c r s' hok => ?_⟩
  have hI : SendsOwn buf t.snd_nxt buf.sent_head [] := ⟨hpos, fun f hf => nomatch hf⟩
  obtain ⟨head, fs, -, hframes, hsends⟩ := (sendsOwn_rule buf).flush (sendbuf_small hpos.size)
    hpos.wf.tail_le hbuf hI hok
  exact ⟨fs, hframes, fun f hf => ⟨hsends.own f hf, (hsends.own f hf).exact⟩⟩

/-- Three bytes written and sent. -/
def sent_three : List (Ctx × LifeEvent) :=
  [(quiet_ctx, .write 5 [1, 2, 3]), (quiet_ctx, .wrote true 5), (quiet_ctx, .data)]

/-- The connection with the three bytes in flight. -/
def sending_tcb : UsnTcb := (life_run (some opened_tcb) sent_three).toOption.join.get rfl

/-- After the first of them is acknowledged. -/
def first_acked_tcb : UsnTcb :=
  (life_run (some sending_tcb) [(quiet_ctx, .segment (bare_ack 5002))]).toOption.join.get rfl

theorem sending_keeps : LifeWhere keeps_position (some sending_tcb) := by
  have hopened : LifeWhere keeps_position (some opened_tcb) := by
    apply LifeWhere.run (.init rfl) _ opened_tcb_run
    refine ⟨fun _ ht => (nomatch ht), fun _ _ => trivial, fun t ht hst => ?_, trivial⟩
    obtain rfl := Option.some.inj ht
    cases hst
  apply hopened.run _ (show life_run (some opened_tcb) sent_three = .ok (some sending_tcb) from rfl)
  exact ⟨fun _ _ => trivial, fun _ _ => trivial, fun _ _ => trivial, trivial⟩

theorem first_acked_keeps : LifeWhere keeps_position (some first_acked_tcb) := by
  apply sending_keeps.run _ (show life_run (some sending_tcb)
    [(quiet_ctx, .segment (bare_ack 5002))] = .ok (some first_acked_tcb) from rfl)
  refine ⟨fun t ht _ _ => ⟨nofun, fun buf hbuf _ _ => ?_⟩, trivial⟩
  obtain rfl := Option.some.inj ht
  obtain rfl := Option.some.inj hbuf
  exact ⟨rfl, by decide +kernel, by decide +kernel⟩

/-- The rings of these connections. -/
def first_acked_ring : UsnSendbuf := first_acked_tcb.sndvar.sndbuf.get rfl

theorem send_position_follows_sample :
    first_acked_ring.sent = ahead first_acked_ring.head_seq first_acked_tcb.snd_nxt ∧
    ∀ c r s', usnet_flush_tcp_sendbuf ⟨c, first_acked_tcb⟩ = .ok (r, s') →
      ∃ fs, s'.ctx.frames = c.frames ++ fs ∧ ∀ f ∈ fs, own_bytes first_acked_ring f ∧
        (first_acked_ring.pos_of f.seq + f.payload.length ≤ first_acked_ring.size.toNat →
          f.payload = first_acked_ring.bytes_of f.seq f.payload.length) :=
  send_position_follows first_acked_keeps rfl rfl

/-- The retransmission timer goes off with the three bytes in flight. -/
def timed_out_tcb : UsnTcb :=
  (life_run (some sending_tcb) [(quiet_ctx, .rto)]).toOption.join.get rfl

def timed_out_ring : UsnSendbuf := timed_out_tcb.sndvar.sndbuf.get rfl

/-- `snd_nxt` is back at the first of them, `sent_head` is not, and the next flush
    sends nothing. -/
theorem timeout_loses_position :
    LifeReachable (some timed_out_tcb) ∧ timed_out_tcb.state = .established ∧
    timed_out_tcb.sndvar.sndbuf = some timed_out_ring ∧
    timed_out_tcb.snd_nxt = 5001 ∧ timed_out_ring.sent = 3 ∧
    ¬ timed_out_ring.sent = ahead timed_out_ring.head_seq timed_out_tcb.snd_nxt ∧
    (usnet_flush_tcp_sendbuf ⟨quiet_ctx, timed_out_tcb⟩).toOption.map
      (fun p => (p.1, p.2.ctx.frames.length)) = some (0, 0) := by
  have hreach : LifeReachable (some timed_out_tcb) :=
    sending_keeps.reachable.run (life_run_meets_true _ _)
      (show life_run (some sending_tcb) [(quiet_ctx, .rto)] = .ok (some timed_out_tcb) from rfl)
  refine ⟨hreach, rfl, rfl, rfl, rfl, ?_, rfl⟩
  decide +kernel

end Usnet
