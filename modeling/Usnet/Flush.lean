import Usnet.Core

/-! # The send loop

    What one turn of the loop in `usnet_flush_tcp_sendbuf` does, and what
    follows for the whole loop.
-/

namespace Usnet

open CInt Circular

/-! ## Section 1: One turn -/

/-- How a turn ends: nothing was sent, a segment too long for the signed 16-bit
    length went out, or a segment was sent and the loop goes on behind it. -/
inductive TurnDone (s : Conn) (buf : UsnSendbuf) (head : UInt32) (len : UInt16) :
    FlushTurn → Prop where
  | idle {r : Int} {s' : Conn} : SameCore s s' → s'.ctx.frames = s.ctx.frames →
      TurnDone s buf head len (.stop r s')
  | overlong {r : Int} {s' : Conn} : 2 ^ 15 ≤ len.toNat →
      s'.tcb.core = { s.tcb.core with snd_nxt := s'.tcb.snd_nxt } →
      TurnDone s buf head len (.stop r s')
  | sent {s' : Conn} : s16 len.toNat ≥ 0 → 0 < len.toNat →
      s'.tcb.core = { s.tcb.core with
        snd_nxt := s.tcb.snd_nxt + u32 len.toNat
        sndbuf := some { buf with sent_head := next_head buf.size head len.toNat } } →
      s'.ctx.frames = s.ctx.frames ++
        [tcp_packet s TH_ACK (slice buf.data_ptr head.toNat len.toNat)] →
      TurnDone s buf head len
        (.again s' { buf with sent_head := next_head buf.size head len.toNat }
          (next_head buf.size head len.toNat))

theorem s16_neg {n : Nat} (hn : n < 2 ^ 16) (h : s16 n < 0) : 2 ^ 15 ≤ n := by
  by_contra hlt
  rw [s16_of_lt (by omega) (by omega)] at h
  omega

theorem s16_nonneg {n : Nat} (hn : n < 2 ^ 16) (h : ¬ s16 n < 0) : s16 n = n := by
  unfold s16 at *
  rw [Int.bmod_def] at *
  split at h <;> omega

theorem no_window_done (s : Conn) (buf : UsnSendbuf) (head : UInt32) (len : UInt16) :
    TurnDone s buf head len (no_window s len) := by
  unfold no_window
  split
  · exact .idle (Same.core (by simp)) (by simp)
  · exact .idle rfl rfl

theorem send_turn_done (s : Conn) (buf : UsnSendbuf) (head : UInt32) {len : UInt16}
    (hpos : 0 < len.toNat) : TurnDone s buf head len (send_turn s buf head len) := by
  have hlt := len.toNat_lt
  generalize hdata : slice buf.data_ptr head.toNat len.toNat = data
  have hlen : data.length = len.toNat := by simp [← hdata]
  have hkept := usnet_send_tcp_packet_kept s TH_ACK data
  have hfin := usnet_send_tcp_packet_fin s TH_ACK data rfl
  have hcore : ∀ n, (usnet_send_tcp_packet s TH_ACK data).2.tcb.snd_nxt = n →
      (usnet_send_tcp_packet s TH_ACK data).2.tcb.core
        = { s.tcb.core with snd_nxt := n } := by
    rintro n rfl
    ext <;> simp [UsnTcb.core, hfin]
  unfold send_turn
  simp only [hdata]
  rcases usnet_send_tcp_packet_cases s TH_ACK data with ⟨hr, hsame⟩ | ⟨hr, hnxt, hframes⟩
  · -- refused by the segment size or the interface
    have hneg : s16 (usnet_send_tcp_packet s TH_ACK data).1 < 0 := by
      rcases usnet_send_tcp_packet_refused hr with hr | hr <;> rw [hr] <;> decide
    rw [if_pos hneg]
    exact .idle (Same.core hsame) (by simp [hsame])
  · simp only [synfin_ack, add_zero, hlen] at hr hnxt
    rw [hr]
    by_cases hneg : s16 (len.toNat : Int) < 0
    · rw [if_pos hneg]
      exact .overlong (s16_neg hlt hneg) (hcore _ rfl)
    · rw [if_neg hneg, s16_nonneg hlt hneg]
      refine .sent (by omega) hpos ?_ ?_
      · have := hcore _ hnxt
        ext <;> simp_all [UsnTcb.core]
      · simpa [hdata] using hframes

theorem flush_turn_done {s : Conn} {buf : UsnSendbuf} {maxlen window head tail : UInt32}
    {packets : Int} {turn : FlushTurn}
    (h : flush_turn s buf maxlen window head tail packets = .ok turn) :
    TurnDone s buf head (flush_len buf maxlen (buffered buf.size head tail)) turn := by
  unfold flush_turn at h
  simp only at h
  generalize flush_len buf maxlen (buffered buf.size head tail) = len at *
  by_cases hseq : TCP_SEQ_LT s.tcb.snd_nxt buf.head_seq
  · rw [if_pos hseq] at h
    cases h
  · rw [if_neg hseq] at h
    split at h
    · obtain rfl := Except.ok.inj h
      exact .idle rfl rfl
    · split at h
      · obtain rfl := Except.ok.inj h
        exact .idle rfl rfl
      · rename_i hlen
        split at h
        · obtain rfl := Except.ok.inj h
          exact no_window_done s buf head len
        · obtain rfl := Except.ok.inj h
          refine send_turn_done s buf head ?_
          have : len.toNat ≠ 0 := fun h0 => hlen (UInt16.toNat_inj.mp h0)
          omega

/-! ## Section 2: The loop -/

/-- Of the send buffer only `sent_head` moves. -/
structure FlushCore (s : Conn) (buf : UsnSendbuf) (s' : Conn) : Prop where
  core : ∃ sent_head, s'.tcb.core =
    { s.tcb.core with
      snd_nxt := s'.tcb.snd_nxt
      sndbuf := some { buf with sent_head := sent_head } }

theorem SameCore.flush {s s' : Conn} {buf : UsnSendbuf} (hbuf : s.tcb.sndvar.sndbuf = some buf)
    (h : SameCore s s') : FlushCore s buf s' := by
  have hnxt : s'.tcb.snd_nxt = s.tcb.snd_nxt := congrArg Core.snd_nxt h
  refine ⟨buf.sent_head, ?_⟩
  rw [h, hnxt]
  ext <;> simp [UsnTcb.core, hbuf]

theorem FlushCore.trans {s s' s'' : Conn} {buf buf' : UsnSendbuf} {sent_head : UInt32}
    (hbuf' : buf' = { buf with sent_head := sent_head }) (h : FlushCore s buf s')
    (h' : FlushCore s' buf' s'') : FlushCore s buf s'' := by
  obtain ⟨p, hp⟩ := h.core
  obtain ⟨q, hq⟩ := h'.core
  refine ⟨q, ?_⟩
  rw [hq, hp, hbuf']

theorem TurnDone.flush {s : Conn} {buf : UsnSendbuf} {head : UInt32} {len : UInt16}
    {turn : FlushTurn} (hbuf : s.tcb.sndvar.sndbuf = some buf)
    (h : TurnDone s buf head len turn) :
    match turn with
    | .stop _ s' => FlushCore s buf s'
    | .again s' buf' _ => FlushCore s buf s' ∧ s'.tcb.sndvar.sndbuf = some buf' ∧
        ∃ sent_head, buf' = { buf with sent_head := sent_head } := by
  cases h with
  | idle hs _ => exact hs.flush hbuf
  | overlong _ hs =>
    refine ⟨buf.sent_head, ?_⟩
    rw [hs]
    ext <;> simp [UsnTcb.core, hbuf]
  | sent _ _ hs _ =>
    refine ⟨⟨next_head buf.size head len.toNat, ?_⟩, congrArg Core.sndbuf hs, _, rfl⟩
    have hnxt := congrArg Core.snd_nxt hs
    rw [hs]
    ext <;> simp_all [UsnTcb.core]

theorem flush_loop_core {maxlen window tail : UInt32} (fuel : Nat) {s s' : Conn}
    {buf : UsnSendbuf} {head : UInt32} {packets r : Int}
    (hbuf : s.tcb.sndvar.sndbuf = some buf)
    (h : flush_loop maxlen window tail fuel s buf head packets = .ok (r, s')) :
    FlushCore s buf s' := by
  induction fuel generalizing s buf head packets with
  | zero => cases h
  | succ fuel ih =>
    unfold flush_loop at h
    split at h
    · cases h
    · rename_i hturn
      obtain ⟨rfl, rfl⟩ := h
      exact (flush_turn_done hturn).flush hbuf
    · rename_i s₁ buf₁ head₁ hturn
      obtain ⟨hcore, hbuf₁, p, hp⟩ := (flush_turn_done hturn).flush hbuf
      exact hcore.trans hp (ih hbuf₁ h)

theorem usnet_flush_tcp_sendbuf_core {s s' : Conn} {r : Int}
    (h : usnet_flush_tcp_sendbuf s = .ok (r, s')) :
    ∃ buf, s.tcb.sndvar.sndbuf = some buf ∧ FlushCore s buf s' := by
  unfold usnet_flush_tcp_sendbuf at h
  split at h
  · cases h
  · rename_i buf hbuf
    refine ⟨buf, hbuf, ?_⟩
    split at h
    · obtain ⟨-, rfl⟩ := h
      exact SameCore.flush hbuf rfl
    · exact flush_loop_core _ hbuf h

end Usnet
