import Usnet.SendPosition

/-! # Numbers behind the send buffer

    `usnet_flush_tcp_sendbuf` aborts where `snd_nxt` is before `head_seq`.  An
    acknowledgement of bytes that were never sent moves `head_seq` and `snd_nxt`
    together, but an old one moves `snd_nxt` alone, and a SYN moves it anywhere.
-/

namespace Usnet

open CInt Circular Run

/-! ## Section 1: What can still be sent -/

/-- The most that can be sent before anything is acknowledged: the bytes from
    `sent_head` to `tail`, and those that can be written behind them. -/
def UsnSendbuf.sendable (buf : UsnSendbuf) : Nat :=
  span buf.size.toNat buf.sent_head.toNat buf.tail.toNat + (buf.size.toNat - buf.bytes)

/-- The ring of a connection whose next number is `nxt`: that number, and all that
    can be sent from it on, is less than half the sequence space ahead. -/
structure SendAhead (buf : UsnSendbuf) (nxt : UInt32) : Prop where
  wf : IndexWf buf
  size : buf.size = SENDBUF_SIZE
  sent_le : buf.sent_head.toNat ≤ buf.size.toNat
  near : ahead buf.head_seq nxt + buf.sendable < 2 ^ 31

theorem SendAhead.not_before {buf : UsnSendbuf} {nxt : UInt32} (h : SendAhead buf nxt) :
    ¬ TCP_SEQ_LT nxt buf.head_seq := by
  have hnear := h.near
  unfold TCP_SEQ_LT
  rw [sint_sub_ahead buf.head_seq, ahead_self]
  split_ifs <;> omega

/-- Never more than twice the ring. -/
theorem sendable_le {buf : UsnSendbuf} (h : IndexWf buf) :
    buf.sendable ≤ 2 * buf.size.toNat := by
  have hspan : span buf.size.toNat buf.sent_head.toNat buf.tail.toNat ≤ buf.size.toNat :=
    span_le h.tail_le
  unfold UsnSendbuf.sendable
  omega

/-- A number within the ring's size is near enough. -/
theorem SendAhead.of_le {buf : UsnSendbuf} {nxt : UInt32} (hwf : IndexWf buf)
    (hsize : buf.size = SENDBUF_SIZE) (hsent : buf.sent_head.toNat ≤ buf.size.toNat)
    (hle : ahead buf.head_seq nxt ≤ buf.size.toNat) : SendAhead buf nxt := by
  have hsmall := sendbuf_small hsize
  have hsendable := sendable_le hwf
  exact ⟨hwf, hsize, hsent, by omega⟩

theorem SendAhead.made {slot : Option (Nat → UInt8)} {fd seq : UInt32} {buf : UsnSendbuf}
    {nxt : UInt32} (h : usnet_get_sendbuf slot SENDBUF_SIZE fd seq = some buf)
    (hnear : ahead seq nxt + SENDBUF_SIZE.toNat < 2 ^ 31) : SendAhead buf nxt := by
  have hwf := (Overcounts.made h).wf
  unfold usnet_get_sendbuf at h
  obtain ⟨mem, -, rfl⟩ := Option.map_eq_some_iff.mp h
  refine ⟨hwf, rfl, Nat.zero_le _, ?_⟩
  simp only [UsnSendbuf.sendable, UsnSendbuf.bytes, span, Nat.le_refl, if_true, Nat.sub_self,
    Nat.zero_add, Nat.sub_zero]
  exact hnear

/-- What is written was to be written before. -/
theorem SendAhead.written {buf buf' : UsnSendbuf} {nxt : UInt32} {data : List UInt8} {r : Int}
    (h : SendAhead buf nxt) (hw : usnet_write_data buf data = some (r, buf')) :
    SendAhead buf' nxt := by
  rcases usnet_write_data_cases data h.wf with ⟨-, hw'⟩ | ⟨hroom, buf₁, hw', hwf, hmoved⟩
  · rw [hw'] at hw
    obtain ⟨-, rfl⟩ := Prod.mk.inj (Option.some.inj hw)
    exact h
  · rw [hw'] at hw
    obtain ⟨-, rfl⟩ := Prod.mk.inj (Option.some.inj hw)
    obtain ⟨hwf₀, hsize, hle, hnear⟩ := h
    obtain ⟨hs, hh, hsh, hq⟩ := hmoved.ends
    have hbytes := hmoved.bytes
    have htail := hmoved.tail
    have hle' := hwf.tail_le
    have hsend : buf₁.sendable ≤ buf.sendable := by
      unfold UsnSendbuf.sendable span
      rw [hs, hsh]
      rw [hs] at hle'
      split_ifs <;> omega
    refine ⟨hwf, hs.trans hsize, ?_, ?_⟩
    · rw [hs, hsh]
      exact hle
    · rw [hq]
      omega

/-- What is acknowledged comes off the distance and is room for more. -/
theorem SendAhead.removed {buf : UsnSendbuf} {nxt : UInt32} {k : Nat} (h : SendAhead buf nxt)
    (hk : k ≤ buf.held) (hnxt : k ≤ ahead buf.head_seq nxt) :
    SendAhead (usnet_remove_data buf k).2 nxt := by
  obtain ⟨hwf, hsize, hle, hnear⟩ := h
  have hwf' := hwf.removed (Int.natCast_nonneg k)
  have hkb : k ≤ buf.bytes := by
    rw [held_eq hwf] at hk
    split at hk <;> omega
  have hb := bytes_le hwf
  have hbytes := bytes_removed hwf hkb
  obtain ⟨head, hrem, -⟩ := usnet_remove_data_held hwf hkb
  have hsend : (usnet_remove_data buf k).2.sendable ≤ buf.sendable + k := by
    unfold UsnSendbuf.sendable
    rw [usnet_remove_data_size, hbytes, hrem]
    simp only
    split_ifs <;> omega
  have hmoved : ahead (usnet_remove_data buf k).2.head_seq nxt = ahead buf.head_seq nxt - k := by
    rw [hrem]
    exact ahead_add_left hnxt
  refine ⟨hwf', ?_, ?_, ?_⟩
  · rw [usnet_remove_data_size]
    exact hsize
  · rw [usnet_remove_data_size, hrem]
    exact hle
  · rw [hmoved]
    omega

/-- Each segment sent comes off what can be sent. -/
theorem sendAhead_rule (buf : UsnSendbuf) :
    FlushRule buf fun nxt head _ => SendAhead { buf with sent_head := head } nxt := by
  rintro nxt head fs f len ⟨hwf, hsize, hle, hnear⟩ hpos hlen hend - -
  have hs := hwf.size_le
  have hnext := next_head_toNat hs hle (n := len) (by simp only; omega)
  rw [buffered_toNat hs hle] at hlen
  have hwf' : IndexWf { buf with sent_head := next_head buf.size head len } :=
    ⟨hwf.size_le, hwf.head_lt, hwf.tail_le⟩
  simp only at hle hnext
  have hless := span_wrap hle (by omega : buf.tail.toNat < buf.size.toNat) hlen
  unfold UsnSendbuf.sendable at hnear
  simp only at hnear
  have hspan : len ≤ span buf.size.toNat head.toNat buf.tail.toNat := hlen
  have hmoved : ahead buf.head_seq (nxt + u32 len) = ahead buf.head_seq nxt + len :=
    ahead_add_right (by omega)
  refine ⟨hwf', hsize, ?_, ?_⟩
  · simp only
    rw [hnext]
    exact wrap_le (by omega)
  · have hbytes : ({ buf with sent_head := next_head buf.size head len } : UsnSendbuf).bytes
        = ({ buf with sent_head := head } : UsnSendbuf).bytes := rfl
    unfold UsnSendbuf.sendable
    rw [hbytes]
    simp only
    rw [hmoved, hnext, hless]
    exact Nat.lt_of_le_of_lt (by omega) hnear

/-! ## Section 2: Acknowledgements -/

/-- The acknowledgement is of what is held; one before `head_seq` is neither the
    third duplicate nor, on its way around the sequence space, past `snd_nxt`. -/
structure ack_in_order (s : Conn) (buf : UsnSendbuf) (seg : Segment) : Prop where
  old : TCP_SEQ_LT seg.ack_seq buf.head_seq →
    third_dup (note_segment s seg) seg seg.ack_seq = false ∧
      ¬ TCP_SEQ_GT seg.ack_seq s.tcb.snd_nxt
  held : ¬ TCP_SEQ_GEQ buf.head_seq seg.ack_seq → ahead buf.head_seq seg.ack_seq ≤ buf.held

/-- `snd_nxt` after an acknowledgement is what it was, or the number acknowledged. -/
theorem nxt_after_ack_cases (s : Conn) (seg : Segment) (ack_seq : UInt32) :
    (nxt_after_ack s seg ack_seq = s.tcb.snd_nxt ∧ third_dup s seg ack_seq = false ∧
      ¬ TCP_SEQ_GT ack_seq s.tcb.snd_nxt) ∨
    (nxt_after_ack s seg ack_seq = ack_seq ∧
      ¬ (third_dup s seg ack_seq = false ∧ ¬ TCP_SEQ_GT ack_seq s.tcb.snd_nxt)) := by
  unfold nxt_after_ack
  by_cases hthird : third_dup s seg ack_seq
  · rw [if_pos hthird, hthird]
    exact .inr ⟨rfl, fun h => Bool.noConfusion h.1⟩
  · rw [if_neg hthird]
    by_cases hgt : TCP_SEQ_GT ack_seq s.tcb.snd_nxt
    · rw [if_pos hgt]
      exact .inr ⟨rfl, fun h => h.2 hgt⟩
    · rw [if_neg hgt]
      exact .inl ⟨rfl, Bool.not_eq_true _ ▸ hthird, hgt⟩

/-- An acknowledgement of nothing new. -/
theorem SendAhead.acked_old {s : Conn} {buf : UsnSendbuf} {seg : Segment}
    (h : SendAhead buf s.tcb.snd_nxt) (horder : ack_in_order s buf seg)
    (hgeq : TCP_SEQ_GEQ buf.head_seq seg.ack_seq) :
    SendAhead buf (nxt_after_ack (note_segment s seg) seg seg.ack_seq) := by
  have hnxt : (note_segment s seg).tcb.snd_nxt = s.tcb.snd_nxt := by simp
  rcases nxt_after_ack_cases (note_segment s seg) seg seg.ack_seq with
    ⟨heq, -⟩ | ⟨heq, hmoved⟩
  · rw [heq, hnxt]
    exact h
  · rw [hnxt] at hmoved
    rw [heq]
    -- moved to a number that is not before `head_seq`, and not behind it either
    have hnot : ¬ TCP_SEQ_LT seg.ack_seq buf.head_seq := fun hlt => hmoved (horder.old hlt)
    have hzero : ahead buf.head_seq seg.ack_seq = 0 := by
      unfold TCP_SEQ_LT at hnot
      unfold TCP_SEQ_GEQ at hgeq
      have hlt := ahead_lt buf.head_seq seg.ack_seq
      rw [sint_sub_ahead buf.head_seq, ahead_self] at hnot hgeq
      split_ifs at hnot hgeq <;> omega
    apply SendAhead.of_le h.wf h.size h.sent_le
    rw [hzero]
    exact Nat.zero_le _

/-- An acknowledgement of bytes held moves `head_seq` to its number. -/
theorem SendAhead.acked_new {s : Conn} {buf : UsnSendbuf} {seg : Segment}
    (h : SendAhead buf s.tcb.snd_nxt) (horder : ack_in_order s buf seg)
    (hfresh : ¬ TCP_SEQ_GEQ buf.head_seq seg.ack_seq) :
    ∃ buf', (usnet_remove_data buf (sint (seg.ack_seq - buf.head_seq))).2 = buf' ∧
      buf'.head_seq = seg.ack_seq ∧
      SendAhead buf' (nxt_after_ack (note_segment s seg) seg seg.ack_seq) := by
  have hle := horder.held hfresh
  have hlt := held_lt h.wf
  have hs := h.wf.size_le
  unfold INT_MAX at hs
  have hnear := h.near
  have hint : sint (seg.ack_seq - buf.head_seq) = (ahead buf.head_seq seg.ack_seq : Int) :=
    sint_of_lt (by unfold ahead at hle; omega)
  have hkb : ahead buf.head_seq seg.ack_seq ≤ buf.bytes := by
    rw [held_eq h.wf] at hle
    split at hle <;> omega
  have hseq : (usnet_remove_data buf (ahead buf.head_seq seg.ack_seq)).2.head_seq
      = seg.ack_seq := by
    obtain ⟨head, hrem, -⟩ := usnet_remove_data_held h.wf hkb
    rw [hrem]
    apply ahead_inj (a := buf.head_seq)
    simp only
    rw [ahead_add, toNat_u32_of_lt (ahead_lt _ _)]
  refine ⟨_, rfl, by rw [hint]; exact hseq, ?_⟩
  rw [hint]
  have hnxt : (note_segment s seg).tcb.snd_nxt = s.tcb.snd_nxt := by simp
  rcases nxt_after_ack_cases (note_segment s seg) seg seg.ack_seq with
    ⟨heq, -, hgt⟩ | ⟨heq, -⟩
  · rw [heq, hnxt]
    rw [hnxt] at hgt
    apply h.removed hle
    unfold TCP_SEQ_GT at hgt
    rw [sint_sub_ahead buf.head_seq] at hgt
    split_ifs at hgt <;> omega
  · rw [heq]
    have hwf' := h.wf.removed (Int.natCast_nonneg (ahead buf.head_seq seg.ack_seq))
    have hsent : (usnet_remove_data buf (ahead buf.head_seq seg.ack_seq)).2.sent_head
        = buf.sent_head := by
      obtain ⟨head, hrem, -⟩ := usnet_remove_data_held h.wf hkb
      rw [hrem]
    apply SendAhead.of_le hwf'
    · rw [usnet_remove_data_size]
      exact h.size
    · rw [usnet_remove_data_size, hsent]
      exact h.sent_le
    · rw [hseq, ahead_self]
      exact Nat.zero_le _

/-! ## Section 3: Runs -/

/-- Where the send buffer begins, or will begin. -/
def base_seq (t : UsnTcb) : UInt32 :=
  match t.sndvar.sndbuf with
  | some buf => buf.head_seq
  | none => t.sndvar.iss + 1

/-- What can be sent from it, or from the buffer to come. -/
def can_send (t : UsnTcb) : Nat :=
  match t.sndvar.sndbuf with
  | some buf => buf.sendable
  | none => SENDBUF_SIZE.toNat

/-- `snd_una`, in the handshake with the SYN counted. -/
def next_una (t : UsnTcb) : UInt32 :=
  if t.state = .established then t.sndvar.snd_una else t.sndvar.snd_una + 1

/-- What keeps `snd_nxt` from falling behind: an acknowledgement that passes the
    check is in order, and a SYN acknowledges a number from which on all that can
    be sent is less than half the sequence space ahead. -/
def keeps_order (s : Conn) : LifeEvent → Prop
  | .segment seg => s.tcb.state = .established → in_window s.tcb seg →
    (seg.has TH_SYN → (seg.has TH_RST → ¬ reset_accepted s.tcb seg) →
      ahead (base_seq s.tcb) seg.ack_seq + can_send s.tcb < 2 ^ 31) ∧
    ∀ buf, s.tcb.sndvar.sndbuf = some buf → ack_looked_at s.tcb seg →
      ¬ TCP_SEQ_GT seg.ack_seq (buf.head_seq + buf.len) → ack_in_order s buf seg
  | _ => True

/-- Up to the peer's FIN `snd_una` is where the buffer begins, and the next number
    is ahead of it. -/
structure OrderInv (t : UsnTcb) : Prop where
  life : LifeInv t
  una : opening t.state → next_una t = base_seq t
  without : opening t.state → t.sndvar.sndbuf = none →
    ahead (t.sndvar.iss + 1) (next_seq t) + SENDBUF_SIZE.toNat < 2 ^ 31
  ring : opening t.state → ∀ buf, t.sndvar.sndbuf = some buf → SendAhead buf (next_seq t)

theorem ring_near : SENDBUF_SIZE.toNat < 2 ^ 31 := by decide

theorem OrderInv.created {t : UsnTcb} (h : Created t) : OrderInv t := by
  obtain ⟨huna, hbuf, hfin⟩ := h.send
  have hnext : next_seq t = t.sndvar.iss + 1 := by
    unfold next_seq
    rw [h.state, if_neg (by decide)]
  refine ⟨⟨.inl h.state, hfin⟩, fun _ => ?_, fun _ _ => ?_, fun _ buf hb => ?_⟩
  · unfold next_una base_seq
    rw [h.state, if_neg (by decide), huna, hbuf]
  · rw [hnext, ahead_self, Nat.zero_add]
    exact ring_near
  · rw [hbuf] at hb
    cases hb

theorem OrderInv.near {t : UsnTcb} (h : OrderInv t) (ho : opening t.state) :
    ahead (base_seq t) (next_seq t) + can_send t < 2 ^ 31 := by
  unfold base_seq can_send
  cases hbuf : t.sndvar.sndbuf with
  | none => exact h.without ho hbuf
  | some buf => exact (h.ring ho buf hbuf).near

/-- It depends on these variables only; the next number may be any that is near. -/
theorem OrderInv.moved {t t' : UsnTcb} (h : OrderInv t) (hlife : LifeInv t')
    (hst : opening t'.state → opening t.state)
    (hnext : opening t'.state → ahead (base_seq t) (next_seq t') + can_send t < 2 ^ 31)
    (huna : opening t'.state → next_una t' = next_una t)
    (hiss : t'.sndvar.iss = t.sndvar.iss) (hbuf : t'.sndvar.sndbuf = t.sndvar.sndbuf) :
    OrderInv t' := by
  have hbase : base_seq t' = base_seq t := by
    unfold base_seq
    rw [hbuf, hiss]
  refine ⟨hlife, fun ho => ?_, fun ho hb => ?_, fun ho buf hb => ?_⟩
  · rw [huna ho, hbase]
    exact h.una (hst ho)
  · rw [hbuf] at hb
    have hnear := hnext ho
    unfold base_seq can_send at hnear
    rw [hb] at hnear
    rw [hiss]
    exact hnear
  · rw [hbuf] at hb
    have hnear := hnext ho
    unfold base_seq can_send at hnear
    rw [hb] at hnear
    obtain ⟨hwf, hsize, hle, -⟩ := h.ring (hst ho) buf hb
    exact ⟨hwf, hsize, hle, hnear⟩

/-- With the ring it has now. -/
theorem OrderInv.now {t' : UsnTcb} {buf' : UsnSendbuf} (hlife : LifeInv t')
    (hbuf : t'.sndvar.sndbuf = some buf')
    (huna : opening t'.state → next_una t' = buf'.head_seq)
    (hpos : opening t'.state → SendAhead buf' (next_seq t')) : OrderInv t' := by
  refine ⟨hlife, fun ho => ?_, fun _ hb => ?_, fun ho buf hb => ?_⟩
  · unfold base_seq
    rw [hbuf]
    exact huna ho
  · rw [hbuf] at hb
    cases hb
  · rw [hbuf] at hb
    exact Option.some.inj hb ▸ hpos ho

theorem next_una_congr {t t' : UsnTcb} (hst : t'.state = t.state)
    (huna : t'.sndvar.snd_una = t.sndvar.snd_una) : next_una t' = next_una t := by
  unfold next_una
  rw [hst, huna]

theorem OrderInv.step {s s' : Conn} {ev : LifeEvent} (h : OrderInv s.tcb)
    (hc : keeps_order s ev) (hok : life_conn s ev = .ok s') : OrderInv s'.tcb := by
  have hm := life_conn_move h.life hok
  have hlife := hm.inv h.life
  -- most events leave the numbers and the buffer alone
  have hsame : s'.tcb.state = s.tcb.state → (s.tcb.state = .established →
      s'.tcb.snd_nxt = s.tcb.snd_nxt) → s'.tcb.sndvar.snd_una = s.tcb.sndvar.snd_una →
      s'.tcb.sndvar.iss = s.tcb.sndvar.iss →
      s'.tcb.sndvar.sndbuf = s.tcb.sndvar.sndbuf → OrderInv s'.tcb := by
    intro hst hnxt huna hiss hbuf
    apply h.moved hlife (fun ho => hst ▸ ho) _ (fun _ => next_una_congr hst huna) hiss hbuf
    intro ho
    rw [next_seq_congr hst hnxt hiss]
    exact h.near (hst ▸ ho)
  cases hm with
  | control hct =>
    exact hsame hct.state (fun hest => hct.snd_nxt (.inl hest)) (congrArg Core.snd_una hct.core)
      (congrArg Core.iss hct.core) (congrArg Core.sndbuf hct.core)
  | closed hcl =>
    have hnot := not_opening_closed (congrArg Core.state hcl)
    exact ⟨hlife, fun ho => absurd ho hnot, fun ho => absurd ho hnot, fun ho => absurd ho hnot⟩
  | resent hs hre =>
    have hst : s'.tcb.state = s.tcb.state := congrArg Core.state hre
    have huna : s'.tcb.sndvar.snd_una = s.tcb.sndvar.snd_una := congrArg Core.snd_una hre
    apply h.moved hlife (fun ho => hst ▸ ho) _ (fun _ => next_una_congr hst huna)
      (congrArg Core.iss hre) (congrArg Core.sndbuf hre)
    intro ho
    have hest := established_of_sending hs (hst ▸ ho)
    -- back to where the buffer begins
    have hnext : next_seq s'.tcb = base_seq s.tcb := by
      rw [← h.una (.inr hest)]
      unfold next_seq next_una
      rw [if_pos (hst.trans hest), if_pos hest]
      exact congrArg Core.snd_nxt hre
    have hnear := h.near (.inr hest)
    rw [hnext, ahead_self]
    omega
  | @joined fd result sndbuf s₁ s' hbuf hcore hctl =>
    have hst : s'.tcb.state = s.tcb.state := hctl.state.trans (congrArg Core.state hcore)
    have hnxt : s.tcb.state = .established → s'.tcb.snd_nxt = s.tcb.snd_nxt := by
      intro hest
      have hst₁ : s₁.tcb.state = s.tcb.state := congrArg Core.state hcore
      exact (hctl.snd_nxt (.inl (hst₁.trans hest))).trans (congrArg Core.snd_nxt hcore)
    have hend := joined_core hcore hctl
    have huna : s'.tcb.sndvar.snd_una = s.tcb.sndvar.snd_una := congrArg Core.snd_una hend
    have hiss : s'.tcb.sndvar.iss = s.tcb.sndvar.iss := congrArg Core.iss hend
    have hsnd : s'.tcb.sndvar.sndbuf = sndbuf := congrArg Core.sndbuf hend
    rcases hbuf with hold | ⟨hnone, slot, hnew⟩
    · exact hsame hst hnxt huna hiss (hsnd.trans hold)
    · cases hmade : sndbuf with
      | none => exact hsame hst hnxt huna hiss (hsnd.trans (hmade.trans hnone.symm))
      | some buf' =>
        have hget := hnew.symm.trans hmade
        apply OrderInv.now hlife (hsnd.trans hmade)
        · intro ho
          have hbase := h.una (hst ▸ ho)
          unfold base_seq at hbase
          rw [hnone] at hbase
          rw [next_una_congr hst huna, hbase]
          unfold usnet_get_sendbuf at hget
          obtain ⟨mem, -, rfl⟩ := Option.map_eq_some_iff.mp hget
          rfl
        · intro ho
          rw [next_seq_congr hst hnxt hiss]
          exact .made hget (h.without (hst ▸ ho) hnone)
  | @written fd bytes buf buf' r s' hbuf hw hcore =>
    have hst : s'.tcb.state = s.tcb.state := congrArg Core.state hcore
    apply OrderInv.now hlife (congrArg Core.sndbuf hcore)
    · intro ho
      have hbase := h.una (hst ▸ ho)
      unfold base_seq at hbase
      rw [hbuf] at hbase
      rw [next_una_congr hst (congrArg Core.snd_una hcore), hbase]
      rcases usnet_write_data_cases bytes (h.ring (hst ▸ ho) _ hbuf).wf with
        ⟨-, hw'⟩ | ⟨-, buf₁, hw', -, hmoved⟩
      · rw [hw'] at hw
        obtain ⟨-, rfl⟩ := Prod.mk.inj (Option.some.inj hw)
        rfl
      · rw [hw'] at hw
        obtain ⟨-, rfl⟩ := Prod.mk.inj (Option.some.inj hw)
        exact hmoved.ends.2.2.2.symm
    · intro ho
      rw [next_seq_congr hst (fun _ => congrArg Core.snd_nxt hcore) (congrArg Core.iss hcore)]
      exact (h.ring (hst ▸ ho) _ hbuf).written hw
  | read hrd =>
    exact hsame (congrArg Core.state hrd) (fun _ => congrArg Core.snd_nxt hrd)
      (congrArg Core.snd_una hrd) (congrArg Core.iss hrd) (congrArg Core.sndbuf hrd)
  | @flushed s₀ s₁ s' r hs h₀ hfl h₁ =>
    obtain ⟨buf, p, hbuf, hcore⟩ := flushed_core h₀ hfl h₁
    have hbuf₀ : s₀.tcb.sndvar.sndbuf = some buf := (congrArg Core.sndbuf h₀).trans hbuf
    have hst : s'.tcb.state = s.tcb.state := congrArg Core.state hcore
    apply OrderInv.now hlife (congrArg Core.sndbuf hcore)
    · intro ho
      have hbase := h.una (hst ▸ ho)
      unfold base_seq at hbase
      rw [hbuf] at hbase
      rw [next_una_congr hst (congrArg Core.snd_una hcore), hbase]
    · intro ho
      have hest := established_of_sending hs (hst ▸ ho)
      have hring := h.ring (.inr hest) buf hbuf
      have hnext : next_seq s.tcb = s.tcb.snd_nxt := if_pos hest
      have hnext' : next_seq s'.tcb = s₁.tcb.snd_nxt :=
        (if_pos (hst.trans hest)).trans (congrArg Core.snd_nxt h₁)
      have hI : SendAhead { buf with sent_head := buf.sent_head } s₀.tcb.snd_nxt := by
        rw [show s₀.tcb.snd_nxt = s.tcb.snd_nxt from congrArg Core.snd_nxt h₀, ← hnext]
        exact hring
      obtain ⟨head, fs, hb, -, hahead⟩ := (sendAhead_rule buf).flush (sendbuf_small hring.size)
        hring.wf.tail_le hbuf₀ hI hfl
      have hhead : p = head := by
        have hb' : s'.tcb.sndvar.sndbuf = _ := (congrArg Core.sndbuf h₁).trans hb
        have heq := (congrArg Core.sndbuf hcore).symm.trans hb'
        exact congrArg UsnSendbuf.sent_head (Option.some.inj heq)
      rw [hnext', hhead]
      exact hahead
  | opened hst hack hseq hop =>
    have hst' : s'.tcb.state = .established := congrArg Core.state hop
    have hnext : next_seq s'.tcb = next_seq s.tcb := by
      unfold next_seq
      rw [if_pos hst', hst, if_neg (by decide), ← hseq]
      exact congrArg Core.snd_nxt hop
    have huna : next_una s'.tcb = next_una s.tcb := by
      unfold next_una
      rw [if_pos hst', hst, if_neg (by decide)]
      exact congrArg Core.snd_una hop
    apply h.moved hlife (fun _ => .inl hst) _ (fun _ => huna) (congrArg Core.iss hop)
      (congrArg Core.sndbuf hop)
    intro _
    rw [hnext]
    exact h.near (.inl hst)
  | @resynced seg s' hst hwin hrst hsyn hre =>
    have hst' : s'.tcb.state = s.tcb.state := congrArg Core.state hre
    apply h.moved hlife (fun _ => .inr hst) _
      (fun _ => next_una_congr hst' (congrArg Core.snd_una hre)) (congrArg Core.iss hre)
      (congrArg Core.sndbuf hre)
    intro _
    have hnext : next_seq s'.tcb = seg.ack_seq :=
      (if_pos (hst'.trans hst)).trans (congrArg Core.snd_nxt hre)
    rw [hnext]
    exact (hc hst hwin).1 hsyn hrst
  | @handled seg s' hwin hh =>
    have hiss := hh.kept.2.2.1
    have hopen := hh.stays_open
    rcases hh.send with ⟨hnxt, huna, hbuf⟩ | ⟨buf, ha⟩
    · apply h.moved hlife (fun ho => .inr (hopen ho).1) _
        (fun ho => next_una_congr (hopen ho).2 huna) hiss hbuf
      intro ho
      rw [next_seq_congr (hopen ho).2 (fun _ => hnxt) hiss]
      exact h.near (.inr (hopen ho).1)
    · have horder : opening s'.tcb.state → ack_in_order s buf seg := fun ho =>
        (hc (hopen ho).1 hwin).2 buf ha.sndbuf ha.looked_at ha.passes
      have hnext : opening s'.tcb.state →
          next_seq s'.tcb = nxt_after_ack (note_segment s seg) seg seg.ack_seq := by
        intro ho
        obtain ⟨hest, hst⟩ := hopen ho
        exact (if_pos (hst.trans hest)).trans ha.snd_nxt
      have hring : opening s'.tcb.state → SendAhead buf s.tcb.snd_nxt := by
        intro ho
        rw [← show next_seq s.tcb = s.tcb.snd_nxt from if_pos (hopen ho).1]
        exact h.ring (.inr (hopen ho).1) buf ha.sndbuf
      rcases ha.data with ⟨hgeq, huna, hbuf⟩ | ⟨hfresh, huna, hbuf⟩
      · apply OrderInv.now hlife hbuf
        · intro ho
          have hbase := h.una (.inr (hopen ho).1)
          unfold base_seq at hbase
          rw [ha.sndbuf] at hbase
          rw [next_una_congr (hopen ho).2 huna, hbase]
        · intro ho
          rw [hnext ho]
          exact (hring ho).acked_old (horder ho) hgeq
      · apply OrderInv.now hlife hbuf
        · intro ho
          obtain ⟨buf', rfl, hseq, -⟩ := (hring ho).acked_new (horder ho) hfresh
          rw [hseq]
          unfold next_una
          rw [if_pos ((hopen ho).2.trans (hopen ho).1)]
          exact huna
        · intro ho
          obtain ⟨buf', rfl, -, hahead⟩ := (hring ho).acked_new (horder ho) hfresh
          rw [hnext ho]
          exact hahead

/-- In every run in which acknowledgements are in order and SYNs acknowledge a
    number that is near: on an established connection `snd_nxt` is not before the
    send buffer, and no flush aborts for a number that is. -/
theorem snd_nxt_not_behind {t : UsnTcb} {buf : UsnSendbuf}
    (h : LifeWhere keeps_order (some t)) (hst : t.state = .established)
    (hbuf : t.sndvar.sndbuf = some buf) :
    ¬ TCP_SEQ_LT t.snd_nxt buf.head_seq ∧
    ∀ c, usnet_flush_tcp_sendbuf ⟨c, t⟩ ≠ .error .invalid_sequence := by
  have hinv : OrderInv t :=
    h.invariant (fun _ _ _ _ _ hin => .created (usnet_tcp_input_created hin))
      (fun _ _ _ hi hc hok => hi.step hc hok)
  have hring := hinv.ring (.inr hst) buf hbuf
  rw [show next_seq t = t.snd_nxt from if_pos hst] at hring
  refine ⟨hring.not_before, fun c => ?_⟩
  apply (sendAhead_rule buf).no_abort (sendbuf_small hring.size) hring.wf.tail_le
  · intro nxt head fs hI
    exact hI.not_before
  · exact hbuf
  · exact hring

theorem first_acked_orders : LifeWhere keeps_order (some first_acked_tcb) := by
  have hopened : LifeWhere keeps_order (some opened_tcb) := by
    apply LifeWhere.run (.init rfl) _ opened_tcb_run
    refine ⟨fun _ ht => (nomatch ht), fun _ _ => trivial, fun t ht hst => ?_, trivial⟩
    obtain rfl := Option.some.inj ht
    cases hst
  have hsending : LifeWhere keeps_order (some sending_tcb) := by
    apply hopened.run _
      (show life_run (some opened_tcb) sent_three = .ok (some sending_tcb) from rfl)
    exact ⟨fun _ _ => trivial, fun _ _ => trivial, fun _ _ => trivial, trivial⟩
  apply hsending.run _ (show life_run (some sending_tcb)
    [(quiet_ctx, .segment (bare_ack 5002))] = .ok (some first_acked_tcb) from rfl)
  refine ⟨fun t ht _ _ => ⟨nofun, fun buf hbuf _ _ => ?_⟩, trivial⟩
  obtain rfl := Option.some.inj ht
  obtain rfl := Option.some.inj hbuf
  constructor
  · intro hold
    exact absurd hold (by decide +kernel)
  · intro _
    decide +kernel

theorem snd_nxt_not_behind_sample :
    ¬ TCP_SEQ_LT first_acked_tcb.snd_nxt first_acked_ring.head_seq ∧
    ∀ c, usnet_flush_tcp_sendbuf ⟨c, first_acked_tcb⟩ ≠ .error .invalid_sequence :=
  snd_nxt_not_behind first_acked_orders rfl rfl

/-- Three bytes are written, and the peer sends a SYN that acknowledges one number
    less than was acknowledged before. -/
def syn_back : List (Ctx × LifeEvent) :=
  [(quiet_ctx, .write 5 [1, 2, 3]),
   (quiet_ctx, .segment (peer_segment 9001 5000 (TH_SYN ||| TH_ACK) [] nil_short)),
   (quiet_ctx, .wrote true 5)]

def syn_back_tcb : UsnTcb := (life_run (some opened_tcb) syn_back).toOption.join.get rfl

def syn_back_ring : UsnSendbuf := syn_back_tcb.sndvar.sndbuf.get rfl

/-- The visit of the send list that follows stops the process. -/
theorem syn_stops_process :
    LifeReachable (some syn_back_tcb) ∧ syn_back_tcb.state = .established ∧
    syn_back_tcb.sndvar.sndbuf = some syn_back_ring ∧
    TCP_SEQ_LT syn_back_tcb.snd_nxt syn_back_ring.head_seq ∧
    usnet_flush_tcp_sendbuf ⟨quiet_ctx, syn_back_tcb⟩ = .error .invalid_sequence ∧
    data_visit ⟨quiet_ctx, syn_back_tcb⟩ = .error .invalid_sequence := by
  have hreach : LifeReachable (some syn_back_tcb) :=
    opened_tcb_reachable.run (life_run_meets_true _ _)
      (show life_run (some opened_tcb) syn_back = .ok (some syn_back_tcb) from rfl)
  refine ⟨hreach, rfl, rfl, ?_, rfl, rfl⟩
  decide +kernel

end Usnet
