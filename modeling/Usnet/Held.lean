import Usnet.AckFlow
import Usnet.Blocked
import Usnet.Window

/-! # What the send ring holds, and what may be acknowledged

    `usnet_process_ack` checks the number against `head_seq + len`.  The length
    is computed afresh by each write that is taken, and by nothing else: after a
    removal it still counts the bytes that are gone.
-/

namespace Usnet

open CInt Circular Run

/-! ## Section 1: The bytes held -/

/-- `(tail - head) mod size`. -/
def UsnSendbuf.held (buf : UsnSendbuf) : Nat :=
  (buf.size.toNat + buf.tail.toNat - buf.head.toNat) % buf.size.toNat

theorem held_lt {buf : UsnSendbuf} (h : IndexWf buf) : buf.held < buf.size.toNat :=
  Nat.mod_lt _ (Nat.zero_lt_of_lt h.head_lt)

/-- The code's own count is the same, except that it takes an empty ring whose
    `tail` rests at the end of the block for a full one. -/
theorem held_eq {buf : UsnSendbuf} (h : IndexWf buf) :
    buf.held = if buf.bytes = buf.size.toNat then 0 else buf.bytes := by
  obtain ⟨hs, hh, ht⟩ := h
  unfold UsnSendbuf.held UsnSendbuf.bytes
  by_cases hrest : buf.head.toNat = 0 ∧ buf.tail.toNat = buf.size.toNat
  · obtain ⟨hzero, hend⟩ := hrest
    rw [hzero, hend, Nat.sub_zero, Nat.add_mod_left, Nat.mod_self, if_pos (Nat.zero_le _),
      Nat.sub_zero, if_pos rfl]
  · rw [mod_wrap (by omega)]
    split_ifs <;> omega

/-- What was taken off the front is missing. -/
theorem held_removed {buf : UsnSendbuf} {n : Nat} (h : IndexWf buf) (hn : n ≤ buf.held) :
    (usnet_remove_data buf n).2.held = buf.held - n := by
  have hb := bytes_le h
  have hpos := Nat.zero_lt_of_lt h.head_lt
  rw [held_eq h] at hn ⊢
  have hle : n ≤ buf.bytes := by
    split at hn <;> omega
  rw [held_eq (h.removed (Int.natCast_nonneg n)), usnet_remove_data_size, bytes_removed h hle]
  split_ifs at hn ⊢ <;> omega

/-- The `len` of a ring from which `n` bytes were taken since it was computed. -/
structure Overcounts (buf : UsnSendbuf) (n : Nat) : Prop where
  wf : IndexWf buf
  len : buf.len.toNat = buf.held + n
  le : buf.len.toNat ≤ buf.size.toNat

theorem Overcounts.made {slot : Option (Nat → UInt8)} {fd seq : UInt32} {buf : UsnSendbuf}
    (h : usnet_get_sendbuf slot SENDBUF_SIZE fd seq = some buf) : Overcounts buf 0 := by
  unfold usnet_get_sendbuf at h
  obtain ⟨mem, -, rfl⟩ := Option.map_eq_some_iff.mp h
  refine ⟨⟨?_, ?_, ?_⟩, ?_, ?_⟩
  · show SENDBUF_SIZE.toNat ≤ INT_MAX
    decide
  · show (0 : UInt32).toNat < SENDBUF_SIZE.toNat
    decide
  · exact Nat.zero_le _
  · show (0 : UInt32).toNat = (SENDBUF_SIZE.toNat + 0 - 0) % SENDBUF_SIZE.toNat + 0
    decide
  · exact Nat.zero_le _

/-- Of the indices `sent_head` does not count. -/
theorem Overcounts.sent {buf : UsnSendbuf} {n : Nat} (h : Overcounts buf n)
    (sent_head : UInt32) : Overcounts { buf with sent_head := sent_head } n := by
  obtain ⟨⟨hs, hh, ht⟩, hlen, hle⟩ := h
  exact ⟨⟨hs, hh, ht⟩, hlen, hle⟩

/-- A write moves neither end from which bytes are taken. -/
theorem TailMoved.ends {buf buf' : UsnSendbuf} {n : Nat} (h : TailMoved buf buf' n) :
    buf'.size = buf.size ∧ buf'.head = buf.head ∧ buf'.sent_head = buf.sent_head ∧
    buf'.head_seq = buf.head_seq := by
  have hsize := congrArg UsnSendbuf.size h.rest
  have hhead := congrArg UsnSendbuf.head h.rest
  have hsent := congrArg UsnSendbuf.sent_head h.rest
  have hseq := congrArg UsnSendbuf.head_seq h.rest
  exact ⟨hsize, hhead, hsent, hseq⟩

/-- A write that is taken counts everything again. -/
theorem Overcounts.written {buf buf' : UsnSendbuf} {n : Nat} {data : List UInt8} {r : Int}
    (h : Overcounts buf n) (hw : usnet_write_data buf data = some (r, buf')) :
    Overcounts buf' (if 0 ≤ r then 0 else n) := by
  rcases usnet_write_data_cases data h.wf with ⟨-, hw'⟩ | ⟨hroom, buf₁, hw', hwf, hmoved⟩
  · rw [hw'] at hw
    obtain ⟨rfl, rfl⟩ := Prod.mk.inj (Option.some.inj hw)
    exact h
  · rw [hw'] at hw
    obtain ⟨rfl, rfl⟩ := Prod.mk.inj (Option.some.inj hw)
    have hsize := hmoved.ends.1
    have hs := hwf.size_le
    unfold INT_MAX at hs
    have hbytes := hmoved.bytes
    rw [if_pos (by omega)]
    have hlen : buf₁.len.toNat = buf₁.bytes := by
      rw [hmoved.len, toNat_u32_of_lt (by rw [hsize] at hs; omega)]
    refine ⟨hwf, ?_, ?_⟩
    · rw [hlen, held_eq hwf, if_neg (by rw [hsize]; omega)]
      rfl
    · rw [hlen]
      exact bytes_le hwf

/-- A removal takes what it takes off the ring, and leaves `len`. -/
theorem Overcounts.removed {buf : UsnSendbuf} {n k : Nat} (h : Overcounts buf n)
    (hk : k ≤ buf.held) :
    Overcounts (usnet_remove_data buf k).2 (n + k) ∧
      ahead buf.head_seq (usnet_remove_data buf k).2.head_seq = k := by
  have hheld := held_removed h.wf hk
  have hlt := held_lt h.wf
  have hwf := h.wf.removed (Int.natCast_nonneg k)
  have hle : k ≤ buf.bytes := by
    rw [held_eq h.wf] at hk
    split at hk <;> omega
  obtain ⟨hs, hh, ht⟩ := h.wf
  unfold INT_MAX at hs
  have hlen := h.len
  obtain ⟨head, hrem, -⟩ := usnet_remove_data_held h.wf hle
  refine ⟨⟨hwf, ?_, ?_⟩, ?_⟩
  · rw [hheld, hrem]
    simp only
    omega
  · rw [usnet_remove_data_size, hrem]
    exact h.le
  · rw [hrem]
    simp only
    rw [ahead_add, toNat_u32_of_lt (by omega)]

/-! ## Section 2: What an event does to the ring -/

/-- The write finds the ring of its descriptor and enough room in it. -/
def write_taken (t : UsnTcb) (fd : UInt32) (bytes : List UInt8) : Bool :=
  match usnet_write t fd bytes with
  | .ok (ret, _) => 0 ≤ ret
  | .error _ => false

/-- The acknowledgement of the segment comes to the first check of
    `usnet_process_ack`. -/
structure ack_checked (t : UsnTcb) (seg : Segment) : Prop where
  own : addressed t seg = true
  in_window : in_window t seg
  looked_at : ack_looked_at t seg

/-- The acknowledgement passes the checks in front of `usnet_remove_data`. -/
structure asks_removal (buf : UsnSendbuf) (ack_seq : UInt32) : Prop where
  passes : ¬ TCP_SEQ_GT ack_seq (buf.head_seq + buf.len)
  fresh : ¬ TCP_SEQ_GEQ buf.head_seq ack_seq

/-- What becomes of the send ring. -/
inductive RingMove (s s' : Conn) : LifeEvent → Prop where
  | kept {ev : LifeEvent} : (∀ fd bytes, ev ≠ .write fd bytes) →
      s'.tcb.sndvar.sndbuf = s.tcb.sndvar.sndbuf → RingMove s s' ev
  | made {so : Bool} {fd : UInt32} {result : Int} {slot : Option (Nat → UInt8)} :
      s.tcb.sndvar.sndbuf = none →
      s'.tcb.sndvar.sndbuf = usnet_get_sendbuf slot SENDBUF_SIZE fd (s.tcb.sndvar.iss + 1) →
      RingMove s s' (.accept so fd result)
  | unwritten {fd : UInt32} {bytes : List UInt8} : write_taken s.tcb fd bytes = false →
      s'.tcb.sndvar.sndbuf = s.tcb.sndvar.sndbuf → RingMove s s' (.write fd bytes)
  | written {fd : UInt32} {bytes : List UInt8} {buf buf' : UsnSendbuf} {r : Int} :
      s.tcb.sndvar.sndbuf = some buf → usnet_write_data buf bytes = some (r, buf') →
      (write_taken s.tcb fd bytes = true ↔ 0 ≤ r) → s'.tcb.sndvar.sndbuf = some buf' →
      RingMove s s' (.write fd bytes)
  | flushed {buf : UsnSendbuf} {sent_head : UInt32} : s.tcb.sndvar.sndbuf = some buf →
      s'.tcb.sndvar.sndbuf = some { buf with sent_head := sent_head } → RingMove s s' .data
  | removed {seg : Segment} {buf : UsnSendbuf} : s.tcb.sndvar.sndbuf = some buf →
      ack_checked s.tcb seg → asks_removal buf seg.ack_seq →
      s'.tcb.sndvar.sndbuf
        = some (usnet_remove_data buf (sint (seg.ack_seq - buf.head_seq))).2 →
      RingMove s s' (.segment seg)

/-- The application's write. -/
theorem app_write_ring {s s' : Conn} {fd : UInt32} {bytes : List UInt8}
    (hok : app_write s fd bytes = .ok s') : RingMove s s' (.write fd bytes) := by
  unfold app_write at hok
  have htaken : write_taken s.tcb fd bytes = match usnet_write s.tcb fd bytes with
      | .ok (ret, _) => decide (0 ≤ ret)
      | .error _ => false := rfl
  unfold usnet_write at hok htaken
  cases hbuf : s.tcb.sndvar.sndbuf with
  | none =>
    simp only [hbuf] at hok htaken
    obtain rfl := Except.ok.inj hok
    exact .unwritten htaken rfl
  | some buf =>
    simp only [hbuf] at hok htaken
    by_cases hfd : buf.fd ≠ fd
    · rw [if_pos hfd] at hok htaken
      obtain rfl := Except.ok.inj hok
      exact .unwritten htaken rfl
    · rw [if_neg hfd] at hok htaken
      cases hw : usnet_write_data buf bytes with
      | none =>
        rw [hw] at hok
        cases hok
      | some p =>
        obtain ⟨r, buf'⟩ := p
        rw [hw] at hok htaken
        obtain rfl := Except.ok.inj hok
        refine .written hbuf hw ?_ rfl
        rw [htaken]
        exact decide_eq_true_iff

/-- The ring under any event. -/
theorem life_conn_ring {s s' : Conn} {ev : LifeEvent} (h : LifeInv s.tcb)
    (hok : life_conn s ev = .ok s') : RingMove s s' ev := by
  by_cases hwrite : ∃ fd bytes, ev = .write fd bytes
  · obtain ⟨fd, bytes, rfl⟩ := hwrite
    exact app_write_ring hok
  have hno : ∀ fd bytes, ev ≠ .write fd bytes := fun fd bytes heq => hwrite ⟨fd, bytes, heq⟩
  cases life_conn_move h hok with
  | control hc => exact .kept hno (congrArg Core.sndbuf hc.core)
  | closed hc => exact .kept hno (congrArg Core.sndbuf hc)
  | resent _ hc => exact .kept hno (congrArg Core.sndbuf hc)
  | @joined fd result sndbuf s₁ s' hbuf hcore hctl =>
    have heq : s'.tcb.sndvar.sndbuf = sndbuf := congrArg Core.sndbuf (joined_core hcore hctl)
    rcases hbuf with hsame | ⟨hnone, slot, hnew⟩
    · exact .kept hno (heq.trans hsame)
    · exact .made hnone (heq.trans hnew)
  | written => exact absurd rfl (hno _ _)
  | read hc => exact .kept hno (congrArg Core.sndbuf hc)
  | flushed _ h₀ hfl h₁ =>
    obtain ⟨buf, p, hbuf, hc⟩ := flushed_core h₀ hfl h₁
    exact .flushed hbuf (congrArg Core.sndbuf hc)
  | opened _ _ _ hc => exact .kept hno (congrArg Core.sndbuf hc)
  | resynced _ _ _ _ hc => exact .kept hno (congrArg Core.sndbuf hc)
  | @handled seg s' hwin hh =>
    rcases hh.send with ⟨-, -, hsame⟩ | ⟨buf, ha⟩
    · exact .kept hno hsame
    · rcases ha.data with ⟨-, -, hsame⟩ | ⟨hfresh, -, hrem⟩
      · exact .kept hno (hsame.trans ha.sndbuf.symm)
      -- a segment of another connection is not handled at all
      · cases hown : addressed s.tcb seg with
        | false =>
          simp only [life_conn, hown, Bool.false_eq_true, if_false] at hok
          obtain rfl := Except.ok.inj hok
          exact .kept hno rfl
        | true =>
          exact .removed ha.sndbuf ⟨hown, hwin, ha.looked_at⟩ ⟨ha.passes, hfresh⟩ hrem

/-! ## Section 3: Runs -/

/-- A connection, and the number of bytes acknowledged since the last write that
    was taken. -/
structure HeldRun where
  tcb : UsnTcb
  since : Nat

/-- How far an event moved `head_seq`. -/
def taken_off (t t' : UsnTcb) : Nat :=
  match t.sndvar.sndbuf, t'.sndvar.sndbuf with
  | some buf, some buf' => ahead buf.head_seq buf'.head_seq
  | _, _ => 0

def HeldRun.after (σ : HeldRun) (ev : LifeEvent) (t' : UsnTcb) : HeldRun where
  tcb := t'
  since :=
    match ev with
    | .write fd bytes => if write_taken σ.tcb fd bytes then 0 else σ.since
    | .segment _ => σ.since + taken_off σ.tcb t'
    | _ => σ.since

/-- A connection that has no send ring yet.  It gets one when it is accepted. -/
structure HeldRun.Start (σ : HeldRun) : Prop where
  reachable : LifeReachable (some σ.tcb)
  without : σ.tcb.sndvar.sndbuf = none
  since : σ.since = 0

def HeldStep (σ : HeldRun) (a : Ctx × LifeEvent) (σ' : HeldRun) : Prop :=
  ConnStep σ.tcb a σ'.tcb ∧ σ' = σ.after a.2 σ'.tcb

/-- The number lies behind the last byte held. -/
def beyond_held (buf : UsnSendbuf) (ack_seq : UInt32) : Prop :=
  TCP_SEQ_GT ack_seq (buf.head_seq + u32 buf.held)

/-- The number lies behind the last byte held, by no more than the `n` bytes that
    `len` counts too many, or half the sequence space ahead of a ring whose `len`
    is zero. -/
def stale_ack (buf : UsnSendbuf) (n : Nat) (ack_seq : UInt32) : Prop :=
  buf.held < ahead buf.head_seq ack_seq ∧ ahead buf.head_seq ack_seq ≤ buf.held + n ∨
    buf.held + n = 0 ∧ ahead buf.head_seq ack_seq = 2 ^ 31

/-- No acknowledgement that is checked is such a one. -/
def HeldCond (σ : HeldRun) (a : Ctx × LifeEvent) : Prop :=
  ∀ seg buf, a.2 = .segment seg → ack_checked σ.tcb seg →
    σ.tcb.sndvar.sndbuf = some buf → ¬ stale_ack buf σ.since seg.ack_seq

/-- `len` counts the bytes held and those acknowledged since it was computed. -/
structure HeldRun.Inv (σ : HeldRun) : Prop where
  life : LifeInv σ.tcb
  without : σ.tcb.sndvar.sndbuf = none → σ.since = 0
  ring : ∀ buf, σ.tcb.sndvar.sndbuf = some buf → Overcounts buf σ.since

theorem HeldRun.Inv.start {σ : HeldRun} (h : σ.Start) : σ.Inv := by
  refine ⟨(rcvInv_of_life h.reachable).life, fun _ => h.since, fun buf hbuf => ?_⟩
  rw [h.without] at hbuf
  cases hbuf

/-! ## Section 4: What passes the check -/

/-- The check lets pass what lies within `len`, and half the sequence space ahead
    of a `len` of zero. -/
theorem Overcounts.asks_iff {buf : UsnSendbuf} {n : Nat} (h : Overcounts buf n)
    (ack_seq : UInt32) :
    asks_removal buf ack_seq ↔
      0 < ahead buf.head_seq ack_seq ∧ ahead buf.head_seq ack_seq ≤ buf.held + n ∨
      buf.held + n = 0 ∧ ahead buf.head_seq ack_seq = 2 ^ 31 := by
  have hs := h.wf.size_le
  have hle := h.le
  have hlen := h.len
  unfold INT_MAX at hs
  have hlt := ahead_lt buf.head_seq ack_seq
  have hgt : TCP_SEQ_GT ack_seq (buf.head_seq + buf.len) ↔
      sint (ack_seq - (buf.head_seq + buf.len)) > 0 := Iff.rfl
  have hgeq : TCP_SEQ_GEQ buf.head_seq ack_seq ↔ sint (buf.head_seq - ack_seq) ≥ 0 := Iff.rfl
  rw [sint_sub_ahead buf.head_seq, ahead_add] at hgt
  rw [sint_sub_ahead buf.head_seq, ahead_self] at hgeq
  constructor
  · rintro ⟨h₁, h₂⟩
    rw [hgt] at h₁
    rw [hgeq] at h₂
    split_ifs at h₁ h₂ <;> omega
  · intro hor
    constructor
    · rw [hgt]
      split_ifs <;> omega
    · rw [hgeq]
      split_ifs <;> omega

/-- Of these, the removal asked for is held unless the number is a stale one. -/
theorem Overcounts.removal_iff {buf : UsnSendbuf} {n : Nat} (h : Overcounts buf n)
    (ack_seq : UInt32) :
    (asks_removal buf ack_seq → ahead buf.head_seq ack_seq ≤ buf.held) ↔
      ¬ stale_ack buf n ack_seq := by
  have hlt := held_lt h.wf
  have hs := h.wf.size_le
  unfold INT_MAX at hs
  rw [h.asks_iff]
  unfold stale_ack
  omega

/-- A number behind the last byte held passes exactly when it is a stale one. -/
theorem Overcounts.beyond_iff {buf : UsnSendbuf} {n : Nat} (h : Overcounts buf n)
    {ack_seq : UInt32} (hb : beyond_held buf ack_seq) :
    TCP_SEQ_GT ack_seq (buf.head_seq + buf.len) ↔
      buf.held + n < ahead buf.head_seq ack_seq := by
  have hs := h.wf.size_le
  have hlt := held_lt h.wf
  have hle := h.le
  have hlen := h.len
  unfold INT_MAX at hs
  have halt := ahead_lt buf.head_seq ack_seq
  unfold beyond_held TCP_SEQ_GT at *
  rw [sint_sub_ahead buf.head_seq, ahead_add, toNat_u32_of_lt (by omega)] at hb
  rw [sint_sub_ahead buf.head_seq, ahead_add]
  split_ifs at hb ⊢ <;> omega

/-- What is refused changes nothing, and what is not refused is not answered so. -/
theorem usnet_process_ack_refused_iff {s : Conn} {buf : UsnSendbuf} {seg : Segment}
    (hst : s.tcb.state = .established) :
    usnet_process_ack s buf seg = .ok (-1, s) ↔
      TCP_SEQ_GT seg.ack_seq (buf.head_seq + buf.len) := by
  have hcount : counted_ack s seg.ack_seq = seg.ack_seq := by
    unfold counted_ack
    rw [hst]
  unfold usnet_process_ack
  simp only [hcount]
  constructor
  · intro hok
    by_contra hno
    rw [if_neg hno] at hok
    rcases (process_valid_ack_done hok).data with ⟨hr, -⟩ | ⟨hr, -⟩
    · omega
    · omega
  · intro hgt
    rw [if_pos hgt]

/-- In a state of the run every number behind the last byte held is refused
    exactly when nothing was acknowledged since the last write that was taken. -/
theorem Overcounts.refuses_iff {t : UsnTcb} {buf : UsnSendbuf} {n : Nat}
    (h : Overcounts buf n) (hst : t.state = .established) :
    (∀ c seg, beyond_held buf seg.ack_seq →
      usnet_process_ack ⟨c, t⟩ buf seg = .ok (-1, ⟨c, t⟩)) ↔ n = 0 := by
  have hs := h.wf.size_le
  have hlt := held_lt h.wf
  have hle := h.le
  have hlen := h.len
  unfold INT_MAX at hs
  constructor
  · intro hall
    by_contra hpos
    -- the first number behind the last byte
    have hahead : ahead buf.head_seq (buf.head_seq + u32 (buf.held + 1 : Nat)) = buf.held + 1 := by
      rw [ahead_add, toNat_u32_of_lt (by omega)]
    have hbeyond : beyond_held buf (buf.head_seq + u32 (buf.held + 1 : Nat)) := by
      unfold beyond_held TCP_SEQ_GT
      rw [sint_sub_ahead buf.head_seq, hahead, ahead_add, toNat_u32_of_lt (by omega)]
      split_ifs <;> omega
    have hrun := hall quiet_ctx (bare_ack (buf.head_seq + u32 (buf.held + 1 : Nat))) hbeyond
    have hgt := (usnet_process_ack_refused_iff (by exact hst)).mp hrun
    have hmore := (h.beyond_iff hbeyond).mp hgt
    omega
  · intro hzero c seg hb
    apply (usnet_process_ack_refused_iff (by exact hst)).mpr
    rw [h.beyond_iff hb, hzero]
    have halt := ahead_lt buf.head_seq seg.ack_seq
    unfold beyond_held TCP_SEQ_GT at hb
    rw [sint_sub_ahead buf.head_seq, ahead_add, toNat_u32_of_lt (by omega)] at hb
    split_ifs at hb <;> omega

/-! ## Section 5: Steps -/

/-- A removal that is asked for is of what is held. -/
theorem HeldRun.Inv.removal {σ : HeldRun} {c : Ctx} {seg : Segment} {buf : UsnSendbuf}
    (h : σ.Inv) (hc : HeldCond σ (c, .segment seg)) (hbuf : σ.tcb.sndvar.sndbuf = some buf)
    (hchk : ack_checked σ.tcb seg) (hask : asks_removal buf seg.ack_seq) :
    ∃ k, k ≤ buf.held ∧ sint (seg.ack_seq - buf.head_seq) = (k : Int) := by
  have hover := h.ring buf hbuf
  have hs := hover.wf.size_le
  have hlt := held_lt hover.wf
  unfold INT_MAX at hs
  have hle := (hover.removal_iff seg.ack_seq).mpr (hc seg buf rfl hchk hbuf) hask
  exact ⟨_, hle, sint_of_lt (by unfold ahead at hle; omega)⟩

theorem HeldRun.Inv.step {σ σ' : HeldRun} {a : Ctx × LifeEvent} (h : σ.Inv)
    (hc : HeldCond σ a) (hs : HeldStep σ a σ') : σ'.Inv := by
  obtain ⟨hconn, hafter⟩ := hs
  obtain ⟨s', hok, htcb⟩ := hconn.life_conn
  have hlife : LifeInv σ'.tcb := htcb ▸ (life_conn_move h.life hok).inv h.life
  obtain ⟨c, ev⟩ := a
  have hring : RingMove ⟨c, σ.tcb⟩ ⟨s'.ctx, σ'.tcb⟩ ev := by
    rw [← htcb]
    exact life_conn_ring h.life hok
  -- an event that leaves the ring alone leaves the count alone
  have hkept : σ'.tcb.sndvar.sndbuf = σ.tcb.sndvar.sndbuf → σ'.since = σ.since → σ'.Inv := by
    intro hbuf hsince
    refine ⟨hlife, ?_, ?_⟩
    · rw [hbuf, hsince]
      exact h.without
    · rw [hbuf, hsince]
      exact h.ring
  have hnow : ∀ buf' n, σ'.tcb.sndvar.sndbuf = some buf' → σ'.since = n →
      Overcounts buf' n → σ'.Inv := by
    intro buf' n hbuf hsince hover
    refine ⟨hlife, fun hnone => ?_, fun buf hb => ?_⟩
    · rw [hbuf] at hnone
      cases hnone
    · rw [hbuf] at hb
      rw [hsince]
      exact Option.some.inj hb ▸ hover
  cases hring with
  | kept hno hsame =>
    have hsame : σ'.tcb.sndvar.sndbuf = σ.tcb.sndvar.sndbuf := hsame
    apply hkept hsame
    rw [hafter]
    cases ev with
    | write fd bytes => exact absurd rfl (hno fd bytes)
    | segment seg =>
      have hzero : taken_off σ.tcb σ'.tcb = 0 := by
        unfold taken_off
        rw [hsame]
        cases σ.tcb.sndvar.sndbuf with
        | none => rfl
        | some buf => exact ahead_self _
      show σ.since + taken_off σ.tcb σ'.tcb = σ.since
      rw [hzero, Nat.add_zero]
    | _ => rfl
  | made hnone hnew =>
    have hsince : σ'.since = 0 := by
      rw [hafter]
      exact h.without hnone
    cases hmade : σ'.tcb.sndvar.sndbuf with
    | none => exact hkept (hmade.trans hnone.symm) (hsince.trans (h.without hnone).symm)
    | some buf' => exact hnow buf' 0 hmade hsince (.made (hnew.symm.trans hmade))
  | unwritten htaken hsame =>
    apply hkept hsame
    rw [hafter]
    show (if write_taken σ.tcb _ _ then 0 else σ.since) = σ.since
    rw [if_neg]
    rw [show write_taken σ.tcb _ _ = false from htaken]
    exact Bool.false_ne_true
  | @written fd bytes buf buf' r hbuf hw htaken hnew =>
    refine hnow buf' _ hnew ?_ ((h.ring buf hbuf).written hw)
    rw [hafter]
    show (if write_taken σ.tcb fd bytes then 0 else σ.since) = _
    by_cases hr : 0 ≤ r
    · rw [if_pos hr, if_pos (htaken.mpr hr)]
    · rw [if_neg hr, if_neg (fun ht => hr (htaken.mp ht))]
  | flushed hbuf hnew =>
    exact hnow _ _ hnew (by rw [hafter]; rfl) ((h.ring _ hbuf).sent _)
  | @removed seg buf hbuf hchk hask hnew =>
    obtain ⟨k, hk, hint⟩ := h.removal hc hbuf hchk hask
    have hnew : σ'.tcb.sndvar.sndbuf = _ := hnew
    rw [hint] at hnew
    obtain ⟨hover, hmoved⟩ := (h.ring buf hbuf).removed hk
    refine hnow _ _ hnew ?_ hover
    rw [hafter]
    show σ.since + taken_off σ.tcb σ'.tcb = σ.since + k
    unfold taken_off
    rw [show σ.tcb.sndvar.sndbuf = some buf from hbuf, hnew]
    simp only
    rw [hmoved]

/-- In every run of a connection in which no stale number is acknowledged: the
    numbers behind the last byte held are all refused exactly while nothing was
    acknowledged since the last write that was taken, and no acknowledgement but a
    stale one has more bytes removed than are held. -/
theorem ack_beyond_held {σ : HeldRun} {buf : UsnSendbuf}
    (h : RunWhere HeldStep HeldCond HeldRun.Start σ) (hst : σ.tcb.state = .established)
    (hbuf : σ.tcb.sndvar.sndbuf = some buf) :
    ((∀ c seg, beyond_held buf seg.ack_seq →
      usnet_process_ack ⟨c, σ.tcb⟩ buf seg = .ok (-1, ⟨c, σ.tcb⟩)) ↔ σ.since = 0) ∧
    ∀ ack_seq, (asks_removal buf ack_seq → ahead buf.head_seq ack_seq ≤ buf.held) ↔
      ¬ stale_ack buf σ.since ack_seq := by
  have hinv : σ.Inv :=
    h.invariant (fun _ hs => .start hs) (fun _ _ _ hi hc hs => hi.step hc hs)
  have hover := hinv.ring buf hbuf
  exact ⟨hover.refuses_iff hst, fun ack_seq => hover.removal_iff ack_seq⟩

instance (buf : UsnSendbuf) (n : Nat) (ack_seq : UInt32) : Decidable (stale_ack buf n ack_seq) :=
  inferInstanceAs (Decidable (_ ∨ _))

instance (buf : UsnSendbuf) (ack_seq : UInt32) : Decidable (beyond_held buf ack_seq) :=
  inferInstanceAs (Decidable (_ > _))

/-- The run on one more event, on a connection that survives it. -/
def HeldRun.next (σ : HeldRun) (ev : LifeEvent) : HeldRun :=
  match life_step quiet_ctx (some σ.tcb) ev with
  | .ok (_, some t') => σ.after ev t'
  | _ => σ

theorem HeldRun.next_step {σ : HeldRun} {ev : LifeEvent} {t' : UsnTcb}
    (h : conn_run σ.tcb [(quiet_ctx, ev)] = some t') :
    HeldStep σ (quiet_ctx, ev) (σ.next ev) := by
  unfold conn_run conn_run at h
  unfold HeldRun.next
  split at h
  · rename_i c' t₁ hstep
    simp only at hstep
    rw [hstep]
    exact ⟨⟨c', hstep⟩, rfl⟩
  · cases h

/-- The condition is about segments. -/
theorem HeldCond.other {σ : HeldRun} {c : Ctx} {ev : LifeEvent} (h : ∀ seg, ev ≠ .segment seg) :
    HeldCond σ (c, ev) := fun seg _ heq => absurd heq (h seg)

/-- The connection the peer's SYN creates, accepted and opened. -/
def offered_run : HeldRun := ⟨(life_run none (handshake.take 1)).toOption.join.get rfl, 0⟩
def accepted_run : HeldRun := offered_run.next (.accept true 5 0)
def ready_run : HeldRun := accepted_run.next (.segment (bare_ack 5001))

/-- Two bytes are written and both are acknowledged. -/
def filled_run : HeldRun := ready_run.next (.write 5 [1, 2])
def cleared_run : HeldRun := filled_run.next (.segment (bare_ack 5003))

theorem filled_run_where : RunWhere HeldStep HeldCond HeldRun.Start filled_run := by
  have hstart : offered_run.Start :=
    ⟨.run (.init rfl) (life_run_meets_true none (handshake.take 1)) rfl, rfl, rfl⟩
  have haccept : HeldCond offered_run (quiet_ctx, .accept true 5 0) := HeldCond.other nofun
  have haccepted : RunWhere HeldStep HeldCond HeldRun.Start accepted_run :=
    .step (.init hstart) haccept (HeldRun.next_step rfl)
  -- until the connection is established no acknowledgement is checked
  have hopen : HeldCond accepted_run (quiet_ctx, .segment (bare_ack 5001)) := by
    intro seg buf hseg hchk
    obtain rfl := LifeEvent.segment.inj hseg
    rcases hchk.looked_at with ⟨hst, -⟩ | ⟨hst | ⟨hrst, -⟩, -⟩
    · cases hst
    · cases hst
    · cases hrst
  have hready : RunWhere HeldStep HeldCond HeldRun.Start ready_run :=
    .step haccepted hopen (HeldRun.next_step rfl)
  have hwrite : HeldCond ready_run (quiet_ctx, .write 5 [1, 2]) := HeldCond.other nofun
  exact .step hready hwrite (HeldRun.next_step rfl)

theorem cleared_run_where : RunWhere HeldStep HeldCond HeldRun.Start cleared_run := by
  have hcond : HeldCond filled_run (quiet_ctx, .segment (bare_ack 5003)) := by
    intro seg buf hseg _ hbuf
    obtain rfl := LifeEvent.segment.inj hseg
    obtain rfl := Option.some.inj hbuf
    decide +kernel
  exact .step filled_run_where hcond (HeldRun.next_step rfl)

/-- The ring of that connection, empty again. -/
def cleared_ring : UsnSendbuf := cleared_run.tcb.sndvar.sndbuf.get rfl

theorem ack_beyond_held_sample :
    cleared_run.since = 2 ∧
    ((∀ c seg, beyond_held cleared_ring seg.ack_seq →
      usnet_process_ack ⟨c, cleared_run.tcb⟩ cleared_ring seg
        = .ok (-1, ⟨c, cleared_run.tcb⟩)) ↔ cleared_run.since = 0) ∧
    ∀ ack_seq, (asks_removal cleared_ring ack_seq →
      ahead cleared_ring.head_seq ack_seq ≤ cleared_ring.held) ↔
      ¬ stale_ack cleared_ring cleared_run.since ack_seq := by
  refine ⟨by decide +kernel, ?_⟩
  exact ack_beyond_held cleared_run_where rfl rfl

/-- Two bytes that were never written are acknowledged: `snd_una` moves, and they
    are to be removed from a ring that holds nothing. -/
theorem ack_of_nothing_accepted :
    LifeReachable (some cleared_run.tcb) ∧ cleared_run.tcb.state = .established ∧
    cleared_run.tcb.sndvar.sndbuf = some cleared_ring ∧ beyond_held cleared_ring 5005 ∧
    cleared_run.tcb.sndvar.snd_una = 5003 ∧
    (usnet_process_ack ⟨quiet_ctx, cleared_run.tcb⟩ cleared_ring (bare_ack 5005)).toOption.map
      (fun p => (p.1, p.2.tcb.sndvar.snd_una)) = some (0, 5005) ∧
    asks_removal cleared_ring 5005 ∧ ahead cleared_ring.head_seq 5005 = 2 ∧
    cleared_ring.held = 0 := by
  have hreach : LifeReachable (some cleared_run.tcb) :=
    .run (.init rfl) (life_run_meets_true none (handshake.take 2 ++
      [(quiet_ctx, .segment (bare_ack 5001)), (quiet_ctx, .write 5 [1, 2]),
        (quiet_ctx, .segment (bare_ack 5003))])) rfl
  refine ⟨hreach, rfl, rfl, by decide +kernel, rfl, rfl, ⟨?_, ?_⟩, rfl, rfl⟩
  · decide +kernel
  · decide +kernel

end Usnet
