import Usnet.Held
import Usnet.SendPosition
import Usnet.SendQueue

/-! # The stream that goes out

    A ghost keeps all the bytes the application has handed over, from the first one
    on.  Where the ring stays a queue and `snd_nxt` stays in place, the number of a
    segment says which of these bytes it carries.
-/

namespace Usnet

open CInt Circular Run

/-! ## Section 1: The ghost -/

/-- A connection and the bytes taken from its application. -/
structure Outgoing where
  tcb : UsnTcb
  taken : List UInt8

/-- The bytes an event hands over: those of a write that is not refused. -/
def handed_over (t : UsnTcb) : LifeEvent → List UInt8
  | .write fd bytes =>
    match usnet_write t fd bytes with
    | .ok (r, _) => if r < 0 then [] else bytes
    | .error _ => []
  | _ => []

/-- Any event in any context, while the connection is there. -/
inductive Outgoing.Step : Outgoing → Ctx × LifeEvent → Outgoing → Prop
  | event {a : Outgoing} {c : Ctx} {ev : LifeEvent} {s' : Conn} {t' : UsnTcb} :
      life_conn ⟨c, a.tcb⟩ ev = .ok s' → alive s'.tcb = some t' →
      Step a (c, ev) ⟨t', a.taken ++ handed_over a.tcb ev⟩

/-- A connection just made by a SYN. -/
def Outgoing.Start (a : Outgoing) : Prop :=
  (∃ c seg ret c', usnet_tcp_input c none seg = .ok (ret, c', some a.tcb)) ∧ a.taken = []

/-- A write ends inside the block or repeats the same bytes behind its end. -/
def write_keeps_ring (buf : UsnSendbuf) (bytes : List UInt8) : Prop :=
  buf.bytes + bytes.length < buf.size.toNat → buf.size.toNat < buf.tail.toNat + bytes.length →
    bytes.take (buf.tail.toNat + bytes.length - buf.size.toNat)
      = bytes.drop (buf.size.toNat - buf.tail.toNat)

/-- An acknowledgement does not take everything while `tail` rests at the end. -/
def ack_keeps_ring (buf : UsnSendbuf) (seg : Segment) : Prop :=
  ¬ (ahead buf.head_seq seg.ack_seq = buf.bytes ∧ buf.tail = buf.size)

/-- What keeps the ring a queue. -/
def keeps_ring (t : UsnTcb) : LifeEvent → Prop
  | .write _ bytes => ∀ buf, t.sndvar.sndbuf = some buf → write_keeps_ring buf bytes
  | .segment seg => t.state = .established → in_window t seg → ack_looked_at t seg →
    ∀ buf, t.sndvar.sndbuf = some buf → ¬ TCP_SEQ_GT seg.ack_seq (buf.head_seq + buf.len) →
      ack_keeps_ring buf seg
  | _ => True

/-- The ring stays a queue, and `snd_nxt` where the send loop left it. -/
def keeps_stream (a : Outgoing) (e : Ctx × LifeEvent) : Prop :=
  keeps_position ⟨e.1, a.tcb⟩ e.2 ∧ keeps_ring a.tcb e.2

/-! ## Section 2: The invariant -/

/-- The ring holds the bytes taken but for those removed from its front. -/
structure HoldsRest (buf : UsnSendbuf) (iss : UInt32) (taken : List UInt8) (removed : Nat) :
    Prop where
  queue : SendQueue.Inv ⟨buf, taken.drop removed, removed⟩
  removed : removed ≤ taken.length
  init_seq : buf.init_seq = iss + 1

/-- Before there is a ring nothing has been taken. -/
structure Outgoing.Inv (a : Outgoing) : Prop where
  position : PositionInv a.tcb
  without : a.tcb.sndvar.sndbuf = none → a.taken = []
  ring : opening a.tcb.state → ∀ buf, a.tcb.sndvar.sndbuf = some buf →
    ∃ removed, HoldsRest buf a.tcb.sndvar.iss a.taken removed

theorem HoldsRest.made {slot : Option (Nat → UInt8)} {fd iss : UInt32} {buf : UsnSendbuf}
    (h : usnet_get_sendbuf slot SENDBUF_SIZE fd (iss + 1) = some buf) :
    HoldsRest buf iss [] 0 := by
  have hfresh : SendQueue.Fresh SENDBUF_SIZE ⟨buf, [], 0⟩ := by
    cases slot with
    | none => cases h
    | some mem => exact ⟨mem, fd, iss + 1, h, rfl, rfl⟩
  refine ⟨SendQueue.Inv.fresh (by decide) (by decide) hfresh, le_rfl, ?_⟩
  unfold usnet_get_sendbuf at h
  obtain ⟨mem, -, rfl⟩ := Option.map_eq_some_iff.mp h
  rfl

section
variable {buf buf' : UsnSendbuf} {iss : UInt32} {taken : List UInt8} {removed : Nat}
  (h : HoldsRest buf iss taken removed)
include h

/-- `sent_head` does not matter. -/
theorem HoldsRest.sent_head (p : UInt32) :
    HoldsRest { buf with sent_head := p } iss taken removed := by
  obtain ⟨hwf, hbytes, hroom, hcontents, hseq⟩ := h.queue
  exact ⟨⟨⟨hwf.size_le, hwf.head_lt, hwf.tail_le⟩, hbytes, hroom, hcontents, hseq⟩, h.removed,
    h.init_seq⟩

theorem HoldsRest.written {data : List UInt8} {r : Int} (hkeep : write_keeps_ring buf data)
    (hw : usnet_write_data buf data = some (r, buf')) :
    HoldsRest buf' iss (taken ++ if r < 0 then [] else data) removed := by
  have hbytes := h.queue.bytes
  have hle := h.removed
  have hkeeps : KeepsQueue ⟨buf, taken.drop removed, removed⟩ (.write data) := by
    intro hroom
    exact hkeep (by simp only at hbytes hroom; omega)
  have hq := h.queue.write hkeeps hw
  have hinit : buf'.init_seq = buf.init_seq := by
    rcases usnet_write_data_cases data h.queue.wf with ⟨-, hw'⟩ | ⟨-, buf₁, hw', -, hmoved⟩
    · rw [hw'] at hw
      obtain ⟨-, rfl⟩ := Prod.mk.inj (Option.some.inj hw)
      rfl
    · rw [hw'] at hw
      obtain ⟨-, rfl⟩ := Prod.mk.inj (Option.some.inj hw)
      have hinit := congrArg UsnSendbuf.init_seq hmoved.rest
      exact hinit
  refine ⟨?_, by rw [List.length_append]; omega, hinit.trans h.init_seq⟩
  rw [List.drop_append_of_le_length hle]
  split at hq
  · rename_i hneg
    rw [if_pos hneg, List.append_nil]
    exact hq
  · rename_i hneg
    rw [if_neg hneg]
    exact hq

theorem HoldsRest.taken_off {k : Nat} (hk : k ≤ buf.bytes)
    (hkeep : ¬ (k = buf.bytes ∧ buf.tail = buf.size)) :
    HoldsRest (usnet_remove_data buf k).2 iss taken (removed + k) := by
  have hbytes := h.queue.bytes
  have hle := h.removed
  have hlen : (taken.drop removed).length = taken.length - removed := List.length_drop
  simp only at hbytes
  have hkeeps : KeepsQueue ⟨buf, taken.drop removed, removed⟩ (.remove k) := by
    rintro ⟨hall, hend⟩
    exact hkeep ⟨by simp only at hall; omega, hend⟩
  have hq := h.queue.remove hkeeps (by simp only; omega) rfl
  rw [List.drop_drop] at hq
  refine ⟨hq, by omega, ?_⟩
  obtain ⟨head, hrem, -⟩ := usnet_remove_data_held h.queue.wf hk
  rw [hrem]
  exact h.init_seq

/-- The ring holds what the number says. -/
theorem HoldsRest.bytes_of {seq : UInt32} {n : Nat} (hin : ahead buf.head_seq seq + n ≤ buf.bytes) :
    ∃ k : Nat, seq = iss + 1 + u32 k ∧ k + n ≤ taken.length ∧
      buf.bytes_of seq n = (taken.drop k).take n := by
  have hbytes := h.queue.bytes
  have hcontents := h.queue.contents
  have hseq := h.queue.head_seq
  have hle := h.removed
  have hlen : (taken.drop removed).length = taken.length - removed := List.length_drop
  simp only at hbytes hcontents hseq
  refine ⟨removed + ahead buf.head_seq seq, ?_, by omega, ?_⟩
  · rw [u32_natCast_add, ← UInt32.add_assoc, ← h.init_seq, ← hseq, add_ahead]
  · -- a window of the ring is a piece of what the ring holds
    have hpos : buf.bytes_of seq n
        = window buf.data_ptr buf.size.toNat (buf.head.toNat + ahead buf.head_seq seq) n := by
      unfold UsnSendbuf.bytes_of UsnSendbuf.pos_of
      exact window_congr fun i _ => by rw [Nat.mod_add_mod]
    rw [hpos, ← List.drop_drop, ← hcontents, window_drop (by omega), window_take (by omega)]

end

/-! ## Section 3: One event -/

section
variable {a : Outgoing} {c : Ctx} {s' : Conn} {ev : LifeEvent}

/-- Everything that hands nothing over and leaves the ring, up to `sent_head`. -/
theorem Outgoing.Inv.kept (h : a.Inv) (hpos : PositionInv s'.tcb)
    (hnone : handed_over a.tcb ev = []) (hst : opening s'.tcb.state → opening a.tcb.state)
    (hiss : s'.tcb.sndvar.iss = a.tcb.sndvar.iss)
    (hbuf : s'.tcb.sndvar.sndbuf = a.tcb.sndvar.sndbuf ∨
      ∃ buf p, a.tcb.sndvar.sndbuf = some buf ∧
        s'.tcb.sndvar.sndbuf = some { buf with sent_head := p }) :
    Outgoing.Inv ⟨s'.tcb, a.taken ++ handed_over a.tcb ev⟩ := by
  rw [hnone, List.append_nil]
  refine ⟨hpos, fun hb => ?_, fun ho buf' hb => ?_⟩
  · rcases hbuf with hsame | ⟨buf, p, -, hsent⟩
    · exact h.without (hsame ▸ hb)
    · rw [hsent] at hb
      cases hb
  · simp only at hb ho ⊢
    rw [hiss]
    rcases hbuf with hsame | ⟨buf, p, hold, hsent⟩
    · exact h.ring (hst ho) buf' (hsame ▸ hb)
    · obtain rfl := Option.some.inj (hsent.symm.trans hb)
      obtain ⟨removed, hrest⟩ := h.ring (hst ho) buf hold
      exact ⟨removed, hrest.sent_head p⟩

theorem Outgoing.Inv.start (h : a.Start) : a.Inv := by
  obtain ⟨⟨c, seg, ret, c', hin⟩, htaken⟩ := h
  have hnew := usnet_tcp_input_created hin
  obtain ⟨-, hbuf, -⟩ := hnew.send
  refine ⟨PositionInv.created hnew, fun _ => htaken, fun _ buf hb => ?_⟩
  rw [hbuf] at hb
  cases hb

/-- The bytes of a write are handed over exactly when the ring takes them. -/
theorem handed_over_write {t : UsnTcb} {fd : UInt32} {bytes : List UInt8} {buf buf' : UsnSendbuf}
    {r : Int} (hbuf : t.sndvar.sndbuf = some buf)
    (hw : usnet_write_data buf bytes = some (r, buf')) :
    handed_over t (.write fd bytes) = if buf.fd ≠ fd ∨ r < 0 then [] else bytes := by
  unfold handed_over usnet_write
  simp only [hbuf, hw]
  by_cases hfd : buf.fd = fd <;> simp [hfd]

theorem Outgoing.Inv.written (h : a.Inv) {fd : UInt32} {bytes : List UInt8}
    (hc : keeps_stream a (c, .write fd bytes))
    (hok : life_conn ⟨c, a.tcb⟩ (.write fd bytes) = .ok s') :
    Outgoing.Inv ⟨s'.tcb, a.taken ++ handed_over a.tcb (.write fd bytes)⟩ := by
  have hpos := h.position.step hc.1 hok
  have hsame : s'.tcb = a.tcb → handed_over a.tcb (.write fd bytes) = [] →
      Outgoing.Inv ⟨s'.tcb, a.taken ++ handed_over a.tcb (.write fd bytes)⟩ := by
    intro htcb hnone
    exact h.kept hpos hnone (fun ho => htcb ▸ ho) (by rw [htcb]) (.inl (by rw [htcb]))
  simp only [life_conn, app_write] at hok
  cases hbuf : a.tcb.sndvar.sndbuf with
  | none =>
    simp only [usnet_write, hbuf] at hok
    obtain rfl := Except.ok.inj hok
    exact hsame rfl (by simp [handed_over, usnet_write, hbuf])
  | some buf =>
    cases hw : usnet_write_data buf bytes with
    | none =>
      by_cases hfd : buf.fd ≠ fd
      · simp only [usnet_write, hbuf, if_pos hfd] at hok
        obtain rfl := Except.ok.inj hok
        exact hsame rfl (by simp [handed_over, usnet_write, hbuf, hfd])
      · simp [usnet_write, hbuf, hfd, hw] at hok
    | some q =>
      obtain ⟨r, buf'⟩ := q
      have hgiven := @handed_over_write _ fd _ _ _ _ hbuf hw
      by_cases hfd : buf.fd ≠ fd
      · simp only [usnet_write, hbuf, if_pos hfd] at hok
        obtain rfl := Except.ok.inj hok
        exact hsame rfl (by rw [hgiven, if_pos (.inl hfd)])
      · simp only [usnet_write, hbuf, if_neg hfd, hw] at hok
        obtain rfl := Except.ok.inj hok
        rw [hgiven]
        refine ⟨hpos, fun hb => (by cases hb), fun ho b hb => ?_⟩
        obtain rfl := Option.some.inj hb
        obtain ⟨removed, hrest⟩ := h.ring ho buf hbuf
        have hrest' := hrest.written (hc.2 buf hbuf) hw
        simp only [hfd, false_or]
        exact ⟨removed, hrest'⟩

/-- Every other event. -/
theorem Outgoing.Inv.step_other (h : a.Inv) (hc : keeps_stream a (c, ev))
    (hnot : ∀ fd bytes, ev ≠ .write fd bytes) (hnone : handed_over a.tcb ev = [])
    (hok : life_conn ⟨c, a.tcb⟩ ev = .ok s') :
    Outgoing.Inv ⟨s'.tcb, a.taken ++ handed_over a.tcb ev⟩ := by
  have hpos := h.position.step hc.1 hok
  have hsame : ∀ core : Core, s'.tcb.core = core → (opening core.state → opening a.tcb.state) →
      core.iss = a.tcb.sndvar.iss → core.sndbuf = a.tcb.sndvar.sndbuf →
      Outgoing.Inv ⟨s'.tcb, a.taken ++ handed_over a.tcb ev⟩ := by
    rintro core rfl hst hiss hbuf
    exact h.kept hpos hnone hst hiss (.inl hbuf)
  cases life_conn_move h.position.life hok with
  | control hct => exact hsame _ hct.core id rfl rfl
  | closed hcl => exact hsame _ hcl (by rintro (ho | ho) <;> cases ho) rfl rfl
  | resent _ hre => exact hsame _ hre id rfl rfl
  | @joined fd result sndbuf s₁ _ hbuf hcore hctl =>
    have hend := joined_core hcore hctl
    rcases hbuf with hold | ⟨hempty, slot, hnew⟩
    · exact hsame _ hend id rfl hold
    · rw [hnone, List.append_nil]
      have hsnd : s'.tcb.sndvar.sndbuf = sndbuf := congrArg Core.sndbuf hend
      have hiss : s'.tcb.sndvar.iss = a.tcb.sndvar.iss := congrArg Core.iss hend
      have htaken := h.without hempty
      refine ⟨hpos, fun _ => htaken, fun _ b hb => ⟨0, ?_⟩⟩
      rw [htaken]
      simp only at hb ⊢
      rw [hiss]
      exact .made (hnew.symm.trans (hsnd.symm.trans hb))
  | written => exact absurd rfl (hnot _ _)
  | read hrd => exact hsame _ hrd id rfl rfl
  | flushed _ h₀ hfl h₁ =>
    obtain ⟨buf, p, hbuf, hcore⟩ := flushed_core h₀ hfl h₁
    have hst : s'.tcb.state = a.tcb.state := congrArg Core.state hcore
    exact h.kept hpos hnone (fun ho => hst ▸ ho) (congrArg Core.iss hcore)
      (.inr ⟨buf, p, hbuf, congrArg Core.sndbuf hcore⟩)
  | opened hst _ _ hop => exact hsame _ hop (fun _ => .inl hst) rfl rfl
  | resynced _ _ _ _ hre => exact hsame _ hre id rfl rfl
  | @handled seg _ hwin hh =>
    have hiss : s'.tcb.sndvar.iss = a.tcb.sndvar.iss := hh.kept.2.2.1
    have hopen := hh.stays_open
    have hfrom : opening s'.tcb.state → opening a.tcb.state := fun ho => .inr (hopen ho).1
    rcases hh.send with ⟨-, -, hbuf⟩ | ⟨buf, ha⟩
    · exact h.kept hpos hnone hfrom hiss (.inl hbuf)
    · rcases ha.data with ⟨-, -, hbuf⟩ | ⟨hfresh, -, hbuf⟩
      · exact h.kept hpos hnone hfrom hiss (.inl (hbuf.trans ha.sndbuf.symm))
      · rw [hnone, List.append_nil]
        refine ⟨hpos, fun hb => ?_, fun ho b hb => ?_⟩
        · rw [hbuf] at hb
          cases hb
        · -- what is acknowledged has been sent, so the ring gives up no more than that
          simp only at hb ho ⊢
          obtain rfl := Option.some.inj (hbuf.symm.trans hb)
          have hest := (hopen ho).1
          have hplaced := h.position.ring (.inr hest) buf ha.sndbuf
          rw [show next_seq a.tcb = a.tcb.snd_nxt from if_pos hest] at hplaced
          have hplace := (hc.1 hest hwin).2 buf ha.sndbuf ha.looked_at ha.passes
          obtain ⟨hahead, hle⟩ := @Positioned.acked_ahead ⟨c, a.tcb⟩ _ _ hplaced hplace hfresh
          obtain ⟨removed, hrest⟩ := h.ring (.inr hest) buf ha.sndbuf
          have hheld : buf.sent ≤ buf.bytes := by
            have hin := hplaced.within
            rw [held_eq hplaced.wf] at hin
            split at hin <;> omega
          rw [hahead, hiss]
          exact ⟨_, hrest.taken_off (hle.trans hheld)
            (hc.2 hest hwin ha.looked_at buf ha.sndbuf ha.passes)⟩

theorem Outgoing.Inv.step (h : a.Inv) (hc : keeps_stream a (c, ev))
    (hok : life_conn ⟨c, a.tcb⟩ ev = .ok s') :
    Outgoing.Inv ⟨s'.tcb, a.taken ++ handed_over a.tcb ev⟩ := by
  cases ev with
  | write fd bytes => exact h.written hc hok
  | _ => exact h.step_other hc nofun rfl hok

theorem Outgoing.Inv.run (h : RunWhere Outgoing.Step keeps_stream Outgoing.Start a) : a.Inv := by
  refine h.invariant (fun a ha => .start ha) ?_
  rintro a - a' hinv hc ⟨hok, halive⟩
  obtain ⟨-, rfl⟩ := alive_some halive
  exact hinv.step hc hok

end

/-! ## Section 4: What is sent -/

/-- Where the invariant holds, what is sent next comes from what was taken. -/
theorem Outgoing.Inv.sends {a : Outgoing} (hinv : a.Inv) (hst : a.tcb.state = .established)
    {c : Ctx} {r : Int} {s' : Conn} (hok : usnet_flush_tcp_sendbuf ⟨c, a.tcb⟩ = .ok (r, s')) :
    ∃ fs, s'.ctx.frames = c.frames ++ fs ∧ ∀ f ∈ fs, ∃ n : Nat,
      f.seq = a.tcb.sndvar.iss + 1 + u32 n ∧ n + f.payload.length ≤ a.taken.length ∧
      ∀ buf, a.tcb.sndvar.sndbuf = some buf →
        buf.pos_of f.seq + f.payload.length ≤ buf.size.toNat →
        f.payload = (a.taken.drop n).take f.payload.length := by
  cases hbuf : a.tcb.sndvar.sndbuf with
  | none => simp [usnet_flush_tcp_sendbuf, hbuf] at hok
  | some buf =>
    have hplaced := hinv.position.ring (.inr hst) buf hbuf
    rw [show next_seq a.tcb = a.tcb.snd_nxt from if_pos hst] at hplaced
    obtain ⟨removed, hrest⟩ := hinv.ring (.inr hst) buf hbuf
    have hI : SendsOwn buf a.tcb.snd_nxt buf.sent_head [] := ⟨hplaced, fun f hf => nomatch hf⟩
    obtain ⟨head, fs, -, hframes, hsends⟩ := (sendsOwn_rule buf).flush (sendbuf_small hplaced.size)
      hplaced.wf.tail_le (s := ⟨c, a.tcb⟩) hbuf hI hok
    have hheld : buf.held ≤ buf.bytes := by
      rw [held_eq hplaced.wf]
      split <;> omega
    refine ⟨fs, hframes, fun f hf => ?_⟩
    have hown := hsends.own f hf
    obtain ⟨n, hseq, hin, hbytes⟩ := hrest.bytes_of (hown.within.trans hheld)
    refine ⟨n, hseq, hin, fun b hb hend => ?_⟩
    obtain rfl := Option.some.inj hb
    exact (hown.exact hend).trans hbytes

end Usnet
