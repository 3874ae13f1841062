import Usnet.Arrivals
import Usnet.Outgoing
import Usnet.Stream

/-! # The echo server (echosvr.c, core.c)

    `handle_fd` reads what has come in into a buffer of its own and writes it back
    with `usnet_write`, again and again until it is taken.  The network process
    works on the connection before, between and behind these calls.
-/

namespace Usnet

open CInt Circular Run

/-! ## Section 1: Runs -/

/-- A connection and the `n` bytes from `buf + sent` on in `handle_fd`.  Ghosts are
    the bytes its reads have returned, those its writes have handed over, and
    `rcv_nxt` as a place in the stream. -/
structure Echo where
  tcb : UsnTcb
  pending : List UInt8
  delivered : List UInt8
  taken : List UInt8
  front : Nat

/-- A call of `usnet_read`, one of `usnet_write`, or anything else. -/
inductive EchoEvent where
  | read
  | write
  | net (ev : LifeEvent)

/-- By how much a turn of the loop moves `sent`: nothing where `usnet_write` fails. -/
def wbytes (t : UsnTcb) (fd : UInt32) (data : List UInt8) : Nat :=
  match usnet_write t fd data with
  | .ok (r, _) => r.toNat
  | .error _ => 0

/-- One call of the server, or one event of the network process, while the
    connection is there. -/
inductive Echo.Step (fd : UInt32) : Echo → Ctx × EchoEvent → Echo → Prop
  | read {a : Echo} {c : Ctx} {s' : Conn} {t' : UsnTcb} : a.pending = [] →
      life_conn ⟨c, a.tcb⟩ (.read fd (2 * 1024)) = .ok s' → alive s'.tcb = some t' →
      Step fd a (c, .read)
        { a with
          tcb := t'
          pending := returned a.tcb.rcvvar.rcvbuf fd (2 * 1024)
          delivered := a.delivered ++ returned a.tcb.rcvvar.rcvbuf fd (2 * 1024) }
  | write {a : Echo} {c : Ctx} {s' : Conn} {t' : UsnTcb} : a.pending ≠ [] →
      life_conn ⟨c, a.tcb⟩ (.write fd a.pending) = .ok s' → alive s'.tcb = some t' →
      Step fd a (c, .write)
        { a with
          tcb := t'
          pending := a.pending.drop (wbytes a.tcb fd a.pending)
          taken := a.taken ++ a.pending.take (wbytes a.tcb fd a.pending) }
  | net {a : Echo} {c : Ctx} {ev : LifeEvent} {s' : Conn} {t' : UsnTcb} :
      (∀ fd' data, ev ≠ .write fd' data) → (∀ fd' count, ev ≠ .read fd' count) →
      life_conn ⟨c, a.tcb⟩ ev = .ok s' → alive s'.tcb = some t' →
      Step fd a (c, .net ev)
        { a with tcb := t', front := a.front + ahead a.tcb.rcv_nxt t'.rcv_nxt }

/-- A connection just made by a SYN, to which nothing has been done. -/
structure Echo.Start (a : Echo) : Prop where
  made : ∃ c seg ret c', usnet_tcp_input c none seg = .ok (ret, c', some a.tcb)
  empty : a.pending = [] ∧ a.delivered = [] ∧ a.taken = [] ∧ a.front = 0

/-- The two sides of the connection. -/
def Echo.out (a : Echo) : Outgoing := ⟨a.tcb, a.taken⟩

def Echo.stream (a : Echo) : StreamRun := ⟨a.tcb, a.delivered, a.front⟩

/-- Segments are cut from the stream and stored in order, the send ring stays a
    queue, and `snd_nxt` in place. -/
def keeps_echo (B : List UInt8) (fd : UInt32) (a : Echo) : Ctx × EchoEvent → Prop
  | (_, .read) => True
  | (c, .write) => keeps_stream a.out (c, .write fd a.pending)
  | (c, .net ev) => keeps_stream a.out (c, ev) ∧ ∀ seg, ev = .segment seg →
      a.tcb.state = .established → 0 < seg.payload.length →
      cut_from B a.stream seg ∧ stored_in_order a.stream (.payload c seg)

/-! ## Section 2: The invariant -/

/-- What was read has been written but for what is pending.  Behind a FIN `rcv_nxt`
    is no place in the stream any more, and nothing is stored. -/
structure Echo.Inv (B : List UInt8) (a : Echo) : Prop where
  out : a.out.Inv
  stream : ∃ nxt front, (opening a.tcb.state → nxt = a.tcb.rcv_nxt ∧ front = a.front) ∧
    StreamRun.Inv B ⟨{ a.tcb with rcv_nxt := nxt }, a.delivered, front⟩
  between : a.delivered = a.taken ++ a.pending

section
variable {B : List UInt8} {fd : UInt32} {a : Echo}

theorem Echo.Inv.start (h : a.Start) : a.Inv B := by
  obtain ⟨⟨c, seg, ret, c', hin⟩, hpending, hdel, htaken, hfront⟩ := h
  obtain ⟨hnxt, hbuf, -⟩ := (usnet_tcp_input_created hin).receive
  refine ⟨.start ⟨⟨c, seg, ret, c', hin⟩, htaken⟩, ?_, ?_⟩
  · exact ⟨a.tcb.rcv_nxt, a.front, fun _ => ⟨rfl, rfl⟩, .empty hnxt ⟨hbuf, hdel, hfront⟩⟩
  · rw [hdel, htaken, hpending]
    rfl

/-! ## Section 3: The server's calls -/

/-- All or nothing. -/
theorem usnet_write_data_ret {buf buf' : UsnSendbuf} {data : List UInt8} {r : Int}
    (h : usnet_write_data buf data = some (r, buf')) : r = -1 ∨ r = data.length := by
  unfold usnet_write_data at h
  simp only at h
  generalize sint (if buf.head > buf.tail then buf.head - buf.tail
    else buf.size + buf.head - buf.tail) = avail_len at h
  generalize sint (buf.size - buf.tail) = tail_len at h
  by_cases hroom : avail_len ≤ data.length
  · rw [if_pos hroom] at h
    exact .inl (Prod.mk.inj (Option.some.inj h)).1.symm
  · rw [if_neg hroom] at h
    right
    by_cases hend : tail_len ≥ data.length
    · rw [if_pos hend] at h
      exact (Prod.mk.inj (Option.some.inj h)).1.symm
    · rw [if_neg hend] at h
      by_cases hneg : tail_len < 0
      · rw [if_pos hneg] at h
        cases h
      · rw [if_neg hneg] at h
        exact (Prod.mk.inj (Option.some.inj h)).1.symm

theorem usnet_write_ret {t t' : UsnTcb} {fd : UInt32} {data : List UInt8} {r : Int}
    (h : usnet_write t fd data = .ok (r, t')) : r = -1 ∨ r = data.length := by
  unfold usnet_write at h
  split at h
  · exact .inl (Prod.mk.inj (Except.ok.inj h)).1.symm
  · split at h
    · exact .inl (Prod.mk.inj (Except.ok.inj h)).1.symm
    · split at h
      · cases h
      · rename_i hwrite
        obtain ⟨rfl, -⟩ := Prod.mk.inj (Except.ok.inj h)
        exact usnet_write_data_ret hwrite

/-- The ghost of what goes out and the server agree on what has been taken. -/
theorem handed_over_eq (t : UsnTcb) (fd : UInt32) (data : List UInt8) :
    handed_over t (.write fd data) = data.take (wbytes t fd data) := by
  unfold wbytes
  cases hw : usnet_write t fd data with
  | error e => simp only [handed_over, hw, List.take_zero]
  | ok q =>
    obtain ⟨r, t'⟩ := q
    simp only [handed_over, hw]
    rcases usnet_write_ret hw with rfl | rfl
    · rfl
    · rw [if_neg (by omega), Int.toNat_natCast, List.take_length]

/-- Where the receive side is left alone. -/
theorem Echo.Inv.stream_kept (h : a.Inv B) {t' : UsnTcb}
    (ho : opening t'.state → opening a.tcb.state ∧ t'.rcv_nxt = a.tcb.rcv_nxt)
    (hirs : t'.rcvvar.irs = a.tcb.rcvvar.irs) (hbuf : t'.rcvvar.rcvbuf = a.tcb.rcvvar.rcvbuf) :
    ∃ nxt front, (opening t'.state → nxt = t'.rcv_nxt ∧
        front = a.front + ahead a.tcb.rcv_nxt t'.rcv_nxt) ∧
      StreamRun.Inv B ⟨{ t' with rcv_nxt := nxt }, a.delivered, front⟩ := by
  obtain ⟨nxt, front, hopen, hinv⟩ := h.stream
  refine ⟨nxt, front, fun hst => ?_, hinv.congr rfl hirs hbuf⟩
  obtain ⟨hold, hnxt⟩ := ho hst
  obtain ⟨rfl, rfl⟩ := hopen hold
  refine ⟨hnxt.symm, ?_⟩
  rw [hnxt, ahead_self, Nat.add_zero]

theorem Echo.Inv.read (h : a.Inv B) {c : Ctx} {s' : Conn} (hp : a.pending = [])
    (hok : life_conn ⟨c, a.tcb⟩ (.read fd (2 * 1024)) = .ok s') :
    Echo.Inv B
      { a with
        tcb := s'.tcb
        pending := returned a.tcb.rcvvar.rcvbuf fd (2 * 1024)
        delivered := a.delivered ++ returned a.tcb.rcvvar.rcvbuf fd (2 * 1024) } := by
  have hout := @Outgoing.Inv.step a.out c s' (.read fd (2 * 1024)) h.out ⟨trivial, trivial⟩ hok
  obtain ⟨nxt, front, hopen, hinv⟩ := h.stream
  obtain rfl := Except.ok.inj hok
  refine ⟨?_, ⟨nxt, front, hopen, @StreamRun.Inv.read B _ c fd (2 * 1024) hinv⟩, ?_⟩
  · rw [show handed_over a.out.tcb (.read fd (2 * 1024)) = [] from rfl, List.append_nil] at hout
    exact hout
  · simp only
    rw [h.between, hp, List.append_nil]

theorem Echo.Inv.write (h : a.Inv B) {c : Ctx} {s' : Conn}
    (hc : keeps_stream a.out (c, .write fd a.pending))
    (hok : life_conn ⟨c, a.tcb⟩ (.write fd a.pending) = .ok s') :
    Echo.Inv B
      { a with
        tcb := s'.tcb
        pending := a.pending.drop (wbytes a.tcb fd a.pending)
        taken := a.taken ++ a.pending.take (wbytes a.tcb fd a.pending) } := by
  have hout := h.out.step hc hok
  have hlife := h.out.position.life
  have hsame := SameReceive.of_life hlife hok nofun nofun
  obtain ⟨-, ho⟩ := (life_conn_move hlife hok).from_opening
  obtain ⟨nxt, front, hopen, hinv⟩ :=
    h.stream_kept (fun hst => ⟨ho hst, hsame.rcv_nxt⟩) hsame.irs hsame.rcvbuf
  refine ⟨?_, ⟨nxt, front, fun hst => ?_, hinv⟩, ?_⟩
  · rw [handed_over_eq] at hout
    exact hout
  · obtain ⟨hnxt, hfront⟩ := hopen hst
    rw [hsame.rcv_nxt, ahead_self, Nat.add_zero] at hfront
    exact ⟨hnxt, hfront⟩
  · simp only
    rw [h.between, List.append_assoc, List.take_append_drop]

/-! ## Section 4: The network process -/

theorem Echo.Inv.net (h : a.Inv B) {c : Ctx} {ev : LifeEvent} {s' : Conn}
    (hc : keeps_echo B fd a (c, .net ev)) (hwrite : ∀ fd' data, ev ≠ .write fd' data)
    (hread : ∀ fd' count, ev ≠ .read fd' count)
    (hok : life_conn ⟨c, a.tcb⟩ ev = .ok s') :
    Echo.Inv B
      { a with tcb := s'.tcb, front := a.front + ahead a.tcb.rcv_nxt s'.tcb.rcv_nxt } := by
  obtain ⟨hkeep, hseg⟩ := hc
  have hlife := h.out.position.life
  have hmove := life_conn_move hlife hok
  obtain ⟨hirs, ho⟩ := hmove.from_opening
  have hnone : handed_over a.tcb ev = [] := by
    cases ev with
    | write fd' data => exact absurd rfl (hwrite fd' data)
    | _ => rfl
  have hout := h.out.step hkeep hok
  rw [show handed_over a.out.tcb ev = [] from hnone, List.append_nil] at hout
  suffices hstream : ∃ nxt front, (opening s'.tcb.state → nxt = s'.tcb.rcv_nxt ∧
        front = a.front + ahead a.tcb.rcv_nxt s'.tcb.rcv_nxt) ∧
      StreamRun.Inv B ⟨{ s'.tcb with rcv_nxt := nxt }, a.delivered, front⟩ from
    ⟨hout, hstream, h.between⟩
  cases ev with
  | segment seg =>
    have hstill : s'.tcb.rcv_nxt = a.tcb.rcv_nxt → s'.tcb.rcvvar.rcvbuf = a.tcb.rcvvar.rcvbuf →
        ∃ nxt front, (opening s'.tcb.state → nxt = s'.tcb.rcv_nxt ∧
          front = a.front + ahead a.tcb.rcv_nxt s'.tcb.rcv_nxt) ∧
        StreamRun.Inv B ⟨{ s'.tcb with rcv_nxt := nxt }, a.delivered, front⟩ :=
      fun hnxt hbuf => h.stream_kept (fun hst => ⟨ho hst, hnxt⟩) hirs hbuf
    cases hmove with
    | control hct =>
      exact hstill (congrArg Core.rcv_nxt hct.core) (congrArg Core.rcvbuf hct.core)
    | closed hcl => exact hstill (congrArg Core.rcv_nxt hcl) (congrArg Core.rcvbuf hcl)
    | opened _ _ _ hop => exact hstill (congrArg Core.rcv_nxt hop) (congrArg Core.rcvbuf hop)
    | resynced _ _ _ _ hre => exact hstill (congrArg Core.rcv_nxt hre) (congrArg Core.rcvbuf hre)
    | handled hwin hh =>
      obtain ⟨nxt, hrec, hend⟩ := hh.receive
      -- a FIN is all that moves `rcv_nxt` besides
      have hnxt : opening s'.tcb.state → s'.tcb.rcv_nxt = nxt := by
        intro hst
        refine hend.resolve_right fun hcw => ?_
        rw [hcw] at hst
        rcases hst with hst | hst <;> cases hst
      cases hrec with
      | nothing hsame _ hbuf =>
        exact h.stream_kept (fun hst => ⟨ho hst, (hnxt hst).trans hsame⟩) hirs hbuf
      | inserted hins hsame _ hbuf =>
        have hest := hins.established.1
        obtain ⟨hpos, hfits⟩ := hins.payload
        obtain ⟨hcut, hstore⟩ := hseg seg rfl hest hpos
        obtain ⟨nxt₀, front, hopen, hinv⟩ := h.stream
        obtain ⟨rfl, rfl⟩ := hopen (.inr hest)
        refine ⟨nxt, _, fun hst => ⟨(hnxt hst).symm, by rw [hnxt hst]⟩, ?_⟩
        exact @StreamRun.Inv.inserted B a.stream c seg { s'.tcb with rcv_nxt := nxt } _ _ _ hinv
          hins.buffer hins.run hcut (hstore hfits _ hins.buffer) hirs hsame hbuf
  | write fd' data => exact absurd rfl (hwrite fd' data)
  | read fd' count => exact absurd rfl (hread fd' count)
  | _ =>
    have hsame := SameReceive.of_life hlife hok nofun nofun
    exact h.stream_kept (fun hst => ⟨ho hst, hsame.rcv_nxt⟩) hsame.irs hsame.rcvbuf

theorem Echo.Inv.run (h : RunWhere (Echo.Step fd) (keeps_echo B fd) Echo.Start a) : a.Inv B := by
  refine h.invariant (fun a ha => .start ha) ?_
  rintro a ⟨c, ev⟩ a' hinv hc hs
  cases hs with
  | read hp hok halive =>
    obtain ⟨-, rfl⟩ := alive_some halive
    exact hinv.read hp hok
  | write _ hok halive =>
    obtain ⟨-, rfl⟩ := alive_some halive
    exact hinv.write hc hok
  | net hwrite hread hok halive =>
    obtain ⟨-, rfl⟩ := alive_some halive
    exact hinv.net hc hwrite hread hok

end

/-! ## Section 5: What comes back -/

end Usnet
