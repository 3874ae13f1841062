import Usnet.Life
import Usnet.Sndbuf
import Usnet.Lib.Run

/-! # Writers that wait (sndbuf.c, tcp.c)

    A write that finds no room is refused, and the application waits for a write
    event.  The event is raised where an acknowledgement finds `snd_wnd` used up,
    or where it opens the peer's window over the bytes in flight.  `snd_wnd` is
    the room the last removal has computed, from a length that only writes bring
    up to date.
-/

namespace Usnet

open CInt Run

/-! ## Section 1: Runs -/

/-- A connection, and the writes refused since the last write event. -/
structure WriterRun where
  conn : Conn
  refused : List (List UInt8)

inductive WriterAction where
  | write (data : List UInt8)
  /-- With whether the event queue has room for the event it may raise. -/
  | ack (seg : Segment) (room : Bool)
  | rest

/-- `USN_WRITE_EV` was raised for the connection on the way from `s` to `s'`. -/
def notified (s s' : Conn) : Bool :=
  decide (TcpEvent.write s.tcb.fd ∈ s'.ctx.events.drop s.ctx.events.length)

/-- The indices of the ring. -/
def ring_at (s : Conn) : Option (UInt32 × UInt32 × UInt32) :=
  s.tcb.sndvar.sndbuf.map fun buf => (buf.head, buf.tail, buf.size)

/-- What the process does to the connection besides: it stays established, and the
    bytes in the ring are not touched. -/
structure Elsewhere (s s' : Conn) : Prop where
  state : s'.tcb.state = s.tcb.state
  ring : ring_at s' = ring_at s

/-- A write of the application.  One that would fit into an empty ring waits when
    it is refused. -/
def write_run (s : WriterRun) (data : List UInt8) : Option WriterRun := do
  let buf ← s.conn.tcb.sndvar.sndbuf
  let (r, buf') ← usnet_write_data buf data
  return { conn := s.conn.onSnd fun v => { v with sndbuf := some buf' }
           refused := if r = -1 ∧ data.length < buf.size.toNat then data :: s.refused
             else s.refused }

/-- An acknowledgement handled by the network process.  Once a write event is in the
    queue nobody waits. -/
def ack_run (s : WriterRun) (seg : Segment) (room : Bool) : Option WriterRun := do
  let buf ← s.conn.tcb.sndvar.sndbuf
  let (_, c) ← (usnet_process_ack s.conn buf seg).toOption
  return { conn := c, refused := if notified s.conn c && room then [] else s.refused }

/-- One action.  In between anything may happen that leaves the ring alone. -/
def blocked_step (s : WriterRun) (a : WriterAction) (s' : WriterRun) : Prop :=
  match a with
  | .write data => write_run s data = some s'
  | .ack seg room => ack_run s seg room = some s'
  | .rest => Elsewhere s.conn s'.conn ∧ s'.refused = s.refused

/-- An established connection on which no write was refused yet. -/
structure WriterRun.Init (s : WriterRun) : Prop where
  state : s.conn.tcb.state = .established
  ring : ∀ buf, s.conn.tcb.sndvar.sndbuf = some buf → IndexWf buf
  refused : s.refused = []

/-- No write that was refused without a write event since would succeed now. -/
def NoneForgotten (s : WriterRun) : Prop :=
  ∀ buf, s.conn.tcb.sndvar.sndbuf = some buf →
    ∀ data ∈ s.refused, usnet_write_data buf data = some (-1, buf)

/-- The segment opens the peer's window over the bytes in flight. -/
def opens_window (s : Conn) (seg : Segment) : Prop :=
  (TCP_SEQ_LT s.tcb.rcvvar.snd_wl1 seg.seq ∨
    (s.tcb.rcvvar.snd_wl1 = seg.seq ∧ TCP_SEQ_LT s.tcb.rcvvar.snd_wl2 seg.ack_seq) ∨
    (s.tcb.rcvvar.snd_wl2 = seg.ack_seq ∧ cwindow s.tcb seg > s.tcb.sndvar.peer_wnd)) ∧
  s.tcb.sndvar.peer_wnd < s.tcb.snd_nxt - s.tcb.sndvar.snd_una ∧
  cwindow s.tcb seg ≥ s.tcb.snd_nxt - s.tcb.sndvar.snd_una

instance (s : Conn) (seg : Segment) : Decidable (opens_window s seg) :=
  inferInstanceAs (Decidable (_ ∧ _))

/-- Without the first `n` bytes there is still no room for `len` more: too few are
    gone, or `tail` rests at the end of a ring whose bytes are all gone. -/
def still_full (buf : UsnSendbuf) (n len : Nat) : Prop :=
  buf.size.toNat + n ≤ buf.bytes + len ∨ (buf.tail = buf.size ∧ n = buf.bytes)

instance (buf : UsnSendbuf) (n len : Nat) : Decidable (still_full buf n len) :=
  inferInstanceAs (Decidable (_ ∨ _))

/-- An acknowledgement that forgets nobody: where it passes the checks and takes
    bytes off the ring, it finds `snd_wnd` used up or opens the peer's window, and the
    queue takes the event; or it leaves too little room for every write refused.  A number half the sequence
    space ahead, which only a ring of length zero lets pass, is not taken. -/
def KeepsWriters (s : WriterRun) : WriterAction → Prop
  | .ack seg room => ∀ buf, s.conn.tcb.sndvar.sndbuf = some buf →
    ¬ TCP_SEQ_GT seg.ack_seq (buf.head_seq + buf.len) → ¬ TCP_SEQ_GEQ buf.head_seq seg.ack_seq →
    ahead buf.head_seq seg.ack_seq < 2 ^ 31 ∧
    (room = true ∧ (s.conn.tcb.sndvar.snd_wnd = 0 ∨ opens_window s.conn seg) ∨
      ∀ data ∈ s.refused, still_full buf (ahead buf.head_seq seg.ack_seq) data.length)
  | _ => True

/-! ## Section 2: Where the event is raised -/

/-- No event is raised, and the cached room stays. -/
def Silent (s s' : Conn) : Prop :=
  s'.ctx.events = s.ctx.events ∧ s'.tcb.sndvar.snd_wnd = s.tcb.sndvar.snd_wnd ∧
  s'.tcb.fd = s.tcb.fd

theorem Silent.refl (s : Conn) : Silent s s := ⟨rfl, rfl, rfl⟩

theorem Silent.trans {s t u : Conn} (h : Silent s t) (h' : Silent t u) : Silent s u :=
  ⟨h'.1.trans h.1, h'.2.1.trans h.2.1, h'.2.2.trans h.2.2⟩

theorem usnet_add_send_list_silent (s : Conn) : Silent s (usnet_add_send_list s) := by
  unfold usnet_add_send_list
  split
  · exact .refl s
  · split <;> exact ⟨rfl, rfl, rfl⟩

theorem usnet_remove_send_list_silent (s : Conn) : Silent s (usnet_remove_send_list s) := by
  unfold usnet_remove_send_list
  split <;> exact ⟨rfl, rfl, rfl⟩

theorem check_dup_silent (s : Conn) (seg : Segment) (ack_seq edge : UInt32) :
    Silent s (check_dup s seg ack_seq edge).2 := by
  unfold check_dup
  split <;> exact ⟨rfl, rfl, rfl⟩

theorem fast_retransmit_silent (s : Conn) (ack_seq : UInt32) (dup : Bool) :
    Silent s (fast_retransmit s ack_seq dup) := by
  rcases fast_retransmit_cases s ack_seq dup with
    ⟨u, cwnd, ssthresh, nrtx, rfl | rfl, heq⟩ | ⟨cwnd, heq⟩
  · rw [heq]
    exact Silent.trans ⟨rfl, rfl, rfl⟩ (usnet_add_send_list_silent _)
  · rw [heq]
    exact Silent.trans ⟨rfl, rfl, rfl⟩ (usnet_add_send_list_silent _)
  · rw [heq]
    exact ⟨rfl, rfl, rfl⟩

theorem forward_nxt_silent (s : Conn) (buf : UsnSendbuf) (ack_seq : UInt32) :
    Silent s (forward_nxt s buf ack_seq) := by
  unfold forward_nxt
  split
  · simp only
    split
    · exact Silent.trans ⟨rfl, rfl, rfl⟩ (usnet_remove_send_list_silent _)
    · exact ⟨rfl, rfl, rfl⟩
  · exact .refl s

theorem usnet_estimate_rtt_silent (s : Conn) (mrtt : UInt32) :
    Silent s (usnet_estimate_rtt s mrtt) := by
  unfold usnet_estimate_rtt
  simp only
  split
  · split <;> exact ⟨rfl, rfl, rfl⟩
  · exact ⟨rfl, rfl, rfl⟩

theorem update_rto_silent {s s' : Conn} (h : update_rto s = .ok s') : Silent s s' := by
  unfold update_rto at h
  split at h
  · simp only at h
    split at h
    · cases h
    · obtain rfl := Except.ok.inj h
      exact (usnet_estimate_rtt_silent _ _).trans ⟨rfl, rfl, rfl⟩
  · obtain rfl := Except.ok.inj h
    exact .refl s

theorem update_cwnd_silent {s s' : Conn} {packets : UInt16} (h : update_cwnd s packets = .ok s') :
    Silent s s' := by
  unfold update_cwnd at h
  simp only at h
  split at h
  · split at h
    · obtain rfl := Except.ok.inj h
      exact ⟨rfl, rfl, rfl⟩
    · split at h
      · cases h
      · obtain rfl := Except.ok.inj h
        exact ⟨rfl, rfl, rfl⟩
  · obtain rfl := Except.ok.inj h
    exact .refl s

theorem usnet_remove_rto_list_silent (s : Conn) : Silent s (usnet_remove_rto_list s) := by
  unfold usnet_remove_rto_list
  split <;> exact ⟨rfl, rfl, rfl⟩

theorem usnet_add_rto_list_silent (s : Conn) : Silent s (usnet_add_rto_list s) := by
  unfold usnet_add_rto_list
  by_cases hcnt : s.ctx.rto_list_cnt = 0
  · by_cases hidx : s.tcb.on_rto_idx < 0
    · by_cases htw : s.tcb.on_timewait_list <;> simp [Silent, hcnt, hidx, htw]
    · simp [Silent, hcnt, hidx]
  · by_cases hidx : s.tcb.on_rto_idx < 0
    · by_cases htw : s.tcb.on_timewait_list <;> simp [Silent, hcnt, hidx, htw]
    · simp [Silent, hcnt, hidx]

theorem usnet_update_retransmission_timer_silent {s s' : Conn}
    (h : usnet_update_retransmission_timer s = .ok s') : Silent s s' := by
  unfold usnet_update_retransmission_timer at h
  split at h
  · cases h
  obtain ⟨t, ht⟩ : ∃ t, t = (if s.tcb.on_rto_idx ≥ 0 then
      usnet_remove_rto_list (s.onSnd fun v => { v with nrtx := 0 })
      else s.onSnd fun v => { v with nrtx := 0 }) := ⟨_, rfl⟩
  have hst : Silent s t := by
    rw [ht]
    split
    · exact Silent.trans ⟨rfl, rfl, rfl⟩ (usnet_remove_rto_list_silent _)
    · exact ⟨rfl, rfl, rfl⟩
  have h' : (if TCP_SEQ_GT t.tcb.snd_nxt t.tcb.sndvar.snd_una then
      Except.ok (usnet_add_rto_list <|
        t.onSnd fun v => { v with ts_rto := t.ctx.cur_time + v.rto })
      else Except.ok t) = Except.ok (ε := Fault) s' := by
    rw [ht]
    exact h
  split at h'
  · obtain rfl := Except.ok.inj h'
    exact hst.trans (Silent.trans ⟨rfl, rfl, rfl⟩ (usnet_add_rto_list_silent _))
  · obtain rfl := Except.ok.inj h'
    exact hst

/-- The events of "Update window". -/
def announced (s : Conn) (seg : Segment) : List TcpEvent :=
  if opens_window s seg then [.write s.tcb.fd] else []

theorem update_window_events (s : Conn) (seg : Segment) :
    (update_window s seg seg.ack_seq).ctx.events = s.ctx.events ++ announced s seg ∧
    (update_window s seg seg.ack_seq).tcb.sndvar.snd_wnd = s.tcb.sndvar.snd_wnd ∧
    (update_window s seg seg.ack_seq).tcb.fd = s.tcb.fd := by
  unfold update_window announced
  simp only
  split
  · rename_i hnew
    split
    · rename_i hopen
      have hopens : opens_window s seg := ⟨hnew, hopen⟩
      rw [if_pos hopens]
      exact ⟨rfl, rfl, rfl⟩
    · rename_i hnot
      have hopens : ¬ opens_window s seg := fun h => hnot h.2
      rw [if_neg hopens, List.append_nil]
      exact ⟨rfl, rfl, rfl⟩
  · rename_i hnot
    have hopens : ¬ opens_window s seg := fun h => hnot h.1
    rw [if_neg hopens, List.append_nil]
    exact ⟨rfl, rfl, rfl⟩

theorem remove_acked_events {s s' : Conn} {buf : UsnSendbuf} {ack_seq : UInt32}
    (h : remove_acked s buf ack_seq = .ok s') :
    s'.ctx.events = s.ctx.events ++ if s.tcb.sndvar.snd_wnd = 0 then [.write s.tcb.fd] else [] := by
  unfold remove_acked at h
  simp only at h
  by_cases hwnd : s.tcb.sndvar.snd_wnd = 0
  · rw [if_pos hwnd] at h ⊢
    exact (usnet_update_retransmission_timer_silent h).1
  · rw [if_neg hwnd] at h ⊢
    rw [List.append_nil]
    exact (usnet_update_retransmission_timer_silent h).1

theorem ack_data_events {s s' : Conn} {buf : UsnSendbuf} {ack_seq : UInt32} {r : Int}
    (h : ack_data s buf ack_seq = .ok (r, s')) :
    s'.ctx.events = s.ctx.events ++ if s.tcb.sndvar.snd_wnd = 0 then [.write s.tcb.fd] else [] := by
  unfold ack_data at h
  simp only at h
  split at h
  · cases h
  · cases hrto : update_rto s with
    | error e => simp [hrto, bind, Except.bind] at h
    | ok s₁ =>
      cases hcwnd : update_cwnd s₁ (acked_packets s (ack_seq - buf.head_seq)) with
      | error e => simp [hrto, hcwnd, bind, Except.bind] at h
      | ok s₂ =>
        cases hrem : remove_acked s₂ buf ack_seq with
        | error e => simp [hrto, hcwnd, hrem, bind, Except.bind] at h
        | ok s₃ =>
          simp [hrto, hcwnd, hrem, bind, Except.bind, pure, Except.pure] at h
          obtain ⟨-, rfl⟩ := h
          obtain ⟨hev, hwnd, hfd⟩ := (update_rto_silent hrto).trans (update_cwnd_silent hcwnd)
          rw [remove_acked_events hrem, hev, hwnd, hfd]

/-- What an acknowledgement does to the ring, and the events it raises. -/
theorem usnet_process_ack_effect {s c : Conn} {buf : UsnSendbuf} {seg : Segment} {r : Int}
    (hst : s.tcb.state = .established) (hbuf : s.tcb.sndvar.sndbuf = some buf)
    (h : usnet_process_ack s buf seg = .ok (r, c)) :
    (TCP_SEQ_GT seg.ack_seq (buf.head_seq + buf.len) ∧ c = s) ∨
    (¬ TCP_SEQ_GT seg.ack_seq (buf.head_seq + buf.len) ∧ TCP_SEQ_GEQ buf.head_seq seg.ack_seq ∧
      c.tcb.sndvar.sndbuf = some buf ∧ c.ctx.events = s.ctx.events ++ announced s seg) ∨
    (¬ TCP_SEQ_GT seg.ack_seq (buf.head_seq + buf.len) ∧ ¬ TCP_SEQ_GEQ buf.head_seq seg.ack_seq ∧
      c.tcb.sndvar.sndbuf
        = some (usnet_remove_data buf (sint (seg.ack_seq - buf.head_seq))).2 ∧
      c.ctx.events = s.ctx.events ++ (announced s seg ++
        if s.tcb.sndvar.snd_wnd = 0 then [.write s.tcb.fd] else [])) := by
  -- no FIN has been sent that could be counted
  have hcount : counted_ack s seg.ack_seq = seg.ack_seq := by
    unfold counted_ack
    rw [hst]
  unfold usnet_process_ack at h
  simp only [hcount] at h
  split at h
  · rename_i hgt
    obtain ⟨-, rfl⟩ := Prod.mk.inj (Except.ok.inj h)
    exact .inl ⟨hgt, rfl⟩
  rename_i hgt
  right
  unfold process_valid_ack at h
  simp only at h
  generalize hs₀ : s.onCtx (fun c => { c with applied := c.applied ++ [.ack] }) = s₀ at h
  -- of the parts in front of the buffer only the first raises an event
  obtain ⟨hev, hwnd, hfd⟩ := update_window_events s₀ seg
  have hann : announced s₀ seg = announced s seg := by
    rw [← hs₀]
    rfl
  have hev₀ : s₀.ctx.events = s.ctx.events := by
    rw [← hs₀]
    rfl
  have htcb : s₀.tcb = s.tcb := by
    rw [← hs₀]
    rfl
  rw [hann, hev₀] at hev
  rw [htcb] at hwnd hfd
  have hkept := (update_window_kept s₀ seg seg.ack_seq).2.1.2.2
  rw [htcb, hbuf] at hkept
  generalize update_window s₀ seg seg.ack_seq = s₁ at h hev hwnd hfd hkept
  generalize hedge : s₀.tcb.sndvar.peer_wnd + s₀.tcb.rcvvar.snd_wl2 = edge at h
  have h₂ := check_dup_silent s₁ seg seg.ack_seq edge
  have hb₂ := (check_dup_kept s₁ seg seg.ack_seq edge).2.1.2.2
  generalize check_dup s₁ seg seg.ack_seq edge = d at h h₂ hb₂
  have h₃ := fast_retransmit_silent d.2 seg.ack_seq d.1
  have hb₃ := (fast_retransmit_kept d.2 seg.ack_seq d.1).2.2.1
  generalize fast_retransmit d.2 seg.ack_seq d.1 = s₃ at h h₃ hb₃
  have h₄ := forward_nxt_silent s₃ buf seg.ack_seq
  have hb₄ := (forward_nxt_kept s₃ buf seg.ack_seq).2.2.1
  generalize forward_nxt s₃ buf seg.ack_seq = s₄ at h h₄ hb₄
  obtain ⟨hev₄, hwnd₄, hfd₄⟩ := (h₂.trans h₃).trans h₄
  split at h
  · rename_i hgeq
    obtain ⟨-, rfl⟩ := Prod.mk.inj (Except.ok.inj h)
    refine .inl ⟨hgt, hgeq, ?_, hev₄.trans hev⟩
    rw [hb₄, hb₃, hb₂, hkept]
  · rename_i hgeq
    refine .inr ⟨hgt, hgeq, (ack_data_spec h).2.2.2.2.2, ?_⟩
    rw [ack_data_events h, hev₄, hwnd₄, hfd₄, hev, hwnd, hfd, List.append_assoc]

/-- The event of an acknowledgement that takes bytes off the ring. -/
theorem notified_iff {s c : Conn} {seg : Segment}
    (h : c.ctx.events = s.ctx.events ++ (announced s seg ++
      if s.tcb.sndvar.snd_wnd = 0 then [.write s.tcb.fd] else [])) :
    notified s c = true ↔ s.tcb.sndvar.snd_wnd = 0 ∨ opens_window s seg := by
  unfold notified announced at *
  rw [h, List.drop_left, decide_eq_true_eq]
  by_cases hwnd : s.tcb.sndvar.snd_wnd = 0
  · rw [if_pos hwnd]
    simp [hwnd]
  · rw [if_neg hwnd]
    by_cases hopen : opens_window s seg
    · simp [hopen]
    · simp [hwnd, hopen]

/-! ## Section 3: The room -/

/-- A write is refused exactly when it would leave no free byte over. -/
theorem write_refused_iff {buf : UsnSendbuf} {data : List UInt8} (h : IndexWf buf) :
    usnet_write_data buf data = some (-1, buf) ↔ buf.size.toNat ≤ buf.bytes + data.length := by
  rcases usnet_write_data_cases data h with ⟨hfull, hw⟩ | ⟨hroom, buf', hw, -, -⟩
  · exact ⟨fun _ => hfull, fun _ => hw⟩
  · refine ⟨fun hr => ?_, fun hfull => by omega⟩
    rw [hw] at hr
    have hneg := (Prod.mk.inj (Option.some.inj hr)).1
    omega

theorem usnet_remove_data_size (buf : UsnSendbuf) (len : Int) :
    (usnet_remove_data buf len).2.size = buf.size := by
  unfold usnet_remove_data
  simp only
  split <;> split <;> rfl

/-- What a removal leaves of the bytes, where it takes no more than there are. -/
theorem bytes_removed {buf : UsnSendbuf} {n : Nat} (h : IndexWf buf) (hn : n ≤ buf.bytes) :
    (usnet_remove_data buf n).2.bytes =
      if buf.tail = buf.size ∧ n = buf.bytes then buf.size.toNat else buf.bytes - n := by
  obtain ⟨head, hrem, hhead⟩ := usnet_remove_data_held h hn
  obtain ⟨hs, hh, ht⟩ := h
  have hend : buf.tail = buf.size ↔ buf.tail.toNat = buf.size.toNat := UInt32.toNat_inj.symm
  rw [hrem]
  unfold UsnSendbuf.bytes at *
  simp only [hend, hhead]
  split at hn <;> split <;> split <;> split <;> omega

/-- A write that was refused is refused after the removal exactly when the ring is
    still full. -/
theorem removed_refuses_iff {buf : UsnSendbuf} {n : Nat} {data : List UInt8} (h : IndexWf buf)
    (hlen : data.length < buf.size.toNat) :
    usnet_write_data (usnet_remove_data buf n).2 data
      = some (-1, (usnet_remove_data buf n).2) ↔ still_full buf n data.length := by
  have hwf := h.removed (Int.natCast_nonneg n)
  have hb := bytes_le h
  rw [write_refused_iff hwf]
  unfold still_full
  by_cases hn : n ≤ buf.bytes
  · rw [usnet_remove_data_size, bytes_removed h hn]
    split
    · rename_i hall
      exact ⟨fun _ => .inr hall, fun _ => by omega⟩
    · rename_i hnot
      refine ⟨fun _ => .inl (by omega), fun hor => ?_⟩
      have := hor.resolve_right hnot
      omega
  · rw [usnet_remove_data_overflow h (by omega)]
    have hzero : UsnSendbuf.bytes { buf with
        head := 0, tail := 0, head_seq := buf.head_seq + u32 buf.bytes } = 0 := rfl
    simp only [hzero]
    refine ⟨fun _ => by omega, fun hor => ?_⟩
    rcases hor with hle | ⟨-, heq⟩
    · omega
    · omega

/-! ## Section 4: Steps -/

/-- What holds of the connection in every run: it is established, its ring is well
    formed, and every write that waits would fit into an empty ring. -/
structure BlockedInv (s : WriterRun) : Prop where
  state : s.conn.tcb.state = .established
  ring : ∀ buf, s.conn.tcb.sndvar.sndbuf = some buf → IndexWf buf
  fits : ∀ buf, s.conn.tcb.sndvar.sndbuf = some buf →
    ∀ data ∈ s.refused, data.length < buf.size.toNat

theorem WriterRun.Init.inv {s : WriterRun} (h : s.Init) : BlockedInv s := by
  refine ⟨h.state, h.ring, fun buf hbuf data hmem => ?_⟩
  rw [h.refused] at hmem
  cases hmem

theorem WriterRun.Init.none_forgotten {s : WriterRun} (h : s.Init) : NoneForgotten s := by
  intro buf hbuf data hmem
  rw [h.refused] at hmem
  cases hmem

/-- A write that finds no room leaves the connection as it was, and waits. -/
theorem write_run_refused {s : WriterRun} {buf : UsnSendbuf} {data : List UInt8}
    (hbuf : s.conn.tcb.sndvar.sndbuf = some buf) (h : IndexWf buf)
    (hfull : buf.size.toNat ≤ buf.bytes + data.length) (hlen : data.length < buf.size.toNat) :
    write_run s data = some { s with refused := data :: s.refused } := by
  have hsame : (s.conn.onSnd fun v => { v with sndbuf := some buf }) = s.conn := by
    rw [← hbuf]
    rfl
  unfold write_run
  simp only [hbuf, (write_refused_iff h).mpr hfull, bind, Option.bind, pure, hlen, hsame,
    and_self, if_true]

/-- A write either puts its bytes behind the others, or changes nothing. -/
theorem write_run_cases {s s' : WriterRun} {data : List UInt8} (hinv : BlockedInv s)
    (h : write_run s data = some s') :
    ∃ buf buf', s.conn.tcb.sndvar.sndbuf = some buf ∧
      s'.conn.tcb.sndvar.sndbuf = some buf' ∧ s'.conn.tcb.state = .established ∧
      IndexWf buf' ∧ buf'.size = buf.size ∧ buf.bytes ≤ buf'.bytes ∧
      (s'.refused = s.refused ∨ (s'.refused = data :: s.refused ∧
        data.length < buf.size.toNat ∧ buf.size.toNat ≤ buf.bytes + data.length)) := by
  unfold write_run at h
  cases hbuf : s.conn.tcb.sndvar.sndbuf with
  | none => simp [hbuf, bind] at h
  | some buf =>
    have hwf := hinv.ring buf hbuf
    rcases usnet_write_data_cases data hwf with ⟨hfull, hw⟩ | ⟨hroom, buf', hw, hwf', hmoved⟩
    · simp only [hbuf, hw, bind, Option.bind, pure] at h
      obtain rfl := Option.some.inj h
      refine ⟨buf, buf, rfl, rfl, hinv.state, hwf, rfl, le_refl _, ?_⟩
      by_cases hlen : data.length < buf.size.toNat
      · exact .inr ⟨by simp [hlen], hlen, hfull⟩
      · exact .inl (by simp [hlen])
    · simp only [hbuf, hw, bind, Option.bind, pure] at h
      obtain rfl := Option.some.inj h
      have hsize : buf'.size = buf.size := by rw [← hmoved.rest]
      have hbytes := hmoved.bytes
      refine ⟨buf, buf', rfl, rfl, hinv.state, hwf', hsize, by omega, .inl ?_⟩
      have hneg : ¬ ((data.length : Int) = -1 ∧ data.length < buf.size.toNat) := by omega
      simp only [hneg, if_false]

theorem BlockedInv.write {s s' : WriterRun} {data : List UInt8} (hinv : BlockedInv s)
    (h : write_run s data = some s') : BlockedInv s' := by
  obtain ⟨buf, buf', hbuf, hbuf', hst, hwf, hsize, -, hrefused⟩ := write_run_cases hinv h
  refine ⟨hst, fun b hb => ?_, fun b hb d hd => ?_⟩
  · obtain rfl := Option.some.inj (hbuf'.symm.trans hb)
    exact hwf
  · obtain rfl := Option.some.inj (hbuf'.symm.trans hb)
    rw [hsize]
    rcases hrefused with heq | ⟨heq, hlen, -⟩
    · exact hinv.fits buf hbuf d (heq ▸ hd)
    · rw [heq, List.mem_cons] at hd
      rcases hd with rfl | hd
      · exact hlen
      · exact hinv.fits buf hbuf d hd

/-- Writes only fill the ring: what was refused stays refused. -/
theorem NoneForgotten.write {s s' : WriterRun} {data : List UInt8} (hinv : BlockedInv s)
    (hnone : NoneForgotten s) (h : write_run s data = some s') : NoneForgotten s' := by
  obtain ⟨buf, buf', hbuf, hbuf', -, hwf, hsize, hbytes, hrefused⟩ := write_run_cases hinv h
  intro b hb d hd
  obtain rfl := Option.some.inj (hbuf'.symm.trans hb)
  have hfull : buf.size.toNat ≤ buf.bytes + d.length := by
    rcases hrefused with heq | ⟨heq, -, hfull⟩
    · exact (write_refused_iff (hinv.ring buf hbuf)).mp (hnone buf hbuf d (heq ▸ hd))
    · rw [heq, List.mem_cons] at hd
      rcases hd with rfl | hd
      · exact hfull
      · exact (write_refused_iff (hinv.ring buf hbuf)).mp (hnone buf hbuf d hd)
  rw [write_refused_iff hwf, hsize]
  omega

/-- What an acknowledgement comes down to: the ring is left, or the bytes up to
    the number are taken off it. -/
theorem ack_run_cases {s s' : WriterRun} {seg : Segment} {room : Bool} {buf : UsnSendbuf}
    (hinv : BlockedInv s) (hbuf : s.conn.tcb.sndvar.sndbuf = some buf)
    (h : ack_run s seg room = some s') :
    s'.conn.tcb.state = .established ∧ (s'.refused = [] ∨ s'.refused = s.refused) ∧
    (((TCP_SEQ_GT seg.ack_seq (buf.head_seq + buf.len) ∨ TCP_SEQ_GEQ buf.head_seq seg.ack_seq) ∧
        s'.conn.tcb.sndvar.sndbuf = some buf) ∨
      (¬ TCP_SEQ_GT seg.ack_seq (buf.head_seq + buf.len) ∧
        ¬ TCP_SEQ_GEQ buf.head_seq seg.ack_seq ∧
        s'.conn.tcb.sndvar.sndbuf
          = some (usnet_remove_data buf (sint (seg.ack_seq - buf.head_seq))).2 ∧
        s'.refused = if room = true ∧ (s.conn.tcb.sndvar.snd_wnd = 0 ∨ opens_window s.conn seg)
          then [] else s.refused)) := by
  unfold ack_run at h
  cases hack : usnet_process_ack s.conn buf seg with
  | error e => simp [hbuf, hack, bind, Except.toOption] at h
  | ok rc =>
    obtain ⟨r, c⟩ := rc
    simp only [hbuf, hack, bind, Option.bind, pure, Except.toOption] at h
    obtain rfl := Option.some.inj h
    -- an acknowledgement leaves the state, whether it is acted on or not
    have hst : c.tcb.state = .established := by
      have hdone := hack
      unfold usnet_process_ack at hdone
      simp only at hdone
      split at hdone
      · obtain ⟨-, rfl⟩ := Prod.mk.inj (Except.ok.inj hdone)
        exact hinv.state
      · exact (process_valid_ack_done hdone).kept.2.2.2.1.2.2.2.2.trans hinv.state
    refine ⟨hst, ?_, ?_⟩
    · by_cases hn : (notified s.conn c && room) = true
      · exact .inl (if_pos hn)
      · exact .inr (if_neg hn)
    rcases usnet_process_ack_effect hinv.state hbuf hack with
      ⟨hgt, rfl⟩ | ⟨-, hgeq, hkept, -⟩ | ⟨hgt, hgeq, hrem, hev⟩
    · exact .inl ⟨.inl hgt, hbuf⟩
    · exact .inl ⟨.inr hgeq, hkept⟩
    · refine .inr ⟨hgt, hgeq, hrem, ?_⟩
      refine if_congr ?_ rfl rfl
      rw [Bool.and_eq_true, notified_iff hev, and_comm]

theorem BlockedInv.ack {s s' : WriterRun} {seg : Segment} {room : Bool} {buf : UsnSendbuf}
    (hinv : BlockedInv s) (hbuf : s.conn.tcb.sndvar.sndbuf = some buf)
    (hwf : ¬ TCP_SEQ_GT seg.ack_seq (buf.head_seq + buf.len) →
      ¬ TCP_SEQ_GEQ buf.head_seq seg.ack_seq → ahead buf.head_seq seg.ack_seq < 2 ^ 31)
    (h : ack_run s seg room = some s') : BlockedInv s' := by
  obtain ⟨hst, hrefused, hring⟩ := ack_run_cases hinv hbuf h
  have hmem : ∀ d ∈ s'.refused, d ∈ s.refused := by
    intro d hd
    rcases hrefused with heq | heq
    · rw [heq] at hd
      cases hd
    · exact heq ▸ hd
  rcases hring with ⟨-, hkept⟩ | ⟨hgt, hgeq, hrem, -⟩
  · refine ⟨hst, fun b hb => ?_, fun b hb d hd => ?_⟩
    · exact hinv.ring b (hbuf.trans (hkept.symm.trans hb))
    · exact hinv.fits b (hbuf.trans (hkept.symm.trans hb)) d (hmem d hd)
  · have hn : sint (seg.ack_seq - buf.head_seq) = ahead buf.head_seq seg.ack_seq :=
      sint_of_lt (hwf hgt hgeq)
    rw [hn] at hrem
    have hb := hinv.ring buf hbuf
    refine ⟨hst, fun b hbr => ?_, fun b hbr d hd => ?_⟩
    · obtain rfl := Option.some.inj (hrem.symm.trans hbr)
      exact hb.removed (Int.natCast_nonneg _)
    · obtain rfl := Option.some.inj (hrem.symm.trans hbr)
      rw [usnet_remove_data_size]
      exact hinv.fits buf hbuf d (hmem d hd)

/-- An acknowledgement that takes bytes off the ring forgets nobody exactly when it
    finds `snd_wnd` used up or opens the peer's window, with room for the event, or
    leaves too little room for everyone who waits. -/
theorem ack_forgets_none_iff {s s' : WriterRun} {seg : Segment} {room : Bool} {buf : UsnSendbuf}
    (hinv : BlockedInv s) (hbuf : s.conn.tcb.sndvar.sndbuf = some buf)
    (hgt : ¬ TCP_SEQ_GT seg.ack_seq (buf.head_seq + buf.len))
    (hgeq : ¬ TCP_SEQ_GEQ buf.head_seq seg.ack_seq)
    (hahead : ahead buf.head_seq seg.ack_seq < 2 ^ 31) (h : ack_run s seg room = some s') :
    NoneForgotten s' ↔ (room = true ∧
        (s.conn.tcb.sndvar.snd_wnd = 0 ∨ opens_window s.conn seg) ∨
      ∀ data ∈ s.refused, still_full buf (ahead buf.head_seq seg.ack_seq) data.length) := by
  have hwf := hinv.ring buf hbuf
  obtain ⟨-, -, hring⟩ := ack_run_cases hinv hbuf h
  rcases hring with ⟨hchecks, -⟩ | ⟨-, -, hrem, hrefused⟩
  · exact absurd hchecks (not_or.mpr ⟨hgt, hgeq⟩)
  have hn : sint (seg.ack_seq - buf.head_seq) = ahead buf.head_seq seg.ack_seq :=
    sint_of_lt hahead
  rw [hn] at hrem
  -- who still finds the ring full is not forgotten, only still waiting
  have hfull : ∀ data ∈ s.refused,
      (usnet_write_data (usnet_remove_data buf (ahead buf.head_seq seg.ack_seq)).2 data
        = some (-1, (usnet_remove_data buf (ahead buf.head_seq seg.ack_seq)).2) ↔
      still_full buf (ahead buf.head_seq seg.ack_seq) data.length) := fun data hd =>
    removed_refuses_iff hwf (hinv.fits buf hbuf data hd)
  by_cases hevent : room = true ∧ (s.conn.tcb.sndvar.snd_wnd = 0 ∨ opens_window s.conn seg)
  · -- the event clears the list of those who wait
    rw [if_pos hevent] at hrefused
    refine ⟨fun _ => .inl hevent, fun _ b hb data hd => ?_⟩
    rw [hrefused] at hd
    cases hd
  · rw [if_neg hevent] at hrefused
    constructor
    · intro hnone
      refine .inr fun data hd => ?_
      exact (hfull data hd).mp (hnone _ hrem data (hrefused ▸ hd))
    · intro hor b hb data hd
      obtain rfl := Option.some.inj (hrem.symm.trans hb)
      rw [hrefused] at hd
      have hstill := hor.resolve_left hevent
      exact (hfull data hd).mpr (hstill data hd)

/-- An acknowledgement that takes nothing off the ring lets no write in. -/
theorem NoneForgotten.refused_ack {s s' : WriterRun} {seg : Segment} {room : Bool} {buf : UsnSendbuf}
    (hnone : NoneForgotten s) (hinv : BlockedInv s)
    (hbuf : s.conn.tcb.sndvar.sndbuf = some buf)
    (hchecks : TCP_SEQ_GT seg.ack_seq (buf.head_seq + buf.len) ∨
      TCP_SEQ_GEQ buf.head_seq seg.ack_seq)
    (h : ack_run s seg room = some s') : NoneForgotten s' := by
  obtain ⟨-, hrefused, hring⟩ := ack_run_cases hinv hbuf h
  rcases hring with ⟨-, hkept⟩ | ⟨hgt, hgeq, -, -⟩
  · intro b hb data hd
    obtain rfl := Option.some.inj (hkept.symm.trans hb)
    rcases hrefused with heq | heq
    · rw [heq] at hd
      cases hd
    · exact hnone _ hbuf data (heq ▸ hd)
  · exact absurd hchecks (not_or.mpr ⟨hgt, hgeq⟩)

/-- What the process does besides leaves the ring, so that the same writes fit. -/
theorem Elsewhere.ring_of {s s' : Conn} {buf' : UsnSendbuf} (h : Elsewhere s s')
    (hbuf' : s'.tcb.sndvar.sndbuf = some buf') :
    ∃ buf, s.tcb.sndvar.sndbuf = some buf ∧ buf'.head = buf.head ∧ buf'.tail = buf.tail ∧
      buf'.size = buf.size := by
  have hring := h.ring
  unfold ring_at at hring
  rw [hbuf'] at hring
  cases hbuf : s.tcb.sndvar.sndbuf with
  | none =>
    rw [hbuf] at hring
    cases hring
  | some buf =>
    rw [hbuf] at hring
    have heq := Option.some.inj hring
    simp only [Prod.mk.injEq] at heq
    exact ⟨buf, rfl, heq.1, heq.2.1, heq.2.2⟩

theorem BlockedInv.rest {s s' : WriterRun} (hinv : BlockedInv s) (h : Elsewhere s.conn s'.conn)
    (hrefused : s'.refused = s.refused) : BlockedInv s' := by
  refine ⟨h.state.trans hinv.state, fun b hb => ?_, fun b hb data hd => ?_⟩
  · obtain ⟨buf, hbuf, hhead, htail, hsize⟩ := h.ring_of hb
    obtain ⟨hs, hh, ht⟩ := hinv.ring buf hbuf
    exact ⟨by rw [hsize]; exact hs, by rw [hhead, hsize]; exact hh,
      by rw [htail, hsize]; exact ht⟩
  · obtain ⟨buf, hbuf, -, -, hsize⟩ := h.ring_of hb
    rw [hsize]
    exact hinv.fits buf hbuf data (hrefused ▸ hd)

theorem NoneForgotten.rest {s s' : WriterRun} (hinv : BlockedInv s) (hnone : NoneForgotten s)
    (h : Elsewhere s.conn s'.conn) (hrefused : s'.refused = s.refused) : NoneForgotten s' := by
  intro b hb data hd
  have hwf := (hinv.rest h hrefused).ring b hb
  obtain ⟨buf, hbuf, hhead, htail, hsize⟩ := h.ring_of hb
  have hfull := (write_refused_iff (hinv.ring buf hbuf)).mp (hnone buf hbuf data (hrefused ▸ hd))
  have hbytes : b.bytes = buf.bytes := by
    unfold UsnSendbuf.bytes
    rw [hhead, htail, hsize]
  rw [write_refused_iff hwf, hbytes, hsize]
  exact hfull

/-! ## Section 5: Runs -/

theorem blocked_step_inv {s s' : WriterRun} {a : WriterAction}
    (h : BlockedInv s ∧ NoneForgotten s) (hc : KeepsWriters s a) (hs : blocked_step s a s') :
    BlockedInv s' ∧ NoneForgotten s' := by
  obtain ⟨hinv, hnone⟩ := h
  cases a with
  | write data => exact ⟨hinv.write hs, hnone.write hinv hs⟩
  | rest => exact ⟨hinv.rest hs.1 hs.2, hnone.rest hinv hs.1 hs.2⟩
  | ack seg room =>
    cases hbuf : s.conn.tcb.sndvar.sndbuf with
    | none =>
      have hnostep : ack_run s seg room = none := by
        unfold ack_run
        rw [hbuf]
        rfl
      rw [blocked_step, hnostep] at hs
      cases hs
    | some buf =>
      have hinv' := hinv.ack hbuf (fun hgt hgeq => (hc buf hbuf hgt hgeq).1) hs
      refine ⟨hinv', ?_⟩
      by_cases hchecks : TCP_SEQ_GT seg.ack_seq (buf.head_seq + buf.len) ∨
          TCP_SEQ_GEQ buf.head_seq seg.ack_seq
      · exact hnone.refused_ack hinv hbuf hchecks hs
      · obtain ⟨hgt, hgeq⟩ := not_or.mp hchecks
        obtain ⟨hahead, hkeeps⟩ := hc buf hbuf hgt hgeq
        exact (ack_forgets_none_iff hinv hbuf hgt hgeq hahead hs).mpr hkeeps

theorem blocked_run_inv {s : WriterRun}
    (h : RunWhere blocked_step KeepsWriters WriterRun.Init s) : BlockedInv s ∧ NoneForgotten s :=
  h.invariant (fun _ hi => ⟨hi.inv, hi.none_forgotten⟩)
    fun _ _ _ hinv hc hs => blocked_step_inv hinv hc hs

/-- A write that was refused and would succeed now has seen a write event since, in
    every run whose acknowledgements forget nobody. -/
theorem refused_writer_notified {s : WriterRun}
    (h : RunWhere blocked_step KeepsWriters WriterRun.Init s) : NoneForgotten s :=
  (blocked_run_inv h).2

/-- A bare acknowledgement of the peer. -/
def bare_ack (ack_seq : UInt32) : Segment := peer_segment 9001 ack_seq TH_ACK [] nil_short

/-- After the handshake. -/
def opened_run : WriterRun := { conn := ⟨quiet_ctx, opened_tcb⟩, refused := [] }

/-- Two bytes are in the ring. -/
def written_run : WriterRun := (write_run opened_run [1, 2]).get (by decide +kernel)

/-- The two bytes are flushed. -/
def flushed_run : WriterRun :=
  { written_run with
    conn := ((usnet_flush_tcp_sendbuf written_run.conn).toOption.get (by decide +kernel)).2 }

/-- A write of one byte less than the ring is refused. -/
def waiting_run : WriterRun := { flushed_run with refused := [List.replicate 32383 0] }

/-- One of the two bytes is acknowledged. -/
def acked_run : WriterRun := (ack_run waiting_run (bare_ack 5002) true).get (by decide +kernel)

/-- Both are. -/
def emptied_run : WriterRun := (ack_run waiting_run (bare_ack 5003) true).get (by decide +kernel)

def waiting_ring : UsnSendbuf :=
  waiting_run.conn.tcb.sndvar.sndbuf.get (by decide +kernel)

theorem waiting_run_where : RunWhere blocked_step KeepsWriters WriterRun.Init waiting_run := by
  have hinit : opened_run.Init := by
    refine ⟨rfl, fun buf hbuf => ?_, rfl⟩
    obtain rfl := Option.some.inj hbuf
    exact ⟨by decide +kernel, by decide +kernel, by decide +kernel⟩
  have hwrite : blocked_step opened_run (.write [1, 2]) written_run := (Option.some_get _).symm
  have hflush : blocked_step written_run .rest flushed_run := ⟨⟨rfl, rfl⟩, rfl⟩
  have hlen : (List.replicate 32383 (0 : UInt8)).length = 32383 := List.length_replicate
  have hring : flushed_run.conn.tcb.sndvar.sndbuf = some waiting_ring := (Option.some_get _).symm
  have hrefuse : blocked_step flushed_run (.write (List.replicate 32383 0)) waiting_run := by
    refine write_run_refused hring ⟨by decide +kernel, by decide +kernel, by decide +kernel⟩ ?_ ?_
    · rw [hlen]
      decide +kernel
    · rw [hlen]
      decide +kernel
  exact (((RunWhere.init hinit).next hwrite trivial).next hflush trivial).next hrefuse trivial

/-- An acknowledgement of one of the two bytes leaves too little room. -/
theorem refused_writer_notified_sample : NoneForgotten acked_run := by
  have hack : blocked_step waiting_run (.ack (bare_ack 5002) true) acked_run :=
    (Option.some_get _).symm
  refine refused_writer_notified (waiting_run_where.next hack fun buf hbuf _ _ => ?_)
  obtain rfl := Option.some.inj hbuf
  refine ⟨by decide +kernel, .inr fun data hd => ?_⟩
  have hlen : (List.replicate 32383 (0 : UInt8)).length = 32383 := List.length_replicate
  rw [List.mem_singleton.mp hd, hlen]
  decide +kernel

/-- The acknowledgement of both makes room for the write, and nobody is told. -/
theorem refused_writer_forgotten :
    Reachable blocked_step WriterRun.Init emptied_run ∧ ¬ NoneForgotten emptied_run := by
  have hack : blocked_step waiting_run (.ack (bare_ack 5003) true) emptied_run :=
    (Option.some_get _).symm
  have hring : waiting_run.conn.tcb.sndvar.sndbuf = some waiting_ring := (Option.some_get _).symm
  refine ⟨waiting_run_where.reachable.next hack trivial, fun hnone => ?_⟩
  have hkeeps := (ack_forgets_none_iff (blocked_run_inv waiting_run_where).1 hring
    (by decide +kernel) (by decide +kernel) (by decide +kernel) hack).mp hnone
  rcases hkeeps with ⟨-, hwnd | hopen⟩ | hfull
  · exact absurd hwnd (by decide +kernel)
  · exact absurd hopen (by decide +kernel)
  · have hstill := hfull _ (List.mem_singleton.mpr rfl)
    rw [List.length_replicate] at hstill
    exact absurd hstill (by decide +kernel)

end Usnet
