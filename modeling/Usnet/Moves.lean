import Usnet.Flush
import Usnet.Life
import Usnet.Reset

/-! # What an event does to a connection

    One statement about `life_conn` says what every event can do to the core of
    a connection.  The proofs about whole runs start from it and do not look at
    the code of the event again.
-/

namespace Usnet

open CInt Run

/-! ## Section 1: The moves -/

/-- The segment's acknowledgement is looked at.  CLOSE_WAIT, where a reset that
    is taken leads first, does not ask for the ACK flag. -/
def ack_looked_at (tcb : UsnTcb) (seg : Segment) : Prop :=
  tcb.state = .established ∧ ¬ (seg.has TH_RST ∧ reset_accepted tcb seg) ∧
    seg.has TH_ACK ∧ seg.has TH_SYN = false ∨
  (tcb.state = .close_wait ∨ seg.has TH_RST ∧ reset_accepted tcb seg) ∧
    ¬ TCP_SEQ_LT seg.seq tcb.rcv_nxt

/-- The acknowledgement of a segment passes the first check and is applied. -/
structure Acked (s : Conn) (buf : UsnSendbuf) (seg : Segment) (s' : Conn) : Prop where
  looked_at : ack_looked_at s.tcb seg
  sndbuf : s.tcb.sndvar.sndbuf = some buf
  passes : ¬ TCP_SEQ_GT seg.ack_seq (buf.head_seq + buf.len)
  snd_nxt : s'.tcb.snd_nxt = nxt_after_ack (note_segment s seg) seg seg.ack_seq
  data : (TCP_SEQ_GEQ buf.head_seq seg.ack_seq ∧
      s'.tcb.sndvar.snd_una = s.tcb.sndvar.snd_una ∧ s'.tcb.sndvar.sndbuf = some buf) ∨
    (¬ TCP_SEQ_GEQ buf.head_seq seg.ack_seq ∧ s'.tcb.sndvar.snd_una = seg.ack_seq ∧
      s'.tcb.sndvar.sndbuf
        = some (usnet_remove_data buf (sint (seg.ack_seq - buf.head_seq))).2)

/-- The payload was handed to `usnet_insert_fragment`, with this result. -/
structure Inserted (s : Conn) (seg : Segment) (buf buf' : UsnRingbuf) (r : Int) : Prop where
  established : s.tcb.state = .established ∧ seg.has TH_SYN = false
  payload : 0 < seg.payload.length ∧ payload_fits s.tcb seg
  buffer : receive_buffer s = some buf
  run : usnet_insert_fragment s.ctx.frag_mp buf seg.payload seg.seq = some (r, buf')

/-- What a segment does to the receive side, before its FIN. -/
inductive Received (s : Conn) (seg : Segment) (rcv_nxt rcv_wnd : UInt32)
    (rcvbuf : Option UsnRingbuf) : Prop where
  | nothing : rcv_nxt = s.tcb.rcv_nxt → rcv_wnd = s.tcb.rcvvar.rcv_wnd →
      rcvbuf = s.tcb.rcvvar.rcvbuf → Received s seg rcv_nxt rcv_wnd rcvbuf
  | inserted {buf buf' : UsnRingbuf} {r : Int} : Inserted s seg buf buf' r →
      rcv_nxt = buf'.head_seq → rcv_wnd = buf'.win → rcvbuf = some buf' →
      Received s seg rcv_nxt rcv_wnd rcvbuf

/-- A segment handled in ESTABLISHED or CLOSE_WAIT. -/
structure Handled (s : Conn) (seg : Segment) (s' : Conn) : Prop where
  sending : sending s.tcb.state
  state : s'.tcb.state = s.tcb.state ∨ s'.tcb.state = .close_wait ∨ s'.tcb.state = .closed
  kept : s'.tcb.fd = s.tcb.fd ∧ s'.tcb.socket = s.tcb.socket ∧
    s'.tcb.sndvar.iss = s.tcb.sndvar.iss ∧ s'.tcb.rcvvar.irs = s.tcb.rcvvar.irs ∧
    s'.tcb.sndvar.is_fin_sent = s.tcb.sndvar.is_fin_sent
  send : SameSeq s s' ∨ ∃ buf, Acked s buf seg s'
  receive : ∃ rcv_nxt,
    Received s seg rcv_nxt s'.tcb.rcvvar.rcv_wnd s'.tcb.rcvvar.rcvbuf ∧
    (s'.tcb.rcv_nxt = rcv_nxt ∨ s'.tcb.state = .close_wait)

/-- What an event can do. -/
inductive LifeMove (s : Conn) : LifeEvent → Conn → Prop where
  | control {ev : LifeEvent} {s' : Conn} : ControlCore s s' → LifeMove s ev s'
  | closed {ev : LifeEvent} {s' : Conn} :
      s'.tcb.core = { s.tcb.core with state := .closed } → LifeMove s ev s'
  | resent {s' : Conn} : sending s.tcb.state →
      s'.tcb.core = { s.tcb.core with snd_nxt := s.tcb.sndvar.snd_una } → LifeMove s .rto s'
  | joined {fd : UInt32} {result : Int} {sndbuf : Option UsnSendbuf} {s₁ s' : Conn} :
      (sndbuf = s.tcb.sndvar.sndbuf ∨ s.tcb.sndvar.sndbuf = none ∧
        ∃ slot, sndbuf = usnet_get_sendbuf slot SENDBUF_SIZE fd (s.tcb.sndvar.iss + 1)) →
      s₁.tcb.core = { s.tcb.core with fd := fd, socket := some fd, sndbuf := sndbuf } →
      ControlCore s₁ s' → LifeMove s (.accept true fd result) s'
  | written {fd : UInt32} {bytes : List UInt8} {buf buf' : UsnSendbuf} {r : Int} {s' : Conn} :
      s.tcb.sndvar.sndbuf = some buf → usnet_write_data buf bytes = some (r, buf') →
      s'.tcb.core = { s.tcb.core with sndbuf := some buf' } → LifeMove s (.write fd bytes) s'
  | read {fd : UInt32} {count : Nat} {s' : Conn} :
      s'.tcb.core = { s.tcb.core with
        rcvbuf := (usnet_read s.tcb.rcvvar.rcvbuf fd count).2.2 } →
      LifeMove s (.read fd count) s'
  | flushed {s₀ s₁ s' : Conn} {r : Int} : sending s.tcb.state → SameCore s s₀ →
      usnet_flush_tcp_sendbuf s₀ = .ok (r, s₁) → SameCore s₁ s' → LifeMove s .data s'
  | opened {seg : Segment} {s' : Conn} : s.tcb.state = .syn_received → seg.has TH_ACK →
      seg.ack_seq = s.tcb.sndvar.iss + 1 →
      s'.tcb.core = { s.tcb.core with
        state := .established
        snd_nxt := seg.ack_seq
        snd_una := s.tcb.sndvar.snd_una + 1 } → LifeMove s (.segment seg) s'
  | resynced {seg : Segment} {s' : Conn} : s.tcb.state = .established →
      in_window s.tcb seg → (seg.has TH_RST → ¬ reset_accepted s.tcb seg) → seg.has TH_SYN →
      s'.tcb.core = { s.tcb.core with snd_nxt := seg.ack_seq } →
      LifeMove s (.segment seg) s'
  | handled {seg : Segment} {s' : Conn} : in_window s.tcb seg → Handled s seg s' →
      LifeMove s (.segment seg) s'

/-! ## Section 2: The application's events -/

theorem usnet_connect_net_handler_move {s : Conn} (h : tracked s.tcb.state) (so : Bool)
    (fd : UInt32) (result : Int) :
    LifeMove s (.accept so fd result) (usnet_connect_net_handler s so fd result) := by
  unfold usnet_connect_net_handler
  by_cases hso : so = false
  · rw [if_pos hso]
    exact .control (SameCore.control rfl)
  · obtain rfl : so = true := by simpa using hso
    rw [if_neg hso]
    by_cases hres : result < 0
    · rw [if_pos hres]
      exact .control (SameCore.control rfl)
    · rw [if_neg hres]
      generalize hs₁ : (s.onTcb fun t => { t with socket := some fd, fd := fd }) = s₁
      have hcore : s₁.tcb.core = { s.tcb.core with fd := fd, socket := some fd } := by
        rw [← hs₁]; rfl
      have hst : tracked s₁.tcb.state := by rw [← hs₁]; exact h
      have hsnd : s₁.tcb.sndvar = s.tcb.sndvar := by rw [← hs₁]; rfl
      -- a buffer of its own, one from the pool, or none
      simp only [hsnd]
      cases hbuf : s.tcb.sndvar.sndbuf with
      | some buf =>
        refine .joined (.inl rfl) ?_ (usnet_add_control_list_core hst)
        rw [hcore]
        ext <;> simp [UsnTcb.core, hbuf]
      | none =>
        simp only
        have hfd : s₁.tcb.fd = fd := by rw [← hs₁]; rfl
        rw [hfd]
        cases hget : usnet_get_sendbuf s₁.ctx.sndbuf_cache SENDBUF_SIZE fd
            (s.tcb.sndvar.iss + 1) with
        | none =>
          refine .joined (.inl rfl) ?_ (SameCore.control rfl)
          rw [hcore]
          ext <;> simp [UsnTcb.core, hbuf]
        | some buf =>
          refine @LifeMove.joined s fd _ _ (s₁.onSnd fun v => { v with sndbuf := some buf }) _
            (.inr ⟨hbuf, s₁.ctx.sndbuf_cache, hget.symm⟩) ?_ (usnet_add_control_list_core hst)
          have hcore' : (s₁.onSnd fun v => { v with sndbuf := some buf }).tcb.core
            = { s₁.tcb.core with sndbuf := some buf } := rfl
          rw [hcore', hcore]

theorem usnet_write_net_handler_same (s : Conn) (so_tcb : Bool) (fd : UInt32) :
    Same s (usnet_write_net_handler s so_tcb fd) := by
  unfold usnet_write_net_handler
  cases s.tcb.sndvar.sndbuf with
  | none => simp
  | some buf =>
    simp only
    split
    · simp
    · split
      · simp
      · split <;> simp

theorem app_write_move {s s' : Conn} {fd : UInt32} {bytes : List UInt8}
    (h : app_write s fd bytes = .ok s') : LifeMove s (.write fd bytes) s' := by
  unfold app_write usnet_write at h
  cases hbuf : s.tcb.sndvar.sndbuf with
  | none =>
    simp only [hbuf] at h
    obtain rfl := Except.ok.inj h
    exact .control (SameCore.control rfl)
  | some buf =>
    simp only [hbuf] at h
    by_cases hfd : buf.fd ≠ fd
    · rw [if_pos hfd] at h
      obtain rfl := Except.ok.inj h
      exact .control (SameCore.control rfl)
    · rw [if_neg hfd] at h
      cases hw : usnet_write_data buf bytes with
      | none => simp [hw] at h
      | some p =>
        obtain ⟨r, buf'⟩ := p
        simp only [hw] at h
        obtain rfl := Except.ok.inj h
        exact .written hbuf hw rfl

/-! ## Section 3: Timers and the send list -/

theorem usnet_release_tcb_core (s : Conn) : SameCore s (usnet_release_tcb s) := by
  have hrel := usnet_release_tcb_kept s
  ext <;> simp [UsnTcb.core]

theorem give_up_core (s : Conn) :
    (give_up s).tcb.core = { s.tcb.core with state := .closed } := by
  unfold give_up
  split
  · exact (usnet_release_tcb_core _).trans rfl
  · simp only
    split
    · rfl
    · exact (usnet_release_tcb_core _).trans rfl

theorem back_off_core (s : Conn) : SameCore s (back_off s) := by
  have hsnd : ∀ (s : Conn) (f : SndVars → SndVars), (∀ v, (f v).snd_una = v.snd_una ∧
      (f v).iss = v.iss ∧ (f v).is_fin_sent = v.is_fin_sent ∧ (f v).sndbuf = v.sndbuf) →
      SameCore s (s.onSnd f) := by
    intro s f hf
    ext <;> simp [UsnTcb.core, hf]
  unfold back_off
  simp only
  refine (hsnd _ _ fun v => by simp).trans ?_
  refine (hsnd _ _ fun v => ?_).trans ?_
  · split <;> simp
  exact (hsnd _ _ fun v => by simp).trans (hsnd _ _ fun v => by simp)

theorem retransmit_core {s : Conn} (h : tracked s.tcb.state) :
    ControlCore (s.onTcb fun t => { t with snd_nxt := t.sndvar.snd_una }) (retransmit s) := by
  unfold retransmit
  simp only
  generalize ht : (s.onTcb fun t => { t with snd_nxt := t.sndvar.snd_una }) = t
  have hst : t.tcb.state = s.tcb.state := by rw [← ht]; rfl
  rw [hst]
  rcases h with h | h | h | h
  · rw [h]
    exact usnet_add_control_list_core (.inl (hst.trans h))
  · rw [h]
    exact (Same.core (usnet_add_send_list_same _)).control
  · rw [h]
    exact (Same.core (usnet_add_send_list_same _)).control
  · rw [h]
    exact usnet_add_control_list_core (.inr (.inr (.inr (hst.trans h))))

/-- A timeout closes the connection, or moves `snd_nxt` back to `snd_una`. -/
theorem usnet_handle_rto_core {s s' : Conn} {r : Int} (h : tracked s.tcb.state)
    (hok : usnet_handle_rto s = .ok (r, s')) :
    s'.tcb.core = { s.tcb.core with state := .closed } ∨
    s'.tcb.core = { s.tcb.core with snd_nxt := s'.tcb.snd_nxt } ∧
      (sending s.tcb.state → s'.tcb.snd_nxt = s.tcb.sndvar.snd_una) := by
  unfold usnet_handle_rto at hok
  by_cases hrto : s.tcb.sndvar.rto = 0
  · rw [if_pos hrto] at hok
    cases hok
  · rw [if_neg hrto] at hok
    by_cases hmax : s.tcb.sndvar.nrtx ≥ TCP_MAX_RTX
    · rw [if_pos hmax] at hok
      obtain ⟨-, rfl⟩ := hok
      exact .inl (give_up_core s)
    · rw [if_neg hmax] at hok
      have hback := back_off_core s
      generalize back_off s = t at *
      have hst : t.tcb.state = s.tcb.state := congrArg Core.state hback
      -- in the states that resend
      have hresent : retransmit t = s' →
          s'.tcb.core = { s.tcb.core with snd_nxt := s'.tcb.snd_nxt } ∧
          (sending s.tcb.state → s'.tcb.snd_nxt = s.tcb.sndvar.snd_una) := by
        rintro rfl
        have hctl := retransmit_core (hst ▸ h)
        refine ⟨?_, fun hs => ?_⟩
        · rw [hctl.core, ← hback]
          rfl
        · rw [hctl.snd_nxt (hst ▸ hs)]
          exact congrArg Core.snd_una hback
      simp only [hst] at hok
      rcases h with h | h | h | h
      · rw [h] at hok
        obtain ⟨-, rfl⟩ := hok
        exact .inr (hresent rfl)
      · rw [h] at hok
        obtain ⟨-, rfl⟩ := hok
        exact .inr (hresent rfl)
      · rw [h] at hok
        obtain ⟨-, rfl⟩ := hok
        exact .inr (hresent rfl)
      · rw [h] at hok
        obtain ⟨-, rfl⟩ := hok
        left
        rw [usnet_release_tcb_core]
        refine Eq.trans ?_ (congrArg (fun c : Core => { c with state := .closed }) hback)
        ext <;> simp [UsnTcb.core, hst, h]

theorem rto_visit_move {s s' : Conn} (h : tracked s.tcb.state) (hok : rto_visit s = .ok s') :
    LifeMove s .rto s' := by
  unfold rto_visit at hok
  split at hok
  · split at hok
    · cases hok
    · rename_i r t ht
      obtain rfl := Except.ok.inj hok
      rcases usnet_handle_rto_core h ht with hc | ⟨hc, hnxt⟩
      · exact .closed hc
      · by_cases hs : sending s.tcb.state
        · refine .resent hs ?_
          rw [← hnxt hs]
          exact hc
        · exact .control ⟨hc, fun hs' => absurd hs' hs⟩
  · obtain rfl := Except.ok.inj hok
    exact .control (SameCore.control rfl)

theorem timeout_visit_move (s : Conn) {ev : LifeEvent} : LifeMove s ev (timeout_visit s) := by
  have hrem : SameCore s (usnet_remove_timeout_list s) := Same.core (by simp)
  unfold timeout_visit
  split
  · apply LifeMove.closed
    rw [← hrem]
    simp only
    split
    · rfl
    · exact (usnet_release_tcb_core _).trans rfl
  · exact .control (SameCore.control rfl)

theorem timewait_visit_move (s : Conn) {ev : LifeEvent} : LifeMove s ev (timewait_visit s) := by
  unfold timewait_visit
  split
  · exact .closed ((usnet_release_tcb_core _).trans rfl)
  · exact .control (SameCore.control rfl)

/-- The visit flushes the send buffer, or leaves the core to a control packet. -/
theorem data_visit_core {s s' : Conn} (h : tracked s.tcb.state) (hok : data_visit s = .ok s') :
    ControlCore s s' ∨ ∃ s₀ s₁ r, sending s.tcb.state ∧ SameCore s s₀ ∧
      usnet_flush_tcp_sendbuf s₀ = .ok (r, s₁) ∧ SameCore s₁ s' := by
  unfold data_visit at hok
  simp only at hok
  generalize ht : (s.onCtx fun c => { c with send_list := c.send_list.erase s.tcb.id }) = t
    at hok
  have htcb : t.tcb = s.tcb := by rw [← ht]; rfl
  split at hok
  · split at hok
    · cases hok
    · rename_i r s₁ hsend
      -- what follows the sending does not count
      have hend : tracked s₁.tcb.state → ControlCore s₁ s' := by
        intro hs₁
        split at hok
        · obtain rfl := Except.ok.inj hok
          exact SameCore.control rfl
        · obtain rfl := Except.ok.inj hok
          refine ControlCore.trans ?_ (send_waiting_core _ ?_)
          · exact SameCore.control rfl
          · exact hs₁
      have hstay : tracked s₁.tcb.state → SameCore s s₁ → ControlCore s s' := fun hs₁ hc =>
        hc.control.trans (hend hs₁)
      have hflush : sending s.tcb.state → usnet_flush_tcp_sendbuf t = .ok (r, s₁) →
          ∃ s₀ s₁ r, sending s.tcb.state ∧ SameCore s s₀ ∧
            usnet_flush_tcp_sendbuf s₀ = .ok (r, s₁) ∧ SameCore s₁ s' := by
        intro hs hfl
        obtain ⟨buf, -, ⟨p, hp⟩⟩ := usnet_flush_tcp_sendbuf_core hfl
        have hst₁ : s₁.tcb.state = s.tcb.state := by
          have := congrArg Core.state hp
          rw [htcb] at this
          exact this
        have hctl := hend (hst₁ ▸ h)
        refine ⟨t, s₁, r, hs, by rw [SameCore, htcb], hfl, ?_⟩
        rw [SameCore, hctl.core, hctl.snd_nxt (hst₁ ▸ hs)]
        rfl
      unfold send_data at hsend
      simp only [htcb] at hsend
      rcases h with h | h | h | h
      · simp only [h] at hsend
        obtain ⟨-, rfl⟩ := hsend
        exact .inl <| hstay (by rw [htcb]; exact .inl h) (by rw [SameCore, htcb])
      · simp only [h] at hsend
        split at hsend
        · obtain ⟨-, rfl⟩ := hsend
          exact .inl <| hstay (by rw [htcb]; exact .inr (.inl h)) (by rw [SameCore, htcb])
        · exact .inr <| hflush (.inl h) hsend
      · simp only [h] at hsend
        exact .inr <| hflush (.inr h) hsend
      · simp only [h] at hsend
        obtain ⟨-, rfl⟩ := hsend
        exact .inl <| hstay (by rw [htcb]; exact .inr (.inr (.inr h))) (by rw [SameCore, htcb])
  · obtain rfl := Except.ok.inj hok
    exact .inl (SameCore.control (by rw [SameCore, htcb]))

theorem data_visit_move {s s' : Conn} (h : tracked s.tcb.state) (hok : data_visit s = .ok s') :
    LifeMove s .data s' := by
  rcases data_visit_core h hok with hc | ⟨s₀, s₁, r, hs, h₀, hfl, h₁⟩
  · exact .control hc
  · exact .flushed hs h₀ hfl h₁

/-! ## Section 4: Segments -/

/-- What the count of duplicates looks at. -/
@[simp] abbrev SameDup (s s' : Conn) : Prop :=
  s'.tcb.snd_nxt = s.tcb.snd_nxt ∧ s'.tcb.sndvar.peer_wnd = s.tcb.sndvar.peer_wnd ∧
  s'.tcb.sndvar.wscale = s.tcb.sndvar.wscale ∧
  s'.tcb.rcvvar.snd_wl1 = s.tcb.rcvvar.snd_wl1 ∧
  s'.tcb.rcvvar.snd_wl2 = s.tcb.rcvvar.snd_wl2 ∧
  s'.tcb.rcvvar.dup_acks = s.tcb.rcvvar.dup_acks ∧
  s'.tcb.rcvvar.last_ack_seq = s.tcb.rcvvar.last_ack_seq

theorem update_window_dup (s : Conn) (seg : Segment) (ack_seq : UInt32) :
    SameDup (if TCP_SEQ_LT s.tcb.rcvvar.snd_wl1 seg.seq ∨
        (s.tcb.rcvvar.snd_wl1 = seg.seq ∧ TCP_SEQ_LT s.tcb.rcvvar.snd_wl2 ack_seq) ∨
        (s.tcb.rcvvar.snd_wl2 = ack_seq ∧ cwindow s.tcb seg > s.tcb.sndvar.peer_wnd) then
      (s.onSnd fun v => { v with peer_wnd := cwindow s.tcb seg }).onRcv fun v =>
        { v with snd_wl1 := seg.seq, snd_wl2 := ack_seq }
      else s) (update_window s seg ack_seq) := by
  unfold update_window
  simp only
  split
  · split <;> simp
  · simp

theorem update_window_congr {s t : Conn} (seg : Segment) (ack_seq : UInt32)
    (h : SameDup s t) :
    SameDup (update_window s seg ack_seq) (update_window t seg ack_seq) := by
  have hcw : cwindow t.tcb seg = cwindow s.tcb seg := by simp [cwindow, h]
  have hs := update_window_dup s seg ack_seq
  have ht := update_window_dup t seg ack_seq
  obtain ⟨h₁, h₂, h₃, h₄, h₅, h₆, h₇⟩ := h
  rw [hcw, h₂, h₄, h₅] at ht
  split at hs
  · rename_i hc
    rw [if_pos hc] at ht
    simp_all
  · rename_i hc
    rw [if_neg hc] at ht
    simp_all

theorem third_dup_congr {s t : Conn} (seg : Segment) (ack_seq : UInt32) (h : SameDup s t) :
    third_dup t seg ack_seq = third_dup s seg ack_seq := by
  have hw := update_window_congr seg ack_seq h
  obtain ⟨-, h₂, -, -, h₅, -, -⟩ := h
  obtain ⟨w₁, w₂, -, -, w₅, w₆, w₇⟩ := hw
  unfold third_dup check_dup
  rw [h₂, h₅, w₁, w₂, w₅, w₇]
  simp only
  split
  · simp only [Conn.onRcv_tcb, w₆]
  · simp only [Bool.false_and]

theorem nxt_after_ack_congr {s t : Conn} (seg : Segment) (ack_seq : UInt32)
    (h : SameDup s t) : nxt_after_ack t seg ack_seq = nxt_after_ack s seg ack_seq := by
  unfold nxt_after_ack
  rw [third_dup_congr seg ack_seq h, h.1]

/-- Only a segment without payload is a duplicate, so the payload makes no
    difference to where `snd_nxt` goes. -/
theorem third_dup_payload {s : Conn} {seg : Segment} {ack_seq : UInt32}
    (h : third_dup s seg ack_seq) : seg.payload.length = 0 := by
  unfold third_dup check_dup at h
  simp only at h
  split at h
  · rename_i hdup
    exact hdup.2.2.1
  · simp at h

/-- What the check and the reset logic leave of the connection. -/
structure Noted (s : Conn) (seg : Segment) (n : Conn) : Prop where
  core : n.tcb.core = { s.tcb.core with state := n.tcb.state }
  dup : SameDup (note_segment s seg) n
  pools : n.ctx.frag_mp = s.ctx.frag_mp ∧ n.ctx.ringbuf_cache = s.ctx.ringbuf_cache

theorem validate_timestamp_dup {s s' : Conn} {seg : Segment} {r : Int}
    (h : validate_timestamp s seg = .ok (r, s')) (hr : ¬ r < 0) : SameDup s s' := by
  unfold validate_timestamp at h
  split at h
  · split at h
    · cases h
    · obtain ⟨rfl, -⟩ := h
      exact absurd (by decide) hr
    · split at h
      · obtain ⟨rfl, -⟩ := h
        exact absurd (by decide) hr
      · obtain ⟨-, rfl⟩ := h
        simp
  · obtain ⟨-, rfl⟩ := h
    simp

theorem usnet_validate_seq_dup {s s' : Conn} {seg : Segment} {r : Int}
    (h : usnet_validate_seq s seg = .ok (r, s')) (hr : ¬ r < 0) : SameDup s s' := by
  unfold usnet_validate_seq at h
  split at h
  · cases h
  · rename_i r₁ s₁ hts
    split at h
    · obtain ⟨rfl, -⟩ := h
      contradiction
    · rename_i hr₁
      have hdup := validate_timestamp_dup hts hr₁
      split at h
      · obtain ⟨-, rfl⟩ := h
        exact hdup
      · unfold reject_seq at h
        split at h
        · obtain ⟨rfl, -⟩ := h
          exact absurd (by decide) hr
        · split at h
          · split at h
            · obtain ⟨rfl, -⟩ := h
              exact absurd (by decide) hr
            · split at h
              · obtain ⟨rfl, -⟩ := h
                exact absurd (by decide) hr
              · obtain ⟨rfl, -⟩ := h
                exact absurd (by decide) hr
          · split at h
            · split at h
              · cases h
              · obtain ⟨rfl, -⟩ := h
                exact absurd (by decide) hr
            · obtain ⟨rfl, -⟩ := h
              exact absurd (by decide) hr

/-- Without a reset the handler finds the connection as it was. -/
theorem noted_quiet {s s₁ : Conn} (seg : Segment) (hq : Quiet s s₁) (hdup : SameDup s s₁) :
    Noted s seg (note_segment s₁ seg) ∧ (note_segment s₁ seg).tcb.state = s.tcb.state := by
  have hn : SameCore s (note_segment s₁ seg) :=
    (Quiet.core (note_segment_quiet s₁ seg)).trans hq.core
  have hst : (note_segment s₁ seg).tcb.state = s.tcb.state := congrArg Core.state hn
  refine ⟨⟨?_, ?_, ?_⟩, hst⟩
  · rw [hn, hst]
    rfl
  · simp only [note_segment]
    simp_all
  · have hnq := note_segment_quiet s₁ seg
    generalize note_segment s₁ seg = n at *
    simp_all

/-- A reset that is taken moves the connection to CLOSE_WAIT first. -/
theorem noted_rst {s : Conn} {seg : Segment} (hs : sending s.tcb.state)
    (hw : in_window s.tcb seg) :
    Noted s seg (usnet_handle_rst (marked s seg) seg.ack_seq).2 ∧
    ((usnet_handle_rst (marked s seg) seg.ack_seq).2.tcb.state = s.tcb.state ∧
        ¬ reset_accepted s.tcb seg ∨
      (usnet_handle_rst (marked s seg) seg.ack_seq).2.tcb.state = .close_wait ∧
        (s.tcb.state = .close_wait ∨ reset_accepted s.tcb seg)) := by
  have hn : SameCore s (marked s seg) := Quiet.core (marked_quiet s seg)
  have hd : SameDup (note_segment s seg) (marked s seg) := by simp [marked]
  have hst : (marked s seg).tcb.state = s.tcb.state := congrArg Core.state hn
  have hq := marked_queues s seg
  have hclosed : (marked s seg).tcb.core = { s.tcb.core with state := s.tcb.state } := hn
  have hp : (marked s seg).ctx.frag_mp = s.ctx.frag_mp ∧
      (marked s seg).ctx.ringbuf_cache = s.ctx.ringbuf_cache := by simp
  unfold usnet_handle_rst
  rcases hs with hs | hs
  · simp only [hst, hs, hq]
    split
    · rename_i hqueue
      refine ⟨⟨by rw [hst]; exact hclosed, hd, hp⟩, .inl ⟨hst.trans hs, fun hacc => ?_⟩⟩
      unfold reset_accepted at hacc
      rw [hs] at hacc
      exact absurd hacc.2 (by simp [hqueue])
    · rename_i hqueue
      refine ⟨⟨congrArg (fun c : Core => { c with state := .close_wait }) hn, hd, hp⟩,
        .inr ⟨rfl, .inr ⟨hw, ?_⟩⟩⟩
      rw [hs]
      simpa using hqueue
  · simp only [hst, hs, hq]
    split
    · exact ⟨⟨by rw [hst]; exact hclosed, hd, hp⟩, .inr ⟨hst.trans hs, .inl trivial⟩⟩
    · exact ⟨⟨congrArg (fun c : Core => { c with state := .close_wait }) hn, hd, hp⟩,
        .inr ⟨rfl, .inl trivial⟩⟩

/-- A segment that passes the checks of a connection that sends lies in the window;
    its reset, if it carries one, has been dealt with when its handler is called. -/
theorem noted_by_check {s s₁ : Conn} {seg : Segment} {r : Int} (hs : sending s.tcb.state)
    (hchk : check_segment s seg = .ok (r, s₁)) (hneg : ¬ r < 0) :
    r = 0 ∧ in_window s.tcb seg ∧ Noted s seg (process_rst (note_segment s₁ seg) seg).2 ∧
    ((process_rst (note_segment s₁ seg) seg).2.tcb.state = s.tcb.state ∧
        (seg.has TH_RST → ¬ reset_accepted s.tcb seg) ∨
      (process_rst (note_segment s₁ seg) seg).2.tcb.state = .close_wait ∧
        (s.tcb.state = .close_wait ∨ seg.has TH_RST ∧ reset_accepted s.tcb seg)) := by
  have hval : s.tcb.state.val ≥ TcpState.syn_received.val := by
    rcases hs with hs | hs <;> rw [hs] <;> decide
  rw [check_segment, if_pos hval] at hchk
  obtain ⟨hr, hw, hq⟩ : r = 0 ∧ in_window s.tcb seg ∧ Quiet s s₁ := by
    rcases usnet_validate_seq_cases hchk with ⟨hr, hw, hq⟩ | ⟨hr, -⟩ | ⟨hr, -⟩ | ⟨hr, -⟩
    · exact ⟨hr, hw, hq⟩
    · exact absurd hr hneg
    · exact absurd hr hneg
    · exact absurd hr hneg
  refine ⟨hr, hw, ?_⟩
  by_cases hrst : seg.has TH_RST
  · have hsame : s₁ = s := by
      rw [usnet_validate_seq_rst hrst, if_pos hw] at hchk
      exact (Prod.mk.inj (Except.ok.inj hchk)).2.symm
    have hst : (note_segment s seg).tcb.state = s.tcb.state := by simp
    have htaken : (process_rst (note_segment s seg) seg).2
        = (usnet_handle_rst (marked s seg) seg.ack_seq).2 := by
      unfold process_rst
      simp only [hrst, if_true, Conn.onTcb_tcb, hst]
      rw [if_pos (by simp only [TcpState.val] at hval ⊢; omega)]
      rfl
    rw [hsame, htaken]
    obtain ⟨hn, hst⟩ := noted_rst hs hw
    exact ⟨hn, hst.imp (fun h => ⟨h.1, fun _ => h.2⟩)
      fun h => ⟨h.1, h.2.imp_right fun ha => ⟨hrst, ha⟩⟩⟩
  · have hrst' : seg.has TH_RST = false := by simpa using hrst
    rw [process_rst_none hrst']
    obtain ⟨hn, hst⟩ := noted_quiet seg hq (usnet_validate_seq_dup hchk hneg)
    exact ⟨hn, .inl ⟨hst, fun hr => absurd hr hrst⟩⟩

/-- The acknowledgement, from what the handler finds. -/
theorem AckOutcome.acked {s n s₁ s₂ s' : Conn} {seg : Segment} (hn : Noted s seg n)
    (hfin : s.tcb.sndvar.is_fin_sent = false) (hlook : ack_looked_at s.tcb seg)
    (hkept : SameSeq n s₁ ∧ s₁.tcb.sndvar.is_fin_sent = n.tcb.sndvar.is_fin_sent)
    (hsame : seg.payload = [] → s₁ = n) (h : AckOutcome s₁ seg s₂) (hseq : SameSeq s₂ s') :
    SameSeq s s' ∨ ∃ buf, Acked s buf seg s' := by
  have hnfin : n.tcb.sndvar.is_fin_sent = false :=
    (congrArg Core.is_fin_sent hn.core).trans hfin
  have hnseq : SameSeq s n := ⟨congrArg Core.snd_nxt hn.core, congrArg Core.snd_una hn.core,
    congrArg Core.sndbuf hn.core⟩
  have hack : counted_ack s₁ seg.ack_seq = seg.ack_seq := by
    have hfin₁ : s₁.tcb.sndvar.is_fin_sent = false := hkept.2.trans hnfin
    unfold counted_ack
    simp only [hfin₁, Bool.false_eq_true, false_and, if_false]
    split <;> rfl
  cases h with
  | no_buffer _ hs => subst hs; left; simp_all
  | refused _ _ _ hs => subst hs; left; simp_all
  | done buf r hbuf hgt hd =>
    right
    rw [hack] at hgt hd
    have hnxt : nxt_after_ack s₁ seg seg.ack_seq
        = nxt_after_ack (note_segment s seg) seg seg.ack_seq := by
      by_cases hpay : seg.payload = []
      · rw [hsame hpay]
        exact nxt_after_ack_congr seg _ hn.dup
      · -- with payload neither side counts a duplicate
        have hno : ∀ u : Conn, third_dup u seg seg.ack_seq = false := by
          intro u
          by_contra hd
          exact hpay (List.eq_nil_of_length_eq_zero (third_dup_payload (by simpa using hd)))
        unfold nxt_after_ack
        rw [hno, hno, hkept.1.1, hn.dup.1]
    refine ⟨buf, ⟨hlook, by simp_all, hgt, ?_, ?_⟩⟩
    · rw [hseq.1, hd.snd_nxt, hnxt]
    · rcases hd.data with ⟨-, hg, hu, hb⟩ | ⟨-, hg, hu, hb⟩
      · exact .inl ⟨hg, by simp_all, by simp_all⟩
      · exact .inr ⟨hg, by simp_all, by simp_all⟩

theorem Noted.kept {s n : Conn} {seg : Segment} (h : Noted s seg n) :
    n.tcb.fd = s.tcb.fd ∧ n.tcb.socket = s.tcb.socket ∧
    n.tcb.sndvar.iss = s.tcb.sndvar.iss ∧ n.tcb.rcvvar.irs = s.tcb.rcvvar.irs ∧
    n.tcb.sndvar.is_fin_sent = s.tcb.sndvar.is_fin_sent :=
  ⟨congrArg Core.fd h.core, congrArg Core.socket h.core, congrArg Core.iss h.core,
    congrArg Core.irs h.core, congrArg Core.is_fin_sent h.core⟩

theorem Noted.receive {s n : Conn} {seg : Segment} (h : Noted s seg n) :
    n.tcb.rcv_nxt = s.tcb.rcv_nxt ∧ n.tcb.rcvvar.rcv_wnd = s.tcb.rcvvar.rcv_wnd ∧
    n.tcb.rcvvar.rcvbuf = s.tcb.rcvvar.rcvbuf :=
  ⟨congrArg Core.rcv_nxt h.core, congrArg Core.rcv_wnd h.core, congrArg Core.rcvbuf h.core⟩

theorem Noted.seq {s n : Conn} {seg : Segment} (h : Noted s seg n) : SameSeq s n :=
  ⟨congrArg Core.snd_nxt h.core, congrArg Core.snd_una h.core, congrArg Core.sndbuf h.core⟩

/-- The receive side after the payload part. -/
theorem Noted.payload {s n s₁ : Conn} {seg : Segment} (hn : Noted s seg n)
    (hst : s.tcb.state = .established) (hsyn : seg.has TH_SYN = false)
    (h : handle_payload n seg .aggregate .now = .ok s₁) :
    Received s seg s₁.tcb.rcv_nxt s₁.tcb.rcvvar.rcv_wnd s₁.tcb.rcvvar.rcvbuf := by
  obtain ⟨hnxt, hwnd, hrb⟩ := hn.receive
  obtain ⟨hmp, hcache⟩ := hn.pools
  rcases handle_payload_done h with ⟨-, rfl⟩ | ⟨hpos, r, hd⟩
  · exact .nothing hnxt hwnd hrb
  · cases hd with
    | outside _ _ hq =>
      refine .nothing ?_ ?_ ?_
      all_goals simp_all
    | no_mem _ _ _ _ _ hnxt₁ hrcv => exact .nothing (by simp_all) (by simp_all) (by simp_all)
    | inserted buf buf' r₀ hfits hbuf hins _ _ hnxt₁ hrb₁ hwnd₁ =>
      refine .inserted ⟨⟨hst, hsyn⟩, ⟨hpos, ?_⟩, ?_, hmp ▸ hins⟩ hnxt₁ hwnd₁ hrb₁
      · unfold payload_fits at *
        rwa [hnxt, hwnd] at hfits
      · rw [← hbuf]
        unfold receive_buffer
        simp only [hrb, hcache, hn.kept]

/-- What the handler of the established state does. -/
theorem usnet_handle_established_move {s n s' : Conn} {seg : Segment}
    (hs : sending s.tcb.state) (hfin : s.tcb.sndvar.is_fin_sent = false)
    (hn : Noted s seg n) (hst : s.tcb.state = .established)
    (hnst : n.tcb.state = .established) (hrst : seg.has TH_RST → ¬ reset_accepted s.tcb seg)
    (hsyn : seg.has TH_SYN = false)
    (hok : usnet_handle_established n seg = .ok s') : Handled s seg s' := by
  have hnkept := hn.kept
  have hnseq := hn.seq
  obtain ⟨s₁, s₂, hpay, hack, rfl⟩ := usnet_handle_established_parts hsyn hok
  obtain ⟨hp, hst₁⟩ := handle_payload_kept hpay
  have ha := established_ack_kept hack
  obtain ⟨hf, hfrcv, -, -⟩ := established_fin_kept s₂ seg
  -- payload, acknowledgement and FIN one after the other
  have hsame : seg.payload = [] → s₁ = n := by
    intro hnil
    rcases handle_payload_done hpay with ⟨-, rfl⟩ | ⟨hpos, -⟩
    · rfl
    · simp [hnil] at hpos
  have hend : (established_fin s₂ seg).tcb.state = .close_wait ∨
      Same s₂ (established_fin s₂ seg) := by
    by_cases hf : seg.has TH_FIN ∧ seg.seq = s₂.tcb.rcv_nxt
    · exact .inl (established_fin_taken hf.1 hf.2).1
    · exact .inr (established_fin_other hf)
  refine ⟨hs, ?_, by simp_all, ?_, s₁.tcb.rcv_nxt, ?_, ?_⟩
  · rcases hend with hend | hend
    · exact .inr (.inl hend)
    · rcases hst₁ with hst₁ | hst₁
      · left
        simp_all
      · right
        right
        simp_all
  · rcases established_ack_outcome hack with ⟨-, rfl⟩ | ⟨hflag, ho⟩
    · left
      simp_all
    · have hlook : ack_looked_at s.tcb seg :=
        .inl ⟨hst, fun h => hrst h.1 h.2, hflag, hsyn⟩
      exact ho.acked hn hfin hlook ⟨by simp_all, by simp_all⟩ hsame (by simp_all)
  · have hrb : (established_fin s₂ seg).tcb.rcvvar.rcvbuf = s₁.tcb.rcvvar.rcvbuf := by
      rw [hfrcv]
      simp_all
    have hwnd : (established_fin s₂ seg).tcb.rcvvar.rcv_wnd = s₁.tcb.rcvvar.rcv_wnd := by
      rw [hfrcv]
      simp_all
    rw [hrb, hwnd]
    exact hn.payload hst hsyn hpay
  · rcases hend with hend | hend
    · exact .inr hend
    · left
      simp_all

/-- What the handler of CLOSE_WAIT does. -/
theorem usnet_handle_close_wait_move {s n s' : Conn} {seg : Segment}
    (hs : sending s.tcb.state) (hfin : s.tcb.sndvar.is_fin_sent = false)
    (hn : Noted s seg n) (hst : n.tcb.state = .close_wait)
    (hfrom : s.tcb.state = .close_wait ∨ seg.has TH_RST ∧ reset_accepted s.tcb seg)
    (hok : usnet_handle_close_wait n seg = .ok s') : Handled s seg s' := by
  have hkept := hn.kept
  have hseq := hn.seq
  have hrcv := hn.receive.2
  rcases usnet_handle_close_wait_cases hok with ⟨-, rfl⟩ | ⟨hseq', ho⟩
  · have hacks := usnet_add_control_list_acks (.inr hst)
    refine ⟨hs, .inr (.inl (by simp [hst])), by simp [hacks, hkept], .inl ?_, ?_⟩
    · simp [hacks, hseq]
    · exact ⟨s.tcb.rcv_nxt, .nothing rfl (by simp [hrcv]) (by simp [hrcv]),
        .inr (by simp [hst])⟩
  · have hak := ho.kept
    have hst' : s'.tcb.state = .close_wait := by simp_all
    have hlook : ack_looked_at s.tcb seg := by
      rw [hn.receive.1] at hseq'
      exact .inr ⟨hfrom, hseq'⟩
    refine ⟨hs, .inr (.inl hst'), by simp_all, ?_, ?_⟩
    · exact ho.acked hn hfin hlook ⟨by simp, rfl⟩ (fun _ => rfl) (by simp)
    · exact ⟨s.tcb.rcv_nxt, .nothing rfl (by simp_all) (by simp_all), .inr hst'⟩

/-- A segment in the window, in the state the reset logic leaves. -/
theorem handle_state_move {s n s' : Conn} {seg : Segment} (hs : sending s.tcb.state)
    (hfin : s.tcb.sndvar.is_fin_sent = false) (hw : in_window s.tcb seg)
    (hn : Noted s seg n)
    (hst : n.tcb.state = s.tcb.state ∧ (seg.has TH_RST → ¬ reset_accepted s.tcb seg) ∨
      n.tcb.state = .close_wait ∧
        (s.tcb.state = .close_wait ∨ seg.has TH_RST ∧ reset_accepted s.tcb seg))
    (hok : handle_state n seg = .ok s') : LifeMove s (.segment seg) s' := by
  unfold handle_state at hok
  by_cases hcw : n.tcb.state = .close_wait
  · rw [hcw] at hok
    have hfrom : s.tcb.state = .close_wait ∨ seg.has TH_RST ∧ reset_accepted s.tcb seg := by
      rcases hst with ⟨hst, -⟩ | ⟨-, hfrom⟩
      · exact .inl (hst.symm.trans hcw)
      · exact hfrom
    exact .handled hw (usnet_handle_close_wait_move hs hfin hn hcw hfrom hok)
  · obtain ⟨hst, hrst⟩ := hst.resolve_right fun h => hcw h.1
    have hest : s.tcb.state = .established := hs.resolve_right (hst ▸ hcw)
    rw [hst, hest] at hok
    by_cases hsyn : seg.has TH_SYN
    · obtain ⟨hnxt, hk, hss, hf, -⟩ := usnet_handle_established_syn (hst.trans hest) hsyn hok
      refine .resynced hest hw hrst hsyn ?_
      have hcore := hn.core
      have hkept := hn.kept
      have hseq := hn.seq
      have hrcv := hn.receive
      ext <;> simp_all [UsnTcb.core]
    · exact .handled hw (usnet_handle_established_move hs hfin hn hest (hst.trans hest) hrst
        (by simpa using hsyn) hok)

/-- SYN_RECEIVED: the handshake ends or goes on. -/
theorem usnet_handle_syn_received_move {s n s' : Conn} {seg : Segment}
    (hn : SameCore s n) (hst : s.tcb.state = .syn_received)
    (hok : usnet_handle_syn_received n seg = .ok s') : LifeMove s (.segment seg) s' := by
  have hnst : n.tcb.state = .syn_received := (congrArg Core.state hn).trans hst
  have hiss : n.tcb.sndvar.iss = s.tcb.sndvar.iss := congrArg Core.iss hn
  have huna : n.tcb.sndvar.snd_una = s.tcb.sndvar.snd_una := congrArg Core.snd_una hn
  rcases usnet_handle_syn_received_cases hok with
    ⟨-, -, rfl⟩ | ⟨hack, hseq, he⟩ | ⟨-, rfl⟩
  · exact .control hn.control
  · refine .opened hst hack (hseq.trans (by rw [hiss])) ?_
    rw [← hn, ← huna]
    obtain ⟨h₁, h₂, h₃, h₄, ⟨h₅, h₆, -, -, -, -, h₇, h₈⟩, ⟨h₉, h₁₀⟩, -⟩ := he
    ext <;> simp [UsnTcb.core, *]
  · have hctl := usnet_add_control_list_core
      (s := n.onTcb fun t => { t with snd_nxt := t.sndvar.iss }) (.inl hnst)
    refine .control ⟨?_, fun hs => ?_⟩
    · rw [hctl.core, ← hn]
      rfl
    · rcases hs with hs | hs <;> rw [hst] at hs <;> cases hs

/-- Every segment that returns makes one of the moves. -/
theorem input_segment_move {s s' : Conn} {seg : Segment} {r : Int} (h : tracked s.tcb.state)
    (hfin : s.tcb.sndvar.is_fin_sent = false) (hok : input_segment s seg = .ok (r, s')) :
    LifeMove s (.segment seg) s' := by
  have hval : sending s.tcb.state → s.tcb.state.val ≥ TcpState.syn_received.val := by
    rintro (hs | hs) <;> rw [hs] <;> decide
  -- a reset goes its own way, by the state it finds
  by_cases hrst : seg.has TH_RST
  · rcases input_segment_rst hrst hok with ⟨-, -, rfl⟩ | ⟨hv, hs⟩ | ⟨hv, hw, hs⟩
    · exact .control (SameCore.control rfl)
    · rcases h with h | h | h | h
      · rw [h] at hv
        exact absurd hv (by decide)
      · exact absurd (hval (.inl h)) (by omega)
      · exact absurd (hval (.inr h)) (by omega)
      · have hm : (marked s seg).tcb.state = .closed := by simp [h]
        simp only [handle_state, hm] at hs
        obtain rfl := Except.ok.inj hs
        exact .control (Quiet.core (marked_quiet s seg)).control
    · rcases h with h | h | h | h
      · have hm : (marked s seg).tcb.state = .syn_received := by simp [h]
        have hcore := Quiet.core (marked_quiet s seg)
        unfold usnet_handle_rst at hs
        simp only [hm] at hs
        split at hs
        · -- the reset is taken: the block is released and the handler does nothing
          simp only [handle_state, usnet_release_tcb_kept, Conn.onTcb_tcb] at hs
          obtain rfl := Except.ok.inj hs
          refine .closed ((usnet_release_tcb_core _).trans ?_)
          rw [← hcore]
          rfl
        · simp only [handle_state, hm] at hs
          exact usnet_handle_syn_received_move hcore h hs
      · obtain ⟨hn, hst⟩ := noted_rst (.inl h) hw
        exact handle_state_move (.inl h) hfin hw hn (hst.imp (fun hst => ⟨hst.1, fun _ => hst.2⟩)
          fun hst => ⟨hst.1, hst.2.imp_right fun ha => ⟨hrst, ha⟩⟩) hs
      · obtain ⟨hn, hst⟩ := noted_rst (.inr h) hw
        exact handle_state_move (.inr h) hfin hw hn (hst.imp (fun hst => ⟨hst.1, fun _ => hst.2⟩)
          fun hst => ⟨hst.1, hst.2.imp_right fun ha => ⟨hrst, ha⟩⟩) hs
      · rw [h] at hv
        exact absurd hv (by decide)
  -- else the segment is rejected by the check or reaches its handler
  · have hrst' : seg.has TH_RST = false := by simpa using hrst
    by_cases hv : s.tcb.state.val ≥ TcpState.syn_received.val
    · have htw : s.tcb.state ≠ .time_wait := by
        rcases h with h | h | h | h <;> rw [h] <;> decide
      rcases input_segment_cases hok with ⟨-, r₀, hneg, hc⟩ | ⟨-, r₀, s₁, hneg, hc, hs⟩
      · rw [check_segment, if_pos hv] at hc
        rcases usnet_validate_seq_cases hc with
          ⟨rfl, -, -⟩ | ⟨-, hq⟩ | ⟨-, -, -, -, t, hq, rfl⟩ | ⟨-, hst⟩
        · exact absurd hneg (by decide)
        · exact .control (Quiet.core hq).control
        · have hst : t.tcb.state = s.tcb.state := congrArg Core.state hq.core
          exact .control (hq.core.control.trans (usnet_add_control_list_core (hst ▸ h)))
        · exact absurd hst htw
      · rw [check_segment, if_pos hv] at hc
        have hdup := usnet_validate_seq_dup hc hneg
        rcases usnet_validate_seq_cases hc with
          ⟨-, hw, hq⟩ | ⟨hr, -⟩ | ⟨hr, -⟩ | ⟨hr, -⟩
        · rw [process_rst_none hrst'] at hs
          obtain ⟨hn, hst⟩ := noted_quiet seg hq hdup
          rcases h with h | h | h | h
          · have hm : (note_segment s₁ seg).tcb.state = .syn_received := hst.trans h
            simp only [handle_state, hm] at hs
            exact usnet_handle_syn_received_move
              ((Quiet.core (note_segment_quiet s₁ seg)).trans hq.core) h hs
          · exact handle_state_move (.inl h) hfin hw hn (.inl ⟨hst, fun hr => absurd hr hrst⟩) hs
          · exact handle_state_move (.inr h) hfin hw hn (.inl ⟨hst, fun hr => absurd hr hrst⟩) hs
          · rw [h] at hv
            exact absurd hv (by decide)
        · exact absurd hr hneg
        · exact absurd hr hneg
        · exact absurd hr hneg
    · have hst : s.tcb.state = .closed := by
        rcases h with h | h | h | h
        · rw [h] at hv
          exact absurd (by decide) hv
        · exact absurd (hval (.inl h)) hv
        · exact absurd (hval (.inr h)) hv
        · exact h
      rcases input_segment_cases hok with ⟨-, r₀, hneg, hc⟩ | ⟨-, r₀, s₁, hneg, hc, hs⟩
      · rw [check_segment, if_neg hv] at hc
        obtain ⟨rfl, rfl⟩ := hc
        exact absurd hneg (by decide)
      · rw [check_segment, if_neg hv] at hc
        obtain ⟨rfl, rfl⟩ := hc
        have hm : (note_segment s seg).tcb.state = .closed := by simp [hst]
        rw [process_rst_none hrst'] at hs
        simp only [handle_state, hm] at hs
        obtain rfl := Except.ok.inj hs
        exact .control (Quiet.core (note_segment_quiet s seg)).control

/-! ## Section 5: Any event -/

/-- What holds of every connection at any time. -/
structure LifeInv (t : UsnTcb) : Prop where
  state : tracked t.state
  no_fin : t.sndvar.is_fin_sent = false

/-- Every event makes one of the moves. -/
theorem life_conn_move {s s' : Conn} {ev : LifeEvent} (h : LifeInv s.tcb)
    (hok : life_conn s ev = .ok s') : LifeMove s ev s' := by
  -- one kind of move for each event
  cases ev with
  | segment seg =>
    simp only [life_conn] at hok
    split at hok
    · unfold effect at hok
      split at hok
      · cases hok
      · rename_i hin
        obtain rfl := Except.ok.inj hok
        exact input_segment_move h.state h.no_fin hin
    · obtain rfl := Except.ok.inj hok
      exact .control (SameCore.control rfl)
  | accept so fd result =>
    obtain rfl := Except.ok.inj hok
    exact usnet_connect_net_handler_move h.state so fd result
  | wrote so_tcb fd =>
    obtain rfl := Except.ok.inj hok
    exact .control (Same.core (usnet_write_net_handler_same s so_tcb fd)).control
  | rto => exact rto_visit_move h.state hok
  | control =>
    obtain rfl := Except.ok.inj hok
    exact .control (control_visit_core h.state)
  | acks =>
    obtain rfl := Except.ok.inj hok
    exact .control (ack_visit_core h.state)
  | data => exact data_visit_move h.state hok
  | timewait =>
    obtain rfl := Except.ok.inj hok
    exact timewait_visit_move s
  | timeout =>
    obtain rfl := Except.ok.inj hok
    split
    · exact timeout_visit_move s
    · exact .control (SameCore.control rfl)
  | write fd bytes => exact app_write_move hok
  | read fd count =>
    obtain rfl := Except.ok.inj hok
    exact .read rfl

/-- The core after the application's message. -/
theorem joined_core {s s₁ s' : Conn} {fd : UInt32} {sndbuf : Option UsnSendbuf}
    (hc : s₁.tcb.core = { s.tcb.core with fd := fd, socket := some fd, sndbuf := sndbuf })
    (hctl : ControlCore s₁ s') :
    s'.tcb.core = { s.tcb.core with
      fd := fd
      socket := some fd
      snd_nxt := s'.tcb.snd_nxt
      sndbuf := sndbuf } := by
  have hcore := hctl.core
  rw [hc] at hcore
  exact hcore

/-- The core after a visit of the send list. -/
theorem flushed_core {s s₀ s₁ s' : Conn} {r : Int} (h₀ : SameCore s s₀)
    (hfl : usnet_flush_tcp_sendbuf s₀ = .ok (r, s₁)) (h₁ : SameCore s₁ s') :
    ∃ buf sent_head, s.tcb.sndvar.sndbuf = some buf ∧
      s'.tcb.core = { s.tcb.core with
        snd_nxt := s'.tcb.snd_nxt
        sndbuf := some { buf with sent_head := sent_head } } := by
  obtain ⟨buf, hbuf, p, hp⟩ := usnet_flush_tcp_sendbuf_core hfl
  have hnxt : s'.tcb.snd_nxt = s₁.tcb.snd_nxt := congrArg Core.snd_nxt h₁
  have hcore := h₁.trans hp
  rw [h₀] at hcore
  refine ⟨buf, p, (congrArg Core.sndbuf h₀).symm.trans hbuf, ?_⟩
  rw [hnxt]
  exact hcore

theorem LifeMove.inv {s s' : Conn} {ev : LifeEvent} (hm : LifeMove s ev s')
    (h : LifeInv s.tcb) : LifeInv s'.tcb := by
  have hcore : ∀ c : Core, s'.tcb.core = c → tracked c.state → c.is_fin_sent = false →
      LifeInv s'.tcb := by
    rintro c rfl hst hfin
    exact ⟨hst, hfin⟩
  cases hm with
  | control hc => exact hcore _ hc.core h.state h.no_fin
  | closed hc => exact hcore _ hc (.inr (.inr (.inr rfl))) h.no_fin
  | resent _ hc => exact hcore _ hc h.state h.no_fin
  | joined _ hc hctl =>
    exact hcore _ (joined_core hc hctl) h.state h.no_fin
  | written _ _ hc => exact hcore _ hc h.state h.no_fin
  | read hc => exact hcore _ hc h.state h.no_fin
  | flushed _ h₀ hfl h₁ =>
    obtain ⟨buf, p, -, hc⟩ := flushed_core h₀ hfl h₁
    exact hcore _ hc h.state h.no_fin
  | opened _ _ _ hc => exact hcore _ hc (.inr (.inl rfl)) h.no_fin
  | resynced _ _ _ _ hc => exact hcore _ hc h.state h.no_fin
  | handled _ hh =>
    obtain ⟨-, -, -, -, hfin⟩ := hh.kept
    refine ⟨?_, hfin.trans h.no_fin⟩
    rcases hh.state with hst | hst | hst
    · exact hst ▸ h.state
    · exact .inr (.inr (.inl hst))
    · exact .inr (.inr (.inr hst))

/-- No event moves a connection out of CLOSED. -/
theorem LifeMove.stays_closed {s s' : Conn} {ev : LifeEvent} (hm : LifeMove s ev s')
    (h : s.tcb.state = .closed) : s'.tcb.state = .closed := by
  have hnot : ¬ sending s.tcb.state := by
    rw [h]
    rintro (hs | hs) <;> cases hs
  cases hm with
  | control hc => exact hc.state.trans h
  | closed hc => exact congrArg Core.state hc
  | resent hs _ => exact absurd hs hnot
  | joined _ hc hctl => exact (hctl.state.trans (congrArg Core.state hc)).trans h
  | written _ _ hc => exact (congrArg Core.state hc).trans h
  | read hc => exact (congrArg Core.state hc).trans h
  | flushed hs _ _ _ => exact absurd hs hnot
  | opened hs _ _ _ => cases h.symm.trans hs
  | resynced hs _ _ _ _ => cases h.symm.trans hs
  | handled _ hh => exact absurd hh.sending hnot

/-! ## Section 6: New connections -/

/-- A connection just created by a SYN. -/
structure Created (t : UsnTcb) : Prop where
  state : t.state = .syn_received
  socket : t.socket = none
  send : t.sndvar.snd_una = t.sndvar.iss ∧ t.sndvar.sndbuf = none ∧
    t.sndvar.is_fin_sent = false
  unsent : t.snd_nxt = t.sndvar.iss
  receive : t.rcv_nxt = t.rcvvar.irs + 1 ∧ t.rcvvar.rcvbuf = none ∧
    t.rcvvar.rcv_wnd = TCP_INITIAL_WINDOW
  lists : t.on_rto_idx = -1 ∧ t.sndvar.on_control_list = false ∧
    t.control_list_waiting = false

/-- The lists a control packet or a retransmission waits on. -/
@[simp] abbrev SameLists (t t' : UsnTcb) : Prop :=
  t'.on_rto_idx = t.on_rto_idx ∧ t'.sndvar.on_control_list = t.sndvar.on_control_list ∧
  t'.control_list_waiting = t.control_list_waiting

/-- Options concern neither the core nor the lists. -/
theorem parse_opts_loop_core {cur_time : UInt32} {seg : Segment} (fuel i : Nat)
    {t t' : UsnTcb} (h : parse_opts_loop cur_time seg fuel i t = .ok t') :
    t'.core = t.core ∧ SameLists t t' := by
  induction fuel generalizing i t with
  | zero => cases h
  | succ fuel ih =>
    unfold parse_opts_loop at h
    by_cases hi : i < seg.opts.length
    · rw [if_pos hi] at h
      simp only at h
      split at h
      · obtain rfl := Except.ok.inj h
        exact ⟨rfl, by simp⟩
      · split at h
        · exact ih _ h
        · split at h
          · obtain rfl := Except.ok.inj h
            exact ⟨rfl, by simp⟩
          · split at h
            · obtain ⟨hc, hl⟩ := ih _ h
              exact ⟨hc, hl⟩
            · split at h
              · obtain ⟨hc, hl⟩ := ih _ h
                exact ⟨hc, hl⟩
              · split at h
                · obtain ⟨hc, hl⟩ := ih _ h
                  exact ⟨hc, hl⟩
                · split at h
                  · obtain ⟨hc, hl⟩ := ih _ h
                    exact ⟨hc, hl⟩
                  · exact ih _ h
    · rw [if_neg hi] at h
      obtain rfl := Except.ok.inj h
      exact ⟨rfl, by simp⟩

/-- The block in LISTEN, before the SYN that made it is handled. -/
theorem usnet_create_tcb_listen {c : Ctx} {l : Listener} {seg : Segment} {t : UsnTcb}
    (h : usnet_create_tcb c l seg = .ok (some t)) :
    t.state = .listen ∧ t.socket = none ∧
    t.sndvar.snd_una = t.sndvar.iss ∧ t.sndvar.sndbuf = none ∧
    t.sndvar.is_fin_sent = false ∧
    t.rcv_nxt = t.rcvvar.irs ∧ t.rcvvar.rcvbuf = none ∧
    t.rcvvar.rcv_wnd = TCP_INITIAL_WINDOW ∧
    t.on_rto_idx = -1 ∧ t.sndvar.on_control_list = false ∧
    t.control_list_waiting = false ∧ t.snd_nxt = t.sndvar.iss := by
  obtain ⟨id, -, -, -, hopts⟩ := usnet_create_tcb_made h
  obtain ⟨hcore, hidx, hctl, hwait⟩ := parse_opts_loop_core _ _ hopts
  have hsnd := congrArg Core.iss hcore
  have hrcv := congrArg Core.irs hcore
  exact ⟨congrArg Core.state hcore, congrArg Core.socket hcore,
    (congrArg Core.snd_una hcore).trans hsnd.symm, congrArg Core.sndbuf hcore,
    congrArg Core.is_fin_sent hcore, (congrArg Core.rcv_nxt hcore).trans hrcv.symm,
    congrArg Core.rcvbuf hcore, congrArg Core.rcv_wnd hcore, hidx, hctl, hwait,
    (congrArg Core.snd_nxt hcore).trans hsnd.symm⟩

/-- A block taken for a segment without a connection is made for its SYN. -/
theorem usnet_handle_passive_open_creates {c c₁ : Ctx} {seg : Segment} {t₀ : UsnTcb}
    (h : usnet_handle_passive_open c seg = .ok (c₁, some t₀)) :
    seg.has TH_SYN ∧ ∃ l, usnet_create_tcb c l seg = .ok (some t₀) := by
  unfold usnet_handle_passive_open at h
  by_cases hsyn : seg.has TH_SYN ∧ ¬ seg.has TH_ACK
  · rw [if_pos hsyn] at h
    refine ⟨hsyn.1, ?_⟩
    simp only at h
    split at h
    · cases h
    · rename_i l _
      split at h
      · cases h
      · cases h
      · rename_i t₁ hcreate
        obtain ⟨-, rfl⟩ := h
        exact ⟨l, hcreate⟩
  · rw [if_neg hsyn] at h
    split at h
    · cases h
    · split at h
      · cases h
      · cases h

/-- A segment makes a connection of the block created for it: the window is noted
    and the SYN moves the block on to SYN_RECEIVED. -/
theorem usnet_tcp_input_opens {c c' : Ctx} {seg : Segment} {ret : Int} {t : UsnTcb}
    (h : usnet_tcp_input c none seg = .ok (ret, c', some t)) :
    seg.has TH_SYN ∧ ∃ l t₀ c₁ b, usnet_create_tcb c l seg = .ok (some t₀) ∧
      t = ((note_segment ⟨c₁, t₀⟩ seg).onTcb fun t =>
        { t with have_reset := b, state := .syn_received, rcv_nxt := t.rcv_nxt + 1 }).tcb := by
  unfold usnet_tcp_input at h
  cases hopen : usnet_handle_passive_open c seg with
  | error e => simp [hopen, bind, Except.bind] at h
  | ok p =>
    obtain ⟨c₁, cur⟩ := p
    simp only [hopen, bind, Except.bind] at h
    cases cur with
    | none => cases h
    | some t₀ =>
      simp only at h
      obtain ⟨hsyn, l, hcreate⟩ := usnet_handle_passive_open_creates hopen
      have hst := (usnet_create_tcb_listen hcreate).1
      refine ⟨hsyn, l, t₀, c₁, ?_⟩
      cases hin : input_segment ⟨c₁, t₀⟩ seg with
      | error e => simp [hin] at h
      | ok q =>
        obtain ⟨r, s'⟩ := q
        simp only [hin, pure, Except.pure] at h
        obtain ⟨-, -, rfl⟩ := h
        -- LISTEN is below every check, and the SYN moves the block on
        have hlow : t₀.state.val < TcpState.syn_received.val := by rw [hst]; decide
        have hchk : check_segment ⟨c₁, t₀⟩ seg = .ok (0, ⟨c₁, t₀⟩) := by
          unfold check_segment
          rw [if_neg (by simpa using hlow)]
        rcases input_segment_cases hin with ⟨-, r₀, hneg, hc⟩ | ⟨-, r₀, s₁, -, hc, hs⟩
        · rw [hchk] at hc
          obtain ⟨rfl, -⟩ := hc
          exact absurd hneg (by decide)
        · rw [hchk] at hc
          obtain ⟨rfl, rfl⟩ := hc
          have hnst : (note_segment ⟨c₁, t₀⟩ seg).tcb.state = .listen := by
            rw [← hst]
            simp
          generalize note_segment ⟨c₁, t₀⟩ seg = n at *
          have hrst : ∃ b, (process_rst n seg).2
              = n.onTcb fun t => { t with have_reset := b } := by
            unfold process_rst
            split
            · refine ⟨true, ?_⟩
              simp only [Conn.onTcb_tcb, hnst]
              rfl
            · exact ⟨n.tcb.have_reset, rfl⟩
          obtain ⟨b, hb⟩ := hrst
          rw [hb] at hs
          simp only [handle_state, Conn.onTcb_tcb, hnst, usnet_handle_listen, hsyn, if_true]
            at hs
          obtain rfl := Except.ok.inj hs
          exact ⟨b, hcreate, rfl⟩

/-- Every connection that appears was created by a SYN. -/
theorem usnet_tcp_input_created {c c' : Ctx} {seg : Segment} {ret : Int} {t : UsnTcb}
    (h : usnet_tcp_input c none seg = .ok (ret, c', some t)) : Created t := by
  obtain ⟨-, l, t₀, c₁, b, hcreate, rfl⟩ := usnet_tcp_input_opens h
  obtain ⟨hst, hso, h₁, h₂, h₃, h₄, h₅, hwnd, h₆, h₇, h₈, h₉⟩ :=
    usnet_create_tcb_listen hcreate
  have hn := note_segment_quiet ⟨c₁, t₀⟩ seg
  have hnl : SameLists t₀ (note_segment ⟨c₁, t₀⟩ seg).tcb := by simp [note_segment]
  generalize note_segment ⟨c₁, t₀⟩ seg = n at *
  simp only [Conn.onTcb_tcb]
  refine ⟨rfl, ?_, ?_, ?_, ?_, ?_⟩
  · simp [hn, hso]
  · simp [hn, h₁, h₂, h₃]
  · simp [hn, h₉]
  · simp [hn, h₄, h₅, hwnd]
  · simp [hnl, h₆, h₇, h₈]

end Usnet
