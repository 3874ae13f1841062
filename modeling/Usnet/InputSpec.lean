import Usnet.TcpIn

/-! # What the handlers change

    One lemma for each part of the input path; the proofs about whole runs go
    through these and do not look at the handlers again.
-/

namespace Usnet

open CInt

/-! ## Section 1: The sequence check -/

theorem validate_timestamp_quiet {s s' : Conn} {seg : Segment} {r : Int}
    (h : validate_timestamp s seg = .ok (r, s')) : Quiet s s' := by
  unfold validate_timestamp at h
  by_cases hts : seg.has TH_RST = false ∧ s.tcb.saw_timestamp
  · rw [if_pos hts] at h
    split at h
    · cases h
    · obtain ⟨-, rfl⟩ := h
      simp
    · split at h
      · obtain ⟨-, rfl⟩ := h
        simp
      · obtain ⟨-, rfl⟩ := h
        simp
  · rw [if_neg hts] at h
    obtain ⟨-, rfl⟩ := h
    simp

/-- The window does not depend on bookkeeping. -/
theorem in_window_congr {t t' : UsnTcb} {seg : Segment} (hnxt : t'.rcv_nxt = t.rcv_nxt)
    (hwnd : t'.rcvvar.rcv_wnd = t.rcvvar.rcv_wnd) :
    in_window t' seg ↔ in_window t seg := by
  unfold in_window
  rw [hnxt, hwnd]

/-- The three results of the check: the segment passes, it is rejected quietly,
    or it is answered with a control packet. -/
theorem usnet_validate_seq_cases {s s' : Conn} {seg : Segment} {r : Int}
    (h : usnet_validate_seq s seg = .ok (r, s')) :
    (r = 0 ∧ in_window s.tcb seg ∧ Quiet s s') ∨
    (r < 0 ∧ Quiet s s') ∨
    (r < 0 ∧ ¬ in_window s.tcb seg ∧ seg.has TH_RST = false ∧
      s.tcb.state ≠ .established ∧
      ∃ t, Quiet s t ∧ s' = usnet_add_control_list t) ∨
    (r < 0 ∧ s.tcb.state = .time_wait) := by
  unfold usnet_validate_seq at h
  split at h
  · cases h
  · rename_i r₁ s₁ hts
    have hq := validate_timestamp_quiet hts
    have hwin : in_window s₁.tcb seg ↔ in_window s.tcb seg :=
      in_window_congr (by simp [hq]) (by simp [hq])
    -- PAWS first, then the window, then what is answered to a segment outside of it
    by_cases hneg : r₁ < 0
    · rw [if_pos hneg] at h
      obtain ⟨rfl, rfl⟩ := h
      exact .inr (.inl ⟨hneg, hq⟩)
    · rw [if_neg hneg] at h
      by_cases hw : in_window s₁.tcb seg
      · rw [if_pos hw] at h
        obtain ⟨rfl, rfl⟩ := h
        exact .inl ⟨rfl, hwin.mp hw, hq⟩
      · rw [if_neg hw] at h
        unfold reject_seq at h
        by_cases hrst : seg.has TH_RST
        · rw [if_pos hrst] at h
          obtain ⟨rfl, rfl⟩ := h
          exact .inr (.inl ⟨by decide, hq⟩)
        · rw [if_neg hrst] at h
          by_cases hest : s₁.tcb.state = .established
          · rw [if_pos hest] at h
            right
            left
            split at h
            · obtain ⟨rfl, rfl⟩ := h
              simp_all
            · split at h
              · obtain ⟨rfl, rfl⟩ := h
                simp_all
              · obtain ⟨rfl, rfl⟩ := h
                simp_all
          · rw [if_neg hest] at h
            have hst : s₁.tcb.state = s.tcb.state := by simp [hq]
            by_cases htw : s₁.tcb.state = .time_wait
            · rw [if_pos htw] at h
              split at h
              · cases h
              · obtain ⟨rfl, -⟩ := h
                exact .inr (.inr (.inr ⟨by decide, hst ▸ htw⟩))
            · rw [if_neg htw] at h
              obtain ⟨rfl, rfl⟩ := h
              refine .inr (.inr (.inl ⟨by decide, fun hw' => hw (hwin.mpr hw'), ?_,
                hst ▸ hest, s₁, hq, rfl⟩))
              simpa using hrst

/-- For a reset only the window counts. -/
theorem usnet_validate_seq_rst {s : Conn} {seg : Segment} (hrst : seg.has TH_RST) :
    usnet_validate_seq s seg = .ok (if in_window s.tcb seg then 0 else -3, s) := by
  unfold usnet_validate_seq validate_timestamp reject_seq
  simp only [hrst, Bool.true_eq_false, false_and, if_false]
  by_cases hw : in_window s.tcb seg <;> simp [hw]

/-! ## Section 2: The payload -/

/-- The variables neither the payload nor a FIN reaches. -/
@[simp] abbrev SameOuter (s s' : Conn) : Prop :=
  s'.tcb.id = s.tcb.id ∧ s'.tcb.fd = s.tcb.fd ∧ s'.tcb.socket = s.tcb.socket ∧
  s'.tcb.saddr = s.tcb.saddr ∧ s'.tcb.daddr = s.tcb.daddr ∧
  s'.tcb.sport = s.tcb.sport ∧ s'.tcb.dport = s.tcb.dport ∧ SameSeq s s' ∧
  s'.tcb.rcvvar.irs = s.tcb.rcvvar.irs ∧ s'.tcb.sndvar.iss = s.tcb.sndvar.iss ∧
  s'.tcb.sndvar.fss = s.tcb.sndvar.fss ∧
  s'.tcb.sndvar.is_fin_sent = s.tcb.sndvar.is_fin_sent ∧
  s'.ctx.cur_time = s.ctx.cur_time ∧ s'.ctx.tcp_timeout = s.ctx.tcp_timeout

/-- These, and nothing sent. -/
@[simp] abbrev PayloadKept (s s' : Conn) : Prop :=
  SameOuter s s' ∧ s'.ctx.frames = s.ctx.frames

/-- The payload lies between `rcv_nxt` and the end of the window. -/
def payload_fits (tcb : UsnTcb) (seg : Segment) : Prop :=
  ¬ TCP_SEQ_LT (seg.seq + seg.payloadlen) tcb.rcv_nxt ∧
  ¬ TCP_SEQ_GT (seg.seq + seg.payloadlen) (tcb.rcv_nxt + tcb.rcvvar.rcv_wnd)

/-- The four ends of `usnet_process_tcp_payload`: outside the window, no receive
    buffer to be had, or handed to `usnet_insert_fragment`. -/
inductive PayloadDone (s : Conn) (seg : Segment) (s' : Conn) : Int → Prop where
  | outside {r : Int} : r < 0 → ¬ payload_fits s.tcb seg → Quiet s s' →
      PayloadDone s seg s' r
  | no_mem {r : Int} : r < 0 → payload_fits s.tcb seg → receive_buffer s = none →
      PayloadKept s s' → s'.tcb.state = .closed → s'.tcb.rcv_nxt = s.tcb.rcv_nxt →
      s'.tcb.rcvvar = s.tcb.rcvvar → s'.ctx.applied = s.ctx.applied → PayloadDone s seg s' r
  | inserted {r : Int} (buf buf' : UsnRingbuf) (r₀ : Int) : payload_fits s.tcb seg →
      receive_buffer s = some buf →
      usnet_insert_fragment s.ctx.frag_mp buf seg.payload seg.seq = some (r₀, buf') →
      PayloadKept s s' → s'.tcb.state = s.tcb.state → s'.tcb.rcv_nxt = buf'.head_seq →
      s'.tcb.rcvvar.rcvbuf = some buf' → s'.tcb.rcvvar.rcv_wnd = buf'.win →
      s'.ctx.applied = s.ctx.applied ++ [.payload] →
      (r = 0 ↔ ¬ TCP_SEQ_LEQ buf'.head_seq s.tcb.rcv_nxt) → PayloadDone s seg s' r

theorem store_payload_done {s s' : Conn} {buf : UsnRingbuf} {seg : Segment} {r : Int}
    (hfits : payload_fits s.tcb seg) (hbuf : receive_buffer s = some buf)
    (h : store_payload s buf seg = .ok (r, s')) : PayloadDone s seg s' r := by
  unfold store_payload at h
  simp only at h
  split at h
  · cases h
  · rename_i r₀ buf' hins
    by_cases hleq : TCP_SEQ_LEQ buf'.head_seq s.tcb.rcv_nxt
    · rw [if_pos (by exact hleq)] at h
      obtain ⟨rfl, rfl⟩ := h
      exact .inserted buf buf' r₀ hfits hbuf hins (by simp) (by simp) (by simp) (by simp)
        (by simp) (by simp) (by simpa using hleq)
    · rw [if_neg (by exact hleq)] at h
      split at h
      · obtain ⟨rfl, rfl⟩ := h
        exact .inserted buf buf' r₀ hfits hbuf hins (by simp) (by simp) (by simp) (by simp)
          (by simp) (by simp) (by simpa using hleq)
      · obtain ⟨rfl, rfl⟩ := h
        exact .inserted buf buf' r₀ hfits hbuf hins (by simp) (by simp) (by simp) (by simp)
          (by simp) (by simp) (by simpa using hleq)

theorem usnet_process_tcp_payload_done {s s' : Conn} {seg : Segment} {r : Int}
    (h : usnet_process_tcp_payload s seg = .ok (r, s')) : PayloadDone s seg s' r := by
  unfold usnet_process_tcp_payload at h
  by_cases hlt : TCP_SEQ_LT (seg.seq + seg.payloadlen) s.tcb.rcv_nxt
  · rw [if_pos hlt] at h
    obtain ⟨rfl, rfl⟩ := h
    exact .outside (by decide) (fun hf => hf.1 hlt) (by simp)
  · rw [if_neg hlt] at h
    by_cases hgt : TCP_SEQ_GT (seg.seq + seg.payloadlen)
        (s.tcb.rcv_nxt + s.tcb.rcvvar.rcv_wnd)
    · rw [if_pos hgt] at h
      obtain ⟨rfl, rfl⟩ := h
      exact .outside (by decide) (fun hf => hf.2 hgt) (by simp)
    · rw [if_neg hgt] at h
      split at h
      · rename_i hbuf
        obtain ⟨rfl, rfl⟩ := h
        exact .no_mem (by decide) ⟨hlt, hgt⟩ hbuf (by simp) (by simp) (by simp) (by simp)
          (by simp)
      · rename_i buf hbuf
        exact store_payload_done ⟨hlt, hgt⟩ hbuf h

/-- The bookkeeping that follows does not disturb the result. -/
theorem PayloadDone.congr {s s₁ s' : Conn} {seg : Segment} {r : Int}
    (h : PayloadDone s seg s₁ r) (hsame : Same s₁ s') : PayloadDone s seg s' r := by
  cases h with
  | outside hr hfits hq => exact .outside hr hfits (by simp_all)
  | no_mem hr hfits hbuf hkept hst hnxt hrcv happ =>
    exact .no_mem hr hfits hbuf (by simp_all) (by simp_all) (by simp_all) (by simp_all)
      (by simp_all)
  | inserted buf buf' r₀ hfits hbuf hins hkept hst hnxt hrb hwnd happ hr =>
    exact .inserted buf buf' r₀ hfits hbuf hins (by simp_all) (by simp_all) (by simp_all)
      (by simp_all) (by simp_all) (by simp_all) hr

/-- The payload part of a handler: nothing without payload, else as above. -/
theorem handle_payload_done {s s' : Conn} {seg : Segment} {stored refused : AckOpt}
    (h : handle_payload s seg stored refused = .ok s') :
    (seg.payload = [] ∧ s' = s) ∨ (0 < seg.payload.length ∧ ∃ r, PayloadDone s seg s' r) := by
  unfold handle_payload at h
  by_cases hlen : seg.payload.length > 0
  · rw [if_pos hlen] at h
    split at h
    · cases h
    · rename_i r s₁ hpay
      obtain rfl := Except.ok.inj h
      exact .inr ⟨hlen, r, (usnet_process_tcp_payload_done hpay).congr (by simp)⟩
  · rw [if_neg hlen] at h
    obtain rfl := Except.ok.inj h
    exact .inl ⟨List.eq_nil_of_length_eq_zero (by omega), rfl⟩

/-- What every outcome of the payload has in common. -/
theorem PayloadDone.kept {s s' : Conn} {seg : Segment} {r : Int}
    (h : PayloadDone s seg s' r) :
    PayloadKept s s' ∧ (s'.tcb.state = s.tcb.state ∨ s'.tcb.state = .closed) := by
  cases h with
  | outside hr hfits hq => exact ⟨by simp_all, .inl (by simp_all)⟩
  | no_mem hr hfits hbuf hkept hst hnxt hrcv happ => exact ⟨hkept, .inr hst⟩
  | inserted buf buf' r₀ hfits hbuf hins hkept hst => exact ⟨hkept, .inl hst⟩

theorem handle_payload_kept {s s' : Conn} {seg : Segment} {stored refused : AckOpt}
    (h : handle_payload s seg stored refused = .ok s') :
    PayloadKept s s' ∧ (s'.tcb.state = s.tcb.state ∨ s'.tcb.state = .closed) := by
  rcases handle_payload_done h with ⟨-, rfl⟩ | ⟨-, r, hd⟩
  · exact ⟨by simp, .inl rfl⟩
  · exact hd.kept

/-! ## Section 3: The acknowledgement -/

/-- The call of `usnet_process_ack`: no buffer, refused, or done. -/
inductive AckOutcome (s : Conn) (seg : Segment) (s' : Conn) : Prop where
  | no_buffer : s.tcb.sndvar.sndbuf = none → s' = s → AckOutcome s seg s'
  | refused (buf : UsnSendbuf) : s.tcb.sndvar.sndbuf = some buf →
      TCP_SEQ_GT (counted_ack s seg.ack_seq) (buf.head_seq + buf.len) → s' = s →
      AckOutcome s seg s'
  | done (buf : UsnSendbuf) (r : Int) : s.tcb.sndvar.sndbuf = some buf →
      ¬ TCP_SEQ_GT (counted_ack s seg.ack_seq) (buf.head_seq + buf.len) →
      AckDone s buf seg (counted_ack s seg.ack_seq) r s' → AckOutcome s seg s'

theorem process_ack_if_buffered_outcome {s s' : Conn} {seg : Segment}
    (h : process_ack_if_buffered s seg = .ok s') : AckOutcome s seg s' := by
  unfold process_ack_if_buffered at h
  split at h
  · rename_i hbuf
    obtain rfl := Except.ok.inj h
    exact .no_buffer hbuf rfl
  · rename_i buf hbuf
    unfold usnet_process_ack at h
    by_cases hgt : TCP_SEQ_GT (counted_ack s seg.ack_seq) (buf.head_seq + buf.len)
    · simp only [hgt, if_true] at h
      obtain rfl := Except.ok.inj h
      exact .refused buf hbuf hgt rfl
    · simp only [hgt, if_false] at h
      split at h
      · cases h
      · rename_i r s₁ hok
        obtain rfl := Except.ok.inj h
        exact .done buf r hbuf hgt (process_valid_ack_done hok)

/-- An acknowledgement leaves the receive side and the state alone. -/
theorem AckOutcome.kept {s s' : Conn} {seg : Segment} (h : AckOutcome s seg s') :
    AckKept s s' := by
  cases h with
  | no_buffer _ hs => subst hs; simp
  | refused _ _ _ hs => subst hs; simp
  | done _ _ _ _ hd => exact hd.kept

/-! ## Section 4: The established state -/

theorem established_ack_outcome {s s' : Conn} {seg : Segment}
    (h : established_ack s seg = .ok s') :
    (seg.has TH_ACK = false ∧ s' = s) ∨ (seg.has TH_ACK ∧ AckOutcome s seg s') := by
  unfold established_ack at h
  by_cases hack : seg.has TH_ACK
  · rw [if_pos hack] at h
    exact .inr ⟨hack, process_ack_if_buffered_outcome h⟩
  · rw [if_neg hack] at h
    obtain rfl := Except.ok.inj h
    exact .inl ⟨by simpa using hack, rfl⟩

theorem established_ack_kept {s s' : Conn} {seg : Segment}
    (h : established_ack s seg = .ok s') : AckKept s s' := by
  rcases established_ack_outcome h with ⟨-, rfl⟩ | ⟨-, ho⟩
  · simp
  · exact ho.kept

/-- Without a SYN the handler runs its three parts one after the other. -/
theorem usnet_handle_established_parts {s s' : Conn} {seg : Segment}
    (hsyn : seg.has TH_SYN = false) (h : usnet_handle_established s seg = .ok s') :
    ∃ s₁ s₂, handle_payload s seg .aggregate .now = .ok s₁ ∧
      established_ack s₁ seg = .ok s₂ ∧ s' = established_fin s₂ seg := by
  unfold usnet_handle_established at h
  simp only [hsyn, Bool.false_eq_true, if_false] at h
  cases h₁ : handle_payload s seg .aggregate .now with
  | error e => simp [h₁, bind, Except.bind] at h
  | ok s₁ =>
    cases h₂ : established_ack s₁ seg with
    | error e => simp [h₁, h₂, bind, Except.bind] at h
    | ok s₂ =>
      simp [h₁, h₂, bind, Except.bind, pure, Except.pure] at h
      exact ⟨s₁, s₂, rfl, h₂, h.symm⟩

/-- With a SYN it only moves `snd_nxt` and acknowledges. -/
theorem usnet_handle_established_syn {s s' : Conn} {seg : Segment}
    (hst : s.tcb.state = .established) (hsyn : seg.has TH_SYN)
    (h : usnet_handle_established s seg = .ok s') :
    s'.tcb.snd_nxt = seg.ack_seq ∧ Kept s s' ∧ SameState s s' ∧
    s'.tcb.sndvar.is_fin_sent = s.tcb.sndvar.is_fin_sent ∧
    Sends (fun f => f.flags = TH_ACK) s.ctx s'.ctx := by
  unfold usnet_handle_established at h
  rw [if_pos hsyn] at h
  obtain rfl := Except.ok.inj h
  have hacks := usnet_add_control_list_acks
    (s := s.onTcb fun t => { t with snd_nxt := seg.ack_seq }) (.inl hst)
  have hsends := usnet_add_control_list_sends
    (s.onTcb fun t => { t with snd_nxt := seg.ack_seq })
  refine ⟨hacks.2.1, by simp, hacks.1, hacks.2.2, (hsends.mono ?_).congr rfl rfl⟩
  rintro f ⟨hf, -⟩
  simpa [hst, control_flags] using hf

theorem established_fin_other {s : Conn} {seg : Segment}
    (h : ¬ (seg.has TH_FIN ∧ seg.seq = s.tcb.rcv_nxt)) : Same s (established_fin s seg) := by
  unfold established_fin
  by_cases hfin : seg.has TH_FIN
  · have hseq : ¬ seg.seq = s.tcb.rcv_nxt := fun hs => h ⟨hfin, hs⟩
    simp [hfin, hseq]
  · simp [hfin]

/-- The FIN part: the segment's own state change and its acknowledgement. -/
theorem established_fin_taken {s : Conn} {seg : Segment} (hfin : seg.has TH_FIN)
    (hseq : seg.seq = s.tcb.rcv_nxt) :
    (established_fin s seg).tcb.state = .close_wait ∧
    (established_fin s seg).tcb.rcv_nxt = s.tcb.rcv_nxt + 1 := by
  unfold established_fin
  simp [hfin, hseq]

theorem established_fin_kept (s : Conn) (seg : Segment) :
    SameOuter s (established_fin s seg) ∧
    (established_fin s seg).tcb.rcvvar = s.tcb.rcvvar ∧
    (established_fin s seg).ctx.applied = s.ctx.applied ∧
    Sends (fun f => f.flags = TH_ACK) s.ctx (established_fin s seg).ctx := by
  by_cases hfin : seg.has TH_FIN ∧ seg.seq = s.tcb.rcv_nxt
  · generalize ht : (s.onTcb fun t =>
      { t with state := .close_wait, rcv_nxt := t.rcv_nxt + 1 }) = t
    have heq : established_fin s seg = usnet_raise_tcp_event (usnet_add_control_list t) := by
      unfold established_fin
      simp only [hfin, if_true, ht]
    have hst : t.tcb.state = .close_wait := by rw [← ht]; rfl
    have hacks := usnet_add_control_list_acks (.inr hst)
    have hsends := usnet_add_control_list_sends t
    rw [heq]
    refine ⟨?_, ?_, ?_, (hsends.mono ?_).congr ?_ (by simp)⟩
    · simp [hacks]
      simp [← ht]
    · simp [← ht]
    · simp [← ht]
    · rintro f ⟨hf, -⟩
      simpa [hst, control_flags] using hf
    · rw [← ht]; rfl
  · have hsame := established_fin_other hfin
    exact ⟨by simp [hsame], by simp [hsame], by simp [hsame], .of_eq (by simp [hsame])⟩

/-- The handler of the established state leaves it for CLOSED or CLOSE_WAIT
    only, and sends nothing but acknowledgements. -/
theorem usnet_handle_established_state {s s' : Conn} {seg : Segment}
    (hst : s.tcb.state = .established) (h : usnet_handle_established s seg = .ok s') :
    (s'.tcb.state = .established ∨ s'.tcb.state = .closed ∨ s'.tcb.state = .close_wait) ∧
    Sends (fun f => f.flags = TH_ACK) s.ctx s'.ctx := by
  by_cases hsyn : seg.has TH_SYN
  · obtain ⟨-, -, hsame, -, hsends⟩ := usnet_handle_established_syn hst hsyn h
    exact ⟨.inl (hsame.2.2.2.2.trans hst), hsends⟩
  · obtain ⟨s₁, s₂, hpay, hack, rfl⟩ :=
      usnet_handle_established_parts (by simpa using hsyn) h
    obtain ⟨hkept, hst₁⟩ := handle_payload_kept hpay
    have hack := established_ack_kept hack
    obtain ⟨-, -, -, hsends⟩ := established_fin_kept s₂ seg
    refine ⟨?_, hsends.congr (by simp_all) rfl⟩
    by_cases hfin : seg.has TH_FIN ∧ seg.seq = s₂.tcb.rcv_nxt
    · exact .inr (.inr (established_fin_taken hfin.1 hfin.2).1)
    · have hsame := established_fin_other hfin
      rcases hst₁ with hst₁ | hst₁
      · left
        simp_all
      · right
        left
        simp_all

/-! ## Section 5: The other handlers -/

theorem usnet_handle_close_wait_cases {s s' : Conn} {seg : Segment}
    (h : usnet_handle_close_wait s seg = .ok s') :
    (TCP_SEQ_LT seg.seq s.tcb.rcv_nxt ∧ s' = usnet_add_control_list s) ∨
    (¬ TCP_SEQ_LT seg.seq s.tcb.rcv_nxt ∧ AckOutcome s seg s') := by
  unfold usnet_handle_close_wait at h
  by_cases hlt : TCP_SEQ_LT seg.seq s.tcb.rcv_nxt
  · rw [if_pos hlt] at h
    obtain rfl := Except.ok.inj h
    exact .inl ⟨hlt, rfl⟩
  · rw [if_neg hlt] at h
    exact .inr ⟨hlt, process_ack_if_buffered_outcome h⟩

theorem usnet_handle_close_wait_state {s s' : Conn} {seg : Segment}
    (hst : s.tcb.state = .close_wait) (h : usnet_handle_close_wait s seg = .ok s') :
    s'.tcb.state = .close_wait ∧ Sends (fun f => f.flags = TH_ACK) s.ctx s'.ctx := by
  rcases usnet_handle_close_wait_cases h with ⟨-, rfl⟩ | ⟨-, ho⟩
  · refine ⟨by simp [hst], (usnet_add_control_list_sends s).mono ?_⟩
    rintro f ⟨hf, -⟩
    simpa [hst, control_flags] using hf
  · have hkept := ho.kept
    exact ⟨by simp_all, .of_eq (by simp_all)⟩

/-- The end of the handshake. -/
structure Established (s : Conn) (seg : Segment) (s' : Conn) : Prop where
  state : s'.tcb.state = .established
  snd_nxt : s'.tcb.snd_nxt = seg.ack_seq
  snd_una : s'.tcb.sndvar.snd_una = s.tcb.sndvar.snd_una + 1
  sndbuf : s'.tcb.sndvar.sndbuf = s.tcb.sndvar.sndbuf
  ident : s'.tcb.fd = s.tcb.fd ∧ s'.tcb.socket = s.tcb.socket ∧
    s'.tcb.saddr = s.tcb.saddr ∧ s'.tcb.daddr = s.tcb.daddr ∧
    s'.tcb.sport = s.tcb.sport ∧ s'.tcb.dport = s.tcb.dport ∧
    s'.tcb.sndvar.iss = s.tcb.sndvar.iss ∧
    s'.tcb.sndvar.is_fin_sent = s.tcb.sndvar.is_fin_sent
  receive : s'.tcb.rcv_nxt = s.tcb.rcv_nxt ∧ s'.tcb.rcvvar = s.tcb.rcvvar
  quiet : s'.ctx.frames = s.ctx.frames ∧ s'.ctx.applied = s.ctx.applied

theorem establish_established {s s' : Conn} {seg : Segment} (h : establish s seg = .ok s') :
    Established s seg s' := by
  unfold establish at h
  simp only at h
  split at h
  · have hsame := usnet_add_timeout_list_same h
    simp at hsame
    exact ⟨by simp [hsame], by simp [hsame], by simp [hsame], by simp [hsame],
      by simp [hsame], by simp [hsame], by simp [hsame]⟩
  · obtain rfl := Except.ok.inj h
    exact ⟨by simp, by simp, by simp, by simp, by simp, by simp, by simp⟩

/-- The three things SYN_RECEIVED does with a segment. -/
theorem usnet_handle_syn_received_cases {s s' : Conn} {seg : Segment}
    (h : usnet_handle_syn_received s seg = .ok s') :
    (seg.has TH_ACK ∧ seg.ack_seq ≠ s.tcb.sndvar.iss + 1 ∧ s' = s) ∨
    (seg.has TH_ACK ∧ seg.ack_seq = s.tcb.sndvar.iss + 1 ∧ Established s seg s') ∨
    (seg.has TH_ACK = false ∧
      s' = usnet_add_control_list (s.onTcb fun t => { t with snd_nxt := t.sndvar.iss })) := by
  unfold usnet_handle_syn_received at h
  by_cases hack : seg.has TH_ACK
  · rw [if_pos hack] at h
    by_cases hseq : seg.ack_seq = s.tcb.sndvar.iss + 1
    · rw [if_neg (not_not.mpr hseq)] at h
      exact .inr (.inl ⟨hack, hseq, establish_established h⟩)
    · rw [if_pos hseq] at h
      obtain rfl := Except.ok.inj h
      exact .inl ⟨hack, hseq, rfl⟩
  · rw [if_neg hack] at h
    obtain rfl := Except.ok.inj h
    exact .inr (.inr ⟨by simpa using hack, rfl⟩)

/-! ## Section 6: Dispatch -/

@[simp] theorem note_segment_quiet (s : Conn) (seg : Segment) :
    Quiet s (note_segment s seg) := by
  simp [note_segment]

/-- `usnet_handle_rst` never ends the handling of a segment. -/
theorem process_rst_continues (s : Conn) (seg : Segment) : (process_rst s seg).1 = false := by
  unfold process_rst
  by_cases hrst : seg.has TH_RST
  · simp only [hrst, if_true]
    unfold usnet_handle_rst
    cases hst : s.tcb.state with
    | syn_received => by_cases hack : seg.ack_seq = s.tcb.rcv_nxt <;>
        simp [hst, hack, TcpState.val]
    | established =>
      simp only [Conn.onTcb_tcb, hst]
      split
      · split <;> simp
      · rfl
    | close_wait =>
      simp only [Conn.onTcb_tcb, hst]
      split
      · split <;> simp
      · rfl
    | _ => simp [hst, TcpState.val]
  · simp [hrst]

/-- A segment is turned away by the check, or noted, seen by the reset logic and
    handled in the state that leaves. -/
theorem input_segment_cases {s s' : Conn} {seg : Segment} {r : Int}
    (h : input_segment s seg = .ok (r, s')) :
    (r = -3 ∧ ∃ r₀, r₀ < 0 ∧ check_segment s seg = .ok (r₀, s')) ∨
    (r = 0 ∧ ∃ r₀ s₁, ¬ r₀ < 0 ∧ check_segment s seg = .ok (r₀, s₁) ∧
      handle_state (process_rst (note_segment s₁ seg) seg).2 seg = .ok s') := by
  unfold input_segment at h
  cases hchk : check_segment s seg with
  | error e => simp [hchk, bind, Except.bind] at h
  | ok p =>
    obtain ⟨r₀, s₁⟩ := p
    simp only [hchk, bind, Except.bind] at h
    by_cases hneg : r₀ < 0
    · simp only [hneg, if_true, pure, Except.pure] at h
      obtain ⟨rfl, rfl⟩ := h
      exact .inl ⟨rfl, r₀, hneg, rfl⟩
    · simp only [hneg, if_false, process_rst_continues, Bool.false_eq_true] at h
      cases hst : handle_state (process_rst (note_segment s₁ seg) seg).2 seg with
      | error e => simp [hst] at h
      | ok s₂ =>
        simp only [hst, pure, Except.pure] at h
        obtain ⟨rfl, rfl⟩ := h
        exact .inr ⟨rfl, r₀, s₁, hneg, rfl, hst⟩

/-- Without a reset the second case handles the noted segment. -/
theorem process_rst_none {s : Conn} {seg : Segment} (h : seg.has TH_RST = false) :
    (process_rst s seg).2 = s := by
  simp [process_rst, h]

end Usnet
