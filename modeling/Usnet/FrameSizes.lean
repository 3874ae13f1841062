import Usnet.Closing
import Usnet.Drain
import Usnet.Options

/-! # Frame lengths (eth.c, tcp_out.c, udp.c, ip_icmp.c, arp.c)

    Every frame is assembled in one buffer of 2048 bytes.  Its length comes from
    the ring of a connection and the peer's maximum segment size, or from the
    length a received datagram claims to have, and is never compared with the
    size of the buffer.
-/

namespace Usnet

open CInt Circular Run Walk Wire

/-! ## Section 1: Frames of connections -/

/-- The bytes of `nm_buf`. -/
def NM_BUF_SIZE : Nat := 2048

def TCP_HEADER_LEN : Nat := 20

/-- What `usnet_send_tcp_packet` and `usnet_send_tcp_packet_alone` assemble for a
    segment. -/
def frame_len (f : Frame) : Nat :=
  usnet_eth_output_nm (IP_HEADER_LEN +
    (TCP_HEADER_LEN + (usnet_get_tcpopt_length f.flags).toNat + f.payload.length))

/-- The frame fits the buffer. -/
def Frame.fits (f : Frame) : Prop := frame_len f ≤ NM_BUF_SIZE

theorem frame_len_eq (f : Frame) :
    frame_len f = 54 + (usnet_get_tcpopt_length f.flags).toNat + f.payload.length := by
  unfold frame_len usnet_eth_output_nm ETH_HEADER_LEN IP_HEADER_LEN TCP_HEADER_LEN
  omega

theorem usnet_get_tcpopt_length_le (flags : UInt8) :
    (usnet_get_tcpopt_length flags).toNat ≤ 24 := by
  unfold usnet_get_tcpopt_length
  split
  · decide
  · split <;> decide

/-- Headers and options alone always fit. -/
theorem Frame.fits_of_bare {f : Frame} (h : f.payload = []) : f.fits := by
  have hopt := usnet_get_tcpopt_length_le f.flags
  unfold Frame.fits NM_BUF_SIZE
  rw [frame_len_eq, h, List.length_nil]
  omega

/-- A function that sends only frames that fit, and does not touch the peer's
    maximum segment size. -/
structure Builds (s s' : Conn) : Prop where
  mss : s'.tcb.sndvar.mss = s.tcb.sndvar.mss
  sends : Sends Frame.fits s.ctx s'.ctx

theorem Builds.refl {s : Conn} : Builds s s := ⟨rfl, .of_eq rfl⟩

theorem Builds.trans {s t s' : Conn} (h : Builds s t) (h' : Builds t s') : Builds s s' :=
  ⟨h'.mss.trans h.mss, h.sends.trans h'.sends⟩

/-- It sends nothing. -/
theorem Builds.quiet {s s' : Conn} (hmss : s'.tcb.sndvar.mss = s.tcb.sndvar.mss)
    (hframes : s'.ctx.frames = s.ctx.frames) : Builds s s' := ⟨hmss, .of_eq hframes⟩

/-- What is set before does not count, nor what is set afterwards. -/
theorem Builds.after {s t s' : Conn} (h : Builds t s')
    (hmss : t.tcb.sndvar.mss = s.tcb.sndvar.mss) (hframes : t.ctx.frames = s.ctx.frames) :
    Builds s s' := (Builds.quiet hmss hframes).trans h

theorem Builds.then {s t s' : Conn} (h : Builds s t)
    (hmss : s'.tcb.sndvar.mss = t.tcb.sndvar.mss) (hframes : s'.ctx.frames = t.ctx.frames) :
    Builds s s' := h.trans (.quiet hmss hframes)

theorem Builds.of_same {s s' : Conn} (h : Same s s') : Builds s s' :=
  .quiet (by simp [h]) (by simp [h])

/-- It sends nothing with payload. -/
theorem Builds.bare {s s' : Conn} {P : Frame → Prop}
    (hmss : s'.tcb.sndvar.mss = s.tcb.sndvar.mss) (hP : ∀ f, P f → f.payload = [])
    (hsends : Sends P s.ctx s'.ctx) : Builds s s' :=
  ⟨hmss, hsends.mono fun f hf => f.fits_of_bare (hP f hf)⟩

/-! ## Section 2: Control packets and acknowledgements -/

theorem bare_packet_builds (s : Conn) (flags : UInt8) :
    Builds s (usnet_send_tcp_packet s flags []).2 :=
  .bare (by simp) (fun _ hf => hf.2) (usnet_send_tcp_packet_sends s flags [])

theorem usnet_send_control_packet_builds (s : Conn) :
    Builds s (usnet_send_control_packet s).2 :=
  .bare (by simp) (fun _ hf => hf.2) (usnet_send_control_packet_sends s)

theorem usnet_add_control_list_builds (s : Conn) : Builds s (usnet_add_control_list s) :=
  .bare (by simp) (fun _ hf => hf.2) (usnet_add_control_list_sends s)

theorem usnet_release_tcb_builds (s : Conn) : Builds s (usnet_release_tcb s) :=
  .quiet (by simp) (by simp)

theorem control_visit_builds (s : Conn) : Builds s (control_visit s) := by
  unfold control_visit
  simp only
  split
  · generalize hr : usnet_send_control_packet _ = r
    have hb : Builds s r.2 := by
      rw [← hr]
      exact (usnet_send_control_packet_builds _).after rfl rfl
    split
    · exact hb.then rfl rfl
    · exact hb
  · exact .quiet rfl rfl

theorem send_acks_builds (n : Nat) (s : Conn) : Builds s (send_acks n s) := by
  induction n generalizing s with
  | zero => exact .refl
  | succ n ih =>
    unfold send_acks
    simp only
    split
    · exact bare_packet_builds s TH_ACK
    · exact (bare_packet_builds s TH_ACK).trans ((ih _).after rfl rfl)

theorem send_wack_builds (s : Conn) : Builds s (send_wack s) := by
  unfold send_wack
  split
  · simp only
    generalize hr : usnet_send_tcp_packet _ (TH_ACK ||| TH_WACK) [] = r
    have hb : Builds s r.2 := by
      rw [← hr]
      exact (bare_packet_builds _ (TH_ACK ||| TH_WACK)).after rfl rfl
    split
    · exact hb.then rfl rfl
    · exact hb
  · exact .refl

theorem send_waiting_builds (s : Conn) (on_list : Bool) : Builds s (send_waiting s on_list) := by
  unfold send_waiting
  split
  · exact (usnet_add_control_list_builds _).after rfl rfl
  · exact .refl

theorem ack_visit_builds (s : Conn) : Builds s (ack_visit s) := by
  have hdrop : Builds s (ack_or_drop s) := by
    unfold ack_or_drop
    split
    · refine (send_acks_builds s.tcb.sndvar.ack_cnt.toNat s).trans ((send_wack_builds _).trans ?_)
      simp only
      split
      · exact .refl
      · exact .of_same (by simp)
    · exact Builds.of_same (by simp)
  unfold ack_visit
  split
  · exact hdrop.trans (send_waiting_builds _ _)
  · exact .quiet rfl rfl

/-! ## Section 3: Timers and messages -/

theorem give_up_builds (s : Conn) : Builds s (give_up s) := by
  unfold give_up
  split
  · exact (usnet_release_tcb_builds _).after rfl rfl
  · simp only
    split
    · exact .quiet rfl rfl
    · exact (usnet_release_tcb_builds _).after rfl rfl

/-- A change of the send variables that leaves the maximum segment size alone. -/
theorem onSnd_builds (s : Conn) (f : SndVars → SndVars) (hf : ∀ v, (f v).mss = v.mss) :
    Builds s (s.onSnd f) := .quiet (hf _) rfl

theorem back_off_builds (s : Conn) : Builds s (back_off s) := by
  unfold back_off
  simp only
  refine Builds.trans ?_ (onSnd_builds _ _ fun _ => rfl)
  refine Builds.trans ?_ (onSnd_builds _ _ fun v => ?_)
  · refine Builds.trans ?_ (onSnd_builds _ _ fun _ => rfl)
    exact onSnd_builds _ _ fun _ => rfl
  · split <;> rfl

theorem usnet_add_send_list_builds (s : Conn) : Builds s (usnet_add_send_list s) :=
  .of_same (by simp)

theorem retransmit_builds (s : Conn) : Builds s (retransmit s) := by
  unfold retransmit
  simp only
  generalize ht : (s.onTcb fun t => { t with snd_nxt := t.sndvar.snd_una }) = t
  have hb : Builds s t := by
    rw [← ht]
    exact .quiet rfl rfl
  have hlater : Builds s (if TCP_SEQ_LT t.tcb.snd_nxt t.tcb.sndvar.fss then
      usnet_add_send_list ((usnet_remove_control_list t).onTcb fun t =>
        { t with control_list_waiting := true })
      else usnet_add_control_list t) := by
    split
    · have hrem : Builds t (usnet_remove_control_list t) := .of_same (by simp)
      exact hb.trans (hrem.trans ((usnet_add_send_list_builds _).after rfl rfl))
    · exact hb.trans (usnet_add_control_list_builds t)
  split
  · exact hb.trans (usnet_add_send_list_builds t)
  · exact hb.trans (usnet_add_send_list_builds t)
  · exact hlater
  · exact hlater
  · exact hlater
  · exact hb.trans (usnet_add_control_list_builds t)

theorem rto_visit_builds {s s' : Conn} (hok : rto_visit s = .ok s') : Builds s s' := by
  unfold rto_visit at hok
  split at hok
  · split at hok
    · cases hok
    · rename_i r t ht
      obtain rfl := Except.ok.inj hok
      refine Builds.then (t := t) ?_ rfl rfl
      unfold usnet_handle_rto at ht
      split at ht
      · cases ht
      · split at ht
        · obtain ⟨-, rfl⟩ := Prod.mk.inj (Except.ok.inj ht)
          exact give_up_builds s
        · have hb := back_off_builds s
          generalize back_off s = u at *
          have hre := hb.trans (retransmit_builds u)
          have hrel := hb.trans ((usnet_release_tcb_builds (usnet_raise_error_event u)).after rfl rfl)
          simp only at ht
          split at ht
          · split at ht
            · obtain ⟨-, rfl⟩ := Prod.mk.inj (Except.ok.inj ht)
              split
              · exact hb.then rfl rfl
              · exact hb.trans ((usnet_release_tcb_builds _).after rfl rfl)
            · obtain ⟨-, rfl⟩ := Prod.mk.inj (Except.ok.inj ht)
              exact hre
          all_goals
            obtain ⟨-, rfl⟩ := Prod.mk.inj (Except.ok.inj ht)
            assumption
  · obtain rfl := Except.ok.inj hok
    exact .refl

theorem timewait_visit_builds (s : Conn) : Builds s (timewait_visit s) := by
  unfold timewait_visit
  split
  · exact (usnet_release_tcb_builds _).after rfl rfl
  · exact .refl

theorem timeout_visit_builds (s : Conn) : Builds s (timeout_visit s) := by
  unfold timeout_visit
  split
  · have hrem : Builds s (usnet_remove_timeout_list s) := .of_same (by simp)
    simp only
    split
    · exact hrem.then rfl rfl
    · exact hrem.trans ((usnet_release_tcb_builds _).after rfl rfl)
  · exact .refl

theorem usnet_connect_net_handler_builds (s : Conn) (so : Bool) (fd : UInt32) (result : Int) :
    Builds s (usnet_connect_net_handler s so fd result) := by
  unfold usnet_connect_net_handler
  split
  · exact .refl
  · split
    · exact .refl
    · simp only
      split
      · exact (usnet_add_control_list_builds _).after rfl rfl
      · split
        · exact .quiet rfl rfl
        · exact (usnet_add_control_list_builds _).after rfl rfl

theorem app_write_builds {s s' : Conn} {fd : UInt32} {bytes : List UInt8}
    (hok : app_write s fd bytes = .ok s') : Builds s s' := by
  unfold app_write usnet_write at hok
  cases hbuf : s.tcb.sndvar.sndbuf with
  | none =>
    simp only [hbuf] at hok
    obtain rfl := Except.ok.inj hok
    exact .refl
  | some buf =>
    simp only [hbuf] at hok
    split at hok
    · cases hok
    · rename_i r t ht
      obtain rfl := Except.ok.inj hok
      split at ht
      · obtain ⟨-, rfl⟩ := Prod.mk.inj (Except.ok.inj ht)
        exact .refl
      · split at ht
        · cases ht
        · obtain ⟨-, rfl⟩ := Prod.mk.inj (Except.ok.inj ht)
          exact .quiet rfl rfl

/-! ## Section 4: Segments -/

theorem usnet_enqueue_ack_builds (s : Conn) (opt : AckOpt) : Builds s (usnet_enqueue_ack s opt) :=
  .of_same (by simp)

theorem usnet_estimate_rtt_builds (s : Conn) (mrtt : UInt32) :
    Builds s (usnet_estimate_rtt s mrtt) := by
  refine .quiet ?_ (by simp)
  unfold usnet_estimate_rtt
  simp only
  split
  · split <;> rfl
  · rfl

theorem update_window_builds (s : Conn) (seg : Segment) (ack_seq : UInt32) :
    Builds s (update_window s seg ack_seq) := by
  refine .quiet ?_ (by simp)
  unfold update_window
  simp only
  split
  · split <;> rfl
  · rfl

theorem check_dup_builds (s : Conn) (seg : Segment) (ack_seq edge : UInt32) :
    Builds s (check_dup s seg ack_seq edge).2 := by
  refine .quiet ?_ (by simp)
  unfold check_dup
  split <;> rfl

theorem fast_retransmit_builds (s : Conn) (ack_seq : UInt32) (dup : Bool) :
    Builds s (fast_retransmit s ack_seq dup) := by
  refine .quiet ?_ (by simp)
  rcases fast_retransmit_cases s ack_seq dup with
    ⟨u, cwnd, ssthresh, nrtx, rfl | rfl, heq⟩ | ⟨cwnd, heq⟩
  · simp [heq]
  · simp [heq]
  · rw [heq]
    rfl

theorem forward_nxt_builds (s : Conn) (buf : UsnSendbuf) (ack_seq : UInt32) :
    Builds s (forward_nxt s buf ack_seq) := by
  refine .quiet ?_ (by simp)
  unfold forward_nxt
  simp only
  split
  · split <;> simp
  · rfl

theorem update_rto_builds {s s' : Conn} (h : update_rto s = .ok s') : Builds s s' := by
  unfold update_rto at h
  simp only at h
  split at h
  · split at h
    · cases h
    · obtain rfl := Except.ok.inj h
      exact (usnet_estimate_rtt_builds _ _).then rfl rfl
  · obtain rfl := Except.ok.inj h
    exact .refl

theorem update_cwnd_builds {s s' : Conn} {packets : UInt16}
    (h : update_cwnd s packets = .ok s') : Builds s s' := by
  unfold update_cwnd at h
  simp only at h
  split at h
  · split at h
    · obtain rfl := Except.ok.inj h
      exact .quiet rfl rfl
    · split at h
      · cases h
      · obtain rfl := Except.ok.inj h
        exact .quiet rfl rfl
  · obtain rfl := Except.ok.inj h
    exact .refl

theorem remove_acked_builds {s s' : Conn} {buf : UsnSendbuf} {ack_seq : UInt32}
    (h : remove_acked s buf ack_seq = .ok s') : Builds s s' := by
  unfold remove_acked at h
  simp only at h
  refine (Builds.of_same (usnet_update_retransmission_timer_same h)).after ?_ ?_
  · split <;> rfl
  · split <;> simp

theorem ack_data_builds {s s' : Conn} {buf : UsnSendbuf} {ack_seq : UInt32} {r : Int}
    (h : ack_data s buf ack_seq = .ok (r, s')) : Builds s s' := by
  unfold ack_data at h
  simp only at h
  split at h
  · cases h
  · cases hrto : update_rto s with
    | error e => simp [hrto, bind, Except.bind] at h
    | ok s₁ =>
      cases hcwnd : update_cwnd s₁ (acked_packets s (ack_seq - buf.head_seq)) with
      | error e => simp [hrto, hcwnd, bind, Except.bind] at h
      | ok s₂ =>
        cases hrem : remove_acked s₂ buf ack_seq with
        | error e => simp [hrto, hcwnd, hrem, bind, Except.bind] at h
        | ok s₃ =>
          simp only [hrto, hcwnd, hrem, bind, Except.bind, pure, Except.pure] at h
          obtain ⟨-, rfl⟩ := Prod.mk.inj (Except.ok.inj h)
          exact (update_rto_builds hrto).trans
            ((update_cwnd_builds hcwnd).trans (remove_acked_builds hrem))

theorem usnet_process_ack_builds {s s' : Conn} {buf : UsnSendbuf} {seg : Segment} {r : Int}
    (h : usnet_process_ack s buf seg = .ok (r, s')) : Builds s s' := by
  unfold usnet_process_ack at h
  simp only at h
  split at h
  · obtain ⟨-, rfl⟩ := Prod.mk.inj (Except.ok.inj h)
    exact .refl
  · unfold process_valid_ack at h
    simp only at h
    generalize counted_ack s seg.ack_seq = ack_seq at h
    generalize ht : (s.onCtx fun c => { c with applied := c.applied ++ [.ack] }) = t at h
    have hb : Builds s t := by
      rw [← ht]
      exact .quiet rfl rfl
    have hb := hb.trans (update_window_builds t seg ack_seq)
    have hb := hb.trans (check_dup_builds _ seg ack_seq (t.tcb.sndvar.peer_wnd + t.tcb.rcvvar.snd_wl2))
    have hb := hb.trans (fast_retransmit_builds _ ack_seq
      (check_dup (update_window t seg ack_seq) seg ack_seq
        (t.tcb.sndvar.peer_wnd + t.tcb.rcvvar.snd_wl2)).1)
    have hb := hb.trans (forward_nxt_builds _ buf ack_seq)
    split at h
    · obtain ⟨-, rfl⟩ := Prod.mk.inj (Except.ok.inj h)
      exact hb
    · exact hb.trans (ack_data_builds h)

theorem process_ack_if_buffered_builds {s s' : Conn} {seg : Segment}
    (h : process_ack_if_buffered s seg = .ok s') : Builds s s' := by
  unfold process_ack_if_buffered at h
  split at h
  · obtain rfl := Except.ok.inj h
    exact .refl
  · split at h
    · cases h
    · rename_i hack
      obtain rfl := Except.ok.inj h
      exact usnet_process_ack_builds hack

theorem handle_payload_builds {s s' : Conn} {seg : Segment} {stored refused : AckOpt}
    (h : handle_payload s seg stored refused = .ok s') : Builds s s' := by
  refine .quiet ?_ (handle_payload_kept h).1.2
  unfold handle_payload at h
  split at h
  · split at h
    · cases h
    · rename_i r t ht
      obtain rfl := Except.ok.inj h
      refine (usnet_enqueue_ack_builds t _).mss.trans ?_
      unfold usnet_process_tcp_payload store_payload at ht
      simp only at ht
      split at ht
      · obtain ⟨-, rfl⟩ := Prod.mk.inj (Except.ok.inj ht)
        rfl
      · split at ht
        · obtain ⟨-, rfl⟩ := Prod.mk.inj (Except.ok.inj ht)
          rfl
        · split at ht
          · obtain ⟨-, rfl⟩ := Prod.mk.inj (Except.ok.inj ht)
            rfl
          · split at ht
            · cases ht
            · split at ht
              · obtain ⟨-, rfl⟩ := Prod.mk.inj (Except.ok.inj ht)
                rfl
              · split at ht
                · obtain ⟨-, rfl⟩ := Prod.mk.inj (Except.ok.inj ht)
                  rfl
                · obtain ⟨-, rfl⟩ := Prod.mk.inj (Except.ok.inj ht)
                  rfl
  · obtain rfl := Except.ok.inj h
    rfl

theorem check_segment_builds {s s' : Conn} {seg : Segment} {r : Int}
    (hst : s.tcb.state ≠ .time_wait) (h : check_segment s seg = .ok (r, s')) : Builds s s' := by
  unfold check_segment at h
  split at h
  · unfold usnet_validate_seq at h
    split at h
    · cases h
    · rename_i r₁ t ht
      have hq := validate_timestamp_quiet ht
      have hb : Builds s t := by
        unfold validate_timestamp at ht
        split at ht
        · split at ht
          · cases ht
          · obtain ⟨-, rfl⟩ := Prod.mk.inj (Except.ok.inj ht)
            exact .refl
          · split at ht
            · obtain ⟨-, rfl⟩ := Prod.mk.inj (Except.ok.inj ht)
              exact usnet_enqueue_ack_builds s _
            · obtain ⟨-, rfl⟩ := Prod.mk.inj (Except.ok.inj ht)
              exact .quiet rfl rfl
        · obtain ⟨-, rfl⟩ := Prod.mk.inj (Except.ok.inj ht)
          exact .refl
      -- outside of TIME_WAIT the check asks for an acknowledgement or sends one packet
      have hst : t.tcb.state ≠ .time_wait := by simpa [hq] using hst
      split at h
      · obtain ⟨-, rfl⟩ := Prod.mk.inj (Except.ok.inj h)
        exact hb
      · split at h
        · obtain ⟨-, rfl⟩ := Prod.mk.inj (Except.ok.inj h)
          exact hb
        · unfold reject_seq at h
          rw [if_neg hst] at h
          split at h
          · obtain ⟨-, rfl⟩ := Prod.mk.inj (Except.ok.inj h)
            exact hb
          · split at h
            · split at h
              · obtain ⟨-, rfl⟩ := Prod.mk.inj (Except.ok.inj h)
                exact hb.trans (usnet_enqueue_ack_builds t _)
              · split at h
                · obtain ⟨-, rfl⟩ := Prod.mk.inj (Except.ok.inj h)
                  exact hb.trans (usnet_enqueue_ack_builds t _)
                · obtain ⟨-, rfl⟩ := Prod.mk.inj (Except.ok.inj h)
                  exact hb.trans (usnet_enqueue_ack_builds t _)
            · obtain ⟨-, rfl⟩ := Prod.mk.inj (Except.ok.inj h)
              exact hb.trans (usnet_add_control_list_builds t)
  · obtain ⟨-, rfl⟩ := Prod.mk.inj (Except.ok.inj h)
    exact .refl

theorem note_segment_builds (s : Conn) (seg : Segment) : Builds s (note_segment s seg) :=
  .quiet (by simp [note_segment]) (by simp [note_segment])

theorem process_rst_builds (s : Conn) (seg : Segment) : Builds s (process_rst s seg).2 := by
  have hrst : ∀ (t : Conn) (ack_seq : UInt32), Builds t (usnet_handle_rst t ack_seq).2 := by
    intro t ack_seq
    have hrel : ∀ (r : CloseReason), Builds t (usnet_release_tcb (t.onTcb fun t =>
        { t with state := .closed, close_reason := r })) := fun r =>
      (usnet_release_tcb_builds _).after rfl rfl
    unfold usnet_handle_rst
    split
    · exact .refl
    · exact .refl
    · exact .refl
    · split
      · exact hrel _
      · exact .refl
    · exact hrel _
    · exact hrel _
    · exact hrel _
    · exact hrel _
    · exact hrel _
    all_goals
      simp only
      split
      · exact .refl
      · exact .quiet rfl rfl
  unfold process_rst
  split
  · simp only
    split
    · exact (hrst _ _).after rfl rfl
    · exact .quiet rfl rfl
  · exact .refl

theorem usnet_handle_syn_received_builds {s s' : Conn} {seg : Segment}
    (h : usnet_handle_syn_received s seg = .ok s') : Builds s s' := by
  unfold usnet_handle_syn_received at h
  split at h
  · split at h
    · obtain rfl := Except.ok.inj h
      exact .refl
    · refine .quiet ?_ (establish_established h).quiet.1
      unfold establish at h
      simp only at h
      split at h
      · have hsame := usnet_add_timeout_list_same h
        simp at hsame
        simp [hsame]
      · obtain rfl := Except.ok.inj h
        simp
  · obtain rfl := Except.ok.inj h
    exact (usnet_add_control_list_builds _).after rfl rfl

theorem usnet_handle_established_builds {s s' : Conn} {seg : Segment}
    (h : usnet_handle_established s seg = .ok s') : Builds s s' := by
  by_cases hsyn : seg.has TH_SYN
  · unfold usnet_handle_established at h
    rw [if_pos hsyn] at h
    obtain rfl := Except.ok.inj h
    exact (usnet_add_control_list_builds _).after rfl rfl
  · obtain ⟨s₁, s₂, hpay, hack, rfl⟩ :=
      usnet_handle_established_parts (by simpa using hsyn) h
    have hb : Builds s₁ s₂ := by
      unfold established_ack at hack
      split at hack
      · exact process_ack_if_buffered_builds hack
      · obtain rfl := Except.ok.inj hack
        exact .refl
    refine (handle_payload_builds hpay).trans (hb.trans ?_)
    unfold established_fin
    split
    · split
      · simp only [usnet_raise_tcp_event]
        generalize hu : (s₂.onTcb fun t =>
          { t with state := .close_wait, rcv_nxt := t.rcv_nxt + 1 }) = u
        have hb : Builds s₂ (usnet_add_control_list u) := by
          refine (usnet_add_control_list_builds u).after ?_ ?_
          · rw [← hu]; rfl
          · rw [← hu]; rfl
        exact hb.then rfl rfl
      · exact usnet_enqueue_ack_builds _ _
    · exact .refl

/-- The states of a connection, that of one just created among them. -/
def passive (st : TcpState) : Prop := st = .listen ∨ tracked st

theorem handle_state_builds {s s' : Conn} {seg : Segment} (hst : passive s.tcb.state)
    (h : handle_state s seg = .ok s') : Builds s s' := by
  unfold handle_state at h
  rcases hst with hst | hst | hst | hst | hst
  · simp only [hst] at h
    obtain rfl := Except.ok.inj h
    unfold usnet_handle_listen
    split
    · exact .quiet rfl rfl
    · exact .refl
  · simp only [hst] at h
    exact usnet_handle_syn_received_builds h
  · simp only [hst] at h
    exact usnet_handle_established_builds h
  · simp only [hst] at h
    unfold usnet_handle_close_wait at h
    split at h
    · obtain rfl := Except.ok.inj h
      exact usnet_add_control_list_builds s
    · exact process_ack_if_buffered_builds h
  · simp only [hst] at h
    obtain rfl := Except.ok.inj h
    exact .refl

/-- The reset logic stays among these states. -/
theorem process_rst_passive {s : Conn} {seg : Segment} (h : passive s.tcb.state) :
    passive (process_rst s seg).2.tcb.state := by
  have hclosed : passive .closed := .inr (.inr (.inr (.inr rfl)))
  have hwait : passive .close_wait := .inr (.inr (.inr (.inl rfl)))
  unfold process_rst
  split
  · simp only
    split
    · unfold usnet_handle_rst
      rcases h with hst | hst | hst | hst | hst
      · simp only [Conn.onTcb_tcb, hst]
        exact .inl rfl
      · simp only [Conn.onTcb_tcb, hst]
        split
        · simpa using hclosed
        · exact .inr (.inl hst)
      · simp only [Conn.onTcb_tcb, hst]
        split
        · exact .inr (.inr (.inl hst))
        · exact hwait
      · simp only [Conn.onTcb_tcb, hst]
        split
        · exact .inr (.inr (.inr (.inl hst)))
        · exact hwait
      · simp only [Conn.onTcb_tcb, hst]
        exact hclosed
    · exact h
  · exact h

theorem input_segment_builds {s s' : Conn} {seg : Segment} {r : Int}
    (hst : passive s.tcb.state) (h : input_segment s seg = .ok (r, s')) : Builds s s' := by
  have htw : s.tcb.state ≠ .time_wait := by
    rcases hst with hst | hst | hst | hst | hst <;> rw [hst] <;> decide
  rcases input_segment_cases h with ⟨-, r₀, -, hchk⟩ | ⟨-, r₀, s₁, hneg, hchk, hh⟩
  · exact check_segment_builds htw hchk
  · have hst₁ : s₁.tcb.state = s.tcb.state := by
      unfold check_segment at hchk
      split at hchk
      · rcases usnet_validate_seq_cases hchk with
          ⟨-, -, hq⟩ | ⟨hr, -⟩ | ⟨hr, -⟩ | ⟨hr, -⟩
        · simp [hq]
        · exact absurd hr hneg
        · exact absurd hr hneg
        · exact absurd hr hneg
      · obtain ⟨-, rfl⟩ := Prod.mk.inj (Except.ok.inj hchk)
        rfl
    have hb := check_segment_builds htw hchk
    have hb := hb.trans (note_segment_builds s₁ seg)
    have hb := hb.trans (process_rst_builds (note_segment s₁ seg) seg)
    refine hb.trans (handle_state_builds (process_rst_passive ?_) hh)
    simpa [hst₁] using hst

/-! ## Section 5: Data -/

/-- The ring of a connection and its maximum segment size let no segment grow too
    long.  Where the size leaves room for the options twice the ring does not
    matter, as `usnet_send_tcp_packet` allows for them once more. -/
def DataFits (tcb : UsnTcb) : Prop :=
  tcb.sndvar.mss.toNat ≤ 1970 ∨
  tcb.sndvar.mss.toNat ≤ 1994 ∧ ∀ buf, tcb.sndvar.sndbuf = some buf →
    buf.size.toNat ≤ INT_MAX ∧ buf.tail.toNat ≤ buf.size.toNat

theorem data_packet_builds {s : Conn} {payload : List UInt8}
    (h : s.tcb.sndvar.mss.toNat ≤ 1970 ∨ payload.length ≤ 1982) :
    Builds s (usnet_send_tcp_packet s TH_ACK payload).2 := by
  refine ⟨by simp, ?_⟩
  have hopt : (usnet_get_tcpopt_length TH_ACK).toNat = 12 := by decide
  by_cases hlen : payload.length > s.tcb.sndvar.mss.toNat +
      (usnet_get_tcpopt_length TH_ACK).toNat
  · refine .of_eq ?_
    unfold usnet_send_tcp_packet
    rw [if_pos hlen]
  · refine (usnet_send_tcp_packet_sends s TH_ACK payload).mono ?_
    rintro f ⟨hflags, hpayload⟩
    unfold Frame.fits NM_BUF_SIZE
    rw [frame_len_eq, hflags, hpayload, hopt]
    omega

/-- The same of one ring. -/
def BufFits (tcb : UsnTcb) (buf : UsnSendbuf) : Prop :=
  tcb.sndvar.mss.toNat ≤ 1970 ∨
  tcb.sndvar.mss.toNat ≤ 1994 ∧ buf.size.toNat ≤ INT_MAX ∧ buf.tail.toNat ≤ buf.size.toNat

theorem DataFits.ring {tcb : UsnTcb} {buf : UsnSendbuf} (h : DataFits tcb)
    (hbuf : tcb.sndvar.sndbuf = some buf) : BufFits tcb buf :=
  h.imp_right fun h => ⟨h.1, h.2 buf hbuf⟩

/-- One turn of the loop: the segment is cut to the maximum size. -/
theorem send_turn_builds {s : Conn} {buf : UsnSendbuf} {head n : UInt32}
    (hfit : BufFits s.tcb buf) :
    Builds s (usnet_send_tcp_packet s TH_ACK
      (slice buf.data_ptr head.toNat (flush_len buf (flush_maxlen s.tcb) n).toNat)).2 := by
  refine data_packet_builds ?_
  by_cases hsmall : s.tcb.sndvar.mss.toNat ≤ 1970
  · exact .inl hsmall
  · obtain ⟨hmss, hsize, htail⟩ := hfit.resolve_left hsmall
    have hmax := @flush_maxlen_toNat s.tcb (by omega)
    have hlen := flush_len_toNat (n := n) hsize htail
      (show (flush_maxlen s.tcb).toNat < 2 ^ 16 by omega)
    right
    rw [slice_length, hlen]
    omega

theorem flush_loop_builds {maxlen window tail : UInt32} (fuel : Nat) {s s' : Conn}
    {buf : UsnSendbuf} {head : UInt32} {packets r : Int} (hmax : maxlen = flush_maxlen s.tcb)
    (hfit : BufFits s.tcb buf)
    (h : flush_loop maxlen window tail fuel s buf head packets = .ok (r, s')) :
    Builds s s' := by
  induction fuel generalizing s buf head packets with
  | zero => cases h
  | succ fuel ih =>
    unfold flush_loop flush_turn at h
    simp only at h
    split at h
    · cases h
    · rename_i r₁ s₁ hturn
      obtain ⟨rfl, rfl⟩ := Prod.mk.inj (Except.ok.inj h)
      split at hturn
      · cases hturn
      · split at hturn
        · obtain ⟨-, rfl⟩ := FlushTurn.stop.inj (Except.ok.inj hturn)
          exact .refl
        · split at hturn
          · obtain ⟨-, rfl⟩ := FlushTurn.stop.inj (Except.ok.inj hturn)
            exact .refl
          · split at hturn
            · unfold no_window at hturn
              split at hturn
              · obtain ⟨-, rfl⟩ := FlushTurn.stop.inj (Except.ok.inj hturn)
                exact usnet_enqueue_ack_builds s _
              · obtain ⟨-, rfl⟩ := FlushTurn.stop.inj (Except.ok.inj hturn)
                exact .refl
            · unfold send_turn at hturn
              simp only at hturn
              split at hturn
              · obtain ⟨-, rfl⟩ := FlushTurn.stop.inj (Except.ok.inj hturn)
                rw [hmax]
                exact send_turn_builds hfit
              · cases hturn
    · rename_i s₁ buf₁ head₁ hturn
      split at hturn
      · cases hturn
      · split at hturn
        · cases hturn
        · split at hturn
          · cases hturn
          · split at hturn
            · unfold no_window at hturn
              split at hturn <;> cases hturn
            · unfold send_turn at hturn
              simp only at hturn
              split at hturn
              · cases hturn
              · obtain ⟨rfl, rfl, -⟩ := FlushTurn.again.inj (Except.ok.inj hturn)
                -- the next turn meets the same maximum and the same ring
                generalize hu : (usnet_send_tcp_packet s TH_ACK _).2 = u at h
                have hb : Builds s u := by
                  rw [← hu, hmax]
                  exact send_turn_builds hfit
                have hmss : flush_maxlen s.tcb = flush_maxlen u.tcb := by
                  unfold flush_maxlen
                  rw [hb.mss]
                have hfit' : BufFits u.tcb buf := by
                  unfold BufFits at *
                  rw [hb.mss]
                  exact hfit
                refine hb.trans (Builds.after (ih ?_ ?_ h) rfl rfl)
                · exact hmax.trans hmss
                · exact hfit'

theorem usnet_flush_tcp_sendbuf_builds {s s' : Conn} {r : Int} (hfit : DataFits s.tcb)
    (h : usnet_flush_tcp_sendbuf s = .ok (r, s')) : Builds s s' := by
  unfold usnet_flush_tcp_sendbuf at h
  split at h
  · cases h
  · rename_i buf hbuf
    split at h
    · obtain ⟨-, rfl⟩ := Prod.mk.inj (Except.ok.inj h)
      exact .refl
    · exact flush_loop_builds _ rfl (hfit.ring hbuf) h

theorem data_visit_builds {s s' : Conn} (hfit : DataFits s.tcb) (h : data_visit s = .ok s') :
    Builds s s' := by
  unfold data_visit at h
  simp only at h
  generalize ht : (s.onCtx fun c => { c with send_list := c.send_list.erase s.tcb.id }) = t at h
  have htcb : t.tcb = s.tcb := by rw [← ht]; rfl
  have hb : Builds s t := by
    rw [← ht]
    exact .quiet rfl rfl
  split at h
  · split at h
    · cases h
    · rename_i r u hsend
      have hu : Builds s u := by
        refine hb.trans ?_
        unfold send_data at hsend
        split at hsend
        · split at hsend
          · obtain ⟨-, rfl⟩ := Prod.mk.inj (Except.ok.inj hsend)
            exact .refl
          · exact usnet_flush_tcp_sendbuf_builds (htcb ▸ hfit) hsend
        · exact usnet_flush_tcp_sendbuf_builds (htcb ▸ hfit) hsend
        · exact usnet_flush_tcp_sendbuf_builds (htcb ▸ hfit) hsend
        · exact usnet_flush_tcp_sendbuf_builds (htcb ▸ hfit) hsend
        · obtain ⟨-, rfl⟩ := Prod.mk.inj (Except.ok.inj hsend)
          exact .refl
      split at h
      · obtain rfl := Except.ok.inj h
        exact hu.then rfl rfl
      · obtain rfl := Except.ok.inj h
        exact hu.trans ((send_waiting_builds _ _).after rfl rfl)
  · obtain rfl := Except.ok.inj h
    exact hb

/-- Every event of a connection assembles only frames that fit. -/
theorem life_conn_builds {s s' : Conn} {ev : LifeEvent} (hst : tracked s.tcb.state)
    (hfit : DataFits s.tcb) (h : life_conn s ev = .ok s') : Builds s s' := by
  cases ev with
  | segment seg =>
    simp only [life_conn] at h
    split at h
    · unfold effect at h
      split at h
      · cases h
      · rename_i hin
        obtain rfl := Except.ok.inj h
        exact input_segment_builds (.inr hst) hin
    · obtain rfl := Except.ok.inj h
      exact .refl
  | accept so fd result =>
    obtain rfl := Except.ok.inj h
    exact usnet_connect_net_handler_builds s so fd result
  | wrote so_tcb fd =>
    obtain rfl := Except.ok.inj h
    exact .of_same (usnet_write_net_handler_same s so_tcb fd)
  | rto => exact rto_visit_builds h
  | control =>
    obtain rfl := Except.ok.inj h
    exact control_visit_builds s
  | acks =>
    obtain rfl := Except.ok.inj h
    exact ack_visit_builds s
  | data => exact data_visit_builds hfit h
  | timewait =>
    obtain rfl := Except.ok.inj h
    exact timewait_visit_builds s
  | timeout =>
    obtain rfl := Except.ok.inj h
    split
    · exact timeout_visit_builds s
    · exact .refl
  | write fd bytes => exact app_write_builds h
  | read fd count =>
    obtain rfl := Except.ok.inj h
    exact .quiet rfl rfl

/-! ## Section 6: New connections -/

/-- The value of an option that sets the maximum segment size. -/
def mss_option (seg : Segment) (i : Nat) : Option UInt16 :=
  if (opts_next seg i).isSome ∧ seg.byte i = TCPOPT_MAXSEG then
    some ((seg.byte (i + 2)).toUInt16 <<< 8 + (seg.byte (i + 2 + 1)).toUInt16)
  else none

/-- The values of all of them that are met from `i` on. -/
def mss_options (seg : Segment) (fuel i : Nat) : List UInt16 :=
  (walk (opts_next seg) fuel i).filterMap (mss_option seg)

/-- One turn of the parser ends it or leads to the next option. -/
theorem parse_opts_step (cur_time : UInt32) (seg : Segment) (fuel i : Nat) (t : UsnTcb) :
    (opts_next seg i = none ∧ parse_opts_loop cur_time seg (fuel + 1) i t = .ok t) ∨
    ∃ j t₁, opts_next seg i = some j ∧
      parse_opts_loop cur_time seg (fuel + 1) i t = parse_opts_loop cur_time seg fuel j t₁ ∧
      t₁.sndvar.mss = (mss_option seg i).getD t.sndvar.mss := by
  rw [parse_opts_loop_succ]
  cases hnext : opts_next seg i with
  | none => exact .inl ⟨rfl, rfl⟩
  | some j =>
    refine .inr ⟨j, _, rfl, rfl, ?_⟩
    by_cases hmss : seg.byte i = TCPOPT_MAXSEG
    · unfold take_option mss_option
      simp [hmss, hnext]
    · -- the other kinds leave the size alone
      have hnone : mss_option seg i = none := if_neg fun h => hmss h.2
      unfold take_option
      rw [hnone, if_neg hmss]
      split
      · rfl
      · split
        · rfl
        · split <;> rfl

/-- The last maximum segment size counts. -/
theorem parse_opts_loop_mss {cur_time : UInt32} {seg : Segment} (fuel i : Nat) {t t' : UsnTcb}
    (h : parse_opts_loop cur_time seg fuel i t = .ok t') :
    t'.sndvar.mss = (mss_options seg fuel i).getLast?.getD t.sndvar.mss := by
  induction fuel generalizing i t with
  | zero => cases h
  | succ fuel ih =>
    unfold mss_options
    rw [walk, List.filterMap_cons]
    rcases parse_opts_step cur_time seg fuel i t with ⟨hnext, hstep⟩ | ⟨j, t₁, hnext, hstep, hmss⟩
    · rw [hstep] at h
      obtain rfl := Except.ok.inj h
      have hnone : mss_option seg i = none := if_neg fun h => by simp [hnext] at h
      simp only [hnext, hnone, List.filterMap_nil, List.getLast?_nil, Option.getD_none]
    · rw [hstep] at h
      have ih := ih j h
      rw [hmss] at ih
      simp only [hnext]
      rw [ih]
      cases mss_option seg i with
      | none => rfl
      | some v =>
        simp only [Option.getD_some]
        rw [List.getLast?_cons]
        rfl
/-- The SYN is one that a connection is created for. -/
def opens (c : Ctx) (seg : Segment) : Prop :=
  seg.has TH_SYN = true ∧ seg.has TH_ACK = false ∧ creates c seg.ip_dst seg.th_dport = true

/-- Its maximum segment size leaves room for headers and options. -/
def mss_fits (seg : Segment) : Prop :=
  ∀ v ∈ (mss_options seg (seg.opts.length + 1) 0).getLast?, v.toNat ≤ 1994

/-- A new block was had for the connection, and the options were applied to it. -/
theorem usnet_create_tcb_mss {c : Ctx} {l : Listener} {seg : Segment} {t : UsnTcb}
    (h : usnet_create_tcb c l seg = .ok (some t)) :
    (c.tcb_cache.isSome && c.rcvvars_mp && c.sndvars_mp) = true ∧
      t.sndvar.mss = (mss_options seg (seg.opts.length + 1) 0).getLast?.getD TCP_DEFAULT_MSS := by
  obtain ⟨id, hid, hrcv, hsnd, hopts⟩ := usnet_create_tcb_made h
  constructor
  · rw [hid, hrcv, hsnd]
    rfl
  · rw [parse_opts_loop_mss _ _ hopts]
    rfl

theorem reply_rst_sends (c : Ctx) (seg : Segment) (seq ack_seq : UInt32) (flags : UInt8) :
    Sends Frame.fits c (reply_rst c seg seq ack_seq flags) := by
  unfold reply_rst usnet_send_tcp_packet_alone
  simp only [usnet_ipv4_output_ctx]
  split
  · exact .of_eq rfl
  · split
    · exact .of_eq rfl
    · exact .one rfl (Frame.fits_of_bare rfl)

/-- A segment for which there is no connection is refused, or opens one with the
    maximum segment size it asks for. -/
theorem usnet_handle_passive_open_builds {c c' : Ctx} {seg : Segment} {o : Option UsnTcb}
    (h : usnet_handle_passive_open c seg = .ok (c', o)) :
    Sends Frame.fits c c' ∧ ∀ t, o = some t → opens c seg ∧ t.state = .listen ∧
      t.sndvar.mss = (mss_options seg (seg.opts.length + 1) 0).getLast?.getD TCP_DEFAULT_MSS := by
  have hrefused : ∀ seq ack_seq flags, c' = reply_rst c seg seq ack_seq flags → o = none →
      Sends Frame.fits c c' ∧ ∀ t, o = some t → opens c seg ∧ t.state = .listen ∧
        t.sndvar.mss = (mss_options seg (seg.opts.length + 1) 0).getLast?.getD TCP_DEFAULT_MSS := by
    rintro seq ack_seq flags rfl rfl
    exact ⟨reply_rst_sends _ _ _ _ _, fun t ht => by cases ht⟩
  unfold usnet_handle_passive_open at h
  split at h
  · rename_i hflags
    simp only at h
    split at h
    · obtain ⟨rfl, rfl⟩ := Prod.mk.inj (Except.ok.inj h)
      exact hrefused _ _ _ rfl rfl
    · rename_i l hl
      split at h
      · cases h
      · obtain ⟨rfl, rfl⟩ := Prod.mk.inj (Except.ok.inj h)
        exact hrefused _ _ _ rfl rfl
      · rename_i t hcreate
        obtain ⟨rfl, rfl⟩ := Prod.mk.inj (Except.ok.inj h)
        refine ⟨.of_eq rfl, ?_⟩
        rintro t' ht'
        obtain rfl := Option.some.inj ht'
        obtain ⟨hroom, hmss⟩ := usnet_create_tcb_mss hcreate
        refine ⟨⟨hflags.1, by simpa using hflags.2, ?_⟩,
          (usnet_create_tcb_listen hcreate).1, hmss⟩
        unfold creates
        rw [hl]
        exact hroom
  · split at h
    · obtain ⟨rfl, rfl⟩ := Prod.mk.inj (Except.ok.inj h)
      exact ⟨.of_eq rfl, fun t ht => by cases ht⟩
    · split at h
      · obtain ⟨rfl, rfl⟩ := Prod.mk.inj (Except.ok.inj h)
        exact hrefused _ _ _ rfl rfl
      · obtain ⟨rfl, rfl⟩ := Prod.mk.inj (Except.ok.inj h)
        exact hrefused _ _ _ rfl rfl

/-- The same for all of `usnet_tcp_input`. -/
theorem usnet_tcp_input_builds {c c' : Ctx} {seg : Segment} {ret : Int} {o : Option UsnTcb}
    (h : usnet_tcp_input c none seg = .ok (ret, c', o)) :
    Sends Frame.fits c c' ∧ ∀ t, o = some t → opens c seg ∧
      t.sndvar.mss = (mss_options seg (seg.opts.length + 1) 0).getLast?.getD TCP_DEFAULT_MSS := by
  unfold usnet_tcp_input at h
  cases hopen : usnet_handle_passive_open c seg with
  | error e => simp [hopen, bind, Except.bind] at h
  | ok q =>
    obtain ⟨c₁, o₁⟩ := q
    obtain ⟨hsends, hnew⟩ := usnet_handle_passive_open_builds hopen
    simp only [hopen, bind, Except.bind, pure, Except.pure] at h
    cases o₁ with
    | none =>
      obtain ⟨-, hq⟩ := Prod.mk.inj (Except.ok.inj h)
      obtain ⟨rfl, rfl⟩ := Prod.mk.inj hq
      exact ⟨hsends, fun t ht => by cases ht⟩
    | some t₁ =>
      obtain ⟨hopens, hst, hmss⟩ := hnew t₁ rfl
      simp only at h
      split at h
      · cases h
      · rename_i s' hseg
        obtain ⟨-, hq⟩ := Prod.mk.inj (Except.ok.inj h)
        obtain ⟨rfl, rfl⟩ := Prod.mk.inj hq
        have hb := input_segment_builds (.inl hst) hseg
        refine ⟨hsends.trans hb.sends, fun t ht => ⟨hopens, ?_⟩⟩
        obtain rfl := Option.some.inj ht
        exact hb.mss.trans hmss

/-! ## Section 7: The ring of a connection -/

/-- An acknowledgement that is accepted although it lies half the sequence space
    ahead, where the code takes it for one that lies behind. -/
def accepts_halfway (t : UsnTcb) (seg : Segment) : Prop :=
  ack_looked_at t seg ∧ ∃ buf, t.sndvar.sndbuf = some buf ∧
    seg.ack_seq = buf.head_seq + 0x80000000 ∧ ¬ TCP_SEQ_GT seg.ack_seq (buf.head_seq + buf.len)

/-- The indices of the ring of a connection lie where the code leaves them. -/
def RingWf (t : UsnTcb) : Prop := ∀ buf, t.sndvar.sndbuf = some buf → IndexWf buf

theorem LifeMove.ringWf {s s' : Conn} {ev : LifeEvent} (hm : LifeMove s ev s')
    (h : RingWf s.tcb) (hc : ∀ seg, ev = .segment seg → ¬ accepts_halfway s.tcb seg) :
    RingWf s'.tcb := by
  have hsame : s'.tcb.sndvar.sndbuf = s.tcb.sndvar.sndbuf → RingWf s'.tcb := fun heq buf hbuf =>
    h buf (heq ▸ hbuf)
  have hnew : ∀ buf', s'.tcb.sndvar.sndbuf = some buf' → IndexWf buf' → RingWf s'.tcb := by
    intro buf' heq hwf buf hbuf
    rw [heq] at hbuf
    exact Option.some.inj hbuf ▸ hwf
  -- only joining, writing, sending and acknowledging touch the ring
  cases hm with
  | control hc => exact hsame (congrArg Core.sndbuf hc.core)
  | closed hc => exact hsame (congrArg Core.sndbuf hc)
  | resent _ hc => exact hsame (congrArg Core.sndbuf hc)
  | joined hbuf hcore hctl =>
    rename_i sndbuf s₁
    have heq : s'.tcb.sndvar.sndbuf = sndbuf := congrArg Core.sndbuf (joined_core hcore hctl)
    rcases hbuf with rfl | ⟨-, slot, rfl⟩
    · exact hsame heq
    · cases slot with
      | none => intro buf hbuf; rw [heq] at hbuf; cases hbuf
      | some data_ptr =>
        exact hnew _ heq ⟨show SENDBUF_SIZE.toNat ≤ INT_MAX by decide,
          show (0 : UInt32).toNat < SENDBUF_SIZE.toNat by decide,
          show (0 : UInt32).toNat ≤ SENDBUF_SIZE.toNat by decide⟩
  | written hbuf hw hcore =>
    rename_i fd bytes buf buf' r
    refine hnew buf' (congrArg Core.sndbuf hcore) ?_
    rcases usnet_write_data_cases bytes (h buf hbuf) with ⟨-, hw'⟩ | ⟨-, buf₁, hw', hwf, -⟩
    · rw [hw'] at hw
      obtain ⟨-, rfl⟩ := Prod.mk.inj (Option.some.inj hw)
      exact h buf hbuf
    · rw [hw'] at hw
      obtain ⟨-, rfl⟩ := Prod.mk.inj (Option.some.inj hw)
      exact hwf
  | read hc => exact hsame (congrArg Core.sndbuf hc)
  | flushed _ h₀ hfl h₁ =>
    obtain ⟨buf, p, hbuf, hc⟩ := flushed_core h₀ hfl h₁
    obtain ⟨hs, hh, ht⟩ := h buf hbuf
    exact hnew _ (congrArg Core.sndbuf hc) ⟨hs, hh, ht⟩
  | opened _ _ _ hc => exact hsame (congrArg Core.sndbuf hc)
  | resynced _ _ _ _ hc => exact hsame (congrArg Core.sndbuf hc)
  | handled _ hh =>
    rcases hh.send with ⟨-, -, heq⟩ | ⟨buf, ha⟩
    · exact hsame heq
    · rcases ha.data with ⟨-, -, heq⟩ | ⟨hold, -, heq⟩
      · exact hnew buf heq (h buf ha.sndbuf)
      -- the bytes taken off are counted by an `int`, which must not be negative
      · refine hnew _ heq ((h buf ha.sndbuf).removed ?_)
        refine (sint_sub_pos hold fun hhalf => ?_).le
        exact hc _ rfl ⟨ha.looked_at, buf, ha.sndbuf, hhalf, ha.passes⟩

/-- What is kept of a connection by steps that meet the condition below. -/
structure FrameInv (t : UsnTcb) : Prop where
  life : LifeInv t
  mss : t.sndvar.mss.toNat ≤ 1994
  ring : 1970 < t.sndvar.mss.toNat → RingWf t

theorem FrameInv.data {t : UsnTcb} (h : FrameInv t) : DataFits t := by
  by_cases hsmall : t.sndvar.mss.toNat ≤ 1970
  · exact .inl hsmall
  · refine .inr ⟨h.mss, fun buf hbuf => ?_⟩
    have hwf := h.ring (by omega) buf hbuf
    exact ⟨hwf.size_le, hwf.tail_le⟩

theorem FrameInv.step {s s' : Conn} {ev : LifeEvent} (h : FrameInv s.tcb)
    (hc : ∀ seg, ev = .segment seg → addressed s.tcb seg = true →
      1970 < s.tcb.sndvar.mss.toNat → ¬ accepts_halfway s.tcb seg)
    (hok : life_conn s ev = .ok s') : FrameInv s'.tcb ∧ Builds s s' := by
  have hb := life_conn_builds h.life.state h.data hok
  have hm := life_conn_move h.life hok
  refine ⟨⟨hm.inv h.life, hb.mss ▸ h.mss, fun hbig => ?_⟩, hb⟩
  rw [hb.mss] at hbig
  by_cases hother : ∃ seg, ev = .segment seg ∧ addressed s.tcb seg = false
  · obtain ⟨seg, rfl, haddr⟩ := hother
    simp only [life_conn, haddr, Bool.false_eq_true, if_false] at hok
    obtain rfl := Except.ok.inj hok
    exact h.ring hbig
  · refine hm.ringWf (h.ring hbig) fun seg hseg => hc seg hseg ?_ hbig
    by_contra haddr
    exact hother ⟨seg, hseg, by simpa using haddr⟩

/-! ## Section 8: Runs of the process -/

/-- The connections by their slots, and the lengths of all frames assembled so
    far. -/
structure Process where
  tcb : Nat → Option UsnTcb
  built : List Nat

/-- What happens next: a frame is received and answered below the state machine,
    an address is asked for, or an event reaches the slot of a connection, with
    whatever context it meets. -/
inductive ProcessEvent where
  | received (w : World) (m : Mem) (len : Nat)
  | resolve
  | conn (c : Ctx) (id : Nat) (ev : LifeEvent)

/-- The frames sent between two contexts. -/
def sent (c c' : Ctx) : List Frame := c'.frames.drop c.frames.length

def ProcessStep (p : Process) (ev : ProcessEvent) (p' : Process) : Prop :=
  match ev with
  | .received w m len => len ≤ NM_BUF_SIZE ∧
      p' = { p with built := p.built ++ (usnet_eth_input w m len).built }
  | .resolve => p' = { p with built := p.built ++ [usnet_arp_output] }
  | .conn c id ev => ∃ c' o, life_step c (p.tcb id) ev = .ok (c', o) ∧
      p' = { tcb := Function.update p.tcb id o, built := p.built ++ (sent c c').map frame_len }

/-- Nothing has happened yet. -/
def Process.Fresh (p : Process) : Prop := (∀ id, p.tcb id = none) ∧ p.built = []

/-- A received datagram leaves room for headers in what is echoed.  The header
    checks are those of `usnet_ipv4_input`. -/
def echo_fits (w : World) (m : Mem) : Prop :=
  let iplen := be16 m 16
  let hl := 4 * ip_hl m
  be16 m 12 = 0x0800 → IP_HEADER_LEN ≤ iplen →
    ip_fast_csum m 14 (ip_hl m % 2 ^ 32).toNat = 0 → (m 14).toNat / 16 = 4 →
    w.arp (le32 m 26) = true →
      (m 23 = IPPROTO_UDP → hl ≤ iplen ∧ iplen - hl ≤ 2014) ∧
      (m 23 = IPPROTO_ICMP → ICMP_MINLEN ≤ iplen - hl →
        cksum m (14 + hl) (iplen - hl) = 0 → m (14 + hl) = ICMP_ECHO → iplen - hl ≤ 2014)

/-- The condition on a step. -/
def ProcessCond (p : Process) (ev : ProcessEvent) : Prop :=
  match ev with
  | .received w m _ => echo_fits w m
  | .resolve => True
  | .conn c id ev => ∀ seg, ev = .segment seg →
      match p.tcb id with
      | none => opens c seg → mss_fits seg
      | some t => addressed t seg = true → 1970 < t.sndvar.mss.toNat → ¬ accepts_halfway t seg

/-- A list of lengths that all fit. -/
def AllFit (l : List Nat) : Prop := ∀ k ∈ l, k ≤ NM_BUF_SIZE

theorem allFit_nil : AllFit [] := fun _ hk => by cases hk

theorem allFit_arp : AllFit [usnet_arp_output] := fun k hk => by
  rw [List.mem_singleton.mp hk]
  decide

/-- What is put behind an IP header, where the address is known. -/
theorem usnet_ipv4_output_alone_fits (w : World) (daddr : UInt32) (n : Int) :
    AllFit (usnet_ipv4_output_alone w daddr n).2 ↔
      (w.arp daddr = true → (n % 2 ^ 64).toNat ≤ 2014) := by
  unfold AllFit usnet_ipv4_output_alone
  by_cases hw : w.arp daddr = true
  · simp only [hw, if_true, List.mem_singleton, forall_eq, true_implies]
    unfold usnet_eth_output_nm ETH_HEADER_LEN IP_HEADER_LEN NM_BUF_SIZE
    omega
  · rw [if_neg hw]
    exact ⟨fun _ h => absurd h hw, fun _ => allFit_arp⟩

theorem udp_built (w : World) (m : Mem) {hl : Int} {iplen : Nat} (hhl : -32 ≤ hl ∧ hl ≤ 28)
    (hip : iplen < 65536) :
    AllFit (Wire.usnet_udp_input w m 14 hl iplen).built ↔
      (w.arp (le32 m 26) = true → hl ≤ iplen ∧ iplen - hl ≤ 2014) := by
  have hbuilt : (Wire.usnet_udp_input w m 14 hl iplen).built
      = (usnet_ipv4_output_alone w (le32 m 26) ((iplen : Int) - hl)).2 := by
    unfold Wire.usnet_udp_input
    simp only
    split <;> rfl
  rw [hbuilt, usnet_ipv4_output_alone_fits]
  refine forall_congr' fun _ => ?_
  omega

theorem icmp_built (w : World) (m : Mem) {hl : Int} {iplen : Nat} (hhl : -32 ≤ hl ∧ hl ≤ 28)
    (hip : iplen < 65536) :
    AllFit (Wire.usnet_icmp_input w m 14 hl iplen).built ↔
      (w.arp (le32 m 26) = true → ICMP_MINLEN ≤ iplen - hl → cksum m (14 + hl) (iplen - hl) = 0 →
        m (14 + hl) = ICMP_ECHO → iplen - hl ≤ 2014) := by
  unfold Wire.usnet_icmp_input
  simp only
  by_cases hmin : (iplen : Int) - hl < ICMP_MINLEN
  · rw [if_pos hmin]
    exact ⟨fun _ _ hge => absurd hmin (not_lt.mpr hge), fun _ => allFit_nil⟩
  · rw [if_neg hmin]
    by_cases hck : cksum m (14 + hl) ((iplen : Int) - hl) = 0
    · rw [if_neg (not_not.mpr hck)]
      by_cases hecho : m (14 + hl) = ICMP_ECHO
      · rw [if_neg (not_not.mpr hecho)]
        have hbuilt : (usnet_icmp_reflect w m 14 (14 + hl) ((iplen : Int) - hl)).built
            = (usnet_ipv4_output_alone w (le32 m 26) ((iplen : Int) - hl)).2 := by
          unfold usnet_icmp_reflect
          simp only
          split <;> rfl
        rw [after_built, hbuilt, usnet_ipv4_output_alone_fits]
        refine forall_congr' fun _ => ?_
        simp only [not_lt.mp hmin, hck, hecho, true_implies]
        unfold ICMP_MINLEN at hmin
        omega
      · rw [if_pos hecho]
        exact ⟨fun _ _ _ _ h => absurd h hecho, fun _ => allFit_nil⟩
    · rw [if_pos hck]
      exact ⟨fun _ _ _ h => absurd h hck, fun _ => allFit_nil⟩

theorem tcp_built (w : World) (m : Mem) (hl : Int) (iplen : Nat) :
    (Wire.usnet_tcp_input w m 14 hl iplen).built = [] := by
  unfold Wire.usnet_tcp_input
  simp only
  split
  · rfl
  · split <;> rfl

/-- What is assembled in answer to a frame fits if and only if the datagram leaves
    room. -/
theorem usnet_eth_input_built (w : World) (m : Mem) (len : Nat) :
    AllFit (usnet_eth_input w m len).built ↔ echo_fits w m := by
  have hip := be16_lt m 16
  have hb := ip_hl_bounds m
  have hhl : -32 ≤ 4 * ip_hl m ∧ 4 * ip_hl m ≤ 28 := by omega
  have hne : IPPROTO_UDP ≠ IPPROTO_TCP ∧ IPPROTO_ICMP ≠ IPPROTO_TCP ∧
      IPPROTO_ICMP ≠ IPPROTO_UDP := by decide
  unfold usnet_eth_input echo_fits
  simp only
  -- the exits of the input functions from the frame inwards; only three of them answer
  by_cases htype : be16 m 12 = 0x0800
  · rw [if_pos htype, after_built]
    simp only [htype, true_implies]
    unfold usnet_ipv4_input
    simp only [ETH_HEADER_LEN, Nat.cast_ofNat, show (14 : Int) + 2 = 16 from rfl,
      show (14 : Int) + 9 = 23 from rfl]
    by_cases hshort : be16 m 16 < IP_HEADER_LEN
    · rw [if_pos hshort]
      exact ⟨fun _ hge => absurd hshort (not_lt.mpr hge), fun _ => allFit_nil⟩
    · rw [if_neg hshort]
      simp only [not_lt.mp hshort, true_implies]
      by_cases hsum : ip_fast_csum m 14 (ip_hl m % 2 ^ 32).toNat = 0
      · rw [if_neg (not_not.mpr hsum)]
        by_cases hver : (m 14).toNat / 16 = 4
        · rw [if_neg (not_not.mpr hver)]
          simp only [hsum, hver, true_implies]
          by_cases htcp : m 23 = IPPROTO_TCP
          · rw [if_pos htcp, after_built, tcp_built, htcp]
            exact ⟨fun _ _ => ⟨fun h => absurd h hne.1.symm, fun h => absurd h hne.2.1.symm⟩,
              fun _ => allFit_nil⟩
          · rw [if_neg htcp]
            by_cases hudp : m 23 = IPPROTO_UDP
            · rw [if_pos hudp, after_built, udp_built w m hhl hip, hudp]
              exact ⟨fun h harp => ⟨fun _ => h harp, fun hicmp => absurd hicmp hne.2.2.symm⟩,
                fun h harp => (h harp).1 rfl⟩
            · rw [if_neg hudp]
              by_cases hicmp : m 23 = IPPROTO_ICMP
              · rw [if_pos hicmp, after_built, icmp_built w m hhl hip]
                exact ⟨fun h harp => ⟨fun h' => absurd h' hudp, fun _ => h harp⟩,
                  fun h harp => (h harp).2 hicmp⟩
              · rw [if_neg hicmp]
                exact ⟨fun _ _ => ⟨fun h => absurd h hudp, fun h => absurd h hicmp⟩,
                  fun _ => allFit_nil⟩
        · rw [if_pos hver]
          exact ⟨fun _ _ h => absurd h hver, fun _ => allFit_nil⟩
      · rw [if_pos hsum]
        exact ⟨fun _ h => absurd h hsum, fun _ => allFit_nil⟩
  · rw [if_neg htype]
    refine ⟨fun _ h => absurd h htype, fun _ => ?_⟩
    by_cases harp : be16 m 12 = 0x0806
    · rw [if_pos harp, after_built]
      unfold usnet_arp_input
      simp only
      split
      · exact allFit_nil
      · split
        · exact allFit_arp
        · split <;> exact allFit_nil
    · rw [if_neg harp]
      exact allFit_nil

/-- One step keeps the connections in order and assembles only frames that fit. -/
theorem ProcessStep.fits {p p' : Process} {ev : ProcessEvent}
    (hinv : ∀ id t, p.tcb id = some t → FrameInv t) (hc : ProcessCond p ev)
    (hs : ProcessStep p ev p') :
    (∀ id t, p'.tcb id = some t → FrameInv t) ∧
    (AllFit p.built → AllFit p'.built) := by
  have happend : ∀ l, AllFit l → AllFit p.built → AllFit (p.built ++ l) := by
    intro l hl hp k hk
    rcases List.mem_append.mp hk with hk | hk
    · exact hp k hk
    · exact hl k hk
  cases ev with
  | received w m len =>
    obtain ⟨-, rfl⟩ := hs
    exact ⟨hinv, happend _ ((usnet_eth_input_built w m len).mpr hc)⟩
  | resolve =>
    obtain rfl := hs
    exact ⟨hinv, happend _ allFit_arp⟩
  | conn c id ev =>
    obtain ⟨c', o, hstep, rfl⟩ := hs
    have hsent : Sends Frame.fits c c' → AllFit ((sent c c').map frame_len) := by
      rintro ⟨l, hl, hfit⟩ k hk
      obtain ⟨f, hf, rfl⟩ := List.mem_map.mp hk
      refine hfit f ?_
      unfold sent at hf
      rwa [hl, List.drop_left] at hf
    -- the slot of the event holds a connection in order, if any
    have hslot : (∀ t, o = some t → FrameInv t) →
        ∀ id' t, Function.update p.tcb id o id' = some t → FrameInv t := by
      intro ho id' t ht
      by_cases hid : id' = id
      · subst hid
        rw [Function.update_self] at ht
        exact ho t ht
      · rw [Function.update_of_ne hid] at ht
        exact hinv id' t ht
    have key : (∀ t, o = some t → FrameInv t) ∧ Sends Frame.fits c c' := by
      unfold life_step at hstep
      cases htcb : p.tcb id with
      | some t =>
        simp only [htcb] at hstep
        split at hstep
        · cases hstep
        · rename_i s' hok
          obtain ⟨rfl, rfl⟩ := Prod.mk.inj (Except.ok.inj hstep)
          obtain ⟨hnext, hb⟩ := (hinv id t htcb).step (s := ⟨c, t⟩) (fun seg hseg => by
            have := hc seg hseg
            rwa [htcb] at this) hok
          refine ⟨fun t' ht' => ?_, hb.sends⟩
          obtain ⟨-, rfl⟩ := alive_some ht'
          exact hnext
      | none =>
        simp only [htcb] at hstep
        split at hstep
        · rename_i seg
          split at hstep
          · cases hstep
          · rename_i ret c₁ o₁ hin
            obtain ⟨rfl, rfl⟩ := Prod.mk.inj (Except.ok.inj hstep)
            obtain ⟨hsends, hnew⟩ := usnet_tcp_input_builds hin
            refine ⟨fun t ht => ?_, hsends⟩
            cases o₁ with
            | none => cases ht
            | some t₁ =>
              obtain ⟨-, rfl⟩ := alive_some ht
              obtain ⟨hopens, hmss⟩ := hnew t₁ rfl
              have hcreated := usnet_tcp_input_created hin
              have hfit := hc seg rfl
              rw [htcb] at hfit
              refine ⟨⟨.inl hcreated.state, hcreated.send.2.2⟩, ?_, fun _ buf hbuf => ?_⟩
              · rw [hmss]
                cases hl : (mss_options seg (seg.opts.length + 1) 0).getLast? with
                | none => decide
                | some v => exact hfit hopens v hl
              · rw [hcreated.send.2.1] at hbuf
                cases hbuf
        · obtain ⟨rfl, rfl⟩ := Prod.mk.inj (Except.ok.inj hstep)
          exact ⟨fun t ht => (by cases ht), .of_eq rfl⟩
    exact ⟨hslot key.1, happend _ (hsent key.2)⟩

/-- In a run whose steps all meet the condition every frame fits the buffer it is
    assembled in. -/
theorem frames_fit {p : Process} (h : RunWhere ProcessStep ProcessCond Process.Fresh p) :
    ∀ k ∈ p.built, k ≤ NM_BUF_SIZE := by
  have hinv : (∀ id t, p.tcb id = some t → FrameInv t) ∧ AllFit p.built := by
    refine RunWhere.invariant (I := fun p => (∀ id t, p.tcb id = some t → FrameInv t) ∧
      AllFit p.built) ?_ ?_ h
    · rintro p ⟨hnone, hbuilt⟩
      refine ⟨fun id t ht => ?_, hbuilt ▸ allFit_nil⟩
      rw [hnone id] at ht
      cases ht
    · intro p ev p' hi hc hs
      obtain ⟨hnext, hfit⟩ := hs.fits hi.1 hc
      exact ⟨hnext, hfit hi.2⟩
  exact hinv.2

/-! ## Section 9: Runs on given events -/

/-- The events of one connection, one after the other, as long as they pass a test. -/
def process_run (ok : Option UsnTcb → LifeEvent → Bool) (p : Process) (id : Nat) :
    List (Ctx × LifeEvent) → Option Process
  | [] => some p
  | a :: as =>
    if ok (p.tcb id) a.2 then
      match life_step a.1 (p.tcb id) a.2 with
      | .error _ => none
      | .ok (c', o) =>
        process_run ok
          { tcb := Function.update p.tcb id o, built := p.built ++ (sent a.1 c').map frame_len }
          id as
    else none

theorem process_run_where {C : Process → ProcessEvent → Prop}
    {ok : Option UsnTcb → LifeEvent → Bool} {p p' : Process} {id : Nat}
    {evs : List (Ctx × LifeEvent)}
    (hok : ∀ p c ev, ok (p.tcb id) ev = true → C p (.conn c id ev))
    (h : RunWhere ProcessStep C Process.Fresh p) (hr : process_run ok p id evs = some p') :
    RunWhere ProcessStep C Process.Fresh p' := by
  induction evs generalizing p with
  | nil =>
    obtain rfl := Option.some.inj hr
    exact h
  | cons a as ih =>
    unfold process_run at hr
    split at hr
    · rename_i htest
      split at hr
      · cases hr
      · rename_i c' o hs
        exact ih (.step h (hok p a.1 a.2 htest) ⟨c', o, hs, rfl⟩) hr
    · cases hr

/-- A test that is enough for the condition. -/
def small_mss (o : Option UsnTcb) : LifeEvent → Bool
  | .segment seg =>
    match o with
    | none => (mss_options seg (seg.opts.length + 1) 0).getLast?.all fun v => v.toNat ≤ 1994
    | some t => t.sndvar.mss.toNat ≤ 1970
  | _ => true

theorem small_mss_cond {p : Process} {c : Ctx} {id : Nat} {ev : LifeEvent}
    (h : small_mss (p.tcb id) ev = true) : ProcessCond p (.conn c id ev) := by
  rintro seg rfl
  unfold small_mss at h
  cases ht : p.tcb id with
  | none =>
    simp only [ht] at h ⊢
    intro _ v hv
    rw [Option.mem_def.mp hv, Option.all_some] at h
    exact of_decide_eq_true h
  | some t =>
    simp only [ht, decide_eq_true_eq] at h ⊢
    exact fun _ hbig => absurd hbig (by omega)

/-- A SYN that asks for segments of `mss` bytes. -/
def sized_syn (mss : UInt16) : Segment :=
  { peer_segment 9000 0 TH_SYN [] nil_short with
    opts := [TCPOPT_MAXSEG, 4, (mss >>> 8).toUInt8, mss.toUInt8] }

/-- The handshake with that size, a write of `n` bytes and its sending. -/
def sized_run (mss : UInt16) (n : Nat) : List (Ctx × LifeEvent) :=
  [(quiet_ctx, .segment (sized_syn mss)), (quiet_ctx, .accept true 5 0),
   (quiet_ctx, .segment (peer_segment 9001 5001 TH_ACK [] nil_short)),
   (quiet_ctx, .write 5 (List.replicate n 0)), (quiet_ctx, .wrote true 5), (quiet_ctx, .data)]

/-- A process that has answered a datagram of 26 bytes. -/
def echoed : Process :=
  { tcb := fun _ => none
    built := (usnet_eth_input (open_world 0 0) (udp_frame 46 48486) 60).built }

theorem echoed_run : RunWhere ProcessStep ProcessCond Process.Fresh echoed := by
  have hcond : echo_fits (open_world 0 0) (udp_frame 46 48486) := by
    refine fun _ _ _ _ _ => ⟨fun _ => by decide, fun h => absurd h (by decide)⟩
  exact .step (a := .received (open_world 0 0) (udp_frame 46 48486) 60)
    (.init (s := { tcb := fun _ => none, built := [] }) ⟨fun _ => rfl, rfl⟩) hcond
    ⟨by decide, rfl⟩


/-- An echo, the SYN/ACK of a connection and 1400 bytes of data. -/
theorem frames_fit_sample : ∃ p : Process, p.built = [60, 74, 1466] ∧
    ∀ k ∈ p.built, k ≤ NM_BUF_SIZE := by
  have hbuilt : (process_run small_mss echoed 7 (sized_run 1460 1400)).map Process.built
      = some [60, 74, 1466] := by decide +kernel
  obtain ⟨p, hp, hlens⟩ := Option.map_eq_some_iff.mp hbuilt
  exact ⟨p, hlens, frames_fit (process_run_where (fun _ _ _ => small_mss_cond) echoed_run hp)⟩

/-- A peer that asks for segments of 9000 bytes is sent 3000 bytes in one frame. -/
theorem jumbo_frame_built : ¬ ∀ p, Reachable ProcessStep Process.Fresh p →
    ∀ k ∈ p.built, k ≤ NM_BUF_SIZE := by
  intro h
  have hbuilt : (process_run (fun _ _ => true) echoed 7 (sized_run 9000 3000)).map Process.built
      = some [60, 74, 3066] := by decide +kernel
  obtain ⟨p, hp, hlens⟩ := Option.map_eq_some_iff.mp hbuilt
  have hrun := process_run_where (C := fun _ _ => True) (fun _ _ _ _ => trivial)
    echoed_run.reachable hp
  have hfit := h p hrun 3066 (by rw [hlens]; decide)
  exact absurd hfit (by decide)

end Usnet
