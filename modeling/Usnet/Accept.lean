import Usnet.Blocked
import Usnet.Links
import Usnet.Refused
import Usnet.Reset
import Usnet.Window

/-! # Connections before they are accepted

    The SYN that creates a connection is answered when the application's message
    has given it a socket and a send buffer.  Until then it stays quiet because it
    is on none of the lists; a segment that SYN_RECEIVED answers by itself, or
    takes for the end of the handshake, finds no such check.
-/

namespace Usnet

open CInt Run

/-! ## Section 1: Waiting for the application -/

/-- It has a socket of its own and a send buffer. -/
def equipped (t : UsnTcb) : Prop := t.socket = some t.fd ∧ t.sndvar.sndbuf.isSome

/-- Not accepted yet: without buffers, and on no list from which something is sent
    or on which a timer runs. -/
structure Unaccepted (t : UsnTcb) : Prop where
  state : t.state = .syn_received
  buffers : t.sndvar.sndbuf = none ∧ t.rcvvar.rcvbuf = none
  control : t.sndvar.on_control_list = false ∧ t.control_list_waiting = false
  timers : t.on_rto_idx = -1 ∧ t.on_timewait_list = false ∧ t.on_timeout_list = false

/-- The variables this depends on. -/
@[simp] abbrev SameWait (t t' : UsnTcb) : Prop :=
  t'.state = t.state ∧ t'.sndvar.sndbuf = t.sndvar.sndbuf ∧
  t'.rcvvar.rcvbuf = t.rcvvar.rcvbuf ∧
  t'.sndvar.on_control_list = t.sndvar.on_control_list ∧
  t'.control_list_waiting = t.control_list_waiting ∧ t'.on_rto_idx = t.on_rto_idx ∧
  t'.on_timewait_list = t.on_timewait_list ∧ t'.on_timeout_list = t.on_timeout_list

theorem Unaccepted.congr {t t' : UsnTcb} (h : Unaccepted t) (hs : SameWait t t') :
    Unaccepted t' := by
  obtain ⟨hst, ⟨hsnd, hrcv⟩, ⟨hctl, hwait⟩, hrto, htw, hto⟩ := h
  obtain ⟨h₁, h₂, h₃, h₄, h₅, h₆, h₇, h₈⟩ := hs
  exact ⟨h₁.trans hst, ⟨h₂.trans hsnd, h₃.trans hrcv⟩, ⟨h₄.trans hctl, h₅.trans hwait⟩,
    h₆.trans hrto, h₇.trans htw, h₈.trans hto⟩

/-- A connection just created is on no list at all. -/
theorem Unaccepted.created {c c' : Ctx} {seg : Segment} {ret : Int} {t : UsnTcb}
    (h : usnet_tcp_input c none seg = .ok (ret, c', some t)) : Unaccepted t := by
  obtain ⟨hst, -, ⟨-, hsnd, -⟩, -, ⟨-, hrcv, -⟩, hrto, hctl, hwait⟩ := usnet_tcp_input_created h
  obtain ⟨id, l, -, hlinks⟩ := usnet_tcp_input_opened h
  exact ⟨hst, ⟨hsnd, hrcv⟩, ⟨hctl, hwait⟩, hrto, congrArg Links.on_timewait_list hlinks,
    congrArg Links.on_timeout_list hlinks⟩

/-! ## Section 2: Segments -/

/-- What SYN_RECEIVED answers with a SYN/ACK, or takes for the end of the
    handshake. -/
def draws_answer (tcb : UsnTcb) (seg : Segment) : Prop :=
  if in_window tcb seg then
    (seg.has TH_RST → seg.ack_seq ≠ tcb.rcv_nxt) ∧
      (seg.has TH_ACK → seg.ack_seq = tcb.sndvar.iss + 1)
  else seg.has TH_RST = false

instance (tcb : UsnTcb) (seg : Segment) : Decidable (draws_answer tcb seg) :=
  inferInstanceAs (Decidable (if in_window tcb seg then _ else _))

/-- A segment whose timestamp lets it through has a valid one. -/
theorem timestamp_valid_of_passes {s s₁ : Conn} {seg : Segment}
    (h : validate_timestamp s seg = .ok (0, s₁)) : timestamp_valid s.tcb seg := by
  intro hrst hsaw
  have hsome := validate_timestamp_passes.mp ⟨s₁, h⟩ ⟨hrst, hsaw⟩
  unfold stored_timestamp at hsome
  rw [if_pos ⟨hrst, hsaw⟩] at hsome
  split at hsome
  · cases hsome
  · cases hsome
  · rename_i ts_val ts_ref hparse
    refine ⟨ts_val, ts_ref, hparse, fun hlt => ?_⟩
    rw [if_pos hlt] at hsome
    cases hsome

theorem usnet_add_ack_list_wait (s : Conn) : SameWait s.tcb (usnet_add_ack_list s).tcb := by
  unfold usnet_add_ack_list
  split <;> simp

theorem usnet_enqueue_ack_wait (s : Conn) (opt : AckOpt) :
    SameWait s.tcb (usnet_enqueue_ack s opt).tcb := by
  unfold usnet_enqueue_ack
  cases opt with
  | now => exact usnet_add_ack_list_wait _
  | aggregate => exact usnet_add_ack_list_wait _
  | wack => exact usnet_add_ack_list_wait _

theorem validate_timestamp_wait {s s₁ : Conn} {seg : Segment} {r : Int}
    (h : validate_timestamp s seg = .ok (r, s₁)) : SameWait s.tcb s₁.tcb := by
  rcases validate_timestamp_cases h with ⟨-, -, rfl | rfl⟩ | ⟨-, -, rfl⟩ | ⟨-, _, _, -, rfl⟩
  · simp
  · exact usnet_enqueue_ack_wait s .now
  · simp
  · simp [stamp]

/-- The sequence check lets a segment through that is in the window, and answers
    none that draws no answer. -/
theorem check_segment_waiting {s s₁ : Conn} {seg : Segment} {r : Int} (h : Unaccepted s.tcb)
    (hdraw : timestamp_valid s.tcb seg → ¬ draws_answer s.tcb seg)
    (hok : check_segment s seg = .ok (r, s₁)) :
    Unaccepted s₁.tcb ∧ Quiet s s₁ ∧
    (¬ r < 0 → timestamp_valid s.tcb seg ∧ in_window s.tcb seg) := by
  unfold check_segment at hok
  rw [if_pos (by rw [h.state])] at hok
  unfold usnet_validate_seq at hok
  split at hok
  · cases hok
  · rename_i r₁ t hts
    have hq := validate_timestamp_quiet hts
    have ht := h.congr (validate_timestamp_wait hts)
    have hwin : in_window t.tcb seg ↔ in_window s.tcb seg :=
      in_window_congr (by simp [hq]) (by simp [hq])
    by_cases hneg : r₁ < 0
    · rw [if_pos hneg] at hok
      obtain ⟨rfl, rfl⟩ := hok
      exact ⟨ht, hq, fun hnot => absurd hneg hnot⟩
    · rw [if_neg hneg] at hok
      have hzero : r₁ = 0 := by
        rcases validate_timestamp_cases hts with ⟨hr, -⟩ | ⟨hr, -⟩ | ⟨hr, -⟩
        · exact absurd hr hneg
        · exact hr
        · exact hr
      have hvalid := timestamp_valid_of_passes (hzero ▸ hts)
      by_cases hw : in_window t.tcb seg
      · rw [if_pos hw] at hok
        obtain ⟨rfl, rfl⟩ := hok
        exact ⟨ht, hq, fun _ => ⟨hvalid, hwin.mp hw⟩⟩
      · rw [if_neg hw] at hok
        have hrst : seg.has TH_RST := by
          by_contra hno
          apply hdraw hvalid
          unfold draws_answer
          rw [if_neg (fun hin => hw (hwin.mpr hin))]
          exact Bool.not_eq_true _ ▸ hno
        unfold reject_seq at hok
        rw [if_pos hrst] at hok
        obtain ⟨rfl, rfl⟩ := hok
        exact ⟨ht, hq, fun hnot => absurd (by decide) hnot⟩

theorem note_segment_waiting {s : Conn} (h : Unaccepted s.tcb) (seg : Segment) :
    Unaccepted (note_segment s seg).tcb := by
  have hoff := h.timers.2.2
  apply h.congr
  unfold note_segment usnet_update_timeout_list
  simp [hoff]

/-- A reset that is taken releases the connection; any other segment goes on to
    the handler. -/
theorem process_rst_waiting {s : Conn} (h : Unaccepted s.tcb) (seg : Segment) :
    ((seg.has TH_RST → seg.ack_seq ≠ s.tcb.rcv_nxt) ∧
      ∃ b, (process_rst s seg).2 = s.onTcb fun t => { t with have_reset := b }) ∨
    (seg.has TH_RST ∧ seg.ack_seq = s.tcb.rcv_nxt ∧ (process_rst s seg).2.tcb.state = .closed ∧
      usnet_tcb_isempty (process_rst s seg).2.tcb ∧
      (process_rst s seg).2.ctx.frames = s.ctx.frames) := by
  have hst := h.state
  unfold process_rst
  by_cases hrst : seg.has TH_RST
  · simp only [hrst, if_true, Conn.onTcb_tcb, hst]
    rw [if_pos (by decide)]
    unfold usnet_handle_rst
    simp only [Conn.onTcb_tcb, hst]
    by_cases hack : seg.ack_seq = s.tcb.rcv_nxt
    · right
      rw [if_pos hack]
      refine ⟨trivial, hack, ?_, rfl, ?_⟩
      · simp
      · simp
    · left
      rw [if_neg hack]
      exact ⟨fun _ => hack, true, rfl⟩
  · left
    rw [if_neg hrst]
    exact ⟨fun hr => absurd hr hrst, s.tcb.have_reset, rfl⟩

/-- A segment that draws no answer leaves the connection waiting, or releases it. -/
theorem input_segment_waiting {s s' : Conn} {seg : Segment} {r : Int} (h : Unaccepted s.tcb)
    (hdraw : timestamp_valid s.tcb seg → ¬ draws_answer s.tcb seg)
    (hok : input_segment s seg = .ok (r, s')) :
    s'.ctx.frames = s.ctx.frames ∧ (Unaccepted s'.tcb ∨ usnet_tcb_isempty s'.tcb) := by
  rcases input_segment_cases hok with ⟨-, r₀, -, hc⟩ | ⟨-, r₀, s₁, hneg, hc, hs⟩
  · obtain ⟨hwait, hq, -⟩ := check_segment_waiting h hdraw hc
    exact ⟨by simp [hq], .inl hwait⟩
  · obtain ⟨hwait, hq, hpass⟩ := check_segment_waiting h hdraw hc
    obtain ⟨hvalid, hwin⟩ := hpass hneg
    have hno := hdraw hvalid
    unfold draws_answer at hno
    rw [if_pos hwin] at hno
    have hn := note_segment_waiting hwait seg
    have hnq := note_segment_quiet s₁ seg
    have hnxt : (note_segment s₁ seg).tcb.rcv_nxt = s.tcb.rcv_nxt := by simp [hq]
    have hiss : (note_segment s₁ seg).tcb.sndvar.iss = s.tcb.sndvar.iss := by simp [hq]
    have hframes : (note_segment s₁ seg).ctx.frames = s.ctx.frames := by simp [hq]
    generalize note_segment s₁ seg = n at *
    rcases process_rst_waiting hn seg with ⟨hrst, b, hb⟩ | ⟨hrst, hack, hst, hempty, hfr⟩
    · rw [hb] at hs
      -- it acknowledges something, and not the SYN
      rw [hnxt] at hrst
      have hack : seg.has TH_ACK ∧ seg.ack_seq ≠ s.tcb.sndvar.iss + 1 := by
        by_contra hnot
        apply hno
        refine ⟨hrst, fun hA => ?_⟩
        by_contra hne
        exact hnot ⟨hA, hne⟩
      have hst : (n.onTcb fun t => { t with have_reset := b }).tcb.state = .syn_received := hn.state
      unfold handle_state at hs
      rw [hst] at hs
      rcases usnet_handle_syn_received_cases hs with ⟨-, -, rfl⟩ | ⟨-, heq, -⟩ | ⟨hA, -⟩
      · exact ⟨hframes, .inl (hn.congr (by simp))⟩
      · rw [← hiss] at hack
        exact absurd heq hack.2
      · rw [hA] at hack
        cases hack.1
    · unfold handle_state at hs
      rw [hst] at hs
      obtain rfl := Except.ok.inj hs
      exact ⟨hfr.trans hframes, .inr hempty⟩

/-! ## Section 3: The application's message and the visits -/

/-- Accepted, and the ring with what it receives is found by its own `fd`. -/
structure Accepted (t : UsnTcb) : Prop where
  own : equipped t
  ring : ∀ buf, t.rcvvar.rcvbuf = some buf → buf.fd = t.fd

/-- The connection waits on, and is not heard of, or it is released. -/
def waits_on (s s' : Conn) : Prop :=
  s'.ctx.frames = s.ctx.frames ∧ (Unaccepted s'.tcb ∨ usnet_tcb_isempty s'.tcb)

theorem Unaccepted.same {s s' : Conn} (h : Unaccepted s.tcb) (hs : SameWait s.tcb s'.tcb)
    (hframes : s'.ctx.frames = s.ctx.frames) : waits_on s s' :=
  ⟨hframes, .inl (h.congr hs)⟩

/-- It is accepted by a message that finds a socket and gets a buffer. -/
theorem usnet_connect_net_handler_waiting {s : Conn} (h : Unaccepted s.tcb) (so : Bool)
    (fd : UInt32) (result : Int) :
    (Accepted (usnet_connect_net_handler s so fd result).tcb ∧
      usnet_tcb_isempty (usnet_connect_net_handler s so fd result).tcb
        = usnet_tcb_isempty s.tcb) ∨
    waits_on s (usnet_connect_net_handler s so fd result) := by
  unfold usnet_connect_net_handler
  by_cases hso : so = false
  · rw [if_pos hso]
    exact .inr (h.same (by simp) rfl)
  · rw [if_neg hso]
    by_cases hres : result < 0
    · rw [if_pos hres]
      exact .inr (h.same (by simp) rfl)
    · rw [if_neg hres]
      simp only [Conn.onTcb_tcb, h.buffers.1]
      split
      · exact .inr (h.same (by simp) rfl)
      · -- the SYN/ACK goes out when the buffer is there
        rename_i buf hget
        left
        generalize ht : ((s.onTcb fun t => { t with socket := some fd, fd := fd }).onSnd fun v =>
          { v with sndbuf := some buf }) = t
        have hst : t.tcb.state = .syn_received := by
          rw [← ht]
          exact h.state
        obtain ⟨⟨hsa, hda, hsp, hdp, -⟩, -⟩ := usnet_add_control_list_syn hst
        have hempty : usnet_tcb_isempty (usnet_add_control_list t).tcb
            = usnet_tcb_isempty s.tcb := by
          unfold usnet_tcb_isempty
          rw [hsa, hda, hsp, hdp, ← ht]
          rfl
        refine ⟨⟨⟨?_, ?_⟩, fun rb hrb => ?_⟩, hempty⟩
        · simp [← ht]
        · simp [← ht]
        · simp [← ht, h.buffers.2] at hrb

theorem send_waiting_idle {s : Conn} (h : s.tcb.control_list_waiting = false) (on_list : Bool) :
    send_waiting s on_list = s := by
  unfold send_waiting
  rw [h, if_neg (fun hw => Bool.noConfusion hw.1)]

theorem usnet_remove_ack_list_wait (s : Conn) :
    SameWait s.tcb (usnet_remove_ack_list s).tcb := by
  unfold usnet_remove_ack_list
  split <;> simp

/-- There is nothing to acknowledge in SYN_RECEIVED. -/
theorem ack_visit_waiting {s : Conn} (h : Unaccepted s.tcb) : waits_on s (ack_visit s) := by
  unfold ack_visit
  split
  · have hnone : to_ack s.tcb = false := by
      unfold to_ack
      rw [h.state]
    have hdrop : SameWait s.tcb (ack_or_drop s).tcb ∧
        (ack_or_drop s).ctx.frames = s.ctx.frames := by
      unfold ack_or_drop
      rw [hnone, if_neg Bool.false_ne_true]
      have hsame := usnet_remove_ack_list_wait
        (s.onSnd fun v => { v with ack_cnt := 0, is_wack := false })
      exact ⟨hsame, by simp⟩
    have hwait : (ack_or_drop s).tcb.control_list_waiting = false :=
      (h.congr hdrop.1).control.2
    rw [send_waiting_idle hwait]
    exact h.same hdrop.1 hdrop.2
  · exact h.same (by simp) rfl

/-- Nor is there anything to send. -/
theorem data_visit_waiting {s s' : Conn} (h : Unaccepted s.tcb) (hok : data_visit s = .ok s') :
    waits_on s s' := by
  unfold data_visit at hok
  simp only at hok
  split at hok
  · have hsend : ∀ u : Conn, u.tcb = s.tcb → send_data u = .ok (0, u) := by
      intro u hu
      unfold send_data
      rw [hu, h.state]
    rw [hsend (s.onCtx _) rfl] at hok
    simp only at hok
    rw [if_neg (by decide)] at hok
    obtain rfl := Except.ok.inj hok
    rw [send_waiting_idle (by exact h.control.2)]
    exact h.same (by simp) rfl
  · obtain rfl := Except.ok.inj hok
    exact h.same (by simp) rfl

/-! ## Section 4: New connections -/

/-- No SYN/ACK among the frames. -/
abbrev no_syn_ack (f : Frame) : Prop := ¬ (has f.flags TH_SYN ∧ has f.flags TH_ACK)

theorem reply_rst_no_syn (c : Ctx) (seg : Segment) (seq ack_seq : UInt32) {flags : UInt8}
    (h : has flags TH_SYN = false) : Sends no_syn_ack c (reply_rst c seg seq ack_seq flags) := by
  have hframes := reply_rst_frames c seg seq ack_seq flags
  by_cases hout : (usnet_ipv4_output c).1 = true
  · obtain ⟨f, hf, hflags⟩ := hframes.2 hout
    apply Sends.one hf
    rintro ⟨hsyn, -⟩
    rw [hflags, h] at hsyn
    cases hsyn
  · exact .of_eq (hframes.1 (Bool.not_eq_true _ ▸ hout))

/-- A segment without a connection is refused, or its SYN makes a block. -/
theorem usnet_handle_passive_open_sends {c c' : Ctx} {seg : Segment} {t : Option UsnTcb}
    (h : usnet_handle_passive_open c seg = .ok (c', t)) : Sends no_syn_ack c c' := by
  unfold usnet_handle_passive_open at h
  split at h
  · simp only at h
    split at h
    · obtain ⟨rfl, -⟩ := Prod.mk.inj (Except.ok.inj h)
      exact reply_rst_no_syn _ _ _ _ (by decide)
    · split at h
      · cases h
      · obtain ⟨rfl, -⟩ := Prod.mk.inj (Except.ok.inj h)
        exact reply_rst_no_syn _ _ _ _ (by decide)
      · obtain ⟨rfl, -⟩ := Prod.mk.inj (Except.ok.inj h)
        exact .of_eq rfl
  · split at h
    · obtain ⟨rfl, -⟩ := Prod.mk.inj (Except.ok.inj h)
      exact .of_eq rfl
    · split at h
      · obtain ⟨rfl, -⟩ := Prod.mk.inj (Except.ok.inj h)
        exact reply_rst_no_syn _ _ _ _ (by decide)
      · obtain ⟨rfl, -⟩ := Prod.mk.inj (Except.ok.inj h)
        exact reply_rst_no_syn _ _ _ _ (by decide)

/-- The block's own SYN is not answered. -/
theorem input_segment_listen_frames {s s' : Conn} {seg : Segment} {r : Int}
    (hst : s.tcb.state = .listen) (h : input_segment s seg = .ok (r, s')) :
    s'.ctx.frames = s.ctx.frames := by
  have hcheck : check_segment s seg = .ok (0, s) := by
    unfold check_segment
    rw [if_neg (by rw [hst]; decide)]
  rcases input_segment_cases h with ⟨-, r₀, hneg, hc⟩ | ⟨-, r₀, s₁, -, hc, hs⟩
  · rw [hcheck] at hc
    obtain ⟨rfl, -⟩ := hc
    exact absurd hneg (by decide)
  · rw [hcheck] at hc
    obtain ⟨-, rfl⟩ := hc
    have hn : (note_segment s seg).tcb.state = .listen ∧
        (note_segment s seg).ctx.frames = s.ctx.frames := by simp [hst]
    generalize note_segment s seg = n at *
    have hrst : (process_rst n seg).2.tcb.state = .listen ∧
        (process_rst n seg).2.ctx.frames = n.ctx.frames := by
      unfold process_rst
      split
      · simp only [Conn.onTcb_tcb, hn.1]
        exact ⟨hn.1, rfl⟩
      · exact ⟨hn.1, rfl⟩
    unfold handle_state at hs
    rw [hrst.1] at hs
    obtain rfl := Except.ok.inj hs
    rw [← hn.2, ← hrst.2]
    unfold usnet_handle_listen
    split <;> rfl

theorem usnet_tcp_input_sends {c c' : Ctx} {seg : Segment} {ret : Int} {t : Option UsnTcb}
    (h : usnet_tcp_input c none seg = .ok (ret, c', t)) : Sends no_syn_ack c c' := by
  unfold usnet_tcp_input at h
  cases hopen : usnet_handle_passive_open c seg with
  | error e => simp [hopen, bind, Except.bind] at h
  | ok q =>
    obtain ⟨c₁, t₁⟩ := q
    have hsends := usnet_handle_passive_open_sends hopen
    simp only [hopen, bind, Except.bind, pure, Except.pure] at h
    cases t₁ with
    | none =>
      obtain ⟨-, hct⟩ := Prod.mk.inj (Except.ok.inj h)
      obtain ⟨rfl, -⟩ := Prod.mk.inj hct
      exact hsends
    | some t₁ =>
      obtain ⟨-, l, hcreate⟩ := usnet_handle_passive_open_creates hopen
      simp only at h
      split at h
      · cases h
      · rename_i p hin
        obtain ⟨-, hct⟩ := Prod.mk.inj (Except.ok.inj h)
        obtain ⟨rfl, -⟩ := Prod.mk.inj hct
        exact hsends.congr rfl
          (input_segment_listen_frames (usnet_create_tcb_listen hcreate).1 hin)

/-! ## Section 5: Runs -/

/-- Until it has its send buffer a connection gets no segment that draws an answer,
    and a second message of the application carries the `fd` of the first. -/
def awaits_accept (s : Conn) : LifeEvent → Prop
  | .segment seg => s.tcb.sndvar.sndbuf = none → addressed s.tcb seg →
      timestamp_valid s.tcb seg → ¬ draws_answer s.tcb seg
  | .accept so fd result => s.tcb.sndvar.sndbuf.isSome → so → 0 ≤ result → fd = s.tcb.fd
  | _ => True

/-- A waiting connection is accepted, released, or waits on without a sound. -/
theorem Unaccepted.step {s s' : Conn} {ev : LifeEvent} (h : Unaccepted s.tcb)
    (hc : awaits_accept s ev) (hok : life_conn s ev = .ok s') :
    (Accepted s'.tcb ∧ usnet_tcb_isempty s'.tcb = usnet_tcb_isempty s.tcb) ∨
    waits_on s s' := by
  cases ev with
  | segment seg =>
    right
    unfold life_conn at hok
    by_cases haddr : addressed s.tcb seg
    · simp only [haddr, if_true] at hok
      unfold effect at hok
      split at hok
      · cases hok
      · rename_i r t hin
        obtain rfl := Except.ok.inj hok
        exact input_segment_waiting h (hc h.buffers.1 haddr) hin
    · simp only [haddr] at hok
      obtain rfl := Except.ok.inj hok
      exact h.same (by simp) rfl
  | accept so fd result =>
    obtain rfl := Except.ok.inj hok
    exact usnet_connect_net_handler_waiting h so fd result
  | wrote so_tcb fd =>
    right
    obtain rfl := Except.ok.inj hok
    unfold usnet_write_net_handler
    rw [h.buffers.1]
    exact h.same (by simp) rfl
  | rto =>
    right
    unfold life_conn rto_visit at hok
    simp only at hok
    rw [h.timers.1, if_neg (by decide)] at hok
    obtain rfl := Except.ok.inj hok
    exact h.same (by simp) rfl
  | control =>
    right
    obtain rfl := Except.ok.inj hok
    unfold control_visit
    simp only [Conn.onCtx_tcb, h.control.1]
    exact h.same (by simp) rfl
  | acks =>
    right
    obtain rfl := Except.ok.inj hok
    exact ack_visit_waiting h
  | data =>
    right
    exact data_visit_waiting h hok
  | timewait =>
    right
    obtain rfl := Except.ok.inj hok
    unfold timewait_visit
    rw [h.timers.2.1, if_neg (fun hw => Bool.noConfusion hw.1)]
    exact h.same (by simp) rfl
  | timeout =>
    right
    obtain rfl := Except.ok.inj hok
    rw [h.timers.2.2, if_neg Bool.false_ne_true]
    exact h.same (by simp) rfl
  | write fd bytes =>
    right
    unfold life_conn app_write usnet_write at hok
    simp only [h.buffers.1] at hok
    obtain rfl := Except.ok.inj hok
    exact h.same (by simp) rfl
  | read fd count =>
    right
    obtain rfl := Except.ok.inj hok
    have hsame : SameWait s.tcb (app_read s fd count).tcb := by
      unfold app_read usnet_read
      simp [h.buffers.2]
    exact h.same hsame rfl

/-- An accepted connection stays accepted, under the same `fd`. -/
theorem equipped_kept {s s' : Conn} {ev : LifeEvent} (hlife : LifeInv s.tcb)
    (h : equipped s.tcb) (hc : awaits_accept s ev) (hok : life_conn s ev = .ok s') :
    equipped s'.tcb ∧ s'.tcb.fd = s.tcb.fd := by
  -- most events touch none of the three variables
  have hsame : ∀ c : Core, s'.tcb.core = c → c.fd = s.tcb.fd → c.socket = s.tcb.socket →
      c.sndbuf.isSome → equipped s'.tcb ∧ s'.tcb.fd = s.tcb.fd := by
    rintro c rfl hfd hsocket hsnd
    refine ⟨⟨?_, hsnd⟩, hfd⟩
    rw [show s'.tcb.socket = s.tcb.socket from hsocket, show s'.tcb.fd = s.tcb.fd from hfd]
    exact h.1
  cases life_conn_move hlife hok with
  | control hct => exact hsame _ hct.core rfl rfl h.2
  | closed hcl => exact hsame _ hcl rfl rfl h.2
  | resent _ hre => exact hsame _ hre rfl rfl h.2
  | @joined fd result sndbuf s₁ s' hbuf hcore hctl =>
    by_cases hres : result < 0
    · have heq : s' = s := by
        have hnone : usnet_connect_net_handler s true fd result = s := by
          unfold usnet_connect_net_handler
          rw [if_neg (by decide), if_pos hres]
        exact (Except.ok.inj hok).symm.trans hnone
      rw [heq]
      exact ⟨h, rfl⟩
    · have hfd : fd = s.tcb.fd := hc h.2 rfl (by omega)
      have hend := joined_core hcore hctl
      rcases hbuf with hold | ⟨hnone, -⟩
      · refine hsame _ hend hfd ?_ ?_
        · rw [h.1, hfd]
        · rw [hold]
          exact h.2
      · have hsome := h.2
        rw [hnone] at hsome
        cases hsome
  | written _ _ hw => exact hsame _ hw rfl rfl rfl
  | read hrd => exact hsame _ hrd rfl rfl h.2
  | flushed _ h₀ hfl h₁ =>
    obtain ⟨buf, p, -, hend⟩ := flushed_core h₀ hfl h₁
    exact hsame _ hend rfl rfl rfl
  | opened _ _ _ hop => exact hsame _ hop rfl rfl h.2
  | resynced _ _ _ _ hre => exact hsame _ hre rfl rfl h.2
  | handled _ hh =>
    obtain ⟨hfd, hsocket, -⟩ := hh.kept
    apply hsame _ rfl hfd hsocket
    rcases hh.send with ⟨-, -, hbuf⟩ | ⟨buf, ha⟩
    · rw [show s'.tcb.core.sndbuf = s.tcb.sndvar.sndbuf from hbuf]
      exact h.2
    · rcases ha.data with ⟨-, -, hbuf⟩ | ⟨-, -, hbuf⟩
      · rw [show s'.tcb.core.sndbuf = _ from hbuf]
        rfl
      · rw [show s'.tcb.core.sndbuf = _ from hbuf]
        rfl

/-- So does its ring: a new one is made with the `fd` the connection has. -/
theorem Accepted.step {s s' : Conn} {ev : LifeEvent} (hlife : LifeInv s.tcb)
    (h : Accepted s.tcb) (hc : awaits_accept s ev) (hok : life_conn s ev = .ok s') :
    Accepted s'.tcb := by
  obtain ⟨hown, hfd⟩ := equipped_kept hlife h.own hc hok
  refine ⟨hown, fun buf hbuf => ?_⟩
  rw [hfd]
  cases life_conn_receive hlife hok with
  | kept _ hkept => exact h.ring buf (hkept ▸ hbuf)
  | read _ hread =>
    rw [hread] at hbuf
    obtain ⟨buf₀, hbuf₀, hframe⟩ := usnet_read_frame hbuf
    rw [hframe]
    exact h.ring buf₀ hbuf₀
  | @inserted seg buf₀ buf' r _ hins _ hnew =>
    rw [hnew] at hbuf
    obtain rfl := Option.some.inj hbuf
    rw [(usnet_insert_fragment_kept hins.run).2.1]
    have hmade := hins.buffer
    unfold receive_buffer at hmade
    cases hrcv : s.tcb.rcvvar.rcvbuf with
    | some old =>
      rw [hrcv] at hmade
      obtain rfl := Option.some.inj hmade
      exact h.ring _ hrcv
    | none =>
      rw [hrcv] at hmade
      unfold usnet_get_ringbuf at hmade
      obtain ⟨mem, -, rfl⟩ := Option.map_eq_some_iff.mp hmade
      rfl

/-- Unaccepted or accepted. -/
structure AcceptInv (t : UsnTcb) : Prop where
  life : LifeInv t
  phase : Unaccepted t ∨ Accepted t

theorem AcceptInv.created {c c' : Ctx} {seg : Segment} {ret : Int} {t : UsnTcb}
    (h : usnet_tcp_input c none seg = .ok (ret, c', some t)) : AcceptInv t := by
  have hwait := Unaccepted.created h
  exact ⟨⟨.inl hwait.state, (usnet_tcp_input_created h).send.2.2⟩, .inl hwait⟩

theorem AcceptInv.step {s s' : Conn} {ev : LifeEvent} (h : AcceptInv s.tcb)
    (hc : awaits_accept s ev) (hok : life_conn s ev = .ok s')
    (hlive : usnet_tcb_isempty s'.tcb = false) : AcceptInv s'.tcb := by
  refine ⟨(life_conn_move h.life hok).inv h.life, ?_⟩
  rcases h.phase with hwait | hacc
  · rcases hwait.step hc hok with ⟨hacc, -⟩ | ⟨-, hwait | hempty⟩
    · exact .inr hacc
    · exact .inl hwait
    · rw [hlive] at hempty
      cases hempty
  · exact .inr (hacc.step h.life hc hok)

/-- In every run in which no segment draws an answer before the connection is
    accepted: an established connection is accepted, a read on its `fd` finds its
    receive ring, and no step from a connection that is not accepted, or from
    none, sends a SYN/ACK unless it accepts it. -/
theorem accepted_before_established {o : Option UsnTcb} (h : LifeWhere awaits_accept o) :
    (∀ t, o = some t → (t.state = .established → equipped t) ∧
      ∀ buf, t.rcvvar.rcvbuf = some buf → buf.fd = t.fd ∧
        ∀ count, (usnet_read t.rcvvar.rcvbuf t.fd count).1 = (read_ringbuf buf count).1) ∧
    ∀ c ev c' o', (∀ t, o = some t → awaits_accept ⟨c, t⟩ ev ∧ ¬ equipped t) →
      life_step c o ev = .ok (c', o') →
      (∃ t, o' = some t ∧ equipped t) ∨ Sends no_syn_ack c c' := by
  have hinv : ∀ t, o = some t → usnet_tcb_isempty t = false ∧ AcceptInv t := by
    intro t ht
    rw [ht] at h
    exact h.invariant_live (fun _ _ _ _ _ hin => .created hin)
      (fun _ _ _ _ hi hc hok hlive => hi.step hc hok hlive)
  constructor
  · intro t ht
    rcases (hinv t ht).2.phase with hwait | hacc
    · refine ⟨fun hst => ?_, fun buf hbuf => ?_⟩
      · rw [hwait.state] at hst
        cases hst
      · rw [hwait.buffers.2] at hbuf
        cases hbuf
    · refine ⟨fun _ => hacc.own, fun buf hbuf => ?_⟩
      have hfd := hacc.ring buf hbuf
      refine ⟨hfd, fun count => ?_⟩
      rw [hbuf]
      unfold usnet_read
      simp only
      rw [if_neg (not_not.mpr hfd)]
  · intro c ev c' o' hc hstep
    unfold life_step at hstep
    cases o with
    | some t =>
      obtain ⟨hcond, hnot⟩ := hc t rfl
      simp only at hstep
      split at hstep
      · cases hstep
      · rename_i s hok
        obtain ⟨rfl, rfl⟩ := hstep
        obtain ⟨hlive, hi⟩ := hinv t rfl
        have hwait := hi.phase.resolve_right fun hacc => hnot hacc.own
        rcases hwait.step hcond hok with ⟨hacc, hsame⟩ | ⟨hframes, -⟩
        · left
          refine ⟨s.tcb, ?_, hacc.own⟩
          unfold alive
          rw [hsame, hlive, if_neg Bool.false_ne_true]
        · exact .inr (.of_eq hframes)
    | none =>
      right
      simp only at hstep
      split at hstep
      · split at hstep
        · cases hstep
        · rename_i hin
          obtain ⟨rfl, -⟩ := hstep
          exact usnet_tcp_input_sends hin
      · obtain ⟨rfl, -⟩ := hstep
        exact .of_eq rfl

/-- The SYN of the connection. -/
def opening_syn : Ctx × LifeEvent :=
  (quiet_ctx, .segment (peer_segment 9000 0 TH_SYN [] nil_short))

/-- A stray acknowledgement draws no answer, and all else comes in its order. -/
def patient : List (Ctx × LifeEvent) :=
  [opening_syn, (quiet_ctx, .segment (bare_ack 77)), (quiet_ctx, .accept true 5 0),
    (quiet_ctx, .segment (bare_ack 5001)),
    (quiet_ctx, .segment (peer_segment 9001 5001 TH_ACK [1, 2, 3] (by decide)))]

def patient_tcb : UsnTcb := (life_run none patient).toOption.join.get rfl

theorem patient_awaits : LifeWhere awaits_accept (some patient_tcb) := by
  apply LifeWhere.run (.init rfl) _
    (show life_run none patient = .ok (some patient_tcb) from rfl)
  refine ⟨fun _ ht => (nomatch ht), fun t ht => ?_, fun t ht => ?_, fun t ht => ?_,
    fun t ht => ?_, trivial⟩
  · obtain rfl := Option.some.inj ht
    intro _ _ _
    decide +kernel
  · obtain rfl := Option.some.inj ht
    exact nofun
  · obtain rfl := Option.some.inj ht
    exact nofun
  · obtain rfl := Option.some.inj ht
    exact nofun

theorem accepted_before_established_sample :
    (∀ t, some patient_tcb = some t → (t.state = .established → equipped t) ∧
      ∀ buf, t.rcvvar.rcvbuf = some buf → buf.fd = t.fd ∧
        ∀ count, (usnet_read t.rcvvar.rcvbuf t.fd count).1 = (read_ringbuf buf count).1) ∧
    ∀ c ev c' o', (∀ t, some patient_tcb = some t → awaits_accept ⟨c, t⟩ ev ∧ ¬ equipped t) →
      life_step c (some patient_tcb) ev = .ok (c', o') →
      (∃ t, o' = some t ∧ equipped t) ∨ Sends no_syn_ack c c' :=
  accepted_before_established patient_awaits

/-- The SYN comes a second time before the application has answered. -/
def impatient : List (Ctx × LifeEvent) :=
  [opening_syn, opening_syn, (quiet_ctx, .segment (bare_ack 5001))]

/-- Created, and what is left after the second SYN and its answer are acknowledged. -/
def waiting_tcb : UsnTcb := (life_run none [opening_syn]).toOption.join.get rfl

def early_tcb : UsnTcb := (life_run none impatient).toOption.join.get rfl

/-- Three bytes arrive, and only then the application's message. -/
def late_accept : List (Ctx × LifeEvent) :=
  [(quiet_ctx, .segment (peer_segment 9001 5001 TH_ACK [1, 2, 3] (by decide))),
    (quiet_ctx, .accept true 5 0)]

def late_tcb : UsnTcb := (life_run (some early_tcb) late_accept).toOption.join.get rfl

/-- The second SYN is answered with a SYN/ACK, the peer's acknowledgement
    establishes a connection that has neither socket nor send buffer, and what it
    then receives is not found under the `fd` it is accepted with. -/
theorem established_unaccepted :
    (∃ r, life_step quiet_ctx (some waiting_tcb) opening_syn.2 = .ok r ∧
      r.1.frames.map Frame.flags = [TH_SYN ||| TH_ACK]) ∧ ¬ equipped waiting_tcb ∧
    LifeReachable (some early_tcb) ∧ early_tcb.state = .established ∧
    ¬ equipped early_tcb ∧
    LifeReachable (some late_tcb) ∧ late_tcb.fd = 5 ∧
    late_tcb.rcvvar.rcvbuf.map UsnRingbuf.fd = some 1 ∧
    (usnet_read late_tcb.rcvvar.rcvbuf late_tcb.fd 3).1 = -1 := by
  have hunaccepted : LifeReachable (some early_tcb) :=
    LifeWhere.run (.init rfl) (life_run_meets_true _ _)
      (show life_run none impatient = .ok (some early_tcb) from rfl)
  have hlate : LifeReachable (some late_tcb) :=
    hunaccepted.run (life_run_meets_true _ _)
      (show life_run (some early_tcb) late_accept = .ok (some late_tcb) from rfl)
  refine ⟨⟨_, rfl, rfl⟩, fun ha => ?_, hunaccepted, rfl, fun ha => ?_, hlate, rfl, rfl, rfl⟩
  · cases ha.1
  · cases ha.1

end Usnet
