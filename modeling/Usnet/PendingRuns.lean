import Usnet.Pending

/-! # Runs with the application and the retransmission check

    The process together with what the application writes and reads, and the check
    for timeouts in the place where the dispatcher makes it.
-/

namespace Usnet

open CInt Run

/-! ## Section 1: The events of a connection -/

/-- What holds of every live connection between the events. -/
structure PendInv (t : UsnTcb) : Prop where
  life : LifeInv t
  timed : t.state ≠ .closed → t.pend.Timed

theorem tracked.unclosed_or {st : TcpState} (h : tracked st) : unclosed st ∨ st = .closed := by
  rcases h with h | h | h | h
  · exact .inl (.inl h)
  · exact .inl (.inr (.inl h))
  · exact .inl (.inr (.inr h))
  · exact .inr h

theorem unclosed.ne_closed {st : TcpState} (h : unclosed st) : st ≠ .closed := by
  rcases h with rfl | rfl | rfl <;> decide

theorem PendInv.move {s s' : Conn} {ev : LifeEvent} (h : PendInv s.tcb) (hm : LifeMove s ev s')
    (ht : s.tcb.pend.Timed → unclosed s.tcb.state → TimedOrClosed s') : PendInv s'.tcb := by
  refine ⟨hm.inv h.life, fun hne => ?_⟩
  rcases h.life.state.unclosed_or with hst | hst
  · exact (ht (h.timed hst.ne_closed) hst).resolve_left hne
  · exact absurd (hm.stays_closed hst) hne

theorem KeepsTimed.or_closed {s s' : Conn} (h : KeepsTimed s s') (ht : s.tcb.pend.Timed) :
    TimedOrClosed s' := .inr (h.timed ht)

theorem usnet_connect_net_handler_timed {s : Conn} (hst : unclosed s.tcb.state) (so : Bool)
    (fd : UInt32) (result : Int) : KeepsTimed s (usnet_connect_net_handler s so fd result) := by
  unfold usnet_connect_net_handler
  split
  · exact .of_eq rfl
  split
  · exact .of_eq rfl
  simp only
  split
  · have hadd := usnet_add_control_list_timed
      (s := s.onTcb fun t => { t with socket := some fd, fd := fd }) hst
    exact hadd.before rfl
  · split
    · exact .of_eq rfl
    · rename_i buf _
      generalize ht : Conn.onSnd _ _ = t
      have hpend : t.tcb.pend = { s.tcb.pend with sndbuf := some buf } := by
        rw [← ht]
        rfl
      have hst' : t.tcb.state = s.tcb.state := congrArg PendView.state hpend
      exact (KeepsTimed.of_sndbuf hpend).trans (usnet_add_control_list_timed (hst'.symm ▸ hst))

theorem app_write_timed {s s' : Conn} {fd : UInt32} {bytes : List UInt8}
    (h : app_write s fd bytes = .ok s') : KeepsTimed s s' := by
  unfold app_write usnet_write at h
  split at h
  · cases h
  · rename_i hw
    obtain rfl := Except.ok.inj h
    split at hw
    · obtain ⟨-, rfl⟩ := Prod.mk.inj (Except.ok.inj hw)
      exact .of_eq rfl
    · split at hw
      · obtain ⟨-, rfl⟩ := Prod.mk.inj (Except.ok.inj hw)
        exact .of_eq rfl
      · split at hw
        · cases hw
        · obtain ⟨-, rfl⟩ := Prod.mk.inj (Except.ok.inj hw)
          exact .of_sndbuf rfl

theorem timeout_visit_timed {s : Conn} (h : s.tcb.pend.Timed) : TimedOrClosed (timeout_visit s) := by
  unfold timeout_visit
  split
  · left
    simp only
    split
    · rfl
    · exact (usnet_release_tcb_kept _).2.1
  · exact .inr h

/-- A visit of the check makes the move of a timeout. -/
theorem rtm_visit_move {idx : Nat} {s s' : Conn} (h : tracked s.tcb.state)
    (hok : rtm_visit idx s = .ok s') : LifeMove s .rto s' := by
  unfold rtm_visit at hok
  split at hok
  · split at hok
    · cases hok
    · rename_i r t ht
      obtain rfl := Except.ok.inj hok
      rcases usnet_handle_rto_core h ht with hc | ⟨hc, hnxt⟩
      · exact .closed hc
      · by_cases hs : sending s.tcb.state
        · refine .resent hs ?_
          rw [← hnxt hs]
          exact hc
        · exact .control ⟨hc, fun hs' => absurd hs' hs⟩
  · obtain rfl := Except.ok.inj hok
    exact .control (SameCore.control rfl)

/-- What a block starts with. -/
theorem PendInv.created {c c' : Ctx} {seg : Segment} {ret : Int} {t : UsnTcb}
    (h : usnet_tcp_input c none seg = .ok (ret, c', some t)) : PendInv t := by
  have hc := usnet_tcp_input_created h
  obtain ⟨id, l, -, hlinks⟩ := usnet_tcp_input_opened h
  have htw : t.on_timewait_list = false := congrArg Links.on_timewait_list hlinks
  refine ⟨⟨.inl hc.state, hc.send.2.2⟩, fun _ => ⟨hc.send.2.2, htw, fun _ => hc.send.1, ?_⟩⟩
  intro hgt
  have hsame : t.snd_nxt = t.sndvar.snd_una := hc.unsent.trans hc.send.1.symm
  rw [UsnTcb.pend, hsame] at hgt
  exact absurd hgt (not_gt_self _)

/-! ## Section 2: All connections -/

/-- Every live connection is in order. -/
def AllPend (h : Host) : Prop := ∀ id t, h.tcb id = some t → PendInv t

variable {h : Host}

theorem AllPend.put (hj : AllPend h) {id : Nat} {s : Conn} (hs : PendInv s.tcb) :
    AllPend (h.put id s) := by
  intro y u hu
  by_cases hy : y = id
  · subst hy
    simp only [Host.put, Function.update_self] at hu
    exact (alive_some hu).2 ▸ hs
  · simp only [Host.put, Function.update_of_ne hy] at hu
    exact hj y u hu

/-- A block that is released holds nothing any more. -/
theorem AllPend.drop (hj : AllPend h) {id : Nat} {s : Conn} (hs : alive s.tcb = none) :
    AllPend (h.put id s) := by
  intro y u hu
  by_cases hy : y = id
  · subst hy
    simp only [Host.put, Function.update_self, hs] at hu
    cases hu
  · simp only [Host.put, Function.update_of_ne hy] at hu
    exact hj y u hu

/-- A function of a connection that makes a move and keeps the timer. -/
structure MovesTimed (s s' : Conn) : Prop where
  move : ∃ ev, LifeMove s ev s'
  timed : s.tcb.pend.Timed → unclosed s.tcb.state → TimedOrClosed s'

theorem PendInv.moves {s s' : Conn} (h : PendInv s.tcb) (hm : MovesTimed s s') :
    PendInv s'.tcb := by
  obtain ⟨⟨ev, hmove⟩, ht⟩ := hm
  exact h.move hmove ht

theorem AllPend.on {h' : Host} (hj : AllPend h) {id : Nat} {f : Conn → Except Fault Conn}
    (hf : ∀ t s, h.tcb id = some t → PendInv t → f ⟨h.ctx, t⟩ = .ok s → MovesTimed ⟨h.ctx, t⟩ s)
    (hon : h.on id f = .ok h') : AllPend h' := by
  unfold Host.on at hon
  cases ht : h.tcb id with
  | none =>
    rw [ht] at hon
    obtain rfl := Except.ok.inj hon
    exact hj
  | some t =>
    rw [ht] at hon
    simp only at hon
    split at hon
    · cases hon
    · rename_i s hs
      obtain rfl := Except.ok.inj hon
      have hp : PendInv (Conn.mk h.ctx t).tcb := hj id t ht
      exact hj.put (hp.moves (hf t s ht hp hs))

/-! ## Section 3: Runs -/

inductive PendEvent where
  | host (ev : HostEvent)
  | write (id : Nat) (fd : UInt32) (bytes : List UInt8)
  | read (id : Nat) (fd : UInt32) (count : Nat)
  | rtm (thresh : Int)

/-- One event.  A timeout is handled where the check finds it, and not by itself. -/
def pend_step (h : Host) (ev : PendEvent) (h' : Host) : Prop :=
  match ev with
  | .host ev => (∀ id, ev ≠ .rto id) ∧ host_step h ev h'
  | .write id fd bytes => h.runs id (fun s => app_write s fd bytes) h'
  | .read id fd count => h.runs id (fun s => .ok (app_read s fd count)) h'
  | .rtm thresh => ∃ cnt, usnet_check_rtm_timeout h thresh = .ok (h', cnt)

/-- Nothing has happened. -/
structure PendInit (h : Host) : Prop where
  fresh : h.Fresh
  store : EmptyStore h

/-- The visit is to a connection in SYN_RECEIVED that is not given up, and its
    SYN/ACK leaves at once. -/
def syn_ack_leaves (h : Host) (walk : Nat) : Prop :=
  ∃ t, h.tcb walk = some t ∧ t.state = .syn_received ∧ gives_up t = false ∧
    (usnet_ipv4_output h.ctx).1 = true

/-- No SYN/ACK is resent by the check itself, and no segment leads `snd_nxt` ahead
    of `snd_una` where there is no timer. -/
def keeps_timers (h : Host) : PendEvent → Prop
  | .host (.segment (some id) seg) => ∀ t, h.tcb id = some t → SegmentTimed t seg
  | .rtm thresh => check_visits (fun h walk => ¬ syn_ack_leaves h walk) (fun _ => True) thresh h
  | _ => True

/-- What carries the runs: the queues, the retransmission lists and the timers. -/
structure TimerInv (h : Host) : Prop where
  queues : OutputInv h
  lists : ∃ d, RtoInv d h
  pend : AllPend h

theorem AllPend.host {h' : Host} {ev : HostEvent} (hi : OutputInv h) (hj : AllPend h)
    (hno : ∀ id, ev ≠ .rto id) (hc : keeps_timers h (.host ev)) (hstep : host_step h ev h') :
    AllPend h' := by
  -- each event is a visit of one connection, or a loop of such visits
  cases ev with
  | surroundings e =>
    obtain rfl := hstep
    exact hj
  | clock cur_time =>
    obtain rfl := hstep
    exact hj
  | segment found seg =>
    obtain ⟨hfinds, ret, c, t, hin, rfl⟩ := hstep
    cases found with
    | none =>
      cases t with
      | none => exact hj
      | some t => exact hj.put (PendInv.created hin)
    | some id =>
      obtain ⟨u, hu, -⟩ := hfinds
      simp only [Option.bind_some, hu, usnet_tcp_input, bind, Except.bind, pure, Except.pure] at hin
      split at hin
      · cases hin
      rename_i r hseg
      obtain ⟨-, hct⟩ := Prod.mk.inj (Except.ok.inj hin)
      obtain ⟨rfl, rfl⟩ := Prod.mk.inj hct
      have hp : PendInv (Conn.mk h.ctx u).tcb := hj id u hu
      refine hj.put (hp.moves ⟨⟨_, input_segment_move hp.life.state hp.life.no_fin hseg⟩, ?_⟩)
      exact fun ht hst => input_segment_timed ht hst (hc u hu) hseg
  | rto id => exact absurd rfl (hno id)
  | connect id so fd result =>
    obtain ⟨-, -, h₁, hon, rfl⟩ := hstep
    have hj₁ : AllPend h₁ := by
      refine hj.on (fun t s _ hp hs => ?_) hon
      obtain rfl := Except.ok.inj hs
      exact ⟨⟨_, usnet_connect_net_handler_move hp.life.state so fd result⟩, fun ht hst =>
        (usnet_connect_net_handler_timed hst so fd result).or_closed ht⟩
    split
    · exact hj₁
    · exact hj₁
  | wrote id fd =>
    obtain ⟨t, buf, ht, hbuf, rfl, rfl⟩ := hstep
    split
    · exact hj
    · rw [hi.so_tcb id t buf.fd ht (by rw [hbuf]; rfl)]
      simp only [Host.add_send, ht]
      have hp : PendInv (Conn.mk h.ctx t).tcb := hj id t ht
      refine hj.put (hp.moves ⟨⟨.timeout, .control ?_⟩, fun ht _ => ?_⟩)
      · exact (Same.core (usnet_add_send_list_same _)).control
      · exact (KeepsTimed.of_eq (usnet_add_send_list_pend _)).or_closed ht
  | control thresh =>
    refine (OutputInv.control_loop (fun h h' c _ hj _ hon => ?_) _ hi hj
      (fun c hc => List.mem_of_mem_head? hc) hstep).2
    refine hj.on (fun t s _ hp hs => ?_) hon
    obtain rfl := Except.ok.inj hs
    exact ⟨⟨.control, .control (control_visit_core hp.life.state)⟩, fun ht hst =>
      (control_visit_timed hst).or_closed ht⟩
  | acks thresh =>
    refine (OutputInv.ack_loop (fun h h' c _ hj _ hon => ?_) _ hi hj
      (fun c hc => List.mem_of_mem_head? hc) hstep).2
    refine hj.on (fun t s _ hp hs => ?_) hon
    obtain rfl := Except.ok.inj hs
    exact ⟨⟨.acks, .control (ack_visit_core hp.life.state)⟩, fun ht hst =>
      (ack_visit_timed hst).or_closed ht⟩
  | data thresh =>
    refine (OutputInv.data_loop (fun h h' c _ hj _ hon => ?_) _ hi hj
      (fun c hc => List.mem_of_mem_head? hc) hstep).2
    refine hj.on (fun t s _ hp hs => ?_) hon
    exact ⟨⟨.data, data_visit_move hp.life.state hs⟩, fun ht hst =>
      (data_visit_timed hst hs).or_closed ht⟩
  | release id =>
    obtain ⟨hsome, hon⟩ := hstep
    obtain ⟨t, ht⟩ := Option.isSome_iff_exists.mp hsome
    simp only [Host.on, ht] at hon
    obtain rfl := Except.ok.inj hon
    exact hj.drop (by rw [alive, usnet_release_tcb_empty]; rfl)
  | timeout thresh =>
    refine (OutputInv.timeout_loop (fun h h' c _ hj hon => ?_) _ hi hj hstep).2
    refine hj.on (fun t s _ hp hs => ?_) hon
    obtain rfl := Except.ok.inj hs
    exact ⟨⟨.timeout, timeout_visit_move _⟩, fun ht _ => timeout_visit_timed ht⟩

theorem usnet_write_data_fd {buf buf' : UsnSendbuf} {bytes : List UInt8} {r : Int}
    (h : usnet_write_data buf bytes = some (r, buf')) : buf'.fd = buf.fd := by
  unfold usnet_write_data at h
  simp only at h
  generalize sint (if buf.head > buf.tail then buf.head - buf.tail
    else buf.size + buf.head - buf.tail) = avail_len at h
  split at h
  · obtain ⟨-, rfl⟩ := Prod.mk.inj (Option.some.inj h)
    rfl
  split at h
  · obtain ⟨-, rfl⟩ := Prod.mk.inj (Option.some.inj h)
    rfl
  split at h
  · cases h
  · obtain ⟨-, rfl⟩ := Prod.mk.inj (Option.some.inj h)
    rfl

/-- What the application writes concerns no list. -/
theorem app_write_links {s s' : Conn} {fd : UInt32} {bytes : List UInt8}
    (h : app_write s fd bytes = .ok s') : s'.links = s.links := by
  unfold app_write usnet_write at h
  split at h
  · cases h
  rename_i hw
  obtain rfl := Except.ok.inj h
  split at hw
  · obtain ⟨-, rfl⟩ := Prod.mk.inj (Except.ok.inj hw)
    rfl
  rename_i buf hbuf
  split at hw
  · obtain ⟨-, rfl⟩ := Prod.mk.inj (Except.ok.inj hw)
    rfl
  split at hw
  · cases hw
  · rename_i hdata
    obtain ⟨-, rfl⟩ := Prod.mk.inj (Except.ok.inj hw)
    have hfd := usnet_write_data_fd hdata
    simp only [Conn.links, hbuf, Option.map_some, hfd]
    rfl

/-- Only the queues, the block's address and its buffer's descriptor count. -/
theorem QueueRun.congr {s u s' : Conn} (h : QueueRun s u)
    (hout : s'.links.output = u.links.output) (hid : s'.tcb.id = u.tcb.id)
    (hempty : usnet_tcb_isempty s'.tcb = usnet_tcb_isempty u.tcb)
    (hbuf : s'.tcb.sndvar.sndbuf = u.tcb.sndvar.sndbuf) : QueueRun s s' := by
  refine ⟨h.requeues.trans h.id (.of_output hout), hid.trans h.id, ?_⟩
  rcases h.alive with ⟨halive, hfd⟩ | ⟨hdead, hoff⟩
  · left
    rw [hbuf]
    refine ⟨alive_of_live ?_, hfd⟩
    rw [hempty]
    unfold Usnet.alive at halive
    split at halive
    · cases halive
    · rename_i hlive
      exact Bool.eq_false_iff.mpr hlive
  · right
    refine ⟨?_, congrArg (·.1.1) hout |>.trans hoff.1, congrArg (·.2.1.1) hout |>.trans hoff.2.1,
      congrArg (·.2.2.1) hout |>.trans hoff.2.2⟩
    unfold Usnet.alive at hdead ⊢
    rw [hempty]
    split at hdead
    · rename_i hflag
      rw [if_pos hflag]
    · cases hdead

theorem rtm_visit_queueRun {idx : Nat} {s s' : Conn} (hlive : usnet_tcb_isempty s.tcb = false)
    (h : rtm_visit idx s = .ok s') : QueueRun s s' := by
  unfold rtm_visit at h
  split at h
  · split at h
    · cases h
    · rename_i hrto
      obtain rfl := Except.ok.inj h
      exact ((usnet_handle_rto_outcome hrto).queueRun hlive).congr rfl rfl rfl rfl
  · obtain rfl := Except.ok.inj h
    exact Moves.refl.outcome.queueRun hlive

theorem rearrange_visit_queueRun {s : Conn} (hlive : usnet_tcb_isempty s.tcb = false) :
    QueueRun s (rearrange_visit s) := by
  have hrun : QueueRun s s := Moves.refl.outcome.queueRun hlive
  unfold rearrange_visit
  simp only
  split
  · exact hrun.congr rfl rfl rfl rfl
  · exact hrun

/-- A connection that goes to another list stays timed. -/
theorem rearrange_visit_moves (s : Conn) : MovesTimed s (rearrange_visit s) := by
  unfold rearrange_visit
  simp only
  split
  · refine ⟨⟨.timeout, .control (SameCore.control rfl)⟩, fun ht _ => .inr ?_⟩
    exact ⟨ht.no_fin, ht.timewait, ht.syn, fun _ => Int.natCast_nonneg _⟩
  · exact ⟨⟨.timeout, .control (SameCore.control rfl)⟩, fun ht _ => .inr ht⟩

theorem TimerInv.rearrange (hi : TimerInv h) : TimerInv (usnet_rearrange_rto_store h) := by
  obtain ⟨hq, ⟨d, hd⟩, hp⟩ := hi
  have hrule := rearrange_loop_rule (d := d) (J := fun _ h => OutputInv h ∧ AllPend h)
    (fun h walk rest t hj _ ht _ _ => by
      have hpt : PendInv (Conn.mk h.ctx t).tcb := hj.2 walk t ht
      exact ⟨(hj.1.put ht (rearrange_visit_queueRun (hj.1.live walk t ht))).1,
        hj.2.put (hpt.moves (rearrange_visit_moves _))⟩)
    _ hd ⟨hq, hp⟩ (hd.nodup _) fun _ hx => hx
  exact ⟨hrule.2.1, ⟨d, hrule.1⟩, hrule.2.2⟩

theorem TimerInv.tick (hi : TimerInv h) : TimerInv (rtm_tick h) := by
  obtain ⟨hq, ⟨d, hd⟩, hp⟩ := hi
  have hadvance : TimerInv { h with ctx :=
      { h.ctx with rto_store := rto_advance h.ctx.rto_store } } :=
    ⟨hq.congr rfl, ⟨d, hd.congr rfl rfl rfl⟩, hp⟩
  unfold rtm_tick
  simp only
  split
  · exact hadvance.rearrange
  · exact hadvance

/-- The check keeps everything, as long as no SYN/ACK leaves from it. -/
theorem TimerInv.check_rule : CheckRule (fun h walk => ¬ syn_ack_leaves h walk) (fun _ => True)
    TimerInv (fun _ => TimerInv) where
  start hi _ := hi
  visit idx h h' walk hi hmem hno hon := by
    obtain ⟨hq, ⟨d, hd⟩, hp⟩ := hi
    obtain ⟨hd', hlist⟩ := hd.visit hmem hon
    refine ⟨⟨?_, ⟨_, hd'⟩, ?_⟩, hlist⟩
    · exact (hq.on (fun t s ht hs => rtm_visit_queueRun (hq.live walk t ht) hs) hon).1
    · refine hp.on (fun t s ht hpt hs => ⟨⟨_, rtm_visit_move hpt.life.state hs⟩, fun htimed hst => ?_⟩)
        hon
      have hout : t.state = .syn_received → gives_up t = false →
          (usnet_ipv4_output h.ctx).1 = false := by
        intro hsyn hup
        by_contra hleaves
        exact hno ⟨t, ht, hsyn, hup, Bool.eq_true_of_not_eq_false hleaves⟩
      rcases rtm_visit_timed htimed hst hout hs with hclosed | ⟨-, hkept⟩
      · exact .inl hclosed
      · exact .inr hkept
  stop hi := hi
  tick hi _ _ := hi.tick

theorem TimerInv.fresh (hf : PendInit h) : TimerInv h := by
  refine ⟨.fresh hf.fresh, ⟨0, .empty hf.store⟩, fun id t ht => ?_⟩
  cases (hf.fresh.tcb id).symm.trans ht

/-- A function of the application, which leaves the lists alone. -/
theorem TimerInv.runs (hi : TimerInv h) {h' : Host} {id : Nat} {f : Conn → Except Fault Conn}
    (hlinks : ∀ s s', f s = .ok s' → s'.links = s.links)
    (hmoves : ∀ s s', LifeInv s.tcb → f s = .ok s' → MovesTimed s s')
    (hrun : h.runs id f h') : TimerInv h' := by
  obtain ⟨hq, ⟨d, hd⟩, hp⟩ := hi
  refine ⟨?_, ⟨d, ?_⟩, ?_⟩
  · exact hq.on_outcome (fun s s' hs => (Moves.quiet (hlinks s s' hs)).outcome) hrun.2
  · exact hd.runs (fun s s' hs => (Moves.quiet (hlinks s s' hs)).outcome.timers) hrun
  · exact hp.on (fun t s _ hpt hs => hmoves _ s hpt.life hs) hrun.2

theorem TimerInv.step {h' : Host} {ev : PendEvent} (hi : TimerInv h) (hc : keeps_timers h ev)
    (hstep : pend_step h ev h') : TimerInv h' := by
  cases ev with
  | host ev =>
    obtain ⟨hno, hstep⟩ := hstep
    obtain ⟨hq, ⟨d, hd⟩, hp⟩ := hi
    refine ⟨hq.step hstep, ⟨d, ?_⟩, hp.host hq hno hc hstep⟩
    exact (RtoInv.kept d).step hq hd (fun _ _ => hd.congr rfl rfl rfl) hstep
  | write id fd bytes =>
    refine hi.runs (fun s s' hs => app_write_links hs) (fun s s' _ hs => ?_) hstep
    exact ⟨⟨_, app_write_move hs⟩, fun ht _ => (app_write_timed hs).or_closed ht⟩
  | read id fd count =>
    refine hi.runs (fun s s' hs => ?_) (fun s s' _ hs => ?_) hstep
    · obtain rfl := Except.ok.inj hs
      rfl
    · obtain rfl := Except.ok.inj hs
      exact ⟨⟨.read fd count, .read rfl⟩, fun ht _ => .inr ht⟩
  | rtm thresh =>
    obtain ⟨cnt, hok⟩ := hstep
    exact TimerInv.check_rule.run hi hc hok

/-! ## Section 4: What has not been acknowledged -/

/-- A block is on a retransmission list, the control list or the send list. -/
def Host.pending (h : Host) (id : Nat) : Prop :=
  (∃ k, id ∈ h.ctx.rto_store.rto_list k) ∨ id ∈ h.ctx.control_list ∨ id ∈ h.ctx.send_list

/-- What is not acknowledged will be looked at again. -/
def all_pending (h : Host) : Prop :=
  ∀ id t, h.tcb id = some t → unclosed t.state → TCP_SEQ_GT t.snd_nxt t.sndvar.snd_una →
    h.pending id

/-- The visit of a connection below the retry limit leads to another transmission:
    of the SYN/ACK, or of everything from `snd_una` on. -/
def resends (h : Host) (walk : Nat) : Prop :=
  ∀ t ret s, h.tcb walk = some t → ¬ t.sndvar.nrtx ≥ TCP_MAX_RTX →
    usnet_handle_rto ⟨h.ctx, t⟩ = .ok (ret, s) →
    (t.state = .syn_received → s.tcb.sndvar.on_control_list = true) ∧
    (sending t.state → s.tcb.snd_nxt = t.sndvar.snd_una ∧
      (t.sndvar.sndbuf.isSome → s.tcb.sndvar.on_send_list = true))

theorem TimerInv.all_pending (hi : TimerInv h) : all_pending h := by
  intro id t ht hst hgt
  obtain ⟨d, hd⟩ := hi.lists
  have hidx : 0 ≤ t.on_rto_idx := ((hi.pend id t ht).timed hst.ne_closed).armed hgt
  exact .inl ⟨t.on_rto_idx.toNat, (hd.mem id _).mpr ⟨t, ht, (Int.toNat_of_nonneg hidx).symm⟩⟩

theorem queue_control_on (s : Conn) : (queue_control s).tcb.sndvar.on_control_list = true := by
  unfold queue_control
  split
  · rename_i hon
    exact hon
  · rfl

theorem usnet_add_send_list_on {s : Conn} (h : s.tcb.sndvar.sndbuf.isSome) :
    (usnet_add_send_list s).tcb.sndvar.on_send_list = true := by
  unfold usnet_add_send_list
  rw [if_neg (by simpa [Option.isSome_iff_ne_none] using h)]
  split
  · rename_i hon
    exact hon
  · rfl

/-- A SYN/ACK that cannot leave waits on the control list. -/
theorem retransmit_queued {s : Conn} (hst : s.tcb.state = .syn_received)
    (hout : (usnet_ipv4_output s.ctx).1 = false) :
    (retransmit s).tcb.sndvar.on_control_list = true := by
  unfold retransmit
  simp only [Conn.onTcb_tcb, hst]
  generalize ht : s.onTcb (fun t => { t with snd_nxt := t.sndvar.snd_una }) = t
  have hctx : t.ctx = s.ctx := by
    rw [← ht]
    rfl
  have hstate : t.tcb.state = .syn_received := by
    rw [← ht]
    exact hst
  have hblocked := @usnet_send_tcp_packet_blocked
    (t.onTcb fun t => { t with snd_nxt := t.sndvar.iss }) (TH_SYN ||| TH_ACK)
    (hctx.symm ▸ hout)
  have hneg : (-2 : Int) < 0 := by decide
  unfold usnet_add_control_list usnet_send_control_packet
  simp only [hstate, hblocked]
  rw [if_pos hneg]
  exact queue_control_on _

theorem retransmit_data {s : Conn} (hst : sending s.tcb.state) :
    (retransmit s).tcb.snd_nxt = s.tcb.sndvar.snd_una ∧
    (s.tcb.sndvar.sndbuf.isSome → (retransmit s).tcb.sndvar.on_send_list = true) := by
  unfold retransmit
  rcases hst with hst | hst
  all_goals
    simp only [Conn.onTcb_tcb, hst]
    exact ⟨congrArg PendView.snd_nxt (usnet_add_send_list_pend _),
      fun hsome => usnet_add_send_list_on (by exact hsome)⟩

theorem resends_of_blocked {walk : Nat} (hno : ¬ syn_ack_leaves h walk) : resends h walk := by
  intro t ret s ht hmax hrto
  unfold usnet_handle_rto at hrto
  split at hrto
  · cases hrto
  simp only at hrto
  have hpend := back_off_pend ⟨h.ctx, t⟩
  have hctx : (back_off ⟨h.ctx, t⟩).ctx = h.ctx := by
    unfold back_off
    simp only [Conn.onSnd_ctx]
  generalize back_off ⟨h.ctx, t⟩ = u at hrto hpend hctx
  have hstate : u.tcb.state = t.state := congrArg PendView.state hpend
  simp only [hstate] at hrto
  refine ⟨fun hsyn => ?_, fun hs => ?_⟩
  · simp only [hsyn] at hrto
    obtain ⟨-, rfl⟩ := Prod.mk.inj (Except.ok.inj hrto)
    refine retransmit_queued (hstate.trans hsyn) ?_
    rw [hctx]
    by_contra hleaves
    refine hno ⟨t, ht, hsyn, ?_, Bool.eq_true_of_not_eq_false hleaves⟩
    unfold gives_up
    rw [if_neg hmax, hsyn]
  · have hagain : retransmit u = s := by
      rcases hs with hs | hs
      all_goals
        simp only [hs] at hrto
        exact (Prod.mk.inj (Except.ok.inj hrto)).2
    obtain ⟨hnxt, hsend⟩ := retransmit_data (hstate.symm ▸ hs)
    have huna : u.tcb.sndvar.snd_una = t.sndvar.snd_una := congrArg PendView.snd_una hpend
    have hbuf : u.tcb.sndvar.sndbuf = t.sndvar.sndbuf := congrArg PendView.sndbuf hpend
    rw [← hagain]
    exact ⟨hnxt.trans huna, fun hsome => hsend (hbuf ▸ hsome)⟩

/-- In a run whose checks resend no SYN/ACK themselves and whose segments do not
    lead `snd_nxt` ahead without a timer, what is not acknowledged is on a list at
    every moment, and every check below the retry limit sends again. -/
theorem unacknowledged_pending {h : Host} (hr : RunWhere pend_step keeps_timers PendInit h) :
    all_pending h ∧ ∀ thresh, keeps_timers h (.rtm thresh) →
      check_visits resends (fun _ => True) thresh h := by
  have hi : TimerInv h := hr.invariant (fun _ hf => .fresh hf) fun _ _ _ hi hc hs => hi.step hc hs
  exact ⟨hi.all_pending, fun thresh hc => TimerInv.check_rule.imp
    (fun _ _ _ _ _ hno => resends_of_blocked hno) hi hc⟩

/-! ## Section 5: A SYN/ACK that is lost twice -/

/-- A process whose link is up. -/
def pending_host : Host :=
  { ctx := quiet_ctx, tcb := fun _ => none, so_tcb := fun _ => none }

theorem up_host_init : PendInit pending_host :=
  ⟨⟨fun _ => rfl, fun _ => rfl, ⟨rfl, rfl⟩, ⟨rfl, rfl⟩, ⟨rfl, rfl⟩, ⟨rfl, rfl⟩⟩,
    ⟨fun _ => rfl, rfl, fun _ _ => nofun, fun _ _ => nofun⟩⟩

/-- The check resends the SYN/ACK, which finds the timer running, and then takes the
    connection off the list. -/
theorem unacknowledged_lost : ¬ ∀ h h' thresh, Reachable pend_step PendInit h →
    pend_step h (.rtm thresh) h' → all_pending h' := by
  intro hall
  have hsyn : Reachable pend_step PendInit _ := .next (.init up_host_init)
    (a := .host (.segment none (peer_segment 9000 0 TH_SYN [] (by decide))))
    ⟨fun _ => nofun, fun _ _ => rfl, _, _, _, rfl, rfl⟩ trivial
  have hacc : Reachable pend_step PendInit _ := hsyn.next (a := .host (.connect 7 true 5 0))
    ⟨fun _ => nofun, rfl, rfl, _, rfl, rfl⟩ trivial
  have hdue : Reachable pend_step PendInit _ := hacc.next (a := .host (.clock 1500))
    ⟨fun _ => nofun, rfl⟩ trivial
  have hlost := hall _ _ 512 hdue ⟨_, rfl⟩ 7 _ rfl (.inl rfl) (by decide)
  rcases hlost with ⟨k, hk⟩ | hcontrol | hsend
  · cases k with
    | zero => exact absurd hk (by decide)
    | succ k => exact absurd hk List.not_mem_nil
  · exact absurd hcontrol (by decide)
  · exact absurd hsend (by decide)

/-- With the link down the SYN/ACK waits on the control list. -/
theorem unacknowledged_pending_sample : ∃ h, RunWhere pend_step keeps_timers PendInit h ∧
    h.ctx.rto_store.rto_list 0 = [7] ∧ all_pending h ∧
    check_visits resends (fun _ => True) 512 h := by
  have hsyn : RunWhere pend_step keeps_timers PendInit _ := .next (.init up_host_init)
    (a := .host (.segment none (peer_segment 9000 0 TH_SYN [] (by decide))))
    ⟨fun _ => nofun, fun _ _ => rfl, _, _, _, rfl, rfl⟩ trivial
  have hacc : RunWhere pend_step keeps_timers PendInit _ := hsyn.next
    (a := .host (.connect 7 true 5 0)) ⟨fun _ => nofun, rfl, rfl, _, rfl, rfl⟩ trivial
  have hdown : RunWhere pend_step keeps_timers PendInit _ := hacc.next
    (a := .host (.surroundings ⟨[], none, true, true, true, none, none, 0⟩))
    ⟨fun _ => nofun, rfl⟩ trivial
  have hdue : RunWhere pend_step keeps_timers PendInit _ := hdown.next
    (a := .host (.clock 1500)) ⟨fun _ => nofun, rfl⟩ trivial
  have hsound := unacknowledged_pending hdue
  refine ⟨_, hdue, rfl, hsound.1, hsound.2 512 ?_⟩
  refine Or.inr (Or.inr ⟨Or.inr ⟨?_, trivial⟩, Or.inr ⟨trivial, trivial⟩⟩)
  rintro ⟨-, -, -, -, hout⟩
  exact Bool.false_ne_true hout

end Usnet
