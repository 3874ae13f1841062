import Usnet.Host

/-! # The output queues

    Control, acknowledgement and send list, the flags of the blocks on them and
    the counters: every operation of a connection keeps the three in agreement
    for that connection and moves nobody else, so that between the events each
    list holds exactly the connections whose flag is set, once.
-/

namespace Usnet

open CInt Run FlagList

/-! ## Section 1: One connection -/

/-- The acknowledgement list as a connection sees it. -/
def Conn.ackQ (s : Conn) : Queue Nat :=
  (s.tcb.sndvar.on_ack_list, s.ctx.ack_list, s.ctx.ack_list_cnt)

/-- The three queues are relinked for one connection. -/
structure Requeues (s s' : Conn) : Prop where
  control : Relinks s.tcb.id s.controlQ s'.controlQ
  send : Relinks s.tcb.id s.sendQ s'.sendQ
  ack : Relinks s.tcb.id s.ackQ s'.ackQ

theorem Requeues.refl {s : Conn} : Requeues s s := ⟨.refl, .refl, .refl⟩

theorem Requeues.trans {s t s' : Conn} (h : Requeues s t) (hid : t.tcb.id = s.tcb.id)
    (h' : Requeues t s') : Requeues s s' := by
  obtain ⟨hc, hs, ha⟩ := h'
  rw [hid] at hc hs ha
  exact ⟨h.control.trans hc, h.send.trans hs, h.ack.trans ha⟩

/-- The three queues in the view of the lists. -/
def Links.output (l : Links) : Queue Nat × Queue Nat × Queue Nat :=
  ((l.on_control_list, l.control_list, l.control_list_cnt),
    (l.on_send_list, l.send_list, l.send_list_cnt), (l.on_ack_list, l.ack_list, l.ack_list_cnt))

theorem Requeues.of_output {s s' : Conn} (h : s'.links.output = s.links.output) : Requeues s s' :=
  ⟨.of_eq (congrArg (·.1) h), .of_eq (congrArg (·.2.1) h), .of_eq (congrArg (·.2.2) h)⟩

theorem Requeues.of_links {s s' : Conn} (h : s'.links = s.links) : Requeues s s' :=
  .of_output (congrArg Links.output h)

theorem PacketStep.requeues {s s' : Conn} (h : PacketStep s s') : Requeues s s' := by
  obtain ⟨hcontrol, hsend⟩ := Packets.queues (.single h)
  refine ⟨.of_eq hcontrol, .of_eq hsend, ?_⟩
  -- of the packet's steps only two touch a queue, that of the acknowledgements
  cases h with
  | quiet h => exact (Requeues.of_links h).ack
  | touch =>
    refine .of_eq ?_
    unfold Usnet.touch usnet_update_timeout_list
    split <;> rfl
  | add_rto =>
    refine .of_eq ?_
    unfold usnet_add_rto_list
    simp only
    split
    · split
      · split <;> rfl
      · rfl
    · split
      · split <;> rfl
      · rfl
  | add_ack =>
    unfold usnet_add_ack_list
    split
    · exact .refl
    · rename_i hoff
      have hq : s.ackQ = (false, s.ctx.ack_list, s.ctx.ack_list_cnt) := by
        rw [Conn.ackQ, Bool.eq_false_iff.mpr hoff]
      rw [hq]
      exact .append _ _ _
  | remove_ack =>
    unfold usnet_remove_ack_list
    split
    · rename_i hon
      have hq : s.ackQ = (true, s.ctx.ack_list, s.ctx.ack_list_cnt) := by
        rw [Conn.ackQ, hon]
      rw [hq]
      exact .erase _ _ _
    · exact .refl

theorem ListStep.requeues {s s' : Conn} (h : ListStep s s') : Requeues s s' := by
  -- each step puts the connection on one queue, or takes it off one, or neither
  cases h with
  | packet h => exact h.requeues
  | queue_control =>
    unfold Usnet.queue_control
    split
    · exact .refl
    · rename_i hoff
      have hq : s.controlQ = (false, s.ctx.control_list, s.ctx.control_list_cnt) := by
        rw [Conn.controlQ, Bool.eq_false_iff.mpr hoff]
      refine ⟨?_, .refl, .refl⟩
      rw [hq]
      exact .append _ _ _
  | requeue_control hoff =>
    have hq : s.controlQ = (false, s.ctx.control_list, s.ctx.control_list_cnt) := by
      rw [Conn.controlQ, hoff]
    refine ⟨?_, .refl, .refl⟩
    rw [hq]
    exact .cons _ _ _
  | remove_control =>
    unfold usnet_remove_control_list
    split
    · rename_i hon
      have hq : s.controlQ = (true, s.ctx.control_list, s.ctx.control_list_cnt) := by
        rw [Conn.controlQ, hon]
      refine ⟨?_, .refl, .refl⟩
      rw [hq]
      exact .erase _ _ _
    · exact .refl
  | add_send =>
    unfold usnet_add_send_list
    split
    · exact .refl
    split
    · exact .refl
    · rename_i hoff
      have hq : s.sendQ = (false, s.ctx.send_list, s.ctx.send_list_cnt) := by
        rw [Conn.sendQ, Bool.eq_false_iff.mpr hoff]
      refine ⟨.refl, ?_, .refl⟩
      rw [hq]
      exact .append _ _ _
  | remove_send =>
    unfold usnet_remove_send_list
    split
    · rename_i hon
      have hq : s.sendQ = (true, s.ctx.send_list, s.ctx.send_list_cnt) := by
        rw [Conn.sendQ, hon]
      refine ⟨.refl, ?_, .refl⟩
      rw [hq]
      exact .erase _ _ _
    · exact .refl
  | remove_rto =>
    unfold usnet_remove_rto_list
    split
    · exact .refl
    · exact ⟨.refl, .refl, .refl⟩
  | add_timeout _ _ h =>
    unfold usnet_add_timeout_list at h
    split at h
    · cases h
    · obtain rfl := Except.ok.inj h
      exact ⟨.refl, .refl, .refl⟩
  | remove_timeout =>
    unfold usnet_remove_timeout_list
    split
    · exact ⟨.refl, .refl, .refl⟩
    · exact .refl
  | add_timewait h =>
    unfold usnet_add_timewait_list at h
    simp only at h
    split at h
    · obtain rfl := Except.ok.inj h
      exact ⟨.refl, .refl, .refl⟩
    · split at h
      · cases h
      · obtain rfl := Except.ok.inj h
        exact ⟨.refl, .refl, .refl⟩
  | unlink_timewait => exact ⟨.refl, .refl, .refl⟩

theorem Moves.requeues {s s' : Conn} (h : Moves s s') : Requeues s s' := by
  induction h with
  | refl => exact .refl
  | tail hm hstep ih => exact ih.trans (Moves.framed hm).id hstep.requeues

/-- The flags of a block, when it has been released. -/
def Off (t : UsnTcb) : Prop :=
  t.sndvar.on_control_list = false ∧ t.sndvar.on_send_list = false ∧
    t.sndvar.on_ack_list = false

/-- What a function does to a live connection: it relinks the queues, and leaves
    them when it releases the block. -/
structure QueueRun (s s' : Conn) : Prop where
  requeues : Requeues s s'
  id : s'.tcb.id = s.tcb.id
  alive : alive s'.tcb = some s'.tcb ∧
      s'.tcb.sndvar.sndbuf.map UsnSendbuf.fd = s.tcb.sndvar.sndbuf.map UsnSendbuf.fd ∨
    alive s'.tcb = none ∧ Off s'.tcb

theorem alive_of_live {t : UsnTcb} (h : usnet_tcb_isempty t = false) : alive t = some t := by
  rw [alive, h]
  rfl

theorem Outcome.queueRun {s s' : Conn} (hlive : usnet_tcb_isempty s.tcb = false)
    (h : Outcome s s') : QueueRun s s' := by
  rcases h with h | h
  · have hf := h.framed
    exact ⟨h.requeues, hf.id, .inl ⟨alive_of_live (hf.empty.trans hlive), hf.buf_fd⟩⟩
  · obtain ⟨t, ht, hoff, hlinks⟩ := h.unlinked
    have hq : Requeues t s' := .of_output ((congrArg Links.output hlinks).trans rfl)
    refine ⟨ht.requeues.trans ht.framed.id hq, (congrArg Links.id hlinks).trans ht.framed.id,
      .inr ⟨?_, ?_, ?_, ?_⟩⟩
    · have hempty : usnet_tcb_isempty s'.tcb = true := congrArg Links.empty hlinks
      rw [alive, hempty]
      rfl
    · exact (congrArg Links.on_control_list hlinks).trans hoff.control
    · exact (congrArg Links.on_send_list hlinks).trans hoff.send
    · exact (congrArg Links.on_ack_list hlinks).trans hoff.ack

/-- Relinking before the function. -/
theorem QueueRun.after {s t s' : Conn} (h : Requeues s t) (hf : Framed s t)
    (h' : QueueRun t s') : QueueRun s s' := by
  refine ⟨h.trans hf.id h'.requeues, h'.id.trans hf.id, ?_⟩
  rcases h'.alive with ⟨ha, hfd⟩ | hdead
  · exact .inl ⟨ha, hfd.trans hf.buf_fd⟩
  · exact .inr hdead

/-- A visit of the send list, where the connection is off the list while its data
    is sent. -/
theorem data_visit_queueRun {s s' : Conn} (hlive : usnet_tcb_isempty s.tcb = false)
    (hon : s.tcb.sndvar.on_send_list = true) (h : data_visit s = .ok s') : QueueRun s s' := by
  obtain ⟨t, ht, hend⟩ := data_visit_cases hon h
  have hq := ht.moves.requeues
  have hf := ht.moves.framed
  have hsend : t.sendQ = (true, s.ctx.send_list.erase s.tcb.id, s.ctx.send_list_cnt) := by
    rw [ht.queues.2, Conn.sendQ]
    simp only [take_send, Conn.onCtx_tcb, Conn.onCtx_ctx, hon]
  have hon' : t.tcb.sndvar.on_send_list = true := congrArg Prod.fst hsend
  have hlist : t.ctx.send_list = s.ctx.send_list.erase s.tcb.id :=
    congrArg (fun q => q.2.1) hsend
  have hcnt : t.ctx.send_list_cnt = s.ctx.send_list_cnt := congrArg (fun q => q.2.2) hsend
  have hid : t.tcb.id = s.tcb.id := hf.id
  have hold : s.sendQ = (true, s.ctx.send_list, s.ctx.send_list_cnt) := by
    rw [Conn.sendQ, hon]
  rcases hend with rfl | hend
  · refine ⟨⟨hq.control, ?_, hq.ack⟩, hid,
      .inl ⟨alive_of_live (hf.empty.trans hlive), hf.buf_fd⟩⟩
    have hnew : (put_send t).sendQ
        = (true, s.ctx.send_list.erase s.tcb.id ++ [s.tcb.id], s.ctx.send_list_cnt) := by
      rw [Conn.sendQ]
      simp only [put_send, Conn.onCtx_tcb, Conn.onCtx_ctx, hon', hlist, hcnt, hid]
    rw [hold, hnew]
    exact .move _ _ _
  · have hnew : (drop_send t).sendQ
        = (false, s.ctx.send_list.erase s.tcb.id, s.ctx.send_list_cnt - 1) := by
      rw [Conn.sendQ]
      simp only [drop_send, Conn.onCtx_tcb, Conn.onCtx_ctx, Conn.onSnd_tcb, Conn.onSnd_ctx, hlist,
        hcnt]
    have hdrop : Requeues s (drop_send t) := by
      refine ⟨hq.control, ?_, hq.ack⟩
      rw [hold, hnew]
      exact .erase _ _ _
    have hframed : Framed s (drop_send t) :=
      ⟨hid, hf.empty, hf.buf_fd, hf.cur_time, hf.tcp_timeout⟩
    have hlive' : usnet_tcb_isempty (drop_send t).tcb = false := hf.empty.trans hlive
    exact (hend.queueRun hlive').after hdrop hframed

/-! ## Section 2: All connections -/

/-- A list holds the live blocks with their flag set, each once, and is counted. -/
structure Listed (h : Host) (flag : UsnTcb → Bool) (list : List Nat) (cnt : Int) : Prop where
  nodup : list.Nodup
  mem : ∀ id, id ∈ list ↔ ∃ t, h.tcb id = some t ∧ flag t = true
  cnt : cnt = list.length

/-- The three lists are in order. -/
structure OutputQueues (h : Host) : Prop where
  control : Listed h (·.sndvar.on_control_list) h.ctx.control_list h.ctx.control_list_cnt
  ack : Listed h (·.sndvar.on_ack_list) h.ctx.ack_list h.ctx.ack_list_cnt
  send : Listed h (·.sndvar.on_send_list) h.ctx.send_list h.ctx.send_list_cnt

/-- With the blocks in their places, and every send buffer's descriptor leading to
    the connection that has it. -/
structure OutputInv (h : Host) : Prop where
  queues : OutputQueues h
  id : ∀ id t, h.tcb id = some t → t.id = id
  live : ∀ id t, h.tcb id = some t → usnet_tcb_isempty t = false
  so_tcb : ∀ id t fd, h.tcb id = some t → t.sndvar.sndbuf.map UsnSendbuf.fd = some fd →
    h.so_tcb fd = some id

theorem Listed.linked {h : Host} {flag : UsnTcb → Bool} {l : List Nat} {n : Int}
    (hl : Listed h flag l n) {id : Nat} {t : UsnTcb} (ht : h.tcb id = some t) :
    Linked id (flag t, l, n) := by
  refine ⟨hl.nodup, ?_, hl.cnt⟩
  rw [hl.mem id]
  constructor
  · rintro ⟨t', ht', hflag⟩
    obtain rfl := Option.some.inj (ht.symm.trans ht')
    exact hflag
  · exact fun hflag => ⟨t, ht, hflag⟩

/-- A function that relinks one block keeps the list in order. -/
theorem Listed.put {h : Host} {flag : UsnTcb → Bool} {l l' : List Nat} {n n' : Int} {id : Nat}
    {b : Bool} {s : Conn} (hl : Listed h flag l n) (hold : Linked id (b, l, n))
    (hq : Relinks id (b, l, n) (flag s.tcb, l', n'))
    (halive : alive s.tcb = some s.tcb ∨ alive s.tcb = none ∧ flag s.tcb = false) :
    Listed (h.put id s) flag l' n' := by
  have hnew := hq.linked hold
  refine ⟨hnew.nodup, fun y => ?_, hnew.cnt⟩
  by_cases hy : y = id
  · subst hy
    rw [hnew.mem, Host.put]
    simp only [Function.update_self]
    rcases halive with ha | ⟨ha, hoff⟩
    · simp [ha]
    · simp [ha, hoff]
  · rw [hq.others y hy, hl.mem y, Host.put]
    simp only [Function.update_of_ne hy]

/-- The others stay where they are. -/
structure OthersKept (id : Nat) (h h' : Host) : Prop where
  control : ∀ y, y ≠ id → (y ∈ h'.ctx.control_list ↔ y ∈ h.ctx.control_list)
  ack : ∀ y, y ≠ id → (y ∈ h'.ctx.ack_list ↔ y ∈ h.ctx.ack_list)
  send : ∀ y, y ≠ id → (y ∈ h'.ctx.send_list ↔ y ∈ h.ctx.send_list)

/-- One connection's queues are relinked. -/
theorem OutputQueues.put {h : Host} (hq : OutputQueues h) {id : Nat} {t : UsnTcb} {s : Conn}
    (ht : h.tcb id = some t) (hid : t.id = id) (hrun : Requeues ⟨h.ctx, t⟩ s)
    (halive : alive s.tcb = some s.tcb ∨ alive s.tcb = none ∧ Off s.tcb) :
    OutputQueues (h.put id s) ∧ OthersKept id h (h.put id s) := by
  obtain ⟨hc, hs, ha⟩ := hrun
  simp only [hid] at hc hs ha
  refine ⟨⟨?_, ?_, ?_⟩, hc.others, ha.others, hs.others⟩
  · exact hq.control.put (hq.control.linked ht) hc (halive.imp_right fun h => ⟨h.1, h.2.1⟩)
  · exact hq.ack.put (hq.ack.linked ht) ha (halive.imp_right fun h => ⟨h.1, h.2.2.2⟩)
  · exact hq.send.put (hq.send.linked ht) hs (halive.imp_right fun h => ⟨h.1, h.2.2.1⟩)

/-- A block takes its place, with the queues in order. -/
theorem OutputInv.placed {h : Host} (hi : OutputInv h) {id : Nat} {s : Conn}
    (hq : OutputQueues (h.put id s)) (hid : s.tcb.id = id)
    (hfd : ∀ fd, alive s.tcb = some s.tcb → s.tcb.sndvar.sndbuf.map UsnSendbuf.fd = some fd →
      h.so_tcb fd = some id) : OutputInv (h.put id s) := by
  have hput : ∀ u, (h.put id s).tcb id = some u → u = s.tcb ∧ usnet_tcb_isempty u = false := by
    intro u hu
    simp only [Host.put, Function.update_self] at hu
    unfold Usnet.alive at hu
    split at hu
    · cases hu
    · rename_i hempty
      obtain rfl := Option.some.inj hu
      exact ⟨rfl, Bool.eq_false_iff.mpr hempty⟩
  have hkept : ∀ y, y ≠ id → (h.put id s).tcb y = h.tcb y := by
    intro y hy
    simp only [Host.put, Function.update_of_ne hy]
  refine ⟨hq, ?_, ?_, ?_⟩
  all_goals intro y u
  · intro hu
    by_cases hy : y = id
    · subst hy
      rw [(hput u hu).1, hid]
    · rw [hkept y hy] at hu
      exact hi.id y u hu
  · intro hu
    by_cases hy : y = id
    · subst hy
      exact (hput u hu).2
    · rw [hkept y hy] at hu
      exact hi.live y u hu
  · intro fd hu hbuf
    by_cases hy : y = id
    · subst hy
      obtain ⟨rfl, hlive⟩ := hput u hu
      exact hfd fd (alive_of_live hlive) hbuf
    · rw [hkept y hy] at hu
      exact hi.so_tcb y u fd hu hbuf

/-- One function of one connection. -/
theorem OutputInv.put {h : Host} (hi : OutputInv h) {id : Nat} {t : UsnTcb} {s : Conn}
    (ht : h.tcb id = some t) (hrun : QueueRun ⟨h.ctx, t⟩ s) :
    OutputInv (h.put id s) ∧ OthersKept id h (h.put id s) := by
  have hid := hi.id id t ht
  obtain ⟨hq, hkept⟩ := hi.queues.put ht hid hrun.requeues (hrun.alive.imp_left (·.1))
  refine ⟨hi.placed hq (hrun.id.trans hid) fun fd hsome hfd => ?_, hkept⟩
  rcases hrun.alive with ⟨-, hsfd⟩ | ⟨hnone, -⟩
  · exact hi.so_tcb id t fd ht (hsfd.symm.trans hfd)
  · cases hnone.symm.trans hsome

theorem OutputInv.on {h h' : Host} (hi : OutputInv h) {id : Nat} {f : Conn → Except Fault Conn}
    (hf : ∀ t s, h.tcb id = some t → f ⟨h.ctx, t⟩ = .ok s → QueueRun ⟨h.ctx, t⟩ s)
    (hon : h.on id f = .ok h') : OutputInv h' ∧ OthersKept id h h' := by
  unfold Host.on at hon
  cases ht : h.tcb id with
  | none =>
    rw [ht] at hon
    obtain rfl := Except.ok.inj hon
    exact ⟨hi, fun _ _ => Iff.rfl, fun _ _ => Iff.rfl, fun _ _ => Iff.rfl⟩
  | some t =>
    rw [ht] at hon
    simp only at hon
    split at hon
    · cases hon
    · rename_i s hs
      obtain rfl := Except.ok.inj hon
      exact hi.put ht (hf t s ht hs)

/-- A function of a live connection that is known by its outcome. -/
theorem OutputInv.on_outcome {h h' : Host} (hi : OutputInv h) {id : Nat}
    {f : Conn → Except Fault Conn} (hf : ∀ s s', f s = .ok s' → Outcome s s')
    (hon : h.on id f = .ok h') : OutputInv h' :=
  (hi.on (fun t s ht hs => (hf _ s hs).queueRun (hi.live id t ht)) hon).1

/-- The successor in a list is on the list, and another. -/
theorem tailq_next_mem {l : List Nat} (hl : l.Nodup) {x y : Nat} (hx : x ∈ l)
    (h : tailq_next l x = some y) : y ∈ l ∧ y ≠ x := by
  unfold tailq_next at h
  obtain ⟨hlt, hget⟩ := List.getElem?_eq_some_iff.mp h
  refine ⟨hget ▸ List.getElem_mem hlt, ?_⟩
  rintro rfl
  have hidx := hl.idxOf_getElem (l.idxOf y + 1) hlt
  rw [hget] at hidx
  omega

/-- The walk over the control list, for the invariant and whatever else a visit keeps. -/
theorem OutputInv.control_loop {J : Host → Prop} {last : Option Nat}
    (hvisit : ∀ h h' c, OutputInv h → J h → c ∈ h.ctx.control_list →
      h.on c (fun s => .ok (control_visit s)) = .ok h' → J h') :
    ∀ (cnt : Nat) {h h' : Host} {cur : Option Nat}, OutputInv h → J h →
      (∀ c, cur = some c → c ∈ h.ctx.control_list) →
      control_loop last cnt h cur = .ok h' → OutputInv h' ∧ J h'
  | 0, h, h', cur, hi, hj, _, hok => by
    obtain rfl := Except.ok.inj hok
    exact ⟨hi, hj⟩
  | cnt + 1, h, h', none, hi, hj, _, hok => by
    obtain rfl := Except.ok.inj hok
    exact ⟨hi, hj⟩
  | cnt + 1, h, h', some c, hi, hj, hcur, hok => by
    unfold Usnet.control_loop at hok
    simp only at hok
    split at hok
    · cases hok
    rename_i h₁ hon
    have hc := hcur c rfl
    have hj₁ := hvisit h h₁ c hi hj hc hon
    obtain ⟨hi₁, hkept⟩ := hi.on (fun t s ht hs => by
      obtain ⟨t', ht', hflag⟩ := (hi.queues.control.mem c).mp hc
      obtain rfl := Option.some.inj (ht.symm.trans ht')
      obtain rfl := Except.ok.inj hs
      exact (control_visit_outcome hflag).queueRun (hi.live c t ht)) hon
    split at hok
    · obtain rfl := Except.ok.inj hok
      exact ⟨hi₁, hj₁⟩
    split at hok
    · obtain rfl := Except.ok.inj hok
      exact ⟨hi₁, hj₁⟩
    · refine OutputInv.control_loop hvisit cnt hi₁ hj₁ (fun n hn => ?_) hok
      obtain ⟨hmem, hne⟩ := tailq_next_mem hi.queues.control.nodup hc hn
      exact (hkept.control n hne).mpr hmem

/-- The walk over the acknowledgement list. -/
theorem OutputInv.ack_loop {J : Host → Prop} {last : Option Nat}
    (hvisit : ∀ h h' c, OutputInv h → J h → c ∈ h.ctx.ack_list →
      h.on c (fun s => .ok (ack_visit s)) = .ok h' → J h') :
    ∀ (cnt : Nat) {h h' : Host} {cur : Option Nat}, OutputInv h → J h →
      (∀ c, cur = some c → c ∈ h.ctx.ack_list) →
      ack_loop last cnt h cur = .ok h' → OutputInv h' ∧ J h'
  | 0, h, h', cur, hi, hj, _, hok => by
    obtain rfl := Except.ok.inj hok
    exact ⟨hi, hj⟩
  | cnt + 1, h, h', none, hi, hj, _, hok => by
    obtain rfl := Except.ok.inj hok
    exact ⟨hi, hj⟩
  | cnt + 1, h, h', some c, hi, hj, hcur, hok => by
    unfold Usnet.ack_loop at hok
    simp only at hok
    split at hok
    · cases hok
    rename_i h₁ hon
    have hc := hcur c rfl
    have hj₁ := hvisit h h₁ c hi hj hc hon
    obtain ⟨hi₁, hkept⟩ := hi.on (fun t s ht hs => by
      obtain ⟨t', ht', hflag⟩ := (hi.queues.ack.mem c).mp hc
      obtain rfl := Option.some.inj (ht.symm.trans ht')
      obtain rfl := Except.ok.inj hs
      exact (ack_visit_outcome hflag).queueRun (hi.live c t ht)) hon
    split at hok
    · obtain rfl := Except.ok.inj hok
      exact ⟨hi₁, hj₁⟩
    · refine OutputInv.ack_loop hvisit cnt hi₁ hj₁ (fun n hn => ?_) hok
      obtain ⟨hmem, hne⟩ := tailq_next_mem hi.queues.ack.nodup hc hn
      exact (hkept.ack n hne).mpr hmem

/-- The walk over the send list. -/
theorem OutputInv.data_loop {J : Host → Prop} {last : Option Nat}
    (hvisit : ∀ h h' c, OutputInv h → J h → c ∈ h.ctx.send_list →
      h.on c data_visit = .ok h' → J h') :
    ∀ (cnt : Nat) {h h' : Host} {cur : Option Nat}, OutputInv h → J h →
      (∀ c, cur = some c → c ∈ h.ctx.send_list) →
      data_loop last cnt h cur = .ok h' → OutputInv h' ∧ J h'
  | 0, h, h', cur, hi, hj, _, hok => by
    obtain rfl := Except.ok.inj hok
    exact ⟨hi, hj⟩
  | cnt + 1, h, h', none, hi, hj, _, hok => by
    obtain rfl := Except.ok.inj hok
    exact ⟨hi, hj⟩
  | cnt + 1, h, h', some c, hi, hj, hcur, hok => by
    unfold Usnet.data_loop at hok
    simp only at hok
    split at hok
    · cases hok
    rename_i h₁ hon
    have hc := hcur c rfl
    have hj₁ := hvisit h h₁ c hi hj hc hon
    obtain ⟨hi₁, hkept⟩ := hi.on (fun t s ht hs => by
      obtain ⟨t', ht', hflag⟩ := (hi.queues.send.mem c).mp hc
      obtain rfl := Option.some.inj (ht.symm.trans ht')
      exact data_visit_queueRun (hi.live c t ht) hflag hs) hon
    split at hok
    · obtain rfl := Except.ok.inj hok
      exact ⟨hi₁, hj₁⟩
    split at hok
    · obtain rfl := Except.ok.inj hok
      exact ⟨hi₁, hj₁⟩
    · refine OutputInv.data_loop hvisit cnt hi₁ hj₁ (fun n hn => ?_) hok
      obtain ⟨hmem, hne⟩ := tailq_next_mem hi.queues.send.nodup hc hn
      exact (hkept.send n hne).mpr hmem

/-- The walk over the timeout list, which concerns the queues only where it
    releases a block. -/
theorem OutputInv.timeout_loop {J : Host → Prop}
    (hvisit : ∀ h h' c, OutputInv h → J h → h.on c (fun s => .ok (timeout_visit s)) = .ok h' → J h') :
    ∀ (cnt : Nat) {h h' : Host} {cur : Option Nat}, OutputInv h → J h →
      timeout_loop cnt h cur = .ok h' → OutputInv h' ∧ J h'
  | 0, h, h', cur, hi, hj, hok => by
    obtain rfl := Except.ok.inj hok
    exact ⟨hi, hj⟩
  | cnt + 1, h, h', none, hi, hj, hok => by
    obtain rfl := Except.ok.inj hok
    exact ⟨hi, hj⟩
  | cnt + 1, h, h', some c, hi, hj, hok => by
    unfold Usnet.timeout_loop at hok
    simp only at hok
    split at hok
    · split at hok
      · cases hok
      rename_i h₁ hon
      refine OutputInv.timeout_loop hvisit cnt (hi.on_outcome (fun s s' hs => ?_) hon)
        (hvisit h h₁ c hi hj hon) hok
      obtain rfl := Except.ok.inj hs
      exact timeout_visit_outcome s
    · obtain rfl := Except.ok.inj hok
      exact ⟨hi, hj⟩

/-! ## Section 3: All events -/

/-- The three lists and their counters. -/
def Ctx.queues (c : Ctx) : (List Nat × Int) × (List Nat × Int) × (List Nat × Int) :=
  ((c.control_list, c.control_list_cnt), (c.ack_list, c.ack_list_cnt),
    (c.send_list, c.send_list_cnt))

/-- The same of what the functions of a connection are known to leave. -/
def Links.queues (l : Links) : (List Nat × Int) × (List Nat × Int) × (List Nat × Int) :=
  ((l.control_list, l.control_list_cnt), (l.ack_list, l.ack_list_cnt),
    (l.send_list, l.send_list_cnt))

/-- Only the blocks and the lists count. -/
theorem Listed.congr {h h' : Host} {flag : UsnTcb → Bool} {l : List Nat} {n : Int}
    (hl : Listed h flag l n) (htcb : h'.tcb = h.tcb) : Listed h' flag l n :=
  ⟨hl.nodup, fun id => by rw [htcb, hl.mem], hl.cnt⟩

theorem OutputQueues.congr {h h' : Host} (hq : OutputQueues h) (htcb : h'.tcb = h.tcb)
    (hctx : h'.ctx.queues = h.ctx.queues) : OutputQueues h' := by
  unfold Ctx.queues at hctx
  simp only [Prod.mk.injEq] at hctx
  obtain ⟨⟨hc, hcn⟩, ⟨ha, han⟩, ⟨hs, hsn⟩⟩ := hctx
  refine ⟨?_, ?_, ?_⟩
  · rw [hc, hcn]
    exact hq.control.congr htcb
  · rw [ha, han]
    exact hq.ack.congr htcb
  · rw [hs, hsn]
    exact hq.send.congr htcb

theorem OutputInv.congr {h : Host} (hi : OutputInv h) {c : Ctx} (hctx : c.queues = h.ctx.queues) :
    OutputInv { h with ctx := c } :=
  ⟨hi.queues.congr rfl hctx, hi.id, hi.live, hi.so_tcb⟩

theorem Listed.absent {h : Host} {flag : UsnTcb → Bool} {l : List Nat} {n : Int}
    (hl : Listed h flag l n) {id : Nat} (hid : h.tcb id = none) : Linked id (false, l, n) := by
  refine ⟨hl.nodup, ?_, hl.cnt⟩
  rw [hl.mem id, hid]
  simp

/-- A block in a free slot, on none of the lists. -/
theorem OutputInv.create {h : Host} (hi : OutputInv h) {id : Nat} {s : Conn}
    (hid : s.tcb.id = id) (hfree : h.tcb id = none) (hoff : Off s.tcb)
    (hbuf : s.tcb.sndvar.sndbuf.map UsnSendbuf.fd = none) (hctx : s.ctx.queues = h.ctx.queues) :
    OutputInv (h.put id s) := by
  obtain ⟨hoffc, hoffs, hoffa⟩ := hoff
  unfold Ctx.queues at hctx
  simp only [Prod.mk.injEq] at hctx
  obtain ⟨⟨hc, hcn⟩, ⟨ha, han⟩, ⟨hs, hsn⟩⟩ := hctx
  have halive : alive s.tcb = some s.tcb ∨ alive s.tcb = none := by
    unfold Usnet.alive
    split
    · exact .inr rfl
    · exact .inl rfl
  refine hi.placed ⟨?_, ?_, ?_⟩ hid fun fd _ hfd => ?_
  · refine hi.queues.control.put (hi.queues.control.absent hfree) (.of_eq ?_) ?_
    · rw [hoffc, ← hc, ← hcn]
      rfl
    · exact halive.imp_right fun h => ⟨h, hoffc⟩
  · refine hi.queues.ack.put (hi.queues.ack.absent hfree) (.of_eq ?_) ?_
    · rw [hoffa, ← ha, ← han]
      rfl
    · exact halive.imp_right fun h => ⟨h, hoffa⟩
  · refine hi.queues.send.put (hi.queues.send.absent hfree) (.of_eq ?_) ?_
    · rw [hoffs, ← hs, ← hsn]
      rfl
    · exact halive.imp_right fun h => ⟨h, hoffs⟩
  · rw [hbuf] at hfd
    cases hfd

/-- A segment that no connection is found for. -/
theorem OutputInv.opened {h : Host} (hi : OutputInv h) {seg : Segment} {ret : Int} {c : Ctx}
    {t : Option UsnTcb} (hfree : ∀ id, h.ctx.tcb_cache = some id → h.tcb id = none) :
    usnet_tcp_input h.ctx none seg = .ok (ret, c, t) →
    OutputInv (match t with
      | none => { h with ctx := c }
      | some t => h.put t.id ⟨c, t⟩) := by
  intro hin
  have hlinks := usnet_tcp_input_opened hin
  cases t with
  | none => exact hi.congr (congrArg Links.queues (hlinks (init_newtcb c 0 ⟨0, 0, 0⟩ 0 0 0 0)))
  | some t =>
    obtain ⟨id, l, hid, hnew⟩ := hlinks
    have htid : t.id = id := congrArg Links.id hnew
    have hoff : Off t := ⟨congrArg Links.on_control_list hnew,
      congrArg Links.on_send_list hnew, congrArg Links.on_ack_list hnew⟩
    exact hi.create rfl (htid ▸ hfree id hid) hoff (congrArg Links.buf_fd hnew)
      (congrArg Links.queues hnew)

/-- A segment of a connection. -/
theorem OutputInv.input {h : Host} (hi : OutputInv h) {id : Nat} {t : UsnTcb} (ht : h.tcb id = some t)
    {seg : Segment} {ret : Int} {s : Conn} (hin : input_segment ⟨h.ctx, t⟩ seg = .ok (ret, s)) :
    OutputInv (h.put s.tcb.id s) := by
  have hrun := (input_segment_outcome hin).queueRun (hi.live id t ht)
  have hid : s.tcb.id = id := hrun.id.trans (hi.id id t ht)
  rw [hid]
  exact (hi.put ht hrun).1

/-- An accepted connection, whose descriptor leads to no connection yet. -/
theorem OutputInv.connect {h h₁ : Host} (hi : OutputInv h) {id : Nat} {so : Bool} {fd : UInt32}
    {result : Int} {t : UsnTcb} (ht : h.tcb id = some t) (hfree : h.so_tcb fd = none)
    (hon : h.on id (fun s => .ok (usnet_connect_net_handler s so fd result)) = .ok h₁) :
    OutputInv (if so ∧ 0 ≤ result then { h₁ with so_tcb := Function.update h.so_tcb fd (some id) }
      else h₁) := by
  unfold Host.on at hon
  rw [ht] at hon
  obtain rfl := Except.ok.inj hon
  have hlive := hi.live id t ht
  by_cases hacc : so ∧ 0 ≤ result
  · rw [if_pos hacc]
    obtain ⟨u, buf_fd, hlinks, hbuf, hout⟩ :=
      usnet_connect_net_handler_outcome ⟨h.ctx, t⟩ so fd result
    -- the descriptor is new, so nobody else's entry is overwritten
    have hother : ∀ fd' y, h.so_tcb fd' = some y → fd' ≠ fd := by
      rintro fd' y hy rfl
      cases hfree.symm.trans hy
    have hsock : OutputInv { h with so_tcb := Function.update h.so_tcb fd (some id) } := by
      refine ⟨hi.queues.congr rfl rfl, hi.id, hi.live, fun y v fd' hv hfd' => ?_⟩
      have hold := hi.so_tcb y v fd' hv hfd'
      exact (Function.update_of_ne (hother fd' y hold) _ _).trans hold
    have hrun : Requeues ⟨h.ctx, t⟩ u := .of_output ((congrArg Links.output hlinks).trans rfl)
    have hid : u.tcb.id = id := (congrArg Links.id hlinks).trans (hi.id id t ht)
    have hulive : usnet_tcb_isempty u.tcb = false := (congrArg Links.empty hlinks).trans hlive
    have hplaced := hsock.placed (hsock.queues.put ht (hi.id id t ht) hrun
      (.inl (alive_of_live hulive))).1 hid ?_
    · have hut : (Host.put { h with so_tcb := Function.update h.so_tcb fd (some id) } id u).tcb id
          = some u.tcb := (Function.update_self ..).trans (alive_of_live hulive)
      have hput := (hplaced.put hut (hout.queueRun hulive)).1
      simp only [Host.put, Function.update_idem] at hput
      exact hput
    · intro fd' _ hfd'
      have hu : u.tcb.sndvar.sndbuf.map UsnSendbuf.fd = buf_fd := congrArg Links.buf_fd hlinks
      rw [hu] at hfd'
      rcases hbuf with hbuf | hbuf
      · have hold := hi.so_tcb id t fd' ht (hbuf.symm.trans hfd')
        exact (Function.update_of_ne (hother fd' id hold) _ _).trans hold
      · obtain rfl := Option.some.inj (hbuf.symm.trans hfd')
        exact Function.update_self ..
  · rw [if_neg hacc]
    have hsame : usnet_connect_net_handler ⟨h.ctx, t⟩ so fd result = ⟨h.ctx, t⟩ := by
      unfold usnet_connect_net_handler
      by_cases hso : so = false
      · rw [if_pos hso]
      · rw [if_neg hso, if_pos]
        have hneg : ¬ 0 ≤ result := fun hres => hacc ⟨by simpa using hso, hres⟩
        omega
    rw [hsame]
    exact (hi.put ht (Moves.refl.outcome.queueRun hlive)).1

/-- Data to send for the connection that has the buffer. -/
theorem OutputInv.wrote {h : Host} (hi : OutputInv h) {id : Nat} {t : UsnTcb} {buf : UsnSendbuf}
    (ht : h.tcb id = some t) (hbuf : t.sndvar.sndbuf = some buf) :
    OutputInv (if buf.head = buf.tail then h
      else match h.so_tcb buf.fd with
        | none => h
        | some id => h.add_send id) := by
  split
  · exact hi
  · rw [hi.so_tcb id t buf.fd ht (by rw [hbuf]; rfl)]
    simp only [Host.add_send, ht]
    exact (hi.put ht ((Moves.one (.add_send ⟨h.ctx, t⟩)).outcome.queueRun (hi.live id t ht))).1

/-- Every event keeps the queues in order. -/
theorem OutputInv.step {h h' : Host} {ev : HostEvent} (hi : OutputInv h)
    (hstep : host_step h ev h') : OutputInv h' := by
  cases ev with
  | surroundings e =>
    obtain rfl := hstep
    exact hi.congr rfl
  | clock cur_time =>
    obtain rfl := hstep
    exact hi.congr rfl
  | segment found seg =>
    obtain ⟨hfinds, ret, c, t, hin, rfl⟩ := hstep
    cases found with
    | none => exact hi.opened hfinds hin
    | some id =>
      obtain ⟨u, hu, -⟩ := hfinds
      simp only [Option.bind_some, hu, usnet_tcp_input, bind, Except.bind, pure, Except.pure] at hin
      split at hin
      · cases hin
      rename_i r hseg
      obtain ⟨-, hct⟩ := Prod.mk.inj (Except.ok.inj hin)
      obtain ⟨rfl, rfl⟩ := Prod.mk.inj hct
      exact hi.input hu hseg
  | rto id =>
    refine hi.on_outcome (fun s s' hs => ?_) hstep.2
    unfold effect at hs
    split at hs
    · cases hs
    · rename_i r s₁ hrto
      obtain rfl := Except.ok.inj hs
      exact usnet_handle_rto_outcome hrto
  | connect id so fd result =>
    obtain ⟨hsome, hfree, h₁, hon, rfl⟩ := hstep
    obtain ⟨t, ht⟩ := Option.isSome_iff_exists.mp hsome
    exact hi.connect ht hfree hon
  | wrote id fd =>
    obtain ⟨t, buf, ht, hbuf, rfl, rfl⟩ := hstep
    exact hi.wrote ht hbuf
  | control thresh =>
    exact (OutputInv.control_loop (fun _ _ _ _ _ _ _ => trivial) _ hi trivial
      (fun c hc => List.mem_of_mem_head? hc) hstep).1
  | acks thresh =>
    exact (OutputInv.ack_loop (fun _ _ _ _ _ _ _ => trivial) _ hi trivial
      (fun c hc => List.mem_of_mem_head? hc) hstep).1
  | data thresh =>
    exact (OutputInv.data_loop (fun _ _ _ _ _ _ _ => trivial) _ hi trivial
      (fun c hc => List.mem_of_mem_head? hc) hstep).1
  | release id =>
    refine hi.on_outcome (fun s s' hs => ?_) hstep.2
    obtain rfl := Except.ok.inj hs
    exact released s
  | timeout thresh =>
    exact (OutputInv.timeout_loop (fun _ _ _ _ _ _ => trivial) _ hi trivial hstep).1

theorem OutputInv.fresh {h : Host} (hf : h.Fresh) : OutputInv h := by
  have hnone : ∀ id t, h.tcb id ≠ some t := by
    intro id t ht
    cases (hf.tcb id).symm.trans ht
  have hlisted : ∀ (flag : UsnTcb → Bool) (l : List Nat) (n : Int), l = [] ∧ n = 0 →
      Listed h flag l n := by
    rintro flag l n ⟨rfl, rfl⟩
    refine ⟨List.nodup_nil, fun id => ?_, rfl⟩
    simp only [List.not_mem_nil, false_iff]
    rintro ⟨t, ht, -⟩
    exact hnone id t ht
  exact ⟨⟨hlisted _ _ _ hf.control, hlisted _ _ _ hf.ack, hlisted _ _ _ hf.send⟩,
    fun id t ht => absurd ht (hnone id t), fun id t ht => absurd ht (hnone id t),
    fun id t _ ht => absurd ht (hnone id t)⟩

/-- The states the process reaches. -/
abbrev HostReachable : Host → Prop := Reachable host_step Host.Fresh

theorem HostReachable.inv {h : Host} (hr : HostReachable h) : OutputInv h :=
  hr.invariant (fun _ hf => .fresh hf) fun _ _ _ hi _ hstep => hi.step hstep

/-- Between the events each of the three lists holds exactly the live connections
    whose flag is set, each once, and its counter is its length.  A released block
    is not live. -/
theorem output_queues {h : Host} (hr : HostReachable h) : OutputQueues h := hr.inv.queues

/-! ## Section 4: A queued connection -/

/-- A process whose link is down. -/
def down_host : Host :=
  { ctx := { quiet_ctx with tx := [] }, tcb := fun _ => none, so_tcb := fun _ => none }

theorem down_host_fresh : down_host.Fresh :=
  ⟨fun _ => rfl, fun _ => rfl, ⟨rfl, rfl⟩, ⟨rfl, rfl⟩, ⟨rfl, rfl⟩, ⟨rfl, rfl⟩⟩

/-- A connection whose SYN/ACK waits for the link. -/
theorem output_queues_sample :
    ∃ h, h.ctx.control_list = [7] ∧ OutputQueues h := by
  have hsyn : HostReachable _ := .next (.init down_host_fresh)
    (a := .segment none (peer_segment 9000 0 TH_SYN [] (by decide)))
    ⟨fun _ _ => rfl, _, _, _, rfl, rfl⟩ trivial
  have hacc : HostReachable _ := .next hsyn (a := .connect 7 true 5 0)
    ⟨rfl, rfl, _, rfl, rfl⟩ trivial
  exact ⟨_, rfl, output_queues hacc⟩

end Usnet
