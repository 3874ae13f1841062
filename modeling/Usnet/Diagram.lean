import Usnet.Links
import Usnet.Sent

/-! # The states of a connection (tcp.c, timer.c)

    The handlers of `usnet_tcp_input` know all eleven states, also those no
    connection of this stack gets to.  The diagram says which state may follow
    which; every event of any connection takes an arc of it or none, and a segment
    only the arc its flags and numbers call for.
-/

namespace Usnet

open CInt Run

/-! ## Section 1: The diagram -/

/-- The arcs of the code. -/
inductive Arc : TcpState → TcpState → Prop
  | syn : Arc .listen .syn_received
  | crossed : Arc .syn_sent .syn_received
  | refused : Arc .syn_sent .close_wait
  | opened : Arc .syn_received .established
  | passive_close : Arc .established .close_wait
  | fin_acked : Arc .fin_wait_1 .fin_wait_2
  | fin_crossed : Arc .fin_wait_1 .closing
  | fin_both : Arc .fin_wait_1 .time_wait
  | fin : Arc .fin_wait_2 .time_wait
  | closing_acked : Arc .closing .time_wait
  | ended {st : TcpState} : st ≠ .closed → Arc st .closed

/-- How far a state is from the beginning. -/
def TcpState.rank : TcpState → Nat
  | .listen => 0 | .syn_sent => 1 | .syn_received => 2 | .established => 3
  | .fin_wait_1 => 4 | .close_wait => 4 | .fin_wait_2 => 5 | .closing => 5 | .last_ack => 5
  | .time_wait => 6 | .closed => 7

/-- No arc leads back. -/
theorem Arc.rank_lt {st st' : TcpState} (h : Arc st st') : st.rank < st'.rank := by
  cases h with
  | ended hne => cases st <;> first | decide | exact absurd rfl hne
  | _ => decide

/-- Where the arcs from `st` lead, any number of them. -/
abbrev Path : TcpState → TcpState → Prop := Relation.ReflTransGen Arc

theorem Path.rank {st st' : TcpState} (h : Path st st') :
    st' = st ∨ st.rank < st'.rank := by
  induction h with
  | refl => exact .inl rfl
  | tail _ harc ih =>
    right
    have hlt := harc.rank_lt
    rcases ih with rfl | ih
    · exact hlt
    · omega

/-- CLOSED is left by nothing. -/
theorem Path.from_closed {st : TcpState} (h : Path .closed st) : st = .closed := by
  rcases h.rank with h | h
  · exact h
  · cases st <;> exact absurd h (by decide)

/-- What a SYN begins never gets to the states of a connection the application
    closes. -/
theorem Path.from_listen {st : TcpState} (h : Path .listen st) : st = .listen ∨ tracked st := by
  induction h with
  | refl => exact .inl rfl
  | tail _ harc ih =>
    right
    rcases ih with rfl | hst
    · cases harc with
      | syn => exact .inl rfl
      | ended => exact .inr (.inr (.inr rfl))
    · cases harc with
      | opened => exact .inr (.inl rfl)
      | passive_close => exact .inr (.inr (.inl rfl))
      | ended => exact .inr (.inr (.inr rfl))
      | _ => rcases hst with hst | hst | hst | hst <;> cases hst

/-! ## Section 2: What a segment calls for -/

/-- The segment acknowledges the FIN that was sent. -/
def fin_acknowledged (t : UsnTcb) (seg : Segment) : Prop :=
  seg.has TH_ACK ∧ t.sndvar.is_fin_sent ∧ seg.ack_seq = t.sndvar.fss + 1

/-- The states in which a segment's payload is taken. -/
def taking (st : TcpState) : Prop := st = .established ∨ st = .fin_wait_1 ∨ st = .fin_wait_2

/-- The states a reset ends at once. -/
def ended_by_reset (t : UsnTcb) (seg : Segment) : Prop :=
  t.state = .syn_received ∧ seg.ack_seq = t.rcv_nxt ∨
  t.state ∈ [.fin_wait_1, .fin_wait_2, .last_ack, .closing, .time_wait]

/-- The arcs with what a segment must bring to take them. -/
inductive SegmentArc (t : UsnTcb) (seg : Segment) (st : TcpState) : Prop
  | stays : st = t.state → SegmentArc t seg st
  | syn : t.state = .listen → seg.has TH_SYN → st = .syn_received → SegmentArc t seg st
  | crossed : t.state = .syn_sent → seg.has TH_SYN → ¬ seg.has TH_ACK → ¬ seg.has TH_RST →
      st = .syn_received → SegmentArc t seg st
  | refused : t.state = .syn_sent → seg.has TH_RST → seg.has TH_ACK →
      ¬ TCP_SEQ_LEQ seg.ack_seq t.sndvar.iss → ¬ TCP_SEQ_GT seg.ack_seq t.snd_nxt →
      st = .close_wait → SegmentArc t seg st
  | opened : t.state = .syn_received → seg.has TH_ACK → seg.ack_seq = t.sndvar.iss + 1 →
      st = .established → SegmentArc t seg st
  | passive_close : t.state = .established → seg.has TH_FIN → st = .close_wait →
      SegmentArc t seg st
  | reset : sending t.state → seg.has TH_RST → st = .close_wait → SegmentArc t seg st
  | torn : ended_by_reset t seg → seg.has TH_RST → st = .closed → SegmentArc t seg st
  | no_mem : taking t.state → 0 < seg.payload.length → st = .closed → SegmentArc t seg st
  | fin_acked : t.state = .fin_wait_1 → fin_acknowledged t seg → st = .fin_wait_2 →
      SegmentArc t seg st
  | fin_crossed : t.state = .fin_wait_1 → seg.has TH_FIN → st = .closing → SegmentArc t seg st
  | fin_both : t.state = .fin_wait_1 → fin_acknowledged t seg → seg.has TH_FIN →
      st = .time_wait → SegmentArc t seg st
  | fin : t.state = .fin_wait_2 → seg.has TH_ACK → seg.has TH_FIN → st = .time_wait →
      SegmentArc t seg st
  | closing_acked : t.state = .closing → fin_acknowledged t seg → st = .time_wait →
      SegmentArc t seg st
  | last_acked : t.state = .last_ack → fin_acknowledged t seg → st = .closed →
      SegmentArc t seg st

/-- Without its guard it is an arc of the diagram. -/
theorem SegmentArc.arc {t : UsnTcb} {seg : Segment} {st : TcpState} (h : SegmentArc t seg st) :
    st = t.state ∨ Arc t.state st := by
  cases h with
  | stays h => exact .inl h
  | syn ht _ h => rw [ht, h]; exact .inr .syn
  | crossed ht _ _ _ h => rw [ht, h]; exact .inr .crossed
  | refused ht _ _ _ _ h => rw [ht, h]; exact .inr .refused
  | opened ht _ _ h => rw [ht, h]; exact .inr .opened
  | passive_close ht _ h => rw [ht, h]; exact .inr .passive_close
  | reset ht _ h =>
    rcases ht with ht | ht
    · rw [ht, h]; exact .inr .passive_close
    · rw [ht, h]; exact .inl rfl
  | torn ht _ h =>
    rw [h]
    refine .inr (.ended fun hcl => ?_)
    rcases ht with ⟨ht, -⟩ | ht
    · rw [hcl] at ht; cases ht
    · rw [hcl] at ht; simp at ht
  | no_mem ht _ h =>
    rw [h]
    refine .inr (.ended fun hcl => ?_)
    rcases ht with ht | ht | ht <;> rw [hcl] at ht <;> cases ht
  | fin_acked ht _ h => rw [ht, h]; exact .inr .fin_acked
  | fin_crossed ht _ h => rw [ht, h]; exact .inr .fin_crossed
  | fin_both ht _ _ h => rw [ht, h]; exact .inr .fin_both
  | fin ht _ _ h => rw [ht, h]; exact .inr .fin
  | closing_acked ht _ h => rw [ht, h]; exact .inr .closing_acked
  | last_acked ht _ h => rw [ht, h]; exact .inr (.ended (by decide))

/-! ## Section 3: The handlers -/

theorem ok_of_bind {α β : Type} {x : Except Fault α} {f : α → Except Fault β} {b : β}
    (h : (x >>= f) = .ok b) : ∃ a, x = .ok a ∧ f a = .ok b := by
  cases x with
  | error e => cases h
  | ok a => exact ⟨a, rfl, h⟩

section
variable {s s' : Conn} {seg : Segment}

theorem usnet_handle_listen_arc (hst : s.tcb.state = .listen) :
    SegmentArc s.tcb seg (usnet_handle_listen s seg).tcb.state := by
  unfold usnet_handle_listen
  by_cases hsyn : seg.has TH_SYN
  · rw [if_pos hsyn]
    exact .syn hst hsyn (by simp [usnet_raise_connect_event])
  · rw [if_neg hsyn]
    exact .stays rfl

theorem usnet_handle_syn_sent_arc (hst : s.tcb.state = .syn_sent) :
    SegmentArc s.tcb seg (usnet_handle_syn_sent s seg).tcb.state := by
  unfold usnet_handle_syn_sent
  by_cases hbad : seg.has TH_ACK ∧ (TCP_SEQ_LEQ seg.ack_seq s.tcb.sndvar.iss ∨
      TCP_SEQ_GT seg.ack_seq s.tcb.snd_nxt)
  · rw [if_pos hbad]
    split
    · exact .stays rfl
    · exact .stays rfl
  · rw [if_neg hbad]
    simp only
    by_cases hrst : seg.has TH_RST
    · rw [if_pos hrst]
      by_cases hack : seg.has TH_ACK
      · simp only [if_pos hack]
        obtain ⟨hlow, hhigh⟩ := not_or.mp fun h => hbad ⟨hack, h⟩
        refine .refused hst hrst hack hlow hhigh ?_
        split <;> simp
      · simp only [if_neg hack]
        exact .stays rfl
    · rw [if_neg hrst]
      by_cases hsyn : seg.has TH_SYN ∧ ¬ seg.has TH_ACK
      · rw [if_pos hsyn]
        exact .crossed hst hsyn.1 hsyn.2 hrst (by simp)
      · rw [if_neg hsyn]
        refine .stays ?_
        split <;> rfl

theorem usnet_handle_syn_received_arc (hst : s.tcb.state = .syn_received)
    (h : usnet_handle_syn_received s seg = .ok s') : SegmentArc s.tcb seg s'.tcb.state := by
  rcases usnet_handle_syn_received_cases h with ⟨-, -, rfl⟩ | ⟨hack, hseq, he⟩ | ⟨-, rfl⟩
  · exact .stays rfl
  · exact .opened hst hack hseq he.state
  · exact .stays (by simp)

/-- The payload leaves the state alone, or closes the connection for want of a
    buffer. -/
theorem payload_state {stored refused : AckOpt} (h : handle_payload s seg stored refused = .ok s') :
    s'.tcb.state = s.tcb.state ∨ 0 < seg.payload.length ∧ s'.tcb.state = .closed := by
  rcases handle_payload_done h with ⟨-, rfl⟩ | ⟨hlen, r, hd⟩
  · exact .inl rfl
  · exact hd.kept.2.imp_right fun hcl => ⟨hlen, hcl⟩

theorem usnet_handle_established_arc (hst : s.tcb.state = .established)
    (h : usnet_handle_established s seg = .ok s') : SegmentArc s.tcb seg s'.tcb.state := by
  by_cases hsyn : seg.has TH_SYN
  · obtain ⟨-, -, hsame, -⟩ := usnet_handle_established_syn hst hsyn h
    exact .stays hsame.2.2.2.2
  · obtain ⟨s₁, s₂, hpay, hack, rfl⟩ := usnet_handle_established_parts (by simpa using hsyn) h
    have hst₂ : s₂.tcb.state = s₁.tcb.state := by simp [established_ack_kept hack]
    by_cases hfin : seg.has TH_FIN ∧ seg.seq = s₂.tcb.rcv_nxt
    · exact .passive_close hst hfin.1 (established_fin_taken hfin.1 hfin.2).1
    · have hst₃ : (established_fin s₂ seg).tcb.state = s₁.tcb.state := by
        simp [established_fin_other hfin, hst₂]
      rw [hst₃]
      rcases payload_state hpay with hsame | ⟨hlen, hcl⟩
      · exact .stays hsame
      · exact .no_mem (.inl hst) hlen hcl

theorem usnet_handle_close_wait_arc (hst : s.tcb.state = .close_wait)
    (h : usnet_handle_close_wait s seg = .ok s') : SegmentArc s.tcb seg s'.tcb.state :=
  .stays ((usnet_handle_close_wait_state hst h).1.trans hst.symm)

/-- The acknowledgement of a FIN. -/
theorem fin_acked_cases (s : Conn) (seg : Segment) :
    (s.tcb.sndvar.is_fin_sent ∧ seg.ack_seq = s.tcb.sndvar.fss + 1) ∧
      (fin_acked s seg).tcb.state = .fin_wait_2 ∨
    fin_acked s seg = s := by
  unfold fin_acked
  by_cases hfin : s.tcb.sndvar.is_fin_sent ∧ seg.ack_seq = s.tcb.sndvar.fss + 1
  · rw [if_pos hfin]
    exact .inl ⟨hfin, rfl⟩
  · rw [if_neg hfin]
    exact .inr rfl

theorem fin_wait1_fin_state (h : fin_wait1_fin s seg = .ok s') :
    s'.tcb.state = s.tcb.state ∨
    seg.has TH_FIN ∧ (s.tcb.state = .fin_wait_1 ∧ s'.tcb.state = .closing ∨
      s.tcb.state = .fin_wait_2 ∧ s'.tcb.state = .time_wait) := by
  unfold fin_wait1_fin at h
  by_cases hfin : seg.has TH_FIN ∧ seg.seq = s.tcb.rcv_nxt
  · rw [if_pos hfin] at h
    simp only [Conn.onTcb_tcb] at h
    split at h
    · rename_i hst
      obtain rfl := Except.ok.inj h
      exact .inr ⟨hfin.1, .inl ⟨hst, by simp⟩⟩
    · rename_i hst
      obtain ⟨t, hadd, hend⟩ := ok_of_bind h
      obtain rfl := Except.ok.inj hend
      refine .inr ⟨hfin.1, .inr ⟨hst, ?_⟩⟩
      simp [usnet_add_timewait_list_state hadd]
    · obtain rfl := Except.ok.inj h
      exact .inl (by simp)
  · rw [if_neg hfin] at h
    obtain rfl := Except.ok.inj h
    exact .inl rfl

theorem usnet_handle_fin_wait1_arc (hst : s.tcb.state = .fin_wait_1)
    (h : usnet_handle_fin_wait1 s seg = .ok s') : SegmentArc s.tcb seg s'.tcb.state := by
  unfold usnet_handle_fin_wait1 at h
  by_cases hlt : TCP_SEQ_LT seg.seq s.tcb.rcv_nxt
  · rw [if_pos hlt] at h
    obtain rfl := Except.ok.inj h
    exact .stays (by simp)
  · rw [if_neg hlt] at h
    by_cases hack : seg.has TH_ACK
    · rw [if_pos hack] at h
      obtain ⟨s₁, hack₁, h⟩ := ok_of_bind h
      obtain ⟨s₂, hpay, hfin⟩ := ok_of_bind h
      have hkept := (process_ack_if_buffered_outcome hack₁).kept
      have hst₁ : s₁.tcb.state = .fin_wait_1 := by simp [hkept, hst]
      rcases payload_state hpay with hst₂ | ⟨hlen, hcl⟩
      · -- the FIN part sees the state the acknowledgement has left
        rcases fin_acked_cases s₁ seg with ⟨⟨hsent, hseq⟩, hwait₂⟩ | hnone
        · have hacked : fin_acknowledged s.tcb seg := by
            refine ⟨hack, ?_, ?_⟩
            · simpa [hkept] using hsent
            · simpa [hkept] using hseq
          rw [hwait₂] at hst₂
          rcases fin_wait1_fin_state hfin with hsame | ⟨hf, ⟨hw, -⟩ | ⟨-, htw⟩⟩
          · exact .fin_acked hst hacked (hsame.trans hst₂)
          · rw [hst₂] at hw
            cases hw
          · exact .fin_both hst hacked hf htw
        · rw [hnone, hst₁] at hst₂
          rcases fin_wait1_fin_state hfin with hsame | ⟨hf, ⟨-, hclosing⟩ | ⟨hw, -⟩⟩
          · exact .stays (hsame.trans (hst₂.trans hst.symm))
          · exact .fin_crossed hst hf hclosing
          · rw [hst₂] at hw
            cases hw
      · refine .no_mem (.inr (.inl hst)) hlen ?_
        rcases fin_wait1_fin_state hfin with hsame | ⟨-, ⟨hw, -⟩ | ⟨hw, -⟩⟩
        · exact hsame.trans hcl
        · rw [hcl] at hw
          cases hw
        · rw [hcl] at hw
          cases hw
    · rw [if_neg hack] at h
      obtain rfl := Except.ok.inj h
      exact .stays rfl

theorem usnet_handle_closing_arc (hst : s.tcb.state = .closing)
    (h : usnet_handle_closing s seg = .ok s') : SegmentArc s.tcb seg s'.tcb.state := by
  unfold usnet_handle_closing at h
  by_cases hack : seg.has TH_ACK
  · rw [if_pos hack] at h
    obtain ⟨s₁, hack₁, h⟩ := ok_of_bind h
    have hkept := (process_ack_if_buffered_outcome hack₁).kept
    split at h
    · obtain rfl := Except.ok.inj h
      exact .stays (by simp [hkept])
    · rename_i hsent
      split at h
      · obtain rfl := Except.ok.inj h
        exact .stays (by simp [hkept])
      · rename_i hseq
        obtain ⟨s₂, -, hadd⟩ := ok_of_bind h
        refine .closing_acked hst ⟨hack, ?_, ?_⟩ (usnet_add_timewait_list_state hadd)
        · simpa [hkept] using hsent
        · simpa [hkept] using hseq
  · rw [if_neg hack] at h
    obtain rfl := Except.ok.inj h
    exact .stays rfl

theorem usnet_handle_last_ack_arc (hst : s.tcb.state = .last_ack)
    (h : usnet_handle_last_ack s seg = .ok s') : SegmentArc s.tcb seg s'.tcb.state := by
  unfold usnet_handle_last_ack at h
  by_cases hlt : TCP_SEQ_LT seg.seq s.tcb.rcv_nxt
  · rw [if_pos hlt] at h
    obtain rfl := Except.ok.inj h
    exact .stays rfl
  · rw [if_neg hlt] at h
    by_cases hack : seg.has TH_ACK
    · rw [if_pos hack] at h
      obtain ⟨s₁, hack₁, h⟩ := ok_of_bind h
      have hkept := (process_ack_if_buffered_outcome hack₁).kept
      split at h
      · obtain rfl := Except.ok.inj h
        exact .stays (by simp [hkept])
      · rename_i hsent
        split at h
        · rename_i hseq
          obtain ⟨s₂, -, hend⟩ := ok_of_bind h
          obtain rfl := Except.ok.inj hend
          refine .last_acked hst ⟨hack, ?_, ?_⟩ (by simp)
          · simpa [hkept] using hsent
          · simpa [hkept] using hseq
        · obtain rfl := Except.ok.inj h
          exact .stays (by simp [hkept])
    · rw [if_neg hack] at h
      obtain rfl := Except.ok.inj h
      exact .stays (by simp)

theorem usnet_handle_fin_wait2_arc (hst : s.tcb.state = .fin_wait_2)
    (h : usnet_handle_fin_wait2 s seg = .ok s') : SegmentArc s.tcb seg s'.tcb.state := by
  unfold usnet_handle_fin_wait2 at h
  by_cases hack : seg.has TH_ACK
  · rw [if_pos hack] at h
    obtain ⟨s₁, hack₁, h⟩ := ok_of_bind h
    obtain ⟨s₂, hpay, h⟩ := ok_of_bind h
    have hkept := (process_ack_if_buffered_outcome hack₁).kept
    have hst₁ : s₁.tcb.state = s.tcb.state := by simp [hkept]
    split at h
    · rename_i hfin
      obtain ⟨s₃, hadd, hend⟩ := ok_of_bind h
      obtain rfl := Except.ok.inj hend
      refine .fin hst hack hfin.1 ?_
      simp [usnet_add_timewait_list_state hadd]
    · obtain rfl := Except.ok.inj h
      rcases payload_state hpay with hsame | ⟨hlen, hcl⟩
      · exact .stays (hsame.trans hst₁)
      · exact .no_mem (.inr (.inr hst)) hlen hcl
  · rw [if_neg hack] at h
    obtain rfl := Except.ok.inj h
    exact .stays rfl

theorem usnet_handle_time_wait_state (h : usnet_handle_time_wait s = .ok s') :
    s'.tcb.state = s.tcb.state := by
  unfold usnet_handle_time_wait at h
  split at h
  · rename_i hon
    obtain ⟨s₁, hrem, h⟩ := ok_of_bind h
    obtain ⟨s₂, hadd, hend⟩ := ok_of_bind h
    obtain rfl := Except.ok.inj hend
    unfold usnet_remove_timewait_list at hrem
    rw [if_pos hon] at hrem
    obtain rfl := Except.ok.inj hrem
    simp only [usnet_add_control_list_kept, usnet_add_timewait_list_state hadd]
    rfl
  · obtain rfl := Except.ok.inj h
    simp

/-- The dispatch, whatever the state. -/
theorem handle_state_arc (h : handle_state s seg = .ok s') :
    SegmentArc s.tcb seg s'.tcb.state := by
  unfold handle_state at h
  split at h
  · rename_i hst
    obtain rfl := Except.ok.inj h
    exact usnet_handle_listen_arc hst
  · rename_i hst
    obtain rfl := Except.ok.inj h
    exact usnet_handle_syn_sent_arc hst
  · rename_i hst
    exact usnet_handle_syn_received_arc hst h
  · rename_i hst
    exact usnet_handle_established_arc hst h
  · rename_i hst
    exact usnet_handle_close_wait_arc hst h
  · rename_i hst
    exact usnet_handle_fin_wait1_arc hst h
  · rename_i hst
    exact usnet_handle_closing_arc hst h
  · rename_i hst
    exact usnet_handle_last_ack_arc hst h
  · rename_i hst
    exact usnet_handle_fin_wait2_arc hst h
  · exact .stays (usnet_handle_time_wait_state h)
  · obtain rfl := Except.ok.inj h
    exact .stays rfl

end

/-! ## Section 4: A segment -/

/-- What the guards look at. -/
@[simp] abbrev SameGuards (t t' : UsnTcb) : Prop :=
  t'.state = t.state ∧ t'.snd_nxt = t.snd_nxt ∧ t'.rcv_nxt = t.rcv_nxt ∧
  t'.sndvar.iss = t.sndvar.iss ∧ t'.sndvar.fss = t.sndvar.fss ∧
  t'.sndvar.is_fin_sent = t.sndvar.is_fin_sent

theorem SegmentArc.congr {t t' : UsnTcb} {seg : Segment} {st : TcpState} (h : SegmentArc t' seg st)
    (hsame : SameGuards t t') : SegmentArc t seg st := by
  obtain ⟨hst, hsnd, hrcv, hiss, hfss, hsent⟩ := hsame
  have hfin : fin_acknowledged t' seg → fin_acknowledged t seg := by
    rintro ⟨hack, hfs, hseq⟩
    exact ⟨hack, hsent ▸ hfs, hfss ▸ hseq⟩
  cases h with
  | stays h => exact .stays (h.trans hst)
  | syn ht hsyn h => exact .syn (hst ▸ ht) hsyn h
  | crossed ht h₁ h₂ h₃ h => exact .crossed (hst ▸ ht) h₁ h₂ h₃ h
  | refused ht h₁ h₂ h₃ h₄ h => exact .refused (hst ▸ ht) h₁ h₂ (hiss ▸ h₃) (hsnd ▸ h₄) h
  | opened ht h₁ h₂ h => exact .opened (hst ▸ ht) h₁ (hiss ▸ h₂) h
  | passive_close ht h₁ h => exact .passive_close (hst ▸ ht) h₁ h
  | reset ht h₁ h => exact .reset (hst ▸ ht) h₁ h
  | torn ht h₁ h =>
    unfold ended_by_reset at ht
    rw [hst, hrcv] at ht
    exact .torn ht h₁ h
  | no_mem ht h₁ h => exact .no_mem (hst ▸ ht) h₁ h
  | fin_acked ht h₁ h => exact .fin_acked (hst ▸ ht) (hfin h₁) h
  | fin_crossed ht h₁ h => exact .fin_crossed (hst ▸ ht) h₁ h
  | fin_both ht h₁ h₂ h => exact .fin_both (hst ▸ ht) (hfin h₁) h₂ h
  | fin ht h₁ h₂ h => exact .fin (hst ▸ ht) h₁ h₂ h
  | closing_acked ht h₁ h => exact .closing_acked (hst ▸ ht) (hfin h₁) h
  | last_acked ht h₁ h => exact .last_acked (hst ▸ ht) (hfin h₁) h

/-- Where a reset leads, a segment leads no further. -/
theorem SegmentArc.after_reset {t : UsnTcb} {seg : Segment} {st : TcpState}
    (h : SegmentArc t seg st) (ht : t.state = .closed ∨ t.state = .close_wait) : st = t.state := by
  cases h with
  | stays h => exact h
  | reset hs _ h =>
    rcases ht with ht | ht
    · rcases hs with hs | hs <;> cases ht.symm.trans hs
    · exact h.trans ht.symm
  | torn hs =>
    rcases hs with ⟨hs, -⟩ | hs
    · rcases ht with ht | ht <;> cases ht.symm.trans hs
    · rcases ht with ht | ht <;> rw [ht] at hs <;> simp at hs
  | no_mem hs => rcases ht with ht | ht <;> rcases hs with hs | hs | hs <;> cases ht.symm.trans hs
  | _ hs => rcases ht with ht | ht <;> cases ht.symm.trans hs

theorem reject_seq_state {s s' : Conn} {seg : Segment} {r : Int}
    (h : reject_seq s seg = .ok (r, s')) : s'.tcb.state = s.tcb.state := by
  unfold reject_seq at h
  split at h
  · obtain ⟨-, rfl⟩ := Prod.mk.inj (Except.ok.inj h)
    rfl
  · split at h
    · split at h
      · obtain ⟨-, rfl⟩ := Prod.mk.inj (Except.ok.inj h)
        simp
      · split at h
        · obtain ⟨-, rfl⟩ := Prod.mk.inj (Except.ok.inj h)
          simp
        · obtain ⟨-, rfl⟩ := Prod.mk.inj (Except.ok.inj h)
          simp
    · split at h
      · split at h
        · cases h
        · rename_i t hadd
          obtain ⟨-, rfl⟩ := Prod.mk.inj (Except.ok.inj h)
          simp [usnet_add_timewait_list_state hadd]
      · obtain ⟨-, rfl⟩ := Prod.mk.inj (Except.ok.inj h)
        simp

theorem usnet_validate_seq_state {s s' : Conn} {seg : Segment} {r : Int}
    (h : usnet_validate_seq s seg = .ok (r, s')) : s'.tcb.state = s.tcb.state := by
  unfold usnet_validate_seq at h
  split at h
  · cases h
  · rename_i r₁ s₁ hts
    have hst : s₁.tcb.state = s.tcb.state := by simp [validate_timestamp_quiet hts]
    split at h
    · obtain ⟨-, rfl⟩ := Prod.mk.inj (Except.ok.inj h)
      exact hst
    · split at h
      · obtain ⟨-, rfl⟩ := Prod.mk.inj (Except.ok.inj h)
        exact hst
      · exact (reject_seq_state h).trans hst

theorem check_segment_guards {s s' : Conn} {seg : Segment} {r : Int}
    (h : check_segment s seg = .ok (r, s')) :
    s'.tcb.state = s.tcb.state ∧ (¬ r < 0 → SameGuards s.tcb s'.tcb ∧
      (s.tcb.state.val ≥ TcpState.syn_received.val → in_window s.tcb seg)) := by
  unfold check_segment at h
  by_cases hv : s.tcb.state.val ≥ TcpState.syn_received.val
  · rw [if_pos hv] at h
    refine ⟨usnet_validate_seq_state h, fun hr => ?_⟩
    rcases usnet_validate_seq_cases h with ⟨-, hw, hq⟩ | ⟨hneg, -⟩ | ⟨hneg, -⟩ | ⟨hneg, -⟩
    · exact ⟨by simp [hq], fun _ => hw⟩
    all_goals exact absurd hneg hr
  · rw [if_neg hv] at h
    obtain ⟨-, rfl⟩ := Prod.mk.inj (Except.ok.inj h)
    exact ⟨rfl, fun _ => ⟨by simp, fun hv' => absurd hv' hv⟩⟩

/-- A reset ends the connection, leaves it to the application, or does nothing. -/
theorem usnet_handle_rst_arc (s : Conn) (seg : Segment) :
    SameGuards s.tcb (usnet_handle_rst s seg.ack_seq).2.tcb ∨
    ended_by_reset s.tcb seg ∧ (usnet_handle_rst s seg.ack_seq).2.tcb.state = .closed ∨
    sending s.tcb.state ∧ (usnet_handle_rst s seg.ack_seq).2.tcb.state = .close_wait := by
  have hsame : SameGuards s.tcb s.tcb := by simp
  have hend : ∀ reason : CloseReason, (usnet_release_tcb (s.onTcb fun t =>
      { t with state := .closed, close_reason := reason })).tcb.state = .closed := by
    intro reason
    simp
  unfold usnet_handle_rst
  cases hst : s.tcb.state with
  | closed => exact .inl hsame
  | listen => exact .inl hsame
  | syn_sent => exact .inl hsame
  | syn_received =>
    simp only
    split
    · rename_i hack
      exact .inr (.inl ⟨.inl ⟨hst, hack⟩, hend _⟩)
    · exact .inl hsame
  | established =>
    simp only
    split
    · exact .inl hsame
    · exact .inr (.inr ⟨.inl rfl, rfl⟩)
  | close_wait =>
    simp only
    split
    · exact .inl hsame
    · exact .inr (.inr ⟨.inr rfl, rfl⟩)
  | fin_wait_1 => exact .inr (.inl ⟨.inr (by simp [hst]), hend _⟩)
  | fin_wait_2 => exact .inr (.inl ⟨.inr (by simp [hst]), hend _⟩)
  | last_ack => exact .inr (.inl ⟨.inr (by simp [hst]), hend _⟩)
  | closing => exact .inr (.inl ⟨.inr (by simp [hst]), hend _⟩)
  | time_wait => exact .inr (.inl ⟨.inr (by simp [hst]), hend _⟩)

theorem process_rst_arc (s : Conn) (seg : Segment) :
    SameGuards s.tcb (process_rst s seg).2.tcb ∨
    seg.has TH_RST ∧ (ended_by_reset s.tcb seg ∧ (process_rst s seg).2.tcb.state = .closed ∨
      sending s.tcb.state ∧ (process_rst s seg).2.tcb.state = .close_wait) := by
  unfold process_rst
  by_cases hrst : seg.has TH_RST
  · rw [if_pos hrst]
    simp only
    split
    · rcases usnet_handle_rst_arc (s.onTcb fun t => { t with have_reset := true }) seg
        with hsame | hmoved
      · exact .inl hsame
      · exact .inr ⟨hrst, hmoved⟩
    · exact .inl (by simp)
  · rw [if_neg hrst]
    exact .inl (by simp)

/-- A segment takes only the arc it calls for, and from SYN_RECEIVED on none unless it
    lies in the window. -/
theorem segment_takes_arc {s s' : Conn} {seg : Segment} {r : Int}
    (h : input_segment s seg = .ok (r, s')) :
    SegmentArc s.tcb seg s'.tcb.state ∧
    (s.tcb.state.val ≥ TcpState.syn_received.val → ¬ in_window s.tcb seg →
      s'.tcb.state = s.tcb.state) := by
  rcases input_segment_cases h with ⟨-, r₀, -, hchk⟩ | ⟨-, r₀, s₁, hr, hchk, hs⟩
  · have hst := (check_segment_guards hchk).1
    exact ⟨.stays hst, fun _ _ => hst⟩
  · obtain ⟨hsame, hwin⟩ := (check_segment_guards hchk).2 hr
    refine ⟨?_, fun hv hout => absurd (hwin hv) hout⟩
    have hnote : SameGuards s.tcb (note_segment s₁ seg).tcb := by
      have hq := note_segment_quiet s₁ seg
      simp_all
    generalize note_segment s₁ seg = n at *
    refine SegmentArc.congr ?_ hnote
    have harc := handle_state_arc hs
    rcases process_rst_arc n seg with hsame' | ⟨hrst, ⟨hend, hst⟩ | ⟨hsend, hst⟩⟩
    · exact harc.congr hsame'
    · exact .torn hend hrst ((harc.after_reset (.inl hst)).trans hst)
    · exact .reset hsend hrst ((harc.after_reset (.inr hst)).trans hst)

/-- A connection whose own FIN is on its way when the peer's FIN acknowledges it. -/
def half_closed_tcb : UsnTcb :=
  { opened_tcb with
    state := .fin_wait_1
    sndvar := { opened_tcb.sndvar with is_fin_sent := true, fss := 5001 } }

def last_segment : Segment := peer_segment 9001 5002 (TH_FIN ||| TH_ACK) [] nil_short

theorem segment_takes_arc_last :
    ∃ r s', input_segment ⟨quiet_ctx, half_closed_tcb⟩ last_segment = .ok (r, s') ∧
      s'.tcb.state = .time_wait ∧ SegmentArc half_closed_tcb last_segment .time_wait :=
  ⟨_, _, rfl, rfl, (@segment_takes_arc ⟨quiet_ctx, half_closed_tcb⟩ _ last_segment _ rfl).1⟩

/-! ## Section 5: Any event -/

/-- The state is kept or given up for CLOSED. -/
def KeepsOrCloses (s s' : Conn) : Prop := s'.tcb.state = s.tcb.state ∨ s'.tcb.state = .closed

theorem usnet_connect_net_handler_state (s : Conn) (so : Bool) (fd : UInt32) (result : Int) :
    (usnet_connect_net_handler s so fd result).tcb.state = s.tcb.state := by
  unfold usnet_connect_net_handler
  split
  · rfl
  · split
    · rfl
    · simp only
      split
      · simp
      · split
        · simp
        · simp

theorem retransmit_state (s : Conn) : (retransmit s).tcb.state = s.tcb.state := by
  unfold retransmit
  simp only
  split
  · simp
  · simp
  · split <;> simp
  · split <;> simp
  · split <;> simp
  · simp

theorem give_up_state (s : Conn) : (give_up s).tcb.state = .closed := by
  unfold give_up
  split
  · simp
  · simp only
    split
    · simp
    · simp

theorem rto_visit_closes {s s' : Conn} (h : rto_visit s = .ok s') : KeepsOrCloses s s' := by
  unfold rto_visit at h
  split at h
  · split at h
    · cases h
    · rename_i r t ht
      obtain rfl := Except.ok.inj h
      show t.tcb.state = s.tcb.state ∨ t.tcb.state = .closed
      unfold usnet_handle_rto at ht
      split at ht
      · cases ht
      · split at ht
        · obtain ⟨-, rfl⟩ := Prod.mk.inj (Except.ok.inj ht)
          exact .inr (give_up_state s)
        · have hst := (@back_off_emits (allowed s.tcb) s).2
          generalize back_off s = u at *
          simp only at ht
          have hre := retransmit_state u
          split at ht
          · split at ht
            · obtain ⟨-, rfl⟩ := Prod.mk.inj (Except.ok.inj ht)
              right
              split <;> simp
            · obtain ⟨-, rfl⟩ := Prod.mk.inj (Except.ok.inj ht)
              exact .inl (hre.trans hst)
          all_goals
            obtain ⟨-, rfl⟩ := Prod.mk.inj (Except.ok.inj ht)
          · exact .inl (hre.trans hst)
          · exact .inl (hre.trans hst)
          · exact .inl (hre.trans hst)
          · exact .inl (hre.trans hst)
          · exact .inl (hre.trans hst)
          · exact .inl (hre.trans hst)
          · left
            simp [hst]
  · obtain rfl := Except.ok.inj h
    exact .inl rfl

theorem control_visit_state (s : Conn) : (control_visit s).tcb.state = s.tcb.state := by
  unfold control_visit
  simp only
  split
  · split
    · simp
    · simp
  · simp

theorem send_waiting_state (s : Conn) (on_list : Bool) :
    (send_waiting s on_list).tcb.state = s.tcb.state := by
  unfold send_waiting
  split <;> simp

theorem ack_visit_state (s : Conn) : (ack_visit s).tcb.state = s.tcb.state := by
  unfold ack_visit
  split
  · simp only
    rw [send_waiting_state, (@ack_or_drop_emits (allowed s.tcb) s).2]
  · rfl

theorem data_visit_state {s s' : Conn} (h : data_visit s = .ok s') :
    s'.tcb.state = s.tcb.state := by
  unfold data_visit at h
  simp only at h
  split at h
  · split at h
    · cases h
    · rename_i r u hsend
      have hst := (send_data_emits hsend).2
      split at h
      · obtain rfl := Except.ok.inj h
        exact hst
      · obtain rfl := Except.ok.inj h
        rw [send_waiting_state]
        exact hst
  · obtain rfl := Except.ok.inj h
    rfl

theorem timewait_visit_closes (s : Conn) : KeepsOrCloses s (timewait_visit s) := by
  unfold timewait_visit
  split
  · exact .inr (by simp)
  · exact .inl rfl

theorem timeout_visit_closes (s : Conn) : KeepsOrCloses s (timeout_visit s) := by
  unfold timeout_visit
  split
  · right
    simp only
    split <;> simp
  · exact .inl rfl

theorem app_write_state {s s' : Conn} {fd : UInt32} {bytes : List UInt8}
    (h : app_write s fd bytes = .ok s') : s'.tcb.state = s.tcb.state := by
  unfold app_write usnet_write at h
  split at h
  · cases h
  · rename_i r t ht
    obtain rfl := Except.ok.inj h
    split at ht
    · obtain ⟨-, rfl⟩ := Prod.mk.inj (Except.ok.inj ht)
      rfl
    · split at ht
      · obtain ⟨-, rfl⟩ := Prod.mk.inj (Except.ok.inj ht)
        rfl
      · split at ht
        · cases ht
        · obtain ⟨-, rfl⟩ := Prod.mk.inj (Except.ok.inj ht)
          rfl

/-- Every event takes an arc of the diagram, or none. -/
theorem life_conn_arc {s s' : Conn} {ev : LifeEvent} (h : life_conn s ev = .ok s') :
    s'.tcb.state = s.tcb.state ∨ Arc s.tcb.state s'.tcb.state := by
  have hclose : KeepsOrCloses s s' → s'.tcb.state = s.tcb.state ∨ Arc s.tcb.state s'.tcb.state := by
    rintro (hsame | hcl)
    · exact .inl hsame
    · by_cases hst : s.tcb.state = .closed
      · exact .inl (hcl.trans hst.symm)
      · exact .inr (hcl ▸ .ended hst)
  cases ev with
  | segment seg =>
    simp only [life_conn] at h
    split at h
    · unfold effect at h
      split at h
      · cases h
      · rename_i hin
        obtain rfl := Except.ok.inj h
        exact (segment_takes_arc hin).1.arc
    · obtain rfl := Except.ok.inj h
      exact .inl rfl
  | accept so fd result =>
    obtain rfl := Except.ok.inj h
    exact .inl (usnet_connect_net_handler_state s so fd result)
  | wrote so_tcb fd =>
    obtain rfl := Except.ok.inj h
    exact .inl (by simp [usnet_write_net_handler_same s so_tcb fd])
  | rto => exact hclose (rto_visit_closes h)
  | control =>
    obtain rfl := Except.ok.inj h
    exact .inl (control_visit_state s)
  | acks =>
    obtain rfl := Except.ok.inj h
    exact .inl (ack_visit_state s)
  | data => exact .inl (data_visit_state h)
  | timewait =>
    obtain rfl := Except.ok.inj h
    exact hclose (timewait_visit_closes s)
  | timeout =>
    obtain rfl := Except.ok.inj h
    refine hclose ?_
    split
    · exact timeout_visit_closes s
    · exact .inl rfl
  | write fd bytes => exact .inl (app_write_state h)
  | read fd count =>
    obtain rfl := Except.ok.inj h
    exact .inl rfl

/-! ## Section 6: Runs -/

/-- Any event in any context. -/
inductive TcbStep : UsnTcb → Ctx × LifeEvent → UsnTcb → Prop
  | event {t : UsnTcb} {c : Ctx} {ev : LifeEvent} {s' : Conn} :
      life_conn ⟨c, t⟩ ev = .ok s' → TcbStep t (c, ev) s'.tcb

/-- Whatever happens to a connection, and in whatever state it begins: it goes along
    the arcs of the diagram, so no state comes back once it has been left, CLOSED is
    left by nothing, and what a SYN has begun never gets to the states of a connection
    closed from this side. -/
theorem states_in_order {t₀ t : UsnTcb} (h : Reachable TcbStep (· = t₀) t) :
    Path t₀.state t.state ∧ (t.state = t₀.state ∨ t₀.state.rank < t.state.rank) ∧
    (t₀.state = .closed → t.state = .closed) ∧
    (t₀.state = .listen ∨ t₀.state = .syn_received → t.state = .listen ∨ tracked t.state) := by
  have hpath : Path t₀.state t.state := by
    refine h.invariant (I := fun t => Path t₀.state t.state) ?_ ?_
    · rintro t rfl
      exact .refl
    · rintro t ⟨c, ev⟩ t' hp - ⟨hok⟩
      rcases life_conn_arc hok with hsame | harc
      · exact hsame ▸ hp
      · exact hp.tail harc
  refine ⟨hpath, hpath.rank, fun hcl => ?_, fun hst => ?_⟩
  · rw [hcl] at hpath
    exact hpath.from_closed
  · rcases hst with hst | hst
    · rw [hst] at hpath
      exact hpath.from_listen
    · rw [hst] at hpath
      exact Path.from_listen (.head .syn hpath)

theorem states_in_order_last :
    ∃ t, Reachable TcbStep (· = half_closed_tcb) t ∧ t.state = .time_wait ∧
      Path .fin_wait_1 .time_wait := by
  have hrun : life_conn ⟨quiet_ctx, half_closed_tcb⟩ (.segment last_segment)
      = .ok ((life_conn ⟨quiet_ctx, half_closed_tcb⟩ (.segment last_segment)).toOption.get rfl) := rfl
  have hstart : Reachable TcbStep (· = half_closed_tcb) half_closed_tcb := .init rfl
  have hreach := hstart.next (.event hrun) trivial
  exact ⟨_, hreach, rfl, (states_in_order hreach).1⟩

end Usnet
