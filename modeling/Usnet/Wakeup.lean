import Usnet.Lib.Run
import Mathlib.Tactic

/-! # Waking up the application (mq.c, epoll.c)

    Every message in the queue to the application is followed by a byte in a
    fifo, and the application sleeps on the fifo.  Messages and bytes are taken
    out in different places: `usnet_shmmq_dequeue` empties the fifo when it has
    found the queue empty, and `usnet_epoll_wait` may return before it has
    emptied the queue.
-/

namespace Usnet

open Run

/-! ## Section 1: The two processes -/

/-- A message as the `switch` of `usnet_epoll_wait` sees it; `watched` is the
    answer of `usnet_epoll_watch`. -/
inductive NetMsg where
  | malformed
  | read (watched : Bool)
  | write
  | connect
  | tcpst
  deriving DecidableEq, Repr

/-- The increment of `evnum`. -/
def NetMsg.events : NetMsg → Int
  | .malformed => 0
  | .read watched => if watched then 1 else 0
  | .write => 1
  | .connect => 1
  | .tcpst => 0

/-- `buf_len` in `usnet_shmmq_dequeue`. -/
def buf_len : Nat := 1024

/-- Where the application is: outside `usnet_epoll_wait`, at the head of its
    loop, before the first read of `usnet_shmmq_dequeue`, after that read found
    nothing, or after the fifo has been read. -/
inductive EpollPc where
  | returned
  | loop (maxevents evnum : Int) (cnt : Nat)
  | dequeue (maxevents evnum : Int) (cnt : Nat)
  | empty (maxevents evnum : Int) (cnt : Nat)
  | drained (maxevents evnum : Int) (cnt : Nat)
  deriving DecidableEq, Repr

/-- The queue, the bytes in the fifo, the number of enqueues that have written
    their message and not yet their byte, and the application. -/
structure WakeState where
  queue : List NetMsg
  fifo : Nat
  between : Nat
  pc : EpollPc
  deriving DecidableEq, Repr

/-- The steps of both processes. -/
inductive WakeAction where
  | append (msg : NetMsg)
  | signal
  | poll (maxevents : Int)
  | check
  | read
  | drain
  | reread

/-- What follows a message that has been read. -/
def take_msg (s : WakeState) (msg : NetMsg) (queue : List NetMsg) (maxevents evnum : Int)
    (cnt : Nat) : WakeState :=
  { s with queue := queue, pc := .loop maxevents (evnum + msg.events) cnt }

/-- `usnet_shmmq_enqueue` in two steps, `usnet_epoll_wait` and the
    `usnet_shmmq_dequeue` in it in as many as they have accesses. -/
inductive WakeStep : WakeState → WakeAction → WakeState → Prop where
  | append {s : WakeState} (msg : NetMsg) :
      WakeStep s (.append msg) { s with queue := s.queue ++ [msg], between := s.between + 1 }
  | signal {s : WakeState} : 0 < s.between →
      WakeStep s .signal { s with fifo := s.fifo + 1, between := s.between - 1 }
  | poll_timeout {s : WakeState} (maxevents : Int) : s.pc = .returned → s.fifo = 0 →
      WakeStep s (.poll maxevents) s
  | poll {s : WakeState} (maxevents : Int) : s.pc = .returned → 0 < s.fifo →
      WakeStep s (.poll maxevents) { s with pc := .loop maxevents 0 0 }
  | check_cnt {s : WakeState} {maxevents evnum : Int} {cnt : Nat} :
      s.pc = .loop maxevents evnum cnt → (cnt + 1) % 10000 = 0 →
      WakeStep s .check { s with pc := .returned }
  | check_evnum {s : WakeState} {maxevents evnum : Int} {cnt : Nat} :
      s.pc = .loop maxevents evnum cnt → (cnt + 1) % 10000 ≠ 0 → evnum ≥ maxevents →
      WakeStep s .check { s with pc := .returned }
  | check {s : WakeState} {maxevents evnum : Int} {cnt : Nat} :
      s.pc = .loop maxevents evnum cnt → (cnt + 1) % 10000 ≠ 0 → ¬ evnum ≥ maxevents →
      WakeStep s .check { s with pc := .dequeue maxevents evnum (cnt + 1) }
  | read {s : WakeState} {maxevents evnum : Int} {cnt : Nat} {msg : NetMsg}
      {queue : List NetMsg} : s.pc = .dequeue maxevents evnum cnt → s.queue = msg :: queue →
      WakeStep s .read (take_msg s msg queue maxevents evnum cnt)
  | read_empty {s : WakeState} {maxevents evnum : Int} {cnt : Nat} :
      s.pc = .dequeue maxevents evnum cnt → s.queue = [] →
      WakeStep s .read { s with pc := .empty maxevents evnum cnt }
  | select_timeout {s : WakeState} {maxevents evnum : Int} {cnt : Nat} :
      s.pc = .empty maxevents evnum cnt → s.fifo = 0 →
      WakeStep s .drain { s with pc := .returned }
  | drain {s : WakeState} {maxevents evnum : Int} {cnt : Nat} :
      s.pc = .empty maxevents evnum cnt → 0 < s.fifo →
      WakeStep s .drain { s with
        fifo := s.fifo - min s.fifo buf_len, pc := .drained maxevents evnum cnt }
  | reread {s : WakeState} {maxevents evnum : Int} {cnt : Nat} {msg : NetMsg}
      {queue : List NetMsg} : s.pc = .drained maxevents evnum cnt → s.queue = msg :: queue →
      WakeStep s .reread (take_msg s msg queue maxevents evnum cnt)
  | reread_empty {s : WakeState} {maxevents evnum : Int} {cnt : Nat} :
      s.pc = .drained maxevents evnum cnt → s.queue = [] →
      WakeStep s .reread { s with pc := .returned }

/-- Nothing sent, nothing received. -/
def WakeState.Init (s : WakeState) : Prop :=
  s.queue = [] ∧ s.fifo = 0 ∧ s.between = 0 ∧ s.pc = .returned

/-! ## Section 2: Draining the fifo -/

/-- A call that may go round `rounds` more times and collect `room` more events
    takes all these messages before it returns early. -/
def takes_all : (room : Int) → (rounds : Nat) → List NetMsg → Prop
  | _, _, [] => True
  | room, rounds, msg :: queue =>
    0 < room ∧ 0 < rounds ∧ takes_all (room - msg.events) (rounds - 1) queue

/-- The drains after which no message is left without a byte: bytes remain or
    one is about to be written, or this call takes everything in the queue. -/
def drains_safely (s : WakeState) : WakeAction → Prop
  | .drain => ∀ maxevents evnum cnt, s.pc = .empty maxevents evnum cnt →
      buf_len < s.fifo ∨ 0 < s.between ∨
        takes_all (maxevents - evnum) (10000 - cnt % 10000) s.queue
  | _ => True

/-- How many times the call still goes round. -/
def EpollPc.rounds : EpollPc → Nat
  | .loop _ _ cnt => 10000 - (cnt + 1)
  | .dequeue _ _ cnt => 10000 - cnt
  | .drained _ _ cnt => 10000 - cnt
  | _ => 0

/-- How many events it may still collect. -/
def EpollPc.room : EpollPc → Int
  | .loop maxevents evnum _ => maxevents - evnum
  | .dequeue maxevents evnum _ => maxevents - evnum
  | .drained maxevents evnum _ => maxevents - evnum
  | _ => 0

/-- Where the counter stands. -/
def EpollPc.counted : EpollPc → Prop
  | .returned => True
  | .loop _ _ cnt => cnt < 10000
  | .dequeue _ _ cnt => 0 < cnt ∧ cnt < 10000
  | .empty _ _ cnt => 0 < cnt ∧ cnt < 10000
  | .drained _ _ cnt => 0 < cnt ∧ cnt < 10000

/-- There is a byte, or there will be, or the call takes everything. -/
structure WakeInv (s : WakeState) : Prop where
  counted : s.pc.counted
  covered : 0 < s.fifo + s.between ∨ takes_all s.pc.room s.pc.rounds s.queue

theorem WakeInv.init {s : WakeState} (h : s.Init) : WakeInv s := by
  obtain ⟨hq, -, -, hpc⟩ := h
  refine ⟨by rw [hpc]; trivial, .inr ?_⟩
  rw [hq]
  trivial

/-- A message read leaves the call with as many rounds and as much room as the
    rest needs. -/
theorem takes_all_tail {maxevents evnum : Int} {cnt : Nat} {msg : NetMsg}
    {queue : List NetMsg} (h : takes_all (maxevents - evnum) (10000 - cnt) (msg :: queue)) :
    takes_all (maxevents - (evnum + msg.events)) (10000 - (cnt + 1)) queue := by
  obtain ⟨-, -, hrest⟩ := h
  have hroom : maxevents - evnum - msg.events = maxevents - (evnum + msg.events) := by omega
  have hrounds : 10000 - cnt - 1 = 10000 - (cnt + 1) := by omega
  rwa [hroom, hrounds] at hrest

/-- What is taken in no round is nothing. -/
theorem takes_all_zero {room : Int} {rounds : Nat} {queue : List NetMsg}
    (h : takes_all room rounds queue) (hz : room ≤ 0 ∨ rounds = 0) : queue = [] := by
  cases queue with
  | nil => rfl
  | cons msg queue =>
    obtain ⟨h₁, h₂, -⟩ := h
    omega

theorem WakeInv.step {s s' : WakeState} {a : WakeAction} (h : WakeInv s)
    (hc : drains_safely s a) (hs : WakeStep s a s') : WakeInv s' := by
  obtain ⟨hcnt, hcov⟩ := h
  -- a message is covered by a byte in the FIFO or by the rounds left to the reader
  cases hs with
  | append msg => exact ⟨hcnt, .inl (by simp only; omega)⟩
  | signal hsome => exact ⟨hcnt, .inl (by simp only; omega)⟩
  | poll_timeout => exact ⟨hcnt, hcov⟩
  | poll maxevents _ hpos => exact ⟨by simp [EpollPc.counted], .inl (by simp only; omega)⟩
  | check_cnt hpc hmod =>
    rw [hpc] at hcnt hcov
    refine ⟨trivial, hcov.imp_right fun ht => ?_⟩
    have hcnt : _ < 10000 := hcnt
    have hnil := takes_all_zero ht (.inr (by simp only [EpollPc.rounds]; omega))
    simp only [hnil, takes_all]
  | check_evnum hpc _ hge =>
    rw [hpc] at hcnt hcov
    refine ⟨trivial, hcov.imp_right fun ht => ?_⟩
    have hnil := takes_all_zero ht (.inl (by simp only [EpollPc.room]; omega))
    simp only [hnil, takes_all]
  | check hpc hmod hlt =>
    rw [hpc] at hcnt hcov
    have hcnt : _ < 10000 := hcnt
    exact ⟨⟨by omega, by omega⟩, hcov⟩
  | read hpc hq =>
    rw [hpc] at hcnt hcov
    rw [hq] at hcov
    exact ⟨hcnt.2, hcov.imp_right takes_all_tail⟩
  | read_empty hpc hq =>
    rw [hpc] at hcnt
    refine ⟨hcnt, .inr ?_⟩
    rw [hq]
    trivial
  | select_timeout hpc hz =>
    rw [hpc] at hcov
    exact ⟨trivial, hcov⟩
  | drain hpc hpos =>
    -- a drain takes up to `buf_len` bytes, whatever is queued
    have hsafe := hc _ _ _ hpc
    rw [hpc] at hcnt
    obtain ⟨hpos, hlt⟩ := hcnt
    refine ⟨⟨hpos, hlt⟩, ?_⟩
    rcases hsafe with hbig | hmid | ht
    · left
      simp only
      omega
    · left
      simp only
      omega
    · right
      rw [Nat.mod_eq_of_lt hlt] at ht
      exact ht
  | reread hpc hq =>
    rw [hpc] at hcnt hcov
    rw [hq] at hcov
    exact ⟨hcnt.2, hcov.imp_right takes_all_tail⟩
  | reread_empty hpc hq =>
    refine ⟨trivial, .inr ?_⟩
    rw [hq]
    trivial

/-- In every interleaving whose drains are safe: when `usnet_epoll_wait` has
    returned and no enqueue is between its two steps, a message in the queue has
    a byte in the fifo. -/
theorem no_lost_wakeup {s : WakeState} (h : RunWhere WakeStep drains_safely WakeState.Init s)
    (hret : s.pc = .returned) (hbetween : s.between = 0) (hqueue : s.queue ≠ []) :
    0 < s.fifo := by
  have hinv : WakeInv s :=
    RunWhere.invariant (I := WakeInv) (fun _ => .init) (fun _ _ _ hi hc hs => hi.step hc hs) h
  rcases hinv.covered with hpos | ht
  · omega
  · rw [hret] at ht
    exact absurd (takes_all_zero ht (.inl (Int.le_refl 0))) hqueue

/-- Two messages; the second waits while the first fills the call. -/
theorem no_lost_wakeup_sample :
    0 < (WakeState.mk [.write] 1 0 .returned).fifo := by
  have h₀ : RunWhere WakeStep drains_safely WakeState.Init ⟨[], 0, 0, .returned⟩ :=
    .init ⟨rfl, rfl, rfl, rfl⟩
  have h₁ : RunWhere WakeStep drains_safely WakeState.Init ⟨[.write], 1, 0, .loop 2 0 0⟩ :=
    ((h₀.next (.append .write) trivial).next (.signal (by decide)) trivial).next
      (.poll 2 rfl (by decide)) trivial
  have h₂ : RunWhere WakeStep drains_safely WakeState.Init ⟨[], 1, 0, .empty 2 1 2⟩ :=
    (((h₁.next (.check rfl (by decide) (by decide)) trivial).next (.read rfl rfl) trivial).next
      (.check rfl (by decide) (by decide)) trivial).next (.read_empty rfl rfl) trivial
  have h₃ : RunWhere WakeStep drains_safely WakeState.Init ⟨[.write], 2, 0, .empty 2 1 2⟩ :=
    (h₂.next (.append .write) trivial).next (.signal (by decide)) trivial
  have hsafe : drains_safely ⟨[.write], 2, 0, .empty 2 1 2⟩ .drain := by
    rintro maxevents evnum cnt ⟨⟩
    exact .inr (.inr ⟨by decide, by decide, trivial⟩)
  have h₄ : RunWhere WakeStep drains_safely WakeState.Init ⟨[.write], 0, 0, .drained 2 1 2⟩ :=
    h₃.next (.drain rfl (by decide)) hsafe
  have h₅ : RunWhere WakeStep drains_safely WakeState.Init ⟨[.write], 1, 0, .returned⟩ :=
    (((h₄.next (.reread rfl rfl) trivial).next (.append .write) trivial).next
      (.signal (by decide)) trivial).next (.check_evnum rfl (by decide) (by decide)) trivial
  exact no_lost_wakeup h₅ rfl rfl (by decide)

/-! ## Section 3: Drains that lose a wakeup -/

section Lost

variable {C : WakeState → WakeAction → Prop} {I : WakeState → Prop}

/-- A call that does not take everything returns with a message left. -/
theorem returns_early (hC : ∀ s a, C s a) {s : WakeState} {maxevents evnum : Int} {cnt : Nat}
    {queue : List NetMsg} (h : RunWhere WakeStep C I s)
    (hpc : s.pc = .loop maxevents evnum cnt) (hcnt : cnt < 10000) (hq : s.queue = queue)
    (hleft : ¬ takes_all (maxevents - evnum) (10000 - (cnt + 1)) queue) :
    ∃ s', RunWhere WakeStep C I s' ∧ s'.pc = .returned ∧ s'.queue ≠ [] ∧
      s'.fifo = s.fifo ∧ s'.between = s.between := by
  induction queue generalizing s evnum cnt with
  | nil => exact absurd trivial hleft
  | cons msg queue ih =>
    by_cases hmod : (cnt + 1) % 10000 = 0
    · exact ⟨_, h.next (.check_cnt hpc hmod) (hC _ _), rfl, by simp [hq], rfl, rfl⟩
    · by_cases hge : evnum ≥ maxevents
      · exact ⟨_, h.next (.check_evnum hpc hmod hge) (hC _ _), rfl, by simp [hq], rfl, rfl⟩
      · have hread := (h.next (.check hpc hmod hge) (hC _ _)).next (.read rfl hq) (hC _ _)
        have hrest : ¬ takes_all (maxevents - (evnum + msg.events)) (10000 - (cnt + 1 + 1))
            queue := by
          intro ht
          refine hleft ⟨by omega, by omega, ?_⟩
          have hroom : maxevents - evnum - msg.events = maxevents - (evnum + msg.events) := by
            omega
          have hrounds : 10000 - (cnt + 1) - 1 = 10000 - (cnt + 1 + 1) := by omega
          rw [hroom, hrounds]
          exact ht
        have hlast := ih hread rfl (by omega) rfl hrest
        exact hlast

/-- The condition is exact: after a drain that is not safe the application goes
    to sleep on a message. -/
theorem unsafe_drain_loses (hC : ∀ s a, C s a) {s : WakeState} {maxevents evnum : Int}
    {cnt : Nat} (h : RunWhere WakeStep C I s) (hpc : s.pc = .empty maxevents evnum cnt)
    (hcnt : 0 < cnt ∧ cnt < 10000) (hroom : evnum < maxevents) (hpos : 0 < s.fifo)
    ( hunsafe : ¬ drains_safely s .drain) :
    ∃ s', RunWhere WakeStep C I s' ∧ s'.pc = .returned ∧ s'.between = 0 ∧ s'.queue ≠ [] ∧
      s'.fifo = 0 := by
  -- not safe: every byte is taken, and some message is not
  have hleft : s.fifo ≤ buf_len ∧ s.between = 0 ∧
      ¬ takes_all (maxevents - evnum) (10000 - cnt) s.queue := by
    by_contra hno
    apply hunsafe
    intro m e c hmec
    rw [hpc] at hmec
    cases hmec
    rw [Nat.mod_eq_of_lt hcnt.2]
    by_contra hor
    simp only [not_or] at hor
    exact hno ⟨by omega, by omega, hor.2.2⟩
  obtain ⟨hfifo, hbetween, hleft⟩ := hleft
  cases hq : s.queue with
  | nil =>
    rw [hq] at hleft
    exact absurd trivial hleft
  | cons msg queue =>
    rw [hq] at hleft
    have hread := (h.next (.drain hpc hpos) (hC _ _)).next (.reread rfl hq) (hC _ _)
    obtain ⟨s', hrun, hret, hne, hf, hb⟩ := returns_early hC hread rfl hcnt.2 rfl (fun ht => by
      refine hleft ⟨by omega, by omega, ?_⟩
      have hroom : maxevents - evnum - msg.events = maxevents - (evnum + msg.events) := by
        omega
      have hrounds : 10000 - cnt - 1 = 10000 - (cnt + 1) := by omega
      rw [hroom, hrounds]
      exact ht)
    refine ⟨s', hrun, hret, by rw [hb]; exact hbetween, hne, ?_⟩
    rw [hf]
    show s.fifo - min s.fifo buf_len = 0
    omega

end Lost

/-- Two messages arrive between the emptiness test and the drain of a call that
    collects one event: the second is left without a byte. -/
theorem wakeup_lost :
    ∃ s, Reachable WakeStep WakeState.Init s ∧ s.pc = .returned ∧ s.between = 0 ∧
      s.queue ≠ [] ∧ s.fifo = 0 := by
  have h₀ : Reachable WakeStep WakeState.Init ⟨[], 0, 0, .returned⟩ :=
    .init ⟨rfl, rfl, rfl, rfl⟩
  have h₁ : Reachable WakeStep WakeState.Init ⟨[.write], 1, 0, .loop 1 0 0⟩ :=
    ((h₀.next (.append .write) trivial).next (.signal (by decide)) trivial).next
      (.poll 1 rfl (by decide)) trivial
  have h₂ : Reachable WakeStep WakeState.Init ⟨[], 1, 0, .returned⟩ :=
    ((h₁.next (.check rfl (by decide) (by decide)) trivial).next (.read rfl rfl) trivial).next
      (.check_evnum rfl (by decide) (by decide)) trivial
  have h₃ : Reachable WakeStep WakeState.Init ⟨[], 1, 0, .empty 1 0 1⟩ :=
    ((h₂.next (.poll 1 rfl (by decide)) trivial).next
      (.check rfl (by decide) (by decide)) trivial).next (.read_empty rfl rfl) trivial
  have h₄ : Reachable WakeStep WakeState.Init ⟨[.write, .write], 3, 0, .empty 1 0 1⟩ :=
    (((h₃.next (.append .write) trivial).next (.signal (by decide)) trivial).next
      (.append .write) trivial).next (.signal (by decide)) trivial
  refine unsafe_drain_loses (fun _ _ => trivial) h₄ rfl (by decide) (by decide) (by decide) ?_
  intro hsafe
  rcases hsafe 1 0 1 rfl with h | h | ⟨-, -, h, -⟩
  · exact absurd h (by decide)
  · exact absurd h (by decide)
  · exact absurd h (by decide)

end Usnet
