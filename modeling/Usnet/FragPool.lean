import Usnet.Mempool
import Usnet.Ringbuf

/-! # The chunks of the fragment lists (ringbuf.c)

    `usnet_insert_fragment` once more, with the chunks its fragments lie in:
    one is taken for the new fragment, and whatever merging or the end of the
    function takes off the list goes back to the pool.  On the buffer it does
    what the insertion without chunks does; on the pool it takes as many chunks
    as the list gains fragments.
-/

namespace Usnet

open CInt UsnMempool

/-! ## Section 1: The code -/

/-- `struct fragment` and the chunk it lies in. -/
structure FragNode where
  chunk : Int
  frag : Fragment
  deriving DecidableEq, Repr

/-- The chunks of a list. -/
def frag_chunks (nodes : List FragNode) : List Int := nodes.map FragNode.chunk

/-- The list without the chunks. -/
def plain (nodes : List FragNode) : List Fragment := nodes.map FragNode.frag

/-- A slot of `ringbuf_cache`: the buffer, and its list with the chunks. -/
structure RingSlot where
  buf : UsnRingbuf
  nodes : List FragNode
  frags : buf.frags = plain nodes

/-- A buffer with the given list. -/
def RingSlot.of (buf : UsnRingbuf) (nodes : List FragNode) : RingSlot :=
  { buf := { buf with frags := plain nodes }, nodes := nodes, frags := rfl }

def FRAG_CALLOC : UInt16 := 0x01

section
variable (flags : Int → UInt16)

/-- `usnet_free_onefragment`.  Nothing writes the `flags` of a fragment taken from
    the pool, nor do the pool's own headers cover them: they are what the memory
    has held at that place all along.  With `FRAG_CALLOC` in it the chunk goes to
    `free`, which has no result for it. -/
def usnet_free_onefragment (mp : UsnMempool) (node : FragNode) : Option UsnMempool :=
  if flags node.chunk &&& FRAG_CALLOC ≠ 0 then none else usnet_mempool_free mp (some node.chunk)

/-- `merge_loop`, where the fragment merged into the next one is freed. -/
def merge_nodes (seq_end : UInt32) (mp : UsnMempool) (new_frag : FragNode) (merged : Bool)
    (passed : List FragNode) :
    List FragNode → Option (UsnMempool × Bool × List FragNode × List FragNode)
  | [] => some (mp, merged, passed, [])
  | iter :: next =>
    if canmerge new_frag.frag iter.frag then
      let iter := { iter with frag := merge_fragments new_frag.frag iter.frag }
      match usnet_free_onefragment flags mp new_frag with
      | none => none
      | some mp => merge_nodes seq_end mp iter true (iter :: if merged then passed.tail else passed) next
    else if merged ∨ maxseq seq_end iter.frag.seq = iter.frag.seq then
      some (mp, merged, passed, iter :: next)
    else merge_nodes seq_end mp new_frag merged (iter :: passed) next

/-- `link_fragment`. -/
def link_node (mp : UsnMempool) (nodes : List FragNode) (new_frag : FragNode) (seq_end : UInt32) :
    Option (UsnMempool × List FragNode) :=
  match merge_nodes flags seq_end mp new_frag false [] nodes with
  | none => none
  | some (mp, true, passed, iter) => some (mp, passed.reverse ++ iter)
  | some (mp, false, passed, iter) =>
    match nodes with
    | [] => some (mp, [new_frag])
    | first :: _ =>
      if minseq new_frag.frag.seq first.frag.seq = new_frag.frag.seq then
        some (mp, new_frag :: nodes)
      else match passed with
        | [] => none
        | prev :: _ =>
          if minseq new_frag.frag.seq (prev.frag.seq + prev.frag.len.toUInt32)
              = prev.frag.seq + prev.frag.len.toUInt32 then
            some (mp, passed.reverse ++ new_frag :: iter)
          else none

/-- `pop_front`. -/
def pop_node (mp : UsnMempool) (buf : UsnRingbuf) (nodes : List FragNode) :
    Option (UsnMempool × RingSlot) :=
  match nodes with
  | [] => some (mp, .of buf [])
  | first :: next =>
    if buf.head_seq = first.frag.seq then
      match usnet_free_onefragment flags mp first with
      | none => none
      | some mp =>
        some (mp, .of
          { buf with
            merged_len := first.frag.len.toUInt32
            head_seq := buf.head_seq + first.frag.len.toUInt32 } next)
    else some (mp, .of buf nodes)

/-- `usnet_insert_fragment`. -/
def usnet_insert_node (mp : UsnMempool) (slot : RingSlot) (data : List UInt8) (seq : UInt32) :
    Option (Int × UsnMempool × RingSlot) :=
  let buf := slot.buf
  let len : Int := data.length
  let data_off := sint (seq - buf.head_seq)
  let end_off := data_off + len
  if minseq buf.head_seq seq ≠ buf.head_seq then some (-1, mp, slot)
  else if u32 len > buf.size then some (-2, mp, slot)
  else if data_off < 0 ∨ end_off ≥ 2 ^ 31 then none
  else if end_off > buf.avail_len then some (-3, mp, slot)
  else
    let buf := { buf with
      last_seq := if seq + u32 len > buf.last_seq then seq + u32 len else buf.last_seq }
    match copy_payload buf data data_off with
    | none => none
    | some buf =>
      match usnet_mempool_allocate mp with
      | none => none
      | some (none, mp) => some (-4, mp, .of buf slot.nodes)
      | some (some chunk, mp) =>
        let new_frag := { chunk := chunk, frag := { seq := seq, len := u16 len } }
        match link_node flags mp slot.nodes new_frag (seq + u32 len) with
        | none => none
        | some (mp, nodes) =>
          match pop_node flags mp buf nodes with
          | none => none
          | some (mp, slot) => some (len, mp, .of slot.buf.set_win slot.nodes)

end

/-! ## Section 2: The buffer -/

variable {flags : Int → UInt16} {mp mp' : UsnMempool}

/-- The loop without the chunks. -/
theorem merge_nodes_plain {seq_end : UInt32} {rest : List FragNode} :
    ∀ {mp mp' : UsnMempool} {new_frag : FragNode} {merged merged' : Bool}
      {passed passed' iter' : List FragNode},
    merge_nodes flags seq_end mp new_frag merged passed rest = some (mp', merged', passed', iter') →
    merge_loop seq_end new_frag.frag merged (plain passed) (plain rest)
      = (merged', plain passed', plain iter') := by
  -- on the nodes still ahead
  induction rest with
  | nil =>
    intro mp mp' new_frag merged merged' passed passed' iter' h
    obtain ⟨-, rfl, rfl, rfl⟩ := by simpa only [merge_nodes, Option.some.injEq, Prod.mk.injEq] using h
    rfl
  | cons iter next ih =>
    intro mp mp' new_frag merged merged' passed passed' iter' h
    rw [merge_nodes] at h
    show merge_loop seq_end new_frag.frag merged (plain passed) (iter.frag :: plain next) = _
    rw [merge_loop]
    by_cases hcan : canmerge new_frag.frag iter.frag = true
    · rw [if_pos hcan] at h ⊢
      simp only at h
      cases hfree : usnet_free_onefragment flags mp new_frag with
      | none =>
        rw [hfree] at h
        cases h
      | some mq =>
        rw [hfree] at h
        have hloop := ih h
        cases merged with
        | false => exact hloop
        | true =>
          simp only [if_true, plain, List.map_cons, List.map_tail] at hloop ⊢
          exact hloop
    · rw [if_neg hcan] at h ⊢
      by_cases hstop : merged = true ∨ maxseq seq_end iter.frag.seq = iter.frag.seq
      · rw [if_pos hstop] at h ⊢
        obtain ⟨-, rfl, rfl, rfl⟩ := by simpa only [Option.some.injEq, Prod.mk.injEq] using h
        rfl
      · rw [if_neg hstop] at h ⊢
        exact ih h

theorem link_node_plain {nodes nodes' : List FragNode} {new_frag : FragNode} {seq_end : UInt32}
    (h : link_node flags mp nodes new_frag seq_end = some (mp', nodes')) :
    link_fragment (plain nodes) new_frag.frag seq_end = some (plain nodes') := by
  unfold link_node at h
  unfold link_fragment
  cases hloop : merge_nodes flags seq_end mp new_frag false [] nodes with
  | none =>
    rw [hloop] at h
    cases h
  | some r =>
    obtain ⟨mq, merged, passed, iter⟩ := r
    have hplain : merge_loop seq_end new_frag.frag false [] (plain nodes)
        = (merged, plain passed, plain iter) := merge_nodes_plain hloop
    rw [hloop] at h
    rw [hplain]
    -- the same choices of place are made for nodes and for fragments
    cases merged with
    | true =>
      obtain ⟨-, rfl⟩ := Prod.mk.inj (Option.some.inj h)
      simp only [plain, List.map_append, List.map_reverse]
    | false =>
      cases nodes with
      | nil =>
        obtain ⟨-, rfl⟩ := Prod.mk.inj (Option.some.inj h)
        rfl
      | cons first next =>
        simp only [plain, List.map_cons] at h ⊢
        by_cases hfirst : minseq new_frag.frag.seq first.frag.seq = new_frag.frag.seq
        · rw [if_pos hfirst] at h ⊢
          obtain ⟨-, rfl⟩ := Prod.mk.inj (Option.some.inj h)
          rfl
        · rw [if_neg hfirst] at h ⊢
          cases passed with
          | nil => cases h
          | cons prev _ =>
            simp only [List.map_cons] at h ⊢
            split at h
            · rename_i hprev
              rw [if_pos hprev]
              obtain ⟨-, rfl⟩ := Prod.mk.inj (Option.some.inj h)
              simp only [List.map_append, List.map_reverse, List.map_cons]
            · cases h

theorem pop_node_plain {buf : UsnRingbuf} {nodes : List FragNode} {slot : RingSlot}
    (h : pop_node flags mp buf nodes = some (mp', slot)) :
    slot.buf = pop_front { buf with frags := plain nodes } := by
  unfold pop_node at h
  cases nodes with
  | nil =>
    obtain ⟨-, rfl⟩ := Prod.mk.inj (Option.some.inj h)
    rfl
  | cons first next =>
    simp only [pop_front, plain, List.map_cons] at h ⊢
    by_cases hseq : buf.head_seq = first.frag.seq
    · rw [if_pos hseq] at h ⊢
      cases hfree : usnet_free_onefragment flags mp first with
      | none =>
        rw [hfree] at h
        cases h
      | some mq =>
        rw [hfree] at h
        obtain ⟨-, rfl⟩ := Prod.mk.inj (Option.some.inj h)
        rfl
    · rw [if_neg hseq] at h ⊢
      obtain ⟨-, rfl⟩ := Prod.mk.inj (Option.some.inj h)
      rfl

/-- The insertion does to the buffer what `usnet_insert_fragment` does. -/
theorem usnet_insert_node_plain {slot slot' : RingSlot} {data : List UInt8} {seq : UInt32} {r : Int}
    (h : usnet_insert_node flags mp slot data seq = some (r, mp', slot')) :
    usnet_insert_fragment (decide (mp.mp_free_chunks ≠ 0)) slot.buf data seq
      = some (r, slot'.buf) := by
  unfold usnet_insert_node at h
  unfold usnet_insert_fragment
  simp only at h ⊢
  split at h
  · rename_i h₁
    obtain ⟨rfl, -, rfl⟩ := by simpa only [Option.some.injEq, Prod.mk.injEq] using h
    rw [if_pos h₁]
  rename_i h₁
  rw [if_neg h₁]
  split at h
  · rename_i h₂
    obtain ⟨rfl, -, rfl⟩ := by simpa only [Option.some.injEq, Prod.mk.injEq] using h
    rw [if_pos h₂]
  rename_i h₂
  rw [if_neg h₂]
  split at h
  · cases h
  rename_i h₃
  rw [if_neg h₃]
  split at h
  · rename_i h₄
    obtain ⟨rfl, -, rfl⟩ := by simpa only [Option.some.injEq, Prod.mk.injEq] using h
    rw [if_pos h₄]
  rename_i h₄
  rw [if_neg h₄]
  -- the checks are the same; from here on a chunk may be missing
  generalize hcopy : copy_payload _ data (sint (seq - slot.buf.head_seq)) = copied at h ⊢
  rcases copied with _ | buf
  · cases h
  have hframe := copy_payload_frame hcopy
  have hfrags : buf.frags = plain slot.nodes := by
    rw [hframe]
    exact slot.frags
  cases hal : usnet_mempool_allocate mp with
  | none =>
    rw [hal] at h
    cases h
  | some a =>
    obtain ⟨chunk, mq⟩ := a
    have hfound := (usnet_mempool_allocate_found hal).1
    rw [hal] at h
    cases chunk with
    | none =>
      obtain ⟨rfl, -, rfl⟩ := by simpa only [Option.some.injEq, Prod.mk.injEq] using h
      simp only [← hfound, Option.isSome_none, if_true, RingSlot.of, ← hfrags]
    | some chunk =>
      simp only [← hfound, Option.isSome_some, Bool.true_eq_false, if_false] at h ⊢
      split at h
      · cases h
      rename_i mr nodes hlink
      have hplain := link_node_plain hlink
      rw [hfrags, hplain]
      split at h
      · cases h
      rename_i ms popped hpop
      have hbuf := pop_node_plain hpop
      obtain ⟨rfl, -, rfl⟩ := by simpa only [Option.some.injEq, Prod.mk.injEq] using h
      have hpopped := popped.frags
      simp only [RingSlot.of, ← hpopped, ← hbuf]
      rfl

/-! ## Section 3: The pool -/

theorem usnet_free_onefragment_takes {node : FragNode} {others : List Int}
    (h : mp.Takes (node.chunk :: others)) (hok : usnet_free_onefragment flags mp node = some mp') :
    mp'.Takes others := by
  unfold usnet_free_onefragment at hok
  split at hok
  · cases hok
  · exact h.free hok

/-- The loop gives back the chunk of every fragment it merges into another.  Once
    merged, the new fragment is the latest one passed. -/
theorem merge_nodes_takes {seq_end : UInt32} {rest : List FragNode} {others : List Int} :
    ∀ {mp mp' : UsnMempool} {new_frag : FragNode} {merged merged' : Bool}
      {passed passed' iter' : List FragNode},
    mp.Takes ((if merged then [] else [new_frag.chunk]) ++
      (frag_chunks passed ++ (frag_chunks rest ++ others))) →
    (merged = true → ∃ before node, passed = node :: before ∧ node.chunk = new_frag.chunk) →
    merge_nodes flags seq_end mp new_frag merged passed rest = some (mp', merged', passed', iter') →
    (merged = true → merged' = true) ∧ (merged' = false → mp' = mp) ∧
    mp'.Takes ((if merged' then [] else [new_frag.chunk]) ++
      (frag_chunks passed' ++ (frag_chunks iter' ++ others))) := by
  induction rest with
  | nil =>
    intro mp mp' new_frag merged merged' passed passed' iter' ht _ h
    obtain ⟨rfl, rfl, rfl, rfl⟩ := by
      simpa only [merge_nodes, Option.some.injEq, Prod.mk.injEq] using h
    exact ⟨id, fun _ => rfl, ht⟩
  | cons iter next ih =>
    intro mp mp' new_frag merged merged' passed passed' iter' ht hlast h
    rw [merge_nodes] at h
    by_cases hcan : canmerge new_frag.frag iter.frag = true
    · rw [if_pos hcan] at h
      simp only at h
      cases hfree : usnet_free_onefragment flags mp new_frag with
      | none =>
        rw [hfree] at h
        cases h
      | some mq =>
        rw [hfree] at h
        obtain ⟨before, hbefore⟩ : ∃ l, l = if merged then passed.tail else passed := ⟨_, rfl⟩
        rw [← hbefore] at h
        -- the new fragment's chunk leaves the list, whether it was linked or not
        have hperm : ((if merged then [] else [new_frag.chunk]) ++
            (frag_chunks passed ++ (frag_chunks (iter :: next) ++ others))).Perm
            (new_frag.chunk :: (iter.chunk :: (frag_chunks before ++
              (frag_chunks next ++ others)))) := by
          cases merged with
          | false =>
            rw [hbefore]
            exact (List.perm_middle).cons _
          | true =>
            obtain ⟨tail, node, rfl, hnode⟩ := hlast rfl
            rw [hbefore, ← hnode]
            exact (List.perm_middle).cons _
        have hmq := usnet_free_onefragment_takes (ht.perm hperm) hfree
        obtain ⟨hm, -, htakes⟩ := ih hmq (fun _ => ⟨before, _, rfl, rfl⟩) h
        have hmerged := hm rfl
        refine ⟨fun _ => hmerged, fun hnot => ?_, ?_⟩
        · cases hmerged.symm.trans hnot
        · rw [if_pos hmerged] at htakes ⊢
          exact htakes
    · rw [if_neg hcan] at h
      by_cases hstop : merged = true ∨ maxseq seq_end iter.frag.seq = iter.frag.seq
      · rw [if_pos hstop] at h
        obtain ⟨rfl, rfl, rfl, rfl⟩ := by simpa only [Option.some.injEq, Prod.mk.injEq] using h
        exact ⟨id, fun _ => rfl, ht⟩
      · rw [if_neg hstop] at h
        have hnot : merged = false := by
          cases merged with
          | false => rfl
          | true => exact absurd (.inl rfl) hstop
        subst hnot
        refine ih (ht.perm ?_) (fun hm => by cases hm) h
        exact (@List.perm_middle _ iter.chunk (frag_chunks passed) _).cons _

/-- Linking keeps account: what the list holds and no more is in use. -/
theorem link_node_takes {nodes nodes' : List FragNode} {new_frag : FragNode} {seq_end : UInt32}
    {others : List Int} (ht : mp.Takes (new_frag.chunk :: (frag_chunks nodes ++ others)))
    (h : link_node flags mp nodes new_frag seq_end = some (mp', nodes')) :
    mp'.Takes (frag_chunks nodes' ++ others) := by
  unfold link_node at h
  cases hloop : merge_nodes flags seq_end mp new_frag false [] nodes with
  | none =>
    rw [hloop] at h
    cases h
  | some r =>
    obtain ⟨mq, merged, passed, iter⟩ := r
    obtain ⟨-, hsame, htakes⟩ := merge_nodes_takes ht (fun hm => by cases hm) hloop
    rw [hloop] at h
    cases merged with
    | true =>
      obtain ⟨rfl, rfl⟩ := Prod.mk.inj (Option.some.inj h)
      refine htakes.perm ?_
      rw [if_pos rfl, List.nil_append, ← List.append_assoc]
      unfold frag_chunks
      rw [List.map_append, List.map_reverse]
      exact ((List.reverse_perm _).symm.append_right _).append_right _
    | false =>
      -- nothing was merged, so nothing was freed
      obtain rfl := hsame rfl
      cases nodes with
      | nil =>
        obtain ⟨rfl, rfl⟩ := Prod.mk.inj (Option.some.inj h)
        exact ht
      | cons first next =>
        simp only at h
        split at h
        · obtain ⟨rfl, rfl⟩ := Prod.mk.inj (Option.some.inj h)
          exact ht
        · split at h
          · cases h
          · rename_i prev before
            split at h
            · obtain ⟨rfl, rfl⟩ := Prod.mk.inj (Option.some.inj h)
              refine htakes.perm ?_
              rw [← List.append_assoc (frag_chunks _), ← List.append_assoc]
              refine List.Perm.append_right _ ?_
              rw [if_neg Bool.false_ne_true, List.singleton_append]
              unfold frag_chunks
              rw [List.map_append, List.map_reverse, @List.map_cons _ _ _ new_frag]
              exact List.Perm.trans List.perm_middle.symm ((List.reverse_perm _).symm.append_right _)
            · cases h

theorem pop_node_takes {buf : UsnRingbuf} {nodes : List FragNode} {slot : RingSlot}
    {others : List Int} (ht : mp.Takes (frag_chunks nodes ++ others))
    (h : pop_node flags mp buf nodes = some (mp', slot)) :
    mp'.Takes (frag_chunks slot.nodes ++ others) := by
  unfold pop_node at h
  cases nodes with
  | nil =>
    obtain ⟨rfl, rfl⟩ := Prod.mk.inj (Option.some.inj h)
    exact ht
  | cons first next =>
    simp only at h
    split at h
    · cases hfree : usnet_free_onefragment flags mp first with
      | none =>
        rw [hfree] at h
        cases h
      | some mq =>
        rw [hfree] at h
        obtain ⟨rfl, rfl⟩ := Prod.mk.inj (Option.some.inj h)
        exact usnet_free_onefragment_takes ht hfree
    · obtain ⟨rfl, rfl⟩ := Prod.mk.inj (Option.some.inj h)
      exact ht

/-- An insertion takes as many chunks as the list gains fragments. -/
theorem usnet_insert_node_takes {slot slot' : RingSlot} {data : List UInt8} {seq : UInt32} {r : Int}
    {others : List Int} (ht : mp.Takes (frag_chunks slot.nodes ++ others))
    (h : usnet_insert_node flags mp slot data seq = some (r, mp', slot')) :
    mp'.Takes (frag_chunks slot'.nodes ++ others) := by
  unfold usnet_insert_node at h
  simp only at h
  split at h
  · obtain ⟨-, rfl, rfl⟩ := by simpa only [Option.some.injEq, Prod.mk.injEq] using h
    exact ht
  split at h
  · obtain ⟨-, rfl, rfl⟩ := by simpa only [Option.some.injEq, Prod.mk.injEq] using h
    exact ht
  split at h
  · cases h
  split at h
  · obtain ⟨-, rfl, rfl⟩ := by simpa only [Option.some.injEq, Prod.mk.injEq] using h
    exact ht
  split at h
  · cases h
  -- one chunk for the new node, given back for each that is merged or popped
  rename_i buf hcopy
  cases hal : usnet_mempool_allocate mp with
  | none =>
    rw [hal] at h
    cases h
  | some a =>
    obtain ⟨chunk, mq⟩ := a
    have hmq := ht.allocate hal
    rw [hal] at h
    cases chunk with
    | none =>
      obtain ⟨-, rfl, rfl⟩ := by simpa only [Option.some.injEq, Prod.mk.injEq] using h
      exact hmq
    | some chunk =>
      simp only at h
      split at h
      · cases h
      rename_i mr nodes hlink
      have hmr := link_node_takes hmq hlink
      split at h
      · cases h
      rename_i ms popped hpop
      have hms := pop_node_takes hmr hpop
      obtain ⟨-, rfl, rfl⟩ := by simpa only [Option.some.injEq, Prod.mk.injEq] using h
      exact hms

end Usnet
