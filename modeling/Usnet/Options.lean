import Usnet.Wire

/-! # Options of a segment (tcb.c, tcp.c, tcp_out.c)

    What the two parsers make of the option area: where they end, which bytes
    they read, and how far the values they find are those of the options as their
    length bytes delimit them.  The options the stack writes itself are read back
    by both.
-/

namespace Usnet

open CInt Walk Wire

/-! ## Section 1: The loops as walks -/

/-- The option after the one at `i`, as `usnet_parse_tcpopts` goes on. -/
def opts_next (seg : Segment) : Nat → Option Nat :=
  option_next tcpopts_fields (fun _ => false) seg.byte seg.opts.length

/-- The same in `usnet_parse_tcptimestamp`, which goes no further than a timestamp. -/
def ts_next (seg : Segment) : Nat → Option Nat :=
  option_next timestamp_fields (· == TCPOPT_TIMESTAMP) seg.byte seg.opts.length

/-- What `usnet_parse_tcpopts` sets for the option at `i` when it goes on behind it. -/
def take_option (cur_time : UInt32) (seg : Segment) (i : Nat) (tcb : UsnTcb) : UsnTcb :=
  if seg.byte i = TCPOPT_MAXSEG then
    let mss := (seg.byte (i + 2)).toUInt16 <<< 8 + (seg.byte (i + 2 + 1)).toUInt16
    { tcb with sndvar := { tcb.sndvar with mss := mss, eff_mss := mss - 12 } }
  else if seg.byte i = TCPOPT_WINDOW then
    { tcb with sndvar := { tcb.sndvar with wscale := seg.byte (i + 2) } }
  else if seg.byte i = TCPOPT_SACK_PERMITTED then { tcb with sack_permit := true }
  else if seg.byte i = TCPOPT_TIMESTAMP then
    { tcb with
      saw_timestamp := true
      rcvvar := { tcb.rcvvar with ts_recent := seg.long (i + 2), ts_last_ts_upd := cur_time } }
  else tcb

/-- The timestamp of a segment is complete at `i`. -/
def timestamp_at (seg : Segment) (i : Nat) : Bool :=
  i < seg.opts.length && seg.byte i == TCPOPT_TIMESTAMP &&
    !(i + 2 + (seg.byte (i + 1)).toNat - 2 > seg.opts.length)

/-- What `usnet_parse_tcptimestamp` finds there. -/
def take_timestamp (seg : Segment) (i : Nat) : Option (UInt32 × UInt32) :=
  if timestamp_at seg i then some (seg.long (i + 2), seg.long (i + 2 + 4)) else none

/-- One turn of `usnet_parse_tcpopts` ends it or takes an option. -/
theorem parse_opts_loop_succ (cur_time : UInt32) (seg : Segment) (fuel i : Nat) (t : UsnTcb) :
    parse_opts_loop cur_time seg (fuel + 1) i t = match opts_next seg i with
      | none => .ok t
      | some j => parse_opts_loop cur_time seg fuel j (take_option cur_time seg i t) := by
  rw [parse_opts_loop]
  unfold opts_next option_next
  -- the tests of the loop's body in its order
  by_cases hi : i < seg.opts.length
  · simp only [hi, if_true]
    by_cases heol : seg.byte i = TCPOPT_EOL
    · simp only [heol, if_true]
    · by_cases hnop : seg.byte i = TCPOPT_NOP
      · have htake : take_option cur_time seg i t = t := by
          unfold take_option
          rw [hnop]
          rfl
        rw [if_neg heol, if_neg heol, if_pos hnop, if_pos hnop, htake]
      · rw [if_neg heol, if_neg heol, if_neg hnop, if_neg hnop]
        by_cases hlong : i + 2 + (seg.byte (i + 1)).toNat - 2 > seg.opts.length
        · simp only [hlong, if_true]
        · -- an option that ends among the options: one case for each kind
          simp only [hlong, if_false, Bool.false_eq_true]
          unfold tcpopts_fields take_option
          by_cases hmss : seg.byte i = TCPOPT_MAXSEG
          · simp only [hmss, if_true]
          · by_cases hwin : seg.byte i = TCPOPT_WINDOW
            · simp only [hwin, if_true]
              rfl
            · by_cases hsack : seg.byte i = TCPOPT_SACK_PERMITTED
              · simp only [hsack, if_true]
                rfl
              · by_cases hts : seg.byte i = TCPOPT_TIMESTAMP
                · simp only [hts, if_true]
                  rfl
                · simp only [hmss, hwin, hsack, hts, if_false]
  · simp only [hi, if_false]

/-- One turn of `usnet_parse_tcptimestamp` ends it, with the timestamp if it has
    come to one, or leads on. -/
theorem parse_timestamp_loop_succ (seg : Segment) (fuel i : Nat) :
    parse_timestamp_loop seg (fuel + 1) i = match ts_next seg i with
      | none => .ok (take_timestamp seg i)
      | some j => parse_timestamp_loop seg fuel j := by
  rw [parse_timestamp_loop]
  unfold ts_next option_next take_timestamp timestamp_at
  by_cases hi : i < seg.opts.length
  · simp only [hi, if_true, decide_true, Bool.true_and]
    by_cases heol : seg.byte i = TCPOPT_EOL
    · simp only [heol, if_true]
      rfl
    · by_cases hnop : seg.byte i = TCPOPT_NOP
      · simp only [hnop, if_true]
        rfl
      · by_cases hlong : i + 2 + (seg.byte (i + 1)).toNat - 2 > seg.opts.length
        · simp only [heol, hnop, hlong, if_true, if_false, decide_true, Bool.not_true,
            Bool.and_false, Bool.false_eq_true]
        · by_cases hts : seg.byte i = TCPOPT_TIMESTAMP
          · simp only [hts, hlong, if_true, if_false, decide_false, Bool.not_false, beq_self_eq_true,
              Bool.and_self]
            rfl
          · unfold timestamp_fields
            simp only [heol, hnop, hts, hlong, if_false, beq_iff_eq]
  · simp only [hi, if_false, decide_false, Bool.false_and, Bool.false_eq_true]

/-- A timestamp is where `usnet_parse_tcptimestamp` ends. -/
theorem ts_next_of_timestamp {seg : Segment} {i : Nat} (h : timestamp_at seg i = true) :
    ts_next seg i = none := by
  unfold timestamp_at at h
  simp only [Bool.and_eq_true, decide_eq_true_eq, beq_iff_eq, Bool.not_eq_true',
    decide_eq_false_iff_not] at h
  obtain ⟨⟨hi, hts⟩, hlong⟩ := h
  unfold ts_next option_next
  rw [if_pos hi, hts, if_neg (by decide), if_neg (by decide), if_neg hlong, if_pos (by decide)]

/-- `usnet_parse_tcpopts` takes the options it meets, in their order, and goes on
    behind each. -/
def taken_options (cur_time : UInt32) (seg : Segment) (l : List Nat) (tcb : UsnTcb) : UsnTcb :=
  (l.filter fun i => (opts_next seg i).isSome).foldl (fun t i => take_option cur_time seg i t) tcb

theorem parse_opts_loop_eq (cur_time : UInt32) (seg : Segment) (fuel i : Nat) (t : UsnTcb) :
    parse_opts_loop cur_time seg fuel i t =
      if ended (opts_next seg) fuel i then
        .ok (taken_options cur_time seg (walk (opts_next seg) fuel i) t)
      else .error .endless_loop := by
  -- on the turns; what is taken before goes with the block
  induction fuel generalizing i t with
  | zero => rfl
  | succ fuel ih =>
    rw [parse_opts_loop_succ, ended]
    unfold taken_options
    cases hnext : opts_next seg i with
    | none => simp only [walk_of_none hnext, hnext, if_true, List.filter_cons, Option.isSome_none,
        Bool.false_eq_true, if_false, List.filter_nil, List.foldl_nil]
    | some j =>
      simp only [walk_of_some hnext, List.filter_cons, hnext, Option.isSome_some, if_true,
        List.foldl_cons]
      exact ih j _

/-- `usnet_parse_tcptimestamp` finds the first timestamp it meets. -/
theorem parse_timestamp_loop_eq (seg : Segment) (fuel i : Nat) :
    parse_timestamp_loop seg fuel i =
      if ended (ts_next seg) fuel i then
        .ok ((walk (ts_next seg) fuel i).findSome? (take_timestamp seg))
      else .error .endless_loop := by
  induction fuel generalizing i with
  | zero => rfl
  | succ fuel ih =>
    rw [parse_timestamp_loop_succ, ended]
    cases hnext : ts_next seg i with
    | none =>
      rw [walk_of_none hnext, List.findSome?_cons]
      cases take_timestamp seg i <;> rfl
    -- the loop has gone on, so there was no timestamp here
    | some j =>
      have hnone : take_timestamp seg i = none := by
        unfold take_timestamp
        rw [if_neg]
        intro hts
        rw [ts_next_of_timestamp hts] at hnext
        cases hnext
      rw [walk_of_some hnext, List.findSome?_cons, hnone]
      exact ih j

/-! ## Section 2: Where the loops end -/

/-- A loop over options ends if some number of turns is enough for it. -/
def Ends {α : Type} (loop : Nat → Except Fault α) : Prop :=
  ∃ fuel, loop fuel ≠ .error .endless_loop

/-- An option of length zero that is passed by its length leads back to itself. -/
def zero_length (fields : UInt8 → Option Nat) (seg : Segment) (i : Nat) : Prop :=
  i < seg.opts.length ∧ seg.byte i ≠ TCPOPT_EOL ∧ seg.byte i ≠ TCPOPT_NOP ∧
    fields (seg.byte i) = none ∧ seg.byte (i + 1) = 0

section
variable {fields : UInt8 → Option Nat} {last : UInt8 → Bool} {seg : Segment} {i : Nat}

/-- No other option does. -/
theorem option_next_self_iff (hlast : ∀ b, last b = true → fields b ≠ none) :
    option_next fields last seg.byte seg.opts.length i = some i ↔ zero_length fields seg i := by
  unfold option_next zero_length
  by_cases hi : i < seg.opts.length
  · simp only [hi, if_true, true_and]
    by_cases heol : seg.byte i = TCPOPT_EOL
    · simp [heol]
    · by_cases hnop : seg.byte i = TCPOPT_NOP
      · simp [hnop, TCPOPT_NOP, TCPOPT_EOL]
      · simp only [heol, hnop, if_false, ne_eq, not_false_eq_true, true_and]
        by_cases hlong : i + 2 + (seg.byte (i + 1)).toNat - 2 > seg.opts.length
        · -- an option that is cut off is not of length zero
          have hne : seg.byte (i + 1) ≠ 0 := by
            intro h0
            rw [h0] at hlong
            have hlong : i + 2 + 0 - 2 > seg.opts.length := hlong
            omega
          simp only [hlong, if_true, hne, and_false, reduceCtorEq]
        · simp only [hlong, if_false]
          cases hf : fields (seg.byte i) with
          -- an option whose fields are read is passed by two bytes at least
          | some n =>
            split
            · simp
            · simp only [Option.some.injEq, reduceCtorEq, false_and, iff_false]
              omega
          | none =>
            have hnl : last (seg.byte i) = false := by
              cases hl : last (seg.byte i) with
              | false => rfl
              | true => exact absurd hf (hlast _ hl)
            simp only [hnl, Bool.false_eq_true, if_false, Option.some.injEq, true_and]
            rw [← UInt8.toNat_inj]
            show _ ↔ (seg.byte (i + 1)).toNat = 0
            omega
  · simp only [hi, if_false, false_and, reduceCtorEq]

/-- Turns up to the length of the options are enough where any number is. -/
theorem option_ended_iff (hlast : ∀ b, last b = true → fields b ≠ none) {fuel : Nat}
    (hfuel : seg.opts.length - i < fuel) :
    ended (option_next fields last seg.byte seg.opts.length) fuel i = true ↔
      ∀ j, Walk.Visited (option_next fields last seg.byte seg.opts.length) i j →
        ¬ zero_length fields seg j := by
  rw [ended_iff (option_next_forward fields last seg.byte seg.opts.length) hfuel]
  constructor
  · intro h j hj
    rw [← option_next_self_iff hlast]
    exact h j hj
  · intro h j hj
    rw [ne_eq, option_next_self_iff hlast]
    exact h j hj

/-- The loop goes the way of the walk and ends with it. -/
def FollowsWalk {α : Type} (fields : UInt8 → Option Nat) (last : UInt8 → Bool) (seg : Segment)
    (loop : Nat → Except Fault α) : Prop :=
  ∃ result : Nat → α, ∀ fuel, loop fuel =
    if ended (option_next fields last seg.byte seg.opts.length) fuel 0 then .ok (result fuel)
    else .error .endless_loop

section
variable {α : Type} {loop : Nat → Except Fault α} (h : FollowsWalk fields last seg loop)
include h

theorem FollowsWalk.ended_iff (fuel : Nat) :
    loop fuel ≠ .error .endless_loop ↔
      ended (option_next fields last seg.byte seg.opts.length) fuel 0 = true := by
  obtain ⟨result, h⟩ := h
  rw [h fuel]
  cases ended (option_next fields last seg.byte seg.opts.length) fuel 0 with
  | false => simp
  | true => simp

/-- It ends where the walk is not led back, -/
theorem FollowsWalk.ends_iff (hlast : ∀ b, last b = true → fields b ≠ none) :
    Ends loop ↔ ∀ j, Walk.Visited (option_next fields last seg.byte seg.opts.length) 0 j →
      ¬ zero_length fields seg j := by
  constructor
  · intro hends j hj
    obtain ⟨fuel, hfuel⟩ := hends
    rw [← option_next_self_iff hlast]
    exact ended_not_stuck ((h.ended_iff fuel).mp hfuel) hj
  -- no option leads back, so each turn comes closer to the end of the area
  · intro hnone
    refine ⟨seg.opts.length + 1, ?_⟩
    rw [h.ended_iff]
    exact (option_ended_iff hlast (by omega)).mpr hnone

/-- and then a turn for each byte is enough. -/
theorem FollowsWalk.enough (hlast : ∀ b, last b = true → fields b ≠ none) :
    loop (seg.opts.length + 1) ≠ .error .endless_loop ↔ Ends loop := by
  rw [h.ends_iff hlast, h.ended_iff, option_ended_iff hlast (by omega)]

end

end

theorem timestamp_has_fields (b : UInt8) (h : (b == TCPOPT_TIMESTAMP) = true) :
    timestamp_fields b ≠ none := by
  unfold timestamp_fields
  rw [if_pos (by simpa using h)]
  exact Option.some_ne_none 8

theorem parse_opts_follows (cur_time : UInt32) (seg : Segment) (t : UsnTcb) :
    FollowsWalk tcpopts_fields (fun _ => false) seg
      (fun fuel => parse_opts_loop cur_time seg fuel 0 t) :=
  ⟨_, fun fuel => parse_opts_loop_eq cur_time seg fuel 0 t⟩

theorem parse_timestamp_follows (seg : Segment) :
    FollowsWalk timestamp_fields (· == TCPOPT_TIMESTAMP) seg
      (fun fuel => parse_timestamp_loop seg fuel 0) :=
  ⟨_, fun fuel => parse_timestamp_loop_eq seg fuel 0⟩

/-- The turns `usnet_parse_tcpopts` is given are enough where any number is. -/
theorem usnet_parse_tcpopts_ends (cur_time : UInt32) (seg : Segment) (t : UsnTcb) :
    usnet_parse_tcpopts cur_time seg t ≠ .error .endless_loop ↔
      Ends fun fuel => parse_opts_loop cur_time seg fuel 0 t :=
  (parse_opts_follows cur_time seg t).enough (by simp)

theorem usnet_parse_tcptimestamp_ends (seg : Segment) :
    usnet_parse_tcptimestamp seg ≠ .error .endless_loop ↔
      Ends fun fuel => parse_timestamp_loop seg fuel 0 :=
  (parse_timestamp_follows seg).enough timestamp_has_fields

/-- Both parsers end if and only if they meet no option of length zero that they
    pass by its length. -/
theorem option_parsing_ends (seg : Segment) :
    (Ends (fun fuel => parse_timestamp_loop seg fuel 0) ↔
      ∀ i, Walk.Visited (ts_next seg) 0 i → ¬ zero_length timestamp_fields seg i) ∧
    ∀ (cur_time : UInt32) (t : UsnTcb),
      (Ends (fun fuel => parse_opts_loop cur_time seg fuel 0 t) ↔
        ∀ i, Walk.Visited (opts_next seg) 0 i → ¬ zero_length tcpopts_fields seg i) := by
  constructor
  · exact (parse_timestamp_follows seg).ends_iff timestamp_has_fields
  · intro cur_time t
    exact (parse_opts_follows cur_time seg t).ends_iff (by simp)

/-- The peer's SYN with the given options. -/
def with_opts (opts : List UInt8) : Segment :=
  { peer_segment 9000 0 TH_SYN [] nil_short with opts := opts }

/-- A SYN with an experimental option of length zero. -/
def stuck_syn : Segment := with_opts [254, 0, 1, 1]

theorem option_parsing_stuck :
    ¬ ∀ seg : Segment, Ends (fun fuel => parse_timestamp_loop seg fuel 0) ∧
      ∀ (cur_time : UInt32) (t : UsnTcb), Ends fun fuel => parse_opts_loop cur_time seg fuel 0 t := by
  intro h
  have hts := (h stuck_syn).1
  rw [(parse_timestamp_follows stuck_syn).ends_iff timestamp_has_fields] at hts
  apply hts 0 .refl
  unfold zero_length
  decide

/-! ## Section 3: The values found -/

/-- What the options of a SYN say. -/
structure OptionValues where
  mss : Option UInt16
  wscale : Option UInt8
  sack_permit : Bool
  ts_val : Option UInt32
  deriving DecidableEq

/-- The last option of a kind counts, of those found at the given positions. -/
def option_values (seg : Segment) (found : UInt8 → List Nat) : OptionValues :=
  { mss := (found TCPOPT_MAXSEG).getLast?.map fun i =>
      (seg.byte (i + 2)).toUInt16 <<< 8 + (seg.byte (i + 2 + 1)).toUInt16
    wscale := (found TCPOPT_WINDOW).getLast?.map fun i => seg.byte (i + 2)
    sack_permit := !(found TCPOPT_SACK_PERMITTED).isEmpty
    ts_val := (found TCPOPT_TIMESTAMP).getLast?.map fun i => seg.long (i + 2) }

/-- A block with these values in place of its own. -/
def UsnTcb.with_options (t : UsnTcb) (cur_time : UInt32) (v : OptionValues) : UsnTcb :=
  { t with
    saw_timestamp := t.saw_timestamp || v.ts_val.isSome
    sack_permit := t.sack_permit || v.sack_permit
    rcvvar := { t.rcvvar with
      ts_recent := v.ts_val.getD t.rcvvar.ts_recent
      ts_last_ts_upd := if v.ts_val.isSome then cur_time else t.rcvvar.ts_last_ts_upd }
    sndvar := { t.sndvar with
      mss := v.mss.getD t.sndvar.mss
      eff_mss := (v.mss.map (· - 12)).getD t.sndvar.eff_mss
      wscale := v.wscale.getD t.sndvar.wscale } }

/-- The options of a kind that `usnet_parse_tcpopts` takes. -/
def parsed_at (seg : Segment) (kind : UInt8) : List Nat :=
  ((walk (opts_next seg) (seg.opts.length + 1) 0).filter fun i => (opts_next seg i).isSome).filter
    fun i => seg.byte i == kind

/-- Options taken one after the other. -/
theorem take_options_eq (cur_time : UInt32) (seg : Segment) (l : List Nat) (t : UsnTcb) :
    l.foldl (fun t i => take_option cur_time seg i t) t =
      t.with_options cur_time
        (option_values seg fun kind => l.filter fun i => seg.byte i == kind) := by
  -- from the last option, which decides for its kind
  induction l using List.reverseRecOn with
  | nil =>
    unfold UsnTcb.with_options option_values
    simp
  | append_singleton l i ih =>
    rw [List.foldl_append, ih, List.foldl_cons, List.foldl_nil]
    unfold take_option UsnTcb.with_options option_values
    simp only [List.filter_append, List.filter_cons, List.filter_nil]
    -- the last option replaces what those before it have set
    by_cases hmss : seg.byte i = TCPOPT_MAXSEG
    · simp [hmss, TCPOPT_MAXSEG, TCPOPT_WINDOW, TCPOPT_SACK_PERMITTED, TCPOPT_TIMESTAMP]
    · by_cases hwin : seg.byte i = TCPOPT_WINDOW
      · simp [hwin, TCPOPT_MAXSEG, TCPOPT_WINDOW, TCPOPT_SACK_PERMITTED, TCPOPT_TIMESTAMP]
      · by_cases hsack : seg.byte i = TCPOPT_SACK_PERMITTED
        · simp [hsack, TCPOPT_MAXSEG, TCPOPT_WINDOW, TCPOPT_SACK_PERMITTED, TCPOPT_TIMESTAMP]
        · by_cases hts : seg.byte i = TCPOPT_TIMESTAMP
          · simp [hts, TCPOPT_MAXSEG, TCPOPT_WINDOW, TCPOPT_SACK_PERMITTED, TCPOPT_TIMESTAMP]
          · simp [hmss, hwin, hsack, hts]

/-- `usnet_parse_tcpopts` sets what the options it takes say, and nothing else. -/
theorem usnet_parse_tcpopts_eq {cur_time : UInt32} {seg : Segment} {t : UsnTcb}
    (h : usnet_parse_tcpopts cur_time seg t ≠ .error .endless_loop) :
    usnet_parse_tcpopts cur_time seg t =
      .ok (t.with_options cur_time (option_values seg (parsed_at seg))) := by
  unfold usnet_parse_tcpopts at h ⊢
  rw [parse_opts_loop_eq] at h ⊢
  split
  · exact congrArg Except.ok (take_options_eq cur_time seg _ t)
  · rename_i hnot
    rw [if_neg hnot] at h
    exact absurd rfl h

/-- `usnet_parse_tcptimestamp` finds the timestamp it comes to first. -/
theorem usnet_parse_tcptimestamp_eq {seg : Segment}
    (h : usnet_parse_tcptimestamp seg ≠ .error .endless_loop) :
    usnet_parse_tcptimestamp seg =
      .ok ((walk (ts_next seg) (seg.opts.length + 1) 0).findSome? (take_timestamp seg)) := by
  unfold usnet_parse_tcptimestamp at h ⊢
  rw [parse_timestamp_loop_eq] at h ⊢
  split
  · rfl
  · rename_i hnot
    rw [if_neg hnot] at h
    exact absurd rfl h

/-! ## Section 4: The options as their length bytes delimit them -/

/-- The option at `i` has a length byte and ends among the options. -/
def complete (seg : Segment) (i : Nat) : Bool :=
  i + 1 < seg.opts.length && i + (seg.byte (i + 1)).toNat ≤ seg.opts.length

/-- The option after the one at `i` where every option but EOL and NOP takes up
    the length it declares and an incomplete one ends the walk. -/
def declared_next (last : UInt8 → Bool) (seg : Segment) (i : Nat) : Option Nat :=
  if i < seg.opts.length then
    if seg.byte i = TCPOPT_EOL then none
    else if seg.byte i = TCPOPT_NOP then some (i + 1)
    else if complete seg i = false ∨ last (seg.byte i) = true then none
    else some (i + (seg.byte (i + 1)).toNat)
  else none

/-- The options of a kind on this walk whose fields fit their length. -/
def declared_at (fields : UInt8 → Option Nat) (last : UInt8 → Bool) (seg : Segment)
    (kind : UInt8) : List Nat :=
  (walk (declared_next last seg) (seg.opts.length + 1) 0).filter fun i =>
    complete seg i && seg.byte i == kind &&
      decide ((fields kind).getD 0 + 2 ≤ (seg.byte (i + 1)).toNat)

/-- Every byte read is an option's. -/
def ReadsInside (fields : UInt8 → Option Nat) (last : UInt8 → Bool) (seg : Segment) : Prop :=
  ∀ i, Walk.Visited (option_next fields last seg.byte seg.opts.length) 0 i →
    ∀ k < option_size fields seg.byte seg.opts.length i, i + k < seg.opts.length

/-- Every option met is followed by the one its declared length leads to. -/
def FollowsDeclared (fields : UInt8 → Option Nat) (last : UInt8 → Bool) (seg : Segment) : Prop :=
  ∀ i, Walk.Visited (option_next fields last seg.byte seg.opts.length) 0 i →
    option_next fields last seg.byte seg.opts.length i = declared_next last seg i

/-- The option at `i` has a length byte and, if it is complete, the length its
    kind has in the code; the last one read may be longer. -/
def well_declared_at (fields : UInt8 → Option Nat) (last : UInt8 → Bool) (seg : Segment)
    (i : Nat) : Prop :=
  i < seg.opts.length → seg.byte i ≠ TCPOPT_EOL → seg.byte i ≠ TCPOPT_NOP →
    i + 1 < seg.opts.length ∧
    (i + (seg.byte (i + 1)).toNat ≤ seg.opts.length → ∀ n, fields (seg.byte i) = some n →
      if last (seg.byte i) then n + 2 ≤ (seg.byte (i + 1)).toNat
      else (seg.byte (i + 1)).toNat = n + 2)

/-- The same for all options, as their length bytes delimit them. -/
def well_declared (fields : UInt8 → Option Nat) (last : UInt8 → Bool) (seg : Segment) : Prop :=
  ∀ i, Walk.Visited (declared_next last seg) 0 i → well_declared_at fields last seg i

section
variable {fields : UInt8 → Option Nat} {last : UInt8 → Bool} {seg : Segment} {i : Nat}

/-- Such an option is followed as it declares. -/
theorem well_declared_at.next (h : well_declared_at fields last seg i) :
    option_next fields last seg.byte seg.opts.length i = declared_next last seg i := by
  unfold option_next declared_next complete
  by_cases hi : i < seg.opts.length
  · rw [if_pos hi, if_pos hi]
    by_cases heol : seg.byte i = TCPOPT_EOL
    · rw [if_pos heol, if_pos heol]
    · by_cases hnop : seg.byte i = TCPOPT_NOP
      · rw [if_neg heol, if_neg heol, if_pos hnop, if_pos hnop]
      · obtain ⟨hlen, hn⟩ := h hi heol hnop
        rw [if_neg heol, if_neg heol, if_neg hnop, if_neg hnop]
        by_cases hlong : i + 2 + (seg.byte (i + 1)).toNat - 2 > seg.opts.length
        · rw [if_pos hlong, if_pos]
          left
          simp only [Bool.and_eq_false_iff, decide_eq_false_iff_not]
          omega
        · rw [if_neg hlong]
          have hend : i + (seg.byte (i + 1)).toNat ≤ seg.opts.length := by omega
          simp only [hlen, hend, decide_true, Bool.and_self, Bool.true_eq_false, false_or]
          cases hl : last (seg.byte i) with
          | true => simp
          | false =>
            simp only [Bool.false_eq_true, if_false]
            cases hf : fields (seg.byte i) with
            | none =>
              simp only [Option.some.injEq]
              omega
            | some n =>
              have hn := hn hend n hf
              rw [hl, if_neg Bool.false_ne_true] at hn
              simp only [Option.some.injEq]
              omega
  · rw [if_neg hi, if_neg hi]

/-- What is read of it is its own. -/
theorem well_declared_at.inside (h : well_declared_at fields last seg i) {k : Nat}
    (hk : k < option_size fields seg.byte seg.opts.length i) : i + k < seg.opts.length := by
  unfold option_size at hk
  split at hk
  · rename_i hi
    split at hk
    · omega
    · rename_i hkind
      simp only [not_or] at hkind
      obtain ⟨hlen, hn⟩ := h hi hkind.1 hkind.2
      split at hk
      · omega
      · rename_i hlong
        have hend : i + (seg.byte (i + 1)).toNat ≤ seg.opts.length := by omega
        cases hf : fields (seg.byte i) with
        | none =>
          simp only [hf, Option.getD_none] at hk
          omega
        | some n =>
          have hn := hn hend n hf
          simp only [hf, Option.getD_some] at hk
          split at hn <;> omega
  · omega

/-- An option that is not so is one that ends the loop, or shows. -/
theorem well_declared_at_of (hinside : ∀ k < option_size fields seg.byte seg.opts.length i,
      i + k < seg.opts.length)
    (hnext : option_next fields last seg.byte seg.opts.length i = declared_next last seg i)
    (hlast : last (seg.byte i) = true → complete seg i = true →
      ∀ n, fields (seg.byte i) = some n → n + 2 ≤ (seg.byte (i + 1)).toNat) :
    well_declared_at fields last seg i := by
  intro hi heol hnop
  have hlen : i + 1 < seg.opts.length := by
    apply hinside
    unfold option_size
    rw [if_pos hi, if_neg (by simp [heol, hnop])]
    split <;> omega
  refine ⟨hlen, ?_⟩
  intro hend n hf
  have hcomplete : complete seg i = true := by
    unfold complete
    simp [hlen, hend]
  cases hl : last (seg.byte i) with
  | true =>
    rw [if_pos rfl]
    exact hlast hl hcomplete n hf
  | false =>
    -- both walks go on from here, and to the same place: the lengths agree
    unfold option_next declared_next at hnext
    rw [if_pos hi, if_neg heol, if_neg hnop, if_neg (by omega), hl, if_neg Bool.false_ne_true, hf,
      if_pos hi, if_neg heol, if_neg hnop, if_neg (by simp [hcomplete])] at hnext
    simp only [Option.some.injEq] at hnext
    rw [if_neg Bool.false_ne_true]
    omega

/-- Both walks over well declared options are the same. -/
theorem well_declared.visited (h : well_declared fields last seg) (i : Nat) :
    Walk.Visited (option_next fields last seg.byte seg.opts.length) 0 i ↔
      Walk.Visited (declared_next last seg) 0 i :=
  visited_congr (fun j hj => (h j hj).next.symm) i

theorem well_declared.walk (h : well_declared fields last seg) (fuel : Nat) :
    Walk.walk (option_next fields last seg.byte seg.opts.length) fuel 0 =
      Walk.walk (declared_next last seg) fuel 0 :=
  walk_congr fuel fun j hj => (h j hj).next.symm

/-- The fields of an option that is read fit the length it declares. -/
def last_fits (fields : UInt8 → Option Nat) (last : UInt8 → Bool) (seg : Segment) : Prop :=
  ∀ i, Walk.Visited (declared_next last seg) 0 i → last (seg.byte i) = true →
    complete seg i = true → ∀ n, fields (seg.byte i) = some n →
      n + 2 ≤ (seg.byte (i + 1)).toNat

/-- Well declared options are read and followed as they declare, and only they
    are. -/
theorem well_declared_iff (hkinds : ∀ b, fields b ≠ none → b ≠ TCPOPT_EOL ∧ b ≠ TCPOPT_NOP) :
    well_declared fields last seg ↔
      ReadsInside fields last seg ∧ FollowsDeclared fields last seg ∧
        last_fits fields last seg := by
  constructor
  · intro h
    refine ⟨?_, ?_, ?_⟩
    · intro i hi k hk
      exact (h i ((h.visited i).mp hi)).inside hk
    · intro i hi
      exact (h i ((h.visited i).mp hi)).next
    · intro i hi hl hc n hn
      obtain ⟨heol, hnop⟩ := hkinds (seg.byte i) (by simp [hn])
      unfold complete at hc
      simp only [Bool.and_eq_true, decide_eq_true_eq] at hc
      have hn := ((h i hi) (by omega) heol hnop).2 hc.2 n hn
      rwa [if_pos hl] at hn
  -- followed as declared, the options met by the code are those of the declared walk
  · rintro ⟨hinside, hfollows, hlast⟩ i hi
    have hv := (visited_congr hfollows i).mp hi
    exact well_declared_at_of (hinside i hv) (hfollows i hv) (hlast i hi)

end

theorem tcpopts_kinds (b : UInt8) (h : tcpopts_fields b ≠ none) :
    b ≠ TCPOPT_EOL ∧ b ≠ TCPOPT_NOP := by
  constructor
  · rintro rfl
    exact h rfl
  · rintro rfl
    exact h rfl

theorem timestamp_kinds (b : UInt8) (h : timestamp_fields b ≠ none) :
    b ≠ TCPOPT_EOL ∧ b ≠ TCPOPT_NOP := by
  constructor
  · rintro rfl
    exact h rfl
  · rintro rfl
    exact h rfl

/-! ### The values -/

/-- Among well declared options `usnet_parse_tcpopts` takes those that are
    complete. -/
theorem parsed_at_eq_declared {seg : Segment}
    (h : well_declared tcpopts_fields (fun _ => false) seg) {kind : UInt8} {n : Nat}
    (hn : tcpopts_fields kind = some n) :
    parsed_at seg kind = declared_at tcpopts_fields (fun _ => false) seg kind := by
  unfold parsed_at declared_at
  rw [show walk (opts_next seg) _ 0 = _ from h.walk _, List.filter_filter]
  apply List.filter_congr
  intro i hi
  have hwell := h i (Visited.of_walk hi)
  rw [show opts_next seg i = _ from hwell.next, hn, Option.getD_some]
  by_cases hkind : seg.byte i = kind
  · subst hkind
    obtain ⟨heol, hnop⟩ := tcpopts_kinds (seg.byte i) (by simp [hn])
    unfold declared_next
    by_cases hc : complete seg i = true
    · -- a complete option of a kind that is read has its length
      have hlt : i + 1 < seg.opts.length ∧ i + (seg.byte (i + 1)).toNat ≤ seg.opts.length := by
        unfold complete at hc
        simpa using hc
      have hlen := (hwell (by omega) heol hnop).2 hlt.2 n hn
      simp only [Bool.false_eq_true, if_false] at hlen
      have hi : i < seg.opts.length := by omega
      have hge : n + 2 ≤ (seg.byte (i + 1)).toNat := by omega
      simp [hi, heol, hnop, hc, hge]
    -- cut off, it is neither taken nor counted
    · have hc : complete seg i = false := by simpa using hc
      simp [heol, hnop, hc]
  · have hne : (seg.byte i == kind) = false := by simpa using hkind
    simp only [hne, Bool.and_false, Bool.false_and]

/-- `usnet_parse_tcpopts` reads inside the options, follows their lengths and sets
    what they say. -/
def tcpopts_as_declared (seg : Segment) : Prop :=
  ReadsInside tcpopts_fields (fun _ => false) seg ∧
  FollowsDeclared tcpopts_fields (fun _ => false) seg ∧
  ∀ (cur_time : UInt32) (t : UsnTcb), usnet_parse_tcpopts cur_time seg t =
    .ok (t.with_options cur_time
      (option_values seg (declared_at tcpopts_fields (fun _ => false) seg)))

/-- `usnet_parse_tcptimestamp` does, and finds the first timestamp. -/
def timestamp_as_declared (seg : Segment) : Prop :=
  ReadsInside timestamp_fields (· == TCPOPT_TIMESTAMP) seg ∧
  FollowsDeclared timestamp_fields (· == TCPOPT_TIMESTAMP) seg ∧
  usnet_parse_tcptimestamp seg =
    .ok ((declared_at timestamp_fields (· == TCPOPT_TIMESTAMP) seg TCPOPT_TIMESTAMP).head?.map
      fun i => (seg.long (i + 2), seg.long (i + 2 + 4)))

theorem tcpopts_as_declared_iff {seg : Segment}
    (hends : ∀ (cur_time : UInt32) (t : UsnTcb),
      Ends fun fuel => parse_opts_loop cur_time seg fuel 0 t) :
    tcpopts_as_declared seg ↔ well_declared tcpopts_fields (fun _ => false) seg := by
  rw [well_declared_iff tcpopts_kinds]
  constructor
  -- this parser goes on behind every option, so none is the last
  · rintro ⟨hinside, hfollows, -⟩
    refine ⟨hinside, hfollows, ?_⟩
    intro i _ hl
    cases hl
  · intro h
    refine ⟨h.1, h.2.1, ?_⟩
    have hwell := (well_declared_iff tcpopts_kinds).mpr h
    intro cur_time t
    rw [usnet_parse_tcpopts_eq ((usnet_parse_tcpopts_ends cur_time seg t).mpr (hends cur_time t))]
    unfold option_values
    rw [parsed_at_eq_declared hwell (n := 2) rfl, parsed_at_eq_declared hwell (n := 1) rfl,
      parsed_at_eq_declared hwell (n := 0) rfl, parsed_at_eq_declared hwell (n := 8) rfl]

/-- What is found at the first place that has it. -/
theorem findSome?_eq_find? {α β : Type} {g : α → Option β} {p : α → Bool} {f : α → β}
    {l : List α} (h : ∀ a ∈ l, g a = if p a then some (f a) else none) :
    l.findSome? g = (l.find? p).map f := by
  induction l with
  | nil => rfl
  | cons a l ih =>
    have ih := ih fun b hb => h b (List.mem_cons_of_mem a hb)
    rw [List.findSome?_cons, List.find?_cons, h a List.mem_cons_self]
    cases p a with
    | true => rfl
    | false => exact ih

/-- Among well declared options the first timestamp is the first that is complete. -/
theorem declared_at_timestamp {seg : Segment}
    (h : well_declared timestamp_fields (· == TCPOPT_TIMESTAMP) seg) :
    (walk (ts_next seg) (seg.opts.length + 1) 0).findSome? (take_timestamp seg) =
      (declared_at timestamp_fields (· == TCPOPT_TIMESTAMP) seg TCPOPT_TIMESTAMP).head?.map
        fun i => (seg.long (i + 2), seg.long (i + 2 + 4)) := by
  unfold declared_at
  rw [show walk (ts_next seg) _ 0 = _ from h.walk _, List.head?_filter]
  apply findSome?_eq_find?
  intro i hi
  have hwell := h i (Visited.of_walk hi)
  unfold take_timestamp timestamp_at complete
  by_cases hts : seg.byte i = TCPOPT_TIMESTAMP
  · by_cases hlt : i < seg.opts.length
    · obtain ⟨hlen, hn⟩ := hwell hlt (by rw [hts]; decide) (by rw [hts]; decide)
      by_cases hend : i + (seg.byte (i + 1)).toNat ≤ seg.opts.length
      · have hge := hn hend 8 (if_pos hts)
        rw [if_pos (by simpa using hts)] at hge
        have hlong : ¬ i + 2 + (seg.byte (i + 1)).toNat - 2 > seg.opts.length := by omega
        have h8 : (timestamp_fields TCPOPT_TIMESTAMP).getD 0 + 2 ≤ (seg.byte (i + 1)).toNat := hge
        simp [hlt, hlen, hts, hend, hlong, h8]
      · have hlong : i + 2 + (seg.byte (i + 1)).toNat - 2 > seg.opts.length := by omega
        simp [hend, hlong]
    · have hlen : ¬ i + 1 < seg.opts.length := by omega
      simp [hlt, hlen]
  · simp [hts]

/-- A timestamp that is found has its fields in an option of that length. -/
theorem last_fits_of_timestamp {seg : Segment}
    (hfollows : FollowsDeclared timestamp_fields (· == TCPOPT_TIMESTAMP) seg)
    (hvalue : (walk (ts_next seg) (seg.opts.length + 1) 0).findSome? (take_timestamp seg) =
      (declared_at timestamp_fields (· == TCPOPT_TIMESTAMP) seg TCPOPT_TIMESTAMP).head?.map
        fun i => (seg.long (i + 2), seg.long (i + 2 + 4))) :
    last_fits timestamp_fields (· == TCPOPT_TIMESTAMP) seg := by
  intro i hi hl hc n hn
  have hts : seg.byte i = TCPOPT_TIMESTAMP := by simpa using hl
  have hc' : i + 1 < seg.opts.length ∧ i + (seg.byte (i + 1)).toNat ≤ seg.opts.length := by
    unfold complete at hc
    simpa using hc
  have hat : timestamp_at seg i = true := by
    unfold timestamp_at
    have hlt : i < seg.opts.length := by omega
    have hlong : ¬ i + 2 + (seg.byte (i + 1)).toNat - 2 > seg.opts.length := by omega
    simp [hlt, hts, hlong]
  -- something is found, so there is an option with a timestamp in it
  have hmem : i ∈ walk (ts_next seg) (seg.opts.length + 1) 0 := by
    apply (mem_walk_iff (option_next_forward _ _ _ _) (by omega)).mpr
    exact (visited_congr hfollows i).mp hi
  have hsome : ((walk (ts_next seg) (seg.opts.length + 1) 0).findSome?
      (take_timestamp seg)).isSome = true := by
    rw [List.findSome?_isSome_iff]
    refine ⟨i, hmem, ?_⟩
    unfold take_timestamp
    rw [if_pos hat]
    rfl
  rw [hvalue, Option.isSome_map, List.isSome_head?] at hsome
  obtain ⟨j, hj⟩ := List.exists_mem_of_ne_nil _ (by simpa using hsome)
  unfold declared_at at hj
  simp only [List.mem_filter, Bool.and_eq_true, beq_iff_eq, decide_eq_true_eq] at hj
  obtain ⟨hjw, ⟨hjc, hjts⟩, hj8⟩ := hj
  -- and it is this one, where the walk ends
  have hend : ∀ k, complete seg k = true → seg.byte k = TCPOPT_TIMESTAMP →
      declared_next (· == TCPOPT_TIMESTAMP) seg k = none := by
    intro k hk hkts
    unfold declared_next
    simp only [hk, hkts, beq_self_eq_true, or_true, if_true]
    split <;> rfl
  have heq : j = i := visited_end_unique (Visited.of_walk hjw) hi (hend j hjc hjts) (hend i hc hts)
  rw [hts] at hn
  obtain rfl : 8 = n := Option.some.inj hn
  rw [← heq]
  exact hj8

theorem timestamp_as_declared_iff {seg : Segment}
    (hends : Ends fun fuel => parse_timestamp_loop seg fuel 0) :
    timestamp_as_declared seg ↔ well_declared timestamp_fields (· == TCPOPT_TIMESTAMP) seg := by
  unfold timestamp_as_declared
  rw [usnet_parse_tcptimestamp_eq ((usnet_parse_tcptimestamp_ends seg).mpr hends)]
  constructor
  -- the timestamp ends the walk, so only its value tells about its own length
  · rintro ⟨hinside, hfollows, hvalue⟩
    rw [well_declared_iff timestamp_kinds]
    exact ⟨hinside, hfollows, last_fits_of_timestamp hfollows (Except.ok.inj hvalue)⟩
  · intro h
    have hparts := (well_declared_iff timestamp_kinds).mp h
    exact ⟨hparts.1, hparts.2.1, congrArg Except.ok (declared_at_timestamp h)⟩

/-- Where the parsers end they read the options as these declare themselves if and
    only if every option has a length byte and, where it is complete, the length
    its kind has in the code. -/
theorem option_parsing_declared (seg : Segment) :
    ((∀ (cur_time : UInt32) (t : UsnTcb), Ends fun fuel => parse_opts_loop cur_time seg fuel 0 t) →
      (tcpopts_as_declared seg ↔ well_declared tcpopts_fields (fun _ => false) seg)) ∧
    (Ends (fun fuel => parse_timestamp_loop seg fuel 0) →
      (timestamp_as_declared seg ↔
        well_declared timestamp_fields (· == TCPOPT_TIMESTAMP) seg)) := by
  constructor
  · intro hends
    exact tcpopts_as_declared_iff hends
  · intro hends
    exact timestamp_as_declared_iff hends

/-- A loop whose walk ends in a number of turns. -/
theorem FollowsWalk.ends_of {α : Type} {loop : Nat → Except Fault α}
    {fields : UInt8 → Option Nat} {last : UInt8 → Bool} {seg : Segment}
    (h : FollowsWalk fields last seg loop) (fuel : Nat)
    (hend : ended (option_next fields last seg.byte seg.opts.length) fuel 0 = true) :
    Ends loop := ⟨fuel, (h.ended_iff fuel).mpr hend⟩

/-- The SYN of a peer that sends its maximum segment size only. -/
def mss_syn : Segment := with_opts [2, 4, 5, 0xb4]

theorem mss_syn_visited {last : UInt8 → Bool} {i : Nat} (hlast : last 2 = false)
    (h : Walk.Visited (declared_next last mss_syn) 0 i) : i = 0 ∨ i = 4 := by
  have hfirst : declared_next last mss_syn 0 = some 4 := by
    have hlast : last (mss_syn.byte 0) = false := hlast
    have hgo : ¬ (complete mss_syn 0 = false ∨ last (mss_syn.byte 0) = true) := by
      rw [hlast]
      decide
    exact if_neg hgo
  induction h with
  | refl => exact .inl rfl
  | tail _ hstep ih =>
    rcases ih with rfl | rfl
    · rw [hfirst] at hstep
      exact .inr (Option.some.inj hstep).symm
    · cases hstep

theorem option_parsing_declared_syn :
    tcpopts_as_declared mss_syn ∧ timestamp_as_declared mss_syn := by
  refine ⟨((option_parsing_declared mss_syn).1 fun cur_time t => ?_).mpr fun i hi => ?_,
    ((option_parsing_declared mss_syn).2 ?_).mpr fun i hi => ?_⟩
  · exact (parse_opts_follows cur_time mss_syn t).ends_of 2 rfl
  · rcases mss_syn_visited rfl hi with rfl | rfl
    · intro _ _ _
      refine ⟨by decide, ?_⟩
      rintro - n hn
      obtain rfl : 2 = n := Option.some.inj hn
      rfl
    · intro hlt
      exact absurd hlt (by decide)
  · exact (parse_timestamp_follows mss_syn).ends_of 2 rfl
  · rcases mss_syn_visited rfl hi with rfl | rfl
    · intro _ _ _
      refine ⟨by decide, ?_⟩
      rintro - n hn
      cases hn
    · intro hlt
      exact absurd hlt (by decide)

/-- A SYN whose last option is a maximum segment size of two bytes. -/
def short_mss_syn : Segment := with_opts [1, 1, 2, 2]

/-- The value is read from behind the options. -/
theorem option_parsing_behind :
    ¬ ∀ seg : Segment,
      ((∀ (cur_time : UInt32) (t : UsnTcb),
        Ends fun fuel => parse_opts_loop cur_time seg fuel 0 t) → tcpopts_as_declared seg) ∧
      (Ends (fun fuel => parse_timestamp_loop seg fuel 0) → timestamp_as_declared seg) := by
  intro h
  have hinside := ((h short_mss_syn).1 fun cur_time t =>
    (parse_opts_follows cur_time short_mss_syn t).ends_of 5 rfl).1
  -- past the two NOPs
  have hv : Walk.Visited (opts_next short_mss_syn) 0 2 :=
    .tail (.tail .refl (show opts_next short_mss_syn 0 = some 1 from rfl)) rfl
  have hlt := hinside 2 hv 2 (by decide)
  exact absurd hlt (by decide)

/-! ## Section 5: Generated options -/

/-- The bytes of the option area are those it is made of. -/
theorem Segment.byte_of_opts {seg : Segment} {l : List UInt8} {i : Nat} (h : seg.opts = l)
    (hi : i < l.length) : seg.byte i = l[i] := by
  unfold Segment.byte
  rw [h, List.append_assoc, List.getD_eq_getElem?_getD, List.getElem?_append_left hi,
    List.getElem?_eq_getElem hi, Option.getD_some]

/-- A value written by `htonl` reads back. -/
theorem Segment.long_of_be32 {seg : Segment} (l l' : List UInt8) {x : UInt32}
    (h : seg.opts = l ++ be32 x ++ l') : seg.long l.length = x := by
  have hb : ∀ k (hk : k < 4), seg.byte (l.length + k) = (be32 x).get ⟨k, hk⟩ := by
    intro k hk
    have hlt : l.length + k < (l ++ be32 x).length := by
      rw [List.length_append]
      exact Nat.add_lt_add_left hk _
    rw [Segment.byte_of_opts h (by rw [List.length_append]; omega), List.getElem_append_left hlt,
      List.getElem_append_right (by omega)]
    congr 1
    exact Nat.add_sub_cancel_left _ _
  unfold Segment.long
  rw [show seg.byte l.length = _ from hb 0 (by decide), hb 1 (by decide), hb 2 (by decide),
    hb 3 (by decide)]
  exact word_of_bytes x

/-- The options of a SYN, for whatever block they are received. -/
theorem syn_options_read_back (s : Conn) {flags : UInt8} (hsyn : has flags TH_SYN = true)
    (seg : Segment) (h : seg.opts = usnet_generate_tcpopts s flags) (cur_time : UInt32)
    (t : UsnTcb) :
    usnet_parse_tcpopts cur_time seg t = .ok (t.with_options cur_time
      { mss := some s.tcb.sndvar.mss, wscale := some s.tcb.sndvar.wscale, sack_permit := false
        ts_val := some s.ctx.cur_time }) := by
  unfold usnet_generate_tcpopts at h
  rw [if_pos hsyn] at h
  have hlen : seg.opts.length = 20 := by
    rw [h]
    rfl
  have hb : ∀ i (hi : i < 20), seg.byte i = _ := fun i hi => Segment.byte_of_opts h hi
  have hts : seg.long 8 = s.ctx.cur_time :=
    Segment.long_of_be32 [_, _, _, _, _, _, _, _] (be32 _ ++ [_, _, _, _]) h
  -- MSS, two NOPs, the timestamp, a NOP and the window scale
  have k0 : seg.byte 0 = TCPOPT_MAXSEG := hb 0 (by decide)
  have k4 : seg.byte 4 = TCPOPT_NOP := hb 4 (by decide)
  have k5 : seg.byte 5 = TCPOPT_NOP := hb 5 (by decide)
  have k6 : seg.byte 6 = TCPOPT_TIMESTAMP := hb 6 (by decide)
  have k16 : seg.byte 16 = TCPOPT_NOP := hb 16 (by decide)
  have k17 : seg.byte 17 = TCPOPT_WINDOW := hb 17 (by decide)
  -- where each of them leads
  have n0 : opts_next seg 0 = some 4 := by
    unfold opts_next option_next
    rw [hlen, k0, hb (0 + 1) (by decide)]
    rfl
  have n4 : opts_next seg 4 = some 5 := by
    unfold opts_next option_next
    rw [hlen, k4]
    rfl
  have n5 : opts_next seg 5 = some 6 := by
    unfold opts_next option_next
    rw [hlen, k5]
    rfl
  have n6 : opts_next seg 6 = some 16 := by
    unfold opts_next option_next
    rw [hlen, k6, hb (6 + 1) (by decide)]
    rfl
  have n16 : opts_next seg 16 = some 17 := by
    unfold opts_next option_next
    rw [hlen, k16]
    rfl
  have n17 : opts_next seg 17 = some 20 := by
    unfold opts_next option_next
    rw [hlen, k17, hb (17 + 1) (by decide)]
    rfl
  have n20 : opts_next seg 20 = none := by
    unfold opts_next option_next
    rw [hlen]
    rfl
  -- the fields behind the first and the last
  have hmss : (seg.byte (0 + 2)).toUInt16 <<< 8 + (seg.byte (0 + 2 + 1)).toUInt16 =
      s.tcb.sndvar.mss := by
    rw [hb (0 + 2) (by decide), hb (0 + 2 + 1) (by decide)]
    exact half_of_bytes _
  have hws : seg.byte (17 + 2) = s.tcb.sndvar.wscale := hb 19 (by decide)
  have hwalk : walk (opts_next seg) 21 0 = [0, 4, 5, 6, 16, 17, 20] := by
    rw [walk_of_some n0, walk_of_some n4, walk_of_some n5, walk_of_some n6, walk_of_some n16,
      walk_of_some n17, walk_of_none n20]
  have hends : usnet_parse_tcpopts cur_time seg t ≠ .error .endless_loop := by
    apply (usnet_parse_tcpopts_ends cur_time seg t).mpr
    apply (parse_opts_follows cur_time seg t).ends_of 7
    show ended (opts_next seg) 7 0 = true
    simp only [ended, n0, n4, n5, n6, n16, n17, n20]
  have hat : ∀ kind, parsed_at seg kind =
      [0, 4, 5, 6, 16, 17].filter fun i => seg.byte i == kind := by
    intro kind
    unfold parsed_at
    rw [hlen, hwalk]
    simp only [List.filter_cons, n0, n4, n5, n6, n16, n17, n20, Option.isSome_some,
      Option.isSome_none, if_true, Bool.false_eq_true, if_false, List.filter_nil]
  have hmax : parsed_at seg TCPOPT_MAXSEG = [0] := by
    rw [hat]
    simp only [List.filter_cons, k0, k4, k5, k6, k16, k17]
    rfl
  have hwin : parsed_at seg TCPOPT_WINDOW = [17] := by
    rw [hat]
    simp only [List.filter_cons, k0, k4, k5, k6, k16, k17]
    rfl
  have hsack : parsed_at seg TCPOPT_SACK_PERMITTED = [] := by
    rw [hat]
    simp only [List.filter_cons, k0, k4, k5, k6, k16, k17]
    rfl
  have htime : parsed_at seg TCPOPT_TIMESTAMP = [6] := by
    rw [hat]
    simp only [List.filter_cons, k0, k4, k5, k6, k16, k17]
    rfl
  rw [usnet_parse_tcpopts_eq hends]
  unfold option_values
  rw [hmax, hwin, hsack, htime, ← hmss, ← hts, ← hws]
  rfl

/-- The timestamp of any other segment. -/
theorem timestamp_reads_back {seg : Segment} {l : List UInt8} {ts_val ts_ref : UInt32}
    (h : seg.opts = [TCPOPT_NOP, TCPOPT_NOP, TCPOPT_TIMESTAMP, TCPOLEN_TIMESTAMP] ++
      be32 ts_val ++ be32 ts_ref ++ l) :
    usnet_parse_tcptimestamp seg = .ok (some (ts_val, ts_ref)) := by
  have hlen : seg.opts.length = l.length + 12 := by
    rw [h]
    simp [be32]
  have hb : ∀ i (hi : i < 12), seg.byte i =
      ([TCPOPT_NOP, TCPOPT_NOP, TCPOPT_TIMESTAMP, TCPOLEN_TIMESTAMP] ++ be32 ts_val ++
        be32 ts_ref).get ⟨i, hi⟩ := by
    intro i hi
    rw [Segment.byte_of_opts h (by simp [be32]; omega)]
    exact List.getElem_append_left _
  have hval : seg.long 4 = ts_val := Segment.long_of_be32 [_, _, _, _] (be32 ts_ref ++ l)
    (by rw [h, List.append_assoc])
  have href : seg.long 8 = ts_ref :=
    Segment.long_of_be32 [_, _, _, _, _, _, _, _] l h
  have n0 : ts_next seg 0 = some 1 := by
    unfold ts_next option_next
    rw [if_pos (by omega), hb 0 (by decide)]
    rfl
  have n1 : ts_next seg 1 = some 2 := by
    unfold ts_next option_next
    rw [if_pos (by omega), hb 1 (by decide)]
    rfl
  -- padding behind the twelve bytes does no harm, the parser does not come to it
  have hat : timestamp_at seg 2 = true := by
    unfold timestamp_at
    rw [hb 2 (by decide), show seg.byte (2 + 1) = TCPOLEN_TIMESTAMP from hb 3 (by decide), hlen]
    have hlong : ¬ 2 + 2 + TCPOLEN_TIMESTAMP.toNat - 2 > l.length + 12 := by
      show ¬ 12 > l.length + 12
      omega
    simp [hlong]
  have n2 : ts_next seg 2 = none := ts_next_of_timestamp hat
  unfold usnet_parse_tcptimestamp
  rw [hlen, parse_timestamp_loop_succ, n0]
  show parse_timestamp_loop seg (l.length + 11 + 1) 1 = _
  rw [parse_timestamp_loop_succ, n1]
  show parse_timestamp_loop seg (l.length + 10 + 1) 2 = _
  rw [parse_timestamp_loop_succ, n2]
  unfold take_timestamp
  rw [if_pos hat, hval, href]

/-- The frame of a segment of no connection, if it is sent. -/
theorem usnet_send_tcp_packet_alone_frame (c : Ctx) (saddr : UInt32) (sport : UInt16)
    (daddr : UInt32) (dport : UInt16) (seq ack_seq : UInt32) (window : UInt16) (flags : UInt8)
    (payload : List UInt8) (cur_ts echo_ts : UInt32) :
    let c' := (usnet_send_tcp_packet_alone c saddr sport daddr dport seq ack_seq window flags
      payload cur_ts echo_ts).2
    c'.frames = c.frames ∨ ∃ f : Frame, c'.frames = c.frames ++ [f] ∧ f.opts =
      [TCPOPT_NOP, TCPOPT_NOP, TCPOPT_TIMESTAMP, TCPOLEN_TIMESTAMP] ++ be32 cur_ts ++
        be32 echo_ts ++ List.replicate ((usnet_get_tcpopt_length flags).toNat - 12) 0 := by
  unfold usnet_send_tcp_packet_alone
  simp only [usnet_ipv4_output_ctx]
  split
  · exact .inl rfl
  · split
    · exact .inl rfl
    · exact .inr ⟨_, rfl, rfl⟩

/-- What the stack writes into the options of its segments is what its parsers
    read from them. -/
theorem generated_options_read_back (s : Conn) (flags : UInt8) (seg : Segment) :
    (has flags TH_SYN = true → seg.opts = usnet_generate_tcpopts s flags →
      seg.opts.length = (usnet_get_tcpopt_length flags).toNat ∧ seg.opts.length % 4 = 0 ∧
      ∀ (cur_time : UInt32) (t : UsnTcb), ∃ t', usnet_parse_tcpopts cur_time seg t = .ok t' ∧
        t'.sndvar.mss = s.tcb.sndvar.mss ∧ t'.sndvar.wscale = s.tcb.sndvar.wscale ∧
        t'.sndvar.eff_mss = s.tcb.sndvar.mss - 12 ∧ t'.rcvvar.ts_recent = s.ctx.cur_time) ∧
    (has flags TH_SYN = false → seg.opts = usnet_generate_tcpopts s flags →
      usnet_parse_tcptimestamp seg = .ok (some (s.ctx.cur_time, s.tcb.rcvvar.ts_recent))) ∧
    ∀ (c c' : Ctx) (saddr : UInt32) (sport : UInt16) (daddr : UInt32) (dport : UInt16)
      (seq ack_seq : UInt32) (window : UInt16) (payload : List UInt8) (cur_ts echo_ts : UInt32),
      c' = (usnet_send_tcp_packet_alone c saddr sport daddr dport seq ack_seq window flags payload
        cur_ts echo_ts).2 →
      ∀ f : Frame, c'.frames = c.frames ++ [f] → seg.opts = f.opts →
        usnet_parse_tcptimestamp seg = .ok (some (cur_ts, echo_ts)) := by
  refine ⟨?_, ?_, ?_⟩
  · intro hsyn hopts
    have hlen := usnet_generate_tcpopts_length s (.inl hsyn)
    refine ⟨by rw [hopts, hlen], ?_, ?_⟩
    · rw [hopts, hlen]
      unfold usnet_get_tcpopt_length
      rw [if_pos hsyn]
      rfl
    · intro cur_time t
      exact ⟨_, syn_options_read_back s hsyn seg hopts cur_time t, rfl, rfl, rfl, rfl⟩
  · intro hsyn hopts
    apply timestamp_reads_back (l := [])
    unfold usnet_generate_tcpopts at hopts
    rw [hsyn] at hopts
    exact hopts
  · intro c c' saddr sport daddr dport seq ack_seq window payload cur_ts echo_ts hc' f hf hopts
    have hframe := usnet_send_tcp_packet_alone_frame c saddr sport daddr dport seq ack_seq window
      flags payload cur_ts echo_ts
    rw [← hc'] at hframe
    rcases hframe with hnone | ⟨f', hsent, hfopts⟩
    · rw [hnone] at hf
      simp at hf
    · have heq : f' = f := by
        rw [hsent] at hf
        simpa using hf
      exact timestamp_reads_back (hopts.trans (heq ▸ hfopts))

theorem generated_options_read_back_opened :
    (∃ t', usnet_parse_tcpopts 7
      (with_opts (usnet_generate_tcpopts ⟨quiet_ctx, opened_tcb⟩ TH_SYN)) opened_tcb = .ok t' ∧
      t'.sndvar.mss = opened_tcb.sndvar.mss) ∧
    usnet_parse_tcptimestamp (with_opts (usnet_generate_tcpopts ⟨quiet_ctx, opened_tcb⟩ TH_ACK)) =
      .ok (some (quiet_ctx.cur_time, opened_tcb.rcvvar.ts_recent)) ∧
    usnet_parse_tcptimestamp (with_opts [1, 1, 8, 10, 0, 0, 0, 5, 0, 0, 0, 6]) =
      .ok (some (5, 6)) := by
  refine ⟨?_, ?_, ?_⟩
  · obtain ⟨-, -, h⟩ := (generated_options_read_back ⟨quiet_ctx, opened_tcb⟩ TH_SYN
      (with_opts (usnet_generate_tcpopts ⟨quiet_ctx, opened_tcb⟩ TH_SYN))).1 rfl rfl
    obtain ⟨t', ht', hmss, -⟩ := h 7 opened_tcb
    exact ⟨t', ht', hmss⟩
  · exact (generated_options_read_back ⟨quiet_ctx, opened_tcb⟩ TH_ACK _).2.1 rfl rfl
  · exact (generated_options_read_back ⟨quiet_ctx, opened_tcb⟩ TH_ACK _).2.2 quiet_ctx _ 1 2 3 4 5
      6 7 [] 5 6 rfl _ rfl rfl

end Usnet
