import Usnet.Checksum

/-! # The ICMP checksums (utils.c, ip_icmp.c)

    A message is checked with `cksum`, which leaves out an odd last byte, and
    answered with `in_cksum`, which adds the words as signed numbers.  A word
    with its top bit set then counts one too little, and a sum that becomes
    negative counts two too much when the carry is put back: the two errors
    cancel only where half of such words lead to a negative sum.
-/

namespace Usnet

namespace Wire

open CInt OnesComp

/-! ## Section 1: `in_cksum` and the reply -/

/-- `ADDCARRY` of an `int`, whose high bits are looked at as unsigned. -/
def ADDCARRY (sum : Int) : Int := if sum % 2 ^ 32 / 65536 ≠ 0 then sum % 65536 + 1 else sum

/-- A word as a `short`. -/
def short (w : Nat) : Int := if w < 32768 then w else (w : Int) - 65536

/-- The loop of `in_cksum` over `n` words.  An unaligned word is loaded through the
    union and has the same value. -/
def in_cksum_loop (m : Mem) : Nat → Int → Int → Int
  | 0, _, sum => sum
  | n + 1, w, sum => in_cksum_loop m n (w + 2) (ADDCARRY (sum + short (le16 m w)))

/-- `in_cksum`.  Behind an odd length it does not store the last byte in the union
    but clears the byte above; `u` is what the union's first byte holds: nothing
    has been stored there unless the words are not aligned. -/
def in_cksum (m : Mem) (buf : Int) (len : Nat) (u : UInt8) : UInt16 :=
  let sum := in_cksum_loop m (len / 2) buf 0
  let sum := if len % 2 = 1 then ADDCARRY (sum + u.toNat) else sum
  UInt16.ofNat (65535 - sum % 65536).toNat

def ICMP_ECHOREPLY : UInt8 := 0

/-- The message as `usnet_icmp_reflect` turns it around, with an empty checksum. -/
def echo_reply (m : Mem) (icmph : Int) : Mem :=
  store16 (Function.update m icmph ICMP_ECHOREPLY) (icmph + (2 * 1 : Nat)) 0

/-- The message `usnet_icmp_reflect` sends. -/
def icmp_reply (m : Mem) (icmph : Int) (icmplen : Nat) (u : UInt8) : Mem :=
  store16 (Function.update m icmph ICMP_ECHOREPLY) (icmph + (2 * 1 : Nat))
    (in_cksum (echo_reply m icmph) icmph icmplen u)

/-! ## Section 2: What `cksum` tests -/

theorem fold16_toNat (sum : UInt32) :
    (fold16 sum).toNat = sum.toNat / 65536 + sum.toNat % 65536 := by
  have hsum := sum.toNat_lt
  unfold fold16
  rw [toNat_add_eq (low16_toNat sum) (high16_toNat sum) (by omega), Nat.add_comm]

/-- The loop ends after two folds at most, with all carries put back. -/
theorem fold16_thrice (sum : UInt32) : (fold16 (fold16 (fold16 sum))).toNat = fold sum.toNat := by
  have hsum := sum.toNat_lt
  rw [fold16_toNat, fold16_toNat, fold16_toNat]
  unfold fold
  split <;> omega

/-- `cksum` is the complement of the sum of the whole words. -/
theorem cksum_toNat (m : Mem) (buf : Int) {len : Nat} (hlen : len ≤ 65535) :
    (cksum m buf len).toNat
      = 65535 - fold (words little (bytes m buf (2 * (len / 2)))).sum := by
  have hle := fold_le (words little (bytes m buf (2 * (len / 2)))).sum
  have hwords := sum16_toNat m (len / 2) buf (by omega)
  unfold cksum
  rw [not_low16, fold16_thrice, Int.toNat_natCast, hwords]
  omega

/-- The test passes where the whole words sum to all ones. -/
theorem cksum_eq_zero (m : Mem) (buf : Int) {len : Nat} (hlen : len ≤ 65535) :
    cksum m buf len = 0 ↔ fold (words little (bytes m buf (2 * (len / 2)))).sum = 65535 := by
  have hle := fold_le (words little (bytes m buf (2 * (len / 2)))).sum
  rw [← UInt16.toNat_inj, cksum_toNat m buf hlen, UInt16.toNat_zero]
  omega

/-- The one's-complement sum of all bytes is all ones. -/
def SumsToOnes (m : Mem) (buf : Int) (len : Nat) : Prop :=
  osum (words big (bytes m buf len)) = 65535

/-- The test and the sum agree exactly where the byte left out is zero or makes no
    difference because neither sum is all ones. -/
theorem cksum_agrees_iff (m : Mem) (buf : Int) {len : Nat} (hlen : len ≤ 65535) :
    (cksum m buf len = 0 ↔ SumsToOnes m buf len) ↔
      len % 2 = 0 ∨ m (buf + len - 1) = 0 ∨
        ¬ SumsToOnes m buf (2 * (len / 2)) ∧ ¬ SumsToOnes m buf len := by
  have hsum := bytes_sum m buf len
  have hbyte := (m (buf + len - 1)).toNat_lt
  have hzero : m (buf + len - 1) = 0 ↔ (m (buf + len - 1)).toNat = 0 := by
    rw [← UInt8.toNat_inj, UInt8.toNat_zero]
  unfold SumsToOnes
  rw [cksum_eq_zero m buf hlen, ← osum_little_eq_max, ← osum_little_eq_max, hsum, hzero,
    fold_eq_max, fold_eq_max]
  generalize (words little (bytes m buf (2 * (len / 2)))).sum = whole
  generalize (m (buf + len - 1)).toNat = last at hbyte
  by_cases hodd : len % 2 = 1
  · rw [if_pos hodd]
    omega
  · rw [if_neg hodd]
    omega

/-! ## Section 3: What the signed words add up to -/

/-- The loop of `in_cksum` over words. -/
def signed_sum (sum : Int) (ws : List Nat) : Int :=
  ws.foldl (fun sum w => ADDCARRY (sum + short w)) sum

/-- The number of words with the top bit set. -/
def tops (ws : List Nat) : Nat := ws.countP (32768 ≤ ·)

/-- The number of words that make the sum negative. -/
def negatives (sum : Int) : List Nat → Nat
  | [] => 0
  | w :: ws => (if sum + short w < 0 then 1 else 0) + negatives (ADDCARRY (sum + short w)) ws

/-- The last word makes the sum -1. -/
def ends_minus_one (sum : Int) : List Nat → Bool
  | [] => false
  | [w] => sum + short w = -1
  | w :: ws => ends_minus_one (ADDCARRY (sum + short w)) ws

theorem in_cksum_loop_eq (m : Mem) (n : Nat) (buf : Int) (sum : Int) :
    in_cksum_loop m n buf sum = signed_sum sum (words little (bytes m buf (2 * n))) := by
  induction n generalizing buf sum with
  | zero => rfl
  | succ n ih =>
    rw [in_cksum_loop, ih, show 2 * (n + 1) = 2 + 2 * n by omega, bytes_add,
      words_append _ _ _ (by simp), bytes_two, words_two_little]
    rfl

/-- The sums that occur. -/
def InRange (sum : Int) : Prop := 0 ≤ sum ∧ sum ≤ 65536

theorem addcarry_word {x : Int} (h : 0 ≤ x ∧ x < 65536) : ADDCARRY x = x := by
  have hmod : x % 2 ^ 32 = x := by omega
  unfold ADDCARRY
  rw [hmod, if_neg (by omega)]

theorem addcarry_carry {x : Int} (h : 65536 ≤ x ∧ x < 131072) : ADDCARRY x = x - 65535 := by
  have hmod : x % 2 ^ 32 = x := by omega
  unfold ADDCARRY
  rw [hmod, if_pos (by omega)]
  omega

theorem addcarry_negative {x : Int} (h : -65536 ≤ x ∧ x < 0) : ADDCARRY x = x + 65537 := by
  have hmod : x % 2 ^ 32 = x + 2 ^ 32 := by omega
  unfold ADDCARRY
  rw [hmod, if_pos (by omega)]
  omega

/-- One addition: what it leaves, how far that is from the word's value modulo
    65535, and when it leaves 65536. -/
theorem addcarry_short {sum : Int} {w : Nat} (hsum : InRange sum) (hw : w < 65536) :
    InRange (ADDCARRY (sum + short w)) ∧
    (∃ k : Int, ADDCARRY (sum + short w)
      = sum + w - (if 32768 ≤ w then 1 else 0) + 2 * (if sum + short w < 0 then 1 else 0)
        + 65535 * k) ∧
    (ADDCARRY (sum + short w) = 65536 ↔ sum + short w = -1) := by
  obtain ⟨hlow, hhigh⟩ := hsum
  by_cases htop : w < 32768
  · have hshort : short w = w := if_pos htop
    have hbit : (if 32768 ≤ w then (1 : Int) else 0) = 0 := if_neg (by omega)
    have hneg : (if sum + short w < 0 then (1 : Int) else 0) = 0 := if_neg (by omega)
    rw [hbit, hneg, hshort]
    by_cases hcarry : sum + w < 65536
    · rw [addcarry_word (by omega)]
      exact ⟨by unfold InRange; omega, ⟨0, by omega⟩, by omega⟩
    · rw [addcarry_carry (by omega)]
      exact ⟨by unfold InRange; omega, ⟨-1, by omega⟩, by omega⟩
  · have hshort : short w = (w : Int) - 65536 := if_neg htop
    have hbit : (if 32768 ≤ w then (1 : Int) else 0) = 1 := if_pos (by omega)
    rw [hbit, hshort]
    by_cases hneg : sum + ((w : Int) - 65536) < 0
    · rw [addcarry_negative (by omega), if_pos hneg]
      exact ⟨by unfold InRange; omega, ⟨0, by omega⟩, by omega⟩
    · rw [addcarry_word (by omega), if_neg hneg]
      exact ⟨by unfold InRange; omega, ⟨-1, by omega⟩, by omega⟩

/-- A whole run of additions. -/
theorem signed_sum_spec (ws : List Nat) (sum : Int) (hsum : InRange sum)
    (h : ∀ w ∈ ws, w < 65536) :
    InRange (signed_sum sum ws) ∧
    ∃ k : Int, signed_sum sum ws
      = sum + ws.sum - tops ws + 2 * negatives sum ws + 65535 * k := by
  induction ws generalizing sum with
  | nil => exact ⟨hsum, 0, by simp [signed_sum, tops, negatives]⟩
  | cons w ws ih =>
    obtain ⟨hrange, ⟨k, hk⟩, -⟩ := addcarry_short hsum (h w (by simp))
    obtain ⟨hrange', k', hk'⟩ := ih _ hrange fun x hx => h x (by simp [hx])
    have hcons : signed_sum sum (w :: ws) = signed_sum (ADDCARRY (sum + short w)) ws := rfl
    rw [hcons]
    refine ⟨hrange', k + k', ?_⟩
    have htops : tops (w :: ws) = tops ws + if 32768 ≤ w then 1 else 0 := by
      unfold tops
      rw [List.countP_cons]
      simp
    rw [hk', htops, negatives, List.sum_cons, hk]
    push_cast
    split <;> split <;> ring

/-- A sum of 65536 is left only by a last word that made it -1. -/
theorem signed_sum_eq_max (ws : List Nat) (sum : Int) (hsum : InRange sum)
    (h : ∀ w ∈ ws, w < 65536) (hne : ws ≠ []) :
    signed_sum sum ws = 65536 ↔ ends_minus_one sum ws = true := by
  induction ws generalizing sum with
  | nil => exact absurd rfl hne
  | cons w ws ih =>
    obtain ⟨hrange, -, hmax⟩ := addcarry_short hsum (h w (by simp))
    have hcons : signed_sum sum (w :: ws) = signed_sum (ADDCARRY (sum + short w)) ws := rfl
    rw [hcons]
    cases ws with
    | nil =>
      show ADDCARRY (sum + short w) = 65536 ↔ decide (sum + short w = -1) = true
      rw [hmax, decide_eq_true_iff]
    | cons x ws =>
      show _ ↔ ends_minus_one (ADDCARRY (sum + short w)) (x :: ws) = true
      exact ih _ hrange (fun y hy => h y (List.mem_cons_of_mem _ hy)) (by simp)

/-- Only words with the top bit set make a sum negative. -/
theorem negatives_le (ws : List Nat) (sum : Int) (hsum : InRange sum)
    (h : ∀ w ∈ ws, w < 65536) : negatives sum ws ≤ tops ws := by
  induction ws generalizing sum with
  | nil => exact Nat.zero_le _
  | cons w ws ih =>
    have hrest := ih _ (addcarry_short hsum (h w (by simp))).1 fun x hx => h x (by simp [hx])
    have htops : tops (w :: ws) = tops ws + if 32768 ≤ w then 1 else 0 := by
      unfold tops
      rw [List.countP_cons]
      simp
    have hone : (if sum + short w < 0 then 1 else 0) ≤ if 32768 ≤ w then 1 else 0 := by
      obtain ⟨hlow, -⟩ := hsum
      unfold short
      split <;> split <;> split <;> omega
    rw [htops, negatives]
    omega

/-- Words that are all zero add nothing. -/
theorem signed_sum_zero (ws : List Nat) (h : ws.sum = 0) : signed_sum 0 ws = 0 := by
  induction ws with
  | nil => rfl
  | cons w ws ih =>
    rw [List.sum_cons] at h
    obtain rfl : w = 0 := by omega
    show signed_sum (ADDCARRY (0 + short 0)) ws = 0
    rw [show ADDCARRY (0 + short 0) = 0 from rfl]
    exact ih (by omega)

/-! ## Section 4: When a reply passes the test -/

/-- The whole words of the reply without its checksum. -/
def reply_words (m : Mem) (icmph : Int) (icmplen : Nat) : List Nat :=
  words little (bytes (echo_reply m icmph) icmph (2 * (icmplen / 2)))

/-- Of the words with the top bit set, half make the signed sum negative; a last
    sum of -1 counts one less, and behind an odd length the union's byte is
    counted, too. -/
def SignsCancel (ws : List Nat) (icmplen : Nat) (u : UInt8) : Prop :=
  2 * negatives 0 ws + (if icmplen % 2 = 1 then u.toNat else 0)
    = tops ws + if icmplen % 2 = 0 ∧ ends_minus_one 0 ws = true then 1 else 0

/-- What `in_cksum` adds up to, and the checksum it returns. -/
theorem in_cksum_sum (m : Mem) (buf : Int) (len : Nat) (u : UInt8) :
    ∃ sum : Int, InRange sum ∧
      sum = (if len % 2 = 1 then
        ADDCARRY (signed_sum 0 (words little (bytes m buf (2 * (len / 2)))) + u.toNat)
        else signed_sum 0 (words little (bytes m buf (2 * (len / 2))))) ∧
      ((in_cksum m buf len u).toNat : Int) = 65535 - sum % 65536 := by
  have hu := u.toNat_lt
  obtain ⟨⟨hlow, hhigh⟩, -⟩ := signed_sum_spec (words little (bytes m buf (2 * (len / 2)))) 0
    ⟨by decide, by decide⟩ (words_lt little_lt _)
  refine ⟨_, ?_, rfl, ?_⟩
  · by_cases hodd : len % 2 = 1
    · rw [if_pos hodd]
      by_cases hcarry : signed_sum 0 (words little (bytes m buf (2 * (len / 2)))) + u.toNat < 65536
      · rw [addcarry_word (by omega)]
        exact ⟨by omega, by omega⟩
      · rw [addcarry_carry (by omega)]
        exact ⟨by omega, by omega⟩
    · rw [if_neg hodd]
      exact ⟨hlow, hhigh⟩
  · unfold in_cksum
    rw [in_cksum_loop_eq, UInt16.toNat_ofNat']
    omega

/-- The checksum is the only word that tells the reply from the one without. -/
theorem reply_sum (m : Mem) (icmph : Int) {icmplen : Nat} (u : UInt8) (hmin : 8 ≤ icmplen) :
    (words little (bytes (icmp_reply m icmph icmplen u) icmph (2 * (icmplen / 2)))).sum
      = (reply_words m icmph icmplen).sum
        + (in_cksum (echo_reply m icmph) icmph icmplen u).toNat := by
  have h := fun v => @sum_store16 (Function.update m icmph ICMP_ECHOREPLY) icmph 1
    (2 * (icmplen / 2)) v (by omega)
  unfold icmp_reply reply_words
  rw [h]
  unfold echo_reply
  rw [h, UInt16.toNat_zero]
  omega

/-- The reply passes the test exactly where the signs of its words cancel. -/
theorem reply_passes_iff (m : Mem) (icmph : Int) {icmplen : Nat} (u : UInt8)
    (hmin : 8 ≤ icmplen) (hmax : icmplen ≤ 65535) :
    cksum (icmp_reply m icmph icmplen u) icmph icmplen = 0 ↔
      SignsCancel (reply_words m icmph icmplen) icmplen u := by
  have hu := u.toNat_lt
  have hlt : ∀ w ∈ reply_words m icmph icmplen, w < 65536 := words_lt little_lt _
  have hlen : (reply_words m icmph icmplen).length = icmplen / 2 := by
    unfold reply_words
    rw [words_length, bytes_length]
    omega
  obtain ⟨sum, ⟨hlow, hhigh⟩, hsum, hcksum⟩ :=
    in_cksum_sum (echo_reply m icmph) icmph icmplen u
  rw [← reply_words] at hsum
  rw [cksum_eq_zero _ _ hmax, reply_sum m icmph u hmin, fold_eq_max]
  unfold SignsCancel
  -- the signed sum differs from the sum by at most one for every word
  generalize reply_words m icmph icmplen = ws at hlt hlen hsum ⊢
  have hzero : InRange 0 := ⟨by decide, by decide⟩
  obtain ⟨⟨hlow₀, hhigh₀⟩, k, hk⟩ := signed_sum_spec ws 0 hzero hlt
  have hneg := negatives_le ws 0 hzero hlt
  have htops : tops ws ≤ ws.length := List.countP_le_length
  have hend := signed_sum_eq_max ws 0 hzero hlt (by
    intro hnil
    rw [hnil, List.length_nil] at hlen
    omega)
  have hall := signed_sum_zero ws
  generalize signed_sum 0 ws = signed at hsum hk hlow₀ hhigh₀ hend hall
  generalize (in_cksum (echo_reply m icmph) icmph icmplen u).toNat = c at hcksum ⊢
  by_cases hodd : icmplen % 2 = 1
  · rw [if_pos hodd] at hsum
    rw [if_pos hodd, if_neg (by omega)]
    by_cases hcarry : signed + u.toNat < 65536
    · rw [addcarry_word (by omega)] at hsum
      omega
    · rw [addcarry_carry (by omega)] at hsum
      omega
  · rw [if_neg hodd] at hsum
    rw [if_neg hodd]
    by_cases hminus : ends_minus_one 0 ws = true
    · rw [if_pos ⟨by omega, hminus⟩]
      have hmaxed := hend.mpr hminus
      omega
    · rw [if_neg fun h => hminus h.2]
      have hless : signed ≠ 65536 := fun h => hminus (hend.mp h)
      omega

/-- The test agrees with the one's-complement sum exactly where an odd last byte
    makes no difference; and the reply, whatever the union's byte holds, passes
    the test exactly where the signs of its words cancel. -/
theorem icmp_checksums_iff (m : Mem) (icmph : Int) (icmplen : Nat) (hmin : 8 ≤ icmplen)
    (hmax : icmplen ≤ 65535) :
    ((cksum m icmph icmplen = 0 ↔ SumsToOnes m icmph icmplen) ↔
      icmplen % 2 = 0 ∨ m (icmph + icmplen - 1) = 0 ∨
        ¬ SumsToOnes m icmph (2 * (icmplen / 2)) ∧ ¬ SumsToOnes m icmph icmplen) ∧
    ∀ u, cksum (icmp_reply m icmph icmplen u) icmph icmplen = 0 ↔
      SignsCancel (reply_words m icmph icmplen) icmplen u := by
  constructor
  · exact cksum_agrees_iff m icmph hmax
  · intro u
    exact reply_passes_iff m icmph u hmin hmax

/-- A message in memory. -/
def message (l : List UInt8) : Mem := fun i => l.getD i.toNat 0

/-- Echo request and reply with no word above 32767. -/
theorem icmp_checksums_iff_sample :
    let m := message [8, 0, 0xf6, 0xfe, 1, 0, 0, 1]
    cksum m 0 8 = 0 ∧ m 0 = ICMP_ECHO ∧ SumsToOnes m 0 8 ∧
      cksum (icmp_reply m 0 8 0) 0 8 = 0 := by
  intro m
  obtain ⟨htest, hreply⟩ := icmp_checksums_iff m 0 8 (by decide) (by decide)
  have hpass : cksum m 0 8 = 0 := by decide +kernel
  have hcancel : SignsCancel (reply_words m 0 8) 8 0 := by
    unfold SignsCancel
    decide +kernel
  exact ⟨hpass, by decide, (htest.mpr (.inl (by decide))).mp hpass, (hreply 0).mpr hcancel⟩

/-- Nine bytes that pass the test although they do not sum to all ones; and an echo
    request with sequence number 128 that is accepted and whose reply is not. -/
theorem icmp_checksums_disagree :
    (cksum (message [8, 0, 0xf7, 0xff, 0, 0, 0, 0, 1]) 0 9 = 0 ∧
      ¬ SumsToOnes (message [8, 0, 0xf7, 0xff, 0, 0, 0, 0, 1]) 0 9) ∧
    (cksum (message [8, 0, 0xf7, 0x7f, 0, 0, 0, 0x80]) 0 8 = 0 ∧
      message [8, 0, 0xf7, 0x7f, 0, 0, 0, 0x80] 0 = ICMP_ECHO ∧
      cksum (icmp_reply (message [8, 0, 0xf7, 0x7f, 0, 0, 0, 0x80]) 0 8 0) 0 8 ≠ 0) := by
  unfold SumsToOnes
  decide +kernel

end Wire

end Usnet
