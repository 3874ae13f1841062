import Mathlib.Data.List.Basic

/-! # Chains of pointers

    A chain follows a pointer through memory to the null pointer.  A write keeps
    the chains it does not meet.
-/

namespace Chain

variable {α : Type*}

/-- From `head` the pointers lead through exactly these addresses. -/
def Links (next : α → Option α) : Option α → List α → Prop
  | head, [] => head = none
  | head, p :: rest => head = some p ∧ Links next (next p) rest

variable {next next' : α → Option α} {head : Option α} {l : List α}

theorem Links.cons {p : α} (h : Links next (next p) l) : Links next (some p) (p :: l) := ⟨rfl, h⟩

/-- Only the pointers on the way count. -/
theorem Links.congr (h : Links next head l) (hsame : ∀ p ∈ l, next' p = next p) :
    Links next' head l := by
  induction l generalizing head with
  | nil => exact h
  | cons p rest ih =>
    refine ⟨h.1, ?_⟩
    rw [hsame p List.mem_cons_self]
    exact ih h.2 fun q hq => hsame q (List.mem_cons_of_mem p hq)

/-- A chain that is not empty starts at an address. -/
theorem Links.ne_nil (h : Links next head l) (hl : l ≠ []) : ∃ p rest, l = p :: rest ∧
    head = some p ∧ Links next (next p) rest := by
  cases l with
  | nil => exact absurd rfl hl
  | cons p rest => exact ⟨p, rest, rfl, h.1, h.2⟩

end Chain
