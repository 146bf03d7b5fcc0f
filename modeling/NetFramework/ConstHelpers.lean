/-
`StringLiteral` of consthelpers.hpp, the compile-time strings the remote call macros use to look at the spelling of a
parameter's type, and `is_retval` of retvalserialisation.h.

`contains_iff`: `contains` finds a text if and only if it occurs somewhere.
-/
import Mathlib.Data.List.Infix

namespace NetFramework

/-- the characters of a string literal, without the terminating zero -/
abbrev StringLiteral := List Char

namespace StringLiteral

def dropFront (s : StringLiteral) (count : ℕ) : StringLiteral := s.drop count

def dropBack (s : StringLiteral) (count : ℕ) : StringLiteral := s.take (s.length - count)

def takeFront (s : StringLiteral) (count : ℕ) : StringLiteral :=
  if count = s.length then s else s.dropBack (s.length - count)

/-- `count` is never more than the size here, so neither `drop_back` nor `take_front` throws -/
def startswith (s other : StringLiteral) : Bool := decide (other.length ≤ s.length) && s.takeFront other.length == other

def contains : StringLiteral → StringLiteral → Bool
  | [], other => startswith [] other
  | c :: s, other => startswith (c :: s) other || contains s other

end StringLiteral

open StringLiteral

/-- `"const"` -/
def constText : StringLiteral := ['c', 'o', 'n', 's', 't']

/-- `"&"` -/
def ampText : StringLiteral := ['&']

def isRetval (t : StringLiteral) : Bool := contains t ampText && !contains t constText

/-! ## What `contains` finds -/

theorem startswith_iff (s other : StringLiteral) : startswith s other = true ↔ other <+: s := by
  have htake : ∀ h : other.length ≤ s.length, takeFront s other.length = s.take other.length := by
    intro h
    unfold takeFront dropBack
    split_ifs with he
    · rw [he, List.take_length]
    · rw [Nat.sub_sub_self h]
  simp only [startswith, Bool.and_eq_true, decide_eq_true_eq, beq_iff_eq]
  refine ⟨?_, ?_⟩
  · intro ⟨hle, he⟩
    rw [htake hle] at he
    exact he ▸ List.take_prefix _ _
  · intro h
    refine ⟨h.length_le, ?_⟩
    rw [htake h.length_le]
    exact (List.prefix_iff_eq_take.1 h).symm

theorem contains_iff (s other : StringLiteral) : contains s other = true ↔ other <:+: s := by
  induction s with
  | nil => rw [contains, startswith_iff, List.prefix_nil, List.infix_nil]
  | cons c s ih => rw [contains, Bool.or_eq_true, startswith_iff, ih, List.infix_cons_iff]

end NetFramework
