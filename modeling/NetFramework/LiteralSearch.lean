/-
`StringLiteral` of consthelpers.hpp with its pointer, its `size_t` arithmetic and the branches that throw.

ConstHelpers.lean has these functions on the characters alone. Here a literal is a `Span`: a pointer and a size. Taking
the characters of it (`chars`) is the abstraction; every function is exact under it, and no branch that throws is taken:
`equals_eq`, `startswith_eq`, `contains_eq`, `find_spec`, and all of them together in `search_correct`.
`isRetval_eq`: what `is_retval` of retvalserialisation.h evaluates to is the `isRetval` of ConstHelpers.lean.
-/
import Mathlib.Algebra.Group.Nat.Defs
import Mathlib.Order.Bounds.Basic
import NetFramework.ConstHelpers

namespace NetFramework
namespace StringLiteral

/-- the members of a `StringLiteral`; the pointer is given by the characters from there to the end of the array -/
structure Span where
  p_ : List Char
  sz_ : UInt64
  sz_le : sz_.toNat ≤ p_.length

namespace Span

/-- the characters that the pointer and the size stand for -/
def chars (s : Span) : List Char := s.p_.take s.sz_.toNat

def size (s : Span) : UInt64 := s.sz_

def empty (s : Span) : Bool := s.sz_ == 0

theorem p_ne_nil {s : Span} (h : ¬ s.empty = true) : s.p_ ≠ [] := by
  intro hnil
  have hle := s.sz_le
  rw [hnil, List.length_nil, Nat.le_zero] at hle
  exact h (beq_iff_eq.2 (UInt64.toNat_inj.1 hle))

theorem toNat_sub_size {s : Span} {count : UInt64} (h : count ≤ s.size) :
    (s.sz_ - count).toNat = s.sz_.toNat - count.toNat := UInt64.toNat_sub_of_le _ _ h

def front (s : Span) : Except String Char :=
  if h : ¬ s.empty = true then .ok (s.p_.head (p_ne_nil h))
  else .error "Cannot call front() on an empty StringLiteral"

def dropFront (s : Span) (count : UInt64) : Except String Span :=
  if h : count ≤ s.size then
    .ok ⟨s.p_.drop count.toNat, s.sz_ - count, by
      rw [toNat_sub_size h, List.length_drop]
      exact Nat.sub_le_sub_right s.sz_le _⟩
  else .error "drop_front() cannot drop that many elements!"

def dropBack (s : Span) (count : UInt64) : Except String Span :=
  if h : count ≤ s.size then
    .ok ⟨s.p_, s.sz_ - count, by
      rw [toNat_sub_size h]
      exact (Nat.sub_le _ _).trans s.sz_le⟩
  else .error "drop_back() cannot drop that many elements!"

def takeFront (s : Span) (count : UInt64) : Except String Span :=
  if count = s.sz_ then .ok s else s.dropBack (s.size - count)

theorem dropFront_lt {s s' : Span} (h : s.dropFront 1 = .ok s') : s'.sz_.toNat < s.sz_.toNat := by
  by_cases hle : 1 ≤ s.size
  · rw [dropFront, dif_pos hle] at h
    cases h
    have hone : 1 ≤ s.sz_.toNat := UInt64.le_iff_toNat_le.1 hle
    calc (s.sz_ - 1).toNat = s.sz_.toNat - 1 := toNat_sub_size hle
      _ < s.sz_.toNat := Nat.sub_lt hone Nat.one_pos
  · rw [dropFront, dif_neg hle] at h
    cases h

/-- `operator==` -/
def equals (s other : Span) : Except String Bool :=
  if s.size ≠ other.size then .ok false
  else if s.empty then .ok true
  else
    match s.front, other.front with
    | .error e, _ => .error e
    | .ok _, .error e => .error e
    | .ok c, .ok d =>
      if c ≠ d then .ok false
      else
        match _h : s.dropFront 1 with
        | .error e => .error e
        | .ok s' =>
          match other.dropFront 1 with
          | .error e => .error e
          | .ok other' => s'.equals other'
termination_by s.sz_.toNat
decreasing_by exact dropFront_lt _h

def startswith (s other : Span) : Except String Bool :=
  if other.size ≤ s.size then do
    let s' ← s.takeFront other.size
    s'.equals other
  else .ok false

/-- `contains` of a character -/
def containsChar (s : Span) (c : Char) : Except String Bool :=
  if s.empty then .ok false
  else
    match s.front with
    | .error e => .error e
    | .ok d =>
      if d = c then .ok true
      else
        match _h : s.dropFront 1 with
        | .error e => .error e
        | .ok s' => s'.containsChar c
termination_by s.sz_.toNat
decreasing_by exact dropFront_lt _h

def contains (s other : Span) : Except String Bool :=
  match s.startswith other with
  | .error e => .error e
  | .ok true => .ok true
  | .ok false =>
    if s.empty then .ok false
    else
      match _h : s.dropFront 1 with
      | .error e => .error e
      | .ok s' => s'.contains other
termination_by s.sz_.toNat
decreasing_by exact dropFront_lt _h

def find (s other : Span) : Except String UInt64 :=
  match s.contains other with
  | .error e => .error e
  | .ok false => .ok (-1)
  | .ok true =>
    match s.startswith other with
    | .error e => .error e
    | .ok true => .ok 0
    | .ok false =>
      match _h : s.dropFront 1 with
      | .error e => .error e
      | .ok s' => (s'.find other).map (1 + ·)
termination_by s.sz_.toNat
decreasing_by exact dropFront_lt _h

/-! ## Under the characters -/

section Chars

variable {s t : Span} {c : Char} {cs : List Char}

@[simp] theorem length_chars (s : Span) : s.chars.length = s.sz_.toNat := by
  rw [chars, List.length_take, Nat.min_eq_left s.sz_le]

theorem empty_iff : s.empty = true ↔ s.chars = [] := by
  rw [← List.length_eq_zero_iff, length_chars, empty, beq_iff_eq, ← UInt64.toNat_inj]
  rfl

theorem not_empty (h : s.chars = c :: cs) : ¬ s.empty = true := by
  rw [empty_iff, h]
  exact List.cons_ne_nil c cs

theorem size_eq_iff : s.size = t.size ↔ s.chars.length = t.chars.length := by
  rw [length_chars, length_chars, UInt64.toNat_inj, size, size]

theorem size_le_iff : s.size ≤ t.size ↔ s.chars.length ≤ t.chars.length := by
  rw [length_chars, length_chars, UInt64.le_iff_toNat_le, size, size]

theorem front_eq (h : s.chars = c :: cs) : s.front = .ok c := by
  rw [front, dif_pos (not_empty h)]
  have hhead : s.chars.head? = s.p_.head? := by
    rw [chars, List.head?_take, if_neg]
    rw [← length_chars, h]
    exact Nat.succ_ne_zero _
  rw [h, List.head?_eq_some_head (p_ne_nil (not_empty h))] at hhead
  exact congrArg _ (Option.some.inj hhead).symm

theorem dropFront_eq (h : s.chars = c :: cs) : ∃ s', s.dropFront 1 = .ok s' ∧ s'.chars = cs := by
  have hone : (1 : UInt64) ≤ s.size := by
    rw [UInt64.le_iff_toNat_le, size, ← length_chars, h]
    exact Nat.succ_le_succ (Nat.zero_le _)
  refine ⟨_, dif_pos hone, ?_⟩
  calc (s.p_.drop 1).take (s.sz_ - 1).toNat
      = (s.p_.drop 1).take (s.sz_.toNat - 1) := by rw [toNat_sub_size hone]; rfl
    _ = s.chars.drop 1 := by rw [chars, List.drop_take]
    _ = cs := by rw [h, List.drop_one, List.tail_cons]

/-- what the recursive functions go on with -/
theorem match_dropFront {α : Type} {s' : Span} (h : s.dropFront 1 = .ok s') (f : Span → Except String α) :
    (match _h : s.dropFront 1 with
      | .error e => .error e
      | .ok s' => f s') = f s' := by
  split
  · next he => cases h.symm.trans he
  · next he => cases h.symm.trans he; rfl

/-- `take_front` with what `startswith` asks of it -/
theorem takeFront_eq (h : t.size ≤ s.size) :
    ∃ s', s.takeFront t.size = .ok s' ∧ s'.chars = s.chars.take t.chars.length := by
  rw [takeFront]
  by_cases heq : t.size = s.sz_
  · refine ⟨s, if_pos heq, ?_⟩
    rw [size_eq_iff.1 heq, List.take_length]
  · have hle : s.size - t.size ≤ s.size := by
      rw [UInt64.le_iff_toNat_le, UInt64.toNat_sub_of_le _ _ h]
      exact Nat.sub_le _ _
    refine ⟨_, (if_neg heq).trans (dif_pos hle), ?_⟩
    have hsz : (s.sz_ - (s.size - t.size)).toNat = t.chars.length := by
      have hst : t.sz_.toNat ≤ s.sz_.toNat := UInt64.le_iff_toNat_le.1 h
      calc (s.sz_ - (s.size - t.size)).toNat
          = s.sz_.toNat - (s.sz_ - t.size).toNat := toNat_sub_size hle
        _ = s.sz_.toNat - (s.sz_.toNat - t.sz_.toNat) := by rw [toNat_sub_size h]; rfl
        _ = t.chars.length := (Nat.sub_sub_self hst).trans (length_chars t).symm
    have hlen : t.chars.length ≤ s.sz_.toNat := (length_chars t).trans_le (UInt64.le_iff_toNat_le.1 h)
    calc s.p_.take (s.sz_ - (s.size - t.size)).toNat
        = s.p_.take t.chars.length := by rw [hsz]
      _ = (s.p_.take s.sz_.toNat).take t.chars.length := by rw [List.take_take, Nat.min_eq_left hlen]

theorem equals_eq (s t : Span) : s.equals t = .ok (decide (s.chars = t.chars)) := by
  induction hs : s.chars generalizing s t with
  | nil =>
    rw [equals]
    by_cases hsize : s.size = t.size
    · have ht : t.chars = [] := List.length_eq_zero_iff.1 (by rw [← size_eq_iff.1 hsize, hs]; rfl)
      rw [if_neg (not_not_intro hsize), if_pos (empty_iff.2 hs), ht, decide_eq_true rfl]
    · have hne : ¬ [] = t.chars := fun h => hsize (size_eq_iff.2 (by rw [hs, h]))
      rw [if_pos hsize, decide_eq_false hne]
  | cons c cs ih =>
    rw [equals]
    by_cases hsize : s.size = t.size
    · cases ht : t.chars with
      | nil =>
        have hlen := size_eq_iff.1 hsize
        rw [hs, ht] at hlen
        cases hlen
      | cons d ds =>
        obtain ⟨s', hs', hcs⟩ := dropFront_eq hs
        obtain ⟨t', ht', hds⟩ := dropFront_eq ht
        simp only [if_neg (not_not_intro hsize), if_neg (not_empty hs), front_eq hs, front_eq ht,
          match_dropFront hs', ht', ih s' t' hcs, hds, List.cons.injEq]
        split_ifs with hcd
        · rw [decide_eq_false fun h => hcd h.1]
        · rw [decide_eq_decide.2 (and_iff_right (not_not.1 hcd))]
    · have hne : ¬ c :: cs = t.chars := fun h => hsize (size_eq_iff.2 (by rw [hs, h]))
      rw [if_pos hsize, decide_eq_false hne]

theorem startswith_eq (s t : Span) : s.startswith t = .ok (decide (t.chars <+: s.chars)) := by
  rw [startswith]
  split_ifs with hle
  · obtain ⟨s', hs', htake⟩ := takeFront_eq hle
    have hstart : s'.chars = t.chars ↔ t.chars <+: s.chars := by
      rw [htake, List.prefix_iff_eq_take, eq_comm]
    calc (s.takeFront t.size >>= fun s' => s'.equals t)
        = s'.equals t := by rw [hs']; rfl
      _ = .ok (decide (s'.chars = t.chars)) := equals_eq s' t
      _ = .ok (decide (t.chars <+: s.chars)) := by rw [decide_eq_decide.2 hstart]
  · rw [decide_eq_false fun h => hle (size_le_iff.2 h.length_le)]

theorem containsChar_eq (s : Span) (c : Char) : s.containsChar c = .ok (decide (c ∈ s.chars)) := by
  induction hs : s.chars generalizing s with
  | nil => rw [containsChar, if_pos (empty_iff.2 hs), decide_eq_false List.not_mem_nil]
  | cons d cs ih =>
    obtain ⟨s', hs', hcs⟩ := dropFront_eq hs
    rw [containsChar]
    simp only [if_neg (not_empty hs), front_eq hs, match_dropFront hs', ih s' hcs, List.mem_cons]
    split_ifs with hd
    · rw [decide_eq_true (Or.inl hd.symm)]
    · rw [decide_eq_decide.2 (or_iff_right (Ne.symm hd)).symm]

theorem contains_eq (s t : Span) : s.contains t = .ok (decide (t.chars <:+: s.chars)) := by
  induction hs : s.chars generalizing s with
  | nil =>
    rw [contains, startswith_eq, hs]
    by_cases ht : t.chars <+: []
    · rw [decide_eq_true ht, decide_eq_true ht.isInfix]
    · have hinfix : ¬ t.chars <:+: [] := by
        rw [List.infix_nil]
        exact fun h => ht (List.prefix_nil.2 h)
      simp only [decide_eq_false ht, if_pos (empty_iff.2 hs), decide_eq_false hinfix]
  | cons c cs ih =>
    obtain ⟨s', hs', hcs⟩ := dropFront_eq hs
    rw [contains, startswith_eq, hs]
    by_cases ht : t.chars <+: c :: cs
    · rw [decide_eq_true ht, decide_eq_true ht.isInfix]
    · have hinfix : t.chars <:+: cs ↔ t.chars <:+: c :: cs := by
        rw [List.infix_cons_iff, or_iff_right ht]
      simp only [decide_eq_false ht, if_neg (not_empty hs), match_dropFront hs', ih s' hcs]
      rw [decide_eq_decide.2 hinfix]

/-- where a text is found first, seen from the next character -/
theorem isLeast_cons {t : List Char} {n : ℕ} (ht : ¬ t <+: c :: cs) (h : IsLeast {i | t <+: cs.drop i} n) :
    IsLeast {i | t <+: (c :: cs).drop i} (n + 1) := by
  refine ⟨h.1, ?_⟩
  intro i hi
  cases i with
  | zero => exact absurd hi ht
  | succ i => exact Nat.succ_le_succ (h.2 hi)

/-- a text that occurs is found before the end -/
theorem least_le {t : List Char} {n : ℕ} (ht : t <:+: cs) (h : IsLeast {i | t <+: cs.drop i} n) : n ≤ cs.length := by
  obtain ⟨before, after, rfl⟩ := ht
  have hmem : t <+: (before ++ t ++ after).drop before.length := by
    rw [List.append_assoc, List.drop_left]
    exact List.prefix_append t after
  calc n ≤ before.length := h.2 hmem
    _ ≤ (before ++ t ++ after).length := by rw [List.append_assoc, List.length_append]; exact Nat.le_add_right _ _

/-- `1 + find` is only evaluated where the text occurs, so no `-1` gets into the sum -/
theorem find_spec (s t : Span) :
    ∃ r, s.find t = .ok r ∧
      (t.chars <:+: s.chars → IsLeast {i | t.chars <+: s.chars.drop i} r.toNat) ∧
      (¬ t.chars <:+: s.chars → r = -1) := by
  induction hs : s.chars generalizing s with
  | nil =>
    rw [find, contains_eq, startswith_eq, hs]
    by_cases ht : t.chars <:+: []
    · have hstart : t.chars <+: [] := List.prefix_nil.2 (List.infix_nil.1 ht)
      rw [decide_eq_true ht, decide_eq_true hstart]
      exact ⟨0, rfl, fun _ => ⟨hstart, fun _ _ => Nat.zero_le _⟩, absurd ht⟩
    · rw [decide_eq_false ht]
      exact ⟨-1, rfl, fun h => absurd h ht, fun _ => rfl⟩
  | cons c cs ih =>
    obtain ⟨s', hs', hcs⟩ := dropFront_eq hs
    obtain ⟨r, hr, hfound, -⟩ := ih s' hcs
    rw [find, contains_eq, startswith_eq, hs]
    by_cases ht : t.chars <:+: c :: cs
    · by_cases hstart : t.chars <+: c :: cs
      · rw [decide_eq_true ht, decide_eq_true hstart]
        exact ⟨0, rfl, fun _ => ⟨hstart, fun _ _ => Nat.zero_le _⟩, absurd ht⟩
      · -- the text occurs behind the first character
        have hrest : t.chars <:+: cs := (List.infix_cons_iff.1 ht).resolve_left hstart
        have hlt : 1 + r.toNat < 2 ^ 64 := by
          have hle := least_le hrest (hfound hrest)
          have hsize : cs.length + 1 < 2 ^ 64 := by
            rw [← List.length_cons (a := c), ← hs, length_chars]
            exact s.sz_.toNat_lt
          omega
        have hsum : (1 + r).toNat = r.toNat + 1 := by
          rw [UInt64.toNat_add, UInt64.toNat_one, Nat.mod_eq_of_lt hlt, Nat.add_comm]
        simp only [decide_eq_true ht, decide_eq_false hstart, match_dropFront hs', hr]
        refine ⟨1 + r, rfl, ?_, absurd ht⟩
        intro _
        rw [hsum]
        exact isLeast_cons hstart (hfound hrest)
    · rw [decide_eq_false ht]
      exact ⟨-1, rfl, fun h => absurd h ht, fun _ => rfl⟩

end Chars

/-- **Search.** Comparing, `startswith`, `contains` and `find` give what they are named after, for literals of any length.
None of them throws. -/
theorem search_correct (s t : Span) :
    s.equals t = .ok (decide (s.chars = t.chars)) ∧
      s.startswith t = .ok (decide (t.chars <+: s.chars)) ∧
      s.contains t = .ok (decide (t.chars <:+: s.chars)) ∧
      ∃ r, s.find t = .ok r ∧
        (t.chars <:+: s.chars → IsLeast {i | t.chars <+: s.chars.drop i} r.toNat) ∧
        (¬ t.chars <:+: s.chars → r.toNat = 2 ^ 64 - 1) := by
  obtain ⟨r, hr, hfound, hnone⟩ := find_spec s t
  refine ⟨equals_eq s t, startswith_eq s t, contains_eq s t, r, hr, hfound, ?_⟩
  intro h
  rw [hnone h]
  rfl

/-! ## `is_retval` -/

/-- the literal `"&"` -/
def amp : Span := ⟨ampText ++ [Char.ofNat 0], 1, Nat.le_succ 1⟩

/-- the literal `"const"` -/
def const : Span := ⟨constText ++ [Char.ofNat 0], 5, Nat.le_succ 5⟩

/-- `is_retval` -/
def isRetval (t : Span) : Except String Bool := do
  if ← t.contains amp then return !(← t.contains const)
  else return false

theorem isRetval_eq (t : Span) : t.isRetval = .ok (NetFramework.isRetval t.chars) := by
  have hcontains : ∀ u : Span, t.contains u = .ok (StringLiteral.contains t.chars u.chars) := by
    intro u
    rw [contains_eq, ← Bool.decide_coe (StringLiteral.contains t.chars u.chars),
      decide_eq_decide.2 (contains_iff t.chars u.chars)]
  rw [isRetval, hcontains, hcontains, NetFramework.isRetval]
  cases hamp : StringLiteral.contains t.chars ampText with
  | false => rw [show amp.chars = ampText from rfl, hamp]; rfl
  | true => rw [show amp.chars = ampText from rfl, hamp]; rfl

end Span
end StringLiteral
end NetFramework
