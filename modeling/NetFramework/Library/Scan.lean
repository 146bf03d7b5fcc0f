/-
Rewriting a text in one pass from left to right. A `Rule` looks at the text from some place on: either nothing is to be
rewritten there, or it says what stands for the element and for how many of those behind it.

- `rewrite_copy`, `rewrite_match`: one step of the pass; `scan_induction` goes through a text in these steps.
- `rewrite_append`: the part of a text in which no match begins stays as it is.
-/
import Mathlib.Data.List.Infix
import Mathlib.Tactic

namespace Scan

variable {α : Type*}

/-- the replacement, and the number of elements behind the first that it stands for as well -/
abbrev Rule (α : Type*) := List α → Option (List α × ℕ)

/-- the pass, with a number of elements left that a replacement stands for -/
def rewriteFrom (rule : Rule α) : ℕ → List α → List α
  | _, [] => []
  | more + 1, _ :: cs => rewriteFrom rule more cs
  | 0, c :: cs =>
    match rule (c :: cs) with
    | none => c :: rewriteFrom rule 0 cs
    | some (text, more) => text ++ rewriteFrom rule more cs

def rewrite (rule : Rule α) (l : List α) : List α := rewriteFrom rule 0 l

variable {rule rule' : Rule α} {c : α} {cs l before rest text : List α} {more : ℕ}

theorem rewriteFrom_eq (rule : Rule α) (more : ℕ) (l : List α) :
    rewriteFrom rule more l = rewrite rule (l.drop more) := by
  induction l generalizing more with
  | nil => rw [List.drop_nil, rewrite, rewriteFrom, rewriteFrom]
  | cons c cs ih =>
    cases more with
    | zero => rfl
    | succ more => rw [rewriteFrom, ih, List.drop_succ_cons]

@[simp] theorem rewrite_nil (rule : Rule α) : rewrite rule [] = [] := by rw [rewrite, rewriteFrom]

theorem rewrite_copy (h : rule (c :: cs) = none) : rewrite rule (c :: cs) = c :: rewrite rule cs := by
  rw [rewrite, rewriteFrom, h, rewrite]

theorem rewrite_match (h : rule (c :: cs) = some (text, more)) :
    rewrite rule (c :: cs) = text ++ rewrite rule (cs.drop more) := by
  rw [rewrite, rewriteFrom, h]
  simp only [rewriteFrom_eq]

/-- a property of every text, by the steps of the pass -/
theorem scan_induction (rule : Rule α) {P : List α → Prop} (nil : P [])
    (copy : ∀ c cs, rule (c :: cs) = none → P cs → P (c :: cs))
    (found : ∀ c cs text more, rule (c :: cs) = some (text, more) → P (cs.drop more) → P (c :: cs)) (l : List α) :
    P l := by
  induction hn : l.length using Nat.strong_induction_on generalizing l with
  | _ n ih =>
    subst hn
    cases l with
    | nil => exact nil
    | cons c cs =>
      cases h : rule (c :: cs) with
      | none => exact copy c cs h (ih _ (Nat.lt_succ_self _) cs rfl)
      | some r =>
        have hlt : (cs.drop r.2).length < (c :: cs).length := by
          rw [List.length_drop, List.length_cons]
          omega
        exact found c cs r.1 r.2 h (ih _ hlt _ rfl)

theorem rewrite_append (h : ∀ i < before.length, rule ((before ++ rest).drop i) = none) :
    rewrite rule (before ++ rest) = before ++ rewrite rule rest := by
  induction before with
  | nil => rfl
  | cons c before ih =>
    have hhead : rule (c :: (before ++ rest)) = none := h 0 (Nat.succ_pos _)
    rw [List.cons_append, rewrite_copy hhead, ih fun i hi => h (i + 1) (Nat.succ_lt_succ hi), List.cons_append]

end Scan
