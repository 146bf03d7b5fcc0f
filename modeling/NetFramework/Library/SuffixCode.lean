/-
Codes that are read from the back. A word of such a code stands behind a text that is empty or ends with a letter of a
set `S`, such as an opening bracket or a separator; that is what fixes where the word begins.

- `Apart`: two words that end a text at the same place are the same word and begin at the same place.
- `apart_of_letters`: words without a letter of `S`.
- `joined_unique`: words that are listed with a separator between them, each apart from the one it is compared with.
- `Unambiguous`: an encoding whose words tell apart what they encode.
-/
import Mathlib.Tactic

namespace SuffixCode

variable {α β : Type*}

/-- the text is empty, or ends with a letter of `S` -/
def Ends (S : β → Prop) (p : List β) : Prop := ∀ c, p.getLast? = some c → S c

def Apart (S : β → Prop) (x y : List β) : Prop :=
  ∀ p q, Ends S p → Ends S q → p ++ x = q ++ y → p = q ∧ x = y

/-- read from the back, a word has one beginning and one meaning -/
def Unambiguous (S : β → Prop) (enc : α → List β) : Prop :=
  ∀ a b p q, Ends S p → Ends S q → p ++ enc a = q ++ enc b → p = q ∧ a = b

/-- the word is not empty, and its last letter is not in `S` -/
def Closed (S : β → Prop) (x : List β) : Prop := ∃ u c, x = u ++ [c] ∧ ¬ S c

variable {S : β → Prop}

theorem concat_inj {p q : List β} {c d : β} (h : p ++ [c] = q ++ [d]) : p = q ∧ c = d := by
  obtain ⟨hpq, hcd⟩ := List.append_inj' h rfl
  exact ⟨hpq, List.singleton_injective hcd⟩

theorem ends_nil : Ends S ([] : List β) := by
  intro c hc
  cases hc

theorem ends_concat {c : β} (p : List β) (h : S c) : Ends S (p ++ [c]) := by
  intro d hd
  rw [List.getLast?_concat, Option.some.injEq] at hd
  exact hd ▸ h

theorem Ends.concat {p : List β} {c : β} (h : Ends S (p ++ [c])) : S c := h c List.getLast?_concat

theorem Unambiguous.apart {enc : α → List β} (h : Unambiguous S enc) (a b : α) : Apart S (enc a) (enc b) := by
  intro p q hp hq heq
  obtain ⟨hpq, hab⟩ := h a b p q hp hq heq
  exact ⟨hpq, congrArg enc hab⟩

theorem Unambiguous.injective {enc : α → List β} (h : Unambiguous S enc) : Function.Injective enc :=
  fun a b heq => (h a b [] [] ends_nil ends_nil (congrArg ([] ++ ·) heq)).2

theorem Apart.unambiguous {enc : α → List β} (h : ∀ a b, Apart S (enc a) (enc b)) (hinj : Function.Injective enc) :
    Unambiguous S enc := by
  intro a b p q hp hq heq
  obtain ⟨hpq, hab⟩ := h a b p q hp hq heq
  exact ⟨hpq, hinj hab⟩

theorem Closed.append {x : List β} (h : Closed S x) (p : List β) : Closed S (p ++ x) := by
  obtain ⟨u, c, rfl, hc⟩ := h
  exact ⟨p ++ u, c, (List.append_assoc p u [c]).symm, hc⟩

/-- a closed text does not end with a letter of `S` -/
theorem Closed.ne_concat {x p : List β} {c : β} (h : Closed S x) (hc : S c) : x ≠ p ++ [c] := by
  obtain ⟨u, d, rfl, hd⟩ := h
  intro heq
  exact hd ((concat_inj heq).2 ▸ hc)

/-! ## Words without a letter of `S` -/

/-- what is left of the longer text begins with the letters of its word -/
theorem append_letters {p r : List β} (hp : Ends S (p ++ r)) (hr : ∀ c ∈ r, ¬ S c) : r = [] := by
  rcases List.eq_nil_or_concat r with rfl | ⟨r', c, rfl⟩
  · rfl
  · rw [List.concat_eq_append] at hp hr
    rw [← List.append_assoc] at hp
    exact absurd hp.concat (hr c (List.mem_append_right r' (List.mem_singleton_self c)))

theorem apart_of_letters {x y : List β} (hx : ∀ c ∈ x, ¬ S c) (hy : ∀ c ∈ y, ¬ S c) : Apart S x y := by
  intro p q hp hq h
  rcases List.append_eq_append_iff.1 h with ⟨r, rfl, rfl⟩ | ⟨r, rfl, rfl⟩
  · obtain rfl := append_letters hq fun c hc => hx c (List.mem_append_left y hc)
    simp
  · obtain rfl := append_letters hp fun c hc => hy c (List.mem_append_left x hc)
    simp

/-! ## Listed words -/

/-- the words from the last one to the first, with `sep` between them -/
def joined (sep : β) : List (List β) → List β
  | [] => []
  | [x] => x
  | x :: y :: xs => joined sep (y :: xs) ++ sep :: x

/-- what stands in front of the last word -/
def before (sep : β) : List (List β) → List β
  | [] => []
  | y :: xs => joined sep (y :: xs) ++ [sep]

theorem joined_cons (sep : β) (x : List β) (xs : List (List β)) : joined sep (x :: xs) = before sep xs ++ x := by
  cases xs with
  | nil => rfl
  | cons y xs => rw [joined, before, List.append_assoc, List.singleton_append]

theorem ends_before {sep o : β} (hsep : S sep) (ho : S o) (p : List β) (xs : List (List β)) :
    Ends S (p ++ [o] ++ before sep xs) := by
  cases xs with
  | nil => rw [before, List.append_nil]; exact ends_concat p ho
  | cons y xs => rw [before, ← List.append_assoc]; exact ends_concat _ hsep

/-- **Listed words.** Behind an opening letter, a list of words is read back word by word, each from its end. -/
theorem joined_unique {sep o : β} (hsep : S sep) (ho : S o) (hne : o ≠ sep) {xs ys : List (List β)}
    (hx : ∀ x ∈ xs, Closed S x) (hy : ∀ y ∈ ys, Closed S y)
    (hapart : ∀ (i : ℕ) x y, xs[i]? = some x → ys[i]? = some y → Apart S x y) {p q : List β}
    (h : p ++ [o] ++ joined sep xs = q ++ [o] ++ joined sep ys) : p = q ∧ xs = ys := by
  induction xs generalizing ys with
  | nil =>
    cases ys with
    | nil =>
      simp only [joined, List.append_nil] at h
      exact ⟨(concat_inj h).1, rfl⟩
    | cons y ys =>
      rw [joined_cons, joined, List.append_nil, ← List.append_assoc] at h
      exact absurd h.symm (((hy y List.mem_cons_self).append _).ne_concat ho)
  | cons x xs ih =>
    cases ys with
    | nil =>
      rw [joined_cons, joined, List.append_nil, ← List.append_assoc] at h
      exact absurd h (((hx x List.mem_cons_self).append _).ne_concat ho)
    | cons y ys =>
      rw [joined_cons, joined_cons, ← List.append_assoc, ← List.append_assoc] at h
      obtain ⟨hfront, rfl⟩ :=
        hapart 0 x y rfl rfl _ _ (ends_before hsep ho p xs) (ends_before hsep ho q ys) h
      have hrest : ∀ (i : ℕ) x y, xs[i]? = some x → ys[i]? = some y → Apart S x y := fun i => hapart (i + 1)
      -- the letter in front of the word is the separator on both sides or on neither
      cases xs with
      | nil =>
        cases ys with
        | nil =>
          simp only [before, List.append_nil] at hfront
          exact ⟨(concat_inj hfront).1, rfl⟩
        | cons z ys =>
          rw [before, before, List.append_nil, ← List.append_assoc] at hfront
          exact absurd (concat_inj hfront).2 hne
      | cons w xs =>
        cases ys with
        | nil =>
          rw [before, before, List.append_nil, ← List.append_assoc] at hfront
          exact absurd (concat_inj hfront).2.symm hne
        | cons z ys =>
          rw [before, before, ← List.append_assoc, ← List.append_assoc] at hfront
          obtain ⟨hpq, hwords⟩ := ih (fun x hm => hx x (List.mem_cons_of_mem _ hm))
            (fun y hm => hy y (List.mem_cons_of_mem _ hm)) hrest (concat_inj hfront).1
          exact ⟨hpq, by rw [hwords]⟩

end SuffixCode
