/-
Bracket words over any alphabet, for one kind of bracket with opener `o` and closer `c`: `Balanced` words, in which no
prefix has more closers than openers and the totals agree, and the scan that counts openers and closers to find the
closer that matches an opener already read (`closing`). A word that only closes what it has opened is `Sane`.

`closing_balanced` is what makes the scan useful: it passes over a balanced word and stops at the first closer after it.
It does so over no other words (`balanced_of_closing`).
-/
import Mathlib.Tactic

namespace Bracket

variable {α : Type*} [DecidableEq α]

structure Balanced (o c : α) (s : List α) : Prop where
  sane : ∀ p, p <+: s → p.count c ≤ p.count o
  settled : s.count o = s.count c

variable {o c : α}

theorem balanced_nil : Balanced o c [] :=
  ⟨fun p hp => by rw [List.prefix_nil.1 hp]; simp, rfl⟩

instance (s : List α) : Decidable (Balanced o c s) :=
  decidable_of_iff ((∀ p ∈ s.inits, p.count c ≤ p.count o) ∧ s.count o = s.count c)
    ⟨fun h => ⟨fun p hp => h.1 p ((List.mem_inits p s).2 hp), h.2⟩,
      fun h => ⟨fun p hp => h.sane p ((List.mem_inits p s).1 hp), h.settled⟩⟩

/-- a word without brackets -/
theorem balanced_of_not_mem {s : List α} (ho : o ∉ s) (hc : c ∉ s) : Balanced o c s where
  sane p hp := by
    rw [List.count_eq_zero_of_not_mem fun h => hc (hp.subset h)]; exact Nat.zero_le _
  settled := by rw [List.count_eq_zero_of_not_mem ho, List.count_eq_zero_of_not_mem hc]

theorem Balanced.append {s t : List α} (hs : Balanced o c s) (ht : Balanced o c t) : Balanced o c (s ++ t) where
  sane p hp := by
    rcases List.prefix_or_prefix_of_prefix hp (List.prefix_append s t) with h | ⟨q, rfl⟩
    · exact hs.sane p h
    · have := ht.sane q ((List.prefix_append_right_inj s).1 hp)
      have := hs.settled
      simp only [List.count_append]; omega
  settled := by simp only [List.count_append, hs.settled, ht.settled]

/-- a symbol that is not a bracket of this kind -/
theorem Balanced.cons {s : List α} {x : α} (hs : Balanced o c s) (ho : x ≠ o) (hc : x ≠ c) : Balanced o c (x :: s) :=
  (balanced_of_not_mem (s := [x]) (by simpa using ho.symm) (by simpa using hc.symm)).append hs

/-- a bracketed word -/
theorem Balanced.wrap {s : List α} (hs : Balanced o c s) (hoc : o ≠ c) : Balanced o c (o :: s ++ [c]) where
  sane p hp := by
    rw [List.cons_append] at hp
    rcases List.prefix_cons_iff.1 hp with rfl | ⟨q, rfl, hq⟩
    · simp
    · rw [List.count_cons_self, List.count_cons_of_ne hoc]
      rcases List.prefix_or_prefix_of_prefix hq (List.prefix_append s [c]) with h | ⟨r, rfl⟩
      · have := hs.sane q h; omega
      · have hr := List.count_le_length (a := c) (l := r)
        have hlen : r.length ≤ 1 := by simpa using ((List.prefix_append_right_inj s).1 hq).length_le
        have := hs.settled
        simp only [List.count_append]; omega
  settled := by
    have := hs.settled
    simp [List.count_append, List.count_cons_of_ne hoc, List.count_cons_of_ne hoc.symm, this]

/-- a word that closes nothing it has not opened -/
def Sane (o c : α) (s : List α) : Prop := ∀ p, p <+: s → p.count c ≤ p.count o

instance (s : List α) : Decidable (Sane o c s) :=
  decidable_of_iff (∀ p ∈ s.inits, p.count c ≤ p.count o)
    (forall_congr' fun p => imp_congr_left (List.mem_inits p s))

theorem sane_of_not_mem {s : List α} (hc : c ∉ s) : Sane o c s := by
  intro p hp
  rw [List.count_eq_zero_of_not_mem fun h => hc (hp.subset h)]
  exact Nat.zero_le _

theorem Sane.append {s t : List α} (hs : Sane o c s) (ht : Sane o c t) : Sane o c (s ++ t) := by
  intro p hp
  rcases List.prefix_or_prefix_of_prefix hp (List.prefix_append s t) with h | ⟨q, rfl⟩
  · exact hs p h
  · have hfirst := hs s (List.prefix_refl s)
    have hlast := ht q ((List.prefix_append_right_inj s).1 hp)
    rw [List.count_append, List.count_append]
    omega

/-! ## The matching closer -/

/-- read on until `depth` openers are closed: the symbols read, and the rest -/
def closing (o c : α) : ℕ → List α → List α × List α
  | _, [] => ([], [])
  | 0, l => ([], l)
  | depth + 1, x :: l =>
    let r := closing o c (if x = o then depth + 2 else if x = c then depth else depth + 1) l
    (x :: r.1, r.2)

@[simp] theorem closing_nil (d : ℕ) : closing o c d [] = ([], []) := by cases d <;> rfl

@[simp] theorem closing_zero (l : List α) : closing o c 0 l = ([], l) := by cases l <;> rfl

theorem closing_succ (d : ℕ) (x : α) (l : List α) :
    closing o c (d + 1) (x :: l) =
      (x :: (closing o c (if x = o then d + 2 else if x = c then d else d + 1) l).1,
        (closing o c (if x = o then d + 2 else if x = c then d else d + 1) l).2) := rfl

/-- a word that closes at most `d` brackets it has not opened is read to its end -/
theorem closing_append (hoc : o ≠ c) {s : List α} (l : List α) {d : ℕ}
    (h : ∀ p, p <+: s → p.count c ≤ p.count o + d) :
    closing o c (d + 1) (s ++ l) =
      (s ++ (closing o c (d + 1 + s.count o - s.count c) l).1, (closing o c (d + 1 + s.count o - s.count c) l).2) := by
  induction s generalizing d with
  | nil => simp
  | cons x s ih =>
    have htail : ∀ p, p <+: s → (x :: p).count c ≤ (x :: p).count o + d := fun p hp =>
      h (x :: p) (List.prefix_cons_inj x |>.2 hp)
    rw [List.cons_append, closing_succ]
    by_cases ho : x = o
    · subst ho
      simp only [List.count_cons_self, List.count_cons_of_ne hoc] at htail ⊢
      rw [if_pos trivial, ih (d := d + 1) fun p hp => by have := htail p hp; omega]
      have : d + 1 + 1 + s.count x - s.count c = d + 1 + (s.count x + 1) - s.count c := by omega
      simp [this]
    · by_cases hc : x = c
      · subst hc
        simp only [List.count_cons_self, List.count_cons_of_ne hoc.symm] at htail ⊢
        obtain ⟨d', rfl⟩ : ∃ d', d = d' + 1 := ⟨d - 1, by have := htail [] List.nil_prefix; simp at this; omega⟩
        rw [if_neg ho, if_pos trivial, ih (d := d') fun p hp => by have := htail p hp; omega]
        have : d' + 1 + 1 + s.count o - (s.count x + 1) = d' + 1 + s.count o - s.count x := by omega
        simp [this]
      · simp only [List.count_cons_of_ne ho, List.count_cons_of_ne hc] at htail ⊢
        rw [if_neg ho, if_neg hc, ih htail]
        simp

/-- **The matching closer.** Behind an opener, a balanced word and a closer are read, and nothing more. -/
theorem closing_balanced (hoc : o ≠ c) {s : List α} (hs : Balanced o c s) (l : List α) :
    closing o c 1 (s ++ c :: l) = (s ++ [c], l) := by
  rw [closing_append hoc (d := 0) _ hs.sane, hs.settled, Nat.add_sub_cancel, closing_succ, if_neg hoc.symm, if_pos rfl]
  simp

/-- behind an opener, a sane word is read to its end, and a symbol more -/
theorem closing_pass (hoc : o ≠ c) {s : List α} (hs : Sane o c s) (x : α) (l : List α) :
    ∃ r, (closing o c 1 (s ++ x :: l)).1 = s ++ x :: r := by
  have htotal := hs s (List.prefix_refl s)
  obtain ⟨d, hd⟩ : ∃ d, 0 + 1 + s.count o - s.count c = d + 1 := ⟨s.count o - s.count c, by omega⟩
  rw [closing_append hoc (d := 0) _ hs, hd, closing_succ]
  exact ⟨_, rfl⟩

/-- and so is one closer behind it, if that is the last symbol of all -/
theorem closing_sane (hoc : o ≠ c) {s : List α} (hs : Sane o c s) :
    closing o c 1 (s ++ [c]) = (s ++ [c], []) := by
  have htotal := hs s (List.prefix_refl s)
  obtain ⟨d, hd⟩ : ∃ d, 0 + 1 + s.count o - s.count c = d + 1 := ⟨s.count o - s.count c, by omega⟩
  rw [closing_append hoc (d := 0) _ hs, hd, closing_succ, closing_nil]

/-! ## What was read -/

theorem closing_split (o c : α) (d : ℕ) (l : List α) : (closing o c d l).1 ++ (closing o c d l).2 = l := by
  induction l generalizing d with
  | nil => simp
  | cons x l ih =>
    cases d with
    | zero => rw [closing_zero, List.nil_append]
    | succ d => rw [closing_succ, List.cons_append, ih]

/-- the openers and closers of a word, against those of its tail -/
theorem count_cons_depth (hoc : o ≠ c) (x : α) (p : List α) (d : ℕ) :
    ((x :: p).count c < (x :: p).count o + (d + 1) ↔
        p.count c < p.count o + if x = o then d + 2 else if x = c then d else d + 1) ∧
      ((x :: p).count c = (x :: p).count o + (d + 1) ↔
        p.count c = p.count o + if x = o then d + 2 else if x = c then d else d + 1) := by
  by_cases ho : x = o
  · subst ho
    rw [if_pos rfl, List.count_cons_self, List.count_cons_of_ne hoc]
    omega
  · by_cases hc : x = c
    · subst hc
      rw [if_neg ho, if_pos rfl, List.count_cons_self, List.count_cons_of_ne ho]
      omega
    · rw [if_neg ho, if_neg hc, List.count_cons_of_ne ho, List.count_cons_of_ne hc]
      omega

/-- the scan goes on only while an opener is left to close -/
theorem closing_open (hoc : o ≠ c) {d : ℕ} {l p : List α} (hp : p <+: (closing o c d l).1)
    (hne : p ≠ (closing o c d l).1) : p.count c < p.count o + d := by
  induction l generalizing d p with
  | nil =>
    rw [closing_nil, List.prefix_nil] at hp
    rw [closing_nil] at hne
    exact absurd hp hne
  | cons x l ih =>
    cases d with
    | zero =>
      rw [closing_zero, List.prefix_nil] at hp
      rw [closing_zero] at hne
      exact absurd hp hne
    | succ d =>
      rw [closing_succ] at hp hne
      rcases List.prefix_cons_iff.1 hp with rfl | ⟨q, rfl, hq⟩
      · simp
      · refine (count_cons_depth hoc x q d).1.2 (ih hq ?_)
        rintro rfl
        exact hne rfl

/-- the scan stops before the end only when every opener is closed -/
theorem closing_closed (hoc : o ≠ c) {d : ℕ} {l : List α} (h : (closing o c d l).2 ≠ []) :
    (closing o c d l).1.count c = (closing o c d l).1.count o + d := by
  induction l generalizing d with
  | nil =>
    rw [closing_nil] at h
    exact absurd rfl h
  | cons x l ih =>
    cases d with
    | zero => simp
    | succ d =>
      rw [closing_succ] at h ⊢
      exact (count_cons_depth hoc x _ d).2.2 (ih h)

/-- a word that is not sane is not read to its end -/
theorem closing_early (hoc : o ≠ c) {s : List α} (hs : ¬ Sane o c s) (l : List α) :
    (closing o c 1 (s ++ l)).1 <+: s := by
  simp only [Sane, not_forall, not_le] at hs
  obtain ⟨p, hp, hcount⟩ := hs
  have hread : (closing o c 1 (s ++ l)).1 <+: s ++ l := ⟨_, closing_split o c 1 (s ++ l)⟩
  refine List.IsPrefix.trans ?_ hp
  by_contra hlonger
  have hshorter := (List.prefix_or_prefix_of_prefix hread (hp.trans (List.prefix_append s l))).resolve_left hlonger
  have hopen := closing_open hoc hshorter fun h => hlonger (h ▸ List.prefix_refl p)
  omega

/-- **Balance from the scan.** If the scan behind an opener stops at the closer behind `s`, with more to come, then `s`
is balanced. -/
theorem balanced_of_closing (hoc : o ≠ c) {s l : List α} (hl : l ≠ [])
    (h : closing o c 1 (s ++ c :: l) = (s ++ [c], l)) : Balanced o c s := by
  have hopen : ∀ p, p <+: s ++ [c] → p ≠ s ++ [c] → p.count c < p.count o + 1 := by
    intro p hp hne
    apply closing_open hoc (l := s ++ c :: l)
    · rw [h]; exact hp
    · rw [h]; exact hne
  have hclosed : (s ++ [c]).count c = (s ++ [c]).count o + 1 := by
    have := closing_closed hoc (d := 1) (l := s ++ c :: l) (by rw [h]; exact hl)
    rwa [h] at this
  refine ⟨?_, ?_⟩
  · intro p hp
    refine Nat.lt_succ_iff.1 (hopen p (hp.trans (List.prefix_append _ _)) ?_)
    rintro rfl
    simpa using hp.length_le
  · rw [List.count_append, List.count_append, List.count_singleton_self,
      List.count_eq_zero_of_not_mem (by simpa using hoc : o ∉ [c])] at hclosed
    omega

end Bracket
