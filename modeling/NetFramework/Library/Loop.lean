/-
`while` loops whose body may throw, over any state: `Runs guard body n s r` says that the loop, entered in state `s`,
begins `n` rounds and ends with `r`. A loop has at most one run (`Runs.unique`). It has one, and a bound on its rounds,
as soon as some number gets smaller with every round that is finished (`exists_runs`).
-/
import Mathlib.Tactic

namespace Loop

variable {σ ε : Type*}

inductive Runs (guard : σ → Prop) (body : σ → Except ε σ) : ℕ → σ → Except ε σ → Prop where
  | stop {s : σ} (h : ¬ guard s) : Runs guard body 0 s (.ok s)
  | throw {s : σ} {e : ε} (h : guard s) (hbody : body s = .error e) : Runs guard body 1 s (.error e)
  | round {s s' : σ} {n : ℕ} {r : Except ε σ} (h : guard s) (hbody : body s = .ok s') (hrest : Runs guard body n s' r) :
      Runs guard body (n + 1) s r

variable {guard : σ → Prop} {body : σ → Except ε σ}

/-- the body decides how a loop that is entered goes on -/
theorem Runs.enter {n : ℕ} {s : σ} {r : Except ε σ} (hs : guard s) (h : Runs guard body n s r) :
    (∃ e, body s = .error e ∧ n = 1 ∧ r = .error e) ∨ ∃ s' m, body s = .ok s' ∧ n = m + 1 ∧ Runs guard body m s' r := by
  cases h with
  | stop h => exact absurd hs h
  | throw _ hbody => exact Or.inl ⟨_, hbody, rfl, rfl⟩
  | round _ hbody hrest => exact Or.inr ⟨_, _, hbody, rfl, hrest⟩

theorem Runs.unique {n m : ℕ} {s : σ} {r r' : Except ε σ} (h : Runs guard body n s r) (h' : Runs guard body m s r') :
    n = m ∧ r = r' := by
  induction h generalizing m with
  | stop h =>
    cases h' with
    | stop _ => exact ⟨rfl, rfl⟩
    | throw h₁ _ => exact absurd h₁ h
    | round h₁ _ _ => exact absurd h₁ h
  | throw h hbody =>
    rcases h'.enter h with ⟨e', hbody', rfl, rfl⟩ | ⟨s', k, hbody', rfl, -⟩
    · exact ⟨rfl, hbody.symm.trans hbody'⟩
    · rw [hbody] at hbody'
      cases hbody'
  | round h hbody _ ih =>
    rcases h'.enter h with ⟨e', hbody', rfl, rfl⟩ | ⟨s', k, hbody', rfl, hrest'⟩
    · rw [hbody] at hbody'
      cases hbody'
    · obtain rfl := Except.ok.inj (hbody.symm.trans hbody')
      obtain ⟨rfl, rfl⟩ := ih hrest'
      exact ⟨rfl, rfl⟩

/-- **Termination with a bound.** A loop that is entered only while `left` is positive, and whose finished rounds lessen
it, ends after at most `left` rounds. -/
theorem exists_runs (left : σ → ℕ) (hpos : ∀ s, guard s → 0 < left s)
    (hless : ∀ s s', guard s → body s = .ok s' → left s' < left s) (s : σ) :
    ∃ n r, Runs guard body n s r ∧ n ≤ left s := by
  induction hk : left s using Nat.strong_induction_on generalizing s with
  | _ k ih =>
    subst hk
    by_cases hs : guard s
    · cases hbody : body s with
      | error e => exact ⟨1, _, .throw hs hbody, hpos s hs⟩
      | ok s' =>
        have hlt := hless s s' hs hbody
        obtain ⟨n, r, hrun, hn⟩ := ih (left s') hlt s' rfl
        exact ⟨n + 1, r, .round hs hbody hrun, by omega⟩
    · exact ⟨0, _, .stop hs, Nat.zero_le _⟩

end Loop
