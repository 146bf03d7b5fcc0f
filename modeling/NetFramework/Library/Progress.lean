/-
Progress of one party of a partial labelled transition system. `Inevitable own goal n s`: whatever the others do from `s`
on, the party takes at most `n` more steps, and as long as the goal is not reached it can take one. A scheduler that
keeps letting it take them reaches the goal.

- `Inevitable.of_measure`: a quantity that the steps of the party lower and the others leave.
- `Inevitable.reached`: a run of the party's own steps that ends in the goal.

`stopAt` is a system that stops where the goal is reached, for a party that goes on there.
-/
import NetFramework.Library.Transition

namespace Transition

variable {σ ι : Type*} {step : σ → ι → Option σ} {own : ι → Bool} {goal : σ → Prop}

/-- from `s` the party `own` gets to the goal within `n` of its steps, whatever happens in between -/
structure Inevitable (step : σ → ι → Option σ) (own : ι → Bool) (goal : σ → Prop) (n : ℕ) (s : σ) : Prop where
  bounded : ∀ ops t, run step s ops = some t → ops.countP own ≤ n
  enabled : ∀ ops t, run step s ops = some t → goal t ∨ ∃ o, own o = true ∧ (step t o).isSome

theorem Inevitable.after {n : ℕ} {s s' : σ} {o : ι} (h : Inevitable step own goal (n + 1) s) (ho : own o = true)
    (hs : step s o = some s') : Inevitable step own goal n s' := by
  refine ⟨?_, ?_⟩
  · intro ops t hr
    have := h.bounded (o :: ops) t (run_cons_some.2 ⟨s', hs, hr⟩)
    rw [List.countP_cons_of_pos ho] at this
    omega
  · intro ops t hr
    exact h.enabled (o :: ops) t (run_cons_some.2 ⟨s', hs, hr⟩)

theorem Inevitable.reached {n : ℕ} {s : σ} (h : Inevitable step own goal n s) :
    ∃ ops t, run step s ops = some t ∧ (∀ o ∈ ops, own o = true) ∧ ops.length ≤ n ∧ goal t := by
  induction n generalizing s with
  | zero =>
    rcases h.enabled [] s rfl with hgoal | ⟨o, ho, hs⟩
    · exact ⟨[], s, rfl, by simp, le_rfl, hgoal⟩
    · obtain ⟨s', hs'⟩ := Option.isSome_iff_exists.1 hs
      have := h.bounded [o] s' (run_cons_some.2 ⟨s', hs', rfl⟩)
      simp [ho] at this
  | succ n ih =>
    rcases h.enabled [] s rfl with hgoal | ⟨o, ho, hs⟩
    · exact ⟨[], s, rfl, by simp, Nat.zero_le _, hgoal⟩
    · obtain ⟨s', hs'⟩ := Option.isSome_iff_exists.1 hs
      obtain ⟨ops, t, hr, hops, hlen, hgoal⟩ := ih (h.after ho hs')
      refine ⟨o :: ops, t, run_cons_some.2 ⟨s', hs', hr⟩, ?_, Nat.succ_le_succ hlen, hgoal⟩
      intro x hx
      rcases List.mem_cons.1 hx with rfl | hx
      · exact ho
      · exact hops x hx

/-- the steps left, which each step of the party lowers and no other step raises, as long as an invariant holds -/
theorem Inevitable.of_measure (Inv : σ → Prop) (left : σ → ℕ)
    (hstep : ∀ s o s', Inv s → step s o = some s' → Inv s' ∧ left s' + (if own o then 1 else 0) ≤ left s)
    (hlive : ∀ s, Inv s → goal s ∨ ∃ o, own o = true ∧ (step s o).isSome) {n : ℕ} {s : σ} (h : Inv s)
    (hn : left s ≤ n) : Inevitable step own goal n s := by
  refine ⟨?_, ?_⟩
  · intro ops t hr
    refine Nat.le_trans ?_ hn
    clear hn
    induction ops generalizing s with
    | nil => exact Nat.zero_le _
    | cons o ops ih =>
      obtain ⟨u, hu, hr⟩ := run_cons_some.1 hr
      obtain ⟨hinv, hleft⟩ := hstep s o u h hu
      have := ih hinv hr
      rw [List.countP_cons]
      omega
  · intro ops t hr
    exact hlive t (run_inv (fun s o s' hs hso => (hstep s o s' hs hso).1) h hr)

/-- the system that stops where `goal` is true -/
def stopAt (goal : σ → Bool) (step : σ → ι → Option σ) (s : σ) (o : ι) : Option σ := if goal s then none else step s o

theorem stopAt_some {goal : σ → Bool} {s s' : σ} {o : ι} (h : stopAt goal step s o = some s') :
    goal s = false ∧ step s o = some s' := by
  rw [stopAt] at h
  split_ifs at h with hgoal
  exact ⟨by simpa using hgoal, h⟩

theorem stopAt_isSome {goal : σ → Bool} {s : σ} {o : ι} (hgoal : goal s = false) (h : (step s o).isSome) :
    (stopAt goal step s o).isSome := by
  rwa [stopAt, hgoal]

end Transition
