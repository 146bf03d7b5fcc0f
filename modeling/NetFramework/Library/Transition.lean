/-
Partial labelled transition systems: a step function `σ → ι → Option σ`, its finite runs, and the induction rules over
them. A label that is not enabled has no successor, so a run over a list of labels exists only if every label was
enabled when its turn came.

- `run_inv`: what every step preserves holds at the end of every run.
- `run_inv_along`: the same, when every step of the run also meets a guard (`Along`).
- `run_inv_hist`: an invariant that also speaks about the labels consumed so far.
- `run_refines`: a run and the run of an abstraction, step by step.
- `Always`: a property of every state a run passes through.
- `along_or_first`: a run meets its guard throughout, or has a first step that does not.
- `along_or_doomed`: a run meets its guard throughout, or takes a step to a doomed state.
-/
import Mathlib.Tactic

namespace Transition

variable {σ ι : Type*}

/-! ## Runs -/

def run (step : σ → ι → Option σ) : σ → List ι → Option σ
  | s, [] => some s
  | s, o :: ops => (step s o).bind fun s' => run step s' ops

variable {step : σ → ι → Option σ}

@[simp] theorem run_nil (s : σ) : run step s [] = some s := rfl

theorem run_cons (s : σ) (o : ι) (ops : List ι) :
    run step s (o :: ops) = (step s o).bind fun s' => run step s' ops := rfl

theorem run_cons_some {s t : σ} {o : ι} {ops : List ι} :
    run step s (o :: ops) = some t ↔ ∃ u, step s o = some u ∧ run step u ops = some t := by
  simp [run_cons, Option.bind_eq_some_iff]

theorem run_append_some {s u t : σ} {a b : List ι} (ha : run step s a = some u) (hb : run step u b = some t) :
    run step s (a ++ b) = some t := by
  induction a generalizing s with
  | nil => cases ha; exact hb
  | cons o a ih =>
    obtain ⟨v, hv, ha⟩ := run_cons_some.1 ha
    exact run_cons_some.2 ⟨v, hv, ih ha⟩

/-! ## Invariants -/

/-- what every step preserves holds at the end of every run -/
theorem run_inv {Inv : σ → Prop} (hstep : ∀ s o s', Inv s → step s o = some s' → Inv s') {s t : σ} {ops : List ι}
    (h : Inv s) (hr : run step s ops = some t) : Inv t := by
  induction ops generalizing s with
  | nil => cases hr; exact h
  | cons o ops ih =>
    obtain ⟨u, hu, hr⟩ := run_cons_some.1 hr
    exact ih (hstep s o u h hu) hr

/-- an invariant over the labels consumed so far and the state -/
theorem run_inv_hist {Inv : List ι → σ → Prop}
    (hstep : ∀ hist s o s', Inv hist s → step s o = some s' → Inv (hist ++ [o]) s') {hist : List ι} {s t : σ}
    {ops : List ι} (h : Inv hist s) (hr : run step s ops = some t) : Inv (hist ++ ops) t := by
  induction ops generalizing hist s with
  | nil => cases hr; simpa using h
  | cons o ops ih =>
    obtain ⟨u, hu, hr⟩ := run_cons_some.1 hr
    simpa using ih (hstep hist s o u h hu) hr

/-! ## Refinement -/

/-- a system that can take every admissible label, as another one takes it under the abstraction `f`, runs as it does -/
theorem run_refines {τ : Type*} {step' : τ → ι → Option τ} {f : σ → τ} {ok : ι → Prop}
    (hstep : ∀ s o, ok o → ∃ s', step s o = some s' ∧ step' (f s) o = some (f s')) {ops : List ι}
    (hops : ∀ o ∈ ops, ok o) (s : σ) : ∃ t, run step s ops = some t ∧ run step' (f s) ops = some (f t) := by
  induction ops generalizing s with
  | nil => exact ⟨s, rfl, rfl⟩
  | cons o ops ih =>
    obtain ⟨u, hu, hu'⟩ := hstep s o (hops o List.mem_cons_self)
    obtain ⟨t, ht, ht'⟩ := ih (fun o' ho' => hops o' (List.mem_cons_of_mem o ho')) u
    exact ⟨t, run_cons_some.2 ⟨u, hu, ht⟩, run_cons_some.2 ⟨f u, hu', ht'⟩⟩

/-! ## Guards along a run -/

/-- every step of the run is taken from a state and with a label that meet the guard `G` -/
def Along (step : σ → ι → Option σ) (G : σ → ι → Prop) : σ → List ι → Prop
  | _, [] => True
  | s, o :: ops => G s o ∧ ∀ s', step s o = some s' → Along step G s' ops

theorem along_cons {G : σ → ι → Prop} {s : σ} {o : ι} {ops : List ι} :
    Along step G s (o :: ops) ↔ G s o ∧ (match step s o with | none => True | some s' => Along step G s' ops) := by
  cases h : step s o <;> simp [Along, h]

/-- a decidable guard can be evaluated along a concrete run -/
instance decidableAlong {G : σ → ι → Prop} [∀ s o, Decidable (G s o)] :
    (s : σ) → (ops : List ι) → Decidable (Along step G s ops)
  | _, [] => isTrue trivial
  | s, o :: ops =>
    have : Decidable (match step s o with | none => True | some s' => Along step G s' ops) :=
      match step s o with
      | none => isTrue trivial
      | some s' => decidableAlong s' ops
    decidable_of_iff _ along_cons.symm

/-- `P` holds in every state the run passes through, both ends included -/
def Always (step : σ → ι → Option σ) (P : σ → Prop) : σ → List ι → Prop
  | s, [] => P s
  | s, o :: ops => P s ∧ ∀ s', step s o = some s' → Always step P s' ops

theorem always_head {P : σ → Prop} {s : σ} {ops : List ι} (h : Always step P s ops) : P s := by
  cases ops with
  | nil => exact h
  | cons o ops => exact h.1

/-- what every guarded step preserves holds at the end of every guarded run -/
theorem run_inv_along {Inv : σ → Prop} {G : σ → ι → Prop}
    (hstep : ∀ s o s', Inv s → G s o → step s o = some s' → Inv s') {s t : σ} {ops : List ι}
    (h : Inv s) (hG : Along step G s ops) (hr : run step s ops = some t) : Inv t := by
  induction ops generalizing s with
  | nil => cases hr; exact h
  | cons o ops ih =>
    obtain ⟨u, hu, hr⟩ := run_cons_some.1 hr
    exact ih (hstep s o u h hG.1 hu) (hG.2 u hu) hr

/-- the same, for an invariant that also speaks about the labels consumed so far -/
theorem run_inv_hist_along {Inv : List ι → σ → Prop} {G : σ → ι → Prop}
    (hstep : ∀ hist s o s', Inv hist s → G s o → step s o = some s' → Inv (hist ++ [o]) s') {hist : List ι} {s t : σ}
    {ops : List ι} (h : Inv hist s) (hG : Along step G s ops) (hr : run step s ops = some t) : Inv (hist ++ ops) t := by
  induction ops generalizing hist s with
  | nil => cases hr; simpa using h
  | cons o ops ih =>
    obtain ⟨u, hu, hr⟩ := run_cons_some.1 hr
    simpa using ih (hstep hist s o u h hG.1 hu) (hG.2 u hu) hr

theorem always_along {P Inv : σ → Prop} {G : σ → ι → Prop} {s : σ} {ops : List ι} (hP : ∀ s, Inv s → P s)
    (hstep : ∀ s o s', Inv s → G s o → step s o = some s' → Inv s') (h : Inv s) (hG : Along step G s ops) :
    Always step P s ops := by
  induction ops generalizing s with
  | nil => exact hP s h
  | cons o ops ih => exact ⟨hP s h, fun s' hs' => ih (hstep s o s' h hG.1 hs') (hG.2 s' hs')⟩

/-- what every step preserves holds in every state of a run -/
theorem always_inv {P Inv : σ → Prop} {s : σ} {ops : List ι} (hP : ∀ s, Inv s → P s)
    (hstep : ∀ s o s', Inv s → step s o = some s' → Inv s') (h : Inv s) : Always step P s ops := by
  induction ops generalizing s with
  | nil => exact hP s h
  | cons o ops ih => exact ⟨hP s h, fun s' hs' => ih (hstep s o s' h hs')⟩

/-- a property of every state of a run is one of every state of its second part -/
theorem always_suffix {P : σ → Prop} {s u : σ} {a b : List ι} (h : Always step P s (a ++ b))
    (hr : run step s a = some u) : Always step P u b := by
  induction a generalizing s with
  | nil => cases hr; exact h
  | cons o a ih =>
    obtain ⟨v, hv, hr⟩ := run_cons_some.1 hr
    exact ih (h.2 v hv) hr

/-- a run meets its guard throughout, or has a first step that does not -/
theorem along_or_first {G : σ → ι → Prop} {s t : σ} {ops : List ι} (hr : run step s ops = some t) :
    Along step G s ops ∨
      ∃ a o b u v, ops = a ++ o :: b ∧ run step s a = some u ∧ Along step G s a ∧ step u o = some v ∧ ¬ G u o ∧
        run step v b = some t := by
  induction ops generalizing s with
  | nil => exact Or.inl trivial
  | cons o ops ih =>
    obtain ⟨w, hw, hr⟩ := run_cons_some.1 hr
    by_cases hG : G s o
    · have hcons : ∀ {l : List ι}, Along step G w l → Along step G s (o :: l) := by
        intro l hl
        refine ⟨hG, ?_⟩
        intro s' hs'
        obtain rfl : w = s' := Option.some.inj (hw.symm.trans hs')
        exact hl
      rcases ih hr with hA | ⟨a, o', b, u, v, rfl, ha, hA, hv, hG', hb⟩
      · exact Or.inl (hcons hA)
      · exact Or.inr ⟨o :: a, o', b, u, v, rfl, run_cons_some.2 ⟨w, hw, ha⟩, hcons hA, hv, hG', hb⟩
    · exact Or.inr ⟨[], o, ops, s, w, rfl, rfl, trivial, hw, hG, hr⟩

/-- if a step that does not meet the guard leads to a doomed state, the guard holds along the run or a doomed state is
on its way -/
theorem along_or_doomed {Inv Doomed : σ → Prop} {G : σ → ι → Prop} {s t : σ} {ops : List ι}
    (hstep : ∀ s o s', Inv s → step s o = some s' → (G s o → Inv s') ∧ (¬ G s o → Doomed s')) (h : Inv s)
    (hr : run step s ops = some t) :
    Along step G s ops ∨
      ∃ a b u, ops = a ++ b ∧ run step s a = some u ∧ run step u b = some t ∧ Doomed u := by
  rcases along_or_first (G := G) hr with hA | ⟨a, o, b, u, v, rfl, ha, hA, hv, hG, hb⟩
  · exact Or.inl hA
  · have hu : Inv u := run_inv_along (fun s o s' hs hG hso => (hstep s o s' hs hso).1 hG) h hA ha
    have hav : run step s (a ++ [o]) = some v := run_append_some ha (run_cons_some.2 ⟨v, hv, rfl⟩)
    exact Or.inr ⟨a ++ [o], b, v, List.append_cons a o b, hav, hb, (hstep u o v hu hv).2 hG⟩

/-- if, from a state meeting `Inv`, the guard is what a step needs to keep `Inv`, and a step that keeps `P` meets the
guard, then the guard holds along a run iff `P` holds throughout it -/
theorem along_iff_always {P Inv : σ → Prop} {G : σ → ι → Prop} {s t : σ} {ops : List ι}
    (hP : ∀ s, Inv s → P s)
    (hstep : ∀ s o s', Inv s → step s o = some s' → (G s o → Inv s') ∧ (P s' → G s o))
    (h : Inv s) (hr : run step s ops = some t) : Along step G s ops ↔ Always step P s ops := by
  refine ⟨always_along hP (fun s o s' hs hG h => (hstep s o s' hs h).1 hG) h, ?_⟩
  intro hA
  have hdoom : ∀ s o s', Inv s → step s o = some s' → (G s o → Inv s') ∧ (¬ G s o → ¬ P s') := fun s o s' hs hs' =>
    ⟨(hstep s o s' hs hs').1, fun hG hp => hG ((hstep s o s' hs hs').2 hp)⟩
  rcases along_or_doomed hdoom h hr with hG | ⟨a, b, u, rfl, ha, -, hu⟩
  · exact hG
  · exact absurd (always_head (always_suffix hA ha)) hu

end Transition
