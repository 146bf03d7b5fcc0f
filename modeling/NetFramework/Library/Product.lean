/-
What a run shows of itself, and independent copies of one machine. A step shows a list of items (`show`, its first
argument the state it starts from); the items of a run are a word for another machine. If every step can be answered by
that machine with the items it shows, so can every run (`run_simulates`).

`product` keeps a state for each key and takes items with a key. It is nothing more than its copies: each is where the
items of its own key lead it (`run_product`).
-/
import NetFramework.Library.Transition

namespace Transition

variable {σ ι ε τ α κ : Type*}

/-! ## Items -/

/-- what the steps of a run show, in order -/
def shown (step : σ → ι → Option σ) (emit : σ → ι → List ε) : σ → List ι → List ε
  | _, [] => []
  | s, o :: ops =>
    emit s o ++
      match step s o with
      | none => []
      | some s' => shown step emit s' ops

theorem shown_cons {step : σ → ι → Option σ} {emit : σ → ι → List ε} {s s' : σ} {o : ι} (h : step s o = some s')
    (ops : List ι) : shown step emit s (o :: ops) = emit s o ++ shown step emit s' ops := by simp only [shown, h]

/-- a machine that answers every step with the items it shows answers every run -/
theorem run_simulates {step : σ → ι → Option σ} {emit : σ → ι → List ε} {machine : τ → ε → Option τ}
    {R : σ → τ → Prop}
    (hstep : ∀ s o s' a, R s a → step s o = some s' → ∃ a', run machine a (emit s o) = some a' ∧ R s' a')
    {s t : σ} {a : τ} {ops : List ι} (h : R s a) (hr : run step s ops = some t) :
    ∃ b, run machine a (shown step emit s ops) = some b ∧ R t b := by
  induction ops generalizing s a with
  | nil => cases hr; exact ⟨a, rfl, h⟩
  | cons o ops ih =>
    obtain ⟨u, hu, hr⟩ := run_cons_some.1 hr
    obtain ⟨a', ha', hR⟩ := hstep s o u a h hu
    obtain ⟨b, hb, hR'⟩ := ih hR hr
    rw [shown_cons hu]
    exact ⟨b, run_append_some ha' hb, hR'⟩

/-- an invariant that also speaks about what has been shown -/
theorem run_inv_shown {step : σ → ι → Option σ} {emit : σ → ι → List ε} {Inv : List ε → σ → Prop}
    (hstep : ∀ seen s o s', Inv seen s → step s o = some s' → Inv (seen ++ emit s o) s') {seen : List ε} {s t : σ}
    {ops : List ι} (h : Inv seen s) (hr : run step s ops = some t) : Inv (seen ++ shown step emit s ops) t := by
  induction ops generalizing seen s with
  | nil => cases hr; simpa [shown] using h
  | cons o ops ih =>
    obtain ⟨u, hu, hr⟩ := run_cons_some.1 hr
    rw [shown_cons hu, ← List.append_assoc]
    exact ih (hstep seen s o u h hu) hr

/-! ## Copies -/

variable [DecidableEq κ]

/-- the items of one key -/
def itemsOf (log : List (κ × α)) (k : κ) : List α := log.filterMap fun e => if e.1 = k then some e.2 else none

@[simp] theorem itemsOf_nil (k : κ) : itemsOf ([] : List (κ × α)) k = [] := rfl

theorem itemsOf_cons_self (k : κ) (a : α) (log : List (κ × α)) : itemsOf ((k, a) :: log) k = a :: itemsOf log k := by
  simp [itemsOf]

theorem itemsOf_cons_of_ne {k k' : κ} (h : k ≠ k') (a : α) (log : List (κ × α)) :
    itemsOf ((k, a) :: log) k' = itemsOf log k' := by
  simp [itemsOf, h]

/-- an item moves the copy of its key -/
def product (machine : τ → α → Option τ) (states : κ → τ) (item : κ × α) : Option (κ → τ) :=
  (machine (states item.1) item.2).map (Function.update states item.1)

theorem product_some {machine : τ → α → Option τ} {states : κ → τ} {k : κ} {a : α} {b : τ}
    (h : machine (states k) a = some b) : product machine states (k, a) = some (Function.update states k b) := by
  simp [product, h]

/-- **Copies are independent.** -/
theorem run_product {machine : τ → α → Option τ} {states states' : κ → τ} {log : List (κ × α)}
    (h : run (product machine) states log = some states') (k : κ) :
    run machine (states k) (itemsOf log k) = some (states' k) := by
  induction log generalizing states with
  | nil => cases h; rfl
  | cons e log ih =>
    obtain ⟨k', a⟩ := e
    obtain ⟨u, hu, h⟩ := run_cons_some.1 h
    obtain ⟨b, hb, rfl⟩ := Option.map_eq_some_iff.1 hu
    have hrest := ih h
    by_cases hk : k' = k
    · subst hk
      rw [Function.update_self] at hrest
      rw [itemsOf_cons_self]
      exact run_cons_some.2 ⟨b, hb, hrest⟩
    · rw [Function.update_of_ne (Ne.symm hk)] at hrest
      rwa [itemsOf_cons_of_ne hk]

end Transition
