/-
`currNetInfo_` of handlerbase.h, over the calls that a handler makes on itself.

`HandlerBase::handleCall` on the handler's own worker thread runs at once, so a registered function that calls it again
has the inner request served in the middle of its own. The context is set in front of the function and reset to
`NetInfo()` behind it, by assignments that do not look at what it was, and the second of which is left out when the
function throws. `context_iff` says for which trees of calls every function's own code sees its own request's `NetInfo`
and every call leaves the context as it found it.
-/
import NetFramework.HandlerManager

namespace NetFramework

/-! ## Calls and their runs -/

mutual

/-- a call `handleCall(signature, data, netInfo)`, and what the registered function does in it if there is one -/
inductive Invocation (ρ : Type) where
  | mk (signature data : Bytes) (netInfo : NetInfo ρ) (ran : FunctionRun ρ)

/-- what a registered function still does: it returns or throws, or makes a call on its handler and goes on behind it,
unless the call throws something it does not catch -/
inductive FunctionRun (ρ : Type) where
  | returns
  | throws
  | call (inner : Invocation ρ) (caught : Bool) (rest : FunctionRun ρ)

end

/-- `own`: code of a function runs, with the request it serves and `currNetInfo_`. `left`: a call returns or throws,
with `currNetInfo_` before and after it. -/
inductive ContextEvent (ρ : Type) where
  | own (request curr : NetInfo ρ)
  | left (before after : NetInfo ρ)

/-- what a piece of code does, `currNetInfo_` behind it, and whether it throws -/
structure ContextRun (ρ : Type) where
  events : List (ContextEvent ρ)
  currNetInfo_ : NetInfo ρ
  threw : Bool

variable {ρ : Type} (functions_ : List Bytes)

mutual

/-- `HandlerBase::handleCall` where `checkThread` is true; `functions_` are the registered signatures -/
def Invocation.handleCall : Invocation ρ → NetInfo ρ → ContextRun ρ
  | .mk signature _ netInfo ran, currNetInfo_ =>
    if signature ∈ functions_ then
      let r := ran.exec netInfo netInfo
      let after := if r.threw then r.currNetInfo_ else NetInfo.new
      ⟨r.events ++ [.left currNetInfo_ after], after, r.threw⟩
    else
      -- TODO error handling
      ⟨[.left currNetInfo_ currNetInfo_], currNetInfo_, false⟩

/-- the function's run; its own code runs in front of everything it does -/
def FunctionRun.exec (request : NetInfo ρ) : FunctionRun ρ → NetInfo ρ → ContextRun ρ
  | .returns, currNetInfo_ => ⟨[.own request currNetInfo_], currNetInfo_, false⟩
  | .throws, currNetInfo_ => ⟨[.own request currNetInfo_], currNetInfo_, true⟩
  | .call inner caught rest, currNetInfo_ =>
    let r := inner.handleCall currNetInfo_
    if r.threw && !caught then ⟨.own request currNetInfo_ :: r.events, r.currNetInfo_, true⟩
    else
      let r' := rest.exec request r.currNetInfo_
      ⟨.own request currNetInfo_ :: (r.events ++ r'.events), r'.currNetInfo_, r'.threw⟩

end

mutual

/-- whether a call throws, which the context has no part in -/
def Invocation.fails : Invocation ρ → Bool
  | .mk signature _ _ ran => decide (signature ∈ functions_) && ran.fails

def FunctionRun.fails : FunctionRun ρ → Bool
  | .returns => false
  | .throws => true
  | .call inner caught rest => (inner.fails && !caught) || rest.fails

end

/-! ## The law, and when it holds -/

/-- own code sees its own request, and a call that is left has changed nothing -/
def ContextEvent.Lawful : ContextEvent ρ → Prop
  | .own request curr => curr = request
  | .left before after => after = before

/-- the law, over all that happens in a piece of code -/
def ContextRun.Lawful (r : ContextRun ρ) : Prop := ∀ e ∈ r.events, e.Lawful

mutual

/-- every call of a registered function that returns is made in the context `NetInfo()`, and every one that throws in
the context of its own `NetInfo`; a call that a function makes is made in the context of the function's request -/
def Invocation.Fits : Invocation ρ → NetInfo ρ → Prop
  | .mk signature _ netInfo ran, context =>
    signature ∈ functions_ → ran.Fits netInfo ∧ context = if ran.fails functions_ then netInfo else NetInfo.new

def FunctionRun.Fits (request : NetInfo ρ) : FunctionRun ρ → Prop
  | .returns => True
  | .throws => True
  | .call inner caught rest =>
    inner.Fits request ∧ ((inner.fails functions_ && !caught) = false → rest.Fits request)

end

/-! ## Steps -/

theorem lawful_cons {e : ContextEvent ρ} {events : List (ContextEvent ρ)} {curr : NetInfo ρ} {threw : Bool} :
    ContextRun.Lawful ⟨e :: events, curr, threw⟩ ↔ e.Lawful ∧ ContextRun.Lawful ⟨events, curr, threw⟩ :=
  List.forall_mem_cons

theorem lawful_append {events events' : List (ContextEvent ρ)} {curr : NetInfo ρ} {threw : Bool} :
    ContextRun.Lawful ⟨events ++ events', curr, threw⟩ ↔
      ContextRun.Lawful ⟨events, curr, threw⟩ ∧ ContextRun.Lawful ⟨events', curr, threw⟩ :=
  List.forall_mem_append

/-- the law speaks about the events alone -/
theorem lawful_events {r : ContextRun ρ} {curr : NetInfo ρ} {threw : Bool} :
    ContextRun.Lawful ⟨r.events, curr, threw⟩ ↔ r.Lawful := Iff.rfl

theorem lawful_single {e : ContextEvent ρ} {curr : NetInfo ρ} {threw : Bool} :
    ContextRun.Lawful ⟨[e], curr, threw⟩ ↔ e.Lawful := List.forall_mem_singleton

theorem handleCall_unknown {signature data : Bytes} {netInfo : NetInfo ρ} {ran : FunctionRun ρ}
    (h : signature ∉ functions_) (context : NetInfo ρ) :
    (Invocation.mk signature data netInfo ran).handleCall functions_ context =
      ⟨[.left context context], context, false⟩ := by
  rw [Invocation.handleCall, if_neg h]

theorem handleCall_known {signature data : Bytes} {netInfo : NetInfo ρ} {ran : FunctionRun ρ}
    (h : signature ∈ functions_) (context : NetInfo ρ) :
    (Invocation.mk signature data netInfo ran).handleCall functions_ context =
      let r := ran.exec functions_ netInfo netInfo
      let after := if r.threw then r.currNetInfo_ else NetInfo.new
      ⟨r.events ++ [.left context after], after, r.threw⟩ := by
  rw [Invocation.handleCall, if_pos h]

mutual

theorem handleCall_threw : (c : Invocation ρ) → (context : NetInfo ρ) →
    (c.handleCall functions_ context).threw = c.fails functions_
  | .mk signature _ netInfo ran, context => by
    by_cases h : signature ∈ functions_
    · rw [handleCall_known functions_ h, Invocation.fails, decide_eq_true h, Bool.true_and]
      exact exec_threw netInfo ran netInfo
    · rw [handleCall_unknown functions_ h, Invocation.fails, decide_eq_false h, Bool.false_and]

theorem exec_threw (request : NetInfo ρ) : (ran : FunctionRun ρ) → (context : NetInfo ρ) →
    (ran.exec functions_ request context).threw = ran.fails functions_
  | .returns, _ => rfl
  | .throws, _ => rfl
  | .call inner caught rest, context => by
    rw [FunctionRun.exec, FunctionRun.fails, handleCall_threw inner context]
    cases hfail : inner.fails functions_ && !caught with
    | true => rfl
    | false => exact exec_threw request rest _

end

/-- a call that keeps the law leaves the context as it was -/
theorem handleCall_context {c : Invocation ρ} {context : NetInfo ρ} (h : (c.handleCall functions_ context).Lawful) :
    (c.handleCall functions_ context).currNetInfo_ = context := by
  obtain ⟨signature, data, netInfo, ran⟩ := c
  by_cases hs : signature ∈ functions_
  · rw [handleCall_known functions_ hs] at h ⊢
    exact h (.left context _) (List.mem_append_right _ List.mem_cons_self)
  · rw [handleCall_unknown functions_ hs]

mutual

theorem handleCall_lawful : (c : Invocation ρ) → (context : NetInfo ρ) →
    ((c.handleCall functions_ context).Lawful ↔ c.Fits functions_ context)
  | .mk signature _ netInfo ran, context => by
    by_cases h : signature ∈ functions_
    · obtain ⟨hlaw, hcurr⟩ := exec_lawful netInfo ran
      have hthrew := exec_threw functions_ netInfo ran netInfo
      rw [handleCall_known functions_ h, Invocation.Fits, lawful_append, lawful_events, lawful_single, hlaw, hthrew]
      refine ⟨?_, ?_⟩
      · intro ⟨hfits, hleft⟩ _
        refine ⟨hfits, ?_⟩
        rw [ContextEvent.Lawful, hcurr (hlaw.2 hfits)] at hleft
        exact hleft.symm
      · intro hfits
        obtain ⟨hran, hcontext⟩ := hfits h
        refine ⟨hran, ?_⟩
        rw [ContextEvent.Lawful, hcurr (hlaw.2 hran)]
        exact hcontext.symm
    · rw [handleCall_unknown functions_ h, Invocation.Fits, lawful_single]
      exact ⟨fun _ hs => absurd hs h, fun _ => rfl⟩

/-- a function that starts in the context of its request keeps the law if its calls fit, and then stays in it -/
theorem exec_lawful (request : NetInfo ρ) : (ran : FunctionRun ρ) →
    ((ran.exec functions_ request request).Lawful ↔ ran.Fits functions_ request) ∧
      ((ran.exec functions_ request request).Lawful → (ran.exec functions_ request request).currNetInfo_ = request)
  | .returns => ⟨⟨fun _ => trivial, fun _ => lawful_single.2 rfl⟩, fun _ => rfl⟩
  | .throws => ⟨⟨fun _ => trivial, fun _ => lawful_single.2 rfl⟩, fun _ => rfl⟩
  | .call inner caught rest => by
    have hinner := handleCall_lawful inner request
    have hthrew := handleCall_threw functions_ inner request
    obtain ⟨hlaw, hcurr⟩ := exec_lawful request rest
    have hown : (ContextEvent.own request request).Lawful := rfl
    rw [FunctionRun.exec, FunctionRun.Fits, hthrew]
    cases hfail : inner.fails functions_ && !caught with
    | true =>
      simp only [if_true, lawful_cons, lawful_events, hown, true_and, hinner]
      refine ⟨⟨fun h => ⟨h, ?_⟩, fun h => h.1⟩, ?_⟩
      · intro hf
        cases hf
      · intro h
        exact handleCall_context functions_ (hinner.2 h)
    | false =>
      by_cases hl : (inner.handleCall functions_ request).Lawful
      · rw [handleCall_context functions_ hl]
        simp only [Bool.false_eq_true, if_false, lawful_cons, lawful_append, lawful_events, hown, true_and, hinner,
          hlaw]
        refine ⟨⟨fun h => ⟨h.1, fun _ => h.2⟩, fun h => ⟨h.1, h.2 trivial⟩⟩, ?_⟩
        intro h
        exact hcurr (hlaw.2 h.2)
      · simp only [Bool.false_eq_true, if_false, lawful_cons, lawful_append, lawful_events, hl, false_and, and_false,
          false_iff, false_implies, and_true, not_and]
        intro h
        exact absurd (hinner.2 h) hl

end

/-- **The request context, exactly.** In a tree of calls made in the context `context`, every function's own code sees
its own request's `NetInfo` and every call leaves the context as it found it, if and only if every call of a registered
function that returns is made in the context `NetInfo()`, and every one that throws in the context of its own
`NetInfo`. -/
theorem context_iff (c : Invocation ρ) (context : NetInfo ρ) :
    (∀ e ∈ (c.handleCall functions_ context).events, e.Lawful) ↔ c.Fits functions_ context :=
  handleCall_lawful functions_ c context

/-- a call that returns and makes no calls, in no context -/
example (netInfo : NetInfo ρ) : (Invocation.mk [111] [] netInfo .returns).Fits [[111]] NetInfo.new :=
  fun _ => ⟨trivial, rfl⟩

/-- **A context lost.** A function that serves client 1 calls its handler for client 2 and goes on: its own code then
runs with no client. A function that throws leaves its client behind. -/
theorem context_lost :
    let client : Int64 → NetInfo Unit := fun i => ⟨some i, none⟩
    let inner : Invocation Unit := .mk [105] [] (client 2) .returns
    let outer : Invocation Unit := .mk [111] [] (client 1) (.call inner false .returns)
    let throwing : Invocation Unit := .mk [116] [] (client 1) .throws
    (ContextEvent.own (client 1) NetInfo.new) ∈ (outer.handleCall [[105], [111], [116]] NetInfo.new).events ∧
      (throwing.handleCall [[105], [111], [116]] NetInfo.new).currNetInfo_ = client 1 ∧
      (¬ ∀ e ∈ (outer.handleCall [[105], [111], [116]] NetInfo.new).events, e.Lawful) ∧
      ¬ ∀ e ∈ (throwing.handleCall [[105], [111], [116]] NetInfo.new).events, e.Lawful := by
  intro client inner outer throwing
  have houter : (outer.handleCall [[105], [111], [116]] NetInfo.new).events =
      [.own (client 1) (client 1), .own (client 2) (client 2), .left (client 1) .new, .own (client 1) .new,
        .left .new .new] := rfl
  have hthrowing : (throwing.handleCall [[105], [111], [116]] NetInfo.new).events =
      [.own (client 1) (client 1), .left .new (client 1)] := rfl
  have hne : client 1 ≠ NetInfo.new := by decide
  refine ⟨?_, rfl, ?_, ?_⟩
  · rw [houter]
    simp
  · intro h
    have hown := h (.own (client 1) NetInfo.new) (by rw [houter]; simp)
    exact hne hown.symm
  · intro h
    have hleft := h (.left NetInfo.new (client 1)) (by rw [hthrowing]; simp)
    exact hne hleft

end NetFramework
