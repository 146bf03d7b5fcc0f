/-
`ThreadedClass` of threadedclass.h: an object whose methods, called from another thread, post themselves to the
object's own `WorkerThread` (`checkThread`), and its destruction: the destructor of the derived class, then
`~ThreadedClass`, which posts the exit message, then the destructor of the member `thread_`, which joins.

The exit message queues up behind whatever is still pending, so the worker runs all of it although the derived part is
gone. `teardown_exact`: no method touches a destroyed object if and only if none is queued, popped or running when the
derived destructor finishes.
-/
import NetFramework.WorkerThread

namespace NetFramework

open Transition WorkerThread

/-! ## Model -/

inductive Teardown where
  | alive
  /-- the destructor of the derived class has finished -/
  | derivedGone
  /-- `~ThreadedClass` has run -/
  | exitPosted
  | joined
deriving DecidableEq, Repr

structure ThreadedClass (α : Type) where
  thread_ : WorkerThread α
  teardown : Teardown
deriving DecidableEq, Repr

inductive ObjectOp (α : Type) where
  /-- another thread calls a method, and `checkThread` posts it -/
  | method (fnc : α)
  /-- a step of the worker or of its timer -/
  | worker (o : WorkerOp α)
  | derivedDestructor
  | baseDestructor
  | memberDestructor
deriving DecidableEq, Repr

/-- a step of the worker or of its timer, not a call from outside -/
def WorkerOp.internal {α : Type} : WorkerOp α → Bool
  | .createThread => false
  | .postMsg _ => false
  | .exitThread => false
  | _ => true

namespace ThreadedClass

variable {α : Type}

/-- the constructor creates the thread -/
def new : ThreadedClass α := ⟨{ WorkerThread.new with worker := .created }, .alive⟩

def step (s : ThreadedClass α) : ObjectOp α → Option (ThreadedClass α)
  | .method fnc =>
    match s.teardown with
    | .alive => some { s with thread_ := s.thread_.push (.postUserData fnc) }
    | _ => none
  | .worker o => if o.internal then (s.thread_.step o).map fun thread => { s with thread_ := thread } else none
  | .derivedDestructor =>
    match s.teardown with
    | .alive => some { s with teardown := .derivedGone }
    | _ => none
  | .baseDestructor =>
    match s.teardown with
    | .derivedGone => some ⟨s.thread_.push .exitThread, .exitPosted⟩
    | _ => none
  | .memberDestructor =>
    match s.teardown, s.thread_.worker with
    | .exitPosted, .returned => some { s with teardown := .joined }
    | _, _ => none

/-- no method runs on an object whose derived part is destroyed -/
def Safe (s : ThreadedClass α) : Prop := s.teardown ≠ .alive → s.thread_.running = none

/-- the methods that wait for the worker -/
def waiting (s : ThreadedClass α) : List α := s.thread_.pending.filterMap ThreadMsg.fnc?

/-- when the derived destructor finishes, no method waits or runs -/
def Quiet (s : ThreadedClass α) (o : ObjectOp α) : Prop :=
  match o with
  | .derivedDestructor => s.waiting = [] ∧ s.thread_.running = none
  | _ => True

instance [DecidableEq α] (s : ThreadedClass α) : Decidable s.Safe := by unfold Safe; infer_instance
instance [DecidableEq α] (s : ThreadedClass α) (o : ObjectOp α) : Decidable (s.Quiet o) := by
  unfold Quiet; cases o <;> infer_instance

/-! ## What a step does -/

/-- a step is taken by a living object, ends the life of its derived part, is one of the worker (or pushes the exit
message) after that, or leaves the worker alone -/
inductive StepCase (s s' : ThreadedClass α) : ObjectOp α → Prop where
  | living {o : ObjectOp α} (ho : o ≠ .derivedDestructor) (h : s.teardown = .alive) (h' : s'.teardown = .alive)
      (w : WorkerOp α) (hk : StepKind s.thread_ s'.thread_ w) (hm : ∀ m, w.message = some m → m.isExit = false) :
      StepCase s s' o
  | dying (h : s.teardown = .alive) (h' : s'.teardown ≠ .alive) (ht : s'.thread_ = s.thread_) :
      StepCase s s' .derivedDestructor
  | gone {o : ObjectOp α} (ho : o ≠ .derivedDestructor) (h : s.teardown ≠ .alive) (h' : s'.teardown ≠ .alive)
      (w : WorkerOp α) (hk : StepKind s.thread_ s'.thread_ w) (hm : ∀ m, w.message = some m → m.fnc? = none) :
      StepCase s s' o
  | joins (h : s.teardown ≠ .alive) (h' : s'.teardown ≠ .alive) (ht : s'.thread_ = s.thread_) :
      StepCase s s' .memberDestructor

theorem internal_message {o : WorkerOp α} (h : o.internal = true) (m : ThreadMsg α) (hm : o.message = some m) :
    m.isExit = false ∧ m.fnc? = none := by
  cases o <;> cases h <;> cases hm
  exact ⟨rfl, rfl⟩

theorem step_case {s s' : ThreadedClass α} {o : ObjectOp α} (h : s.step o = some s') : StepCase s s' o := by
  obtain ⟨thread, teardown⟩ := s
  cases o with
  | method fnc =>
    cases teardown with
    | alive =>
      cases h
      exact .living nofun rfl rfl (.postMsg fnc) (step_kind rfl) (by intro m hm; cases hm; rfl)
    | _ => cases h
  | worker o =>
    simp only [step] at h
    split_ifs at h with ho
    obtain ⟨thread', ht, rfl⟩ := Option.map_eq_some_iff.1 h
    by_cases ha : teardown = .alive
    · exact .living nofun ha ha o (step_kind ht) fun m hm => (internal_message ho m hm).1
    · exact .gone nofun ha ha o (step_kind ht) fun m hm => (internal_message ho m hm).2
  | derivedDestructor =>
    cases teardown with
    | alive => cases h; exact .dying rfl nofun rfl
    | _ => cases h
  | baseDestructor =>
    cases teardown with
    | derivedGone =>
      cases h
      exact .gone nofun nofun nofun .exitThread (step_kind rfl) (by intro m hm; cases hm; rfl)
    | _ => cases h
  | memberDestructor =>
    cases teardown with
    | exitPosted =>
      simp only [step] at h
      split at h
      · cases h
        exact .joins nofun nofun rfl
      · cases h
    | _ => cases h

/-! ## Invariants of the worker -/

/-- no exit message has been sent -/
def Unstopped (t : WorkerThread α) : Prop := t.exiting = false ∧ ∀ m ∈ t.pending, m.isExit = false

/-- no method waits or runs -/
def Idle (t : WorkerThread α) : Prop := t.pending.filterMap ThreadMsg.fnc? = [] ∧ t.running = none

/-- the methods in front of the first exit message -/
def ahead (t : WorkerThread α) : List α := (t.pending.takeWhile fun m => !m.isExit).filterMap ThreadMsg.fnc?

/-- a method runs, or will run before the worker stops -/
def Busy (t : WorkerThread α) : Prop := t.exiting = false ∧ (t.running ≠ none ∨ ahead t ≠ [])

theorem unstopped_step {t t' : WorkerThread α} {o : WorkerOp α} (hi : Unstopped t) (hk : StepKind t t' o)
    (hm : ∀ m, o.message = some m → m.isExit = false) : Unstopped t' := by
  obtain ⟨hx, hpend⟩ := hi
  cases hk with
  | sends m ho hp _ hx' _ =>
    refine ⟨hx'.trans hx, ?_⟩
    intro x hx
    rw [hp, List.mem_append] at hx
    rcases hx with hx | hx
    · exact hpend x hx
    · rw [List.mem_singleton.1 hx]
      exact hm m ho
  | silent _ hp _ hx' _ => exact ⟨hx'.trans hx, hp ▸ hpend⟩
  | returns _ hp _ hx' _ _ => exact ⟨hx'.trans hx, hp ▸ hpend⟩
  | takes m _ hp _ _ hx' _ _ => exact ⟨hx', fun x hmem => hpend x (hp ▸ List.mem_cons_of_mem m hmem)⟩
  | stops hp _ _ _ _ =>
    have := hpend .exitThread (hp ▸ List.mem_cons_self)
    cases this
  | drains _ hx' _ _ _ => rw [hx] at hx'; cases hx'

theorem idle_step {t t' : WorkerThread α} {o : WorkerOp α} (hi : Idle t) (hk : StepKind t t' o)
    (hm : ∀ m, o.message = some m → m.fnc? = none) : Idle t' := by
  obtain ⟨hwait, hrun⟩ := hi
  cases hk with
  | sends m ho hp _ _ hr =>
    refine ⟨?_, hr.trans hrun⟩
    rw [hp, List.filterMap_append, hwait, List.filterMap_cons_none (hm m ho)]
    rfl
  | silent _ hp _ _ hr => exact ⟨hp ▸ hwait, hr.trans hrun⟩
  | returns _ hp _ _ _ hr => exact ⟨hp ▸ hwait, hr⟩
  | takes m _ hp _ _ _ _ hr =>
    rw [hp] at hwait
    cases hf : m.fnc? with
    | none =>
      rw [List.filterMap_cons_none hf] at hwait
      exact ⟨hwait, hr.trans hf⟩
    | some fnc =>
      rw [List.filterMap_cons_some hf] at hwait
      cases hwait
  | stops hp _ _ _ hr =>
    rw [hp] at hwait
    exact ⟨hwait, hr⟩
  | drains _ _ _ hp hr => exact ⟨by rw [hp]; rfl, hr⟩

/-- while no method runs, one that is ahead of the exit message stays ahead of it, or starts to run -/
theorem busy_step {t t' : WorkerThread α} {o : WorkerOp α} (hb : Busy t) (hrun : t.running = none)
    (hk : StepKind t t' o) : Busy t' := by
  obtain ⟨hx, hb⟩ := hb
  have hahead : ahead t ≠ [] := hb.resolve_left fun h => h hrun
  unfold ahead at hahead
  cases hk with
  | sends m ho hp _ hx' _ =>
    refine ⟨hx'.trans hx, Or.inr fun h => hahead ?_⟩
    have hpre : (t.pending.takeWhile fun m => !m.isExit) <+: t'.pending.takeWhile fun m => !m.isExit := by
      rw [hp, List.takeWhile_append]
      split_ifs with hlen
      · rw [(List.takeWhile_prefix _).eq_of_length hlen]
        exact List.prefix_append _ _
      · exact List.prefix_rfl
    have := hpre.filterMap ThreadMsg.fnc?
    unfold ahead at h
    rw [h] at this
    exact List.prefix_nil.1 this
  | silent _ hp _ hx' _ => exact ⟨hx'.trans hx, Or.inr (by unfold ahead; rw [hp]; exact hahead)⟩
  | returns _ _ _ _ hr _ => rw [hrun] at hr; cases hr
  | takes m hm hp _ _ hx' _ hr =>
    refine ⟨hx', ?_⟩
    rw [hp, List.takeWhile_cons_of_pos (by simp [hm])] at hahead
    cases hf : m.fnc? with
    | none =>
      rw [List.filterMap_cons_none hf] at hahead
      exact Or.inr hahead
    | some fnc => exact Or.inl (by rw [hr, hf]; nofun)
  | stops hp _ _ _ _ => rw [hp] at hahead; exact absurd rfl hahead
  | drains _ hx' _ _ _ => rw [hx] at hx'; cases hx'

/-! ## Invariants of the object -/

def Inv (s : ThreadedClass α) : Prop :=
  (s.teardown = .alive → Unstopped s.thread_) ∧ (s.teardown ≠ .alive → Idle s.thread_)

def Doomed (s : ThreadedClass α) : Prop := s.teardown ≠ .alive ∧ Busy s.thread_

theorem inv_new : (new : ThreadedClass α).Inv := ⟨fun _ => ⟨rfl, by simp [new, pending, inHand, WorkerThread.new]⟩, by
  intro h; exact absurd rfl h⟩

theorem inv_safe {s : ThreadedClass α} (h : s.Inv) : s.Safe := fun hgone => (h.2 hgone).2

theorem step_inv {s s' : ThreadedClass α} {o : ObjectOp α} (hi : s.Inv) (h : s.step o = some s') :
    (s.Quiet o → s'.Inv) ∧ (¬ s.Quiet o → s'.Doomed) := by
  have htrivial : ∀ {o : ObjectOp α}, o ≠ .derivedDestructor → s.Quiet o := by
    intro o ho
    cases o with
    | derivedDestructor => exact absurd rfl ho
    | _ => trivial
  cases step_case h with
  | living ho ha ha' w hk hm =>
    exact ⟨fun _ => ⟨fun _ => unstopped_step (hi.1 ha) hk hm, fun h => absurd ha' h⟩,
      fun hq => absurd (htrivial ho) hq⟩
  | dying ha ha' ht =>
    obtain ⟨hx, hpend⟩ := hi.1 ha
    refine ⟨fun hq => ⟨fun h => absurd h ha', fun _ => ht ▸ hq⟩, fun hq => ⟨ha', ht ▸ ⟨hx, ?_⟩⟩⟩
    by_cases hrun : s.thread_.running = none
    · -- nothing stops the worker before it has run what waits
      have hall : (s.thread_.pending.takeWhile fun m => !m.isExit) = s.thread_.pending :=
        List.takeWhile_eq_self_iff.2 fun m hm => by simp [hpend m hm]
      refine Or.inr fun hahead => hq ⟨?_, hrun⟩
      unfold ahead at hahead
      rwa [hall] at hahead
    · exact Or.inl hrun
  | gone ho ha ha' w hk hm =>
    exact ⟨fun _ => ⟨fun h => absurd h ha', fun _ => idle_step (hi.2 ha) hk hm⟩, fun hq => absurd (htrivial ho) hq⟩
  | joins ha ha' ht =>
    exact ⟨fun _ => ⟨fun h => absurd h ha', fun _ => ht ▸ hi.2 ha⟩, fun hq => absurd trivial hq⟩

/-- a doomed object is unsafe at some point before its worker stops -/
theorem doomed_violates {s t : ThreadedClass α} {ops : List (ObjectOp α)} (hd : s.Doomed) (hr : run step s ops = some t)
    (hend : t.thread_.exiting = true) : ¬ Always step Safe s ops := by
  induction ops generalizing s with
  | nil =>
    cases hr
    have := hd.2.1
    rw [hend] at this
    cases this
  | cons o ops ih =>
    intro hA
    have hrun : s.thread_.running = none := hA.1 hd.1
    obtain ⟨u, hu, hr⟩ := run_cons_some.1 hr
    refine ih ?_ hr (hA.2 u hu)
    cases step_case hu with
    | living _ ha _ _ _ _ => exact absurd ha hd.1
    | dying ha _ _ => exact absurd ha hd.1
    | gone _ _ ha' _ hk _ => exact ⟨ha', busy_step hd.2 hrun hk⟩
    | joins _ ha' ht => exact ⟨ha', ht ▸ hd.2⟩

/-! ## Main results -/

/-- **Teardown, exactly.** If no method waits or runs when the derived destructor finishes, no method ever runs on a
destroyed object. In a run at whose end the worker has stopped, it is so only then. -/
theorem teardown_exact (ops : List (ObjectOp α)) (fin : ThreadedClass α) (hr : run step new ops = some fin) :
    (Along step Quiet new ops → Always step Safe new ops) ∧
      (fin.thread_.worker = .returned → (Always step Safe new ops ↔ Along step Quiet new ops)) := by
  have hsafe : Along step Quiet new ops → Always step Safe (new : ThreadedClass α) ops :=
    always_along (fun _ => inv_safe) (fun _ _ _ hi hG h => (step_inv hi h).1 hG) inv_new
  refine ⟨hsafe, fun hend => ⟨fun hA => ?_, hsafe⟩⟩
  rcases along_or_doomed (fun _ _ _ => step_inv) inv_new hr with hG | ⟨a, b, u, rfl, ha, hb, hu⟩
  · exact hG
  · have hexit : fin.thread_.exiting = true := by simp [exiting, hend]
    exact absurd (always_suffix hA ha) (doomed_violates hu hb hexit)

/-- one method, run before the object is destroyed -/
theorem teardown_quiet :
    Always step Safe (new : ThreadedClass ℕ) [.method 1, .worker .start, .worker .pop, .worker .dispatch,
      .worker .callbackReturns, .derivedDestructor, .baseDestructor, .worker .pop, .worker .dispatch,
      .worker .timerTest, .worker .drain, .memberDestructor] := by
  obtain ⟨fin, hfin⟩ : ∃ fin, run step (new : ThreadedClass ℕ) [.method 1, .worker .start, .worker .pop,
      .worker .dispatch, .worker .callbackReturns, .derivedDestructor, .baseDestructor, .worker .pop, .worker .dispatch,
      .worker .timerTest, .worker .drain, .memberDestructor] = some fin := ⟨_, rfl⟩
  exact (teardown_exact _ fin hfin).1 (by decide)

/-- **A method of a destroyed object.** It is posted, the derived destructor finishes, and then the worker gets round to
it. -/
theorem method_after_destruction : ∃ s, run step (new : ThreadedClass ℕ)
      [.method 1, .derivedDestructor, .baseDestructor, .worker .start, .worker .pop, .worker .dispatch] = some s ∧
    s.teardown = .exitPosted ∧ s.thread_.running = some 1 ∧ ¬ s.Safe :=
  ⟨_, rfl, rfl, rfl, by decide⟩

end ThreadedClass
end NetFramework
