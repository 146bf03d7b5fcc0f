/-
Objects of `ThreadedClass` whose methods call each other. `checkThread` runs a method at once where it is called on the
object's own thread, and posts it to that thread where it is called on another. What a method calls is a tree; the code
of the method that runs on a thread is cut in front of each call.

- `calls_conserved`: in every interleaving of any number of objects each call of each tree, however deep, is made once
  and on the thread of its object, or is still to come.
- `calls_in_order`: an object serves the calls of another in the order in which that one makes them.

The objects outlive the calls; what becomes of a call on an object that is being destroyed is in `ThreadedClass.lean`.
-/
import Mathlib.Algebra.BigOperators.Group.Finset.Basic
import NetFramework.NetServer

namespace NetFramework

open Transition

/-! ## Methods -/

mutual

/-- a method with its arguments, and what it does -/
inductive Method (ι : Type) where
  | mk (name : Bytes) (body : Body ι)

/-- a method returns, or calls a method of an object and goes on behind it -/
inductive Body (ι : Type) where
  | returns
  | call (target : ι) (method : Method ι) (rest : Body ι)

end

/-- what is done on the thread of an object: a method begins, or one is posted to another object -/
inductive Act (ι : Type) where
  | begins (method : Method ι)
  | posts (target : ι) (method : Method ι)

variable {ι : Type} [DecidableEq ι]

mutual

/-- what a method does on the thread of the object `i`, which is its own -/
def Method.acts (i : ι) : Method ι → List (Act ι)
  | .mk name body => .begins (.mk name body) :: body.acts i

def Body.acts (i : ι) : Body ι → List (Act ι)
  | .returns => []
  | .call target method rest => (if target = i then method.acts i else [.posts target method]) ++ rest.acts i

end

mutual

/-- a call with all those it leads to, each with its object -/
def Method.calls (i : ι) : Method ι → List (ι × Method ι)
  | .mk name body => (i, .mk name body) :: body.calls

def Body.calls : Body ι → List (ι × Method ι)
  | .returns => []
  | .call target method rest => method.calls target ++ rest.calls

end

/-- the calls that something done on the thread of `i` leads to -/
def Act.calls (i : ι) : Act ι → List (ι × Method ι)
  | .begins method => [(i, method)]
  | .posts target method => method.calls target

/-- the method posted to the object `j` -/
def Act.to (j : ι) : Act ι → Option (Method ι)
  | .begins _ => none
  | .posts target method => if target = j then some method else none

/-! ## Model -/

/-- a posted call, with the object whose thread has posted it, if it is one of the objects -/
abbrev Posted (ι : Type) := Option ι × Method ι

/-- `acts` is what the method that runs on the thread of an object has still to do; `made` are the calls made so far -/
structure ObjectSystem (ι : Type) where
  objects : ι → ThreadedClass (Posted ι)
  acts : ι → List (Act ι)
  made : List (ι × Method ι)

/-- `call`: a thread that belongs to none of the objects calls a method -/
inductive SystemOp (ι : Type) where
  | call (j : ι) (method : Method ι)
  | worker (i : ι) (o : WorkerOp (Posted ι))
  | act (i : ι)

namespace ObjectSystem

def new : ObjectSystem ι := ⟨fun _ => .new, fun _ => [], []⟩

/-- a method of `j` is posted -/
def post (s : ObjectSystem ι) (j : ι) (call : Posted ι) : Option (ObjectSystem ι) :=
  ((s.objects j).step (.method call)).map fun t => { s with objects := Function.update s.objects j t }

/-- what the thread of `i` has to do behind a step of it, which has left it as `t` -/
def actsAfter (s : ObjectSystem ι) (i : ι) (t : ThreadedClass (Posted ι)) : WorkerOp (Posted ι) → List (Act ι)
  | .dispatch => (t.thread_.running.map fun call => call.2.acts i).getD []
  | _ => s.acts i

/-- a method returns when it has done everything -/
def mayStep (s : ObjectSystem ι) (i : ι) : WorkerOp (Posted ι) → Bool
  | .callbackReturns => (s.acts i).isEmpty
  | _ => true

def step (s : ObjectSystem ι) : SystemOp ι → Option (ObjectSystem ι)
  | .call j method => s.post j (none, method)
  | .worker i o =>
    if s.mayStep i o then
      ((s.objects i).step (.worker o)).map fun t =>
        { s with objects := Function.update s.objects i t, acts := Function.update s.acts i (s.actsAfter i t o) }
    else none
  | .act i =>
    match s.acts i with
    | [] => none
    | .begins method :: acts =>
      some { s with acts := Function.update s.acts i acts, made := s.made ++ [(i, method)] }
    | .posts j method :: acts => { s with acts := Function.update s.acts i acts }.post j (some i, method)

end ObjectSystem

/-! ## Trees -/

mutual

/-- what is done on the thread of the object leads to all calls of the tree -/
theorem Method.acts_calls (i : ι) : (m : Method ι) → (m.acts i).flatMap (Act.calls i) = m.calls i
  | .mk name body => by
    rw [Method.acts, Method.calls, List.flatMap_cons, Body.acts_calls i body]
    rfl

theorem Body.acts_calls (i : ι) : (b : Body ι) → (b.acts i).flatMap (Act.calls i) = b.calls
  | .returns => rfl
  | .call target method rest => by
    rw [Body.acts, Body.calls, List.flatMap_append, Body.acts_calls i rest]
    split_ifs with htarget
    · rw [Method.acts_calls i method, htarget]
    · rw [List.flatMap_singleton, Act.calls]

end

/-! ## What a thread does -/

section Threads

variable {α : Type} {t t' : WorkerThread α}

/-- the calls that wait for the thread -/
def waitingCalls (t : WorkerThread α) : List α := t.pending.filterMap ThreadMsg.fnc?

theorem served_eq (t : WorkerThread α) : served t = t.executed ++ waitingCalls t := rfl

/-- the thread takes a timer message or a call that waits -/
theorem dispatch_case (hu : ThreadedClass.Unstopped t) (h : t.step .dispatch = some t') :
    t.running = none ∧ ((t'.running = none ∧ t'.executed = t.executed ∧ waitingCalls t' = waitingCalls t) ∨
      ∃ fnc, t'.running = some fnc ∧ t'.executed = t.executed ++ [fnc] ∧ waitingCalls t = fnc :: waitingCalls t') := by
  obtain ⟨queue, timerExit, worker, timer, executed⟩ := t
  cases worker with
  | popped msg =>
    refine ⟨rfl, ?_⟩
    cases msg with
    | postUserData fnc => cases h; exact Or.inr ⟨fnc, rfl, rfl, rfl⟩
    | timer => cases h; exact Or.inl ⟨rfl, rfl, rfl⟩
    | exitThread => exact absurd (hu.2 .exitThread List.mem_cons_self) (by simp [ThreadMsg.isExit])
  | _ => cases h

/-- no other step of the thread or of its timer takes a call -/
theorem internal_case {o : WorkerOp α} (hu : ThreadedClass.Unstopped t) (h : t.step o = some t')
    (hin : o.internal = true) (ho : o ≠ .dispatch) :
    t'.executed = t.executed ∧ waitingCalls t' = waitingCalls t ∧
      (t'.running = t.running ∨ o = .callbackReturns) := by
  unfold waitingCalls
  cases WorkerThread.step_kind h with
  | sends m hm hp he _ hr =>
    refine ⟨he, ?_, Or.inl hr⟩
    rw [hp, List.filterMap_append]
    simp [(ThreadedClass.internal_message hin m hm).2]
  | silent _ hp he _ hr => exact ⟨he, by rw [hp], Or.inl hr⟩
  | returns _ hp he _ _ _ => exact ⟨he, by rw [hp], Or.inr rfl⟩
  | takes => exact absurd rfl ho
  | stops => exact absurd rfl ho
  | drains _ hx _ _ _ => exact absurd (hu.1.symm.trans hx) (by simp)

end Threads

/-! ## Order -/

/-- the method of a call posted by `origin` -/
def Posted.of (origin : Option ι) (call : Posted ι) : Option (Method ι) := if call.1 = origin then some call.2 else none

/-- the call of a method of `j` from outside -/
def SystemOp.outside (j : ι) : SystemOp ι → Option (Method ι)
  | .call k method => if k = j then some method else none
  | _ => none

namespace ObjectSystem

/-- the calls of `origin` that `j` has served or that wait for it -/
def from_ (s : ObjectSystem ι) (origin : Option ι) (j : ι) : List (Method ι) :=
  (served (s.objects j).thread_).filterMap (Posted.of origin)

/-- the calls on `j` that the methods served by `i` ask for -/
def askedOf (s : ObjectSystem ι) (i j : ι) : List (Method ι) :=
  (s.objects i).thread_.executed.flatMap fun call => (call.2.acts i).filterMap (Act.to j)

/-- the calls on `j` that `i` has still to post -/
def toPost (s : ObjectSystem ι) (i j : ι) : List (Method ι) := (s.acts i).filterMap (Act.to j)

/-- a thread without a running method has nothing to do -/
structure Sound (s : ObjectSystem ι) : Prop where
  live : ∀ i, Server.Live (s.objects i)
  idle : ∀ i, (s.objects i).thread_.running = none → s.acts i = []

/-- a step that posts a call to `j` -/
structure Posts (s s' : ObjectSystem ι) (j : ι) (call : Posted ι) : Prop where
  made : s'.made = s.made
  acts : s'.acts = s.acts
  live : ∀ i, Server.Live (s'.objects i)
  others : ∀ i, i ≠ j → s'.objects i = s.objects i
  executed : (s'.objects j).thread_.executed = (s.objects j).thread_.executed
  running : (s'.objects j).thread_.running = (s.objects j).thread_.running
  waiting : waitingCalls (s'.objects j).thread_ = waitingCalls (s.objects j).thread_ ++ [call]

/-- a step of the thread of `i`: it takes no call, or the first that waits -/
structure Works (s s' : ObjectSystem ι) (i : ι) (taken : Option (Posted ι)) : Prop where
  made : s'.made = s.made
  live : ∀ k, Server.Live (s'.objects k)
  others : ∀ k, k ≠ i → s'.objects k = s.objects k ∧ s'.acts k = s.acts k
  executed : (s'.objects i).thread_.executed = (s.objects i).thread_.executed ++ taken.toList
  waiting : waitingCalls (s.objects i).thread_ = taken.toList ++ waitingCalls (s'.objects i).thread_
  acts : s'.acts i = s.acts i ++ (taken.map fun call => call.2.acts i).getD []
  idle : (s'.objects i).thread_.running = none → s'.acts i = []

section Steps

variable {s s' : ObjectSystem ι}

/-- the objects of the system with that of `i` replaced by one that is alive -/
theorem live_update (i : ι) {t : ThreadedClass (Posted ι)} (hl : ∀ k, Server.Live (s.objects k)) (ht : Server.Live t)
    (k : ι) : Server.Live (Function.update s.objects i t k) := by
  rw [Function.update_apply]
  split_ifs
  · exact ht
  · exact hl k

theorem post_thread {k : ι} {posted : Posted ι} (hl : ∀ i, Server.Live (s.objects i)) (h : s.post k posted = some s') :
    (s'.objects k).thread_ = (s.objects k).thread_.push (.postUserData posted) := by
  obtain ⟨t, ht, rfl⟩ := Option.map_eq_some_iff.1 h
  simp only [ThreadedClass.step, (hl k).alive, Option.some.injEq] at ht
  subst ht
  simp only [Function.update_self]

theorem post_posts {j : ι} {call : Posted ι} (hl : ∀ i, Server.Live (s.objects i)) (h : s.post j call = some s') :
    Posts s s' j call := by
  have hthread := post_thread hl h
  obtain ⟨t, ht, rfl⟩ := Option.map_eq_some_iff.1 h
  refine ⟨rfl, rfl, live_update j hl (Server.live_step (hl j) ht (by simp)), ?_, ?_, ?_, ?_⟩
  · intro i hi
    exact Function.update_of_ne hi _ _
  · rw [hthread]
    rfl
  · rw [hthread]
    rfl
  · rw [hthread, waitingCalls, WorkerThread.pending, WorkerThread.push, ← List.append_assoc, List.filterMap_append]
    rfl

theorem worker_thread {i : ι} {o : WorkerOp (Posted ι)} (h : s.step (.worker i o) = some s') :
    o.internal = true ∧ (s.objects i).thread_.step o = some (s'.objects i).thread_ := by
  simp only [step] at h
  split_ifs at h with hmay
  obtain ⟨t, ht, rfl⟩ := Option.map_eq_some_iff.1 h
  simp only [ThreadedClass.step] at ht
  split_ifs at ht with hin
  obtain ⟨w, hw, rfl⟩ := Option.map_eq_some_iff.1 ht
  simp only [Function.update_self]
  exact ⟨hin, hw⟩

theorem worker_works {i : ι} {o : WorkerOp (Posted ι)} (hs : s.Sound) (h : s.step (.worker i o) = some s') :
    ∃ taken, Works s s' i taken := by
  obtain ⟨hin, hthread⟩ := worker_thread h
  simp only [step] at h
  split_ifs at h with hmay
  obtain ⟨t, ht, rfl⟩ := Option.map_eq_some_iff.1 h
  simp only [Function.update_self] at hthread
  have hlive := live_update i hs.live (Server.live_step (hs.live i) ht (by simp))
  have hothers : ∀ k, k ≠ i → Function.update s.objects i t k = s.objects k ∧
      Function.update s.acts i (s.actsAfter i t o) k = s.acts k :=
    fun k hk => ⟨Function.update_of_ne hk _ _, Function.update_of_ne hk _ _⟩
  by_cases ho : o = .dispatch
  · subst ho
    obtain ⟨hidle, ⟨hrun, hexec, hwait⟩ | ⟨call, hrun, hexec, hwait⟩⟩ := dispatch_case (hs.live i).unstopped hthread
    · refine ⟨none, rfl, hlive, hothers, ?_, ?_, ?_, ?_⟩
      · simpa using hexec
      · simpa using hwait.symm
      · simp [actsAfter, hrun, hs.idle i hidle]
      · simp [actsAfter, hrun]
    · refine ⟨some call, rfl, hlive, hothers, ?_, ?_, ?_, ?_⟩
      · simpa using hexec
      · simpa using hwait
      · simp [actsAfter, hrun, hs.idle i hidle]
      · simp [hrun]
  · obtain ⟨hexec, hwait, hrun⟩ := internal_case (hs.live i).unstopped hthread hin ho
    have hacts : s.actsAfter i t o = s.acts i := by
      cases o with
      | dispatch => exact absurd rfl ho
      | _ => rfl
    refine ⟨none, rfl, hlive, hothers, ?_, ?_, ?_, ?_⟩
    · simpa using hexec
    · simpa using hwait.symm
    · simp [hacts]
    · simp only [Function.update_self, hacts]
      intro hnone
      rcases hrun with hrun | rfl
      · exact hs.idle i (hrun.symm.trans hnone)
      · exact List.isEmpty_iff.1 hmay

/-- a step of a running method -/
theorem act_case {i : ι} (hl : ∀ k, Server.Live (s.objects k)) (h : s.step (.act i) = some s') :
    (∃ method acts, s.acts i = .begins method :: acts ∧
        s' = { s with acts := Function.update s.acts i acts, made := s.made ++ [(i, method)] }) ∨
      ∃ j method acts, s.acts i = .posts j method :: acts ∧
        Posts { s with acts := Function.update s.acts i acts } s' j (some i, method) := by
  simp only [step] at h
  split at h
  · cases h
  · rename_i method acts hacts
    exact Or.inl ⟨method, acts, hacts, (Option.some.inj h).symm⟩
  · rename_i j method acts hacts
    exact Or.inr ⟨j, method, acts, hacts, post_posts hl h⟩

/-! ## What the steps keep -/

omit [DecidableEq ι] in
theorem sound_new : (new : ObjectSystem ι).Sound := ⟨fun _ => Server.live_new, fun _ _ => rfl⟩

theorem Posts.sound {j : ι} {call : Posted ι} (h : Posts s s' j call) (hs : s.Sound) : s'.Sound := by
  refine ⟨h.live, ?_⟩
  intro i hrun
  rw [h.acts]
  refine hs.idle i ?_
  by_cases hi : i = j
  · subst hi
    exact h.running.symm.trans hrun
  · rwa [h.others i hi] at hrun

theorem Works.sound {i : ι} {taken : Option (Posted ι)} (h : Works s s' i taken) (hs : s.Sound) : s'.Sound := by
  refine ⟨h.live, ?_⟩
  intro k hrun
  by_cases hk : k = i
  · subst hk
    exact h.idle hrun
  · rw [(h.others k hk).1] at hrun
    rw [(h.others k hk).2]
    exact hs.idle k hrun

/-- a method that has something to do is running -/
theorem Sound.advance {i : ι} {act : Act ι} {acts : List (Act ι)} (hs : s.Sound) (h : s.acts i = act :: acts)
    (made : List (ι × Method ι)) : Sound { s with acts := Function.update s.acts i acts, made } := by
  refine ⟨hs.live, ?_⟩
  intro k hrun
  by_cases hk : k = i
  · subst hk
    exact absurd ((hs.idle k hrun).symm.trans h) (by simp)
  · exact (Function.update_of_ne hk _ _).trans (hs.idle k hrun)

theorem step_sound {o : SystemOp ι} (hs : s.Sound) (h : s.step o = some s') : s'.Sound := by
  cases o with
  | call j method => exact (post_posts hs.live h).sound hs
  | worker i o =>
    obtain ⟨taken, hworks⟩ := worker_works hs h
    exact hworks.sound hs
  | act i =>
    rcases act_case hs.live h with ⟨method, acts, hacts, rfl⟩ | ⟨j, method, acts, hacts, hposts⟩
    · exact hs.advance hacts _
    · exact hposts.sound (hs.advance hacts _)

/-! ## Order -/

theorem Posts.from_eq {j : ι} {call : Posted ι} (h : Posts s s' j call) (origin : Option ι) (k : ι) :
    s'.from_ origin k = s.from_ origin k ++ if k = j then (Posted.of origin call).toList else [] := by
  by_cases hk : k = j
  · subst hk
    rw [from_, from_, served_eq, served_eq, h.executed, h.waiting, ← List.append_assoc, List.filterMap_append, if_pos rfl]
    cases hof : Posted.of origin call <;> simp [hof]
  · rw [from_, from_, h.others k hk, if_neg hk, List.append_nil]

theorem Posts.askedOf_eq {j : ι} {call : Posted ι} (h : Posts s s' j call) (i k : ι) : s'.askedOf i k = s.askedOf i k := by
  by_cases hi : i = j
  · subst hi
    rw [askedOf, askedOf, h.executed]
  · rw [askedOf, askedOf, h.others i hi]

theorem Works.from_eq {i : ι} {taken : Option (Posted ι)} (h : Works s s' i taken) (origin : Option ι) (k : ι) :
    s'.from_ origin k = s.from_ origin k := by
  by_cases hk : k = i
  · subst hk
    rw [from_, from_, served_eq, served_eq, h.executed, h.waiting, List.append_assoc]
  · rw [from_, from_, (h.others k hk).1]

/-- a call that is taken asks for what it puts on the thread -/
theorem Works.order {i : ι} {taken : Option (Posted ι)} (h : Works s s' i taken) (k j : ι) :
    ∃ more, s'.toPost k j = s.toPost k j ++ more ∧ s'.askedOf k j = s.askedOf k j ++ more := by
  by_cases hk : k = i
  · subst hk
    refine ⟨((taken.map fun call => call.2.acts k).getD []).filterMap (Act.to j), ?_, ?_⟩
    · rw [toPost, toPost, h.acts, List.filterMap_append]
    · rw [askedOf, askedOf, h.executed, List.flatMap_append]
      cases taken <;> simp
  · refine ⟨[], ?_, ?_⟩
    · rw [toPost, toPost, (h.others k hk).2, List.append_nil]
    · rw [askedOf, askedOf, (h.others k hk).1, List.append_nil]

/-- what `i` has asked of `j` is what `j` has of it and what is still to be posted, in order -/
structure Ordered (hist : List (SystemOp ι)) (s : ObjectSystem ι) : Prop where
  sound : s.Sound
  order : ∀ i j, s.from_ (some i) j ++ s.toPost i j = s.askedOf i j
  outside : ∀ j, s.from_ none j = hist.filterMap (SystemOp.outside j)

theorem ordered_new : Ordered [] (new : ObjectSystem ι) := ⟨sound_new, fun _ _ => rfl, fun _ => rfl⟩

/-- something is done on the thread of `k` -/
theorem toPost_advance {k : ι} {act : Act ι} {acts : List (Act ι)} (h : s.acts k = act :: acts)
    (made : List (ι × Method ι)) (i j : ι) :
    s.toPost i j = (if i = k then (act.to j).toList else []) ++
      toPost { s with acts := Function.update s.acts k acts, made } i j := by
  by_cases hi : i = k
  · subst hi
    simp only [toPost, h, if_true, Function.update_self]
    cases hact : act.to j <;> simp [hact]
  · simp only [toPost, if_neg hi, Function.update_of_ne hi, List.nil_append]

theorem step_order {hist : List (SystemOp ι)} {o : SystemOp ι} (hi : Ordered hist s) (h : s.step o = some s') (i j : ι) :
    s'.from_ (some i) j ++ s'.toPost i j = s'.askedOf i j := by
  have horder := hi.order i j
  cases o with
  | call k method =>
    have hposts := post_posts hi.sound.live h
    rw [hposts.from_eq, hposts.askedOf_eq, toPost, hposts.acts, ← horder]
    simp [Posted.of, toPost]
  | worker k o =>
    obtain ⟨taken, hworks⟩ := worker_works hi.sound h
    obtain ⟨more, htoPost, hasked⟩ := hworks.order i j
    rw [hworks.from_eq, htoPost, hasked, ← horder, List.append_assoc]
  | act k =>
    rcases act_case hi.sound.live h with ⟨method, acts, hacts, rfl⟩ | ⟨j', method, acts, hacts, hposts⟩
    · rw [toPost_advance hacts (s.made ++ [(k, method)])] at horder
      simp only [Act.to, Option.toList_none, ite_self, List.nil_append] at horder
      exact horder
    · have hput : (if j = j' then (Posted.of (some i) (some k, method)).toList else []) =
          if i = k then ((Act.posts j' method).to j).toList else [] := by
        simp only [Posted.of, Act.to, Option.some.injEq, eq_comm (a := k), eq_comm (a := j')]
        split_ifs <;> rfl
      rw [toPost_advance hacts s.made, ← List.append_assoc] at horder
      rw [hposts.from_eq, hposts.askedOf_eq, hput, toPost, hposts.acts]
      exact horder

theorem step_outside {hist : List (SystemOp ι)} {o : SystemOp ι} (hi : Ordered hist s) (h : s.step o = some s') (j : ι) :
    s'.from_ none j = (hist ++ [o]).filterMap (SystemOp.outside j) := by
  rw [List.filterMap_append, ← hi.outside j]
  cases o with
  | call k method =>
    rw [(post_posts hi.sound.live h).from_eq]
    by_cases hk : j = k
    · simp [hk, Posted.of, SystemOp.outside]
    · simp [hk, Ne.symm hk, SystemOp.outside]
  | worker k o =>
    obtain ⟨taken, hworks⟩ := worker_works hi.sound h
    rw [hworks.from_eq]
    simp [SystemOp.outside]
  | act k =>
    rcases act_case hi.sound.live h with ⟨method, acts, hacts, rfl⟩ | ⟨j', method, acts, hacts, hposts⟩
    · simp [SystemOp.outside, from_]
    · rw [hposts.from_eq]
      simp [SystemOp.outside, Posted.of, from_]

theorem step_ordered {hist : List (SystemOp ι)} {o : SystemOp ι} (hi : Ordered hist s) (h : s.step o = some s') :
    Ordered (hist ++ [o]) s' :=
  ⟨step_sound hi.sound h, step_order hi h, step_outside hi h⟩

end Steps

/-! ## Conservation -/

/-- a sum of which one term changes -/
theorem sum_change {κ M : Type} [Fintype κ] [DecidableEq κ] [AddCommMonoid M] {f g : κ → M} {k : κ} {x y : M}
    (hother : ∀ j, j ≠ k → g j = f j) (hk : g k + x = f k + y) : ∑ j, g j + x = ∑ j, f j + y := by
  have hrest : ∑ j ∈ Finset.univ.erase k, g j = ∑ j ∈ Finset.univ.erase k, f j :=
    Finset.sum_congr rfl fun j hj => hother j (Finset.ne_of_mem_erase hj)
  rw [← Finset.add_sum_erase _ g (Finset.mem_univ k), ← Finset.add_sum_erase _ f (Finset.mem_univ k), hrest,
    add_right_comm, hk, add_right_comm]

/-- what the thread of `i` has still to do, with all that it leads to -/
def toCome (s : ObjectSystem ι) (i : ι) : Multiset (ι × Method ι) :=
  ↑((s.acts i).flatMap (Act.calls i) ++ (waitingCalls (s.objects i).thread_).flatMap fun call => call.2.calls i)

/-- the calls made and those to come -/
def total [Fintype ι] (s : ObjectSystem ι) : Multiset (ι × Method ι) := ↑s.made + ∑ i, s.toCome i

end ObjectSystem

/-- all calls that a call from outside leads to -/
def SystemOp.asked : SystemOp ι → List (ι × Method ι)
  | .call j method => method.calls j
  | _ => []

namespace ObjectSystem

section Conservation

variable [Fintype ι] {s s' : ObjectSystem ι}

theorem Posts.total_eq {j : ι} {call : Posted ι} (h : Posts s s' j call) : s'.total = s.total + ↑(call.2.calls j) := by
  have hother : ∀ i, i ≠ j → s'.toCome i = s.toCome i := fun i hi => by rw [toCome, toCome, h.acts, h.others i hi]
  have hj : s'.toCome j + 0 = s.toCome j + ↑(call.2.calls j) := by
    rw [toCome, toCome, h.acts, h.waiting, Multiset.coe_add, add_zero]
    simp
  have hsum := sum_change hother hj
  rw [add_zero] at hsum
  rw [total, total, h.made, hsum, add_assoc]

theorem Works.total_eq {i : ι} {taken : Option (Posted ι)} (h : Works s s' i taken) : s'.total = s.total := by
  have hsame : ∀ k, s'.toCome k = s.toCome k := by
    intro k
    by_cases hk : k = i
    · subst hk
      rw [toCome, toCome, h.acts, h.waiting]
      cases taken <;> simp [Method.acts_calls]
    · rw [toCome, toCome, (h.others k hk).1, (h.others k hk).2]
  rw [total, total, h.made, Finset.sum_congr rfl fun k _ => hsame k]

/-- something done on the thread of `k` leaves less to come -/
theorem total_advance {k : ι} {act : Act ι} {acts : List (Act ι)} (h : s.acts k = act :: acts) :
    total { s with acts := Function.update s.acts k acts } + ↑(act.calls k) = s.total := by
  have hother : ∀ i, i ≠ k → toCome { s with acts := Function.update s.acts k acts } i = s.toCome i := by
    intro i hi
    simp only [toCome, Function.update_of_ne hi]
  have hk : toCome { s with acts := Function.update s.acts k acts } k + ↑(act.calls k) = s.toCome k + 0 := by
    simp only [toCome, Function.update_self, h, List.flatMap_cons, Multiset.coe_add, add_zero, Multiset.coe_eq_coe,
      List.append_assoc]
    rw [← List.append_assoc]
    exact List.perm_append_comm
  have hsum := sum_change hother hk
  rw [total, total, add_assoc, hsum, add_zero]

theorem step_total {o : SystemOp ι} (hs : s.Sound) (h : s.step o = some s') : s'.total = s.total + ↑o.asked := by
  cases o with
  | call j method => exact (post_posts hs.live h).total_eq
  | worker i o =>
    obtain ⟨taken, hworks⟩ := worker_works hs h
    rw [hworks.total_eq]
    exact (add_zero _).symm
  | act k =>
    have hasked : (SystemOp.act k).asked = [] := rfl
    rw [hasked, Multiset.coe_nil, add_zero]
    rcases act_case hs.live h with ⟨method, acts, hacts, rfl⟩ | ⟨j, method, acts, hacts, hposts⟩
    · rw [← total_advance hacts]
      simp only [total, Act.calls, toCome]
      rw [← Multiset.coe_add, add_right_comm]
    · rw [hposts.total_eq, ← total_advance hacts, Act.calls]

end Conservation

/-! ## Runs -/

/-- **Every call is made once.** In every interleaving the calls made, each on the thread of its object, and those to come
are all calls that the calls from outside lead to, however deep; once every thread is idle, all of them have been made. -/
theorem calls_conserved [Fintype ι] (ops : List (SystemOp ι)) (fin : ObjectSystem ι)
    (h : run step new ops = some fin) :
    ↑fin.made + ∑ i, fin.toCome i = (↑(ops.flatMap SystemOp.asked) : Multiset (ι × Method ι)) ∧
      ((∀ i, ThreadedClass.Idle (fin.objects i).thread_) → fin.made.Perm (ops.flatMap SystemOp.asked)) := by
  have hstep : ∀ (hist : List (SystemOp ι)) (s : ObjectSystem ι) o (s' : ObjectSystem ι),
      s.Sound ∧ s.total = ↑(hist.flatMap SystemOp.asked) → s.step o = some s' →
      s'.Sound ∧ s'.total = ↑((hist ++ [o]).flatMap SystemOp.asked) := by
    rintro hist s o s' ⟨hs, htotal⟩ hso
    refine ⟨step_sound hs hso, ?_⟩
    rw [step_total hs hso, htotal, Multiset.coe_add, List.flatMap_append, List.flatMap_singleton]
  have hnew : (new : ObjectSystem ι).Sound ∧
      (new : ObjectSystem ι).total = ↑(([] : List (SystemOp ι)).flatMap SystemOp.asked) := by
    have hnothing : ∑ i, (new : ObjectSystem ι).toCome i = 0 := Finset.sum_eq_zero fun _ _ => rfl
    refine ⟨sound_new, ?_⟩
    rw [total, hnothing]
    rfl
  have hfin := run_inv_hist hstep hnew h
  rw [List.nil_append] at hfin
  obtain ⟨hsound, htotal⟩ := hfin
  refine ⟨htotal, ?_⟩
  intro hidle
  have hnone : ∑ i, fin.toCome i = 0 := by
    refine Finset.sum_eq_zero fun i _ => ?_
    have hwaiting : waitingCalls (fin.objects i).thread_ = [] := (hidle i).1
    rw [toCome, hwaiting, hsound.idle i (hidle i).2]
    rfl
  rw [total, hnone, add_zero] at htotal
  exact Multiset.coe_eq_coe.1 htotal

/-- a method of the object `false` that calls one of `true`, which calls back, and one of its own -/
def pingMethod : Method Bool :=
  .mk [1] (.call true (.mk [2] (.call false (.mk [3] .returns) .returns)) (.call false (.mk [4] .returns) .returns))

/-- the steps of the thread of `i` around a method -/
def servedOnce (i : Bool) (acts : ℕ) : List (SystemOp Bool) :=
  [.worker i .pop, .worker i .dispatch] ++ List.replicate acts (.act i) ++ [.worker i .callbackReturns]

/-- the method is called from outside -/
def pingRun : List (SystemOp Bool) :=
  [.call false pingMethod, .worker false .start, .worker true .start] ++ servedOnce false 3 ++ servedOnce true 2 ++
    servedOnce false 1

theorem calls_conserved_ping : ∃ fin, run step new pingRun = some fin ∧ fin.made.Perm (pingMethod.calls false) := by
  obtain ⟨fin, hfin, hidle⟩ : ∃ fin : ObjectSystem Bool, run step new pingRun = some fin ∧
      ∀ i, ThreadedClass.Idle (fin.objects i).thread_ := by
    refine ⟨_, rfl, ?_⟩
    intro i
    cases i with
    | false => exact ⟨rfl, rfl⟩
    | true => exact ⟨rfl, rfl⟩
  exact ⟨fin, hfin, (calls_conserved pingRun fin hfin).2 hidle⟩

/-- **Order.** In every interleaving, for any two objects, the calls that the methods begun on the thread of the first ask
of the second are, in the order in which they are made: those that the second has served, those that wait for it, and
those still to be posted. Those from outside are served in the order in which they are made. -/
theorem calls_in_order (ops : List (SystemOp ι)) (fin : ObjectSystem ι) (h : run step new ops = some fin) (i j : ι) :
    fin.from_ (some i) j ++ fin.toPost i j = fin.askedOf i j ∧ fin.from_ none j = ops.filterMap (SystemOp.outside j) := by
  have hfin : Ordered ([] ++ ops) fin := run_inv_hist (fun _ _ _ _ => step_ordered) ordered_new h
  rw [List.nil_append] at hfin
  exact ⟨hfin.order i j, hfin.outside j⟩

/-- the object `false` gets its call from outside first, then the one that `true` makes -/
theorem calls_in_order_ping : ∃ fin, run step new pingRun = some fin ∧
    fin.from_ (some true) false ++ fin.toPost true false = fin.askedOf true false ∧
      fin.from_ none false = [pingMethod] := by
  obtain ⟨fin, hfin⟩ : ∃ fin : ObjectSystem Bool, run step new pingRun = some fin := ⟨_, rfl⟩
  exact ⟨fin, hfin, calls_in_order pingRun fin hfin true false⟩

end ObjectSystem
end NetFramework
