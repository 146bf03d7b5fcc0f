/-
The end of a worker thread and of the object that owns it. `ExitThread` pushes a message like any other; the thread gets
to it behind everything posted before, sets `m_timerExit` and waits in `join` for the timer thread, which may be in front
of its last push.

- `exit_ends`: once `CreateThread` and `ExitThread` have been called, `Process` returns: its thread takes at most three
  steps for each pending message and is never blocked before it sets `m_timerExit`; then it and the timer thread take at
  most three more.
- `destructor_returns`: so the destructor of a `ThreadedClass` comes to its end, and by then each method that was called
  on the object has run once, in the order of the calls.

Callbacks are taken to return: a callback that does not keeps its thread, and the destructor, for good.
-/
import NetFramework.Library.Progress
import NetFramework.ThreadedClass

namespace NetFramework

open Transition WorkerThread

variable {α : Type}

/-! ## Steps left -/

/-- the steps of the thread in `Process` -/
def WorkerOp.ofWorker : WorkerOp α → Bool
  | .start => true
  | .pop => true
  | .dispatch => true
  | .callbackReturns => true
  | .drain => true
  | _ => false

namespace WorkerThread

/-- `CreateThread` and `ExitThread` have been called -/
def Ending (s : WorkerThread α) : Prop := s.worker ≠ .notCreated ∧ (s.exiting = true ∨ .exitThread ∈ s.pending)

/-- the steps that take the thread through the queue: up to an exit message, and the two steps behind it -/
def queueSteps : List (ThreadMsg α) → ℕ
  | [] => 3
  | .exitThread :: _ => 3
  | .timer :: queue => queueSteps queue + 2
  | .postUserData _ :: queue => queueSteps queue + 3

/-- the steps that are left to the thread -/
def stepsLeft (s : WorkerThread α) : ℕ :=
  match s.worker with
  | .notCreated => queueSteps s.m_queue + 1
  | .created => queueSteps s.m_queue + 1
  | .waiting => queueSteps s.m_queue
  | .popped .exitThread => 2
  | .popped .timer => queueSteps s.m_queue + 1
  | .popped (.postUserData _) => queueSteps s.m_queue + 2
  | .calling _ => queueSteps s.m_queue + 1
  | .joining => 1
  | .returned => 0

/-- the steps that are left to the timer thread once `m_timerExit` is set -/
def timerLeft (s : WorkerThread α) : ℕ :=
  match s.timer with
  | .checking => 1
  | .sleeping => 2
  | _ => 0

theorem queueSteps_append {queue : List (ThreadMsg α)} (h : .exitThread ∈ queue) (m : ThreadMsg α) :
    queueSteps (queue ++ [m]) = queueSteps queue := by
  induction queue with
  | nil => cases h
  | cons x queue ih =>
    cases x with
    | exitThread => rfl
    | timer => simp only [List.cons_append, queueSteps, ih (by simpa using h)]
    | postUserData fnc => simp only [List.cons_append, queueSteps, ih (by simpa using h)]

theorem queueSteps_le {queue : List (ThreadMsg α)} (h : .exitThread ∈ queue) :
    queueSteps queue ≤ 3 * queue.length := by
  induction queue with
  | nil => cases h
  | cons x queue ih =>
    rw [List.length_cons]
    cases x with
    | exitThread => simp only [queueSteps]; omega
    | timer => have := ih (by simpa using h); simp only [queueSteps]; omega
    | postUserData fnc => have := ih (by simpa using h); simp only [queueSteps]; omega

theorem stepsLeft_le {s : WorkerThread α} (h : s.Ending) : s.stepsLeft ≤ 3 * s.pending.length + 1 := by
  obtain ⟨queue, timerExit, worker, timer, executed⟩ := s
  obtain ⟨-, h⟩ := h
  cases worker with
  | popped msg =>
    cases msg with
    | exitThread => simp only [stepsLeft, pending, inHand, List.length_append, List.length_singleton]; omega
    | _ =>
      have := queueSteps_le (by simpa [exiting, pending, inHand] using h : .exitThread ∈ queue)
      simp only [stepsLeft, pending, inHand, List.length_append, List.length_singleton]
      omega
  | joining => simp [stepsLeft]
  | returned => simp [stepsLeft]
  | _ =>
    have := queueSteps_le (by simpa [exiting, pending, inHand] using h : .exitThread ∈ queue)
    simp only [stepsLeft, pending, inHand, List.nil_append]
    omega

/-! ## What a step leaves -/

/-- a message pushed behind an exit message is never looked at -/
theorem Ending.push {s : WorkerThread α} (h : s.Ending) (m : ThreadMsg α) :
    (s.push m).Ending ∧ (s.push m).stepsLeft = s.stepsLeft := by
  obtain ⟨queue, timerExit, worker, timer, executed⟩ := s
  obtain ⟨hcreated, h⟩ := h
  refine ⟨⟨hcreated, h.imp_right fun hmem => ?_⟩, ?_⟩
  · simp only [WorkerThread.push, pending, inHand, ← List.append_assoc]
    exact List.mem_append_left _ hmem
  · cases worker with
    | popped msg =>
      cases msg with
      | exitThread => rfl
      | _ =>
        have hmem : .exitThread ∈ queue := by simpa [exiting, pending, inHand] using h
        simp only [WorkerThread.push, stepsLeft, queueSteps_append hmem]
    | joining => rfl
    | returned => rfl
    | _ =>
      have hmem : .exitThread ∈ queue := by simpa [exiting, pending, inHand] using h
      simp only [WorkerThread.push, stepsLeft, queueSteps_append hmem]

/-- each step of the thread is one of those left to it, and nobody else's step adds to them -/
theorem step_left {s s' : WorkerThread α} {o : WorkerOp α} (hs : s.Ending) (h : s.step o = some s') :
    s'.Ending ∧ s'.stepsLeft + (if o.ofWorker then 1 else 0) = s.stepsLeft := by
  have hpush := hs.push
  obtain ⟨queue, timerExit, worker, timer, executed⟩ := s
  obtain ⟨hcreated, hexit⟩ := hs
  cases o with
  | createThread =>
    cases worker with
    | notCreated => exact absurd rfl hcreated
    | _ => cases h; exact ⟨⟨hcreated, hexit⟩, rfl⟩
  | postMsg fnc => cases h; exact hpush _
  | exitThread => cases h; exact hpush _
  | start =>
    cases worker with
    | created => cases h; exact ⟨⟨by simp, hexit⟩, rfl⟩
    | _ => cases h
  | pop =>
    cases worker with
    | waiting =>
      cases queue with
      | nil => cases h
      | cons msg queue =>
        cases h
        refine ⟨⟨by simp, hexit⟩, ?_⟩
        cases msg <;> rfl
    | _ => cases h
  | dispatch =>
    cases worker with
    | popped msg =>
      cases msg with
      | exitThread => cases h; exact ⟨⟨by simp, Or.inl rfl⟩, rfl⟩
      | timer => cases h; exact ⟨⟨by simp, by simpa [exiting, pending, inHand] using hexit⟩, rfl⟩
      | postUserData fnc => cases h; exact ⟨⟨by simp, by simpa [exiting, pending, inHand] using hexit⟩, rfl⟩
    | _ => cases h
  | callbackReturns =>
    cases worker with
    | calling fnc => cases h; exact ⟨⟨by simp, hexit⟩, rfl⟩
    | _ => cases h
  | timerTest =>
    cases timer with
    | checking => cases h; exact ⟨⟨hcreated, hexit⟩, rfl⟩
    | _ => cases h
  | timerPush =>
    cases timer with
    | sleeping => cases h; exact hpush _
    | _ => cases h
  | drain =>
    cases worker with
    | joining =>
      cases timer with
      | ended => cases h; exact ⟨⟨by simp, Or.inl rfl⟩, rfl⟩
      | _ => cases h
    | _ => cases h

/-- the timer thread runs once `Process` does, and `m_timerExit` is set in front of the join -/
structure Timed (s : WorkerThread α) : Prop where
  started : s.timer = .notStarted → s.worker = .notCreated ∨ s.worker = .created
  stopped : s.exiting = true → s.m_timerExit = true

theorem timed_new : (new : WorkerThread α).Timed := ⟨fun _ => Or.inl rfl, nofun⟩

theorem step_timed {s s' : WorkerThread α} {o : WorkerOp α} (hs : s.Timed) (h : s.step o = some s') : s'.Timed := by
  obtain ⟨queue, timerExit, worker, timer, executed⟩ := s
  obtain ⟨hstarted, hstopped⟩ := hs
  cases o with
  | createThread =>
    cases worker with
    | notCreated => cases h; exact ⟨fun _ => Or.inr rfl, nofun⟩
    | _ => cases h; exact ⟨hstarted, hstopped⟩
  | postMsg fnc => cases h; exact ⟨hstarted, hstopped⟩
  | exitThread => cases h; exact ⟨hstarted, hstopped⟩
  | start =>
    cases worker with
    | created => cases h; exact ⟨nofun, nofun⟩
    | _ => cases h
  | pop =>
    cases worker with
    | waiting =>
      cases queue with
      | nil => cases h
      | cons msg queue => cases h; exact ⟨fun ht => absurd (hstarted ht) (by simp), nofun⟩
    | _ => cases h
  | dispatch =>
    cases worker with
    | popped msg =>
      have hrunning : timer ≠ .notStarted := fun ht => absurd (hstarted ht) (by simp)
      cases msg <;> cases h
      · exact ⟨fun ht => absurd ht hrunning, nofun⟩
      · exact ⟨fun ht => absurd ht hrunning, nofun⟩
      · exact ⟨fun ht => absurd ht hrunning, fun _ => rfl⟩
    | _ => cases h
  | callbackReturns =>
    cases worker with
    | calling fnc => cases h; exact ⟨fun ht => absurd (hstarted ht) (by simp), nofun⟩
    | _ => cases h
  | timerTest =>
    cases timer with
    | checking =>
      cases h
      refine ⟨fun ht => ?_, hstopped⟩
      dsimp only at ht
      split at ht <;> cases ht
    | _ => cases h
  | timerPush =>
    cases timer with
    | sleeping => cases h; exact ⟨nofun, hstopped⟩
    | _ => cases h
  | drain =>
    cases worker with
    | joining =>
      cases timer with
      | ended => cases h; exact ⟨nofun, fun _ => hstopped rfl⟩
      | _ => cases h
    | _ => cases h

/-- once `m_timerExit` is set, each step of the two threads is one of the last -/
theorem step_last {s s' : WorkerThread α} {o : WorkerOp α} (hs : s.Timed) (hx : s.exiting = true)
    (h : s.step o = some s') :
    s'.exiting = true ∧
      s'.stepsLeft + s'.timerLeft + (if o.internal then 1 else 0) = s.stepsLeft + s.timerLeft := by
  obtain ⟨queue, timerExit, worker, timer, executed⟩ := s
  obtain rfl : timerExit = true := hs.stopped hx
  cases worker with
  | joining =>
    cases o with
    | timerTest => cases timer <;> cases h; exact ⟨rfl, rfl⟩
    | timerPush => cases timer <;> cases h; exact ⟨rfl, rfl⟩
    | drain => cases timer <;> cases h; exact ⟨rfl, rfl⟩
    | _ => cases h <;> exact ⟨rfl, rfl⟩
  | returned =>
    cases o with
    | timerTest => cases timer <;> cases h; exact ⟨rfl, rfl⟩
    | timerPush => cases timer <;> cases h; exact ⟨rfl, rfl⟩
    | _ => cases h <;> exact ⟨rfl, rfl⟩
  | _ => cases hx

theorem last_le {s : WorkerThread α} (hx : s.exiting = true) : s.stepsLeft + s.timerLeft ≤ 3 := by
  obtain ⟨queue, timerExit, worker, timer, executed⟩ := s
  cases worker with
  | joining => cases timer <;> simp [stepsLeft, timerLeft]
  | returned => cases timer <;> simp [stepsLeft, timerLeft]
  | _ => cases hx

/-! ## Nobody waits for ever -/

/-- until it sets `m_timerExit`, the thread is not blocked -/
theorem Ending.enabled {s : WorkerThread α} (h : s.Ending) (hx : s.exiting = false) :
    ∃ o : WorkerOp α, o.ofWorker = true ∧ (s.step o).isSome := by
  obtain ⟨queue, timerExit, worker, timer, executed⟩ := s
  obtain ⟨hcreated, hexit⟩ := h
  cases worker with
  | notCreated => exact absurd rfl hcreated
  | created => exact ⟨.start, rfl, rfl⟩
  | waiting =>
    cases queue with
    | nil => simp [exiting, pending, inHand] at hexit
    | cons msg queue => exact ⟨.pop, rfl, rfl⟩
  | popped msg => cases msg <;> exact ⟨.dispatch, rfl, rfl⟩
  | calling fnc => exact ⟨.callbackReturns, rfl, rfl⟩
  | joining => cases hx
  | returned => cases hx

/-- after that it waits for nothing but the timer thread -/
theorem Timed.enabled {s : WorkerThread α} (h : s.Timed) (hx : s.exiting = true) :
    s.worker = .returned ∨ ∃ o : WorkerOp α, o.internal = true ∧ (s.step o).isSome := by
  obtain ⟨queue, timerExit, worker, timer, executed⟩ := s
  cases worker with
  | joining =>
    cases timer with
    | notStarted => exact absurd (h.started rfl) (by simp)
    | checking => exact Or.inr ⟨.timerTest, rfl, rfl⟩
    | sleeping => exact Or.inr ⟨.timerPush, rfl, rfl⟩
    | ended => exact Or.inr ⟨.drain, rfl, rfl⟩
  | returned => exact Or.inl rfl
  | _ => cases hx

/-! ## What has been called -/

theorem run_timed {ops : List (WorkerOp α)} {s : WorkerThread α} (hr : run step new ops = some s) : s.Timed :=
  run_inv (fun _ _ _ => step_timed) timed_new hr

/-- the thread stays created -/
theorem step_created {s s' : WorkerThread α} {o : WorkerOp α} (h : s.step o = some s')
    (hc : o = .createThread ∨ s.worker ≠ .notCreated) : s'.worker ≠ .notCreated := by
  obtain ⟨queue, timerExit, worker, timer, executed⟩ := s
  cases o with
  | createThread => cases worker <;> cases h <;> nofun
  | start => cases worker <;> cases h; nofun
  | pop => cases worker <;> cases queue <;> cases h; nofun
  | dispatch =>
    cases worker with
    | popped msg => cases msg <;> cases h <;> nofun
    | _ => cases h
  | callbackReturns => cases worker <;> cases h; nofun
  | timerTest => cases timer <;> cases h; exact hc.resolve_left nofun
  | timerPush => cases timer <;> cases h; exact hc.resolve_left nofun
  | drain => cases worker <;> cases timer <;> cases h; nofun
  | _ => cases h; exact hc.resolve_left nofun

theorem run_created {ops : List (WorkerOp α)} {s : WorkerThread α} (hr : run step new ops = some s)
    (hc : .createThread ∈ ops) : s.worker ≠ .notCreated := by
  have hstep : ∀ (hist : List (WorkerOp α)) s o s', (.createThread ∈ hist → s.worker ≠ .notCreated) →
      step s o = some s' → .createThread ∈ hist ++ [o] → s'.worker ≠ .notCreated := by
    intro hist s o s' hi h hmem
    refine step_created h ?_
    rcases List.mem_append.1 hmem with hmem | hmem
    · exact Or.inr (hi hmem)
    · exact Or.inl (List.mem_singleton.1 hmem).symm
  have hnew : .createThread ∈ ([] : List (WorkerOp α)) → (new : WorkerThread α).worker ≠ .notCreated :=
    fun h => absurd h List.not_mem_nil
  exact run_inv_hist hstep hnew hr hc

/-- an exit message that has been sent is still to come, or has been processed -/
theorem run_ending {ops : List (WorkerOp α)} {s : WorkerThread α} (hr : run step new ops = some s)
    (hc : .createThread ∈ ops) (he : .exitThread ∈ ops) : s.Ending := by
  refine ⟨run_created hr hc, ?_⟩
  have hi : Delivers ([] ++ ops) s := run_inv_hist (fun _ _ _ _ => step_delivers) delivers_new hr
  rcases Bool.eq_false_or_eq_true s.exiting with hx | hx
  · exact Or.inl hx
  · obtain ⟨taken, hopen, -⟩ := hi.running hx
    have hsent : .exitThread ∈ sent ops := List.mem_filterMap.2 ⟨.exitThread, he, rfl⟩
    rw [← List.nil_append ops, hopen.order, List.mem_append] at hsent
    exact Or.inr (hsent.resolve_left fun hmem => absurd (hopen.running _ hmem) (by simp [ThreadMsg.isExit]))

/-! ## Main results -/

theorem ending_inevitable {s : WorkerThread α} (h : s.Ending) :
    Inevitable step WorkerOp.ofWorker (fun t => t.exiting = true) (3 * s.pending.length + 1) s := by
  refine Inevitable.of_measure Ending stepsLeft ?_ ?_ h (stepsLeft_le h)
  · intro s o s' hs ho
    obtain ⟨hs', hleft⟩ := step_left hs ho
    exact ⟨hs', hleft.le⟩
  · intro s hs
    rcases Bool.eq_false_or_eq_true s.exiting with hx | hx
    · exact Or.inl hx
    · exact Or.inr (hs.enabled hx)

theorem exiting_inevitable {s : WorkerThread α} (h : s.Timed) (hx : s.exiting = true) :
    Inevitable step WorkerOp.internal (fun t => t.worker = .returned) 3 s := by
  refine Inevitable.of_measure (fun s => s.Timed ∧ s.exiting = true) (fun s => s.stepsLeft + s.timerLeft)
    ?_ ?_ ⟨h, hx⟩ ?_
  · rintro s o s' ⟨hs, hx⟩ ho
    obtain ⟨hx', hleft⟩ := step_last hs hx ho
    exact ⟨⟨step_timed hs ho, hx'⟩, hleft.le⟩
  · rintro s ⟨hs, hx⟩
    exact hs.enabled hx
  · exact last_le hx

/-- **`Process` returns.** Once the thread is created and an exit message is sent, the thread has a bounded number of
steps left and is never blocked before it has set `m_timerExit`; then `join` and the last of the timer thread take at most
three more, and neither waits for anything else. -/
theorem exit_ends (ops : List (WorkerOp α)) (s : WorkerThread α) (hr : run step new ops = some s)
    (hc : .createThread ∈ ops) (he : .exitThread ∈ ops) :
    Inevitable step WorkerOp.ofWorker (fun t => t.exiting = true) (3 * s.pending.length + 1) s ∧
      (s.exiting = true → Inevitable step WorkerOp.internal (fun t => t.worker = .returned) 3 s) :=
  ⟨ending_inevitable (run_ending hr hc he), exiting_inevitable (run_timed hr)⟩

/-- a callback in front of the exit message, and the timer in front of its push -/
theorem exit_ends_callback : ∃ s : WorkerThread ℕ,
    run step new [.createThread, .start, .timerTest, .postMsg 1, .exitThread] = some s ∧
      Inevitable step WorkerOp.ofWorker (fun t => t.exiting = true) 7 s := by
  obtain ⟨s, hs, hlen⟩ : ∃ s : WorkerThread ℕ,
      run step new [.createThread, .start, .timerTest, .postMsg 1, .exitThread] = some s ∧ s.pending.length = 2 :=
    ⟨_, rfl, rfl⟩
  have hend := (exit_ends _ s hs (by simp) (by simp)).1
  rw [hlen] at hend
  exact ⟨s, hs, hend⟩

end WorkerThread
/-! ## The object -/

/-- what an operation on the object does to its thread -/
def ObjectOp.call? : ObjectOp α → Option (WorkerOp α)
  | .method fnc => some (.postMsg fnc)
  | .worker o => some o
  | .baseDestructor => some .exitThread
  | _ => none

def ObjectOp.method? : ObjectOp α → Option α
  | .method fnc => some fnc
  | _ => none

/-- a step of the object's worker -/
def ObjectOp.ofWorker : ObjectOp α → Bool
  | .worker o => o.ofWorker
  | _ => false

/-- the methods called in a run -/
def called (ops : List (ObjectOp α)) : List α := ops.filterMap ObjectOp.method?

def calls (ops : List (ObjectOp α)) : List (WorkerOp α) := ops.filterMap ObjectOp.call?

namespace ThreadedClass

/-- the object's thread takes the steps of a `WorkerThread` -/
theorem step_thread {s s' : ThreadedClass α} {o : ObjectOp α} (h : s.step o = some s') :
    (∃ w, o.call? = some w ∧ s.thread_.step w = some s'.thread_) ∨ (o.call? = none ∧ s'.thread_ = s.thread_) := by
  obtain ⟨thread, teardown⟩ := s
  cases o with
  | method fnc => cases teardown <;> cases h; exact Or.inl ⟨.postMsg fnc, rfl, rfl⟩
  | worker o =>
    simp only [step] at h
    split_ifs at h with ho
    obtain ⟨thread', ht, rfl⟩ := Option.map_eq_some_iff.1 h
    exact Or.inl ⟨o, rfl, ht⟩
  | derivedDestructor => cases teardown <;> cases h; exact Or.inr ⟨rfl, rfl⟩
  | baseDestructor => cases teardown <;> cases h; exact Or.inl ⟨.exitThread, rfl, rfl⟩
  | memberDestructor =>
    simp only [step] at h
    split at h
    · cases h; exact Or.inr ⟨rfl, rfl⟩
    · cases h

theorem run_thread {s t : ThreadedClass α} {ops : List (ObjectOp α)} (hr : run step s ops = some t) :
    run WorkerThread.step s.thread_ (calls ops) = some t.thread_ := by
  induction ops generalizing s with
  | nil => cases hr; rfl
  | cons o ops ih =>
    obtain ⟨u, hu, hr⟩ := run_cons_some.1 hr
    rcases step_thread hu with ⟨w, ho, hw⟩ | ⟨ho, ht⟩
    · rw [calls, List.filterMap_cons_some ho]
      exact run_cons_some.2 ⟨u.thread_, hw, ih hr⟩
    · rw [calls, List.filterMap_cons_none ho, ← ht]
      exact ih hr

/-- the same from the constructor, which creates the thread -/
theorem run_new {s : ThreadedClass α} {ops : List (ObjectOp α)} (hr : run step new ops = some s) :
    run WorkerThread.step WorkerThread.new (.createThread :: calls ops) = some s.thread_ :=
  run_cons_some.2 ⟨_, rfl, run_thread hr⟩

theorem calls_concat (hist : List (ObjectOp α)) (o : ObjectOp α) :
    calls (hist ++ [o]) = calls hist ++ o.call?.toList := by
  rw [calls, List.filterMap_append, ← calls]
  cases h : o.call? <;> simp [h]

theorem called_concat (hist : List (ObjectOp α)) (o : ObjectOp α) :
    called (hist ++ [o]) = called hist ++ o.method?.toList := by
  rw [called, List.filterMap_append, ← called]
  cases h : o.method? <;> simp [h]

/-- the calls of `PostMsg` in front of the first `ExitThread` -/
def postedInTime (ops : List (WorkerOp α)) : List α := posted (ops.takeWhile fun o => !o.isExit)

theorem postedInTime_concat {o : WorkerOp α} (ho : o.fnc? = none) (ops : List (WorkerOp α)) :
    postedInTime (ops ++ [o]) = postedInTime ops := by
  rw [postedInTime, List.takeWhile_append]
  split_ifs with hlen
  · rw [postedInTime, (List.takeWhile_prefix _).eq_of_length hlen, posted, List.filterMap_append, ← posted,
      List.takeWhile_cons, List.takeWhile_nil]
    split <;> simp [ho]
  · rfl

theorem postedInTime_post {ops : List (WorkerOp α)} (h : ∀ o ∈ ops, o.isExit = false) (fnc : α) :
    postedInTime (ops ++ [.postMsg fnc]) = postedInTime ops ++ [fnc] := by
  have hwhole : (ops.takeWhile fun o => !o.isExit) = ops :=
    List.takeWhile_eq_self_iff.2 fun o ho => by simp [h o ho]
  rw [postedInTime, postedInTime, List.takeWhile_append_of_pos fun o ho => by simp [h o ho], hwhole, posted,
    List.filterMap_append]
  rfl

/-- before `~ThreadedClass` no exit message is sent; the methods called are those posted in front of it -/
structure Posts (hist : List (ObjectOp α)) (s : ThreadedClass α) : Prop where
  unsent : s.teardown = .alive ∨ s.teardown = .derivedGone → ∀ o ∈ calls hist, o.isExit = false
  inTime : postedInTime (calls hist) = called hist

theorem step_posts {hist : List (ObjectOp α)} {s s' : ThreadedClass α} {o : ObjectOp α} (hi : Posts hist s)
    (h : s.step o = some s') : Posts (hist ++ [o]) s' := by
  obtain ⟨hunsent, hinTime⟩ := hi
  obtain ⟨thread, teardown⟩ := s
  cases o with
  | method fnc =>
    cases teardown with
    | alive =>
      cases h
      have hnone := hunsent (Or.inl rfl)
      refine ⟨fun _ o ho => ?_, ?_⟩
      · rw [calls_concat] at ho
        rcases List.mem_append.1 ho with ho | ho
        · exact hnone o ho
        · rw [List.mem_singleton.1 ho]
          rfl
      · rw [calls_concat, called_concat, ← hinTime]
        exact postedInTime_post hnone fnc
    | _ => cases h
  | worker o =>
    simp only [step] at h
    split_ifs at h with ho
    obtain ⟨thread', -, rfl⟩ := Option.map_eq_some_iff.1 h
    have hnone : o.fnc? = none ∧ o.isExit = false := by cases o <;> cases ho <;> exact ⟨rfl, rfl⟩
    refine ⟨fun hbefore w hw => ?_, ?_⟩
    · rw [calls_concat] at hw
      rcases List.mem_append.1 hw with hw | hw
      · exact hunsent hbefore w hw
      · rw [List.mem_singleton.1 hw]
        exact hnone.2
    · rw [calls_concat, called_concat]
      exact (postedInTime_concat hnone.1 _).trans (hinTime.trans (List.append_nil _).symm)
  | derivedDestructor =>
    cases teardown with
    | alive =>
      cases h
      rw [← List.append_nil (calls hist)] at hunsent hinTime
      rw [← List.append_nil (called hist)] at hinTime
      refine ⟨fun _ => ?_, ?_⟩
      · rw [calls_concat]
        exact hunsent (Or.inl rfl)
      · rw [calls_concat, called_concat]
        exact hinTime
    | _ => cases h
  | baseDestructor =>
    cases teardown with
    | derivedGone =>
      cases h
      refine ⟨by simp, ?_⟩
      rw [calls_concat, called_concat]
      exact (postedInTime_concat rfl _).trans (hinTime.trans (List.append_nil _).symm)
    | _ => cases h
  | memberDestructor =>
    simp only [step] at h
    split at h
    · cases h
      refine ⟨by simp, ?_⟩
      rw [calls_concat, called_concat]
      exact (congrArg _ (List.append_nil _)).trans (hinTime.trans (List.append_nil _).symm)
    · cases h

/-- `~ThreadedClass` runs once, and its member is destroyed when `Process` has returned -/
structure Stages (hist : List (ObjectOp α)) (s : ThreadedClass α) : Prop where
  ended : .baseDestructor ∈ hist → s.teardown = .exitPosted ∨ s.teardown = .joined
  joined : s.teardown = .joined → s.thread_.worker = .returned

theorem step_returned {s s' : WorkerThread α} {o : WorkerOp α} (h : s.step o = some s') (hw : s.worker = .returned) :
    s'.worker = .returned := by
  obtain ⟨queue, timerExit, worker, timer, executed⟩ := s
  obtain rfl : worker = .returned := hw
  cases o with
  | timerTest => cases timer <;> cases h; rfl
  | timerPush => cases timer <;> cases h; rfl
  | _ => cases h <;> rfl

theorem step_stages {hist : List (ObjectOp α)} {s s' : ThreadedClass α} {o : ObjectOp α} (hi : Stages hist s)
    (h : s.step o = some s') : Stages (hist ++ [o]) s' := by
  obtain ⟨hended, hjoined⟩ := hi
  have hmem : ∀ {o : ObjectOp α}, .baseDestructor ∈ hist ++ [o] → o ≠ .baseDestructor → .baseDestructor ∈ hist := by
    intro o hb ho
    exact (List.mem_append.1 hb).resolve_right fun hb => ho (List.mem_singleton.1 hb).symm
  obtain ⟨thread, teardown⟩ := s
  cases o with
  | method fnc =>
    cases teardown <;> cases h
    exact ⟨fun hb => hended (hmem hb (by simp)), by simp⟩
  | worker o =>
    simp only [step] at h
    split_ifs at h
    obtain ⟨thread', ht, rfl⟩ := Option.map_eq_some_iff.1 h
    exact ⟨fun hb => hended (hmem hb (by simp)), fun hj => step_returned ht (hjoined hj)⟩
  | derivedDestructor =>
    cases teardown <;> cases h
    exact ⟨fun hb => absurd (hended (hmem hb (by simp))) (by simp), by simp⟩
  | baseDestructor =>
    cases teardown <;> cases h
    exact ⟨fun _ => Or.inl rfl, by simp⟩
  | memberDestructor =>
    cases teardown with
    | exitPosted =>
      simp only [step] at h
      split at h
      · rename_i hw
        cases h
        exact ⟨fun _ => Or.inr rfl, fun _ => hw⟩
      · cases h
    | _ => cases h

theorem posts_new : Posts [] (new : ThreadedClass α) := ⟨fun _ => nofun, rfl⟩

theorem stages_new : Stages [] (new : ThreadedClass α) := ⟨nofun, nofun⟩

theorem run_posts {ops : List (ObjectOp α)} {s : ThreadedClass α} (hr : run step new ops = some s) : Posts ops s := by
  have hi : Posts ([] ++ ops) s := run_inv_hist (fun _ _ _ _ => step_posts) posts_new hr
  exact hi

theorem run_stages {ops : List (ObjectOp α)} {s : ThreadedClass α} (hr : run step new ops = some s) :
    Stages ops s := by
  have hi : Stages ([] ++ ops) s := run_inv_hist (fun _ _ _ _ => step_stages) stages_new hr
  exact hi

/-- once the exit message has been processed, each method called has been executed -/
theorem exiting_executed {ops : List (ObjectOp α)} {s : ThreadedClass α} (hr : run step new ops = some s)
    (hx : s.thread_.exiting = true) : s.thread_.executed = called ops := by
  have hi : Delivers ([] ++ .createThread :: calls ops) s.thread_ :=
    run_inv_hist (fun _ _ _ _ => step_delivers) delivers_new (run_new hr)
  obtain ⟨taken, hclosed, hexec⟩ := hi.stopped hx
  calc s.thread_.executed = taken.filterMap ThreadMsg.fnc? := hexec
    _ = ((sent (.createThread :: calls ops)).takeWhile fun m => !m.isExit).filterMap ThreadMsg.fnc? := by
        rw [← hclosed.cut]; rfl
    _ = postedInTime (calls ops) := posted_takeWhile _
    _ = called ops := (run_posts hr).inTime

/-- behind `~ThreadedClass` -/
def Dying (s : ThreadedClass α) : Prop := s.teardown = .exitPosted ∨ s.teardown = .joined

/-- the steps left once `m_timerExit` is set: those of the two threads, and the return from the destructor's join -/
def lastSteps (s : ThreadedClass α) : ℕ :=
  s.thread_.stepsLeft + s.thread_.timerLeft + match s.teardown with | .joined => 0 | _ => 1

theorem ending_inevitable {s : ThreadedClass α} (h : s.thread_.Ending) :
    Inevitable step ObjectOp.ofWorker (fun t => t.thread_.exiting = true) (3 * s.thread_.pending.length + 1) s := by
  refine Inevitable.of_measure (fun s => s.thread_.Ending) (fun s => s.thread_.stepsLeft) ?_ ?_ h (stepsLeft_le h)
  · intro s o s' hs ho
    rcases step_thread ho with ⟨w, hw, ht⟩ | ⟨hw, ht⟩
    · obtain ⟨hs', hleft⟩ := step_left hs ht
      have hown : o.ofWorker = w.ofWorker := by cases o <;> cases hw <;> rfl
      exact ⟨hs', hown ▸ hleft.le⟩
    · have hown : o.ofWorker = false := by cases o <;> cases hw <;> rfl
      rw [hown, ht]
      exact ⟨hs, le_rfl⟩
  · intro s hs
    rcases Bool.eq_false_or_eq_true s.thread_.exiting with hx | hx
    · exact Or.inl hx
    · obtain ⟨o, ho, henabled⟩ := hs.enabled hx
      have hinternal : o.internal = true := by cases o <;> cases ho <;> rfl
      exact Or.inr ⟨.worker o, ho, by simpa [step, hinternal] using henabled⟩

theorem step_last {s s' : ThreadedClass α} {o : ObjectOp α} (ht : s.thread_.Timed) (hd : s.Dying)
    (hx : s.thread_.exiting = true) (h : s.step o = some s') :
    s'.thread_.Timed ∧ s'.Dying ∧ s'.thread_.exiting = true ∧ s'.lastSteps + 1 = s.lastSteps := by
  obtain ⟨thread, teardown⟩ := s
  cases o with
  | worker o =>
    simp only [step] at h
    split_ifs at h with ho
    obtain ⟨thread', hstep, rfl⟩ := Option.map_eq_some_iff.1 h
    obtain ⟨hx', hleft⟩ := WorkerThread.step_last ht hx hstep
    refine ⟨step_timed ht hstep, hd, hx', ?_⟩
    rw [if_pos ho] at hleft
    simp only [lastSteps] at hleft ⊢
    omega
  | memberDestructor =>
    cases teardown with
    | exitPosted =>
      simp only [step] at h
      split at h
      · cases h
        exact ⟨ht, Or.inr rfl, hx, rfl⟩
      · cases h
    | _ => cases h
  | method fnc => rcases hd with rfl | rfl <;> cases h
  | derivedDestructor => rcases hd with rfl | rfl <;> cases h
  | baseDestructor => rcases hd with rfl | rfl <;> cases h

theorem exiting_inevitable {s : ThreadedClass α} (ht : s.thread_.Timed) (hd : s.Dying)
    (hx : s.thread_.exiting = true) : Inevitable step (fun _ => true) (fun t => t.teardown = .joined) 4 s := by
  refine Inevitable.of_measure (fun s => s.thread_.Timed ∧ s.Dying ∧ s.thread_.exiting = true) lastSteps
    ?_ ?_ ⟨ht, hd, hx⟩ ?_
  · rintro s o s' ⟨ht, hd, hx⟩ ho
    obtain ⟨ht', hd', hx', hleft⟩ := step_last ht hd hx ho
    exact ⟨⟨ht', hd', hx'⟩, hleft.le⟩
  · rintro s ⟨ht, hd, hx⟩
    obtain ⟨thread, teardown⟩ := s
    rcases hd with rfl | rfl
    · rcases ht.enabled hx with hreturned | ⟨o, ho, henabled⟩
      · have hworker : thread.worker = .returned := hreturned
        exact Or.inr ⟨.memberDestructor, rfl, by simp [step, hworker]⟩
      · exact Or.inr ⟨.worker o, rfl, by simpa [step, ho] using henabled⟩
    · exact Or.inl rfl
  · have := last_le hx
    simp only [lastSteps]
    split <;> omega

/-- what has been called stays called -/
theorem run_dying {ops : List (ObjectOp α)} {s : ThreadedClass α} (hr : run step new ops = some s)
    (hd : .baseDestructor ∈ ops) : s.thread_.Ending ∧ s.thread_.Timed ∧ s.Dying := by
  have hexit : .exitThread ∈ calls ops := List.mem_filterMap.2 ⟨.baseDestructor, hd, rfl⟩
  exact ⟨run_ending (run_new hr) List.mem_cons_self (List.mem_cons_of_mem _ hexit), run_timed (run_new hr),
    (run_stages hr).ended hd⟩

/-- the steps of the thread up to the exit message, and then whatever is still possible -/
theorem destructor_reached {ops : List (ObjectOp α)} {s : ThreadedClass α} (hr : run step new ops = some s)
    (hd : .baseDestructor ∈ ops) :
    ∃ more fin, run step s more = some fin ∧ more.length ≤ 3 * s.thread_.pending.length + 5 ∧
      fin.teardown = .joined := by
  obtain ⟨before, t, ht, -, hlen, hx⟩ := (ending_inevitable (run_dying hr hd).1).reached
  obtain ⟨-, htimed, hdying⟩ := run_dying (run_append_some hr ht) (List.mem_append_left _ hd)
  obtain ⟨last, fin, hfin, -, hlast, hjoined⟩ := (exiting_inevitable htimed hdying hx).reached
  refine ⟨before ++ last, fin, run_append_some ht hfin, ?_, hjoined⟩
  rw [List.length_append]
  omega

/-- **The destructor returns.** Once `~ThreadedClass` has sent the exit message, the thread has a bounded number of steps
left and is never blocked before it has set `m_timerExit`; then all that can happen is at most four more steps, the last
of which is the end of the destructor. So there is a way to the end, and at the end each method called has run once, in
the order of the calls. -/
theorem destructor_returns (ops : List (ObjectOp α)) (s : ThreadedClass α) (hr : run step new ops = some s)
    (hd : .baseDestructor ∈ ops) :
    Inevitable step ObjectOp.ofWorker (fun t => t.thread_.exiting = true) (3 * s.thread_.pending.length + 1) s ∧
      (s.thread_.exiting = true → Inevitable step (fun _ => true) (fun t => t.teardown = .joined) 4 s) ∧
      (∃ more fin, run step s more = some fin ∧ more.length ≤ 3 * s.thread_.pending.length + 5 ∧
        fin.teardown = .joined) ∧
      (s.teardown = .joined → s.thread_.executed = called ops) := by
  obtain ⟨hending, htimed, hdying⟩ := run_dying hr hd
  refine ⟨ending_inevitable hending, exiting_inevitable htimed hdying, destructor_reached hr hd, ?_⟩
  intro hjoined
  exact exiting_executed hr (by simp [exiting, (run_stages hr).joined hjoined])

/-- two methods are called, and the worker has only begun when `~ThreadedClass` sends the exit message -/
theorem destructor_returns_two : ∃ s : ThreadedClass ℕ,
    run step new [.method 1, .worker .start, .method 2, .derivedDestructor, .baseDestructor] = some s ∧
      Inevitable step ObjectOp.ofWorker (fun t => t.thread_.exiting = true) 10 s := by
  obtain ⟨s, hs, hlen⟩ : ∃ s : ThreadedClass ℕ,
      run step new [.method 1, .worker .start, .method 2, .derivedDestructor, .baseDestructor] = some s ∧
        s.thread_.pending.length = 3 := ⟨_, rfl, rfl⟩
  have hend := (destructor_returns _ s hs (by simp)).1
  rw [hlen] at hend
  exact ⟨s, hs, hend⟩

end ThreadedClass
end NetFramework
