/-
`WorkerThread` of workerthread.cpp: a queue of messages that users, the timer thread and `ExitThread` push to and the
thread in `Process` pops from. Every access to the queue is under `m_mutex`, so an interleaving is a list of the steps
below, and the order in which `PostMsg` calls take the mutex is their order in that list.

The loop in `Process` is cut where other threads can come in between: in front of the pop, in front of the `switch`,
while a callback runs, and while it waits in `timerThread.join()`. `TimerThread` is cut in front of its test of
`m_timerExit` and of its push.

`worker_delivery`: callbacks run in the order in which they were posted, none twice and none left out; and once the
first exit message has been processed, those posted before the `ExitThread` that sent it have run and no others.
-/
import NetFramework.Library.Mailbox
import NetFramework.Library.Transition

namespace NetFramework

open Transition

/-! ## Model -/

/-- a `ThreadMsg` with its callback, if its type has one -/
inductive ThreadMsg (α : Type) where
  | postUserData (fnc : α)
  | timer
  | exitThread
deriving DecidableEq, Repr

/-- where the thread is; before `CreateThread`, `m_thread` is null -/
inductive WorkerPc (α : Type) where
  | notCreated
  | created
  /-- at the top of the loop -/
  | waiting
  /-- a message is popped, in front of the `switch` -/
  | popped (msg : ThreadMsg α)
  | calling (fnc : α)
  /-- in `timerThread.join()` -/
  | joining
  | returned
deriving DecidableEq, Repr

inductive TimerPc where
  | notStarted
  /-- in front of `while (!m_timerExit)` -/
  | checking
  /-- in front of the push -/
  | sleeping
  | ended
deriving DecidableEq, Repr

/-- `executed` are the callbacks called so far -/
structure WorkerThread (α : Type) where
  m_queue : List (ThreadMsg α)
  m_timerExit : Bool
  worker : WorkerPc α
  timer : TimerPc
  executed : List α
deriving DecidableEq, Repr

inductive WorkerOp (α : Type) where
  | createThread
  | postMsg (fnc : α)
  | exitThread
  | start
  | pop
  | dispatch
  | callbackReturns
  | timerTest
  | timerPush
  /-- the join is over; the rest of the queue is deleted -/
  | drain
deriving DecidableEq, Repr

namespace WorkerThread

variable {α : Type}

/-- the constructor leaves `m_timerExit` to `Process` -/
def new : WorkerThread α := ⟨[], false, .notCreated, .notStarted, []⟩

def push (s : WorkerThread α) (msg : ThreadMsg α) : WorkerThread α := { s with m_queue := s.m_queue ++ [msg] }

def step (s : WorkerThread α) : WorkerOp α → Option (WorkerThread α)
  | .createThread =>
    match s.worker with
    | .notCreated => some { s with worker := .created }
    | _ => some s
  | .postMsg fnc => some (s.push (.postUserData fnc))
  | .exitThread => some (s.push .exitThread)
  | .start =>
    match s.worker with
    | .created => some { s with m_timerExit := false, timer := .checking, worker := .waiting }
    | _ => none
  | .pop =>
    match s.worker, s.m_queue with
    | .waiting, msg :: queue => some { s with worker := .popped msg, m_queue := queue }
    | _, _ => none
  | .dispatch =>
    match s.worker with
    | .popped (.postUserData fnc) => some { s with worker := .calling fnc, executed := s.executed ++ [fnc] }
    | .popped .timer => some { s with worker := .waiting }
    | .popped .exitThread => some { s with m_timerExit := true, worker := .joining }
    | _ => none
  | .callbackReturns =>
    match s.worker with
    | .calling _ => some { s with worker := .waiting }
    | _ => none
  | .timerTest =>
    match s.timer with
    | .checking => some { s with timer := if s.m_timerExit then .ended else .sleeping }
    | _ => none
  | .timerPush =>
    match s.timer with
    | .sleeping => some { s.push .timer with timer := .checking }
    | _ => none
  | .drain =>
    match s.worker, s.timer with
    | .joining, .ended => some { s with m_queue := [], worker := .returned }
    | _, _ => none

end WorkerThread

/-! ## Messages and callbacks -/

variable {α : Type}

def ThreadMsg.isExit : ThreadMsg α → Bool
  | .exitThread => true
  | _ => false

def ThreadMsg.fnc? : ThreadMsg α → Option α
  | .postUserData fnc => some fnc
  | _ => none

/-- the message that an operation pushes -/
def WorkerOp.message : WorkerOp α → Option (ThreadMsg α)
  | .postMsg fnc => some (.postUserData fnc)
  | .exitThread => some .exitThread
  | .timerPush => some .timer
  | _ => none

/-- the messages pushed in a run, in the order of the queue -/
def sent (ops : List (WorkerOp α)) : List (ThreadMsg α) := ops.filterMap WorkerOp.message

def WorkerOp.fnc? : WorkerOp α → Option α
  | .postMsg fnc => some fnc
  | _ => none

/-- the callbacks posted in a run, in the order in which `PostMsg` took the mutex -/
def posted (ops : List (WorkerOp α)) : List α := ops.filterMap WorkerOp.fnc?

def WorkerOp.isExit : WorkerOp α → Bool
  | .exitThread => true
  | _ => false

namespace WorkerThread

/-- the message popped and not yet dispatched -/
def inHand (s : WorkerThread α) : List (ThreadMsg α) :=
  match s.worker with
  | .popped msg => [msg]
  | _ => []

/-- the messages not yet dispatched -/
def pending (s : WorkerThread α) : List (ThreadMsg α) := s.inHand ++ s.m_queue

/-- the callback that is running -/
def running (s : WorkerThread α) : Option α :=
  match s.worker with
  | .calling fnc => some fnc
  | _ => none

/-- an exit message has been processed -/
def exiting (s : WorkerThread α) : Bool :=
  match s.worker with
  | .joining => true
  | .returned => true
  | _ => false

/-! ## What a step does -/

/-- what can happen in a step -/
inductive StepKind (s s' : WorkerThread α) : WorkerOp α → Prop where
  | sends {o : WorkerOp α} (m : ThreadMsg α) (ho : o.message = some m) (hp : s'.pending = s.pending ++ [m])
      (he : s'.executed = s.executed) (hx : s'.exiting = s.exiting) (hr : s'.running = s.running) : StepKind s s' o
  | silent {o : WorkerOp α} (ho : o.message = none) (hp : s'.pending = s.pending) (he : s'.executed = s.executed)
      (hx : s'.exiting = s.exiting) (hr : s'.running = s.running) : StepKind s s' o
  | returns (fnc : α) (hp : s'.pending = s.pending) (he : s'.executed = s.executed) (hx : s'.exiting = s.exiting)
      (hr : s.running = some fnc) (hr' : s'.running = none) : StepKind s s' .callbackReturns
  | takes (m : ThreadMsg α) (hm : m.isExit = false) (hp : s.pending = m :: s'.pending)
      (he : s'.executed = s.executed ++ m.fnc?.toList) (hx : s.exiting = false) (hx' : s'.exiting = false)
      (hr : s.running = none) (hr' : s'.running = m.fnc?) : StepKind s s' .dispatch
  | stops (hp : s.pending = .exitThread :: s'.pending) (he : s'.executed = s.executed) (hx : s.exiting = false)
      (hx' : s'.exiting = true) (hr' : s'.running = none) : StepKind s s' .dispatch
  | drains (he : s'.executed = s.executed) (hx : s.exiting = true) (hx' : s'.exiting = true) (hp : s'.pending = [])
      (hr' : s'.running = none) : StepKind s s' .drain

theorem step_kind {s s' : WorkerThread α} {o : WorkerOp α} (h : s.step o = some s') : StepKind s s' o := by
  obtain ⟨queue, timerExit, worker, timer, executed⟩ := s
  cases o with
  | createThread =>
    cases worker <;> (cases h; exact .silent rfl rfl rfl rfl rfl)
  | postMsg fnc => cases h; exact .sends _ rfl (List.append_assoc _ _ _).symm rfl rfl rfl
  | exitThread => cases h; exact .sends _ rfl (List.append_assoc _ _ _).symm rfl rfl rfl
  | start =>
    cases worker with
    | created => cases h; exact .silent rfl rfl rfl rfl rfl
    | _ => cases h
  | pop =>
    cases worker with
    | waiting =>
      cases queue with
      | nil => cases h
      | cons msg queue => cases h; exact .silent rfl rfl rfl rfl rfl
    | _ => cases h
  | dispatch =>
    cases worker with
    | popped msg =>
      cases msg with
      | postUserData fnc => cases h; exact .takes (.postUserData fnc) rfl rfl rfl rfl rfl rfl rfl
      | timer => cases h; exact .takes .timer rfl rfl (List.append_nil _).symm rfl rfl rfl rfl
      | exitThread => cases h; exact .stops rfl rfl rfl rfl rfl
    | _ => cases h
  | callbackReturns =>
    cases worker with
    | calling fnc => cases h; exact .returns fnc rfl rfl rfl rfl rfl
    | _ => cases h
  | timerTest =>
    cases timer with
    | checking => cases h; exact .silent rfl rfl rfl rfl rfl
    | _ => cases h
  | timerPush =>
    cases timer with
    | sleeping => cases h; exact .sends _ rfl (List.append_assoc _ _ _).symm rfl rfl rfl
    | _ => cases h
  | drain =>
    cases worker with
    | joining =>
      cases timer with
      | ended => cases h; exact .drains rfl rfl rfl rfl rfl
      | _ => cases h
    | _ => cases h

/-! ## Invariant -/

/-- the thread is a consumer of its queue, closed by the first exit message -/
structure Delivers (hist : List (WorkerOp α)) (s : WorkerThread α) : Prop where
  running : s.exiting = false → ∃ taken, Mailbox.Open ThreadMsg.isExit (sent hist) taken s.pending ∧
    s.executed = taken.filterMap ThreadMsg.fnc?
  stopped : s.exiting = true → ∃ taken, Mailbox.Closed ThreadMsg.isExit (sent hist) taken ∧
    s.executed = taken.filterMap ThreadMsg.fnc?

theorem delivers_new : Delivers [] (new : WorkerThread α) :=
  ⟨fun _ => ⟨[], Mailbox.open_nil, rfl⟩, fun h => by cases h⟩

theorem sent_concat (hist : List (WorkerOp α)) (o : WorkerOp α) :
    sent (hist ++ [o]) = sent hist ++ o.message.toList := by
  unfold sent
  rw [List.filterMap_append]
  cases h : o.message <;> simp [h]

/-- a step that pushes nothing and takes nothing -/
theorem Delivers.same {hist hist' : List (WorkerOp α)} {s s' : WorkerThread α} (hi : Delivers hist s)
    (hsent : sent hist' = sent hist) (hp : s'.pending = s.pending) (he : s'.executed = s.executed)
    (hx : s'.exiting = s.exiting) : Delivers hist' s' := by
  obtain ⟨hrunning, hstopped⟩ := hi
  rw [← hsent, ← hp, ← he, ← hx] at hrunning
  rw [← hsent, ← he, ← hx] at hstopped
  exact ⟨hrunning, hstopped⟩

theorem step_delivers {hist : List (WorkerOp α)} {s s' : WorkerThread α} {o : WorkerOp α} (hi : Delivers hist s)
    (h : s.step o = some s') : Delivers (hist ++ [o]) s' := by
  have hsent := sent_concat hist o
  cases step_kind h with
  | sends m ho hp he hx hr =>
    rw [ho, Option.toList_some] at hsent
    refine ⟨?_, ?_⟩
    · intro hrun
      obtain ⟨taken, hopen, hexec⟩ := hi.running (hx ▸ hrun)
      exact ⟨taken, hsent ▸ hp ▸ hopen.send m, he.trans hexec⟩
    · intro hstop
      obtain ⟨taken, hclosed, hexec⟩ := hi.stopped (hx ▸ hstop)
      exact ⟨taken, hsent ▸ hclosed.send m, he.trans hexec⟩
  | silent ho hp he hx hr => exact hi.same (by simpa [ho] using hsent) hp he hx
  | returns fnc hp he hx hr hr' => exact hi.same (hsent.trans (List.append_nil _)) hp he hx
  | takes m hm hp he hx hx' hr hr' =>
    replace hsent := hsent.trans (List.append_nil _)
    refine ⟨?_, fun hstop => absurd (hx'.symm.trans hstop) (by decide)⟩
    intro _
    obtain ⟨taken, hopen, hexec⟩ := hi.running hx
    rw [hp] at hopen
    refine ⟨taken ++ [m], hsent ▸ hopen.take hm, ?_⟩
    rw [he, hexec, List.filterMap_append]
    cases hfnc : m.fnc? <;> simp [hfnc]
  | stops hp he hx hx' hr =>
    replace hsent := hsent.trans (List.append_nil _)
    refine ⟨fun hrun => absurd (hx'.symm.trans hrun) (by decide), ?_⟩
    intro _
    obtain ⟨taken, hopen, hexec⟩ := hi.running hx
    rw [hp] at hopen
    exact ⟨taken, hsent ▸ hopen.close rfl, he.trans hexec⟩
  | drains he hx hx' hp hr =>
    replace hsent := hsent.trans (List.append_nil _)
    refine ⟨fun hrun => absurd (hx'.symm.trans hrun) (by decide), ?_⟩
    intro _
    rw [hsent, he]
    exact hi.stopped hx

/-! ## Main results -/

theorem posted_eq (ops : List (WorkerOp α)) : (sent ops).filterMap ThreadMsg.fnc? = posted ops := by
  unfold sent posted
  rw [List.filterMap_filterMap]
  congr 1
  funext o
  cases o <;> rfl

/-- the callbacks among the messages in front of the first exit message -/
theorem posted_takeWhile (ops : List (WorkerOp α)) :
    ((sent ops).takeWhile fun m => !m.isExit).filterMap ThreadMsg.fnc? = posted (ops.takeWhile fun o => !o.isExit) := by
  induction ops with
  | nil => rfl
  | cons o ops ih =>
    cases o with
    | exitThread => rfl
    | postMsg fnc => exact congrArg (fnc :: ·) ih
    | _ => exact ih

/-- **Delivery.** In every interleaving the callbacks executed so far are the first of those posted; as long as no exit
message has been processed the others are still pending, in order; and once one has, the callbacks executed are exactly
those posted before the first `ExitThread`. -/
theorem worker_delivery (ops : List (WorkerOp α)) (fin : WorkerThread α) (hr : run step new ops = some fin) :
    fin.executed <+: posted ops ∧
      (fin.exiting = false → fin.executed ++ fin.pending.filterMap ThreadMsg.fnc? = posted ops) ∧
      (fin.exiting = true → fin.executed = posted (ops.takeWhile fun o => !o.isExit)) := by
  have hi : Delivers ([] ++ ops) fin := run_inv_hist (fun _ _ _ _ => step_delivers) delivers_new hr
  rw [List.nil_append] at hi
  have hrunning : fin.exiting = false → fin.executed ++ fin.pending.filterMap ThreadMsg.fnc? = posted ops := by
    intro hx
    obtain ⟨taken, hopen, hexec⟩ := hi.running hx
    calc fin.executed ++ fin.pending.filterMap ThreadMsg.fnc?
        = taken.filterMap ThreadMsg.fnc? ++ fin.pending.filterMap ThreadMsg.fnc? := by rw [hexec]
      _ = (sent ops).filterMap ThreadMsg.fnc? := hopen.contents _
      _ = posted ops := posted_eq ops
  have hstopped : fin.exiting = true → fin.executed = posted (ops.takeWhile fun o => !o.isExit) := by
    intro hx
    obtain ⟨taken, hclosed, hexec⟩ := hi.stopped hx
    calc fin.executed = taken.filterMap ThreadMsg.fnc? := hexec
      _ = ((sent ops).takeWhile fun m => !m.isExit).filterMap ThreadMsg.fnc? := by rw [hclosed.cut]
      _ = posted (ops.takeWhile fun o => !o.isExit) := posted_takeWhile ops
  refine ⟨?_, hrunning, hstopped⟩
  cases hx : fin.exiting with
  | false => exact ⟨_, hrunning hx⟩
  | true =>
    rw [hstopped hx]
    exact (List.takeWhile_prefix _).filterMap _

/-- two callbacks around a timer message, and one posted too late -/
theorem worker_two_callbacks : ∃ fin,
    run step new [.createThread, .start, .postMsg 1, .timerTest, .timerPush, .postMsg 2, .exitThread, .postMsg 3, .pop,
      .dispatch, .callbackReturns, .pop, .dispatch, .pop, .dispatch, .callbackReturns, .pop, .dispatch] = some fin ∧
      fin.executed = [1, 2] := by
  obtain ⟨fin, hfin, hx⟩ : ∃ fin : WorkerThread ℕ,
      run step new [.createThread, .start, .postMsg 1, .timerTest, .timerPush, .postMsg 2, .exitThread, .postMsg 3,
        .pop, .dispatch, .callbackReturns, .pop, .dispatch, .pop, .dispatch, .callbackReturns, .pop, .dispatch] =
          some fin ∧ fin.exiting = true := ⟨_, rfl, rfl⟩
  exact ⟨fin, hfin, (worker_delivery _ fin hfin).2.2 hx⟩

end WorkerThread
end NetFramework
