/-
No call waits forever. Posting a call never blocks, so objects that call each other, in a circle or not, do not hold each
other up: the thread of an object gets to the next call that waits for it in a number of its own steps that is known
beforehand, whatever the other threads do meanwhile.

- `waiting_call_begins`: the first call that waits begins after what is left of the running method, and two steps for each
  timer message in front of it.
-/
import NetFramework.Library.Progress
import NetFramework.ObjectCalls
import NetFramework.WorkerExit

namespace NetFramework

open Transition

/-! ## The thread -/

section Threads

variable {α : Type} {t t' : WorkerThread α}

/-- the steps that take the thread over the timer messages at the front of its queue -/
def timerSteps : List (ThreadMsg α) → ℕ
  | .timer :: queue => timerSteps queue + 2
  | _ => 0

/-- the steps that the thread takes until it begins a call that waits, apart from what the running method does -/
def stepsAhead (t : WorkerThread α) : ℕ :=
  match t.worker with
  | .created => timerSteps t.m_queue + 3
  | .waiting => timerSteps t.m_queue + 2
  | .popped .timer => timerSteps t.m_queue + 3
  | .popped _ => 1
  | .calling _ => timerSteps t.m_queue + 3
  | _ => 0

theorem timerSteps_append {queue : List (ThreadMsg α)} (h : queue.filterMap ThreadMsg.fnc? ≠ []) (m : ThreadMsg α) :
    timerSteps (queue ++ [m]) = timerSteps queue := by
  induction queue with
  | nil => exact absurd rfl h
  | cons x queue ih =>
    cases x with
    | timer => simp only [List.cons_append, timerSteps, ih h]
    | _ => rfl

/-- a message that is pushed waits behind the call -/
theorem stepsAhead_push (h : waitingCalls t ≠ []) (m : ThreadMsg α) : stepsAhead (t.push m) = stepsAhead t := by
  obtain ⟨queue, timerExit, worker, timer, executed⟩ := t
  cases worker with
  | popped msg =>
    cases msg with
    | timer =>
      have hq : queue.filterMap ThreadMsg.fnc? ≠ [] := h
      exact congrArg (· + 3) (timerSteps_append hq m)
    | _ => rfl
  | created => exact congrArg (· + 3) (timerSteps_append h m)
  | waiting => exact congrArg (· + 2) (timerSteps_append h m)
  | calling fnc => exact congrArg (· + 3) (timerSteps_append h m)
  | _ => rfl

/-- a step of the thread or its timer: the call begins, or is as many steps nearer as the thread has taken -/
theorem internal_ahead {o : WorkerOp α} (hu : ThreadedClass.Unstopped t) (hin : o.internal = true)
    (hw : waitingCalls t ≠ []) (h : t.step o = some t') :
    (t'.executed.length = t.executed.length + 1 ∧ 0 < stepsAhead t) ∨
      stepsAhead t' + (if o.ofWorker then 1 else 0) ≤ stepsAhead t := by
  have hpush := stepsAhead_push hw
  obtain ⟨queue, timerExit, worker, timer, executed⟩ := t
  cases o with
  | createThread => cases hin
  | postMsg fnc => cases hin
  | exitThread => cases hin
  | start =>
    cases worker with
    | created => cases h; exact Or.inr le_rfl
    | _ => cases h
  | pop =>
    cases worker with
    | waiting =>
      cases queue with
      | nil => cases h
      | cons msg queue =>
        cases h
        apply Or.inr
        cases msg with
        | timer => exact le_rfl
        | postUserData fnc => exact le_rfl
        | exitThread => exact absurd (hu.2 .exitThread List.mem_cons_self) (by simp [ThreadMsg.isExit])
    | _ => cases h
  | dispatch =>
    cases worker with
    | popped msg =>
      cases msg with
      | postUserData fnc =>
        cases h
        exact Or.inl ⟨List.length_append, Nat.one_pos⟩
      | timer => cases h; exact Or.inr le_rfl
      | exitThread => exact absurd (hu.2 .exitThread List.mem_cons_self) (by simp [ThreadMsg.isExit])
    | _ => cases h
  | callbackReturns =>
    cases worker with
    | calling fnc => cases h; exact Or.inr le_rfl
    | _ => cases h
  | timerTest =>
    cases timer with
    | checking => cases h; exact Or.inr le_rfl
    | _ => cases h
  | timerPush =>
    cases timer with
    | sleeping => cases h; exact Or.inr (hpush .timer).le
    | _ => cases h
  | drain =>
    cases worker with
    | joining => exact absurd hu.1 (by simp [WorkerThread.exiting])
    | _ => cases h

/-- the thread can go on -/
theorem thread_enabled (hu : ThreadedClass.Unstopped t) (hc : t.worker ≠ .notCreated) (hw : waitingCalls t ≠ []) :
    ∃ o : WorkerOp α, o.internal = true ∧ o.ofWorker = true ∧ (t.step o).isSome := by
  obtain ⟨queue, timerExit, worker, timer, executed⟩ := t
  cases worker with
  | notCreated => exact absurd rfl hc
  | created => exact ⟨.start, rfl, rfl, rfl⟩
  | waiting =>
    cases queue with
    | nil => exact absurd rfl hw
    | cons msg queue => exact ⟨.pop, rfl, rfl, rfl⟩
  | popped msg => cases msg <;> exact ⟨.dispatch, rfl, rfl, rfl⟩
  | calling fnc => exact ⟨.callbackReturns, rfl, rfl, rfl⟩
  | joining => exact absurd hu.1 (by simp [WorkerThread.exiting])
  | returned => exact absurd hu.1 (by simp [WorkerThread.exiting])

end Threads

/-! ## The system -/

variable {ι : Type} [DecidableEq ι]

/-- a step of the thread of `j` -/
def SystemOp.ofThread (j : ι) : SystemOp ι → Bool
  | .call _ _ => false
  | .worker i o => i = j && o.ofWorker
  | .act i => i = j

namespace ObjectSystem

variable {s s' u : ObjectSystem ι} {j : ι} {call : Posted ι}

/-- the thread of `j` has begun more calls than it has in `u` -/
def begunSince (u : ObjectSystem ι) (j : ι) (s : ObjectSystem ι) : Bool :=
  (u.objects j).thread_.executed.length < (s.objects j).thread_.executed.length

/-- the steps that are left to the thread of `j` -/
def stepsLeft (u : ObjectSystem ι) (j : ι) (s : ObjectSystem ι) : ℕ :=
  if u.begunSince j s then 0 else (s.acts j).length + stepsAhead (s.objects j).thread_

/-- each object has its thread -/
def Created (s : ObjectSystem ι) : Prop := ∀ i, (s.objects i).thread_.worker ≠ .notCreated

/-- `call`, the first that waits for `j` in `u`, still waits, or has begun -/
structure Awaiting (u : ObjectSystem ι) (j : ι) (call : Posted ι) (s : ObjectSystem ι) : Prop where
  sound : s.Sound
  created : s.Created
  waits : u.begunSince j s = false → (s.objects j).thread_.executed = (u.objects j).thread_.executed ∧
    ∃ rest, waitingCalls (s.objects j).thread_ = call :: rest
  begun : u.begunSince j s = true → (s.objects j).thread_.executed = (u.objects j).thread_.executed ++ [call]

/-! ## The threads -/

theorem post_created {k : ι} {posted : Posted ι} (hs : s.Sound) (hc : s.Created) (h : s.post k posted = some s') :
    s'.Created := by
  intro i
  by_cases hi : i = k
  · subst hi
    rw [post_thread hs.live h]
    exact hc i
  · rw [(post_posts hs.live h).others i hi]
    exact hc i

theorem worker_created {i : ι} {o : WorkerOp (Posted ι)} (hs : s.Sound) (hc : s.Created)
    (h : s.step (.worker i o) = some s') : s'.Created := by
  intro k
  by_cases hk : k = i
  · subst hk
    exact WorkerThread.step_created (worker_thread h).2 (Or.inr (hc k))
  · obtain ⟨taken, hworks⟩ := worker_works hs h
    rw [(hworks.others k hk).1]
    exact hc k

theorem step_created {o : SystemOp ι} (hs : s.Sound) (hc : s.Created) (h : s.step o = some s') : s'.Created := by
  cases o with
  | call j method => exact post_created hs hc h
  | worker i o => exact worker_created hs hc h
  | act i =>
    simp only [step] at h
    split at h
    · cases h
    · cases h
      exact hc
    · rename_i k method acts hacts
      have hmid : Created { s with acts := Function.update s.acts i acts } := hc
      exact post_created (hs.advance hacts _) hmid h

/-! ## A call that waits -/

omit [DecidableEq ι] in
theorem begunSince_same (h : (s'.objects j).thread_.executed = (s.objects j).thread_.executed) :
    u.begunSince j s' = u.begunSince j s := by
  rw [begunSince, begunSince, h]

omit [DecidableEq ι] in
/-- nothing happens on the thread of `j` -/
theorem Awaiting.frame (h : Awaiting u j call s) (hsound : s'.Sound) (hcreated : s'.Created)
    (hobject : s'.objects j = s.objects j) :
    Awaiting u j call s' := by
  have hbegun : u.begunSince j s' = u.begunSince j s := begunSince_same (by rw [hobject])
  refine ⟨hsound, hcreated, ?_, ?_⟩
  · rw [hbegun, hobject]
    exact h.waits
  · rw [hbegun, hobject]
    exact h.begun

omit [DecidableEq ι] in
theorem stepsLeft_same (hobject : s'.objects j = s.objects j) (hacts : s'.acts j = s.acts j) :
    stepsLeft u j s' = stepsLeft u j s := by
  have hbegun : u.begunSince j s' = u.begunSince j s := begunSince_same (by rw [hobject])
  rw [stepsLeft, stepsLeft, hbegun, hobject, hacts]

/-- a call is posted to some object, behind the one that waits if that is `j` -/
theorem post_awaiting {k : ι} {posted : Posted ι} (hw : Awaiting u j call s) (hgoal : u.begunSince j s = false)
    (h : s.post k posted = some s') : Awaiting u j call s' ∧ stepsLeft u j s' = stepsLeft u j s := by
  have hposts := post_posts hw.sound.live h
  have hthread := post_thread hw.sound.live h
  have hcreated := post_created hw.sound hw.created h
  have hsound := hposts.sound hw.sound
  by_cases hj : j = k
  · subst hj
    obtain ⟨hexec, rest, hwait⟩ := hw.waits hgoal
    have hbegun : u.begunSince j s' = false := (begunSince_same hposts.executed).trans hgoal
    refine ⟨⟨hsound, hcreated, ?_, ?_⟩, ?_⟩
    · intro _
      refine ⟨hposts.executed.trans hexec, rest ++ [posted], ?_⟩
      rw [hposts.waiting, hwait, List.cons_append]
    · intro hb
      exact absurd (hbegun.symm.trans hb) (by simp)
    · rw [stepsLeft, stepsLeft, hbegun, hgoal, hposts.acts, hthread, stepsAhead_push (by rw [hwait]; simp)]
  · exact ⟨hw.frame hsound hcreated (hposts.others j hj),
      stepsLeft_same (hposts.others j hj) (by rw [hposts.acts])⟩

/-- something is done on the thread of `i` -/
theorem advance_awaiting {i : ι} {act : Act ι} {acts : List (Act ι)} (hw : Awaiting u j call s)
    (hgoal : u.begunSince j s = false) (h : s.acts i = act :: acts) (made : List (ι × Method ι)) :
    Awaiting u j call { s with acts := Function.update s.acts i acts, made } ∧
      stepsLeft u j { s with acts := Function.update s.acts i acts, made } + (if i = j then 1 else 0) =
        stepsLeft u j s := by
  refine ⟨hw.frame (hw.sound.advance h made) hw.created rfl, ?_⟩
  have hbegun : u.begunSince j { s with acts := Function.update s.acts i acts, made } = false := hgoal
  rw [stepsLeft, stepsLeft, hbegun, hgoal]
  by_cases hi : i = j
  · subst hi
    simp only [Bool.false_eq_true, if_false, if_true, Function.update_self, h, List.length_cons]
    omega
  · simp only [Bool.false_eq_true, if_false, hi, Function.update_of_ne (Ne.symm hi), Nat.add_zero]

theorem worker_awaiting {i : ι} {o : WorkerOp (Posted ι)} (hw : Awaiting u j call s) (hgoal : u.begunSince j s = false)
    (h : s.step (.worker i o) = some s') :
    Awaiting u j call s' ∧ stepsLeft u j s' + (if (SystemOp.worker i o).ofThread j then 1 else 0) ≤ stepsLeft u j s := by
  obtain ⟨taken, hworks⟩ := worker_works hw.sound h
  obtain ⟨hin, hthread⟩ := worker_thread h
  have hcreated := worker_created hw.sound hw.created h
  have hsound := hworks.sound hw.sound
  by_cases hi : j = i
  · subst hi
    obtain ⟨hexec, rest, hwait⟩ := hw.waits hgoal
    have hne : waitingCalls (s.objects j).thread_ ≠ [] := by rw [hwait]; simp
    have hown : (SystemOp.worker j o).ofThread j = o.ofWorker := by simp [SystemOp.ofThread]
    have hahead := internal_ahead (hw.sound.live j).unstopped hin hne hthread
    rw [hown]
    cases taken with
    | none =>
      have hsame : (s'.objects j).thread_.executed = (s.objects j).thread_.executed := by simpa using hworks.executed
      have hwait' : waitingCalls (s.objects j).thread_ = waitingCalls (s'.objects j).thread_ := by
        simpa using hworks.waiting
      have hacts : s'.acts j = s.acts j := by simpa using hworks.acts
      have hbegun : u.begunSince j s' = false := (begunSince_same hsame).trans hgoal
      refine ⟨⟨hsound, hcreated, ?_, ?_⟩, ?_⟩
      · intro _
        exact ⟨hsame.trans hexec, rest, hwait'.symm.trans hwait⟩
      · intro hb
        exact absurd (hbegun.symm.trans hb) (by simp)
      · rw [stepsLeft, stepsLeft, hbegun, hgoal, hacts]
        simp only [Bool.false_eq_true, if_false]
        rcases hahead with ⟨hlen, -⟩ | hahead
        · rw [hsame] at hlen
          omega
        · omega
    | some c =>
      obtain ⟨rfl, -⟩ : c = call ∧ _ := List.cons_eq_cons.1 (hworks.waiting.symm.trans hwait)
      have hexec' : (s'.objects j).thread_.executed = (u.objects j).thread_.executed ++ [c] := by
        rw [hworks.executed, hexec]
        rfl
      have hbegun : u.begunSince j s' = true := by simp [begunSince, hexec']
      refine ⟨⟨hsound, hcreated, ?_, fun _ => hexec'⟩, ?_⟩
      · intro hb
        exact absurd (hbegun.symm.trans hb) (by simp)
      · rw [stepsLeft, stepsLeft, hbegun, hgoal]
        simp only [Bool.false_eq_true, if_false, if_true]
        rcases hahead with ⟨-, hpos⟩ | hahead
        · split_ifs <;> omega
        · omega
  · refine ⟨hw.frame hsound hcreated (hworks.others j hi).1, ?_⟩
    rw [stepsLeft_same (hworks.others j hi).1 (hworks.others j hi).2]
    simp [SystemOp.ofThread, Ne.symm hi]

/-- **A step while a call waits.** It still waits, behind no more than before, or it has begun. -/
theorem step_awaiting {o : SystemOp ι} (hw : Awaiting u j call s) (h : stopAt (u.begunSince j) step s o = some s') :
    Awaiting u j call s' ∧ stepsLeft u j s' + (if o.ofThread j then 1 else 0) ≤ stepsLeft u j s := by
  obtain ⟨hgoal, h⟩ := stopAt_some h
  cases o with
  | call k method =>
    obtain ⟨hw', hleft⟩ := post_awaiting hw hgoal h
    exact ⟨hw', hleft.le⟩
  | worker i o => exact worker_awaiting hw hgoal h
  | act i =>
    simp only [step] at h
    have hown : (SystemOp.act i).ofThread j = true ↔ i = j := by simp [SystemOp.ofThread]
    split at h
    · cases h
    · rename_i method acts hacts
      cases h
      obtain ⟨hw', hleft⟩ := advance_awaiting hw hgoal hacts (s.made ++ [(i, method)])
      exact ⟨hw', by simp only [hown]; exact hleft.le⟩
    · rename_i k method acts hacts
      obtain ⟨hmid, hleft⟩ := advance_awaiting hw hgoal hacts s.made
      obtain ⟨hw', hsame⟩ := post_awaiting hmid hgoal h
      exact ⟨hw', by simp only [hown]; rw [hsame]; exact hleft.le⟩

/-- the thread of `j` can go on -/
theorem awaiting_enabled (hw : Awaiting u j call s) :
    u.begunSince j s = true ∨ ∃ o : SystemOp ι, o.ofThread j = true ∧ (stopAt (u.begunSince j) step s o).isSome := by
  cases hgoal : u.begunSince j s with
  | true => exact Or.inl rfl
  | false =>
    apply Or.inr
    obtain ⟨-, rest, hwait⟩ := hw.waits hgoal
    obtain ⟨o, hin, hown, hstep⟩ :=
      thread_enabled (hw.sound.live j).unstopped (hw.created j) (by rw [hwait]; simp)
    cases hacts : s.acts j with
    | nil =>
      refine ⟨.worker j o, by simp [SystemOp.ofThread, hown], stopAt_isSome hgoal ?_⟩
      have hmay : s.mayStep j o = true := by cases o <;> simp [mayStep, hacts]
      simp only [step, if_pos hmay, ThreadedClass.step, hin, if_true, Option.isSome_map]
      exact hstep
    | cons act acts =>
      refine ⟨.act j, by simp [SystemOp.ofThread], stopAt_isSome hgoal ?_⟩
      cases act with
      | begins method => simp [step, hacts]
      | posts k method => simp [step, hacts, post, ThreadedClass.step, (hw.sound.live k).alive]

/-- **No call waits forever.** In every interleaving, with any number of objects that call each other: the first call that
waits for an object begins before the object's thread has taken the steps that are left to it, and until then this thread
can take the next one, whatever all other threads do. -/
theorem waiting_call_begins (ops : List (SystemOp ι)) (s : ObjectSystem ι) (h : run step new ops = some s) (j : ι)
    (call : Posted ι) (rest : List (Posted ι)) (hwait : waitingCalls (s.objects j).thread_ = call :: rest) :
    Inevitable (stopAt (s.begunSince j) step) (SystemOp.ofThread j)
      (fun t => (t.objects j).thread_.executed = (s.objects j).thread_.executed ++ [call])
      ((s.acts j).length + stepsAhead (s.objects j).thread_) s := by
  have hkept : ∀ (t : ObjectSystem ι) o (t' : ObjectSystem ι), t.Sound ∧ t.Created → t.step o = some t' →
      t'.Sound ∧ t'.Created := fun t o t' ht hto => ⟨step_sound ht.1 hto, step_created ht.1 ht.2 hto⟩
  obtain ⟨hsound, hcreated⟩ := run_inv hkept ⟨sound_new, fun _ => by simp [new, ThreadedClass.new]⟩ h
  have hnot : s.begunSince j s = false := by simp [begunSince]
  have hstart : Awaiting s j call s := by
    refine ⟨hsound, hcreated, fun _ => ⟨rfl, rest, hwait⟩, ?_⟩
    intro hb
    exact absurd (hnot.symm.trans hb) (by simp)
  have hstep : ∀ t o t', Awaiting s j call t → stopAt (s.begunSince j) step t o = some t' →
      Awaiting s j call t' ∧ stepsLeft s j t' + (if o.ofThread j then 1 else 0) ≤ stepsLeft s j t :=
    fun t o t' => step_awaiting
  refine Inevitable.of_measure (Awaiting s j call) (stepsLeft s j) hstep ?_ hstart ?_
  · intro t ht
    exact (awaiting_enabled ht).imp_left ht.begun
  · rw [stepsLeft, hnot]
    exact le_rfl

/-- a call on an object whose thread has not begun `Process` -/
theorem waiting_call_begins_ping :
    ∃ s : ObjectSystem Bool, run step new [.call false pingMethod] = some s ∧
      Inevitable (stopAt (s.begunSince false) step) (SystemOp.ofThread false)
        (fun t => (t.objects false).thread_.executed = [(none, pingMethod)]) 3 s := by
  obtain ⟨s, hs, hwait, hexec, hsteps⟩ : ∃ s : ObjectSystem Bool, run step new [.call false pingMethod] = some s ∧
      waitingCalls (s.objects false).thread_ = [(none, pingMethod)] ∧ (s.objects false).thread_.executed = [] ∧
      (s.acts false).length + stepsAhead (s.objects false).thread_ = 3 := ⟨_, rfl, rfl, rfl, rfl⟩
  have hbegins := waiting_call_begins [.call false pingMethod] s hs false (none, pingMethod) [] hwait
  rw [hexec, hsteps] at hbegins
  exact ⟨s, hs, hbegins⟩

end ObjectSystem
end NetFramework
