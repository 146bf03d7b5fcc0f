/-
Output in the select loop. `sendData` enters its connection in `writingSockets`; an iteration swaps `writingSockets` out
before `select`, and afterwards writes to the connections that `select` has reported ready. The others it forgets.

`Scheduled` says where a connection that has something to send stands at each point of the loop.

- `no_stranded_output`: while `select` reports ready every connection that it is asked about and that has something to
  send, nothing is stranded at the head of the loop.
- `output_stranded`: `select` returns for another client first.
-/
import NetFramework.ServerTable

namespace NetFramework
namespace SelectServer

open Transition

/-! ## Output waiting for the loop -/

/-- something waits in `dataToSend`, and no `sendData` call is in progress -/
def HasOutput (s : SelectServer) (p : ℕ) : Prop :=
  p ∉ s.entering ∧ (s.heap p).any (fun o => decide (o.conn.dataToSend ≠ [])) = true

instance (s : SelectServer) (p : ℕ) : Decidable (s.HasOutput p) := by unfold HasOutput; infer_instance

/-- a connection in `clientSockets` that has something to send, with no `sendData` call in progress, is in
`writingSockets` -/
def NoneStranded (s : SelectServer) : Prop :=
  ∀ fd p o, s.clientSockets fd = some (some p) → s.heap p = some o → o.conn.dataToSend ≠ [] → p ∉ s.entering →
    p ∈ s.writingSockets

/-- `select` reports ready the connections that it is asked about and that have something to send, unless they have been
entered in `writingSockets` again -/
def AllWritable (s : SelectServer) : Op → Prop
  | .select (some (_, writable)) =>
    ∀ p ∈ s.connectionsToWrite, s.HasOutput p → p ∈ s.writingSockets ∨ s.fdOf p ∈ writable
  | _ => True

instance (s : SelectServer) (o : Op) : Decidable (AllWritable s o) := by
  unfold AllWritable; split <;> infer_instance

/-- the connection `p` of the descriptor `fd` is in `writingSockets`, or this iteration has still to write to it -/
def Scheduled (s : SelectServer) (fd p : ℕ) : Prop :=
  p ∈ s.writingSockets ∨
    match s.pc with
    | .head => False
    | .selecting => p ∈ s.connectionsToWrite
    | .service i | .disconnecting i _ | .write i _ => fd ∈ s.writeFdSet ∧ i ≤ fd
    | .sending i _ _ => fd ∈ s.writeFdSet ∧ i < fd
    | .returned | .thrown => True

def OutputScheduled (s : SelectServer) : Prop := ∀ fd p, s.conn fd = some p → s.HasOutput p → s.Scheduled fd p

/-- a connection with something to send that the loop has forgotten -/
def OutputForgotten (s : SelectServer) : Prop := ∃ fd p, s.conn fd = some p ∧ s.HasOutput p ∧ ¬ s.Scheduled fd p

section Steps

variable {cfg : ServerConfig} {s s' : SelectServer}

theorem hasOutput_iff {p : ℕ} :
    s.HasOutput p ↔ p ∉ s.entering ∧ ∃ o, s.heap p = some o ∧ o.conn.dataToSend ≠ [] := by
  simp [HasOutput, Option.any_eq_true]

theorem OutputScheduled.none_stranded (h : OutputScheduled s) (hpc : s.pc = .head) : NoneStranded s := by
  intro fd p o hp ho hout hent
  rcases h fd p (conn_eq_some.2 hp) (hasOutput_iff.2 ⟨hent, o, ho, hout⟩) with hw | hlater
  · exact hw
  · rw [hpc] at hlater
    exact hlater.elim

theorem put_heap_ne {p q : ℕ} {o o' : ConnObject} (h : (s.put p o).heap q = some o') (hqp : q ≠ p) :
    s.heap q = some o' := by
  rwa [put_heap, if_neg hqp] at h

/-- a connection that changes, but not in what waits to be sent -/
theorem hasOutput_put {p q : ℕ} {o : ConnObject} (o' : ConnObject) (ho : s.heap p = some o)
    (hsame : o'.conn.dataToSend = o.conn.dataToSend) (h : (s.put p o').HasOutput q) : s.HasOutput q := by
  rw [hasOutput_iff] at h ⊢
  obtain ⟨hent, o'', ho'', hout⟩ := h
  refine ⟨hent, ?_⟩
  rw [put_heap] at ho''
  split_ifs at ho'' with hqp
  · cases ho''
    exact ⟨o, by rw [hqp, ho], by rwa [← hsame]⟩
  · exact ⟨o'', ho'', hout⟩

/-- a step that brings no new output and keeps what is scheduled -/
theorem OutputScheduled.frame (h : OutputScheduled s) (hconn : ∀ fd p, s'.conn fd = some p → s.conn fd = some p)
    (hout : ∀ fd p, s'.conn fd = some p → s'.HasOutput p → s.HasOutput p)
    (hsched : ∀ fd p, s.conn fd = some p → s.HasOutput p → s.Scheduled fd p → s'.Scheduled fd p) :
    OutputScheduled s' := by
  intro fd p hp ho
  have hp' := hconn fd p hp
  have ho' := hout fd p hp ho
  exact hsched fd p hp' ho' (h fd p hp' ho')

/-! ## The steps of `sendData` -/

theorem append_scheduled {p : ℕ} {data : Bytes} (h : OutputScheduled s) (hs : step cfg s (.append p data) = some s') :
    OutputScheduled s' := by
  obtain ⟨o, ho, rfl⟩ := step_append hs
  refine h.frame (fun _ _ hp => hp) ?_ (fun _ _ _ _ hsched => hsched)
  intro fd q _ hq
  rw [hasOutput_iff] at hq ⊢
  obtain ⟨hent, o', ho', hout⟩ := hq
  have hqp : q ≠ p := fun heq => hent (heq ▸ List.mem_cons_self)
  exact ⟨fun hmem => hent (List.mem_cons_of_mem p hmem), o', put_heap_ne ho' hqp, hout⟩

theorem enter_scheduled {p : ℕ} (h : OutputScheduled s) (hs : step cfg s (.enter p) = some s') :
    OutputScheduled s' := by
  obtain ⟨-, rfl⟩ := step_enter hs
  intro fd q hq hout
  by_cases hqp : q = p
  · exact Or.inl (hqp ▸ Finset.mem_insert_self p s.writingSockets)
  · have hout' : s.HasOutput q := ⟨fun hmem => hout.1 ((List.mem_erase_of_ne hqp).2 hmem), hout.2⟩
    rcases h fd q hq hout' with hw | hlater
    · exact Or.inl (Finset.mem_insert_of_mem hw)
    · exact Or.inr hlater

/-! ## The steps of the poll thread -/

theorem swap_scheduled (h : OutputScheduled s) (hs : step cfg s .swap = some s') : OutputScheduled s' := by
  obtain ⟨hpc, rfl⟩ := step_swap hs
  refine h.frame (fun _ _ hp => hp) (fun _ _ _ ho => ho) ?_
  intro fd p _ _ hsched
  rcases hsched with hw | hlater
  · exact Or.inr hw
  · rw [hpc] at hlater
    exact hlater.elim

/-- **`select`.** What it reports ready is still to be written to; what it leaves out had better have nothing to send. -/
theorem select_scheduled {ready : Option (Finset ℕ × Finset ℕ)} (ht : Table cfg s) (h : OutputScheduled s)
    (hg : AllWritable s (.select ready)) (hs : step cfg s (.select ready) = some s') : OutputScheduled s' := by
  obtain ⟨hpc, rfl | ⟨readable, writable, rfl, -, -, rfl⟩⟩ := step_select hs
  · exact fun _ _ _ _ => Or.inr trivial
  · refine h.frame (fun _ _ hp => hp) (fun _ _ _ ho => ho) ?_
    intro fd p hp ho hsched
    rcases hsched with hw | hlater
    · exact Or.inl hw
    · rw [hpc] at hlater
      have hfd : s.fdOf p = fd := by rw [fdOf, ht.key fd p hp]; rfl
      rcases hg p hlater ho with hw | hready
      · exact Or.inl hw
      · exact Or.inr ⟨hfd ▸ hready, Nat.zero_le fd⟩

/-- a connection that `select` leaves out is forgotten -/
theorem select_forgotten {o : Op} (ht : Table cfg s) (hg : ¬ AllWritable s o) (hs : step cfg s o = some s') :
    OutputForgotten s' := by
  have hselect : ∃ readable writable, o = .select (some (readable, writable)) ∧
      ∃ p ∈ s.connectionsToWrite, s.HasOutput p ∧ p ∉ s.writingSockets ∧ s.fdOf p ∉ writable := by
    unfold AllWritable at hg
    split at hg
    · push Not at hg
      exact ⟨_, _, rfl, hg⟩
    · exact absurd trivial hg
  obtain ⟨readable, writable, rfl, p, -, hout, hwriting, hready⟩ := hselect
  obtain ⟨hpc, rfl | ⟨readable', writable', heq, -, -, rfl⟩⟩ := step_select hs
  · simp only [step, hpc, selectReturns] at hs
    split_ifs at hs
    exact absurd (congrArg SelectServer.pc (Option.some.inj hs)) (by simp)
  · cases heq
    obtain ⟨o, ho, -⟩ := (hasOutput_iff.1 hout).2
    have hfd : s.fdAt p = some o.conn._fd := by rw [fdAt, ho]; rfl
    have hown := (ht.owned _ p hfd).resolve_right (by rw [hpc]; simp)
    have hfdOf : s.fdOf p = o.conn._fd := by rw [fdOf, hfd]; rfl
    refine ⟨o.conn._fd, p, hown, hout, ?_⟩
    intro hsched
    rcases hsched with hw | ⟨hmem, -⟩
    · exact hwriting hw
    · exact hready (hfdOf ▸ hmem)

theorem accept_scheduled {newConn : Option ℕ} {p : ℕ} (ht : Table cfg s) (h : OutputScheduled s)
    (hs : step cfg s (.accept newConn p) = some s') : OutputScheduled s' := by
  obtain ⟨i, hpc, rfl | ⟨fd, -, -, hfree, rfl⟩⟩ := step_accept hs
  · exact fun _ _ _ _ => Or.inr trivial
  · intro fd' q hq hout
    have hq' := (conn_update (some (some p)) rfl fd').symm.trans hq
    obtain ⟨hent, o, ho, hne⟩ := hasOutput_iff.1 hout
    split_ifs at hq' with hfd'
    · -- the new connection has nothing to send
      obtain rfl : p = q := Option.some.inj hq'
      have ho' := (put_heap s p ⟨.new fd, s.accepted⟩ p).symm.trans ho
      rw [if_pos rfl] at ho'
      cases ho'
      exact absurd rfl hne
    · have hqp : q ≠ p := by
        rintro rfl
        have hfd := ht.key fd' q hq'
        rw [fdAt, hfree] at hfd
        cases hfd
      have hsched := h fd' q hq' (hasOutput_iff.2 ⟨hent, o, put_heap_ne ho hqp, hne⟩)
      rw [Scheduled, hpc] at hsched
      exact hsched

theorem recv_scheduled {result : RecvResult} (ht : Table cfg s) (h : OutputScheduled s)
    (hs : step cfg s (.recv result) = some s') : OutputScheduled s' := by
  obtain ⟨i, p, o, hpc, -, hp, ho, rfl⟩ := step_recv hs
  rcases receive_cases cfg s i p o result with ⟨-, heq⟩ | ⟨-, heq⟩ | ⟨receivedData, bufs, heq⟩
  · rw [heq]
    exact fun _ _ _ _ => Or.inr trivial
  · rw [heq]
    intro fd q hq hout
    have hq' := (conn_update none rfl fd).symm.trans hq
    split_ifs at hq' with hfi
    · cases hq'
    · have hqp : q ≠ p := by
        rintro rfl
        exact hfi (Option.some.inj ((ht.key fd q hq').symm.trans (ht.key i q hp)))
      have hsched := h fd q hq' hout
      rw [Scheduled, hpc] at hsched
      rcases hsched with hw | hlater
      · exact Or.inl (Finset.mem_erase.2 ⟨hqp, hw⟩)
      · exact Or.inr hlater
  · rw [heq]
    refine h.frame (fun _ _ hq => hq) ?_ ?_
    · intro fd q _ hout
      exact hasOutput_put { o with conn := { o.conn with receivedData } } ho rfl hout
    · intro fd q _ _ hsched
      rw [Scheduled, hpc] at hsched
      exact hsched

theorem pass_scheduled (ht : Table cfg s) (h : OutputScheduled s) (hs : step cfg s .pass = some s') :
    OutputScheduled s' := by
  obtain ⟨i, hpc, ⟨hend, rfl⟩ | rfl | rfl⟩ := step_pass hs
  · refine h.frame (fun _ _ hp => hp) (fun _ _ _ ho => ho) ?_
    intro fd p hp _ hsched
    rw [Scheduled, hpc] at hsched
    rcases hsched with hw | ⟨-, hlater⟩
    · exact Or.inl hw
    · have hactive := (ht.active fd).2 (Or.inr (Or.inl (by rw [hp]; simp)))
      have hlt := (ht.opened fd hactive).2
      omega
  · refine h.frame (fun fd p hp => (touch_conn s i fd).symm.trans hp) (fun _ _ _ ho => ho) ?_
    intro fd p _ _ hsched
    rw [Scheduled, hpc] at hsched
    exact hsched
  · refine h.frame (fun _ _ hp => hp) (fun _ _ _ ho => ho) ?_
    intro fd p _ _ hsched
    rw [Scheduled, hpc] at hsched
    exact hsched

theorem callbackDone_scheduled (h : OutputScheduled s) (hs : step cfg s .callbackDone = some s') :
    OutputScheduled s' := by
  obtain ⟨i, p, hpc, -, rfl⟩ := step_callbackDone hs
  refine h.frame (fun _ _ hq => hq) ?_ ?_
  · intro fd q _ hout
    rw [hasOutput_iff] at hout ⊢
    obtain ⟨hent, o, ho, hne⟩ := hout
    refine ⟨hent, o, ?_, hne⟩
    have ho' := (Function.update_apply s.heap p none q).symm.trans ho
    split_ifs at ho'
    exact ho'
  · intro fd q _ _ hsched
    rw [Scheduled, hpc] at hsched
    exact hsched

/-- what is scheduled is so for a later descriptor, if not for the one that the iteration is at -/
theorem scheduled_later {i fd p : ℕ} {deleteSocket : Bool} (hpc : s.pc = .write i deleteSocket)
    (hsched : s.Scheduled fd p) (hne : fd ∈ s.writeFdSet → i ≠ fd) :
    p ∈ s.writingSockets ∨ fd ∈ s.writeFdSet ∧ i < fd := by
  rw [Scheduled, hpc] at hsched
  rcases hsched with hw | ⟨hmem, hle⟩
  · exact Or.inl hw
  · exact Or.inr ⟨hmem, lt_of_le_of_ne hle (hne hmem)⟩

theorem write_scheduled (h : OutputScheduled s) (hs : step cfg s .write = some s') : OutputScheduled s' := by
  obtain ⟨i, deleteSocket, hpc, ⟨hi, rfl⟩ | ⟨hnone, rfl⟩ | ⟨p, o, hp, ho, rfl⟩⟩ := step_write hs
  · refine h.frame (fun _ _ hq => hq) (fun _ _ _ hout => hout) ?_
    intro fd q _ _ hsched
    exact scheduled_later (s := s) hpc hsched fun hmem heq => hi (heq ▸ hmem)
  · refine h.frame (fun fd q hq => (touch_conn s i fd).symm.trans hq) (fun _ _ _ hout => hout) ?_
    intro fd q hq _ hsched
    refine scheduled_later (s := s) hpc hsched ?_
    rintro - rfl
    rw [hnone] at hq
    cases hq
  · -- what was waiting is swapped out, so nothing is left to schedule for `p`
    intro fd q hq hout
    obtain ⟨hent, o', ho', hne'⟩ := hasOutput_iff.1 hout
    have hqp : q ≠ p := by
      rintro rfl
      have ho'' := (put_heap s q { o with conn := o.conn.swapDataToSend.1 } q).symm.trans ho'
      rw [if_pos rfl] at ho''
      cases ho''
      exact hne' rfl
    refine scheduled_later (s := s) hpc (h fd q hq (hasOutput_iff.2 ⟨hent, o', put_heap_ne ho' hqp, hne'⟩)) ?_
    rintro - rfl
    have hq' : s.conn i = some q := hq
    rw [hp] at hq'
    exact hqp (Option.some.inj hq').symm

theorem sent_scheduled {sent : Option ℕ} (h : OutputScheduled s) (hs : step cfg s (.sent sent) = some s') :
    OutputScheduled s' := by
  obtain ⟨i, data, deleteSocket, hpc, rfl⟩ := step_sent hs
  refine h.frame (fun _ _ hq => hq) (fun _ _ _ hout => hout) ?_
  intro fd q _ _ hsched
  rw [Scheduled, hpc] at hsched
  exact hsched

/-- **Output in a step.** -/
theorem step_scheduled {o : Op} (ht : Table cfg s) (h : OutputScheduled s) (hg : AllWritable s o)
    (hs : step cfg s o = some s') : OutputScheduled s' := by
  cases o with
  | append p data => exact append_scheduled h hs
  | enter p => exact enter_scheduled h hs
  | swap => exact swap_scheduled h hs
  | select ready => exact select_scheduled ht h hg hs
  | accept newConn p => exact accept_scheduled ht h hs
  | recv result => exact recv_scheduled ht h hs
  | pass => exact pass_scheduled ht h hs
  | callbackDone => exact callbackDone_scheduled h hs
  | write => exact write_scheduled h hs
  | sent sent => exact sent_scheduled h hs

end Steps

/-! ## Runs -/

/-- **No stranded output.** In every run of the loop in which `select` reports ready each connection that it is asked
about and that has something to send, whatever else happens and however the `sendData` calls are interleaved, at the head
of every iteration each connection with something to send is in `writingSockets`. In every other run `select` comes back
and leaves the loop with a connection that has something to send and that it has forgotten. -/
theorem no_stranded_output (cfg : ServerConfig) (ops : List Op) (fin : SelectServer)
    (h : run (step cfg) (.start cfg) ops = some fin) :
    (Along (step cfg) AllWritable (.start cfg) ops → Always (step cfg) (AtHead NoneStranded) (.start cfg) ops) ∧
      (¬ Along (step cfg) AllWritable (.start cfg) ops →
        ∃ before s, before <+: ops ∧ run (step cfg) (.start cfg) before = some s ∧ OutputForgotten s) := by
  have hstart : Table cfg (.start cfg) ∧ OutputScheduled (.start cfg) :=
    ⟨table_start cfg, fun fd p hp => by cases hp⟩
  have hstep : ∀ s o s', Table cfg s ∧ OutputScheduled s → step cfg s o = some s' →
      (AllWritable s o → Table cfg s' ∧ OutputScheduled s') ∧ (¬ AllWritable s o → OutputForgotten s') :=
    fun s o s' hs hso => ⟨fun hg => ⟨step_table hs.1 hso, step_scheduled hs.1 hs.2 hg hso⟩,
      fun hg => select_forgotten hs.1 hg hso⟩
  refine ⟨?_, ?_⟩
  · exact always_along (fun s hs hpc => hs.2.none_stranded hpc) (fun s o s' hs hg hso => (hstep s o s' hs hso).1 hg)
      hstart
  · intro hA
    rcases along_or_doomed hstep hstart h with hAlong | ⟨a, b, u, rfl, ha, -, hu⟩
    · exact absurd hAlong hA
    · exact ⟨a, u, ⟨b, rfl⟩, ha, hu⟩

/-- a client that is sent `B` and is ready for it, on a system with eight descriptors -/
theorem no_stranded_output_ready :
    Always (step ⟨3, 8, fun _ => true, by decide⟩) (AtHead NoneStranded) (.start ⟨3, 8, fun _ => true, by decide⟩)
      (List.flatten [[.swap, .select (some ({3}, ∅))], idle 3,
        [.accept (some 4) 0, .append 0 [0x42], .enter 0, .write], idle 4, [.pass, .swap, .select (some (∅, {4}))],
        idle 4, [.pass, .write, .sent (some 1)], idle 3, [.pass]]) :=
  (no_stranded_output ⟨3, 8, fun _ => true, by decide⟩ _ _ rfl).1 (by decide)

/-- the client is sent `B`; `select` returns because another client is there, and the first is not ready yet -/
def notReadyRound : List Op :=
  [Op.append 0 [0x42], Op.enter 0, Op.swap, Op.select (some ({3}, ∅))] ++ (idle 3 ++
    ([Op.accept (some 5) 1, Op.write] ++ (idle 1020 ++ [Op.pass])))

/-- **Stranded output.** At the head of the next iteration `B` is still to be sent, no `sendData` call is in progress,
and the connection is not in `writingSockets`. -/
theorem output_stranded :
    ∃ s, run (step exampleConfig) (.start exampleConfig) (connectRound ++ notReadyRound) = some s ∧ s.pc = .head ∧
      s.clientSockets 4 = some (some 0) ∧ (s.heap 0).map (·.conn.dataToSend) = some [0x42] ∧ s.entering = [] ∧
        s.writingSockets = ∅ ∧ ¬ NoneStranded s := by
  refine ⟨_, run_append_some run_connectRound (run_append_some rfl (run_append_some
    (run_idle_example rfl rfl rfl (by decide) (by decide)) (run_append_some rfl (run_append_some
    (run_idle_example rfl rfl rfl (by decide) (by decide)) rfl)))), rfl, rfl, rfl, rfl, rfl, ?_⟩
  intro h
  exact absurd (h 4 0 _ rfl rfl (by decide) (by decide)) (Finset.notMem_empty 0)

end SelectServer
end NetFramework
