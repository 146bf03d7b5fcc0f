/-
Output in the poll loop. An iteration swaps `writingSockets` out behind the callbacks and asks a second `WSAPoll` which of
its connections are ready; it writes to these and forgets the others.

- `poll_no_stranded_output`: while the second `WSAPoll` reports ready every connection that it is asked about and that has
  something to send, nothing is stranded at the head of the loop; otherwise a connection is left with something to send
  that the loop has forgotten.
-/
import NetFramework.PollTable

namespace NetFramework
namespace PollServer

open Transition

/-! ## Output waiting for the loop -/

/-- something waits in `dataToSend`, and no `sendData` call is in progress -/
def HasOutput (s : PollServer) (p : ℕ) : Prop :=
  p ∉ s.entering ∧ (s.heap p).any (fun o => decide (o.conn.dataToSend ≠ [])) = true

instance (s : PollServer) (p : ℕ) : Decidable (s.HasOutput p) := by unfold HasOutput; infer_instance

/-- a connection in `clientSockets` that has something to send, with no `sendData` call in progress, is in
`writingSockets` -/
def NoneStranded (s : PollServer) : Prop := ∀ fd p, s.conn fd = some p → s.HasOutput p → p ∈ s.writingSockets

def AtHead (P : PollServer → Prop) (s : PollServer) : Prop := s.pc = .head → P s

/-- the second `WSAPoll` reports ready the connections that it is asked about and that have something to send -/
def AllWritable (s : PollServer) : Op → Prop
  | .flush (some fds) => ∀ p ∈ s.writingSockets, s.HasOutput p → s.fdOf p ∈ fds
  | _ => True

instance (s : PollServer) (o : Op) : Decidable (AllWritable s o) := by
  unfold AllWritable; split <;> infer_instance

/-- the connection `p` of the descriptor `fd` is in `writingSockets`, or this iteration has still to write to it -/
def Scheduled (s : PollServer) (fd p : ℕ) : Prop :=
  p ∈ s.writingSockets ∨
    match s.pc with
    | .writing fds => fd ∈ fds
    | .returned | .thrown => True
    | _ => False

def OutputScheduled (s : PollServer) : Prop := ∀ fd p, s.conn fd = some p → s.HasOutput p → s.Scheduled fd p

/-- a connection with something to send that the loop has forgotten -/
def OutputForgotten (s : PollServer) : Prop := ∃ fd p, s.conn fd = some p ∧ s.HasOutput p ∧ ¬ s.Scheduled fd p

section Steps

variable {complete : Bytes → Bool} {listenSocket : ℕ} {s s' : PollServer}

theorem hasOutput_iff {p : ℕ} :
    s.HasOutput p ↔ p ∉ s.entering ∧ ∃ o, s.heap p = some o ∧ o.conn.dataToSend ≠ [] := by
  simp [HasOutput, Option.any_eq_true]

theorem OutputScheduled.none_stranded (h : OutputScheduled s) (hpc : s.pc = .head) : NoneStranded s := by
  intro fd p hp hout
  rcases h fd p hp hout with hw | hlater
  · exact hw
  · rw [hpc] at hlater
    exact hlater.elim

/-- away from the sending part only `writingSockets` matters -/
theorem scheduled_iff {fd p : ℕ} (hpc : ∀ fds, s.pc ≠ .writing fds) (hrun : s.pc ≠ .returned ∧ s.pc ≠ .thrown) :
    s.Scheduled fd p ↔ p ∈ s.writingSockets := by
  unfold Scheduled
  split
  · rename_i fds heq
    exact absurd heq (hpc fds)
  · rename_i heq
    exact absurd heq hrun.1
  · rename_i heq
    exact absurd heq hrun.2
  · exact iff_of_eq (or_false _)

/-- `poll` is over -/
theorem OutputScheduled.ended (hpc : s.pc = .returned ∨ s.pc = .thrown) : OutputScheduled s := by
  intro fd p _ _
  rcases hpc with hpc | hpc <;> exact Or.inr (by rw [hpc]; trivial)

/-- a connection that changes, but not in what waits to be sent -/
theorem hasOutput_put {p q : ℕ} {o : ConnObject} (o' : ConnObject) (ho : s.heap p = some o)
    (hsame : o'.conn.dataToSend = o.conn.dataToSend) (h : (s.put p o').HasOutput q) : s.HasOutput q := by
  rw [hasOutput_iff] at h ⊢
  obtain ⟨hent, o'', ho'', hout⟩ := h
  refine ⟨hent, ?_⟩
  have ho''' := (Function.update_apply s.heap p (some o') q).symm.trans ho''
  split_ifs at ho''' with hqp
  · cases ho'''
    exact ⟨o, by rw [hqp, ho], by rwa [← hsame]⟩
  · exact ⟨o'', ho''', hout⟩

/-- a step that brings no new output and keeps what is scheduled -/
theorem OutputScheduled.frame (h : OutputScheduled s) (hconn : ∀ fd p, s'.conn fd = some p → s.conn fd = some p)
    (hout : ∀ fd p, s'.conn fd = some p → s'.HasOutput p → s.HasOutput p)
    (hsched : ∀ fd p, s.conn fd = some p → s.HasOutput p → s.Scheduled fd p → s'.Scheduled fd p) :
    OutputScheduled s' := by
  intro fd p hp ho
  have hp' := hconn fd p hp
  have ho' := hout fd p hp ho
  exact hsched fd p hp' ho' (h fd p hp' ho')

/-! ## The steps of `sendData` -/

theorem append_scheduled {p : ℕ} {data : Bytes} (h : OutputScheduled s)
    (hs : step complete s (.append p data) = some s') : OutputScheduled s' := by
  obtain ⟨o, ho, rfl⟩ := step_append hs
  refine h.frame (fun _ _ hp => hp) ?_ (fun _ _ _ _ hsched => hsched)
  intro fd q _ hq
  rw [hasOutput_iff] at hq ⊢
  obtain ⟨hent, o', ho', hout⟩ := hq
  have hqp : q ≠ p := fun heq => hent (heq ▸ List.mem_cons_self)
  exact ⟨fun hmem => hent (List.mem_cons_of_mem p hmem), o', (Function.update_of_ne hqp _ s.heap).symm.trans ho', hout⟩

theorem enter_scheduled {p : ℕ} (h : OutputScheduled s) (hs : step complete s (.enter p) = some s') :
    OutputScheduled s' := by
  obtain ⟨-, rfl⟩ := enter_entering hs
  intro fd q hq hout
  by_cases hqp : q = p
  · exact Or.inl (hqp ▸ Finset.mem_insert_self p s.writingSockets)
  · have hout' : s.HasOutput q := ⟨fun hmem => hout.1 ((List.mem_erase_of_ne hqp).2 hmem), hout.2⟩
    rcases h fd q hq hout' with hw | hlater
    · exact Or.inl (Finset.mem_insert_of_mem hw)
    · exact Or.inr hlater

/-! ## The steps of the poll thread -/

/-- the poll thread moves on, away from the sending part, and leaves the rest alone -/
theorem OutputScheduled.move (h : OutputScheduled s) (hpc : ∀ fds, s.pc ≠ .writing fds)
    (hrun : s.pc ≠ .returned ∧ s.pc ≠ .thrown) (hconn : ∀ fd p, s'.conn fd = some p → s.conn fd = some p)
    (hout : ∀ fd p, s'.conn fd = some p → s'.HasOutput p → s.HasOutput p)
    (hwriting : ∀ fd p, s'.conn fd = some p → p ∈ s.writingSockets → p ∈ s'.writingSockets) : OutputScheduled s' := by
  intro fd p hp ho
  exact Or.inl (hwriting fd p hp ((scheduled_iff hpc hrun).1 (h fd p (hconn fd p hp) (hout fd p hp ho))))

theorem poll_scheduled {revents : Option (List Revents)} (h : OutputScheduled s)
    (hs : step complete s (.poll revents) = some s') : OutputScheduled s' := by
  obtain ⟨hpc, hheap, hsockets, hwriting, hentering, -, -, -⟩ := poll_fds hs
  refine h.move (by simp [hpc]) (by simp [hpc]) ?_ ?_ ?_
  · intro fd p hp
    rwa [conn, hsockets] at hp
  · intro fd p _ hout
    rwa [HasOutput, hentering, hheap] at hout
  · intro fd p _ hw
    rwa [hwriting]

theorem incoming_scheduled {asock : Option ℕ} {p : ℕ} {revents : Revents} (hk : Kept listenSocket s)
    (h : OutputScheduled s) (hs : step complete s (.incoming asock p revents) = some s') : OutputScheduled s' := by
  obtain ⟨hpc, rfl | rfl | ⟨fd, -, hfree, rfl⟩⟩ := incoming_fresh hs
  · exact h.move (by simp [hpc]) (by simp [hpc]) (fun _ _ hp => hp) (fun _ _ _ ho => ho) (fun _ _ _ hw => hw)
  · exact .ended (Or.inl rfl)
  · intro fd' q hq hout
    have hq' := (conn_update (some (some p)) rfl fd').symm.trans hq
    obtain ⟨hent, o, ho, hne⟩ := hasOutput_iff.1 hout
    have ho' := (Function.update_apply s.heap p _ q).symm.trans ho
    split_ifs at hq' with hfd'
    · -- the new connection has nothing to send
      obtain rfl : p = q := Option.some.inj hq'
      rw [if_pos rfl] at ho'
      cases ho'
      exact absurd rfl hne
    · have hqp : q ≠ p := by
        rintro rfl
        have hfd := hk.key fd' q hq'
        rw [fdAt, hfree] at hfd
        cases hfd
      rw [if_neg hqp] at ho'
      have hsched := h fd' q hq' (hasOutput_iff.2 ⟨hent, o, ho', hne⟩)
      exact Or.inl ((scheduled_iff (s := s) (by simp [hpc]) (by simp [hpc])).1 hsched)

theorem recv_scheduled {result : RecvResult} (h : OutputScheduled s)
    (hs : step complete s (.recv result) = some s') : OutputScheduled s' := by
  obtain ⟨i, fd, p, o, hpc, -, ho, rfl⟩ := step_recv hs
  rcases receive_cases complete s i p o result with ⟨-, heq⟩ | ⟨-, heq⟩ | ⟨-, -, receivedData, bufs, heq⟩
  · rw [heq]
    exact .ended (Or.inr rfl)
  · rw [heq]
    exact h.move (by simp [hpc]) (by simp [hpc]) (fun _ _ hp => hp) (fun _ _ _ ho => ho) (fun _ _ _ hw => hw)
  · rw [heq]
    exact h.move (by simp [hpc]) (by simp [hpc]) (fun _ _ hp => hp)
      (fun _ _ _ hout => hasOutput_put { o with conn := { o.conn with receivedData } } ho rfl hout) (fun _ _ _ hw => hw)

theorem hangUp_scheduled (hk : Kept listenSocket s) (h : OutputScheduled s)
    (hs : step complete s .hangUp = some s') : OutputScheduled s' := by
  obtain ⟨i, f, hpc, -, hcases⟩ := step_hangUp hs
  have hdisconnect : ∀ serial, OutputScheduled (s.disconnect i f.fd serial) := by
    intro serial
    have hconn : ∀ fd p, (s.disconnect i f.fd serial).conn fd = some p → fd ≠ f.fd ∧ s.conn fd = some p := by
      intro fd p hp
      have hp' := (conn_update none rfl fd).symm.trans hp
      split_ifs at hp' with hfd
      · cases hp'
      · exact ⟨hfd, hp'⟩
    refine h.move (by simp [hpc]) (by simp [hpc]) (fun fd p hp => (hconn fd p hp).2) (fun _ _ _ ho => ho) ?_
    intro fd p hp hw
    simp only [disconnect]
    split
    · exact hw
    · -- the connection taken out is another one: its descriptor is
      rename_i q hq
      refine Finset.mem_erase.2 ⟨?_, hw⟩
      rintro rfl
      obtain ⟨hfd, hp'⟩ := hconn fd p hp
      exact hfd (Option.some.inj ((hk.key fd p hp').symm.trans (hk.key f.fd p hq)))
  rcases hcases with ⟨-, rfl⟩ | ⟨p, o, -, -, rfl⟩
  · exact hdisconnect none
  · exact hdisconnect (some o.serial)

theorem callbackDone_scheduled (h : OutputScheduled s) (hs : step complete s .callbackDone = some s') :
    OutputScheduled s' := by
  obtain ⟨i, ⟨hpc, rfl⟩ | ⟨p, hpc, -, rfl⟩⟩ := callbackDone_left hs
  · exact h.move (by simp [hpc]) (by simp [hpc]) (fun _ _ hp => hp) (fun _ _ _ ho => ho) (fun _ _ _ hw => hw)
  · refine h.move (by simp [hpc]) (by simp [hpc]) (fun _ _ hp => hp) ?_ (fun _ _ _ hw => hw)
    intro fd q _ hout
    rw [hasOutput_iff] at hout ⊢
    obtain ⟨hent, o, ho, hne⟩ := hout
    refine ⟨hent, o, ?_, hne⟩
    have ho' := (Function.update_apply s.heap p none q).symm.trans ho
    split_ifs at ho'
    exact ho'

theorem pass_scheduled (h : OutputScheduled s) (hs : step complete s .pass = some s') : OutputScheduled s' := by
  rcases pass_next hs with ⟨i, hpc, rfl | ⟨fd, rfl⟩ | rfl⟩ | ⟨hpc, rfl⟩
  · exact h.move (by simp [hpc]) (by simp [hpc]) (fun _ _ hp => hp) (fun _ _ _ ho => ho) (fun _ _ _ hw => hw)
  · exact h.move (by simp [hpc]) (by simp [hpc]) (fun fd' _ hp => (conn_touch s fd fd').symm.trans hp)
      (fun _ _ _ ho => ho) (fun _ _ _ hw => hw)
  · exact h.move (by simp [hpc]) (by simp [hpc]) (fun _ _ hp => hp) (fun _ _ _ ho => ho) (fun _ _ _ hw => hw)
  · refine h.frame (fun _ _ hp => hp) (fun _ _ _ ho => ho) ?_
    intro fd p _ _ hsched
    rw [Scheduled, hpc] at hsched
    exact Or.inl (hsched.resolve_right List.not_mem_nil)

/-- **The second `WSAPoll`.** What it reports ready is still to be written to; what it leaves out had better have nothing
to send. -/
theorem flush_scheduled {ready : Option (List ℕ)} (hk : Kept listenSocket s) (h : OutputScheduled s)
    (hg : AllWritable s (.flush ready)) (hs : step complete s (.flush ready) = some s') : OutputScheduled s' := by
  obtain ⟨hpc, ⟨-, rfl⟩ | ⟨fds, rfl, rfl⟩⟩ := flush_ready hs
  · exact .ended (Or.inl rfl)
  · refine h.frame (fun _ _ hp => hp) (fun _ _ _ ho => ho) ?_
    intro fd p hp ho hsched
    have hready := hg p ((scheduled_iff (by simp [hpc]) (by simp [hpc])).1 hsched) ho
    have hfd : s.fdOf p = fd := by rw [fdOf, ← fdAt, hk.key fd p hp]; rfl
    exact Or.inr (hfd ▸ hready)

/-- a connection that the second `WSAPoll` leaves out is forgotten -/
theorem flush_forgotten {o : Op} (hk : Kept listenSocket s) (hg : ¬ AllWritable s o)
    (hs : step complete s o = some s') : OutputForgotten s' := by
  have hflush : ∃ fds, o = .flush (some fds) ∧ ∃ p ∈ s.writingSockets, s.HasOutput p ∧ s.fdOf p ∉ fds := by
    unfold AllWritable at hg
    split at hg
    · push Not at hg
      exact ⟨_, rfl, hg⟩
    · exact absurd trivial hg
  obtain ⟨fds, rfl, p, -, hout, hready⟩ := hflush
  obtain ⟨hpc, ⟨habsurd, -⟩ | ⟨fds', heq, rfl⟩⟩ := flush_ready hs
  · cases habsurd
  · cases heq
    obtain ⟨o, ho, -⟩ := (hasOutput_iff.1 hout).2
    have hfd : s.fdAt p = some o.conn._fd := by rw [fdAt, ho]; rfl
    have hown := (hk.owned _ p hfd).resolve_right (by simp [hpc])
    have hfdOf : s.fdOf p = o.conn._fd := by rw [fdOf, ← fdAt, hfd]; rfl
    refine ⟨o.conn._fd, p, hown, hout, ?_⟩
    rintro (hw | hmem)
    · exact Finset.notMem_empty p hw
    · exact hready (hfdOf ▸ hmem)

theorem write_scheduled (h : OutputScheduled s) (hs : step complete s .write = some s') : OutputScheduled s' := by
  obtain ⟨fd, fds, hpc, ⟨hnone, rfl⟩ | ⟨p, o, hp, ho, rfl⟩⟩ := write_next hs
  · refine h.frame (fun fd' q hq => (conn_touch s fd fd').symm.trans hq) (fun _ _ _ hout => hout) ?_
    intro fd' q hq _ hsched
    rw [Scheduled, hpc] at hsched
    rcases hsched with hw | hmem
    · exact Or.inl hw
    · rcases List.mem_cons.1 hmem with rfl | hmem
      · rw [hnone] at hq
        cases hq
      · exact Or.inr hmem
  · -- what was waiting is swapped out, so nothing is left to schedule for `p`
    intro fd' q hq hout
    have hq' : s.conn fd' = some q := hq
    obtain ⟨hent, o', ho', hne'⟩ := hasOutput_iff.1 hout
    have ho'' := (Function.update_apply s.heap p _ q).symm.trans ho'
    split_ifs at ho'' with hqp
    · cases ho''
      exact absurd rfl hne'
    · have hsched := h fd' q hq' (hasOutput_iff.2 ⟨hent, o', ho'', hne'⟩)
      rw [Scheduled, hpc] at hsched
      rcases hsched with hw | hmem
      · exact Or.inl hw
      · rcases List.mem_cons.1 hmem with rfl | hmem
        · rw [hp] at hq'
          exact absurd (Option.some.inj hq').symm hqp
        · exact Or.inr hmem

/-- **Output in a step.** -/
theorem step_scheduled {o : Op} (hk : Kept listenSocket s) (h : OutputScheduled s) (hg : AllWritable s o)
    (hs : step complete s o = some s') : OutputScheduled s' := by
  cases o with
  | append p data => exact append_scheduled h hs
  | enter p => exact enter_scheduled h hs
  | poll revents => exact poll_scheduled h hs
  | incoming asock p revents => exact incoming_scheduled hk h hs
  | recv result => exact recv_scheduled h hs
  | hangUp => exact hangUp_scheduled hk h hs
  | callbackDone => exact callbackDone_scheduled h hs
  | pass => exact pass_scheduled h hs
  | flush ready => exact flush_scheduled hk h hg hs
  | write => exact write_scheduled h hs

end Steps

/-! ## Runs -/

/-- **No stranded output.** In every run of the loop in which the second `WSAPoll` reports ready each connection that it
is asked about and that has something to send, however the `sendData` calls are interleaved, at the head of every
iteration each connection with something to send is in `writingSockets`. In every other run it comes back and leaves the
loop with a connection that has something to send and that it has forgotten. -/
theorem poll_no_stranded_output (complete : Bytes → Bool) (listenSocket : ℕ) (ops : List Op) (fin : PollServer)
    (h : run (step complete) (.start listenSocket) ops = some fin) :
    (Along (step complete) AllWritable (.start listenSocket) ops →
        Always (step complete) (AtHead NoneStranded) (.start listenSocket) ops) ∧
      (¬ Along (step complete) AllWritable (.start listenSocket) ops →
        ∃ before s, before <+: ops ∧ run (step complete) (.start listenSocket) before = some s ∧ OutputForgotten s) := by
  have hstart : Kept listenSocket (.start listenSocket) ∧ OutputScheduled (.start listenSocket) :=
    ⟨kept_start listenSocket, fun fd p hp => by cases hp⟩
  have hstep : ∀ s o s', Kept listenSocket s ∧ OutputScheduled s → step complete s o = some s' →
      (AllWritable s o → Kept listenSocket s' ∧ OutputScheduled s') ∧ (¬ AllWritable s o → OutputForgotten s') :=
    fun s o s' hs hso => ⟨fun hg => ⟨step_kept hs.1 hso, step_scheduled hs.1 hs.2 hg hso⟩,
      fun hg => flush_forgotten hs.1 hg hso⟩
  refine ⟨?_, ?_⟩
  · exact always_along (fun s hs hpc => hs.2.none_stranded hpc) (fun s o s' hs hg hso => (hstep s o s' hs hso).1 hg)
      hstart
  · intro hA
    rcases along_or_doomed hstep hstart h with hAlong | ⟨a, b, u, rfl, ha, -, hu⟩
    · exact absurd hAlong hA
    · exact ⟨a, u, ⟨b, rfl⟩, ha, hu⟩

/-- a client connects on descriptor 4 and is sent `B`; the second `WSAPoll` reports `fds` ready -/
def sendRun (fds : List ℕ) : List Op :=
  [.poll (some [⟨true, false⟩]), .incoming (some 4) 0 ⟨false, false⟩, .append 0 [0x42], .enter 0, .pass, .pass, .pass,
    .flush (some fds)]

/-- it is ready in the first iteration -/
theorem poll_no_stranded_output_ready :
    Always (step fun _ => true) (AtHead NoneStranded) (.start 3) (sendRun [4] ++ [.write, .pass]) := by
  obtain ⟨fin, hfin⟩ : ∃ fin, run (step fun _ => true) (.start 3) (sendRun [4] ++ [.write, .pass]) = some fin := ⟨_, rfl⟩
  exact (poll_no_stranded_output (fun _ => true) 3 (sendRun [4] ++ [.write, .pass]) fin hfin).1 (by decide +kernel)

/-- **Stranded output.** It is not ready yet, and `B` waits at the head of the loop for another `sendData`. -/
theorem poll_output_stranded : ∃ s, run (step fun _ => true) (.start 3) (sendRun [] ++ [.pass]) = some s ∧ s.pc = .head ∧
    (s.heap 0).map (·.conn.dataToSend) = some [0x42] ∧ s.entering = [] ∧ s.writingSockets = ∅ ∧ ¬ NoneStranded s := by
  refine ⟨_, rfl, rfl, rfl, rfl, rfl, ?_⟩
  intro h
  exact absurd (h 4 0 rfl (by decide +kernel)) (Finset.notMem_empty 0)

end PollServer
end NetFramework
