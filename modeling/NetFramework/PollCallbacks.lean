/-
The callbacks of the poll loop.

`poll_served_iff`: a run of the loop serves its connections as `Served` says if and only if every `recv` returns data and
no hang-up is found for a descriptor whose connection is gone. The end that `recv` reports is ignored, an error of it is
thrown out of `poll`, and a hang-up that is found again is called back about with a null pointer.
-/
import NetFramework.PollServer

namespace NetFramework
namespace PollServer

open Lifecycle Transition

/-! ## The invariant -/

/-- the connection that the table has for a descriptor -/
def listed (s : PollServer) : ℕ → Option ℕ := serialAt s.heap s.clientSockets

def CallbacksServed (s : PollServer) : Prop :=
  Served s.listed s.callbacks s.accepted s.reported (s.pc = .thrown)

/-- a `recv` returns data; a hang-up is found for a descriptor whose connection is in the table -/
def ConnectionsStay (s : PollServer) : Op → Prop
  | .recv result => result ≠ .error ∧ result ≠ .bytes []
  | .hangUp =>
    match s.pc with
    | .service i => ∀ f ∈ s.pollfds[i]?, s.conn f.fd ≠ none
    | _ => True
  | _ => True

instance (s : PollServer) (o : Op) : Decidable (ConnectionsStay s o) := by
  unfold ConnectionsStay; split
  · infer_instance
  · split <;> infer_instance
  · infer_instance

/-- every entry of the table is in memory, and the connection that is being disconnected is not in the table -/
structure Table (s : PollServer) : Prop where
  live : ∀ fd p, s.conn fd = some p → ∃ o, s.heap p = some o
  leaving : ∀ i p, s.pc = .disconnecting i (some p) → ∀ fd, s.conn fd ≠ some p

abbrev CallbacksFollow (s : PollServer) : Prop :=
  Followed s.listed s.callbacks s.accepted s.reported (s.pc = .thrown)

section Steps

variable {complete : Bytes → Bool} {s s' : PollServer}

theorem Table.frame (h : Table s) (hconn : ∀ fd, s'.conn fd = s.conn fd)
    (hheap : ∀ p o, s.heap p = some o → ∃ o', s'.heap p = some o')
    (hpc : ∀ i p, s'.pc = .disconnecting i (some p) → s.pc = .disconnecting i (some p)) : Table s' where
  live fd p hp := by
    obtain ⟨o, ho⟩ := h.live fd p ((hconn fd).symm.trans hp)
    exact hheap p o ho
  leaving i p hleave fd := by
    rw [hconn]
    exact h.leaving i p (hpc i p hleave) fd

theorem touch_conn (s : PollServer) (fd fd' : ℕ) : (s.touch fd).conn fd' = s.conn fd' := by
  rw [conn, touch, connAt_update]
  split_ifs with h
  · rw [h]; rfl
  · rfl

theorem put_heap (s : PollServer) (p : ℕ) (o : ConnObject) (q : ℕ) :
    (s.put p o).heap q = if q = p then some o else s.heap q := Function.update_apply s.heap p (some o) q

theorem put_live (s : PollServer) (p : ℕ) (o : ConnObject) (q : ℕ) (o' : ConnObject) (h : s.heap q = some o') :
    ∃ o'', (s.put p o).heap q = some o'' := by
  by_cases hq : q = p
  · exact ⟨o, by rw [put_heap, if_pos hq]⟩
  · exact ⟨o', by rw [put_heap, if_neg hq, h]⟩

theorem incoming_table {asock : Option ℕ} {p : ℕ} {revents : Revents} (h : Table s)
    (hs : step complete s (.incoming asock p revents) = some s') : Table s' := by
  obtain ⟨-, rfl | rfl | ⟨fd, -, rfl⟩⟩ := step_incoming hs
  · exact h.frame (fun _ => rfl) (fun _ o ho => ⟨o, ho⟩) (by simp)
  · exact h.frame (fun _ => rfl) (fun _ o ho => ⟨o, ho⟩) (by simp)
  · refine ⟨?_, by simp⟩
    intro fd' q hq
    have hq' := (connAt_update fd (some (some p)) fd').symm.trans hq
    split_ifs at hq'
    · obtain rfl : p = q := Option.some.inj hq'
      exact ⟨⟨.new fd, s.accepted⟩, Function.update_self p _ s.heap⟩
    · obtain ⟨o, ho⟩ := h.live fd' q hq'
      exact put_live s p ⟨.new fd, s.accepted⟩ q o ho

/-- the connection that is taken out is in the table once: its place is there once -/
theorem hangUp_table (h : Table s) (hf : CallbacksFollow s) (hs : step complete s .hangUp = some s') : Table s' := by
  obtain ⟨-, phase, hf⟩ := hf
  obtain ⟨i, f, -, -, hcases⟩ := step_hangUp hs
  have hdisc : ∀ serial, Table (s.disconnect i f.fd serial) := by
    intro serial
    have hconn : ∀ fd, (s.disconnect i f.fd serial).conn fd = if fd = f.fd then none else s.conn fd :=
      connAt_update f.fd none
    refine ⟨?_, ?_⟩
    · intro fd p hp
      rw [hconn] at hp
      split_ifs at hp
      exact h.live fd p hp
    · intro j p hleave fd
      rw [hconn]
      split_ifs with hfd
      · simp
      · intro hp
        obtain ⟨-, hpf⟩ := Pc.disconnecting.inj hleave
        obtain ⟨o, ho⟩ := h.live fd p hp
        exact hfd (hf.distinct fd f.fd o.serial (serialAt_of_conn hp ho) (serialAt_of_conn hpf ho))
  rcases hcases with ⟨-, rfl⟩ | ⟨p, o, -, -, rfl⟩
  · exact hdisc none
  · exact hdisc (some o.serial)

theorem callbackDone_table (h : Table s) (hs : step complete s .callbackDone = some s') : Table s' := by
  obtain ⟨i, rfl | ⟨p, hleave, rfl⟩⟩ := step_callbackDone hs
  · exact h.frame (fun _ => rfl) (fun _ o ho => ⟨o, ho⟩) (by simp)
  · refine ⟨?_, by simp⟩
    intro fd q hq
    obtain ⟨o, ho⟩ := h.live fd q hq
    have hqp : q ≠ p := fun heq => h.leaving i p hleave fd (heq ▸ hq)
    exact ⟨o, (Function.update_of_ne hqp none s.heap).trans ho⟩

theorem step_table {o : Op} (h : Table s) (hf : CallbacksFollow s) (hs : step complete s o = some s') : Table s' := by
  cases o with
  | append p data =>
    obtain ⟨o, ho, rfl⟩ := step_append hs
    exact h.frame (fun _ => rfl) (put_live s p _) (fun _ _ hp => hp)
  | enter p =>
    obtain rfl := step_enter hs
    exact h.frame (fun _ => rfl) (fun _ o ho => ⟨o, ho⟩) (fun _ _ hp => hp)
  | poll revents =>
    obtain ⟨-, rfl | ⟨pollfds, rfl⟩⟩ := step_poll hs
    · exact h.frame (fun _ => rfl) (fun _ o ho => ⟨o, ho⟩) (by simp)
    · exact h.frame (fun _ => rfl) (fun _ o ho => ⟨o, ho⟩) (by simp)
  | incoming asock p revents => exact incoming_table h hs
  | recv result =>
    obtain ⟨i, fd, p, o, -, -, ho, rfl⟩ := step_recv hs
    rcases receive_cases complete s i p o result with ⟨-, heq⟩ | ⟨-, heq⟩ | ⟨-, -, receivedData, bufs, heq⟩
    · rw [heq]; exact h.frame (fun _ => rfl) (fun _ o ho => ⟨o, ho⟩) (by simp)
    · rw [heq]; exact h.frame (fun _ => rfl) (fun _ o ho => ⟨o, ho⟩) (by simp)
    · rw [heq]; exact h.frame (fun _ => rfl) (put_live s p _) (by simp)
  | hangUp => exact hangUp_table h hf hs
  | callbackDone => exact callbackDone_table h hs
  | pass =>
    obtain ⟨pc, hleave, -, rfl | ⟨fd, rfl⟩⟩ := step_pass hs
    · exact h.frame (fun _ => rfl) (fun _ o ho => ⟨o, ho⟩) (fun i p hp => absurd hp (hleave i (some p)))
    · exact h.frame (touch_conn s fd) (fun _ o ho => ⟨o, ho⟩) (fun i p hp => absurd hp (hleave i (some p)))
  | flush ready =>
    obtain ⟨pc, hleave, -, rfl⟩ := step_flush hs
    exact h.frame (fun _ => rfl) (fun _ o ho => ⟨o, ho⟩) (fun i p hp => absurd hp (hleave i (some p)))
  | write =>
    obtain ⟨fds, ⟨fd, rfl⟩ | ⟨p, o, ho, rfl⟩⟩ := step_write hs
    · exact h.frame (touch_conn s fd) (fun _ o ho => ⟨o, ho⟩) (by simp)
    · exact h.frame (fun _ => rfl) (put_live s p _) (by simp)

/-! ## Callbacks -/

theorem incoming_follows {asock : Option ℕ} {p : ℕ} {revents : Revents} (ht : Table s) (h : CallbacksFollow s)
    (hs : step complete s (.incoming asock p revents) = some s') : CallbacksFollow s' := by
  obtain ⟨-, rfl | rfl | ⟨fd, hfree, rfl⟩⟩ := step_incoming hs
  · exact h.frame rfl rfl rfl rfl (by simp)
  · exact h.frame rfl rfl rfl rfl (by simp)
  · obtain ⟨-, phase, hf⟩ := h
    have hlive : ∀ fd q, connAt s.clientSockets fd = some q → q ≠ p := by
      rintro fd q hq rfl
      obtain ⟨o, ho⟩ := ht.live fd q hq
      rw [hfree] at ho
      cases ho
    exact ⟨by simp, Function.update phase (some s.accepted) .live, hf.acceptAt fd (.new fd) hlive⟩

theorem recv_follows {result : RecvResult} (h : CallbacksFollow s) (hg : ConnectionsStay s (.recv result))
    (hs : step complete s (.recv result) = some s') : CallbacksFollow s' := by
  obtain ⟨i, fd, p, o, -, hp, ho, rfl⟩ := step_recv hs
  obtain ⟨-, phase, hf⟩ := h
  rcases receive_cases complete s i p o result with ⟨herr, heq⟩ | ⟨hend, heq⟩ | ⟨-, -, receivedData, bufs, heq⟩
  · exact absurd herr hg.1
  · exact absurd hend hg.2
  · rw [heq]
    exact ⟨by simp, phase, hf.dataAt hp ho { o.conn with receivedData } bufs⟩

/-- a hang-up is found for a descriptor whose connection is in the table -/
theorem connectionsStay_hangUp {i : ℕ} {f : PollFd} (hpc : s.pc = .service i) (hf : s.pollfds[i]? = some f) :
    ConnectionsStay s .hangUp ↔ s.conn f.fd ≠ none := by
  simp only [ConnectionsStay, hpc, hf, Option.mem_def, Option.some.injEq, forall_eq']

theorem hangUp_follows (h : CallbacksFollow s) (hg : ConnectionsStay s .hangUp)
    (hs : step complete s .hangUp = some s') : CallbacksFollow s' := by
  obtain ⟨i, f, hpc, hf, hcases⟩ := step_hangUp hs
  obtain ⟨-, phase, hfollow⟩ := h
  rw [connectionsStay_hangUp hpc hf] at hg
  rcases hcases with ⟨hnone, -⟩ | ⟨p, o, hp, ho, rfl⟩
  · exact absurd hnone hg
  · have hdisconnected := (hfollow.disconnectAt hp ho).mono (fun n hn => List.mem_append_left [o.serial] hn)
    exact ⟨by simp [disconnect], Function.update phase (some o.serial) .done, hdisconnected⟩

/-- **Callbacks in a step.** While the connections stay, they are as they should be. -/
theorem step_follows {o : Op} (ht : Table s) (h : CallbacksFollow s) (hg : ConnectionsStay s o)
    (hs : step complete s o = some s') : CallbacksFollow s' := by
  have hpc := h.1
  cases o with
  | append p data =>
    obtain ⟨o, ho, rfl⟩ := step_append hs
    exact h.frame (serialAt_put _ ho rfl) rfl rfl rfl hpc
  | enter p =>
    obtain rfl := step_enter hs
    exact h.frame rfl rfl rfl rfl hpc
  | poll revents =>
    obtain ⟨-, rfl | ⟨pollfds, rfl⟩⟩ := step_poll hs
    · exact h.frame rfl rfl rfl rfl (by simp)
    · exact h.frame rfl rfl rfl rfl (by simp)
  | incoming asock p revents => exact incoming_follows ht h hs
  | recv result => exact recv_follows h hg hs
  | hangUp => exact hangUp_follows h hg hs
  | callbackDone =>
    obtain ⟨i, rfl | ⟨p, hleave, rfl⟩⟩ := step_callbackDone hs
    · exact h.frame rfl rfl rfl rfl (by simp)
    · exact h.frame (serialAt_delete (ht.leaving i p hleave)) rfl rfl rfl (by simp)
  | pass =>
    obtain ⟨pc, -, hthrown, rfl | ⟨fd, rfl⟩⟩ := step_pass hs
    · exact h.frame rfl rfl rfl rfl hthrown
    · exact h.frame (serialAt_touch fd) rfl rfl rfl hthrown
  | flush ready =>
    obtain ⟨pc, -, hthrown, rfl⟩ := step_flush hs
    exact h.frame rfl rfl rfl rfl hthrown
  | write =>
    obtain ⟨fds, ⟨fd, rfl⟩ | ⟨p, o, ho, rfl⟩⟩ := step_write hs
    · exact h.frame (serialAt_touch fd) rfl rfl rfl (by simp)
    · exact h.frame (serialAt_put _ ho rfl) rfl rfl rfl (by simp)

/-- **A `recv` without data.** Its error is thrown; its end is ignored, and the connection is not told. -/
theorem recv_stays {result : RecvResult} (h : CallbacksFollow s) (hs : step complete s (.recv result) = some s')
    (hserved : CallbacksServed s') : ConnectionsStay s (.recv result) := by
  obtain ⟨i, fd, p, o, -, hp, ho, rfl⟩ := step_recv hs
  obtain ⟨-, phase, hf⟩ := h
  rcases receive_cases complete s i p o result with ⟨-, heq⟩ | ⟨-, heq⟩ | ⟨herr, hend, -⟩
  · rw [heq] at hserved
    exact absurd rfl hserved.running
  · rw [heq] at hserved
    have hlived := hf.tracks (some o.serial)
    rw [hf.live fd o.serial (serialAt_of_conn hp ho)] at hlived
    have hclosed := (hserved.ended o.serial (by simp)).1
    exact absurd hclosed (not_closed_of_live hlived)
  · exact ⟨herr, hend⟩

/-- **A hang-up without a connection.** A null pointer is called back about. -/
theorem hangUp_stays (hs : step complete s .hangUp = some s') (hserved : CallbacksServed s') :
    ConnectionsStay s .hangUp := by
  obtain ⟨i, f, hpc, hf, ⟨-, rfl⟩ | ⟨p, o, hp, -, rfl⟩⟩ := step_hangUp hs
  · have hnull : eventsOf (s.callbacks ++ [disconnectedCallback none]) none = [] := hserved.no_null
    rw [eventsOf_append] at hnull
    exact absurd (List.append_eq_nil_iff.1 hnull).2 (by simp [disconnectedCallback, eventsOf])
  · rw [connectionsStay_hangUp hpc hf, hp]
    simp

theorem connections_stay {o : Op} (h : CallbacksFollow s) (hs : step complete s o = some s')
    (hserved : CallbacksServed s') : ConnectionsStay s o := by
  cases o with
  | recv result => exact recv_stays h hs hserved
  | hangUp => exact hangUp_stays hs hserved
  | _ => trivial

end Steps

/-! ## Runs -/

/-- **The callbacks of the poll loop.** -/
theorem poll_served_iff {complete : Bytes → Bool} {listenSocket : ℕ} {ops : List Op} {fin : PollServer}
    (h : run (step complete) (.start listenSocket) ops = some fin) :
    Along (step complete) ConnectionsStay (.start listenSocket) ops ↔
      Always (step complete) CallbacksServed (.start listenSocket) ops := by
  have hstart : Table (.start listenSocket) ∧ CallbacksFollow (.start listenSocket) :=
    ⟨⟨fun fd p hp => (by cases hp), by simp [start]⟩, by simp [start], fun _ => .fresh, following_start⟩
  have hstep : ∀ s o s', Table s ∧ CallbacksFollow s → step complete s o = some s' →
      (ConnectionsStay s o → Table s' ∧ CallbacksFollow s') ∧ (CallbacksServed s' → ConnectionsStay s o) :=
    fun s o s' hs hso => ⟨fun hg => ⟨step_table hs.1 hs.2 hso, step_follows hs.1 hs.2 hg hso⟩,
      connections_stay hs.2 hso⟩
  exact along_iff_always (fun s hs => hs.2.served) hstep hstart h

end PollServer
end NetFramework
