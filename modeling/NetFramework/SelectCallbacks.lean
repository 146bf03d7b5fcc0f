/-
The callbacks of the select loop.

`select_served_iff`: a run of the loop serves its connections as `Served` says if and only if no `recv` returns an
error. An error goes into `vector::resize` as a huge size, and the exception leaves `poll`.
-/
import NetFramework.ServerTable

namespace NetFramework
namespace SelectServer

open Lifecycle Transition

/-! ## The invariant -/

/-- the connection that the table has for a descriptor -/
def listed (s : SelectServer) : ℕ → Option ℕ := serialAt s.heap s.clientSockets

def CallbacksServed (s : SelectServer) : Prop :=
  Served s.listed s.callbacks s.accepted s.reported (s.pc = .thrown)

abbrev CallbacksFollow (s : SelectServer) : Prop :=
  Followed s.listed s.callbacks s.accepted s.reported (s.pc = .thrown)

/-- the step is not a `recv` that returns an error -/
def RecvSucceeds (_ : SelectServer) : Op → Prop
  | .recv .error => False
  | _ => True

instance (s : SelectServer) (o : Op) : Decidable (RecvSucceeds s o) := by
  unfold RecvSucceeds; split <;> infer_instance

section Steps

variable {cfg : ServerConfig} {s s' : SelectServer}

theorem accept_follows {newConn : Option ℕ} {p : ℕ} (ht : Table cfg s) (h : CallbacksFollow s)
    (hs : step cfg s (.accept newConn p) = some s') : CallbacksFollow s' := by
  obtain ⟨i, -, rfl | ⟨fd, -, -, hfree, rfl⟩⟩ := step_accept hs
  · exact h.frame rfl rfl rfl rfl (by simp)
  · obtain ⟨-, phase, hf⟩ := h
    have hlive : ∀ fd q, connAt s.clientSockets fd = some q → q ≠ p := by
      rintro fd q hq rfl
      have hfd := ht.key fd q hq
      rw [fdAt, hfree] at hfd
      cases hfd
    exact ⟨by simp, Function.update phase (some s.accepted) .live, hf.acceptAt fd (.new fd) hlive⟩

theorem recv_follows {result : RecvResult} (h : CallbacksFollow s) (hr : result ≠ .error)
    (hs : step cfg s (.recv result) = some s') : CallbacksFollow s' := by
  obtain ⟨i, p, o, -, -, hp, ho, rfl⟩ := step_recv hs
  obtain ⟨-, phase, hf⟩ := h
  rcases receive_cases cfg s i p o result with ⟨herr, heq⟩ | ⟨hend, heq⟩ | ⟨receivedData, bufs, heq⟩
  · exact absurd herr hr
  · rw [heq]
    exact ⟨by simp, Function.update phase (some o.serial) .done, hf.disconnectAt hp ho⟩
  · rw [heq]
    exact ⟨by simp, phase, hf.dataAt hp ho { o.conn with receivedData } bufs⟩

/-- **Callbacks in a step.** Unless a `recv` returns an error, they are as they should be. -/
theorem step_follows {o : Op} (ht : Table cfg s) (h : CallbacksFollow s) (hr : RecvSucceeds s o)
    (hs : step cfg s o = some s') : CallbacksFollow s' := by
  have hpc := h.1
  cases o with
  | append p data =>
    obtain ⟨o, ho, rfl⟩ := step_append hs
    exact h.frame (serialAt_put _ ho rfl) rfl rfl rfl hpc
  | enter p =>
    obtain ⟨-, rfl⟩ := step_enter hs
    exact h.frame rfl rfl rfl rfl hpc
  | swap =>
    obtain ⟨-, rfl⟩ := step_swap hs
    exact h.frame rfl rfl rfl rfl (by simp)
  | select ready =>
    obtain ⟨-, rfl | ⟨readable, writable, -, -, -, rfl⟩⟩ := step_select hs
    · exact h.frame rfl rfl rfl rfl (by simp)
    · exact h.frame rfl rfl rfl rfl (by simp)
  | accept newConn p => exact accept_follows ht h hs
  | recv result =>
    refine recv_follows h ?_ hs
    rintro rfl
    exact hr
  | pass =>
    obtain ⟨i, -, ⟨-, rfl⟩ | rfl | rfl⟩ := step_pass hs
    · exact h.frame rfl rfl rfl rfl (by simp)
    · exact h.frame (serialAt_touch i) rfl rfl rfl (by simp)
    · exact h.frame rfl rfl rfl rfl (by simp)
  | callbackDone =>
    obtain ⟨i, p, hleave, -, rfl⟩ := step_callbackDone hs
    obtain ⟨-, hnone, hfd⟩ := ht.leaving i p hleave
    have hout : ∀ fd, connAt s.clientSockets fd ≠ some p := by
      intro fd hp
      obtain rfl : fd = i := Option.some.inj ((ht.key fd p hp).symm.trans hfd)
      exact absurd (hnone.symm.trans hp) (by simp)
    exact h.frame (serialAt_delete hout) rfl rfl rfl (by simp)
  | write =>
    obtain ⟨i, deleteSocket, -, ⟨-, rfl⟩ | ⟨-, rfl⟩ | ⟨p, o, -, ho, rfl⟩⟩ := step_write hs
    · exact h.frame rfl rfl rfl rfl (by simp [SelectServer.next])
    · exact h.frame (serialAt_touch i) rfl rfl rfl (by simp [SelectServer.next])
    · exact h.frame (serialAt_put _ ho rfl) rfl rfl rfl (by simp)
  | sent sent =>
    obtain ⟨i, data, deleteSocket, -, rfl⟩ := step_sent hs
    exact h.frame rfl rfl rfl rfl (by simp [SelectServer.next])

/-- **An error of `recv`.** It is thrown. -/
theorem recv_succeeds {o : Op} (hs : step cfg s o = some s') (hserved : CallbacksServed s') : RecvSucceeds s o := by
  cases o with
  | recv result =>
    cases result with
    | bytes buf => trivial
    | error =>
      obtain ⟨i, p, o, -, -, -, -, rfl⟩ := step_recv hs
      exact hserved.running rfl
  | _ => trivial

end Steps

/-! ## Runs -/

/-- **The callbacks of the select loop.** -/
theorem select_served_iff {cfg : ServerConfig} {ops : List Op} {fin : SelectServer}
    (h : run (step cfg) (.start cfg) ops = some fin) :
    Along (step cfg) RecvSucceeds (.start cfg) ops ↔ Always (step cfg) CallbacksServed (.start cfg) ops := by
  have hstart : Table cfg (.start cfg) ∧ CallbacksFollow (.start cfg) :=
    ⟨table_start cfg, by simp [start], fun _ => .fresh, following_start⟩
  have hstep : ∀ s o s', Table cfg s ∧ CallbacksFollow s → step cfg s o = some s' →
      (RecvSucceeds s o → Table cfg s' ∧ CallbacksFollow s') ∧ (CallbacksServed s' → RecvSucceeds s o) :=
    fun s o s' hs hso => ⟨fun hr => ⟨step_table hs.1 hso, step_follows hs.1 hs.2 hr hso⟩, recv_succeeds hso⟩
  exact along_iff_always (fun s hs => hs.2.served) hstep hstart h

end SelectServer
end NetFramework
