/-
A mailbox with one consumer that takes messages in the order in which they were sent, until it takes a stop message.

`Open` is the state before that: the messages `done` have been taken, `pending` are still to come. `Closed` is the state
after it: `done` are exactly the messages sent before the first stop message, whatever has been sent since.
-/
import Mathlib.Tactic
import Mathlib.Data.List.TakeWhile

namespace Mailbox

variable {μ α : Type*} {stop : μ → Bool}

structure Open (stop : μ → Bool) (sent done pending : List μ) : Prop where
  order : sent = done ++ pending
  running : ∀ m ∈ done, stop m = false

structure Closed (stop : μ → Bool) (sent done : List μ) : Prop where
  cut : sent.takeWhile (fun m => !stop m) = done
  stopped : ∃ m ∈ sent, stop m = true

theorem open_nil : Open stop [] [] [] := ⟨rfl, by simp⟩

theorem Open.send {sent done pending : List μ} (h : Open stop sent done pending) (m : μ) :
    Open stop (sent ++ [m]) done (pending ++ [m]) :=
  ⟨by rw [h.order, List.append_assoc], h.running⟩

theorem Open.take {sent done pending : List μ} {m : μ} (h : Open stop sent done (m :: pending)) (hm : stop m = false) :
    Open stop sent (done ++ [m]) pending := by
  refine ⟨by rw [h.order, List.append_assoc, List.singleton_append], ?_⟩
  intro x hx
  rcases List.mem_append.1 hx with hx | hx
  · exact h.running x hx
  · rwa [List.mem_singleton.1 hx]

theorem Open.close {sent done pending : List μ} {m : μ} (h : Open stop sent done (m :: pending)) (hm : stop m = true) :
    Closed stop sent done := by
  refine ⟨?_, m, by rw [h.order]; simp, hm⟩
  rw [h.order, List.takeWhile_append_of_pos fun x hx => by simp [h.running x hx]]
  simp [hm]

theorem Closed.send {sent done : List μ} (h : Closed stop sent done) (m : μ) : Closed stop (sent ++ [m]) done := by
  obtain ⟨hcut, x, hx, hstop⟩ := h
  refine ⟨?_, x, by simp [hx], hstop⟩
  rw [List.takeWhile_append, if_neg, hcut]
  intro hlen
  have hall := (List.takeWhile_prefix fun m => !stop m).eq_of_length hlen
  have := List.takeWhile_eq_self_iff.1 hall x hx
  simp [hstop] at this

/-- the contents of the messages taken so far are the first of the contents sent -/
theorem Open.contents {sent done pending : List μ} (h : Open stop sent done pending) (content : μ → Option α) :
    done.filterMap content ++ pending.filterMap content = sent.filterMap content := by
  rw [h.order, List.filterMap_append]

end Mailbox
