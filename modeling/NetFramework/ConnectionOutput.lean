/-
The output of a `ClientConnection` among its threads. Any thread calls `sendData`, which appends to `dataToSend` under
`_mutex` and then, under the lock of the server, enters the connection in `writingSockets`. The poll thread calls
`sendDataToSocket`, one call after the other: it swaps `dataToSend` out under `_mutex` and gives what it has got to
`send`, which accepts some of it. A step is one of these sections; the steps of different threads come in any order.

`sendDataToSocket` prints what `send` leaves over and forgets it.

- `output_conserved_exact`: no byte is lost or repeated if and only if every `send` accepts all it is given.
- `short_send_loses`: a `send` that accepts one byte of two.
-/
import NetFramework.ClientConnection

namespace NetFramework

open ClientConnection Transition

/-! ## Model -/

structure Output where
  conn : ClientConnection
  /-- `sendData` calls between their two locks -/
  entering : ℕ
  /-- what a `sendDataToSocket` call has swapped out and not yet given to `send` -/
  swapped : Option Bytes
  /-- the bytes that `send` has accepted -/
  accepted : Bytes
  /-- the data of the `sendData` calls, in the order they took `_mutex` -/
  queued : List Bytes
  printed : List Printed
deriving DecidableEq, Repr

inductive OutputStep where
  | append (data : Bytes)
  /-- the second lock of `sendData`, which leaves the connection as it is -/
  | enter
  | swap
  | send (sent : Option ℕ)
deriving DecidableEq, Repr

def Output.start (fd : ℕ) : Output := ⟨.new fd, 0, none, [], [], []⟩

def outputStep (s : Output) : OutputStep → Option Output
  | .append data =>
    some { s with conn := s.conn.sendData data, entering := s.entering + 1, queued := s.queued ++ [data] }
  | .enter => if 0 < s.entering then some { s with entering := s.entering - 1 } else none
  | .swap =>
    match s.swapped with
    | some _ => none
    | none => some { s with conn := s.conn.swapDataToSend.1, swapped := some s.conn.swapDataToSend.2 }
  | .send sent =>
    match s.swapped with
    | none => none
    | some data =>
      if sent.getD 0 ≤ data.length then
        some { s with
          swapped := none
          accepted := s.accepted ++ (sendToSocket data sent).1
          printed := s.printed ++ (sendToSocket data sent).2 }
      else none

/-- while no `sendDataToSocket` call is under way, every byte queued has been accepted or waits, once and in order -/
def Conserved (s : Output) : Prop := s.swapped = none → s.accepted ++ s.conn.dataToSend = s.queued.flatten

/-- `send` accepts all that it is given -/
def FullSend (s : Output) : OutputStep → Prop
  | .send sent => ∀ data ∈ s.swapped, sent.getD 0 = data.length
  | _ => True

instance (s : Output) (o : OutputStep) : Decidable (FullSend s o) := by
  cases o <;> unfold FullSend <;> infer_instance

/-- what has been swapped out counts as well -/
def Accounted (s : Output) : Prop := s.accepted ++ s.swapped.getD [] ++ s.conn.dataToSend = s.queued.flatten

/-! ## A step -/

theorem accounted_start (fd : ℕ) : Accounted (.start fd) := rfl

theorem Accounted.conserved {s : Output} (h : Accounted s) : Conserved s := by
  intro hnone
  rw [Accounted, hnone] at h
  simpa using h

theorem outputStep_send {s s' : Output} {sent : Option ℕ} (h : outputStep s (.send sent) = some s') :
    ∃ data, s.swapped = some data ∧ sent.getD 0 ≤ data.length ∧
      s' = { s with
        swapped := none
        accepted := s.accepted ++ data.take (sent.getD 0)
        printed := s.printed ++ (sendToSocket data sent).2 } := by
  simp only [outputStep] at h
  split at h
  · cases h
  · rename_i data hdata
    split_ifs at h with hle
    cases h
    exact ⟨data, hdata, hle, rfl⟩

/-- **A `send`.** If it accepts all it is given, every byte is still accounted for; otherwise some are gone. -/
theorem outputStep_send_exact {s s' : Output} {sent : Option ℕ} (hs : Accounted s)
    (h : outputStep s (.send sent) = some s') :
    (FullSend s (.send sent) → Accounted s') ∧ (Conserved s' → FullSend s (.send sent)) := by
  obtain ⟨data, hdata, hle, rfl⟩ := outputStep_send h
  rw [Accounted, hdata, Option.getD_some] at hs
  refine ⟨?_, ?_⟩
  · intro hfull
    rw [Accounted, hfull data hdata, List.take_length]
    simpa using hs
  · intro hcons data' hdata'
    obtain rfl : data = data' := Option.some.inj (hdata.symm.trans hdata')
    have hlen := congrArg List.length ((hcons rfl).trans hs.symm)
    simp only [List.length_append, List.length_take] at hlen
    omega

theorem outputStep_exact {s s' : Output} {o : OutputStep} (hs : Accounted s) (h : outputStep s o = some s') :
    (FullSend s o → Accounted s') ∧ (Conserved s' → FullSend s o) := by
  cases o with
  | append data =>
    cases h
    refine ⟨fun _ => ?_, fun _ => trivial⟩
    rw [Accounted] at hs ⊢
    simp only [sendData, List.flatten_append, ← hs, List.append_assoc]
    simp
  | enter =>
    simp only [outputStep] at h
    split_ifs at h
    cases h
    exact ⟨fun _ => hs, fun _ => trivial⟩
  | swap =>
    simp only [outputStep] at h
    split at h
    · cases h
    · rename_i hnone
      cases h
      refine ⟨fun _ => ?_, fun _ => trivial⟩
      rw [Accounted, hnone] at hs
      rw [Accounted]
      simpa [swapDataToSend] using hs
  | send sent => exact outputStep_send_exact hs h

/-! ## Runs -/

/-- **Output byte conservation, exactly.** In every interleaving of `sendData` and `sendDataToSocket` calls, with any
outcomes of `send`: what the socket has accepted, followed by `dataToSend`, is at all times what was queued, if and only
if every `send` accepts all it is given. -/
theorem output_conserved_exact (fd : ℕ) (steps : List OutputStep) (fin : Output)
    (h : run outputStep (.start fd) steps = some fin) :
    Along outputStep FullSend (.start fd) steps ↔ Always outputStep Conserved (.start fd) steps :=
  along_iff_always (fun _ hs => hs.conserved) (fun _ _ _ hs hstep => outputStep_exact hs hstep) (accounted_start fd) h

/-- two calls of `sendData`, the second of them while the data of the first is on its way -/
theorem output_conserved_two : Always outputStep Conserved (.start 4)
    [.append [0x41], .enter, .swap, .append [0x42], .send (some 1), .enter, .swap, .send (some 1)] :=
  (output_conserved_exact 4 _ _ rfl).1 (by decide)

/-- **A short send.** `AB` is queued and `send` accepts one byte: `B` is neither accepted nor queued any more. -/
theorem short_send_loses :
    ∃ fin, run outputStep (.start 4) [.append [0x41, 0x42], .enter, .swap, .send (some 1)] = some fin ∧
      fin.swapped = none ∧ fin.accepted ++ fin.conn.dataToSend = [0x41] ∧ fin.queued.flatten = [0x41, 0x42] ∧
        ¬ Conserved fin :=
  ⟨_, rfl, rfl, rfl, rfl, fun h => absurd (h rfl) (by decide)⟩

end NetFramework
