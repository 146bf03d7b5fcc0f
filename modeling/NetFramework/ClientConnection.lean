/-
`ClientConnection` of server.cpp: one accepted socket, the bytes that have come in and wait to be complete, and the bytes
that wait to go out. The poll thread calls `receiveDataFromSocket` and `sendDataToSocket`; any thread calls `sendData`.
The two output functions take a lock, drop it and go on, so each is given here in the parts between its locks.

- `reassembly_refines_plain`: `receiveDataFromSocket` tests a buffer on its own when nothing is waiting. Over any chunks
  and for any completeness predicate it delivers what the plain reassembly, which always appends, tests and clears,
  delivers.
- `couldNotSend_iff`: the message that nothing could be sent is printed when one byte has been, and then only.
-/
import NetFramework.Library.Transition
import NetFramework.CoreProto

namespace NetFramework

open Transition

/-! ## Model -/

/-- `Constants::SOCKET_ERROR`, where the system is not Windows -/
def socketError : UInt32 := 1

/-- what `recv` returns: 0 is `bytes []`, -1 is `error` -/
inductive RecvResult where
  | bytes (buf : Bytes)
  | error
deriving DecidableEq, Repr

/-- what the output functions print -/
inductive Printed where
  | couldNotSend
  | couldOnlySend (ret : UInt32) (size : ℕ)
deriving DecidableEq, Repr

structure ClientConnection where
  _fd : ℕ
  receivedData : Bytes
  dataToSend : Bytes
deriving DecidableEq, Repr

namespace ClientConnection

def new (fd : ℕ) : ClientConnection := ⟨fd, [], []⟩

/-- the connection, the buffers given to the data callback, and the value returned; `none` is the `std::length_error` of
`buf.resize(-1)` -/
def receiveDataFromSocket (dataCompleteCallback : Bytes → Bool) (conn : ClientConnection) :
    RecvResult → Option (ClientConnection × List Bytes × Bool)
  | .bytes buf =>
    if buf = [] then some (conn, [], false)
    else if conn.receivedData = [] ∧ dataCompleteCallback buf = true then some (conn, [buf], true)
    else
      let receivedData := conn.receivedData ++ buf
      if dataCompleteCallback receivedData then some ({ conn with receivedData := [] }, [receivedData], true)
      else some ({ conn with receivedData }, [], true)
  | .error => none

/-- `sendData` under `_mutex`; the second lock adds the connection to `writingSockets` -/
def sendData (conn : ClientConnection) (data : Bytes) : ClientConnection :=
  { conn with dataToSend := conn.dataToSend ++ data }

/-- `sendDataToSocket` under `_mutex`: what is swapped out -/
def swapDataToSend (conn : ClientConnection) : ClientConnection × Bytes :=
  ({ conn with dataToSend := [] }, conn.dataToSend)

/-- the unsigned variable that takes the result of `send`: a count or, `none`, the -1 of an error -/
def sendRet : Option ℕ → UInt32
  | none => -1
  | some n => UInt32.ofNat n

/-- `sendDataToSocket` after the lock: the bytes the socket has accepted, and what is printed -/
def sendToSocket (data : Bytes) (sent : Option ℕ) : Bytes × List Printed :=
  let ret := sendRet sent
  (data.take (sent.getD 0),
    (if ret = socketError then [.couldNotSend] else []) ++
      if ret.toNat < data.length then [.couldOnlySend ret data.length] else [])

end ClientConnection

/-! ## Reassembly -/

/-- a connection among the chunks that `recv` returns, and the buffers given to the data callback so far -/
structure Receiving where
  conn : ClientConnection
  delivered : List Bytes

def receiveStep (dataCompleteCallback : Bytes → Bool) (c : Receiving) (chunk : Bytes) : Option Receiving :=
  (c.conn.receiveDataFromSocket dataCompleteCallback (.bytes chunk)).map fun (conn, buffers, _) =>
    ⟨conn, c.delivered ++ buffers⟩

/-- reassembly as it is meant: the buffer, and what it has delivered -/
structure Reassembly where
  buffer : Bytes
  delivered : List Bytes

/-- append, test, and on success deliver and clear -/
def plainStep (complete : Bytes → Bool) (r : Reassembly) (chunk : Bytes) : Option Reassembly :=
  if complete (r.buffer ++ chunk) then some ⟨[], r.delivered ++ [r.buffer ++ chunk]⟩
  else some ⟨r.buffer ++ chunk, r.delivered⟩

/-- the bytes are those that have come in, in order, cut where the predicate holds and nowhere else -/
structure Reassembly.Sound (complete : Bytes → Bool) (chunks : List Bytes) (r : Reassembly) : Prop where
  conserved : r.delivered.flatten ++ r.buffer = chunks.flatten
  delivered_complete : ∀ buf ∈ r.delivered, complete buf = true
  waiting : r.buffer = [] ∨ complete r.buffer = false

def Receiving.reassembly (c : Receiving) : Reassembly := ⟨c.conn.receivedData, c.delivered⟩

section Reassembly

variable {P : Bytes → Bool}

theorem plainStep_complete {r : Reassembly} {chunk : Bytes} (h : P (r.buffer ++ chunk) = true) :
    plainStep P r chunk = some ⟨[], r.delivered ++ [r.buffer ++ chunk]⟩ := if_pos h

theorem plainStep_waiting {r : Reassembly} {chunk : Bytes} (h : ¬ P (r.buffer ++ chunk) = true) :
    plainStep P r chunk = some ⟨r.buffer ++ chunk, r.delivered⟩ := if_neg h

/-- **A chunk.** A chunk that is not empty is received as plain reassembly takes it. -/
theorem receiveStep_plain (c : Receiving) (chunk : Bytes) (h : chunk ≠ []) :
    ∃ c', receiveStep P c chunk = some c' ∧ plainStep P c.reassembly chunk = some c'.reassembly := by
  simp only [receiveStep, ClientConnection.receiveDataFromSocket, h, if_false]
  split_ifs with hdirect hP
  · -- nothing is waiting: the chunk is the whole buffer, and the two tests are one
    have hgot : c.reassembly.buffer ++ chunk = chunk := by rw [Receiving.reassembly, hdirect.1, List.nil_append]
    refine ⟨_, rfl, ?_⟩
    rw [plainStep_complete (by rw [hgot]; exact hdirect.2), hgot]
    simp [Receiving.reassembly, hdirect.1]
  · exact ⟨_, rfl, plainStep_complete hP⟩
  · refine ⟨_, rfl, ?_⟩
    rw [plainStep_waiting hP]
    simp [Receiving.reassembly]

theorem plainStep_sound {hist : List Bytes} {r r' : Reassembly} {chunk : Bytes} (hr : r.Sound P hist)
    (h : plainStep P r chunk = some r') : r'.Sound P (hist ++ [chunk]) := by
  have hflat : (hist ++ [chunk]).flatten = r.delivered.flatten ++ (r.buffer ++ chunk) := by
    rw [List.flatten_append, ← hr.conserved, List.append_assoc]; simp
  simp only [plainStep] at h
  split_ifs at h with hP
  · cases h
    refine ⟨?_, ?_, Or.inl rfl⟩
    · rw [hflat]; simp
    · intro buf hbuf
      rcases List.mem_append.1 hbuf with hbuf | hbuf
      · exact hr.delivered_complete buf hbuf
      · rw [List.mem_singleton.1 hbuf]; exact hP
  · cases h
    exact ⟨hflat.symm, hr.delivered_complete, Or.inr (Bool.eq_false_iff.2 hP)⟩

theorem plain_sound {chunks : List Bytes} {r : Reassembly} (h : run (plainStep P) ⟨[], []⟩ chunks = some r) :
    r.Sound P chunks := by
  have h0 : Reassembly.Sound P [] ⟨[], []⟩ := ⟨rfl, by simp, Or.inl rfl⟩
  have hstep : ∀ hist r chunk r', Reassembly.Sound P hist r → plainStep P r chunk = some r' →
      Reassembly.Sound P (hist ++ [chunk]) r' := fun _ _ _ _ hr hchunk => plainStep_sound hr hchunk
  exact run_inv_hist hstep h0 h

/-- **Reassembly refines the plain one.** For every completeness predicate and all chunks, none of them empty,
`receiveDataFromSocket` delivers the buffers of plain reassembly, in order, and ends with the same bytes waiting. What it
delivers and what waits are then the bytes that came in; what it delivers is complete and what waits is not. -/
theorem reassembly_refines_plain (P : Bytes → Bool) (fd : ℕ) (chunks : List Bytes)
    (h : ∀ chunk ∈ chunks, chunk ≠ []) :
    ∃ fin, run (receiveStep P) ⟨.new fd, []⟩ chunks = some fin ∧
      run (plainStep P) ⟨[], []⟩ chunks = some ⟨fin.conn.receivedData, fin.delivered⟩ ∧
      fin.delivered.flatten ++ fin.conn.receivedData = chunks.flatten ∧
      (∀ buf ∈ fin.delivered, P buf = true) ∧ (fin.conn.receivedData = [] ∨ P fin.conn.receivedData = false) := by
  obtain ⟨fin, hfin, hplain⟩ := run_refines (f := Receiving.reassembly) receiveStep_plain h ⟨.new fd, []⟩
  have hsound := plain_sound hplain
  exact ⟨fin, hfin, hplain, hsound.conserved, hsound.delivered_complete, hsound.waiting⟩

/-- two chunks that are complete together, then one that is complete alone -/
theorem reassembly_two_chunks :
    ∃ fin, run (receiveStep fun buf => buf.getLast? == some 0) ⟨.new 4, []⟩ [[1], [2, 0], [0]] = some fin ∧
      fin.delivered.flatten ++ fin.conn.receivedData = [1, 2, 0, 0] := by
  obtain ⟨fin, hfin, -, hconserved, -⟩ :=
    reassembly_refines_plain (fun buf => buf.getLast? == some 0) 4 [[1], [2, 0], [0]] (by decide)
  exact ⟨fin, hfin, hconserved⟩

end Reassembly

/-! ## What `sendDataToSocket` reports -/

/-- **The wrong report.** `send` answers an error with -1, and the source compares with 1: the message that nothing could
be sent stands for one byte that has been. `send` returns an `int`. -/
theorem couldNotSend_iff (data : Bytes) (sent : Option ℕ) (h : ∀ n ∈ sent, n < 2147483648) :
    .couldNotSend ∈ (ClientConnection.sendToSocket data sent).2 ↔ sent = some 1 := by
  have hret : .couldNotSend ∈ (ClientConnection.sendToSocket data sent).2 ↔
      ClientConnection.sendRet sent = socketError := by
    simp only [ClientConnection.sendToSocket]
    split_ifs with h1 h2 h2 <;> simp [h1]
  rw [hret]
  cases sent with
  | none => exact ⟨fun h => absurd h (by decide), fun h => by cases h⟩
  | some n =>
    have hn : n < UInt32.size := (h n rfl).trans (by decide)
    rw [ClientConnection.sendRet, socketError, ← UInt32.toNat_inj, UInt32.toNat_ofNat', Nat.mod_eq_of_lt hn,
      Option.some.injEq]
    rfl

/-- an error with less than 4 GB to send is not reported at all -/
theorem error_not_reported {data : Bytes} (h : data.length < UInt32.size) :
    (ClientConnection.sendToSocket data none).2 = [] := by
  have hmax : (-1 : UInt32).toNat = 4294967295 := rfl
  have hlen : ¬ (-1 : UInt32).toNat < data.length := by
    have : data.length < 4294967296 := h
    omega
  simp only [ClientConnection.sendToSocket, ClientConnection.sendRet, hlen, if_false, List.append_nil]
  rfl

end NetFramework
