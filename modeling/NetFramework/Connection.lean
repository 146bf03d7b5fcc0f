/-
A session among its asynchronous operations. After `handleAccept` the session is in `sessions_` and its handshake is
under way; from then on completions arrive in any order and, while the session is in `sessions_`, the server calls
`sendData` on it. `Conn` is the session together with the operations it has started whose handler has not run yet.

Boost.Asio is taken at its word: a handler runs once for every started operation, with an error if the socket is
destroyed first; `async_write` sends its whole buffer before it reports success. Handlers and `sendData` run one at a
time, on the io_context thread.

`delete this` ends the life of the object, not of the model: `deletions` counts how often it has run, and `ranDeleted`
records that a handler has run after the first time.
-/
import NetFramework.Library.Transition
import NetFramework.Session

namespace NetFramework

open Transition

/-! ## Model -/

structure Conn where
  impl : SessionImpl
  /-- operations started whose handler has not run -/
  handshakes : ℕ
  reads : ℕ
  writes : List Bytes
  /-- the data of the `sendData` calls, and the buffers given to `async_write`, in order -/
  sent : List Bytes
  written : List Bytes
  /-- the strings given to `handlePacket` -/
  handed : List Bytes
  deletions : ℕ
  ranDeleted : Bool

inductive ConnOp where
  | handshakeDone (error : Bool)
  | readDone (error : Bool) (chunk : Bytes) (pkgSize : UInt32)
  | writeDone (error : Bool)
  | sendData (data : Bytes)
deriving DecidableEq, Repr

namespace Conn

def perform (c : Conn) : Effect → Conn
  | .asyncHandshake => { c with handshakes := c.handshakes + 1 }
  | .asyncReadSome => { c with reads := c.reads + 1 }
  | .asyncWrite buffer => { c with writes := c.writes ++ [buffer], written := c.written ++ [buffer] }
  | .handlePacket data _ => { c with handed := c.handed ++ [data] }
  | .deleteThis => { c with deletions := c.deletions + 1 }

/-- a handler or call has left the session as `r.1` and asked for `r.2` -/
def apply (c : Conn) (r : SessionImpl × List Effect) : Conn := r.2.foldl perform { c with impl := r.1 }

/-- a handler of the session starts to run -/
def enter (c : Conn) : Conn := { c with ranDeleted := c.ranDeleted || decide (0 < c.deletions) }

/-- an operation on a destroyed socket completes with an error -/
def MayComplete (c : Conn) (error : Bool) : Prop := 0 < c.deletions → error = true

instance (c : Conn) (error : Bool) : Decidable (c.MayComplete error) := by unfold MayComplete; infer_instance

/-- the session as `handleAccept` leaves it -/
def accepted (data : CharArray maxLength) : Conn :=
  apply ⟨.new data, 0, 0, [], [], [], [], 0, false⟩ (.new data, SessionImpl.start)

/-- the number of operations whose handler is still to run -/
def outstanding (c : Conn) : ℕ := c.handshakes + c.reads + c.writes.length

end Conn

open Conn in
def connStep (c : Conn) : ConnOp → Option Conn
  | .handshakeDone error =>
    if 0 < c.handshakes ∧ c.MayComplete error then
      some (apply { enter c with handshakes := c.handshakes - 1 } (c.impl, SessionImpl.handleHandshake error))
    else none
  | .readDone error chunk pkgSize =>
    if 0 < c.reads ∧ c.MayComplete error ∧ chunk.length ≤ maxLength then
      ((c.impl.readInto chunk).processRead error chunk.length pkgSize).map
        (apply { enter c with reads := c.reads - 1 })
    else none
  | .writeDone error =>
    match c.writes with
    | [] => none
    | _ :: writes =>
      if c.MayComplete error then some (apply { enter c with writes := writes } (c.impl.handleWrite error)) else none
  | .sendData data =>
    -- the destructor takes the session out of `sessions_`
    if c.deletions = 0 then some (apply { c with sent := c.sent ++ [data] } (c.impl.sendData data)) else none

/-- the operation reports an error -/
def ConnOp.failed : ConnOp → Bool
  | .handshakeDone error => error
  | .readDone error _ _ => error
  | .writeDone error => error
  | .sendData _ => false

/-! ## What the handlers do -/

theorem processRead_error (s : SessionImpl) (n : ℕ) (pkgSize : UInt32) :
    s.processRead true n pkgSize = some (s, [.deleteThis]) := rfl
theorem handleWrite_error (s : SessionImpl) : s.handleWrite true = (s, [.deleteThis]) := rfl

theorem handleWrite_ok (s : SessionImpl) : s.handleWrite false =
    ({ s with outBufferProcessing_ := s.outBuffer_, outBuffer_ := s.outBufferProcessing_ },
      if s.outBuffer_ ≠ [] then [.asyncWrite s.outBuffer_] else []) := by
  simp only [SessionImpl.handleWrite, Bool.not_false, if_true]
  split_ifs <;> rfl

/-- `processRead` does not touch the two output buffers -/
theorem consume_out {s s' : SessionImpl} {n : ℕ} {pkgSize : UInt32} {packets : List Bytes}
    (h : s.consume n pkgSize = some (s', packets)) :
    s'.outBuffer_ = s.outBuffer_ ∧ s'.outBufferProcessing_ = s.outBufferProcessing_ := by
  simp only [SessionImpl.consume] at h
  split_ifs at h
  all_goals simp only [Option.map_eq_some_iff, Option.some.injEq, Prod.mk.injEq] at h
  all_goals first
    | obtain ⟨rfl, -⟩ := h; exact ⟨rfl, rfl⟩
    | obtain ⟨_, -, rfl, -⟩ := h; exact ⟨rfl, rfl⟩

/-- a read without error hands on packets and starts the next read -/
theorem apply_read (c : Conn) (s : SessionImpl) (packets : List Bytes) (clientId : Int32) :
    c.apply (s, packets.map (.handlePacket · clientId) ++ [.asyncReadSome]) =
      { c with impl := s, reads := c.reads + 1, handed := c.handed ++ packets } := by
  simp only [Conn.apply, List.foldl_append, List.foldl_map, List.foldl_cons, List.foldl_nil]
  have hfold : ∀ c : Conn, packets.foldl (fun c data => c.perform (.handlePacket data clientId)) c =
      { c with handed := c.handed ++ packets } := by
    induction packets with
    | nil => intro c; simp
    | cons p packets ih => intro c; rw [List.foldl_cons, ih]; simp [Conn.perform]
  rw [hfold]; rfl

/-! ## Inversion of a step -/

theorem connStep_handshake {c c' : Conn} {error : Bool} (h : connStep c (.handshakeDone error) = some c') :
    0 < c.handshakes ∧ c.MayComplete error ∧
      c' = { c.enter with
        handshakes := c.handshakes - 1
        reads := c.reads + if error then 0 else 1
        deletions := c.deletions + if error then 1 else 0 } := by
  simp only [connStep] at h
  split_ifs at h with hc
  refine ⟨hc.1, hc.2, ?_⟩
  cases h
  cases error <;> rfl

theorem connStep_read {c c' : Conn} {error : Bool} {chunk : Bytes} {pkgSize : UInt32}
    (h : connStep c (.readDone error chunk pkgSize) = some c') :
    0 < c.reads ∧ c.MayComplete error ∧ ∃ s packets,
      s.outBuffer_ = c.impl.outBuffer_ ∧ s.outBufferProcessing_ = c.impl.outBufferProcessing_ ∧
      c' = { c.enter with
        impl := s
        reads := c.reads - 1 + if error then 0 else 1
        handed := c.handed ++ packets
        deletions := c.deletions + if error then 1 else 0 } := by
  simp only [connStep] at h
  split_ifs at h with hc
  refine ⟨hc.1, hc.2.1, ?_⟩
  cases error with
  | true =>
    rw [processRead_error] at h
    cases h
    exact ⟨c.impl.readInto chunk, [], rfl, rfl, by simp [Conn.apply, Conn.perform, Conn.enter]⟩
  | false =>
    simp only [SessionImpl.processRead, Bool.not_false, if_true, Option.map_map, Option.map_eq_some_iff] at h
    obtain ⟨⟨s, packets⟩, hs, rfl⟩ := h
    obtain ⟨hout, hproc⟩ := consume_out hs
    exact ⟨s, packets, hout, hproc, by simp [apply_read, Conn.enter]⟩

theorem connStep_write {c c' : Conn} {error : Bool} (h : connStep c (.writeDone error) = some c') :
    ∃ b writes, c.writes = b :: writes ∧ c.MayComplete error ∧
      c' = Conn.apply { c.enter with writes := writes } (c.impl.handleWrite error) := by
  simp only [connStep] at h
  split at h
  · cases h
  · rename_i b writes hw
    split_ifs at h with hc
    cases h
    exact ⟨b, writes, hw, hc, rfl⟩

theorem connStep_send {c c' : Conn} {data : Bytes} (h : connStep c (.sendData data) = some c') :
    c.deletions = 0 ∧ c' = Conn.apply { c with sent := c.sent ++ [data] } (c.impl.sendData data) := by
  simp only [connStep] at h
  split_ifs at h with hc
  cases h
  exact ⟨hc, rfl⟩

end NetFramework
