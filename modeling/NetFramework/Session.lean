/-
`SessionImpl` of netbase.cpp: one accepted TLS connection. A handler of the class runs on the io_context thread when an
operation it started completes; it changes the session and starts further operations. Each handler below returns the
changed session and, in order, what it asks of its surroundings (`Effect`).

`processRead` runs after the completed read has stored its bytes at the front of `data_` (`readInto`). Its local
`pkgSize` is not initialised; the value it happens to hold is a parameter. A result `none` stands for a read outside a
buffer; `processRead_isSome` shows that there is none.
-/
import NetFramework.CoreProto

namespace NetFramework

open CoreProto

/-! ## Model -/

/-- `SessionImpl::max_length`, which hides the `max_length` of the file -/
def maxLength : ℕ := 1024

structure SessionImpl where
  clientId_ : Int32
  data_ : CharArray maxLength
  incBuffer_ : Bytes
  outBuffer_ : Bytes
  outBufferProcessing_ : Bytes

inductive Effect where
  | asyncHandshake
  | asyncReadSome
  | asyncWrite (buffer : Bytes)
  | handlePacket (data : Bytes) (clientId : Int32)
  | deleteThis
deriving DecidableEq, Repr

/-- a session as `new` leaves it; `data_` is not initialised -/
def SessionImpl.new (data : CharArray maxLength) : SessionImpl := ⟨-1, data, [], [], []⟩

/-- a `data_` in memory that happens to be zero -/
def zeroData : CharArray maxLength := List.Vector.replicate maxLength 0

/-- the completed `async_read_some` has stored `chunk` at the front of `data_` and left the rest as it was -/
def overwrite {size : ℕ} (data : CharArray size) (chunk : Bytes) : CharArray size :=
  ⟨chunk.take size ++ data.toList.drop chunk.length, by simp; omega⟩

namespace SessionImpl

def readInto (s : SessionImpl) (chunk : Bytes) : SessionImpl := { s with data_ := overwrite s.data_ chunk }

def start : List Effect := [.asyncHandshake]

def handleHandshake (error : Bool) : List Effect :=
  if !error then [.asyncReadSome] else [.deleteThis]

/-- the part of `processRead` before it starts the next read: the session and the strings given to `handlePacket` -/
def consume (s : SessionImpl) (bytesTransferred : ℕ) (pkgSize : UInt32) : Option (SessionImpl × List Bytes) :=
  if s.incBuffer_ = [] then
    let complete := isPacketCompleteArray s.data_ pkgSize
    if complete.1 then
      (fetchDataArray s.data_ complete.2).map fun data => (s, [data])
    else if isPacketStart s.data_ then
      some ({ s with incBuffer_ := s.incBuffer_ ++ s.data_.toList.take bytesTransferred }, [])
    else
      -- discard...
      some (s, [])
  else
    let s := { s with incBuffer_ := s.incBuffer_ ++ s.data_.toList.take bytesTransferred }
    let complete := isPacketComplete s.incBuffer_ pkgSize
    if complete.1 then
      (fetchData s.incBuffer_ complete.2).map fun data => ({ s with incBuffer_ := [] }, [data])
    else if maxPacketSize < complete.2 then
      -- disconnect!
      some ({ s with incBuffer_ := [] }, [])
    else
      some (s, [])

def processRead (s : SessionImpl) (error : Bool) (bytesTransferred : ℕ) (pkgSize : UInt32) :
    Option (SessionImpl × List Effect) :=
  if !error then
    (s.consume bytesTransferred pkgSize).map fun (s, packets) =>
      (s, packets.map (.handlePacket · s.clientId_) ++ [.asyncReadSome])
  else
    some (s, [.deleteThis])

def handleWrite (s : SessionImpl) (error : Bool) : SessionImpl × List Effect :=
  if !error then
    -- the swap leaves in `outBuffer_` what `outBufferProcessing_` held
    let s := { s with outBufferProcessing_ := s.outBuffer_, outBuffer_ := s.outBufferProcessing_ }
    if s.outBufferProcessing_ ≠ [] then (s, [.asyncWrite s.outBufferProcessing_]) else (s, [])
  else
    (s, [.deleteThis])

def sendData (s : SessionImpl) (data : Bytes) : SessionImpl × List Effect :=
  let s := { s with outBuffer_ := s.outBuffer_ ++ data }
  if s.outBufferProcessing_ = [] then s.handleWrite false else (s, [])

end SessionImpl

/-! ## Buffers -/

@[simp] theorem overwrite_toList {size : ℕ} {data : CharArray size} {chunk : Bytes} (h : chunk.length ≤ size) :
    (overwrite data chunk).toList = chunk ++ data.toList.drop chunk.length := by
  simp [overwrite, List.take_of_length_le h]

theorem take_overwrite {size : ℕ} {data : CharArray size} {chunk : Bytes} (h : chunk.length ≤ size) :
    (overwrite data chunk).toList.take chunk.length = chunk := by
  rw [overwrite_toList h, List.take_left]

/-! ## `processRead` reads inside its buffers -/

/-- what a successful array `isPacketComplete` has checked -/
theorem isPacketCompleteArray_true {size : ℕ} {data : CharArray size} {pkgSize : UInt32} (hs : size < UInt32.size)
    (h : (isPacketCompleteArray data pkgSize).1 = true) :
    headerSize + (isPacketCompleteArray data pkgSize).2.toNat ≤ size := by
  simp only [isPacketCompleteArray] at h ⊢
  split_ifs at h ⊢ with h1 h2 h3
  rw [UInt32.not_lt, UInt32.le_iff_toNat_le, toNat_add_header (UInt32.not_lt.1 h2), UInt32.toNat_ofNat',
    Nat.mod_eq_of_lt hs] at h3
  simp only
  omega

theorem isPacketComplete_true {data : Bytes} {pkgSize : UInt32} (h : (isPacketComplete data pkgSize).1 = true) :
    headerSize + (isPacketComplete data pkgSize).2.toNat ≤ data.length := by
  simp only [isPacketComplete] at h ⊢
  split_ifs at h ⊢ with h1 h2 h3 h4
  rw [toNat_add_header (UInt32.not_lt.1 h3)] at h4
  simp only
  omega

theorem readAt_isSome {data : Bytes} {bytes : UInt32} (h : headerSize + bytes.toNat ≤ data.length) :
    (readAt data bytes).isSome = true := by
  simp only [readAt, h, if_true]
  split_ifs <;> rfl

/-- no read of `processRead` reaches outside `data_` or `incBuffer_` -/
theorem SessionImpl.consume_isSome (s : SessionImpl) (bytesTransferred : ℕ) (pkgSize : UInt32) :
    (s.consume bytesTransferred pkgSize).isSome = true := by
  simp only [consume]
  split_ifs with h0 h1 h2 h1 h2
  · have hin := isPacketCompleteArray_true (by decide) h1
    have : s.data_.toList.length = maxLength := s.data_.toList_length
    simp only [Option.isSome_map, fetchDataArray]
    split_ifs
    · rfl
    · exact readAt_isSome (by omega)
  · rfl
  · rfl
  · have hin := isPacketComplete_true h1
    simp only [Option.isSome_map, fetchData]
    split_ifs
    · rfl
    · rfl
    · exact readAt_isSome hin
  · rfl
  · rfl

theorem SessionImpl.processRead_isSome (s : SessionImpl) (error : Bool) (bytesTransferred : ℕ) (pkgSize : UInt32) :
    (s.processRead error bytesTransferred pkgSize).isSome = true := by
  simp only [processRead]
  split_ifs
  · simp [consume_isSome]
  · rfl

end NetFramework
