/-
`ClientNet::send` of clientnet.cpp: write the request as one frame, call `read_some` once, take what `reply_` then holds
for the answer. `reply_` is a member: it keeps the bytes of earlier reads, and the array overloads of coreproto.h read it
at full size whatever the read has brought.

A peer answers every request with one frame. Its bytes arrive in segments, cut anywhere, none with bytes of two answers;
a segment that a call does not read waits for the next one.

- `client_pairing_exact`: the calls return the payloads of their answers if and only if after every call's read
  `reply_` begins with the frame of its answer (or the answer is empty, and so is what the call makes of `reply_`).
  Answers that arrive in one segment each are enough.
- `split_answer_lost`: an answer in two segments.
-/
import NetFramework.Library.Transition
import NetFramework.Session
import NetFramework.FrameLaws

namespace NetFramework
namespace ClientNet

open CoreProto Transition

/-! ## Model -/

/-- `max_length` of clientnet.cpp -/
def maxLength : ℕ := 16 * 1024

structure Impl where
  reply_ : CharArray maxLength

/-- `send` after its write, when `read_some` brings `read`: the result; `pkgSize` is not initialised -/
def Impl.send (c : Impl) (read : Bytes) (pkgSize : UInt32) : Option (Impl × Bytes) :=
  let c := { c with reply_ := overwrite c.reply_ read }
  let complete := isPacketCompleteArray c.reply_ pkgSize
  if complete.1 then (fetchDataArray c.reply_ complete.2).map fun data => (c, data) else some (c, [])

/-- a connected client, the bytes it has written, the segments it has not read, what its calls have returned -/
structure Connected where
  impl : Impl
  written : Bytes
  incoming : List Bytes
  returned : List Bytes

/-- a call of `send`, the payload of its answer and the segments the answer's frame arrives in -/
structure Exchange where
  request : Bytes
  answer : Bytes
  segments : List Bytes
  pkgSize : UInt32

/-- the segments make up the frame of the answer, and each fits a `read_some` -/
def Exchange.Segmented (e : Exchange) : Prop :=
  e.answer.length ≤ maxPacketSize.toNat ∧ e.segments.flatten = createPacket e.answer ∧
    ∀ segment ∈ e.segments, 1 ≤ segment.length ∧ segment.length ≤ maxLength

instance (e : Exchange) : Decidable e.Segmented := by unfold Exchange.Segmented; infer_instance

/-- `ClientNet::send`, and the peer's answer to it -/
def exchangeStep (c : Connected) (e : Exchange) : Option Connected :=
  if e.Segmented then
    match c.incoming ++ e.segments with
    | [] => none
    | read :: incoming =>
      (c.impl.send read e.pkgSize).map fun (impl, data) =>
        ⟨impl, c.written ++ createPacket e.request, incoming, c.returned ++ [data]⟩
  else none

def Connected.start (reply : CharArray maxLength) : Connected := ⟨⟨reply⟩, [], [], []⟩

/-- what `reply_` holds once the call has read -/
def Connected.replyAfter (c : Connected) (e : Exchange) : CharArray maxLength :=
  match c.incoming ++ e.segments with
  | [] => c.impl.reply_
  | read :: _ => overwrite c.impl.reply_ read

/-- after the read `reply_` begins with the frame of the answer; for an empty answer it may hold no packet instead -/
def FrameInReply (c : Connected) (e : Exchange) : Prop :=
  createPacket e.answer <+: (c.replyAfter e).toList ∨
    e.answer = [] ∧ (isPacketCompleteArray (c.replyAfter e) 0).1 = false

instance (c : Connected) (e : Exchange) : Decidable (FrameInReply c e) := by unfold FrameInReply; infer_instance

/-! ## Reading a frame out of an array -/

theorem isPacketCompleteArray_pkgSize {size : ℕ} (data : CharArray size) (pkgSize pkgSize' : UInt32) :
    (isPacketCompleteArray data pkgSize).1 = (isPacketCompleteArray data pkgSize').1 := by
  simp only [isPacketCompleteArray]
  split_ifs <;> rfl

/-- what the array overloads read out of an array is a frame it begins with -/
theorem frame_of_fetch {size : ℕ} {data : CharArray size} {pkgSize : UInt32} {p : Bytes} (hs : size < UInt32.size)
    (hh : headerSize ≤ size) (hcomplete : (isPacketCompleteArray data pkgSize).1 = true)
    (hfetch : fetchDataArray data (isPacketCompleteArray data pkgSize).2 = some p) : createPacket p <+: data.toList := by
  have hin := isPacketCompleteArray_true hs hcomplete
  have hlen : data.toList.length = size := data.toList_length
  have hmagic : hasMagic data.toList = true := by
    by_contra hno
    simp only [isPacketCompleteArray, Bool.eq_false_iff.2 hno, Bool.not_false, if_true, Bool.false_eq_true]
      at hcomplete
  have hd := eq_header_append (by omega) hmagic
  have hsize : (isPacketCompleteArray data pkgSize).2 = sizeField data.toList := by
    simp only [isPacketCompleteArray, hmagic, Bool.not_true, Bool.false_eq_true, if_false]
    split_ifs <;> rfl
  rw [hsize] at hin hfetch
  rw [fetchDataArray_header hd (by rw [List.length_drop]; omega)] at hfetch
  have hp : p.length = (sizeField data.toList).toNat := by
    rw [← Option.some.inj hfetch, List.length_take, List.length_drop]
    omega
  refine ⟨(data.toList.drop headerSize).drop (sizeField data.toList).toNat, ?_⟩
  calc createPacket p ++ (data.toList.drop headerSize).drop (sizeField data.toList).toNat
      = header (sizeField data.toList) ++ (p ++ (data.toList.drop headerSize).drop (sizeField data.toList).toNat) := by
        rw [createPacket, hp, UInt32.ofNat_toNat, List.append_assoc]
    _ = header (sizeField data.toList) ++ data.toList.drop headerSize := by
        rw [← Option.some.inj hfetch, List.take_append_drop]
    _ = data.toList := hd.symm

/-! ## One call -/

theorem Impl.send_frame {c : Impl} {read p : Bytes} (hp : p.length ≤ maxPacketSize.toNat)
    (h : createPacket p <+: (overwrite c.reply_ read).toList) (pkgSize : UInt32) :
    c.send read pkgSize = some (⟨overwrite c.reply_ read⟩, p) := by
  obtain ⟨hcomplete, -, hfetch⟩ :=
    array_round_trip hp maxLength (overwrite c.reply_ read) pkgSize (by decide) (by decide) h
  simp only [Impl.send, hcomplete, if_true, hfetch, Option.map_some]

theorem Impl.send_incomplete {c : Impl} {read : Bytes} {pkgSize : UInt32}
    (h : (isPacketCompleteArray (overwrite c.reply_ read) pkgSize).1 = false) :
    c.send read pkgSize = some (⟨overwrite c.reply_ read⟩, []) := by
  simp only [Impl.send, h, Bool.false_eq_true, if_false]

/-- a call returns the payload of a frame at the front of `reply_`, or nothing if there is no packet there -/
theorem Impl.send_some (c : Impl) (read : Bytes) (pkgSize : UInt32) :
    ∃ p, c.send read pkgSize = some (⟨overwrite c.reply_ read⟩, p) ∧
      (((isPacketCompleteArray (overwrite c.reply_ read) pkgSize).1 = true ∧
          createPacket p <+: (overwrite c.reply_ read).toList) ∨
        ((isPacketCompleteArray (overwrite c.reply_ read) pkgSize).1 = false ∧ p = [])) := by
  by_cases hcomplete : (isPacketCompleteArray (overwrite c.reply_ read) pkgSize).1 = true
  · have hin := isPacketCompleteArray_true (by decide) hcomplete
    have hlen : (overwrite c.reply_ read).toList.length = maxLength := (overwrite c.reply_ read).toList_length
    have hsome : (fetchDataArray (overwrite c.reply_ read)
        (isPacketCompleteArray (overwrite c.reply_ read) pkgSize).2).isSome = true := by
      simp only [fetchDataArray]
      split_ifs
      · rfl
      · exact readAt_isSome (by omega)
    obtain ⟨p, hp⟩ := Option.isSome_iff_exists.1 hsome
    refine ⟨p, ?_, Or.inl ⟨hcomplete, frame_of_fetch (by decide) (by decide) hcomplete hp⟩⟩
    simp only [Impl.send, hcomplete, if_true, hp, Option.map_some]
  · have hno := Bool.eq_false_iff.2 hcomplete
    exact ⟨[], Impl.send_incomplete hno, Or.inr ⟨hno, rfl⟩⟩

/-- **One exchange.** The call returns one string; it is the answer if and only if `FrameInReply`. -/
theorem exchangeStep_returned {c c' : Connected} {e : Exchange} (h : exchangeStep c e = some c') :
    ∃ p, c'.returned = c.returned ++ [p] ∧ (FrameInReply c e ↔ p = e.answer) := by
  simp only [exchangeStep] at h
  split_ifs at h with hseg
  split at h
  · cases h
  · rename_i read incoming hread
    have hreply : c.replyAfter e = overwrite c.impl.reply_ read := by rw [Connected.replyAfter, hread]
    obtain ⟨p, hsend, hp⟩ := Impl.send_some c.impl read e.pkgSize
    rw [hsend] at h
    cases h
    refine ⟨p, rfl, ?_⟩
    rw [FrameInReply, hreply, isPacketCompleteArray_pkgSize _ 0 e.pkgSize]
    refine ⟨?_, ?_⟩
    · intro hframe
      rcases hframe with hframe | ⟨hnil, hno⟩
      · rw [Impl.send_frame hseg.1 hframe e.pkgSize] at hsend
        exact (Prod.mk.inj (Option.some.inj hsend)).2.symm
      · rw [Impl.send_incomplete hno] at hsend
        rw [hnil]
        exact (Prod.mk.inj (Option.some.inj hsend)).2.symm
    · rintro rfl
      rcases hp with ⟨-, hframe⟩ | ⟨hno, hnil⟩
      · exact Or.inl hframe
      · exact Or.inr ⟨hnil, hno⟩

theorem exchangeStep_isSome {c : Connected} {e : Exchange} (h : e.Segmented) : ∃ c', exchangeStep c e = some c' := by
  have hne : e.segments ≠ [] := by
    intro hnil
    exact createPacket_ne_nil e.answer (by rw [← h.2.1, hnil]; rfl)
  obtain ⟨read, incoming, hread⟩ := List.exists_cons_of_ne_nil (List.append_ne_nil_of_right_ne_nil c.incoming hne)
  obtain ⟨p, hp, -⟩ := Impl.send_some c.impl read e.pkgSize
  simp only [exchangeStep, h, if_true, hread, hp, Option.map_some]
  exact ⟨_, rfl⟩

/-! ## Sessions -/

/-- every session is a run, and what its calls return are the answers iff every call finds its frame -/
theorem run_returned {exchanges : List Exchange} (h : ∀ e ∈ exchanges, e.Segmented) (c : Connected) :
    ∃ fin ps, run exchangeStep c exchanges = some fin ∧ fin.returned = c.returned ++ ps ∧
      (Along exchangeStep FrameInReply c exchanges ↔ ps = exchanges.map Exchange.answer) := by
  induction exchanges generalizing c with
  | nil => exact ⟨c, [], rfl, by simp, by simp [Along]⟩
  | cons e exchanges ih =>
    obtain ⟨c', hc'⟩ := exchangeStep_isSome (c := c) (h e List.mem_cons_self)
    obtain ⟨p, hret, hframe⟩ := exchangeStep_returned hc'
    obtain ⟨fin, ps, hfin, hps, hA⟩ := ih (fun e' he' => h e' (List.mem_cons_of_mem e he')) c'
    refine ⟨fin, p :: ps, run_cons_some.2 ⟨c', hc', hfin⟩, by rw [hps, hret, List.append_assoc]; rfl, ?_⟩
    rw [along_cons, hc', List.map_cons, List.cons.injEq, hframe]
    exact and_congr Iff.rfl hA

/-- the answer arrives in one segment -/
def Exchange.Whole (e : Exchange) : Prop := e.segments = [createPacket e.answer]

theorem exchangeStep_whole {c c' : Connected} {e : Exchange} (hw : e.Whole) (hc : c.incoming = [])
    (h : exchangeStep c e = some c') : FrameInReply c e ∧ c'.incoming = [] := by
  have hread : c.incoming ++ e.segments = [createPacket e.answer] := by rw [hc, hw]; rfl
  simp only [exchangeStep] at h
  split_ifs at h with hseg
  have hlen : (createPacket e.answer).length ≤ maxLength := (hseg.2.2 _ (by rw [hw]; exact List.mem_singleton_self _)).2
  refine ⟨Or.inl ?_, ?_⟩
  · rw [Connected.replyAfter, hread, overwrite_toList hlen]
    exact List.prefix_append _ _
  · rw [hread] at h
    obtain ⟨_, -, rfl⟩ := Option.map_eq_some_iff.1 h
    rfl

theorem along_whole {exchanges : List Exchange} (h : ∀ e ∈ exchanges, e.Segmented) (hw : ∀ e ∈ exchanges, e.Whole)
    {c : Connected} (hc : c.incoming = []) : Along exchangeStep FrameInReply c exchanges := by
  induction exchanges generalizing c with
  | nil => trivial
  | cons e exchanges ih =>
    have hwe := hw e List.mem_cons_self
    obtain ⟨c', hc'⟩ := exchangeStep_isSome (c := c) (h e List.mem_cons_self)
    refine ⟨(exchangeStep_whole hwe hc hc').1, ?_⟩
    intro c'' hc''
    exact ih (fun e' he' => h e' (List.mem_cons_of_mem e he')) (fun e' he' => hw e' (List.mem_cons_of_mem e he'))
      (exchangeStep_whole hwe hc hc'').2

/-- an answer that does not fit `reply_` is never returned -/
theorem large_answer_lost {c : Connected} {e : Exchange} (h : maxLength < headerSize + e.answer.length) :
    ¬ FrameInReply c e := by
  intro hframe
  rcases hframe with hframe | ⟨hnil, -⟩
  · have hle := hframe.length_le
    rw [createPacket_length, (c.replyAfter e).toList_length] at hle
    omega
  · rw [hnil] at h
    exact absurd h (by decide)

/-- **Request/response pairing, exactly.** Whatever `reply_` holds at first and however the answers are cut into
segments, all calls run, and they return the payloads of the answers, in order, if and only if `FrameInReply` holds at
every call. It does when every answer arrives in one segment. -/
theorem client_pairing_exact (reply : CharArray maxLength) (exchanges : List Exchange)
    (h : ∀ e ∈ exchanges, e.Segmented) :
    ∃ fin, run exchangeStep (.start reply) exchanges = some fin ∧
      (Along exchangeStep FrameInReply (.start reply) exchanges ↔ fin.returned = exchanges.map Exchange.answer) ∧
      ((∀ e ∈ exchanges, e.Whole) → fin.returned = exchanges.map Exchange.answer) := by
  obtain ⟨fin, ps, hfin, hps, hA⟩ := run_returned h (.start reply)
  have hret : fin.returned = ps := hps
  rw [← hret] at hA
  exact ⟨fin, hfin, hA, fun hw => hA.1 (along_whole h hw rfl)⟩

/-- a `reply_` in memory that happens to be zero -/
def zeroReply : CharArray maxLength := List.Vector.replicate maxLength 0

/-- the answers `A` and `BC`, one segment each -/
theorem client_pairing_two : ∃ fin, run exchangeStep (.start zeroReply)
      [⟨[0x61], [0x41], [createPacket [0x41]], 0⟩, ⟨[0x62], [0x42, 0x43], [createPacket [0x42, 0x43]], 0⟩] = some fin ∧
    fin.returned = [[0x41], [0x42, 0x43]] := by
  obtain ⟨fin, hfin, -, hwhole⟩ := client_pairing_exact zeroReply
    [⟨[0x61], [0x41], [createPacket [0x41]], 0⟩, ⟨[0x62], [0x42, 0x43], [createPacket [0x42, 0x43]], 0⟩]
    (by decide)
  refine ⟨fin, hfin, hwhole ?_⟩
  intro e he
  simp only [List.mem_cons, List.not_mem_nil, or_false] at he
  rcases he with rfl | rfl
  · rfl
  · rfl

/-- the frame of `A` in two segments, cut behind its header -/
def splitAnswer : Exchange := ⟨[0x61], [0x41], [[0x4E, 0x46, 0, 0, 0, 1], [0x41]], 0⟩

/-- **A split answer.** The header makes `reply_` a complete packet, and the call returns a byte that has not come. -/
theorem split_answer_lost : splitAnswer.Segmented ∧
    (run exchangeStep (.start zeroReply) [splitAnswer]).map Connected.returned = some [[0]] ∧
      (run exchangeStep (.start zeroReply) [splitAnswer]).map Connected.returned ≠ some [[0x41]] :=
  ⟨by decide, by decide +kernel, by decide +kernel⟩

end ClientNet
end NetFramework
