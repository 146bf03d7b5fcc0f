/-
The read path of a session over whole runs. A peer sends a list of payloads as `createPacket` frames; TCP delivers their
concatenation in reads of 1 to 1024 bytes, cut anywhere. `readStep` is one read: it stores the next bytes of the stream
in `data_` and runs `processRead`.

`Synced` is what reassembly is for: the strings handed to `handlePacket` so far are the payloads of the frames that have
arrived in full, and `incBuffer_` holds what has arrived of the next one.

Three defects stand in the way:
- bytes behind the end of a frame in the same read are dropped;
- with an empty `incBuffer_` the whole of `data_` is taken for received bytes, what older reads left there included;
- a frame put together in `incBuffer_` is handed on as the empty string (`fetchData_complete`).
A read keeps a session synced exactly when none of them bites (`CleanRead`): `read_path_exact`.
-/
import NetFramework.Library.Transition
import NetFramework.Library.Framing
import NetFramework.Session

namespace NetFramework

open CoreProto Framing Transition

/-! ## Model -/

/-- a session whose peer has still to deliver `incoming`; `handed` are the strings given to `handlePacket` -/
structure ReadRun where
  session : SessionImpl
  incoming : Bytes
  handed : List Bytes

/-- one completed read, and what the uninitialised `pkgSize` holds in its handler -/
structure Read where
  bytesTransferred : ℕ
  pkgSize : UInt32

def Effect.packet? : Effect → Option Bytes
  | .handlePacket data _ => some data
  | _ => none

/-- the strings given to `handlePacket` among the effects -/
def packetsOf (effects : List Effect) : List Bytes := effects.filterMap Effect.packet?

def readStep (c : ReadRun) (r : Read) : Option ReadRun :=
  if 1 ≤ r.bytesTransferred ∧ r.bytesTransferred ≤ maxLength ∧ r.bytesTransferred ≤ c.incoming.length then
    ((c.session.readInto (c.incoming.take r.bytesTransferred)).processRead false r.bytesTransferred r.pkgSize).map
      fun (s, effects) =>
        ⟨s, c.incoming.drop r.bytesTransferred, c.handed ++ packetsOf effects⟩
  else none

/-- a new session in front of the stream of `payloads` -/
def ReadRun.start (payloads : List Bytes) (data : CharArray maxLength) : ReadRun :=
  ⟨.new data, stream createPacket payloads, []⟩

/-- the reads cut a stream of `n` bytes into pieces that fit `data_` -/
def Cuts (reads : List Read) (n : ℕ) : Prop :=
  (∀ r ∈ reads, 1 ≤ r.bytesTransferred ∧ r.bytesTransferred ≤ maxLength) ∧
    (reads.map Read.bytesTransferred).sum = n

/-- what has come in is in step with the frames of `payloads` -/
def Synced (payloads : List Bytes) (c : ReadRun) : Prop :=
  ∃ arrived, arrived ++ c.incoming = stream createPacket payloads ∧
    Received createPacket payloads arrived c.handed c.session.incBuffer_

/-- the collected bytes are exactly one frame -/
def endsFrame (got : Bytes) : Bool :=
  decide (headerSize ≤ got.length ∧ got.length = headerSize + (sizeField got).toNat)

/-- the collected bytes reach past the end of their frame -/
def overruns (got : Bytes) : Bool :=
  decide (headerSize ≤ got.length ∧ headerSize + (sizeField got).toNat < got.length)

/-- the bytes `chunk`, already stored in `data_`, bring nothing of a following frame; and
- if they start a frame, they either are the whole of it, or `data_`, old bytes included, looks like the start of a
  packet and not like a complete one;
- if they continue a frame, the uninitialised `pkgSize` does no harm, and they do not end a frame with a payload. -/
def CleanChunk (s : SessionImpl) (chunk : Bytes) (pkgSize : UInt32) : Prop :=
  let got := s.incBuffer_ ++ chunk
  overruns got = false ∧
    if s.incBuffer_ = [] then
      endsFrame got = true ∨ (isPacketStart s.data_ = true ∧ (isPacketCompleteArray s.data_ pkgSize).1 = false)
    else
      (got.length < headerSize → pkgSize ≤ maxPacketSize) ∧ (endsFrame got = true → got.length = headerSize)

instance (s : SessionImpl) (chunk : Bytes) (pkgSize : UInt32) : Decidable (CleanChunk s chunk pkgSize) := by
  unfold CleanChunk; infer_instance

def CleanRead (c : ReadRun) (r : Read) : Prop :=
  CleanChunk (c.session.readInto (c.incoming.take r.bytesTransferred)) (c.incoming.take r.bytesTransferred) r.pkgSize

instance (c : ReadRun) (r : Read) : Decidable (CleanRead c r) := by
  unfold CleanRead; infer_instance

/-! ## A step in terms of `consume` -/

theorem packetsOf_read (packets : List Bytes) (clientId : Int32) :
    packetsOf (packets.map (Effect.handlePacket · clientId) ++ [Effect.asyncReadSome]) = packets := by
  rw [packetsOf, List.filterMap_append, List.filterMap_map]
  simp [Effect.packet?, Function.comp_def]

theorem readStep_some {c c' : ReadRun} {r : Read} (h : readStep c r = some c') :
    1 ≤ r.bytesTransferred ∧ r.bytesTransferred ≤ maxLength ∧ r.bytesTransferred ≤ c.incoming.length ∧
      ∃ s packets, (c.session.readInto (c.incoming.take r.bytesTransferred)).consume r.bytesTransferred r.pkgSize =
          some (s, packets) ∧
        c' = ⟨s, c.incoming.drop r.bytesTransferred, c.handed ++ packets⟩ := by
  simp only [readStep] at h
  split_ifs at h with hn
  refine ⟨hn.1, hn.2.1, hn.2.2, ?_⟩
  simp only [SessionImpl.processRead, Bool.not_false, if_true, Option.map_map, Option.map_eq_some_iff] at h
  obtain ⟨⟨s, packets⟩, hs, rfl⟩ := h
  exact ⟨s, packets, hs, by simp [packetsOf_read]⟩

theorem readStep_isSome {c : ReadRun} {r : Read} (h1 : 1 ≤ r.bytesTransferred) (h2 : r.bytesTransferred ≤ maxLength)
    (h3 : r.bytesTransferred ≤ c.incoming.length) :
    ∃ c', readStep c r = some c' ∧ c'.incoming = c.incoming.drop r.bytesTransferred := by
  obtain ⟨x, hx⟩ := Option.isSome_iff_exists.1
    (SessionImpl.processRead_isSome (c.session.readInto (c.incoming.take r.bytesTransferred)) false r.bytesTransferred
      r.pkgSize)
  simp only [readStep, h1, h2, h3, and_self, if_true, hx, Option.map_some]
  exact ⟨_, rfl, rfl⟩

/-- every cut of the stream is a run -/
theorem run_isSome {reads : List Read} {c : ReadRun} (h : Cuts reads c.incoming.length) :
    ∃ fin, run readStep c reads = some fin ∧ fin.incoming = [] := by
  induction reads generalizing c with
  | nil => exact ⟨c, rfl, List.eq_nil_of_length_eq_zero h.2.symm⟩
  | cons r reads ih =>
    obtain ⟨hb, hsum⟩ := h
    simp only [List.map_cons, List.sum_cons] at hsum
    obtain ⟨h1, h2⟩ := hb r List.mem_cons_self
    obtain ⟨c', hc', hin⟩ := readStep_isSome (c := c) h1 h2 (by omega)
    obtain ⟨fin, hfin, hnil⟩ := ih (c := c')
      ⟨fun r' hr' => hb r' (List.mem_cons_of_mem r hr'), by rw [hin, List.length_drop]; omega⟩
    exact ⟨fin, run_cons_some.2 ⟨c', hc', hfin⟩, hnil⟩

/-! ## The collected bytes against the frame they belong to -/

section Collected

variable {m : Bytes} (hm : m.length ≤ maxPacketSize.toNat)
include hm

theorem sizeField_frame (more : Bytes) : (sizeField (createPacket m ++ more)).toNat = m.length := by
  rw [createPacket, List.append_assoc, sizeField_header, toNat_length hm]

theorem inside_frame {got : Bytes} (h : got <+: createPacket m) (hne : got ≠ createPacket m) :
    overruns got = false ∧ endsFrame got = false := by
  have hlt : got.length < headerSize + m.length := by
    rw [← createPacket_length]
    exact lt_of_le_of_ne h.length_le (fun e => hne (h.eq_of_length e))
  by_cases hl : headerSize ≤ got.length
  · obtain ⟨q, rfl, -⟩ := prefix_header h hl
    rw [List.length_append, header_length] at hlt
    simp only [overruns, endsFrame, sizeField_header, toNat_length hm, decide_eq_false_iff_not, List.length_append,
      header_length]
    omega
  · simp [overruns, endsFrame, hl]

theorem whole_frame : overruns (createPacket m) = false ∧ endsFrame (createPacket m) = true := by
  have h := sizeField_frame hm []
  rw [List.append_nil] at h
  simp [overruns, endsFrame, h]

theorem past_frame {more : Bytes} (hmore : more ≠ []) : overruns (createPacket m ++ more) = true := by
  have := List.length_pos_of_ne_nil hmore
  simp only [overruns, sizeField_frame hm, decide_eq_true_eq, List.length_append, createPacket_length]
  omega

/-! ## `consume` case by case -/

/-- nothing collected yet, and `data_` begins with a whole frame -/
theorem consume_array {s : SessionImpl} (hinc : s.incBuffer_ = []) {tail : Bytes}
    (hd : s.data_.toList = createPacket m ++ tail) (n : ℕ) (pkgSize : UInt32) :
    s.consume n pkgSize = some (s, [m]) := by
  have hd' : s.data_.toList = header (UInt32.ofNat m.length) ++ (m ++ tail) := by
    rw [hd, createPacket, List.append_assoc]
  have hfit : (UInt32.ofNat m.length).toNat ≤ (m ++ tail).length := by rw [toNat_length hm]; simp
  have hc := isPacketCompleteArray_header hd' (length_le_max hm) (by decide) pkgSize
  rw [decide_eq_true hfit] at hc
  simp only [SessionImpl.consume, hinc, if_true, hc, fetchDataArray_header hd' hfit, toNat_length hm, List.take_left,
    Option.map_some]

/-- the bytes collected in `incBuffer_` reach the end of their frame: its payload is lost -/
theorem consume_vector {s : SessionImpl} (hinc : s.incBuffer_ ≠ []) {n : ℕ} {more : Bytes}
    (hg : s.incBuffer_ ++ s.data_.toList.take n = createPacket m ++ more) (pkgSize : UInt32) :
    s.consume n pkgSize = some ({ s with incBuffer_ := [] }, [[]]) := by
  have hg' : s.incBuffer_ ++ s.data_.toList.take n = header (UInt32.ofNat m.length) ++ (m ++ more) := by
    rw [hg, createPacket, List.append_assoc]
  have hfit : (UInt32.ofNat m.length).toNat ≤ (m ++ more).length := by rw [toNat_length hm]; simp
  simp only [SessionImpl.consume, hinc, if_false, hg', isPacketComplete_header (length_le_max hm), decide_eq_true hfit,
    if_true, fetchData_complete hfit, Option.map_some]

/-- the bytes collected in `incBuffer_` end inside their frame: a `pkgSize` nobody has set may throw them away -/
theorem consume_collect {s : SessionImpl} (hinc : s.incBuffer_ ≠ []) {n : ℕ}
    (hin : s.incBuffer_ ++ s.data_.toList.take n <+: createPacket m)
    (hne : s.incBuffer_ ++ s.data_.toList.take n ≠ createPacket m) (pkgSize : UInt32) :
    s.consume n pkgSize =
      some ({ s with incBuffer_ :=
        if (s.incBuffer_ ++ s.data_.toList.take n).length < headerSize ∧ maxPacketSize < pkgSize then []
        else s.incBuffer_ ++ s.data_.toList.take n }, []) := by
  generalize hgot : s.incBuffer_ ++ s.data_.toList.take n = got at *
  simp only [SessionImpl.consume, hinc, if_false, hgot]
  by_cases hl : got.length < headerSize
  · simp only [isPacketComplete_short hl, Bool.false_eq_true, if_false, hl, true_and]
    split_ifs <;> rfl
  · obtain ⟨q, rfl, hq⟩ := prefix_header hin (not_lt.1 hl)
    have hlt : ¬ (UInt32.ofNat m.length).toNat ≤ q.length := fun hle => by
      rw [toNat_length hm] at hle
      exact hne (by rw [createPacket, hq.eq_of_length_le hle])
    have hmax : ¬ maxPacketSize < UInt32.ofNat m.length := UInt32.not_lt.2 (length_le_max hm)
    simp only [isPacketComplete_header (length_le_max hm), decide_eq_false hlt, Bool.false_eq_true, if_false, hmax, hl,
      false_and]

/-! ## One read keeps a session synced iff it is clean -/

variable {ms done : List Bytes} {arrived chunk : Bytes} {s s' : SessionImpl} {packets : List Bytes} {pkgSize : UInt32}

/-- a read that starts a frame and ends inside it -/
theorem first_inside (h : Received createPacket ms arrived done s.incBuffer_) (hnext : done ++ [m] <+: ms)
    (hinc : s.incBuffer_ = []) (hd : s.data_.toList.take chunk.length = chunk) (hchunk : chunk ≠ [])
    (hin : chunk <+: createPacket m) (hne : chunk ≠ createPacket m)
    (hc : s.consume chunk.length pkgSize = some (s', packets)) :
    CleanChunk s chunk pkgSize ↔ Received createPacket ms (arrived ++ chunk) (done ++ packets) s'.incBuffer_ := by
  obtain ⟨hover, hends⟩ := inside_frame hm hin hne
  rw [hinc] at h
  simp only [CleanChunk, hinc, if_true, List.nil_append, hover, hends, true_and, Bool.false_eq_true, false_or]
  simp only [SessionImpl.consume, hinc, if_true, hd, List.nil_append] at hc
  split_ifs at hc with hcomp hstart
  · -- old bytes of `data_` complete the packet: something is handed on too early
    obtain ⟨x, -, hx⟩ := Option.map_eq_some_iff.1 hc
    simp only [Prod.mk.injEq] at hx
    obtain ⟨rfl, rfl⟩ := hx
    rw [hcomp, hinc]
    refine ⟨fun hclean => absurd hclean.2 (by simp), fun h' => absurd (h.delivers hnext h').2 ?_⟩
    simpa using hne
  · simp only [Option.some.injEq, Prod.mk.injEq] at hc
    obtain ⟨rfl, rfl⟩ := hc
    simp only [Bool.not_eq_true] at hcomp
    rw [List.append_nil]
    exact ⟨fun _ => h.part hnext (by simpa using hin) (by simpa using hne), fun _ => ⟨hstart, hcomp⟩⟩
  · -- the first bytes are discarded
    simp only [Option.some.injEq, Prod.mk.injEq] at hc
    obtain ⟨rfl, rfl⟩ := hc
    rw [List.append_nil, hinc]
    refine ⟨fun hclean => absurd hclean.1 hstart, fun h' => absurd (h.keeps h') ?_⟩
    simpa using hchunk.symm

/-- a read that starts a frame and reaches its end -/
theorem first_past (h : Received createPacket ms arrived done s.incBuffer_) (hnext : done ++ [m] <+: ms)
    (hinc : s.incBuffer_ = []) {tail more : Bytes} (hd : s.data_.toList = chunk ++ tail)
    (hchunk : chunk = createPacket m ++ more) {n : ℕ} (hc : s.consume n pkgSize = some (s', packets)) :
    CleanChunk s chunk pkgSize ↔ Received createPacket ms (arrived ++ chunk) (done ++ packets) s'.incBuffer_ := by
  rw [hchunk, List.append_assoc] at hd
  rw [consume_array hm hinc hd] at hc
  simp only [Option.some.injEq, Prod.mk.injEq] at hc
  obtain ⟨rfl, rfl⟩ := hc
  rw [hinc] at h ⊢
  simp only [CleanChunk, hinc, if_true, List.nil_append]
  by_cases hmore : more = []
  · subst hmore
    rw [List.append_nil] at hchunk
    obtain ⟨hover, hends⟩ := whole_frame hm
    rw [hchunk, hover, hends]
    exact ⟨fun _ => h.whole hnext rfl, fun _ => ⟨rfl, Or.inl rfl⟩⟩
  · -- the bytes behind the frame are dropped
    rw [hchunk, past_frame hm hmore]
    refine ⟨fun hclean => absurd hclean.1 (by simp), fun h' => absurd (h.delivers hnext h').2 ?_⟩
    simpa using hmore

/-- a read that continues a frame and ends inside it -/
theorem cont_inside (h : Received createPacket ms arrived done s.incBuffer_) (hnext : done ++ [m] <+: ms)
    (hinc : s.incBuffer_ ≠ []) (hd : s.data_.toList.take chunk.length = chunk)
    (hin : s.incBuffer_ ++ chunk <+: createPacket m) (hne : s.incBuffer_ ++ chunk ≠ createPacket m)
    (hc : s.consume chunk.length pkgSize = some (s', packets)) :
    CleanChunk s chunk pkgSize ↔ Received createPacket ms (arrived ++ chunk) (done ++ packets) s'.incBuffer_ := by
  obtain ⟨hover, hends⟩ := inside_frame hm hin hne
  rw [consume_collect hm hinc (by rwa [hd]) (by rwa [hd]), hd] at hc
  simp only [Option.some.injEq, Prod.mk.injEq] at hc
  obtain ⟨rfl, rfl⟩ := hc
  simp only [CleanChunk, hinc, if_false, hover, hends, true_and, Bool.false_eq_true, false_imp_iff, and_true,
    List.append_nil]
  split_ifs with hlost
  · -- `pkgSize` was not set: what was collected is cleared
    refine ⟨fun hclean => absurd (hclean hlost.1) (UInt32.not_le.2 hlost.2), fun h' => absurd (h.keeps h') ?_⟩
    simp [hinc]
  · exact ⟨fun _ => h.part hnext hin hne, fun _ hl => UInt32.not_lt.1 fun hgt => hlost ⟨hl, hgt⟩⟩

/-- a read that continues a frame and reaches its end -/
theorem cont_past (h : Received createPacket ms arrived done s.incBuffer_) (hnext : done ++ [m] <+: ms)
    (hinc : s.incBuffer_ ≠ []) (hd : s.data_.toList.take chunk.length = chunk) {more : Bytes}
    (hgot : s.incBuffer_ ++ chunk = createPacket m ++ more)
    (hc : s.consume chunk.length pkgSize = some (s', packets)) :
    CleanChunk s chunk pkgSize ↔ Received createPacket ms (arrived ++ chunk) (done ++ packets) s'.incBuffer_ := by
  rw [consume_vector hm hinc (by rw [hd, hgot])] at hc
  simp only [Option.some.injEq, Prod.mk.injEq] at hc
  obtain ⟨rfl, rfl⟩ := hc
  simp only [CleanChunk, hinc, if_false, hgot]
  by_cases hmore : more = []
  · subst hmore
    rw [List.append_nil] at hgot ⊢
    obtain ⟨hover, hends⟩ := whole_frame hm
    simp only [hover, hends, true_and, true_imp_iff, createPacket_length]
    refine ⟨?_, ?_⟩
    · -- only an empty payload is handed on as it was sent
      intro hclean
      obtain rfl : m = [] := List.eq_nil_of_length_eq_zero (by omega)
      exact h.whole hnext hgot
    · intro h'
      obtain ⟨rfl, -⟩ := h.delivers hnext h'
      simp
  · rw [past_frame hm hmore]
    refine ⟨fun hclean => absurd hclean.1 (by simp), fun h' => absurd (h.delivers hnext h').2 ?_⟩
    rw [hgot]
    simpa using hmore

end Collected

/-- **One read.** From a synced session a read leads to a synced one if and only if it is clean. -/
theorem readStep_synced {payloads : List Bytes} (hp : ∀ p ∈ payloads, p.length ≤ maxPacketSize.toNat)
    {c c' : ReadRun} {r : Read} (hs : Synced payloads c) (h : readStep c r = some c') :
    CleanRead c r ↔ Synced payloads c' := by
  obtain ⟨arrived, hstream, hrec⟩ := hs
  obtain ⟨h1, h2, h3, s', packets, hcons, rfl⟩ := readStep_some h
  obtain ⟨n, pkgSize⟩ := r
  obtain ⟨s, incoming, handed⟩ := c
  simp only at hstream hrec h1 h2 h3 hcons ⊢
  obtain ⟨chunk, rest, rfl, rfl⟩ : ∃ chunk rest, incoming = chunk ++ rest ∧ n = chunk.length :=
    ⟨incoming.take n, incoming.drop n, by simp, by simp [h3]⟩
  simp only [CleanRead, List.take_left, List.drop_left] at hcons ⊢
  have hchunk : chunk ≠ [] := List.ne_nil_of_length_pos h1
  -- the arrived part of the stream determines the rest
  have hsync : ∀ t, Received createPacket payloads (arrived ++ chunk) (handed ++ packets) t ↔
      ∃ a, a ++ rest = stream createPacket payloads ∧ Received createPacket payloads a (handed ++ packets) t := by
    refine fun t => ⟨fun hr => ⟨_, by rw [List.append_assoc]; exact hstream, hr⟩, fun ⟨a, ha, hr⟩ => ?_⟩
    have : arrived ++ chunk = a := by
      rw [← hstream, ← List.append_assoc, List.append_cancel_right_eq] at ha
      exact ha.symm
    rwa [this]
  have hd : (s.readInto chunk).data_.toList.take chunk.length = chunk := take_overwrite h2
  have hpre : arrived ++ chunk <+: stream createPacket payloads := ⟨rest, by rw [List.append_assoc]; exact hstream⟩
  obtain ⟨m, hnext, -, -, hcase⟩ := hrec.next hchunk hpre
  have hm : m.length ≤ maxPacketSize.toNat := hp m (hnext.subset (by simp))
  refine Iff.trans ?_ (hsync s'.incBuffer_)
  by_cases hinc : s.incBuffer_ = []
  · rw [hinc, List.nil_append] at hcase
    rcases hcase with ⟨hin, hne⟩ | ⟨more, hmore⟩
    · exact first_inside hm (s := s.readInto chunk) hrec hnext hinc hd hchunk hin hne hcons
    · exact first_past hm (s := s.readInto chunk) hrec hnext hinc (overwrite_toList h2) hmore hcons
  · rcases hcase with ⟨hin, hne⟩ | ⟨more, hmore⟩
    · exact cont_inside hm (s := s.readInto chunk) hrec hnext hinc hd hin hne hcons
    · exact cont_past hm (s := s.readInto chunk) hrec hnext hinc hd hmore hcons

/-! ## Main results -/

theorem synced_start (payloads : List Bytes) (data : CharArray maxLength) : Synced payloads (.start payloads data) :=
  ⟨[], rfl, received_nil payloads⟩

/-- **Segmentation independence, exactly.** However the frames of `payloads` are cut into reads, and whatever `data_`
holds at first: the session stays synced throughout if and only if every read is clean, and then `handlePacket` has been
given exactly `payloads`. -/
theorem read_path_exact (payloads : List Bytes) (data : CharArray maxLength) (reads : List Read)
    (hp : ∀ p ∈ payloads, p.length ≤ maxPacketSize.toNat)
    (hcut : Cuts reads (stream createPacket payloads).length) :
    ∃ fin, run readStep (.start payloads data) reads = some fin ∧
      (Along readStep CleanRead (.start payloads data) reads ↔
        Always readStep (Synced payloads) (.start payloads data) reads) ∧
      (Along readStep CleanRead (.start payloads data) reads → fin.handed = payloads) := by
  obtain ⟨fin, hfin, hnil⟩ := run_isSome (c := .start payloads data) hcut
  have h0 := synced_start payloads data
  refine ⟨fin, hfin, along_iff_always (fun _ h => h) (fun c r c' hc h => ?_) h0 hfin, fun hclean => ?_⟩
  · exact ⟨(readStep_synced hp hc h).1, (readStep_synced hp hc h).2⟩
  · obtain ⟨arrived, hstream, hrec⟩ :=
      run_inv_along (fun c r c' hc hG h => (readStep_synced hp hc h).1 hG) h0 hclean hfin
    rw [hnil, List.append_nil] at hstream
    rw [hstream] at hrec
    exact hrec.complete createPacket_ne_nil

/-- the payloads `A` and `B`, one frame a read -/
theorem read_path_two_frames : ∃ fin, run readStep (.start [[0x41], [0x42]] zeroData) [⟨7, 0⟩, ⟨7, 0⟩] = some fin ∧
    fin.handed = [[0x41], [0x42]] := by
  obtain ⟨fin, hfin, -, hh⟩ := read_path_exact [[0x41], [0x42]] zeroData [⟨7, 0⟩, ⟨7, 0⟩] (by decide +kernel)
    ⟨by decide +kernel, by decide +kernel⟩
  exact ⟨fin, hfin, hh (by decide +kernel)⟩

/-- **Two frames in one read.** The same frames in a single read of 14 bytes: the second is dropped. -/
theorem coalesced_frame_lost :
    Cuts [⟨14, 0⟩] (stream createPacket [[0x41], [0x42]]).length ∧
      (run readStep (.start [[0x41], [0x42]] zeroData) [⟨14, 0⟩]).map ReadRun.handed = some [[0x41]] ∧
      (run readStep (.start [[0x41], [0x42]] zeroData) [⟨14, 0⟩]).map ReadRun.handed ≠ some [[0x41], [0x42]] :=
  ⟨⟨by decide +kernel, by decide +kernel⟩, by decide +kernel, by decide +kernel⟩

-- one frame in two reads: the header alone passes for a complete packet, and a byte of the old `data_` is handed on
example : (run readStep (.start [[0x41]] zeroData) [⟨6, 0⟩, ⟨1, 0⟩]).map ReadRun.handed = some [[0]] := by
  decide +kernel

-- a coincidence: the old bytes are those still missing, so the second `A` is handed on a read too early and its own
-- bytes are discarded
example : (run readStep (.start [[0x41], [0x41]] zeroData) [⟨7, 0⟩, ⟨1, 0⟩, ⟨6, 0⟩]).map ReadRun.handed =
    some [[0x41], [0x41]] := by
  decide +kernel

end NetFramework
