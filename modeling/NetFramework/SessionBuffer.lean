/-
The size of `incBuffer_` over whole runs. A peer sends what it likes: every completed read brings 1 to 1024 arbitrary
bytes, and the uninitialised `pkgSize` holds anything.

`processRead` drops a buffer whose header announces more than `maxPacketSize`, so a buffer that begins with the magic
bytes stays within one frame of the largest size. It starts a buffer when `data_` begins with the magic bytes, though,
not when the received ones do: after a read of the single byte `N` in front of an old `F` the buffer is `N`, and what
follows need not go on with `F`. Such a buffer never again has its header read.

- `inc_buffer_bounded`: while every read that continues a buffer leaves it beginning with the magic bytes (or finds a
  `pkgSize` above `maxPacketSize`), the buffer is bounded. After the first read that does neither it has no bound.
- `inc_buffer_overflow`: a run that ends above the bound.
-/
import NetFramework.Library.Transition
import NetFramework.Session

namespace NetFramework

open CoreProto Transition

/-! ## Model -/

/-- a completed read of `chunk`, and what the uninitialised `pkgSize` holds in its handler -/
structure RawRead where
  chunk : Bytes
  pkgSize : UInt32
deriving DecidableEq, Repr

def bufferStep (s : SessionImpl) (r : RawRead) : Option SessionImpl :=
  if 1 ≤ r.chunk.length ∧ r.chunk.length ≤ maxLength then
    ((s.readInto r.chunk).processRead false r.chunk.length r.pkgSize).map Prod.fst
  else none

/-- the reads bring 1 to 1024 bytes each -/
def FitsData (reads : List RawRead) : Prop := ∀ r ∈ reads, 1 ≤ r.chunk.length ∧ r.chunk.length ≤ maxLength

instance (reads : List RawRead) : Decidable (FitsData reads) := by unfold FitsData; infer_instance

/-- `incBuffer_` holds no more than the largest frame -/
def Bounded (s : SessionImpl) : Prop := s.incBuffer_.length ≤ maxPacketSize.toNat + headerSize

/-- a read that continues a buffer leaves the magic bytes at its front, or has it dropped -/
def KeepsMagic (s : SessionImpl) (r : RawRead) : Prop :=
  s.incBuffer_ ≠ [] → hasMagic (s.incBuffer_ ++ r.chunk) = true ∨ maxPacketSize < r.pkgSize

instance (s : SessionImpl) (r : RawRead) : Decidable (KeepsMagic s r) := by unfold KeepsMagic; infer_instance

/-- the buffer has got past the place of the magic bytes without them -/
def Astray (s : SessionImpl) : Prop := 2 ≤ s.incBuffer_.length ∧ hasMagic s.incBuffer_ = false

/-! ## The vector reader on a collected buffer -/

theorem isPacketComplete_no_magic {data : Bytes} (h : hasMagic data = false) (pkgSize : UInt32) :
    isPacketComplete data pkgSize = (false, pkgSize) := by
  simp only [isPacketComplete, h, Bool.not_false, if_true, ite_self]

/-- a buffer that the reader has found neither complete nor oversized is within its frame -/
theorem length_le_of_incomplete {data : Bytes} {pkgSize : UInt32} (hmagic : hasMagic data = true)
    (hcomplete : (isPacketComplete data pkgSize).1 = false) (hsize : ¬ maxPacketSize < (isPacketComplete data pkgSize).2) :
    data.length ≤ maxPacketSize.toNat + headerSize := by
  by_cases hshort : data.length < headerSize
  · omega
  · simp only [isPacketComplete, hshort, if_false, hmagic, Bool.not_true, Bool.false_eq_true] at hcomplete hsize
    have hmax : ¬ maxPacketSize < sizeField data := by
      intro hmax
      simp only [hmax, if_true, not_true] at hsize
    have hle : (sizeField data).toNat ≤ maxPacketSize.toNat := UInt32.le_iff_toNat_le.1 (UInt32.not_lt.1 hmax)
    rw [if_neg hmax, toNat_add_header (UInt32.not_lt.1 hmax)] at hcomplete
    split_ifs at hcomplete with hlen
    omega

/-- the magic bytes are the first two -/
theorem hasMagic_append {a : Bytes} (h : 2 ≤ a.length) (b : Bytes) : hasMagic (a ++ b) = hasMagic a := by
  have h0 : (a ++ b)[0]? = a[0]? := List.getElem?_append_left (by omega)
  have h1 : (a ++ b)[1]? = a[1]? := List.getElem?_append_left (by omega)
  simp only [hasMagic, List.getD_eq_getElem?_getD, h0, h1]

/-! ## What a read does to the buffer -/

theorem bufferStep_some {s s' : SessionImpl} {r : RawRead} (h : bufferStep s r = some s') :
    (1 ≤ r.chunk.length ∧ r.chunk.length ≤ maxLength) ∧
      ∃ packets, (s.readInto r.chunk).consume r.chunk.length r.pkgSize = some (s', packets) := by
  simp only [bufferStep] at h
  split_ifs at h with hn
  refine ⟨hn, ?_⟩
  simp only [SessionImpl.processRead, Bool.not_false, if_true, Option.map_map, Option.map_eq_some_iff] at h
  obtain ⟨⟨s'', packets⟩, hs, rfl⟩ := h
  exact ⟨packets, hs⟩

theorem bufferStep_isSome {s : SessionImpl} {r : RawRead} (h : 1 ≤ r.chunk.length ∧ r.chunk.length ≤ maxLength) :
    ∃ s', bufferStep s r = some s' := by
  obtain ⟨x, hx⟩ := Option.isSome_iff_exists.1
    (SessionImpl.processRead_isSome (s.readInto r.chunk) false r.chunk.length r.pkgSize)
  exact ⟨x.1, by rw [bufferStep, if_pos h, hx]; rfl⟩

/-- an empty buffer stays empty or takes the bytes of the read -/
theorem bufferStep_first {s s' : SessionImpl} {r : RawRead} (hinc : s.incBuffer_ = []) (h : bufferStep s r = some s') :
    s'.incBuffer_ = [] ∨ s'.incBuffer_ = r.chunk := by
  obtain ⟨hn, packets, hs⟩ := bufferStep_some h
  have hin : (s.readInto r.chunk).incBuffer_ = [] := hinc
  simp only [SessionImpl.consume, hin, if_true] at hs
  split_ifs at hs
  · obtain ⟨_, -, heq⟩ := Option.map_eq_some_iff.1 hs
    obtain ⟨rfl, -⟩ := Prod.mk.inj heq
    exact Or.inl hin
  · obtain ⟨rfl, -⟩ := Prod.mk.inj (Option.some.inj hs)
    exact Or.inr (take_overwrite hn.2)
  · obtain ⟨rfl, -⟩ := Prod.mk.inj (Option.some.inj hs)
    exact Or.inl hin

/-- a buffer that is not empty takes the bytes of the read, unless the reader finds it complete or oversized -/
theorem bufferStep_more {s s' : SessionImpl} {r : RawRead} (hinc : s.incBuffer_ ≠ []) (h : bufferStep s r = some s') :
    s'.incBuffer_ =
      if (isPacketComplete (s.incBuffer_ ++ r.chunk) r.pkgSize).1 = true ∨
          maxPacketSize < (isPacketComplete (s.incBuffer_ ++ r.chunk) r.pkgSize).2 then []
      else s.incBuffer_ ++ r.chunk := by
  obtain ⟨hn, packets, hs⟩ := bufferStep_some h
  have hin : (s.readInto r.chunk).incBuffer_ = s.incBuffer_ := rfl
  have htake : (s.readInto r.chunk).data_.toList.take r.chunk.length = r.chunk := take_overwrite hn.2
  simp only [SessionImpl.consume, hin, hinc, if_false, htake] at hs
  split_ifs at hs with hcomplete hsize
  · obtain ⟨_, -, heq⟩ := Option.map_eq_some_iff.1 hs
    obtain ⟨rfl, -⟩ := Prod.mk.inj heq
    simp only [hcomplete, true_or, if_true]
  · obtain ⟨rfl, -⟩ := Prod.mk.inj (Option.some.inj hs)
    simp only [hsize, or_true, if_true]
  · obtain ⟨rfl, -⟩ := Prod.mk.inj (Option.some.inj hs)
    simp only [hcomplete, hsize, or_self, Bool.false_eq_true, if_false]

/-- **A read that keeps the magic bytes keeps the bound.** One that does not leaves the buffer astray. -/
theorem bufferStep_bounded {s s' : SessionImpl} {r : RawRead} (h : bufferStep s r = some s') :
    (KeepsMagic s r → Bounded s') ∧ (¬ KeepsMagic s r → Astray s') := by
  have hchunk := (bufferStep_some h).1
  have hmax : maxLength ≤ maxPacketSize.toNat + headerSize := by decide
  by_cases hinc : s.incBuffer_ = []
  · refine ⟨?_, fun hk => absurd (fun hne => absurd hinc hne) hk⟩
    intro _
    rcases bufferStep_first hinc h with hb | hb
    · rw [Bounded, hb]; exact Nat.zero_le _
    · rw [Bounded, hb]; omega
  · have hmore := bufferStep_more hinc h
    have hpos : 0 < s.incBuffer_.length := List.length_pos_iff.2 hinc
    refine ⟨?_, ?_⟩
    · intro hk
      rw [Bounded, hmore]
      split_ifs with hdrop
      · exact Nat.zero_le _
      · rw [not_or] at hdrop
        rcases hk hinc with hmagic | hpkg
        · exact length_le_of_incomplete hmagic (Bool.eq_false_iff.2 hdrop.1) hdrop.2
        · -- without the magic bytes the reader leaves `pkgSize` as it was
          by_cases hmagic : hasMagic (s.incBuffer_ ++ r.chunk) = true
          · exact length_le_of_incomplete hmagic (Bool.eq_false_iff.2 hdrop.1) hdrop.2
          · rw [isPacketComplete_no_magic (Bool.eq_false_iff.2 hmagic)] at hdrop
            exact absurd hpkg hdrop.2
    · intro hk
      simp only [KeepsMagic, hinc, ne_eq, not_false_eq_true, forall_const, not_or] at hk
      have hmagic := Bool.eq_false_iff.2 hk.1
      rw [isPacketComplete_no_magic hmagic] at hmore
      simp only [Bool.false_eq_true, hk.2, or_self, if_false] at hmore
      refine ⟨?_, by rw [hmore]; exact hmagic⟩
      rw [hmore, List.length_append]
      omega

/-! ## A buffer that is astray -/

/-- the byte `X`, in front of a `pkgSize` that happens to be zero -/
def strayByte : RawRead := ⟨[0x58], 0⟩

theorem bufferStep_astray {s s' : SessionImpl} (hs : Astray s) (h : bufferStep s strayByte = some s') :
    Astray s' ∧ s'.incBuffer_.length = s.incBuffer_.length + 1 := by
  obtain ⟨hlen, hmagic⟩ := hs
  have hinc : s.incBuffer_ ≠ [] := List.length_pos_iff.1 (by omega)
  have hmagic' : hasMagic (s.incBuffer_ ++ strayByte.chunk) = false := by rw [hasMagic_append hlen, hmagic]
  have hmore := bufferStep_more hinc h
  rw [isPacketComplete_no_magic hmagic', if_neg (by decide)] at hmore
  rw [Astray, hmore]
  refine ⟨⟨?_, hmagic'⟩, ?_⟩
  · rw [List.length_append]; omega
  · simp [strayByte]

/-- a buffer that is astray grows by every byte that comes -/
theorem astray_grows {s : SessionImpl} (hs : Astray s) (n : ℕ) :
    ∃ t, run bufferStep s (List.replicate n strayByte) = some t ∧ t.incBuffer_.length = s.incBuffer_.length + n := by
  induction n generalizing s with
  | zero => exact ⟨s, rfl, rfl⟩
  | succ n ih =>
    obtain ⟨u, hu⟩ := bufferStep_isSome (s := s) (r := strayByte) (by decide)
    obtain ⟨hastray, hlen⟩ := bufferStep_astray hs hu
    obtain ⟨t, ht, htlen⟩ := ih hastray
    refine ⟨t, ?_, by omega⟩
    rw [List.replicate_succ]
    exact run_cons_some.2 ⟨u, hu, ht⟩

/-! ## The bound -/

theorem run_bufferStep_isSome {reads : List RawRead} (h : FitsData reads) (s : SessionImpl) :
    ∃ t, run bufferStep s reads = some t := by
  induction reads generalizing s with
  | nil => exact ⟨s, rfl⟩
  | cons r reads ih =>
    obtain ⟨u, hu⟩ := bufferStep_isSome (s := s) (h r List.mem_cons_self)
    obtain ⟨t, ht⟩ := ih (fun r' hr' => h r' (List.mem_cons_of_mem r hr')) u
    exact ⟨t, run_cons_some.2 ⟨u, hu, ht⟩⟩

/-- **Bounded reassembly buffer.** Whatever `data_` held and whatever the peer sends: if every read that continues a
buffer keeps the magic bytes at its front (or finds a `pkgSize` above `maxPacketSize`), `incBuffer_` never holds more
than `maxPacketSize + headerSize` bytes. If some read does not, then from a beginning of the run on the peer can make
`incBuffer_` as long as it likes. -/
theorem inc_buffer_bounded (data : CharArray maxLength) (reads : List RawRead) (h : FitsData reads) :
    (Along bufferStep KeepsMagic (.new data) reads → Always bufferStep Bounded (.new data) reads) ∧
      (¬ Along bufferStep KeepsMagic (.new data) reads → ∀ n, ∃ before more s, before <+: reads ∧
        run bufferStep (.new data) (before ++ more) = some s ∧ n < s.incBuffer_.length) := by
  have hnew : Bounded (.new data) := Nat.zero_le _
  have hstep : ∀ s r s', Bounded s → bufferStep s r = some s' →
      (KeepsMagic s r → Bounded s') ∧ (¬ KeepsMagic s r → Astray s') := fun _ _ _ _ hs => bufferStep_bounded hs
  refine ⟨?_, ?_⟩
  · intro hA
    exact always_along (fun _ hs => hs) (fun s r s' hs hk h => (hstep s r s' hs h).1 hk) hnew hA
  · intro hA n
    obtain ⟨t, ht⟩ := run_bufferStep_isSome h (.new data)
    rcases along_or_doomed hstep hnew ht with hAlong | ⟨a, b, u, rfl, ha, -, hu⟩
    · exact absurd hAlong hA
    · obtain ⟨s, hs, hlen⟩ := astray_grows hu (n + 1)
      exact ⟨a, List.replicate (n + 1) strayByte, s, ⟨b, rfl⟩, run_append_some ha hs, by omega⟩

/-- a frame of two bytes, its header in two reads and its payload in a third -/
theorem inc_buffer_bounded_frame : Always bufferStep Bounded (.new zeroData)
    [⟨[0x4E, 0x46, 0x00, 0x00], 0⟩, ⟨[0x08, 0x00], 0⟩, ⟨[0x41, 0x42], 0⟩] :=
  (inc_buffer_bounded zeroData _ (by decide)).1 (by decide)

/-- three bytes that leave an `F` in `data_`, then the byte `N`, then `X` for ever -/
def strayReads : List RawRead := [⟨[0x00, 0x46, 0xFF], 0⟩, ⟨[0x4E], 0⟩, strayByte]

theorem strayReads_astray : ∃ s, run bufferStep (.new zeroData) strayReads = some s ∧ s.incBuffer_ = [0x4E, 0x58] :=
  ⟨_, rfl, rfl⟩

/-- **An unbounded buffer.** After these reads `incBuffer_` holds more than `maxPacketSize + headerSize` bytes. -/
theorem inc_buffer_overflow :
    FitsData (strayReads ++ List.replicate (maxPacketSize.toNat + headerSize) strayByte) ∧
      ∃ s, run bufferStep (.new zeroData)
          (strayReads ++ List.replicate (maxPacketSize.toNat + headerSize) strayByte) = some s ∧ ¬ Bounded s := by
  refine ⟨?_, ?_⟩
  · intro r hr
    rcases List.mem_append.1 hr with h | h
    · exact (by decide : FitsData strayReads) r h
    · rw [List.eq_of_mem_replicate h]; decide
  · obtain ⟨u, hu, hinc⟩ := strayReads_astray
    obtain ⟨s, hs, hlen⟩ := astray_grows (s := u) (by rw [Astray, hinc]; decide) (maxPacketSize.toNat + headerSize)
    refine ⟨s, run_append_some hu hs, ?_⟩
    have htwo : u.incBuffer_.length = 2 := by rw [hinc]; rfl
    rw [Bounded]
    omega

end NetFramework
