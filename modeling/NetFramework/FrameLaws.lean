/-
What the two overload families of coreproto.h make of the frames that `createPacket` writes.

- `frame_round_trip_exact`: the array overloads of `isPacketComplete` and `fetchData` always give a payload back; the
  vector overloads recognise every frame, but the vector `fetchData` gives back the empty payload only, because it
  compares `headerSize` and `data.size()` the wrong way round.
-/
import NetFramework.CoreProto

namespace NetFramework
namespace CoreProto

/-! ## Round trips -/

/-- the vector overloads read `p` back from its frame -/
def VectorRoundTrip (p : Bytes) : Prop :=
  ∀ pkgSize, (isPacketComplete (createPacket p) pkgSize).1 = true ∧
    (isPacketComplete (createPacket p) pkgSize).2.toNat = p.length ∧
      fetchData (createPacket p) (isPacketComplete (createPacket p) pkgSize).2 = some p

/-- the array overloads read `p` back from every array that begins with its frame; `size` is an `int` -/
def ArrayRoundTrip (p : Bytes) : Prop :=
  ∀ (size : ℕ) (data : CharArray size) (pkgSize : UInt32), headerSize < size → size < 2147483648 →
    createPacket p <+: data.toList →
      (isPacketCompleteArray data pkgSize).1 = true ∧ (isPacketCompleteArray data pkgSize).2.toNat = p.length ∧
        fetchDataArray data (isPacketCompleteArray data pkgSize).2 = some p

theorem isPacketComplete_createPacket {p : Bytes} (hp : p.length ≤ maxPacketSize.toNat) (pkgSize : UInt32) :
    isPacketComplete (createPacket p) pkgSize = (true, UInt32.ofNat p.length) := by
  have hfit : (UInt32.ofNat p.length).toNat ≤ p.length := (toNat_length hp).le
  rw [createPacket, isPacketComplete_header (length_le_max hp), decide_eq_true hfit]

theorem fetchData_createPacket {p : Bytes} (hp : p.length ≤ maxPacketSize.toNat) :
    fetchData (createPacket p) (UInt32.ofNat p.length) = some [] :=
  fetchData_complete (toNat_length hp).le

theorem array_round_trip {p : Bytes} (hp : p.length ≤ maxPacketSize.toNat) : ArrayRoundTrip p := by
  intro size data pkgSize _ hsize hpre
  obtain ⟨tail, htail⟩ := hpre
  have hd : data.toList = header (UInt32.ofNat p.length) ++ (p ++ tail) := by
    rw [← htail, createPacket, List.append_assoc]
  have hfit : (UInt32.ofNat p.length).toNat ≤ (p ++ tail).length := by
    rw [toNat_length hp, List.length_append]
    omega
  have hlt : size < UInt32.size := hsize.trans (by decide)
  rw [isPacketCompleteArray_header hd (length_le_max hp) hlt, fetchDataArray_header hd hfit, decide_eq_true hfit]
  refine ⟨rfl, toNat_length hp, ?_⟩
  rw [toNat_length hp, List.take_left]

theorem vector_round_trip_iff {p : Bytes} (hp : p.length ≤ maxPacketSize.toNat) : VectorRoundTrip p ↔ p = [] := by
  refine ⟨?_, ?_⟩
  · intro h
    obtain ⟨-, -, hfetch⟩ := h 0
    rw [isPacketComplete_createPacket hp, fetchData_createPacket hp] at hfetch
    exact (Option.some.inj hfetch).symm
  · intro h pkgSize
    rw [isPacketComplete_createPacket hp, fetchData_createPacket hp, h]
    exact ⟨rfl, rfl, rfl⟩

/-- **Frame round trip, exactly.** The array overloads give every payload back. Both families do so if and only if the
payload is empty. -/
theorem frame_round_trip_exact (p : Bytes) (hp : p.length ≤ maxPacketSize.toNat) :
    ArrayRoundTrip p ∧ ((VectorRoundTrip p ∧ ArrayRoundTrip p) ↔ p = []) := by
  have harray := array_round_trip hp
  refine ⟨harray, ?_⟩
  calc VectorRoundTrip p ∧ ArrayRoundTrip p ↔ VectorRoundTrip p := and_iff_left harray
    _ ↔ p = [] := vector_round_trip_iff hp

/-- the empty payload -/
theorem frame_round_trip_empty : VectorRoundTrip [] ∧ ArrayRoundTrip [] :=
  (frame_round_trip_exact [] (by decide)).2.2 rfl

/-- **A payload that is not fetched.** The frame of `A` is complete, with a payload of one byte, and the vector
`fetchData` returns the empty string for it. -/
theorem payload_not_fetched :
    isPacketComplete (createPacket [0x41]) 0 = (true, 1) ∧ fetchData (createPacket [0x41]) 1 = some [] ∧
      ¬ VectorRoundTrip [0x41] := by
  refine ⟨by decide, by decide, ?_⟩
  intro h
  exact absurd (h 0).2.2 (by decide)

end CoreProto
end NetFramework
