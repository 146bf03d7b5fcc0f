/-
The readers of coreproto.h against the frames that `createPacket` writes, for all buffers and all payloads.

- `frame_grammar`: the vector `isPacketComplete` accepts a buffer if and only if it begins with the frame of a payload
  of at most `maxPacketSize` bytes, and reports that payload's length. No proper beginning of a frame is accepted, and
  an accepted buffer stays accepted when more bytes arrive.
- `length_honest_iff`: `createPacket` cuts the length to 32 bits and checks nothing, so the receiver is told a wrong
  length for exactly the payloads of `2 ^ 32` bytes or more whose remaining 32 bits pass for a length.
- `fetch_within_iff`: the guards of the two versions of `fetchData` let a read outside the buffer through, the vector's
  because it is turned round, the array's because it adds `headerSize` where it should take it away.
-/
import NetFramework.CoreProto

namespace NetFramework
namespace CoreProto

/-! ## Accepted buffers -/

/-- what an accepted buffer has passed -/
theorem isPacketComplete_accepted {d : Bytes} {pkgSize n : UInt32} (h : isPacketComplete d pkgSize = (true, n)) :
    headerSize ≤ d.length ∧ hasMagic d = true ∧ sizeField d = n ∧ n ≤ maxPacketSize := by
  simp only [isPacketComplete] at h
  split_ifs at h with hlen hmagic hmax hsum
  · cases h
  · cases h
  · cases h
  · cases h
  · obtain rfl := (Prod.mk.inj h).2
    exact ⟨not_lt.1 hlen, by simpa using hmagic, rfl, UInt32.not_lt.1 hmax⟩

theorem accepted_eq {r : Bool × UInt32} (h : r.1 = true) : r = (true, r.2) := Prod.ext h rfl

/-! ## The grammar -/

/-- `d` begins with the frame of a payload of `n` bytes -/
def Framed (d : Bytes) (n : UInt32) : Prop :=
  ∃ p rest : Bytes, p.length = n.toNat ∧ n ≤ maxPacketSize ∧ d = createPacket p ++ rest

theorem isPacketComplete_iff (d : Bytes) (pkgSize n : UInt32) :
    isPacketComplete d pkgSize = (true, n) ↔ Framed d n := by
  refine ⟨?_, ?_⟩
  · intro h
    obtain ⟨hlen, hmagic, hsize, hmax⟩ := isPacketComplete_accepted h
    have hd := eq_header_append hlen hmagic
    rw [hsize] at hd
    generalize d.drop headerSize = q at hd
    rw [hd, isPacketComplete_header hmax, Prod.mk.injEq, decide_eq_true_eq] at h
    have htake : (q.take n.toNat).length = n.toNat := List.length_take_of_le h.1
    refine ⟨q.take n.toNat, q.drop n.toNat, htake, hmax, ?_⟩
    calc d = header n ++ (q.take n.toNat ++ q.drop n.toNat) := by rw [List.take_append_drop, hd]
      _ = createPacket (q.take n.toNat) ++ q.drop n.toNat := by
        rw [createPacket, htake, UInt32.ofNat_toNat, List.append_assoc]
  · intro h
    obtain ⟨p, rest, hp, hmax, rfl⟩ := h
    have hfit : n.toNat ≤ (p ++ rest).length := by rw [List.length_append]; omega
    rw [createPacket, hp, UInt32.ofNat_toNat, List.append_assoc, isPacketComplete_header hmax, decide_eq_true hfit]

theorem Framed.append {d : Bytes} {n : UInt32} (h : Framed d n) (more : Bytes) : Framed (d ++ more) n := by
  obtain ⟨p, rest, hp, hmax, rfl⟩ := h
  exact ⟨p, rest ++ more, hp, hmax, List.append_assoc _ _ _⟩

/-- a framed buffer is at least as long as the frame -/
theorem Framed.length_le {d : Bytes} {n : UInt32} (h : Framed d n) : headerSize + n.toNat ≤ d.length := by
  obtain ⟨p, rest, hp, -, rfl⟩ := h
  rw [List.length_append, createPacket_length]
  omega

/-- a frame whose length field is right begins with no shorter one -/
theorem not_framed_prefix {p q : Bytes} (hp : p.length < UInt32.size) (hq : q <+: createPacket p)
    (hne : q ≠ createPacket p) (n : UInt32) : ¬ Framed q n := by
  intro h
  have hlt : q.length < headerSize + p.length := by
    apply lt_of_le_of_ne
    · simpa using hq.length_le
    · intro he
      exact hne (hq.eq_of_length (by simpa using he))
  have hlong := h.length_le
  obtain ⟨r, rfl, -⟩ := prefix_header hq (by omega)
  obtain ⟨-, -, hsize, -⟩ := isPacketComplete_accepted ((isPacketComplete_iff _ 0 n).2 h)
  have hlen : (UInt32.ofNat p.length).toNat = p.length := by
    rw [UInt32.toNat_ofNat', Nat.mod_eq_of_lt hp]
  rw [sizeField_header] at hsize
  rw [← hsize, hlen] at hlong
  omega

theorem incomplete_prefix {p q : Bytes} (hp : p.length < UInt32.size) (hq : q <+: createPacket p)
    (hne : q ≠ createPacket p) (pkgSize : UInt32) : (isPacketComplete q pkgSize).1 = false := by
  by_contra hc
  rw [Bool.not_eq_false] at hc
  exact not_framed_prefix hp hq hne _ ((isPacketComplete_iff q pkgSize _).1 (accepted_eq hc))

/-- **The frame grammar.** A buffer is accepted if and only if it begins with a frame, whatever `pkgSize` held before;
the sum that is compared with its size does not wrap. So no proper beginning of a frame is accepted, and an accepted
buffer stays accepted, with the same size. -/
theorem frame_grammar (d : Bytes) (pkgSize n : UInt32) :
    (isPacketComplete d pkgSize = (true, n) ↔
      ∃ p rest : Bytes, p.length = n.toNat ∧ n ≤ maxPacketSize ∧ d = createPacket p ++ rest) ∧
      (n ≤ maxPacketSize → (n + UInt32.ofNat headerSize).toNat = n.toNat + headerSize) ∧
      (∀ p q : Bytes, p.length < UInt32.size → q <+: createPacket p → q ≠ createPacket p →
        (isPacketComplete q pkgSize).1 = false) ∧
      (isPacketComplete d pkgSize = (true, n) →
        ∀ more, isPacketComplete (d ++ more) pkgSize = (true, n)) := by
  refine ⟨isPacketComplete_iff d pkgSize n, toNat_add_header, ?_, ?_⟩
  · intro p q hp hq hne
    exact incomplete_prefix hp hq hne pkgSize
  · intro h more
    rw [isPacketComplete_iff] at h ⊢
    exact h.append more

/-! ## Lengths that do not fit -/

/-- whatever follows the frame of `p`, it is rejected or its length is reported as it is -/
def LengthHonest (p : Bytes) : Prop :=
  ∀ (rest : Bytes) (pkgSize : UInt32),
    (isPacketComplete (createPacket p ++ rest) pkgSize).1 = false ∨
      (isPacketComplete (createPacket p ++ rest) pkgSize).2.toNat = p.length

/-- `htonl(data.size())` keeps the last 32 bits of the size -/
theorem toNat_ofNat_length (p : Bytes) : (UInt32.ofNat p.length).toNat = p.length % UInt32.size := UInt32.toNat_ofNat'

theorem sizeField_createPacket (p rest : Bytes) :
    sizeField (createPacket p ++ rest) = UInt32.ofNat p.length := by
  rw [createPacket, List.append_assoc, sizeField_header]

/-- an accepted frame is reported with its length modulo `2 ^ 32` -/
theorem reported_length {p rest : Bytes} {pkgSize : UInt32}
    (h : (isPacketComplete (createPacket p ++ rest) pkgSize).1 = true) :
    (isPacketComplete (createPacket p ++ rest) pkgSize).2.toNat = p.length % UInt32.size ∧
      p.length % UInt32.size ≤ maxPacketSize.toNat := by
  obtain ⟨-, -, hsize, hmax⟩ := isPacketComplete_accepted (accepted_eq h)
  have hlen : (isPacketComplete (createPacket p ++ rest) pkgSize).2.toNat = p.length % UInt32.size := by
    rw [← hsize, sizeField_createPacket, toNat_ofNat_length]
  rw [UInt32.le_iff_toNat_le, hlen] at hmax
  exact ⟨hlen, hmax⟩

/-- a frame is accepted as soon as its length modulo `2 ^ 32` passes for a length -/
theorem accepted_of_le {p : Bytes} (h : p.length % UInt32.size ≤ maxPacketSize.toNat) (rest : Bytes)
    (pkgSize : UInt32) :
    isPacketComplete (createPacket p ++ rest) pkgSize = (true, UInt32.ofNat p.length) := by
  have hmax : UInt32.ofNat p.length ≤ maxPacketSize := by
    rw [UInt32.le_iff_toNat_le, toNat_ofNat_length]
    exact h
  have hfit : (UInt32.ofNat p.length).toNat ≤ (p ++ rest).length := by
    have := Nat.mod_le p.length UInt32.size
    rw [toNat_ofNat_length, List.length_append]
    omega
  rw [createPacket, List.append_assoc, isPacketComplete_header hmax, decide_eq_true hfit]

/-- **Honest lengths, exactly.** A frame is rejected or has its payload's own length reported if and only if the payload
is shorter than `2 ^ 32` bytes, or the last 32 bits of its length are more than `maxPacketSize`. -/
theorem length_honest_iff (p : Bytes) :
    LengthHonest p ↔ p.length < UInt32.size ∨ maxPacketSize.toNat < p.length % UInt32.size := by
  refine ⟨?_, ?_⟩
  · intro h
    by_contra hc
    rw [not_or, not_lt, not_lt] at hc
    have hacc := accepted_of_le hc.2 [] 0
    rcases h [] 0 with hrej | hlen
    · rw [hacc] at hrej
      cases hrej
    · rw [hacc] at hlen
      have hlt := Nat.mod_lt p.length (by decide : 0 < UInt32.size)
      rw [toNat_ofNat_length] at hlen
      omega
  · intro h rest pkgSize
    cases hc : (isPacketComplete (createPacket p ++ rest) pkgSize).1 with
    | false => exact Or.inl rfl
    | true =>
      obtain ⟨hlen, hmax⟩ := reported_length hc
      rcases h with hlt | hgt
      · rw [Nat.mod_eq_of_lt hlt] at hlen
        exact Or.inr hlen
      · omega

/-- **A frame taken for an empty one.** The frame of `2 ^ 32` zero bytes is accepted with a length of zero. -/
theorem length_lost :
    let p : Bytes := List.replicate 4294967296 0
    (∀ pkgSize, isPacketComplete (createPacket p) pkgSize = (true, 0)) ∧ ¬ LengthHonest p := by
  intro p
  have hlen : p.length = 4294967296 := List.length_replicate
  refine ⟨?_, ?_⟩
  · intro pkgSize
    have h := accepted_of_le (p := p) (by rw [hlen]; decide) [] pkgSize
    rw [List.append_nil, hlen] at h
    exact h
  · intro h
    rcases h [] 0 with hrej | heq
    · rw [accepted_of_le (by rw [hlen]; decide)] at hrej
      cases hrej
    · rw [accepted_of_le (by rw [hlen]; decide), hlen] at heq
      cases heq

/-! ## Reads outside the buffer -/

/-- `r`, fetched from `data`, is empty, or is the requested bytes, all of which lie in the buffer -/
def FetchedWithin (data : Bytes) (bytes : UInt32) (r : Option Bytes) : Prop :=
  r = some [] ∨ (headerSize + bytes.toNat ≤ data.length ∧ r = some ((data.drop headerSize).take bytes.toNat))

theorem readAt_within_iff (data : Bytes) (bytes : UInt32) :
    FetchedWithin data bytes (readAt data bytes) ↔ bytes.toNat = 0 ∨ headerSize + bytes.toNat ≤ data.length := by
  unfold readAt
  by_cases hzero : bytes = 0
  · simp [FetchedWithin, hzero]
  · have hne : bytes.toNat ≠ 0 := by
      intro h
      exact hzero (UInt32.toNat_inj.1 h)
    by_cases hin : headerSize + bytes.toNat ≤ data.length
    · simp only [if_neg hzero, if_pos hin]
      exact ⟨fun _ => Or.inr hin, fun _ => Or.inr ⟨hin, rfl⟩⟩
    · simp [FetchedWithin, hzero, hin, hne]

theorem fetchData_within_iff (data : Bytes) (bytes : UInt32) :
    FetchedWithin data bytes (fetchData data bytes) ↔
      ¬ (data.length ≤ headerSize ∧ 0 < bytes.toNat ∧ bytes.toNat ≤ data.length + headerSize) := by
  unfold fetchData
  by_cases hlong : headerSize < data.length
  · rw [if_pos hlong]
    exact ⟨fun _ h => by omega, fun _ => Or.inl rfl⟩
  · rw [if_neg hlong]
    by_cases hmany : data.length + headerSize < bytes.toNat
    · rw [if_pos hmany]
      exact ⟨fun _ h => by omega, fun _ => Or.inl rfl⟩
    · rw [if_neg hmany, readAt_within_iff]
      omega

theorem fetchDataArray_within_iff {size : ℕ} (data : CharArray size) (bytes : UInt32) :
    FetchedWithin data.toList bytes (fetchDataArray data bytes) ↔
      ¬ (0 < bytes.toNat ∧ size < headerSize + bytes.toNat ∧ bytes.toNat ≤ size + headerSize) := by
  unfold fetchDataArray
  by_cases hmany : size + headerSize < bytes.toNat
  · rw [if_pos hmany]
    exact ⟨fun _ h => by omega, fun _ => Or.inl rfl⟩
  · rw [if_neg hmany, readAt_within_iff, data.toList_length]
    omega

/-- **Reads within the buffer, exactly.** The vector overload reads outside a buffer of at most `headerSize` bytes for
every count up to `headerSize` more than its size, and never outside a longer one. The array overload reads outside the
array for the counts from `size - headerSize + 1` to `size + headerSize`. -/
theorem fetch_within_iff (data : Bytes) {size : ℕ} (array : CharArray size) (bytes : UInt32) :
    (FetchedWithin data bytes (fetchData data bytes) ↔
      ¬ (data.length ≤ headerSize ∧ 0 < bytes.toNat ∧ bytes.toNat ≤ data.length + headerSize)) ∧
      (FetchedWithin array.toList bytes (fetchDataArray array bytes) ↔
        ¬ (0 < bytes.toNat ∧ size < headerSize + bytes.toNat ∧ bytes.toNat ≤ size + headerSize)) :=
  ⟨fetchData_within_iff data bytes, fetchDataArray_within_iff array bytes⟩

/-- **Bytes behind the end.** One byte is read from an empty vector, and two from an array that has one behind the
header. -/
theorem fetch_outside :
    ¬ FetchedWithin [] 1 (fetchData [] 1) ∧
      ¬ FetchedWithin [0x4E, 0x46, 0, 0, 0, 1, 0x41] 2
        (fetchDataArray (⟨[0x4E, 0x46, 0, 0, 0, 1, 0x41], rfl⟩ : CharArray 7) 2) := by
  refine ⟨?_, ?_⟩
  · rw [fetchData_within_iff]
    decide
  · intro h
    exact absurd ((fetchDataArray_within_iff _ _).1 h) (by decide)

end CoreProto
end NetFramework
