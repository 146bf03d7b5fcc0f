/-
The wire frame of coreproto.h: two magic bytes `NF`, the payload length as four bytes in network order, the payload.

`createPacket` writes a frame. `isPacketStart`, `isPacketComplete` and `fetchData` read one; the last two come twice in
the source, for a `std::vector<char>` and for a fixed `char[size]`, and the two versions do not check the same things.
`pkgSize` is a reference parameter: the readers take the value it has on entry and return the one it has on exit.

Every reader lemma below is about a buffer of the form `header n ++ q`: the six header bytes for a payload of length
`n`, then any bytes.
-/
import Mathlib.Tactic
import Mathlib.Data.Vector.Basic

namespace NetFramework

/-- the contents of a `std::string` or a `std::vector<char>` -/
abbrev Bytes := List UInt8

/-- a `char[size]` -/
abbrev CharArray (size : ℕ) := List.Vector UInt8 size

namespace CoreProto

/-! ## Model -/

def headerSize : ℕ := 6
def magicSize : ℕ := 2
/-- 1GB -/
def maxPacketSize : UInt32 := 0x3FFFFFFF

/-- `'N', 'F'` -/
def magic : Bytes := [0x4E, 0x46]

/-- the four bytes `htonl` leaves in memory, most significant first -/
def htonl (n : UInt32) : Bytes :=
  [(n / 16777216).toUInt8, (n / 65536).toUInt8, (n / 256).toUInt8, n.toUInt8]

/-- the number `ntohl` reads from the four bytes at the start of `b` -/
def ntohl (b : Bytes) : UInt32 :=
  (b.getD 0 0).toUInt32 * 16777216 + (b.getD 1 0).toUInt32 * 65536 + (b.getD 2 0).toUInt32 * 256 +
    (b.getD 3 0).toUInt32

/-- the header for a payload of (32-bit) length `n` -/
def header (n : UInt32) : Bytes := magic ++ htonl n

/-- both overloads; `data.size()` is cut to 32 bits by `htonl` -/
def createPacket (data : Bytes) : Bytes := header (UInt32.ofNat data.length) ++ data

def hasMagic (data : Bytes) : Bool := data.getD 0 0 == 0x4E && data.getD 1 0 == 0x46

def sizeField (data : Bytes) : UInt32 := ntohl (data.drop magicSize)

/-- the `char[size]` template -/
def isPacketStart {size : ℕ} (data : CharArray size) : Bool :=
  if size < headerSize then false else hasMagic data.toList

/-- the `std::vector<char>` overload: the result, and `pkgSize` on exit -/
def isPacketComplete (data : Bytes) (pkgSize : UInt32) : Bool × UInt32 :=
  let sz := data.length
  if sz < headerSize then (false, pkgSize)
  else if !hasMagic data then (false, pkgSize)
  else
    let pkgSize := sizeField data
    if maxPacketSize < pkgSize then (false, pkgSize)
    else if sz < (pkgSize + UInt32.ofNat headerSize).toNat then (false, pkgSize)
    else (true, pkgSize)

/-- the `char[size]` template: the whole array counts as data -/
def isPacketCompleteArray {size : ℕ} (data : CharArray size) (pkgSize : UInt32) : Bool × UInt32 :=
  if !hasMagic data.toList then (false, pkgSize)
  else
    let pkgSize := sizeField data.toList
    if maxPacketSize < pkgSize then (false, pkgSize)
    else if UInt32.ofNat size < pkgSize + UInt32.ofNat headerSize then (false, pkgSize)
    else (true, pkgSize)

/-- the bytes at `headerSize .. headerSize + bytes - 1`; `none` if one of them lies outside the buffer -/
def readAt (data : Bytes) (bytes : UInt32) : Option Bytes :=
  if bytes = 0 then some []
  else if headerSize + bytes.toNat ≤ data.length then some ((data.drop headerSize).take bytes.toNat)
  else none

/-- the `std::vector<char>` overload -/
def fetchData (data : Bytes) (bytes : UInt32) : Option Bytes :=
  if headerSize < data.length then some []
  else if data.length + headerSize < bytes.toNat then some []
  else readAt data bytes

/-- the `char[size]` template -/
def fetchDataArray {size : ℕ} (data : CharArray size) (bytes : UInt32) : Option Bytes :=
  if size + headerSize < bytes.toNat then some []
  else readAt data.toList bytes

/-! ## Frames -/

theorem ntohl_htonl (n : UInt32) (q : Bytes) : ntohl (htonl n ++ q) = n := by
  apply UInt32.toNat_inj.1
  have hn := n.toNat_lt
  simp only [ntohl, htonl, List.cons_append, List.nil_append, List.getD_cons_zero, List.getD_cons_succ,
    UInt32.toNat_add, UInt32.toNat_mul, UInt8.toNat_toUInt32, UInt32.toNat_toUInt8, UInt32.toNat_div,
    UInt32.toNat_ofNat, Nat.reduceMod, Nat.reducePow] at *
  omega

@[simp] theorem header_length (n : UInt32) : (header n).length = headerSize := rfl

@[simp] theorem createPacket_length (p : Bytes) : (createPacket p).length = headerSize + p.length := by
  simp [createPacket]

theorem createPacket_ne_nil (p : Bytes) : createPacket p ≠ [] := by
  intro h
  have := congrArg List.length h
  simp [headerSize] at this

@[simp] theorem hasMagic_header (n : UInt32) (q : Bytes) : hasMagic (header n ++ q) = true := rfl

@[simp] theorem sizeField_header (n : UInt32) (q : Bytes) : sizeField (header n ++ q) = n := by
  have : (header n ++ q).drop magicSize = htonl n ++ q := rfl
  rw [sizeField, this, ntohl_htonl]

theorem htonl_ntohl (a b c d : UInt8) (q : Bytes) : htonl (ntohl (a :: b :: c :: d :: q)) = [a, b, c, d] := by
  have ha := a.toNat_lt
  have hb := b.toNat_lt
  have hc := c.toNat_lt
  have hd := d.toNat_lt
  simp only [htonl, ntohl, List.getD_cons_zero, List.getD_cons_succ, List.cons.injEq, and_true,
    ← UInt8.toNat_inj, UInt32.toNat_toUInt8, UInt32.toNat_div, UInt32.toNat_add, UInt32.toNat_mul,
    UInt8.toNat_toUInt32, UInt32.toNat_ofNat, Nat.reduceMod, Nat.reducePow]
  omega

/-- bytes that begin with the magic ones are a header and what it announces -/
theorem eq_header_append {data : Bytes} (hlen : headerSize ≤ data.length) (hmagic : hasMagic data = true) :
    data = header (sizeField data) ++ data.drop headerSize := by
  match data, hlen, hmagic with
  | m :: n :: a :: b :: c :: d :: q, _, hmagic =>
    simp only [hasMagic, List.getD_cons_zero, List.getD_cons_succ, Bool.and_eq_true, beq_iff_eq] at hmagic
    have hsize : sizeField (m :: n :: a :: b :: c :: d :: q) = ntohl (a :: b :: c :: d :: q) := rfl
    rw [hsize, header, htonl_ntohl, hmagic.1, hmagic.2]
    rfl

/-- a beginning of a frame that has its whole header -/
theorem prefix_header {p got : Bytes} (h : got <+: createPacket p) (hl : headerSize ≤ got.length) :
    ∃ q, got = header (UInt32.ofNat p.length) ++ q ∧ q <+: p := by
  obtain ⟨more, hmore⟩ := h
  rw [createPacket] at hmore
  obtain ⟨q, hq⟩ := List.prefix_of_prefix_length_le ⟨p, rfl⟩ ⟨more, hmore⟩ (by simpa using hl)
  refine ⟨q, hq.symm, more, ?_⟩
  rw [← hq, List.append_assoc, List.append_cancel_left_eq] at hmore
  exact hmore

/-- a length that fits is not changed by the conversion to 32 bits -/
theorem toNat_length {p : Bytes} (h : p.length ≤ maxPacketSize.toNat) : (UInt32.ofNat p.length).toNat = p.length := by
  have : maxPacketSize.toNat = 1073741823 := rfl
  rw [UInt32.toNat_ofNat']
  omega

theorem length_le_max {p : Bytes} (h : p.length ≤ maxPacketSize.toNat) : UInt32.ofNat p.length ≤ maxPacketSize := by
  rw [UInt32.le_iff_toNat_le, toNat_length h]; exact h

/-- below `maxPacketSize` the sum `pkgSize + headerSize` does not wrap -/
theorem toNat_add_header {n : UInt32} (h : n ≤ maxPacketSize) :
    (n + UInt32.ofNat headerSize).toNat = n.toNat + headerSize := by
  have h1 : n.toNat ≤ 1073741823 := UInt32.le_iff_toNat_le.1 h
  rw [UInt32.toNat_add, UInt32.toNat_ofNat']
  simp only [headerSize]
  omega

/-! ## The readers on a header -/

theorem isPacketComplete_short {data : Bytes} (h : data.length < headerSize) (pkgSize : UInt32) :
    isPacketComplete data pkgSize = (false, pkgSize) := by
  simp [isPacketComplete, h]

theorem isPacketComplete_header {n : UInt32} (hn : n ≤ maxPacketSize) (q : Bytes) (pkgSize : UInt32) :
    isPacketComplete (header n ++ q) pkgSize = (decide (n.toNat ≤ q.length), n) := by
  have hl : ¬ (header n ++ q).length < headerSize := by simp
  have hmax : ¬ maxPacketSize < n := by rwa [UInt32.not_lt]
  have hsum : (header n ++ q).length < (n + UInt32.ofNat headerSize).toNat ↔ ¬ n.toNat ≤ q.length := by
    rw [toNat_add_header hn]; simp; omega
  simp only [isPacketComplete, hl, if_false, hasMagic_header, Bool.not_true, Bool.false_eq_true, sizeField_header,
    hmax, hsum]
  split_ifs with h <;> simp [h]

theorem isPacketCompleteArray_header {size : ℕ} {data : CharArray size} {n : UInt32} {q : Bytes}
    (hd : data.toList = header n ++ q) (hn : n ≤ maxPacketSize) (hs : size < UInt32.size) (pkgSize : UInt32) :
    isPacketCompleteArray data pkgSize = (decide (n.toNat ≤ q.length), n) := by
  have hmax : ¬ maxPacketSize < n := by rwa [UInt32.not_lt]
  have hlen : size = headerSize + q.length := by
    have := data.toList_length
    rw [hd] at this
    simpa using this.symm
  have hsum : UInt32.ofNat size < n + UInt32.ofNat headerSize ↔ ¬ n.toNat ≤ q.length := by
    rw [UInt32.lt_iff_toNat_lt, toNat_add_header hn, UInt32.toNat_ofNat', Nat.mod_eq_of_lt hs]; omega
  simp only [isPacketCompleteArray, hd, hasMagic_header, Bool.not_true, Bool.false_eq_true, if_false,
    sizeField_header, hmax, hsum]
  split_ifs with h <;> simp [h]

/-- the array overload of `fetchData` returns the payload of a frame that is all there -/
theorem fetchDataArray_header {size : ℕ} {data : CharArray size} {n : UInt32} {q : Bytes}
    (hd : data.toList = header n ++ q) (hq : n.toNat ≤ q.length) :
    fetchDataArray data n = some (q.take n.toNat) := by
  have hlen : size = headerSize + q.length := by
    have := data.toList_length
    rw [hd] at this
    simpa using this.symm
  have h1 : ¬ size + headerSize < n.toNat := by omega
  have h2 : headerSize + n.toNat ≤ data.toList.length := by rw [hd]; simp [hq]
  simp only [fetchDataArray, h1, if_false, readAt, h2, if_true]
  split_ifs with h0
  · simp [h0]
  · rw [hd, List.drop_left' (header_length n)]

/-- the vector overload of `fetchData` returns nothing for a buffer longer than the header, the size of `headerSize`
and `data.size()` being compared the wrong way round -/
theorem fetchData_long {data : Bytes} (h : headerSize < data.length) (bytes : UInt32) :
    fetchData data bytes = some [] := by
  simp [fetchData, h]

theorem fetchData_zero (data : Bytes) : fetchData data 0 = some [] := by
  simp only [fetchData, readAt]
  split_ifs <;> rfl

/-- on a complete packet the vector overload of `fetchData` returns the empty string, whatever the payload is -/
theorem fetchData_complete {n : UInt32} {q : Bytes} (hq : n.toNat ≤ q.length) :
    fetchData (header n ++ q) n = some [] := by
  by_cases h : headerSize < (header n ++ q).length
  · exact fetchData_long h n
  · have h0 : n = 0 := by
      apply UInt32.toNat_inj.1
      simp at h
      simp [h] at hq
      simp [hq]
    subst h0
    exact fetchData_zero _

end CoreProto
end NetFramework
