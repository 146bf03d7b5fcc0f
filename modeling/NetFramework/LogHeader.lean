/-
The line that `Log::log` of log.cpp writes: 60 characters in front of the message, filled through a pointer that moves
over them.

A C string is given by its characters before the zero. `LogDetails::writePadded` fills a field from its end with the
remainders of a number; `LogDetails::filenameSubStr` goes back over a path.
- `header_eq`: the pointer ends behind the 60 characters, and each of them has been written.
- `log_line`: the line is the header, the message up to its first zero and an end of line.
- `header_wellFormed_iff`: the fields are what they should be, if and only if the thread id, as an `int`, is not negative
  or ends with four zeros, and the first character of the path is not its only separator.
-/
import NetFramework.Library.Cursor
import NetFramework.Library.Decimal
import NetFramework.LogFormat

namespace NetFramework
namespace Log

open Cursor

/-! ## Model -/

/-- a blank -/
abbrev blank : UInt8 := 32

/-- the digit `0` -/
abbrev zeroDigit : UInt8 := 48

/-- `'0' + remainder`, as a `char` -/
def digitChar (remainder : ℤ) : UInt8 := UInt8.ofNat (48 + remainder).toNat

/-- the loop of `writePadded`, over what is left of the width; `later` if `i > 0`. The remainder and the quotient have
the sign of the number. -/
def padLoop (pad : UInt8) : ℕ → Bool → ℤ → List UInt8 → ℕ → Option (List UInt8)
  | 0, _, _, area, _ => some area
  | _ + 1, _, _, _, 0 => none
  | width + 1, later, number, area, pos + 1 =>
    if number = 0 ∧ later then do
      padLoop pad width true number (← store area pos pad) pos
    else do
      padLoop pad width true (number.tdiv 10) (← store area pos (digitChar (number.tmod 10))) pos

def writePadded (number : ℤ) (width : ℕ) (pad : UInt8) (dest : Cursor UInt8) : Option (Cursor UInt8) :=
  (padLoop pad width false number dest.area (dest.pos + width)).map fun area => ⟨area, dest.pos + width⟩

/-- `/` or `\` -/
def isSeparator (c : UInt8) : Bool := c == 47 || c == 92

/-- the loop of `filenameSubStr`, from the index `pos` back; at the end of the string there is the zero -/
def filenameLoop (filePath : Bytes) : ℕ → ℕ
  | 0 => 0
  | pos + 1 => if filePath[pos + 1]?.any isSeparator then pos + 2 else filenameLoop filePath pos

def filenameSubStr (filePath : Bytes) : Bytes := filePath.drop (filenameLoop filePath filePath.length)

/-- the loop that writes the file's name -/
def writeFilename : ℕ → Bytes → Cursor UInt8 → Option (Cursor UInt8)
  | 0, _, pos => some pos
  | n + 1, [], pos => do writeFilename n [] (← put blank pos)
  | n + 1, c :: filename, pos => do writeFilename n filename (← put c pos)

/-- the `tm` of the local time and the microseconds, for a year of four digits -/
structure LocalTime where
  tm_year : ℤ
  tm_mon : ℤ
  tm_mday : ℤ
  tm_hour : ℤ
  tm_min : ℤ
  tm_sec : ℤ
  tv_usec : ℤ
  year : 1000 ≤ 1900 + tm_year ∧ 1900 + tm_year ≤ 9999
  mon : 0 ≤ tm_mon ∧ tm_mon ≤ 11
  mday : 1 ≤ tm_mday ∧ tm_mday ≤ 31
  hour : 0 ≤ tm_hour ∧ tm_hour ≤ 23
  min : 0 ≤ tm_min ∧ tm_min ≤ 59
  sec : 0 ≤ tm_sec ∧ tm_sec ≤ 60
  usec : 0 ≤ tv_usec ∧ tv_usec ≤ 999999

/-- `(int)getThreadId()` -/
def threadInt (threadId : UInt64) : ℤ := (threadId.toBitVec.setWidth 32).toInt

/-- what is written before the message -/
def writeHeader (level : ℤ) (file : Bytes) (line : ℤ) (time : LocalTime) (threadId : UInt64) (pos : Cursor UInt8) :
    Option (Cursor UInt8) := do
  let pos ← writePadded (1900 + time.tm_year) 4 blank pos
  let pos ← put 45 pos
  let pos ← writePadded (time.tm_mon + 1) 2 zeroDigit pos
  let pos ← put 45 pos
  let pos ← writePadded time.tm_mday 2 zeroDigit pos
  let pos ← put blank pos
  let pos ← writePadded time.tm_hour 2 zeroDigit pos
  let pos ← put 58 pos
  let pos ← writePadded time.tm_min 2 zeroDigit pos
  let pos ← put 58 pos
  let pos ← writePadded time.tm_sec 2 zeroDigit pos
  let pos ← put 46 pos
  let pos ← writePadded (time.tv_usec.tdiv 1000) 3 zeroDigit pos
  let pos ← put blank pos
  let pos ← writePadded level 1 blank pos
  let pos ← put blank pos
  let pos ← put 116 pos
  let pos ← put 58 pos
  let pos ← put blank pos
  let pos ← writePadded (threadInt threadId) 4 blank pos
  let pos ← put blank pos
  let pos ← writeFilename 20 (filenameSubStr file) pos
  let pos ← writePadded line 5 blank pos
  put blank pos

/-- the area that `msg.resize(60)` reserves, after the header is written -/
def header (level : ℤ) (file : Bytes) (line : ℤ) (time : LocalTime) (threadId : UInt64) : Option (Cursor UInt8) :=
  writeHeader level file line time threadId ⟨List.replicate 60 0, 0⟩

/-- what `log` appends to the file if it is open; `fputs` writes up to the first zero -/
def log (opened : Bool) (level : ℤ) (file : Bytes) (line : ℤ) (time : LocalTime) (threadId : UInt64)
    (msgContent : Bytes) : Option Bytes :=
  if opened then do
    let pos ← header level file line time threadId
    return (pos.area ++ msgContent).takeWhile (fun c => c ≠ 0) ++ [10]
  else some []

/-! ## What is written -/

/-- the characters of a field, from the last to the first -/
def padReverse (pad : UInt8) : ℕ → Bool → ℤ → Bytes
  | 0, _, _ => []
  | width + 1, later, number =>
    if number = 0 ∧ later then pad :: padReverse pad width true number
    else digitChar (number.tmod 10) :: padReverse pad width true (number.tdiv 10)

/-- a part of the header: a number in a field, fixed characters, or the file of a path -/
inductive Slot where
  | number (n : ℤ) (width : ℕ) (pad : UInt8)
  | text (s : Bytes)
  | file (filePath : Bytes)

namespace Slot

/-- what the code writes -/
def written : Slot → Bytes
  | number n width pad => (padReverse pad width false n).reverse
  | text s => s
  | file filePath => (filenameSubStr filePath).take 20 ++ List.replicate (20 - (filenameSubStr filePath).length) blank

def size : Slot → ℕ
  | number _ width _ => width
  | text s => s.length
  | file _ => 20

/-- no character of the part is a zero -/
def ZeroFree : Slot → Prop
  | number _ _ pad => pad ≠ 0
  | text s => 0 ∉ s
  | file filePath => 0 ∉ filePath

end Slot

/-- the parts of the header -/
def slots (level : ℤ) (file : Bytes) (line : ℤ) (time : LocalTime) (threadId : UInt64) : List Slot :=
  [.number (1900 + time.tm_year) 4 blank, .text [45], .number (time.tm_mon + 1) 2 zeroDigit, .text [45],
    .number time.tm_mday 2 zeroDigit, .text [blank], .number time.tm_hour 2 zeroDigit, .text [58],
    .number time.tm_min 2 zeroDigit, .text [58], .number time.tm_sec 2 zeroDigit, .text [46],
    .number (time.tv_usec.tdiv 1000) 3 zeroDigit, .text [blank], .number level 1 blank, .text [blank], .text [116],
    .text [58], .text [blank], .number (threadInt threadId) 4 blank, .text [blank], .file file, .number line 5 blank,
    .text [blank]]

section Written

variable {pad : UInt8}

@[simp] theorem length_padReverse (pad : UInt8) (width : ℕ) (later : Bool) (number : ℤ) :
    (padReverse pad width later number).length = width := by
  induction width generalizing later number with
  | zero => rfl
  | succ width ih =>
    rw [padReverse]
    split_ifs
    · rw [List.length_cons, ih]
    · rw [List.length_cons, ih]

/-- the loop fills its field backwards -/
theorem padLoop_eq (pad : UInt8) (width : ℕ) (later : Bool) (number : ℤ) (done gap rest : Bytes)
    (h : gap.length = width) :
    padLoop pad width later number (done ++ gap ++ rest) (done.length + width) =
      some (done ++ (padReverse pad width later number).reverse ++ rest) := by
  induction width generalizing later number gap rest with
  | zero =>
    rw [List.eq_nil_of_length_eq_zero h]
    rfl
  | succ width ih =>
    obtain ⟨gap, x, rfl⟩ := (List.eq_nil_or_concat' gap).resolve_left (List.ne_nil_of_length_eq_add_one h)
    have hgap : gap.length = width := by simpa using h
    have hstore : ∀ c, store (done ++ (gap ++ [x]) ++ rest) (done.length + width) c = some (done ++ gap ++ (c :: rest)) := by
      intro c
      rw [← List.append_assoc, List.append_assoc (done ++ gap), List.singleton_append, ← hgap, ← List.length_append,
        store_append]
    rw [← Nat.add_assoc, padLoop, padReverse]
    split_ifs with hzero
    · rw [hstore, Option.bind_eq_bind, Option.bind_some, ih true number gap (pad :: rest) hgap, List.reverse_cons]
      simp only [List.append_assoc, List.singleton_append]
    · rw [hstore, Option.bind_eq_bind, Option.bind_some, ih true _ gap _ hgap, List.reverse_cons]
      simp only [List.append_assoc, List.singleton_append]

theorem writes_writePadded (number : ℤ) (width : ℕ) (pad : UInt8) :
    Writes (writePadded number width pad) (Slot.number number width pad).written := by
  intro done gap rest h
  rw [Slot.written, List.length_reverse, length_padReverse] at h
  rw [writePadded, padLoop_eq pad width false number done gap rest h, Option.map_some, Slot.written,
    List.length_reverse, length_padReverse]

theorem writes_writeFilename (n : ℕ) (filename : Bytes) :
    Writes (writeFilename n filename) (filename.take n ++ List.replicate (n - filename.length) blank) := by
  induction n generalizing filename with
  | zero =>
    rw [List.take_zero, Nat.zero_sub]
    exact writes_none
  | succ n ih =>
    cases filename with
    | nil =>
      have h := (writes_put blank).bind (ih [])
      rwa [List.take_nil, List.nil_append, List.length_nil, Nat.sub_zero, List.singleton_append,
        ← List.replicate_succ] at h
    | cons c filename =>
      have h := (writes_put c).bind (ih filename)
      rwa [← List.append_assoc, List.singleton_append, ← List.take_succ_cons,
        ← Nat.add_sub_add_right n 1 filename.length] at h

@[simp] theorem length_written (slot : Slot) : slot.written.length = slot.size := by
  cases slot with
  | number n width pad => rw [Slot.written, List.length_reverse, length_padReverse, Slot.size]
  | text s => rfl
  | file filePath =>
    rw [Slot.written, List.length_append, List.length_take, List.length_replicate, Slot.size]
    omega

variable {level line : ℤ} {file : Bytes} {time : LocalTime} {threadId : UInt64}

theorem writes_writeHeader (level : ℤ) (file : Bytes) (line : ℤ) (time : LocalTime) (threadId : UInt64) :
    Writes (writeHeader level file line time threadId) ((slots level file line time threadId).map Slot.written).flatten := by
  apply (writes_writePadded _ _ _).bind
  apply (writes_put _).bind
  apply (writes_writePadded _ _ _).bind
  apply (writes_put _).bind
  apply (writes_writePadded _ _ _).bind
  apply (writes_put _).bind
  apply (writes_writePadded _ _ _).bind
  apply (writes_put _).bind
  apply (writes_writePadded _ _ _).bind
  apply (writes_put _).bind
  apply (writes_writePadded _ _ _).bind
  apply (writes_put _).bind
  apply (writes_writePadded _ _ _).bind
  apply (writes_put _).bind
  apply (writes_writePadded _ _ _).bind
  apply (writes_put _).bind
  apply (writes_put _).bind
  apply (writes_put _).bind
  apply (writes_put _).bind
  apply (writes_writePadded _ _ _).bind
  apply (writes_put _).bind
  apply (writes_writeFilename _ _).bind
  apply (writes_writePadded _ _ _).bind
  exact writes_put blank

/-- **The pointer.** It ends behind the 60 characters, and the area consists of what was written to it. -/
theorem header_eq (level : ℤ) (file : Bytes) (line : ℤ) (time : LocalTime) (threadId : UInt64) :
    header level file line time threadId =
        some ⟨((slots level file line time threadId).map Slot.written).flatten, 60⟩ ∧
      ((slots level file line time threadId).map Slot.written).flatten.length = 60 := by
  have hlength : ((slots level file line time threadId).map Slot.written).flatten.length = 60 := by
    rw [List.length_flatten, List.map_map]
    have hsize : List.length ∘ Slot.written = Slot.size := funext length_written
    simp only [hsize, slots, List.map_cons, List.map_nil, Slot.size, List.length_singleton, List.sum_cons, List.sum_nil]
    rfl
  refine ⟨?_, hlength⟩
  rw [header, (writes_writeHeader level file line time threadId).fill (by rw [hlength, List.length_replicate]), hlength]

theorem digitChar_ne_zero (number : ℤ) : digitChar (number.tmod 10) ≠ 0 := by
  have hrange : -9 ≤ number.tmod 10 ∧ number.tmod 10 ≤ 9 := by
    have hlt := Int.tmod_lt_of_pos number (b := 10) (by decide)
    have hneg := Int.lt_tmod_of_pos number (b := 10) (by decide)
    omega
  intro h
  have hnat := congrArg UInt8.toNat h
  rw [digitChar, UInt8.toNat_ofNat', UInt8.toNat_zero] at hnat
  omega

theorem padReverse_zero_free (hpad : pad ≠ 0) (width : ℕ) (later : Bool) (number : ℤ) :
    0 ∉ padReverse pad width later number := by
  induction width generalizing later number with
  | zero => exact List.not_mem_nil
  | succ width ih =>
    rw [padReverse]
    split_ifs
    · exact List.not_mem_cons_of_ne_of_not_mem hpad.symm (ih true number)
    · exact List.not_mem_cons_of_ne_of_not_mem (digitChar_ne_zero number).symm (ih true _)

theorem Slot.ZeroFree.written {slot : Slot} (h : slot.ZeroFree) : 0 ∉ slot.written := by
  cases slot with
  | number n width pad => exact fun hmem => padReverse_zero_free h width false n (List.mem_reverse.1 hmem)
  | text s => exact h
  | file filePath =>
    intro hmem
    rcases List.mem_append.1 hmem with hmem | hmem
    · exact h (List.drop_subset _ _ (List.take_subset _ _ hmem))
    · cases List.eq_of_mem_replicate hmem

theorem slots_zeroFree (hfile : 0 ∉ file) : ∀ slot ∈ slots level file line time threadId, slot.ZeroFree := by
  have hblank : blank ≠ 0 := by decide
  have hzero : zeroDigit ≠ 0 := by decide
  simp [slots, Slot.ZeroFree, hfile, hblank, hzero, hblank.symm]

/-- **The line.** An open file gets the header, the message up to its first zero, and an end of line. -/
theorem log_line (hfile : 0 ∉ file) (msgContent : Bytes) :
    log true level file line time threadId msgContent =
      some (((slots level file line time threadId).map Slot.written).flatten ++
        msgContent.takeWhile (fun c => c ≠ 0) ++ [10]) := by
  have hheader : ∀ c ∈ ((slots level file line time threadId).map Slot.written).flatten, decide (c ≠ 0) = true := by
    intro c hc
    obtain ⟨text, htext, hmem⟩ := List.mem_flatten.1 hc
    obtain ⟨slot, hslot, rfl⟩ := List.mem_map.1 htext
    refine decide_eq_true ?_
    rintro rfl
    exact (slots_zeroFree hfile slot hslot).written hmem
  rw [log, if_pos rfl, (header_eq level file line time threadId).1, Option.bind_eq_bind, Option.bind_some,
    List.takeWhile_append_of_pos hheader]
  rfl

end Written

/-! ## Numbers -/

/-- what a field reads back as: the digits behind the pad characters -/
def readField (pad : UInt8) (text : Bytes) : ℕ := Decimal.value (text.dropWhile fun c => c == pad)

/-- a field of digits and pad characters, which is read as the number, as far as the field is wide enough for it -/
structure NumericField (number : ℤ) (width : ℕ) (pad : UInt8) (text : Bytes) : Prop where
  length : text.length = width
  chars : ∀ c ∈ text, Decimal.isDigit c = true ∨ c = pad
  value : (readField pad text : ℤ) = number % 10 ^ width

section Numbers

variable {pad : UInt8}

/-- a pad character counts for nothing -/
theorem pad_value (hpad : pad = blank ∨ pad = zeroDigit) : pad.toNat - 48 = 0 := by
  rcases hpad with rfl | rfl
  · rfl
  · rfl

theorem readField_concat (hpad : pad = blank ∨ pad = zeroDigit) (s : Bytes) (c : UInt8) :
    readField pad (s ++ [c]) = 10 * readField pad s + (c.toNat - 48) := by
  rw [readField, readField, List.dropWhile_append]
  split_ifs with hempty
  · rw [List.isEmpty_iff] at hempty
    rw [hempty, List.dropWhile_cons]
    by_cases hc : c = pad
    · rw [if_pos (beq_iff_eq.2 hc), hc, pad_value hpad]
      rfl
    · rw [if_neg fun h => hc (beq_iff_eq.1 h)]
      exact Decimal.value_concat [] c
  · exact Decimal.value_concat _ c

theorem padReverse_natCast (pad : UInt8) (width : ℕ) (later : Bool) (n : ℕ) :
    padReverse pad (width + 1) later n =
      if n = 0 ∧ later then pad :: padReverse pad width true n
      else Decimal.digit (n % 10) :: padReverse pad width true (n / 10 : ℕ) := by
  simp only [padReverse, Int.natCast_eq_zero]
  rfl

theorem padReverse_chars (pad : UInt8) (width : ℕ) (later : Bool) (n : ℕ) :
    ∀ c ∈ padReverse pad width later n, Decimal.isDigit c = true ∨ c = pad := by
  induction width generalizing later n with
  | zero => exact fun c hc => absurd hc List.not_mem_nil
  | succ width ih =>
    rw [padReverse_natCast]
    intro c hc
    split_ifs at hc
    · rcases List.mem_cons.1 hc with rfl | hc
      · exact Or.inr rfl
      · exact ih true n c hc
    · rcases List.mem_cons.1 hc with rfl | hc
      · exact Or.inl (Decimal.isDigit_digit (Nat.mod_lt n (by decide)))
      · exact ih true (n / 10) c hc

theorem padReverse_value (hpad : pad = blank ∨ pad = zeroDigit) (width : ℕ) (later : Bool) (n : ℕ) :
    readField pad (padReverse pad width later n).reverse = n % 10 ^ width := by
  induction width generalizing later n with
  | zero => rw [Nat.pow_zero, Nat.mod_one]; rfl
  | succ width ih =>
    rw [padReverse_natCast]
    split_ifs with hzero
    · obtain ⟨rfl, -⟩ := hzero
      rw [List.reverse_cons, readField_concat hpad, ih, pad_value hpad, Nat.zero_mod, Nat.zero_mod]
    · have hdigit : (Decimal.digit (n % 10)).toNat - 48 = n % 10 := by
        rw [Decimal.digit_toNat (Nat.mod_lt n (by decide)), Nat.add_sub_cancel_left]
      calc readField pad (Decimal.digit (n % 10) :: padReverse pad width true (n / 10 : ℕ)).reverse
          = 10 * (n / 10 % 10 ^ width) + n % 10 := by rw [List.reverse_cons, readField_concat hpad, ih, hdigit]
        _ = n % (10 * 10 ^ width) := by rw [Nat.mod_mul, Nat.add_comm]
        _ = n % 10 ^ (width + 1) := by rw [Nat.pow_succ']

/-- of a negative number the remainders are negative -/
theorem padReverse_neg (pad : UInt8) (width : ℕ) (later : Bool) {n : ℕ} (hn : n ≠ 0) :
    padReverse pad (width + 1) later (-n) =
      digitChar (-(n % 10 : ℕ)) :: padReverse pad width true (-(n / 10 : ℕ)) := by
  have hne : ¬ ((-n : ℤ) = 0 ∧ later) := fun h => hn (by simpa using h.1)
  rw [padReverse, if_neg hne, Int.neg_tmod, Int.neg_tdiv]
  rfl

/-- and `'0'` with a negative remainder is no digit -/
theorem digitChar_neg {d : ℕ} (hd : d < 10) (hne : d ≠ 0) :
    Decimal.isDigit (digitChar (-d)) = false ∧ digitChar (-d) ≠ blank ∧ digitChar (-d) ≠ zeroDigit := by
  have h : ∀ d : Fin 10, d ≠ 0 → Decimal.isDigit (digitChar (-(d : ℕ))) = false ∧
      digitChar (-(d : ℕ)) ≠ blank ∧ digitChar (-(d : ℕ)) ≠ zeroDigit := by decide
  exact h ⟨d, hd⟩ fun he => hne (congrArg Fin.val he)

theorem padReverse_neg_chars (hpad : pad = blank ∨ pad = zeroDigit) (width : ℕ) (later : Bool) {n : ℕ} (hn : n ≠ 0)
    (h : ∀ c ∈ padReverse pad width later (-n), Decimal.isDigit c = true ∨ c = pad) : 10 ^ width ∣ n := by
  induction width generalizing later n with
  | zero => exact one_dvd n
  | succ width ih =>
    rw [padReverse_neg pad width later hn] at h
    have hlast : n % 10 = 0 := by
      by_contra hne
      obtain ⟨hdigit, hblank, hzero⟩ := digitChar_neg (Nat.mod_lt n (by decide)) hne
      rcases h _ List.mem_cons_self with hc | hc
      · exact Bool.false_ne_true (hdigit.symm.trans hc)
      · rcases hpad with rfl | rfl
        · exact hblank hc
        · exact hzero hc
    have hrest := ih true (n := n / 10) (by omega) fun c hc => h c (List.mem_cons_of_mem _ hc)
    calc 10 ^ (width + 1) = 10 * 10 ^ width := Nat.pow_succ'
      _ ∣ 10 * (n / 10) := Nat.mul_dvd_mul_left 10 hrest
      _ = n := Nat.mul_div_cancel' (Nat.dvd_of_mod_eq_zero hlast)

theorem padReverse_neg_zeros (pad : UInt8) (width : ℕ) (later : Bool) {n : ℕ} (hn : n ≠ 0) (h : 10 ^ width ∣ n) :
    padReverse pad width later (-n) = List.replicate width zeroDigit := by
  induction width generalizing later n with
  | zero => rfl
  | succ width ih =>
    obtain ⟨k, rfl⟩ := h
    have hdiv : 10 ^ (width + 1) * k / 10 = 10 ^ width * k := by
      rw [Nat.pow_succ', Nat.mul_assoc, Nat.mul_div_cancel_left _ (by decide)]
    have hmod : 10 ^ (width + 1) * k % 10 = 0 := by rw [Nat.pow_succ', Nat.mul_assoc, Nat.mul_mod_right]
    have hne : 10 ^ width * k ≠ 0 := fun h => hn (by rw [Nat.pow_succ', Nat.mul_assoc, h, Nat.mul_zero])
    rw [padReverse_neg pad width later hn, hmod, hdiv, ih true hne (Nat.dvd_mul_right _ _), List.replicate_succ]
    rfl

theorem readField_zeros (hpad : pad = blank ∨ pad = zeroDigit) (width : ℕ) :
    readField pad (List.replicate width zeroDigit) = 0 := by
  induction width with
  | zero => rfl
  | succ width ih =>
    rw [List.replicate_succ', readField_concat hpad, ih]
    rfl

/-- **A field.** What `writePadded` writes is a field for the number if and only if the number is not negative, or the
last digits that the field has room for are zeros. -/
theorem numericField_iff (hpad : pad = blank ∨ pad = zeroDigit) (number : ℤ) (width : ℕ) :
    NumericField number width pad (padReverse pad width false number).reverse ↔
      0 ≤ number ∨ (10 : ℤ) ^ width ∣ number := by
  have hlength : (padReverse pad width false number).reverse.length = width := by
    rw [List.length_reverse, length_padReverse]
  by_cases hnumber : 0 ≤ number
  · obtain ⟨n, rfl⟩ := Int.eq_ofNat_of_zero_le hnumber
    refine iff_of_true ⟨hlength, ?_, ?_⟩ (Or.inl hnumber)
    · intro c hc
      exact padReverse_chars pad width false n c (List.mem_reverse.1 hc)
    · rw [padReverse_value hpad]
      exact_mod_cast rfl
  · obtain ⟨n, hn⟩ := Int.eq_ofNat_of_zero_le (Int.neg_nonneg.2 (Int.le_of_lt (not_le.1 hnumber)))
    obtain rfl : number = -n := by rw [← hn, neg_neg]
    have hne : n ≠ 0 := by
      rintro rfl
      exact hnumber le_rfl
    have hdvd : (10 : ℤ) ^ width ∣ -n ↔ 10 ^ width ∣ n := by
      rw [dvd_neg]
      exact_mod_cast Int.natCast_dvd_natCast (m := 10 ^ width) (n := n)
    rw [or_iff_right hnumber, hdvd]
    refine ⟨?_, ?_⟩
    · intro h
      exact padReverse_neg_chars hpad width false hne fun c hc => h.chars c (List.mem_reverse.2 hc)
    · intro h
      have hzeros := padReverse_neg_zeros pad width false hne h
      refine ⟨hlength, ?_, ?_⟩
      · intro c hc
        rw [hzeros, List.reverse_replicate] at hc
        exact Or.inl (List.eq_of_mem_replicate hc ▸ rfl)
      · rw [hzeros, List.reverse_replicate, readField_zeros hpad, Int.emod_eq_zero_of_dvd (hdvd.2 h)]
        rfl

end Numbers

/-! ## The file -/

/-- the longest end of a path without a separator in it -/
structure IsBaseName (filePath s : Bytes) : Prop where
  suffix : s <:+ filePath
  plain : ∀ c ∈ s, isSeparator c = false
  longest : ∀ t, t <:+ filePath → (∀ c ∈ t, isSeparator c = false) → t.length ≤ s.length

/-- the first character of the path is its only separator -/
def RootFile (filePath : Bytes) : Prop :=
  ∃ c base, filePath = c :: base ∧ isSeparator c = true ∧ ∀ d ∈ base, isSeparator d = false

section File

variable {filePath before base s t : Bytes} {c : UInt8}

theorem IsBaseName.unique (hs : IsBaseName filePath s) (ht : IsBaseName filePath t) : s = t := by
  have hle := ht.longest s hs.suffix hs.plain
  have hge := hs.longest t ht.suffix ht.plain
  exact (List.suffix_of_suffix_length_le hs.suffix ht.suffix hle).eq_of_length (Nat.le_antisymm hle hge)

theorem isBaseName_plain (h : ∀ c ∈ filePath, isSeparator c = false) : IsBaseName filePath filePath :=
  ⟨List.suffix_rfl, h, fun _ ht _ => ht.length_le⟩

theorem isBaseName_append (before : Bytes) (hc : isSeparator c = true) (hbase : ∀ d ∈ base, isSeparator d = false) :
    IsBaseName (before ++ c :: base) base := by
  have hsuffix : c :: base <:+ before ++ c :: base := List.suffix_append before (c :: base)
  refine ⟨(List.suffix_cons c base).trans hsuffix, hbase, ?_⟩
  intro t ht hplain
  by_contra hlt
  -- a longer end of the path has the separator in it
  have hmem : c ∈ t := (List.suffix_of_suffix_length_le hsuffix ht (not_le.1 hlt)).subset List.mem_cons_self
  exact Bool.false_ne_true ((hplain c hmem).symm.trans hc)

/-- a path without a separator, or one up to its last separator and from there on -/
theorem path_cases (filePath : Bytes) :
    (∀ c ∈ filePath, isSeparator c = false) ∨
      ∃ before c base, filePath = before ++ c :: base ∧ isSeparator c = true ∧ ∀ d ∈ base, isSeparator d = false := by
  induction filePath with
  | nil => exact Or.inl fun c hc => absurd hc List.not_mem_nil
  | cons c filePath ih =>
    rcases ih with hplain | ⟨before, d, base, rfl, hd, hbase⟩
    · cases hc : isSeparator c with
      | false =>
        refine Or.inl fun d hd => ?_
        rcases List.mem_cons.1 hd with rfl | hd
        · exact hc
        · exact hplain d hd
      | true => exact Or.inr ⟨[], c, filePath, rfl, hc, hplain⟩
    · exact Or.inr ⟨c :: before, d, base, rfl, hd, hbase⟩

/-- the loop passes over what is not a separator -/
theorem filenameLoop_pass {n k : ℕ} (h : ∀ i, n < i → filePath[i]?.any isSeparator = false) :
    filenameLoop filePath (n + k) = filenameLoop filePath n := by
  induction k with
  | zero => rfl
  | succ k ih => rw [← Nat.add_assoc, filenameLoop, h (n + k + 1) (by omega), if_neg Bool.false_ne_true, ih]

theorem any_getElem? (h : ∀ c ∈ filePath, isSeparator c = false) (i : ℕ) : filePath[i]?.any isSeparator = false := by
  cases hi : filePath[i]? with
  | none => rfl
  | some c => exact h c (List.mem_of_getElem? hi)

theorem filenameSubStr_plain (h : ∀ c ∈ filePath, isSeparator c = false) : filenameSubStr filePath = filePath := by
  have hloop : filenameLoop filePath (0 + filePath.length) = 0 := filenameLoop_pass fun i _ => any_getElem? h i
  rw [filenameSubStr, ← Nat.zero_add filePath.length, hloop, List.drop_zero]

/-- **The last separator.** The loop stops behind it, unless it is at the start of the path: there the loop has ended
before it looks. -/
theorem filenameSubStr_append (before : Bytes) (hc : isSeparator c = true) (hbase : ∀ d ∈ base, isSeparator d = false) :
    filenameSubStr (before ++ c :: base) = if before = [] then c :: base else base := by
  have hlength : (before ++ c :: base).length = before.length + (base.length + 1) := List.length_append
  have hpass : filenameLoop (before ++ c :: base) (before.length + (base.length + 1)) =
      filenameLoop (before ++ c :: base) before.length := by
    refine filenameLoop_pass ?_
    intro i hi
    obtain ⟨k, rfl⟩ := Nat.exists_eq_add_of_lt hi
    rw [List.getElem?_append_right (by omega), Nat.add_assoc, Nat.add_sub_cancel_left, List.getElem?_cons_succ]
    exact any_getElem? hbase k
  rw [filenameSubStr, hlength, hpass]
  cases hbefore : before with
  | nil => rfl
  | cons b bs =>
    have hstop : filenameLoop (b :: bs ++ c :: base) (bs.length + 1) = bs.length + 2 := by
      have hget : (b :: bs ++ c :: base)[bs.length + 1]? = some c := by
        rw [List.getElem?_append_right (by simp)]
        simp
      rw [filenameLoop, hget]
      exact if_pos hc
    rw [if_neg (List.cons_ne_nil b bs), List.length_cons, hstop]
    have hsplit : b :: bs ++ c :: base = (b :: bs ++ [c]) ++ base := by simp
    rw [hsplit]
    exact List.drop_left' (by simp)

end File

/-! ## The header -/

/-- what a part of the header should be; the file is the first 20 characters of the base name, or all of it and blanks -/
def Slot.Meets : Slot → Bytes → Prop
  | number n width pad, t => NumericField n width pad t
  | text s, t => t = s
  | file filePath, t => ∃ s, IsBaseName filePath s ∧ t = s.take 20 ++ List.replicate (20 - s.length) blank

/-- the pointer ends behind the 60 characters of the area, which is made up of the parts of the header -/
def WellFormed (level : ℤ) (file : Bytes) (line : ℤ) (time : LocalTime) (threadId : UInt64) : Prop :=
  ∃ texts : List Bytes, header level file line time threadId = some ⟨texts.flatten, 60⟩ ∧ texts.flatten.length = 60 ∧
    List.Forall₂ Slot.Meets (slots level file line time threadId) texts

theorem Slot.Meets.length {slot : Slot} {text : Bytes} (h : slot.Meets text) : text.length = slot.size := by
  cases slot with
  | number n width pad => exact NumericField.length h
  | text s => exact congrArg List.length h
  | file filePath =>
    obtain ⟨s, -, rfl⟩ := h
    rw [List.length_append, List.length_take, List.length_replicate, Slot.size]
    omega

theorem meets_file_iff (filePath : Bytes) :
    (Slot.file filePath).Meets (Slot.file filePath).written ↔ ¬ RootFile filePath := by
  rcases path_cases filePath with hplain | ⟨before, c, base, rfl, hc, hbase⟩
  · refine iff_of_true ⟨filePath, isBaseName_plain hplain, ?_⟩ ?_
    · rw [Slot.written, filenameSubStr_plain hplain]
    · rintro ⟨c, base, rfl, hc, -⟩
      exact Bool.false_ne_true ((hplain c List.mem_cons_self).symm.trans hc)
  · cases before with
    | nil =>
      refine iff_of_false ?_ (not_not_intro ⟨c, base, rfl, hc, hbase⟩)
      rintro ⟨s, hs, htext⟩
      obtain rfl := hs.unique (isBaseName_append [] hc hbase)
      rw [Slot.written, filenameSubStr_append [] hc hbase, if_pos rfl] at htext
      -- the separator is the first character of what is written, and not of the base name
      have hhead := congrArg List.head? htext
      cases s with
      | nil =>
        cases hhead
        cases hc
      | cons d s =>
        cases hhead
        exact Bool.false_ne_true ((hbase c List.mem_cons_self).symm.trans hc)
    | cons b before =>
      refine iff_of_true ⟨base, isBaseName_append (b :: before) hc hbase, ?_⟩ ?_
      · rw [Slot.written, filenameSubStr_append (b :: before) hc hbase, if_neg (List.cons_ne_nil b before)]
      · rintro ⟨d, base', he, -, hbase'⟩
        cases he
        exact Bool.false_ne_true ((hbase' c (List.mem_append_right before List.mem_cons_self)).symm.trans hc)

/-- the parts have fixed sizes, so there is one way to cut the area into them -/
theorem wellFormed_iff (level : ℤ) (file : Bytes) (line : ℤ) (time : LocalTime) (threadId : UInt64) :
    WellFormed level file line time threadId ↔
      ∀ slot ∈ slots level file line time threadId, slot.Meets slot.written := by
  obtain ⟨harea, hlength⟩ := header_eq level file line time threadId
  refine ⟨?_, ?_⟩
  · rintro ⟨texts, htexts, -, hmeets⟩
    have hflatten : texts.flatten = ((slots level file line time threadId).map Slot.written).flatten :=
      congrArg Cursor.area (Option.some.inj (htexts.symm.trans harea))
    have hsizes : texts.map List.length = ((slots level file line time threadId).map Slot.written).map List.length := by
      rw [List.map_map]
      refine List.forall₂_eq_eq_eq ▸ ?_
      rw [List.forall₂_map_left_iff, List.forall₂_map_right_iff]
      refine hmeets.flip.imp ?_
      intro text slot h
      exact (Slot.Meets.length h).trans (length_written slot).symm
    obtain rfl := List.eq_iff_flatten_eq.2 ⟨hflatten, hsizes⟩
    rw [List.forall₂_map_right_iff, List.forall₂_same] at hmeets
    exact hmeets
  · intro h
    refine ⟨_, harea, hlength, ?_⟩
    rw [List.forall₂_map_right_iff, List.forall₂_same]
    exact h

/-- **The header.** For a level of one digit and a line number that is not negative, the header is well formed if and
only if the thread id, as an `int`, is not negative or a multiple of 10000, and the path's first character is not its
only separator. -/
theorem header_wellFormed_iff (level : ℤ) (file : Bytes) (line : ℤ) (time : LocalTime) (threadId : UInt64)
    (hlevel : 0 ≤ level ∧ level ≤ 9) (hline : 0 ≤ line) :
    WellFormed level file line time threadId ↔
      (0 ≤ threadInt threadId ∨ 10000 ∣ threadInt threadId) ∧ ¬ RootFile file := by
  have hblank : ∀ n width, (Slot.number n width blank).Meets (Slot.number n width blank).written ↔
      0 ≤ n ∨ (10 : ℤ) ^ width ∣ n := numericField_iff (Or.inl rfl)
  have hzero : ∀ n width, (Slot.number n width zeroDigit).Meets (Slot.number n width zeroDigit).written ↔
      0 ≤ n ∨ (10 : ℤ) ^ width ∣ n := numericField_iff (Or.inr rfl)
  have htext : ∀ s, (Slot.text s).Meets (Slot.text s).written ↔ True := fun s => iff_of_true rfl trivial
  have hyear : 0 ≤ 1900 + time.tm_year := by have := time.year; omega
  have hmon : 0 ≤ time.tm_mon + 1 := by have := time.mon; omega
  have hmday : 0 ≤ time.tm_mday := by have := time.mday; omega
  have husec : 0 ≤ time.tv_usec.tdiv 1000 := Int.tdiv_nonneg time.usec.1 (by decide)
  rw [wellFormed_iff]
  simp only [slots, List.forall_mem_cons, hblank, hzero, htext, meets_file_iff, hyear, hmon, hmday, time.hour.1,
    time.min.1, time.sec.1, husec, hlevel.1, hline, true_or, true_and]
  simp

/-- the second of January 2024, 03:04:05.678 -/
def januaryTime : LocalTime where
  tm_year := 124
  tm_mon := 0
  tm_mday := 2
  tm_hour := 3
  tm_min := 4
  tm_sec := 5
  tv_usec := 678000
  year := by decide
  mon := by decide
  mday := by decide
  hour := by decide
  min := by decide
  sec := by decide
  usec := by decide

/-- the thread 1234 logs in line 7 of `a/b` -/
theorem header_wellFormed_thread : WellFormed 1 [0x61, 0x2f, 0x62] 7 januaryTime 1234 := by
  refine (header_wellFormed_iff 1 [0x61, 0x2f, 0x62] 7 januaryTime 1234 (by decide) (by decide)).2
    ⟨Or.inl (by decide), ?_⟩
  rintro ⟨c, base, h, hc, -⟩
  cases h
  cases hc

/-- **A negative thread id.** The thread id 4294967295 is -1 as an `int`. Its field is three blanks and a `/`. -/
theorem thread_not_digits :
    (Slot.number (threadInt 4294967295) 4 blank).written = [blank, blank, blank, 0x2f] ∧
      ¬ WellFormed 1 [0x61] 7 januaryTime 4294967295 := by
  refine ⟨by decide, ?_⟩
  rw [wellFormed_iff]
  intro h
  have hfield : (Slot.number (threadInt 4294967295) 4 blank).Meets
      (Slot.number (threadInt 4294967295) 4 blank).written := h _ (by simp [slots])
  have hthread := (numericField_iff (Or.inl rfl) _ 4).1 hfield
  revert hthread
  decide

end Log
end NetFramework
