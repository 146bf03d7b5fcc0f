/-
The lexical layer of serialisation.cpp: `std::to_string` and `std::stoi`, `replaceInString`, and `nextToken` on a
`std::istringstream`.

An `IStream` is a string stream at some point of its life: characters left to read, or the end of file seen. Once
`eofbit` is set nothing is left, so the two exclude each other, and a further `get` or `peek` only fails again.

`nextToken` looks at one character to choose between three kinds of tokens. Each kind ends in its own way and consumes a
following comma in its own way:
- a bracketed token ends at the closer that matches its opener, counting only that kind of bracket; the character after
  it is read whatever it is, and then one comma more if there is one (`nextToken_bracket`);
- a quoted token ends at a quote with no backslash before it; a comma after it is read (`nextToken_quoted`);
- any other token ends at the next comma, which is read (`nextToken_plain`).
-/
import Mathlib.Data.List.TakeWhile
import NetFramework.Library.Bracket
import NetFramework.Library.Decimal
import NetFramework.CoreProto

namespace NetFramework

/-! ## Characters -/

/-- `"` -/
abbrev quote : UInt8 := 34
/-- `\` -/
abbrev backslash : UInt8 := 92
/-- `,` -/
abbrev comma : UInt8 := 44
/-- `[` -/
abbrev lbracket : UInt8 := 91
/-- `]` -/
abbrev rbracket : UInt8 := 93
/-- `{` -/
abbrev lbrace : UInt8 := 123
/-- `}` -/
abbrev rbrace : UInt8 := 125
/-- `-` -/
abbrev minus : UInt8 := 45
/-- `+` -/
abbrev plus : UInt8 := 43

/-- `std::isspace` in the C locale -/
def isSpace (c : UInt8) : Bool := c == 32 || (9 ≤ c && c ≤ 13)

/-! ## Numbers and strings -/

/-- the exceptions the code can throw -/
inductive StdException where
  | invalidArgument
  | outOfRange
  | badFunctionCall
deriving DecidableEq, Repr

theorem bind_eq_ok {α β : Type} {x : Except StdException α} {f : α → Except StdException β} {b : β} :
    x >>= f = .ok b ↔ ∃ a, x = .ok a ∧ f a = .ok b := by
  cases x with
  | error e => exact ⟨nofun, fun ⟨_, h, _⟩ => by cases h⟩
  | ok a => exact ⟨fun h => ⟨a, rfl, h⟩, fun ⟨_, h, hf⟩ => by cases h; exact hf⟩

theorem map_eq_ok {β γ : Type} {x : Except StdException β} {f : β → γ} {c : γ} :
    x.map f = .ok c ↔ ∃ b, x = .ok b ∧ f b = c := by
  cases x with
  | error e =>
    refine ⟨?_, ?_⟩
    · intro h
      cases h
    · rintro ⟨b, h, -⟩
      cases h
  | ok b =>
    refine ⟨?_, ?_⟩
    · intro h
      exact ⟨b, rfl, Except.ok.inj h⟩
    · rintro ⟨b', h, rfl⟩
      rw [Except.ok.inj h]
      rfl

/-- two values read one after the other -/
theorem bind_two_eq_ok {α β γ : Type} (x : Except StdException (α × γ)) (f : γ → Except StdException (β × γ))
    (p : α × β) {last : γ} :
    (do let (a, next) ← x
        let (b, next) ← f next
        return ((a, b), next)) = .ok (p, last) ↔ ∃ next, x = .ok (p.1, next) ∧ f next = .ok (p.2, last) := by
  refine ⟨?_, ?_⟩
  · intro h
    obtain ⟨⟨a, next⟩, ha, h⟩ := bind_eq_ok.1 h
    obtain ⟨⟨b, last⟩, hb, h⟩ := bind_eq_ok.1 h
    cases h
    exact ⟨next, ha, hb⟩
  · intro ⟨next, ha, hb⟩
    exact bind_eq_ok.2 ⟨_, ha, bind_eq_ok.2 ⟨_, hb, rfl⟩⟩

/-- `std::to_string` -/
def toText (d : Int32) : Bytes :=
  if d.toInt < 0 then minus :: Decimal.text d.toInt.natAbs else Decimal.text d.toInt.natAbs

/-- `std::stoi`: blanks, a sign, digits; what follows the digits does not matter -/
def stoi (str : Bytes) : Except StdException Int32 :=
  let s := str.dropWhile isSpace
  let neg := s.head? = some minus
  let s := if s.head? = some minus ∨ s.head? = some plus then s.tail else s
  let digits := s.takeWhile Decimal.isDigit
  if digits = [] then .error .invalidArgument
  else
    let n : ℤ := if neg then -(Decimal.value digits : ℤ) else Decimal.value digits
    if -2147483648 ≤ n ∧ n ≤ 2147483647 then .ok (Int32.ofInt n) else .error .outOfRange

/-- `subject.find(search, pos)`, for the text `todo` of `subject` from `pos` on: what precedes the first occurrence, and
what follows it -/
def find (search : Bytes) : Bytes → Option (Bytes × Bytes)
  | [] => if search = [] then some ([], []) else none
  | c :: cs =>
    if search.isPrefixOf (c :: cs) then some ([], (c :: cs).drop search.length)
    else (find search cs).map fun (before, after) => (c :: before, after)

/-- the loop of `replaceInString`; `done` is the text before `pos` -/
def replaceLoop (search replace : Bytes) : ℕ → Bytes → Bytes → Bytes
  | 0, done, todo => done ++ todo
  | fuel + 1, done, todo =>
    match find search todo with
    | none => done ++ todo
    | some (before, after) => replaceLoop search replace fuel (done ++ before ++ replace) after

/-- for a `search` that is not empty each round of the loop shortens the rest of the text -/
def replaceInString (subject search replace : Bytes) : Bytes :=
  replaceLoop search replace (subject.length + 1) [] subject

/-- `serialize` for a `std::string` -/
def serializeString (str : Bytes) : Bytes := quote :: replaceInString str [quote] [backslash, quote] ++ [quote]

/-! ## Streams and tokens -/

inductive IStream where
  | good (rest : Bytes)
  | eof
deriving DecidableEq, Repr

namespace IStream

/-- the characters left to read -/
def rest : IStream → Bytes
  | good rest => rest
  | eof => []

/-- `none` is `EOF` -/
def peek : IStream → Option UInt8 × IStream
  | good (c :: cs) => (some c, good (c :: cs))
  | _ => (none, eof)

def get : IStream → Option UInt8 × IStream
  | good (c :: cs) => (some c, good cs)
  | _ => (none, eof)

/-- `if (in.peek() == ',') in.get();` -/
def skipComma (s : IStream) : IStream :=
  if s.peek.1 = some comma then s.peek.2.get.2 else s.peek.2

/-- what a loop that stops at the end of file has left to do -/
def size : IStream → ℕ
  | good rest => rest.length + 1
  | eof => 0

end IStream

open IStream

/-- the loop of a bracketed token: what it adds to the token, and the stream behind it. It leaves its loop only after
having read one more character. -/
def bracketLoop (startBrace endBrace : UInt8) : ℕ → Bytes → Bytes × IStream
  | _, [] => ([], eof)
  | 0, _ :: cs => ([], good cs)
  | scopeDepth + 1, c :: cs =>
    let depth := if c = startBrace then scopeDepth + 2 else if c = endBrace then scopeDepth else scopeDepth + 1
    let r := bracketLoop startBrace endBrace depth cs
    (c :: r.1, r.2)

/-- the loop of a quoted token, behind the opening quote -/
def quoteLoop : Bool → Bytes → Bytes × IStream
  | _, [] => ([], eof)
  | hadBackSlash, c :: cs =>
    if c = quote ∧ hadBackSlash = false then ([], good cs)
    else
      let r := quoteLoop (c == backslash) cs
      (c :: r.1, r.2)

/-- the loop of any other token -/
def plainLoop : Bytes → Bytes × IStream
  | [] => ([], eof)
  | c :: cs =>
    if c = comma then ([], good cs)
    else
      let r := plainLoop cs
      (c :: r.1, r.2)

def nextToken (s : IStream) : Bytes × IStream :=
  match s.peek with
  | (none, s) => ([], s)
  | (some c, s) =>
    if c = lbracket ∨ c = lbrace then
      let endBrace := if c = lbracket then rbracket else rbrace
      let r := bracketLoop c endBrace 1 s.get.2.rest
      (c :: r.1, r.2.skipComma)
    else if c = quote then
      let r := quoteLoop false s.get.2.rest
      (r.1, r.2.skipComma)
    else plainLoop s.rest

/-! ## Writing and reading numbers -/

theorem digit_bounds {b : UInt8} (h : Decimal.isDigit b = true) : 48 ≤ b.toNat ∧ b.toNat ≤ 57 := by
  simp only [Decimal.isDigit, Bool.and_eq_true, decide_eq_true_eq, UInt8.le_iff_toNat_le] at h
  exact h

/-- a digit is none of the characters that mean something to the tokeniser or to `stoi` -/
theorem digit_ne {b x : UInt8} (h : Decimal.isDigit b = true) (hx : Decimal.isDigit x = false) : b ≠ x := by
  rintro rfl
  rw [h] at hx; cases hx

theorem text_digits (d : Int32) : ∀ b ∈ toText d, Decimal.isDigit b = true ∨ b = minus := by
  intro b hb
  unfold toText at hb
  split_ifs at hb
  · rcases List.mem_cons.1 hb with rfl | hb
    · exact Or.inr rfl
    · exact Or.inl (Decimal.text_isDigit _ b hb)
  · exact Or.inl (Decimal.text_isDigit _ b hb)

theorem toText_not_mem {d : Int32} {x : UInt8} (hx : Decimal.isDigit x = false) (hm : x ≠ minus) : x ∉ toText d := by
  intro h
  rcases text_digits d x h with hd | rfl
  · rw [hd] at hx; cases hx
  · exact hm rfl

theorem toText_ne_nil (d : Int32) : toText d ≠ [] := by
  unfold toText
  split_ifs
  · simp
  · exact Decimal.text_ne_nil _

theorem digit_not_space {b : UInt8} (h : Decimal.isDigit b = true) : isSpace b = false := by
  have := digit_bounds h
  simp only [isSpace, Bool.or_eq_false_iff, beq_eq_false_iff_ne, Bool.and_eq_false_iff, decide_eq_false_iff_not,
    UInt8.le_iff_toNat_le, ne_eq, ← UInt8.toNat_inj]
  refine ⟨?_, Or.inr ?_⟩ <;> simp <;> omega

/-- a text that begins with a number -/
structure NumberText (s blanks sign digits rest : Bytes) : Prop where
  text : s = blanks ++ (sign ++ (digits ++ rest))
  blank : ∀ b ∈ blanks, isSpace b = true
  signed : sign = [] ∨ sign = [plus] ∨ sign = [minus]
  nonempty : digits ≠ []
  digit : ∀ b ∈ digits, Decimal.isDigit b = true
  ends : ∀ b, rest.head? = some b → Decimal.isDigit b = false

/-- the value of signed digits -/
def signedValue (sign digits : Bytes) : ℤ :=
  if sign = [minus] then -(Decimal.value digits : ℤ) else Decimal.value digits

theorem stoi_number {s blanks sign digits rest : Bytes} (h : NumberText s blanks sign digits rest) :
    stoi s =
      if -2147483648 ≤ signedValue sign digits ∧ signedValue sign digits ≤ 2147483647 then
        .ok (Int32.ofInt (signedValue sign digits))
      else .error .outOfRange := by
  obtain ⟨b, t, hbt⟩ := List.exists_cons_of_ne_nil h.nonempty
  have hb := h.digit b (hbt ▸ List.mem_cons_self)
  have htake : (digits ++ rest).takeWhile Decimal.isDigit = digits := by
    have hrest : rest.takeWhile Decimal.isDigit = [] := by
      cases hr : rest with
      | nil => rfl
      | cons c r => exact List.takeWhile_cons_of_neg (by simp [h.ends c (by rw [hr]; rfl)])
    rw [List.takeWhile_append_of_pos h.digit, hrest, List.append_nil]
  have hdrop : s.dropWhile isSpace = sign ++ (digits ++ rest) := by
    rw [h.text, List.dropWhile_append_of_pos h.blank]
    rcases h.signed with rfl | rfl | rfl
    · rw [List.nil_append, hbt, List.cons_append]
      exact List.dropWhile_cons_of_neg (by simp [digit_not_space hb])
    · exact List.dropWhile_cons_of_neg (by decide)
    · exact List.dropWhile_cons_of_neg (by decide)
  unfold stoi
  rw [hdrop]
  rcases h.signed with rfl | rfl | rfl
  · have hhead : (digits ++ rest).head? = some b := by rw [hbt]; rfl
    have h3 : b ≠ minus := digit_ne hb (by decide)
    have h4 : b ≠ plus := digit_ne hb (by decide)
    simp [hhead, h3, h4, htake, h.nonempty, signedValue]
  · have hne : plus ≠ minus := by decide
    simp [hne, htake, h.nonempty, signedValue]
  · simp [htake, h.nonempty, signedValue]

/-- `stoi` finds a number, or throws -/
theorem stoi_cases (s : Bytes) :
    (∃ blanks sign digits rest, NumberText s blanks sign digits rest) ∨ stoi s = .error .invalidArgument := by
  obtain ⟨sign, u, hsign, hs, hstoi⟩ : ∃ sign u, (sign = [] ∨ sign = [plus] ∨ sign = [minus]) ∧
      s.dropWhile isSpace = sign ++ u ∧ (u.takeWhile Decimal.isDigit = [] → stoi s = .error .invalidArgument) := by
    unfold stoi
    generalize s.dropWhile isSpace = t
    rcases t with _ | ⟨c, t⟩
    · exact ⟨[], [], Or.inl rfl, rfl, fun _ => rfl⟩
    · by_cases hm : c = minus
      · exact ⟨[minus], t, by simp, by simp [hm], fun h => by simp [hm, h]⟩
      · by_cases hp : c = plus
        · exact ⟨[plus], t, by simp, by simp [hp], fun h => by simp [hp, h]⟩
        · exact ⟨[], c :: t, Or.inl rfl, rfl, fun h => by simp [hm, hp, h]⟩
  by_cases hd : u.takeWhile Decimal.isDigit = []
  · exact Or.inr (hstoi hd)
  · refine Or.inl ⟨s.takeWhile isSpace, sign, u.takeWhile Decimal.isDigit, u.dropWhile Decimal.isDigit, ?_, ?_, hsign,
      hd, ?_, ?_⟩
    · rw [List.takeWhile_append_dropWhile, ← hs, List.takeWhile_append_dropWhile]
    · exact fun b hb => List.mem_takeWhile_imp hb
    · exact fun b hb => List.mem_takeWhile_imp hb
    · intro b hb
      have := List.head?_dropWhile_not Decimal.isDigit u
      rw [hb] at this
      simpa using this

/-- a text that `stoi` accepts: blanks, a sign, digits, whose value fits an `int`, and any text behind them that begins
with no digit -/
def IntText (s : Bytes) : Prop :=
  ∃ blanks sign digits rest, NumberText s blanks sign digits rest ∧
    -2147483648 ≤ signedValue sign digits ∧ signedValue sign digits ≤ 2147483647

theorem stoi_ok_iff (s : Bytes) : (∃ k, stoi s = .ok k) ↔ IntText s := by
  refine ⟨?_, ?_⟩
  · intro ⟨k, hk⟩
    rcases stoi_cases s with ⟨blanks, sign, digits, rest, h⟩ | h
    · rw [stoi_number h] at hk
      split_ifs at hk with hrange
      exact ⟨blanks, sign, digits, rest, h, hrange⟩
    · rw [hk] at h; cases h
  · intro ⟨blanks, sign, digits, rest, h, hrange⟩
    exact ⟨_, by rw [stoi_number h, if_pos hrange]⟩

/-- the text of an `int`, with nothing behind the digits -/
def IntField (s : Bytes) : Prop :=
  ∃ blanks sign digits, NumberText s blanks sign digits [] ∧
    -2147483648 ≤ signedValue sign digits ∧ signedValue sign digits ≤ 2147483647

theorem IntField.intText {s : Bytes} (h : IntField s) : IntText s := by
  obtain ⟨blanks, sign, digits, hnumber⟩ := h
  exact ⟨blanks, sign, digits, [], hnumber⟩

theorem IntField.ne_nil {s : Bytes} (h : IntField s) : s ≠ [] := by
  obtain ⟨blanks, sign, digits, hnumber, -⟩ := h
  rw [hnumber.text]
  simp [hnumber.nonempty]

def numberChar (c : UInt8) : Bool := isSpace c || c == plus || c == minus || Decimal.isDigit c

theorem IntField.not_mem {s : Bytes} (h : IntField s) {c : UInt8} (hc : numberChar c = false) : c ∉ s := by
  obtain ⟨blanks, sign, digits, ⟨rfl, hblank, hsign, -, hdigit, -⟩, -⟩ := h
  simp only [numberChar, Bool.or_eq_false_iff, beq_eq_false_iff_ne] at hc
  obtain ⟨⟨⟨hspace, hplus⟩, hminus⟩, hnodigit⟩ := hc
  have hnoblank : c ∉ blanks := fun hmem => by simp [hblank c hmem] at hspace
  have hnone : c ∉ digits := fun hmem => by simp [hdigit c hmem] at hnodigit
  rcases hsign with rfl | rfl | rfl <;> simp [hnoblank, hnone, hplus, hminus]

theorem intField_toText (d : Int32) : IntField (toText d) := by
  have hlt := d.toInt_lt
  have hge := d.le_toInt
  refine ⟨[], if d.toInt < 0 then [minus] else [], Decimal.text d.toInt.natAbs, ⟨?_, nofun, ?_, Decimal.text_ne_nil _,
    Decimal.text_isDigit _, nofun⟩, ?_⟩
  · unfold toText
    split_ifs <;> simp
  · split_ifs <;> simp
  · rw [signedValue, Decimal.value_text]
    by_cases hneg : d.toInt < 0
    · rw [if_pos hneg, if_pos rfl]
      omega
    · rw [if_neg hneg, if_neg (List.ne_cons_self.symm ∘ Eq.symm)]
      omega

/-- `stoi` on digits -/
theorem stoi_digits {s : Bytes} (hs : ∀ b ∈ s, Decimal.isDigit b = true) (hne : s ≠ []) :
    stoi s = if Decimal.value s ≤ 2147483647 then .ok (Int32.ofInt (Decimal.value s)) else .error .outOfRange := by
  rw [stoi_number ⟨(by simp : s = [] ++ ([] ++ (s ++ []))), by simp, Or.inl rfl, hne, hs, by simp⟩]
  simp only [signedValue, List.ne_cons_self, if_false]
  congr 1
  exact propext ⟨fun h => by omega, fun h => ⟨by omega, by exact_mod_cast h⟩⟩

/-- `stoi` on a minus sign and digits -/
theorem stoi_minus {s : Bytes} (hs : ∀ b ∈ s, Decimal.isDigit b = true) (hne : s ≠ []) :
    stoi (minus :: s) =
      if Decimal.value s ≤ 2147483648 then .ok (Int32.ofInt (-(Decimal.value s : ℤ))) else .error .outOfRange := by
  rw [stoi_number
    ⟨(by simp : minus :: s = [] ++ ([minus] ++ (s ++ []))), by simp, Or.inr (Or.inr rfl), hne, hs, by simp⟩]
  simp only [signedValue, if_true]
  congr 1
  exact propext ⟨fun h => by omega, fun h => ⟨by omega, by omega⟩⟩

theorem stoi_toText (d : Int32) : stoi (toText d) = .ok d := by
  have hlt := d.toInt_lt
  have hge := d.le_toInt
  unfold toText
  split_ifs with h
  · rw [stoi_minus (Decimal.text_isDigit _) (Decimal.text_ne_nil _), Decimal.value_text, if_pos (by omega),
      show -((d.toInt.natAbs : ℕ) : ℤ) = d.toInt by omega, Int32.ofInt_toInt]
  · rw [stoi_digits (Decimal.text_isDigit _) (Decimal.text_ne_nil _), Decimal.value_text, if_pos (by omega),
      show ((d.toInt.natAbs : ℕ) : ℤ) = d.toInt by omega, Int32.ofInt_toInt]

/-- what is left of a numeral that has lost its last character -/
theorem toText_dropLast (d : Int32) :
    (toText d).dropLast = (if d.toInt < 0 then [minus] else []) ++
      (if d.toInt.natAbs < 10 then [] else Decimal.text (d.toInt.natAbs / 10)) := by
  have hcut : (Decimal.text d.toInt.natAbs).dropLast =
      if d.toInt.natAbs < 10 then [] else Decimal.text (d.toInt.natAbs / 10) := by
    split_ifs with h
    · exact Decimal.text_dropLast_small h
    · exact Decimal.text_dropLast (not_lt.1 h)
  rw [← hcut]
  unfold toText
  by_cases hneg : d.toInt < 0
  · simp only [if_pos hneg, List.dropLast_cons_of_ne_nil (Decimal.text_ne_nil _), List.singleton_append]
  · simp only [if_neg hneg, List.nil_append]

/-- a numeral that has lost its last digit is never read as the number it was -/
theorem stoi_dropLast_ne (d : Int32) : stoi (toText d).dropLast ≠ .ok d := by
  have hlt := d.toInt_lt
  have hge := d.le_toInt
  rw [toText_dropLast]
  intro h
  by_cases hsmall : d.toInt.natAbs < 10
  · -- nothing is left, or the sign
    rw [if_pos hsmall, List.append_nil] at h
    split_ifs at h <;> cases h
  · rw [if_neg hsmall] at h
    have hdigits := Decimal.text_isDigit (d.toInt.natAbs / 10)
    have hne := Decimal.text_ne_nil (d.toInt.natAbs / 10)
    split_ifs at h with hneg
    · rw [List.singleton_append, stoi_minus hdigits hne, Decimal.value_text, if_pos (by omega), Except.ok.injEq] at h
      have := congrArg Int32.toInt h
      rw [Int32.toInt_ofInt_of_le (by omega) (by omega)] at this
      omega
    · rw [List.nil_append, stoi_digits hdigits hne, Decimal.value_text, if_pos (by omega), Except.ok.injEq] at h
      have := congrArg Int32.toInt h
      rw [Int32.toInt_ofInt_of_le (by omega) (by omega)] at this
      omega

/-! ## Escaping -/

/-- a quote written as a backslash and a quote -/
def escape (s : Bytes) : Bytes := s.flatMap fun c => if c = quote then [backslash, quote] else [c]

theorem escape_cons (c : UInt8) (s : Bytes) :
    escape (c :: s) = (if c = quote then [backslash, quote] else [c]) ++ escape s := List.flatMap_cons

theorem escape_of_not_mem {s : Bytes} (h : quote ∉ s) : escape s = s := by
  induction s with
  | nil => rfl
  | cons c s ih =>
    rw [List.mem_cons, not_or] at h
    have hc : c ≠ quote := fun e => h.1 e.symm
    rw [escape_cons, if_neg hc, ih h.2, List.singleton_append]

/-- escaping makes a text longer, unless it has no quotes -/
theorem escape_eq_iff (s : Bytes) : escape s = s ↔ quote ∉ s := by
  refine ⟨?_, escape_of_not_mem⟩
  intro h
  have hlen : ∀ t : Bytes, (escape t).length = t.length + t.count quote := by
    intro t
    induction t with
    | nil => rfl
    | cons c t ih =>
      rw [escape_cons, List.length_append, ih, List.length_cons]
      by_cases hc : c = quote
      · subst hc
        rw [List.count_cons_self, if_pos rfl, List.length_cons, List.length_singleton]; omega
      · rw [List.count_cons_of_ne hc, if_neg hc, List.length_singleton]; omega
  have := hlen s
  rw [h] at this
  exact List.count_eq_zero.1 (by omega)

@[simp] theorem escape_append (s t : Bytes) : escape (s ++ t) = escape s ++ escape t := List.flatMap_append

theorem find_quote_none {s : Bytes} (h : quote ∉ s) : find [quote] s = none := by
  induction s with
  | nil => rfl
  | cons c s ih =>
    rw [List.mem_cons, not_or] at h
    simp [find, ih h.2, h.1]

theorem find_quote {before : Bytes} (h : quote ∉ before) (after : Bytes) :
    find [quote] (before ++ quote :: after) = some (before, after) := by
  induction before with
  | nil => simp [find]
  | cons c s ih =>
    rw [List.mem_cons, not_or] at h
    simp [find, ih h.2, h.1]

/-- with enough fuel, the loop replaces every quote of the text from `pos` on -/
theorem replaceLoop_quote {fuel : ℕ} {todo : Bytes} (done : Bytes) (h : todo.length < fuel) :
    replaceLoop [quote] [backslash, quote] fuel done todo = done ++ escape todo := by
  induction fuel generalizing done todo with
  | zero => omega
  | succ fuel ih =>
    rw [replaceLoop]
    by_cases hm : quote ∈ todo
    · obtain ⟨before, after, rfl, hb⟩ := List.eq_append_cons_of_mem hm
      rw [List.length_append, List.length_cons] at h
      have hcons : escape (quote :: after) = [backslash, quote] ++ escape after := rfl
      rw [find_quote hb]
      simp only
      rw [ih _ (by omega), escape_append, escape_of_not_mem hb, hcons]
      simp
    · rw [find_quote_none hm, escape_of_not_mem hm]

theorem serializeString_eq (s : Bytes) : serializeString s = quote :: escape s ++ [quote] := by
  rw [serializeString, replaceInString, replaceLoop_quote [] (Nat.lt_succ_self _), List.nil_append]

/-! ## Tokens -/

/-- the stream after one more `get` in front of `tail` -/
def afterGet : Bytes → IStream
  | [] => eof
  | _ :: more => good more

theorem bracketLoop_eq (o e : UInt8) (d : ℕ) (l : Bytes) :
    bracketLoop o e d l = ((Bracket.closing o e d l).1, afterGet (Bracket.closing o e d l).2) := by
  induction l generalizing d with
  | nil => cases d <;> rfl
  | cons c l ih =>
    cases d with
    | zero => rfl
    | succ d => simp only [bracketLoop, Bracket.closing_succ, ih]

theorem nextToken_cons (c : UInt8) (cs : Bytes) :
    nextToken (good (c :: cs)) =
      if c = lbracket ∨ c = lbrace then
        (c :: (bracketLoop c (if c = lbracket then rbracket else rbrace) 1 cs).1,
          (bracketLoop c (if c = lbracket then rbracket else rbrace) 1 cs).2.skipComma)
      else if c = quote then ((quoteLoop false cs).1, (quoteLoop false cs).2.skipComma)
      else plainLoop (c :: cs) := rfl

@[simp] theorem nextToken_eof : nextToken eof = ([], eof) := rfl

@[simp] theorem nextToken_nil : nextToken (good []) = ([], eof) := rfl

/-- the two kinds of brackets -/
inductive Brackets : UInt8 → UInt8 → Prop where
  | square : Brackets lbracket rbracket
  | curly : Brackets lbrace rbrace

theorem Brackets.ne {o e : UInt8} (h : Brackets o e) : o ≠ e := by cases h <;> decide

/-- the token that begins with an opener is what the scan for its closer reads -/
theorem nextToken_opener {o e : UInt8} (h : Brackets o e) (l : Bytes) :
    nextToken (good (o :: l)) =
      (o :: (Bracket.closing o e 1 l).1, (afterGet (Bracket.closing o e 1 l).2).skipComma) := by
  have hend : (if o = lbracket then rbracket else rbrace) = e := by cases h <;> rfl
  have hopen : o = lbracket ∨ o = lbrace := by cases h <;> decide
  rw [nextToken_cons, if_pos hopen, hend, bracketLoop_eq]

/-- a bracketed token with balanced contents -/
theorem nextToken_bracket {o e : UInt8} (h : Brackets o e) {body : Bytes} (hb : Bracket.Balanced o e body)
    (tail : Bytes) :
    nextToken (good (o :: body ++ e :: tail)) = (o :: body ++ [e], (afterGet tail).skipComma) := by
  rw [List.cons_append, nextToken_opener h, Bracket.closing_balanced h.ne hb]
  rfl

/-- a text that may stand between quotes: each quote in it has a backslash in front of it, and it does not end with a
backslash -/
def Quotable : Bool → Bytes → Prop
  | hadBackSlash, [] => hadBackSlash = false
  | hadBackSlash, c :: cs => ¬ (c = quote ∧ hadBackSlash = false) ∧ Quotable (c == backslash) cs

theorem quoteLoop_quotable {hadBackSlash : Bool} {s : Bytes} (hs : Quotable hadBackSlash s) (tail : Bytes) :
    quoteLoop hadBackSlash (s ++ quote :: tail) = (s, good tail) := by
  induction s generalizing hadBackSlash with
  | nil =>
    obtain rfl : hadBackSlash = false := hs
    rfl
  | cons c s ih => rw [List.cons_append, quoteLoop, if_neg hs.1, ih hs.2]

theorem quotable_escape {s : Bytes} (hs : backslash ∉ s) : Quotable false (escape s) := by
  induction s with
  | nil => rfl
  | cons c s ih =>
    rw [List.mem_cons, not_or] at hs
    by_cases hc : c = quote
    · subst hc
      have hesc : escape (quote :: s) = backslash :: quote :: escape s := rfl
      rw [hesc]
      exact ⟨by decide, by decide, ih hs.2⟩
    · have hesc : escape (c :: s) = c :: escape s := by simp [escape, hc]
      have hb : (c == backslash) = false := beq_eq_false_iff_ne.2 fun e => hs.1 e.symm
      rw [hesc]
      exact ⟨fun h => hc h.1, hb ▸ ih hs.2⟩

/-- a quoted token -/
theorem nextToken_quoted {s : Bytes} (hs : Quotable false s) (tail : Bytes) :
    nextToken (good (quote :: s ++ [quote] ++ tail)) = (s, (good tail).skipComma) := by
  have htext : quote :: s ++ [quote] ++ tail = quote :: (s ++ quote :: tail) := by simp
  rw [htext, nextToken_cons, if_neg (by decide), if_pos rfl, quoteLoop_quotable hs]

/-- the token of a serialised string without backslashes is the string as it was escaped: nothing takes the
backslashes away again -/
theorem nextToken_string {s : Bytes} (hs : backslash ∉ s) (tail : Bytes) :
    nextToken (good (serializeString s ++ tail)) = (escape s, (good tail).skipComma) := by
  rw [serializeString_eq]
  exact nextToken_quoted (quotable_escape hs) tail

/-- a token depends on the characters left to read alone -/
theorem nextToken_rest (s : IStream) : nextToken s = nextToken (good s.rest) := by cases s <;> rfl

theorem plainLoop_eq {s : Bytes} (hs : comma ∉ s) (more : Bytes) :
    plainLoop s = (s, eof) ∧ plainLoop (s ++ comma :: more) = (s, good more) := by
  induction s with
  | nil => exact ⟨rfl, rfl⟩
  | cons c s ih =>
    rw [List.mem_cons, not_or] at hs
    have hc : c ≠ comma := fun e => hs.1 e.symm
    obtain ⟨h1, h2⟩ := ih hs.2
    simp [plainLoop, hc, h1, h2]

/-- what may follow a token: nothing, or a comma and text that does not begin with another -/
inductive Follows : Bytes → Prop where
  | nil : Follows []
  | comma (more : Bytes) (h : more.head? ≠ some comma) : Follows (comma :: more)

/-- any other token -/
theorem nextToken_plain {c : UInt8} {cs tail : Bytes} (hc : c ≠ lbracket ∧ c ≠ lbrace ∧ c ≠ quote)
    (hs : comma ∉ c :: cs) (htail : Follows tail) :
    nextToken (good (c :: cs ++ tail)) = (c :: cs, afterGet tail) := by
  rw [List.cons_append, nextToken_cons, if_neg (by simp [hc.1, hc.2.1]), if_neg hc.2.2]
  cases htail with
  | nil => rw [List.append_nil]; exact (plainLoop_eq hs []).1
  | comma more _ => exact (plainLoop_eq hs more).2

/-- the stream behind a token: at its end, or at the text behind the comma -/
def After (tail : Bytes) (s : IStream) : Prop := if tail = [] then s = eof else s.rest = tail.tail

theorem after_get {tail : Bytes} (h : Follows tail) : After tail (afterGet tail) := by
  cases h <;> simp [After, afterGet, IStream.rest]

theorem after_skipComma {tail : Bytes} (h : Follows tail) : After tail (good tail).skipComma := by
  cases h <;> simp [After, skipComma, IStream.peek, IStream.get, IStream.rest]

theorem after_get_skipComma {tail : Bytes} (h : Follows tail) : After tail (afterGet tail).skipComma := by
  cases h with
  | nil => rfl
  | comma more hm =>
    cases more with
    | nil => rfl
    | cons c more =>
      have hc : c ≠ comma := by simpa using hm
      simp [After, afterGet, skipComma, peek, hc, IStream.rest]

/-- a stream with something left to read -/
theorem After.at_text {c : UInt8} {more : Bytes} {s : IStream} (h : After (comma :: c :: more) s) :
    s = good (c :: more) := by
  simp only [After, reduceCtorEq, if_false, List.tail_cons] at h
  cases s with
  | eof => cases h
  | good rest => simp only [IStream.rest] at h; rw [h]

end NetFramework
