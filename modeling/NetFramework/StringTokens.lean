/-
Strings that come back from their own texts.

`serialize` escapes quotes and leaves backslashes alone; `nextToken` ends a string at the first quote with no backslash
in front of it and takes no escape away. So a string is followed to its closing quote unless it ends with a backslash
(`nextToken_string_eq`), and is read back unless it has quotes:

- `string_framing_iff`: alone, with a comma and further text behind it;
- `vector_strings_iff`: in a vector, whose elements are tokenised a second time without their quotes, so that each is
  read as far as its first comma.
-/
import NetFramework.Arguments

namespace NetFramework

open IStream

/-! ## The closing quote -/

/-- `hadBackSlash` behind the characters of `s` -/
def endsWithBackslash (hadBackSlash : Bool) (s : Bytes) : Bool := (s.getLast?.map (· == backslash)).getD hadBackSlash

@[simp] theorem endsWithBackslash_nil (b : Bool) : endsWithBackslash b [] = b := rfl

@[simp] theorem endsWithBackslash_cons (b : Bool) (c : UInt8) (s : Bytes) :
    endsWithBackslash b (c :: s) = endsWithBackslash (c == backslash) s := by
  rw [endsWithBackslash, endsWithBackslash, List.getLast?_cons]
  cases s.getLast? <;> rfl

theorem endsWithBackslash_false (s : Bytes) : endsWithBackslash false s = false ↔ s.getLast? ≠ some backslash := by
  unfold endsWithBackslash
  cases s.getLast? <;> simp

theorem quoteLoop_pass {hadBackSlash : Bool} {c : UInt8} (h : c = quote → hadBackSlash = true) (l : Bytes) :
    quoteLoop hadBackSlash (c :: l) = (c :: (quoteLoop (c == backslash) l).1, (quoteLoop (c == backslash) l).2) := by
  have hpass : ¬ (c = quote ∧ hadBackSlash = false) := by
    intro hstop
    rw [h hstop.1] at hstop
    cases hstop.2
  rw [quoteLoop, if_neg hpass]

/-- the loop of a quoted token runs over an escaped text without stopping -/
theorem quoteLoop_escape (hadBackSlash : Bool) (s l : Bytes) :
    quoteLoop hadBackSlash (escape s ++ l) =
      (escape s ++ (quoteLoop (endsWithBackslash hadBackSlash s) l).1,
        (quoteLoop (endsWithBackslash hadBackSlash s) l).2) := by
  induction s generalizing hadBackSlash with
  | nil => rfl
  | cons c s ih =>
    rw [escape_cons, endsWithBackslash_cons]
    by_cases hc : c = quote
    · subst hc
      have hescape : quoteLoop hadBackSlash (backslash :: quote :: (escape s ++ l)) =
          (backslash :: quote :: (quoteLoop false (escape s ++ l)).1, (quoteLoop false (escape s ++ l)).2) := by
        have hfirst : backslash = quote → hadBackSlash = true := fun h => absurd h (by decide)
        have hflag : (backslash == backslash) = true := rfl
        rw [quoteLoop_pass hfirst, hflag, quoteLoop_pass fun _ => rfl]
        rfl
      have hquote : (quote == backslash) = false := rfl
      rw [if_pos rfl, hquote, List.append_assoc, List.cons_append, List.cons_append, List.nil_append, hescape, ih]
      rfl
    · rw [if_neg hc, List.append_assoc, List.singleton_append, quoteLoop_pass fun h => absurd h hc, ih]
      rfl

/-- the loop runs to the end of a text that it has not left before more is known -/
theorem quoteLoop_short {hadBackSlash : Bool} {s more : Bytes}
    (h : s.length ≤ (quoteLoop hadBackSlash (s ++ more)).1.length) : quoteLoop hadBackSlash s = (s, eof) := by
  induction s generalizing hadBackSlash with
  | nil => rfl
  | cons c s ih =>
    by_cases hstop : c = quote ∧ hadBackSlash = false
    · rw [List.cons_append, quoteLoop, if_pos hstop] at h
      exact absurd h (by simp)
    · rw [List.cons_append, quoteLoop, if_neg hstop] at h
      rw [quoteLoop, if_neg hstop, ih (Nat.le_of_succ_le_succ h)]

/-- **The token of a string.** It is the escaped string, unless the string ends with a backslash: then the closing quote
is taken for a part of it, and so is the text as far as the next quote. -/
theorem nextToken_string_eq (s tail : Bytes) :
    nextToken (good (serializeString s ++ tail)) =
      if s.getLast? = some backslash then
        (escape s ++ quote :: (quoteLoop false tail).1, (quoteLoop false tail).2.skipComma)
      else (escape s, (good tail).skipComma) := by
  have htext : quote :: escape s ++ [quote] ++ tail = quote :: (escape s ++ quote :: tail) := by simp
  rw [serializeString_eq, htext, nextToken_cons, if_neg (by decide), if_pos rfl, quoteLoop_escape]
  by_cases hlast : s.getLast? = some backslash
  · have hb : endsWithBackslash false s = true := by
      rw [← Bool.not_eq_false, endsWithBackslash_false]
      exact not_not.2 hlast
    rw [if_pos hlast, hb]
    rfl
  · have hb : endsWithBackslash false s = false := (endsWithBackslash_false s).2 hlast
    rw [if_neg hlast, hb]
    simp [quoteLoop]

theorem length_escape (s : Bytes) : s.length ≤ (escape s).length := by
  induction s with
  | nil => exact le_rfl
  | cons c s ih =>
    rw [escape_cons, List.length_append, List.length_cons]
    split_ifs
    · rw [List.length_cons, List.length_singleton]; omega
    · rw [List.length_singleton]; omega

/-! ## A string and what follows it -/

/-- `s` is read back from its text, and the stream is left behind the comma that follows, whatever the target held -/
def StringFraming (s : Bytes) : Prop :=
  ∀ old rest : Bytes, rest.head? ≠ some comma →
    deserialize .str (good (serialize .str s ++ comma :: rest)) old = .ok (s, good rest)

/-- **Strings with framing, exactly.** A string is read back, and the stream left at the text behind it, if and only if
it has no quotes and does not end with a backslash. -/
theorem string_framing_iff (s : Bytes) : StringFraming s ↔ quote ∉ s ∧ s.getLast? ≠ some backslash := by
  refine ⟨?_, ?_⟩
  · intro h
    have htoken := Except.ok.inj (h [] [] (by simp))
    rw [serialize, nextToken_string_eq] at htoken
    split_ifs at htoken with hlast
    · have hlen := congrArg List.length (Prod.mk.inj htoken).1
      have := length_escape s
      rw [List.length_append, List.length_cons] at hlen
      omega
    · exact ⟨(escape_eq_iff s).1 (Prod.mk.inj htoken).1, hlast⟩
  · intro h old rest _
    have hcomma : (good (comma :: rest)).skipComma = good rest := rfl
    rw [deserialize, serialize, nextToken_string_eq, if_neg h.2, escape_of_not_mem h.1, hcomma]

/-- **Quotes and a last backslash.** A quote comes back with a backslash in front of it, and a string that ends with a
backslash swallows the field behind it. -/
theorem string_not_framed :
    deserialize .str (good (serialize .str [97, 34] ++ comma :: [55])) [] = .ok ([97, 92, 34], good [55]) ∧
      deserialize .str (good (serialize .str [97, 92] ++ comma :: [34, 98, 34])) [] =
        .ok ([97, 92, 34, 44], good [98, 34]) ∧
      ¬ StringFraming [97, 34] ∧ ¬ StringFraming [97, 92] := by
  refine ⟨rfl, rfl, ?_, ?_⟩
  · intro h
    exact absurd (Except.ok.inj (h [] [55] (by decide))) (by decide)
  · intro h
    exact absurd (Except.ok.inj (h [] [34, 98, 34] (by decide))) (by decide)

/-! ## Strings in a vector -/

/-- as far as the first comma -/
def beforeComma (s : Bytes) : Bytes := s.takeWhile (· != comma)

theorem beforeComma_eq_iff (s : Bytes) : beforeComma s = s ↔ comma ∉ s := by
  rw [beforeComma, List.takeWhile_eq_self_iff]
  refine ⟨?_, ?_⟩
  · intro h hmem
    exact absurd (h comma hmem) (by decide)
  · intro h x hx
    simpa using ne_of_mem_of_not_mem hx h

theorem plainLoop_fst (s : Bytes) : (plainLoop s).1 = beforeComma s := by
  induction s with
  | nil => rfl
  | cons c s ih =>
    unfold plainLoop beforeComma
    by_cases hc : c = comma
    · rw [if_pos hc, List.takeWhile_cons_of_neg (by simp [hc])]
    · rw [if_neg hc, List.takeWhile_cons_of_pos (by simp [hc])]
      exact congrArg (c :: ·) ih

/-- the token of an element has lost its quotes, and is tokenised again -/
theorem deserialize_bare {s : Bytes} (hs : PlainString s) (old : Bytes) :
    ∃ st, deserialize .str (good s) old = .ok (beforeComma s, st) := by
  cases s with
  | nil => exact ⟨eof, rfl⟩
  | cons c cs =>
    have hne : ∀ {x : UInt8}, x ∉ c :: cs → c ≠ x := by
      rintro x hx rfl
      exact hx List.mem_cons_self
    refine ⟨(plainLoop (c :: cs)).2, ?_⟩
    rw [deserialize, nextToken_cons, if_neg (by simp [hne hs.noLbracket, hne hs.noLbrace]), if_neg (hne hs.noQuote),
      ← plainLoop_fst]

/-- what is read from the text of a vector of strings -/
theorem deserialize_strings {vec : List Bytes} (hvec : ∀ s ∈ vec, PlainString s) :
    ∃ st, deserialize (.vec .str) (good (serialize (.vec .str) vec)) [] = .ok (vec.map beforeComma, st) := by
  have hclean : ∀ s ∈ vec, Clean .str s := fun s hs => (hvec s hs).clean
  obtain ⟨st, hst, -⟩ := nextToken_enclosed .square (elements_balanced (t := .str) .square hclean) .nil
  rw [List.append_nil] at hst
  refine ⟨st, ?_⟩
  rw [serialize_vec, deserialize]
  exact deserializeSequence_enclosed_map beforeComma [] hclean (fun s hs => deserialize_bare (hvec s hs) _) hst

/-- **Vectors of strings, exactly.** Of strings without quotes, backslashes and brackets as many come back as were
written, each cut off at its first comma. So the vector comes back if and only if none of them has a comma. -/
theorem vector_strings_iff (vec : List Bytes) (hvec : ∀ s ∈ vec, PlainString s) :
    (∃ st, deserialize (.vec .str) (good (serialize (.vec .str) vec)) [] = .ok (vec, st)) ↔ ∀ s ∈ vec, comma ∉ s := by
  obtain ⟨st, hread⟩ := deserialize_strings hvec
  have hmap : vec.map beforeComma = vec ↔ ∀ s ∈ vec, comma ∉ s := by
    calc vec.map beforeComma = vec ↔ vec.map beforeComma = vec.map id := by rw [List.map_id]
      _ ↔ ∀ s ∈ vec, beforeComma s = s := List.map_inj_left
      _ ↔ ∀ s ∈ vec, comma ∉ s := forall₂_congr fun s _ => beforeComma_eq_iff s
  rw [hread, ← hmap]
  refine ⟨?_, ?_⟩
  · intro ⟨st', h⟩
    exact (Prod.mk.inj (Except.ok.inj h)).1
  · intro h
    exact ⟨st, by rw [h]⟩

/-- an empty string, a blank and a word -/
theorem vector_strings_plain :
    ∃ st, deserialize (.vec .str) (good (serialize (.vec .str) [[], [32], [97, 98]])) [] =
      .ok ([[], [32], [97, 98]], st) :=
  (vector_strings_iff [[], [32], [97, 98]] (by decide)).2 (by decide)

/-- **A comma in an element.** The vector of `a,b` comes back as the vector of `a`. -/
theorem vector_comma_cut :
    deserialize (.vec .str) (good (serialize (.vec .str) [[97, 44, 98]])) [] = .ok ([[97]], eof) ∧
      ¬ ∃ st, deserialize (.vec .str) (good (serialize (.vec .str) [[97, 44, 98]])) [] = .ok ([[97, 44, 98]], st) := by
  have hread : deserialize (.vec .str) (good (serialize (.vec .str) [[97, 44, 98]])) [] = .ok ([[97]], eof) := rfl
  refine ⟨hread, ?_⟩
  rintro ⟨st, h⟩
  rw [hread] at h
  exact absurd (Prod.mk.inj (Except.ok.inj h)).1 (by decide)

end NetFramework
