/-
Where `nextToken` ends the text of an object or of a sequence, whatever its strings contain.

`bracket_token_iff`: the token is the whole text if and only if the text between its own two brackets is balanced in
that kind of brackets, the brackets inside strings counted like any others. The other kind does not matter.
-/
import NetFramework.RoundTrip

namespace NetFramework

open IStream Bracket

/-- the brackets that enclose the text of a sequence or of an object -/
def Ty.brackets : Ty → Option (UInt8 × UInt8)
  | .vec _ => some (lbracket, rbracket)
  | .cls _ _ => some (lbrace, rbrace)
  | _ => none

/-- what stands between the first and the last character of a value's text -/
def interior (t : Ty) (v : t.Val) : Bytes := (serialize t v).tail.dropLast

/-- followed by a comma and any text that does not begin with another, the text of `v` is a token -/
def TokenOfText (t : Ty) (v : t.Val) : Prop :=
  ∀ rest : Bytes, rest.head? ≠ some comma →
    ∃ st, nextToken (good (serialize t v ++ comma :: rest)) = (serialize t v, st) ∧ st.rest = rest

variable {o e : UInt8}

theorem brackets_kind {t : Ty} (h : t.brackets = some (o, e)) : Brackets o e := by
  cases t with
  | int => cases h
  | str => cases h
  | vec t => cases h; exact .square
  | cls init fs => cases h; exact .curly

theorem interior_eq {t : Ty} (h : t.brackets = some (o, e)) (v : t.Val) :
    serialize t v = o :: interior t v ++ [e] := by
  have hcut : ∀ body : Bytes, (o :: body ++ [e]).tail.dropLast = body := by
    intro body
    rw [List.cons_append, List.tail_cons, List.dropLast_concat]
  have hbody : ∃ body, serialize t v = o :: body ++ [e] := by
    cases t with
    | int => cases h
    | str => cases h
    | vec t => cases h; exact ⟨_, serialize_vec t v⟩
    | cls init fs => cases h; exact ⟨_, serialize_cls fs v⟩
  obtain ⟨body, hv⟩ := hbody
  rw [interior, hv, hcut]

/-- the token of an enclosed text is the whole of it only if the text is balanced inside -/
theorem balanced_of_token (h : Brackets o e) {body more : Bytes} {st : IStream} (hmore : more ≠ [])
    (htoken : nextToken (good (o :: body ++ [e] ++ more)) = (o :: body ++ [e], st)) : Balanced o e body := by
  have hscan : (closing o e 1 (body ++ e :: more)).1 = body ++ [e] := by
    have htext : o :: body ++ [e] ++ more = o :: (body ++ e :: more) := by simp
    rw [htext, nextToken_opener h] at htoken
    exact (List.cons.inj (Prod.mk.inj htoken).1).2
  have hleft : (closing o e 1 (body ++ e :: more)).2 = more := by
    have hsplit := closing_split o e 1 (body ++ e :: more)
    rw [hscan, List.append_assoc, List.singleton_append] at hsplit
    simpa using hsplit
  exact balanced_of_closing h.ne hmore (Prod.ext hscan hleft)

/-- **Bracketed tokens, exactly.** At any nesting depth and for any strings, the text of an object or of a sequence is a
token if and only if what stands between its own brackets is balanced in brackets of that kind. -/
theorem bracket_token_iff (t : Ty) (v : t.Val) (o e : UInt8) (h : t.brackets = some (o, e)) :
    TokenOfText t v ↔ Balanced o e (interior t v) := by
  unfold TokenOfText
  rw [interior_eq h v]
  refine ⟨?_, ?_⟩
  · intro htoken
    obtain ⟨st, hst, -⟩ := htoken [] (by simp)
    exact balanced_of_token (brackets_kind h) (List.cons_ne_nil _ _) hst
  · intro hbalanced rest hrest
    obtain ⟨st, hst, hafter⟩ := nextToken_enclosed (brackets_kind h) hbalanced (.comma rest hrest)
    exact ⟨st, hst, by simpa [After] using hafter⟩

/-- a sequence of objects with brackets of both kinds in their strings, those of the sequence's kind matching -/
theorem bracket_token_sequence :
    TokenOfText (.vec (.cls [] (.cons .int (.cons .str .nil))))
      [((1 : Int32), ([91, 125, 93] : Bytes), ()), ((2 : Int32), ([123] : Bytes), ())] :=
  (bracket_token_iff _ _ lbracket rbracket rfl).2 (by decide)

/-- **A bracket in a string.** The text of the sequence of `]` is `["]"]`, and its token is `["]`, with the second quote
read as the character behind it. -/
theorem bracket_in_string :
    serialize (.vec .str) [([93] : Bytes)] = [91, 34, 93, 34, 93] ∧
      nextToken (good ([91, 34, 93, 34, 93] ++ [comma, 55])) = ([91, 34, 93], good [93, comma, 55]) ∧
      ¬ TokenOfText (.vec .str) [([93] : Bytes)] := by
  refine ⟨by decide, by decide, ?_⟩
  intro h
  obtain ⟨st, hst, -⟩ := h [55] (by decide)
  exact absurd (Prod.mk.inj hst).1 (by decide)

end NetFramework
