/-
The spellings of parameter types, and what `is_retval` makes of them.

A spelling is what the macros get as `#type`: names, `const`, template arguments, which are types again, pointers, and
at most one `&` at the end. `is_retval` looks for the characters `&` and `const` anywhere in it. So it is right about
most types (`is_retval_iff`), and wrong about a reference to something that is not const itself and has the word in it
somewhere, and about a type that is no reference and has one among its template arguments and no const. The templates of
an answer are given the parameters that the server function can modify if and only if it is right about each of them.

Names are taken to stand for types that are neither const nor references.
-/
import NetFramework.RemoteCall

namespace NetFramework

open StringLiteral

/-! ## Types -/

/-- a character of a name, qualified or not -/
def isNameChar (c : Char) : Bool := c.isAlphanum || c == '_' || c == ':'

structure TypeName where
  text : StringLiteral
  nameChars : text.all isNameChar = true
  nonempty : text ≠ []
  notConst : text ≠ constText

mutual

/-- `pointers` are the `*`, each with whether `const` follows it -/
inductive TypeSpelling where
  | mk (front : TypeFront) (pointers : List Bool) (isRef : Bool)

/-- what stands in front of the first `*` -/
inductive TypeFront where
  | nil
  | name (n : TypeName) (rest : TypeFront)
  | const (rest : TypeFront)
  | args (ts : TypeArgs) (rest : TypeFront)

inductive TypeArgs where
  | nil
  | cons (t : TypeSpelling) (ts : TypeArgs)

end

namespace TypeFront

/-- `const` among the specifiers themselves -/
def isConst : TypeFront → Bool
  | nil => false
  | name _ rest => rest.isConst
  | const _ => true
  | args _ rest => rest.isConst

end TypeFront

namespace TypeSpelling

def isRef : TypeSpelling → Bool
  | mk _ _ isRef => isRef

/-- the type, without the `&`, is const: its last pointer is, or what stands in front if there is none -/
def isConst : TypeSpelling → Bool
  | mk front pointers _ => pointers.getLast?.getD front.isConst

/-- an lvalue reference to a type that is not const -/
def isOut (t : TypeSpelling) : Bool := t.isRef && !t.isConst

end TypeSpelling

/-! ## Spellings -/

inductive TypeToken where
  | word (text : StringLiteral)
  | less
  | greater
  | separator
  | star
  | amp
deriving DecidableEq, Repr

namespace TypeToken

def text : TypeToken → StringLiteral
  | word text => text
  | less => ['<']
  | greater => ['>']
  | separator => [',']
  | star => ['*']
  | amp => ['&']

def isWord : TypeToken → Bool
  | word _ => true
  | _ => false

/-- the tokens as they are written. `blanks` says behind which of them there is a blank; between two words there always
is one. -/
def render : List TypeToken → List Bool → StringLiteral
  | [], _ => []
  | t :: ts, blanks =>
    let blank := blanks.headD false || (t.isWord && (ts.head?.map isWord).getD false)
    t.text ++ ((if blank then [' '] else []) ++ render ts blanks.tail)

end TypeToken

open TypeToken

def pointerTokens (isConst : Bool) : List TypeToken := if isConst then [star, word constText] else [star]

mutual

def TypeSpelling.tokens : TypeSpelling → List TypeToken
  | .mk front pointers isRef => front.tokens ++ (pointers.flatMap pointerTokens ++ if isRef then [amp] else [])

def TypeFront.tokens : TypeFront → List TypeToken
  | .nil => []
  | .name n rest => word n.text :: rest.tokens
  | .const rest => word constText :: rest.tokens
  | .args ts rest => less :: (ts.tokens ++ greater :: rest.tokens)

def TypeArgs.tokens : TypeArgs → List TypeToken
  | .nil => []
  | .cons t .nil => t.tokens
  | .cons t (.cons t' ts) => t.tokens ++ separator :: TypeArgs.tokens (.cons t' ts)

end

/-- the text `#type` -/
def TypeSpelling.spelling (t : TypeSpelling) (blanks : List Bool) : StringLiteral := render t.tokens blanks

/-- a `&` among the template arguments -/
def TypeSpelling.hasInnerRef : TypeSpelling → Bool
  | .mk front _ _ => decide (amp ∈ front.tokens)

/-- a word that is `const` or has it in it -/
def TypeToken.hasConst : TypeToken → Bool
  | word text => contains text constText
  | _ => false

/-- one of the words of the spelling, at any depth, is `const` or has it in it -/
def TypeSpelling.mentionsConst (t : TypeSpelling) : Bool := t.tokens.any hasConst

/-! ## What occurs in a spelling -/

/-- nothing occurs across a character that is no part of it -/
theorem infix_append_sep {x a b : StringLiteral} (hb : ∀ c, b.head? = some c → c ∉ x) :
    x <:+: a ++ b ↔ x <:+: a ∨ x <:+: b := by
  rw [List.infix_append_iff_ne_nil]
  refine ⟨?_, ?_⟩
  · rintro (h | h | ⟨l₁, l₂, -, hne, rfl, -, hpre⟩)
    · exact Or.inl h
    · exact Or.inr h
    · obtain ⟨c, l, rfl⟩ := List.exists_cons_of_ne_nil hne
      obtain ⟨more, rfl⟩ := hpre
      exact absurd (List.mem_append_right l₁ List.mem_cons_self) (hb c rfl)
  · rintro (h | h)
    · exact Or.inl h
    · exact Or.inr (Or.inl h)

theorem infix_cons_sep {x b : StringLiteral} {c : Char} (hx : x ≠ []) (hc : c ∉ x) : x <:+: c :: b ↔ x <:+: b := by
  rw [List.infix_cons_iff]
  refine ⟨?_, Or.inr⟩
  rintro (h | h)
  · obtain ⟨y, x, rfl⟩ := List.exists_cons_of_ne_nil hx
    obtain ⟨rfl, -⟩ := List.cons_prefix_cons.1 h
    exact absurd List.mem_cons_self hc
  · exact h

namespace TypeToken

theorem render_cons (t : TypeToken) (ts : List TypeToken) (blanks : List Bool) :
    ∃ gap, (gap = [' '] ∨ gap = [] ∧ (t.isWord = true → (ts.head?.map isWord).getD false = false)) ∧
      render (t :: ts) blanks = t.text ++ (gap ++ render ts blanks.tail) := by
  cases hblank : blanks.headD false || (t.isWord && (ts.head?.map isWord).getD false) with
  | true => exact ⟨[' '], Or.inl rfl, by rw [render, hblank]; rfl⟩
  | false =>
    refine ⟨[], Or.inr ⟨rfl, ?_⟩, by rw [render, hblank]; rfl⟩
    rw [Bool.or_eq_false_iff, Bool.and_eq_false_imp] at hblank
    exact hblank.2

/-- a token that is no word is a character that no name has -/
theorem text_of_not_word {t : TypeToken} (h : t.isWord = false) : ∃ c, t.text = [c] ∧ isNameChar c = false := by
  cases t with
  | word _ => cases h
  | less => exact ⟨'<', rfl, by decide⟩
  | greater => exact ⟨'>', rfl, by decide⟩
  | separator => exact ⟨',', rfl, by decide⟩
  | star => exact ⟨'*', rfl, by decide⟩
  | amp => exact ⟨'&', rfl, by decide⟩

theorem render_head {ts : List TypeToken} {blanks : List Bool} (hts : (ts.head?.map isWord).getD false = false)
    {c : Char} (hc : (render ts blanks).head? = some c) : isNameChar c = false := by
  cases ts with
  | nil => cases hc
  | cons t ts =>
    obtain ⟨gap, -, hrender⟩ := render_cons t ts blanks
    obtain ⟨c', htext, hname⟩ := text_of_not_word hts
    rw [hrender, htext] at hc
    obtain rfl := Option.some.inj hc
    exact hname

/-- a text of name characters occurs in a spelling if and only if it occurs in one of the words -/
theorem infix_render {x : StringLiteral} (hx : x ≠ []) (hname : ∀ c ∈ x, isNameChar c = true) (ts : List TypeToken)
    (blanks : List Bool) : x <:+: render ts blanks ↔ ∃ w, word w ∈ ts ∧ x <:+: w := by
  have hsep : ∀ c, isNameChar c = false → c ∉ x := by
    intro c hc hmem
    rw [hname c hmem] at hc
    cases hc
  induction ts generalizing blanks with
  | nil => simp [render, hx]
  | cons t ts ih =>
    obtain ⟨gap, hgap, hrender⟩ := render_cons t ts blanks
    have hrest : x <:+: gap ++ render ts blanks.tail ↔ ∃ w, word w ∈ ts ∧ x <:+: w := by
      rcases hgap with rfl | ⟨rfl, -⟩
      · exact (infix_cons_sep hx (hsep ' ' (by decide))).trans (ih _)
      · exact ih _
    rw [hrender]
    cases hword : t.isWord with
    | false =>
      obtain ⟨c, htext, hc⟩ := text_of_not_word hword
      have hne : ∀ w, word w ≠ t := by
        rintro w rfl
        cases hword
      rw [htext, List.singleton_append, infix_cons_sep hx (hsep c hc), hrest]
      simp [hne]
    | true =>
      have hhead : ∀ c, (gap ++ render ts blanks.tail).head? = some c → c ∉ x := by
        intro c hc
        rcases hgap with rfl | ⟨rfl, hnext⟩
        · obtain rfl := Option.some.inj hc
          exact hsep ' ' (by decide)
        · exact hsep c (render_head (hnext hword) hc)
      obtain ⟨w, rfl⟩ : ∃ w, t = word w := by
        cases t with
        | word w => exact ⟨w, rfl⟩
        | _ => cases hword
      rw [infix_append_sep hhead, hrest]
      simp [text]

/-- a `&` is written only for a `&` -/
theorem amp_mem_render {ts : List TypeToken} (hts : ∀ w, word w ∈ ts → ∀ c ∈ w, isNameChar c = true)
    (blanks : List Bool) : '&' ∈ render ts blanks ↔ amp ∈ ts := by
  induction ts generalizing blanks with
  | nil => simp [render]
  | cons t ts ih =>
    obtain ⟨gap, hgap, hrender⟩ := render_cons t ts blanks
    have hgapAmp : '&' ∉ gap := by
      rcases hgap with rfl | ⟨rfl, -⟩
      · decide
      · simp
    have htext : '&' ∈ t.text ↔ amp = t := by
      cases t with
      | word w =>
        have hw : '&' ∉ w := by
          intro h
          exact absurd (hts w List.mem_cons_self _ h) (by decide)
        simp [text, hw]
      | _ => decide
    rw [hrender, List.mem_append, List.mem_append, List.mem_cons, htext,
      ih (fun w hw => hts w (List.mem_cons_of_mem _ hw))]
    simp [hgapAmp]

end TypeToken

/-! ## Words and references -/

theorem constText_nameChars : ∀ c ∈ constText, isNameChar c = true := by
  have hall : constText.all isNameChar = true := rfl
  exact List.all_eq_true.1 hall

theorem pointerTokens_words (b : Bool) : ∀ w, word w ∈ pointerTokens b → w = constText := by
  intro w hw
  cases b with
  | false => simp [pointerTokens] at hw
  | true => simpa [pointerTokens] using hw

mutual

theorem TypeSpelling.word_chars : (t : TypeSpelling) → ∀ w, word w ∈ t.tokens → ∀ c ∈ w, isNameChar c = true
  | .mk front pointers isRef => by
    intro w hw
    rw [TypeSpelling.tokens, List.mem_append, List.mem_append] at hw
    rcases hw with hw | hw | hw
    · exact TypeFront.word_chars front w hw
    · obtain ⟨b, -, hb⟩ := List.mem_flatMap.1 hw
      exact pointerTokens_words b w hb ▸ constText_nameChars
    · cases isRef <;> simp at hw

theorem TypeFront.word_chars : (front : TypeFront) → ∀ w, word w ∈ front.tokens → ∀ c ∈ w, isNameChar c = true
  | .nil => by
    intro w hw
    cases hw
  | .name n rest => by
    intro w hw
    rcases List.mem_cons.1 hw with hw | hw
    · exact (TypeToken.word.inj hw) ▸ List.all_eq_true.1 n.nameChars
    · exact TypeFront.word_chars rest w hw
  | .const rest => by
    intro w hw
    rcases List.mem_cons.1 hw with hw | hw
    · exact (TypeToken.word.inj hw) ▸ constText_nameChars
    · exact TypeFront.word_chars rest w hw
  | .args ts rest => by
    intro w hw
    simp only [TypeFront.tokens, List.mem_cons, List.mem_append, reduceCtorEq, false_or] at hw
    rcases hw with hw | hw
    · exact TypeArgs.word_chars ts w hw
    · exact TypeFront.word_chars rest w hw

theorem TypeArgs.word_chars : (ts : TypeArgs) → ∀ w, word w ∈ ts.tokens → ∀ c ∈ w, isNameChar c = true
  | .nil => by
    intro w hw
    cases hw
  | .cons t .nil => TypeSpelling.word_chars t
  | .cons t (.cons t' ts) => by
    intro w hw
    simp only [TypeArgs.tokens, List.mem_append, List.mem_cons, reduceCtorEq, false_or] at hw
    rcases hw with hw | hw
    · exact TypeSpelling.word_chars t w hw
    · exact TypeArgs.word_chars (.cons t' ts) w hw

end

namespace TypeSpelling

theorem amp_mem_tokens (t : TypeSpelling) : amp ∈ t.tokens ↔ t.isRef = true ∨ t.hasInnerRef = true := by
  obtain ⟨front, pointers, isRef⟩ := t
  have hpointers : amp ∉ pointers.flatMap pointerTokens := by
    intro h
    obtain ⟨b, -, hb⟩ := List.mem_flatMap.1 h
    cases b <;> simp [pointerTokens] at hb
  rw [tokens, List.mem_append, List.mem_append, hasInnerRef, decide_eq_true_eq, TypeSpelling.isRef]
  cases isRef <;> simp [hpointers]

theorem mentionsConst_iff (t : TypeSpelling) : t.mentionsConst = true ↔ ∃ w, word w ∈ t.tokens ∧ constText <:+: w := by
  rw [mentionsConst, List.any_eq_true]
  refine ⟨?_, ?_⟩
  · rintro ⟨tok, hmem, hconst⟩
    cases tok with
    | word w => exact ⟨w, hmem, (contains_iff _ _).1 hconst⟩
    | _ => cases hconst
  · rintro ⟨w, hmem, hconst⟩
    exact ⟨word w, hmem, (contains_iff _ _).2 hconst⟩

theorem word_constText_of_front : (front : TypeFront) → front.isConst = true → word constText ∈ front.tokens
  | .nil, h => by cases h
  | .name _ rest, h => List.mem_cons_of_mem _ (word_constText_of_front rest h)
  | .const _, _ => List.mem_cons_self
  | .args _ rest, h => by
    rw [TypeFront.tokens]
    exact List.mem_cons_of_mem _ (List.mem_append_right _ (List.mem_cons_of_mem _ (word_constText_of_front rest h)))

/-- a const type has the word in its spelling -/
theorem mentionsConst_of_isConst {t : TypeSpelling} (h : t.isConst = true) : t.mentionsConst = true := by
  obtain ⟨front, pointers, isRef⟩ := t
  have hword : word constText ∈ front.tokens ∨ word constText ∈ pointers.flatMap pointerTokens := by
    rw [isConst] at h
    cases hlast : pointers.getLast? with
    | none =>
      rw [hlast] at h
      exact Or.inl (word_constText_of_front front h)
    | some b =>
      rw [hlast] at h
      obtain rfl : b = true := h
      have hmem : word constText ∈ pointerTokens true := by simp [pointerTokens]
      exact Or.inr (List.mem_flatMap.2 ⟨true, List.mem_of_getLast? hlast, hmem⟩)
  refine (mentionsConst_iff _).2 ⟨constText, ?_, List.infix_rfl⟩
  rw [tokens, List.mem_append, List.mem_append]
  exact hword.elim Or.inl fun h => Or.inr (Or.inl h)

/-- what `is_retval` sees of a type, however it is spaced -/
theorem isRetval_spelling (t : TypeSpelling) (blanks : List Bool) :
    isRetval (t.spelling blanks) = ((t.isRef || t.hasInnerRef) && !t.mentionsConst) := by
  have hamp : contains (t.spelling blanks) ampText = (t.isRef || t.hasInnerRef) := by
    rw [Bool.eq_iff_iff, contains_iff, ampText, List.singleton_infix_iff, spelling, amp_mem_render t.word_chars,
      amp_mem_tokens, Bool.or_eq_true]
  have hconst : contains (t.spelling blanks) constText = t.mentionsConst := by
    rw [Bool.eq_iff_iff, contains_iff, spelling, infix_render (by decide) constText_nameChars, mentionsConst_iff]
  rw [isRetval, hamp, hconst]

/-- a reference with a `const` in it is one to a const type, and a type that is none and has a `&` in it has a `const` -/
def Legible (t : TypeSpelling) : Prop :=
  (t.isRef = true → t.mentionsConst = true → t.isConst = true) ∧
    (t.isRef = false → t.hasInnerRef = true → t.mentionsConst = true)

theorem isRetval_eq_isOut_iff (t : TypeSpelling) (blanks : List Bool) :
    isRetval (t.spelling blanks) = t.isOut ↔ t.Legible := by
  have himp : t.isConst = true → t.mentionsConst = true := mentionsConst_of_isConst
  rw [isRetval_spelling, isOut, Legible]
  cases t.isRef with
  | true => cases hm : t.mentionsConst <;> cases hc : t.isConst <;> simp [hm, hc] at himp ⊢
  | false => cases t.hasInnerRef <;> cases t.mentionsConst <;> simp

end TypeSpelling

/-! ## Declared parameters -/

/-- a parameter as it is declared to `REGISTER_RMI3` and `MAKE_RMI3` -/
structure DeclaredParam where
  ty : Ty
  type : TypeSpelling
  blanks : List Bool

/-- the parameters `T1, is_retval(#type1), T2, is_retval(#type2), …` of the templates -/
def declaredPack (ps : List DeclaredParam) : Pack := ps.map fun p => (p.ty, isRetval (p.type.spelling p.blanks))

/-- the same with the parameters that the function can modify marked -/
def modifiablePack (ps : List DeclaredParam) : Pack := ps.map fun p => (p.ty, p.type.isOut)

namespace TypeSpelling

/-- **Output parameters, exactly.** `is_retval` tells the references to types that are not const from all others, but
for two kinds: references to types that are not const and have `const` somewhere in them, in front of a pointer, in a
template argument or in a name; and types that are no references, have one among their template arguments and no
`const`. So an answer has just the parameters that the server function can modify if and only if none of them is of
these kinds. -/
theorem is_retval_iff (t : TypeSpelling) (blanks : List Bool) (ps : List DeclaredParam) :
    (isRetval (t.spelling blanks) = t.isOut ↔
      (t.isRef = true → t.mentionsConst = true → t.isConst = true) ∧
        (t.isRef = false → t.hasInnerRef = true → t.mentionsConst = true)) ∧
      (declaredPack ps = modifiablePack ps ↔ ∀ p ∈ ps, p.type.Legible) := by
  refine ⟨isRetval_eq_isOut_iff t blanks, ?_⟩
  calc declaredPack ps = modifiablePack ps ↔
      ∀ p ∈ ps, (p.ty, isRetval (p.type.spelling p.blanks)) = (p.ty, p.type.isOut) := List.map_inj_left
    _ ↔ ∀ p ∈ ps, isRetval (p.type.spelling p.blanks) = p.type.isOut := by simp only [Prod.mk.injEq, true_and]
    _ ↔ ∀ p ∈ ps, p.type.Legible := forall₂_congr fun p _ => isRetval_eq_isOut_iff p.type p.blanks

/-- **A word that is not about the reference.** `const int*&` and `constant&` are references to types that are not
const, and `is_retval` takes them for inputs; `tuple<int&>` is no reference, and it takes it for an output. -/
theorem retval_misread :
    let int : TypeName := ⟨['i', 'n', 't'], rfl, by decide, by decide⟩
    let constant : TypeName := ⟨['c', 'o', 'n', 's', 't', 'a', 'n', 't'], rfl, by decide, by decide⟩
    let tuple : TypeName := ⟨['t', 'u', 'p', 'l', 'e'], rfl, by decide, by decide⟩
    let pointer : TypeSpelling := .mk (.const (.name int .nil)) [false] true
    let named : TypeSpelling := .mk (.name constant .nil) [] true
    let inner : TypeSpelling := .mk (.name tuple (.args (.cons (.mk (.name int .nil) [] true) .nil) .nil)) [] false
    pointer.spelling [] = ['c', 'o', 'n', 's', 't', ' ', 'i', 'n', 't', '*', '&'] ∧
      isRetval (pointer.spelling []) = false ∧ pointer.isOut = true ∧
      isRetval (named.spelling []) = false ∧ named.isOut = true ∧
      inner.spelling [] = ['t', 'u', 'p', 'l', 'e', '<', 'i', 'n', 't', '&', '>'] ∧
      isRetval (inner.spelling []) = true ∧ inner.isOut = false ∧
      ¬ ∀ t : TypeSpelling, isRetval (t.spelling []) = t.isOut := by
  intro int constant tuple pointer named inner
  have hpointer : isRetval (pointer.spelling []) = false := by decide
  have hout : pointer.isOut = true := rfl
  refine ⟨rfl, hpointer, hout, by decide, rfl, rfl, by decide, rfl, ?_⟩
  intro h
  have hall := h pointer
  rw [hpointer, hout] at hall
  cases hall

end TypeSpelling

end NetFramework
