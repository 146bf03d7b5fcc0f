/-
Objects whose fields are integers and strings: the argument lists and answers of remote calls. Their strings contain
none of the characters the format gives a meaning to (`PlainString`).

They hold no vectors, so it does not matter what a target held before (`deserializeFields_plain`), and a text without its
closing brace is read back if and only if its last field is a string (`unclosed_read`).
-/
import NetFramework.UnclosedText

namespace NetFramework

open IStream Bracket

/-! ## Integers and strings -/

structure PlainString (s : Bytes) : Prop where
  noQuote : quote ∉ s
  noBackslash : backslash ∉ s
  noLbracket : lbracket ∉ s
  noRbracket : rbracket ∉ s
  noLbrace : lbrace ∉ s
  noRbrace : rbrace ∉ s

instance (s : Bytes) : Decidable (PlainString s) :=
  decidable_of_iff
    (quote ∉ s ∧ backslash ∉ s ∧ lbracket ∉ s ∧ rbracket ∉ s ∧ lbrace ∉ s ∧ rbrace ∉ s)
    ⟨fun h => ⟨h.1, h.2.1, h.2.2.1, h.2.2.2.1, h.2.2.2.2.1, h.2.2.2.2.2⟩,
      fun h => ⟨h.noQuote, h.noBackslash, h.noLbracket, h.noRbracket, h.noLbrace, h.noRbrace⟩⟩

theorem PlainString.clean {s : Bytes} (h : PlainString s) : CleanString s :=
  ⟨h.noQuote, h.noBackslash, balanced_of_not_mem h.noLbracket h.noRbracket, balanced_of_not_mem h.noLbrace h.noRbrace⟩

/-- a value that a field of an argument list may have -/
def PlainVal : (t : Ty) → t.Val → Prop
  | .int, _ => True
  | .str, s => PlainString s
  | _, _ => False

def PlainFields : (fs : Fields) → fs.Vals → Prop
  | .nil, _ => True
  | .cons t fs, obj => PlainVal t obj.1 ∧ PlainFields fs obj.2

/-- the type of the last field -/
def Fields.last? : Fields → Option Ty
  | .nil => none
  | .cons t .nil => some t
  | .cons _ (.cons t fs) => Fields.last? (.cons t fs)

theorem PlainVal.clean {t : Ty} {v : t.Val} (hv : PlainVal t v) : Clean t v := by
  cases t with
  | int => trivial
  | str => exact PlainString.clean hv
  | vec _ => exact hv.elim
  | cls _ _ => exact hv.elim

theorem PlainFields.clean : {fs : Fields} → {obj : fs.Vals} → PlainFields fs obj → CleanFields fs obj
  | .nil, _, _ => trivial
  | .cons _ _, _, hv => ⟨hv.1.clean, PlainFields.clean hv.2⟩

/-- a plain value is what is left in its target, whatever that held -/
theorem PlainVal.landed {t : Ty} {v : t.Val} (hv : PlainVal t v) (old : t.Val) : Bare t old ∧ Fresh t v := by
  cases t with
  | int => exact ⟨trivial, trivial⟩
  | str => exact ⟨trivial, trivial⟩
  | vec _ => exact hv.elim
  | cls _ _ => exact hv.elim

theorem PlainFields.landed : {fs : Fields} → {obj : fs.Vals} → PlainFields fs obj → (old : fs.Vals) →
    landedFields fs old obj = obj
  | .nil, _, _, _ => rfl
  | .cons t _, obj, hv, old =>
    Prod.ext ((landed_eq_iff t old.1 obj.1).2 (hv.1.landed old.1)) (PlainFields.landed hv.2 old.2)

/-! ## Complete texts -/

theorem serializeString_plain {s : Bytes} (hs : PlainString s) : serializeString s = quote :: s ++ [quote] := by
  rw [serializeString_eq, escape_of_not_mem hs.noQuote]

/-- a complete text is read back -/
theorem deserializeFields_plain {fs : Fields} {obj : fs.Vals} (hv : PlainFields fs obj) (old : fs.Vals) :
    ∃ deser, deserializeFields fs (objectDeser (good (serialize (.cls [] fs) obj))).1 old = .ok (obj, deser) := by
  obtain ⟨st, hst, -⟩ :=
    nextToken_enclosed .curly (listing_balanced .curly (texts_balanced .curly fs obj hv.clean)) .nil
  rw [List.append_nil] at hst
  rw [serialize_cls, objectDeser_enclosed hst]
  obtain ⟨deser, hread⟩ := deserializeFields_texts fs obj old hv.clean
  rw [hv.landed old] at hread
  exact ⟨deser, hread⟩

/-- the characters with a meaning, except the quote -/
def reserved : Bytes := [backslash, lbracket, rbracket, lbrace, rbrace]

theorem reserved_ne : ∀ x ∈ reserved, Decimal.isDigit x = false ∧ x ≠ minus ∧ x ≠ quote ∧ x ≠ comma := by
  intro x hx
  simp only [reserved, List.mem_cons, List.not_mem_nil, or_false] at hx
  rcases hx with rfl | rfl | rfl | rfl | rfl <;> decide

theorem PlainString.not_mem {s : Bytes} (hs : PlainString s) {x : UInt8} (hx : x ∈ reserved) : x ∉ s := by
  simp only [reserved, List.mem_cons, List.not_mem_nil, or_false] at hx
  rcases hx with rfl | rfl | rfl | rfl | rfl
  · exact hs.noBackslash
  · exact hs.noLbracket
  · exact hs.noRbracket
  · exact hs.noLbrace
  · exact hs.noRbrace

theorem plain_not_mem {t : Ty} {v : t.Val} (hv : PlainVal t v) {x : UInt8} (hx : x ∈ reserved) :
    x ∉ serialize t v := by
  obtain ⟨hdigit, hminus, hquote, -⟩ := reserved_ne x hx
  cases t with
  | int => exact toText_not_mem hdigit hminus
  | str =>
    have htext := serializeString_plain hv
    have hmem := PlainString.not_mem hv hx
    rw [serialize, htext]
    simp [hquote, hmem]
  | vec _ => exact hv.elim
  | cls _ _ => exact hv.elim

theorem behind_not_mem {fs : Fields} {obj : fs.Vals} (hv : PlainFields fs obj) {x : UInt8} (hx : x ∈ reserved) :
    x ∉ behind (texts fs obj) := by
  have hc : x ≠ comma := (reserved_ne x hx).2.2.2
  match fs with
  | .nil => simp [texts]
  | .cons t fs => simp [texts, hc, plain_not_mem hv.1 hx, behind_not_mem hv.2 hx]

theorem listing_not_mem {fs : Fields} {obj : fs.Vals} (hv : PlainFields fs obj) {x : UInt8} (hx : x ∈ reserved) :
    x ∉ listing (texts fs obj) := by
  match fs with
  | .nil => simp [texts, listing]
  | .cons t fs => simp [texts, listing, plain_not_mem hv.1 hx, behind_not_mem hv.2 hx]

def Fields.hasStr : Fields → Bool
  | .nil => false
  | .cons .str _ => true
  | .cons _ fs => fs.hasStr

theorem quote_mem_behind {fs : Fields} {obj : fs.Vals} (hv : PlainFields fs obj) :
    quote ∈ behind (texts fs obj) ↔ fs.hasStr = true := by
  match fs with
  | .nil => simp [texts, Fields.hasStr]
  | .cons .int fs =>
    have hint : quote ∉ toText obj.1 := toText_not_mem (by decide) (by decide)
    have hc : quote ≠ comma := by decide
    simp [texts, serialize, hint, hc, Fields.hasStr, quote_mem_behind hv.2]
  | .cons .str fs => simp [texts, serialize, serializeString, Fields.hasStr]
  | .cons (.vec _) _ => exact hv.1.elim
  | .cons (.cls _ _) _ => exact hv.1.elim

/-- an argument list has quotes in its text if and only if it has a string -/
theorem quote_mem_text {fs : Fields} {obj : fs.Vals} (hv : PlainFields fs obj) :
    quote ∈ serialize (.cls [] fs) obj ↔ fs.hasStr = true := by
  have hc : quote ≠ comma := by decide
  have hl : quote ≠ lbrace ∧ quote ≠ rbrace := by decide
  rw [serialize_cls, ← quote_mem_behind hv]
  match fs with
  | .nil => simp [texts, listing, hl]
  | .cons t fs => simp [texts, listing, hl, hc]

/-! ## Texts without the closing brace -/

theorem survives_plain : {fs : Fields} → {obj : fs.Vals} → PlainFields fs obj → (old : fs.Vals) →
    (SurvivesFields fs old obj ↔ fs.last? ≠ some .int)
  | .nil, _, _, _ => ⟨fun _ => nofun, fun _ => trivial⟩
  | .cons .int .nil, _, _, _ => ⟨False.elim, fun h => h rfl⟩
  | .cons .str .nil, _, _, _ => ⟨fun _ => nofun, fun _ => trivial⟩
  | .cons (.vec _) .nil, _, hv, _ => hv.1.elim
  | .cons (.cls _ _) .nil, _, hv, _ => hv.1.elim
  | .cons t (.cons t' fs), obj, hv, old => by
    rw [SurvivesFields, Fields.last?, @survives_plain (.cons t' fs) _ hv.2 old.2]
    exact and_iff_right (hv.1.landed old.1)

/-- **Objects without the closing brace.** What an `ObjectSer` that is still alive has written is read back if its last
field is not an integer, and only then. -/
theorem unclosed_read {fs : Fields} {obj : fs.Vals} (old : fs.Vals) (hv : PlainFields fs obj) :
    (∃ st, deserializeFields fs (objectDeser (good (serializeFields fs obj (.init [])).out)).1 old = .ok (obj, st)) ↔
      fs.last? ≠ some .int :=
  (unclosed_read_iff old hv.clean).trans (survives_plain hv old)

end NetFramework
