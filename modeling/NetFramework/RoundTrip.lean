/-
The structural round trip of the value format (`round_trip_iff`): what `serialize` writes, `deserialize` reads back, and
it leaves the stream at the text behind the following comma. Strings may not contain quotes or backslashes, and must be
balanced in both kinds of brackets; elements of a vector are tokenised twice, so strings among them may not contain
commas or begin like a bracketed token.

Every text is balanced in both kinds of brackets (`serialize_balanced`), so a bracketed token ends where it should
(`nextToken_serialize`), and whatever follows it must begin with one comma (`Follows`, `After`).

Decoding appends to the vectors that the target holds, and to those that the default constructor of an element leaves in
it (`landed`). So the value comes back only if all of these are empty (`landed_eq_iff`).
-/
import NetFramework.Serialisation

namespace NetFramework

open IStream Bracket

/-! ## Values the format carries -/

structure CleanString (s : Bytes) : Prop where
  noQuote : quote ∉ s
  noBackslash : backslash ∉ s
  square : Balanced lbracket rbracket s
  curly : Balanced lbrace rbrace s

instance (s : Bytes) : Decidable (CleanString s) :=
  decidable_of_iff (quote ∉ s ∧ backslash ∉ s ∧ Balanced lbracket rbracket s ∧ Balanced lbrace rbrace s)
    ⟨fun h => ⟨h.1, h.2.1, h.2.2.1, h.2.2.2⟩, fun h => ⟨h.noQuote, h.noBackslash, h.square, h.curly⟩⟩

theorem CleanString.balanced {s : Bytes} (h : CleanString s) {o e : UInt8} (hb : Brackets o e) : Balanced o e s := by
  cases hb
  · exact h.square
  · exact h.curly

/-- a string that is itself an element of a vector -/
structure CleanElement (s : Bytes) : Prop where
  noComma : comma ∉ s
  noSquare : s.head? ≠ some lbracket
  noCurly : s.head? ≠ some lbrace

instance (s : Bytes) : Decidable (CleanElement s) :=
  decidable_of_iff (comma ∉ s ∧ s.head? ≠ some lbracket ∧ s.head? ≠ some lbrace)
    ⟨fun h => ⟨h.1, h.2.1, h.2.2⟩, fun h => ⟨h.noComma, h.noSquare, h.noCurly⟩⟩

def CleanIn : (t : Ty) → t.Val → Prop
  | .str, str => CleanElement str
  | _, _ => True

mutual

def Clean : (t : Ty) → t.Val → Prop
  | .int, _ => True
  | .str, str => CleanString str
  | .vec t, vec => ∀ v ∈ (vec : List t.Val), Clean t v ∧ CleanIn t v
  | .cls _ fs, obj => CleanFields fs obj

def CleanFields : (fs : Fields) → fs.Vals → Prop
  | .nil, _ => True
  | .cons t fs, obj => Clean t obj.1 ∧ CleanFields fs obj.2

end

/-! ## Values on top of old ones -/

mutual

/-- the target after the text of `new` has been decoded into it -/
def landed : (t : Ty) → (old new : t.Val) → t.Val
  | .int, _, new => new
  | .str, _, new => new
  | .vec t, old, new => (old : List t.Val) ++ (new : List t.Val).map (landed t t.default)
  | .cls _ fs, old, new => landedFields fs old new

def landedFields : (fs : Fields) → (old new : fs.Vals) → fs.Vals
  | .nil, _, _ => ()
  | .cons t fs, old, new => (landed t old.1 new.1, landedFields fs old.2 new.2)

end

mutual

/-- the vectors that are no elements of others are empty -/
def Bare : (t : Ty) → t.Val → Prop
  | .int, _ => True
  | .str, _ => True
  | .vec _, vec => vec = []
  | .cls _ fs, obj => BareFields fs obj

def BareFields : (fs : Fields) → fs.Vals → Prop
  | .nil, _ => True
  | .cons t fs, obj => Bare t obj.1 ∧ BareFields fs obj.2

end

mutual

/-- a default-constructed element of any vector in the value is bare -/
def Fresh : (t : Ty) → t.Val → Prop
  | .int, _ => True
  | .str, _ => True
  | .vec t, vec => ∀ v ∈ (vec : List t.Val), Bare t t.default ∧ Fresh t v
  | .cls _ fs, obj => FreshFields fs obj

def FreshFields : (fs : Fields) → fs.Vals → Prop
  | .nil, _ => True
  | .cons t fs, obj => Fresh t obj.1 ∧ FreshFields fs obj.2

end

/-- elements put behind others, and changed on the way -/
theorem append_map_eq_iff {α : Type} (old vec : List α) (f : α → α) :
    old ++ vec.map f = vec ↔ old = [] ∧ ∀ v ∈ vec, f v = v := by
  have hmap : vec.map f = vec ↔ ∀ v ∈ vec, f v = v := by
    calc vec.map f = vec ↔ vec.map f = vec.map id := by rw [List.map_id]
      _ ↔ ∀ v ∈ vec, f v = v := List.map_inj_left
  refine ⟨?_, ?_⟩
  · intro h
    have hlen := congrArg List.length h
    rw [List.length_append, List.length_map] at hlen
    obtain rfl : old = [] := List.length_eq_zero_iff.1 (by omega)
    exact ⟨rfl, hmap.1 h⟩
  · rintro ⟨rfl, h⟩
    exact hmap.2 h

mutual

theorem landed_eq_iff : (t : Ty) → (old v : t.Val) → (landed t old v = v ↔ Bare t old ∧ Fresh t v)
  | .int, _, _ => ⟨fun _ => ⟨trivial, trivial⟩, fun _ => rfl⟩
  | .str, _, _ => ⟨fun _ => ⟨trivial, trivial⟩, fun _ => rfl⟩
  | .vec t, old, vec => (append_map_eq_iff (α := t.Val) old vec (landed t t.default)).trans
      (and_congr_right fun _ => forall₂_congr fun v _ => landed_eq_iff t t.default v)
  | .cls _ fs, old, obj => landedFields_eq_iff fs old obj

theorem landedFields_eq_iff : (fs : Fields) → (old obj : fs.Vals) →
    (landedFields fs old obj = obj ↔ BareFields fs old ∧ FreshFields fs obj)
  | .nil, _, _ => ⟨fun _ => ⟨trivial, trivial⟩, fun _ => rfl⟩
  | .cons t fs, old, obj => by
    calc landedFields (.cons t fs) old obj = obj
        ↔ landed t old.1 obj.1 = obj.1 ∧ landedFields fs old.2 obj.2 = obj.2 := Prod.ext_iff
      _ ↔ (Bare t old.1 ∧ Fresh t obj.1) ∧ BareFields fs old.2 ∧ FreshFields fs obj.2 :=
          and_congr (landed_eq_iff t old.1 obj.1) (landedFields_eq_iff fs old.2 obj.2)
      _ ↔ BareFields (.cons t fs) old ∧ FreshFields (.cons t fs) obj := and_and_and_comm

end

/-! ## Texts are balanced -/

variable {o e : UInt8}

theorem Brackets.comma_ne (h : Brackets o e) : comma ≠ o ∧ comma ≠ e := by cases h <;> decide

theorem Brackets.quote_ne (h : Brackets o e) : quote ≠ o ∧ quote ≠ e := by cases h <;> decide

/-- a balanced word in brackets, of the same kind or of the other -/
theorem balanced_enclose (h : Brackets o e) {o' e' : UInt8} (h' : Brackets o' e') {s : Bytes} (hs : Balanced o e s) :
    Balanced o e (o' :: s ++ [e']) := by
  have other : ∀ {x y : UInt8}, x ≠ o → x ≠ e → y ≠ o → y ≠ e → Balanced o e (x :: s ++ [y]) :=
    fun hxo hxe hyo hye => (hs.append (balanced_nil.cons hyo hye)).cons hxo hxe
  cases h <;> cases h'
  · exact hs.wrap (by decide)
  · exact other (by decide) (by decide) (by decide) (by decide)
  · exact other (by decide) (by decide) (by decide) (by decide)
  · exact hs.wrap (by decide)

theorem behind_balanced (h : Brackets o e) {texts : List Bytes} (hs : ∀ text ∈ texts, Balanced o e text) :
    Balanced o e (behind texts) := by
  induction texts with
  | nil => exact balanced_nil
  | cons text texts ih =>
    rw [behind_cons]
    exact ((hs text List.mem_cons_self).append (ih fun x hx => hs x (List.mem_cons_of_mem _ hx))).cons
      h.comma_ne.1 h.comma_ne.2

theorem listing_balanced (h : Brackets o e) {texts : List Bytes} (hs : ∀ text ∈ texts, Balanced o e text) :
    Balanced o e (listing texts) := by
  cases texts with
  | nil => exact balanced_nil
  | cons text texts =>
    exact (hs text List.mem_cons_self).append (behind_balanced h fun x hx => hs x (List.mem_cons_of_mem _ hx))

theorem toText_balanced (h : Brackets o e) (d : Int32) : Balanced o e (toText d) := by
  cases h <;>
    exact balanced_of_not_mem (toText_not_mem (by decide) (by decide)) (toText_not_mem (by decide) (by decide))

theorem serializeString_balanced (h : Brackets o e) {s : Bytes} (hs : CleanString s) :
    Balanced o e (serializeString s) := by
  rw [serializeString_eq, escape_of_not_mem hs.noQuote]
  exact ((hs.balanced h).append (balanced_nil.cons h.quote_ne.1 h.quote_ne.2)).cons h.quote_ne.1 h.quote_ne.2

mutual

theorem serialize_balanced (h : Brackets o e) : (t : Ty) → (v : t.Val) → Clean t v → Balanced o e (serialize t v)
  | .int, d, _ => toText_balanced h d
  | .str, _, hv => serializeString_balanced h hv
  | .vec t, vec, hv => by
    rw [serialize_vec]
    refine balanced_enclose h .square (listing_balanced h ?_)
    intro text htext
    obtain ⟨v, hmem, rfl⟩ := List.mem_map.1 htext
    exact serialize_balanced h t v (hv v hmem).1
  | .cls _ fs, obj, hv => by
    rw [serialize_cls]
    exact balanced_enclose h .curly (listing_balanced h (texts_balanced h fs obj hv))

theorem texts_balanced (h : Brackets o e) :
    (fs : Fields) → (obj : fs.Vals) → CleanFields fs obj → ∀ text ∈ texts fs obj, Balanced o e text
  | .nil, _, _ => fun _ htext => by cases htext
  | .cons t fs, obj, hv => fun text htext => by
    rcases List.mem_cons.1 htext with rfl | htext
    · exact serialize_balanced h t obj.1 hv.1
    · exact texts_balanced h fs obj.2 hv.2 text htext

end

/-! ## Texts as tokens -/

theorem serialize_head (t : Ty) (v : t.Val) : ∃ c cs, serialize t v = c :: cs ∧ c ≠ comma := by
  match t with
  | .int =>
    obtain ⟨c, cs, hc⟩ := List.exists_cons_of_ne_nil (toText_ne_nil v)
    refine ⟨c, cs, hc, ?_⟩
    rintro rfl
    exact toText_not_mem (x := comma) (by decide) (by decide) (hc ▸ List.mem_cons_self)
  | .str => exact ⟨quote, _, rfl, by decide⟩
  | .vec t => exact ⟨lbracket, _, serialize_vec t v, by decide⟩
  | .cls _ fs => exact ⟨lbrace, _, serialize_cls fs v, by decide⟩

/-- a text that can stand in a listing -/
def Item (text : Bytes) : Prop := ∃ c cs, text = c :: cs ∧ c ≠ comma

theorem follows_behind {texts : List Bytes} (hs : ∀ text ∈ texts, Item text) : Follows (behind texts) := by
  cases texts with
  | nil => exact .nil
  | cons text texts =>
    obtain ⟨c, cs, rfl, hc⟩ := hs text List.mem_cons_self
    exact .comma _ (by simpa using hc)

/-- behind a token of a listing the stream is at the rest of the listing -/
theorem After.at_listing {text : Bytes} {texts : List Bytes} {s : IStream} (h : After (behind (text :: texts)) s)
    (ht : Item text) : s = good (listing (text :: texts)) := by
  obtain ⟨c, cs, rfl, _⟩ := ht
  rw [behind_cons, List.cons_append] at h
  exact h.at_text

theorem texts_item (fs : Fields) (obj : fs.Vals) : ∀ text ∈ texts fs obj, Item text := by
  match fs with
  | .nil => intro _ h; cases h
  | .cons t fs =>
    intro text htext
    rcases List.mem_cons.1 htext with rfl | htext
    · exact serialize_head t obj.1
    · exact texts_item fs obj.2 text htext

/-- the token of a value's text: a string loses its quotes -/
def tokenText : (t : Ty) → t.Val → Bytes
  | .str, str => str
  | t, v => serialize t v

theorem nextToken_serializeString {s tail : Bytes} (hs : CleanString s) (ht : Follows tail) :
    ∃ st, nextToken (good (serializeString s ++ tail)) = (s, st) ∧ After tail st := by
  refine ⟨_, ?_, after_skipComma ht⟩
  rw [nextToken_string hs.noBackslash, escape_of_not_mem hs.noQuote]

theorem nextToken_toText (d : Int32) {tail : Bytes} (ht : Follows tail) :
    nextToken (good (toText d ++ tail)) = (toText d, afterGet tail) := by
  obtain ⟨c, cs, hc⟩ := List.exists_cons_of_ne_nil (toText_ne_nil d)
  have hmem : c ∈ toText d := hc ▸ List.mem_cons_self
  have hne : ∀ x : UInt8, Decimal.isDigit x = false → x ≠ minus → c ≠ x := by
    rintro x hx hm rfl
    exact toText_not_mem hx hm hmem
  have hcomma : comma ∉ c :: cs := hc ▸ toText_not_mem (by decide) (by decide)
  rw [hc]
  exact nextToken_plain ⟨hne _ (by decide) (by decide), hne _ (by decide) (by decide), hne _ (by decide) (by decide)⟩
    hcomma ht

theorem nextToken_enclosed (h : Brackets o e) {body : Bytes} (hb : Balanced o e body) {tail : Bytes}
    (ht : Follows tail) :
    ∃ st, nextToken (good (o :: body ++ [e] ++ tail)) = (o :: body ++ [e], st) ∧ After tail st := by
  refine ⟨_, ?_, after_get_skipComma ht⟩
  rw [List.append_assoc]
  exact nextToken_bracket h hb tail

/-- what a bracketed text encloses -/
theorem elements_balanced (h : Brackets o e) {t : Ty} {vec : List t.Val} (hv : ∀ v ∈ vec, Clean t v) :
    Balanced o e (listing (vec.map (serialize t))) := by
  apply listing_balanced h
  intro text htext
  obtain ⟨v, hmem, rfl⟩ := List.mem_map.1 htext
  exact serialize_balanced h t v (hv v hmem)

theorem listing_clean (h : Brackets o e) {t : Ty} {vec : List t.Val} (hv : ∀ v ∈ vec, Clean t v ∧ CleanIn t v) :
    Balanced o e (listing (vec.map (serialize t))) :=
  elements_balanced h fun v hmem => (hv v hmem).1

theorem nextToken_serialize (t : Ty) (v : t.Val) (hv : Clean t v) {tail : Bytes} (ht : Follows tail) :
    ∃ st, nextToken (good (serialize t v ++ tail)) = (tokenText t v, st) ∧ After tail st := by
  match t with
  | .int => exact ⟨_, nextToken_toText v ht, after_get ht⟩
  | .str => exact nextToken_serializeString hv ht
  | .vec t =>
    rw [tokenText, serialize_vec]
    · exact nextToken_enclosed .square (listing_clean .square hv) ht
    · nofun
  | .cls _ fs =>
    rw [tokenText, serialize_cls]
    · exact nextToken_enclosed .curly (listing_balanced .curly (texts_balanced .curly fs v hv)) ht
    · nofun

/-! ## Reading back -/

theorem deserialize_int (d : Int32) (old : Int32) {tail : Bytes} (ht : Follows tail) :
    ∃ st, After tail st ∧ deserialize .int (good (toText d ++ tail)) old = .ok (d, st) := by
  refine ⟨_, after_get ht, ?_⟩
  simp only [deserialize, nextToken_toText d ht, stoi_toText]
  rfl

theorem deserialize_str {str : Bytes} (old : Bytes) (hs : CleanString str) {tail : Bytes} (ht : Follows tail) :
    ∃ st, After tail st ∧ deserialize .str (good (serializeString str ++ tail)) old = .ok (str, st) := by
  obtain ⟨st, hst, hafter⟩ := nextToken_serializeString hs ht
  exact ⟨st, hafter, by simp only [deserialize, hst]⟩

/-- an element of a vector is read from the token of its text -/
theorem deserialize_token {t : Ty} {v : t.Val} (old : t.Val) (hv : Clean t v) (hin : CleanIn t v)
    (h : ∃ st, deserialize t (good (serialize t v)) old = .ok (landed t old v, st)) :
    ∃ st, deserialize t (good (tokenText t v)) old = .ok (landed t old v, st) := by
  match t with
  | .int => exact h
  | .vec _ => exact h
  | .cls _ _ => exact h
  | .str =>
    obtain ⟨hcomma, hsquare, hcurly⟩ := hin
    refine ⟨eof, ?_⟩
    cases v with
    | nil => rfl
    | cons c cs =>
      have hc : c ≠ lbracket ∧ c ≠ lbrace ∧ c ≠ quote := by
        refine ⟨by simpa using hsquare, by simpa using hcurly, ?_⟩
        rintro rfl
        exact hv.noQuote List.mem_cons_self
      have := nextToken_plain hc hcomma .nil
      rw [List.append_nil] at this
      simp only [tokenText, deserialize, this]
      rfl

/-- the loop over the elements reads each of them from its token -/
theorem seqLoop_listing_map {t : Ty} (read : t.Val → t.Val) {vec : List t.Val} (hv : ∀ v ∈ vec, Clean t v)
    (hdeser : ∀ v ∈ vec, ∃ st, deserialize t (good (tokenText t v)) t.default = .ok (read v, st)) (done : List t.Val)
    (hne : vec ≠ []) :
    seqLoop (fun elemData => deserialize t elemData t.default) (good (listing (vec.map (serialize t)))).size
      (good (listing (vec.map (serialize t)))) done = .ok (done ++ vec.map read) := by
  induction vec generalizing done with
  | nil => exact absurd rfl hne
  | cons v vec ih =>
    have hitems : ∀ text ∈ vec.map (serialize t), Item text := by
      intro text htext
      obtain ⟨w, _, rfl⟩ := List.mem_map.1 htext
      exact serialize_head t w
    obtain ⟨st, hst, hafter⟩ := nextToken_serialize t v (hv v List.mem_cons_self) (follows_behind hitems)
    obtain ⟨elemData, helem⟩ := hdeser v List.mem_cons_self
    rw [List.map_cons, listing, seqLoop_round _ (by simp) (by rw [hst]; exact helem), hst]
    cases vec with
    | nil =>
      have heof : st = eof := by simpa [After] using hafter
      rw [heof]; rfl
    | cons w vec =>
      have hgood := hafter.at_listing (hitems _ List.mem_cons_self)
      simp only [hgood]
      rw [← List.map_cons, ih (fun x hx => hv x (List.mem_cons_of_mem _ hx))
        (fun x hx => hdeser x (List.mem_cons_of_mem _ hx)) _ (by simp)]
      simp

/-- a token without its first and last characters, which is all that decides where an object or a sequence begins -/
theorem cut_enclosed (body : Bytes) (x y : UInt8) : (good (x :: body ++ [y]).dropLast).get.2 = good body := by
  rw [List.dropLast_concat]
  rfl

theorem objectDeser_enclosed {s st : IStream} {body : Bytes} (h : nextToken s = (lbrace :: body ++ [rbrace], st)) :
    objectDeser s = (good body, st) := by
  unfold objectDeser
  rw [h]
  cases body with
  | nil => rfl
  | cons c body => simp only [cut_enclosed]; simp

theorem deserializeSequence_enclosed_map {t : Ty} (read : t.Val → t.Val) {vec : List t.Val} (old : List t.Val)
    (hv : ∀ v ∈ vec, Clean t v)
    (hdeser : ∀ v ∈ vec, ∃ st, deserialize t (good (tokenText t v)) t.default = .ok (read v, st)) {s st : IStream}
    (h : nextToken s = (lbracket :: listing (vec.map (serialize t)) ++ [rbracket], st)) :
    deserializeSequence (fun elemData => deserialize t elemData t.default) s old = .ok (old ++ vec.map read, st) := by
  unfold deserializeSequence
  rw [h]
  cases vec with
  | nil => exact congrArg (fun vec => Except.ok (vec, st)) (List.append_nil old).symm
  | cons v vec =>
    obtain ⟨c, cs, hc, _⟩ := serialize_head t v
    have hlen : (lbracket :: listing ((v :: vec).map (serialize t)) ++ [rbracket]).length > 2 := by simp [listing, hc]
    simp only [if_pos hlen, cut_enclosed, seqLoop_listing_map read hv hdeser old (List.cons_ne_nil _ _)]
    rfl

mutual

/-- a clean value is read, and put onto what the target held -/
theorem deserialize_serialize : (t : Ty) → (v old : t.Val) → Clean t v → {tail : Bytes} → Follows tail →
    ∃ st, After tail st ∧ deserialize t (good (serialize t v ++ tail)) old = .ok (landed t old v, st)
  | .int, d, old, _, _, ht => deserialize_int d old ht
  | .str, _, old, hv, _, ht => deserialize_str old hv ht
  | .vec t, vec, old, hv, tail, ht => by
    have hread : ∀ v ∈ vec, ∃ st,
        deserialize t (good (tokenText t v)) t.default = .ok (landed t t.default v, st) := by
      intro v hmem
      obtain ⟨st, _, hst⟩ := deserialize_serialize t v t.default (hv v hmem).1 .nil
      rw [List.append_nil] at hst
      exact deserialize_token t.default (hv v hmem).1 (hv v hmem).2 ⟨st, hst⟩
    obtain ⟨st, hst, hafter⟩ := nextToken_enclosed .square (listing_clean .square hv) ht
    refine ⟨st, hafter, ?_⟩
    rw [serialize_vec]
    exact deserializeSequence_enclosed_map (landed t t.default) old (fun v hmem => (hv v hmem).1) hread hst
  | .cls _ fs, obj, old, hv, _, ht => by
    obtain ⟨st, hst, hafter⟩ := nextToken_enclosed .curly (listing_balanced .curly (texts_balanced .curly fs obj hv)) ht
    obtain ⟨deser, hdeser⟩ := deserializeFields_texts fs obj old hv
    refine ⟨st, hafter, ?_⟩
    rw [serialize_cls]
    simp only [deserialize, objectDeser_enclosed hst, hdeser]
    rfl

theorem deserializeFields_texts : (fs : Fields) → (obj old : fs.Vals) → CleanFields fs obj →
    ∃ deser, deserializeFields fs (good (listing (texts fs obj))) old = .ok (landedFields fs old obj, deser)
  | .nil, _, _, _ => ⟨_, rfl⟩
  | .cons t fs, (v, vs), old, hv => by
    obtain ⟨st, hafter, hst⟩ := deserialize_serialize t v old.1 hv.1 (follows_behind (texts_item fs vs))
    have hrest : ∃ deser, deserializeFields fs st old.2 = .ok (landedFields fs old.2 vs, deser) := by
      cases fs with
      | nil => exact ⟨st, rfl⟩
      | cons t' fs =>
        rw [hafter.at_listing (texts_item (.cons t' fs) vs _ List.mem_cons_self)]
        exact deserializeFields_texts (.cons t' fs) vs old.2 hv.2
    obtain ⟨deser, hdeser⟩ := hrest
    exact ⟨deser, deserializeFields_cons.2 ⟨st, hst, hdeser⟩⟩

end

/-! ## Main results -/

/-- the text of `v`, read into a default-constructed target, gives `v` back; and if a comma and any text that does not
begin with another comma follow, the stream is left exactly at that text -/
def RoundTrips (t : Ty) (v : t.Val) : Prop :=
  (∃ st, deserialize t (good (serialize t v)) t.default = .ok (v, st)) ∧
    ∀ more : Bytes, more.head? ≠ some comma →
      ∃ st, deserialize t (good (serialize t v ++ comma :: more)) t.default = .ok (v, st) ∧ st.rest = more

/-- **Structural round trip, exactly.** For every type and every value the format can carry: the value makes the round
trip if and only if the default constructors leave no elements in the vectors that are decoded into, those of the target
and those of the elements of every vector in the value. -/
theorem round_trip_iff (t : Ty) (v : t.Val) (hv : Clean t v) : RoundTrips t v ↔ Bare t t.default ∧ Fresh t v := by
  rw [← landed_eq_iff]
  refine ⟨?_, ?_⟩
  · rintro ⟨⟨st, hst⟩, -⟩
    obtain ⟨st', -, hread⟩ := deserialize_serialize t v t.default hv .nil
    rw [List.append_nil, hst] at hread
    exact (Prod.mk.inj (Except.ok.inj hread)).1.symm
  · intro h
    refine ⟨?_, ?_⟩
    · obtain ⟨st, -, hread⟩ := deserialize_serialize t v t.default hv .nil
      rw [List.append_nil, h] at hread
      exact ⟨st, hread⟩
    · intro more hmore
      obtain ⟨st, hafter, hread⟩ := deserialize_serialize t v t.default hv (.comma more hmore)
      rw [h] at hread
      exact ⟨st, hread, by simpa [After] using hafter⟩

/-- a vector of objects with an integer, a string and a vector of strings each, which their constructor leaves empty -/
theorem round_trip_nested :
    RoundTrips (.vec (.cls [] (.cons .int (.cons .str (.cons (.vec .str) .nil)))))
      [(-12, [91, 44, 93], [[98, 123, 125], []], ()), (7, [123, 44, 125], [], ())] := by
  refine (round_trip_iff _ _ ?_).2 ⟨rfl, ?_⟩
  · simp [Clean, CleanFields, CleanIn]
    decide
  · simp [Fresh, FreshFields, Bare, BareFields, Ty.default, Fields.ofData, Ty.ofData]

/-- **A default element stays.** An object whose constructor puts 1 into its vector, read from the text of one whose
vector holds 2, holds both; and so does each object of a vector. -/
theorem default_element_stays :
    let t : Ty := .cls [.list [.int 1]] (.cons (.vec .int) .nil)
    serialize t (([2] : List Int32), ()) = [123, 91, 50, 93, 125] ∧
      deserialize t (good [123, 91, 50, 93, 125]) t.default = .ok ((([1, 2] : List Int32), ()), eof) ∧
        deserialize (.vec t) (good [91, 123, 91, 50, 93, 125, 93]) [] = .ok ([(([1, 2] : List Int32), ())], eof) ∧
          Clean t (([2] : List Int32), ()) ∧ ¬ RoundTrips t (([2] : List Int32), ()) := by
  intro t
  have hread : deserialize t (good [123, 91, 50, 93, 125]) t.default = .ok ((([1, 2] : List Int32), ()), eof) := rfl
  refine ⟨by decide, hread, rfl, ?_, ?_⟩
  · simp [t, Clean, CleanFields, CleanIn]
  · intro h
    obtain ⟨st, hst⟩ := h.1
    rw [show serialize t (([2] : List Int32), ()) = [123, 91, 50, 93, 125] by decide, hread] at hst
    exact absurd (Prod.mk.inj (Except.ok.inj hst)).1 (by decide)

end NetFramework
