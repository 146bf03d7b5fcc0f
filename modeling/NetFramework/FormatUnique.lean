/-
What the format keeps. The decoder of serialisation.cpp reads a text from the front and is misled by quotes, backslashes
and brackets inside strings. The text itself loses nothing: read from the back, every value has one beginning and one
meaning, because a quote that opens a string stands behind a bracket or a comma and a quote inside it behind a backslash.

- `format_unique`: two values of a type have the same text only if they are equal, and so have the data of two requests.
- `wire_unique`: the bytes of a row of packets determine the packets, as long as each of them is shorter than 4 GB.
-/
import NetFramework.Library.SuffixCode
import NetFramework.Library.Framing
import NetFramework.FrameGrammar
import NetFramework.HandlerManager
import NetFramework.RemoteCall

namespace NetFramework

open SuffixCode CoreProto Framing

/-! ## Letters -/

/-- the letters behind which a value begins -/
def Opening (c : UInt8) : Prop := c = comma ∨ c = lbracket ∨ c = lbrace

instance (c : UInt8) : Decidable (Opening c) := by unfold Opening; infer_instance

theorem closed_concat (u : Bytes) {c : UInt8} (h : ¬ Opening c) : Closed Opening (u ++ [c]) := ⟨u, c, rfl, h⟩

theorem toText_letter {d : Int32} {c : UInt8} (h : c ∈ toText d) : ¬ Opening c := by
  rintro (rfl | rfl | rfl) <;> exact toText_not_mem (by decide) (by decide) h

theorem toText_closed (d : Int32) : Closed Opening (toText d) := by
  obtain ⟨u, c, hu⟩ := (List.eq_nil_or_concat (toText d)).resolve_left (toText_ne_nil d)
  rw [List.concat_eq_append] at hu
  exact ⟨u, c, hu, toText_letter (hu ▸ List.mem_append_right u (List.mem_singleton_self c))⟩

/-- a text does not end like one behind which another begins -/
theorem serialize_closed (t : Ty) (v : t.Val) : Closed Opening (serialize t v) := by
  cases t with
  | int => exact toText_closed v
  | str => rw [serialize, serializeString_eq]; exact closed_concat _ (by decide)
  | vec t => rw [serialize_vec]; exact closed_concat _ (by decide)
  | cls init fs => rw [serialize_cls]; exact closed_concat _ (by decide)

/-! ## Numbers and strings -/

theorem toText_unambiguous : Unambiguous Opening toText := by
  refine Apart.unambiguous (fun a b => apart_of_letters (fun _ => toText_letter) (fun _ => toText_letter)) ?_
  intro a b h
  have hread := stoi_toText a
  rw [h, stoi_toText] at hread
  exact (Except.ok.inj hread).symm

theorem escape_concat_quote (s : Bytes) : escape (s ++ [quote]) = escape s ++ [backslash] ++ [quote] := by
  rw [escape_append]; simp [escape]

theorem escape_concat_ne (s : Bytes) {c : UInt8} (h : c ≠ quote) : escape (s ++ [c]) = escape s ++ [c] := by
  rw [escape_append]; simp [escape, h]

/-- a quote behind an opening letter is not the last of a string's contents -/
theorem opening_quote_ne {p q s : Bytes} {c : UInt8} (hp : Ends Opening p) :
    p ++ [quote] ≠ q ++ quote :: escape (s ++ [c]) := by
  intro h
  by_cases hc : c = quote
  · subst hc
    rw [escape_concat_quote, ← List.cons_append, ← List.cons_append, ← List.append_assoc, ← List.append_assoc] at h
    obtain ⟨rfl, -⟩ := concat_inj h
    exact absurd hp.concat (by decide)
  · rw [escape_concat_ne s hc, ← List.cons_append, ← List.append_assoc] at h
    exact hc (concat_inj h).2.symm

/-- the contents of a string, read from the back up to its opening quote -/
theorem contents_unique {p q s t : Bytes} (hp : Ends Opening p) (hq : Ends Opening q)
    (h : p ++ quote :: escape s = q ++ quote :: escape t) : p = q ∧ s = t := by
  induction s using List.reverseRecOn generalizing t with
  | nil =>
    rcases List.eq_nil_or_concat t with rfl | ⟨t, d, rfl⟩
    · exact ⟨(concat_inj h).1, rfl⟩
    · rw [List.concat_eq_append] at h
      exact absurd h (opening_quote_ne hp)
  | append_singleton s c ih =>
    rcases List.eq_nil_or_concat t with rfl | ⟨t, d, rfl⟩
    · exact absurd h.symm (opening_quote_ne hq)
    · rw [List.concat_eq_append] at h ⊢
      have hsame : c = d → p ++ quote :: escape s = q ++ quote :: escape t → p = q ∧ s ++ [c] = t ++ [d] := by
        rintro rfl hst
        obtain ⟨hpq, rfl⟩ := ih hst
        exact ⟨hpq, rfl⟩
      by_cases hc : c = quote <;> by_cases hd : d = quote
      · subst hc hd
        simp only [escape_concat_quote, ← List.cons_append, ← List.append_assoc] at h
        exact hsame rfl (concat_inj (concat_inj h).1).1
      · subst hc
        simp only [escape_concat_quote, escape_concat_ne t hd, ← List.cons_append, ← List.append_assoc] at h
        exact absurd (concat_inj h).2.symm hd
      · subst hd
        simp only [escape_concat_quote, escape_concat_ne s hc, ← List.cons_append, ← List.append_assoc] at h
        exact absurd (concat_inj h).2 hc
      · simp only [escape_concat_ne s hc, escape_concat_ne t hd, ← List.cons_append, ← List.append_assoc] at h
        exact hsame (concat_inj h).2 (concat_inj h).1

theorem serializeString_unambiguous : Unambiguous Opening serializeString := by
  intro s t p q hp hq h
  rw [serializeString_eq, serializeString_eq, ← List.append_assoc, ← List.append_assoc] at h
  exact contents_unique hp hq (concat_inj h).1

/-! ## Listings -/

theorem listing_concat {texts : List Bytes} (h : texts ≠ []) (text : Bytes) :
    listing (texts ++ [text]) = listing texts ++ comma :: text := by
  obtain ⟨first, rest, rfl⟩ := List.exists_cons_of_ne_nil h
  simp [listing, behind]

theorem listing_joined (texts : List Bytes) : listing texts.reverse = joined comma texts := by
  induction texts with
  | nil => rfl
  | cons text texts ih =>
    rw [List.reverse_cons, joined_cons]
    cases texts with
    | nil => simp [listing, before]
    | cons next texts => rw [listing_concat (by simp), ih, before, List.append_assoc, List.singleton_append]

/-- the texts of a listing behind its opening bracket, each apart from the one at the same place counted from the back -/
theorem listing_unique {o : UInt8} (ho : Opening o) (hne : o ≠ comma) {xs ys : List Bytes}
    (hx : ∀ x ∈ xs, Closed Opening x) (hy : ∀ y ∈ ys, Closed Opening y)
    (hapart : ∀ (i : ℕ) x y, xs.reverse[i]? = some x → ys.reverse[i]? = some y → Apart Opening x y) {p q : Bytes}
    (h : p ++ [o] ++ listing xs = q ++ [o] ++ listing ys) : p = q ∧ xs = ys := by
  rw [← xs.reverse_reverse, ← ys.reverse_reverse, listing_joined, listing_joined] at h
  obtain ⟨hpq, hrev⟩ := joined_unique (S := Opening) (Or.inl rfl) ho hne (fun x hm => hx x (List.mem_reverse.1 hm))
    (fun y hm => hy y (List.mem_reverse.1 hm)) hapart h
  exact ⟨hpq, List.reverse_injective hrev⟩

/-- a listing with its two brackets -/
theorem brackets_assoc (p : Bytes) (o e : UInt8) (text : Bytes) :
    p ++ (o :: text ++ [e]) = p ++ [o] ++ text ++ [e] := by simp

theorem texts_length (fs : Fields) (obj : fs.Vals) (obj' : fs.Vals) :
    (texts fs obj).length = (texts fs obj').length := by
  cases fs with
  | nil => rfl
  | cons t fs => exact congrArg (· + 1) (texts_length fs obj.2 obj'.2)

theorem texts_closed (fs : Fields) (obj : fs.Vals) : ∀ text ∈ texts fs obj, Closed Opening text := by
  match fs with
  | .nil => exact fun text h => absurd h List.not_mem_nil
  | .cons t fs =>
    intro text h
    rcases List.mem_cons.1 h with rfl | h
    · exact serialize_closed t obj.1
    · exact texts_closed fs obj.2 text h

/-! ## Values -/

/-- of two objects of a class, the texts of each field are apart, and no two objects have the same texts -/
structure FieldsUnambiguous (fs : Fields) : Prop where
  apart : ∀ (obj obj' : fs.Vals) (i : ℕ) x y,
    (texts fs obj)[i]? = some x → (texts fs obj')[i]? = some y → Apart Opening x y
  injective : Function.Injective (texts fs)

/-- fields listed behind a brace -/
theorem FieldsUnambiguous.listed {fs : Fields} (h : FieldsUnambiguous fs) {obj obj' : fs.Vals} {p q : Bytes}
    (heq : p ++ [lbrace] ++ listing (texts fs obj) = q ++ [lbrace] ++ listing (texts fs obj')) :
    p = q ∧ obj = obj' := by
  have hlength := texts_length fs obj obj'
  obtain ⟨hpq, htexts⟩ := listing_unique (by decide) (by decide) (texts_closed fs obj) (texts_closed fs obj')
    (by
      intro i x y hx hy
      have hi : i < (texts fs obj).length := by
        obtain ⟨hi, -⟩ := List.getElem?_eq_some_iff.1 hx
        rwa [List.length_reverse] at hi
      rw [List.getElem?_reverse hi] at hx
      rw [List.getElem?_reverse (hlength ▸ hi), ← hlength] at hy
      exact h.apart obj obj' _ x y hx hy) heq
  exact ⟨hpq, h.injective htexts⟩

theorem vec_unambiguous {t : Ty} (h : Unambiguous Opening (serialize t)) : Unambiguous Opening (serialize (.vec t)) := by
  intro vec vec' p q _ _ heq
  rw [serialize_vec, serialize_vec, brackets_assoc, brackets_assoc] at heq
  have hclosed : ∀ vec : List t.Val, ∀ text ∈ vec.map (serialize t), Closed Opening text := by
    intro vec text htext
    obtain ⟨v, -, rfl⟩ := List.mem_map.1 htext
    exact serialize_closed t v
  obtain ⟨hpq, htexts⟩ := listing_unique (by decide) (by decide) (hclosed vec) (hclosed vec')
    (by
      intro i x y hx hy
      obtain ⟨v, -, rfl⟩ := List.mem_map.1 (List.mem_reverse.1 (List.mem_of_getElem? hx))
      obtain ⟨w, -, rfl⟩ := List.mem_map.1 (List.mem_reverse.1 (List.mem_of_getElem? hy))
      exact h.apart v w) (concat_inj heq).1
  exact ⟨hpq, List.map_injective_iff.2 h.injective htexts⟩

theorem cls_unambiguous {init : List Data} {fs : Fields} (h : FieldsUnambiguous fs) :
    Unambiguous Opening (serialize (.cls init fs)) := by
  intro obj obj' p q _ _ heq
  rw [serialize_cls, serialize_cls, brackets_assoc, brackets_assoc] at heq
  exact h.listed (concat_inj heq).1

theorem cons_unambiguous {t : Ty} {fs : Fields} (ht : Unambiguous Opening (serialize t)) (hfs : FieldsUnambiguous fs) :
    FieldsUnambiguous (.cons t fs) := by
  refine ⟨?_, ?_⟩
  · intro obj obj' i x y hx hy
    cases i with
    | zero =>
      obtain rfl : serialize t obj.1 = x := Option.some.inj hx
      obtain rfl : serialize t obj'.1 = y := Option.some.inj hy
      exact ht.apart obj.1 obj'.1
    | succ i => exact hfs.apart obj.2 obj'.2 i x y hx hy
  · intro obj obj' h
    obtain ⟨hfirst, hrest⟩ := List.cons.inj h
    exact Prod.ext (ht.injective hfirst) (hfs.injective hrest)

mutual

theorem serialize_unambiguous : (t : Ty) → Unambiguous Opening (serialize t)
  | .int => toText_unambiguous
  | .str => serializeString_unambiguous
  | .vec t => vec_unambiguous (serialize_unambiguous t)
  | .cls _ fs => cls_unambiguous (fields_unambiguous fs)

theorem fields_unambiguous : (fs : Fields) → FieldsUnambiguous fs
  | .nil => ⟨fun _ _ _ _ _ h => absurd (List.mem_of_getElem? h) List.not_mem_nil, fun _ _ _ => rfl⟩
  | .cons t fs => cons_unambiguous (serialize_unambiguous t) (fields_unambiguous fs)

end

/-- **The text determines the value.** This holds for every type and all values, and for the arguments of a request,
whose brace is not closed. -/
theorem format_unique :
    (∀ (t : Ty) (v w : t.Val), serialize t v = serialize t w ↔ v = w) ∧
      ∀ (fs : Fields) (vals vals' : fs.Vals), requestData fs vals = requestData fs vals' ↔ vals = vals' := by
  refine ⟨fun t v w => (serialize_unambiguous t).injective.eq_iff, ?_⟩
  intro fs vals vals'
  refine ⟨?_, fun h => by rw [h]⟩
  intro h
  rw [requestData, requestData, serializeFields_out, serializeFields_out] at h
  exact ((fields_unambiguous fs).listed (p := []) (q := []) h).2

/-! ## The wire -/

theorem packet_injective : Function.Injective RMIPacket.serialize := by
  intro p q h
  have hvals := (serialize_unambiguous RMIPacket.ty).injective h
  simp only [RMIPacket.vals, Prod.mk.injEq] at hvals
  cases p
  cases q
  simp only [RMIPacket.mk.injEq]
  exact ⟨hvals.1, hvals.2.1, hvals.2.2.1, hvals.2.2.2.1⟩

/-- the size field tells how long the payload is -/
theorem createPacket_unique {p q a b : Bytes} (hp : p.length < UInt32.size) (hq : q.length < UInt32.size)
    (h : createPacket p ++ a = createPacket q ++ b) : p = q ∧ a = b := by
  have hsize : p.length = q.length := by
    have hfield := congrArg (fun d => (sizeField d).toNat) h
    simp only [sizeField_createPacket, toNat_ofNat_length, Nat.mod_eq_of_lt hp, Nat.mod_eq_of_lt hq] at hfield
    exact hfield
  obtain ⟨hframe, hrest⟩ := List.append_inj h (by rw [createPacket_length, createPacket_length, hsize])
  exact ⟨(List.append_inj hframe (by rw [header_length, header_length])).2, hrest⟩

/-- **The bytes determine the packets.** -/
theorem wire_unique (ps qs : List RMIPacket) (hp : ∀ p ∈ ps, p.serialize.length < UInt32.size)
    (hq : ∀ q ∈ qs, q.serialize.length < UInt32.size) :
    stream createPacket (ps.map RMIPacket.serialize) = stream createPacket (qs.map RMIPacket.serialize) ↔ ps = qs := by
  refine ⟨?_, fun h => by rw [h]⟩
  intro h
  induction ps generalizing qs with
  | nil =>
    cases qs with
    | nil => rfl
    | cons q qs => exact absurd (List.append_eq_nil_iff.1 h.symm).1 (createPacket_ne_nil _)
  | cons p ps ih =>
    cases qs with
    | nil => exact absurd (List.append_eq_nil_iff.1 h).1 (createPacket_ne_nil _)
    | cons q qs =>
      obtain ⟨hfirst, hrest⟩ := createPacket_unique (hp p List.mem_cons_self) (hq q List.mem_cons_self) h
      rw [packet_injective hfirst, ih qs (fun p' hm => hp p' (List.mem_cons_of_mem p hm))
        (fun q' hm => hq q' (List.mem_cons_of_mem q hm)) hrest]

/-- one packet with the data `","`, and one with the data `,` in a name that is quoted likewise -/
theorem wire_unique_quotes :
    stream createPacket ([⟨[0x68], [0x73], 1, [quote, comma, quote]⟩].map RMIPacket.serialize) ≠
      stream createPacket ([⟨[0x68, quote, comma, quote], [0x73], 1, [comma]⟩].map RMIPacket.serialize) :=
  (wire_unique [⟨[0x68], [0x73], 1, [quote, comma, quote]⟩] [⟨[0x68, quote, comma, quote], [0x73], 1, [comma]⟩]
    (by decide) (by decide)).not.2 (by decide)

end NetFramework
