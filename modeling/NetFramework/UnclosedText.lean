/-
Texts taken from the stream while their `ObjectSer` is alive: the requests and answers of remote calls. They have no
closing brace. `ObjectDeser` cuts the last character all the same (`objectDeser_unclosed`), and that character belongs to
the last field:
- a string does not miss its closing quote (`deserialize_cut_str`);
- an integer misses its last digit, and is never read back (`deserialize_cut_int`);
- a vector or an object misses its own closer, and passes the loss on to the last value inside (`seqLoop_cut`).

`Survives` says for every clean value and every target when the value comes out of its cut text all the same
(`deserialize_cut`), and `SurvivesFields` when the fields of an unclosed object do (`unclosed_read_iff`).
-/
import NetFramework.RoundTrip

namespace NetFramework

open IStream Bracket

/-! ## Values that survive -/

mutual

/-- the text of `v`, which misses its last character, leaves `v` in a target that held `old` -/
def Survives : (t : Ty) → (old v : t.Val) → Prop
  | .int, _, _ => False
  | .str, _, _ => True
  | .vec t, old, vec =>
    match (vec : List t.Val).getLast? with
    | none => old = ([] : List t.Val)
    | some v =>
      -- a vector of one digit counts as empty, and nothing of it is read
      if (serialize (.vec t) vec).length = 3 then old = vec
      else old = ([] : List t.Val) ∧ (∀ u ∈ (vec : List t.Val).dropLast, Bare t t.default ∧ Fresh t u) ∧
        Survives t t.default v
  | .cls _ fs, old, obj => SurvivesFields fs old obj

def SurvivesFields : (fs : Fields) → (old obj : fs.Vals) → Prop
  | .nil, _, _ => True
  | .cons t .nil, old, obj => Survives t old.1 obj.1
  | .cons t (.cons t' fs), old, obj =>
    (Bare t old.1 ∧ Fresh t obj.1) ∧ SurvivesFields (.cons t' fs) old.2 obj.2

end

/-! ## Reading on a cut text -/

/-- a value depends on the characters left to read alone -/
theorem deserialize_rest (t : Ty) (s : IStream) (old : t.Val) : deserialize t s old = deserialize t (good s.rest) old := by
  cases t with
  | int => simp only [deserialize, nextToken_rest s]
  | str => simp only [deserialize, nextToken_rest s]
  | vec t => simp only [deserialize, deserializeSequence, nextToken_rest s]
  | cls _ fs => simp only [deserialize, objectDeser, nextToken_rest s]

/-- the token of a text without its closer is the whole of it -/
theorem nextToken_unclosed {o e : UInt8} (h : Brackets o e) {body : Bytes} (hb : Balanced o e body) :
    nextToken (good (o :: body)) = (o :: body, eof) := by
  have hclosing : closing o e 1 body = (body, []) := by
    have happ := closing_append h.ne [] (d := 0) hb.sane
    simpa using happ
  rw [nextToken_opener h, hclosing]
  rfl

theorem objectDeser_unclosed {body : Bytes} (hb : Balanced lbrace rbrace body) :
    objectDeser (good (lbrace :: body)) = (good body.dropLast, eof) := by
  unfold objectDeser
  rw [nextToken_unclosed .curly hb]
  rcases body with _ | ⟨x, _ | ⟨y, body⟩⟩ <;> rfl

/-- a quoted token that is not closed -/
theorem nextToken_unquoted {s : Bytes} (hs : quote ∉ s) : nextToken (good (quote :: s)) = (s, eof) := by
  have hloop : ∀ (b : Bool) (l : Bytes), quote ∉ l → quoteLoop b l = (l, eof) := by
    intro b l
    induction l generalizing b with
    | nil => intro _; cases b <;> rfl
    | cons c l ih =>
      intro hl
      rw [List.mem_cons, not_or] at hl
      simp [quoteLoop, Ne.symm hl.1, ih _ hl.2]
  rw [nextToken_cons, if_neg (by decide), if_pos rfl, hloop _ _ hs]
  rfl

/-- a string does not need its closing quote -/
theorem deserialize_cut_str {s : Bytes} (hs : quote ∉ s) (old : Bytes) :
    deserialize .str (good (serializeString s).dropLast) old = .ok (s, eof) := by
  rw [serializeString_eq, escape_of_not_mem hs, List.dropLast_concat, deserialize, nextToken_unquoted hs]

theorem nextToken_cut_int (d : Int32) : nextToken (good (toText d).dropLast) = ((toText d).dropLast, eof) := by
  have hplain : ∀ x : UInt8, Decimal.isDigit x = false → x ≠ minus → x ∉ (toText d).dropLast :=
    fun x hx hm h => toText_not_mem hx hm (List.dropLast_subset _ h)
  generalize (toText d).dropLast = l at hplain
  cases l with
  | nil => rfl
  | cons c cs =>
    have hc : ∀ x : UInt8, Decimal.isDigit x = false → x ≠ minus → c ≠ x := by
      rintro x hx hm rfl
      exact hplain c hx hm List.mem_cons_self
    have h := nextToken_plain ⟨hc _ (by decide) (by decide), hc _ (by decide) (by decide),
      hc _ (by decide) (by decide)⟩ (hplain comma (by decide) (by decide)) .nil
    rwa [List.append_nil] at h

/-- an integer needs its last digit -/
theorem deserialize_cut_int (d old : Int32) (st : IStream) :
    deserialize .int (good (toText d).dropLast) old ≠ .ok (d, st) := by
  intro h
  simp only [deserialize, nextToken_cut_int, bind_eq_ok] at h
  obtain ⟨k, hk, hret⟩ := h
  obtain ⟨rfl, -⟩ := Prod.mk.inj (Except.ok.inj hret)
  exact stoi_dropLast_ne k hk

/-- the token of a cut text: a string has lost both of its quotes -/
def cutToken : (t : Ty) → t.Val → Bytes
  | .str, str => str
  | t, v => (serialize t v).dropLast

/-- the last value of a listing, cut at its end, is one token more -/
theorem nextToken_cut (t : Ty) (v : t.Val) (hv : Clean t v) :
    nextToken (good (serialize t v).dropLast) = (cutToken t v, eof) := by
  cases t with
  | int => exact nextToken_cut_int v
  | str =>
    have hquote := hv.noQuote
    rw [serialize, serializeString_eq, escape_of_not_mem hquote, List.dropLast_concat, nextToken_unquoted hquote]
    rfl
  | vec t =>
    rw [cutToken, serialize_vec, List.dropLast_concat, nextToken_unclosed .square (listing_clean .square hv)]
    nofun
  | cls _ fs =>
    rw [cutToken, serialize_cls, List.dropLast_concat,
      nextToken_unclosed .curly (listing_balanced .curly (texts_balanced .curly fs v hv))]
    nofun

/-- texts that are cut at the end of the last of them -/
theorem listing_cut (text next : Bytes) (texts : List Bytes) (h : Item next) :
    (listing (text :: next :: texts)).dropLast = text ++ comma :: (listing (next :: texts)).dropLast ∧
      Follows (comma :: (listing (next :: texts)).dropLast) := by
  obtain ⟨c, cs, rfl, hne⟩ := h
  have hrest : listing ((c :: cs) :: texts) = c :: (cs ++ behind texts) := rfl
  refine ⟨?_, ?_⟩
  · rw [listing, behind_cons, List.cons_append, List.dropLast_append_of_ne_nil (List.cons_ne_nil _ _),
      List.dropLast_cons_of_ne_nil (List.cons_ne_nil _ _)]
    rfl
  · rw [hrest]
    refine .comma _ ?_
    cases cs ++ behind texts with
    | nil => simp
    | cons x l => simpa using hne

/-! ## The last element of a vector -/

/-- the text behind the comma of a listing is never empty, unless it is that of a cut digit -/
theorem nextToken_listed {t : Ty} {v : t.Val} (hv : Clean t v) {more : Bytes} (hmore : more.head? ≠ some comma)
    (hleft : more ≠ [] ∨ t = .int) : nextToken (good (serialize t v ++ comma :: more)) = (tokenText t v, good more) := by
  rcases hleft with hleft | rfl
  · obtain ⟨st, hst, hafter⟩ := nextToken_serialize t v hv (.comma more hmore)
    obtain ⟨c, cs, rfl⟩ := List.exists_cons_of_ne_nil hleft
    rw [hst, hafter.at_text]
  · exact nextToken_toText v (.comma more hmore)

theorem two_le_length (t : Ty) (v : t.Val) : 2 ≤ (serialize t v).length ∨ t = .int := by
  cases t with
  | int => exact Or.inr rfl
  | str => exact Or.inl (by simp [serialize, serializeString_eq])
  | vec t => exact Or.inl (by simp [serialize_vec])
  | cls _ fs => exact Or.inl (by simp [serialize_cls])

/-- **A cut listing.** The elements in front of the last one are read from their tokens, and the last one from what is
left of its text. -/
theorem seqLoop_cut {t : Ty} (read : t.Val → t.Val) {front : List t.Val} {v : t.Val} (hfront : ∀ u ∈ front, Clean t u)
    (hv : Clean t v)
    (hdeser : ∀ u ∈ front, ∃ st, deserialize t (good (tokenText t u)) t.default = .ok (read u, st)) (done : List t.Val) :
    seqLoop (fun elemData => deserialize t elemData t.default)
        (good (listing ((front ++ [v]).map (serialize t))).dropLast).size
        (good (listing ((front ++ [v]).map (serialize t))).dropLast) done =
      (deserialize t (good (cutToken t v)) t.default).map fun r => done ++ front.map read ++ [r.1] := by
  induction front generalizing done with
  | nil =>
    have hsize : (good (serialize t v).dropLast).size = (serialize t v).dropLast.length + 1 := rfl
    rw [List.nil_append, List.map_singleton, listing, behind_nil, List.append_nil, hsize, seqLoop, if_neg (by simp),
      nextToken_cut t v hv]
    have hend : ∀ (fuel : ℕ) (vec : List t.Val),
        seqLoop (fun elemData => deserialize t elemData t.default) fuel eof vec = .ok vec := by
      intro fuel vec
      cases fuel <;> rfl
    simp only [hend, List.map_nil, List.append_nil]
    cases deserialize t (good (cutToken t v)) t.default <;> rfl
  | cons u front ih =>
    obtain ⟨w, ws, hw⟩ : ∃ w ws, front ++ [v] = w :: ws := List.exists_cons_of_ne_nil (by simp)
    obtain ⟨hcut, hfollows⟩ := listing_cut (serialize t u) (serialize t w) (ws.map (serialize t)) (serialize_head t w)
    have hmore : (listing (serialize t w :: ws.map (serialize t))).dropLast.head? ≠ some comma := by
      cases hfollows with
      | comma more h => exact h
    have hleft : (listing (serialize t w :: ws.map (serialize t))).dropLast ≠ [] ∨ t = .int := by
      refine (two_le_length t w).imp_left fun hlen hnil => ?_
      have hzero := congrArg List.length hnil
      rw [List.length_dropLast, listing, List.length_append, List.length_nil] at hzero
      omega
    obtain ⟨elemData, helem⟩ := hdeser u List.mem_cons_self
    have htoken := nextToken_listed (hfront u List.mem_cons_self) hmore hleft
    rw [List.cons_append, hw, List.map_cons, List.map_cons, hcut,
      seqLoop_round _ (by simp) (by rw [htoken]; exact helem), htoken, ← List.map_cons, ← hw,
      ih (fun x hx => hfront x (List.mem_cons_of_mem u hx)) (fun x hx => hdeser x (List.mem_cons_of_mem u hx))]
    simp

/-- the last element is read from its token as it would be from its cut text -/
theorem deserialize_cutToken {t : Ty} {v : t.Val} (hv : Clean t v) (hin : CleanIn t v) :
    (∃ st, deserialize t (good (cutToken t v)) t.default = .ok (v, st)) ↔
      ∃ st, deserialize t (good (serialize t v).dropLast) t.default = .ok (v, st) := by
  match t with
  | .int => exact Iff.rfl
  | .vec _ => exact Iff.rfl
  | .cls _ _ => exact Iff.rfl
  | .str =>
    obtain ⟨st, -, hst⟩ := deserialize_str [] hv .nil
    rw [List.append_nil] at hst
    exact ⟨fun _ => ⟨eof, deserialize_cut_str hv.noQuote _⟩, fun _ => deserialize_token [] hv hin ⟨st, hst⟩⟩

/-- the elements in front of the last one, put behind the old ones, are as they were sent -/
theorem landed_concat_eq_iff {t : Ty} (old front : List t.Val) (x v : t.Val) :
    old ++ front.map (landed t t.default) ++ [x] = front ++ [v] ↔
      (old = [] ∧ ∀ u ∈ front, Bare t t.default ∧ Fresh t u) ∧ x = v :=
  calc old ++ front.map (landed t t.default) ++ [x] = front ++ [v]
      ↔ old ++ front.map (landed t t.default) = front ∧ x = v := by
        rw [← List.concat_eq_append, ← List.concat_eq_append, List.concat_inj]
    _ ↔ (old = [] ∧ ∀ u ∈ front, landed t t.default u = u) ∧ x = v := and_congr_left fun _ => append_map_eq_iff _ _ _
    _ ↔ (old = [] ∧ ∀ u ∈ front, Bare t t.default ∧ Fresh t u) ∧ x = v := by simp only [landed_eq_iff]

/-- a vector of no characters, or of one, without its closing bracket: nothing is read -/
theorem deserializeSequence_short {α : Type} (deser : IStream → Except StdException (α × IStream)) {body : Bytes}
    (hb : Balanced lbracket rbracket body) (hshort : body.length ≤ 1) (old : List α) :
    deserializeSequence deser (good (lbracket :: body)) old = .ok (old, eof) := by
  have hlen : ¬ (lbracket :: body).length > 2 := by
    rw [List.length_cons]
    omega
  simp only [deserializeSequence, nextToken_unclosed .square hb, if_neg hlen]
  rfl

/-- a vector of more than one digit, without its closing bracket -/
theorem deserializeSequence_cut {t : Ty} {front : List t.Val} {v : t.Val}
    (hvec : ∀ u ∈ front ++ [v], Clean t u ∧ CleanIn t u) (hlen : 2 ≤ (listing ((front ++ [v]).map (serialize t))).length)
    (old : List t.Val) :
    (∃ st, deserializeSequence (fun elemData => deserialize t elemData t.default)
        (good (lbracket :: listing ((front ++ [v]).map (serialize t)))) old = .ok (front ++ [v], st)) ↔
      old = [] ∧ (∀ u ∈ front, Bare t t.default ∧ Fresh t u) ∧
        ∃ st, deserialize t (good (cutToken t v)) t.default = .ok (v, st) := by
  have hmem : ∀ u ∈ front, u ∈ front ++ [v] := fun u hu => List.mem_append_left [v] hu
  have hread : ∀ u ∈ front, ∃ st, deserialize t (good (tokenText t u)) t.default = .ok (landed t t.default u, st) := by
    intro u hu
    obtain ⟨hclean, hin⟩ := hvec u (hmem u hu)
    obtain ⟨st, -, hst⟩ := deserialize_serialize t u t.default hclean .nil
    rw [List.append_nil] at hst
    exact deserialize_token t.default hclean hin ⟨st, hst⟩
  have hloop := seqLoop_cut (landed t t.default) (fun u hu => (hvec u (hmem u hu)).1) (hvec v (by simp)).1 hread old
  have hdrop : (good (lbracket :: listing ((front ++ [v]).map (serialize t))).dropLast).get.2 =
      good (listing ((front ++ [v]).map (serialize t))).dropLast := by
    rw [List.dropLast_cons_of_ne_nil (List.ne_nil_of_length_pos (by omega))]
    rfl
  have hlong : (lbracket :: listing ((front ++ [v]).map (serialize t))).length > 2 := by
    rw [List.length_cons]
    omega
  have hresult : deserializeSequence (fun elemData => deserialize t elemData t.default)
      (good (lbracket :: listing ((front ++ [v]).map (serialize t)))) old =
        (deserialize t (good (cutToken t v)) t.default).map fun r =>
          (old ++ front.map (landed t t.default) ++ [r.1], eof) := by
    simp only [deserializeSequence, nextToken_unclosed .square (listing_clean .square hvec), if_pos hlong, hdrop, hloop]
    cases deserialize t (good (cutToken t v)) t.default <;> rfl
  rw [hresult]
  refine ⟨?_, ?_⟩
  · rintro ⟨st, h⟩
    obtain ⟨r, hr, heq⟩ := map_eq_ok.1 h
    obtain ⟨⟨hold, hfront⟩, hlast⟩ := (landed_concat_eq_iff old front r.1 v).1 (Prod.mk.inj heq).1
    exact ⟨hold, hfront, r.2, by rw [hr, ← hlast]⟩
  · rintro ⟨hold, hfront, st, hst⟩
    exact ⟨eof, map_eq_ok.2 ⟨(v, st), hst, by rw [(landed_concat_eq_iff old front v v).2 ⟨⟨hold, hfront⟩, rfl⟩]⟩⟩

theorem listing_length_pos {t : Ty} {vec : List t.Val} (h : vec ≠ []) :
    0 < (listing (vec.map (serialize t))).length := by
  obtain ⟨v, rest, rfl⟩ := List.exists_cons_of_ne_nil h
  obtain ⟨c, cs, hc, -⟩ := serialize_head t v
  simp [listing, hc]

/-! ## Any value -/

/-- a field that is not the last one is read from a complete text, and leaves the others to be read from a cut one -/
theorem deserialize_first {t : Ty} {fs : Fields} (hfs : fs ≠ .nil) {obj : (Fields.cons t fs).Vals} (hv : Clean t obj.1)
    (old : t.Val) {s : IStream} (hs : s.rest = (listing (texts (.cons t fs) obj)).dropLast) :
    ∃ next, deserialize t s old = .ok (landed t old obj.1, next) ∧
      next.rest = (listing (texts fs obj.2)).dropLast := by
  match fs with
  | .nil => exact absurd rfl hfs
  | .cons t' fs =>
    obtain ⟨hcut, hfollows⟩ := listing_cut (serialize t obj.1) (serialize t' obj.2.1) (texts fs obj.2.2)
      (serialize_head t' obj.2.1)
    obtain ⟨next, hafter, hnext⟩ := deserialize_serialize t obj.1 old hv hfollows
    refine ⟨next, ?_, by simpa [After, texts] using hafter⟩
    rw [deserialize_rest, hs, ← hnext]
    exact congrArg (fun text => deserialize t (good text) old) hcut

mutual

/-- **A cut text.** What of its last character is missing is harmless exactly where the value survives. -/
theorem deserialize_cut : (t : Ty) → (v old : t.Val) → Clean t v →
    ((∃ st, deserialize t (good (serialize t v).dropLast) old = .ok (v, st)) ↔ Survives t old v)
  | .int, d, old, _ => ⟨fun ⟨st, h⟩ => deserialize_cut_int d old st h, False.elim⟩
  | .str, _, old, hv => ⟨fun _ => trivial, fun _ => ⟨eof, deserialize_cut_str hv.noQuote old⟩⟩
  | .vec t, vec, old, hv => by
    have hbalanced := listing_clean .square hv
    rw [serialize_vec, List.dropLast_concat, deserialize]
    have hnothing : ∀ vec' : List t.Val,
        (∃ st, Except.ok (old, eof) = (.ok (vec', st) : Except StdException (List t.Val × IStream))) ↔ old = vec' := by
      intro vec'
      exact ⟨fun ⟨st, h⟩ => (Prod.mk.inj (Except.ok.inj h)).1, fun h => ⟨eof, by rw [h]⟩⟩
    rcases List.eq_nil_or_concat (vec : List t.Val) with rfl | ⟨front, v, rfl⟩
    · rw [deserializeSequence_short _ hbalanced (by simp [listing])]
      simpa only [Survives, List.getLast?_nil] using hnothing []
    · rw [List.concat_eq_append] at hv hbalanced ⊢
      obtain ⟨hclean, hin⟩ := hv v (by simp)
      have hlen : (serialize (.vec t) (front ++ [v])).length =
          (listing ((front ++ [v]).map (serialize t))).length + 2 := by simp [serialize_vec]
      have hpos : 0 < (listing ((front ++ [v]).map (serialize t))).length := listing_length_pos (by simp)
      simp only [Survives, List.getLast?_concat, List.dropLast_concat]
      by_cases hdigit : (serialize (.vec t) (front ++ [v])).length = 3
      · rw [if_pos hdigit, deserializeSequence_short _ hbalanced (by omega)]
        exact hnothing _
      · rw [if_neg hdigit, deserializeSequence_cut hv (by omega), deserialize_cutToken hclean hin,
          deserialize_cut t v t.default hclean]
  | .cls _ fs, obj, old, hv => by
    have hbalanced := listing_balanced .curly (texts_balanced .curly fs obj hv)
    rw [serialize_cls, List.dropLast_concat, deserialize, objectDeser_unclosed hbalanced, Survives,
      ← deserializeFields_cut fs obj old hv (good (listing (texts fs obj)).dropLast) rfl]
    refine ⟨?_, ?_⟩
    · rintro ⟨st, h⟩
      obtain ⟨⟨obj', next⟩, hobj, hret⟩ := bind_eq_ok.1 h
      obtain ⟨rfl, -⟩ := Prod.mk.inj (Except.ok.inj hret)
      exact ⟨next, hobj⟩
    · rintro ⟨next, hobj⟩
      exact ⟨eof, bind_eq_ok.2 ⟨_, hobj, rfl⟩⟩

/-- reading the fields of a text that misses its last character -/
theorem deserializeFields_cut : (fs : Fields) → (obj old : fs.Vals) → CleanFields fs obj → (s : IStream) →
    s.rest = (listing (texts fs obj)).dropLast →
      ((∃ st, deserializeFields fs s old = .ok (obj, st)) ↔ SurvivesFields fs old obj)
  | .nil, _, _, _, s, _ => ⟨fun _ => trivial, fun _ => ⟨s, rfl⟩⟩
  | .cons t .nil, obj, old, hv, s, hs => by
    have hcut : s.rest = (serialize t obj.1).dropLast := by simpa [texts, listing] using hs
    rw [SurvivesFields, ← deserialize_cut t obj.1 old.1 hv.1, ← hcut, ← deserialize_rest]
    refine ⟨?_, ?_⟩
    · rintro ⟨st, h⟩
      obtain ⟨next, hnext, -⟩ := deserializeFields_cons.1 h
      exact ⟨next, hnext⟩
    · rintro ⟨next, hnext⟩
      exact ⟨next, deserializeFields_cons.2 ⟨next, hnext, rfl⟩⟩
  | .cons t (.cons t' fs), obj, old, hv, s, hs => by
    obtain ⟨next, hfirst, hleft⟩ := @deserialize_first t (.cons t' fs) nofun obj hv.1 old.1 s hs
    rw [SurvivesFields, ← landed_eq_iff, ← deserializeFields_cut (.cons t' fs) obj.2 old.2 hv.2 next hleft]
    refine ⟨?_, ?_⟩
    · rintro ⟨st, h⟩
      obtain ⟨next', hnext', h⟩ := deserializeFields_cons.1 h
      obtain ⟨hland, rfl⟩ := Prod.mk.inj (Except.ok.inj (hfirst.symm.trans hnext'))
      exact ⟨hland, st, h⟩
    · rintro ⟨hland, st, h⟩
      exact ⟨st, deserializeFields_cons.2 ⟨next, hland ▸ hfirst, h⟩⟩

end

/-- **Objects without the closing brace, exactly.** What an `ObjectSer` that is still alive has written is read back
into fields that held `old` if and only if the fields survive. -/
theorem unclosed_read_iff {fs : Fields} {obj : fs.Vals} (old : fs.Vals) (hv : CleanFields fs obj) :
    (∃ st, deserializeFields fs (objectDeser (good (serializeFields fs obj (.init [])).out)).1 old = .ok (obj, st)) ↔
      SurvivesFields fs old obj := by
  rw [serializeFields_out, objectDeser_unclosed (listing_balanced .curly (texts_balanced .curly fs obj hv))]
  exact deserializeFields_cut fs obj old hv _ rfl

end NetFramework
