/-
What the old value of a target does to what is decoded into it.

A vector is appended to; integers and strings are overwritten, and an object's fields are treated each by its own type.
So a decoder's result is what it leaves in a blank target, put `onto` the old value (`deserialize_onto`), and whether and
where decoding succeeds does not depend on the target at all. The elements of a vector are decoded into new variables,
so the vectors inside them play no part: two targets end equal if and only if the vectors they hold outside of other
vectors are equal (`SameVectors`).

`old_value_iff` says this for `deserialize` and for the variables that `parseAnswer` decodes into, and compares these
with what `serialiseAnswer` was given (`answer_sent`).
-/
import NetFramework.RemoteCall

namespace NetFramework

open IStream Pack

/-! ## Old and new values -/

/-- zero, an empty string, an empty vector, or an object of these -/
def Ty.blank (t : Ty) : t.Val := t.ofData (.list [])

def Fields.blanks (fs : Fields) : fs.Vals := fs.ofData []

mutual

/-- the target after decoding, if `new` is what a blank target would hold -/
def onto : (t : Ty) → (old new : t.Val) → t.Val
  | .int, _, new => new
  | .str, _, new => new
  | .vec t, old, new => (old : List t.Val) ++ (new : List t.Val)
  | .cls _ fs, old, new => ontoFields fs old new

def ontoFields : (fs : Fields) → (old new : fs.Vals) → fs.Vals
  | .nil, _, _ => ()
  | .cons t fs, old, new => (onto t old.1 new.1, ontoFields fs old.2 new.2)

end

mutual

/-- the vectors that are no elements of others are equal -/
def SameVectors : (t : Ty) → t.Val → t.Val → Prop
  | .int, _, _ => True
  | .str, _, _ => True
  | .vec _, v, v' => v = v'
  | .cls _ fs, obj, obj' => SameVectorsFields fs obj obj'

def SameVectorsFields : (fs : Fields) → fs.Vals → fs.Vals → Prop
  | .nil, _, _ => True
  | .cons t fs, obj, obj' => SameVectors t obj.1 obj'.1 ∧ SameVectorsFields fs obj.2 obj'.2

end

mutual

theorem onto_eq_iff : (t : Ty) → (v v' new : t.Val) → (onto t v new = onto t v' new ↔ SameVectors t v v')
  | .int, _, _, _ => ⟨fun _ => trivial, fun _ => rfl⟩
  | .str, _, _, _ => ⟨fun _ => trivial, fun _ => rfl⟩
  | .vec _, _, _, _ => List.append_left_inj _
  | .cls _ fs, obj, obj', new => ontoFields_eq_iff fs obj obj' new

theorem ontoFields_eq_iff : (fs : Fields) → (obj obj' new : fs.Vals) →
    (ontoFields fs obj new = ontoFields fs obj' new ↔ SameVectorsFields fs obj obj')
  | .nil, _, _, _ => ⟨fun _ => trivial, fun _ => rfl⟩
  | .cons t fs, obj, obj', new => by
    rw [ontoFields, ontoFields, Prod.mk.injEq, onto_eq_iff t, ontoFields_eq_iff fs]
    rfl

end

/-! ## Decoding into a target -/

variable {α : Type} (deser : IStream → Except StdException (α × IStream))

theorem seqLoop_append (fuel : ℕ) (sq : IStream) (old vec : List α) :
    seqLoop deser fuel sq (old ++ vec) = (seqLoop deser fuel sq vec).map (old ++ ·) := by
  induction fuel generalizing sq vec with
  | zero => rfl
  | succ fuel ih =>
    by_cases hsq : sq = eof
    · simp only [seqLoop, if_pos hsq, Except.map]
    · cases hd : deser (good (nextToken sq).1) with
      | error e => simp only [seqLoop, if_neg hsq, hd, bind, Except.bind, Except.map]
      | ok v =>
        simp only [seqLoop, if_neg hsq, hd, bind, Except.bind]
        rw [List.append_assoc, ih]

theorem deserializeSequence_append (s : IStream) (old : List α) :
    deserializeSequence deser s old = (deserializeSequence deser s []).map fun r => (old ++ r.1, r.2) := by
  by_cases hlong : (nextToken s).1.length > 2
  · have happ := seqLoop_append deser (good (nextToken s).1.dropLast).get.2.size (good (nextToken s).1.dropLast).get.2
      old []
    rw [List.append_nil] at happ
    simp only [deserializeSequence, if_pos hlong, happ]
    cases seqLoop deser (good (nextToken s).1.dropLast).get.2.size (good (nextToken s).1.dropLast).get.2 [] <;> rfl
  · simp only [deserializeSequence, if_neg hlong]
    exact congrArg (fun l => Except.ok (l, (nextToken s).2)) (List.append_nil old).symm

mutual

/-- decoding into a target is decoding into a blank one, put onto what the target held -/
theorem deserialize_onto : (t : Ty) → (s : IStream) → (old : t.Val) →
    deserialize t s old = (deserialize t s t.blank).map fun r => (onto t old r.1, r.2)
  | .int, s, old => by
    simp only [deserialize]
    cases stoi (nextToken s).1 <;> rfl
  | .str, s, old => rfl
  | .vec t, s, old => deserializeSequence_append (fun elemData => deserialize t elemData t.default) s old
  | .cls init fs, s, old => by
    have hblank : (Ty.cls init fs).blank = fs.blanks := rfl
    simp only [deserialize, hblank]
    rw [deserializeFields_onto fs (objectDeser s).1 old]
    cases deserializeFields fs (objectDeser s).1 fs.blanks <;> rfl

theorem deserializeFields_onto : (fs : Fields) → (deser : IStream) → (old : fs.Vals) →
    deserializeFields fs deser old = (deserializeFields fs deser fs.blanks).map fun r => (ontoFields fs old r.1, r.2)
  | .nil, deser, old => rfl
  | .cons t fs, deser, old => by
    have hblanks : (Fields.cons t fs).blanks = (t.blank, fs.blanks) := rfl
    simp only [deserializeFields, hblanks]
    rw [deserialize_onto t deser old.1]
    cases deserialize t deser t.blank with
    | error e => rfl
    | ok r =>
      simp only [Except.map, bind, Except.bind]
      rw [deserializeFields_onto fs r.2 old.2]
      cases deserializeFields fs r.2 fs.blanks <;> rfl

end

/-! ## Two targets -/

/-- decoding one text into two targets -/
theorem deserialize_two {t : Ty} {s : IStream} {v : t.Val} {r : t.Val × IStream} (h : deserialize t s v = .ok r)
    (v' : t.Val) :
    ∃ r', deserialize t s v' = .ok r' ∧ r'.2 = r.2 ∧ (r'.1 = r.1 ↔ SameVectors t v' v) := by
  rw [deserialize_onto] at h
  obtain ⟨new, hnew, rfl⟩ := map_eq_ok.1 h
  refine ⟨(onto t v' new.1, new.2), ?_, rfl, onto_eq_iff t v' v new.1⟩
  rw [deserialize_onto, hnew]
  rfl

theorem deserializeFields_two {fs : Fields} {s : IStream} {obj : fs.Vals} {r : fs.Vals × IStream}
    (h : deserializeFields fs s obj = .ok r) (obj' : fs.Vals) :
    ∃ new, r = (ontoFields fs obj new, r.2) ∧ deserializeFields fs s obj' = .ok (ontoFields fs obj' new, r.2) := by
  rw [deserializeFields_onto] at h
  obtain ⟨new, hnew, rfl⟩ := map_eq_ok.1 h
  refine ⟨new.1, rfl, ?_⟩
  rw [deserializeFields_onto, hnew]
  rfl

/-- parsing one answer into two callers' variables -/
theorem parseAnswer_two {TR : Ty} {ps : Pack} {text : Bytes} {old tr : TR.Val} {vals new : ps.fields.Vals}
    (h : parseAnswer TR ps (good text) old vals = .ok (tr, new)) (old' : TR.Val) (vals' : ps.fields.Vals) :
    ∃ tr' new', parseAnswer TR ps (good text) old' vals' = .ok (tr', new') ∧
      (pick ps new' = pick ps new ↔ SameVectorsFields ps.included (pick ps vals') (pick ps vals)) := by
  obtain ⟨got, hread, rfl⟩ := parseAnswer_eq_ok.1 h
  obtain ⟨st, hread⟩ := readData_eq_ok.1 hread
  obtain ⟨sent, hsent, hread'⟩ := deserializeFields_two hread (old', pick ps vals')
  obtain ⟨-, rfl⟩ := Prod.mk.inj (Prod.mk.inj hsent).1
  refine ⟨onto TR old' sent.1, merge ps vals' (ontoFields ps.included (pick ps vals') sent.2), ?_, ?_⟩
  · exact parseAnswer_eq_ok.2 ⟨_, readData_eq_ok.2 ⟨st, hread'⟩, rfl⟩
  · rw [pick_merge, pick_merge]
    exact ontoFields_eq_iff ps.included _ _ sent.2

/-! ## What the server sent -/

/-- the return value is read from an answer with output parameters, and these from what is left of the answer -/
theorem answer_sent {TR : Ty} {ps : Pack} {tr : TR.Val} {left : ps.fields.Vals} (hps : ps.included ≠ .nil)
    (hv : CleanFields (.cons TR ps.included) (tr, pick ps left)) (old : TR.Val) (vals : ps.fields.Vals) :
    (∃ tr' new, parseAnswer TR ps (good (serialiseAnswer TR ps tr left)) old vals = .ok (tr', new) ∧
      pick ps new = pick ps left) ↔ SurvivesFields ps.included (pick ps vals) (pick ps left) := by
  have hsent : (objectDeser (good (serialiseAnswer TR ps tr left))).1 =
      good (listing (texts (.cons TR ps.included) (tr, pick ps left))).dropLast := by
    rw [serialiseAnswer_eq, requestData, serializeFields_out,
      objectDeser_unclosed (listing_balanced .curly (texts_balanced .curly _ _ hv))]
  obtain ⟨next, hnext, hleft⟩ := deserialize_first hps hv.1 old
    (s := good (listing (texts (.cons TR ps.included) (tr, pick ps left))).dropLast) rfl
  rw [← deserializeFields_cut ps.included _ _ hv.2 next hleft]
  refine ⟨?_, ?_⟩
  · rintro ⟨tr', new, hparse, hnew⟩
    obtain ⟨got, hread, rfl⟩ := parseAnswer_eq_ok.1 hparse
    obtain ⟨st, hread⟩ := readData_eq_ok.1 hread
    rw [hsent] at hread
    obtain ⟨next', hnext', hgot⟩ := deserializeFields_cons.1 hread
    obtain ⟨-, rfl⟩ := Prod.mk.inj (Except.ok.inj (hnext.symm.trans hnext'))
    rw [pick_merge] at hnew
    exact ⟨st, hnew ▸ hgot⟩
  · rintro ⟨st, hgot⟩
    refine ⟨landed TR old tr, merge ps vals (pick ps left), ?_, pick_merge ps vals _⟩
    refine parseAnswer_eq_ok.2 ⟨pick ps left, readData_eq_ok.2 ⟨st, ?_⟩, rfl⟩
    rw [hsent]
    exact deserializeFields_cons.2 ⟨next, hnext, hgot⟩

end NetFramework
