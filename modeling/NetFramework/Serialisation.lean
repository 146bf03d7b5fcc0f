/-
The value format of serialisation.h: an `int` is a decimal numeral, a `std::string` is quoted, a `std::vector` is a
bracketed list, and an object is the list of its fields in braces, written by an `ObjectSer` and read by an
`ObjectDeser`.

The two overload sets `serialize` and `deserialize` recurse over types, so the model's recursion is over a description
of the type (`Ty`, and `Fields` for the members of a class in the order in which both of its methods list them). A class
comes with what its default constructor leaves in these members, because `deserializeSequence` decodes each element into
a default-constructed one. A deserialiser gets the old value of its target: a vector is appended to, everything else is
overwritten.

- `serialize_vec`, `serialize_cls`: the texts as comma-separated listings.
- `nextToken_size`, `seqLoop_fuel`: every token consumes something, so the loop over a sequence ends.
-/
import NetFramework.Token

namespace NetFramework

open IStream

/-! ## Types and values -/

/-- a value without its type; `list` are the elements of a vector or the members of an object -/
inductive Data where
  | int (d : Int32)
  | str (str : Bytes)
  | list (items : List Data)

mutual

/-- `init` is what the default constructor of the class leaves in its members -/
inductive Ty where
  | int
  | str
  | vec (elem : Ty)
  | cls (init : List Data) (fields : Fields)

inductive Fields where
  | nil
  | cons (t : Ty) (fs : Fields)

end

mutual

@[reducible] def Ty.Val : Ty → Type
  | .int => Int32
  | .str => Bytes
  | .vec t => List t.Val
  | .cls _ fs => fs.Vals

@[reducible] def Fields.Vals : Fields → Type
  | .nil => Unit
  | .cons t fs => t.Val × fs.Vals

end

mutual

/-- the value of the type that is given by `data`; what is not given is zero or empty -/
def Ty.ofData : (t : Ty) → Data → t.Val
  | .int, .int d => d
  | .int, _ => (0 : Int32)
  | .str, .str str => str
  | .str, _ => ([] : Bytes)
  | .vec t, .list items => items.map t.ofData
  | .vec _, _ => []
  | .cls _ fs, .list items => fs.ofData items
  | .cls _ fs, _ => fs.ofData []

def Fields.ofData : (fs : Fields) → List Data → fs.Vals
  | .nil, _ => ()
  | .cons t fs, items => (t.ofData (items.headD (.list [])), fs.ofData items.tail)

end

/-- a default-constructed value; an `int` is uninitialised, and overwritten before it is read -/
def Ty.default : (t : Ty) → t.Val
  | .int => (0 : Int32)
  | .str => ([] : Bytes)
  | .vec _ => []
  | .cls init fs => fs.ofData init

/-- variables of these types, each default-constructed -/
def Fields.defaults : (fs : Fields) → fs.Vals
  | .nil => ()
  | .cons t fs => (t.default, fs.defaults)

/-! ## Writing -/

/-- an `ObjectSer`; `out` is what its stream holds -/
structure ObjectSer where
  first : Bool
  out : Bytes
deriving DecidableEq, Repr

namespace ObjectSer

/-- the constructor -/
def init (out : Bytes) : ObjectSer := { first := true, out := out ++ [lbrace] }

/-- `operator <<`, for a value with this text -/
def put (ser : ObjectSer) (text : Bytes) : ObjectSer :=
  { first := false, out := ser.out ++ (if ser.first then [] else [comma]) ++ text }

/-- the destructor: the stream it leaves -/
def close (ser : ObjectSer) : Bytes := ser.out ++ [rbrace]

end ObjectSer

/-- a round of the loop over the elements; the state is `first` and the stream -/
def serializeElem {α : Type} (serialize : α → Bytes) (st : Bool × Bytes) (elem : α) : Bool × Bytes :=
  (false, st.2 ++ (if st.1 then [] else [comma]) ++ serialize elem)

def serializeSequence {α : Type} (serialize : α → Bytes) (vec : List α) : Bytes :=
  (vec.foldl (serializeElem serialize) (true, [lbracket])).2 ++ [rbracket]

mutual

/-- what `serialize` adds to its stream -/
def serialize : (t : Ty) → t.Val → Bytes
  | .int, d => toText d
  | .str, str => serializeString str
  | .vec t, vec => serializeSequence (serialize t) vec
  | .cls _ fs, obj => (serializeFields fs obj (.init [])).close

/-- `ser << field << field …` -/
def serializeFields : (fs : Fields) → fs.Vals → ObjectSer → ObjectSer
  | .nil, _, ser => ser
  | .cons t fs, obj, ser => serializeFields fs obj.2 (ser.put (serialize t obj.1))

end

/-! ## Reading -/

/-- the loop `while (!sq.eof())` over the elements; a round for each unit of `fuel` -/
def seqLoop {α : Type} (deserialize : IStream → Except StdException (α × IStream)) :
    ℕ → IStream → List α → Except StdException (List α)
  | 0, _, vec => .ok vec
  | fuel + 1, sq, vec =>
    if sq = eof then .ok vec
    else do
      let (elem, sq) := nextToken sq
      let (element, _) ← deserialize (good elem)
      seqLoop deserialize fuel sq (vec ++ [element])

def deserializeSequence {α : Type} (deserialize : IStream → Except StdException (α × IStream)) (s : IStream)
    (vec : List α) : Except StdException (List α × IStream) :=
  let (seqData, s) := nextToken s
  if seqData.length > 2 then do
    let sq := (good seqData.dropLast).get.2
    let vec ← seqLoop deserialize sq.size sq vec
    return (vec, s)
  else return (vec, s)

/-- the constructor of `ObjectDeser`: its own stream, and the stream it was given -/
def objectDeser (s : IStream) : IStream × IStream :=
  let (objData, s) := nextToken s
  if objData.length > 2 then ((good objData.dropLast).get.2, s) else (good [], s)

mutual

def deserialize : (t : Ty) → IStream → t.Val → Except StdException (t.Val × IStream)
  | .int, s, _ => do
    let (str, s) := nextToken s
    let k ← stoi str
    return (k, s)
  | .str, s, _ => .ok (nextToken s)
  | .vec t, s, vec => deserializeSequence (fun elemData => deserialize t elemData t.default) s vec
  | .cls _ fs, s, obj => do
    let (deser, s) := objectDeser s
    let (obj, _) ← deserializeFields fs deser obj
    return (obj, s)

/-- `deser >> field >> field …` -/
def deserializeFields : (fs : Fields) → IStream → fs.Vals → Except StdException (fs.Vals × IStream)
  | .nil, deser, obj => .ok (obj, deser)
  | .cons t fs, deser, obj => do
    let (v, deser) ← deserialize t deser obj.1
    let (vs, deser) ← deserializeFields fs deser obj.2
    return ((v, vs), deser)

end

example :
    deserialize (.vec (.cls [] (.cons .int (.cons .str .nil))))
      (good (serialize (.vec (.cls [] (.cons .int (.cons .str .nil))))
        [((-12 : Int32), ([97] : Bytes), ()), ((7 : Int32), ([44] : Bytes), ())])) [] =
      .ok ([((-12 : Int32), ([97] : Bytes), ()), ((7 : Int32), ([44] : Bytes), ())], eof) := by rfl

/-! ## Default constructors -/

mutual

/-- the data of a value -/
def Ty.toData : (t : Ty) → t.Val → Data
  | .int, d => .int d
  | .str, str => .str str
  | .vec t, vec => .list (vec.map t.toData)
  | .cls _ fs, obj => .list (fs.toData obj)

def Fields.toData : (fs : Fields) → fs.Vals → List Data
  | .nil, _ => []
  | .cons t fs, obj => t.toData obj.1 :: fs.toData obj.2

end

mutual

theorem ofData_toData (t : Ty) (v : t.Val) : t.ofData (t.toData v) = v := by
  cases t with
  | int => rfl
  | str => rfl
  | vec t =>
    have hid : t.ofData ∘ t.toData = id := funext fun v => ofData_toData t v
    rw [Ty.toData, Ty.ofData, List.map_map, hid, List.map_id]
  | cls _ fs => exact ofData_toData_fields fs v

theorem ofData_toData_fields (fs : Fields) (obj : fs.Vals) : fs.ofData (fs.toData obj) = obj := by
  cases fs with
  | nil => rfl
  | cons t fs => exact Prod.ext (ofData_toData t obj.1) (ofData_toData_fields fs obj.2)

end

/-- a default constructor may leave any values in the members -/
theorem exists_init (fs : Fields) (obj : fs.Vals) : ∃ init, (Ty.cls init fs).default = obj :=
  ⟨fs.toData obj, ofData_toData_fields fs obj⟩

/-! ## Listings -/

/-- a comma in front of every text -/
def behind (texts : List Bytes) : Bytes := texts.flatMap fun text => comma :: text

/-- the texts, separated by commas -/
def listing : List Bytes → Bytes
  | [] => []
  | text :: texts => text ++ behind texts

@[simp] theorem behind_nil : behind [] = [] := rfl

@[simp] theorem behind_cons (text : Bytes) (texts : List Bytes) :
    behind (text :: texts) = comma :: (text ++ behind texts) := rfl

theorem serializeElem_later {α : Type} (f : α → Bytes) (vec : List α) (out : Bytes) :
    (vec.foldl (serializeElem f) (false, out)).2 = out ++ behind (vec.map f) := by
  induction vec generalizing out with
  | nil => simp
  | cons v vec ih => rw [List.foldl_cons, serializeElem, ih]; simp

theorem serializeSequence_eq {α : Type} (f : α → Bytes) (vec : List α) :
    serializeSequence f vec = lbracket :: listing (vec.map f) ++ [rbracket] := by
  unfold serializeSequence
  cases vec with
  | nil => rfl
  | cons v vec =>
    rw [List.foldl_cons, serializeElem, serializeElem_later]
    simp [listing]

theorem serialize_vec (t : Ty) (vec : List t.Val) :
    serialize (.vec t) vec = lbracket :: listing (vec.map (serialize t)) ++ [rbracket] := serializeSequence_eq _ _

/-- the texts of the fields -/
def texts : (fs : Fields) → fs.Vals → List Bytes
  | .nil, _ => []
  | .cons t fs, obj => serialize t obj.1 :: texts fs obj.2

theorem serializeFields_later (fs : Fields) (obj : fs.Vals) (out : Bytes) :
    (serializeFields fs obj { first := false, out := out }).out = out ++ behind (texts fs obj) := by
  match fs with
  | .nil => simp [serializeFields, texts]
  | .cons t fs => simp [serializeFields, ObjectSer.put, serializeFields_later fs, texts]

/-- what an `ObjectSer` has written before its destructor runs -/
theorem serializeFields_out (fs : Fields) (obj : fs.Vals) :
    (serializeFields fs obj (.init [])).out = lbrace :: listing (texts fs obj) := by
  match fs with
  | .nil => rfl
  | .cons t fs => simp [serializeFields, ObjectSer.init, ObjectSer.put, serializeFields_later fs, texts, listing]

theorem serialize_cls {init : List Data} (fs : Fields) (obj : fs.Vals) :
    serialize (.cls init fs) obj = lbrace :: listing (texts fs obj) ++ [rbrace] := by
  have h : serialize (.cls init fs) obj = (serializeFields fs obj (.init [])).out ++ [rbrace] := rfl
  rw [h, serializeFields_out]

/-- reading a first field and the rest -/
theorem deserializeFields_cons {t : Ty} {fs : Fields} {deser st : IStream} {old obj : (Fields.cons t fs).Vals} :
    deserializeFields (.cons t fs) deser old = .ok (obj, st) ↔
      ∃ next, deserialize t deser old.1 = .ok (obj.1, next) ∧ deserializeFields fs next old.2 = .ok (obj.2, st) := by
  rw [deserializeFields]
  exact bind_two_eq_ok (deserialize t deser old.1) (deserializeFields fs · old.2) obj

/-! ## The loop over a sequence -/

theorem skipComma_size (s : IStream) : s.skipComma.size ≤ s.size := by
  rcases s with (_ | ⟨c, cs⟩) | _
  · simp [skipComma, IStream.peek, size]
  · by_cases hc : c = comma <;> simp [skipComma, IStream.peek, IStream.get, size, hc]
  · simp [skipComma, IStream.peek, size]

theorem bracketLoop_size (o e : UInt8) (d : ℕ) (l : Bytes) : (bracketLoop o e d l).2.size ≤ l.length + 1 := by
  induction l generalizing d with
  | nil => cases d <;> simp [bracketLoop, size]
  | cons c l ih =>
    cases d with
    | zero => simp [bracketLoop, size]
    | succ d => exact (ih _).trans (by simp)

theorem quoteLoop_size (hadBackSlash : Bool) (l : Bytes) : (quoteLoop hadBackSlash l).2.size ≤ l.length + 1 := by
  induction l generalizing hadBackSlash with
  | nil => simp [quoteLoop, size]
  | cons c l ih =>
    unfold quoteLoop
    split_ifs
    · simp [size]
    · exact (ih _).trans (by simp)

theorem plainLoop_size (l : Bytes) : (plainLoop l).2.size ≤ l.length := by
  induction l with
  | nil => simp [plainLoop, size]
  | cons c l ih =>
    unfold plainLoop
    split_ifs
    · simp [size]
    · exact ih.trans (by simp)

/-- a token consumes a character, or finds the end of file -/
theorem nextToken_size {s : IStream} (hs : s ≠ eof) : (nextToken s).2.size < s.size := by
  rcases s with (_ | ⟨c, cs⟩) | _
  · simp [size]
  · rw [nextToken_cons]
    split_ifs
    · exact Nat.lt_succ_of_le ((skipComma_size _).trans (bracketLoop_size _ _ _ cs))
    · exact Nat.lt_succ_of_le ((skipComma_size _).trans (bracketLoop_size _ _ _ cs))
    · exact Nat.lt_succ_of_le ((skipComma_size _).trans (quoteLoop_size _ cs))
    · exact Nat.lt_succ_of_le (plainLoop_size _)
  · exact absurd rfl hs

variable {α : Type} (deser : IStream → Except StdException (α × IStream))

/-- more fuel than the stream has to read makes no difference -/
theorem seqLoop_fuel {f g : ℕ} {sq : IStream} (vec : List α) (hf : sq.size ≤ f) (hg : sq.size ≤ g) :
    seqLoop deser f sq vec = seqLoop deser g sq vec := by
  induction f generalizing g sq vec with
  | zero =>
    have hsq : sq = eof := by cases sq with
      | eof => rfl
      | good l => simp [size] at hf
    subst hsq
    cases g <;> rfl
  | succ f ih =>
    by_cases hsq : sq = eof
    · subst hsq; cases g <;> rfl
    · have hlt := nextToken_size hsq
      obtain ⟨g, rfl⟩ : ∃ n, g = n + 1 := ⟨g - 1, by omega⟩
      have hnext : ∀ vec, seqLoop deser f (nextToken sq).2 vec = seqLoop deser g (nextToken sq).2 vec :=
        fun vec => ih vec (by omega) (by omega)
      simp only [seqLoop, if_neg hsq, hnext]

/-- one round of a loop that has all the fuel it needs -/
theorem seqLoop_round {sq : IStream} (hsq : sq ≠ eof) {vec : List α} {element : α} {elemData : IStream}
    (h : deser (good (nextToken sq).1) = .ok (element, elemData)) :
    seqLoop deser sq.size sq vec =
      seqLoop deser (nextToken sq).2.size (nextToken sq).2 (vec ++ [element]) := by
  have hlt := nextToken_size hsq
  rw [seqLoop_fuel deser vec le_rfl (Nat.le_succ sq.size), seqLoop, if_neg hsq]
  simp only [h, Except.bind, bind]
  exact seqLoop_fuel deser _ hlt.le le_rfl

end NetFramework
