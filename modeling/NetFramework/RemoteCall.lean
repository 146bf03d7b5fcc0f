/-
A remote call from end to end: `RemoteCall::make_call` on the caller, the function that `REGISTER_RMI3` installs on the
handler, and `serialiseAnswer` and `parseAnswer` between them (remotecall.h, handlerbase.h, retvalserialisation.h).

The templates take a pack `T1, r1, T2, r2, …` (`Pack`); a parameter with `r` true is written to the answer and read back
from it. That is writing and reading the object of these parameters alone (`serialisePack_eq`, `deserialisePack_eq_ok`).

Both the request and the answer are taken from their stream while the `ObjectSer` is alive, so they have no closing
brace, and the reader cuts the last character of the last field instead. `rmi_transparent_iff`: a call is transparent if
and only if the last field of the request and the last field of the answer are strings.
-/
import NetFramework.Arguments
import NetFramework.ConstHelpers

namespace NetFramework

open IStream

/-! ## Templates -/

/-- the parameters `T1, r1, T2, r2, …` of the templates -/
abbrev Pack := List (Ty × Bool)

@[reducible] def Pack.fields : Pack → Fields
  | [] => .nil
  | (t, _) :: ps => .cons t (Pack.fields ps)

/-- `OptionalSerialiser<T, r>` -/
def optionalSerialiser (t : Ty) (r : Bool) (ser : ObjectSer) (v : t.Val) : ObjectSer :=
  if r then ser.put (serialize t v) else ser

/-- `OptionalDeserialiser<T, r>` -/
def optionalDeserialiser (t : Ty) (r : Bool) (deser : IStream) (v : t.Val) : Except StdException (t.Val × IStream) :=
  if r then deserialize t deser v else .ok (v, deser)

/-- `OptionalSerialiser<T1, r1>()(ser, t1); OptionalSerialiser<T2, r2>()(ser, t2); …` -/
def serialisePack : (ps : Pack) → ps.fields.Vals → ObjectSer → ObjectSer
  | [], _, ser => ser
  | (t, r) :: ps, vals, ser => serialisePack ps vals.2 (optionalSerialiser t r ser vals.1)

/-- `OptionalDeserialiser<T1, r1>()(deser, t1); OptionalDeserialiser<T2, r2>()(deser, t2); …` -/
def deserialisePack : (ps : Pack) → IStream → ps.fields.Vals → Except StdException (ps.fields.Vals × IStream)
  | [], deser, vals => .ok (vals, deser)
  | (t, r) :: ps, deser, vals => do
    let (v, deser) ← optionalDeserialiser t r deser vals.1
    let (vs, deser) ← deserialisePack ps deser vals.2
    return ((v, vs), deser)

/-- the text is taken before the destructor of `ser` runs -/
def serialiseAnswer (TR : Ty) (ps : Pack) (tr : TR.Val) (vals : ps.fields.Vals) : Bytes :=
  (serialisePack ps vals ((ObjectSer.init []).put (serialize TR tr))).out

def parseAnswer (TR : Ty) (ps : Pack) (s : IStream) (tr : TR.Val) (vals : ps.fields.Vals) :
    Except StdException (TR.Val × ps.fields.Vals) := do
  let (deser, _) := objectDeser s
  let (tr, deser) ← deserialize TR deser tr
  let (vals, _) ← deserialisePack ps deser vals
  return (tr, vals)

/-- `HandlerBase::readData` -/
def readData (fs : Fields) (data : Bytes) (vals : fs.Vals) : Except StdException fs.Vals := do
  let (deser, _) := objectDeser (good data)
  let (vals, _) ← deserializeFields fs deser vals
  return vals

/-- the data of a request, taken before the destructor of `ser` runs -/
def requestData (fs : Fields) (vals : fs.Vals) : Bytes := (serializeFields fs vals (.init [])).out

/-- `RemoteCall::make_call`: the return value, and the arguments afterwards -/
def makeCall (sendAndWait : Bytes → Bytes → Bytes → Except StdException Bytes) (TR : Ty) (ps : Pack)
    (protocol sig : Bytes) (vals : ps.fields.Vals) : Except StdException (TR.Val × ps.fields.Vals) := do
  let answer ← sendAndWait protocol sig (requestData ps.fields vals)
  parseAnswer TR ps (good answer) TR.default vals

/-! ## Declarations -/

/-- the types of the calls considered here -/
inductive Scalar where
  | int
  | str
deriving DecidableEq, Repr

@[reducible] def Scalar.ty : Scalar → Ty
  | .int => .int
  | .str => .str

/-- `int` or `std::string` -/
def Scalar.spelling : Scalar → StringLiteral
  | .int => ['i', 'n', 't']
  | .str => ['s', 't', 'd', ':', ':', 's', 't', 'r', 'i', 'n', 'g']

/-- a parameter type with its qualifiers; `east` is a `const` behind the type's name, `gap` a blank in front of `&` -/
structure ParamType where
  ty : Scalar
  isConst : Bool
  isRef : Bool
  east : Bool
  gap : Bool
deriving DecidableEq, Repr

namespace ParamType

/-- the text `#type` -/
def spelling (p : ParamType) : StringLiteral :=
  let name := p.ty.spelling
  let qualified := if p.isConst then (if p.east then name ++ ' ' :: constText else constText ++ ' ' :: name) else name
  if p.isRef then qualified ++ (if p.gap then ' ' :: ampText else ampText) else qualified

/-- a reference that is not const -/
def isOut (p : ParamType) : Bool := p.isRef && !p.isConst

theorem isRetval_spelling (p : ParamType) : isRetval p.spelling = p.isOut := by
  obtain ⟨_ | _, _ | _, _ | _, _ | _, _ | _⟩ := p <;> decide

/-- a variable with value `old`, given as the argument of a function that ends with `left` in its parameter -/
def after (p : ParamType) (old left : p.ty.ty.Val) : p.ty.ty.Val := if p.isOut then left else old

end ParamType

/-- `(rettype, name, type1, type2, type3)`, given to `MAKE_RMI3` and `REGISTER_RMI3` alike -/
structure Rmi where
  rettype : Scalar
  name : Bytes
  type1 : ParamType
  type2 : ParamType
  type3 : ParamType

namespace Rmi

@[reducible] def pack (d : Rmi) : Pack :=
  [(d.type1.ty.ty, isRetval d.type1.spelling), (d.type2.ty.ty, isRetval d.type2.spelling),
    (d.type3.ty.ty, isRetval d.type3.spelling)]

/-- the return type -/
abbrev Ret (d : Rmi) : Type := d.rettype.ty.Val

/-- three arguments -/
abbrev Args (d : Rmi) : Type := d.pack.fields.Vals

/-- the caller's (or the handler's) variables after a call of a function that ends with `left` in its parameters -/
def after (d : Rmi) (args left : d.Args) : d.Args :=
  (d.type1.after args.1 left.1, d.type2.after args.2.1 left.2.1, d.type3.after args.2.2.1 left.2.2.1, ())

end Rmi

/-- a server function: its return value, and what it leaves in its parameters -/
abbrev ServerFunction (d : Rmi) := d.Args → d.Ret × d.Args

/-- the function installed by `REGISTER_RMI3`: the arguments `f` receives, and the answer given to `sendAnswer` -/
def registerRmi3 (d : Rmi) (f : ServerFunction d) (data : Bytes) : Except StdException (d.Args × Bytes) := do
  let args ← readData d.pack.fields data d.pack.fields.defaults
  let (retval, left) := f args
  return (args, serialiseAnswer d.rettype.ty d.pack retval (d.after args left))

/-- the method defined by `MAKE_RMI3`: the return value, and the caller's variables afterwards -/
def makeRmi3 (d : Rmi) (sendAndWait : Bytes → Bytes → Bytes → Except StdException Bytes) (protocol : Bytes)
    (args : d.Args) : Except StdException (d.Ret × d.Args) := do
  let (retval, left) ← makeCall sendAndWait d.rettype.ty d.pack protocol d.name args
  return (retval, d.after args left)

/-! ## The parameters that are part of the answer -/

namespace Pack

@[reducible] def included : Pack → Fields
  | [] => .nil
  | (t, true) :: ps => .cons t (included ps)
  | (_, false) :: ps => included ps

def pick : (ps : Pack) → ps.fields.Vals → ps.included.Vals
  | [], vals => vals
  | (_, true) :: ps, vals => (vals.1, pick ps vals.2)
  | (_, false) :: ps, vals => pick ps vals.2

/-- `old`, with the included parameters replaced -/
def merge : (ps : Pack) → ps.fields.Vals → ps.included.Vals → ps.fields.Vals
  | [], _, _ => ()
  | (_, true) :: ps, old, got => (got.1, merge ps old.2 got.2)
  | (_, false) :: ps, old, got => (old.1, merge ps old.2 got)

/-- the parameters after a call: the included ones as the function left them, the others as they were -/
def blend : (ps : Pack) → ps.fields.Vals → ps.fields.Vals → ps.fields.Vals
  | [], _, _ => ()
  | (_, r) :: ps, old, left => (if r then left.1 else old.1, blend ps old.2 left.2)

theorem pick_merge : (ps : Pack) → (old : ps.fields.Vals) → (got : ps.included.Vals) → pick ps (merge ps old got) = got
  | [], _, _ => rfl
  | (_, true) :: ps, old, got => by rw [merge, pick, pick_merge ps]
  | (_, false) :: ps, old, got => by rw [merge, pick, pick_merge ps]

theorem merge_pick_blend : (ps : Pack) → (old left : ps.fields.Vals) →
    merge ps old (pick ps (blend ps old left)) = blend ps old left
  | [], _, _ => rfl
  | (_, true) :: ps, old, left => by simp only [blend, pick, merge, merge_pick_blend ps, if_true]
  | (_, false) :: ps, old, left => by simp only [blend, pick, merge, merge_pick_blend ps, Bool.false_eq_true, if_false]

theorem blend_merge : (ps : Pack) → (old : ps.fields.Vals) → (got : ps.included.Vals) →
    blend ps old (merge ps old got) = merge ps old got
  | [], _, _ => rfl
  | (_, true) :: ps, old, got => by simp only [blend, merge, blend_merge ps, if_true]
  | (_, false) :: ps, old, got => by simp only [blend, merge, blend_merge ps, Bool.false_eq_true, if_false]

theorem pick_plain : (ps : Pack) → {vals : ps.fields.Vals} → PlainFields ps.fields vals →
    PlainFields ps.included (pick ps vals)
  | [], _, _ => trivial
  | (_, true) :: ps, _, hv => ⟨hv.1, pick_plain ps hv.2⟩
  | (_, false) :: ps, _, hv => pick_plain ps hv.2

end Pack

open Pack

theorem serialisePack_eq : (ps : Pack) → (vals : ps.fields.Vals) → (ser : ObjectSer) →
    serialisePack ps vals ser = serializeFields ps.included (pick ps vals) ser
  | [], _, _ => rfl
  | (_, true) :: ps, vals, _ => serialisePack_eq ps vals.2 _
  | (_, false) :: ps, vals, _ => serialisePack_eq ps vals.2 _

theorem deserialisePack_cons {t : Ty} {r : Bool} {ps : Pack} {deser st : IStream}
    {old new : (Pack.fields ((t, r) :: ps)).Vals} :
    deserialisePack ((t, r) :: ps) deser old = .ok (new, st) ↔
      ∃ next, optionalDeserialiser t r deser old.1 = .ok (new.1, next) ∧
        deserialisePack ps next old.2 = .ok (new.2, st) := by
  rw [deserialisePack]
  exact bind_two_eq_ok (optionalDeserialiser t r deser old.1) (deserialisePack ps · old.2) new

theorem deserialisePack_eq_ok : (ps : Pack) → {deser st : IStream} → {old new : ps.fields.Vals} →
    (deserialisePack ps deser old = .ok (new, st) ↔
      ∃ got, deserializeFields ps.included deser (pick ps old) = .ok (got, st) ∧ new = merge ps old got)
  | [], deser, st, old, new => by
    refine ⟨?_, ?_⟩
    · intro h
      exact ⟨old, h, rfl⟩
    · intro h
      obtain ⟨got, h, rfl⟩ := h
      exact h
  | (t, true) :: ps, deser, st, old, new => by
    refine ⟨?_, ?_⟩
    · intro h
      obtain ⟨next, hv, h⟩ := deserialisePack_cons.1 h
      obtain ⟨got, hgot, hnew⟩ := (deserialisePack_eq_ok ps).1 h
      exact ⟨(new.1, got), deserializeFields_cons.2 ⟨next, hv, hgot⟩, Prod.ext rfl hnew⟩
    · intro h
      obtain ⟨got, h, rfl⟩ := h
      obtain ⟨next, hv, hgot⟩ := deserializeFields_cons.1 h
      exact deserialisePack_cons.2 ⟨next, hv, (deserialisePack_eq_ok ps).2 ⟨got.2, hgot, rfl⟩⟩
  | (t, false) :: ps, deser, st, old, new => by
    refine ⟨?_, ?_⟩
    · intro h
      obtain ⟨next, hv, h⟩ := deserialisePack_cons.1 h
      obtain ⟨got, hgot, hnew⟩ := (deserialisePack_eq_ok ps).1 h
      obtain ⟨hold, rfl⟩ := Prod.mk.inj (Except.ok.inj hv)
      exact ⟨got, hgot, Prod.ext hold.symm hnew⟩
    · intro h
      obtain ⟨got, hgot, rfl⟩ := h
      exact deserialisePack_cons.2 ⟨deser, rfl, (deserialisePack_eq_ok ps).2 ⟨got, hgot, rfl⟩⟩

/-! ## Requests and answers -/

theorem serialiseAnswer_eq (TR : Ty) (ps : Pack) (tr : TR.Val) (vals : ps.fields.Vals) :
    serialiseAnswer TR ps tr vals = requestData (.cons TR ps.included) (tr, pick ps vals) := by
  unfold serialiseAnswer requestData
  rw [serialisePack_eq]
  rfl

theorem readData_eq_ok {fs : Fields} {data : Bytes} {old new : fs.Vals} :
    readData fs data old = .ok new ↔ ∃ st, deserializeFields fs (objectDeser (good data)).1 old = .ok (new, st) := by
  unfold readData
  rw [bind_eq_ok]
  refine ⟨?_, ?_⟩
  · intro ⟨⟨vals, st⟩, h, hret⟩
    obtain rfl := Except.ok.inj hret
    exact ⟨st, h⟩
  · intro ⟨st, h⟩
    exact ⟨_, h, rfl⟩

/-- the arguments are received if and only if the last of them is a string -/
theorem request_read {fs : Fields} {vals : fs.Vals} (old : fs.Vals) (hv : PlainFields fs vals) :
    readData fs (requestData fs vals) old = .ok vals ↔ fs.last? ≠ some .int := by
  rw [readData_eq_ok]
  exact unclosed_read old hv

theorem parseAnswer_eq_ok {TR : Ty} {ps : Pack} {text : Bytes} {old tr : TR.Val} {vals new : ps.fields.Vals} :
    parseAnswer TR ps (good text) old vals = .ok (tr, new) ↔
      ∃ got, readData (.cons TR ps.included) text (old, pick ps vals) = .ok (tr, got) ∧ new = merge ps vals got := by
  unfold parseAnswer
  refine ⟨?_, ?_⟩
  · intro h
    obtain ⟨⟨tr', next⟩, htr, h⟩ := bind_eq_ok.1 h
    obtain ⟨⟨new', st⟩, hnew, h⟩ := bind_eq_ok.1 h
    cases h
    obtain ⟨got, hgot, hmerge⟩ := (deserialisePack_eq_ok ps).1 hnew
    exact ⟨got, readData_eq_ok.2 ⟨st, deserializeFields_cons.2 ⟨next, htr, hgot⟩⟩, hmerge⟩
  · intro h
    obtain ⟨got, hread, rfl⟩ := h
    obtain ⟨st, hread⟩ := readData_eq_ok.1 hread
    obtain ⟨next, htr, hgot⟩ := deserializeFields_cons.1 hread
    exact bind_eq_ok.2 ⟨_, htr, bind_eq_ok.2 ⟨_, (deserialisePack_eq_ok ps).2 ⟨got, hgot, rfl⟩, rfl⟩⟩

/-- an answer is understood if and only if its last field is a string -/
theorem answer_read {TR : Ty} {ps : Pack} {tr : TR.Val} {left : ps.fields.Vals} (old : TR.Val) (vals : ps.fields.Vals)
    (hv : PlainFields (.cons TR ps.included) (tr, pick ps left)) (hleft : merge ps vals (pick ps left) = left) :
    parseAnswer TR ps (good (serialiseAnswer TR ps tr left)) old vals = .ok (tr, left) ↔
      (Fields.cons TR ps.included).last? ≠ some .int := by
  rw [parseAnswer_eq_ok, serialiseAnswer_eq, ← request_read (old, pick ps vals) hv]
  refine ⟨?_, ?_⟩
  · intro h
    obtain ⟨got, hread, rfl⟩ := h
    rwa [pick_merge] at hread ⊢
  · intro hread
    exact ⟨pick ps left, hread, hleft.symm⟩

/-! ## Main results -/

namespace Rmi

/-- the type of the last field of the answer: the last non-const reference parameter, or the return value -/
def lastAnswer (d : Rmi) : Scalar :=
  if d.type3.isOut then d.type3.ty
  else if d.type2.isOut then d.type2.ty
  else if d.type1.isOut then d.type1.ty
  else d.rettype

theorem request_last (d : Rmi) : d.pack.fields.last? ≠ some .int ↔ d.type3.ty = .str := by
  have : d.pack.fields.last? = some d.type3.ty.ty := rfl
  rw [this]
  cases d.type3.ty <;> simp [Scalar.ty]

theorem answer_last (d : Rmi) :
    (Fields.cons d.rettype.ty d.pack.included).last? ≠ some .int ↔ d.lastAnswer = .str := by
  have hlast : (Fields.cons d.rettype.ty d.pack.included).last? = some d.lastAnswer.ty := by
    simp only [lastAnswer, pack, ParamType.isRetval_spelling]
    cases d.type3.isOut <;> cases d.type2.isOut <;> cases d.type1.isOut <;> rfl
  rw [hlast]
  cases d.lastAnswer <;> simp [Scalar.ty]

theorem after_eq_blend (d : Rmi) (args left : d.Args) : d.after args left = blend d.pack args left := by
  simp only [after, ParamType.after, ← ParamType.isRetval_spelling]
  rfl

end Rmi

/-- `sendAndWait` passes the data to the registered function and returns the string given to `sendAnswer` -/
def deliver (d : Rmi) (f : ServerFunction d) (_protocol _sig data : Bytes) : Except StdException Bytes :=
  (registerRmi3 d f data).map Prod.snd

/-- the function receives the caller's arguments, the call returns its return value, and the caller's variables end as
after a local call -/
def Transparent (d : Rmi) (f : ServerFunction d) (protocol : Bytes) (args : d.Args) : Prop :=
  (registerRmi3 d f (requestData d.pack.fields args)).map Prod.fst = .ok args ∧
    makeRmi3 d (deliver d f) protocol args = .ok ((f args).1, d.after args (f args).2)

/-- the registered function has received the caller's arguments -/
theorem registerRmi3_received {d : Rmi} {f : ServerFunction d} {args : d.Args} {data : Bytes} :
    (registerRmi3 d f data).map Prod.fst = .ok args ↔
      readData d.pack.fields data d.pack.fields.defaults = .ok args := by
  unfold registerRmi3
  cases readData d.pack.fields data d.pack.fields.defaults <;> rfl

theorem deliver_received {d : Rmi} {f : ServerFunction d} {args : d.Args} {data : Bytes} (protocol sig : Bytes)
    (h : readData d.pack.fields data d.pack.fields.defaults = .ok args) :
    deliver d f protocol sig data =
      .ok (serialiseAnswer d.rettype.ty d.pack (f args).1 (d.after args (f args).2)) := by
  unfold deliver registerRmi3
  rw [h]
  rfl

/-- the caller reads the answer into its own variables -/
theorem makeRmi3_answered {d : Rmi} {sendAndWait : Bytes → Bytes → Bytes → Except StdException Bytes}
    {protocol answer : Bytes} {args left : d.Args} {retval : d.Ret}
    (h : sendAndWait protocol d.name (requestData d.pack.fields args) = .ok answer) :
    makeRmi3 d sendAndWait protocol args = .ok (retval, left) ↔
      parseAnswer d.rettype.ty d.pack (good answer) d.rettype.ty.default args = .ok (retval, left) := by
  unfold makeRmi3 makeCall
  rw [h]
  refine ⟨?_, ?_⟩
  · intro hret
    obtain ⟨⟨retval', left'⟩, hparse, hret⟩ := bind_eq_ok.1 hret
    cases hret
    have hparse : parseAnswer d.rettype.ty d.pack (good answer) d.rettype.ty.default args = .ok (retval, left') :=
      hparse
    obtain ⟨got, -, rfl⟩ := parseAnswer_eq_ok.1 hparse
    rwa [d.after_eq_blend, blend_merge]
  · intro hparse
    obtain ⟨got, -, rfl⟩ := parseAnswer_eq_ok.1 hparse
    refine bind_eq_ok.2 ⟨_, hparse, ?_⟩
    show Except.ok (retval, d.after args _) = _
    rw [d.after_eq_blend, blend_merge]

/-- **Transparency, exactly.** For every declaration, server function and arguments: a call is transparent if and only
if the third parameter is a string and so is the last field of the answer. -/
theorem rmi_transparent_iff (d : Rmi) (f : ServerFunction d) (protocol : Bytes) (args : d.Args)
    (hargs : PlainFields d.pack.fields args)
    (hf : PlainFields (.cons d.rettype.ty d.pack.fields) ((f args).1, d.after args (f args).2)) :
    Transparent d f protocol args ↔ d.type3.ty = .str ∧ d.lastAnswer = .str := by
  have hleft : merge d.pack args (pick d.pack (d.after args (f args).2)) = d.after args (f args).2 := by
    rw [d.after_eq_blend, merge_pick_blend]
  have hrequest : readData d.pack.fields (requestData d.pack.fields args) d.pack.fields.defaults = .ok args ↔
      d.type3.ty = .str :=
    (request_read d.pack.fields.defaults hargs).trans d.request_last
  unfold Transparent
  rw [registerRmi3_received, hrequest]
  apply and_congr_right
  intro h3
  have hdeliver := deliver_received (f := f) protocol d.name (hrequest.2 h3)
  calc makeRmi3 d (deliver d f) protocol args = .ok ((f args).1, d.after args (f args).2)
      ↔ parseAnswer d.rettype.ty d.pack (good (serialiseAnswer d.rettype.ty d.pack (f args).1
          (d.after args (f args).2))) d.rettype.ty.default args = .ok ((f args).1, d.after args (f args).2) :=
        makeRmi3_answered hdeliver
    _ ↔ (Fields.cons d.rettype.ty d.pack.included).last? ≠ some .int :=
        answer_read d.rettype.ty.default args ⟨hf.1, pick_plain d.pack hf.2⟩ hleft
    _ ↔ d.lastAnswer = .str := d.answer_last

/-- `int addUser(const std::string &, std::string &, const std::string &)` -/
abbrev addUser : Rmi :=
  ⟨.int, [97, 100, 100, 85, 115, 101, 114], ⟨.str, true, true, false, true⟩, ⟨.str, false, true, false, true⟩,
    ⟨.str, true, true, false, true⟩⟩

/-- returns 42 and leaves the third argument in the second parameter -/
def addUserFn : ServerFunction addUser := fun args => (42, args.1, args.2.2.1, args.2.2.1, ())

/-- a call whose answer ends with the string left in the second parameter -/
theorem addUser_transparent : Transparent addUser addUserFn [104] ([97], [98], [99, 44], ()) :=
  (rmi_transparent_iff addUser addUserFn [104] ([97], [98], [99, 44], ())
    (by simp only [PlainFields, PlainVal]; decide) (by simp only [PlainFields, PlainVal]; decide)).2 ⟨rfl, rfl⟩

/-- `int add(int, int, int)` -/
abbrev addInts : Rmi :=
  ⟨.int, [97, 100, 100], ⟨.int, false, false, false, false⟩, ⟨.int, false, false, false, false⟩,
    ⟨.int, false, false, false, false⟩⟩

def addIntsFn : ServerFunction addInts := fun args => (args.1 + args.2.1 + args.2.2.1, args)

/-- **The last digit is lost.** Called with 1, 2 and 34, the function receives 1, 2 and 3; called with 1, 2 and 3, it
receives nothing, because `std::stoi` throws. -/
theorem last_digit_lost :
    (registerRmi3 addInts addIntsFn (requestData addInts.pack.fields (1, 2, 34, ()))).map Prod.fst = .ok (1, 2, 3, ()) ∧
      (registerRmi3 addInts addIntsFn (requestData addInts.pack.fields (1, 2, 3, ()))).map Prod.fst =
        .error .invalidArgument ∧
      ¬ Transparent addInts addIntsFn [104] (1, 2, 34, ()) := by
  have h : (registerRmi3 addInts addIntsFn (requestData addInts.pack.fields (1, 2, 34, ()))).map Prod.fst =
      .ok (1, 2, 3, ()) := rfl
  refine ⟨h, rfl, ?_⟩
  intro ht
  have := h.symm.trans ht.1
  simp at this

end NetFramework
