/-
`PreparedStatement` of dblib/db.cpp, over the statement functions of the MySQL library.

What the library and the server do is in the arguments: whether a query is prepared and which columns its result has,
whether `mysql_stmt_prepare` leaves the result bindings of the statement alone, what the parameters that are sent get for
an answer. `mysql_stmt_fetch` is a parameter (`Fetch`): what it writes through the bindings is for the results to say.

Memory is modelled as far as `value` and `execute` read it. A pointer into a vector is a place in it; a buffer is a list
of bytes, some of which have no value yet. Reading what is not there has a result of its own (`Outcome.undefined`).
-/
import Mathlib.Data.List.AList
import NetFramework.Library.Transition
import NetFramework.CoreProto

namespace NetFramework

open Transition

/-! ## The MySQL library -/

/-- `enum_field_types`, as far as `fillColumnData` names them -/
inductive FieldType where
  | decimal | tiny | short | long | float | double | null | timestamp | longlong | int24 | date | time | datetime | year
  | newdate | bit | timestamp2 | datetime2 | time2 | json | newdecimal | enum | set | tinyBlob | mediumBlob | longBlob
  | blob | varchar | varString | string | geometry
deriving DecidableEq, Repr

/-- what is read of a `MYSQL_FIELD` -/
structure Field where
  name : Bytes
  type : FieldType
  length : ℕ
deriving DecidableEq, Repr

/-- what is set of a `MYSQL_BIND`; a pointer is a place in the vector that it points into -/
structure MysqlBind where
  buffer_type : FieldType
  buffer : Option ℕ
  buffer_length : ℕ
  is_null : Option ℕ
  length : Option ℕ
  error : Option ℕ
deriving DecidableEq, Repr

/-- all bytes zero -/
def MysqlBind.zero : MysqlBind := ⟨.decimal, none, 0, none, none, none⟩

/-- the bytes of a buffer, those without a value among them -/
abbrev Chars := List (Option UInt8)

/-- `union BindData`: four bytes, the first two of which are `shortno`, or a pointer to a buffer -/
inductive BindData where
  | intno (v : BitVec 32)
  | str (buffer : Chars)
deriving DecidableEq, Repr

/-- the vectors that `mysql_stmt_fetch` writes to through the result bindings -/
structure ResultData where
  bindData : List BindData
  isNull : List Bool
  error : List Bool
  length : List ℕ
deriving DecidableEq, Repr

/-- a `MYSQL_STMT`: the columns of the last prepared query (none without a result set), the result bindings, and the
rows that are stored and have not been fetched -/
structure MysqlStmt (Row : Type) where
  fields : List Field
  bound : List MysqlBind
  rows : List Row
deriving DecidableEq, Repr

/-- what `mysql_stmt_fetch` makes of a row, and whether it returns 0 -/
abbrev Fetch (Row : Type) := List MysqlBind → Row → ResultData → ResultData × Bool

/-- a parameter as it is sent -/
inductive SentParam where
  | long (v : BitVec 32)
  | string (bytes : Chars)
  | undefined
deriving DecidableEq, Repr

/-- `mysql_stmt_execute` fails; it succeeds and `mysql_stmt_store_result` fails; both succeed -/
inductive Executed (Row : Type) where
  | failed
  | notStored
  | stored (rows : List Row)
deriving DecidableEq, Repr

/-- what the library answers in a call of `execute`: whether `mysql_stmt_bind_param` succeeds, what the server makes of
the parameters, whether `mysql_stmt_bind_result` succeeds -/
structure Answer (Row : Type) where
  bindParam : Bool
  execute : List SentParam → Executed Row
  bindResult : Bool

/-! ## Model -/

/-- the members of `PSImpl` -/
structure PreparedStatement (Row : Type) extends ResultData where
  stmt_ : Option (MysqlStmt Row)
  paramBindData : List BindData
  paramLength : List ℕ
  paramBindings : List MysqlBind
  columnData : AList fun _ : Bytes => ℕ
  bindings : List MysqlBind

/-- what is bound to a parameter: the second argument of the two `bindValue` functions -/
inductive ParamValue where
  | int (v : BitVec 32)
  | string (v : Bytes)
deriving DecidableEq, Repr

/-- what a call of `value` does: it returns false, or true with a value, or reads what is not there -/
inductive Outcome (α : Type) where
  | fails
  | ok (v : α)
  | undefined
deriving DecidableEq, Repr

/-- `vector::resize`, with the value of new elements -/
def resize {α : Type} (zero : α) (l : List α) (n : ℕ) : List α := l.take n ++ List.replicate (n - l.length) zero

/-- `_strdup(v.c_str())` -/
def strdup (v : Bytes) : Chars := (v.takeWhile fun c => c ≠ 0).map some ++ [some 0]

/-- `n` bytes read from the start of a buffer; those behind its end have no value -/
def readBytes (buffer : Chars) (n : ℕ) : Chars := (List.range n).map fun i => buffer[i]?.join

/-- the bytes up to the first zero byte, if there is one and they all have a value -/
def cString : Chars → Option Bytes
  | [] => none
  | none :: _ => none
  | some c :: rest => if c = 0 then some [] else (cString rest).map (c :: ·)

namespace PreparedStatement

variable {Row : Type}

/-- the constructor; `opened` if the database is connected and `mysql_stmt_init` returns a statement -/
def new (opened : Bool) : PreparedStatement Row where
  bindData := []
  isNull := []
  error := []
  length := []
  stmt_ := if opened then some ⟨[], [], []⟩ else none
  paramBindData := []
  paramLength := []
  paramBindings := []
  columnData := ∅
  bindings := []

/-- the number of question marks -/
def paramCount (query : Bytes) : ℕ := query.count 0x3f

/-- `answer` is the columns of the query, or none if `mysql_stmt_prepare` fails; it leaves the result bindings alone if
`keeps` -/
def prepare (s : PreparedStatement Row) (query : Bytes) (answer : Option (List Field)) (keeps : Bool) :
    PreparedStatement Row × Bool :=
  match s.stmt_ with
  | none => (s, false)
  | some stmt =>
    ({ s with
        paramLength := resize 0 s.paramLength (paramCount query)
        paramBindings := resize .zero s.paramBindings (paramCount query)
        paramBindData := resize (.intno 0) s.paramBindData (paramCount query)
        stmt_ := some ⟨answer.getD [], if keeps then stmt.bound else [], []⟩ }, answer.isSome)

/-- `bindValue` of an `int`; none if it writes outside of the vectors -/
def bindInt (s : PreparedStatement Row) (param : ℕ) (v : BitVec 32) : Option (PreparedStatement Row × Bool) :=
  if s.stmt_.isNone then some (s, false)
  else if s.paramBindings.length < param then some (s, false)
  else if param = s.paramBindings.length then none
  else
    some ({ s with
      paramBindings := s.paramBindings.set param ⟨.long, some param, 0, some 0, some param, some 0⟩
      paramLength := s.paramLength.set param 4
      paramBindData := s.paramBindData.set param (.intno v) }, true)

/-- `bindValue` of a string; none if it writes outside of the vectors -/
def bindString (s : PreparedStatement Row) (param : ℕ) (v : Bytes) : Option (PreparedStatement Row × Bool) :=
  if s.stmt_.isNone then some (s, false)
  else if s.paramBindings.length < param then some (s, false)
  else if param = s.paramBindings.length then none
  else
    some ({ s with
      paramBindData := s.paramBindData.set param (.str (strdup v))
      paramBindings := s.paramBindings.set param ⟨.string, some param, v.length, none, none, none⟩ }, true)

def bindValue (s : PreparedStatement Row) (param : ℕ) : ParamValue → Option (PreparedStatement Row × Bool)
  | .int v => s.bindInt param v
  | .string v => s.bindString param v

/-- what the library sends for a parameter. A binding that is older than the last `prepare` may point to where the vector
was before; nothing is said about what is sent for it. -/
def sentParam (data : List BindData) (b : MysqlBind) : SentParam :=
  match b.buffer_type, b.buffer.bind (data[·]?) with
  | .long, some (.intno v) => .long v
  | .string, some (.str buffer) => .string (readBytes buffer b.buffer_length)
  | _, _ => .undefined

def sent (s : PreparedStatement Row) : List SentParam := s.paramBindings.map (sentParam s.paramBindData)

/-- the body of the loop over the columns, for the column `i` -/
def fillColumn (s : PreparedStatement Row) (i : ℕ) (field : Field) : PreparedStatement Row :=
  let s := { s with
    columnData := s.columnData.insert field.name i
    bindings := s.bindings.modify i fun b =>
      { b with buffer_type := field.type, is_null := some i, length := some i, error := some i } }
  match field.type with
  | .short | .long => { s with bindings := s.bindings.modify i fun b => { b with buffer := some i } }
  | .varchar | .varString | .string =>
    { s with
      bindData := s.bindData.set i (.str (List.replicate (field.length + 1) none))
      bindings := s.bindings.modify i fun b => { b with buffer := some i, buffer_length := field.length } }
  | _ => s

/-- the loop over the columns, from the column `i` on -/
def fillColumns (s : PreparedStatement Row) (i : ℕ) : List Field → PreparedStatement Row
  | [] => s
  | field :: fields => (s.fillColumn i field).fillColumns (i + 1) fields

/-- the vectors of the results, for `fieldCount` columns -/
def resizeResults (s : PreparedStatement Row) (fieldCount : ℕ) : PreparedStatement Row :=
  { s with
    bindData := resize (.intno 0) s.bindData fieldCount
    isNull := resize false s.isNull fieldCount
    error := resize false s.error fieldCount
    bindings := resize .zero s.bindings fieldCount
    length := resize 0 s.length fieldCount }

/-- `bindResult` if `mysql_stmt_bind_result` succeeds; `mysql_stmt_result_metadata` returns null for a query without
columns -/
def fillColumnData (s : PreparedStatement Row) (bindResult : Bool) : PreparedStatement Row × Bool :=
  match s.stmt_ with
  | none => (s, false)
  | some stmt =>
    if s.columnData.entries = [] ∧ stmt.fields ≠ [] then
      let t := (s.resizeResults stmt.fields.length).fillColumns 0 stmt.fields
      ({ t with stmt_ := some { stmt with bound := if bindResult then t.bindings else stmt.bound } }, true)
    else (s, true)

/-- nothing is stored for a query without columns -/
def execute (s : PreparedStatement Row) (a : Answer Row) : PreparedStatement Row × Bool :=
  match s.stmt_ with
  | none => (s, false)
  | some stmt =>
    if s.paramBindData ≠ [] ∧ a.bindParam = false then (s, false)
    else
      match a.execute s.sent with
      | .failed | .notStored => ({ s with stmt_ := some { stmt with rows := [] } }, false)
      | .stored rows =>
        let stored := if stmt.fields = [] then [] else rows
        (({ s with stmt_ := some { stmt with rows := stored } }.fillColumnData a.bindResult).1, true)

def nextResult (fetch : Fetch Row) (s : PreparedStatement Row) : PreparedStatement Row × Bool :=
  match s.stmt_ with
  | none => (s, false)
  | some stmt =>
    match stmt.rows with
    | [] => (s, false)
    | row :: rows =>
      ({ s with
          toResultData := (fetch stmt.bound row s.toResultData).1
          stmt_ := some { stmt with rows } }, (fetch stmt.bound row s.toResultData).2)

/-- `value` for an `int` -/
def valueInt (s : PreparedStatement Row) (colname : Bytes) : Outcome (BitVec 32) :=
  if s.stmt_.isNone then .fails
  else
    match s.columnData.lookup colname with
    | none => .fails
    | some i =>
      match s.bindData[i]? with
      | some (.intno v) => .ok v
      | _ => .undefined

/-- `value` for a string -/
def valueString (s : PreparedStatement Row) (colname : Bytes) : Outcome Bytes :=
  if s.stmt_.isNone then .fails
  else
    match s.columnData.lookup colname with
    | none => .fails
    | some i =>
      match s.bindData[i]? with
      | some (.str buffer) =>
        match cString buffer with
        | some v => .ok v
        | none => .undefined
      | _ => .undefined

/-! ## What a call does -/

section Calls

variable {s : PreparedStatement Row}

theorem bindValue_closed (hs : s.stmt_ = none) (param : ℕ) (v : ParamValue) : s.bindValue param v = some (s, false) := by
  cases v with
  | int v => rw [bindValue, bindInt, hs]; rfl
  | string v => rw [bindValue, bindString, hs]; rfl

/-- what `bindValue` puts in the slot `param` of `paramBindings` -/
def boundAs (param : ℕ) : ParamValue → MysqlBind
  | .int _ => ⟨.long, some param, 0, some 0, some param, some 0⟩
  | .string v => ⟨.string, some param, v.length, none, none, none⟩

/-- what `bindValue` puts in the slot of `paramBindData` -/
def boundData : ParamValue → BindData
  | .int v => .intno v
  | .string v => .str (strdup v)

/-- both `bindValue` functions; a string has no length of its own -/
theorem bindValue_eq (hs : s.stmt_ ≠ none) (param : ℕ) (v : ParamValue) :
    s.bindValue param v =
      if s.paramBindings.length < param then some (s, false)
      else if param = s.paramBindings.length then none
      else
        some ({ s with
          paramBindings := s.paramBindings.set param (boundAs param v)
          paramLength := match v with
            | .int _ => s.paramLength.set param 4
            | .string _ => s.paramLength
          paramBindData := s.paramBindData.set param (boundData v) }, true) := by
  have hsome : ¬ s.stmt_.isNone = true := by simpa using hs
  cases v with
  | int v => rw [bindValue, bindInt, if_neg hsome]; rfl
  | string v => rw [bindValue, bindString, if_neg hsome]; rfl

theorem entries_eq_nil {m : AList fun _ : Bytes => ℕ} : m.entries = [] ↔ m = ∅ :=
  ⟨fun h => AList.ext h, fun h => by rw [h]; rfl⟩

/-- without columns, or with some from before, nothing is done -/
theorem fillColumnData_kept {bindResult : Bool} (h : s.columnData = ∅ → ∀ stmt ∈ s.stmt_, stmt.fields = []) :
    (s.fillColumnData bindResult).1 = s := by
  rw [fillColumnData]
  cases hs : s.stmt_ with
  | none => rfl
  | some stmt =>
    have hkept : ¬ (s.columnData.entries = [] ∧ stmt.fields ≠ []) := by
      rintro ⟨hempty, hfields⟩
      exact hfields (h (entries_eq_nil.1 hempty) stmt hs)
    simp only [if_neg hkept]

theorem execute_fails {a : Answer Row} (h : (s.execute a).2 = false) :
    (s.execute a).1 = s ∨
      ∃ stmt, s.stmt_ = some stmt ∧ (s.execute a).1 = { s with stmt_ := some { stmt with rows := [] } } := by
  rw [execute] at h ⊢
  cases hs : s.stmt_ with
  | none => exact Or.inl rfl
  | some stmt =>
    rw [hs] at h
    by_cases hbind : s.paramBindData ≠ [] ∧ a.bindParam = false
    · simp only [if_pos hbind]
      exact Or.inl trivial
    · simp only [if_neg hbind] at h ⊢
      cases he : a.execute s.sent with
      | failed => exact Or.inr ⟨stmt, rfl, rfl⟩
      | notStored => exact Or.inr ⟨stmt, rfl, rfl⟩
      | stored rows => rw [he] at h; cases h

theorem execute_succeeds {a : Answer Row} (h : (s.execute a).2 = true) :
    ∃ stmt rows, s.stmt_ = some stmt ∧ a.execute s.sent = .stored rows ∧
      (s.execute a).1 =
        ({ s with stmt_ := some { stmt with rows := if stmt.fields = [] then [] else rows } }.fillColumnData
          a.bindResult).1 := by
  rw [execute] at h ⊢
  cases hs : s.stmt_ with
  | none => rw [hs] at h; cases h
  | some stmt =>
    rw [hs] at h
    by_cases hbind : s.paramBindData ≠ [] ∧ a.bindParam = false
    · simp only [if_pos hbind] at h
      cases h
    · simp only [if_neg hbind] at h ⊢
      cases he : a.execute s.sent with
      | failed => rw [he] at h; cases h
      | notStored => rw [he] at h; cases h
      | stored rows => exact ⟨stmt, rows, rfl, rfl, rfl⟩

theorem nextResult_eq (fetch : Fetch Row) (s : PreparedStatement Row) :
    (s.nextResult fetch).1 = s ∨
      ∃ stmt row rows, s.stmt_ = some stmt ∧ stmt.rows = row :: rows ∧
        (s.nextResult fetch).1 = { s with
          toResultData := (fetch stmt.bound row s.toResultData).1
          stmt_ := some { stmt with rows } } := by
  rw [nextResult]
  cases hs : s.stmt_ with
  | none => exact Or.inl rfl
  | some stmt =>
    cases hrows : stmt.rows with
    | nil => simp only [hrows]; exact Or.inl trivial
    | cons row rows => simp only [hrows]; exact Or.inr ⟨stmt, row, rows, rfl, hrows, rfl⟩

end Calls

/-! ## Runs of calls -/

/-- a call that can change the statement -/
inductive Op (Row : Type) where
  | prepare (query : Bytes) (answer : Option (List Field)) (keeps : Bool)
  | bindValue (param : ℕ) (v : ParamValue)
  | execute (answer : Answer Row)
  | nextResult

def step (fetch : Fetch Row) (s : PreparedStatement Row) : Op Row → Option (PreparedStatement Row)
  | .prepare query answer keeps => some (s.prepare query answer keeps).1
  | .bindValue param v => (s.bindValue param v).map Prod.fst
  | .execute a => some (s.execute a).1
  | .nextResult => some (s.nextResult fetch).1

end PreparedStatement

end NetFramework
