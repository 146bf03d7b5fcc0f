/-
`PreparedStatement::value` for the rows that `mysql_stmt_fetch` has written through the result bindings.

The rows are those of the result of one query, with a new statement. `mysqlStmtFetch` is what is known of the library's
function: it writes two bytes for a SHORT and four for a LONG, as many bytes of a string as the binding has room for and a
zero only if there is more room, and for a NULL cell or a column without a buffer it leaves the data alone. Two bytes are
the lower half of a number, as on a little-endian machine.
- `fetched_column`: what the fetched rows leave in the data of a column.
- `value_exact_iff`: `value` answers with the cell of the current row, or with false if it has none for this type, if and
  only if there is no such column, or its cell is a LONG or a SHORT that is not negative, or a string that is shorter than
  the column and has no zero byte.
-/
import Mathlib.Data.List.TakeWhile
import NetFramework.StatementReuse

namespace NetFramework
namespace PreparedStatement

open Transition

/-! ## The library -/

/-- a cell that is not NULL; of types without a buffer the bytes do not matter -/
inductive Cell where
  | short (v : BitVec 16)
  | long (v : BitVec 32)
  | string (v : Bytes)
  | other (bytes : Bytes)
deriving DecidableEq, Repr

/-- the cells of a row; none is NULL -/
abbrev Cells := List (Option Cell)

/-- the types of columns that `fillColumnData` gives a buffer, and all others -/
inductive Kind where
  | short
  | long
  | string
  | other
deriving DecidableEq, Repr

def kind : FieldType → Kind
  | .short => .short
  | .long => .long
  | .varchar | .varString | .string => .string
  | _ => .other

def Cell.kind : Cell → Kind
  | .short _ => .short
  | .long _ => .long
  | .string _ => .string
  | .other _ => .other

/-- what the server says of the length of a cell -/
def Cell.length : Cell → ℕ
  | .short _ => 2
  | .long _ => 4
  | .string v => v.length
  | .other bytes => bytes.length

/-- the bytes that are written for a string -/
def stringBytes (buffer_length : ℕ) (v : Bytes) : Chars :=
  (v.take buffer_length).map some ++ if v.length < buffer_length then [some 0] else []

/-- a cell written to the union, or to the buffer that it points to -/
def storeCell (buffer_length : ℕ) : Cell → BindData → BindData
  | .short v, .intno w => .intno (w.extractLsb' 16 16 ++ v)
  | .long v, .intno _ => .intno v
  | .string v, .str buffer =>
    .str (stringBytes buffer_length v ++ buffer.drop (stringBytes buffer_length v).length)
  | _, data => data

/-- an element of a vector set through a pointer -/
def setAt {α : Type} (l : List α) (place : Option ℕ) (x : α) : List α :=
  match place with
  | none => l
  | some i => l.set i x

/-- a cell longer than its buffer is cut off -/
def Cell.truncated (buffer_length : ℕ) : Cell → Bool
  | .string v => decide (buffer_length < v.length)
  | _ => false

/-- what is written through the binding of a column -/
def fetchCell (d : ResultData) (b : MysqlBind) : Option Cell → ResultData
  | none => { d with isNull := setAt d.isNull b.is_null true }
  | some cell =>
    { bindData := match b.buffer with
        | none => d.bindData
        | some i => d.bindData.modify i (storeCell b.buffer_length cell)
      isNull := setAt d.isNull b.is_null false
      error := setAt d.error b.error (cell.truncated b.buffer_length)
      length := setAt d.length b.length cell.length }

def fetchRow (d : ResultData) : List MysqlBind → Cells → ResultData
  | b :: bound, cell :: row => fetchRow (fetchCell d b cell) bound row
  | _, _ => d

/-- `mysql_stmt_fetch`; it returns 0 unless a string is cut off -/
def mysqlStmtFetch : Fetch Cells := fun bound row d =>
  (fetchRow d bound row, (bound.zip row).all fun p => !(p.2.any (Cell.truncated p.1.buffer_length)))

/-- the cells of a row are of the types of the columns -/
def Fits (schema : List Field) (row : Cells) : Prop :=
  List.Forall₂ (fun field cell => ∀ c ∈ cell, Cell.kind c = kind field.type) schema row

theorem Fits.cell {schema : List Field} {row : Cells} {k : ℕ} {field : Field} (h : Fits schema row)
    (hfield : schema[k]? = some field) : ∃ cell, row[k]? = some cell ∧ ∀ c ∈ cell, Cell.kind c = kind field.type := by
  obtain ⟨hk, rfl⟩ := List.getElem?_eq_some_iff.1 hfield
  have hlt : k < row.length := h.length_eq ▸ hk
  exact ⟨row[k], List.getElem?_eq_getElem hlt, (List.forall₂_iff_get.1 h).2 k hk hlt⟩

/-! ## What `value` is for -/

/-- the value of a cell as an `int` -/
def Cell.asInt : Cell → Option (BitVec 32)
  | .short v => some (v.signExtend 32)
  | .long v => some v
  | _ => none

/-- the value of a cell as a string -/
def Cell.asString : Cell → Option Bytes
  | .string v => some v
  | _ => none

/-- the cell of a column in the current row, which is the last that was fetched -/
def current (schema : List Field) (rows : List Cells) (colname : Bytes) : Option Cell := do
  let row ← rows.getLast?
  let i ← schema.findIdx? fun field => field.name = colname
  row[i]?.join

/-- true with the value, or false -/
def Outcome.ofOption {α : Type} : Option α → Outcome α
  | none => .fails
  | some v => .ok v

/-! ## Columns -/

/-- the binding of the column `i` -/
def bindingOf (i : ℕ) (field : Field) : MysqlBind where
  buffer_type := field.type
  buffer := if kind field.type = .other then none else some i
  buffer_length := if kind field.type = .string then field.length else 0
  is_null := some i
  length := some i
  error := some i

/-- the data of a column before the first row -/
def initialData (field : Field) : BindData :=
  if kind field.type = .string then .str (List.replicate (field.length + 1) none) else .intno 0

/-- the bindings of the columns from `i` on -/
def bindingsFrom (i : ℕ) : List Field → List MysqlBind
  | [] => []
  | field :: fields => bindingOf i field :: bindingsFrom (i + 1) fields

section Columns

variable {s : PreparedStatement Cells} {i : ℕ} {field : Field}

theorem fillColumn_data (h : s.bindData[i]? = some (.intno 0)) :
    (s.fillColumn i field).bindData = s.bindData.set i (initialData field) := by
  have hsame : s.bindData.set i (.intno 0) = s.bindData := by
    obtain ⟨hlt, hget⟩ := List.getElem?_eq_some_iff.1 h
    rw [← hget, List.set_getElem_self]
  cases htype : field.type <;> simp only [fillColumn, initialData, kind, htype, reduceCtorEq, ↓reduceIte, hsame]

theorem fillColumn_bindings (h : s.bindings[i]? = some .zero) :
    (s.fillColumn i field).bindings = s.bindings.set i (bindingOf i field) := by
  have hlt : i < s.bindings.length := (List.getElem?_eq_some_iff.1 h).1
  have hfirst : ∀ f : MysqlBind → MysqlBind, s.bindings.modify i f = s.bindings.set i (f .zero) := by
    intro f
    rw [List.modify_eq_set_getElem?, h]
    rfl
  have hsecond : ∀ (b : MysqlBind) (f : MysqlBind → MysqlBind),
      (s.bindings.set i b).modify i f = s.bindings.set i (f b) := by
    intro b f
    rw [List.modify_eq_set_getElem?, List.getElem?_set_self hlt]
    exact List.set_set b
  cases htype : field.type <;> simp [fillColumn, bindingOf, kind, htype, hfirst, hsecond, MysqlBind.zero]

/-- the other vectors have the results, and are not touched by the loop -/
theorem fillColumn_stmt (s : PreparedStatement Cells) (i : ℕ) (field : Field) :
    (s.fillColumn i field).stmt_ = s.stmt_ := by
  cases htype : field.type <;> simp only [fillColumn, htype]

/-- the loop over the columns, with the vectors filled up to the column `i` -/
theorem fillColumns_eq (fields : List Field) {data : List BindData} {bindings : List MysqlBind}
    (hdata : s.bindData = data ++ List.replicate fields.length (.intno 0)) (hi : data.length = i)
    (hbindings : s.bindings = bindings ++ List.replicate fields.length .zero) (hi' : bindings.length = i) :
    (s.fillColumns i fields).bindData = data ++ fields.map initialData ∧
      (s.fillColumns i fields).bindings = bindings ++ bindingsFrom i fields ∧
      (s.fillColumns i fields).stmt_ = s.stmt_ := by
  induction fields generalizing s i data bindings with
  | nil => exact ⟨hdata, hbindings, rfl⟩
  | cons field fields ih =>
    rw [List.length_cons, List.replicate_succ] at hdata hbindings
    have hget : s.bindData[i]? = some (.intno 0) := by
      rw [hdata, ← hi, List.getElem?_append_right le_rfl, Nat.sub_self]
      rfl
    have hget' : s.bindings[i]? = some .zero := by
      rw [hbindings, ← hi', List.getElem?_append_right le_rfl, Nat.sub_self]
      rfl
    have hdata' : (s.fillColumn i field).bindData =
        (data ++ [initialData field]) ++ List.replicate fields.length (.intno 0) := by
      rw [fillColumn_data hget, hdata, ← hi, List.set_append_right _ _ le_rfl, Nat.sub_self, List.append_assoc]
      rfl
    have hbindings' : (s.fillColumn i field).bindings =
        (bindings ++ [bindingOf i field]) ++ List.replicate fields.length .zero := by
      rw [fillColumn_bindings hget', hbindings, ← hi', List.set_append_right _ _ le_rfl, Nat.sub_self,
        List.append_assoc]
      rfl
    obtain ⟨h₁, h₂, h₃⟩ := ih (i := i + 1) hdata' (by simp [hi]) hbindings' (by simp [hi'])
    refine ⟨?_, ?_, ?_⟩
    · rw [fillColumns, h₁, List.append_assoc]
      rfl
    · rw [fillColumns, h₂, List.append_assoc]
      rfl
    · rw [fillColumns, h₃, fillColumn_stmt]

theorem findIdx?_name_cons (field : Field) (fields : List Field) (colname : Bytes) :
    (field :: fields).findIdx? (fun f => f.name = colname) =
      if field.name = colname then some 0
      else (fields.findIdx? fun f => f.name = colname).map (· + 1) := by
  rw [List.findIdx?_cons]
  by_cases h : field.name = colname
  · simp [h]
  · simp [h]

/-- the columns that are entered, for names that are all different -/
theorem columnsFrom_lookup {fields : List Field} (hnames : (fields.map Field.name).Nodup)
    (columnData : AList fun _ : Bytes => ℕ) (i : ℕ) (colname : Bytes) :
    (columnsFrom columnData i fields).lookup colname =
      match fields.findIdx? fun f => f.name = colname with
      | some k => some (i + k)
      | none => columnData.lookup colname := by
  induction fields generalizing columnData i with
  | nil => rfl
  | cons field fields ih =>
    rw [List.map_cons, List.nodup_cons] at hnames
    rw [columnsFrom, ih hnames.2, findIdx?_name_cons]
    by_cases h : field.name = colname
    · -- no later column has the name
      have hnone : (fields.findIdx? fun f => f.name = colname) = none := by
        rw [List.findIdx?_eq_none_iff]
        intro f hf
        refine decide_eq_false fun hname => hnames.1 ?_
        rw [h, ← hname]
        exact List.mem_map_of_mem hf
      rw [hnone, if_pos h, ← h]
      exact AList.lookup_insert columnData
    · rw [if_neg h]
      cases hk : fields.findIdx? fun f => f.name = colname with
      | none => exact AList.lookup_insert_ne (Ne.symm h)
      | some k =>
        simp only [Option.map_some]
        rw [Nat.add_assoc, Nat.add_comm 1 k]

end Columns

/-! ## Rows -/

/-- the data of a column after a cell is fetched; a column without a buffer keeps it -/
def fetchData (field : Field) (cell : Option Cell) (data : BindData) : BindData :=
  match cell with
  | none => data
  | some c => if kind field.type = .other then data else storeCell (bindingOf 0 field).buffer_length c data

section Rows

variable {d : ResultData} {i j k : ℕ} {field : Field} {fields : List Field} {row : Cells}

theorem fetchCell_data (d : ResultData) (i : ℕ) (field : Field) (cell : Option Cell) :
    (fetchCell d (bindingOf i field) cell).bindData = d.bindData.modify i (fetchData field cell) := by
  cases cell with
  | none => exact (List.modify_id i d.bindData).symm
  | some c =>
    by_cases hkind : kind field.type = .other
    · have hid : fetchData field (some c) = id := funext fun data => if_pos hkind
      rw [hid, List.modify_id]
      simp only [fetchCell, bindingOf, if_pos hkind]
    · have hstore : fetchData field (some c) = storeCell (bindingOf i field).buffer_length c :=
        funext fun data => if_neg hkind
      rw [hstore]
      simp only [fetchCell, bindingOf, if_neg hkind]

/-- the columns before the first binding are not touched -/
theorem fetchRow_below (hj : j < i) :
    (fetchRow d (bindingsFrom i fields) row).bindData[j]? = d.bindData[j]? := by
  induction fields generalizing d i row with
  | nil => rfl
  | cons field fields ih =>
    cases row with
    | nil => rfl
    | cons cell row =>
      rw [bindingsFrom, fetchRow, ih (Nat.lt_succ_of_lt hj), fetchCell_data, List.getElem?_modify_ne _ _ hj.ne']

/-- **A row.** Each cell goes to the data of its own column. -/
theorem fetchRow_data (hfield : fields[k]? = some field) {cell : Option Cell} (hcell : row[k]? = some cell) :
    (fetchRow d (bindingsFrom i fields) row).bindData[i + k]? =
      d.bindData[i + k]?.map (fetchData field cell) := by
  induction fields generalizing d i k row with
  | nil => cases hfield
  | cons f fields ih =>
    cases row with
    | nil => cases hcell
    | cons c row =>
      rw [bindingsFrom, fetchRow]
      cases k with
      | zero =>
        cases hfield
        cases hcell
        have hrow : (fetchRow (fetchCell d (bindingOf i field) cell) (bindingsFrom (i + 1) fields) row).bindData[i]? =
            (fetchCell d (bindingOf i field) cell).bindData[i]? := fetchRow_below (Nat.lt_succ_self i)
        change (fetchRow (fetchCell d (bindingOf i field) cell) (bindingsFrom (i + 1) fields) row).bindData[i]? =
          d.bindData[i]?.map (fetchData field cell)
        rw [hrow, fetchCell_data, List.getElem?_modify_eq]
        rfl
      | succ k =>
        rw [List.getElem?_cons_succ] at hfield hcell
        have hrow := ih (d := fetchCell d (bindingOf i f) c) (i := i + 1) hfield hcell
        rw [Nat.add_right_comm i 1 k, Nat.add_assoc] at hrow
        rw [hrow, fetchCell_data, List.getElem?_modify_ne _ _ (by omega)]

end Rows

/-! ## The data of a column -/

/-- what the data of a column are after the rows so far, `last` being the current one: two bytes of a number stay zero for
a SHORT, and the last element of a string's buffer is never written -/
def ColumnHolds (field : Field) (last : Option Cells) (k : ℕ) (data : BindData) : Prop :=
  match kind field.type with
  | .short => ∃ w : BitVec 16, data = .intno (w.zeroExtend 32) ∧
      ∀ v, last.bind (·[k]?.join) = some (.short v) → w = v
  | .long => ∃ w, data = .intno w ∧ ∀ v, last.bind (·[k]?.join) = some (.long v) → w = v
  | .string => ∃ buffer, data = .str buffer ∧ buffer.length = field.length + 1 ∧ buffer[field.length]? = some none ∧
      ∀ v, last.bind (·[k]?.join) = some (.string v) → stringBytes field.length v <+: buffer
  | .other => data = .intno 0

section Data

variable {i k : ℕ} {field : Field} {last : Option Cells} {row : Cells} {data : BindData} {n : ℕ} {v : Bytes}

theorem columnHolds_initial (field : Field) (k : ℕ) : ColumnHolds field none k (initialData field) := by
  unfold ColumnHolds initialData
  cases hkind : kind field.type with
  | short => exact ⟨0, rfl, nofun⟩
  | long => exact ⟨0, rfl, nofun⟩
  | string =>
    refine ⟨_, rfl, List.length_replicate, ?_, nofun⟩
    rw [List.getElem?_replicate, if_pos (Nat.lt_succ_self _)]
  | other => rfl

theorem stringBytes_length_le (n : ℕ) (v : Bytes) : (stringBytes n v).length ≤ n := by
  rw [stringBytes, List.length_append, List.length_map, List.length_take]
  split_ifs with h
  · rw [List.length_singleton]
    omega
  · rw [List.length_nil]
    omega

/-- two bytes written over a number whose upper half is zero -/
theorem short_store (w v : BitVec 16) : (w.zeroExtend 32).extractLsb' 16 16 ++ v = v.zeroExtend 32 := by
  grind

/-- where the current cell is NULL, nothing is said of it -/
theorem ColumnHolds.null (h : ColumnHolds field last k data) {row : Option Cells}
    (hnull : row.bind (fun r : Cells => r[k]?.join) = none) : ColumnHolds field row k data := by
  unfold ColumnHolds at h ⊢
  rw [hnull]
  cases hkind : kind field.type with
  | short =>
    rw [hkind] at h
    obtain ⟨w, hw, -⟩ := h
    exact ⟨w, hw, nofun⟩
  | long =>
    rw [hkind] at h
    obtain ⟨w, hw, -⟩ := h
    exact ⟨w, hw, nofun⟩
  | string =>
    rw [hkind] at h
    obtain ⟨buffer, hbuffer, hlength, hend, -⟩ := h
    exact ⟨buffer, hbuffer, hlength, hend, nofun⟩
  | other =>
    rw [hkind] at h
    exact h

/-- **A cell.** What is fetched for the column is there; the rest is as it was. -/
theorem ColumnHolds.fetch (h : ColumnHolds field last k data) {cell : Option Cell} (hcell : row[k]? = some cell)
    (hfits : ∀ c ∈ cell, Cell.kind c = kind field.type) :
    ColumnHolds field (some row) k (fetchData field cell data) := by
  have hlast : (some row).bind (fun r : Cells => r[k]?.join) = cell := by
    rw [Option.bind_some, hcell, Option.join_some]
  cases cell with
  | none => exact h.null hlast
  | some c =>
    have hkind := hfits c rfl
    unfold ColumnHolds at h ⊢
    rw [← hkind] at h ⊢
    rw [hlast, fetchData, ← hkind]
    cases c with
    | short v =>
      obtain ⟨w, rfl, -⟩ := h
      refine ⟨v, congrArg BindData.intno (short_store w v), ?_⟩
      intro u hu
      cases hu
      rfl
    | long v =>
      obtain ⟨w, rfl, -⟩ := h
      refine ⟨v, rfl, ?_⟩
      intro u hu
      cases hu
      rfl
    | string v =>
      obtain ⟨buffer, rfl, hlength, hend, -⟩ := h
      have hle := stringBytes_length_le field.length v
      have hwidth : (bindingOf 0 field).buffer_length = field.length := if_pos hkind.symm
      rw [hwidth]
      refine ⟨stringBytes field.length v ++ buffer.drop (stringBytes field.length v).length, rfl, ?_, ?_, ?_⟩
      · rw [List.length_append, List.length_drop, hlength]
        omega
      · rw [List.getElem?_append_right hle, List.getElem?_drop, Nat.add_sub_cancel' hle, hend]
      · intro u hu
        cases hu
        exact List.prefix_append _ _
    | other bytes => exact h

end Data

/-! ## The statement -/

/-- the rows up to `last` are fetched, and `rows` are left -/
structure Fetched (schema : List Field) (last : Option Cells) (rows : List Cells) (s : PreparedStatement Cells) :
    Prop where
  stmt : s.stmt_ = some ⟨schema, bindingsFrom 0 schema, rows⟩
  data : ∀ k field, schema[k]? = some field → ∃ data, s.bindData[k]? = some data ∧ ColumnHolds field last k data

section Statement

variable {s t : PreparedStatement Cells} {schema : List Field} {last : Option Cells} {rows later : List Cells}
  {row : Cells}

/-- the results of a statement that is new but for its query -/
structure Prepared (schema : List Field) (s : PreparedStatement Cells) : Prop where
  stmt : s.stmt_ = some ⟨schema, [], []⟩
  columns : s.columnData = ∅
  data : s.toResultData = ⟨[], [], [], []⟩
  bindings : s.bindings = []

theorem prepared_run {fetch : Fetch Cells} {r : Round Cells} (hschema : r.prepared = some schema)
    (h : run (step fetch) (.new true) r.calls = some t) : Prepared schema t := by
  obtain ⟨u, hu, h⟩ := run_cons_some.1 h
  obtain rfl : ((new true : PreparedStatement Cells).prepare r.query r.prepared r.keeps).1 = u := Option.some.inj hu
  have hsame := run_binds h
  rw [hschema] at hsame
  refine ⟨?_, hsame.columns.symm, hsame.data.symm, hsame.bindings.symm⟩
  rw [← hsame.stmt]
  cases r.keeps with
  | false => rfl
  | true => rfl

theorem resize_nil {α : Type} (zero : α) (n : ℕ) : resize zero [] n = List.replicate n zero := by
  rw [resize, List.take_nil, List.length_nil, Nat.sub_zero, List.nil_append]

/-- the first columns of a statement get their data and bindings -/
theorem fillColumnData_first {stmt : MysqlStmt Cells} (hstmt : s.stmt_ = some stmt) (hfields : stmt.fields ≠ [])
    (hcolumns : s.columnData = ∅) (hdata : s.bindData = []) (hbindings : s.bindings = []) :
    (s.fillColumnData true).1.bindData = stmt.fields.map initialData ∧
      (s.fillColumnData true).1.stmt_ = some { stmt with bound := bindingsFrom 0 stmt.fields } := by
  have hdata' : (s.resizeResults stmt.fields.length).bindData = [] ++ List.replicate stmt.fields.length (.intno 0) := by
    rw [resizeResults, hdata, resize_nil, List.nil_append]
  have hbindings' : (s.resizeResults stmt.fields.length).bindings = [] ++ List.replicate stmt.fields.length .zero := by
    rw [resizeResults, hbindings, resize_nil, List.nil_append]
  obtain ⟨hfilled, hbound, -⟩ := fillColumns_eq (i := 0) stmt.fields hdata' rfl hbindings' rfl
  have hfill : s.columnData.entries = [] ∧ stmt.fields ≠ [] := ⟨entries_eq_nil.2 hcolumns, hfields⟩
  rw [fillColumnData, hstmt]
  simp only [if_pos hfill, hfilled, hbound, ↓reduceIte, List.nil_append, and_self]

/-- the columns are entered by `execute`, with their bindings and data -/
theorem Prepared.execute {a : Answer Cells} (h : Prepared schema t) (hbind : a.bindResult = true)
    (hexec : (t.execute a).2 = true) (hrows : a.execute t.sent = .stored rows) :
    (t.execute a).1.columnData = columnsFrom ∅ 0 schema ∧
      (schema ≠ [] → Fetched schema none rows (t.execute a).1) := by
  obtain ⟨stmt, stored, hstmt, hstored, heq⟩ := execute_succeeds hexec
  obtain rfl : ⟨schema, [], []⟩ = stmt := Option.some.inj (h.stmt.symm.trans hstmt)
  rw [hrows] at hstored
  cases hstored
  rw [heq, hbind]
  by_cases hempty : schema = []
  · refine ⟨?_, fun hne => absurd hempty hne⟩
    rw [fillColumnData_kept fun _ stmt hs => by cases hs; exact hempty, hempty]
    exact h.columns
  · simp only [if_neg hempty]
    have hdata : t.bindData = [] := congrArg ResultData.bindData h.data
    obtain ⟨hfilled, hbound⟩ := fillColumnData_first (s := { t with stmt_ := some ⟨schema, [], rows⟩ }) rfl hempty
      h.columns hdata h.bindings
    refine ⟨fillColumnData_filled rfl h.columns hempty, fun _ => ⟨hbound, ?_⟩⟩
    intro k field hfield
    refine ⟨initialData field, ?_, columnHolds_initial field k⟩
    rw [hfilled, List.getElem?_map, hfield, Option.map_some]

/-- **A row.** `nextResult` writes it to the columns. -/
theorem Fetched.next (h : Fetched schema last (row :: rows) s) (hfits : Fits schema row) :
    Fetched schema (some row) rows (s.nextResult mysqlStmtFetch).1 := by
  obtain ⟨hstmt, hdata⟩ := h
  rw [nextResult]
  simp only [hstmt]
  refine ⟨rfl, ?_⟩
  intro k field hfield
  obtain ⟨data, hget, hholds⟩ := hdata k field hfield
  obtain ⟨cell, hcell, hkind⟩ := hfits.cell hfield
  refine ⟨fetchData field cell data, ?_, hholds.fetch hcell hkind⟩
  have hrow := fetchRow_data (d := s.toResultData) (i := 0) hfield hcell
  rw [Nat.zero_add, hget, Option.map_some] at hrow
  exact hrow

/-- **Rows.** One after another is fetched. -/
theorem fetched_column (h : Fetched schema none (rows ++ later) s) (hfits : ∀ row ∈ rows, Fits schema row) :
    Fetched schema rows.getLast? later (s.nextResults mysqlStmtFetch rows.length) := by
  induction rows using List.reverseRecOn generalizing later with
  | nil => exact h
  | append_singleton rows row ih =>
    rw [List.append_assoc, List.singleton_append] at h
    have hrows := ih h fun r hr => hfits r (List.mem_append_left _ hr)
    rw [List.getLast?_concat, List.length_append, List.length_singleton, nextResults]
    exact hrows.next (hfits row (List.mem_append_right _ (List.mem_singleton_self row)))

theorem nextResults_columnData (s : PreparedStatement Cells) (fetch : Fetch Cells) (n : ℕ) :
    (s.nextResults fetch n).columnData = s.columnData := by
  induction n with
  | zero => rfl
  | succ n ih =>
    rw [nextResults]
    rcases nextResult_eq fetch (s.nextResults fetch n) with heq | ⟨stmt, row, rows, -, -, heq⟩
    · rw [heq, ih]
    · rw [heq, ih]

end Statement

/-! ## Values -/

/-- what `value` for an `int` makes of the data of a column -/
def readInt : BindData → Outcome (BitVec 32)
  | .intno v => .ok v
  | .str _ => .undefined

/-- what `value` for a string makes of the data of a column -/
def readString : BindData → Outcome Bytes
  | .intno _ => .undefined
  | .str buffer =>
    match cString buffer with
    | some v => .ok v
    | none => .undefined

/-- the cells that an `int` is read from as they are -/
def ExactInt : Cell → Prop
  | .short v => 0 ≤ v.toInt
  | .long _ => True
  | _ => False

section Values

variable {field : Field} {last : Option Cells} {k : ℕ} {data : BindData} {s : PreparedStatement Cells} {colname : Bytes}

/-- without a column of that name the answer is false -/
theorem value_absent (h : s.columnData.lookup colname = none) :
    s.valueInt colname = .fails ∧ s.valueString colname = .fails := by
  rw [valueInt, valueString, h]
  exact ⟨ite_self _, ite_self _⟩

theorem value_present (hopen : s.stmt_ ≠ none) (h : s.columnData.lookup colname = some k)
    (hdata : s.bindData[k]? = some data) :
    s.valueInt colname = readInt data ∧ s.valueString colname = readString data := by
  have hsome : ¬ s.stmt_.isNone = true := by simpa using hopen
  rw [valueInt, valueString, if_neg hsome, if_neg hsome, h]
  simp only [hdata]
  cases data with
  | intno v => exact ⟨rfl, rfl⟩
  | str buffer => exact ⟨rfl, rfl⟩

theorem zeroExtend_eq_signExtend (v : BitVec 16) : v.zeroExtend 32 = v.signExtend 32 ↔ 0 ≤ v.toInt := by
  have hmsb : 0 ≤ v.toInt ↔ v.msb = false := by
    rw [BitVec.msb_eq_toInt, decide_eq_false_iff_not, not_lt]
  rw [hmsb]
  refine ⟨?_, ?_⟩
  · intro h
    have hbit := congrArg (fun w : BitVec 32 => w[31]) h
    simpa [BitVec.getElem_signExtend] using hbit
  · intro h
    rw [BitVec.signExtend_eq_setWidth_of_msb_false h]

/-- a text with a zero behind it -/
theorem cString_zero (v : Bytes) (rest : Chars) :
    cString (v.map some ++ some 0 :: rest) = some (v.takeWhile fun c => c ≠ 0) := by
  induction v with
  | nil => rfl
  | cons c v ih =>
    rw [List.map_cons, List.cons_append, cString, ih, List.takeWhile_cons]
    by_cases hc : c = 0
    · simp [hc]
    · simp [hc]

/-- a text with nothing behind it that can be read -/
theorem cString_undefined {v u : Bytes} {rest : Chars} (h : cString (v.map some ++ none :: rest) = some u) :
    u.length < v.length := by
  induction v generalizing u with
  | nil => cases h
  | cons c v ih =>
    rw [List.map_cons, List.cons_append, cString] at h
    split_ifs at h
    · cases h
      exact Nat.succ_pos _
    · obtain ⟨w, hw, rfl⟩ := Option.map_eq_some_iff.1 h
      exact Nat.succ_lt_succ (ih hw)

/-- there is an answer whatever the data are -/
theorem readInt_ne_fails (data : BindData) : readInt data ≠ .fails := by
  cases data with
  | intno v => exact nofun
  | str buffer => exact nofun

theorem readString_ne_fails (data : BindData) : readString data ≠ .fails := by
  cases data with
  | intno v => exact nofun
  | str buffer =>
    rw [readString]
    cases cString buffer with
    | none => exact nofun
    | some v => exact nofun

/-- **An `int`.** It is the cell of a LONG, and of a SHORT that is not negative, the upper half being zero. For a NULL
cell, or one of another type, there is an answer all the same. -/
theorem readInt_iff (h : ColumnHolds field last k data) {cell : Option Cell} (hcell : last.bind (·[k]?.join) = cell)
    (hkind : ∀ c ∈ cell, Cell.kind c = kind field.type) :
    readInt data = Outcome.ofOption (cell.bind Cell.asInt) ↔ ∃ c, cell = some c ∧ ExactInt c := by
  cases cell with
  | none => exact iff_of_false (readInt_ne_fails data) nofun
  | some c =>
    unfold ColumnHolds at h
    rw [hcell, ← hkind c rfl] at h
    have hexact : (∃ d, some c = some d ∧ ExactInt d) ↔ ExactInt c :=
      ⟨fun ⟨d, hd, hexact⟩ => Option.some.inj hd ▸ hexact, fun hexact => ⟨c, rfl, hexact⟩⟩
    rw [hexact]
    cases c with
    | short v =>
      obtain ⟨w, rfl, hw⟩ := h
      obtain rfl := hw v rfl
      calc readInt (.intno (w.zeroExtend 32)) = .ok (w.signExtend 32)
          ↔ w.zeroExtend 32 = w.signExtend 32 := by rw [readInt, Outcome.ok.injEq]
        _ ↔ 0 ≤ w.toInt := zeroExtend_eq_signExtend w
    | long v =>
      obtain ⟨w, rfl, hw⟩ := h
      obtain rfl := hw v rfl
      exact iff_of_true rfl trivial
    | string v => exact iff_of_false (readInt_ne_fails data) id
    | other bytes => exact iff_of_false (readInt_ne_fails data) id

/-- a string is read back from its buffer if there was room for the zero, and it has none of its own -/
theorem cString_stringBytes {n : ℕ} {v : Bytes} {buffer : Chars} (hlength : buffer.length = n + 1)
    (hend : buffer[n]? = some none) (hstart : stringBytes n v <+: buffer) :
    cString buffer = some v ↔ v.length < n ∧ 0 ∉ v := by
  obtain ⟨rest, rfl⟩ := hstart
  by_cases hroom : v.length < n
  · have hbytes : stringBytes n v ++ rest = v.map some ++ some 0 :: rest := by
      rw [stringBytes, if_pos hroom, List.take_of_length_le hroom.le, List.append_assoc, List.singleton_append]
    rw [hbytes, cString_zero, Option.some_inj, List.takeWhile_eq_self_iff, and_iff_right hroom]
    refine ⟨?_, ?_⟩
    · intro h hzero
      exact absurd (h 0 hzero) (by decide)
    · intro h c hc
      exact decide_eq_true fun hzero => h (hzero ▸ hc)
  · refine iff_of_false ?_ fun h => hroom h.1
    have hbytes : stringBytes n v = (v.take n).map some := by
      rw [stringBytes, if_neg hroom, List.append_nil]
    have hsize : ((v.take n).map some).length = n := by
      rw [List.length_map, List.length_take]
      omega
    -- the buffer is full, and what follows has never been written
    rw [hbytes] at hlength hend ⊢
    rw [List.getElem?_append_right hsize.le, hsize, Nat.sub_self] at hend
    obtain ⟨more, rfl⟩ : ∃ more, rest = none :: more := by
      cases rest with
      | nil => cases hend
      | cons c more => exact ⟨more, by rw [Option.some.inj hend]⟩
    intro h
    have hlt := cString_undefined h
    rw [List.length_take] at hlt
    omega

/-- **A string.** -/
theorem readString_iff (h : ColumnHolds field last k data) {cell : Option Cell}
    (hcell : last.bind (·[k]?.join) = cell) (hkind : ∀ c ∈ cell, Cell.kind c = kind field.type) :
    readString data = Outcome.ofOption (cell.bind Cell.asString) ↔
      ∃ v, cell = some (.string v) ∧ v.length < field.length ∧ 0 ∉ v := by
  cases cell with
  | none => exact iff_of_false (readString_ne_fails data) nofun
  | some c =>
    unfold ColumnHolds at h
    rw [hcell, ← hkind c rfl] at h
    cases c with
    | short v => exact iff_of_false (readString_ne_fails data) nofun
    | long v => exact iff_of_false (readString_ne_fails data) nofun
    | string v =>
      obtain ⟨buffer, rfl, hlength, hend, hstart⟩ := h
      have hread : readString (.str buffer) = .ok v ↔ cString buffer = some v := by
        rw [readString]
        cases cString buffer with
        | none => exact iff_of_false nofun nofun
        | some u => rw [Outcome.ok.injEq, Option.some_inj]
      calc readString (.str buffer) = .ok v ↔ cString buffer = some v := hread
        _ ↔ v.length < field.length ∧ 0 ∉ v := cString_stringBytes hlength hend (hstart v rfl)
        _ ↔ ∃ u, some (Cell.string v) = some (.string u) ∧ u.length < field.length ∧ 0 ∉ u :=
          ⟨fun hv => ⟨v, rfl, hv⟩, fun ⟨u, hu, hv⟩ => by cases hu; exact hv⟩
    | other bytes => exact iff_of_false (readString_ne_fails data) nofun

end Values

section Current

variable {schema : List Field} {rows : List Cells} {colname : Bytes} {k : ℕ}

theorem findIdx?_none_iff :
    (schema.findIdx? fun field => field.name = colname) = none ↔ colname ∉ schema.map Field.name := by
  rw [List.findIdx?_eq_none_iff, List.mem_map]
  refine ⟨?_, ?_⟩
  · rintro h ⟨field, hfield, hname⟩
    exact of_decide_eq_false (h field hfield) hname
  · intro h field hfield
    exact decide_eq_false fun hname => h ⟨field, hfield, hname⟩

/-- there is no current cell without a column -/
theorem current_none (hk : (schema.findIdx? fun field => field.name = colname) = none) :
    current schema rows colname = none := by
  rw [current, hk]
  cases rows.getLast? with
  | none => rfl
  | some row => rfl

theorem current_some (hk : (schema.findIdx? fun field => field.name = colname) = some k) :
    rows.getLast?.bind (fun row : Cells => row[k]?.join) = current schema rows colname := by
  rw [current, hk]
  rfl

/-- the current cell is of the column's type -/
theorem current_kind {field : Field} (hk : (schema.findIdx? fun field => field.name = colname) = some k)
    (hfield : schema[k]? = some field) (hfits : ∀ row ∈ rows, Fits schema row) :
    ∀ c ∈ current schema rows colname, Cell.kind c = kind field.type := by
  intro c hc
  rw [← current_some hk] at hc
  obtain ⟨row, hrow, hjoin⟩ := Option.bind_eq_some_iff.1 hc
  obtain ⟨cell, hcell, hkind⟩ := (hfits row (List.mem_of_getLast? hrow)).cell hfield
  rw [hcell, Option.join_some] at hjoin
  exact hkind c hjoin

/-- the width of the only column of a name -/
theorem width_iff {field : Field} (hnames : (schema.map Field.name).Nodup) (hmem : field ∈ schema)
    (hname : field.name = colname) (n : ℕ) :
    n < field.length ↔ ∃ f ∈ schema, f.name = colname ∧ n < f.length := by
  refine ⟨fun hn => ⟨field, hmem, hname, hn⟩, ?_⟩
  rintro ⟨f, hf, hfname, hn⟩
  rwa [← List.inj_on_of_nodup_map hnames hf hmem (hfname.trans hname.symm)]

end Current

/-- **Values.** A new statement executes a query whose columns have different names, and some of the rows are fetched.
Then `value` answers with the cell of the current row, or with false if there is none for its type, if and only if
- for an `int`, there is no such column, or the cell is a LONG or a SHORT that is not negative;
- for a string, there is no such column, or the cell is a string that is shorter than the column is wide and has no zero
  byte. -/
theorem value_exact_iff (r : Round Cells) (t : PreparedStatement Cells) (schema : List Field) (rows later : List Cells)
    (colname : Bytes) (hnames : (schema.map Field.name).Nodup) (hschema : r.prepared = some schema)
    (hrun : run (step mysqlStmtFetch) (.new true) r.calls = some t) (hexec : (t.execute r.answer).2 = true)
    (hstored : r.answer.execute t.sent = .stored (rows ++ later)) (hbind : r.answer.bindResult = true)
    (hfits : ∀ row ∈ rows, Fits schema row) :
    (((t.execute r.answer).1.nextResults mysqlStmtFetch rows.length).valueInt colname =
        Outcome.ofOption ((current schema rows colname).bind Cell.asInt) ↔
      colname ∉ schema.map Field.name ∨ ∃ c, current schema rows colname = some c ∧ ExactInt c) ∧
    (((t.execute r.answer).1.nextResults mysqlStmtFetch rows.length).valueString colname =
        Outcome.ofOption ((current schema rows colname).bind Cell.asString) ↔
      colname ∉ schema.map Field.name ∨ ∃ v, current schema rows colname = some (.string v) ∧
        (∃ field ∈ schema, field.name = colname ∧ v.length < field.length) ∧ 0 ∉ v) := by
  obtain ⟨hcolumns, hfetched⟩ := (prepared_run hschema hrun).execute hbind hexec hstored
  have hlookup : ((t.execute r.answer).1.nextResults mysqlStmtFetch rows.length).columnData.lookup colname =
      schema.findIdx? fun field => field.name = colname := by
    rw [nextResults_columnData, hcolumns, columnsFrom_lookup hnames]
    cases schema.findIdx? fun field => field.name = colname with
    | none => rfl
    | some k => exact congrArg some (Nat.zero_add k)
  cases hk : schema.findIdx? fun field => field.name = colname with
  | none =>
    obtain ⟨hint, hstring⟩ := value_absent (hlookup.trans hk)
    have habsent := findIdx?_none_iff.1 hk
    rw [hint, hstring, current_none hk]
    exact ⟨iff_of_true rfl (Or.inl habsent), iff_of_true rfl (Or.inl habsent)⟩
  | some k =>
    have hmem : ¬ colname ∉ schema.map Field.name := by
      rw [← findIdx?_none_iff, hk]
      exact Option.some_ne_none k
    obtain ⟨hlt, hname, -⟩ := List.findIdx?_eq_some_iff_getElem.1 hk
    have hfield : schema[k]? = some schema[k] := List.getElem?_eq_getElem hlt
    have hne : schema ≠ [] := List.ne_nil_of_length_pos (Nat.zero_lt_of_lt hlt)
    obtain ⟨hstmt, hdata⟩ := fetched_column (hfetched hne) hfits
    obtain ⟨data, hget, hholds⟩ := hdata k schema[k] hfield
    have hopen : ((t.execute r.answer).1.nextResults mysqlStmtFetch rows.length).stmt_ ≠ none := by
      rw [hstmt]
      exact Option.some_ne_none _
    obtain ⟨hint, hstring⟩ := value_present hopen (hlookup.trans hk) hget
    have hkind := current_kind hk hfield hfits
    rw [hint, hstring, or_iff_right hmem, or_iff_right hmem, readInt_iff hholds (current_some hk) hkind,
      readString_iff hholds (current_some hk) hkind]
    have hwidth := width_iff hnames (List.getElem_mem hlt) (of_decide_eq_true hname)
    refine ⟨Iff.rfl, ?_⟩
    simp only [hwidth]

/-- a query without parameters for some columns and rows -/
def cellsRound (schema : List Field) (rows : List Cells) : Round Cells where
  query := [0x61]
  prepared := some schema
  keeps := false
  binds := []
  answer := ⟨true, fun _ => .stored rows, true⟩

/-- the statement after a call of `prepare` for the round -/
def preparedCells (schema : List Field) (rows : List Cells) : PreparedStatement Cells :=
  ((new true : PreparedStatement Cells).prepare (cellsRound schema rows).query (cellsRound schema rows).prepared
    (cellsRound schema rows).keeps).1

/-- the statement after `execute` -/
def executedCells (schema : List Field) (rows : List Cells) : PreparedStatement Cells :=
  ((preparedCells schema rows).execute (cellsRound schema rows).answer).1

/-- a column of numbers and one of strings, and a row -/
theorem value_exact_iff_row :
    ((executedCells [⟨[0x61], .long, 11⟩, ⟨[0x62], .string, 3⟩]
      [[some (.long 7), some (.string [0x63])]]).nextResults mysqlStmtFetch 1).valueString [0x62] = .ok [0x63] := by
  have hfits : ∀ row ∈ [[some (Cell.long 7), some (Cell.string [0x63])]],
      Fits [⟨[0x61], .long, 11⟩, ⟨[0x62], .string, 3⟩] row := by
    intro row hrow
    cases List.mem_singleton.1 hrow
    exact .cons (fun c hc => by cases hc; rfl) (.cons (fun c hc => by cases hc; rfl) .nil)
  exact (value_exact_iff (cellsRound [⟨[0x61], .long, 11⟩, ⟨[0x62], .string, 3⟩]
    [[some (.long 7), some (.string [0x63])]]) (preparedCells _ _) _ [[some (.long 7), some (.string [0x63])]] []
    [0x62] (by decide) rfl rfl rfl rfl rfl hfits).2.2 (Or.inr ⟨_, rfl, ⟨_, List.mem_cons_of_mem _ List.mem_cons_self, rfl,
      by decide⟩, by decide⟩)

/-- **A negative SHORT, and a NULL.** The cell -1 is read as 65535. The next row has a NULL, and 65535 is read again; the
answer should be false. -/
theorem short_not_exact :
    ((executedCells [⟨[0x61], .short, 6⟩] [[some (.short (-1))], [none]]).nextResults mysqlStmtFetch 1).valueInt [0x61] =
        .ok 65535 ∧
      (current [⟨[0x61], .short, 6⟩] [[some (.short (-1))]] [0x61]).bind Cell.asInt = some (-1) ∧
      ((executedCells [⟨[0x61], .short, 6⟩] [[some (.short (-1))], [none]]).nextResults mysqlStmtFetch 2).valueInt
        [0x61] = .ok 65535 ∧
      (current [⟨[0x61], .short, 6⟩] [[some (.short (-1))], [none]] [0x61]).bind Cell.asInt = none :=
  ⟨rfl, rfl, rfl, rfl⟩

end PreparedStatement
end NetFramework
