/-
A whole query, from its parameters to its rows: a new statement, `prepare`, calls of `bindValue`, `execute`, and the loop
`while (statement.nextResult())` with calls of `value` in its body.

- `Reading.next`: `nextResult` goes on to the next row, and is true unless one of the row's strings is longer than its
  column.
- `readRows_eq`: the rounds of the loop are those of the rows in front of the first one that `nextResult` is not true for,
  and each round reads its own row, as far as `value` is exact.
- `query_answered`: the server gets the values that were bound, and the loop reads the rows that it answers with, if and
  only if `nextResult` is true for all of them and `value` is exact for each cell that is asked for.
-/
import NetFramework.StatementParams
import NetFramework.StatementValue

namespace NetFramework

open Transition

/-- the answer with the value as one of a more general type -/
def Outcome.map {α β : Type} (f : α → β) : Outcome α → Outcome β
  | .fails => .fails
  | .ok v => .ok (f v)
  | .undefined => .undefined

theorem Outcome.map_inj {α β : Type} {f : α → β} (hf : Function.Injective f) {x y : Outcome α} :
    x.map f = y.map f ↔ x = y := by
  refine ⟨?_, congrArg (Outcome.map f)⟩
  intro h
  cases x <;> cases y <;> simp_all [Outcome.map, hf.eq_iff]

namespace PreparedStatement

/-! ## The loop -/

/-- a call of `value`: the column, and the type of the variable -/
inductive ValueCall where
  | int (colname : Bytes)
  | string (colname : Bytes)
deriving DecidableEq, Repr

section Loop

variable {Row : Type}

/-- both `value` functions -/
def value (s : PreparedStatement Row) : ValueCall → Outcome ParamValue
  | .int colname => (s.valueInt colname).map .int
  | .string colname => (s.valueString colname).map .string

/-- `while (statement.nextResult())`: what the calls in the body answer in each round; none if the loop goes on after
`fuel` calls of `nextResult` -/
def readRows (fetch : Fetch Row) (calls : List ValueCall) : ℕ → PreparedStatement Row →
    Option (List (List (Outcome ParamValue)))
  | 0, _ => none
  | fuel + 1, s =>
    if (s.nextResult fetch).2 then
      (readRows fetch calls fuel (s.nextResult fetch).1).map (calls.map (s.nextResult fetch).1.value :: ·)
    else some []

end Loop

/-! ## What a query is for -/

/-- the answer to a call for a row: the cell, or false if there is none of this type -/
def ValueCall.wanted (schema : List Field) (row : Cells) : ValueCall → Outcome ParamValue
  | .int colname => (Outcome.ofOption ((current schema [row] colname).bind Cell.asInt)).map .int
  | .string colname => (Outcome.ofOption ((current schema [row] colname).bind Cell.asString)).map .string

/-- the cells for which `value` gives this answer -/
def ValueCall.Exact (schema : List Field) (row : Cells) : ValueCall → Prop
  | .int colname => colname ∉ schema.map Field.name ∨ ∃ c, current schema [row] colname = some c ∧ ExactInt c
  | .string colname => colname ∉ schema.map Field.name ∨ ∃ v, current schema [row] colname = some (.string v) ∧
      (∃ field ∈ schema, field.name = colname ∧ v.length < field.length) ∧ 0 ∉ v

/-- no string of a row is longer than its column -/
def whole (schema : List Field) (row : Cells) : Bool :=
  (schema.zip row).all fun p => !(p.2.any (Cell.truncated p.1.length))

/-- the calls of the loop for all of the rows -/
def table (schema : List Field) (rows : List Cells) (calls : List ValueCall) : List (List (Outcome ParamValue)) :=
  rows.map fun row => calls.map (ValueCall.wanted schema row)

/-- a query with `values` for its parameters is answered with `rows`. No value is bound to the place behind the slots, no
string has a zero byte before its last, and every column is of a type that has a buffer: of the others it is not known
what `mysql_stmt_fetch` returns. -/
structure Answered (r : Round Cells) (schema : List Field) (values : List ParamValue) (rows : List Cells) : Prop where
  prepared : r.prepared = some schema
  columns : schema ≠ []
  buffers : ∀ field ∈ schema, kind field.type ≠ .other
  names : (schema.map Field.name).Nodup
  places : ∀ b ∈ r.binds, b.1 ≠ paramCount r.query
  params : values.length = paramCount r.query
  bound : ∀ k < paramCount r.query, lastBound r.binds k = values[k]?
  zeros : ∀ v ∈ values, NoInnerZero v
  bindParam : r.answer.bindParam = true
  bindResult : r.answer.bindResult = true
  server : r.answer.execute (values.map asSent) = .stored rows
  fits : ∀ row ∈ rows, Fits schema row

/-! ## Rows -/

/-- the statement in the loop: the row `last` is the current one, and `rows` are left -/
structure Reading (schema : List Field) (last : Option Cells) (rows : List Cells) (s : PreparedStatement Cells) :
    Prop where
  fetched : Fetched schema last rows s
  columns : ∀ colname, s.columnData.lookup colname = schema.findIdx? fun field => field.name = colname

section Rows

variable {schema : List Field} {last : Option Cells} {rows : List Cells} {row : Cells} {s t : PreparedStatement Cells}
  {calls : List ValueCall}

/-- a cell of its column's type is cut off by the binding if it is longer than the column -/
theorem truncated_binding (i : ℕ) {field : Field} {cell : Option Cell} (h : ∀ c ∈ cell, Cell.kind c = kind field.type) :
    cell.any (Cell.truncated (bindingOf i field).buffer_length) = cell.any (Cell.truncated field.length) := by
  cases cell with
  | none => rfl
  | some c =>
    cases c with
    | string v =>
      have hwidth : (bindingOf i field).buffer_length = field.length := if_pos (h _ rfl).symm
      rw [hwidth]
    | _ => rfl

theorem zip_bindings (i : ℕ) (h : Fits schema row) :
    (((bindingsFrom i schema).zip row).all fun p => !(p.2.any (Cell.truncated p.1.buffer_length))) =
      whole schema row := by
  unfold Fits at h
  induction h generalizing i with
  | nil => rfl
  | cons hcell _ ih =>
    have hrest := ih (i + 1)
    simp only [whole] at hrest ⊢
    rw [bindingsFrom, List.zip_cons_cons, List.all_cons, hrest, List.zip_cons_cons, List.all_cons,
      truncated_binding i hcell]

/-- **The next row.** -/
theorem Reading.next (h : Reading schema last (row :: rows) s) (hfits : Fits schema row) :
    (s.nextResult mysqlStmtFetch).2 = whole schema row ∧
      Reading schema (some row) rows (s.nextResult mysqlStmtFetch).1 := by
  refine ⟨?_, h.fetched.next hfits, ?_⟩
  · rw [nextResult, h.fetched.stmt]
    exact zip_bindings 0 hfits
  · intro colname
    have hcolumns := nextResults_columnData s mysqlStmtFetch 1
    rw [nextResults, nextResults] at hcolumns
    rw [hcolumns, h.columns]

theorem Reading.ends (h : Reading schema last [] s) : (s.nextResult mysqlStmtFetch).2 = false := by
  rw [nextResult, h.fetched.stmt]

/-- **A call of `value`.** -/
theorem Reading.value_iff (h : Reading schema (some row) rows s) (hnames : (schema.map Field.name).Nodup)
    (hfits : Fits schema row) (call : ValueCall) :
    s.value call = call.wanted schema row ↔ call.Exact schema row := by
  have hrow : ∀ r ∈ [row], Fits schema r := fun r hr => List.mem_singleton.1 hr ▸ hfits
  obtain ⟨hstmt, hdata⟩ := h.fetched
  have hopen : s.stmt_ ≠ none := hstmt ▸ Option.some_ne_none _
  have hint : Function.Injective ParamValue.int := fun _ _ => ParamValue.int.inj
  have hstring : Function.Injective ParamValue.string := fun _ _ => ParamValue.string.inj
  -- the column, if there is one, with its data and the current cell
  have hcolumn : ∀ colname, (s.valueInt colname = Outcome.ofOption ((current schema [row] colname).bind Cell.asInt) ↔
        ValueCall.Exact schema row (.int colname)) ∧
      (s.valueString colname = Outcome.ofOption ((current schema [row] colname).bind Cell.asString) ↔
        ValueCall.Exact schema row (.string colname)) := by
    intro colname
    simp only [ValueCall.Exact]
    have hlookup := h.columns colname
    cases hk : schema.findIdx? fun field => field.name = colname with
    | none =>
      obtain ⟨hnoInt, hnoString⟩ := value_absent (hlookup.trans hk)
      have habsent := findIdx?_none_iff.1 hk
      rw [hnoInt, hnoString, current_none hk]
      exact ⟨iff_of_true rfl (Or.inl habsent), iff_of_true rfl (Or.inl habsent)⟩
    | some k =>
      have hmem : ¬ colname ∉ schema.map Field.name := by
        rw [← findIdx?_none_iff, hk]
        exact Option.some_ne_none k
      obtain ⟨hlt, hname, -⟩ := List.findIdx?_eq_some_iff_getElem.1 hk
      have hfield : schema[k]? = some schema[k] := List.getElem?_eq_getElem hlt
      obtain ⟨data, hget, hholds⟩ := hdata k schema[k] hfield
      obtain ⟨hreadInt, hreadString⟩ := value_present hopen (hlookup.trans hk) hget
      have hkind := current_kind hk hfield hrow
      have hcell : [row].getLast?.bind (fun r : Cells => r[k]?.join) = current schema [row] colname := current_some hk
      rw [hreadInt, hreadString, or_iff_right hmem, or_iff_right hmem, readInt_iff hholds hcell hkind,
        readString_iff hholds hcell hkind]
      have hwidth := width_iff hnames (List.getElem_mem hlt) (of_decide_eq_true hname)
      refine ⟨Iff.rfl, ?_⟩
      simp only [hwidth]
  cases call with
  | int colname => exact (Outcome.map_inj hint).trans (hcolumn colname).1
  | string colname => exact (Outcome.map_inj hstring).trans (hcolumn colname).2

theorem Reading.values_iff (h : Reading schema (some row) rows s) (hnames : (schema.map Field.name).Nodup)
    (hfits : Fits schema row) (calls : List ValueCall) :
    calls.map s.value = calls.map (ValueCall.wanted schema row) ↔ ∀ call ∈ calls, call.Exact schema row := by
  rw [List.map_inj_left]
  exact forall₂_congr fun call _ => h.value_iff hnames hfits call

/-- **The loop.** Where `nextResult` is not true for a row, this row and those behind it are not read. -/
theorem readRows_eq (hnames : (schema.map Field.name).Nodup) (h : Reading schema last rows s)
    (hfits : ∀ row ∈ rows, Fits schema row) :
    ∃ answers, (∀ fuel, rows.length < fuel → readRows mysqlStmtFetch calls fuel s = some answers) ∧
      List.Forall₂ (fun row values => values = calls.map (ValueCall.wanted schema row) ↔
        ∀ call ∈ calls, call.Exact schema row) (rows.takeWhile (whole schema)) answers := by
  induction rows generalizing last s with
  | nil =>
    refine ⟨[], ?_, .nil⟩
    intro fuel hfuel
    obtain ⟨fuel, rfl⟩ := Nat.exists_eq_succ_of_ne_zero (Nat.ne_zero_of_lt hfuel)
    rw [readRows, h.ends]
    rfl
  | cons row rows ih =>
    have hrow := hfits row List.mem_cons_self
    obtain ⟨hnext, hreading⟩ := h.next hrow
    rw [List.takeWhile_cons]
    by_cases hwhole : whole schema row = true
    · obtain ⟨answers, hanswers, hrows⟩ := ih hreading fun r hr => hfits r (List.mem_cons_of_mem row hr)
      refine ⟨calls.map (s.nextResult mysqlStmtFetch).1.value :: answers, ?_, ?_⟩
      · intro fuel hfuel
        obtain ⟨fuel, rfl⟩ := Nat.exists_eq_succ_of_ne_zero (Nat.ne_zero_of_lt hfuel)
        rw [readRows, hnext, if_pos hwhole, hanswers fuel (Nat.lt_of_succ_lt_succ hfuel)]
        rfl
      · rw [if_pos hwhole]
        exact .cons (hreading.values_iff hnames hrow calls) hrows
    · refine ⟨[], ?_, ?_⟩
      · intro fuel hfuel
        obtain ⟨fuel, rfl⟩ := Nat.exists_eq_succ_of_ne_zero (Nat.ne_zero_of_lt hfuel)
        rw [readRows, hnext, if_neg hwhole]
      · rw [if_neg hwhole]
        exact .nil

/-- what is read are all of the rows if the loop has gone over all of them, and each round has read its own -/
theorem answers_eq_iff {α β : Type} {p : α → Bool} {f : α → β} {Q : α → Prop} {l : List α} {answers : List β}
    (h : List.Forall₂ (fun a b => b = f a ↔ Q a) (l.takeWhile p) answers) :
    answers = l.map f ↔ ∀ a ∈ l, p a = true ∧ Q a := by
  induction l generalizing answers with
  | nil =>
    cases h
    exact iff_of_true rfl fun a ha => absurd ha List.not_mem_nil
  | cons a l ih =>
    rw [List.takeWhile_cons] at h
    rw [List.forall_mem_cons, List.map_cons]
    by_cases hp : p a = true
    · rw [if_pos hp] at h
      rcases h with _ | ⟨ha, hrest⟩
      rw [List.cons.injEq, ha, ih hrest, and_iff_right hp]
    · rw [if_neg hp] at h
      cases h
      exact iff_of_false (List.cons_ne_nil _ _).symm fun hall => hp hall.1.1

end Rows

/-! ## The parameters -/

section Params

variable {Row : Type} {fetch : Fetch Row} {s t : PreparedStatement Row} {n : ℕ} {binds : List Bind}
  {values : List ParamValue}

theorem run_bindStep (s : PreparedStatement Row) (binds : List Bind) :
    run (step fetch) s (binds.map fun b => .bindValue b.1 b.2) = run bindStep s binds := by
  induction binds generalizing s with
  | nil => rfl
  | cons b binds ih =>
    rw [List.map_cons, run_cons, run_cons]
    exact congrArg (Option.bind (bindStep s b)) (funext ih)

/-- every slot has been bound, and what is sent are the values -/
theorem Bound.sent_eq (h : Bound n binds s) (hparams : values.length = n)
    (hbound : ∀ k < n, lastBound binds k = values[k]?) (hzeros : ∀ v ∈ values, NoInnerZero v) :
    s.sent = values.map asSent := by
  have hlength : s.sent.length = n := by rw [sent, List.length_map, h.slots.bindings]
  refine List.ext_getElem? ?_
  intro k
  rcases Nat.lt_or_ge k n with hk | hk
  · have hlt : k < values.length := hparams ▸ hk
    have hvalue : values[k]? = some values[k] := List.getElem?_eq_getElem hlt
    rw [List.getElem?_map, hvalue]
    exact (sent_holds (h.holds k hk values[k] ((hbound k hk).trans hvalue))).2 (hzeros _ (List.getElem_mem hlt))
  · rw [List.getElem?_eq_none (hlength ▸ hk), List.getElem?_eq_none]
    rw [List.length_map, hparams]
    exact hk

end Params

/-! ## Main result -/

variable {r : Round Cells} {schema : List Field} {values : List ParamValue} {rows : List Cells}

/-- the statement in front of `execute` -/
theorem Answered.bind (h : Answered r schema values rows) :
    ∃ t, run (step mysqlStmtFetch) (.new true) r.calls = some t ∧ t.sent = values.map asSent := by
  have hslots : Slots (paramCount r.query)
      ((new true : PreparedStatement Cells).prepare r.query r.prepared r.keeps).1 := by
    have hprepare : (new true : PreparedStatement Cells).prepare r.query r.prepared r.keeps =
        (((new true : PreparedStatement Cells).prepare r.query r.prepared r.keeps).1, true) := by
      rw [h.prepared]
      rfl
    exact slots_prepare hprepare
  have hempty : Bound (paramCount r.query) [] _ := ⟨hslots, fun k _ v hv => by cases hv⟩
  obtain ⟨t, ht, hbound⟩ := hempty.run h.places
  refine ⟨t, run_cons_some.2 ⟨_, rfl, ?_⟩, hbound.sent_eq h.params h.bound h.zeros⟩
  rw [run_bindStep]
  exact ht

/-- the statement behind `execute` -/
theorem Answered.reading (h : Answered r schema values rows) {t : PreparedStatement Cells}
    (ht : run (step mysqlStmtFetch) (.new true) r.calls = some t) (hsent : t.sent = values.map asSent) :
    (t.execute r.answer).2 = true ∧ Reading schema none rows (t.execute r.answer).1 := by
  have hprepared := prepared_run h.prepared ht
  have hserver : r.answer.execute t.sent = .stored rows := hsent ▸ h.server
  have hexec : (t.execute r.answer).2 = true := by
    rw [execute, hprepared.stmt]
    simp [h.bindParam, hserver]
  obtain ⟨hcolumns, hfetched⟩ := hprepared.execute h.bindResult hexec hserver
  refine ⟨hexec, hfetched h.columns, ?_⟩
  intro colname
  rw [hcolumns, columnsFrom_lookup h.names]
  cases schema.findIdx? fun field => field.name = colname with
  | none => rfl
  | some k => exact congrArg some (Nat.zero_add k)

/-- **A query.** The values bound to its parameters are sent to the server, and the loop over the result ends, with one
round for each row in front of the first that has a string longer than its column. What it reads are the rows that the
server has answered with, if and only if there is no such row and each cell that is asked for is one that `value` reads as
it is. -/
theorem query_answered (r : Round Cells) (schema : List Field) (values : List ParamValue) (rows : List Cells)
    (calls : List ValueCall) (h : Answered r schema values rows) :
    ∃ t answers, run (step mysqlStmtFetch) (.new true) r.calls = some t ∧ t.sent = values.map asSent ∧
      (t.execute r.answer).2 = true ∧
      (∀ fuel, rows.length < fuel → readRows mysqlStmtFetch calls fuel (t.execute r.answer).1 = some answers) ∧
      answers.length = (rows.takeWhile (whole schema)).length ∧
      (answers = table schema rows calls ↔
        ∀ row ∈ rows, whole schema row = true ∧ ∀ call ∈ calls, call.Exact schema row) := by
  obtain ⟨t, ht, hsent⟩ := h.bind
  obtain ⟨hexec, hreading⟩ := h.reading ht hsent
  obtain ⟨answers, hanswers, hrows⟩ := readRows_eq h.names hreading h.fits
  exact ⟨t, answers, ht, hsent, hexec, hanswers, hrows.length_eq.symm, answers_eq_iff hrows⟩

/-- the columns `i`, of numbers, and `n`, of strings of at most nine bytes -/
def testSchema : List Field := [⟨[0x69], .long, 11⟩, ⟨[0x6e], .varString, 9⟩]

/-- two rows with the number 1 and the string `hello` -/
def testRows : List Cells := List.replicate 2 [some (.long 1), some (.string [0x68, 0x65, 0x6c, 0x6c, 0x6f])]

/-- the query `i=?` for the number 1, which is what the server expects -/
def testRound : Round Cells where
  query := [0x69, 0x3d, 0x3f]
  prepared := some testSchema
  keeps := false
  binds := [(0, .int 1)]
  answer := ⟨true, fun sent => if sent = [.long 1] then .stored testRows else .failed, true⟩

/-- both rows are read -/
theorem query_answered_test :
    ∃ t, run (step mysqlStmtFetch) (.new true) testRound.calls = some t ∧
      readRows mysqlStmtFetch [.int [0x69], .string [0x6e]] 3 (t.execute testRound.answer).1 =
        some (table testSchema testRows [.int [0x69], .string [0x6e]]) := by
  have hfits : ∀ row ∈ testRows, Fits testSchema row := by
    intro row hrow
    obtain rfl := List.eq_of_mem_replicate hrow
    exact .cons (fun c hc => by cases hc; rfl) (.cons (fun c hc => by cases hc; rfl) .nil)
  have hanswered : Answered testRound testSchema [.int 1] testRows :=
    ⟨rfl, by decide, by decide, by decide, by decide, rfl, by decide, by decide, rfl, rfl, rfl, hfits⟩
  have hread : ∀ row ∈ testRows, whole testSchema row = true ∧
      ∀ call ∈ [ValueCall.int [0x69], .string [0x6e]], call.Exact testSchema row := by
    intro row hrow
    obtain rfl := List.eq_of_mem_replicate hrow
    refine ⟨by decide, ?_⟩
    intro call hcall
    rcases List.mem_pair.1 hcall with rfl | rfl
    · exact Or.inr ⟨.long 1, rfl, trivial⟩
    · exact Or.inr ⟨_, rfl, ⟨_, List.mem_cons_of_mem _ List.mem_cons_self, rfl, by decide⟩, by decide⟩
  obtain ⟨t, answers, ht, -, -, hanswers, -, htable⟩ := query_answered testRound testSchema [.int 1] testRows
    [.int [0x69], .string [0x6e]] hanswered
  exact ⟨t, ht, htable.2 hread ▸ hanswers 3 (by decide)⟩

end PreparedStatement
end NetFramework
