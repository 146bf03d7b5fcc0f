/-
A statement that is used again, and a new one.

A round is what the program does with a query: it prepares it, binds the parameters, executes it and fetches the rows.
`reused_like_new`: in a round after any calls the statement answers as a new one does that is used for this round only,
unless an earlier query had a result set. In that case the columns are still those of the first such query:
`fillColumnData` looks at the columns of a query only if there are none from before.
-/
import NetFramework.PreparedStatement

namespace NetFramework
namespace PreparedStatement

open Transition

variable {Row : Type}

/-! ## Rounds -/

/-- the calls of a round up to `execute`, and what the library answers -/
structure Round (Row : Type) where
  query : Bytes
  prepared : Option (List Field)
  keeps : Bool
  binds : List (ℕ × ParamValue)
  answer : Answer Row

/-- the calls before `execute` -/
def Round.calls (r : Round Row) : List (Op Row) :=
  .prepare r.query r.prepared r.keeps :: r.binds.map fun b => .bindValue b.1 b.2

/-- every parameter is bound -/
def Round.BindsEach (r : Round Row) : Prop := ∀ i < paramCount r.query, i ∈ r.binds.map Prod.fst

instance (r : Round Row) : Decidable r.BindsEach := by unfold Round.BindsEach; infer_instance

/-- the statement after `n` calls of `nextResult` -/
def nextResults (fetch : Fetch Row) (s : PreparedStatement Row) : ℕ → PreparedStatement Row
  | 0 => s
  | n + 1 => ((s.nextResults fetch n).nextResult fetch).1

/-- two statements have the same columns and result bindings, and `nextResult` and `value` return the same -/
structure AnswersAlike (fetch : Fetch Row) (s t : PreparedStatement Row) : Prop where
  columns : ∀ colname, s.columnData.lookup colname = t.columnData.lookup colname
  bound : s.stmt_.map MysqlStmt.bound = t.stmt_.map MysqlStmt.bound
  next : (s.nextResult fetch).2 = (t.nextResult fetch).2
  int : ∀ colname, s.valueInt colname = t.valueInt colname
  string : ∀ colname, s.valueString colname = t.valueString colname

/-- the statement `s`, on which everything of the round up to `execute` has been called, goes on as a new statement does
in this round -/
def LikeNew (fetch : Fetch Row) (opened : Bool) (r : Round Row) (s : PreparedStatement Row) : Prop :=
  ∃ t, run (step fetch) (.new opened) r.calls = some t ∧ (t.execute r.answer).2 = true ∧
    ∀ n, AnswersAlike fetch ((s.execute r.answer).1.nextResults fetch n) ((t.execute r.answer).1.nextResults fetch n)

/-- an `execute` that succeeds is for a query without a result set -/
def NoResultSet (s : PreparedStatement Row) : Op Row → Prop
  | .execute a => (s.execute a).2 = true → ∀ stmt ∈ s.stmt_, stmt.fields = []
  | _ => True

instance (s : PreparedStatement Row) (o : Op Row) : Decidable (NoResultSet s o) := by
  unfold NoResultSet; split <;> infer_instance

/-- the columns that the loop of `fillColumnData` enters -/
def columnsFrom (columnData : AList fun _ : Bytes => ℕ) (i : ℕ) : List Field → AList fun _ : Bytes => ℕ
  | [] => columnData
  | field :: fields => columnsFrom (columnData.insert field.name i) (i + 1) fields

/-- `s` has the columns of a query with a result set, executed in the course of `calls` -/
def KeepsColumns (fetch : Fetch Row) (opened : Bool) (calls : List (Op Row)) (s : PreparedStatement Row) : Prop :=
  ∃ before a after t stmt, calls = before ++ .execute a :: after ∧ run (step fetch) (.new opened) before = some t ∧
    t.stmt_ = some stmt ∧ stmt.fields ≠ [] ∧ (t.execute a).2 = true ∧ s.columnData = columnsFrom ∅ 0 stmt.fields

/-! ## Results -/

/-- two statements are the same but for the parameters -/
structure SameResults (s t : PreparedStatement Row) : Prop where
  stmt : s.stmt_ = t.stmt_
  columns : s.columnData = t.columnData
  data : s.toResultData = t.toResultData
  bindings : s.bindings = t.bindings

section Results

variable {fetch : Fetch Row} {s t : PreparedStatement Row}

theorem SameResults.valueInt (h : SameResults s t) (colname : Bytes) : s.valueInt colname = t.valueInt colname := by
  rw [PreparedStatement.valueInt, PreparedStatement.valueInt, h.stmt, h.columns, h.data]

theorem SameResults.valueString (h : SameResults s t) (colname : Bytes) :
    s.valueString colname = t.valueString colname := by
  rw [PreparedStatement.valueString, PreparedStatement.valueString, h.stmt, h.columns, h.data]

theorem SameResults.nextResult (h : SameResults s t) :
    SameResults (s.nextResult fetch).1 (t.nextResult fetch).1 ∧ (s.nextResult fetch).2 = (t.nextResult fetch).2 := by
  rw [PreparedStatement.nextResult, PreparedStatement.nextResult, ← h.stmt, ← h.data]
  cases s.stmt_ with
  | none => exact ⟨h, rfl⟩
  | some stmt =>
    cases hrows : stmt.rows with
    | nil => simp only [hrows]; exact ⟨h, trivial⟩
    | cons row rows => simp only [hrows]; exact ⟨⟨rfl, h.columns, rfl, h.bindings⟩, trivial⟩

theorem SameResults.nextResults (h : SameResults s t) (n : ℕ) :
    SameResults (s.nextResults fetch n) (t.nextResults fetch n) := by
  induction n with
  | zero => exact h
  | succ n ih => exact ih.nextResult.1

theorem SameResults.answersAlike (h : SameResults s t) : AnswersAlike fetch s t where
  columns colname := by rw [h.columns]
  bound := by rw [h.stmt]
  next := h.nextResult.2
  int := h.valueInt
  string := h.valueString

theorem SameResults.trans {u : PreparedStatement Row} (h : SameResults s t) (h' : SameResults t u) : SameResults s u :=
  ⟨h.stmt.trans h'.stmt, h.columns.trans h'.columns, h.data.trans h'.data, h.bindings.trans h'.bindings⟩

/-- a call of `bindValue` has no part in the results -/
theorem step_bindValue {param : ℕ} {v : ParamValue} (h : step fetch s (.bindValue param v) = some t) :
    SameResults s t := by
  by_cases hopen : s.stmt_ = none
  · simp only [step, bindValue_closed hopen] at h
    cases h
    exact ⟨rfl, rfl, rfl, rfl⟩
  · simp only [step, bindValue_eq hopen] at h
    split_ifs at h
    all_goals cases h
    all_goals exact ⟨rfl, rfl, rfl, rfl⟩

/-- nor has a row of them -/
theorem run_binds {binds : List (ℕ × ParamValue)}
    (h : run (step fetch) s (binds.map fun b => .bindValue b.1 b.2) = some t) : SameResults s t := by
  induction binds generalizing s with
  | nil =>
    cases h
    exact ⟨rfl, rfl, rfl, rfl⟩
  | cons b binds ih =>
    obtain ⟨u, hu, h⟩ := run_cons_some.1 h
    exact (step_bindValue hu).trans (ih h)

theorem SameResults.fillColumn (h : SameResults s t) (i : ℕ) (field : Field) :
    SameResults (s.fillColumn i field) (t.fillColumn i field) := by
  obtain ⟨hstmt, hcolumns, hdata, hbindings⟩ := h
  simp only [PreparedStatement.fillColumn]
  split
  all_goals exact ⟨hstmt, by simp only [hcolumns], by simp only [hdata], by simp only [hbindings]⟩

theorem SameResults.fillColumns (h : SameResults s t) (i : ℕ) (fields : List Field) :
    SameResults (s.fillColumns i fields) (t.fillColumns i fields) := by
  induction fields generalizing s t i with
  | nil => exact h
  | cons field fields ih => exact ih (h.fillColumn i field) (i + 1)

theorem SameResults.fillColumnData (h : SameResults s t) (bindResult : Bool) :
    SameResults (s.fillColumnData bindResult).1 (t.fillColumnData bindResult).1 := by
  rw [PreparedStatement.fillColumnData, PreparedStatement.fillColumnData, ← h.stmt, ← h.columns]
  cases s.stmt_ with
  | none => exact h
  | some stmt =>
    by_cases hempty : s.columnData.entries = [] ∧ stmt.fields ≠ []
    · simp only [if_pos hempty]
      have hresize : SameResults (s.resizeResults stmt.fields.length) (t.resizeResults stmt.fields.length) := by
        refine ⟨h.stmt, h.columns, ?_, ?_⟩
        · simp only [resizeResults, h.data]
        · simp only [resizeResults, h.bindings]
      have hfill := hresize.fillColumns 0 stmt.fields
      exact ⟨by simp only [hfill.bindings], hfill.columns, hfill.data, hfill.bindings⟩
    · simp only [if_neg hempty]
      exact h

/-- the parameters are sent in `execute`; what else it does they have no part in -/
theorem SameResults.execute (h : SameResults s t) (hdata : s.paramBindData = t.paramBindData)
    (hbindings : s.paramBindings = t.paramBindings) (a : Answer Row) :
    SameResults (s.execute a).1 (t.execute a).1 ∧ (s.execute a).2 = (t.execute a).2 := by
  rw [PreparedStatement.execute, PreparedStatement.execute, ← h.stmt, ← hdata, sent, sent, ← hdata, ← hbindings]
  cases s.stmt_ with
  | none => exact ⟨h, rfl⟩
  | some stmt =>
    by_cases hbind : s.paramBindData ≠ [] ∧ a.bindParam = false
    · simp only [if_pos hbind]
      exact ⟨h, trivial⟩
    · simp only [if_neg hbind]
      cases a.execute (s.paramBindings.map (sentParam s.paramBindData)) with
      | failed => exact ⟨⟨rfl, h.columns, h.data, h.bindings⟩, rfl⟩
      | notStored => exact ⟨⟨rfl, h.columns, h.data, h.bindings⟩, rfl⟩
      | stored rows =>
        refine ⟨SameResults.fillColumnData ?_ a.bindResult, rfl⟩
        exact ⟨rfl, h.columns, h.data, h.bindings⟩

end Results

/-! ## Parameters -/

/-- two statements with the same results and `n` parameters, and the same bound to those in `P` -/
structure BoundAlike (n : ℕ) (P : ℕ → Prop) (s t : PreparedStatement Row) : Prop where
  same : SameResults s t
  sizes : s.paramBindings.length = n ∧ s.paramBindData.length = n
  sizes' : t.paramBindings.length = n ∧ t.paramBindData.length = n
  slots : ∀ i, P i → s.paramBindings[i]? = t.paramBindings[i]? ∧ s.paramBindData[i]? = t.paramBindData[i]?

section Params

variable {fetch : Fetch Row} {s s' t : PreparedStatement Row} {n : ℕ} {P : ℕ → Prop}

@[simp] theorem resize_length {α : Type} (zero : α) (l : List α) (n : ℕ) : (resize zero l n).length = n := by
  simp only [resize, List.length_append, List.length_take, List.length_replicate]
  omega

/-- a slot is set to the same in both -/
theorem BoundAlike.set (h : BoundAlike n P s t) {param : ℕ} (hp : param < n) (b : MysqlBind) (d : BindData)
    (length length' : List ℕ) :
    BoundAlike n (fun i => P i ∨ i = param)
      { s with
        paramBindings := s.paramBindings.set param b
        paramBindData := s.paramBindData.set param d
        paramLength := length }
      { t with
        paramBindings := t.paramBindings.set param b
        paramBindData := t.paramBindData.set param d
        paramLength := length' } := by
  obtain ⟨⟨hstmt, hcolumns, hdata, hbindings⟩, ⟨hb, hd⟩, ⟨hb', hd'⟩, hslots⟩ := h
  refine ⟨⟨hstmt, hcolumns, hdata, hbindings⟩, ⟨?_, ?_⟩, ⟨?_, ?_⟩, ?_⟩
  · rw [List.length_set, hb]
  · rw [List.length_set, hd]
  · rw [List.length_set, hb']
  · rw [List.length_set, hd']
  · intro i hi
    by_cases heq : param = i
    · subst heq
      simp only [List.getElem?_set_self, hb, hb', hd, hd', hp, and_self]
    · simp only [List.getElem?_set_ne heq]
      rcases hi with hi | rfl
      · exact hslots i hi
      · exact absurd rfl heq

/-- **`bindValue`.** The same call is made on two statements. -/
theorem BoundAlike.bindValue (h : BoundAlike n P s t) (hopen : s.stmt_ ≠ none) {param : ℕ} {v : ParamValue}
    (hs : step fetch s (.bindValue param v) = some s') :
    ∃ t', step fetch t (.bindValue param v) = some t' ∧ BoundAlike n (fun i => P i ∨ i = param) s' t' ∧
      s'.stmt_ ≠ none := by
  have hopen' : t.stmt_ ≠ none := h.same.stmt ▸ hopen
  simp only [step, bindValue_eq hopen, h.sizes.1] at hs
  simp only [step, bindValue_eq hopen', h.sizes'.1]
  split_ifs at hs ⊢ with hlt heq
  · -- a place that is too high; nothing is bound
    obtain rfl : s = s' := Option.some.inj hs
    refine ⟨t, rfl, ?_, hopen⟩
    refine ⟨h.same, h.sizes, h.sizes', ?_⟩
    rintro i (hi | rfl)
    · exact h.slots i hi
    · obtain ⟨hb, hd⟩ := h.sizes
      obtain ⟨hb', hd'⟩ := h.sizes'
      rw [List.getElem?_eq_none (by omega), List.getElem?_eq_none (by omega), List.getElem?_eq_none (by omega),
        List.getElem?_eq_none (by omega)]
      exact ⟨rfl, rfl⟩
  · cases hs
  · cases hs
    exact ⟨_, rfl, h.set (by omega) (boundAs param v) (boundData v) _ _, hopen⟩

/-- the same calls of `bindValue` are made on two statements -/
theorem BoundAlike.bindValues (h : BoundAlike n P s t) (hopen : s.stmt_ ≠ none) {binds : List (ℕ × ParamValue)}
    (hs : run (step fetch) s (binds.map fun b => .bindValue b.1 b.2) = some s') :
    ∃ t', run (step fetch) t (binds.map fun b => .bindValue b.1 b.2) = some t' ∧
      BoundAlike n (fun i => P i ∨ i ∈ binds.map Prod.fst) s' t' := by
  induction binds generalizing s t P with
  | nil =>
    cases hs
    exact ⟨t, rfl, h.same, h.sizes, h.sizes', fun i hi => h.slots i (by simpa using hi)⟩
  | cons b binds ih =>
    obtain ⟨u, hu, hs⟩ := run_cons_some.1 hs
    obtain ⟨w, hw, hbound, hopen'⟩ := h.bindValue hopen hu
    obtain ⟨t', ht', hbound'⟩ := ih hbound hopen' hs
    refine ⟨t', run_cons_some.2 ⟨w, hw, ht'⟩, hbound'.same, hbound'.sizes, hbound'.sizes', ?_⟩
    intro i hi
    refine hbound'.slots i ?_
    rw [List.map_cons, List.mem_cons] at hi
    exact hi.elim (fun hP => Or.inl (Or.inl hP)) fun hi => hi.elim (fun heq => Or.inl (Or.inr heq)) Or.inr

/-- when every slot is bound, the same parameters are sent -/
theorem BoundAlike.params (h : BoundAlike n P s t) (hall : ∀ i < n, P i) :
    s.paramBindData = t.paramBindData ∧ s.paramBindings = t.paramBindings := by
  obtain ⟨hb, hd⟩ := h.sizes
  obtain ⟨hb', hd'⟩ := h.sizes'
  refine ⟨List.ext_getElem? ?_, List.ext_getElem? ?_⟩
  · intro i
    by_cases hi : i < n
    · exact (h.slots i (hall i hi)).2
    · rw [List.getElem?_eq_none (by omega), List.getElem?_eq_none (by omega)]
  · intro i
    by_cases hi : i < n
    · exact (h.slots i (hall i hi)).1
    · rw [List.getElem?_eq_none (by omega), List.getElem?_eq_none (by omega)]

end Params

/-! ## No result set yet -/

/-- nothing of a result set is in the statement -/
structure Unfilled (s : PreparedStatement Row) : Prop where
  columns : s.columnData = ∅
  data : s.toResultData = ⟨[], [], [], []⟩
  bindings : s.bindings = []
  stmt : ∀ stmt ∈ s.stmt_, stmt.bound = [] ∧ stmt.rows = []

section Unfilled

variable {fetch : Fetch Row} {s s' : PreparedStatement Row}

theorem unfilled_new (opened : Bool) : Unfilled (new opened : PreparedStatement Row) := by
  refine ⟨rfl, rfl, rfl, ?_⟩
  intro stmt hstmt
  cases opened with
  | false => cases hstmt
  | true => cases hstmt; exact ⟨rfl, rfl⟩

/-- the parameters and the columns of the query change -/
theorem Unfilled.frame (h : Unfilled s) (hcolumns : s'.columnData = s.columnData)
    (hdata : s'.toResultData = s.toResultData) (hbindings : s'.bindings = s.bindings)
    (hstmt : ∀ stmt ∈ s'.stmt_, stmt.bound = [] ∧ stmt.rows = []) : Unfilled s' :=
  ⟨hcolumns.trans h.columns, hdata.trans h.data, hbindings.trans h.bindings, hstmt⟩

theorem Unfilled.prepare (h : Unfilled s) (query : Bytes) (answer : Option (List Field)) (keeps : Bool) :
    Unfilled (s.prepare query answer keeps).1 := by
  rw [PreparedStatement.prepare]
  cases hs : s.stmt_ with
  | none => exact h
  | some stmt =>
    refine h.frame rfl rfl rfl ?_
    intro stmt' hstmt'
    cases hstmt'
    have hbound := (h.stmt stmt hs).1
    exact ⟨by cases keeps <;> simp [hbound], rfl⟩

theorem Unfilled.execute (h : Unfilled s) {a : Answer Row} (hset : NoResultSet s (.execute a)) :
    Unfilled (s.execute a).1 := by
  cases hok : (s.execute a).2 with
  | false =>
    rcases execute_fails hok with heq | ⟨stmt, hs, heq⟩
    · rw [heq]; exact h
    · rw [heq]
      refine h.frame rfl rfl rfl ?_
      intro stmt' hstmt'
      cases hstmt'
      exact ⟨(h.stmt stmt hs).1, rfl⟩
  | true =>
    obtain ⟨stmt, rows, hs, -, heq⟩ := execute_succeeds hok
    have hfields := hset hok stmt hs
    rw [heq, fillColumnData_kept]
    · refine h.frame rfl rfl rfl ?_
      intro stmt' hstmt'
      cases hstmt'
      exact ⟨(h.stmt stmt hs).1, if_pos hfields⟩
    · intro _ stmt' hstmt'
      cases hstmt'
      exact hfields

theorem step_unfilled {o : Op Row} (h : Unfilled s) (hset : NoResultSet s o) (hs : step fetch s o = some s') :
    Unfilled s' := by
  cases o with
  | prepare query answer keeps =>
    cases hs
    exact h.prepare query answer keeps
  | bindValue param v =>
    obtain ⟨hstmt, hcolumns, hdata, hbindings⟩ := step_bindValue hs
    exact h.frame hcolumns.symm hdata.symm hbindings.symm (hstmt ▸ h.stmt)
  | execute a =>
    cases hs
    exact h.execute hset
  | nextResult =>
    cases hs
    rcases nextResult_eq fetch s with heq | ⟨stmt, row, rows, hstmt, hrows, -⟩
    · rw [heq]; exact h
    · rw [(h.stmt stmt hstmt).2] at hrows
      cases hrows

/-- as long as no query has a result set -/
theorem run_unfilled {opened : Bool} {ops : List (Op Row)} (hset : Along (step fetch) NoResultSet (.new opened) ops)
    (hs : run (step fetch) (.new opened) ops = some s) : Unfilled s :=
  run_inv_along (fun _ _ _ h hG hso => step_unfilled h hG hso) (unfilled_new opened) hset hs

/-- a statement that was never opened stays so -/
theorem step_closed {o : Op Row} (h : s.stmt_ = none) (hs : step fetch s o = some s') : s'.stmt_ = none := by
  cases o with
  | prepare query answer keeps => simp only [step, prepare, h] at hs; cases hs; exact h
  | bindValue param v =>
    simp only [step, bindValue_closed h] at hs
    cases hs
    exact h
  | execute a => simp only [step, execute, h] at hs; cases hs; exact h
  | nextResult => simp only [step, nextResult, h] at hs; cases hs; exact h

theorem run_closed {ops : List (Op Row)} (h : s.stmt_ = none) (hs : run (step fetch) s ops = some s') :
    s'.stmt_ = none := by
  have hstep : ∀ (t : PreparedStatement Row) o t', t.stmt_ = none → step fetch t o = some t' → t'.stmt_ = none :=
    fun t o t' => step_closed
  exact run_inv hstep h hs

/-- after `prepare` nothing tells a statement without columns from another one -/
theorem Unfilled.prepareAlike {t : PreparedStatement Row} (h : Unfilled s) (h' : Unfilled t) (hopen : s.stmt_ ≠ none)
    (hopen' : t.stmt_ ≠ none) (query : Bytes) (answer : Option (List Field)) (keeps : Bool) :
    BoundAlike (paramCount query) (fun _ => False) (s.prepare query answer keeps).1
      (t.prepare query answer keeps).1 := by
  obtain ⟨stmt, hs⟩ := Option.ne_none_iff_exists'.1 hopen
  obtain ⟨stmt', hs'⟩ := Option.ne_none_iff_exists'.1 hopen'
  simp only [PreparedStatement.prepare, hs, hs']
  refine ⟨⟨?_, h.columns.trans h'.columns.symm, h.data.trans h'.data.symm, h.bindings.trans h'.bindings.symm⟩,
    ⟨resize_length _ _ _, resize_length _ _ _⟩, ⟨resize_length _ _ _, resize_length _ _ _⟩, fun i hi => hi.elim⟩
  simp only [(h.stmt stmt hs).1, (h'.stmt stmt' hs').1]

end Unfilled

/-! ## Columns -/

section Columns

variable {fetch : Fetch Row} {s s' : PreparedStatement Row}

theorem insert_ne_empty (m : AList fun _ : Bytes => ℕ) (name : Bytes) (i : ℕ) : m.insert name i ≠ ∅ := by
  intro h
  have hmem : name ∈ m.insert name i := (AList.mem_insert m).2 (Or.inl rfl)
  rw [h] at hmem
  exact AList.notMem_empty name hmem

theorem columnsFrom_ne_empty {m : AList fun _ : Bytes => ℕ} {i : ℕ} {fields : List Field}
    (h : m ≠ ∅ ∨ fields ≠ []) : columnsFrom m i fields ≠ ∅ := by
  induction fields generalizing m i with
  | nil => exact h.resolve_right (not_not.2 rfl)
  | cons field fields ih => exact ih (Or.inl (insert_ne_empty m field.name i))

theorem fillColumn_columnData (s : PreparedStatement Row) (i : ℕ) (field : Field) :
    (s.fillColumn i field).columnData = s.columnData.insert field.name i := by
  simp only [fillColumn]
  split <;> rfl

theorem fillColumns_columnData (s : PreparedStatement Row) (i : ℕ) (fields : List Field) :
    (s.fillColumns i fields).columnData = columnsFrom s.columnData i fields := by
  induction fields generalizing s i with
  | nil => rfl
  | cons field fields ih => rw [fillColumns, ih, fillColumn_columnData, columnsFrom]

theorem fillColumnData_filled {fields : List Field} {bindResult : Bool}
    (hs : s.stmt_.map MysqlStmt.fields = some fields) (hempty : s.columnData = ∅) (hfields : fields ≠ []) :
    (s.fillColumnData bindResult).1.columnData = columnsFrom ∅ 0 fields := by
  obtain ⟨stmt, hstmt, rfl⟩ := Option.map_eq_some_iff.1 hs
  have hfill : s.columnData.entries = [] ∧ stmt.fields ≠ [] := ⟨entries_eq_nil.2 hempty, hfields⟩
  rw [fillColumnData, hstmt]
  simp only [if_pos hfill, fillColumns_columnData]
  rw [← hempty, resizeResults]

/-- **Columns stay.** Once there are columns, no call changes them. -/
theorem step_columns {o : Op Row} (h : s.columnData ≠ ∅) (hs : step fetch s o = some s') :
    s'.columnData = s.columnData := by
  cases o with
  | prepare query answer keeps =>
    cases hs
    rw [prepare]
    split <;> rfl
  | bindValue param v => exact (step_bindValue hs).columns.symm
  | execute a =>
    cases hs
    cases hok : (s.execute a).2 with
    | false =>
      rcases execute_fails hok with heq | ⟨stmt, -, heq⟩
      · rw [heq]
      · rw [heq]
    | true =>
      obtain ⟨stmt, rows, -, -, heq⟩ := execute_succeeds hok
      rw [heq, fillColumnData_kept]
      exact fun hempty => absurd hempty h
  | nextResult =>
    cases hs
    rcases nextResult_eq fetch s with heq | ⟨stmt, row, rows, -, -, heq⟩
    · rw [heq]
    · rw [heq]

/-- the columns of a run that begins with some -/
theorem run_columns {ops : List (Op Row)} (h : s.columnData ≠ ∅) (hs : run (step fetch) s ops = some s') :
    s'.columnData = s.columnData := by
  have hstep : ∀ t o t', t.columnData = s.columnData → step fetch t o = some t' → t'.columnData = s.columnData :=
    fun t o t' ht hto => (step_columns (ht ▸ h) hto).trans ht
  exact run_inv hstep rfl hs

end Columns

/-! ## Reuse -/

section Reuse

variable {fetch : Fetch Row} {opened : Bool} {before : List (Op Row)} {r : Round Row} {s u : PreparedStatement Row}

/-- in a round with a statement that has no columns yet -/
theorem like_new (h : Unfilled s) (heach : r.BindsEach) (hopen : s.stmt_ ≠ none)
    (hopen' : (new opened : PreparedStatement Row).stmt_ ≠ none) (hu : run (step fetch) s r.calls = some u)
    (hexec : (u.execute r.answer).2 = true) : LikeNew fetch opened r u := by
  obtain ⟨w, hw, hu⟩ := run_cons_some.1 hu
  obtain rfl : (s.prepare r.query r.prepared r.keeps).1 = w := Option.some.inj hw
  have halike := h.prepareAlike (unfilled_new opened) hopen hopen' r.query r.prepared r.keeps
  have hprepared : (s.prepare r.query r.prepared r.keeps).1.stmt_ ≠ none := by
    obtain ⟨stmt, hs⟩ := Option.ne_none_iff_exists'.1 hopen
    simp [prepare, hs]
  obtain ⟨t, ht, hbound⟩ := halike.bindValues hprepared hu
  obtain ⟨hdata, hbindings⟩ := hbound.params fun i hi => Or.inr (heach i hi)
  obtain ⟨hsame, hok⟩ := hbound.same.execute hdata hbindings r.answer
  exact ⟨t, run_cons_some.2 ⟨_, rfl, ht⟩, hok ▸ hexec, fun n => (hsame.nextResults n).answersAlike⟩

/-- the first query with a result set leaves its columns for good -/
theorem keeps_columns (hs : run (step fetch) (.new opened) before = some s)
    (hset : ¬ Along (step fetch) NoResultSet (.new opened) before) : KeepsColumns fetch opened before s := by
  rcases along_or_first (G := NoResultSet) hs with hA | ⟨a, o, b, t, v, rfl, ha, hA, hv, hG, hb⟩
  · exact absurd hA hset
  · have hunfilled := run_unfilled hA ha
    cases o with
    | prepare query answer keeps => exact absurd trivial hG
    | bindValue param v => exact absurd trivial hG
    | nextResult => exact absurd trivial hG
    | execute answer =>
      simp only [NoResultSet, Option.mem_def, Classical.not_imp, not_forall] at hG
      obtain ⟨hok, stmt, hstmt, hfields⟩ := hG
      obtain ⟨stmt', rows, hstmt', -, heq⟩ := execute_succeeds hok
      obtain rfl : stmt = stmt' := Option.some.inj (hstmt.symm.trans hstmt')
      have hfill : v.columnData = columnsFrom ∅ 0 stmt.fields := by
        obtain rfl : (t.execute answer).1 = v := Option.some.inj hv
        rw [heq]
        exact fillColumnData_filled rfl hunfilled.columns hfields
      have hne : v.columnData ≠ ∅ := hfill ▸ columnsFrom_ne_empty (Or.inr hfields)
      exact ⟨a, answer, b, t, stmt, rfl, ha, hstmt, hfields, hok, (run_columns hne hb).trans hfill⟩

theorem KeepsColumns.round (h : KeepsColumns fetch opened before s) (hu : run (step fetch) s r.calls = some u) :
    KeepsColumns fetch opened before (u.execute r.answer).1 := by
  obtain ⟨a, answer, b, t, stmt, rfl, ha, hstmt, hfields, hok, hcolumns⟩ := h
  have hne : s.columnData ≠ ∅ := hcolumns ▸ columnsFrom_ne_empty (Or.inr hfields)
  have hexec : run (step fetch) s (r.calls ++ [.execute r.answer]) = some (u.execute r.answer).1 :=
    run_append_some hu rfl
  exact ⟨a, answer, b, t, stmt, rfl, ha, hstmt, hfields, hok, (run_columns hne hexec).trans hcolumns⟩

end Reuse

/-- **Reusing a statement.** Take any calls on a statement and then a round in which every parameter is bound and
`execute` succeeds. If no query that was executed before had a result set, the statement goes on, through any number of
`nextResult` calls, as a new statement does on which only this round is called. If one had, the columns are those of the
first that had. -/
theorem reused_like_new (fetch : Fetch Row) (opened : Bool) (before : List (Op Row)) (r : Round Row)
    (s u : PreparedStatement Row) (hs : run (step fetch) (.new opened) before = some s)
    (hu : run (step fetch) s r.calls = some u) (heach : r.BindsEach) (hexec : (u.execute r.answer).2 = true) :
    (Along (step fetch) NoResultSet (.new opened) before → LikeNew fetch opened r u) ∧
      (¬ Along (step fetch) NoResultSet (.new opened) before →
        KeepsColumns fetch opened before (u.execute r.answer).1) := by
  refine ⟨?_, ?_⟩
  · intro hset
    have hunfilled := run_unfilled hset hs
    -- a statement that executes is open, and so it was before
    obtain ⟨stmt, -, hstmt, -⟩ := execute_succeeds hexec
    have hopen : s.stmt_ ≠ none := by
      intro hnone
      rw [run_closed hnone hu] at hstmt
      cases hstmt
    have hopen' : (new opened : PreparedStatement Row).stmt_ ≠ none := fun hnone => hopen (run_closed hnone hs)
    exact like_new hunfilled heach hopen hopen' hu hexec
  · intro hset
    exact (keeps_columns hs hset).round hu

/-- a library for rows of numbers: it stores each number through the binding of its column -/
def fetchNumbers : Fetch (List (BitVec 32)) := fun bound row data =>
  ({ data with
      bindData := (bound.zip row).foldl (fun bindData b =>
        match b.1.buffer_type, b.1.buffer with
        | .long, some i => bindData.set i (.intno b.2)
        | _, _ => bindData) data.bindData }, true)

/-- a round with a query that has no result set and one parameter -/
def insertRound : List (Op (List (BitVec 32))) :=
  [.prepare [0x3f] (some []) false, .bindValue 0 (.int 7), .execute ⟨true, fun _ => .stored [], true⟩]

/-- a round with a query for the column `name`, of one row -/
def selectRound (name : Bytes) (v : BitVec 32) : Round (List (BitVec 32)) where
  query := name
  prepared := some [⟨name, .long, 11⟩]
  keeps := false
  binds := []
  answer := ⟨true, fun _ => .stored [[v]], true⟩

/-- the column `b` after an insert -/
theorem reused_like_new_insert : ∃ u, LikeNew fetchNumbers true (selectRound [0x62] 2) u :=
  ⟨_, (reused_like_new fetchNumbers true insertRound (selectRound [0x62] 2) _ _ rfl rfl (by decide) rfl).1 (by decide)⟩

/-- **Columns of an earlier query.** The column `a` is selected and fetched, then the column `b`. After `nextResult` the
statement says that there is no column `b`, and still has the earlier value of `a`. A new statement has the value of `b`
and no `a`. -/
theorem earlier_columns :
    ∃ s u t, run (step fetchNumbers) (.new true)
        ((selectRound [0x61] 1).calls ++ [.execute (selectRound [0x61] 1).answer, .nextResult]) = some s ∧
      run (step fetchNumbers) s (selectRound [0x62] 2).calls = some u ∧
      run (step fetchNumbers) (.new true) (selectRound [0x62] 2).calls = some t ∧
      (u.execute (selectRound [0x62] 2).answer).2 = true ∧
      ((u.execute (selectRound [0x62] 2).answer).1.nextResults fetchNumbers 1).valueInt [0x62] = .fails ∧
      ((u.execute (selectRound [0x62] 2).answer).1.nextResults fetchNumbers 1).valueInt [0x61] = .ok 1 ∧
      ((t.execute (selectRound [0x62] 2).answer).1.nextResults fetchNumbers 1).valueInt [0x62] = .ok 2 ∧
      ((t.execute (selectRound [0x62] 2).answer).1.nextResults fetchNumbers 1).valueInt [0x61] = .fails ∧
      ¬ LikeNew fetchNumbers true (selectRound [0x62] 2) u := by
  refine ⟨_, _, _, rfl, rfl, rfl, rfl, rfl, rfl, rfl, rfl, ?_⟩
  rintro ⟨t, ht, -, halike⟩
  obtain rfl := Option.some.inj (Eq.trans rfl ht)
  exact absurd ((halike 1).int [0x62]) (by decide)

end PreparedStatement
end NetFramework
