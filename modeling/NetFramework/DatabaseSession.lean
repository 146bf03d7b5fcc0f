/-
The functions of `Database` in dblib/db.cpp and the class MySQL of mysql_backend.cpp, among the statements of a process.
All of them use one handle of the MySQL library. What the library answers is in the labels, as far as its documentation
leaves it open: `mysql_real_connect` is turned down on a handle that is connected (CR_ALREADY_CONNECTED), and a connection
ends when the library finds it lost (CR_SERVER_LOST).

`second_connect_locks_out`: a second call of `connect` while the connection stands fails, and `isConnected_` says from then
on that there is none, although nothing has happened to it. No schema is set, no query is executed and no statement is
opened until the connection is lost; the statements that are there go on.
-/
import NetFramework.StatementReuse

namespace NetFramework
namespace Database

open Transition PreparedStatement

variable {Row : Type}

/-! ## Model -/

/-- the members of MySQL; of the handle, whether it is connected -/
structure MySQL where
  isConnected_ : Bool
  live : Bool
deriving DecidableEq, Repr

/-- `MySQL::connect`; whether `mysql_real_connect` returns a connection. None for what it does not return. -/
def MySQL.connect (m : MySQL) (connret : Bool) : Option MySQL :=
  if connret && m.live then none else some ⟨connret, m.live || connret⟩

/-- `Database::setSchema`; whether `mysql_select_db` returns 0 -/
def MySQL.setSchema (m : MySQL) (selected : Bool) : Bool := if m.isConnected_ then selected else false

/-- `Database::execute`; whether `mysql_query` returns 0 -/
def MySQL.execute (m : MySQL) (queried : Bool) : Bool := if m.isConnected_ then queried else false

/-- the `Impl` that `instance` returns, and the statements in memory -/
structure Process (Row : Type) where
  mysql : MySQL
  statements : ℕ → Option (PreparedStatement Row)

/-- what happens in a process. `inited` if `mysql_stmt_init` returns a statement. -/
inductive DatabaseOp (Row : Type) where
  | connect (connret : Bool)
  | lost
  | construct (p : ℕ) (inited : Bool)
  | call (p : ℕ) (o : PreparedStatement.Op Row)
  | destruct (p : ℕ)

namespace Process

def start : Process Row := ⟨⟨false, false⟩, fun _ => none⟩

/-- an object is constructed where there is none, and used while it is there -/
def step (fetch : Fetch Row) (s : Process Row) : DatabaseOp Row → Option (Process Row)
  | .connect connret => (s.mysql.connect connret).map fun m => { s with mysql := m }
  | .lost => some { s with mysql := { s.mysql with live := false } }
  | .construct p inited =>
    if (s.statements p).isSome then none
    else some { s with statements := Function.update s.statements p (some (.new (s.mysql.isConnected_ && inited))) }
  | .call p o => do
    let statement ← s.statements p
    let statement ← PreparedStatement.step fetch statement o
    return { s with statements := Function.update s.statements p (some statement) }
  | .destruct p =>
    if (s.statements p).isSome then some { s with statements := Function.update s.statements p none } else none

end Process

/-- the calls on one statement -/
def callsOf (p : ℕ) (ops : List (DatabaseOp Row)) : List (PreparedStatement.Op Row) :=
  ops.filterMap fun o => match o with
    | .call q c => if q = p then some c else none
    | _ => none

/-- the statement `t` was there before the steps `ops`, and since then has only had its own calls -/
def Kept (fetch : Fetch Row) (u : Process Row) (ops : List (DatabaseOp Row)) (p : ℕ) (t : PreparedStatement Row) : Prop :=
  .destruct p ∉ ops ∧ ∃ t₀, u.statements p = some t₀ ∧ run (PreparedStatement.step fetch) t₀ (callsOf p ops) = some t

/-- the statement `t` was constructed in the course of `ops`, with the connection as it was then, and since then has only
had its own calls -/
def Constructed (fetch : Fetch Row) (u : Process Row) (ops : List (DatabaseOp Row)) (p : ℕ) (t : PreparedStatement Row) :
    Prop :=
  ∃ before inited after v, ops = before ++ .construct p inited :: after ∧ run (Process.step fetch) u before = some v ∧
    .destruct p ∉ after ∧
      run (PreparedStatement.step fetch) (.new (v.mysql.isConnected_ && inited)) (callsOf p after) = some t

namespace Process

/-! ## Statements -/

section Statements

variable {fetch : Fetch Row} {s s' u : Process Row} {o : DatabaseOp Row} {ops : List (DatabaseOp Row)} {p : ℕ}
  {t : PreparedStatement Row}

/-- what a step can do to a statement -/
theorem step_statement (h : s.step fetch o = some s') (ht : s'.statements p = some t) :
    Kept fetch s [o] p t ∨ ∃ inited, o = .construct p inited ∧ t = .new (s.mysql.isConnected_ && inited) := by
  cases o with
  | connect connret =>
    obtain ⟨m, -, rfl⟩ := Option.map_eq_some_iff.1 h
    exact Or.inl ⟨by simp, t, ht, rfl⟩
  | lost => cases h; exact Or.inl ⟨by simp, t, ht, rfl⟩
  | construct q inited =>
    simp only [step] at h
    split_ifs at h
    cases h
    by_cases hq : p = q
    · subst hq
      simp only [Function.update_self] at ht
      exact Or.inr ⟨inited, rfl, (Option.some.inj ht).symm⟩
    · simp only [Function.update_of_ne hq] at ht
      exact Or.inl ⟨by simp, t, ht, rfl⟩
  | call q c =>
    obtain ⟨t₀, ht₀, h⟩ := Option.bind_eq_some_iff.1 h
    obtain ⟨t₁, ht₁, h⟩ := Option.bind_eq_some_iff.1 h
    cases h
    by_cases hq : p = q
    · subst hq
      simp only [Function.update_self] at ht
      cases ht
      have hcalls : callsOf p [DatabaseOp.call p c] = [c] := by simp [callsOf]
      exact Or.inl ⟨by simp, t₀, ht₀, by rw [hcalls]; exact run_cons_some.2 ⟨t, ht₁, rfl⟩⟩
    · simp only [Function.update_of_ne hq] at ht
      have hcalls : callsOf p [DatabaseOp.call q c] = [] := by simp [callsOf, Ne.symm hq]
      exact Or.inl ⟨by simp, t, ht, by rw [hcalls]; rfl⟩
  | destruct q =>
    simp only [step] at h
    split_ifs at h
    cases h
    by_cases hq : p = q
    · subst hq
      simp only [Function.update_self] at ht
      cases ht
    · simp only [Function.update_of_ne hq] at ht
      exact Or.inl ⟨by simp [hq], t, ht, rfl⟩

theorem callsOf_cons (p : ℕ) (o : DatabaseOp Row) (ops : List (DatabaseOp Row)) :
    callsOf p (o :: ops) = callsOf p [o] ++ callsOf p ops := by
  rw [callsOf, ← List.singleton_append, List.filterMap_append]
  rfl

/-- **A statement.** It goes by its own calls since it was constructed. -/
theorem run_statement (h : run (step fetch) u ops = some s) (ht : s.statements p = some t) :
    Kept fetch u ops p t ∨ Constructed fetch u ops p t := by
  induction ops generalizing u with
  | nil => cases h; exact Or.inl ⟨List.not_mem_nil, t, ht, rfl⟩
  | cons o ops ih =>
    obtain ⟨w, hw, h⟩ := run_cons_some.1 h
    rcases ih h with ⟨hthere, t₀, ht₀, hcalls⟩ | ⟨before, inited, after, v, rfl, hv, hcalls⟩
    · rcases step_statement hw ht₀ with ⟨hnow, t₁, ht₁, hcall⟩ | ⟨inited, rfl, rfl⟩
      · refine Or.inl ⟨?_, t₁, ht₁, by rw [callsOf_cons]; exact run_append_some hcall hcalls⟩
        exact List.not_mem_cons_of_ne_of_not_mem (List.ne_of_not_mem_cons hnow) hthere
      · exact Or.inr ⟨[], inited, ops, u, rfl, rfl, hthere, hcalls⟩
    · exact Or.inr ⟨o :: before, inited, after, v, rfl, run_cons_some.2 ⟨w, hw, hv⟩, hcalls⟩

/-- a statement that is not destroyed is kept by a step -/
theorem step_kept {t₀ : PreparedStatement Row} (ht₀ : s.statements p = some t₀) (ho : o ≠ .destruct p)
    (h : s.step fetch o = some s') :
    ∃ t, s'.statements p = some t ∧ run (PreparedStatement.step fetch) t₀ (callsOf p [o]) = some t := by
  have hother : ∀ q, q ≠ p → ∀ v, Function.update s.statements q v p = some t₀ :=
    fun q hq v => (Function.update_of_ne hq.symm v s.statements).trans ht₀
  cases o with
  | connect connret =>
    obtain ⟨m, -, rfl⟩ := Option.map_eq_some_iff.1 h
    exact ⟨t₀, ht₀, rfl⟩
  | lost => cases h; exact ⟨t₀, ht₀, rfl⟩
  | construct q inited =>
    simp only [step] at h
    split_ifs at h with hfree
    cases h
    have hq : q ≠ p := by
      rintro rfl
      exact hfree (by rw [ht₀]; rfl)
    exact ⟨t₀, hother q hq _, rfl⟩
  | call q c =>
    obtain ⟨t₁, ht₁, h⟩ := Option.bind_eq_some_iff.1 h
    obtain ⟨t, ht, h⟩ := Option.bind_eq_some_iff.1 h
    cases h
    by_cases hq : q = p
    · subst hq
      obtain rfl : t₀ = t₁ := Option.some.inj (ht₀.symm.trans ht₁)
      have hcalls : callsOf q [DatabaseOp.call q c] = [c] := by simp [callsOf]
      exact ⟨t, Function.update_self .., by rw [hcalls]; exact run_cons_some.2 ⟨t, ht, rfl⟩⟩
    · have hcalls : callsOf p [DatabaseOp.call q c] = [] := by simp [callsOf, hq]
      exact ⟨t₀, hother q hq _, by rw [hcalls]; rfl⟩
  | destruct q =>
    simp only [step] at h
    split_ifs at h
    cases h
    exact ⟨t₀, hother q (fun hq => ho (hq ▸ rfl)) _, rfl⟩

theorem run_kept {t₀ : PreparedStatement Row} (ht₀ : u.statements p = some t₀) (hops : .destruct p ∉ ops)
    (h : run (step fetch) u ops = some s) : ∃ t, s.statements p = some t ∧ Kept fetch u ops p t := by
  induction ops generalizing u t₀ with
  | nil => cases h; exact ⟨t₀, ht₀, hops, t₀, ht₀, rfl⟩
  | cons o ops ih =>
    obtain ⟨w, hw, h⟩ := run_cons_some.1 h
    obtain ⟨t₁, ht₁, hcall⟩ := step_kept ht₀ (List.ne_of_not_mem_cons hops).symm hw
    obtain ⟨t, ht, -, t₂, ht₂, hcalls⟩ := ih ht₁ (List.not_mem_of_not_mem_cons hops) h
    obtain rfl : t₁ = t₂ := Option.some.inj (ht₁.symm.trans ht₂)
    exact ⟨t, ht, hops, t₀, ht₀, by rw [callsOf_cons]; exact run_append_some hcall hcalls⟩

end Statements

/-! ## The connection -/

section Connection

variable {fetch : Fetch Row} {s s' u : Process Row} {o : DatabaseOp Row} {ops : List (DatabaseOp Row)}

/-- the handle is connected, and `isConnected_` says that it is not -/
def Locked (s : Process Row) : Prop := s.mysql = ⟨false, true⟩

theorem step_locked (hs : s.Locked) (ho : o ≠ .lost) (h : s.step fetch o = some s') : s'.Locked := by
  cases o with
  | connect connret =>
    obtain ⟨m, hm, rfl⟩ := Option.map_eq_some_iff.1 h
    rw [hs, MySQL.connect] at hm
    cases connret with
    | false => exact (Option.some.inj hm).symm
    | true => cases hm
  | lost => exact absurd rfl ho
  | construct p inited =>
    simp only [step] at h
    split_ifs at h
    cases h
    exact hs
  | call p c =>
    obtain ⟨t₀, -, h⟩ := Option.bind_eq_some_iff.1 h
    obtain ⟨t₁, -, h⟩ := Option.bind_eq_some_iff.1 h
    cases h
    exact hs
  | destruct p =>
    simp only [step] at h
    split_ifs at h
    cases h
    exact hs

/-- **A second `connect`.** -/
theorem connect_locked {connret : Bool} (hlive : u.mysql.live = true)
    (h : u.step fetch (.connect connret) = some s) : connret = false ∧ s.Locked ∧ s.statements = u.statements := by
  obtain ⟨m, hm, rfl⟩ := Option.map_eq_some_iff.1 h
  rw [MySQL.connect, hlive] at hm
  cases connret with
  | false => exact ⟨rfl, (Option.some.inj hm).symm, rfl⟩
  | true => cases hm

theorem run_locked (hs : u.Locked) (hops : .lost ∉ ops) (h : run (step fetch) u ops = some s) :
    s.Locked ∧ ∀ ret, .connect ret ∈ ops → ret = false := by
  induction ops generalizing u with
  | nil => cases h; exact ⟨hs, fun ret hmem => absurd hmem List.not_mem_nil⟩
  | cons o ops ih =>
    obtain ⟨w, hw, h⟩ := run_cons_some.1 h
    obtain ⟨hlocked, hfail⟩ := ih (step_locked hs (List.ne_of_not_mem_cons hops).symm hw)
      (List.not_mem_of_not_mem_cons hops) h
    refine ⟨hlocked, ?_⟩
    intro ret hmem
    rcases List.mem_cons.1 hmem with rfl | hmem
    · exact (connect_locked (congrArg MySQL.live hs) hw).1
    · exact hfail ret hmem

end Connection

/-- **A second `connect` locks the process out.** While the connection stands, `connect` is called again. The call fails,
and until the connection is lost no call of `connect`, `setSchema` or `execute` succeeds. A statement from before that is
not destroyed is there, and has changed by its own calls only. Every other statement has been constructed meanwhile, and
is closed, whatever has been called on it. -/
theorem second_connect_locks_out (fetch : Fetch Row) (u s : Process Row) (connret : Bool)
    (after : List (DatabaseOp Row)) (hlive : u.mysql.live = true)
    (h : run (step fetch) u (.connect connret :: after) = some s) (hafter : .lost ∉ after) :
    (∀ ret, .connect ret ∈ .connect connret :: after → ret = false) ∧
      (∀ answer, s.mysql.setSchema answer = false ∧ s.mysql.execute answer = false) ∧
      (∀ p t₀, u.statements p = some t₀ → .destruct p ∉ after →
        ∃ t, s.statements p = some t ∧ Kept fetch u (.connect connret :: after) p t) ∧
      ∀ p t, s.statements p = some t → Kept fetch u (.connect connret :: after) p t ∨
        (Constructed fetch u (.connect connret :: after) p t ∧ t.stmt_ = none) := by
  obtain ⟨w, hw, hrest⟩ := run_cons_some.1 h
  obtain ⟨rfl, hlocked, hsame⟩ := connect_locked hlive hw
  obtain ⟨hend, hfail⟩ := run_locked hlocked hafter hrest
  refine ⟨?_, ?_, ?_, ?_⟩
  · intro ret hmem
    rcases List.mem_cons.1 hmem with heq | hmem
    · cases heq
      rfl
    · exact hfail ret hmem
  · intro answer
    have hmysql : s.mysql = ⟨false, true⟩ := hend
    rw [MySQL.setSchema, MySQL.execute, hmysql]
    exact ⟨rfl, rfl⟩
  · intro p t₀ ht₀ hthere
    exact run_kept ht₀ (by simpa using hthere) h
  · intro p t ht
    rcases run_statement hrest ht with ⟨hthere, t₀, ht₀, hcalls⟩ | ⟨before, inited, calls, v, rfl, hv, hthere, hcalls⟩
    · exact Or.inl ⟨by simpa using hthere, t₀, hsame ▸ ht₀, hcalls⟩
    · have hclosed : v.mysql = ⟨false, true⟩ :=
        (run_locked hlocked (fun hlost => hafter (List.mem_append_left _ hlost)) hv).1
      refine Or.inr ⟨⟨_ :: before, inited, calls, v, rfl, run_cons_some.2 ⟨w, hw, hv⟩, hthere, hcalls⟩, run_closed ?_ hcalls⟩
      rw [hclosed, Bool.false_and]
      rfl

/-- a statement is opened, and `connect` is called again before another one -/
theorem second_connect_locks_out_query : ∃ u s : Process (List (BitVec 32)),
    run (step fetchNumbers) start [.connect true, .construct 0 true] = some u ∧
      run (step fetchNumbers) u [.connect false, .construct 1 true, .call 1 (.prepare [0x61] (some []) false)] = some s ∧
      s.mysql.execute true = false := by
  obtain ⟨u, s, hu, hs, hlive⟩ : ∃ u s : Process (List (BitVec 32)),
      run (step fetchNumbers) start [.connect true, .construct 0 true] = some u ∧
        run (step fetchNumbers) u [.connect false, .construct 1 true, .call 1 (.prepare [0x61] (some []) false)] =
          some s ∧ u.mysql.live = true := ⟨_, _, rfl, rfl, rfl⟩
  exact ⟨u, s, hu, hs, ((second_connect_locks_out fetchNumbers u s false _ hlive hs (by simp)).2.1 true).2⟩

end Process
end Database
end NetFramework
