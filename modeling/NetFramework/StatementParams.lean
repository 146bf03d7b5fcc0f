/-
The parameters of a prepared statement: the three vectors that `prepare` sizes by the question marks of the query, and
the calls of `bindValue` that fill them.

- `bindValue_step`: what a call does with a statement whose vectors have `n` elements, for any place but `n` itself.
- `bindValue_within_iff`: in a row of calls every call keeps to its slot, answers accordingly, and leaves what was bound
  last to be sent, if and only if no call has the number of slots for its place, and no string that gets a slot has a
  zero byte before its last.
-/
import NetFramework.StatementReuse

namespace NetFramework
namespace PreparedStatement

open Transition

variable {Row : Type}

/-! ## Rows of calls -/

/-- a call of `bindValue`: the place and the value -/
abbrev Bind := ℕ × ParamValue

/-- the statement after a call of `bindValue`; none if it writes outside of the vectors -/
def bindStep (s : PreparedStatement Row) (b : Bind) : Option (PreparedStatement Row) := (s.bindValue b.1 b.2).map Prod.fst

/-- the value that is bound last to a slot -/
def lastBound (binds : List Bind) (k : ℕ) : Option ParamValue := (binds.reverse.find? fun b => b.1 = k).map Prod.snd

/-- what should be sent for a value -/
def asSent : ParamValue → SentParam
  | .int v => .long v
  | .string v => .string (v.map some)

/-- no zero byte stands before the last byte of a string -/
def NoInnerZero : ParamValue → Prop
  | .int _ => True
  | .string v => 0 ∉ v.dropLast

instance (v : ParamValue) : Decidable (NoInnerZero v) := by unfold NoInnerZero; split <;> infer_instance

/-- two statements differ in one slot of the parameters at most -/
structure SameButSlot (k : ℕ) (s t : PreparedStatement Row) : Prop where
  rest : t = { s with
    paramBindData := t.paramBindData, paramLength := t.paramLength, paramBindings := t.paramBindings }
  data : ∀ j ≠ k, t.paramBindData[j]? = s.paramBindData[j]?
  length : ∀ j ≠ k, t.paramLength[j]? = s.paramLength[j]?
  bindings : ∀ j ≠ k, t.paramBindings[j]? = s.paramBindings[j]?

/-- each of the calls, made on a statement with `n` slots, writes inside of the vectors; it returns true if and only if
its place is a slot, and then only this slot changes, and otherwise nothing; what is bound last to a slot is sent -/
def Within (n : ℕ) (s : PreparedStatement Row) (binds : List Bind) : Prop :=
  ∀ before b after, binds = before ++ b :: after → ∃ t u ok, run bindStep s before = some t ∧
    t.bindValue b.1 b.2 = some (u, ok) ∧ (ok = true ↔ b.1 < n) ∧ (ok = true → SameButSlot b.1 t u) ∧
    (ok = false → u = t) ∧
    ∀ k < n, ∀ v, lastBound (before ++ [b]) k = some v → u.sent[k]? = some (asSent v)

/-! ## A call -/

/-- the statement is open and has `n` slots -/
structure Slots (n : ℕ) (s : PreparedStatement Row) : Prop where
  opened : s.stmt_ ≠ none
  data : s.paramBindData.length = n
  length : s.paramLength.length = n
  bindings : s.paramBindings.length = n

section Calls

variable {s t : PreparedStatement Row} {n k : ℕ} {b : Bind} {binds : List Bind}

theorem slots_prepare {query : Bytes} {answer : Option (List Field)} {keeps : Bool}
    (h : s.prepare query answer keeps = (t, true)) : Slots (paramCount query) t := by
  rw [prepare] at h
  cases hs : s.stmt_ with
  | none =>
    rw [hs] at h
    cases h
  | some stmt =>
    rw [hs] at h
    obtain rfl := congrArg Prod.fst h
    exact ⟨Option.some_ne_none _, resize_length _ _ _, resize_length _ _ _, resize_length _ _ _⟩

/-- the slot of a call afterwards -/
structure Holds (s : PreparedStatement Row) (k : ℕ) (v : ParamValue) : Prop where
  data : s.paramBindData[k]? = some (boundData v)
  binding : s.paramBindings[k]? = some (boundAs k v)

/-- **A call.** Its place is a slot, or is too high; the place `n` is behind the vectors and is not turned down. -/
theorem bindValue_step (h : Slots n s) (b : Bind) :
    (b.1 < n ∧ ∃ t, s.bindValue b.1 b.2 = some (t, true) ∧ Slots n t ∧ SameButSlot b.1 s t ∧ Holds t b.1 b.2) ∨
      (n < b.1 ∧ s.bindValue b.1 b.2 = some (s, false)) ∨ (b.1 = n ∧ s.bindValue b.1 b.2 = none) := by
  obtain ⟨hopen, hdata, hlength, hbindings⟩ := h
  rw [bindValue_eq hopen, hbindings]
  rcases lt_trichotomy b.1 n with hlt | heq | hgt
  · refine Or.inl ⟨hlt, ?_⟩
    rw [if_neg (by omega), if_neg (by omega)]
    refine ⟨_, rfl, ⟨hopen, ?_, ?_, ?_⟩, ⟨rfl, ?_, ?_, ?_⟩, ?_, ?_⟩
    · rw [List.length_set, hdata]
    · split
      · rw [List.length_set, hlength]
      · exact hlength
    · rw [List.length_set, hbindings]
    · intro j hj
      exact List.getElem?_set_ne hj.symm
    · intro j hj
      split
      · exact List.getElem?_set_ne hj.symm
      · rfl
    · intro j hj
      exact List.getElem?_set_ne hj.symm
    · exact List.getElem?_set_self (hdata ▸ hlt)
    · exact List.getElem?_set_self (hbindings ▸ hlt)
  · exact Or.inr (Or.inr ⟨heq, by rw [if_neg (by omega), if_pos heq]⟩)
  · exact Or.inr (Or.inl ⟨hgt, if_pos hgt⟩)

theorem slots_step {b : Bind} (h : Slots n s) (hs : bindStep s b = some t) : Slots n t := by
  rw [bindStep] at hs
  rcases bindValue_step h b with ⟨-, u, hu, hslots, -⟩ | ⟨-, hu⟩ | ⟨-, hu⟩
  · rw [hu] at hs
    cases hs
    exact hslots
  · rw [hu] at hs
    cases hs
    exact h
  · rw [hu] at hs
    cases hs

end Calls

/-! ## What is sent -/

section Sent

variable {s t : PreparedStatement Row} {n k : ℕ} {v : ParamValue}

theorem readBytes_cons (c : Option UInt8) (buffer : Chars) (n : ℕ) :
    readBytes (c :: buffer) (n + 1) = c :: readBytes buffer n := by
  rw [readBytes, List.range_succ_eq_map, List.map_cons, List.map_map]
  rfl

theorem strdup_cons (c : UInt8) (v : Bytes) : strdup (c :: v) = if c = 0 then [some 0] else some c :: strdup v := by
  rw [strdup, List.takeWhile_cons]
  by_cases hc : c = 0
  · rw [if_pos hc, if_neg (by simpa using hc)]
    rfl
  · rw [if_neg hc, if_pos (by simpa using hc), List.map_cons, List.cons_append, strdup]

/-- a buffer made by `_strdup` has the bytes of the string, unless a zero byte cuts it off before its last -/
theorem readBytes_strdup (v : Bytes) : readBytes (strdup v) v.length = v.map some ↔ 0 ∉ v.dropLast := by
  induction v with
  | nil => exact iff_of_true rfl List.not_mem_nil
  | cons c v ih =>
    rw [strdup_cons, List.length_cons, List.map_cons]
    by_cases hc : c = 0
    · subst hc
      rw [if_pos rfl, readBytes_cons]
      cases v with
      | nil => exact iff_of_true rfl List.not_mem_nil
      | cons d v =>
        refine iff_of_false ?_ (not_not_intro List.mem_cons_self)
        intro h
        -- there is nothing to be read behind the zero
        have hrest : readBytes [] (v.length + 1) = some d :: v.map some := (List.cons.inj h).2
        rw [readBytes, List.range_succ_eq_map] at hrest
        cases hrest
    · rw [if_neg hc, readBytes_cons, List.cons.injEq, and_iff_right rfl, ih]
      cases v with
      | nil => exact Iff.rfl
      | cons d v => rw [List.dropLast_cons_cons, List.mem_cons, or_iff_right (Ne.symm hc)]

theorem sent_holds (h : Holds s k v) : s.sent[k]? = some (asSent v) ↔ NoInnerZero v := by
  have hsent : s.sent[k]? = some (sentParam s.paramBindData (boundAs k v)) := by
    rw [sent, List.getElem?_map, h.binding, Option.map_some]
  rw [hsent, Option.some_inj]
  cases v with
  | int v => exact iff_of_true (by simp only [sentParam, boundAs, Option.bind_some, h.data]; rfl) trivial
  | string v =>
    have hread : sentParam s.paramBindData (boundAs k (.string v)) = .string (readBytes (strdup v) v.length) := by
      simp only [sentParam, boundAs, Option.bind_some, h.data]
      rfl
    rw [hread, asSent, SentParam.string.injEq, readBytes_strdup]
    rfl

end Sent

/-! ## Rows of calls, from the first to the last -/

section Rows

variable {s t : PreparedStatement Row} {n k : ℕ} {b : Bind} {before binds : List Bind} {v : ParamValue}

theorem lastBound_concat (before : List Bind) (b : Bind) (k : ℕ) :
    lastBound (before ++ [b]) k = if b.1 = k then some b.2 else lastBound before k := by
  rw [lastBound, List.reverse_concat, List.find?_cons]
  by_cases h : b.1 = k
  · rw [decide_eq_true h, if_pos h]
    rfl
  · rw [decide_eq_false h, if_neg h]
    rfl

theorem lastBound_mem (h : lastBound binds k = some v) : (k, v) ∈ binds := by
  obtain ⟨⟨j, w⟩, hfind, rfl⟩ := Option.map_eq_some_iff.1 h
  have hj := List.find?_some hfind
  obtain rfl : j = k := of_decide_eq_true hj
  exact List.mem_reverse.1 (List.mem_of_find?_eq_some hfind)

/-- every call so far was made for a slot or for a place that is too high, and the slots have what was bound last -/
structure Bound (n : ℕ) (before : List Bind) (s : PreparedStatement Row) : Prop where
  slots : Slots n s
  holds : ∀ k < n, ∀ v, lastBound before k = some v → Holds s k v

theorem Bound.step (h : Bound n before s) (hb : b.1 ≠ n) :
    ∃ t ok, s.bindValue b.1 b.2 = some (t, ok) ∧ Bound n (before ++ [b]) t ∧ (ok = true ↔ b.1 < n) ∧
      (ok = true → SameButSlot b.1 s t) ∧ (ok = false → t = s) := by
  rcases bindValue_step h.slots b with ⟨hlt, t, ht, hslots, hsame, hholds⟩ | ⟨hgt, ht⟩ | ⟨heq, -⟩
  · refine ⟨t, true, ht, ⟨hslots, ?_⟩, iff_of_true rfl hlt, fun _ => hsame, nofun⟩
    intro k hk v hv
    rw [lastBound_concat] at hv
    split_ifs at hv with hbk
    · cases hv
      exact hbk ▸ hholds
    · have hold := h.holds k hk v hv
      exact ⟨(hsame.data k (Ne.symm hbk)).trans hold.data, (hsame.bindings k (Ne.symm hbk)).trans hold.binding⟩
  · refine ⟨s, false, ht, ⟨h.slots, ?_⟩, iff_of_false Bool.false_ne_true (Nat.not_lt.2 hgt.le), nofun, fun _ => rfl⟩
    intro k hk v hv
    rw [lastBound_concat, if_neg (by omega)] at hv
    exact h.holds k hk v hv
  · exact absurd heq hb

theorem Bound.run (h : Bound n before s) (hbinds : ∀ b ∈ binds, b.1 ≠ n) :
    ∃ t, Transition.run bindStep s binds = some t ∧ Bound n (before ++ binds) t := by
  induction binds generalizing before s with
  | nil => exact ⟨s, rfl, by rwa [List.append_nil]⟩
  | cons b binds ih =>
    obtain ⟨u, ok, hu, hbound, -⟩ := h.step (hbinds b List.mem_cons_self)
    obtain ⟨t, ht, hlast⟩ := ih hbound fun c hc => hbinds c (List.mem_cons_of_mem b hc)
    refine ⟨t, run_cons_some.2 ⟨u, ?_, ht⟩, by rwa [List.append_cons]⟩
    rw [bindStep, hu, Option.map_some]

end Rows

/-- **Parameters.** After a query is prepared, `bindValue` is called a number of times. The calls keep to the slots and
what is bound last is sent, if and only if no place is the number of slots, and no string that gets a slot has a zero
byte before its last. -/
theorem bindValue_within_iff (s t : PreparedStatement Row) (query : Bytes) (answer : Option (List Field)) (keeps : Bool)
    (binds : List Bind) (hprepare : s.prepare query answer keeps = (t, true)) :
    Within (paramCount query) t binds ↔
      ∀ b ∈ binds, b.1 ≠ paramCount query ∧ (b.1 < paramCount query → NoInnerZero b.2) := by
  have hslots := slots_prepare hprepare
  have hempty : Bound (paramCount query) [] t := ⟨hslots, fun k _ v hv => by cases hv⟩
  refine ⟨?_, ?_⟩
  · intro h b hb
    obtain ⟨before, after, he⟩ := List.append_of_mem hb
    obtain ⟨u, w, ok, hu, hw, -, -, -, hsent⟩ := h before b after he
    have hslots' : Slots (paramCount query) u := run_inv (fun s b s' hs hb => slots_step hs hb) hslots hu
    rcases bindValue_step hslots' b with ⟨hlt, w', hw', -, -, hholds⟩ | ⟨hgt, -⟩ | ⟨-, hnone⟩
    · refine ⟨hlt.ne, fun _ => ?_⟩
      obtain rfl : w = w' := congrArg Prod.fst (Option.some.inj (hw.symm.trans hw'))
      exact (sent_holds hholds).1 (hsent b.1 hlt b.2 (by rw [lastBound_concat, if_pos rfl]))
    · exact ⟨hgt.ne', fun hlt => absurd hlt hgt.le.not_gt⟩
    · rw [hnone] at hw
      cases hw
  · intro h before b after he
    subst he
    have hbefore : ∀ c ∈ before, c.1 ≠ paramCount query := fun c hc => (h c (List.mem_append_left _ hc)).1
    obtain ⟨u, hu, hbound⟩ := hempty.run hbefore
    obtain ⟨w, ok, hw, hbound', hok, hsame, hkept⟩ := hbound.step (h b (List.mem_append_right _ List.mem_cons_self)).1
    refine ⟨u, w, ok, hu, hw, hok, hsame, hkept, ?_⟩
    intro k hk v hv
    refine (sent_holds (hbound'.holds k hk v hv)).2 ?_
    have hmem := lastBound_mem hv
    have hcall : (k, v) ∈ before ++ b :: after := by
      rw [List.append_cons]
      exact List.mem_append_left after hmem
    exact (h (k, v) hcall).2 hk

/-- two values for the one slot of `?`, and a place that is too high -/
theorem bindValue_within_iff_rebound :
    Within 1 ((new true : PreparedStatement Unit).prepare [0x3f] (some []) false).1
      [(0, .int 7), (2, .int 8), (0, .string [0x61, 0x62])] :=
  (bindValue_within_iff (new true : PreparedStatement Unit) _ [0x3f] (some []) false
    [(0, .int 7), (2, .int 8), (0, .string [0x61, 0x62])] rfl).2 (by decide)

/-- **The place behind the slots.** A query without parameters is prepared, and a value is bound to the first one. The
call is not turned down and writes behind the vectors. -/
theorem place_behind_slots :
    ((new true : PreparedStatement Unit).prepare [0x61] (some []) false).2 = true ∧ paramCount [0x61] = 0 ∧
      ((new true : PreparedStatement Unit).prepare [0x61] (some []) false).1.bindValue 0 (.int 1) = none ∧
      ¬ Within 0 ((new true : PreparedStatement Unit).prepare [0x61] (some []) false).1 [(0, .int 1)] := by
  refine ⟨rfl, rfl, rfl, ?_⟩
  intro h
  obtain ⟨t, u, ok, ht, hu, -⟩ := h [] (0, .int 1) [] rfl
  cases ht
  cases hu

end PreparedStatement
end NetFramework
