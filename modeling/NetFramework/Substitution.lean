/-
`replaceInString` of serialisation.cpp as it is written: the string is changed in place, and the search goes on behind
what was put in.

`replaceLoop` of Token.lean goes over a text that is already cut at the place where the search is. Here a state is the
string and `pos`; `replace_runs` is what the loop does from any of its states. The end is that of the pass which
replaces the occurrences from left to right (`substitute`), also when the replacement contains the text searched for:
- `replaceInString_substitutes`: the loop ends; the result differs from the subject in the occurrences and nowhere else;
  an escaped text has a backslash before each quote, and is the original without them.
-/
import NetFramework.Library.Loop
import NetFramework.Library.Scan
import NetFramework.Token

namespace NetFramework

open Loop

/-! ## Model -/

/-- the variables of the loop -/
structure ReplaceState where
  subject : Bytes
  pos : ℕ
deriving DecidableEq, Repr

/-- `subject.find(search, pos)`; none is `npos` -/
def findFrom (subject search : Bytes) (pos : ℕ) : Option ℕ :=
  (List.range' pos (subject.length + 1 - pos)).find? fun i => search.isPrefixOf (subject.drop i)

/-- `subject.replace(pos, n, text)` -/
def replaceAt (subject : Bytes) (pos n : ℕ) (text : Bytes) : Except StdException Bytes :=
  if pos ≤ subject.length then .ok (subject.take pos ++ text ++ subject.drop (pos + n)) else .error .outOfRange

/-- the condition of the loop -/
def ReplaceGuard (search : Bytes) (s : ReplaceState) : Prop := findFrom s.subject search s.pos ≠ none

/-- the body of the loop; `pos` is assigned in the condition -/
def replaceBody (search replace : Bytes) (s : ReplaceState) : Except StdException ReplaceState := do
  let pos := (findFrom s.subject search s.pos).getD s.pos
  let subject ← replaceAt s.subject pos search.length replace
  return ⟨subject, pos + replace.length⟩

/-- an occurrence of `search` at the start of a text is replaced -/
def searchRule (search replace : Bytes) : Scan.Rule UInt8 := fun text =>
  if search.isPrefixOf text then some (replace, search.length - 1) else none

/-- the occurrences of `search`, from left to right and without overlap, replaced -/
def substitute (search replace subject : Bytes) : Bytes := Scan.rewrite (searchRule search replace) subject

/-- `subject` falls into parts with `search` behind each but the last, and `result` into the same parts with `replace`
behind each. Every occurrence is the leftmost one behind that before it, and the last part has none. -/
def IsSubstitution (search replace subject result : Bytes) : Prop :=
  ∃ (parts : List Bytes) (last : Bytes),
    subject = (parts.flatMap fun part => part ++ search) ++ last ∧
      result = (parts.flatMap fun part => part ++ replace) ++ last ∧
      (∀ part ∈ parts, ∀ i < part.length, ¬ search <+: (part ++ search).drop i) ∧ ¬ search <:+: last

/-- a text without the backslashes that stand directly before a quote -/
def unescape : Bytes → Bytes
  | [] => []
  | c :: cs => if c = backslash ∧ cs.head? = some quote then unescape cs else c :: unescape cs

/-! ## The first occurrence -/

section Find

variable {search replace : Bytes}

theorem find_some {todo before after : Bytes} (h : find search todo = some (before, after)) :
    todo = before ++ search ++ after ∧ ∀ i < before.length, ¬ search <+: todo.drop i := by
  induction todo generalizing before with
  | nil =>
    rw [find] at h
    split_ifs at h with hnil
    cases h
    exact ⟨by rw [hnil]; rfl, fun i hi => absurd hi (Nat.not_lt_zero i)⟩
  | cons c cs ih =>
    rw [find] at h
    split_ifs at h with hstart
    · cases h
      refine ⟨?_, fun i hi => absurd hi (Nat.not_lt_zero i)⟩
      rw [List.nil_append]
      exact List.prefix_append_drop (List.isPrefixOf_iff_prefix.1 hstart)
    · obtain ⟨⟨b, a⟩, hfind, he⟩ := Option.map_eq_some_iff.1 h
      cases he
      obtain ⟨hcs, hleft⟩ := ih hfind
      refine ⟨by rw [hcs]; rfl, ?_⟩
      intro i hi
      cases i with
      | zero => exact fun hp => hstart (List.isPrefixOf_iff_prefix.2 hp)
      | succ i => exact hleft i (Nat.lt_of_succ_lt_succ hi)

theorem find_none {todo : Bytes} (hsearch : search ≠ []) (h : find search todo = none) (i : ℕ) :
    ¬ search <+: todo.drop i := by
  induction todo generalizing i with
  | nil =>
    rw [List.drop_nil, List.prefix_nil]
    exact hsearch
  | cons c cs ih =>
    rw [find] at h
    split_ifs at h with hstart
    cases i with
    | zero => exact fun hp => hstart (List.isPrefixOf_iff_prefix.2 hp)
    | succ i => exact ih (Option.map_eq_none_iff.1 h) i

/-- a text, by its occurrences of `search` from left to right -/
theorem find_induction (hsearch : search ≠ []) {P : Bytes → Prop} (last : ∀ todo, find search todo = none → P todo)
    (found : ∀ before after, find search (before ++ search ++ after) = some (before, after) → P after →
      P (before ++ search ++ after)) (todo : Bytes) : P todo := by
  induction hn : todo.length using Nat.strong_induction_on generalizing todo with
  | _ n ih =>
    subst hn
    cases h : find search todo with
    | none => exact last todo h
    | some r =>
      obtain ⟨before, after⟩ := r
      obtain ⟨rfl, -⟩ := find_some h
      have hpos := List.length_pos_of_ne_nil hsearch
      have hlt : after.length < (before ++ search ++ after).length := by
        rw [List.length_append, List.length_append]
        omega
      exact found before after h (ih _ hlt after rfl)

/-- the search from `pos` on is one in the text from there on -/
theorem findFrom_eq (hsearch : search ≠ []) (done todo : Bytes) :
    findFrom (done ++ todo) search done.length = (find search todo).map fun r => done.length + r.1.length := by
  have hdrop : ∀ i, (done ++ todo).drop (done.length + i) = todo.drop i := List.drop_length_add_append
  have hrange : (done ++ todo).length + 1 - done.length = todo.length + 1 := by
    rw [List.length_append]
    omega
  rw [findFrom, hrange]
  cases h : find search todo with
  | none =>
    rw [Option.map_none, List.find?_eq_none]
    intro i hi
    obtain ⟨j, -, rfl⟩ := List.mem_range'.1 hi
    rw [one_mul, hdrop, List.isPrefixOf_iff_prefix]
    exact find_none hsearch h j
  | some r =>
    obtain ⟨before, after⟩ := r
    obtain ⟨rfl, hleft⟩ := find_some h
    have hfirst : (before ++ search ++ after).drop before.length = search ++ after := by
      rw [List.append_assoc, List.drop_left]
    rw [Option.map_some, List.find?_range'_eq_some, hdrop, hfirst, List.isPrefixOf_iff_prefix]
    refine ⟨List.prefix_append search after, ?_, ?_⟩
    · rw [List.mem_range'_1]
      simp only [List.length_append]
      omega
    · intro j hj hlt
      obtain ⟨i, rfl⟩ := Nat.exists_eq_add_of_le hj
      rw [hdrop, Bool.not_eq_true', Bool.eq_false_iff, ne_eq, List.isPrefixOf_iff_prefix]
      exact hleft i (by simpa using hlt)

end Find

/-! ## The substitution -/

section Substitute

variable {search replace : Bytes}

theorem substitute_last {todo : Bytes} (hsearch : search ≠ []) (h : find search todo = none) :
    substitute search replace todo = todo := by
  have hnone : ∀ i < todo.length, searchRule search replace ((todo ++ []).drop i) = none := by
    intro i _
    rw [List.append_nil, searchRule, if_neg]
    rw [List.isPrefixOf_iff_prefix]
    exact find_none hsearch h i
  calc substitute search replace todo
      = Scan.rewrite (searchRule search replace) (todo ++ []) := by rw [List.append_nil, substitute]
    _ = todo ++ Scan.rewrite (searchRule search replace) [] := Scan.rewrite_append hnone
    _ = todo := by rw [Scan.rewrite_nil, List.append_nil]

theorem substitute_found {before after : Bytes} (hsearch : search ≠ [])
    (h : find search (before ++ search ++ after) = some (before, after)) :
    substitute search replace (before ++ search ++ after) = before ++ replace ++ substitute search replace after := by
  have hnone : ∀ i < before.length, searchRule search replace ((before ++ (search ++ after)).drop i) = none := by
    intro i hi
    rw [← List.append_assoc, searchRule, if_neg]
    rw [List.isPrefixOf_iff_prefix]
    exact (find_some h).2 i hi
  obtain ⟨c, cs, rfl⟩ := List.exists_cons_of_ne_nil hsearch
  have hmatch : searchRule (c :: cs) replace (c :: (cs ++ after)) = some (replace, cs.length) :=
    if_pos (List.isPrefixOf_iff_prefix.2 (List.prefix_append (c :: cs) after))
  calc substitute (c :: cs) replace (before ++ (c :: cs) ++ after)
      = before ++ Scan.rewrite (searchRule (c :: cs) replace) (c :: (cs ++ after)) := by
        rw [List.append_assoc, substitute]
        exact Scan.rewrite_append hnone
    _ = before ++ replace ++ substitute (c :: cs) replace after := by
        rw [Scan.rewrite_match hmatch, List.drop_left, List.append_assoc, substitute]

theorem isSubstitution_substitute (hsearch : search ≠ []) (replace subject : Bytes) :
    IsSubstitution search replace subject (substitute search replace subject) := by
  induction subject using find_induction hsearch with
  | last todo h =>
    refine ⟨[], todo, rfl, substitute_last hsearch h, nofun, ?_⟩
    rintro ⟨before, after, rfl⟩
    refine find_none hsearch h before.length ?_
    rw [List.append_assoc, List.drop_left]
    exact List.prefix_append search after
  | found before after h ih =>
    obtain ⟨parts, last, hsubject, hresult, hparts, hlast⟩ := ih
    refine ⟨before :: parts, last, ?_, ?_, ?_, hlast⟩
    · rw [List.flatMap_cons, List.append_assoc (before ++ search), ← hsubject]
    · rw [List.flatMap_cons, List.append_assoc (before ++ replace), ← hresult, substitute_found hsearch h]
    · intro part hpart
      rcases List.mem_cons.1 hpart with rfl | hpart
      · intro i hi hstart
        refine (find_some h).2 i hi (hstart.trans ?_)
        have hle : i ≤ (part ++ search).length := by
          rw [List.length_append]
          omega
        rw [List.drop_append_of_le_length hle]
        exact List.prefix_append _ after
      · exact hparts part hpart

/-! ## The loop -/

/-- **A round.** The leftmost occurrence behind `pos` is replaced, and `pos` is behind the replacement. -/
theorem replaceBody_found {before after : Bytes} (hsearch : search ≠ []) (done : Bytes)
    (h : find search (before ++ search ++ after) = some (before, after)) :
    replaceBody search replace ⟨done ++ (before ++ search ++ after), done.length⟩ =
      .ok ⟨done ++ before ++ replace ++ after, (done ++ before ++ replace).length⟩ := by
  have hfind : findFrom (done ++ (before ++ search ++ after)) search done.length = some (done ++ before).length := by
    rw [findFrom_eq hsearch, h, Option.map_some, List.length_append]
  have hsplit : done ++ (before ++ search ++ after) = (done ++ before) ++ (search ++ after) := by
    simp only [List.append_assoc]
  have hreplace : replaceAt (done ++ (before ++ search ++ after)) (done ++ before).length search.length replace =
      .ok (done ++ before ++ replace ++ after) := by
    have hle : (done ++ before).length ≤ ((done ++ before) ++ (search ++ after)).length := by
      simp only [List.length_append]
      omega
    rw [hsplit, replaceAt, if_pos hle, List.take_left, List.drop_length_add_append, List.drop_left]
  have hpos : (done ++ before ++ replace).length = (done ++ before).length + replace.length := List.length_append
  simp only [replaceBody, hfind, Option.getD_some, hreplace, hpos]
  rfl

/-- **The loop.** It goes on from the text that it has done; each round takes one occurrence out of the rest. -/
theorem replace_runs (hsearch : search ≠ []) (replace done todo : Bytes) :
    ∃ n pos, Runs (ReplaceGuard search) (replaceBody search replace) n ⟨done ++ todo, done.length⟩
        (.ok ⟨done ++ substitute search replace todo, pos⟩) ∧ n ≤ todo.length := by
  induction todo using find_induction hsearch generalizing done with
  | last todo h =>
    refine ⟨0, done.length, ?_, Nat.zero_le _⟩
    rw [substitute_last hsearch h]
    refine Runs.stop ?_
    rw [ReplaceGuard, findFrom_eq hsearch, h, not_not]
    rfl
  | found before after h ih =>
    obtain ⟨n, pos, hrun, hn⟩ := ih (done ++ before ++ replace)
    refine ⟨n + 1, pos, ?_, ?_⟩
    · have hguard : ReplaceGuard search ⟨done ++ (before ++ search ++ after), done.length⟩ := by
        rw [ReplaceGuard, findFrom_eq hsearch, h]
        exact Option.some_ne_none _
      have hresult : done ++ substitute search replace (before ++ search ++ after) =
          done ++ before ++ replace ++ substitute search replace after := by
        rw [substitute_found hsearch h]
        simp only [List.append_assoc]
      rw [hresult]
      exact Runs.round hguard (replaceBody_found hsearch done h) hrun
    · have hpos := List.length_pos_of_ne_nil hsearch
      rw [List.length_append, List.length_append]
      omega

/-- the loop of Token.lean ends with the same text -/
theorem replaceLoop_eq (hsearch : search ≠ []) (replace todo : Bytes) {fuel : ℕ} (done : Bytes)
    (hfuel : todo.length < fuel) : replaceLoop search replace fuel done todo = done ++ substitute search replace todo := by
  induction todo using find_induction hsearch generalizing fuel done with
  | last todo h =>
    obtain ⟨fuel, rfl⟩ := Nat.exists_eq_add_of_lt hfuel
    rw [replaceLoop, h, substitute_last hsearch h]
  | found before after h ih =>
    cases fuel with
    | zero => exact absurd hfuel (Nat.not_lt_zero _)
    | succ fuel =>
      have hpos := List.length_pos_of_ne_nil hsearch
      have hless : after.length < fuel := by
        rw [List.length_append, List.length_append] at hfuel
        omega
      rw [replaceLoop, h, substitute_found hsearch h]
      simp only
      rw [ih _ hless]
      simp only [List.append_assoc]

theorem replaceInString_eq (hsearch : search ≠ []) (replace subject : Bytes) :
    replaceInString subject search replace = substitute search replace subject := by
  rw [replaceInString, replaceLoop_eq hsearch replace subject [] (Nat.lt_succ_self _), List.nil_append]

end Substitute

/-! ## Escaped texts -/

/-- what `serialize` writes between the quotes -/
theorem replaceInString_quote (str : Bytes) : replaceInString str [quote] [backslash, quote] = escape str := by
  rw [replaceInString, replaceLoop_quote [] (Nat.lt_succ_self _), List.nil_append]

/-- a quote in an escaped text is not the first character, and the one before it is a backslash -/
theorem escape_quote {str : Bytes} {i : ℕ} (h : (escape str)[i]? = some quote) :
    ∃ j, i = j + 1 ∧ (escape str)[j]? = some backslash := by
  induction str generalizing i with
  | nil => cases h
  | cons c str ih =>
    rw [escape_cons] at h ⊢
    by_cases hc : c = quote
    · rw [if_pos hc] at h ⊢
      match i with
      | 0 => cases h
      | 1 => exact ⟨0, rfl, rfl⟩
      | i + 2 =>
        obtain ⟨j, rfl, hj⟩ := ih h
        exact ⟨j + 2, rfl, hj⟩
    · rw [if_neg hc] at h ⊢
      match i with
      | 0 => exact absurd (Option.some.inj h) hc
      | i + 1 =>
        obtain ⟨j, rfl, hj⟩ := ih h
        exact ⟨j + 1, rfl, hj⟩

theorem unescape_escape (str : Bytes) : unescape (escape str) = str := by
  induction str with
  | nil => rfl
  | cons c str ih =>
    rw [escape_cons]
    by_cases hc : c = quote
    · subst hc
      calc unescape ([backslash, quote] ++ escape str)
          = unescape (quote :: escape str) := if_pos ⟨rfl, rfl⟩
        _ = quote :: unescape (escape str) := if_neg fun h => absurd h.1 (by decide)
        _ = quote :: str := by rw [ih]
    · rw [if_neg hc, List.singleton_append, unescape, ih, if_neg]
      -- an escaped text does not begin with a quote
      rintro ⟨-, hhead⟩
      rw [List.head?_eq_getElem?] at hhead
      obtain ⟨j, hj, -⟩ := escape_quote hhead
      cases hj

/-- **Substitution.** Whatever is put in for a text that is not empty, the loop ends, and the string is then the subject
with the occurrences of the text replaced from left to right. In an escaped string every quote has a backslash directly
before it; without these it is the string itself. -/
theorem replaceInString_substitutes (subject search replace str : Bytes) (hsearch : search ≠ []) :
    (∃ n pos, Runs (ReplaceGuard search) (replaceBody search replace) n ⟨subject, 0⟩
        (.ok ⟨replaceInString subject search replace, pos⟩)) ∧
      IsSubstitution search replace subject (replaceInString subject search replace) ∧
      (∀ i, (replaceInString str [quote] [backslash, quote])[i]? = some quote →
        ∃ j, i = j + 1 ∧ (replaceInString str [quote] [backslash, quote])[j]? = some backslash) ∧
      unescape (replaceInString str [quote] [backslash, quote]) = str := by
  rw [replaceInString_eq hsearch, replaceInString_quote]
  refine ⟨?_, isSubstitution_substitute hsearch replace subject, fun i hi => escape_quote hi, unescape_escape str⟩
  obtain ⟨n, pos, hrun, -⟩ := replace_runs hsearch replace [] subject
  exact ⟨n, pos, hrun⟩

/-- the quotes of `a"b"` get their backslashes -/
theorem replaceInString_substitutes_quotes :
    (∃ n pos, Runs (ReplaceGuard [quote]) (replaceBody [quote] [backslash, quote]) n ⟨[0x61, quote, 0x62, quote], 0⟩
        (.ok ⟨[0x61, backslash, quote, 0x62, backslash, quote], pos⟩)) ∧
      unescape [0x61, backslash, quote, 0x62, backslash, quote] = [0x61, quote, 0x62, quote] := by
  have h := replaceInString_substitutes [0x61, quote, 0x62, quote] [quote] [backslash, quote]
    [0x61, quote, 0x62, quote] (List.cons_ne_nil _ _)
  exact ⟨h.1, h.2.2.2⟩

end NetFramework
