/-
The overloads of `Log::operator()` (log.h) that put arguments into a message.

What `LogDetails::output` writes for an argument is its text; a format is given by its characters before the zero. The
scans of the overloads with two to nine arguments are one function of the arguments (`formatGroups`). They take every
`%c%` out of the format, whatever character stands between; the overload with one argument takes `%1%` and leaves the
rest.
- `message_eq_reference_iff`: the message is the one in which the placeholders of the arguments, and nothing else, are
  replaced, if and only if there is one argument, or the scan finds no group that does not name an argument.
-/
import NetFramework.Library.Scan
import NetFramework.CoreProto

namespace NetFramework

/-! ## Model -/

namespace Log

/-- `%` -/
abbrev percent : UInt8 := 37

/-- the argument that a placeholder's character names, `1` the first -/
def argText (args : List Bytes) (placeHolder : UInt8) : Option Bytes :=
  if 49 ≤ placeHolder.toNat ∧ placeHolder.toNat ≤ 57 then args[placeHolder.toNat - 49]? else none

/-- the scan of the overloads with more than one argument; for a character that names no argument nothing is written -/
def formatGroups (args : List Bytes) : Bytes → Bytes
  | [] => []
  | [c] => [c]
  | [c, d] => [c, d]
  | c :: placeHolder :: d :: rest =>
    if c = percent ∧ d = percent then (argText args placeHolder).getD [] ++ formatGroups args rest
    else c :: formatGroups args (placeHolder :: d :: rest)

/-- `operator()` with one argument -/
def message1 (t1 : Bytes) : Bytes → Bytes
  | [] => []
  | [c] => [c]
  | [c, d] => [c, d]
  | c :: placeHolder :: d :: rest =>
    if c = percent ∧ placeHolder = 0x31 ∧ d = percent then t1 ++ message1 t1 rest
    else c :: message1 t1 (placeHolder :: d :: rest)

def message2 (t1 t2 : Bytes) : Bytes → Bytes := formatGroups [t1, t2]

def message3 (t1 t2 t3 : Bytes) : Bytes → Bytes := formatGroups [t1, t2, t3]

def message4 (t1 t2 t3 t4 : Bytes) : Bytes → Bytes := formatGroups [t1, t2, t3, t4]

def message5 (t1 t2 t3 t4 t5 : Bytes) : Bytes → Bytes := formatGroups [t1, t2, t3, t4, t5]

def message6 (t1 t2 t3 t4 t5 t6 : Bytes) : Bytes → Bytes := formatGroups [t1, t2, t3, t4, t5, t6]

def message7 (t1 t2 t3 t4 t5 t6 t7 : Bytes) : Bytes → Bytes := formatGroups [t1, t2, t3, t4, t5, t6, t7]

def message8 (t1 t2 t3 t4 t5 t6 t7 t8 : Bytes) : Bytes → Bytes := formatGroups [t1, t2, t3, t4, t5, t6, t7, t8]

def message9 (t1 t2 t3 t4 t5 t6 t7 t8 t9 : Bytes) : Bytes → Bytes :=
  formatGroups [t1, t2, t3, t4, t5, t6, t7, t8, t9]

/-- the message of the overload for these arguments; none if there is no such overload -/
def message (str : Bytes) : List Bytes → Option Bytes
  | [] => some str
  | [t1] => some (message1 t1 str)
  | [t1, t2] => some (message2 t1 t2 str)
  | [t1, t2, t3] => some (message3 t1 t2 t3 str)
  | [t1, t2, t3, t4] => some (message4 t1 t2 t3 t4 str)
  | [t1, t2, t3, t4, t5] => some (message5 t1 t2 t3 t4 t5 str)
  | [t1, t2, t3, t4, t5, t6] => some (message6 t1 t2 t3 t4 t5 t6 str)
  | [t1, t2, t3, t4, t5, t6, t7] => some (message7 t1 t2 t3 t4 t5 t6 t7 str)
  | [t1, t2, t3, t4, t5, t6, t7, t8] => some (message8 t1 t2 t3 t4 t5 t6 t7 t8 str)
  | [t1, t2, t3, t4, t5, t6, t7, t8, t9] => some (message9 t1 t2 t3 t4 t5 t6 t7 t8 t9 str)
  | _ => none

/-- the character of the group at the start of a text, if there is one -/
def groupAt : Bytes → Option UInt8
  | c :: placeHolder :: d :: _ => if c = percent ∧ d = percent then some placeHolder else none
  | _ => none

/-- the characters of the groups of a format, from left to right and without overlap -/
def placeholders : Bytes → List UInt8
  | [] => []
  | [_] => []
  | [_, _] => []
  | c :: placeHolder :: d :: rest =>
    if c = percent ∧ d = percent then placeHolder :: placeholders rest else placeholders (placeHolder :: d :: rest)

/-- a group that names an argument stands for its text -/
def placeholderRule (args : List Bytes) : Scan.Rule UInt8 := fun text =>
  (groupAt text).bind fun placeHolder => (argText args placeHolder).map fun t => (t, 2)

/-- the format with the placeholders of the arguments replaced from left to right -/
def reference (args : List Bytes) (str : Bytes) : Bytes := Scan.rewrite (placeholderRule args) str

/-! ## Groups -/

section Groups

variable {args : List Bytes} {c x : UInt8} {cs rest : Bytes}

theorem argText_percent (args : List Bytes) : argText args percent = none := if_neg (by decide)

theorem groupAt_eq_some {text : Bytes} : groupAt text = some x ↔ ∃ rest, text = percent :: x :: percent :: rest := by
  refine ⟨?_, ?_⟩
  · intro h
    match text with
    | [] => cases h
    | [_] => cases h
    | [_, _] => cases h
    | c :: y :: d :: rest =>
      rw [groupAt] at h
      split_ifs at h with hcd
      obtain rfl : y = x := Option.some.inj h
      exact ⟨rest, by rw [hcd.1, hcd.2]⟩
  · rintro ⟨rest, rfl⟩
    rw [groupAt]
    exact if_pos ⟨rfl, rfl⟩

/-- a text, group by group -/
theorem group_induction {P : Bytes → Prop} (nil : P []) (copy : ∀ c cs, groupAt (c :: cs) = none → P cs → P (c :: cs))
    (group : ∀ x rest, P rest → P (percent :: x :: percent :: rest)) (str : Bytes) : P str := by
  induction str using Scan.scan_induction fun text => (groupAt text).map fun x => ([x], 2) with
  | nil => exact nil
  | copy c cs h ih => exact copy c cs (Option.map_eq_none_iff.1 h) ih
  | found c cs text more h ih =>
    obtain ⟨x, hx, he⟩ := Option.map_eq_some_iff.1 h
    cases he
    obtain ⟨rest, hrest⟩ := groupAt_eq_some.1 hx
    cases hrest
    exact group x rest ih

theorem formatGroups_copy (args : List Bytes) (h : groupAt (c :: cs) = none) :
    formatGroups args (c :: cs) = c :: formatGroups args cs ∧ placeholders (c :: cs) = placeholders cs := by
  match cs with
  | [] => exact ⟨rfl, rfl⟩
  | [d] => exact ⟨rfl, rfl⟩
  | x :: d :: rest =>
    have hgroup : ¬ (c = percent ∧ d = percent) := by
      intro hcd
      rw [groupAt, if_pos hcd] at h
      cases h
    exact ⟨if_neg hgroup, if_neg hgroup⟩

/-- no group begins with the digit of an argument, so it is copied -/
theorem formatGroups_known (h : argText args x ≠ none) (rest : Bytes) :
    formatGroups args (x :: percent :: rest) = x :: formatGroups args (percent :: rest) := by
  refine (formatGroups_copy args ?_).1
  rw [Option.eq_none_iff_forall_ne_some]
  intro y hy
  obtain ⟨more, hmore⟩ := groupAt_eq_some.1 hy
  cases hmore
  exact h (argText_percent args)

theorem formatGroups_group (args : List Bytes) (x : UInt8) (rest : Bytes) :
    formatGroups args (percent :: x :: percent :: rest) = (argText args x).getD [] ++ formatGroups args rest ∧
      placeholders (percent :: x :: percent :: rest) = x :: placeholders rest :=
  ⟨if_pos ⟨rfl, rfl⟩, if_pos ⟨rfl, rfl⟩⟩

theorem reference_copy (h : ∀ y, groupAt (c :: cs) = some y → argText args y = none) :
    reference args (c :: cs) = c :: reference args cs := by
  refine Scan.rewrite_copy ?_
  rw [placeholderRule]
  cases hgroup : groupAt (c :: cs) with
  | none => rfl
  | some y => rw [Option.bind_some, h y hgroup, Option.map_none]

theorem reference_plain (args : List Bytes) (h : groupAt (c :: cs) = none) :
    reference args (c :: cs) = c :: reference args cs := by
  refine reference_copy ?_
  intro y hy
  rw [h] at hy
  cases hy

theorem reference_group {t : Bytes} (h : argText args x = some t) (rest : Bytes) :
    reference args (percent :: x :: percent :: rest) = t ++ reference args rest := by
  have hrule : placeholderRule args (percent :: x :: percent :: rest) = some (t, 2) := by
    rw [placeholderRule, groupAt_eq_some.2 ⟨rest, rfl⟩, Option.bind_some, h, Option.map_some]
  rw [reference, Scan.rewrite_match hrule]
  rfl

/-- the first two characters of a group that names no argument are copied -/
theorem reference_unknown (h : argText args x = none) (rest : Bytes) :
    reference args (percent :: x :: percent :: rest) = percent :: x :: reference args (percent :: rest) := by
  have hfirst : ∀ y, groupAt (percent :: x :: percent :: rest) = some y → argText args y = none := by
    intro y hy
    obtain ⟨more, hmore⟩ := groupAt_eq_some.1 hy
    cases hmore
    exact h
  have hsecond : ∀ y, groupAt (x :: percent :: rest) = some y → argText args y = none := by
    intro y hy
    obtain ⟨more, hmore⟩ := groupAt_eq_some.1 hy
    cases hmore
    exact argText_percent args
  rw [reference_copy hfirst, reference_copy hsecond]

end Groups

/-! ## Messages -/

section Messages

variable {args : List Bytes} {str : Bytes}

/-- a scan that finds only groups of arguments does what the reference does -/
theorem formatGroups_eq (h : ∀ x ∈ placeholders str, argText args x ≠ none) :
    formatGroups args str = reference args str := by
  induction str using group_induction with
  | nil => exact (Scan.rewrite_nil _).symm
  | copy c cs hc ih =>
    rw [(formatGroups_copy args hc).2] at h
    rw [(formatGroups_copy args hc).1, reference_plain args hc, ih h]
  | group x rest ih =>
    rw [(formatGroups_group args x rest).2] at h
    obtain ⟨t, ht⟩ := Option.ne_none_iff_exists'.1 (h x List.mem_cons_self)
    rw [(formatGroups_group args x rest).1, reference_group ht, ht, Option.getD_some,
      ih fun y hy => h y (List.mem_cons_of_mem x hy)]

/-- arguments with the same texts for the groups of a format -/
theorem formatGroups_congr {args' : List Bytes} (h : ∀ x ∈ placeholders str, argText args x = argText args' x) :
    formatGroups args str = formatGroups args' str := by
  induction str using group_induction with
  | nil => rfl
  | copy c cs hc ih =>
    rw [(formatGroups_copy args hc).2] at h
    rw [(formatGroups_copy args hc).1, (formatGroups_copy args' hc).1, ih h]
  | group x rest ih =>
    rw [(formatGroups_group args x rest).2] at h
    rw [(formatGroups_group args x rest).1, (formatGroups_group args' x rest).1, h x List.mem_cons_self,
      ih fun y hy => h y (List.mem_cons_of_mem x hy)]

/-- a word in front of a text moves behind a common beginning, with its characters in another order -/
theorem append_eq_append_comm {t a w b : Bytes} (h : t ++ a = w ++ (t ++ b)) : ∃ w', a = w' ++ b ∧ w'.Perm w := by
  have hlen : t.length ≤ (w ++ t).length := by
    rw [List.length_append]
    exact Nat.le_add_left _ _
  rw [← List.append_assoc] at h
  obtain ⟨w', hw'⟩ : t <+: w ++ t := List.prefix_of_prefix_length_le ⟨a, h⟩ ⟨b, rfl⟩ hlen
  refine ⟨w', ?_, ?_⟩
  · rw [← hw', List.append_assoc] at h
    exact List.append_cancel_left h
  · refine (List.perm_append_left_iff t).1 ?_
    rw [hw']
    exact List.perm_append_comm

/-- **A group that names no argument.** Once the scan has swallowed a group, its message lacks characters (`w`) that the
reference has copied. None of them names an argument, so no group begins in a place that the scan passes over, and no
argument's text can make up for them: the words stay in front, up to their order. -/
theorem formatGroups_ne {w : Bytes} (hw : ∀ x ∈ w, argText args x = none)
    (h : w ≠ [] ∨ ∃ x ∈ placeholders str, argText args x = none) : formatGroups args str ≠ w ++ reference args str := by
  induction str using group_induction generalizing w with
  | nil =>
    rcases h with h | ⟨x, hx, -⟩
    · rw [reference, Scan.rewrite_nil, List.append_nil]
      exact h.symm
    · cases hx
  | copy c cs hc ih =>
    rw [(formatGroups_copy args hc).2] at h
    rw [(formatGroups_copy args hc).1, reference_plain args hc]
    intro he
    cases w with
    | nil => exact ih hw h (List.cons.inj he).2
    | cons d w =>
      obtain ⟨rfl, hrest⟩ := List.cons.inj he
      refine ih (w := w ++ [c]) ?_ (Or.inl (List.append_ne_nil_of_right_ne_nil _ (List.cons_ne_nil _ _))) ?_
      · intro x hx
        refine hw x ?_
        rwa [List.mem_append, List.mem_singleton, or_comm, ← List.mem_cons] at hx
      · rw [List.append_assoc, List.singleton_append]
        exact hrest
  | group x rest ih =>
    rw [(formatGroups_group args x rest).2] at h
    rw [(formatGroups_group args x rest).1]
    cases hx : argText args x with
    | some t =>
      rw [reference_group hx, Option.getD_some]
      intro he
      obtain ⟨w', hw', hperm⟩ := append_eq_append_comm he
      refine ih (fun y hy => hw y (hperm.subset hy)) ?_ hw'
      rcases h with h | ⟨y, hy, hnone⟩
      · exact Or.inl fun hnil => h (hnil ▸ hperm).symm.eq_nil
      · rcases List.mem_cons.1 hy with rfl | hy
        · rw [hx] at hnone
          cases hnone
        · exact Or.inr ⟨y, hy, hnone⟩
    | none =>
      rw [reference_unknown hx, Option.getD_none, List.nil_append]
      intro he
      by_cases hknown : ∃ d more, rest = d :: percent :: more ∧ argText args d ≠ none
      · -- the reference finds an argument here; the scan copies its digit, which is not the next character of `w`
        obtain ⟨d, more, rfl, hd⟩ := hknown
        rw [formatGroups_known hd more] at he
        cases w with
        | nil => exact hd ((List.cons.inj he).1 ▸ argText_percent args)
        | cons e w => exact hd ((List.cons.inj he).1 ▸ hw e List.mem_cons_self)
      · have hnone : ∀ y, groupAt (percent :: rest) = some y → argText args y = none := by
          intro y hy
          obtain ⟨more, hmore⟩ := groupAt_eq_some.1 hy
          by_contra hd
          exact hknown ⟨y, more, (List.cons.inj hmore).2, hd⟩
        rw [reference_copy hnone] at he
        refine ih (w := w ++ [percent, x, percent]) ?_
          (Or.inl (List.append_ne_nil_of_right_ne_nil _ (List.cons_ne_nil _ _))) ?_
        · intro y hy
          rw [List.mem_append, List.mem_cons, List.mem_cons, List.mem_singleton] at hy
          rcases hy with hy | rfl | rfl | rfl
          · exact hw y hy
          · exact argText_percent args
          · exact hx
          · exact argText_percent args
        · rw [List.append_assoc]
          exact he

/-- a placeholder of the arguments is a digit from 1 to their number -/
theorem argText_ne_none_iff (hargs : args.length ≤ 9) {x : UInt8} :
    argText args x ≠ none ↔ 49 ≤ x.toNat ∧ x.toNat < 49 + args.length := by
  rw [argText]
  split_ifs with hdigit
  · rw [ne_eq, List.getElem?_eq_none_iff]
    omega
  · refine ⟨fun h => absurd rfl h, ?_⟩
    intro h
    omega

theorem argText_single (t1 : Bytes) (x : UInt8) : argText [t1] x = if x = 0x31 then some t1 else none := by
  split_ifs with hx
  · subst hx
    rfl
  · have hargs : [t1].length ≤ 9 := Nat.le_add_left 1 8
    rw [← not_ne_iff, argText_ne_none_iff hargs, List.length_singleton]
    intro h
    have hone : x.toNat = (0x31 : UInt8).toNat := Nat.le_antisymm (Nat.le_of_lt_succ h.2) h.1
    exact hx (UInt8.toNat_inj.1 hone)

/-- the overload with one argument does what the reference does, for every format -/
theorem message1_eq (t1 str : Bytes) : message1 t1 str = reference [t1] str := by
  induction hn : str.length using Nat.strong_induction_on generalizing str with
  | _ n ih =>
    subst hn
    have hcopy : ∀ c cs, (∀ y, groupAt (c :: cs) = some y → y ≠ 0x31) →
        reference [t1] (c :: cs) = c :: reference [t1] cs := by
      intro c cs h
      refine reference_copy fun y hy => ?_
      rw [argText_single, if_neg (h y hy)]
    match str with
    | [] => exact (Scan.rewrite_nil _).symm
    | [c] => rw [hcopy c [] nofun, reference, Scan.rewrite_nil, message1]
    | [c, d] => rw [hcopy c [d] nofun, hcopy d [] nofun, reference, Scan.rewrite_nil, message1]
    | c :: x :: d :: rest =>
      by_cases h : c = percent ∧ x = 0x31 ∧ d = percent
      · obtain ⟨rfl, rfl, rfl⟩ := h
        calc message1 t1 (percent :: 0x31 :: percent :: rest)
            = t1 ++ message1 t1 rest := if_pos ⟨rfl, rfl, rfl⟩
          _ = t1 ++ reference [t1] rest := by rw [ih _ (by simp only [List.length_cons]; omega) rest rfl]
          _ = reference [t1] (percent :: 0x31 :: percent :: rest) :=
            (reference_group ((argText_single t1 0x31).trans (if_pos rfl)) rest).symm
      · have hgroup : ∀ y, groupAt (c :: x :: d :: rest) = some y → y ≠ 0x31 := by
          intro y hy hone
          obtain ⟨more, hmore⟩ := groupAt_eq_some.1 hy
          cases hmore
          exact h ⟨rfl, hone, rfl⟩
        rw [hcopy c _ hgroup, message1, if_neg h, ih _ (Nat.lt_succ_self _) _ rfl]

/-- the overloads with more than one argument -/
theorem message_many (str : Bytes) (hmany : 2 ≤ args.length) (hargs : args.length ≤ 9) :
    message str args = some (formatGroups args str) := by
  match args with
  | [] => cases hmany
  | [_] => exact absurd hmany (Nat.not_succ_le_self 1)
  | [_, _] => rfl
  | [_, _, _] => rfl
  | [_, _, _, _] => rfl
  | [_, _, _, _, _] => rfl
  | [_, _, _, _, _, _] => rfl
  | [_, _, _, _, _, _, _] => rfl
  | [_, _, _, _, _, _, _, _] => rfl
  | [_, _, _, _, _, _, _, _, _] => rfl
  | _ :: _ :: _ :: _ :: _ :: _ :: _ :: _ :: _ :: _ :: _ =>
    simp only [List.length_cons] at hargs
    omega

end Messages

/-- **Messages.** With one to nine arguments, the message is the format with the placeholders of the arguments replaced
from left to right and every other character copied, if and only if there is one argument, or every group that the scan
finds in the format names an argument. A format whose groups are all `%1%` gives the same message whatever follows the
first argument. -/
theorem message_eq_reference_iff (str : Bytes) (args : List Bytes) (hone : 1 ≤ args.length) (hargs : args.length ≤ 9) :
    (message str args = some (reference args str) ↔
      args.length = 1 ∨ ∀ x ∈ placeholders str, 49 ≤ x.toNat ∧ x.toNat < 49 + args.length) ∧
      ((∀ x ∈ placeholders str, x = 0x31) → message str args = message str (args.take 1)) := by
  obtain ⟨t1, more, rfl⟩ := List.exists_cons_of_length_pos hone
  have hsingle : message str [t1] = some (reference [t1] str) := congrArg some (message1_eq t1 str)
  cases more with
  | nil => exact ⟨iff_of_true hsingle (Or.inl rfl), fun _ => rfl⟩
  | cons t2 more =>
    have hmany : 2 ≤ (t1 :: t2 :: more).length := Nat.le_add_left 2 more.length
    rw [message_many str hmany hargs]
    refine ⟨?_, ?_⟩
    · rw [Option.some_inj, or_iff_right (by omega)]
      refine ⟨?_, ?_⟩
      · intro he x hx
        rw [← argText_ne_none_iff hargs]
        intro hnone
        exact formatGroups_ne (w := []) (by simp) (Or.inr ⟨x, hx, hnone⟩) he
      · intro h
        exact formatGroups_eq fun x hx => (argText_ne_none_iff hargs).2 (h x hx)
    · intro h
      have hfirst : ∀ x ∈ placeholders str, argText (t1 :: t2 :: more) x = argText [t1] x := by
        intro x hx
        rw [h x hx]
        rfl
      have hknown : ∀ x ∈ placeholders str, argText [t1] x ≠ none := by
        intro x hx
        rw [argText_single, if_pos (h x hx)]
        exact Option.some_ne_none t1
      calc some (formatGroups (t1 :: t2 :: more) str)
          = some (formatGroups [t1] str) := by rw [formatGroups_congr hfirst]
        _ = some (reference [t1] str) := by rw [formatGroups_eq hknown]
        _ = message str [t1] := hsingle.symm

/-- both placeholders of two arguments, and a literal `%` -/
theorem message_eq_reference_iff_two :
    message [0x25, 0x31, 0x25, 0x25, 0x32, 0x25, 0x25] [[0x61], [0x62]] =
      some (reference [[0x61], [0x62]] [0x25, 0x31, 0x25, 0x25, 0x32, 0x25, 0x25]) := by
  have hgroups : placeholders [0x25, 0x31, 0x25, 0x25, 0x32, 0x25, 0x25] = [0x31, 0x32] := rfl
  refine (message_eq_reference_iff [0x25, 0x31, 0x25, 0x25, 0x32, 0x25, 0x25] [[0x61], [0x62]] (by decide)
    (by decide)).1.2 (Or.inr ?_)
  rw [hgroups]
  simp

/-- **A percent sign in front of a placeholder.** In `5% %1%` the overload with two arguments takes `% %` for a group.
The first argument is not in the message, though `%1%` is in the format; the overload with one argument has it there. -/
theorem percent_swallowed :
    message [0x35, 0x25, 0x20, 0x25, 0x31, 0x25] [[0x32, 0x32], [0x33]] = some [0x35, 0x31, 0x25] ∧
      message [0x35, 0x25, 0x20, 0x25, 0x31, 0x25] [[0x32, 0x32]] = some [0x35, 0x25, 0x20, 0x32, 0x32] ∧
      reference [[0x32, 0x32], [0x33]] [0x35, 0x25, 0x20, 0x25, 0x31, 0x25] = [0x35, 0x25, 0x20, 0x32, 0x32] := by
  decide

end Log
end NetFramework
