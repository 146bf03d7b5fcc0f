/-
The file that `Log::log` of log.cpp appends to, with several threads that log. A call puts its record into the file with
two calls of `fputs`: the header and the message, then the end of line. Each of them holds the lock of the file, and
nothing holds it from the one to the other.

- `log_steps`: a call that no other comes between appends what `log` gives.
- `log_lines_iff`: when no call is running, the file is the records, each with its end of line, in the order in which they
  were begun, if and only if no call began while another one was running. Where no path and no message has an end of line
  of its own, the records are the lines of the file.
Otherwise two records, or more, stand behind each other without an end of line.
-/
import NetFramework.Library.Transition
import NetFramework.LogHeader

namespace NetFramework
namespace Log

open Transition

/-! ## Model -/

abbrev newline : UInt8 := 10

/-- what a call of `log` is given, with the time and the thread -/
structure LogCall where
  level : ℤ
  file : Bytes
  line : ℤ
  time : LocalTime
  threadId : UInt64
  msgContent : Bytes
  file_zero : 0 ∉ file

/-- `msg.c_str()`, which the first `fputs` is given -/
def LogCall.text (r : LogCall) : Option Bytes := do
  let pos ← header r.level r.file r.line r.time r.threadId
  return (pos.area ++ r.msgContent).takeWhile fun c => c ≠ 0

/-- what has been appended to the file; `writing` are the threads between the two calls of `fputs` -/
structure LogFile (κ : Type) where
  content : Bytes
  writing : κ → Bool

/-- the two calls of `fputs` in a call of `log` by the thread `t` -/
inductive LogOp (κ : Type) where
  | message (t : κ) (r : LogCall)
  | endOfLine (t : κ)

namespace LogFile

variable {κ : Type} [DecidableEq κ]

def new : LogFile κ := ⟨[], fun _ => false⟩

def step (s : LogFile κ) : LogOp κ → Option (LogFile κ)
  | .message t r =>
    if s.writing t then none
    else r.text.map fun text => ⟨s.content ++ text, Function.update s.writing t true⟩
  | .endOfLine t =>
    if s.writing t then some ⟨s.content ++ [newline], Function.update s.writing t false⟩ else none

/-! ## What a log is for -/

/-- the records that were begun -/
def records (ops : List (LogOp κ)) : List LogCall :=
  ops.filterMap fun o => match o with
    | .message _ r => some r
    | .endOfLine _ => none

/-- no call begins while another one is running -/
def Exclusive (s : LogFile κ) : LogOp κ → Prop
  | .message _ _ => ∀ u, s.writing u = false
  | .endOfLine _ => True

instance [Fintype κ] (s : LogFile κ) (o : LogOp κ) : Decidable (s.Exclusive o) := by
  unfold Exclusive; split <;> infer_instance

end LogFile

/-- the line of a record -/
def LogCall.written (r : LogCall) : Bytes :=
  ((slots r.level r.file r.line r.time r.threadId).map Slot.written).flatten ++ r.msgContent.takeWhile fun c => c ≠ 0

/-- no end of line of its own -/
def LogCall.OneLine (r : LogCall) : Prop := newline ∉ r.file ∧ newline ∉ r.msgContent

/-- each record with its end of line -/
def lines (closed : List LogCall) : Bytes := (closed.map fun r => r.written ++ [newline]).flatten

/-! ## A record -/

section LogCall

variable {pad c : UInt8}

theorem text_eq (r : LogCall) : r.text = some r.written := by
  have hline : log true r.level r.file r.line r.time r.threadId r.msgContent = some (r.written ++ [newline]) :=
    log_line r.file_zero r.msgContent
  rw [log, if_pos rfl, Option.bind_eq_bind] at hline
  obtain ⟨pos, hpos, htext⟩ := Option.bind_eq_some_iff.1 hline
  rw [LogCall.text, hpos]
  exact congrArg some (List.append_cancel_right (Option.some.inj htext))

theorem digitChar_ne_newline (number : ℤ) : newline ≠ digitChar (number.tmod 10) := by
  have hlt := Int.tmod_lt_of_pos number (b := 10) (by decide)
  have hneg := Int.lt_tmod_of_pos number (b := 10) (by decide)
  intro h
  have hnat := congrArg UInt8.toNat h
  have hten : newline.toNat = 10 := rfl
  rw [digitChar, UInt8.toNat_ofNat', hten] at hnat
  omega

theorem newline_padReverse (hpad : newline ≠ pad) (width : ℕ) (later : Bool) (number : ℤ) :
    newline ∉ padReverse pad width later number := by
  induction width generalizing later number with
  | zero => exact List.not_mem_nil
  | succ width ih =>
    rw [padReverse]
    split_ifs
    · exact List.not_mem_cons_of_ne_of_not_mem hpad (ih true number)
    · exact List.not_mem_cons_of_ne_of_not_mem (digitChar_ne_newline number) (ih true _)

/-- a number's field, and the file's name -/
theorem newline_number (hpad : newline ≠ pad) (n : ℤ) (width : ℕ) : newline ∉ (Slot.number n width pad).written :=
  fun h => newline_padReverse hpad width false n (List.mem_reverse.1 h)

theorem newline_file {filePath : Bytes} (h : newline ∉ filePath) : newline ∉ (Slot.file filePath).written := by
  intro hmem
  rcases List.mem_append.1 hmem with hmem | hmem
  · exact h (List.drop_subset _ _ (List.take_subset _ _ hmem))
  · cases List.eq_of_mem_replicate hmem

/-- a record begins with the year, and so with no end of line -/
theorem written_head (r : LogCall) : ∃ c cs, r.written = c :: cs ∧ c ≠ newline := by
  have hyear : newline ∉ (Slot.number (1900 + r.time.tm_year) 4 blank).written := newline_number (by decide) _ _
  have hlength := length_written (.number (1900 + r.time.tm_year) 4 blank)
  obtain ⟨c, cs, hc⟩ := List.exists_cons_of_ne_nil (List.ne_nil_of_length_eq_add_one hlength)
  have hfirst : ∃ more, r.written = c :: more := by
    rw [LogCall.written, slots, List.map_cons, List.flatten_cons, hc]
    exact ⟨_, rfl⟩
  obtain ⟨more, hmore⟩ := hfirst
  refine ⟨c, more, hmore, ?_⟩
  rintro rfl
  exact hyear (hc ▸ List.mem_cons_self)

theorem newline_slots {r : LogCall} (h : newline ∉ r.file) :
    ∀ slot ∈ slots r.level r.file r.line r.time r.threadId, newline ∉ slot.written := by
  have hblank : ∀ n width, newline ∉ (Slot.number n width blank).written := newline_number (by decide)
  have hzero : ∀ n width, newline ∉ (Slot.number n width zeroDigit).written := newline_number (by decide)
  have htext : ∀ c : UInt8, newline ≠ c → newline ∉ (Slot.text [c]).written :=
    fun c hc hmem => hc (List.mem_singleton.1 hmem)
  have hfile := newline_file h
  simp only [slots, List.forall_mem_cons, hblank, hzero, hfile, not_false_eq_true, true_and, List.not_mem_nil,
    false_implies, implies_true, and_true]
  exact ⟨htext _ (by decide), htext _ (by decide), htext _ (by decide), htext _ (by decide), htext _ (by decide),
    htext _ (by decide), htext _ (by decide), htext _ (by decide), htext _ (by decide), htext _ (by decide),
    htext _ (by decide), htext _ (by decide), htext _ (by decide)⟩

theorem newline_written {r : LogCall} (hr : r.OneLine) : newline ∉ r.written := by
  intro h
  rcases List.mem_append.1 h with h | h
  · obtain ⟨text, htext, hmem⟩ := List.mem_flatten.1 h
    obtain ⟨slot, hslot, rfl⟩ := List.mem_map.1 htext
    exact newline_slots hr.1 slot hslot hmem
  · exact hr.2 (List.takeWhile_subset _ h)

end LogCall

/-! ## Lines -/

theorem lines_intercalate (closed : List LogCall) :
    lines closed = [newline].intercalate (closed.map LogCall.written ++ [[]]) := by
  induction closed with
  | nil => rfl
  | cons r closed ih =>
    have hne : closed.map LogCall.written ++ [[]] ≠ [] := by simp
    obtain ⟨next, rest, hrest⟩ := List.exists_cons_of_ne_nil hne
    have hlines : lines (r :: closed) = r.written ++ newline :: lines closed := by simp [lines]
    rw [hlines, ih, List.map_cons, List.cons_append, hrest]
    simp [List.intercalate]

/-- records that are lines are the lines of the file if they are all that is in it -/
theorem splitOn_lines_iff {closed : List LogCall} (h : ∀ r ∈ closed, r.OneLine) (content : Bytes) :
    content.splitOn newline = closed.map LogCall.written ++ [[]] ↔ content = lines closed := by
  have hplain : ∀ text ∈ closed.map LogCall.written ++ [[]], newline ∉ text := by
    intro text htext
    rcases List.mem_append.1 htext with htext | htext
    · obtain ⟨r, hr, rfl⟩ := List.mem_map.1 htext
      exact newline_written (h r hr)
    · rw [List.mem_singleton.1 htext]
      exact List.not_mem_nil
  rw [lines_intercalate]
  refine ⟨?_, ?_⟩
  · intro hsplit
    rw [← hsplit, List.intercalate_splitOn]
  · rintro rfl
    exact List.splitOn_intercalate newline hplain (by simp)

theorem lines_concat (closed : List LogCall) (r : LogCall) :
    lines (closed ++ [r]) = lines closed ++ r.written ++ [newline] := by simp [lines]

/-- two records with no end of line between them -/
theorem joined_ne (closed later : List LogCall) (r r' : LogCall) (more : Bytes) :
    lines closed ++ r.written ++ (r'.written ++ more) ≠ lines (closed ++ r :: later) := by
  have hlines : lines (closed ++ r :: later) = lines closed ++ r.written ++ newline :: lines later := by simp [lines]
  obtain ⟨c, cs, hc, hne⟩ := written_head r'
  rw [hlines, hc]
  intro h
  exact hne (List.cons.inj (List.append_cancel_left h)).1

/-! ## Runs -/

namespace LogFile

variable {κ : Type} [DecidableEq κ] {s s' : LogFile κ} {o : LogOp κ} {hist ops : List (LogOp κ)}

omit [DecidableEq κ] in
theorem records_append (a b : List (LogOp κ)) : records (a ++ b) = records a ++ records b := List.filterMap_append

/-- no call is running, or one is, whose record is the last and has no end of line yet -/
inductive Tidy (hist : List (LogOp κ)) (s : LogFile κ) : Prop where
  | idle (hwriting : ∀ u, s.writing u = false) (hcontent : s.content = lines (records hist))
  | running (t : κ) (closed : List LogCall) (r : LogCall) (hwriting : ∀ u, s.writing u = true ↔ u = t)
      (hrecords : records hist = closed ++ [r]) (hcontent : s.content = lines closed ++ r.written)

theorem step_content (h : s.step o = some s') : s.content <+: s'.content := by
  cases o with
  | message t r =>
    simp only [step] at h
    split_ifs at h
    obtain ⟨text, -, rfl⟩ := Option.map_eq_some_iff.1 h
    exact List.prefix_append _ _
  | endOfLine t =>
    simp only [step] at h
    split_ifs at h
    cases h
    exact List.prefix_append _ _

theorem run_content (h : run step s ops = some s') : s.content <+: s'.content := by
  have hstep : ∀ (t : LogFile κ) o t', s.content <+: t.content → step t o = some t' → s.content <+: t'.content :=
    fun _ _ _ hs ho => hs.trans (step_content ho)
  exact run_inv hstep List.prefix_rfl h

theorem step_message {t : κ} {r : LogCall} (h : s.step (.message t r) = some s') :
    s.writing t = false ∧ s' = ⟨s.content ++ r.written, Function.update s.writing t true⟩ := by
  simp only [step, text_eq, Option.map_some] at h
  split_ifs at h with ht
  exact ⟨Bool.eq_false_of_not_eq_true ht, (Option.some.inj h).symm⟩

theorem step_endOfLine {t : κ} (h : s.step (.endOfLine t) = some s') :
    s.writing t = true ∧ s' = ⟨s.content ++ [newline], Function.update s.writing t false⟩ := by
  simp only [step] at h
  split_ifs at h with ht
  exact ⟨ht, (Option.some.inj h).symm⟩

/-- **A step.** -/
theorem step_tidy (hi : Tidy hist s) (hG : s.Exclusive o) (h : s.step o = some s') : Tidy (hist ++ [o]) s' := by
  cases o with
  | message t r =>
    obtain ⟨-, rfl⟩ := step_message h
    have hrecords : records (hist ++ [.message t r]) = records hist ++ [r] := records_append _ _
    cases hi with
    | idle hwriting hcontent =>
      refine .running t (records hist) r ?_ hrecords (by rw [hcontent])
      intro u
      by_cases hu : u = t
      · simp [hu]
      · simp [hu, hwriting u]
    | running t' closed r' hwriting _ _ => exact absurd (hG t') (by simp [hwriting])
  | endOfLine t =>
    obtain ⟨ht, rfl⟩ := step_endOfLine h
    have hrecords : records (hist ++ [.endOfLine t]) = records hist := by
      rw [records_append]
      exact List.append_nil _
    cases hi with
    | idle hwriting _ => exact absurd ht (by simp [hwriting])
    | running t' closed r hwriting hlast hcontent =>
      obtain rfl := (hwriting t).1 ht
      refine .idle ?_ ?_
      · intro u
        by_cases hu : u = t
        · simp [hu]
        · simpa [hu] using mt (hwriting u).1 hu
      · rw [hrecords, hlast, lines_concat, hcontent]

theorem run_tidy (hG : Along step Exclusive new ops) (h : run step new ops = some s) : Tidy ops s := by
  have hi : Tidy ([] ++ ops) s :=
    run_inv_hist_along (fun _ _ _ _ => step_tidy) (.idle (fun _ => rfl) rfl) hG h
  exact hi

/-- a call that no other comes between appends what `log` gives -/
theorem log_steps (t : κ) (r : LogCall) (ht : s.writing t = false) :
    ∃ u text, run step s [.message t r, .endOfLine t] = some u ∧
      log true r.level r.file r.line r.time r.threadId r.msgContent = some text ∧ u.content = s.content ++ text := by
  have hline : log true r.level r.file r.line r.time r.threadId r.msgContent = some (r.written ++ [newline]) :=
    log_line r.file_zero r.msgContent
  refine ⟨⟨s.content ++ r.written ++ [newline], Function.update (Function.update s.writing t true) t false⟩, _, ?_, hline,
    List.append_assoc _ _ _⟩
  simp [run, step, ht, text_eq]

/-- the records are in the file, each with its end of line, if and only if they were not begun too early -/
theorem log_content_iff (ops : List (LogOp κ)) (fin : LogFile κ) (h : run step new ops = some fin)
    (hidle : ∀ u, fin.writing u = false) : fin.content = lines (records ops) ↔ Along step Exclusive new ops := by
  refine ⟨?_, ?_⟩
  · intro hlines
    rcases along_or_first (G := Exclusive) h with hG | ⟨a, o, b, u, v, rfl, ha, hG, hv, hshared, hb⟩
    · exact hG
    · exfalso
      cases o with
      | endOfLine t => exact hshared trivial
      | message t r' =>
        obtain ⟨-, rfl⟩ := step_message hv
        cases run_tidy hG ha with
        | idle hwriting _ => exact hshared hwriting
        | running t' closed r _ hrecords hcontent =>
          obtain ⟨more, hmore⟩ := run_content hb
          have hall : records (a ++ .message t r' :: b) = closed ++ r :: (r' :: records b) := by
            rw [records_append, hrecords, List.append_assoc]
            rfl
          rw [← hmore, hcontent, hall, List.append_assoc _ r'.written] at hlines
          exact joined_ne closed _ r r' more hlines
  · intro hG
    cases run_tidy hG h with
    | idle _ hcontent => exact hcontent
    | running t closed r hwriting _ _ => exact absurd ((hwriting t).2 rfl) (by simp [hidle])

/-- **The lines.** When no call of `log` is running, the file is the records, each with its end of line and in the order
in which they were begun, if and only if no call was begun while another one was running. If no path and no message has
an end of line of its own, the same decides whether the lines of the file are the records. -/
theorem log_lines_iff (ops : List (LogOp κ)) (fin : LogFile κ) (h : run step new ops = some fin)
    (hidle : ∀ u, fin.writing u = false) :
    (fin.content = lines (records ops) ↔ Along step Exclusive new ops) ∧
      ((∀ r ∈ records ops, r.OneLine) →
        (fin.content.splitOn newline = (records ops).map LogCall.written ++ [[]] ↔ Along step Exclusive new ops)) := by
  refine ⟨log_content_iff ops fin h hidle, ?_⟩
  intro hone
  rw [splitOn_lines_iff hone, log_content_iff ops fin h hidle]

/-- a message of one letter -/
def letterCall : LogCall := ⟨1, [0x61], 7, januaryTime, 1234, [0x62], by decide⟩

/-- two threads, one after the other, and the second before the first has ended its line -/
theorem log_lines_iff_two :
    (∃ fin, run step (new : LogFile Bool) [.message true letterCall, .endOfLine true, .message false letterCall,
        .endOfLine false] = some fin ∧
      fin.content.splitOn newline = [letterCall.written, letterCall.written, []]) ∧
    ∃ fin, run step (new : LogFile Bool) [.message true letterCall, .message false letterCall, .endOfLine true,
        .endOfLine false] = some fin ∧
      fin.content.splitOn newline ≠ [letterCall.written, letterCall.written, []] := by
  have hends : ∀ ops : List (LogOp Bool),
      (run step new ops).map (fun s => (s.writing true, s.writing false)) = some (false, false) →
      ∃ fin, run step new ops = some fin ∧ ∀ u, fin.writing u = false := by
    intro ops h
    obtain ⟨fin, hfin, hwriting⟩ := Option.map_eq_some_iff.1 h
    obtain ⟨htrue, hfalse⟩ := Prod.mk.inj hwriting
    exact ⟨fin, hfin, Bool.forall_bool.2 ⟨hfalse, htrue⟩⟩
  have hone : ∀ ops : List (LogOp Bool), records ops = [letterCall, letterCall] → ∀ r ∈ records ops, r.OneLine := by
    intro ops h r hr
    rw [h, List.mem_pair, or_self] at hr
    rw [hr]
    exact ⟨by decide, by decide⟩
  refine ⟨?_, ?_⟩
  · obtain ⟨fin, hfin, hidle⟩ := hends [.message true letterCall, .endOfLine true, .message false letterCall,
      .endOfLine false] (by decide +kernel)
    exact ⟨fin, hfin, ((log_lines_iff _ fin hfin hidle).2 (hone _ rfl)).2 (by decide +kernel)⟩
  · obtain ⟨fin, hfin, hidle⟩ := hends [.message true letterCall, .message false letterCall, .endOfLine true,
      .endOfLine false] (by decide +kernel)
    exact ⟨fin, hfin, mt ((log_lines_iff _ fin hfin hidle).2 (hone _ rfl)).1 (by decide +kernel)⟩

end LogFile
end Log
end NetFramework
