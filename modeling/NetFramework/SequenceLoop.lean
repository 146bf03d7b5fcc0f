/-
The loops of the decoder end on every input.

The three loops of `nextToken` read a character a round (`readLoop_ends`); the model's recursions over the characters
left compute what they leave (`bracketLoop_eq_readLoop`, `quoteLoop_eq_readLoop`, `plainLoop_eq_readLoop`).

The loop `while (!sq.eof())` of `deserializeSequence` tests a flag that a `get` or a `peek` sets, in different places
for the three kinds of tokens. Every token takes a character from the stream or sets the flag (`nextToken_progress`), so
`IStream.size` gets smaller with every round, whatever the elements' own decoder does with the tokens:
`sequence_decoder_ends`.
-/
import NetFramework.Library.Loop
import NetFramework.Serialisation

namespace NetFramework

open IStream Loop

/-! ## The loops of `nextToken` -/

/-- inside a loop `while (c != EOF && …) { ret.push_back(c); …; c = in.get(); }`; `var` is the loop's own variable -/
structure Reading (τ : Type) where
  ret : Bytes
  c : Option UInt8
  s : IStream
  var : τ

namespace Reading

variable {τ : Type} (goOn : τ → UInt8 → Prop) (next : τ → UInt8 → τ)

def guard (r : Reading τ) : Prop := ∃ c, r.c = some c ∧ goOn r.var c

def body (r : Reading τ) : Except Empty (Reading τ) :=
  match r.c with
  | some c => .ok { ret := r.ret ++ [c], c := r.s.get.1, s := r.s.get.2, var := next r.var c }
  | none => .ok r

/-- in front of the loop, behind its first `c = in.get()` -/
def start (ret : Bytes) (s : IStream) (var : τ) : Reading τ := { ret := ret, c := s.get.1, s := s.get.2, var := var }

end Reading

section

variable {τ : Type} (goOn : τ → UInt8 → Prop) [∀ v c, Decidable (goOn v c)] (next : τ → UInt8 → τ)

/-- what such a loop adds to `ret`, and the stream it leaves -/
def readLoop : τ → Bytes → Bytes × IStream
  | _, [] => ([], eof)
  | v, c :: cs =>
    if goOn v c then
      let r := readLoop (next v c) cs
      (c :: r.1, r.2)
    else ([], good cs)

/-- entered with the characters `l` to read, the loop ends after at most as many rounds, having added `r.1` to `ret` and
leaving the stream `r.2` -/
def LoopEnds (v : τ) (l : Bytes) (r : Bytes × IStream) : Prop :=
  ∀ ret, ∃ n fin, Runs (Reading.guard goOn) (Reading.body next) n (Reading.start ret (good l) v) (.ok fin) ∧
    n ≤ l.length ∧ fin.ret = ret ++ r.1 ∧ fin.s = r.2

/-- **A reading loop ends**, and leaves what `readLoop` says. -/
theorem readLoop_ends (l : Bytes) (v : τ) : LoopEnds goOn next v l (readLoop goOn next v l) := by
  intro ret
  induction l generalizing ret v with
  | nil =>
    have hstop : ¬ Reading.guard goOn (Reading.start ret (good []) v) := by
      rintro ⟨c, hc, -⟩
      cases hc
    exact ⟨0, _, .stop hstop, le_rfl, (List.append_nil _).symm, rfl⟩
  | cons c l ih =>
    by_cases hgo : goOn v c
    · have henter : Reading.guard goOn (Reading.start ret (good (c :: l)) v) := ⟨c, rfl, hgo⟩
      obtain ⟨n, fin, hrun, hn, hret, hs⟩ := ih (next v c) (ret ++ [c])
      refine ⟨n + 1, fin, .round henter rfl hrun, Nat.succ_le_succ hn, ?_, ?_⟩
      · rw [hret, readLoop, if_pos hgo, List.append_assoc, List.singleton_append]
      · rw [hs, readLoop, if_pos hgo]
    · have hstop : ¬ Reading.guard goOn (Reading.start ret (good (c :: l)) v) := by
        rintro ⟨c', hc, hgo'⟩
        obtain rfl := Option.some.inj hc
        exact hgo hgo'
      refine ⟨0, _, .stop hstop, Nat.zero_le _, ?_, ?_⟩
      · rw [readLoop, if_neg hgo, List.append_nil]
        rfl
      · rw [readLoop, if_neg hgo]
        rfl

end

/-- `++scopeDepth`, `--scopeDepth` -/
def scopeNext (startBrace endBrace : UInt8) (scopeDepth : ℕ) (c : UInt8) : ℕ :=
  if c = startBrace then scopeDepth + 1 else if c = endBrace then scopeDepth - 1 else scopeDepth

theorem bracketLoop_eq_readLoop (startBrace endBrace : UInt8) (scopeDepth : ℕ) (l : Bytes) :
    bracketLoop startBrace endBrace scopeDepth l =
      readLoop (fun depth _ => 0 < depth) (scopeNext startBrace endBrace) scopeDepth l := by
  induction l generalizing scopeDepth with
  | nil => cases scopeDepth <;> rfl
  | cons c l ih =>
    cases scopeDepth with
    | zero => rfl
    | succ d => rw [bracketLoop, readLoop, if_pos (Nat.succ_pos d), ih]; rfl

theorem quoteLoop_eq_readLoop (hadBackSlash : Bool) (l : Bytes) :
    quoteLoop hadBackSlash l =
      readLoop (fun hadBackSlash c => ¬ (c = quote ∧ hadBackSlash = false)) (fun _ c => c == backslash)
        hadBackSlash l := by
  induction l generalizing hadBackSlash with
  | nil => rfl
  | cons c l ih =>
    rw [quoteLoop, readLoop, ih]
    by_cases hstop : c = quote ∧ hadBackSlash = false
    · rw [if_pos hstop, if_neg (not_not.2 hstop)]
    · rw [if_neg hstop, if_pos hstop]

theorem plainLoop_eq_readLoop (l : Bytes) :
    plainLoop l = readLoop (fun (_ : Unit) c => c ≠ comma) (fun _ _ => ()) () l := by
  induction l with
  | nil => rfl
  | cons c l ih =>
    rw [plainLoop, readLoop, ih]
    by_cases hc : c = comma
    · rw [if_pos hc, if_neg (not_not.2 hc)]
    · rw [if_neg hc, if_pos hc]

/-! ## Progress -/

theorem size_good (l : Bytes) : (good l).size = l.length + 1 := rfl

/-- every token takes a character from the stream, or finds its end -/
theorem nextToken_progress {s : IStream} (hs : s ≠ eof) :
    (nextToken s).2 = eof ∨ (nextToken s).2.rest.length < s.rest.length := by
  have hlt := nextToken_size hs
  cases hnext : (nextToken s).2 with
  | eof => exact Or.inl rfl
  | good l =>
    cases s with
    | eof => exact absurd rfl hs
    | good l' =>
      rw [hnext, size_good, size_good] at hlt
      exact Or.inr (Nat.lt_of_succ_lt_succ hlt)

/-! ## The loop over a sequence -/

variable {α : Type} (deser : IStream → Except StdException (α × IStream))

/-- `!sq.eof()` -/
def seqGuard (st : IStream × List α) : Prop := st.1 ≠ eof

/-- the body of the loop -/
def seqBody (st : IStream × List α) : Except StdException (IStream × List α) := do
  let (elem, sq) := nextToken st.1
  let (element, _) ← deser (good elem)
  return (sq, st.2 ++ [element])

theorem seqBody_ok {st st' : IStream × List α} (h : seqBody deser st = .ok st') : st'.1 = (nextToken st.1).2 := by
  obtain ⟨r, -, h⟩ := bind_eq_ok.1 h
  cases h
  rfl

/-- what the model's loop computes is what the loop leaves -/
theorem seqLoop_of_runs {n fuel : ℕ} {st : IStream × List α} {r : Except StdException (IStream × List α)}
    (h : Runs seqGuard (seqBody deser) n st r) (hfuel : st.1.size ≤ fuel) :
    seqLoop deser fuel st.1 st.2 = r.map Prod.snd := by
  induction h generalizing fuel with
  | @stop st h =>
    have hst : st.1 = eof := not_not.1 h
    rw [hst]
    cases fuel <;> rfl
  | @throw st e h hbody =>
    obtain ⟨fuel, rfl⟩ : ∃ k, fuel = k + 1 := by
      have := nextToken_size h
      exact ⟨fuel - 1, by omega⟩
    have hne : ¬ st.1 = eof := h
    cases hd : deser (good (nextToken st.1).1) with
    | error e' =>
      simp only [seqBody, hd, bind, Except.bind] at hbody
      simp only [seqLoop, if_neg hne, hd, bind, Except.bind, Except.map]
      rw [Except.error.inj hbody]
    | ok v =>
      simp only [seqBody, hd, bind, Except.bind] at hbody
      cases hbody
  | @round st st' n r h hbody _ ih =>
    have hlt := nextToken_size h
    obtain ⟨fuel, rfl⟩ : ∃ k, fuel = k + 1 := ⟨fuel - 1, by omega⟩
    have hne : ¬ st.1 = eof := h
    cases hd : deser (good (nextToken st.1).1) with
    | error e' =>
      simp only [seqBody, hd, bind, Except.bind] at hbody
      cases hbody
    | ok v =>
      simp only [seqBody, hd, bind, Except.bind] at hbody
      obtain rfl := Except.ok.inj hbody
      simp only [seqLoop, if_neg hne, hd, bind, Except.bind]
      exact ih (by simp only; omega)

/-- **The loop over a sequence ends.** Entered with `sq` it has a run, of at most one round more than `sq` has
characters, a round that throws included, and the model's loop computes what this run leaves. -/
theorem seqLoop_ends (sq : IStream) (vec : List α) :
    ∃ n r, Runs seqGuard (seqBody deser) n (sq, vec) r ∧ n ≤ sq.size ∧
      seqLoop deser sq.size sq vec = r.map Prod.snd := by
  have hpos : ∀ st : IStream × List α, seqGuard st → 0 < st.1.size := by
    intro st h
    exact (Nat.zero_le _).trans_lt (nextToken_size h)
  have hless : ∀ st st' : IStream × List α, seqGuard st → seqBody deser st = .ok st' → st'.1.size < st.1.size := by
    intro st st' h hbody
    rw [seqBody_ok deser hbody]
    exact nextToken_size h
  obtain ⟨n, r, hrun, hn⟩ := exists_runs (fun st => st.1.size) hpos hless (sq, vec)
  exact ⟨n, r, hrun, hn, seqLoop_of_runs deser hrun le_rfl⟩

theorem deserializeSequence_long {s : IStream} (vec : List α) (hlong : (nextToken s).1.length > 2) :
    deserializeSequence deser s vec =
      (seqLoop deser (good (nextToken s).1.dropLast).get.2.size (good (nextToken s).1.dropLast).get.2 vec).map
        fun vec => (vec, (nextToken s).2) := by
  simp only [deserializeSequence, if_pos hlong]
  cases seqLoop deser (good (nextToken s).1.dropLast).get.2.size (good (nextToken s).1.dropLast).get.2 vec <;> rfl

/-- the characters between the first and the last of a token -/
theorem cut_length {seqData : Bytes} (h : seqData.length > 2) :
    (good seqData.dropLast).get.2.rest.length + 2 = seqData.length ∧
      (good seqData.dropLast).get.2.size = (good seqData.dropLast).get.2.rest.length + 1 := by
  match seqData, h with
  | x :: y :: l, h =>
    have hcut : (good (x :: y :: l).dropLast).get.2 = good (y :: l).dropLast := rfl
    rw [hcut]
    refine ⟨?_, rfl⟩
    simp [IStream.rest]

/-- **The sequence decoder ends.** For any bytes, and any decoder of the elements that returns or throws:
- the loops of `nextToken` end, having read at most the characters there are;
- a token takes a character from a stream whose end has not been seen, or finds the end;
- the loop over the elements has one run, of at most one round more than there are characters between the brackets. -/
theorem sequence_decoder_ends :
    (∀ (o e : UInt8) (l : Bytes), LoopEnds (fun depth _ => 0 < depth) (scopeNext o e) 1 l (bracketLoop o e 1 l)) ∧
      (∀ l : Bytes, LoopEnds (fun hadBackSlash c => ¬ (c = quote ∧ hadBackSlash = false)) (fun _ c => c == backslash)
        false l (quoteLoop false l)) ∧
      (∀ l : Bytes, LoopEnds (fun (_ : Unit) c => c ≠ comma) (fun _ _ => ()) () l (plainLoop l)) ∧
      (∀ s : IStream, s ≠ eof → (nextToken s).2 = eof ∨ (nextToken s).2.rest.length < s.rest.length) ∧
      ∀ (s : IStream) (vec : List α),
        if (nextToken s).1.length > 2 then
          let sq := (good (nextToken s).1.dropLast).get.2
          sq.rest.length + 2 = (nextToken s).1.length ∧
            ∃ n r, Runs seqGuard (seqBody deser) n (sq, vec) r ∧
              (∀ m r', Runs seqGuard (seqBody deser) m (sq, vec) r' → m = n ∧ r' = r) ∧
              n ≤ sq.rest.length + 1 ∧
              deserializeSequence deser s vec = r.map fun st => (st.2, (nextToken s).2)
        else deserializeSequence deser s vec = .ok (vec, (nextToken s).2) := by
  refine ⟨?_, ?_, ?_, fun s hs => nextToken_progress hs, ?_⟩
  · intro o e l
    rw [bracketLoop_eq_readLoop]
    exact readLoop_ends _ _ l 1
  · intro l
    rw [quoteLoop_eq_readLoop]
    exact readLoop_ends _ _ l false
  · intro l
    rw [plainLoop_eq_readLoop]
    exact readLoop_ends _ _ l ()
  · intro s vec
    by_cases hlong : (nextToken s).1.length > 2
    · rw [if_pos hlong]
      obtain ⟨hrest, hsize⟩ := cut_length hlong
      obtain ⟨n, r, hrun, hn, hloop⟩ := seqLoop_ends deser (good (nextToken s).1.dropLast).get.2 vec
      refine ⟨hrest, n, r, hrun, fun m r' h => h.unique hrun, hsize ▸ hn, ?_⟩
      rw [deserializeSequence_long deser vec hlong, hloop]
      cases r <;> rfl
    · rw [if_neg hlong]
      simp only [deserializeSequence, if_neg hlong]
      rfl

end NetFramework
