/-
What the decoder can make of a text that it does not trust: any bytes, any type, any old value of its target.

`decode_safe`: it takes one token, and what it builds from it, the characters of strings and the elements of sequences
counted together, is no more than the token has characters, each of them counted once and once more for whatever the
default constructors of elements bring along (`Ty.ballast`); or it throws an exception of `std::stoi`, which needs an
`int` somewhere in the type.
-/
import NetFramework.SequenceLoop

namespace NetFramework

open IStream

/-! ## Weight -/

mutual

/-- the characters of the strings and the elements of the sequences in a value -/
def Ty.weight : (t : Ty) → t.Val → ℕ
  | .int, _ => 0
  | .str, str => str.length
  | .vec t, vec => (vec.map fun elem => t.weight elem + 1).sum
  | .cls _ fs, obj => fs.weight obj

def Fields.weight : (fs : Fields) → fs.Vals → ℕ
  | .nil, _ => 0
  | .cons t fs, obj => t.weight obj.1 + fs.weight obj.2

end

mutual

/-- the weight of a default-constructed element, for the sequences of the type, one inside the other -/
def Ty.ballast : Ty → ℕ
  | .int => 0
  | .str => 0
  | .vec t => t.weight t.default + t.ballast
  | .cls _ fs => fs.ballast

def Fields.ballast : Fields → ℕ
  | .nil => 0
  | .cons t fs => max t.ballast fs.ballast

end

mutual

/-- there is an `int` in the type -/
def Ty.hasInt : Ty → Bool
  | .int => true
  | .str => false
  | .vec t => t.hasInt
  | .cls _ fs => fs.hasInt

def Fields.hasInt : Fields → Bool
  | .nil => false
  | .cons t fs => t.hasInt || fs.hasInt

end

/-! ## Tokens -/

/-- the token of a loop, and what is behind it, come out of what there was -/
theorem readLoop_size {τ : Type} (goOn : τ → UInt8 → Prop) [∀ v c, Decidable (goOn v c)] (next : τ → UInt8 → τ) (v : τ)
    (l : Bytes) : (readLoop goOn next v l).1.length + (readLoop goOn next v l).2.size ≤ l.length := by
  induction l generalizing v with
  | nil => exact Nat.le_refl 0
  | cons c l ih =>
    rw [readLoop]
    split_ifs
    · have := ih (next v c)
      simp only [List.length_cons]
      omega
    · simp [size]

/-- a token is paid for by the characters that it takes from the stream, and there is one more, or the end of file, that
it takes as well -/
theorem nextToken_pays {s : IStream} (hs : s ≠ eof) : (nextToken s).1.length + 1 + (nextToken s).2.size ≤ s.size := by
  rcases s with (_ | ⟨c, cs⟩) | _
  · exact Nat.le_refl 1
  · rw [nextToken_cons]
    have hbracket : ∀ o e : UInt8, (bracketLoop o e 1 cs).1.length + (bracketLoop o e 1 cs).2.size ≤ cs.length :=
      fun o e => bracketLoop_eq_readLoop o e 1 cs ▸ readLoop_size _ _ _ cs
    have hquote : (quoteLoop false cs).1.length + (quoteLoop false cs).2.size ≤ cs.length :=
      quoteLoop_eq_readLoop false cs ▸ readLoop_size _ _ _ cs
    have hplain : (plainLoop (c :: cs)).1.length + (plainLoop (c :: cs)).2.size ≤ (c :: cs).length :=
      plainLoop_eq_readLoop (c :: cs) ▸ readLoop_size _ _ _ (c :: cs)
    rw [List.length_cons] at hplain
    simp only [size_good, List.length_cons]
    split_ifs
    · have := hbracket c rbracket
      have := skipComma_size (bracketLoop c rbracket 1 cs).2
      simp only [List.length_cons]
      omega
    · have := hbracket c rbrace
      have := skipComma_size (bracketLoop c rbrace 1 cs).2
      simp only [List.length_cons]
      omega
    · have := skipComma_size (quoteLoop false cs).2
      dsimp only
      omega
    · omega
  · exact absurd rfl hs

theorem nextToken_length (s : IStream) : (nextToken s).1.length + (nextToken s).2.rest.length ≤ s.rest.length := by
  cases s with
  | eof => exact Nat.le_refl 0
  | good l =>
    have hpays := nextToken_pays (s := good l) nofun
    rw [size_good] at hpays
    cases hnext : (nextToken (good l)).2 with
    | eof =>
      rw [hnext] at hpays
      simp only [rest, size, List.length_nil] at hpays ⊢
      omega
    | good l' =>
      rw [hnext, size_good] at hpays
      simp only [rest]
      omega

/-! ## Decoding -/

/-- a value that meets `P` is decoded; or there is an `int`, and an exception of `std::stoi` -/
def Decodes {α : Type} (hasInt : Bool) (P : α → Prop) (r : Except StdException α) : Prop :=
  (∃ v, r = .ok v ∧ P v) ∨ (hasInt = true ∧ ∃ e, r = .error e ∧ e ≠ .badFunctionCall)

theorem Decodes.ok {α : Type} {hasInt : Bool} {P : α → Prop} {v : α} (h : P v) : Decodes hasInt P (.ok v) :=
  Or.inl ⟨v, rfl, h⟩

theorem Decodes.bind {α β : Type} {hasInt hasInt' : Bool} {P : α → Prop} {Q : β → Prop} {x : Except StdException α}
    {f : α → Except StdException β} (hx : Decodes hasInt P x) (hf : ∀ v, P v → Decodes hasInt' Q (f v)) :
    Decodes (hasInt || hasInt') Q (x >>= f) := by
  rcases hx with ⟨v, rfl, hv⟩ | ⟨hint, e, rfl, he⟩
  · rcases hf v hv with ⟨u, hu, hQ⟩ | ⟨hint, e, hfe, he⟩
    · exact Or.inl ⟨u, hu, hQ⟩
    · exact Or.inr ⟨by rw [hint, Bool.or_true], e, hfe, he⟩
  · exact Or.inr ⟨by rw [hint, Bool.true_or], e, rfl, he⟩

theorem Decodes.map {α β : Type} {hasInt : Bool} {P : α → Prop} {Q : β → Prop} {x : Except StdException α}
    {f : α → β} (hx : Decodes hasInt P x) (hf : ∀ v, P v → Q (f v)) : Decodes hasInt Q (x >>= fun v => .ok (f v)) := by
  rcases hx with ⟨v, rfl, hv⟩ | ⟨hint, e, rfl, he⟩
  · exact Or.inl ⟨f v, rfl, hf v hv⟩
  · exact Or.inr ⟨hint, e, rfl, he⟩

theorem Decodes.mono {α : Type} {hasInt : Bool} {P Q : α → Prop} {r : Except StdException α} (h : Decodes hasInt P r)
    (hPQ : ∀ v, P v → Q v) : Decodes hasInt Q r := h.imp_left fun ⟨v, hr, hv⟩ => ⟨v, hr, hPQ v hv⟩

theorem stoi_decodes (str : Bytes) : Decodes true (fun _ => True) (stoi str) := by
  rcases stoi_cases str with ⟨blanks, sign, digits, rest, hnumber⟩ | hthrows
  · rw [stoi_number hnumber]
    split_ifs
    · exact .ok trivial
    · exact Or.inr ⟨rfl, .outOfRange, rfl, nofun⟩
  · exact Or.inr ⟨rfl, .invalidArgument, hthrows, nofun⟩

/-- the loop over the elements of a sequence; a character pays for `k` -/
theorem seqLoop_decodes {α : Type} {deser : IStream → Except StdException (α × IStream)} {hasInt : Bool} {w : α → ℕ}
    {k : ℕ} (hdeser : ∀ elem, Decodes hasInt (fun r => w r.1 + 1 ≤ (elem.length + 1) * k) (deser (good elem))) (fuel : ℕ)
    (sq : IStream) (vec : List α) :
    Decodes hasInt (fun vec' => (vec'.map fun v => w v + 1).sum ≤ (vec.map fun v => w v + 1).sum + sq.size * k)
      (seqLoop deser fuel sq vec) := by
  induction fuel generalizing sq vec with
  | zero => exact .ok (Nat.le_add_right _ _)
  | succ fuel ih =>
    rw [seqLoop]
    split_ifs with hsq
    · exact .ok (Nat.le_add_right _ _)
    · have hpays : ((nextToken sq).1.length + 1) * k + (nextToken sq).2.size * k ≤ sq.size * k := by
        rw [← Nat.add_mul]
        exact Nat.mul_le_mul_right k (nextToken_pays hsq)
      have hround := (hdeser (nextToken sq).1).bind fun r hr => (ih (nextToken sq).2 (vec ++ [r.1])).mono
        (Q := fun vec' => (vec'.map fun v => w v + 1).sum ≤ (vec.map fun v => w v + 1).sum + sq.size * k) ?_
      · rwa [Bool.or_self] at hround
      · intro vec' hvec'
        rw [List.map_append, List.sum_append, List.map_singleton, List.sum_singleton] at hvec'
        omega

theorem deserializeSequence_decodes {α : Type} {deser : IStream → Except StdException (α × IStream)} {hasInt : Bool}
    {w : α → ℕ} {k : ℕ} (hdeser : ∀ elem, Decodes hasInt (fun r => w r.1 + 1 ≤ (elem.length + 1) * k) (deser (good elem)))
    (s : IStream) (vec : List α) :
    Decodes hasInt (fun r => r.2 = (nextToken s).2 ∧
        (r.1.map fun v => w v + 1).sum ≤ (vec.map fun v => w v + 1).sum + (nextToken s).1.length * k)
      (deserializeSequence deser s vec) := by
  simp only [deserializeSequence]
  split_ifs with hlong
  · obtain ⟨hcut, hsize⟩ := cut_length hlong
    refine (seqLoop_decodes hdeser (good (nextToken s).1.dropLast).get.2.size
      (good (nextToken s).1.dropLast).get.2 vec).map ?_
    intro vec' hvec'
    refine ⟨rfl, hvec'.trans (Nat.add_le_add_left (Nat.mul_le_mul_right k ?_) _)⟩
    omega
  · exact .ok ⟨rfl, Nat.le_add_right _ _⟩

/-- the constructor of `ObjectDeser` takes one token, and its own stream has no more than that -/
theorem objectDeser_size (s : IStream) :
    (objectDeser s).2 = (nextToken s).2 ∧ (objectDeser s).1.rest.length ≤ (nextToken s).1.length := by
  simp only [objectDeser]
  split_ifs with hlong
  · have hcut := (cut_length hlong).1
    exact ⟨rfl, by dsimp only; omega⟩
  · exact ⟨rfl, Nat.zero_le _⟩

mutual

/-- one case for each kind of type -/
theorem deserialize_decodes (t : Ty) {k : ℕ} (hk : t.ballast < k) (s : IStream) (old : t.Val) :
    Decodes t.hasInt (fun r => r.2 = (nextToken s).2 ∧ t.weight r.1 ≤ t.weight old + (nextToken s).1.length * k)
      (deserialize t s old) := by
  match t with
  | .int =>
    refine (stoi_decodes (nextToken s).1).map ?_
    intro d _
    exact ⟨rfl, Nat.zero_le _⟩
  | .str =>
    refine .ok ⟨rfl, ?_⟩
    calc (nextToken s).1.length ≤ (nextToken s).1.length * k := Nat.le_mul_of_pos_right _ (Nat.zero_lt_of_lt hk)
      _ ≤ Ty.weight .str old + (nextToken s).1.length * k := Nat.le_add_left _ _
  | .vec t =>
    have hbelow : t.weight t.default + t.ballast < k := hk
    obtain ⟨k', rfl⟩ : ∃ k', k = t.weight t.default + k' := ⟨k - t.weight t.default, by omega⟩
    refine deserializeSequence_decodes (w := t.weight) (fun elem => ?_) s old
    refine (deserialize_decodes t (k := k') (by omega) (good elem) t.default).mono fun r hr => ?_
    have hlen : (nextToken (good elem)).1.length ≤ elem.length := (Nat.le_add_right _ _).trans (nextToken_length (good elem))
    -- the element is paid for by its own characters, its default value by the one more that each round takes
    calc t.weight r.1 + 1 ≤ t.weight t.default + (nextToken (good elem)).1.length * k' + 1 := Nat.succ_le_succ hr.2
      _ ≤ t.weight t.default + elem.length * k' + k' := by
        have := Nat.mul_le_mul_right k' hlen
        omega
      _ ≤ (elem.length + 1) * (t.weight t.default + k') := by
        rw [Nat.mul_add, Nat.add_mul, Nat.add_mul, Nat.one_mul, Nat.one_mul]
        omega
  | .cls _ fs =>
    obtain ⟨hbehind, hinner⟩ := objectDeser_size s
    refine (deserializeFields_decodes fs hk (objectDeser s).1 old).map ?_
    intro r hr
    have hpaid : (objectDeser s).1.rest.length * k ≤ (nextToken s).1.length * k := Nat.mul_le_mul_right k hinner
    have hweight : fs.weight r.1 ≤ fs.weight old + (nextToken s).1.length * k := by omega
    exact ⟨hbehind, hweight⟩

/-- each field is paid for by what it takes from the stream -/
theorem deserializeFields_decodes (fs : Fields) {k : ℕ} (hk : fs.ballast < k) (deser : IStream) (old : fs.Vals) :
    Decodes fs.hasInt (fun r => fs.weight r.1 + r.2.rest.length * k ≤ fs.weight old + deser.rest.length * k)
      (deserializeFields fs deser old) := by
  match fs with
  | .nil => exact .ok le_rfl
  | .cons t fs =>
    obtain ⟨hfirst, hrest⟩ : t.ballast < k ∧ fs.ballast < k := max_lt_iff.1 hk
    refine (deserialize_decodes t hfirst deser old.1).bind ?_
    intro r hr
    have hlen : (nextToken deser).1.length * k + (nextToken deser).2.rest.length * k ≤ deser.rest.length * k := by
      rw [← Nat.add_mul]
      exact Nat.mul_le_mul_right k (nextToken_length deser)
    refine (deserializeFields_decodes fs hrest r.2 old.2).map ?_
    intro p hp
    rw [hr.1] at hp
    simp only [Fields.weight]
    omega

end

/-- **The decoder is safe on any text.** Whatever the bytes, the type and the old value are, `deserialize` takes one token
and adds to the target no more characters and elements than that token has characters, each counted once and once more
for what default-constructed elements have; or the type has an `int` and `std::stoi` has thrown one of its two
exceptions. -/
theorem decode_safe (t : Ty) (s : IStream) (old : t.Val) :
    (∃ v, deserialize t s old = .ok (v, (nextToken s).2) ∧
        t.weight v ≤ t.weight old + (nextToken s).1.length * (1 + t.ballast)) ∨
      (t.hasInt = true ∧
        (deserialize t s old = .error .invalidArgument ∨ deserialize t s old = .error .outOfRange)) := by
  rcases deserialize_decodes t (k := 1 + t.ballast) (by omega) s old with
    ⟨⟨v, next⟩, hr, hnext, hweight⟩ | ⟨hint, e, he, hne⟩
  · obtain rfl : next = (nextToken s).2 := hnext
    exact Or.inl ⟨v, hr, hweight⟩
  · refine Or.inr ⟨hint, ?_⟩
    cases e with
    | invalidArgument => exact Or.inl he
    | outOfRange => exact Or.inr he
    | badFunctionCall => exact absurd rfl hne

-- a vector of numbers or of strings has no more elements, and they no more characters, than its token has
example : Ty.ballast (.vec .int) = 0 ∧ Ty.ballast (.vec .str) = 0 := ⟨rfl, rfl⟩

end NetFramework
