/-
Streams of frames. Messages are sent as the concatenation of their encodings `enc m` and arrive in pieces that need not
respect the frame boundaries. `Received` says which messages a receiver has got in full and what it holds of the next.

- `Received.next`: a further piece of a stream belongs to a next message, and it ends inside its frame, at its end, or
  reaches past it.
- `Received.part`, `Received.whole`: how the two harmless cases extend what has been received.
- `Received.delivers`, `Received.keeps`: conversely, what a receiver that is still in step has done with a piece.
- `Received.complete`: once the whole stream has arrived, every message has been received.
- `Received.prefix_done`: so has every message whose frame has arrived in full.
-/
import Mathlib.Tactic

namespace Framing

variable {α β : Type*}

/-- the bytes that carry the messages `ms` -/
def stream (enc : α → List β) (ms : List α) : List β := ms.flatMap enc

variable {enc : α → List β}

@[simp] theorem stream_nil : stream enc [] = [] := rfl

@[simp] theorem stream_cons (m : α) (ms : List α) : stream enc (m :: ms) = enc m ++ stream enc ms := rfl

@[simp] theorem stream_append (a b : List α) : stream enc (a ++ b) = stream enc a ++ stream enc b := by
  simp [stream]

/-- messages that are themselves encoded from others -/
theorem stream_map {γ : Type*} (f : γ → α) (ms : List γ) : stream enc (ms.map f) = stream (enc ∘ f) ms :=
  List.flatMap_map f enc ms

/-- of the stream of `ms` the bytes `arrived` have come in: the messages `done` in full, and `part` of the next one -/
structure Received (enc : α → List β) (ms : List α) (arrived : List β) (done : List α) (part : List β) : Prop where
  done_prefix : done <+: ms
  arrived_eq : arrived = stream enc done ++ part
  part_next : part = [] ∨ ∃ m, done ++ [m] <+: ms ∧ part <+: enc m ∧ part ≠ enc m

theorem received_nil (ms : List α) : Received enc ms [] [] [] :=
  ⟨List.nil_prefix, by simp, Or.inl rfl⟩

/-- two messages that both continue the same prefix of `ms` are the same -/
theorem next_unique {ms done : List α} {m m' : α} (h : done ++ [m] <+: ms) (h' : done ++ [m'] <+: ms) : m = m' := by
  have := (List.prefix_of_prefix_length_le h h' (by simp)).eq_of_length (by simp)
  simpa using this

/-- a further nonempty piece belongs to a next message `m`; it ends inside the frame of `m` or it reaches its end -/
theorem Received.next {ms : List α} {arrived c part : List β} {done : List α}
    (h : Received enc ms arrived done part) (hc : c ≠ []) (hs : arrived ++ c <+: stream enc ms) :
    ∃ m, done ++ [m] <+: ms ∧ part <+: enc m ∧ (part = [] ∨ part ≠ enc m) ∧
      ((part ++ c <+: enc m ∧ part ++ c ≠ enc m) ∨ ∃ more, part ++ c = enc m ++ more) := by
  obtain ⟨todo, rfl⟩ := h.done_prefix
  have hgot : part ++ c <+: stream enc todo := by
    rw [h.arrived_eq, stream_append, List.append_assoc] at hs
    exact (List.prefix_append_right_inj _).1 hs
  cases todo with
  | nil =>
    simp only [stream_nil, List.prefix_nil, List.append_eq_nil_iff] at hgot
    exact absurd hgot.2 hc
  | cons m todo =>
    have hm : done ++ [m] <+: done ++ m :: todo := ⟨todo, by simp⟩
    refine ⟨m, hm, ?_, ?_, ?_⟩
    · rcases h.part_next with rfl | ⟨m', hm', hp, _⟩
      · exact List.nil_prefix
      · rwa [next_unique hm hm']
    · rcases h.part_next with rfl | ⟨m', hm', _, hne⟩
      · exact Or.inl rfl
      · right; rwa [next_unique hm hm']
    · have hfull : enc m <+: stream enc (m :: todo) := ⟨stream enc todo, by simp⟩
      rcases List.prefix_or_prefix_of_prefix hgot hfull with hin | ⟨more, hmore⟩
      · by_cases heq : part ++ c = enc m
        · exact Or.inr ⟨[], by simp [heq]⟩
        · exact Or.inl ⟨hin, heq⟩
      · exact Or.inr ⟨more, hmore.symm⟩

/-- a piece that ends inside the frame of the next message -/
theorem Received.part {ms : List α} {arrived c part : List β} {done : List α} {m : α}
    (h : Received enc ms arrived done part) (hm : done ++ [m] <+: ms) (hin : part ++ c <+: enc m)
    (hne : part ++ c ≠ enc m) : Received enc ms (arrived ++ c) done (part ++ c) :=
  ⟨h.done_prefix, by rw [h.arrived_eq, List.append_assoc], Or.inr ⟨m, hm, hin, hne⟩⟩

/-- a piece that ends exactly with the frame of the next message -/
theorem Received.whole {ms : List α} {arrived c part : List β} {done : List α} {m : α}
    (h : Received enc ms arrived done part) (hm : done ++ [m] <+: ms) (heq : part ++ c = enc m) :
    Received enc ms (arrived ++ c) (done ++ [m]) [] := by
  refine ⟨hm, ?_, Or.inl rfl⟩
  calc arrived ++ c = stream enc done ++ (part ++ c) := by rw [h.arrived_eq, List.append_assoc]
    _ = stream enc done ++ enc m := by rw [heq]
    _ = stream enc (done ++ [m]) ++ [] := by simp

/-- if a piece has completed one message, that is the next one, and the piece ended with its frame -/
theorem Received.delivers {ms : List α} {arrived c part : List β} {done : List α} {m d : α}
    (h : Received enc ms arrived done part) (hm : done ++ [m] <+: ms)
    (h' : Received enc ms (arrived ++ c) (done ++ [d]) []) : d = m ∧ part ++ c = enc m := by
  obtain rfl : d = m := next_unique h'.done_prefix hm
  refine ⟨rfl, ?_⟩
  have := h'.arrived_eq
  rw [h.arrived_eq, stream_append, List.append_assoc, List.append_assoc, List.append_cancel_left_eq] at this
  simpa using this

/-- if a piece has completed no message, it was kept -/
theorem Received.keeps {ms : List α} {arrived c part part' : List β} {done : List α}
    (h : Received enc ms arrived done part) (h' : Received enc ms (arrived ++ c) done part') : part' = part ++ c := by
  have := h'.arrived_eq
  rw [h.arrived_eq, List.append_assoc, List.append_cancel_left_eq] at this
  exact this.symm

/-- when the whole stream has arrived, every message has been received -/
theorem Received.complete {ms done : List α} {part : List β} (henc : ∀ m, enc m ≠ [])
    (h : Received enc ms (stream enc ms) done part) : done = ms := by
  obtain ⟨todo, rfl⟩ := h.done_prefix
  have hpart : stream enc todo = part := by
    have := h.arrived_eq
    rwa [stream_append, List.append_cancel_left_eq] at this
  cases todo with
  | nil => simp
  | cons m todo =>
    exfalso
    rcases h.part_next with rfl | ⟨m', hm', hp, hne⟩
    · simp only [stream_cons, List.append_eq_nil_iff] at hpart
      exact henc m hpart.1
    · obtain rfl : m' = m := next_unique hm' ⟨todo, by simp⟩
      refine hne (List.IsPrefix.eq_of_length_le hp ?_)
      rw [← hpart]; simp

/-- messages whose frames have arrived in full have been received -/
theorem Received.prefix_done {ms done d : List α} {arrived part : List β} (henc : ∀ m, enc m ≠ [])
    (h : Received enc ms arrived done part) (hd : d <+: ms) (hs : stream enc d <+: arrived) : d <+: done := by
  rcases List.prefix_or_prefix_of_prefix hd h.done_prefix with hle | ⟨todo, rfl⟩
  · exact hle
  · cases todo with
    | nil => rw [List.append_nil]
    | cons m todo =>
      exfalso
      have hm : done ++ [m] <+: ms := (List.append_cons done m todo ▸ List.prefix_append _ todo).trans hd
      rw [h.arrived_eq, stream_append, List.prefix_append_right_inj] at hs
      have hfull : enc m <+: part := (List.prefix_append _ _).trans hs
      rcases h.part_next with rfl | ⟨m', hm', hin, hne⟩
      · exact henc m (List.prefix_nil.1 hfull)
      · obtain rfl : m' = m := next_unique hm' hm
        exact hne (hin.eq_of_length_le hfull.length_le)

/-- what has been received of encoded messages, in terms of these -/
theorem Received.of_map {γ : Type*} {f : γ → α} {ms : List γ} {arrived part : List β} {done : List α}
    (h : Received enc (ms.map f) arrived done part) :
    ∃ done', done'.map f = done ∧ Received (enc ∘ f) ms arrived done' part := by
  obtain ⟨⟨todo, htodo⟩, harrived, hpart⟩ := h
  obtain ⟨done', todo', rfl, rfl, rfl⟩ := List.map_eq_append_iff.1 htodo.symm
  refine ⟨done', rfl, ⟨todo', rfl⟩, by rw [harrived, stream_map], ?_⟩
  rcases hpart with hpart | ⟨m, hm, hin, hne⟩
  · exact Or.inl hpart
  · -- the next message is the first of those to come
    rw [List.map_append, List.prefix_append_right_inj] at hm
    obtain ⟨more, hmore⟩ := hm
    obtain ⟨next, todo', rfl, rfl, -⟩ := List.map_eq_cons_iff.1 hmore.symm
    exact Or.inr ⟨next, ⟨todo', by simp⟩, hin, hne⟩

end Framing
