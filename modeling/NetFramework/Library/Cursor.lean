/-
Writing through a pointer that moves over an area of fixed size. A write outside of the area has no result.

`Writes f text`: wherever there is room for it, `f` writes `text` from the pointer on, changes nothing else and leaves the
pointer behind the text. Such writes are composed with `Writes.bind`; one that fills an area exactly is `Writes.fill`.
-/
import Mathlib.Data.List.Basic
import Mathlib.Tactic

variable {α : Type*}

structure Cursor (α : Type*) where
  area : List α
  pos : ℕ
deriving DecidableEq, Repr

namespace Cursor

def store (area : List α) (i : ℕ) (c : α) : Option (List α) := if i < area.length then some (area.set i c) else none

/-- `*(pos++) = c` -/
def put (c : α) (s : Cursor α) : Option (Cursor α) := (store s.area s.pos c).map fun area => ⟨area, s.pos + 1⟩

def Writes (f : Cursor α → Option (Cursor α)) (text : List α) : Prop :=
  ∀ done gap rest, gap.length = text.length →
    f ⟨done ++ gap ++ rest, done.length⟩ = some ⟨done ++ text ++ rest, done.length + text.length⟩

variable {f g : Cursor α → Option (Cursor α)} {t u : List α}

theorem store_append (before after : List α) (x c : α) :
    store (before ++ x :: after) before.length c = some (before ++ c :: after) := by
  have hlt : before.length < (before ++ x :: after).length := by
    rw [List.length_append, List.length_cons]
    omega
  rw [store, if_pos hlt, List.set_append_right _ _ le_rfl, Nat.sub_self, List.set_cons_zero]

theorem writes_none : Writes (some : Cursor α → Option (Cursor α)) [] := by
  intro done gap rest h
  rw [List.eq_nil_of_length_eq_zero h]
  rfl

theorem writes_put (c : α) : Writes (put c) [c] := by
  intro done gap rest h
  obtain ⟨x, rfl⟩ := List.length_eq_one_iff.1 h
  rw [put, List.append_assoc, List.singleton_append, store_append, Option.map_some, List.append_assoc]
  rfl

theorem Writes.bind (hf : Writes f t) (hg : Writes g u) : Writes (fun s => f s >>= g) (t ++ u) := by
  intro done gap rest h
  rw [List.length_append] at h
  have htake : (gap.take t.length).length = t.length := List.length_take_of_le (by omega)
  have hdrop : (gap.drop t.length).length = u.length := by
    rw [List.length_drop]
    omega
  have hsplit : done ++ gap ++ rest = done ++ gap.take t.length ++ (gap.drop t.length ++ rest) := by
    rw [List.append_assoc done, List.append_assoc done, ← List.append_assoc (gap.take t.length), List.take_append_drop]
  have hfirst := hf done (gap.take t.length) (gap.drop t.length ++ rest) htake
  have hsecond := hg (done ++ t) (gap.drop t.length) rest hdrop
  rw [List.length_append] at hsecond
  calc (f ⟨done ++ gap ++ rest, done.length⟩ >>= g)
      = g ⟨done ++ t ++ (gap.drop t.length ++ rest), done.length + t.length⟩ := by rw [hsplit, hfirst]; rfl
    _ = some ⟨done ++ t ++ u ++ rest, done.length + t.length + u.length⟩ := by rw [← List.append_assoc, hsecond]
    _ = some ⟨done ++ (t ++ u) ++ rest, done.length + (t ++ u).length⟩ := by
      rw [List.append_assoc done, List.length_append, Nat.add_assoc]

theorem Writes.fill (hf : Writes f t) {area : List α} (h : area.length = t.length) :
    f ⟨area, 0⟩ = some ⟨t, t.length⟩ := by
  have hfill := hf [] area [] h
  rwa [List.nil_append, List.append_nil, List.nil_append, List.append_nil, List.length_nil, Nat.zero_add] at hfill

end Cursor
