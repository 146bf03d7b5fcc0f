/-
A trace of events of many objects. The life of an object is: opened once, then used any number of times, then closed at
most once, and nothing afterwards.

`Tracks`: every object has had exactly the events of the phase it is in. `Tracks.opened`, `Tracks.used` and
`Tracks.closed` carry it over the events that the phases allow; `Tracks.congr` changes the phases for others.
-/
import Mathlib.Tactic

namespace Lifecycle

inductive Event (α : Type*) where
  | opened
  | used (a : α)
  | closed
deriving DecidableEq, Repr

inductive Phase where
  | fresh
  | live
  | done
deriving DecidableEq, Repr

variable {ι α : Type*}

/-- the events of a life that has got to this phase -/
def Phase.Lived : Phase → List (Event α) → Prop
  | .fresh, events => events = []
  | .live, events => ∃ as : List α, events = .opened :: as.map .used
  | .done, events => ∃ as : List α, events = .opened :: as.map .used ++ [.closed]

variable [DecidableEq ι]

/-- the events of one object, in order -/
def eventsOf (trace : List (ι × Event α)) (id : ι) : List (Event α) :=
  trace.filterMap fun e => if e.1 = id then some e.2 else none

@[simp] theorem eventsOf_nil (id : ι) : eventsOf ([] : List (ι × Event α)) id = [] := rfl

theorem eventsOf_append (trace more : List (ι × Event α)) (id : ι) :
    eventsOf (trace ++ more) id = eventsOf trace id ++ eventsOf more id := List.filterMap_append

theorem eventsOf_same (id : ι) (events : List (Event α)) : eventsOf (events.map fun e => (id, e)) id = events := by
  simp [eventsOf, List.filterMap_map]

theorem eventsOf_other {id id' : ι} (h : id ≠ id') (events : List (Event α)) :
    eventsOf (events.map fun e => (id, e)) id' = [] := by
  simp [eventsOf, List.filterMap_map, h]

/-- every object has had the events of the phase it is in -/
def Tracks (phase : ι → Phase) (trace : List (ι × Event α)) : Prop := ∀ id, (phase id).Lived (eventsOf trace id)

section Tracks

variable {phase phase' : ι → Phase} {trace : List (ι × Event α)} {id : ι}

theorem tracks_nil : Tracks (fun _ : ι => .fresh) ([] : List (ι × Event α)) := fun _ => rfl

theorem Tracks.congr (h : Tracks phase trace) (hp : ∀ id, phase' id = phase id) : Tracks phase' trace := by
  intro id
  rw [hp]
  exact h id

/-- events of one object that take it from phase to phase -/
theorem Tracks.append (h : Tracks phase trace) (id : ι) (events : List (Event α)) (p : Phase)
    (hp : p.Lived (eventsOf trace id ++ events)) :
    Tracks (Function.update phase id p) (trace ++ events.map fun e => (id, e)) := by
  intro id'
  rw [eventsOf_append]
  by_cases hid : id' = id
  · rw [hid, Function.update_self, eventsOf_same]
    exact hp
  · rw [Function.update_of_ne hid, eventsOf_other (Ne.symm hid), List.append_nil]
    exact h id'

theorem Tracks.opened (h : Tracks phase trace) (hid : phase id = .fresh) :
    Tracks (Function.update phase id .live) (trace ++ [(id, .opened)]) := by
  have hnil : eventsOf trace id = [] := by
    have := h id
    rwa [hid] at this
  exact h.append id [.opened] .live ⟨[], by rw [hnil]; rfl⟩

theorem Tracks.used (h : Tracks phase trace) (hid : phase id = .live) (as : List α) :
    Tracks phase (trace ++ as.map fun a => (id, .used a)) := by
  have hlived := h id
  rw [hid] at hlived
  obtain ⟨before, hbefore⟩ := hlived
  have hafter := h.append id (as.map .used) .live
    ⟨before ++ as, by rw [hbefore, List.map_append, List.cons_append]⟩
  rw [List.map_map] at hafter
  refine hafter.congr fun id' => ?_
  by_cases hid' : id' = id
  · rw [hid', hid, Function.update_self]
  · rw [Function.update_of_ne hid']

theorem Tracks.closed (h : Tracks phase trace) (hid : phase id = .live) :
    Tracks (Function.update phase id .done) (trace ++ [(id, .closed)]) := by
  have hlived := h id
  rw [hid] at hlived
  obtain ⟨before, hbefore⟩ := hlived
  exact h.append id [.closed] .done ⟨before, by rw [hbefore]⟩

end Tracks

end Lifecycle
