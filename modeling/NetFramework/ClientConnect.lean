/-
`Client::connect` of client.cpp on POSIX.

What the system answers for an address is in the `Address`: `socket()` gives a descriptor or -1, `connect()` gives 0 or
-1. `NULLSOCKET` is 0 there. Both results are compared with it, so a failing `socket()` is not noticed, a refused
connection is taken for a connection, and behind a connection the loop goes on.
- `connect_reports_iff`: the caller is told what happened, if and only if there is one address, which connects, or none
  connects and the first one gets the descriptor 0.
-/
import Mathlib.Data.List.Basic
import Mathlib.Tactic

namespace NetFramework
namespace Client

/-! ## Model -/

/-- a resolved address, with what `socket()` and `connect()` return for it; `connect()` fails without a socket -/
structure Address where
  socket : ℤ
  connect : ℤ
  socket_range : -1 ≤ socket
  connect_range : connect = 0 ∨ connect = -1
  no_socket : socket = -1 → connect = -1

def NULLSOCKET : ℤ := 0

/-- what a call returns, the member `connectSocket` after it, and the addresses that it has tried, in this order -/
structure Connect where
  returned : Bool
  connectSocket : ℤ
  tried : List Address

/-- the loop over the addresses -/
def connectLoop (connectSocket : ℤ) : List Address → Connect
  | [] => ⟨true, connectSocket, []⟩
  | ptr :: next =>
    if ptr.socket = NULLSOCKET then ⟨false, ptr.socket, [ptr]⟩
    else if ptr.connect = NULLSOCKET then
      -- "Could not connect to"
      let rest := connectLoop ptr.socket next
      { rest with tried := ptr :: rest.tried }
    else ⟨true, ptr.socket, [ptr]⟩

/-- `connect`; none if `getaddrinfo` fails -/
def connect (connectSocket : ℤ) : Option (List Address) → Connect
  | none => ⟨false, connectSocket, []⟩
  | some result => connectLoop connectSocket result

/-! ## What the caller is told -/

/-- the address connects when it is tried -/
def Address.Connects (a : Address) : Prop := a.connect = 0

instance (a : Address) : Decidable a.Connects := by unfold Address.Connects; infer_instance

/-- `connect` returns true if and only if an address connects. The addresses up to the first that does have then been
tried, and `connectSocket` is the descriptor of that one. -/
structure Reports (addresses : List Address) (r : Connect) : Prop where
  returned : r.returned = true ↔ ∃ a ∈ addresses, a.Connects
  first : ∀ before a after, addresses = before ++ a :: after → (∀ b ∈ before, ¬ b.Connects) → a.Connects →
    r.tried = before ++ [a] ∧ r.connectSocket = a.socket

section Loop

variable {connectSocket : ℤ} {a : Address} {addresses rest : List Address}

theorem connectLoop_null (h : a.socket = 0) : connectLoop connectSocket (a :: rest) = ⟨false, a.socket, [a]⟩ :=
  if_pos h

/-- an address that connects, and does not get the descriptor 0, is not the last that is tried -/
theorem connectLoop_connects (h : a.socket ≠ 0) (hconnects : a.Connects) :
    connectLoop connectSocket (a :: rest) =
      { connectLoop a.socket rest with tried := a :: (connectLoop a.socket rest).tried } :=
  (if_neg h).trans (if_pos hconnects)

theorem connectLoop_refused (h : a.socket ≠ 0) (hrefused : ¬ a.Connects) :
    connectLoop connectSocket (a :: rest) = ⟨true, a.socket, [a]⟩ := (if_neg h).trans (if_neg hrefused)

/-- the first address is always tried -/
theorem connectLoop_tried (connectSocket : ℤ) (a : Address) (rest : List Address) :
    ∃ more, (connectLoop connectSocket (a :: rest)).tried = a :: more := by
  by_cases h : a.socket = 0
  · exact ⟨[], by rw [connectLoop_null h]⟩
  · by_cases hconnects : a.Connects
    · exact ⟨_, by rw [connectLoop_connects h hconnects]⟩
    · exact ⟨[], by rw [connectLoop_refused h hconnects]⟩

theorem exists_first (h : ∃ a ∈ addresses, a.Connects) :
    ∃ before a after, addresses = before ++ a :: after ∧ (∀ b ∈ before, ¬ b.Connects) ∧ a.Connects := by
  induction addresses with
  | nil =>
    obtain ⟨a, ha, -⟩ := h
    cases ha
  | cons b addresses ih =>
    by_cases hb : b.Connects
    · exact ⟨[], b, addresses, rfl, by simp, hb⟩
    · obtain ⟨a, ha, hconnects⟩ := h
      have hrest : ∃ a ∈ addresses, a.Connects := by
        rcases List.mem_cons.1 ha with rfl | ha
        · exact absurd hconnects hb
        · exact ⟨a, ha, hconnects⟩
      obtain ⟨before, c, after, rfl, hbefore, hc⟩ := ih hrest
      refine ⟨b :: before, c, after, rfl, ?_, hc⟩
      intro x hx
      rcases List.mem_cons.1 hx with rfl | hx
      · exact hb
      · exact hbefore x hx

/-- the first address gets the descriptor 0, and the loop is left at once -/
theorem reports_null : Reports (a :: rest) ⟨false, a.socket, [a]⟩ ↔ ∀ b ∈ a :: rest, ¬ b.Connects := by
  refine ⟨?_, ?_⟩
  · intro h b hb hconnects
    cases h.returned.2 ⟨b, hb, hconnects⟩
  · intro h
    refine ⟨iff_of_false Bool.false_ne_true ?_, ?_⟩
    · rintro ⟨b, hb, hconnects⟩
      exact h b hb hconnects
    · intro before b after he _ hconnects
      exact absurd hconnects (h b (he ▸ List.mem_append_right before List.mem_cons_self))

/-- the first address connects, and the loop goes on to the next if there is one -/
theorem reports_connects (h : a.Connects) :
    Reports (a :: rest) { connectLoop a.socket rest with tried := a :: (connectLoop a.socket rest).tried } ↔
      rest = [] := by
  refine ⟨?_, ?_⟩
  · intro hreports
    have htried := (hreports.first [] a rest rfl (by simp) h).1
    cases rest with
    | nil => rfl
    | cons b rest =>
      obtain ⟨more, hmore⟩ := connectLoop_tried a.socket b rest
      rw [hmore] at htried
      cases htried
  · rintro rfl
    refine ⟨iff_of_true rfl ⟨a, List.mem_cons_self, h⟩, ?_⟩
    intro before b after he hbefore _
    cases before with
    | nil =>
      cases he
      exact ⟨rfl, rfl⟩
    | cons c before => exact absurd h (hbefore a ((List.cons.inj he).1 ▸ List.mem_cons_self))

/-- the loop is left with true after a connection was refused -/
theorem not_reports_refused (h : ¬ a.Connects) : ¬ Reports (a :: rest) ⟨true, a.socket, [a]⟩ := by
  intro hreports
  obtain ⟨before, b, after, he, hbefore, hb⟩ := exists_first (hreports.returned.1 rfl)
  have htried := (hreports.first before b after he hbefore hb).1
  cases before with
  | nil =>
    cases he
    exact h hb
  | cons c before => exact List.append_ne_nil_of_right_ne_nil before (List.cons_ne_nil b []) (List.cons.inj htried).2.symm

end Loop

/-- **What happened.** `connect` tells its caller what happened if and only if there is a single address, it connects and
its descriptor is not 0, or no address connects and the first one gets the descriptor 0. -/
theorem connect_reports_iff (connectSocket : ℤ) (addresses : List Address) :
    Reports addresses (connect connectSocket (some addresses)) ↔
      (∃ a, addresses = [a] ∧ a.Connects ∧ a.socket ≠ 0) ∨
        (addresses.head?.map Address.socket = some 0 ∧ ∀ a ∈ addresses, ¬ a.Connects) := by
  rw [connect]
  cases addresses with
  | nil =>
    refine iff_of_false ?_ ?_
    · intro h
      obtain ⟨a, ha, -⟩ := h.returned.1 rfl
      cases ha
    · rintro (⟨a, ha, -⟩ | ⟨h, -⟩)
      · cases ha
      · cases h
  | cons a rest =>
    have hsingle : (∃ b, a :: rest = [b] ∧ b.Connects ∧ b.socket ≠ 0) ↔ rest = [] ∧ a.Connects ∧ a.socket ≠ 0 := by
      refine ⟨?_, fun h => ⟨a, by rw [h.1], h.2⟩⟩
      rintro ⟨b, hb, h⟩
      cases hb
      exact ⟨rfl, h⟩
    have hhead : (a :: rest).head?.map Address.socket = some 0 ↔ a.socket = 0 := Option.some_inj
    rw [hsingle, hhead]
    by_cases hnull : a.socket = 0
    · rw [connectLoop_null hnull, reports_null, or_iff_right fun h => h.2.2 hnull, and_iff_right hnull]
    · rw [or_iff_left fun h => hnull h.1]
      by_cases hconnects : a.Connects
      · rw [connectLoop_connects hnull hconnects, reports_connects hconnects, and_iff_left ⟨hconnects, hnull⟩]
      · rw [connectLoop_refused hnull hconnects]
        exact iff_of_false (not_reports_refused hconnects) fun h => hconnects h.2.1

/-- **A refused connection.** There is one address, which refuses. `connect` returns true and leaves a socket that is not
connected in `connectSocket`. -/
theorem refused_reported :
    ∃ a : Address, a.socket = 3 ∧ a.connect = -1 ∧ (connect NULLSOCKET (some [a])).returned = true ∧
      (connect NULLSOCKET (some [a])).connectSocket = 3 ∧ ¬ Reports [a] (connect NULLSOCKET (some [a])) := by
  refine ⟨⟨3, -1, by decide, Or.inr rfl, fun _ => rfl⟩, rfl, rfl, rfl, rfl, ?_⟩
  intro h
  obtain ⟨a, ha, hconnects⟩ := h.returned.1 rfl
  cases List.mem_singleton.1 ha
  cases hconnects

end Client
end NetFramework
