/-
One iteration of `Server::poll` around `select`: from the return of `select` to the next head of the loop, among the
`sendData` calls of other threads. `iterationStep` is `step` without the head.

- `iteration_serves`: whatever `select` reports and whatever `accept`, `recv` and `send` return, the system calls of an
  iteration are those for each descriptor in turn: one `accept` or `recv` if it is ready to read, and one `send` if it is
  ready to write and its client has not hung up. A client is not passed over for another, nor served twice.
- `iteration_ends`: an iteration is over after at most four steps for each descriptor, and until then the poll thread is
  held up only by a `sendData` call on the connection that it is about to delete.
-/
import NetFramework.Library.Product
import NetFramework.Library.Progress
import NetFramework.ServerTable

namespace NetFramework
namespace SelectServer

open Transition

/-! ## System calls -/

/-- a call on a socket; `ended` if `recv` has returned 0 -/
inductive SystemCall where
  | accept
  | recv (fd : ℕ) (ended : Bool)
  | send (fd : ℕ)
deriving DecidableEq, Repr

/-- the calls of a step; `send` is called with the data swapped out -/
def systemCalls (s : SelectServer) : Op → List SystemCall
  | .accept _ _ => [.accept]
  | .recv result =>
    match s.pc with
    | .service i => [.recv i (result = .bytes [])]
    | _ => []
  | .write =>
    match s.pc with
    | .write i _ => if i ∈ s.writeFdSet ∧ s.conn i ≠ none then [.send i] else []
    | _ => []
  | _ => []

/-- a step that does not begin another iteration -/
def iterationStep (cfg : ServerConfig) (s : SelectServer) : Op → Option SelectServer
  | .swap => none
  | o => step cfg s o

/-- the call for the descriptor `i` if it is ready to read; `ended` are those whose clients have hung up -/
def readCall (cfg : ServerConfig) (readable ended : Finset ℕ) (i : ℕ) : List SystemCall :=
  if i ∈ readable then [if i = cfg.listenSocket then .accept else .recv i (i ∈ ended)] else []

def sendCall (writable ended : Finset ℕ) (i : ℕ) : List SystemCall := if i ∈ writable ∧ i ∉ ended then [.send i] else []

/-- the calls for the descriptors below `n` -/
def turns (cfg : ServerConfig) (readable writable ended : Finset ℕ) (n : ℕ) : List SystemCall :=
  (List.range n).flatMap fun i => readCall cfg readable ended i ++ sendCall writable ended i

section Turns

variable {cfg : ServerConfig} {readable writable ended : Finset ℕ} {i n : ℕ}

theorem turns_succ : turns cfg readable writable ended (i + 1) =
    turns cfg readable writable ended i ++ readCall cfg readable ended i ++ sendCall writable ended i := by
  rw [turns, List.range_succ, List.flatMap_append, List.flatMap_singleton, ← turns, List.append_assoc]

theorem turns_insert (hi : n ≤ i) :
    turns cfg readable writable (insert i ended) n = turns cfg readable writable ended n := by
  refine List.flatMap_congr ?_
  intro j hj
  have hne : j ≠ i := by
    have := List.mem_range.1 hj
    omega
  simp [readCall, sendCall, hne]

theorem turns_le (hi : i ≤ n) : turns cfg readable writable ended i <+: turns cfg readable writable ended n := by
  induction n with
  | zero => rw [Nat.le_zero.1 hi]
  | succ n ih =>
    rcases Nat.le_or_eq_of_le_succ hi with hi | rfl
    · rw [turns_succ, List.append_assoc]
      exact (ih hi).trans (List.prefix_append _ _)
    · exact List.prefix_rfl

/-- the turn of `i` as far as its first call -/
theorem turns_half (hi : i < n) :
    turns cfg readable writable ended i ++ readCall cfg readable ended i <+: turns cfg readable writable ended n := by
  refine List.IsPrefix.trans ?_ (turns_le hi)
  rw [turns_succ]
  exact List.prefix_append _ _

end Turns

/-! ## What is guarded -/

section Guards

variable {cfg : ServerConfig} {s s' : SelectServer} {i : ℕ}

theorem iterationStep_some {o : Op} (h : iterationStep cfg s o = some s') : o ≠ .swap ∧ step cfg s o = some s' := by
  cases o with
  | swap => cases h
  | _ => exact ⟨by simp, h⟩

theorem swap_live (h : step cfg s .swap = some s') {p : ℕ} (hp : p ∈ s.writingSockets) : s.fdAt p ≠ none := by
  obtain ⟨hpc, -⟩ := step_swap h
  simp only [step, hpc] at h
  split_ifs at h with hlive
  obtain ⟨o, ho⟩ := Option.isSome_iff_exists.1 (hlive p hp)
  rw [fdAt, ho]
  simp

theorem select_ready {readable writable : Finset ℕ} (h : step cfg s (.select (some (readable, writable))) = some s') :
    s.pc = .selecting ∧ readable ⊆ s.activeFdSet ∧ writable ⊆ s.writeFdSet ∧
      s' = { s with readFdSet := readable, writeFdSet := writable, pc := .service 0 } := by
  obtain ⟨hpc, -⟩ := step_select h
  simp only [step, hpc, selectReturns] at h
  split_ifs at h with hsub
  exact ⟨hpc, hsub.1, hsub.2, (Option.some.inj h).symm⟩

theorem accept_ready {newConn : Option ℕ} {p : ℕ} (h : step cfg s (.accept newConn p) = some s')
    (hpc : s.pc = .service i) : i < cfg.fdSetSize ∧ i ∈ s.readFdSet ∧ i = cfg.listenSocket := by
  simp only [step, hpc] at h
  split_ifs at h with hi
  exact hi

theorem recv_ready {result : RecvResult} (h : step cfg s (.recv result) = some s') (hpc : s.pc = .service i) :
    i < cfg.fdSetSize ∧ i ∈ s.readFdSet ∧ i ≠ cfg.listenSocket := by
  simp only [step, hpc] at h
  split_ifs at h with hi
  exact hi

/-- the loop goes on without a call: it has come to its end, or `i` is not ready, or has no connection -/
theorem pass_ready (h : step cfg s .pass = some s') (hpc : s.pc = .service i) :
    (cfg.fdSetSize ≤ i ∧ s' = { s with pc := .head }) ∨
      (i < cfg.fdSetSize ∧ i ∉ s.readFdSet ∧ s' = { s with pc := .write i false }) ∨
      (i < cfg.fdSetSize ∧ i ∈ s.readFdSet ∧ i ≠ cfg.listenSocket ∧ s.conn i = none ∧
        s' = { s.touch i with pc := .write i false }) := by
  simp only [step, hpc] at h
  split_ifs at h with hend hready hnone
  · exact Or.inl ⟨hend, (Option.some.inj h).symm⟩
  · exact Or.inr (Or.inr ⟨not_le.1 hend, hready, hnone.1, hnone.2, (Option.some.inj h).symm⟩)
  · exact Or.inr (Or.inl ⟨not_le.1 hend, hready, (Option.some.inj h).symm⟩)

theorem write_ready {deleteSocket : Bool} (h : step cfg s .write = some s') (hpc : s.pc = .write i deleteSocket) :
    (¬ (i ∈ s.writeFdSet ∧ s.conn i ≠ none) ∧ (s' = s.next i deleteSocket ∨ s' = (s.touch i).next i deleteSocket)) ∨
      (i ∈ s.writeFdSet ∧ s.conn i ≠ none) ∧ ∃ p o, s.heap p = some o ∧
        s' = { s.put p { o with conn := o.conn.swapDataToSend.1 } with
          pc := .sending i o.conn.swapDataToSend.2 deleteSocket } := by
  simp only [step, hpc] at h
  split_ifs at h with hi
  · split at h
    · rename_i hnone
      exact Or.inl ⟨fun hready => hready.2 hnone, Or.inr (Option.some.inj h).symm⟩
    · rename_i p hp
      split at h
      · cases h
      · rename_i o ho
        exact Or.inr ⟨⟨hi, by simp [hp]⟩, p, o, ho, (Option.some.inj h).symm⟩
  · exact Or.inl ⟨fun hready => hi hready.1, Or.inl (Option.some.inj h).symm⟩

end Guards

/-! ## What the loop has still to come to -/

/-- what `select` has reported, for the descriptors from `i` on -/
structure Ahead (readable writable : Finset ℕ) (i : ℕ) (s : SelectServer) : Prop where
  read : s.readFdSet = readable
  write : s.writeFdSet = writable
  active : ∀ j ∈ readable, i ≤ j → j ∈ s.activeFdSet
  conn : ∀ j ∈ writable, i ≤ j → s.conn j ≠ none

/-- the descriptors below `i` whose clients have hung up in the iteration -/
def HungUp (cfg : ServerConfig) (readable : Finset ℕ) (i : ℕ) (ended : Finset ℕ) : Prop :=
  ∀ j ∈ ended, j ∈ readable.erase cfg.listenSocket ∧ j < i

/-- what holds at a place in the iteration once `calls` have been made -/
def Stage (cfg : ServerConfig) (readable writable ended : Finset ℕ) (calls : List SystemCall) (s : SelectServer) :
    Pc → Prop
  | .service i => i ≤ cfg.fdSetSize ∧ HungUp cfg readable i ended ∧ Ahead readable writable i s ∧
      calls = turns cfg readable writable ended i
  | .disconnecting i _ => i < cfg.fdSetSize ∧ HungUp cfg readable (i + 1) ended ∧ i ∈ ended ∧
      Ahead readable writable (i + 1) s ∧ calls = turns cfg readable writable ended i ++ readCall cfg readable ended i
  | .write i _ => i < cfg.fdSetSize ∧ HungUp cfg readable (i + 1) ended ∧
      (i ∈ writable → (s.conn i = none ↔ i ∈ ended)) ∧ Ahead readable writable (i + 1) s ∧
      calls = turns cfg readable writable ended i ++ readCall cfg readable ended i
  | .sending i _ _ => i < cfg.fdSetSize ∧ HungUp cfg readable (i + 1) ended ∧ Ahead readable writable (i + 1) s ∧
      calls = turns cfg readable writable ended (i + 1)
  | .head => HungUp cfg readable cfg.fdSetSize ended ∧ calls = turns cfg readable writable ended cfg.fdSetSize
  | .returned | .thrown =>
    HungUp cfg readable cfg.fdSetSize ended ∧ calls <+: turns cfg readable writable ended cfg.fdSetSize
  | .selecting => False

/-- where the loop is in its iteration once `calls` have been made -/
def Swept (cfg : ServerConfig) (readable writable : Finset ℕ) (calls : List SystemCall) (s : SelectServer) : Prop :=
  ∃ ended, Stage cfg readable writable ended calls s s.pc

/-- the descriptors that `select` is asked about have connections -/
def Asked (s : SelectServer) : Prop := s.pc = .selecting → ∀ j ∈ s.writeFdSet, s.conn j ≠ none

section Ahead

variable {cfg : ServerConfig} {s s' : SelectServer} {readable writable ended : Finset ℕ} {i : ℕ}
  {calls : List SystemCall}

theorem Ahead.next (h : Ahead readable writable i s) (hread : s'.readFdSet = s.readFdSet)
    (hwrite : s'.writeFdSet = s.writeFdSet) (hactive : ∀ j, i < j → j ∈ s.activeFdSet → j ∈ s'.activeFdSet)
    (hconn : ∀ j, i < j → s.conn j ≠ none → s'.conn j ≠ none) : Ahead readable writable (i + 1) s' :=
  ⟨hread.trans h.read, hwrite.trans h.write, fun j hj hij => hactive j hij (h.active j hj (Nat.le_of_succ_le hij)),
    fun j hj hij => hconn j hij (h.conn j hj (Nat.le_of_succ_le hij))⟩

theorem Ahead.frame (h : Ahead readable writable i s) (hread : s'.readFdSet = s.readFdSet)
    (hwrite : s'.writeFdSet = s.writeFdSet) (hactive : ∀ j, i ≤ j → j ∈ s.activeFdSet → j ∈ s'.activeFdSet)
    (hconn : ∀ j, s'.conn j = s.conn j) : Ahead readable writable i s' :=
  ⟨hread.trans h.read, hwrite.trans h.write, fun j hj hij => hactive j hij (h.active j hj hij),
    fun j hj hij => (hconn j).symm ▸ h.conn j hj hij⟩

theorem HungUp.mono {n : ℕ} (h : HungUp cfg readable i ended) (hi : i ≤ n) : HungUp cfg readable n ended :=
  fun j hj => ⟨(h j hj).1, (h j hj).2.trans_le hi⟩

theorem HungUp.not_mem (h : HungUp cfg readable i ended) : i ∉ ended := fun hi => absurd (h i hi).2 (lt_irrefl i)

theorem HungUp.insert (h : HungUp cfg readable i ended) (hread : i ∈ readable) (hlisten : i ≠ cfg.listenSocket) :
    HungUp cfg readable (i + 1) (insert i ended) := by
  intro j hj
  rcases Finset.mem_insert.1 hj with rfl | hj
  · exact ⟨Finset.mem_erase.2 ⟨hlisten, hread⟩, Nat.lt_succ_self j⟩
  · exact ⟨(h j hj).1, (h j hj).2.trans (Nat.lt_succ_self i)⟩

/-- a step that leaves the poll thread where it is, and what it looks at -/
theorem Swept.frame (h : Swept cfg readable writable calls s) (hpc : s'.pc = s.pc)
    (hread : s'.readFdSet = s.readFdSet) (hwrite : s'.writeFdSet = s.writeFdSet)
    (hactive : s'.activeFdSet = s.activeFdSet) (hconn : ∀ j, s'.conn j = s.conn j) :
    Swept cfg readable writable calls s' := by
  have hkeep : ∀ {i}, Ahead readable writable i s → Ahead readable writable i s' :=
    fun ha => ha.frame hread hwrite (fun j _ hj => hactive.symm ▸ hj) hconn
  obtain ⟨ended, hstage⟩ := h
  refine ⟨ended, ?_⟩
  rw [hpc]
  revert hstage
  cases s.pc with
  | service i =>
    rintro ⟨hi, hended, hahead, hcalls⟩
    exact ⟨hi, hended, hkeep hahead, hcalls⟩
  | disconnecting i p =>
    rintro ⟨hi, hended, hin, hahead, hcalls⟩
    exact ⟨hi, hended, hin, hkeep hahead, hcalls⟩
  | write i deleteSocket =>
    rintro ⟨hi, hended, hmine, hahead, hcalls⟩
    exact ⟨hi, hended, by rwa [hconn i], hkeep hahead, hcalls⟩
  | sending i data deleteSocket =>
    rintro ⟨hi, hended, hahead, hcalls⟩
    exact ⟨hi, hended, hkeep hahead, hcalls⟩
  | _ => exact id

end Ahead

/-! ## A step of the iteration -/

section Steps

variable {cfg : ServerConfig} {s s' : SelectServer} {readable writable : Finset ℕ} {calls : List SystemCall} {i : ℕ}

/-- the connections that `select` has reported are there when their turn comes -/
theorem Ahead.connected (h : Table cfg s) (hahead : Ahead readable writable i s) (hpc : s.pc = .service i)
    (hready : i ∈ s.readFdSet) (hlisten : i ≠ cfg.listenSocket) : s.conn i ≠ none := by
  have hactive := hahead.active i (hahead.read ▸ hready) le_rfl
  rcases (h.active i).1 hactive with heq | hconn | ⟨p, hleaving⟩
  · exact absurd heq hlisten
  · exact hconn
  · exact absurd (hpc.symm.trans hleaving) (by simp)

theorem accept_swept {newConn : Option ℕ} {p : ℕ} (h : Swept cfg readable writable calls s)
    (hs : step cfg s (.accept newConn p) = some s') : Swept cfg readable writable (calls ++ [.accept]) s' := by
  obtain ⟨ended, hstage⟩ := h
  obtain ⟨i, hpc, hcases⟩ := step_accept hs
  obtain ⟨hlt, hready, hlisten⟩ := accept_ready hs hpc
  rw [hpc] at hstage
  obtain ⟨-, hended, hahead, rfl⟩ := hstage
  have hcall : readCall cfg readable ended i = [.accept] := by
    rw [readCall, if_pos (hahead.read ▸ hready), if_pos hlisten]
  rw [← hcall]
  rcases hcases with rfl | ⟨fd, -, -, -, rfl⟩
  · exact ⟨ended, hended.mono hlt.le, turns_half hlt⟩
  · have hconn : ∀ j, s.conn j ≠ none →
        connAt (Function.update s.clientSockets fd (some (some p))) j ≠ none := by
      intro j hj
      rw [connAt_update]
      split_ifs
      · simp
      · exact hj
    refine ⟨ended, hlt, hended.mono (Nat.le_succ i), ?_, ?_, rfl⟩
    · intro hwrite
      exact iff_of_false (hconn i (hahead.conn i hwrite le_rfl)) hended.not_mem
    · exact hahead.next rfl rfl (fun j _ hj => Finset.mem_insert_of_mem hj) fun j _ => hconn j

theorem recv_swept {result : RecvResult} (h : Swept cfg readable writable calls s)
    (hs : step cfg s (.recv result) = some s') :
    Swept cfg readable writable (calls ++ systemCalls s (.recv result)) s' := by
  obtain ⟨ended, hstage⟩ := h
  obtain ⟨i, p, o, hpc, hlisten, hp, ho, rfl⟩ := step_recv hs
  obtain ⟨hlt, hready, -⟩ := recv_ready hs hpc
  rw [hpc] at hstage
  obtain ⟨-, hended, hahead, rfl⟩ := hstage
  have hread : i ∈ readable := hahead.read ▸ hready
  have hcall : ∀ e, readCall cfg readable e i = [.recv i (i ∈ e)] := by
    intro e
    rw [readCall, if_pos hread, if_neg hlisten]
  have hmine : i ∈ writable → s.conn i ≠ none := fun hwrite => hahead.conn i hwrite le_rfl
  simp only [systemCalls, hpc]
  rcases receive_cases cfg s i p o result with ⟨rfl, heq⟩ | ⟨rfl, heq⟩ | ⟨receivedData, bufs, heq⟩
  · rw [heq]
    refine ⟨ended, hended.mono hlt.le, ?_⟩
    have hhalf : turns cfg readable writable ended i ++ readCall cfg readable ended i <+:
        turns cfg readable writable ended cfg.fdSetSize := turns_half hlt
    simpa [hcall, hended.not_mem] using hhalf
  · rw [heq]
    refine ⟨insert i ended, hlt, hended.insert hread hlisten, Finset.mem_insert_self i ended, ?_, ?_⟩
    · refine hahead.next rfl rfl (fun _ _ => id) ?_
      intro j hj hconn
      rwa [conn, connAt_update, if_neg (Nat.ne_of_gt hj)]
    · rw [turns_insert le_rfl, hcall]
      simp
  · have hne : result ≠ .bytes [] := by
      rintro rfl
      exact absurd (congrArg SelectServer.pc heq) (by simp [receive, ClientConnection.receiveDataFromSocket])
    rw [heq]
    refine ⟨ended, hlt, hended.mono (Nat.le_succ i), ?_, ?_, ?_⟩
    · intro hwrite
      exact iff_of_false (hmine hwrite) hended.not_mem
    · exact hahead.next rfl rfl (fun _ _ => id) fun _ _ => id
    · rw [hcall]
      simp [hne, hended.not_mem]

theorem pass_swept (ht : Table cfg s) (h : Swept cfg readable writable calls s) (hs : step cfg s .pass = some s') :
    Swept cfg readable writable calls s' := by
  obtain ⟨ended, hstage⟩ := h
  obtain ⟨i, hpc, -⟩ := step_pass hs
  rw [hpc] at hstage
  obtain ⟨hle, hended, hahead, rfl⟩ := hstage
  rcases pass_ready hs hpc with ⟨hend, rfl⟩ | ⟨hlt, hnot, rfl⟩ | ⟨hlt, hready, hlisten, hnone, -⟩
  · obtain rfl : i = cfg.fdSetSize := Nat.le_antisymm hle hend
    exact ⟨ended, hended, rfl⟩
  · have hcall : readCall cfg readable ended i = [] := by rw [readCall, if_neg (hahead.read ▸ hnot)]
    refine ⟨ended, hlt, hended.mono (Nat.le_succ i), ?_, ?_, ?_⟩
    · intro hwrite
      exact iff_of_false (hahead.conn i hwrite le_rfl) hended.not_mem
    · exact hahead.next rfl rfl (fun _ _ => id) fun _ _ => id
    · rw [hcall, List.append_nil]
  · exact absurd hnone (hahead.connected ht hpc hready hlisten)

theorem callbackDone_swept (ht : Table cfg s) (h : Swept cfg readable writable calls s)
    (hs : step cfg s .callbackDone = some s') : Swept cfg readable writable calls s' := by
  obtain ⟨ended, hstage⟩ := h
  obtain ⟨i, p, hpc, -, rfl⟩ := step_callbackDone hs
  rw [hpc] at hstage
  obtain ⟨hlt, hended, hin, hahead, rfl⟩ := hstage
  refine ⟨ended, hlt, hended, ?_, ?_, rfl⟩
  · intro _
    exact iff_of_true (ht.leaving i p hpc).2.1 hin
  · exact hahead.frame rfl rfl (fun j hj hactive => Finset.mem_erase.2 ⟨Nat.ne_of_gt hj, hactive⟩) fun _ => rfl

/-- the end of a turn -/
theorem Ahead.turn {ended : Finset ℕ} {deleteSocket : Bool} (hahead : Ahead readable writable (i + 1) s)
    (hlt : i < cfg.fdSetSize) (hended : HungUp cfg readable (i + 1) ended)
    (hcalls : calls = turns cfg readable writable ended (i + 1)) (hnext : s' = s.next i deleteSocket) :
    Swept cfg readable writable calls s' := by
  subst hnext
  exact ⟨ended, hlt, hended, hahead.frame rfl rfl (fun _ _ => id) fun _ => rfl, hcalls⟩

theorem write_swept (h : Swept cfg readable writable calls s) (hs : step cfg s .write = some s') :
    Swept cfg readable writable (calls ++ systemCalls s .write) s' := by
  obtain ⟨ended, hstage⟩ := h
  obtain ⟨i, deleteSocket, hpc, -⟩ := step_write hs
  rw [hpc] at hstage
  obtain ⟨hlt, hended, hmine, hahead, rfl⟩ := hstage
  have hwrite := hahead.write
  simp only [systemCalls, hpc]
  rcases write_ready hs hpc with ⟨hnot, hnext⟩ | ⟨hready, p, o, ho, rfl⟩
  · have hcall : sendCall writable ended i = [] := by
      refine if_neg fun hsend => hnot ⟨hwrite.symm ▸ hsend.1, ?_⟩
      exact fun hnone => hsend.2 ((hmine hsend.1).1 hnone)
    have hturn : turns cfg readable writable ended i ++ readCall cfg readable ended i ++ [] =
        turns cfg readable writable ended (i + 1) := by rw [turns_succ, hcall]
    rw [if_neg hnot]
    rcases hnext with hnext | hnext
    · exact hahead.turn hlt hended hturn hnext
    · have htouch : Ahead readable writable (i + 1) (s.touch i) :=
        hahead.frame rfl rfl (fun _ _ => id) (touch_conn s i)
      exact htouch.turn hlt hended hturn hnext
  · have hin : i ∈ writable := hwrite ▸ hready.1
    have hcall : sendCall writable ended i = [.send i] := if_pos ⟨hin, fun he => hready.2 ((hmine hin).2 he)⟩
    rw [if_pos hready]
    refine ⟨ended, hlt, hended, ?_, ?_⟩
    · exact hahead.frame rfl rfl (fun _ _ => id) fun _ => rfl
    · rw [turns_succ, hcall]

theorem sent_swept {sent : Option ℕ} (h : Swept cfg readable writable calls s)
    (hs : step cfg s (.sent sent) = some s') : Swept cfg readable writable calls s' := by
  obtain ⟨ended, hstage⟩ := h
  obtain ⟨i, data, deleteSocket, hpc, hnext⟩ := step_sent hs
  rw [hpc] at hstage
  obtain ⟨hlt, hended, hahead, hcalls⟩ := hstage
  exact hahead.turn hlt hended hcalls hnext

theorem Swept.silent {o : Op} (h : Swept cfg readable writable calls s') (ho : systemCalls s o = []) :
    Swept cfg readable writable (calls ++ systemCalls s o) s' := by
  rwa [ho, List.append_nil]

/-- **A step of the iteration.** The calls made so far stay those of the turns. -/
theorem step_swept {o : Op} (ht : Table cfg s) (h : Swept cfg readable writable calls s)
    (hs : iterationStep cfg s o = some s') : Swept cfg readable writable (calls ++ systemCalls s o) s' := by
  obtain ⟨hne, hs⟩ := iterationStep_some hs
  cases o with
  | append p data =>
    obtain ⟨c, -, rfl⟩ := step_append hs
    refine Swept.silent ?_ rfl
    exact h.frame rfl rfl rfl rfl fun _ => rfl
  | enter p =>
    obtain ⟨-, rfl⟩ := step_enter hs
    refine Swept.silent ?_ rfl
    exact h.frame rfl rfl rfl rfl fun _ => rfl
  | swap => exact absurd rfl hne
  | select ready =>
    obtain ⟨hpc, -⟩ := step_select hs
    obtain ⟨ended, hstage⟩ := h
    rw [hpc] at hstage
    exact absurd hstage id
  | accept newConn p => exact accept_swept h hs
  | recv result => exact recv_swept h hs
  | pass => exact (pass_swept ht h hs).silent rfl
  | callbackDone => exact (callbackDone_swept ht h hs).silent rfl
  | write => exact write_swept h hs
  | sent sent => exact (sent_swept h hs).silent rfl

theorem run_swept {ops : List Op} {fin : SelectServer} (ht : Table cfg s) (h : Swept cfg readable writable calls s)
    (hr : run (iterationStep cfg) s ops = some fin) :
    Swept cfg readable writable (calls ++ shown (iterationStep cfg) systemCalls s ops) fin := by
  induction ops generalizing s calls with
  | nil =>
    cases hr
    rwa [shown, List.append_nil]
  | cons o ops ih =>
    obtain ⟨u, hu, hr⟩ := run_cons_some.1 hr
    rw [shown_cons hu, ← List.append_assoc]
    exact ih (step_table ht (iterationStep_some hu).2) (step_swept ht h hu) hr

/-! ## From the head on -/

theorem Asked.frame (h : Asked s) (hpc : s'.pc = s.pc) (hwrite : s'.writeFdSet = s.writeFdSet)
    (hconn : ∀ j, s'.conn j = s.conn j) : Asked s' := by
  intro hselecting j hj
  rw [hconn]
  exact h (hpc ▸ hselecting) j (hwrite ▸ hj)

theorem Asked.elsewhere (hpc : s.pc ≠ .selecting) : Asked s := fun h => absurd h hpc

theorem step_asked {o : Op} (ht : Table cfg s) (h : Asked s) (hs : step cfg s o = some s') : Asked s' := by
  cases o with
  | append p data =>
    obtain ⟨c, -, rfl⟩ := step_append hs
    exact h.frame rfl rfl fun _ => rfl
  | enter p =>
    obtain ⟨-, rfl⟩ := step_enter hs
    exact h.frame rfl rfl fun _ => rfl
  | swap =>
    obtain ⟨hpc, heq⟩ := step_swap hs
    subst heq
    intro _ j hj
    obtain ⟨p, hp, rfl⟩ := Finset.mem_image.1 hj
    obtain ⟨fd, hfd⟩ := Option.ne_none_iff_exists'.1 (swap_live hs hp)
    rcases ht.owned fd p hfd with hconn | hleaving
    · have : s.fdOf p = fd := by rw [fdOf, hfd, Option.getD_some]
      rw [this]
      exact fun hnone => absurd (hconn.symm.trans hnone) (by simp)
    · exact absurd (hpc.symm.trans hleaving) (by simp)
  | select ready =>
    obtain ⟨-, rfl | ⟨readable, writable, -, -, -, rfl⟩⟩ := step_select hs
    · exact Asked.elsewhere (by simp)
    · exact Asked.elsewhere (by simp)
  | accept newConn p =>
    obtain ⟨i, -, rfl | ⟨fd, -, -, -, rfl⟩⟩ := step_accept hs
    · exact Asked.elsewhere (by simp)
    · exact Asked.elsewhere (by simp)
  | recv result =>
    obtain ⟨i, p, c, -, -, -, -, rfl⟩ := step_recv hs
    rcases receive_cases cfg s i p c result with ⟨-, heq⟩ | ⟨-, heq⟩ | ⟨receivedData, bufs, heq⟩
    all_goals
      rw [heq]
      exact Asked.elsewhere (by simp)
  | pass =>
    obtain ⟨i, -, ⟨-, rfl⟩ | rfl | rfl⟩ := step_pass hs
    all_goals exact Asked.elsewhere (by simp)
  | callbackDone =>
    obtain ⟨i, p, -, -, rfl⟩ := step_callbackDone hs
    exact Asked.elsewhere (by simp)
  | write =>
    obtain ⟨i, deleteSocket, -, ⟨-, rfl⟩ | ⟨-, rfl⟩ | ⟨p, c, -, -, rfl⟩⟩ := step_write hs
    all_goals exact Asked.elsewhere (by simp [next])
  | sent sent =>
    obtain ⟨i, data, deleteSocket, -, rfl⟩ := step_sent hs
    exact Asked.elsewhere (by simp [next])

/-- the return of `select` -/
theorem select_swept (ht : Table cfg s) (h : Asked s)
    (hs : step cfg s (.select (some (readable, writable))) = some s') :
    (∀ i ∈ readable ∪ writable, i < cfg.fdSetSize) ∧ Swept cfg readable writable [] s' := by
  obtain ⟨hpc, hread, hwrite, rfl⟩ := select_ready hs
  have hconn : ∀ j ∈ writable, s.conn j ≠ none := fun j hj => h hpc j (hwrite hj)
  refine ⟨?_, ∅, Nat.zero_le _, ?_, ⟨rfl, rfl, fun j hj _ => hread hj, fun j hj _ => hconn j hj⟩, rfl⟩
  · intro i hi
    rcases Finset.mem_union.1 hi with hi | hi
    · exact (ht.opened i (hread hi)).2
    · exact (ht.opened i ((ht.active i).2 (Or.inr (Or.inl (hconn i hi))))).2
  · intro j hj
    exact absurd hj (Finset.notMem_empty j)

theorem Swept.calls_eq (h : Swept cfg readable writable calls s) :
    ∃ ended ⊆ readable.erase cfg.listenSocket, calls <+: turns cfg readable writable ended cfg.fdSetSize ∧
      (s.pc = .head → calls = turns cfg readable writable ended cfg.fdSetSize) := by
  obtain ⟨ended, hstage⟩ := h
  have hsub : ∀ {i}, HungUp cfg readable i ended → ended ⊆ readable.erase cfg.listenSocket := fun h j hj => (h j hj).1
  refine ⟨ended, ?_⟩
  revert hstage
  cases s.pc with
  | head => exact fun h => ⟨hsub h.1, h.2 ▸ List.prefix_rfl, fun _ => h.2⟩
  | selecting => exact fun h => absurd h id
  | service i =>
    rintro ⟨hi, hended, -, rfl⟩
    exact ⟨hsub hended, turns_le hi, by simp⟩
  | disconnecting i p =>
    rintro ⟨hi, hended, -, -, rfl⟩
    exact ⟨hsub hended, turns_half hi, by simp⟩
  | write i deleteSocket =>
    rintro ⟨hi, hended, -, -, rfl⟩
    exact ⟨hsub hended, turns_half hi, by simp⟩
  | sending i data deleteSocket =>
    rintro ⟨hi, hended, -, rfl⟩
    exact ⟨hsub hended, turns_le hi, by simp⟩
  | returned => exact fun h => ⟨hsub h.1, h.2, by simp⟩
  | thrown => exact fun h => ⟨hsub h.1, h.2, by simp⟩

end Steps

/-! ## Runs -/

/-- **Every ready client is served, once.** In every run of the loop, whatever `select` reports: the calls of the iteration
are those of the turns of all descriptors, in order, up to where the loop has come; at the head of the next iteration they
have all been made. -/
theorem iteration_serves (cfg : ServerConfig) (before : List Op) (s : SelectServer)
    (hs : run (step cfg) (.start cfg) before = some s) (readable writable : Finset ℕ) (ops : List Op)
    (fin : SelectServer) (h : run (iterationStep cfg) s (.select (some (readable, writable)) :: ops) = some fin) :
    (∀ i ∈ readable ∪ writable, i < cfg.fdSetSize) ∧ ∃ ended ⊆ readable.erase cfg.listenSocket,
      shown (iterationStep cfg) systemCalls s (.select (some (readable, writable)) :: ops) <+:
        turns cfg readable writable ended cfg.fdSetSize ∧
      (fin.pc = .head → shown (iterationStep cfg) systemCalls s (.select (some (readable, writable)) :: ops) =
        turns cfg readable writable ended cfg.fdSetSize) := by
  have hstep : ∀ s o s', Table cfg s ∧ Asked s → step cfg s o = some s' → Table cfg s' ∧ Asked s' :=
    fun s o s' h hs => ⟨step_table h.1 hs, step_asked h.1 h.2 hs⟩
  obtain ⟨ht, hasked⟩ := run_inv hstep ⟨table_start cfg, Asked.elsewhere (by simp [start])⟩ hs
  obtain ⟨u, hu, hr⟩ := run_cons_some.1 h
  have hselect := (iterationStep_some hu).2
  obtain ⟨hsize, hswept⟩ := select_swept ht hasked hselect
  refine ⟨hsize, ?_⟩
  rw [shown_cons hu]
  exact (run_swept (step_table ht hselect) hswept hr).calls_eq

/-- a server that listens on descriptor 3 and has room for one client -/
def oneClient : ServerConfig := ⟨3, 5, fun _ => true, by decide⟩

/-- a client connects on descriptor 4 and is sent a byte, and `select` is called again -/
def greeted : List Op :=
  List.flatten [[.swap, .select (some ({3}, ∅))], idle 3, [.accept (some 4) 0, .append 0 [0x42], .enter 0, .write],
    idle 1, [.pass, .swap]]

/-- the client has sent a byte, and can be sent what it is to get -/
def servedRound : List Op :=
  .select (some ({4}, {4})) :: (idle 4 ++ [.recv (.bytes [0x41]), .write, .sent (some 1), .pass])

theorem run_greeted : (run (step oneClient) (.start oneClient) greeted).map SelectServer.pc = some .selecting := by
  decide +kernel

theorem run_served : ((run (step oneClient) (.start oneClient) greeted).bind fun s =>
    (run (iterationStep oneClient) s servedRound).map SelectServer.pc) = some .head := by
  decide +kernel

theorem iteration_serves_one :
    ∃ s ended, run (step oneClient) (.start oneClient) greeted = some s ∧ ended ⊆ ({4} : Finset ℕ) ∧
      shown (iterationStep oneClient) systemCalls s servedRound = turns oneClient {4} {4} ended 5 := by
  obtain ⟨s, hs, hserved⟩ := Option.bind_eq_some_iff.1 run_served
  obtain ⟨fin, hfin, hpc⟩ := Option.map_eq_some_iff.1 hserved
  obtain ⟨-, ended, hsub, -, hcalls⟩ := iteration_serves oneClient greeted s hs {4} {4} servedRound.tail fin hfin
  exact ⟨s, ended, hs, hsub.trans (Finset.erase_subset _ _), hcalls hpc⟩

/-! ## The end of an iteration -/

/-- a step of the poll thread -/
def Op.ofPoll : Op → Bool
  | .append _ _ => false
  | .enter _ => false
  | _ => true

/-- the loop is back at its head, or `poll` has ended -/
def Over (s : SelectServer) : Prop := s.pc = .head ∨ s.pc = .returned ∨ s.pc = .thrown

/-- a `sendData` call has not yet entered the connection that the poll thread is about to delete -/
def Waits (s : SelectServer) : Prop := ∃ i p, s.pc = .disconnecting i p ∧ p ∈ s.entering

/-- the steps of the poll thread that are left in the iteration, at most -/
def stepsLeft (cfg : ServerConfig) (s : SelectServer) : ℕ :=
  match s.pc with
  | .selecting => 4 * cfg.fdSetSize + 2
  | .service i => 4 * (cfg.fdSetSize - i) + 1
  | .disconnecting i _ => 4 * (cfg.fdSetSize - i)
  | .write i _ => 4 * (cfg.fdSetSize - i) - 1
  | .sending i _ _ => 4 * (cfg.fdSetSize - i) - 2
  | .head | .returned | .thrown => 0

/-- the loop is in the body for a descriptor that there is -/
def Pc.InRange (cfg : ServerConfig) : Pc → Prop
  | .disconnecting i _ | .write i _ | .sending i _ _ => i < cfg.fdSetSize
  | _ => True

section Ends

variable {cfg : ServerConfig} {s s' : SelectServer}

theorem next_left {i : ℕ} (hi : i < cfg.fdSetSize) (s : SelectServer) (deleteSocket : Bool) :
    stepsLeft cfg (s.next i deleteSocket) = 4 * (cfg.fdSetSize - i) - 3 := by
  simp only [stepsLeft, next]
  omega

/-- a step of the poll thread leaves fewer of them, and the others leave as many -/
theorem step_left {o : Op} (hi : s.pc.InRange cfg) (hs : iterationStep cfg s o = some s') :
    s'.pc.InRange cfg ∧ stepsLeft cfg s' + (if o.ofPoll then 1 else 0) ≤ stepsLeft cfg s := by
  obtain ⟨hne, hs⟩ := iterationStep_some hs
  cases o with
  | append p data =>
    obtain ⟨c, -, rfl⟩ := step_append hs
    exact ⟨hi, le_rfl⟩
  | enter p =>
    obtain ⟨-, rfl⟩ := step_enter hs
    exact ⟨hi, le_rfl⟩
  | swap => exact absurd rfl hne
  | select ready =>
    obtain ⟨hpc, rfl | ⟨readable, writable, -, -, -, rfl⟩⟩ := step_select hs
    all_goals exact ⟨trivial, by simp [stepsLeft, hpc, Op.ofPoll]⟩
  | accept newConn p =>
    obtain ⟨i, hpc, hcases⟩ := step_accept hs
    obtain ⟨hlt, -, -⟩ := accept_ready hs hpc
    rcases hcases with rfl | ⟨fd, -, -, -, rfl⟩
    · exact ⟨trivial, by simp [stepsLeft, hpc, Op.ofPoll]⟩
    · refine ⟨hlt, ?_⟩
      simp only [stepsLeft, hpc, Op.ofPoll, if_true]
      omega
  | recv result =>
    obtain ⟨i, p, c, hpc, -, -, -, rfl⟩ := step_recv hs
    obtain ⟨hlt, -, -⟩ := recv_ready hs hpc
    rcases receive_cases cfg s i p c result with ⟨-, heq⟩ | ⟨-, heq⟩ | ⟨receivedData, bufs, heq⟩
    · rw [heq]
      exact ⟨trivial, by simp [stepsLeft, hpc, Op.ofPoll]⟩
    · rw [heq]
      exact ⟨hlt, by simp [stepsLeft, hpc, Op.ofPoll]⟩
    · rw [heq]
      refine ⟨hlt, ?_⟩
      simp only [stepsLeft, hpc, Op.ofPoll, if_true]
      omega
  | pass =>
    obtain ⟨i, hpc, -⟩ := step_pass hs
    rcases pass_ready hs hpc with ⟨-, rfl⟩ | ⟨hlt, -, rfl⟩ | ⟨hlt, -, -, -, rfl⟩
    · exact ⟨trivial, by simp [stepsLeft, hpc, Op.ofPoll]⟩
    all_goals
      refine ⟨hlt, ?_⟩
      simp only [stepsLeft, hpc, Op.ofPoll, if_true]
      omega
  | callbackDone =>
    obtain ⟨i, p, hpc, -, rfl⟩ := step_callbackDone hs
    rw [hpc] at hi
    refine ⟨hi, ?_⟩
    have hlt : i < cfg.fdSetSize := hi
    simp only [stepsLeft, hpc, Op.ofPoll, if_true]
    omega
  | write =>
    obtain ⟨i, deleteSocket, hpc, hcases⟩ := step_write hs
    rw [hpc] at hi
    have hlt : i < cfg.fdSetSize := hi
    have hleft : stepsLeft cfg s = 4 * (cfg.fdSetSize - i) - 1 := by simp only [stepsLeft, hpc]
    rw [hleft]
    rcases hcases with ⟨-, rfl⟩ | ⟨-, rfl⟩ | ⟨p, c, -, -, rfl⟩
    · refine ⟨trivial, ?_⟩
      simp only [next_left hlt, Op.ofPoll, if_true]
      omega
    · refine ⟨trivial, ?_⟩
      simp only [next_left hlt, Op.ofPoll, if_true]
      omega
    · refine ⟨hi, ?_⟩
      simp only [stepsLeft, Op.ofPoll, if_true]
      omega
  | sent sent =>
    obtain ⟨i, data, deleteSocket, hpc, rfl⟩ := step_sent hs
    rw [hpc] at hi
    have hlt : i < cfg.fdSetSize := hi
    have hleft : stepsLeft cfg s = 4 * (cfg.fdSetSize - i) - 2 := by simp only [stepsLeft, hpc]
    refine ⟨trivial, ?_⟩
    simp only [hleft, next_left hlt, Op.ofPoll, if_true]
    omega

/-- the poll thread is not held up by anything else -/
theorem poll_enabled (ht : Table cfg s) : (Over s ∨ Waits s) ∨ ∃ o, o.ofPoll = true ∧ (iterationStep cfg s o).isSome := by
  have hmem : ∀ {i p}, s.conn i = some p → ∃ c, s.heap p = some c := by
    intro i p hp
    obtain ⟨c, hc, -⟩ := Option.map_eq_some_iff.1 (ht.key i p hp)
    exact ⟨c, hc⟩
  cases hpc : s.pc with
  | head => exact Or.inl (Or.inl (Or.inl hpc))
  | returned => exact Or.inl (Or.inl (Or.inr (Or.inl hpc)))
  | thrown => exact Or.inl (Or.inl (Or.inr (Or.inr hpc)))
  | selecting => exact Or.inr ⟨.select none, rfl, by simp [iterationStep, step, hpc, selectReturns]⟩
  | service i =>
    apply Or.inr
    by_cases hend : cfg.fdSetSize ≤ i
    · exact ⟨.pass, rfl, by simp [iterationStep, step, hpc, hend]⟩
    · by_cases hready : i ∈ s.readFdSet
      · by_cases hlisten : i = cfg.listenSocket
        · refine ⟨.accept none 0, rfl, ?_⟩
          simp only [iterationStep, step, hpc]
          rw [if_pos ⟨not_le.1 hend, hready, hlisten⟩]
          rfl
        · cases hconn : s.conn i with
          | none => exact ⟨.pass, rfl, by simp [iterationStep, step, hpc, hend, hready, hlisten, hconn]⟩
          | some p =>
            obtain ⟨c, hc⟩ := hmem hconn
            exact ⟨.recv .error, rfl, by simp [iterationStep, step, hpc, not_le.1 hend, hready, hlisten, hconn, hc]⟩
      · exact ⟨.pass, rfl, by simp [iterationStep, step, hpc, hend, hready]⟩
  | disconnecting i p =>
    by_cases hp : p ∈ s.entering
    · exact Or.inl (Or.inr ⟨i, p, hpc, hp⟩)
    · exact Or.inr ⟨.callbackDone, rfl, by simp [iterationStep, step, hpc, hp]⟩
  | write i deleteSocket =>
    refine Or.inr ⟨.write, rfl, ?_⟩
    by_cases hready : i ∈ s.writeFdSet
    · cases hconn : s.conn i with
      | none => simp [iterationStep, step, hpc, hready, hconn]
      | some p =>
        obtain ⟨c, hc⟩ := hmem hconn
        simp [iterationStep, step, hpc, hready, hconn, hc]
    · simp [iterationStep, step, hpc, hready]
  | sending i data deleteSocket => exact Or.inr ⟨.sent none, rfl, by simp [iterationStep, step, hpc]⟩

/-- such a call can always go on -/
theorem Waits.released (h : Waits s) : ∃ p, (iterationStep cfg s (.enter p)).isSome := by
  obtain ⟨i, p, -, hp⟩ := h
  exact ⟨p, by simp [iterationStep, step, hp]⟩

/-- **An iteration ends.** From the call of `select` on the poll thread takes at most `4 * FD_SETSIZE + 2` steps until it
is back at the head or `poll` has ended, and only a `sendData` call on a connection that is about to be deleted, which
can go on itself, ever holds it up. -/
theorem iteration_ends (cfg : ServerConfig) (before : List Op) (s : SelectServer)
    (hs : run (step cfg) (.start cfg) before = some s) (hpc : s.pc = .selecting) :
    Inevitable (iterationStep cfg) Op.ofPoll (fun t => Over t ∨ Waits t ∧ ∃ p, (iterationStep cfg t (.enter p)).isSome)
      (4 * cfg.fdSetSize + 2) s := by
  have hstep : ∀ s o s', Table cfg s ∧ s.pc.InRange cfg → iterationStep cfg s o = some s' →
      (Table cfg s' ∧ s'.pc.InRange cfg) ∧ stepsLeft cfg s' + (if o.ofPoll then 1 else 0) ≤ stepsLeft cfg s := by
    intro s o s' h hs
    obtain ⟨hrange, hleft⟩ := step_left h.2 hs
    exact ⟨⟨step_table h.1 (iterationStep_some hs).2, hrange⟩, hleft⟩
  refine Inevitable.of_measure _ (stepsLeft cfg) hstep ?_ ⟨run_inv (fun _ _ _ => step_table) (table_start cfg) hs, ?_⟩ ?_
  · intro t ht
    rcases poll_enabled ht.1 with (hover | hwaits) | hgo
    · exact Or.inl (Or.inl hover)
    · exact Or.inl (Or.inr ⟨hwaits, hwaits.released⟩)
    · exact Or.inr hgo
  · rw [hpc]
    trivial
  · simp only [stepsLeft, hpc]
    exact le_rfl

end Ends

theorem iteration_ends_one :
    ∃ s, run (step oneClient) (.start oneClient) greeted = some s ∧ Inevitable (iterationStep oneClient) Op.ofPoll
      (fun t => Over t ∨ Waits t ∧ ∃ p, (iterationStep oneClient t (.enter p)).isSome) 22 s := by
  obtain ⟨s, hs, hpc⟩ := Option.map_eq_some_iff.1 run_greeted
  exact ⟨s, hs, iteration_ends oneClient greeted s hs hpc⟩

end SelectServer
end NetFramework
