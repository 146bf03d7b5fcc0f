/-
The tables of the select loop: `clientSockets`, `active_fd_set` and `writingSockets`.

`Table` holds in every state: the first two agree with the connections in memory, up to the connection that is being
disconnected. `writingSockets` agrees with them as long as nobody enters a connection that has already been taken out;
the Disconnected callback may do that, between the `erase` calls and the `delete`.

- `table_consistent`: while every `sendData` call finds its connection in `clientSockets` when it enters it in
  `writingSockets`, the tables are consistent at the head of every iteration. The first call that does not is one made
  for the connection that is being disconnected.
- `deleted_connection_queued`: a callback that says goodbye.
-/
import NetFramework.SelectServer

namespace NetFramework
namespace SelectServer

open Transition

/-! ## Consistency -/

/-- the three tables name the same connections, all of them in memory -/
structure TableConsistent (cfg : ServerConfig) (s : SelectServer) : Prop where
  live : ∀ fd p, s.clientSockets fd = some (some p) → ∃ o, s.heap p = some o ∧ o.conn._fd = fd
  active : ∀ fd, fd ∈ s.activeFdSet ↔ fd = cfg.listenSocket ∨ ∃ p, s.clientSockets fd = some (some p)
  writing : ∀ p ∈ s.writingSockets, ∃ fd o, s.clientSockets fd = some (some p) ∧ s.heap p = some o

def AtHead (P : SelectServer → Prop) (s : SelectServer) : Prop := s.pc = .head → P s

/-- a `sendData` call that enters its connection in `writingSockets` finds it in `clientSockets` -/
def Registered (s : SelectServer) : Op → Prop
  | .enter p => s.conn (s.fdOf p) = some p
  | _ => True

instance (s : SelectServer) (o : Op) : Decidable (Registered s o) := by
  cases o <;> unfold Registered <;> infer_instance

/-- the descriptor that is closed at the end of the body -/
def Pc.closing : Pc → Option ℕ
  | .write i true => some i
  | .sending i _ true => some i
  | _ => none

/-- what holds in every state of the loop -/
structure Table (cfg : ServerConfig) (s : SelectServer) : Prop where
  key : ∀ fd p, s.conn fd = some p → s.fdAt p = some fd
  owned : ∀ fd p, s.fdAt p = some fd → s.conn fd = some p ∨ s.pc = .disconnecting fd p
  active : ∀ fd, fd ∈ s.activeFdSet ↔
    fd = cfg.listenSocket ∨ s.conn fd ≠ none ∨ ∃ p, s.pc = .disconnecting fd p
  opened : ∀ fd ∈ s.activeFdSet, fd ∈ s.openFds ∧ fd < cfg.fdSetSize
  leaving : ∀ fd p, s.pc = .disconnecting fd p → fd ≠ cfg.listenSocket ∧ s.conn fd = none ∧ s.fdAt p = some fd
  closing : ∀ fd, s.pc.closing = some fd → fd ∉ s.activeFdSet
  entering : ∀ p ∈ s.entering, s.fdAt p ≠ none

/-- every connection in `writingSockets` is in `clientSockets` -/
def WritersListed (s : SelectServer) : Prop := ∀ p ∈ s.writingSockets, ∃ fd, s.conn fd = some p

/-- the connection in the Disconnected callback is in `writingSockets` -/
def QueuedWhileLeaving (s : SelectServer) : Prop := ∃ fd p, s.pc = .disconnecting fd p ∧ p ∈ s.writingSockets

theorem conn_eq_some {s : SelectServer} {fd p : ℕ} : s.conn fd = some p ↔ s.clientSockets fd = some (some p) := by
  rw [conn, connAt, Option.join_eq_some_iff]

section Steps

variable {cfg : ServerConfig} {s s' : SelectServer}

theorem Table.consistent (h : Table cfg s) (hw : WritersListed s) (hpc : s.pc = .head) : TableConsistent cfg s := by
  have hkey : ∀ fd p, s.clientSockets fd = some (some p) → ∃ o, s.heap p = some o ∧ o.conn._fd = fd := by
    intro fd p hp
    have hfd := h.key fd p (conn_eq_some.2 hp)
    exact Option.map_eq_some_iff.1 hfd
  refine ⟨hkey, ?_, ?_⟩
  · intro fd
    rw [h.active fd, hpc]
    have hex : s.conn fd ≠ none ↔ ∃ p, s.clientSockets fd = some (some p) := by
      rw [Option.ne_none_iff_exists']
      exact exists_congr fun p => conn_eq_some
    simp only [hex, reduceCtorEq, exists_false, or_false]
  · intro p hp
    obtain ⟨fd, hfd⟩ := hw p hp
    obtain ⟨o, ho, -⟩ := hkey fd p (conn_eq_some.1 hfd)
    exact ⟨fd, o, conn_eq_some.1 hfd, ho⟩

/-! ## `Table` -/

/-- a step that leaves the descriptors of the connections, the two tables and the Disconnected callback alone -/
theorem Table.frame (h : Table cfg s) (hfd : ∀ p, s'.fdAt p = s.fdAt p) (hconn : ∀ fd, s'.conn fd = s.conn fd)
    (hactive : s'.activeFdSet = s.activeFdSet) (hopen : ∀ fd ∈ s.activeFdSet, fd ∈ s'.openFds)
    (hpc : ∀ fd p, s'.pc = .disconnecting fd p ↔ s.pc = .disconnecting fd p)
    (hclosing : ∀ fd, s'.pc.closing = some fd → s.pc.closing = some fd)
    (hentering : ∀ p ∈ s'.entering, s.fdAt p ≠ none) : Table cfg s' where
  key fd p hp := by rw [hfd]; exact h.key fd p (hconn fd ▸ hp)
  owned fd p hp := by rw [hconn, hpc]; exact h.owned fd p (hfd p ▸ hp)
  active fd := by simp only [hactive, hconn, hpc]; exact h.active fd
  opened fd hmem := by rw [hactive] at hmem; exact ⟨hopen fd hmem, (h.opened fd hmem).2⟩
  leaving fd p hp := by rw [hconn, hfd]; exact h.leaving fd p ((hpc fd p).1 hp)
  closing fd hc := by rw [hactive]; exact h.closing fd (hclosing fd hc)
  entering p hp := by rw [hfd]; exact hentering p hp

/-- a step of the poll thread that leaves the tables alone, neither from nor to a place near a Disconnected callback -/
theorem Table.move (h : Table cfg s) (hfd : ∀ p, s'.fdAt p = s.fdAt p) (hconn : ∀ fd, s'.conn fd = s.conn fd)
    (hactive : s'.activeFdSet = s.activeFdSet) (hopen : s'.openFds = s.openFds) (hentering : s'.entering = s.entering)
    (hpc : ∀ fd p, s.pc ≠ .disconnecting fd p) (hpc' : ∀ fd p, s'.pc ≠ .disconnecting fd p)
    (hclosing : s'.pc.closing = none) : Table cfg s' := by
  apply h.frame hfd hconn hactive
  · intro fd hmem
    rw [hopen]
    exact (h.opened fd hmem).1
  · intro fd p
    exact ⟨fun hp => absurd hp (hpc' fd p), fun hp => absurd hp (hpc fd p)⟩
  · intro fd hc
    rw [hclosing] at hc
    cases hc
  · intro p hp
    rw [hentering] at hp
    exact h.entering p hp

/-- the end of the body closes no descriptor that is active -/
theorem Table.next (h : Table cfg s) {i : ℕ} {deleteSocket : Bool} (hleaving : ∀ fd p, s.pc ≠ .disconnecting fd p)
    (hd : deleteSocket = true → i ∉ s.activeFdSet) : Table cfg (s.next i deleteSocket) := by
  refine h.frame (fun _ => rfl) (fun _ => rfl) rfl ?_ ?_ ?_ h.entering
  · intro fd hfd
    simp only [SelectServer.next]
    split_ifs with hdel
    · exact Finset.mem_erase.2 ⟨fun heq => hd hdel (heq ▸ hfd), (h.opened fd hfd).1⟩
    · exact (h.opened fd hfd).1
  · intro fd p
    exact ⟨fun hp => absurd hp (by simp [SelectServer.next]), fun hp => absurd hp (hleaving fd p)⟩
  · intro fd hc
    cases hc

theorem Table.touch (h : Table cfg s) (i : ℕ) : Table cfg (s.touch i) :=
  h.frame (fun _ => rfl) (touch_conn s i) rfl (fun fd hfd => (h.opened fd hfd).1) (fun _ _ => Iff.rfl) (fun _ hc => hc)
    h.entering

theorem conn_update {fd : ℕ} (v : Option (Option ℕ)) (h : s'.clientSockets = Function.update s.clientSockets fd v)
    (fd' : ℕ) : s'.conn fd' = if fd' = fd then v.join else s.conn fd' := by
  rw [conn, h]
  exact connAt_update fd v fd'

theorem fdAt_update {p : ℕ} (o : Option ConnObject) (h : s'.heap = Function.update s.heap p o) (q : ℕ) :
    s'.fdAt q = if q = p then o.map (·.conn._fd) else s.fdAt q := by
  rw [fdAt, h, Function.update_apply]
  split_ifs <;> rfl

/-- a new connection is entered under a descriptor that was not in use -/
theorem Table.enrol (h : Table cfg s) {fd p : ℕ} (hleaving : ∀ fd p, s.pc ≠ .disconnecting fd p)
    (hopen : fd ∉ s.openFds) (hlt : fd < cfg.fdSetSize) (hfree : s.fdAt p = none)
    (hfdAt : ∀ q, s'.fdAt q = if q = p then some fd else s.fdAt q)
    (hconn : ∀ fd', s'.conn fd' = if fd' = fd then some p else s.conn fd')
    (hactive : s'.activeFdSet = insert fd s.activeFdSet) (hopen' : s'.openFds = insert fd s.openFds)
    (hleaving' : ∀ fd p, s'.pc ≠ .disconnecting fd p) (hclosing : s'.pc.closing = none)
    (hentering : s'.entering = s.entering) : Table cfg s' := by
  have hnone : s.conn fd = none := by
    by_contra hne
    exact hopen (h.opened fd ((h.active fd).2 (Or.inr (Or.inl hne)))).1
  refine ⟨?_, ?_, ?_, ?_, ?_, ?_, ?_⟩
  · intro fd' q hq
    rw [hconn] at hq
    rw [hfdAt]
    split_ifs at hq with hfd'
    · rw [if_pos (Option.some.inj hq).symm, hfd']
    · have hq' := h.key fd' q hq
      rw [if_neg, hq']
      rintro rfl
      rw [hfree] at hq'
      cases hq'
  · intro fd' q hq
    apply Or.inl
    rw [hfdAt] at hq
    rw [hconn]
    split_ifs at hq with hqp
    · rw [if_pos (Option.some.inj hq).symm, hqp]
    · rcases h.owned fd' q hq with hown | hleave
      · have hne : fd' ≠ fd := by
          rintro rfl
          rw [hnone] at hown
          cases hown
        rw [if_neg hne, hown]
      · exact absurd hleave (hleaving fd' q)
  · intro fd'
    rw [hactive, Finset.mem_insert, h.active fd', hconn]
    simp only [hleaving, hleaving', exists_false, or_false]
    by_cases hfd' : fd' = fd
    · simp [hfd']
    · simp [hfd']
  · intro fd' hmem
    rw [hactive] at hmem
    rw [hopen']
    rcases Finset.mem_insert.1 hmem with rfl | hmem
    · exact ⟨Finset.mem_insert_self _ _, hlt⟩
    · exact ⟨Finset.mem_insert_of_mem (h.opened fd' hmem).1, (h.opened fd' hmem).2⟩
  · intro fd' q hq
    exact absurd hq (hleaving' fd' q)
  · intro fd' hc
    rw [hclosing] at hc
    cases hc
  · intro q hq
    rw [hentering] at hq
    have hq' := h.entering q hq
    rw [hfdAt]
    split_ifs
    · simp
    · exact hq'

/-- a connection is taken out of the tables, and its Disconnected callback begins -/
theorem Table.dismiss (h : Table cfg s) {i p : ℕ} (hleaving : ∀ fd p, s.pc ≠ .disconnecting fd p)
    (hlisten : i ≠ cfg.listenSocket) (hp : s.conn i = some p) (hfdAt : ∀ q, s'.fdAt q = s.fdAt q)
    (hconn : ∀ fd, s'.conn fd = if fd = i then none else s.conn fd) (hactive : s'.activeFdSet = s.activeFdSet)
    (hopen : s'.openFds = s.openFds) (hpc : s'.pc = .disconnecting i p) (hentering : s'.entering = s.entering) :
    Table cfg s' := by
  refine ⟨?_, ?_, ?_, ?_, ?_, ?_, ?_⟩
  · intro fd q hq
    rw [hconn] at hq
    split_ifs at hq
    rw [hfdAt]
    exact h.key fd q hq
  · intro fd q hq
    rw [hfdAt] at hq
    rw [hconn, hpc]
    have hown := (h.owned fd q hq).resolve_right (hleaving fd q)
    by_cases hfi : fd = i
    · rw [hfi, hp] at hown
      rw [hfi, Option.some.inj hown]
      exact Or.inr rfl
    · rw [if_neg hfi]
      exact Or.inl hown
  · intro fd
    rw [hactive, h.active fd, hconn, hpc]
    simp only [hleaving, exists_false, or_false, Pc.disconnecting.injEq]
    by_cases hfi : fd = i
    · simp [hfi, hp]
    · simp [hfi, Ne.symm hfi]
  · intro fd hmem
    rw [hactive] at hmem
    rw [hopen]
    exact h.opened fd hmem
  · intro fd q hq
    rw [hpc] at hq
    cases hq
    rw [hconn, hfdAt]
    exact ⟨hlisten, if_pos rfl, h.key i p hp⟩
  · intro fd hc
    rw [hpc] at hc
    cases hc
  · intro q hq
    rw [hentering] at hq
    rw [hfdAt]
    exact h.entering q hq

/-- a connection whose callback has returned is deleted, and its descriptor is about to be closed -/
theorem Table.remove (h : Table cfg s) {i p : ℕ} (hpc : s.pc = .disconnecting i p) (hp : p ∉ s.entering)
    (hfdAt : ∀ q, s'.fdAt q = if q = p then none else s.fdAt q) (hconn : ∀ fd, s'.conn fd = s.conn fd)
    (hactive : s'.activeFdSet = s.activeFdSet.erase i) (hopen : s'.openFds = s.openFds)
    (hpc' : s'.pc = .write i true) (hentering : s'.entering = s.entering) : Table cfg s' := by
  obtain ⟨hlisten, hnone, hfd⟩ := h.leaving i p hpc
  refine ⟨?_, ?_, ?_, ?_, ?_, ?_, ?_⟩
  · intro fd q hq
    rw [hconn] at hq
    have hq' := h.key fd q hq
    rw [hfdAt, if_neg, hq']
    -- `p` is not in the table: its own descriptor is `i`, which has no connection
    rintro rfl
    rw [hfd] at hq'
    obtain rfl : i = fd := Option.some.inj hq'
    rw [hnone] at hq
    cases hq
  · intro fd q hq
    rw [hfdAt] at hq
    split_ifs at hq with hqp
    rw [hconn]
    rcases h.owned fd q hq with hown | hleave
    · exact Or.inl hown
    · rw [hpc] at hleave
      cases hleave
      exact absurd rfl hqp
  · intro fd
    have hfdActive := h.active fd
    rw [hpc] at hfdActive
    rw [hactive, Finset.mem_erase, hconn, hpc', hfdActive]
    by_cases hfi : fd = i
    · simp [hfi, hlisten, hnone]
    · simp [hfi, Ne.symm hfi]
  · intro fd hmem
    rw [hactive] at hmem
    rw [hopen]
    exact h.opened fd (Finset.mem_of_mem_erase hmem)
  · intro fd q hq
    rw [hpc'] at hq
    cases hq
  · intro fd hc
    rw [hpc'] at hc
    cases hc
    rw [hactive]
    exact Finset.notMem_erase i _
  · intro q hq
    rw [hentering] at hq
    rw [hfdAt, if_neg fun hqp => hp (by rw [← hqp]; exact hq)]
    exact h.entering q hq

theorem Table.accept (h : Table cfg s) {newConn : Option ℕ} {p : ℕ} (hs : step cfg s (.accept newConn p) = some s') :
    Table cfg s' := by
  obtain ⟨i, hpc, rfl | ⟨fd, hopen, hlt, hfree, rfl⟩⟩ := step_accept hs
  · exact h.move (fun _ => rfl) (fun _ => rfl) rfl rfl rfl (by simp [hpc]) (by simp) rfl
  · exact h.enrol (by simp [hpc]) hopen hlt (by rw [fdAt, hfree]; rfl) (fdAt_update (some ⟨.new fd, s.accepted⟩) rfl)
      (conn_update (some (some p)) rfl) rfl rfl (by simp) rfl rfl

theorem Table.recv (h : Table cfg s) {result : RecvResult} (hs : step cfg s (.recv result) = some s') :
    Table cfg s' := by
  obtain ⟨i, p, o, hpc, hlisten, hp, ho, rfl⟩ := step_recv hs
  rcases receive_cases cfg s i p o result with ⟨-, heq⟩ | ⟨-, heq⟩ | ⟨receivedData, bufs, heq⟩
  · rw [heq]
    exact h.move (fun _ => rfl) (fun _ => rfl) rfl rfl rfl (by simp [hpc]) (by simp) rfl
  · rw [heq]
    exact h.dismiss (by simp [hpc]) hlisten hp (fun _ => rfl) (conn_update none rfl) rfl rfl rfl rfl
  · rw [heq]
    exact h.move (put_fdAt ho rfl) (fun _ => rfl) rfl rfl rfl (by simp [hpc]) (by simp) rfl

theorem Table.callbackDone (h : Table cfg s) (hs : step cfg s .callbackDone = some s') : Table cfg s' := by
  obtain ⟨i, p, hpc, hp, rfl⟩ := step_callbackDone hs
  exact h.remove hpc hp (fdAt_update none rfl) (fun _ => rfl) rfl rfl rfl rfl

/-- **The tables.** Every step keeps them. -/
theorem step_table {o : Op} (h : Table cfg s) (hs : step cfg s o = some s') : Table cfg s' := by
  cases o with
  | append p data =>
    obtain ⟨o, ho, rfl⟩ := step_append hs
    refine h.frame (put_fdAt ho rfl) (fun _ => rfl) rfl (fun fd hfd => (h.opened fd hfd).1) (fun _ _ => Iff.rfl)
      (fun _ hc => hc) ?_
    intro q hq
    rcases List.mem_cons.1 hq with rfl | hq
    · rw [fdAt, ho]; simp
    · exact h.entering q hq
  | enter p =>
    obtain ⟨-, rfl⟩ := step_enter hs
    exact h.frame (fun _ => rfl) (fun _ => rfl) rfl (fun fd hfd => (h.opened fd hfd).1) (fun _ _ => Iff.rfl)
      (fun _ hc => hc) (fun q hq => h.entering q (List.mem_of_mem_erase hq))
  | swap =>
    obtain ⟨hpc, rfl⟩ := step_swap hs
    exact h.move (fun _ => rfl) (fun _ => rfl) rfl rfl rfl (by simp [hpc]) (by simp) rfl
  | select ready =>
    obtain ⟨hpc, rfl | ⟨readable, writable, -, -, -, rfl⟩⟩ := step_select hs
    · exact h.move (fun _ => rfl) (fun _ => rfl) rfl rfl rfl (by simp [hpc]) (by simp) rfl
    · exact h.move (fun _ => rfl) (fun _ => rfl) rfl rfl rfl (by simp [hpc]) (by simp) rfl
  | accept newConn p => exact h.accept hs
  | recv result => exact h.recv hs
  | pass =>
    obtain ⟨i, hpc, ⟨-, rfl⟩ | rfl | rfl⟩ := step_pass hs
    · exact h.move (fun _ => rfl) (fun _ => rfl) rfl rfl rfl (by simp [hpc]) (by simp) rfl
    · exact (h.touch i).move (fun _ => rfl) (fun _ => rfl) rfl rfl rfl (by simp [hpc, SelectServer.touch]) (by simp) rfl
    · exact h.move (fun _ => rfl) (fun _ => rfl) rfl rfl rfl (by simp [hpc]) (by simp) rfl
  | callbackDone => exact h.callbackDone hs
  | write =>
    obtain ⟨i, deleteSocket, hpc, ⟨-, rfl⟩ | ⟨-, rfl⟩ | ⟨p, o, -, ho, rfl⟩⟩ := step_write hs
    · exact h.next (by simp [hpc]) fun hd => h.closing i (by rw [hpc, hd]; rfl)
    · exact (h.touch i).next (by simp [hpc, SelectServer.touch]) fun hd => h.closing i (by rw [hpc, hd]; rfl)
    · refine h.frame (put_fdAt ho rfl) (fun _ => rfl) rfl (fun fd hfd => (h.opened fd hfd).1) ?_ ?_ h.entering
      · intro fd p; simp [hpc]
      · intro fd hc
        rw [hpc]
        cases deleteSocket with
        | true => exact hc
        | false => cases hc
  | sent sent =>
    obtain ⟨i, data, deleteSocket, hpc, rfl⟩ := step_sent hs
    exact h.next (by simp [hpc]) fun hd => h.closing i (by rw [hpc, hd]; rfl)

theorem table_start (cfg : ServerConfig) : Table cfg (.start cfg) := by
  have hpc : ∀ fd p, (start cfg).pc ≠ .disconnecting fd p := by simp [start]
  refine ⟨?_, ?_, ?_, ?_, ?_, ?_, ?_⟩
  · intro fd p hp
    cases hp
  · intro fd p hp
    cases hp
  · intro fd
    simp [start, conn, connAt]
  · intro fd hmem
    obtain rfl := Finset.mem_singleton.1 hmem
    exact ⟨hmem, cfg.listen_lt⟩
  · intro fd p hp
    exact absurd hp (hpc fd p)
  · intro fd hc
    cases hc
  · intro p hp
    cases hp

/-! ## `writingSockets` -/

/-- nothing is entered in `writingSockets`, and `clientSockets` stays as it is -/
theorem WritersListed.frame (h : WritersListed s) (hsub : s'.writingSockets ⊆ s.writingSockets)
    (hconn : ∀ fd, s'.conn fd = s.conn fd) : WritersListed s' := by
  intro q hq
  obtain ⟨fd, hfd⟩ := h q (hsub hq)
  exact ⟨fd, (hconn fd).trans hfd⟩

theorem accept_writers {newConn : Option ℕ} {p : ℕ} (h : Table cfg s) (hw : WritersListed s)
    (hs : step cfg s (.accept newConn p) = some s') : WritersListed s' := by
  obtain ⟨i, -, rfl | ⟨fd, hopen, -, -, rfl⟩⟩ := step_accept hs
  · exact hw
  · intro q hq
    obtain ⟨fd', hfd'⟩ := hw q hq
    -- the new descriptor is not in use, so it is not that of `q`
    have hne : fd' ≠ fd := by
      rintro rfl
      refine hopen (h.opened fd' ((h.active fd').2 (Or.inr (Or.inl ?_)))).1
      rw [hfd']
      simp
    refine ⟨fd', ?_⟩
    calc _ = if fd' = fd then some p else s.conn fd' := conn_update (some (some p)) rfl fd'
      _ = s.conn fd' := if_neg hne
      _ = some q := hfd'

theorem recv_writers {result : RecvResult} (hw : WritersListed s) (hs : step cfg s (.recv result) = some s') :
    WritersListed s' := by
  obtain ⟨i, p, o, -, -, hp, -, rfl⟩ := step_recv hs
  rcases receive_cases cfg s i p o result with ⟨-, heq⟩ | ⟨-, heq⟩ | ⟨receivedData, bufs, heq⟩
  · rw [heq]; exact hw
  · rw [heq]
    intro q hq
    obtain ⟨hqp, hq⟩ := Finset.mem_erase.1 hq
    obtain ⟨fd, hfd⟩ := hw q hq
    have hne : fd ≠ i := by
      rintro rfl
      rw [hp] at hfd
      exact hqp (Option.some.inj hfd).symm
    refine ⟨fd, ?_⟩
    calc _ = if fd = i then none else s.conn fd := conn_update none rfl fd
      _ = s.conn fd := if_neg hne
      _ = some q := hfd
  · rw [heq]; exact hw

/-- **Writers in a step.** `writingSockets` stays right if a connection that is entered is in `clientSockets`. -/
theorem step_writers {o : Op} (h : Table cfg s) (hw : WritersListed s) (hr : Registered s o)
    (hs : step cfg s o = some s') : WritersListed s' := by
  cases o with
  | append p data =>
    obtain ⟨o, -, rfl⟩ := step_append hs
    exact hw
  | enter p =>
    obtain ⟨-, rfl⟩ := step_enter hs
    intro q hq
    rcases Finset.mem_insert.1 hq with rfl | hq
    · exact ⟨_, hr⟩
    · exact hw q hq
  | swap =>
    obtain ⟨-, rfl⟩ := step_swap hs
    exact hw.frame (Finset.empty_subset _) (fun _ => rfl)
  | select ready =>
    obtain ⟨-, rfl | ⟨readable, writable, -, -, -, rfl⟩⟩ := step_select hs
    · exact hw
    · exact hw
  | accept newConn p => exact accept_writers h hw hs
  | recv result => exact recv_writers hw hs
  | pass =>
    obtain ⟨i, -, ⟨-, rfl⟩ | rfl | rfl⟩ := step_pass hs
    · exact hw
    · exact hw.frame subset_rfl (touch_conn s i)
    · exact hw
  | callbackDone =>
    obtain ⟨i, p, -, -, rfl⟩ := step_callbackDone hs
    exact hw
  | write =>
    obtain ⟨i, deleteSocket, -, ⟨-, rfl⟩ | ⟨-, rfl⟩ | ⟨p, o, -, -, rfl⟩⟩ := step_write hs
    · exact hw
    · exact hw.frame subset_rfl (touch_conn s i)
    · exact hw
  | sent sent =>
    obtain ⟨i, data, deleteSocket, -, rfl⟩ := step_sent hs
    exact hw

/-- **A connection entered too late.** If it is not in `clientSockets`, it is the one that is being disconnected. -/
theorem enter_leaving {o : Op} (h : Table cfg s) (hr : ¬ Registered s o) (hs : step cfg s o = some s') :
    QueuedWhileLeaving s' := by
  cases o with
  | enter p =>
    obtain ⟨hp, rfl⟩ := step_enter hs
    obtain ⟨fd, hfd⟩ := Option.ne_none_iff_exists'.1 (h.entering p hp)
    rcases h.owned fd p hfd with hown | hleave
    · exact absurd (by rw [Registered, fdOf, hfd]; exact hown) hr
    · exact ⟨fd, p, hleave, Finset.mem_insert_self _ _⟩
  | _ => exact absurd trivial hr

end Steps

/-! ## Runs -/

/-- **Connection table consistency.** In every run of the loop in which each `sendData` call finds its connection in
`clientSockets` when it enters it in `writingSockets`, the tables are consistent at the head of every iteration. In every
other run a connection that is about to be deleted gets into `writingSockets`. -/
theorem table_consistent (cfg : ServerConfig) (ops : List Op) (fin : SelectServer)
    (h : run (step cfg) (.start cfg) ops = some fin) :
    (Along (step cfg) Registered (.start cfg) ops →
        Always (step cfg) (AtHead (TableConsistent cfg)) (.start cfg) ops) ∧
      (¬ Along (step cfg) Registered (.start cfg) ops →
        ∃ before s, before <+: ops ∧ run (step cfg) (.start cfg) before = some s ∧ QueuedWhileLeaving s) := by
  have hstart : Table cfg (.start cfg) ∧ WritersListed (.start cfg) :=
    ⟨table_start cfg, fun p hp => absurd hp (Finset.notMem_empty p)⟩
  have hstep : ∀ s o s', Table cfg s ∧ WritersListed s → step cfg s o = some s' →
      (Registered s o → Table cfg s' ∧ WritersListed s') ∧ (¬ Registered s o → QueuedWhileLeaving s') :=
    fun s o s' hs hso => ⟨fun hr => ⟨step_table hs.1 hso, step_writers hs.1 hs.2 hr hso⟩,
      fun hr => enter_leaving hs.1 hr hso⟩
  refine ⟨?_, ?_⟩
  · exact always_along (fun s hs hpc => hs.1.consistent hs.2 hpc) (fun s o s' hs hr hso => (hstep s o s' hs hso).1 hr)
      hstart
  · intro hA
    rcases along_or_doomed hstep hstart h with hAlong | ⟨a, b, u, rfl, ha, -, hu⟩
    · exact absurd hAlong hA
    · exact ⟨a, u, ⟨b, rfl⟩, ha, hu⟩

/-- a client that is sent `B` from its Connected callback, on a system with eight descriptors -/
theorem table_consistent_greeting :
    Always (step ⟨3, 8, fun _ => true, by decide⟩) (AtHead (TableConsistent ⟨3, 8, fun _ => true, by decide⟩))
      (.start ⟨3, 8, fun _ => true, by decide⟩)
      (List.flatten [[.swap, .select (some ({3}, ∅))], idle 3,
        [.accept (some 4) 0, .append 0 [0x42], .enter 0, .write], idle 4, [.pass, .swap]]) :=
  (table_consistent ⟨3, 8, fun _ => true, by decide⟩ _ _ rfl).1 (by decide)

/-- an iteration in which the client hangs up and its Disconnected callback sends it `B` -/
def goodbyeRound : List Op :=
  [Op.swap, Op.select (some ({4}, ∅))] ++ (idle 4 ++
    ([Op.recv (.bytes []), Op.append 0 [0x42], Op.enter 0, Op.callbackDone, Op.write] ++ (idle 1019 ++ [Op.pass])))

/-- **A deleted connection in `writingSockets`.** The client connects and hangs up, and its Disconnected callback calls
`sendData`: at the head of the next iteration `writingSockets` holds a connection that has been deleted. -/
theorem deleted_connection_queued :
    ∃ s, run (step exampleConfig) (.start exampleConfig) (connectRound ++ goodbyeRound) = some s ∧ s.pc = .head ∧
      s.writingSockets = {0} ∧ s.heap 0 = none ∧ ¬ TableConsistent exampleConfig s ∧
        step exampleConfig s .swap = none := by
  refine ⟨_, run_append_some run_connectRound (run_append_some rfl (run_append_some
    (run_idle_example rfl rfl rfl (by decide) (by decide)) (run_append_some rfl (run_append_some
    (run_idle_example rfl rfl rfl (by decide) (by decide)) rfl)))), rfl, rfl, rfl, ?_, rfl⟩
  intro h
  obtain ⟨fd, o, -, ho⟩ := h.writing 0 (Finset.mem_singleton_self 0)
  cases ho

end SelectServer
end NetFramework
