/-
`Server::poll` of server.cpp where the system is not Windows: the loop around `select`, among the threads that call
`ClientConnection::sendData`.

The poll thread goes through the loop; `Pc` says where it is between two steps. A step of it is the code from one point
at which it takes a lock, calls the system or calls back to the next. The two sections of `sendData` are steps of their
own, on any connection in memory and at any point of the loop, so the calls that the callbacks make are among them.

What the system does is in the labels: which descriptors are ready, what `accept`, `recv` and `send` return, where a new
connection is allocated. A label that the state does not allow has no successor; nor has a step that would use a
connection that has been deleted. The caller of `sendData` sees to it that the connection is not deleted meanwhile.

`clientSockets[fd]` inserts a null pointer for a descriptor that is not there (`touch`); `conn fd` is its value.
-/
import NetFramework.Library.Transition
import NetFramework.CallbackProtocol

namespace NetFramework

open Transition

/-! ## Model -/

/-- what stays the same while the server runs -/
structure ServerConfig where
  listenSocket : ℕ
  /-- `FD_SETSIZE` -/
  fdSetSize : ℕ
  dataCompleteCallback : Bytes → Bool
  listen_lt : listenSocket < fdSetSize

namespace SelectServer

inductive Pc where
  /-- at the head of the loop -/
  | head
  /-- in `select` -/
  | selecting
  /-- before the test of `read_fd_set` for `i` -/
  | service (i : ℕ)
  /-- in the Disconnected callback for `p`, the connection of the descriptor `i` -/
  | disconnecting (i p : ℕ)
  /-- before the test of `write_fd_set` for `i` -/
  | write (i : ℕ) (deleteSocket : Bool)
  /-- in `send`, with the data swapped out -/
  | sending (i : ℕ) (data : Bytes) (deleteSocket : Bool)
  /-- `poll` has returned false -/
  | returned
  /-- an exception has left `poll` -/
  | thrown
deriving DecidableEq, Repr

end SelectServer

open SelectServer in
structure SelectServer where
  heap : ℕ → Option ConnObject
  clientSockets : ℕ → Option (Option ℕ)
  writingSockets : Finset ℕ
  /-- `active_fd_set`, `read_fd_set`, `write_fd_set` and `connectionsToWrite` are local to `poll` -/
  activeFdSet : Finset ℕ
  readFdSet : Finset ℕ
  writeFdSet : Finset ℕ
  connectionsToWrite : Finset ℕ
  /-- the sockets of the server that are open -/
  openFds : Finset ℕ
  /-- the connections of the `sendData` calls between their two locks -/
  entering : List ℕ
  /-- the number of connections accepted -/
  accepted : ℕ
  /-- the connections whose `recv` has reported the end or an error -/
  reported : List ℕ
  callbacks : List Callback
  pc : Pc

namespace SelectServer

/-- a section of `sendData`, or a step of the poll thread with what the system answers -/
inductive Op where
  | append (p : ℕ) (data : Bytes)
  | enter (p : ℕ)
  | swap
  | select (ready : Option (Finset ℕ × Finset ℕ))
  | accept (newConn : Option ℕ) (p : ℕ)
  | recv (result : RecvResult)
  | pass
  | callbackDone
  | write
  | sent (sent : Option ℕ)

/-- the value of `clientSockets[fd]` -/
def conn (s : SelectServer) (fd : ℕ) : Option ℕ := connAt s.clientSockets fd

/-- what `clientSockets[fd]` leaves behind -/
def touch (s : SelectServer) (fd : ℕ) : SelectServer :=
  { s with clientSockets := Function.update s.clientSockets fd (some (s.conn fd)) }

/-- the connection at `p` is now `o` -/
def put (s : SelectServer) (p : ℕ) (o : ConnObject) : SelectServer :=
  { s with heap := Function.update s.heap p (some o) }

/-- the descriptor of the connection at `p`, if there is one -/
def fdAt (s : SelectServer) (p : ℕ) : Option ℕ := (s.heap p).map (·.conn._fd)

/-- `conn->_fd` -/
def fdOf (s : SelectServer) (p : ℕ) : ℕ := (s.fdAt p).getD 0

/-- the end of the body for `i` -/
def next (s : SelectServer) (i : ℕ) (deleteSocket : Bool) : SelectServer :=
  { s with openFds := if deleteSocket then s.openFds.erase i else s.openFds, pc := .service (i + 1) }

/-- `select` returns: an error, or the descriptors ready to read and to write among those asked for -/
def selectReturns (s : SelectServer) : Option (Finset ℕ × Finset ℕ) → Option SelectServer
  | none => some { s with pc := .returned }
  | some (readable, writable) =>
    if readable ⊆ s.activeFdSet ∧ writable ⊆ s.writeFdSet then
      some { s with readFdSet := readable, writeFdSet := writable, pc := .service 0 }
    else none

/-- `accept` returns an error, or a descriptor not in use and small enough for `FD_SET`; the connection is allocated at
`p` -/
def acceptReturns (cfg : ServerConfig) (s : SelectServer) (i : ℕ) (newConn : Option ℕ) (p : ℕ) : Option SelectServer :=
  match newConn with
  | none => some { s with pc := .returned }
  | some fd =>
    if fd ∉ s.openFds ∧ fd < cfg.fdSetSize ∧ s.heap p = none then
      some { s.put p ⟨.new fd, s.accepted⟩ with
        openFds := insert fd s.openFds
        activeFdSet := insert fd s.activeFdSet
        clientSockets := Function.update s.clientSockets fd (some (some p))
        accepted := s.accepted + 1
        callbacks := s.callbacks ++ [connectedCallback (some s.accepted)]
        pc := .write i false }
    else none

/-- `receiveDataFromSocket` of the connection `o` at `p`, up to the Disconnected callback if there is one -/
def receive (cfg : ServerConfig) (s : SelectServer) (i p : ℕ) (o : ConnObject) (result : RecvResult) : SelectServer :=
  match o.conn.receiveDataFromSocket cfg.dataCompleteCallback result with
  | none => { s with reported := s.reported ++ [o.serial], pc := .thrown }
  | some (conn, bufs, true) =>
    { s.put p { o with conn } with
      callbacks := s.callbacks ++ dataCallbacks (some o.serial) bufs
      pc := .write i false }
  | some (_, _, false) =>
    { s with
      writingSockets := s.writingSockets.erase p
      clientSockets := Function.update s.clientSockets i none
      reported := s.reported ++ [o.serial]
      callbacks := s.callbacks ++ [disconnectedCallback (some o.serial)]
      pc := .disconnecting i p }

def step (cfg : ServerConfig) (s : SelectServer) : Op → Option SelectServer
  | .append p data =>
    match s.heap p with
    | none => none
    | some o => some { s.put p { o with conn := o.conn.sendData data } with entering := p :: s.entering }
  | .enter p =>
    if p ∈ s.entering then
      some { s with entering := s.entering.erase p, writingSockets := insert p s.writingSockets }
    else none
  | .swap =>
    match s.pc with
    | .head =>
      if ∀ p ∈ s.writingSockets, (s.heap p).isSome = true then
        some { s with
          connectionsToWrite := s.writingSockets
          writingSockets := ∅
          writeFdSet := s.writingSockets.image s.fdOf
          pc := .selecting }
      else none
    | _ => none
  | .select ready =>
    match s.pc with
    | .selecting => s.selectReturns ready
    | _ => none
  | .accept newConn p =>
    match s.pc with
    | .service i =>
      if i < cfg.fdSetSize ∧ i ∈ s.readFdSet ∧ i = cfg.listenSocket then s.acceptReturns cfg i newConn p else none
    | _ => none
  | .recv result =>
    match s.pc with
    | .service i =>
      if i < cfg.fdSetSize ∧ i ∈ s.readFdSet ∧ i ≠ cfg.listenSocket then
        match s.conn i with
        | none => none
        | some p =>
          match s.heap p with
          | none => none
          | some o => some (s.receive cfg i p o result)
      else none
    | _ => none
  | .pass =>
    match s.pc with
    | .service i =>
      if cfg.fdSetSize ≤ i then some { s with pc := .head }
      else if i ∈ s.readFdSet then
        if i ≠ cfg.listenSocket ∧ s.conn i = none then some { s.touch i with pc := .write i false } else none
      else some { s with pc := .write i false }
    | _ => none
  | .callbackDone =>
    match s.pc with
    | .disconnecting i p =>
      if p ∈ s.entering then none
      else
        some { s with
          heap := Function.update s.heap p none
          activeFdSet := s.activeFdSet.erase i
          pc := .write i true }
    | _ => none
  | .write =>
    match s.pc with
    | .write i deleteSocket =>
      if i ∈ s.writeFdSet then
        match s.conn i with
        | none => some ((s.touch i).next i deleteSocket)
        | some p =>
          match s.heap p with
          | none => none
          | some o =>
            some { s.put p { o with conn := o.conn.swapDataToSend.1 } with
              pc := .sending i o.conn.swapDataToSend.2 deleteSocket }
      else some (s.next i deleteSocket)
    | _ => none
  | .sent sent =>
    match s.pc with
    | .sending i data deleteSocket => if sent.getD 0 ≤ data.length then some (s.next i deleteSocket) else none
    | _ => none

/-- `poll` begins -/
def start (cfg : ServerConfig) : SelectServer where
  heap := fun _ => none
  clientSockets := fun _ => none
  writingSockets := ∅
  activeFdSet := {cfg.listenSocket}
  readFdSet := ∅
  writeFdSet := ∅
  connectionsToWrite := ∅
  openFds := {cfg.listenSocket}
  entering := []
  accepted := 0
  reported := []
  callbacks := []
  pc := .head

/-! ## What a step does -/

section Steps

variable {cfg : ServerConfig} {s s' : SelectServer}

@[simp] theorem touch_conn (s : SelectServer) (fd fd' : ℕ) : (s.touch fd).conn fd' = s.conn fd' := by
  rw [conn, touch, connAt_update]
  split_ifs with h
  · rw [h]; rfl
  · rfl

theorem put_heap (s : SelectServer) (p : ℕ) (o : ConnObject) (q : ℕ) :
    (s.put p o).heap q = if q = p then some o else s.heap q := Function.update_apply s.heap p (some o) q

theorem put_fdAt {p : ℕ} {o o' : ConnObject} (ho : s.heap p = some o) (hfd : o'.conn._fd = o.conn._fd) (q : ℕ) :
    (s.put p o').fdAt q = s.fdAt q := by
  simp only [fdAt, put_heap]
  split_ifs with hq
  · rw [hq, ho, Option.map_some, Option.map_some, hfd]
  · rfl

theorem step_append {p : ℕ} {data : Bytes} (h : step cfg s (.append p data) = some s') :
    ∃ o, s.heap p = some o ∧
      s' = { s.put p { o with conn := o.conn.sendData data } with entering := p :: s.entering } := by
  simp only [step] at h
  split at h
  · cases h
  · rename_i o ho
    exact ⟨o, ho, (Option.some.inj h).symm⟩

theorem step_enter {p : ℕ} (h : step cfg s (.enter p) = some s') :
    p ∈ s.entering ∧
      s' = { s with entering := s.entering.erase p, writingSockets := insert p s.writingSockets } := by
  simp only [step] at h
  split_ifs at h with hp
  exact ⟨hp, (Option.some.inj h).symm⟩

theorem step_swap (h : step cfg s .swap = some s') :
    s.pc = .head ∧ s' = { s with
      connectionsToWrite := s.writingSockets
      writingSockets := ∅
      writeFdSet := s.writingSockets.image s.fdOf
      pc := .selecting } := by
  simp only [step] at h
  split at h
  · rename_i hpc
    split_ifs at h
    exact ⟨hpc, (Option.some.inj h).symm⟩
  · cases h

theorem step_select {ready : Option (Finset ℕ × Finset ℕ)} (h : step cfg s (.select ready) = some s') :
    s.pc = .selecting ∧ (s' = { s with pc := .returned } ∨
      ∃ readable writable, ready = some (readable, writable) ∧ readable ⊆ s.activeFdSet ∧ writable ⊆ s.writeFdSet ∧
        s' = { s with readFdSet := readable, writeFdSet := writable, pc := .service 0 }) := by
  simp only [step] at h
  split at h
  · rename_i hpc
    refine ⟨hpc, ?_⟩
    match ready with
    | none => exact Or.inl (Option.some.inj h).symm
    | some (readable, writable) =>
      simp only [selectReturns] at h
      split_ifs at h with hsub
      exact Or.inr ⟨readable, writable, rfl, hsub.1, hsub.2, (Option.some.inj h).symm⟩
  · cases h

theorem step_accept {newConn : Option ℕ} {p : ℕ} (h : step cfg s (.accept newConn p) = some s') :
    ∃ i, s.pc = .service i ∧ (s' = { s with pc := .returned } ∨
      ∃ fd, fd ∉ s.openFds ∧ fd < cfg.fdSetSize ∧ s.heap p = none ∧
        s' = { s.put p ⟨.new fd, s.accepted⟩ with
          openFds := insert fd s.openFds
          activeFdSet := insert fd s.activeFdSet
          clientSockets := Function.update s.clientSockets fd (some (some p))
          accepted := s.accepted + 1
          callbacks := s.callbacks ++ [connectedCallback (some s.accepted)]
          pc := .write i false }) := by
  simp only [step] at h
  split at h
  · rename_i i hpc
    refine ⟨i, hpc, ?_⟩
    split_ifs at h
    simp only [acceptReturns] at h
    split at h
    · exact Or.inl (Option.some.inj h).symm
    · rename_i fd
      split_ifs at h with hfd
      exact Or.inr ⟨fd, hfd.1, hfd.2.1, hfd.2.2, (Option.some.inj h).symm⟩
  · cases h

/-- what `recv` returns decides between an exception, the end of the connection and new data -/
theorem receive_cases (cfg : ServerConfig) (s : SelectServer) (i p : ℕ) (o : ConnObject) (result : RecvResult) :
    (result = .error ∧ s.receive cfg i p o result = { s with reported := s.reported ++ [o.serial], pc := .thrown }) ∨
    (result = .bytes [] ∧ s.receive cfg i p o result =
      { s with
        writingSockets := s.writingSockets.erase p
        clientSockets := Function.update s.clientSockets i none
        reported := s.reported ++ [o.serial]
        callbacks := s.callbacks ++ [disconnectedCallback (some o.serial)]
        pc := .disconnecting i p }) ∨
    ∃ receivedData bufs, s.receive cfg i p o result =
      { s.put p { o with conn := { o.conn with receivedData } } with
        callbacks := s.callbacks ++ dataCallbacks (some o.serial) bufs
        pc := .write i false } := by
  cases result with
  | error => exact Or.inl ⟨rfl, rfl⟩
  | bytes buf =>
    apply Or.inr
    by_cases hbuf : buf = []
    · exact Or.inl ⟨by rw [hbuf], by rw [hbuf]; rfl⟩
    · apply Or.inr
      simp only [receive, ClientConnection.receiveDataFromSocket, if_neg hbuf]
      split_ifs
      · exact ⟨o.conn.receivedData, [buf], rfl⟩
      · exact ⟨[], [o.conn.receivedData ++ buf], rfl⟩
      · exact ⟨o.conn.receivedData ++ buf, [], rfl⟩

theorem step_recv {result : RecvResult} (h : step cfg s (.recv result) = some s') :
    ∃ i p o, s.pc = .service i ∧ i ≠ cfg.listenSocket ∧ s.conn i = some p ∧ s.heap p = some o ∧
      s' = s.receive cfg i p o result := by
  simp only [step] at h
  split at h
  · rename_i i hpc
    split_ifs at h with hi
    split at h
    · cases h
    · rename_i p hp
      split at h
      · cases h
      · rename_i o ho
        exact ⟨i, p, o, hpc, hi.2.2, hp, ho, (Option.some.inj h).symm⟩
  · cases h

theorem step_pass (h : step cfg s .pass = some s') :
    ∃ i, s.pc = .service i ∧ ((cfg.fdSetSize ≤ i ∧ s' = { s with pc := .head }) ∨
      s' = { s.touch i with pc := .write i false } ∨ s' = { s with pc := .write i false }) := by
  simp only [step] at h
  split at h
  · rename_i i hpc
    refine ⟨i, hpc, ?_⟩
    split_ifs at h with hi
    · exact Or.inl ⟨hi, (Option.some.inj h).symm⟩
    · exact Or.inr (Or.inl (Option.some.inj h).symm)
    · exact Or.inr (Or.inr (Option.some.inj h).symm)
  · cases h

theorem step_callbackDone (h : step cfg s .callbackDone = some s') :
    ∃ i p, s.pc = .disconnecting i p ∧ p ∉ s.entering ∧ s' = { s with
      heap := Function.update s.heap p none
      activeFdSet := s.activeFdSet.erase i
      pc := .write i true } := by
  simp only [step] at h
  split at h
  · rename_i i p hpc
    split_ifs at h with hp
    exact ⟨i, p, hpc, hp, (Option.some.inj h).symm⟩
  · cases h

theorem step_write (h : step cfg s .write = some s') :
    ∃ i deleteSocket, s.pc = .write i deleteSocket ∧
      ((i ∉ s.writeFdSet ∧ s' = s.next i deleteSocket) ∨ (s.conn i = none ∧ s' = (s.touch i).next i deleteSocket) ∨
        ∃ p o, s.conn i = some p ∧ s.heap p = some o ∧
          s' = { s.put p { o with conn := o.conn.swapDataToSend.1 } with
            pc := .sending i o.conn.swapDataToSend.2 deleteSocket }) := by
  simp only [step] at h
  split at h
  · rename_i i deleteSocket hpc
    refine ⟨i, deleteSocket, hpc, ?_⟩
    split_ifs at h with hi
    · split at h
      · rename_i hnone
        exact Or.inr (Or.inl ⟨hnone, (Option.some.inj h).symm⟩)
      · rename_i p hp
        split at h
        · cases h
        · rename_i o ho
          exact Or.inr (Or.inr ⟨p, o, hp, ho, (Option.some.inj h).symm⟩)
    · exact Or.inl ⟨hi, (Option.some.inj h).symm⟩
  · cases h

theorem step_sent {sent : Option ℕ} (h : step cfg s (.sent sent) = some s') :
    ∃ i data deleteSocket, s.pc = .sending i data deleteSocket ∧ s' = s.next i deleteSocket := by
  simp only [step] at h
  split at h
  · rename_i i data deleteSocket hpc
    split_ifs at h
    exact ⟨i, data, deleteSocket, hpc, (Option.some.inj h).symm⟩
  · cases h

/-- the loop over `n` descriptors that are not ready -/
def idle (n : ℕ) : List Op := (List.replicate n [Op.pass, Op.write]).flatten

theorem run_idle (R W : Finset ℕ) {i n : ℕ} (hpc : s.pc = .service i) (hR : s.readFdSet = R) (hW : s.writeFdSet = W)
    (h : ∀ j, i ≤ j → j < i + n → j < cfg.fdSetSize ∧ j ∉ R ∧ j ∉ W) :
    run (step cfg) s (idle n) = some { s with pc := .service (i + n) } := by
  induction n generalizing s i with
  | zero => rw [← Nat.add_zero i] at hpc; rw [← hpc]; rfl
  | succ n ih =>
    obtain ⟨hlt, hread, hwrite⟩ := h i le_rfl (by omega)
    rw [← hR] at hread
    rw [← hW] at hwrite
    have hpass : step cfg s .pass = some { s with pc := .write i false } := by
      simp only [step, hpc, if_neg (not_le.2 hlt), if_neg hread]
    have hnext : step cfg { s with pc := .write i false } .write = some { s with pc := .service (i + 1) } := by
      simp only [step, if_neg hwrite, next, Bool.false_eq_true, if_false]
    have hrest := ih (s := { s with pc := .service (i + 1) }) rfl hR hW fun j hj hj' => h j (by omega) (by omega)
    rw [Nat.add_assoc, Nat.add_comm 1 n] at hrest
    exact run_cons_some.2 ⟨_, hpass, run_cons_some.2 ⟨_, hnext, hrest⟩⟩

end Steps

/-! ## A client -/

/-- a server that listens on descriptor 3 and takes every chunk for complete data -/
def exampleConfig : ServerConfig := ⟨3, 1024, fun _ => true, by decide⟩

/-- the loop over descriptors among which the only one that is ready is not -/
theorem run_idle_example {s : SelectServer} {i n fd : ℕ} (hpc : s.pc = .service i) (hR : s.readFdSet = {fd})
    (hW : s.writeFdSet = ∅) (hn : i + n ≤ 1024) (hfd : fd < i ∨ i + n ≤ fd) :
    run (step exampleConfig) s (idle n) = some { s with pc := .service (i + n) } := by
  apply run_idle {fd} ∅ hpc hR hW
  intro j hj hj'
  simp only [exampleConfig, Finset.mem_singleton, Finset.notMem_empty, not_false_eq_true, and_true]
  omega

/-- an iteration in which a client connects on descriptor 4 -/
def connectRound : List Op :=
  [Op.swap, Op.select (some ({3}, ∅))] ++ (idle 3 ++ ([Op.accept (some 4) 0, Op.write] ++ (idle 1020 ++ [Op.pass])))

/-- the head of the loop after `connectRound` -/
def afterConnect : SelectServer :=
  { start exampleConfig with
    heap := Function.update (fun _ => none) 0 (some ⟨.new 4, 0⟩)
    clientSockets := Function.update (fun _ => none) 4 (some (some 0))
    activeFdSet := insert 4 {3}
    readFdSet := {3}
    openFds := insert 4 {3}
    accepted := 1
    callbacks := [connectedCallback (some 0)] }

theorem run_connectRound : run (step exampleConfig) (.start exampleConfig) connectRound = some afterConnect :=
  run_append_some rfl (run_append_some (run_idle_example rfl rfl rfl (by decide) (by decide)) (run_append_some rfl
    (run_append_some (run_idle_example rfl rfl rfl (by decide) (by decide)) rfl)))

end SelectServer

end NetFramework
