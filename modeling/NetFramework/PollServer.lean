/-
`Server::poll` of server.cpp on Windows: the loop around `WSAPoll`, among the threads that call
`ClientConnection::sendData`. As in `SelectServer`, a step of the poll thread is the code from one system call, callback
or lock to the next, and what the system does is in the labels.

The loop never takes a descriptor out of `pollfds` and never closes one. A descriptor that has been reported as hung up
is reported so by every later `WSAPoll`. The `revents` of a new entry are not initialised and are looked at once before
the next `WSAPoll` sets them.
-/
import NetFramework.Library.Transition
import NetFramework.CallbackProtocol

namespace NetFramework

open Transition

/-! ## Model -/

/-- the flags POLLRDNORM and POLLHUP -/
structure Revents where
  rdnorm : Bool
  hup : Bool
deriving DecidableEq, Repr

/-- a `WSAPOLLFD`, and whether `WSAPoll` has ever reported it as hung up -/
structure PollFd where
  fd : ℕ
  revents : Revents
  hungUp : Bool
deriving DecidableEq, Repr

namespace PollServer

inductive Pc where
  /-- at the head of the loop -/
  | head
  /-- before the test for new connections -/
  | incoming
  /-- before the test of `pollfds[i]` -/
  | service (i : ℕ)
  /-- in the Disconnected callback for `conn`, at `pollfds[i]` -/
  | disconnecting (i : ℕ) (conn : Option ℕ)
  /-- before the part that sends data -/
  | flush
  /-- with the descriptors that are ready for data -/
  | writing (fds : List ℕ)
  /-- `poll` has returned false -/
  | returned
  /-- an exception has left `poll` -/
  | thrown
deriving DecidableEq, Repr

end PollServer

open PollServer in
structure PollServer where
  heap : ℕ → Option ConnObject
  clientSockets : ℕ → Option (Option ℕ)
  writingSockets : Finset ℕ
  pollfds : List PollFd
  /-- the connections of the `sendData` calls between their two locks -/
  entering : List ℕ
  /-- the number of connections accepted -/
  accepted : ℕ
  /-- the connections whose `recv` has reported the end or an error -/
  reported : List ℕ
  callbacks : List Callback
  pc : Pc

namespace PollServer

/-- a section of `sendData`, or a step of the poll thread with what the system answers -/
inductive Op where
  | append (p : ℕ) (data : Bytes)
  | enter (p : ℕ)
  | poll (revents : Option (List Revents))
  | incoming (asock : Option ℕ) (p : ℕ) (revents : Revents)
  | recv (result : RecvResult)
  | hangUp
  | callbackDone
  | pass
  | flush (ready : Option (List ℕ))
  | write

/-- the value of `clientSockets[fd]` -/
def conn (s : PollServer) (fd : ℕ) : Option ℕ := connAt s.clientSockets fd

/-- what `clientSockets[fd]` leaves behind -/
def touch (s : PollServer) (fd : ℕ) : PollServer :=
  { s with clientSockets := Function.update s.clientSockets fd (some (s.conn fd)) }

/-- the connection at `p` is now `o` -/
def put (s : PollServer) (p : ℕ) (o : ConnObject) : PollServer :=
  { s with heap := Function.update s.heap p (some o) }

/-- `conn->_fd` -/
def fdOf (s : PollServer) (p : ℕ) : ℕ := ((s.heap p).map (·.conn._fd)).getD 0

/-- `WSAPoll` returns: an error, or the flags of every entry -/
def pollReturns (s : PollServer) : Option (List Revents) → Option PollServer
  | none => some { s with pc := .returned }
  | some revents =>
    if revents.length = s.pollfds.length ∧
        ∀ entry ∈ s.pollfds.zip revents, entry.1.hungUp = true → entry.2.hup = true then
      some { s with
        pollfds := s.pollfds.zipWith (fun f r => { f with revents := r, hungUp := f.hungUp || r.hup }) revents
        pc := .incoming }
    else none

/-- `accept` returns an error, or a descriptor that is not in use; the connection is allocated at `p` -/
def acceptReturns (s : PollServer) (asock : Option ℕ) (p : ℕ) (revents : Revents) : Option PollServer :=
  match asock with
  | none => some { s with pc := .returned }
  | some fd =>
    if fd ∉ s.pollfds.map PollFd.fd ∧ s.heap p = none then
      some { s.put p ⟨.new fd, s.accepted⟩ with
        clientSockets := Function.update s.clientSockets fd (some (some p))
        pollfds := s.pollfds ++ [⟨fd, revents, false⟩]
        accepted := s.accepted + 1
        callbacks := s.callbacks ++ [connectedCallback (some s.accepted)]
        pc := .service 0 }
    else none

/-- `receiveDataFromSocket` of the connection `o` at `p`; what it returns is not looked at -/
def receive (complete : Bytes → Bool) (s : PollServer) (i p : ℕ) (o : ConnObject) (result : RecvResult) : PollServer :=
  match o.conn.receiveDataFromSocket complete result with
  | none => { s with reported := s.reported ++ [o.serial], pc := .thrown }
  | some (conn, bufs, true) =>
    { s.put p { o with conn } with
      callbacks := s.callbacks ++ dataCallbacks (some o.serial) bufs
      pc := .service (i + 1) }
  | some (_, _, false) => { s with reported := s.reported ++ [o.serial], pc := .service (i + 1) }

/-- a hang-up on `fd`, up to the Disconnected callback; `serial` is the connection called back about, if there is one -/
def disconnect (s : PollServer) (i fd : ℕ) (serial : Option ℕ) : PollServer :=
  { s with
    writingSockets := match s.conn fd with
      | none => s.writingSockets
      | some p => s.writingSockets.erase p
    clientSockets := Function.update s.clientSockets fd none
    callbacks := s.callbacks ++ [disconnectedCallback serial]
    pc := .disconnecting i (s.conn fd) }

/-- the second `WSAPoll` returns: an error, or the descriptors that are ready for data among those asked about; it is not
called for none -/
def flushReturns (s : PollServer) : Option (List ℕ) → Option PollServer
  | none => if s.writingSockets = ∅ then none else some { s with writingSockets := ∅, pc := .returned }
  | some fds =>
    if ∀ fd ∈ fds, fd ∈ s.writingSockets.image s.fdOf then some { s with writingSockets := ∅, pc := .writing fds }
    else none

def step (complete : Bytes → Bool) (s : PollServer) : Op → Option PollServer
  | .append p data =>
    match s.heap p with
    | none => none
    | some o => some { s.put p { o with conn := o.conn.sendData data } with entering := p :: s.entering }
  | .enter p =>
    if p ∈ s.entering then
      some { s with entering := s.entering.erase p, writingSockets := insert p s.writingSockets }
    else none
  | .poll revents =>
    match s.pc with
    | .head => s.pollReturns revents
    | _ => none
  | .incoming asock p revents =>
    match s.pc, s.pollfds with
    | .incoming, listening :: _ =>
      if listening.revents.rdnorm then s.acceptReturns asock p revents else some { s with pc := .service 0 }
    | _, _ => none
  | .recv result =>
    match s.pc with
    | .service i =>
      match s.pollfds[i]? with
      | none => none
      | some f =>
        if f.revents.rdnorm then
          match s.conn f.fd with
          | none => none
          | some p =>
            match s.heap p with
            | none => none
            | some o => some (s.receive complete i p o result)
        else none
    | _ => none
  | .hangUp =>
    match s.pc with
    | .service i =>
      match s.pollfds[i]? with
      | none => none
      | some f =>
        if f.revents.rdnorm = false ∧ f.revents.hup = true then
          match s.conn f.fd with
          | none => some (s.disconnect i f.fd none)
          | some p =>
            match s.heap p with
            | none => none
            | some o => some (s.disconnect i f.fd (some o.serial))
        else none
    | _ => none
  | .callbackDone =>
    match s.pc with
    | .disconnecting i none => some { s with pc := .service (i + 1) }
    | .disconnecting i (some p) =>
      if p ∈ s.entering then none
      else some { s with heap := Function.update s.heap p none, pc := .service (i + 1) }
    | _ => none
  | .pass =>
    match s.pc with
    | .service i =>
      match s.pollfds[i]? with
      | none => some { s with pc := .flush }
      | some f =>
        if f.revents.rdnorm then
          match s.conn f.fd with
          | none => some { s.touch f.fd with pc := .service (i + 1) }
          | some _ => none
        else if f.revents.hup then none
        else some { s with pc := .service (i + 1) }
    | .writing [] => some { s with pc := .head }
    | _ => none
  | .flush ready =>
    match s.pc with
    | .flush =>
      if ∀ p ∈ s.writingSockets, (s.heap p).isSome = true then s.flushReturns ready else none
    | _ => none
  | .write =>
    match s.pc with
    | .writing (fd :: fds) =>
      match s.conn fd with
      | none => some { s.touch fd with pc := .writing fds }
      | some p =>
        match s.heap p with
        | none => none
        | some o => some { s.put p { o with conn := o.conn.swapDataToSend.1 } with pc := .writing fds }
    | _ => none

/-- `poll` begins; the first entry of `pollfds` is the listening socket -/
def start (listenSocket : ℕ) : PollServer where
  heap := fun _ => none
  clientSockets := fun _ => none
  writingSockets := ∅
  pollfds := [⟨listenSocket, ⟨false, false⟩, false⟩]
  entering := []
  accepted := 0
  reported := []
  callbacks := []
  pc := .head

/-! ## What a step does -/

section Steps

variable {complete : Bytes → Bool} {s s' : PollServer}

theorem step_append {p : ℕ} {data : Bytes} (h : step complete s (.append p data) = some s') :
    ∃ o, s.heap p = some o ∧
      s' = { s.put p { o with conn := o.conn.sendData data } with entering := p :: s.entering } := by
  simp only [step] at h
  split at h
  · cases h
  · rename_i o ho
    exact ⟨o, ho, (Option.some.inj h).symm⟩

theorem step_enter {p : ℕ} (h : step complete s (.enter p) = some s') :
    s' = { s with entering := s.entering.erase p, writingSockets := insert p s.writingSockets } := by
  simp only [step] at h
  split_ifs at h
  exact (Option.some.inj h).symm

theorem step_poll {revents : Option (List Revents)} (h : step complete s (.poll revents) = some s') :
    s.pc = .head ∧ (s' = { s with pc := .returned } ∨
      ∃ pollfds, s' = { s with pollfds := pollfds, pc := .incoming }) := by
  simp only [step] at h
  split at h
  · rename_i hpc
    refine ⟨hpc, ?_⟩
    match revents with
    | none => exact Or.inl (Option.some.inj h).symm
    | some revents =>
      simp only [pollReturns] at h
      split_ifs at h
      exact Or.inr ⟨_, (Option.some.inj h).symm⟩
  · cases h

theorem step_incoming {asock : Option ℕ} {p : ℕ} {revents : Revents}
    (h : step complete s (.incoming asock p revents) = some s') :
    s.pc = .incoming ∧ (s' = { s with pc := .service 0 } ∨ s' = { s with pc := .returned } ∨
      ∃ fd, s.heap p = none ∧
        s' = { s.put p ⟨.new fd, s.accepted⟩ with
          clientSockets := Function.update s.clientSockets fd (some (some p))
          pollfds := s.pollfds ++ [⟨fd, revents, false⟩]
          accepted := s.accepted + 1
          callbacks := s.callbacks ++ [connectedCallback (some s.accepted)]
          pc := .service 0 }) := by
  simp only [step] at h
  split at h
  · rename_i listening entries hpc _
    refine ⟨hpc, ?_⟩
    split_ifs at h
    · simp only [acceptReturns] at h
      split at h
      · exact Or.inr (Or.inl (Option.some.inj h).symm)
      · rename_i fd
        split_ifs at h with hfd
        exact Or.inr (Or.inr ⟨fd, hfd.2, (Option.some.inj h).symm⟩)
    · exact Or.inl (Option.some.inj h).symm
  · cases h

theorem step_recv {result : RecvResult} (h : step complete s (.recv result) = some s') :
    ∃ i fd p o, s.pc = .service i ∧ s.conn fd = some p ∧ s.heap p = some o ∧ s' = s.receive complete i p o result := by
  simp only [step] at h
  split at h
  · rename_i i hpc
    split at h
    · cases h
    · rename_i f hf
      split_ifs at h
      split at h
      · cases h
      · rename_i p hp
        split at h
        · cases h
        · rename_i o ho
          exact ⟨i, f.fd, p, o, hpc, hp, ho, (Option.some.inj h).symm⟩
  · cases h

/-- what `recv` returns decides between an exception, nothing at all and new data -/
theorem receive_cases (complete : Bytes → Bool) (s : PollServer) (i p : ℕ) (o : ConnObject) (result : RecvResult) :
    (result = .error ∧
      s.receive complete i p o result = { s with reported := s.reported ++ [o.serial], pc := .thrown }) ∨
    (result = .bytes [] ∧
      s.receive complete i p o result = { s with reported := s.reported ++ [o.serial], pc := .service (i + 1) }) ∨
    (result ≠ .error ∧ result ≠ .bytes [] ∧ ∃ receivedData bufs, s.receive complete i p o result =
      { s.put p { o with conn := { o.conn with receivedData } } with
        callbacks := s.callbacks ++ dataCallbacks (some o.serial) bufs
        pc := .service (i + 1) }) := by
  cases result with
  | error => exact Or.inl ⟨rfl, rfl⟩
  | bytes buf =>
    apply Or.inr
    by_cases hbuf : buf = []
    · exact Or.inl ⟨by rw [hbuf], by rw [hbuf]; rfl⟩
    · refine Or.inr ⟨by simp, by simpa using hbuf, ?_⟩
      simp only [receive, ClientConnection.receiveDataFromSocket, if_neg hbuf]
      split_ifs
      · exact ⟨o.conn.receivedData, [buf], rfl⟩
      · exact ⟨[], [o.conn.receivedData ++ buf], rfl⟩
      · exact ⟨o.conn.receivedData ++ buf, [], rfl⟩

theorem step_hangUp (h : step complete s .hangUp = some s') :
    ∃ i f, s.pc = .service i ∧ s.pollfds[i]? = some f ∧
      ((s.conn f.fd = none ∧ s' = s.disconnect i f.fd none) ∨
        ∃ p o, s.conn f.fd = some p ∧ s.heap p = some o ∧ s' = s.disconnect i f.fd (some o.serial)) := by
  simp only [step] at h
  split at h
  · rename_i i hpc
    split at h
    · cases h
    · rename_i f hf
      refine ⟨i, f, hpc, hf, ?_⟩
      split_ifs at h
      split at h
      · rename_i hnone
        exact Or.inl ⟨hnone, (Option.some.inj h).symm⟩
      · rename_i p hp
        split at h
        · cases h
        · rename_i o ho
          exact Or.inr ⟨p, o, hp, ho, (Option.some.inj h).symm⟩
  · cases h

theorem step_callbackDone (h : step complete s .callbackDone = some s') :
    ∃ i, s' = { s with pc := .service (i + 1) } ∨ ∃ p, s.pc = .disconnecting i (some p) ∧
      s' = { s with heap := Function.update s.heap p none, pc := .service (i + 1) } := by
  simp only [step] at h
  split at h
  · rename_i i hpc
    exact ⟨i, Or.inl (Option.some.inj h).symm⟩
  · rename_i i p hpc
    split_ifs at h
    exact ⟨i, Or.inr ⟨p, hpc, (Option.some.inj h).symm⟩⟩
  · cases h

theorem step_pass (h : step complete s .pass = some s') :
    ∃ pc, (∀ i conn, pc ≠ .disconnecting i conn) ∧ pc ≠ .thrown ∧
      (s' = { s with pc := pc } ∨ ∃ fd, s' = { s.touch fd with pc := pc }) := by
  simp only [step] at h
  split at h
  · rename_i i hpc
    split at h
    · exact ⟨.flush, by simp, by simp, Or.inl (Option.some.inj h).symm⟩
    · rename_i f hf
      split_ifs at h
      · split at h
        · exact ⟨.service (i + 1), by simp, by simp, Or.inr ⟨f.fd, (Option.some.inj h).symm⟩⟩
        · cases h
      · exact ⟨.service (i + 1), by simp, by simp, Or.inl (Option.some.inj h).symm⟩
  · exact ⟨.head, by simp, by simp, Or.inl (Option.some.inj h).symm⟩
  · cases h

theorem step_flush {ready : Option (List ℕ)} (h : step complete s (.flush ready) = some s') :
    ∃ pc, (∀ i conn, pc ≠ .disconnecting i conn) ∧ pc ≠ .thrown ∧ s' = { s with writingSockets := ∅, pc := pc } := by
  simp only [step] at h
  split at h
  · split_ifs at h
    cases ready with
    | none =>
      simp only [flushReturns] at h
      split_ifs at h
      exact ⟨.returned, by simp, by simp, (Option.some.inj h).symm⟩
    | some fds =>
      simp only [flushReturns] at h
      split_ifs at h
      exact ⟨.writing fds, by simp, by simp, (Option.some.inj h).symm⟩
  · cases h

theorem step_write (h : step complete s .write = some s') :
    ∃ fds, (∃ fd, s' = { s.touch fd with pc := .writing fds }) ∨
      ∃ p o, s.heap p = some o ∧
        s' = { s.put p { o with conn := o.conn.swapDataToSend.1 } with pc := .writing fds } := by
  simp only [step] at h
  split at h
  · rename_i fd fds hpc
    refine ⟨fds, ?_⟩
    split at h
    · exact Or.inl ⟨fd, (Option.some.inj h).symm⟩
    · rename_i p hp
      split at h
      · cases h
      · rename_i o ho
        exact Or.inr ⟨p, o, ho, (Option.some.inj h).symm⟩
  · cases h

end Steps

end PollServer

end NetFramework
