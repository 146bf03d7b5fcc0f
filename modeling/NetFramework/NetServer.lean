/-
The whole server of netbase.cpp: the sessions of `NetBase::Impl` (`netStep`), the `HandlerManager` that
`SessionImpl::handlePacket` calls, and the worker threads of the handlers (`Server.step`). Handlers are registered before
`NetBase::start`; then accepts, completions of the sessions and steps of the workers come in any order. The handlers keep
`HandlerBase::sendAnswer` as it is.

A completed read may hand a packet to the `HandlerManager`. An exception of `HandlerManager::handlePacket` leaves the
completion handler and `io_context::run`; one of a worker ends the program. Nothing runs after either, so what the
handler that was left would still have done to its session is kept in the model and makes no difference.

Here are the steps and what each of them keeps; `NetServerRun` has the results over runs.
-/
import NetFramework.NetBase
import NetFramework.AnswerRouting

namespace NetFramework

open Transition WorkerThread IStream

variable {ι ρ : Type}

/-! ## Model -/

/-- the packet that an effect gives to `HandlerManager::handlePacket`, behind the id of its session -/
def Effect.arrival? : Effect → Option (Int32 × Bytes)
  | .handlePacket data clientId => some (clientId, data)
  | _ => none

/-- what a handler of the session gives to `HandlerManager::handlePacket` -/
def SessionImpl.arrivals (impl : SessionImpl) : ConnOp → List (Int32 × Bytes)
  | .readDone error chunk pkgSize =>
    match (impl.readInto chunk).processRead error chunk.length pkgSize with
    | none => []
    | some (_, effects) => effects.filterMap Effect.arrival?
  | _ => []

/-- `arrivals` are the packets given to `HandlerManager::handlePacket`, in order; `escaped` is set by an exception that
leaves `io_context::run` -/
structure NetServer (ι ρ : Type) where
  net : NetBase
  server : Server ι ρ
  arrivals : List (Int32 × Bytes)
  escaped : Bool

/-- the completion of an accept, the completion of an operation of a session, a step of the worker of a handler -/
inductive NetServerOp (ι ρ : Type) where
  | accept (error : Bool) (next : ℕ) (data : CharArray maxLength)
  | handler (session : ℕ) (o : ConnOp)
  | worker (i : ι) (o : WorkerOp (HandleCall ι ρ))

/-- the operations of the session at `q` whose completions have run, after one more step; an accept may allocate a new
session there -/
def NetServerOp.ownOps (q : ℕ) (own : List ConnOp) : NetServerOp ι ρ → List ConnOp
  | .accept _ next _ => if next = q then [] else own
  | .handler p o => if p = q then own ++ [o] else own
  | .worker _ _ => own

/-- the operations of the session at `q` whose completions have run since it was allocated -/
def ownOps (q : ℕ) (ops : List (NetServerOp ι ρ)) : List ConnOp := ops.foldl (NetServerOp.ownOps q) []

/-- the handlers after `NetBase::registerHandler` for each of `bases` -/
def registered (bases : List (Option (Bytes × ι))) : List (Bytes × ι) :=
  (bases.foldl HandlerManager.registerHandler (.new : HandlerManager ι Empty)).handlers_

namespace NetServer

/-- the program runs no more -/
def stopped (s : NetServer ι ρ) : Bool := s.escaped || s.server.terminated

/-- the packets that a handler of the session at `p` gives to `HandlerManager::handlePacket` -/
def arrivalsAt (s : NetServer ι ρ) (p : ℕ) (o : ConnOp) : List (Int32 × Bytes) :=
  match s.net.heap p with
  | none => []
  | some obj => obj.conn.impl.arrivals o

variable [DecidableEq ι]

/-- `HandlerManager::handlePacket` for one packet after the other -/
def handlePackets (prog : Program ι ρ) : NetServer ι ρ → List (Int32 × Bytes) → Option (NetServer ι ρ)
  | s, [] => some s
  | s, (clientId, data) :: packets =>
    match s.server.manager.handlePacket data clientId.toInt64 with
    | .error _ => some { s with arrivals := s.arrivals ++ [(clientId, data)], escaped := true }
    | .ok _ =>
      (s.server.step prog (.packet data clientId.toInt64)).bind fun server =>
        handlePackets prog { s with server, arrivals := s.arrivals ++ [(clientId, data)] } packets

/-- the calls of the send callback that have been made since `before` -/
def sends (before after : Server ι ρ) : List NetOp :=
  (after.sent.drop before.sent.length).map fun (data, clientId) => .send data clientId

def step (prog : Program ι ρ) (s : NetServer ι ρ) (o : NetServerOp ι ρ) : Option (NetServer ι ρ) :=
  if s.stopped then none
  else
    match o with
    | .accept error next data => (netStep s.net (.accept error next data)).map fun net => { s with net }
    | .handler p o =>
      (netStep s.net (.handler p o)).bind fun net => { s with net }.handlePackets prog (s.arrivalsAt p o)
    | .worker i o =>
      (s.server.step prog (.worker i o)).bind fun server =>
        (run netStep s.net (sends s.server server)).map fun net => { s with net, server }

/-- the server with its handlers registered; the first session is allocated at `p` -/
def start (bases : List (Option (Bytes × ι))) (p : ℕ) (data : CharArray maxLength) : NetServer ι ρ :=
  ⟨.start p data, .new (registered bases), [], false⟩

end NetServer

/-- the call that a packet asks for, with the id of the session it has come from -/
def callOf (handlers_ : List (Bytes × ι)) (arrival : Int32 × Bytes) : Option (HandleCall ι ρ) :=
  match RMIPacket.deserialize (good arrival.2) .new with
  | .error _ => none
  | .ok pkg =>
    (handlers_.lookup pkg.handlerName).map fun handler =>
      ⟨handler, pkg.signature, pkg.data, ⟨some arrival.1.toInt64, none⟩⟩

/-- the packet cannot be decoded -/
def Malformed (data : Bytes) : Prop := ∃ e, RMIPacket.deserialize (good data) .new = .error e

/-! ## Registration -/

theorem lookup_singleton (name name' : Bytes) (handler : ι) :
    [(name', handler)].lookup name = if name = name' then some handler else none := by
  by_cases h : name = name'
  · simp [h]
  · simp [List.lookup_cons, beq_eq_false_iff_ne.2 h, h]

theorem registerHandler_lookup (m : HandlerManager ι ρ) (base : Option (Bytes × ι)) (name : Bytes) :
    (m.registerHandler base).handlers_.lookup name = (m.handlers_.lookup name).or (base.toList.lookup name) := by
  cases base with
  | none => simp [HandlerManager.registerHandler]
  | some base =>
    obtain ⟨name', handler⟩ := base
    rw [HandlerManager.registerHandler, Option.toList_some]
    by_cases h : (m.handlers_.lookup name').isSome = true
    · -- the name is taken: under another name nothing is found, and under this one nothing is looked up
      rw [if_pos h, lookup_singleton]
      split_ifs with hname
      · obtain ⟨taken, htaken⟩ := Option.isSome_iff_exists.1 h
        rw [hname, htaken]
        rfl
      · rw [Option.or_none]
    · rw [if_neg h]
      exact List.lookup_append

/-- **Registration.** A name means the first handler that was registered under it. -/
theorem registered_lookup (bases : List (Option (Bytes × ι))) (name : Bytes) :
    (registered bases).lookup name = (bases.filterMap id).lookup name := by
  have hfold : ∀ (bases : List (Option (Bytes × ι))) (m : HandlerManager ι Empty),
      (bases.foldl HandlerManager.registerHandler m).handlers_.lookup name =
        (m.handlers_.lookup name).or ((bases.filterMap id).lookup name) := by
    intro bases
    induction bases with
    | nil => intro m; simp
    | cons base bases ih =>
      intro m
      rw [List.foldl_cons, ih, registerHandler_lookup, Option.or_assoc]
      cases base with
      | none => simp
      | some base => simp [← List.lookup_append]
  rw [registered, hfold]
  simp [HandlerManager.new]

/-! ## The calls of a worker -/

/-- the calls that a worker has begun, then those that wait for it -/
def served {α : Type} (t : WorkerThread α) : List α := t.executed ++ t.pending.filterMap ThreadMsg.fnc?

theorem thread_served {α : Type} {t t' : WorkerThread α} {o : WorkerOp α} (hu : ThreadedClass.Unstopped t)
    (h : t.step o = some t') : served t' = served t ++ (o.message.bind ThreadMsg.fnc?).toList := by
  obtain ⟨hx, hpend⟩ := hu
  unfold served
  cases step_kind h with
  | sends m hm hp he _ _ =>
    rw [hp, he, hm, List.filterMap_append, List.append_assoc]
    cases hf : m.fnc? <;> simp [hf]
  | silent hm hp he _ _ => rw [hp, he, hm]; simp
  | returns _ hp he _ _ _ => rw [hp, he]; simp [WorkerOp.message]
  | takes m _ hp he _ _ _ _ =>
    rw [hp, he]
    cases hf : m.fnc? <;> simp [hf, WorkerOp.message]
  | stops hp _ _ _ _ =>
    have := hpend .exitThread (hp ▸ List.mem_cons_self)
    cases this
  | drains _ hx' _ _ _ => rw [hx] at hx'; cases hx'

namespace Server

theorem method_served {t t' : ThreadedClass (HandleCall ι ρ)} {call : HandleCall ι ρ} (hl : Live t)
    (h : t.step (.method call) = some t') : served t'.thread_ = served t.thread_ ++ [call] := by
  have hthread : t.thread_.step (.postMsg call) = some t'.thread_ := by
    simp only [ThreadedClass.step, hl.alive] at h
    cases h
    rfl
  exact thread_served hl.unstopped hthread

theorem worker_served {t t' : ThreadedClass (HandleCall ι ρ)} {o : WorkerOp (HandleCall ι ρ)} (hl : Live t)
    (h : t.step (.worker o) = some t') : served t'.thread_ = served t.thread_ := by
  simp only [ThreadedClass.step] at h
  split_ifs at h with hin
  obtain ⟨w, hw, rfl⟩ := Option.map_eq_some_iff.1 h
  have hnone : o.message.bind ThreadMsg.fnc? = none := by
    cases hm : o.message with
    | none => rfl
    | some m => exact (ThreadedClass.internal_message hin m hm).2
  have hserved := thread_served hl.unstopped hw
  rwa [hnone, Option.toList_none, List.append_nil] at hserved

variable [DecidableEq ι]

/-- a packet changes the manager, and its call, if it asks for one, waits behind those of its handler -/
theorem step_packet {prog : Program ι ρ} {s s' : Server ι ρ} {data : Bytes} {clientId : Int64}
    (hl : ∀ i, Live (s.handlers i)) (h : s.step prog (.packet data clientId) = some s') :
    ∃ m call, s.manager.handlePacket data clientId = .ok (m, call) ∧ s'.manager = m ∧ s'.sent = s.sent ∧
      s'.finished = s.finished ∧ s'.terminated = s.terminated ∧
      ∀ i, served (s'.handlers i).thread_ =
        served (s.handlers i).thread_ ++ (call.toList.filter fun c => c.handler = i) := by
  simp only [step] at h
  split_ifs at h
  cases hm : s.manager.handlePacket data clientId with
  | error e => rw [hm] at h; cases h
  | ok r =>
    obtain ⟨m, call⟩ := r
    rw [hm] at h
    refine ⟨m, call, rfl, ?_⟩
    cases call with
    | none => cases h; exact ⟨rfl, rfl, rfl, rfl, by simp⟩
    | some c =>
      obtain ⟨t, ht, rfl⟩ := Option.map_eq_some_iff.1 h
      refine ⟨rfl, rfl, rfl, rfl, ?_⟩
      intro i
      by_cases hi : i = c.handler
      · subst hi
        rw [setHandler_self, method_served (hl c.handler) ht]
        simp
      · rw [setHandler_of_ne _ t hi]
        simp [Ne.symm hi]

/-- a step of a worker leaves the manager and the calls as they are, and a call of a registered function that has run
ends the program -/
theorem step_worker {prog : Program ι ρ} {s s' : Server ι ρ} {i : ι} {o : WorkerOp (HandleCall ι ρ)} (hs : Mute s)
    (h : s.step prog (.worker i o) = some s') :
    s'.manager = s.manager ∧ (∀ j, served (s'.handlers j).thread_ = served (s.handlers j).thread_) ∧
      (s'.finished = s.finished ∧ s'.terminated = s.terminated ∨ s'.finished ≠ [] ∧ s'.terminated = true) := by
  simp only [step] at h
  split_ifs at h
  obtain ⟨t, ht, rfl⟩ := Option.map_eq_some_iff.1 h
  have hserved : ∀ j, served ((s.setHandler i t).handlers j).thread_ = served (s.handlers j).thread_ := by
    intro j
    by_cases hj : j = i
    · subst hj
      rw [setHandler_self, worker_served (hs.live j) ht]
    · rw [setHandler_of_ne s t hj]
  cases hf : s.finishes i o with
  | none => exact ⟨rfl, hserved, Or.inl ⟨rfl, rfl⟩⟩
  | some call =>
    have hcall : call ∈ calls (s.handlers i).thread_ := by
      cases o with
      | callbackReturns =>
        have hrun : (s.handlers i).thread_.running = some call := hf
        rw [calls, hrun]
        exact List.mem_append_left _ (List.mem_singleton_self call)
      | _ => cases hf
    rcases handleCall_mute prog (hs.copies i call hcall) with ⟨hreg, e, he⟩ | ⟨hreg, he⟩
    · simp only [finish, hreg, he, if_true]
      exact ⟨rfl, hserved, Or.inr ⟨by simp, trivial⟩⟩
    · simp only [finish, hreg, he, Bool.false_eq_true, if_false]
      exact ⟨rfl, hserved, Or.inl ⟨rfl, rfl⟩⟩

end Server

/-! ## The sessions -/

/-- the session as `handleAccept` leaves it, with its id -/
def acceptedAs (data : CharArray maxLength) (clientId : Int32) : Conn :=
  (SessionObject.new data).conn.apply ({ SessionImpl.new data with clientId_ := clientId }, SessionImpl.start)

/-- nothing has been given to the session to send -/
structure Silent (c : Conn) : Prop where
  sent : c.sent = []
  written : c.written = []
  writes : c.writes = []
  waiting : c.impl.outBuffer_ = [] ∧ c.impl.outBufferProcessing_ = []

theorem silent_new (data : CharArray maxLength) : Silent (SessionObject.new data).conn := ⟨rfl, rfl, rfl, rfl, rfl⟩

theorem silent_accepted (data : CharArray maxLength) (clientId : Int32) : Silent (acceptedAs data clientId) :=
  ⟨rfl, rfl, rfl, rfl, rfl⟩

theorem consume_length {impl impl' : SessionImpl} {n : ℕ} {pkgSize : UInt32} {packets : List Bytes}
    (h : impl.consume n pkgSize = some (impl', packets)) : packets.length ≤ 1 := by
  simp only [SessionImpl.consume] at h
  split_ifs at h
  all_goals simp only [Option.map_eq_some_iff, Option.some.injEq, Prod.mk.injEq] at h
  all_goals first
    | obtain ⟨-, rfl⟩ := h; simp
    | obtain ⟨_, -, -, rfl⟩ := h; simp

/-- what a read without error gives to `HandlerManager::handlePacket` -/
theorem arrivals_read {impl impl' : SessionImpl} {chunk : Bytes} {pkgSize : UInt32} {packets : List Bytes}
    (h : (impl.readInto chunk).consume chunk.length pkgSize = some (impl', packets)) :
    impl.arrivals (.readDone false chunk pkgSize) = packets.map (impl.clientId_, ·) := by
  have hid : impl'.clientId_ = (impl.readInto chunk).clientId_ := consume_clientId h
  have hprocess : (impl.readInto chunk).processRead false chunk.length pkgSize =
      some (impl', packets.map (.handlePacket · impl'.clientId_) ++ [.asyncReadSome]) := by
    simp [SessionImpl.processRead, h]
  simp only [SessionImpl.arrivals, hprocess, hid, List.filterMap_append, List.filterMap_map]
  simp [Effect.arrival?, Function.comp_def, SessionImpl.readInto]

/-- a handler gives its session's id along with each packet, and one packet at most -/
theorem connStep_arrivals {c c' : Conn} {o : ConnOp} (h : connStep c o = some c') :
    c'.handed = c.handed ++ (c.impl.arrivals o).map Prod.snd ∧ (∀ a ∈ c.impl.arrivals o, a.1 = c.impl.clientId_) ∧
      (c.impl.arrivals o).length ≤ 1 := by
  cases o with
  | handshakeDone error =>
    obtain ⟨-, -, rfl⟩ := connStep_handshake h
    simp [SessionImpl.arrivals, Conn.enter]
  | writeDone error =>
    obtain ⟨b, writes, -, -, rfl⟩ := connStep_write h
    cases error
    · rw [handleWrite_ok]
      split_ifs <;> simp [SessionImpl.arrivals, Conn.apply, Conn.perform, Conn.enter]
    · simp [handleWrite_error, SessionImpl.arrivals, Conn.apply, Conn.perform, Conn.enter]
  | sendData data =>
    obtain ⟨-, rfl⟩ := connStep_send h
    simp only [SessionImpl.sendData]
    split_ifs
    · rw [handleWrite_ok]
      split_ifs <;> simp [SessionImpl.arrivals, Conn.apply, Conn.perform]
    · simp [SessionImpl.arrivals, Conn.apply]
  | readDone error chunk pkgSize =>
    simp only [connStep] at h
    split_ifs at h
    cases error with
    | true =>
      rw [processRead_error] at h
      cases h
      exact ⟨(List.append_nil c.handed).symm, fun a ha => absurd ha List.not_mem_nil, Nat.zero_le 1⟩
    | false =>
      simp only [SessionImpl.processRead, Bool.not_false, if_true, Option.map_map, Option.map_eq_some_iff] at h
      obtain ⟨⟨impl', packets⟩, hread, rfl⟩ := h
      rw [arrivals_read hread]
      refine ⟨?_, ?_, ?_⟩
      · simp [apply_read, Conn.enter, Function.comp_def]
      · simp
      · simpa using consume_length hread

/-- a handler of a silent session leaves it silent -/
theorem Silent.handler {c c' : Conn} {o : ConnOp} (hc : Silent c) (ho : o.isHandler = true)
    (h : connStep c o = some c') : Silent c' := by
  obtain ⟨hsent, hwritten, hwrites, hout, hproc⟩ := hc
  cases o with
  | handshakeDone error =>
    obtain ⟨-, -, rfl⟩ := connStep_handshake h
    exact ⟨hsent, hwritten, hwrites, hout, hproc⟩
  | readDone error chunk pkgSize =>
    obtain ⟨-, -, impl, packets, hout', hproc', rfl⟩ := connStep_read h
    exact ⟨hsent, hwritten, hwrites, hout'.trans hout, hproc'.trans hproc⟩
  | writeDone error =>
    obtain ⟨b, writes, hw, -, -⟩ := connStep_write h
    rw [hwrites] at hw
    cases hw
  | sendData data => cases ho

/-- `start_accept` puts the next session into memory, and nothing else changes -/
theorem startAccept_sessions {s s' : NetBase} {next : ℕ} {data : CharArray maxLength}
    (h : s.startAccept next data = some s') :
    s'.given = s.given ∧ s'.gone = s.gone ∧
      ∀ q o, s'.heap q = some o → (q = next ∧ o = .new data) ∨ (q ≠ next ∧ s.heap q = some o) := by
  simp only [NetBase.startAccept] at h
  split at h
  · cases h
    refine ⟨rfl, rfl, ?_⟩
    intro q o hq
    simp only [NetBase.put, Function.update_apply] at hq
    split_ifs at hq with hqn
    · exact Or.inl ⟨hqn, (Option.some.inj hq).symm⟩
    · exact Or.inr ⟨hqn, hq⟩
  · cases h

/-- a completion of an accept: an id is given unless it has failed, and a session in memory is the new one, or the one
accepted, or as it was -/
theorem accept_sessions {s s' : NetBase} {error : Bool} {next : ℕ} {data : CharArray maxLength} (hw : Waiting s)
    (h : netStep s (.accept error next data) = some s') :
    s'.given = s.given ++ (if error then [] else [s.clientId]) ∧ s'.gone = s.gone ∧
      ∀ q o, s'.heap q = some o → (q = next ∧ o = .new data) ∨
        (q ≠ next ∧ (error = false ∧ q = s.newSession) ∧ ∃ d, s.heap q = some (.new d) ∧
          o = ⟨acceptedAs d s.clientId, true⟩) ∨
        (q ≠ next ∧ s.heap q = some o) := by
  obtain ⟨d, hd⟩ := hw
  obtain ⟨u, hu, hs⟩ := Option.bind_eq_some_iff.1 h
  obtain ⟨hgiven, hgone, hsessions⟩ := startAccept_sessions hs
  simp only [NetBase.handleAccept, hd] at hu
  cases error with
  | true =>
    simp only [Bool.not_true, Bool.false_eq_true, if_false, Option.some.injEq] at hu
    have hdeleted : u = { s with heap := Function.update s.heap s.newSession none } := hu.symm
    rw [hdeleted] at hgiven hgone hsessions
    refine ⟨by simpa using hgiven, hgone, ?_⟩
    intro q o hq
    rcases hsessions q o hq with hnew | ⟨hqn, hold⟩
    · exact Or.inl hnew
    · simp only [Function.update_apply] at hold
      split_ifs at hold
      exact Or.inr (Or.inr ⟨hqn, hold⟩)
  | false =>
    simp only [Bool.not_false, if_true] at hu
    split_ifs at hu
    cases hu
    refine ⟨hgiven, hgone, ?_⟩
    intro q o hq
    rcases hsessions q o hq with hnew | ⟨hqn, hold⟩
    · exact Or.inl hnew
    · simp only [NetBase.put, Function.update_apply] at hold
      split_ifs at hold with hwait
      · exact Or.inr (Or.inl ⟨hqn, ⟨rfl, hwait⟩, d, hwait ▸ hd, (Option.some.inj hold).symm⟩)
      · exact Or.inr (Or.inr ⟨hqn, hold⟩)

/-- a handler of a session: that session has changed, or is gone, and the others are as they were -/
theorem handler_sessions {s s' : NetBase} {p : ℕ} {o : ConnOp} (h : netStep s (.handler p o) = some s') :
    ∃ obj conn, s.heap p = some obj ∧ o.isHandler = true ∧ connStep obj.conn o = some conn ∧ s'.given = s.given ∧
      ∀ q o', s'.heap q = some o' → (q = p ∧ o' = { obj with conn }) ∨ (q ≠ p ∧ s.heap q = some o') := by
  simp only [netStep, NetBase.runHandler] at h
  split at h
  · cases h
  · rename_i obj hobj
    split_ifs at h with ho
    obtain ⟨conn, hconn, rfl⟩ := Option.map_eq_some_iff.1 h
    refine ⟨obj, conn, hobj, ho, hconn, ?_, ?_⟩
    · simp only [NetBase.delete]
      split_ifs <;> rfl
    · intro q o' hq
      by_cases hqp : q = p
      · subst hqp
        refine Or.inl ⟨rfl, ?_⟩
        simp only [NetBase.delete, NetBase.put, NetBase.clientSessionDestroyed] at hq
        split_ifs at hq <;> simp [Function.update_self] at hq
        exact hq.symm
      · refine Or.inr ⟨hqp, ?_⟩
        simp only [NetBase.delete, NetBase.put, NetBase.clientSessionDestroyed] at hq
        split_ifs at hq <;> simpa [Function.update_of_ne hqp] using hq

/-- a handler of an accepted session gives its id up if it deletes the session -/
theorem handler_gone {s s' : NetBase} {p : ℕ} {o : ConnOp} {obj : SessionObject} {conn : Conn}
    (hobj : s.heap p = some obj) (hacc : obj.destroyedFnc_ = true) (hconn : connStep obj.conn o = some conn)
    (h : netStep s (.handler p o) = some s') :
    s'.gone = if 0 < conn.deletions then s.gone ++ [obj.clientId_] else s.gone := by
  simp only [netStep, NetBase.runHandler, hobj] at h
  split_ifs at h
  obtain ⟨conn', hconn', rfl⟩ := Option.map_eq_some_iff.1 h
  obtain rfl : conn = conn' := Option.some.inj (hconn.symm.trans hconn')
  split_ifs
  · have hid : conn.impl.clientId_ = obj.clientId_ := connStep_clientId hconn
    simp only [NetBase.delete, hacc, if_true]
    exact congrArg (s.gone ++ [·]) hid
  · rfl

end NetFramework
