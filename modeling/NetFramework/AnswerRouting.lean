/-
The way of an answer. `HandlerManager::handlePacket` gives the handler a copy of the client's `NetInfo`; the call is
posted to the handler's own thread (`HandlerBase::handleCall`); there the registered function calls
`HandlerBase::sendAnswer`, which calls the function that the `NetInfo` holds. It should end in the callback installed
with `HandlerManager::setSendCallback`.

But no `NetInfo` ever gets a function: `netInfos_` is filled with default-constructed ones,
`HandlerManager::sendAnswer` is empty, and nothing calls `sendData_`. Calling an empty `std::function` throws on the
worker, where nothing catches it, and that ends the program. `answer_routing_exact`: the send callback is never
invoked, so answers are routed only as long as no call of a registered function arrives.

`HandlerBase::sendAnswer` is virtual; the handlers here do not override it.
-/
import NetFramework.HandlerManager
import NetFramework.ThreadedClass

namespace NetFramework

open Transition WorkerThread

variable {ι ρ : Type}

/-! ## Model -/

/-- an invocation of the callback installed with `setSendCallback` -/
abbrev Sent := Bytes × Int32

/-- the program's functions: `functions_` of each handler, by signature, from the data of a call to the answer; and
what a `ReturnCallbackType` that is not empty does -/
structure Program (ι ρ : Type) where
  functions_ : ι → Bytes → Option (Bytes → Except StdException Bytes)
  retCallback : ρ → NetInfo ρ → Bytes → List Sent

namespace Program

variable (p : Program ι ρ)

/-- `HandlerBase::sendAnswer` -/
def sendAnswer (netInfo : NetInfo ρ) (data : Bytes) : Except StdException (List Sent) :=
  match netInfo.retCallback_ with
  | some callback => .ok (p.retCallback callback netInfo data)
  | none => .error .badFunctionCall

/-- `HandlerBase::handleCall` on the handler's own thread -/
def handleCall (call : HandleCall ι ρ) : Except StdException (List Sent) :=
  match p.functions_ call.handler call.signature with
  | some fn => do
    let retdata ← fn call.data
    p.sendAnswer call.netInfo retdata
  | none =>
    -- TODO error handling
    .ok []

/-- the call is for a registered function -/
def registered (call : HandleCall ι ρ) : Bool := (p.functions_ call.handler call.signature).isSome

/-- the answer a call should produce -/
def answer (call : HandleCall ι ρ) : Option Sent := do
  let fn ← p.functions_ call.handler call.signature
  let retdata ← (fn call.data).toOption
  let clientId ← call.netInfo.clientId_
  return (retdata, clientId.toInt32)

end Program

/-- `finished` are the calls of registered functions that have run; `terminated` is set by an exception on a worker -/
structure Server (ι ρ : Type) where
  manager : HandlerManager ι ρ
  handlers : ι → ThreadedClass (HandleCall ι ρ)
  sent : List Sent
  finished : List (HandleCall ι ρ)
  terminated : Bool

inductive ServerOp (ι ρ : Type) where
  | packet (data : Bytes) (clientId : Int64)
  | worker (i : ι) (o : WorkerOp (HandleCall ι ρ))

namespace Server

/-- a server whose handlers are registered, before the first packet -/
def new (handlers_ : List (Bytes × ι)) : Server ι ρ := ⟨⟨handlers_, []⟩, fun _ => .new, [], [], false⟩

/-- the server `s` with the handler `i` replaced -/
def setHandler [DecidableEq ι] (s : Server ι ρ) (i : ι) (t : ThreadedClass (HandleCall ι ρ)) : Server ι ρ :=
  { s with handlers := Function.update s.handlers i t }

/-- the call posted to its handler -/
def post [DecidableEq ι] (s : Server ι ρ) (call : HandleCall ι ρ) : Option (Server ι ρ) :=
  ((s.handlers call.handler).step (.method call)).map fun h => s.setHandler call.handler h

/-- the call that the worker of `i` finishes with the step `o` -/
def finishes (s : Server ι ρ) (i : ι) (o : WorkerOp (HandleCall ι ρ)) : Option (HandleCall ι ρ) :=
  match o with
  | .callbackReturns => (s.handlers i).thread_.running
  | _ => none

/-- the effect of a call that has run -/
def finish (p : Program ι ρ) (s : Server ι ρ) (call : HandleCall ι ρ) : Server ι ρ :=
  let finished := if p.registered call then s.finished ++ [call] else s.finished
  match p.handleCall call with
  | .ok sends => { s with sent := s.sent ++ sends, finished := finished }
  | .error _ => { s with finished := finished, terminated := true }

/-- packets that make `handlePacket` throw do not arrive -/
def step [DecidableEq ι] (p : Program ι ρ) (s : Server ι ρ) : ServerOp ι ρ → Option (Server ι ρ)
  | .packet data clientId =>
    if s.terminated then none
    else
      match s.manager.handlePacket data clientId with
      | .error _ => none
      | .ok (m, none) => some { s with manager := m }
      | .ok (m, some call) => { s with manager := m }.post call
  | .worker i o =>
    if s.terminated then none
    else
      ((s.handlers i).step (.worker o)).map fun h =>
        match s.finishes i o with
        | some call => (s.setHandler i h).finish p call
        | none => s.setHandler i h

/-- every finished call of a registered function has produced exactly one invocation, with its answer and the id of its
client, and there are no others -/
def Routed (p : Program ι ρ) (s : Server ι ρ) : Prop := (s.finished.map p.answer).Perm (s.sent.map some)

/-- the call that a step dispatches -/
def dispatched (s : Server ι ρ) : ServerOp ι ρ → Option (HandleCall ι ρ)
  | .packet data clientId => (s.manager.handlePacket data clientId).toOption.bind Prod.snd
  | .worker _ _ => none

theorem dispatched_packet {s : Server ι ρ} {data : Bytes} {clientId : Int64} {m : HandlerManager ι ρ}
    {call : Option (HandleCall ι ρ)} (hm : s.manager.handlePacket data clientId = .ok (m, call)) :
    s.dispatched (.packet data clientId) = call := by
  show (s.manager.handlePacket data clientId).toOption.bind Prod.snd = call
  rw [hm]
  rfl

/-- the step does not dispatch a call of a registered function -/
def Unanswered (p : Program ι ρ) (s : Server ι ρ) (o : ServerOp ι ρ) : Prop :=
  ∀ call ∈ s.dispatched o, p.registered call = false

instance (p : Program ι ρ) (s : Server ι ρ) (o : ServerOp ι ρ) : Decidable (Unanswered p s o) := by
  unfold Unanswered; infer_instance

/-- every worker has run what was posted to it, or the program has ended -/
def Settled (s : Server ι ρ) : Prop :=
  s.terminated = true ∨ ∀ i, ThreadedClass.Idle (s.handlers i).thread_

/-! ## The calls of a handler -/

/-- the callbacks that run or wait, in order -/
def calls {α : Type} (t : WorkerThread α) : List α := t.running.toList ++ t.pending.filterMap ThreadMsg.fnc?

theorem calls_idle {α : Type} {t : WorkerThread α} (h : ThreadedClass.Idle t) : calls t = [] := by
  unfold calls
  rw [h.1, h.2]
  rfl

/-- while no exit message is sent, a step other than the return of a callback only adds the callback it posts -/
theorem step_calls {α : Type} {t t' : WorkerThread α} {o : WorkerOp α} (hu : ThreadedClass.Unstopped t)
    (h : t.step o = some t') (ho : o ≠ .callbackReturns) :
    calls t' = calls t ++ (o.message.bind ThreadMsg.fnc?).toList := by
  obtain ⟨hx, hpend⟩ := hu
  unfold calls
  cases step_kind h with
  | sends m hm hp _ _ hr =>
    rw [hp, hr, hm, List.filterMap_append, List.append_assoc]
    cases hf : m.fnc? <;> simp [hf]
  | silent hm hp _ _ hr => rw [hp, hr, hm]; simp
  | returns _ _ _ _ _ _ => exact absurd rfl ho
  | takes m _ hp _ _ _ hr hr' =>
    rw [hp, hr, hr']
    cases hf : m.fnc? <;> simp [hf, WorkerOp.message]
  | stops hp _ _ _ _ =>
    have := hpend .exitThread (hp ▸ List.mem_cons_self)
    cases this
  | drains _ hx' _ _ _ => rw [hx] at hx'; cases hx'

/-- the callback that returns is the first -/
theorem return_calls {α : Type} {t t' : WorkerThread α} (h : t.step .callbackReturns = some t') :
    ∃ call, t.running = some call ∧ calls t = call :: calls t' := by
  obtain ⟨queue, timerExit, worker, timer, executed⟩ := t
  cases worker with
  | calling call => cases h; exact ⟨call, rfl, rfl⟩
  | _ => cases h

/-- a handler whose object is alive and whose thread has not been told to exit -/
structure Live {α : Type} (t : ThreadedClass α) : Prop where
  alive : t.teardown = .alive
  unstopped : ThreadedClass.Unstopped t.thread_

theorem live_new {α : Type} : Live (ThreadedClass.new : ThreadedClass α) := ⟨rfl, ThreadedClass.inv_new.1 rfl⟩

theorem live_step {α : Type} {t t' : ThreadedClass α} {o : ObjectOp α} (hl : Live t) (h : t.step o = some t')
    (ho : o ≠ .derivedDestructor) : Live t' := by
  cases ThreadedClass.step_case h with
  | living _ _ ha' w hk hm => exact ⟨ha', ThreadedClass.unstopped_step hl.unstopped hk hm⟩
  | dying _ _ _ => exact absurd rfl ho
  | gone _ ha _ _ _ _ => exact absurd hl.alive ha
  | joins ha _ _ => exact absurd hl.alive ha

theorem method_step {α : Type} {t t' : ThreadedClass α} {call : α} (hl : Live t) (h : t.step (.method call) = some t') :
    Live t' ∧ calls t'.thread_ = calls t.thread_ ++ [call] := by
  refine ⟨live_step hl h (by simp), ?_⟩
  have hthread : t.thread_.step (.postMsg call) = some t'.thread_ := by
    simp only [ThreadedClass.step, hl.alive] at h
    cases h
    rfl
  exact step_calls hl.unstopped hthread (by simp)

theorem worker_step {α : Type} {t t' : ThreadedClass α} {o : WorkerOp α} (hl : Live t)
    (h : t.step (.worker o) = some t') :
    Live t' ∧ ((o ≠ .callbackReturns ∧ calls t'.thread_ = calls t.thread_) ∨
      (o = .callbackReturns ∧ ∃ call, t.thread_.running = some call ∧ calls t.thread_ = call :: calls t'.thread_)) := by
  refine ⟨live_step hl h nofun, ?_⟩
  simp only [ThreadedClass.step] at h
  split_ifs at h with hin
  obtain ⟨w, hw, rfl⟩ := Option.map_eq_some_iff.1 h
  by_cases ho : o = .callbackReturns
  · subst ho
    exact Or.inr ⟨rfl, return_calls hw⟩
  · refine Or.inl ⟨ho, ?_⟩
    have hnone : o.message.bind ThreadMsg.fnc? = none := by
      cases hm : o.message with
      | none => rfl
      | some m => exact (ThreadedClass.internal_message hin m hm).2
    have := step_calls hl.unstopped hw ho
    rwa [hnone, Option.toList_none, List.append_nil] at this

/-! ## Nothing is sent -/

/-- no `NetInfo` holds a function: neither those of the manager nor the copies in the calls -/
structure Mute (s : Server ι ρ) : Prop where
  live : ∀ i, Live (s.handlers i)
  infos : ∀ e ∈ s.manager.netInfos_, e.2.retCallback_ = none
  copies : ∀ i, ∀ call ∈ calls (s.handlers i).thread_, call.netInfo.retCallback_ = none
  sent : s.sent = []
  ended : s.terminated = true → s.finished ≠ []

theorem mute_new (handlers_ : List (Bytes × ι)) : Mute (new handlers_ : Server ι ρ) :=
  ⟨fun _ => live_new, fun _ he => absurd he List.not_mem_nil, fun _ _ hcall => absurd hcall List.not_mem_nil, rfl,
    nofun⟩

theorem dispatch_infos {m : HandlerManager ι ρ} (hm : ∀ e ∈ m.netInfos_, e.2.retCallback_ = none) (pkg : RMIPacket)
    (clientId : Int64) :
    (∀ e ∈ (m.dispatch pkg clientId).1.netInfos_, e.2.retCallback_ = none) ∧
      ∀ c, (m.dispatch pkg clientId).2 = some c →
        c.netInfo.retCallback_ = none ∧ c.netInfo.clientId_ = some clientId := by
  unfold HandlerManager.dispatch HandlerManager.netInfo
  cases m.handlers_.lookup pkg.handlerName with
  | none => exact ⟨hm, nofun⟩
  | some handler =>
    cases hl : m.netInfos_.lookup clientId with
    | none =>
      refine ⟨?_, by intro c hc; cases hc; exact ⟨rfl, rfl⟩⟩
      intro e he
      rcases List.mem_append.1 he with he | he
      · exact hm e he
      · rw [List.mem_singleton.1 he]; rfl
    | some info =>
      obtain ⟨l₁, l₂, hsplit, -⟩ := List.lookup_eq_some_iff.1 hl
      have hinfo : info.retCallback_ = none := hm (clientId, info) (by rw [hsplit]; simp)
      exact ⟨hm, by intro c hc; cases hc; exact ⟨hinfo, rfl⟩⟩

/-- the copy given to a handler holds no function, and it holds the packet's client id -/
theorem handlePacket_infos {m m' : HandlerManager ι ρ} {data : Bytes} {clientId : Int64}
    {call : Option (HandleCall ι ρ)} (hm : ∀ e ∈ m.netInfos_, e.2.retCallback_ = none)
    (h : m.handlePacket data clientId = .ok (m', call)) :
    (∀ e ∈ m'.netInfos_, e.2.retCallback_ = none) ∧
      ∀ c, call = some c → c.netInfo.retCallback_ = none ∧ c.netInfo.clientId_ = some clientId := by
  rw [handlePacket_eq] at h
  cases hk : stoi (packetTokens data).2.2.1 with
  | error e => rw [hk] at h; cases h
  | ok k =>
    rw [hk] at h
    have hdispatch := dispatch_infos hm ⟨(packetTokens data).1, (packetTokens data).2.1, k, (packetTokens data).2.2.2⟩
      clientId
    rwa [show m.dispatch _ clientId = (m', call) from Except.ok.inj h] at hdispatch

/-- a call without a function to call sends nothing; if it is registered, it ends with an exception -/
theorem handleCall_mute (p : Program ι ρ) {call : HandleCall ι ρ} (h : call.netInfo.retCallback_ = none) :
    (p.registered call = true ∧ ∃ e, p.handleCall call = .error e) ∨
      (p.registered call = false ∧ p.handleCall call = .ok []) := by
  unfold Program.registered Program.handleCall Program.sendAnswer
  rw [h]
  cases p.functions_ call.handler call.signature with
  | none => exact Or.inr ⟨rfl, rfl⟩
  | some fn =>
    refine Or.inl ⟨rfl, ?_⟩
    cases hfn : fn call.data with
    | error e => exact ⟨e, by simp [hfn, bind, Except.bind]⟩
    | ok answer => exact ⟨.badFunctionCall, by simp [hfn, bind, Except.bind]⟩

theorem finish_mute {p : Program ι ρ} {s : Server ι ρ} {call : HandleCall ι ρ} (hs : Mute s)
    (hcall : call.netInfo.retCallback_ = none) : Mute (s.finish p call) := by
  obtain ⟨hlive, hinfos, hcopies, hsent, hended⟩ := hs
  rcases handleCall_mute p hcall with ⟨hreg, e, he⟩ | ⟨hreg, he⟩
  · simp only [finish, hreg, he, if_true]
    exact ⟨hlive, hinfos, hcopies, hsent, fun _ => by simp⟩
  · simp only [finish, hreg, he, Bool.false_eq_true, if_false, List.append_nil]
    exact ⟨hlive, hinfos, hcopies, hsent, hended⟩

/-- a call of a registered function has run, waits or runs -/
def Owing (p : Program ι ρ) (s : Server ι ρ) : Prop :=
  s.finished ≠ [] ∨ ∃ i, ∃ call ∈ calls (s.handlers i).thread_, p.registered call = true

theorem routed_of_not_owing {p : Program ι ρ} {s : Server ι ρ} (hs : Mute s) (hp : ¬ Owing p s) : Routed p s := by
  unfold Routed
  rw [not_not.1 fun hne => hp (Or.inl hne), hs.sent]
  exact List.Perm.nil

/-- once the workers have settled, an owed call has run, and nothing was sent for it -/
theorem not_routed_of_owing {p : Program ι ρ} {s : Server ι ρ} (hs : Mute s) (hp : Owing p s) (hend : s.Settled) :
    ¬ Routed p s := by
  have hfinished : s.finished ≠ [] := by
    rcases hp with hne | ⟨i, call, hcall, -⟩
    · exact hne
    · rcases hend with hterm | hidle
      · exact hs.ended hterm
      · rw [calls_idle (hidle i)] at hcall
        cases hcall
  unfold Routed
  rw [hs.sent]
  intro hperm
  exact hfinished (List.map_eq_nil_iff.1 (List.Perm.eq_nil hperm))

theorem finish_finished (p : Program ι ρ) (s : Server ι ρ) (call : HandleCall ι ρ) :
    (s.finish p call).finished = (if p.registered call then s.finished ++ [call] else s.finished) ∧
      (s.finish p call).handlers = s.handlers := by
  unfold finish
  cases p.handleCall call with
  | ok sends => exact ⟨rfl, rfl⟩
  | error e => exact ⟨rfl, rfl⟩

/-! ## What a step does -/

variable [DecidableEq ι]

theorem setHandler_self (s : Server ι ρ) (i : ι) (t : ThreadedClass (HandleCall ι ρ)) :
    (s.setHandler i t).handlers i = t := by
  unfold setHandler
  exact Function.update_self ..

theorem setHandler_of_ne (s : Server ι ρ) {i j : ι} (t : ThreadedClass (HandleCall ι ρ)) (hj : j ≠ i) :
    (s.setHandler i t).handlers j = s.handlers j := by
  unfold setHandler
  exact Function.update_of_ne hj ..

/-- a packet is dropped or its call is posted to a handler; a worker does something of its own or finishes a call -/
inductive StepCase (p : Program ι ρ) (s s' : Server ι ρ) : ServerOp ι ρ → Prop where
  | drops (data : Bytes) (clientId : Int64) (m : HandlerManager ι ρ)
      (hm : s.manager.handlePacket data clientId = .ok (m, none)) (hs' : s' = { s with manager := m }) :
      StepCase p s s' (.packet data clientId)
  | posts (data : Bytes) (clientId : Int64) (m : HandlerManager ι ρ) (c : HandleCall ι ρ)
      (t : ThreadedClass (HandleCall ι ρ)) (hm : s.manager.handlePacket data clientId = .ok (m, some c)) (ht : Live t)
      (hcalls : calls t.thread_ = calls (s.handlers c.handler).thread_ ++ [c])
      (hs' : s' = { s with manager := m }.setHandler c.handler t) : StepCase p s s' (.packet data clientId)
  | works (i : ι) (o : WorkerOp (HandleCall ι ρ)) (t : ThreadedClass (HandleCall ι ρ)) (ht : Live t)
      (hcalls : calls t.thread_ = calls (s.handlers i).thread_) (hs' : s' = s.setHandler i t) :
      StepCase p s s' (.worker i o)
  | returns (i : ι) (t : ThreadedClass (HandleCall ι ρ)) (call : HandleCall ι ρ) (ht : Live t)
      (hcalls : calls (s.handlers i).thread_ = call :: calls t.thread_)
      (hs' : s' = (s.setHandler i t).finish p call) : StepCase p s s' (.worker i .callbackReturns)

theorem step_case {p : Program ι ρ} {s s' : Server ι ρ} {o : ServerOp ι ρ} (hl : ∀ i, Live (s.handlers i))
    (h : s.step p o = some s') : StepCase p s s' o := by
  cases o with
  | packet data clientId =>
    simp only [step] at h
    split_ifs at h
    cases hm : s.manager.handlePacket data clientId with
    | error e => rw [hm] at h; cases h
    | ok r =>
      obtain ⟨m, call⟩ := r
      rw [hm] at h
      cases call with
      | none => cases h; exact .drops data clientId m hm rfl
      | some c =>
        obtain ⟨t, ht, rfl⟩ := Option.map_eq_some_iff.1 h
        obtain ⟨htlive, htcalls⟩ := method_step (hl c.handler) ht
        exact .posts data clientId m c t hm htlive htcalls rfl
  | worker i o =>
    simp only [step] at h
    split_ifs at h
    obtain ⟨t, ht, rfl⟩ := Option.map_eq_some_iff.1 h
    obtain ⟨htlive, ⟨ho, htcalls⟩ | ⟨rfl, call, hrun, htcalls⟩⟩ := worker_step (hl i) ht
    · refine .works i o t htlive htcalls ?_
      have hf : s.finishes i o = none := by
        cases o with
        | callbackReturns => exact absurd rfl ho
        | _ => rfl
      simp only [hf]
    · refine .returns i t call htlive htcalls ?_
      have hf : s.finishes i .callbackReturns = some call := hrun
      simp only [hf]

/-- a property of every call of every handler, after one handler has changed -/
theorem setHandler_calls {s : Server ι ρ} {i : ι} {t : ThreadedClass (HandleCall ι ρ)} {P : HandleCall ι ρ → Prop}
    (hP : ∀ j, ∀ call ∈ calls (s.handlers j).thread_, P call) (ht : ∀ call ∈ calls t.thread_, P call) :
    ∀ j, ∀ call ∈ calls ((s.setHandler i t).handlers j).thread_, P call := by
  intro j
  by_cases hj : j = i
  · subst hj
    rwa [setHandler_self]
  · rw [setHandler_of_ne s t hj]
    exact hP j

/-- a call that still waits or runs after one handler has changed -/
theorem setHandler_keeps {s : Server ι ρ} {i : ι} {t : ThreadedClass (HandleCall ι ρ)} {P : HandleCall ι ρ → Prop}
    (ht : ∀ call ∈ calls (s.handlers i).thread_, P call → call ∈ calls t.thread_)
    (h : ∃ j, ∃ call ∈ calls (s.handlers j).thread_, P call) :
    ∃ j, ∃ call ∈ calls ((s.setHandler i t).handlers j).thread_, P call := by
  obtain ⟨j, call, hcall, hP⟩ := h
  refine ⟨j, call, ?_, hP⟩
  by_cases hj : j = i
  · subst hj
    rw [setHandler_self]
    exact ht call hcall hP
  · rwa [setHandler_of_ne s t hj]

theorem setHandler_mute {s : Server ι ρ} {i : ι} {t : ThreadedClass (HandleCall ι ρ)} (hs : Mute s) (ht : Live t)
    (hcalls : ∀ call ∈ calls t.thread_, call.netInfo.retCallback_ = none) : Mute (s.setHandler i t) := by
  obtain ⟨hlive, hinfos, hcopies, hsent, hended⟩ := hs
  refine ⟨?_, hinfos, setHandler_calls hcopies hcalls, hsent, hended⟩
  intro j
  by_cases hj : j = i
  · subst hj
    rwa [setHandler_self]
  · rw [setHandler_of_ne s t hj]
    exact hlive j

/-! ## What every step keeps -/

theorem step_mute {p : Program ι ρ} {s s' : Server ι ρ} {o : ServerOp ι ρ} (hs : Mute s) (h : s.step p o = some s') :
    Mute s' := by
  obtain ⟨hlive, hinfos, hcopies, hsent, hended⟩ := id hs
  cases step_case hlive h with
  | drops data clientId m hm hs' =>
    subst hs'
    exact ⟨hlive, (handlePacket_infos hinfos hm).1, hcopies, hsent, hended⟩
  | posts data clientId m c t hm ht hcalls hs' =>
    subst hs'
    obtain ⟨hinfos', hcopy⟩ := handlePacket_infos hinfos hm
    refine setHandler_mute ⟨hlive, hinfos', hcopies, hsent, hended⟩ ht ?_
    intro x hx
    rw [hcalls] at hx
    rcases List.mem_append.1 hx with hx | hx
    · exact hcopies c.handler x hx
    · rw [List.mem_singleton.1 hx]
      exact (hcopy c rfl).1
  | works i o t ht hcalls hs' =>
    subst hs'
    exact setHandler_mute hs ht fun x hx => hcopies i x (hcalls ▸ hx)
  | returns i t call ht hcalls hs' =>
    subst hs'
    have hmem : ∀ x ∈ call :: calls t.thread_, x.netInfo.retCallback_ = none := hcalls ▸ hcopies i
    refine finish_mute (setHandler_mute hs ht ?_) (hmem call List.mem_cons_self)
    intro x hx
    exact hmem x (List.mem_cons_of_mem call hx)

/-- an owed call stays owed: it waits, runs or has run -/
theorem step_owing {p : Program ι ρ} {s s' : Server ι ρ} {o : ServerOp ι ρ} (hs : Mute s) (hp : Owing p s)
    (h : s.step p o = some s') : Owing p s' := by
  cases step_case hs.live h with
  | drops _ _ _ _ hs' => subst hs'; exact hp
  | posts _ _ _ c t _ _ hcalls hs' =>
    subst hs'
    refine hp.imp_right (setHandler_keeps ?_)
    intro x hx _
    rw [hcalls]
    exact List.mem_append_left _ hx
  | works i o t _ hcalls hs' =>
    subst hs'
    exact hp.imp_right (setHandler_keeps fun x hx _ => hcalls ▸ hx)
  | returns i t call _ hcalls hs' =>
    subst hs'
    obtain ⟨hfin, hhandlers⟩ := finish_finished p (s.setHandler i t) call
    unfold Owing
    rw [hfin, hhandlers]
    by_cases hreg : p.registered call = true
    · rw [if_pos hreg]
      exact Or.inl (List.append_ne_nil_of_right_ne_nil _ (List.cons_ne_nil _ _))
    · rw [if_neg hreg]
      refine hp.imp_right (setHandler_keeps ?_)
      intro x hx hx'
      rw [hcalls] at hx
      rcases List.mem_cons.1 hx with rfl | hx
      · exact absurd hx' hreg
      · exact hx

/-- a call comes to be owed only through a packet for a registered function -/
theorem step_unanswered {p : Program ι ρ} {s s' : Server ι ρ} {o : ServerOp ι ρ} (hs : Mute s) (hp : ¬ Owing p s)
    (hu : s.Unanswered p o) (h : s.step p o = some s') : ¬ Owing p s' := by
  have hfinished : s.finished = [] := not_not.1 fun hne => hp (Or.inl hne)
  have hold : ∀ j, ∀ call ∈ calls (s.handlers j).thread_, p.registered call = false := fun j call hcall =>
    Bool.eq_false_iff.2 fun hreg => hp (Or.inr ⟨j, call, hcall, hreg⟩)
  have hclear : ∀ {u : Server ι ρ}, u.finished = [] →
      (∀ j, ∀ call ∈ calls (u.handlers j).thread_, p.registered call = false) → ¬ Owing p u := by
    rintro u hfin hnone (hne | ⟨j, x, hx, hx'⟩)
    · exact hne hfin
    · exact Bool.eq_false_iff.1 (hnone j x hx) hx'
  cases step_case hs.live h with
  | drops _ _ _ _ hs' => subst hs'; exact hp
  | posts data clientId m c t hm _ hcalls hs' =>
    subst hs'
    refine hclear hfinished (setHandler_calls hold ?_)
    intro x hx
    rw [hcalls] at hx
    rcases List.mem_append.1 hx with hx | hx
    · exact hold c.handler x hx
    · rw [List.mem_singleton.1 hx]
      exact hu c (dispatched_packet hm)
  | works i o t _ hcalls hs' =>
    subst hs'
    exact hclear hfinished (setHandler_calls hold fun x hx => hold i x (hcalls ▸ hx))
  | returns i t call _ hcalls hs' =>
    subst hs'
    have hmem : ∀ x ∈ call :: calls t.thread_, p.registered x = false := hcalls ▸ hold i
    obtain ⟨hfin, hhandlers⟩ := finish_finished p (s.setHandler i t) call
    rw [hmem call List.mem_cons_self] at hfin
    refine hclear (hfin.trans hfinished) ?_
    rw [hhandlers]
    exact setHandler_calls hold fun x hx => hmem x (List.mem_cons_of_mem call hx)

/-- a packet for a registered function makes its call owed -/
theorem step_answered {p : Program ι ρ} {s s' : Server ι ρ} {o : ServerOp ι ρ} (hs : Mute s)
    (hu : ¬ s.Unanswered p o) (h : s.step p o = some s') : Owing p s' := by
  unfold Unanswered at hu
  push Not at hu
  obtain ⟨c, hc, hreg⟩ := hu
  cases step_case hs.live h with
  | drops data clientId m hm _ =>
    rw [dispatched_packet hm] at hc
    cases hc
  | posts data clientId m c' t hm _ hcalls hs' =>
    subst hs'
    rw [dispatched_packet hm] at hc
    cases hc
    refine Or.inr ⟨c.handler, c, ?_, Bool.not_eq_false _ ▸ hreg⟩
    rw [setHandler_self, hcalls]
    exact List.mem_append_right _ (List.mem_singleton_self c)
  | works i o _ _ _ _ => cases hc
  | returns i _ _ _ _ _ => cases hc

/-! ## Main results -/

/-- **Answer routing, exactly.** The send callback is never invoked. As long as no packet for a registered function has
arrived, there is nothing to invoke it for; once the workers have settled, the answers are routed only then. -/
theorem answer_routing_exact (p : Program ι ρ) (handlers_ : List (Bytes × ι)) (ops : List (ServerOp ι ρ))
    (fin : Server ι ρ) (hr : run (step p) (new handlers_) ops = some fin) :
    fin.sent = [] ∧
      (Along (step p) (Unanswered p) (new handlers_) ops → Always (step p) (Routed p) (new handlers_) ops) ∧
        (fin.Settled → (Routed p fin ↔ Along (step p) (Unanswered p) (new handlers_) ops)) := by
  have hnew : Mute (new handlers_ : Server ι ρ) ∧ ¬ Owing p (new handlers_ : Server ι ρ) := by
    refine ⟨mute_new handlers_, ?_⟩
    rintro (hne | ⟨i, call, hcall, -⟩)
    · exact hne rfl
    · cases hcall
  have hmute : Mute fin := run_inv (fun s o s' => step_mute) (mute_new handlers_) hr
  have hstep : ∀ s o s', Mute s ∧ ¬ Owing p s → s.step p o = some s' →
      (s.Unanswered p o → Mute s' ∧ ¬ Owing p s') ∧ (¬ s.Unanswered p o → Mute s' ∧ Owing p s') := by
    intro s o s' ⟨hs, hp⟩ h
    exact ⟨fun hu => ⟨step_mute hs h, step_unanswered hs hp hu h⟩, fun hu => ⟨step_mute hs h, step_answered hs hu h⟩⟩
  refine ⟨hmute.sent, fun hG => ?_, fun hend => ⟨fun hrouted => ?_, fun hG => ?_⟩⟩
  · exact always_along (fun s hs => routed_of_not_owing hs.1 hs.2) (fun s o s' hs hu h => (hstep s o s' hs h).1 hu)
      hnew hG
  · rcases along_or_doomed hstep hnew hr with hG | ⟨a, b, u, -, -, hb, hu⟩
    · exact hG
    · have hkeep : ∀ s o s', Mute s ∧ Owing p s → s.step p o = some s' → Mute s' ∧ Owing p s' := by
        intro s o s' ⟨hs, hp⟩ h
        exact ⟨step_mute hs h, step_owing hs hp h⟩
      have hfin := run_inv hkeep hu hb
      exact absurd hrouted (not_routed_of_owing hfin.1 hfin.2 hend)
  · obtain ⟨hs, hp⟩ := run_inv_along (fun s o s' hs hu h => (hstep s o s' hs h).1 hu) hnew hG hr
    exact routed_of_not_owing hs hp

/-- one handler, whose function `s` returns its argument -/
def echo : Program Unit Empty := ⟨fun _ signature => if signature = [115] then some .ok else none, nofun⟩

/-- the packet `{"h","t",1,"d"}`, whose signature is unknown, does no harm -/
theorem unknown_signature_ignored :
    Always (step echo) (Routed echo) (new [([104], ())])
      [.packet [123, 34, 104, 34, 44, 34, 116, 34, 44, 49, 44, 34, 100, 34, 125] 3, .worker () .start, .worker () .pop,
        .worker () .dispatch, .worker () .callbackReturns] := by
  obtain ⟨fin, hfin⟩ : ∃ fin, run (step echo) (new [([104], ())])
      [.packet [123, 34, 104, 34, 44, 34, 116, 34, 44, 49, 44, 34, 100, 34, 125] 3, .worker () .start, .worker () .pop,
        .worker () .dispatch, .worker () .callbackReturns] = some fin := ⟨_, rfl⟩
  exact (answer_routing_exact echo _ _ fin hfin).2.1 (by decide)

/-- **A lost answer.** Client 3 sends `{"h","s",1,"d"}` and the function returns `d`; the answer goes nowhere, and the
program ends. -/
theorem answer_lost : ∃ fin, run (step echo) (new [([104], ())])
      [.packet [123, 34, 104, 34, 44, 34, 115, 34, 44, 49, 44, 34, 100, 34, 125] 3, .worker () .start, .worker () .pop,
        .worker () .dispatch, .worker () .callbackReturns] = some fin ∧
    fin.finished.map echo.answer = [some ([100], 3)] ∧ fin.sent = [] ∧ fin.terminated = true ∧ ¬ Routed echo fin := by
  refine ⟨_, rfl, rfl, rfl, rfl, ?_⟩
  intro hperm
  cases List.Perm.eq_nil hperm

end Server
end NetFramework
