/-
Runs of the whole server: any accepts, completions of any sessions and steps of any workers, in any order.

- `requests_delivered`: every packet that a session puts together for a registered handler becomes one call of that
  handler, with the id of that session, and the calls of a handler are begun in the order of their packets.
- `infos_kept`: `netInfos_` has one entry for each client for which a call has been dispatched, and keeps it when the
  client is gone.
- `session_alone`: a session does, and is deleted when, it would alone; no other client has a part in it.
- `nothing_answered`: no byte is ever sent to any client; the server runs until the first packet that cannot be decoded
  or the first registered function that comes to an end.
-/
import NetFramework.Library.Product
import NetFramework.NetServer

namespace NetFramework

open Transition WorkerThread IStream

variable {ι ρ : Type}

/-! ## What `HandlerManager::handlePacket` does -/

/-- there is an entry, as its constructor leaves it, for each id that has called, and one only -/
structure Noted (infos : List (Int64 × NetInfo ρ)) (calls : List (HandleCall ι ρ)) : Prop where
  nodup : (infos.map Prod.fst).Nodup
  ids : ∀ id, id ∈ infos.map Prod.fst ↔ ∃ c ∈ calls, c.netInfo.clientId_ = some id
  entries : ∀ e ∈ infos, e.2 = .new

theorem lookup_none_iff {infos : List (Int64 × NetInfo ρ)} {id : Int64} :
    infos.lookup id = none ↔ id ∉ infos.map Prod.fst := by
  rw [List.lookup_eq_none_iff, List.mem_map]
  refine ⟨?_, ?_⟩
  · rintro h ⟨e, he, rfl⟩
    simpa using h e he
  · intro h e he
    exact bne_iff_ne.2 fun heq => h ⟨e, he, heq.symm⟩

/-- `netInfos_[clientId]` for a call that is dispatched -/
theorem Noted.netInfo {m : HandlerManager ι ρ} {calls : List (HandleCall ι ρ)} (h : Noted m.netInfos_ calls)
    {c : HandleCall ι ρ} {id : Int64} (hc : c.netInfo.clientId_ = some id) :
    (m.netInfo id).1 = .new ∧ (m.netInfo id).2.handlers_ = m.handlers_ ∧
      Noted (m.netInfo id).2.netInfos_ (calls ++ [c]) := by
  have hids : ∀ id', (∃ c' ∈ calls ++ [c], c'.netInfo.clientId_ = some id') ↔ id' ∈ m.netInfos_.map Prod.fst ∨ id' = id := by
    intro id'
    rw [h.ids]
    simp only [List.mem_append, List.mem_singleton, or_and_right, exists_or, exists_eq_left, hc, Option.some.injEq]
    rw [eq_comm (a := id)]
  unfold HandlerManager.netInfo
  cases hl : m.netInfos_.lookup id with
  | some info =>
    obtain ⟨l₁, l₂, hsplit, -⟩ := List.lookup_eq_some_iff.1 hl
    have hmem : (id, info) ∈ m.netInfos_ := by rw [hsplit]; simp
    refine ⟨h.entries _ hmem, rfl, h.nodup, ?_, h.entries⟩
    intro id'
    rw [hids]
    refine ⟨Or.inl, ?_⟩
    rintro (hid | rfl)
    · exact hid
    · exact List.mem_map.2 ⟨_, hmem, rfl⟩
  | none =>
    have hfresh := lookup_none_iff.1 hl
    refine ⟨rfl, rfl, ?_, ?_, ?_⟩
    · rw [List.map_append, List.map_singleton]
      refine List.nodup_append.2 ⟨h.nodup, List.nodup_singleton _, ?_⟩
      rintro a ha b hb rfl
      obtain rfl : a = id := List.mem_singleton.1 hb
      exact hfresh ha
    · intro id'
      rw [hids, List.map_append, List.mem_append, List.map_singleton, List.mem_singleton]
    · intro e he
      rcases List.mem_append.1 he with he | he
      · exact h.entries e he
      · rw [List.mem_singleton.1 he]

/-- a packet that can be decoded asks for the call of `callOf` -/
theorem handlePacket_callOf {m m' : HandlerManager ι ρ} {calls : List (HandleCall ι ρ)} (h : Noted m.netInfos_ calls)
    {arrival : Int32 × Bytes} {call : Option (HandleCall ι ρ)}
    (hm : m.handlePacket arrival.2 arrival.1.toInt64 = .ok (m', call)) :
    ¬ Malformed arrival.2 ∧ call = callOf m.handlers_ arrival ∧ m'.handlers_ = m.handlers_ ∧
      Noted m'.netInfos_ (calls ++ call.toList) := by
  obtain ⟨pkg, hpkg, hdispatch⟩ := bind_eq_ok.1 hm
  refine ⟨?_, ?_⟩
  · rintro ⟨e, he⟩
    rw [hpkg] at he
    cases he
  simp only [callOf, hpkg]
  have hd : m.dispatch pkg arrival.1.toInt64 = (m', call) := Except.ok.inj hdispatch
  unfold HandlerManager.dispatch at hd
  cases hl : m.handlers_.lookup pkg.handlerName with
  | none =>
    rw [hl] at hd
    cases hd
    exact ⟨rfl, rfl, by simpa using h⟩
  | some handler =>
    rw [hl] at hd
    cases hd
    obtain ⟨hnew, hhandlers, hnoted⟩ := h.netInfo (c := ⟨handler, pkg.signature, pkg.data,
      { (m.netInfo arrival.1.toInt64).1 with clientId_ := some arrival.1.toInt64 }⟩) rfl
    refine ⟨?_, hhandlers, hnoted⟩
    have hret : (m.netInfo arrival.1.toInt64).1.retCallback_ = none := by rw [hnew]; rfl
    show some (HandleCall.mk handler pkg.signature pkg.data ⟨_, (m.netInfo arrival.1.toInt64).1.retCallback_⟩) = _
    rw [hret, Option.map_some]

theorem handlePacket_error {m : HandlerManager ι ρ} {data : Bytes} {clientId : Int64} {e : StdException}
    (hm : m.handlePacket data clientId = .error e) : Malformed data := by
  unfold HandlerManager.handlePacket at hm
  cases hd : RMIPacket.deserialize (good data) .new with
  | error e' => exact ⟨e', hd⟩
  | ok pkg => rw [hd] at hm; cases hm

theorem callOf_malformed {handlers_ : List (Bytes × ι)} {arrival : Int32 × Bytes} (h : Malformed arrival.2) :
    (callOf handlers_ arrival : Option (HandleCall ι ρ)) = none := by
  obtain ⟨e, he⟩ := h
  simp only [callOf, he]

namespace NetServer

variable [DecidableEq ι]

/-! ## Invariants -/

/-- the handlers have been called for the packets that have arrived; the server goes on until one that it cannot decode
or a call that ends the program -/
structure Dispatched (handlers_ : List (Bytes × ι)) (s : NetServer ι ρ) : Prop where
  mute : Server.Mute s.server
  handlers : s.server.manager.handlers_ = handlers_
  delivered : ∀ i, served (s.server.handlers i).thread_ =
    (s.arrivals.filterMap (callOf handlers_)).filter fun c => c.handler = i
  noted : Noted s.server.manager.netInfos_ (s.arrivals.filterMap (callOf handlers_))
  escaped : s.escaped = true ↔ ∃ a ∈ s.arrivals, Malformed a.2
  ended : s.server.terminated = true ↔ s.server.finished ≠ []

/-- the packets that have arrived are those that the sessions have put together, and the sessions have nothing to send -/
structure Attributed (s : NetServer ι ρ) : Prop where
  table : Tabled s.net ∧ Waiting s.net
  given : ∀ a ∈ s.arrivals, a.1 ∈ s.net.given
  handed : ∀ p o, s.net.heap p = some o → o.destroyedFnc_ = true →
    (s.arrivals.filter fun a => a.1 = o.clientId_).map Prod.snd = o.conn.handed
  silent : ∀ p o, s.net.heap p = some o → Silent o.conn
  fresh : ∀ p o, s.net.heap p = some o → o.destroyedFnc_ = false → ∃ data, o = .new data

section Steps

variable {prog : Program ι ρ} {handlers_ : List (Bytes × ι)} {s s' : NetServer ι ρ}

/-! ## What a step does -/

theorem step_running {o : NetServerOp ι ρ} (h : step prog s o = some s') :
    s.escaped = false ∧ s.server.terminated = false := by
  unfold step at h
  split_ifs at h with hstop
  rw [stopped, Bool.or_eq_true, not_or] at hstop
  exact ⟨Bool.eq_false_iff.2 hstop.1, Bool.eq_false_iff.2 hstop.2⟩

theorem step_accept {error : Bool} {next : ℕ} {data : CharArray maxLength}
    (h : step prog s (.accept error next data) = some s') :
    ∃ net, netStep s.net (.accept error next data) = some net ∧ s' = { s with net } := by
  unfold step at h
  split_ifs at h
  obtain ⟨net, hnet, rfl⟩ := Option.map_eq_some_iff.1 h
  exact ⟨net, hnet, rfl⟩

theorem step_handler {p : ℕ} {o : ConnOp} (h : step prog s (.handler p o) = some s') :
    ∃ net, netStep s.net (.handler p o) = some net ∧
      { s with net }.handlePackets prog (s.arrivalsAt p o) = some s' := by
  unfold step at h
  split_ifs at h
  exact Option.bind_eq_some_iff.1 h

/-- the worker of a server without functions to call back makes no call of the send callback -/
theorem step_worker {i : ι} {o : WorkerOp (HandleCall ι ρ)} (hm : Server.Mute s.server)
    (h : step prog s (.worker i o) = some s') :
    ∃ server, s.server.step prog (.worker i o) = some server ∧ s' = { s with server } := by
  unfold step at h
  split_ifs at h
  obtain ⟨server, hserver, h⟩ := Option.bind_eq_some_iff.1 h
  have hsends : sends s.server server = [] := by
    rw [sends, (Server.step_mute hm hserver).sent, List.drop_nil, List.map_nil]
  rw [hsends] at h
  cases h
  exact ⟨server, hserver, rfl⟩

/-- a packet is the reason for an exception, or is taken by the dispatcher -/
theorem handlePackets_one {a : Int32 × Bytes} (h : s.handlePackets prog [a] = some s') :
    s'.net = s.net ∧ s'.arrivals = s.arrivals ++ [a] ∧
      (Malformed a.2 ∧ s'.server = s.server ∧ s'.escaped = true ∨
        s.server.step prog (.packet a.2 a.1.toInt64) = some s'.server ∧ s'.escaped = s.escaped) := by
  obtain ⟨clientId, data⟩ := a
  simp only [handlePackets] at h
  cases hm : s.server.manager.handlePacket data clientId.toInt64 with
  | error e =>
    rw [hm] at h
    cases h
    exact ⟨rfl, rfl, Or.inl ⟨handlePacket_error hm, rfl, rfl⟩⟩
  | ok r =>
    rw [hm] at h
    obtain ⟨server, hserver, h⟩ := Option.bind_eq_some_iff.1 h
    cases h
    exact ⟨rfl, rfl, Or.inr ⟨hserver, rfl⟩⟩

theorem handlePackets_arrives {packets : List (Int32 × Bytes)} (hlen : packets.length ≤ 1)
    (h : s.handlePackets prog packets = some s') : s'.net = s.net ∧ s'.arrivals = s.arrivals ++ packets := by
  match packets with
  | [] => cases h; exact ⟨rfl, (List.append_nil _).symm⟩
  | [a] =>
    obtain ⟨hnet, harrivals, -⟩ := handlePackets_one h
    exact ⟨hnet, harrivals⟩
  | _ :: _ :: _ => simp at hlen

/-! ## The dispatcher -/

/-- a packet that cannot be decoded is remembered by its exception -/
theorem Dispatched.escapes (hd : Dispatched handlers_ s) {a : Int32 × Bytes} (ha : Malformed a.2)
    (harrivals : s'.arrivals = s.arrivals ++ [a]) (hserver : s'.server = s.server) (hescaped : s'.escaped = true) :
    Dispatched handlers_ s' := by
  have hcalls : s'.arrivals.filterMap (callOf handlers_ : _ → Option (HandleCall ι ρ)) =
      s.arrivals.filterMap (callOf handlers_) := by
    rw [harrivals, List.filterMap_append, List.filterMap_cons, callOf_malformed ha]
    simp
  obtain ⟨hmute, hhandlers, hdelivered, hnoted, -, hended⟩ := hd
  refine ⟨hserver ▸ hmute, hserver ▸ hhandlers, ?_, ?_, ?_, hserver ▸ hended⟩
  · rw [hcalls, hserver]; exact hdelivered
  · rw [hcalls, hserver]; exact hnoted
  · exact ⟨fun _ => ⟨a, by simp [harrivals], ha⟩, fun _ => hescaped⟩

/-- **A packet.** The call it asks for waits behind those of its handler. -/
theorem Dispatched.takes (hd : Dispatched handlers_ s) (hrun : s.escaped = false) {a : Int32 × Bytes}
    (harrivals : s'.arrivals = s.arrivals ++ [a])
    (hserver : s.server.step prog (.packet a.2 a.1.toInt64) = some s'.server) (hescaped : s'.escaped = s.escaped) :
    Dispatched handlers_ s' := by
  obtain ⟨hmute, hhandlers, hdelivered, hnoted, hmal, hended⟩ := hd
  obtain ⟨m, call, hm, hmanager, -, hfinished, hterminated, hserved⟩ := Server.step_packet hmute.live hserver
  obtain ⟨hgood, hcall, hm', hnoted'⟩ := handlePacket_callOf hnoted hm
  rw [hhandlers] at hcall hm'
  have hcalls : s'.arrivals.filterMap (callOf handlers_) = s.arrivals.filterMap (callOf handlers_) ++ call.toList := by
    rw [harrivals, List.filterMap_append, hcall]
    cases hc : (callOf handlers_ a : Option (HandleCall ι ρ)) <;> simp [hc]
  refine ⟨Server.step_mute hmute hserver, by rw [hmanager, hm'], ?_, ?_, ?_, ?_⟩
  · intro i
    rw [hserved, hdelivered, hcalls, List.filter_append]
  · rw [hmanager, hcalls]
    exact hnoted'
  · rw [hescaped, hrun, harrivals]
    simp only [Bool.false_eq_true, false_iff, List.mem_append, List.mem_singleton]
    rintro ⟨x, hx | rfl, hbad⟩
    · exact absurd (hmal.2 ⟨x, hx, hbad⟩) (by simp [hrun])
    · exact hgood hbad
  · rw [hterminated, hfinished]
    exact hended

theorem Dispatched.handlePackets (hd : Dispatched handlers_ s) (hrun : s.escaped = false)
    {packets : List (Int32 × Bytes)} (hlen : packets.length ≤ 1) (h : s.handlePackets prog packets = some s') :
    Dispatched handlers_ s' := by
  match packets with
  | [] => cases h; exact hd
  | [a] =>
    obtain ⟨-, harrivals, ⟨hbad, hserver, hescaped⟩ | ⟨hserver, hescaped⟩⟩ := handlePackets_one h
    · exact hd.escapes hbad harrivals hserver hescaped
    · exact hd.takes hrun harrivals hserver hescaped
  | _ :: _ :: _ => simp at hlen

omit [DecidableEq ι] in
theorem arrivalsAt_session {p : ℕ} {o : ConnOp} {obj : SessionObject} (hobj : s.net.heap p = some obj) :
    s.arrivalsAt p o = obj.conn.impl.arrivals o := by simp only [arrivalsAt, hobj]

theorem step_dispatched {o : NetServerOp ι ρ} (hd : Dispatched handlers_ s) (h : step prog s o = some s') :
    Dispatched handlers_ s' := by
  obtain ⟨hrun, -⟩ := step_running h
  cases o with
  | accept error next data =>
    obtain ⟨net, -, rfl⟩ := step_accept h
    exact ⟨hd.mute, hd.handlers, hd.delivered, hd.noted, hd.escaped, hd.ended⟩
  | handler p o =>
    obtain ⟨net, hnet, h⟩ := step_handler h
    obtain ⟨obj, conn, hobj, -, hconn, -, -⟩ := handler_sessions hnet
    rw [arrivalsAt_session hobj] at h
    have hd' : Dispatched handlers_ { s with net } :=
      ⟨hd.mute, hd.handlers, hd.delivered, hd.noted, hd.escaped, hd.ended⟩
    exact hd'.handlePackets hrun (connStep_arrivals hconn).2.2 h
  | worker i o =>
    obtain ⟨server, hserver, rfl⟩ := step_worker hd.mute h
    obtain ⟨hmute, hhandlers, hdelivered, hnoted, hmal, hended⟩ := hd
    obtain ⟨hmanager, hserved, hend⟩ := Server.step_worker hmute hserver
    refine ⟨Server.step_mute hmute hserver, hmanager ▸ hhandlers, ?_, hmanager ▸ hnoted, hmal, ?_⟩
    · intro j
      rw [hserved, hdelivered]
    · rcases hend with ⟨hfinished, hterminated⟩ | ⟨hfinished, hterminated⟩
      · rw [hfinished, hterminated]
        exact hended
      · exact ⟨fun _ => hfinished, fun _ => hterminated⟩

/-! ## The sessions -/

omit [DecidableEq ι] in
/-- a new session has the packets of its own id to its name: none so far -/
theorem Attributed.accept (ha : Attributed s) {error : Bool} {next : ℕ} {data : CharArray maxLength} {net : NetBase}
    (hnet : netStep s.net (.accept error next data) = some net) : Attributed { s with net } := by
  obtain ⟨htable, hgiven, hhanded, hsilent, hfresh⟩ := ha
  have htable' := netStep_tabled htable hnet
  obtain ⟨hids, -, hsessions⟩ := accept_sessions htable.2 hnet
  have hmore : ∀ id, id ∈ s.net.given → id ∈ net.given := by
    intro id hid
    rw [hids]
    exact List.mem_append_left _ hid
  refine ⟨htable', fun a hmem => hmore _ (hgiven a hmem), ?_, ?_, ?_⟩
  · intro q o hq hacc
    rcases hsessions q o hq with ⟨-, rfl⟩ | ⟨-, ⟨rfl, -⟩, d, -, rfl⟩ | ⟨-, hold⟩
    · cases hacc
    · have hunused := htable.1.unused
      have hnone : (s.arrivals.filter fun a => a.1 = s.net.clientId) = [] := by
        rw [List.filter_eq_nil_iff]
        intro a hmem heq
        exact hunused (of_decide_eq_true heq ▸ hgiven a hmem)
      exact congrArg (List.map Prod.snd) hnone
    · exact hhanded q o hold hacc
  · intro q o hq
    rcases hsessions q o hq with ⟨-, rfl⟩ | ⟨-, -, d, -, rfl⟩ | ⟨-, hold⟩
    · exact silent_new data
    · exact silent_accepted d s.net.clientId
    · exact hsilent q o hold
  · intro q o hq hnot
    rcases hsessions q o hq with ⟨-, rfl⟩ | ⟨-, -, d, -, rfl⟩ | ⟨-, hold⟩
    · exact ⟨data, rfl⟩
    · cases hnot
    · exact hfresh q o hold hnot

omit [DecidableEq ι] in
/-- a session whose handler runs has been accepted -/
theorem Attributed.accepted (ha : Attributed s) {p : ℕ} {o : ConnOp} {obj : SessionObject} {conn : Conn}
    (hobj : s.net.heap p = some obj) (ho : o.isHandler = true) (hconn : connStep obj.conn o = some conn) :
    obj.destroyedFnc_ = true := by
  by_contra hnot
  obtain ⟨data, rfl⟩ := ha.fresh p obj hobj (Bool.eq_false_iff.2 hnot)
  rw [connStep_new ho] at hconn
  cases hconn

omit [DecidableEq ι] in
/-- two accepted sessions in memory have different ids -/
theorem Attributed.ids (ha : Attributed s) {p q : ℕ} {o o' : SessionObject} (ho : s.net.heap p = some o)
    (ho' : s.net.heap q = some o') (hacc : o.destroyedFnc_ = true) (hacc' : o'.destroyedFnc_ = true) (hqp : q ≠ p) :
    o.clientId_ ≠ o'.clientId_ := by
  intro hid
  have hexact := ha.table.1.exact
  have hp := (hexact.sessions p).2 ⟨o, ho, hacc⟩
  have hq := (hexact.sessions q).2 ⟨o', ho', hacc'⟩
  exact hqp (hexact.distinct q hq p hp (by simp [NetBase.idAt, ho, ho', hid]))

omit [DecidableEq ι] in
/-- **A completion.** What the session hands on goes under its own id, which no other session has. -/
theorem Attributed.handler (ha : Attributed s) {p : ℕ} {o : ConnOp} {net : NetBase}
    (hnet : netStep s.net (.handler p o) = some net) (hs' : s'.net = net)
    (harrivals : s'.arrivals = s.arrivals ++ s.arrivalsAt p o) : Attributed s' := by
  obtain ⟨obj, conn, hobj, hhandler, hconn, hids, hsessions⟩ := handler_sessions hnet
  rw [arrivalsAt_session hobj] at harrivals
  obtain ⟨hmore, hown, -⟩ := connStep_arrivals hconn
  have hacc := ha.accepted hobj hhandler hconn
  have hid := connStep_clientId hconn
  refine ⟨hs' ▸ netStep_tabled ha.table hnet, ?_, ?_, ?_, ?_⟩
  · intro a hmem
    rw [hs', hids]
    rw [harrivals] at hmem
    rcases List.mem_append.1 hmem with hmem | hmem
    · exact ha.given a hmem
    · -- the session is in the table, so its id has been given
      rw [hown a hmem]
      have hexact := ha.table.1.exact
      exact ((hexact.live obj.clientId_).1
        ⟨p, (hexact.sessions p).2 ⟨obj, hobj, hacc⟩, by simp [NetBase.idAt, hobj]⟩).1
  · intro q o' hq hacc'
    rw [hs'] at hq
    rw [harrivals, List.filter_append, List.map_append]
    rcases hsessions q o' hq with ⟨rfl, rfl⟩ | ⟨hqp, hold⟩
    · have hall : (obj.conn.impl.arrivals o).filter (fun a => a.1 = conn.impl.clientId_) =
          obj.conn.impl.arrivals o := by
        rw [List.filter_eq_self]
        intro a hmem
        rw [hown a hmem, hid]
        exact decide_eq_true rfl
      have hsame : (s.arrivals.filter fun a => a.1 = conn.impl.clientId_).map Prod.snd = obj.conn.handed := by
        rw [hid]
        exact ha.handed q obj hobj hacc
      show List.map Prod.snd (s.arrivals.filter fun a => a.1 = conn.impl.clientId_) ++
        List.map Prod.snd ((obj.conn.impl.arrivals o).filter fun a => a.1 = conn.impl.clientId_) = conn.handed
      rw [hall, hsame, hmore]
    · have hnone : ((obj.conn.impl.arrivals o).filter fun a => a.1 = o'.clientId_) = [] := by
        rw [List.filter_eq_nil_iff]
        intro a hmem heq
        have heq' := of_decide_eq_true heq
        rw [hown a hmem] at heq'
        exact ha.ids hobj hold hacc hacc' hqp heq'
      rw [hnone, List.map_nil, List.append_nil]
      exact ha.handed q o' hold hacc'
  · intro q o' hq
    rw [hs'] at hq
    rcases hsessions q o' hq with ⟨rfl, rfl⟩ | ⟨-, hold⟩
    · exact (ha.silent q obj hobj).handler hhandler hconn
    · exact ha.silent q o' hold
  · intro q o' hq hnot
    rw [hs'] at hq
    rcases hsessions q o' hq with ⟨rfl, rfl⟩ | ⟨-, hold⟩
    · rw [hacc] at hnot
      cases hnot
    · exact ha.fresh q o' hold hnot

/-- a completion changes the sessions as it would without the handlers, and its packets arrive -/
theorem handler_arrives {p : ℕ} {o : ConnOp} (h : step prog s (.handler p o) = some s') :
    netStep s.net (.handler p o) = some s'.net ∧ s'.arrivals = s.arrivals ++ s.arrivalsAt p o := by
  obtain ⟨net, hnet, h⟩ := step_handler h
  obtain ⟨obj, conn, hobj, -, hconn, -, -⟩ := handler_sessions hnet
  have hlen : (s.arrivalsAt p o).length ≤ 1 := by
    rw [arrivalsAt_session hobj]
    exact (connStep_arrivals hconn).2.2
  obtain ⟨hs', harrivals⟩ := handlePackets_arrives hlen h
  exact ⟨hs' ▸ hnet, harrivals⟩

theorem step_attributed {o : NetServerOp ι ρ} (hd : Dispatched handlers_ s) (ha : Attributed s)
    (h : step prog s o = some s') : Attributed s' := by
  cases o with
  | accept error next data =>
    obtain ⟨net, hnet, rfl⟩ := step_accept h
    exact ha.accept hnet
  | handler p o =>
    obtain ⟨hnet, harrivals⟩ := handler_arrives h
    exact ha.handler hnet rfl harrivals
  | worker i o =>
    obtain ⟨server, -, rfl⟩ := step_worker hd.mute h
    exact ⟨ha.table, ha.given, ha.handed, ha.silent, ha.fresh⟩

end Steps

theorem dispatched_start (bases : List (Option (Bytes × ι))) (p : ℕ) (data : CharArray maxLength) :
    Dispatched (registered bases) (start bases p data : NetServer ι ρ) := by
  refine ⟨Server.mute_new _, rfl, fun _ => rfl, ⟨List.nodup_nil, ?_, ?_⟩, ?_, ?_⟩
  · intro id
    exact ⟨fun h => absurd h List.not_mem_nil, fun ⟨c, hc, _⟩ => absurd hc List.not_mem_nil⟩
  · exact fun e he => absurd he List.not_mem_nil
  · simp [start]
  · simp [start, Server.new]

omit [DecidableEq ι] in
theorem start_session {bases : List (Option (Bytes × ι))} {p : ℕ} {data : CharArray maxLength} {q : ℕ}
    {o : SessionObject} (hq : (start bases p data : NetServer ι ρ).net.heap q = some o) : o = .new data := by
  simp only [start, NetBase.start] at hq
  split_ifs at hq
  exact (Option.some.inj hq).symm

omit [DecidableEq ι] in
theorem attributed_start (bases : List (Option (Bytes × ι))) (p : ℕ) (data : CharArray maxLength) :
    Attributed (start bases p data : NetServer ι ρ) := by
  refine ⟨start_tabled p data, fun a ha => absurd ha List.not_mem_nil, ?_, ?_, ?_⟩
  · intro q o hq hacc
    rw [start_session hq] at hacc
    cases hacc
  · intro q o hq
    rw [start_session hq]
    exact silent_new data
  · intro q o hq _
    exact ⟨data, start_session hq⟩

variable {prog : Program ι ρ} {bases : List (Option (Bytes × ι))} {p : ℕ} {data : CharArray maxLength}
  {ops : List (NetServerOp ι ρ)} {s : NetServer ι ρ}

theorem run_sound (h : run (step prog) (start bases p data) ops = some s) :
    Dispatched (registered bases) s ∧ Attributed s := by
  have hstep : ∀ (s : NetServer ι ρ) o s', Dispatched (registered bases) s ∧ Attributed s →
      step prog s o = some s' → Dispatched (registered bases) s' ∧ Attributed s' :=
    fun _ _ _ hs hso => ⟨step_dispatched hs.1 hso, step_attributed hs.1 hs.2 hso⟩
  exact run_inv hstep ⟨dispatched_start bases p data, attributed_start bases p data⟩ h

omit [DecidableEq ι] in
/-- only the handler that a name means matters to a call -/
theorem callOf_registered (bases : List (Option (Bytes × ι))) (a : Int32 × Bytes) :
    (callOf (registered bases) a : Option (HandleCall ι ρ)) = callOf (bases.filterMap id) a := by
  unfold callOf
  split
  · rfl
  · rw [registered_lookup]

/-! ## Requests -/

/-- **Requests are delivered.** In every state of every run: the calls that a handler has begun and those that wait for
it are, in order, the calls that the packets so far have asked of it, as the first handler registered under their name;
and the packets of a session in the table are those it has put together, under the id that it was given. -/
theorem requests_delivered (prog : Program ι ρ) (bases : List (Option (Bytes × ι))) (p : ℕ)
    (data : CharArray maxLength) (ops : List (NetServerOp ι ρ)) (s : NetServer ι ρ)
    (h : run (step prog) (start bases p data) ops = some s) :
    (∀ i, served (s.server.handlers i).thread_ =
        (s.arrivals.filterMap (callOf (bases.filterMap id))).filter fun c => c.handler = i) ∧
      (∀ a ∈ s.arrivals, a.1 ∈ s.net.given) ∧
        ∀ q o, s.net.heap q = some o → o.destroyedFnc_ = true →
          (s.arrivals.filter fun a => a.1 = o.clientId_).map Prod.snd = o.conn.handed := by
  obtain ⟨hd, ha⟩ := run_sound h
  refine ⟨?_, ha.given, ha.handed⟩
  intro i
  rw [hd.delivered, List.filterMap_congr fun a _ => callOf_registered bases a]

/-- two clients connect; the second sends `{"h","c",1,"d"}`, and the worker of the handler `h` goes through the call -/
def exampleRun (c : UInt8) : List (NetServerOp Unit Empty) :=
  [.accept false 1 zeroData, .accept false 2 zeroData, .handler 1 (.handshakeDone false),
    .handler 1 (.readDone false
      (CoreProto.createPacket [123, 34, 104, 34, 44, 34, c, 34, 44, 49, 44, 34, 100, 34, 125]) 0),
    .worker () .start, .worker () .pop, .worker () .dispatch, .worker () .callbackReturns]

theorem exampleRun_arrivals : (run (step Server.echo) (start [some ([104], ())] 0 zeroData) (exampleRun 116)).map arrivals =
    some [((1 : Int32), [123, 34, 104, 34, 44, 34, 116, 34, 44, 49, 44, 34, 100, 34, 125])] := by
  decide +kernel

/-- a call of a function that is not registered -/
theorem requests_delivered_one :
    ∃ s, run (step Server.echo) (start [some ([104], ())] 0 zeroData) (exampleRun 116) = some s ∧
      served (s.server.handlers ()).thread_ = [⟨(), [116], [100], ⟨some 1, none⟩⟩] := by
  obtain ⟨s, hs, harrivals⟩ := Option.map_eq_some_iff.1 exampleRun_arrivals
  refine ⟨s, hs, ?_⟩
  rw [(requests_delivered Server.echo [some ([104], ())] 0 zeroData (exampleRun 116) s hs).1 (), harrivals]
  decide +kernel

/-! ## `netInfos_` -/

omit [DecidableEq ι] in
theorem callOf_id {handlers_ : List (Bytes × ι)} {a : Int32 × Bytes} {c : HandleCall ι ρ}
    (h : callOf handlers_ a = some c) : c.netInfo.clientId_ = some a.1.toInt64 := by
  unfold callOf at h
  split at h
  · cases h
  · obtain ⟨handler, -, rfl⟩ := Option.map_eq_some_iff.1 h
    rfl

theorem step_arrivals {o : NetServerOp ι ρ} {s' : NetServer ι ρ} (hd : Dispatched (registered bases) s)
    (h : step prog s o = some s') : s.arrivals <+: s'.arrivals := by
  cases o with
  | accept error next data =>
    obtain ⟨net, -, rfl⟩ := step_accept h
    exact List.prefix_rfl
  | handler p o => exact ⟨s.arrivalsAt p o, (handler_arrives h).2.symm⟩
  | worker i o =>
    obtain ⟨server, -, rfl⟩ := step_worker hd.mute h
    exact List.prefix_rfl

/-- **`netInfos_` grows.** There is an entry for a client if and only if a packet of its has asked for a call, one only,
and as its constructor leaves it. No later step takes it away, not even when the client is gone. -/
theorem infos_kept (prog : Program ι ρ) (bases : List (Option (Bytes × ι))) (p : ℕ) (data : CharArray maxLength)
    (before after : List (NetServerOp ι ρ)) (u s : NetServer ι ρ)
    (hu : run (step prog) (start bases p data) before = some u) (hs : run (step prog) u after = some s) :
    (s.server.manager.netInfos_.map Prod.fst).Nodup ∧
      (∀ clientId, clientId ∈ s.server.manager.netInfos_.map Prod.fst ↔
        ∃ a ∈ s.arrivals, (callOf (ρ := ρ) (bases.filterMap id) a).isSome = true ∧ a.1.toInt64 = clientId) ∧
      (∀ e ∈ s.server.manager.netInfos_, e.2 = .new) ∧
        u.server.manager.netInfos_.map Prod.fst ⊆ s.server.manager.netInfos_.map Prod.fst := by
  have hids : ∀ t : NetServer ι ρ, Dispatched (registered bases) t → ∀ clientId,
      clientId ∈ t.server.manager.netInfos_.map Prod.fst ↔
        ∃ a ∈ t.arrivals, (callOf (ρ := ρ) (bases.filterMap id) a).isSome = true ∧ a.1.toInt64 = clientId := by
    intro t ht clientId
    rw [ht.noted.ids]
    refine ⟨?_, ?_⟩
    · rintro ⟨c, hc, hid⟩
      obtain ⟨a, ha, hcall⟩ := List.mem_filterMap.1 hc
      rw [callOf_id hcall] at hid
      exact ⟨a, ha, by rw [← callOf_registered, hcall]; rfl, Option.some.inj hid⟩
    · rintro ⟨a, ha, hsome, hid⟩
      obtain ⟨c, hc⟩ := Option.isSome_iff_exists.1 hsome
      rw [← callOf_registered] at hc
      exact ⟨c, List.mem_filterMap.2 ⟨a, ha, hc⟩, by rw [callOf_id hc, hid]⟩
  have hd := run_sound (run_append_some hu hs)
  have hmono : u.arrivals <+: s.arrivals := by
    have hstep : ∀ (t : NetServer ι ρ) o t', (Dispatched (registered bases) t ∧ u.arrivals <+: t.arrivals) →
        step prog t o = some t' → Dispatched (registered bases) t' ∧ u.arrivals <+: t'.arrivals :=
      fun t o t' ht h => ⟨step_dispatched ht.1 h, ht.2.trans (step_arrivals ht.1 h)⟩
    exact (run_inv hstep ⟨(run_sound hu).1, List.prefix_rfl⟩ hs).2
  refine ⟨hd.1.noted.nodup, hids s hd.1, hd.1.noted.entries, ?_⟩
  intro clientId hmem
  obtain ⟨a, ha, hcall⟩ := (hids u (run_sound hu).1 clientId).1 hmem
  exact (hids s hd.1 clientId).2 ⟨a, hmono.subset ha, hcall⟩

/-- the client of the entry reads an error, and its session is deleted -/
theorem infos_kept_gone :
    ∃ u s, run (step Server.echo) (start [some ([104], ())] 0 zeroData) (exampleRun 116) = some u ∧
      run (step Server.echo) u [.handler 1 (.readDone true [] 0)] = some s ∧ s.net.gone = [1] ∧
        (1 : Int64) ∈ s.server.manager.netInfos_.map Prod.fst := by
  obtain ⟨u, hu, harrivals⟩ := Option.map_eq_some_iff.1 exampleRun_arrivals
  have hgone : ((run (step Server.echo) (start [some ([104], ())] 0 zeroData) (exampleRun 116)).bind fun u =>
      run (step Server.echo) u [.handler 1 (.readDone true [] 0)]).map (fun s => s.net.gone) = some [1] := by
    decide +kernel
  rw [hu, Option.bind_some] at hgone
  obtain ⟨s, hs, hgone⟩ := Option.map_eq_some_iff.1 hgone
  have hkept := infos_kept Server.echo [some ([104], ())] 0 zeroData (exampleRun 116) [.handler 1 (.readDone true [] 0)]
    u s hu hs
  have hnoted := infos_kept Server.echo [some ([104], ())] 0 zeroData (exampleRun 116) [] u u hu rfl
  refine ⟨u, s, hu, hs, hgone, hkept.2.2.2 ((hnoted.2.1 1).2 ⟨_, harrivals ▸ List.mem_singleton_self _, ?_⟩)⟩
  decide +kernel

/-! ## Isolation -/

/-- an accepted session is where its own operations have led it, and one that waits for a client has had none -/
structure Alone (hist : List (NetServerOp ι ρ)) (s : NetServer ι ρ) : Prop where
  accepted : ∀ q o, s.net.heap q = some o → o.destroyedFnc_ = true →
    ∃ data, run connStep (acceptedAs data o.clientId_) (ownOps q hist) = some o.conn
  waiting : ∀ q o, s.net.heap q = some o → o.destroyedFnc_ = false → ownOps q hist = []

omit [DecidableEq ι] in
theorem ownOps_concat (q : ℕ) (hist : List (NetServerOp ι ρ)) (o : NetServerOp ι ρ) :
    ownOps q (hist ++ [o]) = o.ownOps q (ownOps q hist) := by rw [ownOps, List.foldl_append]; rfl

theorem step_alone {hist : List (NetServerOp ι ρ)} {o : NetServerOp ι ρ} {s' : NetServer ι ρ}
    (hd : Dispatched (registered bases) s) (ha : Attributed s) (hs : Alone hist s) (h : step prog s o = some s') :
    Alone (hist ++ [o]) s' := by
  cases o with
  | accept error next data =>
    obtain ⟨net, hnet, rfl⟩ := step_accept h
    have hother : ∀ q, q ≠ next → ownOps q (hist ++ [.accept error next data]) = ownOps q hist := by
      intro q hq
      rw [ownOps_concat, NetServerOp.ownOps, if_neg (Ne.symm hq)]
    refine ⟨?_, ?_⟩
    · intro q o hq hacc
      rcases (accept_sessions ha.table.2 hnet).2.2 q o hq with ⟨-, rfl⟩ | ⟨hqn, -, d, hd, rfl⟩ | ⟨hqn, hold⟩
      · cases hacc
      · rw [hother q hqn, hs.waiting q _ hd rfl]
        exact ⟨d, rfl⟩
      · rw [hother q hqn]
        exact hs.accepted q o hold hacc
    · intro q o hq hnot
      rcases (accept_sessions ha.table.2 hnet).2.2 q o hq with ⟨rfl, -⟩ | ⟨-, -, d, -, rfl⟩ | ⟨hqn, hold⟩
      · rw [ownOps_concat, NetServerOp.ownOps, if_pos rfl]
      · cases hnot
      · rw [hother q hqn]
        exact hs.waiting q o hold hnot
  | handler p op =>
    obtain ⟨hnet, -⟩ := handler_arrives h
    obtain ⟨obj, conn, hobj, hhandler, hconn, -, hsessions⟩ := handler_sessions hnet
    have hacc := ha.accepted hobj hhandler hconn
    have hother : ∀ q, q ≠ p → ownOps q (hist ++ [.handler p op]) = ownOps q hist := by
      intro q hq
      rw [ownOps_concat, NetServerOp.ownOps, if_neg (Ne.symm hq)]
    refine ⟨?_, ?_⟩
    · intro q o hq hacc'
      rcases hsessions q o hq with ⟨rfl, rfl⟩ | ⟨hqp, hold⟩
      · -- the session has run one more operation
        obtain ⟨d, hrun⟩ := hs.accepted q obj hobj hacc
        have hid : ({ obj with conn } : SessionObject).clientId_ = obj.clientId_ := connStep_clientId hconn
        rw [ownOps_concat, NetServerOp.ownOps, if_pos rfl, hid]
        exact ⟨d, run_append_some hrun (run_cons_some.2 ⟨conn, hconn, rfl⟩)⟩
      · rw [hother q hqp]
        exact hs.accepted q o hold hacc'
    · intro q o hq hnot
      rcases hsessions q o hq with ⟨rfl, rfl⟩ | ⟨hqp, hold⟩
      · rw [hacc] at hnot
        cases hnot
      · rw [hother q hqp]
        exact hs.waiting q o hold hnot
  | worker i op =>
    obtain ⟨server, -, rfl⟩ := step_worker hd.mute h
    have hsame : ∀ q, ownOps q (hist ++ [.worker i op]) = ownOps q hist := fun q => ownOps_concat q hist (.worker i op)
    exact ⟨fun q o hq hacc => hsame q ▸ hs.accepted q o hq hacc, fun q o hq hnot => hsame q ▸ hs.waiting q o hq hnot⟩

omit [DecidableEq ι] in
theorem alone_start (bases : List (Option (Bytes × ι))) (p : ℕ) (data : CharArray maxLength) :
    Alone [] (start bases p data : NetServer ι ρ) := by
  refine ⟨?_, fun _ _ _ _ => rfl⟩
  intro q o hq hacc
  rw [start_session hq] at hacc
  cases hacc

theorem run_alone (h : run (step prog) (start bases p data) ops = some s) : Alone ops s := by
  have hstep : ∀ hist (s : NetServer ι ρ) o s',
      (Dispatched (registered bases) s ∧ Attributed s) ∧ Alone hist s → step prog s o = some s' →
        (Dispatched (registered bases) s' ∧ Attributed s') ∧ Alone (hist ++ [o]) s' :=
    fun hist s o s' hs hso => ⟨⟨step_dispatched hs.1.1 hso, step_attributed hs.1.1 hs.1.2 hso⟩,
      step_alone hs.1.1 hs.1.2 hs.2 hso⟩
  exact (run_inv_hist hstep
    ⟨⟨dispatched_start bases p data, attributed_start bases p data⟩, alone_start bases p data⟩ h).2

/-- what a run of the server shows of a session: its accept and its completions -/
inductive SessionItem where
  | accepted (data : CharArray maxLength) (clientId : Int32)
  | did (o : ConnOp)

/-- a single connection between these; `none` is one that has not been accepted yet -/
def sessionStep : Option Conn → SessionItem → Option (Option Conn)
  | none, .accepted data clientId => some (some (acceptedAs data clientId))
  | some c, .did o => (connStep c o).map some
  | _, _ => none

/-- what a step shows, each time behind the id of the session -/
def sessionItems (s : NetServer ι ρ) : NetServerOp ι ρ → List (Int32 × SessionItem)
  | .accept false _ _ =>
    match s.net.heap s.net.newSession with
    | some o => [(s.net.clientId, .accepted o.conn.impl.data_ s.net.clientId)]
    | none => []
  | .handler p o =>
    match s.net.heap p with
    | some obj => [(obj.clientId_, .did o)]
    | none => []
  | _ => []

/-- the accepted sessions are the connections that have been accepted, and those that have deleted themselves are gone -/
structure SessionsApart (s : NetServer ι ρ) (conns : Int32 → Option Conn) : Prop where
  waiting : ∀ id, id ∉ s.net.given → conns id = none
  begun : ∀ id ∈ s.net.given, ∃ c, conns id = some c ∧ (id ∈ s.net.gone ↔ 0 < c.deletions)
  live : ∀ q o, s.net.heap q = some o → o.destroyedFnc_ = true → conns o.clientId_ = some o.conn

omit [DecidableEq ι] in
/-- an accept that has failed is nobody's -/
theorem SessionsApart.refused {s : NetServer ι ρ} {conns : Int32 → Option Conn} (h : SessionsApart s conns)
    (ha : Attributed s) {next : ℕ} {data : CharArray maxLength} {net : NetBase}
    (hnet : netStep s.net (.accept true next data) = some net) : SessionsApart { s with net } conns := by
  obtain ⟨hgiven, hgone, hsessions⟩ := accept_sessions ha.table.2 hnet
  have hsame : net.given = s.net.given := by simpa using hgiven
  refine ⟨?_, ?_, ?_⟩
  · rw [hsame]; exact h.waiting
  · rw [hsame, hgone]; exact h.begun
  · intro q o hq hacc
    rcases hsessions q o hq with ⟨-, rfl⟩ | ⟨-, ⟨herror, -⟩, -⟩ | ⟨-, hold⟩
    · cases hacc
    · cases herror
    · exact h.live q o hold hacc

omit [DecidableEq ι] in
/-- an accept begins one connection, under an id that no session has had -/
theorem SessionsApart.accepted {s : NetServer ι ρ} {conns : Int32 → Option Conn} (h : SessionsApart s conns)
    (ha : Attributed s) {next : ℕ} {data : CharArray maxLength} {net : NetBase}
    (hnet : netStep s.net (.accept false next data) = some net) :
    ∃ conns', run (product sessionStep) conns (s.sessionItems (.accept false next data)) = some conns' ∧
      SessionsApart { s with net } conns' := by
  obtain ⟨hgiven, hgone, hsessions⟩ := accept_sessions ha.table.2 hnet
  obtain ⟨d, hd⟩ := ha.table.2
  have hunused := ha.table.1.unused
  have hstep : sessionStep (conns s.net.clientId) (.accepted d s.net.clientId) =
      some (some (acceptedAs d s.net.clientId)) := by rw [h.waiting s.net.clientId hunused]; rfl
  have hitems : s.sessionItems (.accept false next data) = [(s.net.clientId, .accepted d s.net.clientId)] := by
    simp only [sessionItems, hd]
    rfl
  refine ⟨_, by rw [hitems]; exact run_cons_some.2 ⟨_, product_some hstep, rfl⟩, ?_, ?_, ?_⟩
  · intro id hid
    simp only [hgiven, Bool.false_eq_true, if_false, List.mem_append, List.mem_singleton, not_or] at hid
    rw [Function.update_of_ne hid.2]
    exact h.waiting id hid.1
  · intro id hid
    simp only [hgiven, hgone, Bool.false_eq_true, if_false, List.mem_append, List.mem_singleton] at hid ⊢
    by_cases hnew : id = s.net.clientId
    · subst hnew
      rw [Function.update_self]
      exact ⟨_, rfl, iff_of_false (fun hmem => hunused (ha.table.1.gone_given hmem)) (lt_irrefl 0)⟩
    · rw [Function.update_of_ne hnew]
      exact h.begun id (hid.resolve_right hnew)
  · intro q o hq hacc
    rcases hsessions q o hq with ⟨-, rfl⟩ | ⟨-, ⟨-, rfl⟩, d', hd', rfl⟩ | ⟨-, hold⟩
    · cases hacc
    · obtain rfl : d = d' := congrArg (fun o : SessionObject => o.conn.impl.data_) (Option.some.inj (hd.symm.trans hd'))
      exact Function.update_self _ _ _
    · have hgivenOld : o.clientId_ ∈ s.net.given := by
        by_contra hout
        have hsome := h.live q o hold hacc
        rw [h.waiting _ hout] at hsome
        cases hsome
      rw [Function.update_of_ne (ne_of_mem_of_not_mem hgivenOld hunused)]
      exact h.live q o hold hacc

omit [DecidableEq ι] in
theorem SessionsApart.handler {s s' : NetServer ι ρ} {conns : Int32 → Option Conn} (h : SessionsApart s conns)
    (ha : Attributed s) {p : ℕ} {o : ConnOp} (hnet : netStep s.net (.handler p o) = some s'.net) :
    ∃ conns', run (product sessionStep) conns (s.sessionItems (.handler p o)) = some conns' ∧
      SessionsApart s' conns' := by
  obtain ⟨obj, conn, hobj, hhandler, hconn, hgiven, hsessions⟩ := handler_sessions hnet
  have hacc := ha.accepted hobj hhandler hconn
  have hgone := handler_gone hobj hacc hconn hnet
  have hid : conn.impl.clientId_ = obj.clientId_ := connStep_clientId hconn
  have hlive := h.live p obj hobj hacc
  have hstep : sessionStep (conns obj.clientId_) (.did o) = some (some conn) := by
    rw [hlive, sessionStep, hconn]
    rfl
  have hitems : s.sessionItems (.handler p o) = [(obj.clientId_, .did o)] := by simp only [sessionItems, hobj]
  have hexact := ha.table.1.exact
  have htable : obj.clientId_ ∈ s.net.given ∧ obj.clientId_ ∉ s.net.gone := (hexact.live obj.clientId_).1
    ⟨p, (hexact.sessions p).2 ⟨obj, hobj, hacc⟩, by simp [NetBase.idAt, hobj]⟩
  refine ⟨_, by rw [hitems]; exact run_cons_some.2 ⟨_, product_some hstep, rfl⟩, ?_, ?_, ?_⟩
  · intro id hout
    rw [hgiven] at hout
    rw [Function.update_of_ne (ne_of_mem_of_not_mem htable.1 hout).symm]
    exact h.waiting id hout
  · intro id hin
    rw [hgiven] at hin
    rw [hgone]
    by_cases hown : id = obj.clientId_
    · subst hown
      refine ⟨conn, Function.update_self _ _ _, ?_⟩
      split_ifs with hdeleted
      · simp [hdeleted]
      · exact iff_of_false htable.2 hdeleted
    · obtain ⟨c, hc, hdeleted⟩ := h.begun id hin
      refine ⟨c, by rw [Function.update_of_ne hown]; exact hc, ?_⟩
      rw [← hdeleted]
      split_ifs <;> simp [hown]
  · intro q o' hq hacc'
    rcases hsessions q o' hq with ⟨rfl, rfl⟩ | ⟨hqp, hold⟩
    · exact (congrArg _ hid).trans (Function.update_self _ _ _)
    · rw [Function.update_of_ne (ha.ids hobj hold hacc hacc' hqp).symm]
      exact h.live q o' hold hacc'

theorem step_sessionsApart {o : NetServerOp ι ρ} {s' : NetServer ι ρ} {conns : Int32 → Option Conn}
    (hd : Dispatched (registered bases) s) (ha : Attributed s) (h : SessionsApart s conns)
    (hs : step prog s o = some s') :
    ∃ conns', run (product sessionStep) conns (s.sessionItems o) = some conns' ∧ SessionsApart s' conns' := by
  cases o with
  | accept error next data =>
    obtain ⟨net, hnet, rfl⟩ := step_accept hs
    cases error with
    | true => exact ⟨conns, rfl, h.refused ha hnet⟩
    | false => exact h.accepted ha hnet
  | handler p o => exact h.handler ha (handler_arrives hs).1
  | worker i o =>
    obtain ⟨server, -, rfl⟩ := step_worker hd.mute hs
    exact ⟨conns, rfl, h.waiting, h.begun, h.live⟩

omit [DecidableEq ι] in
theorem sessionsApart_start (bases : List (Option (Bytes × ι))) (p : ℕ) (data : CharArray maxLength) :
    SessionsApart (start bases p data : NetServer ι ρ) fun _ => none := by
  refine ⟨fun _ _ => rfl, fun id hid => absurd hid List.not_mem_nil, ?_⟩
  intro q o hq hacc
  rw [start_session hq] at hacc
  cases hacc

/-- **A session is alone.** Whatever the other clients, the accepts and the workers do: for each session ever accepted,
its own accept and its own completions lead a single connection to the state that the session is in, if it is in memory,
with the packets it has put together and the bytes it has written; and the session is in memory if and only if this
connection has not deleted itself. -/
theorem session_alone (prog : Program ι ρ) (bases : List (Option (Bytes × ι))) (p : ℕ) (data : CharArray maxLength)
    (ops : List (NetServerOp ι ρ)) (s : NetServer ι ρ) (h : run (step prog) (start bases p data) ops = some s)
    (clientId : Int32) (hgiven : clientId ∈ s.net.given) :
    ∃ c, run sessionStep none (itemsOf (shown (step prog) sessionItems (start bases p data) ops) clientId) =
        some (some c) ∧
      (∀ q o, s.net.heap q = some o → o.destroyedFnc_ = true → o.clientId_ = clientId → o.conn = c) ∧
        ((∃ q o, s.net.heap q = some o ∧ o.destroyedFnc_ = true ∧ o.clientId_ = clientId) ↔ c.deletions = 0) := by
  have hstep : ∀ (s : NetServer ι ρ) o s' (conns : Int32 → Option Conn),
      (Dispatched (registered bases) s ∧ Attributed s) ∧ SessionsApart s conns → step prog s o = some s' →
        ∃ conns', run (product sessionStep) conns (s.sessionItems o) = some conns' ∧
          (Dispatched (registered bases) s' ∧ Attributed s') ∧ SessionsApart s' conns' := by
    intro s o s' conns hs hso
    obtain ⟨conns', hrun, hapart⟩ := step_sessionsApart hs.1.1 hs.1.2 hs.2 hso
    exact ⟨conns', hrun, ⟨step_dispatched hs.1.1 hso, step_attributed hs.1.1 hs.1.2 hso⟩, hapart⟩
  obtain ⟨conns, hrun, ⟨-, ha⟩, hapart⟩ := run_simulates hstep
    ⟨⟨dispatched_start bases p data, attributed_start bases p data⟩, sessionsApart_start bases p data⟩ h
  obtain ⟨c, hc, hdeleted⟩ := hapart.begun clientId hgiven
  refine ⟨c, hc ▸ run_product hrun clientId, ?_, ?_⟩
  · rintro q o hq hacc rfl
    exact Option.some.inj ((hapart.live q o hq hacc).symm.trans hc)
  · have hexact := ha.table.1.exact
    calc (∃ q o, s.net.heap q = some o ∧ o.destroyedFnc_ = true ∧ o.clientId_ = clientId)
        ↔ ∃ q ∈ s.net.sessions_, s.net.idAt q = some clientId := ?_
      _ ↔ clientId ∈ s.net.given ∧ clientId ∉ s.net.gone := hexact.live clientId
      _ ↔ ¬ 0 < c.deletions := by rw [hdeleted]; exact and_iff_right hgiven
      _ ↔ c.deletions = 0 := Nat.pos_iff_ne_zero.not_left
    refine exists_congr fun q => ?_
    rw [hexact.sessions]
    refine ⟨?_, ?_⟩
    · rintro ⟨o, ho, hacc, hid⟩
      exact ⟨⟨o, ho, hacc⟩, by simp [NetBase.idAt, ho, hid]⟩
    · rintro ⟨⟨o, ho, hacc⟩, hid⟩
      exact ⟨o, ho, hacc, by simpa [NetBase.idAt, ho] using hid⟩

/-- the second client, among the steps of the first and of a worker; then it reads an error, and its session is gone -/
theorem session_alone_second :
    ∃ s c, run (step Server.echo) (start [some ([104], ())] 0 zeroData)
        (exampleRun 116 ++ [.handler 1 (.readDone true [] 0)]) = some s ∧
      run sessionStep none (itemsOf (shown (step Server.echo) sessionItems (start [some ([104], ())] 0 zeroData)
        (exampleRun 116 ++ [.handler 1 (.readDone true [] 0)])) 1) = some (some c) ∧ c.deletions ≠ 0 := by
  have hends : (run (step Server.echo) (start [some ([104], ())] 0 zeroData)
      (exampleRun 116 ++ [.handler 1 (.readDone true [] 0)])).map (fun s => (s.net.given, s.net.gone)) =
        some ([0, 1], [1]) := by
    decide +kernel
  obtain ⟨s, hs, hends⟩ := Option.map_eq_some_iff.1 hends
  obtain ⟨hgiven, hgone⟩ := Prod.mk.inj hends
  obtain ⟨c, hc, -, hexists⟩ := session_alone Server.echo [some ([104], ())] 0 zeroData _ s hs 1 (by rw [hgiven]; decide)
  refine ⟨s, c, hs, hc, ?_⟩
  intro hdeleted
  obtain ⟨q, o, hq, hacc, hid⟩ := hexists.2 hdeleted
  have hexact := (run_sound hs).2.table.1.exact
  have hlive := (hexact.live 1).1 ⟨q, (hexact.sessions q).2 ⟨o, hq, hacc⟩, by simp [NetBase.idAt, hq, hid]⟩
  rw [hgone] at hlive
  exact hlive.2 (List.mem_singleton_self _)

/-! ## Answers -/

/-- **Nothing is answered.** In every state of every run the send callback has not been called, and no session has been
given a byte to send. The server has stopped if and only if a packet has come that cannot be decoded or the worker of a
handler has come to the end of a registered function. -/
theorem nothing_answered (prog : Program ι ρ) (bases : List (Option (Bytes × ι))) (p : ℕ) (data : CharArray maxLength)
    (ops : List (NetServerOp ι ρ)) (s : NetServer ι ρ) (h : run (step prog) (start bases p data) ops = some s) :
    s.server.sent = [] ∧ (∀ q o, s.net.heap q = some o → o.conn.sent = [] ∧ o.conn.output = []) ∧
      (s.stopped = true ↔ (∃ a ∈ s.arrivals, Malformed a.2) ∨ s.server.finished ≠ []) := by
  obtain ⟨hd, ha⟩ := run_sound h
  refine ⟨hd.mute.sent, ?_, ?_⟩
  · intro q o hq
    obtain ⟨hsent, hwritten, -, hout, -⟩ := ha.silent q o hq
    exact ⟨hsent, by rw [Conn.output, hwritten, hout]; rfl⟩
  · rw [stopped, Bool.or_eq_true, hd.escaped, hd.ended]

/-- the function `s` is registered, and comes to its end -/
theorem nothing_answered_stopped :
    ∃ s, run (step Server.echo) (start [some ([104], ())] 0 zeroData) (exampleRun 115) = some s ∧
      s.server.sent = [] ∧ s.stopped = true := by
  have hfinished : (run (step Server.echo) (start [some ([104], ())] 0 zeroData) (exampleRun 115)).map
      (fun s => s.server.finished) = some [⟨(), [115], [100], ⟨some 1, none⟩⟩] := by
    decide +kernel
  obtain ⟨s, hs, hfinished⟩ := Option.map_eq_some_iff.1 hfinished
  obtain ⟨hsent, -, hstop⟩ := nothing_answered Server.echo [some ([104], ())] 0 zeroData (exampleRun 115) s hs
  exact ⟨s, hs, hsent, hstop.2 (Or.inr (by rw [hfinished]; simp))⟩

end NetServer
end NetFramework
