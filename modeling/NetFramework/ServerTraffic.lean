/-
The bytes of each connection in `Server::poll`, whichever of its two loops runs. The connections share the loop, its
tables and, one after the other, addresses and descriptors; a connection is known by its place in the order of the
accepts.

`Peer` is a connection on its own, between what `recv` returns, what `sendData` is given and what `send` gets. A loop
shows this traffic of its connections, and each connection is where its own traffic leads such a peer.

- `connections_apart`: what the data callbacks of a connection get, and what waits in it in either direction, depends on
  its own traffic alone, and is what plain reassembly and a plain queue make of it.
- `traffic_conserved`: so no byte is lost, repeated, reordered or given to another client inside the server.
-/
import NetFramework.Library.Product
import NetFramework.ServerCallbacks
import NetFramework.PollTable

namespace NetFramework

open Lifecycle Transition

/-! ## A connection on its own -/

/-- a chunk that `recv` returns, the data of a `sendData` call, a buffer that `sendDataToSocket` gives to `send` -/
inductive Traffic where
  | received (chunk : Bytes)
  | queued (data : Bytes)
  | given (data : Bytes)
deriving DecidableEq, Repr

namespace Traffic

def received? : Traffic → Option Bytes
  | .received chunk => some chunk
  | _ => none

def queued? : Traffic → Option Bytes
  | .queued data => some data
  | _ => none

def given? : Traffic → Option Bytes
  | .given data => some data
  | _ => none

end Traffic

/-- the bytes of one kind in some traffic -/
def bytesOf (kind : Traffic → Option Bytes) (traffic : List Traffic) : Bytes := (traffic.filterMap kind).flatten

/-- `waiting` is what has been queued since a buffer was last given to `send` -/
structure Peer where
  input : Reassembly
  waiting : Bytes

def Peer.new : Peer := ⟨⟨[], []⟩, []⟩

/-- `complete` says of a buffer whether it is complete -/
def peerStep (complete : Bytes → Bool) (peer : Peer) : Traffic → Option Peer
  | .received chunk => (plainStep complete peer.input chunk).map fun input => { peer with input }
  | .queued data => some { peer with waiting := peer.waiting ++ data }
  | .given data => if data = peer.waiting then some { peer with waiting := [] } else none

/-- the bytes that have come in are delivered or wait; the bytes queued have been given to `send` or wait -/
structure Peer.Conserves (complete : Bytes → Bool) (traffic : List Traffic) (peer : Peer) : Prop where
  input : peer.input.delivered.flatten ++ peer.input.buffer = bytesOf Traffic.received? traffic
  cut : (∀ buf ∈ peer.input.delivered, complete buf = true) ∧ (peer.input.buffer = [] ∨ complete peer.input.buffer = false)
  output : bytesOf Traffic.given? traffic ++ peer.waiting = bytesOf Traffic.queued? traffic

theorem bytesOf_concat (kind : Traffic → Option Bytes) (traffic : List Traffic) (item : Traffic) :
    bytesOf kind (traffic ++ [item]) = bytesOf kind traffic ++ (kind item).getD [] := by
  rw [bytesOf, bytesOf, List.filterMap_append, List.flatten_append]
  cases h : kind item <;> simp [h]

theorem peerStep_conserves {complete : Bytes → Bool} {hist : List Traffic} {peer peer' : Peer} {item : Traffic}
    (h : peer.Conserves complete hist) (hs : peerStep complete peer item = some peer') :
    peer'.Conserves complete (hist ++ [item]) := by
  obtain ⟨hin, hcut, hout⟩ := h
  cases item with
  | received chunk =>
    obtain ⟨input, hinput, rfl⟩ := Option.map_eq_some_iff.1 hs
    have hsound : peer.input.Sound complete [bytesOf Traffic.received? hist] := ⟨by simpa using hin, hcut.1, hcut.2⟩
    obtain ⟨hconserved, hcomplete, hwaiting⟩ := plainStep_sound hsound hinput
    refine ⟨?_, ⟨hcomplete, hwaiting⟩, ?_⟩
    · rw [bytesOf_concat]
      simpa [Traffic.received?] using hconserved
    · simpa [bytesOf_concat, Traffic.given?, Traffic.queued?] using hout
  | queued data =>
    cases hs
    refine ⟨by simpa [bytesOf_concat, Traffic.received?] using hin, hcut, ?_⟩
    simp [bytesOf_concat, Traffic.given?, Traffic.queued?, ← hout]
  | given data =>
    simp only [peerStep] at hs
    split_ifs at hs with hdata
    cases hs
    refine ⟨by simpa [bytesOf_concat, Traffic.received?] using hin, hcut, ?_⟩
    simp [bytesOf_concat, Traffic.given?, Traffic.queued?, ← hout, hdata]

theorem peer_conserves {complete : Bytes → Bool} {traffic : List Traffic} {peer : Peer}
    (h : run (peerStep complete) .new traffic = some peer) : peer.Conserves complete traffic := by
  have hnew : Peer.Conserves complete [] .new := ⟨rfl, ⟨by simp [Peer.new], Or.inl rfl⟩, rfl⟩
  have hstep : ∀ hist (peer : Peer) item peer', peer.Conserves complete hist → peerStep complete peer item = some peer' →
      peer'.Conserves complete (hist ++ [item]) := fun _ _ _ _ hp hs => peerStep_conserves hp hs
  exact run_inv_hist hstep hnew h

/-! ## The connections of a server -/

/-- the buffers given to the data callback for a connection -/
def buffersOf (callbacks : List Callback) (n : ℕ) : List Bytes :=
  (eventsOf callbacks (some n)).filterMap fun
    | .used buf => some buf
    | _ => none

theorem buffersOf_connected (callbacks : List Callback) (conn : Option ℕ) (n : ℕ) :
    buffersOf (callbacks ++ [connectedCallback conn]) n = buffersOf callbacks n := by
  rw [buffersOf, eventsOf_append, List.filterMap_append, ← buffersOf]
  by_cases h : conn = some n <;> simp [connectedCallback, eventsOf, h]

theorem buffersOf_disconnected (callbacks : List Callback) (conn : Option ℕ) (n : ℕ) :
    buffersOf (callbacks ++ [disconnectedCallback conn]) n = buffersOf callbacks n := by
  rw [buffersOf, eventsOf_append, List.filterMap_append, ← buffersOf]
  by_cases h : conn = some n <;> simp [disconnectedCallback, eventsOf, h]

theorem buffersOf_data (callbacks : List Callback) (m : ℕ) (bufs : List Bytes) (n : ℕ) :
    buffersOf (callbacks ++ dataCallbacks (some m) bufs) n = buffersOf callbacks n ++ if n = m then bufs else [] := by
  rw [buffersOf, eventsOf_append, List.filterMap_append, ← buffersOf]
  congr 1
  have hevents : dataCallbacks (some m) bufs = (bufs.map Event.used).map fun e => (some m, e) := by
    simp [dataCallbacks, Function.comp_def]
  rw [hevents]
  split_ifs with h
  · rw [h, eventsOf_same, List.filterMap_map]
    simp
  · rw [eventsOf_other (by simpa using Ne.symm h), List.filterMap_nil]

/-- the connections in memory, and the callbacks, are those of `peers`, one for each place in the order of the accepts -/
structure Mirrors (heap : ℕ → Option ConnObject) (callbacks : List Callback) (accepted : ℕ) (peers : ℕ → Peer) :
    Prop where
  serial_lt : ∀ p o, heap p = some o → o.serial < accepted
  distinct : ∀ p q o o', heap p = some o → heap q = some o' → o.serial = o'.serial → p = q
  fresh : ∀ n, accepted ≤ n → peers n = .new
  told : ∀ n, (peers n).input.delivered = buffersOf callbacks n
  live : ∀ p o, heap p = some o →
    (peers o.serial).input.buffer = o.conn.receivedData ∧ (peers o.serial).waiting = o.conn.dataToSend

/-- each connection is where its own part of the traffic leads a peer -/
def TrafficApart (complete : Bytes → Bool) (log : List (ℕ × Traffic)) (heap : ℕ → Option ConnObject)
    (callbacks : List Callback) : Prop :=
  ∀ n, ∃ peer, run (peerStep complete) .new (itemsOf log n) = some peer ∧ peer.input.delivered = buffersOf callbacks n ∧
    ∀ p o, heap p = some o → o.serial = n →
      peer.input.buffer = o.conn.receivedData ∧ peer.waiting = o.conn.dataToSend

section Mirrors

variable {heap heap' : ℕ → Option ConnObject} {callbacks callbacks' : List Callback} {accepted : ℕ} {peers : ℕ → Peer}

theorem mirrors_start : Mirrors (fun _ => none) [] 0 fun _ => .new where
  serial_lt p o h := by cases h
  distinct p q o o' h := by cases h
  fresh n _ := rfl
  told n := rfl
  live p o h := by cases h

theorem Mirrors.apart {complete : Bytes → Bool} {log : List (ℕ × Traffic)} (h : Mirrors heap callbacks accepted peers)
    (hr : run (product (peerStep complete)) (fun _ => .new) log = some peers) : TrafficApart complete log heap callbacks := by
  intro n
  refine ⟨peers n, run_product hr n, h.told n, ?_⟩
  rintro p o ho rfl
  exact h.live p o ho

/-- connections may go, and callbacks without data may be made -/
theorem Mirrors.frame (h : Mirrors heap callbacks accepted peers) (hheap : ∀ p o, heap' p = some o → heap p = some o)
    (htold : ∀ n, buffersOf callbacks' n = buffersOf callbacks n) : Mirrors heap' callbacks' accepted peers where
  serial_lt p o ho := h.serial_lt p o (hheap p o ho)
  distinct p q o o' ho ho' := h.distinct p q o o' (hheap p o ho) (hheap q o' ho')
  fresh := h.fresh
  told n := (h.told n).trans (htold n).symm
  live p o ho := h.live p o (hheap p o ho)

theorem Mirrors.delete (h : Mirrors heap callbacks accepted peers) (p : ℕ) :
    Mirrors (Function.update heap p none) callbacks accepted peers := by
  refine h.frame ?_ fun _ => rfl
  intro q o ho
  rw [Function.update_apply] at ho
  split_ifs at ho
  exact ho

theorem Mirrors.accept (h : Mirrors heap callbacks accepted peers) {p : ℕ} (fd : ℕ) :
    Mirrors (Function.update heap p (some ⟨.new fd, accepted⟩)) (callbacks ++ [connectedCallback (some accepted)])
      (accepted + 1) peers := by
  have hcases : ∀ q o, Function.update heap p (some ⟨.new fd, accepted⟩) q = some o →
      (q = p ∧ o = ⟨.new fd, accepted⟩) ∨ heap q = some o := by
    intro q o ho
    rw [Function.update_apply] at ho
    split_ifs at ho with hqp
    · exact Or.inl ⟨hqp, (Option.some.inj ho).symm⟩
    · exact Or.inr ho
  refine ⟨?_, ?_, ?_, ?_, ?_⟩
  · intro q o ho
    rcases hcases q o ho with ⟨-, rfl⟩ | hold
    · exact Nat.lt_succ_self accepted
    · exact (h.serial_lt q o hold).trans (Nat.lt_succ_self accepted)
  · intro q q' o o' ho ho' hserial
    rcases hcases q o ho with ⟨rfl, rfl⟩ | hold <;> rcases hcases q' o' ho' with ⟨rfl, rfl⟩ | hold'
    · rfl
    · exact absurd (h.serial_lt q' o' hold') (by rw [← hserial]; simp)
    · exact absurd (h.serial_lt q o hold) (by rw [hserial]; simp)
    · exact h.distinct q q' o o' hold hold' hserial
  · intro n hn
    exact h.fresh n (by omega)
  · intro n
    rw [buffersOf_connected]
    exact h.told n
  · intro q o ho
    rcases hcases q o ho with ⟨-, rfl⟩ | hold
    · rw [h.fresh accepted le_rfl]
      exact ⟨rfl, rfl⟩
    · exact h.live q o hold

/-- one connection moves, and its peer with it -/
theorem Mirrors.moves (h : Mirrors heap callbacks accepted peers) {p : ℕ} {o : ConnObject} (ho : heap p = some o)
    {conn : ClientConnection} {peer : Peer}
    (hlive : peer.input.buffer = conn.receivedData ∧ peer.waiting = conn.dataToSend)
    (htold : ∀ n, (Function.update peers o.serial peer n).input.delivered = buffersOf callbacks' n) :
    Mirrors (Function.update heap p (some { o with conn })) callbacks' accepted
      (Function.update peers o.serial peer) := by
  have hcases : ∀ q o', Function.update heap p (some { o with conn }) q = some o' →
      (q = p ∧ o' = { o with conn }) ∨ (q ≠ p ∧ heap q = some o') := by
    intro q o' ho'
    rw [Function.update_apply] at ho'
    split_ifs at ho' with hqp
    · exact Or.inl ⟨hqp, (Option.some.inj ho').symm⟩
    · exact Or.inr ⟨hqp, ho'⟩
  -- the connection before the step, at the same place in the order
  have hbefore : ∀ q o', Function.update heap p (some { o with conn }) q = some o' →
      ∃ o'', heap q = some o'' ∧ o''.serial = o'.serial := by
    intro q o' ho'
    rcases hcases q o' ho' with ⟨rfl, rfl⟩ | ⟨-, hold⟩
    · exact ⟨o, ho, rfl⟩
    · exact ⟨o', hold, rfl⟩
  refine ⟨?_, ?_, ?_, htold, ?_⟩
  · intro q o' ho'
    obtain ⟨o'', hold, hserial⟩ := hbefore q o' ho'
    exact hserial ▸ h.serial_lt q o'' hold
  · intro q q' o₁ o₂ h₁ h₂ hserial
    obtain ⟨o₁', hold₁, hserial₁⟩ := hbefore q o₁ h₁
    obtain ⟨o₂', hold₂, hserial₂⟩ := hbefore q' o₂ h₂
    exact h.distinct q q' o₁' o₂' hold₁ hold₂ (by rw [hserial₁, hserial₂, hserial])
  · intro n hn
    have hlt := h.serial_lt p o ho
    rw [Function.update_of_ne (by omega)]
    exact h.fresh n hn
  · intro q o' ho'
    rcases hcases q o' ho' with ⟨-, rfl⟩ | ⟨hqp, hold⟩
    · rw [Function.update_self]
      exact hlive
    · have hne : o'.serial ≠ o.serial := fun heq => hqp (h.distinct q p o' o hold ho heq)
      rw [Function.update_of_ne hne]
      exact h.live q o' hold

/-- the peers take the traffic of a step, and mirror what it leaves -/
def Answered (complete : Bytes → Bool) (peers : ℕ → Peer) (log : List (ℕ × Traffic)) (heap : ℕ → Option ConnObject)
    (callbacks : List Callback) (accepted : ℕ) : Prop :=
  ∃ peers', run (product (peerStep complete)) peers log = some peers' ∧ Mirrors heap callbacks accepted peers'

variable {complete : Bytes → Bool} {p : ℕ} {o : ConnObject}

theorem Mirrors.silent (h : Mirrors heap callbacks accepted peers) :
    Answered complete peers [] heap callbacks accepted := ⟨peers, rfl, h⟩

theorem run_one {peer : Peer} {item : Traffic} (h : peerStep complete (peers o.serial) item = some peer) :
    run (product (peerStep complete)) peers [(o.serial, item)] = some (Function.update peers o.serial peer) :=
  run_cons_some.2 ⟨_, product_some h, rfl⟩

/-- output leaves the callbacks as they are -/
theorem Mirrors.told_same (h : Mirrors heap callbacks accepted peers) {peer : Peer}
    (hsame : peer.input = (peers o.serial).input) (n : ℕ) :
    (Function.update peers o.serial peer n).input.delivered = buffersOf callbacks n := by
  rw [Function.update_apply]
  split_ifs with hn
  · rw [hsame, hn]
    exact h.told o.serial
  · exact h.told n

theorem Mirrors.queues (h : Mirrors heap callbacks accepted peers) (ho : heap p = some o) (data : Bytes) :
    Answered complete peers [(o.serial, .queued data)]
      (Function.update heap p (some { o with conn := o.conn.sendData data })) callbacks accepted := by
  obtain ⟨hbuffer, hwaiting⟩ := h.live p o ho
  refine ⟨_, run_one rfl, h.moves ho ⟨hbuffer, ?_⟩ (h.told_same rfl)⟩
  rw [hwaiting]
  rfl

theorem Mirrors.gives (h : Mirrors heap callbacks accepted peers) (ho : heap p = some o) :
    Answered complete peers [(o.serial, .given o.conn.swapDataToSend.2)]
      (Function.update heap p (some { o with conn := o.conn.swapDataToSend.1 })) callbacks accepted := by
  obtain ⟨hbuffer, hwaiting⟩ := h.live p o ho
  exact ⟨_, run_one (if_pos hwaiting.symm), h.moves ho ⟨hbuffer, rfl⟩ (h.told_same rfl)⟩

/-- `receiveDataFromSocket` for a chunk is a step of plain reassembly -/
theorem receive_plain (complete : Bytes → Bool) {chunk : Bytes} (hchunk : chunk ≠ []) (conn : ClientConnection)
    (delivered : List Bytes) : ∃ receivedData bufs, conn.receiveDataFromSocket complete (.bytes chunk) =
        some ({ conn with receivedData }, bufs, true) ∧
      plainStep complete ⟨conn.receivedData, delivered⟩ chunk = some ⟨receivedData, delivered ++ bufs⟩ := by
  simp only [ClientConnection.receiveDataFromSocket, if_neg hchunk]
  split_ifs with hdirect hcomplete
  · refine ⟨conn.receivedData, [chunk], rfl, ?_⟩
    obtain ⟨hempty, hcomplete⟩ := hdirect
    rw [plainStep_complete (by rwa [hempty, List.nil_append]), hempty, List.nil_append]
  · exact ⟨[], [conn.receivedData ++ chunk], rfl, plainStep_complete hcomplete⟩
  · refine ⟨conn.receivedData ++ chunk, [], rfl, ?_⟩
    rw [plainStep_waiting hcomplete, List.append_nil]

theorem Mirrors.receives (h : Mirrors heap callbacks accepted peers) (ho : heap p = some o) {chunk receivedData : Bytes}
    {bufs : List Bytes}
    (hplain : plainStep complete ⟨o.conn.receivedData, buffersOf callbacks o.serial⟩ chunk =
      some ⟨receivedData, buffersOf callbacks o.serial ++ bufs⟩) :
    Answered complete peers [(o.serial, .received chunk)]
      (Function.update heap p (some { o with conn := { o.conn with receivedData } }))
      (callbacks ++ dataCallbacks (some o.serial) bufs) accepted := by
  obtain ⟨hbuffer, hwaiting⟩ := h.live p o ho
  have hinput : (peers o.serial).input = ⟨o.conn.receivedData, buffersOf callbacks o.serial⟩ := by
    rw [← hbuffer, ← h.told]
  have hpeer : peerStep complete (peers o.serial) (.received chunk) =
      some ⟨⟨receivedData, buffersOf callbacks o.serial ++ bufs⟩, (peers o.serial).waiting⟩ := by
    simp only [peerStep, hinput, hplain, Option.map_some]
  refine ⟨_, run_one hpeer, h.moves ho ⟨rfl, hwaiting⟩ ?_⟩
  intro n
  rw [buffersOf_data, Function.update_apply]
  split_ifs with hn
  · rw [hn]
  · rw [List.append_nil]
    exact h.told n

end Mirrors

/-! ## The loop around `select` -/

namespace SelectServer

/-- the traffic of a step: the connection it is about, and what passes -/
def traffic (s : SelectServer) : Op → List (ℕ × Traffic)
  | .append p data => (s.heap p).toList.map fun o => (o.serial, .queued data)
  | .recv (.bytes chunk) =>
    match s.pc with
    | .service i => if chunk = [] then [] else (s.listed i).toList.map fun n => (n, .received chunk)
    | _ => []
  | .write =>
    match s.pc with
    | .write i _ =>
      if i ∈ s.writeFdSet then
        ((s.conn i).bind s.heap).toList.map fun o => (o.serial, .given o.conn.swapDataToSend.2)
      else []
    | _ => []
  | _ => []

section Steps

variable {cfg : ServerConfig} {s s' : SelectServer} {peers : ℕ → Peer}

theorem recv_answered {result : RecvResult} (h : Mirrors s.heap s.callbacks s.accepted peers)
    (hs : step cfg s (.recv result) = some s') :
    Answered cfg.dataCompleteCallback peers (s.traffic (.recv result)) s'.heap s'.callbacks s'.accepted := by
  obtain ⟨i, p, o, hpc, -, hp, ho, rfl⟩ := step_recv hs
  match result with
  | .error => exact h.silent
  | .bytes chunk =>
    simp only [traffic, hpc]
    by_cases hchunk : chunk = []
    · rw [if_pos hchunk, hchunk]
      exact (h.frame (fun _ _ ho => ho) (buffersOf_disconnected s.callbacks (some o.serial))).silent
    · have hlisted : s.listed i = some o.serial := serialAt_of_conn hp ho
      obtain ⟨receivedData, bufs, hreceive, hplain⟩ := receive_plain cfg.dataCompleteCallback hchunk o.conn
        (buffersOf s.callbacks o.serial)
      simp only [receive, hreceive, if_neg hchunk, hlisted, Option.toList_some, List.map_singleton]
      exact h.receives ho hplain

/-- **Traffic of a step.** -/
theorem step_answered {o : Op} (h : Mirrors s.heap s.callbacks s.accepted peers) (hs : step cfg s o = some s') :
    Answered cfg.dataCompleteCallback peers (s.traffic o) s'.heap s'.callbacks s'.accepted := by
  cases o with
  | append p data =>
    obtain ⟨o, ho, rfl⟩ := step_append hs
    simp only [traffic, ho, Option.toList_some, List.map_singleton]
    exact h.queues ho data
  | enter p =>
    obtain ⟨-, rfl⟩ := step_enter hs
    exact h.silent
  | swap =>
    obtain ⟨-, rfl⟩ := step_swap hs
    exact h.silent
  | select ready =>
    obtain ⟨-, rfl | ⟨readable, writable, -, -, -, rfl⟩⟩ := step_select hs <;> exact h.silent
  | accept newConn p =>
    obtain ⟨i, -, rfl | ⟨fd, -, -, -, rfl⟩⟩ := step_accept hs
    · exact h.silent
    · exact (h.accept fd).silent
  | recv result => exact recv_answered h hs
  | pass =>
    obtain ⟨i, -, ⟨-, rfl⟩ | rfl | rfl⟩ := step_pass hs <;> exact h.silent
  | callbackDone =>
    obtain ⟨i, p, -, -, rfl⟩ := step_callbackDone hs
    exact (h.delete p).silent
  | write =>
    obtain ⟨i, deleteSocket, hpc, ⟨hi, rfl⟩ | ⟨hnone, rfl⟩ | ⟨p, o, hp, ho, rfl⟩⟩ := step_write hs
    · simp only [traffic, hpc, if_neg hi]
      exact h.silent
    · simp only [traffic, hpc, hnone, Option.bind_none, Option.toList_none, List.map_nil, ite_self]
      exact h.silent
    · have hi : i ∈ s.writeFdSet := by
        by_contra hi
        simp [step, hpc, hi, next] at hs
      simp only [traffic, hpc, if_pos hi, hp, ho, Option.bind_some, Option.toList_some, List.map_singleton]
      exact h.gives ho
  | sent sent =>
    obtain ⟨i, data, deleteSocket, -, rfl⟩ := step_sent hs
    exact h.silent

end Steps

end SelectServer

/-! ## The loop around `WSAPoll` -/

namespace PollServer

/-- the traffic of a step: the connection it is about, and what passes -/
def traffic (s : PollServer) : Op → List (ℕ × Traffic)
  | .append p data => (s.heap p).toList.map fun o => (o.serial, .queued data)
  | .recv (.bytes chunk) =>
    match s.pc with
    | .service i =>
      if chunk = [] then []
      else (s.pollfds[i]?.bind fun f => s.listed f.fd).toList.map fun n => (n, .received chunk)
    | _ => []
  | .write =>
    match s.pc with
    | .writing (fd :: _) => ((s.conn fd).bind s.heap).toList.map fun o => (o.serial, .given o.conn.swapDataToSend.2)
    | _ => []
  | _ => []

section Steps

variable {complete : Bytes → Bool} {s s' : PollServer} {peers : ℕ → Peer}

/-- `recv` is called for the connection of `pollfds[i]` -/
theorem recv_entry {result : RecvResult} (h : step complete s (.recv result) = some s') :
    ∃ i f p o, s.pc = .service i ∧ s.pollfds[i]? = some f ∧ s.conn f.fd = some p ∧ s.heap p = some o ∧
      s' = s.receive complete i p o result := by
  simp only [step] at h
  split at h
  · rename_i i hpc
    split at h
    · cases h
    · rename_i f hf
      split_ifs at h
      split at h
      · cases h
      · rename_i p hp
        split at h
        · cases h
        · rename_i o ho
          exact ⟨i, f, p, o, hpc, hf, hp, ho, (Option.some.inj h).symm⟩
  · cases h

theorem recv_answered {result : RecvResult} (h : Mirrors s.heap s.callbacks s.accepted peers)
    (hs : step complete s (.recv result) = some s') :
    Answered complete peers (s.traffic (.recv result)) s'.heap s'.callbacks s'.accepted := by
  obtain ⟨i, f, p, o, hpc, hf, hp, ho, rfl⟩ := recv_entry hs
  match result with
  | .error => exact h.silent
  | .bytes chunk =>
    simp only [traffic, hpc]
    by_cases hchunk : chunk = []
    · rw [if_pos hchunk, hchunk]
      exact h.silent
    · have hlisted : s.listed f.fd = some o.serial := serialAt_of_conn hp ho
      obtain ⟨receivedData, bufs, hreceive, hplain⟩ := receive_plain complete hchunk o.conn
        (buffersOf s.callbacks o.serial)
      simp only [receive, hreceive, if_neg hchunk, hf, Option.bind_some, hlisted, Option.toList_some,
        List.map_singleton]
      exact h.receives ho hplain

/-- **Traffic of a step.** -/
theorem step_answered {o : Op} (h : Mirrors s.heap s.callbacks s.accepted peers) (hs : step complete s o = some s') :
    Answered complete peers (s.traffic o) s'.heap s'.callbacks s'.accepted := by
  cases o with
  | append p data =>
    obtain ⟨o, ho, rfl⟩ := step_append hs
    simp only [traffic, ho, Option.toList_some, List.map_singleton]
    exact h.queues ho data
  | enter p =>
    obtain rfl := step_enter hs
    exact h.silent
  | poll revents =>
    obtain ⟨-, rfl | ⟨pollfds, rfl⟩⟩ := step_poll hs <;> exact h.silent
  | incoming asock p revents =>
    obtain ⟨-, rfl | rfl | ⟨fd, -, rfl⟩⟩ := step_incoming hs
    · exact h.silent
    · exact h.silent
    · exact (h.accept fd).silent
  | recv result => exact recv_answered h hs
  | hangUp =>
    obtain ⟨i, f, -, -, ⟨-, rfl⟩ | ⟨p, o, -, -, rfl⟩⟩ := step_hangUp hs
    · exact (h.frame (fun _ _ ho => ho) (buffersOf_disconnected s.callbacks none)).silent
    · exact (h.frame (fun _ _ ho => ho) (buffersOf_disconnected s.callbacks (some o.serial))).silent
  | callbackDone =>
    obtain ⟨i, rfl | ⟨p, -, rfl⟩⟩ := step_callbackDone hs
    · exact h.silent
    · exact (h.delete p).silent
  | pass =>
    obtain ⟨pc, -, -, rfl | ⟨fd, rfl⟩⟩ := step_pass hs <;> exact h.silent
  | flush ready =>
    obtain ⟨pc, -, -, rfl⟩ := step_flush hs
    exact h.silent
  | write =>
    obtain ⟨fd, fds, hpc, ⟨hnone, rfl⟩ | ⟨p, o, hp, ho, rfl⟩⟩ := write_next hs
    · simp only [traffic, hpc, hnone, Option.bind_none, Option.toList_none, List.map_nil]
      exact h.silent
    · simp only [traffic, hpc, hp, ho, Option.bind_some, Option.toList_some, List.map_singleton]
      exact h.gives ho

end Steps

end PollServer

/-! ## Runs -/

/-- every byte of each connection is where it should be: those that have come in have been given to its data callback, in
complete buffers, or wait to be completed; those that it was given to send have been given to `send` or wait -/
structure TrafficConserved (complete : Bytes → Bool) (log : List (ℕ × Traffic)) (heap : ℕ → Option ConnObject)
    (callbacks : List Callback) : Prop where
  complete : ∀ n, ∀ buf ∈ buffersOf callbacks n, complete buf = true
  delivered : ∀ n, (buffersOf callbacks n).flatten <+: bytesOf Traffic.received? (itemsOf log n)
  given : ∀ n, bytesOf Traffic.given? (itemsOf log n) <+: bytesOf Traffic.queued? (itemsOf log n)
  input : ∀ p o, heap p = some o →
    (buffersOf callbacks o.serial).flatten ++ o.conn.receivedData = bytesOf Traffic.received? (itemsOf log o.serial)
  output : ∀ p o, heap p = some o →
    bytesOf Traffic.given? (itemsOf log o.serial) ++ o.conn.dataToSend = bytesOf Traffic.queued? (itemsOf log o.serial)

theorem TrafficApart.conserved {complete : Bytes → Bool} {log : List (ℕ × Traffic)} {heap : ℕ → Option ConnObject}
    {callbacks : List Callback} (h : TrafficApart complete log heap callbacks) :
    TrafficConserved complete log heap callbacks := by
  refine ⟨?_, ?_, ?_, ?_, ?_⟩
  · intro n buf hbuf
    obtain ⟨peer, hrun, htold, -⟩ := h n
    exact (peer_conserves hrun).cut.1 buf (htold ▸ hbuf)
  · intro n
    obtain ⟨peer, hrun, htold, -⟩ := h n
    exact ⟨peer.input.buffer, htold ▸ (peer_conserves hrun).input⟩
  · intro n
    obtain ⟨peer, hrun, -⟩ := h n
    exact ⟨peer.waiting, (peer_conserves hrun).output⟩
  · intro p o ho
    obtain ⟨peer, hrun, htold, hlive⟩ := h o.serial
    rw [← htold, ← (hlive p o ho rfl).1]
    exact (peer_conserves hrun).input
  · intro p o ho
    obtain ⟨peer, hrun, -, hlive⟩ := h o.serial
    rw [← (hlive p o ho rfl).2]
    exact (peer_conserves hrun).output

section Runs

variable {cfg : ServerConfig} {ops : List SelectServer.Op} {fin : SelectServer} {complete : Bytes → Bool}
  {listenSocket : ℕ} {pollOps : List PollServer.Op} {pollFin : PollServer}

theorem select_apart (h : run (SelectServer.step cfg) (.start cfg) ops = some fin) :
    TrafficApart cfg.dataCompleteCallback (shown (SelectServer.step cfg) SelectServer.traffic (.start cfg) ops) fin.heap
      fin.callbacks := by
  obtain ⟨peers, hpeers, hmirrors⟩ := run_simulates
    (R := fun (s : SelectServer) peers => Mirrors s.heap s.callbacks s.accepted peers)
    (fun _ _ _ _ hR hs => SelectServer.step_answered hR hs) mirrors_start h
  exact hmirrors.apart hpeers

theorem poll_apart (h : run (PollServer.step complete) (.start listenSocket) pollOps = some pollFin) :
    TrafficApart complete (shown (PollServer.step complete) PollServer.traffic (.start listenSocket) pollOps) pollFin.heap
      pollFin.callbacks := by
  obtain ⟨peers, hpeers, hmirrors⟩ := run_simulates
    (R := fun (s : PollServer) peers => Mirrors s.heap s.callbacks s.accepted peers)
    (fun _ _ _ _ hR hs => PollServer.step_answered hR hs) mirrors_start h
  exact hmirrors.apart hpeers

end Runs

/-- **Connections are apart.** In every state of every run of either loop, whatever the system and the threads do: each
connection, whether it is still there or not, is where its own traffic leads a peer that is alone. -/
theorem connections_apart (cfg : ServerConfig) (ops : List SelectServer.Op) (fin : SelectServer)
    (h : run (SelectServer.step cfg) (.start cfg) ops = some fin) (complete : Bytes → Bool) (listenSocket : ℕ)
    (pollOps : List PollServer.Op) (pollFin : PollServer)
    (hpoll : run (PollServer.step complete) (.start listenSocket) pollOps = some pollFin) :
    TrafficApart cfg.dataCompleteCallback (shown (SelectServer.step cfg) SelectServer.traffic (.start cfg) ops) fin.heap
        fin.callbacks ∧
      TrafficApart complete (shown (PollServer.step complete) PollServer.traffic (.start listenSocket) pollOps) pollFin.heap
        pollFin.callbacks :=
  ⟨select_apart h, poll_apart hpoll⟩

/-- a server that listens on descriptor 3 and has room for two clients; two bytes are complete -/
def pairConfig : ServerConfig := ⟨3, 6, fun buf => buf.length == 2, by decide⟩

namespace SelectServer

/-- clients connect on the descriptors 4 and 5, and each of `chunks` is what the two send in one iteration -/
def pairRun (chunks : List (UInt8 × UInt8)) : List Op :=
  List.flatten [[.swap, .select (some ({3}, ∅))], idle 3, [.accept (some 4) 0, .write], idle 2, [.pass],
    [.swap, .select (some ({3}, ∅))], idle 3, [.accept (some 5) 1, .write], idle 2, [.pass]] ++
  chunks.flatMap fun chunk =>
    List.flatten [[.swap, .select (some ({4, 5}, ∅))], idle 4, [.recv (.bytes [chunk.1]), .write],
      [.recv (.bytes [chunk.2]), .write], [.pass]]

end SelectServer

/-- what two clients that take turns are told, and what waits of the second -/
theorem run_pair :
    (run (SelectServer.step pairConfig) (.start pairConfig) (SelectServer.pairRun [(1, 2), (3, 4), (5, 6)])).map
      (fun s => (buffersOf s.callbacks 0, buffersOf s.callbacks 1, s.heap 1)) =
        some ([[1, 3]], [[2, 4]], some ⟨⟨5, [6], []⟩, 1⟩) := by
  decide +kernel

/-- the two take turns in the loop around `select`; in the other one a client sends a byte and hangs up -/
theorem connections_apart_pair :
    ∃ fin, run (SelectServer.step pairConfig) (.start pairConfig) (SelectServer.pairRun [(1, 2), (3, 4), (5, 6)]) =
        some fin ∧
      TrafficApart pairConfig.dataCompleteCallback (shown (SelectServer.step pairConfig) SelectServer.traffic (.start pairConfig)
        (SelectServer.pairRun [(1, 2), (3, 4), (5, 6)])) fin.heap fin.callbacks ∧
      ∃ pollFin : PollServer, TrafficApart (fun _ => true) (shown (PollServer.step fun _ => true) PollServer.traffic (.start 3)
        (PollServer.connectRound ++ PollServer.clientRound ⟨true, false⟩ [.recv (.bytes [0x42])])) pollFin.heap
          pollFin.callbacks := by
  obtain ⟨fin, hfin, -⟩ := Option.map_eq_some_iff.1 run_pair
  obtain ⟨pollFin, hpoll⟩ : ∃ pollFin, run (PollServer.step fun _ => true) (.start 3)
      (PollServer.connectRound ++ PollServer.clientRound ⟨true, false⟩ [.recv (.bytes [0x42])]) = some pollFin := ⟨_, rfl⟩
  obtain ⟨hselect, hpollApart⟩ := connections_apart pairConfig (SelectServer.pairRun [(1, 2), (3, 4), (5, 6)]) fin hfin
    (fun _ => true) 3 (PollServer.connectRound ++ PollServer.clientRound ⟨true, false⟩ [.recv (.bytes [0x42])]) pollFin
    hpoll
  exact ⟨fin, hfin, hselect, pollFin, hpollApart⟩

/-- **Traffic is conserved.** In every state of every run of either loop every byte of each connection is where it should
be, and with no other connection. -/
theorem traffic_conserved (cfg : ServerConfig) (ops : List SelectServer.Op) (fin : SelectServer)
    (h : run (SelectServer.step cfg) (.start cfg) ops = some fin) (complete : Bytes → Bool) (listenSocket : ℕ)
    (pollOps : List PollServer.Op) (pollFin : PollServer)
    (hpoll : run (PollServer.step complete) (.start listenSocket) pollOps = some pollFin) :
    TrafficConserved cfg.dataCompleteCallback (shown (SelectServer.step cfg) SelectServer.traffic (.start cfg) ops)
        fin.heap fin.callbacks ∧
      TrafficConserved complete (shown (PollServer.step complete) PollServer.traffic (.start listenSocket) pollOps)
        pollFin.heap pollFin.callbacks :=
  ⟨(select_apart h).conserved, (poll_apart hpoll).conserved⟩

/-- the last byte of the second client waits -/
theorem traffic_conserved_pair :
    ∃ fin o, run (SelectServer.step pairConfig) (.start pairConfig) (SelectServer.pairRun [(1, 2), (3, 4), (5, 6)]) =
        some fin ∧
      fin.heap 1 = some o ∧ (buffersOf fin.callbacks o.serial).flatten ++ o.conn.receivedData =
        bytesOf Traffic.received? (itemsOf (shown (SelectServer.step pairConfig) SelectServer.traffic (.start pairConfig)
          (SelectServer.pairRun [(1, 2), (3, 4), (5, 6)])) o.serial) := by
  obtain ⟨fin, hfin, hpair⟩ := Option.map_eq_some_iff.1 run_pair
  obtain ⟨pollFin, hpoll⟩ : ∃ pollFin, run (PollServer.step fun _ => true) (.start 3) [] = some pollFin := ⟨_, rfl⟩
  have ho : fin.heap 1 = some ⟨⟨5, [6], []⟩, 1⟩ := congrArg (fun r => r.2.2) hpair
  exact ⟨fin, _, hfin, ho, (traffic_conserved pairConfig (SelectServer.pairRun [(1, 2), (3, 4), (5, 6)]) fin hfin
    (fun _ => true) 3 [] pollFin hpoll).1.input 1 _ ho⟩

end NetFramework
