/-
`NetBase::Impl` of netbase.cpp: the sessions it has accepted and the callback that sends to one of them.

`start_accept` allocates a session and waits for a client; `handleAccept` numbers the session, gives it its
`destroyedFnc_`, enters it in `sessions_` and starts it, or deletes it, and calls `start_accept` again. The handlers of a
session (`connStep`) run in any order; one that deletes its session runs the destructor, which takes the session out of
`sessions_`. An address that has been freed can be allocated again.

A session is deleted once at most: a handler on a freed session has no successor here (`SessionLife` is about those).
The counter of `handleAccept` is an `int`, so the 2^31-th successful accept has none either.

- `session_table_exact`: in every reachable state `sessions_` holds the sessions accepted and not yet deleted, each once,
  under distinct ids, and the send callback appends one frame to the output of the session with the given id, or does
  nothing if there is none.
-/
import NetFramework.Library.Registry
import NetFramework.Connection

namespace NetFramework

open CoreProto Registry Transition

/-! ## Model -/

/-- a `SessionImpl` in memory, and whether its `destroyedFnc_` is set -/
structure SessionObject where
  conn : Conn
  destroyedFnc_ : Bool

def SessionObject.new (data : CharArray maxLength) : SessionObject :=
  ⟨⟨.new data, 0, 0, [], [], [], [], 0, false⟩, false⟩

def SessionObject.clientId_ (o : SessionObject) : Int32 := o.conn.impl.clientId_

/-- the bytes given to `async_write` so far, and those waiting behind them -/
def Conn.output (c : Conn) : Bytes := c.written.flatten ++ c.impl.outBuffer_

/-- `given` and `gone` record the ids of the sessions accepted, and of those deleted since -/
structure NetBase where
  heap : ℕ → Option SessionObject
  sessions_ : List ℕ
  /-- the static counter of `handleAccept` -/
  clientId : Int32
  /-- the session that `async_accept` has been given -/
  newSession : ℕ
  given : List Int32
  gone : List Int32

/-- the completion of an accept, with the address and the uninitialised `data_` of the next session; the completion of
an operation of a session; a call of the send callback -/
inductive NetOp where
  | accept (error : Bool) (next : ℕ) (data : CharArray maxLength)
  | handler (session : ℕ) (o : ConnOp)
  | send (data : Bytes) (clientId : Int32)

def ConnOp.isHandler : ConnOp → Bool
  | .sendData _ => false
  | _ => true

namespace NetBase

/-- the session at `p` is now `o` -/
def put (s : NetBase) (p : ℕ) (o : SessionObject) : NetBase := { s with heap := Function.update s.heap p (some o) }

def clientSessionDestroyed (s : NetBase) (impl : ℕ) : NetBase := { s with sessions_ := s.sessions_.erase impl }

/-- `delete`: the destructor calls `destroyedFnc_` if it is set -/
def delete (s : NetBase) (p : ℕ) (o : SessionObject) : NetBase :=
  let s := { s with heap := Function.update s.heap p none }
  if o.destroyedFnc_ then { s.clientSessionDestroyed p with gone := s.gone ++ [o.clientId_] } else s

def startAccept (s : NetBase) (next : ℕ) (data : CharArray maxLength) : Option NetBase :=
  match s.heap next with
  | none => some { s.put next (.new data) with newSession := next }
  | some _ => none

/-- `handleAccept` before it calls `start_accept` -/
def handleAccept (s : NetBase) (error : Bool) : Option NetBase :=
  match s.heap s.newSession with
  | none => none
  | some o =>
    if !error then
      if s.clientId = Int32.maxValue then none
      else
        let impl := { o.conn.impl with clientId_ := s.clientId }
        some { s.put s.newSession ⟨o.conn.apply (impl, SessionImpl.start), true⟩ with
          clientId := s.clientId + 1
          sessions_ := s.sessions_ ++ [s.newSession]
          given := s.given ++ [s.clientId] }
    else some (s.delete s.newSession o)

/-- the `find_if` of the send callback: the first of these sessions with the id, if any; `none` if the search comes upon
a session that has been freed -/
def findIf (s : NetBase) (clientId : Int32) : List ℕ → Option (Option ℕ)
  | [] => some none
  | p :: sessions =>
    match s.heap p with
    | none => none
    | some o => if o.clientId_ = clientId then some (some p) else s.findIf clientId sessions

/-- the callback given to `setSendCallback` -/
def sendCallback (s : NetBase) (data : Bytes) (clientId : Int32) : Option NetBase :=
  match s.findIf clientId s.sessions_ with
  | none => none
  | some none => some s
  | some (some p) =>
    match s.heap p with
    | none => none
    | some o => (connStep o.conn (.sendData (createPacket data))).map fun conn => s.put p { o with conn }

/-- a handler of a session runs, and deletes it perhaps -/
def runHandler (s : NetBase) (p : ℕ) (o : ConnOp) : Option NetBase :=
  match s.heap p with
  | none => none
  | some obj =>
    if o.isHandler then
      (connStep obj.conn o).map fun conn =>
        if 0 < conn.deletions then s.delete p { obj with conn } else s.put p { obj with conn }
    else none

/-- `start` with the first session at `p` -/
def start (p : ℕ) (data : CharArray maxLength) : NetBase :=
  ⟨fun q => if q = p then some (.new data) else none, [], 0, p, [], []⟩

end NetBase

def netStep (s : NetBase) : NetOp → Option NetBase
  | .accept error next data => (s.handleAccept error).bind fun s => s.startAccept next data
  | .handler p o => s.runHandler p o
  | .send data clientId => s.sendCallback data clientId

/-- the id of the session at `p` -/
def NetBase.idAt (s : NetBase) (p : ℕ) : Option Int32 := (s.heap p).map SessionObject.clientId_

/-- `sessions_` holds exactly the accepted sessions in memory, each once, under distinct ids, and these are the ids given
and not gone -/
structure TableExact (s : NetBase) : Prop where
  sessions : ∀ p, p ∈ s.sessions_ ↔ ∃ o, s.heap p = some o ∧ o.destroyedFnc_ = true
  nodup : s.sessions_.Nodup
  distinct : ∀ p ∈ s.sessions_, ∀ q ∈ s.sessions_, s.idAt p = s.idAt q → p = q
  given_nodup : s.given.Nodup
  live : ∀ id, (∃ p ∈ s.sessions_, s.idAt p = some id) ↔ id ∈ s.given ∧ id ∉ s.gone

/-- the callback with `data` and `id`, called in `s`, appends the frame of `data` to the output of the session with that
id and changes nothing else; it changes nothing if that session is gone -/
def Routed (s : NetBase) (data : Bytes) (id : Int32) (s' : NetBase) : Prop :=
  (id ∈ s.given ∧ id ∉ s.gone ∧ ∃ p ∈ s.sessions_, ∃ o c, s.heap p = some o ∧ o.clientId_ = id ∧
      c.output = o.conn.output ++ createPacket data ∧ s' = s.put p { o with conn := c }) ∨
    (¬ (id ∈ s.given ∧ id ∉ s.gone) ∧ s' = s)

/-! ## The id and the output of a session -/

@[simp] theorem apply_impl (c : Conn) (r : SessionImpl × List Effect) : (c.apply r).impl = r.1 := by
  have hfold : ∀ (effects : List Effect) (c : Conn), (effects.foldl Conn.perform c).impl = c.impl := by
    intro effects
    induction effects with
    | nil => intro c; rfl
    | cons e effects ih => intro c; rw [List.foldl_cons, ih]; cases e <;> rfl
  exact hfold r.2 _

theorem handleWrite_clientId (s : SessionImpl) (error : Bool) : (s.handleWrite error).1.clientId_ = s.clientId_ := by
  cases error
  · rw [handleWrite_ok]
  · rfl

theorem sendData_clientId (s : SessionImpl) (data : Bytes) : (s.sendData data).1.clientId_ = s.clientId_ := by
  simp only [SessionImpl.sendData]
  split_ifs
  · rw [handleWrite_clientId]
  · rfl

theorem consume_clientId {s s' : SessionImpl} {n : ℕ} {pkgSize : UInt32} {packets : List Bytes}
    (h : s.consume n pkgSize = some (s', packets)) : s'.clientId_ = s.clientId_ := by
  simp only [SessionImpl.consume] at h
  split_ifs at h
  all_goals simp only [Option.map_eq_some_iff, Option.some.injEq, Prod.mk.injEq] at h
  all_goals first
    | obtain ⟨rfl, -⟩ := h; rfl
    | obtain ⟨_, -, rfl, -⟩ := h; rfl

theorem processRead_clientId {s : SessionImpl} {error : Bool} {n : ℕ} {pkgSize : UInt32} {r : SessionImpl × List Effect}
    (h : s.processRead error n pkgSize = some r) : r.1.clientId_ = s.clientId_ := by
  cases error with
  | true => cases h; rfl
  | false =>
    simp only [SessionImpl.processRead, Bool.not_false, if_true, Option.map_eq_some_iff] at h
    obtain ⟨⟨s', packets⟩, hs, rfl⟩ := h
    exact consume_clientId hs

/-- no handler changes the id of its session -/
theorem connStep_clientId {c c' : Conn} {o : ConnOp} (h : connStep c o = some c') :
    c'.impl.clientId_ = c.impl.clientId_ := by
  cases o with
  | handshakeDone error =>
    obtain ⟨-, -, rfl⟩ := connStep_handshake h
    rfl
  | readDone error chunk pkgSize =>
    simp only [connStep] at h
    split_ifs at h
    obtain ⟨r, hr, rfl⟩ := Option.map_eq_some_iff.1 h
    rw [apply_impl, processRead_clientId hr]
    rfl
  | writeDone error =>
    obtain ⟨b, writes, -, -, rfl⟩ := connStep_write h
    rw [apply_impl, handleWrite_clientId]
  | sendData data =>
    obtain ⟨-, rfl⟩ := connStep_send h
    rw [apply_impl, sendData_clientId]

/-- **`sendData`.** On a session that has not been deleted it appends its data to the output. -/
theorem connStep_sendData {c : Conn} (h : c.deletions = 0) (data : Bytes) :
    ∃ c', connStep c (.sendData data) = some c' ∧ c'.deletions = 0 ∧ c'.output = c.output ++ data := by
  refine ⟨_, by rw [connStep, if_pos h], ?_⟩
  simp only [SessionImpl.sendData]
  split_ifs with hproc
  · rw [handleWrite_ok]
    by_cases hout : c.impl.outBuffer_ ++ data = []
    · rw [if_neg (by simp [hout])]
      simp [Conn.apply, Conn.output, h, hproc, List.append_eq_nil_iff.1 hout]
    · rw [if_pos hout]
      simp [Conn.apply, Conn.perform, Conn.output, h, hproc]
  · simp [Conn.apply, Conn.output, h]

/-! ## The table -/

/-- the table lists the ledger of the ids, and its entries are the accepted sessions in memory -/
structure Tabled (s : NetBase) : Prop where
  ledger : ∃ r : Ledger Int32, r.given = s.given ∧ r.gone = s.gone ∧ Lists s.idAt s.sessions_ r
  counter : 0 ≤ s.clientId.toInt ∧ ∀ id ∈ s.given, id.toInt < s.clientId.toInt
  entries : ∀ p o, s.heap p = some o → o.conn.deletions = 0 ∧ (o.destroyedFnc_ = true ↔ p ∈ s.sessions_)
  member : ∀ p ∈ s.sessions_, ∃ o, s.heap p = some o

/-- the session in `async_accept` is as `new` left it -/
def Waiting (s : NetBase) : Prop := ∃ data, s.heap s.newSession = some (.new data)

theorem put_heap (s : NetBase) (p : ℕ) (o : SessionObject) (q : ℕ) :
    (s.put p o).heap q = if q = p then some o else s.heap q := Function.update_apply s.heap p (some o) q

theorem idAt_put (s : NetBase) (p : ℕ) (o : SessionObject) (q : ℕ) :
    (s.put p o).idAt q = if q = p then some o.clientId_ else s.idAt q := by
  simp only [NetBase.idAt, put_heap]
  split_ifs <;> rfl

theorem Tabled.exact {s : NetBase} (h : Tabled s) : TableExact s := by
  obtain ⟨r, hgiven, hgone, hlist⟩ := h.ledger
  refine ⟨?_, hlist.nodup, fun p hp q hq => hlist.inj hp hq, hgiven ▸ r.nodup, ?_⟩
  · intro p
    refine ⟨?_, ?_⟩
    · intro hp
      obtain ⟨o, ho⟩ := h.member p hp
      exact ⟨o, ho, (h.entries p o ho).2.2 hp⟩
    · rintro ⟨o, ho, hd⟩
      exact (h.entries p o ho).2.1 hd
  · intro id
    rw [← hlist.mem_live, Ledger.mem_live, hgiven, hgone]

/-- a session in memory changes, but not its id -/
theorem Tabled.put {s : NetBase} (h : Tabled s) {p : ℕ} {o : SessionObject} (ho : s.heap p = some o) {conn : Conn}
    (hid : conn.impl.clientId_ = o.clientId_) (hd : conn.deletions = 0) : Tabled (s.put p { o with conn }) := by
  obtain ⟨r, hgiven, hgone, hlist⟩ := h.ledger
  refine ⟨⟨r, hgiven, hgone, hlist.congr ?_⟩, h.counter, ?_, ?_⟩
  · intro q _
    rw [idAt_put]
    split_ifs with hq
    · rw [hq, NetBase.idAt, ho]
      exact congrArg some hid
    · rfl
  · intro q o' ho'
    rw [put_heap] at ho'
    split_ifs at ho' with hq
    · cases ho'
      rw [hq]
      exact ⟨hd, (h.entries p o ho).2⟩
    · exact h.entries q o' ho'
  · intro q hq
    obtain ⟨o', ho'⟩ := h.member q hq
    by_cases hqp : q = p
    · exact ⟨_, by rw [put_heap, if_pos hqp]⟩
    · exact ⟨o', by rw [put_heap, if_neg hqp, ho']⟩

/-- a session is allocated at a free address -/
theorem Tabled.startAccept {s s' : NetBase} (h : Tabled s) {next : ℕ} {data : CharArray maxLength}
    (hs : s.startAccept next data = some s') : Tabled s' ∧ Waiting s' := by
  simp only [NetBase.startAccept] at hs
  split at hs
  · rename_i hfree
    cases hs
    have hnot : ∀ q ∈ s.sessions_, q ≠ next := by
      intro q hq hqn
      obtain ⟨o, ho⟩ := h.member q hq
      rw [hqn, hfree] at ho
      cases ho
    obtain ⟨r, hgiven, hgone, hlist⟩ := h.ledger
    refine ⟨⟨⟨r, hgiven, hgone, hlist.congr ?_⟩, h.counter, ?_, ?_⟩, data, by simp [NetBase.put]⟩
    · intro q hq
      exact (idAt_put s next (.new data) q).trans (if_neg (hnot q hq))
    · intro q o ho
      simp only [NetBase.put, Function.update_apply] at ho
      split_ifs at ho with hq
      · cases ho
        refine ⟨rfl, fun hd => ?_, fun hmem => absurd hq (hnot q hmem)⟩
        cases hd
      · exact h.entries q o ho
    · intro q hq
      obtain ⟨o, ho⟩ := h.member q hq
      exact ⟨o, by simp only [NetBase.put]; rw [Function.update_of_ne (hnot q hq), ho]⟩
  · cases hs

/-- a session is deleted; the destructor keeps the table in order -/
theorem Tabled.delete {s : NetBase} (h : Tabled s) {p : ℕ} {o o' : SessionObject} (ho : s.heap p = some o)
    (hid : o'.clientId_ = o.clientId_) (hd : o'.destroyedFnc_ = o.destroyedFnc_) : Tabled (s.delete p o') := by
  obtain ⟨r, hgiven, hgone, hlist⟩ := h.ledger
  have hidAt : s.idAt p = some o.clientId_ := by rw [NetBase.idAt, ho]; rfl
  simp only [NetBase.delete, hd]
  split_ifs with hacc
  · have hp : p ∈ s.sessions_ := (h.entries p o ho).2.1 hacc
    obtain ⟨id, hlive, hid'⟩ := hlist.key_live hp
    obtain rfl : o.clientId_ = id := Option.some.inj (hidAt.symm.trans hid')
    have hrg : o.clientId_ ∈ r.given := (Ledger.mem_live.1 hlive).1
    refine ⟨⟨r.drop o.clientId_ hrg, hgiven, ?_, hlist.drop hrg hp hidAt ?_⟩, h.counter, ?_, ?_⟩
    · rw [hid]
      exact congrArg (· ++ [o.clientId_]) hgone
    · intro q _ hq
      simp [NetBase.idAt, NetBase.clientSessionDestroyed, Function.update_of_ne hq]
    · intro q o'' ho''
      simp only [NetBase.clientSessionDestroyed, Function.update_apply] at ho''
      split_ifs at ho'' with hq
      refine ⟨(h.entries q o'' ho'').1, ?_⟩
      rw [(h.entries q o'' ho'').2]
      simp only [NetBase.clientSessionDestroyed]
      rw [List.mem_erase_of_ne hq]
    · intro q hq
      obtain ⟨hqp, hq⟩ := (hlist.nodup.mem_erase_iff).1 hq
      obtain ⟨o'', ho''⟩ := h.member q hq
      exact ⟨o'', by simp only [NetBase.clientSessionDestroyed]; rw [Function.update_of_ne hqp, ho'']⟩
  · have hp : p ∉ s.sessions_ := fun hp => hacc ((h.entries p o ho).2.2 hp)
    have hne : ∀ q ∈ s.sessions_, q ≠ p := fun q hq hqp => hp (hqp ▸ hq)
    refine ⟨⟨r, hgiven, hgone, hlist.congr ?_⟩, h.counter, ?_, ?_⟩
    · intro q hq
      simp [NetBase.idAt, Function.update_of_ne (hne q hq)]
    · intro q o'' ho''
      simp only [Function.update_apply] at ho''
      split_ifs at ho'' with hq
      exact h.entries q o'' ho''
    · intro q hq
      obtain ⟨o'', ho''⟩ := h.member q hq
      exact ⟨o'', by simp only; rw [Function.update_of_ne (hne q hq), ho'']⟩

theorem toInt_succ {n : Int32} (h0 : 0 ≤ n.toInt) (h : n ≠ Int32.maxValue) : (n + 1).toInt = n.toInt + 1 := by
  have hmax : Int32.maxValue.toInt = 2147483647 := by decide
  have hle := n.toInt_le
  have hne : n.toInt ≠ 2147483647 := fun heq => h (Int32.toInt_inj.1 (heq.trans hmax.symm))
  rw [Int32.toInt_add, Int32.toInt_one]
  exact Int.bmod_eq_of_le (by omega) (by omega)

/-- the number of the next session is none that has been given -/
theorem Tabled.unused {s : NetBase} (h : Tabled s) : s.clientId ∉ s.given :=
  fun hmem => lt_irrefl _ (h.counter.2 _ hmem)

theorem Tabled.gone_given {s : NetBase} (h : Tabled s) {id : Int32} (hid : id ∈ s.gone) : id ∈ s.given := by
  obtain ⟨r, hgiven, hgone, -⟩ := h.ledger
  rw [← hgiven]
  exact r.gone_given id (hgone ▸ hid)

/-- **An accept.** A session accepted gets a number that none before it had. -/
theorem Tabled.handleAccept {s s' : NetBase} (h : Tabled s) (hw : Waiting s) {error : Bool}
    (hs : s.handleAccept error = some s') : Tabled s' := by
  obtain ⟨data, hnew⟩ := hw
  have hout : s.newSession ∉ s.sessions_ := by
    intro hmem
    exact absurd ((h.entries _ _ hnew).2.2 hmem) (by simp [SessionObject.new])
  have hne : ∀ q ∈ s.sessions_, q ≠ s.newSession := fun q hq hqp => hout (hqp ▸ hq)
  simp only [NetBase.handleAccept, hnew] at hs
  cases error with
  | true =>
    cases hs
    exact h.delete hnew rfl rfl
  | false =>
    simp only [Bool.not_false, if_true] at hs
    split_ifs at hs with hmax
    cases hs
    obtain ⟨r, hgiven, hgone, hlist⟩ := h.ledger
    have hfresh : s.clientId ∉ r.given := hgiven ▸ h.unused
    have hsucc := toInt_succ h.counter.1 hmax
    refine ⟨⟨r.give s.clientId hfresh, ?_, hgone, hlist.give hfresh ?_ ?_⟩, ?_, ?_, ?_⟩
    · exact congrArg (· ++ [s.clientId]) hgiven
    · apply (idAt_put s s.newSession _ s.newSession).trans
      rw [if_pos rfl]
      rfl
    · intro q hq
      exact (idAt_put s s.newSession _ q).trans (if_neg (hne q hq))
    · refine ⟨by simp only [hsucc]; exact Int.le_add_one h.counter.1, ?_⟩
      intro id hid
      simp only [hsucc]
      rcases List.mem_append.1 hid with hid | hid
      · exact Int.lt_add_one_of_le (h.counter.2 id hid).le
      · rw [List.mem_singleton.1 hid]; exact Int.lt_succ _
    · intro q o ho
      simp only [NetBase.put, Function.update_apply] at ho
      split_ifs at ho with hq
      · cases ho
        exact ⟨rfl, by simp [hq]⟩
      · rw [List.mem_append, List.mem_singleton]
        refine ⟨(h.entries q o ho).1, (h.entries q o ho).2.trans ?_⟩
        simp [hq]
    · intro q hq
      by_cases hqn : q = s.newSession
      · exact ⟨_, by simp only [NetBase.put]; rw [hqn, Function.update_self]⟩
      · obtain ⟨o, ho⟩ := h.member q ((List.mem_append.1 hq).resolve_right (by simpa using hqn))
        exact ⟨o, by simp only [NetBase.put]; rw [Function.update_of_ne hqn, ho]⟩

/-! ## A step -/

/-- a search through the table ends, at the session with the id or at none -/
theorem Tabled.findIf {s : NetBase} (h : Tabled s) (id : Int32) {l : List ℕ} (hl : ∀ p ∈ l, p ∈ s.sessions_) :
    (∃ p ∈ l, s.findIf id l = some (some p) ∧ s.idAt p = some id) ∨
      (s.findIf id l = some none ∧ ∀ p ∈ l, s.idAt p ≠ some id) := by
  induction l with
  | nil => exact Or.inr ⟨rfl, by simp⟩
  | cons p l ih =>
    obtain ⟨o, ho⟩ := h.member p (hl p List.mem_cons_self)
    have hidAt : s.idAt p = some o.clientId_ := by rw [NetBase.idAt, ho]; rfl
    simp only [NetBase.findIf, ho]
    split_ifs with hid
    · exact Or.inl ⟨p, List.mem_cons_self, rfl, by rw [hidAt, hid]⟩
    · rcases ih fun q hq => hl q (List.mem_cons_of_mem p hq) with ⟨q, hq, hfind, hqid⟩ | ⟨hfind, hnone⟩
      · exact Or.inl ⟨q, List.mem_cons_of_mem p hq, hfind, hqid⟩
      · refine Or.inr ⟨hfind, ?_⟩
        intro q hq
        rcases List.mem_cons.1 hq with rfl | hq
        · rw [hidAt]
          exact fun heq => hid (Option.some.inj heq)
        · exact hnone q hq

/-- **The send callback.** It reaches the one session with the id, if there is one, and no other. -/
theorem Tabled.sendCallback {s : NetBase} (h : Tabled s) (data : Bytes) (id : Int32) :
    ∃ s', s.sendCallback data id = some s' ∧ Tabled s' ∧ Routed s data id s' := by
  have hlive := h.exact.live id
  rcases h.findIf id (fun p hp => hp) with ⟨p, hp, hfind, hidAt⟩ | ⟨hfind, hnone⟩
  · obtain ⟨o, ho⟩ := h.member p hp
    obtain ⟨c, hc, hd, hout⟩ := connStep_sendData (h.entries p o ho).1 (createPacket data)
    have hid : o.clientId_ = id := by
      rw [NetBase.idAt, ho] at hidAt
      exact Option.some.inj hidAt
    have hgiven := hlive.1 ⟨p, hp, hidAt⟩
    refine ⟨s.put p { o with conn := c }, ?_, h.put ho (connStep_clientId hc) hd, ?_⟩
    · simp only [NetBase.sendCallback, hfind, ho, hc, Option.map_some]
    · exact Or.inl ⟨hgiven.1, hgiven.2, p, hp, o, c, ho, hid, hout, rfl⟩
  · refine ⟨s, by simp only [NetBase.sendCallback, hfind], h, Or.inr ⟨?_, rfl⟩⟩
    intro hgiven
    obtain ⟨p, hp, hidAt⟩ := hlive.2 hgiven
    exact hnone p hp hidAt

theorem Tabled.runHandler {s s' : NetBase} (h : Tabled s) {p : ℕ} {o : ConnOp} (hs : s.runHandler p o = some s') :
    Tabled s' := by
  simp only [NetBase.runHandler] at hs
  split at hs
  · cases hs
  · rename_i obj hobj
    split_ifs at hs
    obtain ⟨conn, hconn, rfl⟩ := Option.map_eq_some_iff.1 hs
    have hid := connStep_clientId hconn
    split_ifs with hd
    · exact h.delete hobj hid rfl
    · exact h.put hobj hid (by omega)

/-- a session that has not been started has no handler to run -/
theorem connStep_new {data : CharArray maxLength} {o : ConnOp} (ho : o.isHandler = true) :
    connStep (SessionObject.new data).conn o = none := by
  cases o with
  | handshakeDone error => rfl
  | readDone error chunk pkgSize => rfl
  | writeDone error => rfl
  | sendData data => cases ho

theorem Waiting.put {s : NetBase} (hw : Waiting s) {p : ℕ} (hp : p ≠ s.newSession) (o : SessionObject) :
    Waiting (s.put p o) := by
  obtain ⟨data, hdata⟩ := hw
  refine ⟨data, ?_⟩
  calc _ = if s.newSession = p then some o else s.heap s.newSession := put_heap s p o s.newSession
    _ = s.heap s.newSession := if_neg hp.symm
    _ = some (.new data) := hdata

theorem Waiting.delete {s : NetBase} (hw : Waiting s) {p : ℕ} (hp : p ≠ s.newSession) (o : SessionObject) :
    Waiting (s.delete p o) := by
  obtain ⟨data, hdata⟩ := hw
  refine ⟨data, ?_⟩
  simp only [NetBase.delete]
  split_ifs
  · exact (Function.update_of_ne hp.symm _ _).trans hdata
  · exact (Function.update_of_ne hp.symm _ _).trans hdata

theorem Waiting.runHandler {s s' : NetBase} (hw : Waiting s) {p : ℕ} {o : ConnOp} (hs : s.runHandler p o = some s') :
    Waiting s' := by
  simp only [NetBase.runHandler] at hs
  split at hs
  · cases hs
  · rename_i obj hobj
    split_ifs at hs with ho
    obtain ⟨conn, hconn, rfl⟩ := Option.map_eq_some_iff.1 hs
    have hp : p ≠ s.newSession := by
      rintro rfl
      obtain ⟨data, hdata⟩ := hw
      rw [hdata] at hobj
      cases hobj
      rw [connStep_new ho] at hconn
      cases hconn
    split_ifs
    · exact hw.delete hp _
    · exact hw.put hp _

theorem netStep_tabled {s s' : NetBase} {o : NetOp} (h : Tabled s ∧ Waiting s) (hs : netStep s o = some s') :
    Tabled s' ∧ Waiting s' := by
  obtain ⟨ht, hw⟩ := h
  cases o with
  | accept error next data =>
    obtain ⟨u, hu, hs⟩ := Option.bind_eq_some_iff.1 hs
    exact (ht.handleAccept hw hu).startAccept hs
  | handler p o => exact ⟨ht.runHandler hs, hw.runHandler hs⟩
  | send data id =>
    obtain ⟨s'', hs'', ht'', hroute⟩ := ht.sendCallback data id
    obtain rfl : s'' = s' := Option.some.inj (hs''.symm.trans hs)
    refine ⟨ht'', ?_⟩
    rcases hroute with ⟨-, -, p, hp, o, c, ho, -, -, rfl⟩ | ⟨-, rfl⟩
    · refine hw.put ?_ _
      rintro rfl
      obtain ⟨data', hdata'⟩ := hw
      rw [hdata'] at ho
      cases ho
      exact absurd ((ht.entries _ _ hdata').2.2 hp) (by simp [SessionObject.new])
    · exact hw

theorem start_tabled (p : ℕ) (data : CharArray maxLength) :
    Tabled (.start p data) ∧ Waiting (.start p data) := by
  have hzero : (0 : ℤ) ≤ (0 : Int32).toInt := by decide
  refine ⟨⟨⟨.empty, rfl, rfl, lists_empty _⟩, ⟨hzero, by simp [NetBase.start]⟩, ?_, by simp [NetBase.start]⟩,
    data, if_pos rfl⟩
  intro q o ho
  simp only [NetBase.start] at ho
  split_ifs at ho
  cases ho
  exact ⟨rfl, by simp [SessionObject.new, NetBase.start]⟩

/-! ## Runs -/

/-- **Session table and send routing.** After any accepts, handshake failures, deletions and calls of the send callback,
in any order: `sessions_` holds exactly the sessions accepted and not yet deleted, each once, under distinct ids; and the
send callback appends the frame of its data to the output of the session that was given the id, or does nothing if that
session is gone, and changes no other. -/
theorem session_table_exact (p : ℕ) (data : CharArray maxLength) (ops : List NetOp) (s : NetBase)
    (h : run netStep (.start p data) ops = some s) :
    TableExact s ∧ ∀ packet id, ∃ s', netStep s (.send packet id) = some s' ∧ Routed s packet id s' := by
  have hstep : ∀ s o s', Tabled s ∧ Waiting s → netStep s o = some s' → Tabled s' ∧ Waiting s' :=
    fun _ _ _ hi hs => netStep_tabled hi hs
  obtain ⟨hs, -⟩ : Tabled s ∧ Waiting s := run_inv hstep (start_tabled p data) h
  refine ⟨hs.exact, ?_⟩
  intro packet id
  obtain ⟨s', hs', -, hroute⟩ := hs.sendCallback packet id
  exact ⟨s', hs', hroute⟩

/-- two clients, the first of which fails its handshake; its session is gone and the address is allocated again -/
theorem session_table_two : ∃ s, run netStep (.start 0 zeroData)
      [.accept false 1 zeroData, .accept false 2 zeroData, .handler 0 (.handshakeDone true), .accept true 0 zeroData] =
        some s ∧ s.sessions_ = [1] ∧ TableExact s ∧ ∃ s', netStep s (.send [0x41] 1) = some s' ∧ Routed s [0x41] 1 s' := by
  obtain ⟨s, hs, hsessions⟩ : ∃ s, run netStep (.start 0 zeroData)
      [.accept false 1 zeroData, .accept false 2 zeroData, .handler 0 (.handshakeDone true), .accept true 0 zeroData] =
        some s ∧ s.sessions_ = [1] := ⟨_, rfl, rfl⟩
  obtain ⟨htable, hsend⟩ := session_table_exact 0 zeroData _ s hs
  exact ⟨s, hs, hsessions, htable, hsend [0x41] 1⟩

end NetFramework
