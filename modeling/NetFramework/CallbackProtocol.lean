/-
The callbacks of `Server::poll`, whichever of its two loops runs: what a connection is told and in which order.

A connection is known by its place in the order of the accepts (`serial`), since addresses and descriptors are used
again. `serialAt` is what the program can see of that: the connection that `clientSockets` has for a descriptor.

- `Served`: what the callbacks of a server that runs have to be like.
- `Following`: the invariant behind it. `Following.accept`, `.data` and `.disconnect` are the three callbacks that keep
  it; `acceptAt`, `dataAt` and `disconnectAt` say the same about the tables of the server.
-/
import NetFramework.Library.Lifecycle
import NetFramework.ClientConnection

namespace NetFramework

open Lifecycle

/-! ## Callbacks -/

/-- a connection in memory, and its place in the order of the accepts -/
structure ConnObject where
  conn : ClientConnection
  serial : ℕ
deriving DecidableEq, Repr

/-- a callback about a connection, or about a null pointer -/
abbrev Callback := Option ℕ × Event Bytes

/-- `_clientStateChangedCallback(conn, ConnectionState::Connected)` -/
def connectedCallback (conn : Option ℕ) : Callback := (conn, .opened)
/-- `_dataCallback(buf, conn)`, for each of the buffers -/
def dataCallbacks (conn : Option ℕ) (bufs : List Bytes) : List Callback := bufs.map fun buf => (conn, .used buf)
/-- `_clientStateChangedCallback(conn, ConnectionState::Disconnected)` -/
def disconnectedCallback (conn : Option ℕ) : Callback := (conn, .closed)

/-- the value of `clientSockets[fd]` -/
def connAt (sockets : ℕ → Option (Option ℕ)) (fd : ℕ) : Option ℕ := (sockets fd).join

/-- the connection that the table has for a descriptor -/
def serialAt (heap : ℕ → Option ConnObject) (sockets : ℕ → Option (Option ℕ)) (fd : ℕ) : Option ℕ :=
  (connAt sockets fd).bind fun p => (heap p).map ConnObject.serial

/-! ## The protocol -/

/-- each of the `accepted` connections has been told that it is connected, then of its data, then at most once that it is
disconnected, and nothing else; nobody else has been called back about; and a connection whose `recv` has `reported` the
end or an error has been told so, is no longer in the table, and has not ended the loop -/
structure Served (listed : ℕ → Option ℕ) (callbacks : List Callback) (accepted : ℕ) (reported : List ℕ)
    (threw : Prop) : Prop where
  told : ∀ n < accepted,
    Phase.live.Lived (eventsOf callbacks (some n)) ∨ Phase.done.Lived (eventsOf callbacks (some n))
  others : ∀ n, accepted ≤ n → eventsOf callbacks (some n) = []
  no_null : eventsOf callbacks none = []
  ended : ∀ n ∈ reported, .closed ∈ eventsOf callbacks (some n) ∧ ∀ fd, listed fd ≠ some n
  running : ¬ threw

/-- the phases that the connections have got to -/
structure Following (listed : ℕ → Option ℕ) (callbacks : List Callback) (accepted : ℕ) (reported : List ℕ)
    (phase : Option ℕ → Phase) : Prop where
  tracks : Tracks phase callbacks
  null : phase none = .fresh
  told : ∀ n < accepted, phase (some n) ≠ .fresh
  others : ∀ n, accepted ≤ n → phase (some n) = .fresh
  live : ∀ fd n, listed fd = some n → phase (some n) = .live
  distinct : ∀ fd fd' n, listed fd = some n → listed fd' = some n → fd = fd'
  ended : ∀ n ∈ reported, phase (some n) = .done

section Following

variable {listed : ℕ → Option ℕ} {callbacks : List Callback} {accepted : ℕ} {reported : List ℕ}
  {phase : Option ℕ → Phase}

theorem closed_of_done {events : List (Event Bytes)} (h : Phase.done.Lived events) : .closed ∈ events := by
  obtain ⟨as, rfl⟩ := h
  simp

theorem not_closed_of_live {events : List (Event Bytes)} (h : Phase.live.Lived events) : .closed ∉ events := by
  obtain ⟨as, rfl⟩ := h
  simp

theorem Following.served (h : Following listed callbacks accepted reported phase) {threw : Prop} (ht : ¬ threw) :
    Served listed callbacks accepted reported threw := by
  refine ⟨?_, ?_, ?_, ?_, ht⟩
  · intro n hn
    have hlived := h.tracks (some n)
    cases hp : phase (some n) with
    | fresh => exact absurd hp (h.told n hn)
    | live => rw [hp] at hlived; exact Or.inl hlived
    | done => rw [hp] at hlived; exact Or.inr hlived
  · intro n hn
    have hlived := h.tracks (some n)
    rwa [h.others n hn] at hlived
  · have hlived := h.tracks none
    rwa [h.null] at hlived
  · intro n hn
    have hlived := h.tracks (some n)
    rw [h.ended n hn] at hlived
    refine ⟨closed_of_done hlived, ?_⟩
    intro fd hfd
    have hlive := h.live fd n hfd
    rw [h.ended n hn] at hlive
    cases hlive

theorem following_start : Following (fun _ => none) [] 0 [] (fun _ => .fresh) where
  tracks := tracks_nil
  null := rfl
  told n hn := absurd hn (Nat.not_lt_zero n)
  others _ _ := rfl
  live _ _ h := by cases h
  distinct _ _ _ h := by cases h
  ended _ h := by cases h

theorem Following.accept (h : Following listed callbacks accepted reported phase) (fd : ℕ) :
    Following (Function.update listed fd (some accepted)) (callbacks ++ [connectedCallback (some accepted)])
      (accepted + 1) reported (Function.update phase (some accepted) .live) := by
  have hfresh := h.others accepted le_rfl
  have hold : ∀ fd' n, listed fd' = some n → n ≠ accepted := by
    rintro fd' n hn rfl
    have := h.live fd' n hn
    rw [hfresh] at this
    cases this
  refine ⟨h.tracks.opened hfresh, ?_, ?_, ?_, ?_, ?_, ?_⟩
  · rw [Function.update_of_ne (by simp)]
    exact h.null
  · intro n hn
    by_cases heq : n = accepted
    · rw [heq, Function.update_self]; simp
    · rw [Function.update_of_ne (by simpa using heq)]
      exact h.told n (by omega)
  · intro n hn
    rw [Function.update_of_ne (by simp; omega)]
    exact h.others n (by omega)
  · intro fd' n hn
    rw [Function.update_apply] at hn
    split_ifs at hn
    · rw [← Option.some.inj hn, Function.update_self]
    · rw [Function.update_of_ne (by simpa using hold fd' n hn)]
      exact h.live fd' n hn
  · intro fd₁ fd₂ n h₁ h₂
    rw [Function.update_apply] at h₁ h₂
    split_ifs at h₁ h₂ with hfd₁ hfd₂ hfd₂
    · rw [hfd₁, hfd₂]
    · exact absurd (Option.some.inj h₁).symm (hold fd₂ n h₂)
    · exact absurd (Option.some.inj h₂).symm (hold fd₁ n h₁)
    · exact h.distinct fd₁ fd₂ n h₁ h₂
  · intro n hn
    have hdone := h.ended n hn
    rw [Function.update_of_ne, hdone]
    intro heq
    rw [heq, hfresh] at hdone
    cases hdone

theorem Following.data (h : Following listed callbacks accepted reported phase) {fd n : ℕ} (hn : listed fd = some n)
    (bufs : List Bytes) :
    Following listed (callbacks ++ dataCallbacks (some n) bufs) accepted reported phase :=
  { h with tracks := h.tracks.used (h.live fd n hn) bufs }

theorem Following.disconnect (h : Following listed callbacks accepted reported phase) {fd n : ℕ}
    (hn : listed fd = some n) :
    Following (Function.update listed fd none) (callbacks ++ [disconnectedCallback (some n)]) accepted
      (reported ++ [n]) (Function.update phase (some n) .done) := by
  have hlive := h.live fd n hn
  refine ⟨h.tracks.closed hlive, ?_, ?_, ?_, ?_, ?_, ?_⟩
  · rw [Function.update_of_ne (by simp)]
    exact h.null
  · intro m hm
    rw [Function.update_apply]
    split_ifs
    · simp
    · exact h.told m hm
  · intro m hm
    have hfresh := h.others m hm
    rw [Function.update_of_ne, hfresh]
    intro heq
    rw [heq, hlive] at hfresh
    cases hfresh
  · intro fd' m hm
    rw [Function.update_apply] at hm
    split_ifs at hm with hfd
    have hmn : m ≠ n := fun heq => hfd (h.distinct fd' fd n (heq ▸ hm) hn)
    rw [Function.update_of_ne (by simpa using hmn)]
    exact h.live fd' m hm
  · intro fd₁ fd₂ m h₁ h₂
    rw [Function.update_apply] at h₁ h₂
    split_ifs at h₁ h₂
    exact h.distinct fd₁ fd₂ m h₁ h₂
  · intro m hm
    rw [Function.update_apply]
    split_ifs with heq
    · rfl
    · rcases List.mem_append.1 hm with hm | hm
      · exact h.ended m hm
      · exact absurd (congrArg some (List.mem_singleton.1 hm)) heq

/-- the connections have got to some phases, and nothing has been thrown -/
def Followed (listed : ℕ → Option ℕ) (callbacks : List Callback) (accepted : ℕ) (reported : List ℕ)
    (threw : Prop) : Prop :=
  ¬ threw ∧ ∃ phase, Following listed callbacks accepted reported phase

theorem Followed.served {threw : Prop} (h : Followed listed callbacks accepted reported threw) :
    Served listed callbacks accepted reported threw := by
  obtain ⟨ht, phase, hf⟩ := h
  exact hf.served ht

/-- a step without callbacks that leaves the table alone -/
theorem Followed.frame {threw threw' : Prop} {listed' : ℕ → Option ℕ} {callbacks' : List Callback} {accepted' : ℕ}
    {reported' : List ℕ} (h : Followed listed callbacks accepted reported threw) (hl : listed' = listed)
    (hc : callbacks' = callbacks) (ha : accepted' = accepted) (hr : reported' = reported) (ht : ¬ threw') :
    Followed listed' callbacks' accepted' reported' threw' := by
  obtain ⟨-, phase, hf⟩ := h
  refine ⟨ht, phase, ?_⟩
  rw [hl, hc, ha, hr]
  exact hf

/-- fewer connections reported -/
theorem Following.mono (h : Following listed callbacks accepted reported phase) {reported' : List ℕ}
    (hsub : ∀ n ∈ reported', n ∈ reported) : Following listed callbacks accepted reported' phase :=
  { h with ended := fun n hn => h.ended n (hsub n hn) }

end Following

/-! ## What the table shows -/

section Table

variable {heap : ℕ → Option ConnObject} {sockets : ℕ → Option (Option ℕ)}

theorem connAt_update (fd : ℕ) (v : Option (Option ℕ)) (fd' : ℕ) :
    connAt (Function.update sockets fd v) fd' = if fd' = fd then v.join else connAt sockets fd' := by
  rw [connAt, Function.update_apply]
  split_ifs <;> rfl

/-- looking a descriptor up changes nothing -/
theorem serialAt_touch (fd : ℕ) :
    serialAt heap (Function.update sockets fd (some (connAt sockets fd))) = serialAt heap sockets := by
  funext fd'
  rw [serialAt, connAt_update]
  split_ifs with h
  · rw [h]; rfl
  · rfl

/-- a connection changes, but not its place -/
theorem serialAt_put {p : ℕ} {o : ConnObject} (o' : ConnObject) (ho : heap p = some o) (hs : o'.serial = o.serial) :
    serialAt (Function.update heap p (some o')) sockets = serialAt heap sockets := by
  funext fd
  refine congrArg (Option.bind (connAt sockets fd)) (funext fun q => ?_)
  rw [Function.update_apply]
  split_ifs with hq
  · rw [hq, ho, Option.map_some, Option.map_some, hs]
  · rfl

/-- a connection is allocated and entered -/
theorem serialAt_insert {fd p : ℕ} (o : ConnObject) (hlive : ∀ fd q, connAt sockets fd = some q → q ≠ p) :
    serialAt (Function.update heap p (some o)) (Function.update sockets fd (some (some p))) =
      Function.update (serialAt heap sockets) fd (some o.serial) := by
  funext fd'
  rw [serialAt, connAt_update, Function.update_apply (serialAt heap sockets)]
  split_ifs with h
  · simp
  · cases hc : connAt sockets fd' with
    | none => simp [serialAt, hc]
    | some q => simp [serialAt, hc, Function.update_of_ne (hlive fd' q hc)]

theorem serialAt_erase (fd : ℕ) :
    serialAt heap (Function.update sockets fd none) = Function.update (serialAt heap sockets) fd none := by
  funext fd'
  rw [serialAt, connAt_update, Function.update_apply (serialAt heap sockets)]
  split_ifs <;> rfl

/-- a connection that is not in the table is deleted -/
theorem serialAt_delete {p : ℕ} (hp : ∀ fd, connAt sockets fd ≠ some p) :
    serialAt (Function.update heap p none) sockets = serialAt heap sockets := by
  funext fd
  cases hc : connAt sockets fd with
  | none => simp [serialAt, hc]
  | some q =>
    have hq : q ≠ p := fun heq => hp fd (heq ▸ hc)
    simp [serialAt, hc, Function.update_of_ne hq]

theorem serialAt_of_conn {fd p : ℕ} {o : ConnObject} (hp : connAt sockets fd = some p) (ho : heap p = some o) :
    serialAt heap sockets fd = some o.serial := by
  rw [serialAt, hp, Option.bind_some, ho, Option.map_some]

variable {callbacks : List Callback} {accepted : ℕ} {reported : List ℕ} {phase : Option ℕ → Phase}

/-- `Following.accept`, in the tables -/
theorem Following.acceptAt (h : Following (serialAt heap sockets) callbacks accepted reported phase) (fd : ℕ) {p : ℕ}
    (conn : ClientConnection) (hlive : ∀ fd q, connAt sockets fd = some q → q ≠ p) :
    Following (serialAt (Function.update heap p (some ⟨conn, accepted⟩)) (Function.update sockets fd (some (some p))))
      (callbacks ++ [connectedCallback (some accepted)]) (accepted + 1) reported
      (Function.update phase (some accepted) .live) := by
  rw [serialAt_insert ⟨conn, accepted⟩ hlive]
  exact h.accept fd

/-- `Following.data`, in the tables; the connection changes -/
theorem Following.dataAt (h : Following (serialAt heap sockets) callbacks accepted reported phase) {fd p : ℕ}
    {o : ConnObject} (hp : connAt sockets fd = some p) (ho : heap p = some o) (conn : ClientConnection)
    (bufs : List Bytes) :
    Following (serialAt (Function.update heap p (some { o with conn })) sockets)
      (callbacks ++ dataCallbacks (some o.serial) bufs) accepted reported phase := by
  rw [serialAt_put { o with conn } ho rfl]
  exact h.data (serialAt_of_conn hp ho) bufs

/-- `Following.disconnect`, in the tables -/
theorem Following.disconnectAt (h : Following (serialAt heap sockets) callbacks accepted reported phase) {fd p : ℕ}
    {o : ConnObject} (hp : connAt sockets fd = some p) (ho : heap p = some o) :
    Following (serialAt heap (Function.update sockets fd none)) (callbacks ++ [disconnectedCallback (some o.serial)])
      accepted (reported ++ [o.serial]) (Function.update phase (some o.serial) .done) := by
  rw [serialAt_erase]
  exact h.disconnect (serialAt_of_conn hp ho)

end Table

end NetFramework
