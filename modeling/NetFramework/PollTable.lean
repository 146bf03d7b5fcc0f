/-
The tables of the poll loop: `pollfds`, `clientSockets` and `writingSockets`.

- `poll_tables`: in every state `pollfds` has the listening socket and the descriptor of every connection ever accepted,
  each once, so it only grows; `clientSockets` and the connections in memory agree, up to the connection that is being
  disconnected. `writingSockets` has only connections of `clientSockets` as long as every `sendData` call finds its
  connection there when it enters it; the first that does not is made for the connection that is being disconnected.
- `goodbye_queued`: a Disconnected callback that sends; the connection is in `writingSockets` when it is deleted, and the
  loop uses it the next time it sends.
-/
import NetFramework.Library.Product
import NetFramework.PollServer

namespace NetFramework
namespace PollServer

open Transition

/-! ## Consistency -/

/-- the descriptor of the connection at `p`, if there is one -/
def fdAt (s : PollServer) (p : ℕ) : Option ℕ := (s.heap p).map (·.conn._fd)

/-- the descriptors that `WSAPoll` is asked about are the listening socket and those of all connections accepted so far;
the table and the memory have the same connections, but for the one in its Disconnected callback -/
structure TablesAgree (listenSocket : ℕ) (s : PollServer) : Prop where
  asked : ∃ fds, s.pollfds.map PollFd.fd = listenSocket :: fds ∧ fds.length = s.accepted ∧ (listenSocket :: fds).Nodup
  live : ∀ fd p, s.conn fd = some p →
    fd ∈ s.pollfds.map PollFd.fd ∧ fd ≠ listenSocket ∧ ∃ o, s.heap p = some o ∧ o.conn._fd = fd
  memory : ∀ p o, s.heap p = some o → s.conn o.conn._fd = some p ∨ ∃ i, s.pc = .disconnecting i (some p)

/-- the descriptor of the connection that a step accepts -/
def acceptedFd (s : PollServer) : Op → List ℕ
  | .incoming (some fd) _ _ => if s.pollfds.head?.any (·.revents.rdnorm) then [fd] else []
  | _ => []

/-- a `sendData` call that enters its connection in `writingSockets` finds it in `clientSockets` -/
def Registered (s : PollServer) : Op → Prop
  | .enter p => s.conn (s.fdOf p) = some p
  | _ => True

instance (s : PollServer) (o : Op) : Decidable (Registered s o) := by
  unfold Registered; split <;> infer_instance

/-- every connection in `writingSockets` is in `clientSockets` -/
def WritersListed (s : PollServer) : Prop := ∀ p ∈ s.writingSockets, ∃ fd, s.conn fd = some p

/-- the connection in the Disconnected callback is in `writingSockets` -/
def QueuedWhileLeaving (s : PollServer) : Prop := ∃ i p, s.pc = .disconnecting i (some p) ∧ p ∈ s.writingSockets

/-- what holds in every state of the loop -/
structure Kept (listenSocket : ℕ) (s : PollServer) : Prop where
  key : ∀ fd p, s.conn fd = some p → s.fdAt p = some fd
  owned : ∀ fd p, s.fdAt p = some fd → s.conn fd = some p ∨ ∃ i, s.pc = .disconnecting i (some p)
  leaving : ∀ i p, s.pc = .disconnecting i (some p) → ∃ fd, s.fdAt p = some fd ∧ s.conn fd = none
  entries : ∀ fd, s.conn fd ≠ none → fd ∈ s.pollfds.map PollFd.fd ∧ fd ≠ listenSocket
  asked : ∃ fds, s.pollfds.map PollFd.fd = listenSocket :: fds ∧ fds.length = s.accepted ∧ (listenSocket :: fds).Nodup
  entering : ∀ p ∈ s.entering, s.fdAt p ≠ none

section Steps

variable {complete : Bytes → Bool} {listenSocket : ℕ} {s s' : PollServer}

theorem Kept.agree (h : Kept listenSocket s) : TablesAgree listenSocket s := by
  refine ⟨h.asked, ?_, ?_⟩
  · intro fd p hp
    obtain ⟨hmem, hne⟩ := h.entries fd (by rw [hp]; simp)
    exact ⟨hmem, hne, Option.map_eq_some_iff.1 (h.key fd p hp)⟩
  · intro p o ho
    exact h.owned o.conn._fd p (by rw [fdAt, ho]; rfl)

/-! ## What the steps do to the tables -/

theorem conn_update {fd : ℕ} (v : Option (Option ℕ)) (h : s'.clientSockets = Function.update s.clientSockets fd v)
    (fd' : ℕ) : s'.conn fd' = if fd' = fd then v.join else s.conn fd' := by
  rw [conn, h]
  exact connAt_update fd v fd'

theorem conn_touch (s : PollServer) (fd fd' : ℕ) : (s.touch fd).conn fd' = s.conn fd' := by
  rw [conn_update (some (s.conn fd)) rfl]
  split_ifs with h
  · rw [h]; rfl
  · rfl

theorem fdAt_update {p : ℕ} (o : Option ConnObject) (h : s'.heap = Function.update s.heap p o) (q : ℕ) :
    s'.fdAt q = if q = p then o.map (·.conn._fd) else s.fdAt q := by
  rw [fdAt, h, Function.update_apply]
  split_ifs <;> rfl

theorem put_fdAt {p : ℕ} {o o' : ConnObject} (ho : s.heap p = some o) (hfd : o'.conn._fd = o.conn._fd) (q : ℕ) :
    (s.put p o').fdAt q = s.fdAt q := by
  rw [fdAt_update (some o') rfl]
  split_ifs with hq
  · rw [hq, fdAt, ho, Option.map_some, Option.map_some, hfd]
  · rfl

/-- `WSAPoll` sets flags, but no descriptors -/
theorem poll_fds {revents : Option (List Revents)} (h : step complete s (.poll revents) = some s') :
    s.pc = .head ∧ s'.heap = s.heap ∧ s'.clientSockets = s.clientSockets ∧ s'.writingSockets = s.writingSockets ∧
      s'.entering = s.entering ∧ s'.accepted = s.accepted ∧ (s'.pc = .returned ∨ s'.pc = .incoming) ∧
      s'.pollfds.map PollFd.fd = s.pollfds.map PollFd.fd := by
  simp only [step] at h
  split at h
  · rename_i hpc
    cases revents with
    | none => cases h; exact ⟨hpc, rfl, rfl, rfl, rfl, rfl, Or.inl rfl, rfl⟩
    | some revents =>
      simp only [pollReturns] at h
      split_ifs at h with hlen
      cases h
      refine ⟨hpc, rfl, rfl, rfl, rfl, rfl, Or.inr rfl, ?_⟩
      have hzip : ∀ (fs : List PollFd) (rs : List Revents), rs.length = fs.length →
          (fs.zipWith (fun f r => { f with revents := r, hungUp := f.hungUp || r.hup }) rs).map PollFd.fd =
            fs.map PollFd.fd := by
        intro fs
        induction fs with
        | nil => intro rs _; rfl
        | cons f fs ih =>
          intro rs hrs
          cases rs with
          | nil => cases hrs
          | cons r rs => exact congrArg (f.fd :: ·) (ih rs (Nat.succ.inj hrs))
      exact hzip s.pollfds revents hlen.1
  · cases h

/-- a connection is accepted on a descriptor that has not been in use before -/
theorem incoming_fresh {asock : Option ℕ} {p : ℕ} {revents : Revents}
    (h : step complete s (.incoming asock p revents) = some s') :
    s.pc = .incoming ∧ (s' = { s with pc := .service 0 } ∨ s' = { s with pc := .returned } ∨
      ∃ fd, fd ∉ s.pollfds.map PollFd.fd ∧ s.heap p = none ∧
        s' = { s.put p ⟨.new fd, s.accepted⟩ with
          clientSockets := Function.update s.clientSockets fd (some (some p))
          pollfds := s.pollfds ++ [⟨fd, revents, false⟩]
          accepted := s.accepted + 1
          callbacks := s.callbacks ++ [connectedCallback (some s.accepted)]
          pc := .service 0 }) := by
  simp only [step] at h
  split at h
  · rename_i listening entries hpc _
    refine ⟨hpc, ?_⟩
    split_ifs at h
    · simp only [acceptReturns] at h
      split at h
      · exact Or.inr (Or.inl (Option.some.inj h).symm)
      · rename_i fd
        split_ifs at h with hfd
        exact Or.inr (Or.inr ⟨fd, hfd.1, hfd.2, (Option.some.inj h).symm⟩)
    · exact Or.inl (Option.some.inj h).symm
  · cases h

theorem callbackDone_left (h : step complete s .callbackDone = some s') :
    ∃ i, (s.pc = .disconnecting i none ∧ s' = { s with pc := .service (i + 1) }) ∨
      ∃ p, s.pc = .disconnecting i (some p) ∧ p ∉ s.entering ∧
        s' = { s with heap := Function.update s.heap p none, pc := .service (i + 1) } := by
  simp only [step] at h
  split at h
  · rename_i i hpc
    exact ⟨i, Or.inl ⟨hpc, (Option.some.inj h).symm⟩⟩
  · rename_i i p hpc
    split_ifs at h with hp
    exact ⟨i, Or.inr ⟨p, hpc, hp, (Option.some.inj h).symm⟩⟩
  · cases h

theorem pass_next (h : step complete s .pass = some s') :
    (∃ i, s.pc = .service i ∧ ((s' = { s with pc := .flush }) ∨ (∃ fd, s' = { s.touch fd with pc := .service (i + 1) }) ∨
      s' = { s with pc := .service (i + 1) })) ∨ (s.pc = .writing [] ∧ s' = { s with pc := .head }) := by
  simp only [step] at h
  split at h
  · rename_i i hpc
    refine Or.inl ⟨i, hpc, ?_⟩
    split at h
    · exact Or.inl (Option.some.inj h).symm
    · rename_i f hf
      split_ifs at h
      · split at h
        · exact Or.inr (Or.inl ⟨f.fd, (Option.some.inj h).symm⟩)
        · cases h
      · exact Or.inr (Or.inr (Option.some.inj h).symm)
  · rename_i hpc
    exact Or.inr ⟨hpc, (Option.some.inj h).symm⟩
  · cases h

theorem flush_ready {ready : Option (List ℕ)} (h : step complete s (.flush ready) = some s') :
    s.pc = .flush ∧ ((ready = none ∧ s' = { s with writingSockets := ∅, pc := .returned }) ∨
      ∃ fds, ready = some fds ∧ s' = { s with writingSockets := ∅, pc := .writing fds }) := by
  simp only [step] at h
  split at h
  · rename_i hpc
    refine ⟨hpc, ?_⟩
    split_ifs at h
    cases ready with
    | none =>
      simp only [flushReturns] at h
      split_ifs at h
      exact Or.inl ⟨rfl, (Option.some.inj h).symm⟩
    | some fds =>
      simp only [flushReturns] at h
      split_ifs at h
      exact Or.inr ⟨fds, rfl, (Option.some.inj h).symm⟩
  · cases h

theorem write_next (h : step complete s .write = some s') :
    ∃ fd fds, s.pc = .writing (fd :: fds) ∧ ((s.conn fd = none ∧ s' = { s.touch fd with pc := .writing fds }) ∨
      ∃ p o, s.conn fd = some p ∧ s.heap p = some o ∧
        s' = { s.put p { o with conn := o.conn.swapDataToSend.1 } with pc := .writing fds }) := by
  simp only [step] at h
  split at h
  · rename_i fd fds hpc
    refine ⟨fd, fds, hpc, ?_⟩
    split at h
    · rename_i hnone
      exact Or.inl ⟨hnone, (Option.some.inj h).symm⟩
    · rename_i p hp
      split at h
      · cases h
      · rename_i o ho
        exact Or.inr ⟨p, o, hp, ho, (Option.some.inj h).symm⟩
  · cases h

theorem enter_entering {p : ℕ} (h : step complete s (.enter p) = some s') :
    p ∈ s.entering ∧
      s' = { s with entering := s.entering.erase p, writingSockets := insert p s.writingSockets } := by
  simp only [step] at h
  split_ifs at h with hp
  exact ⟨hp, (Option.some.inj h).symm⟩

/-! ## `Kept` -/

/-- a step that leaves the descriptors, the tables and the Disconnected callback alone -/
theorem Kept.frame (h : Kept listenSocket s) (hfd : ∀ p, s'.fdAt p = s.fdAt p) (hconn : ∀ fd, s'.conn fd = s.conn fd)
    (hfds : s'.pollfds.map PollFd.fd = s.pollfds.map PollFd.fd) (haccepted : s'.accepted = s.accepted)
    (hpc : ∀ i p, s'.pc = .disconnecting i (some p) ↔ s.pc = .disconnecting i (some p))
    (hentering : ∀ p ∈ s'.entering, s.fdAt p ≠ none) : Kept listenSocket s' where
  key fd p hp := by rw [hfd]; exact h.key fd p (hconn fd ▸ hp)
  owned fd p hp := by simp only [hconn, hpc]; exact h.owned fd p (hfd p ▸ hp)
  leaving i p hp := by simp only [hfd, hconn]; exact h.leaving i p ((hpc i p).1 hp)
  entries fd hne := by rw [hfds]; exact h.entries fd (hconn fd ▸ hne)
  asked := by rw [hfds, haccepted]; exact h.asked
  entering p hp := by rw [hfd]; exact hentering p hp

/-- a step of the poll thread that leaves the tables alone, neither from nor to a Disconnected callback -/
theorem Kept.move (h : Kept listenSocket s) (hfd : ∀ p, s'.fdAt p = s.fdAt p) (hconn : ∀ fd, s'.conn fd = s.conn fd)
    (hfds : s'.pollfds.map PollFd.fd = s.pollfds.map PollFd.fd) (haccepted : s'.accepted = s.accepted)
    (hentering : s'.entering = s.entering) (hpc : ∀ i p, s.pc ≠ .disconnecting i (some p))
    (hpc' : ∀ i p, s'.pc ≠ .disconnecting i (some p)) : Kept listenSocket s' := by
  refine h.frame hfd hconn hfds haccepted ?_ ?_
  · intro i p
    exact ⟨fun hp => absurd hp (hpc' i p), fun hp => absurd hp (hpc i p)⟩
  · intro p hp
    exact h.entering p (hentering ▸ hp)

/-- a connection is entered under a descriptor that is asked about for the first time -/
theorem Kept.enrol (h : Kept listenSocket s) {fd p : ℕ} (hpc : ∀ i p, s.pc ≠ .disconnecting i (some p))
    (hfresh : fd ∉ s.pollfds.map PollFd.fd) (hfree : s.fdAt p = none)
    (hfdAt : ∀ q, s'.fdAt q = if q = p then some fd else s.fdAt q)
    (hconn : ∀ fd', s'.conn fd' = if fd' = fd then some p else s.conn fd')
    (hfds : s'.pollfds.map PollFd.fd = s.pollfds.map PollFd.fd ++ [fd]) (haccepted : s'.accepted = s.accepted + 1)
    (hpc' : ∀ i p, s'.pc ≠ .disconnecting i (some p)) (hentering : s'.entering = s.entering) :
    Kept listenSocket s' := by
  have hnone : s.conn fd = none := by
    by_contra hne
    exact hfresh (h.entries fd hne).1
  obtain ⟨fds, hlist, hlen, hnodup⟩ := h.asked
  refine ⟨?_, ?_, ?_, ?_, ?_, ?_⟩
  · intro fd' q hq
    rw [hconn] at hq
    rw [hfdAt]
    split_ifs at hq with hfd'
    · rw [if_pos (Option.some.inj hq).symm, hfd']
    · have hq' := h.key fd' q hq
      rw [if_neg, hq']
      rintro rfl
      rw [hfree] at hq'
      cases hq'
  · intro fd' q hq
    rw [hfdAt] at hq
    rw [hconn]
    split_ifs at hq with hqp
    · exact Or.inl (by rw [if_pos (Option.some.inj hq).symm, hqp])
    · rcases h.owned fd' q hq with hown | ⟨i, hleave⟩
      · have hne : fd' ≠ fd := by
          rintro rfl
          rw [hnone] at hown
          cases hown
        exact Or.inl (by rw [if_neg hne, hown])
      · exact absurd hleave (hpc i q)
  · intro i q hq
    exact absurd hq (hpc' i q)
  · intro fd' hne
    rw [hconn] at hne
    rw [hfds, List.mem_append, List.mem_singleton]
    split_ifs at hne with hfd'
    · refine ⟨Or.inr hfd', ?_⟩
      rintro rfl
      exact hfresh (by rw [hlist, ← hfd']; exact List.mem_cons_self)
    · exact ⟨Or.inl (h.entries fd' hne).1, (h.entries fd' hne).2⟩
  · refine ⟨fds ++ [fd], by rw [hfds, hlist, List.cons_append], by simp [haccepted, hlen], ?_⟩
    rw [← List.cons_append]
    refine List.nodup_append.2 ⟨hnodup, List.nodup_singleton fd, ?_⟩
    rintro a ha b hb rfl
    obtain rfl : a = fd := List.mem_singleton.1 hb
    exact hfresh (hlist ▸ ha)
  · intro q hq
    rw [hentering] at hq
    rw [hfdAt]
    split_ifs
    · simp
    · exact h.entering q hq

/-- a connection is taken out of the table, and its Disconnected callback begins; its descriptor is still asked about -/
theorem Kept.dismiss (h : Kept listenSocket s) {i fd : ℕ} (hpc : ∀ i p, s.pc ≠ .disconnecting i (some p))
    (hfdAt : ∀ q, s'.fdAt q = s.fdAt q) (hconn : ∀ fd', s'.conn fd' = if fd' = fd then none else s.conn fd')
    (hfds : s'.pollfds = s.pollfds) (haccepted : s'.accepted = s.accepted) (hpc' : s'.pc = .disconnecting i (s.conn fd))
    (hentering : s'.entering = s.entering) : Kept listenSocket s' := by
  refine ⟨?_, ?_, ?_, ?_, by rw [hfds, haccepted]; exact h.asked, ?_⟩
  · intro fd' q hq
    rw [hconn] at hq
    split_ifs at hq
    rw [hfdAt]
    exact h.key fd' q hq
  · intro fd' q hq
    rw [hfdAt] at hq
    rw [hconn, hpc']
    have hown := (h.owned fd' q hq).resolve_right fun ⟨j, hleave⟩ => hpc j q hleave
    by_cases hfd : fd' = fd
    · exact Or.inr ⟨i, by rw [← hfd, hown]⟩
    · exact Or.inl (by rw [if_neg hfd, hown])
  · intro j q hq
    rw [hpc'] at hq
    obtain ⟨-, hq⟩ := Pc.disconnecting.inj hq
    exact ⟨fd, by rw [hfdAt, h.key fd q hq], by rw [hconn, if_pos rfl]⟩
  · intro fd' hne
    rw [hconn] at hne
    rw [hfds]
    split_ifs at hne
    · exact absurd rfl hne
    · exact h.entries fd' hne
  · intro q hq
    rw [hentering] at hq
    rw [hfdAt]
    exact h.entering q hq

/-- a connection whose callback has returned is deleted -/
theorem Kept.remove (h : Kept listenSocket s) {i p : ℕ} (hpc : s.pc = .disconnecting i (some p)) (hp : p ∉ s.entering)
    (hfdAt : ∀ q, s'.fdAt q = if q = p then none else s.fdAt q) (hconn : ∀ fd, s'.conn fd = s.conn fd)
    (hfds : s'.pollfds = s.pollfds) (haccepted : s'.accepted = s.accepted)
    (hpc' : ∀ i p, s'.pc ≠ .disconnecting i (some p)) (hentering : s'.entering = s.entering) :
    Kept listenSocket s' := by
  obtain ⟨fd, hfd, hnone⟩ := h.leaving i p hpc
  refine ⟨?_, ?_, ?_, ?_, by rw [hfds, haccepted]; exact h.asked, ?_⟩
  · intro fd' q hq
    rw [hconn] at hq
    have hq' := h.key fd' q hq
    rw [hfdAt, if_neg, hq']
    -- `p` is not in the table: its own descriptor has no connection
    rintro rfl
    rw [hfd] at hq'
    obtain rfl : fd = fd' := Option.some.inj hq'
    rw [hnone] at hq
    cases hq
  · intro fd' q hq
    rw [hfdAt] at hq
    split_ifs at hq with hqp
    rw [hconn]
    rcases h.owned fd' q hq with hown | ⟨j, hleave⟩
    · exact Or.inl hown
    · rw [hpc] at hleave
      cases hleave
      exact absurd rfl hqp
  · intro j q hq
    exact absurd hq (hpc' j q)
  · intro fd' hne
    rw [hconn] at hne
    rw [hfds]
    exact h.entries fd' hne
  · intro q hq
    rw [hentering] at hq
    rw [hfdAt, if_neg fun hqp => hp (by rw [← hqp]; exact hq)]
    exact h.entering q hq

theorem Kept.incoming (h : Kept listenSocket s) {asock : Option ℕ} {p : ℕ} {revents : Revents}
    (hs : step complete s (.incoming asock p revents) = some s') : Kept listenSocket s' := by
  obtain ⟨hpc, rfl | rfl | ⟨fd, hfresh, hfree, rfl⟩⟩ := incoming_fresh hs
  · exact h.move (fun _ => rfl) (fun _ => rfl) rfl rfl rfl (by simp [hpc]) (by simp)
  · exact h.move (fun _ => rfl) (fun _ => rfl) rfl rfl rfl (by simp [hpc]) (by simp)
  · exact h.enrol (by simp [hpc]) hfresh (by rw [fdAt, hfree]; rfl) (fdAt_update (some ⟨.new fd, s.accepted⟩) rfl)
      (conn_update (some (some p)) rfl) (by simp) rfl (by simp) rfl

theorem Kept.recv (h : Kept listenSocket s) {result : RecvResult} (hs : step complete s (.recv result) = some s') :
    Kept listenSocket s' := by
  obtain ⟨i, fd, p, o, hpc, -, ho, rfl⟩ := step_recv hs
  rcases receive_cases complete s i p o result with ⟨-, heq⟩ | ⟨-, heq⟩ | ⟨-, -, receivedData, bufs, heq⟩
  · rw [heq]
    exact h.move (fun _ => rfl) (fun _ => rfl) rfl rfl rfl (by simp [hpc]) (by simp)
  · rw [heq]
    exact h.move (fun _ => rfl) (fun _ => rfl) rfl rfl rfl (by simp [hpc]) (by simp)
  · rw [heq]
    exact h.move (put_fdAt ho rfl) (fun _ => rfl) rfl rfl rfl (by simp [hpc]) (by simp)

theorem Kept.hangUp (h : Kept listenSocket s) (hs : step complete s .hangUp = some s') : Kept listenSocket s' := by
  obtain ⟨i, f, hpc, -, ⟨-, rfl⟩ | ⟨p, o, -, -, rfl⟩⟩ := step_hangUp hs
  · exact h.dismiss (by simp [hpc]) (fun _ => rfl) (conn_update none rfl) rfl rfl rfl rfl
  · exact h.dismiss (by simp [hpc]) (fun _ => rfl) (conn_update none rfl) rfl rfl rfl rfl

theorem Kept.callbackDone (h : Kept listenSocket s) (hs : step complete s .callbackDone = some s') :
    Kept listenSocket s' := by
  obtain ⟨i, ⟨hpc, rfl⟩ | ⟨p, hpc, hp, rfl⟩⟩ := callbackDone_left hs
  · exact h.move (fun _ => rfl) (fun _ => rfl) rfl rfl rfl (by simp [hpc]) (by simp)
  · exact h.remove hpc hp (fdAt_update none rfl) (fun _ => rfl) rfl rfl (by simp) rfl

/-- **The tables.** Every step keeps them. -/
theorem step_kept {o : Op} (h : Kept listenSocket s) (hs : step complete s o = some s') : Kept listenSocket s' := by
  cases o with
  | append p data =>
    obtain ⟨o, ho, rfl⟩ := step_append hs
    refine h.frame (put_fdAt ho rfl) (fun _ => rfl) rfl rfl (fun _ _ => Iff.rfl) ?_
    intro q hq
    rcases List.mem_cons.1 hq with rfl | hq
    · rw [fdAt, ho]; simp
    · exact h.entering q hq
  | enter p =>
    obtain ⟨-, rfl⟩ := enter_entering hs
    exact h.frame (fun _ => rfl) (fun _ => rfl) rfl rfl (fun _ _ => Iff.rfl)
      (fun q hq => h.entering q (List.mem_of_mem_erase hq))
  | poll revents =>
    obtain ⟨hpc, hheap, hsockets, -, hentering, haccepted, hpc', hfds⟩ := poll_fds hs
    refine h.move (fun p => by rw [fdAt, fdAt, hheap]) (fun fd => by rw [conn, conn, hsockets]) hfds haccepted hentering
      (by simp [hpc]) ?_
    intro i p
    rcases hpc' with hpc' | hpc' <;> simp [hpc']
  | incoming asock p revents => exact h.incoming hs
  | recv result => exact h.recv hs
  | hangUp => exact h.hangUp hs
  | callbackDone => exact h.callbackDone hs
  | pass =>
    rcases pass_next hs with ⟨i, hpc, rfl | ⟨fd, rfl⟩ | rfl⟩ | ⟨hpc, rfl⟩
    · exact h.move (fun _ => rfl) (fun _ => rfl) rfl rfl rfl (by simp [hpc]) (by simp)
    · exact h.move (fun _ => rfl) (conn_touch s fd) rfl rfl rfl (by simp [hpc]) (by simp)
    · exact h.move (fun _ => rfl) (fun _ => rfl) rfl rfl rfl (by simp [hpc]) (by simp)
    · exact h.move (fun _ => rfl) (fun _ => rfl) rfl rfl rfl (by simp [hpc]) (by simp)
  | flush ready =>
    obtain ⟨hpc, ⟨-, rfl⟩ | ⟨fds, -, rfl⟩⟩ := flush_ready hs
    · exact h.move (fun _ => rfl) (fun _ => rfl) rfl rfl rfl (by simp [hpc]) (by simp)
    · exact h.move (fun _ => rfl) (fun _ => rfl) rfl rfl rfl (by simp [hpc]) (by simp)
  | write =>
    obtain ⟨fd, fds, hpc, ⟨-, rfl⟩ | ⟨p, o, -, ho, rfl⟩⟩ := write_next hs
    · exact h.move (fun _ => rfl) (conn_touch s fd) rfl rfl rfl (by simp [hpc]) (by simp)
    · exact h.move (put_fdAt ho rfl) (fun _ => rfl) rfl rfl rfl (by simp [hpc]) (by simp)

theorem kept_start (listenSocket : ℕ) : Kept listenSocket (.start listenSocket) := by
  refine ⟨?_, ?_, ?_, ?_, ⟨[], rfl, rfl, List.nodup_singleton listenSocket⟩, ?_⟩
  · intro fd p hp
    cases hp
  · intro fd p hp
    cases hp
  · intro i p hp
    cases hp
  · intro fd hne
    exact absurd rfl hne
  · intro p hp
    cases hp

/-! ## `pollfds` -/

theorem incoming_fds {asock : Option ℕ} {p : ℕ} {revents : Revents}
    (h : step complete s (.incoming asock p revents) = some s') :
    s'.pollfds.map PollFd.fd = s.pollfds.map PollFd.fd ++ s.acceptedFd (.incoming asock p revents) := by
  simp only [step] at h
  split at h
  · rename_i listening entries _ hfds
    have hhead : s.pollfds.head?.any (·.revents.rdnorm) = listening.revents.rdnorm := by rw [hfds]; rfl
    split_ifs at h with hready
    · simp only [acceptReturns] at h
      split at h
      · obtain rfl := Option.some.inj h
        exact (List.append_nil _).symm
      · split_ifs at h
        obtain rfl := Option.some.inj h
        simp only [acceptedFd, hhead, hready, if_true, List.map_append, List.map_singleton]
    · obtain rfl := Option.some.inj h
      have hnone : s.acceptedFd (.incoming asock p revents) = [] := by
        cases asock with
        | none => rfl
        | some fd => rw [acceptedFd, hhead, if_neg hready]
      rw [hnone, List.append_nil]
  · cases h

/-- only an accept adds a descriptor to `pollfds`, its own, and nothing takes one away -/
theorem step_fds {o : Op} (hs : step complete s o = some s') :
    s'.pollfds.map PollFd.fd = s.pollfds.map PollFd.fd ++ s.acceptedFd o := by
  cases o with
  | incoming asock p revents => exact incoming_fds hs
  | append p data =>
    obtain ⟨o, -, rfl⟩ := step_append hs
    exact (List.append_nil _).symm
  | enter p =>
    rw [step_enter hs]
    exact (List.append_nil _).symm
  | poll revents =>
    obtain ⟨-, -, -, -, -, -, -, hfds⟩ := poll_fds hs
    rw [hfds]
    exact (List.append_nil _).symm
  | recv result =>
    obtain ⟨i, fd, p, o, -, -, -, rfl⟩ := step_recv hs
    rcases receive_cases complete s i p o result with ⟨-, heq⟩ | ⟨-, heq⟩ | ⟨-, -, receivedData, bufs, heq⟩ <;>
      (rw [heq]; exact (List.append_nil _).symm)
  | hangUp =>
    obtain ⟨i, f, -, -, ⟨-, rfl⟩ | ⟨p, o, -, -, rfl⟩⟩ := step_hangUp hs <;> exact (List.append_nil _).symm
  | callbackDone =>
    obtain ⟨i, rfl | ⟨p, -, rfl⟩⟩ := step_callbackDone hs <;> exact (List.append_nil _).symm
  | pass =>
    obtain ⟨pc, -, -, rfl | ⟨fd, rfl⟩⟩ := step_pass hs <;> exact (List.append_nil _).symm
  | flush ready =>
    obtain ⟨pc, -, -, rfl⟩ := step_flush hs
    exact (List.append_nil _).symm
  | write =>
    obtain ⟨fds, ⟨fd, rfl⟩ | ⟨p, o, -, rfl⟩⟩ := step_write hs <;> exact (List.append_nil _).symm

/-- the descriptors in `pollfds` are the listening socket and those of all connections ever accepted, in order -/
theorem run_fds {ops : List Op} {fin : PollServer} (h : run (step complete) (.start listenSocket) ops = some fin) :
    fin.pollfds.map PollFd.fd = listenSocket :: shown (step complete) acceptedFd (.start listenSocket) ops := by
  have hstep : ∀ (seen : List ℕ) (s : PollServer) o s', s.pollfds.map PollFd.fd = listenSocket :: seen →
      step complete s o = some s' → s'.pollfds.map PollFd.fd = listenSocket :: (seen ++ s.acceptedFd o) := by
    intro seen s o s' hseen hs
    rw [step_fds hs, hseen, List.cons_append]
  have hstart : (start listenSocket : PollServer).pollfds.map PollFd.fd = listenSocket :: ([] : List ℕ) := rfl
  exact run_inv_shown hstep hstart h

/-! ## `writingSockets` -/

/-- nothing is entered in `writingSockets`, and `clientSockets` stays as it is -/
theorem WritersListed.frame (h : WritersListed s) (hsub : s'.writingSockets ⊆ s.writingSockets)
    (hconn : ∀ fd, s'.conn fd = s.conn fd) : WritersListed s' := by
  intro q hq
  obtain ⟨fd, hfd⟩ := h q (hsub hq)
  exact ⟨fd, (hconn fd).trans hfd⟩

theorem incoming_writers {asock : Option ℕ} {p : ℕ} {revents : Revents} (h : Kept listenSocket s)
    (hw : WritersListed s) (hs : step complete s (.incoming asock p revents) = some s') : WritersListed s' := by
  obtain ⟨-, rfl | rfl | ⟨fd, hfresh, -, rfl⟩⟩ := incoming_fresh hs
  · exact hw
  · exact hw
  · intro q hq
    obtain ⟨fd', hfd'⟩ := hw q hq
    -- the new descriptor is not asked about yet, so it is not that of `q`
    have hne : fd' ≠ fd := by
      rintro rfl
      exact hfresh (h.entries fd' (by rw [hfd']; simp)).1
    refine ⟨fd', ?_⟩
    calc _ = if fd' = fd then some p else s.conn fd' := conn_update (some (some p)) rfl fd'
      _ = s.conn fd' := if_neg hne
      _ = some q := hfd'

theorem hangUp_writers (hw : WritersListed s) (hs : step complete s .hangUp = some s') :
    WritersListed s' := by
  obtain ⟨i, f, -, -, hcases⟩ := step_hangUp hs
  have hothers : ∀ serial q, q ∈ (s.disconnect i f.fd serial).writingSockets → s.conn f.fd ≠ some q →
      ∃ fd, (s.disconnect i f.fd serial).conn fd = some q := by
    intro serial q hq hne
    have hq' : q ∈ s.writingSockets := by
      simp only [disconnect] at hq
      split at hq
      · exact hq
      · exact Finset.mem_of_mem_erase hq
    obtain ⟨fd, hfd⟩ := hw q hq'
    have hfi : fd ≠ f.fd := by
      rintro rfl
      exact hne hfd
    refine ⟨fd, ?_⟩
    calc _ = if fd = f.fd then none else s.conn fd := conn_update none rfl fd
      _ = s.conn fd := if_neg hfi
      _ = some q := hfd
  rcases hcases with ⟨hnone, rfl⟩ | ⟨p, o, hp, -, rfl⟩
  · intro q hq
    exact hothers none q hq (by rw [hnone]; simp)
  · intro q hq
    refine hothers (some o.serial) q hq ?_
    rintro heq
    obtain rfl : p = q := Option.some.inj (hp.symm.trans heq)
    simp [disconnect, hp] at hq

/-- **Writers in a step.** `writingSockets` stays right if a connection that is entered is in `clientSockets`. -/
theorem step_writers {o : Op} (h : Kept listenSocket s) (hw : WritersListed s) (hr : Registered s o)
    (hs : step complete s o = some s') : WritersListed s' := by
  cases o with
  | append p data =>
    obtain ⟨o, -, rfl⟩ := step_append hs
    exact hw
  | enter p =>
    obtain ⟨-, rfl⟩ := enter_entering hs
    intro q hq
    rcases Finset.mem_insert.1 hq with rfl | hq
    · exact ⟨_, hr⟩
    · exact hw q hq
  | poll revents =>
    obtain ⟨-, -, hsockets, hwriting, -⟩ := poll_fds hs
    exact hw.frame (hwriting ▸ subset_rfl) (fun fd => by rw [conn, conn, hsockets])
  | incoming asock p revents => exact incoming_writers h hw hs
  | recv result =>
    obtain ⟨i, fd, p, o, -, -, -, rfl⟩ := step_recv hs
    rcases receive_cases complete s i p o result with ⟨-, heq⟩ | ⟨-, heq⟩ | ⟨-, -, receivedData, bufs, heq⟩
    · rw [heq]; exact hw
    · rw [heq]; exact hw
    · rw [heq]; exact hw
  | hangUp => exact hangUp_writers hw hs
  | callbackDone =>
    obtain ⟨i, ⟨-, rfl⟩ | ⟨p, -, -, rfl⟩⟩ := callbackDone_left hs
    · exact hw
    · exact hw
  | pass =>
    rcases pass_next hs with ⟨i, -, rfl | ⟨fd, rfl⟩ | rfl⟩ | ⟨-, rfl⟩
    · exact hw
    · exact hw.frame subset_rfl (conn_touch s fd)
    · exact hw
    · exact hw
  | flush ready =>
    obtain ⟨-, ⟨-, rfl⟩ | ⟨fds, -, rfl⟩⟩ := flush_ready hs
    · exact hw.frame (Finset.empty_subset _) (fun _ => rfl)
    · exact hw.frame (Finset.empty_subset _) (fun _ => rfl)
  | write =>
    obtain ⟨fd, fds, -, ⟨-, rfl⟩ | ⟨p, o, -, -, rfl⟩⟩ := write_next hs
    · exact hw.frame subset_rfl (conn_touch s fd)
    · exact hw

/-- a connection that is entered without being in `clientSockets` is the one in its Disconnected callback -/
theorem enter_leaving {o : Op} (h : Kept listenSocket s) (hr : ¬ Registered s o) (hs : step complete s o = some s') :
    QueuedWhileLeaving s' := by
  cases o with
  | enter p =>
    obtain ⟨hp, rfl⟩ := enter_entering hs
    obtain ⟨fd, hfd⟩ := Option.ne_none_iff_exists'.1 (h.entering p hp)
    have hfdOf : s.fdOf p = fd := by rw [fdOf, ← fdAt, hfd]; rfl
    rcases h.owned fd p hfd with hown | ⟨i, hleave⟩
    · exact absurd (by rw [Registered, hfdOf, hown]) hr
    · exact ⟨i, p, hleave, Finset.mem_insert_self p s.writingSockets⟩
  | _ => exact absurd trivial hr

end Steps

/-! ## Runs -/

/-- **The tables of the poll loop.** They agree in every state of every run. `pollfds` has the listening socket and behind
it the descriptors that the accepts of the run have returned, in their order, so each of these is asked about for ever. If
every `sendData` call finds its connection in `clientSockets` when it enters it, `writingSockets` has no others;
in every other run a connection is entered while its Disconnected callback runs, and is then deleted. -/
theorem poll_tables (complete : Bytes → Bool) (listenSocket : ℕ) (ops : List Op) (fin : PollServer)
    (h : run (step complete) (.start listenSocket) ops = some fin) :
    Always (step complete) (TablesAgree listenSocket) (.start listenSocket) ops ∧
      fin.pollfds.map PollFd.fd = listenSocket :: shown (step complete) acceptedFd (.start listenSocket) ops ∧
      (Along (step complete) Registered (.start listenSocket) ops →
        Always (step complete) WritersListed (.start listenSocket) ops) ∧
      (¬ Along (step complete) Registered (.start listenSocket) ops →
        ∃ before s, before <+: ops ∧ run (step complete) (.start listenSocket) before = some s ∧ QueuedWhileLeaving s) := by
  refine ⟨always_inv (fun s hs => hs.agree) (fun s o s' => step_kept) (kept_start listenSocket), run_fds h, ?_⟩
  have hstart : Kept listenSocket (.start listenSocket) ∧ WritersListed (.start listenSocket) :=
    ⟨kept_start listenSocket, fun p hp => absurd hp (Finset.notMem_empty p)⟩
  have hstep : ∀ s o s', Kept listenSocket s ∧ WritersListed s → step complete s o = some s' →
      (Registered s o → Kept listenSocket s' ∧ WritersListed s') ∧ (¬ Registered s o → QueuedWhileLeaving s') :=
    fun s o s' hs hso => ⟨fun hr => ⟨step_kept hs.1 hso, step_writers hs.1 hs.2 hr hso⟩,
      fun hr => enter_leaving hs.1 hr hso⟩
  refine ⟨always_along (fun s hs => hs.2) (fun s o s' hs hr hso => (hstep s o s' hs hso).1 hr) hstart, ?_⟩
  intro hA
  rcases along_or_doomed hstep hstart h with hAlong | ⟨a, b, u, rfl, ha, -, hu⟩
  · exact absurd hAlong hA
  · exact ⟨a, u, ⟨b, rfl⟩, ha, hu⟩

/-- a client connects on descriptor 4, hangs up, and is sent `B` by its Disconnected callback -/
def goodbyeRun : List Op :=
  [.poll (some [⟨true, false⟩]), .incoming (some 4) 0 ⟨false, false⟩, .pass, .pass, .pass, .flush (some []), .pass,
    .poll (some [⟨false, false⟩, ⟨false, true⟩]), .incoming none 0 ⟨false, false⟩, .pass, .hangUp, .append 0 [0x42],
    .enter 0, .callbackDone]

theorem poll_tables_goodbye :
    Always (step fun _ => true) (TablesAgree 3) (.start 3) goodbyeRun ∧
      (∃ fin, run (step fun _ => true) (.start 3) goodbyeRun = some fin ∧ fin.pollfds.map PollFd.fd = [3, 4]) ∧
      ∃ before s, before <+: goodbyeRun ∧ run (step fun _ => true) (.start 3) before = some s ∧ QueuedWhileLeaving s := by
  obtain ⟨fin, hfin⟩ : ∃ fin, run (step fun _ => true) (.start 3) goodbyeRun = some fin := ⟨_, rfl⟩
  have htables := poll_tables (fun _ => true) 3 goodbyeRun fin hfin
  exact ⟨htables.1, ⟨fin, hfin, htables.2.1⟩, htables.2.2.2 (by decide +kernel)⟩

/-- **A dangling writer.** After the callback of `goodbyeRun` the connection is gone and still in `writingSockets`. -/
theorem goodbye_queued : ∃ s, run (step fun _ => true) (.start 3) goodbyeRun = some s ∧
    s.heap 0 = none ∧ s.writingSockets = {0} ∧ ∀ ready, run (step fun _ => true) s [.pass, .flush ready] = none := by
  refine ⟨_, rfl, rfl, rfl, ?_⟩
  intro ready
  rfl

end PollServer
end NetFramework
