/-
The life of a session. The handshake, the chain of reads and the chain of writes run independently of each other, and
each ends with `delete this` when its own operation fails. A failed read deletes the session under an outstanding write,
whose handler then runs on freed memory and deletes it again.

`lifetime_exact`: a run in which every handler has run is safe if and only if each operation that failed was the only
one outstanding at that moment (`FailsAlone`); and under that condition every run is safe, finished or not.
-/
import NetFramework.Connection

namespace NetFramework

open Transition

/-- deleted at most once, and no handler has run on the deleted session -/
def LifeSafe (c : Conn) : Prop := c.deletions ≤ 1 ∧ c.ranDeleted = false

/-- a failing operation is the only one outstanding -/
def FailsAlone (c : Conn) (o : ConnOp) : Prop := o.failed = true → c.outstanding = 1

instance (c : Conn) : Decidable (LifeSafe c) := by unfold LifeSafe; infer_instance
instance (c : Conn) (o : ConnOp) : Decidable (FailsAlone c o) := by unfold FailsAlone; infer_instance

/-! ## What a step does to the life of the session -/

theorem apply_life (c : Conn) (s : SessionImpl) (b : Bytes) :
    (c.apply (s, if b ≠ [] then [.asyncWrite b] else [])).deletions = c.deletions ∧
      (c.apply (s, if b ≠ [] then [.asyncWrite b] else [])).ranDeleted = c.ranDeleted := by
  split_ifs <;> exact ⟨rfl, rfl⟩

/-- a failing operation was outstanding and deletes the session; any other step needs a session that has not been
deleted, and leaves it so -/
theorem connStep_life {c c' : Conn} {o : ConnOp} (h : connStep c o = some c') :
    (o.failed = true ∧ c'.outstanding + 1 = c.outstanding ∧ c'.deletions = c.deletions + 1 ∧
        c'.ranDeleted = (c.ranDeleted || decide (0 < c.deletions))) ∨
      (o.failed = false ∧ c.deletions = 0 ∧ c'.deletions = 0 ∧ c'.ranDeleted = c.ranDeleted) := by
  have hzero : ∀ {error : Bool}, c.MayComplete error → error = false → c.deletions = 0 := fun hmay he => by
    by_contra hd
    exact absurd (hmay (Nat.pos_of_ne_zero hd)) (by simp [he])
  cases o with
  | handshakeDone error =>
    obtain ⟨hpos, hmay, rfl⟩ := connStep_handshake h
    cases error with
    | true =>
      refine Or.inl ⟨rfl, ?_, rfl, rfl⟩
      simp only [Conn.outstanding, Conn.enter, if_true]; omega
    | false =>
      have h0 := hzero hmay rfl
      exact Or.inr ⟨rfl, h0, by simp [h0], by simp [Conn.enter, h0]⟩
  | readDone error chunk pkgSize =>
    obtain ⟨hpos, hmay, s, packets, -, -, rfl⟩ := connStep_read h
    cases error with
    | true =>
      refine Or.inl ⟨rfl, ?_, rfl, rfl⟩
      simp only [Conn.outstanding, Conn.enter, if_true]; omega
    | false =>
      have h0 := hzero hmay rfl
      exact Or.inr ⟨rfl, h0, by simp [h0], by simp [Conn.enter, h0]⟩
  | writeDone error =>
    obtain ⟨b, writes, hw, hmay, rfl⟩ := connStep_write h
    cases error with
    | true =>
      refine Or.inl ⟨rfl, ?_, rfl, rfl⟩
      simp only [Conn.outstanding, Conn.apply, handleWrite_error, List.foldl_cons, List.foldl_nil, Conn.perform,
        Conn.enter, hw, List.length_cons]
      omega
    | false =>
      have h0 := hzero hmay rfl
      rw [handleWrite_ok]
      obtain ⟨hdel, hran⟩ := apply_life { c.enter with writes := writes } _ c.impl.outBuffer_
      exact Or.inr ⟨rfl, h0, hdel.trans h0, hran.trans (by simp [Conn.enter, h0])⟩
  | sendData data =>
    obtain ⟨h0, rfl⟩ := connStep_send h
    refine Or.inr ⟨rfl, h0, ?_⟩
    simp only [SessionImpl.sendData]
    split_ifs
    · rw [handleWrite_ok]
      obtain ⟨hdel, hran⟩ := apply_life { c with sent := c.sent ++ [data] } _ (c.impl.outBuffer_ ++ data)
      exact ⟨hdel.trans h0, hran⟩
    · exact ⟨h0, rfl⟩

/-! ## Invariants -/

/-- alive, or deleted with nothing left outstanding -/
def LifeInv (c : Conn) : Prop :=
  c.ranDeleted = false ∧ (c.deletions = 0 ∨ (c.deletions = 1 ∧ c.outstanding = 0))

/-- deleted, and a handler has run since or is still to run -/
def Doomed (c : Conn) : Prop := 0 < c.deletions ∧ (c.ranDeleted = true ∨ 0 < c.outstanding)

theorem lifeInv_safe {c : Conn} (h : LifeInv c) : LifeSafe c := by
  refine ⟨?_, h.1⟩
  rcases h.2 with h0 | ⟨h1, -⟩ <;> omega

theorem lifeInv_accepted (data : CharArray maxLength) : LifeInv (.accepted data) := ⟨rfl, Or.inl rfl⟩

/-- from a state meeting the invariant a step either meets the guard and keeps the invariant, or dooms the run -/
theorem connStep_lifeInv {c c' : Conn} {o : ConnOp} (hi : LifeInv c) (h : connStep c o = some c') :
    (FailsAlone c o → LifeInv c') ∧ (¬ FailsAlone c o → Doomed c') := by
  rcases connStep_life h with ⟨hf, hout, hdel, hran⟩ | ⟨hf, -, hdel, hran⟩
  · have h0 : c.deletions = 0 := by
      rcases hi.2 with h0 | ⟨-, h1⟩ <;> omega
    refine ⟨fun hG => ⟨by simp [hran, hi.1, h0], Or.inr ⟨by omega, ?_⟩⟩, fun hG => ⟨by omega, Or.inr ?_⟩⟩
    · have := hG hf; omega
    · have : c.outstanding ≠ 1 := fun h1 => hG fun _ => h1
      omega
  · refine ⟨fun _ => ⟨hran.trans hi.1, Or.inl hdel⟩, fun hG => absurd (?_) hG⟩
    intro hf'
    rw [hf] at hf'; cases hf'

theorem connStep_doomed {c c' : Conn} {o : ConnOp} (hd : Doomed c) (h : connStep c o = some c') : Doomed c' := by
  rcases connStep_life h with ⟨-, -, hdel, hran⟩ | ⟨-, h0, -, -⟩
  · exact ⟨by omega, Or.inl (by simp [hran, hd.1])⟩
  · have := hd.1; omega

/-- when nothing is outstanding any more, a doomed run has run a handler on the deleted session -/
theorem doomed_violates {c : Conn} (hd : Doomed c) (hout : c.outstanding = 0) : ¬ LifeSafe c := by
  intro ⟨_, hran⟩
  rcases hd.2 with h | h
  · rw [hran] at h; cases h
  · omega

/-! ## Main results -/

theorem failsAlone_of_safe {c fin : Conn} {ops : List ConnOp} (hi : LifeInv c) (hr : run connStep c ops = some fin)
    (hout : fin.outstanding = 0) (hsafe : LifeSafe fin) : Along connStep FailsAlone c ops := by
  rcases along_or_doomed (fun _ _ _ => connStep_lifeInv) hi hr with hG | ⟨a, b, u, -, -, hb, hu⟩
  · exact hG
  · have hd : Doomed fin := run_inv (fun _ _ _ => connStep_doomed) hu hb
    exact absurd hsafe (doomed_violates hd hout)

/-- **Session lifetime, exactly.** If in a run every failing operation is the only one outstanding, the session is
deleted at most once and no handler runs on it afterwards. A run at whose end every handler has run is safe only so. -/
theorem lifetime_exact (data : CharArray maxLength) (ops : List ConnOp) (fin : Conn)
    (hr : run connStep (.accepted data) ops = some fin) :
    (Along connStep FailsAlone (.accepted data) ops → LifeSafe fin) ∧
      (fin.outstanding = 0 → (LifeSafe fin ↔ Along connStep FailsAlone (.accepted data) ops)) := by
  have hi := lifeInv_accepted data
  have hsafe : Along connStep FailsAlone (.accepted data) ops → LifeSafe fin := fun hG =>
    lifeInv_safe (run_inv_along (fun _ _ _ hi hG h => (connStep_lifeInv hi h).1 hG) hi hG hr)
  exact ⟨hsafe, fun hout => ⟨failsAlone_of_safe hi hr hout, hsafe⟩⟩

/-- a failed handshake, with nothing else outstanding -/
theorem lifetime_failed_handshake : ∃ fin, run connStep (.accepted zeroData) [.handshakeDone true] = some fin ∧
    fin.deletions = 1 ∧ LifeSafe fin := by
  obtain ⟨fin, hfin⟩ : ∃ fin, run connStep (.accepted zeroData) [.handshakeDone true] = some fin :=
    Option.isSome_iff_exists.1 (by decide +kernel)
  refine ⟨fin, hfin, ?_, (lifetime_exact zeroData _ fin hfin).1 (by decide +kernel)⟩
  cases hfin; rfl

/-- **A handler on a deleted session.** The peer goes away while an answer is being written: the failed read deletes
the session, then the handler of the failed write runs on it and deletes it again. -/
theorem deleted_under_write : ∃ c,
    run connStep (.accepted zeroData)
        [.handshakeDone false, .sendData [0x41], .readDone true [] 0, .writeDone true] = some c ∧
      c.deletions = 2 ∧ c.ranDeleted = true ∧ ¬ LifeSafe c := by
  refine ⟨(run connStep (.accepted zeroData)
    [.handshakeDone false, .sendData [0x41], .readDone true [] 0, .writeDone true]).get (by decide +kernel), by simp,
    ?_, ?_, ?_⟩ <;> decide +kernel

end NetFramework
