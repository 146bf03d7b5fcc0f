/-
The double-buffered writer of a session over runs without errors: any order of `sendData` calls, completed writes,
completed reads and the handshake.

`WriteOk` is the writer's contract: at most one `async_write` is outstanding, what has been given to `async_write` is a
prefix of what has been given to `sendData`, and all of it when nothing is outstanding.

`handleWrite` swaps the two buffers and clears neither, so the bytes just sent become the new `outBuffer_` and go out
again with the next swap. `writer_exact`: the contract holds in every state of a run if and only if only the first write
ever completes, and no `sendData` follows if it completes with nothing queued behind it (`FirstWrite`).
-/
import NetFramework.Connection

namespace NetFramework

open Transition

/-! ## Model -/

/-- a run without errors -/
def okStep (c : Conn) (o : ConnOp) : Option Conn := if o.failed = true then none else connStep c o

def WriteOk (c : Conn) : Prop :=
  c.writes.length ≤ 1 ∧ c.written.flatten <+: c.sent.flatten ∧ (c.writes = [] → c.written.flatten = c.sent.flatten)

instance (c : Conn) : Decidable (WriteOk c) := by unfold WriteOk; infer_instance

/-- the completing write is the first one; data is sent before any write has completed, or while one is outstanding -/
def FirstWrite (c : Conn) : ConnOp → Prop
  | .writeDone _ => c.written.length = 1
  | .sendData _ => c.writes = [] → c.written = []
  | _ => True

instance (c : Conn) (o : ConnOp) : Decidable (FirstWrite c o) := by
  unfold FirstWrite; cases o <;> infer_instance

/-! ## The writer's states while the contract holds -/

/-- `outBuffer_`, `outBufferProcessing_`, the outstanding and all started writes, the data sent -/
inductive WriterSt : Bytes → Bytes → List Bytes → List Bytes → Bytes → Prop where
  | fresh : WriterSt [] [] [] [] []
  /-- the first write is outstanding, with `q` queued behind it -/
  | first (d q : Bytes) (hd : d ≠ []) : WriterSt q d [d] [d] (d ++ q)
  /-- the first write has completed with nothing queued; its bytes are back in `outBuffer_` -/
  | idle (d : Bytes) (hd : d ≠ []) : WriterSt d [] [] [d] d
  /-- the second write is outstanding; `outBuffer_` begins with the bytes of the first -/
  | second (d e q : Bytes) (hd : d ≠ []) (he : e ≠ []) : WriterSt (d ++ q) e [e] [d, e] (d ++ e ++ q)

/-- the part of a connection the writer works on -/
def Conn.WInv (c : Conn) : Prop :=
  WriterSt c.impl.outBuffer_ c.impl.outBufferProcessing_ c.writes c.written c.sent.flatten

theorem winv_ok {c : Conn} (h : c.WInv) : WriteOk c := by
  unfold Conn.WInv at h
  unfold WriteOk
  generalize c.impl.outBuffer_ = out, c.impl.outBufferProcessing_ = proc, c.writes = writes, c.written = written,
    c.sent.flatten = sent at h
  cases h <;> simp

theorem winv_accepted (data : CharArray maxLength) : (Conn.accepted data).WInv := WriterSt.fresh

/-- bytes sent twice are more than the data -/
theorem not_ok_of_longer {c : Conn} (h : c.sent.flatten.length < c.written.flatten.length) : ¬ WriteOk c :=
  fun hok => absurd hok.2.1.length_le (not_le.2 h)

/-! ## Steps -/

theorem apply_write (c : Conn) (s : SessionImpl) (b : Bytes) :
    c.apply (s, if b ≠ [] then [.asyncWrite b] else []) =
      { c with impl := s, writes := c.writes ++ [b].filter (· ≠ []), written := c.written ++ [b].filter (· ≠ []) } := by
  by_cases hb : b = [] <;> simp [Conn.apply, Conn.perform, hb]

theorem okStep_some {c c' : Conn} {o : ConnOp} (h : okStep c o = some c') :
    o.failed = false ∧ connStep c o = some c' := by
  simp only [okStep] at h
  split_ifs at h with hf
  exact ⟨by simpa using hf, h⟩

theorem send_winv {c c' : Conn} {data : Bytes} (hi : c.WInv) (h : connStep c (.sendData data) = some c') :
    (FirstWrite c (.sendData data) → c'.WInv) ∧ (WriteOk c' → FirstWrite c (.sendData data)) := by
  obtain ⟨-, rfl⟩ := connStep_send h
  unfold Conn.WInv at hi
  obtain ⟨⟨clientId, dat, inc, out, proc⟩, hs, rd, writes, sent, written, handed, del, ran⟩ := c
  simp only [FirstWrite, SessionImpl.sendData] at hi ⊢
  generalize hsent : sent.flatten = sent' at hi
  cases hi with
  | fresh =>
    -- nothing has been sent yet: the data goes out at once, unless it is empty
    simp only [if_true, handleWrite_ok, List.nil_append, apply_write, Conn.WInv, List.flatten_append, hsent,
      List.flatten_singleton, implies_true, and_true]
    by_cases hd : data = []
    · subst hd; exact fun _ => WriterSt.fresh
    · intro _
      simpa [hd] using WriterSt.first data [] hd
  | first _ _ hd =>
    simp only [hd, if_false, Conn.apply, List.foldl_nil, Conn.WInv, List.flatten_append, hsent, List.flatten_singleton,
      List.cons_ne_nil, false_imp_iff, implies_true, and_true, true_imp_iff, List.append_assoc]
    exact WriterSt.first proc (out ++ data) hd
  | idle _ hd =>
    -- the first write goes out again in front of the new data
    refine ⟨fun hG => absurd (hG rfl) (by simp), fun hok => absurd hok (not_ok_of_longer ?_)⟩
    have hpos := List.length_pos_of_ne_nil hd
    simp only [if_true, handleWrite_ok, apply_write, List.flatten_append, hsent]
    simp [hd]
    omega
  | second d _ q hd he =>
    simp only [he, if_false, Conn.apply, List.foldl_nil, Conn.WInv, List.flatten_append, hsent, List.flatten_singleton,
      List.cons_ne_nil, false_imp_iff, implies_true, and_true, true_imp_iff, List.append_assoc]
    rw [← List.append_assoc d proc]
    exact WriterSt.second d proc (q ++ data) hd he

theorem write_winv {c c' : Conn} (hi : c.WInv) (h : connStep c (.writeDone false) = some c') :
    (FirstWrite c (.writeDone false) → c'.WInv) ∧ (WriteOk c' → FirstWrite c (.writeDone false)) := by
  obtain ⟨b, ws, hw, -, rfl⟩ := connStep_write h
  unfold Conn.WInv at hi
  obtain ⟨⟨clientId, dat, inc, out, proc⟩, hs, rd, writes, sent, written, handed, del, ran⟩ := c
  simp only [FirstWrite, Conn.enter] at hi hw ⊢
  subst hw
  generalize hsent : sent.flatten = sent' at hi
  cases hi with
  | first _ _ hd =>
    simp only [handleWrite_ok, apply_write, Conn.WInv, hsent, List.length_singleton, true_imp_iff, implies_true,
      and_true]
    by_cases hq : out = []
    · subst hq
      simpa using WriterSt.idle b hd
    · simpa [hq] using WriterSt.second b out [] hd hq
  | second d _ q hd he =>
    -- the third write begins with the bytes of the first
    refine ⟨fun hG => absurd hG (by simp), fun hok => absurd hok (not_ok_of_longer ?_)⟩
    have hpos := List.length_pos_of_ne_nil hd
    simp only [handleWrite_ok, apply_write, List.flatten_append, hsent]
    simp [hd]
    omega

theorem okStep_winv {c c' : Conn} {o : ConnOp} (hi : c.WInv) (h : okStep c o = some c') :
    (FirstWrite c o → c'.WInv) ∧ (WriteOk c' → FirstWrite c o) := by
  obtain ⟨hf, h⟩ := okStep_some h
  cases o with
  | handshakeDone error =>
    obtain ⟨-, -, rfl⟩ := connStep_handshake h
    exact ⟨fun _ => hi, fun _ => trivial⟩
  | readDone error chunk pkgSize =>
    obtain ⟨-, -, s, packets, hout, hproc, rfl⟩ := connStep_read h
    refine ⟨?_, fun _ => trivial⟩
    intro _
    simp only [Conn.WInv, Conn.enter, hout, hproc]
    exact hi
  | writeDone error =>
    obtain rfl : error = false := hf
    exact write_winv hi h
  | sendData data => exact send_winv hi h

/-! ## Main results -/

/-- **The writer's contract, exactly.** In a run without errors the contract holds in every state if and only if no
write but the first completes, and no `sendData` is called once it has completed with nothing queued behind it. -/
theorem writer_exact (data : CharArray maxLength) (ops : List ConnOp) (fin : Conn)
    (hr : run okStep (.accepted data) ops = some fin) :
    Along okStep FirstWrite (.accepted data) ops ↔ Always okStep WriteOk (.accepted data) ops :=
  along_iff_always (fun _ => winv_ok) (fun _ _ _ => okStep_winv) (winv_accepted data) hr

/-- two pieces of data, the second queued behind the first, and one completed write -/
theorem writer_first_write :
    Always okStep WriteOk (.accepted zeroData) [.sendData [0x41], .sendData [0x42], .writeDone false] := by
  obtain ⟨fin, hfin⟩ : ∃ fin,
      run okStep (.accepted zeroData) [.sendData [0x41], .sendData [0x42], .writeDone false] = some fin :=
    Option.isSome_iff_exists.1 (by decide +kernel)
  exact (writer_exact zeroData _ fin hfin).1 (by decide +kernel)

/-- **A byte sent twice.** `A` is sent and its write completes; then `B` is sent: the second write carries `A` again. -/
theorem byte_sent_twice : ∃ c,
    run okStep (.accepted zeroData) [.sendData [0x41], .writeDone false, .sendData [0x42]] = some c ∧
      c.sent = [[0x41], [0x42]] ∧ c.written = [[0x41], [0x41, 0x42]] ∧ ¬ WriteOk c := by
  refine ⟨(run okStep (.accepted zeroData) [.sendData [0x41], .writeDone false, .sendData [0x42]]).get
    (by decide +kernel), by simp, ?_, ?_, ?_⟩ <;> decide +kernel

end NetFramework
