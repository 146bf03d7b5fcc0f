/-
A request that does not fit `data_`. A session collects its frame in `incBuffer_`, and what it hands on when the frame is
complete is the empty string (`fetchData_complete`), which no decoder accepts: the exception leaves `io_context::run`.

`large_request_stops`: so any client ends the server for all of them with one well-formed request of more than 1018
bytes, whichever handler it is for, and until then the server keeps all of it in memory.
-/
import NetFramework.RequestPath

namespace NetFramework

open CoreProto Framing Transition IStream

variable {ι ρ : Type}

/-! ## One session -/

/-- the first read brings the whole header -/
def HeaderFirst (own : List ConnOp) : Prop :=
  ∀ read, (own.filterMap ConnOp.chunk?).head? = some read → headerSize ≤ read.1.length

instance (own : List ConnOp) : Decidable (HeaderFirst own) :=
  match h : (own.filterMap ConnOp.chunk?).head? with
  | none => isTrue fun read hread => by rw [h] at hread; cases hread
  | some read =>
    decidable_of_iff (headerSize ≤ read.1.length) (by simp [HeaderFirst, h])

/-- a frame for `m` is collected until it is complete; then an empty packet is handed on -/
structure Collected (m : Bytes) (own : List ConnOp) (c : Conn) : Prop where
  inside : (arrivedBytes own).length < (createPacket m).length →
    c.impl.incBuffer_ = arrivedBytes own ∧ c.handed = []
  past : (createPacket m).length ≤ (arrivedBytes own).length → [] ∈ c.handed

/-- the bytes that have come in begin the frame for `m`, or begin with it -/
def Begins (m : Bytes) (own : List ConnOp) : Prop :=
  HeaderFirst own ∧ (arrivedBytes own <+: createPacket m ∨ createPacket m <+: arrivedBytes own)

theorem Begins.before {m : Bytes} {own : List ConnOp} {o : ConnOp} (h : Begins m (own ++ [o])) : Begins m own := by
  obtain ⟨hfirst, hbytes⟩ := h
  rw [arrivedBytes_concat] at hbytes
  refine ⟨?_, ?_⟩
  · intro read hread
    refine hfirst read ?_
    rw [List.filterMap_append, List.head?_append, hread]
    rfl
  · rcases hbytes with hbytes | hbytes
    · exact Or.inl ((List.prefix_append _ _).trans hbytes)
    · exact List.prefix_or_prefix_of_prefix (List.prefix_append _ _) hbytes

/-- until something comes in nothing has been read -/
theorem Begins.unread {m : Bytes} {own : List ConnOp} (h : Begins m own) (hnone : arrivedBytes own = []) :
    own.filterMap ConnOp.chunk? = [] := by
  cases hreads : own.filterMap ConnOp.chunk? with
  | nil => rfl
  | cons read reads =>
    have hlen := h.1 read (by rw [hreads]; rfl)
    rw [arrivedBytes, hreads, List.flatMap_cons, List.append_eq_nil_iff] at hnone
    rw [hnone.1] at hlen
    exact absurd hlen (by decide)

/-- once something has come in, the header has -/
theorem Begins.headerSize_le {m : Bytes} {own : List ConnOp} (h : Begins m own) (hsome : arrivedBytes own ≠ []) :
    headerSize ≤ (arrivedBytes own).length := by
  cases hreads : own.filterMap ConnOp.chunk? with
  | nil => exact absurd (by rw [arrivedBytes, hreads]; rfl) hsome
  | cons read reads =>
    have hlen := h.1 read (by rw [hreads]; rfl)
    rw [arrivedBytes, hreads, List.flatMap_cons, List.length_append]
    omega

/-- a first read that brings the header of a frame larger than `data_` starts to collect it -/
theorem consume_large {s : SessionImpl} {m chunk : Bytes} (hmax : m.length ≤ maxPacketSize.toNat)
    (hlarge : maxLength < headerSize + m.length) (hinc : s.incBuffer_ = []) (hheader : headerSize ≤ chunk.length)
    (hfits : chunk.length ≤ maxLength) (hin : chunk <+: createPacket m) (pkgSize : UInt32) :
    (s.readInto chunk).consume chunk.length pkgSize =
      some ({ s.readInto chunk with incBuffer_ := chunk }, []) := by
  obtain ⟨q, hq, -⟩ := prefix_header hin hheader
  have hd : (s.readInto chunk).data_.toList = header (UInt32.ofNat m.length) ++ (q ++ s.data_.toList.drop chunk.length) := by
    rw [SessionImpl.readInto, overwrite_toList hfits, ← List.append_assoc, ← hq]
  have hlen : (q ++ s.data_.toList.drop chunk.length).length < m.length := by
    have hsize := (s.readInto chunk).data_.toList_length
    rw [hd, List.length_append, header_length] at hsize
    omega
  have hincomplete := isPacketCompleteArray_header hd (length_le_max hmax) (by decide) pkgSize
  rw [toNat_length hmax, decide_eq_false (by omega)] at hincomplete
  have hstart : isPacketStart (s.readInto chunk).data_ = true := by
    rw [isPacketStart, if_neg (by decide), hd, hasMagic_header]
  have hcollected : (s.readInto chunk).incBuffer_ = [] := hinc
  simp only [SessionImpl.consume, hcollected, if_true, hincomplete, Bool.false_eq_true, if_false, hstart,
    List.nil_append]
  rw [SessionImpl.readInto, take_overwrite hfits]

/-- **One completion.** A read adds to the frame, or completes it; another completion leaves it as it is. -/
theorem connStep_collected {m : Bytes} (hmax : m.length ≤ maxPacketSize.toNat)
    (hlarge : maxLength < headerSize + m.length) {own : List ConnOp} {o : ConnOp} {c c' : Conn}
    (hc : Collected m own c) (hb : Begins m (own ++ [o])) (h : connStep c o = some c') :
    Collected m (own ++ [o]) c' := by
  obtain ⟨hinside, hpast⟩ := hc
  have hframe := createPacket_length m
  rcases ho : o.chunk? with _ | ⟨chunk, pkgSize⟩
  · obtain ⟨hinc, hhanded⟩ := connStep_unread ho h
    have hbytes : arrivedBytes (own ++ [o]) = arrivedBytes own := by
      rw [arrivedBytes_concat, ho]
      exact List.append_nil _
    exact ⟨by rw [hbytes, hinc, hhanded]; exact hinside, by rw [hbytes, hhanded]; exact hpast⟩
  · have hbytes : arrivedBytes (own ++ [o]) = arrivedBytes own ++ chunk := by rw [arrivedBytes_concat, ho]; rfl
    have hbegins := hb.2
    rw [hbytes] at hbegins
    obtain rfl : o = .readDone false chunk pkgSize := ConnOp.eq_of_chunk ho
    obtain ⟨hfits, packets, hconsume, hhanded⟩ := connStep_consume h
    have hcollected : (c.impl.readInto chunk).incBuffer_ = c.impl.incBuffer_ := rfl
    have htake : (c.impl.readInto chunk).data_.toList.take chunk.length = chunk := take_overwrite hfits
    have hlen : (arrivedBytes own ++ chunk).length = (arrivedBytes own).length + chunk.length := List.length_append
    rcases Nat.lt_or_ge (arrivedBytes own).length (createPacket m).length with hlt | hge
    · obtain ⟨hinc, hnone⟩ := hinside hlt
      by_cases hnil : arrivedBytes own = []
      · -- the first read: the frame does not fit it
        rw [hnil, List.nil_append] at hbytes hbegins
        have hheader : headerSize ≤ chunk.length := by
          refine hb.1 (chunk, pkgSize) ?_
          rw [List.filterMap_append, hb.before.unread hnil]
          rfl
        have hin : chunk <+: createPacket m := by
          refine hbegins.resolve_right fun hin => ?_
          have := hin.length_le
          omega
        rw [consume_large hmax hlarge (hinc.trans hnil) hheader hfits hin] at hconsume
        obtain ⟨himpl, rfl⟩ := Prod.mk.inj (Option.some.inj hconsume)
        refine ⟨fun _ => ⟨?_, ?_⟩, fun hle => ?_⟩
        · rw [← himpl, hbytes]
        · rw [hhanded, hnone]
          rfl
        · rw [hbytes] at hle
          omega
      · have hne : (c.impl.readInto chunk).incBuffer_ ≠ [] := by rwa [hcollected, hinc]
        have hgot : (c.impl.readInto chunk).incBuffer_ ++ (c.impl.readInto chunk).data_.toList.take chunk.length =
            arrivedBytes own ++ chunk := by
          rw [hcollected, htake, hinc]
        have hheader := hb.before.headerSize_le hnil
        rcases Nat.lt_or_ge (arrivedBytes own ++ chunk).length (createPacket m).length with hlt' | hge'
        · -- still inside the frame
          have hin : arrivedBytes own ++ chunk <+: createPacket m := by
            refine hbegins.resolve_right fun hin => ?_
            have := hin.length_le
            omega
          have hproper : arrivedBytes own ++ chunk ≠ createPacket m := by
            intro heq
            rw [heq] at hlt'
            omega
          rw [consume_collect hmax hne (by rwa [hgot]) (by rwa [hgot]), hgot, if_neg (by omega)] at hconsume
          obtain ⟨himpl, rfl⟩ := Prod.mk.inj (Option.some.inj hconsume)
          refine ⟨fun _ => ⟨?_, ?_⟩, fun hle => ?_⟩
          · rw [← himpl, hbytes]
          · rw [hhanded, hnone]
            rfl
          · rw [hbytes] at hle
            omega
        · obtain ⟨more, hmore⟩ : createPacket m <+: arrivedBytes own ++ chunk := by
            rcases hbegins with hin | hin
            · rw [hin.eq_of_length_le hge']
            · exact hin
          rw [consume_vector hmax hne (hgot.trans hmore.symm)] at hconsume
          obtain ⟨-, rfl⟩ := Prod.mk.inj (Option.some.inj hconsume)
          refine ⟨fun hlt' => ?_, fun _ => ?_⟩
          · rw [hbytes] at hlt'
            omega
          · rw [hhanded]
            exact List.mem_append_right _ (List.mem_singleton_self _)
    · refine ⟨fun hlt => ?_, fun _ => ?_⟩
      · rw [hbytes] at hlt
        omega
      · rw [hhanded]
        exact List.mem_append_left _ (hpast hge)

theorem run_collected {m : Bytes} (hmax : m.length ≤ maxPacketSize.toNat) (hlarge : maxLength < headerSize + m.length)
    {own : List ConnOp} {data : CharArray maxLength} {clientId : Int32} {c : Conn}
    (h : run connStep (acceptedAs data clientId) own = some c) (hb : Begins m own) : Collected m own c := by
  have hstep : ∀ own c o c', (Begins m own → Collected m own c) → connStep c o = some c' →
      Begins m (own ++ [o]) → Collected m (own ++ [o]) c' :=
    fun own c o c' hi ho hbegins => connStep_collected hmax hlarge (hi hbegins.before) hbegins ho
  have hnew : Begins m [] → Collected m [] (acceptedAs data clientId) := by
    intro _
    refine ⟨fun _ => ⟨rfl, rfl⟩, fun hle => ?_⟩
    exact absurd (List.length_eq_zero_iff.1 (Nat.le_zero.1 hle)) (createPacket_ne_nil m)
  exact run_inv_hist hstep hnew h hb

/-! ## The whole server -/

/-- the empty packet has no third token -/
theorem malformed_nil : Malformed [] := ⟨.invalidArgument, by rw [rmi_deserialize]; decide⟩

namespace NetServer

variable [DecidableEq ι]

/-- **A large request stops the server.** Say that the bytes that have come in on a session are the first of a stream of
frames, that the payload of the first of them has more than 1018 bytes, and that the first read has brought its header.
Then the session has kept every byte and handed on nothing as long as the frame is not complete, and once it is the
server has stopped at an empty packet, whatever the other clients and the workers have done. -/
theorem large_request_stops (prog : Program ι ρ) (bases : List (Option (Bytes × ι))) (p : ℕ)
    (data : CharArray maxLength) (ops : List (NetServerOp ι ρ)) (s : NetServer ι ρ)
    (h : run (step prog) (start bases p data) ops = some s) (q : ℕ) (o : SessionObject) (hq : s.net.heap q = some o)
    (hacc : o.destroyedFnc_ = true) (m : Bytes) (payloads : List Bytes) (hmax : m.length ≤ maxPacketSize.toNat)
    (hlarge : maxLength < headerSize + m.length) (hfirst : HeaderFirst (ownOps q ops))
    (hbytes : arrivedBytes (ownOps q ops) <+: stream createPacket (m :: payloads)) :
    ((arrivedBytes (ownOps q ops)).length < (createPacket m).length →
        o.conn.impl.incBuffer_ = arrivedBytes (ownOps q ops) ∧ o.conn.handed = []) ∧
      ((createPacket m).length ≤ (arrivedBytes (ownOps q ops)).length →
        (o.clientId_, []) ∈ s.arrivals ∧ s.stopped = true) := by
  obtain ⟨d, hrun⟩ := (run_alone h).accepted q o hq hacc
  obtain ⟨hd, ha⟩ := run_sound h
  have hbegins : Begins m (ownOps q ops) :=
    ⟨hfirst, List.prefix_or_prefix_of_prefix hbytes (by rw [stream_cons]; exact List.prefix_append _ _)⟩
  obtain ⟨hinside, hpast⟩ := run_collected hmax hlarge hrun hbegins
  refine ⟨hinside, fun hle => ?_⟩
  have hempty := hpast hle
  rw [← ha.handed q o hq hacc] at hempty
  obtain ⟨a, hmem, hnil⟩ := List.mem_map.1 hempty
  obtain ⟨hmem, hid⟩ := List.mem_filter.1 hmem
  obtain rfl : a = (o.clientId_, []) := Prod.ext (of_decide_eq_true hid) hnil
  refine ⟨hmem, ?_⟩
  rw [stopped, hd.escaped.2 ⟨_, hmem, malformed_nil⟩, Bool.true_or]

/-- a request for the handler `h` with a string of 1019 letters -/
def largeRequest : RMIPacket := ⟨[104], [99], 1, List.replicate 1019 97⟩

/-- two clients connect, and the second sends it -/
def largeRun : List (NetServerOp Unit Empty) :=
  [.accept false 1 zeroData, .accept false 2 zeroData, .handler 1 (.handshakeDone false),
    .handler 1 (.readDone false ((createPacket largeRequest.serialize).take maxLength) 0),
    .handler 1 (.readDone false ((createPacket largeRequest.serialize).drop maxLength) 0)]

theorem large_request_stops_second :
    ∃ s, run (step Server.echo) (start [some ([104], ())] 0 zeroData) largeRun = some s ∧ s.stopped = true := by
  have hsession : ((run (step Server.echo) (start [some ([104], ())] 0 zeroData) largeRun).bind fun s =>
      s.net.heap 1).map SessionObject.destroyedFnc_ = some true := by
    decide +kernel
  obtain ⟨o, ho, hacc⟩ := Option.map_eq_some_iff.1 hsession
  obtain ⟨s, hs, hq⟩ := Option.bind_eq_some_iff.1 ho
  have hbytes : arrivedBytes (ownOps 1 largeRun) = stream createPacket [largeRequest.serialize] := by decide +kernel
  have hstop := (large_request_stops Server.echo [some ([104], ())] 0 zeroData largeRun s hs 1 o hq hacc
    largeRequest.serialize [] (by decide +kernel) (by decide +kernel) (by decide +kernel)
    (hbytes ▸ List.prefix_rfl)).2 (by decide +kernel)
  exact ⟨s, hs, hstop.2⟩

end NetServer
end NetFramework
