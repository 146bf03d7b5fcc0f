/-
`Server::poll` with a `DataCompleteCallback` that asks `isPacketComplete`, as for clients that send packets. A buffer is
complete as soon as a packet is at its beginning, and then the whole buffer is handed on, with whatever is behind that
packet.

- `framed_iff`: what plain reassembly delivers of a stream of packets are the packets that have arrived in full, one by
  one, if and only if each of their ends is the end of a chunk. The first chunk that reaches past the end of a packet is
  delivered with it.
- `packets_told_iff`: so it is with the data callbacks of every connection, in every run of either loop.
-/
import NetFramework.Library.Framing
import NetFramework.FrameGrammar
import NetFramework.FrameLaws
import NetFramework.ServerTraffic

namespace NetFramework

open CoreProto Framing Transition

/-! ## The callback -/

/-- whether `isPacketComplete` returns true; `pkgSize` is what the variable for the size held before -/
def packetComplete (pkgSize : UInt32) (data : Bytes) : Bool := (isPacketComplete data pkgSize).1

/-- each end of a packet that has come in is the end of a chunk -/
def Aligned (payloads chunks : List Bytes) : Prop :=
  ∀ d, d <+: payloads → stream createPacket d <+: chunks.flatten →
    ∃ before, before <+: chunks ∧ before.flatten = stream createPacket d

/-- a chunk that ends behind the end of a packet, the first one that does; the packet is handed on with what the chunk
has of the packets behind it, in one buffer behind those of the packets in front of it -/
def CrossesFirst (payloads chunks buffers : List Bytes) : Prop :=
  ∃ before chunk later done m more, chunks = before ++ chunk :: later ∧ done ++ [m] <+: payloads ∧ more ≠ [] ∧
    before.flatten.length < (stream createPacket (done ++ [m])).length ∧
      (before ++ [chunk]).flatten = stream createPacket (done ++ [m]) ++ more ∧
        done.map createPacket ++ [createPacket m ++ more] <+: buffers

/-- if the buffer is complete with the chunk, the packet at its beginning is all there is -/
def Within (pkgSize : UInt32) (r : Reassembly) (chunk : Bytes) : Prop :=
  packetComplete pkgSize (r.buffer ++ chunk) = true →
    (r.buffer ++ chunk).length = headerSize + (isPacketComplete (r.buffer ++ chunk) pkgSize).2.toNat

/-- the packets that have arrived in full are delivered, and each of their ends is the end of a chunk -/
def InStep (payloads chunks : List Bytes) (r : Reassembly) : Prop :=
  ∃ done, Received createPacket payloads chunks.flatten done r.buffer ∧ r.delivered = done.map createPacket ∧
    ∀ d, d <+: done → ∃ before, before <+: chunks ∧ before.flatten = stream createPacket d

section Chunk

variable {payloads done : List Bytes} {arrived part chunk m more : Bytes} {pkgSize : UInt32}

/-- part of a packet is not complete -/
theorem part_incomplete (hm : m.length ≤ maxPacketSize.toNat) (hpart : part <+: createPacket m)
    (hne : part ≠ createPacket m) : packetComplete pkgSize part = false :=
  incomplete_prefix (hm.trans_lt (by decide)) hpart hne pkgSize

/-- a packet with something behind it is complete -/
theorem packet_complete (hm : m.length ≤ maxPacketSize.toNat) (more : Bytes) :
    isPacketComplete (createPacket m ++ more) pkgSize = (true, UInt32.ofNat m.length) := by
  rw [isPacketComplete_iff]
  exact ⟨m, more, (toNat_length hm).symm, length_le_max hm, rfl⟩

/-- what a chunk does with a receiver that is in step: it ends inside the next packet, or reaches its end -/
theorem next_chunk (pkgSize : UInt32) (hmax : ∀ p ∈ payloads, p.length ≤ maxPacketSize.toNat)
    (hrec : Received createPacket payloads arrived done part) (hs : arrived ++ chunk <+: stream createPacket payloads) :
    (packetComplete pkgSize (part ++ chunk) = false ∧
        Received createPacket payloads (arrived ++ chunk) done (part ++ chunk)) ∨
      ∃ m more, m.length ≤ maxPacketSize.toNat ∧ done ++ [m] <+: payloads ∧ part.length < (createPacket m).length ∧
        part ++ chunk = createPacket m ++ more := by
  by_cases hc : chunk = []
  · refine Or.inl ?_
    rw [hc, List.append_nil, List.append_nil]
    refine ⟨?_, hrec⟩
    rcases hrec.part_next with rfl | ⟨m, hm, hpart, hne⟩
    · rfl
    · exact part_incomplete (hmax m (hm.subset (by simp))) hpart hne
  · obtain ⟨m, hm, hpart, hopen, hnext⟩ := hrec.next hc hs
    have hlen : m.length ≤ maxPacketSize.toNat := hmax m (hm.subset (by simp))
    rcases hnext with ⟨hin, hne⟩ | ⟨more, hmore⟩
    · exact Or.inl ⟨part_incomplete hlen hin hne, hrec.part hm hin hne⟩
    · refine Or.inr ⟨m, more, hlen, hm, ?_, hmore⟩
      rcases hopen with rfl | hne
      · exact List.length_pos_of_ne_nil (createPacket_ne_nil m)
      · exact lt_of_le_of_ne hpart.length_le fun h => hne (hpart.eq_of_length h)

/-- a chunk that reaches the end of the packet -/
theorem within_iff {r : Reassembly} (hm : m.length ≤ maxPacketSize.toNat)
    (hreach : r.buffer ++ chunk = createPacket m ++ more) : Within pkgSize r chunk ↔ more = [] := by
  have hlen : (UInt32.ofNat m.length).toNat = m.length := toNat_length hm
  rw [Within, packetComplete, hreach, packet_complete hm, List.length_append, createPacket_length, hlen]
  simp

end Chunk

/-! ## Plain reassembly -/

section Plain

variable {payloads chunks done : List Bytes} {part chunk : Bytes} {pkgSize : UInt32} {r r' : Reassembly}

theorem inStep_new (payloads : List Bytes) : InStep payloads [] ⟨[], []⟩ := by
  refine ⟨[], received_nil payloads, rfl, ?_⟩
  intro d hd
  exact ⟨[], List.nil_prefix, by rw [List.prefix_nil.1 hd]; rfl⟩

/-- **A chunk.** A receiver in step stays so if the chunk does not reach past the end of a packet. -/
theorem plainStep_inStep (hmax : ∀ p ∈ payloads, p.length ≤ maxPacketSize.toNat) (hi : InStep payloads chunks r)
    (hs : (chunks ++ [chunk]).flatten <+: stream createPacket payloads) (hwithin : Within pkgSize r chunk)
    (h : plainStep (packetComplete pkgSize) r chunk = some r') : InStep payloads (chunks ++ [chunk]) r' := by
  obtain ⟨done, hrec, hdelivered, hends⟩ := hi
  rw [List.flatten_concat] at hs
  rcases next_chunk pkgSize hmax hrec hs with ⟨hinc, hrec'⟩ | ⟨m, more, hm, hnext, -, hreach⟩
  · rw [plainStep_waiting (by simp [hinc])] at h
    cases h
    refine ⟨done, by rwa [List.flatten_concat], hdelivered, ?_⟩
    intro d hd
    obtain ⟨before, hbefore, heq⟩ := hends d hd
    exact ⟨before, hbefore.trans (List.prefix_append _ _), heq⟩
  · obtain rfl := (within_iff hm hreach).1 hwithin
    rw [List.append_nil] at hreach
    have hcomplete : packetComplete pkgSize (r.buffer ++ chunk) = true := by
      rw [packetComplete, hreach, ← List.append_nil (createPacket m), packet_complete hm]
    rw [plainStep_complete hcomplete] at h
    cases h
    have hrec' := hrec.whole hnext hreach
    refine ⟨done ++ [m], by rwa [List.flatten_concat], ?_, ?_⟩
    · rw [hdelivered, hreach, List.map_append, List.map_singleton]
    · intro d hd
      rcases List.prefix_concat_iff.1 hd with rfl | hd
      · refine ⟨chunks ++ [chunk], List.prefix_rfl, ?_⟩
        rw [List.flatten_concat, hrec'.arrived_eq, List.append_nil]
      · obtain ⟨before, hbefore, heq⟩ := hends d hd
        exact ⟨before, hbefore.trans (List.prefix_append _ _), heq⟩

theorem run_inStep (hmax : ∀ p ∈ payloads, p.length ≤ maxPacketSize.toNat)
    (hs : chunks.flatten <+: stream createPacket payloads)
    (hwithin : Along (plainStep (packetComplete pkgSize)) (Within pkgSize) ⟨[], []⟩ chunks)
    (h : run (plainStep (packetComplete pkgSize)) ⟨[], []⟩ chunks = some r) : InStep payloads chunks r := by
  have hstep : ∀ hist r chunk r', (hist.flatten <+: stream createPacket payloads → InStep payloads hist r) →
      Within pkgSize r chunk → plainStep (packetComplete pkgSize) r chunk = some r' →
      (hist ++ [chunk]).flatten <+: stream createPacket payloads → InStep payloads (hist ++ [chunk]) r' := by
    intro hist r chunk r' hi hw h hs
    refine plainStep_inStep hmax (hi ?_) hs hw h
    rw [List.flatten_concat] at hs
    exact (List.prefix_append _ _).trans hs
  have hnew : ([] : List Bytes).flatten <+: stream createPacket payloads → InStep payloads [] ⟨[], []⟩ :=
    fun _ => inStep_new payloads
  exact run_inv_hist_along hstep hnew hwithin h hs

/-- what has been delivered stays so -/
theorem run_delivered {P : Bytes → Bool} (h : run (plainStep P) r chunks = some r') : r.delivered <+: r'.delivered := by
  have hstep : ∀ (s : Reassembly) chunk s', r.delivered <+: s.delivered → plainStep P s chunk = some s' →
      r.delivered <+: s'.delivered := by
    intro s chunk s' hs h
    simp only [plainStep] at h
    split_ifs at h
    · cases h
      exact hs.trans (List.prefix_append _ _)
    · cases h
      exact hs
  exact run_inv hstep List.prefix_rfl h

/-- a chunk that reaches past the end of a packet, with the buffer that is handed on for it -/
theorem crossing (hmax : ∀ p ∈ payloads, p.length ≤ maxPacketSize.toNat)
    (hs : (chunks ++ [chunk]).flatten <+: stream createPacket payloads) (hi : InStep payloads chunks r)
    (hcross : ¬ Within pkgSize r chunk) (h : plainStep (packetComplete pkgSize) r chunk = some r') :
    ∃ done m more, done ++ [m] <+: payloads ∧ more ≠ [] ∧
      r'.delivered = done.map createPacket ++ [createPacket m ++ more] ∧
      chunks.flatten.length < (stream createPacket (done ++ [m])).length ∧
      (chunks ++ [chunk]).flatten = stream createPacket (done ++ [m]) ++ more := by
  obtain ⟨done, hrec, hdelivered, -⟩ := hi
  rw [List.flatten_concat] at hs
  rcases next_chunk pkgSize hmax hrec hs with ⟨hinc, -⟩ | ⟨m, more, hm, hnext, hlt, hreach⟩
  · exact absurd (fun hcomplete => absurd hcomplete (by simp [hinc])) hcross
  · have hcomplete : packetComplete pkgSize (r.buffer ++ chunk) = true := by
      rw [packetComplete, hreach, packet_complete hm]
    rw [plainStep_complete hcomplete] at h
    cases h
    refine ⟨done, m, more, hnext, fun hnil => hcross ((within_iff hm hreach).2 hnil), ?_, ?_, ?_⟩
    · rw [hdelivered, hreach]
    · rw [hrec.arrived_eq, stream_append, List.length_append, List.length_append]
      simpa using hlt
    · rw [List.flatten_concat, hrec.arrived_eq, List.append_assoc, hreach]
      simp

/-- there is no end of a chunk inside the chunk that crosses -/
theorem crossing_not_aligned {done later : List Bytes} {m more : Bytes} (hnext : done ++ [m] <+: payloads)
    (hmore : more ≠ []) (hlt : chunks.flatten.length < (stream createPacket (done ++ [m])).length)
    (heq : (chunks ++ [chunk]).flatten = stream createPacket (done ++ [m]) ++ more) :
    ¬ Aligned payloads (chunks ++ chunk :: later) := by
  intro haligned
  have hflat : (chunks ++ chunk :: later).flatten = stream createPacket (done ++ [m]) ++ (more ++ later.flatten) := by
    rw [List.append_cons, List.flatten_append, heq, List.append_assoc]
  obtain ⟨before, hbefore, hend⟩ := haligned _ hnext (hflat ▸ List.prefix_append _ _)
  have hchunks : chunks <+: chunks ++ chunk :: later := List.prefix_append _ _
  have hnextChunk : chunks ++ [chunk] <+: chunks ++ chunk :: later := ⟨later, (List.append_cons _ _ _).symm⟩
  rcases Nat.lt_or_ge chunks.length before.length with hlong | hshort
  · -- the chunk that crosses is in it
    obtain ⟨more', hmore'⟩ := List.prefix_of_prefix_length_le hnextChunk hbefore
      (by rw [List.length_append, List.length_singleton]; exact hlong)
    have hlength := congrArg List.length hend
    rw [← hmore', List.flatten_append, heq, List.length_append, List.length_append] at hlength
    have := List.length_pos_of_ne_nil hmore
    omega
  · obtain ⟨more', hmore'⟩ := List.prefix_of_prefix_length_le hbefore hchunks hshort
    rw [← hmore', List.flatten_append, List.length_append, hend] at hlt
    omega

/-- a chunk reaches past the end of a packet for the first time -/
theorem first_crossing {later : List Bytes} {v : Reassembly} (hmax : ∀ p ∈ payloads, p.length ≤ maxPacketSize.toNat)
    (hs : (chunks ++ chunk :: later).flatten <+: stream createPacket payloads)
    (hwithin : Along (plainStep (packetComplete pkgSize)) (Within pkgSize) ⟨[], []⟩ chunks)
    (h : run (plainStep (packetComplete pkgSize)) ⟨[], []⟩ chunks = some r) (hcross : ¬ Within pkgSize r chunk)
    (hv : plainStep (packetComplete pkgSize) r chunk = some v)
    (hlater : run (plainStep (packetComplete pkgSize)) v later = some r') :
    CrossesFirst payloads (chunks ++ chunk :: later) r'.delivered := by
  rw [List.append_cons, List.flatten_append] at hs
  have hchunk := (List.prefix_append _ _).trans hs
  have hchunks := hchunk
  rw [List.flatten_concat] at hchunks
  obtain ⟨done, m, more, hnext, hmore, hdelivered, hlt, heq⟩ := crossing hmax hchunk
    (run_inStep hmax ((List.prefix_append _ _).trans hchunks) hwithin h) hcross hv
  exact ⟨chunks, chunk, later, done, m, more, rfl, hnext, hmore, hlt, heq, hdelivered ▸ run_delivered hlater⟩

/-- **Plain reassembly.** It delivers the packets one by one while each end is the end of a chunk; otherwise a chunk
crosses the end of a packet. -/
theorem framed_cases (hmax : ∀ p ∈ payloads, p.length ≤ maxPacketSize.toNat)
    (hs : chunks.flatten <+: stream createPacket payloads)
    (hrec : Received createPacket payloads chunks.flatten done part)
    (h : run (plainStep (packetComplete pkgSize)) ⟨[], []⟩ chunks = some r) :
    (r.delivered = done.map createPacket ∧ Aligned payloads chunks) ∨ CrossesFirst payloads chunks r.delivered := by
  rcases along_or_first (G := Within pkgSize) h with hwithin | ⟨a, chunk, b, u, v, rfl, ha, hwithin, hv, hcross, hb⟩
  · obtain ⟨done', hrec', hdelivered, hends⟩ := run_inStep hmax hs hwithin h
    have harrived : ∀ {d part}, Received createPacket payloads chunks.flatten d part →
        stream createPacket d <+: chunks.flatten := fun hr => hr.arrived_eq ▸ List.prefix_append _ _
    obtain rfl : done' = done :=
      ((hrec.prefix_done createPacket_ne_nil hrec'.done_prefix (harrived hrec')).eq_of_length_le
        (hrec'.prefix_done createPacket_ne_nil hrec.done_prefix (harrived hrec)).length_le)
    refine Or.inl ⟨hdelivered, ?_⟩
    intro d hd harr
    exact hends d (hrec.prefix_done createPacket_ne_nil hd harr)
  · exact Or.inr (first_crossing hmax hs hwithin ha hcross hv hb)

theorem framed_iff (hmax : ∀ p ∈ payloads, p.length ≤ maxPacketSize.toNat)
    (hs : chunks.flatten <+: stream createPacket payloads)
    (hrec : Received createPacket payloads chunks.flatten done part)
    (h : run (plainStep (packetComplete pkgSize)) ⟨[], []⟩ chunks = some r) :
    (r.delivered = done.map createPacket ↔ Aligned payloads chunks) ∧
      (¬ Aligned payloads chunks → CrossesFirst payloads chunks r.delivered) := by
  rcases framed_cases hmax hs hrec h with ⟨hdelivered, haligned⟩ | hcrosses
  · exact ⟨iff_of_true hdelivered haligned, fun hnot => absurd haligned hnot⟩
  · refine ⟨?_, fun _ => hcrosses⟩
    obtain ⟨before, chunk, later, done', m, more, rfl, hnext, hmore, hlt, heq, hprefix⟩ := hcrosses
    refine iff_of_false ?_ (crossing_not_aligned hnext hmore hlt heq)
    intro hall
    rw [hall] at hprefix
    have hle : (done' ++ [m]).length ≤ done.length := by simpa using hprefix.length_le
    obtain ⟨todo, rfl⟩ := List.prefix_of_prefix_length_le hnext hrec.done_prefix hle
    rw [List.map_append, List.map_append, List.append_assoc, List.prefix_append_right_inj, List.map_singleton,
      List.singleton_append, List.cons_prefix_cons] at hprefix
    exact hmore (List.append_right_eq_self.1 hprefix.1)

end Plain

/-! ## Both loops -/

/-- the chunks that `recv` has returned for a connection -/
def chunksOf (log : List (ℕ × Traffic)) (n : ℕ) : List Bytes := (itemsOf log n).filterMap Traffic.received?

/-- the data callbacks of a connection have got the packets that have arrived in full, one by one, if and only if each of
their ends is the end of a chunk, and otherwise a packet together with what the first chunk across its end has behind it;
`payloads` are those of the packets that the client sends -/
def PacketsTold (log : List (ℕ × Traffic)) (callbacks : List Callback) : Prop :=
  ∀ n payloads done part, (∀ p ∈ payloads, p.length ≤ maxPacketSize.toNat) →
    (chunksOf log n).flatten <+: stream createPacket payloads →
    Received createPacket payloads (chunksOf log n).flatten done part →
    (buffersOf callbacks n = done.map createPacket ↔ Aligned payloads (chunksOf log n)) ∧
      (¬ Aligned payloads (chunksOf log n) → CrossesFirst payloads (chunksOf log n) (buffersOf callbacks n))

/-- the input of a peer is plain reassembly -/
theorem peer_plain {complete : Bytes → Bool} {peer peer' : Peer} {traffic : List Traffic}
    (h : run (peerStep complete) peer traffic = some peer') :
    run (plainStep complete) peer.input (traffic.filterMap Traffic.received?) = some peer'.input := by
  induction traffic generalizing peer with
  | nil => cases h; rfl
  | cons item traffic ih =>
    obtain ⟨u, hu, h⟩ := run_cons_some.1 h
    have hrest := ih h
    cases item with
    | received chunk =>
      obtain ⟨input, hinput, rfl⟩ := Option.map_eq_some_iff.1 hu
      exact run_cons_some.2 ⟨input, hinput, hrest⟩
    | queued data =>
      cases hu
      exact hrest
    | given data =>
      simp only [peerStep] at hu
      split_ifs at hu
      cases hu
      exact hrest

theorem TrafficApart.packetsTold {pkgSize : UInt32} {log : List (ℕ × Traffic)} {heap : ℕ → Option ConnObject}
    {callbacks : List Callback} (h : TrafficApart (packetComplete pkgSize) log heap callbacks) :
    PacketsTold log callbacks := by
  intro n payloads done part hmax hs hrec
  obtain ⟨peer, hpeer, htold, -⟩ := h n
  rw [← htold]
  exact framed_iff hmax hs hrec (peer_plain hpeer)

/-- **Packets through the server.** In every run of either loop with such a callback: as long as what a client has sent is
the beginning of a row of packets, none of them larger than `maxPacketSize`, its data callbacks have got the packets that
have arrived in full, one by one, if and only if no chunk has reached past the end of a packet. The first chunk that does
is handed on with that packet. -/
theorem packets_told_iff (pkgSize : UInt32) (cfg : ServerConfig) (hcfg : cfg.dataCompleteCallback = packetComplete pkgSize)
    (ops : List SelectServer.Op) (fin : SelectServer) (h : run (SelectServer.step cfg) (.start cfg) ops = some fin)
    (listenSocket : ℕ) (pollOps : List PollServer.Op) (pollFin : PollServer)
    (hpoll : run (PollServer.step (packetComplete pkgSize)) (.start listenSocket) pollOps = some pollFin) :
    PacketsTold (shown (SelectServer.step cfg) SelectServer.traffic (.start cfg) ops) fin.callbacks ∧
      PacketsTold (shown (PollServer.step (packetComplete pkgSize)) PollServer.traffic (.start listenSocket) pollOps)
        pollFin.callbacks :=
  ⟨(hcfg ▸ select_apart h).packetsTold, (poll_apart hpoll).packetsTold⟩

/-- a server that listens on descriptor 3 for clients that send packets -/
def framedConfig : ServerConfig := ⟨3, 7, packetComplete 0, by decide⟩

/-- a client connects on descriptor 4, and two empty packets come one by one -/
def SelectServer.framedRun : List SelectServer.Op :=
  List.flatten [[.swap, .select (some ({3}, ∅))], idle 3, [.accept (some 4) 0, .write], idle 3, [.pass]] ++
    (List.replicate 2 (List.flatten [[.swap, .select (some ({4}, ∅))], idle 4, [.recv (.bytes (createPacket [])), .write],
      idle 2, [.pass]])).flatten

/-- the two packets come in one chunk -/
def PollServer.framedRun : List PollServer.Op :=
  PollServer.connectRound ++ PollServer.clientRound ⟨true, false⟩ [.recv (.bytes (createPacket [] ++ createPacket []))]

theorem run_framed :
    ((run (SelectServer.step framedConfig) (.start framedConfig) SelectServer.framedRun).map fun s =>
      buffersOf s.callbacks 0) = some [createPacket [], createPacket []] ∧
    ((run (PollServer.step (packetComplete 0)) (.start 3) PollServer.framedRun).map fun s =>
      buffersOf s.callbacks 0) = some [createPacket [] ++ createPacket []] := by
  decide +kernel

theorem shown_framed :
    chunksOf (shown (SelectServer.step framedConfig) SelectServer.traffic (.start framedConfig) SelectServer.framedRun) 0 =
        [createPacket [], createPacket []] ∧
      chunksOf (shown (PollServer.step (packetComplete 0)) PollServer.traffic (.start 3) PollServer.framedRun) 0 =
        [createPacket [] ++ createPacket []] := by
  decide +kernel

/-- in the loop around `select` each packet is a chunk, and in the other one the two are told as one -/
theorem packets_told_iff_two :
    (∃ fin, run (SelectServer.step framedConfig) (.start framedConfig) SelectServer.framedRun = some fin ∧
      buffersOf fin.callbacks 0 = [createPacket [], createPacket []] ∧ Aligned [[], []] (chunksOf
        (shown (SelectServer.step framedConfig) SelectServer.traffic (.start framedConfig) SelectServer.framedRun) 0)) ∧
      ∃ pollFin, run (PollServer.step (packetComplete 0)) (.start 3) PollServer.framedRun = some pollFin ∧
        buffersOf pollFin.callbacks 0 = [createPacket [] ++ createPacket []] ∧ ¬ Aligned [[], []] (chunksOf
          (shown (PollServer.step (packetComplete 0)) PollServer.traffic (.start 3) PollServer.framedRun) 0) := by
  obtain ⟨fin, hfin, htold⟩ := Option.map_eq_some_iff.1 run_framed.1
  obtain ⟨pollFin, hpoll, hpollTold⟩ := Option.map_eq_some_iff.1 run_framed.2
  obtain ⟨hselect, hpollTwo⟩ := packets_told_iff 0 framedConfig rfl SelectServer.framedRun fin hfin 3 PollServer.framedRun
    pollFin hpoll
  have hmax : ∀ p ∈ [[], []], (p : Bytes).length ≤ maxPacketSize.toNat := by decide
  have hone := hselect 0 [[], []] [[], []] [] hmax (by rw [shown_framed.1]; decide)
    ⟨List.prefix_rfl, by rw [shown_framed.1]; decide, Or.inl rfl⟩
  have htwo := hpollTwo 0 [[], []] [[], []] [] hmax (by rw [shown_framed.2]; decide)
    ⟨List.prefix_rfl, by rw [shown_framed.2]; decide, Or.inl rfl⟩
  refine ⟨⟨fin, hfin, htold, hone.1.1 htold⟩, pollFin, hpoll, hpollTold, ?_⟩
  intro haligned
  have hlater := htwo.1.2 haligned
  rw [hpollTold] at hlater
  exact absurd hlater (by decide)

end NetFramework
