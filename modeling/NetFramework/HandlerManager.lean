/-
The dispatcher: `RMIPacket` (rmipacket.h), `NetInfo` (netinfo.h) and `HandlerManager` (handlermanager.cpp).

`handlePacket` decodes a packet from whatever bytes a client has sent, with a decoder that has no error result. What it
makes of them is `handlePacket_eq`: it reads four tokens behind the first character of the text's first token; the third
must be a number, or `std::stoi` throws; the first is looked up among the handlers.

`PacketText` says what a complete packet looks like, and `RMIPacket::serialize` writes nothing else. Whether its four
fields are the tokens depends on the braces in them, because the token that the decoder takes for the packet ends at the
first closing brace too many (`objectDeser_sane`, `third_empty`), and on backslashes at their ends (`tokens_front`).
-/
import NetFramework.StringTokens

namespace NetFramework

open IStream Bracket

/-! ## Model -/

/-- `ρ` are the functions a `ReturnCallbackType` may hold; an empty one is `none`. The constructor leaves `clientId_`
uninitialised. -/
structure NetInfo (ρ : Type) where
  clientId_ : Option Int64
  retCallback_ : Option ρ
deriving DecidableEq, Repr

def NetInfo.new {ρ : Type} : NetInfo ρ := ⟨none, none⟩

structure RMIPacket where
  handlerName : Bytes
  signature : Bytes
  requestId : Int32
  data : Bytes
deriving DecidableEq, Repr

namespace RMIPacket

def new : RMIPacket := ⟨[], [], -1, []⟩

/-- the types of the fields, in the order in which both methods list them -/
@[reducible] def fields : Fields := .cons .str (.cons .str (.cons .int (.cons .str .nil)))

@[reducible] def ty : Ty := .cls [.str [], .str [], .int (-1), .str []] fields

def vals (p : RMIPacket) : fields.Vals := (p.handlerName, p.signature, p.requestId, p.data, ())

def ofVals (v : fields.Vals) : RMIPacket := ⟨v.1, v.2.1, v.2.2.1, v.2.2.2.1⟩

def serialize (p : RMIPacket) : Bytes := NetFramework.serialize ty p.vals

def deserialize (s : IStream) (p : RMIPacket) : Except StdException RMIPacket := do
  let (v, _) ← NetFramework.deserialize ty s p.vals
  return ofVals v

example : new = ofVals ty.default := rfl

end RMIPacket

/-- a call `handler->handleCall(signature, data, netInfo)` -/
structure HandleCall (ι ρ : Type) where
  handler : ι
  signature : Bytes
  data : Bytes
  netInfo : NetInfo ρ
deriving DecidableEq, Repr

/-- `ι` are the handlers; the maps are association lists without duplicate keys -/
structure HandlerManager (ι ρ : Type) where
  handlers_ : List (Bytes × ι)
  netInfos_ : List (Int64 × NetInfo ρ)
deriving DecidableEq, Repr

namespace HandlerManager

variable {ι ρ : Type}

def new : HandlerManager ι ρ := ⟨[], []⟩

/-- `insert` keeps a handler that is already there; `none` is a null pointer -/
def registerHandler (m : HandlerManager ι ρ) (handlerBase : Option (Bytes × ι)) : HandlerManager ι ρ :=
  match handlerBase with
  | none => m
  | some (threadName, handler) =>
    if (m.handlers_.lookup threadName).isSome then m
    else { m with handlers_ := m.handlers_ ++ [(threadName, handler)] }

/-- `netInfos_[clientId]`, which inserts a new entry if there is none -/
def netInfo (m : HandlerManager ι ρ) (clientId : Int64) : NetInfo ρ × HandlerManager ι ρ :=
  match m.netInfos_.lookup clientId with
  | some netInfo => (netInfo, m)
  | none => (.new, { m with netInfos_ := m.netInfos_ ++ [(clientId, .new)] })

/-- the part of `handlePacket` behind the decoding -/
def dispatch (m : HandlerManager ι ρ) (pkg : RMIPacket) (clientId : Int64) :
    HandlerManager ι ρ × Option (HandleCall ι ρ) :=
  match m.handlers_.lookup pkg.handlerName with
  | some handler =>
    let (netInfo, m) := m.netInfo clientId
    (m, some ⟨handler, pkg.signature, pkg.data, { netInfo with clientId_ := some clientId }⟩)
  | none =>
    -- log error
    (m, none)

def handlePacket (m : HandlerManager ι ρ) (data : Bytes) (clientId : Int64) :
    Except StdException (HandlerManager ι ρ × Option (HandleCall ι ρ)) := do
  let pkg ← RMIPacket.deserialize (good data) .new
  return m.dispatch pkg clientId

end HandlerManager

/-! ## What the decoder reads -/

/-- the tokens that `RMIPacket::deserialize` reads from `data` -/
def packetTokens (data : Bytes) : Bytes × Bytes × Bytes × Bytes :=
  let t1 := nextToken (objectDeser (good data)).1
  let t2 := nextToken t1.2
  let t3 := nextToken t2.2
  (t1.1, t2.1, t3.1, (nextToken t3.2).1)

theorem rmi_deserialize (data : Bytes) (p : RMIPacket) :
    RMIPacket.deserialize (good data) p =
      (stoi (packetTokens data).2.2.1).map fun k =>
        ⟨(packetTokens data).1, (packetTokens data).2.1, k, (packetTokens data).2.2.2⟩ := by
  simp only [RMIPacket.deserialize, deserialize, deserializeFields, packetTokens]
  cases h : stoi (nextToken (nextToken (nextToken (objectDeser (good data)).1).2).2).1 with
  | error e => simp only [bind, Except.bind, h]; rfl
  | ok k => simp only [bind, Except.bind, h]; rfl

variable {ι ρ : Type}

theorem handlePacket_eq (m : HandlerManager ι ρ) (data : Bytes) (clientId : Int64) :
    m.handlePacket data clientId =
      (stoi (packetTokens data).2.2.1).map fun k =>
        m.dispatch ⟨(packetTokens data).1, (packetTokens data).2.1, k, (packetTokens data).2.2.2⟩ clientId := by
  unfold HandlerManager.handlePacket
  rw [rmi_deserialize]
  cases stoi (packetTokens data).2.2.1 <;> rfl

/-! ## Complete packets -/

/-- the name and the signature, as they stand in a packet -/
def packetFront (name sig : Bytes) : Bytes := serializeString name ++ comma :: serializeString sig

/-- a complete object text with the four fields of a packet: strings in quotes, with a backslash in front of each quote
of their own, and a number, in braces -/
structure PacketText (data name sig id payload : Bytes) : Prop where
  text : data = lbrace :: (packetFront name sig ++ comma :: (id ++ comma :: serializeString payload)) ++ [rbrace]
  idText : IntField id

def CompletePacket (data : Bytes) : Prop := ∃ name sig id payload, PacketText data name sig id payload

theorem packetText_serialize (p : RMIPacket) :
    PacketText p.serialize p.handlerName p.signature (toText p.requestId) p.data := by
  refine ⟨?_, intField_toText p.requestId⟩
  rw [RMIPacket.serialize, serialize_cls]
  simp [RMIPacket.vals, texts, serialize, listing, packetFront]

/-! ## Their tokens -/

/-- what is left of the data without the first character and the last of its token -/
theorem objectDeser_opener (l : Bytes) :
    (objectDeser (good (lbrace :: l))).1 = good (closing lbrace rbrace 1 l).1.dropLast := by
  unfold objectDeser
  rw [nextToken_opener .curly]
  rcases (closing lbrace rbrace 1 l).1 with _ | ⟨x, _ | ⟨y, more⟩⟩ <;> rfl

/-- a text that closes no brace too many is taken as a whole -/
theorem objectDeser_sane {body : Bytes} (h : Sane lbrace rbrace body) :
    (objectDeser (good (lbrace :: body ++ [rbrace]))).1 = good body := by
  rw [List.cons_append, objectDeser_opener, closing_sane (by decide) h, List.dropLast_concat]

/-- a string that does not end with a backslash -/
theorem nextToken_field {s : Bytes} (hs : s.getLast? ≠ some backslash) (more : Bytes) :
    nextToken (good (serializeString s ++ comma :: more)) = (escape s, good more) := by
  rw [nextToken_string_eq, if_neg hs]
  rfl

theorem nextToken_idField {id : Bytes} (hid : IntField id) (more : Bytes) :
    nextToken (good (id ++ comma :: more)) = (id, good more) := by
  obtain ⟨c, cs, rfl⟩ := List.exists_cons_of_ne_nil hid.ne_nil
  have hne : ∀ {x : UInt8}, x ∉ c :: cs → c ≠ x := by
    rintro x hx rfl
    exact hx List.mem_cons_self
  have hbrackets : ¬ (c = lbracket ∨ c = lbrace) :=
    not_or.2 ⟨hne (hid.not_mem (by decide)), hne (hid.not_mem (by decide))⟩
  rw [List.cons_append, nextToken_cons, if_neg hbrackets, if_neg (hne (hid.not_mem (by decide))), ← List.cons_append,
    (plainLoop_eq (hid.not_mem (by decide)) more).2]

theorem IntField.sane_between {id : Bytes} (hid : IntField id) : Sane lbrace rbrace (comma :: (id ++ [comma])) := by
  have hcomma : rbrace ≠ comma := by decide
  exact sane_of_not_mem (by simp [hcomma, hid.not_mem (by decide : numberChar rbrace = false)])

variable {data name sig id payload : Bytes}

/-- the first three tokens of a text that is taken beyond the number -/
theorem tokens_front (hname : name.getLast? ≠ some backslash) (hsig : sig.getLast? ≠ some backslash) (hid : IntField id)
    {more : Bytes}
    (h : (objectDeser (good data)).1 = good (packetFront name sig ++ comma :: (id ++ comma :: more))) :
    packetTokens data = (escape name, escape sig, id, (nextToken (good more)).1) := by
  rw [packetFront, List.append_assoc, List.cons_append] at h
  simp only [packetTokens, h, nextToken_field hname, nextToken_field hsig, nextToken_idField hid]

/-- **The fields of a complete packet.** They are the tokens, if none of the braces in them closes too much and none of
the strings ends with a backslash. -/
theorem tokens_packetText (h : PacketText data name sig id payload) (hname : name.getLast? ≠ some backslash)
    (hsig : sig.getLast? ≠ some backslash) (hpayload : payload.getLast? ≠ some backslash)
    (hfront : Sane lbrace rbrace (packetFront name sig)) (hlast : Sane lbrace rbrace (serializeString payload)) :
    packetTokens data = (escape name, escape sig, id, escape payload) := by
  obtain ⟨rfl, hid⟩ := h
  have hbody : Sane lbrace rbrace (packetFront name sig ++ comma :: (id ++ comma :: serializeString payload)) := by
    simpa using (hfront.append (hid.sane_between)).append hlast
  have htoken := nextToken_string_eq payload []
  rw [List.append_nil, if_neg hpayload] at htoken
  rw [tokens_front hname hsig hid (objectDeser_sane hbody), htoken]

/-- the number is read if the name and the signature close no brace too many, whatever the payload is -/
theorem third_of_sane (h : PacketText data name sig id payload) (hname : name.getLast? ≠ some backslash)
    (hsig : sig.getLast? ≠ some backslash) (hfront : Sane lbrace rbrace (packetFront name sig)) :
    (packetTokens data).2.2.1 = id := by
  obtain ⟨rfl, hid⟩ := h
  have htext : packetFront name sig ++ comma :: (id ++ comma :: serializeString payload) ++ [rbrace] =
      packetFront name sig ++ comma :: (id ++ [comma]) ++ quote :: (escape payload ++ [quote, rbrace]) := by
    simp [serializeString_eq]
  obtain ⟨r, hr⟩ := closing_pass (by decide) (hfront.append hid.sane_between) quote (escape payload ++ [quote, rbrace])
  have hdeser : (objectDeser (good (lbrace :: (packetFront name sig ++
      comma :: (id ++ comma :: serializeString payload)) ++ [rbrace]))).1 =
        good (packetFront name sig ++ comma :: (id ++ comma :: (quote :: r).dropLast)) := by
    rw [List.cons_append, objectDeser_opener, htext, hr, List.dropLast_append_of_ne_nil (List.cons_ne_nil _ _)]
    simp
  rw [tokens_front hname hsig hid hdeser]

theorem skipComma_rest_nil {s : IStream} (h : s.rest = []) : s.skipComma.rest = [] := by
  cases s with
  | eof => rfl
  | good l =>
    obtain rfl : l = [] := h
    rfl

/-- nothing is left behind the token of a text that breaks off in a string or at its end -/
theorem nextToken_broken {s u : Bytes} (hu : u <+: serializeString s) : (nextToken (good u)).2.rest = [] := by
  rw [serializeString_eq, List.cons_append] at hu
  rcases List.prefix_cons_iff.1 hu with rfl | ⟨w, rfl, hw⟩
  · rfl
  · have hloop : (quoteLoop false w).2.rest = [] := by
      rcases List.prefix_concat_iff.1 hw with rfl | ⟨v, hv⟩
      · rw [quoteLoop_escape]
        cases endsWithBackslash false s <;> rfl
      · have hall : w.length ≤ (quoteLoop false (w ++ v)).1.length := by
          have hescape := quoteLoop_escape false s []
          rw [List.append_nil] at hescape
          rw [hv, hescape, ← hv, List.length_append, List.length_append]
          omega
        rw [quoteLoop_short hall]
        rfl
    rw [nextToken_cons, if_neg (by decide), if_pos rfl]
    exact skipComma_rest_nil hloop

/-- where the name or the signature closes a brace too many, there is no third token -/
theorem third_empty (h : PacketText data name sig id payload) (hname : name.getLast? ≠ some backslash)
    (hfront : ¬ Sane lbrace rbrace (packetFront name sig)) : (packetTokens data).2.2.1 = [] := by
  obtain ⟨rfl, -⟩ := h
  have hnone : ∀ {s : IStream}, s.rest = [] → nextToken s = ([], eof) := by
    intro s hs
    rw [nextToken_rest, hs, nextToken_nil]
  rw [packetTokens, List.cons_append, List.append_assoc, objectDeser_opener]
  have hcut := (List.dropLast_prefix _).trans
    (closing_early (by decide) hfront (comma :: (id ++ comma :: serializeString payload) ++ [rbrace]))
  revert hcut
  generalize (closing lbrace rbrace 1 _).1.dropLast = u
  intro hcut
  rw [packetFront] at hcut
  rcases List.prefix_or_prefix_of_prefix hcut (List.prefix_append _ _) with hu | ⟨v, rfl⟩
  · -- the text breaks off in the name
    rw [hnone (nextToken_broken hu), nextToken_eof]
  · rcases List.prefix_cons_iff.1 ((List.prefix_append_right_inj _).1 hcut) with rfl | ⟨w, rfl, hw⟩
    · rw [List.append_nil, hnone (nextToken_broken (List.prefix_refl _)), nextToken_eof]
    · -- it breaks off in the signature
      rw [nextToken_field hname, hnone (nextToken_broken hw)]

end NetFramework
