import GbServer.Heartbeats
import GbServer.MsgpackParams
import GbServer.RpcHandler
/-!
# RpcArguments — the arguments of a call, from the caller to the function

`NetworkManager::Call` (`network_manager.h`) and `RpcReply::Invoke` (`rpc_reply.h`) pack their arguments, whatever they are;
the handlers of `MakeRpcHandler` (`rpc_function.hpp`) and the callbacks of `RpcCall::SetCallBack` (`rpc_call.h`) parse a
single message of protobuf, and unpack other arguments.  A message that is not empty never arrives, as `Call` packs
nothing of it; other arguments arrive if the body does and each of them has a branch on both sides
(`arguments_delivered_iff`).
-/
namespace Gb

open Msgpack (Ty Buffer Fault Param Emitted Arrives Aligned packParam unpackParam)
open Session (SentData sentHeader intBytes intSize)

/-- The parameters of a handler, behind an `RpcReply` if there is one. -/
inductive Parameters
  | message
  | values (ps : List Param)

/-- `std::tuple`. -/
def params : List Param → Param
  | []      => .unit
  | p :: ps => .pair p (params ps)

def Parameters.Val (Msg : Type) : Parameters → Type
  | message   => Msg
  | values ps => (params ps).Val

/-! ## The sender -/

/-- `pack<Args...>`, if there are arguments. -/
def packArguments : (ps : List Param) → (params ps).Val → Option (List UInt8)
  | [],      _    => none
  | p :: ps, args => some (packParam (params (p :: ps)) args)

/-- A message of protobuf comes to the last branch of `pack_type`. -/
def Parameters.pack {Msg : Type} : (ps : Parameters) → ps.Val Msg → Option (List UInt8)
  | .message,   _    => some []
  | .values ps, args => packArguments ps args

/-- `Call` of packed arguments, up to `Session::Send`: a buffer without bytes is not sent. -/
def callSend (c : Codecs) (p : TranBufPool) (m : Meta) : Option (List UInt8) → SendResult
  | none      => Session.sendMeta p (some m)
  | some data =>
    match WriteBuffer.append { pool := p } data (intSize data) Session.memory with
    | none        => .fault
    | some (_, w) =>
      let (buffer, w) := w.swapOut {}
      if 0 < buffer.totalCount then Session.sendReadBuffer c w.pool m buffer else Session.sendMeta w.pool (some m)

/-- `Invoke` of packed arguments, up to `Session::Send`. -/
def invokeSend (c : Codecs) (p : TranBufPool) (m : Meta) (data : Option (List UInt8)) : SendResult :=
  Session.sendVector c p m (data.getD [])

/-! ## The receiver -/

section

variable {Msg : Type} (c : Codecs) (pb : Protobuf Msg) (p : TranBufPool) (outside : Int → UInt8) (memory : Memory)

/-- `msgpack_unpack_tuple`. -/
def unpackArguments (ps : List Param) (s : List UInt8) : Except Fault (params ps).Val :=
  match memory.place s with
  | some b =>
    match unpackParam b (params ps) {} with
    | .ok values _ => .ok values
    | .error e _   => .error e
  | none   => .error .badAlloc

/-- `MakeRpcHandler` of a function with these parameters. -/
def requestHandler (reply : Bool) (r : Received) : (ps : Parameters) → Served (Option RpcReply × ps.Val Msg)
  | .values []        => .invoked (r.rpcReply reply, ())
  | .message          =>
    match makeRpcHandler pb p r.buffer with
    | some msg => .invoked (r.rpcReply reply, msg)
    | none     => .skipped
  | .values (t :: ts) =>
    .withData (r.data c p outside) fun s =>
      applyUnpacked (fun values => (r.rpcReply reply, values)) (unpackArguments memory (t :: ts) s)

/-- `SetCallBack` of a function with these parameters behind its `RpcErrorCode`, on a response. -/
def responseCallback (r : Received) : (ps : List Param) → Served (RpcErrorCode × (params ps).Val)
  | []      => .invoked (.none, ())
  | t :: ts =>
    .withData (r.data c p outside) fun s =>
      applyUnpacked (fun values => (.none, values)) (unpackArguments memory (t :: ts) s)

end

/-! ## The way -/

/-- A message of this meta and this data, at a handler: the data is what is left of the buffer behind the meta. -/
structure Received.Carries (q : TranBufPool) (r : Received) (m : Meta) (data : List UInt8) : Prop where
  meta_    : r.meta_ = m
  metaSize : r.metaSize = (sentHeader data).metaSize
  dataSize : r.dataSize = (sentHeader data).dataSize
  bytes    : r.buffer.toString q = some (m.raw ++ data)
  rest     : r.buffer.remaining q = some data

theorem Block.length_eq (bs : List UInt8) : bs.length = bs.length + blockHeadSize - blockHeadSize :=
  (Nat.add_sub_cancel _ _).symm

/-- A pool of one block. -/
def TranBufPool.single (bs : List UInt8) : TranBufPool where
  blocks b := if b = 1 then some ⟨bs.length + blockHeadSize, 1, bs, Block.length_eq bs, Nat.one_pos⟩ else none
  next     := 2
  next_pos := by decide
  null     := rfl
  fresh    := fun _ hb => if_neg (Nat.ne_of_gt hb)

theorem TranBufPool.read_single (pre bs post : List UInt8) :
    (TranBufPool.single (pre ++ bs ++ post)).read 1 pre.length bs.length = some bs := by
  have hblock : (TranBufPool.single (pre ++ bs ++ post)).blocks 1 = some ⟨(pre ++ bs ++ post).length + blockHeadSize, 1,
    pre ++ bs ++ post, (Nat.add_sub_cancel _ _).symm, by decide⟩ := rfl
  rw [read, hblock]
  dsimp only
  rw [if_pos ⟨by omega, by simp⟩, Int.toNat_natCast, Bytes.slice, List.append_assoc, List.drop_left, List.take_left]

/-- Any message can come to a handler. -/
theorem exists_received (session : SessionId) (m : Meta) (data : List UInt8) :
    ∃ q r, Received.Carries q r m data ∧ r.session = session := by
  let q := TranBufPool.single (m.raw ++ data)
  let front : BufferHandle := ⟨1, m.raw.length, 0⟩
  let back : BufferHandle := ⟨1, data.length, m.raw.length⟩
  have hfront : front.read q = some m.raw := by
    have h := TranBufPool.read_single [] m.raw data
    rwa [List.nil_append] at h
  have hback : back.read q = some data := by
    have h := TranBufPool.read_single m.raw data []
    rwa [List.append_nil] at h
  have hrest : readHandles q [back] = some data := by
    rw [readHandles_cons_eq_some q back [] data [] hback rfl, List.append_nil]
  let buffer : ReadBuffer := { bufList := [front, back], curIt := 1 }
  have hbytes : buffer.toString q = some (m.raw ++ data) := readHandles_cons_eq_some q front [back] m.raw data hfront hrest
  have hremaining : buffer.remaining q = some data := by
    show readHandles q [⟨back.data, back.size - 0, back.offset + 0⟩] = some data
    rw [Int.sub_zero, Int.add_zero]
    exact hrest
  obtain ⟨metaSize, hmetaSize⟩ : ∃ x, x = (sentHeader data).metaSize := ⟨_, rfl⟩
  obtain ⟨dataSize, hdataSize⟩ : ∃ x, x = (sentHeader data).dataSize := ⟨_, rfl⟩
  exact ⟨q, ⟨session, m, buffer, metaSize, dataSize⟩, ⟨rfl, hmetaSize, hdataSize, hbytes, hremaining⟩, rfl⟩

/-- What is sent arrives as this body. -/
def BodyArrives (c : Codecs) (sent : SendResult) (m : Meta) (body : List UInt8) : Prop :=
  ∃ data, SentData sent m data ∧ ∀ q outside r, Received.Carries q r m data → r.data c q outside = .ok body

theorem Received.Carries.data_iff {c : Codecs} {q : TranBufPool} {outside : Int → UInt8} {r : Received} {m : Meta}
    {data : List UInt8} {type : CompressType} (hr : r.Carries q m data)
    (htype : CompressType.ofCode m.compressType = some type) (hlt : data.length < 2 ^ 31) (body : List UInt8) :
    r.data c q outside = .ok body ↔ decodeRaw c type data = some body := by
  rw [Received.data, hr.meta_, hr.metaSize, hr.dataSize]
  exact getMsgData_sent c outside htype hlt hr.bytes body

theorem bodyArrives_iff {c : Codecs} {sent : SendResult} {m : Meta} {body data : List UInt8} {type : CompressType}
    (htype : CompressType.ofCode m.compressType = some type) (hsent : SentData sent m data) (hlt : data.length < 2 ^ 31) :
    BodyArrives c sent m body ↔ decodeRaw c type data = some body := by
  constructor
  · rintro ⟨data', hsent', harrives⟩
    obtain rfl := hsent'.unique hsent
    obtain ⟨q, r, hr, -⟩ := exists_received 0 m data'
    exact (hr.data_iff htype hlt body).1 (harrives q (fun _ => 0) r hr)
  · intro hdecode
    exact ⟨data, hsent, fun q outside r hr => (hr.data_iff htype hlt body).2 hdecode⟩

/-- A body that a receiver takes out of a message fits an `int`. -/
theorem decodeRaw_length {c : Codecs} {type : CompressType} {data body : List UInt8} (hlt : data.length < 2 ^ 31)
    (h : decodeRaw c type data = some body) : body.length < 2 ^ 31 := by
  unfold decodeRaw at h
  split at h
  · cases h
    exact hlt
  · obtain ⟨plain, _, rfl⟩ := Option.map_eq_some_iff.1 h
    exact readCoded_length plain

theorem decodeRaw_nil {c : Codecs} (hc : c.Lawful) (type : CompressType) : decodeRaw c type [] = some [] := by
  cases type with
  | compressTypeNone => rfl
  | compressTypeGzip => exact congrArg (fun bs => some (readCoded bs)) (hc.inflate_nil .gzip)
  | compressTypeZlib => exact congrArg (fun bs => some (readCoded bs)) (hc.inflate_nil .zlib)
  | compressTypeLZ4  => rfl

theorem rawSurvives_nil (c : Codecs) (type : CompressType) : RawSurvives c type [] := by
  cases type with
  | compressTypeNone => exact Nat.two_pow_pos 31
  | compressTypeGzip => exact .inl rfl
  | compressTypeZlib => exact .inl rfl
  | compressTypeLZ4  => rfl

theorem RawSurvives.length_lt {c : Codecs} {type : CompressType} {payload : List UInt8} (h : RawSurvives c type payload) :
    payload.length < 2 ^ 31 := by
  have hdeflate : ∀ f, payload = [] ∨ DeflateFits c f payload → payload.length < 2 ^ 31 := by
    rintro f (rfl | hfits)
    · exact Nat.two_pow_pos 31
    · have := hfits.1
      rw [List.length_append] at this
      omega
  cases type with
  | compressTypeNone => exact h
  | compressTypeGzip => exact hdeflate .gzip h
  | compressTypeZlib => exact hdeflate .zlib h
  | compressTypeLZ4  =>
    rw [show payload = [] from h]
    exact Nat.two_pow_pos 31

/-- What `Invoke` packed arrives exactly if it survives as raw data. -/
theorem bodyArrives_putRaw {c : Codecs} (hc : c.Lawful) (p : TranBufPool) (m : Meta) {type : CompressType}
    (htype : CompressType.ofCode m.compressType = some type) (payload : List UInt8) :
    BodyArrives c (Session.frame p m (Session.putRaw c m payload)) m payload ↔ RawSurvives c type payload := by
  rw [← rawRoundTrip_iff hc p m (.vector payload) rfl htype, rawRoundTrip_eq c p m (.vector payload) rfl htype]
  constructor
  · rintro ⟨data, hsent, harrives⟩
    have hdata := (Session.frame_putRaw c p m payload htype data).1 hsent
    exact ⟨data, hdata, (bodyArrives_iff htype hsent (rawData_length hdata)).1 ⟨data, hsent, harrives⟩⟩
  · rintro ⟨data, hdata, hdecode⟩
    have hsent := (Session.frame_putRaw c p m payload htype data).2 hdata
    exact (bodyArrives_iff htype hsent (rawData_length hdata)).2 hdecode

/-- `Call` sends as many of the packed bytes as an `int` counts, and a meta alone if there are none. -/
theorem callSend_eq (c : Codecs) (p : TranBufPool) (m : Meta) (payload : List UInt8) : ∃ q, callSend c p m (some payload) =
    if 0 < (intBytes payload).length then Session.frame q m (Session.putRaw c m (intBytes payload))
    else Session.sendMeta q (some m) := by
  have hnew : (WriteBuffer.mk p [] 0 0 0 0 4).Holds [] := ⟨.nil, rfl⟩
  obtain ⟨w, happend, hw⟩ := hnew.append (fun _ => rfl) payload (intSize payload) (Session.intSize_le payload)
  rw [List.nil_append] at hw
  obtain ⟨hbytes, -⟩ := hw.swapOut
  have hcount : (w.swapOut {}).1.totalCount = (intBytes payload).length := hw.swapOut_totalCount
  refine ⟨(w.swapOut {}).2.pool, ?_⟩
  rw [callSend, show WriteBuffer.append { pool := p } payload (intSize payload) Session.memory = some (true, w) from happend]
  dsimp only
  rw [hcount, Session.sendReadBuffer, hbytes]
  simp only [Int.natCast_pos]
  rfl

/-- What `Call` packed arrives, too, exactly if it survives as raw data. -/
theorem bodyArrives_callSend {c : Codecs} (hc : c.Lawful) (p : TranBufPool) (m : Meta) {type : CompressType}
    (htype : CompressType.ofCode m.compressType = some type) (payload : List UInt8) :
    BodyArrives c (callSend c p m (some payload)) m payload ↔ RawSurvives c type payload := by
  obtain ⟨q, hsend⟩ := callSend_eq c p m payload
  rw [hsend]
  by_cases hlt : payload.length < 2 ^ 31
  · rw [(Session.intBytes_eq_iff payload).2 hlt]
    split
    · exact bodyArrives_putRaw hc _ m htype payload
    · rename_i hzero
      obtain rfl : payload = [] := List.eq_nil_of_length_eq_zero (by omega)
      refine iff_of_true ?_ (rawSurvives_nil c type)
      exact (bodyArrives_iff htype (Session.sendMeta_sent _ m) (by decide)).2 (decodeRaw_nil hc type)
  · refine iff_of_false (fun harrives => hlt ?_) fun h => hlt h.length_lt
    split at harrives
    · obtain ⟨data, hsent, hbody⟩ := harrives
      have hdata := rawData_length ((Session.frame_putRaw c _ m _ htype data).1 hsent)
      exact decodeRaw_length hdata ((bodyArrives_iff htype hsent hdata).1 ⟨data, hsent, hbody⟩)
    · exact decodeRaw_length (by decide) ((bodyArrives_iff htype (Session.sendMeta_sent _ m) (by decide)).1 harrives)

/-! ## Delivery -/

section

variable (c : Codecs)

/-- What is sent is served with these arguments, wherever it comes to, and nothing was left out of its body. -/
def Delivers {β : Type} (sent : SendResult) (m : Meta) (served : TranBufPool → (Int → UInt8) → Received → Served β)
    (expected : Received → β) (complete : List UInt8 → Prop) : Prop :=
  ∃ data, SentData sent m data ∧ ∀ q outside r, Received.Carries q r m data →
    served q outside r = .invoked (expected r) ∧ ∃ body, r.data c q outside = .ok body ∧ complete body

/-- The body is the arguments, each of them in it. -/
def Whole (ps : List Param) (args : (params ps).Val) (body : List UInt8) : Prop :=
  body = packParam (params ps) args ∧ Emitted (params ps) args

variable {Msg : Type} (pb : Protobuf Msg) (p : TranBufPool) (memory : Memory) (m : Meta)

/-- The body is the encoding of the message, or the arguments. -/
def Parameters.Complete : (ps : Parameters) → ps.Val Msg → List UInt8 → Prop
  | .message,   msg,  body => pb.serialize msg = some body
  | .values ps, args, body => Whole ps args body

/-- The arguments of `Call` come to the function of a handler with the same parameters. -/
def CallDelivers (reply : Bool) (ps : Parameters) (args : ps.Val Msg) : Prop :=
  Delivers c (callSend c p m (ps.pack args)) m (fun q outside r => requestHandler c pb q outside memory reply r ps)
    (fun r => (r.rpcReply reply, args)) (ps.Complete pb args)

/-- The arguments of `Invoke` come to a callback with the same parameters. -/
def InvokeDelivers (ps : List Param) (args : (params ps).Val) : Prop :=
  Delivers c (invokeSend c p m (packArguments ps args)) m (fun q outside r => responseCallback c q outside memory r ps)
    (fun _ => (.none, args)) (Whole ps args)

variable (type : CompressType)

/-- Each of the arguments arrives, and the bytes of all of them survive the way and find room at its end. -/
def ArgumentsArrive (ps : List Param) (args : (params ps).Val) : Prop :=
  ps = [] ∨ Arrives (params ps) args ∧ RawSurvives c type (packParam (params ps) args) ∧
    (memory.place (packParam (params ps) args)).isSome

/-- The same, or a message whose encoding is empty. -/
def Parameters.Arrive : (ps : Parameters) → ps.Val Msg → Prop
  | .message,   msg  => pb.serialize msg = some []
  | .values ps, args => ArgumentsArrive c memory type ps args

/-- Arguments are compared where `Aligned` allows it. -/
def Parameters.Aligned : (ps : Parameters) → ps.Val Msg → Prop
  | .message,   _    => True
  | .values ps, args => Msgpack.Aligned (params ps) args

end

section

variable {c : Codecs} {memory : Memory} {m : Meta} {type : CompressType}

theorem unpackArguments_ok_iff {ps : List Param} {s : List UInt8} {args : (params ps).Val} :
    unpackArguments memory ps s = .ok args ↔
      ∃ b u, memory.place s = some b ∧ unpackParam b (params ps) {} = .ok args u := by
  unfold unpackArguments
  cases memory.place s with
  | none   => exact iff_of_false (fun h => nomatch h) (fun ⟨_, _, h, _⟩ => nomatch h)
  | some b =>
    dsimp only
    constructor
    · intro h
      split at h
      · rename_i u hrun
        cases h
        exact ⟨b, u, rfl, hrun⟩
      · cases h
    · rintro ⟨b', u, hb, hu⟩
      obtain rfl := Option.some.inj hb
      rw [hu]

/-- The bytes that arrive are unpacked to the arguments. -/
theorem unpackArguments_iff {ps : List Param} {args : (params ps).Val} :
    (Arrives (params ps) args → (memory.place (packParam (params ps) args)).isSome →
      Emitted (params ps) args ∧ unpackArguments memory ps (packParam (params ps) args) = .ok args) ∧
    (Msgpack.Aligned (params ps) args → Emitted (params ps) args →
      unpackArguments memory ps (packParam (params ps) args) = .ok args →
      Arrives (params ps) args ∧ (memory.place (packParam (params ps) args)).isSome) := by
  constructor
  · intro harrives hroom
    obtain ⟨b, hb⟩ := Option.isSome_iff_exists.1 hroom
    obtain ⟨hemitted, u, hu⟩ := (Msgpack.unpackParam_iff (memory.place_bytes hb)).1 harrives
    exact ⟨hemitted, unpackArguments_ok_iff.2 ⟨b, u, hb, hu⟩⟩
  · intro haligned hemitted hok
    obtain ⟨b, u, hb, hu⟩ := unpackArguments_ok_iff.1 hok
    exact ⟨(Msgpack.unpackParam_iff (memory.place_bytes hb)).2 haligned ⟨hemitted, u, hu⟩, by rw [hb]; rfl⟩

theorem applyUnpacked_eq_ok {α β : Type} {f : α → β} (hf : Function.Injective f) {e : Except Fault α} {x : α} :
    applyUnpacked f e = .invoked (f x) ↔ e = .ok x := by
  cases e with
  | ok y    => simp [applyUnpacked, hf.eq_iff]
  | error e => by_cases he : Throws e <;> simp [applyUnpacked, he]

/-- What is unpacked of a body and handed to a function, whoever sent it. -/
theorem delivers_iff {β : Type} {sent : SendResult} {t : Param} {ts : List Param} {args : (params (t :: ts)).Val}
    (hbody : BodyArrives c sent m (packParam (params (t :: ts)) args) ↔
      RawSurvives c type (packParam (params (t :: ts)) args))
    {served : TranBufPool → (Int → UInt8) → Received → Served β} {wrap : Received → (params (t :: ts)).Val → β}
    (hwrap : ∀ r, Function.Injective (wrap r))
    (hserved : ∀ q outside r s, r.data c q outside = .ok s →
      served q outside r = applyUnpacked (wrap r) (unpackArguments memory (t :: ts) s)) :
    (ArgumentsArrive c memory type (t :: ts) args →
      Delivers c sent m served (fun r => wrap r args) (Whole (t :: ts) args)) ∧
    (Msgpack.Aligned (params (t :: ts)) args →
      Delivers c sent m served (fun r => wrap r args) (Whole (t :: ts) args) → ArgumentsArrive c memory type (t :: ts) args) := by
  constructor
  · rintro (hnil | ⟨harrives, hsurvives, hroom⟩)
    · cases hnil
    obtain ⟨hemitted, hok⟩ := unpackArguments_iff.1 harrives hroom
    obtain ⟨data, hsent, hdata⟩ := hbody.2 hsurvives
    refine ⟨data, hsent, fun q outside r hr => ⟨?_, _, hdata q outside r hr, rfl, hemitted⟩⟩
    rw [hserved q outside r _ (hdata q outside r hr), hok]
    rfl
  · rintro haligned ⟨data, hsent, hdelivered⟩
    have hsurvives := hbody.1 ⟨data, hsent, fun q outside r hr => by
      obtain ⟨_, body, hdata, rfl, _⟩ := hdelivered q outside r hr
      exact hdata⟩
    obtain ⟨q, r, hr, -⟩ := exists_received 0 m data
    obtain ⟨hinvoked, body, hdata, rfl, hemitted⟩ := hdelivered q (fun _ => 0) r hr
    rw [hserved q _ r _ hdata] at hinvoked
    have hok := (applyUnpacked_eq_ok (hwrap r)).1 hinvoked
    obtain ⟨harrives, hroom⟩ := unpackArguments_iff.2 haligned hemitted hok
    exact .inr ⟨harrives, hsurvives, hroom⟩

end

/-- What arrives of the arguments of `Call`. -/
theorem callDelivers_iff {Msg : Type} {c : Codecs} (hc : c.Lawful) {pb : Protobuf Msg} (hpb : pb.Lawful) (p : TranBufPool)
    (memory : Memory) {m : Meta} {type : CompressType} (htype : CompressType.ofCode m.compressType = some type) (reply : Bool) :
    ∀ (ps : Parameters) (args : ps.Val Msg),
      (ps.Arrive c pb memory type args → CallDelivers c pb p memory m reply ps args) ∧
      (ps.Aligned args → CallDelivers c pb p memory m reply ps args → ps.Arrive c pb memory type args)
  | .message, msg => by
    have hsent : SentData (callSend c p m (some [])) m [] := by
      obtain ⟨q, hsend⟩ := callSend_eq c p m []
      rw [hsend]
      exact Session.sendMeta_sent q m
    constructor
    · intro hmsg
      refine ⟨[], hsent, fun q outside r hr => ⟨?_, [], (hr.data_iff htype (by decide) []).2 (decodeRaw_nil hc type), hmsg⟩⟩
      dsimp only [requestHandler, makeRpcHandler]
      rw [hr.rest, Option.bind_some, hpb.parse_serialize msg [] hmsg]
    · rintro - ⟨data, hsent', hdelivered⟩
      obtain rfl := hsent'.unique hsent
      obtain ⟨q, r, hr, -⟩ := exists_received 0 m []
      obtain ⟨_, body, hdata, hmsg⟩ := hdelivered q (fun _ => 0) r hr
      obtain rfl := Except.ok.inj (hdata.symm.trans ((hr.data_iff htype (by decide) []).2 (decodeRaw_nil hc type)))
      exact hmsg
  | .values [], args => by
    refine ⟨fun _ => ⟨[], Session.sendMeta_sent p m, fun q outside r hr => ⟨rfl, [], ?_, rfl, trivial⟩⟩, fun _ _ => .inl rfl⟩
    exact (hr.data_iff htype (by decide) []).2 (decodeRaw_nil hc type)
  | .values (t :: ts), args =>
    delivers_iff (bodyArrives_callSend hc p m htype _) (fun r => Prod.mk_right_injective (r.rpcReply reply))
      fun q outside r s hdata => by
        show Served.withData (r.data c q outside) _ = _
        rw [hdata]
        rfl

/-- What arrives of the arguments of `Invoke`. -/
theorem invokeDelivers_iff {c : Codecs} (hc : c.Lawful) (p : TranBufPool) (memory : Memory) {m : Meta} {type : CompressType}
    (htype : CompressType.ofCode m.compressType = some type) : ∀ (ps : List Param) (args : (params ps).Val),
      (ArgumentsArrive c memory type ps args → InvokeDelivers c p memory m ps args) ∧
      (Msgpack.Aligned (params ps) args → InvokeDelivers c p memory m ps args → ArgumentsArrive c memory type ps args)
  | [],      args => by
    obtain ⟨data, hsent, hdata⟩ := (bodyArrives_putRaw hc p m htype []).2 (rawSurvives_nil c type)
    exact ⟨fun _ => ⟨data, hsent, fun q outside r hr => ⟨rfl, [], hdata q outside r hr, rfl, trivial⟩⟩, fun _ _ => .inl rfl⟩
  | t :: ts, args =>
    delivers_iff (bodyArrives_putRaw hc p m htype _) (fun _ => Prod.mk_right_injective RpcErrorCode.none)
      fun q outside r s hdata => by
        show Served.withData (r.data c q outside) _ = _
        rw [hdata]
        rfl

/-- **Arguments are delivered exactly if each of them has a branch on both sides and their body arrives; a message of
protobuf is delivered by `Call` exactly if its encoding is empty.** -/
theorem arguments_delivered_iff {Msg : Type} (c : Codecs) (hc : c.Lawful) (pb : Protobuf Msg) (hpb : pb.Lawful)
    (p : TranBufPool) (memory : Memory) (m : Meta) (type : CompressType)
    (htype : CompressType.ofCode m.compressType = some type) :
    (∀ reply (ps : Parameters) (args : ps.Val Msg),
      (ps.Arrive c pb memory type args → CallDelivers c pb p memory m reply ps args) ∧
      (ps.Aligned args → CallDelivers c pb p memory m reply ps args → ps.Arrive c pb memory type args)) ∧
    ∀ (ps : List Param) (args : (params ps).Val),
      (ArgumentsArrive c memory type ps args → InvokeDelivers c p memory m ps args) ∧
      (Msgpack.Aligned (params ps) args → InvokeDelivers c p memory m ps args → ArgumentsArrive c memory type ps args) :=
  ⟨fun reply => callDelivers_iff hc hpb p memory htype reply, invokeDelivers_iff hc p memory htype⟩

/-- Calls without compression. -/
theorem arguments_delivered_plain :
    (∀ reply (ps : Parameters) (args : ps.Val Bool),
      (ps.Arrive literalCodecs boolMessage lowMemory .compressTypeNone args →
        CallDelivers literalCodecs boolMessage .init lowMemory .init reply ps args) ∧
      (ps.Aligned args → CallDelivers literalCodecs boolMessage .init lowMemory .init reply ps args →
        ps.Arrive literalCodecs boolMessage lowMemory .compressTypeNone args)) ∧
    ∀ (ps : List Param) (args : (params ps).Val),
      (ArgumentsArrive literalCodecs lowMemory .compressTypeNone ps args →
        InvokeDelivers literalCodecs .init lowMemory .init ps args) ∧
      (Msgpack.Aligned (params ps) args → InvokeDelivers literalCodecs .init lowMemory .init ps args →
        ArgumentsArrive literalCodecs lowMemory .compressTypeNone ps args) :=
  arguments_delivered_iff literalCodecs literalCodecs_lawful boolMessage boolMessage_lawful .init lowMemory .init
    .compressTypeNone rfl

/-- A message whose field is set, by `Call`; and a `long long` in front of an `int32_t`, by both. -/
theorem not_arguments_delivered :
    ¬ CallDelivers literalCodecs boolMessage .init lowMemory .init true .message true ∧
    (∀ reply, ¬ CallDelivers literalCodecs boolMessage .init lowMemory .init reply (.values [.plain .int64, .num (.int .int32)])
      (Msgpack.IntType.int64.wrap 7, Msgpack.IntType.int32.wrap 5, ())) ∧
    ¬ InvokeDelivers literalCodecs .init lowMemory .init [.plain .int64, .num (.int .int32)]
      (Msgpack.IntType.int64.wrap 7, Msgpack.IntType.int32.wrap 5, ()) := by
  have hlost : ¬ ArgumentsArrive literalCodecs lowMemory .compressTypeNone [.plain .int64, .num (.int .int32)]
      (Msgpack.IntType.int64.wrap 7, Msgpack.IntType.int32.wrap 5, ()) := by
    rintro (hnil | ⟨harrives, -⟩)
    · cases hnil
    · exact harrives.1
  have htype : CompressType.ofCode Meta.init.compressType = some .compressTypeNone := rfl
  have hcall := callDelivers_iff literalCodecs_lawful boolMessage_lawful .init lowMemory htype
  refine ⟨fun h => ?_, fun reply h => ?_, fun h => ?_⟩
  · have hmsg := (hcall true .message true).2 trivial h
    cases hmsg
  · exact hlost ((hcall reply (.values _) _).2 ⟨trivial, trivial, trivial⟩ h)
  · exact hlost ((invokeDelivers_iff literalCodecs_lawful .init lowMemory rfl _ _).2 ⟨trivial, trivial, trivial⟩ h)

end Gb
