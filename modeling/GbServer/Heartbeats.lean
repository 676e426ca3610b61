import GbServer.NetworkDispatch
import GbServer.SessionSend
import GbServer.StreamFrames
/-!
# Heartbeats — what a receiver does with a header alone

A heartbeat is `Session::Send(nullptr)` (`session.cpp`): a header whose sizes are zero, and nothing behind it.  The splitter
makes a message without a block of it, `ReadMeta` copies nothing, and the `Meta` is the default one: a plain message of
type 0.  So `Dispatch` gives it to a listener exactly if there is one of type 0 (`heartbeats_inert_iff`).
-/
namespace Gb

/-! ## What is sent -/

namespace Session

theorem sendMeta_heartbeat (p : TranBufPool) :
    ∃ rb pool, sendMeta p none = .sent rb pool ∧ rb.Fresh ∧ rb.toString pool = some Frame.heartbeat.bytes := by
  have hnew : (WriteBuffer.mk p [] 0 0 0 0 4).Holds [] := ⟨.nil, rfl⟩
  obtain ⟨w₁, g, hreserve, h₁, hg⟩ := hnew.reserve (fun _ => rfl) (messageHeaderSize : Nat)
  rw [Int.toNat_natCast] at hg
  obtain ⟨w₂, hset, h₂⟩ := h₁.setData 0 MessageHeader.init.raw (by
    rw [MessageHeader.raw_length, List.nil_append, hg]
    exact Nat.le_refl _)
  obtain ⟨hbytes, hfresh⟩ := h₂.swapOut
  refine ⟨(w₂.swapOut {}).1, (w₂.swapOut {}).2.pool, ?_, hfresh, ?_⟩
  · rw [sendMeta, show WriteBuffer.reserve { pool := p } messageHeaderSize memory = some (((0 : Nat) : Int), w₁) from hreserve]
    dsimp only
    rw [hset]
  · rw [hbytes, List.nil_append, Bytes.overwrite_eq _ _ _ (by
      rw [MessageHeader.raw_length, hg]
      exact Nat.le_refl _), List.take_zero, List.nil_append, Nat.zero_add, MessageHeader.raw_length, ← hg, List.drop_length]
    rfl

end Session

/-! ## The blocks of a received message -/

/-- Nothing was taken from the buffer, and no handle of it is empty. -/
structure ReadBuffer.Filled (rb : ReadBuffer) : Prop where
  fresh : rb.Fresh
  sizes : ∀ h ∈ rb.bufList, 0 < h.size

theorem ReadBuffer.Filled.append {rb : ReadBuffer} (hrb : rb.Filled) (p : TranBufPool) {h : BufferHandle} (hh : 0 < h.size) :
    (rb.append p h).1.Filled := by
  refine ⟨hrb.fresh.append p h, fun k hk => ?_⟩
  rcases List.mem_append.1 hk with hk | hk
  · exact hrb.sizes k hk
  · rw [List.mem_singleton.1 hk]
    exact hh

/-- A buffer without bytes has no blocks. -/
theorem ReadBuffer.Filled.bufList_of_empty {rb : ReadBuffer} (hrb : rb.Filled) {p : TranBufPool}
    (hbytes : rb.toString p = some []) : rb.bufList = [] := by
  cases hlist : rb.bufList with
  | nil       => rfl
  | cons h hs =>
    have hpos := hrb.sizes h (hlist ▸ List.mem_cons_self)
    rw [ReadBuffer.toString, hlist] at hbytes
    obtain ⟨x, xs, hx, _, hnil⟩ := readHandles_cons_inv hbytes
    have hlen := TranBufPool.read_length hx
    have hzero : x.length = 0 := by
      rw [List.nil_eq_append_iff.1 hnil |>.1]
      rfl
    omega

/-- A message under construction has no empty blocks, and there is none of it before its header. -/
structure Recv.Filling (s : Recv) : Prop where
  message : s.receivingMessage.Filled
  waiting : s.receivingHeaderIdentified = false → s.receivedMessageSize = 0

/-- What the splitter has made so far; behind a header alone it goes on only where the message is empty. -/
structure SplitCursor.Filling (c : SplitCursor) : Prop where
  stream : c.stream.Filling
  range  : c.size < 2 ^ 31
  body   : c.pc = .body → c.stream.receivingHeaderIdentified = true ∧ 0 ≤ c.size ∧
    (0 < c.size ∨ c.stream.receivingHeader.messageSize ≤ c.stream.receivedMessageSize)
  items  : ∀ i ∈ c.receivedMessages, i.message.Filled

theorem Recv.Filling.init (s : Recv) : s.resetReceivingEnv.Filling :=
  ⟨⟨⟨rfl, rfl, rfl⟩, fun _ hh => nomatch hh⟩, fun _ => rfl⟩

theorem Recv.Filling.appendHandle {s : Recv} (h : s.Filling) {size : Int} (data : Int) (hpos : 0 < size)
    (hlt : size < 2 ^ 31) : (s.appendHandle size data).receivingMessage.Filled := by
  refine h.message.append s.pool ?_
  show 0 < toInt32 size
  rw [toInt32_of_range size (by omega) hlt]
  exact hpos

/-- The header that is identified leaves the rest of the stream. -/
theorem Recv.identifyMessageHeader_frame {s t : Recv} {data size result : Int} {consumed : Nat}
    (h : s.identifyMessageHeader data size = some (t, result, consumed)) :
    t.receivingMessage = s.receivingMessage ∧ t.receivedMessageSize = s.receivedMessageSize ∧
      t.receivingHeaderIdentified = s.receivingHeaderIdentified ∧ consumed ≤ size.toNat := by
  unfold Recv.identifyMessageHeader at h
  dsimp only at h
  split at h
  · cases h
  · split at h
    · cases h
      exact ⟨rfl, rfl, rfl, Nat.min_le_left _ _⟩
    · split at h
      · cases h
        exact ⟨rfl, rfl, rfl, Nat.min_le_left _ _⟩
      · cases h
        exact ⟨rfl, rfl, rfl, Nat.min_le_left _ _⟩

namespace SplitCursor.Filling

variable {c c' : SplitCursor}

/-- Looking for a header leaves the message as it is. -/
theorem head (h : c.Filling) (hpc : c.pc = .head) (hstep : (splitHead c).Leaves c') : c'.Filling := by
  have hnot : c.pc = .body → False := fun hbody => by
    rw [hpc] at hbody
    cases hbody
  unfold splitHead at hstep
  split at hstep
  · rw [SplitStep.leaves_ret] at hstep
    exact hstep ▸ h
  rename_i hsize
  split at hstep
  · rename_i hid
    rw [SplitStep.leaves_next] at hstep
    subst hstep
    exact ⟨h.stream, h.range, fun _ => ⟨hid, (not_le.1 hsize).le, .inl (not_le.1 hsize)⟩, h.items⟩
  split at hstep
  · exact absurd hstep (SplitStep.leaves_fault c')
  rename_i s result consumed hidentify
  obtain ⟨hmessage, hreceived, hid, hconsumed⟩ := Recv.identifyMessageHeader_frame hidentify
  have hwaiting : s.Filling := ⟨hmessage ▸ h.stream.message, fun hs => hreceived ▸ h.stream.waiting (hid ▸ hs)⟩
  dsimp only at hstep
  split at hstep
  · have hidentified : ({ s with receivingHeaderIdentified := true } : Recv).Filling :=
      ⟨hwaiting.message, fun hs => nomatch hs⟩
    split at hstep
    · rw [SplitStep.leaves_ret] at hstep
      subst hstep
      exact ⟨hidentified, h.range, fun hbody => (hnot hbody).elim, h.items⟩
    · rename_i hgo
      rw [SplitStep.leaves_next] at hstep
      subst hstep
      have hzero : s.receivedMessageSize = 0 :=
        hreceived.trans (h.stream.waiting (by simpa using ‹¬ c.stream.receivingHeaderIdentified = true›))
      refine ⟨hidentified, ?_, fun _ => ⟨rfl, ?_, ?_⟩, h.items⟩
      · have := h.range
        show c.size - consumed < 2 ^ 31
        omega
      · show 0 ≤ c.size - consumed
        omega
      · -- a header at the end of the read goes on only if nothing is to follow it
        show 0 < c.size - consumed ∨ s.receivingHeader.messageSize ≤ s.receivedMessageSize
        by_cases hend : (consumed : Int) = c.size
        · exact .inr (by
            rw [hzero]
            exact not_lt.1 fun hpos => hgo ⟨hend, hpos⟩)
        · exact .inl (by omega)
  · split at hstep
    · rw [SplitStep.leaves_ret] at hstep
      subst hstep
      exact ⟨hwaiting, h.range, fun hbody => (hnot hbody).elim, h.items⟩
    · rw [SplitStep.leaves_ret] at hstep
      subst hstep
      exact ⟨hwaiting, h.range, fun hbody => (hnot hbody).elim, h.items⟩

/-- What the body half appends is not empty. -/
theorem take (h : c.Filling) (hpc : c.pc = .body) (hstep : (splitStep c).Leaves c') : c'.Filling := by
  obtain ⟨hid, hsize, hmore⟩ := h.body hpc
  have hrange := h.range
  cases splitStep_cases c c' hstep with
  | stay hhead                  => cases hpc.symm.trans hhead
  | known hhead                 => cases hpc.symm.trans hhead
  | wait hhead                  => cases hpc.symm.trans hhead
  | header hhead                => cases hpc.symm.trans hhead
  | part _ hlt heq              =>
    subst heq
    have hpos : 0 < c.size := by
      rw [SplitCursor.consumeSize] at hlt
      omega
    exact ⟨⟨h.stream.appendHandle c.data hpos hrange, fun hs => Bool.noConfusion (hid.symm.trans hs)⟩, hrange,
      fun _ => ⟨hid, hsize, .inl hpos⟩, h.items⟩
  | whole _ hle s hs heq        =>
    have hmessage : s.receivingMessage.Filled := by
      rw [hs]
      split
      · rename_i hpos
        exact h.stream.appendHandle c.data hpos (by omega)
      · exact h.stream.message
    have hlt := toInt32_lt (c.size - c.consumeSize)
    subst heq
    refine ⟨.init s, hlt, fun hbody => SplitPc.noConfusion hbody, fun i hi => ?_⟩
    rcases List.mem_append.1 hi with hi | hi
    · exact h.items i hi
    · rw [List.mem_singleton.1 hi]
      exact hmessage

theorem run {n : Nat} (h : c.Filling) (hrun : (splitRun n c).Leaves c') : c'.Filling := by
  refine splitRun_induction SplitCursor.Filling (fun d d' hd hstep => ?_) n c c' h hrun
  cases hpc : d.pc with
  | head =>
    rw [splitStep, hpc] at hstep
    exact hd.head hpc hstep
  | body => exact hd.take hpc hstep

end SplitCursor.Filling

/-- A new block leaves the message as it is. -/
theorem Recv.resetTranBuf_frame {s t : Recv} (h : s.resetTranBuf true = (true, t)) :
    t.receivingMessage = s.receivingMessage ∧ t.receivedMessageSize = s.receivedMessageSize ∧
      t.receivingHeaderIdentified = s.receivingHeaderIdentified := by
  unfold Recv.resetTranBuf at h
  dsimp only at h
  generalize TranBufPool.malloc _ _ _ = r at h
  split at h
  · cases congrArg Prod.fst h
  · obtain rfl := congrArg Prod.snd h
    exact ⟨rfl, rfl, rfl⟩

theorem Recv.Filling.onReadSome {s s' : Recv} {n fuel : Nat} {items : List ReceivedItem} (h : s.Filling) (hn : n < 2 ^ 31)
    (hread : s.onReadSome n true fuel = .received s' items) : s'.Filling ∧ ∀ i ∈ items, i.message.Filled := by
  have hcall : (splitCall s s.receivingData n).Filling := by
    refine ⟨h, ?_, fun hbody => SplitPc.noConfusion hbody, fun _ hi => nomatch hi⟩
    show (n : Int) < 2 ^ 31
    omega
  cases hrun : splitRun fuel (splitCall s s.receivingData n) with
  | next c => rw [Recv.onReadSome, hrun] at hread; cases hread
  | fault  => rw [Recv.onReadSome, hrun] at hread; cases hread
  | ret ok c =>
    cases ok with
    | false => rw [Recv.onReadSome_refused true hrun] at hread; cases hread
    | true  =>
      have hc := hcall.run (.inr ⟨true, hrun⟩)
      rw [Recv.onReadSome_ret true hrun] at hread
      split at hread
      · split at hread
        · rename_i t hreset
          cases hread
          refine ⟨?_, hc.items⟩
          obtain ⟨hmessage, hreceived, hid⟩ := Recv.resetTranBuf_frame hreset
          exact ⟨hmessage ▸ hc.stream.message, fun hs => hreceived ▸ hc.stream.waiting (hid ▸ hs)⟩
        · cases hread
      · cases hread
        exact ⟨⟨hc.stream.message, hc.stream.waiting⟩, hc.items⟩

/-- **No message that a stream delivers has an empty block.** -/
theorem Recv.Filling.receiveAll {capacity : Nat} (hcapacity : capacity < 2 ^ 31) : ∀ (reads : List (List UInt8)) {room : Nat}
    {s s' : Recv} {items : List ReceivedItem}, s.Filling → room ≤ capacity → FitsBlocks capacity room reads →
    s.receiveAll reads = some (s', items) → ∀ i ∈ items, i.message.Filled
  | [], _, _, _, _, _, _, _, hall, i, hi => by
    cases hall
    cases hi
  | bs :: reads, room, s, s', items, h, hroom, ⟨hfit, hfits⟩, hall, i, hi => by
    rw [Recv.receiveAll] at hall
    split at hall
    · rename_i t items₁ hread
      obtain ⟨ht, hitems₁⟩ := (show (s.arrive bs).Filling from ⟨h.message, h.waiting⟩).onReadSome (by omega) hread
      cases hrest : t.receiveAll reads with
      | none => rw [hrest] at hall; cases hall
      | some r =>
        rw [hrest] at hall
        cases hall
        rcases List.mem_append.1 hi with hi | hi
        · exact hitems₁ i hi
        · refine Recv.Filling.receiveAll hcapacity reads ht ?_ hfits hrest i hi
          split <;> omega
    · cases hall

/-! ## What is done with it -/

/-- `OnReceiveCall` for a message without blocks: a default `Meta`, and nothing is taken from the buffer. -/
theorem onReceiveCall_empty (p : TranBufPool) {rb : ReadBuffer} (hempty : rb.bufList = []) :
    onReceiveCall p rb 0 = some (.init, { rb with lastBytes := 0 }) := by
  have hnext : rb.next = (none, { rb with lastBytes := 0 }) := by
    rw [ReadBuffer.next, hempty, List.getElem?_nil]
  rw [onReceiveCall, readMeta, hnext]
  rfl

namespace Network

/-- A message that is inert: `OnReceiveCall` takes no byte of it, and the network is afterwards as it was. -/
def Inert (n : Network) (io : Nat) (session : SessionId) (p : TranBufPool) (i : ReceivedItem) : Prop :=
  ∃ m rb, onReceiveCall p i.message i.metaSize = some (m, rb) ∧ rb.byteCount = 0 ∧ n.step (.received io session m) = n

/-- A plain message of type 0 changes nothing exactly if it has no listener. -/
theorem received_init_iff (n : Network) (io : Nat) (session : SessionId) :
    n.step (.received io session .init) = n ↔ n.handlers.findListenFunction 0 = none := by
  have hmode : Meta.init.mode = MsgMode.msg := rfl
  have htype : Meta.init.type = 0 := rfl
  rw [step, networkDispatch, if_pos hmode, htype]
  cases n.handlers.findListenFunction 0 with
  | none         => exact ⟨fun _ => rfl, fun _ => rfl⟩
  | some handler =>
    refine ⟨fun heq => ?_, fun hnone => nomatch hnone⟩
    have hlen := congrArg (fun n => n.dispatching.length) heq
    rw [List.length_cons] at hlen
    omega

end Network

/-- A frame whose body is empty is a heartbeat. -/
theorem Frame.eq_heartbeat {f : Frame} (hbody : f.body = []) : f = .heartbeat := by
  obtain ⟨metaSize, dataSize, body, hmeta, hdata, h₁, h₂, hlen⟩ := f
  have hbody : body = [] := hbody
  subst hbody
  have hsum : 0 = metaSize + dataSize := hlen
  obtain rfl : metaSize = 0 := by omega
  obtain rfl : dataSize = 0 := by omega
  rfl

/-- The messages that stand for heartbeats are without a block, and give a default `Meta` without a byte taken. -/
def HeartbeatsEmpty (p : TranBufPool) (items : List ReceivedItem) (frames : List Frame) : Prop :=
  ∀ (k : Nat) (i : ReceivedItem), items[k]? = some i → frames[k]? = some Frame.heartbeat →
    i.message.bufList = [] ∧ ∃ rb, onReceiveCall p i.message i.metaSize = some (.init, rb) ∧ rb.byteCount = 0

/-- **A heartbeat is received as a message without a block**, wherever it stands in a stream of frames and however that
is cut into reads. -/
theorem receiveAll_heartbeats (factor : BlockFactor) (frames : List Frame) (reads : List (List UInt8))
    (hcut : reads.flatten = frames.flatMap Frame.bytes)
    (hfit : FitsBlocks (blockCapacity factor) (blockCapacity factor) reads) :
    ∃ s s' items, (Recv.init factor).onConnected true = (true, s) ∧ s.receiveAll reads = some (s', items) ∧
      items.length = frames.length ∧ s'.Idle ∧ HeartbeatsEmpty s'.pool items frames := by
  obtain ⟨s, s', items, hconnected, hall, hcarries, hidle⟩ := receiveAll_frames factor frames reads hcut hfit
  have hfilling : s.Filling := by
    obtain ⟨hmessage, hreceived, hid⟩ := Recv.resetTranBuf_frame hconnected
    exact ⟨hmessage ▸ (Recv.Filling.init _).message, fun _ => hreceived⟩
  have hfilled := hfilling.receiveAll (blockCapacity_lt factor).2 reads (Nat.le_refl _) hfit hall
  refine ⟨s, s', items, hconnected, hall, hcarries.length_eq, hidle, fun k i hi hframe => ?_⟩
  obtain ⟨hk, rfl⟩ := List.getElem?_eq_some_iff.1 hi
  obtain ⟨hk', hheartbeat⟩ := List.getElem?_eq_some_iff.1 hframe
  obtain ⟨hmetaSize, -, hbytes⟩ := (List.forall₂_iff_get.1 hcarries).2 k hk hk'
  rw [List.get_eq_getElem, List.get_eq_getElem, hheartbeat] at hmetaSize hbytes
  have hmessage := hfilled _ (List.getElem_mem hk)
  have hempty := hmessage.bufList_of_empty hbytes
  have hreceive := onReceiveCall_empty s'.pool hempty
  rw [← show items[k].metaSize = 0 from hmetaSize] at hreceive
  exact ⟨hempty, _, hreceive, hmessage.fresh.readBytes⟩

/-- Every heartbeat of a stream is inert, in a network that it comes to. -/
def HeartbeatsInert (n : Network) (io : Nat) (session : SessionId) (p : TranBufPool) (items : List ReceivedItem)
    (frames : List Frame) : Prop :=
  ∀ (k : Nat) (i : ReceivedItem), items[k]? = some i → frames[k]? = some Frame.heartbeat → n.Inert io session p i

theorem HeartbeatsEmpty.inert_iff {p : TranBufPool} {items : List ReceivedItem} {frames : List Frame}
    (h : HeartbeatsEmpty p items frames) (hlen : items.length = frames.length) (n : Network) (io : Nat)
    (session : SessionId) : HeartbeatsInert n io session p items frames ↔
      (Frame.heartbeat ∈ frames → n.handlers.findListenFunction 0 = none) := by
  constructor
  · intro hinert hmem
    obtain ⟨k, hk⟩ := List.mem_iff_getElem?.1 hmem
    obtain ⟨hlt, -⟩ := List.getElem?_eq_some_iff.1 hk
    obtain ⟨i, hi⟩ : ∃ i, items[k]? = some i := ⟨_, List.getElem?_eq_getElem (hlen ▸ hlt)⟩
    obtain ⟨-, rb, hreceive, -⟩ := h k i hi hk
    obtain ⟨m, rb', hreceive', -, hsame⟩ := hinert k i hi hk
    rw [hreceive, Option.some.injEq, Prod.mk.injEq] at hreceive'
    exact (n.received_init_iff io session).1 (hreceive'.1 ▸ hsame)
  · intro hnone k i hi hframe
    obtain ⟨-, rb, hreceive, hcount⟩ := h k i hi hframe
    exact ⟨.init, rb, hreceive, hcount, (n.received_init_iff io session).2 (hnone (List.mem_of_getElem? hframe))⟩

/-- **Heartbeats are inert exactly if there is no listener of type 0**: in a stream of frames, `Send(nullptr)` among them,
cut into reads in any way, a heartbeat is received without a byte of a message, and then leaves the network as it was if
and only if no listener is found for type 0. -/
theorem heartbeats_inert_iff (factor : BlockFactor) (frames : List Frame) (reads : List (List UInt8))
    (hcut : reads.flatten = frames.flatMap Frame.bytes)
    (hfit : FitsBlocks (blockCapacity factor) (blockCapacity factor) reads) (n : Network) (io : Nat) (session : SessionId) :
    (∀ p, ∃ rb pool, Session.sendMeta p none = .sent rb pool ∧ rb.toString pool = some Frame.heartbeat.bytes) ∧
    ∃ s s' items, (Recv.init factor).onConnected true = (true, s) ∧ s.receiveAll reads = some (s', items) ∧
      items.length = frames.length ∧ s'.Idle ∧ HeartbeatsEmpty s'.pool items frames ∧
      (HeartbeatsInert n io session s'.pool items frames ↔
        (Frame.heartbeat ∈ frames → n.handlers.findListenFunction 0 = none)) := by
  refine ⟨fun p => ?_, ?_⟩
  · obtain ⟨rb, pool, hsent, -, hbytes⟩ := Session.sendMeta_heartbeat p
    exact ⟨rb, pool, hsent, hbytes⟩
  · obtain ⟨s, s', items, hconnected, hall, hlen, hidle, hempty⟩ := receiveAll_heartbeats factor frames reads hcut hfit
    exact ⟨s, s', items, hconnected, hall, hlen, hidle, hempty, hempty.inert_iff hlen n io session⟩

/-- A heartbeat between two others, in reads that cut it, for a network with RPC methods alone. -/
theorem heartbeats_inert_iff_cut :
    (∀ p, ∃ rb pool, Session.sendMeta p none = .sent rb pool ∧ rb.toString pool = some Frame.heartbeat.bytes) ∧
    ∃ s s' items, (Recv.init 9).onConnected true = (true, s) ∧
      s.receiveAll [[Frame.heartbeat, .heartbeat].flatMap Frame.bytes |>.take 30,
        [Frame.heartbeat, .heartbeat].flatMap Frame.bytes |>.drop 30] = some (s', items) ∧
      items.length = [Frame.heartbeat, .heartbeat].length ∧ s'.Idle ∧
      HeartbeatsEmpty s'.pool items [.heartbeat, .heartbeat] ∧
      (HeartbeatsInert { handlers := { rpcInterfaceMap := fun _ => some 7 } } 0 0 s'.pool items [.heartbeat, .heartbeat] ↔
        (Frame.heartbeat ∈ [Frame.heartbeat, .heartbeat] →
          Handlers.findListenFunction { rpcInterfaceMap := fun _ => some 7 } 0 = none)) :=
  heartbeats_inert_iff 9 [.heartbeat, .heartbeat] [[Frame.heartbeat, .heartbeat].flatMap Frame.bytes |>.take 30,
    [Frame.heartbeat, .heartbeat].flatMap Frame.bytes |>.drop 30] (by simp) ⟨by decide, by decide, trivial⟩ _ 0 0

/-- A listener for `MT_Login`, which is 0, is called for a heartbeat. -/
theorem not_heartbeats_inert :
    (∃ s s' items, (Recv.init 9).onConnected true = (true, s) ∧
      s.receiveAll [Frame.heartbeat.bytes] = some (s', items) ∧
      ¬ HeartbeatsInert { handlers := { listenFunctionMap := fun type => if type = 0 then some 7 else none } } 0 0 s'.pool
        items [.heartbeat]) ∧
    ([.registered { listenFunctionMap := fun type => if type = 0 then some 7 else none }, .received 0 0 .init,
      .dispatched 0].foldl Network.step {}).ran = [(.io 0, ⟨7, 0, .init, none⟩)] := by
  refine ⟨?_, by decide⟩
  obtain ⟨s, s', items, hconnected, hall, hlen, -, hempty⟩ :=
    receiveAll_heartbeats 9 [.heartbeat] [Frame.heartbeat.bytes] (by simp) ⟨by decide, trivial⟩
  refine ⟨s, s', items, hconnected, hall, fun hinert => ?_⟩
  have hnone := (hempty.inert_iff hlen _ 0 0).1 hinert List.mem_cons_self
  cases hnone

end Gb
