import GbServer.MessageData
import GbServer.StreamFrames
/-!
# MetaRoundTrip — the meta of every message, from `Session::Send` to `ReadMeta`

Every overload of `Session::Send` that is given a meta puts its 30 bytes behind the header (`sent_meta`).  The splitter makes a
handle of every read, so a read that ends inside the meta leaves the first block of the message shorter than the meta,
and `ReadMeta`, which looks at one block, leaves the buffer inside the meta.  `meta_roundTrip` has the exact conditions.
-/
namespace Gb

open Session (SentData sentHeader)

universe u

/-- What the overloads come to that are given the meta `m`. -/
inductive SendsMeta {Msg : Type u} (c : Codecs) (pb : Protobuf Msg) (p : TranBufPool) (m : Meta) : SendResult → Prop
  | alone : SendsMeta c pb p m (Session.sendMeta p (some m))
  | raw (call : RawSend) : SendsMeta c pb p m (call.send c p m)
  | message (message : Msg) : SendsMeta c pb p m (Session.sendMessage c pb p (some m) message)

theorem frame_not_sent (p : TranBufPool) (m : Meta) (putData : WriteBuffer → DataResult)
    (hput : ∀ w w', putData w ≠ .written w') (rb : ReadBuffer) (pool : TranBufPool) :
    Session.frame p m putData ≠ .sent rb pool := by
  intro h
  unfold Session.frame at h
  split at h
  · cases h
  · split at h
    · cases h
    · dsimp only at h
      split at h
      · cases h
      · cases h
      · rename_i w' hw
        exact hput _ w' hw

theorem frame_putRaw_sent (c : Codecs) (p : TranBufPool) (m : Meta) (payload : List UInt8) {rb : ReadBuffer}
    {pool : TranBufPool} (h : Session.frame p m (Session.putRaw c m payload) = .sent rb pool) :
    ∃ data, SentData (Session.frame p m (Session.putRaw c m payload)) m data := by
  cases htype : CompressType.ofCode m.compressType with
  | none =>
    refine absurd h (frame_not_sent p m _ (fun w w' hw => ?_) rb pool)
    rw [Session.putRaw, htype] at hw
    cases hw
  | some type =>
    rcases Session.putRaw_cases c m payload htype with ⟨data, -, hput⟩ | ⟨-, hput⟩
    · exact ⟨data, Session.frame_sent p m _ data hput⟩
    · rw [Session.frame_fault p m _ hput] at h
      cases h

/-- What is sent is a header, the meta and some data. -/
theorem sent_meta {Msg : Type u} {c : Codecs} {pb : Protobuf Msg} {p : TranBufPool} {m : Meta} {r : SendResult}
    (hr : SendsMeta c pb p m r) {rb : ReadBuffer} {pool : TranBufPool} (h : r = .sent rb pool) :
    ∃ data, SentData r m data := by
  cases hr with
  | alone => exact ⟨[], Session.sendMeta_sent p m⟩
  | raw call =>
    cases hp : call.payload p with
    | some payload =>
      rw [call.send_eq c p m payload hp] at h ⊢
      exact frame_putRaw_sent c p m payload h
    | none =>
      cases call with
      | vector data | stringView data => cases hp
      | pointer data size =>
        rw [RawSend.payload] at hp
        split at hp
        · cases hp
        · rename_i hle
          rw [RawSend.send, Session.sendPointer, if_neg hle] at h
          cases h
      | readBuffer dataBuffer =>
        rw [RawSend.payload] at hp
        rw [RawSend.send, Session.sendReadBuffer, hp] at h
        cases h
  | message message =>
    change Session.frame p m (Session.putMessage c pb m message) = _ at h
    cases htype : CompressType.ofCode m.compressType with
    | none =>
      refine absurd h (frame_not_sent p m _ (fun w w' hw => ?_) rb pool)
      rw [Session.putMessage, htype] at hw
      cases hw
    | some type =>
      cases hbs : pb.serialize message with
      | none =>
        refine absurd h (frame_not_sent p m _ (fun w w' hw => ?_) rb pool)
        rw [Session.putMessage, htype, hbs] at hw
        cases type <;> cases hw
      | some bs => exact ⟨_, Session.frame_putMessage c pb p m message htype hbs⟩

/-- **A meta comes back exactly when the first block of its message holds the whole of it**, and a `meta_size` from the
wire is read in bounds exactly when it is one of a `Meta` or less and the first block has as many bytes. -/
theorem meta_roundTrip {Msg : Type u} (c : Codecs) (pb : Protobuf Msg) (p : TranBufPool) (m : Meta) :
    (∀ r rb pool, SendsMeta c pb p m r → r = .sent rb pool → ∃ data, SentData r m data ∧
      (sentHeader data).metaSize = metaStructSize ∧ ∀ (q : TranBufPool) (rb' : ReadBuffer), rb'.Fresh →
        rb'.toString q = some (m.raw ++ data) → (RecoversMeta q rb' m data ↔ (metaStructSize : Int) ≤ rb'.firstSize)) ∧
    (∀ (q : TranBufPool) (rb : ReadBuffer) (metaSize : Int), rb.Fresh → -2 ^ 31 ≤ metaSize → metaSize < 2 ^ 31 →
      (ReadMetaBounded q rb metaSize ↔ 0 ≤ metaSize ∧ metaSize ≤ metaStructSize ∧ metaSize ≤ rb.firstSize)) := by
  constructor
  · intro r rb pool hr hsent
    obtain ⟨data, hdata⟩ := sent_meta hr hsent
    exact ⟨data, hdata, MessageHeader.metaSize_ofFields _ _ _ (by decide) (by decide),
      fun q rb' hfresh hbytes => readMeta_sent_iff q rb' hfresh m data hbytes⟩
  · exact fun q rb metaSize hfresh lo hi => readMetaBounded_iff q rb hfresh metaSize lo hi

/-- A meta with bytes of its own. -/
def countedMeta : Meta := ⟨0 :: 1 :: 2 :: List.replicate 27 0, by decide⟩

def countedFrame : List UInt8 := (sentHeader [7, 8, 9]).raw ++ (countedMeta.raw ++ [7, 8, 9])

/-- A frame with a meta and three bytes of data, in a read of 55 bytes and one of two: the first block of its message has
the meta and one byte, and a `meta_size` of 31 passes the end of the `Meta`. -/
theorem meta_roundTrip_cut : SentData (Session.sendVector literalCodecs .init countedMeta [7, 8, 9]) countedMeta [7, 8, 9] ∧
    ∃ s item, ((Recv.init 1).onConnected true).2.receiveAll [countedFrame.take 55, countedFrame.drop 55] =
        some (s, [item]) ∧ item.metaSize = 30 ∧ item.message.firstSize = 31 ∧
      RecoversMeta s.pool item.message countedMeta [7, 8, 9] ∧ ReadMetaBounded s.pool item.message 30 ∧
      ¬ReadMetaBounded s.pool item.message 31 := by
  have hsent : SentData (Session.sendVector literalCodecs .init countedMeta [7, 8, 9]) countedMeta [7, 8, 9] :=
    (@Session.frame_putRaw literalCodecs .init countedMeta [7, 8, 9] .compressTypeNone rfl [7, 8, 9]).2 rfl
  refine ⟨hsent, ?_⟩
  have hrun : (((Recv.init 1).onConnected true).2.receiveAll [countedFrame.take 55, countedFrame.drop 55]).map (fun r =>
      r.2.map fun i => ([i.metaSize, i.message.firstSize, i.message.curIt, i.message.curPos, i.message.readBytes],
        i.message.toString r.1.pool)) = some [([30, 31, 0, 0, 0], some (countedMeta.raw ++ [7, 8, 9]))] := by
    decide +kernel
  obtain ⟨⟨s, items⟩, hr, hitems⟩ := Option.map_eq_some_iff.1 hrun
  obtain ⟨item, rest, rfl, hitem, hrest⟩ := List.map_eq_cons_iff.1 hitems
  rw [List.map_eq_nil_iff.1 hrest] at hr
  simp only [Prod.mk.injEq, List.cons.injEq, and_true] at hitem
  obtain ⟨⟨hmetaSize, hfirst, hcurIt, hcurPos, hreadBytes⟩, hbytes⟩ := hitem
  have hfresh : item.message.Fresh := ⟨Int.natCast_eq_zero.1 hcurIt, hcurPos, hreadBytes⟩
  obtain ⟨hmeta, hsizes⟩ := meta_roundTrip literalCodecs boolMessage .init countedMeta
  obtain ⟨rb, pool, heq, -⟩ := id hsent
  obtain ⟨data, hdata, -, hrecovers⟩ := hmeta _ rb pool (.raw (.vector [7, 8, 9])) heq
  obtain rfl := hdata.unique hsent
  refine ⟨s, item, hr, hmetaSize, hfirst, (hrecovers s.pool item.message hfresh hbytes).2 ?_,
    (hsizes s.pool item.message 30 hfresh (by decide) (by decide)).2 ?_, fun hbounded => ?_⟩
  · rw [hfirst]
    decide
  · rw [hfirst]
    decide
  · have hle := ((hsizes s.pool item.message 31 hfresh (by decide) (by decide)).1 hbounded).2.1
    exact absurd hle (by decide)

/-- The frame of a message without data. -/
def emptyFrame : List UInt8 := (sentHeader []).raw ++ (Meta.init.raw ++ [])

/-- That frame, in a read of 34 bytes and one of 20: `ReadMeta` leaves the buffer behind the first ten bytes of the meta. -/
theorem not_recoversMeta_split : SentData (Session.sendVector literalCodecs .init .init []) .init [] ∧
    ∃ s item, ((Recv.init 0).onConnected true).2.receiveAll [emptyFrame.take 34, emptyFrame.drop 34] = some (s, [item]) ∧
      ¬ RecoversMeta s.pool item.message .init [] := by
  refine ⟨(@Session.frame_putRaw literalCodecs .init .init [] .compressTypeNone rfl []).2 rfl, ?_⟩
  have hrun : (((Recv.init 0).onConnected true).2.receiveAll [emptyFrame.take 34, emptyFrame.drop 34]).map (fun r =>
      r.2.map fun i => (onReceiveCall r.1.pool i.message metaStructSize).map fun x => x.2.byteCount) = some [some 10] := by
    decide +kernel
  obtain ⟨⟨s, items⟩, hr, hitems⟩ := Option.map_eq_some_iff.1 hrun
  obtain ⟨item, rest, rfl, hcount, hrest⟩ := List.map_eq_cons_iff.1 hitems
  rw [List.map_eq_nil_iff.1 hrest] at hr
  refine ⟨s, item, hr, ?_⟩
  rintro ⟨rb', hrb', -, hbyte⟩
  rw [hrb', Option.map_some, hbyte] at hcount
  cases hcount

end Gb
