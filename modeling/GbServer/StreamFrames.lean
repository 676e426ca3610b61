import GbServer.StreamRun
/-!
# StreamFrames — well-formed frames, and headers that are not

Frames that a peer sends as the sender of this repository does come out one by one, however they are cut into reads
(`receiveAll_frames`).  A header with a negative `message_size` takes the splitter back over bytes it has passed; one
of -24 alone in its read is read again and again (`splitRun_reread`).
-/
namespace Gb

open Framing (feed)

/-- A frame a sender may send: sizes that fit their fields and add up to the bytes of the body. -/
structure Frame where
  metaSize          : Int
  dataSize          : Int
  body              : List UInt8
  metaSize_nonneg   : 0 ≤ metaSize
  dataSize_nonneg   : 0 ≤ dataSize
  metaSize_lt       : metaSize < 2 ^ 31
  messageSize_lt    : metaSize + dataSize < 2 ^ 63
  body_length       : (body.length : Int) = metaSize + dataSize

namespace Frame

/-- The frame of a heartbeat. -/
def heartbeat : Frame := ⟨0, 0, [], by decide, by decide, by decide, by decide, rfl⟩

/-- A frame with one byte of meta and two of data. -/
def threeBytes : Frame := ⟨1, 2, [7, 8, 9], by decide, by decide, by decide, by decide, rfl⟩

def header (f : Frame) : MessageHeader := .ofFields f.metaSize f.dataSize (f.metaSize + f.dataSize)

def bytes (f : Frame) : List UInt8 := f.header.raw ++ f.body

theorem header_metaSize (f : Frame) : f.header.metaSize = f.metaSize := by
  have := f.metaSize_nonneg
  exact MessageHeader.metaSize_ofFields _ _ _ (by omega) f.metaSize_lt

theorem header_dataSize (f : Frame) : f.header.dataSize = f.dataSize := by
  have h1 := f.metaSize_nonneg
  have h2 := f.dataSize_nonneg
  have h3 := f.messageSize_lt
  exact MessageHeader.dataSize_ofFields _ _ _ (by omega) (by omega)

theorem header_messageSize (f : Frame) : f.header.messageSize = f.body.length := by
  have h1 := f.metaSize_nonneg
  have h2 := f.dataSize_nonneg
  rw [f.body_length]
  exact MessageHeader.messageSize_ofFields _ _ _ (by omega) f.messageSize_lt

theorem decode (f : Frame) : streamFormat.decode f.header.raw = .ok (f.header, f.body.length) := by
  have hmag : f.header.checkMagicString = true := MessageHeader.checkMagicString_ofFields _ _ _
  rw [decode_raw, if_pos hmag, f.header_messageSize, if_neg (by omega), Int.toNat_natCast]

/-- The reader gives back the frames of a stream of frames. -/
theorem feed_bytes (frames : List Frame) : feed streamFormat (.header []) (frames.flatMap bytes) =
    (.header [], frames.map fun f => (f.header, f.body)) :=
  Framing.feed_frames streamFormat (fun f : Frame => f.header.raw) body header (fun f => f.header.raw_length) decode
    frames

/-- A message that carries a frame: its sizes are the frame's, its bytes the frame's meta and data. -/
structure Carries (p : TranBufPool) (i : ReceivedItem) (f : Frame) : Prop where
  metaSize : i.metaSize = f.metaSize
  dataSize : i.dataSize = f.dataSize
  message  : i.message.toString p = some f.body

end Frame

/-- A stream with no byte of a header and no byte of a message received. -/
structure Recv.Idle (s : Recv) : Prop where
  header   : s.receivedHeaderSize = 0
  waiting  : s.receivingHeaderIdentified = false
  received : s.receivedMessageSize = 0
  message  : s.receivingMessage = {}

theorem Recv.Reads.idle {s : Recv} (h : s.Reads (.header [])) : s.Idle := by
  cases h with
  | header hid hsize hlt hraw hmsg hrecv => exact ⟨hsize, hid, hrecv, hmsg⟩

/-- **Frames come out as they went in**, however the stream is cut into reads: in order, each with its sizes and its
bytes, and the stream is idle behind the last one. -/
theorem receiveAll_frames (factor : BlockFactor) (frames : List Frame) (reads : List (List UInt8))
    (hcut : reads.flatten = frames.flatMap Frame.bytes)
    (hfit : FitsBlocks (blockCapacity factor) (blockCapacity factor) reads) :
    ∃ s s' items, (Recv.init factor).onConnected true = (true, s) ∧ s.receiveAll reads = some (s', items) ∧
      List.Forall₂ (Frame.Carries s'.pool) items frames ∧ s'.Idle := by
  obtain ⟨s, hs, hopen, hroom, hfac⟩ := Recv.onConnected_open factor
  have hfeed := Frame.feed_bytes frames
  rw [← hcut] at hfeed
  obtain ⟨s', items, hall, hopen'⟩ := hopen.receiveAll reads (by rw [hfac, hroom]; exact hfit)
    (fun e he => by rw [hfeed] at he; cases he)
  rw [hfeed, List.nil_append, List.nil_append] at hopen'
  refine ⟨s, s', items, hs, hall, ?_, hopen'.reads.idle⟩
  refine (List.forall₂_map_right_iff.1 hopen'.frames).imp fun i f hif => ?_
  exact ⟨hif.metaSize.trans f.header_metaSize, hif.dataSize.trans f.header_dataSize, hif.bytes⟩

/-- A heartbeat and a frame of three bytes, cut inside the second header. -/
theorem receiveAll_frames_heartbeat : ∃ s s' items, (Recv.init 9).onConnected true = (true, s) ∧
    s.receiveAll [(Frame.bytes ⟨0, 0, [], by decide, by decide, by decide, by decide, rfl⟩ ++
        Frame.bytes ⟨1, 2, [7, 8, 9], by decide, by decide, by decide, by decide, rfl⟩).take 30,
      (Frame.bytes ⟨0, 0, [], by decide, by decide, by decide, by decide, rfl⟩ ++
        Frame.bytes ⟨1, 2, [7, 8, 9], by decide, by decide, by decide, by decide, rfl⟩).drop 30] = some (s', items) ∧
    List.Forall₂ (Frame.Carries s'.pool) items [⟨0, 0, [], by decide, by decide, by decide, by decide, rfl⟩,
      ⟨1, 2, [7, 8, 9], by decide, by decide, by decide, by decide, rfl⟩] ∧ s'.Idle :=
  receiveAll_frames 9 _ _ (by simp) ⟨by decide, by decide, trivial⟩

/-! ## Negative sizes -/

/-- **Every call of a run keeps within the bytes of its read exactly when the stream, read as frames, comes to no header
with the right magic and a negative `message_size`** before it comes to a wrong magic. -/
theorem callsBounded_onConnected (factor : BlockFactor) (reads : List (List UInt8))
    (hfit : FitsBlocks (blockCapacity factor) (blockCapacity factor) reads) :
    ((Recv.init factor).onConnected true).2.CallsBounded reads ↔
      ∀ h, (feed streamFormat (.header []) reads.flatten).1 ≠ .failed (.negativeSize h) := by
  obtain ⟨s, hs, hopen, hroom, hfac⟩ := Recv.onConnected_open factor
  rw [hs]
  exact hopen.callsBounded_iff reads (by rw [hfac, hroom]; exact hfit)

/-- Two frames that are cut inside the second header. -/
theorem callsBounded_onConnected_cut : ((Recv.init 9).onConnected true).2.CallsBounded
    [([Frame.threeBytes, Frame.threeBytes].flatMap Frame.bytes).take 40,
      ([Frame.threeBytes, Frame.threeBytes].flatMap Frame.bytes).drop 40] :=
  (callsBounded_onConnected 9 [_, _] ⟨by decide, by decide, trivial⟩).2 (by
    rw [List.flatten_cons, List.flatten_singleton, List.take_append_drop, Frame.feed_bytes]
    intro _ hfailed
    cases hfailed)

/-- A header of -24 bytes that fills its read sends the splitter back to its first byte: it never returns. -/
theorem splitRun_reread (h : MessageHeader) (hmag : h.checkMagicString = true) (hsize : h.messageSize = -24) :
    ∀ (n : Nat) (c : SplitCursor), c.pc = .head → c.stream.Reads (.header []) → c.Holds h.raw →
      ∀ ok c', splitRun n c ≠ .ret ok c' := by
  intro n
  induction n using Nat.strongRecOn with
  | ind n ih =>
    intro c hpc hr hb ok c' hret
    have hrecv : c.stream.receivedMessageSize = 0 := by cases hr; assumption
    have hlo := hb.lo
    have hhi := hb.hi
    rw [h.raw_length] at hhi
    -- the header half, with nothing behind the header, and the body half, which goes back over it
    let d : SplitCursor := ⟨{ c.stream.withHeader h with receivingHeaderIdentified := true }, c.data + h.raw.length, 0,
      c.receivedMessages, .body⟩
    have h1 : splitRun 1 c = .next d := by
      rw [splitRun_one, splitStep, hpc]
      simp only
      rw [splitHead_full c [] h.raw [] h hr (by simpa using hb) rfl, if_pos hmag, if_neg (by omega)]
      rfl
    let e : SplitCursor := ⟨d.stream.resetReceivingEnv, c.data, 24,
      c.receivedMessages ++ [⟨d.stream.receivingMessage, h.metaSize, h.dataSize⟩], .head⟩
    have h2 : splitStep d = .next e := by
      show splitBody d = _
      unfold splitBody
      have hm : d.stream.receivingHeader.messageSize - d.stream.receivedMessageSize = -24 := by
        show h.messageSize - c.stream.receivedMessageSize = -24
        omega
      have hd : d.data + -24 = c.data := by
        show c.data + h.raw.length + -24 = c.data
        rw [h.raw_length]
        simp only [messageHeaderSize]
        omega
      have hpart : ¬ d.stream.receivedMessageSize + d.size < d.stream.receivingHeader.messageSize := by
        show ¬ c.stream.receivedMessageSize + 0 < h.messageSize
        omega
      simp only [hm, hd]
      rw [if_neg hpart, if_neg (show ¬ (0 : Int) < -24 by decide)]
      rfl
    rcases n with _ | _ | n
    · cases hret
    · rw [h1] at hret
      cases hret
    · have hrun : splitRun 2 c = .next e := by
        rw [splitRun_add 1 1 c d h1, splitRun_one]
        exact h2
      rw [Nat.add_comm n 2, splitRun_add 2 n c e hrun] at hret
      refine ih n (by omega) e rfl ?_ ?_ ok c' hret
      · exact .header rfl rfl (by decide) rfl rfl rfl
      · exact ⟨by rw [h.raw_length]; rfl, hb.bytes, hlo, hb.hi⟩

/-- The header of -24 bytes right after the connection. -/
theorem not_callsBounded_reread : FitsBlocks (blockCapacity 9) (blockCapacity 9) [(MessageHeader.ofFields 0 0 (-24)).raw] ∧
    ¬ ((Recv.init 9).onConnected true).2.CallsBounded [(MessageHeader.ofFields 0 0 (-24)).raw] := by
  obtain ⟨s, hs, hopen, hroom, hfac⟩ := Recv.onConnected_open 9
  have hfit : FitsBlocks (blockCapacity 9) (blockCapacity 9) [(MessageHeader.ofFields 0 0 (-24)).raw] :=
    ⟨by decide, trivial⟩
  refine ⟨hfit, ?_⟩
  rw [hs]
  rintro ⟨hcall, -⟩
  obtain ⟨n, ok, c', hret⟩ := hcall.returns
  obtain ⟨ha, hb⟩ := hopen.toSound.arrive _ (by rw [hroom]; exact hfit.1)
  exact splitRun_reread _ (MessageHeader.checkMagicString_ofFields _ _ _)
    (MessageHeader.messageSize_ofFields 0 0 (-24) (by decide) (by decide)) n _ rfl ha.reads hb ok c' hret

end Gb
