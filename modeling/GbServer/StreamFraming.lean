import GbServer.StreamSplit
/-!
# StreamFraming — the splitter is the reader of the stream

`Recv.Reads s st` says which state of the reader of `Lib/Framing` the stream `s` stands for.  One pass of the loop
takes the reader over the bytes it consumes (`splitPass`), so a call is the reader on the bytes of the read
(`splitRun_feed`), unless a header announces a negative size, where the loop steps back (`splitRun_derail`).
-/
namespace Gb

open Framing (State feed)

/-- The reader's states on this format. -/
abbrev StreamState := State UInt8 MessageHeader StreamError

/-- The state of the reader a stream stands for. -/
inductive Recv.Reads : Recv → StreamState → Prop
  | header {s : Recv} {got : List UInt8} (hid : s.receivingHeaderIdentified = false)
      (hsize : s.receivedHeaderSize = got.length) (hlt : got.length < messageHeaderSize)
      (hraw : s.receivingHeader.raw.take got.length = got) (hmsg : s.receivingMessage = {})
      (hrecv : s.receivedMessageSize = 0) : Reads s (.header got)
  | body {s : Recv} {got : List UInt8} {n : Nat} (hid : s.receivingHeaderIdentified = true)
      (hn : s.receivingHeader.messageSize = n) (hrecv : s.receivedMessageSize = got.length) (hlt : got.length < n)
      (hmsg : s.receivingMessage.toString s.pool = some got) : Reads s (.body s.receivingHeader n got)

/-- The bytes a cursor still has to take. -/
structure SplitCursor.Holds (c : SplitCursor) (bs : List UInt8) : Prop where
  size  : c.size = bs.length
  bytes : c.stream.pool.read c.stream.tranBuf c.data bs.length = some bs
  lo    : 0 ≤ c.data
  hi    : c.data + bs.length < 2 ^ 31

/-- An item is a frame of the reader: its sizes are the header's, its bytes the body's. -/
structure ItemOf (p : TranBufPool) (i : ReceivedItem) (o : MessageHeader × List UInt8) : Prop where
  metaSize : i.metaSize = o.1.metaSize
  dataSize : i.dataSize = o.1.dataSize
  bytes    : i.message.toString p = some o.2

theorem ItemOf.frame {p q : TranBufPool} {i : ReceivedItem} {o : MessageHeader × List UInt8} (hpq : PoolFrame p q)
    (h : ItemOf p i o) : ItemOf q i o := ⟨h.metaSize, h.dataSize, by rw [hpq.toString]; exact h.bytes⟩

/-! ## The header -/

theorem identify_short (s : Recv) (got bs : List UInt8) (data : Int) (hr : s.Reads (.header got))
    (hread : s.pool.read s.tranBuf data bs.length = some bs) (hlt : got.length + bs.length < messageHeaderSize) :
    ∃ s', s.identifyMessageHeader data bs.length = some (s', 0, bs.length) ∧ s'.Reads (.header (got ++ bs)) := by
  cases hr with
  | header hid hsize hglt hraw hmsg hrecv =>
    have hk : min bs.length (messageHeaderSize - s.receivedHeaderSize) = bs.length := by omega
    unfold Recv.identifyMessageHeader
    simp only [Int.toNat_natCast, hk, hread]
    rw [if_pos (show s.receivedHeaderSize + bs.length < messageHeaderSize by omega)]
    refine ⟨_, rfl, .header hid ?_ ?_ ?_ hmsg hrecv⟩
    · rw [List.length_append, ← hsize]
    · simpa using hlt
    · have := s.receivingHeader.raw_copyIn got bs hraw (by omega)
      simpa [hsize] using this

/-- The stream behind a complete header. -/
def Recv.withHeader (s : Recv) (h : MessageHeader) : Recv :=
  { s with receivingHeader := h, receivedHeaderSize := messageHeaderSize }

theorem identify_full (s : Recv) (got x y : List UInt8) (data : Int) (h : MessageHeader) (hr : s.Reads (.header got))
    (hread : s.pool.read s.tranBuf data (x ++ y).length = some (x ++ y)) (hh : h.raw = got ++ x) :
    s.identifyMessageHeader data (x ++ y).length =
      some (s.withHeader h, if h.checkMagicString then 1 else -1, x.length) := by
  cases hr with
  | header hid hsize hglt hraw hmsg hrecv =>
    have hlen : got.length + x.length = messageHeaderSize := by
      rw [← h.raw_length, hh, List.length_append]
    have hk : min (x ++ y).length (messageHeaderSize - got.length) = x.length := by
      rw [List.length_append]; omega
    have hcopy : s.receivingHeader.copyIn got.length x = h := by
      apply MessageHeader.ext_raw
      have ht := s.receivingHeader.raw_copyIn got x hraw (by omega)
      rw [hh]
      exact MessageHeader.raw_eq_of_take _ (got ++ x) (by rw [List.length_append]; exact hlen)
        (by rw [List.length_append]; exact ht)
    unfold Recv.identifyMessageHeader
    rw [Int.toNat_natCast, hsize, hk]
    simp only [(TranBufPool.read_append s.pool s.tranBuf data x y hread).1, hcopy, hlen, Nat.lt_irrefl, if_false,
      Recv.withHeader]
    cases hc : h.checkMagicString <;> simp

/-! ## The two halves of a pass -/

/-- A read that ends inside the header. -/
theorem splitHead_short (c : SplitCursor) (got bs : List UInt8) (hr : c.stream.Reads (.header got)) (hb : c.Holds bs)
    (hne : bs ≠ []) (hlt : got.length + bs.length < messageHeaderSize) :
    ∃ s', splitHead c = .ret true { c with stream := s' } ∧ s'.Reads (.header (got ++ bs)) := by
  obtain ⟨s', hs', hr'⟩ := identify_short c.stream got bs c.data hr hb.bytes hlt
  have hpos : 0 < bs.length := List.length_pos_iff.2 hne
  have hid : c.stream.receivingHeaderIdentified = false := by cases hr; assumption
  refine ⟨s', ?_, hr'⟩
  unfold splitHead
  rw [if_neg (by rw [hb.size]; omega), hid, hb.size, hs']
  simp

/-- A read that completes the header. -/
theorem splitHead_full (c : SplitCursor) (got x y : List UInt8) (h : MessageHeader) (hr : c.stream.Reads (.header got))
    (hb : c.Holds (x ++ y)) (hh : h.raw = got ++ x) :
    splitHead c =
      if h.checkMagicString then
        if y = [] ∧ 0 < h.messageSize then
          .ret true { c with stream := { c.stream.withHeader h with receivingHeaderIdentified := true } }
        else
          .next ⟨{ c.stream.withHeader h with receivingHeaderIdentified := true }, c.data + x.length, y.length,
            c.receivedMessages, .body⟩
      else .ret false { c with stream := c.stream.withHeader h } := by
  have hid : c.stream.receivingHeaderIdentified = false := by cases hr; assumption
  have hlen : got.length + x.length = messageHeaderSize := by rw [← h.raw_length, hh, List.length_append]
  have hglt : got.length < messageHeaderSize := by cases hr; assumption
  have hsize : c.size = x.length + y.length := by rw [hb.size, List.length_append, Int.natCast_add]
  unfold splitHead
  rw [if_neg (by omega), hid, hb.size, identify_full c.stream got x y c.data h hr hb.bytes hh]
  cases hc : h.checkMagicString with
  | false => simp
  | true =>
    have hy : ((x.length : Int) = ((x ++ y).length : Int)) ↔ y = [] := by
      rw [List.length_append, ← List.length_eq_zero_iff]; omega
    have hs : ((x ++ y).length : Int) - x.length = y.length := by rw [List.length_append]; omega
    simp only [if_true, Bool.false_eq_true, if_false, Int.zero_lt_one, hy, hs]
    rfl

/-- The bytes of a message under construction, with the bytes a cursor takes. -/
theorem toString_appendHandle (c : SplitCursor) (got x y : List UInt8) (hb : c.Holds (x ++ y))
    (hmsg : c.stream.receivingMessage.toString c.stream.pool = some got) :
    (c.stream.appendHandle x.length c.data).receivingMessage.toString
      (c.stream.appendHandle x.length c.data).pool = some (got ++ x) := by
  have hlo := hb.lo
  have hhi := hb.hi
  rw [List.length_append] at hhi
  rw [ReadBuffer.toString, Recv.appendHandle_bufList, Recv.appendHandle_pool, readHandles_addRef]
  refine readHandles_append_eq_some _ _ _ _ _ hmsg ?_
  rw [toInt32_of_range x.length (by omega) (by omega), toInt32_of_range c.data (by omega) (by omega)]
  have hx := readHandles_cons_eq_some c.stream.pool ⟨c.stream.tranBuf, x.length, c.data⟩ [] x []
    (by simpa [BufferHandle.read] using (TranBufPool.read_append _ _ _ x y hb.bytes).1) rfl
  simpa using hx

/-- A read that ends inside the body. -/
theorem splitBody_short (c : SplitCursor) (got bs : List UInt8) (n : Nat)
    (hid : c.stream.receivingHeaderIdentified = true) (hn : c.stream.receivingHeader.messageSize = n)
    (hrecv : c.stream.receivedMessageSize = got.length)
    (hmsg : c.stream.receivingMessage.toString c.stream.pool = some got) (hb : c.Holds bs)
    (hlt : got.length + bs.length < n) :
    ∃ s', splitBody c = .ret true { c with stream := s' } ∧
      s'.Reads (.body c.stream.receivingHeader n (got ++ bs)) := by
  unfold splitBody
  simp only
  rw [if_pos (by rw [hrecv, hb.size, hn]; omega)]
  refine ⟨_, rfl, ?_⟩
  refine Recv.Reads.body (s := { c.stream.appendHandle c.size c.data with
    receivedMessageSize := (c.stream.appendHandle c.size c.data).receivedMessageSize + c.size }) hid hn ?_ ?_ ?_
  · show c.stream.receivedMessageSize + c.size = _
    rw [hrecv, hb.size, List.length_append, Int.natCast_add]
  · rw [List.length_append]; exact hlt
  · have := toString_appendHandle c got bs [] (by simpa using hb) hmsg
    rw [hb.size]
    exact this

/-- A read that completes the body. -/
theorem splitBody_full (c : SplitCursor) (got x y : List UInt8)
    (hn : c.stream.receivingHeader.messageSize = (got.length + x.length : Nat))
    (hrecv : c.stream.receivedMessageSize = got.length)
    (hmsg : c.stream.receivingMessage.toString c.stream.pool = some got) (hb : c.Holds (x ++ y)) :
    ∃ c' item, splitBody c = .next c' ∧ c'.pc = .head ∧ c'.stream.Reads (.header []) ∧ c'.Holds y ∧
      c'.receivedMessages = c.receivedMessages ++ [item] ∧
      ItemOf c'.stream.pool item (c.stream.receivingHeader, got ++ x) := by
  have hsize : c.size = x.length + y.length := by rw [hb.size, List.length_append, Int.natCast_add]
  have hlo := hb.lo
  have hhi := hb.hi
  rw [List.length_append] at hhi
  have hc : c.stream.receivingHeader.messageSize - c.stream.receivedMessageSize = x.length := by rw [hn, hrecv]; omega
  have hrest : c.size - x.length = y.length := by omega
  have hread : c.stream.pool.read c.stream.tranBuf (c.data + x.length) y.length = some y :=
    (TranBufPool.read_append _ _ _ x y hb.bytes).2
  have hhdr : ∀ s : Recv, s.resetReceivingEnv.Reads (.header []) := fun s =>
    .header rfl rfl (by decide) rfl rfl rfl
  -- the stream with the last handle, if there is one to append
  have hu : ∀ u, u = (if 0 < (x.length : Int) then c.stream.appendHandle x.length c.data else c.stream) →
      u.receivingHeader = c.stream.receivingHeader ∧ u.pool.read u.tranBuf (c.data + x.length) y.length = some y ∧
        u.receivingMessage.toString u.pool = some (got ++ x) := by
    rintro u rfl
    split
    · exact ⟨rfl, by rw [Recv.appendHandle_pool, TranBufPool.read_addRef]; exact hread,
        toString_appendHandle c got x y hb hmsg⟩
    · have hx0 : x = [] := List.eq_nil_of_length_eq_zero (by omega)
      subst hx0
      exact ⟨rfl, hread, by simpa using hmsg⟩
  unfold splitBody
  simp only [hc, hrest]
  rw [if_neg (by omega), toInt32_of_range y.length (by omega) (by omega)]
  obtain ⟨h1, h2, h3⟩ := hu _ rfl
  refine ⟨_, _, rfl, rfl, hhdr _, ⟨rfl, h2, ?_, ?_⟩, rfl, ⟨?_, ?_, h3⟩⟩
  · show 0 ≤ c.data + x.length
    omega
  · show c.data + x.length + y.length < 2 ^ 31
    omega
  · simp only [h1]
  · simp only [h1]

/-! ## One pass -/

/-- What a pass over the bytes `bs` in the reader's state `st` comes to. -/
inductive SplitPass (c : SplitCursor) (st : StreamState) (bs : List UInt8) : Prop
  /-- The read ends inside a frame. -/
  | stop (n : Nat) (hn : n ≤ 2) (c' : SplitCursor) (hrun : splitRun n c = .ret true c')
      (hst : c'.stream.Reads (feed streamFormat st bs).1) (hout : (feed streamFormat st bs).2 = [])
      (hmsgs : c'.receivedMessages = c.receivedMessages)
  /-- The header has a wrong magic. -/
  | refuse (n : Nat) (hn : n ≤ 2) (c' : SplitCursor) (hrun : splitRun n c = .ret false c')
      (hst : feed streamFormat st bs = (.failed .badMagic, [])) (hmsgs : c'.receivedMessages = c.receivedMessages)
  /-- A frame ends, and there may be more bytes. -/
  | frame (n : Nat) (hn : n ≤ 2) (c' : SplitCursor) (y : List UInt8) (item : ReceivedItem)
      (out : MessageHeader × List UInt8) (hrun : splitRun n c = .next c') (hpc : c'.pc = .head)
      (hst : c'.stream.Reads (.header [])) (hb : c'.Holds y) (hy : y.length < bs.length)
      (hmsgs : c'.receivedMessages = c.receivedMessages ++ [item]) (hitem : ItemOf c'.stream.pool item out)
      (hmet : ∃ d, splitRun 1 c = .next d ∧ d.stream.receivingHeaderIdentified = true ∧
        d.stream.receivingHeader = out.1)
      (hfeed : feed streamFormat st bs =
        ((feed streamFormat (.header []) y).1, out :: (feed streamFormat (.header []) y).2))
  /-- The header announces a negative size. -/
  | derail (n : Nat) (hn : n ≤ 2) (c' : SplitCursor) (h : MessageHeader) (hrun : splitRun n c = .next c')
      (hpc : c'.pc = .body) (hid : c'.stream.receivingHeaderIdentified = true)
      (hh : c'.stream.receivingHeader = h) (hneg : h.messageSize < 0)
      (hrecv : c'.stream.receivedMessageSize = 0) (hsize : 0 ≤ c'.size) (hhi : c'.size < 2 ^ 31)
      (hfeed : feed streamFormat st bs = (.failed (.negativeSize h), []))

/-- The body half on a body that is not empty. -/
theorem splitPass_body (c₀ c : SplitCursor) (st : StreamState) (bs z got : List UInt8) (n : Nat)
    (hrun : splitRun 1 c₀ = .next c) (hpc : c.pc = .body) (hmsgs : c.receivedMessages = c₀.receivedMessages)
    (hr : c.stream.Reads (.body c.stream.receivingHeader n got)) (hb : c.Holds z) (hz : z.length ≤ bs.length)
    (hfeed : feed streamFormat st bs = feed streamFormat (.body c.stream.receivingHeader n got) z)
    (hz0 : z ≠ []) : SplitPass c₀ st bs := by
  cases hr with
  | body hid hn hrecv hlt hmsg =>
  have hstep : splitStep c = splitBody c := by rw [splitStep, hpc]
  have hone : ∀ r, splitStep c = r → splitRun 2 c₀ = r := fun r hr => by
    rw [splitRun_add 1 1 c₀ c hrun, splitRun_one, hr]
  by_cases hshort : got.length + z.length < n
  · obtain ⟨s', hs', hr'⟩ := splitBody_short c got z n hid hn hrecv hmsg hb hshort
    have hf := Framing.feed_body_short streamFormat c.stream.receivingHeader n got z hshort
    exact .stop 2 (Nat.le_refl _) _ (hone _ (hstep.trans hs')) (by rw [hfeed, hf]; exact hr') (by rw [hfeed, hf])
      hmsgs
  · -- the body ends after its first `n - got.length` bytes
    obtain ⟨x, y, rfl, hx⟩ : ∃ x y, z = x ++ y ∧ got.length + x.length = n :=
      ⟨z.take (n - got.length), z.drop (n - got.length), (List.take_append_drop _ _).symm, by
        rw [List.length_take]; omega⟩
    have hx0 : x ≠ [] := fun h => by rw [h, List.length_nil] at hx; omega
    obtain ⟨c', item, hs', hpc', hr', hb', hm', hi'⟩ :=
      splitBody_full c got x y (by rw [hn, hx]) hrecv hmsg hb
    have hf := Framing.feed_body_exact streamFormat c.stream.receivingHeader n got x hx0 hx
    have hxpos := List.length_pos_iff.2 hx0
    rw [List.length_append] at hz
    refine .frame 2 (Nat.le_refl _) c' y item _ (hone _ (hstep.trans hs')) hpc' hr' hb' (by omega)
      (by rw [hm', hmsgs]) hi' ⟨c, hrun, hid, rfl⟩ ?_
    rw [hfeed, Framing.feed_append, hf]
    rfl

/-- The header half, and the body half behind it. -/
theorem splitPass_header (c : SplitCursor) (got bs : List UInt8) (hpc : c.pc = .head)
    (hr : c.stream.Reads (.header got)) (hb : c.Holds bs) (hne : bs ≠ []) : SplitPass c (.header got) bs := by
  have hglt : got.length < messageHeaderSize := by cases hr; assumption
  have hmsg : c.stream.receivingMessage = {} := by cases hr; assumption
  have hrecv : c.stream.receivedMessageSize = 0 := by cases hr; assumption
  have hone : ∀ r, splitHead c = r → splitRun 1 c = r := fun r hr => by rw [splitRun_one, splitStep, hpc]; exact hr
  by_cases hshort : got.length + bs.length < messageHeaderSize
  · obtain ⟨s', hs', hr'⟩ := splitHead_short c got bs hr hb hne hshort
    have hf := Framing.feed_header_short streamFormat got bs hshort
    exact .stop 1 (by omega) _ (hone _ hs') (by rw [hf]; exact hr') (by rw [hf]) rfl
  · -- the header ends after its first `24 - got.length` bytes
    obtain ⟨x, y, rfl, hx⟩ : ∃ x y, bs = x ++ y ∧ got.length + x.length = messageHeaderSize :=
      ⟨bs.take (messageHeaderSize - got.length), bs.drop (messageHeaderSize - got.length),
        (List.take_append_drop _ _).symm, by rw [List.length_take]; omega⟩
    have hx0 : x ≠ [] := fun h => by rw [h, List.length_nil] at hx; omega
    let h : MessageHeader := ⟨got ++ x, by rw [List.length_append]; exact hx⟩
    have hfull := splitHead_full c got x y h hr hb rfl
    have hf : feed streamFormat (.header got) x = Framing.afterHeader streamFormat h.raw :=
      Framing.feed_header_exact streamFormat got x hx0 hx
    have hdec := decode_raw h
    have hyhi : (y.length : Int) < 2 ^ 31 := by
      have hlo := hb.lo
      have hhi := hb.hi
      rw [List.length_append] at hhi
      omega
    cases hmag : h.checkMagicString with
    | false =>
      simp only [hmag, Bool.false_eq_true, if_false] at hfull hdec
      refine .refuse 1 (by omega) _ (hone _ hfull) ?_ rfl
      rw [Framing.feed_append, hf, Framing.afterHeader, hdec]
      simp
    | true =>
      simp only [hmag, if_true] at hfull hdec
      let t : Recv := { c.stream.withHeader h with receivingHeaderIdentified := true }
      let d : SplitCursor := ⟨t, c.data + x.length, y.length, c.receivedMessages, .body⟩
      have hd : d.Holds y := by
        have hlo := hb.lo
        have hhi := hb.hi
        rw [List.length_append] at hhi
        exact ⟨rfl, (TranBufPool.read_append _ _ _ x y hb.bytes).2, by show 0 ≤ c.data + x.length; omega,
          by show c.data + x.length + y.length < 2 ^ 31; omega⟩
      by_cases hneg : h.messageSize < 0
      · rw [if_neg (by omega)] at hfull
        rw [if_pos hneg] at hdec
        refine .derail 1 (by omega) d h (hone _ hfull) rfl rfl rfl hneg hrecv (by show (0 : Int) ≤ y.length; omega)
          hyhi ?_
        rw [Framing.feed_append, hf, Framing.afterHeader, hdec]
        simp
      · rw [if_neg hneg] at hdec
        obtain ⟨n, hn⟩ : ∃ n : Nat, h.messageSize = n := ⟨h.messageSize.toNat, by omega⟩
        have hd0 : d.stream.receivingMessage.toString d.stream.pool = some [] := by
          show c.stream.receivingMessage.toString c.stream.pool = some []
          rw [hmsg]; rfl
        cases n with
        | zero =>
          rw [if_neg (by omega)] at hfull
          rw [hn, Int.toNat_natCast] at hdec
          obtain ⟨c', item, hs', hpc', hr', hb', hm', hi'⟩ := splitBody_full d [] [] y hn hrecv hd0 hd
          have hrun : splitRun 2 c = .next c' := by
            rw [splitRun_add 1 1 c d (hone _ hfull), splitRun_one]
            exact hs'
          refine .frame 2 (Nat.le_refl _) c' y item _ hrun hpc' hr' hb' ?_ hm' hi' ⟨d, hone _ hfull, rfl, rfl⟩ ?_
          · rw [List.length_append]; have := List.length_pos_iff.2 hx0; omega
          · rw [Framing.feed_append, hf, Framing.afterHeader, hdec]
            rfl
        | succ n =>
          rw [hn, Int.toNat_natCast] at hdec
          have hrd : d.stream.Reads (.body h (n + 1) []) :=
            Recv.Reads.body (s := t) rfl hn hrecv (by simp) hd0
          have hff : feed streamFormat (.header got) x = (.body h (n + 1) [], []) := by
            rw [hf, Framing.afterHeader, hdec]
          by_cases hy : y = []
          · rw [if_pos ⟨hy, by omega⟩] at hfull
            subst hy
            refine .stop 1 (by omega) _ (hone _ hfull) ?_ ?_ rfl
            · rw [List.append_nil, hff]; exact hrd
            · rw [List.append_nil, hff]
          · rw [if_neg (fun hc => hy hc.1)] at hfull
            refine splitPass_body c d _ _ y [] (n + 1) (hone _ hfull) rfl rfl hrd hd ?_ ?_ hy
            · rw [List.length_append]; omega
            · rw [Framing.feed_append, hff, List.nil_append]
              rfl

/-- **One pass is the reader on the bytes it takes.** -/
theorem splitPass (c : SplitCursor) (st : StreamState) (bs : List UInt8) (hpc : c.pc = .head) (hr : c.stream.Reads st)
    (hb : c.Holds bs) (hne : bs ≠ []) : SplitPass c st bs := by
  cases hr with
  | header hid hsize hlt hraw hmsg hrecv =>
    exact splitPass_header c _ bs hpc (.header hid hsize hlt hraw hmsg hrecv) hb hne
  | body hid hn hrecv hlt hmsg =>
    have hpos := List.length_pos_iff.2 hne
    have hhead : splitRun 1 c = .next { c with pc := .body } := by
      rw [splitRun_one, splitStep, hpc]
      simp only [splitHead]
      rw [if_neg (by rw [hb.size]; omega), if_pos hid]
    exact splitPass_body c { c with pc := .body } _ bs bs _ _ hhead rfl rfl
      (.body hid hn hrecv hlt hmsg) ⟨hb.size, hb.bytes, hb.lo, hb.hi⟩ (Nat.le_refl _) rfl hne

/-! ## A whole call -/

theorem splitRun_frame (n : Nat) (c c' : SplitCursor) (h : (splitRun n c).Leaves c') : StreamFrame c.stream c'.stream :=
  splitRun_induction (fun d => StreamFrame c.stream d.stream)
    (fun d d' hd hs => hd.trans (splitStep_frame d d' hs).1) n c c' (.refl _) h

/-- **A call on the bytes of a read is the reader on these bytes**: it returns, within two steps a byte, with the
frames that end among them, and it refuses the stream where the reader does. -/
theorem splitRun_feed : ∀ (m : Nat) (c : SplitCursor) (st : StreamState) (bs : List UInt8), bs.length ≤ m →
    c.pc = .head → c.stream.Reads st → c.Holds bs → (∀ h, (feed streamFormat st bs).1 ≠ .failed (.negativeSize h)) →
    ∃ ok c' items, splitRun (2 * m + 1) c = .ret ok c' ∧ c'.receivedMessages = c.receivedMessages ++ items ∧
      List.Forall₂ (ItemOf c'.stream.pool) items (feed streamFormat st bs).2 ∧
      ((ok = true ∧ c'.stream.Reads (feed streamFormat st bs).1) ∨
        (ok = false ∧ (feed streamFormat st bs).1 = .failed .badMagic)) := by
  intro m
  induction m with
  | zero =>
    intro c st bs hm hpc hr hb _
    have hbs : bs = [] := List.eq_nil_of_length_eq_zero (by omega)
    subst hbs
    refine ⟨true, c, [], ?_, by simp, by simp, Or.inl ⟨rfl, hr⟩⟩
    rw [splitRun_one, splitStep, hpc]
    simp [splitHead, hb.size]
  | succ m ih =>
    intro c st bs hm hpc hr hb hneg
    by_cases hne : bs = []
    · subst hne
      refine ⟨true, c, [], ?_, by simp, by simp, Or.inl ⟨rfl, hr⟩⟩
      refine splitRun_ret_mono (show 1 ≤ 2 * (m + 1) + 1 by omega) ?_
      rw [splitRun_one, splitStep, hpc]
      simp [splitHead, hb.size]
    cases splitPass c st bs hpc hr hb hne with
    | stop n hn c' hrun hst hout hmsgs =>
      exact ⟨true, c', [], splitRun_ret_mono (by omega) hrun, by simp [hmsgs], by simp [hout], Or.inl ⟨rfl, hst⟩⟩
    | refuse n hn c' hrun hst hmsgs =>
      exact ⟨false, c', [], splitRun_ret_mono (by omega) hrun, by simp [hmsgs], by simp [hst], Or.inr ⟨rfl, by rw [hst]⟩⟩
    | frame n hn c' y item out hrun hpc' hst hb' hy hmsgs hitem hmet hfeed =>
      obtain ⟨ok, c'', items, hrun', hmsgs', hitems, hend⟩ := ih c' (.header []) y (by omega) hpc' hst hb'
        (fun h hh => hneg h (by rw [hfeed]; exact hh))
      have hf := splitRun_frame _ _ _ (Or.inr ⟨ok, hrun'⟩)
      refine ⟨ok, c'', item :: items, ?_, by rw [hmsgs', hmsgs, List.append_assoc]; rfl, ?_, ?_⟩
      · refine splitRun_ret_mono (show n + (2 * m + 1) ≤ 2 * (m + 1) + 1 by omega) ?_
        rw [splitRun_add n _ c c' hrun]
        exact hrun'
      · rw [hfeed]
        exact .cons (hitem.frame hf.pool) hitems
      · rw [hfeed]; exact hend
    | derail n hn c' h hrun hpc' hid hh hneg' hrecv hsize hhi hfeed =>
      exact absurd (by rw [hfeed]) (hneg h)

/-- **A header that announces a negative size is reached at the body half**, with nothing received of its message. -/
theorem splitRun_derail : ∀ (m : Nat) (c : SplitCursor) (st : StreamState) (bs : List UInt8) (h : MessageHeader),
    bs.length ≤ m → c.pc = .head → c.stream.Reads st → c.Holds bs →
    (feed streamFormat st bs).1 = .failed (.negativeSize h) →
    ∃ n c', splitRun n c = .next c' ∧ c'.pc = .body ∧ c'.stream.receivingHeader = h ∧ h.messageSize < 0 ∧
      c'.stream.receivedMessageSize = 0 ∧ 0 ≤ c'.size ∧ c'.size < 2 ^ 31 := by
  intro m
  induction m with
  | zero =>
    intro c st bs h hm hpc hr hb hf
    have hbs : bs = [] := List.eq_nil_of_length_eq_zero (by omega)
    subst hbs
    rw [Framing.feed_nil] at hf
    cases hf
    cases hr
  | succ m ih =>
    intro c st bs h hm hpc hr hb hf
    by_cases hne : bs = []
    · subst hne
      rw [Framing.feed_nil] at hf
      cases hf
      cases hr
    cases splitPass c st bs hpc hr hb hne with
    | stop n hn c' hrun hst hout hmsgs =>
      rw [hf] at hst
      cases hst
    | refuse n hn c' hrun hst hmsgs =>
      rw [hst] at hf
      cases hf
    | frame n hn c' y item out hrun hpc' hst hb' hy hmsgs hitem hmet hfeed =>
      rw [hfeed] at hf
      obtain ⟨n', c'', hrun', hrest⟩ := ih c' (.header []) y h (by omega) hpc' hst hb' hf
      refine ⟨n + n', c'', ?_, hrest⟩
      rw [splitRun_add n n' c c' hrun]
      exact hrun'
    | derail n hn c' h' hrun hpc' hid hh hneg hrecv hsize hhi hfeed =>
      rw [hfeed] at hf
      cases hf
      exact ⟨n, c', hrun, hpc', hh, hneg, hrecv, hsize, hhi⟩

end Gb
