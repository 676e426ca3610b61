import GbServer.StreamBounds
import Mathlib.Data.List.Forall2
/-!
# StreamRun — reads one after another

An open stream (`Recv.Open`) holds its block with one reference, every handle it gave out with another, and nothing it
will still write to lies under a handle.  A read keeps all this and is the reader of `Lib/Framing` on its bytes
(`Recv.Open.onRead`), so a run of reads is the reader on their concatenation: the frames come out as they were cut into
the stream (`receiveAll_frames`), and the calls stay within their reads exactly while no header announces a negative
size (`callsBounded_iff`).
-/
namespace Gb

open Framing (feed)

/-! ## Runs of reads -/

/-- `capacity` of a block of this factor. -/
def blockCapacity (factor : BlockFactor) : Nat := TRAN_BUF_BLOCK_BASE_SIZE <<< factor.val - blockHeadSize

/-- Reads that respect the room in the current block, `room` bytes now and `capacity` in every block after it. -/
def FitsBlocks (capacity : Nat) : Nat → List (List UInt8) → Prop
  | _,    []          => True
  | room, bs :: reads =>
    bs.length ≤ room ∧ FitsBlocks capacity (if bs.length = room then capacity else room - bs.length) reads

/-- One read of `bs`: the bytes arrive and `on_read_some` takes them.  Two steps a byte are enough for the splitter. -/
def Recv.onRead (s : Recv) (bs : List UInt8) : ReadSome :=
  (s.arrive bs).onReadSome bs.length true (2 * bs.length + 1)

/-- Successive reads: the stream behind them and all their messages in order, unless one of them ends the stream. -/
def Recv.receiveAll : Recv → List (List UInt8) → Option (Recv × List ReceivedItem)
  | s, []          => some (s, [])
  | s, bs :: reads =>
    match s.onRead bs with
    | .received s' items => (s'.receiveAll reads).map (fun r => (r.1, items ++ r.2))
    | _                  => none

/-- Every call of a run of reads keeps within its read.  A run ends where a call does not hand the stream back. -/
def Recv.CallsBounded : Recv → List (List UInt8) → Prop
  | _, []          => True
  | s, bs :: reads =>
    CallBounded (splitCall (s.arrive bs) s.receivingData bs.length) ∧
      ∀ mallocOk fuel s' items, (s.arrive bs).onReadSome bs.length mallocOk fuel = .received s' items →
        s'.CallsBounded reads

/-! ## The stream between two reads -/

/-- The handles that are out: those of the messages handed over and of the message under construction. -/
def Recv.held (s : Recv) (items : List ReceivedItem) : List BufferHandle :=
  items.flatMap (fun i => i.message.bufList) ++ s.receivingMessage.bufList

/-- A stream in the state `st` of the reader, with the messages it has handed over and the frames they are. -/
structure Recv.Sound (s : Recv) (st : StreamState) (items : List ReceivedItem)
    (outs : List (MessageHeader × List UInt8)) : Prop where
  reads  : s.Reads st
  frames : List.Forall₂ (ItemOf s.pool) items outs
  block  : ∃ k, s.pool.blocks s.tranBuf = some k ∧ k.data.length = blockCapacity s.readBufferBaseBlockFactor
  cap    : s.receivingData + s.receivingSize = blockCapacity s.readBufferBaseBlockFactor
  ledger : ∀ b, s.pool.refCount b = refsTo b (s.held items) + if b = s.tranBuf then 1 else 0
  below  : ∀ h ∈ s.held items, h.data = s.tranBuf → h.offset.toNat + h.size.toNat ≤ s.receivingData

/-- A stream that can read on. -/
structure Recv.Open (s : Recv) (st : StreamState) (items : List ReceivedItem)
    (outs : List (MessageHeader × List UInt8)) : Prop extends s.Sound st items outs where
  room : 0 < s.receivingSize

theorem blockCapacity_lt (factor : BlockFactor) : 0 < blockCapacity factor ∧ blockCapacity factor < 2 ^ 31 := by
  revert factor
  decide

/-- Two streams that agree on the header and the message under construction stand for the same state. -/
theorem Recv.Reads.congr {s t : Recv} {st : StreamState} (h : s.Reads st) (hh : t.receivingHeader = s.receivingHeader)
    (hs : t.receivedHeaderSize = s.receivedHeaderSize) (hi : t.receivingHeaderIdentified = s.receivingHeaderIdentified)
    (hr : t.receivedMessageSize = s.receivedMessageSize) (hm : t.receivingMessage = s.receivingMessage)
    (hp : s.receivingMessage.toString t.pool = s.receivingMessage.toString s.pool) : t.Reads st := by
  cases h with
  | header hid hsize hlt hraw hmsg hrecv =>
    exact .header (hi.trans hid) (hs.trans hsize) hlt (hh ▸ hraw) (hm.trans hmsg) (hr.trans hrecv)
  | body hid hn hrecv hlt hmsg =>
    rw [← hh]
    refine .body (hi.trans hid) ?_ (hr.trans hrecv) hlt ?_
    · rw [hh]; exact hn
    · rw [hm, hp]; exact hmsg

theorem ItemOf.congr {p q : TranBufPool} {i : ReceivedItem} {o : MessageHeader × List UInt8}
    (hpq : ∀ h ∈ i.message.bufList, h.read q = h.read p) (h : ItemOf p i o) : ItemOf q i o :=
  ⟨h.metaSize, h.dataSize, (readHandles_congr q p _ hpq).trans h.bytes⟩

theorem items_congr {p q : TranBufPool} : ∀ {items : List ReceivedItem} {outs : List (MessageHeader × List UInt8)},
    (∀ h ∈ items.flatMap (fun i => i.message.bufList), h.read q = h.read p) → List.Forall₂ (ItemOf p) items outs →
    List.Forall₂ (ItemOf q) items outs
  | [], [], _, _ => .nil
  | i :: items, o :: outs, hpq, .cons h hs => by
    rw [List.flatMap_cons] at hpq
    exact .cons (h.congr fun k hk => hpq k (List.mem_append_left _ hk))
      (items_congr (fun k hk => hpq k (List.mem_append_right _ hk)) hs)

theorem readHandles_mem {p : TranBufPool} : ∀ {hs : List BufferHandle} {xs : List UInt8}, readHandles p hs = some xs →
    ∀ h ∈ hs, ∃ x, h.read p = some x
  | k :: hs, xs, hx, h, hm => by
    obtain ⟨x, xs', h1, h2, -⟩ := readHandles_cons_inv hx
    rcases List.mem_cons.1 hm with rfl | hm
    · exact ⟨x, h1⟩
    · exact readHandles_mem h2 h hm

theorem items_read {p : TranBufPool} : ∀ {items : List ReceivedItem} {outs : List (MessageHeader × List UInt8)},
    List.Forall₂ (ItemOf p) items outs → ∀ h ∈ items.flatMap (fun i => i.message.bufList), ∃ x, h.read p = some x
  | _ :: _, _ :: _, .cons hio hs, h, hm => by
    rw [List.flatMap_cons] at hm
    rcases List.mem_append.1 hm with hm | hm
    · exact readHandles_mem hio.bytes h hm
    · exact items_read hs h hm

/-- Every handle that is out reads. -/
theorem Recv.Sound.held_read {s : Recv} {st : StreamState} {items : List ReceivedItem}
    {outs : List (MessageHeader × List UInt8)} (hs : s.Sound st items outs) :
    ∀ h ∈ s.held items, ∃ x, h.read s.pool = some x := by
  intro h hm
  rcases List.mem_append.1 hm with hm | hm
  · exact items_read hs.frames h hm
  · cases hs.reads with
    | header hid hsize hlt hraw hmsg hrecv => rw [hmsg] at hm; cases hm
    | body hid hn hrecv hlt hmsg => exact readHandles_mem hmsg h hm

/-- A change of the memory under the handles that are out, and of the place in it. -/
theorem Recv.Sound.withPool {s : Recv} {st : StreamState} {items : List ReceivedItem}
    {outs : List (MessageHeader × List UInt8)} (hs : s.Sound st items outs) {q : TranBufPool}
    (hpq : ∀ h ∈ s.held items, h.read q = h.read s.pool) (b : BlockPtr) (data size : Nat) :
    ({ s with pool := q, tranBuf := b, receivingData := data, receivingSize := size } : Recv).Reads st ∧
      List.Forall₂ (ItemOf q) items outs :=
  ⟨hs.reads.congr rfl rfl rfl rfl rfl (readHandles_congr _ _ _ fun h hh => hpq h (List.mem_append_right _ hh)),
    items_congr (fun h hh => hpq h (List.mem_append_left _ hh)) hs.frames⟩

/-- The bytes of a read arrive behind every handle into their block. -/
theorem Recv.Sound.arrive {s : Recv} {st : StreamState} {items : List ReceivedItem}
    {outs : List (MessageHeader × List UInt8)} (hs : s.Sound st items outs) (bs : List UInt8)
    (hfit : bs.length ≤ s.receivingSize) :
    (s.arrive bs).Sound st items outs ∧ (splitCall (s.arrive bs) s.receivingData bs.length).Holds bs := by
  obtain ⟨k, hk, hlen⟩ := hs.block
  have hcap := hs.cap
  have hin : s.receivingData + bs.length ≤ k.data.length := by omega
  have hpq : ∀ h ∈ s.held items, h.read (s.pool.write s.tranBuf s.receivingData bs) = h.read s.pool := by
    intro h hh
    by_cases hb : h.data = s.tranBuf
    · rw [BufferHandle.read, BufferHandle.read, hb]
      exact TranBufPool.read_write_of_le s.pool s.tranBuf k hk s.receivingData bs _ _ hin (hs.below h hh hb)
    · exact TranBufPool.read_write_of_ne s.pool s.tranBuf h.data s.receivingData bs _ _ hb
  obtain ⟨hr, hi⟩ := hs.withPool hpq s.tranBuf s.receivingData s.receivingSize
  obtain ⟨k', hk', -, hdata⟩ := TranBufPool.live_write s.pool s.tranBuf k hk s.receivingData bs
  refine ⟨⟨hr, hi, ⟨k', hk', ?_⟩, hcap, ?_, hs.below⟩, ⟨rfl, ?_, ?_, ?_⟩⟩
  · rw [hdata, Bytes.overwrite_length]; exact hlen
  · intro b
    rw [Recv.arrive, TranBufPool.refCount_write]
    exact hs.ledger b
  · show (s.pool.write s.tranBuf s.receivingData bs).read s.tranBuf s.receivingData bs.length = some bs
    rw [TranBufPool.read, hk']
    simp only [hdata, Bytes.overwrite_length, Int.toNat_natCast, Bytes.slice_overwrite _ _ _ hin]
    rw [if_pos ⟨by omega, hin⟩]
  · show (0 : Int) ≤ s.receivingData
    omega
  · have := (blockCapacity_lt s.readBufferBaseBlockFactor).2
    show (s.receivingData : Int) + bs.length < 2 ^ 31
    omega

/-- A new block: nothing that is out lies in it, and the old one stays as long as somebody holds it. -/
theorem Recv.Sound.resetTranBuf {s : Recv} {st : StreamState} {items : List ReceivedItem}
    {outs : List (MessageHeader × List UInt8)} (hs : s.Sound st items outs) :
    ∃ s', s.resetTranBuf true = (true, s') ∧ s'.Open st items outs ∧
      s'.receivingSize = blockCapacity s.readBufferBaseBlockFactor ∧
      s'.readBufferBaseBlockFactor = s.readBufferBaseBlockFactor := by
  obtain ⟨k, hk, -⟩ := hs.block
  have hpos := (blockCapacity_lt s.readBufferBaseBlockFactor).1
  let p := s.pool.free s.tranBuf
  let q := (p.malloc s.readBufferBaseBlockFactor.val true).2
  have hcap : q.capacity s.pool.next = blockCapacity s.readBufferBaseBlockFactor := by
    show ((if s.pool.next = s.pool.next then _ else _ : Option Block).map Block.size).getD 0 - blockHeadSize = _
    rw [if_pos rfl]
    rfl
  let t : Recv := { s with
    pool := q, tranBuf := s.pool.next, receivingData := 0, receivingSize := blockCapacity s.readBufferBaseBlockFactor }
  have hlive : ∀ h ∈ s.held items, h.data < s.pool.next := by
    intro h hh
    obtain ⟨x, hx⟩ := hs.held_read h hh
    obtain ⟨k', hk', -⟩ := TranBufPool.live_of_read hx
    exact TranBufPool.lt_next_of_live hk'
  have hpq : ∀ h ∈ s.held items, h.read q = h.read s.pool := by
    intro h hh
    rw [BufferHandle.read, BufferHandle.read,
      TranBufPool.read_malloc p s.readBufferBaseBlockFactor.val true h.data _ _ (hlive h hh)]
    by_cases hb : h.data = s.tranBuf
    · -- the handle is a reference besides the stream's own
      rw [hb]
      refine TranBufPool.read_free_of_shared s.pool s.tranBuf _ _ ?_
      have h1 := hs.ledger s.tranBuf
      have h2 := refsTo_pos_of_mem h _ hh
      rw [hb] at h2
      rw [if_pos rfl] at h1
      omega
    · exact TranBufPool.read_free_of_ne s.pool s.tranBuf h.data _ _ hb
  obtain ⟨hr, hi⟩ := hs.withPool hpq s.pool.next 0 (blockCapacity s.readBufferBaseBlockFactor)
  refine ⟨t, ?_, ⟨⟨hr, hi, ?_, Nat.zero_add _, ?_, ?_⟩, hpos⟩, rfl, rfl⟩
  · have hnn := TranBufPool.ne_nullptr_of_live hk
    unfold Recv.resetTranBuf
    rw [if_pos hnn]
    show (if s.pool.next = nullptr then _ else _) = _
    rw [if_neg (Nat.ne_of_gt s.pool.next_pos)]
    show (true, { t with receivingSize := q.capacity s.pool.next }) = (true, t)
    rw [hcap]
  · refine ⟨_, if_pos rfl, ?_⟩
    exact List.length_replicate ..
  · intro b
    show q.refCount b = _
    rw [TranBufPool.refCount_malloc, TranBufPool.refCount_free, hs.ledger b]
    show _ - _ + (if b = s.pool.next then 1 else 0) = refsTo b (s.held items) + if b = s.pool.next then 1 else 0
    omega
  · intro h hh hb
    exact absurd hb (Nat.ne_of_lt (hlive h hh))

/-! ## One read -/

/-- What a call does to the references: every handle more is one reference more. -/
theorem splitRun_ledger (n : Nat) (c c' : SplitCursor) (hlive : (c.stream.pool.blocks c.stream.tranBuf).isSome)
    (h : (splitRun n c).Leaves c') (b : BlockPtr) :
    c'.stream.pool.refCount b + refsTo b c.handles = c.stream.pool.refCount b + refsTo b c'.handles := by
  refine (splitRun_induction (fun d => StreamFrame c.stream d.stream ∧
    d.stream.pool.refCount b + refsTo b c.handles = c.stream.pool.refCount b + refsTo b d.handles) ?_ n c c'
    ⟨.refl _, rfl⟩ h).2
  rintro d d' ⟨hf, hd⟩ hstep
  have hl : (d.stream.pool.blocks d.stream.tranBuf).isSome := by rw [hf.tranBuf, hf.pool.isSome]; exact hlive
  have := splitStep_ledger d d' hstep hl b
  exact ⟨hf.trans (splitStep_frame d d' hstep).1, by omega⟩

theorem StreamFrame.block {s t : Recv} (hf : StreamFrame s t) {k : Block} (hk : s.pool.blocks s.tranBuf = some k) :
    ∃ k', t.pool.blocks t.tranBuf = some k' ∧ k'.data = k.data := by
  have h := hf.pool.blocks s.tranBuf
  rw [hk, Option.map_some] at h
  cases hk' : t.pool.blocks s.tranBuf with
  | none => rw [hk'] at h; cases h
  | some k' =>
    rw [hk', Option.map_some, Option.some.injEq, Prod.mk.injEq] at h
    exact ⟨k', by rw [hf.tranBuf]; exact hk', h.2⟩

/-- The place of the next read behind `n` bytes. -/
def Recv.took (s : Recv) (n : Nat) : Recv :=
  { s with receivingData := s.receivingData + n, receivingSize := s.receivingSize - n }

@[simp] theorem Recv.took_receivingSize (s : Recv) (n : Nat) : (s.took n).receivingSize = s.receivingSize - n := rfl

theorem Recv.onReadSome_ret {s : Recv} {n fuel : Nat} {c : SplitCursor} (mallocOk : Bool)
    (h : splitRun fuel (splitCall s s.receivingData n) = .ret true c) : s.onReadSome n mallocOk fuel =
      if (c.stream.took n).receivingSize = 0 then
        match (c.stream.took n).resetTranBuf mallocOk with
        | (true, s')  => .received s' c.receivedMessages
        | (false, s') => .closed "out of memory" s'
      else .received (c.stream.took n) c.receivedMessages := by
  unfold Recv.onReadSome
  rw [h]
  rfl

theorem Recv.onReadSome_refused {s : Recv} {n fuel : Nat} {c : SplitCursor} (mallocOk : Bool)
    (h : splitRun fuel (splitCall s s.receivingData n) = .ret false c) :
    s.onReadSome n mallocOk fuel = .closed "broken stream" c.stream := by
  unfold Recv.onReadSome
  rw [h]

/-- **One read of an open stream is the reader on its bytes**: the stream stays open behind the frames that end among
them, or it is closed for a wrong magic. -/
theorem Recv.Open.onRead {s : Recv} {st : StreamState} {items : List ReceivedItem}
    {outs : List (MessageHeader × List UInt8)} (hs : s.Open st items outs) (bs : List UInt8)
    (hfit : bs.length ≤ s.receivingSize) (hneg : ∀ h, (feed streamFormat st bs).1 ≠ .failed (.negativeSize h)) :
    (∃ s' items', s.onRead bs = .received s' items' ∧
      s'.Open (feed streamFormat st bs).1 (items ++ items') (outs ++ (feed streamFormat st bs).2) ∧
      s'.receivingSize = (if bs.length = s.receivingSize then blockCapacity s.readBufferBaseBlockFactor
        else s.receivingSize - bs.length) ∧ s'.readBufferBaseBlockFactor = s.readBufferBaseBlockFactor) ∨
    ((∃ s', s.onRead bs = .closed "broken stream" s') ∧ (feed streamFormat st bs).1 = .failed .badMagic) := by
  obtain ⟨ha, hb⟩ := hs.toSound.arrive bs hfit
  obtain ⟨k, hk, hklen⟩ := ha.block
  let c := splitCall (s.arrive bs) s.receivingData bs.length
  obtain ⟨ok, c', items', hrun, hmsgs, hitems, hend⟩ :=
    splitRun_feed bs.length c st bs (Nat.le_refl _) rfl ha.reads hb hneg
  rw [show c.receivedMessages = [] from rfl, List.nil_append] at hmsgs
  rcases hend with ⟨rfl, hreads⟩ | ⟨rfl, hbad⟩
  · left
    have hf : StreamFrame (s.arrive bs) c'.stream := splitRun_frame _ c c' (Or.inr ⟨true, hrun⟩)
    have hwithin : c.Within c' := ((callBounded_iff c st bs rfl ha.reads hb).2 hneg).within _ c' (Or.inr ⟨true, hrun⟩)
    have hledger := splitRun_ledger _ c c' (by rw [show c.stream = s.arrive bs from rfl, hk]; rfl) (Or.inr ⟨true, hrun⟩)
    have hheld : ∀ t : Recv, t.receivingMessage = c'.stream.receivingMessage →
        t.held (items ++ items') = items.flatMap (fun i => i.message.bufList) ++ c'.handles := by
      intro t ht
      rw [Recv.held, SplitCursor.handles, hmsgs, ht, List.flatMap_append, List.append_assoc]
    have hheld0 : (s.arrive bs).held items = items.flatMap (fun i => i.message.bufList) ++ c.handles := rfl
    let t := c'.stream.took bs.length
    have hdata : c'.stream.receivingData = s.receivingData := hf.receivingData
    have hsize : c'.stream.receivingSize = s.receivingSize := hf.receivingSize
    have hfac : c'.stream.readBufferBaseBlockFactor = s.readBufferBaseBlockFactor := hf.factor
    have hsound : t.Sound (feed streamFormat st bs).1 (items ++ items') (outs ++ (feed streamFormat st bs).2) := by
      refine ⟨hreads.congr rfl rfl rfl rfl rfl rfl, ?_, ?_, ?_, ?_, ?_⟩
      · exact List.rel_append (ha.frames.imp fun i o hio => hio.frame hf.pool) hitems
      · obtain ⟨k', hk', hd'⟩ := hf.block hk
        exact ⟨k', hk', by rw [hd', hklen]; exact congrArg blockCapacity hfac.symm⟩
      · have hcap := hs.cap
        show c'.stream.receivingData + bs.length + (c'.stream.receivingSize - bs.length) =
          blockCapacity c'.stream.readBufferBaseBlockFactor
        rw [hfac]
        omega
      · intro b
        have h1 := hledger b
        have h2 := ha.ledger b
        rw [hheld0, refsTo_append] at h2
        rw [hheld t rfl, refsTo_append]
        show c'.stream.pool.refCount b = _ + if b = c'.stream.tranBuf then 1 else 0
        rw [hf.tranBuf]
        have h3 : c.stream.pool.refCount b = (s.arrive bs).pool.refCount b := rfl
        omega
      · intro h hh hb'
        obtain ⟨new, hnew, hcov⟩ := hwithin.handles
        rw [hheld t rfl, hnew, ← List.append_assoc, ← hheld0] at hh
        show _ ≤ c'.stream.receivingData + bs.length
        rcases List.mem_append.1 hh with hm | hm
        · have := ha.below h hm (by rw [hb']; exact hf.tranBuf)
          have e : (s.arrive bs).receivingData = s.receivingData := rfl
          omega
        · have h1 := (hcov h hm).lo
          have h2 := (hcov h hm).size
          have h3 := (hcov h hm).hi
          have e1 : c.data = s.receivingData := rfl
          have e2 : c.size = bs.length := rfl
          omega
    rw [Recv.onRead, Recv.onReadSome_ret true hrun, Recv.took_receivingSize]
    by_cases hfull : bs.length = s.receivingSize
    · obtain ⟨s', hs', hopen, hroom, hfac'⟩ := hsound.resetTranBuf
      rw [if_pos (show c'.stream.receivingSize - bs.length = 0 by omega), hs', hmsgs, if_pos hfull]
      exact ⟨s', items', rfl, hopen, hroom.trans (congrArg blockCapacity hfac), hfac'.trans hfac⟩
    · have hroom : c'.stream.receivingSize - bs.length ≠ 0 := by omega
      rw [if_neg hroom, hmsgs, if_neg hfull, ← hsize]
      exact ⟨t, items', rfl, ⟨hsound, Nat.pos_of_ne_zero hroom⟩, rfl, hfac⟩
  · right
    rw [Recv.onRead, Recv.onReadSome_refused true hrun]
    exact ⟨⟨_, rfl⟩, hbad⟩

/-- Whatever the steps and the memory allowed, a read that hands the stream back hands back the same. -/
theorem Recv.onReadSome_received {s s' : Recv} {n fuel fuel' : Nat} {mallocOk ok : Bool} {items : List ReceivedItem}
    {c : SplitCursor} (h : s.onReadSome n mallocOk fuel = .received s' items)
    (hrun : splitRun fuel' (splitCall s s.receivingData n) = .ret ok c) :
    s.onReadSome n true fuel' = .received s' items := by
  cases hf : splitRun fuel (splitCall s s.receivingData n) with
  | next d => rw [Recv.onReadSome, hf] at h; cases h
  | fault => rw [Recv.onReadSome, hf] at h; cases h
  | ret ok' d =>
    obtain ⟨rfl, rfl⟩ := splitRun_ret_unique hf hrun
    cases ok' with
    | false => rw [Recv.onReadSome_refused mallocOk hf] at h; cases h
    | true =>
      rw [Recv.onReadSome_ret mallocOk hf] at h
      rw [Recv.onReadSome_ret true hrun]
      split at h
      · rename_i hfull
        rw [if_pos hfull]
        cases mallocOk with
        | true => exact h
        | false =>
          split at h
          · rename_i hreset
            simp [Recv.resetTranBuf, TranBufPool.malloc] at hreset
          · cases h
      · rename_i hroom
        rw [if_neg hroom]
        exact h

/-- A read of an open stream hands back what `onRead` says, whatever the steps and the memory allowed. -/
theorem Recv.Open.onRead_unique {s s' : Recv} {st : StreamState} {items items' : List ReceivedItem}
    {outs : List (MessageHeader × List UInt8)} (hs : s.Open st items outs) (bs : List UInt8)
    (hfit : bs.length ≤ s.receivingSize) (hneg : ∀ h, (feed streamFormat st bs).1 ≠ .failed (.negativeSize h))
    {mallocOk : Bool} {fuel : Nat} (h : (s.arrive bs).onReadSome bs.length mallocOk fuel = .received s' items') :
    s.onRead bs = .received s' items' := by
  obtain ⟨ha, hb⟩ := hs.toSound.arrive bs hfit
  obtain ⟨ok, c', items'', hrun, -⟩ := splitRun_feed bs.length _ st bs (Nat.le_refl _) rfl ha.reads hb hneg
  exact Recv.onReadSome_received h hrun

/-! ## Runs of reads -/

/-- A connected stream is open, with no message under construction. -/
theorem Recv.onConnected_open (factor : BlockFactor) : ∃ s, (Recv.init factor).onConnected true = (true, s) ∧
    s.Open (.header []) [] [] ∧ s.receivingSize = blockCapacity factor ∧ s.readBufferBaseBlockFactor = factor := by
  have hpos := (blockCapacity_lt factor).1
  refine ⟨_, rfl, ⟨⟨.header rfl rfl (by decide) rfl rfl rfl, .nil, ⟨_, rfl, List.length_replicate ..⟩, Nat.zero_add _,
    ?_, ?_⟩, hpos⟩, rfl, rfl⟩
  · intro b
    exact (TranBufPool.refCount_malloc TranBufPool.init factor.val b)
  · intro h hh
    cases hh

/-- **A run of reads is the reader on their concatenation**: the messages are its frames, in order. -/
theorem Recv.Open.receiveAll : ∀ (reads : List (List UInt8)) {s : Recv} {st : StreamState} {items : List ReceivedItem}
    {outs : List (MessageHeader × List UInt8)}, s.Open st items outs →
    FitsBlocks (blockCapacity s.readBufferBaseBlockFactor) s.receivingSize reads →
    (∀ e, (feed streamFormat st reads.flatten).1 ≠ .failed e) →
    ∃ s' items', s.receiveAll reads = some (s', items') ∧
      s'.Open (feed streamFormat st reads.flatten).1 (items ++ items') (outs ++ (feed streamFormat st reads.flatten).2)
  | [], s, st, items, outs, hs, _, _ => ⟨s, [], rfl, by simpa using hs⟩
  | bs :: reads, s, st, items, outs, hs, hfit, hok => by
    rw [List.flatten_cons, Framing.feed_append] at hok ⊢
    have hgo : ∀ e, (feed streamFormat st bs).1 ≠ .failed e := fun e he =>
      hok e (by simp only [he, Framing.feed_failed])
    rcases hs.onRead bs hfit.1 (fun h => hgo _) with ⟨s', items', hread, hopen, hroom, hfac⟩ | ⟨-, hbad⟩
    · obtain ⟨s'', items'', hrest, hopen'⟩ := hopen.receiveAll reads (by rw [hfac, hroom]; exact hfit.2) hok
      refine ⟨s'', items' ++ items'', ?_, by simpa using hopen'⟩
      rw [Recv.receiveAll, hread]
      simp only [hrest, Option.map_some]
    · exact absurd hbad (hgo _)

/-- **The calls of a run keep within their reads exactly while no header announces a negative size.** -/
theorem Recv.Open.callsBounded_iff : ∀ (reads : List (List UInt8)) {s : Recv} {st : StreamState}
    {items : List ReceivedItem} {outs : List (MessageHeader × List UInt8)}, s.Open st items outs →
    FitsBlocks (blockCapacity s.readBufferBaseBlockFactor) s.receivingSize reads →
    (s.CallsBounded reads ↔ ∀ h, (feed streamFormat st reads.flatten).1 ≠ .failed (.negativeSize h))
  | [], s, st, items, outs, hs, _ => by
    refine iff_of_true trivial (fun h hf => ?_)
    rw [List.flatten_nil, Framing.feed_nil] at hf
    subst hf
    cases hs.reads
  | bs :: reads, s, st, items, outs, hs, hfit => by
    obtain ⟨ha, hb⟩ := hs.toSound.arrive bs hfit.1
    have hcall := callBounded_iff _ st bs rfl ha.reads hb
    rw [List.flatten_cons, Framing.feed_append]
    by_cases hneg : ∀ h, (feed streamFormat st bs).1 ≠ .failed (.negativeSize h)
    · rcases hs.onRead bs hfit.1 hneg with ⟨s', items', hread, hopen, hroom, hfac⟩ | ⟨⟨s', hread⟩, hbad⟩
      · have ih := hopen.callsBounded_iff reads (by rw [hfac, hroom]; exact hfit.2)
        rw [Recv.CallsBounded, ← ih]
        constructor
        · exact fun h => h.2 _ _ s' items' hread
        · refine fun h => ⟨hcall.2 hneg, fun mallocOk fuel t items'' ht => ?_⟩
          have := hs.onRead_unique bs hfit.1 hneg ht
          rw [hread] at this
          cases this
          exact h
      · rw [Recv.CallsBounded]
        refine iff_of_true ⟨hcall.2 hneg, fun mallocOk fuel t items'' ht => ?_⟩ (fun h => ?_)
        · have := hs.onRead_unique bs hfit.1 hneg ht
          rw [hread] at this
          cases this
        · simp [hbad]
    · rw [Recv.CallsBounded]
      refine iff_of_false (fun h => hneg (hcall.1 h.1)) (fun h => hneg (fun k hk => ?_))
      exact h k (by simp [hk])

end Gb
