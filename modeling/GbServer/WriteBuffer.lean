import GbServer.ReadBuffer
/-!
# WriteBuffer — a byte list in transfer blocks

`WriteBuffer` (`buffer.h`, `buffer.cpp`): handles into blocks that grow by a factor, filled from the front.  `Next` gives
out the rest of the last block, `BackUp` takes back its end, `Reserve` and `SetData` make room and fill it, `SwapOut`
turns the blocks into a `ReadBuffer`.  A buffer that holds the bytes `bs` (`Holds`) is the list `bs` to all of them:
`Append` puts bytes behind it (`Holds.append`), `SetData` overwrites it (`Holds.setData`), a stream of protobuf writes
through `Next` and `BackUp` (`Holds.writeRaw`), and `SwapOut` hands it over (`Holds.swapOut`).

An allocation for the block number `k` succeeds if `mallocOk k`.
-/
namespace Gb

open Bytes (overwrite overwrite_nil)

/-- The `capacity` side of the union: the handles of a `WriteBuffer`. -/
structure WriteHandle where
  data     : BlockPtr
  size     : Nat
  capacity : Nat

/-- The handle that `SwapOut` hands over. -/
def WriteHandle.view (h : WriteHandle) : BufferHandle := ⟨h.data, h.size, 0⟩

/-- What `Next` hands out. -/
structure WriteRegion where
  data   : BlockPtr
  offset : Nat
  size   : Nat

structure WriteBuffer where
  pool            : TranBufPool
  bufList         : List WriteHandle := []
  totalBlockSize  : Nat := 0
  totalCapacity   : Nat := 0
  lastBytes       : Nat := 0
  writeBytes      : Nat := 0
  baseBlockFactor : Nat := 4

namespace WriteBuffer

def byteCount (w : WriteBuffer) : Nat := w.writeBytes

/-- `Extend`: a block more, unless the allocation fails.  The factor is an `unsigned int`. -/
def extend (w : WriteBuffer) (mallocOk : Nat → Bool) : Option WriteBuffer :=
  let currentFactor := (w.bufList.length + w.baseBlockFactor) % 4294967296
  let (block, pool) := w.pool.malloc (min TRAN_BUF_BLOCK_MAX_FACTOR currentFactor) (mallocOk w.bufList.length)
  if block = nullptr then none
  else
    some { w with
      pool           := pool
      bufList        := w.bufList ++ [⟨block, 0, pool.capacity block⟩]
      totalBlockSize := w.totalBlockSize + pool.blockSize block
      totalCapacity  := w.totalCapacity + pool.capacity block }

/-- The last block has room. -/
def hasRoom (w : WriteBuffer) : Bool :=
  match w.bufList.getLast? with
  | none      => false
  | some last => last.size ≠ last.capacity

/-- The rest of the last block, given out. -/
def takeLast (w : WriteBuffer) : Option WriteRegion × WriteBuffer :=
  match w.bufList.getLast? with
  | none      => (none, w)
  | some last =>
    let size := last.capacity - last.size
    (some ⟨last.data, last.size, size⟩,
      { w with
        bufList    := w.bufList.dropLast ++ [{ last with size := last.capacity }]
        lastBytes  := size
        writeBytes := w.writeBytes + size })

def next (w : WriteBuffer) (mallocOk : Nat → Bool) : Option WriteRegion × WriteBuffer :=
  match if w.hasRoom then some w else w.extend mallocOk with
  | none   => (none, { w with lastBytes := 0 })
  | some w => w.takeLast

/-- `BackUp` of `count` bytes, at most those of the last block. -/
def backUp (w : WriteBuffer) (count : Nat) : WriteBuffer :=
  match w.bufList.getLast? with
  | none      => w
  | some last =>
    { w with
      bufList    := w.bufList.dropLast ++ [{ last with size := last.size - count }]
      lastBytes  := 0
      writeBytes := w.writeBytes - count }

/-- The caller of `Next` writes to the front of what it was given. -/
def fill (w : WriteBuffer) (r : WriteRegion) (bs : List UInt8) : WriteBuffer :=
  { w with pool := w.pool.write r.data r.offset bs }

/-- The loop of `Reserve`, at most `fuel` times; `none` when it has not ended then. -/
def reserveLoop (mallocOk : Nat → Bool) : Nat → WriteBuffer → Nat → Option (Bool × WriteBuffer)
  | 0,        w, count => if count = 0 then some (true, w) else none
  | fuel + 1, w, count =>
    if count = 0 then some (true, w)
    else
      match w.next mallocOk with
      | (none, w)   => some (false, w)
      | (some r, w) =>
        if count < r.size then some (true, w.backUp (r.size - count)) else reserveLoop mallocOk fuel w (count - r.size)

/-- `Reserve`: where the reserved bytes begin, or -1. -/
def reserve (w : WriteBuffer) (count : Int) (mallocOk : Nat → Bool) : Option (Int × WriteBuffer) :=
  match reserveLoop mallocOk count.toNat w count.toNat with
  | none            => none
  | some (true, w') => some (w.byteCount, w')
  | some (false, w) => some (-1, w)

/-- The first loop of `SetData`: the handles from the one that holds the position on, and the offset in it. -/
def seek : List WriteHandle → Nat → Option (List WriteHandle × Nat)
  | [],      pos => if pos = 0 then some ([], 0) else none
  | h :: hs, pos =>
    if pos = 0 then some (h :: hs, 0) else if pos < h.size then some (h :: hs, pos) else seek hs (pos - h.size)

/-- The second loop of `SetData`: a copy of `bs` to the handles. -/
def copyTo : List WriteHandle → TranBufPool → Nat → List UInt8 → Option TranBufPool
  | [],      p, _,      bs => if bs.isEmpty then some p else none
  | h :: hs, p, offset, bs =>
    let curSize := h.size - offset
    if bs.isEmpty then some p
    else if bs.length < curSize then some (p.write h.data offset bs)
    else copyTo hs (p.write h.data offset (bs.take curSize)) 0 (bs.drop curSize)

/-- `SetData`; `none` when the handles end before the bytes do. -/
def setData (w : WriteBuffer) (pos : Int) (bs : List UInt8) : Option WriteBuffer :=
  match seek w.bufList pos.toNat with
  | none              => none
  | some (hs, offset) => (copyTo hs w.pool offset bs).map fun pool => { w with pool := pool }

/-- `Append` of the `size` bytes at a pointer to `bs`. -/
def append (w : WriteBuffer) (bs : List UInt8) (size : Int) (mallocOk : Nat → Bool) : Option (Bool × WriteBuffer) :=
  if size = 0 then some (true, w)
  else
    match w.reserve size mallocOk with
    | none           => none
    | some (head, w) => if head < 0 then some (false, w) else (w.setData head (bs.take size.toNat)).map fun w => (true, w)

/-- A writer of protobuf hands over `bs`: it fills what `Next` gives and backs up what it does not need. -/
def writeRaw (mallocOk : Nat → Bool) : Nat → WriteBuffer → List UInt8 → Option (Bool × WriteBuffer)
  | 0,        w, bs => if bs.isEmpty then some (true, w) else none
  | fuel + 1, w, bs =>
    if bs.isEmpty then some (true, w)
    else
      match w.next mallocOk with
      | (none, w)   => some (false, w)
      | (some r, w) =>
        if bs.length < r.size then some (true, (w.fill r bs).backUp (r.size - bs.length))
        else writeRaw mallocOk fuel (w.fill r (bs.take r.size)) (bs.drop r.size)

/-- The loop of `SwapOut`: a reference for the reader, and the writer's one returned. -/
def swapOutLoop : List WriteHandle → ReadBuffer → TranBufPool → ReadBuffer × TranBufPool
  | [],      is, p => (is, p)
  | h :: hs, is, p =>
    let (is, p) := if 0 < h.size then is.append p h.view else (is, p)
    swapOutLoop hs is (p.free h.data)

def swapOut (w : WriteBuffer) (is : ReadBuffer) : ReadBuffer × WriteBuffer :=
  let (is, pool) := swapOutLoop w.bufList is w.pool
  (is, { w with
    pool := pool, bufList := [], totalBlockSize := 0, totalCapacity := 0, lastBytes := 0, writeBytes := 0 })

/-! ## The bytes of handles -/

/-- Handles to blocks of their own, whose bytes so far are `bs`. -/
inductive Handles (p : TranBufPool) : List WriteHandle → List UInt8 → Prop
  | nil : Handles p [] []
  | cons {h : WriteHandle} {hs : List WriteHandle} {k : Block} {bs : List UInt8} (live : p.blocks h.data = some k)
      (full : k.data.length = h.capacity) (fits : h.size ≤ h.capacity) (apart : h.data ∉ hs.map WriteHandle.data)
      (tail : Handles p hs bs) : Handles p (h :: hs) (k.data.take h.size ++ bs)

/-- A buffer of the bytes `bs`. -/
structure Holds (w : WriteBuffer) (bs : List UInt8) : Prop where
  handles : Handles w.pool w.bufList bs
  count   : w.writeBytes = bs.length

theorem Handles.congr {p q : TranBufPool} : ∀ {hs : List WriteHandle} {bs : List UInt8}, Handles p hs bs →
    (∀ b ∈ hs.map WriteHandle.data, q.blocks b = p.blocks b) → Handles q hs bs
  | _, _, .nil, _ => .nil
  | _, _, .cons live full fits apart tail, hpq =>
    .cons ((hpq _ List.mem_cons_self).trans live) full fits apart
      (tail.congr fun b hb => hpq b (List.mem_cons_of_mem _ hb))

theorem Handles.append {p : TranBufPool} : ∀ {xs ys : List WriteHandle} {b c : List UInt8}, Handles p xs b →
    Handles p ys c → (∀ x ∈ xs.map WriteHandle.data, x ∉ ys.map WriteHandle.data) → Handles p (xs ++ ys) (b ++ c)
  | [],      _,  _, _, .nil, hy, _ => hy
  | x :: xs, ys, _, c, .cons live full fits apart tail, hy, hdis => by
    rw [List.cons_append, List.append_assoc]
    refine .cons live full fits ?_ (tail.append hy fun b hb => hdis b (List.mem_cons_of_mem _ hb))
    rw [List.map_append, List.mem_append]
    exact fun hm => hm.elim apart (hdis _ List.mem_cons_self)

theorem Handles.append_inv {p : TranBufPool} : ∀ {xs ys : List WriteHandle} {bs : List UInt8},
    Handles p (xs ++ ys) bs → ∃ b c, bs = b ++ c ∧ Handles p xs b ∧ Handles p ys c ∧
      ∀ x ∈ xs.map WriteHandle.data, x ∉ ys.map WriteHandle.data
  | [],      ys, bs, h => ⟨[], bs, rfl, .nil, h, fun x hx => by cases hx⟩
  | x :: xs, ys, _,  .cons live full fits apart tail => by
    obtain ⟨b, c, rfl, hb, hc, hdis⟩ := tail.append_inv
    have apart : x.data ∉ (xs ++ ys).map WriteHandle.data := apart
    rw [List.map_append, List.mem_append, not_or] at apart
    refine ⟨_, c, (List.append_assoc ..).symm, .cons live full fits apart.1 hb, hc, fun a ha => ?_⟩
    rcases List.mem_cons.1 ha with rfl | ha
    · exact apart.2
    · exact hdis a ha

theorem Handles.live {p : TranBufPool} : ∀ {hs : List WriteHandle} {bs : List UInt8}, Handles p hs bs →
    ∀ b ∈ hs.map WriteHandle.data, ∃ k, p.blocks b = some k
  | _, _, .cons live _ _ _ tail, b, hb => by
    rcases List.mem_cons.1 hb with rfl | hb
    · exact ⟨_, live⟩
    · exact tail.live b hb

theorem view_read {p : TranBufPool} {h : WriteHandle} {k : Block} (live : p.blocks h.data = some k)
    (full : k.data.length = h.capacity) (fits : h.size ≤ h.capacity) : h.view.read p = some (k.data.take h.size) := by
  have hfit : (0 : Int).toNat + h.size ≤ k.data.length := by
    rw [Int.toNat_zero, Nat.zero_add, full]
    exact fits
  show p.read h.data 0 h.size = _
  rw [TranBufPool.read, live]
  dsimp only
  rw [if_pos ⟨Int.le_refl 0, hfit⟩, Bytes.slice, Int.toNat_zero, List.drop_zero]

/-- What a `ReadBuffer` reads from the handles. -/
theorem Handles.toRead {p : TranBufPool} : ∀ {hs : List WriteHandle} {bs : List UInt8}, Handles p hs bs →
    readHandles p (hs.map WriteHandle.view) = some bs
  | _, _, .nil => rfl
  | _, _, .cons live full fits _ tail => readHandles_cons_eq_some p _ _ _ _ (view_read live full fits) tail.toRead

/-- The block of a new handle, none of the others'. -/
theorem Handles.malloc {p : TranBufPool} {hs : List WriteHandle} {bs : List UInt8} (h : Handles p hs bs) (factor : Nat) :
    Handles (p.malloc factor true).2 (hs ++ [⟨p.next, 0, (p.malloc factor true).2.capacity p.next⟩]) bs ∧
      0 < (p.malloc factor true).2.capacity p.next := by
  obtain ⟨k, hk, hlen, hpos⟩ := TranBufPool.blocks_malloc p factor
  have hlt : ∀ b ∈ hs.map WriteHandle.data, b < p.next := fun b hb => by
    obtain ⟨k', hk'⟩ := h.live b hb
    exact TranBufPool.lt_next_of_live hk'
  refine ⟨?_, hpos⟩
  have hold : Handles (p.malloc factor true).2 hs bs :=
    h.congr fun b hb => TranBufPool.blocks_malloc_of_lt p factor (hlt b hb)
  have hnew : Handles (p.malloc factor true).2 [⟨p.next, 0, (p.malloc factor true).2.capacity p.next⟩]
      (k.data.take 0 ++ []) := .cons hk hlen (Nat.zero_le _) List.not_mem_nil .nil
  have := hold.append hnew fun b hb hm => by
    rw [List.map_singleton, List.mem_singleton] at hm
    exact absurd (hlt b hb) (hm ▸ Nat.lt_irrefl _)
  simpa using this

/-- Where there is room or memory, there is a last block with room. -/
theorem Holds.ready {w : WriteBuffer} {bs : List UInt8} (h : w.Holds bs) {mallocOk : Nat → Bool}
    (hok : w.hasRoom = true ∨ mallocOk w.bufList.length = true) :
    ∃ w', (if w.hasRoom then some w else w.extend mallocOk) = some w' ∧ w'.Holds bs ∧
      ∃ hs last, w'.bufList = hs ++ [last] ∧ last.size < last.capacity := by
  split
  · rename_i hroom
    refine ⟨w, rfl, h, ?_⟩
    unfold hasRoom at hroom
    split at hroom
    · cases hroom
    · rename_i last hlast
      obtain ⟨hs, hsplit⟩ := List.getLast?_eq_some_iff.1 hlast
      refine ⟨hs, last, hsplit, ?_⟩
      have hh := h.handles
      rw [hsplit] at hh
      obtain ⟨-, c, -, -, hc, -⟩ := hh.append_inv
      cases hc with
      | cons live full fits apart tail => exact Nat.lt_of_le_of_ne fits (by simpa using hroom)
  · rename_i hroom
    have hnew := h.handles.malloc (min TRAN_BUF_BLOCK_MAX_FACTOR ((w.bufList.length + w.baseBlockFactor) % 4294967296))
    unfold extend
    rw [hok.resolve_left hroom]
    refine ⟨_, if_neg (Nat.ne_of_gt w.pool.next_pos), ⟨hnew.1, h.count⟩, _, _, rfl, hnew.2⟩

/-- What `Next` gives out lies at the end of the last block. -/
def AtEnd (w : WriteBuffer) (r : WriteRegion) : Prop :=
  ∃ hs last, w.bufList = hs ++ [last] ∧ last.data = r.data ∧ last.size = r.offset + r.size

/-- **`Next` puts bytes behind the list**, whatever the block had there. -/
theorem Holds.next {w : WriteBuffer} {bs : List UInt8} (h : w.Holds bs) {mallocOk : Nat → Bool}
    (hok : w.hasRoom = true ∨ mallocOk w.bufList.length = true) : ∃ r w' g, w.next mallocOk = (some r, w') ∧ w'.Holds (bs ++ g) ∧ g.length = r.size ∧
      0 < r.size ∧ w'.AtEnd r := by
  obtain ⟨v, hv, hholds, hs, last, hsplit, hroom⟩ := h.ready hok
  have hh := hholds.handles
  rw [hsplit] at hh
  obtain ⟨b, c, rfl, hb, hc, hdis⟩ := hh.append_inv
  rw [WriteBuffer.next, hv]
  dsimp only
  unfold takeLast
  rw [hsplit, List.getLast?_concat, List.dropLast_concat]
  cases hc with
  | cons live full fits apart tail =>
    cases tail
    rename_i k
    refine ⟨_, _, k.data.drop last.size, rfl, ⟨?_, ?_⟩, ?_, Nat.sub_pos_of_lt hroom, hs, _, rfl, rfl, ?_⟩
    · have hnew : Handles v.pool [{ last with size := last.capacity }] (k.data.take last.capacity ++ []) :=
        .cons live full (Nat.le_refl _) apart .nil
      have := hb.append hnew hdis
      rw [List.append_nil, List.take_of_length_le (Nat.le_of_eq full)] at this
      rwa [List.append_nil, List.append_assoc, List.take_append_drop]
    · have hcount := hholds.count
      simp only [List.append_nil, List.length_append, List.length_take, List.length_drop, full] at hcount ⊢
      omega
    · rw [List.length_drop, full]
    · show last.capacity = last.size + (last.capacity - last.size)
      omega

/-- The end of the bytes of a buffer is the end of its last block's. -/
theorem Holds.last {w : WriteBuffer} {bs g : List UInt8} (h : w.Holds (bs ++ g)) {r : WriteRegion} (hr : w.AtEnd r)
    (hg : g.length ≤ r.size) : ∃ hs last k b, w.bufList = hs ++ [last] ∧ last.data = r.data ∧
      last.size = r.offset + r.size ∧ w.pool.blocks last.data = some k ∧ k.data.length = last.capacity ∧
      last.size ≤ last.capacity ∧ Handles w.pool hs b ∧ last.data ∉ hs.map WriteHandle.data ∧
      bs = b ++ k.data.take (last.size - g.length) ∧ g = (k.data.take last.size).drop (last.size - g.length) := by
  obtain ⟨hs, last, hsplit, hdata, hsize⟩ := hr
  have hh := h.handles
  rw [hsplit] at hh
  obtain ⟨b, c, hbc, hb, hc, hdis⟩ := hh.append_inv
  cases hc with
  | cons live full fits apart tail =>
    cases tail
    rename_i k
    rw [List.append_nil] at hbc
    have hlen : bs.length = b.length + (last.size - g.length) := by
      have := congrArg List.length hbc
      simp only [List.length_append, List.length_take, full] at this
      omega
    refine ⟨hs, last, k, b, hsplit, hdata, hsize, live, full, fits, hb, fun hm => hdis _ hm (by simp), ?_, ?_⟩
    · have := congrArg (List.take bs.length) hbc
      rw [List.take_left, hlen, List.take_length_add_append, List.take_take,
        Nat.min_eq_left (Nat.sub_le _ _)] at this
      exact this
    · have := congrArg (List.drop bs.length) hbc
      rw [List.drop_left, hlen, List.drop_length_add_append] at this
      exact this

/-- **`BackUp` takes bytes off the end.** -/
theorem Holds.backUp {w : WriteBuffer} {bs g : List UInt8} (h : w.Holds (bs ++ g)) {r : WriteRegion} (hr : w.AtEnd r)
    (hg : g.length ≤ r.size) : (w.backUp g.length).Holds bs := by
  obtain ⟨hs, last, k, b, hsplit, -, hsize, live, full, fits, hb, hnot, hbs, -⟩ := h.last hr hg
  have hcount := h.count
  unfold WriteBuffer.backUp
  rw [hsplit, List.getLast?_concat, List.dropLast_concat]
  constructor
  · have hnew : Handles w.pool [{ last with size := last.size - g.length }] (k.data.take (last.size - g.length) ++ []) :=
      .cons live full (Nat.le_trans (Nat.sub_le _ _) fits) List.not_mem_nil .nil
    rw [List.append_nil] at hnew
    rw [hbs]
    exact hb.append hnew fun x hx hm => hnot (List.mem_singleton.1 hm ▸ hx)
  · rw [List.length_append] at hcount
    show w.writeBytes - g.length = bs.length
    omega

/-- A copy to one block, seen through handles to others. -/
theorem Handles.write_of_not_mem {p : TranBufPool} {hs : List WriteHandle} {bs : List UInt8} (h : Handles p hs bs)
    {b : BlockPtr} (hb : b ∉ hs.map WriteHandle.data) (offset : Nat) (xs : List UInt8) :
    Handles (p.write b offset xs) hs bs :=
  h.congr fun _ hc => TranBufPool.blocks_write_of_ne p offset xs fun he => hb (he ▸ hc)

/-- A caller fills what `Next` gave out. -/
theorem Holds.fill {w : WriteBuffer} {bs g : List UInt8} (h : w.Holds (bs ++ g)) {r : WriteRegion} (hr : w.AtEnd r)
    (hg : g.length = r.size) {xs : List UInt8} (hxs : xs.length ≤ r.size) :
    (w.fill r xs).Holds (bs ++ (xs ++ g.drop xs.length)) ∧ (w.fill r xs).AtEnd r := by
  refine ⟨?_, hr⟩
  obtain ⟨hs, last, k, b, hsplit, hdata, hsize, live, full, fits, hb, hnot, hbs, hgs⟩ := h.last hr (Nat.le_of_eq hg)
  obtain ⟨k', hk', -, hdata'⟩ := TranBufPool.live_write w.pool last.data k live r.offset xs
  have hoff : last.size - g.length = r.offset := by omega
  rw [hoff] at hbs hgs
  have hnew : (overwrite k.data r.offset xs).take last.size =
      k.data.take r.offset ++ (xs ++ g.drop xs.length) := by
    have htake : (k.data.take last.size).length = last.size := by
      rw [List.length_take, full, Nat.min_eq_left fits]
    rw [Bytes.take_overwrite, Bytes.overwrite_eq _ _ _ (by omega), hgs, List.drop_drop, List.take_take,
      Nat.min_eq_left (by omega), List.append_assoc]
  constructor
  · show Handles (w.pool.write r.data r.offset xs) w.bufList _
    rw [← hdata, hsplit, hbs, List.append_assoc, ← hnew, ← hdata']
    have hlast : Handles (w.pool.write last.data r.offset xs) [last] (k'.data.take last.size ++ []) := by
      refine .cons hk' ?_ fits List.not_mem_nil .nil
      rw [hdata', Bytes.overwrite_length, full]
    rw [List.append_nil] at hlast
    exact (hb.write_of_not_mem hnot r.offset xs).append hlast fun x hx hm => hnot (List.mem_singleton.1 hm ▸ hx)
  · have hcount := h.count
    show w.writeBytes = _
    simp only [List.length_append, List.length_drop] at hcount ⊢
    omega

/-! ## When memory runs out -/

/-- The room in the last block. -/
def room (w : WriteBuffer) : Nat :=
  match w.bufList.getLast? with
  | none      => 0
  | some last => last.capacity - last.size

/-- The capacity of the block that comes after `number` others. -/
def blockCapacity (factor number : Nat) : Nat :=
  TRAN_BUF_BLOCK_BASE_SIZE <<< min TRAN_BUF_BLOCK_MAX_FACTOR ((number + factor) % 4294967296) - blockHeadSize

/-- The room in the last block and in `blocks` new ones. -/
def roomIn (w : WriteBuffer) (blocks : Nat) : Nat :=
  w.room + ((List.range blocks).map fun i => blockCapacity w.baseBlockFactor (w.bufList.length + i)).sum

/-- An allocation fails when `taken` bytes have been taken: the last block was filled, and the ones before the failure. -/
def FailsAfter (w : WriteBuffer) (mallocOk : Nat → Bool) (taken : Nat) : Prop :=
  ∃ blocks, (∀ i < blocks, mallocOk (w.bufList.length + i) = true) ∧ mallocOk (w.bufList.length + blocks) = false ∧
    w.roomIn blocks = taken

/-- All the blocks but the last are full. -/
def Full (w : WriteBuffer) : Prop := ∀ h ∈ w.bufList.dropLast, h.size = h.capacity

theorem takeLast_concat {w : WriteBuffer} {hs : List WriteHandle} {last : WriteHandle} (h : w.bufList = hs ++ [last]) :
    w.takeLast = (some ⟨last.data, last.size, last.capacity - last.size⟩,
      { w with
        bufList    := hs ++ [{ last with size := last.capacity }]
        lastBytes  := last.capacity - last.size
        writeBytes := w.writeBytes + (last.capacity - last.size) }) := by
  rw [takeLast, h, List.getLast?_concat, List.dropLast_concat]

theorem room_concat {w : WriteBuffer} {hs : List WriteHandle} {last : WriteHandle} (h : w.bufList = hs ++ [last]) :
    w.room = last.capacity - last.size := by
  rw [room, h, List.getLast?_concat]

/-- What `Extend` adds. -/
theorem extend_eq_some {w : WriteBuffer} {mallocOk : Nat → Bool} (hok : mallocOk w.bufList.length = true) :
    ∃ v data, w.extend mallocOk = some v ∧ v.baseBlockFactor = w.baseBlockFactor ∧
      v.bufList = w.bufList ++ [⟨data, 0, blockCapacity w.baseBlockFactor w.bufList.length⟩] := by
  unfold extend
  rw [hok]
  refine ⟨_, w.pool.next, if_neg (Nat.ne_of_gt w.pool.next_pos), rfl, ?_⟩
  exact congrArg (fun n => w.bufList ++ [⟨w.pool.next, 0, n⟩]) (w.pool.capacity_malloc _)

theorem next_eq_none {w : WriteBuffer} {mallocOk : Nat → Bool} (hroom : w.hasRoom = false)
    (hfails : mallocOk w.bufList.length = false) : w.next mallocOk = (none, { w with lastBytes := 0 }) := by
  have hextend : w.extend mallocOk = none := by
    unfold extend
    rw [hfails]
    exact if_pos rfl
  rw [next, hroom, hextend]
  rfl

/-- The last block is full where it has no room. -/
theorem full_of_hasRoom_eq_false {w : WriteBuffer} (hroom : w.hasRoom = false) (hfull : w.Full) :
    ∀ h ∈ w.bufList, h.size = h.capacity := by
  intro h hmem
  unfold hasRoom at hroom
  split at hroom
  · rename_i hnil
    rw [List.getLast?_eq_none_iff.1 hnil] at hmem
    cases hmem
  · rename_i last hlast
    obtain ⟨hs, hsplit⟩ := List.getLast?_eq_some_iff.1 hlast
    rw [hsplit] at hmem
    rcases List.mem_append.1 hmem with hmem | hmem
    · refine hfull h ?_
      rw [hsplit, List.dropLast_concat]
      exact hmem
    · rw [List.mem_singleton.1 hmem]
      simpa using hroom

theorem room_eq_zero {w : WriteBuffer} (hroom : w.hasRoom = false) : w.room = 0 := by
  unfold hasRoom at hroom
  unfold room
  split at hroom
  · rfl
  · rename_i last hlast
    rw [show last.size = last.capacity by simpa using hroom, Nat.sub_self]

/-- What `Next` takes: the rest of the last block, or a new one. -/
theorem next_room {w w' : WriteBuffer} {mallocOk : Nat → Bool} {r : WriteRegion} (h : w.next mallocOk = (some r, w')) :
    w'.room = 0 ∧ w'.baseBlockFactor = w.baseBlockFactor ∧
      ((w.room = r.size ∧ w'.bufList.length = w.bufList.length) ∨
       (w.room = 0 ∧ mallocOk w.bufList.length = true ∧ r.size = blockCapacity w.baseBlockFactor w.bufList.length ∧
         w'.bufList.length = w.bufList.length + 1)) := by
  cases hroom : w.hasRoom with
  | true  =>
    have hnext : w.next mallocOk = w.takeLast := by
      rw [next, hroom]
      rfl
    obtain ⟨hs, last, hsplit⟩ : ∃ hs last, w.bufList = hs ++ [last] := by
      unfold hasRoom at hroom
      split at hroom
      · cases hroom
      · rename_i last hlast
        obtain ⟨hs, hsplit⟩ := List.getLast?_eq_some_iff.1 hlast
        exact ⟨hs, last, hsplit⟩
    rw [hnext, takeLast_concat hsplit] at h
    obtain ⟨hr, rfl⟩ := Prod.mk.inj h
    obtain rfl := Option.some.inj hr
    refine ⟨(room_concat rfl).trans (Nat.sub_self _), rfl, .inl ⟨room_concat hsplit, ?_⟩⟩
    rw [hsplit, List.length_append, List.length_append]
    rfl
  | false =>
    cases hok : mallocOk w.bufList.length with
    | false =>
      rw [next_eq_none hroom hok] at h
      cases h
    | true  =>
      obtain ⟨v, data, hextend, hfactor, hsplit⟩ := extend_eq_some hok
      have hnext : w.next mallocOk = v.takeLast := by
        rw [next, hroom, hextend]
        rfl
      rw [hnext, takeLast_concat hsplit] at h
      obtain ⟨hr, rfl⟩ := Prod.mk.inj h
      obtain rfl := Option.some.inj hr
      refine ⟨(room_concat rfl).trans (Nat.sub_self _), hfactor, .inr ⟨room_eq_zero hroom, rfl, rfl, ?_⟩⟩
      exact List.length_append

theorem roomIn_succ (w : WriteBuffer) (blocks : Nat) : w.roomIn (blocks + 1) = w.room +
    (blockCapacity w.baseBlockFactor w.bufList.length +
      ((List.range blocks).map fun i => blockCapacity w.baseBlockFactor (w.bufList.length + 1 + i)).sum) := by
  rw [roomIn, List.range_succ_eq_map, List.map_cons, List.map_map, List.sum_cons]
  have htail : (List.range blocks).map ((fun i => blockCapacity w.baseBlockFactor (w.bufList.length + i)) ∘ Nat.succ) =
      (List.range blocks).map fun i => blockCapacity w.baseBlockFactor (w.bufList.length + 1 + i) := by
    refine List.map_congr_left fun i _ => congrArg (blockCapacity w.baseBlockFactor) ?_
    omega
  rw [htail]
  rfl

/-- What was taken before an allocation fails, and what is taken after a `Next`. -/
theorem failsAfter_next {w w' : WriteBuffer} {mallocOk : Nat → Bool} {r : WriteRegion}
    (h : w.next mallocOk = (some r, w')) (taken : Nat) :
    w.FailsAfter mallocOk taken ↔ r.size ≤ taken ∧ w'.FailsAfter mallocOk (taken - r.size) := by
  obtain ⟨hroom', hfactor, ⟨hroom, hlen⟩ | ⟨hroom, hok, hsize, hlen⟩⟩ := next_room h
  · have hsame : ∀ blocks, w.roomIn blocks = r.size + w'.roomIn blocks := by
      intro blocks
      rw [roomIn, roomIn, hroom, hroom', hfactor, hlen, Nat.zero_add]
    unfold FailsAfter
    rw [hlen]
    constructor
    · rintro ⟨blocks, hbefore, hfails, rfl⟩
      rw [hsame]
      exact ⟨Nat.le_add_right _ _, blocks, hbefore, hfails, (Nat.add_sub_cancel_left ..).symm⟩
    · rintro ⟨hle, blocks, hbefore, hfails, htaken⟩
      exact ⟨blocks, hbefore, hfails, by rw [hsame]; omega⟩
  · have hsame : ∀ blocks, w.roomIn (blocks + 1) = r.size + w'.roomIn blocks := by
      intro blocks
      rw [roomIn_succ, roomIn, hroom, hroom', hfactor, hlen, hsize]
      omega
    unfold FailsAfter
    rw [hlen]
    constructor
    · rintro ⟨blocks, hbefore, hfails, rfl⟩
      cases blocks with
      | zero        =>
        rw [Nat.add_zero, hok] at hfails
        cases hfails
      | succ blocks =>
        rw [hsame]
        refine ⟨Nat.le_add_right _ _, blocks, fun i hi => ?_, ?_, (Nat.add_sub_cancel_left ..).symm⟩
        · have hi' := hbefore (i + 1) (Nat.succ_lt_succ hi)
          rwa [Nat.add_right_comm, Nat.add_assoc]
        · rwa [Nat.add_right_comm, Nat.add_assoc]
    · rintro ⟨hle, blocks, hbefore, hfails, htaken⟩
      refine ⟨blocks + 1, fun i hi => ?_, ?_, by rw [hsame]; omega⟩
      · cases i with
        | zero   => exact hok
        | succ i =>
          have hi' := hbefore i (Nat.lt_of_succ_lt_succ hi)
          rwa [Nat.add_right_comm, Nat.add_assoc] at hi'
      · rwa [Nat.add_right_comm, Nat.add_assoc] at hfails

/-- The first allocation fails. -/
theorem failsAfter_zero {w : WriteBuffer} {mallocOk : Nat → Bool} (hroom : w.room = 0)
    (hfails : mallocOk w.bufList.length = false) {taken : Nat} : w.FailsAfter mallocOk taken ↔ taken = 0 := by
  constructor
  · rintro ⟨blocks, hbefore, -, rfl⟩
    cases blocks with
    | zero        => rw [roomIn, hroom]; rfl
    | succ blocks =>
      have hfirst := hbefore 0 (Nat.succ_pos _)
      rw [Nat.add_zero, hfails] at hfirst
      cases hfirst
  · rintro rfl
    exact ⟨0, fun _ hi => absurd hi (Nat.not_lt_zero _), hfails, by rw [roomIn, hroom]; rfl⟩

theorem Full.next {w : WriteBuffer} (h : w.Full) (mallocOk : Nat → Bool) : (w.next mallocOk).2.Full := by
  have htake : ∀ v : WriteBuffer, v.Full → v.takeLast.2.Full := by
    intro v hv
    rcases List.eq_nil_or_concat v.bufList with hnil | ⟨hs, last, hsplit⟩
    · rw [takeLast, hnil]
      exact hv
    · rw [List.concat_eq_append] at hsplit
      rw [takeLast_concat hsplit]
      intro k hk
      refine hv k ?_
      rw [hsplit]
      simpa using hk
  cases hroom : w.hasRoom with
  | true  =>
    rw [WriteBuffer.next, hroom]
    exact htake w h
  | false =>
    cases hok : mallocOk w.bufList.length with
    | false =>
      rw [next_eq_none hroom hok]
      exact h
    | true  =>
      obtain ⟨v, data, hextend, -, hsplit⟩ := extend_eq_some hok
      rw [WriteBuffer.next, hroom, hextend]
      refine htake v fun k hk => full_of_hasRoom_eq_false hroom h k ?_
      rw [hsplit, List.dropLast_concat] at hk
      exact hk

theorem Full.backUp {w : WriteBuffer} (h : w.Full) (count : Nat) : (w.backUp count).Full := by
  unfold WriteBuffer.backUp
  split
  · exact h
  · intro k hk
    rw [List.dropLast_concat] at hk
    exact h k hk

/-! ## The operations on a byte list -/

/-- The loop of `Reserve` takes all that it is to take, or what there is when an allocation fails. -/
theorem Holds.reserveLoop {mallocOk : Nat → Bool} : ∀ (fuel : Nat) {w : WriteBuffer} {bs : List UInt8} (count : Nat),
    w.Holds bs → count ≤ fuel → ∃ ok w' g, WriteBuffer.reserveLoop mallocOk fuel w count = some (ok, w') ∧
      w'.Holds (bs ++ g) ∧ (w.Full → w'.Full) ∧
      ((ok = true ∧ g.length = count ∧ ∀ taken, w.FailsAfter mallocOk taken → count ≤ taken) ∨
       (ok = false ∧ g.length < count ∧ ∀ taken, w.FailsAfter mallocOk taken ↔ taken = g.length))
  | 0,        w, bs, count, h, hle => by
    rw [Nat.le_zero.1 hle]
    exact ⟨true, w, [], rfl, by rwa [List.append_nil], id, .inl ⟨rfl, rfl, fun _ _ => Nat.zero_le _⟩⟩
  | fuel + 1, w, bs, count, h, hle => by
    rw [WriteBuffer.reserveLoop]
    split
    · rename_i h0
      exact ⟨true, w, [], rfl, by rwa [List.append_nil], id, .inl ⟨rfl, h0.symm, fun _ _ => h0 ▸ Nat.zero_le _⟩⟩
    · rename_i hpos
      by_cases hready : w.hasRoom = true ∨ mallocOk w.bufList.length = true
      · obtain ⟨r, v, g, hnext, hv, hg, hsize, hend⟩ := h.next hready
        have hfull : w.Full → v.Full := fun hw => by
          have hv := hw.next mallocOk
          rwa [hnext] at hv
        have hfails := failsAfter_next hnext
        rw [hnext]
        dsimp only
        split
        · rename_i hlt
          have hdrop : r.size - count = (g.drop count).length := by rw [List.length_drop, hg]
          rw [← List.take_append_drop count g, ← List.append_assoc] at hv
          refine ⟨true, _, g.take count, rfl, ?_, fun hw => (hfull hw).backUp _, .inl ⟨rfl, ?_, fun taken ht => ?_⟩⟩
          · rw [hdrop]
            exact hv.backUp hend (by rw [List.length_drop, hg]; exact Nat.sub_le _ _)
          · rw [List.length_take, hg, Nat.min_eq_left (Nat.le_of_lt hlt)]
          · exact Nat.le_of_lt (Nat.lt_of_lt_of_le hlt ((hfails taken).1 ht).1)
        · obtain ⟨ok, w', g', hloop, hw', hfull', hresult⟩ := hv.reserveLoop fuel (count - r.size) (by omega)
          rw [List.append_assoc] at hw'
          refine ⟨ok, w', g ++ g', hloop, hw', hfull' ∘ hfull, ?_⟩
          rw [List.length_append, hg]
          rcases hresult with ⟨hok, hlen, henough⟩ | ⟨hok, hlen, hexactly⟩
          · refine .inl ⟨hok, by omega, fun taken ht => ?_⟩
            obtain ⟨hle', ht'⟩ := (hfails taken).1 ht
            have hrest := henough _ ht'
            omega
          · refine .inr ⟨hok, by omega, fun taken => ?_⟩
            rw [hfails taken, hexactly]
            omega
      · rw [not_or, Bool.not_eq_true, Bool.not_eq_true] at hready
        rw [next_eq_none hready.1 hready.2]
        refine ⟨false, _, [], rfl, ?_, id, .inr ⟨rfl, Nat.pos_of_ne_zero hpos, fun _ => ?_⟩⟩
        · rw [List.append_nil]
          exact ⟨h.handles, h.count⟩
        · exact failsAfter_zero (room_eq_zero hready.1) hready.2

/-- **What `Reserve` does**: it puts bytes behind the list and says where they begin, or leaves there what it had taken. -/
theorem Holds.reserve_cases {w : WriteBuffer} {bs : List UInt8} (h : w.Holds bs) (count : Int) (mallocOk : Nat → Bool) :
    ∃ (w' : WriteBuffer) (g : List UInt8), w'.Holds (bs ++ g) ∧ (w.Full → w'.Full) ∧
      ((w.reserve count mallocOk = some ((bs.length : Int), w') ∧ g.length = count.toNat ∧
        ∀ taken, w.FailsAfter mallocOk taken → count.toNat ≤ taken) ∨
       (w.reserve count mallocOk = some (-1, w') ∧ g.length < count.toNat ∧
        ∀ taken, w.FailsAfter mallocOk taken ↔ taken = g.length)) := by
  obtain ⟨ok, w', g, hloop, hw', hfull, ⟨rfl, hlen, henough⟩ | ⟨rfl, hlen, hexactly⟩⟩ :=
    h.reserveLoop count.toNat count.toNat (Nat.le_refl _)
  · refine ⟨w', g, hw', hfull, .inl ⟨?_, hlen, henough⟩⟩
    rw [WriteBuffer.reserve, hloop]
    exact congrArg (fun n : Nat => some ((n : Int), w')) h.count
  · refine ⟨w', g, hw', hfull, .inr ⟨?_, hlen, hexactly⟩⟩
    rw [WriteBuffer.reserve, hloop]

/-- **`Reserve` puts bytes behind the list** and says where they begin. -/
theorem Holds.reserve {w : WriteBuffer} {bs : List UInt8} (h : w.Holds bs) {mallocOk : Nat → Bool}
    (hok : ∀ k, mallocOk k = true) (count : Int) : ∃ (w' : WriteBuffer) (g : List UInt8),
      w.reserve count mallocOk = some ((bs.length : Int), w') ∧ w'.Holds (bs ++ g) ∧ g.length = count.toNat := by
  obtain ⟨w', g, hw', -, ⟨hreserve, hlen, -⟩ | ⟨-, -, hexactly⟩⟩ := h.reserve_cases count mallocOk
  · exact ⟨w', g, hreserve, hw', hlen⟩
  · obtain ⟨blocks, -, hfails, -⟩ := (hexactly g.length).2 rfl
    rw [hok] at hfails
    cases hfails

/-- A place in handles: those before it, those from it on, and the offset in the first of these. -/
structure Place (p : TranBufPool) (hs : List WriteHandle) (bs : List UInt8) (pos : Nat) (rest : List WriteHandle)
    (off : Nat) : Prop where
  split : ∃ pre b c, hs = pre ++ rest ∧ bs = b ++ c ∧ pos = b.length + off ∧ Handles p pre b ∧ Handles p rest c ∧
    ∀ x ∈ pre.map WriteHandle.data, x ∉ rest.map WriteHandle.data
  inside : off = 0 ∨ ∃ h t, rest = h :: t ∧ off ≤ h.size

theorem Handles.seek {p : TranBufPool} {hs : List WriteHandle} {bs : List UInt8} (h : Handles p hs bs) :
    ∀ pos, pos ≤ bs.length → ∃ rest off, WriteBuffer.seek hs pos = some (rest, off) ∧ Place p hs bs pos rest off := by
  induction h with
  | nil =>
    intro pos hle
    refine ⟨[], 0, if_pos (Nat.le_zero.1 hle), ⟨[], [], [], rfl, rfl, Nat.le_zero.1 hle, .nil, .nil, ?_⟩, Or.inl rfl⟩
    exact fun x hx => (List.not_mem_nil hx).elim
  | @cons h hs k bs live full fits apart tail ih =>
    intro pos hle
    have htake : (k.data.take h.size).length = h.size := by rw [List.length_take, full, Nat.min_eq_left fits]
    have hall : Handles p (h :: hs) (k.data.take h.size ++ bs) := .cons live full fits apart tail
    have hnone : ∀ x ∈ ([] : List WriteHandle).map WriteHandle.data, x ∉ (h :: hs).map WriteHandle.data :=
      fun x hx => (List.not_mem_nil hx).elim
    rw [WriteBuffer.seek]
    split
    · rename_i h0
      exact ⟨_, 0, rfl, ⟨[], [], _, rfl, rfl, h0, .nil, hall, hnone⟩, Or.inl rfl⟩
    · split
      · rename_i hlt
        exact ⟨_, pos, rfl, ⟨[], [], _, rfl, rfl, (Nat.zero_add _).symm, .nil, hall, hnone⟩,
          Or.inr ⟨h, hs, rfl, Nat.le_of_lt hlt⟩⟩
      · rename_i hge
        rw [List.length_append, htake] at hle
        obtain ⟨rest, off, hseek, ⟨pre, b, c, rfl, rfl, hpos, hpre, hrest, hdis⟩, hoff⟩ :=
          ih (pos - h.size) (by omega)
        rw [List.map_append, List.mem_append, not_or] at apart
        refine ⟨rest, off, hseek, ⟨h :: pre, k.data.take h.size ++ b, c, rfl, (List.append_assoc ..).symm, ?_,
          .cons live full fits apart.1 hpre, hrest, fun x hx => ?_⟩, hoff⟩
        · rw [List.length_append, htake]
          omega
        · rcases List.mem_cons.1 hx with rfl | hx
          · exact apart.2
          · exact hdis x hx

theorem Handles.copyTo : ∀ {hs : List WriteHandle} {p : TranBufPool} {bs : List UInt8} (off : Nat) (xs : List UInt8),
    Handles p hs bs → off + xs.length ≤ bs.length → (off = 0 ∨ ∃ h t, hs = h :: t ∧ off ≤ h.size) →
    ∃ q, WriteBuffer.copyTo hs p off xs = some q ∧ Handles q hs (overwrite bs off xs) ∧
      ∀ b, b ∉ hs.map WriteHandle.data → q.blocks b = p.blocks b
  | [], p, bs, off, xs, h, hle, _ => by
    cases h
    have hxs : xs = [] := List.eq_nil_of_length_eq_zero (by simp only [List.length_nil] at hle; omega)
    rw [hxs, overwrite_nil]
    exact ⟨p, rfl, .nil, fun b _ => rfl⟩
  | h :: hs, p, _, off, xs, .cons live full fits apart tail, hle, hoff => by
    rename_i k rest
    have htake : (k.data.take h.size).length = h.size := by rw [List.length_take, full, Nat.min_eq_left fits]
    have hoff : off ≤ h.size := by
      rcases hoff with rfl | ⟨h', t, he, hle'⟩
      · exact Nat.zero_le _
      · rw [(List.cons.inj he).1]
        exact hle'
    -- a copy to the first block, and what the other blocks keep
    have hfirst : ∀ ys : List UInt8, ∃ k', (p.write h.data off ys).blocks h.data = some k' ∧
        k'.data.length = h.capacity ∧ k'.data.take h.size = overwrite (k.data.take h.size) off ys := by
      intro ys
      obtain ⟨k', hk', -, hdata⟩ := TranBufPool.live_write p h.data k live off ys
      exact ⟨k', hk', by rw [hdata, Bytes.overwrite_length, full], by rw [hdata, Bytes.take_overwrite]⟩
    have hother : ∀ (ys : List UInt8) b, b ∉ (h :: hs).map WriteHandle.data →
        (p.write h.data off ys).blocks b = p.blocks b := fun ys b hb =>
      TranBufPool.blocks_write_of_ne p off ys fun he => hb (he ▸ List.mem_cons_self)
    rw [WriteBuffer.copyTo, Bytes.overwrite_append _ _ _ _ (by rw [htake]; exact hoff), htake]
    split
    · rename_i hnil
      rw [List.isEmpty_iff.1 hnil, List.drop_nil, overwrite_nil, overwrite_nil]
      exact ⟨p, rfl, .cons live full fits apart tail, fun b _ => rfl⟩
    · split
      · rename_i hlt
        obtain ⟨k', hk', hcap, hdata⟩ := hfirst xs
        rw [List.drop_of_length_le (Nat.le_of_lt hlt), overwrite_nil, ← hdata]
        exact ⟨_, rfl, .cons hk' hcap fits apart (tail.write_of_not_mem apart off xs), hother xs⟩
      · rename_i hge
        obtain ⟨k', hk', hcap, hdata⟩ := hfirst (xs.take (h.size - off))
        rw [Bytes.overwrite_take _ _ _ _ (by rw [htake]; omega)] at hdata
        have hrest : 0 + (xs.drop (h.size - off)).length ≤ rest.length := by
          rw [List.length_append, htake] at hle
          rw [List.length_drop]
          omega
        obtain ⟨q, hq, hhandles, hkeep⟩ := (tail.write_of_not_mem apart off (xs.take (h.size - off))).copyTo 0
          (xs.drop (h.size - off)) hrest (Or.inl rfl)
        refine ⟨q, hq, ?_, fun b hb => ?_⟩
        · rw [← hdata]
          exact .cons ((hkeep _ apart).trans hk') hcap fits apart hhandles
        · rw [List.map_cons, List.mem_cons, not_or] at hb
          rw [hkeep b hb.2]
          exact hother _ b (by rw [List.map_cons, List.mem_cons, not_or]; exact hb)

/-- **`SetData` overwrites the list in place.** -/
theorem Holds.setData {w : WriteBuffer} {bs : List UInt8} (h : w.Holds bs) (pos : Nat) (xs : List UInt8)
    (hle : pos + xs.length ≤ bs.length) : ∃ w', w.setData pos xs = some w' ∧ w'.Holds (overwrite bs pos xs) := by
  obtain ⟨rest, off, hseek, ⟨pre, b, c, hsplit, rfl, hpos, hpre, hrest, hdis⟩, hoff⟩ :=
    h.handles.seek pos (Nat.le_trans (Nat.le_add_right _ _) hle)
  rw [List.length_append] at hle
  obtain ⟨q, hq, hhandles, hkeep⟩ := hrest.copyTo off xs (by omega) hoff
  refine ⟨{ w with pool := q }, ?_, ?_, ?_⟩
  · rw [WriteBuffer.setData, Int.toNat_natCast, hseek]
    dsimp only
    rw [hq, Option.map_some]
  · show Handles q w.bufList _
    have hat : off = pos - b.length := by omega
    rw [hsplit, Bytes.overwrite_append_of_le _ _ _ _ (by omega), ← hat]
    exact (hpre.congr fun x hx => hkeep x (hdis x hx)).append hhandles hdis
  · rw [Bytes.overwrite_length]
    exact h.count

theorem setData_frame {w w' : WriteBuffer} {pos : Int} {bs : List UInt8} (h : w.setData pos bs = some w') :
    w'.bufList = w.bufList := by
  unfold WriteBuffer.setData at h
  split at h
  · cases h
  · obtain ⟨pool, -, rfl⟩ := Option.map_eq_some_iff.1 h
    rfl

/-- **What `Append` does**: it puts its bytes behind the list, or leaves there what it had reserved. -/
theorem Holds.append_cases {w : WriteBuffer} {bs : List UInt8} (h : w.Holds bs) (mallocOk : Nat → Bool) (xs : List UInt8)
    {size : Int} (hsize : size ≤ xs.length) : ∃ w' g, w'.Holds (bs ++ g) ∧ (w.Full → w'.Full) ∧
      ((w.append xs size mallocOk = some (true, w') ∧ g = xs.take size.toNat ∧
        ∀ taken, w.FailsAfter mallocOk taken → size.toNat ≤ taken) ∨
       (w.append xs size mallocOk = some (false, w') ∧ g.length < size.toNat ∧
        ∀ taken, w.FailsAfter mallocOk taken ↔ taken = g.length)) := by
  rw [WriteBuffer.append]
  split
  · rename_i h0
    rw [h0, Int.toNat_zero, List.take_zero]
    exact ⟨w, [], by rwa [List.append_nil], id, .inl ⟨rfl, rfl, fun _ _ => Nat.zero_le _⟩⟩
  · obtain ⟨v, g, hv, hfull, ⟨hreserve, hg, henough⟩ | ⟨hreserve, hg, hexactly⟩⟩ := h.reserve_cases size mallocOk
    · have htake : (xs.take size.toNat).length = g.length := by
        rw [List.length_take, hg]
        omega
      obtain ⟨w', hw', hholds⟩ := hv.setData bs.length (xs.take size.toNat) (Nat.le_of_eq (by rw [List.length_append, htake]))
      rw [Bytes.overwrite_append_of_le _ _ _ _ (Nat.le_refl _), Nat.sub_self,
        Bytes.overwrite_eq _ _ _ (Nat.le_of_eq (by rw [Nat.zero_add, htake])), Nat.zero_add, htake, List.drop_length, List.take_zero,
        List.nil_append, List.append_nil] at hholds
      refine ⟨w', _, hholds, fun hw => ?_, .inl ⟨?_, rfl, henough⟩⟩
      · unfold Full
        rw [setData_frame hw']
        exact hfull hw
      · rw [hreserve]
        dsimp only
        rw [if_neg (by omega), hw', Option.map_some]
    · refine ⟨v, g, hv, hfull, .inr ⟨?_, hg, hexactly⟩⟩
      rw [hreserve]
      rfl

/-- **`Append` puts its bytes behind the list.** -/
theorem Holds.append {w : WriteBuffer} {bs : List UInt8} (h : w.Holds bs) {mallocOk : Nat → Bool}
    (hok : ∀ k, mallocOk k = true) (xs : List UInt8) (size : Int) (hsize : size ≤ xs.length) :
    ∃ w', w.append xs size mallocOk = some (true, w') ∧ w'.Holds (bs ++ xs.take size.toNat) := by
  obtain ⟨w', g, hw', -, ⟨happend, rfl, -⟩ | ⟨-, -, hexactly⟩⟩ := h.append_cases mallocOk xs hsize
  · exact ⟨w', happend, hw'⟩
  · obtain ⟨blocks, -, hfails, -⟩ := (hexactly g.length).2 rfl
    rw [hok] at hfails
    cases hfails

/-- **A writer of protobuf puts its bytes behind the list.** -/
theorem Holds.writeRaw {mallocOk : Nat → Bool} (hok : ∀ k, mallocOk k = true) : ∀ (fuel : Nat) {w : WriteBuffer}
    {bs : List UInt8} (xs : List UInt8), w.Holds bs → xs.length ≤ fuel → ∃ w',
      WriteBuffer.writeRaw mallocOk fuel w xs = some (true, w') ∧ w'.Holds (bs ++ xs)
  | 0,        w, bs, xs, h, hle => by
    have hxs : xs = [] := List.eq_nil_of_length_eq_zero (Nat.le_zero.1 hle)
    rw [hxs, List.append_nil]
    exact ⟨w, rfl, h⟩
  | fuel + 1, w, bs, xs, h, hle => by
    rw [WriteBuffer.writeRaw]
    split
    · rename_i hnil
      rw [List.isEmpty_iff.1 hnil, List.append_nil]
      exact ⟨w, rfl, h⟩
    · obtain ⟨r, v, g, hnext, hv, hg, hpos, hend⟩ := h.next (.inr (hok _))
      rw [hnext]
      dsimp only
      split
      · rename_i hlt
        obtain ⟨hfill, hend'⟩ := hv.fill hend hg (Nat.le_of_lt hlt)
        rw [← List.append_assoc] at hfill
        have hdrop : r.size - xs.length = (g.drop xs.length).length := by rw [List.length_drop, hg]
        rw [hdrop]
        exact ⟨_, rfl, hfill.backUp hend' (by rw [List.length_drop, hg]; exact Nat.sub_le _ _)⟩
      · rename_i hge
        have htake : (xs.take r.size).length = r.size := by
          rw [List.length_take]
          omega
        obtain ⟨hfill, -⟩ := hv.fill hend hg (Nat.le_of_eq htake)
        rw [htake, ← hg, List.drop_length, List.append_nil, hg] at hfill
        obtain ⟨w', hloop, hw'⟩ := hfill.writeRaw hok fuel (xs.drop r.size) (by rw [List.length_drop]; omega)
        rw [List.append_assoc, List.take_append_drop] at hw'
        exact ⟨w', hloop, hw'⟩

/-! ## Handing the bytes over -/

theorem swapOutLoop_reads : ∀ {hs : List WriteHandle} {p : TranBufPool} {bs : List UInt8} {is : ReadBuffer}
    {xs : List UInt8}, Handles p hs bs → readHandles p is.bufList = some xs → is.Fresh →
    (∀ h ∈ is.bufList, h.data ∉ hs.map WriteHandle.data) →
    (swapOutLoop hs is p).1.toString (swapOutLoop hs is p).2 = some (xs ++ bs) ∧ (swapOutLoop hs is p).1.Fresh
  | [], p, _, is, xs, .nil, hread, hfresh, _ => by
    rw [List.append_nil]
    exact ⟨hread, hfresh⟩
  | h :: hs, p, _, is, xs, .cons live full fits apart tail, hread, hfresh, hdis => by
    rename_i k rest
    -- the reader's blocks are others than those still to come
    have hne : ∀ g ∈ is.bufList, g.data ≠ h.data := fun g hg he => hdis g hg (he ▸ List.mem_cons_self)
    have hnot : ∀ g ∈ is.bufList, g.data ∉ hs.map WriteHandle.data := fun g hg hm =>
      hdis g hg (List.mem_cons_of_mem _ hm)
    have hkeep : ∀ q : TranBufPool, (∀ b, b ≠ h.data → q.blocks b = p.blocks b) →
        Handles q hs rest ∧ readHandles q is.bufList = some xs := by
      intro q hq
      refine ⟨tail.congr fun b hb => hq b fun he => apart (he ▸ hb), ?_⟩
      rw [← hread]
      refine readHandles_congr _ _ _ fun g hg => ?_
      rw [BufferHandle.read, BufferHandle.read, TranBufPool.read, TranBufPool.read, hq g.data (hne g hg)]
    by_cases hsize : 0 < h.size
    · rw [swapOutLoop, if_pos hsize]
      have hq : ∀ b, b ≠ h.data → ((p.addRef h.data).free h.data).blocks b = p.blocks b := fun b hb => by
        rw [TranBufPool.free, TranBufPool.modify_blocks, if_neg hb, TranBufPool.addRef, TranBufPool.modify_blocks,
          if_neg hb]
      obtain ⟨htail, hxs⟩ := hkeep _ hq
      have hshared : (p.addRef h.data).refCount h.data ≠ 1 := by
        rw [TranBufPool.refCount_addRef p h.data h.data (by rw [live]; rfl), if_pos rfl, TranBufPool.refCount, live]
        exact Nat.ne_of_gt (Nat.succ_lt_succ k.refCount_pos)
      have hview : h.view.read ((p.addRef h.data).free h.data) = some (k.data.take h.size) := by
        have hread : h.view.read ((p.addRef h.data).free h.data) = h.view.read (p.addRef h.data) :=
          TranBufPool.read_free_of_shared _ _ _ _ hshared
        rw [hread, BufferHandle.read_addRef]
        exact view_read live full fits
      have hboth := readHandles_append_eq_some _ is.bufList [h.view] xs (k.data.take h.size) hxs
        (by rw [← List.append_nil (k.data.take h.size)]; exact readHandles_cons_eq_some _ _ _ _ _ hview rfl)
      have hdis' : ∀ g ∈ (is.append p h.view).1.bufList, g.data ∉ hs.map WriteHandle.data := fun g hg => by
        rcases List.mem_append.1 hg with hg | hg
        · exact hnot g hg
        · rw [List.mem_singleton.1 hg]
          exact apart
      have := swapOutLoop_reads htail hboth (hfresh.append p h.view) hdis'
      rwa [List.append_assoc] at this
    · rw [swapOutLoop, if_neg hsize]
      have hq : ∀ b, b ≠ h.data → (p.free h.data).blocks b = p.blocks b := fun b hb => by
        rw [TranBufPool.free, TranBufPool.modify_blocks, if_neg hb]
      obtain ⟨htail, hxs⟩ := hkeep _ hq
      have := swapOutLoop_reads htail hxs hfresh hnot
      rwa [Nat.eq_zero_of_not_pos hsize, List.take_zero, List.nil_append]

/-- **`SwapOut` hands over the bytes**, in a buffer nothing was taken from. -/
theorem Holds.swapOut {w : WriteBuffer} {bs : List UInt8} (h : w.Holds bs) :
    (w.swapOut {}).1.toString (w.swapOut {}).2.pool = some bs ∧ (w.swapOut {}).1.Fresh :=
  @swapOutLoop_reads w.bufList w.pool bs {} [] h.handles rfl ⟨rfl, rfl, rfl⟩ fun _ hg => absurd hg List.not_mem_nil

theorem swapOutLoop_totalBytes {q : TranBufPool} : ∀ {hs : List WriteHandle} {bs : List UInt8}, Handles q hs bs →
    ∀ (is : ReadBuffer) (p : TranBufPool), (swapOutLoop hs is p).1.totalBytes = is.totalBytes + bs.length
  | _, _, .nil, _, _ => (Int.add_zero _).symm
  | _, _, @Handles.cons _ h hs k bs live full fits apart tail, is, p => by
    have hlen : (k.data.take h.size).length = h.size := by
      rw [List.length_take, full]
      exact Nat.min_eq_left fits
    rw [swapOutLoop, List.length_append, hlen]
    by_cases hsize : 0 < h.size
    · rw [if_pos hsize, swapOutLoop_totalBytes tail]
      show is.totalBytes + (h.size : Int) + bs.length = is.totalBytes + ((h.size + bs.length : Nat) : Int)
      omega
    · rw [if_neg hsize, swapOutLoop_totalBytes tail]
      omega

/-- The buffer that is handed over counts its bytes. -/
theorem Holds.swapOut_totalCount {w : WriteBuffer} {bs : List UInt8} (h : w.Holds bs) :
    (w.swapOut {}).1.totalCount = bs.length := by
  have hbytes := swapOutLoop_totalBytes h.handles {} w.pool
  exact hbytes.trans (Int.zero_add _)

/-- Any bytes can be in a buffer. -/
theorem exists_readBuffer (bs : List UInt8) :
    ∃ (p : TranBufPool) (rb : ReadBuffer), rb.Fresh ∧ rb.toString p = some bs := by
  have hnew : (WriteBuffer.mk .init [] 0 0 0 0 4).Holds [] := ⟨.nil, rfl⟩
  obtain ⟨w, -, hw⟩ := @Holds.writeRaw (fun _ => true) (fun _ => rfl) bs.length _ _ bs hnew (Nat.le_refl _)
  obtain ⟨hbytes, hfresh⟩ := hw.swapOut
  exact ⟨_, _, hfresh, hbytes⟩

end WriteBuffer
end Gb
