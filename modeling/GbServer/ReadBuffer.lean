import GbServer.TranBufPool
/-!
# ReadBuffer — a message as handles into transfer blocks

`ReadBuffer` (`buffer.h`, `buffer.cpp`): a list of handles, each a window of a block, with the cursor that `Next` and
`BackUp` move.  Every handle holds one reference to its block.  The checks `NET_CHECK_*` only log and have no effect on
the state.
-/
namespace Gb

/-- The conversion of an `int` or an `int64_t` to `size_t`. -/
def toSizeT (x : Int) : Nat := (x % 18446744073709551616).toNat

/-- The conversion to `int`. -/
def toInt32 (x : Int) : Int :=
  let low := (x % 4294967296).toNat
  if low < 2147483648 then low else low - 4294967296

theorem toSizeT_of_range (x : Int) (lo : 0 ≤ x) (hi : x < 2 ^ 64) : (toSizeT x : Int) = x := by
  unfold toSizeT
  omega

theorem toInt32_of_range (x : Int) (lo : -2 ^ 31 ≤ x) (hi : x < 2 ^ 31) : toInt32 x = x := by
  unfold toInt32
  dsimp only
  split <;> omega

theorem toInt32_le (n : Nat) : toInt32 n ≤ n := by
  unfold toInt32
  dsimp only
  split <;> omega

theorem toInt32_neg (n : Nat) (lo : 2 ^ 31 ≤ n) (hi : n < 2 ^ 32) : toInt32 n < 0 := by
  unfold toInt32
  dsimp only
  split <;> omega

theorem toInt32_lt (x : Int) : toInt32 x < 2 ^ 31 := by
  unfold toInt32
  dsimp only
  split <;> omega

/-- The `offset` side of the union: the handles of a `ReadBuffer`. -/
structure BufferHandle where
  data   : BlockPtr
  size   : Int
  offset : Int
  deriving DecidableEq

structure ReadBuffer where
  bufList        : List BufferHandle := []
  totalBlockSize : Int := 0
  totalBytes     : Int := 0
  curIt          : Nat := 0
  curPos         : Int := 0
  lastBytes      : Int := 0
  readBytes      : Int := 0

/-- The bytes of one handle. -/
def BufferHandle.read (p : TranBufPool) (h : BufferHandle) : Option (List UInt8) := p.read h.data h.offset h.size.toNat

/-- The bytes of handles one after another; `none` when one of them is not in a live block. -/
def readHandles (p : TranBufPool) : List BufferHandle → Option (List UInt8)
  | []      => some []
  | h :: hs =>
    match h.read p, readHandles p hs with
    | some x, some xs => some (x ++ xs)
    | _,      _       => none

namespace ReadBuffer

/-- `Append(const BufferHandle&)`: the buffer and the pool with the block's new reference. -/
def append (rb : ReadBuffer) (p : TranBufPool) (h : BufferHandle) : ReadBuffer × TranBufPool :=
  ({ rb with
      bufList        := rb.bufList ++ [h]
      totalBlockSize := rb.totalBlockSize + p.blockSize h.data
      totalBytes     := rb.totalBytes + h.size
      curIt          := 0 }, p.addRef h.data)

/-- `Append(const ReadBuffer*)`. -/
def appendBuffer (rb : ReadBuffer) (p : TranBufPool) (readBuffer : ReadBuffer) : ReadBuffer × TranBufPool :=
  ({ rb with
      bufList        := rb.bufList ++ readBuffer.bufList
      totalBlockSize := rb.totalBlockSize + readBuffer.totalBlockSize
      totalBytes     := rb.totalBytes + readBuffer.totalBytes
      curIt          := 0 }, p.addRefAll (readBuffer.bufList.map BufferHandle.data))

def totalCount (rb : ReadBuffer) : Int := rb.totalBytes

def toString (rb : ReadBuffer) (p : TranBufPool) : Option (List UInt8) := readHandles p rb.bufList

/-- What `Next` hands out: a pointer into a block and the number of bytes there. -/
structure Region where
  data   : BlockPtr
  offset : Int
  size   : Int
  deriving DecidableEq

/-- `Next`: the rest of the current handle, and the cursor behind it. -/
def next (rb : ReadBuffer) : Option Region × ReadBuffer :=
  match rb.bufList[rb.curIt]? with
  | some h =>
    let size := h.size - rb.curPos
    (some ⟨h.data, h.offset + rb.curPos, size⟩,
      { rb with curIt := rb.curIt + 1, curPos := 0, lastBytes := size, readBytes := rb.readBytes + size })
  | none   => (none, { rb with lastBytes := 0 })

def backUp (rb : ReadBuffer) (count : Int) : ReadBuffer :=
  if 0 < count then
    { rb with
      curIt     := rb.curIt - 1
      curPos    := ((rb.bufList[rb.curIt - 1]?).map BufferHandle.size).getD 0 - count
      lastBytes := 0
      readBytes := rb.readBytes - count }
  else { rb with lastBytes := 0, readBytes := rb.readBytes - count }

/-- What repeated `Next` calls still yield: the rest of the current handle, then the handles behind it. -/
def remaining (rb : ReadBuffer) (p : TranBufPool) : Option (List UInt8) :=
  match rb.bufList.drop rb.curIt with
  | []      => some []
  | h :: hs => readHandles p (⟨h.data, h.size - rb.curPos, h.offset + rb.curPos⟩ :: hs)

def byteCount (rb : ReadBuffer) : Int := rb.readBytes

/-- A buffer as it was built, with nothing taken from it. -/
structure Fresh (rb : ReadBuffer) : Prop where
  curIt     : rb.curIt = 0
  curPos    : rb.curPos = 0
  readBytes : rb.readBytes = 0

theorem Fresh.append {rb : ReadBuffer} (hrb : rb.Fresh) (p : TranBufPool) (h : BufferHandle) :
    (rb.append p h).1.Fresh := ⟨rfl, hrb.curPos, hrb.readBytes⟩

theorem Fresh.remaining {rb : ReadBuffer} (hrb : rb.Fresh) (p : TranBufPool) : rb.remaining p = rb.toString p := by
  rw [ReadBuffer.remaining, ReadBuffer.toString, hrb.curIt, hrb.curPos, List.drop_zero]
  cases rb.bufList with
  | nil       => rfl
  | cons h hs => simp only [Int.sub_zero, Int.add_zero]

end ReadBuffer

/-! ## The bytes of handles -/

@[simp] theorem readHandles_nil (p : TranBufPool) : readHandles p [] = some [] := rfl

theorem readHandles_cons_eq_some (p : TranBufPool) (h : BufferHandle) (hs : List BufferHandle) (x xs : List UInt8)
    (hx : h.read p = some x) (hxs : readHandles p hs = some xs) : readHandles p (h :: hs) = some (x ++ xs) := by
  rw [readHandles, hx, hxs]

theorem readHandles_cons_inv {p : TranBufPool} {h : BufferHandle} {hs : List BufferHandle} {bs : List UInt8}
    (hb : readHandles p (h :: hs) = some bs) :
    ∃ x xs, h.read p = some x ∧ readHandles p hs = some xs ∧ bs = x ++ xs := by
  rw [readHandles] at hb
  split at hb
  · rename_i x xs hx hxs
    cases hb
    exact ⟨x, xs, hx, hxs, rfl⟩
  · cases hb

theorem readHandles_append_eq_some (p : TranBufPool) : ∀ (hs ks : List BufferHandle) (xs ys : List UInt8),
    readHandles p hs = some xs → readHandles p ks = some ys → readHandles p (hs ++ ks) = some (xs ++ ys)
  | [], _, xs, ys, hx, hy => by
    rw [readHandles_nil, Option.some.injEq] at hx
    rw [← hx, List.nil_append, List.nil_append]; exact hy
  | h :: hs, ks, xs, ys, hx, hy => by
    obtain ⟨x, xs', h1, h2, rfl⟩ := readHandles_cons_inv hx
    rw [List.cons_append, readHandles_cons_eq_some p h (hs ++ ks) x (xs' ++ ys) h1
      (readHandles_append_eq_some p hs ks xs' ys h2 hy), List.append_assoc]

/-- Pools that agree on every handle of a list give its bytes alike. -/
theorem readHandles_congr (p q : TranBufPool) : ∀ hs : List BufferHandle, (∀ h ∈ hs, h.read p = h.read q) →
    readHandles p hs = readHandles q hs
  | [], _ => rfl
  | h :: hs, hpq => by
    rw [readHandles, readHandles, hpq h List.mem_cons_self,
      readHandles_congr p q hs (fun k hk => hpq k (List.mem_cons_of_mem h hk))]

@[simp] theorem BufferHandle.read_addRef (p : TranBufPool) (b : BlockPtr) (h : BufferHandle) :
    h.read (p.addRef b) = h.read p := TranBufPool.read_addRef p b h.data h.offset h.size.toNat

@[simp] theorem readHandles_addRef (p : TranBufPool) (b : BlockPtr) (hs : List BufferHandle) :
    readHandles (p.addRef b) hs = readHandles p hs := readHandles_congr _ _ hs (fun h _ => h.read_addRef p b)

/-- The references a list of handles holds to a block. -/
def refsTo (b : BlockPtr) (hs : List BufferHandle) : Nat := hs.countP (fun h => decide (h.data = b))

@[simp] theorem refsTo_nil (b : BlockPtr) : refsTo b [] = 0 := rfl

theorem refsTo_append (b : BlockPtr) (hs ks : List BufferHandle) : refsTo b (hs ++ ks) = refsTo b hs + refsTo b ks :=
  List.countP_append

theorem refsTo_singleton (b : BlockPtr) (h : BufferHandle) : refsTo b [h] = if b = h.data then 1 else 0 := by
  by_cases hb : h.data = b
  · simp [refsTo, hb]
  · simp [refsTo, hb, Ne.symm hb]

theorem refsTo_pos_of_mem (h : BufferHandle) (hs : List BufferHandle) (hm : h ∈ hs) : 0 < refsTo h.data hs :=
  List.countP_pos_iff.2 ⟨h, hm, by simp⟩

end Gb
