import GbServer.Lib.Run
import GbServer.Lib.Tally
import GbServer.StreamSplit
import GbServer.WriteBuffer
/-!
# BlockCounts — who holds the transfer blocks

Write buffers, read buffers and message streams over one pool (`buffer.cpp`, `message_stream.cpp`, `tran_buf_pool.h`), with
what is done to them in any order.  Each holds the blocks of its handles, and a stream its current one, too (`held`).

An operation is a list of steps on the pool (`TransferBuffers.act`); a step on a block that has been freed, its count or its
data, is a fault (`BlockOp.apply`).  No operation comes to a fault, and after each the count of every block is the number of
its holders (`run_balanced`).

A writer, a reader and a stream keep a pool of their own in the modules of these; here it is replaced by the one of all
(`withPool`) before a use.
-/
namespace Gb

open Run (Along Always)
open Tally

/-! ## The steps on the pool -/

/-- What `TranBufPool` does to a block, or one of its users to the data. -/
inductive BlockOp
  | malloc (factor : Nat) (ok : Bool)
  | addRef (b : BlockPtr)
  | free (b : BlockPtr)
  | write (b : BlockPtr) (off : Nat) (bs : List UInt8)
  | read (b : BlockPtr)

namespace BlockOp

/-- The step, unless it is on a block that is not there. -/
def apply (p : TranBufPool) : BlockOp → Option TranBufPool
  | malloc factor ok => some (p.malloc factor ok).2
  | addRef b         => if (p.blocks b).isSome then some (p.addRef b) else none
  | free b           => if (p.blocks b).isSome then some (p.free b) else none
  | write b off bs   => if (p.blocks b).isSome then some (p.write b off bs) else none
  | read b           => if (p.blocks b).isSome then some p else none

/-- One step after another. -/
def run : TranBufPool → List BlockOp → Option TranBufPool
  | p, []        => some p
  | p, op :: ops => (op.apply p).bind fun q => run q ops

theorem run_append : ∀ {p : TranBufPool} {ops ops' : List BlockOp}, run p (ops ++ ops') = (run p ops).bind (run · ops')
  | _, [],        _ => rfl
  | p, op :: ops, ops' => by
    rw [List.cons_append, run, run, Option.bind_assoc]
    exact congrArg _ (funext fun q => run_append)

end BlockOp

namespace TranBufPool

/-- A block is there exactly as long as its count is not zero. -/
theorem isSome_iff (p : TranBufPool) (b : BlockPtr) : (p.blocks b).isSome = true ↔ 0 < p.refCount b := by
  unfold refCount
  cases p.blocks b with
  | none   => exact iff_of_false Bool.false_ne_true (Nat.lt_irrefl 0)
  | some k => exact iff_of_true rfl k.refCount_pos

def freeAll (p : TranBufPool) (bs : List BlockPtr) : TranBufPool := bs.foldl free p

theorem run_free {p : TranBufPool} {b : BlockPtr} (h : 0 < p.refCount b) (ops : List BlockOp) :
    BlockOp.run p (.free b :: ops) = BlockOp.run (p.free b) ops := by
  rw [BlockOp.run, BlockOp.apply, if_pos ((p.isSome_iff b).2 h), Option.bind_some]

theorem run_addRef {p : TranBufPool} {b : BlockPtr} (h : 0 < p.refCount b) (ops : List BlockOp) :
    BlockOp.run p (.addRef b :: ops) = BlockOp.run (p.addRef b) ops := by
  rw [BlockOp.run, BlockOp.apply, if_pos ((p.isSome_iff b).2 h), Option.bind_some]

theorem run_read {p : TranBufPool} {b : BlockPtr} (h : 0 < p.refCount b) (ops : List BlockOp) :
    BlockOp.run p (.read b :: ops) = BlockOp.run p ops := by
  rw [BlockOp.run, BlockOp.apply, if_pos ((p.isSome_iff b).2 h), Option.bind_some]

theorem count_singleton_eq (b c : BlockPtr) : [b].count c = if c = b then 1 else 0 := by
  rw [List.count_singleton]
  by_cases h : c = b
  · rw [if_pos h, h, if_pos (beq_self_eq_true b)]
  · rw [if_neg h, if_neg (by rw [beq_iff_eq]; exact fun he => h he.symm)]

theorem count_cons_eq (b c : BlockPtr) (bs : List BlockPtr) :
    (b :: bs).count c = bs.count c + if c = b then 1 else 0 := by
  rw [← List.singleton_append, List.count_append, count_singleton_eq, Nat.add_comm]

/-- Who holds blocks may give them back. -/
theorem freeAll_spec : ∀ {bs : List BlockPtr} {p : TranBufPool}, (∀ b, bs.count b ≤ p.refCount b) →
    BlockOp.run p (bs.map .free) = some (p.freeAll bs) ∧
      ∀ b, (p.freeAll bs).refCount b + bs.count b = p.refCount b
  | [],      p, _ => ⟨rfl, fun _ => rfl⟩
  | b :: bs, p, h => by
    have hpos : 0 < p.refCount b := Nat.lt_of_lt_of_le (List.count_pos_iff.2 List.mem_cons_self) (h b)
    have hrest (c : BlockPtr) : bs.count c ≤ (p.free b).refCount c := by
      have hle := h c
      rw [count_cons_eq] at hle
      rw [refCount_free]
      omega
    obtain ⟨hrun, hcount⟩ := freeAll_spec hrest
    refine ⟨?_, fun c => ?_⟩
    · rw [List.map_cons, run_free hpos, hrun]
      rfl
    · have hc := hcount c
      have hle := h c
      rw [count_cons_eq] at hle
      rw [refCount_free] at hc
      rw [count_cons_eq]
      change (freeAll (p.free b) bs).refCount c + _ = _
      omega

theorem freeAll_next : ∀ (p : TranBufPool) (bs : List BlockPtr), (p.freeAll bs).next = p.next
  | _, []      => rfl
  | p, b :: bs => freeAll_next (p.free b) bs

/-- References to blocks that are there. -/
theorem addRefAll_spec : ∀ {bs : List BlockPtr} {p : TranBufPool}, (∀ b ∈ bs, 0 < p.refCount b) →
    BlockOp.run p (bs.map .addRef) = some (p.addRefAll bs) ∧
      ∀ b, (p.addRefAll bs).refCount b = p.refCount b + bs.count b
  | [],      p, _ => ⟨rfl, fun _ => rfl⟩
  | b :: bs, p, h => by
    have hpos := h b List.mem_cons_self
    have hadd (c : BlockPtr) := p.refCount_addRef b c ((p.isSome_iff b).2 hpos)
    have hrest (c : BlockPtr) (hc : c ∈ bs) : 0 < (p.addRef b).refCount c := by
      have hle := h c (List.mem_cons_of_mem b hc)
      rw [hadd]
      omega
    obtain ⟨hrun, hcount⟩ := addRefAll_spec hrest
    refine ⟨?_, fun c => ?_⟩
    · rw [List.map_cons, run_addRef hpos, hrun]
      rfl
    · have hc := hcount c
      rw [hadd] at hc
      rw [count_cons_eq]
      change (addRefAll (p.addRef b) bs).refCount c = _
      omega

end TranBufPool

/-! ## The holders -/

/-- A `MessageStream` with its cursor; `reading` is the size of the read that is being split. -/
structure StreamObject where
  cursor  : SplitCursor
  reading : Option Nat := none

/-- What is alive. -/
inductive BufferObject
  | writer (w : WriteBuffer)
  | reader (rb : ReadBuffer)
  | stream (o : StreamObject)

/-- The current block of a stream. -/
def SplitCursor.current (c : SplitCursor) : List BlockPtr := if c.stream.tranBuf = nullptr then [] else [c.stream.tranBuf]

/-- The blocks that an object holds, once for each handle, in the order in which its destructor gives them back. -/
def BufferObject.held : BufferObject → List BlockPtr
  | writer w  => w.bufList.map WriteHandle.data
  | reader rb => rb.bufList.map BufferHandle.data
  | stream o  => o.cursor.current ++ o.cursor.handles.map BufferHandle.data

theorem BufferObject.held_writer (w : WriteBuffer) : (writer w).held = w.bufList.map WriteHandle.data := rfl

theorem BufferObject.held_reader (rb : ReadBuffer) : (reader rb).held = rb.bufList.map BufferHandle.data := rfl

structure TransferBuffers where
  pool    : TranBufPool := .init
  objects : List BufferObject := []

/-- What is done to the object `i`. -/
inductive BufferEvent
  | newWriter
  | newReader
  | newStream (factor : BlockFactor)
  | destroyed (i : Nat)
  | writerNext (i : Nat) (mallocOk : Nat → Bool)
  | writerBackUp (i : Nat) (count : Nat)
  | written (i k off : Nat) (bs : List UInt8)
  | swapOut (i j : Nat)
  | append (i : Nat) (handle : BufferHandle)
  | appendBuffer (i j : Nat)
  | readerNext (i : Nat)
  | readerBackUp (i : Nat) (count : Int)
  | toString (i : Nat)
  | onConnected (i : Nat) (mallocOk : Bool)
  | arrived (i : Nat) (bs : List UInt8)
  | split (i : Nat) (outside : List UInt8)
  | resetTranBuf (i : Nat) (mallocOk : Bool)

def WriteBuffer.withPool (w : WriteBuffer) (p : TranBufPool) : WriteBuffer := { w with pool := p }

def Recv.withPool (s : Recv) (p : TranBufPool) : Recv := { s with pool := p }

def SplitCursor.withPool (c : SplitCursor) (p : TranBufPool) : SplitCursor := { c with stream := c.stream.withPool p }

/-- A header whose bytes are not all in the block: what is read there may be anything. -/
def splitOutside (c : SplitCursor) (outside : List UInt8) : SplitStep :=
  let copySize := min c.size.toNat (messageHeaderSize - c.stream.receivedHeaderSize)
  let s : Recv := { c.stream with
    receivingHeader    := c.stream.receivingHeader.copyIn c.stream.receivedHeaderSize (outside.take copySize)
    receivedHeaderSize := c.stream.receivedHeaderSize + copySize }
  if s.receivedHeaderSize < messageHeaderSize then .ret true { c with stream := s }
  else if !s.receivingHeader.checkMagicString then .ret false { c with stream := s }
  else
    let s := { s with receivingHeaderIdentified := true }
    if copySize = c.size ∧ 0 < s.receivingHeader.messageSize then .ret true { c with stream := s }
    else .next { c with stream := s, data := c.data + copySize, size := c.size - copySize, pc := .body }

/-- A half of a pass, whatever the bytes outside of the block are. -/
def splitAny (c : SplitCursor) (outside : List UInt8) : SplitStep :=
  match splitStep c with
  | .fault => splitOutside c outside
  | r      => r

/-- The stream at the end of the splitter, with `on_read_some` up to the next block; the messages have left it. -/
def SplitCursor.returned (c : SplitCursor) (ok : Bool) (bytesTransferred : Nat) : SplitCursor :=
  let c := { c with receivedMessages := [] }
  if ok then
    { c with stream := { c.stream with
      receivingData := c.stream.receivingData + bytesTransferred
      receivingSize := c.stream.receivingSize - bytesTransferred } }
  else c

namespace TransferBuffers

def writer? (s : TransferBuffers) (i : Nat) : Option WriteBuffer :=
  match s.objects[i]? with
  | some (.writer w) => some w
  | _                => none

def reader? (s : TransferBuffers) (i : Nat) : Option ReadBuffer :=
  match s.objects[i]? with
  | some (.reader rb) => some rb
  | _                 => none

/-- A stream that does not split a read. -/
def idle? (s : TransferBuffers) (i : Nat) : Option SplitCursor :=
  match s.objects[i]? with
  | some (.stream ⟨c, none⟩) => some c
  | _                        => none

/-- A stream that splits a read, and the size of this. -/
def reading? (s : TransferBuffers) (i : Nat) : Option (SplitCursor × Nat) :=
  match s.objects[i]? with
  | some (.stream ⟨c, some n⟩) => some (c, n)
  | _                          => none

/-- An object changed, and the pool with it. -/
def set (s : TransferBuffers) (i : Nat) (o : BufferObject) (p : TranBufPool) : TransferBuffers :=
  { pool := p, objects := s.objects.set i o }

end TransferBuffers

/-! ## What an event does to the pool -/

/-- `TranBufPool::malloc`, and the size of the new block. -/
def mallocOps (p : TranBufPool) (factor : Nat) (ok : Bool) : List BlockOp :=
  .malloc factor ok :: if ok then [.read p.next] else []

/-- `Append(const BufferHandle&)`: a reference, and the size of the block. -/
def appendOps (b : BlockPtr) : List BlockOp := [.addRef b, .read b]

namespace WriteBuffer

def nextOps (w : WriteBuffer) (p : TranBufPool) (mallocOk : Nat → Bool) : List BlockOp :=
  if w.hasRoom then []
  else
    mallocOps p (min TRAN_BUF_BLOCK_MAX_FACTOR ((w.bufList.length + w.baseBlockFactor) % 4294967296))
      (mallocOk w.bufList.length)

def swapOutOps (hs : List WriteHandle) : List BlockOp :=
  hs.flatMap fun h => (if 0 < h.size then appendOps h.data else []) ++ [.free h.data]

end WriteBuffer

/-- `reset_tran_buf`. -/
def Recv.resetOps (s : Recv) (p : TranBufPool) (ok : Bool) : List BlockOp :=
  (if s.tranBuf = nullptr then [] else [.free s.tranBuf]) ++ mallocOps p s.readBufferBaseBlockFactor.val ok

/-- A half of a pass of the splitter: a header is read, or a part of the block is appended. -/
def SplitCursor.ops (c : SplitCursor) : List BlockOp :=
  match c.pc with
  | .head => if c.size ≤ 0 ∨ c.stream.receivingHeaderIdentified = true then [] else [.read c.stream.tranBuf]
  | .body => if c.size < c.consumeSize ∨ 0 < c.consumeSize then appendOps c.stream.tranBuf else []

/-- A stream that splits a read has its block; one that does not has no complete messages. -/
def BufferObject.Ready : BufferObject → Prop
  | stream ⟨c, none⟩   => c.receivedMessages = []
  | stream ⟨c, some _⟩ => c.stream.tranBuf ≠ nullptr
  | _                  => True

namespace TransferBuffers

variable (s : TransferBuffers)

/-! What is done, as the steps on the pool in their order, and what comes of it.  If the object is not there, nothing is. -/

/-- The destructor.  A stream that is splitting a read is kept alive by its handler. -/
def destroyed (i : Nat) : List BlockOp × TransferBuffers :=
  match s.reading? i, s.objects[i]? with
  | none, some o => (o.held.map .free, { pool := s.pool.freeAll o.held, objects := s.objects.eraseIdx i })
  | _,    _      => ([], s)

def writerNext (i : Nat) (mallocOk : Nat → Bool) : List BlockOp × TransferBuffers :=
  match s.writer? i with
  | some w =>
    let w' := ((w.withPool s.pool).next mallocOk).2
    (w.nextOps s.pool mallocOk, s.set i (.writer w') w'.pool)
  | none   => ([], s)

def writerBackUp (i count : Nat) : List BlockOp × TransferBuffers :=
  match s.writer? i with
  | some w => ([], s.set i (.writer (w.backUp count)) s.pool)
  | none   => ([], s)

/-- A copy to the block of a handle: by `SetData`, or by who has got it from `Next`. -/
def written (i k off : Nat) (bs : List UInt8) : List BlockOp × TransferBuffers :=
  match (s.writer? i).bind fun w => w.bufList[k]? with
  | some h => ([.write h.data off bs], { s with pool := s.pool.write h.data off bs })
  | none   => ([], s)

def swapOut (i j : Nat) : List BlockOp × TransferBuffers :=
  match s.writer? i, s.reader? j with
  | some w, some rb =>
    let (rb', w') := (w.withPool s.pool).swapOut rb
    (WriteBuffer.swapOutOps w.bufList, (s.set i (.writer w') w'.pool).set j (.reader rb') w'.pool)
  | _,      _       => ([], s)

/-- `Append` of a handle, which the caller has from somebody who holds its block. -/
def append (i : Nat) (handle : BufferHandle) : List BlockOp × TransferBuffers :=
  match s.reader? i with
  | some rb =>
    if s.objects.any fun o => o.held.contains handle.data then
      let (rb', p) := rb.append s.pool handle
      (appendOps handle.data, s.set i (.reader rb') p)
    else ([], s)
  | none    => ([], s)

/-- `Append` of another buffer. -/
def appendBuffer (i j : Nat) : List BlockOp × TransferBuffers :=
  match s.reader? i, s.reader? j with
  | some rb, some other =>
    if i = j then ([], s)
    else
      let (rb', p) := rb.appendBuffer s.pool other
      ((other.bufList.map BufferHandle.data).map .addRef, s.set i (.reader rb') p)
  | _,       _          => ([], s)

/-- `Next`, and what it gives out is read. -/
def readerNext (i : Nat) : List BlockOp × TransferBuffers :=
  match s.reader? i with
  | some rb => ((rb.next.1.map fun region => BlockOp.read region.data).toList, s.set i (.reader rb.next.2) s.pool)
  | none    => ([], s)

def readerBackUp (i : Nat) (count : Int) : List BlockOp × TransferBuffers :=
  match s.reader? i with
  | some rb => ([], s.set i (.reader (rb.backUp count)) s.pool)
  | none    => ([], s)

def toString (i : Nat) : List BlockOp × TransferBuffers :=
  match s.reader? i with
  | some rb => ((rb.bufList.map BufferHandle.data).map .read, s)
  | none    => ([], s)

/-- `on_connected`: the message under construction goes with its buffer. -/
def onConnected (i : Nat) (mallocOk : Bool) : List BlockOp × TransferBuffers :=
  match s.idle? i with
  | some c =>
    let message := c.stream.receivingMessage.bufList.map BufferHandle.data
    let stream := ((c.stream.withPool (s.pool.freeAll message)).onConnected mallocOk).2
    (message.map .free ++ c.stream.resetOps s.pool mallocOk,
      s.set i (.stream ⟨{ c with stream := stream }, none⟩) stream.pool)
  | none   => ([], s)

/-- A read comes in and `on_read_some` begins.  A stream without a block has been closed and reads no more. -/
def arrived (i : Nat) (bs : List UInt8) : List BlockOp × TransferBuffers :=
  match s.idle? i with
  | some c =>
    if c.stream.tranBuf = nullptr then ([], s)
    else
      let stream := (c.stream.withPool s.pool).arrive bs
      ([.write c.stream.tranBuf c.stream.receivingData bs],
        s.set i (.stream ⟨splitCall stream stream.receivingData bs.length, some bs.length⟩) stream.pool)
  | none   => ([], s)

/-- A half of a pass of the splitter; when it returns, its messages are objects of their own. -/
def split (i : Nat) (outside : List UInt8) : List BlockOp × TransferBuffers :=
  match s.reading? i with
  | some (c, n) =>
    match splitAny (c.withPool s.pool) outside with
    | .next c'   => (c.ops, s.set i (.stream ⟨c', some n⟩) c'.stream.pool)
    | .ret ok c' =>
      let s' := s.set i (.stream ⟨c'.returned ok n, none⟩) c'.stream.pool
      (c.ops, { s' with objects := s'.objects ++ c'.receivedMessages.map fun item => .reader item.message })
    | .fault     => ([], s)
  | none        => ([], s)

def resetTranBuf (i : Nat) (mallocOk : Bool) : List BlockOp × TransferBuffers :=
  match s.idle? i with
  | some c =>
    let stream := ((c.stream.withPool s.pool).resetTranBuf mallocOk).2
    (c.stream.resetOps s.pool mallocOk, s.set i (.stream ⟨{ c with stream := stream }, none⟩) stream.pool)
  | none   => ([], s)

def act : BufferEvent → List BlockOp × TransferBuffers
  | .newWriter         => ([], { s with objects := s.objects ++ [.writer { pool := s.pool }] })
  | .newReader         => ([], { s with objects := s.objects ++ [.reader {}] })
  | .newStream factor  => ([], { s with objects := s.objects ++ [.stream ⟨splitCall (.init factor) 0 0, none⟩] })
  | .destroyed i       => s.destroyed i
  | .writerNext i ok   => s.writerNext i ok
  | .writerBackUp i n  => s.writerBackUp i n
  | .written i k o bs  => s.written i k o bs
  | .swapOut i j       => s.swapOut i j
  | .append i h        => s.append i h
  | .appendBuffer i j  => s.appendBuffer i j
  | .readerNext i      => s.readerNext i
  | .readerBackUp i n  => s.readerBackUp i n
  | .toString i        => s.toString i
  | .onConnected i ok  => s.onConnected i ok
  | .arrived i bs      => s.arrived i bs
  | .split i outside   => s.split i outside
  | .resetTranBuf i ok => s.resetTranBuf i ok

def step (s : TransferBuffers) (e : BufferEvent) : TransferBuffers := (s.act e).2

/-- How often a block is held. -/
def holders (b : BlockPtr) : Nat := tally (fun o => o.held.count b) s.objects

/-- The count of every block is the number of its holders, and a block is there as long as it has one. -/
def Balanced : Prop :=
  ∀ b, s.pool.refCount b = s.holders b ∧ ((s.pool.blocks b).isSome = true ↔ 0 < s.holders b)

/-- The steps of an event are on blocks that are there. -/
def NoFault (e : BufferEvent) : Prop := BlockOp.run s.pool (s.act e).1 = some (s.step e).pool

structure Sound : Prop where
  counts : ∀ b, s.pool.refCount b = s.holders b
  ready  : ∀ o ∈ s.objects, o.Ready

end TransferBuffers

/-! ## The operations, one by one -/

theorem run_mallocOps (p : TranBufPool) (factor : Nat) (ok : Bool) :
    BlockOp.run p (mallocOps p factor ok) = some (p.malloc factor ok).2 := by
  unfold mallocOps
  rw [BlockOp.run, BlockOp.apply, Option.bind_some]
  cases ok with
  | false => rfl
  | true  =>
    obtain ⟨k, hk, -⟩ := p.blocks_malloc factor
    rw [if_pos rfl, BlockOp.run, BlockOp.apply, if_pos (by rw [hk]; rfl)]
    rfl

theorem run_appendOps {p : TranBufPool} {b : BlockPtr} (h : 0 < p.refCount b) (ops : List BlockOp) :
    BlockOp.run p (appendOps b ++ ops) = BlockOp.run (p.addRef b) ops := by
  have hadd := p.refCount_addRef b b ((p.isSome_iff b).2 h)
  rw [appendOps, List.cons_append, List.singleton_append, TranBufPool.run_addRef h, TranBufPool.run_read (by omega)]

namespace WriteBuffer

theorem map_data_of_getLast? {l : List WriteHandle} {last h : WriteHandle} (hlast : l.getLast? = some last)
    (hdata : h.data = last.data) : (l.dropLast ++ [h]).map WriteHandle.data = l.map WriteHandle.data := by
  obtain ⟨front, rfl⟩ := List.getLast?_eq_some_iff.1 hlast
  rw [List.dropLast_concat, List.map_append, List.map_append, List.map_singleton, List.map_singleton, hdata]

theorem backUp_data (w : WriteBuffer) (count : Nat) :
    (w.backUp count).bufList.map WriteHandle.data = w.bufList.map WriteHandle.data := by
  unfold backUp
  cases hlast : w.bufList.getLast? with
  | none      => rfl
  | some last => exact map_data_of_getLast? hlast rfl

theorem takeLast_data (w : WriteBuffer) : w.takeLast.2.bufList.map WriteHandle.data = w.bufList.map WriteHandle.data ∧
    w.takeLast.2.pool = w.pool := by
  unfold takeLast
  cases hlast : w.bufList.getLast? with
  | none      => exact ⟨rfl, rfl⟩
  | some last => exact ⟨map_data_of_getLast? hlast rfl, rfl⟩

/-- `Next` holds a block more if it has taken one. -/
theorem next_spec (w : WriteBuffer) (mallocOk : Nat → Bool) :
    BlockOp.run w.pool (w.nextOps w.pool mallocOk) = some (w.next mallocOk).2.pool ∧
      ∀ b, (w.next mallocOk).2.pool.refCount b + (w.bufList.map WriteHandle.data).count b =
        w.pool.refCount b + ((w.next mallocOk).2.bufList.map WriteHandle.data).count b := by
  unfold next nextOps
  cases hroom : w.hasRoom with
  | true  =>
    obtain ⟨hdata, hpool⟩ := w.takeLast_data
    simp only [if_true, hdata, hpool]
    exact ⟨rfl, fun b => trivial⟩
  | false =>
    simp only [Bool.false_eq_true, if_false, run_mallocOps]
    cases hok : mallocOk w.bufList.length with
    | false =>
      have hextend : w.extend mallocOk = none := by
        unfold extend
        rw [hok]
        exact if_pos rfl
      rw [hextend]
      exact ⟨rfl, fun b => rfl⟩
    | true  =>
      obtain ⟨w', hextend, hpool, hdata⟩ : ∃ w', w.extend mallocOk = some w' ∧
          w'.pool = (w.pool.malloc
            (min TRAN_BUF_BLOCK_MAX_FACTOR ((w.bufList.length + w.baseBlockFactor) % 4294967296)) true).2 ∧
          w'.bufList.map WriteHandle.data = w.bufList.map WriteHandle.data ++ [w.pool.next] := by
        unfold extend
        rw [hok]
        refine ⟨_, if_neg (Nat.ne_of_gt w.pool.next_pos), rfl, ?_⟩
        exact List.map_append
      obtain ⟨hdata', hpool'⟩ := w'.takeLast_data
      rw [hextend]
      dsimp only
      rw [hpool', hdata', hpool, hdata]
      refine ⟨rfl, fun b => ?_⟩
      rw [TranBufPool.refCount_malloc, List.count_append, TranBufPool.count_singleton_eq]
      omega

/-- `SwapOut` gives the reader a reference to each block that is not empty, and its own ones back. -/
theorem swapOutLoop_spec : ∀ {hs : List WriteHandle} (is : ReadBuffer) {p : TranBufPool},
    (∀ b, (hs.map WriteHandle.data).count b ≤ p.refCount b) →
      BlockOp.run p (swapOutOps hs) = some (swapOutLoop hs is p).2 ∧
        ∀ b, (swapOutLoop hs is p).2.refCount b + (hs.map WriteHandle.data).count b +
            (is.bufList.map BufferHandle.data).count b =
          p.refCount b + ((swapOutLoop hs is p).1.bufList.map BufferHandle.data).count b
  | [],      is, p, _ => ⟨rfl, fun _ => rfl⟩
  | h :: hs, is, p, hle => by
    have hpos : 0 < p.refCount h.data :=
      Nat.lt_of_lt_of_le (List.count_pos_iff.2 List.mem_cons_self) (hle h.data)
    have hadd (b : BlockPtr) := p.refCount_addRef h.data b ((p.isSome_iff h.data).2 hpos)
    have hrest (b : BlockPtr) : (hs.map WriteHandle.data).count b + (if b = h.data then 1 else 0) ≤ p.refCount b := by
      have hb := hle b
      rwa [List.map_cons, TranBufPool.count_cons_eq] at hb
    rw [swapOutOps, List.flatMap_cons, swapOutLoop]
    by_cases hsize : 0 < h.size
    · rw [if_pos hsize, if_pos hsize, List.append_assoc, run_appendOps hpos, List.singleton_append,
        TranBufPool.run_free (by rw [hadd]; omega)]
      have hle' (b : BlockPtr) : (hs.map WriteHandle.data).count b ≤ ((p.addRef h.data).free h.data).refCount b := by
        have hb := hrest b
        rw [TranBufPool.refCount_free, hadd]
        omega
      obtain ⟨hrun, hcount⟩ := swapOutLoop_spec (is.append p h.view).1 hle'
      refine ⟨hrun, fun b => ?_⟩
      have hb := hcount b
      have hview : ((is.append p h.view).1.bufList.map BufferHandle.data).count b =
          (is.bufList.map BufferHandle.data).count b + if b = h.data then 1 else 0 := by
        rw [ReadBuffer.append, List.map_append, List.count_append, List.map_singleton, TranBufPool.count_singleton_eq]
        rfl
      rw [hview, TranBufPool.refCount_free, hadd] at hb
      rw [List.map_cons, TranBufPool.count_cons_eq]
      change (swapOutLoop hs (is.append p h.view).1 ((p.addRef h.data).free h.data)).2.refCount b + _ + _ = p.refCount b +
        ((swapOutLoop hs (is.append p h.view).1 ((p.addRef h.data).free h.data)).1.bufList.map BufferHandle.data).count b
      omega
    · rw [if_neg hsize, if_neg hsize, List.nil_append, List.singleton_append, TranBufPool.run_free hpos]
      have hle' (b : BlockPtr) : (hs.map WriteHandle.data).count b ≤ (p.free h.data).refCount b := by
        have hb := hrest b
        rw [TranBufPool.refCount_free]
        omega
      obtain ⟨hrun, hcount⟩ := swapOutLoop_spec is hle'
      refine ⟨hrun, fun b => ?_⟩
      have hb := hcount b
      have hb' := hrest b
      rw [TranBufPool.refCount_free] at hb
      rw [List.map_cons, TranBufPool.count_cons_eq]
      change (swapOutLoop hs is (p.free h.data)).2.refCount b + _ + _ = p.refCount b +
        ((swapOutLoop hs is (p.free h.data)).1.bufList.map BufferHandle.data).count b
      omega

end WriteBuffer

/-- The blocks that a stream holds. -/
theorem held_stream (o : StreamObject) (b : BlockPtr) : (BufferObject.stream o).held.count b =
    o.cursor.current.count b + (o.cursor.handles.map BufferHandle.data).count b := List.count_append

/-- What is left of the pool when the current block has been given back. -/
def Recv.freed (s : Recv) : TranBufPool := if s.tranBuf ≠ nullptr then s.pool.free s.tranBuf else s.pool

theorem Recv.resetTranBuf_eq (s : Recv) (ok : Bool) :
    (s.resetTranBuf ok).2.pool = (s.freed.malloc s.readBufferBaseBlockFactor.val ok).2 ∧
      (s.resetTranBuf ok).2.tranBuf = (s.freed.malloc s.readBufferBaseBlockFactor.val ok).1 ∧
      (s.resetTranBuf ok).2.receivingMessage = s.receivingMessage := by
  have hreset : s.resetTranBuf ok =
      let block := s.freed.malloc s.readBufferBaseBlockFactor.val ok
      if block.1 = nullptr then (false, { s with pool := block.2, tranBuf := block.1 })
      else (true, { s with pool := block.2, tranBuf := block.1, receivingData := 0, receivingSize := block.2.capacity block.1 }) :=
    rfl
  rw [hreset]
  dsimp only
  split <;> exact ⟨rfl, rfl, rfl⟩

theorem mallocOps_congr {p q : TranBufPool} (h : q.next = p.next) (factor : Nat) (ok : Bool) :
    mallocOps p factor ok = mallocOps q factor ok := by
  unfold mallocOps
  rw [h]

theorem Recv.freed_next (s : Recv) : s.freed.next = s.pool.next := by
  unfold Recv.freed
  split <;> rfl

/-- A cursor whose stream has another block. -/
theorem current_malloc (c : SplitCursor) {s : Recv} {p : TranBufPool} {factor : Nat} {ok : Bool}
    (htranBuf : s.tranBuf = (p.malloc factor ok).1) (b : BlockPtr) :
    (p.malloc factor ok).2.refCount b = p.refCount b + ({ c with stream := s } : SplitCursor).current.count b := by
  unfold SplitCursor.current
  dsimp only
  rw [htranBuf]
  cases ok with
  | false => rfl
  | true  =>
    change _ = _ + List.count b (if p.next = nullptr then [] else [p.next])
    rw [TranBufPool.refCount_malloc, if_neg (Nat.ne_of_gt p.next_pos), TranBufPool.count_singleton_eq]

/-- `reset_tran_buf` changes the one block for another, or for none. -/
theorem resetTranBuf_spec (c : SplitCursor) (ok : Bool) (hle : ∀ b ∈ c.current, 0 < c.stream.pool.refCount b) :
    BlockOp.run c.stream.pool (c.stream.resetOps c.stream.pool ok) = some (c.stream.resetTranBuf ok).2.pool ∧
      ∀ b, (c.stream.resetTranBuf ok).2.pool.refCount b + c.current.count b = c.stream.pool.refCount b +
        ({ c with stream := (c.stream.resetTranBuf ok).2 } : SplitCursor).current.count b := by
  obtain ⟨hpool, htranBuf, -⟩ := c.stream.resetTranBuf_eq ok
  have hcurrent := current_malloc c htranBuf
  rw [hpool]
  unfold Recv.resetOps
  rw [mallocOps_congr c.stream.freed_next]
  by_cases hnull : c.stream.tranBuf = nullptr
  · have hfreed : c.stream.freed = c.stream.pool := if_neg (not_not.2 hnull)
    have hnone : c.current = [] := if_pos hnull
    rw [hfreed] at hcurrent ⊢
    rw [if_pos hnull, List.nil_append]
    refine ⟨run_mallocOps .., fun b => ?_⟩
    rw [hcurrent b, hnone]
    rfl
  · have hfreed : c.stream.freed = c.stream.pool.free c.stream.tranBuf := if_pos hnull
    have hone : c.current = [c.stream.tranBuf] := if_neg hnull
    have hpos := hle c.stream.tranBuf (by rw [hone]; exact List.mem_singleton_self _)
    rw [hfreed] at hcurrent ⊢
    rw [if_neg hnull, List.singleton_append, TranBufPool.run_free hpos]
    refine ⟨run_mallocOps .., fun b => ?_⟩
    rw [hcurrent b, TranBufPool.refCount_free, hone, TranBufPool.count_singleton_eq]
    split
    · rename_i heq
      rw [heq]
      omega
    · omega

/-! ## The splitter -/

/-- A half of a pass appends the current block, or nothing. -/
structure SplitAdds (c c' : SplitCursor) : Prop where
  tranBuf : c'.stream.tranBuf = c.stream.tranBuf
  run     : 0 < c.stream.pool.refCount c.stream.tranBuf → BlockOp.run c.stream.pool c.ops = some c'.stream.pool
  counts  : 0 < c.stream.pool.refCount c.stream.tranBuf → ∀ b, c'.stream.pool.refCount b + refsTo b c.handles =
    c.stream.pool.refCount b + refsTo b c'.handles

theorem run_appendOps_nil {p : TranBufPool} {b : BlockPtr} (h : 0 < p.refCount b) :
    BlockOp.run p (appendOps b) = some (p.addRef b) := by
  have hrun := run_appendOps h []
  rwa [List.append_nil] at hrun

theorem splitStep_adds {c c' : SplitCursor} (h : (splitStep c).Leaves c') : SplitAdds c c' where
  tranBuf := (splitStep_frame c c' h).1.tranBuf
  counts hpos b := by
    have hledger := splitStep_ledger c c' h ((c.stream.pool.isSome_iff _).2 hpos) b
    omega
  run hpos := by
    have hread : c.pc = .head → BlockOp.run c.stream.pool c.ops = some c.stream.pool := by
      intro hpc
      unfold SplitCursor.ops
      rw [hpc]
      dsimp only
      split
      · rfl
      · exact TranBufPool.run_read hpos []
    cases splitStep_cases c c' h with
    | stay hpc h            => rw [hread hpc, h]
    | known hpc hid h       => rw [hread hpc, h]
    | wait hpc s hs h       => rw [hread hpc, h, hs.same]
    | header hpc s hs k _ h => rw [hread hpc, h, hs.same]
    | part hpc hlt h        =>
      unfold SplitCursor.ops
      rw [hpc, h]
      dsimp only
      rw [if_pos (.inl hlt), run_appendOps_nil hpos]
      rfl
    | whole hpc hle s hs h  =>
      unfold SplitCursor.ops
      rw [hpc, h]
      dsimp only
      by_cases hconsume : 0 < c.consumeSize
      · rw [if_pos (.inr hconsume), run_appendOps_nil hpos, hs, if_pos hconsume]
        rfl
      · rw [if_neg (not_or.2 ⟨by omega, hconsume⟩), hs, if_neg hconsume]
        rfl

/-- Bytes from elsewhere change nothing but the header. -/
theorem splitOutside_frame {c c' : SplitCursor} {outside : List UInt8} (h : (splitOutside c outside).Leaves c') :
    c'.stream.pool = c.stream.pool ∧ c'.stream.tranBuf = c.stream.tranBuf ∧ c'.handles = c.handles := by
  unfold splitOutside at h
  dsimp only at h
  split at h
  · rw [SplitStep.leaves_ret] at h
    subst h
    exact ⟨rfl, rfl, rfl⟩
  · split at h
    · rw [SplitStep.leaves_ret] at h
      subst h
      exact ⟨rfl, rfl, rfl⟩
    · split at h
      · rw [SplitStep.leaves_ret] at h
        subst h
        exact ⟨rfl, rfl, rfl⟩
      · rw [SplitStep.leaves_next] at h
        subst h
        exact ⟨rfl, rfl, rfl⟩

theorem splitStep_fault {c : SplitCursor} (h : splitStep c = .fault) : c.pc = .head := by
  cases hpc : c.pc with
  | head => rfl
  | body =>
    unfold splitStep splitBody at h
    rw [hpc] at h
    dsimp only at h
    split at h <;> cases h

theorem splitAny_adds {c c' : SplitCursor} {outside : List UInt8} (h : (splitAny c outside).Leaves c') : SplitAdds c c' := by
  unfold splitAny at h
  split at h
  · rename_i hfault
    obtain ⟨hpool, htranBuf, hhandles⟩ := splitOutside_frame h
    refine ⟨htranBuf, fun hpos => ?_, fun hpos b => by rw [hpool, hhandles]⟩
    unfold SplitCursor.ops
    rw [splitStep_fault hfault, hpool]
    dsimp only
    split
    · rfl
    · exact TranBufPool.run_read hpos []
  · exact splitStep_adds h

theorem splitAny_ne_fault (c : SplitCursor) (outside : List UInt8) : splitAny c outside ≠ .fault := by
  unfold splitAny
  split
  · unfold splitOutside
    dsimp only
    split
    · exact nofun
    · split
      · exact nofun
      · split <;> exact nofun
  · assumption

/-! ## The events -/

namespace TransferBuffers

variable {s : TransferBuffers}

theorem getElem?_of_writer? {i : Nat} {w : WriteBuffer} (h : s.writer? i = some w) : s.objects[i]? = some (.writer w) := by
  unfold writer? at h
  split at h
  · rename_i ho
    rw [ho, Option.some.inj h]
  · cases h

theorem getElem?_of_reader? {i : Nat} {rb : ReadBuffer} (h : s.reader? i = some rb) :
    s.objects[i]? = some (.reader rb) := by
  unfold reader? at h
  split at h
  · rename_i ho
    rw [ho, Option.some.inj h]
  · cases h

theorem getElem?_of_idle? {i : Nat} {c : SplitCursor} (h : s.idle? i = some c) :
    s.objects[i]? = some (.stream ⟨c, none⟩) := by
  unfold idle? at h
  split at h
  · rename_i ho
    rw [ho, Option.some.inj h]
  · cases h

theorem getElem?_of_reading? {i : Nat} {c : SplitCursor} {n : Nat} (h : s.reading? i = some (c, n)) :
    s.objects[i]? = some (.stream ⟨c, some n⟩) := by
  unfold reading? at h
  split at h
  · rename_i ho
    cases h
    exact ho
  · cases h

theorem Sound.balanced (h : s.Sound) : s.Balanced := fun b => ⟨h.counts b, by rw [TranBufPool.isSome_iff, h.counts b]⟩

theorem Sound.count_le (h : s.Sound) {i : Nat} {o : BufferObject} (ho : s.objects[i]? = some o) (b : BlockPtr) :
    o.held.count b ≤ s.pool.refCount b := by
  rw [h.counts b]
  exact le_tally (fun o => o.held.count b) (List.mem_of_getElem? ho)

/-- What an object holds is there. -/
theorem Sound.pos (h : s.Sound) {i : Nat} {o : BufferObject} (ho : s.objects[i]? = some o) {b : BlockPtr}
    (hb : b ∈ o.held) : 0 < s.pool.refCount b := Nat.lt_of_lt_of_le (List.count_pos_iff.2 hb) (h.count_le ho b)

/-- An object is changed, and the pool by as much. -/
theorem Sound.set (h : s.Sound) {i : Nat} {o o' : BufferObject} {p : TranBufPool} (ho : s.objects[i]? = some o)
    (hcount : ∀ b, p.refCount b + o.held.count b = s.pool.refCount b + o'.held.count b)
    (hready : o'.Ready) : (s.set i o' p).Sound where
  counts b := by
    have htally := tally_set (fun o => o.held.count b) o' ho
    have hb := hcount b
    have hbefore := h.counts b
    unfold holders at hbefore
    change p.refCount b = tally (fun o => o.held.count b) (s.objects.set i o')
    omega
  ready x hmem := by
    rcases List.mem_or_eq_of_mem_set hmem with hold | rfl
    · exact h.ready x hold
    · exact hready

/-- Objects are new, and hold what has been added to the pool. -/
theorem sound_add {os : List BufferObject}
    (hcount : ∀ b, s.pool.refCount b = s.holders b + tally (fun o => o.held.count b) os)
    (hready : ∀ o ∈ s.objects ++ os, o.Ready) : Sound { s with objects := s.objects ++ os } where
  counts b := by
    unfold holders
    rw [tally_append]
    exact hcount b
  ready    := hready

theorem sound_new (h : s.Sound) {o : BufferObject} (hheld : o.held = []) (hready : o.Ready) :
    Sound { s with objects := s.objects ++ [o] } := by
  refine sound_add (fun b => ?_) fun x hmem => ?_
  · rw [tally_cons, hheld]
    exact h.counts b
  · rcases List.mem_append.1 hmem with hold | hnew
    · exact h.ready x hold
    · exact List.mem_singleton.1 hnew ▸ hready

/-- What is done comes to no fault and leaves what the holders are. -/
def Keeps (s : TransferBuffers) (r : List BlockOp × TransferBuffers) : Prop :=
  BlockOp.run s.pool r.1 = some r.2.pool ∧ r.2.Sound

theorem Sound.keeps_nothing (h : s.Sound) : s.Keeps ([], s) := ⟨rfl, h⟩

theorem destroyed_keeps (h : s.Sound) (i : Nat) : s.Keeps (s.destroyed i) := by
  unfold destroyed
  split
  · rename_i o hidle ho
    obtain ⟨hrun, hcount⟩ := TranBufPool.freeAll_spec (h.count_le ho)
    refine ⟨hrun, fun b => ?_, fun x hmem => h.ready x (List.mem_of_mem_eraseIdx hmem)⟩
    have htally := tally_eraseIdx (fun o => o.held.count b) ho
    have hb := hcount b
    have hbefore := h.counts b
    unfold holders at hbefore ⊢
    dsimp only
    omega
  · exact h.keeps_nothing

theorem writerNext_keeps (h : s.Sound) (i : Nat) (ok : Nat → Bool) : s.Keeps (s.writerNext i ok) := by
  unfold writerNext
  split
  · rename_i w hw
    obtain ⟨hrun, hcount⟩ := (w.withPool s.pool).next_spec ok
    exact ⟨hrun, h.set (getElem?_of_writer? hw) hcount trivial⟩
  · exact h.keeps_nothing

theorem writerBackUp_keeps (h : s.Sound) (i count : Nat) : s.Keeps (s.writerBackUp i count) := by
  unfold writerBackUp
  split
  · rename_i w hw
    refine ⟨rfl, h.set (getElem?_of_writer? hw) (fun b => ?_) trivial⟩
    rw [BufferObject.held_writer, BufferObject.held_writer, w.backUp_data count]
  · exact h.keeps_nothing

theorem written_keeps (h : s.Sound) (i k off : Nat) (bs : List UInt8) : s.Keeps (s.written i k off bs) := by
  unfold written
  split
  · rename_i handle hhandle
    obtain ⟨w, hw, hk⟩ := Option.bind_eq_some_iff.1 hhandle
    have hmem : handle.data ∈ w.bufList.map WriteHandle.data := List.mem_map_of_mem (List.mem_of_getElem? hk)
    have hpos := h.pos (getElem?_of_writer? hw) hmem
    refine ⟨?_, fun b => ?_, h.ready⟩
    · rw [BlockOp.run, BlockOp.apply, if_pos ((s.pool.isSome_iff _).2 hpos)]
      rfl
    · rw [TranBufPool.refCount_write]
      exact h.counts b
  · exact h.keeps_nothing

theorem swapOut_keeps (h : s.Sound) (i j : Nat) : s.Keeps (s.swapOut i j) := by
  unfold swapOut
  split
  · rename_i w rb hw hr
    have hi := getElem?_of_writer? hw
    have hj := getElem?_of_reader? hr
    obtain ⟨hrun, hcount⟩ := WriteBuffer.swapOutLoop_spec rb (h.count_le hi)
    have hne : i ≠ j := fun he => by
      rw [he, hj] at hi
      cases hi
    refine ⟨hrun, fun b => ?_, fun x hmem => ?_⟩
    · have hwriter := tally_set (fun o => o.held.count b) (.writer ((w.withPool s.pool).swapOut rb).2) hi
      have hreader := tally_set (fun o => o.held.count b) (.reader ((w.withPool s.pool).swapOut rb).1)
        ((List.getElem?_set_ne (a := .writer ((w.withPool s.pool).swapOut rb).2) hne).trans hj)
      have hb := hcount b
      have hbefore := h.counts b
      unfold holders at hbefore
      change (WriteBuffer.swapOutLoop w.bufList rb s.pool).2.refCount b = tally (fun o => o.held.count b)
        ((s.objects.set i (.writer ((w.withPool s.pool).swapOut rb).2)).set j (.reader ((w.withPool s.pool).swapOut rb).1))
      change _ + (w.bufList.map WriteHandle.data).count b = _ + 0 at hwriter
      change _ + (rb.bufList.map BufferHandle.data).count b =
        _ + ((WriteBuffer.swapOutLoop w.bufList rb s.pool).1.bufList.map BufferHandle.data).count b at hreader
      omega
    · rcases List.mem_or_eq_of_mem_set hmem with hmem | rfl
      · rcases List.mem_or_eq_of_mem_set hmem with hold | rfl
        · exact h.ready x hold
        · trivial
      · trivial
  · exact h.keeps_nothing

theorem append_keeps (h : s.Sound) (i : Nat) (handle : BufferHandle) : s.Keeps (s.append i handle) := by
  unfold append
  split
  · rename_i rb hr
    split
    · rename_i hheld
      obtain ⟨o, hmem, hcontains⟩ := List.any_eq_true.1 hheld
      obtain ⟨k, hk⟩ := List.mem_iff_getElem?.1 hmem
      have hpos := h.pos hk (List.contains_iff_mem.1 hcontains)
      refine ⟨run_appendOps_nil hpos, h.set (getElem?_of_reader? hr) (fun b => ?_) trivial⟩
      change (s.pool.addRef handle.data).refCount b + (rb.bufList.map BufferHandle.data).count b =
        _ + ((rb.bufList ++ [handle]).map BufferHandle.data).count b
      rw [s.pool.refCount_addRef handle.data b ((s.pool.isSome_iff _).2 hpos), List.map_append, List.count_append,
        List.map_singleton, TranBufPool.count_singleton_eq]
      omega
    · exact h.keeps_nothing
  · exact h.keeps_nothing

theorem appendBuffer_keeps (h : s.Sound) (i j : Nat) : s.Keeps (s.appendBuffer i j) := by
  unfold appendBuffer
  split
  · rename_i rb other hr ho
    split
    · exact h.keeps_nothing
    · have hpos (b : BlockPtr) (hb : b ∈ other.bufList.map BufferHandle.data) : 0 < s.pool.refCount b :=
        h.pos (getElem?_of_reader? ho) hb
      obtain ⟨hrun, hcount⟩ := TranBufPool.addRefAll_spec hpos
      refine ⟨hrun, h.set (getElem?_of_reader? hr) (fun b => ?_) trivial⟩
      have hb := hcount b
      change (s.pool.addRefAll (other.bufList.map BufferHandle.data)).refCount b +
        (rb.bufList.map BufferHandle.data).count b = _ + ((rb.bufList ++ other.bufList).map BufferHandle.data).count b
      rw [List.map_append, List.count_append]
      omega
  · exact h.keeps_nothing

/-- What `Next` gives out is in a block of the buffer. -/
theorem readerNext_data (rb : ReadBuffer) : rb.next.2.bufList = rb.bufList ∧
    ∀ region ∈ rb.next.1, region.data ∈ rb.bufList.map BufferHandle.data := by
  unfold ReadBuffer.next
  cases hcur : rb.bufList[rb.curIt]? with
  | none        => exact ⟨rfl, nofun⟩
  | some handle =>
    refine ⟨rfl, fun region hregion => ?_⟩
    obtain rfl := Option.some.inj hregion
    exact List.mem_map_of_mem (List.mem_of_getElem? hcur)

theorem readerNext_keeps (h : s.Sound) (i : Nat) : s.Keeps (s.readerNext i) := by
  unfold readerNext
  split
  · rename_i rb hr
    have hi := getElem?_of_reader? hr
    obtain ⟨hsame, hdata⟩ := readerNext_data rb
    constructor
    · cases hregion : rb.next.1 with
      | none        => rfl
      | some region => exact TranBufPool.run_read (h.pos hi (hdata region hregion)) []
    · refine h.set hi (fun b => ?_) trivial
      rw [BufferObject.held_reader, BufferObject.held_reader, hsame]
  · exact h.keeps_nothing

theorem readerBackUp_keeps (h : s.Sound) (i : Nat) (count : Int) : s.Keeps (s.readerBackUp i count) := by
  unfold readerBackUp
  split
  · rename_i rb hr
    refine ⟨rfl, h.set (getElem?_of_reader? hr) (fun b => ?_) trivial⟩
    have hsame : (rb.backUp count).bufList = rb.bufList := by
      unfold ReadBuffer.backUp
      split <;> rfl
    rw [BufferObject.held_reader, BufferObject.held_reader, hsame]
  · exact h.keeps_nothing

theorem run_reads : ∀ {bs : List BlockPtr} {p : TranBufPool}, (∀ b ∈ bs, 0 < p.refCount b) →
    BlockOp.run p (bs.map .read) = some p
  | [],      _, _ => rfl
  | b :: bs, p, h => by
    rw [List.map_cons, TranBufPool.run_read (h b List.mem_cons_self)]
    exact run_reads fun c hc => h c (List.mem_cons_of_mem b hc)

theorem toString_keeps (h : s.Sound) (i : Nat) : s.Keeps (s.toString i) := by
  unfold toString
  split
  · rename_i rb hr
    exact ⟨run_reads fun b hb => h.pos (getElem?_of_reader? hr) hb, h⟩
  · exact h.keeps_nothing

/-- What a stream that does not split holds. -/
theorem Sound.held_idle (h : s.Sound) {i : Nat} {c : SplitCursor} (hi : s.idle? i = some c) :
    c.receivedMessages = [] ∧ ∀ b, (BufferObject.stream ⟨c, none⟩).held.count b =
      c.current.count b + (c.stream.receivingMessage.bufList.map BufferHandle.data).count b := by
  have hnone : c.receivedMessages = [] := h.ready _ (List.mem_of_getElem? (getElem?_of_idle? hi))
  refine ⟨hnone, fun b => ?_⟩
  rw [held_stream, SplitCursor.handles, hnone]
  rfl

theorem resetTranBuf_keeps (h : s.Sound) (i : Nat) (ok : Bool) : s.Keeps (s.resetTranBuf i ok) := by
  unfold resetTranBuf
  split
  · rename_i c hi
    have ho := getElem?_of_idle? hi
    obtain ⟨hnone, hheld⟩ := h.held_idle hi
    obtain ⟨-, -, hmessage⟩ := (c.stream.withPool s.pool).resetTranBuf_eq ok
    obtain ⟨hrun, hcount⟩ := resetTranBuf_spec (c.withPool s.pool) ok fun b hb => h.pos ho (List.mem_append_left _ hb)
    refine ⟨hrun, h.set ho (fun b => ?_) hnone⟩
    have hb := hcount b
    rw [hheld, held_stream, SplitCursor.handles, hnone]
    dsimp only
    rw [hmessage]
    change _ + (_ + (c.stream.receivingMessage.bufList.map BufferHandle.data).count b) =
      _ + (_ + (c.stream.receivingMessage.bufList.map BufferHandle.data).count b)
    rw [← Nat.add_assoc, ← Nat.add_assoc]
    exact congrArg (· + _) hb
  · exact h.keeps_nothing

theorem onConnected_keeps (h : s.Sound) (i : Nat) (ok : Bool) : s.Keeps (s.onConnected i ok) := by
  unfold onConnected
  split
  · rename_i c hi
    have ho := getElem?_of_idle? hi
    obtain ⟨hnone, hheld⟩ := h.held_idle hi
    have hle (b : BlockPtr) : c.current.count b + (c.stream.receivingMessage.bufList.map BufferHandle.data).count b ≤
        s.pool.refCount b := hheld b ▸ h.count_le ho b
    have hholds (b : BlockPtr) : (c.stream.receivingMessage.bufList.map BufferHandle.data).count b ≤ s.pool.refCount b :=
      Nat.le_trans (Nat.le_add_left _ _) (hle b)
    obtain ⟨hfree, hfreed⟩ := TranBufPool.freeAll_spec hholds
    clear hholds
    dsimp only
    generalize hmessage : c.stream.receivingMessage.bufList.map BufferHandle.data = message at *
    generalize hp : s.pool.freeAll message = p at *
    -- the rest is a new block for a stream without a message
    have hcurrent : ∀ b ∈ c.current, 0 < p.refCount b := fun b hb => by
      have hone := List.count_pos_iff.2 hb
      have hle := hle b
      have hb := hfreed b
      omega
    have hnext : p.next = s.pool.next := hp ▸ TranBufPool.freeAll_next s.pool message
    obtain ⟨-, -, hempty⟩ := (c.stream.withPool p).resetReceivingEnv.resetTranBuf_eq ok
    obtain ⟨hrun, hcount⟩ := resetTranBuf_spec { c with stream := (c.stream.withPool p).resetReceivingEnv } ok hcurrent
    have hops : c.stream.resetOps s.pool ok = c.stream.resetOps p ok := by
      unfold Recv.resetOps
      rw [mallocOps_congr hnext]
    refine ⟨?_, h.set ho (fun b => ?_) hnone⟩
    · rw [BlockOp.run_append, hfree, Option.bind_some, hops]
      exact hrun
    · have hb := hcount b
      have hb' := hfreed b
      change ((c.stream.withPool p).onConnected ok).2.pool.refCount b + c.current.count b = p.refCount b +
        ({ c with stream := ((c.stream.withPool p).onConnected ok).2 } : SplitCursor).current.count b at hb
      change ((c.stream.withPool p).onConnected ok).2.receivingMessage = {} at hempty
      have hhandles : ({ c with stream := ((c.stream.withPool p).onConnected ok).2 } : SplitCursor).handles = [] := by
        unfold SplitCursor.handles
        dsimp only
        rw [hnone, hempty]
        rfl
      rw [hheld, held_stream, hhandles]
      change _ = _ + (List.count b ({ c with stream := ((c.stream.withPool p).onConnected ok).2 } : SplitCursor).current + 0)
      omega
  · exact h.keeps_nothing

/-- The current block of a stream is there. -/
theorem Sound.current_pos (h : s.Sound) {i : Nat} {o : StreamObject} (ho : s.objects[i]? = some (.stream o))
    (hnull : o.cursor.stream.tranBuf ≠ nullptr) : 0 < s.pool.refCount o.cursor.stream.tranBuf := by
  refine h.pos ho (List.mem_append_left _ ?_)
  rw [SplitCursor.current, if_neg hnull]
  exact List.mem_singleton_self _

theorem arrived_keeps (h : s.Sound) (i : Nat) (bs : List UInt8) : s.Keeps (s.arrived i bs) := by
  unfold arrived
  split
  · rename_i c hi
    split
    · exact h.keeps_nothing
    · rename_i hnull
      have ho := getElem?_of_idle? hi
      have hpos := h.current_pos ho hnull
      constructor
      · rw [BlockOp.run, BlockOp.apply, if_pos ((s.pool.isSome_iff _).2 hpos)]
        rfl
      · refine h.set ho (fun b => ?_) hnull
        rw [(h.held_idle hi).2, held_stream]
        change (s.pool.write c.stream.tranBuf c.stream.receivingData bs).refCount b + _ = _
        rw [TranBufPool.refCount_write]
        rfl
  · exact h.keeps_nothing

/-- The messages of a read become objects of their own. -/
theorem tally_messages (items : List ReceivedItem) (b : BlockPtr) :
    tally (fun o => o.held.count b) (items.map fun item => BufferObject.reader item.message) =
      ((items.flatMap fun i => i.message.bufList).map BufferHandle.data).count b := by
  induction items with
  | nil            => rfl
  | cons item items ih =>
    rw [List.map_cons, tally_cons, ih, List.flatMap_cons, List.map_append, List.count_append]
    rfl

theorem refsTo_eq_count (b : BlockPtr) (hs : List BufferHandle) : refsTo b hs = (hs.map BufferHandle.data).count b := by
  rw [refsTo, List.count, List.countP_map]
  rfl

theorem split_keeps (h : s.Sound) (i : Nat) (outside : List UInt8) : s.Keeps (s.split i outside) := by
  unfold split
  split
  · rename_i c n hi
    have ho := getElem?_of_reading? hi
    have hnull : c.stream.tranBuf ≠ nullptr := h.ready _ (List.mem_of_getElem? ho)
    have hpos : 0 < s.pool.refCount c.stream.tranBuf := h.current_pos ho hnull
    have hcurrent {c' : SplitCursor} (htranBuf : c'.stream.tranBuf = c.stream.tranBuf) : c'.current = c.current := by
      unfold SplitCursor.current
      rw [htranBuf]
    cases hstep : splitAny (c.withPool s.pool) outside with
    | fault     => exact absurd hstep (splitAny_ne_fault _ _)
    | next c'   =>
      obtain ⟨htranBuf, hrun, hcount⟩ := splitAny_adds (.inl hstep)
      refine ⟨hrun hpos, h.set ho (fun b => ?_) fun hn => hnull (htranBuf.symm.trans hn)⟩
      have hb := hcount hpos b
      rw [refsTo_eq_count, refsTo_eq_count] at hb
      rw [held_stream, held_stream, hcurrent htranBuf]
      change _ + (c.handles.map BufferHandle.data).count b = s.pool.refCount b + _ at hb
      dsimp only
      omega
    | ret ok c' =>
      obtain ⟨htranBuf, hrun, hcount⟩ := splitAny_adds (.inr ⟨ok, hstep⟩)
      refine ⟨hrun hpos, fun b => ?_, fun x hmem => ?_⟩
      · have hset := tally_set (fun o => o.held.count b) (.stream ⟨c'.returned ok n, none⟩) ho
        have hb := hcount hpos b
        have hbefore := h.counts b
        have hreturned : (BufferObject.stream ⟨c'.returned ok n, none⟩).held.count b =
            c'.current.count b + (c'.stream.receivingMessage.bufList.map BufferHandle.data).count b := by
          rw [held_stream]
          cases ok <;> rfl
        have hhandles : (c'.handles.map BufferHandle.data).count b =
            ((c'.receivedMessages.flatMap fun i => i.message.bufList).map BufferHandle.data).count b +
              (c'.stream.receivingMessage.bufList.map BufferHandle.data).count b := by
          rw [SplitCursor.handles, List.map_append, List.count_append]
        rw [refsTo_eq_count, refsTo_eq_count] at hb
        change _ + (c.handles.map BufferHandle.data).count b = s.pool.refCount b + _ at hb
        rw [held_stream, hreturned, hcurrent htranBuf] at hset
        unfold holders at hbefore ⊢
        dsimp only at hset ⊢
        rw [tally_append, tally_messages]
        change c'.stream.pool.refCount b =
          tally (fun o => o.held.count b) (s.objects.set i (.stream ⟨c'.returned ok n, none⟩)) + _
        omega
      · rcases List.mem_append.1 hmem with hmem | hnew
        · rcases List.mem_or_eq_of_mem_set hmem with hold | rfl
          · exact h.ready x hold
          · cases ok <;> rfl
        · obtain ⟨item, -, rfl⟩ := List.mem_map.1 hnew
          trivial
  · exact h.keeps_nothing

theorem act_keeps (h : s.Sound) (e : BufferEvent) : s.Keeps (s.act e) := by
  cases e with
  | newWriter         => exact ⟨rfl, sound_new h rfl trivial⟩
  | newReader         => exact ⟨rfl, sound_new h rfl trivial⟩
  | newStream factor  => exact ⟨rfl, sound_new h rfl rfl⟩
  | destroyed i       => exact destroyed_keeps h i
  | writerNext i ok   => exact writerNext_keeps h i ok
  | writerBackUp i n  => exact writerBackUp_keeps h i n
  | written i k o bs  => exact written_keeps h i k o bs
  | swapOut i j       => exact swapOut_keeps h i j
  | append i handle   => exact append_keeps h i handle
  | appendBuffer i j  => exact appendBuffer_keeps h i j
  | readerNext i      => exact readerNext_keeps h i
  | readerBackUp i n  => exact readerBackUp_keeps h i n
  | toString i        => exact toString_keeps h i
  | onConnected i ok  => exact onConnected_keeps h i ok
  | arrived i bs      => exact arrived_keeps h i bs
  | split i outside   => exact split_keeps h i outside
  | resetTranBuf i ok => exact resetTranBuf_keeps h i ok

theorem Sound.init : Sound {} where
  counts _     := rfl
  ready _ hmem := absurd hmem List.not_mem_nil

/-- **In every run, no block is used or freed after it has been freed, and the count of every block is the number of its
holders; it is freed when that is zero.** -/
theorem run_balanced (es : List BufferEvent) : Along step NoFault {} es ∧ Always step Balanced {} es := by
  have hstep (s : TransferBuffers) (e : BufferEvent) (h : s.Sound) (_ : True) : (s.step e).Sound := (act_keeps h e).2
  have hfault (s : TransferBuffers) (e : BufferEvent) (h : s.Sound) (_ : True) : s.NoFault e := (act_keeps h e).1
  have hany : Along step (fun _ _ => True) {} es := Run.along_of_forall fun _ _ _ => trivial
  have halways : Always step Sound {} es := Run.always_inv hstep es Sound.init hany
  exact ⟨Run.along_of_inv hstep hfault es Sound.init hany, halways.mono fun _ h => h.balanced⟩

/-- A block of a writer that goes over to a reader, and is held by another one when that is destroyed. -/
def handedOver : List BufferEvent :=
  [.newWriter, .newReader, .newReader, .writerNext 0 fun _ => true, .swapOut 0 1, .appendBuffer 2 1, .destroyed 1]

example : (handedOver.foldl step {}).pool.refCount 1 = 1 ∧
    (((handedOver ++ [BufferEvent.destroyed 1]).foldl step {}).pool.blocks 1).isNone = true := by decide

end TransferBuffers

end Gb
