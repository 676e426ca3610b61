import GbServer.MessageHeader
import GbServer.ReadBuffer
/-!
# StreamReceive — the receiving half of a message stream

`MessageStream` (`message_stream.cpp`): the header and the body under construction, the transfer block the transport
reads into, and the splitter that turns the bytes of one read into messages.  A position in the block is an offset from
`_tran_buf`; it is an integer, since a header may send it anywhere.

`split_and_process_message` is a loop of two halves, finding a header and taking a body, and `splitStep` is one half.
Whether the loop ends is a theorem or its failure, so a run (`splitRun`) carries a number of steps.
-/
namespace Gb

/-- The bounds of the block factor: `ServerImpl` clamps it to the largest, which is also the default. -/
abbrev BlockFactor := Fin (TRAN_BUF_BLOCK_MAX_FACTOR + 1)

/-- A complete message, as it waits for `on_received`. -/
structure ReceivedItem where
  message  : ReadBuffer
  metaSize : Int
  dataSize : Int

/-- The receiving fields of a `MessageStream`. -/
structure Recv where
  pool                      : TranBufPool
  readBufferBaseBlockFactor : BlockFactor
  receivingMessage          : ReadBuffer
  receivedMessageSize       : Int
  receivingHeader           : MessageHeader
  receivedHeaderSize        : Nat
  receivingHeaderIdentified : Bool
  tranBuf                   : BlockPtr
  receivingData             : Nat
  receivingSize             : Nat

namespace Recv

/-- The constructor, with the pool of the process. -/
def init (factor : BlockFactor) : Recv where
  pool                      := TranBufPool.init
  readBufferBaseBlockFactor := factor
  receivingMessage          := {}
  receivedMessageSize       := 0
  receivingHeader           := MessageHeader.init
  receivedHeaderSize        := 0
  receivingHeaderIdentified := false
  tranBuf                   := nullptr
  receivingData             := 0
  receivingSize             := 0

def resetReceivingEnv (s : Recv) : Recv :=
  { s with
    receivingMessage          := {}
    receivedMessageSize       := 0
    receivedHeaderSize        := 0
    receivingHeaderIdentified := false }

/-- `reset_tran_buf`: whether there is a block again, and the stream with it. -/
def resetTranBuf (s : Recv) (mallocOk : Bool) : Bool × Recv :=
  let pool := if s.tranBuf ≠ nullptr then s.pool.free s.tranBuf else s.pool
  let (tranBuf, pool) := pool.malloc s.readBufferBaseBlockFactor.val mallocOk
  if tranBuf = nullptr then (false, { s with pool := pool, tranBuf := tranBuf })
  else
    (true,
      { s with pool := pool, tranBuf := tranBuf, receivingData := 0, receivingSize := pool.capacity tranBuf })

/-- `_receiving_message->Append(BufferHandle(_tran_buf, size, data - _tran_buf))`: both numbers become an `int`. -/
def appendHandle (s : Recv) (size data : Int) : Recv :=
  let (message, pool) := s.receivingMessage.append s.pool ⟨s.tranBuf, toInt32 size, toInt32 data⟩
  { s with receivingMessage := message, pool := pool }

@[simp] theorem appendHandle_bufList (s : Recv) (size data : Int) : (s.appendHandle size data).receivingMessage.bufList =
    s.receivingMessage.bufList ++ [⟨s.tranBuf, toInt32 size, toInt32 data⟩] := rfl

@[simp] theorem appendHandle_pool (s : Recv) (size data : Int) :
    (s.appendHandle size data).pool = s.pool.addRef s.tranBuf := rfl

@[simp] theorem appendHandle_receivingHeader (s : Recv) (size data : Int) :
    (s.appendHandle size data).receivingHeader = s.receivingHeader := rfl

/-- `identify_message_header`: the stream, the result (1 complete, 0 wait for more, -1 refused) and the bytes consumed.
`none` when the bytes are not all in a live block.  Sizes in the header that do not add up are logged and accepted. -/
def identifyMessageHeader (s : Recv) (data size : Int) : Option (Recv × Int × Nat) :=
  let copySize := min size.toNat (messageHeaderSize - s.receivedHeaderSize)
  match s.pool.read s.tranBuf data copySize with
  | none    => none
  | some bs =>
    let s := { s with
      receivingHeader    := s.receivingHeader.copyIn s.receivedHeaderSize bs
      receivedHeaderSize := s.receivedHeaderSize + copySize }
    if s.receivedHeaderSize < messageHeaderSize then some (s, 0, copySize)
    else if !s.receivingHeader.checkMagicString then some (s, -1, copySize)
    else some (s, 1, copySize)

end Recv

/-! ## The splitter -/

/-- Where `split_and_process_message` stands in a pass of its loop. -/
inductive SplitPc
  | head
  | body
  deriving DecidableEq

/-- The variables of `split_and_process_message` with the stream it works on. -/
structure SplitCursor where
  stream           : Recv
  data             : Int
  size             : Int
  receivedMessages : List ReceivedItem
  pc               : SplitPc

/-- What half a pass does: go on, return, or read bytes that are not there. -/
inductive SplitStep
  | next (c : SplitCursor)
  | ret (ok : Bool) (c : SplitCursor)
  | fault

/-- The first half of a pass: `while (size > 0)` and the header, unless it is known already. -/
def splitHead (c : SplitCursor) : SplitStep :=
  if c.size ≤ 0 then .ret true c
  else if c.stream.receivingHeaderIdentified then .next { c with pc := .body }
  else
    match c.stream.identifyMessageHeader c.data c.size with
    | none => .fault
    | some (s, identifyResult, consumed) =>
      if 0 < identifyResult then
        let s := { s with receivingHeaderIdentified := true }
        if consumed = c.size ∧ 0 < s.receivingHeader.messageSize then .ret true { c with stream := s }
        else .next { c with stream := s, data := c.data + consumed, size := c.size - consumed, pc := .body }
      else if identifyResult = 0 then .ret true { c with stream := s }
      else .ret false { c with stream := s }

/-- The second half: the bytes that are there, or the rest of the message.  The sum of the sizes does not overflow an
`int64_t` before `2 ^ 63` bytes of one message have come in. -/
def splitBody (c : SplitCursor) : SplitStep :=
  let messageSize := c.stream.receivingHeader.messageSize
  if c.stream.receivedMessageSize + c.size < messageSize then
    let s := c.stream.appendHandle c.size c.data
    .ret true { c with stream := { s with receivedMessageSize := s.receivedMessageSize + c.size } }
  else
    let consumeSize := messageSize - c.stream.receivedMessageSize
    let s := if 0 < consumeSize then c.stream.appendHandle consumeSize c.data else c.stream
    let item : ReceivedItem := ⟨s.receivingMessage, s.receivingHeader.metaSize, s.receivingHeader.dataSize⟩
    .next
      { stream           := s.resetReceivingEnv
        data             := c.data + consumeSize
        size             := toInt32 (c.size - consumeSize)
        receivedMessages := c.receivedMessages ++ [item]
        pc               := .head }

def splitStep (c : SplitCursor) : SplitStep :=
  match c.pc with
  | .head => splitHead c
  | .body => splitBody c

/-- At most `n` steps of the loop. -/
def splitRun : Nat → SplitCursor → SplitStep
  | 0, c     => .next c
  | n + 1, c =>
    match splitStep c with
    | .next c' => splitRun n c'
    | r        => r

/-- The cursor at the call `split_and_process_message(data, size, &received_message)`. -/
def splitCall (s : Recv) (data size : Int) : SplitCursor := ⟨s, data, size, [], .head⟩

/-! ## One read -/

/-- What `on_read_some` comes to, before it reads on and calls `on_received`: the messages it will deliver, or the
reason it closes the stream with.  `running` is a splitter that has not returned within the steps allowed. -/
inductive ReadSome
  | received (s : Recv) (receivedMessage : List ReceivedItem)
  | closed (reason : String) (s : Recv)
  | running (c : SplitCursor)
  | fault

/-- The transport puts the bytes of a read behind the last ones. -/
def Recv.arrive (s : Recv) (bs : List UInt8) : Recv := { s with pool := s.pool.write s.tranBuf s.receivingData bs }

/-- `on_read_some` on a connected stream without an error, up to `try_start_receive`, splitting for at most `fuel`
steps. -/
def Recv.onReadSome (s : Recv) (bytesTransferred : Nat) (mallocOk : Bool) (fuel : Nat) : ReadSome :=
  match splitRun fuel (splitCall s s.receivingData bytesTransferred) with
  | .next c => .running c
  | .fault => .fault
  | .ret false c => .closed "broken stream" c.stream
  | .ret true c =>
    let s := { c.stream with
      receivingData := c.stream.receivingData + bytesTransferred
      receivingSize := c.stream.receivingSize - bytesTransferred }
    if s.receivingSize = 0 then
      match s.resetTranBuf mallocOk with
      | (true, s)  => .received s c.receivedMessages
      | (false, s) => .closed "out of memory" s
    else .received s c.receivedMessages

/-- `on_connected`: a stream that is ready for its first byte. -/
def Recv.onConnected (s : Recv) (mallocOk : Bool) : Bool × Recv := s.resetReceivingEnv.resetTranBuf mallocOk

end Gb
