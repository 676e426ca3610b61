import GbServer.Lib.Run
import GbServer.Lib.Threads
import GbServer.KcpSend
import GbServer.ReceiveLoop
/-!
# StreamThreads — a stream that many threads call

`ByteStream` and `MessageStream` with the connect completions of their transports, as threads that come between each
other at every access of what they share: the status, the two tokens, the quota tokens, the pending queue with its
counters.  A thread is the list of what it still has to do (`StreamAction`), `act` is one of these steps.  Which quota
an acquire gets, and whether a call of the system fails, comes with the step (`StreamInput`); a callback is an action in which the
code of the application calls what it likes.

`_swapped_calls`, `_sending_message` and what belongs to them are accessed by the thread that holds the send token, so
such accesses are taken together; `on_sending` of a `Session` always agrees.  A completion of a KCP transport that runs
inside of the call that it completes is one of the orders in which a completion may come.

`accepted`, `queued`, `sent`, `failed`, `written` and `inHand` record the messages that `async_send_message` was called
with, those in the order of the pending queue, what was reported, the bytes that went out and those of the message that
is on its way; `closedCalls` and `lateStarts` the calls of `on_closed` and the reads and writes started on a closed
stream.
-/
namespace Gb

open Threads

inductive StreamStatus
  | init
  | connecting
  | connected
  | closed
  deriving DecidableEq

/-- How far the one `async_connect` or accept of a stream is. -/
inductive ConnectPhase
  | unused
  | called
  | inTransport
  | done
  deriving DecidableEq

structure SendMessage extends OutMessage where
  totalBlockSize : Nat

/-- `TotalCount`. -/
def SendMessage.totalCount (m : SendMessage) : Nat := m.bytes.length

/-- What `on_read_some` is called with: an error, bytes that make a broken stream, bytes that complete `n` messages. -/
inductive ReadOutcome
  | error
  | broken
  | received (n : Nat)

inductive StreamAction
  | close
  | transportClose
  | onClosed
  | callback
  | asyncConnect
  | onConnectTimeout (aborted : Bool)
  | onConnect (error : Bool)
  | onHandshake (error : Bool)
  | doConnect
  | setup
  | onAccept
  | onAccepted
  | setConnectedOptions
  | onConnected
  | storeConnected
  | triggerReceive
  | triggerSend
  | receiveTestToken
  | receiveTestQuota
  | receiveReadPending
  | receiveTestPending (pendingBufferSize : Int)
  | receiveTestConnected
  | receiveTakeToken
  | acquireReadQuota
  | receiveReleaseToken
  | asyncReadSome
  | sendTestToken
  | sendTestQuota
  | sendTestConnected
  | sendTakeToken
  | getFromPendingQueue
  | acquireWriteQuota (m : SendMessage)
  | insertIntoPendingQueue (m : SendMessage)
  | sendReleaseToken
  | emptyReleaseToken
  | testPendingCount
  | asyncWriteSome
  | asyncSendMessage (m : SendMessage)
  | putIntoPendingQueue (m : SendMessage)
  | onReadSome (outcome : ReadOutcome)
  | readReleaseToken
  | onReceived (n : Nat)
  | onWriteSome (error : Bool) (bytesTransferred : Nat)
  | onSendFailed
  | onSent
  | sentReleaseToken

structure StreamThreads where
  netType              : NetType
  transportType        : TransportType
  maxPendingBufferSize : Int
  status               : StreamStatus := .init
  phase                : ConnectPhase := .unused
  transportClosed      : Bool := false
  receiveTokenLocked   : Bool := false
  sendTokenLocked      : Bool := false
  readQuotaToken       : Int := 1
  writeQuotaToken      : Int := 1
  pendingCalls         : List SendMessage := []
  pendingMessageCount  : Int := 0
  pendingDataSize      : Int := 0
  pendingBufferSize    : Int := 0
  swappedCalls         : List SendMessage := []
  swappedMessageCount  : Int := 0
  swappedDataSize      : Int := 0
  swappedBufferSize    : Int := 0
  sendingMessage       : Option SendMessage := none
  sendingBlocks        : List (List UInt8) := []
  sendingData          : List UInt8 := []
  reads                : Nat := 0
  writes               : List (List UInt8) := []
  ops                  : List (List StreamAction) := []
  accepted             : List SendMessage := []
  queued               : List SendMessage := []
  sent                 : List SendMessage := []
  failed               : List SendMessage := []
  written              : List UInt8 := []
  inHand               : List UInt8 := []
  closedCalls          : Nat := 0
  lateStarts           : Nat := 0

structure StreamInput where
  quota : Int := 1
  ok    : Bool := true

namespace StreamThreads

variable (s : StreamThreads)

/-- One for a read or a write started on a closed stream. -/
def late : Nat := if s.status = .closed then 1 else 0

def putIntoPendingQueue (m : SendMessage) : StreamThreads :=
  { s with
    pendingCalls        := s.pendingCalls ++ [m]
    pendingMessageCount := s.pendingMessageCount + 1
    pendingDataSize     := s.pendingDataSize + m.totalCount
    pendingBufferSize   := s.pendingBufferSize + m.totalBlockSize
    queued              := s.queued ++ [m] }

/-- `insert_into_pending_queue` and `clear_sending_env`. -/
def insertIntoPendingQueue (m : SendMessage) : StreamThreads :=
  { s with
    swappedCalls        := m :: s.swappedCalls
    swappedMessageCount := s.swappedMessageCount + 1
    swappedDataSize     := s.swappedDataSize + m.totalCount
    swappedBufferSize   := s.swappedBufferSize + m.totalBlockSize
    sendingMessage      := none
    sendingBlocks       := []
    sendingData         := []
    inHand              := [] }

/-- The first part of `get_from_pending_queue`. -/
def swapCalls : StreamThreads :=
  if s.swappedCalls = [] ∧ 0 < s.pendingMessageCount ∧ s.pendingCalls ≠ [] then
    { s with
      swappedCalls        := s.pendingCalls
      swappedMessageCount := s.pendingMessageCount
      swappedDataSize     := s.pendingDataSize
      swappedBufferSize   := s.pendingBufferSize
      pendingCalls        := []
      pendingMessageCount := 0
      pendingDataSize     := 0
      pendingBufferSize   := 0 }
  else s

/-- The second part: the first of the swapped calls is taken, which leaves `ms`. -/
def takeMessage (m : SendMessage) (ms : List SendMessage) : StreamThreads :=
  { s with
    swappedCalls        := ms
    swappedMessageCount := s.swappedMessageCount - 1
    swappedDataSize     := s.swappedDataSize - m.totalCount
    swappedBufferSize   := s.swappedBufferSize - m.totalBlockSize
    sendingMessage      := some m
    inHand              := m.bytes }

def getFromPendingQueue : StreamThreads × List StreamAction :=
  match s.swapCalls.swappedCalls with
  | m :: ms => (s.swapCalls.takeMessage m ms, [.acquireWriteQuota m])
  | []      => (s.swapCalls, [.emptyReleaseToken])

/-- `Next` on a message that has just been taken. -/
def nextBlock (m : SendMessage) : StreamThreads :=
  { s with sendingData := m.blocks.head m.nonempty, sendingBlocks := m.blocks.tail }

/-- `on_write_some` without an error. -/
def onWriteSome (bytesTransferred : Nat) : StreamThreads × List StreamAction :=
  if bytesTransferred = s.sendingData.length then
    match s.sendingBlocks with
    | b :: bs => ({ s with sendingData := b, sendingBlocks := bs }, [.asyncWriteSome])
    | []      => (s, [.onSent])
  else ({ s with sendingData := s.sendingData.drop bytesTransferred }, [.asyncWriteSome])

/-- One step of a thread, and what it has to do in its place. -/
def act (input : StreamInput) : StreamAction → StreamThreads × List StreamAction
  | .close                    =>
    if s.status = .closed then (s, []) else ({ s with status := .closed }, [.transportClose, .onClosed])
  | .transportClose           => ({ s with transportClosed := true }, [])
  | .onClosed                 => ({ s with closedCalls := s.closedCalls + 1 }, [.callback])
  | .callback                 => (s, [])
  | .asyncConnect             => ({ s with status := .connecting, phase := .inTransport }, [])
  | .onConnectTimeout aborted => (s, if s.status ≠ .connecting ∨ aborted then [] else [.close])
  | .onConnect error          =>
    (s, if s.status ≠ .connecting then [] else if error then [.close] else [.setConnectedOptions])
  | .onHandshake error        =>
    (s, if error then [.close] else if s.status ≠ .connecting then [] else [.setConnectedOptions])
  | .doConnect                =>
    (s, if s.transportClosed then [] else if input.ok then [.setConnectedOptions] else [.close])
  | .setup                    =>
    (s, if s.transportClosed = false ∧ input.ok then [.setConnectedOptions, .callback] else [.close])
  | .onAccept                 => (s, if s.status = .closed then [.onAccepted] else [.callback, .onAccepted])
  | .onAccepted               => (s, if s.status = .closed then [] else [.setConnectedOptions])
  | .setConnectedOptions      => (s, if input.ok then [.onConnected] else [.close])
  -- `Session::on_connected` does not ask what `MessageStream::on_connected` returns
  | .onConnected              => (s, if input.ok then [.callback, .storeConnected] else [.close, .callback, .storeConnected])
  | .storeConnected           => ({ s with status := .connected }, [.triggerReceive, .triggerSend])
  | .triggerReceive           => ({ s with readQuotaToken := 1 }, [.receiveTestToken])
  | .triggerSend              => ({ s with writeQuotaToken := 1 }, [.sendTestToken])
  | .receiveTestToken         => (s, if s.receiveTokenLocked then [] else [.receiveTestQuota])
  | .receiveTestQuota         =>
    (s, if s.readQuotaToken ≤ 0 then [] else if s.netType = .server then [.receiveReadPending] else [.receiveTestConnected])
  | .receiveReadPending       => (s, [.receiveTestPending s.pendingBufferSize])
  | .receiveTestPending p     => (s, if s.maxPendingBufferSize < p + s.swappedBufferSize then [] else [.receiveTestConnected])
  | .receiveTestConnected     => (s, if s.status = .connected then [.receiveTakeToken] else [])
  | .receiveTakeToken         =>
    if s.receiveTokenLocked then (s, []) else ({ s with receiveTokenLocked := true }, [.acquireReadQuota])
  | .acquireReadQuota         =>
    ({ s with readQuotaToken := input.quota }, if input.quota ≤ 0 then [.receiveReleaseToken] else [.asyncReadSome])
  | .receiveReleaseToken      => ({ s with receiveTokenLocked := false }, [])
  | .asyncReadSome            => ({ s with reads := s.reads + 1, lateStarts := s.lateStarts + s.late }, [])
  | .sendTestToken            => (s, if s.sendTokenLocked then [] else [.sendTestQuota])
  | .sendTestQuota            => (s, if s.writeQuotaToken ≤ 0 then [] else [.sendTestConnected])
  | .sendTestConnected        => (s, if s.status = .connected then [.sendTakeToken] else [])
  | .sendTakeToken            =>
    if s.sendTokenLocked then (s, []) else ({ s with sendTokenLocked := true }, [.getFromPendingQueue])
  | .getFromPendingQueue      => s.getFromPendingQueue
  | .acquireWriteQuota m      =>
    if input.quota ≤ 0 then ({ s with writeQuotaToken := input.quota }, [.insertIntoPendingQueue m])
    else (nextBlock { s with writeQuotaToken := input.quota } m, [.asyncWriteSome])
  | .insertIntoPendingQueue m => (s.insertIntoPendingQueue m, [.sendReleaseToken])
  | .sendReleaseToken         => ({ s with sendTokenLocked := false }, [])
  | .emptyReleaseToken        => ({ s with sendTokenLocked := false }, [.testPendingCount])
  | .testPendingCount         => (s, if s.pendingMessageCount = 0 then [] else [.sendTestConnected])
  | .asyncWriteSome           => ({ s with writes := s.writes ++ [s.sendingData], lateStarts := s.lateStarts + s.late }, [])
  | .asyncSendMessage m       =>
    if s.status = .closed then ({ s with failed := s.failed ++ [m] }, []) else (s, [.putIntoPendingQueue m])
  | .putIntoPendingQueue m    => (s.putIntoPendingQueue m, [.sendTestToken])
  | .onReadSome outcome       =>
    (s, if s.status ≠ .connected then [] else
      match outcome with
      | .error      => [.close]
      | .broken     => [.close]
      | .received n => [.readReleaseToken, .onReceived n])
  | .readReleaseToken         => ({ s with receiveTokenLocked := false }, [.receiveTestToken])
  | .onReceived n             => (s, if s.status = .closed ∨ n = 0 then [] else [.callback, .onReceived (n - 1)])
  | .onWriteSome error n      =>
    if s.status ≠ .connected then (s, []) else if error then (s, [.onSendFailed]) else s.onWriteSome n
  -- `on_send_failed` and `clear_sending_env`
  | .onSendFailed             =>
    ({ s with
      failed         := s.failed ++ s.sendingMessage.toList
      sendingMessage := none
      sendingBlocks  := []
      sendingData    := []
      inHand         := [] }, [.close])
  | .onSent                   => ({ s with sent := s.sent ++ s.sendingMessage.toList }, [.callback, .sentReleaseToken])
  | .sentReleaseToken         =>
    ({ s with sendTokenLocked := false },
      if s.netType = .server then [.sendTestToken, .receiveTestToken] else [.sendTestToken])

end StreamThreads

/-- What is called from outside, and from inside of callbacks. -/
inductive StreamCall
  | close
  | asyncConnect
  | asyncSendMessage (m : SendMessage)
  | triggerReceive
  | triggerSend

inductive StreamEvent
  | call (c : StreamCall)
  | inCallback (k : Nat) (c : StreamCall)
  | step (k : Nat) (input : StreamInput)
  | accept
  | connectCompletes (error : Bool)
  | connectTimeout (aborted : Bool)
  | readCompletes (outcome : ReadOutcome)
  | writeCompletes (i : Nat) (error : Bool) (bytesTransferred : Nat)

namespace StreamThreads

def init (netType : NetType) (transportType : TransportType) (maxPendingBufferSize : Int) : StreamThreads where
  netType              := netType
  transportType        := transportType
  maxPendingBufferSize := maxPendingBufferSize

/-- What a call has to do.  `async_connect` is called once, on a stream that nothing else connects. -/
def call (s : StreamThreads) : StreamCall → StreamThreads × List StreamAction
  | .close              => (s, [.close])
  | .asyncConnect       => if s.phase = .unused then ({ s with phase := .called }, [.asyncConnect]) else (s, [])
  | .asyncSendMessage m => ({ s with accepted := s.accepted ++ [m] }, [.asyncSendMessage m])
  | .triggerReceive     => (s, [.triggerReceive])
  | .triggerSend        => (s, [.triggerSend])

/-- What a listener does with a stream that it accepted. -/
def acceptActions (s : StreamThreads) : List StreamAction :=
  match s.transportType with
  | .kcp => [.setup]
  | _    => [.onAccept]

/-- What a transport does when its connection is there, or is not. -/
def connectActions (s : StreamThreads) (error : Bool) : List StreamAction :=
  match s.transportType with
  | .tcp => [.onConnect error]
  | .ssl => [.onHandshake error]
  | .kcp => [.doConnect]

def start (s : StreamThreads) (op : List StreamAction) : StreamThreads := { s with ops := op :: s.ops }

def step (s : StreamThreads) : StreamEvent → StreamThreads
  | .call c                         => (s.call c).1.start (s.call c).2
  | .inCallback k c                 =>
    match s.ops[k]? with
    | some (.callback :: _) => { (s.call c).1 with ops := advance s.ops k ((s.call c).2 ++ [.callback]) }
    | _                     => s
  | .step k input                   =>
    match s.ops[k]? with
    | some (a :: _) => { (s.act input a).1 with ops := advance s.ops k (s.act input a).2 }
    | _             => s
  | .accept                         => if s.phase = .unused then start { s with phase := .done } s.acceptActions else s
  | .connectCompletes error         =>
    if s.phase = .inTransport then start { s with phase := .done } (s.connectActions error) else s
  | .connectTimeout aborted         => if s.phase = .unused then s else s.start [.onConnectTimeout aborted]
  | .readCompletes outcome          =>
    if 0 < s.reads then start { s with reads := s.reads - 1 } [.onReadSome outcome] else s
  | .writeCompletes i error n       =>
    match s.writes[i]? with
    | some chunk =>
      if n ≤ chunk.length then
        start
          { s with
            writes  := s.writes.eraseIdx i
            written := s.written ++ chunk.take n
            inHand  := s.inHand.drop n }
          [.onWriteSome error n]
      else s
    | none       => s

/-! ## Steps -/

variable {s : StreamThreads}

/-- What an event from outside, or a call from inside of a callback, gives the stream to do. -/
inductive Begins (s : StreamThreads) : StreamEvent → StreamThreads → List StreamAction → Prop
  | call (c : StreamCall) : Begins s (.call c) (s.call c).1 (s.call c).2
  | inCallback (k : Nat) (c : StreamCall) : Begins s (.inCallback k c) (s.call c).1 (s.call c).2
  | accept (hphase : s.phase = .unused) : Begins s .accept { s with phase := .done } s.acceptActions
  | connectCompletes (error : Bool) (hphase : s.phase = .inTransport) :
      Begins s (.connectCompletes error) { s with phase := .done } (s.connectActions error)
  | connectTimeout (aborted : Bool) : Begins s (.connectTimeout aborted) s [.onConnectTimeout aborted]
  | readCompletes (outcome : ReadOutcome) (hreads : 0 < s.reads) :
      Begins s (.readCompletes outcome) { s with reads := s.reads - 1 } [.onReadSome outcome]
  | writeCompletes (i : Nat) (error : Bool) (n : Nat) (chunk : List UInt8) (hchunk : s.writes[i]? = some chunk)
      (hn : n ≤ chunk.length) :
      Begins s (.writeCompletes i error n)
        { s with
          writes  := s.writes.eraseIdx i
          written := s.written ++ chunk.take n
          inHand  := s.inHand.drop n }
        [.onWriteSome error n]

/-- An event does nothing, or begins something that is one more thread then, or takes a thread one step on. -/
theorem step_cases (e : StreamEvent) :
    s.step e = s ∨
    (∃ s' op ops, s.Begins e s' op ∧ (∀ b, Has ops b ↔ Has (op :: s.ops) b) ∧
      (∀ w, weight w ops = weight w (op :: s.ops)) ∧ s.step e = { s' with ops := ops }) ∨
    ∃ k input a rest, e = .step k input ∧ s.ops[k]? = some (a :: rest) ∧
      s.step e = { (s.act input a).1 with ops := advance s.ops k (s.act input a).2 } := by
  have hcall : ∀ c : StreamCall, (s.call c).1.ops = s.ops := by
    intro c
    cases c <;> simp only [call]
    split <;> rfl
  have hbegin : ∀ {e s' op}, s.Begins e s' op → s'.ops = s.ops → s.step e = s'.start op →
      ∃ s' op ops, s.Begins e s' op ∧ (∀ b, Has ops b ↔ Has (op :: s.ops) b) ∧
        (∀ w, weight w ops = weight w (op :: s.ops)) ∧ s.step e = { s' with ops := ops } := by
    intro e s' op h hops hstep
    exact ⟨s', op, op :: s.ops, h, fun _ => Iff.rfl, fun _ => rfl, by rw [hstep, start, hops]⟩
  cases e with
  | call c                   => exact .inr (.inl (hbegin (.call c) (hcall c) rfl))
  | inCallback k c           =>
    simp only [step]
    split
    · next rest hk =>
      exact .inr (.inl ⟨_, _, _, .inCallback k c, fun _ => has_advance_before hk, fun w => weight_advance_before w hk, rfl⟩)
    · exact .inl rfl
  | step k input             =>
    simp only [step]
    split
    · next a rest hk => exact .inr (.inr ⟨k, input, a, rest, rfl, hk, rfl⟩)
    · exact .inl rfl
  | accept                   =>
    by_cases hphase : s.phase = .unused
    · exact .inr (.inl (hbegin (.accept hphase) rfl (by simp [step, hphase])))
    · exact .inl (by simp [step, hphase])
  | connectCompletes error   =>
    by_cases hphase : s.phase = .inTransport
    · exact .inr (.inl (hbegin (.connectCompletes error hphase) rfl (by simp [step, hphase])))
    · exact .inl (by simp [step, hphase])
  | connectTimeout aborted   =>
    by_cases hphase : s.phase = .unused
    · exact .inl (by simp [step, hphase])
    · exact .inr (.inl (hbegin (.connectTimeout aborted) rfl (by simp [step, hphase])))
  | readCompletes outcome    =>
    by_cases hreads : 0 < s.reads
    · exact .inr (.inl (hbegin (.readCompletes outcome hreads) rfl (by simp [step, hreads])))
    · exact .inl (by simp [step, hreads])
  | writeCompletes i error n =>
    cases hchunk : s.writes[i]? with
    | none       => exact .inl (by simp [step, hchunk])
    | some chunk =>
      by_cases hn : n ≤ chunk.length
      · exact .inr (.inl (hbegin (.writeCompletes i error n chunk hchunk hn) rfl (by simp [step, hchunk, hn])))
      · exact .inl (by simp [step, hchunk, hn])

/-! ## The queues -/

/-- Everything but the queues, their counters and the message on its way. -/
def withoutQueues (s : StreamThreads) : StreamThreads :=
  { s with
    pendingCalls        := []
    pendingMessageCount := 0
    pendingDataSize     := 0
    pendingBufferSize   := 0
    swappedCalls        := []
    swappedMessageCount := 0
    swappedDataSize     := 0
    swappedBufferSize   := 0
    sendingMessage      := none
    sendingBlocks       := []
    sendingData         := []
    inHand              := [] }

theorem swapCalls_withoutQueues : s.swapCalls.withoutQueues = s.withoutQueues := by
  unfold swapCalls
  split <;> rfl

theorem getFromPendingQueue_cases :
    s.swapCalls.swappedCalls = [] ∧ s.getFromPendingQueue = (s.swapCalls, [.emptyReleaseToken]) ∨
    ∃ m ms, s.swapCalls.swappedCalls = m :: ms ∧
      s.getFromPendingQueue = (s.swapCalls.takeMessage m ms, [.acquireWriteQuota m]) := by
  unfold getFromPendingQueue
  cases s.swapCalls.swappedCalls with
  | nil       => exact .inl ⟨rfl, rfl⟩
  | cons m ms => exact .inr ⟨m, ms, rfl, rfl⟩

theorem getFromPendingQueue_withoutQueues : s.getFromPendingQueue.1.withoutQueues = s.withoutQueues := by
  rcases getFromPendingQueue_cases (s := s) with ⟨_, heq⟩ | ⟨m, ms, _, heq⟩
  · rw [heq]
    exact swapCalls_withoutQueues
  · rw [heq]
    exact swapCalls_withoutQueues

theorem onWriteSome_cases {n : Nat} :
    (∃ b bs, n = s.sendingData.length ∧ s.sendingBlocks = b :: bs ∧
      s.onWriteSome n = ({ s with sendingData := b, sendingBlocks := bs }, [.asyncWriteSome])) ∨
    (n = s.sendingData.length ∧ s.sendingBlocks = [] ∧ s.onWriteSome n = (s, [.onSent])) ∨
    (n ≠ s.sendingData.length ∧
      s.onWriteSome n = ({ s with sendingData := s.sendingData.drop n }, [.asyncWriteSome])) := by
  unfold onWriteSome
  by_cases hn : n = s.sendingData.length
  · cases hblocks : s.sendingBlocks with
    | nil       => exact .inr (.inl ⟨hn, rfl, by simp [hn]⟩)
    | cons b bs => exact .inl ⟨b, bs, hn, rfl, by simp [hn]⟩
  · exact .inr (.inr ⟨hn, by simp [hn]⟩)

theorem onWriteSome_withoutQueues {n : Nat} : (s.onWriteSome n).1.withoutQueues = s.withoutQueues := by
  rcases onWriteSome_cases (s := s) (n := n) with ⟨b, bs, _, _, heq⟩ | ⟨_, _, heq⟩ | ⟨_, heq⟩
  · rw [heq]
    rfl
  · rw [heq]
  · rw [heq]
    rfl

end StreamThreads

end Gb
