import GbServer.Lib.Run
import GbServer.ReadBuffer
/-!
# KcpSend — the sending half of a message stream over KCP

`MessageStream` keeps the message being sent and what is left of its current block (`_sending_data`, `_sending_size`);
`KcpTransport` copies what it is given into `_out_buffer` and hands it to `ikcp_send` in chunks.  The calls between the
two are all in tail position, so a call returns where the next answer from outside is needed (`SendPc`), and `step`
takes that answer: the result of `ikcp_send`, a write quota, the calls an application makes between callbacks and
inside `on_sent`.  Everything runs on the thread of one `_io_service`.

`queued`, `accepted` and `reports` record what went in, what `ikcp_send` accepted and what `on_write_some` was told.
Left out: the counters and checks that only feed a log, and the receiving half (`KcpReceive`).
-/
namespace Gb

def kKcpMaxSegment : Nat := 1376

/-- A message on its way out, as the blocks that `Next` yields.  Every message has at least the block of its header. -/
structure OutMessage where
  blocks   : List (List UInt8)
  nonempty : blocks ≠ []
  small    : ∀ b ∈ blocks, b.length < 2 ^ 31

def OutMessage.bytes (m : OutMessage) : List UInt8 := m.blocks.flatten

inductive NetType
  | server
  | client
  deriving DecidableEq

inductive NetStatus
  | connecting
  | connected
  | closed
  deriving DecidableEq

/-- What a call waits for. -/
inductive SendPc
  | idle
  | ikcpSend (sentTotal : Nat)
  | onSent
  | fault
  deriving DecidableEq

/-- The sending fields of a `MessageStream` and its `KcpTransport`.  `sendingMessage` holds the blocks `Next` still
yields, `sendingData` the bytes from the pointer on. -/
structure KcpSender where
  status          : NetStatus
  pendingCalls    : List OutMessage
  swappedCalls    : List OutMessage
  writeQuotaToken : Int
  sendTokenLocked : Bool
  sendingMessage  : List (List UInt8)
  sendingData     : List UInt8
  sendingSize     : Int
  outBuffer       : List UInt8
  outHead         : Nat
  flushing        : Bool
  pc              : SendPc
  queued          : List UInt8
  accepted        : List UInt8
  reports         : List (Nat × Int)

namespace KcpSender

def init : KcpSender where
  status          := .connecting
  pendingCalls    := []
  swappedCalls    := []
  writeQuotaToken := 1
  sendTokenLocked := false
  sendingMessage  := []
  sendingData     := []
  sendingSize     := 0
  outBuffer       := []
  outHead         := 0
  flushing        := false
  pc              := .idle
  queued          := []
  accepted        := []
  reports         := []

/-- `FlushOutput` up to its first `ikcp_send`.  A closed transport has no `_kcp`, and neither has one not connected. -/
def flushOutput (s : KcpSender) : KcpSender :=
  if s.flushing ∨ s.status ≠ .connected then { s with pc := .idle }
  else if s.outHead < s.outBuffer.length then { s with flushing := true, pc := .ikcpSend 0 }
  else { s with pc := .idle }

/-- `async_write_some(_sending_data, _sending_size)`: the bytes must be there. -/
def asyncWriteSome (s : KcpSender) : KcpSender :=
  if toSizeT s.sendingSize ≤ s.sendingData.length then
    flushOutput { s with outBuffer := s.outBuffer ++ s.sendingData.take (toSizeT s.sendingSize) }
  else { s with pc := .fault }

/-- `_sending_message->Next(&_sending_data, &_sending_size)`, when there is a block. -/
def nextBlock (s : KcpSender) : Option KcpSender :=
  match s.sendingMessage with
  | b :: bs => some { s with sendingMessage := bs, sendingData := b, sendingSize := b.length }
  | []      => none

/-- `on_write_some` without an error, up to the callback `on_sent`. -/
def onWriteSome (s : KcpSender) (bytesTransferred : Nat) : KcpSender :=
  let s := { s with reports := s.reports ++ [(bytesTransferred, s.sendingSize)] }
  if s.status ≠ .connected then { s with pc := .idle }
  else if toInt32 bytesTransferred = s.sendingSize then
    match s.nextBlock with
    | some s => s.asyncWriteSome
    | none   => { s with pc := .onSent }
  else
    asyncWriteSome { s with
      sendingData := s.sendingData.drop bytesTransferred
      sendingSize := s.sendingSize - bytesTransferred }

/-- The loop of `FlushOutput` behind one `ikcp_send` of `chunk` bytes. -/
def afterIkcpSend (s : KcpSender) (sentTotal : Nat) (accepted : Bool) : KcpSender :=
  let chunk := min (s.outBuffer.length - s.outHead) kKcpMaxSegment
  if accepted then
    let s := { s with
      accepted := s.accepted ++ (s.outBuffer.drop s.outHead).take chunk
      outHead  := s.outHead + chunk }
    if s.outHead = s.outBuffer.length then
      onWriteSome { s with outBuffer := [], outHead := 0, flushing := false } (sentTotal + chunk)
    else { s with pc := .ikcpSend (sentTotal + chunk) }
  else if 0 < sentTotal then onWriteSome { s with flushing := false } sentTotal
  else { s with flushing := false, pc := .idle }

/-- `get_from_pending_queue`: the first message of `_swapped_calls`, once `_pending_calls` took its place if it was
empty. -/
def getFromPendingQueue (s : KcpSender) : Option OutMessage × KcpSender :=
  match s.swappedCalls, s.pendingCalls with
  | m :: ms, _       => (some m, { s with swappedCalls := ms })
  | [],      m :: ms => (some m, { s with swappedCalls := ms, pendingCalls := [] })
  | [],      []      => (none, s)

/-- `clear_sending_env`. -/
def clearSendingEnv (s : KcpSender) : KcpSender :=
  { s with sendingMessage := [], sendingData := [], sendingSize := 0 }

/-- `try_start_send`, where `acquire_write_quota` returns `quota`; `on_sending` of a `Session` always agrees. -/
def tryStartSend (s : KcpSender) (quota : Int) : KcpSender :=
  if s.sendTokenLocked ∨ s.writeQuotaToken ≤ 0 ∨ s.status ≠ .connected then s
  else
    match s.getFromPendingQueue with
    | (none, s)   => s
    | (some m, s) =>
      let s := { s with writeQuotaToken := quota }
      if quota ≤ 0 then clearSendingEnv { s with swappedCalls := m :: s.swappedCalls }
      else
        let s := { s with sendTokenLocked := true, sendingMessage := m.blocks }
        (s.nextBlock.getD s).asyncWriteSome

def asyncSendMessage (s : KcpSender) (m : OutMessage) (quota : Int) : KcpSender :=
  if s.status = .closed then s
  else tryStartSend { s with pendingCalls := s.pendingCalls ++ [m], queued := s.queued ++ m.bytes } quota

/-- `trigger_send`. -/
def triggerSend (s : KcpSender) (quota : Int) : KcpSender := tryStartSend { s with writeQuotaToken := 1 } quota

/-- `set_socket_connected`, of which a connection sees one. -/
def setSocketConnected (s : KcpSender) (quota : Int) : KcpSender :=
  if s.status = .connecting then triggerSend { s with status := .connected } quota else s

/-- `OnUpdate`. -/
def onUpdate (s : KcpSender) : KcpSender :=
  if s.status ≠ .closed ∧ s.outHead < s.outBuffer.length then s.flushOutput else s

/-- `on_write_some` behind `on_sent`. -/
def afterOnSent (s : KcpSender) (quota : Int) : KcpSender :=
  tryStartSend { s with sendTokenLocked := false, pc := .idle } quota

end KcpSender

/-- What the outside does: the calls of the event loop and of the application, and the answers a call waits for. -/
inductive SendInput
  | setSocketConnected (quota : Int)
  | asyncSendMessage (m : OutMessage) (quota : Int)
  | triggerSend (quota : Int)
  | close
  | onUpdate
  | ikcpSend (accepted : Bool)
  | onSentReturns (quota : Int)

namespace KcpSender

/-- Between callbacks and inside `on_sent` an application may send, trigger and close.  What the machine does not wait
for does not happen. -/
def step (s : KcpSender) (i : SendInput) : KcpSender :=
  match s.pc, i with
  | .ikcpSend sentTotal, .ikcpSend accepted => s.afterIkcpSend sentTotal accepted
  | .idle,   .setSocketConnected quota => s.setSocketConnected quota
  | .idle,   .onUpdate                 => s.onUpdate
  | .idle,   .asyncSendMessage m quota => s.asyncSendMessage m quota
  | .onSent, .asyncSendMessage m quota => s.asyncSendMessage m quota
  | .idle,   .triggerSend quota        => s.triggerSend quota
  | .onSent, .triggerSend quota        => s.triggerSend quota
  | .idle,   .close                    => { s with status := .closed }
  | .onSent, .close                    => { s with status := .closed }
  | .onSent, .onSentReturns quota      => s.afterOnSent quota
  | _,       _                         => s

def run (inputs : List SendInput) : KcpSender := inputs.foldl step init

/-- What `ikcp_send` accepted is a prefix of what was queued, and no report exceeds what was outstanding. -/
structure Intact (s : KcpSender) : Prop where
  prefix_ : s.accepted <+: s.queued
  reports : ∀ r ∈ s.reports, (r.1 : Int) ≤ r.2

/-- A refusal comes only before anything was accepted in its `FlushOutput`. -/
def Steady (s : KcpSender) (i : SendInput) : Prop :=
  match s.pc, i with
  | .ikcpSend sentTotal, .ikcpSend false => sentTotal = 0
  | _,                   _               => True

instance (s : KcpSender) (i : SendInput) : Decidable (s.Steady i) := by
  unfold Steady
  split <;> infer_instance

/-! ## The two records of what is unsent -/

/-- What is queued and not yet accepted, in the order it is to go out. -/
def unsent (s : KcpSender) : List UInt8 :=
  s.outBuffer.drop s.outHead ++ s.sendingMessage.flatten ++ s.swappedCalls.flatMap OutMessage.bytes ++
    s.pendingCalls.flatMap OutMessage.bytes

/-- Nothing is under way in the transport. -/
def Drained (s : KcpSender) : Prop := s.outBuffer = [] ∧ s.outHead = 0

/-- How the stream's record of the current block and the transport's agree where a call waits. -/
def Agree (s : KcpSender) : SendPc → Prop
  | .idle        => s.flushing = false ∧ (s.sendTokenLocked = false → s.Drained ∧ s.sendingMessage = []) ∧
    (s.sendTokenLocked = true → s.sendingSize = ((s.outBuffer.length - s.outHead : Nat) : Int))
  | .ikcpSend t  => s.sendTokenLocked = true ∧ s.status = .connected ∧ s.outHead < s.outBuffer.length ∧
    s.sendingSize = ((t + (s.outBuffer.length - s.outHead) : Nat) : Int)
  | .onSent      => s.flushing = false ∧ s.sendTokenLocked = true ∧ s.Drained ∧ s.sendingMessage = []
  | .fault       => False

/-- What does not depend on where a call waits: the message being sent is in bounds and the reports were. -/
structure Bounded (s : KcpSender) : Prop where
  reports : ∀ r ∈ s.reports, (r.1 : Int) ≤ r.2
  size    : s.sendingSize = s.sendingData.length
  data    : s.sendingData.length < 2 ^ 31
  small   : ∀ b ∈ s.sendingMessage, b.length < 2 ^ 31

structure Sound (s : KcpSender) : Prop extends s.Bounded where
  ledger : s.queued = s.accepted ++ s.unsent
  agree  : s.Agree s.pc

/-- A new block is in `_sending_data` and the transport has nothing left. -/
structure Loaded (s : KcpSender) : Prop extends s.Bounded where
  ledger   : s.queued = s.accepted ++ (s.sendingData ++ s.unsent)
  drained  : s.Drained
  flushing : s.flushing = false
  locked   : s.sendTokenLocked = true

theorem Sound.init : init.Sound where
  reports := by simp [KcpSender.init]
  size    := rfl
  data    := by decide
  small   := by simp [KcpSender.init]
  ledger  := rfl
  agree   := by simp [KcpSender.init, Agree, Drained]

theorem Sound.intact {s : KcpSender} (h : s.Sound) : s.Intact := ⟨⟨s.unsent, h.ledger.symm⟩, h.reports⟩

theorem flushOutput_sound {s : KcpSender} (hb : s.Bounded) (hl : s.queued = s.accepted ++ s.unsent)
    (ha : s.Agree .idle) : s.flushOutput.Sound := by
  rw [flushOutput]
  split
  · exact ⟨⟨hb.reports, hb.size, hb.data, hb.small⟩, hl, ha⟩
  · rename_i hgo
    split
    · rename_i hlt
      have hlocked : s.sendTokenLocked = true := by
        cases hf : s.sendTokenLocked with
        | true  => rfl
        | false =>
          obtain ⟨⟨hbuf, -⟩, -⟩ := ha.2.1 hf
          rw [hbuf] at hlt
          exact absurd hlt (Nat.not_lt_zero _)
      refine ⟨⟨hb.reports, hb.size, hb.data, hb.small⟩, hl, hlocked, ?_, hlt, ?_⟩
      · exact Decidable.not_not.1 fun h => hgo (Or.inr h)
      · rw [Nat.zero_add]
        exact ha.2.2 hlocked
    · exact ⟨⟨hb.reports, hb.size, hb.data, hb.small⟩, hl, ha⟩

theorem Loaded.asyncWriteSome {s : KcpSender} (h : s.Loaded) : s.asyncWriteSome.Sound := by
  obtain ⟨hbuf, hhead⟩ := h.drained
  have hn : toSizeT s.sendingSize = s.sendingData.length := by
    have hd := h.data
    have := toSizeT_of_range s.sendingSize (by rw [h.size]; omega) (by rw [h.size]; omega)
    rw [h.size] at this ⊢
    omega
  rw [KcpSender.asyncWriteSome, if_pos (Nat.le_of_eq hn)]
  refine flushOutput_sound ⟨h.reports, h.size, h.data, h.small⟩ ?_ ?_
  · rw [h.ledger, hn, List.take_length]
    simp [unsent, hbuf, hhead]
  · refine ⟨h.flushing, fun hf => absurd (h.locked.symm.trans hf) (by decide), fun _ => ?_⟩
    rw [hn, List.take_length]
    simp [hbuf, hhead, h.size]

theorem nextBlock_eq_none {s : KcpSender} (h : s.sendingMessage = []) : s.nextBlock = none := by
  rw [nextBlock, h]

/-- The next block of a message whose last one is out. -/
theorem nextBlock_loaded {s : KcpSender} (hb : s.Bounded) (hl : s.queued = s.accepted ++ s.unsent) (hd : s.Drained)
    (hf : s.flushing = false) (hlocked : s.sendTokenLocked = true) {b : List UInt8} {bs : List (List UInt8)}
    (hm : s.sendingMessage = b :: bs) : ∃ s', s.nextBlock = some s' ∧ s'.Loaded := by
  have hsmall := hb.small
  rw [hm] at hsmall
  rw [nextBlock, hm]
  refine ⟨_, rfl, ⟨hb.reports, rfl, hsmall b List.mem_cons_self, fun c hc => hsmall c (List.mem_cons_of_mem b hc)⟩, ?_,
    hd, hf, hlocked⟩
  rw [hl]
  simp [unsent, hm, hd.1]

/-- `on_write_some` when the whole of the current block went out. -/
theorem onWriteSome_sound {s : KcpSender} (hb : s.Bounded) (hl : s.queued = s.accepted ++ s.unsent) (hd : s.Drained)
    (hf : s.flushing = false) (hlocked : s.sendTokenLocked = true) (hc : s.status = .connected) (n : Nat)
    (hn : (n : Int) = s.sendingSize) : (s.onWriteSome n).Sound := by
  have hlt : (n : Int) < 2 ^ 31 := by
    have := hb.data
    rw [hn, hb.size]
    omega
  have hbounded : Bounded { s with reports := s.reports ++ [(n, s.sendingSize)] } := by
    refine ⟨fun r hr => ?_, hb.size, hb.data, hb.small⟩
    rcases List.mem_append.1 hr with hr | hr
    · exact hb.reports r hr
    · rw [List.mem_singleton.1 hr]
      exact Int.le_of_eq hn
  rw [onWriteSome]
  simp only
  rw [if_neg (by simpa using hc), toInt32_of_range n (by omega) hlt, if_pos hn]
  by_cases hm : s.sendingMessage = []
  · have hnone := @nextBlock_eq_none { s with reports := s.reports ++ [(n, s.sendingSize)] } hm
    rw [hnone]
    exact ⟨⟨hbounded.reports, hb.size, hb.data, hb.small⟩, hl, hf, hlocked, hd, hm⟩
  · obtain ⟨b, bs, hm⟩ := List.exists_cons_of_ne_nil hm
    obtain ⟨s', hs', hloaded⟩ := nextBlock_loaded hbounded hl hd hf hlocked hm
    rw [hs']
    exact hloaded.asyncWriteSome

theorem afterIkcpSend_sound {s : KcpSender} (h : s.Sound) (t : Nat) (hpc : s.pc = .ikcpSend t) (accepted : Bool)
    (hsteady : accepted = false → t = 0) : (s.afterIkcpSend t accepted).Sound := by
  have ha := h.agree
  rw [hpc] at ha
  obtain ⟨hlocked, hc, hlt, hsize⟩ := ha
  rw [afterIkcpSend]
  cases accepted with
  | true =>
    simp only [if_true]
    generalize hchunk : min (s.outBuffer.length - s.outHead) kKcpMaxSegment = chunk
    have hle : chunk ≤ s.outBuffer.length - s.outHead := hchunk ▸ Nat.min_le_left _ _
    have hpos : 0 < chunk := by
      rw [← hchunk]
      exact Nat.lt_min.2 ⟨Nat.sub_pos_of_lt hlt, by decide⟩
    -- the chunk moves from the unsent bytes to the accepted ones
    have hmove : (s.outBuffer.drop s.outHead).take chunk ++ s.outBuffer.drop (s.outHead + chunk) =
        s.outBuffer.drop s.outHead := by
      rw [← List.drop_drop, List.take_append_drop]
    split
    · rename_i hend
      refine @onWriteSome_sound { s with
        accepted := s.accepted ++ (s.outBuffer.drop s.outHead).take chunk, outBuffer := [], outHead := 0,
        flushing := false } ⟨h.reports, h.size, h.data, h.small⟩ ?_ ⟨rfl, rfl⟩ rfl hlocked hc _ ?_
      · show s.queued = _
        rw [h.ledger]
        rw [hend, List.drop_length, List.append_nil] at hmove
        simp only [unsent, hmove, List.drop_nil, List.nil_append, List.append_assoc]
      · show ((t + chunk : Nat) : Int) = s.sendingSize
        rw [hsize]
        omega
    · rename_i hend
      refine ⟨⟨h.reports, h.size, h.data, h.small⟩, ?_, hlocked, hc, ?_, ?_⟩
      · rw [h.ledger]
        simp only [unsent, List.append_assoc]
        rw [← List.append_assoc (List.take _ _), hmove]
      · show s.outHead + chunk < s.outBuffer.length
        omega
      · show s.sendingSize = ((t + chunk + (s.outBuffer.length - (s.outHead + chunk)) : Nat) : Int)
        rw [hsize]
        omega
  | false =>
    rw [hsteady rfl] at hsize ⊢
    rw [if_neg (by decide), if_neg (by decide)]
    refine ⟨⟨h.reports, h.size, h.data, h.small⟩, h.ledger, rfl, fun hf => absurd (hlocked.symm.trans hf) (by decide),
      fun _ => ?_⟩
    rw [Nat.zero_add] at hsize
    exact hsize

/-- The queue is empty, or its first message comes out of it. -/
theorem getFromPendingQueue_cases (s : KcpSender) : s.getFromPendingQueue = (none, s) ∨
    ∃ m ms ps, s.getFromPendingQueue = (some m, { s with swappedCalls := ms, pendingCalls := ps }) ∧
      s.swappedCalls.flatMap OutMessage.bytes ++ s.pendingCalls.flatMap OutMessage.bytes =
        m.bytes ++ (ms.flatMap OutMessage.bytes ++ ps.flatMap OutMessage.bytes) := by
  unfold getFromPendingQueue
  split
  · rename_i m ms hs
    exact Or.inr ⟨m, ms, s.pendingCalls, rfl, by rw [hs, List.flatMap_cons, List.append_assoc]⟩
  · rename_i m ms hs hp
    exact Or.inr ⟨m, ms, [], rfl, by rw [hs, hp]; simp⟩
  · exact Or.inl rfl

theorem tryStartSend_sound {s : KcpSender} (h : s.Sound) (hpc : s.pc = .idle ∨ s.pc = .onSent) (quota : Int) :
    (s.tryStartSend quota).Sound := by
  rw [tryStartSend]
  split
  · exact h
  · rename_i hgo
    have hfree : s.sendTokenLocked = false := by
      cases hf : s.sendTokenLocked with
      | true  => exact absurd (Or.inl hf) hgo
      | false => rfl
    have ha := h.agree
    rcases hpc with hpc | hpc
    · rw [hpc] at ha
      obtain ⟨hflush, hdone, -⟩ := ha
      obtain ⟨hd, hm⟩ := hdone hfree
      have hunsent : s.unsent = s.swappedCalls.flatMap OutMessage.bytes ++ s.pendingCalls.flatMap OutMessage.bytes := by
        simp [unsent, hd.1, hm]
      rcases getFromPendingQueue_cases s with hnone | ⟨m, ms, ps, hsome, hbytes⟩
      · rw [hnone]
        exact h
      · rw [hsome]
        simp only
        split
        · -- without a quota the message goes back to where it was
          refine ⟨⟨h.reports, rfl, Nat.two_pow_pos 31, fun b hb => absurd hb List.not_mem_nil⟩, ?_, ?_⟩
          · show s.queued = s.accepted ++ _
            rw [h.ledger, hunsent, hbytes]
            simp [unsent, clearSendingEnv, hd.1]
          · show Agree _ s.pc
            rw [hpc]
            exact ⟨hflush, fun _ => ⟨hd, rfl⟩, fun hl => absurd (hfree.symm.trans hl) (by decide)⟩
        · obtain ⟨b, bs, hblocks⟩ := List.exists_cons_of_ne_nil m.nonempty
          obtain ⟨s', hs', hloaded⟩ := @nextBlock_loaded { s with
            swappedCalls := ms, pendingCalls := ps, writeQuotaToken := quota, sendTokenLocked := true,
            sendingMessage := m.blocks } ⟨h.reports, h.size, h.data, m.small⟩ (by
              show s.queued = s.accepted ++ _
              rw [h.ledger, hunsent, hbytes]
              simp [unsent, hd.1, OutMessage.bytes]) hd hflush rfl b bs hblocks
          rw [hs']
          exact hloaded.asyncWriteSome
    · rw [hpc] at ha
      exact absurd (hfree.symm.trans ha.2.1) (by decide)

theorem asyncSendMessage_sound {s : KcpSender} (h : s.Sound) (hpc : s.pc = .idle ∨ s.pc = .onSent) (m : OutMessage)
    (quota : Int) : (s.asyncSendMessage m quota).Sound := by
  rw [asyncSendMessage]
  split
  · exact h
  · refine @tryStartSend_sound { s with
      pendingCalls := s.pendingCalls ++ [m], queued := s.queued ++ m.bytes }
      ⟨⟨h.reports, h.size, h.data, h.small⟩, ?_, h.agree⟩ hpc quota
    show s.queued ++ m.bytes = s.accepted ++ _
    rw [h.ledger]
    simp [unsent]

theorem triggerSend_sound {s : KcpSender} (h : s.Sound) (hpc : s.pc = .idle ∨ s.pc = .onSent) (quota : Int) :
    (s.triggerSend quota).Sound :=
  @tryStartSend_sound { s with writeQuotaToken := 1 } ⟨⟨h.reports, h.size, h.data, h.small⟩, h.ledger, h.agree⟩ hpc quota

/-- `Agree` asks for a connection only inside `FlushOutput`. -/
theorem Sound.withStatus {s : KcpSender} (h : s.Sound) (hpc : s.pc = .idle ∨ s.pc = .onSent) (status : NetStatus) :
    Sound { s with status := status } := by
  refine ⟨⟨h.reports, h.size, h.data, h.small⟩, h.ledger, ?_⟩
  have ha := h.agree
  show Agree _ s.pc
  rcases hpc with hpc | hpc
  · rw [hpc] at ha ⊢
    exact ha
  · rw [hpc] at ha ⊢
    exact ha

theorem onUpdate_sound {s : KcpSender} (h : s.Sound) (hpc : s.pc = .idle) : s.onUpdate.Sound := by
  rw [onUpdate]
  split
  · have ha := h.agree
    rw [hpc] at ha
    exact flushOutput_sound h.toBounded h.ledger ha
  · exact h

theorem afterOnSent_sound {s : KcpSender} (h : s.Sound) (hpc : s.pc = .onSent) (quota : Int) :
    (s.afterOnSent quota).Sound := by
  have ha := h.agree
  rw [hpc] at ha
  obtain ⟨hflush, -, hd, hm⟩ := ha
  refine @tryStartSend_sound { s with sendTokenLocked := false, pc := .idle }
    ⟨⟨h.reports, h.size, h.data, h.small⟩, h.ledger, ?_⟩ (Or.inl rfl) quota
  exact ⟨hflush, fun _ => ⟨hd, hm⟩, fun hl => Bool.noConfusion hl⟩

/-- **A steady step keeps both records in agreement.** -/
theorem Sound.step {s : KcpSender} (h : s.Sound) (i : SendInput) (hsteady : s.Steady i) : (s.step i).Sound := by
  unfold KcpSender.step
  split
  · rename_i t accepted hpc
    refine afterIkcpSend_sound h t hpc accepted fun ha => ?_
    unfold Steady at hsteady
    rw [hpc, ha] at hsteady
    exact hsteady
  · rename_i quota hpc
    rw [setSocketConnected]
    split
    · exact @triggerSend_sound { s with status := .connected } (h.withStatus (Or.inl hpc) .connected) (Or.inl hpc) quota
    · exact h
  · rename_i hpc
    exact onUpdate_sound h hpc
  · rename_i hpc
    exact asyncSendMessage_sound h (Or.inl hpc) _ _
  · rename_i hpc
    exact asyncSendMessage_sound h (Or.inr hpc) _ _
  · rename_i hpc
    exact triggerSend_sound h (Or.inl hpc) _
  · rename_i hpc
    exact triggerSend_sound h (Or.inr hpc) _
  · rename_i hpc
    exact h.withStatus (Or.inl hpc) _
  · rename_i hpc
    exact h.withStatus (Or.inr hpc) _
  · rename_i hpc
    exact afterOnSent_sound h hpc _
  · exact h

/-- **Without a refusal halfway through a flush nothing is lost, sent twice or sent out of order**, in any run. -/
theorem run_intact (inputs : List SendInput) (hsteady : Run.Along step Steady init inputs) : (run inputs).Intact :=
  (@Run.foldl_inv _ _ step Steady Sound (fun _ i h hs => h.step i hs) inputs init Sound.init hsteady).intact

/-- A message of `WriteBuffer`'s first two blocks, the second one byte longer than a chunk. -/
def twoBlocks : OutMessage where
  blocks   := [List.replicate 1016 0, List.replicate 1377 0]
  nonempty := List.cons_ne_nil _ _
  small    := by
    intro b hb
    rcases List.mem_cons.1 hb with rfl | hb
    · rw [List.length_replicate]
      decide
    · rw [List.mem_singleton.1 hb, List.length_replicate]
      decide

/-- The window is full before each block, and open at the next update. -/
theorem run_intact_refused_first :
    (run [.setSocketConnected 1, .asyncSendMessage twoBlocks 1, .ikcpSend false, .onUpdate, .ikcpSend true,
      .ikcpSend false, .onUpdate, .ikcpSend true, .ikcpSend true, .onSentReturns 1]).Intact :=
  run_intact _ (by decide +kernel)

/-- The window closes between the two chunks of a block: the last byte is put into `_out_buffer` a second time, and the
next update reports both to `on_write_some`, which waits for one. -/
theorem not_intact_refused_second :
    let s := run [.setSocketConnected 1, .asyncSendMessage twoBlocks 1, .ikcpSend true, .ikcpSend true,
      .ikcpSend false, .ikcpSend false, .onUpdate, .ikcpSend true]
    ¬ s.accepted <+: s.queued ∧ ¬ ∀ r ∈ s.reports, (r.1 : Int) ≤ r.2 := by
  refine ⟨fun h => ?_, by decide +kernel⟩
  exact absurd h.length_le (by decide +kernel)

end KcpSender
end Gb
