import GbServer.Lib.Run
import GbServer.StreamFrames
/-!
# ReceiveLoop — reading, delivering, and reading again from inside

`on_read_some` asks for the next read before it delivers what it has split off.  A TCP or SSL transport completes that
read later, from the event loop; `KcpTransport` completes it inside `async_read_some` when `_in_buffer` still holds
bytes, so another `on_read_some` runs to its end inside the first one.  The calls of `on_read_some` that have messages
to deliver form a stack (`Activation`), innermost first, and `step` takes what comes from outside: bytes, quotas, what
an application does inside `on_received`.

`arrived` records the bytes that came from the peer, `handed` those that `on_read_some` was given and `delivered` what
`on_received` was called with.
-/
namespace Gb

open Framing (feed)

inductive TransportType
  | tcp
  | ssl
  | kcp
  deriving DecidableEq

/-- What `on_received` is called with. -/
structure Delivery where
  metaSize : Int
  dataSize : Int
  message  : Option (List UInt8)
  deriving DecidableEq

/-- A call of `on_read_some` that delivers: what is left of its `received_message`, and whether it is in a callback. -/
structure Activation where
  receivedMessage : List ReceivedItem
  inOnReceived    : Bool

/-- Inside `try_start_receive`, or in the loops of the stack and the code around them, or in a splitter that does not
return. -/
inductive RecvPc
  | tryStartReceive
  | running
  | stuck
  deriving DecidableEq

/-- The receiving fields of a connected `MessageStream` and its transport. -/
structure Receiver where
  transportType      : TransportType
  stream             : Recv
  closed             : Bool
  readQuotaToken     : Int
  receiveTokenLocked : Bool
  inBuffer           : List UInt8
  inHead             : Nat
  pendingRead        : Option Nat
  stack              : List Activation
  pc                 : RecvPc
  arrived            : List UInt8
  handed             : List UInt8
  delivered          : List Delivery

namespace Receiver

variable {mallocOk : Bool}

/-- A stream in `set_socket_connected`, with its first block, before `trigger_receive`. -/
def connected (transportType : TransportType) (factor : BlockFactor) : Receiver where
  transportType      := transportType
  stream             := ((Recv.init factor).onConnected true).2
  closed             := false
  readQuotaToken     := 1
  receiveTokenLocked := false
  inBuffer           := []
  inHead             := 0
  pendingRead        := none
  stack              := []
  pc                 := .tryStartReceive
  arrived            := []
  handed             := []
  delivered          := []

/-- `on_read_some` up to `try_start_receive`. -/
def onReadSome (s : Receiver) (bs : List UInt8) (mallocOk : Bool) : Receiver :=
  if s.closed then { s with pc := .running }
  else
    let s := { s with handed := s.handed ++ bs }
    match (s.stream.arrive bs).onReadSome bs.length mallocOk (2 * bs.length + 1) with
    | .received stream items =>
      { s with stream := stream, receiveTokenLocked := false, stack := ⟨items, false⟩ :: s.stack, pc := .tryStartReceive }
    | .closed _ stream => { s with stream := stream, closed := true, pc := .running }
    | _ => { s with pc := .stuck }

/-- The bytes that `async_read_some(_receiving_data, _receiving_size)` hands back before it returns. -/
def available (s : Receiver) : List UInt8 :=
  if s.transportType = .kcp then (s.inBuffer.drop s.inHead).take s.stream.receivingSize else []

/-- The first `n` bytes of `_in_buffer` behind `_in_head` are read. -/
def takeInput (s : Receiver) (n : Nat) : Receiver :=
  if s.inHead + n = s.inBuffer.length then { s with inBuffer := [], inHead := 0 }
  else { s with inHead := s.inHead + n }

def asyncReadSome (s : Receiver) (mallocOk : Bool) : Receiver :=
  if s.transportType = .kcp ∧ s.inHead < s.inBuffer.length then
    (s.takeInput s.available.length).onReadSome s.available mallocOk
  else { s with pendingRead := some s.stream.receivingSize, pc := .running }

/-- Whether `try_start_receive` comes to `async_read_some`: the token is free, there is a quota, a server is not
overloaded with messages to send, and the stream is connected. -/
def StartsRead (s : Receiver) (overloaded : Bool) (quota : Int) : Prop :=
  s.receiveTokenLocked = false ∧ 0 < s.readQuotaToken ∧ overloaded = false ∧ s.closed = false ∧ 0 < quota

instance (s : Receiver) (overloaded : Bool) (quota : Int) : Decidable (s.StartsRead overloaded quota) := by
  unfold StartsRead
  infer_instance

/-- `try_start_receive`, where `acquire_read_quota` returns `quota`. -/
def tryStartReceive (s : Receiver) (overloaded : Bool) (quota : Int) (mallocOk : Bool) : Receiver :=
  if s.receiveTokenLocked ∨ s.readQuotaToken ≤ 0 ∨ overloaded ∨ s.closed then { s with pc := .running }
  else if quota ≤ 0 then { s with readQuotaToken := quota, pc := .running }
  else asyncReadSome { s with readQuotaToken := quota, receiveTokenLocked := true } mallocOk

/-- The completion of an `async_read_some` on a socket, with as many bytes as there are, one at least. -/
def completeRead (s : Receiver) (bs : List UInt8) (mallocOk : Bool) : Receiver :=
  match s.pendingRead with
  | some size =>
    if s.transportType ≠ .kcp ∧ 0 < bs.length ∧ bs.length ≤ size then
      onReadSome { s with arrived := s.arrived ++ bs, pendingRead := none } bs mallocOk
    else s
  | none => s

/-- `TryDeliverRead`. -/
def tryDeliverRead (s : Receiver) (mallocOk : Bool) : Receiver :=
  match s.pendingRead with
  | some size =>
    if s.inHead < s.inBuffer.length then
      let bs := (s.inBuffer.drop s.inHead).take size
      onReadSome ({ s with pendingRead := none }.takeInput bs.length) bs mallocOk
    else s
  | none => s

/-- `DrainInput`, when `ikcp_recv` yields `bs` in all. -/
def drainInput (s : Receiver) (bs : List UInt8) (mallocOk : Bool) : Receiver :=
  if s.transportType = .kcp ∧ s.closed = false then
    tryDeliverRead { s with arrived := s.arrived ++ bs, inBuffer := s.inBuffer ++ bs } mallocOk
  else s

/-- The head of the delivering loop of the innermost call. -/
def deliver (s : Receiver) : Receiver :=
  match s.stack with
  | ⟨i :: items, false⟩ :: stack =>
    if s.closed then { s with stack := stack }
    else
      { s with
        stack     := ⟨items, true⟩ :: stack
        delivered := s.delivered ++ [⟨i.metaSize, i.dataSize, i.message.toString s.stream.pool⟩] }
  | ⟨[], false⟩ :: stack => { s with stack := stack }
  | _ => s

/-- `on_received` returns. -/
def onReceivedReturns (s : Receiver) : Receiver :=
  match s.stack with
  | ⟨items, true⟩ :: stack => { s with stack := ⟨items, false⟩ :: stack }
  | _                      => s

/-- Code outside the loops runs: the event loop, or an application inside `on_received`. -/
def outside (s : Receiver) : Bool :=
  match s.stack with
  | []     => true
  | a :: _ => a.inOnReceived

end Receiver

/-- What the outside does.  A server tries to receive, too, when a message is sent. -/
inductive RecvInput
  | tryStartReceive (overloaded : Bool) (quota : Int) (mallocOk : Bool)
  | deliver
  | onReceivedReturns
  | triggerReceive
  | messageSent
  | close
  | completeRead (bs : List UInt8) (mallocOk : Bool)
  | drainInput (bs : List UInt8) (mallocOk : Bool)

namespace Receiver

def step (s : Receiver) (i : RecvInput) : Receiver :=
  match s.pc, i with
  | .tryStartReceive, .tryStartReceive overloaded quota mallocOk => s.tryStartReceive overloaded quota mallocOk
  | .running, .deliver            => s.deliver
  | .running, .onReceivedReturns  => s.onReceivedReturns
  | .running, .triggerReceive     => if s.outside then { s with readQuotaToken := 1, pc := .tryStartReceive } else s
  | .running, .messageSent        => if s.outside then { s with pc := .tryStartReceive } else s
  | .running, .close              => if s.outside then { s with closed := true } else s
  | .running, .completeRead bs ok => if s.stack.isEmpty then s.completeRead bs ok else s
  | .running, .drainInput bs ok   => if s.stack.isEmpty then s.drainInput bs ok else s
  | _,        _                   => s

def run (transportType : TransportType) (factor : BlockFactor) (inputs : List RecvInput) : Receiver :=
  inputs.foldl step (connected transportType factor)

/-- The messages that wait in some call of `on_read_some`, innermost call first. -/
def waiting (s : Receiver) : List ReceivedItem := s.stack.flatMap Activation.receivedMessage

/-- `bs` behind `handed` ends no frame of the stream. -/
def EndsNoFrame (handed bs : List UInt8) : Prop := (feed streamFormat (feed streamFormat (.header []) handed).1 bs).2 = []

instance (handed bs : List UInt8) : Decidable (EndsNoFrame handed bs) :=
  decidable_of_iff _ List.isEmpty_iff

/-- While a message waits for `on_received`, no read that ends a frame completes inside `async_read_some`. -/
def Orderly (s : Receiver) (i : RecvInput) : Prop :=
  match s.pc, i with
  | .tryStartReceive, .tryStartReceive overloaded quota _ =>
    s.StartsRead overloaded quota → s.waiting.isEmpty ∨ EndsNoFrame s.handed s.available
  | _,                _                                   => True

instance (s : Receiver) (i : RecvInput) : Decidable (s.Orderly i) := by
  unfold Orderly
  split <;> infer_instance

/-! ## What arrived stays arrived -/

@[simp] theorem onReadSome_arrived (s : Receiver) (bs : List UInt8) (ok : Bool) :
    (s.onReadSome bs ok).arrived = s.arrived := by
  unfold onReadSome
  split
  · rfl
  · dsimp only
    split <;> rfl

@[simp] theorem takeInput_arrived (s : Receiver) (n : Nat) : (s.takeInput n).arrived = s.arrived := by
  unfold takeInput
  split <;> rfl

theorem asyncReadSome_arrived (s : Receiver) (ok : Bool) : (s.asyncReadSome ok).arrived = s.arrived := by
  unfold asyncReadSome
  split
  · rw [onReadSome_arrived, takeInput_arrived]
  · rfl

theorem tryStartReceive_arrived (s : Receiver) (o : Bool) (q : Int) (ok : Bool) :
    (s.tryStartReceive o q ok).arrived = s.arrived := by
  unfold tryStartReceive
  split
  · rfl
  · split
    · rfl
    · rw [asyncReadSome_arrived]

theorem tryDeliverRead_arrived (s : Receiver) (ok : Bool) : (s.tryDeliverRead ok).arrived = s.arrived := by
  unfold tryDeliverRead
  split
  · split
    · rw [onReadSome_arrived, takeInput_arrived]
    · rfl
  · rfl

theorem step_arrived (s : Receiver) (i : RecvInput) : s.arrived <+: (s.step i).arrived := by
  unfold step
  split
  · exact ⟨[], by rw [List.append_nil, tryStartReceive_arrived]⟩
  · unfold deliver
    split
    · split <;> exact List.prefix_refl _
    · exact List.prefix_refl _
    · exact List.prefix_refl _
  · unfold onReceivedReturns
    split <;> exact List.prefix_refl _
  · split <;> exact List.prefix_refl _
  · split <;> exact List.prefix_refl _
  · split <;> exact List.prefix_refl _
  · split
    · unfold completeRead
      split
      · split
        · rw [onReadSome_arrived]
          exact List.prefix_append _ _
        · exact List.prefix_refl _
      · exact List.prefix_refl _
    · exact List.prefix_refl _
  · split
    · unfold drainInput
      split
      · rw [tryDeliverRead_arrived]
        exact List.prefix_append _ _
      · exact List.prefix_refl _
    · exact List.prefix_refl _
  · exact List.prefix_refl _

/-! ## The messages that wait -/

/-- The reader on what was handed to the stream. -/
def reader (s : Receiver) : StreamState × List (MessageHeader × List UInt8) := feed streamFormat (.header []) s.handed

/-- What `on_received` is to be called with for a frame of the reader. -/
def delivery (o : MessageHeader × List UInt8) : Delivery := ⟨o.1.metaSize, o.1.dataSize, some o.2⟩

/-- An open stream whose frames are the messages delivered and then the messages that wait. -/
structure InOrder (s : Receiver) (done : List ReceivedItem) : Prop where
  stream    : s.stream.Open s.reader.1 (done ++ s.waiting) s.reader.2
  delivered : s.delivered = (s.reader.2.take done.length).map delivery

/-- With what the transport holds: the bytes behind those handed over, and the place of a read under way. -/
structure Live (s : Receiver) (done : List ReceivedItem) : Prop extends s.InOrder done where
  arrived   : s.arrived = s.handed ++ s.inBuffer.drop s.inHead
  head      : s.inHead ≤ s.inBuffer.length
  pending   : ∀ size, s.pendingRead = some size → s.receiveTokenLocked = true ∧ size = s.stream.receivingSize
  input     : s.transportType ≠ .kcp → s.inBuffer = []

/-- What holds between two inputs. -/
structure Sound (s : Receiver) : Prop where
  live    : s.closed = false → ∃ done, s.Live done
  ordered : ∃ n, s.delivered = (s.reader.2.take n).map delivery
  handed  : s.handed <+: s.arrived
  returns : s.pc ≠ .stuck

theorem InOrder.length {s : Receiver} {done : List ReceivedItem} (h : s.InOrder done) :
    done.length + s.waiting.length = s.reader.2.length := by
  rw [← List.length_append]
  exact h.stream.frames.length_eq

/-- Where a read hands the stream back, a failing allocation closes it and changes nothing else. -/
theorem onReadSome_mallocOk {s s' : Recv} {n fuel : Nat} {items : List ReceivedItem}
    (h : s.onReadSome n true fuel = .received s' items) (mallocOk : Bool) :
    s.onReadSome n mallocOk fuel = .received s' items ∨ ∃ reason t, s.onReadSome n mallocOk fuel = .closed reason t := by
  cases mallocOk with
  | true  => exact Or.inl h
  | false =>
    cases hrun : splitRun fuel (splitCall s s.receivingData n) with
    | next d => rw [Recv.onReadSome, hrun] at h; cases h
    | fault => rw [Recv.onReadSome, hrun] at h; cases h
    | ret ok c =>
      cases ok with
      | false => exact Or.inr ⟨_, _, Recv.onReadSome_refused false hrun⟩
      | true =>
        rw [Recv.onReadSome_ret true hrun] at h
        rw [Recv.onReadSome_ret false hrun]
        split
        · split
          · rename_i hreset
            simp [Recv.resetTranBuf, TranBufPool.malloc] at hreset
          · exact Or.inr ⟨_, _, rfl⟩
        · rename_i hroom
          rw [if_neg hroom] at h
          exact Or.inl h

/-- **A read that overtakes no message keeps the order.** -/
theorem InOrder.onReadSome {s : Receiver} {done : List ReceivedItem} (h : s.InOrder done) (hopen : s.closed = false)
    (hnone : s.pendingRead = none) (hinput : s.transportType ≠ .kcp → s.inBuffer = [])
    (hhead : s.inHead ≤ s.inBuffer.length) {bs : List UInt8}
    (hfit : bs.length ≤ s.stream.receivingSize) (harr : s.arrived = s.handed ++ bs ++ s.inBuffer.drop s.inHead)
    (hok : ∀ e, (feed streamFormat (.header []) (s.handed ++ bs)).1 ≠ .failed e)
    (horder : s.waiting = [] ∨ EndsNoFrame s.handed bs) (mallocOk : Bool) : (s.onReadSome bs mallocOk).Sound := by
  have hfeed : feed streamFormat (.header []) (s.handed ++ bs) =
      ((feed streamFormat s.reader.1 bs).1, s.reader.2 ++ (feed streamFormat s.reader.1 bs).2) :=
    Framing.feed_append streamFormat (.header []) s.handed bs
  have hle : done.length ≤ s.reader.2.length := by
    have := h.length
    omega
  -- the frames that end among the new bytes come behind those delivered
  have hdelivered : s.delivered =
      ((feed streamFormat (.header []) (s.handed ++ bs)).2.take done.length).map delivery := by
    rw [hfeed, h.delivered]
    exact congrArg (List.map delivery) (List.take_append_of_le_length hle).symm
  have hhanded : s.handed ++ bs <+: s.arrived := harr ▸ List.prefix_append _ _
  rw [hfeed] at hok
  rcases h.stream.onRead bs hfit (fun k => hok _) with ⟨stream, items, hread, hstream, -, -⟩ | ⟨-, hbad⟩
  · rw [Receiver.onReadSome, if_neg (by rw [hopen]; decide)]
    dsimp only
    rcases onReadSome_mallocOk hread mallocOk with hres | ⟨reason, t, hres⟩
    · rw [hres]
      refine ⟨fun _ => ⟨done, ⟨?_, hdelivered⟩, harr, hhead, fun size hsize => ?_, hinput⟩, ⟨_, hdelivered⟩,
        hhanded, RecvPc.noConfusion⟩
      · -- no message waits, or none is new
        have hwait : done ++ s.waiting ++ items = done ++ (items ++ s.waiting) := by
          rcases horder with hw | hw
          · rw [hw, List.append_nil, List.append_nil]
          · have h1 := hstream.frames.length_eq
            have h2 := h.length
            have h3 : (feed streamFormat s.reader.1 bs).2 = [] := hw
            rw [h3] at h1
            simp only [List.length_append, List.length_nil] at h1
            have h4 : items = [] := List.eq_nil_of_length_eq_zero (by omega)
            rw [h4, List.append_nil, List.nil_append]
        rw [hwait] at hstream
        show stream.Open (feed streamFormat (.header []) (s.handed ++ bs)).1 (done ++ (items ++ s.waiting))
          (feed streamFormat (.header []) (s.handed ++ bs)).2
        rw [hfeed]
        exact hstream
      · cases hnone.symm.trans hsize
    · rw [hres]
      exact ⟨fun hc => Bool.noConfusion hc, ⟨_, hdelivered⟩, hhanded, RecvPc.noConfusion⟩
  · exact absurd hbad (hok _)

theorem drop_takeInput (s : Receiver) (n : Nat) :
    (s.takeInput n).inBuffer.drop (s.takeInput n).inHead = (s.inBuffer.drop s.inHead).drop n := by
  unfold takeInput
  split
  · rename_i hall
    rw [List.drop_drop, hall]
    simp
  · rw [List.drop_drop]

theorem takeInput_head (s : Receiver) {n : Nat} (hn : n ≤ s.inBuffer.length - s.inHead)
    (hhead : s.inHead ≤ s.inBuffer.length) : (s.takeInput n).inHead ≤ (s.takeInput n).inBuffer.length := by
  unfold takeInput
  split
  · exact Nat.zero_le _
  · show s.inHead + n ≤ s.inBuffer.length
    omega

theorem InOrder.takeInput {s : Receiver} {done : List ReceivedItem} (h : s.InOrder done) (n : Nat) :
    (s.takeInput n).InOrder done := by
  unfold Receiver.takeInput
  split
  · exact ⟨h.stream, h.delivered⟩
  · exact ⟨h.stream, h.delivered⟩

theorem takeInput_fields (s : Receiver) (n : Nat) : (s.takeInput n).closed = s.closed ∧
    (s.takeInput n).pendingRead = s.pendingRead ∧ (s.takeInput n).transportType = s.transportType ∧
    (s.takeInput n).stream = s.stream ∧ (s.takeInput n).handed = s.handed ∧ (s.takeInput n).waiting = s.waiting := by
  unfold takeInput
  split
  · exact ⟨rfl, rfl, rfl, rfl, rfl, rfl⟩
  · exact ⟨rfl, rfl, rfl, rfl, rfl, rfl⟩

/-- A read of the bytes that a KCP transport has, as many as there is room for. -/
theorem InOrder.readInput {s : Receiver} {done : List ReceivedItem} (h : s.InOrder done) (hopen : s.closed = false)
    (hnone : s.pendingRead = none) (hkcp : s.transportType = .kcp)
    (harr : s.arrived = s.handed ++ s.inBuffer.drop s.inHead) (hhead : s.inHead ≤ s.inBuffer.length)
    (hok : ∀ bs, bs <+: s.arrived → ∀ e, (feed streamFormat (.header []) bs).1 ≠ .failed e)
    {bs : List UInt8} (hbs : bs = (s.inBuffer.drop s.inHead).take s.stream.receivingSize)
    (horder : s.waiting = [] ∨ EndsNoFrame s.handed bs) (mallocOk : Bool) :
    ((s.takeInput bs.length).onReadSome bs mallocOk).Sound := by
  have hlen : bs.length ≤ s.stream.receivingSize := by
    rw [hbs, List.length_take]
    exact Nat.min_le_left _ _
  have hle : bs.length ≤ s.inBuffer.length - s.inHead := by
    rw [hbs, List.length_take, List.length_drop]
    exact Nat.min_le_right _ _
  have hsplit : bs ++ (s.inBuffer.drop s.inHead).drop bs.length = s.inBuffer.drop s.inHead := by
    obtain ⟨ys, hys⟩ : bs <+: s.inBuffer.drop s.inHead := hbs ▸ List.take_prefix _ _
    rw [← hys, List.drop_left]
  obtain ⟨hc, hp, ht, hs, hh, hw⟩ := s.takeInput_fields bs.length
  have harr' : s.arrived = s.handed ++ bs ++ (s.inBuffer.drop s.inHead).drop bs.length := by
    rw [List.append_assoc, hsplit]
    exact harr
  refine (h.takeInput bs.length).onReadSome (hc.trans hopen) (hp.trans hnone) (fun hne => absurd (ht.trans hkcp) hne)
    (s.takeInput_head hle hhead) (hs ▸ hlen) ?_ (hh ▸ hok _ ?_) (hw ▸ hh ▸ horder) mallocOk
  · rw [takeInput_arrived, hh, drop_takeInput]
    exact harr'
  · rw [harr']
    exact List.prefix_append _ _

/-- `try_start_receive` on a sound stream, reading at once only what overtakes no message. -/
theorem Sound.tryStartReceive {s : Receiver} (h : s.Sound)
    (hok : ∀ bs, bs <+: s.arrived → ∀ e, (feed streamFormat (.header []) bs).1 ≠ .failed e) (overloaded : Bool)
    (quota : Int) (horder : s.StartsRead overloaded quota → s.waiting = [] ∨ EndsNoFrame s.handed s.available)
    (mallocOk : Bool) : (s.tryStartReceive overloaded quota mallocOk).Sound := by
  unfold Receiver.tryStartReceive
  split
  · refine ⟨fun hc => ?_, h.ordered, h.handed, RecvPc.noConfusion⟩
    obtain ⟨done, hl⟩ := h.live hc
    exact ⟨done, ⟨hl.stream, hl.delivered⟩, hl.arrived, hl.head, hl.pending, hl.input⟩
  · rename_i hgo
    simp only [not_or, Bool.not_eq_true, Int.not_le] at hgo
    obtain ⟨hfree, htoken, hover, hopen⟩ := hgo
    obtain ⟨done, hl⟩ := h.live hopen
    have hnone : s.pendingRead = none := by
      cases hp : s.pendingRead with
      | none => rfl
      | some size => exact absurd (hfree.symm.trans (hl.pending size hp).1) Bool.noConfusion
    split
    · refine ⟨fun _ => ⟨done, ⟨hl.stream, hl.delivered⟩, hl.arrived, hl.head, hl.pending, hl.input⟩, h.ordered,
        h.handed, RecvPc.noConfusion⟩
    · rename_i hquota
      unfold asyncReadSome
      split
      · rename_i hsync
        have havail : s.available = (s.inBuffer.drop s.inHead).take s.stream.receivingSize := if_pos hsync.1
        refine @InOrder.readInput { s with readQuotaToken := quota, receiveTokenLocked := true } done
          ⟨hl.stream, hl.delivered⟩ hopen hnone hsync.1 hl.arrived hl.head hok _ havail ?_ mallocOk
        exact horder ⟨hfree, htoken, hover, hopen, Int.not_le.1 hquota⟩
      · refine ⟨fun _ => ⟨done, ⟨hl.stream, hl.delivered⟩, hl.arrived, hl.head, fun size hsize => ?_, hl.input⟩, h.ordered,
          h.handed, RecvPc.noConfusion⟩
        exact ⟨rfl, (Option.some.inj hsize).symm⟩

/-- A closed stream takes no bytes. -/
theorem onReadSome_closed {s : Receiver} (hclosed : s.closed = true)
    (hordered : ∃ n, s.delivered = (s.reader.2.take n).map delivery) (hhanded : s.handed <+: s.arrived) (bs : List UInt8) (mallocOk : Bool) :
    (s.onReadSome bs mallocOk).Sound := by
  rw [onReadSome, if_pos hclosed]
  exact ⟨fun hc => absurd (hclosed.symm.trans hc) Bool.noConfusion, hordered, hhanded, RecvPc.noConfusion⟩

theorem Sound.completeRead {s : Receiver} (h : s.Sound) (hidle : s.stack = []) (bs : List UInt8)
    (hok : ∀ xs, xs <+: (s.completeRead bs mallocOk).arrived →
      ∀ e, (feed streamFormat (.header []) xs).1 ≠ .failed e) : (s.completeRead bs mallocOk).Sound := by
  revert hok
  unfold Receiver.completeRead
  split
  · rename_i size hsize
    split
    · rename_i hread
      rw [onReadSome_arrived]
      intro hok
      by_cases hc : s.closed = true
      · exact @onReadSome_closed { s with arrived := s.arrived ++ bs, pendingRead := none } hc h.ordered
          (h.handed.trans (List.prefix_append _ _)) bs mallocOk
      · obtain ⟨done, hl⟩ := h.live (Bool.not_eq_true _ ▸ hc)
        have hbuf := hl.input hread.1
        have harr : s.arrived ++ bs = s.handed ++ bs ++ s.inBuffer.drop s.inHead := by
          rw [hl.arrived, hbuf, List.drop_nil, List.append_nil, List.append_nil]
        refine @InOrder.onReadSome { s with arrived := s.arrived ++ bs, pendingRead := none } done
          ⟨hl.stream, hl.delivered⟩ (Bool.not_eq_true _ ▸ hc) rfl hl.input hl.head bs ?_ harr (hok _ ?_) (Or.inl ?_) mallocOk
        · rw [← (hl.pending size hsize).2]
          exact hread.2.2
        · rw [harr]
          exact List.prefix_append _ _
        · show s.stack.flatMap _ = []
          rw [hidle]
          rfl
    · exact fun _ => h
  · exact fun _ => h

theorem Sound.drainInput {s : Receiver} (h : s.Sound) (hidle : s.stack = []) (bs : List UInt8)
    (hok : ∀ xs, xs <+: (s.drainInput bs mallocOk).arrived →
      ∀ e, (feed streamFormat (.header []) xs).1 ≠ .failed e) : (s.drainInput bs mallocOk).Sound := by
  revert hok
  unfold Receiver.drainInput
  split
  · rename_i hkcp
    rw [tryDeliverRead_arrived]
    intro hok
    obtain ⟨done, hl⟩ := h.live hkcp.2
    have harr : s.arrived ++ bs = s.handed ++ (s.inBuffer ++ bs).drop s.inHead := by
      rw [hl.arrived, List.drop_append_of_le_length hl.head, List.append_assoc]
    have hhead : s.inHead ≤ (s.inBuffer ++ bs).length := by
      rw [List.length_append]
      exact Nat.le_trans hl.head (Nat.le_add_right _ _)
    have hinput : s.transportType ≠ .kcp → s.inBuffer ++ bs = [] := fun hne => absurd hkcp.1 hne
    have hdone : Sound { s with arrived := s.arrived ++ bs, inBuffer := s.inBuffer ++ bs } :=
      ⟨fun _ => ⟨done, ⟨hl.stream, hl.delivered⟩, harr, hhead, hl.pending, hinput⟩, h.ordered,
        h.handed.trans (List.prefix_append _ _), h.returns⟩
    unfold tryDeliverRead
    split
    · rename_i size hsize
      split
      · refine @InOrder.readInput { s with
          arrived := s.arrived ++ bs, inBuffer := s.inBuffer ++ bs, pendingRead := none } done
          ⟨hl.stream, hl.delivered⟩ hkcp.2 rfl hkcp.1 harr hhead hok _ ?_ (Or.inl ?_) mallocOk
        · rw [(hl.pending size hsize).2]
        · show s.stack.flatMap _ = []
          rw [hidle]
          rfl
      · exact hdone
    · exact hdone
  · exact fun _ => h

theorem Sound.deliver {s : Receiver} (h : s.Sound) : s.deliver.Sound := by
  unfold Receiver.deliver
  split
  · rename_i i items stack hstack
    split
    · rename_i hc
      exact ⟨fun hn => absurd (hc.symm.trans hn) Bool.noConfusion, h.ordered, h.handed, h.returns⟩
    · rename_i hc
      obtain ⟨done, hl⟩ := h.live (Bool.not_eq_true _ ▸ hc)
      have hwait : s.waiting = i :: (items ++ stack.flatMap Activation.receivedMessage) := by
        rw [waiting, hstack, List.flatMap_cons, List.cons_append]
      -- the frame of the message is the next one of the reader
      have hframes := hl.stream.frames
      rw [hwait] at hframes
      obtain ⟨o, hget, hitem⟩ : ∃ o, s.reader.2[done.length]? = some o ∧ ItemOf s.stream.pool i o := by
        have hx : done.length < (done ++ i :: (items ++ stack.flatMap Activation.receivedMessage)).length := by
          simp
        have hy := hframes.length_eq ▸ hx
        refine ⟨s.reader.2.get ⟨done.length, hy⟩, List.getElem?_eq_getElem hy, ?_⟩
        simpa using hframes.get hx hy
      have hdelivered : s.delivered ++ [⟨i.metaSize, i.dataSize, i.message.toString s.stream.pool⟩] =
          (s.reader.2.take (done ++ [i]).length).map delivery := by
        rw [List.length_append, List.length_singleton, List.take_add_one, hget, List.map_append, ← hl.delivered,
          hitem.metaSize, hitem.dataSize, hitem.bytes]
        rfl
      refine ⟨fun _ => ⟨done ++ [i], ⟨?_, hdelivered⟩, hl.arrived, hl.head, hl.pending, hl.input⟩, ⟨_, hdelivered⟩,
        h.handed, h.returns⟩
      show s.stream.Open s.reader.1 (done ++ [i] ++ (items ++ stack.flatMap Activation.receivedMessage)) s.reader.2
      have hstream := hl.stream
      rw [hwait] at hstream
      rw [List.append_assoc]
      exact hstream
  · rename_i stack hstack
    refine ⟨fun hc => ?_, h.ordered, h.handed, h.returns⟩
    obtain ⟨done, hl⟩ := h.live hc
    refine ⟨done, ⟨?_, hl.delivered⟩, hl.arrived, hl.head, hl.pending, hl.input⟩
    have hstream := hl.stream
    rw [waiting, hstack, List.flatMap_cons] at hstream
    exact hstream
  · exact h

/-- What changes neither the stream nor the transport nor what waits. -/
theorem Sound.control {s : Receiver} (h : s.Sound) {stack : List Activation} {pc : RecvPc} (token : Int) {closed : Bool}
    (hclosed : closed = false → s.closed = false) (hwait : stack.flatMap Activation.receivedMessage = s.waiting)
    (hpc : pc ≠ .stuck) :
    Sound { s with stack := stack, pc := pc, readQuotaToken := token, closed := closed } := by
  refine ⟨fun hc => ?_, h.ordered, h.handed, hpc⟩
  obtain ⟨done, hl⟩ := h.live (hclosed hc)
  refine ⟨done, ⟨?_, hl.delivered⟩, hl.arrived, hl.head, hl.pending, hl.input⟩
  have hstream := hl.stream
  rw [← hwait] at hstream
  exact hstream

theorem Sound.onReceivedReturns {s : Receiver} (h : s.Sound) : s.onReceivedReturns.Sound := by
  unfold Receiver.onReceivedReturns
  split
  · rename_i items stack hstack
    refine h.control s.readQuotaToken id ?_ h.returns
    rw [waiting, hstack, List.flatMap_cons, List.flatMap_cons]
  · exact h

/-- **An orderly step keeps the order.** -/
theorem Sound.step {s : Receiver} (h : s.Sound) (i : RecvInput)
    (hok : ∀ bs, bs <+: (s.step i).arrived → ∀ e, (feed streamFormat (.header []) bs).1 ≠ .failed e)
    (horder : s.Orderly i) : (s.step i).Sound := by
  have hok' : ∀ bs, bs <+: s.arrived → ∀ e, (feed streamFormat (.header []) bs).1 ≠ .failed e :=
    fun bs hbs => hok bs (hbs.trans (s.step_arrived i))
  revert hok
  unfold Receiver.step
  split
  · rename_i overloaded quota mallocOk hpc
    intro _
    refine h.tryStartReceive hok' overloaded quota (fun hstarts => ?_) mallocOk
    unfold Orderly at horder
    rw [hpc] at horder
    exact (horder hstarts).imp List.isEmpty_iff.1 id
  · exact fun _ => h.deliver
  · exact fun _ => h.onReceivedReturns
  · split
    · exact fun _ => h.control 1 id rfl RecvPc.noConfusion
    · exact fun _ => h
  · split
    · exact fun _ => h.control s.readQuotaToken id rfl RecvPc.noConfusion
    · exact fun _ => h
  · split
    · exact fun _ => h.control s.readQuotaToken (fun hc => Bool.noConfusion hc) rfl h.returns
    · exact fun _ => h
  · split
    · rename_i hidle
      exact fun hok => h.completeRead (List.isEmpty_iff.1 hidle) _ hok
    · exact fun _ => h
  · split
    · rename_i hidle
      exact fun hok => h.drainInput (List.isEmpty_iff.1 hidle) _ hok
    · exact fun _ => h
  · exact fun _ => h

theorem Sound.connected (transportType : TransportType) (factor : BlockFactor) :
    (connected transportType factor).Sound := by
  obtain ⟨s, hs, hopen, -, -⟩ := Recv.onConnected_open factor
  have hstream : (Receiver.connected transportType factor).stream = s := congrArg Prod.snd hs
  refine ⟨fun _ => ⟨[], ⟨?_, rfl⟩, rfl, Nat.le_refl _, fun size hsize => ?_, fun _ => rfl⟩, ⟨0, rfl⟩,
    List.nil_prefix, RecvPc.noConfusion⟩
  · rw [hstream]
    exact hopen
  · cases hsize

end Receiver

/-- What `on_received` is to be called with for a frame. -/
def Frame.delivery (f : Frame) : Delivery := ⟨f.metaSize, f.dataSize, some f.body⟩

namespace Receiver

end Receiver
end Gb
