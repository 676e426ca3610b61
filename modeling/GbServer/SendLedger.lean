import GbServer.StreamTokens
/-!
# SendLedger — what is sent is what was queued

The messages of the pending queue in their order are those that were sent, the one that the holder of the send token has,
the swapped calls and the pending calls; the bytes that went out and those in hand are those of the first two (`Hand`).
`run_ledger` says so of every run in which nothing fails, and that the six counters are the sums of their queues.
-/
namespace Gb

open Run (Along)
open Threads Tally

def bytesOf (ms : List SendMessage) : List UInt8 := ms.flatMap fun m => m.bytes

def dataSizeOf (ms : List SendMessage) : Int := (ms.map fun m => (m.totalCount : Int)).sum

def bufferSizeOf (ms : List SendMessage) : Int := (ms.map fun m => (m.totalBlockSize : Int)).sum

@[simp] theorem bytesOf_nil : bytesOf [] = [] := rfl

@[simp] theorem bytesOf_singleton (m : SendMessage) : bytesOf [m] = m.bytes := List.append_nil _

@[simp] theorem bytesOf_append (ms ns : List SendMessage) : bytesOf (ms ++ ns) = bytesOf ms ++ bytesOf ns :=
  List.flatMap_append

namespace StreamAction

/-- The message that the holder of the send token has. -/
def current (s : StreamThreads) : StreamAction → List SendMessage
  | acquireWriteQuota m      => [m]
  | insertIntoPendingQueue m => [m]
  | asyncWriteSome           => s.sendingMessage.toList
  | onWriteSome _ _          => s.sendingMessage.toList
  | onSent                   => s.sendingMessage.toList
  | _                        => []

/-- The bytes of it that did not go out. -/
def left (s : StreamThreads) : StreamAction → List UInt8
  | acquireWriteQuota m      => m.bytes
  | insertIntoPendingQueue m => m.bytes
  | asyncWriteSome           => s.sendingData ++ s.sendingBlocks.flatten
  | onWriteSome _ n          => s.sendingData.drop n ++ s.sendingBlocks.flatten
  | _                        => []

/-- What else the holder relies on. -/
def fits (s : StreamThreads) : StreamAction → Prop
  | acquireWriteQuota m => s.sendingMessage = some m
  | onWriteSome _ n     => n ≤ s.sendingData.length
  | _                   => True

end StreamAction

namespace StreamThreads

variable {s : StreamThreads} {a : StreamAction}

/-! ## The counters -/

/-- The counters of the queues. -/
structure Counters (s : StreamThreads) : Prop where
  pendingMessageCount : s.pendingMessageCount = s.pendingCalls.length
  pendingDataSize     : s.pendingDataSize = dataSizeOf s.pendingCalls
  pendingBufferSize   : s.pendingBufferSize = bufferSizeOf s.pendingCalls
  swappedMessageCount : s.swappedMessageCount = s.swappedCalls.length
  swappedDataSize     : s.swappedDataSize = dataSizeOf s.swappedCalls
  swappedBufferSize   : s.swappedBufferSize = bufferSizeOf s.swappedCalls

/-- Of all queues, nothing changes. -/
def SameQueues (s s' : StreamThreads) : Prop :=
  s'.pendingCalls = s.pendingCalls ∧ s'.pendingMessageCount = s.pendingMessageCount ∧
  s'.pendingDataSize = s.pendingDataSize ∧ s'.pendingBufferSize = s.pendingBufferSize ∧
  s'.swappedCalls = s.swappedCalls ∧ s'.swappedMessageCount = s.swappedMessageCount ∧
  s'.swappedDataSize = s.swappedDataSize ∧ s'.swappedBufferSize = s.swappedBufferSize

theorem Counters.of_same (h : s.Counters) {s' : StreamThreads} (hsame : s.SameQueues s') : s'.Counters := by
  obtain ⟨h₁, h₂, h₃, h₄, h₅, h₆, h₇, h₈⟩ := hsame
  constructor
  · rw [h₁, h₂, h.pendingMessageCount]
  · rw [h₁, h₃, h.pendingDataSize]
  · rw [h₁, h₄, h.pendingBufferSize]
  · rw [h₅, h₆, h.swappedMessageCount]
  · rw [h₅, h₇, h.swappedDataSize]
  · rw [h₅, h₈, h.swappedBufferSize]

theorem Counters.putIntoPendingQueue (h : s.Counters) (m : SendMessage) : (s.putIntoPendingQueue m).Counters := by
  constructor
  · simp [StreamThreads.putIntoPendingQueue, h.pendingMessageCount]
  · simp [StreamThreads.putIntoPendingQueue, h.pendingDataSize, dataSizeOf]
  · simp [StreamThreads.putIntoPendingQueue, h.pendingBufferSize, bufferSizeOf]
  · exact h.swappedMessageCount
  · exact h.swappedDataSize
  · exact h.swappedBufferSize

theorem Counters.insertIntoPendingQueue (h : s.Counters) (m : SendMessage) : (s.insertIntoPendingQueue m).Counters := by
  constructor
  · exact h.pendingMessageCount
  · exact h.pendingDataSize
  · exact h.pendingBufferSize
  · simp [StreamThreads.insertIntoPendingQueue, h.swappedMessageCount]
  · simp only [StreamThreads.insertIntoPendingQueue, h.swappedDataSize, dataSizeOf, List.map_cons, List.sum_cons]
    omega
  · simp only [StreamThreads.insertIntoPendingQueue, h.swappedBufferSize, bufferSizeOf, List.map_cons, List.sum_cons]
    omega

theorem Counters.swapCalls (h : s.Counters) : s.swapCalls.Counters := by
  unfold StreamThreads.swapCalls
  split
  · exact ⟨rfl, rfl, rfl, h.pendingMessageCount, h.pendingDataSize, h.pendingBufferSize⟩
  · exact h

theorem Counters.takeMessage (h : s.Counters) {m : SendMessage} {ms : List SendMessage} (hms : s.swappedCalls = m :: ms) :
    (s.takeMessage m ms).Counters := by
  have hcount := h.swappedMessageCount
  have hdata := h.swappedDataSize
  have hbuffer := h.swappedBufferSize
  simp only [hms, dataSizeOf, bufferSizeOf, List.map_cons, List.sum_cons, List.length_cons] at hcount hdata hbuffer
  constructor
  · exact h.pendingMessageCount
  · exact h.pendingDataSize
  · exact h.pendingBufferSize
  · simp only [StreamThreads.takeMessage]
    omega
  · simp only [StreamThreads.takeMessage, dataSizeOf]
    omega
  · simp only [StreamThreads.takeMessage, bufferSizeOf]
    omega

theorem Counters.act (h : s.Counters) (input : StreamInput) : (s.act input a).1.Counters := by
  cases a
  case putIntoPendingQueue m    => exact h.putIntoPendingQueue m
  case insertIntoPendingQueue m => exact h.insertIntoPendingQueue m
  case getFromPendingQueue      =>
    show s.getFromPendingQueue.1.Counters
    rcases getFromPendingQueue_cases (s := s) with ⟨_, heq⟩ | ⟨m, ms, hms, heq⟩
    · rw [heq]
      exact h.swapCalls
    · rw [heq]
      exact h.swapCalls.takeMessage hms
  case onWriteSome error n      =>
    have hwrite : (s.onWriteSome n).1.Counters := by
      rcases onWriteSome_cases (s := s) (n := n) with ⟨b, bs, _, _, heq⟩ | ⟨_, _, heq⟩ | ⟨_, heq⟩
      · rw [heq]
        exact h.of_same ⟨rfl, rfl, rfl, rfl, rfl, rfl, rfl, rfl⟩
      · rw [heq]
        exact h
      · rw [heq]
        exact h.of_same ⟨rfl, rfl, rfl, rfl, rfl, rfl, rfl, rfl⟩
    simp only [StreamThreads.act]
    split_ifs
    · exact h
    · exact h
    · exact hwrite
  all_goals
    simp only [StreamThreads.act]
    (try split_ifs) <;> exact h.of_same ⟨rfl, rfl, rfl, rfl, rfl, rfl, rfl, rfl⟩

theorem begins_sameQueues {e : StreamEvent} {s' : StreamThreads} {op : List StreamAction} (hbegins : s.Begins e s' op) :
    s.SameQueues s' := by
  have hcall : ∀ c : StreamCall, s.SameQueues (s.call c).1 := by
    intro c
    cases c <;> simp only [call] <;> (try split_ifs) <;> exact ⟨rfl, rfl, rfl, rfl, rfl, rfl, rfl, rfl⟩
  cases hbegins
  case call c         => exact hcall c
  case inCallback k c => exact hcall c
  all_goals exact ⟨rfl, rfl, rfl, rfl, rfl, rfl, rfl, rfl⟩

theorem Counters.step (h : s.Counters) (e : StreamEvent) : (s.step e).Counters := by
  rcases step_cases (s := s) e with hsame | ⟨s', op, ops, hbegins, _, _, hstep⟩ | ⟨k, input, a, rest, rfl, hk, hstep⟩
  · rw [hsame]
    exact h
  · rw [hstep]
    have hqueues := begins_sameQueues hbegins
    exact h.of_same hqueues
  · rw [hstep]
    exact (h.act input).of_same ⟨rfl, rfl, rfl, rfl, rfl, rfl, rfl, rfl⟩

/-! ## The message on its way -/

/-- The holder of the send token has the messages `current` and the bytes `left` of them. -/
structure Hand (s : StreamThreads) (current : List SendMessage) (left : List UInt8) : Prop where
  queue  : s.queued = s.sent ++ current ++ s.swappedCalls ++ s.pendingCalls
  bytes  : s.written ++ left = bytesOf (s.sent ++ current)
  inHand : s.inHand = left

/-- What the holder of the send token has, whoever it is. -/
structure Ledger (s : StreamThreads) : Prop where
  thread : ∀ a, Has s.ops a → a.sendHolds = 1 → s.Hand (a.current s) (a.left s) ∧ a.fits s
  write  : ∀ chunk ∈ s.writes,
    chunk = s.sendingData ∧ s.Hand s.sendingMessage.toList (s.sendingData ++ s.sendingBlocks.flatten)
  free   : s.sendTokenLocked = false → s.Hand [] []

/-- The same message is on its way, and the pending queue may be longer. -/
structure SameHand (s s' : StreamThreads) : Prop where
  sendingMessage : s'.sendingMessage = s.sendingMessage
  sendingBlocks  : s'.sendingBlocks = s.sendingBlocks
  sendingData    : s'.sendingData = s.sendingData
  swappedCalls   : s'.swappedCalls = s.swappedCalls
  writes         : s'.writes = s.writes
  sent           : s'.sent = s.sent
  written        : s'.written = s.written
  inHand         : s'.inHand = s.inHand
  queue          : ∃ ms, s'.pendingCalls = s.pendingCalls ++ ms ∧ s'.queued = s.queued ++ ms

theorem Hand.of_same {s' : StreamThreads} {current : List SendMessage} {left : List UInt8} (h : s.Hand current left)
    (hsame : s.SameHand s') : s'.Hand current left := by
  obtain ⟨ms, hpending, hqueued⟩ := hsame.queue
  constructor
  · rw [hqueued, hpending, hsame.sent, hsame.swappedCalls, h.queue]
    simp
  · rw [hsame.written, hsame.sent, h.bytes]
  · rw [hsame.inHand, h.inHand]

theorem Hand.of_ops {current : List SendMessage} {left : List UInt8} (h : s.Hand current left)
    (ops : List (List StreamAction)) : Hand { s with ops := ops } current left :=
  ⟨h.queue, h.bytes, h.inHand⟩

/-- What is not the holder's leaves the message alone. -/
theorem act_sameHand (input : StreamInput) (ha : a.sendHolds = 0) : s.SameHand (s.act input a).1 := by
  have hput : ∀ m, s.SameHand (s.putIntoPendingQueue m) := fun m => ⟨rfl, rfl, rfl, rfl, rfl, rfl, rfl, rfl, [m], rfl, rfl⟩
  have hsame : s.SameHand s := ⟨rfl, rfl, rfl, rfl, rfl, rfl, rfl, rfl, [], by simp, by simp⟩
  cases a
  case putIntoPendingQueue m => exact hput m
  all_goals
    simp only [act]
    (try split_ifs) <;> first
      | exact ⟨rfl, rfl, rfl, rfl, rfl, rfl, rfl, rfl, hsame.queue⟩
      | simp [StreamAction.sendHolds] at ha

theorem begins_sameHand {e : StreamEvent} {s' : StreamThreads} {op : List StreamAction} (hbegins : s.Begins e s' op)
    (hop : tally StreamAction.sendHolds op = 0) : s.SameHand s' := by
  have hsame : s.SameHand s := ⟨rfl, rfl, rfl, rfl, rfl, rfl, rfl, rfl, [], by simp, by simp⟩
  have hcall : ∀ c : StreamCall, s.SameHand (s.call c).1 := by
    intro c
    cases c <;> simp only [call] <;> (try split_ifs) <;> exact ⟨rfl, rfl, rfl, rfl, rfl, rfl, rfl, rfl, hsame.queue⟩
  cases hbegins
  case call c         => exact hcall c
  case inCallback k c => exact hcall c
  case writeCompletes => cases hop
  all_goals exact ⟨rfl, rfl, rfl, rfl, rfl, rfl, rfl, rfl, hsame.queue⟩

/-- What the holder leaves behind. -/
structure Passes (r : StreamThreads × List StreamAction) : Prop where
  thread : ∀ b ∈ r.2, b.sendHolds = 1 → r.1.Hand (b.current r.1) (b.left r.1) ∧ b.fits r.1
  write  : ∀ chunk ∈ r.1.writes,
    chunk = r.1.sendingData ∧ r.1.Hand r.1.sendingMessage.toList (r.1.sendingData ++ r.1.sendingBlocks.flatten)
  free   : r.1.sendTokenLocked = false → r.1.Hand [] []

/-- The holder goes on as the holder. -/
theorem Passes.goes (hwrites : s.writes = []) (hlocked : s.sendTokenLocked = true) (h : s.Hand (a.current s) (a.left s))
    (hfits : a.fits s) : Passes (s, [a]) where
  thread := by
    intro b hb _
    rw [List.mem_singleton.1 hb]
    exact ⟨h, hfits⟩
  write  := by simp [hwrites]
  free   := by simp [hlocked]

/-- The holder goes on as one of many. -/
theorem Passes.releases {pushed : List StreamAction} (hwrites : s.writes = []) (h : s.Hand [] [])
    (hpushed : ∀ b ∈ pushed, b.sendHolds = 0) : Passes (s, pushed) where
  thread := by
    intro b hb hholds
    rw [hpushed b hb] at hholds
    cases hholds
  write  := by simp [hwrites]
  free   := fun _ => h

theorem Hand.swapCalls (h : s.Hand [] []) : s.swapCalls.Hand [] [] := by
  unfold StreamThreads.swapCalls
  split
  · next hswap =>
    refine ⟨?_, h.bytes, h.inHand⟩
    have hqueue := h.queue
    simp only [hswap.1] at hqueue
    simpa using hqueue
  · exact h

theorem Hand.takeMessage (h : s.Hand [] []) {m : SendMessage} {ms : List SendMessage} (hms : s.swappedCalls = m :: ms) :
    (s.takeMessage m ms).Hand [m] m.bytes := by
  refine ⟨?_, ?_, rfl⟩
  · have hqueue := h.queue
    rw [hms] at hqueue
    simpa [StreamThreads.takeMessage] using hqueue
  · have hbytes := h.bytes
    simp only [List.append_nil] at hbytes
    simp [StreamThreads.takeMessage, hbytes]

/-- The holder takes the first message, where there is one. -/
theorem getFromPendingQueue_passes (h : s.Hand [] []) (hwrites : s.writes = []) (hlocked : s.sendTokenLocked = true) :
    Passes s.getFromPendingQueue := by
  have hqueues := s.swapCalls_withoutQueues
  have hwrites' : s.swapCalls.writes = [] := (congrArg writes hqueues :).trans hwrites
  have hlocked' : s.swapCalls.sendTokenLocked = true := (congrArg sendTokenLocked hqueues :).trans hlocked
  rcases getFromPendingQueue_cases (s := s) with ⟨_, heq⟩ | ⟨m, ms, hms, heq⟩
  · rw [heq]
    exact .goes hwrites' hlocked' h.swapCalls trivial
  · rw [heq]
    exact .goes hwrites' hlocked' (h.swapCalls.takeMessage hms) rfl

/-- The holder has another piece of its message written, or has sent it. -/
theorem onWriteSome_passes {n : Nat} (h : s.Hand s.sendingMessage.toList (s.sendingData.drop n ++ s.sendingBlocks.flatten))
    (hwrites : s.writes = []) (hlocked : s.sendTokenLocked = true) : Passes (s.onWriteSome n) := by
  rcases onWriteSome_cases (s := s) (n := n) with ⟨b, bs, hlen, hblocks, heq⟩ | ⟨hlen, hblocks, heq⟩ | ⟨hne, heq⟩
  · rw [heq]
    rw [hlen, hblocks] at h
    simp only [List.drop_length, List.nil_append, List.flatten_cons] at h
    exact .goes hwrites hlocked ⟨h.queue, h.bytes, h.inHand⟩ trivial
  · rw [heq]
    rw [hlen, hblocks] at h
    simp only [List.drop_length, List.nil_append, List.flatten_nil] at h
    exact .goes hwrites hlocked h trivial
  · rw [heq]
    exact .goes hwrites hlocked ⟨h.queue, h.bytes, h.inHand⟩ trivial

theorem insertIntoPendingQueue_hand {m : SendMessage} (h : s.Hand [m] m.bytes) : (s.insertIntoPendingQueue m).Hand [] [] := by
  refine ⟨?_, ?_, rfl⟩
  · simpa [StreamThreads.insertIntoPendingQueue] using h.queue
  · have hbytes := h.bytes
    rw [bytesOf_append, bytesOf_singleton] at hbytes
    simpa [StreamThreads.insertIntoPendingQueue] using List.append_cancel_right hbytes

/-- One step of the holder. -/
theorem act_passes (input : StreamInput) (ha : a.sendHolds = 1) (hcalm : a.calm = true) (hstatus : s.status = .connected)
    (hwrites : s.writes = []) (hlocked : s.sendTokenLocked = true) (h : s.Hand (a.current s) (a.left s)) (hfits : a.fits s) :
    Passes (s.act input a) := by
  cases a
  case getFromPendingQueue      => exact getFromPendingQueue_passes h hwrites hlocked
  case acquireWriteQuota m      =>
    by_cases hquota : input.quota ≤ 0
    · simp only [act, if_pos hquota]
      exact .goes hwrites hlocked ⟨h.queue, h.bytes, h.inHand⟩ trivial
    · simp only [act, if_neg hquota]
      have hmessage : s.sendingMessage = some m := hfits
      have hbytes : m.blocks.head m.nonempty ++ m.blocks.tail.flatten = m.bytes := by
        rw [← List.flatten_cons, List.cons_head_tail]
        rfl
      refine .goes hwrites hlocked ?_ trivial
      simp only [StreamAction.current, StreamAction.left, nextBlock, hmessage, hbytes, Option.toList]
      exact ⟨h.queue, h.bytes, h.inHand⟩
  case insertIntoPendingQueue m => exact .goes hwrites hlocked (insertIntoPendingQueue_hand h) trivial
  case sendReleaseToken         => exact .releases hwrites ⟨h.queue, h.bytes, h.inHand⟩ (by simp)
  case emptyReleaseToken        => exact .releases hwrites ⟨h.queue, h.bytes, h.inHand⟩ (by simp [StreamAction.sendHolds])
  case asyncWriteSome           =>
    refine ⟨by simp [act], ?_, by simp [act, hlocked]⟩
    intro chunk hchunk
    simp only [act, hwrites, List.nil_append, List.mem_singleton] at hchunk
    exact ⟨hchunk, h.queue, h.bytes, h.inHand⟩
  case onWriteSome error n      =>
    have herror : error = false := by simpa [StreamAction.calm] using hcalm
    have hact : s.act input (.onWriteSome error n) = s.onWriteSome n := by simp [act, hstatus, herror]
    rw [hact]
    exact onWriteSome_passes h hwrites hlocked
  case onSent                   =>
    have hhand : (s.act input .onSent).1.Hand [] [] := by
      have hqueue := h.queue
      have hbytes := h.bytes
      refine ⟨?_, ?_, h.inHand⟩
      · simpa [act, StreamAction.current] using hqueue
      · simpa [act, StreamAction.current, StreamAction.left] using hbytes
    refine ⟨?_, by simp [act, hwrites], by simp [act, hlocked]⟩
    intro b hb hholds
    simp only [act, List.mem_cons, List.not_mem_nil, or_false] at hb
    rcases hb with rfl | rfl
    · cases hholds
    · exact ⟨hhand, trivial⟩
  case sentReleaseToken         =>
    refine .releases hwrites ⟨h.queue, h.bytes, h.inHand⟩ ?_
    split <;> simp [StreamAction.sendHolds]
  all_goals simp [StreamAction.sendHolds, StreamAction.calm] at ha hcalm

theorem none_sendHolds {l : List StreamAction} {P : StreamAction → Prop} (h : l.all (fun b => b.sendHolds == 0) = true) :
    ∀ b ∈ l, b.sendHolds = 1 → P b := by
  intro b hb hholds
  have hnone := eq_of_beq (List.all_eq_true.1 h b hb)
  exact absurd (hholds.symm.trans hnone) Nat.one_ne_zero

/-- Only an unlocked token is taken by one that does not hold it. -/
theorem act_takes (input : StreamInput) (ha : a.sendHolds = 0) :
    ((s.act input a).1.sendTokenLocked = false → s.sendTokenLocked = false) ∧
    ∀ b ∈ (s.act input a).2, b.sendHolds = 1 → b = .getFromPendingQueue ∧ s.sendTokenLocked = false := by
  cases a
  case onReadSome outcome =>
    dsimp only [act]
    split_ifs
    · exact ⟨id, none_sendHolds rfl⟩
    · cases outcome <;> exact ⟨id, none_sendHolds rfl⟩
  case sendTakeToken      =>
    dsimp only [act]
    split_ifs with hlocked
    · exact ⟨id, none_sendHolds rfl⟩
    · refine ⟨fun h => (nomatch h), fun b hb _ => ⟨List.mem_singleton.1 hb, eq_false_of_ne_true hlocked⟩⟩
  all_goals
    dsimp only [act]
    (try split_ifs) <;>
      first
      | exact ⟨id, none_sendHolds rfl⟩
      | exact absurd ha Nat.one_ne_zero

/-! ## Runs -/

theorem SameHand.current_eq {s' : StreamThreads} (h : s.SameHand s') : a.current s' = a.current s := by
  cases a <;> simp [StreamAction.current, h.sendingMessage]

theorem SameHand.left_eq {s' : StreamThreads} (h : s.SameHand s') : a.left s' = a.left s := by
  cases a <;> simp [StreamAction.left, h.sendingData, h.sendingBlocks]

theorem SameHand.fits {s' : StreamThreads} (h : s.SameHand s') (hfits : a.fits s) : a.fits s' := by
  cases a <;> simp_all [StreamAction.fits, h.sendingData, h.sendingMessage]

theorem Ledger.of_same (h : s.Ledger) {s' : StreamThreads} (hsame : s.SameHand s')
    (hlocked : s'.sendTokenLocked = false → s.sendTokenLocked = false) {ops : List (List StreamAction)}
    (hops : ∀ b, Has ops b → b.sendHolds = 1 → Has s.ops b ∨ b = .getFromPendingQueue ∧ s.sendTokenLocked = false) :
    Ledger { s' with ops := ops } := by
  have hhand : ∀ {current left}, s.Hand current left → Hand { s' with ops := ops } current left := by
    intro current left hhand
    exact (hhand.of_same hsame).of_ops ops
  constructor
  · intro b hb hholds
    rcases hops b hb hholds with hb | ⟨rfl, hfree⟩
    · obtain ⟨hold, hfits⟩ := h.thread b hb hholds
      rw [← hsame.current_eq, ← hsame.left_eq] at hold
      exact ⟨hhand hold, hsame.fits hfits⟩
    · exact ⟨hhand (h.free hfree), trivial⟩
  · intro chunk hchunk
    obtain ⟨hdata, hold⟩ := h.write chunk (hsame.writes ▸ hchunk)
    rw [← hsame.sendingMessage, ← hsame.sendingData, ← hsame.sendingBlocks] at hold
    exact ⟨hdata.trans hsame.sendingData.symm, hhand hold⟩
  · exact fun hfree => hhand (h.free (hlocked hfree))

/-- A write completes: what was outstanding is with a thread now. -/
theorem Ledger.writeCompletes (h : s.Ledger) (htokens : s.Tokens) {i n : Nat} {error : Bool} {chunk : List UInt8}
    (hchunk : s.writes[i]? = some chunk) (hn : n ≤ chunk.length) {ops : List (List StreamAction)}
    (hops : ∀ b, Has ops b ↔ Has ([.onWriteSome error n] :: s.ops) b) :
    Ledger
      { s with
        writes  := s.writes.eraseIdx i
        written := s.written ++ chunk.take n
        inHand  := s.inHand.drop n
        ops     := ops } := by
  obtain ⟨hi, _⟩ := List.getElem?_eq_some_iff.1 hchunk
  obtain ⟨rfl, hhand⟩ := h.write chunk (List.mem_of_getElem? hchunk)
  have hsending := htokens.sending
  have hle := s.isSending_le
  have hnobody : weight StreamAction.sendHolds s.ops = 0 := by omega
  have hwrites : s.writes.eraseIdx i = [] := by
    apply List.eq_nil_of_length_eq_zero
    rw [List.length_eraseIdx, if_pos hi]
    omega
  refine ⟨?_, by simp [hwrites], ?_⟩
  · intro b hb hholds
    rcases has_cons.1 ((hops b).1 hb) with hb | hb
    · rw [List.mem_singleton.1 hb]
      have hbytes := hhand.bytes
      have hinHand := hhand.inHand
      have hdrop : (s.sendingData ++ s.sendingBlocks.flatten).drop n = s.sendingData.drop n ++ s.sendingBlocks.flatten :=
        List.drop_append_of_le_length hn
      refine ⟨⟨hhand.queue, ?_, ?_⟩, hn⟩
      · show s.written ++ s.sendingData.take n ++ (s.sendingData.drop n ++ s.sendingBlocks.flatten)
          = bytesOf (s.sent ++ s.sendingMessage.toList)
        rw [← hbytes, List.append_assoc, ← List.append_assoc (s.sendingData.take n), List.take_append_drop]
      · show s.inHand.drop n = s.sendingData.drop n ++ s.sendingBlocks.flatten
        rw [hinHand, hdrop]
    · have hweight := le_weight StreamAction.sendHolds hb
      omega
  · intro hfree
    replace hfree : s.sendTokenLocked = false := hfree
    simp only [isSending, hfree, Bool.toNat_false] at hsending
    omega

theorem Ledger.step (h : s.Ledger) (htokens : s.Tokens) (hsteady : s.Steady) {e : StreamEvent} (hcalm : e.calm = true) :
    (s.step e).Ledger := by
  rcases step_cases (s := s) e with hsame | ⟨s', op, ops, hbegins, hops, hweight, hstep⟩ | ⟨k, input, a, rest, rfl, hk, hstep⟩
  · rw [hsame]
    exact h
  · rw [hstep]
    by_cases hop : tally StreamAction.sendHolds op = 0
    · apply h.of_same (begins_sameHand hbegins hop)
      · intro hfree
        obtain ⟨_, _, hlocked, _⟩ := begins_tokens hbegins
        simp only [isSending, hfree] at hlocked
        cases hs : s.sendTokenLocked
        · rfl
        · simp [hs] at hlocked
      · intro b hb hholds
        rcases has_cons.1 ((hops b).1 hb) with hb | hb
        · have hle := le_tally StreamAction.sendHolds hb
          omega
        · exact .inl hb
    · -- only a write that completes gives a thread the send token
      have hlength := (begins_tokens hbegins).1
      have hless : s'.writes.length ≠ s.writes.length := by omega
      have hcall : ∀ c : StreamCall, (s.call c).1.writes.length = s.writes.length := by
        intro c
        cases c <;> simp only [call]
        split_ifs <;> rfl
      cases hbegins
      case call c                                   => exact absurd (hcall c) hless
      case inCallback k c                           => exact absurd (hcall c) hless
      case writeCompletes i error n chunk hchunk hn => exact h.writeCompletes htokens hchunk hn hops
      all_goals exact absurd rfl hless
  · rw [hstep]
    have hhas := has_of_getElem? hk
    by_cases ha : a.sendHolds = 1
    · obtain ⟨hwrites, hothers⟩ := htokens.holdsOne.alone hk ha
      obtain ⟨hhand, hfits⟩ := h.thread a hhas ha
      have hcalm' := hsteady.calm a hhas
      have hlocked : s.sendTokenLocked = true := by
        have hsending := htokens.sending
        have hle := le_weight StreamAction.sendHolds hhas
        by_contra hfree
        simp only [isSending, Bool.not_eq_true _ ▸ hfree] at hsending
        simp at hsending
        omega
      have hpasses := act_passes input ha hcalm'
        (hsteady.tested a hhas (StreamAction.tested_of_sendHolds ha hcalm')) hwrites hlocked hhand hfits
      constructor
      · intro b hb hholds
        rcases (has_advance hk).1 hb with hb | hb
        · obtain ⟨hnew, hfits⟩ := hpasses.thread b hb hholds
          exact ⟨hnew.of_ops _, hfits⟩
        · rw [hothers b hb] at hholds
          cases hholds
      · intro chunk hchunk
        obtain ⟨hdata, hnew⟩ := hpasses.write chunk hchunk
        exact ⟨hdata, hnew.of_ops _⟩
      · exact fun hfree => (hpasses.free hfree).of_ops _
    · have ha' : a.sendHolds = 0 := a.sendHolds_cases.resolve_right ha
      obtain ⟨hlocked, hpushed⟩ := act_takes (s := s) input ha'
      apply h.of_same (act_sameHand input ha') hlocked
      intro b hb hholds
      rcases (has_advance hk).1 hb with hb | hb
      · exact .inr (hpushed b hb hholds)
      · exact .inl hb.of_advance

/-- What holds of a run in which nothing fails. -/
structure Orderly (s : StreamThreads) : Prop where
  steady   : s.Steady
  tokens   : s.Tokens
  counters : s.Counters
  ledger   : s.Ledger

theorem Orderly.step (s : StreamThreads) (e : StreamEvent) (h : s.Orderly) (hcalm : e.calm = true) : (s.step e).Orderly :=
  ⟨h.steady.step hcalm, h.tokens.step h.steady hcalm, h.counters.step e, h.ledger.step h.tokens h.steady hcalm⟩

theorem orderly_init (netType : NetType) (transportType : TransportType) (limit : Int) :
    (init netType transportType limit).Orderly where
  steady   := steady_init netType transportType limit
  tokens   := ⟨rfl, rfl⟩
  counters := ⟨rfl, rfl, rfl, rfl, rfl, rfl⟩
  ledger   := ⟨by simp [init], by simp [init], fun _ => ⟨rfl, rfl, rfl⟩⟩

/-- Somebody holds the send token, or nobody does. -/
theorem Orderly.hand (h : s.Orderly) :
    ∃ current left, s.Hand current left ∧ current.length ≤ 1 ∧ (s.sendTokenLocked = false → current = [] ∧ left = []) := by
  cases hlocked : s.sendTokenLocked with
  | false => exact ⟨[], [], h.ledger.free hlocked, Nat.zero_le _, fun _ => ⟨rfl, rfl⟩⟩
  | true  =>
    have hsending := h.tokens.sending
    simp only [isSending, hlocked, Bool.toNat_true] at hsending
    have hmessage : s.sendingMessage.toList.length ≤ 1 := by cases s.sendingMessage <;> simp
    by_cases hwrites : s.writes = []
    · simp only [hwrites, List.length_nil] at hsending
      have hweight : 0 < weight StreamAction.sendHolds s.ops := by omega
      obtain ⟨a, ha, hpos⟩ := exists_of_weight_pos hweight
      have hholds : a.sendHolds = 1 := by cases a <;> simp_all [StreamAction.sendHolds]
      obtain ⟨hhand, _⟩ := h.ledger.thread a ha hholds
      refine ⟨_, _, hhand, ?_, fun hfree => by cases hfree⟩
      cases a <;> simp [StreamAction.current, hmessage]
    · obtain ⟨chunk, hchunk⟩ := List.exists_mem_of_ne_nil _ hwrites
      obtain ⟨_, hhand⟩ := h.ledger.write chunk hchunk
      exact ⟨_, _, hhand, hmessage, fun hfree => by cases hfree⟩

/-- **In every run in which nothing fails: the messages are sent in the order of the pending queue, one of them at most is
on its way, the bytes of those that were sent and of that one are those that went out and those that did not, what is
outstanding goes on where the bytes that went out end and is one write at most, and the six counters are the sums over the
two queues.** -/
theorem run_ledger (netType : NetType) (transportType : TransportType) (limit : Int) (es : List StreamEvent)
    (hcalm : ∀ e ∈ es, e.calm = true) :
    let s := es.foldl step (init netType transportType limit)
    (∃ current, current.length ≤ 1 ∧ s.queued = s.sent ++ current ++ s.swappedCalls ++ s.pendingCalls ∧
      s.written ++ s.inHand = bytesOf (s.sent ++ current) ∧
      (s.sendTokenLocked = false → current = [] ∧ s.inHand = [])) ∧
    (∀ chunk ∈ s.writes, s.written ++ chunk <+: bytesOf s.queued) ∧ s.writes.length ≤ 1 ∧
    s.Counters := by
  intro s
  have h : s.Orderly := by
    apply Run.foldl_inv Orderly.step es (orderly_init netType transportType limit)
    exact Run.along_of_forall fun e he _ => hcalm e he
  obtain ⟨current, left, hhand, hone, hfree⟩ := h.hand
  refine ⟨⟨current, hone, hhand.queue, ?_, ?_⟩, ?_, ?_, h.counters⟩
  · rw [hhand.inHand, hhand.bytes]
  · intro hlocked
    rw [hhand.inHand]
    exact hfree hlocked
  · intro chunk hchunk
    obtain ⟨rfl, hwrite⟩ := h.ledger.write chunk hchunk
    rw [hwrite.queue, bytesOf_append, bytesOf_append, ← hwrite.bytes]
    simp
  · have hsending := h.tokens.sending
    have hle := s.isSending_le
    omega

/-- A message of two blocks meets a denial, is put back, and is on its way in the third piece. -/
theorem run_ledger_denied :
    let m : SendMessage := { blocks := [[1], [2, 3]], nonempty := by decide, small := by decide, totalBlockSize := 64 }
    let es : List StreamEvent := [.call .asyncConnect, .step 0 {}, .connectCompletes false] ++ List.replicate 20 (.step 0 {})
      ++ .call (.asyncSendMessage m) :: List.replicate 7 (.step 0 {}) ++ .step 0 { quota := 0 } :: List.replicate 2 (.step 0 {})
      ++ .call .triggerSend :: List.replicate 8 (.step 0 {}) ++ [.writeCompletes 0 false 1, .step 0 {}, .step 0 {},
        .writeCompletes 0 false 1, .step 0 {}, .step 0 {}]
    let s := es.foldl step (init .client .tcp 0)
    s.writes = [[3]] ∧ (∀ chunk ∈ s.writes, s.written ++ chunk <+: bytesOf s.queued) := by
  intro m es s
  have hcalm : ∀ e ∈ es, e.calm = true := List.all_eq_true.1 (by decide +kernel)
  have h := run_ledger .client .tcp 0 es hcalm
  refine ⟨?_, h.2.1⟩
  decide +kernel

end StreamThreads

end Gb
