import GbServer.SendLedger
/-!
# QuotaWakeup — the one who waits for quota is woken

A thread that is denied stores the quota token that it was denied with and releases the lock token after that.  A trigger
raises the quota token and goes away when it finds the lock token locked: where it comes between the two, the quota token
says that nobody waits and nobody does anything.  A receive that the size of the queues stops is tried again when a
message was sent, not when the queues get shorter, and tests the size of one queue some time before that of the other.

`run_woken` is about runs in which the last thread that is on its way does not go away like this.
-/
namespace Gb

open Run (Along)
open Threads Tally

namespace StreamAction

/-- On the way to a read. -/
def receives : StreamAction → Bool
  | triggerReceive       => true
  | receiveTestToken     => true
  | receiveTestQuota     => true
  | receiveReadPending   => true
  | receiveTestPending _ => true
  | receiveTestConnected => true
  | receiveTakeToken     => true
  | acquireReadQuota     => true
  | asyncReadSome        => true
  | onReadSome _         => true
  | readReleaseToken     => true
  | _                    => false

/-- On the way to a write. -/
def sends : StreamAction → Bool
  | triggerSend         => true
  | sendTestToken       => true
  | sendTestQuota       => true
  | sendTestConnected   => true
  | sendTakeToken       => true
  | getFromPendingQueue => true
  | acquireWriteQuota _ => true
  | asyncWriteSome      => true
  | onWriteSome _ _     => true
  | onSent              => true
  | sentReleaseToken    => true
  | _                   => false

/-- The holder of the receive token was denied, and has not released it. -/
def receiveDenied : StreamAction → Bool
  | receiveReleaseToken => true
  | _                   => false

/-- The holder of the send token was denied, and has not released it. -/
def sendDenied : StreamAction → Bool
  | insertIntoPendingQueue _ => true
  | sendReleaseToken         => true
  | _                        => false

/-- In `try_start_receive`, `try_start_send`, a trigger, `async_send_message` or a completion. -/
def inside : StreamAction → Bool
  | receiveReleaseToken      => true
  | insertIntoPendingQueue _ => true
  | sendReleaseToken         => true
  | emptyReleaseToken        => true
  | testPendingCount         => true
  | asyncSendMessage _       => true
  | putIntoPendingQueue _    => true
  | a                        => a.receives || a.sends

/-- The size of a message that is in neither queue, and may be put back. -/
def heldSize : StreamAction → Nat
  | acquireWriteQuota m      => m.totalBlockSize
  | insertIntoPendingQueue m => m.totalBlockSize
  | _                        => 0

/-- A test of the size of the queues, which a server does. -/
def testsPending : StreamAction → Bool
  | receiveReadPending   => true
  | receiveTestPending _ => true
  | _                    => false

end StreamAction

namespace StreamThreads

variable {s : StreamThreads} {a : StreamAction}

def queueSize (s : StreamThreads) : Int := s.pendingBufferSize + s.swappedBufferSize

/-- The size of the queues, with the message that may be put back. -/
def sizeWithHeld (s : StreamThreads) : Int := s.queueSize + (weight StreamAction.heldSize s.ops : Nat)

/-- Besides what thread `k` does now, something that counts is to be done. -/
def Coming (s : StreamThreads) (k : Nat) (w : StreamAction → Bool) : Prop := Anywhere (advance s.ops k []) w

/-- Somebody else receives, or waits for quota. -/
def ReceivesElsewhere (s : StreamThreads) (k : Nat) : Prop :=
  0 < s.reads ∨ s.readQuotaToken ≤ 0 ∨ s.Coming k StreamAction.receives

/-- Somebody else sends, or waits for quota. -/
def SendsElsewhere (s : StreamThreads) (k : Nat) : Prop :=
  s.writes ≠ [] ∨ s.writeQuotaToken ≤ 0 ∨ s.Coming k StreamAction.sends

/-- The condition on a step.  A thread that goes away because a token is locked, while the holder was denied and is about
to release it, is not the last one; nor is one that goes away because of a size that the queues do not have; nor is one
that goes away before a message is taken that made the queues too long. -/
def Heeded (s : StreamThreads) (k : Nat) (input : StreamInput) : StreamAction → Prop
  | .receiveTestToken     => s.receiveTokenLocked = true → Anywhere s.ops StreamAction.receiveDenied → s.ReceivesElsewhere k
  | .receiveTakeToken     => s.receiveTokenLocked = true → Anywhere s.ops StreamAction.receiveDenied → s.ReceivesElsewhere k
  | .receiveTestPending p => s.maxPendingBufferSize < p + s.swappedBufferSize →
      s.maxPendingBufferSize < s.sizeWithHeld ∨ s.ReceivesElsewhere k
  | .acquireWriteQuota m  => s.netType = .server → 0 < input.quota → s.maxPendingBufferSize < s.sizeWithHeld →
      s.maxPendingBufferSize < s.sizeWithHeld - m.totalBlockSize ∨ s.ReceivesElsewhere k
  | .sendTestToken        => s.sendTokenLocked = true → Anywhere s.ops StreamAction.sendDenied → s.SendsElsewhere k
  | .sendTakeToken        => s.sendTokenLocked = true → Anywhere s.ops StreamAction.sendDenied → s.SendsElsewhere k
  | _                     => True

def Heeds (s : StreamThreads) (k : Nat) (input : StreamInput) : Option (List StreamAction) → Prop
  | some (a :: _) => s.Heeded k input a
  | _             => True

/-- An event in which nothing fails, and which meets the condition. -/
def Woken (s : StreamThreads) (e : StreamEvent) : Prop :=
  e.calm = true ∧
  match e with
  | .step k input => s.Heeds k input s.ops[k]?
  | _             => True

instance (s : StreamThreads) (k : Nat) : Decidable (s.ReceivesElsewhere k) :=
  inferInstanceAs (Decidable (_ ∨ _ ∨ Anywhere _ _))

instance (s : StreamThreads) (k : Nat) : Decidable (s.SendsElsewhere k) :=
  inferInstanceAs (Decidable (_ ∨ _ ∨ Anywhere _ _))

instance (s : StreamThreads) (k : Nat) (input : StreamInput) : ∀ a, Decidable (s.Heeded k input a)
  | .receiveTestToken     => inferInstanceAs (Decidable (_ → _ → _))
  | .receiveTakeToken     => inferInstanceAs (Decidable (_ → _ → _))
  | .receiveTestPending _ => inferInstanceAs (Decidable (_ → _ ∨ _))
  | .acquireWriteQuota _  => inferInstanceAs (Decidable (_ → _ → _ → _ ∨ _))
  | .sendTestToken        => inferInstanceAs (Decidable (_ → _ → _))
  | .sendTakeToken        => inferInstanceAs (Decidable (_ → _ → _))
  | .close | .transportClose | .onClosed | .callback | .asyncConnect | .onConnectTimeout _ | .onConnect _ | .onHandshake _
  | .doConnect | .setup | .onAccept | .onAccepted | .setConnectedOptions | .onConnected | .storeConnected | .triggerReceive
  | .triggerSend | .receiveTestQuota | .receiveReadPending | .receiveTestConnected | .acquireReadQuota | .receiveReleaseToken
  | .asyncReadSome | .sendTestQuota | .sendTestConnected | .getFromPendingQueue | .insertIntoPendingQueue _
  | .sendReleaseToken | .emptyReleaseToken | .testPendingCount | .asyncWriteSome | .asyncSendMessage _
  | .putIntoPendingQueue _ | .onReadSome _ | .readReleaseToken | .onReceived _ | .onWriteSome _ _ | .onSendFailed | .onSent
  | .sentReleaseToken     => isTrue trivial

instance (s : StreamThreads) (k : Nat) (input : StreamInput) : ∀ op, Decidable (s.Heeds k input op)
  | some (a :: _) => inferInstanceAs (Decidable (s.Heeded k input a))
  | some []       => isTrue trivial
  | none          => isTrue trivial

instance (s : StreamThreads) : ∀ e, Decidable (s.Woken e)
  | .step k input => inferInstanceAs (Decidable (input.ok = true ∧ s.Heeds k input s.ops[k]?))
  | .call _ | .inCallback _ _ | .accept | .connectCompletes _ | .connectTimeout _ | .readCompletes _ | .writeCompletes _ _ _ =>
    inferInstanceAs (Decidable (StreamEvent.calm _ = true ∧ True))

/-! ## Reads -/

/-- On a connected stream a thread is on its way to a read, or there is one, or there is a reason why there is none. -/
def ReceiveCovered (s : StreamThreads) : Prop :=
  s.status = .connected →
    (∃ b, Has s.ops b ∧ b.receives = true) ∨ 0 < s.reads ∨ s.readQuotaToken ≤ 0 ∨
    (s.netType = .server ∧ s.maxPendingBufferSize < s.sizeWithHeld)

theorem act_settings (input : StreamInput) :
    (s.act input a).1.netType = s.netType ∧ (s.act input a).1.maxPendingBufferSize = s.maxPendingBufferSize := by
  have hget : s.getFromPendingQueue.1.netType = s.netType ∧
      s.getFromPendingQueue.1.maxPendingBufferSize = s.maxPendingBufferSize :=
    ⟨(congrArg netType s.getFromPendingQueue_withoutQueues :),
      (congrArg maxPendingBufferSize s.getFromPendingQueue_withoutQueues :)⟩
  have hwrite : ∀ n, (s.onWriteSome n).1.netType = s.netType ∧
      (s.onWriteSome n).1.maxPendingBufferSize = s.maxPendingBufferSize :=
    fun n => ⟨(congrArg netType s.onWriteSome_withoutQueues :), (congrArg maxPendingBufferSize s.onWriteSome_withoutQueues :)⟩
  cases a
  case getFromPendingQueue => exact hget
  case onWriteSome error n =>
    simp only [act]
    split_ifs
    · exact ⟨rfl, rfl⟩
    · exact ⟨rfl, rfl⟩
    · exact hwrite n
  all_goals
    simp only [act]
    (try split_ifs) <;> simp [StreamThreads.putIntoPendingQueue, StreamThreads.insertIntoPendingQueue, nextBlock]

theorem quotas_of_withoutQueues {s' : StreamThreads} (h : s'.withoutQueues = s.withoutQueues) :
    s'.status = s.status ∧ s'.reads = s.reads ∧ s'.readQuotaToken = s.readQuotaToken ∧ s'.writes = s.writes ∧
    s'.writeQuotaToken = s.writeQuotaToken :=
  ⟨(congrArg status h :), (congrArg reads h :), (congrArg readQuotaToken h :), (congrArg writes h :),
    (congrArg writeQuotaToken h :)⟩

/-- What one step does about reads. -/
theorem act_receives (input : StreamInput) (hcalm : a.calm = true) (htested : a.tested = true → s.status = .connected)
    (hstatus : (s.act input a).1.status = .connected) :
    (∃ b ∈ (s.act input a).2, b.receives = true) ∨ 0 < (s.act input a).1.reads ∨ (s.act input a).1.readQuotaToken ≤ 0 ∨
    (a.receives = false ∧ s.status = .connected ∧ (s.act input a).1.reads = s.reads ∧
      (s.act input a).1.readQuotaToken = s.readQuotaToken) ∨
    (s.receiveTokenLocked = true ∧ (a = .receiveTestToken ∨ a = .receiveTakeToken)) ∨
    ∃ p, a = .receiveTestPending p ∧ s.maxPendingBufferSize < p + s.swappedBufferSize := by
  have hget := quotas_of_withoutQueues s.getFromPendingQueue_withoutQueues
  have hwrite := fun n => quotas_of_withoutQueues (s.onWriteSome_withoutQueues (n := n))
  cases a
  case getFromPendingQueue =>
    have hconnected := htested rfl
    exact .inr (.inr (.inr (.inl ⟨rfl, hconnected, hget.2.1, hget.2.2.1⟩)))
  case onWriteSome error n =>
    have hconnected := htested rfl
    have herror : error = false := by simpa [StreamAction.calm] using hcalm
    have hact : s.act input (.onWriteSome error n) = s.onWriteSome n := by simp [act, hconnected, herror]
    rw [hact]
    exact .inr (.inr (.inr (.inl ⟨rfl, hconnected, (hwrite n).2.1, (hwrite n).2.2.1⟩)))
  case onReadSome outcome =>
    have hconnected := htested rfl
    cases outcome <;> simp_all [act, StreamAction.calm, ReadOutcome.isReceived, StreamAction.receives]
  all_goals
    clear hget hwrite
    dsimp only [act] at hstatus ⊢
    (try split_ifs at hstatus ⊢) <;>
      first
      | exact absurd hcalm Bool.false_ne_true
      | (cases hstatus; done)
      -- on its way, or it is there
      | exact .inl ⟨_, List.mem_cons_self, rfl⟩
      | exact .inr (.inl (Nat.succ_pos _))
      | exact .inr (.inr (.inl ‹_›))
      -- nothing was done about it
      | exact .inr (.inr (.inr (.inl ⟨rfl, hstatus, rfl, rfl⟩)))
      -- a test has stopped it
      | exact .inr (.inr (.inr (.inr (.inl ⟨‹_›, .inl rfl⟩))))
      | exact .inr (.inr (.inr (.inr (.inl ⟨‹_›, .inr rfl⟩))))
      | exact .inr (.inr (.inr (.inr (.inr ⟨_, rfl, ‹_›⟩))))

theorem swapCalls_queueSize (h : s.Counters) : s.swapCalls.queueSize = s.queueSize := by
  unfold swapCalls
  split
  · next hswap =>
    have hswapped := h.swappedBufferSize
    rw [hswap.1] at hswapped
    simp [queueSize, hswapped, bufferSizeOf]
  · rfl

theorem getFromPendingQueue_queueSize (h : s.Counters) :
    s.getFromPendingQueue.1.queueSize + (tally StreamAction.heldSize s.getFromPendingQueue.2 : Nat) = s.queueSize := by
  have hswap := swapCalls_queueSize h
  rcases getFromPendingQueue_cases (s := s) with ⟨_, heq⟩ | ⟨m, ms, _, heq⟩
  · rw [heq]
    simpa [StreamAction.heldSize] using hswap
  · rw [heq, ← hswap]
    simp only [queueSize, takeMessage, StreamAction.heldSize, tally_cons, tally_nil]
    omega

theorem onWriteSome_queueSize {n : Nat} :
    (s.onWriteSome n).1.queueSize = s.queueSize ∧ tally StreamAction.heldSize (s.onWriteSome n).2 = 0 := by
  rcases onWriteSome_cases (s := s) (n := n) with ⟨b, bs, _, _, heq⟩ | ⟨_, _, heq⟩ | ⟨_, heq⟩ <;> rw [heq] <;>
    exact ⟨rfl, rfl⟩

/-- The queues, with what may be put back, get shorter only when a message is granted. -/
theorem act_size (h : s.Counters) (input : StreamInput) :
    s.queueSize + (a.heldSize : Nat) ≤ (s.act input a).1.queueSize + (tally StreamAction.heldSize (s.act input a).2 : Nat) ∨
    ∃ m, a = .acquireWriteQuota m ∧ 0 < input.quota ∧
      (s.act input a).1.queueSize + (tally StreamAction.heldSize (s.act input a).2 : Nat) = s.queueSize := by
  have hget := getFromPendingQueue_queueSize h
  have hwrite := fun n => s.onWriteSome_queueSize (n := n)
  cases a
  case acquireWriteQuota m        =>
    by_cases hquota : input.quota ≤ 0
    · left
      simp [act, hquota, queueSize, StreamAction.heldSize]
    · right
      refine ⟨m, rfl, by omega, ?_⟩
      simp [act, hquota, queueSize, StreamAction.heldSize, nextBlock]
  case getFromPendingQueue        =>
    left
    have hact : s.act input .getFromPendingQueue = s.getFromPendingQueue := rfl
    rw [hact, hget]
    simp [StreamAction.heldSize]
  case onWriteSome error n        =>
    left
    simp only [act]
    split_ifs <;> simp_all [StreamAction.heldSize]
  case onReadSome outcome         =>
    left
    cases outcome <;> simp only [act] <;> split_ifs <;> simp [StreamAction.heldSize]
  all_goals
    left
    simp only [act]
    (try split_ifs) <;>
      simp [StreamAction.heldSize, queueSize, StreamThreads.putIntoPendingQueue, StreamThreads.insertIntoPendingQueue]
  all_goals omega

/-- Only a server tests the size of its queues. -/
def TestsAsServer (s : StreamThreads) : Prop := s.netType ≠ .server → ∀ b, Has s.ops b → b.testsPending = false

theorem act_testsPending (input : StreamInput) (hclient : s.netType ≠ .server) (ha : a.testsPending = false) :
    ∀ b ∈ (s.act input a).2, b.testsPending = false := by
  have hall : (s.act input a).2.all (fun b => !b.testsPending) = true := by
    cases a
    case getFromPendingQueue =>
      change s.getFromPendingQueue.2.all _ = true
      rcases getFromPendingQueue_cases (s := s) with ⟨_, heq⟩ | ⟨m, ms, _, heq⟩ <;> rw [heq] <;> rfl
    case onWriteSome error n =>
      dsimp only [act]
      split_ifs
      · rfl
      · rfl
      · rcases onWriteSome_cases (s := s) (n := n) with ⟨b, bs, _, _, heq⟩ | ⟨_, _, heq⟩ | ⟨_, heq⟩ <;> rw [heq] <;> rfl
    case onReadSome outcome  =>
      dsimp only [act]
      split_ifs
      · rfl
      · cases outcome <;> rfl
    all_goals
      dsimp only [act]
      (try split_ifs) <;>
        first
        | rfl
        | exact absurd ha.symm Bool.false_ne_true
  intro b hb
  simpa using List.all_eq_true.1 hall b hb

/-! ## Writes -/

/-- On a connected stream a thread is on its way to a write, or there is one, or one waits for quota, or nothing is queued:
the message that was denied is, and the holder that found nothing looks once more what came to the pending queue since. -/
def SendCovered (s : StreamThreads) : Prop :=
  s.status = .connected →
    (∃ b, Has s.ops b ∧ b.sends = true) ∨ s.writes ≠ [] ∨ s.writeQuotaToken ≤ 0 ∨
    (s.swappedCalls = [] ∧ (∀ m, ¬Has s.ops (.insertIntoPendingQueue m)) ∧
      (s.pendingCalls = [] ∨ Has s.ops .emptyReleaseToken ∨ Has s.ops .testPendingCount))

/-- The holder found nothing in the queues. -/
def FoundNothing (s : StreamThreads) : Prop := Has s.ops .emptyReleaseToken → s.swappedCalls = []

/-- What one step does about writes, where the send token is not held for it. -/
theorem act_sends (input : StreamInput) (hcalm : a.calm = true) (hholds : a.sendHolds = 0)
    (hstatus : (s.act input a).1.status = .connected) :
    (∃ b ∈ (s.act input a).2, b.sends = true) ∨ (s.act input a).1.writeQuotaToken ≤ 0 ∨
    (s.status = .connected ∧ (s.act input a).1.writes = s.writes ∧ (s.act input a).1.writeQuotaToken = s.writeQuotaToken ∧
      (s.act input a).1.swappedCalls = s.swappedCalls ∧ (s.act input a).1.pendingCalls = s.pendingCalls ∧
      (∀ m, .insertIntoPendingQueue m ∉ (s.act input a).2) ∧ a.sends = false ∧ (a = .testPendingCount → s.pendingMessageCount = 0)) ∨
    (s.sendTokenLocked = true ∧ (a = .sendTestToken ∨ a = .sendTakeToken)) := by
  cases a
  case onReadSome outcome =>
    cases outcome <;> simp only [act] at hstatus ⊢ <;> split_ifs <;>
      simp_all [StreamAction.calm, ReadOutcome.isReceived, StreamAction.sends]
  all_goals
    dsimp only [act] at hstatus ⊢
    (try split_ifs at hstatus ⊢) <;>
      first
      | exact absurd hcalm Bool.false_ne_true
      | exact absurd hholds Nat.one_ne_zero
      | (cases hstatus; done)
      -- on its way
      | exact .inl ⟨_, List.mem_cons_self, rfl⟩
      | exact .inl ⟨_, List.mem_cons_of_mem _ List.mem_cons_self, rfl⟩
      | exact .inr (.inl ‹_›)
      -- nothing was done about it
      | exact .inr (.inr (.inl ⟨hstatus, rfl, rfl, rfl, rfl, by simp, rfl, fun _ => ‹_›⟩))
      | exact .inr (.inr (.inl ⟨hstatus, rfl, rfl, rfl, rfl, by simp, rfl, fun h => by cases h⟩))
      -- a test has stopped it
      | exact .inr (.inr (.inr ⟨‹_›, .inl rfl⟩))
      | exact .inr (.inr (.inr ⟨‹_›, .inr rfl⟩))

/-- The holder of the send token that goes on, or away, leaves a reason behind. -/
def HolderCovers (s : StreamThreads) (a : StreamAction) (r : StreamThreads × List StreamAction) : Prop :=
  (∃ b ∈ r.2, b.sends = true) ∨ r.1.writes ≠ [] ∨ r.1.writeQuotaToken ≤ 0 ∨
  (r.1.swappedCalls = [] ∧ (∀ m, .insertIntoPendingQueue m ∉ r.2) ∧
    (r.1.pendingCalls = [] ∨ .emptyReleaseToken ∈ r.2 ∨ .testPendingCount ∈ r.2)) ∨
  (a = .sendReleaseToken ∧ r.1.writes = s.writes ∧ r.1.writeQuotaToken = s.writeQuotaToken ∧
    r.1.swappedCalls = s.swappedCalls ∧ r.1.pendingCalls = s.pendingCalls ∧ r.2 = []) ∨
  ((∃ m, a = .insertIntoPendingQueue m) ∧ r.1.writes = s.writes ∧ r.1.writeQuotaToken = s.writeQuotaToken)

theorem getFromPendingQueue_covers (h : s.Counters) : s.HolderCovers .getFromPendingQueue s.getFromPendingQueue := by
  rcases getFromPendingQueue_cases (s := s) with ⟨hnil, heq⟩ | ⟨m, ms, _, heq⟩
  · rw [heq]
    have hpending : s.swapCalls.pendingCalls = [] := by
      have hcount := h.pendingMessageCount
      unfold swapCalls at hnil ⊢
      split
      · rfl
      · next hno =>
        rw [if_neg hno] at hnil
        by_contra hne
        have hpos := List.length_pos_of_ne_nil hne
        exact hno ⟨hnil, by omega, hne⟩
    exact .inr (.inr (.inr (.inl ⟨hnil, by simp, .inl hpending⟩)))
  · rw [heq]
    exact .inl ⟨_, List.mem_singleton_self _, rfl⟩

theorem onWriteSome_covers {n : Nat} : ∃ b ∈ (s.onWriteSome n).2, b.sends = true := by
  rcases onWriteSome_cases (s := s) (n := n) with ⟨b, bs, _, _, heq⟩ | ⟨_, _, heq⟩ | ⟨_, heq⟩ <;> rw [heq] <;>
    exact ⟨_, List.mem_singleton_self _, rfl⟩

theorem act_holderCovers (h : s.Counters) (input : StreamInput) (ha : a.sendHolds = 1) (hcalm : a.calm = true)
    (hstatus : s.status = .connected) (hfound : a = .emptyReleaseToken → s.swappedCalls = []) :
    s.HolderCovers a (s.act input a) := by
  cases a
  case getFromPendingQueue      => exact getFromPendingQueue_covers h
  case acquireWriteQuota m      =>
    by_cases hquota : input.quota ≤ 0
    · exact .inr (.inr (.inl (by simp [act, hquota])))
    · exact .inl ⟨.asyncWriteSome, by simp [act, hquota], rfl⟩
  case insertIntoPendingQueue m => exact .inr (.inr (.inr (.inr (.inr ⟨⟨m, rfl⟩, rfl, rfl⟩))))
  case sendReleaseToken         => exact .inr (.inr (.inr (.inr (.inl ⟨rfl, rfl, rfl, rfl, rfl, rfl⟩))))
  case emptyReleaseToken        => exact .inr (.inr (.inr (.inl ⟨hfound rfl, by simp [act], .inr (.inr (by simp [act]))⟩)))
  case asyncWriteSome           => exact .inr (.inl (by simp [act]))
  case onWriteSome error n      =>
    have herror : error = false := by simpa [StreamAction.calm] using hcalm
    have hact : s.act input (.onWriteSome error n) = s.onWriteSome n := by simp [act, hstatus, herror]
    rw [hact]
    exact .inl onWriteSome_covers
  case onSent                   => exact .inl ⟨.sentReleaseToken, by simp [act], rfl⟩
  case sentReleaseToken         =>
    refine .inl ⟨.sendTestToken, ?_, rfl⟩
    simp only [act]
    split <;> simp
  all_goals simp [StreamAction.sendHolds, StreamAction.calm] at ha hcalm

/-! ## What begins -/

/-- What a new thread and what it comes with do not change. -/
structure BeginsQuietly (s s' : StreamThreads) (op : List StreamAction) : Prop where
  netType              : s'.netType = s.netType
  maxPendingBufferSize : s'.maxPendingBufferSize = s.maxPendingBufferSize
  readQuotaToken       : s'.readQuotaToken = s.readQuotaToken
  writeQuotaToken      : s'.writeQuotaToken = s.writeQuotaToken
  queueSize            : s'.queueSize = s.queueSize
  pendingCalls         : s'.pendingCalls = s.pendingCalls
  swappedCalls         : s'.swappedCalls = s.swappedCalls
  heldSize             : tally StreamAction.heldSize op = 0
  plain                : ∀ b ∈ op, b.testsPending = false ∧ b.sendDenied = false ∧ b ≠ .emptyReleaseToken
  reading              : s'.reads = s.reads ∨ ∃ b ∈ op, b.receives = true
  writing              : s'.writes = s.writes ∨ ∃ b ∈ op, b.sends = true

theorem begins_quietly {e : StreamEvent} {s' : StreamThreads} {op : List StreamAction} (hbegins : s.Begins e s' op) :
    s.BeginsQuietly s' op := by
  have hcall : ∀ c : StreamCall, s.BeginsQuietly (s.call c).1 (s.call c).2 := by
    intro c
    cases c <;> simp only [call] <;> (try split_ifs) <;> constructor <;>
      simp [StreamAction.heldSize, StreamAction.testsPending, StreamAction.sendDenied, queueSize]
  cases hbegins with
  | call c                                   => exact hcall c
  | inCallback k c                           => exact hcall c
  | accept hphase                            =>
    unfold acceptActions
    split <;> constructor <;>
      simp [StreamAction.heldSize, StreamAction.testsPending, StreamAction.sendDenied, queueSize]
  | connectCompletes error hphase            =>
    unfold connectActions
    split <;> constructor <;>
      simp [StreamAction.heldSize, StreamAction.testsPending, StreamAction.sendDenied, queueSize]
  | connectTimeout aborted                   =>
    constructor <;> simp [StreamAction.heldSize, StreamAction.testsPending, StreamAction.sendDenied]
  | readCompletes outcome hreads             =>
    constructor <;>
      simp [StreamAction.heldSize, StreamAction.testsPending, StreamAction.sendDenied, StreamAction.receives, queueSize]
  | writeCompletes i error n chunk hchunk hn =>
    constructor <;>
      simp [StreamAction.heldSize, StreamAction.testsPending, StreamAction.sendDenied, StreamAction.sends, queueSize]

/-! ## Runs -/

theorem ReceiveCovered.begins (h : s.ReceiveCovered) {s' : StreamThreads} {op : List StreamAction}
    {ops : List (List StreamAction)} (hquiet : s.BeginsQuietly s' op) (hstatus : s'.status = s.status)
    (hops : ∀ b, Has ops b ↔ Has (op :: s.ops) b)
    (hweight : weight StreamAction.heldSize ops = weight StreamAction.heldSize (op :: s.ops)) :
    ReceiveCovered { s' with ops := ops } := by
  intro hconnected
  rcases h (hstatus.symm.trans hconnected) with ⟨b, hb, hreceives⟩ | hreads | htoken | ⟨hserver, hlimit⟩
  · exact .inl ⟨b, (hops b).2 (has_cons.2 (.inr hb)), hreceives⟩
  · rcases hquiet.reading with hsame | ⟨b, hb, hreceives⟩
    · exact .inr (.inl (Nat.lt_of_lt_of_eq hreads hsame.symm))
    · exact .inl ⟨b, (hops b).2 (has_cons.2 (.inl hb)), hreceives⟩
  · exact .inr (.inr (.inl (Int.le_trans (Int.le_of_eq hquiet.readQuotaToken) htoken)))
  · refine .inr (.inr (.inr ⟨hquiet.netType.trans hserver, ?_⟩))
    rw [weight_cons, hquiet.heldSize, Nat.zero_add] at hweight
    have hsize : sizeWithHeld { s' with ops := ops } = s.sizeWithHeld := by
      show s'.queueSize + (weight StreamAction.heldSize ops : Nat) = s.sizeWithHeld
      rw [hquiet.queueSize, hweight]
      rfl
    rw [hsize]
    exact Int.lt_of_le_of_lt (Int.le_of_eq hquiet.maxPendingBufferSize) hlimit

/-- The size after a step. -/
theorem sizeWithHeld_advance {k : Nat} {rest : List StreamAction} (hk : s.ops[k]? = some (a :: rest))
    (r : StreamThreads × List StreamAction) :
    sizeWithHeld { r.1 with ops := advance s.ops k r.2 } + (a.heldSize : Nat) =
      r.1.queueSize + (tally StreamAction.heldSize r.2 : Nat) + (weight StreamAction.heldSize s.ops : Nat) := by
  have hweight := weight_advance StreamAction.heldSize r.2 hk
  show r.1.queueSize + (weight StreamAction.heldSize (advance s.ops k r.2) : Nat) + _ = _
  omega

theorem ReceivesElsewhere.covers {k : Nat} {rest : List StreamAction} (h : s.ReceivesElsewhere k)
    (hk : s.ops[k]? = some (a :: rest)) {r : StreamThreads × List StreamAction} (hreads : r.1.reads = s.reads)
    (htoken : r.1.readQuotaToken = s.readQuotaToken) : ReceiveCovered { r.1 with ops := advance s.ops k r.2 } := by
  intro _
  rcases h with hreading | hzero | ⟨b, hb, hreceives⟩
  · exact .inr (.inl (Nat.lt_of_lt_of_eq hreading hreads.symm))
  · exact .inr (.inr (.inl (Int.le_trans (Int.le_of_eq htoken) hzero)))
  · exact .inl ⟨b, (has_advance hk).2 (.inr hb), hreceives⟩

/-- Whoever holds the receive token is on the way to a read, or was denied. -/
theorem Tokens.receiver (h : s.Tokens) (hlocked : s.receiveTokenLocked = true) :
    0 < s.reads ∨ ∃ b, Has s.ops b ∧ b.receiveHolds = 1 ∧ (b = .receiveReleaseToken ∨ b.receives = true) := by
  have hreceiving := h.receiving
  simp only [isReceiving, hlocked, Bool.toNat_true] at hreceiving
  by_cases hreads : 0 < s.reads
  · exact .inl hreads
  · have hweight : 0 < weight StreamAction.receiveHolds s.ops := by omega
    obtain ⟨b, hb, hpos⟩ := exists_of_weight_pos hweight
    refine .inr ⟨b, hb, ?_⟩
    cases b <;> simp_all [StreamAction.receiveHolds, StreamAction.receives]

/-- Whoever holds the send token is on the way to a write, or was denied, or found nothing. -/
theorem Orderly.sender (h : s.Orderly) (hlocked : s.sendTokenLocked = true) :
    s.writes ≠ [] ∨ ∃ b, Has s.ops b ∧ b.sendHolds = 1 ∧ (b.sendDenied = true ∨ b.sends = true ∨ b = .emptyReleaseToken) := by
  have hsending := h.tokens.sending
  simp only [isSending, hlocked, Bool.toNat_true] at hsending
  by_cases hwrites : s.writes = []
  · have hweight : 0 < weight StreamAction.sendHolds s.ops := by
      rw [hwrites, List.length_nil] at hsending
      omega
    obtain ⟨b, hb, hpos⟩ := exists_of_weight_pos hweight
    have hcalm := h.steady.calm b hb
    refine .inr ⟨b, hb, ?_⟩
    cases b <;> simp_all [StreamAction.sendHolds, StreamAction.sendDenied, StreamAction.sends, StreamAction.calm]
  · exact .inl hwrites

theorem ReceiveCovered.advance (h : s.ReceiveCovered) (horderly : s.Orderly) (htests : s.TestsAsServer) {k : Nat}
    {rest : List StreamAction} (hk : s.ops[k]? = some (a :: rest)) {input : StreamInput} (hheeded : s.Heeded k input a) :
    ReceiveCovered { (s.act input a).1 with ops := Threads.advance s.ops k (s.act input a).2 } := by
  have hhas := has_of_getElem? hk
  have hsize := sizeWithHeld_advance hk (s.act input a)
  obtain ⟨hnet, hmax⟩ := act_settings (s := s) (a := a) input
  intro hconnected
  rcases act_receives input (horderly.steady.calm a hhas) (horderly.steady.tested a hhas) hconnected with
    ⟨b, hb, hreceives⟩ | hreads | htoken | ⟨hnot, hbefore, hreads, htoken⟩ | ⟨hlocked, ha⟩ | ⟨p, rfl, hlimit⟩
  · exact .inl ⟨b, (has_advance hk).2 (.inl hb), hreceives⟩
  · exact .inr (.inl hreads)
  · exact .inr (.inr (.inl htoken))
  · -- the thread does something else: what was a reason before still is, but for the size when a message is granted
    rcases h hbefore with ⟨b, hb, hreceives⟩ | hreading | hzero | ⟨hserver, hlimit⟩
    · have hne : b ≠ a := by
        rintro rfl
        rw [hnot] at hreceives
        cases hreceives
      exact .inl ⟨b, hb.advance hk hne _, hreceives⟩
    · exact .inr (.inl (Nat.lt_of_lt_of_eq hreading hreads.symm))
    · exact .inr (.inr (.inl (Int.le_trans (Int.le_of_eq htoken) hzero)))
    · rcases act_size horderly.counters (a := a) input with hle | ⟨m, rfl, hquota, hsame⟩
      · refine .inr (.inr (.inr ⟨hnet.trans hserver, ?_⟩))
        show (s.act input a).1.maxPendingBufferSize < _
        simp only [sizeWithHeld] at hlimit hsize ⊢
        omega
      · rcases hheeded hserver hquota hlimit with hstill | helsewhere
        · refine .inr (.inr (.inr ⟨hnet.trans hserver, ?_⟩))
          show (s.act input _).1.maxPendingBufferSize < _
          simp only [sizeWithHeld, StreamAction.heldSize] at hstill hsize ⊢
          omega
        · exact helsewhere.covers hk hreads htoken hconnected
  · -- the receive token is locked
    have hact : s.act input a = (s, []) := by rcases ha with rfl | rfl <;> simp [act, hlocked]
    have hholds : a.receiveHolds = 0 := by rcases ha with rfl | rfl <;> rfl
    rw [hact] at hconnected ⊢
    rcases horderly.tokens.receiver hlocked with hreading | ⟨b, hb, hone, rfl | hreceives⟩
    · exact .inr (.inl hreading)
    · have helsewhere : s.ReceivesElsewhere k := by
        rcases ha with rfl | rfl
        · exact hheeded hlocked ⟨_, hb, rfl⟩
        · exact hheeded hlocked ⟨_, hb, rfl⟩
      exact helsewhere.covers hk (r := (s, [])) rfl rfl hconnected
    · have hne : b ≠ a := by
        rintro rfl
        omega
      exact .inl ⟨b, hb.advance hk hne _, hreceives⟩
  · -- the queues are too long
    have hact : s.act input (.receiveTestPending p) = (s, []) := by simp [act, hlimit]
    rw [hact] at hconnected hsize ⊢
    rcases hheeded hlimit with hreal | helsewhere
    · have hserver : s.netType = .server := by
        by_contra hclient
        have hfalse := htests hclient _ hhas
        cases hfalse
      refine .inr (.inr (.inr ⟨hserver, ?_⟩))
      simp only [StreamAction.heldSize, tally_nil] at hsize
      simp only [sizeWithHeld] at hreal hsize ⊢
      omega
    · exact helsewhere.covers hk (r := (s, [])) rfl rfl hconnected

theorem SendCovered.begins (h : s.SendCovered) {s' : StreamThreads} {op : List StreamAction}
    {ops : List (List StreamAction)} (hquiet : s.BeginsQuietly s' op) (hstatus : s'.status = s.status)
    (hops : ∀ b, Has ops b ↔ Has (op :: s.ops) b) : SendCovered { s' with ops := ops } := by
  intro hconnected
  rcases h (hstatus.symm.trans hconnected) with ⟨b, hb, hsends⟩ | hwrites | htoken | ⟨hswapped, hnone, hpending⟩
  · exact .inl ⟨b, (hops b).2 (has_cons.2 (.inr hb)), hsends⟩
  · rcases hquiet.writing with hsame | ⟨b, hb, hsends⟩
    · refine .inr (.inl ?_)
      show s'.writes ≠ []
      rwa [hsame]
    · exact .inl ⟨b, (hops b).2 (has_cons.2 (.inl hb)), hsends⟩
  · exact .inr (.inr (.inl (Int.le_trans (Int.le_of_eq hquiet.writeQuotaToken) htoken)))
  · refine .inr (.inr (.inr ⟨hquiet.swappedCalls.trans hswapped, ?_, ?_⟩))
    · intro m hm
      rcases has_cons.1 ((hops _).1 hm) with hm | hm
      · have hplain := (hquiet.plain _ hm).2.1
        cases hplain
      · exact hnone m hm
    · rcases hpending with hnil | hempty | htests
      · exact .inl (hquiet.pendingCalls.trans hnil)
      · exact .inr (.inl ((hops _).2 (has_cons.2 (.inr hempty))))
      · exact .inr (.inr ((hops _).2 (has_cons.2 (.inr htests))))

/-- The holder of the send token goes on. -/
theorem SendCovered.holder (h : s.SendCovered) (horderly : s.Orderly) (hfound : s.FoundNothing) {k : Nat}
    {rest : List StreamAction} (hk : s.ops[k]? = some (a :: rest)) (ha : a.sendHolds = 1) (input : StreamInput) :
    SendCovered { (s.act input a).1 with ops := Threads.advance s.ops k (s.act input a).2 } := by
  have hhas := has_of_getElem? hk
  have hcalm := horderly.steady.calm a hhas
  have hbefore := horderly.steady.tested a hhas (StreamAction.tested_of_sendHolds ha hcalm)
  obtain ⟨_, hothers⟩ := horderly.tokens.holdsOne.alone hk ha
  have hnobody : ∀ m, ¬Has (Threads.advance s.ops k []) (.insertIntoPendingQueue m) := by
    intro m hm
    have hzero := hothers _ hm
    cases hzero
  intro _
  rcases act_holderCovers horderly.counters input ha hcalm hbefore (by rintro rfl; exact hfound hhas) with
    ⟨b, hb, hsends⟩ | hwrites | htoken | ⟨hswapped, hnone, hpending⟩ | ⟨rfl, hwrites, htoken, hswapped, hpending, hpushed⟩ |
    ⟨⟨m, rfl⟩, hwrites, htoken⟩
  · exact .inl ⟨b, (has_advance hk).2 (.inl hb), hsends⟩
  · exact .inr (.inl hwrites)
  · exact .inr (.inr (.inl htoken))
  · refine .inr (.inr (.inr ⟨hswapped, ?_, ?_⟩))
    · intro m hm
      rcases (has_advance hk).1 hm with hm | hm
      · exact hnone m hm
      · exact hnobody m hm
    · rcases hpending with hnil | hempty | htests
      · exact .inl hnil
      · exact .inr (.inl ((has_advance hk).2 (.inl hempty)))
      · exact .inr (.inr ((has_advance hk).2 (.inl htests)))
  · -- the holder that was denied releases the token: what was a reason before still is
    rcases h hbefore with ⟨b, hb, hsends⟩ | hwriting | hzero | ⟨hnil, _, hpend⟩
    · exact .inl ⟨b, hb.advance hk (by rintro rfl; cases hsends) _, hsends⟩
    · refine .inr (.inl ?_)
      show (s.act input .sendReleaseToken).1.writes ≠ []
      rwa [hwrites]
    · exact .inr (.inr (.inl (Int.le_trans (Int.le_of_eq htoken) hzero)))
    · refine .inr (.inr (.inr ⟨hswapped.trans hnil, ?_, ?_⟩))
      · intro m hm
        rcases (has_advance hk).1 hm with hm | hm
        · rw [hpushed] at hm
          cases hm
        · exact hnobody m hm
      · rcases hpend with hnil | hempty | htests
        · exact .inl (hpending.trans hnil)
        · exact .inr (.inl (hempty.advance hk nofun _))
        · exact .inr (.inr (htests.advance hk nofun _))
  · -- the message that was denied is put back
    rcases h hbefore with ⟨b, hb, hsends⟩ | hwriting | hzero | ⟨_, hnone, _⟩
    · exact .inl ⟨b, hb.advance hk (by rintro rfl; cases hsends) _, hsends⟩
    · refine .inr (.inl ?_)
      show (s.act input (.insertIntoPendingQueue m)).1.writes ≠ []
      rwa [hwrites]
    · exact .inr (.inr (.inl (Int.le_trans (Int.le_of_eq htoken) hzero)))
    · exact absurd hhas (hnone m)

theorem SendsElsewhere.covers {k : Nat} {rest : List StreamAction} (h : s.SendsElsewhere k)
    (hk : s.ops[k]? = some (a :: rest)) {r : StreamThreads × List StreamAction} (hwrites : r.1.writes = s.writes)
    (htoken : r.1.writeQuotaToken = s.writeQuotaToken) : SendCovered { r.1 with ops := advance s.ops k r.2 } := by
  intro _
  rcases h with hwriting | hzero | ⟨b, hb, hsends⟩
  · refine .inr (.inl ?_)
    show r.1.writes ≠ []
    rwa [hwrites]
  · exact .inr (.inr (.inl (Int.le_trans (Int.le_of_eq htoken) hzero)))
  · exact .inl ⟨b, (has_advance hk).2 (.inr hb), hsends⟩

theorem SendCovered.advance (h : s.SendCovered) (horderly : s.Orderly) (hfound : s.FoundNothing) {k : Nat}
    {rest : List StreamAction} (hk : s.ops[k]? = some (a :: rest)) {input : StreamInput} (hheeded : s.Heeded k input a) :
    SendCovered { (s.act input a).1 with ops := Threads.advance s.ops k (s.act input a).2 } := by
  by_cases ha : a.sendHolds = 1
  · exact h.holder horderly hfound hk ha input
  have hzero : a.sendHolds = 0 := a.sendHolds_cases.resolve_right ha
  have hhas := has_of_getElem? hk
  intro hconnected
  rcases act_sends input (horderly.steady.calm a hhas) hzero hconnected with ⟨b, hb, hsends⟩ | htoken |
    ⟨hbefore, hwrites, htoken, hswapped, hpending, hnone, hnot, hcount⟩ | ⟨hlocked, hgives⟩
  · exact .inl ⟨b, (has_advance hk).2 (.inl hb), hsends⟩
  · exact .inr (.inr (.inl htoken))
  · -- the thread does something else
    rcases h hbefore with ⟨b, hb, hsends⟩ | hwriting | hless | ⟨hnil, hnobody, hpend⟩
    · have hne : b ≠ a := by
        rintro rfl
        rw [hnot] at hsends
        cases hsends
      exact .inl ⟨b, hb.advance hk hne _, hsends⟩
    · refine .inr (.inl ?_)
      show (s.act input a).1.writes ≠ []
      rwa [hwrites]
    · exact .inr (.inr (.inl (Int.le_trans (Int.le_of_eq htoken) hless)))
    · refine .inr (.inr (.inr ⟨hswapped.trans hnil, ?_, ?_⟩))
      · intro m hm
        rcases (has_advance hk).1 hm with hm | hm
        · exact hnone m hm
        · exact hnobody m hm.of_advance
      · by_cases htest : a = .testPendingCount
        · have hlength := horderly.counters.pendingMessageCount
          rw [hcount htest] at hlength
          have hempty : s.pendingCalls = [] := List.eq_nil_of_length_eq_zero (by omega)
          exact .inl (hpending.trans hempty)
        · rcases hpend with hempty | hempty | htests
          · exact .inl (hpending.trans hempty)
          · exact .inr (.inl (hempty.advance hk (by rintro rfl; cases hzero) _))
          · exact .inr (.inr (htests.advance hk (Ne.symm htest) _))
  · -- the send token is locked
    have hact : s.act input a = (s, []) := by rcases hgives with rfl | rfl <;> simp [act, hlocked]
    rw [hact] at hconnected ⊢
    by_cases hdenied : ∃ b, Has s.ops b ∧ b.sendDenied = true
    · have helsewhere : s.SendsElsewhere k := by
        rcases hgives with rfl | rfl
        · exact hheeded hlocked hdenied
        · exact hheeded hlocked hdenied
      exact helsewhere.covers hk (r := (s, [])) rfl rfl hconnected
    · rcases horderly.sender hlocked with hwriting | ⟨b, hb, hone, hdenies | hsends | rfl⟩
      · exact .inr (.inl hwriting)
      · exact absurd ⟨b, hb, hdenies⟩ hdenied
      · exact .inl ⟨b, hb.advance hk (by rintro rfl; exact ha hone) _, hsends⟩
      · refine .inr (.inr (.inr ⟨hfound hb, ?_, .inr (.inl (hb.advance hk (by rintro rfl; exact ha hone) _))⟩))
        exact fun m hm => hdenied ⟨_, hm.of_advance, rfl⟩

/-- Only the holder that takes a message can find nothing. -/
theorem act_foundNothing (input : StreamInput) (h : .emptyReleaseToken ∈ (s.act input a).2) :
    (s.act input a).1.swappedCalls = [] := by
  have hget : .emptyReleaseToken ∈ s.getFromPendingQueue.2 → s.getFromPendingQueue.1.swappedCalls = [] := by
    rcases getFromPendingQueue_cases (s := s) with ⟨hnil, heq⟩ | ⟨m, ms, _, heq⟩
    · rw [heq]
      exact fun _ => hnil
    · rw [heq]
      simp
  have hwrite : ∀ n, .emptyReleaseToken ∉ (s.onWriteSome n).2 := by
    intro n
    rcases onWriteSome_cases (s := s) (n := n) with ⟨b, bs, _, _, heq⟩ | ⟨_, _, heq⟩ | ⟨_, heq⟩ <;> rw [heq] <;> simp
  cases a
  case getFromPendingQueue => exact hget h
  case onWriteSome error n =>
    dsimp only [act] at h
    split_ifs at h
    · exact absurd h List.not_mem_nil
    · cases List.mem_singleton.1 h
    · exact absurd h (hwrite n)
  case onReadSome outcome  =>
    dsimp only [act] at h
    split_ifs at h
    · exact absurd h List.not_mem_nil
    · cases outcome <;> simp at h
  all_goals
    dsimp only [act] at h
    (try split_ifs at h) <;>
      first
      | exact absurd h List.not_mem_nil
      | simp at h

theorem FoundNothing.advance (h : s.FoundNothing) (horderly : s.Orderly) {k : Nat} {rest : List StreamAction}
    (hk : s.ops[k]? = some (a :: rest)) (input : StreamInput) :
    FoundNothing { (s.act input a).1 with ops := Threads.advance s.ops k (s.act input a).2 } := by
  intro hempty
  rcases (has_advance hk).1 hempty with hempty | hempty
  · exact act_foundNothing input hempty
  · by_cases ha : a.sendHolds = 1
    · obtain ⟨_, hothers⟩ := horderly.tokens.holdsOne.alone hk ha
      have hzero := hothers _ hempty
      cases hzero
    · have hzero : a.sendHolds = 0 := a.sendHolds_cases.resolve_right ha
      exact (act_sameHand input hzero).swappedCalls.trans (h hempty.of_advance)

/-- What holds of a run in which every step meets the condition. -/
structure Roused (s : StreamThreads) : Prop where
  orderly   : s.Orderly
  tests     : s.TestsAsServer
  receiving : s.ReceiveCovered
  found     : s.FoundNothing
  sending   : s.SendCovered

theorem Roused.step (s : StreamThreads) (e : StreamEvent) (h : s.Roused) (hwoken : s.Woken e) : (s.step e).Roused := by
  obtain ⟨hcalm, hheeded⟩ := hwoken
  have horderly := Orderly.step s e h.orderly hcalm
  rcases step_cases (s := s) e with hsame | ⟨s', op, ops, hbegins, hops, hweight, hstep⟩ | ⟨k, input, a, rest, rfl, hk, hstep⟩
  · rw [hsame]
    exact h
  · rw [hstep] at horderly ⊢
    have hquiet := begins_quietly hbegins
    have hstatus := (begins_phase hbegins).status
    refine ⟨horderly, ?_, h.receiving.begins hquiet hstatus hops (hweight _), ?_, h.sending.begins hquiet hstatus hops⟩
    · intro hclient b hb
      rcases has_cons.1 ((hops b).1 hb) with hb | hb
      · exact (hquiet.plain b hb).1
      · exact h.tests (fun hserver => hclient (hquiet.netType.trans hserver)) b hb
    · intro hempty
      rcases has_cons.1 ((hops _).1 hempty) with hb | hb
      · exact absurd rfl (hquiet.plain _ hb).2.2
      · exact hquiet.swappedCalls.trans (h.found hb)
  · replace hheeded : s.Heeds k input s.ops[k]? := hheeded
    rw [hk] at hheeded
    rw [hstep] at horderly ⊢
    refine ⟨horderly, ?_, h.receiving.advance h.orderly h.tests hk hheeded, h.found.advance h.orderly hk input,
      h.sending.advance h.orderly h.found hk hheeded⟩
    intro hclient b hb
    replace hclient : s.netType ≠ .server := fun hserver => hclient ((act_settings (s := s) (a := a) input).1.trans hserver)
    rcases (has_advance hk).1 hb with hb | hb
    · exact act_testsPending input hclient (h.tests hclient a (has_of_getElem? hk)) b hb
    · exact h.tests hclient b hb.of_advance

theorem roused_init (netType : NetType) (transportType : TransportType) (limit : Int) :
    (init netType transportType limit).Roused where
  orderly   := orderly_init netType transportType limit
  tests     := by simp [TestsAsServer, init]
  receiving := by simp [ReceiveCovered, init]
  found     := fun _ => rfl
  sending   := by simp [SendCovered, init]

/-- **In every run in which nothing fails and the last thread on its way to a read or a write does not go away while the
holder of the token was denied, nor for a size that the queues do not have or will not have: on a connected stream that no
thread is in, there is a read or the read quota token says that one waits or the queues of a server are too long, and there
is a write or the write quota token says so, if anything is queued.** -/
theorem run_woken (netType : NetType) (transportType : TransportType) (limit : Int) (es : List StreamEvent)
    (hwoken : Along step Woken (init netType transportType limit) es) :
    let s := es.foldl step (init netType transportType limit)
    s.status = .connected → (∀ a, Has s.ops a → a.inside = false) →
    (0 < s.reads ∨ s.readQuotaToken ≤ 0 ∨
      s.netType = .server ∧ s.maxPendingBufferSize < s.pendingBufferSize + s.swappedBufferSize) ∧
    (s.pendingCalls ≠ [] ∨ s.swappedCalls ≠ [] → s.writes ≠ [] ∨ s.writeQuotaToken ≤ 0) := by
  intro s hconnected hnobody
  have h : s.Roused := Run.foldl_inv Roused.step es (roused_init netType transportType limit) hwoken
  have houtside : ∀ {w : StreamAction → Bool}, (∀ a, w a = true → a.inside = true) → ¬∃ b, Has s.ops b ∧ w b = true := by
    rintro w hw ⟨b, hb, hwb⟩
    have hinside := hw b hwb
    rw [hnobody b hb] at hinside
    cases hinside
  constructor
  · rcases h.receiving hconnected with hthread | hreads | htoken | ⟨hserver, hlimit⟩
    · refine absurd hthread (houtside fun a ha => ?_)
      cases a <;> first | rfl | cases ha
    · exact .inl hreads
    · exact .inr (.inl htoken)
    · refine .inr (.inr ⟨hserver, ?_⟩)
      have hheld : weight StreamAction.heldSize s.ops = 0 := by
        apply weight_eq_zero
        intro a ha
        have hout := hnobody a ha
        cases a <;> first | rfl | cases hout
      simp only [sizeWithHeld, hheld, queueSize] at hlimit
      omega
  · intro hqueued
    rcases h.sending hconnected with hthread | hwrites | htoken | ⟨hswapped, _, hpending | hempty | htests⟩
    · refine absurd hthread (houtside fun a ha => ?_)
      cases a <;> first | rfl | cases ha
    · exact .inl hwrites
    · exact .inr htoken
    · rcases hqueued with hne | hne
      · exact absurd hpending hne
      · exact absurd hswapped hne
    · have hout := hnobody _ hempty
      cases hout
    · have hout := hnobody _ htests
      cases hout

/-- A read that is denied and woken by a trigger after that. -/
theorem run_woken_denied :
    let es : List StreamEvent := [.call .asyncConnect, .step 0 {}, .connectCompletes false] ++ List.replicate 10 (.step 0 {})
      ++ .step 0 { quota := 0 } :: List.replicate 9 (.step 0 {}) ++ .call .triggerReceive :: List.replicate 7 (.step 0 {})
    let s := es.foldl step (init .client .tcp 0)
    s.status = .connected ∧ (0 < s.reads ∨ s.readQuotaToken ≤ 0 ∨
      s.netType = .server ∧ s.maxPendingBufferSize < s.pendingBufferSize + s.swappedBufferSize) := by
  intro es s
  have hconnected : s.status = .connected := by decide +kernel
  have hwoken : Along step Woken (init .client .tcp 0) es := by decide +kernel
  have hnobody : ∀ op ∈ s.ops, op = [] := by decide +kernel
  refine ⟨hconnected, (run_woken .client .tcp 0 es hwoken hconnected ?_).1⟩
  rintro a ⟨op, hop, ha⟩
  rw [hnobody op hop] at ha
  cases ha

/-- A trigger comes between the denial of a read and the release of its token: it raises the quota token and goes away.
Nobody reads, and nobody knows that somebody waits. -/
theorem wakeup_lost :
    let es : List StreamEvent := [.call .asyncConnect, .step 0 {}, .connectCompletes false] ++ List.replicate 10 (.step 0 {})
      ++ [.step 0 { quota := 0 }, .call .triggerReceive, .step 0 {}, .step 0 {}] ++ List.replicate 9 (.step 1 {})
    let s := es.foldl step (init .client .tcp 0)
    (∀ e ∈ es, e.calm = true) ∧ s.status = .connected ∧ (∀ a, Has s.ops a → a.inside = false) ∧
    ¬(0 < s.reads ∨ s.readQuotaToken ≤ 0 ∨
      s.netType = .server ∧ s.maxPendingBufferSize < s.pendingBufferSize + s.swappedBufferSize) := by
  intro es s
  have hnobody : ∀ op ∈ s.ops, op = [] := by decide +kernel
  refine ⟨List.all_eq_true.1 rfl, by decide +kernel, ?_, by decide +kernel⟩
  rintro a ⟨op, hop, ha⟩
  rw [hnobody op hop] at ha
  cases ha

end StreamThreads

end Gb
