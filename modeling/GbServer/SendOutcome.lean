import Mathlib.Data.List.Perm.Subperm
import GbServer.SendLedger
/-!
# SendOutcome — what becomes of a message

A message that `async_send_message` was called with is reported by `on_sent` or by `on_send_failed`, or is in the hand of a
thread or in one of the queues (`Accounts`).  `close` reports nothing: a message that is queued then, or that is on its
way from the test that the stream is not closed to its write's completion, is lost.

`run_reported` is about runs in which no `close` finds such a message.
-/
namespace Gb

open Run (Along)
open Threads Tally

namespace StreamAction

/-- The message of an action that has its own. -/
def own : StreamAction → List SendMessage
  | acquireWriteQuota m      => [m]
  | insertIntoPendingQueue m => [m]
  | asyncSendMessage m       => [m]
  | putIntoPendingQueue m    => [m]
  | _                        => []

/-- The action has the message of the stream, `_sending_message`. -/
def uses : StreamAction → Nat
  | asyncWriteSome  => 1
  | onWriteSome _ _ => 1
  | onSendFailed    => 1
  | onSent          => 1
  | _               => 0

/-- The action has a message that it does not report. -/
def carries : StreamAction → Bool
  | putIntoPendingQueue _    => true
  | acquireWriteQuota _      => true
  | insertIntoPendingQueue _ => true
  | asyncWriteSome           => true
  | onWriteSome _ _          => true
  | _                        => false

/-- The action reports a message. -/
def reports : StreamAction → Bool
  | asyncSendMessage _ => true
  | onSendFailed       => true
  | onSent             => true
  | _                  => false

/-- Behind the test of `try_start_send` that the stream is connected. -/
def sendTested : StreamAction → Bool
  | sendTakeToken            => true
  | getFromPendingQueue      => true
  | acquireWriteQuota _      => true
  | insertIntoPendingQueue _ => true
  | asyncWriteSome           => true
  | onWriteSome _ _          => true
  | _                        => false

/-- An action that neither has a message nor reports one. -/
theorem uses_own_of_quiet {a : StreamAction} (hcarries : a.carries = false) (hreports : a.reports = false) :
    a.uses = 0 ∧ a.own = [] := by
  cases a <;> first | exact ⟨rfl, rfl⟩ | (cases hcarries; done) | cases hreports

end StreamAction

open Classical in
/-- How often a message is in a list. -/
noncomputable def copies (m : SendMessage) (ms : List SendMessage) : Nat := ms.count m

@[simp] theorem copies_nil (m : SendMessage) : copies m [] = 0 := by simp [copies]

@[simp] theorem copies_append (m : SendMessage) (ms ns : List SendMessage) :
    copies m (ms ++ ns) = copies m ms + copies m ns := by
  simp [copies]

theorem copies_cons (m n : SendMessage) (ns : List SendMessage) : copies m (n :: ns) = copies m [n] + copies m ns := by
  rw [← List.singleton_append, copies_append]

namespace StreamThreads

variable {s : StreamThreads} {a : StreamAction}

/-- No message is lost by a `close` now. -/
structure Clear (s : StreamThreads) : Prop where
  pendingCalls : s.pendingCalls = []
  swappedCalls : s.swappedCalls = []
  writes       : s.writes = []
  threads      : ¬Anywhere s.ops StreamAction.carries

instance (s : StreamThreads) : Decidable s.Clear :=
  decidable_of_iff
    (s.pendingCalls = [] ∧ s.swappedCalls = [] ∧ s.writes = [] ∧ ¬Anywhere s.ops StreamAction.carries)
    ⟨fun ⟨hpending, hswapped, hwrites, hthreads⟩ => ⟨hpending, hswapped, hwrites, hthreads⟩,
      fun ⟨hpending, hswapped, hwrites, hthreads⟩ => ⟨hpending, hswapped, hwrites, hthreads⟩⟩

def FindsClear (s : StreamThreads) : Option (List StreamAction) → Prop
  | some (.close :: _) => s.status = .closed ∨ s.Clear
  | _                  => True

/-- The condition on a step: a `close` that closes the stream finds no message. -/
def ClosesClear (s : StreamThreads) : StreamEvent → Prop
  | .step k _ => s.FindsClear s.ops[k]?
  | _         => True

/-- The stream was connected. -/
def Settled (s : StreamThreads) : Prop := s.phase = .done ∧ (s.status = .connected ∨ s.status = .closed)

/-- How often a message is reported or queued. -/
noncomputable def stored (s : StreamThreads) (m : SendMessage) : Nat :=
  copies m s.sent + copies m s.failed + copies m s.pendingCalls + copies m s.swappedCalls

/-- How many have the message of the stream. -/
def inUse (s : StreamThreads) : Nat := weight StreamAction.uses s.ops + s.writes.length

/-- What became of the messages. -/
structure Accounts (s : StreamThreads) : Prop where
  phases  : s.Phases
  one     : s.HoldsOne
  way     : ∀ a, Has s.ops a → a.sendTested = true → s.Settled
  writing : s.writes ≠ [] → s.Settled
  fits    : ∀ m, Has s.ops (.acquireWriteQuota m) → s.sendingMessage = some m
  closed  : s.status = .closed → s.Clear
  count   : ∀ m, copies m s.accepted =
    s.stored m + weight (fun a => copies m a.own) s.ops + s.inUse * copies m s.sendingMessage.toList

/-! ## One step -/

/-- What does not hold the send token. -/
theorem act_stored (input : StreamInput) (m : SendMessage) (ha : a.sendHolds = 0) :
    (s.act input a).1.accepted = s.accepted ∧ tally StreamAction.uses (s.act input a).2 = 0 ∧
    (s.act input a).1.stored m + tally (fun b => copies m b.own) (s.act input a).2 = s.stored m + copies m a.own := by
  cases a
  case onReadSome outcome =>
    dsimp only [act]
    split_ifs
    · exact ⟨rfl, rfl, rfl⟩
    · cases outcome <;> exact ⟨rfl, rfl, rfl⟩
  case asyncSendMessage n    =>
    dsimp only [act]
    split_ifs
    · refine ⟨rfl, rfl, ?_⟩
      simp [stored, StreamAction.own]
      omega
    · exact ⟨rfl, rfl, rfl⟩
  case putIntoPendingQueue n =>
    refine ⟨rfl, rfl, ?_⟩
    simp [act, stored, StreamAction.own, StreamThreads.putIntoPendingQueue]
    omega
  all_goals
    dsimp only [act]
    (try split_ifs) <;>
      first
      | exact ⟨rfl, rfl, rfl⟩
      | exact absurd ha Nat.one_ne_zero

theorem swapCalls_stored (m : SendMessage) : s.swapCalls.stored m = s.stored m := by
  unfold swapCalls
  split
  · next hswap =>
    simp [stored, hswap.1]
  · rfl

/-- What the holder of the send token leaves of the messages. -/
structure Keeps (s : StreamThreads) (a : StreamAction) (r : StreamThreads × List StreamAction) : Prop where
  accepted : r.1.accepted = s.accepted
  fits     : ∀ m, .acquireWriteQuota m ∈ r.2 → r.1.sendingMessage = some m
  stored   : ∀ m, r.1.stored m + tally (fun b => copies m b.own) r.2 +
    (tally StreamAction.uses r.2 + r.1.writes.length) * copies m r.1.sendingMessage.toList =
      s.stored m + copies m a.own + a.uses * copies m s.sendingMessage.toList

theorem getFromPendingQueue_keeps (hwrites : s.writes = []) : s.Keeps .getFromPendingQueue s.getFromPendingQueue := by
  have hqueues := s.swapCalls_withoutQueues
  have hwrites' : s.swapCalls.writes = [] := (congrArg writes hqueues :).trans hwrites
  have haccepted : s.swapCalls.accepted = s.accepted := (congrArg accepted hqueues :)
  rcases getFromPendingQueue_cases (s := s) with ⟨_, heq⟩ | ⟨m, ms, hms, heq⟩
  · rw [heq]
    refine ⟨haccepted, by simp, fun n => ?_⟩
    simp [StreamAction.own, StreamAction.uses, swapCalls_stored, hwrites']
  · rw [heq]
    refine ⟨haccepted, by simp [takeMessage], fun n => ?_⟩
    have hstored := swapCalls_stored (s := s) n
    simp only [stored, hms, copies_cons n m ms] at hstored
    simp [StreamAction.own, StreamAction.uses, stored, takeMessage, hwrites']
    omega

theorem onWriteSome_keeps {n : Nat} {error : Bool} (hwrites : s.writes = []) : s.Keeps (.onWriteSome error n) (s.onWriteSome n) := by
  rcases onWriteSome_cases (s := s) (n := n) with ⟨b, bs, _, _, heq⟩ | ⟨_, _, heq⟩ | ⟨_, heq⟩ <;> rw [heq] <;>
    refine ⟨rfl, by simp, fun m => ?_⟩ <;> simp [StreamAction.own, StreamAction.uses, stored, hwrites]

theorem act_keeps (input : StreamInput) (ha : a.sendHolds = 1) (hwrites : s.writes = [])
    (hfits : ∀ m, a = .acquireWriteQuota m → s.sendingMessage = some m)
    (hstatus : ∀ error n, a = .onWriteSome error n → s.status = .connected) : s.Keeps a (s.act input a) := by
  cases a
  case getFromPendingQueue      => exact getFromPendingQueue_keeps hwrites
  case onWriteSome error n      =>
    have hconnected := hstatus error n rfl
    cases error with
    | false =>
      have hact : s.act input (.onWriteSome false n) = s.onWriteSome n := by simp [act, hconnected]
      rw [hact]
      exact onWriteSome_keeps hwrites
    | true  =>
      refine ⟨by simp [act, hconnected], by simp [act, hconnected], fun m => ?_⟩
      simp [act, hconnected, StreamAction.own, StreamAction.uses, hwrites]
  case acquireWriteQuota m      =>
    have hmessage := hfits m rfl
    by_cases hquota : input.quota ≤ 0
    · refine ⟨by simp [act, hquota], by simp [act, hquota], fun n => ?_⟩
      simp [act, hquota, stored, StreamAction.own, StreamAction.uses, hwrites]
    · refine ⟨by simp [act, hquota, nextBlock], by simp [act, hquota], fun n => ?_⟩
      simp [act, hquota, nextBlock, stored, StreamAction.own, StreamAction.uses, hwrites, hmessage]
  case insertIntoPendingQueue m =>
    refine ⟨rfl, by simp [act], fun n => ?_⟩
    simp only [act, StreamThreads.insertIntoPendingQueue, stored, StreamAction.own, StreamAction.uses,
      copies_cons n m s.swappedCalls, hwrites, tally_cons, tally_nil, copies_nil]
    simp
    omega
  case sentReleaseToken         =>
    refine ⟨rfl, ?_, fun n => ?_⟩
    · simp only [act]
      split <;> simp
    · simp only [act, stored]
      split <;> simp [StreamAction.own, StreamAction.uses, hwrites]
  all_goals
    first
    | cases ha
      done
    | refine ⟨rfl, by simp [act], fun n => ?_⟩
      simp [act, stored, StreamAction.own, StreamAction.uses, hwrites]
  all_goals omega

theorem none_sendTested {l : List StreamAction} {P : Prop} (h : l.all (fun b => !b.sendTested) = true) :
    ∀ b ∈ l, b.sendTested = true → P := by
  intro b hb hb'
  have hnone := List.all_eq_true.1 h b hb
  rw [hb'] at hnone
  exact absurd hnone Bool.false_ne_true

theorem none_carries {l : List StreamAction} (h : l.all (fun b => !b.carries) = true) : ∀ b ∈ l, b.carries = false := by
  intro b hb
  simpa using List.all_eq_true.1 h b hb

/-- A thread goes to the send token from a connected stream. -/
theorem act_sendTested (input : StreamInput) :
    (∀ b ∈ (s.act input a).2, b.sendTested = true → a.sendTested = true ∨ s.status = .connected) ∧
    ((s.act input a).1.writes ≠ [] → s.writes ≠ [] ∨ a.sendTested = true) := by
  have hget : s.getFromPendingQueue.1.writes = s.writes := (congrArg writes s.getFromPendingQueue_withoutQueues :)
  have hwrite : ∀ n, (s.onWriteSome n).1.writes = s.writes := fun n => (congrArg writes s.onWriteSome_withoutQueues :)
  cases a
  case getFromPendingQueue => exact ⟨fun _ _ _ => .inl rfl, fun h => .inl (hget ▸ h)⟩
  case onWriteSome error n =>
    refine ⟨fun _ _ _ => .inl rfl, fun h => .inr rfl⟩
  case asyncWriteSome      => exact ⟨fun b hb => absurd hb List.not_mem_nil, fun _ => .inr rfl⟩
  case onReadSome outcome  =>
    dsimp only [act]
    split_ifs
    · exact ⟨none_sendTested rfl, .inl⟩
    · cases outcome <;> exact ⟨none_sendTested rfl, .inl⟩
  all_goals
    dsimp only [act]
    (try split_ifs) <;>
      first
      -- a thread that is behind the test, or goes there, or not
      | exact ⟨none_sendTested rfl, .inl⟩
      | exact ⟨fun _ _ _ => .inl rfl, .inl⟩
      | exact ⟨fun _ _ _ => .inr ‹_›, .inl⟩

theorem getFromPendingQueue_empty (h : s.Clear) : s.getFromPendingQueue = (s, [.emptyReleaseToken]) := by
  have hswap : s.swapCalls = s := by
    unfold swapCalls
    rw [if_neg]
    exact fun hne => hne.2.2 h.pendingCalls
  rcases getFromPendingQueue_cases (s := s) with ⟨_, heq⟩ | ⟨m, ms, hms, heq⟩
  · rw [heq, hswap]
  · rw [hswap, h.swappedCalls] at hms
    cases hms

/-- No message comes to a closed stream. -/
theorem act_clear (input : StreamInput) (h : s.Clear) (hclosed : s.status = .closed) (ha : a.carries = false) :
    (s.act input a).1.pendingCalls = [] ∧ (s.act input a).1.swappedCalls = [] ∧ (s.act input a).1.writes = [] ∧
    ∀ b ∈ (s.act input a).2, b.carries = false := by
  have hpending := h.pendingCalls
  have hswapped := h.swappedCalls
  have hwrites := h.writes
  have hget := getFromPendingQueue_empty h
  have hnot : s.status ≠ .connected := fun hconnected => nomatch hclosed.symm.trans hconnected
  cases a
  case getFromPendingQueue =>
    have hact : s.act input .getFromPendingQueue = s.getFromPendingQueue := rfl
    rw [hact, hget]
    exact ⟨hpending, hswapped, hwrites, none_carries rfl⟩
  case onReadSome outcome  =>
    dsimp only [act]
    rw [if_pos hnot]
    exact ⟨hpending, hswapped, hwrites, none_carries rfl⟩
  case onWriteSome error n =>
    dsimp only [act]
    rw [if_pos hnot]
    exact ⟨hpending, hswapped, hwrites, none_carries rfl⟩
  all_goals
    dsimp only [act]
    (try split_ifs) <;>
      first
      | exact ⟨hpending, hswapped, hwrites, none_carries rfl⟩
      | exact absurd ha.symm Bool.false_ne_true

/-- What begins, as to the messages. -/
structure Brings (s s' : StreamThreads) (op : List StreamAction) : Prop where
  sendingMessage : s'.sendingMessage = s.sendingMessage
  pendingCalls   : s'.pendingCalls = s.pendingCalls
  swappedCalls   : s'.swappedCalls = s.swappedCalls
  stored         : ∀ m, s'.stored m = s.stored m
  writes         : s'.writes ≠ [] → s.writes ≠ []
  uses           : tally StreamAction.uses op + s'.writes.length = s.writes.length
  accepted       : ∀ m, copies m s'.accepted = copies m s.accepted + tally (fun b => copies m b.own) op
  threads        : ∀ b ∈ op, b.sendTested = true ∨ b.carries = true → s.writes ≠ []
  fits           : ∀ m, .acquireWriteQuota m ∉ op

theorem begins_brings {e : StreamEvent} {s' : StreamThreads} {op : List StreamAction} (hbegins : s.Begins e s' op) :
    s.Brings s' op := by
  have hcall : ∀ c : StreamCall, s.Brings (s.call c).1 (s.call c).2 := by
    intro c
    cases c <;> simp only [call] <;> (try split_ifs) <;> constructor <;>
      simp [StreamAction.uses, StreamAction.own, StreamAction.sendTested, StreamAction.carries, StreamThreads.stored]
  cases hbegins with
  | call c                                   => exact hcall c
  | inCallback k c                           => exact hcall c
  | accept hphase                            =>
    unfold acceptActions
    split <;> constructor <;>
      simp [StreamAction.uses, StreamAction.own, StreamAction.sendTested, StreamAction.carries, StreamThreads.stored]
  | connectCompletes error hphase            =>
    unfold connectActions
    split <;> constructor <;>
      simp [StreamAction.uses, StreamAction.own, StreamAction.sendTested, StreamAction.carries, StreamThreads.stored]
  | connectTimeout aborted                   =>
    constructor <;> simp [StreamAction.uses, StreamAction.own, StreamAction.sendTested, StreamAction.carries]
  | readCompletes outcome hreads             =>
    constructor <;>
      simp [StreamAction.uses, StreamAction.own, StreamAction.sendTested, StreamAction.carries, StreamThreads.stored]
  | writeCompletes i error n chunk hchunk hn =>
    obtain ⟨hi, _⟩ := List.getElem?_eq_some_iff.1 hchunk
    have hwrites : s.writes ≠ [] := by
      rintro hnil
      simp [hnil] at hchunk
    constructor <;>
      simp [StreamAction.uses, StreamAction.own, StreamThreads.stored, hwrites, List.length_eraseIdx, hi]
    omega

/-! ## Runs -/

theorem Settled.moves (h : s.Settled) (hphases : s.Phases) (ha : Has s.ops a) {r : StreamThreads × List StreamAction}
    (hmoves : s.Moves a r) : r.1.Settled := by
  refine ⟨hphases.done ha hmoves h.1, ?_⟩
  rcases hmoves.status with hsame | hclosed | hconnected | rfl
  · rw [hsame]
    exact h.2
  · exact .inr hclosed
  · exact .inl hconnected
  · have hcalled := hphases.called ha
    rw [h.1] at hcalled
    cases hcalled

theorem Accounts.begins (h : s.Accounts) {e : StreamEvent} {s' : StreamThreads} {op : List StreamAction}
    (hbegins : s.Begins e s' op) {ops : List (List StreamAction)} (hops : ∀ b, Has ops b ↔ Has (op :: s.ops) b)
    (hweight : ∀ w, weight w ops = weight w (op :: s.ops)) (hone : HoldsOne { s' with ops := ops }) :
    Accounts { s' with ops := ops } := by
  have hphase := begins_phase hbegins
  have hbrings := begins_brings hbegins
  have hin : ∀ b, Has ops b → b ∈ op ∨ Has s.ops b := fun b hb => has_cons.1 ((hops b).1 hb)
  have hsettled : s.Settled → Settled { s' with ops := ops } := by
    rintro ⟨hdone, hstatus⟩
    refine ⟨hphase.done hdone, ?_⟩
    rw [← hphase.status] at hstatus
    exact hstatus
  refine ⟨h.phases.begins hphase hops (hweight _), hone, ?_, ?_, ?_, ?_, ?_⟩
  · intro b hb htested
    apply hsettled
    rcases hin b hb with hb | hb
    · exact h.writing (hbrings.threads b hb (.inl htested))
    · exact h.way b hb htested
  · exact fun hwrites => hsettled (h.writing (hbrings.writes hwrites))
  · intro m hm
    rcases hin _ hm with hm | hm
    · exact absurd hm (hbrings.fits m)
    · exact hbrings.sendingMessage.trans (h.fits m hm)
  · intro hclosed
    obtain ⟨hpending, hswapped, hwrites, hthreads⟩ := h.closed (hphase.status.symm.trans hclosed)
    refine ⟨hbrings.pendingCalls.trans hpending, hbrings.swappedCalls.trans hswapped, ?_, ?_⟩
    · by_contra hne
      exact hbrings.writes hne hwrites
    · rintro ⟨b, hb, hcarries⟩
      rcases hin b hb with hb | hb
      · exact hbrings.threads b hb (.inr hcarries) hwrites
      · exact hthreads ⟨b, hb, hcarries⟩
  · intro m
    have hcount := h.count m
    have hstored := hbrings.stored m
    have haccepted := hbrings.accepted m
    have huses := hbrings.uses
    have hown := hweight fun b => copies m b.own
    have hused := hweight StreamAction.uses
    rw [weight_cons] at hown hused
    have hinUse : inUse { s' with ops := ops } = s.inUse := by
      show weight StreamAction.uses ops + s'.writes.length = weight StreamAction.uses s.ops + s.writes.length
      omega
    rw [hinUse]
    show copies m s'.accepted = s'.stored m + weight (fun b => copies m b.own) ops
      + s.inUse * copies m s'.sendingMessage.toList
    rw [hbrings.sendingMessage]
    omega

/-- A thread goes on, and so do the messages. -/
theorem Accounts.count_advance (h : s.Accounts) {k : Nat} {rest : List StreamAction} (hk : s.ops[k]? = some (a :: rest))
    (input : StreamInput) :
    let s' := { (s.act input a).1 with ops := advance s.ops k (s.act input a).2 }
    (∀ m, Has s'.ops (.acquireWriteQuota m) → s'.sendingMessage = some m) ∧
    ∀ m, copies m s'.accepted = s'.stored m + weight (fun a => copies m a.own) s'.ops +
      s'.inUse * copies m s'.sendingMessage.toList := by
  intro s'
  have hhas := has_of_getElem? hk
  have hown := fun m => weight_advance (fun b => copies m b.own) (s.act input a).2 hk
  have huses := weight_advance StreamAction.uses (s.act input a).2 hk
  by_cases ha : a.sendHolds = 1
  · obtain ⟨hwrites, hothers⟩ := h.one.alone hk ha
    have hstatus : ∀ error n, a = .onWriteSome error n → s.status = .connected := by
      rintro error n rfl
      rcases (h.way _ hhas rfl).2 with hconnected | hclosed
      · exact hconnected
      · exact absurd ⟨_, hhas, rfl⟩ (h.closed hclosed).threads
    have hkeeps := act_keeps input ha hwrites (by rintro m rfl; exact h.fits m hhas) hstatus
    refine ⟨?_, fun m => ?_⟩
    · intro m hm
      rcases (has_advance hk).1 hm with hm | hm
      · exact hkeeps.fits m hm
      · have hzero := hothers _ hm
        cases hzero
    · -- nobody else has the message of the stream
      have hnobody : weight StreamAction.uses (advance s.ops k []) = 0 := by
        apply weight_eq_zero
        intro b hb
        have hzero := hothers b hb
        cases b <;> first | rfl | cases hzero
      have halone := weight_advance StreamAction.uses [] hk
      rw [hnobody, tally_nil] at halone
      have hinUse : s.inUse = a.uses := by
        simp only [inUse, hwrites, List.length_nil]
        omega
      have hinUse' : s'.inUse = tally StreamAction.uses (s.act input a).2 + (s.act input a).1.writes.length := by
        show weight StreamAction.uses (advance s.ops k (s.act input a).2) + (s.act input a).1.writes.length = _
        omega
      have hcount := h.count m
      have hstored := hkeeps.stored m
      replace hown := hown m
      rw [hinUse'] 
      show copies m (s.act input a).1.accepted = (s.act input a).1.stored m + weight (fun b => copies m b.own) (advance s.ops k _)
        + _ * copies m (s.act input a).1.sendingMessage.toList
      rw [hkeeps.accepted]
      rw [hinUse] at hcount
      omega
  · have hzero : a.sendHolds = 0 := a.sendHolds_cases.resolve_right ha
    have hsame := act_sameHand (s := s) input hzero
    have hpushes := (act_takes (s := s) input hzero).2
    refine ⟨?_, fun m => ?_⟩
    · intro m hm
      rcases (has_advance hk).1 hm with hm | hm
      · have hget := (hpushes _ hm rfl).1
        cases hget
      · exact hsame.sendingMessage.trans (h.fits m hm.of_advance)
    · obtain ⟨haccepted, hnone, hstored⟩ := act_stored (s := s) input m hzero
      have hnot : a.uses = 0 := by cases a <;> first | rfl | cases hzero
      have hinUse : s'.inUse = s.inUse := by
        show weight StreamAction.uses (advance s.ops k (s.act input a).2) + (s.act input a).1.writes.length
          = weight StreamAction.uses s.ops + s.writes.length
        rw [hsame.writes]
        omega
      have hcount := h.count m
      replace hown := hown m
      rw [hinUse]
      show copies m (s.act input a).1.accepted = (s.act input a).1.stored m + weight (fun b => copies m b.own) (advance s.ops k _)
        + _ * copies m (s.act input a).1.sendingMessage.toList
      rw [haccepted, hsame.sendingMessage]
      omega

theorem Accounts.advance (h : s.Accounts) {k : Nat} {rest : List StreamAction} (hk : s.ops[k]? = some (a :: rest))
    {input : StreamInput} (hclear : a = .close → s.status = .closed ∨ s.Clear)
    (hone : HoldsOne { (s.act input a).1 with ops := Threads.advance s.ops k (s.act input a).2 }) :
    Accounts { (s.act input a).1 with ops := Threads.advance s.ops k (s.act input a).2 } := by
  have hhas := has_of_getElem? hk
  have hmoves := act_moves (s := s) (a := a) input
  obtain ⟨htested, hwriting⟩ := act_sendTested (s := s) (a := a) input
  obtain ⟨hfits, hcount⟩ := h.count_advance hk input
  have hsettled : s.Settled → Settled { (s.act input a).1 with ops := Threads.advance s.ops k (s.act input a).2 } := by
    intro hsettled
    exact hsettled.moves h.phases hhas hmoves
  refine ⟨h.phases.advance hk hmoves, hone, ?_, ?_, hfits, ?_, ?_⟩
  · intro b hb htest
    apply hsettled
    rcases (has_advance hk).1 hb with hb | hb
    · rcases htested b hb htest with htest | hconnected
      · exact h.way a hhas htest
      · exact ⟨h.phases.connected hconnected, .inl hconnected⟩
    · exact h.way b hb.of_advance htest
  · intro hwrites
    apply hsettled
    rcases hwriting hwrites with hwrites | htest
    · exact h.writing hwrites
    · exact h.way a hhas htest
  · intro hclosed
    by_cases hbefore : s.status = .closed
    · have hold := h.closed hbefore
      have ha : a.carries = false := by
        cases hcarries : a.carries
        · rfl
        · exact absurd ⟨a, hhas, hcarries⟩ hold.threads
      obtain ⟨hpending, hswapped, hwrites, hpushed⟩ := act_clear input hold hbefore ha
      refine ⟨hpending, hswapped, hwrites, ?_⟩
      rintro ⟨b, hb, hcarries⟩
      rcases (has_advance hk).1 hb with hb | hb
      · rw [hpushed b hb] at hcarries
        cases hcarries
      · exact hold.threads ⟨b, hb.of_advance, hcarries⟩
    · -- the stream is closed now
      obtain rfl := (hmoves.closed hclosed).resolve_left hbefore
      have hold := (hclear rfl).resolve_left hbefore
      have hact : s.act input .close = ({ s with status := .closed }, [.transportClose, .onClosed]) := by
        simp [act, hbefore]
      rw [hact]
      refine ⟨hold.pendingCalls, hold.swappedCalls, hold.writes, ?_⟩
      rintro ⟨b, hb, hcarries⟩
      rcases (has_advance hk).1 hb with hb | hb
      · simp only [List.mem_cons, List.not_mem_nil, or_false] at hb
        rcases hb with rfl | rfl <;> cases hcarries
      · exact hold.threads ⟨b, hb.of_advance, hcarries⟩
  · exact hcount

theorem Accounts.step (s : StreamThreads) (e : StreamEvent) (h : s.Accounts) (hclear : s.ClosesClear e) :
    (s.step e).Accounts := by
  have hone := h.one.step e
  rcases step_cases (s := s) e with hsame | ⟨s', op, ops, hbegins, hops, hweight, hstep⟩ | ⟨k, input, a, rest, rfl, hk, hstep⟩
  · rw [hsame]
    exact h
  · rw [hstep] at hone ⊢
    exact h.begins hbegins hops hweight hone
  · rw [hstep] at hone ⊢
    apply h.advance hk ?_ hone
    rintro rfl
    replace hclear : s.FindsClear s.ops[k]? := hclear
    rwa [hk] at hclear

theorem accounts_init (netType : NetType) (transportType : TransportType) (limit : Int) :
    (init netType transportType limit).Accounts where
  phases  := phases_init netType transportType limit
  one     := Nat.le_refl 0
  way     := by simp [init]
  writing := by simp [init]
  fits    := by simp [init]
  closed  := by simp [init]
  count   := by simp [init, stored]

/-- **In every run in which no `close` finds a message that is not reported: nothing is reported that was not accepted or
more often than that, and when the stream is closed and no thread is about to report anything, everything that was
accepted is reported, once.** -/
theorem run_reported (netType : NetType) (transportType : TransportType) (limit : Int) (es : List StreamEvent)
    (hclear : Along step ClosesClear (init netType transportType limit) es) :
    let s := es.foldl step (init netType transportType limit)
    (s.sent ++ s.failed).Subperm s.accepted ∧
    (s.status = .closed → (∀ a, Has s.ops a → a.reports = false) → s.accepted.Perm (s.sent ++ s.failed)) := by
  classical
  intro s
  have h : s.Accounts := Run.foldl_inv Accounts.step es (accounts_init netType transportType limit) hclear
  have hcopies : ∀ (m : SendMessage) (ms : List SendMessage), copies m ms = ms.count m := by
    intro m ms
    unfold copies
    congr
  refine ⟨?_, ?_⟩
  · rw [List.subperm_ext_iff]
    intro m _
    rw [← hcopies, ← hcopies, h.count m, copies_append, stored]
    omega
  · intro hclosed hquiet
    obtain ⟨hpending, hswapped, hwrites, hthreads⟩ := h.closed hclosed
    have hcarries : ∀ a, Has s.ops a → a.carries = false := by
      intro a ha
      cases hc : a.carries
      · rfl
      · exact absurd ⟨a, ha, hc⟩ hthreads
    have huses : weight StreamAction.uses s.ops = 0 := by
      apply weight_eq_zero
      intro a ha
      exact (StreamAction.uses_own_of_quiet (hcarries a ha) (hquiet a ha)).1
    rw [List.perm_iff_count]
    intro m
    have hown : weight (fun a => copies m a.own) s.ops = 0 := by
      apply weight_eq_zero
      intro a ha
      rw [(StreamAction.uses_own_of_quiet (hcarries a ha) (hquiet a ha)).2]
      rfl
    rw [← hcopies, ← hcopies, h.count m, copies_append, stored, hpending, hswapped, hown]
    simp [inUse, huses, hwrites]

/-- Whether a thread is about to close the stream. -/
def closes : Option (List StreamAction) → Bool
  | some (.close :: _) => true
  | _                  => false

theorem findsClear_iff (s : StreamThreads) (op : Option (List StreamAction)) :
    (closes op = true → s.status = .closed ∨ s.Clear) ↔ s.FindsClear op := by
  rcases op with _ | _ | ⟨a, rest⟩
  · simp [FindsClear, closes]
  · simp [FindsClear, closes]
  · cases a <;> simp [FindsClear, closes]

instance (s : StreamThreads) (op : Option (List StreamAction)) : Decidable (s.FindsClear op) :=
  decidable_of_iff _ (s.findsClear_iff op)

instance (s : StreamThreads) : ∀ e, Decidable (s.ClosesClear e)
  | .step k _ => inferInstanceAs (Decidable (s.FindsClear s.ops[k]?))
  | .call _ | .inCallback _ _ | .accept | .connectCompletes _ | .connectTimeout _ | .readCompletes _ | .writeCompletes _ _ _ =>
    isTrue trivial

/-- A message is written and reported, and the stream is closed after that. -/
theorem run_reported_sent :
    let m : SendMessage := { blocks := [[1, 2]], nonempty := by decide, small := by decide, totalBlockSize := 64 }
    let es : List StreamEvent := [.call .asyncConnect, .step 0 {}, .connectCompletes false] ++ List.replicate 20 (.step 0 {})
      ++ .call (.asyncSendMessage m) :: List.replicate 9 (.step 0 {}) ++ .writeCompletes 0 false 2 :: List.replicate 11 (.step 0 {})
      ++ .call .close :: List.replicate 4 (.step 0 {})
    let s := es.foldl step (init .client .tcp 0)
    s.accepted.length = 1 ∧ s.accepted.Perm (s.sent ++ s.failed) := by
  intro m es s
  have hclear : Along step ClosesClear (init .client .tcp 0) es := by decide +kernel
  have hnobody : ∀ op ∈ s.ops, op.all (fun a => !a.reports) = true := by decide +kernel
  refine ⟨by decide +kernel, (run_reported .client .tcp 0 es hclear).2 (by decide +kernel) ?_⟩
  rintro a ⟨op, hop, ha⟩
  simpa using List.all_eq_true.1 (hnobody op hop) a ha

/-- The application closes the stream while a message is being written: the message is never reported. -/
theorem message_lost :
    let m : SendMessage := { blocks := [[1, 2]], nonempty := by decide, small := by decide, totalBlockSize := 64 }
    let es : List StreamEvent := [.call .asyncConnect, .step 0 {}, .connectCompletes false] ++ List.replicate 20 (.step 0 {})
      ++ .call (.asyncSendMessage m) :: List.replicate 9 (.step 0 {}) ++ .call .close :: List.replicate 4 (.step 0 {})
      ++ [.writeCompletes 0 true 0, .step 0 {}]
    let s := es.foldl step (init .client .tcp 0)
    s.status = .closed ∧ s.writes = [] ∧ (∀ a, Has s.ops a → a.reports = false) ∧ ¬s.accepted.Perm (s.sent ++ s.failed) := by
  intro m es s
  have hnobody : ∀ op ∈ s.ops, op.all (fun a => !a.reports) = true := by decide +kernel
  refine ⟨by decide +kernel, by decide +kernel, ?_, ?_⟩
  · rintro a ⟨op, hop, ha⟩
    simpa using List.all_eq_true.1 (hnobody op hop) a ha
  · intro hperm
    have hlength : s.accepted.length ≠ (s.sent ++ s.failed).length := by decide +kernel
    exact hlength hperm.length_eq

end StreamThreads

end Gb
