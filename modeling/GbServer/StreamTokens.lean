import GbServer.StreamSteady
/-!
# StreamTokens — who holds the tokens of a stream

A token is locked for one holder: a thread on the way from taking it to releasing it, or a read or a write that is
outstanding.  On a stream that nothing fails on a locked token has its holder always (`Tokens`); otherwise it has at most
one (`HoldsOne`), as an error leaves the token locked for good.
-/
namespace Gb

open Run (Along)
open Threads Tally

namespace StreamAction

/-- The action is one of the holder of the send token. -/
def sendHolds : StreamAction → Nat
  | getFromPendingQueue      => 1
  | acquireWriteQuota _      => 1
  | insertIntoPendingQueue _ => 1
  | sendReleaseToken         => 1
  | emptyReleaseToken        => 1
  | asyncWriteSome           => 1
  | onWriteSome _ _          => 1
  | onSendFailed             => 1
  | onSent                   => 1
  | sentReleaseToken         => 1
  | _                        => 0

/-- The action is one of the holder of the receive token. -/
def receiveHolds : StreamAction → Nat
  | acquireReadQuota    => 1
  | receiveReleaseToken => 1
  | asyncReadSome       => 1
  | onReadSome _        => 1
  | readReleaseToken    => 1
  | _                   => 0

theorem sendHolds_cases (a : StreamAction) : a.sendHolds = 0 ∨ a.sendHolds = 1 := by
  cases a <;> first | exact .inl rfl | exact .inr rfl

theorem tested_of_sendHolds {a : StreamAction} (h : a.sendHolds = 1) (hcalm : a.calm = true) : a.tested = true := by
  cases a <;> simp_all [sendHolds, tested, calm]

end StreamAction

namespace StreamThreads

variable {s : StreamThreads} {a : StreamAction}

def isSending (s : StreamThreads) : Nat := s.sendTokenLocked.toNat

def isReceiving (s : StreamThreads) : Nat := s.receiveTokenLocked.toNat

/-- A locked token has one holder. -/
structure Tokens (s : StreamThreads) : Prop where
  sending   : weight StreamAction.sendHolds s.ops + s.writes.length = s.isSending
  receiving : weight StreamAction.receiveHolds s.ops + s.reads = s.isReceiving

/-- The send token has one holder at most. -/
def HoldsOne (s : StreamThreads) : Prop := weight StreamAction.sendHolds s.ops + s.writes.length ≤ s.isSending

/-! ## One step -/

theorem tokens_of_withoutQueues {s' : StreamThreads} (h : s'.withoutQueues = s.withoutQueues) :
    s'.isSending = s.isSending ∧ s'.isReceiving = s.isReceiving ∧ s'.writes = s.writes ∧ s'.reads = s.reads :=
  ⟨(congrArg isSending h :), (congrArg isReceiving h :), (congrArg writes h :), (congrArg reads h :)⟩

theorem getFromPendingQueue_tokens :
    s.getFromPendingQueue.1.isSending = s.isSending ∧ s.getFromPendingQueue.1.isReceiving = s.isReceiving ∧
    s.getFromPendingQueue.1.writes = s.writes ∧ s.getFromPendingQueue.1.reads = s.reads ∧
    tally StreamAction.sendHolds s.getFromPendingQueue.2 = 1 ∧ tally StreamAction.receiveHolds s.getFromPendingQueue.2 = 0 := by
  obtain ⟨hsending, hreceiving, hwrites, hreads⟩ := tokens_of_withoutQueues s.getFromPendingQueue_withoutQueues
  refine ⟨hsending, hreceiving, hwrites, hreads, ?_, ?_⟩
  · rcases getFromPendingQueue_cases (s := s) with ⟨_, heq⟩ | ⟨m, ms, _, heq⟩ <;> rw [heq] <;> rfl
  · rcases getFromPendingQueue_cases (s := s) with ⟨_, heq⟩ | ⟨m, ms, _, heq⟩ <;> rw [heq] <;> rfl

theorem onWriteSome_tokens {n : Nat} :
    (s.onWriteSome n).1.isSending = s.isSending ∧ (s.onWriteSome n).1.isReceiving = s.isReceiving ∧
    (s.onWriteSome n).1.writes = s.writes ∧ (s.onWriteSome n).1.reads = s.reads ∧
    tally StreamAction.sendHolds (s.onWriteSome n).2 = 1 ∧ tally StreamAction.receiveHolds (s.onWriteSome n).2 = 0 := by
  obtain ⟨hsending, hreceiving, hwrites, hreads⟩ := tokens_of_withoutQueues (s.onWriteSome_withoutQueues (n := n))
  refine ⟨hsending, hreceiving, hwrites, hreads, ?_, ?_⟩
  · rcases onWriteSome_cases (s := s) (n := n) with ⟨b, bs, _, _, heq⟩ | ⟨_, _, heq⟩ | ⟨_, heq⟩ <;> rw [heq] <;> rfl
  · rcases onWriteSome_cases (s := s) (n := n) with ⟨b, bs, _, _, heq⟩ | ⟨_, _, heq⟩ | ⟨_, heq⟩ <;> rw [heq] <;> rfl

/-- A token goes from a holder to a holder. -/
theorem act_tokens (input : StreamInput) (hcalm : a.calm = true) (htested : a.tested = true → s.status = .connected)
    (hsend : a.sendHolds = 1 → s.isSending = 1) (hreceive : a.receiveHolds = 1 → s.isReceiving = 1) :
    tally StreamAction.sendHolds (s.act input a).2 + (s.act input a).1.writes.length + s.isSending
      = a.sendHolds + s.writes.length + (s.act input a).1.isSending ∧
    tally StreamAction.receiveHolds (s.act input a).2 + (s.act input a).1.reads + s.isReceiving
      = a.receiveHolds + s.reads + (s.act input a).1.isReceiving := by
  cases a
  case getFromPendingQueue =>
    obtain ⟨hsending, hreceiving, hwrites, hreads, hholds, hreceives⟩ := s.getFromPendingQueue_tokens
    simp only [act, hsending, hreceiving, hwrites, hreads, hholds, hreceives, StreamAction.sendHolds,
      StreamAction.receiveHolds, and_self]
  case onWriteSome error n =>
    obtain ⟨hsending, hreceiving, hwrites, hreads, hholds, hreceives⟩ := s.onWriteSome_tokens (n := n)
    have hconnected := htested rfl
    have herror : error = false := by simpa [StreamAction.calm] using hcalm
    have hact : s.act input (.onWriteSome error n) = s.onWriteSome n := by simp [act, hconnected, herror]
    simp only [hact, hsending, hreceiving, hwrites, hreads, hholds, hreceives, StreamAction.sendHolds,
      StreamAction.receiveHolds, and_self]
  case onReadSome outcome =>
    cases outcome <;>
      simp_all [act, StreamAction.sendHolds, StreamAction.receiveHolds, StreamAction.calm, StreamAction.tested,
        ReadOutcome.isReceived]
  all_goals
    dsimp only [act]
    (try split_ifs) <;>
      first
      | exact absurd hcalm Bool.false_ne_true
      -- no token is touched, or a holder comes behind a holder
      | exact ⟨rfl, rfl⟩
      | simp_all [StreamAction.sendHolds, StreamAction.receiveHolds, isSending, isReceiving]
  all_goals omega

/-- Where something fails the send token may be left locked. -/
theorem act_holdsOne (input : StreamInput) (hsend : a.sendHolds = 1 → s.isSending = 1) :
    tally StreamAction.sendHolds (s.act input a).2 + (s.act input a).1.writes.length + s.isSending
      ≤ a.sendHolds + s.writes.length + (s.act input a).1.isSending := by
  cases a
  case getFromPendingQueue =>
    obtain ⟨hsending, _, hwrites, _, hholds, _⟩ := s.getFromPendingQueue_tokens
    simp only [act, hsending, hwrites, hholds, StreamAction.sendHolds, le_refl]
  case onWriteSome error n =>
    obtain ⟨hsending, _, hwrites, _, hholds, _⟩ := s.onWriteSome_tokens (n := n)
    simp only [act]
    split_ifs
    · simp [StreamAction.sendHolds]
    · simp [StreamAction.sendHolds]
    · simp only [hsending, hwrites, hholds, StreamAction.sendHolds, le_refl]
  case onReadSome outcome =>
    cases outcome <;> simp only [act] <;> split_ifs <;> simp [StreamAction.sendHolds]
  all_goals
    dsimp only [act]
    (try split_ifs) <;>
      first
      | exact Nat.le_refl _
      | simp_all [StreamAction.sendHolds, isSending]
  all_goals omega

/-- A completion takes the place of what was outstanding. -/
theorem begins_tokens {e : StreamEvent} {s' : StreamThreads} {op : List StreamAction} (hbegins : s.Begins e s' op) :
    tally StreamAction.sendHolds op + s'.writes.length = s.writes.length ∧
    tally StreamAction.receiveHolds op + s'.reads = s.reads ∧
    s'.isSending = s.isSending ∧ s'.isReceiving = s.isReceiving := by
  have hcall : ∀ c : StreamCall, tally StreamAction.sendHolds (s.call c).2 = 0 ∧
      tally StreamAction.receiveHolds (s.call c).2 = 0 ∧ (s.call c).1.writes = s.writes ∧ (s.call c).1.reads = s.reads ∧
      (s.call c).1.isSending = s.isSending ∧ (s.call c).1.isReceiving = s.isReceiving := by
    intro c
    cases c <;> simp only [call] <;> (try split_ifs) <;>
      simp [StreamAction.sendHolds, StreamAction.receiveHolds, isSending, isReceiving]
  cases hbegins with
  | call c                                   =>
    obtain ⟨hsend, hreceive, hwrites, hreads, hsending, hreceiving⟩ := hcall c
    simp_all
  | inCallback k c                           =>
    obtain ⟨hsend, hreceive, hwrites, hreads, hsending, hreceiving⟩ := hcall c
    simp_all
  | accept hphase                            =>
    unfold acceptActions
    split <;> simp [StreamAction.sendHolds, StreamAction.receiveHolds, isSending, isReceiving]
  | connectCompletes error hphase            =>
    unfold connectActions
    split <;> simp [StreamAction.sendHolds, StreamAction.receiveHolds, isSending, isReceiving]
  | connectTimeout aborted                   =>
    simp [StreamAction.sendHolds, StreamAction.receiveHolds]
  | readCompletes outcome hreads             =>
    simp [StreamAction.sendHolds, StreamAction.receiveHolds, isSending, isReceiving]
    omega
  | writeCompletes i error n chunk hchunk hn =>
    obtain ⟨hi, _⟩ := List.getElem?_eq_some_iff.1 hchunk
    simp [StreamAction.sendHolds, StreamAction.receiveHolds, isSending, isReceiving, List.length_eraseIdx, hi]
    omega

/-! ## Runs -/

theorem isSending_le : s.isSending ≤ 1 := Bool.toNat_le s.sendTokenLocked

theorem isReceiving_le : s.isReceiving ≤ 1 := Bool.toNat_le s.receiveTokenLocked

theorem Tokens.step (h : s.Tokens) (hsteady : s.Steady) {e : StreamEvent} (hcalm : e.calm = true) : (s.step e).Tokens := by
  have hsending := h.sending
  have hreceiving := h.receiving
  rcases step_cases (s := s) e with hsame | ⟨s', op, ops, hbegins, _, hweight, hstep⟩ | ⟨k, input, a, rest, rfl, hk, hstep⟩
  · rw [hsame]
    exact h
  · rw [hstep]
    obtain ⟨hsend, hreceive, hlocked, hlocked'⟩ := begins_tokens hbegins
    have hsends := hweight StreamAction.sendHolds
    have hreceives := hweight StreamAction.receiveHolds
    rw [weight_cons] at hsends hreceives
    refine ⟨?_, ?_⟩
    · show weight StreamAction.sendHolds ops + s'.writes.length = s'.isSending
      omega
    · show weight StreamAction.receiveHolds ops + s'.reads = s'.isReceiving
      omega
  · rw [hstep]
    have hhas := has_of_getElem? hk
    have hsends := le_weight StreamAction.sendHolds hhas
    have hreceives := le_weight StreamAction.receiveHolds hhas
    have hle := s.isSending_le
    have hle' := s.isReceiving_le
    obtain ⟨hsend, hreceive⟩ := act_tokens (s := s) input (hsteady.calm a hhas) (hsteady.tested a hhas)
      (fun _ => by omega) (fun _ => by omega)
    have hsends' := weight_advance StreamAction.sendHolds (s.act input a).2 hk
    have hreceives' := weight_advance StreamAction.receiveHolds (s.act input a).2 hk
    refine ⟨?_, ?_⟩
    · show weight StreamAction.sendHolds (Threads.advance s.ops k _) + (s.act input a).1.writes.length
        = (s.act input a).1.isSending
      omega
    · show weight StreamAction.receiveHolds (Threads.advance s.ops k _) + (s.act input a).1.reads
        = (s.act input a).1.isReceiving
      omega

theorem HoldsOne.step (h : s.HoldsOne) (e : StreamEvent) : (s.step e).HoldsOne := by
  have hone : weight StreamAction.sendHolds s.ops + s.writes.length ≤ s.isSending := h
  rcases step_cases (s := s) e with hsame | ⟨s', op, ops, hbegins, _, hweight, hstep⟩ | ⟨k, input, a, rest, rfl, hk, hstep⟩
  · rw [hsame]
    exact h
  · rw [hstep]
    obtain ⟨hsend, _, hlocked, _⟩ := begins_tokens hbegins
    have hsends := hweight StreamAction.sendHolds
    rw [weight_cons] at hsends
    show weight StreamAction.sendHolds ops + s'.writes.length ≤ s'.isSending
    omega
  · rw [hstep]
    have hsends := le_weight StreamAction.sendHolds (has_of_getElem? hk)
    have hle := s.isSending_le
    have hsend := act_holdsOne (s := s) (a := a) input (fun _ => by omega)
    have hsends' := weight_advance StreamAction.sendHolds (s.act input a).2 hk
    show weight StreamAction.sendHolds (Threads.advance s.ops k _) + (s.act input a).1.writes.length
      ≤ (s.act input a).1.isSending
    omega

/-- What the holder has to do first, nobody else does. -/
theorem HoldsOne.alone (h : s.HoldsOne) {k : Nat} {rest : List StreamAction} (hk : s.ops[k]? = some (a :: rest))
    (ha : a.sendHolds = 1) : s.writes = [] ∧ ∀ b, Has (Threads.advance s.ops k []) b → b.sendHolds = 0 := by
  have hone : weight StreamAction.sendHolds s.ops + s.writes.length ≤ s.isSending := h
  have hle := s.isSending_le
  have hweight := le_weight StreamAction.sendHolds (has_of_getElem? hk)
  refine ⟨List.eq_nil_of_length_eq_zero (by omega), ?_⟩
  exact fun b hb => Threads.alone hk (by omega) hb

theorem Tokens.holdsOne (h : s.Tokens) : s.HoldsOne := Nat.le_of_eq h.sending

end StreamThreads

end Gb
