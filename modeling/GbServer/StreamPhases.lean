import Mathlib.Tactic.SplitIfs
import GbServer.StreamThreads
/-!
# StreamPhases — a stream is connected once

The one `async_connect` or accept of a stream comes before all that `set_socket_connected` does: a thread that connects
the stream, and the status connected, are there only when that is done (`Phases`).
-/
namespace Gb

open Run (Along)
open Threads Tally

namespace StreamAction

/-- On the way to `set_socket_connected` and in it. -/
def connects : StreamAction → Bool
  | onConnect _         => true
  | onHandshake _       => true
  | doConnect           => true
  | setup               => true
  | onAccept            => true
  | onAccepted          => true
  | setConnectedOptions => true
  | onConnected         => true
  | storeConnected      => true
  | _                   => false

def connecting : StreamAction → Nat
  | asyncConnect => 1
  | _            => 0

end StreamAction

namespace StreamThreads

variable {s : StreamThreads} {a : StreamAction}

def isCalled (s : StreamThreads) : Nat := if s.phase = .called then 1 else 0

structure Phases (s : StreamThreads) : Prop where
  calling    : weight StreamAction.connecting s.ops ≤ s.isCalled
  connecting : ∀ a, Has s.ops a → a.connects = true → s.phase = .done
  connected  : s.status = .connected → s.phase = .done

/-- What a step of a thread does about the connection. -/
structure Moves (s : StreamThreads) (a : StreamAction) (r : StreamThreads × List StreamAction) : Prop where
  calling    : tally StreamAction.connecting r.2 = 0
  phase      : r.1.phase = s.phase ∧ a ≠ .asyncConnect ∨ r.1.phase = .inTransport ∧ a = .asyncConnect
  connecting : ∀ b ∈ r.2, b.connects = true → a.connects = true
  status     : r.1.status = s.status ∨ r.1.status = .closed ∨ r.1.status = .connected ∨ a = .asyncConnect
  connected  : r.1.status = .connected → s.status = .connected ∨ a.connects = true
  closed     : r.1.status = .closed → s.status = .closed ∨ a = .close

/-- Behind an action that may lead to the connection. -/
theorem moves_of_connects {r : StreamThreads × List StreamAction} (hphase : r.1.phase = s.phase)
    (hstatus : r.1.status = s.status) (ha : a ≠ .asyncConnect) (hconnects : a.connects = true)
    (hpushed : r.2.all (fun b => b.connecting == 0) = true) : s.Moves a r where
  calling    := tally_eq_zero fun b hb => eq_of_beq (List.all_eq_true.1 hpushed b hb)
  phase      := .inl ⟨hphase, ha⟩
  connecting := fun _ _ _ => hconnects
  status     := .inl hstatus
  connected  := fun hr => .inl (hstatus.symm.trans hr)
  closed     := fun hr => .inl (hstatus.symm.trans hr)

/-- What leads to no connection does nothing about it. -/
theorem moves_of_same {r : StreamThreads × List StreamAction} (hphase : r.1.phase = s.phase)
    (hstatus : r.1.status = s.status) (ha : a ≠ .asyncConnect)
    (hpushed : r.2.all (fun b => !b.connects && b.connecting == 0) = true) : s.Moves a r := by
  have hall (b : StreamAction) (hb : b ∈ r.2) : b.connects = false ∧ b.connecting = 0 := by
    simpa using List.all_eq_true.1 hpushed b hb
  exact
    { calling    := tally_eq_zero fun b hb => (hall b hb).2
      phase      := .inl ⟨hphase, ha⟩
      connecting := fun b hb hb' => absurd ((hall b hb).1.symm.trans hb') Bool.false_ne_true
      status     := .inl hstatus
      connected  := fun hr => .inl (hstatus.symm.trans hr)
      closed     := fun hr => .inl (hstatus.symm.trans hr) }

/-- So does what only touches the queues. -/
theorem moves_of_withoutQueues {r : StreamThreads × List StreamAction} (h : r.1.withoutQueues = s.withoutQueues)
    (ha : a ≠ .asyncConnect) (hpushed : r.2.all (fun b => !b.connects && b.connecting == 0) = true) : s.Moves a r :=
  moves_of_same (congrArg phase h :) (congrArg status h :) ha hpushed

theorem act_moves (input : StreamInput) : s.Moves a (s.act input a) := by
  cases a
  case getFromPendingQueue =>
    have hact : s.act input .getFromPendingQueue = s.getFromPendingQueue := rfl
    rw [hact]
    refine moves_of_withoutQueues getFromPendingQueue_withoutQueues nofun ?_
    rcases getFromPendingQueue_cases (s := s) with ⟨_, heq⟩ | ⟨m, ms, _, heq⟩ <;> rw [heq] <;> rfl
  case onWriteSome error n =>
    simp only [act]
    split_ifs
    · exact moves_of_same rfl rfl nofun rfl
    · exact moves_of_same rfl rfl nofun rfl
    · refine moves_of_withoutQueues onWriteSome_withoutQueues nofun ?_
      rcases onWriteSome_cases (s := s) (n := n) with ⟨b, bs, _, _, heq⟩ | ⟨_, _, heq⟩ | ⟨_, heq⟩ <;> rw [heq] <;> rfl
  case onReadSome outcome  =>
    simp only [act]
    split_ifs
    · exact moves_of_same rfl rfl nofun rfl
    · cases outcome <;> exact moves_of_same rfl rfl nofun rfl
  case close               =>
    simp only [act]
    split_ifs
    · exact moves_of_same rfl rfl nofun rfl
    · constructor <;> simp [StreamAction.connects, StreamAction.connecting]
  case asyncConnect        => constructor <;> simp [act]
  case storeConnected      => constructor <;> simp [act, StreamAction.connects, StreamAction.connecting]
  all_goals
    simp only [act]
    (try split_ifs) <;>
      first
      | exact moves_of_same rfl rfl nofun rfl
      | exact moves_of_connects rfl rfl nofun rfl rfl

/-- What an event does about the connection. -/
structure BeginsPhase (s s' : StreamThreads) (op : List StreamAction) : Prop where
  status     : s'.status = s.status
  phase      : s'.phase = s.phase ∧ tally StreamAction.connecting op = 0 ∨
    s.phase = .unused ∧ s'.phase = .called ∧ tally StreamAction.connecting op = 1 ∨
    s.phase ≠ .called ∧ s'.phase = .done ∧ tally StreamAction.connecting op = 0
  connecting : ∀ b ∈ op, b.connects = true → s'.phase = .done

theorem begins_phase {e : StreamEvent} {s' : StreamThreads} {op : List StreamAction} (hbegins : s.Begins e s' op) :
    s.BeginsPhase s' op := by
  have hcall : ∀ c : StreamCall, s.BeginsPhase (s.call c).1 (s.call c).2 := by
    intro c
    cases c
    case asyncConnect =>
      by_cases hphase : s.phase = .unused
      · constructor <;> simp [call, hphase, StreamAction.connects, StreamAction.connecting]
      · constructor <;> simp [call, hphase]
    all_goals constructor <;> simp [call, StreamAction.connects, StreamAction.connecting]
  cases hbegins with
  | call c                                   => exact hcall c
  | inCallback k c                           => exact hcall c
  | accept hphase                            =>
    unfold acceptActions
    split <;> constructor <;> simp [hphase, StreamAction.connects, StreamAction.connecting]
  | connectCompletes error hphase            =>
    unfold connectActions
    split <;> constructor <;> simp [hphase, StreamAction.connects, StreamAction.connecting]
  | connectTimeout aborted                   => constructor <;> simp [StreamAction.connects, StreamAction.connecting]
  | readCompletes outcome hreads             => constructor <;> simp [StreamAction.connects, StreamAction.connecting]
  | writeCompletes i error n chunk hchunk hn => constructor <;> simp [StreamAction.connects, StreamAction.connecting]

theorem BeginsPhase.done {s' : StreamThreads} {op : List StreamAction} (h : s.BeginsPhase s' op) (hdone : s.phase = .done) :
    s'.phase = .done := by
  rcases h.phase with ⟨hphase, _⟩ | ⟨hold, _⟩ | ⟨_, hphase, _⟩
  · exact hphase.trans hdone
  · rw [hdone] at hold
    cases hold
  · exact hphase

/-- `async_connect` is on its way to the transport only where nothing connects yet. -/
theorem Phases.called (h : s.Phases) (ha : Has s.ops .asyncConnect) : s.phase = .called := by
  have hless := h.calling
  have hle := le_weight StreamAction.connecting ha
  simp only [StreamAction.connecting, isCalled] at hle hless
  by_contra hphase
  rw [if_neg hphase] at hless
  omega

theorem Phases.done (h : s.Phases) (ha : Has s.ops a) {r : StreamThreads × List StreamAction} (hmoves : s.Moves a r)
    (hdone : s.phase = .done) : r.1.phase = .done := by
  rcases hmoves.phase with ⟨hsame, _⟩ | ⟨_, rfl⟩
  · exact hsame.trans hdone
  · rw [h.called ha] at hdone
    cases hdone

theorem Phases.begins (h : s.Phases) {s' : StreamThreads} {op : List StreamAction} {ops : List (List StreamAction)}
    (hbegins : s.BeginsPhase s' op) (hops : ∀ b, Has ops b ↔ Has (op :: s.ops) b)
    (hweight : weight StreamAction.connecting ops = weight StreamAction.connecting (op :: s.ops)) :
    Phases { s' with ops := ops } := by
  have hless := h.calling
  rw [weight_cons] at hweight
  refine ⟨?_, ?_, ?_⟩
  · show weight StreamAction.connecting ops ≤ s'.isCalled
    unfold isCalled at hless ⊢
    rcases hbegins.phase with ⟨hphase, htally⟩ | ⟨hold, hphase, htally⟩ | ⟨hold, hphase, htally⟩
    · rw [hphase]
      omega
    · simp_all
    · simp_all
  · intro b hb hconnects
    rcases has_cons.1 ((hops b).1 hb) with hb | hb
    · exact hbegins.connecting b hb hconnects
    · exact hbegins.done (h.connecting b hb hconnects)
  · exact fun hstatus => hbegins.done (h.connected (hbegins.status.symm.trans hstatus))

theorem Phases.advance (h : s.Phases) {k : Nat} {rest : List StreamAction} (hk : s.ops[k]? = some (a :: rest))
    {r : StreamThreads × List StreamAction} (hmoves : s.Moves a r) : Phases { r.1 with ops := Threads.advance s.ops k r.2 } := by
  have hhas := has_of_getElem? hk
  have hweight := weight_advance StreamAction.connecting r.2 hk
  have hless := h.calling
  refine ⟨?_, ?_, ?_⟩
  · show weight StreamAction.connecting (Threads.advance s.ops k r.2) ≤ r.1.isCalled
    rw [hmoves.calling] at hweight
    rcases hmoves.phase with ⟨hsame, _⟩ | ⟨_, rfl⟩
    · simp only [isCalled, hsame] at hless ⊢
      omega
    · simp only [isCalled, h.called hhas, StreamAction.connecting, if_true] at hless hweight
      omega
  · intro b hb hconnects
    apply h.done hhas hmoves
    rcases (has_advance hk).1 hb with hb | hb
    · exact h.connecting a hhas (hmoves.connecting b hb hconnects)
    · exact h.connecting b hb.of_advance hconnects
  · intro hstatus
    apply h.done hhas hmoves
    rcases hmoves.connected hstatus with hstatus | hconnects
    · exact h.connected hstatus
    · exact h.connecting a hhas hconnects

theorem Phases.step (h : s.Phases) (e : StreamEvent) : (s.step e).Phases := by
  rcases step_cases (s := s) e with hsame | ⟨s', op, ops, hbegins, hops, hweight, hstep⟩ | ⟨k, input, a, rest, rfl, hk, hstep⟩
  · rw [hsame]
    exact h
  · rw [hstep]
    exact h.begins (begins_phase hbegins) hops (hweight _)
  · rw [hstep]
    exact h.advance hk (act_moves input)

theorem phases_init (netType : NetType) (transportType : TransportType) (limit : Int) :
    (init netType transportType limit).Phases := by
  constructor <;> simp [init]

end StreamThreads

end Gb
