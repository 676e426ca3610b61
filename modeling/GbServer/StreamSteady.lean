import GbServer.StreamPhases
/-!
# StreamSteady — a stream that nothing fails on

The runs of a stream in which nothing fails and nobody closes it: the stream connects and stays connected.  What a
thread has tested of the status, it can rely on (`Steady`).
-/
namespace Gb

open Run (Along)
open Threads Tally

def ReadOutcome.isReceived : ReadOutcome → Bool
  | received _ => true
  | _          => false

/-- Nothing fails, and nobody closes the stream. -/
def StreamEvent.calm : StreamEvent → Bool
  | call .close               => false
  | inCallback _ .close       => false
  | step _ input              => input.ok
  | connectCompletes error    => !error
  | connectTimeout aborted    => aborted
  | readCompletes outcome     => outcome.isReceived
  | writeCompletes _ error _  => !error
  | _                         => true

namespace StreamAction

def calm : StreamAction → Bool
  | close                    => false
  | transportClose           => false
  | onClosed                 => false
  | onConnectTimeout aborted => aborted
  | onConnect error          => !error
  | onHandshake error        => !error
  | onReadSome outcome       => outcome.isReceived
  | onWriteSome error _      => !error
  | onSendFailed             => false
  | _                        => true

/-- Behind a test that the stream is connected. -/
def tested : StreamAction → Bool
  | receiveTakeToken         => true
  | acquireReadQuota         => true
  | receiveReleaseToken      => true
  | asyncReadSome            => true
  | sendTakeToken            => true
  | getFromPendingQueue      => true
  | acquireWriteQuota _      => true
  | insertIntoPendingQueue _ => true
  | sendReleaseToken         => true
  | emptyReleaseToken        => true
  | testPendingCount         => true
  | asyncWriteSome           => true
  | onReadSome _             => true
  | readReleaseToken         => true
  | onWriteSome _ _          => true
  | onSent                   => true
  | sentReleaseToken         => true
  | _                        => false

end StreamAction

namespace StreamThreads

variable {s : StreamThreads} {a : StreamAction}

/-- What holds of a stream that nothing fails on. -/
structure Steady (s : StreamThreads) : Prop where
  phases    : s.Phases
  calm      : ∀ a, Has s.ops a → a.calm = true
  opened    : s.status ≠ .closed
  transport : s.transportClosed = false
  tested    : ∀ a, Has s.ops a → a.tested = true → s.status = .connected
  reading   : 0 < s.reads → s.status = .connected
  writing   : s.writes ≠ [] → s.status = .connected

/-- What a step of a thread does where nothing fails. -/
structure Steps (s : StreamThreads) (a : StreamAction) (r : StreamThreads × List StreamAction) : Prop where
  calm      : ∀ b ∈ r.2, b.calm = true
  opened    : r.1.status ≠ .closed
  transport : r.1.transportClosed = false
  tested    : ∀ b ∈ r.2, b.tested = true → r.1.status = .connected
  reading   : 0 < r.1.reads → 0 < s.reads ∨ a.tested = true
  writing   : r.1.writes ≠ [] → s.writes ≠ [] ∨ a.tested = true

/-- What leaves the connection, and leads to what is tested for it only where it is there. -/
theorem steps_of_same {r : StreamThreads × List StreamAction} (hstatus : r.1.status = s.status)
    (htransport : r.1.transportClosed = s.transportClosed) (hreads : r.1.reads = s.reads) (hwrites : r.1.writes = s.writes)
    (hopened : s.status ≠ .closed ∧ s.transportClosed = false) (hpushed : r.2.all StreamAction.calm = true)
    (htested : r.2.all (fun b => !b.tested) = true ∨ s.status = .connected) : s.Steps a r where
  calm      := List.all_eq_true.1 hpushed
  opened    := fun hclosed => hopened.1 (hstatus.symm.trans hclosed)
  transport := htransport.trans hopened.2
  tested    := fun b hb hb' => by
    rcases htested with hall | hconnected
    · have hnone := List.all_eq_true.1 hall b hb
      rw [hb'] at hnone
      exact absurd hnone Bool.false_ne_true
    · exact hstatus.trans hconnected
  reading   := fun h => .inl (Nat.lt_of_lt_of_eq h hreads)
  writing   := fun h => .inl (hwrites ▸ h)

/-- What only touches the queues, on a connected stream. -/
theorem steps_of_withoutQueues {r : StreamThreads × List StreamAction} (h : r.1.withoutQueues = s.withoutQueues)
    (hstatus : s.status = .connected) (htransport : s.transportClosed = false) (hpushed : r.2.all StreamAction.calm = true) :
    s.Steps a r :=
  steps_of_same (congrArg status h :) (congrArg transportClosed h :) (congrArg reads h :) (congrArg writes h :)
    ⟨fun hclosed => (nomatch hstatus.symm.trans hclosed), htransport⟩ hpushed (.inr hstatus)

theorem act_steps (input : StreamInput) (hok : input.ok = true) (hcalm : a.calm = true) (hopen : s.status ≠ .closed)
    (htransport : s.transportClosed = false) (htested : a.tested = true → s.status = .connected) :
    s.Steps a (s.act input a) := by
  have hopened : s.status ≠ .closed ∧ s.transportClosed = false := ⟨hopen, htransport⟩
  cases a
  case getFromPendingQueue =>
    have hact : s.act input .getFromPendingQueue = s.getFromPendingQueue := rfl
    rw [hact]
    apply steps_of_withoutQueues getFromPendingQueue_withoutQueues (htested rfl) htransport
    rcases getFromPendingQueue_cases (s := s) with ⟨_, heq⟩ | ⟨m, ms, _, heq⟩ <;> rw [heq] <;> rfl
  case onWriteSome error n =>
    have hstatus := htested rfl
    have herror : error = false := by simpa [StreamAction.calm] using hcalm
    have hact : s.act input (.onWriteSome error n) = s.onWriteSome n := by simp [act, hstatus, herror]
    rw [hact]
    apply steps_of_withoutQueues onWriteSome_withoutQueues hstatus htransport
    rcases onWriteSome_cases (s := s) (n := n) with ⟨b, bs, _, _, heq⟩ | ⟨_, _, heq⟩ | ⟨_, heq⟩ <;> rw [heq] <;> rfl
  case onReadSome outcome  =>
    cases outcome with
    | received n =>
      simp only [act]
      split_ifs
      · exact steps_of_same rfl rfl rfl rfl hopened rfl (.inl rfl)
      · exact steps_of_same rfl rfl rfl rfl hopened rfl (.inr (htested rfl))
    | _          => simp [StreamAction.calm, ReadOutcome.isReceived] at hcalm
  case onConnectTimeout aborted =>
    obtain rfl : aborted = true := hcalm
    simp only [act, or_true, if_true]
    exact steps_of_same rfl rfl rfl rfl hopened rfl (.inl rfl)
  case onConnect error     =>
    obtain rfl : error = false := by simpa [StreamAction.calm] using hcalm
    simp only [act, Bool.false_eq_true, if_false]
    split_ifs <;> exact steps_of_same rfl rfl rfl rfl hopened rfl (.inl rfl)
  case onHandshake error   =>
    obtain rfl : error = false := by simpa [StreamAction.calm] using hcalm
    simp only [act, Bool.false_eq_true, if_false]
    split_ifs <;> exact steps_of_same rfl rfl rfl rfl hopened rfl (.inl rfl)
  case doConnect           =>
    simp only [act, htransport, hok, Bool.false_eq_true, if_false, if_true]
    exact steps_of_same rfl rfl rfl rfl hopened rfl (.inl rfl)
  case setup               =>
    simp only [act, htransport, hok, and_self, if_true]
    exact steps_of_same rfl rfl rfl rfl hopened rfl (.inl rfl)
  case asyncConnect        => constructor <;> simp_all [act, StreamAction.calm]
  case storeConnected      => constructor <;> simp_all [act, StreamAction.calm]
  case asyncReadSome       => constructor <;> simp_all [act, StreamAction.tested]
  case asyncWriteSome      => constructor <;> simp_all [act, StreamAction.tested]
  all_goals
    simp only [act]
    (try split_ifs) <;>
      first
      | exact absurd hcalm Bool.false_ne_true
      | exact steps_of_same rfl rfl rfl rfl hopened rfl (.inl rfl)
      | exact steps_of_same rfl rfl rfl rfl hopened rfl (.inr ‹_›)
      | exact steps_of_same rfl rfl rfl rfl hopened rfl (.inr (htested rfl))

/-- What an event begins where nothing fails. -/
structure Begun (s s' : StreamThreads) (op : List StreamAction) : Prop where
  calm      : ∀ b ∈ op, b.calm = true
  transport : s'.transportClosed = s.transportClosed
  tested    : ∀ b ∈ op, b.tested = true → s.status = .connected
  reading   : s'.reads ≤ s.reads
  writing   : s'.writes ≠ [] → s.writes ≠ []

theorem call_begun {c : StreamCall} (hc : c ≠ .close) : s.Begun (s.call c).1 (s.call c).2 := by
  cases c with
  | close => exact absurd rfl hc
  | _     =>
    simp only [call]
    (try split_ifs) <;> constructor <;> simp [StreamAction.calm, StreamAction.tested]

theorem Steady.begun (h : s.Steady) {e : StreamEvent} {s' : StreamThreads} {op : List StreamAction}
    (hbegins : s.Begins e s' op) (hcalm : e.calm = true) : s.Begun s' op := by
  cases hbegins with
  | call c                                   => exact call_begun (by rintro rfl; cases hcalm)
  | inCallback k c                           => exact call_begun (by rintro rfl; cases hcalm)
  | accept hphase                            =>
    unfold acceptActions
    split <;> constructor <;> simp [StreamAction.calm, StreamAction.tested]
  | connectCompletes error hphase            =>
    have herror : error = false := by simpa [StreamEvent.calm] using hcalm
    unfold connectActions
    split <;> constructor <;> simp [herror, StreamAction.calm, StreamAction.tested]
  | connectTimeout aborted                   =>
    constructor <;> simp_all [StreamEvent.calm, StreamAction.calm, StreamAction.tested]
  | readCompletes outcome hreads             =>
    have hstatus := h.reading hreads
    constructor <;> simp_all [StreamEvent.calm, StreamAction.calm]
  | writeCompletes i error n chunk hchunk hn =>
    have hwrites : s.writes ≠ [] := by
      rintro hnil
      simp [hnil] at hchunk
    have hstatus := h.writing hwrites
    constructor <;> simp_all [StreamEvent.calm, StreamAction.calm]

/-- Something begins. -/
theorem Steady.begins (h : s.Steady) {e : StreamEvent} {s' : StreamThreads} {op : List StreamAction}
    (hbegins : s.Begins e s' op) (hcalm : e.calm = true) {ops : List (List StreamAction)}
    (hops : ∀ b, Has ops b ↔ Has (op :: s.ops) b)
    (hweight : weight StreamAction.connecting ops = weight StreamAction.connecting (op :: s.ops)) :
    Steady { s' with ops := ops } := by
  have hbegun := h.begun hbegins hcalm
  have hphase := begins_phase hbegins
  have hin : ∀ b, Has ops b → b ∈ op ∨ Has s.ops b := fun b hb => has_cons.1 ((hops b).1 hb)
  refine ⟨h.phases.begins hphase hops hweight, ?_, ?_, ?_, ?_, ?_, ?_⟩
  · intro b hb
    rcases hin b hb with hb | hb
    · exact hbegun.calm b hb
    · exact h.calm b hb
  · simpa [hphase.status] using h.opened
  · simpa [hbegun.transport] using h.transport
  · intro b hb htested
    apply hphase.status.trans
    rcases hin b hb with hb | hb
    · exact hbegun.tested b hb htested
    · exact h.tested b hb htested
  · intro hreads
    exact hphase.status.trans (h.reading (Nat.lt_of_lt_of_le hreads hbegun.reading))
  · intro hwrites
    exact hphase.status.trans (h.writing (hbegun.writing hwrites))

/-- What an action does where nothing fails. -/
theorem Steady.steps (h : s.Steady) (ha : Has s.ops a) {input : StreamInput} (hok : input.ok = true) :
    s.Steps a (s.act input a) :=
  act_steps input hok (h.calm a ha) h.opened h.transport (h.tested a ha)

/-- A thread goes on. -/
theorem Steady.advance (h : s.Steady) {k : Nat} {rest : List StreamAction} (hk : s.ops[k]? = some (a :: rest))
    {input : StreamInput} (hok : input.ok = true) :
    Steady { (s.act input a).1 with ops := Threads.advance s.ops k (s.act input a).2 } := by
  have hhas := has_of_getElem? hk
  have hsteps := h.steps hhas hok
  have hmoves := act_moves (s := s) (a := a) input
  have hkeeps : s.status = .connected → (s.act input a).1.status = .connected := by
    intro hstatus
    rcases hmoves.status with hsame | hclosed | hconnected | rfl
    · exact hsame.trans hstatus
    · exact absurd hclosed hsteps.opened
    · exact hconnected
    · have hcalled := h.phases.called hhas
      rw [h.phases.connected hstatus] at hcalled
      cases hcalled
  refine ⟨h.phases.advance hk hmoves, ?_, hsteps.opened, hsteps.transport, ?_, ?_, ?_⟩
  · intro b hb
    rcases (has_advance hk).1 hb with hb | hb
    · exact hsteps.calm b hb
    · exact h.calm b hb.of_advance
  · intro b hb htested
    rcases (has_advance hk).1 hb with hb | hb
    · exact hsteps.tested b hb htested
    · exact hkeeps (h.tested b hb.of_advance htested)
  · intro hreads
    apply hkeeps
    rcases hsteps.reading hreads with hreads | htested
    · exact h.reading hreads
    · exact h.tested a hhas htested
  · intro hwrites
    apply hkeeps
    rcases hsteps.writing hwrites with hwrites | htested
    · exact h.writing hwrites
    · exact h.tested a hhas htested

theorem Steady.step (h : s.Steady) {e : StreamEvent} (hcalm : e.calm = true) : (s.step e).Steady := by
  rcases step_cases (s := s) e with hsame | ⟨s', op, ops, hbegins, hops, hweight, hstep⟩ | ⟨k, input, a, rest, rfl, hk, hstep⟩
  · rw [hsame]
    exact h
  · rw [hstep]
    exact h.begins hbegins hcalm hops (hweight _)
  · rw [hstep]
    exact h.advance hk hcalm

theorem steady_init (netType : NetType) (transportType : TransportType) (limit : Int) :
    (init netType transportType limit).Steady := by
  refine ⟨phases_init netType transportType limit, ?_, ?_, ?_, ?_, ?_, ?_⟩ <;> simp [init]

end StreamThreads

end Gb
