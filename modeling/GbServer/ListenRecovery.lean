import GbServer.Lib.Run
import GbServer.ReceiveLoop
/-!
# ListenRecovery — a server that stops listening, and starts again

`Listener` (`listener.cpp`) and `KcpListener` (`kcp_listener.cpp`) as far as they are listening, and `IsListening`,
`ReStartListen` and the restart in `TimerMaintain` (`server.cpp`).  A listener that is left behind does nothing any more, so
there is only the one that the server has.

A `KcpListener` counts as closed until it listens.  A `Listener` does not: after a restart that fails the server takes it for
listening, and does not try again (`run_recovers_iff`).
-/
namespace Gb

open Run (Along Always)

/-- Where `start_listen` can fail. -/
inductive ListenStage
  | opening
  | setOption
  | bind
  | listen
  deriving DecidableEq

/-- A listener: its flag, whether its socket is open, and whether an accept or a receive is outstanding. -/
structure ListenSocket where
  closed  : Bool
  isOpen  : Bool := false
  pending : Bool := false
  deriving DecidableEq

namespace ListenSocket

variable (l : ListenSocket)

/-- The constructors. -/
def new : TransportType → ListenSocket
  | .kcp => { closed := true }
  | _    => { closed := false }

/-- The outstanding operation is cancelled; its handler is still to come. -/
def close : ListenSocket := if l.closed then l else { l with closed := true, isOpen := false }

def asyncAccept : ListenSocket := { l with pending := true }

/-- `Listener::start_listen`. -/
def startListen (fails : ListenStage → Bool) : Bool × ListenSocket :=
  if fails .opening then (false, l)
  else
    let l := { l with isOpen := true }
    if fails .setOption then (false, l)
    else if fails .bind then (false, l)
    else if fails .listen then (false, l)
    else (true, { l with closed := false }.asyncAccept)

/-- `on_accept`. -/
def onAccept (error : Bool) : ListenSocket :=
  let l := { l with pending := false }
  if l.closed then l
  else if error then l.close
  else l.asyncAccept

/-- `KcpListener::StartReceive`. -/
def startReceive : ListenSocket := if l.closed then l else { l with pending := true }

/-- `KcpListener::start_listen`; what `set_option` says is overwritten by what `bind` does. -/
def kcpStartListen (fails : ListenStage → Bool) : Bool × ListenSocket :=
  if fails .opening then (false, l)
  else
    let l := { l with isOpen := true }
    if fails .bind then (false, l)
    else (true, { l with closed := false }.startReceive)

/-- `KcpListener::OnReceive`, for which an error is like a datagram. -/
def onReceive : ListenSocket :=
  let l := { l with pending := false }
  if l.closed then l else l.startReceive

/-- An accept or a receive is outstanding on an open socket. -/
def Outstanding : Prop := l.isOpen = true ∧ l.pending = true

instance : Decidable l.Outstanding := inferInstanceAs (Decidable (_ ∧ _))

end ListenSocket

structure ListenServer where
  transportType          : TransportType
  isRunning              : Bool := true
  listener               : ListenSocket
  lastRestartListenTicks : Int := 0

inductive ListenEvent
  | completed (error : Bool)
  | tick (now : Int) (fails : ListenStage → Bool)
  | stop

namespace ListenServer

variable (s : ListenServer)

/-- `_restart_listen_interval_ticks`, in seconds. -/
def restartListenInterval : Int := 3

def listen (fails : ListenStage → Bool) : Bool × ListenServer :=
  let l := ListenSocket.new s.transportType
  let (succeeded, listener) :=
    match s.transportType with
    | .kcp => l.kcpStartListen fails
    | _    => l.startListen fails
  (succeeded, { s with listener })

/-- The server after `Start`. -/
def started (transportType : TransportType) : ListenServer :=
  (listen { transportType, listener := ListenSocket.new transportType } fun _ => false).2

def isListening : Bool := s.isRunning && !s.listener.closed

def reStartListen (fails : ListenStage → Bool) : Bool × ListenServer := if s.isRunning then s.listen fails else (false, s)

def timerMaintain (now : Int) (fails : ListenStage → Bool) : ListenServer :=
  if s.listener.closed ∧ now - s.lastRestartListenTicks ≥ restartListenInterval then
    ({ s with lastRestartListenTicks := now }.reStartListen fails).2
  else s

/-- The timer is stopped with the server. -/
def step (s : ListenServer) : ListenEvent → ListenServer
  | .completed error =>
    if s.listener.pending then
      match s.transportType with
      | .kcp => { s with listener := s.listener.onReceive }
      | _    => { s with listener := s.listener.onAccept error }
    else s
  | .tick now fails  => if s.isRunning then s.timerMaintain now fails else s
  | .stop            => { s with isRunning := false, listener := s.listener.close }

/-- The server takes itself for listening exactly if something is outstanding; and where nothing is, a tick restarts. -/
structure Recovers (s : ListenServer) : Prop where
  listening : s.isListening = true ↔ s.listener.Outstanding
  restarts  : s.isRunning = true → ¬s.listener.Outstanding → ∀ now fails,
    now - s.lastRestartListenTicks ≥ restartListenInterval →
      s.timerMaintain now fails = ({ s with lastRestartListenTicks := now }.reStartListen fails).2

/-- The condition on a step: a restart for TCP or SSL does not fail. -/
def RestartSucceeds (s : ListenServer) : ListenEvent → Prop
  | .tick now fails => s.isRunning = true → s.listener.closed = true →
    now - s.lastRestartListenTicks ≥ restartListenInterval → s.transportType ≠ .kcp → ∀ stage, fails stage = false
  | _               => True

/-- What holds in any case: what is closed has nothing outstanding, and `Stop` has closed the listener. -/
structure Quiet (s : ListenServer) : Prop where
  closed  : s.listener.closed = true → ¬s.listener.Outstanding
  stopped : s.isRunning = false → s.listener.closed = true

variable {s}

/-- What has to hold beside that. -/
theorem Quiet.recovers_iff (h : s.Quiet) : s.Recovers ↔ (s.listener.closed = false → s.listener.Outstanding) := by
  constructor
  · intro hrecovers hopen
    refine hrecovers.listening.1 ?_
    unfold isListening
    rw [hopen, Bool.not_false, Bool.and_true]
    by_contra hstopped
    exact absurd (hopen.symm.trans (h.stopped (Bool.eq_false_of_not_eq_true hstopped))) Bool.false_ne_true
  · intro hopen
    have hclosed : ¬s.listener.Outstanding → s.listener.closed = true := fun hnone => by
      by_contra hc
      exact hnone (hopen (Bool.eq_false_of_not_eq_true hc))
    constructor
    · unfold isListening
      rw [Bool.and_eq_true, Bool.not_eq_true']
      constructor
      · exact fun hl => hopen hl.2
      · intro hout
        have hflag : s.listener.closed = false := Bool.eq_false_of_not_eq_true fun hc => h.closed hc hout
        refine ⟨?_, hflag⟩
        by_contra hstopped
        exact absurd (hflag.symm.trans (h.stopped (Bool.eq_false_of_not_eq_true hstopped))) Bool.false_ne_true
    · intro _ hnone now fails hdue
      exact if_pos ⟨hclosed hnone, hdue⟩

/-! ## What the listener does -/

theorem close_closed (l : ListenSocket) : l.close.closed = true := by
  unfold ListenSocket.close
  split
  · assumption
  · rfl

theorem not_outstanding_close {l : ListenSocket} (h : l.closed = true → ¬l.Outstanding) : ¬l.close.Outstanding := by
  unfold ListenSocket.close
  split
  · rename_i hclosed
    exact h hclosed
  · exact fun hout => Bool.false_ne_true hout.1

theorem startListen_cases (l : ListenSocket) (hpending : l.pending = false) (fails : ListenStage → Bool) :
    ((∀ stage, fails stage = false) ∧ (l.startListen fails).2 = { closed := false, isOpen := true, pending := true }) ∨
      (∃ stage, fails stage = true) ∧ (l.startListen fails).2.closed = l.closed ∧
        (l.startListen fails).2.pending = false := by
  unfold ListenSocket.startListen
  split
  · rename_i hopening
    exact .inr ⟨⟨_, hopening⟩, rfl, hpending⟩
  · rename_i hopening
    dsimp only
    split
    · rename_i hoption
      exact .inr ⟨⟨_, hoption⟩, rfl, hpending⟩
    · rename_i hoption
      split
      · rename_i hbind
        exact .inr ⟨⟨_, hbind⟩, rfl, hpending⟩
      · rename_i hbind
        split
        · rename_i hlisten
          exact .inr ⟨⟨_, hlisten⟩, rfl, hpending⟩
        · rename_i hlisten
          refine .inl ⟨fun stage => Bool.eq_false_of_not_eq_true ?_, rfl⟩
          cases stage <;> assumption

theorem kcpStartListen_cases (l : ListenSocket) (hpending : l.pending = false) (fails : ListenStage → Bool) :
    (l.kcpStartListen fails).2 = { closed := false, isOpen := true, pending := true } ∨
      (l.kcpStartListen fails).2.closed = l.closed ∧ (l.kcpStartListen fails).2.pending = false := by
  unfold ListenSocket.kcpStartListen
  split
  · exact .inr ⟨rfl, hpending⟩
  · dsimp only
    split
    · exact .inr ⟨rfl, hpending⟩
    · exact .inl rfl

/-- An attempt to listen: the flag is right after it unless it is for TCP or SSL and fails. -/
theorem listen_cases (fails : ListenStage → Bool) :
    ((s.transportType ≠ .kcp → ∀ stage, fails stage = false) ∧
        ((s.listen fails).2.listener.closed = false ↔ (s.listen fails).2.listener.Outstanding)) ∨
      (s.transportType ≠ .kcp ∧ ∃ stage, fails stage = true) ∧ (s.listen fails).2.listener.closed = false ∧
        ¬(s.listen fails).2.listener.Outstanding := by
  have hstream (l : ListenSocket) (hclosed : l.closed = false) (hpending : l.pending = false) :
      ((∀ stage, fails stage = false) ∧ ((l.startListen fails).2.closed = false ↔ (l.startListen fails).2.Outstanding)) ∨
        (∃ stage, fails stage = true) ∧ (l.startListen fails).2.closed = false ∧ ¬(l.startListen fails).2.Outstanding := by
    rcases startListen_cases l hpending fails with ⟨hall, hlisten⟩ | ⟨hfails, hflag, hnone⟩
    · rw [hlisten]
      exact .inl ⟨hall, iff_of_true rfl ⟨rfl, rfl⟩⟩
    · exact .inr ⟨hfails, hflag.trans hclosed, fun hout => Bool.false_ne_true (hnone.symm.trans hout.2)⟩
  unfold listen
  cases htransport : s.transportType with
  | kcp =>
    refine .inl ⟨fun hne => absurd rfl hne, ?_⟩
    rcases kcpStartListen_cases (.new .kcp) rfl fails with hlisten | ⟨hflag, hnone⟩
    · change (ListenSocket.kcpStartListen (.new .kcp) fails).2.closed = false ↔ (ListenSocket.kcpStartListen (.new .kcp) fails).2.Outstanding
      rw [hlisten]
      exact iff_of_true rfl ⟨rfl, rfl⟩
    · exact iff_of_false (fun hopen => Bool.false_ne_true (hopen.symm.trans hflag))
        fun hout => Bool.false_ne_true (hnone.symm.trans hout.2)
  | tcp =>
    have hne : TransportType.tcp ≠ .kcp := fun h => nomatch h
    rw [imp_iff_right hne, and_iff_right hne]
    exact hstream _ rfl rfl
  | ssl =>
    have hne : TransportType.ssl ≠ .kcp := fun h => nomatch h
    rw [imp_iff_right hne, and_iff_right hne]
    exact hstream _ rfl rfl

/-! ## Runs -/

theorem quiet_listen (h : s.isRunning = true) (fails : ListenStage → Bool) : (s.listen fails).2.Quiet where
  closed  := fun hclosed hout => by
    rcases s.listen_cases fails with ⟨-, hiff⟩ | ⟨-, -, hnone⟩
    · exact Bool.false_ne_true ((hiff.2 hout).symm.trans hclosed)
    · exact hnone hout
  stopped := fun hstopped => absurd (hstopped.symm.trans h) Bool.false_ne_true

/-- A handler keeps a listener right. -/
theorem onAccept_listening {l : ListenSocket} (h : l.closed = false → l.Outstanding) (error : Bool) :
    (l.onAccept error).closed = false ↔ (l.onAccept error).Outstanding := by
  unfold ListenSocket.onAccept
  dsimp only
  split
  · rename_i hclosed
    exact iff_of_false (fun hopen => Bool.false_ne_true (hopen.symm.trans hclosed)) fun hout => Bool.false_ne_true hout.2
  · rename_i hopen
    split
    · refine iff_of_false (fun hclose => ?_) (not_outstanding_close fun _ hout => Bool.false_ne_true hout.2)
      exact Bool.false_ne_true (hclose.symm.trans (close_closed _))
    · have hflag := Bool.eq_false_of_not_eq_true hopen
      exact iff_of_true hflag ⟨(h hflag).1, rfl⟩

theorem onReceive_listening {l : ListenSocket} (h : l.closed = false → l.Outstanding) :
    l.onReceive.closed = false ↔ l.onReceive.Outstanding := by
  unfold ListenSocket.onReceive ListenSocket.startReceive
  dsimp only
  split
  · rename_i hclosed
    exact iff_of_false (fun hopen => Bool.false_ne_true (hopen.symm.trans hclosed)) fun hout => Bool.false_ne_true hout.2
  · rename_i hopen
    have hflag := Bool.eq_false_of_not_eq_true hopen
    exact iff_of_true hflag ⟨(h hflag).1, rfl⟩

/-- A server whose flag is right recovers, once `Stop` has closed the listener. -/
theorem Quiet.of_iff (hiff : s.listener.closed = false ↔ s.listener.Outstanding)
    (hstopped : s.isRunning = false → s.listener.closed = true) : s.Quiet ∧ s.Recovers := by
  have hquiet : s.Quiet :=
    ⟨fun hclosed hout => Bool.false_ne_true ((hiff.2 hout).symm.trans hclosed), hstopped⟩
  exact ⟨hquiet, hquiet.recovers_iff.2 hiff.1⟩

theorem onAccept_closed {l : ListenSocket} (h : l.closed = true) (error : Bool) : (l.onAccept error).closed = true := by
  unfold ListenSocket.onAccept
  dsimp only
  rw [if_pos h]
  exact h

theorem onReceive_closed {l : ListenSocket} (h : l.closed = true) : l.onReceive.closed = true := by
  unfold ListenSocket.onReceive
  dsimp only
  rw [if_pos h]
  exact h

theorem quiet_completed (h : s.Quiet) (hrecovers : s.Recovers) (error : Bool) :
    (s.step (.completed error)).Quiet ∧ (s.step (.completed error)).Recovers := by
  have hopen := h.recovers_iff.1 hrecovers
  dsimp only [step]
  split
  · split
    · exact Quiet.of_iff (onReceive_listening hopen) fun hs => onReceive_closed (h.stopped hs)
    · exact Quiet.of_iff (onAccept_listening hopen error) fun hs => onAccept_closed (h.stopped hs) error
  · exact ⟨h, hrecovers⟩

theorem quiet_stop (h : s.Quiet) : (s.step .stop).Quiet ∧ (s.step .stop).Recovers :=
  Quiet.of_iff (iff_of_false (fun hopen => Bool.false_ne_true (hopen.symm.trans (close_closed _)))
    (not_outstanding_close h.closed)) fun _ => close_closed _

/-- A tick restarts, or leaves the server as it is. -/
theorem step_tick_cases (now : Int) (fails : ListenStage → Bool) :
    ((s.isRunning = true ∧ s.listener.closed = true ∧ now - s.lastRestartListenTicks ≥ restartListenInterval) ∧
        s.step (.tick now fails) = (listen { s with lastRestartListenTicks := now } fails).2) ∨
      ¬(s.isRunning = true ∧ s.listener.closed = true ∧ now - s.lastRestartListenTicks ≥ restartListenInterval) ∧
        s.step (.tick now fails) = s := by
  dsimp only [step]
  unfold timerMaintain reStartListen
  by_cases hrunning : s.isRunning = true
  · rw [if_pos hrunning, if_pos hrunning]
    by_cases hdue : s.listener.closed = true ∧ now - s.lastRestartListenTicks ≥ restartListenInterval
    · exact .inl ⟨⟨hrunning, hdue⟩, if_pos hdue⟩
    · exact .inr ⟨fun h => hdue h.2, if_neg hdue⟩
  · exact .inr ⟨fun h => hrunning h.1, if_neg hrunning⟩

theorem recovers_tick (h : s.Quiet) (hrecovers : s.Recovers) (now : Int) (fails : ListenStage → Bool) :
    (s.step (.tick now fails)).Quiet ∧ ((s.step (.tick now fails)).Recovers ↔ s.RestartSucceeds (.tick now fails)) := by
  rcases s.step_tick_cases now fails with ⟨⟨hrunning, hclosed, hdue⟩, hstep⟩ | ⟨hidle, hstep⟩
  · have hquiet := quiet_listen (s := { s with lastRestartListenTicks := now }) hrunning fails
    rw [hstep]
    refine ⟨hquiet, hquiet.recovers_iff.trans ?_⟩
    dsimp only [RestartSucceeds]
    rw [imp_iff_right hrunning, imp_iff_right hclosed, imp_iff_right hdue]
    rcases listen_cases (s := { s with lastRestartListenTicks := now }) fails with
      ⟨hall, hiff⟩ | ⟨⟨hne, stage, hfails⟩, hopen, hnone⟩
    · exact iff_of_true hiff.1 hall
    · exact iff_of_false (fun h => hnone (h hopen)) fun hall => Bool.false_ne_true ((hall hne stage).symm.trans hfails)
  · rw [hstep]
    exact ⟨h, iff_of_true hrecovers fun hrunning hclosed hdue => absurd ⟨hrunning, hclosed, hdue⟩ hidle⟩

/-- What an event does to a server that recovers. -/
theorem recovers_step (h : s.Quiet) (hrecovers : s.Recovers) (e : ListenEvent) :
    (s.step e).Quiet ∧ ((s.step e).Recovers ↔ s.RestartSucceeds e) := by
  cases e with
  | completed error => exact (quiet_completed h hrecovers error).imp_right fun hnext => iff_of_true hnext trivial
  | tick now fails  => exact recovers_tick h hrecovers now fails
  | stop            => exact (quiet_stop h).imp_right fun hnext => iff_of_true hnext trivial

theorem started_recovers (transportType : TransportType) : (started transportType).Quiet ∧ (started transportType).Recovers := by
  refine Quiet.of_iff ?_ fun hs => nomatch hs
  cases transportType <;> exact iff_of_true rfl ⟨rfl, rfl⟩

/-- **A server listens exactly if it says so, and restarts where it does not, in every state of a run exactly if no restart
for TCP or SSL fails.** -/
theorem run_recovers_iff (transportType : TransportType) (es : List ListenEvent) :
    Always step Recovers (started transportType) es ↔ Along step RestartSucceeds (started transportType) es := by
  obtain ⟨hquiet, hrecovers⟩ := started_recovers transportType
  exact Run.always_iff_along (fun _ e h hr => (recovers_step h hr e).1) (fun _ e h hr => (recovers_step h hr e).2) es hquiet
    hrecovers

theorem step_transportType (s : ListenServer) (e : ListenEvent) : (s.step e).transportType = s.transportType := by
  cases e with
  | completed error =>
    dsimp only [step]
    split
    · split <;> rfl
    · rfl
  | tick now fails  =>
    rcases s.step_tick_cases now fails with ⟨-, hstep⟩ | ⟨-, hstep⟩ <;> rw [hstep]
    rfl
  | stop            => rfl

/-- With KCP there is no condition. -/
theorem always_recovers_kcp (es : List ListenEvent) : Always step Recovers (started .kcp) es := by
  obtain ⟨hquiet, hrecovers⟩ := started_recovers .kcp
  have hstep (s : ListenServer) (e : ListenEvent) (h : s.transportType = .kcp ∧ s.Quiet ∧ s.Recovers) :
      (s.step e).transportType = .kcp ∧ (s.step e).Quiet ∧ (s.step e).Recovers := by
    obtain ⟨hkcp, hq, hr⟩ := h
    have hsucceeds : s.RestartSucceeds e := by
      cases e with
      | tick now fails => exact fun _ _ _ hne => absurd hkcp hne
      | _              => exact trivial
    obtain ⟨hq', hr'⟩ := recovers_step hq hr e
    exact ⟨(s.step_transportType e).trans hkcp, hq', hr'.2 hsucceeds⟩
  exact (Run.always_of_step _ hstep es ⟨rfl, hquiet, hrecovers⟩).mono fun _ h => h.2.2

/-- An accept error, and a restart whose `bind` fails. -/
theorem not_run_recovers : ¬∀ (transportType : TransportType) (es : List ListenEvent),
    Always step Recovers (started transportType) es := by
  intro h
  have hrecovers := Run.always_iff_take.1 (h .tcp [.completed true, .tick 3 fun stage => stage = .bind]) 2
  exact absurd (hrecovers.listening.1 rfl) (by decide)

end ListenServer

end Gb
