import GbServer.Maintain
/-!
# KeepAlive — who is closed for being idle

A read or write stamps its session with the session's `_ticks`, which `TimerMaintain` sets to its own time — while
keep-alive is on.  While it is off, `_ticks` stays what it was and the stamps grow old with it: turned on again,
keep-alive takes a busy session for an idle one.

`rwTicks` of a session is what the stamp should be: the time of the last `TimerMaintain` when the last read or write
completed.
-/
namespace Gb

open Run (Along recorded)

namespace MaintainedSession

variable {t : NetType} {s : MaintainedSession} {f : FlowController}

/-- What keep-alive looks at. -/
def times (s : MaintainedSession) : NetStatus × Int × Int × Option Int := (s.status, s.ticks, s.lastRwTicks, s.rwTicks)

@[simp] theorem tryStartReceive_times : (tryStartReceive t s f).1.times = s.times := by
  unfold tryStartReceive
  split <;> rfl

@[simp] theorem tryStartSend_times : (tryStartSend s f).1.times = s.times := by
  unfold tryStartSend
  split
  · rfl
  · cases s.pendingCalls with
    | nil       => rfl
    | cons m ms =>
      dsimp only
      split <;> rfl

@[simp] theorem trigger_times (d : Direction) : (trigger t d s f).1.times = s.times := by
  cases d with
  | read  => exact tryStartReceive_times
  | write => exact tryStartSend_times

/-- The stamp is not older than the `TimerMaintain` before the last read or write. -/
def Stamped (s : MaintainedSession) : Prop := ∀ time ∈ s.rwTicks, time ≤ s.lastRwTicks

/-- A read or a write completes. -/
def Completes (s : MaintainedSession) : SessionCall → Prop
  | .onReadSome _  => s.status = .connected ∧ s.receiveTokenLocked = true
  | .onWriteSome _ => s.status = .connected ∧ s.sendTokenLocked = true
  | _              => False

theorem Completes.not_closed {c : SessionCall} (h : s.Completes c) : s.status ≠ .closed := by
  cases c with
  | setSocketConnected receivingSize => exact h.elim
  | onReadSome receivingSize         => simp [h.1]
  | onWriteSome last                 => simp [h.1]
  | asyncSendMessage m               => exact h.elim

/-- What a session's call does to the stamp. -/
structure Restamps (maintained : Int) (c : SessionCall) (s s' : MaintainedSession) : Prop where
  closed : s.status = .closed ↔ s'.status = .closed
  ticks  : s'.ticks = s.ticks
  stamp  : (s'.rwTicks = s.rwTicks ∧ (s'.lastRwTicks = s.lastRwTicks ∨ s'.lastRwTicks = s.ticks)) ∨
    (s.Completes c ∧ s'.rwTicks = some maintained ∧ s'.lastRwTicks = s.ticks)

theorem Restamps.of_times {maintained : Int} {c : SessionCall} {s' s'' : MaintainedSession}
    (h : Restamps maintained c s s') (htimes : s''.times = s'.times) : Restamps maintained c s s'' := by
  obtain ⟨hclosed, hticks, hstamp⟩ := h
  simp only [times, Prod.mk.injEq] at htimes
  obtain ⟨hstatus', hticks', hlast', hrw'⟩ := htimes
  constructor
  · rw [hstatus']
    exact hclosed
  · exact hticks'.trans hticks
  · rw [hlast', hrw']
    exact hstamp

theorem run_restamps (maintained : Int) (c : SessionCall) : Restamps maintained c s (c.run t maintained s f).1 := by
  have hsame : Restamps maintained c s s := ⟨Iff.rfl, rfl, .inl ⟨rfl, .inl rfl⟩⟩
  cases c with
  | setSocketConnected receivingSize =>
    simp only [SessionCall.run, setSocketConnected]
    split
    · next hconnecting =>
      have hset : Restamps maintained (.setSocketConnected receivingSize) s
          { s with status := .connected, lastRwTicks := s.ticks, receivingSize := receivingSize } :=
        ⟨by simp [hconnecting], rfl, .inl ⟨rfl, .inr rfl⟩⟩
      apply hset.of_times
      exact (trigger_times (t := t) .write).trans (trigger_times .read)
    · exact hsame
  | onReadSome receivingSize         =>
    simp only [SessionCall.run, onReadSome]
    split
    · next hcompletes =>
      have hset : Restamps maintained (.onReadSome receivingSize) s
          { s.stamp maintained with receiveTokenLocked := false, receivingSize := receivingSize } :=
        ⟨Iff.rfl, rfl, .inr ⟨hcompletes, rfl, rfl⟩⟩
      exact hset.of_times tryStartReceive_times
    · exact hsame
  | onWriteSome last                 =>
    simp only [SessionCall.run, onWriteSome]
    split
    · next hcompletes =>
      have hset : Restamps maintained (.onWriteSome last) s (s.stamp maintained) :=
        ⟨Iff.rfl, rfl, .inr ⟨hcompletes, rfl, rfl⟩⟩
      apply hset.of_times
      split
      · cases t with
        | server => exact tryStartReceive_times.trans tryStartSend_times
        | client => exact tryStartSend_times
      · rfl
    · exact hsame
  | asyncSendMessage m               =>
    simp only [SessionCall.run, asyncSendMessage]
    split
    · exact hsame
    · exact hsame.of_times tryStartSend_times

end MaintainedSession

namespace Maintain

open MaintainedSession (times Restamps)

variable {s : Maintain} {d : Direction}

/-- Recharging and triggering do not touch what keep-alive looks at. -/
theorem maintainQuota_times : (s.maintainQuota d).sessions.map times = s.sessions.map times :=
  maintainQuota_map fun _ _ _ => MaintainedSession.trigger_times d

/-- A session behind a `TimerMaintain`. -/
theorem timerMaintain_session {now : Int} {k : Nat} {session' : MaintainedSession}
    (hk : (s.timerMaintain now).sessions[k]? = some session') :
    ∃ session, s.sessions[k]? = some session ∧ session'.times =
      if s.options.keepAliveTicks = -1 ∨ session.status = .closed then session.times
      else if now - session.lastRwTicks ≥ s.options.keepAliveTicks then
        (.closed, session.ticks, session.lastRwTicks, session.rwTicks)
      else (session.status, now, session.lastRwTicks, session.rwTicks) := by
  have htimes : (s.timerMaintain now).sessions.map times
      = (if s.options.keepAliveTicks ≠ -1 then s.keepAlive now else s).sessions.map times := by
    rw [timerMaintain_eq]
    exact maintainQuota_times.trans maintainQuota_times
  have hget := congrArg (fun l => l[k]?) htimes
  simp only [List.getElem?_map, hk, Option.map_some] at hget
  by_cases hoff : s.options.keepAliveTicks = -1
  · simp only [hoff, ne_eq, not_true, if_false] at hget
    obtain ⟨session, hsession, heq⟩ := Option.map_eq_some_iff.1 hget.symm
    exact ⟨session, hsession, by simpa [hoff] using heq.symm⟩
  · simp only [hoff, ne_eq, not_false_eq_true, if_true, keepAlive, List.getElem?_map] at hget
    cases hsession : s.sessions[k]? with
    | none         => simp [hsession] at hget
    | some session =>
      simp only [hsession, Option.map_some, Option.some.injEq] at hget
      refine ⟨session, rfl, ?_⟩
      rw [hget]
      by_cases hclosed : session.status = .closed
      · simp [hclosed]
      · simp only [hclosed, hoff, or_self, if_false]
        split <;> rfl

/-! ## Runs -/

/-- What the times have to do with each other. -/
structure Timely (s : Maintain) : Prop where
  maintained : s.lastMaintainTicks ≤ s.clock
  ticks      : ∀ session ∈ s.sessions, session.lastRwTicks ≤ session.ticks ∧ session.ticks ≤ s.clock

/-- While keep-alive is on, no stamp is too old. -/
def Stamped (s : Maintain) : Prop :=
  s.options.keepAliveTicks ≠ -1 → ∀ session ∈ s.sessions, session.status ≠ .closed → session.Stamped

/-- Keep-alive has been turned on, and no `TimerMaintain` has come since. -/
def turnedOn (s : Maintain) (e : MaintainEvent) (before : Bool) : Bool :=
  match e with
  | .resetOptions o => (before || decide (s.options.keepAliveTicks = -1)) && decide (o.keepAliveTicks ≠ -1)
  | .timerMaintain  => false
  | _               => before

/-- The condition on a step: keep-alive is not turned on over a stamp that is too old, and until the `TimerMaintain` after
that, reads and writes complete on sessions that have the time of the last one, or a later one. -/
def Stamps (r : Maintain × Bool) : MaintainEvent → Prop
  | .resetOptions o => r.1.options.keepAliveTicks = -1 → o.keepAliveTicks ≠ -1 →
      ∀ session ∈ r.1.sessions, session.status ≠ .closed → session.Stamped
  | .call k c       => r.2 = true → ∀ session ∈ r.1.sessions[k]?, session.Completes c →
      r.1.lastMaintainTicks ≤ session.ticks
  | _               => True

@[simp] theorem timerMaintain_clock (now : Int) : (s.timerMaintain now).clock = s.clock := by
  rw [timerMaintain_eq]
  simp only [maintainQuota_clock]
  split <;> rfl

@[simp] theorem timerMaintain_options (now : Int) : (s.timerMaintain now).options = s.options := by
  rw [timerMaintain_eq]
  simp only [maintainQuota_options]
  split <;> rfl

@[simp] theorem timerMaintain_lastMaintainTicks (now : Int) : (s.timerMaintain now).lastMaintainTicks = now := by
  rw [timerMaintain_eq]

theorem Timely.timerMaintain (h : s.Timely) : (s.timerMaintain s.clock).Timely where
  maintained := by simp
  ticks      := by
    intro session' hmem
    obtain ⟨k, hk⟩ := List.mem_iff_getElem?.1 hmem
    obtain ⟨session, hsession, htimes⟩ := timerMaintain_session hk
    have hold := h.ticks session (List.mem_of_getElem? hsession)
    rw [timerMaintain_clock]
    split at htimes
    · simp only [times, Prod.mk.injEq] at htimes
      omega
    · split at htimes
      · simp only [times, Prod.mk.injEq] at htimes
        omega
      · simp only [times, Prod.mk.injEq] at htimes
        omega

theorem Timely.step (h : s.Timely) (e : MaintainEvent) : (s.step e).Timely := by
  obtain ⟨hmaintained, hticks⟩ := h
  cases e with
  | elapse seconds =>
    constructor
    · simp only [Maintain.step]
      omega
    · intro session hmem
      have hold := hticks session hmem
      simp only [Maintain.step]
      omega
  | resetOptions o =>
    constructor
    · exact hmaintained
    · intro session' hmem
      obtain ⟨session, hold, hsame⟩ := mem_resetOptions hmem
      rw [hsame]
      exact hticks session hold
  | timerMaintain  => exact Timely.timerMaintain ⟨hmaintained, hticks⟩
  | opened         =>
    constructor
    · exact hmaintained
    · intro session hmem
      rcases List.mem_append.1 hmem with hmem | hmem
      · exact hticks session hmem
      · rw [List.mem_singleton.1 hmem]
        exact ⟨le_rfl, le_rfl⟩
  | call k c       =>
    constructor
    · simpa [Maintain.step] using hmaintained
    · intro session' hmem
      have hclock : (s.step (.call k c)).clock = s.clock := by simp [Maintain.step]
      rw [hclock]
      have hcalled : session' ∈ (s.onSession k (c.run s.netType s.lastMaintainTicks)).sessions := hmem
      rcases mem_onSession hcalled with hmem | ⟨session, hk, rfl⟩
      · exact hticks session' hmem
      · have hold := hticks session (List.mem_of_getElem? hk)
        have hre := MaintainedSession.run_restamps (t := s.netType) (f := s.flowController) (s := session)
          s.lastMaintainTicks c
        have hnew := hre.ticks
        rcases hre.stamp with ⟨_, hlast | hlast⟩ | ⟨_, _, hlast⟩
        · omega
        · omega
        · omega
  | closed k       =>
    constructor
    · simpa [Maintain.step] using hmaintained
    · intro session' hmem
      simp only [Maintain.step, onSession_clock]
      rcases mem_onSession hmem with hmem | ⟨session, hk, rfl⟩
      · exact hticks session' hmem
      · exact hticks session (List.mem_of_getElem? hk)

/-- While keep-alive is on, every open session has the time of the last `TimerMaintain`, or a later one. -/
def Current (s : Maintain) : Prop :=
  s.options.keepAliveTicks ≠ -1 → ∀ session ∈ s.sessions, session.status ≠ .closed → s.lastMaintainTicks ≤ session.ticks

theorem Stamped.step (h : s.Stamped) (htimely : s.Timely) {on : Bool} (hcurrent : on = false → s.Current) (e : MaintainEvent)
    (hstamps : Stamps (s, on) e) : (s.step e).Stamped := by
  cases e with
  | elapse seconds => exact h
  | resetOptions o =>
    intro hon session' hmem hopen
    obtain ⟨session, hold, hsame⟩ := mem_resetOptions hmem
    rw [hsame] at hopen ⊢
    by_cases hoff : s.options.keepAliveTicks = -1
    · exact hstamps hoff hon session hold hopen
    · exact h hoff session hold hopen
  | timerMaintain  =>
    intro hon session' hmem hopen
    simp only [Maintain.step, timerMaintain_options] at hon
    obtain ⟨k, hk⟩ := List.mem_iff_getElem?.1 hmem
    obtain ⟨session, hsession, htimes⟩ := timerMaintain_session hk
    have hold := List.mem_of_getElem? hsession
    -- the loop sets neither the stamp nor what it should be
    have hsame : session'.lastRwTicks = session.lastRwTicks ∧ session'.rwTicks = session.rwTicks ∧
        (session.status = .closed → session'.status = .closed) := by
      split at htimes
      · simp only [times, Prod.mk.injEq] at htimes
        simp [htimes]
      · split at htimes
        · simp only [times, Prod.mk.injEq] at htimes
          simp [htimes]
        · simp only [times, Prod.mk.injEq] at htimes
          simp [htimes]
    obtain ⟨hlast, hrw, hclosed⟩ := hsame
    unfold MaintainedSession.Stamped
    rw [hlast, hrw]
    exact h hon session hold fun hc => hopen (hclosed hc)
  | opened         =>
    intro hon session hmem hopen
    rcases List.mem_append.1 hmem with hmem | hmem
    · exact h hon session hmem hopen
    · rw [List.mem_singleton.1 hmem]
      simp [MaintainedSession.Stamped]
  | call k c       =>
    intro hon session' hmem hopen
    simp only [Maintain.step, onSession_options] at hon
    have hcalled : session' ∈ (s.onSession k (c.run s.netType s.lastMaintainTicks)).sessions := hmem
    rcases mem_onSession hcalled with hmem | ⟨session, hk, rfl⟩
    · exact h hon session' hmem hopen
    · have hre := MaintainedSession.run_restamps (t := s.netType) (f := s.flowController) (s := session)
        s.lastMaintainTicks c
      have hold := List.mem_of_getElem? hk
      have hstamped := h hon session hold fun hclosed => hopen (hre.closed.1 hclosed)
      have hticks := htimely.ticks session hold
      intro time htime
      rcases hre.stamp with ⟨hrw, hlast⟩ | ⟨hcompletes, hrw, hlast⟩
      · -- the same last read or write, stamped no earlier
        rw [hrw] at htime
        have hle := hstamped time htime
        rcases hlast with hlast | hlast
        · omega
        · omega
      · rw [hrw] at htime
        obtain rfl := Option.some.inj htime
        rw [hlast]
        cases on with
        | false => exact hcurrent rfl hon session hold hcompletes.not_closed
        | true  => exact hstamps rfl session hk hcompletes
  | closed k       =>
    intro hon session' hmem hopen
    simp only [Maintain.step, onSession_options] at hon
    rcases mem_onSession hmem with hmem | ⟨session, hk, rfl⟩
    · exact h hon session' hmem hopen
    · exact absurd rfl hopen

/-- `ResetOptions` does not turn keep-alive on. -/
def TurnsOff (s : Maintain) : MaintainEvent → Prop
  | .resetOptions o => s.options.keepAliveTicks = -1 → o.keepAliveTicks = -1
  | _               => True

/-- `TimerMaintain` gives the sessions its time. -/
theorem current_timerMaintain (s : Maintain) : (s.step .timerMaintain).Current := by
  intro hon session' hmem hopen
  simp only [Maintain.step, timerMaintain_options] at hon
  obtain ⟨k, hk⟩ := List.mem_iff_getElem?.1 hmem
  obtain ⟨session, hsession, htimes⟩ := timerMaintain_session hk
  simp only [Maintain.step, timerMaintain_lastMaintainTicks]
  split at htimes
  · next hor =>
    simp only [times, Prod.mk.injEq] at htimes
    exact absurd (htimes.1.trans (hor.resolve_left hon)) hopen
  · split at htimes
    · simp only [times, Prod.mk.injEq] at htimes
      exact absurd htimes.1 hopen
    · simp only [times, Prod.mk.injEq] at htimes
      omega

theorem Current.step (h : s.Current) (htimely : s.Timely) (e : MaintainEvent) (hoff : s.TurnsOff e) :
    (s.step e).Current := by
  cases e with
  | elapse seconds => exact h
  | resetOptions o =>
    intro hon session' hmem hopen
    obtain ⟨session, hold, hsame⟩ := mem_resetOptions hmem
    rw [hsame] at hopen ⊢
    exact h (fun hwas => hon (hoff hwas)) session hold hopen
  | timerMaintain  => exact current_timerMaintain s
  | opened         =>
    intro hon session hmem hopen
    rcases List.mem_append.1 hmem with hmem | hmem
    · exact h hon session hmem hopen
    · rw [List.mem_singleton.1 hmem]
      exact htimely.maintained
  | call k c       =>
    intro hon session' hmem hopen
    simp only [Maintain.step, onSession_options] at hon
    have hcalled : session' ∈ (s.onSession k (c.run s.netType s.lastMaintainTicks)).sessions := hmem
    have hmaintained : (s.step (.call k c)).lastMaintainTicks = s.lastMaintainTicks := by simp [Maintain.step]
    rw [hmaintained]
    rcases mem_onSession hcalled with hmem | ⟨session, hk, rfl⟩
    · exact h hon session' hmem hopen
    · have hre := MaintainedSession.run_restamps (t := s.netType) (f := s.flowController) (s := session)
        s.lastMaintainTicks c
      rw [hre.ticks]
      exact h hon session (List.mem_of_getElem? hk) fun hclosed => hopen (hre.closed.1 hclosed)
  | closed k       =>
    intro hon session' hmem hopen
    simp only [Maintain.step, onSession_options] at hon
    have hmaintained : (s.step (.closed k)).lastMaintainTicks = s.lastMaintainTicks := by simp [Maintain.step]
    rw [hmaintained]
    rcases mem_onSession hmem with hmem | ⟨session, hk, rfl⟩
    · exact h hon session' hmem hopen
    · exact absurd rfl hopen

/-- A run that does not turn keep-alive on meets the condition. -/
theorem along_stamps : ∀ (es : List MaintainEvent) {s : Maintain}, Along step TurnsOff s es →
    Along (recorded step turnedOn) Stamps (s, false) es
  | [],      _, _    => trivial
  | e :: es, s, hoff => by
    have hnot : s.turnedOn e false = false := by
      cases e with
      | resetOptions o =>
        have hstays : s.options.keepAliveTicks = -1 → o.keepAliveTicks = -1 := hoff.1
        simpa [turnedOn] using hstays
      | _              => rfl
    refine ⟨?_, ?_⟩
    · cases e with
      | resetOptions o => exact fun hwas hon => absurd (hoff.1 hwas) hon
      | call k c       => exact fun hon => absurd hon Bool.false_ne_true
      | _              => trivial
    · rw [recorded, hnot]
      exact along_stamps es hoff.2

/-- Outside of the window the sessions have the time. -/
structure Maintained (r : Maintain × Bool) : Prop where
  timely  : r.1.Timely
  stamped : r.1.Stamped
  current : r.2 = false → r.1.Current

theorem Maintained.step (r : Maintain × Bool) (e : MaintainEvent) (h : Maintained r) (hstamps : Stamps r e) :
    Maintained (recorded Maintain.step turnedOn r e) where
  timely  := h.timely.step e
  stamped := h.stamped.step h.timely h.current e hstamps
  current := fun hnot => by
    cases e with
    | timerMaintain  => exact current_timerMaintain r.1
    | resetOptions o =>
      by_cases hoff : o.keepAliveTicks = -1
      · exact fun hon => absurd hoff hon
      · have hbefore : r.2 = false ∧ r.1.options.keepAliveTicks ≠ -1 := by
          simpa [recorded, turnedOn, hoff] using hnot
        exact (h.current hbefore.1).step h.timely _ fun hwas => absurd hwas hbefore.2
    | _              => exact (h.current hnot).step h.timely _ trivial

theorem keepAliveTicks_spec (o : MaintainOptions) :
    o.keepAliveTicks = -1 ∧ o.keepAliveTime = -1 ∨
    o.keepAliveTicks ≠ -1 ∧ o.keepAliveTime ≠ -1 ∧ o.keepAliveTime ≤ o.keepAliveTicks := by
  unfold MaintainOptions.keepAliveTicks
  split
  · simp [*]
  · right
    omega

/-- **In every run in which keep-alive is turned on over no stamp that is too old, a session that `TimerMaintain` closes
for being idle has completed no read or write since any `TimerMaintain` of the last `keep_alive_time` seconds.** -/
theorem run_keepAlive (t : NetType) (o : MaintainOptions) (es : List MaintainEvent)
    (hstamps : Along (recorded step turnedOn) Stamps (init t o, false) es) (k : Nat) (session session' : MaintainedSession) :
    let s := es.foldl step (init t o)
    s.sessions[k]? = some session → session.status ≠ .closed →
    (s.step .timerMaintain).sessions[k]? = some session' → session'.status = .closed →
    s.options.keepAliveTime ≠ -1 ∧ ∀ time ∈ session.rwTicks, s.options.keepAliveTime ≤ s.clock - time := by
  intro s hk hopen hk' hclosed
  have hrun := Run.foldl_inv Maintained.step es
    ⟨⟨by simp [init], by simp [init]⟩, by simp [Stamped, init], fun _ => by simp [Current, init]⟩ hstamps
  have hinv : s.Stamped := by
    have hstamped := hrun.stamped
    rwa [Run.foldl_recorded_fst] at hstamped
  obtain ⟨session₀, hk₀, htimes⟩ := timerMaintain_session hk'
  obtain rfl := Option.some.inj (hk.symm.trans hk₀)
  -- the session was open, so the loop has closed it
  by_cases hoff : s.options.keepAliveTicks = -1
  · simp only [hoff, true_or, if_true, times, Prod.mk.injEq] at htimes
    exact absurd (htimes.1.symm.trans hclosed) hopen
  · rcases keepAliveTicks_spec s.options with ⟨hoff', _⟩ | ⟨_, htime, hle⟩
    · exact absurd hoff' hoff
    · refine ⟨htime, ?_⟩
      intro time hrw
      have hstamped := hinv hoff session (List.mem_of_getElem? hk) hopen time hrw
      rw [if_neg (by simp [hoff, hopen])] at htimes
      split at htimes
      · omega
      · simp only [times, Prod.mk.injEq] at htimes
        exact absurd (htimes.1.symm.trans hclosed) hopen

/-- Keep-alive is on from the beginning, and a session that has read once is idle for longer than it allows: it is closed. -/
theorem run_keepAlive_idle :
    let s := [.opened, .call 0 (.setSocketConnected 1000), .elapse 5, .timerMaintain, .call 0 (.onReadSome 1000),
      .elapse 20].foldl step (init .server { keepAliveTime := 10 })
    ∃ session session', s.sessions[0]? = some session ∧ session.status = .connected ∧
      (s.step .timerMaintain).sessions[0]? = some session' ∧ session'.status = .closed ∧
      ∀ time ∈ session.rwTicks, s.options.keepAliveTime ≤ s.clock - time := by
  have hstamps : Along (recorded step turnedOn) Stamps (init .server { keepAliveTime := 10 }, false) [.opened,
      .call 0 (.setSocketConnected 1000), .elapse 5, .timerMaintain, .call 0 (.onReadSome 1000), .elapse 20] := by
    apply along_stamps
    simp [Along, TurnsOff]
  have hidle := run_keepAlive .server { keepAliveTime := 10 } _ hstamps 0 _ _ rfl (by decide) rfl rfl
  exact ⟨_, _, rfl, rfl, rfl, rfl, hidle.2⟩

/-- A session that reads in the second in which keep-alive is turned on is closed in the same second. -/
theorem busy_closed :
    let s := [.opened, .call 0 (.setSocketConnected 1000), .elapse 100, .timerMaintain, .call 0 (.onReadSome 1000),
      .resetOptions { keepAliveTime := 10 }].foldl step (init .server {})
    ∃ session session', s.sessions[0]? = some session ∧ session.status = .connected ∧ session.rwTicks = some 100 ∧
      (s.step .timerMaintain).sessions[0]? = some session' ∧ session'.status = .closed ∧
      s.options.keepAliveTime = 10 ∧ s.clock = 100 :=
  ⟨_, _, rfl, rfl, rfl, rfl, rfl, rfl, rfl⟩

end Maintain

end Gb
