import GbServer.TimerHistory
/-!
# TimerUpdates — what a frame fires

An `Update` of a `TimerManager` fires what had expired when it began and is active when its turn comes, in turn and once
(`FiredDue`), as long as nothing that is armed in it is expired at once.  A deadline that 64 bits do not hold lies in the
past, and its timer is fired in the frame that armed it.  Of every run: a timer that does not loop is fired at most once, none
after it was unregistered, and the queues hold what the map does (`run_sound`).
-/
namespace Gb

open Run (Along Always)
open TimerManager (Owned)

/-- The turns of an `Update`: the steady clock first, and each queue by its time and its ids. -/
def Timer.ComesBefore (t u : Timer) : Prop := (t.clock = .steady ∧ u.clock = .system) ∨ (t.clock = u.clock ∧ t.key < u.key)

/-- Whether a timer that is armed now is expired now. -/
def expiredAtOnce (clock : TimerClock) (milliseconds : Int) (now : ClockReading) : Bool :=
  (Timer.make clock milliseconds 0 false now).isExpired now

namespace TimerSystem

/-- A timer was fired exactly if it had expired when `Update` began and was active when its turn came: no callback of a timer
that comes before it had unregistered it. -/
def FiredIfDue (s : TimerSystem) (t : Timer) : Prop :=
  (∃ f ∈ s.fired, f.timer = t) ↔
    t.isExpired s.now = true ∧ t.active = true ∧
      ∀ f ∈ s.fired, f.timer.ComesBefore t → .unRegisterTimer t.id ∉ f.calls

/-- The last `Update` fired what was due, and nothing else. -/
structure FiredDue (s : TimerSystem) : Prop where
  ofBegan : ∀ f ∈ s.fired, f.timer ∈ s.began.allTimers
  exactly : ∀ t ∈ s.began.allTimers, s.FiredIfDue t
  inTurn  : s.fired.Pairwise fun f g => f.timer.ComesBefore g.timer

structure Sound (s : TimerSystem) : Prop where
  noFault : s.fault = false
  fires   : s.updating = none → s.FiredDue
  once    : FiredOnce s.history
  silent  : SilentOnceUnregistered s.history
  entries : s.updating = none →
    (s.manager.timers .steady ++ s.manager.timers .system).Perm (s.manager.allTimers.map Timer.id)

/-- The clocks stand still during an `Update`. -/
def Constant (s : TimerSystem) : TimerEvent → Prop
  | .pass p => p.now = s.now ∧ p.reset = s.now ∧ ∀ c ∈ p.calls, c.1 = s.now
  | _       => True

/-- What an `Update` arms, a callback's new timer or a loop's next round, is not expired at once. -/
def ArmsLater (s : TimerSystem) : TimerEvent → Prop
  | .pass p =>
    (∀ clock ∈ s.updating, ∀ t ∈ s.manager.top clock, t.active = true → t.isExpired p.now = true → t.loop = true →
      expiredAtOnce t.clock t.duration p.reset = false) ∧
    ∀ c ∈ p.calls, ∀ r ∈ c.2.registers, expiredAtOnce r.1 r.2.1 c.1 = false
  | _       => True

instance (s : TimerSystem) : ∀ e, Decidable (s.Constant e)
  | .pass _              => inferInstanceAs (Decidable (_ ∧ _ ∧ ∀ c ∈ _, _))
  | .call _ _            => isTrue trivial
  | .enterShutdownMode _ => isTrue trivial
  | .update _            => isTrue trivial

instance (s : TimerSystem) : ∀ e, Decidable (s.ArmsLater e)
  | .pass _              => inferInstanceAs (Decidable ((∀ clock ∈ _, ∀ t ∈ _, _) ∧ ∀ c ∈ _, ∀ r ∈ _, _))
  | .call _ _            => isTrue trivial
  | .enterShutdownMode _ => isTrue trivial
  | .update _            => isTrue trivial

/-! ## A timer that is armed -/

theorem isExpired_make {clock : TimerClock} {milliseconds id : Int} {loop : Bool} {now now' : ClockReading} :
    (Timer.make clock milliseconds id loop now).isExpired now' =
      (Timer.make clock milliseconds 0 false now).isExpired now' := by
  cases clock <;> rfl

theorem isExpired_reset {t : Timer} {now : ClockReading} :
    (t.reset now).isExpired now = expiredAtOnce t.clock t.duration now := by
  obtain ⟨clock, active, id, loop, duration, endTimePoint⟩ := t
  cases clock <;> rfl

theorem isExpired_active {t : Timer} {active : Bool} {now : ClockReading} :
    { t with active := active }.isExpired now = t.isExpired now := rfl

/-- A positive time whose deadline 64 bits hold ends later. -/
theorem expiredAtOnce_of_fits {clock : TimerClock} {milliseconds : Int} {now : ClockReading} (hpos : 0 < milliseconds)
    (hlow : -2 ^ 63 ≤ now.on clock) (hhigh : now.on clock + nanoseconds milliseconds < 2 ^ 63) :
    expiredAtOnce clock milliseconds now = false := by
  have hnano : 0 < nanoseconds milliseconds := by
    unfold nanoseconds
    omega
  have htime := timePoint_eq (Int.le_trans hlow (by omega)) hhigh
  rw [expiredAtOnce, Timer.isExpired, Timer.make, htime]
  cases clock with
  | steady => exact decide_eq_false (by show ¬now.steady + _ < now.steady; omega)
  | system => exact decide_eq_false (by show ¬now.system + _ ≤ now.system; omega)

/-! ## The turns of an `Update` -/

theorem comesBefore_irrefl (t : Timer) : ¬t.ComesBefore t := by
  rintro (⟨hsteady, hsystem⟩ | ⟨-, hlt⟩)
  · rw [hsteady] at hsystem
    cases hsystem
  · exact lt_irrefl _ hlt

variable {s : TimerSystem} {clock : TimerClock} {p : UpdatePass} {t u : Timer}

/-- A timer that has not had its turn. -/
def Pending (s : TimerSystem) (t : Timer) : Prop :=
  (∀ f ∈ s.fired, f.timer ≠ t) ∧ ∃ u ∈ s.manager.allTimers, u.id = t.id

/-- It was not cancelled before `Update` began nor since. -/
def stillActive (s : TimerSystem) (t : Timer) : Bool :=
  t.active && s.fired.all fun f => decide (.unRegisterTimer t.id ∉ f.calls)

/-- The loop for a clock is over. -/
def Over (s : TimerSystem) (clock : TimerClock) : Prop :=
  s.updating = none ∨ (s.updating = some .system ∧ clock = .steady)

/-- How far an `Update` has come: who had a turn comes before who had none, and what is expired had none, or is active no
more. -/
structure Turns (s : TimerSystem) : Prop where
  owned     : s.began.Owned none
  grown     : s.began.generateTimerId ≤ s.manager.generateTimerId
  ofBegan   : ∀ f ∈ s.fired, f.timer ∈ s.began.allTimers
  inTurn    : s.fired.Pairwise fun f g => f.timer.ComesBefore g.timer
  pending   : ∀ t ∈ s.began.allTimers, (∀ f ∈ s.fired, f.timer ≠ t) → ∀ u ∈ s.manager.allTimers, u.id = t.id →
    u = { t with active := s.stillActive t }
  others    : ∀ u ∈ s.manager.allTimers, (∀ t ∈ s.began.allTimers, t.id = u.id → ∃ f ∈ s.fired, f.timer = t) →
    u.isExpired s.now = false
  settled   : ∀ t ∈ s.began.allTimers, ¬s.Pending t → s.FiredIfDue t
  order     : ∀ t ∈ s.began.allTimers, ∀ u ∈ s.began.allTimers, t.clock = u.clock → ¬s.Pending t → s.Pending u → t.key < u.key
  untouched : s.updating = some .steady → ∀ t ∈ s.began.allTimers, t.clock = .system → s.Pending t
  overs     : ∀ t ∈ s.began.allTimers, s.Over t.clock → s.Pending t → t.isExpired s.now = false

theorem key_lt_of_le (hle : t.key ≤ u.key) (hid : t.id ≠ u.id) : t.key < u.key := by
  refine lt_of_le_of_ne hle fun heq => hid ?_
  exact (Prod.mk.inj (toLex.injective heq)).2

theorem stillActive_iff : s.stillActive t = true ↔
    t.active = true ∧ ∀ f ∈ s.fired, .unRegisterTimer t.id ∉ f.calls := by
  simp [stillActive]

namespace Turns

theorem update (h : s.manager.Owned none) (now : ClockReading) :
    Turns { s with updating := some .steady, began := s.manager, now := now, fired := [] } where
  owned     := h
  grown     := Int.le_refl _
  ofBegan   := by simp
  inTurn    := List.Pairwise.nil
  pending   := by
    intro t ht _ u hu hid
    rw [h.eq_of_id hu ht hid]
    simp [stillActive]
  others    := by
    intro u hu hfired
    obtain ⟨f, hf, -⟩ := hfired u hu rfl
    cases hf
  settled   := fun t ht hpending => absurd ⟨by simp, t, ht, rfl⟩ hpending
  order     := fun t ht _ _ _ hpending => absurd ⟨by simp, t, ht, rfl⟩ hpending
  untouched := fun _ t ht _ => ⟨by simp, t, ht, rfl⟩
  overs     := by
    rintro t - (hnone | ⟨hsystem, -⟩)
    · cases hnone
    · cases hsystem

/-- Who had a turn comes before who had none. -/
theorem comesBefore (h : s.Turns) (hupdating : s.updating = some clock) (ht : t ∈ s.began.allTimers)
    (hu : u ∈ s.began.allTimers) (hclock : u.clock = clock) (hsettled : ¬s.Pending t) (hpending : s.Pending u) :
    t.ComesBefore u := by
  by_cases heq : t.clock = u.clock
  · exact .inr ⟨heq, h.order t ht u hu heq hsettled hpending⟩
  · refine .inl ?_
    cases htc : t.clock with
    | steady =>
      cases huc : u.clock with
      | steady => exact absurd (htc.trans huc.symm) heq
      | system => exact ⟨rfl, rfl⟩
    | system =>
      cases huc : u.clock with
      | steady => exact absurd (h.untouched (by rw [hupdating, ← hclock, huc]) t ht htc) hsettled
      | system => exact absurd (htc.trans huc.symm) heq

theorem leave (h : s.Turns) (hupdating : s.updating = some clock)
    (hnone : ∀ t ∈ s.manager.allTimers, t.clock = clock → t.isExpired s.now = false) : (s.leave clock).Turns := by
  have hover : ∀ t ∈ s.began.allTimers, t.clock = clock ∨ s.Over t.clock → s.Pending t → t.isExpired s.now = false := by
    rintro t ht (hclock | hover) hpending
    · obtain ⟨hnotFired, u, hu, hid⟩ := hpending
      have heq := h.pending t ht hnotFired u hu hid
      have hexpired := hnone u hu (by rw [heq]; exact hclock)
      rwa [heq] at hexpired
    · exact h.overs t ht hover hpending
  cases clock with
  | steady =>
    refine ⟨h.owned, h.grown, h.ofBegan, h.inTurn, h.pending, h.others, h.settled, h.order, fun heq => ?_, ?_⟩
    · cases heq
    · rintro t ht (heq | ⟨-, hclock⟩)
      · cases heq
      · exact hover t ht (.inl hclock)
  | system =>
    refine ⟨h.owned, h.grown, h.ofBegan, h.inTurn, h.pending, h.others, h.settled, h.order, fun heq => ?_, ?_⟩
    · cases heq
    · rintro t ht -
      cases hclock : t.clock with
      | steady => exact hover t ht (.inr (.inr ⟨hupdating, hclock⟩))
      | system => exact hover t ht (.inl hclock)

/-- The pending timers come behind the front of their queue. -/
theorem behind_front (h : s.Turns) (hmin : ∀ w ∈ s.manager.allTimers, w.clock = u.clock → u.key ≤ w.key)
    (ht : t ∈ s.began.allTimers) (hpending : s.Pending t) (hclock : t.clock = u.clock) (hid : u.id ≠ t.id) :
    u.key < t.key := by
  obtain ⟨hnotFired, w, hw, hwid⟩ := hpending
  have heq := h.pending t ht hnotFired w hw hwid
  have hle := hmin w hw (by rw [heq]; exact hclock)
  rw [heq] at hle
  exact key_lt_of_le hle hid

/-- The front of the queue was cancelled and is let go. -/
theorem drop (h : s.Turns) (hupdating : s.updating = some u.clock) (hu : u ∈ s.manager.allTimers)
    (hmin : ∀ w ∈ s.manager.allTimers, w.clock = u.clock → u.key ≤ w.key) (hactive : u.active = false) :
    Turns { s with manager := (s.manager.pop u.clock u.id).erase u.id } := by
  have hpending : ∀ t, Pending { s with manager := (s.manager.pop u.clock u.id).erase u.id } t ↔ s.Pending t ∧ t.id ≠ u.id := by
    intro t
    constructor
    · rintro ⟨hnotFired, w, hw, hwid⟩
      obtain ⟨hw, hne⟩ := TimerManager.mem_erase.1 hw
      exact ⟨⟨hnotFired, w, hw, hwid⟩, hwid ▸ hne⟩
    · rintro ⟨⟨hnotFired, w, hw, hwid⟩, hne⟩
      exact ⟨hnotFired, w, TimerManager.mem_erase.2 ⟨hw, hwid ▸ hne⟩, hwid⟩
  -- the timer that `Update` began with, if it is this one, is not active any more
  have hfront : ∀ t ∈ s.began.allTimers, s.Pending t → t.id = u.id → t.key = u.key ∧ t.clock = u.clock ∧ ¬s.stillActive t := by
    intro t ht hpend hid
    have heq := h.pending t ht hpend.1 u hu hid.symm
    refine ⟨by rw [heq]; rfl, by rw [heq], ?_⟩
    rw [heq] at hactive
    simpa using hactive
  constructor
  case owned     => exact h.owned
  case grown     => exact h.grown
  case ofBegan   => exact h.ofBegan
  case inTurn    => exact h.inTurn
  case pending   => exact fun t ht hnotFired w hw => h.pending t ht hnotFired w (TimerManager.mem_erase.1 hw).1
  case others    => exact fun w hw => h.others w (TimerManager.mem_erase.1 hw).1
  case settled   =>
    intro t ht hsettled
    rw [hpending] at hsettled
    by_cases hpend : s.Pending t
    · have hid : t.id = u.id := by
        by_contra hid
        exact hsettled ⟨hpend, hid⟩
      obtain ⟨-, hclock, hinactive⟩ := hfront t ht hpend hid
      constructor
      · rintro ⟨f, hf, heq⟩
        exact absurd heq (hpend.1 f hf)
      · rintro ⟨-, hwas, hnone⟩
        refine absurd (stillActive_iff.2 ⟨hwas, fun f hf => hnone f hf ?_⟩) hinactive
        exact h.comesBefore hupdating (h.ofBegan f hf) ht hclock (fun hpend' => hpend'.1 f hf rfl) hpend
    · exact h.settled t ht hpend
  case order     =>
    intro t ht w hw hclock hsettled hpend
    rw [hpending] at hsettled hpend
    by_cases hpend' : s.Pending t
    · have hid : t.id = u.id := by
        by_contra hid
        exact hsettled ⟨hpend', hid⟩
      obtain ⟨hkey, htclock, -⟩ := hfront t ht hpend' hid
      rw [hkey]
      exact h.behind_front hmin hw hpend.1 (hclock.symm.trans htclock) (Ne.symm hpend.2)
    · exact h.order t ht w hw hclock hpend' hpend.1
  case untouched =>
    intro hsteady t ht hclock
    have hpend := h.untouched hsteady t ht hclock
    refine (hpending t).2 ⟨hpend, fun hid => ?_⟩
    obtain ⟨-, htclock, -⟩ := hfront t ht hpend hid
    rw [show s.updating = some .steady from hsteady, ← htclock, hclock] at hupdating
    cases hupdating
  case overs     => exact fun t ht hover hpend => h.overs t ht hover ((hpending t).1 hpend).1

/-- The front of the queue is expired and active: it is a timer that `Update` began with, and has had no turn. -/
theorem front_due (h : s.Turns) (hu : u ∈ s.manager.allTimers) (hactive : u.active = true)
    (hexpired : u.isExpired s.now = true) :
    u ∈ s.began.allTimers ∧ s.Pending u ∧ s.stillActive u = true := by
  by_contra hnot
  have hothers := h.others u hu
  rw [hexpired] at hothers
  refine absurd (hothers fun t ht hid => ?_) (by decide)
  by_contra hnotFired
  have hnotFired : ∀ f ∈ s.fired, f.timer ≠ t := fun f hf heq => hnotFired ⟨f, hf, heq⟩
  have heq := h.pending t ht hnotFired u hu hid.symm
  have hstill : s.stillActive t = true := by
    rw [heq] at hactive
    exact hactive
  have hwas : t.active = true := (stillActive_iff.1 hstill).1
  have htu : u = t := by
    rw [heq, hstill, ← hwas]
  subst htu
  exact hnot ⟨ht, ⟨hnotFired, u, hu, rfl⟩, hstill⟩

theorem isExpired_cancelled {cs : List TimerCall} {now : ClockReading} : (cancelled cs t).isExpired now = t.isExpired now := by
  unfold cancelled
  split <;> rfl

end Turns

/-! ## A firing -/

/-- `u` was fired between these states, with the calls of `p`. -/
structure Fires (s s' : TimerSystem) (u : Timer) (p : UpdatePass) : Prop where
  timers   : ∀ w ∈ s'.manager.allTimers, NewTimer s.manager p.calls w ∨
    (∃ v ∈ s.manager.allTimers, v.id ≠ u.id ∧ w = cancelled (p.calls.map Prod.snd) v) ∨
    (u.loop = true ∧ w = (cancelled (p.calls.map Prod.snd) u).reset p.reset)
  kept     : ∀ v ∈ s.manager.allTimers, v.id ≠ u.id → cancelled (p.calls.map Prod.snd) v ∈ s'.manager.allTimers
  grown    : s.manager.generateTimerId ≤ s'.manager.generateTimerId
  updating : s'.updating = s.updating
  began    : s'.began = s.began
  now      : s'.now = s.now
  fired    : s'.fired = s.fired ++ [⟨u, p.calls.map Prod.snd⟩]

variable {s' : TimerSystem}

theorem fires (hm : s.manager.Owned none) (hu : u ∈ s.manager.allTimers) :
    s.Fires (((s.fire u.clock u p).calls p.calls).finish u.clock u p) u p := by
  obtain ⟨hof, hto, -, hgrown⟩ := mem_finish (p := p) hm hu
  obtain ⟨hupdating, hbegan, hnow, hfired⟩ := finish_frame s u.clock u p
  exact ⟨hof, hto, hgrown, hupdating, hbegan, hnow, hfired⟩

theorem Fires.mem_fired (hf : s.Fires s' u p) {f : Firing} :
    f ∈ s'.fired ↔ f ∈ s.fired ∨ f = ⟨u, p.calls.map Prod.snd⟩ := by
  rw [hf.fired, List.mem_append, List.mem_singleton]

namespace Turns

/-- No timer that is new has the id of one that `Update` began with. -/
theorem new_id_ne (h : s.Turns) {w : Timer} (ht : t ∈ s.began.allTimers) (hw : NewTimer s.manager p.calls w) : w.id ≠ t.id := by
  intro hid
  have hknown := h.owned.known t ht
  have hlt := hw.1
  have hle := h.grown
  omega

/-- The one that is fired has had its turn, and nobody else. -/
theorem pending_iff (h : s.Turns) (hf : s.Fires s' u p) (hbegan : u ∈ s.began.allTimers) (ht : t ∈ s.began.allTimers) :
    s'.Pending t ↔ s.Pending t ∧ t ≠ u := by
  constructor
  · rintro ⟨hnotFired, w, hw, hwid⟩
    have hne : t ≠ u := fun heq => hnotFired _ (hf.mem_fired.2 (.inr rfl)) heq.symm
    refine ⟨⟨fun f hfired => hnotFired f (hf.mem_fired.2 (.inl hfired)), ?_⟩, hne⟩
    rcases hf.timers w hw with hnewTimer | ⟨v, hv, -, rfl⟩ | ⟨-, rfl⟩
    · exact absurd hwid (h.new_id_ne ht hnewTimer)
    · exact ⟨v, hv, by simpa using hwid⟩
    · exact absurd (h.owned.eq_of_id ht hbegan (by simpa using hwid.symm)) hne
  · rintro ⟨⟨hnotFired, w, hw, hwid⟩, hne⟩
    refine ⟨fun f hfired => ?_, _, hf.kept w hw ?_, by rw [cancelled_id, hwid]⟩
    · rcases hf.mem_fired.1 hfired with hfired | rfl
      · exact hnotFired f hfired
      · exact Ne.symm hne
    · exact fun hid => hne (h.owned.eq_of_id ht hbegan (hwid.symm.trans hid))

/-- Who has no turn yet is as it was, but that the calls may have cancelled it. -/
theorem fires_pending (h : s.Turns) (hf : s.Fires s' u p) (hbegan : u ∈ s.began.allTimers) (ht : t ∈ s.began.allTimers)
    (hnotFired : ∀ f ∈ s'.fired, f.timer ≠ t) {w : Timer} (hw : w ∈ s'.manager.allTimers) (hwid : w.id = t.id) :
    w = { t with active := s'.stillActive t } := by
  rcases hf.timers w hw with hnewTimer | ⟨v, hv, -, rfl⟩ | ⟨-, rfl⟩
  · exact absurd hwid (h.new_id_ne ht hnewTimer)
  · rw [cancelled_id] at hwid
    have heq := h.pending t ht (fun f hfired => hnotFired f (hf.mem_fired.2 (.inl hfired))) v hv hwid
    rw [cancelled, hwid, stillActive, hf.fired, List.all_append, List.all_cons, List.all_nil, Bool.and_true, ← Bool.and_assoc,
      ← stillActive]
    by_cases hcall : TimerCall.unRegisterTimer t.id ∈ p.calls.map Prod.snd
    · rw [if_pos hcall, heq]
      simp [Timer.cancel, hcall]
    · rw [if_neg hcall, heq]
      simp [hcall]
  · have htu := h.owned.eq_of_id ht hbegan (by simpa using hwid.symm)
    exact absurd htu.symm (hnotFired _ (hf.mem_fired.2 (.inr rfl)))

theorem cancelled_same (cs : List TimerCall) (t : Timer) :
    (cancelled cs t).clock = t.clock ∧ (cancelled cs t).duration = t.duration := by
  unfold cancelled
  split <;> exact ⟨rfl, rfl⟩

/-- What is armed meanwhile ends later. -/
theorem fires_others (h : s.Turns) (hf : s.Fires s' u p) (hconstant : s.Constant (.pass p))
    (hloop : u.loop = true → expiredAtOnce u.clock u.duration s.now = false)
    (hnew : ∀ c ∈ p.calls, ∀ r ∈ c.2.registers, expiredAtOnce r.1 r.2.1 c.1 = false) {w : Timer}
    (hw : w ∈ s'.manager.allTimers) (hfired : ∀ t ∈ s.began.allTimers, t.id = w.id → ∃ f ∈ s'.fired, f.timer = t) :
    w.isExpired s.now = false := by
  obtain ⟨-, hreset, hnow⟩ := hconstant
  rcases hf.timers w hw with ⟨-, c, hc, r, hr, hmake⟩ | ⟨v, hv, hvid, rfl⟩ | ⟨hloops, rfl⟩
  · rw [hmake, isExpired_active, isExpired_make, ← hnow c hc]
    exact hnew c hc r hr
  · rw [isExpired_cancelled]
    refine h.others v hv fun t ht hid => ?_
    obtain ⟨f, hfire, rfl⟩ := hfired t ht (by rwa [cancelled_id])
    rcases hf.mem_fired.1 hfire with hfire | rfl
    · exact ⟨f, hfire, rfl⟩
    · exact absurd hid.symm hvid
  · rw [← hreset, isExpired_reset, (cancelled_same _ u).1, (cancelled_same _ u).2, hreset]
    exact hloop hloops

/-- Who had a turn before comes behind nobody that is fired now. -/
theorem not_comesBefore (h : s.Turns) (hupdating : s.updating = some u.clock) (hbegan : u ∈ s.began.allTimers)
    (hpend : s.Pending u) (ht : t ∈ s.began.allTimers) (hsettled : ¬s.Pending t) : ¬u.ComesBefore t := by
  rintro (⟨hsteady, hsystem⟩ | ⟨hclock, hlt⟩)
  · exact hsettled (h.untouched (by rw [hupdating, hsteady]) t ht hsystem)
  · exact lt_asymm hlt (h.order t ht u hbegan hclock.symm hsettled hpend)

/-- Who was settled stays so. -/
theorem fires_settled (h : s.Turns) (hf : s.Fires s' u p) (hupdating : s.updating = some u.clock)
    (hbegan : u ∈ s.began.allTimers) (hpend : s.Pending u) (ht : t ∈ s.began.allTimers) (htu : t ≠ u)
    (hsettled : ¬s.Pending t) : s'.FiredIfDue t := by
  have hwas := h.settled t ht hsettled
  unfold FiredIfDue at hwas
  have hleft : (∃ f ∈ s'.fired, f.timer = t) ↔ ∃ f ∈ s.fired, f.timer = t := by
    constructor
    · rintro ⟨f, hfired, heq⟩
      rcases hf.mem_fired.1 hfired with hfired | rfl
      · exact ⟨f, hfired, heq⟩
      · exact absurd heq.symm htu
    · rintro ⟨f, hfired, heq⟩
      exact ⟨f, hf.mem_fired.2 (.inl hfired), heq⟩
  rw [FiredIfDue, hleft, hwas, hf.now]
  refine and_congr_right fun _ => and_congr_right fun _ => ⟨fun hnone f hfired hbeforeT => ?_, fun hnone f hfired => ?_⟩
  · rcases hf.mem_fired.1 hfired with hfired | rfl
    · exact hnone f hfired hbeforeT
    · exact absurd hbeforeT (h.not_comesBefore hupdating hbegan hpend ht hsettled)
  · exact hnone f (hf.mem_fired.2 (.inl hfired))

/-- The one that is fired was due. -/
theorem fires_due (hf : s.Fires s' u p) (hexpired : u.isExpired s.now = true) (hstill : s.stillActive u = true) :
    s'.FiredIfDue u := by
  obtain ⟨hactive, hcalls⟩ := stillActive_iff.1 hstill
  rw [FiredIfDue, hf.now]
  refine iff_of_true ⟨_, hf.mem_fired.2 (.inr rfl), rfl⟩ ⟨hexpired, hactive, fun f hfired hbefore => ?_⟩
  rcases hf.mem_fired.1 hfired with hfired | rfl
  · exact hcalls f hfired
  · exact absurd hbefore (comesBefore_irrefl _)

/-- **The front of the queue is fired**, and what is armed meanwhile ends later. -/
theorem fire (h : s.Turns) (hf : s.Fires s' u p) (hupdating : s.updating = some u.clock) (hu : u ∈ s.manager.allTimers)
    (hmin : ∀ w ∈ s.manager.allTimers, w.clock = u.clock → u.key ≤ w.key) (hactive : u.active = true)
    (hexpired : u.isExpired s.now = true) (hconstant : s.Constant (.pass p))
    (hloop : u.loop = true → expiredAtOnce u.clock u.duration s.now = false)
    (hnew : ∀ c ∈ p.calls, ∀ r ∈ c.2.registers, expiredAtOnce r.1 r.2.1 c.1 = false) : s'.Turns := by
  obtain ⟨hbegan, hpend, hstill⟩ := h.front_due hu hactive hexpired
  have hpending : ∀ t ∈ s.began.allTimers, s'.Pending t ↔ s.Pending t ∧ t ≠ u := fun t ht => h.pending_iff hf hbegan ht
  constructor
  case owned     =>
    rw [hf.began]
    exact h.owned
  case grown     =>
    rw [hf.began]
    exact Int.le_trans h.grown hf.grown
  case ofBegan   =>
    intro f hfired
    rw [hf.began]
    rcases hf.mem_fired.1 hfired with hfired | rfl
    · exact h.ofBegan f hfired
    · exact hbegan
  case inTurn    =>
    rw [hf.fired, List.pairwise_append]
    refine ⟨h.inTurn, List.pairwise_singleton _ _, fun f hfired g hg => ?_⟩
    rw [List.mem_singleton.1 hg]
    exact h.comesBefore hupdating (h.ofBegan f hfired) hbegan rfl (fun hpend' => hpend'.1 f hfired rfl) hpend
  case pending   =>
    intro t ht hnotFired w hw hwid
    rw [hf.began] at ht
    exact h.fires_pending hf hbegan ht hnotFired hw hwid
  case others    =>
    intro w hw hfired
    rw [hf.began] at hfired
    rw [hf.now]
    exact h.fires_others hf hconstant hloop hnew hw hfired
  case settled   =>
    intro t ht hsettled
    rw [hf.began] at ht
    rw [hpending t ht] at hsettled
    by_cases htu : t = u
    · rw [htu]
      exact fires_due hf hexpired hstill
    · exact h.fires_settled hf hupdating hbegan hpend ht htu fun hpend' => hsettled ⟨hpend', htu⟩
  case order     =>
    intro t ht w hw hclock hsettled hpend'
    rw [hf.began] at ht hw
    rw [hpending t ht] at hsettled
    rw [hpending w hw] at hpend'
    by_cases htpend : s.Pending t
    · have htu : t = u := by
        by_contra htu
        exact hsettled ⟨htpend, htu⟩
      rw [htu] at hclock ⊢
      exact h.behind_front hmin hw hpend'.1 hclock.symm fun hid => hpend'.2 (h.owned.eq_of_id hw hbegan hid.symm)
    · exact h.order t ht w hw hclock htpend hpend'.1
  case untouched =>
    intro hsteady t ht hclock
    rw [hf.updating] at hsteady
    rw [hf.began] at ht
    refine (hpending t ht).2 ⟨h.untouched hsteady t ht hclock, ?_⟩
    rintro rfl
    rw [hsteady, hclock] at hupdating
    cases hupdating
  case overs     =>
    intro t ht hover hpend'
    rw [Over, hf.updating] at hover
    rw [hf.began] at ht
    rw [hf.now]
    exact h.overs t ht hover ((hpending t ht).1 hpend').1

theorem firedDue (h : s.Turns) (hnone : s.updating = none) : s.FiredDue where
  ofBegan := h.ofBegan
  exactly := by
    intro t ht
    by_cases hpend : s.Pending t
    · have hexpired := h.overs t ht (.inl hnone) hpend
      constructor
      · rintro ⟨f, hf, heq⟩
        exact absurd heq (hpend.1 f hf)
      · rintro ⟨hwas, -⟩
        rw [hexpired] at hwas
        cases hwas
    · exact h.settled t ht hpend
  inTurn  := h.inTurn

end Turns

/-! ## Runs -/

/-- What holds in every state of a run. -/
structure Frames (s : TimerSystem) : Prop where
  owned  : s.manager.Owned none
  fault  : s.fault = false
  turns  : ∀ clock, s.updating = some clock → s.Turns
  due    : s.updating = none → s.FiredDue
  logged : Logged none s.manager s.history

namespace Frames

theorem init : Frames {} where
  owned  := .init
  fault  := rfl
  turns  := by simp
  due    := fun _ => ⟨by simp, by simp, List.Pairwise.nil⟩
  logged := .init

theorem pass (h : s.Frames) (hupdating : s.updating = some clock) (hconstant : s.Constant (.pass p))
    (hlater : s.ArmsLater (.pass p)) : (s.pass clock p).Frames := by
  have hturns := h.turns clock hupdating
  have hnext : (s.pass clock p).Turns := by
    rcases pass_cases h.owned clock p with ⟨heq, hnone⟩ | ⟨t, ht, rfl, htop, hmin, ⟨hactive, heq⟩ | ⟨hactive, hexpired, heq⟩⟩
    · rw [hconstant.1] at hnone
      rw [heq]
      exact hturns.leave hupdating hnone
    · rw [heq]
      exact hturns.drop hupdating ht hmin hactive
    · have hloop := hlater.1 t.clock hupdating t htop hactive hexpired
      rw [hconstant.1] at hexpired
      rw [hconstant.2.1] at hloop
      rw [heq]
      exact hturns.fire (fires h.owned ht) hupdating ht hmin hactive hexpired hconstant hloop hlater.2
  exact ⟨owned_pass h.owned, (fault_pass h.owned).trans h.fault, fun _ _ => hnext, hnext.firedDue,
    logged_pass h.owned h.logged p⟩

theorem step (h : s.Frames) (e : TimerEvent) (hconstant : s.Constant e) (hlater : s.ArmsLater e) : (s.step e).Frames := by
  unfold TimerSystem.step
  split
  · rename_i hupdating
    obtain ⟨hof, hexactly, hturn⟩ := h.due hupdating
    exact ⟨h.owned.call _, h.fault, fun clock heq => (nomatch hupdating.symm.trans heq), fun _ => ⟨hof, hexactly, hturn⟩,
      h.logged.call h.owned _ _⟩
  · rename_i hupdating
    obtain ⟨hof, hexactly, hturn⟩ := h.due hupdating
    exact ⟨h.owned.enterShutdownMode _, h.fault, fun clock heq => (nomatch hupdating.symm.trans heq),
      fun _ => ⟨hof, hexactly, hturn⟩, h.logged.shutdown _⟩
  · exact ⟨h.owned, h.fault, fun _ _ => Turns.update h.owned _, fun heq => (nomatch heq), h.logged⟩
  · rename_i hupdating
    exact h.pass hupdating hconstant hlater
  · exact h

theorem sound (h : s.Frames) : s.Sound where
  noFault := h.fault
  fires   := h.due
  once    := fun t now ht hloop => (h.logged.once t now ht hloop).1
  silent  := h.logged.silent
  entries := fun _ => h.owned.perm

end Frames

/-- **In every run in which nothing that an `Update` arms is expired at once**, each `Update` fires what had expired when it
began and is active when its turn comes, in turn and once; a timer that does not loop is fired at most once, none is after it
was unregistered, and the queues hold the timers of the map. -/
theorem run_sound (es : List TimerEvent) (h : Along step (fun s e => s.Constant e ∧ s.ArmsLater e) {} es) :
    Always step Sound {} es :=
  (Run.always_inv (fun _ e hs he => hs.step e he.1 he.2) es Frames.init h).mono fun _ hs => hs.sound

/-- A timer that loops on the system clock, and one that it cancels and that would be next. -/
theorem run_sound_loop : Always step Sound {}
    [.call ⟨0, 0⟩ (.registerSystemTimer 1 true), .call ⟨0, 0⟩ (.registerSystemTimer 2 false), .update ⟨0, 5000000⟩,
      .pass ⟨⟨0, 5000000⟩, [], ⟨0, 5000000⟩⟩,
      .pass ⟨⟨0, 5000000⟩, [(⟨0, 5000000⟩, .unRegisterTimer 2), (⟨0, 5000000⟩, .registerTimer 3 false)], ⟨0, 5000000⟩⟩,
      .pass ⟨⟨0, 5000000⟩, [], ⟨0, 5000000⟩⟩, .pass ⟨⟨0, 5000000⟩, [], ⟨0, 5000000⟩⟩] :=
  run_sound _ (by decide)

end TimerSystem

/-- Timers that loop have a positive time, and those that a callback registers. -/
def TimerEvent.Positive : TimerEvent → Prop
  | call _ c => ∀ r ∈ c.registers, r.2.2 = true → 0 < r.2.1
  | pass p   => ∀ c ∈ p.calls, ∀ r ∈ c.2.registers, 0 < r.2.1
  | _        => True

instance : ∀ e, Decidable (TimerEvent.Positive e)
  | .call _ _            => inferInstanceAs (Decidable (∀ r ∈ _, _))
  | .pass _              => inferInstanceAs (Decidable (∀ c ∈ _, ∀ r ∈ _, _))
  | .enterShutdownMode _ => isTrue trivial
  | .update _            => isTrue trivial

namespace TimerSystem

/-- A callback registers a timer for the longest time that there is: it is fired in the same frame. -/
def farTimer : List TimerEvent :=
  [.call ⟨0, 0⟩ (.registerTimer 1 false), .update ⟨2000000, 0⟩,
    .pass ⟨⟨2000000, 0⟩, [(⟨2000000, 0⟩, .registerTimer 9223372036854775807 false)], ⟨2000000, 0⟩⟩,
    .pass ⟨⟨2000000, 0⟩, [], ⟨2000000, 0⟩⟩, .pass ⟨⟨2000000, 0⟩, [], ⟨2000000, 0⟩⟩, .pass ⟨⟨2000000, 0⟩, [], ⟨2000000, 0⟩⟩]

theorem not_run_sound : ¬∀ es, Along step (fun s e => s.Constant e ∧ e.Positive) {} es → Always step Sound {} es := by
  intro h
  have hlast := Run.always_iff_take.1 (h farTimer (by decide)) 6
  have hmem := (hlast.fires (by decide)).ofBegan
    ⟨⟨.steady, true, 2, false, 9223372036854775807, 1000000⟩, []⟩ (by decide)
  exact absurd hmem (by decide)

end TimerSystem

end Gb
