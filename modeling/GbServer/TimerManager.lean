import GbServer.Lib.Run
import Mathlib.Algebra.Group.Int.Defs
import Mathlib.Algebra.Group.Nat.Defs
import Mathlib.Data.List.MinMax
import Mathlib.Data.List.Nodup
import Mathlib.Data.Prod.Lex
/-!
# TimerManager — the timers of a worker, on two clocks

`Timer` (`timer.h`, `timer.cpp`) and `TimerManager` (`timer_manager.h`, `timer_manager.cpp`).  The map owns the timers, a
queue for each clock points to them, and `Update` takes from the front of a queue until what is there is not expired.
A callback registers and unregisters timers while `Update` is in its loop.

A pointer to a timer is the timer's id: no id is given out twice, and the timer lies where the map has it.  A system
(`TimerSystem`) is a manager with a history; `Update` takes a step for each pass of its two loops, and every look at a clock
has a reading of its own.  In every state, between the passes too, the queues point to what the map has and to nothing else
(`owned_run`).
-/
namespace Gb

/-- Whether a timer is a `SteadyTimer` or a `SystemTimer`. -/
inductive TimerClock
  | steady
  | system
  deriving DecidableEq

/-- What the clocks show, in nanoseconds. -/
structure ClockReading where
  steady : Int
  system : Int
  deriving DecidableEq

def ClockReading.on (now : ClockReading) : TimerClock → Int
  | .steady => now.steady
  | .system => now.system

def wrapInt64 (x : Int) : Int := Int.bmod x (2 ^ 64)

/-- Milliseconds in nanoseconds. -/
def nanoseconds (milliseconds : Int) : Int := milliseconds * 1000000

/-- `now() + milliseconds`: 64 bits hold the nanoseconds and the sum. -/
def timePoint (now milliseconds : Int) : Int := wrapInt64 (now + wrapInt64 (nanoseconds milliseconds))

structure Timer where
  clock        : TimerClock
  active       : Bool
  id           : Int
  loop         : Bool
  duration     : Int
  endTimePoint : Int
  deriving DecidableEq

namespace Timer

/-- The constructors. -/
def make (clock : TimerClock) (milliseconds id : Int) (loop : Bool) (now : ClockReading) : Timer :=
  ⟨clock, true, id, loop, milliseconds, timePoint (now.on clock) milliseconds⟩

def isExpired (t : Timer) (now : ClockReading) : Bool :=
  match t.clock with
  | .steady => decide (t.endTimePoint < now.steady)
  | .system => decide (t.endTimePoint ≤ now.system)

def cancel (t : Timer) : Timer := { t with active := false }

def reset (now : ClockReading) (t : Timer) : Timer := { t with endTimePoint := timePoint (now.on t.clock) t.duration }

/-- What the queues are ordered by. -/
def key (t : Timer) : Int ×ₗ Int := toLex (t.endTimePoint, t.id)

end Timer

structure TimerManager where
  timers          : TimerClock → List Int := fun _ => []
  allTimers       : List Timer := []
  generateTimerId : Int := 0
  shuttingDown    : Bool := false

/-- What is called from outside of `Update`, or by a callback. -/
inductive TimerCall
  | registerTimer (milliseconds : Int) (loop : Bool)
  | registerSystemTimer (milliseconds : Int) (loop : Bool)
  | unRegisterTimer (timerId : Int)
  deriving DecidableEq

/-- The clock, the time and whether the timer loops, where the call registers one. -/
def TimerCall.registers : TimerCall → Option (TimerClock × Int × Bool)
  | registerTimer milliseconds loop       => some (.steady, milliseconds, loop)
  | registerSystemTimer milliseconds loop => some (.system, milliseconds, loop)
  | unRegisterTimer _                     => none

namespace TimerManager

def getTimer (m : TimerManager) (timerId : Int) : Option Timer := m.allTimers.find? fun t => t.id = timerId

def push (m : TimerManager) (clock : TimerClock) (id : Int) : TimerManager :=
  { m with timers := Function.update m.timers clock (id :: m.timers clock) }

def pop (m : TimerManager) (clock : TimerClock) (id : Int) : TimerManager :=
  { m with timers := Function.update m.timers clock ((m.timers clock).erase id) }

def emplace (m : TimerManager) (t : Timer) : TimerManager :=
  if (m.getTimer t.id).isSome then m else { m with allTimers := t :: m.allTimers }

/-- `all_timers_.erase`: the timer is gone. -/
def erase (m : TimerManager) (id : Int) : TimerManager := { m with allTimers := m.allTimers.filter fun t => t.id ≠ id }

def modify (m : TimerManager) (id : Int) (f : Timer → Timer) : TimerManager :=
  { m with allTimers := m.allTimers.map fun t => if t.id = id then f t else t }

/-- A queue has a pointer to a timer that is gone. -/
def dangles (m : TimerManager) (clock : TimerClock) : Bool := (m.timers clock).any fun id => (m.getTimer id).isNone

/-- `top` of a queue, if there is one: the first by its time, and of these by its id. -/
def top (m : TimerManager) (clock : TimerClock) : Option Timer :=
  @List.argmin Timer (Int ×ₗ Int) (Prod.Lex.instLinearOrder Int Int).toPartialOrder.toPreorder
    LinearOrder.toDecidableLT Timer.key ((m.timers clock).filterMap m.getTimer)

/-- The timer that is registered, if one is. -/
def registered (m : TimerManager) (clock : TimerClock) (now : ClockReading) (milliseconds : Int) (loop : Bool) :
    Option Timer :=
  if m.shuttingDown then none else some (.make clock milliseconds (m.generateTimerId + 1) loop now)

/-- `RegisterTimer` and `RegisterSystemTimer`; -1 in shutdown mode. -/
def register (m : TimerManager) (clock : TimerClock) (now : ClockReading) (milliseconds : Int) (loop : Bool) :
    Int × TimerManager :=
  match m.registered clock now milliseconds loop with
  | none   => (-1, m)
  | some t => (t.id, ({ m with generateTimerId := t.id }.push clock t.id).emplace t)

def registerTimer (m : TimerManager) (now : ClockReading) (milliseconds : Int) (loop : Bool) : Int × TimerManager :=
  m.register .steady now milliseconds loop

def registerSystemTimer (m : TimerManager) (now : ClockReading) (milliseconds : Int) (loop : Bool) : Int × TimerManager :=
  m.register .system now milliseconds loop

/-- `UnRegisterTimer`: the timer stays where it is. -/
def unRegisterTimer (m : TimerManager) (timerId : Int) : TimerManager := m.modify timerId Timer.cancel

/-- `EnterShutdownMode`, with what the clocks show when it comes to each timer. -/
def enterShutdownMode (m : TimerManager) (now : Int → ClockReading) : TimerManager :=
  { m with
    shuttingDown := true
    allTimers    := m.allTimers.map fun t => if !t.isExpired (now t.id) && t.active then t.cancel else t }

def call (m : TimerManager) (now : ClockReading) : TimerCall → TimerManager
  | .registerTimer milliseconds loop       => (m.registerTimer now milliseconds loop).2
  | .registerSystemTimer milliseconds loop => (m.registerSystemTimer now milliseconds loop).2
  | .unRegisterTimer timerId               => m.unRegisterTimer timerId

end TimerManager

/-! ## What happens -/

/-- What has happened: a timer was registered, or `UnRegisterTimer` was called for it; a timer was fired; the timers were
those that are left when shutdown began. -/
inductive TimerEntry
  | registered (t : Timer) (now : ClockReading)
  | unregistered (timerId : Int)
  | fired (t : Timer) (now : ClockReading)
  | shutdown (due : List Int)

/-- A timer fired, and what its callback called. -/
structure Firing where
  timer : Timer
  calls : List TimerCall
  deriving DecidableEq

/-- A pass of a loop of `Update`: what the clocks show to `IsExpired`, the calls of the callback and what the clocks show to
them, and what they show to `Reset`. -/
structure UpdatePass where
  now   : ClockReading
  calls : List (ClockReading × TimerCall) := []
  reset : ClockReading

/-- A manager, the loop in which `Update` is, and whether that met a pointer to a timer that is gone.  For the last `Update`:
the manager and what the clocks showed when it began, and what it has fired. -/
structure TimerSystem where
  manager  : TimerManager := {}
  updating : Option TimerClock := none
  fault    : Bool := false
  began    : TimerManager := {}
  now      : ClockReading := ⟨0, 0⟩
  fired    : List Firing := []
  history  : List TimerEntry := []

inductive TimerEvent
  | call (now : ClockReading) (c : TimerCall)
  | enterShutdownMode (now : Int → ClockReading)
  | update (now : ClockReading)
  | pass (p : UpdatePass)

namespace TimerManager

/-- What a call leaves in the history. -/
def records (m : TimerManager) (now : ClockReading) : TimerCall → List TimerEntry
  | .registerTimer milliseconds loop       => (m.registered .steady now milliseconds loop).toList.map (.registered · now)
  | .registerSystemTimer milliseconds loop => (m.registered .system now milliseconds loop).toList.map (.registered · now)
  | .unRegisterTimer timerId               => [.unregistered timerId]

/-- The timers that `EnterShutdownMode` finds active and expired. -/
def due (m : TimerManager) (now : Int → ClockReading) : List Int :=
  (m.allTimers.filter fun t => t.active && t.isExpired (now t.id)).map Timer.id

end TimerManager

namespace TimerSystem

def call (s : TimerSystem) (now : ClockReading) (c : TimerCall) : TimerSystem :=
  { s with manager := s.manager.call now c, history := s.history ++ s.manager.records now c }

def calls (s : TimerSystem) (cs : List (ClockReading × TimerCall)) : TimerSystem :=
  cs.foldl (fun s c => s.call c.1 c.2) s

/-- `Update` begins. -/
def begin (s : TimerSystem) (now : ClockReading) : TimerSystem :=
  { s with updating := some .steady, began := s.manager, now := now, fired := [] }

/-- A loop ends. -/
def leave (s : TimerSystem) : TimerClock → TimerSystem
  | .steady => { s with updating := some .system }
  | .system => { s with updating := none }

/-- The timer at the front was not cancelled and is expired, and its callback begins. -/
def fire (s : TimerSystem) (clock : TimerClock) (t : Timer) (p : UpdatePass) : TimerSystem :=
  { s with
    manager := s.manager.pop clock t.id
    fired   := s.fired ++ [⟨t, p.calls.map Prod.snd⟩]
    history := s.history ++ [.fired t p.now] }

/-- The callback has returned. -/
def finish (s : TimerSystem) (clock : TimerClock) (t : Timer) (p : UpdatePass) : TimerSystem :=
  if t.loop then { s with manager := (s.manager.modify t.id (Timer.reset p.reset)).push clock t.id }
  else { s with manager := s.manager.erase t.id }

/-- A pass of the loop for one clock. -/
def pass (s : TimerSystem) (clock : TimerClock) (p : UpdatePass) : TimerSystem :=
  if s.manager.dangles clock then { s with updating := none, fault := true }
  else
    match s.manager.top clock with
    | none   => s.leave clock
    | some t =>
      if t.active = false then { s with manager := (s.manager.pop clock t.id).erase t.id }
      else if t.isExpired p.now then ((s.fire clock t p).calls p.calls).finish clock t p
      else s.leave clock

def step (s : TimerSystem) (e : TimerEvent) : TimerSystem :=
  match s.updating, e with
  | none,       .call now c            => s.call now c
  | none,       .enterShutdownMode now =>
    { s with manager := s.manager.enterShutdownMode now, history := s.history ++ [.shutdown (s.manager.due now)] }
  | none,       .update now            => s.begin now
  | some clock, .pass p                => s.pass clock p
  | _,          _                      => s

end TimerSystem

/-! ## The queues and the map -/

/-- A deadline that 64 bits hold. -/
theorem timePoint_eq {now milliseconds : Int} (hlow : -2 ^ 63 ≤ now + nanoseconds milliseconds)
    (hhigh : now + nanoseconds milliseconds < 2 ^ 63) : timePoint now milliseconds = now + nanoseconds milliseconds := by
  unfold timePoint wrapInt64
  rw [Int.add_bmod_bmod]
  exact Int.bmod_eq_of_le (by omega) (by omega)

namespace Timer

variable {t u : Timer} {now : ClockReading}

@[simp] theorem cancel_id : t.cancel.id = t.id := rfl
@[simp] theorem cancel_clock : t.cancel.clock = t.clock := rfl
@[simp] theorem reset_id : (t.reset now).id = t.id := rfl
@[simp] theorem reset_clock : (t.reset now).clock = t.clock := rfl

/-- What comes first in its queue is expired first. -/
theorem isExpired_of_key_le (hclock : t.clock = u.clock) (hle : t.key ≤ u.key) (hu : u.isExpired now = true) :
    t.isExpired now = true := by
  have htime : t.endTimePoint ≤ u.endTimePoint := by
    rcases Prod.Lex.toLex_le_toLex.1 hle with hlt | ⟨heq, -⟩
    · exact Int.le_of_lt hlt
    · exact Int.le_of_eq heq
  unfold isExpired at hu ⊢
  rw [hclock]
  cases hc : u.clock with
  | steady =>
    simp only [hc, decide_eq_true_eq] at hu ⊢
    omega
  | system =>
    simp only [hc, decide_eq_true_eq] at hu ⊢
    omega

end Timer

namespace TimerManager

variable {m : TimerManager} {clock : TimerClock} {id : Int} {t u : Timer} {now : ClockReading}

@[simp] theorem pop_allTimers : (m.pop clock id).allTimers = m.allTimers := rfl
@[simp] theorem pop_generateTimerId : (m.pop clock id).generateTimerId = m.generateTimerId := rfl
@[simp] theorem pop_shuttingDown : (m.pop clock id).shuttingDown = m.shuttingDown := rfl
@[simp] theorem push_allTimers : (m.push clock id).allTimers = m.allTimers := rfl
@[simp] theorem push_generateTimerId : (m.push clock id).generateTimerId = m.generateTimerId := rfl
@[simp] theorem push_shuttingDown : (m.push clock id).shuttingDown = m.shuttingDown := rfl
@[simp] theorem erase_timers : (m.erase id).timers = m.timers := rfl
@[simp] theorem erase_generateTimerId : (m.erase id).generateTimerId = m.generateTimerId := rfl
@[simp] theorem erase_shuttingDown : (m.erase id).shuttingDown = m.shuttingDown := rfl
@[simp] theorem modify_timers {f : Timer → Timer} : (m.modify id f).timers = m.timers := rfl
@[simp] theorem modify_generateTimerId {f : Timer → Timer} : (m.modify id f).generateTimerId = m.generateTimerId := rfl
@[simp] theorem modify_shuttingDown {f : Timer → Timer} : (m.modify id f).shuttingDown = m.shuttingDown := rfl

@[simp] theorem mem_erase : t ∈ (m.erase id).allTimers ↔ t ∈ m.allTimers ∧ t.id ≠ id := by
  simp [erase]

theorem mem_modify {f : Timer → Timer} :
    t ∈ (m.modify id f).allTimers ↔ ∃ u ∈ m.allTimers, (if u.id = id then f u else u) = t := by
  simp [modify]

/-- A timer under a new id is put into the map. -/
theorem emplace_of_new (h : m.getTimer t.id = none) : ({ m with generateTimerId := t.id }.push clock t.id).emplace t =
    { m.push clock t.id with generateTimerId := t.id, allTimers := t :: m.allTimers } := by
  have hget : ({ m with generateTimerId := t.id }.push clock t.id).getTimer t.id = none := h
  rw [emplace, hget]
  rfl

/-- The map owns what the queues point to: every timer is in the queue of its clock, but for one that `Update` has taken out
of it. -/
structure Owned (m : TimerManager) (out : Option (TimerClock × Int)) : Prop where
  nodup   : (m.allTimers.map Timer.id).Nodup
  known   : ∀ t ∈ m.allTimers, t.id ≤ m.generateTimerId
  apart   : ∀ clock, (m.timers clock).Nodup
  entries : ∀ clock id, id ∈ m.timers clock ↔ out ≠ some (clock, id) ∧ ∃ t ∈ m.allTimers, t.id = id ∧ t.clock = clock
  held    : ∀ clock id, out = some (clock, id) → ∃ t ∈ m.allTimers, t.id = id ∧ t.clock = clock

namespace Owned

variable {out : Option (TimerClock × Int)}

theorem init : Owned {} none where
  nodup   := List.nodup_nil
  known   := by simp
  apart   := fun _ => List.nodup_nil
  entries := by simp
  held    := by simp

theorem eq_of_id (h : m.Owned out) (ht : t ∈ m.allTimers) (hu : u ∈ m.allTimers) (hid : t.id = u.id) : t = u :=
  List.inj_on_of_nodup_map h.nodup ht hu hid

theorem getTimer_iff (h : m.Owned out) : m.getTimer id = some t ↔ t ∈ m.allTimers ∧ t.id = id := by
  unfold getTimer
  constructor
  · intro hfind
    exact ⟨List.mem_of_find?_eq_some hfind, by simpa using List.find?_some hfind⟩
  · rintro ⟨hmem, rfl⟩
    cases hfind : m.allTimers.find? fun u => u.id = t.id with
    | none   => simpa using List.find?_eq_none.1 hfind t hmem
    | some u =>
      have hid : u.id = t.id := by simpa using List.find?_some hfind
      rw [h.eq_of_id (List.mem_of_find?_eq_some hfind) hmem hid]

theorem not_dangles (h : m.Owned none) : m.dangles clock = false := by
  unfold dangles
  rw [List.any_eq_false]
  intro id hid
  obtain ⟨-, t, ht, rfl, -⟩ := (h.entries clock id).1 hid
  rw [h.getTimer_iff.2 ⟨ht, rfl⟩]
  simp

theorem mem_pointed (h : m.Owned none) :
    t ∈ (m.timers clock).filterMap m.getTimer ↔ t ∈ m.allTimers ∧ t.clock = clock := by
  rw [List.mem_filterMap]
  constructor
  · rintro ⟨id, hid, hget⟩
    obtain ⟨ht, rfl⟩ := h.getTimer_iff.1 hget
    obtain ⟨-, u, hu, heq, hclock⟩ := (h.entries clock t.id).1 hid
    rw [h.eq_of_id ht hu heq.symm]
    exact ⟨hu, hclock⟩
  · rintro ⟨ht, hclock⟩
    exact ⟨t.id, (h.entries clock t.id).2 ⟨by simp, t, ht, rfl, hclock⟩, h.getTimer_iff.2 ⟨ht, rfl⟩⟩

/-- What `top` is: a timer of the queue that none of it comes before. -/
theorem top_eq_some (h : m.Owned none) (htop : m.top clock = some t) :
    t ∈ m.allTimers ∧ t.clock = clock ∧ ∀ u ∈ m.allTimers, u.clock = clock → t.key ≤ u.key := by
  obtain ⟨ht, hclock⟩ := h.mem_pointed.1 (List.argmin_mem htop)
  exact ⟨ht, hclock, fun u hu huclock => List.le_of_mem_argmin (h.mem_pointed.2 ⟨hu, huclock⟩) htop⟩

theorem top_eq_none (h : m.Owned none) (htop : m.top clock = none) : ∀ t ∈ m.allTimers, t.clock ≠ clock := by
  have hnil : (m.timers clock).filterMap m.getTimer = [] := List.argmin_eq_none.1 htop
  intro t ht hclock
  have hmem := h.mem_pointed.2 ⟨ht, hclock⟩
  rw [hnil] at hmem
  cases hmem

/-- The queues together are the ids of the map. -/
theorem perm (h : m.Owned none) : (m.timers .steady ++ m.timers .system).Perm (m.allTimers.map Timer.id) := by
  have happart : (m.timers .steady ++ m.timers .system).Nodup := by
    refine List.nodup_append.2 ⟨h.apart _, h.apart _, ?_⟩
    rintro id hsteady _ hsystem rfl
    obtain ⟨-, t, ht, hid, hclock⟩ := (h.entries _ _).1 hsteady
    obtain ⟨-, u, hu, huid, huclock⟩ := (h.entries _ _).1 hsystem
    rw [h.eq_of_id ht hu (hid.trans huid.symm), huclock] at hclock
    cases hclock
  refine (List.perm_ext_iff_of_nodup happart h.nodup).2 fun id => ?_
  simp only [List.mem_append, h.entries, List.mem_map]
  constructor
  · rintro (⟨-, t, ht, hid, -⟩ | ⟨-, t, ht, hid, -⟩)
    · exact ⟨t, ht, hid⟩
    · exact ⟨t, ht, hid⟩
  · rintro ⟨t, ht, hid⟩
    cases hclock : t.clock with
    | steady => exact .inl ⟨by simp, t, ht, hid, hclock⟩
    | system => exact .inr ⟨by simp, t, ht, hid, hclock⟩

theorem pop (h : m.Owned none) (ht : t ∈ m.allTimers) : (m.pop t.clock t.id).Owned (some (t.clock, t.id)) where
  nodup   := h.nodup
  known   := h.known
  apart   := by
    intro clock
    by_cases hclock : clock = t.clock
    · subst hclock
      simpa [TimerManager.pop] using (h.apart t.clock).erase t.id
    · simpa [TimerManager.pop, hclock] using h.apart clock
  entries := by
    intro clock id
    by_cases hclock : clock = t.clock
    · subst hclock
      simp [TimerManager.pop, (h.apart t.clock).mem_erase_iff, h.entries, eq_comm]
    · simp [TimerManager.pop, hclock, Ne.symm hclock, h.entries]
  held    := by
    intro clock id hout
    obtain ⟨rfl, rfl⟩ := Prod.mk.inj (Option.some.inj hout)
    exact ⟨t, ht, rfl, rfl⟩

theorem push (h : m.Owned (some (clock, id))) : (m.push clock id).Owned none where
  nodup   := h.nodup
  known   := h.known
  apart   := by
    intro clock'
    by_cases hclock : clock' = clock
    · subst hclock
      have hnot : id ∉ m.timers clock' := fun hmem => ((h.entries clock' id).1 hmem).1 rfl
      simpa [TimerManager.push] using ⟨hnot, h.apart clock'⟩
    · simpa [TimerManager.push, hclock] using h.apart clock'
  entries := by
    intro clock' id'
    by_cases hclock : clock' = clock
    · subst hclock
      by_cases hid : id' = id
      · subst hid
        simpa [TimerManager.push] using h.held clock' id' rfl
      · simp [TimerManager.push, hid, Ne.symm hid, h.entries]
    · simp [TimerManager.push, hclock, Ne.symm hclock, h.entries]
  held    := by simp

theorem erase (h : m.Owned (some (clock, id))) : (m.erase id).Owned none where
  nodup   := h.nodup.sublist (List.filter_sublist.map _)
  known   := fun t ht => h.known t (mem_erase.1 ht).1
  apart   := h.apart
  entries := by
    intro clock' id'
    obtain ⟨t, ht, rfl, rfl⟩ := h.held clock id rfl
    simp only [erase_timers, h.entries, mem_erase, ne_eq, reduceCtorEq, not_false_eq_true, true_and, Option.some.injEq,
      Prod.mk.injEq]
    constructor
    · rintro ⟨hne, u, hu, rfl, rfl⟩
      refine ⟨u, ⟨hu, fun hid => hne ?_⟩, rfl, rfl⟩
      rw [h.eq_of_id hu ht hid]
      exact ⟨rfl, rfl⟩
    · rintro ⟨u, ⟨hu, hne⟩, rfl, rfl⟩
      exact ⟨fun heq => hne heq.2.symm, u, hu, rfl, rfl⟩
  held    := by simp

/-- Timers are changed where they lie. -/
theorem map (h : m.Owned out) {f : Timer → Timer} (hid : ∀ t, (f t).id = t.id) (hclock : ∀ t, (f t).clock = t.clock) :
    Owned { m with allTimers := m.allTimers.map f } out where
  nodup   := by simpa [List.map_map, Function.comp_def, hid] using h.nodup
  known   := by
    intro t ht
    obtain ⟨u, hu, rfl⟩ := List.mem_map.1 ht
    rw [hid]
    exact h.known u hu
  apart   := h.apart
  entries := by
    intro clock id
    rw [h.entries]
    refine and_congr_right fun _ => ⟨?_, ?_⟩
    · rintro ⟨t, ht, rfl, rfl⟩
      exact ⟨f t, List.mem_map_of_mem ht, hid t, hclock t⟩
    · rintro ⟨_, hmem, rfl, rfl⟩
      obtain ⟨t, ht, rfl⟩ := List.mem_map.1 hmem
      exact ⟨t, ht, (hid t).symm, (hclock t).symm⟩
  held    := by
    intro clock id hout
    obtain ⟨t, ht, rfl, rfl⟩ := h.held clock id hout
    exact ⟨f t, List.mem_map_of_mem ht, hid t, hclock t⟩

theorem modify (h : m.Owned out) {f : Timer → Timer} (hid : ∀ t, (f t).id = t.id) (hclock : ∀ t, (f t).clock = t.clock) :
    (m.modify id f).Owned out := by
  refine h.map (fun t => ?_) fun t => ?_
  · split
    · exact hid t
    · rfl
  · split
    · exact hclock t
    · rfl

/-- A registered timer is under an id that none has. -/
theorem registered_new (h : m.Owned out) (ht : t ∈ m.allTimers) : t.id ≠ m.generateTimerId + 1 := by
  have hknown := h.known t ht
  omega

end Owned

/-- A timer is registered, or the manager refuses. -/
theorem register_cases (h : m.Owned out) (clock : TimerClock) (now : ClockReading) (milliseconds : Int) (loop : Bool) :
    (m.shuttingDown = true ∧ m.registered clock now milliseconds loop = none ∧
      (m.register clock now milliseconds loop).2 = m) ∨
    (m.shuttingDown = false ∧ ∃ t, t = .make clock milliseconds (m.generateTimerId + 1) loop now ∧
      m.registered clock now milliseconds loop = some t ∧
      (m.register clock now milliseconds loop).2 =
        { m.push clock t.id with generateTimerId := t.id, allTimers := t :: m.allTimers }) := by
  cases hdown : m.shuttingDown with
  | true  =>
    have hnone : m.registered clock now milliseconds loop = none := by simp [registered, hdown]
    exact .inl ⟨rfl, hnone, by rw [register, hnone]⟩
  | false =>
    have hsome : m.registered clock now milliseconds loop =
        some (.make clock milliseconds (m.generateTimerId + 1) loop now) := by simp [registered, hdown]
    have hnew : m.getTimer (m.generateTimerId + 1) = none := by
      cases hget : m.getTimer (m.generateTimerId + 1) with
      | none   => rfl
      | some u =>
        obtain ⟨hu, hid⟩ := h.getTimer_iff.1 hget
        exact absurd hid (h.registered_new hu)
    refine .inr ⟨rfl, _, rfl, hsome, ?_⟩
    rw [register, hsome]
    exact emplace_of_new (t := .make clock milliseconds (m.generateTimerId + 1) loop now) hnew

theorem Owned.register (h : m.Owned out) (milliseconds : Int) (loop : Bool) :
    (m.register clock now milliseconds loop).2.Owned out := by
  rcases register_cases h clock now milliseconds loop with ⟨-, -, heq⟩ | ⟨-, t, ht, -, heq⟩
  · rwa [heq]
  have hid : t.id = m.generateTimerId + 1 := by rw [ht]; rfl
  have hclock : t.clock = clock := by rw [ht]; rfl
  rw [heq]
  constructor
  case nodup   =>
    refine List.nodup_cons.2 ⟨fun hmem => ?_, h.nodup⟩
    obtain ⟨u, hu, heq⟩ := List.mem_map.1 hmem
    exact h.registered_new hu (heq.trans hid)
  case known   =>
    intro u hu
    rcases List.mem_cons.1 hu with rfl | hu
    · exact Int.le_refl _
    · have hknown := h.known u hu
      show u.id ≤ t.id
      omega
  case apart   =>
    intro clock'
    by_cases heq : clock' = clock
    · subst heq
      have hnot : t.id ∉ m.timers clock' := by
        intro hmem
        obtain ⟨-, u, hu, huid, -⟩ := (h.entries clock' t.id).1 hmem
        exact h.registered_new hu (huid.trans hid)
      simpa [TimerManager.push] using ⟨hnot, h.apart clock'⟩
    · simpa [TimerManager.push, heq] using h.apart clock'
  case entries =>
    have hout : out ≠ some (clock, t.id) := by
      intro hout
      obtain ⟨u, hu, huid, -⟩ := h.held _ _ hout
      exact h.registered_new hu (huid.trans hid)
    intro clock' id'
    have hpush : id' ∈ (m.push clock t.id).timers clock' ↔ (clock' = clock ∧ id' = t.id) ∨ id' ∈ m.timers clock' := by
      by_cases heq : clock' = clock
      · subst heq
        simp [TimerManager.push]
      · simp [TimerManager.push, heq]
    show id' ∈ (m.push clock t.id).timers clock' ↔ _
    rw [hpush, h.entries]
    simp only [List.exists_mem_cons_iff, hclock]
    constructor
    · rintro (⟨rfl, rfl⟩ | ⟨hne, hmem⟩)
      · exact ⟨hout, .inl ⟨rfl, rfl⟩⟩
      · exact ⟨hne, .inr hmem⟩
    · rintro ⟨hne, ⟨rfl, rfl⟩ | hmem⟩
      · exact .inl ⟨rfl, rfl⟩
      · exact .inr ⟨hne, hmem⟩
  case held    =>
    intro clock' id' hout
    obtain ⟨u, hu, huid⟩ := h.held clock' id' hout
    exact ⟨u, List.mem_cons_of_mem _ hu, huid⟩

theorem Owned.call (h : m.Owned out) (c : TimerCall) : (m.call now c).Owned out := by
  cases c with
  | registerTimer milliseconds loop       => exact h.register milliseconds loop
  | registerSystemTimer milliseconds loop => exact h.register milliseconds loop
  | unRegisterTimer timerId               => exact h.modify (fun _ => rfl) (fun _ => rfl)

/-- What a call does: it is refused in shutdown mode, or it registers a timer, or it cancels one. -/
theorem call_cases (h : m.Owned out) (now : ClockReading) (c : TimerCall) :
    (m.shuttingDown = true ∧ (∃ r, c.registers = some r) ∧ m.call now c = m ∧ m.records now c = []) ∨
    (m.shuttingDown = false ∧ ∃ clock milliseconds loop t, c.registers = some (clock, milliseconds, loop) ∧
      t = .make clock milliseconds (m.generateTimerId + 1) loop now ∧
      m.call now c = { m.push clock t.id with generateTimerId := t.id, allTimers := t :: m.allTimers } ∧
      m.records now c = [.registered t now]) ∨
    (∃ timerId, c = .unRegisterTimer timerId ∧ m.call now c = m.modify timerId Timer.cancel ∧
      m.records now c = [.unregistered timerId]) := by
  cases c with
  | registerTimer milliseconds loop       =>
    rcases register_cases h .steady now milliseconds loop with ⟨hdown, hnone, heq⟩ | ⟨hup, t, ht, hsome, heq⟩
    · exact .inl ⟨hdown, ⟨_, rfl⟩, heq, by simp [records, hnone]⟩
    · exact .inr (.inl ⟨hup, .steady, milliseconds, loop, t, rfl, ht, heq, by simp [records, hsome]⟩)
  | registerSystemTimer milliseconds loop =>
    rcases register_cases h .system now milliseconds loop with ⟨hdown, hnone, heq⟩ | ⟨hup, t, ht, hsome, heq⟩
    · exact .inl ⟨hdown, ⟨_, rfl⟩, heq, by simp [records, hnone]⟩
    · exact .inr (.inl ⟨hup, .system, milliseconds, loop, t, rfl, ht, heq, by simp [records, hsome]⟩)
  | unRegisterTimer timerId               => exact .inr (.inr ⟨timerId, rfl, rfl, rfl⟩)

theorem call_shuttingDown (h : m.Owned out) (now : ClockReading) (c : TimerCall) :
    (m.call now c).shuttingDown = m.shuttingDown := by
  rcases call_cases h now c with ⟨-, -, heq, -⟩ | ⟨-, _, _, _, _, -, -, heq, -⟩ | ⟨_, -, heq, -⟩
  · rw [heq]
  · rw [heq]
    rfl
  · rw [heq]
    rfl

theorem Owned.enterShutdownMode (h : m.Owned out) (now : Int → ClockReading) : (m.enterShutdownMode now).Owned out := by
  have hmap := h.map (f := fun t => if !t.isExpired (now t.id) && t.active then t.cancel else t)
    (fun t => by split <;> rfl) (fun t => by split <;> rfl)
  exact ⟨hmap.nodup, hmap.known, hmap.apart, hmap.entries, hmap.held⟩

end TimerManager

namespace TimerSystem

open TimerManager (Owned)

variable {s : TimerSystem} {clock : TimerClock} {p : UpdatePass} {cs : List (ClockReading × TimerCall)} {t : Timer}

/-- What every call of a callback preserves. -/
theorem calls_inv (inv : TimerSystem → Prop) : ∀ (cs : List (ClockReading × TimerCall)) {s : TimerSystem},
    (∀ s, ∀ c ∈ cs, inv s → inv (s.call c.1 c.2)) → inv s → inv (s.calls cs)
  | [],      _, _,     hs => hs
  | c :: cs, s, hstep, hs =>
    calls_inv inv cs (fun s c' hc' => hstep s c' (List.mem_cons_of_mem _ hc')) (hstep s c List.mem_cons_self hs)

/-- What the calls of a callback do not touch. -/
theorem calls_eq (s : TimerSystem) (cs : List (ClockReading × TimerCall)) :
    s.calls cs = { s with manager := (s.calls cs).manager, history := (s.calls cs).history } :=
  calls_inv (fun s' => s' = { s with manager := s'.manager, history := s'.history }) cs
    (fun s' c _ hs' => by rw [hs']; rfl) rfl

theorem owned_calls {out : Option (TimerClock × Int)} (h : s.manager.Owned out) : (s.calls cs).manager.Owned out :=
  calls_inv (fun s => s.manager.Owned out) cs (fun _ c _ hs => hs.call c.2) h

/-- A pass of a loop: it ends, and no timer of its clock is expired; or it takes the timer that none of its clock comes
before, which was cancelled, or is fired. -/
theorem pass_cases (h : s.manager.Owned none) (clock : TimerClock) (p : UpdatePass) :
    (s.pass clock p = s.leave clock ∧ ∀ t ∈ s.manager.allTimers, t.clock = clock → t.isExpired p.now = false) ∨
    ∃ t ∈ s.manager.allTimers, t.clock = clock ∧ s.manager.top clock = some t ∧
      (∀ u ∈ s.manager.allTimers, u.clock = clock → t.key ≤ u.key) ∧
      ((t.active = false ∧ s.pass clock p = { s with manager := (s.manager.pop clock t.id).erase t.id }) ∨
       (t.active = true ∧ t.isExpired p.now = true ∧ s.pass clock p = ((s.fire clock t p).calls p.calls).finish clock t p)) := by
  unfold pass
  rw [h.not_dangles]
  cases htop : s.manager.top clock with
  | none   => exact .inl ⟨rfl, fun t ht hclock => absurd hclock (h.top_eq_none htop t ht)⟩
  | some t =>
    obtain ⟨ht, hclock, hmin⟩ := h.top_eq_some htop
    cases hactive : t.active with
    | false => exact .inr ⟨t, ht, hclock, rfl, hmin, .inl ⟨hactive, by simp [hactive]⟩⟩
    | true  =>
      cases hexpired : t.isExpired p.now with
      | true  => exact .inr ⟨t, ht, hclock, rfl, hmin, .inr ⟨hactive, hexpired, by simp [hactive, hexpired]⟩⟩
      | false =>
        refine .inl ⟨by simp [hactive, hexpired], fun u hu huclock => ?_⟩
        by_contra hu'
        have hfirst := Timer.isExpired_of_key_le (hclock.trans huclock.symm) (hmin u hu huclock)
          (Bool.eq_true_of_not_eq_false hu')
        rw [hexpired] at hfirst
        cases hfirst

@[simp] theorem leave_manager : (s.leave clock).manager = s.manager := by
  cases clock <;> rfl

theorem owned_pass (h : s.manager.Owned none) : (s.pass clock p).manager.Owned none := by
  rcases pass_cases h clock p with ⟨heq, -⟩ | ⟨t, ht, rfl, -, -, ⟨-, heq⟩ | ⟨-, -, heq⟩⟩
  · rwa [heq, leave_manager]
  · rw [heq]
    exact (h.pop ht).erase
  · have hcalled : ((s.fire t.clock t p).calls p.calls).manager.Owned (some (t.clock, t.id)) :=
      owned_calls (h.pop ht)
    have hreset : (((s.fire t.clock t p).calls p.calls).manager.modify t.id (Timer.reset p.reset)).Owned
        (some (t.clock, t.id)) := hcalled.modify (fun _ => rfl) fun _ => rfl
    rw [heq, finish]
    split
    · exact hreset.push
    · exact hcalled.erase

theorem owned_step (h : s.manager.Owned none) (e : TimerEvent) : (s.step e).manager.Owned none := by
  unfold step
  split
  · exact h.call _
  · exact h.enterShutdownMode _
  · exact h
  · exact owned_pass h
  · exact h

theorem fault_pass (h : s.manager.Owned none) : (s.pass clock p).fault = s.fault := by
  rcases pass_cases h clock p with ⟨heq, -⟩ | ⟨t, -, -, -, -, ⟨-, heq⟩ | ⟨-, -, heq⟩⟩
  · rw [heq]
    cases clock <;> rfl
  · rw [heq]
  · rw [heq, calls_eq, finish]
    split <;> rfl

theorem fault_step (h : s.manager.Owned none) (e : TimerEvent) : (s.step e).fault = s.fault := by
  unfold step
  split
  · rfl
  · rfl
  · rfl
  · exact fault_pass h
  · rfl

/-- **The queues point to the timers of the map**, each once, and `Update` meets no pointer to a timer that is gone. -/
theorem owned_run (es : List TimerEvent) :
    (es.foldl step {}).manager.Owned none ∧ (es.foldl step {}).fault = false :=
  Run.foldl_of_step (fun s : TimerSystem => s.manager.Owned none ∧ s.fault = false)
    (fun _ e hs => ⟨owned_step hs.1 e, (fault_step hs.1 e).trans hs.2⟩) es ⟨.init, rfl⟩

/-! ## What a pass does to the timers -/

/-- What calls leave of a timer. -/
def cancelled (cs : List TimerCall) (t : Timer) : Timer := if .unRegisterTimer t.id ∈ cs then t.cancel else t

@[simp] theorem cancelled_id {cs : List TimerCall} : (cancelled cs t).id = t.id := by
  unfold cancelled
  split <;> rfl

@[simp] theorem cancelled_clock {cs : List TimerCall} : (cancelled cs t).clock = t.clock := by
  unfold cancelled
  split <;> rfl

@[simp] theorem cancelled_duration {cs : List TimerCall} : (cancelled cs t).duration = t.duration := by
  unfold cancelled
  split <;> rfl

theorem cancelled_nil : cancelled [] = id := by
  funext t
  simp [cancelled]

theorem cancelled_cons_registers {c : TimerCall} {r : TimerClock × Int × Bool} (h : c.registers = some r)
    (cs : List TimerCall) : cancelled (c :: cs) = cancelled cs := by
  funext t
  have hne : TimerCall.unRegisterTimer t.id ≠ c := by
    rintro rfl
    cases h
  simp [cancelled, hne]

theorem cancelled_cons_unRegister (timerId : Int) (cs : List TimerCall) :
    cancelled (.unRegisterTimer timerId :: cs) = cancelled cs ∘ fun t => if t.id = timerId then t.cancel else t := by
  funext t
  by_cases hid : t.id = timerId
  · simp only [cancelled, hid, List.mem_cons, true_or, if_true, Function.comp_apply, Timer.cancel_id]
    split <;> rfl
  · simp [cancelled, hid]

/-- A timer that a callback has registered, cancelled meanwhile or not. -/
def NewTimer (m : TimerManager) (cs : List (ClockReading × TimerCall)) (t : Timer) : Prop :=
  m.generateTimerId < t.id ∧ ∃ c ∈ cs, ∃ r, c.2.registers = some r ∧
    t = { Timer.make r.1 r.2.1 t.id r.2.2 c.1 with active := t.active }

/-- **What the calls of a callback do**: they cancel timers and register new ones. -/
theorem calls_allTimers {out : Option (TimerClock × Int)} : ∀ (cs : List (ClockReading × TimerCall)) {s : TimerSystem},
    s.manager.Owned out → s.manager.generateTimerId ≤ (s.calls cs).manager.generateTimerId ∧
      ∃ new, (s.calls cs).manager.allTimers = new ++ s.manager.allTimers.map (cancelled (cs.map Prod.snd)) ∧
        ∀ t ∈ new, NewTimer s.manager cs t
  | [],      s, _ => ⟨Int.le_refl _, [], by simp [cancelled_nil, calls], by simp⟩
  | c :: cs, s, h => by
    have howned : (s.call c.1 c.2).manager.Owned out := h.call c.2
    obtain ⟨hgrown, new, hall, hnew⟩ := calls_allTimers cs howned
    have hlater : s.manager.generateTimerId ≤ (s.call c.1 c.2).manager.generateTimerId →
        ∀ t ∈ new, NewTimer s.manager (c :: cs) t := by
      intro hle t ht
      obtain ⟨hid, c', hc', hmake⟩ := hnew t ht
      exact ⟨Int.lt_of_le_of_lt hle hid, c', List.mem_cons_of_mem _ hc', hmake⟩
    change s.manager.generateTimerId ≤ ((s.call c.1 c.2).calls cs).manager.generateTimerId ∧
      ∃ new, ((s.call c.1 c.2).calls cs).manager.allTimers = _ ∧ _
    rcases TimerManager.call_cases h c.1 c.2 with
      ⟨-, ⟨r, hr⟩, heq, -⟩ | ⟨-, clock, milliseconds, loop, t, hr, ht, heq, -⟩ | ⟨timerId, hc, heq, -⟩
    · have hsame : (s.call c.1 c.2).manager = s.manager := heq
      rw [hsame] at hgrown hall hlater
      exact ⟨hgrown, new, by rw [hall, List.map_cons, cancelled_cons_registers hr], hlater (Int.le_refl _)⟩
    · have hsame : (s.call c.1 c.2).manager =
          { s.manager.push clock t.id with generateTimerId := t.id, allTimers := t :: s.manager.allTimers } := heq
      have hid : t.id = s.manager.generateTimerId + 1 := by rw [ht]; rfl
      rw [hsame] at hgrown hall hlater
      have hle : s.manager.generateTimerId ≤ t.id := by omega
      refine ⟨Int.le_trans hle hgrown, new ++ [cancelled (cs.map Prod.snd) t], ?_, ?_⟩
      · rw [hall, List.map_cons, List.map_cons, cancelled_cons_registers hr, List.append_assoc]
        rfl
      · intro u hu
        rcases List.mem_append.1 hu with hu | hu
        · exact hlater hle u hu
        · rw [List.mem_singleton.1 hu]
          refine ⟨by rw [cancelled_id]; omega, c, List.mem_cons_self, _, hr, ?_⟩
          rw [cancelled_id, hid, cancelled]
          split
          · rw [ht]
            rfl
          · rw [ht]
    · have hsame : (s.call c.1 c.2).manager = s.manager.modify timerId Timer.cancel := heq
      rw [hsame] at hgrown hall hlater
      refine ⟨hgrown, new, ?_, hlater (Int.le_refl _)⟩
      rw [hall, List.map_cons, hc, cancelled_cons_unRegister, ← List.map_map]
      rfl

/-- What a firing leaves of the timers. -/
theorem mem_finish (h : s.manager.Owned none) (ht : t ∈ s.manager.allTimers) :
    (∀ w ∈ (((s.fire t.clock t p).calls p.calls).finish t.clock t p).manager.allTimers,
      NewTimer s.manager p.calls w ∨
      (∃ u ∈ s.manager.allTimers, u.id ≠ t.id ∧ w = cancelled (p.calls.map Prod.snd) u) ∨
      (t.loop = true ∧ w = (cancelled (p.calls.map Prod.snd) t).reset p.reset)) ∧
    (∀ u ∈ s.manager.allTimers, u.id ≠ t.id →
      cancelled (p.calls.map Prod.snd) u ∈ (((s.fire t.clock t p).calls p.calls).finish t.clock t p).manager.allTimers) ∧
    (t.loop = true → (cancelled (p.calls.map Prod.snd) t).reset p.reset ∈
      (((s.fire t.clock t p).calls p.calls).finish t.clock t p).manager.allTimers) ∧
    s.manager.generateTimerId ≤ (((s.fire t.clock t p).calls p.calls).finish t.clock t p).manager.generateTimerId := by
  have howned : (s.fire t.clock t p).manager.Owned (some (t.clock, t.id)) := h.pop ht
  obtain ⟨hgrown, new, hall, hnew⟩ := calls_allTimers p.calls howned
  have hnewId : ∀ w ∈ new, w.id ≠ t.id := by
    intro w hw hid
    have hlt : s.manager.generateTimerId < w.id := (hnew w hw).1
    have hle := h.known t ht
    omega
  have hmem : ∀ w, w ∈ ((s.fire t.clock t p).calls p.calls).manager.allTimers ↔
      w ∈ new ∨ ∃ u ∈ s.manager.allTimers, cancelled (p.calls.map Prod.snd) u = w := by
    intro w
    rw [hall, List.mem_append, List.mem_map]
    rfl
  have hsame : ∀ u ∈ s.manager.allTimers, u.id = t.id → u = t := fun u hu hid => h.eq_of_id hu ht hid
  rw [finish]
  cases hloop : t.loop with
  | true  =>
    refine ⟨?_, ?_, fun _ => ?_, hgrown⟩
    · intro w hw
      obtain ⟨v, hv, rfl⟩ := TimerManager.mem_modify.1 hw
      rcases (hmem v).1 hv with hv | ⟨u, hu, rfl⟩
      · rw [if_neg (hnewId v hv)]
        exact .inl (hnew v hv)
      · by_cases hid : u.id = t.id
        · rw [cancelled_id, if_pos hid, hsame u hu hid]
          exact .inr (.inr ⟨rfl, rfl⟩)
        · rw [cancelled_id, if_neg hid]
          exact .inr (.inl ⟨u, hu, hid, rfl⟩)
    · intro u hu hid
      refine TimerManager.mem_modify.2 ⟨cancelled (p.calls.map Prod.snd) u, (hmem _).2 (.inr ⟨u, hu, rfl⟩), ?_⟩
      rw [cancelled_id, if_neg hid]
    · refine TimerManager.mem_modify.2 ⟨cancelled (p.calls.map Prod.snd) t, (hmem _).2 (.inr ⟨t, ht, rfl⟩), ?_⟩
      rw [cancelled_id, if_pos rfl]
  | false =>
    refine ⟨?_, ?_, fun hloops => (nomatch hloops), hgrown⟩
    · intro w hw
      obtain ⟨hw, hid⟩ := TimerManager.mem_erase.1 hw
      rcases (hmem w).1 hw with hw | ⟨u, hu, rfl⟩
      · exact .inl (hnew w hw)
      · rw [cancelled_id] at hid
        exact .inr (.inl ⟨u, hu, hid, rfl⟩)
    · intro u hu hid
      exact TimerManager.mem_erase.2 ⟨(hmem _).2 (.inr ⟨u, hu, rfl⟩), by rwa [cancelled_id]⟩

/-- What a firing leaves of an `Update`. -/
theorem finish_frame (s : TimerSystem) (clock : TimerClock) (t : Timer) (p : UpdatePass) :
    (((s.fire clock t p).calls p.calls).finish clock t p).updating = s.updating ∧
    (((s.fire clock t p).calls p.calls).finish clock t p).began = s.began ∧
    (((s.fire clock t p).calls p.calls).finish clock t p).now = s.now ∧
    (((s.fire clock t p).calls p.calls).finish clock t p).fired = s.fired ++ [⟨t, p.calls.map Prod.snd⟩] := by
  rw [calls_eq, finish]
  split <;> exact ⟨rfl, rfl, rfl, rfl⟩

end TimerSystem

end Gb
