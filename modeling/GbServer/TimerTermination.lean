import GbServer.Lib.Tally
import GbServer.TimerUpdates
/-!
# TimerTermination — when a frame ends

A timer that loops is put back while `Update` is still in its loop.  While the clocks stand still and nothing is registered,
an `Update` comes to its end whatever the callbacks do exactly if no timer that it would fire is expired again when it is
armed (`update_terminates_iff`).  That is one with a negative time, or with none on the system clock, which takes the end
itself for expired (`spins_iff`).
-/
namespace Gb

open Tally (tally)
open TimerManager (Owned)

/-- A timer that an `Update` fires, and fires again and again. -/
def Timer.spins (t : Timer) (now : ClockReading) : Bool :=
  t.active && t.loop && t.isExpired now && (t.reset now).isExpired now

/-- The clocks stand still, and the callback registers nothing. -/
structure UpdatePass.Still (p : UpdatePass) (now : ClockReading) : Prop where
  expired : p.now = now
  reset   : p.reset = now
  calls   : ∀ c ∈ p.calls, c.2.registers = none

namespace TimerSystem

/-- An `Update` that begins now ends, whatever the callbacks unregister. -/
def Terminates (s : TimerSystem) (now : ClockReading) : Prop :=
  ∀ ps : Nat → UpdatePass, (∀ n, (ps n).Still now) →
    ∃ n, (Run.after step (s.begin now) (fun k => .pass (ps k)) n).updating = none

/-- Where 64 bits hold the deadline. -/
theorem spins_iff {t : Timer} {now : ClockReading} (hlow : -2 ^ 63 ≤ now.on t.clock + nanoseconds t.duration)
    (hhigh : now.on t.clock + nanoseconds t.duration < 2 ^ 63) :
    t.spins now = true ↔ t.active = true ∧ t.loop = true ∧ t.isExpired now = true ∧
      (t.duration < 0 ∨ (t.clock = .system ∧ t.duration = 0)) := by
  have htime := timePoint_eq hlow hhigh
  have hagain : (t.reset now).isExpired now = true ↔ t.duration < 0 ∨ (t.clock = .system ∧ t.duration = 0) := by
    unfold Timer.isExpired
    rw [Timer.reset_clock, Timer.reset, htime]
    unfold nanoseconds
    cases t.clock
    · simp [ClockReading.on]
      omega
    · simp [ClockReading.on]
      omega
  simp [Timer.spins, hagain, and_assoc]

variable {s : TimerSystem} {clock : TimerClock} {p : UpdatePass} {now : ClockReading} {t u : Timer}

theorem isExpired_reset_cancelled {cs : List TimerCall} {reset : ClockReading} :
    ((cancelled cs t).reset reset).isExpired now = (t.reset reset).isExpired now := by
  unfold cancelled
  split <;> rfl

theorem spins_cancelled {cs : List TimerCall} (h : t.spins now = false) : (cancelled cs t).spins now = false := by
  unfold cancelled
  split
  · simp [Timer.spins, Timer.cancel]
  · exact h

/-- Nothing is registered, so nothing is new. -/
theorem not_newTimer (hp : p.Still now) : ¬NewTimer s.manager p.calls t := by
  rintro ⟨-, c, hc, r, hr, -⟩
  rw [hp.calls c hc] at hr
  cases hr

/-- The timers after a firing in which nothing is registered. -/
theorem allTimers_finish (h : s.manager.Owned none) (ht : t ∈ s.manager.allTimers) (hp : p.Still now) :
    (((s.fire t.clock t p).calls p.calls).finish t.clock t p).manager.allTimers =
      if t.loop then (s.manager.allTimers.map (cancelled (p.calls.map Prod.snd))).map
        fun u => if u.id = t.id then u.reset p.reset else u
      else (s.manager.allTimers.map (cancelled (p.calls.map Prod.snd))).filter fun u => u.id ≠ t.id := by
  obtain ⟨-, new, hall, hnew⟩ := calls_allTimers (s := s.fire t.clock t p) p.calls (h.pop ht)
  have hnil : new = [] := List.eq_nil_iff_forall_not_mem.2 fun u hu => not_newTimer hp (hnew u hu)
  rw [hnil, List.nil_append] at hall
  rw [finish]
  split
  · exact congrArg (List.map _) hall
  · exact congrArg (List.filter _) hall

/-! ## A pass brings the end nearer -/

/-- What is to be done with a timer: it is let go, and before that fired. -/
def weight (now : ClockReading) (t : Timer) : Nat := if t.isExpired now then 2 else 1

def remaining : Option TimerClock → Nat
  | some .steady => 2
  | some .system => 1
  | none         => 0

/-- What is left to do. -/
def left (now : ClockReading) (s : TimerSystem) : Nat := tally (weight now) s.manager.allTimers + remaining s.updating

theorem weight_pos (now : ClockReading) (t : Timer) : 0 < weight now t := by
  unfold weight
  split <;> decide

theorem left_leave (hupdating : s.updating = some clock) : left now (s.leave clock) < left now s := by
  unfold left
  rw [leave_manager, hupdating]
  cases clock
  · exact Nat.lt_succ_self _
  · exact Nat.lt_succ_self _

/-- Timers that weigh the same, without one of them. -/
theorem tally_filter_lt (now : ClockReading) {f : Timer → Timer} (hid : ∀ u, (f u).id = u.id) (hweight : ∀ u, weight now (f u) = weight now u)
    {l : List Timer} (ht : t ∈ l) :
    tally (weight now) ((l.map f).filter fun u => u.id ≠ t.id) < tally (weight now) l := by
  rw [Tally.tally_filter]
  show tally _ (l.map f) < _
  rw [tally, List.map_map, ← tally]
  refine Tally.tally_lt (fun u _ => ?_) ht ?_
  · simp only [Function.comp_apply, hweight]
    split
    · exact Nat.le_refl _
    · exact Nat.zero_le _
  · simpa [hid] using weight_pos now t

theorem left_pass (h : s.manager.Owned none) (hupdating : s.updating = some clock) (hp : p.Still now)
    (hnone : ∀ t ∈ s.manager.allTimers, t.spins now = false) : left now (s.pass clock p) < left now s := by
  rcases pass_cases h clock p with ⟨heq, -⟩ | ⟨t, ht, rfl, -, -, ⟨-, heq⟩ | ⟨hactive, hexpired, heq⟩⟩
  · rw [heq]
    exact left_leave hupdating
  · rw [heq]
    have hlt := tally_filter_lt now (f := id) (fun _ => rfl) (fun _ => rfl) ht
    rw [List.map_id] at hlt
    exact Nat.add_lt_add_right hlt _
  · have hall := allTimers_finish h ht hp
    rw [hp.expired] at hexpired
    rw [heq, left, left, (finish_frame s t.clock t p).1, hall]
    refine Nat.add_lt_add_right ?_ _
    have hweight : ∀ u, weight now (cancelled (p.calls.map Prod.snd) u) = weight now u := by
      intro u
      unfold weight cancelled
      split <;> rfl
    split
    · rename_i hloop
      have hagain : (t.reset now).isExpired now = false := by
        simpa [Timer.spins, hactive, hloop, hexpired] using hnone t ht
      have hlater : ∀ u ∈ s.manager.allTimers, u.id = t.id →
          ((cancelled (p.calls.map Prod.snd) u).reset p.reset).isExpired now = false := by
        intro u hu hid
        rw [isExpired_reset_cancelled, h.eq_of_id hu ht hid, hp.reset, hagain]
      rw [tally, List.map_map, List.map_map, ← tally]
      refine Tally.tally_lt (fun u hu => ?_) ht ?_
      · simp only [Function.comp_apply, cancelled_id]
        split
        · rename_i hid
          rw [weight, hlater u hu hid]
          exact weight_pos now u
        · exact Nat.le_of_eq (hweight u)
      · simp only [Function.comp_apply, cancelled_id, if_true]
        rw [weight, hlater t ht rfl, weight, hexpired]
        decide
    · exact tally_filter_lt now (fun _ => cancelled_id) hweight ht

theorem not_spins_pass (h : s.manager.Owned none) (hp : p.Still now) (hnone : ∀ t ∈ s.manager.allTimers, t.spins now = false) :
    ∀ t ∈ (s.pass clock p).manager.allTimers, t.spins now = false := by
  rcases pass_cases h clock p with ⟨heq, -⟩ | ⟨t, ht, rfl, -, -, ⟨-, heq⟩ | ⟨hactive, hexpired, heq⟩⟩
  · rw [heq, leave_manager]
    exact hnone
  · rw [heq]
    exact fun u hu => hnone u (TimerManager.mem_erase.1 hu).1
  · obtain ⟨hof, -, -, -⟩ := mem_finish (p := p) h ht
    rw [heq]
    intro w hw
    rcases hof w hw with hnew | ⟨u, hu, -, rfl⟩ | ⟨hloop, rfl⟩
    · exact absurd hnew (not_newTimer hp)
    · exact spins_cancelled (hnone u hu)
    · rw [hp.expired] at hexpired
      have hagain : (t.reset now).isExpired now = false := by
        simpa [Timer.spins, hactive, hloop, hexpired] using hnone t ht
      rw [Timer.spins, isExpired_reset_cancelled, hp.reset, hagain, Bool.and_false, Bool.false_and]

/-! ## A timer that spins -/

/-- A timer that spins is before `Update`. -/
def Spinning (now : ClockReading) (s : TimerSystem) : Prop :=
  ∃ t ∈ s.manager.allTimers, t.spins now = true ∧ (s.updating = some .steady ∨ (s.updating = some .system ∧ t.clock = .system))

theorem spinning_pass (h : s.manager.Owned none) (hupdating : s.updating = some clock) (hs : s.Spinning now) :
    (s.pass clock ⟨now, [], now⟩).Spinning now := by
  obtain ⟨t, ht, hspins, hbefore⟩ := hs
  have hspins' := hspins
  simp only [Timer.spins, Bool.and_eq_true] at hspins'
  obtain ⟨⟨⟨hactive, hloop⟩, hexpired⟩, hagain⟩ := hspins'
  rcases pass_cases h clock ⟨now, [], now⟩ with ⟨heq, hnone⟩ | ⟨u, hu, rfl, -, -, ⟨hinactive, heq⟩ | ⟨-, -, heq⟩⟩
  · have hother : t.clock ≠ clock := by
      intro hclock
      rw [hnone t ht hclock] at hexpired
      cases hexpired
    rw [heq]
    cases clock with
    | steady =>
      refine ⟨t, ht, hspins, .inr ⟨rfl, ?_⟩⟩
      cases hclock : t.clock with
      | steady => exact absurd hclock hother
      | system => rfl
    | system =>
      rcases hbefore with hsteady | ⟨-, hclock⟩
      · rw [hupdating] at hsteady
        cases hsteady
      · exact absurd hclock hother
  · rw [heq]
    refine ⟨t, TimerManager.mem_erase.2 ⟨ht, fun hid => ?_⟩, hspins, hbefore⟩
    rw [h.eq_of_id ht hu hid, hinactive] at hactive
    cases hactive
  · obtain ⟨-, hto, hreset, -⟩ := mem_finish (p := ⟨now, [], now⟩) h hu
    have hframe := (finish_frame s u.clock u ⟨now, [], now⟩).1
    simp only [List.map_nil, cancelled_nil, id_eq] at hto hreset
    rw [heq, Spinning, hframe]
    by_cases hid : t.id = u.id
    · obtain rfl := h.eq_of_id ht hu hid
      refine ⟨t.reset now, hreset hloop, ?_, hbefore⟩
      have htwice : (t.reset now).reset now = t.reset now := rfl
      rw [Timer.spins, htwice, hagain]
      show (t.active && t.loop && true && true) = true
      rw [hactive, hloop]
      rfl
    · exact ⟨t, hto t ht hid, hspins, hbefore⟩

/-- **An `Update` ends**, whatever the callbacks unregister, if and only if no timer spins. -/
theorem terminates_iff (h : s.manager.Owned none) :
    s.Terminates now ↔ ∀ t ∈ s.manager.allTimers, t.spins now = false := by
  constructor
  · intro hends t ht
    by_contra hspins
    have hstill : ∀ _ : Nat, (⟨now, [], now⟩ : UpdatePass).Still now := fun _ => ⟨rfl, rfl, by simp⟩
    obtain ⟨n, hn⟩ := hends (fun _ => ⟨now, [], now⟩) hstill
    have hstep : ∀ (s : TimerSystem) (_ : Nat), s.manager.Owned none ∧ s.Spinning now →
        (s.step (.pass ⟨now, [], now⟩)).manager.Owned none ∧ (s.step (.pass ⟨now, [], now⟩)).Spinning now := by
      rintro s - ⟨howned, u, hu, huspins, hbefore⟩
      obtain ⟨clock, hupdating⟩ : ∃ clock, s.updating = some clock := by
        rcases hbefore with hsteady | ⟨hsystem, -⟩
        · exact ⟨_, hsteady⟩
        · exact ⟨_, hsystem⟩
      have hpass : s.step (.pass ⟨now, [], now⟩) = s.pass clock ⟨now, [], now⟩ := by simp [step, hupdating]
      rw [hpass]
      exact ⟨owned_pass howned, spinning_pass howned hupdating ⟨u, hu, huspins, hbefore⟩⟩
    have hbegin : (s.begin now).manager.Owned none ∧ (s.begin now).Spinning now :=
      ⟨h, t, ht, Bool.eq_true_of_not_eq_false hspins, .inl rfl⟩
    obtain ⟨-, u, -, -, hsteady | ⟨hsystem, -⟩⟩ :=
      Run.after_inv (fun s : TimerSystem => s.manager.Owned none ∧ s.Spinning now) hstep hbegin n
    · rw [hn] at hsteady
      cases hsteady
    · rw [hn] at hsystem
      cases hsystem
  · intro hnone ps hstill
    refine Run.exists_after (fun s : TimerSystem => s.manager.Owned none ∧ ∀ t ∈ s.manager.allTimers, t.spins now = false)
      (fun s => s.updating = none) (left now) (fun k => TimerEvent.pass (ps k)) ?_ ⟨h, hnone⟩
    rintro n ⟨howned, hnone⟩ hrunning
    rw [Run.after]
    generalize Run.after step (s.begin now) (fun k => TimerEvent.pass (ps k)) n = s at *
    cases hupdating : s.updating with
    | none       => exact absurd hupdating hrunning
    | some clock =>
      have hpass : s.step (.pass (ps n)) = s.pass clock (ps n) := by simp [step, hupdating]
      rw [hpass]
      exact ⟨⟨owned_pass howned, not_spins_pass howned (hstill n) hnone⟩, left_pass howned hupdating (hstill n) hnone⟩

/-- **For every set of timers that a run leaves**, an `Update` ends if and only if none of them spins. -/
theorem update_terminates_iff (es : List TimerEvent) (now : ClockReading) :
    (es.foldl step {}).Terminates now ↔ ∀ t ∈ (es.foldl step {}).manager.allTimers, t.spins now = false :=
  terminates_iff (owned_run es).1

/-- A timer on the system clock that loops with no time. -/
theorem not_update_terminates : ¬∀ (es : List TimerEvent) (now : ClockReading), (es.foldl step {}).Terminates now := by
  intro h
  have hnone := (terminates_iff (owned_run [.call ⟨0, 0⟩ (.registerSystemTimer 0 true)]).1).1
    (h [.call ⟨0, 0⟩ (.registerSystemTimer 0 true)] ⟨0, 0⟩)
  exact absurd (hnone ⟨.system, true, 1, true, 0, 0⟩ (by decide)) (by decide)

end TimerSystem

end Gb
