import GbServer.TimerHistory
/-!
# TimerDeadlines — that no timer is early

`timer.cpp` adds the time of a timer to what its clock shows, when the timer is made and when it is armed again.  A sum that
64 bits hold is that deadline, one that is greater lies in the past, and its timer is fired at once (`timePoint_ge_iff`).  As
long as nothing is armed with such a deadline, the firings of a timer are at least its time apart (`neverEarly_run`).
-/
namespace Gb

open Run (Along Always)
open TimerManager (Owned)

/-- No firing of a timer is earlier than its time for each firing up to it, from when the timer was registered. -/
def NeverEarly (history : List TimerEntry) : Prop :=
  ∀ before t now after, history = before ++ .fired t now :: after →
    ∀ u start, .registered u start ∈ history → u.id = t.id →
      start.on u.clock + (firings t.id before + 1) * nanoseconds u.duration ≤ now.on u.clock

/-- 64 bits hold the deadline, from above. -/
def fits (clock : TimerClock) (milliseconds : Int) (now : ClockReading) : Bool :=
  decide (now.on clock + nanoseconds milliseconds < 2 ^ 63)

/-- A sum of 64 bits is not less than the sum exactly if that is below what they hold. -/
theorem timePoint_ge_iff {now milliseconds : Int} :
    now + nanoseconds milliseconds ≤ timePoint now milliseconds ↔ now + nanoseconds milliseconds < 2 ^ 63 := by
  unfold timePoint wrapInt64
  rw [Int.add_bmod_bmod, Int.bmod_eq_emod]
  split <;> omega

namespace TimerSystem

variable {s : TimerSystem} {clock : TimerClock} {p : UpdatePass} {t : Timer}

/-- No clock is set back between a firing and what arms the timer again. -/
def RunsOn (s : TimerSystem) : TimerEvent → Prop
  | .pass p => ∀ clock ∈ s.updating, p.now.on clock ≤ p.reset.on clock
  | _       => True

/-- 64 bits hold the deadline of a timer that is registered. -/
def CallFits (m : TimerManager) (now : ClockReading) (c : TimerCall) : Prop :=
  m.shuttingDown = false → ∀ r ∈ c.registers, fits r.1 r.2.1 now = true

/-- 64 bits hold the deadlines of the timers that are armed. -/
def Fits (s : TimerSystem) : TimerEvent → Prop
  | .call now c => CallFits s.manager now c
  | .pass p     => ∀ clock ∈ s.updating, ∀ t ∈ s.manager.top clock, (t.active && t.isExpired p.now) = true →
    (t.loop = true → fits clock t.duration p.reset = true) ∧ ∀ c ∈ p.calls, CallFits s.manager c.1 c.2
  | _           => True

instance (m : TimerManager) (now : ClockReading) (c : TimerCall) : Decidable (CallFits m now c) :=
  inferInstanceAs (Decidable (_ → ∀ r ∈ _, _))

instance (s : TimerSystem) : ∀ e, Decidable (s.RunsOn e)
  | .pass _              => inferInstanceAs (Decidable (∀ clock ∈ _, _))
  | .call _ _            => isTrue trivial
  | .enterShutdownMode _ => isTrue trivial
  | .update _            => isTrue trivial

instance (s : TimerSystem) : ∀ e, Decidable (s.Fits e)
  | .call _ _            => inferInstanceAs (Decidable (CallFits _ _ _))
  | .pass _              => inferInstanceAs (Decidable (∀ clock ∈ _, ∀ t ∈ _, _ → (_ → _) ∧ ∀ c ∈ _, _))
  | .enterShutdownMode _ => isTrue trivial
  | .update _            => isTrue trivial

/-! ## The history -/

theorem neverEarly_concat {history : List TimerEntry} {r : TimerEntry} (h : NeverEarly history)
    (hfired : ∀ t now, r = .fired t now → ∀ u start, .registered u start ∈ history → u.id = t.id →
      start.on u.clock + (firings t.id history + 1) * nanoseconds u.duration ≤ now.on u.clock)
    (hregistered : ∀ u start, r = .registered u start → firings u.id history = 0) : NeverEarly (history ++ [r]) := by
  intro before t now after hsplit u start hu hid
  rcases split_concat hsplit with ⟨-, rfl, rfl⟩ | ⟨after', -, hhistory⟩
  · exact hfired t now rfl u start (by simpa using hu) hid
  · rcases List.mem_append.1 hu with hu | hu
    · exact h before t now after' hhistory u start hu hid
    · have hzero := hregistered u start (List.mem_singleton.1 hu).symm
      rw [firings, List.countP_eq_zero] at hzero
      have hmem : .fired t now ∈ history := by
        rw [hhistory]
        exact List.mem_append_right before List.mem_cons_self
      exact absurd (by simp [TimerEntry.fires, hid]) (hzero _ hmem)

/-- When the timers end; `out` is the timer whose callback is running, and when it was fired. -/
structure Armed (out : Option (Int × ClockReading)) (m : TimerManager) (history : List TimerEntry) : Prop where
  early : NeverEarly history
  same  : ∀ t ∈ m.allTimers, ∀ u start, .registered u start ∈ history → u.id = t.id →
    u.clock = t.clock ∧ u.duration = t.duration
  ends  : ∀ t ∈ m.allTimers, (∀ now, out ≠ some (t.id, now)) → ∀ u start, .registered u start ∈ history → u.id = t.id →
    start.on u.clock + (firings u.id history + 1) * nanoseconds u.duration ≤ t.endTimePoint
  fired : ∀ id now, out = some (id, now) → id ≤ m.generateTimerId ∧ ∀ u start, .registered u start ∈ history → u.id = id →
    start.on u.clock + firings u.id history * nanoseconds u.duration ≤ now.on u.clock

namespace Armed

variable {out : Option (Int × ClockReading)} {m : TimerManager} {history : List TimerEntry} {now : ClockReading}

theorem init : Armed none {} [] where
  early := by simp [NeverEarly]
  same  := by simp
  ends  := by simp
  fired := by simp

theorem registered (h : Armed out m history) {o : Option Int} (hl : Logged o m history)
    (hknown : ∀ u ∈ m.allTimers, u.id ≤ m.generateTimerId) {milliseconds : Int} {loop : Bool}
    (ht : t = .make clock milliseconds (m.generateTimerId + 1) loop now) (hfits : fits clock milliseconds now = true) :
    Armed out { m.push clock t.id with generateTimerId := t.id, allTimers := t :: m.allTimers }
      (history ++ [.registered t now]) := by
  have hid : t.id = m.generateTimerId + 1 := by
    rw [ht]
    rfl
  have hsame : ∀ timerId, firings timerId (history ++ [.registered t now]) = firings timerId history := by
    intro timerId
    rw [firings_concat]
    rfl
  have hold : ∀ u start, .registered u start ∈ history → u.id ≤ m.generateTimerId :=
    fun u start hu => hl.known _ hu u.id (.inl (by simp [TimerEntry.registers]))
  have hzero : firings t.id history = 0 := hl.firings_eq_zero (by omega)
  constructor
  case early =>
    refine neverEarly_concat h.early (fun _ _ hr => by cases hr) fun u start hr => ?_
    obtain ⟨rfl, -⟩ := TimerEntry.registered.inj hr
    exact hzero
  case same  =>
    intro w hw u start hu huid
    rcases List.mem_append.1 hu with hu | hu
    · have hle := hold u start hu
      rcases List.mem_cons.1 hw with rfl | hw
      · omega
      · exact h.same w hw u start hu huid
    · obtain ⟨rfl, rfl⟩ := TimerEntry.registered.inj (List.mem_singleton.1 hu)
      rcases List.mem_cons.1 hw with rfl | hw
      · exact ⟨rfl, rfl⟩
      · have hle := hknown w hw
        omega
  case ends  =>
    intro w hw hout u start hu huid
    rw [hsame]
    rcases List.mem_append.1 hu with hu | hu
    · have hle := hold u start hu
      rcases List.mem_cons.1 hw with rfl | hw
      · omega
      · exact h.ends w hw hout u start hu huid
    · obtain ⟨rfl, rfl⟩ := TimerEntry.registered.inj (List.mem_singleton.1 hu)
      rcases List.mem_cons.1 hw with rfl | hw
      · have hge := timePoint_ge_iff.2 (of_decide_eq_true hfits)
        rw [hzero, ht]
        simpa [Timer.make] using hge
      · have hle := hknown w hw
        omega
  case fired =>
    intro id now' hout
    obtain ⟨hle, hfired⟩ := h.fired id now' hout
    refine ⟨by show id ≤ t.id; omega, fun u start hu huid => ?_⟩
    rw [hsame]
    rcases List.mem_append.1 hu with hu | hu
    · exact hfired u start hu huid
    · obtain ⟨rfl, -⟩ := TimerEntry.registered.inj (List.mem_singleton.1 hu)
      omega

/-- Timers are cancelled where they lie. -/
theorem map (h : Armed out m history) {f : Timer → Timer} (hf : ∀ t, f t = t ∨ f t = t.cancel)
    (timers : TimerClock → List Int) (shuttingDown : Bool) :
    Armed out { m with timers := timers, allTimers := m.allTimers.map f, shuttingDown := shuttingDown } history := by
  have hof : ∀ w ∈ m.allTimers.map f, ∃ v ∈ m.allTimers, w.id = v.id ∧ w.clock = v.clock ∧ w.duration = v.duration ∧
      w.endTimePoint = v.endTimePoint := by
    intro w hw
    obtain ⟨v, hv, rfl⟩ := List.mem_map.1 hw
    rcases hf v with heq | heq
    · exact ⟨v, hv, by rw [heq], by rw [heq], by rw [heq], by rw [heq]⟩
    · exact ⟨v, hv, by rw [heq]; rfl, by rw [heq]; rfl, by rw [heq]; rfl, by rw [heq]; rfl⟩
  refine ⟨h.early, fun w hw u start hu hid => ?_, fun w hw hout u start hu hid => ?_, h.fired⟩
  · obtain ⟨v, hv, hvid, hclock, hduration, -⟩ := hof w hw
    rw [hclock, hduration]
    exact h.same v hv u start hu (hid.trans hvid)
  · obtain ⟨v, hv, hvid, -, -, hend⟩ := hof w hw
    rw [hend]
    exact h.ends v hv (hvid ▸ hout) u start hu (hid.trans hvid)

/-- An entry that no timer is fired or registered with. -/
theorem concat (h : Armed out m history) {r : TimerEntry} (hfired : ∀ t now, r ≠ .fired t now)
    (hregistered : ∀ t now, r ≠ .registered t now) : Armed out m (history ++ [r]) := by
  have hsame : ∀ timerId, firings timerId (history ++ [r]) = firings timerId history := by
    intro timerId
    rw [firings_concat]
    cases r with
    | fired t now => exact absurd rfl (hfired t now)
    | _           => rfl
  have hof : ∀ u start, .registered u start ∈ history ++ [r] → .registered u start ∈ history := by
    intro u start hu
    rcases List.mem_append.1 hu with hu | hu
    · exact hu
    · exact absurd (List.mem_singleton.1 hu).symm (hregistered u start)
  constructor
  case early =>
    exact neverEarly_concat h.early (fun t now hr => absurd hr (hfired t now))
      fun u start hr => absurd hr (hregistered u start)
  case same  => exact fun w hw u start hu => h.same w hw u start (hof u start hu)
  case ends  =>
    intro w hw hout u start hu
    rw [hsame]
    exact h.ends w hw hout u start (hof u start hu)
  case fired =>
    intro id now' hout
    obtain ⟨hle, hwas⟩ := h.fired id now' hout
    refine ⟨hle, fun u start hu => ?_⟩
    rw [hsame]
    exact hwas u start (hof u start hu)

theorem call (h : Armed out m history) {o : Option Int} {o' : Option (TimerClock × Int)} (hl : Logged o m history)
    (hm : m.Owned o') {c : TimerCall} (hfits : CallFits m now c) : Armed out (m.call now c) (history ++ m.records now c) := by
  rcases TimerManager.call_cases hm now c with
    ⟨-, -, heq, hrecords⟩ | ⟨hup, clock, milliseconds, loop, t, hr, ht, heq, hrecords⟩ | ⟨timerId, -, heq, hrecords⟩
  · rw [heq, hrecords, List.append_nil]
    exact h
  · rw [heq, hrecords]
    exact h.registered hl hm.known ht (hfits hup _ hr)
  · rw [heq, hrecords]
    have hmap : Armed out (m.modify timerId Timer.cancel) history :=
      h.map (fun t => by
        split
        · exact .inr rfl
        · exact .inl rfl) m.timers m.shuttingDown
    exact hmap.concat (by simp) (by simp)

theorem shutdown (h : Armed out m history) (now : Int → ClockReading) :
    Armed out (m.enterShutdownMode now) (history ++ [.shutdown (m.due now)]) := by
  have hmap : Armed out (m.enterShutdownMode now) history :=
    h.map (fun t => by
      split
      · exact .inr rfl
      · exact .inl rfl) m.timers true
  exact hmap.concat (by simp) (by simp)

/-- A timer whose time has come is fired. -/
theorem fire (h : Armed none m history) (ht : t ∈ m.allTimers) (hknown : t.id ≤ m.generateTimerId)
    (hexpired : t.isExpired now = true) : Armed (some (t.id, now)) (m.pop clock t.id) (history ++ [.fired t now]) := by
  have hof : ∀ u start, .registered u start ∈ history ++ [.fired t now] → .registered u start ∈ history :=
    fun u start hu => by simpa using hu
  have hpast : t.endTimePoint ≤ now.on t.clock := by
    unfold Timer.isExpired at hexpired
    cases hclock : t.clock with
    | steady => exact Int.le_of_lt (by simpa [hclock, ClockReading.on] using hexpired)
    | system => simpa [hclock, ClockReading.on] using hexpired
  have hdue : ∀ u start, .registered u start ∈ history → u.id = t.id →
      start.on u.clock + (firings u.id history + 1) * nanoseconds u.duration ≤ now.on u.clock := by
    intro u start hu hid
    rw [(h.same t ht u start hu hid).1]
    exact Int.le_trans ((h.same t ht u start hu hid).1 ▸ h.ends t ht (by simp) u start hu hid) hpast
  constructor
  case early =>
    refine neverEarly_concat h.early (fun t' now' hr u start hu hid => ?_) fun _ _ hr => (nomatch hr)
    obtain ⟨rfl, rfl⟩ := TimerEntry.fired.inj hr
    exact hid ▸ hdue u start hu hid
  case same  => exact fun w hw u start hu => h.same w hw u start (hof u start hu)
  case ends  =>
    intro w hw hout u start hu hid
    have hne : t.id ≠ u.id := fun heq => hout now (by rw [heq, hid])
    rw [firings_concat]
    simpa [TimerEntry.fires, hne] using h.ends w hw (by simp) u start (hof u start hu) hid
  case fired =>
    intro id now' hout
    obtain ⟨rfl, rfl⟩ := Prod.mk.inj (Option.some.inj hout)
    refine ⟨hknown, fun u start hu hid => ?_⟩
    rw [firings_concat]
    simpa [TimerEntry.fires, hid] using hdue u start (hof u start hu) hid

/-- The timer that was fired is gone. -/
theorem erase {id : Int} (h : Armed (some (id, now)) m history) : Armed none (m.erase id) history where
  early := h.early
  same  := fun w hw => h.same w (TimerManager.mem_erase.1 hw).1
  ends  := by
    intro w hw _
    obtain ⟨hw, hid⟩ := TimerManager.mem_erase.1 hw
    exact h.ends w hw fun now' hout => hid (Prod.mk.inj (Option.some.inj hout)).1.symm
  fired := by simp

/-- The timer that was fired is armed again. -/
theorem reset {id : Int} {reset : ClockReading} (h : Armed (some (id, now)) m history)
    (hfits : ∀ w ∈ m.allTimers, w.id = id → now.on w.clock ≤ reset.on w.clock ∧ fits w.clock w.duration reset = true) :
    Armed none ((m.modify id (Timer.reset reset)).push clock id) history where
  early := h.early
  same  := by
    intro w hw u start hu hid
    obtain ⟨v, hv, rfl⟩ := TimerManager.mem_modify.1 hw
    split at hid
    · rename_i hv'
      rw [if_pos hv']
      exact h.same v hv u start hu hid
    · rename_i hv'
      rw [if_neg hv']
      exact h.same v hv u start hu hid
  ends  := by
    intro w hw _ u start hu hid
    obtain ⟨v, hv, rfl⟩ := TimerManager.mem_modify.1 hw
    by_cases hv' : v.id = id
    · rw [if_pos hv'] at hid ⊢
      obtain ⟨hclock, hduration⟩ := h.same v hv u start hu hid
      obtain ⟨hle, hfits⟩ := hfits v hv hv'
      have hge : reset.on v.clock + nanoseconds v.duration ≤ (v.reset reset).endTimePoint :=
        timePoint_ge_iff.2 (of_decide_eq_true hfits)
      have hwas := (h.fired id now rfl).2 u start hu (hid.trans hv')
      rw [Int.add_mul, Int.one_mul]
      rw [hclock, hduration] at hwas ⊢
      omega
    · rw [if_neg hv'] at hid ⊢
      exact h.ends v hv (fun now' hout => hv' (Prod.mk.inj (Option.some.inj hout)).1.symm) u start hu hid
  fired := by simp

end Armed

theorem armed_pass (hm : s.manager.Owned none) (hl : Logged none s.manager s.history) (h : Armed none s.manager s.history)
    (hupdating : s.updating = some clock) (hruns : s.RunsOn (.pass p)) (hfits : s.Fits (.pass p)) :
    Armed none (s.pass clock p).manager (s.pass clock p).history := by
  rcases pass_cases hm clock p with ⟨heq, -⟩ | ⟨t, ht, rfl, htop, -, ⟨-, heq⟩ | ⟨hactive, hexpired, heq⟩⟩
  · rw [heq]
    cases clock <;> exact h
  · rw [heq]
    exact ⟨h.early, fun w hw => h.same w (TimerManager.mem_erase.1 hw).1,
      fun w hw => h.ends w (TimerManager.mem_erase.1 hw).1, h.fired⟩
  · obtain ⟨hagain, hcallsFit⟩ := hfits t.clock hupdating t htop (by rw [hactive, hexpired]; rfl)
    -- the state as the callback goes on: nothing that it does ends the mode in which it began
    have hcalls := calls_inv
      (fun s' => s'.manager.shuttingDown = s.manager.shuttingDown ∧ s'.manager.Owned (some (t.clock, t.id)) ∧
        Logged (some t.id) s'.manager s'.history ∧ Armed (some (t.id, p.now)) s'.manager s'.history) p.calls
      (fun s' c hc hs' => ⟨(TimerManager.call_shuttingDown hs'.2.1 c.1 c.2).trans hs'.1, hs'.2.1.call c.2,
        hs'.2.2.1.call hs'.2.1 c.1 c.2, hs'.2.2.2.call hs'.2.2.1 hs'.2.1 fun hup => hcallsFit c hc (hs'.1 ▸ hup)⟩)
      (s := s.fire t.clock t p) ⟨rfl, hm.pop ht, hl.fired ht (hm.known t ht) hactive p.now,
        h.fire ht (hm.known t ht) hexpired⟩
    rw [heq, finish]
    split
    · rename_i hloop
      refine hcalls.2.2.2.reset fun w hw hid => ?_
      obtain ⟨-, new, hall, hnew⟩ := calls_allTimers (s := s.fire t.clock t p) p.calls (hm.pop ht)
      rw [hall] at hw
      rcases List.mem_append.1 hw with hw | hw
      · have hlt : s.manager.generateTimerId < w.id := (hnew w hw).1
        have hle := hm.known t ht
        omega
      · obtain ⟨v, hv, rfl⟩ := List.mem_map.1 hw
        rw [cancelled_id] at hid
        obtain rfl := hm.eq_of_id hv ht hid
        rw [cancelled_clock, cancelled_duration]
        exact ⟨hruns v.clock hupdating, hagain hloop⟩
    · exact hcalls.2.2.2.erase

theorem armed_step (hm : s.manager.Owned none) (hl : Logged none s.manager s.history) (h : Armed none s.manager s.history)
    {e : TimerEvent} (hruns : s.RunsOn e) (hfits : s.Fits e) : Armed none (s.step e).manager (s.step e).history := by
  unfold step
  split
  · exact h.call hl hm hfits
  · exact h.shutdown _
  · exact h
  · rename_i hupdating
    exact armed_pass hm hl h hupdating hruns hfits
  · exact h

/-! ## Runs -/

/-- **In every run in which 64 bits hold the deadlines of the timers that are armed**, and no clock is set back between a
firing and the next round, no timer is fired early. -/
theorem neverEarly_run (es : List TimerEvent) (h : Along step (fun s e => s.RunsOn e ∧ s.Fits e) {} es) :
    Always step (fun s => NeverEarly s.history) {} es := by
  have hstep : ∀ (s : TimerSystem) (e : TimerEvent), s.manager.Owned none ∧ Logged none s.manager s.history ∧
      Armed none s.manager s.history → s.RunsOn e ∧ s.Fits e → (s.step e).manager.Owned none ∧
        Logged none (s.step e).manager (s.step e).history ∧ Armed none (s.step e).manager (s.step e).history := by
    rintro s e ⟨hm, hl, ha⟩ ⟨hruns, hfits⟩
    exact ⟨owned_step hm e, logged_step hm hl e, armed_step hm hl ha hruns hfits⟩
  exact (Run.always_inv hstep es ⟨.init, .init, .init⟩ h).mono fun _ hs => hs.2.2.early

/-- A timer that loops and one for the longest time that 64 bits hold. -/
theorem neverEarly_run_loop : Always step (fun s => NeverEarly s.history) {}
    [.call ⟨0, 0⟩ (.registerSystemTimer 1 true), .call ⟨0, 0⟩ (.registerTimer 9223372036854 false), .update ⟨1, 1000000⟩,
      .pass ⟨⟨1, 1000000⟩, [], ⟨1, 1000000⟩⟩,
      .pass ⟨⟨1, 1000000⟩, [(⟨1, 1000000⟩, .registerTimer 5 false)], ⟨1, 1000000⟩⟩,
      .pass ⟨⟨1, 1000000⟩, [], ⟨1, 1000000⟩⟩] :=
  neverEarly_run _ (by decide)

/-- A timer for the longest time that there is: it is fired at once. -/
theorem not_neverEarly_run :
    ¬∀ es, Along step RunsOn {} es → Always step (fun s => NeverEarly s.history) {} es := by
  intro h
  have hlast := Run.always_iff_take.1 (h [.call ⟨0, 0⟩ (.registerTimer 9223372036854775807 false), .update ⟨0, 0⟩,
    .pass ⟨⟨0, 0⟩, [], ⟨0, 0⟩⟩] (by decide)) 3
  have hearly := hlast [.registered ⟨.steady, true, 1, false, 9223372036854775807, -1000000⟩ ⟨0, 0⟩]
    ⟨.steady, true, 1, false, 9223372036854775807, -1000000⟩ ⟨0, 0⟩ [] rfl
    ⟨.steady, true, 1, false, 9223372036854775807, -1000000⟩ ⟨0, 0⟩ (List.Mem.head _) rfl
  exact absurd hearly (by decide)

end TimerSystem

end Gb
