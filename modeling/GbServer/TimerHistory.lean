import GbServer.TimerManager
/-!
# TimerHistory — what the history of a manager says of its timers

A timer is registered under an id that nothing in the history has, one that does not loop is gone when it has been fired, and
one that was unregistered stays inactive until it is gone (`Logged`).  So the first is fired once, and the second not at all
(`logged_run`).
-/
namespace Gb

open TimerManager (Owned)

def TimerEntry.fires (timerId : Int) : TimerEntry → Bool
  | fired t _ => t.id = timerId
  | _         => false

def TimerEntry.registers (timerId : Int) : TimerEntry → Bool
  | registered t _ => t.id = timerId
  | _              => false

/-- How often a timer was fired. -/
def firings (timerId : Int) (history : List TimerEntry) : Nat := history.countP (TimerEntry.fires timerId)

namespace TimerSystem

variable {s : TimerSystem} {clock : TimerClock} {t u : Timer}

/-- A timer that does not loop was fired at most once. -/
def FiredOnce (history : List TimerEntry) : Prop :=
  ∀ t now, .registered t now ∈ history → t.loop = false → firings t.id history ≤ 1

/-- No timer was fired after it was unregistered. -/
def SilentOnceUnregistered (history : List TimerEntry) : Prop :=
  ∀ before timerId after, history = before ++ .unregistered timerId :: after →
    before.any (TimerEntry.registers timerId) = true → firings timerId after = 0

/-! ## The history -/

theorem firings_concat (timerId : Int) (history : List TimerEntry) (r : TimerEntry) :
    firings timerId (history ++ [r]) = firings timerId history + if r.fires timerId then 1 else 0 := by
  rw [firings, List.countP_append, List.countP_singleton, ← firings]

/-- A history that is split, and was one entry shorter before. -/
theorem split_concat {α : Type} {history before after : List α} {r x : α} (h : history ++ [r] = before ++ x :: after) :
    (after = [] ∧ r = x ∧ history = before) ∨ ∃ after', after = after' ++ [r] ∧ history = before ++ x :: after' := by
  rcases List.eq_nil_or_concat after with rfl | ⟨after', y, rfl⟩
  · obtain ⟨heq, hlast⟩ := List.append_inj' h rfl
    exact .inl ⟨rfl, by simpa using hlast, heq⟩
  · rw [List.concat_eq_append, ← List.cons_append, ← List.append_assoc] at h
    obtain ⟨heq, hlast⟩ := List.append_inj' h rfl
    exact .inr ⟨after', by rw [List.concat_eq_append, hlast], heq⟩

/-- A timer was unregistered after it was registered. -/
def Unregistered (history : List TimerEntry) (timerId : Int) : Prop :=
  ∃ before after, history = before ++ .unregistered timerId :: after ∧ before.any (TimerEntry.registers timerId) = true

theorem unregistered_concat {history : List TimerEntry} {r : TimerEntry} {timerId : Int} :
    Unregistered (history ++ [r]) timerId ↔
      Unregistered history timerId ∨ (r = .unregistered timerId ∧ history.any (TimerEntry.registers timerId) = true) := by
  constructor
  · rintro ⟨before, after, hsplit, hany⟩
    rcases split_concat hsplit with ⟨-, hr, rfl⟩ | ⟨after', -, heq⟩
    · exact .inr ⟨hr, hany⟩
    · exact .inl ⟨before, after', heq, hany⟩
  · rintro (⟨before, after, rfl, hany⟩ | ⟨rfl, hany⟩)
    · exact ⟨before, after ++ [r], by simp, hany⟩
    · exact ⟨history, [], rfl, hany⟩

theorem Unregistered.registered {history : List TimerEntry} {timerId : Int} (h : Unregistered history timerId) :
    ∃ r ∈ history, r.registers timerId = true := by
  obtain ⟨before, after, rfl, hany⟩ := h
  obtain ⟨r, hr, hregisters⟩ := List.any_eq_true.1 hany
  exact ⟨r, List.mem_append_left _ hr, hregisters⟩

theorem silent_concat {history : List TimerEntry} {r : TimerEntry} (h : SilentOnceUnregistered history)
    (hr : ∀ timerId, Unregistered history timerId → r.fires timerId = false) : SilentOnceUnregistered (history ++ [r]) := by
  intro before timerId after hsplit hany
  rcases split_concat hsplit with ⟨rfl, -, -⟩ | ⟨after', rfl, heq⟩
  · rfl
  · rw [firings_concat, h before timerId after' heq hany, hr timerId ⟨before, after', heq, hany⟩]
    rfl

/-- What the history says of the timers that there are; the callback of `out` is running. -/
structure Logged (out : Option Int) (m : TimerManager) (history : List TimerEntry) : Prop where
  known  : ∀ r ∈ history, ∀ timerId, r.registers timerId = true ∨ r.fires timerId = true → timerId ≤ m.generateTimerId
  once   : ∀ t now, .registered t now ∈ history → t.loop = false →
    firings t.id history ≤ 1 ∧ ∀ u ∈ m.allTimers, u.id = t.id → u.loop = false
  fresh  : ∀ u ∈ m.allTimers, u.loop = false → out ≠ some u.id → firings u.id history = 0
  silent : SilentOnceUnregistered history
  gone   : ∀ timerId, Unregistered history timerId → ∀ u ∈ m.allTimers, u.id = timerId → u.active = false

namespace Logged

variable {out : Option Int} {m : TimerManager} {history : List TimerEntry}

theorem init : Logged none {} [] where
  known  := by simp
  once   := by simp
  fresh  := by simp
  silent := by simp [SilentOnceUnregistered]
  gone   := by simp

theorem firings_eq_zero (h : Logged out m history) {timerId : Int} (hnew : m.generateTimerId < timerId) :
    firings timerId history = 0 := by
  rw [firings, List.countP_eq_zero]
  intro r hr hfires
  have hle := h.known r hr timerId (.inr hfires)
  omega

theorem registered (h : Logged out m history) (hknown : ∀ u ∈ m.allTimers, u.id ≤ m.generateTimerId)
    (ht : t.id = m.generateTimerId + 1) (now : ClockReading) :
    Logged out { m.push clock t.id with generateTimerId := t.id, allTimers := t :: m.allTimers }
      (history ++ [.registered t now]) := by
  have hzero : firings t.id history = 0 := h.firings_eq_zero (by omega)
  have hsame : ∀ timerId, firings timerId (history ++ [.registered t now]) = firings timerId history := by
    intro timerId
    rw [firings_concat]
    rfl
  have hold : ∀ r ∈ history, r.registers t.id = false := by
    intro r hr
    by_contra hregisters
    have hle := h.known r hr t.id (.inl (Bool.eq_true_of_not_eq_false hregisters))
    omega
  constructor
  case known  =>
    intro r hr timerId hnames
    show timerId ≤ t.id
    rcases List.mem_append.1 hr with hr | hr
    · have hle := h.known r hr timerId hnames
      omega
    · rw [List.mem_singleton.1 hr] at hnames
      simp only [TimerEntry.registers, TimerEntry.fires, decide_eq_true_eq, Bool.false_eq_true, or_false] at hnames
      omega
  case once   =>
    intro u now' hmem hloop
    rw [hsame]
    rcases List.mem_append.1 hmem with hu | hu
    · obtain ⟨hle, hothers⟩ := h.once u now' hu hloop
      refine ⟨hle, fun w hw hid => ?_⟩
      rcases List.mem_cons.1 hw with rfl | hw
      · simpa [TimerEntry.registers, hid] using hold _ hu
      · exact hothers w hw hid
    · obtain ⟨rfl, rfl⟩ := TimerEntry.registered.inj (List.mem_singleton.1 hu)
      refine ⟨by omega, fun w hw hid => ?_⟩
      rcases List.mem_cons.1 hw with rfl | hw
      · exact hloop
      · have hle := hknown w hw
        omega
  case fresh  =>
    intro u hu hloop hout
    rw [hsame]
    rcases List.mem_cons.1 hu with rfl | hu
    · exact hzero
    · exact h.fresh u hu hloop hout
  case silent => exact silent_concat h.silent fun _ _ => rfl
  case gone   =>
    intro timerId hgone u hu hid
    rcases unregistered_concat.1 hgone with hwas | ⟨hr, -⟩
    · rcases List.mem_cons.1 hu with rfl | hu
      · obtain ⟨r, hr, hregisters⟩ := hwas.registered
        rw [← hid, hold r hr] at hregisters
        cases hregisters
      · exact h.gone timerId hwas u hu hid
    · cases hr

/-- Timers are changed where they lie, and none becomes active. -/
theorem map (h : Logged out m history) {f : Timer → Timer} (hid : ∀ t, (f t).id = t.id) (hloop : ∀ t, (f t).loop = t.loop)
    (hactive : ∀ t, t.active = false → (f t).active = false) (timers : TimerClock → List Int) (shuttingDown : Bool) :
    Logged out { m with timers := timers, allTimers := m.allTimers.map f, shuttingDown := shuttingDown } history where
  known  := h.known
  once   := by
    intro t now ht hnotLoop
    obtain ⟨hle, hothers⟩ := h.once t now ht hnotLoop
    refine ⟨hle, fun u hu huid => ?_⟩
    obtain ⟨v, hv, rfl⟩ := List.mem_map.1 hu
    rw [hloop]
    exact hothers v hv ((hid v).symm.trans huid)
  fresh  := by
    intro u hu hnotLoop hout
    obtain ⟨v, hv, rfl⟩ := List.mem_map.1 hu
    rw [hid] at hout ⊢
    rw [hloop] at hnotLoop
    exact h.fresh v hv hnotLoop hout
  silent := h.silent
  gone   := by
    intro timerId hgone u hu huid
    obtain ⟨v, hv, rfl⟩ := List.mem_map.1 hu
    rw [hid] at huid
    exact hactive v (h.gone timerId hgone v hv huid)

/-- An entry that no timer is fired or registered with. -/
theorem concat (h : Logged out m history) {r : TimerEntry} (hfires : ∀ timerId, r.fires timerId = false)
    (hregisters : ∀ timerId, r.registers timerId = false)
    (hgone : ∀ timerId, r = .unregistered timerId → ∀ u ∈ m.allTimers, u.id = timerId → u.active = false) :
    Logged out m (history ++ [r]) := by
  have hsame : ∀ timerId, firings timerId (history ++ [r]) = firings timerId history := by
    intro timerId
    rw [firings_concat, hfires]
    rfl
  constructor
  case known  =>
    intro r' hr' timerId hnames
    rcases List.mem_append.1 hr' with hr' | hr'
    · exact h.known r' hr' timerId hnames
    · rw [List.mem_singleton.1 hr', hfires, hregisters] at hnames
      simp at hnames
  case once   =>
    intro t now ht hloop
    rw [hsame]
    rcases List.mem_append.1 ht with ht | ht
    · exact h.once t now ht hloop
    · have hnames := hregisters t.id
      rw [← List.mem_singleton.1 ht] at hnames
      simp [TimerEntry.registers] at hnames
  case fresh  =>
    intro u hu hloop hout
    rw [hsame]
    exact h.fresh u hu hloop hout
  case silent => exact silent_concat h.silent fun timerId _ => hfires timerId
  case gone   =>
    intro timerId hwas
    rcases unregistered_concat.1 hwas with hwas | ⟨hr, -⟩
    · exact h.gone timerId hwas
    · exact hgone timerId hr

theorem unregistered (h : Logged out m history) (timerId : Int) :
    Logged out (m.modify timerId Timer.cancel) (history ++ [.unregistered timerId]) := by
  have hmap : Logged out (m.modify timerId Timer.cancel) history :=
    h.map (fun t => by split <;> rfl) (fun t => by split <;> rfl)
      (fun t hactive => by
        split
        · rfl
        · exact hactive) m.timers m.shuttingDown
  refine hmap.concat (fun _ => rfl) (fun _ => rfl) fun timerId' hr u hu hid => ?_
  obtain rfl := TimerEntry.unregistered.inj hr
  obtain ⟨v, -, rfl⟩ := TimerManager.mem_modify.1 hu
  split
  · rfl
  · rename_i hne
    rw [if_neg hne] at hid
    exact absurd hid hne

theorem fired (h : Logged none m history) (ht : t ∈ m.allTimers) (hknown : t.id ≤ m.generateTimerId) (hactive : t.active = true)
    (now : ClockReading) : Logged (some t.id) (m.pop clock t.id) (history ++ [.fired t now]) := by
  have hsame : ∀ timerId, firings timerId (history ++ [.fired t now]) =
      firings timerId history + if t.id = timerId then 1 else 0 := by
    intro timerId
    rw [firings_concat]
    simp [TimerEntry.fires]
  constructor
  case known  =>
    intro r hr timerId hnames
    rcases List.mem_append.1 hr with hr | hr
    · exact h.known r hr timerId hnames
    · rw [List.mem_singleton.1 hr] at hnames
      simp only [TimerEntry.registers, TimerEntry.fires, decide_eq_true_eq, Bool.false_eq_true, false_or] at hnames
      exact hnames ▸ hknown
  case once   =>
    intro u now' hu hloop
    obtain ⟨hle, hothers⟩ := h.once u now' (by simpa using hu) hloop
    refine ⟨?_, hothers⟩
    rw [hsame]
    split
    · rename_i hid
      have hzero := h.fresh t ht (hothers t ht hid) (by simp)
      rw [← hid]
      omega
    · exact hle
  case fresh  =>
    intro u hu hloop hout
    rw [hsame, if_neg fun hid => hout (by rw [hid]), h.fresh u hu hloop (by simp)]
  case silent =>
    refine silent_concat h.silent fun timerId hgone => ?_
    by_contra hfires
    have hid : t.id = timerId := by simpa [TimerEntry.fires] using hfires
    rw [h.gone timerId hgone t ht hid] at hactive
    cases hactive
  case gone   =>
    intro timerId hgone
    rcases unregistered_concat.1 hgone with hgone | ⟨hr, -⟩
    · exact h.gone timerId hgone
    · cases hr

/-- The timer that was fired is gone. -/
theorem erase {id : Int} (h : Logged (some id) m history) : Logged none (m.erase id) history where
  known  := h.known
  once   := by
    intro t now ht hloop
    obtain ⟨hle, hothers⟩ := h.once t now ht hloop
    exact ⟨hle, fun u hu => hothers u (TimerManager.mem_erase.1 hu).1⟩
  fresh  := by
    intro u hu hloop _
    obtain ⟨hu, hid⟩ := TimerManager.mem_erase.1 hu
    exact h.fresh u hu hloop fun heq => hid (Option.some.inj heq).symm
  silent := h.silent
  gone   := fun timerId hgone u hu => h.gone timerId hgone u (TimerManager.mem_erase.1 hu).1

/-- The timer that was fired goes on. -/
theorem reset {id : Int} (h : Logged (some id) m history) (hloop : ∀ u ∈ m.allTimers, u.id = id → u.loop = true)
    (now : ClockReading) : Logged none ((m.modify id (Timer.reset now)).push clock id) history := by
  have hmap : Logged (some id) ((m.modify id (Timer.reset now)).push clock id) history :=
    h.map (fun t => by split <;> rfl) (fun t => by split <;> rfl)
      (fun t hactive => by split <;> exact hactive) _ m.shuttingDown
  refine ⟨hmap.known, hmap.once, fun u hu hnotLoop _ => ?_, hmap.silent, hmap.gone⟩
  refine hmap.fresh u hu hnotLoop fun heq => ?_
  obtain ⟨v, hv, rfl⟩ := TimerManager.mem_modify.1 hu
  have hid : v.id = id := by
    split at heq <;> exact (Option.some.inj heq).symm
  rw [if_pos hid] at hnotLoop
  exact absurd (hloop v hv hid) (by rw [show v.loop = false from hnotLoop]; decide)

theorem shutdown (h : Logged out m history) (now : Int → ClockReading) :
    Logged out (m.enterShutdownMode now) (history ++ [.shutdown (m.due now)]) := by
  have hmap : Logged out (m.enterShutdownMode now) history :=
    h.map (fun t => by split <;> rfl) (fun t => by split <;> rfl)
      (fun t hactive => by
        split
        · rfl
        · exact hactive) m.timers true
  exact hmap.concat (fun _ => rfl) (fun _ => rfl) fun timerId hr => by cases hr

theorem call (h : Logged out m history) {o : Option (TimerClock × Int)} (hm : m.Owned o) (now : ClockReading) (c : TimerCall) :
    Logged out (m.call now c) (history ++ m.records now c) := by
  rcases TimerManager.call_cases hm now c with
    ⟨-, -, heq, hrecords⟩ | ⟨-, clock, milliseconds, loop, t, -, ht, heq, hrecords⟩ | ⟨timerId, -, heq, hrecords⟩
  · rw [heq, hrecords, List.append_nil]
    exact h
  · rw [heq, hrecords]
    exact h.registered hm.known (by rw [ht]; rfl) now
  · rw [heq, hrecords]
    exact h.unregistered timerId

end Logged

theorem logged_pass (hm : s.manager.Owned none) (h : Logged none s.manager s.history) (p : UpdatePass) :
    Logged none (s.pass clock p).manager (s.pass clock p).history := by
  rcases pass_cases hm clock p with ⟨heq, -⟩ | ⟨t, ht, rfl, -, -, ⟨-, heq⟩ | ⟨hactive, -, heq⟩⟩
  · rw [heq]
    cases clock <;> exact h
  · have hout : Logged (some t.id) (s.manager.pop t.clock t.id) s.history :=
      ⟨h.known, h.once, fun u hu hloop _ => h.fresh u hu hloop (by simp), h.silent, h.gone⟩
    rw [heq]
    exact hout.erase
  · have hfire : Logged (some t.id) (s.fire t.clock t p).manager (s.fire t.clock t p).history :=
      h.fired ht (hm.known t ht) hactive p.now
    have hcalls := calls_inv
      (fun s => s.manager.Owned (some (t.clock, t.id)) ∧ Logged (some t.id) s.manager s.history) p.calls
      (fun s c _ hs => ⟨hs.1.call c.2, hs.2.call hs.1 c.1 c.2⟩) ⟨hm.pop ht, hfire⟩
    rw [heq, finish]
    split
    · rename_i hloop
      refine hcalls.2.reset (fun u hu hid => ?_) p.reset
      obtain ⟨-, new, hall, hnew⟩ := calls_allTimers (s := s.fire t.clock t p) p.calls (hm.pop ht)
      rw [hall] at hu
      rcases List.mem_append.1 hu with hu | hu
      · have hlt : s.manager.generateTimerId < u.id := (hnew u hu).1
        have hle := hm.known t ht
        omega
      · obtain ⟨v, hv, rfl⟩ := List.mem_map.1 hu
        rw [cancelled_id] at hid
        rw [hm.eq_of_id hv ht hid, cancelled]
        split <;> exact hloop
    · exact hcalls.2.erase

theorem logged_step (hm : s.manager.Owned none) (h : Logged none s.manager s.history) (e : TimerEvent) :
    Logged none (s.step e).manager (s.step e).history := by
  unfold step
  split
  · exact h.call hm _ _
  · exact h.shutdown _
  · exact h
  · exact logged_pass hm h _
  · exact h

/-- **A timer that does not loop is fired once at most, and none after it was unregistered**, in every run. -/
theorem logged_run (es : List TimerEvent) :
    FiredOnce (es.foldl step {}).history ∧ SilentOnceUnregistered (es.foldl step {}).history := by
  have hrun : (es.foldl step {}).manager.Owned none ∧
      Logged none (es.foldl step {}).manager (es.foldl step {}).history :=
    Run.foldl_of_step (fun s : TimerSystem => s.manager.Owned none ∧ Logged none s.manager s.history)
      (fun _ e hs => ⟨owned_step hs.1 e, logged_step hs.1 hs.2 e⟩) es ⟨.init, .init⟩
  exact ⟨fun t now ht hloop => (hrun.2.once t now ht hloop).1, hrun.2.silent⟩

end TimerSystem

end Gb
