import GbServer.TimerHistory
/-!
# TimerShutdown — the timers that are left

`EnterShutdownMode` is to complete the timers that are due and to cancel the others.  Whatever comes later, no timer is fired
that was not due (`onlyDue_run`).  A timer that loops is armed again by the frame that fires it, as if nothing were ending, and
the next frames fire it again.  Where none goes on in shutdown mode, each timer is fired once at most (`shutdown_run`).
-/
namespace Gb

open Run (Along Always)
open TimerManager (Owned)

/-- Neither a firing nor the beginning of shutdown. -/
def TimerEntry.quiet : TimerEntry → Bool
  | registered _ _ => true
  | unregistered _ => true
  | fired _ _      => false
  | shutdown _     => false

/-- A timer that loops is fired, and its callback does not unregister it. -/
def Timer.goesOn (t : Timer) (p : UpdatePass) : Bool :=
  t.active && t.isExpired p.now && t.loop && !(p.calls.map Prod.snd).contains (.unRegisterTimer t.id)

namespace TimerSystem

variable {s : TimerSystem} {clock : TimerClock} {p : UpdatePass} {t : Timer} {history rs : List TimerEntry}

/-- Each time that shutdown began, with the timers that were due, and what has happened since. -/
def Since (Q : List Int → List TimerEntry → Prop) (history : List TimerEntry) : Prop :=
  ∀ before due after, history = before ++ .shutdown due :: after → Q due after

/-- Since shutdown began, only timers that were due then were fired, and each once at most. -/
def ShutsDown (s : TimerSystem) : Prop :=
  Since (fun due after => (∀ t now, .fired t now ∈ after → t.id ∈ due) ∧ ∀ timerId, firings timerId after ≤ 1) s.history

/-- In shutdown mode no timer goes on. -/
def EndsLoops (s : TimerSystem) : TimerEvent → Prop
  | .pass p => s.manager.shuttingDown = true → ∀ clock ∈ s.updating, ∀ t ∈ s.manager.top clock, t.goesOn p = false
  | _       => True

instance (s : TimerSystem) : ∀ e, Decidable (s.EndsLoops e)
  | .pass _              => inferInstanceAs (Decidable (_ → ∀ clock ∈ _, ∀ t ∈ _, _))
  | .call _ _            => isTrue trivial
  | .enterShutdownMode _ => isTrue trivial
  | .update _            => isTrue trivial

/-! ## The history since shutdown began -/

theorem firings_append (timerId : Int) (history rs : List TimerEntry) :
    firings timerId (history ++ rs) = firings timerId history + firings timerId rs :=
  List.countP_append

theorem fires_of_quiet {r : TimerEntry} (h : r.quiet = true) (timerId : Int) : r.fires timerId = false := by
  cases r with
  | fired t now => cases h
  | _           => rfl

theorem notMem_of_quiet {r : TimerEntry} (h : ∀ r ∈ rs, r.quiet = true) (hr : r.quiet = false) : r ∉ rs := by
  intro hmem
  rw [h r hmem] at hr
  cases hr

theorem shutdown_notMem {now : ClockReading} (h : ∀ r ∈ rs, r.quiet = true) (due : List Int) :
    .shutdown due ∉ .fired t now :: rs := by
  rw [List.mem_cons]
  rintro (heq | hmem)
  · cases heq
  · exact notMem_of_quiet h rfl hmem

theorem firings_of_quiet (h : ∀ r ∈ rs, r.quiet = true) (timerId : Int) : firings timerId rs = 0 := by
  rw [firings, List.countP_eq_zero]
  intro r hr
  rw [fires_of_quiet (h r hr)]
  decide

/-- Entries that shutdown is not among. -/
theorem Since.append {Q Q' : List Int → List TimerEntry → Prop} (h : Since Q history) (hrs : ∀ due, .shutdown due ∉ rs)
    (hQ : ∀ due after, .shutdown due ∈ history → Q due after → Q' due (after ++ rs)) : Since Q' (history ++ rs) := by
  intro before due after hsplit
  rcases List.append_eq_append_iff.1 hsplit with ⟨mid, -, hmid⟩ | ⟨mid, hhistory, hmid⟩
  · exact absurd (hmid ▸ List.mem_append_right mid List.mem_cons_self) (hrs due)
  · cases mid with
    | nil        =>
      refine absurd ?_ (hrs due)
      rw [← List.nil_append rs, ← hmid]
      exact List.mem_cons_self
    | cons r mid =>
      obtain ⟨rfl, rfl⟩ := List.cons.inj hmid
      refine hQ due mid ?_ (h before due mid hhistory)
      rw [hhistory]
      exact List.mem_append_right before List.mem_cons_self

/-- Shutdown begins. -/
theorem Since.shutdown {Q Q' : List Int → List TimerEntry → Prop} {now : List Int} (h : Since Q history) (hnow : Q' now [])
    (hQ : ∀ due after, .shutdown due ∈ history → Q due after → Q' due (after ++ [.shutdown now])) :
    Since Q' (history ++ [.shutdown now]) := by
  intro before due after hsplit
  rcases split_concat hsplit with ⟨rfl, hr, -⟩ | ⟨after', rfl, hhistory⟩
  · obtain rfl := TimerEntry.shutdown.inj hr
    exact hnow
  · refine hQ due after' ?_ (h before due after' hhistory)
    rw [hhistory]
    exact List.mem_append_right before List.mem_cons_self

/-! ## What a step does in shutdown mode -/

theorem calls_history (s : TimerSystem) (cs : List (ClockReading × TimerCall)) :
    ∃ rs, (s.calls cs).history = s.history ++ rs ∧ ∀ r ∈ rs, r.quiet = true := by
  refine calls_inv (fun s' => ∃ rs, s'.history = s.history ++ rs ∧ ∀ r ∈ rs, r.quiet = true) cs ?_ ⟨[], by simp, by simp⟩
  rintro s' ⟨now, c⟩ - ⟨rs, heq, hquiet⟩
  refine ⟨rs ++ s'.manager.records now c, by simp [call, heq], fun r hr => ?_⟩
  rcases List.mem_append.1 hr with hr | hr
  · exact hquiet r hr
  · cases c with
    | unRegisterTimer timerId => simp_all [TimerManager.records, TimerEntry.quiet]
    | _                       =>
      obtain ⟨t, -, rfl⟩ := List.mem_map.1 hr
      rfl

/-- In shutdown mode nothing is registered. -/
theorem calls_shuttingDown {out : Option (TimerClock × Int)} : ∀ (cs : List (ClockReading × TimerCall)) {s : TimerSystem},
    s.manager.Owned out → s.manager.shuttingDown = true → (s.calls cs).manager.shuttingDown = true ∧
      (s.calls cs).manager.allTimers = s.manager.allTimers.map (cancelled (cs.map Prod.snd))
  | [],      s, _, hdown => ⟨hdown, by simp [cancelled_nil, calls]⟩
  | c :: cs, s, h, hdown => by
    have howned : (s.call c.1 c.2).manager.Owned out := h.call c.2
    change ((s.call c.1 c.2).calls cs).manager.shuttingDown = true ∧ ((s.call c.1 c.2).calls cs).manager.allTimers = _
    rcases TimerManager.call_cases h c.1 c.2 with ⟨-, ⟨r, hr⟩, heq, -⟩ | ⟨hup, -⟩ | ⟨timerId, hc, heq, -⟩
    · have hsame : (s.call c.1 c.2).manager = s.manager := heq
      obtain ⟨hdown', hall⟩ := calls_shuttingDown cs howned (by rw [hsame]; exact hdown)
      exact ⟨hdown', by rw [hall, hsame, List.map_cons, cancelled_cons_registers hr]⟩
    · rw [hdown] at hup
      cases hup
    · have hsame : (s.call c.1 c.2).manager = s.manager.modify timerId Timer.cancel := heq
      obtain ⟨hdown', hall⟩ := calls_shuttingDown cs howned (by rw [hsame]; exact hdown)
      refine ⟨hdown', ?_⟩
      rw [hall, hsame, List.map_cons, hc, cancelled_cons_unRegister, ← List.map_map]
      rfl

/-- No timer becomes active. -/
def Fewer (m m' : TimerManager) : Prop :=
  ∀ w ∈ m'.allTimers, w.active = true → ∃ u ∈ m.allTimers, u.active = true ∧ u.id = w.id

theorem active_of_cancelled {cs : List TimerCall} (h : (cancelled cs t).active = true) :
    t.active = true ∧ .unRegisterTimer t.id ∉ cs := by
  unfold cancelled at h
  split at h
  · cases h
  · rename_i hnot
    exact ⟨h, hnot⟩

theorem fewer_cancelled {m m' : TimerManager} {cs : List TimerCall} (h : m'.allTimers = m.allTimers.map (cancelled cs)) :
    Fewer m m' := by
  intro w hw hactive
  rw [h] at hw
  obtain ⟨u, hu, rfl⟩ := List.mem_map.1 hw
  exact ⟨u, hu, (active_of_cancelled hactive).1, cancelled_id.symm⟩

theorem call_down (h : s.manager.Owned none) (now : ClockReading) (c : TimerCall) (hdown : s.manager.shuttingDown = true) :
    (s.call now c).manager.shuttingDown = true ∧ Fewer s.manager (s.call now c).manager := by
  obtain ⟨hdown', hall⟩ := calls_shuttingDown [(now, c)] h hdown
  exact ⟨hdown', fewer_cancelled hall⟩

/-- The timers that are not due are cancelled. -/
theorem mem_due_of_active {m : TimerManager} {now : Int → ClockReading} {w : Timer}
    (hw : w ∈ (m.enterShutdownMode now).allTimers) (hactive : w.active = true) :
    w ∈ m.allTimers ∧ w.id ∈ m.due now := by
  obtain ⟨u, hu, rfl⟩ := List.mem_map.1 hw
  split at hactive
  · cases hactive
  · rename_i hdue
    rw [if_neg hdue]
    refine ⟨hu, List.mem_map_of_mem (List.mem_filter.2 ⟨hu, ?_⟩)⟩
    rw [hactive, Bool.and_true, Bool.not_eq_true', Bool.not_eq_false] at hdue
    rw [hactive, hdue]
    rfl

theorem pass_down (h : s.manager.Owned none) (hdown : s.manager.shuttingDown = true) :
    (s.pass clock p).manager.shuttingDown = true ∧ Fewer s.manager (s.pass clock p).manager := by
  rcases pass_cases h clock p with ⟨heq, -⟩ | ⟨t, ht, rfl, -, -, ⟨-, heq⟩ | ⟨-, -, heq⟩⟩
  · rw [heq, leave_manager]
    exact ⟨hdown, fun w hw hactive => ⟨w, hw, hactive, rfl⟩⟩
  · rw [heq]
    exact ⟨hdown, fun w hw hactive => ⟨w, (TimerManager.mem_erase.1 hw).1, hactive, rfl⟩⟩
  · obtain ⟨hdown', hall⟩ := calls_shuttingDown (s := s.fire t.clock t p) p.calls (h.pop ht) hdown
    have hfewer : Fewer s.manager ((s.fire t.clock t p).calls p.calls).manager := fewer_cancelled hall
    rw [heq, finish]
    split
    · refine ⟨hdown', fun w hw hactive => ?_⟩
      obtain ⟨u, hu, rfl⟩ := TimerManager.mem_modify.1 hw
      obtain ⟨v, hv, hvactive, hid⟩ := hfewer u hu (by split at hactive <;> exact hactive)
      refine ⟨v, hv, hvactive, ?_⟩
      split <;> exact hid
    · exact ⟨hdown', fun w hw hactive => hfewer w (TimerManager.mem_erase.1 hw).1 hactive⟩

/-- After a firing the timer is active only if it goes on. -/
theorem id_ne_of_fired (h : s.manager.Owned none) (ht : t ∈ s.manager.allTimers) (hactive : t.active = true)
    (hexpired : t.isExpired p.now = true) (hdown : s.manager.shuttingDown = true) (hends : t.goesOn p = false) {w : Timer}
    (hw : w ∈ (((s.fire t.clock t p).calls p.calls).finish t.clock t p).manager.allTimers) (hwactive : w.active = true) :
    w.id ≠ t.id := by
  obtain ⟨-, hall⟩ := calls_shuttingDown (s := s.fire t.clock t p) p.calls (h.pop ht) hdown
  rw [finish] at hw
  split at hw
  · rename_i hloop
    intro hid
    obtain ⟨v, hv, rfl⟩ := TimerManager.mem_modify.1 hw
    rw [hall] at hv
    obtain ⟨u, hu, rfl⟩ := List.mem_map.1 hv
    have hut : u = t := h.eq_of_id hu ht (by split at hid <;> exact cancelled_id.symm.trans hid)
    subst hut
    rw [if_pos cancelled_id] at hwactive
    obtain ⟨-, hnot⟩ := active_of_cancelled hwactive
    have hunregister : .unRegisterTimer u.id ∈ p.calls.map Prod.snd := by
      simpa [Timer.goesOn, hactive, hexpired, hloop] using hends
    exact absurd hunregister hnot
  · exact (TimerManager.mem_erase.1 hw).2

/-- A pass tells of no firing, or of one. -/
theorem pass_history (h : s.manager.Owned none) (hupdating : s.updating = some clock) :
    (s.pass clock p).history = s.history ∨
    ∃ t ∈ s.manager.allTimers, t.active = true ∧ ∃ rs, (s.pass clock p).history = s.history ++ .fired t p.now :: rs ∧
      (∀ r ∈ rs, r.quiet = true) ∧ (s.manager.shuttingDown = true → s.EndsLoops (.pass p) →
        ∀ u ∈ (s.pass clock p).manager.allTimers, u.active = true → u.id ≠ t.id) := by
  rcases pass_cases h clock p with ⟨heq, -⟩ | ⟨t, ht, rfl, htop, -, ⟨-, heq⟩ | ⟨hactive, hexpired, heq⟩⟩
  · rw [heq]
    cases clock <;> exact .inl rfl
  · rw [heq]
    exact .inl rfl
  · obtain ⟨rs, hrs, hquiet⟩ := calls_history (s.fire t.clock t p) p.calls
    refine .inr ⟨t, ht, hactive, rs, ?_, hquiet, fun hdown hends => ?_⟩
    · have hfinish : (((s.fire t.clock t p).calls p.calls).finish t.clock t p).history =
          ((s.fire t.clock t p).calls p.calls).history := by
        unfold finish
        split <;> rfl
      rw [heq, hfinish, hrs]
      exact List.append_assoc s.history [.fired t p.now] rs
    · rw [heq]
      exact fun u hu => id_ne_of_fired h ht hactive hexpired hdown (hends hdown t.clock hupdating t htop) hu

/-- **What a step adds to the history**, and what it does to the timers in shutdown mode: entries that tell of no firing;
or that shutdown begins, and only the timers that are due stay active; or a firing, after which the timer is active only if
it goes on. -/
theorem step_history (h : s.manager.Owned none) (e : TimerEvent) :
    ∃ rs, (s.step e).history = s.history ++ rs ∧
      (s.manager.shuttingDown = true → (s.step e).manager.shuttingDown = true ∧ Fewer s.manager (s.step e).manager) ∧
      ((∀ r ∈ rs, r.quiet = true) ∨
       (∃ due, rs = [.shutdown due] ∧ (s.step e).manager.shuttingDown = true ∧
         ∀ u ∈ (s.step e).manager.allTimers, u.active = true → u.id ∈ due) ∨
       ∃ t ∈ s.manager.allTimers, t.active = true ∧ ∃ now rs', rs = .fired t now :: rs' ∧ (∀ r ∈ rs', r.quiet = true) ∧
         (s.manager.shuttingDown = true → s.EndsLoops e →
           ∀ u ∈ (s.step e).manager.allTimers, u.active = true → u.id ≠ t.id)) := by
  have hfewer : Fewer s.manager s.manager := fun w hw hactive => ⟨w, hw, hactive, rfl⟩
  have hnil : s.history = s.history ++ [] := (List.append_nil _).symm
  unfold step
  split
  · obtain ⟨rs, hrs, hquiet⟩ := calls_history s [(_, _)]
    exact ⟨rs, hrs, call_down h _ _, .inl hquiet⟩
  · exact ⟨_, rfl, fun _ => ⟨rfl, fun w hw hactive => ⟨w, (mem_due_of_active hw hactive).1, hactive, rfl⟩⟩,
      .inr (.inl ⟨_, rfl, rfl, fun w hw hactive => (mem_due_of_active hw hactive).2⟩)⟩
  · exact ⟨[], hnil, fun hdown => ⟨hdown, hfewer⟩, .inl (by simp)⟩
  · rename_i clock p hupdating
    rcases pass_history (p := p) h hupdating with heq | ⟨t, ht, hactive, rs, heq, hquiet, hends⟩
    · exact ⟨[], by rw [heq, List.append_nil], pass_down h, .inl (by simp)⟩
    · exact ⟨_, heq, pass_down h, .inr (.inr ⟨t, ht, hactive, p.now, rs, rfl, hquiet, hends⟩)⟩
  · exact ⟨[], hnil, fun hdown => ⟨hdown, hfewer⟩, .inl (by simp)⟩

/-! ## Runs -/

/-- The timers that are still active were due when shutdown began. -/
def OnlyDue (m : TimerManager) (due : List Int) (after : List TimerEntry) : Prop :=
  (∀ t now, .fired t now ∈ after → t.id ∈ due) ∧ ∀ u ∈ m.allTimers, u.active = true → u.id ∈ due

/-- The timers that are still active have not been fired since. -/
def OnceSince (m : TimerManager) (_ : List Int) (after : List TimerEntry) : Prop :=
  (∀ timerId, firings timerId after ≤ 1) ∧ ∀ u ∈ m.allTimers, u.active = true → firings u.id after = 0

/-- Shutdown mode is never left. -/
def Marked (s : TimerSystem) : Prop := ∀ due, .shutdown due ∈ s.history → s.manager.shuttingDown = true

theorem marked_step (h : s.manager.Owned none) (hmarked : s.Marked) (e : TimerEvent) : (s.step e).Marked := by
  obtain ⟨rs, heq, hdown, hrs⟩ := step_history h e
  intro due hdue
  rw [heq, List.mem_append] at hdue
  rcases hdue with hdue | hdue
  · exact (hdown (hmarked due hdue)).1
  · rcases hrs with hquiet | ⟨-, -, hdown', -⟩ | ⟨t, -, -, now, rs', rfl, hquiet, -⟩
    · exact absurd hdue (notMem_of_quiet hquiet rfl)
    · exact hdown'
    · exact absurd hdue (shutdown_notMem hquiet due)

theorem onlyDue_step (h : s.manager.Owned none) (hmarked : s.Marked) (hs : Since (OnlyDue s.manager) s.history)
    (e : TimerEvent) : Since (OnlyDue (s.step e).manager) (s.step e).history := by
  obtain ⟨rs, heq, hdown, hrs⟩ := step_history h e
  have hleft : ∀ due after, .shutdown due ∈ s.history → OnlyDue s.manager due after →
      ∀ w ∈ (s.step e).manager.allTimers, w.active = true → w.id ∈ due := by
    rintro due after hmem ⟨-, hactive⟩ w hw hwactive
    obtain ⟨u, hu, huactive, hid⟩ := (hdown (hmarked due hmem)).2 w hw hwactive
    exact hid ▸ hactive u hu huactive
  rw [heq]
  rcases hrs with hquiet | ⟨now, rfl, -, hdue⟩ | ⟨t, ht, htactive, now, rs', rfl, hquiet, -⟩
  · refine hs.append (fun due => notMem_of_quiet hquiet rfl) fun due after hmem honly => ?_
    refine ⟨fun t now ht => ?_, hleft due after hmem honly⟩
    rcases List.mem_append.1 ht with ht | ht
    · exact honly.1 t now ht
    · exact absurd ht (notMem_of_quiet hquiet rfl)
  · refine hs.shutdown ⟨by simp, hdue⟩ fun due after hmem honly => ⟨fun t now ht => ?_, hleft due after hmem honly⟩
    exact honly.1 t now (by simpa using ht)
  · refine hs.append (shutdown_notMem hquiet) fun due after hmem honly => ?_
    refine ⟨fun u now' hu => ?_, hleft due after hmem honly⟩
    rcases List.mem_append.1 hu with hu | hu
    · exact honly.1 u now' hu
    · rcases List.mem_cons.1 hu with heq | hu
      · obtain ⟨rfl, -⟩ := TimerEntry.fired.inj heq
        exact honly.2 u ht htactive
      · exact absurd hu (notMem_of_quiet hquiet rfl)

theorem onceSince_step (h : s.manager.Owned none) (hmarked : s.Marked) (hs : Since (OnceSince s.manager) s.history)
    (e : TimerEvent) (hends : s.EndsLoops e) : Since (OnceSince (s.step e).manager) (s.step e).history := by
  obtain ⟨rs, heq, hdown, hrs⟩ := step_history h e
  have hleft : ∀ due after, .shutdown due ∈ s.history → OnceSince s.manager due after →
      ∀ w ∈ (s.step e).manager.allTimers, w.active = true → firings w.id after = 0 := by
    rintro due after hmem ⟨-, hactive⟩ w hw hwactive
    obtain ⟨u, hu, huactive, hid⟩ := (hdown (hmarked due hmem)).2 w hw hwactive
    exact hid ▸ hactive u hu huactive
  rw [heq]
  rcases hrs with hquiet | ⟨now, rfl, -, -⟩ | ⟨t, ht, htactive, now, rs', rfl, hquiet, hnot⟩
  · refine hs.append (fun due => notMem_of_quiet hquiet rfl) fun due after hmem honce => ?_
    simp only [OnceSince, firings_append, firings_of_quiet hquiet, Nat.add_zero]
    exact ⟨honce.1, hleft due after hmem honce⟩
  · refine hs.shutdown ⟨fun _ => Nat.zero_le _, fun _ _ _ => rfl⟩ fun due after hmem honce => ?_
    simp only [OnceSince, firings_concat, TimerEntry.fires, Bool.false_eq_true, if_false, Nat.add_zero]
    exact ⟨honce.1, hleft due after hmem honce⟩
  · refine hs.append (shutdown_notMem hquiet) fun due after hmem honce => ?_
    have hfired : ∀ timerId, firings timerId (after ++ .fired t now :: rs') =
        firings timerId after + if t.id = timerId then 1 else 0 := by
      intro timerId
      rw [← List.singleton_append, ← List.append_assoc, firings_append, firings_of_quiet hquiet, firings_concat]
      simp [TimerEntry.fires]
    refine ⟨fun timerId => ?_, fun w hw hwactive => ?_⟩
    · rw [hfired]
      split
      · rename_i hid
        rw [← hid, honce.2 t ht htactive]
      · exact honce.1 timerId
    · have hother : t.id ≠ w.id := (hnot (hmarked due hmem) hends w hw hwactive).symm
      rw [hfired, if_neg hother]
      exact hleft due after hmem honce w hw hwactive

/-- **Only timers that were due when shutdown began are fired after it**, in every run. -/
theorem onlyDue_run (es : List TimerEvent) :
    Since (fun due after => ∀ t now, .fired t now ∈ after → t.id ∈ due) (es.foldl step {}).history := by
  have hrun := Run.foldl_of_step
    (fun s : TimerSystem => s.manager.Owned none ∧ s.Marked ∧ Since (OnlyDue s.manager) s.history)
    (fun _ e hs => ⟨owned_step hs.1 e, marked_step hs.1 hs.2.1 e, onlyDue_step hs.1 hs.2.1 hs.2.2 e⟩) es
    (s := {}) ⟨.init, by simp [Marked], by simp [Since]⟩
  exact fun before due after hsplit => (hrun.2.2 before due after hsplit).1

/-- **In every run in which no timer goes on in shutdown mode**, only timers that were due when it began are fired after it,
and each once at most. -/
theorem shutdown_run (es : List TimerEvent) (h : Along step EndsLoops {} es) : Always step ShutsDown {} es := by
  have hstep : ∀ (s : TimerSystem) (e : TimerEvent), s.manager.Owned none ∧ s.Marked ∧
      Since (OnlyDue s.manager) s.history ∧ Since (OnceSince s.manager) s.history → s.EndsLoops e →
      (s.step e).manager.Owned none ∧ (s.step e).Marked ∧ Since (OnlyDue (s.step e).manager) (s.step e).history ∧
        Since (OnceSince (s.step e).manager) (s.step e).history := by
    rintro s e ⟨howned, hmarked, honly, honce⟩ hends
    exact ⟨owned_step howned e, marked_step howned hmarked e, onlyDue_step howned hmarked honly e,
      onceSince_step howned hmarked honce e hends⟩
  refine (Run.always_inv hstep es ⟨.init, by simp [Marked], by simp [Since], by simp [Since]⟩ h).mono ?_
  rintro s ⟨-, -, honly, honce⟩ before due after hsplit
  exact ⟨(honly before due after hsplit).1, (honce before due after hsplit).1⟩

/-- A timer that loops and ends itself, and one that is not due. -/
theorem shutdown_run_ends : Always step ShutsDown {}
    [.call ⟨0, 0⟩ (.registerTimer 1 true), .call ⟨0, 0⟩ (.registerTimer 9 false),
      .enterShutdownMode fun _ => ⟨2000000, 2000000⟩, .update ⟨2000000, 2000000⟩,
      .pass ⟨⟨2000000, 2000000⟩, [(⟨2000000, 2000000⟩, .unRegisterTimer 1)], ⟨2000000, 2000000⟩⟩,
      .pass ⟨⟨9000000, 9000000⟩, [], ⟨9000000, 9000000⟩⟩, .pass ⟨⟨9000000, 9000000⟩, [], ⟨9000000, 9000000⟩⟩] :=
  shutdown_run _ (by decide)

/-- A timer that loops, in two frames after shutdown began. -/
def loopsOn : List TimerEvent :=
  [.call ⟨0, 0⟩ (.registerTimer 1 true), .enterShutdownMode fun _ => ⟨2000000, 2000000⟩, .update ⟨2000000, 2000000⟩,
    .pass ⟨⟨2000000, 2000000⟩, [], ⟨2000000, 2000000⟩⟩, .pass ⟨⟨2000000, 2000000⟩, [], ⟨2000000, 2000000⟩⟩,
    .pass ⟨⟨2000000, 2000000⟩, [], ⟨2000000, 2000000⟩⟩, .update ⟨4000000, 4000000⟩,
    .pass ⟨⟨4000000, 4000000⟩, [], ⟨4000000, 4000000⟩⟩]

theorem not_shutdown_run : ¬∀ es, Always step ShutsDown {} es := by
  intro h
  have hlast := Run.always_iff_take.1 (h loopsOn) 8
  have honce := (hlast [.registered ⟨.steady, true, 1, true, 1, 1000000⟩ ⟨0, 0⟩] [1]
    [.fired ⟨.steady, true, 1, true, 1, 1000000⟩ ⟨2000000, 2000000⟩,
      .fired ⟨.steady, true, 1, true, 1, 3000000⟩ ⟨4000000, 4000000⟩] rfl).2 1
  exact absurd honce (by decide)

end TimerSystem

end Gb
