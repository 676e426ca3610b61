import GbServer.RpcRefusals
/-!
# RpcTimers — the timer that a call ends by

The handler of a timer takes the call object for its own call if the state is `Pending`, and `Call` makes it so again; a
handler that is queued stays queued when its timer is cancelled.  So a handler that is left of an earlier call ends the
later one.  A call ends by its own timer where every call finds nothing left of the timers of its object (`Untimed`), and a
call that finds something left can end by it (`run_ownTimers`).

The record beside the system says which call each wait was started for, and which calls ended by which.
-/
namespace Gb

open Run (Along recorded along_recorded)
open Tally

/-- The waits with the calls that started them, and the calls that ended with a timeout with the calls whose timer it was. -/
structure TimerRecord where
  armed    : List (Wait × CallRun) := []
  timeouts : List (CallRun × CallRun) := []

namespace RpcSystem

/-- What an action does with the waits. -/
def rearm (s : RpcSystem) (armed : List (Wait × CallRun)) : Action → List (Wait × CallRun)
  | .startTimer run _ =>
    if (s.calls run.1).session = none ∨ (s.calls run.1).timerHandle = false then armed
    else (⟨run.1, false⟩, run) :: armed.filter fun a => a.1.call ≠ run.1 ∨ a.1.fired
  | .stopTimer c      =>
    if (s.calls c).timerHandle then armed.filter fun a => a.1.call ≠ c ∨ a.1.fired else armed
  | _                 => armed

def recordTimers (s : RpcSystem) (event : RpcEvent) (r : TimerRecord) : TimerRecord :=
  match event with
  | .fired k     => { r with armed := r.armed.modify k fun a => ({ a.1 with fired := true }, a.2) }
  | .expired _ k =>
    match r.armed[k]? with
    | some (wait, run) =>
      if wait.fired then
        { armed    := r.armed.eraseIdx k
          timeouts := if (s.calls wait.call).state = .pending then
              ((wait.call, (s.calls wait.call).generation), run) :: r.timeouts
            else r.timeouts }
      else r
    | none => r
  | .acted k     =>
    match s.ops[k]? with
    | some (_, action :: _) => { r with armed := s.rearm r.armed action }
    | _                     => r
  | _            => r

/-- A system with what it did with timers. -/
abbrev TimedSystem := RpcSystem × TimerRecord

def timedStep : TimedSystem → RpcEvent → TimedSystem := recorded step recordTimers

/-- Every call that ended with a timeout ended by its own timer. -/
def OwnTimers (r : TimedSystem) : Prop := ∀ t ∈ r.2.timeouts, t.2 = t.1

/-! ## The record follows the system -/

theorem complete_waits {s t : RpcSystem} {c : CallId} {outcome : Outcome} {run : CallRun}
    (hc : s.complete c outcome = some (run, t)) : t.waits = s.waits := by
  unfold complete at hc
  split at hc
  · simp only [Option.some.injEq, Prod.mk.injEq] at hc
    obtain ⟨_, rfl⟩ := hc
    rfl
  · cases hc

theorem send_waits (s : RpcSystem) (run : CallRun) (m : Meta) : (s.send run m).waits = s.waits := by
  unfold send
  split <;> rfl

theorem map_cancelled {armed : List (Wait × CallRun)} {waits : List Wait} (h : armed.map Prod.fst = waits) (c : CallId) :
    (armed.filter fun a => a.1.call ≠ c ∨ a.1.fired).map Prod.fst = waits.filter fun wait => wait.call ≠ c ∨ wait.fired := by
  rw [← h, List.filter_map]
  rfl

theorem act_waits (s : RpcSystem) {armed : List (Wait × CallRun)} (h : armed.map Prod.fst = s.waits) (a : Action) :
    (s.rearm armed a).map Prod.fst = (s.act a).1.waits := by
  cases a with
  | startTimer run m =>
    by_cases hnone : (s.calls run.1).session = none ∨ (s.calls run.1).timerHandle = false
    · have hrearm : s.rearm armed (.startTimer run m) = armed := by simp [rearm, hnone]
      rw [hrearm, h]
      cases hc : s.complete run.1 .invalidRequest with
      | none    => simp [act, hnone, hc]
      | some rs => simpa [act, hnone, hc] using (complete_waits hc).symm
    · simp only [rearm, if_neg hnone, act, send_waits, List.map_cons, map_cancelled h, cancelWaits]
  | stopTimer c =>
    simp only [rearm, act, stopTimer]
    split
    · rw [map_cancelled h]
      rfl
    · exact h
  | done c session m =>
    rcases s.act_done_cases c session m with ⟨_, hact⟩ | ⟨rs, hc, hact⟩
    · rw [hact]
      exact h
    · rw [hact, complete_waits hc]
      exact h
  | send run m => simpa only [rearm, act, send_waits] using h
  | postTimeout run =>
    simp only [rearm, act]
    split <;> exact h
  | post worker task =>
    simp only [rearm, act]
    split <;> exact h
  | _ => exact h

theorem runTask_waits (s : RpcSystem) (worker : Nat) (task : RpcTask) : (s.runTask worker task).1.waits = s.waits := by
  cases task with
  | response session m localSeq =>
    rcases s.runTask_response_cases worker session m localSeq with hrun | ⟨c, _, hrun⟩ <;> rw [hrun]
  | _ => rfl

/-- The calls of the record are beside the waits that they started. -/
theorem armed_step (s : RpcSystem) {r : TimerRecord} (h : r.armed.map Prod.fst = s.waits) (event : RpcEvent) :
    (s.recordTimers event r).armed.map Prod.fst = (s.step event).waits := by
  cases event with
  | acted k =>
    rcases hop : s.ops[k]? with _ | ⟨thread, _ | ⟨a, rest⟩⟩
    · simpa [recordTimers, step, hop] using h
    · simpa [recordTimers, step, hop] using h
    · simpa [recordTimers, step, hop] using s.act_waits h a
  | fired k =>
    simp only [recordTimers, step, ← h]
    apply List.ext_getElem?
    intro j
    simp only [List.getElem?_map, List.getElem?_modify]
    cases r.armed[j]? with
    | none   => rfl
    | some a => by_cases hj : k = j <;> simp [hj]
  | expired io k =>
    have hwait : s.waits[k]? = (r.armed[k]?).map Prod.fst := by rw [← h, List.getElem?_map]
    simp only [recordTimers, step, hwait]
    cases r.armed[k]? with
    | none   => exact h
    | some a =>
      obtain ⟨wait, run⟩ := a
      simp only [Option.map_some]
      split
      · have herased : (r.armed.eraseIdx k).map Prod.fst = s.waits.eraseIdx k := by rw [← h, List.eraseIdx_map]
        cases hc : { s with waits := s.waits.eraseIdx k }.complete wait.call .timeout with
        | none    => exact herased
        | some rs => exact herased.trans (complete_waits hc).symm
      · exact h
  | created =>
    simp only [recordTimers, step]
    split <;> exact h
  | changed worker event => cases event <;> exact h
  | called worker c m =>
    simp only [recordTimers, step]
    split
    · cases hw : s.workers[worker]? <;> simpa [callImpl, hw, RpcSystem.begin, modifyCall] using h
    · exact h
  | cancelled thread c =>
    simp only [recordTimers, step]
    cases hc : s.complete c .cancel with
    | none    => exact h
    | some rs => exact h.trans (complete_waits hc).symm
  | received io session m =>
    simp only [recordTimers, step]
    split <;> exact h
  | worked worker k =>
    simp only [recordTimers, step]
    cases hw : s.workers[worker]? with
    | none   => exact h
    | some w =>
      dsimp only
      split
      · cases htask : w.events[k]? with
        | none      => exact h
        | some task =>
          let popped := { s with workers := s.workers.modify worker fun w => { w with events := w.events.eraseIdx k } }
          exact h.trans (popped.runTask_waits worker task).symm
      · exact h
  | _ => exact h

/-- The calls that ended with a timeout. -/
def timedOut (s : RpcSystem) : List CallRun := (s.left.filter fun l => l.2 = .timeout).map Prod.fst

theorem complete_timedOut {s t : RpcSystem} {c : CallId} {outcome : Outcome} {run : CallRun}
    (hc : s.complete c outcome = some (run, t)) :
    t.timedOut = if outcome = .timeout then run :: s.timedOut else s.timedOut := by
  obtain ⟨_, _, hleft⟩ := complete_eq hc
  unfold timedOut
  rw [hleft]
  by_cases houtcome : outcome = .timeout <;> simp [houtcome]

theorem timedOut_congr {s t : RpcSystem} (h : t.left = s.left) : t.timedOut = s.timedOut := by
  rw [timedOut, h, timedOut]

theorem act_timedOut (s : RpcSystem) (a : Action) : (s.act a).1.timedOut = s.timedOut := by
  cases a with
  | startTimer run m =>
    rcases s.act_startTimer_cases run m with hact | ⟨rs, hc, hact⟩ | hact
    · rw [hact]
    · rw [hact, complete_timedOut hc, if_neg Outcome.noConfusion]
    · rw [hact]
      exact timedOut_congr (send_books _ run m).1
  | send run m => exact timedOut_congr (s.send_books run m).1
  | done c session m =>
    rcases s.act_done_cases c session m with ⟨_, hact⟩ | ⟨rs, hc, hact⟩
    · rw [hact]
    · rw [hact, complete_timedOut hc, if_neg Outcome.noConfusion]
  | stopTimer c => exact timedOut_congr (s.stopTimer_books c).1
  | postTimeout run =>
    simp only [act]
    split <;> rfl
  | post worker task =>
    simp only [act]
    split <;> rfl
  | _ => rfl

/-- The timeouts of the record are those that happened. -/
theorem timeouts_step (s : RpcSystem) {r : TimerRecord} (h : r.armed.map Prod.fst = s.waits)
    (htimeouts : r.timeouts.map Prod.fst = s.timedOut) (event : RpcEvent) :
    (s.recordTimers event r).timeouts.map Prod.fst = (s.step event).timedOut := by
  cases event with
  | expired io k =>
    have hwait : s.waits[k]? = (r.armed[k]?).map Prod.fst := by rw [← h, List.getElem?_map]
    simp only [recordTimers, step, hwait]
    cases r.armed[k]? with
    | none   => exact htimeouts
    | some a =>
      obtain ⟨wait, run⟩ := a
      simp only [Option.map_some]
      split
      · cases hc : { s with waits := s.waits.eraseIdx k }.complete wait.call .timeout with
        | none    =>
          have hpending : (s.calls wait.call).state ≠ .pending := fun hpending => by simp [complete, hpending] at hc
          simp only [if_neg hpending]
          exact htimeouts
        | some rs =>
          obtain ⟨hpending, hrun, _⟩ := complete_eq hc
          have htimedOut := complete_timedOut hc
          rw [if_pos rfl, hrun] at htimedOut
          simp only [if_pos hpending, List.map_cons, htimeouts]
          exact htimedOut.symm
      · exact htimeouts
  | acted k =>
    rcases hop : s.ops[k]? with _ | ⟨thread, _ | ⟨a, rest⟩⟩
    · simpa [recordTimers, step, hop] using htimeouts
    · simpa [recordTimers, step, hop] using htimeouts
    · simp only [recordTimers, step, hop]
      exact htimeouts.trans (s.act_timedOut a).symm
  | created =>
    simp only [recordTimers, step]
    split <;> exact htimeouts
  | changed worker event => cases event <;> exact htimeouts
  | called worker c m =>
    simp only [recordTimers, step]
    split
    · exact htimeouts.trans (timedOut_congr (s.callImpl_books worker c m).2.1).symm
    · exact htimeouts
  | cancelled thread c =>
    simp only [recordTimers, step]
    cases hc : s.complete c .cancel with
    | none    => exact htimeouts
    | some rs =>
      have htimedOut := complete_timedOut hc
      rw [if_neg Outcome.noConfusion] at htimedOut
      exact htimeouts.trans htimedOut.symm
  | received io session m =>
    simp only [recordTimers, step]
    split <;> exact htimeouts
  | worked worker k =>
    simp only [recordTimers, step]
    cases hw : s.workers[worker]? with
    | none   => exact htimeouts
    | some w =>
      dsimp only
      split
      · cases htask : w.events[k]? with
        | none      => exact htimeouts
        | some task =>
          have hleft : ∀ p : RpcSystem, (p.runTask worker task).1.left = p.left := fun p => by
            cases task with
            | response session m localSeq =>
              rcases p.runTask_response_cases worker session m localSeq with hrun | ⟨c, _, hrun⟩ <;> rw [hrun]
            | _ => rfl
          let popped := { s with workers := s.workers.modify worker fun w => { w with events := w.events.eraseIdx k } }
          exact htimeouts.trans (timedOut_congr (hleft popped)).symm
      · exact htimeouts
  | _ => exact htimeouts

/-- **In every run, the record names the waits that there are and the timeouts that there were.** -/
theorem run_timed (events : List RpcEvent) :
    let r := events.foldl timedStep ({}, {})
    r.2.armed.map Prod.fst = r.1.waits ∧ r.2.timeouts.map Prod.fst = r.1.timedOut :=
  Run.foldl_of_step (fun r : TimedSystem => r.2.armed.map Prod.fst = r.1.waits ∧ r.2.timeouts.map Prod.fst = r.1.timedOut)
    (fun r event h => ⟨r.1.armed_step h.1 event, r.1.timeouts_step h.1 h.2 event⟩) events ⟨rfl, rfl⟩

/-! ## What is left of the timers of an object -/

/-- No wait of the object is there, and none of its requests is to start its timer. -/
def Untimed (s : RpcSystem) (c : CallId) : Prop :=
  (∀ wait ∈ s.waits, wait.call ≠ c) ∧ ∀ op ∈ s.ops, ∀ g m, .startTimer (c, g) m ∉ op.2

/-- A call finds nothing left of the timers of its object. -/
def CallsUntimed (s : RpcSystem) : RpcEvent → Prop
  | .called worker c _ => s.MayCall (.worker worker) → (s.workers[worker]?).isSome = true → s.Untimed c
  | _                  => True

/-- Waits and requests to come are of calls of their objects, as `R` says of the number of the call and that of the last
call; and a request starts its timer at once. -/
structure Stamped (R : Nat → Nat → Prop) (r : TimedSystem) : Prop where
  waits  : r.2.armed.map Prod.fst = r.1.waits
  armed  : ∀ a ∈ r.2.armed, a.2.1 = a.1.call ∧ R a.2.2 (r.1.calls a.1.call).generation
  starts : ∀ op ∈ r.1.ops, ∀ run m, .startTimer run m ∈ op.2 → R run.2 (r.1.calls run.1).generation
  first  : ∀ op ∈ r.1.ops, ∀ run m, .startTimer run m ∉ op.2.tail

namespace Stamped

variable {R : Nat → Nat → Prop} {r : TimedSystem} {s : RpcSystem} {record : TimerRecord}

theorem init : Stamped R ({}, {}) where
  waits  := rfl
  armed  := fun _ ha => nomatch ha
  starts := fun _ hop => nomatch hop
  first  := fun _ hop => nomatch hop

/-- What is armed was armed before, or by the request that starts its timer. -/
theorem mem_armed {event : RpcEvent} {a : Wait × CallRun} (ha : a ∈ (s.recordTimers event record).armed) :
    (∃ b ∈ record.armed, a.2 = b.2 ∧ a.1.call = b.1.call) ∨
      a.1.call = a.2.1 ∧ ∃ op ∈ s.ops, ∃ m, .startTimer a.2 m ∈ op.2 := by
  cases event with
  | acted k =>
    rcases hop : s.ops[k]? with _ | ⟨thread, _ | ⟨action, rest⟩⟩
    · exact .inl ⟨a, by simpa [recordTimers, hop] using ha, rfl, rfl⟩
    · exact .inl ⟨a, by simpa [recordTimers, hop] using ha, rfl, rfl⟩
    · simp only [recordTimers, hop] at ha
      cases action with
      | startTimer run m =>
        simp only [rearm] at ha
        split at ha
        · exact .inl ⟨a, ha, rfl, rfl⟩
        · rcases List.mem_cons.1 ha with rfl | ha
          · exact .inr ⟨rfl, _, List.mem_of_getElem? hop, m, List.mem_cons_self⟩
          · exact .inl ⟨a, List.mem_of_mem_filter ha, rfl, rfl⟩
      | stopTimer c      =>
        simp only [rearm] at ha
        split at ha
        · exact .inl ⟨a, List.mem_of_mem_filter ha, rfl, rfl⟩
        · exact .inl ⟨a, ha, rfl, rfl⟩
      | _                => exact .inl ⟨a, ha, rfl, rfl⟩
  | fired k =>
    obtain ⟨j, hj⟩ := List.mem_iff_getElem?.1 ha
    obtain ⟨b, hb, ⟨_, rfl⟩ | ⟨_, rfl⟩⟩ := of_getElem?_modify hj
    · exact .inl ⟨b, List.mem_of_getElem? hb, rfl, rfl⟩
    · exact .inl ⟨a, List.mem_of_getElem? hb, rfl, rfl⟩
  | expired io k =>
    simp only [recordTimers] at ha
    split at ha
    · split at ha
      · exact .inl ⟨a, List.mem_of_mem_eraseIdx ha, rfl, rfl⟩
      · exact .inl ⟨a, ha, rfl, rfl⟩
    · exact .inl ⟨a, ha, rfl, rfl⟩
  | _ => exact .inl ⟨a, ha, rfl, rfl⟩

/-- Where no call is made, the requests that are to start their timers were to start them before. -/
theorem mem_ops {event : RpcEvent} (hcall : ¬s.Calls event) {op : Thread × List Action} (hop : op ∈ (s.step event).ops) :
    op ∈ s.ops ∨ ∀ run m, .startTimer run m ∈ op.2 → ∃ op' ∈ s.ops, .startTimer run m ∈ op'.2.tail := by
  by_cases hrequest : s.Requests event
  · obtain ⟨k, thread, a, rest, rfl, hk, ha⟩ := hrequest
    simp only [step, hk] at hop
    rcases List.mem_or_eq_of_mem_set hop with hop | rfl
    · exact .inl hop
    · refine .inr fun run m hmem => ⟨_, List.mem_of_getElem? hk, ?_⟩
      rcases List.mem_append.1 hmem with hmem | hmem
      · cases a with
        | startTimer run' m' =>
          rcases s.act_startTimer_cases run' m' with hact | ⟨rs, _, hact⟩ | hact <;> simp [hact, finish] at hmem
        | send run' m'       => simp [act] at hmem
        | _                  => cases ha
      · exact hmem
  · rcases (step_silent hcall hrequest).ops op hop with hop | hop
    · exact .inl hop
    · exact .inr fun run m hmem => hop _ hmem rfl

/-- A step that makes no call. -/
theorem quiet (h : Stamped R (s, record)) {event : RpcEvent} (hcall : ¬s.Calls event) :
    Stamped R (timedStep (s, record) event) := by
  have hgen := (step_recedes hcall).generation
  refine ⟨s.armed_step h.waits event, fun a ha => ?_, fun op hop run m hmem => ?_, fun op hop run m hmem => ?_⟩
  · change a.2.1 = a.1.call ∧ R a.2.2 ((s.step event).calls a.1.call).generation
    rw [hgen]
    rcases mem_armed ha with ⟨b, hb, hrun, hcall⟩ | ⟨hcall, op, hop, m, hmem⟩
    · rw [hrun, hcall]
      exact h.armed b hb
    · rw [hcall]
      exact ⟨rfl, h.starts op hop a.2 m hmem⟩
  · change R run.2 ((s.step event).calls run.1).generation
    rw [hgen]
    rcases mem_ops hcall hop with hop | hop
    · exact h.starts op hop run m hmem
    · obtain ⟨op', hop', hmem'⟩ := hop run m hmem
      exact h.starts op' hop' run m (List.mem_of_mem_tail hmem')
  · rcases mem_ops hcall hop with hop | hop
    · exact h.first op hop run m hmem
    · obtain ⟨op', hop', hmem'⟩ := hop run m (List.mem_of_mem_tail hmem)
      exact h.first op' hop' run m hmem'

/-- A call is made, which is later than those before. -/
theorem called (h : Stamped R (s, record)) (hR : ∀ g, R g g) {worker : Nat} {c : CallId} {m : Meta} {w : Worker RpcTask}
    (hw : s.workers[worker]? = some w) (hnext : s.Untimed c ∨ ∀ g g', R g g' → R g (g' + 1)) :
    Stamped R (s.callImpl worker c m, record) := by
  have hmade := callImpl_made c m hw
  have hwaits : (s.callImpl worker c m).waits = s.waits := by simp [callImpl, hw, RpcSystem.begin, modifyCall]
  have hops : ∀ op ∈ (s.callImpl worker c m).ops, op ∈ s.ops ∨
      ∃ m', op.2 = [.startTimer (c, (s.calls c).generation + 1) m'] := by
    intro op hop
    simp only [callImpl, hw, RpcSystem.begin, modifyCall, List.mem_cons] at hop
    rcases hop with rfl | hop
    · exact .inr ⟨_, rfl⟩
    · exact .inl hop
  refine ⟨h.waits.trans hwaits.symm, fun a ha => ⟨(h.armed a ha).1, ?_⟩, fun op hop run m' hmem => ?_,
    fun op hop run m' hmem => ?_⟩
  · obtain ⟨_, hold⟩ := h.armed a ha
    by_cases hc : a.1.call = c
    · rcases hnext with hnone | hnext
      · have hwait : a.1 ∈ s.waits := h.waits ▸ List.mem_map_of_mem ha
        exact absurd hc (hnone.1 a.1 hwait)
      · rw [hc] at hold ⊢
        dsimp only
        rw [hmade.generation]
        exact hnext _ _ hold
    · dsimp only
      rw [hmade.others _ hc]
      exact hold
  · obtain ⟨c', g⟩ := run
    dsimp only at hop ⊢
    rcases hops op hop with hbefore | ⟨m'', hnew⟩
    · have hold := h.starts op hbefore _ m' hmem
      by_cases hc : c' = c
      · subst hc
        rcases hnext with hnone | hnext
        · exact absurd hmem (hnone.2 op hbefore g m')
        · rw [hmade.generation]
          exact hnext _ _ hold
      · rw [hmade.others _ hc]
        exact hold
    · rw [hnew] at hmem
      simp only [List.mem_singleton, Action.startTimer.injEq, Prod.mk.injEq] at hmem
      obtain ⟨⟨rfl, rfl⟩, _⟩ := hmem
      rw [hmade.generation]
      exact hR _
  · rcases hops op hop with hop | ⟨m'', hop⟩
    · exact h.first op hop run m' hmem
    · rw [hop] at hmem
      cases hmem

theorem step (h : Stamped R (s, record)) (hR : ∀ g, R g g) (event : RpcEvent)
    (hnext : s.CallsUntimed event ∨ ∀ g g', R g g' → R g (g' + 1)) : Stamped R (timedStep (s, record) event) := by
  by_cases hcall : s.Calls event
  · obtain ⟨worker, c, m, rfl, hmay, hworker⟩ := hcall
    obtain ⟨w, hw⟩ := Option.isSome_iff_exists.1 hworker
    have hstep : timedStep (s, record) (.called worker c m) = (s.callImpl worker c m, record) := by
      simp [timedStep, recorded, recordTimers, RpcSystem.step, hmay]
    rw [hstep]
    exact h.called hR hw (hnext.imp_left fun hcalls => hcalls hmay hworker)
  · exact h.quiet hcall

/-- A timeout is of the call whose timer it was, where what is there is of the last calls. -/
theorem ownTimers (h : Stamped (· = ·) (s, record)) (hown : OwnTimers (s, record)) (event : RpcEvent) :
    OwnTimers (timedStep (s, record) event) := by
  intro t ht
  cases event with
  | expired io k =>
    change t ∈ (s.recordTimers (.expired io k) record).timeouts at ht
    simp only [recordTimers] at ht
    split at ht
    · rename_i wait run hwait
      obtain ⟨hcall, hgen⟩ := h.armed _ (List.mem_of_getElem? hwait)
      have hnew : t = ((wait.call, (s.calls wait.call).generation), run) ∨ t ∈ record.timeouts := by
        split at ht
        · dsimp only at ht
          split at ht
          · exact List.mem_cons.1 ht
          · exact .inr ht
        · exact .inr ht
      rcases hnew with rfl | ht
      · exact Prod.ext hcall hgen
      · exact hown t ht
    · exact hown t ht
  | acted k =>
    change t ∈ (s.recordTimers (.acted k) record).timeouts at ht
    simp only [recordTimers] at ht
    split at ht <;> exact hown t ht
  | _ => exact hown t ht

end Stamped

/-! ## Where something is left -/

variable {s : RpcSystem} {record : TimerRecord}

/-- A wait of an earlier call fires while a later one is pending. -/
theorem not_ownTimers {k : Nat} {wait : Wait} {run : CallRun} (hwait : record.armed[k]? = some (wait, run))
    (hpending : (s.calls wait.call).state = .pending) (hrun : run ≠ (wait.call, (s.calls wait.call).generation)) :
    ¬OwnTimers ([.fired k, .expired 0 k].foldl timedStep (s, record)) := by
  intro hown
  have htimeout : ((wait.call, (s.calls wait.call).generation), run) ∈
      ([.fired k, .expired 0 k].foldl timedStep (s, record)).2.timeouts := by
    simp [timedStep, recorded, recordTimers, step, hwait, hpending]
  exact hrun (hown _ htimeout)

/-- A request of an earlier call starts its timer while a later one is pending. -/
theorem not_ownTimers_started {k g : Nat} {c : CallId} {m : Meta} {thread : Thread} {rest : List Action}
    (hop : s.ops[k]? = some (thread, .startTimer (c, g) m :: rest)) (hpending : (s.calls c).state = .pending)
    (hg : g ≠ (s.calls c).generation) :
    ¬OwnTimers ([.setSession c (some 0), .acted k, .fired 0, .expired 0 0].foldl timedStep (s, record)) := by
  let armed := s.step (.setSession c (some 0))
  have hnext : armed.ops[k]? = some (thread, .startTimer (c, g) m :: rest) := hop
  have htimer : (armed.calls c).session = some 0 ∧ (armed.calls c).timerHandle = true ∧
      (armed.calls c).state = .pending ∧ (armed.calls c).generation = (s.calls c).generation := by
    simp [armed, step, modifyCall, hpending]
  have hcalls : (armed.step (.acted k)).calls = armed.calls := by
    simp [step, hnext, act, htimer.1, htimer.2.1, (send_books _ _ _).2.2.2, cancelWaits]
  change ¬OwnTimers ([.fired 0, .expired 0 0].foldl timedStep
    (armed.step (.acted k), armed.recordTimers (.acted k) record))
  have harmed : (armed.recordTimers (.acted k) record).armed[0]? = some (⟨c, false⟩, (c, g)) := by
    simp [recordTimers, hnext, rearm, htimer.1, htimer.2.1]
  apply not_ownTimers harmed
  · rw [hcalls]
    exact htimer.2.2.1
  · rw [hcalls]
    dsimp only
    rw [htimer.2.2.2]
    exact fun heq => hg (congrArg Prod.snd heq)

/-- **A call that finds something left of the timers of its object can end by it.** -/
theorem stale_timeout (h : Stamped (· ≤ ·) (s, record)) {worker : Nat} {c : CallId} {m : Meta}
    (hmay : s.MayCall (.worker worker)) (hworker : (s.workers[worker]?).isSome = true) (hleft : ¬s.Untimed c) :
    ∃ more, ¬OwnTimers ((.called worker c m :: more).foldl timedStep (s, record)) := by
  obtain ⟨w, hw⟩ := Option.isSome_iff_exists.1 hworker
  have hstep : timedStep (s, record) (.called worker c m) = (s.callImpl worker c m, record) := by
    simp [timedStep, recorded, recordTimers, step, hmay]
  have hmade : ((s.callImpl worker c m).calls c).state = .pending ∧
      ((s.callImpl worker c m).calls c).generation = (s.calls c).generation + 1 := by
    simp [callImpl, hw, RpcSystem.begin, modifyCall]
  rcases not_and_or.1 hleft with hwaits | hstarts
  · push Not at hwaits
    obtain ⟨wait, hwait, rfl⟩ := hwaits
    obtain ⟨k, hk⟩ := List.mem_iff_getElem?.1 hwait
    obtain ⟨⟨_, run⟩, hrun, rfl⟩ : ∃ a, record.armed[k]? = some a ∧ a.1 = wait := by
      rw [← h.waits, List.getElem?_map] at hk
      simpa using hk
    refine ⟨[.fired k, .expired 0 k], ?_⟩
    rw [List.foldl_cons, hstep]
    refine not_ownTimers hrun hmade.1 fun heq => ?_
    have hold := (h.armed _ (List.mem_of_getElem? hrun)).2
    rw [hmade.2] at heq
    rw [heq] at hold
    dsimp only at hold
    omega
  · push Not at hstarts
    obtain ⟨⟨thread, actions⟩, hop, g, m', hmem⟩ := hstarts
    have hold := h.starts _ hop _ m' hmem
    have hfirst := h.first _ hop (c, g) m'
    cases actions with
    | nil              => cases hmem
    | cons action rest =>
      obtain rfl : .startTimer (c, g) m' = action := (List.mem_cons.1 hmem).resolve_right hfirst
      obtain ⟨j, hj⟩ := List.mem_iff_getElem?.1 hop
      have hnext : (s.callImpl worker c m).ops[j + 1]? = some (thread, .startTimer (c, g) m' :: rest) := by
        simp [callImpl, hw, RpcSystem.begin, modifyCall, hj]
      refine ⟨[.setSession c (some 0), .acted (j + 1), .fired 0, .expired 0 0], ?_⟩
      rw [List.foldl_cons, hstep]
      apply not_ownTimers_started hnext hmade.1
      rw [hmade.2]
      dsimp only at hold
      omega

theorem run_stamped (events : List RpcEvent) : Stamped (· ≤ ·) (events.foldl timedStep ({}, {})) :=
  Run.foldl_of_step (Stamped (· ≤ ·))
    (fun _ event h => h.step Nat.le_refl event (.inr fun _ _ hle => Nat.le_succ_of_le hle)) events .init

/-- **In every run in which every call finds nothing left of the timers of its object, calls end by their own timers; and
any other call can be followed by steps after which one has not.** -/
theorem run_ownTimers (events : List RpcEvent) :
    (Along step CallsUntimed {} events → OwnTimers (events.foldl timedStep ({}, {}))) ∧
      ∀ event, ¬(events.foldl step {}).CallsUntimed event →
        ∃ more, ¬OwnTimers ((events ++ event :: more).foldl timedStep ({}, {})) := by
  constructor
  · intro h
    let inv : TimedSystem → Prop := fun r => Stamped (· = ·) r ∧ OwnTimers r
    have hstep : ∀ r event, inv r → r.1.CallsUntimed event → inv (timedStep r event) := fun r event hr hcalls =>
      ⟨hr.1.step (fun _ => rfl) event (.inl hcalls), hr.1.ownTimers hr.2 event⟩
    have hinv : inv (events.foldl timedStep ({}, {})) :=
      Run.foldl_inv hstep events ⟨.init, fun _ ht => nomatch ht⟩ (along_recorded.2 h)
    exact hinv.2
  · intro event hcalls
    have hstate : (events.foldl (recorded step recordTimers) ({}, {})).1 = events.foldl step {} :=
      Run.foldl_recorded_fst events _
    rw [← hstate] at hcalls
    cases event with
    | called worker c m =>
      unfold CallsUntimed at hcalls
      push Not at hcalls
      obtain ⟨hmay, hworker, hleft⟩ := hcalls
      obtain ⟨more, hmore⟩ := stale_timeout (run_stamped events) (m := m) hmay hworker hleft
      exact ⟨more, by rwa [List.foldl_append]⟩
    | _                 => exact absurd trivial hcalls

/-- A call that ends with a timeout, and another of its object. -/
def timedOutTwice : List RpcEvent :=
  [.created, .setSession 0 (some 5), .called 0 0 .init, .acted 0, .fired 0, .expired 0 0, .acted 0, .acted 0, .acted 0,
    .worked 0 0, .acted 0, .acted 0, .acted 0, .setSession 0 (some 5), .called 0 0 .init, .acted 0, .fired 0, .expired 0 0]

theorem run_ownTimers_timedOutTwice : Along step CallsUntimed {} timedOutTwice ∧
    (timedOutTwice.foldl timedStep ({}, {})).2.timeouts = [((0, 2), (0, 2)), ((0, 1), (0, 1))] ∧
    OwnTimers (timedOutTwice.foldl timedStep ({}, {})) := by
  -- at both calls there are no waits, and no thread has anything to do
  have hquiet : ∀ s : RpcSystem, s.waits = [] → (∀ op ∈ s.ops, op.2 = []) → s.Untimed 0 := by
    intro s hwaits hops
    refine ⟨fun wait hwait => ?_, fun op hop g m hmem => ?_⟩
    · rw [hwaits] at hwait
      cases hwait
    · rw [hops op hop] at hmem
      cases hmem
  have h : Along step CallsUntimed {} timedOutTwice := by
    refine ⟨trivial, trivial, fun _ _ => hquiet _ rfl (by decide), trivial, trivial, trivial, trivial, trivial, trivial,
      trivial, trivial, trivial, trivial, trivial, fun _ _ => hquiet _ rfl (by decide), trivial, trivial, trivial, trivial⟩
  exact ⟨h, rfl, (run_ownTimers timedOutTwice).1 h⟩

/-- A call whose timer fires, and is then answered; the next one ends by the timer of the first. -/
def answeredLate : List RpcEvent :=
  [.created, .setSession 0 (some 5), .called 0 0 .init, .acted 0, .fired 0, .received 0 5 firstResponse, .acted 0, .acted 0,
    .worked 0 0, .acted 0, .acted 0, .acted 0, .setSession 0 (some 5), .called 0 0 .init, .acted 0, .expired 0 1]

theorem not_run_ownTimers : ¬∀ events : List RpcEvent, OwnTimers (events.foldl timedStep ({}, {})) := by
  intro h
  have htimeouts : (answeredLate.foldl timedStep ({}, {})).2.timeouts = [((0, 2), (0, 1))] := rfl
  have hown := h answeredLate ((0, 2), (0, 1))
  rw [htimeouts] at hown
  exact absurd (hown List.mem_cons_self) (by decide)

end RpcSystem

end Gb
