import GbServer.Lib.Tally
import GbServer.RpcCall
/-!
# RpcCompletion — the callback of a call runs exactly once

Whoever moves a call from `Pending` has its callback to run: the callback is in an operation, in a task of a worker, or
has run.  A step moves callbacks between these, adds the one of a call that it completes, or loses one
(`step_effect`); and it loses one where the timeout of a call is posted to a worker that does not take it or no longer
runs tasks.  So every callback runs exactly once, or waits to, if and only if no timeout is refused
(`run_exactlyOnce_iff`).
-/
namespace Gb

open Run (Along)
open Tally

/-! ## Where a callback is -/

/-- One for the call it is, and zero for the others. -/
def CallRun.one (run x : CallRun) : Nat := if run = x then 1 else 0

def RpcTask.callbacks (x : CallRun) : RpcTask → Nat
  | timeout run => run.one x
  | _           => 0

def Action.callbacks (x : CallRun) : Action → Nat
  | callback run _ => run.one x
  | postTimeout run => run.one x
  | post _ task => task.callbacks x
  | enqueue _ task => task.callbacks x
  | _ => 0

namespace RpcSystem

/-- How often the callback of a call has run. -/
def runs (s : RpcSystem) (x : CallRun) : Nat := tally (fun r => r.1.one x) s.ran

/-- How often it is in a task of a worker that still runs its tasks. -/
def queued (s : RpcSystem) (x : CallRun) : Nat :=
  tally (fun w : Worker RpcTask => if w.exited then 0 else tally (RpcTask.callbacks x) w.events) s.workers

/-- How often it is what an operation has left to do. -/
def onTheWay (s : RpcSystem) (x : CallRun) : Nat :=
  tally (fun op : Thread × List Action => tally (Action.callbacks x) op.2) s.ops

def count (s : RpcSystem) (x : CallRun) : Nat := s.runs x + s.queued x + s.onTheWay x

/-- How often a call has left `Pending`. -/
def leaves (s : RpcSystem) (x : CallRun) : Nat := tally (fun l => l.1.one x) s.left

/-! ## What a step does with callbacks -/

/-- What happens to the calls, where the callbacks there were `before` are those there are `after`. -/
inductive Effect (s s' : RpcSystem) (before after : CallRun → Nat) : Prop
  | quiet (count : ∀ x, after x = before x) (left : s'.left = s.left)
      (calls : ∀ c, (s'.calls c).state = (s.calls c).state ∧ (s'.calls c).generation = (s.calls c).generation)
  | completes (c : CallId) (outcome : Outcome) (pending : (s.calls c).state = .pending)
      (count : ∀ x, after x = before x + CallRun.one (c, (s.calls c).generation) x)
      (left : s'.left = ((c, (s.calls c).generation), outcome) :: s.left) (state : (s'.calls c).state = outcome.state)
      (generation : ∀ c', (s'.calls c').generation = (s.calls c').generation)
      (others : ∀ c', c' ≠ c → (s'.calls c').state = (s.calls c').state)
  | opens (c : CallId) (count : ∀ x, after x = before x) (left : s'.left = s.left)
      (state : (s'.calls c).state = .pending) (generation : (s'.calls c).generation = (s.calls c).generation + 1)
      (others : ∀ c', c' ≠ c → (s'.calls c').state = (s.calls c').state ∧
        (s'.calls c').generation = (s.calls c').generation)

/-- What happens to the calls where a callback is lost. -/
structure Loses (s s' : RpcSystem) (before after : CallRun → Nat) (run : CallRun) : Prop where
  count : ∀ x, after x + run.one x = before x
  left  : s'.left = s.left
  calls : ∀ c, (s'.calls c).state = (s.calls c).state ∧ (s'.calls c).generation = (s.calls c).generation

namespace Effect

variable {s s' : RpcSystem} {before after before' after' : CallRun → Nat}

/-- Only the calls matter. -/
theorem congr {t t' : RpcSystem} (h : Effect s s' before after) (hleft : t.left = s.left) (hcalls : t.calls = s.calls)
    (hleft' : t'.left = s'.left) (hcalls' : t'.calls = s'.calls) : Effect t t' before after := by
  cases h with
  | quiet count left calls => exact .quiet count (by rw [hleft, hleft', left]) (by rwa [hcalls, hcalls'])
  | completes c outcome pending count left state generation others =>
    exact .completes c outcome (by rwa [hcalls]) (by rwa [hcalls]) (by rw [hleft, hleft', hcalls, left]) (by rwa [hcalls'])
      (by rwa [hcalls, hcalls']) (by rwa [hcalls, hcalls'])
  | opens c count left state generation others =>
    exact .opens c count (by rw [hleft, hleft', left]) (by rwa [hcalls']) (by rwa [hcalls, hcalls'])
      (by rwa [hcalls, hcalls'])

/-- The callbacks that are elsewhere. -/
theorem add (h : Effect s s' before after) (d : CallRun → Nat) (hbefore : ∀ x, before' x = before x + d x)
    (hafter : ∀ x, after' x = after x + d x) : Effect s s' before' after' := by
  cases h with
  | quiet count left calls =>
    refine .quiet (fun x => ?_) left calls
    rw [hbefore, hafter, count]
  | completes c outcome pending count left state generation others =>
    refine .completes c outcome pending (fun x => ?_) left state generation others
    rw [hbefore, hafter, count]
    omega
  | opens c count left state generation others =>
    refine .opens c (fun x => ?_) left state generation others
    rw [hbefore, hafter, count]

end Effect

theorem Loses.add {s s' : RpcSystem} {before after before' after' : CallRun → Nat} {run : CallRun}
    (h : Loses s s' before after run) (d : CallRun → Nat) (hbefore : ∀ x, before' x = before x + d x)
    (hafter : ∀ x, after' x = after x + d x) : Loses s s' before' after' run where
  count := fun x => by
    have hx := h.count x
    rw [hbefore, hafter]
    omega
  left  := h.left
  calls := h.calls

/-- The callbacks outside of operations. -/
def settled (s : RpcSystem) (x : CallRun) : Nat := s.runs x + s.queued x

theorem queued_modify (s : RpcSystem) (x : CallRun) (worker : Nat) {f : Worker RpcTask → Worker RpcTask}
    (h : ∀ w, (f w).exited = w.exited ∧ (f w).events = w.events) :
    { s with workers := s.workers.modify worker f }.queued x = s.queued x := by
  unfold queued
  refine tally_modify_of_eq (fun w => ?_) _ _
  rw [(h w).1, (h w).2]

theorem takePendingRpc_queue (localSeq : Nat) (w : Worker RpcTask) :
    (w.takePendingRpc localSeq).2.exited = w.exited ∧ (w.takePendingRpc localSeq).2.events = w.events := ⟨rfl, rfl⟩

theorem modifyCall_calls (s : RpcSystem) (c : CallId) {f : RpcCall → RpcCall}
    (h : ∀ call, (f call).state = call.state ∧ (f call).generation = call.generation) (c' : CallId) :
    ((s.modifyCall c f).calls c').state = (s.calls c').state ∧
      ((s.modifyCall c f).calls c').generation = (s.calls c').generation := by
  unfold modifyCall
  by_cases hc : c' = c
  · subst hc
    simp [h]
  · simp [hc]

/-- The callback of the call that is completed is what the operation is left with. -/
theorem complete_effect {s s' : RpcSystem} {c : CallId} {outcome : Outcome} {run : CallRun}
    (h : s.complete c outcome = some (run, s')) (before after : CallRun → Nat)
    (hcount : ∀ x, after x = before x + run.one x) : Effect s s' before after := by
  unfold complete at h
  by_cases hpending : (s.calls c).state = .pending
  · rw [if_pos hpending] at h
    simp only [Option.some.injEq, Prod.mk.injEq] at h
    obtain ⟨rfl, rfl⟩ := h
    refine .completes c outcome hpending hcount rfl ?_ (fun c' => ?_) fun c' hc => ?_
    · simp [modifyCall]
    · by_cases hc : c' = c
      · subst hc
        simp [modifyCall]
      · simp [modifyCall, hc]
    · simp [modifyCall, hc]
  · rw [if_neg hpending] at h
    cases h

theorem complete_settled {s s' : RpcSystem} {c : CallId} {outcome : Outcome} {run : CallRun}
    (h : s.complete c outcome = some (run, s')) (x : CallRun) :
    s'.settled x = s.settled x ∧ s'.ops = s.ops ∧ s'.workers = s.workers ∧ s'.ran = s.ran := by
  unfold complete at h
  split at h
  · simp only [Option.some.injEq, Prod.mk.injEq] at h
    obtain ⟨_, rfl⟩ := h
    exact ⟨rfl, rfl, rfl, rfl⟩
  · cases h

/-- The action does not lose a callback: the worker of a timeout is there, takes it, and has not come to its end. -/
def Delivers (s : RpcSystem) : Action → Prop
  | .postTimeout run             => (s.calls run.1).workerIndex < s.workers.length
  | .post worker (.timeout _)    => (s.workers[worker]?).any (fun w => w.accepts false) = true
  | .enqueue worker (.timeout _) => (s.workers[worker]?).any (fun w => !w.exited) = true
  | _                            => True

theorem stopTimer_calls (s : RpcSystem) (c c' : CallId) :
    ((s.stopTimer c).calls c').state = (s.calls c').state ∧
      ((s.stopTimer c).calls c').generation = (s.calls c').generation := by
  unfold stopTimer
  split
  · exact @modifyCall_calls (s.cancelWaits c) c (fun call => { call with timerHandle := false }) (fun _ => ⟨rfl, rfl⟩) c'
  · exact ⟨rfl, rfl⟩

theorem stopTimer_books (s : RpcSystem) (c : CallId) :
    (s.stopTimer c).left = s.left ∧ (s.stopTimer c).ran = s.ran ∧ (s.stopTimer c).workers = s.workers := by
  unfold stopTimer
  split <;> exact ⟨rfl, rfl, rfl⟩

theorem send_books (s : RpcSystem) (run : CallRun) (m : Meta) : (s.send run m).left = s.left ∧
    (s.send run m).ran = s.ran ∧ (s.send run m).workers = s.workers ∧ (s.send run m).calls = s.calls := by
  unfold send
  split <;> exact ⟨rfl, rfl, rfl, rfl⟩

theorem settled_congr {s s' : RpcSystem} (hran : s'.ran = s.ran) (hworkers : s'.workers = s.workers) (x : CallRun) :
    s'.settled x = s.settled x := by
  unfold settled runs queued
  rw [hran, hworkers]

/-- A worker that takes a task. -/
theorem queued_enqueue (s : RpcSystem) (x : CallRun) {worker : Nat} {w : Worker RpcTask} (hw : s.workers[worker]? = some w)
    (task : RpcTask) :
    { s with workers := s.workers.modify worker fun w => w.enqueue task }.queued x
      = s.queued x + if w.exited then 0 else task.callbacks x := by
  have htally := tally_modify
    (fun w : Worker RpcTask => if w.exited then 0 else tally (RpcTask.callbacks x) w.events)
    (fun w => w.enqueue task) hw
  unfold queued
  simp only [Worker.enqueue, tally_append, tally_cons, tally_nil] at htally ⊢
  by_cases hexited : w.exited
  · simp only [hexited, if_true] at htally ⊢
    omega
  · simp only [hexited, if_false, Bool.false_eq_true] at htally ⊢
    omega

/-- How a request starts. -/
theorem act_startTimer_cases (s : RpcSystem) (run : CallRun) (m : Meta) :
    s.act (.startTimer run m) = (s, [.send run m]) ∨
    (∃ rs, s.complete run.1 .invalidRequest = some rs ∧
      s.act (.startTimer run m) = (rs.2, .take run.1 :: finish rs.1 .invalidRequest ++ [.send run m])) ∨
    s.act (.startTimer run m) = ({ s.cancelWaits run.1 with
      waits := ⟨run.1, false⟩ :: (s.cancelWaits run.1).waits }.send run m, []) := by
  by_cases hnone : (s.calls run.1).session = none ∨ (s.calls run.1).timerHandle = false
  · cases hc : s.complete run.1 .invalidRequest with
    | none    => exact .inl (by simp [act, hnone, hc])
    | some rs => exact .inr (.inl ⟨rs, rfl, by simp [act, hnone, hc]⟩)
  · exact .inr (.inr (by simp [act, hnone]))

/-- How a response ends. -/
theorem act_done_cases (s : RpcSystem) (c : CallId) (session : SessionId) (m : Meta) :
    (s.complete c (.response session m) = none ∧ s.act (.done c session m) = (s, [])) ∨
    ∃ rs, s.complete c (.response session m) = some rs ∧
      s.act (.done c session m) = (rs.2, finish rs.1 (.response session m)) := by
  cases hc : s.complete c (.response session m) with
  | none    => exact .inl ⟨rfl, by simp [act, hc]⟩
  | some rs => exact .inr ⟨rs, rfl, by simp [act, hc]⟩

/-- A response finds the call that waits for it, or none. -/
theorem runTask_response_cases (s : RpcSystem) (worker : Nat) (session : SessionId) (m : Meta) (localSeq : Nat) :
    s.runTask worker (.response session m localSeq) = (s, []) ∨
    ∃ c, ((s.workers[worker]?).bind fun w => (w.takePendingRpc localSeq).1) = some c ∧
      s.runTask worker (.response session m localSeq) =
        ({ s with workers := s.workers.modify worker fun w => (w.takePendingRpc localSeq).2
                  taken := if (s.calls c).state = .pending then
                    ((c, (s.calls c).generation), session) :: s.taken else s.taken },
          [.done c session m]) := by
  cases hc : (s.workers[worker]?).bind fun w => (w.takePendingRpc localSeq).1 with
  | none   => exact .inl (by simp [runTask, hc])
  | some c =>
    refine .inr ⟨c, rfl, ?_⟩
    simp only [runTask, hc]

/-- **What an action does with callbacks.** -/
theorem act_cases (s : RpcSystem) (a : Action) :
    (s.Delivers a ∧ Effect s (s.act a).1 (fun x => s.settled x + a.callbacks x)
      fun x => (s.act a).1.settled x + tally (Action.callbacks x) (s.act a).2) ∨
    (¬s.Delivers a ∧ ∃ run, Loses s (s.act a).1 (fun x => s.settled x + a.callbacks x)
      (fun x => (s.act a).1.settled x + tally (Action.callbacks x) (s.act a).2) run) := by
  cases a with
  | startTimer run m =>
    refine .inl ⟨trivial, ?_⟩
    unfold act
    dsimp only
    by_cases hnone : (s.calls run.1).session = none ∨ (s.calls run.1).timerHandle = false
    · rw [if_pos hnone]
      cases hc : s.complete run.1 .invalidRequest with
      | none    =>
        obtain ⟨hleft, hran, hworkers, hcalls⟩ := s.send_books run m
        exact .quiet (fun x => by simp [Action.callbacks]) rfl fun _ => ⟨rfl, rfl⟩
      | some rs =>
        obtain ⟨run', s'⟩ := rs
        refine complete_effect hc _ _ fun x => ?_
        simp [(complete_settled hc x).1, finish, Action.callbacks]
    · rw [if_neg hnone]
      obtain ⟨hleft, hran, hworkers, hcalls⟩ :=
        { s.cancelWaits run.1 with waits := ⟨run.1, false⟩ :: (s.cancelWaits run.1).waits }.send_books run m
      refine .quiet (fun x => ?_) hleft fun c => by rw [hcalls]; exact ⟨rfl, rfl⟩
      rw [settled_congr hran hworkers]
      rfl
  | send run m =>
    refine .inl ⟨trivial, ?_⟩
    obtain ⟨hleft, hran, hworkers, hcalls⟩ := s.send_books run m
    refine .quiet (fun x => ?_) hleft fun c => by simp [act, hcalls]
    simp [act, settled_congr hran hworkers, Action.callbacks]
  | done c session m =>
    refine .inl ⟨trivial, ?_⟩
    unfold act
    dsimp only
    cases hc : s.complete c (.response session m) with
    | none    => exact .quiet (fun x => rfl) rfl fun _ => ⟨rfl, rfl⟩
    | some rs =>
      obtain ⟨run', s'⟩ := rs
      refine complete_effect hc _ _ fun x => ?_
      simp [(complete_settled hc x).1, finish, Action.callbacks]
  | take c =>
    refine .inl ⟨trivial, .quiet (fun x => ?_) rfl fun _ => ⟨rfl, rfl⟩⟩
    have hqueued := s.queued_modify x (s.calls c).workerIndex (takePendingRpc_queue (s.calls c).localSeq)
    simp only [act, settled, Action.callbacks, tally_nil]
    rw [hqueued]
    rfl
  | stopTimer c =>
    refine .inl ⟨trivial, ?_⟩
    obtain ⟨hleft, hran, hworkers⟩ := s.stopTimer_books c
    refine .quiet (fun x => ?_) hleft (s.stopTimer_calls c)
    simp [act, settled_congr hran hworkers, Action.callbacks]
  | callback run outcome =>
    refine .inl ⟨trivial, .quiet (fun x => ?_) rfl fun _ => ⟨rfl, rfl⟩⟩
    simp [act, settled, runs, queued, Action.callbacks]
    omega
  | postTimeout run =>
    unfold act Delivers
    dsimp only
    by_cases hlt : (s.calls run.1).workerIndex < s.workers.length
    · rw [if_pos hlt]
      exact .inl ⟨hlt, .quiet (fun x => by simp [Action.callbacks, RpcTask.callbacks]) rfl fun _ => ⟨rfl, rfl⟩⟩
    · rw [if_neg hlt]
      exact .inr ⟨hlt, run, ⟨fun x => by simp [Action.callbacks], rfl, fun _ => ⟨rfl, rfl⟩⟩⟩
  | post worker task =>
    unfold act
    dsimp only
    by_cases haccepts : (s.workers[worker]?).any fun w => w.accepts false
    · rw [if_pos haccepts]
      refine .inl ⟨?_, .quiet (fun x => by simp [Action.callbacks]) rfl fun _ => ⟨rfl, rfl⟩⟩
      cases task with
      | timeout run => exact haccepts
      | _           => exact trivial
    · rw [if_neg haccepts]
      cases task with
      | timeout run =>
        refine .inr ⟨haccepts, run, ⟨fun x => ?_, rfl, fun _ => ⟨rfl, rfl⟩⟩⟩
        simp [Action.callbacks, RpcTask.callbacks]
      | _           =>
        exact .inl ⟨trivial, .quiet (fun x => by simp [Action.callbacks, RpcTask.callbacks]) rfl fun _ => ⟨rfl, rfl⟩⟩
  | enqueue worker task =>
    unfold act Delivers
    dsimp only
    cases hw : s.workers[worker]? with
    | none   =>
      have hsame : s.workers.modify worker (fun w => w.enqueue task) = s.workers :=
        List.modify_eq_self (List.getElem?_eq_none_iff.1 hw)
      rw [hsame]
      cases task with
      | timeout run =>
        refine .inr ⟨by simp [hw], run, ⟨fun x => ?_, rfl, fun _ => ⟨rfl, rfl⟩⟩⟩
        simp [Action.callbacks, RpcTask.callbacks]
      | _           =>
        exact .inl ⟨trivial, .quiet (fun x => by simp [Action.callbacks, RpcTask.callbacks]) rfl fun _ => ⟨rfl, rfl⟩⟩
    | some w =>
      have hqueued := fun x => s.queued_enqueue x hw task
      cases hexited : w.exited with
      | false =>
        refine .inl ⟨?_, .quiet (fun x => ?_) rfl fun _ => ⟨rfl, rfl⟩⟩
        · cases task with
          | timeout run => simp [hw, hexited]
          | _           => exact trivial
        · have hx := hqueued x
          rw [hexited, if_neg Bool.false_ne_true] at hx
          simp only [settled, Action.callbacks, tally_nil]
          rw [hx]
          simp only [runs]
          omega
      | true  =>
        have hlost : ∀ x, { s with workers := s.workers.modify worker fun w => w.enqueue task }.settled x = s.settled x := by
          intro x
          have hx := hqueued x
          rw [hexited, if_pos rfl] at hx
          simp only [settled]
          rw [hx]
          rfl
        cases task with
        | timeout run =>
          refine .inr ⟨by simp [hw, hexited], run, ⟨fun x => ?_, rfl, fun _ => ⟨rfl, rfl⟩⟩⟩
          simp [hlost, Action.callbacks, RpcTask.callbacks]
        | _           =>
          refine .inl ⟨trivial, .quiet (fun x => ?_) rfl fun _ => ⟨rfl, rfl⟩⟩
          simp [hlost, Action.callbacks, RpcTask.callbacks]

theorem count_eq (s : RpcSystem) (x : CallRun) : s.count x = s.settled x + s.onTheWay x := rfl

theorem count_begin (s : RpcSystem) (thread : Thread) (actions : List Action) (x : CallRun) :
    (s.begin thread actions).count x = s.settled x + (tally (Action.callbacks x) actions + s.onTheWay x) := by
  simp [count_eq, begin, onTheWay, settled, runs, queued]

theorem begin_calls (s : RpcSystem) (thread : Thread) (actions : List Action) :
    (s.begin thread actions).calls = s.calls ∧ (s.begin thread actions).left = s.left := ⟨rfl, rfl⟩

/-- A step that changes nothing that is counted. -/
theorem Effect.same {s s' : RpcSystem} (hran : s'.ran = s.ran) (hqueued : ∀ x, s'.queued x = s.queued x)
    (hops : s'.ops = s.ops) (hleft : s'.left = s.left)
    (hcalls : ∀ c, (s'.calls c).state = (s.calls c).state ∧ (s'.calls c).generation = (s.calls c).generation) :
    Effect s s' s.count s'.count := by
  refine .quiet (fun x => ?_) hleft hcalls
  unfold count runs onTheWay
  rw [hran, hqueued, hops]

/-- An operation begins by completing a call. -/
theorem complete_begin_effect {s s' : RpcSystem} {c : CallId} {outcome : Outcome} {run : CallRun}
    (h : s.complete c outcome = some (run, s')) (thread : Thread) {actions : List Action}
    (hactions : ∀ x, tally (Action.callbacks x) actions = run.one x) :
    Effect s (s'.begin thread actions) s.count (s'.begin thread actions).count := by
  obtain ⟨hcalls, hleft⟩ := s'.begin_calls thread actions
  refine (complete_effect h s.count (s'.begin thread actions).count fun x => ?_).congr rfl rfl hleft hcalls
  obtain ⟨hsettled, hops, _, _⟩ := complete_settled h x
  rw [count_begin, hsettled, hactions, count_eq]
  unfold onTheWay
  rw [hops]
  omega

theorem callImpl_effect (s : RpcSystem) (worker : Nat) (c : CallId) (m : Meta) :
    Effect s (s.callImpl worker c m) s.count (s.callImpl worker c m).count := by
  unfold callImpl
  cases hw : s.workers[worker]? with
  | none   => exact .same rfl (fun _ => rfl) rfl rfl fun _ => ⟨rfl, rfl⟩
  | some w =>
    refine .opens c (fun x => ?_) rfl ?_ ?_ fun c' hc => ?_
    · have hqueued := @queued_modify s x worker (fun w' => w'.allocRpcSeq.2.storePendingRpc w.allocRpcSeq.1 c)
        fun _ => ⟨rfl, rfl⟩
      rw [count_begin, count_eq]
      simp only [settled, modifyCall, tally_cons, tally_nil, Action.callbacks]
      rw [← hqueued]
      simp [runs, onTheWay, queued]
    · simp [begin, modifyCall]
    · simp [begin, modifyCall]
    · simp [begin, modifyCall, hc]

/-- A worker runs a task. -/
theorem worked_effect (s : RpcSystem) {worker k : Nat} {w : Worker RpcTask} {task : RpcTask}
    (hw : s.workers[worker]? = some w) (hexited : w.exited = false) (htask : w.events[k]? = some task) :
    let popped := { s with workers := s.workers.modify worker fun w => { w with events := w.events.eraseIdx k } }
    let r := popped.runTask worker task
    Effect s (r.1.begin (.worker worker) r.2) s.count (r.1.begin (.worker worker) r.2).count := by
  intro popped r
  have hpopped : ∀ x, popped.queued x + task.callbacks x = s.queued x := by
    intro x
    have htally := tally_modify
      (fun w : Worker RpcTask => if w.exited then 0 else tally (RpcTask.callbacks x) w.events)
      (fun w => { w with events := w.events.eraseIdx k }) hw
    have herase := tally_eraseIdx (RpcTask.callbacks x) htask
    simp only [hexited, if_false, Bool.false_eq_true] at htally
    simp only [popped, queued]
    omega
  have hresult : ∀ x, r.1.queued x = popped.queued x ∧ r.1.ran = s.ran ∧ r.1.ops = s.ops ∧ r.1.left = s.left ∧
      r.1.calls = s.calls ∧ tally (Action.callbacks x) r.2 = task.callbacks x := by
    intro x
    cases task with
    | response session m localSeq =>
      simp only [r, runTask]
      split
      · have hqueued := popped.queued_modify x worker (takePendingRpc_queue localSeq)
        exact ⟨hqueued, rfl, rfl, rfl, rfl, rfl⟩
      · exact ⟨rfl, rfl, rfl, rfl, rfl, rfl⟩
    | timeout run =>
      refine ⟨rfl, rfl, rfl, rfl, rfl, ?_⟩
      simp [r, runTask, finish, Action.callbacks, RpcTask.callbacks]
    | other n => exact ⟨rfl, rfl, rfl, rfl, rfl, rfl⟩
  have hresult₀ := hresult (0, 0)
  refine .quiet (fun x => ?_) hresult₀.2.2.2.1 fun c => ?_
  · obtain ⟨hqueued, hran, hops, _, _, htally⟩ := hresult x
    have hx := hpopped x
    rw [count_begin, htally]
    simp only [settled, count_eq, runs, onTheWay]
    rw [hqueued, hran, hops]
    omega
  · rw [(begin_calls _ _ _).1, hresult₀.2.2.2.2.1]
    exact ⟨rfl, rfl⟩

/-- Every timeout that the step posts or queues is taken by its worker. -/
def Delivered (s : RpcSystem) : RpcEvent → Prop
  | .acted k => ∀ op ∈ s.ops[k]?, ∀ action ∈ op.2.head?, s.Delivers action
  | _        => True

theorem changed_effect (s : RpcSystem) (worker : Nat) (event : WorkerEvent) :
    Effect s { s with workers := s.workers.modify worker fun w => event.apply w } s.count
      { s with workers := s.workers.modify worker fun w => event.apply w }.count := by
  refine .same rfl (fun x => ?_) rfl rfl fun _ => ⟨rfl, rfl⟩
  refine tally_modify_of_eq (fun w => ?_) _ _
  rw [WorkerEvent.events_apply]
  cases event with
  | exit =>
    -- a worker that comes to its end has no tasks left
    change (if w.exit.exited then 0 else _) = _
    unfold Worker.exit
    by_cases hend : (!w.runing && w.events.isEmpty) = true
    · rw [if_pos hend]
      simp only [Bool.and_eq_true, List.isEmpty_iff] at hend
      simp [hend.2]
    · rw [if_neg hend]
  | _    => rfl

/-- **What a step does with callbacks.** -/
theorem step_cases (s : RpcSystem) (event : RpcEvent) :
    (s.Delivered event ∧ Effect s (s.step event) s.count (s.step event).count) ∨
      (¬s.Delivered event ∧ ∃ run, Loses s (s.step event) s.count (s.step event).count run) := by
  cases event with
  | acted k =>
    unfold Delivered step
    dsimp only
    cases hop : s.ops[k]? with
    | none    => exact .inl ⟨fun _ h => (nomatch h), .same rfl (fun _ => rfl) rfl rfl fun _ => ⟨rfl, rfl⟩⟩
    | some op =>
      obtain ⟨thread, actions⟩ := op
      cases actions with
      | nil            =>
        refine .inl ⟨fun op h action haction => ?_, .same rfl (fun _ => rfl) rfl rfl fun _ => ⟨rfl, rfl⟩⟩
        rw [← Option.some.inj h] at haction
        cases haction
      | cons action rest =>
        -- the callbacks of the other operations, and of the rest of this one
        have hset := fun x => tally_set (fun op : Thread × List Action => tally (Action.callbacks x) op.2)
          (thread, (s.act action).2 ++ rest) hop
        simp only [tally_append, tally_cons] at hset
        have hbefore : ∀ x, s.count x = (s.settled x + action.callbacks x) + (s.onTheWay x - action.callbacks x) := by
          intro x
          have hle := le_tally (fun op : Thread × List Action => tally (Action.callbacks x) op.2) (List.mem_of_getElem? hop)
          simp only [tally_cons] at hle
          simp only [count_eq, onTheWay]
          omega
        have hafter : ∀ x, { (s.act action).1 with ops := s.ops.set k (thread, (s.act action).2 ++ rest) }.count x
            = ((s.act action).1.settled x + tally (Action.callbacks x) (s.act action).2)
              + (s.onTheWay x - action.callbacks x) := by
          intro x
          have hx := hset x
          have hle := le_tally (fun op : Thread × List Action => tally (Action.callbacks x) op.2) (List.mem_of_getElem? hop)
          simp only [tally_cons] at hle
          simp only [count_eq, onTheWay, settled, runs, queued] at hx ⊢
          omega
        have hdelivers : (∀ op ∈ some (thread, action :: rest), ∀ a ∈ op.2.head?, s.Delivers a) ↔ s.Delivers action := by
          simp
        rw [hdelivers]
        rcases s.act_cases action with ⟨hd, heffect⟩ | ⟨hd, run, hloses⟩
        · refine .inl ⟨hd, ?_⟩
          exact (heffect.add _ hbefore hafter).congr rfl rfl rfl rfl
        · obtain ⟨count, left, calls⟩ := hloses.add _ hbefore hafter
          exact .inr ⟨hd, run, count, left, calls⟩
  | created =>
    refine .inl ⟨trivial, ?_⟩
    unfold step
    dsimp only
    split
    · refine .same rfl (fun x => ?_) rfl rfl fun _ => ⟨rfl, rfl⟩
      simp [queued]
    · exact .same rfl (fun _ => rfl) rfl rfl fun _ => ⟨rfl, rfl⟩
  | changed worker event =>
    refine .inl ⟨trivial, ?_⟩
    cases event with
    | init index => exact .same rfl (fun _ => rfl) rfl rfl fun _ => ⟨rfl, rfl⟩
    | _          => exact s.changed_effect worker _
  | posted worker n =>
    refine .inl ⟨trivial, .same rfl (fun x => ?_) rfl rfl fun _ => ⟨rfl, rfl⟩⟩
    refine tally_modify_of_eq (fun w => ?_) _ _
    unfold Worker.post Worker.enqueueTask
    split
    · simp [Worker.enqueue, RpcTask.callbacks]
    · rfl
  | setSession c session =>
    refine .inl ⟨trivial, .same rfl (fun _ => rfl) rfl rfl ?_⟩
    unfold step
    apply modifyCall_calls
    exact fun _ => ⟨rfl, rfl⟩
  | setTimeout c hasSession =>
    refine .inl ⟨trivial, .same rfl (fun _ => rfl) rfl rfl ?_⟩
    unfold step
    apply modifyCall_calls
    exact fun _ => ⟨rfl, rfl⟩
  | called worker c m =>
    refine .inl ⟨trivial, ?_⟩
    unfold step
    dsimp only
    split
    · exact s.callImpl_effect worker c m
    · exact .same rfl (fun _ => rfl) rfl rfl fun _ => ⟨rfl, rfl⟩
  | cancelled thread c =>
    refine .inl ⟨trivial, ?_⟩
    unfold step
    dsimp only
    cases hc : s.complete c .cancel with
    | none    => exact .same rfl (fun _ => rfl) rfl rfl fun _ => ⟨rfl, rfl⟩
    | some rs => exact complete_begin_effect hc thread fun x => by simp [finish, Action.callbacks]
  | received io session m =>
    refine .inl ⟨trivial, ?_⟩
    unfold step
    dsimp only
    split
    · refine .quiet (fun x => ?_) rfl fun _ => ⟨rfl, rfl⟩
      rw [count_begin]
      simp [count_eq, Action.callbacks, RpcTask.callbacks]
    · exact .same rfl (fun _ => rfl) rfl rfl fun _ => ⟨rfl, rfl⟩
  | fired k => exact .inl ⟨trivial, .same rfl (fun _ => rfl) rfl rfl fun _ => ⟨rfl, rfl⟩⟩
  | expired io k =>
    refine .inl ⟨trivial, ?_⟩
    unfold step
    dsimp only
    cases s.waits[k]? with
    | none      => exact .same rfl (fun _ => rfl) rfl rfl fun _ => ⟨rfl, rfl⟩
    | some wait =>
      by_cases hfired : wait.fired
      · simp only [hfired, if_true]
        cases hc : { s with waits := s.waits.eraseIdx k }.complete wait.call .timeout with
        | none    => exact .same rfl (fun _ => rfl) rfl rfl fun _ => ⟨rfl, rfl⟩
        | some rs =>
          have hactions : ∀ x, tally (Action.callbacks x) [.postTimeout rs.1] = rs.1.one x := fun x => by
            simp [Action.callbacks]
          exact (complete_begin_effect hc (.io io) hactions).congr rfl rfl rfl rfl
      · simp only [hfired, if_false, Bool.false_eq_true]
        exact .same rfl (fun _ => rfl) rfl rfl fun _ => ⟨rfl, rfl⟩
  | worked worker k =>
    refine .inl ⟨trivial, ?_⟩
    unfold step
    dsimp only
    cases hw : s.workers[worker]? with
    | none   => exact .same rfl (fun _ => rfl) rfl rfl fun _ => ⟨rfl, rfl⟩
    | some w =>
      by_cases hready : w.exited = false ∧ s.Idle (.worker worker)
      · simp only [if_pos hready]
        cases htask : w.events[k]? with
        | none      => exact .same rfl (fun _ => rfl) rfl rfl fun _ => ⟨rfl, rfl⟩
        | some task => exact s.worked_effect hw hready.1 htask
      · simp only [if_neg hready]
        exact .same rfl (fun _ => rfl) rfl rfl fun _ => ⟨rfl, rfl⟩

/-! ## Exactly once -/

/-- A callback is nowhere before its call has left `Pending`, and after that in one place at most. -/
structure Accounted (s : RpcSystem) : Prop where
  count   : ∀ x, s.count x ≤ s.leaves x
  once    : ∀ x, s.leaves x ≤ 1
  future  : ∀ c g, (s.calls c).generation < g → s.leaves (c, g) = 0
  current : ∀ c, (s.calls c).state = .pending ↔ s.leaves (c, (s.calls c).generation) = 0

/-- Every call that has left `Pending` has its callback, once: it has run, is in a task of a worker, or is what is left of
an operation. -/
def ExactlyOnce (s : RpcSystem) : Prop := ∀ l ∈ s.left, s.runs l.1 + s.queued l.1 + s.onTheWay l.1 = 1

theorem leaves_cons (s : RpcSystem) {s' : RpcSystem} {run : CallRun} {outcome : Outcome}
    (h : s'.left = (run, outcome) :: s.left) (x : CallRun) : s'.leaves x = run.one x + s.leaves x := by
  simp [leaves, h]

theorem leaves_congr {s s' : RpcSystem} (h : s'.left = s.left) (x : CallRun) : s'.leaves x = s.leaves x := by
  simp [leaves, h]

theorem one_self (run : CallRun) : run.one run = 1 := if_pos rfl

theorem one_of_ne {run x : CallRun} (h : run ≠ x) : run.one x = 0 := if_neg h

theorem mem_left_iff (s : RpcSystem) (x : CallRun) : (∃ l ∈ s.left, l.1 = x) ↔ 0 < s.leaves x := by
  constructor
  · rintro ⟨l, hl, rfl⟩
    have hle := le_tally (fun l : CallRun × Outcome => l.1.one l.1) hl
    have hone := le_tally (fun l' : CallRun × Outcome => l'.1.one l.1) hl
    rw [one_self] at hone
    exact hone
  · intro h
    by_contra hnone
    have hzero : s.leaves x = 0 := tally_eq_zero fun l hl => one_of_ne fun heq => hnone ⟨l, hl, heq⟩
    omega

theorem exactlyOnce_iff {s : RpcSystem} (h : s.Accounted) : s.ExactlyOnce ↔ ∀ x, s.leaves x ≤ s.count x := by
  constructor
  · intro hs x
    by_cases hx : 0 < s.leaves x
    · obtain ⟨l, hl, rfl⟩ := (s.mem_left_iff x).2 hx
      have honce := h.once l.1
      have hcount := hs l hl
      unfold count
      omega
    · omega
  · intro hs l hl
    have hpos := (s.mem_left_iff l.1).1 ⟨l, hl, rfl⟩
    have hle := hs l.1
    have hcount := h.count l.1
    have honce := h.once l.1
    unfold count at hle hcount
    omega

namespace Accounted

variable {s s' : RpcSystem}

theorem init : Accounted {} :=
  ⟨fun _ => Nat.le_refl _, fun _ => Nat.zero_le _, fun _ _ _ => rfl, fun _ => ⟨fun _ => rfl, fun _ => rfl⟩⟩

/-- An effect keeps the account, and whether every callback is there. -/
theorem effect (h : s.Accounted) (heffect : Effect s s' s.count s'.count) :
    s'.Accounted ∧ ((∀ x, s'.leaves x ≤ s'.count x) ↔ ∀ x, s.leaves x ≤ s.count x) := by
  cases heffect with
  | quiet count left calls =>
    have hleaves := leaves_congr left
    refine ⟨⟨fun x => ?_, fun x => ?_, fun c g hg => ?_, fun c => ?_⟩, ?_⟩
    · rw [count, hleaves]
      exact h.count x
    · rw [hleaves]
      exact h.once x
    · rw [hleaves]
      rw [(calls c).2] at hg
      exact h.future c g hg
    · rw [hleaves, (calls c).1, (calls c).2]
      exact h.current c
    · simp only [hleaves, count]
  | completes c outcome pending count left state generation others =>
    have hleaves := leaves_cons s left
    have hnew := (h.current c).1 pending
    refine ⟨⟨fun x => ?_, fun x => ?_, fun c' g hg => ?_, fun c' => ?_⟩, ?_⟩
    · have hx := h.count x
      rw [count, hleaves]
      omega
    · rw [hleaves]
      by_cases hx : (c, (s.calls c).generation) = x
      · rw [← hx, hnew, one_self]
      · rw [one_of_ne hx, Nat.zero_add]
        exact h.once x
    · rw [generation] at hg
      rw [hleaves, one_of_ne, h.future c' g hg]
      intro heq
      injection heq with hc hgen
      subst hc
      omega
    · rw [hleaves, generation]
      by_cases hc : c' = c
      · subst hc
        rw [state, one_self]
        cases outcome <;> simp [Outcome.state]
      · rw [others c' hc, one_of_ne fun heq => hc (congrArg Prod.fst heq).symm, Nat.zero_add]
        exact h.current c'
    · simp only [hleaves, count]
      exact ⟨fun hs x => by have := hs x; omega, fun hs x => by have := hs x; omega⟩
  | opens c count left state generation others =>
    have hleaves := leaves_congr left
    refine ⟨⟨fun x => ?_, fun x => ?_, fun c' g hg => ?_, fun c' => ?_⟩, ?_⟩
    · rw [count, hleaves]
      exact h.count x
    · rw [hleaves]
      exact h.once x
    · rw [hleaves]
      by_cases hc : c' = c
      · subst hc
        rw [generation] at hg
        exact h.future c' g (by omega)
      · rw [(others c' hc).2] at hg
        exact h.future c' g hg
    · rw [hleaves]
      by_cases hc : c' = c
      · subst hc
        rw [state, generation]
        exact ⟨fun _ => h.future c' _ (Nat.lt_succ_self _), fun _ => rfl⟩
      · rw [(others c' hc).1, (others c' hc).2]
        exact h.current c'
    · simp only [hleaves, count]

theorem loses (h : s.Accounted) {run : CallRun} (hloses : Loses s s' s.count s'.count run) :
    s'.Accounted ∧ ¬∀ x, s'.leaves x ≤ s'.count x := by
  have hleaves := leaves_congr hloses.left
  refine ⟨⟨fun x => ?_, fun x => ?_, fun c g hg => ?_, fun c => ?_⟩, fun hs => ?_⟩
  · have hx := hloses.count x
    have hle := h.count x
    rw [hleaves]
    omega
  · rw [hleaves]
    exact h.once x
  · rw [hleaves]
    rw [(hloses.calls c).2] at hg
    exact h.future c g hg
  · rw [hleaves, (hloses.calls c).1, (hloses.calls c).2]
    exact h.current c
  · have hrun := hloses.count run
    have hle := h.count run
    have honce := h.once run
    have hleft := hs run
    rw [hleaves] at hleft
    rw [one_self] at hrun
    omega

theorem step (h : s.Accounted) (event : RpcEvent) : (s.step event).Accounted := by
  rcases s.step_cases event with ⟨_, heffect⟩ | ⟨_, run, hloses⟩
  · exact (h.effect heffect).1
  · exact (h.loses hloses).1

end Accounted

/-- **A step keeps every callback exactly if no timeout that it posts or queues is refused.** -/
theorem exactlyOnce_step {s : RpcSystem} (h : s.Accounted) (event : RpcEvent) :
    (s.step event).ExactlyOnce ↔ s.ExactlyOnce ∧ s.Delivered event := by
  rw [exactlyOnce_iff (h.step event), exactlyOnce_iff h]
  rcases s.step_cases event with ⟨hdelivered, heffect⟩ | ⟨hdelivered, run, hloses⟩
  · rw [(h.effect heffect).2]
    exact (and_iff_left hdelivered).symm
  · exact iff_of_false (h.loses hloses).2 fun hs => hdelivered hs.2

theorem run_accounted (events : List RpcEvent) : (events.foldl step {}).Accounted :=
  List.foldlRecOn events step Accounted.init fun _ h event _ => h.step event

/-! ## On the worker of the call -/

/-- A task is in the queue of a worker, or on its way there. -/
def Placed (s : RpcSystem) (worker : Nat) (task : RpcTask) : Prop :=
  (∃ op ∈ s.ops, .post worker task ∈ op.2 ∨ .enqueue worker task ∈ op.2) ∨ ∃ w, s.workers[worker]? = some w ∧ task ∈ w.events

theorem placed_congr {s s' : RpcSystem} (hops : s'.ops = s.ops) (hworkers : s'.workers = s.workers) {worker : Nat}
    {task : RpcTask} (h : s'.Placed worker task) : s.Placed worker task := by
  unfold Placed at h ⊢
  rwa [hops, hworkers] at h

/-- A change of a worker that adds no such task to its queue. -/
theorem placed_modify {s s' : RpcSystem} {changed worker : Nat} {f : Worker RpcTask → Worker RpcTask} {task : RpcTask}
    (h : s'.Placed worker task) (hops : s'.ops = s.ops) (hworkers : s'.workers = s.workers.modify changed f)
    (hf : ∀ w, task ∈ (f w).events → task ∈ w.events) : s.Placed worker task := by
  rcases h with ⟨op, hop, hmem⟩ | ⟨w, hw, hmem⟩
  · exact .inl ⟨op, hops ▸ hop, hmem⟩
  · rw [hworkers] at hw
    obtain ⟨v, hold, ⟨_, rfl⟩ | ⟨_, rfl⟩⟩ := of_getElem?_modify hw
    · exact .inr ⟨v, hold, hf v hmem⟩
    · exact .inr ⟨w, hold, hmem⟩

theorem placed_begin {s : RpcSystem} {thread : Thread} {actions : List Action} {worker : Nat} {task : RpcTask}
    (h : (s.begin thread actions).Placed worker task) :
    s.Placed worker task ∨ .post worker task ∈ actions ∨ .enqueue worker task ∈ actions := by
  rcases h with ⟨op, hop, hmem⟩ | h
  · rcases List.mem_cons.1 hop with rfl | hop
    · exact .inr hmem
    · exact .inl (.inl ⟨op, hop, hmem⟩)
  · exact .inl (.inr h)

theorem complete_frame {s s' : RpcSystem} {c : CallId} {outcome : Outcome} {run : CallRun}
    (h : s.complete c outcome = some (run, s')) : s'.ops = s.ops ∧ s'.workers = s.workers ∧
      ∀ c', (s'.calls c').generation = (s.calls c').generation ∧ (s'.calls c').workerIndex = (s.calls c').workerIndex := by
  unfold complete at h
  split at h
  · simp only [Option.some.injEq, Prod.mk.injEq] at h
    obtain ⟨_, rfl⟩ := h
    refine ⟨rfl, rfl, fun c' => ?_⟩
    by_cases hc : c' = c
    · subst hc
      simp [modifyCall]
    · simp [modifyCall, hc]
  · cases h

/-- What an action does with the tasks: those that it leaves to do, and those that it queues. -/
structure ActFrame (s : RpcSystem) (a : Action) : Prop where
  ops     : (s.act a).1.ops = s.ops
  calls   : ∀ c, ((s.act a).1.calls c).generation = (s.calls c).generation ∧
    ((s.act a).1.calls c).workerIndex = (s.calls c).workerIndex
  post    : ∀ worker task, .post worker task ∈ (s.act a).2 →
    ∃ run, a = .postTimeout run ∧ task = .timeout run ∧ worker = (s.calls run.1).workerIndex
  enqueue : ∀ worker task, .enqueue worker task ∈ (s.act a).2 → a = .post worker task
  next    : (∀ run, .postTimeout run ∉ (s.act a).2) ∧ ∀ c session m, .done c session m ∉ (s.act a).2
  queued  : ∀ worker task w, (s.act a).1.workers[worker]? = some w → task ∈ w.events →
    (∃ w, s.workers[worker]? = some w ∧ task ∈ w.events) ∨ a = .enqueue worker task

theorem act_frame (s : RpcSystem) (a : Action) : s.ActFrame a := by
  have hsame : ∀ {s' : RpcSystem}, s'.workers = s.workers → ∀ (worker : Nat) (task : RpcTask) (w : Worker RpcTask),
      s'.workers[worker]? = some w → task ∈ w.events →
        ∃ w : Worker RpcTask, s.workers[worker]? = some w ∧ task ∈ w.events := by
    intro s' hworkers worker task w hw hmem
    exact ⟨w, hworkers ▸ hw, hmem⟩
  cases a with
  | startTimer run m =>
    rcases s.act_startTimer_cases run m with hact | ⟨rs, hc, hact⟩ | hact
    · constructor <;> rw [hact]
      · exact fun _ => ⟨rfl, rfl⟩
      all_goals simp
      exact hsame rfl
    · obtain ⟨hops, hworkers, hcalls⟩ := complete_frame hc
      constructor <;> rw [hact]
      · exact hops
      · exact hcalls
      all_goals simp [finish]
      exact hsame hworkers
    · obtain ⟨_, _, hworkers, hcalls⟩ :=
        { s.cancelWaits run.1 with waits := ⟨run.1, false⟩ :: (s.cancelWaits run.1).waits }.send_books run m
      constructor <;> rw [hact]
      · unfold send
        split <;> rfl
      · intro c
        rw [hcalls]
        exact ⟨rfl, rfl⟩
      all_goals simp
      exact hsame hworkers
  | send run m =>
    have hact : s.act (.send run m) = (s.send run m, []) := rfl
    obtain ⟨_, _, hworkers, hcalls⟩ := s.send_books run m
    constructor <;> rw [hact]
    · unfold send
      split <;> rfl
    · intro c
      rw [hcalls]
      exact ⟨rfl, rfl⟩
    all_goals simp
    exact hsame hworkers
  | done c session m =>
    rcases s.act_done_cases c session m with ⟨_, hact⟩ | ⟨rs, hc, hact⟩
    · constructor <;> rw [hact]
      · exact fun _ => ⟨rfl, rfl⟩
      all_goals simp
      exact hsame rfl
    · obtain ⟨hops, hworkers, hcalls⟩ := complete_frame hc
      constructor <;> rw [hact]
      · exact hops
      · exact hcalls
      all_goals simp [finish]
      exact hsame hworkers
  | take c =>
    refine ⟨rfl, fun _ => ⟨rfl, rfl⟩, by simp [act], by simp [act], by simp [act], fun worker task w hw hmem => ?_⟩
    obtain ⟨v, hold, ⟨_, rfl⟩ | ⟨_, rfl⟩⟩ := of_getElem?_modify hw
    · exact .inl ⟨v, hold, hmem⟩
    · exact .inl ⟨w, hold, hmem⟩
  | stopTimer c =>
    obtain ⟨_, _, hworkers⟩ := s.stopTimer_books c
    refine ⟨?_, fun c' => ?_, by simp [act], by simp [act], by simp [act],
      fun worker task w hw hmem => .inl (hsame hworkers worker task w hw hmem)⟩
    · simp only [act, stopTimer]
      split <;> rfl
    · simp only [act, stopTimer]
      split
      · by_cases hc : c' = c
        · subst hc
          simp [modifyCall, cancelWaits]
        · simp [modifyCall, cancelWaits, hc]
      · exact ⟨rfl, rfl⟩
  | callback run outcome =>
    exact ⟨rfl, fun _ => ⟨rfl, rfl⟩, by simp [act], by simp [act], by simp [act],
      fun worker task w hw hmem => .inl (hsame rfl worker task w hw hmem)⟩
  | postTimeout run =>
    by_cases hlt : (s.calls run.1).workerIndex < s.workers.length
    · have hact : s.act (.postTimeout run) = (s, [.post (s.calls run.1).workerIndex (.timeout run)]) := by simp [act, hlt]
      constructor <;> rw [hact]
      · exact fun _ => ⟨rfl, rfl⟩
      · intro worker task hmem
        simp only [List.mem_singleton, Action.post.injEq] at hmem
        exact ⟨run, rfl, hmem.2, hmem.1⟩
      all_goals simp
      exact hsame rfl
    · have hact : s.act (.postTimeout run) = (s, []) := by simp [act, hlt]
      constructor <;> rw [hact]
      · exact fun _ => ⟨rfl, rfl⟩
      all_goals simp
      exact hsame rfl
  | post worker task =>
    by_cases haccepts : ((s.workers[worker]?).any fun w => w.accepts false) = true
    · have hact : s.act (.post worker task) = (s, [.enqueue worker task]) := by simp [act, haccepts]
      constructor <;> rw [hact]
      · exact fun _ => ⟨rfl, rfl⟩
      · simp
      · intro worker' task' hmem
        simp only [List.mem_singleton, Action.enqueue.injEq] at hmem
        rw [hmem.1, hmem.2]
      all_goals simp
      exact hsame rfl
    · have hact : s.act (.post worker task) = (s, []) := by simp [act, haccepts]
      constructor <;> rw [hact]
      · exact fun _ => ⟨rfl, rfl⟩
      all_goals simp
      exact hsame rfl
  | enqueue worker task =>
    refine ⟨rfl, fun _ => ⟨rfl, rfl⟩, by simp [act], by simp [act], by simp [act], fun worker' task' w hw hmem => ?_⟩
    obtain ⟨v, hold, ⟨rfl, rfl⟩ | ⟨_, rfl⟩⟩ := of_getElem?_modify hw
    · rcases List.mem_append.1 hmem with hmem | hmem
      · exact .inl ⟨v, hold, hmem⟩
      · rw [List.mem_singleton.1 hmem]
        exact .inr rfl
    · exact .inl ⟨w, hold, hmem⟩

/-- A task that is there after an action was there before, or is the timeout that the action posts. -/
theorem placed_acted {s : RpcSystem} {k : Nat} {thread : Thread} {action : Action} {rest : List Action}
    (hop : s.ops[k]? = some (thread, action :: rest)) {worker : Nat} {task : RpcTask}
    (h : Placed { (s.act action).1 with ops := s.ops.set k (thread, (s.act action).2 ++ rest) } worker task) :
    s.Placed worker task ∨
      ∃ run, action = .postTimeout run ∧ task = .timeout run ∧ worker = (s.calls run.1).workerIndex := by
  have hframe := s.act_frame action
  have hmem := List.mem_of_getElem? hop
  rcases h with ⟨op, hop', hplaced⟩ | ⟨w, hw, hplaced⟩
  · rcases List.mem_or_eq_of_mem_set hop' with hop' | rfl
    · exact .inl (.inl ⟨op, hop', hplaced⟩)
    · simp only [List.mem_append] at hplaced
      rcases hplaced with (hplaced | hplaced) | (hplaced | hplaced)
      · exact .inr (hframe.post worker task hplaced)
      · exact .inl (.inl ⟨_, hmem, .inl (List.mem_cons_of_mem action hplaced)⟩)
      · have haction := hframe.enqueue worker _ hplaced
        exact .inl (.inl ⟨_, hmem, .inl (haction ▸ List.mem_cons_self)⟩)
      · exact .inl (.inl ⟨_, hmem, .inr (List.mem_cons_of_mem action hplaced)⟩)
  · rcases hframe.queued worker task w hw hplaced with hqueue | haction
    · exact .inl (.inr hqueue)
    · exact .inl (.inl ⟨_, hmem, .inr (haction ▸ List.mem_cons_self)⟩)

/-- Timeouts are of calls that were made, and those of the last one are for the worker that made it. -/
structure Owned (s : RpcSystem) : Prop where
  placed  : ∀ worker c g, s.Placed worker (.timeout (c, g)) →
    g ≤ (s.calls c).generation ∧ (g = (s.calls c).generation → worker = (s.calls c).workerIndex)
  posting : ∀ c g, ∀ op ∈ s.ops, .postTimeout (c, g) ∈ op.2 → g ≤ (s.calls c).generation

namespace Owned

variable {s s' : RpcSystem}

theorem init : Owned {} where
  placed  := by
    rintro _ _ _ (⟨_, hop, _⟩ | ⟨_, hw, _⟩)
    · cases hop
    · cases hw
  posting := fun _ _ _ hop => nomatch hop

/-- A step that makes no call, and places no timeout. -/
theorem frame (h : s.Owned)
    (hcalls : ∀ c, (s'.calls c).generation = (s.calls c).generation ∧ (s'.calls c).workerIndex = (s.calls c).workerIndex)
    (hplaced : ∀ worker run, s'.Placed worker (.timeout run) → s.Placed worker (.timeout run))
    (hposting : ∀ run, ∀ op ∈ s'.ops, .postTimeout run ∈ op.2 → ∃ op ∈ s.ops, .postTimeout run ∈ op.2) : s'.Owned where
  placed  := fun worker c g hg => by
    rw [(hcalls c).1, (hcalls c).2]
    exact h.placed worker c g (hplaced worker (c, g) hg)
  posting := fun c g op hop hmem => by
    rw [(hcalls c).1]
    obtain ⟨op', hop', hmem'⟩ := hposting (c, g) op hop hmem
    exact h.posting c g op' hop' hmem'

/-- A step that leaves the operations and the queues. -/
theorem same (h : s.Owned) (hops : s'.ops = s.ops) (hworkers : s'.workers = s.workers)
    (hcalls : ∀ c, (s'.calls c).generation = (s.calls c).generation ∧ (s'.calls c).workerIndex = (s.calls c).workerIndex) :
    s'.Owned :=
  h.frame hcalls (fun _ _ => placed_congr hops hworkers) fun _ op hop hmem => ⟨op, hops ▸ hop, hmem⟩

/-- A change of a worker that queues no timeout. -/
theorem modify (h : s.Owned) (worker : Nat) {f : Worker RpcTask → Worker RpcTask}
    (hf : ∀ w run, RpcTask.timeout run ∈ (f w).events → RpcTask.timeout run ∈ w.events) :
    Owned { s with workers := s.workers.modify worker f } :=
  h.frame (fun _ => ⟨rfl, rfl⟩) (fun _ run hplaced => placed_modify hplaced rfl rfl fun w => hf w run)
    fun _ op hop hmem => ⟨op, hop, hmem⟩

/-- An operation begins. -/
theorem begin (h : s.Owned) (thread : Thread) {actions : List Action}
    (hactions : ∀ worker run, .post worker (.timeout run) ∉ actions ∧ .enqueue worker (.timeout run) ∉ actions)
    (hposting : ∀ c g, .postTimeout (c, g) ∈ actions → g ≤ (s.calls c).generation) : (s.begin thread actions).Owned where
  placed  := fun worker c g hg => by
    rcases placed_begin hg with hg | hg | hg
    · exact h.placed worker c g hg
    · exact absurd hg (hactions worker _).1
    · exact absurd hg (hactions worker _).2
  posting := fun c g op hop hmem => by
    rcases List.mem_cons.1 hop with rfl | hop
    · exact hposting c g hmem
    · exact h.posting c g op hop hmem

theorem complete (h : s.Owned) {c : CallId} {outcome : Outcome} {run : CallRun}
    (hc : s.complete c outcome = some (run, s')) : s'.Owned := by
  obtain ⟨hops, hworkers, hcalls⟩ := complete_frame hc
  exact h.same hops hworkers hcalls

theorem callImpl (h : s.Owned) (worker : Nat) (c : CallId) (m : Meta) : (s.callImpl worker c m).Owned := by
  unfold RpcSystem.callImpl
  cases hw : s.workers[worker]? with
  | none   => exact h
  | some w =>
    refine ⟨fun worker' c' g hg => ?_, fun c' g op hop hmem => ?_⟩
    · have hold : s.Placed worker' (.timeout (c', g)) := by
        rcases placed_begin hg with hg | hg | hg
        · exact placed_modify hg rfl rfl fun _ hmem => hmem
        · simp at hg
        · simp at hg
      obtain ⟨hle, howner⟩ := h.placed worker' c' g hold
      by_cases hc : c' = c
      · -- the timeouts that there are of this call are of earlier ones
        subst hc
        simp only [RpcSystem.begin, modifyCall, Function.update_self]
        exact ⟨by omega, fun hgen => by omega⟩
      · simp only [RpcSystem.begin, modifyCall, Function.update_of_ne hc]
        exact ⟨hle, howner⟩
    · rcases List.mem_cons.1 hop with rfl | hop
      · simp at hmem
      · have hle := h.posting c' g op hop hmem
        by_cases hc : c' = c
        · subst hc
          simp only [RpcSystem.begin, modifyCall, Function.update_self]
          omega
        · simp only [RpcSystem.begin, modifyCall, Function.update_of_ne hc]
          exact hle

theorem acted (h : s.Owned) {k : Nat} {thread : Thread} {action : Action} {rest : List Action}
    (hop : s.ops[k]? = some (thread, action :: rest)) :
    Owned { (s.act action).1 with ops := s.ops.set k (thread, (s.act action).2 ++ rest) } := by
  have hframe := s.act_frame action
  have hmem := List.mem_of_getElem? hop
  refine ⟨fun worker c g hg => ?_, fun c g op hop' hpostTimeout => ?_⟩
  · change g ≤ ((s.act action).1.calls c).generation ∧
      (g = ((s.act action).1.calls c).generation → worker = ((s.act action).1.calls c).workerIndex)
    rw [(hframe.calls c).1, (hframe.calls c).2]
    rcases placed_acted hop hg with hplaced | ⟨run, rfl, heq, rfl⟩
    · exact h.placed worker c g hplaced
    · -- this one is posted for its call
      injection heq with heq
      subst heq
      exact ⟨h.posting c g _ hmem List.mem_cons_self, fun _ => rfl⟩
  · change g ≤ ((s.act action).1.calls c).generation
    rw [(hframe.calls c).1]
    rcases List.mem_or_eq_of_mem_set hop' with hop' | rfl
    · exact h.posting c g op hop' hpostTimeout
    · rcases List.mem_append.1 hpostTimeout with hpostTimeout | hpostTimeout
      · exact absurd hpostTimeout (hframe.next.1 (c, g))
      · exact h.posting c g _ hmem (List.mem_cons_of_mem action hpostTimeout)

theorem step (h : s.Owned) (event : RpcEvent) : (s.step event).Owned := by
  cases event with
  | acted k =>
    unfold RpcSystem.step
    dsimp only
    split
    · rename_i hop
      exact h.acted hop
    · exact h
  | created =>
    unfold RpcSystem.step
    dsimp only
    split
    · refine h.frame (fun _ => ⟨rfl, rfl⟩) (fun worker run hplaced => ?_) fun _ op hop hmem => ⟨op, hop, hmem⟩
      rcases hplaced with hplaced | ⟨w, hw, hmem⟩
      · exact .inl hplaced
      · rw [List.getElem?_append] at hw
        split at hw
        · exact .inr ⟨w, hw, hmem⟩
        · -- a new worker has no tasks
          obtain rfl := List.mem_singleton.1 (List.mem_of_getElem? hw)
          cases hmem
    · exact h
  | changed worker event =>
    cases event with
    | init index => exact h
    | _          =>
      refine h.modify worker fun w run hmem => ?_
      rwa [WorkerEvent.events_apply] at hmem
  | posted worker n =>
    refine h.modify worker fun w run hmem => ?_
    rcases Worker.mem_post hmem with hmem | heq
    · exact hmem
    · cases heq
  | setSession c session =>
    refine h.same rfl rfl fun c' => ?_
    by_cases hc : c' = c
    · subst hc
      simp [RpcSystem.step, modifyCall]
    · simp [RpcSystem.step, modifyCall, hc]
  | setTimeout c hasSession =>
    refine h.same rfl rfl fun c' => ?_
    by_cases hc : c' = c
    · subst hc
      simp [RpcSystem.step, modifyCall]
    · simp [RpcSystem.step, modifyCall, hc]
  | called worker c m =>
    unfold RpcSystem.step
    dsimp only
    split
    · exact h.callImpl worker c m
    · exact h
  | cancelled thread c =>
    unfold RpcSystem.step
    dsimp only
    cases hc : s.complete c .cancel with
    | none    => exact h
    | some rs => exact (h.complete hc).begin thread (by simp [finish]) (by simp [finish])
  | received io session m =>
    unfold RpcSystem.step
    dsimp only
    split
    · exact h.begin (.io io) (by simp) (by simp)
    · exact h
  | fired k => exact h.same rfl rfl fun _ => ⟨rfl, rfl⟩
  | expired io k =>
    unfold RpcSystem.step
    dsimp only
    cases s.waits[k]? with
    | none      => exact h
    | some wait =>
      by_cases hfired : wait.fired
      · have hwaits : Owned { s with waits := s.waits.eraseIdx k } := h.same rfl rfl fun _ => ⟨rfl, rfl⟩
        simp only [hfired, if_true]
        cases hc : { s with waits := s.waits.eraseIdx k }.complete wait.call .timeout with
        | none    => exact hwaits
        | some rs =>
          refine (hwaits.complete hc).begin (.io io) (by simp) fun c g hmem => ?_
          -- the run that is posted is the one that was completed
          have hrun : rs.1 = (wait.call, (s.calls wait.call).generation) := by
            unfold RpcSystem.complete at hc
            split at hc
            · simp only [Option.some.injEq] at hc
              rw [← hc]
            · cases hc
          simp only [List.mem_singleton, Action.postTimeout.injEq] at hmem
          rw [hrun, Prod.mk.injEq] at hmem
          rw [hmem.1, hmem.2, ((complete_frame hc).2.2 wait.call).1]
      · simp only [hfired, if_false, Bool.false_eq_true]
        exact h
  | worked worker k =>
    unfold RpcSystem.step
    dsimp only
    cases hw : s.workers[worker]? with
    | none   => exact h
    | some w =>
      by_cases hready : w.exited = false ∧ s.Idle (.worker worker)
      · simp only [if_pos hready]
        cases htask : w.events[k]? with
        | none      => exact h
        | some task =>
          have hpopped : Owned { s with workers := s.workers.modify worker fun w => { w with events := w.events.eraseIdx k } } :=
            h.modify worker fun _ _ hmem => List.mem_of_mem_eraseIdx hmem
          dsimp only
          cases task with
          | response session m localSeq =>
            unfold runTask
            dsimp only
            split
            · have htook := hpopped.modify worker (f := fun w => (w.takePendingRpc localSeq).2) fun _ _ hmem => hmem
              have htaken : ∀ taken, Owned { { s with
                  workers := (s.workers.modify worker fun w => { w with events := w.events.eraseIdx k }).modify worker
                    fun w => (w.takePendingRpc localSeq).2 } with taken := taken } :=
                fun taken => htook.same rfl rfl fun _ => ⟨rfl, rfl⟩
              apply (htaken _).begin (.worker worker)
              all_goals simp
            · exact hpopped.begin (.worker worker) (by simp) (by simp)
          | timeout run =>
            change (RpcSystem.begin _ (.worker worker) (.take run.1 :: finish run .timeout)).Owned
            exact hpopped.begin (.worker worker) (by simp [finish]) (by simp [finish])
          | other n     =>
            change (RpcSystem.begin _ (.worker worker) []).Owned
            exact hpopped.begin (.worker worker) (by simp) (by simp)
      · simp only [if_neg hready]
        exact h

end Owned

theorem run_owned (events : List RpcEvent) : (events.foldl step {}).Owned :=
  List.foldlRecOn events step Owned.init fun _ h event _ => h.step event

/-- How often a callback is in a task of this worker, which still runs its tasks. -/
def queuedAt (s : RpcSystem) (worker : Nat) (x : CallRun) : Nat :=
  ((s.workers[worker]?).map fun w => if w.exited then 0 else tally (RpcTask.callbacks x) w.events).getD 0

/-- The callback of the last call that was made is queued nowhere but on the worker that made it. -/
theorem Owned.queued_eq {s : RpcSystem} (h : s.Owned) (c : CallId) :
    s.queued (c, (s.calls c).generation) = s.queuedAt (s.calls c).workerIndex (c, (s.calls c).generation) := by
  apply tally_eq_of_unique
  intro worker w hw hne
  split
  · rfl
  · apply tally_eq_zero
    intro task htask
    cases task with
    | timeout run =>
      refine one_of_ne fun hrun => hne ?_
      subst hrun
      exact (h.placed worker c _ (.inr ⟨w, hw, htask⟩)).2 rfl
    | _           => rfl

/-- **The callback of a call never runs twice; and in every run it runs once for every call that has left `Pending`, or
waits to on the worker that made the call or on the thread that completed it, if and only if no worker refuses a
timeout.** -/
theorem run_exactlyOnce_iff (events : List RpcEvent) :
    (∀ run, (events.foldl step {}).runs run ≤ 1) ∧
    ((events.foldl step {}).ExactlyOnce ↔ Along step Delivered {} events) ∧
    ((events.foldl step {}).ExactlyOnce → ∀ c, ((events.foldl step {}).calls c).state ≠ .pending →
      let s := events.foldl step {}
      let run := (c, (s.calls c).generation)
      s.runs run + s.queuedAt (s.calls c).workerIndex run + s.onTheWay run = 1) := by
  have haccounted := run_accounted events
  have howned := run_owned events
  refine ⟨fun run => ?_, ?_, fun honce c hstate => ?_⟩
  · have hcount := haccounted.count run
    have hleaves := haccounted.once run
    unfold count at hcount
    omega
  · rw [Run.foldl_iff (fun s event h => Accounted.step (s := s) h event)
      (fun s event h => exactlyOnce_step (s := s) h event) events Accounted.init]
    exact and_iff_right fun _ hl => nomatch hl
  · intro s run
    have hleft : 0 < s.leaves run := Nat.pos_of_ne_zero fun hzero => hstate ((haccounted.current c).2 hzero)
    obtain ⟨l, hl, hrun⟩ := (s.mem_left_iff run).2 hleft
    have hone := honce l hl
    rw [hrun] at hone
    rw [← howned.queued_eq c]
    exact hone

/-- A call is made on the main worker, which then goes into shutdown mode; the call times out. -/
def refusedTimeout : List RpcEvent :=
  [.created, .changed 0 .onStart, .setSession 0 (some 5), .called 0 0 .init, .acted 0, .changed 0 .enterShutdownMode,
    .fired 0, .expired 0 0, .acted 0, .acted 0]

theorem not_run_exactlyOnce : ¬∀ events : List RpcEvent, (events.foldl step {}).ExactlyOnce := by
  intro h
  have hleft : (refusedTimeout.foldl step {}).left = [((0, 1), .timeout)] := rfl
  have hone := h refusedTimeout ((0, 1), .timeout) (hleft ▸ List.mem_cons_self)
  have hzero : (refusedTimeout.foldl step {}).runs (0, 1) + (refusedTimeout.foldl step {}).queued (0, 1)
      + (refusedTimeout.foldl step {}).onTheWay (0, 1) = 0 := rfl
  rw [hzero] at hone
  cases hone

end RpcSystem

end Gb
