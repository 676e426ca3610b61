import GbServer.AwaitState
import GbServer.RpcTimers
/-!
# RpcAwaits — whether an await of a call can be finished

`RpcCallAwaiter::await_suspend` with the binder of `CoRpc::execute` (`rpc_coro.h`): it sets the callback of the call object,
and makes the call.  `CallImpl` makes none on a thread that is no worker: it logs an error and returns, and nobody completes
the await.  So the coroutine goes on, or its call is pending, stored and guarded by a timer, exactly where the thread is a
worker or the object has such a call already; and as one object has one callback, no await is left behind exactly where none
waits for the object already (`awaitSuspend_iff`).

The other threads act before `await_suspend` and after it, from whatever state.
-/
namespace Gb

open Tally

abbrev AwaitId := Nat

namespace RpcSystem

/-- `WorkerManager::GetCurWorker`. -/
def getCurWorker (s : RpcSystem) : Thread → Option Nat
  | .worker worker => if worker < s.workers.length then some worker else none
  | _              => none

/-- `InvokeRpcCall`: `NetworkManager::Call` from its beginning to its end.  The operation of a call has at most five
actions. -/
def invokeRpcCall (s : RpcSystem) (thread : Thread) (c : CallId) (m : Meta) : RpcSystem :=
  match s.getCurWorker thread with
  | none        => s
  | some worker => (List.replicate 5 (RpcEvent.acted 0)).foldl step (s.callImpl worker c m)

/-- How many callbacks of the object have run. -/
def callbacksOf (s : RpcSystem) (c : CallId) : Nat := s.ran.countP fun r => r.1.1 = c

/-- The object has a call that a timeout can end. -/
def Timed (s : RpcSystem) (c : CallId) : Prop := (s.calls c).state = .pending ∧ ∃ wait ∈ s.waits, wait.call = c

/-- The object has a call that a response can end as well: its worker has it under its number. -/
def Guarded (s : RpcSystem) (c : CallId) : Prop :=
  s.Timed c ∧ s.Waits (s.sequenceId c).index (s.sequenceId c).seq c

end RpcSystem

/-- The calls, the awaits whose callbacks the call objects have, and the awaits whose coroutines are suspended with their
call objects. -/
structure AwaitSystem where
  rpc       : RpcSystem := {}
  callbacks : CallId → Option AwaitId := fun _ => none
  suspended : List (AwaitId × CallId) := []
  next      : AwaitId := 0
  fresh     : ∀ a ∈ suspended, a.1 < next := by simp

namespace AwaitSystem

/-- `await_suspend` of `CoRpc::execute`, and whether the coroutine stays suspended. -/
def awaitSuspend (s : AwaitSystem) (thread : Thread) (c : CallId) (m : Meta) : AwaitSystem × Bool :=
  let rpc := s.rpc.invokeRpcCall thread c m
  -- the callback of the object is that of this await
  let completed := decide (s.rpc.callbacksOf c < rpc.callbacksOf c)
  let suspends := Awaiter.rpc.awaitSuspend (Awaiter.rpc.finishSuspend completed)
  ({ rpc       := rpc
     callbacks := Function.update s.callbacks c (some s.next)
     suspended := if suspends then (s.next, c) :: s.suspended else s.suspended
     next      := s.next + 1
     fresh     := by
       have hold : ∀ a ∈ s.suspended, a.1 < s.next + 1 := fun a ha => Nat.lt_succ_of_lt (s.fresh a ha)
       split
       · simpa using hold
       · exact hold }, suspends)

/-- A timeout of its call ends every await that is suspended. -/
def NoneLeft (s : AwaitSystem) : Prop := ∀ a ∈ s.suspended, s.callbacks a.2 = some a.1 ∧ s.rpc.Timed a.2

end AwaitSystem

namespace RpcSystem

variable {s t : RpcSystem}

/-! ## The call of an await -/

theorem acted_head {thread : Thread} {a : Action} {rest : List Action} {ops : List (Thread × List Action)}
    (h : t.ops = (thread, a :: rest) :: ops) :
    t.step (.acted 0) = { (t.act a).1 with ops := (thread, (t.act a).2 ++ rest) :: ops } := by
  simp [step, h]

theorem acted_end {thread : Thread} {ops : List (Thread × List Action)} (h : t.ops = (thread, []) :: ops) :
    ∀ n, (List.replicate n (RpcEvent.acted 0)).foldl step t = t
  | 0     => rfl
  | n + 1 => by
    have hstep : t.step (.acted 0) = t := by simp [step, h]
    rw [List.replicate_succ, List.foldl_cons, hstep, acted_end h n]

/-- The other objects keep their calls and their waits. -/
def Apart (c : CallId) (s t : RpcSystem) : Prop :=
  ∀ c', c' ≠ c → t.calls c' = s.calls c' ∧ ∀ wait : Wait, wait.call = c' → (wait ∈ t.waits ↔ wait ∈ s.waits)

namespace Apart

variable {u : RpcSystem} {c : CallId}

theorem trans (h : Apart c s t) (h' : Apart c t u) : Apart c s u := fun c' hc =>
  ⟨(h' c' hc).1.trans (h c' hc).1, fun wait hwait => ((h' c' hc).2 wait hwait).trans ((h c' hc).2 wait hwait)⟩

theorem same (hcalls : ∀ c', c' ≠ c → t.calls c' = s.calls c') (hwaits : t.waits = s.waits) : Apart c s t := fun c' hc =>
  ⟨hcalls c' hc, fun wait _ => by rw [hwaits]⟩

theorem cancelWaits (s : RpcSystem) (c : CallId) : Apart c s (s.cancelWaits c) := fun c' hc =>
  ⟨rfl, fun wait hwait => by
    have hne : wait.call ≠ c := hwait ▸ hc
    simp [RpcSystem.cancelWaits, hne]⟩

theorem stopTimer (s : RpcSystem) (c : CallId) : Apart c s (s.stopTimer c) := by
  unfold RpcSystem.stopTimer
  split
  · refine (cancelWaits s c).trans (same (fun c' hc => ?_) rfl)
    simp [modifyCall, hc]
  · exact same (fun _ _ => rfl) rfl

theorem complete {outcome : Outcome} {run : CallRun} (hc : s.complete c outcome = some (run, t)) : Apart c s t := by
  refine same (fun c' hc' => ?_) (complete_waits hc)
  unfold RpcSystem.complete at hc
  split at hc
  · simp only [Option.some.injEq, Prod.mk.injEq] at hc
    obtain ⟨_, rfl⟩ := hc
    simp [modifyCall, hc']
  · cases hc

theorem send (s : RpcSystem) (run : CallRun) (m : Meta) (c : CallId) : Apart c s (s.send run m) :=
  same (fun _ _ => by rw [(s.send_books run m).2.2.2]) (s.send_waits run m)

theorem timed_iff (h : Apart c s t) {c' : CallId} (hc : c' ≠ c) : t.Timed c' ↔ s.Timed c' := by
  unfold Timed
  rw [(h c' hc).1]
  refine and_congr_right fun _ => exists_congr fun wait => and_congr_left fun hwait => (h c' hc).2 wait hwait

end Apart

/-- An action on one object. -/
theorem acted_apart {thread : Thread} {a : Action} {rest : List Action} {ops : List (Thread × List Action)} {c : CallId}
    (h : t.ops = (thread, a :: rest) :: ops) (hapart : Apart c t (t.act a).1) :
    (t.step (.acted 0)).ops = (thread, (t.act a).2 ++ rest) :: ops ∧ Apart c t (t.step (.acted 0)) ∧
      (t.step (.acted 0)).ran = (t.act a).1.ran := by
  rw [acted_head h]
  exact ⟨rfl, hapart, rfl⟩

/-- The request of a call that is refused: its callback runs. -/
theorem refused_to_end {thread : Thread} {c : CallId} {g : Nat} {m : Meta} {ops : List (Thread × List Action)}
    (hops : t.ops = (thread, [.startTimer (c, g) m]) :: ops)
    (hnone : (t.calls c).session = none ∨ (t.calls c).timerHandle = false) (hpending : (t.calls c).state = .pending) :
    let u := (List.replicate 5 (RpcEvent.acted 0)).foldl step t
    u.ops = (thread, []) :: ops ∧ Apart c t u ∧ u.ran = ((c, (t.calls c).generation), .invalidRequest) :: t.ran := by
  obtain ⟨⟨run, completed⟩, hc⟩ : ∃ rs, t.complete c .invalidRequest = some rs := by simp [complete, hpending]
  have hrun : run = (c, (t.calls c).generation) := (complete_eq hc).2.1
  have hact : t.act (.startTimer (c, g) m) =
      (completed, [.take c, .stopTimer c, .callback run .invalidRequest, .send (c, g) m]) := by
    simp [act, hnone, hc, finish, hrun]
  have hran : completed.ran = t.ran := (complete_settled hc run).2.2.2
  obtain ⟨hops₁, hapart₁, hran₁⟩ := acted_apart hops (by rw [hact]; exact .complete hc)
  rw [hact] at hops₁ hran₁
  simp only [List.replicate_succ, List.replicate_zero, List.foldl_cons, List.foldl_nil]
  generalize t.step (.acted 0) = t₁ at hops₁ hapart₁ hran₁
  obtain ⟨hops₂, hapart₂, hran₂⟩ := acted_apart hops₁ (Apart.same (c := c) (fun _ _ => rfl) rfl)
  generalize t₁.step (.acted 0) = t₂ at hops₂ hapart₂ hran₂
  obtain ⟨hops₃, hapart₃, hran₃⟩ := acted_apart hops₂ (Apart.stopTimer t₂ c)
  generalize t₂.step (.acted 0) = t₃ at hops₃ hapart₃ hran₃
  obtain ⟨hops₄, hapart₄, hran₄⟩ := acted_apart hops₃ (Apart.same (c := c) (fun _ _ => rfl) rfl)
  generalize t₃.step (.acted 0) = t₄ at hops₄ hapart₄ hran₄
  obtain ⟨hops₅, hapart₅, hran₅⟩ := acted_apart hops₄ (Apart.send t₄ (c, g) m c)
  refine ⟨hops₅, hapart₁.trans (hapart₂.trans (hapart₃.trans (hapart₄.trans hapart₅))), ?_⟩
  rw [hran₅, ← hrun, ← hran, ← hran₁, ← show t₂.ran = t₁.ran from hran₂,
    ← show t₃.ran = t₂.ran from hran₃.trans (t₂.stopTimer_books c).2.1]
  exact (t₄.send_books (c, g) m).2.1.trans hran₄

/-- The request of a call that is not refused: its timer is started. -/
theorem started_to_end {thread : Thread} {c : CallId} {g : Nat} {m : Meta} {ops : List (Thread × List Action)}
    (hops : t.ops = (thread, [.startTimer (c, g) m]) :: ops)
    (hnone : ¬((t.calls c).session = none ∨ (t.calls c).timerHandle = false)) :
    let u := (List.replicate 5 (RpcEvent.acted 0)).foldl step t
    u.ops = (thread, []) :: ops ∧ Apart c t u ∧ u.ran = t.ran ∧ u.calls = t.calls ∧ u.workers = t.workers ∧
      ∃ wait ∈ u.waits, wait.call = c := by
  let armed := { t.cancelWaits c with waits := ⟨c, false⟩ :: (t.cancelWaits c).waits }
  have hact : t.act (.startTimer (c, g) m) = (armed.send (c, g) m, []) := by simp [act, hnone, armed]
  obtain ⟨_, hran, hworkers, hcalls⟩ := armed.send_books (c, g) m
  have hwaits := armed.send_waits (c, g) m
  have harmed : Apart c t armed := (Apart.cancelWaits t c).trans fun c' hc => ⟨rfl, fun wait hwait => by
    have hne : wait ≠ ⟨c, false⟩ := fun heq => hc (hwait ▸ heq ▸ rfl)
    simp [armed, hne]⟩
  have hapart : Apart c t (t.act (.startTimer (c, g) m)).1 := by
    rw [hact]
    exact harmed.trans (.send armed (c, g) m c)
  have hhead := acted_head hops
  rw [hact] at hhead
  have hstep : (List.replicate 5 (RpcEvent.acted 0)).foldl step t = t.step (.acted 0) := by
    rw [List.replicate_succ, List.foldl_cons, hhead]
    exact acted_end rfl 4
  obtain ⟨hops', hapart', hran'⟩ := acted_apart hops hapart
  rw [hstep]
  refine ⟨?_, hapart', ?_, ?_, ?_, ?_⟩
  · rw [hhead]
    rfl
  · rw [hhead]
    exact hran
  · rw [hhead]
    exact hcalls
  · rw [hhead]
    exact hworkers
  · rw [hhead]
    refine ⟨⟨c, false⟩, ?_, rfl⟩
    rw [hwaits]
    exact List.mem_cons_self

/-- The call of an await on a worker: it is refused, and its callback runs; or it is pending, stored and guarded. -/
structure Invoked (s : RpcSystem) (worker : Nat) (c : CallId) (t : RpcSystem) : Prop where
  ops   : t.ops = (.worker worker, []) :: s.ops
  apart : Apart c s t
  ends  : t.callbacksOf c = s.callbacksOf c + 1 ∨ t.callbacksOf c = s.callbacksOf c ∧ t.Guarded c

theorem invokeRpcCall_worker (s : RpcSystem) {worker : Nat} (hworker : worker < s.workers.length) (c : CallId) (m : Meta) :
    s.Invoked worker c (s.invokeRpcCall (.worker worker) c m) := by
  obtain ⟨w, hw⟩ : ∃ w, s.workers[worker]? = some w := ⟨_, List.getElem?_eq_getElem hworker⟩
  have hmade := callImpl_made c m hw
  have hpending : ((s.callImpl worker c m).calls c).state = .pending := by
    simp [callImpl, hw, RpcSystem.begin, modifyCall]
  have hwaits : (s.callImpl worker c m).waits = s.waits := by simp [callImpl, hw, RpcSystem.begin, modifyCall]
  have hran : (s.callImpl worker c m).ran = s.ran := by simp [callImpl, hw, RpcSystem.begin, modifyCall]
  have hops : ∃ m', (s.callImpl worker c m).ops =
      (.worker worker, [.startTimer (c, (s.calls c).generation + 1) m']) :: s.ops := by
    simp [callImpl, hw, RpcSystem.begin, modifyCall]
  have hinvoke : s.invokeRpcCall (.worker worker) c m =
      (List.replicate 5 (RpcEvent.acted 0)).foldl step (s.callImpl worker c m) := by
    simp [invokeRpcCall, getCurWorker, hworker]
  rw [hinvoke]
  generalize s.callImpl worker c m = called at hmade hpending hwaits hran hops
  obtain ⟨m', hops⟩ := hops
  have hapart : Apart c s called := .same hmade.others hwaits
  by_cases hnone : (called.calls c).session = none ∨ (called.calls c).timerHandle = false
  · obtain ⟨hops', hapart', hran'⟩ := refused_to_end hops hnone hpending
    refine ⟨hops', hapart.trans hapart', .inl ?_⟩
    unfold callbacksOf
    rw [hran', hran]
    simp
  · obtain ⟨hops', hapart', hran', hcalls', hworkers', hwait⟩ := started_to_end hops hnone
    refine ⟨hops', hapart.trans hapart', .inr ⟨?_, ⟨?_, hwait⟩, ?_⟩⟩
    · rw [callbacksOf, hran', hran, callbacksOf]
    · rw [hcalls']
      exact hpending
    · rw [sequenceId, hcalls', hmade.number.1, hmade.number.2, Waits, hworkers']
      exact hmade.stored

end RpcSystem

namespace AwaitSystem

/-! ## Awaits -/

/-- When `await_suspend` has returned, the coroutine goes on, or its call is pending, stored and guarded by a timer. -/
def Finishable (s : AwaitSystem) (thread : Thread) (c : CallId) (m : Meta) : Prop :=
  (s.awaitSuspend thread c m).2 = false ∨ (s.awaitSuspend thread c m).1.rpc.Guarded c

/-- What the awaits are left with that were suspended before: those of the object lose its callback. -/
theorem others_iff {s t : AwaitSystem} {c : CallId} (hcallbacks : t.callbacks = Function.update s.callbacks c (some s.next))
    (hapart : RpcSystem.Apart c s.rpc t.rpc) :
    (∀ a ∈ s.suspended, t.callbacks a.2 = some a.1 ∧ t.rpc.Timed a.2) ↔ s.NoneLeft ∧ ∀ a ∈ s.suspended, a.2 ≠ c := by
  have hlost : (∀ a ∈ s.suspended, t.callbacks a.2 = some a.1 ∧ t.rpc.Timed a.2) → ∀ a ∈ s.suspended, a.2 ≠ c := by
    intro h a ha heq
    have hcallback := (h a ha).1
    rw [hcallbacks, heq, Function.update_self] at hcallback
    exact absurd (Option.some.inj hcallback) (Nat.ne_of_gt (s.fresh a ha))
  have hkept : ∀ a : AwaitId × CallId, a.2 ≠ c →
      (t.callbacks a.2 = some a.1 ∧ t.rpc.Timed a.2 ↔ s.callbacks a.2 = some a.1 ∧ s.rpc.Timed a.2) := by
    intro a ha
    rw [hcallbacks, Function.update_of_ne ha, hapart.timed_iff ha]
  constructor
  · intro h
    have hother := hlost h
    exact ⟨fun a ha => (hkept a (hother a ha)).1 (h a ha), hother⟩
  · rintro ⟨hnone, hother⟩ a ha
    exact (hkept a (hother a ha)).2 (hnone a ha)

theorem awaitSuspend_snd (s : AwaitSystem) (thread : Thread) (c : CallId) (m : Meta) :
    (s.awaitSuspend thread c m).2 =
      !decide (s.rpc.callbacksOf c < (s.rpc.invokeRpcCall thread c m).callbacksOf c) :=
  Awaiter.awaitSuspend_finishSuspend .rpc _

/-- **When `await_suspend` has returned, its coroutine goes on or its call is guarded if and only if the thread is a worker
or the object had a guarded call before; and no await is left behind if and only if none was before, a timeout can end this
one, and no other waits for the object.** -/
theorem awaitSuspend_iff (s : AwaitSystem) (thread : Thread) (c : CallId) (m : Meta) :
    (s.Finishable thread c m ↔ (s.rpc.getCurWorker thread).isSome = true ∨ s.rpc.Guarded c) ∧
      ((s.awaitSuspend thread c m).1.NoneLeft ↔
        s.NoneLeft ∧ ((s.rpc.getCurWorker thread).isSome = true ∨ s.rpc.Timed c) ∧ ∀ a ∈ s.suspended, a.2 ≠ c) := by
  have hsuspends := s.awaitSuspend_snd thread c m
  have hcallbacks : (s.awaitSuspend thread c m).1.callbacks = Function.update s.callbacks c (some s.next) := rfl
  have hrpc : (s.awaitSuspend thread c m).1.rpc = s.rpc.invokeRpcCall thread c m := rfl
  have hsuspended : (s.awaitSuspend thread c m).1.suspended =
      if (s.awaitSuspend thread c m).2 then (s.next, c) :: s.suspended else s.suspended := rfl
  unfold Finishable
  generalize s.awaitSuspend thread c m = r at hsuspends hcallbacks hrpc hsuspended
  obtain ⟨t, suspends⟩ := r
  dsimp only at hsuspends hcallbacks hrpc hsuspended ⊢
  have hnew : t.callbacks c = some s.next := by rw [hcallbacks, Function.update_self]
  rcases hworker : s.rpc.getCurWorker thread with _ | worker
  · -- no call is made
    have hsame : s.rpc.invokeRpcCall thread c m = s.rpc := by simp [RpcSystem.invokeRpcCall, hworker]
    rw [hsame] at hrpc hsuspends
    obtain rfl : suspends = true := by simpa using hsuspends
    rw [if_pos rfl] at hsuspended
    have hothers := others_iff hcallbacks (.same (fun _ _ => by rw [hrpc]) (by rw [hrpc]))
    have hleft : t.NoneLeft ↔ t.rpc.Timed c ∧ ∀ a ∈ s.suspended, t.callbacks a.2 = some a.1 ∧ t.rpc.Timed a.2 := by
      unfold NoneLeft
      rw [hsuspended, List.forall_mem_cons, and_iff_right hnew]
    rw [hleft, hothers, hrpc]
    simp only [Option.isSome_none, Bool.false_eq_true, false_or, Bool.true_eq_false, and_left_comm, true_and]
  · obtain ⟨rfl, hlt⟩ : thread = .worker worker ∧ worker < s.rpc.workers.length := by
      cases thread with
      | io n     => cases hworker
      | other n  => cases hworker
      | worker k =>
        simp only [RpcSystem.getCurWorker, Option.ite_none_right_eq_some, Option.some.injEq] at hworker
        exact ⟨by rw [hworker.2], hworker.2 ▸ hworker.1⟩
    obtain ⟨_, hapart, hends⟩ := s.rpc.invokeRpcCall_worker hlt c m
    rw [← hrpc] at hapart hends hsuspends
    have hothers := others_iff hcallbacks hapart
    simp only [Option.isSome_some, true_or, iff_true, true_and]
    rcases hends with hran | ⟨hran, hguarded⟩
    · -- the call was refused, and its callback has completed the await
      obtain rfl : suspends = false := by simp [hsuspends, hran]
      refine ⟨.inl rfl, ?_⟩
      rw [NoneLeft, hsuspended]
      exact hothers
    · obtain rfl : suspends = true := by simp [hsuspends, hran]
      refine ⟨.inr hguarded, ?_⟩
      rw [NoneLeft, hsuspended, if_pos rfl, List.forall_mem_cons]
      exact (and_iff_right ⟨hnew, hguarded.1⟩).trans hothers

/-- An await on an IO thread, of a call object that was never used. -/
theorem not_finishable : ¬∀ (s : AwaitSystem) (thread : Thread) (c : CallId) (m : Meta), s.Finishable thread c m := by
  intro h
  rcases h {} (.io 0) 0 .init with hgoes | hguarded
  · cases hgoes
  · obtain ⟨⟨_, wait, hwait, _⟩, _⟩ := hguarded
    cases hwait

end AwaitSystem

end Gb
