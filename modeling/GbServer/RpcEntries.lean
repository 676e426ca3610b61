import GbServer.RpcAuthenticity
/-!
# RpcEntries — what takes a call from its worker

An entry of `pending_rpcs_` goes away where a response finds it and where an operation that completed a call takes it
(`step_entries`): any such operation takes what the call object says at that moment, which is why it matters what is left
of the earlier calls of an object (`Leftover`).
-/
namespace Gb

open Tally

namespace RpcSystem

/-- An operation has an action to do. -/
def Doing (s : RpcSystem) (a : Action) : Prop := ∃ op ∈ s.ops, a ∈ op.2

/-- Something is on its way that takes the call from its worker. -/
def Leftover (s : RpcSystem) (c : CallId) : Prop :=
  s.Doing (.take c) ∨ (∃ g, s.Doing (.postTimeout (c, g))) ∨ ∃ worker g, s.Placed worker (.timeout (c, g))

/-- The step takes what is stored under a number for a call that was completed. -/
def Takes (s : RpcSystem) (event : RpcEvent) (worker seq : Nat) : Prop :=
  ∃ k op c, event = .acted k ∧ s.ops[k]? = some op ∧ op.2.head? = some (.take c) ∧ worker = (s.calls c).workerIndex ∧
    seq = (s.calls c).localSeq

/-- What a step that makes no call does with the numbers and the entries. -/
structure Entries (s : RpcSystem) (event : RpcEvent) (t : RpcSystem) : Prop where
  calls      : ∀ c, (t.calls c).workerIndex = (s.calls c).workerIndex ∧ (t.calls c).localSeq = (s.calls c).localSeq
  length     : s.workers.length ≤ t.workers.length
  workers    : ∀ worker w, t.workers[worker]? = some w →
    (∃ v, s.workers[worker]? = some v ∧ v.rpcSeqCounter = w.rpcSeqCounter) ∨ s.workers.length ≤ worker
  leftover   : ∀ c, t.Leftover c → s.Leftover c ∨ (s.calls c).state = .pending ∧ (t.calls c).state ≠ .pending
  waits      : ∀ worker seq c, s.Waits worker seq c →
    t.Waits worker seq c ∨ (∃ session m, t.Completing c session m) ∨ s.Takes event worker seq
  completing : ∀ c session m, s.Completing c session m → t.Completing c session m ∨ (t.calls c).state ≠ .pending

variable {s t : RpcSystem} {event : RpcEvent}

theorem leftover_congr (hops : t.ops = s.ops) (hworkers : t.workers = s.workers) {c : CallId} (h : t.Leftover c) :
    s.Leftover c := by
  rcases h with h | ⟨g, h⟩ | ⟨worker, g, h⟩
  · rw [Doing, hops] at h
    exact .inl h
  · rw [Doing, hops] at h
    exact .inr (.inl ⟨g, h⟩)
  · exact .inr (.inr ⟨worker, g, placed_congr hops hworkers h⟩)

theorem complete_calls {c : CallId} {outcome : Outcome} {run : CallRun} (hc : s.complete c outcome = some (run, t)) :
    (∀ c', (t.calls c').workerIndex = (s.calls c').workerIndex ∧ (t.calls c').localSeq = (s.calls c').localSeq) ∧
      run.1 = c ∧ (s.calls c).state = .pending ∧ (t.calls c).state ≠ .pending := by
  obtain ⟨hpending, hrun, _⟩ := complete_eq hc
  unfold RpcSystem.complete at hc
  rw [if_pos hpending] at hc
  simp only [Option.some.injEq, Prod.mk.injEq] at hc
  obtain ⟨_, rfl⟩ := hc
  refine ⟨fun c' => ?_, by rw [hrun], hpending, ?_⟩
  · by_cases hc' : c' = c
    · subst hc'
      simp [modifyCall]
    · simp [modifyCall, hc']
  · cases outcome <;> simp [modifyCall, Outcome.state]

/-- A worker changes, and no timeout is added. -/
theorem leftover_modify {c : CallId} (h : t.Leftover c) {worker : Nat} {f : Worker RpcTask → Worker RpcTask}
    (hops : t.ops = s.ops) (hworkers : t.workers = s.workers.modify worker f)
    (hevents : ∀ w run, RpcTask.timeout run ∈ (f w).events → .timeout run ∈ w.events) : s.Leftover c := by
  rcases h with h | ⟨g, h⟩ | ⟨worker', g, h⟩
  · rw [Doing, hops] at h
    exact .inl h
  · rw [Doing, hops] at h
    exact .inr (.inl ⟨g, h⟩)
  · exact .inr (.inr ⟨worker', g, placed_modify h hops hworkers fun w => hevents w _⟩)

/-- An operation begins that queues no timeout. -/
theorem leftover_begin {thread : Thread} {actions : List Action}
    (htimeouts : ∀ worker run, .post worker (.timeout run) ∉ actions ∧ .enqueue worker (.timeout run) ∉ actions)
    {c : CallId} (h : (t.begin thread actions).Leftover c) :
    t.Leftover c ∨ .take c ∈ actions ∨ ∃ g, .postTimeout (c, g) ∈ actions := by
  rcases h with ⟨op, hop, hmem⟩ | ⟨g, op, hop, hmem⟩ | ⟨worker, g, hplaced⟩
  · rcases List.mem_cons.1 hop with rfl | hop
    · exact .inr (.inl hmem)
    · exact .inl (.inl ⟨op, hop, hmem⟩)
  · rcases List.mem_cons.1 hop with rfl | hop
    · exact .inr (.inr ⟨g, hmem⟩)
    · exact .inl (.inr (.inl ⟨g, op, hop, hmem⟩))
  · rcases placed_begin hplaced with hplaced | hmem | hmem
    · exact .inl (.inr (.inr ⟨worker, g, hplaced⟩))
    · exact absurd hmem (htimeouts worker _).1
    · exact absurd hmem (htimeouts worker _).2

namespace Entries

/-- The operations and the workers do not change. -/
theorem books (hops : t.ops = s.ops) (hworkers : t.workers = s.workers)
    (hcalls : ∀ c, (t.calls c).workerIndex = (s.calls c).workerIndex ∧ (t.calls c).localSeq = (s.calls c).localSeq) :
    s.Entries event t where
  calls      := hcalls
  length     := by rw [hworkers]
  workers    := fun worker w hw => .inl ⟨w, hworkers ▸ hw, rfl⟩
  leftover   := fun c h => .inl (leftover_congr hops hworkers h)
  waits      := fun worker seq c h => by
    rw [Waits, ← hworkers] at h
    exact .inl h
  completing := fun c session m h => by
    rw [Completing, ← hops] at h
    exact .inl h

theorem refl (s : RpcSystem) : s.Entries event s := books rfl rfl fun _ => ⟨rfl, rfl⟩

/-- A worker changes, but neither its counter nor its entries, and no timeout is added. -/
theorem modify (s : RpcSystem) (worker : Nat) {f : Worker RpcTask → Worker RpcTask}
    (hf : ∀ w, (f w).rpcSeqCounter = w.rpcSeqCounter ∧ (f w).pendingRpcs = w.pendingRpcs)
    (hevents : ∀ w run, RpcTask.timeout run ∈ (f w).events → .timeout run ∈ w.events) :
    s.Entries event { s with workers := s.workers.modify worker f } where
  calls      := fun _ => ⟨rfl, rfl⟩
  length     := by simp
  workers    := fun worker' w hw => by
    obtain ⟨v, hold, ⟨_, rfl⟩ | ⟨_, rfl⟩⟩ := of_getElem?_modify hw
    · exact .inl ⟨v, hold, (hf v).1.symm⟩
    · exact .inl ⟨w, hold, rfl⟩
  leftover   := fun c h => .inl (leftover_modify h rfl rfl hevents)
  waits      := by
    rintro worker' seq c ⟨w, hw, hc⟩
    refine .inl ?_
    by_cases hne : worker' = worker
    · subst hne
      exact ⟨f w, by simp [hw], by rwa [(hf w).2]⟩
    · exact ⟨w, by simp [hw, Ne.symm hne], hc⟩
  completing := fun c session m h => .inl h

/-- An operation begins that takes calls only that it completed. -/
theorem begin (h : s.Entries event t) (thread : Thread) {actions : List Action}
    (hactions : ∀ c, (.take c ∈ actions ∨ ∃ g, .postTimeout (c, g) ∈ actions) →
      s.Leftover c ∨ (s.calls c).state = .pending ∧ (t.calls c).state ≠ .pending)
    (htimeouts : ∀ worker run, .post worker (.timeout run) ∉ actions ∧ .enqueue worker (.timeout run) ∉ actions) :
    s.Entries event (t.begin thread actions) where
  calls      := h.calls
  length     := h.length
  workers    := h.workers
  leftover   := fun c hc => by
    rcases leftover_begin htimeouts hc with hc | hc
    · exact h.leftover c hc
    · exact hactions c hc
  waits      := fun worker seq c hc => by
    rcases h.waits worker seq c hc with hc | ⟨session, m, op, hop, hmem⟩ | hc
    · exact .inl hc
    · exact .inr (.inl ⟨session, m, op, List.mem_cons_of_mem _ hop, hmem⟩)
    · exact .inr (.inr hc)
  completing := fun c session m hc => by
    rcases h.completing c session m hc with ⟨op, hop, hmem⟩ | hc
    · exact .inl ⟨op, List.mem_cons_of_mem _ hop, hmem⟩
    · exact .inr hc

/-- A call is completed. -/
theorem complete {c : CallId} {outcome : Outcome} {run : CallRun} (hc : s.complete c outcome = some (run, t)) :
    s.Entries event t :=
  books (complete_frame hc).1 (complete_frame hc).2.1 (complete_calls hc).1

end Entries

/-- What an action does with the numbers and the entries. -/
structure ActEntries (s : RpcSystem) (a : Action) : Prop where
  calls   : ∀ c, ((s.act a).1.calls c).workerIndex = (s.calls c).workerIndex ∧
    ((s.act a).1.calls c).localSeq = (s.calls c).localSeq
  length  : (s.act a).1.workers.length = s.workers.length
  workers : ∀ (worker : Nat) (w : Worker RpcTask), (s.act a).1.workers[worker]? = some w →
    ∃ v : Worker RpcTask, s.workers[worker]? = some v ∧ v.rpcSeqCounter = w.rpcSeqCounter
  take    : ∀ c, .take c ∈ (s.act a).2 → (s.calls c).state = .pending ∧ ((s.act a).1.calls c).state ≠ .pending
  waits   : ∀ worker seq c, s.Waits worker seq c → (s.act a).1.Waits worker seq c ∨
    ∃ c', a = .take c' ∧ worker = (s.calls c').workerIndex ∧ seq = (s.calls c').localSeq
  done    : ∀ c session m, a = .done c session m → ((s.act a).1.calls c).state ≠ .pending

/-- An action that leaves the workers. -/
theorem ActEntries.books {a : Action} (hworkers : (s.act a).1.workers = s.workers)
    (hcalls : ∀ c, ((s.act a).1.calls c).workerIndex = (s.calls c).workerIndex ∧
      ((s.act a).1.calls c).localSeq = (s.calls c).localSeq)
    (htake : ∀ c, .take c ∈ (s.act a).2 → (s.calls c).state = .pending ∧ ((s.act a).1.calls c).state ≠ .pending)
    (hdone : ∀ c session m, a = .done c session m → ((s.act a).1.calls c).state ≠ .pending) : s.ActEntries a where
  calls   := hcalls
  length  := by rw [hworkers]
  workers := fun worker w hw => ⟨w, hworkers ▸ hw, rfl⟩
  take    := htake
  waits   := fun worker seq c h => by
    rw [Waits, ← hworkers] at h
    exact .inl h
  done    := hdone

theorem act_entries (s : RpcSystem) (a : Action) : s.ActEntries a := by
  cases a with
  | startTimer run m =>
    rcases s.act_startTimer_cases run m with hact | ⟨rs, hc, hact⟩ | hact
    · apply ActEntries.books <;> simp [hact]
    · obtain ⟨hcalls, _, hpending, hleft⟩ := complete_calls hc
      apply ActEntries.books
      · rw [hact]
        exact (complete_frame hc).2.1
      · rwa [hact]
      · rw [hact]
        simp only [finish, List.cons_append, List.nil_append, List.mem_cons, Action.take.injEq, reduceCtorEq,
          List.not_mem_nil, or_false]
        rintro c rfl
        exact ⟨hpending, hleft⟩
      · simp
    · obtain ⟨_, _, hworkers, hcalls⟩ :=
        { s.cancelWaits run.1 with waits := ⟨run.1, false⟩ :: (s.cancelWaits run.1).waits }.send_books run m
      apply ActEntries.books <;> rw [hact]
      · exact hworkers
      · intro c
        rw [hcalls]
        exact ⟨rfl, rfl⟩
      all_goals simp
  | send run m =>
    obtain ⟨_, _, hworkers, hcalls⟩ := s.send_books run m
    apply ActEntries.books
    · exact hworkers
    · simp [act, hcalls]
    all_goals simp [act]
  | done c session m =>
    rcases s.act_done_cases c session m with ⟨hc, hact⟩ | ⟨rs, hc, hact⟩
    · have hleft : (s.calls c).state ≠ .pending := by
        intro hpending
        simp [complete, hpending] at hc
      apply ActEntries.books
      · rw [hact]
      · simp [hact]
      · simp [hact]
      · intro c' session' m' heq
        injection heq with heq
        rw [hact, ← heq]
        exact hleft
    · obtain ⟨hcalls, _, _, hleft⟩ := complete_calls hc
      apply ActEntries.books
      · rw [hact]
        exact (complete_frame hc).2.1
      · rw [hact]
        exact hcalls
      · simp [hact, finish]
      · intro c' session' m' heq
        injection heq with heq
        rw [hact, ← heq]
        exact hleft
  | take c =>
    refine ⟨fun _ => ⟨rfl, rfl⟩, by simp [act], fun worker w hw => ?_, by simp [act], ?_, by simp⟩
    · obtain ⟨v, hold, ⟨_, rfl⟩ | ⟨_, rfl⟩⟩ := of_getElem?_modify hw
      · exact ⟨v, hold, rfl⟩
      · exact ⟨w, hold, rfl⟩
    · rintro worker seq c' ⟨w, hw, hc⟩
      by_cases hworker : worker = (s.calls c).workerIndex
      · by_cases hseq : seq = (s.calls c).localSeq
        · exact .inr ⟨c, rfl, hworker, hseq⟩
        · refine .inl ⟨(w.takePendingRpc (s.calls c).localSeq).2, ?_, ?_⟩
          · simp [act, ← hworker, hw]
          · simp [Worker.takePendingRpc, hseq, hc]
      · refine .inl ⟨w, ?_, hc⟩
        simp [act, Ne.symm hworker, hw]
  | stopTimer c =>
    apply ActEntries.books
    · exact (s.stopTimer_books c).2.2
    · intro c'
      simp only [act, stopTimer]
      split
      · by_cases hc : c' = c
        · subst hc
          simp [modifyCall, cancelWaits]
        · simp [modifyCall, cancelWaits, hc]
      · exact ⟨rfl, rfl⟩
    all_goals simp [act]
  | callback run outcome => apply ActEntries.books <;> simp [act]
  | postTimeout run =>
    by_cases hlt : (s.calls run.1).workerIndex < s.workers.length
    all_goals apply ActEntries.books <;> simp [act, hlt]
  | post worker task =>
    by_cases haccepts : ((s.workers[worker]?).any fun w => w.accepts false) = true
    all_goals apply ActEntries.books <;> simp [act, haccepts]
  | enqueue worker task =>
    refine ⟨fun _ => ⟨rfl, rfl⟩, by simp [act], fun worker' w hw => ?_, by simp [act], ?_, by simp⟩
    · obtain ⟨v, hold, ⟨_, rfl⟩ | ⟨_, rfl⟩⟩ := of_getElem?_modify hw
      · exact ⟨v, hold, rfl⟩
      · exact ⟨w, hold, rfl⟩
    · rintro worker' seq c ⟨w, hw, hc⟩
      refine .inl ?_
      by_cases hworker : worker' = worker
      · subst hworker
        exact ⟨w.enqueue task, by simp [act, hw], hc⟩
      · exact ⟨w, by simp [act, Ne.symm hworker, hw], hc⟩

theorem acted_entries {k : Nat} {thread : Thread} {action : Action} {rest : List Action}
    (hop : s.ops[k]? = some (thread, action :: rest)) :
    s.Entries (.acted k) { (s.act action).1 with ops := s.ops.set k (thread, (s.act action).2 ++ rest) } := by
  have hact := s.act_entries action
  have hframe := s.act_frame action
  have hmem := List.mem_of_getElem? hop
  have hlt := (List.getElem?_eq_some_iff.1 hop).1
  -- what an operation has to do was to do before, or the action brings it
  have hdoing : ∀ a, Doing { (s.act action).1 with ops := s.ops.set k (thread, (s.act action).2 ++ rest) } a →
      s.Doing a ∨ a ∈ (s.act action).2 := by
    rintro a ⟨op, hop', ha⟩
    rcases List.mem_or_eq_of_mem_set hop' with hop' | rfl
    · exact .inl ⟨op, hop', ha⟩
    · rcases List.mem_append.1 ha with ha | ha
      · exact .inr ha
      · exact .inl ⟨_, hmem, List.mem_cons_of_mem action ha⟩
  refine ⟨hact.calls, hact.length.ge, fun worker w hw => .inl (hact.workers worker w hw), fun c hc => ?_,
    fun worker seq c hc => ?_, ?_⟩
  · rcases hc with hc | ⟨g, hc⟩ | ⟨worker, g, hplaced⟩
    · rcases hdoing _ hc with hc | hc
      · exact .inl (.inl hc)
      · exact .inr (hact.take c hc)
    · rcases hdoing _ hc with hc | hc
      · exact .inl (.inr (.inl ⟨g, hc⟩))
      · exact absurd hc (hframe.next.1 (c, g))
    · rcases placed_acted hop hplaced with hplaced | ⟨run, rfl, heq, _⟩
      · exact .inl (.inr (.inr ⟨worker, g, hplaced⟩))
      · injection heq with heq
        subst heq
        exact .inl (.inr (.inl ⟨g, _, hmem, List.mem_cons_self⟩))
  · rcases hact.waits worker seq c hc with hc | ⟨c', rfl, hworker, hseq⟩
    · exact .inl hc
    · exact .inr (.inr ⟨k, _, c', rfl, hop, rfl, hworker, hseq⟩)
  · rintro c session m ⟨op, hop', hdone⟩
    obtain ⟨j, hj⟩ := List.mem_iff_getElem?.1 hop'
    by_cases hjk : j = k
    · subst hjk
      rw [hop] at hj
      obtain rfl := Option.some.inj hj
      rcases List.mem_cons.1 hdone with hdone | hdone
      · exact .inr (hact.done c session m hdone.symm)
      · refine .inl ⟨_, List.mem_set hlt _, List.mem_append_right _ hdone⟩
    · refine .inl ⟨op, ?_, hdone⟩
      apply List.mem_of_getElem? (i := j)
      rw [List.getElem?_set_ne (Ne.symm hjk)]
      exact hj

theorem worked_entries {worker k : Nat} {w : Worker RpcTask} {task : RpcTask} (hw : s.workers[worker]? = some w)
    (htask : w.events[k]? = some task) :
    let popped := { s with workers := s.workers.modify worker fun w => { w with events := w.events.eraseIdx k } }
    s.Entries event ((popped.runTask worker task).1.begin (.worker worker) (popped.runTask worker task).2) := by
  intro popped
  have hpopped : s.Entries event popped :=
    .modify s worker (fun _ => ⟨rfl, rfl⟩) fun _ _ => List.mem_of_mem_eraseIdx
  cases task with
  | response session m localSeq =>
    rcases popped.runTask_response_cases worker session m localSeq with hrun | ⟨c, hc, hrun⟩
    · rw [hrun]
      exact hpopped.begin _ (by simp) (by simp)
    · rw [hrun]
      refine ⟨fun _ => ⟨rfl, rfl⟩, by simp [RpcSystem.begin, popped], fun worker' v hv => ?_, fun c' hc' => ?_,
        fun worker' seq c' hwaits => ?_, fun c' session' m' hc' => ?_⟩
      · obtain ⟨u, hold, ⟨_, rfl⟩ | ⟨_, rfl⟩⟩ := of_getElem?_modify hv
        · exact hpopped.workers worker' u hold
        · exact hpopped.workers worker' v hold
      · rcases leftover_begin (by simp) hc' with hc' | hc'
        · exact hpopped.leftover c' (leftover_modify (s := popped) hc' rfl rfl fun _ _ => id)
        · simp at hc'
      · have hthere : popped.Waits worker' seq c' := by
          obtain ⟨v, hv, hc'⟩ := hwaits
          by_cases hworker : worker' = worker
          · subst hworker
            exact ⟨{ v with events := v.events.eraseIdx k }, by simp [popped, hv], hc'⟩
          · exact ⟨v, by simp [popped, Ne.symm hworker, hv], hc'⟩
        obtain ⟨v, hv, hc'⟩ := hthere
        by_cases hworker : worker' = worker
        · subst hworker
          by_cases hseq : seq = localSeq
          · -- the call that the response completes
            subst hseq
            have heq : c' = c := by
              simpa [hv, Worker.takePendingRpc, hc'] using hc
            subst heq
            exact .inr (.inl ⟨session, m, _, List.mem_cons_self, List.mem_cons_self⟩)
          · refine .inl ⟨(v.takePendingRpc localSeq).2, ?_, ?_⟩
            · simp [RpcSystem.begin, hv]
            · simp [Worker.takePendingRpc, hseq, hc']
        · exact .inl ⟨v, by simp [RpcSystem.begin, Ne.symm hworker, hv], hc'⟩
      · obtain ⟨op, hop, hdone⟩ := hc'
        exact .inl ⟨op, List.mem_cons_of_mem _ hop, hdone⟩
  | timeout run =>
    have hplaced : s.Placed worker (.timeout run) := .inr ⟨w, hw, List.mem_of_getElem? htask⟩
    change s.Entries event (popped.begin (.worker worker) (.take run.1 :: finish run .timeout))
    apply hpopped.begin
    · intro c hc
      have hc : c = run.1 := by simpa [finish] using hc
      exact .inl (.inr (.inr ⟨worker, run.2, hc ▸ hplaced⟩))
    · simp [finish]
  | other n     =>
    change s.Entries event (popped.begin (.worker worker) [])
    exact hpopped.begin _ (by simp) (by simp)

/-- **What a step that makes no call does with the numbers and the entries.** -/
theorem step_entries (s : RpcSystem) (event : RpcEvent)
    (hcalled : ∀ worker c m, event = .called worker c m → s.MayCall (.worker worker) → s.workers[worker]? = none) :
    s.Entries event (s.step event) := by
  cases event with
  | created =>
    unfold step
    dsimp only
    split
    · refine ⟨fun _ => ⟨rfl, rfl⟩, by simp, fun worker w hw => ?_, fun c hc => .inl ?_, ?_, fun _ _ _ hc => .inl hc⟩
      · rw [List.getElem?_append] at hw
        split at hw
        · exact .inl ⟨w, hw, rfl⟩
        · exact .inr (by omega)
      · rcases hc with hc | hc | ⟨worker, g, hc | ⟨w, hw, hmem⟩⟩
        · exact .inl hc
        · exact .inr (.inl hc)
        · exact .inr (.inr ⟨worker, g, .inl hc⟩)
        · rw [List.getElem?_append] at hw
          split at hw
          · exact .inr (.inr ⟨worker, g, .inr ⟨w, hw, hmem⟩⟩)
          · -- a new worker has no tasks
            obtain rfl := List.mem_singleton.1 (List.mem_of_getElem? hw)
            cases hmem
      · rintro worker seq c ⟨w, hw, hc⟩
        exact .inl ⟨w, by rw [List.getElem?_append_left (List.getElem?_eq_some_iff.1 hw).1, hw], hc⟩
    · exact .refl s
  | changed worker event =>
    cases event with
    | init index => exact .refl s
    | exit       =>
      refine .modify s worker (fun w => ?_) fun w run hmem => ?_
      · change w.exit.rpcSeqCounter = w.rpcSeqCounter ∧ w.exit.pendingRpcs = w.pendingRpcs
        unfold Worker.exit
        split <;> exact ⟨rfl, rfl⟩
      · rwa [WorkerEvent.events_apply] at hmem
    | _          => exact .modify s worker (fun _ => ⟨rfl, rfl⟩) fun _ _ => id
  | posted worker n =>
    refine .modify s worker (fun w => ?_) fun w run hmem => ?_
    · unfold Worker.post Worker.enqueueTask
      split <;> exact ⟨rfl, rfl⟩
    · rcases Worker.mem_post hmem with hmem | heq
      · exact hmem
      · cases heq
  | setSession c session =>
    refine .books rfl rfl fun c' => ?_
    by_cases hc : c' = c
    · subst hc
      simp [step, modifyCall]
    · simp [step, modifyCall, hc]
  | setTimeout c hasSession =>
    refine .books rfl rfl fun c' => ?_
    by_cases hc : c' = c
    · subst hc
      simp [step, modifyCall]
    · simp [step, modifyCall, hc]
  | called worker c m =>
    unfold step
    dsimp only
    split
    · rename_i hmay
      have hsame : s.callImpl worker c m = s := by simp [callImpl, hcalled worker c m rfl hmay]
      rw [hsame]
      exact .refl s
    · exact .refl s
  | cancelled thread c =>
    unfold step
    dsimp only
    cases hc : s.complete c .cancel with
    | none    => exact .refl s
    | some rs =>
      obtain ⟨_, _, hstate⟩ := complete_calls hc
      apply (Entries.complete hc).begin
      · intro c' hc'
        have hc' : c' = c := by simpa [finish] using hc'
        rw [hc']
        exact .inr hstate
      · simp [finish]
  | received io session m =>
    unfold step
    dsimp only
    split
    · exact (Entries.refl s).begin _ (by simp) (by simp)
    · exact .refl s
  | fired k => exact .books rfl rfl fun _ => ⟨rfl, rfl⟩
  | expired io k =>
    unfold step
    dsimp only
    cases s.waits[k]? with
    | none      => exact .refl s
    | some wait =>
      by_cases hfired : wait.fired
      · simp only [hfired, if_true]
        cases hc : { s with waits := s.waits.eraseIdx k }.complete wait.call .timeout with
        | none    => exact .books rfl rfl fun _ => ⟨rfl, rfl⟩
        | some rs =>
          obtain ⟨hcalls, hrun, hstate⟩ := complete_calls hc
          have hentries : s.Entries (.expired io k) rs.2 := .books (complete_frame hc).1 (complete_frame hc).2.1 hcalls
          apply hentries.begin
          · simp only [List.mem_singleton, reduceCtorEq, Action.postTimeout.injEq, false_or]
            rintro c ⟨g, heq⟩
            have hcall : c = wait.call := by rw [← hrun, ← heq]
            rw [hcall]
            exact .inr hstate
          · simp
      · simp only [hfired, if_false, Bool.false_eq_true]
        exact .refl s
  | worked worker k =>
    unfold step
    dsimp only
    cases hw : s.workers[worker]? with
    | none   => exact .refl s
    | some w =>
      by_cases hready : w.exited = false ∧ s.Idle (.worker worker)
      · simp only [if_pos hready]
        cases htask : w.events[k]? with
        | none      => exact .refl s
        | some task => exact worked_entries hw htask
      · simp only [if_neg hready]
        exact .refl s
  | acted k =>
    unfold step
    dsimp only
    split
    · rename_i hop
      exact acted_entries hop
    · exact .refl s

end RpcSystem

end Gb
