import GbServer.GracefulShutdown
/-!
# ShutdownDrain — what has run when the phase Cleaning begins

`run_drained` is about runs in which
- no task that is owed finds its worker in shutdown mode, or stopped;
- `OnPhaseProcessingTasks` finds the queue of a worker empty only when no task that is owed is with a thread that took it
  from the queue, or on its way into the queue;
- its time limit passes only when the same holds of all workers, and nothing is left in their queues;
- no task is on its way into the queue of the pool when the last thread of the pool leaves.
-/
namespace Gb

open Run (Along)
open Threads Interleaving Tally

theorem AppTask.owedId_eq_nil {task : AppTask} (h : task.owed = false) : task.owedId = [] := by
  cases task with
  | posted id owed =>
    cases h
    rfl
  | cleanup        => rfl

theorem AppTask.accepted_of_requested (task : AppTask) : task.accepted true = task := by
  cases task <;> simp [AppTask.accepted]

namespace AppAction

variable {n : Nat}

/-- What the action is for the pool. -/
def pool? : AppAction n → Option (PoolAction AppTask)
  | pool a => some a
  | _      => none

/-- One of the phases, up to `Cleaning`. -/
def phases : AppAction n → Nat
  | finalFrame _        => 1
  | stopPool            => 1
  | storePoolRunning    => 1
  | joinPool            => 1
  | enterShutdownMode _ => 1
  | poll                => 1
  | readPending _ _     => 1
  | clean               => 1
  | _                   => 0

/-- Before the pool is stopped. -/
def early : AppAction n → Bool
  | finalFrame _     => true
  | stopPool         => true
  | storePoolRunning => true
  | _                => false

/-- Behind the `Stop` of the pool. -/
def late : AppAction n → Bool
  | enterShutdownMode _ => true
  | poll                => true
  | readPending _ _     => true
  | clean               => true
  | _                   => false

/-- When all workers are in shutdown mode. -/
def waits : AppAction n → Bool
  | poll            => true
  | readPending _ _ => true
  | clean           => true
  | _               => false

/-- With a task, of a worker or of the pool. -/
def busy : AppAction n → Bool
  | running _ (.task _) => true
  | pool (.run _ _)     => true
  | _                   => false

/-- How often an action carries a task that is owed and has not run. -/
def carries (id : Nat) : AppAction n → Nat
  | running _ (.task task) => task.owedId.count id
  | _                      => 0

/-- With a task that is owed and was taken from the queue of a worker, or that was found not to be in shutdown mode. -/
def holds (w : Fin (n + 1)) : AppAction n → Bool
  | running v (.task task) => v = w ∧ task.owed = true
  | testRuning v task      => v = w ∧ task.owed = true
  | enqueue v task         => v = w ∧ task.owed = true
  | _                      => false

end AppAction

namespace GracefulShutdown

variable {n : Nat}

/-- The pool and what the threads have to do for it. -/
def poolThreads (s : AppThreads n) : PoolThreads AppTask := ⟨s.shared.pool, project AppAction.pool? s.ops⟩

/-- Nothing that is owed is left with a worker. -/
structure Settled (s : AppThreads n) (w : Fin (n + 1)) : Prop where
  events : ∀ task ∈ (s.shared.workers w).events, task.owed = false
  held   : ¬Anywhere s.ops (AppAction.holds w)

instance (s : AppThreads n) (w : Fin (n + 1)) : Decidable (Settled s w) :=
  decidable_of_iff ((∀ task ∈ (s.shared.workers w).events, task.owed = false) ∧ ¬Anywhere s.ops (AppAction.holds w))
    ⟨fun h => ⟨h.1, h.2⟩, fun h => ⟨h.1, h.2⟩⟩

/-- Whether `EnqueueTask` drops a task that is owed. -/
def drops (s : GracefulShutdown n) : AppAction n → Bool
  | .testShuttingDown w task => s.requested && task.owed && (s.workers w).shuttingDown
  | .testRuning w task       => s.requested && task.owed && !(s.workers w).runing
  | _                        => false

/-- The worker whose queue is found empty, while all queues before it have been. -/
def findsEmpty (s : GracefulShutdown n) : AppAction n → Option (Fin (n + 1))
  | .readPending (w :: _) true => if (s.workers w).events = [] then some w else none
  | _                          => none

/-- The condition on a step. -/
structure Awaited (s : AppThreads n) (_ : Nat) (input : AppInput n) (a : AppAction n) : Prop where
  kept   : s.shared.drops a = false
  empty  : ∀ w, s.shared.findsEmpty a = some w → Settled s w
  timely : a = .poll → input.timedOut = true → ∀ w, Settled s w
  pool   : a = .pool .drain → s.shared.pool.live = 1 → s.shared.pool.queue = [] →
    ¬Anywhere (poolThreads s).ops PoolAction.adds

instance (s : AppThreads n) (k : Nat) (input : AppInput n) (a : AppAction n) : Decidable (Awaited s k input a) :=
  decidable_of_iff (s.shared.drops a = false ∧ (∀ w, s.shared.findsEmpty a = some w → Settled s w) ∧
      (a = .poll → input.timedOut = true → ∀ w, Settled s w) ∧
      (a = .pool .drain → s.shared.pool.live = 1 → s.shared.pool.queue = [] →
        ¬Anywhere (poolThreads s).ops PoolAction.adds))
    ⟨fun h => ⟨h.1, h.2.1, h.2.2.1, h.2.2.2⟩, fun h => ⟨h.kept, h.empty, h.timely, h.pool⟩⟩

/-- When the phase Cleaning begins, what is owed has run, and what the pool accepted. -/
def Drained (s : AppThreads n) : Prop := s.shared.cleaning = true →
  s.shared.ran.Perm s.shared.owed ∧ s.shared.pool.executed.Perm s.shared.pool.accepted

instance (s : AppThreads n) : Decidable (Drained s) := inferInstanceAs (Decidable (_ → _))

variable {s : AppThreads n} {k : Nat} {input : AppInput n} {a : AppAction n} {shared : GracefulShutdown n}
  {ops : List (List (AppAction n))} {rest pushed : List (AppAction n)} {w : Fin (n + 1)}

/-! ## What actions leave as it was -/

/-- What an action changes that is not one of the phases. -/
structure Other (s : GracefulShutdown n) (a : AppAction n) (shared : GracefulShutdown n) (pushed : List (AppAction n)) : Prop where
  requested    : shared.requested = s.requested
  cleaning     : shared.cleaning = s.cleaning
  shuttingDown : ∀ w, (shared.workers w).shuttingDown = (s.workers w).shuttingDown
  phases       : ∀ b ∈ pushed, b.phases = 0
  pool         : shared.pool = s.pool
  noPool       : pushed.filterMap AppAction.pool? = a.pool?.toList

@[simp] theorem phases_action (owed : Bool) (c : AppCall n) : (c.action owed).phases = 0 := by
  cases c <;> rfl

theorem phases_call {owed : Bool} {c : AppCall n} (h : a.phases = 0) : ∀ b ∈ [c.action owed, a], b.phases = 0 := by
  simp [h]

@[simp] theorem pool?_action (owed : Bool) (c : AppCall n) : (c.action owed).pool? = none := by
  cases c <;> rfl

theorem shuttingDown_modify {f : Worker AppTask → Worker AppTask} (hf : ∀ worker, (f worker).shuttingDown = worker.shuttingDown)
    (s : GracefulShutdown n) (v w : Fin (n + 1)) :
    ((s.modify v f).workers w).shuttingDown = (s.workers w).shuttingDown := by
  unfold modify
  dsimp only
  by_cases hw : w = v
  · subst hw
    rw [Function.update_self]
    exact hf _
  · rw [Function.update_of_ne hw]

theorem Other.of_modify {f : Worker AppTask → Worker AppTask} (hf : ∀ worker, (f worker).shuttingDown = worker.shuttingDown)
    (s : GracefulShutdown n) (v : Fin (n + 1)) (hphases : ∀ b ∈ pushed, b.phases = 0)
    (hnone : pushed.filterMap AppAction.pool? = a.pool?.toList) : Other s a (s.modify v f) pushed :=
  ⟨rfl, rfl, shuttingDown_modify hf s v, hphases, rfl, hnone⟩

theorem Other.same (s : GracefulShutdown n) (hphases : ∀ b ∈ pushed, b.phases = 0)
    (hnone : pushed.filterMap AppAction.pool? = a.pool?.toList) : Other s a s pushed := ⟨rfl, rfl, fun _ => rfl, hphases, rfl, hnone⟩

theorem Other.of_call (s : GracefulShutdown n) {owed : Bool} {c : AppCall n} (hphases : a.phases = 0) (hnone : a.pool? = none) :
    Other s a s [c.action owed, a] := .same s (phases_call hphases) (by simp [hnone])

theorem Other.refuse (s : GracefulShutdown n) (task : AppTask) (hnone : a.pool? = none) : Other s a (s.refuse task) [] := by
  unfold GracefulShutdown.refuse
  split <;> exact ⟨rfl, rfl, fun _ => rfl, by simp, rfl, by rw [hnone]; rfl⟩

theorem act_other (ha : a.phases = 0) (hact : s.shared.act input a = some (shared, pushed)) :
    a = .shutdown ∨ (∃ id, a = .execute id) ∨ (∃ b, a = .pool b) ∨ Other s.shared a shared pushed := by
  cases a with
  | shutdown => exact .inl rfl
  | execute id => exact .inr (.inl ⟨id, rfl⟩)
  | pool b => exact .inr (.inr (.inl ⟨b, rfl⟩))
  | finalFrame ws | enterShutdownMode ws | readPending ws allEmpty | stopPool | storePoolRunning | joinPool | poll | clean =>
    cases ha
  | testShuttingDown v task | testRuning v task =>
    refine .inr (.inr (.inr ?_))
    simp only [GracefulShutdown.act] at hact
    split at hact <;> cases hact <;> first | exact .refuse _ task rfl | exact .same _ (by simp [AppAction.phases]) rfl
  | enqueue v task =>
    cases hact
    refine .inr (.inr (.inr ⟨rfl, rfl, ?_, by simp, rfl, rfl⟩))
    exact shuttingDown_modify (f := fun worker => worker.enqueue (task.accepted s.shared.requested)) (fun _ => rfl) _ v
  | onStart v | stop v =>
    cases hact
    refine .inr (.inr (.inr ?_))
    apply Other.of_modify
    · exact fun _ => rfl
    · simp [AppAction.phases]
    · rfl
  | lastTask v | drain v final =>
    refine .inr (.inr (.inr ?_))
    simp only [GracefulShutdown.act] at hact
    split at hact
    · cases hact
      apply Other.of_modify
      · exact fun _ => rfl
      · simp [AppAction.phases]
      · rfl
    · split at hact <;> cases hact
      first
      | exact .same _ (by simp) rfl
      | (apply Other.of_modify
         · exact fun _ => rfl
         · simp
         · rfl)
  | running v b =>
    refine .inr (.inr (.inr ?_))
    simp only [GracefulShutdown.act] at hact
    split at hact
    · cases hact
      exact .of_call _ rfl rfl
    · have hfinished := Option.some.inj hact
      unfold finished at hfinished
      split at hfinished <;> cases hfinished <;>
        exact ⟨rfl, rfl, fun _ => rfl, by simp [AppAction.phases], rfl, rfl⟩
  | setCleanedUp v | stopApp | signal =>
    cases hact
    exact .inr (.inr (.inr ⟨rfl, rfl, fun _ => rfl, by simp [AppAction.phases], rfl, rfl⟩))
  | appUpdate | appCleanup =>
    refine .inr (.inr (.inr ?_))
    simp only [GracefulShutdown.act] at hact
    split at hact <;> cases hact
    · exact .of_call _ rfl rfl
    · first
      | exact .same _ (by simp [AppAction.phases]) rfl
      | (split <;> exact .same _ (by simp [processFrame, AppAction.phases]) rfl)
  | loop v | timers v final | hook v b final | mainLoop | testCleanup v ws =>
    cases hact
    refine .inr (.inr (.inr ?_))
    split <;> exact .same _ (by simp [processFrame, AppAction.phases]) rfl
  | cleanupWorkers ws =>
    refine .inr (.inr (.inr ?_))
    cases ws with
    | nil       =>
      cases hact
      exact .same _ (by simp [AppAction.phases]) rfl
    | cons v ws =>
      cases hact
      split <;> exact .same _ (by simp [AppAction.phases]) rfl
  | awaitCleanup v ws =>
    refine .inr (.inr (.inr ?_))
    simp only [GracefulShutdown.act] at hact
    split at hact
    · cases hact
      exact .same _ (by simp [AppAction.phases]) rfl
    · split at hact <;> cases hact
      exact .same _ (by simp [AppAction.phases]) rfl

/-! ## The pool -/

/-- What the pool keeps, and nobody else stops it. -/
structure Pooled (s : AppThreads n) : Prop where
  emptied : ThreadPool.Emptied (poolThreads s)
  held    : ThreadPool.Held (poolThreads s)
  stops   : ∀ b, Has s.ops (.pool b) → b.stops = false

theorem mem_filterMap_pool {b : PoolAction AppTask} (h : .pool b ∈ pushed) : b ∈ pushed.filterMap AppAction.pool? :=
  List.mem_filterMap.2 ⟨_, h, rfl⟩

/-- What has nothing to do with the pool. -/
theorem Pooled.of_same (h : Pooled s) (hk : s.ops[k]? = some (a :: rest)) (hpool : shared.pool = s.shared.pool)
    (hpushed : pushed.filterMap AppAction.pool? = a.pool?.toList) : Pooled ⟨shared, advance s.ops k pushed⟩ := by
  have hsame : poolThreads ⟨shared, advance s.ops k pushed⟩ = poolThreads s := by
    simp only [poolThreads, hpool, project_advance_same hk hpushed]
  refine ⟨hsame ▸ h.emptied, hsame ▸ h.held, fun b hb => h.stops b ?_⟩
  rcases (has_advance hk).1 hb with hb | hb
  · have hmem := mem_filterMap_pool hb
    rw [hpushed] at hmem
    cases a with
    | pool c =>
      rw [AppAction.pool?, Option.toList_some, List.mem_singleton] at hmem
      rw [hmem]
      exact has_of_getElem? hk
    | _      => cases hmem
  · exact hb.of_advance

theorem Pooled.execute (h : Pooled s) {id : Nat} (hk : s.ops[k]? = some (.execute id :: rest))
    (hact : s.shared.act input (.execute id) = some (shared, pushed)) : Pooled ⟨shared, advance s.ops k pushed⟩ := by
  obtain ⟨r, hr, heq⟩ := Option.map_eq_some_iff.1 hact
  cases heq
  simp only [ThreadPool.act] at hr
  by_cases hrunning : s.shared.pool.running = true
  · rw [if_pos hrunning] at hr
    cases hr
    refine ⟨?_, ?_, fun b hb => ?_⟩
    · exact h.emptied.execute hrunning _ (fun b => has_project_advance hk rfl) fun w => weight_project_advance w hk rfl
    · exact h.held.execute _ fun w => weight_project_advance w hk rfl
    · rcases (has_advance hk).1 hb with hb | hb
      · cases List.mem_singleton.1 hb
        rfl
      · exact h.stops b hb.of_advance
  · rw [if_neg hrunning] at hr
    cases hr
    exact h.of_same hk rfl rfl

theorem filterMap_map_pool (l : List (PoolAction AppTask)) : (l.map (AppAction.pool (n := n))).filterMap AppAction.pool? = l := by
  rw [List.filterMap_map]
  exact List.filterMap_some

theorem Pooled.step (h : Pooled s) {b : PoolAction AppTask} (hk : s.ops[k]? = some (.pool b :: rest))
    (hQ : ThreadPool.Settled (poolThreads s) k input.index b) {r : ThreadPool AppTask × List (PoolAction AppTask)}
    (hr : s.shared.pool.act input.index b = some r) :
    Pooled ⟨{ s.shared with pool := r.1 }, advance s.ops k (r.2.map .pool)⟩ := by
  have hproject := project_advance (f := AppAction.pool?) hk rfl (r.2.map .pool)
  rw [filterMap_map_pool] at hproject
  have hk' := getElem?_project (f := AppAction.pool?) hk rfl
  refine ⟨?_, ?_, fun c hc => ?_⟩
  · simp only [poolThreads, hproject]
    exact h.emptied.act hk' hQ hr
  · simp only [poolThreads, hproject]
    exact h.held.act hk' hr
  · rcases (has_advance hk).1 hc with hc | hc
    · obtain ⟨d, hd, heq⟩ := List.mem_map.1 hc
      cases heq
      exact (ThreadPool.act_stops (h.stops b (has_of_getElem? hk)) hr).2.2 c hd
    · exact h.stops c hc.of_advance

theorem Pooled.act (h : Pooled s) (hk : s.ops[k]? = some (a :: rest)) (hQ : Awaited s k input a)
    (hact : s.shared.act input a = some (shared, pushed)) : Pooled ⟨shared, advance s.ops k pushed⟩ := by
  by_cases hphases : a.phases = 0
  · rcases act_other hphases hact with rfl | ⟨id, rfl⟩ | ⟨b, rfl⟩ | hother
    · simp only [GracefulShutdown.act] at hact
      split at hact <;> cases hact <;> exact h.of_same hk rfl rfl
    · exact h.execute hk hact
    · simp only [GracefulShutdown.act] at hact
      split at hact
      · cases hact
        apply h.of_same hk rfl
        rw [List.filterMap_cons, pool?_action]
        rfl
      · obtain ⟨r, hr, heq⟩ := Option.map_eq_some_iff.1 hact
        cases heq
        exact h.step hk (fun hb hlive hqueue => hQ.pool (congrArg _ hb) hlive hqueue) hr
    · exact h.of_same hk hother.pool hother.noPool
  · cases a with
    | finalFrame ws | enterShutdownMode ws =>
      cases ws <;> cases hact <;> exact h.of_same hk rfl rfl
    | readPending ws allEmpty =>
      cases ws with
      | nil       =>
        cases hact
        apply h.of_same hk rfl
        split <;> rfl
      | cons v ws =>
        simp only [GracefulShutdown.act] at hact
        split at hact
        · cases hact
          exact h.of_same hk rfl rfl
        · cases hact
          apply h.of_same hk rfl
          split <;> rfl
    | stopPool | poll =>
      cases hact
      apply h.of_same hk rfl
      split <;> rfl
    | clean =>
      cases hact
      exact h.of_same hk rfl rfl
    | storePoolRunning =>
      cases hact
      have hbefore : Pooled ⟨s.shared, advance s.ops k [.joinPool]⟩ := h.of_same hk rfl rfl
      exact ⟨hbefore.emptied.storeRunning, hbefore.held, hbefore.stops⟩
    | joinPool =>
      simp only [GracefulShutdown.act] at hact
      by_cases hlive : s.shared.pool.live = 0
      · rw [if_pos hlive] at hact
        cases hact
        have hbefore : Pooled ⟨s.shared, advance s.ops k [.enterShutdownMode (allWorkers n)]⟩ := h.of_same hk rfl rfl
        exact ⟨hbefore.emptied.join hlive, hbefore.held, hbefore.stops⟩
      · rw [if_neg hlive] at hact
        cases hact
    | _ => exact absurd rfl hphases

theorem Pooled.call (h : Pooled s) {c : AppCall n} (hstarted : program.Started [c.action false] s.ops ops) :
    Pooled ⟨s.shared, ops⟩ := by
  have hhas : ∀ {b : PoolAction AppTask} {d : AppAction n}, d.pool? = some b → Has ops d → Has s.ops d := by
    intro b d hd hops
    rcases has_cons.1 ((hstarted.has d).1 hops) with hmem | hold
    · rw [List.mem_singleton.1 hmem, pool?_action] at hd
      cases hd
    · exact hold
  have hweight : ∀ w, weight w (poolThreads ⟨s.shared, ops⟩).ops = weight w (poolThreads s).ops := by
    intro w
    simp only [poolThreads, weight_project, hstarted.weight, weight_cons, tally_cons, tally_nil, pool?_action,
      Option.map_none, Option.getD_none, Nat.zero_add]
  refine ⟨h.emptied.congr (fun b => ?_) hweight, h.held.congr hweight, fun b hb => h.stops b (hhas rfl hb)⟩
  simp only [poolThreads, has_project]
  constructor
  · rintro ⟨d, hops, hd⟩
    exact ⟨d, hhas hd hops, hd⟩
  · rintro ⟨d, hops, hd⟩
    exact ⟨d, (hstarted.has d).2 (has_cons.2 (.inr hops)), hd⟩

/-! ## Workers with nothing left -/

@[simp] theorem holds_action (w : Fin (n + 1)) (owed : Bool) (c : AppCall n) : (c.action owed).holds w = false := by
  cases c <;> rfl

@[simp] theorem workers_refuse (s : GracefulShutdown n) (task : AppTask) : (s.refuse task).workers = s.workers := by
  unfold refuse
  split <;> rfl

theorem events_modify {f : Worker AppTask → Worker AppTask} (hf : ∀ worker, (f worker).events = worker.events)
    (s : GracefulShutdown n) (v w : Fin (n + 1)) : ((s.modify v f).workers w).events = (s.workers w).events := by
  unfold modify
  dsimp only
  by_cases hw : w = v
  · subst hw
    rw [Function.update_self]
    exact hf _
  · rw [Function.update_of_ne hw]

theorem mem_events_takeEvent {s : GracefulShutdown n} {v : Fin (n + 1)} {index : Nat} {task : AppTask}
    (h : task ∈ ((s.takeEvent v index).workers w).events) : task ∈ (s.workers w).events := by
  unfold takeEvent modify at h
  dsimp only at h
  by_cases hw : w = v
  · subst hw
    rw [Function.update_self] at h
    exact List.mem_of_mem_eraseIdx h
  · rw [Function.update_of_ne hw] at h
    exact h

theorem mem_events_accept {s : GracefulShutdown n} {v : Fin (n + 1)} {new task : AppTask}
    (h : task ∈ ((s.accept v new).workers w).events) :
    task ∈ (s.workers w).events ∨ (v = w ∧ task = new.accepted s.requested) := by
  unfold accept modify at h
  dsimp only at h
  by_cases hw : w = v
  · subst hw
    rw [Function.update_self] at h
    rcases List.mem_append.1 h with hold | hnew
    · exact .inl hold
    · exact .inr ⟨rfl, List.mem_singleton.1 hnew⟩
  · rw [Function.update_of_ne hw] at h
    exact .inl h

theorem Settled.advance (h : Settled s w) (hk : s.ops[k]? = some (a :: rest))
    (hevents : ∀ task ∈ (shared.workers w).events, task ∈ (s.shared.workers w).events ∨ task.owed = false)
    (hpushed : ∀ b ∈ pushed, b.holds w = true → a.holds w = true) : Settled ⟨shared, advance s.ops k pushed⟩ w where
  events := fun task htask => (hevents task htask).elim (h.events task) id
  held   := by
    rintro ⟨b, hb, hholds⟩
    rcases (has_advance hk).1 hb with hb | hb
    · exact h.held ⟨a, has_of_getElem? hk, hpushed b hb hholds⟩
    · exact h.held ⟨b, hb.of_advance, hholds⟩

theorem Settled.of_same (h : Settled s w) (hk : s.ops[k]? = some (a :: rest))
    (hevents : (shared.workers w).events = (s.shared.workers w).events)
    (hpushed : ∀ b ∈ pushed, b.holds w = true → a.holds w = true) : Settled ⟨shared, Threads.advance s.ops k pushed⟩ w :=
  h.advance hk (fun _ htask => .inl (hevents ▸ htask)) hpushed

theorem none_holds {l : List (AppAction n)} {P : Prop} (h : l.all (fun b => !b.holds w) = true) :
    ∀ b ∈ l, b.holds w = true → P := by
  intro b hb hholds
  have hnone := List.all_eq_true.1 h b hb
  rw [hholds] at hnone
  exact absurd hnone Bool.false_ne_true

/-- A worker in shutdown mode gets nothing that is owed. -/
theorem Settled.act (h : Settled s w) (hmode : (s.shared.workers w).shuttingDown = true)
    (hrequested : s.shared.requested = true) (hk : s.ops[k]? = some (a :: rest))
    (hact : s.shared.act input a = some (shared, pushed)) : Settled ⟨shared, Threads.advance s.ops k pushed⟩ w := by
  cases a with
  | testShuttingDown v task =>
    simp only [GracefulShutdown.act] at hact
    split at hact <;> rename_i hv <;> cases hact
    · exact h.of_same hk (by rw [workers_refuse]) (none_holds rfl)
    · have hne : v ≠ w := by
        rintro rfl
        exact hv hmode
      exact h.of_same hk rfl (by simp [AppAction.holds, hne])
  | testRuning v task =>
    simp only [GracefulShutdown.act] at hact
    split at hact <;> cases hact
    · exact h.of_same hk rfl (by simp [AppAction.holds])
    · exact h.of_same hk (by rw [workers_refuse]) (none_holds rfl)
  | enqueue v task =>
    cases hact
    apply h.advance hk
    · intro t ht
      rcases mem_events_accept ht with hold | ⟨hv, rfl⟩
      · exact .inl hold
      · right
        rw [hrequested, AppTask.accepted_of_requested]
        by_contra howed
        exact h.held ⟨_, has_of_getElem? hk, by simpa [AppAction.holds, hv] using howed⟩
    · simp
  | lastTask v | drain v final =>
    simp only [GracefulShutdown.act] at hact
    split at hact
    · rename_i task htask
      cases hact
      have hheld : ∀ b, b = AppAction.running v (.task task) → b.holds w = false := by
        rintro _ rfl
        by_contra hholds
        simp only [AppAction.holds, Bool.not_eq_false, decide_eq_true_eq] at hholds
        obtain ⟨rfl, howed⟩ := hholds
        rw [h.events task (List.mem_of_getElem? htask)] at howed
        cases howed
      apply h.advance hk
      · exact fun t ht => .inl (mem_events_takeEvent ht)
      · intro b hb hholds
        simp only [List.mem_cons, List.not_mem_nil, or_false] at hb
        rcases hb with hb | rfl
        · rw [hheld b hb] at hholds
          cases hholds
        · cases hholds
    · split at hact <;> cases hact
      exact h.of_same hk (by first | rfl | (apply events_modify; exact fun _ => rfl)) (none_holds rfl)
  | running v b =>
    simp only [GracefulShutdown.act] at hact
    split at hact
    · cases hact
      exact h.of_same hk rfl (by simp)
    · have hfinished := Option.some.inj hact
      unfold finished at hfinished
      split at hfinished <;> cases hfinished <;> exact h.of_same hk rfl (none_holds rfl)
  | onStart v | stop v =>
    cases hact
    apply h.of_same hk
    · apply events_modify
      exact fun _ => rfl
    · exact none_holds rfl
  | execute id =>
    obtain ⟨r, _, heq⟩ := Option.map_eq_some_iff.1 hact
    cases heq
    exact h.of_same hk rfl (by simp [AppAction.holds])
  | pool b =>
    simp only [GracefulShutdown.act] at hact
    split at hact
    · cases hact
      exact h.of_same hk rfl (by simp)
    · obtain ⟨r, _, heq⟩ := Option.map_eq_some_iff.1 hact
      cases heq
      exact h.of_same hk rfl (by simp [AppAction.holds])
  | enterShutdownMode ws =>
    cases ws with
    | nil       =>
      cases hact
      exact h.of_same hk rfl (none_holds rfl)
    | cons v ws =>
      cases hact
      apply h.of_same hk
      · apply events_modify
        exact fun _ => rfl
      · exact none_holds rfl
  | appUpdate | appCleanup =>
    simp only [GracefulShutdown.act] at hact
    split at hact <;> cases hact
    · exact h.of_same hk rfl (by simp)
    · apply h.of_same hk rfl
      first | (split <;> exact none_holds rfl) | exact none_holds rfl
  | loop v | timers v final | hook v b final | mainLoop | stopPool | poll | testCleanup v ws =>
    cases hact
    apply h.of_same hk rfl
    split <;> first | exact none_holds rfl | simp [AppAction.holds, AppTask.owed]
  | finalFrame ws | cleanupWorkers ws =>
    cases ws <;> cases hact <;> apply h.of_same hk rfl
    · exact none_holds rfl
    · first | (split <;> exact none_holds rfl) | exact none_holds rfl
  | readPending ws allEmpty =>
    cases ws with
    | nil       =>
      cases hact
      apply h.of_same hk rfl
      split <;> exact none_holds rfl
    | cons v ws =>
      simp only [GracefulShutdown.act] at hact
      split at hact <;> cases hact <;> apply h.of_same hk rfl
      · exact none_holds rfl
      · split <;> exact none_holds rfl
  | shutdown | joinPool =>
    simp only [GracefulShutdown.act] at hact
    split at hact <;> cases hact <;> exact h.of_same hk rfl (none_holds rfl)
  | awaitCleanup v ws =>
    simp only [GracefulShutdown.act] at hact
    split at hact
    · cases hact
      exact h.of_same hk rfl (none_holds rfl)
    · split at hact <;> cases hact
      exact h.of_same hk rfl (none_holds rfl)
  | setCleanedUp v | stopApp | signal | storePoolRunning | clean =>
    cases hact
    exact h.of_same hk rfl (none_holds rfl)

/-! ## Where the tasks are that are owed -/

/-- How often a task that is owed is in a queue. -/
def unrun (id : Nat) (events : List AppTask) : Nat := tally (fun task => task.owedId.count id) events

/-- What is owed has run, is in the queue of a worker, or is with a thread. -/
def Accounted (s : AppThreads n) : Prop := ∀ id, s.shared.owed.count id =
  s.shared.ran.count id + ∑ w, unrun id (s.shared.workers w).events + weight (AppAction.carries id) s.ops

@[simp] theorem carries_action (id : Nat) (owed : Bool) (c : AppCall n) : (c.action owed).carries id = 0 := by
  cases c <;> rfl

theorem Accounted.advance (h : Accounted s) (hk : s.ops[k]? = some (a :: rest))
    (hmoved : ∀ id, shared.owed.count id +
        (s.shared.ran.count id + ∑ w, unrun id (s.shared.workers w).events + a.carries id) =
      s.shared.owed.count id +
        (shared.ran.count id + ∑ w, unrun id (shared.workers w).events + tally (AppAction.carries id) pushed)) :
    Accounted ⟨shared, Threads.advance s.ops k pushed⟩ := by
  intro id
  have hweight := weight_advance (AppAction.carries id) pushed hk
  have hbefore := h id
  have hmove := hmoved id
  dsimp only
  omega

theorem Accounted.of_same (h : Accounted s) (hk : s.ops[k]? = some (a :: rest)) (howed : shared.owed = s.shared.owed)
    (hran : shared.ran = s.shared.ran) (hevents : ∀ w, (shared.workers w).events = (s.shared.workers w).events)
    (hcarries : ∀ id, tally (AppAction.carries id) pushed = a.carries id) :
    Accounted ⟨shared, Threads.advance s.ops k pushed⟩ := by
  apply h.advance hk
  intro id
  simp only [howed, hran, hevents, hcarries]

@[simp] theorem owed_modify (s : GracefulShutdown n) (v : Fin (n + 1)) (f : Worker AppTask → Worker AppTask) :
    (s.modify v f).owed = s.owed := rfl

@[simp] theorem ran_modify (s : GracefulShutdown n) (v : Fin (n + 1)) (f : Worker AppTask → Worker AppTask) :
    (s.modify v f).ran = s.ran := rfl

/-- What a change of one queue does to the sum. -/
theorem sum_unrun_modify (id : Nat) (s : GracefulShutdown n) (v : Fin (n + 1)) (f : Worker AppTask → Worker AppTask) :
    ∑ w, unrun id ((s.modify v f).workers w).events + unrun id (s.workers v).events =
      ∑ w, unrun id (s.workers w).events + unrun id (f (s.workers v)).events :=
  sum_update (fun worker : Worker AppTask => unrun id worker.events) s.workers v (f (s.workers v))

theorem refuse_eq {s : GracefulShutdown n} {task : AppTask} (h : s.requested = true → task.owed = false) : s.refuse task = s := by
  unfold refuse
  by_cases hrequested : s.requested = true
  · rw [if_pos hrequested, AppTask.owedId_eq_nil (h hrequested), List.append_nil]
  · rw [if_neg hrequested]

theorem Accounted.act (h : Accounted s) (hk : s.ops[k]? = some (a :: rest)) (hkept : s.shared.drops a = false)
    (hact : s.shared.act input a = some (shared, pushed)) : Accounted ⟨shared, Threads.advance s.ops k pushed⟩ := by
  cases a with
  | testShuttingDown v task =>
    simp only [GracefulShutdown.act] at hact
    split at hact <;> rename_i hv <;> cases hact
    · rw [refuse_eq fun hrequested => by simpa [drops, hrequested, hv] using hkept]
      exact h.of_same hk rfl rfl (fun _ => rfl) fun _ => rfl
    · exact h.of_same hk rfl rfl (fun _ => rfl) fun _ => rfl
  | testRuning v task =>
    simp only [GracefulShutdown.act] at hact
    split at hact <;> rename_i hv <;> cases hact
    · exact h.of_same hk rfl rfl (fun _ => rfl) fun _ => rfl
    · rw [refuse_eq fun hrequested => by simpa [drops, hrequested, hv] using hkept]
      exact h.of_same hk rfl rfl (fun _ => rfl) fun _ => rfl
  | enqueue v task =>
    cases hact
    apply h.advance hk
    intro id
    have hsum := sum_unrun_modify id s.shared v fun worker => worker.enqueue (task.accepted s.shared.requested)
    have hnew : ∀ worker : Worker AppTask, unrun id (worker.enqueue (task.accepted s.shared.requested)).events =
        unrun id worker.events + (task.accepted s.shared.requested).owedId.count id := by
      intro worker
      simp [unrun, Worker.enqueue]
    rw [hnew] at hsum
    simp only [accept, ran_modify, AppAction.carries, List.count_append, tally_nil]
    omega
  | lastTask v | drain v final =>
    simp only [GracefulShutdown.act] at hact
    split at hact
    · rename_i task htask
      cases hact
      apply h.advance hk
      intro id
      have hsum := sum_unrun_modify id s.shared v fun worker =>
        { worker with events := worker.events.eraseIdx input.index }
      have htaken := tally_eraseIdx (fun task => task.owedId.count id) htask
      simp only [unrun] at hsum
      simp only [takeEvent, owed_modify, ran_modify, AppAction.carries, tally_cons, tally_nil, unrun]
      omega
    · split at hact <;> cases hact
      refine h.of_same hk rfl rfl ?_ fun _ => rfl
      first | exact fun _ => rfl | (intro w; apply events_modify; exact fun _ => rfl)
  | running v b =>
    simp only [GracefulShutdown.act] at hact
    split at hact
    · cases hact
      exact h.of_same hk rfl rfl (fun _ => rfl) (by simp)
    · have hfinished := Option.some.inj hact
      unfold finished at hfinished
      split at hfinished <;> cases hfinished
      · exact h.of_same hk rfl rfl (fun _ => rfl) fun _ => rfl
      · apply h.advance hk
        intro id
        simp only [AppAction.carries, List.count_append, tally_nil]
        omega
      · rename_i _ hother
        apply h.of_same hk rfl rfl fun _ => rfl
        intro id
        cases b with
        | task task => exact absurd rfl (hother task)
        | _         => rfl
  | onStart v | stop v =>
    cases hact
    refine h.of_same hk rfl rfl ?_ (by simp [AppAction.carries])
    intro w
    apply events_modify
    exact fun _ => rfl
  | execute id =>
    obtain ⟨r, _, heq⟩ := Option.map_eq_some_iff.1 hact
    cases heq
    refine h.of_same hk rfl rfl (fun _ => rfl) fun id => ?_
    apply tally_eq_zero
    simp [AppAction.carries]
  | pool b =>
    simp only [GracefulShutdown.act] at hact
    split at hact
    · cases hact
      exact h.of_same hk rfl rfl (fun _ => rfl) (by simp)
    · obtain ⟨r, _, heq⟩ := Option.map_eq_some_iff.1 hact
      cases heq
      refine h.of_same hk rfl rfl (fun _ => rfl) fun id => ?_
      apply tally_eq_zero
      simp [AppAction.carries]
  | enterShutdownMode ws =>
    cases ws with
    | nil       =>
      cases hact
      exact h.of_same hk rfl rfl (fun _ => rfl) fun _ => rfl
    | cons v ws =>
      cases hact
      refine h.of_same hk rfl rfl ?_ fun _ => rfl
      intro w
      apply events_modify
      exact fun _ => rfl
  | appUpdate | appCleanup =>
    simp only [GracefulShutdown.act] at hact
    split at hact <;> cases hact
    · exact h.of_same hk rfl rfl (fun _ => rfl) (by simp)
    · refine h.of_same hk rfl rfl (fun _ => rfl) fun _ => ?_
      first | rfl | (split <;> rfl)
  | loop v | timers v final | hook v b final | mainLoop | stopPool | poll | testCleanup v ws =>
    cases hact
    refine h.of_same hk rfl rfl (fun _ => rfl) fun _ => ?_
    split <;> rfl
  | finalFrame ws | cleanupWorkers ws =>
    cases ws <;> cases hact <;> refine h.of_same hk rfl rfl (fun _ => rfl) fun _ => ?_
    · rfl
    · first | rfl | (split <;> rfl)
  | readPending ws allEmpty =>
    cases ws with
    | nil       =>
      cases hact
      refine h.of_same hk rfl rfl (fun _ => rfl) fun _ => ?_
      split <;> rfl
    | cons v ws =>
      simp only [GracefulShutdown.act] at hact
      split at hact <;> cases hact <;> refine h.of_same hk rfl rfl (fun _ => rfl) fun _ => ?_
      · rfl
      · split <;> rfl
  | shutdown | joinPool =>
    simp only [GracefulShutdown.act] at hact
    split at hact <;> cases hact <;> exact h.of_same hk rfl rfl (fun _ => rfl) fun _ => rfl
  | awaitCleanup v ws =>
    simp only [GracefulShutdown.act] at hact
    split at hact
    · cases hact
      exact h.of_same hk rfl rfl (fun _ => rfl) fun _ => rfl
    · split at hact <;> cases hact
      exact h.of_same hk rfl rfl (fun _ => rfl) fun _ => rfl
  | setCleanedUp v | stopApp | signal | storePoolRunning | clean =>
    cases hact
    exact h.of_same hk rfl rfl (fun _ => rfl) fun _ => rfl

/-! ## The phases -/

theorem phases_eq_zero {b : AppAction n} (h : b.phases = 0) : b.early = false ∧ b.late = false ∧ b.waits = false := by
  cases b <;> first | exact ⟨rfl, rfl, rfl⟩ | cases h

theorem late_of_waits {b : AppAction n} (h : b.waits = true) : b.late = true := by
  cases b <;> first | rfl | cases h

/-- How far the phases have come. -/
structure Phased (s : AppThreads n) : Prop where
  one     : weight AppAction.phases s.ops ≤ if s.shared.requested && !s.shared.cleaning then 1 else 0
  running : s.shared.pool.running = false → s.shared.requested = true ∧ ¬Anywhere s.ops AppAction.early
  stopped : Anywhere s.ops AppAction.late ∨ s.shared.cleaning = true →
    s.shared.requested = true ∧ s.shared.pool.stopped = true
  mode    : ∀ ws, Has s.ops (.enterShutdownMode ws) → ∀ w ∉ ws, (s.shared.workers w).shuttingDown = true
  modes   : Anywhere s.ops AppAction.waits ∨ s.shared.cleaning = true → ∀ w, (s.shared.workers w).shuttingDown = true
  empty   : ∀ ws, Has s.ops (.readPending ws true) → ∀ w ∉ ws, Settled s w
  settled : Has s.ops .clean ∨ s.shared.cleaning = true → ∀ w, Settled s w

/-- An action that is not one of the phases changes nothing of what they have come to. -/
theorem Phased.steady (h : Phased s) (hk : s.ops[k]? = some (a :: rest)) (hphases : ∀ b ∈ pushed, b.phases = 0)
    (hrequested : shared.requested = s.shared.requested) (hcleaning : shared.cleaning = s.shared.cleaning)
    (hmode : ∀ w, (shared.workers w).shuttingDown = (s.shared.workers w).shuttingDown)
    (hrunning : shared.pool.running = s.shared.pool.running) (hstopped : shared.pool.stopped = s.shared.pool.stopped)
    (hact : s.shared.act input a = some (shared, pushed)) : Phased ⟨shared, advance s.ops k pushed⟩ := by
  have hanywhere : ∀ {w : AppAction n → Bool}, (∀ b, b.phases = 0 → w b = false) →
      Anywhere (advance s.ops k pushed) w → Anywhere s.ops w :=
    fun hw hafter => hafter.of_advance hk fun b hb => hw b (hphases b hb)
  have hhas : ∀ {b : AppAction n}, b.phases = 1 → Has (advance s.ops k pushed) b → Has s.ops b := by
    intro b hb hafter
    rcases (has_advance hk).1 hafter with hmem | hold
    · rw [hphases b hmem] at hb
      cases hb
    · exact hold.of_advance
  have hlate := hanywhere fun b hb => (phases_eq_zero hb).2.1
  have hwaits := hanywhere fun b hb => (phases_eq_zero hb).2.2
  constructor <;> dsimp only
  · have hweight := weight_advance AppAction.phases pushed hk
    have hzero : tally AppAction.phases pushed = 0 := tally_eq_zero hphases
    have hone := h.one
    rw [hrequested, hcleaning]
    omega
  · rw [hrunning, hrequested]
    intro hpool
    obtain ⟨hreq, hearly⟩ := h.running hpool
    exact ⟨hreq, fun hafter => hearly (hanywhere (fun b hb => (phases_eq_zero hb).1) hafter)⟩
  · rw [hrequested, hcleaning, hstopped]
    exact fun hafter => h.stopped (hafter.imp_left hlate)
  · intro ws hafter w hw
    rw [hmode]
    exact h.mode ws (hhas rfl hafter) w hw
  · rw [hcleaning]
    intro hafter w
    rw [hmode]
    exact h.modes (hafter.imp_left hwaits) w
  · intro ws hafter w hw
    have hbefore := hhas rfl hafter
    have hread : Anywhere s.ops AppAction.waits := ⟨_, hbefore, rfl⟩
    obtain ⟨hreq, _⟩ := h.stopped (.inl ⟨_, hbefore, rfl⟩)
    exact (h.empty ws hbefore w hw).act (h.modes (.inl hread) w) hreq hk hact
  · rw [hcleaning]
    intro hafter w
    have hbefore : Has s.ops .clean ∨ s.shared.cleaning = true := hafter.imp_left (hhas rfl)
    have hmodes := h.modes (hbefore.imp_left fun hclean => ⟨_, hclean, rfl⟩) w
    obtain ⟨hreq, _⟩ := h.stopped (hbefore.imp_left fun hclean => ⟨_, hclean, rfl⟩)
    exact (h.settled hbefore w).act hmodes hreq hk hact

/-- Whoever is in a phase is the only one, after `Shutdown` and before `Cleaning`. -/
theorem Phased.alone (h : Phased s) (hk : s.ops[k]? = some (a :: rest)) (ha : a.phases = 1) :
    s.shared.requested = true ∧ s.shared.cleaning = false ∧ ∀ b, Has (advance s.ops k []) b → b.phases = 0 := by
  have hle := le_weight AppAction.phases (has_of_getElem? hk)
  have hone := h.one
  cases hrequested : s.shared.requested <;> cases hcleaning : s.shared.cleaning <;>
    simp only [hrequested, hcleaning, Bool.not_true, Bool.not_false, Bool.and_true, Bool.and_false,
      Bool.false_eq_true, if_true, if_false] at hone
  · omega
  · omega
  · exact ⟨rfl, rfl, fun b hb => Threads.alone hk (by omega) hb⟩
  · omega

/-- What a phase leaves is what the invariant is about. -/
theorem Phased.of_pushed (h : Phased s) (hk : s.ops[k]? = some (a :: rest)) (ha : a.phases = 1)
    (hrequested : shared.requested = true)
    (hone : tally AppAction.phases pushed ≤ if shared.cleaning then 0 else 1)
    (hrunning : shared.pool.running = false → ∀ b ∈ pushed, b.early = false)
    (hstopped : (∃ b ∈ pushed, b.late = true) ∨ shared.cleaning = true → shared.pool.stopped = true)
    (hmode : ∀ ws, .enterShutdownMode ws ∈ pushed → ∀ w ∉ ws, (shared.workers w).shuttingDown = true)
    (hmodes : (∃ b ∈ pushed, b.waits = true) ∨ shared.cleaning = true → ∀ w, (shared.workers w).shuttingDown = true)
    (hempty : ∀ ws, .readPending ws true ∈ pushed → ∀ w ∉ ws, Settled ⟨shared, advance s.ops k pushed⟩ w)
    (hsettled : .clean ∈ pushed ∨ shared.cleaning = true → ∀ w, Settled ⟨shared, advance s.ops k pushed⟩ w) :
    Phased ⟨shared, advance s.ops k pushed⟩ := by
  obtain ⟨_, _, halone⟩ := h.alone hk ha
  have hmem : ∀ {b : AppAction n}, b.phases ≠ 0 → Has (advance s.ops k pushed) b → b ∈ pushed :=
    fun hb hafter => ((has_advance hk).1 hafter).resolve_right fun hold => hb (halone _ hold)
  have hanywhere : ∀ {w : AppAction n → Bool}, (∀ b, b.phases = 0 → w b = false) →
      Anywhere (advance s.ops k pushed) w → ∃ b ∈ pushed, w b = true := by
    rintro w hw ⟨b, hb, hwb⟩
    refine ⟨b, hmem (fun hzero => ?_) hb, hwb⟩
    rw [hw b hzero] at hwb
    cases hwb
  constructor <;> dsimp only
  · have hweight := weight_advance AppAction.phases pushed hk
    have hzero : weight AppAction.phases (advance s.ops k []) = 0 := weight_eq_zero halone
    have hbefore := weight_advance AppAction.phases [] hk
    rw [hrequested]
    simp only [tally_nil] at hbefore
    cases hcleaning : shared.cleaning <;> simp only [hcleaning] at hone ⊢ <;> simp at hone ⊢ <;> omega
  · intro hpool
    refine ⟨hrequested, fun hafter => ?_⟩
    obtain ⟨b, hb, hearly⟩ := hanywhere (fun b hb => (phases_eq_zero hb).1) hafter
    rw [hrunning hpool b hb] at hearly
    cases hearly
  · exact fun hafter => ⟨hrequested, hstopped (hafter.imp_left (hanywhere fun b hb => (phases_eq_zero hb).2.1))⟩
  · exact fun ws hafter => hmode ws (hmem (by simp [AppAction.phases]) hafter)
  · exact fun hafter => hmodes (hafter.imp_left (hanywhere fun b hb => (phases_eq_zero hb).2.2))
  · exact fun ws hafter => hempty ws (hmem (by simp [AppAction.phases]) hafter)
  · exact fun hafter => hsettled (hafter.imp_left (hmem (by simp [AppAction.phases])))

/-- A step of the wait for the queues. -/
theorem Phased.wait (h : Phased s) (hk : s.ops[k]? = some (a :: rest)) (ha : a.phases = 1) (hwaits : a.waits = true)
    {b : AppAction n} (hb : b.waits = true) (hempty : ∀ ws, b = .readPending ws true → ∀ w ∉ ws, Settled s w)
    (hsettled : b = .clean → ∀ w, Settled s w) : Phased ⟨s.shared, advance s.ops k [b]⟩ := by
  obtain ⟨hrequested, hcleaning, _⟩ := h.alone hk ha
  have hhead := has_of_getElem? hk
  obtain ⟨hphases, hearly, hmode, hholds⟩ : b.phases = 1 ∧ b.early = false ∧ (∀ ws, .enterShutdownMode ws ≠ b) ∧
      ∀ w, b.holds w = false := by
    cases b <;> first | (cases hb; done) | exact ⟨rfl, rfl, by simp, fun _ => rfl⟩
  have hstill : ∀ {w}, Settled s w → Settled ⟨s.shared, advance s.ops k [b]⟩ w :=
    fun hw => hw.of_same hk rfl (by simp [hholds])
  apply h.of_pushed hk ha
  · exact hrequested
  · simp [hcleaning, hphases]
  · simp [hearly]
  · exact fun _ => (h.stopped (.inl ⟨_, hhead, late_of_waits hwaits⟩)).2
  · exact fun ws hws => absurd (List.mem_singleton.1 hws) (hmode ws)
  · exact fun _ => h.modes (.inl ⟨_, hhead, hwaits⟩)
  · exact fun ws hws w hw => hstill (hempty ws (List.mem_singleton.1 hws).symm w hw)
  · rw [hcleaning]
    exact fun hclean w => hstill (hsettled (List.mem_singleton.1 (hclean.resolve_right (by simp))).symm w)

theorem mem_allWorkers (w : Fin (n + 1)) : w ∈ allWorkers n := by
  cases w using Fin.cases with
  | zero   => exact List.mem_cons_self
  | succ i => exact List.mem_cons_of_mem _ (List.mem_map.2 ⟨i, List.mem_finRange i, rfl⟩)

theorem Phased.act_phases (h : Phased s) (hk : s.ops[k]? = some (a :: rest)) (ha : a.phases = 1) (hQ : Awaited s k input a)
    (hact : s.shared.act input a = some (shared, pushed)) : Phased ⟨shared, advance s.ops k pushed⟩ := by
  obtain ⟨hrequested, hcleaning, _⟩ := h.alone hk ha
  have hhead := has_of_getElem? hk
  cases a with
  | finalFrame ws =>
    have hrunning : s.shared.pool.running = false → False := fun hpool => (h.running hpool).2 ⟨_, hhead, rfl⟩
    cases ws <;> cases hact <;> apply h.of_pushed hk ha <;>
      first
      | exact hrequested
      | exact fun hpool => (hrunning hpool).elim
      | simp [hcleaning, processFrame, AppAction.phases, AppAction.late, AppAction.waits]
  | stopPool =>
    have hrunning : s.shared.pool.running = true := by
      by_contra hpool
      exact (h.running (Bool.eq_false_iff.2 hpool)).2 ⟨_, hhead, rfl⟩
    cases hact
    rw [if_pos hrunning]
    apply h.of_pushed hk ha <;>
      simp [hrequested, hcleaning, hrunning, AppAction.phases, AppAction.late, AppAction.waits]
  | storePoolRunning =>
    cases hact
    apply h.of_pushed hk ha <;>
      simp [hrequested, hcleaning, AppAction.phases, AppAction.early, AppAction.late, AppAction.waits]
  | joinPool =>
    simp only [GracefulShutdown.act] at hact
    split at hact <;> cases hact
    apply h.of_pushed hk ha <;>
      simp [hrequested, hcleaning, mem_allWorkers, AppAction.phases, AppAction.early, AppAction.waits]
  | enterShutdownMode ws =>
    have hstopped := (h.stopped (.inl ⟨_, hhead, rfl⟩)).2
    have hmode := h.mode ws hhead
    cases ws with
    | nil       =>
      cases hact
      apply h.of_pushed hk ha
      · exact hrequested
      · simp [hcleaning, AppAction.phases]
      · simp [AppAction.early]
      · exact fun _ => hstopped
      · simp
      · exact fun _ w => hmode w (by simp)
      · simp
      · simp [hcleaning]
    | cons v ws =>
      cases hact
      apply h.of_pushed hk ha
      · exact hrequested
      · simp [modify, hcleaning, AppAction.phases]
      · simp [AppAction.early]
      · exact fun _ => hstopped
      · intro vs hvs w hw
        cases List.mem_singleton.1 hvs
        unfold modify
        dsimp only
        by_cases hwv : w = v
        · subst hwv
          rw [Function.update_self]
          rfl
        · rw [Function.update_of_ne hwv]
          exact hmode w (by simp [hwv, hw])
      · simp [modify, hcleaning, AppAction.waits]
      · simp
      · simp [modify, hcleaning]
  | poll =>
    cases hact
    by_cases htimedOut : input.timedOut = true
    · rw [if_pos htimedOut]
      exact h.wait hk rfl rfl rfl (fun _ heq => by cases heq) fun _ => hQ.timely rfl htimedOut
    · rw [if_neg htimedOut]
      apply h.wait hk rfl rfl rfl
      · intro ws heq w hw
        cases heq
        exact absurd (mem_allWorkers w) hw
      · exact fun heq => by cases heq
  | readPending ws allEmpty =>
    cases ws with
    | nil       =>
      cases hact
      cases allEmpty with
      | true  => exact h.wait hk rfl rfl rfl (fun _ heq => by cases heq) fun _ w => h.empty [] hhead w (by simp)
      | false => exact h.wait hk rfl rfl rfl (fun _ heq => by cases heq) fun heq => by cases heq
    | cons v ws =>
      simp only [GracefulShutdown.act] at hact
      by_cases hevents : (s.shared.workers v).events = []
      · rw [if_pos hevents] at hact
        cases hact
        apply h.wait hk rfl rfl rfl
        · intro vs heq w hw
          cases heq
          by_cases hwv : w = v
          · exact hQ.empty w (by simp [findsEmpty, hwv, hevents])
          · exact h.empty _ hhead w (by simp [hwv, hw])
        · exact fun heq => by cases heq
      · rw [if_neg hevents] at hact
        cases hact
        split
        · exact h.wait hk rfl rfl rfl (fun _ heq => by cases heq) fun heq => by cases heq
        · exact h.wait hk rfl rfl rfl (fun _ heq => by cases heq) fun heq => by cases heq
  | clean =>
    have hstopped := (h.stopped (.inl ⟨_, hhead, rfl⟩)).2
    have hmodes := h.modes (.inl ⟨_, hhead, rfl⟩)
    have hsettled : ∀ {w}, Settled s w → Settled ⟨shared, advance s.ops k pushed⟩ w :=
      fun hw => hw.act (hmodes _) hrequested hk hact
    cases hact
    apply h.of_pushed hk ha
    · exact hrequested
    · simp [AppAction.phases]
    · simp [AppAction.early]
    · exact fun _ => hstopped
    · simp
    · exact fun _ => hmodes
    · simp
    · exact fun _ w => hsettled (h.settled (.inl hhead) w)
  | _ => cases ha

theorem Phased.act_shutdown (h : Phased s) (hk : s.ops[k]? = some (.shutdown :: rest))
    (hact : s.shared.act input .shutdown = some (shared, pushed)) : Phased ⟨shared, advance s.ops k pushed⟩ := by
  have hshutdown := hact
  simp only [GracefulShutdown.act] at hact
  by_cases hrequested : s.shared.requested = true
  · rw [if_pos hrequested] at hact
    cases hact
    exact h.steady hk (by simp) rfl rfl (fun _ => rfl) rfl rfl hshutdown
  · rw [if_neg hrequested] at hact
    cases hact
    -- nobody is in a phase yet
    have hlate : ¬(Anywhere s.ops AppAction.late ∨ s.shared.cleaning = true) := fun hw => hrequested (h.stopped hw).1
    have hbefore : ∀ b, b.late = true → Has (advance s.ops k [.finalFrame (allWorkers n)]) b → False := by
      intro b hb hafter
      rcases (has_advance hk).1 hafter with hmem | hold
      · rw [List.mem_singleton.1 hmem] at hb
        cases hb
      · exact hlate (.inl ⟨b, hold.of_advance, hb⟩)
    have hcleaning : s.shared.cleaning = false := Bool.eq_false_iff.2 fun hw => hlate (.inr hw)
    constructor <;> dsimp only
    · have hweight := weight_advance AppAction.phases [.finalFrame (allWorkers n)] hk
      have hone := h.one
      simp only [Bool.eq_false_iff.2 hrequested, hcleaning, AppAction.phases, tally_cons, tally_nil] at hone hweight ⊢
      simp at hone ⊢
      omega
    · exact fun hpool => absurd (h.running hpool).1 hrequested
    · rintro (⟨b, hb, hw⟩ | hw)
      · exact (hbefore b hw hb).elim
      · exact absurd (.inr hw) hlate
    · exact fun ws hafter => (hbefore _ rfl hafter).elim
    · rintro (⟨b, hb, hw⟩ | hw)
      · exact (hbefore b (late_of_waits hw) hb).elim
      · exact absurd (.inr hw) hlate
    · exact fun ws hafter => (hbefore _ rfl hafter).elim
    · rintro (hafter | hw)
      · exact (hbefore _ rfl hafter).elim
      · exact absurd (.inr hw) hlate

theorem Phased.act (h : Phased s) (hpooled : Pooled s) (hk : s.ops[k]? = some (a :: rest)) (hQ : Awaited s k input a)
    (hact : s.shared.act input a = some (shared, pushed)) : Phased ⟨shared, advance s.ops k pushed⟩ := by
  rcases (show a.phases = 0 ∨ a.phases = 1 by cases a <;> first | exact .inl rfl | exact .inr rfl) with ha | ha
  · have hwhole := hact
    rcases act_other ha hact with rfl | ⟨id, rfl⟩ | ⟨b, rfl⟩ | hother
    · exact h.act_shutdown hk hact
    · obtain ⟨r, hr, heq⟩ := Option.map_eq_some_iff.1 hact
      cases heq
      obtain ⟨hrunning, hstopped, _⟩ := ThreadPool.act_stops rfl hr
      exact h.steady hk (by simp [AppAction.phases]) rfl rfl (fun _ => rfl) hrunning hstopped hwhole
    · simp only [GracefulShutdown.act] at hact
      split at hact
      · cases hact
        exact h.steady hk (phases_call rfl) rfl rfl (fun _ => rfl) rfl rfl hwhole
      · obtain ⟨r, hr, heq⟩ := Option.map_eq_some_iff.1 hact
        cases heq
        obtain ⟨hrunning, hstopped, _⟩ := ThreadPool.act_stops (hpooled.stops _ (has_of_getElem? hk)) hr
        exact h.steady hk (by simp [AppAction.phases]) rfl rfl (fun _ => rfl) hrunning hstopped hwhole
    · exact h.steady hk hother.phases hother.requested hother.cleaning hother.shuttingDown (by rw [hother.pool])
        (by rw [hother.pool]) hact
  · exact h.act_phases hk ha hQ hact

theorem Settled.call (h : Settled s w) {c : AppCall n} (hstarted : program.Started [c.action false] s.ops ops) :
    Settled ⟨s.shared, ops⟩ w where
  events := h.events
  held   := by
    rintro ⟨b, hb, hholds⟩
    rcases has_cons.1 ((hstarted.has b).1 hb) with hmem | hold
    · rw [List.mem_singleton.1 hmem, holds_action] at hholds
      cases hholds
    · exact h.held ⟨b, hold, hholds⟩

theorem Phased.call (h : Phased s) {c : AppCall n} (hstarted : program.Started [c.action false] s.ops ops) :
    Phased ⟨s.shared, ops⟩ := by
  have hhas : ∀ {b : AppAction n}, b.phases = 1 → Has ops b → Has s.ops b := by
    intro b hb hops
    rcases has_cons.1 ((hstarted.has b).1 hops) with hmem | hold
    · rw [List.mem_singleton.1 hmem, phases_action] at hb
      cases hb
    · exact hold
  have hanywhere : ∀ {w : AppAction n → Bool}, (∀ b, b.phases = 0 → w b = false) → Anywhere ops w → Anywhere s.ops w := by
    rintro w hw ⟨b, hb, hwb⟩
    rcases has_cons.1 ((hstarted.has b).1 hb) with hmem | hold
    · rw [List.mem_singleton.1 hmem, hw _ (phases_action false c)] at hwb
      cases hwb
    · exact ⟨b, hold, hwb⟩
  constructor <;> dsimp only
  · have hone := h.one
    rw [hstarted.weight, weight_cons, tally_cons, tally_nil, phases_action]
    omega
  · exact fun hpool =>
      ⟨(h.running hpool).1, fun hops => (h.running hpool).2 (hanywhere (fun b hb => (phases_eq_zero hb).1) hops)⟩
  · exact fun hops => h.stopped (hops.imp_left (hanywhere fun b hb => (phases_eq_zero hb).2.1))
  · exact fun ws hops => h.mode ws (hhas rfl hops)
  · exact fun hops => h.modes (hops.imp_left (hanywhere fun b hb => (phases_eq_zero hb).2.2))
  · exact fun ws hops w hw => (h.empty ws (hhas rfl hops) w hw).call hstarted
  · exact fun hops w => (h.settled (hops.imp_left (hhas rfl)) w).call hstarted

theorem Accounted.call (h : Accounted s) {c : AppCall n} (hstarted : program.Started [c.action false] s.ops ops) :
    Accounted ⟨s.shared, ops⟩ := by
  intro id
  have hbefore := h id
  rw [hstarted.weight, weight_cons, tally_cons, tally_nil, carries_action]
  dsimp only
  omega

/-! ## Runs -/

/-- Where everything is, and how far the phases have come. -/
structure Draining (s : AppThreads n) : Prop where
  pooled    : Pooled s
  phased    : Phased s
  accounted : Accounted s

theorem draining_preserves : Program.Preserves program Awaited (Draining (n := n)) where
  call := fun _ hs _ _ _ _ hcall hstarted => by
    cases hcall
    exact ⟨hs.pooled.call hstarted, hs.phased.call hstarted, hs.accounted.call hstarted⟩
  act  := fun _ hs _ _ _ _ _ _ hk hQ hact =>
    ⟨hs.pooled.act hk hQ hact, hs.phased.act hs.pooled hk hQ hact, hs.accounted.act hk hQ.kept hact⟩

/-- Where nothing that is owed is left with a worker, everything that is owed has run. -/
theorem Draining.drained (h : Draining s) : Drained s := by
  intro hcleaning
  have hsettled := h.phased.settled (.inr hcleaning)
  constructor
  · rw [List.perm_iff_count]
    intro id
    have hqueues : ∑ w, unrun id (s.shared.workers w).events = 0 := by
      apply Finset.sum_eq_zero
      intro w _
      apply tally_eq_zero
      intro task htask
      rw [AppTask.owedId_eq_nil ((hsettled w).events task htask), List.count_nil]
    have hthreads : weight (AppAction.carries id) s.ops = 0 := by
      apply weight_eq_zero
      intro b hb
      by_contra hne
      cases b with
      | running v activity =>
        cases activity with
        | task task =>
          by_cases howed : task.owed = true
          · exact (hsettled v).held ⟨_, hb, by simp [AppAction.holds, howed]⟩
          · exact hne (by simp [AppAction.carries, AppTask.owedId_eq_nil (Bool.eq_false_iff.2 howed)])
        | _         => exact hne rfl
      | _                  => exact hne rfl
    have hcount := h.accounted id
    omega
  · obtain ⟨_, hstopped⟩ := h.phased.stopped (.inr hcleaning)
    exact h.pooled.emptied.executed h.pooled.held (h.pooled.emptied.stopped hstopped)

variable (logic : Fin (n + 1) → Bool) (threads hardware : Nat)

theorem has_init {b : AppAction n} (h : Has (init logic threads hardware).ops b) :
    b = .mainLoop ∨ (∃ w, b = .onStart w) ∨ b = .pool .loop := by
  obtain ⟨op, hop, hb⟩ := h
  simp only [init, List.mem_append, List.mem_cons, List.mem_map] at hop
  rcases hop with (rfl | ⟨w, _, rfl⟩) | hop
  · exact .inl (List.mem_singleton.1 hb)
  · exact .inr (.inl ⟨w, List.mem_singleton.1 hb⟩)
  · rw [List.eq_of_mem_replicate hop] at hb
    exact .inr (.inr (List.mem_singleton.1 hb))

theorem pooled_init : Pooled (init logic threads hardware) := by
  have hops : (poolThreads (init logic threads hardware)).ops =
      [] :: (normalWorkers n).map (fun _ => []) ++ (ThreadPool.init (τ := AppTask) threads hardware).ops := by
    simp only [poolThreads, init, project, ThreadPool.init, List.map_append, List.map_cons, List.map_map, List.map_replicate]
    rfl
  have hhas : ∀ b, Has (poolThreads (init logic threads hardware)).ops b ↔ Has (ThreadPool.init threads hardware).ops b := by
    intro b
    rw [hops]
    constructor
    · rintro ⟨op, hop, hb⟩
      rcases List.mem_append.1 hop with hop | hop
      · have hnil : op = [] := by
          rcases List.mem_cons.1 hop with rfl | hop
          · rfl
          · obtain ⟨_, _, rfl⟩ := List.mem_map.1 hop
            rfl
        rw [hnil] at hb
        cases hb
      · exact ⟨op, hop, hb⟩
    · rintro ⟨op, hop, hb⟩
      exact ⟨op, List.mem_append_right _ hop, hb⟩
  have hweight : ∀ w, weight w (poolThreads (init logic threads hardware)).ops =
      weight w (ThreadPool.init (τ := AppTask) threads hardware).ops := by
    intro w
    rw [hops]
    simp [weight, tally]
  refine ⟨(ThreadPool.emptied_init threads hardware).congr hhas hweight, (ThreadPool.held_init threads hardware).congr hweight,
    fun b hb => ?_⟩
  rcases has_init logic threads hardware hb with heq | ⟨w, heq⟩ | heq <;> cases heq
  rfl

theorem phased_init : Phased (init logic threads hardware) := by
  have hnone : ∀ {b}, Has (init logic threads hardware).ops b → b.phases = 0 := by
    intro b hb
    rcases has_init logic threads hardware hb with rfl | ⟨w, rfl⟩ | rfl <;> rfl
  have hanywhere : ∀ {w : AppAction n → Bool}, (∀ b, b.phases = 0 → w b = false) →
      ¬Anywhere (init logic threads hardware).ops w := by
    rintro w hw ⟨b, hb, hwb⟩
    rw [hw b (hnone hb)] at hwb
    cases hwb
  constructor
  · rw [weight_eq_zero fun b hb => hnone hb]
    exact Nat.zero_le _
  · exact fun hpool => by cases hpool
  · rintro (hlate | hcleaning)
    · exact absurd hlate (hanywhere fun b hb => (phases_eq_zero hb).2.1)
    · cases hcleaning
  · exact fun ws hmode => by cases hnone hmode
  · rintro (hwaits | hcleaning)
    · exact absurd hwaits (hanywhere fun b hb => (phases_eq_zero hb).2.2)
    · cases hcleaning
  · exact fun ws hread => by cases hnone hread
  · rintro (hclean | hcleaning)
    · cases hnone hclean
    · cases hcleaning

theorem accounted_init : Accounted (init logic threads hardware) := by
  intro id
  have hthreads : weight (AppAction.carries id) (init logic threads hardware).ops = 0 := by
    apply weight_eq_zero
    intro b hb
    rcases has_init logic threads hardware hb with rfl | ⟨w, rfl⟩ | rfl <;> rfl
  have hqueues : ∑ w, unrun id ((init logic threads hardware).shared.workers w).events = 0 := by
    apply Finset.sum_eq_zero
    intro w _
    by_cases hw : w = 0
    · simp [init, hw, Worker.onStart, unrun]
    · simp [init, Function.update_of_ne hw, unrun]
  rw [hthreads, hqueues]
  rfl

/-- **In every run in which nothing that is owed is dropped, no queue is found empty while such a task is with a thread,
and the wait is not given up, everything that is owed has run when the phase Cleaning begins.** -/
theorem run_drained (events : List (Event (AppInput n) (AppCall n)))
    (h : Along program.step (Program.AtAction Awaited) (init logic threads hardware) events) :
    Drained (events.foldl program.step (init logic threads hardware)) :=
  Draining.drained (draining_preserves.run events
    ⟨pooled_init logic threads hardware, phased_init logic threads hardware, accounted_init logic threads hardware⟩ h)

/-- A task is run by the final frame, and one of the pool posts back to a worker, whose thread runs what is posted. -/
def callbackInTime : List (Event (AppInput 1) (AppCall 1)) :=
  steps 1 1 ++ .call (.post (.last 1) 7) :: steps 3 3 ++ .call (.execute 5) :: steps 4 3 ++ steps 2 3 ++ .call .stopApp :: steps 5 1 ++
    steps 0 17 ++ .step 2 { does := some (.post (.last 1) 8) } :: steps 2 6 ++ steps 0 5 ++ steps 1 4 ++ steps 0 4

theorem run_drained_callbackInTime : Drained (callbackInTime.foldl program.step (init (fun _ => false) 1 1)) ∧
    (callbackInTime.foldl program.step (init (fun _ => false) 1 1)).shared.cleaning = true ∧
    (callbackInTime.foldl program.step (init (fun _ => false) 1 1)).shared.ran = [7, 8] :=
  ⟨run_drained (fun _ => false) 1 1 callbackInTime (by decide +kernel), by decide +kernel, by decide +kernel⟩

/-- When the time limit passes, no thread is with a task. -/
def Timely (s : AppThreads n) (_ : Nat) (input : AppInput n) (a : AppAction n) : Prop :=
  a = .poll → input.timedOut = true → ∀ op ∈ s.ops, ∀ b ∈ op, b.busy = false

instance (s : AppThreads n) (k : Nat) (input : AppInput n) (a : AppAction n) : Decidable (Timely s k input a) :=
  inferInstanceAs (Decidable (_ → _ → _))

/-- A task of the pool posts back to the main worker, behind its final frame. -/
def callbackToMain : List (Event (AppInput 0) (AppCall 0)) :=
  .call (.execute 5) :: steps 2 3 ++ steps 1 3 ++ .call .stopApp :: steps 3 1 ++ steps 0 10 ++
    .step 1 { does := some (.post 0 8) } :: steps 1 6 ++ steps 0 6 ++ .step 0 { timedOut := true } :: steps 0 1

/-- Nobody runs the callback, though all tasks end in time. -/
theorem not_run_drained : ¬∀ (n : Nat) (logic : Fin (n + 1) → Bool) (threads hardware : Nat)
    (events : List (Event (AppInput n) (AppCall n))),
    Along program.step (Program.AtAction Timely) (init logic threads hardware) events →
      Drained (events.foldl program.step (init logic threads hardware)) := by
  intro h
  have hran := (h 0 (fun _ => false) 1 1 callbackToMain (by decide +kernel) (by decide +kernel)).1
  exact absurd hran.length_eq (by decide +kernel)

end GracefulShutdown
end Gb
