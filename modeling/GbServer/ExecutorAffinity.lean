import GbServer.Lib.Run
import GbServer.Worker
/-!
# ExecutorAffinity — on which thread an executor says it is, and runs what it is given

`WorkerExecutor::IsCurrent` and `Dispatch` (`executor.h`), called from any thread while `CreateWorker`
(`worker_manager.cpp`) publishes workers and their threads start.  An executor is known by the index of its worker, and a
worker that was published has the index 0 until its own thread calls `Init`: it is taken for the main worker
(`run_affine_iff`).

The thread of a worker calls nothing before it has set `tl_current_worker`, nor after it has reset it; the main thread is
that of the main worker from `InitMainWorker` on, and like one of the others before.
-/
namespace Gb

open Run (Along Always)

/-- A function that was dispatched to the executor of a worker. -/
structure DispatchedFn where
  target : WorkerId
  n      : Nat
  deriving DecidableEq

structure ExecutorSystem where
  workers  : Workers DispatchedFn := {}
  /-- The index that the thread of a worker hands to `Init`. -/
  index    : WorkerId → Nat := fun _ => 0
  /-- Whether `tl_current_worker` is set on the thread of a worker. -/
  current  : WorkerId → Bool := fun _ => false
  /-- The answers of `IsCurrent`: where it was asked, of whose executor, and what it said. -/
  answers  : List (Thread × WorkerId × Bool) := []
  ran      : List (Thread × DispatchedFn) := []

/-- `init`, `enter` and `leave` are on the thread of the worker, around `OnStart` and `Run`; `worked` is a task that its
`Run` takes. -/
inductive ExecutorEvent
  | initMainWorker (id : WorkerId)
  | createWorker (id : WorkerId)
  | init (id : WorkerId)
  | enter (id : WorkerId)
  | leave (id : WorkerId)
  | onStart (id : WorkerId)
  | enterShutdownMode (id : WorkerId)
  | stop (id : WorkerId)
  | worked (id : WorkerId) (k : Nat)
  | isCurrent (thread : Thread) (target : WorkerId)
  | dispatch (thread : Thread) (target : WorkerId) (n : Nat) (inlineFallback : Bool)

namespace ExecutorSystem

variable (s : ExecutorSystem)

/-- A worker is there, and its index is known to its thread. -/
def publish (id : WorkerId) (index : Nat) (ws : Workers DispatchedFn) : ExecutorSystem :=
  { s with workers := ws.update id (some {}), index := Function.update s.index id index }

/-- The threads that can call something. -/
def Calls : Thread → Prop
  | .worker id => s.current id = true
  | _          => True

instance : (thread : Thread) → Decidable (s.Calls thread)
  | .worker id => inferInstanceAs (Decidable (s.current id = true))
  | .io _      => .isTrue trivial
  | .other _   => .isTrue trivial

def runTask (thread : Thread) : Option DispatchedFn → ExecutorSystem
  | some fn => { s with ran := (thread, fn) :: s.ran }
  | none    => s

def step (s : ExecutorSystem) : ExecutorEvent → ExecutorSystem
  | .initMainWorker id    =>
    if (s.workers.heap id).isSome ∨ s.workers.mainWorker.isSome then s
    else s.publish id 0 { s.workers with mainWorker := some id }
  | .createWorker id      =>
    if (s.workers.heap id).isSome then s
    else s.publish id (s.workers.workers.length + 1) { s.workers with workers := s.workers.workers ++ [id] }
  | .init id              => { s with workers := s.workers.modify id fun w => w.init (s.index id) }
  | .enter id             =>
    -- behind `Init`, on the same thread
    if (s.workers.heap id).any Worker.executor then { s with current := Function.update s.current id true } else s
  | .leave id             => { s with current := Function.update s.current id false }
  | .onStart id           => { s with workers := s.workers.modify id Worker.onStart }
  | .enterShutdownMode id => { s with workers := s.workers.modify id Worker.enterShutdownMode }
  | .stop id              => { s with workers := s.workers.modify id Worker.stop }
  | .worked id k          =>
    if s.current id then
      let task := (s.workers.tasks id)[k]?
      { s with workers := s.workers.modify id fun w => { w with events := w.events.eraseIdx k } }.runTask (.worker id) task
    else s
  | .isCurrent thread target =>
    if s.Calls thread ∧ (s.workers.heap target).isSome then
      let answer := ({ worker := some target } : WorkerExecutor DispatchedFn).isCurrent s.workers thread
      { s with answers := (thread, target, answer) :: s.answers }
    else s
  | .dispatch thread target n inlineFallback =>
    if s.Calls thread ∧ (s.workers.heap target).isSome then
      let (inline, workers) :=
        ({ worker := some target, inlineFallback } : WorkerExecutor DispatchedFn).dispatch s.workers thread ⟨target, n⟩
      { s with workers := workers }.runTask thread inline
    else s

/-- `IsCurrent` was true on the worker's own thread and nowhere else, and nothing ran elsewhere. -/
structure Affine (s : ExecutorSystem) : Prop where
  answers : ∀ a ∈ s.answers, a.2.2 = true ↔ a.1 = .worker a.2.1
  ran     : ∀ r ∈ s.ran, r.1 = .worker r.2.target

/-- A worker of another index is calling: the index is that of `Init`, and 0 before. -/
def Apart (thread : Thread) (target : WorkerId) : Prop :=
  ∀ id, thread = .worker id → id ≠ target →
    if (s.workers.heap target).any Worker.executor then s.index id % 2 ^ 32 ≠ s.index target % 2 ^ 32
    else s.index id % 2 ^ 32 ≠ 0

/-- The condition on a step: no other worker's thread with the index of the target asks or dispatches. -/
def OwnIndex (s : ExecutorSystem) : ExecutorEvent → Prop
  | .isCurrent thread target    => s.Calls thread ∧ (s.workers.heap target).isSome = true → s.Apart thread target
  | .dispatch thread target _ _ => s.Calls thread ∧ (s.workers.heap target).isSome = true → s.Apart thread target
  | _                           => True

/-- The indices of the workers, and where tasks are. -/
structure Indexed (s : ExecutorSystem) : Prop where
  index   : ∀ id w, s.workers.heap id = some w → w.index = if w.executor then s.index id % 2 ^ 32 else 0
  current : ∀ id, s.current id = true → ∃ w, s.workers.heap id = some w ∧ w.executor = true
  tasks   : ∀ id, ∀ fn ∈ s.workers.tasks id, fn.target = id

theorem Indexed.init : ({} : ExecutorSystem).Indexed where
  index   := nofun
  current := nofun
  tasks   := nofun

variable {s}

/-- What `IsCurrent` says. -/
theorem isCurrent_iff (h : s.Indexed) {thread : Thread} (hcalls : s.Calls thread) {target : WorkerId} {w : Worker DispatchedFn}
    (hw : s.workers.heap target = some w) {e : WorkerExecutor DispatchedFn} (he : e.worker = some target) :
    (e.isCurrent s.workers thread = true ↔ thread = .worker target) ↔ s.Apart thread target := by
  have hlock : e.lock s.workers = some (target, w) := by rw [WorkerExecutor.lock, he, Option.bind_some, hw, Option.map_some]
  unfold WorkerExecutor.isCurrent
  rw [hlock]
  cases thread with
  | io n      =>
    refine iff_of_true (iff_of_false ?_ fun heq => by cases heq) fun id hid => by cases hid
    exact Bool.false_ne_true
  | other n   =>
    refine iff_of_true (iff_of_false ?_ fun heq => by cases heq) fun id hid => by cases hid
    exact Bool.false_ne_true
  | worker id =>
    obtain ⟨c, hc, hexecutor⟩ := h.current id hcalls
    have hcurrent : (Workers.getCurWorker (.worker id)).bind s.workers.heap = some c := hc
    have hindex := h.index id c hc
    rw [if_pos hexecutor] at hindex
    dsimp only
    rw [hcurrent]
    dsimp only
    rw [decide_eq_true_eq, Thread.worker.injEq]
    by_cases hid : id = target
    · subst hid
      obtain rfl := Option.some.inj (hc.symm.trans hw)
      exact iff_of_true (iff_of_true rfl rfl) fun other hother hne => absurd (Thread.worker.inj hother).symm hne
    · have htarget := h.index target w hw
      have hready : (s.workers.heap target).any Worker.executor = w.executor := by
        rw [hw]
        rfl
      rw [iff_false_right hid, hindex, htarget]
      constructor
      · intro hne other hother _
        rw [← Thread.worker.inj hother, hready]
        split
        · rename_i hinit
          rwa [if_pos hinit] at hne
        · rename_i hinit
          rwa [if_neg hinit] at hne
      · intro hapart
        have := hapart id rfl hid
        rw [hready] at this
        split
        · rename_i hinit
          rwa [if_pos hinit] at this
        · rename_i hinit
          rwa [if_neg hinit] at this

/-- On its own thread a worker's executor is current, at whatever progress. -/
theorem isCurrent_own (h : s.Indexed) {target : WorkerId} (hcalls : s.Calls (.worker target)) {w : Worker DispatchedFn}
    (hw : s.workers.heap target = some w) {e : WorkerExecutor DispatchedFn} (he : e.worker = some target) :
    e.isCurrent s.workers (.worker target) = true := by
  refine ((isCurrent_iff h hcalls hw he).2 fun id hid hne => ?_).2 rfl
  exact absurd (Thread.worker.inj hid).symm hne

/-! ## What a step keeps -/

/-- A change of one worker that leaves its index alone, and puts into its queue what is for it. -/
theorem Indexed.modify {t : ExecutorSystem} (h : s.Indexed) {id : WorkerId} {f : Worker DispatchedFn → Worker DispatchedFn}
    (hworkers : t.workers = s.workers.modify id f) (hindex : t.index = s.index) (hcurrent : t.current = s.current)
    (hf : ∀ w, (f w).executor = w.executor ∧ (f w).index = w.index)
    (htasks : ∀ w, ∀ fn ∈ (f w).events, fn ∈ w.events ∨ fn.target = id) : t.Indexed where
  index   := fun j w hw => by
    rw [hworkers] at hw
    rw [hindex]
    change Function.update s.workers.heap id ((s.workers.heap id).map f) j = some w at hw
    by_cases hj : j = id
    · subst hj
      rw [Function.update_self] at hw
      obtain ⟨old, hold, rfl⟩ := Option.map_eq_some_iff.1 hw
      rw [(hf old).1, (hf old).2]
      exact h.index j old hold
    · rw [Function.update_of_ne hj] at hw
      exact h.index j w hw
  current := fun j hj => by
    rw [hcurrent] at hj
    obtain ⟨w, hw, hexecutor⟩ := h.current j hj
    rw [hworkers]
    by_cases hid : j = id
    · subst hid
      exact ⟨f w, (Function.update_self ..).trans (congrArg (Option.map f) hw), (hf w).1.trans hexecutor⟩
    · exact ⟨w, (Function.update_of_ne hid ..).trans hw, hexecutor⟩
  tasks   := fun j fn hfn => by
    rw [hworkers] at hfn
    by_cases hj : j = id
    · subst hj
      obtain ⟨w, hw, hmem⟩ := Workers.mem_tasks_modify hfn
      rcases htasks w fn hmem with hmem | htarget
      · exact h.tasks j fn (Workers.mem_tasks_of_heap hw hmem)
      · exact htarget
    · rw [s.workers.tasks_modify_of_ne hj] at hfn
      exact h.tasks j fn hfn

theorem Indexed.publish (h : s.Indexed) {id : WorkerId} (hnew : s.workers.heap id = none) (index : Nat)
    {ws : Workers DispatchedFn} (hws : ws.heap = s.workers.heap) : (s.publish id index ws).Indexed where
  index   := fun j w hw => by
    change Function.update ws.heap id (some {}) j = some w at hw
    by_cases hj : j = id
    · subst hj
      rw [Function.update_self] at hw
      obtain rfl := Option.some.inj hw
      rfl
    · rw [Function.update_of_ne hj, hws] at hw
      change w.index = if w.executor then Function.update s.index id index j % 2 ^ 32 else 0
      rw [Function.update_of_ne hj]
      exact h.index j w hw
  current := fun j hj => by
    obtain ⟨w, hw, hexecutor⟩ := h.current j hj
    refine ⟨w, (Function.update_of_ne ?_ ..).trans ((congrFun hws j).trans hw), hexecutor⟩
    rintro rfl
    rw [hnew] at hw
    cases hw
  tasks   := fun j fn hfn => by
    change fn ∈ (ws.update id (some {})).tasks j at hfn
    by_cases hj : j = id
    · subst hj
      rw [Workers.tasks_update_self] at hfn
      cases hfn
    · rw [Workers.tasks_update_of_ne _ hj, Workers.tasks, hws] at hfn
      exact h.tasks j fn hfn

theorem Indexed.initWorker (h : s.Indexed) (id : WorkerId) : (s.step (.init id)).Indexed where
  index   := fun j w hw => by
    change Function.update s.workers.heap id ((s.workers.heap id).map fun w => w.init (s.index id)) j = some w at hw
    by_cases hj : j = id
    · subst hj
      rw [Function.update_self] at hw
      obtain ⟨old, hold, rfl⟩ := Option.map_eq_some_iff.1 hw
      rfl
    · rw [Function.update_of_ne hj] at hw
      exact h.index j w hw
  current := fun j hj => by
    obtain ⟨w, hw, hexecutor⟩ := h.current j hj
    by_cases hid : j = id
    · subst hid
      exact ⟨w.init (s.index j), (Function.update_self ..).trans (congrArg (Option.map _) hw), rfl⟩
    · exact ⟨w, (Function.update_of_ne hid ..).trans hw, hexecutor⟩
  tasks   := fun j fn hfn => by
    change fn ∈ (s.workers.modify id _).tasks j at hfn
    by_cases hj : j = id
    · subst hj
      obtain ⟨w, hw, hmem⟩ := Workers.mem_tasks_modify hfn
      exact h.tasks j fn (Workers.mem_tasks_of_heap hw hmem)
    · rw [s.workers.tasks_modify_of_ne hj] at hfn
      exact h.tasks j fn hfn

theorem indexed_runTask {thread : Thread} {fn : Option DispatchedFn} : (s.runTask thread fn).Indexed ↔ s.Indexed := by
  cases fn with
  | none    => exact Iff.rfl
  | some fn => exact ⟨fun h => ⟨h.index, h.current, h.tasks⟩, fun h => ⟨h.index, h.current, h.tasks⟩⟩

/-- A dispatch to a worker that is there runs the function, or posts it to the worker. -/
theorem dispatch_cases {target : WorkerId} (hlive : (s.workers.heap target).isSome = true) {e : WorkerExecutor DispatchedFn}
    (he : e.worker = some target) (thread : Thread) (fn : DispatchedFn) :
    (e.isCurrent s.workers thread = true ∧ e.dispatch s.workers thread fn = (some fn, s.workers)) ∨
      e.isCurrent s.workers thread = false ∧ e.dispatch s.workers thread fn = (none, s.workers.post target fn) := by
  obtain ⟨w, hw⟩ := Option.isSome_iff_exists.1 hlive
  have hlock : e.lock s.workers = some (target, w) := by rw [WorkerExecutor.lock, he, Option.bind_some, hw, Option.map_some]
  unfold WorkerExecutor.dispatch
  rw [hlock]
  dsimp only
  cases e.isCurrent s.workers thread with
  | true  => exact .inl ⟨rfl, rfl⟩
  | false => exact .inr ⟨rfl, rfl⟩

theorem Indexed.step (h : s.Indexed) (e : ExecutorEvent) : (s.step e).Indexed := by
  cases e with
  | initMainWorker id    =>
    dsimp only [ExecutorSystem.step]
    split
    · exact h
    · rename_i hnew
      exact h.publish (Option.not_isSome_iff_eq_none.1 fun hs => hnew (.inl hs)) 0 rfl
  | createWorker id      =>
    dsimp only [ExecutorSystem.step]
    split
    · exact h
    · rename_i hnew
      exact h.publish (Option.not_isSome_iff_eq_none.1 hnew) _ rfl
  | init id              => exact h.initWorker id
  | enter id             =>
    dsimp only [ExecutorSystem.step]
    split
    · rename_i hready
      refine ⟨h.index, fun j hj => ?_, h.tasks⟩
      by_cases hid : j = id
      · subst hid
        exact (Option.any_eq_true _ _).1 hready
      · exact h.current j ((Function.update_of_ne hid ..).symm.trans hj)
    · exact h
  | leave id             =>
    refine ⟨h.index, fun j hj => h.current j ?_, h.tasks⟩
    by_cases hid : j = id
    · subst hid
      cases (Function.update_self ..).symm.trans hj
    · exact (Function.update_of_ne hid ..).symm.trans hj
  | onStart id           => exact h.modify rfl rfl rfl (fun _ => ⟨rfl, rfl⟩) fun _ _ hfn => .inl hfn
  | enterShutdownMode id => exact h.modify rfl rfl rfl (fun _ => ⟨rfl, rfl⟩) fun _ _ hfn => .inl hfn
  | stop id              => exact h.modify rfl rfl rfl (fun _ => ⟨rfl, rfl⟩) fun _ _ hfn => .inl hfn
  | worked id k          =>
    dsimp only [ExecutorSystem.step]
    split
    · refine indexed_runTask.2 ?_
      exact h.modify rfl rfl rfl (fun _ => ⟨rfl, rfl⟩) fun _ _ hfn => .inl (List.mem_of_mem_eraseIdx hfn)
    · exact h
  | isCurrent thread target =>
    dsimp only [ExecutorSystem.step]
    split
    · exact ⟨h.index, h.current, h.tasks⟩
    · exact h
  | dispatch thread target n inlineFallback =>
    dsimp only [ExecutorSystem.step]
    split
    · rename_i hcall
      refine indexed_runTask.2 ?_
      rcases dispatch_cases (e := { worker := some target, inlineFallback }) hcall.2 rfl thread ⟨target, n⟩ with
        ⟨-, hdispatch⟩ | ⟨-, hdispatch⟩
      · rw [hdispatch]
        exact ⟨h.index, h.current, h.tasks⟩
      · rw [hdispatch]
        refine h.modify rfl rfl rfl (fun w => ?_) fun w fn hfn => ?_
        · unfold Worker.post Worker.enqueueTask Worker.enqueue
          split <;> exact ⟨rfl, rfl⟩
        · exact (Worker.mem_post hfn).imp_right fun heq => congrArg DispatchedFn.target heq
    · exact h

/-! ## Affinity -/

theorem affine_runTask_some {thread : Thread} {fn : DispatchedFn} :
    (s.runTask thread (some fn)).Affine ↔ s.Affine ∧ thread = .worker fn.target := by
  constructor
  · rintro ⟨hanswers, hran⟩
    exact ⟨⟨hanswers, fun r hr => hran r (List.mem_cons_of_mem _ hr)⟩, hran _ List.mem_cons_self⟩
  · rintro ⟨⟨hanswers, hran⟩, hthread⟩
    exact ⟨hanswers, List.forall_mem_cons.2 ⟨hthread, hran⟩⟩

theorem affine_congr {t : ExecutorSystem} (hanswers : t.answers = s.answers) (hran : t.ran = s.ran) : t.Affine ↔ s.Affine := by
  constructor
  · rintro ⟨ha, hr⟩
    exact ⟨hanswers ▸ ha, hran ▸ hr⟩
  · rintro ⟨ha, hr⟩
    exact ⟨hanswers ▸ ha, hran ▸ hr⟩

/-- **A step keeps the functions on their threads exactly if no other worker of the target's index asks or dispatches.** -/
theorem affine_step_iff (h : s.Indexed) (e : ExecutorEvent) : (s.step e).Affine ↔ s.Affine ∧ s.OwnIndex e := by
  cases e with
  | worked id k =>
    refine Iff.trans ?_ (and_iff_left trivial).symm
    dsimp only [ExecutorSystem.step]
    split
    · cases htask : (s.workers.tasks id)[k]? with
      | none    => exact affine_congr rfl rfl
      | some fn =>
        refine affine_runTask_some.trans ((and_iff_left ?_).trans (affine_congr rfl rfl))
        exact congrArg Thread.worker (h.tasks id fn (List.mem_of_getElem? htask)).symm
    · exact Iff.rfl
  | isCurrent thread target =>
    dsimp only [ExecutorSystem.step, OwnIndex]
    split
    · rename_i hcall
      obtain ⟨w, hw⟩ := Option.isSome_iff_exists.1 hcall.2
      rw [imp_iff_right hcall, ← isCurrent_iff h hcall.1 hw (e := { worker := some target }) rfl]
      constructor
      · rintro ⟨hanswers, hran⟩
        exact ⟨⟨fun a ha => hanswers a (List.mem_cons_of_mem _ ha), hran⟩, hanswers _ List.mem_cons_self⟩
      · rintro ⟨⟨hanswers, hran⟩, hanswer⟩
        exact ⟨List.forall_mem_cons.2 ⟨hanswer, hanswers⟩, hran⟩
    · rename_i hcall
      exact (and_iff_left fun hc => absurd hc hcall).symm
  | dispatch thread target n inlineFallback =>
    dsimp only [ExecutorSystem.step, OwnIndex]
    split
    · rename_i hcall
      obtain ⟨w, hw⟩ := Option.isSome_iff_exists.1 hcall.2
      rw [imp_iff_right hcall]
      rw [← isCurrent_iff h hcall.1 hw (e := { worker := some target, inlineFallback }) rfl]
      rcases dispatch_cases (e := { worker := some target, inlineFallback }) hcall.2 rfl thread ⟨target, n⟩ with
        ⟨hcurrent, hdispatch⟩ | ⟨hcurrent, hdispatch⟩
      · rw [hdispatch, hcurrent]
        refine affine_runTask_some.trans (and_congr (affine_congr rfl rfl) ?_)
        exact (iff_true_left rfl).symm
      · rw [hdispatch, hcurrent]
        refine Iff.trans ?_ (and_iff_left ?_).symm
        · exact affine_congr rfl rfl
        refine iff_of_false Bool.false_ne_true fun hthread => ?_
        subst hthread
        exact Bool.false_ne_true (hcurrent.symm.trans (isCurrent_own h hcall.1 hw rfl))
    · rename_i hcall
      exact (and_iff_left fun hc => absurd hc hcall).symm
  | initMainWorker id =>
    refine Iff.trans ?_ (and_iff_left trivial).symm
    dsimp only [ExecutorSystem.step]
    split
    · exact Iff.rfl
    · exact affine_congr rfl rfl
  | createWorker id =>
    refine Iff.trans ?_ (and_iff_left trivial).symm
    dsimp only [ExecutorSystem.step]
    split
    · exact Iff.rfl
    · exact affine_congr rfl rfl
  | enter id =>
    refine Iff.trans ?_ (and_iff_left trivial).symm
    dsimp only [ExecutorSystem.step]
    split
    · exact affine_congr rfl rfl
    · exact Iff.rfl
  | _ =>
    refine Iff.trans ?_ (and_iff_left trivial).symm
    exact affine_congr rfl rfl

theorem always_affine_iff (es : List ExecutorEvent) : Always step Affine {} es ↔ Along step OwnIndex {} es := by
  refine Run.always_iff_along (fun _ e h _ => h.step e) (fun s e h hsafe => ?_) es Indexed.init ⟨nofun, nofun⟩
  rw [affine_step_iff h e, and_iff_right hsafe]

/-- **In every run from the start, `IsCurrent` was true on the own thread and nowhere else and nothing ran elsewhere, exactly
if no step asked or dispatched from a worker of the index that the target then had.** -/
theorem run_affine_iff (es : List ExecutorEvent) : Always step Affine {} es ↔ Along step OwnIndex {} es :=
  always_affine_iff es

/-- The main worker has the index 0, the others follow in the order of `CreateWorker`. -/
structure Counted (s : ExecutorSystem) : Prop where
  main   : ∀ id, s.workers.mainWorker = some id → s.index id = 0 ∧ (s.workers.heap id).isSome = true
  others : ∀ id, (s.workers.heap id).isSome = true → s.workers.mainWorker ≠ some id →
    ∃ k, s.workers.workers[k]? = some id ∧ s.index id = k + 1

theorem Counted.init : ({} : ExecutorSystem).Counted where
  main   := nofun
  others := nofun

theorem Counted.modify {t : ExecutorSystem} (h : s.Counted) {id : WorkerId} {f : Worker DispatchedFn → Worker DispatchedFn}
    (hworkers : t.workers = s.workers.modify id f) (hindex : t.index = s.index) : t.Counted := by
  have hlive (j : WorkerId) : (t.workers.heap j).isSome = (s.workers.heap j).isSome := by
    rw [hworkers]
    exact s.workers.isSome_heap_modify id f j
  constructor
  · rw [hworkers, hindex]
    intro j hj
    rw [← hworkers, hlive]
    exact h.main j hj
  · rw [hindex]
    intro j hj hne
    rw [hlive] at hj
    rw [hworkers] at hne ⊢
    exact h.others j hj hne

theorem Counted.congr {t : ExecutorSystem} (h : s.Counted) (hworkers : t.workers = s.workers) (hindex : t.index = s.index) :
    t.Counted where
  main   := by
    rw [hworkers, hindex]
    exact h.main
  others := by
    rw [hworkers, hindex]
    exact h.others

theorem counted_runTask {thread : Thread} {fn : Option DispatchedFn} (h : s.Counted) : (s.runTask thread fn).Counted := by
  cases fn <;> exact h.congr rfl rfl

theorem Counted.initMainWorker (h : s.Counted) {id : WorkerId} (hnone : s.workers.mainWorker = none) :
    (s.publish id 0 { s.workers with mainWorker := some id }).Counted where
  main   := fun j hj => by
    obtain rfl := Option.some.inj hj
    refine ⟨Function.update_self .., ?_⟩
    change (Function.update s.workers.heap id (some {}) id).isSome = true
    rw [Function.update_self]
    rfl
  others := fun j hj hne => by
    have hjd : j ≠ id := fun heq => hne (congrArg some heq.symm)
    change (Function.update s.workers.heap id (some {}) j).isSome = true at hj
    rw [Function.update_of_ne hjd] at hj
    obtain ⟨k, hk, hindex⟩ := h.others j hj (by rw [hnone]; exact nofun)
    exact ⟨k, hk, (Function.update_of_ne hjd ..).trans hindex⟩

theorem Counted.createWorker (h : s.Counted) {id : WorkerId} (hnew : (s.workers.heap id).isSome = false) :
    (s.publish id (s.workers.workers.length + 1) { s.workers with workers := s.workers.workers ++ [id] }).Counted where
  main   := fun j hj => by
    obtain ⟨hindex, hlive⟩ := h.main j hj
    have hjd : j ≠ id := by
      rintro rfl
      exact Bool.false_ne_true (hnew.symm.trans hlive)
    refine ⟨(Function.update_of_ne hjd ..).trans hindex, ?_⟩
    change (Function.update s.workers.heap id (some {}) j).isSome = true
    rwa [Function.update_of_ne hjd]
  others := fun j hj hne => by
    by_cases hjd : j = id
    · subst hjd
      exact ⟨_, List.getElem?_concat_length, Function.update_self ..⟩
    · change (Function.update s.workers.heap id (some {}) j).isSome = true at hj
      rw [Function.update_of_ne hjd] at hj
      obtain ⟨k, hk, hindex⟩ := h.others j hj hne
      obtain ⟨hlt, -⟩ := List.getElem?_eq_some_iff.1 hk
      exact ⟨k, (List.getElem?_append_left hlt).trans hk, (Function.update_of_ne hjd ..).trans hindex⟩

theorem Counted.step (h : s.Counted) (e : ExecutorEvent) : (s.step e).Counted := by
  cases e with
  | initMainWorker id    =>
    dsimp only [ExecutorSystem.step]
    split
    · exact h
    · rename_i hnew
      exact h.initMainWorker (Option.not_isSome_iff_eq_none.1 fun hs => hnew (.inr hs))
  | createWorker id      =>
    dsimp only [ExecutorSystem.step]
    split
    · exact h
    · rename_i hnew
      exact h.createWorker (Bool.eq_false_of_not_eq_true hnew)
  | init id              => exact h.modify rfl rfl
  | enter id             =>
    dsimp only [ExecutorSystem.step]
    split <;> exact h.congr rfl rfl
  | leave id             => exact h.congr rfl rfl
  | onStart id           => exact h.modify rfl rfl
  | enterShutdownMode id => exact h.modify rfl rfl
  | stop id              => exact h.modify rfl rfl
  | worked id k          =>
    dsimp only [ExecutorSystem.step]
    split
    · exact counted_runTask (h.modify rfl rfl)
    · exact h
  | isCurrent thread target =>
    dsimp only [ExecutorSystem.step]
    split <;> exact h.congr rfl rfl
  | dispatch thread target n inlineFallback =>
    dsimp only [ExecutorSystem.step]
    split
    · rename_i hcall
      refine counted_runTask ?_
      rcases dispatch_cases (e := { worker := some target, inlineFallback }) hcall.2 rfl thread ⟨target, n⟩ with
        ⟨-, hdispatch⟩ | ⟨-, hdispatch⟩
      · rw [hdispatch]
        exact h.congr rfl rfl
      · rw [hdispatch]
        exact h.modify rfl rfl
    · exact h

theorem Counted.lt (h : s.Counted) {id : WorkerId} (hid : (s.workers.heap id).isSome = true)
    (hfew : s.workers.workers.length < 2 ^ 32 - 1) : s.index id < 2 ^ 32 := by
  by_cases hmain : s.workers.mainWorker = some id
  · rw [(h.main id hmain).1]
    decide
  · obtain ⟨k, hk, hindex⟩ := h.others id hid hmain
    obtain ⟨hlt, -⟩ := List.getElem?_eq_some_iff.1 hk
    omega

theorem Counted.inj (h : s.Counted) {id id' : WorkerId} (hid : (s.workers.heap id).isSome = true)
    (hid' : (s.workers.heap id').isSome = true) (heq : s.index id = s.index id') : id = id' := by
  by_cases hmain : s.workers.mainWorker = some id
  · by_cases hmain' : s.workers.mainWorker = some id'
    · exact Option.some.inj (hmain.symm.trans hmain')
    · obtain ⟨k, -, hindex⟩ := h.others id' hid' hmain'
      rw [(h.main id hmain).1, hindex] at heq
      cases heq
  · obtain ⟨k, hk, hindex⟩ := h.others id hid hmain
    by_cases hmain' : s.workers.mainWorker = some id'
    · rw [(h.main id' hmain').1, hindex] at heq
      cases heq
    · obtain ⟨k', hk', hindex'⟩ := h.others id' hid' hmain'
      obtain rfl : k = k' := by omega
      exact Option.some.inj (hk.symm.trans hk')

/-- The target's thread has not come to `Init`, and the main worker is calling. -/
def EarlyMain (s : ExecutorSystem) (thread : Thread) (target : WorkerId) : Prop :=
  ∃ id, thread = .worker id ∧ id ≠ target ∧ s.workers.mainWorker = some id ∧ ¬(s.workers.heap target).any Worker.executor

/-- As long as the indices do not wrap, the one thread that is taken for another is that of the main worker, for a worker that
has not come to `Init`. -/
theorem apart_iff (h : s.Indexed) (hcounted : s.Counted) (hfew : s.workers.workers.length < 2 ^ 32 - 1) {thread : Thread}
    (hcalls : s.Calls thread) {target : WorkerId} (hlive : (s.workers.heap target).isSome = true) :
    s.Apart thread target ↔ ¬s.EarlyMain thread target := by
  unfold Apart EarlyMain
  cases thread with
  | io n       => exact iff_of_true (fun id hid => nomatch hid) fun ⟨id, hid, _⟩ => nomatch hid
  | other n    => exact iff_of_true (fun id hid => nomatch hid) fun ⟨id, hid, _⟩ => nomatch hid
  | worker own =>
    obtain ⟨w, hw, -⟩ := h.current own hcalls
    have hown : (s.workers.heap own).isSome = true := by
      rw [hw]
      rfl
    have hlt := hcounted.lt hown hfew
    constructor
    · rintro hapart ⟨id, hid, hne, hmain, hready⟩
      have hindex := hapart id hid hne
      rw [if_neg hready, (hcounted.main id hmain).1] at hindex
      exact hindex rfl
    · intro hnone id hid hne
      obtain rfl := Thread.worker.inj hid
      split
      · rw [Nat.mod_eq_of_lt hlt, Nat.mod_eq_of_lt (hcounted.lt hlive hfew)]
        exact fun heq => hne (hcounted.inj hown hlive heq)
      · rename_i hready
        rw [Nat.mod_eq_of_lt hlt]
        intro hzero
        by_cases hmain : s.workers.mainWorker = some own
        · exact hnone ⟨own, rfl, hne, hmain, hready⟩
        · obtain ⟨k, -, hindex⟩ := hcounted.others own hown hmain
          omega

/-- The condition on a step where the indices do not wrap. -/
def NotEarly (s : ExecutorSystem) : ExecutorEvent → Prop
  | .isCurrent thread target    => s.Calls thread ∧ (s.workers.heap target).isSome = true → ¬s.EarlyMain thread target
  | .dispatch thread target _ _ => s.Calls thread ∧ (s.workers.heap target).isSome = true → ¬s.EarlyMain thread target
  | _                           => True

theorem along_ownIndex_iff : ∀ (es : List ExecutorEvent) {s : ExecutorSystem}, s.Indexed → s.Counted →
    Along step (fun s _ => s.workers.workers.length < 2 ^ 32 - 1) s es → (Along step OwnIndex s es ↔ Along step NotEarly s es)
  | [],      _, _, _,        _    => Iff.rfl
  | e :: es, s, h, hcounted, hfew => by
    refine and_congr ?_ (along_ownIndex_iff es (h.step e) (hcounted.step e) hfew.2)
    cases e with
    | isCurrent thread target    => exact forall_congr' fun hcall => apart_iff h hcounted hfew.1 hcall.1 hcall.2
    | dispatch thread target _ _ => exact forall_congr' fun hcall => apart_iff h hcounted hfew.1 hcall.1 hcall.2
    | _                          => exact Iff.rfl

/-- With fewer workers than there are indices, the one call that goes wrong is that of the main worker's thread, of a worker
that has not come to `Init`. -/
theorem run_affine_iff_of_few {es : List ExecutorEvent}
    (hfew : Along step (fun s _ => s.workers.workers.length < 2 ^ 32 - 1) {} es) :
    Always step Affine {} es ↔ Along step NotEarly {} es :=
  (always_affine_iff es).trans (along_ownIndex_iff es Indexed.init Counted.init hfew)

/-- The main worker dispatches to a worker whose thread has not come to `Init`. -/
def startingWorker : List ExecutorEvent :=
  [.initMainWorker 0, .init 0, .enter 0, .createWorker 1, .dispatch (.worker 0) 1 7 false]

theorem not_executor_affine : ¬∀ es, Always step Affine {} es := by
  intro h
  have haffine : (startingWorker.foldl step {}).Affine := Run.always_iff_take.1 (h startingWorker) startingWorker.length
  exact absurd (haffine.ran _ List.mem_cons_self) (by decide)

end ExecutorSystem

end Gb
