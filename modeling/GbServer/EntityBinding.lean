import GbServer.Lib.Run
import GbServer.Router
/-!
# EntityBinding — one entity bound to one worker

The entity routes of `Router` (`router.cpp`), on top of the route table, and which index `GetExecutor` looks up for an
entity.  `BindSingle` binds the interval from the id to the next one.  After `UINT64_MAX` there is none: the sum wraps
around to 0, the interval is empty, and `Bind` returns without a word (`run_bindsSingle_iff`).
-/
namespace Gb

open LockFreeRouteTable (kInvalidWorker Op)

namespace Router

def bindEntity (r : Router) (entityBegin entityEnd : EntityId) (workerIndex : WorkerIndex) : Option Router :=
  (r.entityRouteTable.bind (r.entityRouteTable.pending.length + 1) entityBegin entityEnd workerIndex).map fun table =>
    { r with entityRouteTable := table }

def bindSingleEntity (r : Router) (entityId : EntityId) (workerIndex : WorkerIndex) : Option Router :=
  (r.entityRouteTable.bindSingle (r.entityRouteTable.pending.length + 1) entityId workerIndex).map fun table =>
    { r with entityRouteTable := table }

def unbindEntity (r : Router) (entityId : EntityId) : Router :=
  { r with entityRouteTable := r.entityRouteTable.unbind entityId }

def freezeEntityRoutes (r : Router) : Router := { r with entityRouteTable := r.entityRouteTable.freeze }

/-- A call that changes the entity routes. -/
inductive EntityCall
  | bindEntity (entityBegin entityEnd : EntityId) (workerIndex : WorkerIndex)
  | bindSingleEntity (entityId : EntityId) (workerIndex : WorkerIndex)
  | unbindEntity (entityId : EntityId)
  | freezeEntityRoutes

def entityStep (r : Router) : EntityCall → Option Router
  | .bindEntity b e w       => r.bindEntity b e w
  | .bindSingleEntity id w  => r.bindSingleEntity id w
  | .unbindEntity id        => some (r.unbindEntity id)
  | .freezeEntityRoutes     => some r.freezeEntityRoutes

def entityRun : Router → List EntityCall → Option Router
  | r, []            => some r
  | r, call :: calls =>
    match r.entityStep call with
    | none    => none
    | some r' => r'.entityRun calls

/-- A router of the stateful policy before any call for the entity routes. -/
def stateful (r : Router) : Router := { r with policy := .stateful, entityRouteTable := .init }

/-- The index that `GetExecutor` looks up under the stateful policy; for a system message it looks up none. -/
def lookedUp (r : Router) (userUniqueId : EntityId) : Option WorkerIndex :=
  if userUniqueId = 0 then none else some (r.entityRouteTable.lookup userUniqueId)

/-- The executor that `GetExecutor` returns for what it has looked up. -/
def executorOf {τ : Type} (ws : Workers τ) : Option WorkerIndex → WorkerExecutor τ
  | none             => (ws.mainWorker.map fun mainWorker => .ofWorker ws mainWorker).getD {}
  | some workerIndex =>
    if workerIndex = kInvalidWorker then {}
    else ((ws.getWorker workerIndex.val).map fun worker => .ofWorker ws worker).getD {}

/-- **Under the stateful policy the index is all that `GetExecutor` takes from the router.** -/
theorem getExecutor_stateful {τ : Type} (ws : Workers τ) {r : Router} (hpolicy : r.policy = .stateful) (messageType : Nat)
    (userUniqueId : EntityId) :
    getExecutor ws r messageType userUniqueId.val = executorOf ws (r.lookedUp userUniqueId) := by
  have hid : Fin.ofNat 18446744073709551616 userUniqueId.val = userUniqueId := Fin.ofNat_val_eq_self userUniqueId
  unfold getExecutor lookedUp
  by_cases hzero : userUniqueId = 0
  · rw [if_pos (Fin.val_eq_zero_iff.2 hzero), if_pos hzero]
    dsimp only [executorOf]
    cases ws.mainWorker <;> rfl
  · rw [if_neg fun h => hzero (Fin.val_eq_zero_iff.1 h), if_neg hzero, hpolicy, hid]
    dsimp only [executorOf]
    by_cases hbound : r.entityRouteTable.lookup userUniqueId = kInvalidWorker
    · rw [if_neg (not_not.2 hbound), if_pos hbound]
    · rw [if_pos hbound, if_neg hbound]
      cases ws.getWorker (r.entityRouteTable.lookup userUniqueId).val <;> rfl

/-- After the entity is bound and the routes are frozen, the worker is looked up for it, and for every other id what would
have been without the binding. -/
def BindsSingle (r : Router) (entityId : EntityId) (workerIndex : WorkerIndex) : Prop :=
  ∃ bound, r.bindSingleEntity entityId workerIndex = some bound ∧
    bound.freezeEntityRoutes.lookedUp entityId = some workerIndex ∧
    ∀ id, id ≠ entityId → bound.freezeEntityRoutes.lookedUp id = r.freezeEntityRoutes.lookedUp id

/-! ## The calls on the route table -/

def EntityCall.op : EntityCall → Op
  | .bindEntity b e w      => .bind b e w
  | .bindSingleEntity id w => .bind id (id + 1) w
  | .unbindEntity id       => .unbind id
  | .freezeEntityRoutes    => .freeze

theorem entityStep_eq (r : Router) (call : EntityCall) : r.entityStep call =
    (r.entityRouteTable.step call.op).map fun table => { r with entityRouteTable := table } := by
  cases call <;> rfl

theorem entityRun_refines : ∀ (calls : List EntityCall) {r : Router} {m : PlainRoutes}, r.entityRouteTable.Refines m →
    ∃ r', r.entityRun calls = some r' ∧ r'.entityRouteTable.Refines (m.run (calls.map EntityCall.op))
  | [],            r, _, h => ⟨r, rfl, h⟩
  | call :: calls, r, m, h => by
    obtain ⟨table, htable, hnext⟩ := h.step call.op
    obtain ⟨r', hrun, hrefines⟩ := entityRun_refines calls (r := { r with entityRouteTable := table }) hnext
    refine ⟨r', ?_, hrefines⟩
    rw [entityRun, entityStep_eq, htable]
    exact hrun

/-- No call binds `UINT64_MAX`: it is in no half-open interval. -/
theorem live_last (ops : List Op) : (PlainRoutes.init.run ops).live (Fin.last _) = none := by
  refine Run.foldl_of_step (fun m : PlainRoutes => m.live (Fin.last _) = none) (fun m op h => ?_) ops rfl
  cases op with
  | bind b e w => exact (if_neg fun hin => absurd (Fin.le_last e) (not_le.2 hin.2)).trans h
  | unbind id  =>
    dsimp only [PlainRoutes.step]
    split
    · rfl
    · exact h
  | freeze     => exact h

/-- What is looked up after the routes are frozen. -/
theorem lookup_freeze {t : LockFreeRouteTable} {m : PlainRoutes} (h : t.Refines m) (id : EntityId) :
    t.freeze.lookup id = (m.live id).getD kInvalidWorker := by
  obtain ⟨frozen, hfrozen, hrefines⟩ := h.step .freeze
  obtain rfl : t.freeze = frozen := Option.some.inj hfrozen
  exact hrefines.lookup id

/-- The interval of one id holds that id and no other; that of `UINT64_MAX` holds none. -/
theorem single_covers (entityId id : EntityId) :
    (entityId ≤ id ∧ id < entityId + 1) ↔ id = entityId ∧ entityId ≠ Fin.last _ := by
  by_cases hlast : entityId = Fin.last _
  · refine iff_of_false (fun hin => ?_) fun hin => hin.2 hlast
    rw [hlast, Fin.last_add_one] at hin
    exact absurd hin.2 (not_lt.2 (Fin.zero_le id))
  · rw [LockFreeRouteTable.lt_succ_iff (Fin.lt_last_iff_ne_last.2 hlast)]
    exact ⟨fun hin => ⟨le_antisymm hin.2 hin.1, hlast⟩, fun hin => ⟨hin.1.ge, hin.1.le⟩⟩

theorem lookedUp_freeze {r : Router} {m : PlainRoutes} (h : r.entityRouteTable.Refines m) {id : EntityId} (hid : id ≠ 0) :
    r.freezeEntityRoutes.lookedUp id = some ((m.live id).getD kInvalidWorker) := by
  rw [lookedUp, if_neg hid]
  exact congrArg some (lookup_freeze h id)

theorem bindsSingle_iff {r : Router} {m : PlainRoutes} (h : r.entityRouteTable.Refines m)
    (hlast : m.live (Fin.last _) = none) {entityId : EntityId} (hzero : entityId ≠ 0) (workerIndex : WorkerIndex) :
    r.BindsSingle entityId workerIndex ↔ entityId ≠ Fin.last _ ∨ workerIndex = kInvalidWorker := by
  obtain ⟨table, htable, hrefines⟩ := h.step (.bind entityId (entityId + 1) workerIndex)
  have hbound : r.bindSingleEntity entityId workerIndex = some { r with entityRouteTable := table } := by
    have hstep := r.entityStep_eq (.bindSingleEntity entityId workerIndex)
    rw [EntityCall.op, htable] at hstep
    exact hstep
  have hlive (id : EntityId) : (m.step (.bind entityId (entityId + 1) workerIndex)).live id =
      if id = entityId ∧ entityId ≠ Fin.last _ then some workerIndex else m.live id := by
    simp only [PlainRoutes.step, single_covers]
  have hself : Router.lookedUp (freezeEntityRoutes { r with entityRouteTable := table }) entityId =
      some (if entityId ≠ Fin.last _ then workerIndex else kInvalidWorker) := by
    rw [lookedUp_freeze hrefines hzero, hlive]
    by_cases hmax : entityId = Fin.last _
    · rw [if_neg fun hin => hin.2 hmax, if_neg (not_not.2 hmax), hmax, hlast, Option.getD_none]
    · rw [if_pos ⟨rfl, hmax⟩, if_pos hmax, Option.getD_some]
  constructor
  · rintro ⟨bound, hb, hw, _⟩
    obtain rfl := Option.some.inj (hbound.symm.trans hb)
    rw [hself, Option.some.injEq] at hw
    by_cases hmax : entityId = Fin.last _
    · rw [if_neg (not_not.2 hmax)] at hw
      exact .inr hw.symm
    · exact .inl hmax
  · intro hcond
    refine ⟨_, hbound, ?_, fun id hne => ?_⟩
    · rw [hself]
      rcases hcond with hmax | hinvalid
      · rw [if_pos hmax]
      · rw [hinvalid, ite_self]
    · by_cases hid : id = 0
      · rw [lookedUp, lookedUp, if_pos hid, if_pos hid]
      · rw [lookedUp_freeze hrefines hid, lookedUp_freeze h hid, hlive, if_neg fun hin => hne hin.1]

/-- **Binding one entity binds it, and nothing else**, after any calls, exactly where its id is not `UINT64_MAX`: there nothing
is bound, and the invalid index is looked up as before. -/
theorem run_bindsSingle_iff (r : Router) (calls : List EntityCall) (entityId : EntityId) (hzero : entityId ≠ 0)
    (workerIndex : WorkerIndex) :
    ∃ r', r.stateful.entityRun calls = some r' ∧
      (r'.BindsSingle entityId workerIndex ↔ entityId ≠ Fin.last _ ∨ workerIndex = kInvalidWorker) := by
  obtain ⟨r', hrun, hrefines⟩ := entityRun_refines calls (r := r.stateful) LockFreeRouteTable.Refines.init
  exact ⟨r', hrun, bindsSingle_iff hrefines (live_last _) hzero workerIndex⟩

/-- An id in the middle of an interval that is bound already. -/
theorem run_bindsSingle_iff_middle :
    ∃ r', Router.entityRun (stateful {}) [.bindEntity 0 10 1] = some r' ∧
      (r'.BindsSingle 5 2 ↔ (5 : EntityId) ≠ Fin.last _ ∨ (2 : WorkerIndex) = kInvalidWorker) :=
  run_bindsSingle_iff {} [.bindEntity 0 10 1] 5 (by decide) 2

theorem not_bindsSingle : ¬∀ (calls : List EntityCall) (entityId : EntityId), entityId ≠ 0 → ∀ workerIndex : WorkerIndex,
    ∃ r', Router.entityRun (stateful {}) calls = some r' ∧ r'.BindsSingle entityId workerIndex := by
  intro h
  obtain ⟨r', hrun, bound, hbound, hlookup, _⟩ := h [] (Fin.last _) (by decide) 2
  obtain rfl := Option.some.inj hrun
  obtain rfl := Option.some.inj hbound
  exact absurd hlookup (by decide +kernel)

end Router

end Gb
