import GbServer.RouteTable
import GbServer.Worker
/-!
# Router — which worker a message goes to

`RouteTable` (`route_table.h`) and `Router` (`router.cpp`).  The functions that an application may set are parameters:
they are called with a snapshot of the workers and give what they give.  `route` says what the router is for: the worker
of a message, or none; `getExecutor` names that worker, and where there is none it returns an executor that is not empty
but runs its tasks where it is called (`getExecutor_cases`).
-/
namespace Gb

/-- `SWT_Count`. -/
def swtCount : Nat := 3

/-- `SWT_Normal`. -/
def swtNormal : Nat := 0

structure RouteTable.FrozenSnapshot where
  resolver : Option (Nat → Nat)
  workers  : Nat → Option (List WorkerId)

structure RouteTable where
  serviceTypeResolver : Option (Nat → Nat) := none
  workers             : Nat → List WorkerId := fun _ => []
  frozen              : Option RouteTable.FrozenSnapshot := none

namespace RouteTable

def registerWorker (t : RouteTable) (serviceWorkerType : Nat) (worker : WorkerId) : RouteTable :=
  if swtCount ≤ serviceWorkerType then t
  else { t with workers := Function.update t.workers serviceWorkerType (t.workers serviceWorkerType ++ [worker]) }

def setServiceTypeResolver (t : RouteTable) (resolver : Option (Nat → Nat)) : RouteTable :=
  { t with serviceTypeResolver := resolver }

/-- `Freeze`: the types without workers stay without a list. -/
def freeze (t : RouteTable) : RouteTable :=
  { t with frozen := some ⟨t.serviceTypeResolver, fun i =>
      if i < swtCount ∧ t.workers i ≠ [] then some (t.workers i) else none⟩ }

/-- `GetWorkerRef`. -/
def getWorkerRef (t : RouteTable) (serviceWorkerType : Nat) : Option (List WorkerId) :=
  t.frozen.bind fun frozen => if serviceWorkerType < swtCount then frozen.workers serviceWorkerType else none

/-- `GetWorker`. -/
def getWorker (t : RouteTable) (serviceWorkerType : Nat) : List WorkerId :=
  match t.frozen, decide (serviceWorkerType < swtCount) with
  | some frozen, true => (frozen.workers serviceWorkerType).getD []
  | _,           _    => if swtCount ≤ serviceWorkerType then [] else t.workers serviceWorkerType

def resolveServiceWorkerType (t : RouteTable) (messageType : Nat) : Nat :=
  match t.frozen.bind FrozenSnapshot.resolver with
  | some resolver => resolver messageType
  | none          => (t.serviceTypeResolver.map fun resolver => resolver messageType).getD swtNormal

end RouteTable

inductive Router.Policy
  | stateful
  | stateless
  deriving DecidableEq

/-- The two functions that choose among the workers of a type. -/
structure Router.Strategy where
  routeKeySelector    : Option (Nat → Nat → Nat) := none
  workerIndexSelector : Option (List WorkerId → Nat → Nat → Nat) := none

structure Router where
  policy           : Router.Policy := .stateless
  routeTable       : RouteTable := {}
  strategy         : Router.Strategy := {}
  entityRouteTable : LockFreeRouteTable := .init
  frozenStrategy   : Option Router.Strategy := none

namespace Router

def registerWorker (r : Router) (serviceWorkerType : Nat) (worker : WorkerId) : Router :=
  { r with routeTable := r.routeTable.registerWorker serviceWorkerType worker }

def setServiceTypeResolver (r : Router) (resolver : Option (Nat → Nat)) : Router :=
  { r with routeTable := r.routeTable.setServiceTypeResolver resolver }

def setRouteKeySelector (r : Router) (selector : Option (Nat → Nat → Nat)) : Router :=
  { r with strategy := { r.strategy with routeKeySelector := selector } }

def setWorkerIndexSelector (r : Router) (selector : Option (List WorkerId → Nat → Nat → Nat)) : Router :=
  { r with strategy := { r.strategy with workerIndexSelector := selector } }

def freeze (r : Router) : Router := { r with routeTable := r.routeTable.freeze, frozenStrategy := some r.strategy }

/-- `PickWorker`: the weak pointer that is picked. -/
def pickWorker (r : Router) (workers : List WorkerId) (messageType routeId : Nat) : Option WorkerId :=
  if workers = [] then none
  else
    let strategy := r.frozenStrategy.getD r.strategy
    match strategy.workerIndexSelector with
    | some selector => workers[selector workers messageType routeId]?
    | none          =>
      let routeKey := (strategy.routeKeySelector.map fun selector => selector messageType routeId).getD routeId
      workers[routeKey % workers.length]?

section

variable {τ : Type} (ws : Workers τ) (r : Router) (messageType userUniqueId : Nat)

/-- `GetExecutor`. -/
def getExecutor : WorkerExecutor τ :=
  if userUniqueId = 0 then
    match ws.mainWorker with
    | some mainWorker => .ofWorker ws mainWorker
    | none            => {}
  else
    match r.policy with
    | .stateful =>
      let workerIndex := r.entityRouteTable.lookup (Fin.ofNat _ userUniqueId)
      if workerIndex ≠ LockFreeRouteTable.kInvalidWorker then
        match ws.getWorker workerIndex.val with
        | some worker => .ofWorker ws worker
        | none        => {}
      else {}
    | .stateless =>
      match r.routeTable.getWorkerRef (r.routeTable.resolveServiceWorkerType messageType) with
      | none         => {}
      | some workers =>
        if workers = [] then {}
        else
          match (r.pickWorker workers messageType userUniqueId).filter fun target => (ws.heap target).isSome with
          | none        => {}
          | some target => .ofWorker ws target

/-! ## What the router is for -/

/-- The worker that is registered for the type of a message, and not yet gone. -/
def registered : Option WorkerId :=
  ((r.routeTable.getWorkerRef (r.routeTable.resolveServiceWorkerType messageType)).bind fun workers =>
    r.pickWorker workers messageType userUniqueId).filter fun target => (ws.heap target).isSome

/-- The worker of a message: the main worker for a system message; the worker that the entity is bound to; or one of
those that are registered.  An entity that is not bound, or bound to a worker that does not exist, has none. -/
def route : Option WorkerId :=
  if userUniqueId = 0 then ws.mainWorker
  else
    match r.policy with
    | .stateful  =>
      let workerIndex := r.entityRouteTable.lookup (Fin.ofNat _ userUniqueId)
      if workerIndex = LockFreeRouteTable.kInvalidWorker then none else ws.getWorker workerIndex.val
    | .stateless => registered ws r messageType userUniqueId

theorem getExecutor_cases :
    (route ws r messageType userUniqueId = none ∧ getExecutor ws r messageType userUniqueId = {}) ∨
      ∃ id, route ws r messageType userUniqueId = some id ∧
        getExecutor ws r messageType userUniqueId = .ofWorker ws id := by
  unfold route getExecutor
  by_cases huid : userUniqueId = 0
  · rw [if_pos huid, if_pos huid]
    cases hmain : ws.mainWorker with
    | none    => exact .inl ⟨rfl, rfl⟩
    | some id => exact .inr ⟨id, rfl, rfl⟩
  · rw [if_neg huid, if_neg huid]
    cases r.policy with
    | stateful  =>
      dsimp only
      by_cases hbound : r.entityRouteTable.lookup (Fin.ofNat _ userUniqueId) = LockFreeRouteTable.kInvalidWorker
      · rw [if_pos hbound, if_neg (not_not.2 hbound)]
        exact .inl ⟨rfl, rfl⟩
      · rw [if_neg hbound, if_pos hbound]
        cases ws.getWorker (r.entityRouteTable.lookup (Fin.ofNat _ userUniqueId)).val with
        | none    => exact .inl ⟨rfl, rfl⟩
        | some id => exact .inr ⟨id, rfl, rfl⟩
    | stateless =>
      dsimp only
      unfold registered
      cases r.routeTable.getWorkerRef (r.routeTable.resolveServiceWorkerType messageType) with
      | none         => exact .inl ⟨rfl, rfl⟩
      | some workers =>
        rw [Option.bind_some]
        dsimp only
        by_cases hempty : workers = []
        · rw [if_pos hempty, pickWorker, if_pos hempty]
          exact .inl ⟨rfl, rfl⟩
        · rw [if_neg hempty]
          cases (r.pickWorker workers messageType userUniqueId).filter fun target => (ws.heap target).isSome with
          | none    => exact .inl ⟨rfl, rfl⟩
          | some id => exact .inr ⟨id, rfl, rfl⟩

end

end Router

end Gb
