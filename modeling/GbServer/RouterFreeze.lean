import GbServer.Router
/-!
# RouterFreeze — what a router selects before and after `Freeze`

Every read of a `RouteTable` and of the strategy of a `Router` has two paths, one for a snapshot and one for the data that
can change.  They agree for the resolver, for the selectors and for `GetWorker`; but a `Router` reads the workers through
`GetWorkerRef`, which has nothing before there is a snapshot.  So a stateless router selects no worker before `Freeze`, and
selects the same after it exactly where no live worker is registered for the message (`configured_agree_iff`).
-/
namespace Gb

namespace RouteTable

variable {t : RouteTable}

theorem getWorker_freeze (h : t.frozen = none) (serviceWorkerType : Nat) :
    t.freeze.getWorker serviceWorkerType = t.getWorker serviceWorkerType := by
  unfold getWorker freeze
  rw [h]
  by_cases hlt : serviceWorkerType < swtCount
  · have hle : ¬swtCount ≤ serviceWorkerType := by omega
    simp only [hlt, decide_true, true_and, if_neg hle]
    by_cases hempty : t.workers serviceWorkerType = [] <;> simp [hempty]
  · simp [hlt]

theorem resolveServiceWorkerType_freeze (h : t.frozen = none) (messageType : Nat) :
    t.freeze.resolveServiceWorkerType messageType = t.resolveServiceWorkerType messageType := by
  unfold resolveServiceWorkerType freeze
  rw [h]
  cases t.serviceTypeResolver <;> rfl

/-- `GetWorkerRef` has no path to the data that can change. -/
theorem getWorkerRef_of_not_frozen (h : t.frozen = none) (serviceWorkerType : Nat) :
    t.getWorkerRef serviceWorkerType = none := by
  rw [getWorkerRef, h, Option.bind_none]

/-- After `Freeze` it has what `GetWorker` had before, if that was not empty. -/
theorem getWorkerRef_freeze (h : t.frozen = none) (serviceWorkerType : Nat) :
    t.freeze.getWorkerRef serviceWorkerType =
      if t.getWorker serviceWorkerType = [] then none else some (t.getWorker serviceWorkerType) := by
  unfold getWorkerRef freeze getWorker
  rw [h, Option.bind_some]
  by_cases hlt : serviceWorkerType < swtCount
  · have hle : ¬swtCount ≤ serviceWorkerType := by omega
    simp only [hlt, if_true, true_and, if_neg hle]
    by_cases hempty : t.workers serviceWorkerType = [] <;> simp [hempty]
  · have hle : swtCount ≤ serviceWorkerType := by omega
    simp [hlt, hle]

end RouteTable

namespace Router

theorem pickWorker_freeze {r : Router} (h : r.frozenStrategy = none) (workers : List WorkerId) (messageType routeId : Nat) :
    r.freeze.pickWorker workers messageType routeId = r.pickWorker workers messageType routeId := by
  unfold pickWorker freeze
  rw [h]
  rfl

/-! ## The workers that are registered -/

/-- A call that sets what a router chooses from, or how. -/
inductive Configuration
  | registerWorker (serviceWorkerType : Nat) (worker : WorkerId)
  | setServiceTypeResolver (resolver : Option (Nat → Nat))
  | setRouteKeySelector (selector : Option (Nat → Nat → Nat))
  | setWorkerIndexSelector (selector : Option (List WorkerId → Nat → Nat → Nat))

def configure (r : Router) : Configuration → Router
  | .registerWorker serviceWorkerType worker => r.registerWorker serviceWorkerType worker
  | .setServiceTypeResolver resolver         => r.setServiceTypeResolver resolver
  | .setRouteKeySelector selector            => r.setRouteKeySelector selector
  | .setWorkerIndexSelector selector         => r.setWorkerIndexSelector selector

/-- A router that may be configured, and has not been frozen. -/
structure Configurable (r : Router) : Prop where
  stateless   : r.policy = .stateless
  tableOpen   : r.routeTable.frozen = none
  strategyOpen : r.frozenStrategy = none

theorem Configurable.configure {r : Router} (h : r.Configurable) (call : Configuration) : (r.configure call).Configurable := by
  cases call with
  | registerWorker serviceWorkerType worker =>
    refine ⟨h.stateless, ?_, h.strategyOpen⟩
    simp only [Router.configure, Router.registerWorker, RouteTable.registerWorker]
    split <;> exact h.tableOpen
  | setServiceTypeResolver resolver => exact ⟨h.stateless, h.tableOpen, h.strategyOpen⟩
  | setRouteKeySelector selector    => exact ⟨h.stateless, h.tableOpen, h.strategyOpen⟩
  | setWorkerIndexSelector selector => exact ⟨h.stateless, h.tableOpen, h.strategyOpen⟩

theorem configured (calls : List Configuration) : (calls.foldl Router.configure {}).Configurable := by
  have hinit : ({} : Router).Configurable := ⟨rfl, rfl, rfl⟩
  exact List.foldlRecOn calls Router.configure hinit fun r hr call _ => hr.configure call

section

variable {τ : Type} (ws : Workers τ) (r : Router) (messageType userUniqueId : Nat)

/-- The live worker that is registered for a message: of those that `GetWorker` has for its service type, the one that
`PickWorker` picks, unless that is gone. -/
def liveWorker : Option WorkerId :=
  (r.pickWorker (r.routeTable.getWorker (r.routeTable.resolveServiceWorkerType messageType)) messageType userUniqueId).filter
    fun target => (ws.heap target).isSome

variable {r messageType userUniqueId}

theorem getExecutor_configurable (h : r.Configurable) (huser : userUniqueId ≠ 0) :
    r.getExecutor ws messageType userUniqueId = {} := by
  unfold getExecutor
  rw [if_neg huser, h.stateless]
  dsimp only
  rw [RouteTable.getWorkerRef_of_not_frozen h.tableOpen]

theorem getExecutor_freeze (h : r.Configurable) (huser : userUniqueId ≠ 0) :
    r.freeze.getExecutor ws messageType userUniqueId =
      ((liveWorker ws r messageType userUniqueId).map (WorkerExecutor.ofWorker ws)).getD {} := by
  have htype := RouteTable.resolveServiceWorkerType_freeze h.tableOpen messageType
  have href := RouteTable.getWorkerRef_freeze h.tableOpen (r.routeTable.resolveServiceWorkerType messageType)
  have hpick := pickWorker_freeze h.strategyOpen
  have hpolicy : r.freeze.policy = .stateless := h.stateless
  have htable : r.freeze.routeTable = r.routeTable.freeze := rfl
  unfold getExecutor liveWorker
  rw [if_neg huser, hpolicy]
  dsimp only
  rw [htable, htype, href]
  by_cases hempty : r.routeTable.getWorker (r.routeTable.resolveServiceWorkerType messageType) = []
  · rw [if_pos hempty, hempty, pickWorker, if_pos rfl]
    rfl
  · rw [if_neg hempty]
    dsimp only
    rw [if_neg hempty, hpick]
    cases (r.pickWorker (r.routeTable.getWorker (r.routeTable.resolveServiceWorkerType messageType)) messageType
        userUniqueId).filter fun target => (ws.heap target).isSome with
    | none        => rfl
    | some target => rfl

end

theorem ofWorker_worker {τ : Type} (ws : Workers τ) (id : WorkerId) : (WorkerExecutor.ofWorker ws id).worker = some id := by
  unfold WorkerExecutor.ofWorker
  split <;> rfl

/-- A router selects the same worker, or none, before and after `Freeze`. -/
def FreezeAgrees {τ : Type} (ws : Workers τ) (r : Router) (messageType userUniqueId : Nat) : Prop :=
  (r.getExecutor ws messageType userUniqueId).worker = (r.freeze.getExecutor ws messageType userUniqueId).worker

/-- **However a stateless router is configured, it selects the same worker before and after `Freeze` if and only if no live
worker is registered for the message.** -/
theorem configured_agree_iff {τ : Type} (calls : List Configuration) (ws : Workers τ) (messageType userUniqueId : Nat)
    (huser : userUniqueId ≠ 0) :
    FreezeAgrees ws (calls.foldl configure {}) messageType userUniqueId ↔
      liveWorker ws (calls.foldl configure {}) messageType userUniqueId = none := by
  have h := configured calls
  unfold FreezeAgrees
  rw [getExecutor_configurable ws h huser, getExecutor_freeze ws h huser]
  cases liveWorker ws (calls.foldl configure {}) messageType userUniqueId with
  | none    => exact iff_of_true rfl rfl
  | some id =>
    refine iff_of_false (fun hsame => ?_) (Option.some_ne_none id)
    rw [Option.map_some, Option.getD_some, ofWorker_worker] at hsame
    cases hsame

/-- One worker, which is there. -/
def oneWorker : Workers Unit := { heap := fun id => if id = 1 then some {} else none }

/-- The worker has another service type than the message. -/
theorem configured_agree_navigation :
    FreezeAgrees oneWorker ([.setServiceTypeResolver (some fun _ => 2), .registerWorker 1 1].foldl configure {}) 20000 7 :=
  (configured_agree_iff [.setServiceTypeResolver (some fun _ => 2), .registerWorker 1 1] oneWorker 20000 7 (by decide)).2 rfl

/-- A worker for all messages, and a message. -/
theorem not_configured_agree : ¬∀ (calls : List Configuration) (ws : Workers Unit) (messageType userUniqueId : Nat),
    userUniqueId ≠ 0 → FreezeAgrees ws (calls.foldl configure {}) messageType userUniqueId := by
  intro h
  have hsame := h [.registerWorker swtNormal 1] oneWorker 0 1 (by decide)
  have hbefore : ((([.registerWorker swtNormal 1] : List Configuration).foldl configure {}).getExecutor oneWorker 0 1).worker =
      none := rfl
  have hafter : ((([.registerWorker swtNormal 1] : List Configuration).foldl configure {}).freeze.getExecutor oneWorker 0
      1).worker = some 1 := rfl
  rw [FreezeAgrees, hbefore, hafter] at hsame
  cases hsame

end Router

end Gb
