import Mathlib.Data.List.Sort
import Mathlib.Logic.Function.Basic
import Mathlib.Tactic.Ring
import GbServer.Lib.Run
/-!
# FlowController — budget, debt and queue position in one counter

`flow_controller.cpp`, with `FlowControlItem` of `session.h`.  A counter above zero is a budget: an acquire gets through
and takes its whole amount, also where the counter falls below zero.  At zero or below, an acquire fails and takes one
off, and what it got is its place in the queue.  A recharge sets the budget anew or takes it off the debt.

The loops around `atomic_comp_swap` exchange the value they computed from, so an acquire and a recharge are one update
each.  The integers are unbounded here; the source's are `int`.
-/
namespace Gb

open Run (Along)

/-- One direction of a `FlowController`. -/
structure Quota where
  noLimit : Bool
  quota   : Int
  deriving DecidableEq

namespace Quota

def recharge (c : Quota) (quota : Int) : Quota :=
  if c.noLimit then c else { c with quota := if c.quota > 0 then quota else c.quota + quota }

def acquire (c : Quota) (quota : Int) : Int × Quota :=
  if c.noLimit then (1, c) else (c.quota, { c with quota := if c.quota > 0 then c.quota - quota else c.quota - 1 })

@[simp] theorem recharge_noLimit (c : Quota) (quota : Int) : (c.recharge quota).noLimit = c.noLimit := by
  unfold recharge
  split <;> rfl

@[simp] theorem acquire_noLimit (c : Quota) (quota : Int) : (c.acquire quota).2.noLimit = c.noLimit := by
  unfold acquire
  split <;> rfl

/-- What an acquire gets does not depend on how much it asks for. -/
theorem acquire_fst {c : Quota} (hlimited : c.noLimit = false) (quota : Int) : (c.acquire quota).1 = c.quota := by
  simp [acquire, hlimited]

end Quota

inductive Direction
  | read
  | write
  deriving DecidableEq

structure FlowController where
  read  : Quota
  write : Quota
  deriving DecidableEq

namespace FlowController

def resetReadQuota (f : FlowController) (readNoLimit : Bool) (quota : Int) : FlowController :=
  { f with read := ⟨readNoLimit, quota⟩ }

def resetWriteQuota (f : FlowController) (writeNoLimit : Bool) (quota : Int) : FlowController :=
  { f with write := ⟨writeNoLimit, quota⟩ }

def rechargeReadQuota (f : FlowController) (quota : Int) : FlowController := { f with read := f.read.recharge quota }

def rechargeWriteQuota (f : FlowController) (quota : Int) : FlowController := { f with write := f.write.recharge quota }

def acquireReadQuota (f : FlowController) (quota : Int) : Int × FlowController :=
  ((f.read.acquire quota).1, { f with read := (f.read.acquire quota).2 })

def acquireWriteQuota (f : FlowController) (quota : Int) : Int × FlowController :=
  ((f.write.acquire quota).1, { f with write := (f.write.acquire quota).2 })

def side (f : FlowController) : Direction → Quota
  | .read  => f.read
  | .write => f.write

def recharge (f : FlowController) : Direction → Int → FlowController
  | .read  => f.rechargeReadQuota
  | .write => f.rechargeWriteQuota

def acquire (f : FlowController) : Direction → Int → Int × FlowController
  | .read  => f.acquireReadQuota
  | .write => f.acquireWriteQuota

def reset (f : FlowController) : Direction → Bool → Int → FlowController
  | .read  => f.resetReadQuota
  | .write => f.resetWriteQuota

@[simp] theorem acquire_token (f : FlowController) (d : Direction) (quota : Int) :
    (f.acquire d quota).1 = ((f.side d).acquire quota).1 := by
  cases d
  · rfl
  · rfl

@[simp] theorem acquire_side (f : FlowController) (d d' : Direction) (quota : Int) :
    (f.acquire d quota).2.side d' = if d' = d then ((f.side d).acquire quota).2 else f.side d' := by
  cases d <;> cases d' <;> rfl

@[simp] theorem recharge_side (f : FlowController) (d d' : Direction) (quota : Int) :
    (f.recharge d quota).side d' = if d' = d then (f.side d).recharge quota else f.side d' := by
  cases d <;> cases d' <;> rfl

@[simp] theorem reset_side (f : FlowController) (d d' : Direction) (noLimit : Bool) (quota : Int) :
    (f.reset d noLimit quota).side d' = if d' = d then ⟨noLimit, quota⟩ else f.side d' := by
  cases d <;> cases d' <;> rfl

end FlowController

/-- A session that did not get its quota, with what the acquire returned. -/
structure FlowControlItem (σ : Type) where
  token   : Int
  session : σ

namespace FlowControlItem

variable {σ : Type}

/-- `operator<`. -/
def lt (a b : FlowControlItem σ) : Prop := a.token > b.token

instance (a b : FlowControlItem σ) : Decidable (a.lt b) := inferInstanceAs (Decidable (a.token > b.token))

/-- A sort puts items with different tokens in the order of their tokens. -/
theorem sort_unique {items sorted : List (FlowControlItem σ)} (hitems : items.Pairwise fun a b => b.token < a.token)
    (hperm : sorted.Perm items) (hsorted : sorted.Pairwise fun a b => ¬b.lt a) : sorted = items := by
  have hdistinct : (items.map token).Nodup := by
    rw [List.Nodup, List.pairwise_map]
    exact hitems.imp fun hlt heq => by omega
  apply hperm.eq_of_pairwise ?_ hsorted (hitems.imp fun hlt hba => by unfold lt at hba; omega)
  intro a b ha hb hab hba
  unfold lt at hab hba
  exact List.inj_on_of_nodup_map hdistinct (hperm.mem_iff.1 ha) hb (by omega)

end FlowControlItem

/-- What one direction of a controller has given: `granted` newest first, `waiting` since the last recharge. -/
structure QuotaHistory (σ : Type) where
  recharges : Nat := 0
  granted   : List Int := []
  waiting   : List (FlowControlItem σ) := []

inductive FlowEvent (σ : Type)
  | acquire (d : Direction) (session : σ) (amount : Int)
  | recharge (d : Direction)

/-- A controller and what it has given so far. -/
structure FlowRun (σ : Type) where
  controller : FlowController
  history    : Direction → QuotaHistory σ

variable {σ : Type}

def QuotaHistory.acquired (h : QuotaHistory σ) (session : σ) (amount token : Int) : QuotaHistory σ :=
  if 0 < token then { h with granted := amount :: h.granted }
  else { h with waiting := h.waiting ++ [⟨token, session⟩] }

def QuotaHistory.recharged (h : QuotaHistory σ) : QuotaHistory σ :=
  { h with recharges := h.recharges + 1, waiting := [] }

namespace FlowRun

def init (f : FlowController) : FlowRun σ := { controller := f, history := fun _ => {} }

/-- Every recharge of a direction is by its fixed quota. -/
def step (q : Direction → Int) (r : FlowRun σ) : FlowEvent σ → FlowRun σ
  | .acquire d session amount =>
    let (token, controller) := r.controller.acquire d amount
    { controller, history := Function.update r.history d ((r.history d).acquired session amount token) }
  | .recharge d               =>
    { controller := r.controller.recharge d (q d), history := Function.update r.history d (r.history d).recharged }

end FlowRun

/-! ## One direction -/

/-- A counter in limited mode with what it has given: the budget it started from and got since covers both, and the
counter is behind every place in the queue. -/
structure Metered (q₀ q : Int) (c : Quota) (h : QuotaHistory σ) : Prop where
  limited : c.noLimit = false
  budget  : c.quota + h.granted.sum ≤ q₀ + h.recharges * q
  latest  : ∀ amount before, h.granted = amount :: before → before.sum < q₀ + h.recharges * q
  behind  : ∀ item ∈ h.waiting, c.quota < item.token
  turned  : ∀ item ∈ h.waiting, item.token ≤ 0
  ordered : h.waiting.Pairwise fun a b => b.token < a.token

namespace Metered

variable {q₀ q : Int} {c : Quota} {h : QuotaHistory σ}

theorem acquire (hm : Metered q₀ q c h) (session : σ) {amount : Int} (hamount : 0 ≤ amount) :
    Metered q₀ q (c.acquire amount).2 (h.acquired session amount (c.acquire amount).1) := by
  obtain ⟨hlimited, hbudget, hlatest, hbehind, hturned, hordered⟩ := hm
  have hstep : c.acquire amount
      = (c.quota, { c with quota := if c.quota > 0 then c.quota - amount else c.quota - 1 }) := by
    simp [Quota.acquire, hlimited]
  rw [hstep]
  by_cases hpos : 0 < c.quota
  · -- a grant: nobody is in the queue, the counter being above zero
    simp only [QuotaHistory.acquired, if_pos hpos, gt_iff_lt]
    constructor
    case limited => exact hlimited
    case budget  =>
      simp
      omega
    case latest  =>
      intro amount' before heq
      obtain ⟨rfl, rfl⟩ := List.cons.inj heq
      show h.granted.sum < q₀ + h.recharges * q
      omega
    case behind  =>
      intro item hitem
      have := hbehind item hitem
      simp
      omega
    case turned  => exact hturned
    case ordered => exact hordered
  · simp only [QuotaHistory.acquired, if_neg hpos, gt_iff_lt]
    constructor
    case limited => exact hlimited
    case budget  =>
      simp
      omega
    case latest  => exact hlatest
    case behind  =>
      intro item hitem
      rcases List.mem_append.1 hitem with hitem | hitem
      · have := hbehind item hitem
        simp
        omega
      · simp at hitem
        simp [hitem]
    case turned  =>
      intro item hitem
      rcases List.mem_append.1 hitem with hitem | hitem
      · exact hturned item hitem
      · simp at hitem
        simp [hitem]
        omega
    case ordered =>
      apply List.pairwise_append.2
      constructor
      · exact hordered
      · simp
        exact hbehind

theorem recharge (hm : Metered q₀ q c h) (hq : 0 ≤ q) : Metered q₀ q (c.recharge q) h.recharged := by
  obtain ⟨hlimited, hbudget, hlatest, hbehind, hturned, hordered⟩ := hm
  have hstep : c.recharge q = { c with quota := if c.quota > 0 then q else c.quota + q } := by
    simp [Quota.recharge, hlimited]
  have hmul : ((h.recharges + 1 : Nat) : Int) * q = h.recharges * q + q := by
    push_cast
    ring
  rw [hstep]
  constructor
  case limited => exact hlimited
  case budget  =>
    simp only [QuotaHistory.recharged, hmul]
    split <;> omega
  case latest  =>
    intro amount before heq
    have hlt := hlatest amount before heq
    simp only [QuotaHistory.recharged, hmul]
    omega
  case behind  => simp [QuotaHistory.recharged]
  case turned  => simp [QuotaHistory.recharged]
  case ordered => simp [QuotaHistory.recharged]

end Metered

/-! ## Both directions -/

namespace FlowRun

/-- What the amounts of an event have to be. -/
def NonNegative (d : Direction) : FlowEvent σ → Prop
  | .acquire d' _ amount => d' = d → 0 ≤ amount
  | .recharge _          => True

theorem step_metered {q₀ : Int} {q : Direction → Int} {d : Direction} (hq : 0 ≤ q d) (r : FlowRun σ) (e : FlowEvent σ)
    (hm : Metered q₀ (q d) (r.controller.side d) (r.history d)) (he : NonNegative d e) :
    Metered q₀ (q d) ((r.step q e).controller.side d) ((r.step q e).history d) := by
  cases e with
  | acquire d' session amount =>
    unfold step
    by_cases hd : d = d'
    · subst hd
      simpa using hm.acquire session (he rfl)
    · simpa [hd] using hm
  | recharge d'               =>
    unfold step
    by_cases hd : d = d'
    · subst hd
      simpa using hm.recharge hq
    · simpa [hd] using hm

/-- **In limited mode, whatever the order of acquires and recharges: an acquire gets through exactly where the counter is
above zero; before the latest grant, less was granted than the initial quota and the recharges make up; and between two
recharges the tokens of those turned away fall, so that a sort of any of them is the order in which they came.** -/
theorem run_metered (f : FlowController) (q : Direction → Int) (d : Direction) (hq : 0 ≤ q d)
    (hlimited : (f.side d).noLimit = false) (es : List (FlowEvent σ)) (hes : ∀ e ∈ es, NonNegative d e) :
    let r := es.foldl (step q) (init f)
    (∀ amount, 0 < (r.controller.acquire d amount).1 ↔ 0 < (r.controller.side d).quota) ∧
    (∀ amount before, (r.history d).granted = amount :: before →
      before.sum < (f.side d).quota + (r.history d).recharges * q d) ∧
    ((r.history d).waiting.Pairwise fun a b => b.token < a.token) ∧
    (∀ item ∈ (r.history d).waiting, item.token ≤ 0) ∧
    ∀ arrived sorted : List (FlowControlItem σ), arrived.Sublist (r.history d).waiting → sorted.Perm arrived →
      (sorted.Pairwise fun a b => ¬b.lt a) → sorted = arrived := by
  intro r
  have hm : Metered (f.side d).quota (q d) (r.controller.side d) (r.history d) := by
    have hinit : Metered (f.side d).quota (q d) ((init f : FlowRun σ).controller.side d) ((init f : FlowRun σ).history d) := by
      constructor <;> simp [init, hlimited]
    exact List.foldlRecOn es (step q) hinit fun r hr e he => step_metered hq r e hr (hes e he)
  refine ⟨?_, hm.latest, hm.ordered, hm.turned, ?_⟩
  · intro amount
    rw [FlowController.acquire_token, Quota.acquire_fst hm.limited]
  · intro arrived sorted hsub hperm hsorted
    exact FlowControlItem.sort_unique (hm.ordered.sublist hsub) hperm hsorted

/-- A read goes into debt, two more are turned away after a recharge that is too small. -/
theorem run_metered_debt :
    let r := [.acquire .read 1 5, .acquire .read 2 9, .recharge .read, .acquire .read 3 4, .acquire .write 1 2,
      .acquire .read 2 9].foldl (step fun _ => 3) (init ⟨⟨false, 1⟩, ⟨true, 0⟩⟩)
    (r.history .read).waiting = [⟨-2, 3⟩, ⟨-3, 2⟩] ∧ ∀ sorted, sorted.Perm (r.history .read).waiting →
      (sorted.Pairwise fun a b => ¬b.lt a) → sorted = (r.history .read).waiting := by
  intro r
  have hmetered := run_metered (σ := Nat) ⟨⟨false, 1⟩, ⟨true, 0⟩⟩ (fun _ => 3) .read (by decide) rfl
    [.acquire .read 1 5, .acquire .read 2 9, .recharge .read, .acquire .read 3 4, .acquire .write 1 2, .acquire .read 2 9]
    (by simp [NonNegative])
  exact ⟨rfl, fun sorted hperm hsorted => hmetered.2.2.2.2 _ sorted (List.Sublist.refl _) hperm hsorted⟩

end FlowRun

end Gb
