import GbServer.Lib.Run
import GbServer.Lib.Tally
/-!
# AwaitState — who continues a coroutine

`ThreadPoolAwaitState` (`thread_pool_scheduler.h`), `RpcAwaitState` (`rpc_coro.h`) and `HttpAwaitState` (`http_coro.h`)
with the `await_suspend` of their awaiters.  The suspending side stores `suspend_finished_` and then loads `completed_`;
a completing side exchanges `completed_` and then loads `suspend_finished_`.  A step of a side is one of these accesses;
the steps of the sides come in any order (`step`).  An operation may complete as often as it likes, from the moment it is
started, on the thread that starts it or on another.

The stores are releases and the loads acquires, so a load may still find unset what another thread has set: nothing orders
a side's own store before its load of the other flag.  The exchanges alone read the latest value.

Whoever loads first and finds the other flag not set leaves the coroutine to the other side.  Where both flags are set
before either side has loaded, both sides continue it; where a side loads behind the other and does not find its flag,
neither does (`run_continuesOnce_iff`).
-/
namespace Gb

open Run (Always total enters)
open Tally

inductive Awaiter
  | threadPool
  | rpc
  | http
  deriving DecidableEq

namespace Awaiter

/-- `FinishSuspend`, from what it loads of `completed_`. -/
def finishSuspend : Awaiter → Bool → Bool
  | threadPool, completed => !completed
  | rpc,        completed => completed
  | http,       completed => completed

/-- `await_suspend`, from what `FinishSuspend` returns. -/
def awaitSuspend : Awaiter → Bool → Bool
  | threadPool, finished => finished
  | rpc,        finished => !finished
  | http,       finished => !finished

theorem awaitSuspend_finishSuspend (a : Awaiter) (completed : Bool) :
    a.awaitSuspend (a.finishSuspend completed) = !completed := by
  cases a
  · rfl
  · rfl
  · rfl

end Awaiter

/-- Where `await_suspend` is, and what it has returned.  A `ThreadPoolAwaiter` outside of a worker runs its task inline
and never comes to `FinishSuspend`. -/
inductive SuspendPc
  | bind
  | start
  | runInline
  | storeSuspendFinished
  | loadCompleted
  | returned (suspends : Bool)
  deriving DecidableEq

/-- Where a call of `Complete`, or of `ExecuteOnPool` behind its task, is. -/
inductive CompletePc (α : Type)
  | writeResult (value : α)
  | exchangeCompleted
  | loadSuspendFinished
  | schedule
  | returned

namespace CompletePc

variable {α : Type}

def ended : CompletePc α → Bool
  | returned => true
  | _        => false

/-- The call is behind its exchange. -/
def exchanged : CompletePc α → Bool
  | writeResult _     => false
  | exchangeCompleted => false
  | _                 => true

/-- One for a call that has won the exchange and has yet to load. -/
@[simp] def loading : CompletePc α → Nat
  | loadSuspendFinished => 1
  | _                   => 0

/-- One for a call that is to resume the coroutine. -/
@[simp] def resuming : CompletePc α → Nat
  | schedule => 1
  | _        => 0

end CompletePc

/-- A completing call, and whether it runs on the thread that suspends. -/
structure CompleteCall (α : Type) where
  own : Bool
  pc  : CompletePc α

/-- The calls that have won the exchange and have yet to load. -/
def loading {α : Type} (calls : List (CompleteCall α)) : Nat := tally (fun c => c.pc.loading) calls

/-- The calls that are to resume the coroutine. -/
def resuming {α : Type} (calls : List (CompleteCall α)) : Nat := tally (fun c => c.pc.resuming) calls

/-- What the suspending side has to know of `completed_` is `completedSeen`: a call of its own thread has exchanged it. -/
structure AwaitState (α : Type) where
  result          : Option α := none
  bound           : Bool := false
  suspendFinished : Bool := false
  completed       : Bool := false
  completedSeen   : Bool := false
  suspending      : SuspendPc := .bind
  completing      : List (CompleteCall α) := []
  scheduled       : Nat := 0

/-- A step of one side.  `complete` is that the operation comes to a result, on the suspending thread (`own`) or on another.
A load that is `stale` is given the earlier value, where it may be. -/
inductive AwaitEvent (α : Type)
  | suspend (stale : Bool)
  | complete (value : α) (own : Bool)
  | completing (k : Nat) (stale : Bool)

/-- An acquire load of a flag that is set once: a thread that knows it to be set finds it set, another may still find the
earlier value. -/
def loads (flag known stale : Bool) : Bool := flag && (known || !stale)

namespace AwaitState

variable {α : Type}

/-- The operation may come to a result: it was started, and the suspending thread is not inside of `FinishSuspend`.  A task
that runs inline is nobody else's. -/
def mayComplete (s : AwaitState α) (own : Bool) : Bool :=
  match s.suspending with
  | .bind          => false
  | .start         => false
  | .runInline     => own
  | .loadCompleted => !own
  | _              => true

/-- The starting of the operation has not come back yet. -/
def starting (s : AwaitState α) : Bool := s.completing.any fun c => c.own && !c.pc.ended

def suspend (a : Awaiter) (hasWorker : Bool) (stale : Bool) (s : AwaitState α) : AwaitState α :=
  match s.suspending with
  | .bind                 => { s with bound := true, suspending := .start }
  | .start                =>
    if a = .threadPool ∧ hasWorker = false then { s with suspending := .runInline }
    else { s with suspending := .storeSuspendFinished }
  | .runInline            =>
    if s.completing ≠ [] ∧ s.completing.all (fun c => c.pc.ended) then { s with suspending := .returned false } else s
  | .storeSuspendFinished =>
    if s.starting then s else { s with suspendFinished := true, suspending := .loadCompleted }
  | .loadCompleted        =>
    let completed := loads s.completed s.completedSeen stale
    { s with suspending := .returned (a.awaitSuspend (a.finishSuspend completed)) }
  | .returned _           => s

/-- What a completing call does, and where it is then. -/
def completeStep (s : AwaitState α) (own stale : Bool) : CompletePc α → AwaitState α × CompletePc α
  | .writeResult value   => ({ s with result := some value }, .exchangeCompleted)
  | .exchangeCompleted   =>
    let s := { s with completedSeen := s.completedSeen || own }
    if s.completed then (s, .returned) else ({ s with completed := true }, .loadSuspendFinished)
  -- the thread that stored the flag knows it
  | .loadSuspendFinished => (s, if loads s.suspendFinished own stale then .schedule else .returned)
  | .schedule            => ({ s with scheduled := s.scheduled + 1 }, .returned)
  | .returned            => (s, .returned)

def step (a : Awaiter) (hasWorker : Bool) (s : AwaitState α) : AwaitEvent α → AwaitState α
  | .suspend stale      => s.suspend a hasWorker stale
  | .complete value own =>
    if s.mayComplete own then { s with completing := ⟨own, .writeResult value⟩ :: s.completing } else s
  | .completing k stale =>
    match s.completing[k]? with
    | some c =>
      let (s', pc) := s.completeStep c.own stale c.pc
      { s' with completing := s.completing.set k ⟨c.own, pc⟩ }
    | none   => s

/-- How often the coroutine goes on: at once where `await_suspend` returns `false`, and with every resume. -/
def continues (s : AwaitState α) : Nat := (if s.suspending = .returned false then 1 else 0) + s.scheduled

/-- The suspending side and the completing calls, of which there is one, are through. -/
def Ended (s : AwaitState α) : Prop :=
  (∃ suspends, s.suspending = .returned suspends) ∧ s.completing ≠ [] ∧ ∀ c ∈ s.completing, c.pc.ended = true

/-- Both flags are set, and neither side has loaded the other's. -/
def Crossed (s : AwaitState α) : Prop :=
  s.suspending = .loadCompleted ∧ 0 < loading s.completing

instance : DecidablePred (Crossed (α := α)) := fun _ => inferInstanceAs (Decidable (_ ∧ _))

/-- One for a load that is given the earlier value of a flag that is set. -/
def misses (s : AwaitState α) : AwaitEvent α → Nat
  | .suspend stale      =>
    if s.suspending = .loadCompleted ∧ s.completed = true ∧ s.completedSeen = false ∧ stale = true then 1 else 0
  | .complete _ _       => 0
  | .completing k stale =>
    match s.completing[k]? with
    | some ⟨own, .loadSuspendFinished⟩ => if s.suspendFinished = true ∧ own = false ∧ stale = true then 1 else 0
    | _                                => 0

/-! ## What is owed to the coroutine -/

/-- A side is through with its flag only if it has set it, and one call wins the exchange. -/
structure Sound (s : AwaitState α) : Prop where
  stored   : s.suspendFinished = true → s.suspending = .loadCompleted ∨ ∃ suspends, s.suspending = .returned suspends
  finished : s.suspending = .loadCompleted ∨ s.suspending = .returned true → s.suspendFinished = true
  inlined  : s.suspending = .returned false → s.completed = true
  past     : ∀ c ∈ s.completing, c.pc.exchanged = true → s.completed = true
  won      : loading s.completing ≤ 1

/-- How often the coroutine goes on already, or is about to be resumed. -/
def given (s : AwaitState α) : Nat := s.continues + resuming s.completing

/-- How often it is still to be continued, by loads that miss nothing: by whoever comes second, as long as the operation is
not completed, and then by each side that has not loaded and will find the other's flag. -/
def owed (s : AwaitState α) : Nat :=
  if s.completed then
    (match s.suspending with
     | .returned _ => 0
     | _           => 1) +
    (if s.suspendFinished then loading s.completing else 0)
  else 1

/-- The coroutine's accounts. -/
def account (s : AwaitState α) : Nat := s.given + s.owed

variable {s : AwaitState α} {a : Awaiter} {hasWorker : Bool}

theorem step_completing {k : Nat} {stale : Bool} {c : CompleteCall α} (hk : s.completing[k]? = some c) :
    s.step a hasWorker (.completing k stale)
      = { (s.completeStep c.own stale c.pc).1 with
          completing := s.completing.set k ⟨c.own, (s.completeStep c.own stale c.pc).2⟩ } := by
  simp [step, hk]

theorem step_completing_none {k : Nat} {stale : Bool} (hk : s.completing[k]? = none) :
    s.step a hasWorker (.completing k stale) = s := by
  simp [step, hk]

theorem step_complete (s : AwaitState α) (a : Awaiter) (hasWorker : Bool) (value : α) (own : Bool) : s.step a hasWorker (.complete value own) = s ∨
    s.step a hasWorker (.complete value own) = { s with completing := ⟨own, .writeResult value⟩ :: s.completing } := by
  by_cases hmay : s.mayComplete own
  · exact .inr (by simp [step, hmay])
  · exact .inl (by simp [step, hmay])

@[simp] theorem loading_cons (c : CompleteCall α) (calls : List (CompleteCall α)) :
    loading (c :: calls) = c.pc.loading + loading calls := tally_cons _ _ _

@[simp] theorem resuming_cons (c : CompleteCall α) (calls : List (CompleteCall α)) :
    resuming (c :: calls) = c.pc.resuming + resuming calls := tally_cons _ _ _

theorem loading_set {calls : List (CompleteCall α)} {k : Nat} {c : CompleteCall α} (hk : calls[k]? = some c) (own : Bool)
    (pc : CompletePc α) : loading (calls.set k ⟨own, pc⟩) + c.pc.loading = loading calls + pc.loading :=
  tally_set (fun c => c.pc.loading) ⟨own, pc⟩ hk

theorem resuming_set {calls : List (CompleteCall α)} {k : Nat} {c : CompleteCall α} (hk : calls[k]? = some c) (own : Bool)
    (pc : CompletePc α) : resuming (calls.set k ⟨own, pc⟩) + c.pc.resuming = resuming calls + pc.resuming :=
  tally_set (fun c => c.pc.resuming) ⟨own, pc⟩ hk

/-- One if both flags are set. -/
def bothSet (s : AwaitState α) : Nat := if s.suspendFinished = true ∧ s.completed = true then 1 else 0

theorem exchanged_of_ended {pc : CompletePc α} (h : pc.ended = true) : pc.exchanged = true := by
  cases pc with
  | returned => rfl
  | _        => cases h

theorem exchanged_of_loading {pc : CompletePc α} (h : 0 < pc.loading) : pc.exchanged = true := by
  cases pc with
  | loadSuspendFinished => rfl
  | _                   => cases h

theorem Ended.owes_nothing (h : s.Ended) :
    loading s.completing = 0 ∧ resuming s.completing = 0 := by
  constructor
  all_goals
    apply tally_eq_zero
    intro c hc
    have hended := h.2.2 c hc
    cases hpc : c.pc with
    | returned => rfl
    | _        => simp [hpc, CompletePc.ended] at hended

theorem bothSet_le_one : s.bothSet ≤ 1 := by
  unfold bothSet
  split
  · exact Nat.le_refl 1
  · exact Nat.zero_le 1

theorem bothSet_eq_one_iff : s.bothSet = 1 ↔ s.suspendFinished = true ∧ s.completed = true := by
  unfold bothSet
  split
  · exact iff_of_true rfl ‹_›
  · exact iff_of_false (by decide) ‹_›

/-- The flags stay set. -/
theorem bothSet_step (h : s.bothSet = 1) (e : AwaitEvent α) : (s.step a hasWorker e).bothSet = 1 := by
  have hset := bothSet_eq_one_iff.1 h
  refine if_pos ?_
  cases e with
  | suspend stale      =>
    simp only [AwaitState.step, AwaitState.suspend]
    split <;> (try split) <;> simp [hset]
  | complete value own =>
    rcases step_complete s a hasWorker value own with heq | heq
    · simpa [heq] using hset
    · simpa [heq] using hset
  | completing k stale =>
    cases hk : s.completing[k]? with
    | none   => simpa [step_completing_none hk] using hset
    | some c =>
      rw [step_completing hk]
      cases hpc : c.pc with
      | exchangeCompleted => simp [completeStep, hset]
      | _                 => simpa [completeStep] using hset

namespace Sound

theorem init : Sound ({} : AwaitState α) where
  stored   := by simp
  finished := by simp
  inlined  := by simp
  past     := by simp
  won      := by simp [loading]

/-- A call that has won the exchange and has yet to load has set the flag. -/
theorem completed_of_loading (h : s.Sound) (hpos : 0 < loading s.completing) : s.completed = true := by
  by_contra hfresh
  have hzero : loading s.completing = 0 := by
    apply tally_eq_zero
    intro c hc
    by_contra hne
    exact hfresh (h.past c hc (exchanged_of_loading (Nat.pos_of_ne_zero hne)))
  omega

/-- The suspending side goes on before its flag is stored. -/
theorem ahead (h : s.Sound) {pc : SuspendPc} (bound : Bool) (hload : s.suspending ≠ .loadCompleted)
    (hret : ∀ suspends, s.suspending ≠ .returned suspends) (hload' : pc ≠ .loadCompleted)
    (hret' : ∀ suspends, pc ≠ .returned suspends) : Sound { s with bound := bound, suspending := pc } where
  stored hstored := by
    rcases h.stored hstored with hpc | ⟨suspends, hpc⟩
    · exact absurd hpc hload
    · exact absurd hpc (hret suspends)
  finished hor := by
    rcases hor with hpc | hpc
    · exact absurd hpc hload'
    · exact absurd hpc (hret' true)
  inlined hpc := absurd hpc (hret' false)
  past := h.past
  won := h.won

theorem suspend (h : s.Sound) (stale : Bool) : (s.suspend a hasWorker stale).Sound := by
  unfold AwaitState.suspend
  cases hpc : s.suspending with
  | bind                 => exact h.ahead true (by simp [hpc]) (by simp [hpc]) (by simp) (by simp)
  | start                =>
    by_cases hinline : a = .threadPool ∧ hasWorker = false
    · simpa only [if_pos hinline] using h.ahead s.bound (by simp [hpc]) (by simp [hpc]) (by simp) (by simp)
    · simpa only [if_neg hinline] using h.ahead s.bound (by simp [hpc]) (by simp [hpc]) (by simp) (by simp)
  | runInline            =>
    by_cases hended : s.completing ≠ [] ∧ s.completing.all fun c => c.pc.ended
    · rw [if_pos hended]
      obtain ⟨c, hc⟩ := List.exists_mem_of_ne_nil _ hended.1
      have hcompleted := h.past c hc (exchanged_of_ended (List.all_eq_true.1 hended.2 c hc))
      exact ⟨fun _ => .inr ⟨false, rfl⟩, by simp, fun _ => hcompleted, h.past, h.won⟩
    · rw [if_neg hended]
      exact h
  | storeSuspendFinished =>
    by_cases hstarting : s.starting
    · rw [if_pos hstarting]
      exact h
    · rw [if_neg hstarting]
      exact ⟨fun _ => .inl rfl, fun _ => rfl, by simp, h.past, h.won⟩
  | loadCompleted        =>
    simp only [Awaiter.awaitSuspend_finishSuspend]
    refine ⟨fun _ => .inr ⟨_, rfl⟩, fun _ => h.finished (.inl hpc), fun hfound => ?_, h.past, h.won⟩
    simp only [SuspendPc.returned.injEq, Bool.not_eq_false', loads, Bool.and_eq_true] at hfound
    exact hfound.1
  | returned suspends    => exact h

theorem complete (h : s.Sound) (value : α) (own : Bool) :
    Sound { s with completing := ⟨own, .writeResult value⟩ :: s.completing } where
  stored := h.stored
  finished := h.finished
  inlined := h.inlined
  past := by
    intro c hc hexchanged
    rcases List.mem_cons.1 hc with rfl | hc
    · simp [CompletePc.exchanged] at hexchanged
    · exact h.past c hc hexchanged
  won := by simpa using h.won

/-- A call that moves on, where the flag is set as soon as it is behind its exchange. -/
theorem moved (h : s.Sound) {k : Nat} {c : CompleteCall α} (hk : s.completing[k]? = some c) (pc : CompletePc α)
    (hpast : pc.exchanged = true → s.completed = true) (hloading : pc.loading = 0) :
    Sound { s with completing := s.completing.set k ⟨c.own, pc⟩ } where
  stored := h.stored
  finished := h.finished
  inlined := h.inlined
  past := by
    intro x hx hexchanged
    rcases List.mem_or_eq_of_mem_set hx with hx | rfl
    · exact h.past x hx hexchanged
    · exact hpast hexchanged
  won := by
    have hset := loading_set hk c.own pc
    have hwon := h.won
    show loading (s.completing.set k ⟨c.own, pc⟩) ≤ 1
    omega

/-- The call that wins the exchange: none before it is to load. -/
theorem wins (h : s.Sound) (hfresh : s.completed = false) (seen : Bool) {k : Nat} {c : CompleteCall α}
    (hk : s.completing[k]? = some c) :
    Sound { s with completed := true, completedSeen := seen,
                   completing := s.completing.set k ⟨c.own, .loadSuspendFinished⟩ } where
  stored := h.stored
  finished := h.finished
  inlined _ := rfl
  past _ _ _ := rfl
  won := by
    have hzero : loading s.completing = 0 := by
      by_contra hne
      simp [h.completed_of_loading (Nat.pos_of_ne_zero hne)] at hfresh
    have hset := loading_set hk c.own .loadSuspendFinished
    simp only [CompletePc.loading, hzero] at hset
    show loading (s.completing.set k ⟨c.own, .loadSuspendFinished⟩) ≤ 1
    omega

theorem completing (h : s.Sound) {k : Nat} {c : CompleteCall α} (hk : s.completing[k]? = some c) (stale : Bool) :
    Sound { (s.completeStep c.own stale c.pc).1 with
              completing := s.completing.set k ⟨c.own, (s.completeStep c.own stale c.pc).2⟩ } := by
  have hpast := h.past c (List.mem_of_getElem? hk)
  cases hpc : c.pc with
  | writeResult value   =>
    have hmoved := h.moved hk .exchangeCompleted (by simp [CompletePc.exchanged]) rfl
    exact ⟨hmoved.stored, hmoved.finished, hmoved.inlined, hmoved.past, hmoved.won⟩
  | exchangeCompleted   =>
    unfold completeStep
    by_cases hcompleted : s.completed
    · have hmoved := h.moved hk .returned (fun _ => hcompleted) rfl
      simp only [if_pos hcompleted]
      exact ⟨hmoved.stored, hmoved.finished, hmoved.inlined, hmoved.past, hmoved.won⟩
    · simp only [if_neg hcompleted]
      exact h.wins (by simpa using hcompleted) _ hk
  | loadSuspendFinished =>
    have hcompleted := hpast (by simp [hpc, CompletePc.exchanged])
    unfold completeStep
    refine h.moved hk _ (fun _ => hcompleted) ?_
    cases loads s.suspendFinished c.own stale
    · rfl
    · rfl
  | schedule            =>
    have hmoved := h.moved hk .returned (fun _ => hpast (by simp [hpc, CompletePc.exchanged])) rfl
    exact ⟨hmoved.stored, hmoved.finished, hmoved.inlined, hmoved.past, hmoved.won⟩
  | returned            => exact h.moved hk _ (fun _ => hpast (by simp [hpc, CompletePc.exchanged])) rfl

theorem step (h : s.Sound) (e : AwaitEvent α) : (s.step a hasWorker e).Sound := by
  cases e with
  | suspend stale      => exact h.suspend stale
  | complete value own =>
    rcases step_complete s a hasWorker value own with heq | heq
    · rwa [heq]
    · rw [heq]
      exact h.complete value own
  | completing k stale =>
    cases hk : s.completing[k]? with
    | none   => rwa [step_completing_none hk]
    | some c =>
      rw [step_completing hk]
      exact h.completing hk stale

/-! ## The accounts -/

theorem account_suspend (h : s.Sound) (stale : Bool) :
    (s.suspend a hasWorker stale).account + s.misses (.suspend stale)
      = s.account + if ¬s.Crossed ∧ (s.suspend a hasWorker stale).Crossed then 1 else 0 := by
  have hwon := h.won
  unfold AwaitState.suspend
  cases hpc : s.suspending with
  | bind                 => simp [account, given, continues, owed, misses, Crossed, hpc]
  | start                =>
    by_cases hinline : a = .threadPool ∧ hasWorker = false
    · simp [account, given, continues, owed, misses, Crossed, hpc, hinline]
    · simp [account, given, continues, owed, misses, Crossed, hpc, hinline]
  | runInline            =>
    by_cases hended : s.completing ≠ [] ∧ s.completing.all fun c => c.pc.ended
    · obtain ⟨c, hc⟩ := List.exists_mem_of_ne_nil _ hended.1
      have hcompleted := h.past c hc (exchanged_of_ended (List.all_eq_true.1 hended.2 c hc))
      rw [if_pos hended]
      simp [account, given, continues, owed, misses, Crossed, hpc, hcompleted]
      omega
    · rw [if_neg hended]
      simp [misses, Crossed, hpc]
  | storeSuspendFinished =>
    have hunset : s.suspendFinished = false := by
      by_contra hset
      have hstored := h.stored (by simpa using hset)
      simp [hpc] at hstored
    by_cases hstarting : s.starting
    · rw [if_pos hstarting]
      simp [misses, Crossed, hpc]
    · rw [if_neg hstarting]
      by_cases hpos : 0 < loading s.completing
      · have hcompleted := h.completed_of_loading hpos
        simp [account, given, continues, owed, misses, Crossed, hpc, hcompleted, hunset, hpos]
        omega
      · have hzero : loading s.completing = 0 := by omega
        simp [account, given, continues, owed, misses, Crossed, hpc, hzero]
  | loadCompleted        =>
    have hfinished := h.finished (.inl hpc)
    cases hcompleted : s.completed
    · simp [account, given, continues, owed, misses, Crossed, hpc, hcompleted, loads, Awaiter.awaitSuspend_finishSuspend]
    · cases hseen : s.completedSeen <;> cases stale <;>
        simp [account, given, continues, owed, misses, Crossed, hpc, hcompleted, hseen, loads,
          Awaiter.awaitSuspend_finishSuspend]
      all_goals omega
  | returned suspends    => simp [misses, Crossed, hpc]

/-- A step that changes nothing that counts. -/
theorem account_kept {t : AwaitState α} (hsuspending : t.suspending = s.suspending)
    (hfinished : t.suspendFinished = s.suspendFinished) (hcompleted : t.completed = s.completed)
    (hloading : loading t.completing = loading s.completing)
    (hresumes : t.scheduled + resuming t.completing = s.scheduled + resuming s.completing) :
    t.account = s.account + if ¬s.Crossed ∧ t.Crossed then 1 else 0 := by
  have hcrossed : ¬(¬s.Crossed ∧ t.Crossed) := by
    unfold Crossed
    rw [hsuspending, hloading]
    exact fun hboth => hboth.1 hboth.2
  rw [if_neg hcrossed]
  simp only [account, given, continues, owed, hsuspending, hfinished, hcompleted, hloading]
  omega

/-- The call that wins the exchange owes what nobody did, and the suspending side as well where that is between its store
and its load. -/
theorem account_wins (h : s.Sound) (hfresh : s.completed = false) (seen : Bool) {k : Nat} {c : CompleteCall α}
    (hk : s.completing[k]? = some c) (hc : c.pc = .exchangeCompleted) {t : AwaitState α}
    (ht : t = { s with completed := true, completedSeen := seen,
                       completing := s.completing.set k ⟨c.own, .loadSuspendFinished⟩ }) :
    t.account = s.account + if ¬s.Crossed ∧ t.Crossed then 1 else 0 := by
  have hzero : loading s.completing = 0 := by
    by_contra hne
    simp [h.completed_of_loading (Nat.pos_of_ne_zero hne)] at hfresh
  have hone := loading_set hk c.own .loadSuspendFinished
  have hsame := resuming_set hk c.own .loadSuspendFinished
  simp only [hc, hzero, CompletePc.loading, CompletePc.resuming, Nat.add_zero, Nat.zero_add] at hone hsame
  subst ht
  cases hpc : s.suspending with
  | returned suspends =>
    cases suspends
    · simp [h.inlined hpc] at hfresh
    · have hfinished := h.finished (.inr hpc)
      simp [account, given, continues, owed, Crossed, hpc, hfresh, hfinished, hone, hsame]
  | loadCompleted     =>
    have hfinished := h.finished (.inl hpc)
    simp [account, given, continues, owed, Crossed, hpc, hfresh, hfinished, hone, hsame, hzero]
  | _                 =>
    have hunset : s.suspendFinished = false := by
      by_contra hset
      have hstored := h.stored (by simpa using hset)
      simp [hpc] at hstored
    simp [account, given, continues, owed, Crossed, hpc, hfresh, hunset, hsame]

/-- The call that won the exchange loads: the resume that it owes it gives, unless it misses the flag. -/
theorem account_loads (h : s.Sound) {k : Nat} {own : Bool} (hk : s.completing[k]? = some ⟨own, .loadSuspendFinished⟩)
    (stale : Bool) {pc : CompletePc α} (hpc : pc = if loads s.suspendFinished own stale then .schedule else .returned) :
    account { s with completing := s.completing.set k ⟨own, pc⟩ } + s.misses (.completing k stale) = s.account := by
  have hcompleted := h.past _ (List.mem_of_getElem? hk) rfl
  have hloading := loading_set hk own pc
  have hresuming := resuming_set hk own pc
  cases hfinished : s.suspendFinished
  · simp [hpc, hfinished, loads] at hloading hresuming
    simp [account, given, continues, owed, misses, hk, hpc, hcompleted, hfinished, loads, hresuming]
  · cases own <;> cases stale
    all_goals
      simp [hpc, hfinished, loads] at hloading hresuming
      simp [account, given, continues, owed, misses, hk, hpc, hcompleted, hfinished, loads, hresuming]
      omega

theorem account_completing (h : s.Sound) {k : Nat} {c : CompleteCall α} (hk : s.completing[k]? = some c) (stale : Bool) :
    (s.step a hasWorker (.completing k stale)).account + s.misses (.completing k stale)
      = s.account + if ¬s.Crossed ∧ (s.step a hasWorker (.completing k stale)).Crossed then 1 else 0 := by
  have hloading := loading_set hk c.own (s.completeStep c.own stale c.pc).2
  have hresuming := resuming_set hk c.own (s.completeStep c.own stale c.pc).2
  rw [step_completing hk]
  obtain ⟨own, pc⟩ := c
  cases pc with
  | writeResult value   =>
    simp only [misses, hk]
    exact account_kept rfl rfl rfl hloading (congrArg (s.scheduled + ·) hresuming)
  | exchangeCompleted   =>
    by_cases hcompleted : s.completed
    · have hlost : s.completeStep own stale .exchangeCompleted = ({ s with completedSeen := s.completedSeen || own }, .returned) := by
        simp [completeStep, hcompleted]
      rw [hlost] at hloading hresuming ⊢
      simp only [misses, hk]
      exact account_kept rfl rfl rfl hloading (congrArg (s.scheduled + ·) hresuming)
    · have hwins : s.completeStep own stale .exchangeCompleted
          = ({ s with completed := true, completedSeen := s.completedSeen || own }, .loadSuspendFinished) := by
        simp [completeStep, hcompleted]
      rw [hwins]
      simp only [misses, hk]
      exact h.account_wins (by simpa using hcompleted) _ hk rfl rfl
  | loadSuspendFinished =>
    have hloads := h.account_loads hk stale rfl
    have hpos : 0 < loading s.completing := by
      have hle := le_tally (fun c : CompleteCall α => c.pc.loading) (List.mem_of_getElem? hk)
      exact hle
    rw [if_neg]
    · exact hloads
    · exact fun hboth => hboth.1 ⟨hboth.2.1, hpos⟩
  | schedule            =>
    simp only [misses, hk]
    refine account_kept rfl rfl rfl hloading ?_
    simp only [completeStep, CompletePc.resuming] at hresuming ⊢
    omega
  | returned            =>
    simp only [misses, hk]
    exact account_kept rfl rfl rfl hloading (congrArg (s.scheduled + ·) hresuming)

/-- **Every step moves what is owed to the coroutine to what it has been given; only a crossing adds to both, and only a
missed flag is lost.** -/
theorem account_step (h : s.Sound) (e : AwaitEvent α) :
    (s.step a hasWorker e).account + s.misses e = s.account + enters (AwaitState.step a hasWorker) Crossed s e := by
  cases e with
  | suspend stale      => exact h.account_suspend stale
  | complete value own =>
    rcases step_complete s a hasWorker value own with heq | heq
    · simp [enters, misses, heq]
    · simp [enters, misses, heq, account, given, continues, owed, Crossed]
  | completing k stale =>
    cases hk : s.completing[k]? with
    | none   => simp [enters, misses, step_completing_none hk, hk]
    | some c => exact h.account_completing hk stale

theorem bothSet_of_crossed (h : s.Sound) (hcrossed : s.Crossed) : s.bothSet = 1 :=
  if_pos ⟨h.finished (.inl hcrossed.1), h.completed_of_loading hcrossed.2⟩

/-- Where both flags are set, the sides have crossed already or will not. -/
theorem crossed_of_step (h : s.Sound) (hboth : s.bothSet = 1) (e : AwaitEvent α)
    (hcrossed : (s.step a hasWorker e).Crossed) : s.Crossed := by
  obtain ⟨hfinished, hcompleted⟩ := bothSet_eq_one_iff.1 hboth
  obtain ⟨hsuspending, hpos⟩ := hcrossed
  cases e with
  | suspend stale      =>
    simp only [AwaitState.step, AwaitState.suspend] at hsuspending hpos
    rcases h.stored hfinished with hpc | ⟨suspends, hpc⟩
    · simp [hpc] at hsuspending
    · simp [hpc] at hsuspending
  | complete value own =>
    rcases step_complete s a hasWorker value own with heq | heq
    · rw [heq] at hsuspending hpos
      exact ⟨hsuspending, hpos⟩
    · rw [heq] at hsuspending hpos
      exact ⟨hsuspending, by simpa using hpos⟩
  | completing k stale =>
    cases hk : s.completing[k]? with
    | none   =>
      rw [step_completing_none hk] at hsuspending hpos
      exact ⟨hsuspending, hpos⟩
    | some c =>
      have hset := loading_set hk c.own (s.completeStep c.own stale c.pc).2
      have hmoved : (s.completeStep c.own stale c.pc).1.suspending = s.suspending ∧
          (s.completeStep c.own stale c.pc).2.loading = 0 := by
        cases c.pc with
        | exchangeCompleted   => simp [completeStep, hcompleted]
        | loadSuspendFinished => cases hl : loads s.suspendFinished c.own stale <;> simp [completeStep, hl]
        | _                   => simp [completeStep]
      rw [step_completing hk] at hsuspending hpos
      simp only [hmoved.1, hmoved.2] at hsuspending hset hpos
      exact ⟨hsuspending, by omega⟩

/-- A crossing sets the second of the flags. -/
theorem bothSet_add_enters_le (h : s.Sound) (e : AwaitEvent α) :
    s.bothSet + enters (AwaitState.step a hasWorker) Crossed s e ≤ (s.step a hasWorker e).bothSet := by
  by_cases hboth : s.bothSet = 1
  · have hnone : enters (AwaitState.step a hasWorker) Crossed s e = 0 :=
      if_neg fun hnew => hnew.1 (h.crossed_of_step hboth e hnew.2)
    rw [hnone, bothSet_step hboth, hboth]
  · have hzero : s.bothSet = 0 := by
      have hle := bothSet_le_one (s := s)
      omega
    by_cases hnext : (s.step a hasWorker e).Crossed
    · have hone := (h.step e).bothSet_of_crossed hnext
      have hle : enters (AwaitState.step a hasWorker) Crossed s e ≤ 1 := by
        unfold enters
        split
        · exact Nat.le_refl 1
        · exact Nat.zero_le 1
      omega
    · have hnone : enters (AwaitState.step a hasWorker) Crossed s e = 0 := if_neg fun hnew => hnext hnew.2
      omega

end Sound

/-! ## Runs -/

section

variable (a : Awaiter) (hasWorker : Bool) (es : List (AwaitEvent α))

/-- What the run comes to. -/
abbrev ran : AwaitState α := es.foldl (AwaitState.step a hasWorker) {}

/-- How many loads of the run are given the earlier value of a flag that is set. -/
def missed : Nat := total (AwaitState.step a hasWorker) misses ({} : AwaitState α) es

/-- At no moment are both flags set with neither side having loaded the other's. -/
def Apart : Prop := Always (AwaitState.step a hasWorker) (fun s => ¬s.Crossed) ({} : AwaitState α) es

/-- How often the sides cross. -/
def crossings : Nat := total (AwaitState.step a hasWorker) (enters (AwaitState.step a hasWorker) Crossed) ({} : AwaitState α) es

theorem Sound.run : (ran a hasWorker es).Sound :=
  Run.foldl_of_step Sound (fun _ e h => h.step e) es Sound.init

/-- What the coroutine is given and owed at the end of a run, and what the loads missed. -/
theorem account_run : (ran a hasWorker es).account + missed a hasWorker es = 1 + crossings a hasWorker es :=
  Run.foldl_balance (fun s e (h : s.Sound) => h.step e) (fun s e (h : s.Sound) => h.account_step e) es Sound.init

theorem crossings_le_one : crossings a hasWorker es ≤ 1 := by
  have hle : bothSet ({} : AwaitState α) + crossings a hasWorker es ≤ (ran a hasWorker es).bothSet :=
    Run.total_le (fun s e (h : s.Sound) => h.step e) (fun s e (h : s.Sound) => h.bothSet_add_enters_le e) es Sound.init
  have hone := bothSet_le_one (s := ran a hasWorker es)
  omega

theorem crossings_eq_zero_iff : crossings a hasWorker es = 0 ↔ Apart a hasWorker es :=
  Run.total_enters_eq_zero_iff es (by simp [Crossed])

theorem Ended.account_eq (h : s.Ended) (hsound : s.Sound) : s.account = s.continues := by
  obtain ⟨hloading, hresuming⟩ := h.owes_nothing
  obtain ⟨⟨suspends, hreturned⟩, hne, hall⟩ := h
  obtain ⟨c, hc⟩ := List.exists_mem_of_ne_nil _ hne
  have hcompleted := hsound.past c hc (exchanged_of_ended (hall c hc))
  simp [account, given, owed, hreturned, hcompleted, hloading, hresuming]

end

/-- **In any order of the accesses of both sides, and whatever earlier values their loads are given, the coroutine goes on
exactly once if and only if at no moment both flags are set with neither side having loaded the other's, and no load misses
a flag; or the sides do cross, and one of the two loads misses.** -/
theorem run_continuesOnce_iff (a : Awaiter) (hasWorker : Bool) (es : List (AwaitEvent α)) :
    (Apart a hasWorker es → (ran a hasWorker es).continues ≤ 1) ∧
    ((ran a hasWorker es).Ended → ((ran a hasWorker es).continues = 1 ↔
      Apart a hasWorker es ∧ missed a hasWorker es = 0 ∨ ¬Apart a hasWorker es ∧ missed a hasWorker es = 1)) := by
  have haccount := account_run a hasWorker es
  have hle := crossings_le_one a hasWorker es
  rw [← crossings_eq_zero_iff]
  constructor
  · intro hzero
    have hcontinues : (ran a hasWorker es).continues ≤ (ran a hasWorker es).account := by
      unfold account given
      omega
    omega
  · intro hended
    rw [hended.account_eq (Sound.run a hasWorker es)] at haccount
    omega

/-- The completing side sets its flag between the store and the load of the suspending side; their loads are given the
earlier values, or not. -/
def crossing (a : Awaiter) (stale : Bool) : AwaitState Unit :=
  ran a true [.suspend false, .suspend false, .suspend false, .complete () false, .completing 0 false, .completing 0 false,
    .suspend stale, .completing 0 stale, .completing 0 false]

/-- In every awaiter the coroutine then goes on twice. -/
theorem continues_twice :
    ((crossing .threadPool false).Ended ∧ (crossing .threadPool false).continues = 2) ∧
    ((crossing .rpc false).Ended ∧ (crossing .rpc false).continues = 2) ∧
    (crossing .http false).Ended ∧ (crossing .http false).continues = 2 := by
  refine ⟨⟨⟨⟨false, rfl⟩, ?_, ?_⟩, rfl⟩, ⟨⟨⟨false, rfl⟩, ?_, ?_⟩, rfl⟩, ⟨⟨false, rfl⟩, ?_, ?_⟩, rfl⟩
  all_goals decide

/-- Where the store of each side comes behind its own load, in every awaiter nobody continues it. -/
theorem continues_never :
    ((crossing .threadPool true).Ended ∧ (crossing .threadPool true).continues = 0) ∧
    ((crossing .rpc true).Ended ∧ (crossing .rpc true).continues = 0) ∧
    (crossing .http true).Ended ∧ (crossing .http true).continues = 0 := by
  refine ⟨⟨⟨⟨true, rfl⟩, ?_, ?_⟩, rfl⟩, ⟨⟨⟨true, rfl⟩, ?_, ?_⟩, rfl⟩, ⟨⟨true, rfl⟩, ?_, ?_⟩, rfl⟩
  all_goals decide

end AwaitState

end Gb
