import GbServer.Lib.Interleaving
/-!
# ShutdownManager — the phases of a shutdown

`ShutdownManager` (`shutdown.cpp`), called by any threads and by its own callbacks.  A step is one access of what the
threads share, so a thread in `AdvancePhase` that has loaded the phase stores the next one some time later.
`is_advancing_` keeps the others out of that; `ForceShutdown` does not ask for it.

A wait on the condition variable ends when it is notified, spuriously, or, where it has a timeout, by itself.  `called`
and `forced` record the callbacks and that `ForceShutdown` has stored its phase, `owed` that a call was turned away by
`is_advancing_` and no phase was stored since.

`run_phases` is about runs in which no phase is forced between the load and the store of another.
-/
namespace Gb

open Run (Along)
open Threads Interleaving

inductive ShutdownPhase
  | normal
  | stoppingIO
  | completingTimers
  | processingTasks
  | cleaning
  | done
  deriving DecidableEq

inductive ShutdownCallback
  | onStopIo
  | onProcessTasks
  | onCompleteTimers
  | onCleanup
  deriving DecidableEq

namespace ShutdownPhase

/-- The value of the enumerator. -/
def toNat : ShutdownPhase → Nat
  | normal           => 0
  | stoppingIO       => 1
  | completingTimers => 2
  | processingTasks  => 3
  | cleaning         => 4
  | done             => 5

/-- The first `switch` of `AdvancePhase`. -/
def next : ShutdownPhase → ShutdownPhase
  | normal           => stoppingIO
  | stoppingIO       => completingTimers
  | completingTimers => processingTasks
  | processingTasks  => cleaning
  | cleaning         => done
  | done             => done

/-- The second `switch`. -/
def callback : ShutdownPhase → Option ShutdownCallback
  | normal           => some .onStopIo
  | stoppingIO       => some .onCompleteTimers
  | completingTimers => some .onProcessTasks
  | processingTasks  => some .onCleanup
  | _                => none

end ShutdownPhase

structure ShutdownManager where
  initialized       : ShutdownCallback → Bool
  currentPhase      : ShutdownPhase := .normal
  shutdownRequested : Bool := false
  isAdvancing       : Bool := false
  pendingAdvance    : Bool := false
  phaseMutexLocked  : Bool := false
  notifications     : Nat := 0
  called            : List ShutdownCallback := []
  forced            : Bool := false
  owed              : Bool := false

inductive ShutdownAction
  | request
  | exchangeAdvancing
  | storePending
  | loadPhase
  | storePhase (current : ShutdownPhase)
  | callCallback (current : ShutdownPhase)
  | callback
  | exchangePending
  | resetAdvancing
  | clearPending
  | notifyAll
  | forceLock
  | forceStore
  | waitLock (timed : Bool)
  | waitTest (timed : Bool)
  | waitBlock (timed : Bool)
  | waitBlocked (timed : Bool) (since : Nat)
  | unlock
  deriving DecidableEq

/-- Why a wait ends that nobody notified. -/
structure ShutdownInput where
  spurious : Bool := false
  timedOut : Bool := false

inductive ShutdownCall
  | shutdown
  | nextPhase
  | forceShutdown
  | waitForShutdown (timed : Bool)

namespace ShutdownManager

variable (s : ShutdownManager)

/-- The destructor of the guard in `AdvancePhase`. -/
def resetGuard : List ShutdownAction := [.resetAdvancing, .clearPending]

def act (input : ShutdownInput) : ShutdownAction → Option (ShutdownManager × List ShutdownAction)
  | .request                 =>
    if s.shutdownRequested then some (s, []) else some ({ s with shutdownRequested := true }, [.exchangeAdvancing])
  | .exchangeAdvancing       =>
    if s.isAdvancing then some ({ s with owed := true }, [.storePending])
    else some ({ s with isAdvancing := true }, [.loadPhase])
  | .storePending            => some ({ s with pendingAdvance := true }, [])
  | .loadPhase               =>
    some (s, if s.currentPhase = .done then resetGuard else [.storePhase s.currentPhase])
  | .storePhase current      =>
    some ({ s with currentPhase := current.next, owed := false }, [.notifyAll, .callCallback current])
  | .callCallback current    =>
    match current.callback with
    | some c =>
      if s.initialized c then some ({ s with called := s.called ++ [c] }, [.callback, .exchangePending])
      else some (s, [.exchangePending])
    | none   => some (s, [.exchangePending])
  | .callback                => some (s, [])
  | .exchangePending         => some ({ s with pendingAdvance := false }, if s.pendingAdvance then [.loadPhase] else resetGuard)
  | .resetAdvancing          => some ({ s with isAdvancing := false }, [])
  | .clearPending            => some ({ s with pendingAdvance := false }, [])
  | .notifyAll               => some ({ s with notifications := s.notifications + 1 }, [])
  | .forceLock               =>
    if s.phaseMutexLocked then none
    else some ({ s with phaseMutexLocked := true }, [.forceStore])
  | .forceStore              => some ({ s with currentPhase := .done, forced := true }, [.unlock, .notifyAll])
  | .waitLock timed          =>
    if s.phaseMutexLocked then none else some ({ s with phaseMutexLocked := true }, [.waitTest timed])
  | .waitTest timed          =>
    some (s, if s.currentPhase = .done ∨ timed && input.timedOut then [.unlock] else [.waitBlock timed])
  | .waitBlock timed         => some ({ s with phaseMutexLocked := false }, [.waitBlocked timed s.notifications])
  | .waitBlocked timed since =>
    if since < s.notifications ∨ input.spurious ∨ timed && input.timedOut then some (s, [.waitLock timed]) else none
  | .unlock                  => some ({ s with phaseMutexLocked := false }, [])

def call : ShutdownCall → Option (ShutdownManager × List ShutdownAction)
  | .shutdown              => some (s, [.request])
  | .nextPhase             => some (s, [.exchangeAdvancing])
  | .forceShutdown         => some (s, [.forceLock])
  | .waitForShutdown timed => some (s, [.waitLock timed])

/-- Callbacks call the manager. -/
def calls (a : ShutdownAction) : Bool := decide (a = .callback)

def program : Program ShutdownManager ShutdownInput ShutdownCall ShutdownAction := ⟨act, call, calls⟩

/-- A manager that nobody has called. -/
def init (initialized : ShutdownCallback → Bool) : State ShutdownManager ShutdownAction := ⟨{ initialized }, []⟩

end ShutdownManager

/-! ## Phases -/

namespace ShutdownAction

/-- A thread in the loop of `AdvancePhase`, or about to leave it. -/
def advancing : ShutdownAction → Nat
  | loadPhase       => 1
  | storePhase _    => 1
  | callCallback _  => 1
  | exchangePending => 1
  | resetAdvancing  => 1
  | _               => 0

/-- Between the load and the store of a phase. -/
def stores : ShutdownAction → Bool
  | storePhase _ => true
  | _            => false

end ShutdownAction

namespace ShutdownCallback

/-- The order in which the phases call. -/
def order : List ShutdownCallback := [onStopIo, onCompleteTimers, onProcessTasks, onCleanup]

/-- The callbacks of the phases up to this one. -/
def upTo (phase : ShutdownPhase) : List ShutdownCallback := order.take phase.toNat

theorem upTo_mono {p q : ShutdownPhase} (h : p.toNat ≤ q.toNat) : (upTo p).Sublist (upTo q) :=
  List.take_sublist_take_left h

theorem upTo_next {p : ShutdownPhase} {c : ShutdownCallback} (h : p.callback = some c) : upTo p.next = upTo p ++ [c] := by
  cases p <;> cases h <;> rfl

end ShutdownCallback

theorem ShutdownPhase.toNat_next (p : ShutdownPhase) : p.toNat ≤ p.next.toNat := by
  cases p <;> decide

theorem ShutdownPhase.toNat_le_done (p : ShutdownPhase) : p.toNat ≤ ShutdownPhase.done.toNat := by
  cases p <;> decide

/-- The threads that call a manager. -/
abbrev ShutdownThreads := State ShutdownManager ShutdownAction

namespace ShutdownManager

/-- No thread is between the load and the store of a phase when another is forced. -/
def Unforced (s : ShutdownThreads) (_ : Nat) (_ : ShutdownInput) (a : ShutdownAction) : Prop :=
  a = .forceStore → ¬Anywhere s.ops ShutdownAction.stores

instance (s : ShutdownThreads) (k : Nat) (input : ShutdownInput) (a : ShutdownAction) :
    Decidable (Unforced s k input a) := inferInstanceAs (Decidable (_ → _))

variable {s : ShutdownThreads} {shared : ShutdownManager} {ops : List (List ShutdownAction)} {k : Nat}
  {input : ShutdownInput} {a : ShutdownAction} {rest pushed : List ShutdownAction}

/-- A call begins with an action outside of `AdvancePhase`, and changes nothing. -/
theorem call_cases {c : ShutdownCall} {op : List ShutdownAction} (h : s.shared.call c = some (shared, op)) :
    shared = s.shared ∧ ∃ a, op = [a] ∧
      (a = .request ∨ a = .exchangeAdvancing ∨ a = .forceLock ∨ ∃ timed, a = .waitLock timed) := by
  cases c <;> cases h <;> exact ⟨rfl, _, rfl, by simp⟩

/-- The thread in `AdvancePhase` is the only one, and `is_advancing_` is set as long as it is there. -/
def Alone (s : ShutdownThreads) : Prop := weight ShutdownAction.advancing s.ops = if s.shared.isAdvancing then 1 else 0

theorem Alone.call (h : Alone s) {c : ShutdownCall} {op : List ShutdownAction}
    (hcall : s.shared.call c = some (shared, op)) (hstarted : program.Started op s.ops ops) : Alone ⟨shared, ops⟩ := by
  have hweight := hstarted.weight ShutdownAction.advancing
  obtain ⟨rfl, a, rfl, ha⟩ := call_cases hcall
  have hzero : a.advancing = 0 := by
    rcases ha with rfl | rfl | rfl | ⟨timed, rfl⟩ <;> rfl
  rw [weight_cons, Tally.tally_cons, Tally.tally_nil, hzero] at hweight
  unfold Alone at h ⊢
  dsimp only
  omega

/-- What an action does to `is_advancing_`. -/
theorem isAdvancing_act {m m' : ShutdownManager} (h : m.act input a = some (m', pushed)) :
    (a = .exchangeAdvancing ∧ m.isAdvancing = false ∧ m'.isAdvancing = true ∧ pushed = [.loadPhase]) ∨
      (a = .resetAdvancing ∧ m'.isAdvancing = false ∧ pushed = []) ∨
      (m'.isAdvancing = m.isAdvancing ∧ a.advancing = Tally.tally ShutdownAction.advancing pushed) := by
  cases a with
  | exchangeAdvancing =>
    simp only [ShutdownManager.act] at h
    by_cases hadvancing : m.isAdvancing = true
    · rw [if_pos hadvancing] at h
      cases h
      exact .inr (.inr ⟨rfl, rfl⟩)
    · rw [if_neg hadvancing] at h
      cases h
      exact .inl ⟨rfl, Bool.eq_false_iff.2 hadvancing, rfl, rfl⟩
  | resetAdvancing =>
    cases h
    exact .inr (.inl ⟨rfl, rfl, rfl⟩)
  | callCallback current =>
    simp only [ShutdownManager.act] at h
    split at h
    · split at h <;> cases h <;> exact .inr (.inr ⟨rfl, rfl⟩)
    · cases h
      exact .inr (.inr ⟨rfl, rfl⟩)
  | loadPhase | exchangePending | waitTest timed =>
    simp only [ShutdownManager.act] at h
    cases h
    split <;> exact .inr (.inr ⟨rfl, rfl⟩)
  | request | forceLock | waitLock timed | waitBlocked timed since =>
    simp only [ShutdownManager.act] at h
    split at h <;> cases h <;> exact .inr (.inr ⟨rfl, rfl⟩)
  | _ =>
    cases h
    exact .inr (.inr ⟨rfl, rfl⟩)

theorem Alone.act (h : Alone s) (hk : s.ops[k]? = some (a :: rest)) (hact : s.shared.act input a = some (shared, pushed)) :
    Alone ⟨shared, advance s.ops k pushed⟩ := by
  have hweight := weight_advance ShutdownAction.advancing pushed hk
  unfold Alone at h ⊢
  dsimp only
  rcases isAdvancing_act hact with ⟨rfl, hbefore, hafter, rfl⟩ | ⟨rfl, hafter, rfl⟩ | ⟨hsame, hadvancing⟩
  · rw [hbefore, if_neg Bool.false_ne_true] at h
    simp only [ShutdownAction.advancing, Tally.tally_cons, Tally.tally_nil] at hweight
    rw [hafter, if_pos rfl]
    omega
  · simp only [ShutdownAction.advancing, Tally.tally_nil] at hweight
    rw [hafter, if_neg Bool.false_ne_true]
    split at h <;> omega
  · rw [hsame, ← h]
    omega

/-- While one thread loads, stores or calls, no other does. -/
theorem Alone.others (h : Alone s) (hk : s.ops[k]? = some (a :: rest)) (ha : a.advancing = 1) {b : ShutdownAction}
    (hb : b.advancing = 1) : ¬Has (advance s.ops k []) b := by
  intro hhas
  have hzero := Threads.alone (w := ShutdownAction.advancing) hk (by unfold Alone at h; split at h <;> omega) hhas
  omega

/-- What holds of the phases. -/
structure Phases (s : ShutdownThreads) : Prop where
  alone   : Alone s
  storing : ∀ current, Has s.ops (.storePhase current) → current = s.shared.currentPhase ∧ current ≠ .done
  called  : s.shared.called.Sublist (ShutdownCallback.upTo s.shared.currentPhase)
  calling : ∀ current, Has s.ops (.callCallback current) →
    s.shared.called.Sublist (ShutdownCallback.upTo current) ∧ current.next.toNat ≤ s.shared.currentPhase.toNat
  forced  : s.shared.forced = true → s.shared.currentPhase = .done

/-- What leaves the phase and the callbacks alone. -/
theorem Phases.of_same (h : Phases s) (hphase : shared.currentPhase = s.shared.currentPhase)
    (hcalled : shared.called = s.shared.called) (hforced : shared.forced = s.shared.forced) (halone : Alone ⟨shared, ops⟩)
    (hstoring : ∀ current, Has ops (.storePhase current) → current = s.shared.currentPhase ∧ current ≠ .done)
    (hcalling : ∀ current, Has ops (.callCallback current) → Has s.ops (.callCallback current)) :
    Phases ⟨shared, ops⟩ where
  alone   := halone
  storing := fun current hb => by
    rw [hphase]
    exact hstoring current hb
  called  := by
    rw [hphase, hcalled]
    exact h.called
  calling := fun current hb => by
    rw [hphase, hcalled]
    exact h.calling current (hcalling current hb)
  forced  := fun hf => by
    rw [hphase]
    exact h.forced (hforced ▸ hf)

theorem Phases.call (h : Phases s) {c : ShutdownCall} {op : List ShutdownAction}
    (hcall : s.shared.call c = some (shared, op)) (hstarted : program.Started op s.ops ops) : Phases ⟨shared, ops⟩ := by
  have halone := h.alone.call hcall hstarted
  obtain ⟨rfl, a, rfl, ha⟩ := call_cases hcall
  have hold : ∀ b, b ≠ a → Has ops b → Has s.ops b := by
    intro b hb hhas
    exact (has_cons.1 ((hstarted.has b).1 hhas)).resolve_left fun hmem => hb (List.mem_singleton.1 hmem)
  have hstore : ∀ current, .storePhase current ≠ a := by
    rintro current rfl
    simp at ha
  have hcallback : ∀ current, .callCallback current ≠ a := by
    rintro current rfl
    simp at ha
  apply h.of_same rfl rfl rfl halone
  · exact fun current hb => h.storing current (hold _ (hstore current) hb)
  · exact fun current hb => hold _ (hcallback current) hb

theorem Phases.act (h : Phases s) (hk : s.ops[k]? = some (a :: rest)) (hQ : Unforced s k input a)
    (hact : s.shared.act input a = some (shared, pushed)) : Phases ⟨shared, advance s.ops k pushed⟩ := by
  have halone := h.alone.act hk hact
  have hold : ∀ b, b ∉ pushed → Has (advance s.ops k pushed) b → Has (advance s.ops k []) b :=
    fun b hnot hb => ((has_advance hk).1 hb).resolve_left hnot
  have hquiet : shared.currentPhase = s.shared.currentPhase → shared.called = s.shared.called →
      shared.forced = s.shared.forced → (∀ c, .storePhase c ∉ pushed) → (∀ c, .callCallback c ∉ pushed) →
      Phases ⟨shared, advance s.ops k pushed⟩ := by
    intro hphase hcalled hforced hstore hcallback
    apply h.of_same hphase hcalled hforced halone
    · exact fun c hb => h.storing c (hold _ (hstore c) hb).of_advance
    · exact fun c hb => (hold _ (hcallback c) hb).of_advance
  cases a with
  | loadPhase =>
    simp only [ShutdownManager.act] at hact
    cases hact
    by_cases hdone : s.shared.currentPhase = .done
    · rw [if_pos hdone] at hquiet ⊢
      exact hquiet rfl rfl rfl (by simp [resetGuard]) (by simp [resetGuard])
    · rw [if_neg hdone] at hold halone ⊢
      apply h.of_same rfl rfl rfl halone
      · intro c hb
        by_cases hc : c = s.shared.currentPhase
        · exact ⟨hc, hc ▸ hdone⟩
        · exact h.storing c (hold _ (by simpa using hc) hb).of_advance
      · exact fun c hb => (hold _ (by simp) hb).of_advance
  | storePhase current =>
    simp only [ShutdownManager.act] at hact
    cases hact
    obtain ⟨rfl, hdone⟩ := h.storing current (has_of_getElem? hk)
    have hcalled := h.called.trans (ShutdownCallback.upTo_mono s.shared.currentPhase.toNat_next)
    constructor
    · exact halone
    · exact fun c hb => absurd (hold _ (by simp) hb) (h.alone.others hk rfl rfl)
    · exact hcalled
    · intro c hb
      by_cases hc : c = s.shared.currentPhase
      · subst hc
        exact ⟨h.called, Nat.le_refl _⟩
      · exact absurd (hold _ (by simpa using hc) hb) (h.alone.others hk rfl rfl)
    · intro hforced
      exact absurd (h.forced hforced) hdone
  | callCallback current =>
    obtain ⟨hcalled, hphase⟩ := h.calling current (has_of_getElem? hk)
    simp only [ShutdownManager.act] at hact
    cases hcallback : current.callback with
    | none   =>
      rw [hcallback] at hact
      cases hact
      exact hquiet rfl rfl rfl (by simp) (by simp)
    | some c =>
      rw [hcallback] at hact
      dsimp only at hact
      by_cases hinit : s.shared.initialized c = true
      · rw [if_pos hinit] at hact
        cases hact
        constructor
        · exact halone
        · exact fun d hb => absurd (hold _ (by simp) hb) (h.alone.others hk rfl rfl)
        · have hadd : (s.shared.called ++ [c]).Sublist (ShutdownCallback.upTo current.next) := by
            rw [ShutdownCallback.upTo_next hcallback]
            exact hcalled.append (List.Sublist.refl [c])
          exact hadd.trans (ShutdownCallback.upTo_mono hphase)
        · exact fun d hb => absurd (hold _ (by simp) hb) (h.alone.others hk rfl rfl)
        · exact h.forced
      · rw [if_neg hinit] at hact
        cases hact
        exact hquiet rfl rfl rfl (by simp) (by simp)
  | forceStore =>
    simp only [ShutdownManager.act] at hact
    cases hact
    constructor
    · exact halone
    · exact fun c hb => absurd ⟨_, (hold _ (by simp) hb).of_advance, rfl⟩ (hQ rfl)
    · exact h.called.trans (ShutdownCallback.upTo_mono (ShutdownPhase.toNat_le_done _))
    · intro c hb
      exact ⟨(h.calling c (hold _ (by simp) hb).of_advance).1, ShutdownPhase.toNat_le_done _⟩
    · exact fun _ => rfl
  | exchangePending =>
    simp only [ShutdownManager.act] at hact
    cases hact
    cases hpending : s.shared.pendingAdvance with
    | false =>
      rw [hpending] at hquiet
      exact hquiet rfl rfl rfl (by simp [resetGuard]) (by simp [resetGuard])
    | true  =>
      rw [hpending] at hquiet
      exact hquiet rfl rfl rfl (by simp) (by simp)
  | waitTest timed =>
    simp only [ShutdownManager.act] at hact
    cases hact
    by_cases hends : s.shared.currentPhase = .done ∨ timed && input.timedOut
    · rw [if_pos hends] at hquiet ⊢
      exact hquiet rfl rfl rfl (by simp) (by simp)
    · rw [if_neg hends] at hquiet ⊢
      exact hquiet rfl rfl rfl (by simp) (by simp)
  | request | exchangeAdvancing | forceLock | waitLock timed | waitBlocked timed since =>
    simp only [ShutdownManager.act] at hact
    split at hact <;> cases hact <;> exact hquiet rfl rfl rfl (by simp) (by simp)
  | _ =>
    simp only [ShutdownManager.act] at hact
    cases hact
    exact hquiet rfl rfl rfl (by simp) (by simp)

theorem phases_preserves : Program.Preserves program Unforced Phases where
  call := fun _ hs _ _ _ _ hcall hstarted => hs.call hcall hstarted
  act  := fun _ hs _ _ _ _ _ _ hk hQ hact => hs.act hk hQ hact

theorem phases_init (initialized : ShutdownCallback → Bool) : Phases (init initialized) where
  alone   := rfl
  storing := fun _ hb => absurd hb not_has_nil
  called  := List.Sublist.refl []
  calling := fun _ hb => absurd hb not_has_nil
  forced  := fun h => nomatch h

/-- The phase does not go back. -/
def Forward (s : ShutdownThreads) (e : Event ShutdownInput ShutdownCall) : Prop :=
  s.shared.currentPhase.toNat ≤ (program.step s e).shared.currentPhase.toNat

/-- Only `AdvancePhase` and `ForceShutdown` store a phase. -/
theorem currentPhase_act {m m' : ShutdownManager} {input : ShutdownInput} {a : ShutdownAction}
    {pushed : List ShutdownAction} (h : m.act input a = some (m', pushed)) :
    (∃ current, a = .storePhase current ∧ m'.currentPhase = current.next) ∨
      (a = .forceStore ∧ m'.currentPhase = .done) ∨ m'.currentPhase = m.currentPhase := by
  cases a with
  | storePhase current =>
    cases h
    exact .inl ⟨current, rfl, rfl⟩
  | forceStore =>
    cases h
    exact .inr (.inl ⟨rfl, rfl⟩)
  | callCallback current =>
    simp only [ShutdownManager.act] at h
    split at h
    · split at h <;> cases h <;> exact .inr (.inr rfl)
    · cases h
      exact .inr (.inr rfl)
  | request | exchangeAdvancing | forceLock | waitLock timed | waitBlocked timed since =>
    simp only [ShutdownManager.act] at h
    split at h <;> cases h <;> exact .inr (.inr rfl)
  | _ =>
    cases h
    exact .inr (.inr rfl)

theorem Phases.forward (h : Phases s) (e : Event ShutdownInput ShutdownCall) : Forward s e := by
  rcases Program.step_cases (p := program) (s := s) e with hsame | ⟨c, shared, op, ops, hcall, hstarted, hstep⟩ |
      ⟨k, input, a, rest, shared, pushed, rfl, hk, hact, hstep⟩
  all_goals unfold Forward
  · exact Nat.le_of_eq (by rw [hsame])
  · rw [hstep]
    cases c <;> cases hcall <;> exact Nat.le_refl _
  · rw [hstep]
    dsimp only
    rcases currentPhase_act hact with ⟨current, rfl, hphase⟩ | ⟨_, hphase⟩ | hphase
    · rw [hphase, (h.storing current (has_of_getElem? hk)).1]
      exact ShutdownPhase.toNat_next _
    · rw [hphase]
      exact ShutdownPhase.toNat_le_done _
    · exact Nat.le_of_eq (by rw [hphase])

/-- The callbacks run in their order and at most once each, and a forced shutdown is done. -/
def InOrder (s : ShutdownThreads) : Prop :=
  s.shared.called.Sublist ShutdownCallback.order ∧ (s.shared.forced = true → s.shared.currentPhase = .done)

theorem Phases.inOrder (h : Phases s) : InOrder s := ⟨h.called.trans (List.take_sublist _ _), h.forced⟩

/-- **In a run that never forces a phase between the load and the store of another, no phase goes back, the callbacks
run in their order and at most once each, and what was forced stays done.** -/
theorem run_phases (initialized : ShutdownCallback → Bool) (events : List (Event ShutdownInput ShutdownCall))
    (h : Along program.step (Program.AtAction Unforced) (init initialized) events) :
    Along program.step Forward (init initialized) events ∧ InOrder (events.foldl program.step (init initialized)) :=
  ⟨Run.along_of_inv phases_preserves.step (fun _ e hs _ => hs.forward e) events (phases_init initialized) h,
    (phases_preserves.run events (phases_init initialized) h).inOrder⟩

/-- The first callback calls `NextPhase`, while another thread forces the shutdown. -/
def forcedInCallback : List (Event ShutdownInput ShutdownCall) :=
  [.call .shutdown, .call .forceShutdown] ++ List.replicate 6 (.step 0 {}) ++ [.inside 0 .nextPhase] ++
    List.replicate 4 (.step 1 {}) ++ List.replicate 7 (.step 0 {})

theorem run_phases_forcedInCallback :
    Along program.step Forward (init fun _ => true) forcedInCallback ∧
      InOrder (forcedInCallback.foldl program.step (init fun _ => true)) :=
  run_phases (fun _ => true) forcedInCallback (by decide)

/-- `ForceShutdown` stores its phase between the load and the store of the first one. -/
theorem not_run_phases : ¬∀ (initialized : ShutdownCallback → Bool) (events : List (Event ShutdownInput ShutdownCall)),
    Along program.step Forward (init initialized) events ∧ InOrder (events.foldl program.step (init initialized)) := by
  intro h
  have hforced := (h (fun _ => true)
    [.call .shutdown, .call .forceShutdown, .step 0 {}, .step 0 {}, .step 0 {}, .step 1 {}, .step 1 {}, .step 0 {}]).2.2
  exact absurd (hforced rfl) (by decide)

end ShutdownManager

end Gb
