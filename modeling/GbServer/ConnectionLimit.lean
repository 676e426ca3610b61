import Mathlib.Data.Finset.Card
import GbServer.Lib.Run
import GbServer.Lib.Tally
/-!
# ConnectionLimit — the sessions of a server

`OnAccepted`, `OnClosed` and `ConnectionCount` of `server.cpp`.  The count and the insertion take `_session_set_mutex`
each for themselves.  Accept callbacks run on the listener's thread for TCP, on the threads of the pool for SSL (the
handshake's completion) and KCP (`KcpListener::OnReceive` posts them), so a call is a list of steps that come between
those of other calls.

The limit is kept as long as no call finds room that calls between their own count and insertion will take up
(`run_sessions_le`).
-/
namespace Gb

open Run (Along)
open Tally

/-- A call of `OnAccepted` or `OnClosed`, before the step that is next. -/
inductive ServerCall (σ : Type)
  | acceptedRunning (session : σ)
  | acceptedCount (session : σ)
  | acceptedInsert (session : σ)
  | closedRunning (session : σ)
  | closedErase (session : σ)
  | returned
  deriving DecidableEq

/-- One for a call that was counted in and has not inserted its session yet. -/
def ServerCall.inserting {σ : Type} : ServerCall σ → Nat
  | acceptedInsert _ => 1
  | _                => 0

/-- `maxConnectionCount` is -1 for no limit. -/
structure SessionSet (σ : Type) where
  maxConnectionCount : Int
  isRunning          : Bool := true
  sessionSet         : Finset σ := ∅
  calls              : List (ServerCall σ) := []

inductive SessionSetEvent (σ : Type)
  | onAccepted (session : σ)
  | onClosed (session : σ)
  | stop
  | clearSession
  | call (k : Nat)

namespace SessionSet

variable {σ : Type} [DecidableEq σ]

def connectionCount (s : SessionSet σ) : Int := s.sessionSet.card

/-- The step of a call, and what is left of it.  A session that is turned away is closed on the spot. -/
def callStep (s : SessionSet σ) : ServerCall σ → SessionSet σ × ServerCall σ
  | .acceptedRunning session => (s, if s.isRunning then .acceptedCount session else .closedRunning session)
  | .acceptedCount session   =>
    (s, if s.maxConnectionCount ≠ -1 ∧ s.connectionCount ≥ s.maxConnectionCount then .closedRunning session
      else .acceptedInsert session)
  | .acceptedInsert session  => ({ s with sessionSet := insert session s.sessionSet }, .returned)
  | .closedRunning session   => (s, if s.isRunning then .closedErase session else .returned)
  | .closedErase session     => ({ s with sessionSet := s.sessionSet.erase session }, .returned)
  | .returned                => (s, .returned)

def step (s : SessionSet σ) : SessionSetEvent σ → SessionSet σ
  | .onAccepted session => { s with calls := .acceptedRunning session :: s.calls }
  | .onClosed session   => { s with calls := .closedRunning session :: s.calls }
  | .stop               => { s with isRunning := false }
  | .clearSession       => { s with sessionSet := ∅ }
  | .call k             =>
    match s.calls[k]? with
    | some c =>
      let (s', c') := s.callStep c
      { s' with calls := s.calls.set k c' }
    | none   => s

/-- The sessions there are and those that are about to be inserted. -/
def taken (s : SessionSet σ) : Nat := s.sessionSet.card + tally ServerCall.inserting s.calls

/-- A call that counts and finds room does so where the calls before their insertion leave room as well. -/
def RoomLeft (s : SessionSet σ) : SessionSetEvent σ → Prop
  | .call k =>
    match s.calls[k]? with
    | some (.acceptedCount _) => s.connectionCount < s.maxConnectionCount → s.taken < s.maxConnectionCount
    | _                       => True
  | _       => True

/-- A limit below zero, which is not -1, lets nobody in. -/
def Within (s : SessionSet σ) : Prop := s.maxConnectionCount ≠ -1 ∧ s.taken ≤ max s.maxConnectionCount 0

variable {s : SessionSet σ}

theorem step_call {k : Nat} {c : ServerCall σ} (hk : s.calls[k]? = some c) :
    s.step (.call k) = { (s.callStep c).1 with calls := s.calls.set k (s.callStep c).2 } := by
  simp [step, hk]

omit [DecidableEq σ] in
/-- A step that adds nobody, and a call that is not counted in. -/
theorem Within.of_le (h : s.Within) {s' : SessionSet σ} (hmax : s'.maxConnectionCount = s.maxConnectionCount)
    (htaken : s'.taken ≤ s.taken) : s'.Within := by
  obtain ⟨hlimit, hle⟩ := h
  unfold Within
  rw [hmax]
  exact ⟨hlimit, by omega⟩

@[simp] theorem callStep_maxConnectionCount (c : ServerCall σ) :
    (s.callStep c).1.maxConnectionCount = s.maxConnectionCount := by
  cases c <;> rfl

/-- Only a call that is counted in takes more. -/
theorem taken_callStep {k : Nat} {c : ServerCall σ} (hk : s.calls[k]? = some c)
    (hout : ∀ session, c = .acceptedCount session → s.maxConnectionCount ≤ s.connectionCount)
    (hlimit : s.maxConnectionCount ≠ -1) :
    taken { (s.callStep c).1 with calls := s.calls.set k (s.callStep c).2 } ≤ s.taken := by
  have htally := tally_set ServerCall.inserting (s.callStep c).2 hk
  unfold taken
  cases c with
  | acceptedRunning session =>
    cases hrunning : s.isRunning <;> simp_all [callStep, ServerCall.inserting]
  | acceptedCount session   =>
    have hge := hout session rfl
    simp_all [callStep, ServerCall.inserting]
  | acceptedInsert session  =>
    have hcard := Finset.card_insert_le session s.sessionSet
    simp only [callStep, ServerCall.inserting] at htally ⊢
    omega
  | closedRunning session   =>
    cases hrunning : s.isRunning <;> simp_all [callStep, ServerCall.inserting]
  | closedErase session     =>
    have hcard := Finset.card_erase_le (a := session) (s := s.sessionSet)
    simp only [callStep, ServerCall.inserting] at htally ⊢
    omega
  | returned                =>
    simp only [callStep] at htally ⊢
    omega

omit [DecidableEq σ] in
/-- A call that is counted in: the condition says that there is room for one more than are taken. -/
theorem Within.counted (h : s.Within) {k : Nat} {session : σ} (hk : s.calls[k]? = some (.acceptedCount session))
    (hroom : s.RoomLeft (.call k)) (hlt : s.connectionCount < s.maxConnectionCount) :
    Within { s with calls := s.calls.set k (.acceptedInsert session) } := by
  have htally := tally_set ServerCall.inserting (.acceptedInsert session) hk
  simp only [RoomLeft, hk] at hroom
  have htaken := hroom hlt
  obtain ⟨hlimit, hle⟩ := h
  constructor
  · exact hlimit
  · simp only [taken, ServerCall.inserting] at htaken htally ⊢
    omega

theorem Within.callStep (h : s.Within) {k : Nat} {c : ServerCall σ} (hk : s.calls[k]? = some c)
    (hroom : s.RoomLeft (.call k)) : Within { (s.callStep c).1 with calls := s.calls.set k (s.callStep c).2 } := by
  by_cases hin : (∃ session, c = .acceptedCount session) ∧ s.connectionCount < s.maxConnectionCount
  · obtain ⟨⟨session, rfl⟩, hlt⟩ := hin
    have hstep : s.callStep (.acceptedCount session) = (s, .acceptedInsert session) := by
      have hnot : ¬(s.maxConnectionCount ≠ -1 ∧ s.connectionCount ≥ s.maxConnectionCount) := by
        intro hfull
        exact absurd hlt (not_lt.2 hfull.2)
      simp only [SessionSet.callStep, if_neg hnot]
    simpa only [hstep] using h.counted hk hroom hlt
  · apply h.of_le
    · exact callStep_maxConnectionCount c
    · apply taken_callStep hk ?_ h.1
      intro session hc
      by_contra hlt
      exact hin ⟨⟨session, hc⟩, not_le.1 hlt⟩

theorem Within.step (h : s.Within) (e : SessionSetEvent σ) (hroom : s.RoomLeft e) : (s.step e).Within := by
  cases e with
  | onAccepted session =>
    apply h.of_le
    · rfl
    · simp [taken, SessionSet.step, ServerCall.inserting]
  | onClosed session   =>
    apply h.of_le
    · rfl
    · simp [taken, SessionSet.step, ServerCall.inserting]
  | stop               =>
    apply h.of_le
    · rfl
    · exact Nat.le_refl _
  | clearSession       =>
    apply h.of_le
    · rfl
    · simp [taken, SessionSet.step]
  | call k             =>
    cases hk : s.calls[k]? with
    | none   => simpa [SessionSet.step, hk] using h
    | some c =>
      rw [step_call hk]
      exact h.callStep hk hroom

@[simp] theorem step_maxConnectionCount (e : SessionSetEvent σ) :
    (s.step e).maxConnectionCount = s.maxConnectionCount := by
  cases e with
  | onAccepted session => rfl
  | onClosed session   => rfl
  | stop               => rfl
  | clearSession       => rfl
  | call k             =>
    cases hk : s.calls[k]? with
    | none   => simp [step, hk]
    | some c => simp [step_call hk]

theorem foldl_maxConnectionCount : ∀ (es : List (SessionSetEvent σ)) (s : SessionSet σ),
    (es.foldl step s).maxConnectionCount = s.maxConnectionCount
  | [],      s => rfl
  | e :: es, s => by
    rw [List.foldl_cons, foldl_maxConnectionCount es, step_maxConnectionCount]

/-- **With a limit of `c`, the sessions of a server stay at most `c` in every run in which no call finds room that
other calls are about to take.** -/
theorem run_sessions_le {c : Int} (hc : c ≠ -1) (es : List (SessionSetEvent σ))
    (hroom : Along step RoomLeft { maxConnectionCount := c } es) :
    (es.foldl step { maxConnectionCount := c } : SessionSet σ).connectionCount ≤ max c 0 := by
  have hwithin : (es.foldl step { maxConnectionCount := c } : SessionSet σ).Within := by
    apply Run.foldl_inv (fun s e hs hP => Within.step hs e hP) es ?_ hroom
    exact ⟨hc, by simp [taken]⟩
  obtain ⟨_, hle⟩ := hwithin
  rw [foldl_maxConnectionCount] at hle
  unfold connectionCount
  simp only [taken] at hle
  omega

/-- One session after the other, with room for one. -/
theorem run_sessions_le_inTurn :
    ([.onAccepted 1, .call 0, .call 0, .call 0, .onAccepted 2, .call 0, .call 0, .call 0, .call 0].foldl step
      { maxConnectionCount := 1 } : SessionSet Nat).connectionCount ≤ max 1 0 := by
  apply run_sessions_le (by decide)
  simp [Along, RoomLeft, SessionSet.step, SessionSet.callStep, connectionCount, taken, ServerCall.inserting]

/-- Two sessions at once, with room for one: both are counted in before either is inserted. -/
theorem sessions_two :
    let s := [.onAccepted 1, .onAccepted 2, .call 0, .call 1, .call 0, .call 1, .call 0, .call 1].foldl step
      ({ maxConnectionCount := 1 } : SessionSet Nat)
    s.maxConnectionCount = 1 ∧ s.connectionCount = 2 :=
  ⟨rfl, rfl⟩

end SessionSet

end Gb
