import GbServer.Lib.Interleaving
import Mathlib.Data.List.Sort
import Mathlib.Logic.Function.Basic
/-!
# ClientSessions — the sessions of a client, by endpoint and by type

`ClientImpl` (`client.cpp`): `Connect` called from any threads, and `close` of any session, which calls `OnClosed` once the
session is closed; both also called by the close callback of the application.  Sessions are numbered as they are created.

`_session_map` and `_session_type_map` have a mutex each, so what is done under one of them is one action.  The type map
is a list in the order of its keys.  `async_connect` makes a session connecting, whatever it was before.  `removedLive`
records that `OnClosed` has removed a session that was not closed.

`OnClosed` removes the least type whose session has the endpoint of its own.  `run_consistent` is about runs in which this
is the one to remove: the session has no other type than the least of its endpoint, which no session has got that is not
closed; and in which `Connect` does not store a session too late.
-/
namespace Gb

open Run (Along)
open Threads Interleaving

structure ClientImpl (ε τ : Type) where
  endpoint       : Nat → ε
  closed         : Nat → Bool := fun _ => false
  created        : Nat := 0
  sessionMap     : ε → Option Nat := fun _ => none
  sessionTypeMap : List (τ × Nat) := []
  removedLive    : Bool := false

inductive ClientAction (ε τ : Type)
  | findOrCreateStream (type : τ) (endpoint : ε)
  | asyncConnect (session : Nat)
  | storeType (type : τ) (session : Nat)
  | close (session : Nat)
  | eraseSession (session : Nat)
  | eraseType (session : Nat)
  | closeCallback (session : Nat)
  deriving DecidableEq

inductive ClientCall (ε τ : Type)
  | connect (type : τ) (endpoint : ε)
  | close (session : Nat)

namespace ClientImpl

variable {ε τ : Type} [DecidableEq ε] [LinearOrder τ]

/-- `map[key] = value`. -/
def assign (key : τ) (value : Nat) (map : List (τ × Nat)) : List (τ × Nat) :=
  (map.filter fun pair => pair.1 ≠ key).orderedInsert (fun p q => p.1 ≤ q.1) (key, value)

variable (s : ClientImpl ε τ)

def findType (session : Nat) : Option (τ × Nat) :=
  s.sessionTypeMap.find? fun pair => decide (s.endpoint pair.2 = s.endpoint session)

def create (endpoint : ε) : ClientImpl ε τ :=
  { s with
    endpoint   := Function.update s.endpoint s.created endpoint
    created    := s.created + 1
    sessionMap := Function.update s.sessionMap endpoint (some s.created) }

def act (_ : Unit) : ClientAction ε τ → Option (ClientImpl ε τ × List (ClientAction ε τ))
  | .findOrCreateStream type endpoint =>
    match s.sessionMap endpoint with
    | some session =>
      if s.closed session then some (s.create endpoint, [.asyncConnect s.created, .storeType type s.created])
      else some (s, [.storeType type session])
    | none         => some (s.create endpoint, [.asyncConnect s.created, .storeType type s.created])
  | .asyncConnect session             => some ({ s with closed := Function.update s.closed session false }, [])
  | .storeType type session           => some ({ s with sessionTypeMap := assign type session s.sessionTypeMap }, [])
  | .close session                    =>
    if s.closed session then some (s, [])
    else some ({ s with closed := Function.update s.closed session true }, [.eraseSession session])
  | .eraseSession session             =>
    if (s.sessionMap (s.endpoint session)).any fun other => !s.closed other then some (s, [])
    else
      some ({ s with
        sessionMap  := Function.update s.sessionMap (s.endpoint session) none
        removedLive := s.removedLive || (s.sessionMap (s.endpoint session)).any fun other => !s.closed other },
        [.eraseType session])
  | .eraseType session                =>
    match s.findType session with
    | some pair =>
      some ({ s with
        sessionTypeMap := s.sessionTypeMap.erase pair
        removedLive    := s.removedLive || !s.closed pair.2 },
        [.closeCallback session])
    | none      => some (s, [.closeCallback session])
  | .closeCallback _                  => some (s, [])

def call : ClientCall ε τ → Option (ClientImpl ε τ × List (ClientAction ε τ))
  | .connect type endpoint => some (s, [.findOrCreateStream type endpoint])
  | .close session         => if session < s.created then some (s, [.close session]) else none

/-- The close callback calls the client. -/
def calls : ClientAction ε τ → Bool
  | .closeCallback _ => true
  | _                => false

def program : Program (ClientImpl ε τ) Unit (ClientCall ε τ) (ClientAction ε τ) := ⟨act, call, calls⟩

def init (unbound : ε) : State (ClientImpl ε τ) (ClientAction ε τ) := ⟨{ endpoint := fun _ => unbound }, []⟩

end ClientImpl

namespace ClientAction

variable {ε τ : Type}

/-- `OnClosed`, before it has removed the session from the type map. -/
def erases (session : Nat) : ClientAction ε τ → Bool
  | eraseSession other => decide (other = session)
  | eraseType other    => decide (other = session)
  | _                  => false

/-- `OnClosed`, before it has returned. -/
def inOnClosed (session : Nat) : ClientAction ε τ → Bool
  | eraseSession other  => decide (other = session)
  | eraseType other     => decide (other = session)
  | closeCallback other => decide (other = session)
  | _                   => false

theorem inOnClosed_of_erases {session : Nat} {b : ClientAction ε τ} (h : b.erases session = true) :
    b.inOnClosed session = true := by
  cases b <;> first | exact h | cases h

end ClientAction

abbrev ClientThreads (ε τ : Type) := State (ClientImpl ε τ) (ClientAction ε τ)

namespace ClientImpl

variable {ε τ : Type} [DecidableEq ε] [LinearOrder τ]

/-- The type is the least of those whose sessions have the endpoint. -/
def LeastAt (s : ClientImpl ε τ) (endpoint : ε) (type : τ) : Prop :=
  ∀ other ∈ s.sessionTypeMap, s.endpoint other.2 = endpoint → type ≤ other.1

instance (s : ClientImpl ε τ) (endpoint : ε) (type : τ) : Decidable (s.LeastAt endpoint type) :=
  inferInstanceAs (Decidable (∀ _ ∈ _, _))

/-- The condition on a step.  Where a new session has been connected to the endpoint before `OnClosed` looks there, its type
was that of the old one and is stored already.  When `OnClosed` comes to the types, those of its session are the least of
the endpoint, and the session of the least is closed.  And a session that is closed is stored only while `OnClosed` has
still to remove it. -/
def Orderly (s : ClientThreads ε τ) (_ : Nat) (_ : Unit) : ClientAction ε τ → Prop
  | .eraseSession session => (∃ other ∈ s.shared.sessionMap (s.shared.endpoint session), s.shared.closed other = false) →
    ∀ pair ∈ s.shared.sessionTypeMap, pair.2 ≠ session
  | .eraseType session    => ∀ pair ∈ s.shared.sessionTypeMap,
    (pair.2 = session → s.shared.LeastAt (s.shared.endpoint session) pair.1) ∧
      (s.shared.endpoint pair.2 = s.shared.endpoint session → s.shared.LeastAt (s.shared.endpoint session) pair.1 →
        s.shared.closed pair.2 = true)
  | .storeType _ session  => s.shared.closed session = true → Anywhere s.ops (ClientAction.erases session)
  | _                     => True

instance (s : ClientThreads ε τ) (k : Nat) (input : Unit) : (a : ClientAction ε τ) → Decidable (Orderly s k input a)
  | .eraseSession _         => inferInstanceAs (Decidable (_ → _))
  | .eraseType _            => inferInstanceAs (Decidable (∀ _ ∈ _, _))
  | .storeType _ _          => inferInstanceAs (Decidable (_ → _))
  | .findOrCreateStream _ _ => isTrue trivial
  | .asyncConnect _         => isTrue trivial
  | .close _                => isTrue trivial
  | .closeCallback _        => isTrue trivial

/-- Whom a type still maps to when it is closed, `OnClosed` is to remove; and each type has one place. -/
structure Tidy (s : ClientThreads ε τ) : Prop where
  sorted : s.shared.sessionTypeMap.Pairwise fun p q => p.1 < q.1
  mapped : ∀ pair ∈ s.shared.sessionTypeMap, s.shared.closed pair.2 = true → Anywhere s.ops (ClientAction.erases pair.2)
  live   : s.shared.removedLive = false

/-! ## The type map -/

theorem mem_assign {type : τ} {session : Nat} {types : List (τ × Nat)} {pair : τ × Nat}
    (h : pair ∈ assign type session types) : pair = (type, session) ∨ pair ∈ types := by
  rcases (List.mem_orderedInsert _).1 h with heq | hmem
  · exact .inl heq
  · exact .inr (List.mem_of_mem_filter hmem)

theorem pairwise_orderedInsert {new : τ × Nat} : ∀ {types : List (τ × Nat)}, types.Pairwise (fun p q => p.1 < q.1) →
    (∀ p ∈ types, p.1 ≠ new.1) → (types.orderedInsert (fun p q => p.1 ≤ q.1) new).Pairwise fun p q => p.1 < q.1
  | [],         _, _    => by simp
  | p :: types, h, hnew => by
    obtain ⟨hp, htypes⟩ := List.pairwise_cons.1 h
    have hne := hnew p List.mem_cons_self
    rw [List.orderedInsert_cons]
    by_cases hle : new.1 ≤ p.1
    · rw [if_pos hle]
      refine List.pairwise_cons.2 ⟨fun q hq => ?_, h⟩
      have hlt : new.1 < p.1 := lt_of_le_of_ne hle hne.symm
      rcases List.mem_cons.1 hq with rfl | hq
      · exact hlt
      · exact hlt.trans (hp q hq)
    · rw [if_neg hle]
      refine List.pairwise_cons.2 ⟨fun q hq => ?_, pairwise_orderedInsert htypes fun q hq => hnew q (List.mem_cons_of_mem p hq)⟩
      rcases (List.mem_orderedInsert _).1 hq with rfl | hq
      · exact lt_of_not_ge hle
      · exact hp q hq

theorem pairwise_assign {types : List (τ × Nat)} (h : types.Pairwise fun p q => p.1 < q.1) (type : τ) (session : Nat) :
    (assign type session types).Pairwise fun p q => p.1 < q.1 := by
  refine pairwise_orderedInsert (h.sublist List.filter_sublist) fun p hp => ?_
  simpa using (List.mem_filter.1 hp).2

/-- What is found first in a map comes before all others. -/
theorem find?_le {types : List (τ × Nat)} (h : types.Pairwise fun p q => p.1 < q.1) {P : τ × Nat → Bool} {pair : τ × Nat}
    (hfind : types.find? P = some pair) {other : τ × Nat} (hother : other ∈ types) (hP : P other = true) :
    pair.1 ≤ other.1 := by
  obtain ⟨_, before, behind, rfl, hbefore⟩ := List.find?_eq_some_iff_append.1 hfind
  rcases List.mem_append.1 hother with hmem | hmem
  · have hnot := hbefore other hmem
    simp [hP] at hnot
  · rcases List.mem_cons.1 hmem with rfl | hmem
    · exact le_refl _
    · exact le_of_lt ((List.pairwise_cons.1 (List.pairwise_append.1 h).2.1).1 other hmem)

theorem nodup_keys {types : List (τ × Nat)} (h : types.Pairwise fun p q => p.1 < q.1) : (types.map Prod.fst).Nodup :=
  List.pairwise_map.2 (h.imp ne_of_lt)

variable {s : ClientThreads ε τ} {shared : ClientImpl ε τ} {ops : List (List (ClientAction ε τ))} {k : Nat} {input : Unit}
  {a : ClientAction ε τ} {rest pushed : List (ClientAction ε τ)}

/-- The type that `OnClosed` finds is the least of the endpoint. -/
theorem Tidy.findType_least (h : Tidy s) {session : Nat} {pair : τ × Nat} (hfind : s.shared.findType session = some pair) :
    pair ∈ s.shared.sessionTypeMap ∧ s.shared.endpoint pair.2 = s.shared.endpoint session ∧
      s.shared.LeastAt (s.shared.endpoint session) pair.1 := by
  have hat : s.shared.endpoint pair.2 = s.shared.endpoint session := by simpa using List.find?_some hfind
  exact ⟨List.mem_of_find?_eq_some hfind, hat, fun other hother hend => find?_le h.sorted hfind hother (decide_eq_true hend)⟩

/-! ## Steps -/

theorem Tidy.call (h : Tidy s) {c : ClientCall ε τ} {op : List (ClientAction ε τ)}
    (hcall : s.shared.call c = some (shared, op)) (hstarted : program.Started op s.ops ops) : Tidy ⟨shared, ops⟩ := by
  have hsame : shared = s.shared := by
    cases c with
    | connect type endpoint =>
      cases hcall
      rfl
    | close session =>
      simp only [ClientImpl.call] at hcall
      split at hcall <;> cases hcall
      rfl
  subst hsame
  refine ⟨h.sorted, fun pair hpair hclosed => ?_, h.live⟩
  obtain ⟨b, hb, herases⟩ := h.mapped pair hpair hclosed
  exact ⟨b, (hstarted.has b).2 (has_cons.2 (.inr hb)), herases⟩

omit [DecidableEq ε] in
/-- What changes neither what is closed nor the types, and removes nobody. -/
theorem Tidy.of_same (h : Tidy s) (hk : s.ops[k]? = some (a :: rest)) (hclosed : shared.closed = s.shared.closed)
    (htypes : shared.sessionTypeMap = s.shared.sessionTypeMap) (hlive : shared.removedLive = s.shared.removedLive)
    (herases : ∀ pair ∈ s.shared.sessionTypeMap, a.erases pair.2 = true → Anywhere (advance s.ops k pushed)
      (ClientAction.erases pair.2)) : Tidy ⟨shared, advance s.ops k pushed⟩ := by
  refine ⟨by rw [htypes]; exact h.sorted, fun pair hpair hpairClosed => ?_, hlive.trans h.live⟩
  dsimp only at hpair hpairClosed
  rw [htypes] at hpair
  rw [hclosed] at hpairClosed
  by_cases ha : a.erases pair.2 = true
  · exact herases pair hpair ha
  · exact (h.mapped pair hpair hpairClosed).advance hk (Bool.eq_false_iff.2 ha) pushed

theorem Tidy.act (h : Tidy s) (hk : s.ops[k]? = some (a :: rest)) (hQ : Orderly s k input a)
    (hact : s.shared.act input a = some (shared, pushed)) : Tidy ⟨shared, advance s.ops k pushed⟩ := by
  cases a with
  | findOrCreateStream type endpoint =>
    simp only [ClientImpl.act] at hact
    split at hact
    · split at hact <;> cases hact <;> exact h.of_same hk rfl rfl rfl fun _ _ ha => nomatch ha
    · cases hact
      exact h.of_same hk rfl rfl rfl fun _ _ ha => nomatch ha
  | asyncConnect session =>
    cases hact
    refine ⟨h.sorted, fun pair hpair hclosed => ?_, h.live⟩
    by_cases hpairSession : pair.2 = session
    · simp [hpairSession] at hclosed
    · simp only [Function.update_of_ne hpairSession] at hclosed
      exact (h.mapped pair hpair hclosed).advance hk rfl []
  | storeType type session =>
    cases hact
    refine ⟨pairwise_assign h.sorted type session, fun pair hpair hclosed => ?_, h.live⟩
    rcases mem_assign hpair with rfl | hpair
    · exact (hQ hclosed).advance hk rfl []
    · exact (h.mapped pair hpair hclosed).advance hk rfl []
  | close session =>
    simp only [ClientImpl.act] at hact
    split at hact <;> cases hact
    · exact h.of_same hk rfl rfl rfl fun _ _ ha => nomatch ha
    · refine ⟨h.sorted, fun pair hpair hclosed => ?_, h.live⟩
      by_cases hpairSession : pair.2 = session
      · exact .of_mem (List.mem_singleton_self _) (decide_eq_true hpairSession.symm) hk
      · simp only [Function.update_of_ne hpairSession] at hclosed
        exact (h.mapped pair hpair hclosed).advance hk rfl _
  | eraseSession session =>
    simp only [ClientImpl.act] at hact
    by_cases hother : (s.shared.sessionMap (s.shared.endpoint session)).any (fun other => !s.shared.closed other) = true
    · rw [if_pos hother] at hact
      cases hact
      apply h.of_same hk rfl rfl rfl
      have hnew : ∃ other ∈ s.shared.sessionMap (s.shared.endpoint session), s.shared.closed other = false := by
        simpa [Option.any_eq_true] using hother
      exact fun pair hpair ha => absurd (of_decide_eq_true ha).symm (hQ hnew pair hpair)
    · rw [if_neg hother] at hact
      cases hact
      refine h.of_same hk rfl rfl ?_ fun pair hpair ha => .of_mem (List.mem_singleton_self _) ha hk
      simp [Bool.eq_false_iff.2 hother]
  | eraseType session =>
    simp only [ClientImpl.act] at hact
    cases hfind : s.shared.findType session with
    | none      =>
      rw [hfind] at hact
      cases hact
      apply h.of_same hk rfl rfl rfl
      intro pair hpair ha
      have hnone := List.find?_eq_none.1 hfind pair hpair
      rw [← of_decide_eq_true ha] at hnone
      exact absurd (decide_eq_true rfl) hnone
    | some pair =>
      obtain ⟨hmem, hat, hleast⟩ := h.findType_least hfind
      have hclosed := (hQ pair hmem).2 hat hleast
      have hgone : ∀ other ∈ s.shared.sessionTypeMap.erase pair, other.2 ≠ session := by
        rintro other hother rfl
        have hmap := List.mem_of_mem_erase hother
        -- a type of the session is the least of the endpoint, and so is the one that is found
        have hkey := le_antisymm ((hQ other hmap).1 rfl pair hmem hat) (hleast other hmap rfl)
        have hnodup := nodup_keys h.sorted
        obtain rfl := List.inj_on_of_nodup_map hnodup hmap hmem hkey
        exact (List.Nodup.of_map _ hnodup).not_mem_erase hother
      rw [hfind] at hact
      cases hact
      refine ⟨h.sorted.sublist List.erase_sublist, fun other hother hotherClosed => ?_, ?_⟩
      · have hne : ClientAction.erases other.2 (.eraseType (ε := ε) (τ := τ) session) = false :=
          decide_eq_false fun heq => hgone other hother heq.symm
        exact (h.mapped other (List.mem_of_mem_erase hother) hotherClosed).advance hk hne _
      · simp [h.live, hclosed]
  | closeCallback session =>
    cases hact
    exact h.of_same hk rfl rfl rfl fun _ _ ha => nomatch ha

/-! ## Runs -/

/-- No type maps to a closed session whose `OnClosed` has returned, and `OnClosed` has removed none that was not closed. -/
def Consistent (s : ClientThreads ε τ) : Prop :=
  (∀ session, s.shared.closed session = true → ¬Anywhere s.ops (ClientAction.inOnClosed session) →
    ∀ pair ∈ s.shared.sessionTypeMap, pair.2 ≠ session) ∧ s.shared.removedLive = false

omit [DecidableEq ε] in
theorem Tidy.consistent (h : Tidy s) : Consistent s := by
  refine ⟨?_, h.live⟩
  rintro session hclosed hreturned pair hpair rfl
  obtain ⟨b, hb, herases⟩ := h.mapped pair hpair hclosed
  exact hreturned ⟨b, hb, ClientAction.inOnClosed_of_erases herases⟩

theorem tidy_preserves : Program.Preserves program Orderly (Tidy (ε := ε) (τ := τ)) where
  call := fun _ hs _ _ _ _ hcall hstarted => hs.call hcall hstarted
  act  := fun _ hs _ _ _ _ _ _ hk hQ hact => hs.act hk hQ hact

/-- **In a run in which the types of a session are the least of its endpoint, and no session is stored behind its
`OnClosed`, the maps stay consistent.** -/
theorem run_consistent (unbound : ε) (events : List (Event Unit (ClientCall ε τ)))
    (h : Along program.step (Program.AtAction Orderly) (init unbound) events) :
    Consistent (events.foldl program.step (init unbound)) :=
  (tidy_preserves.run events ⟨List.Pairwise.nil, fun _ hpair => absurd hpair List.not_mem_nil, rfl⟩ h).consistent

/-- Two sessions on two endpoints; one is closed, and its close callback connects again. -/
def reconnected : List (Event Unit (ClientCall Nat Nat)) :=
  ([.call (.connect 0 5), .call (.connect 1 6)] : List (Event Unit (ClientCall Nat Nat))) ++
    List.replicate 3 (Event.step 0 ()) ++ List.replicate 3 (Event.step 1 ()) ++
    [Event.call (ClientCall.close 0)] ++ List.replicate 3 (Event.step 2 ()) ++
    [Event.inside 2 (ClientCall.connect 0 5)] ++ List.replicate 4 (Event.step 2 ())

theorem run_consistent_reconnected : Consistent (reconnected.foldl program.step (init 0)) :=
  run_consistent 0 reconnected (by decide)

/-- Two types on one endpoint, of which only the first is removed. -/
theorem not_run_consistent : ¬∀ (unbound : Nat) (events : List (Event Unit (ClientCall Nat Nat))),
    Consistent (events.foldl program.step (init unbound)) := by
  intro h
  have hremoved := (h 0 <| List.flatten
    [[.call (.connect 0 5), .call (.connect 1 5)], List.replicate 3 (.step 0 ()), List.replicate 2 (.step 1 ()),
      [.call (.close 0)], List.replicate 4 (.step 2 ())]).1 0
  exact absurd rfl (hremoved (by decide) (by decide) (1, 0) (by decide))

end ClientImpl

end Gb
