import GbServer.Lib.Interleaving
import Mathlib.Data.List.Range
import Mathlib.Logic.Function.Basic
/-!
# ServerStop — `Stop` and the thread that maintains the server

`ServerImpl` (`server.cpp`) with its `Listener`, `TimerWorker` and `IoWorker`s, from a successful `Start` on.  The threads
of the `IoWorker`s run one handler after another: the timer, on the maintenance thread, and what accepts and closes
sessions.  Other threads call `Stop`, `IsListening` and `ConnectionCount`, and so do the callbacks of the application, but
for `Stop`.

A mutex is held from the `lock` to the `unlock` of a thread; which code it protects is said by `ServerSection`.  The input
of a step says what the thread finds: the handler that is next, the clock, errors, how many sessions are closed.

`run_noDeadlock` is about runs in which the maintenance thread does not ask for `_start_stop_mutex` while `Stop` has it.
-/
namespace Gb

open Run (Along)
open Threads Interleaving

inductive ServerMutex
  | startStop
  | sessionSet
  | close
  | timer
  deriving DecidableEq

/-- The critical sections.  `isClose` has the time at which `TimerMaintain` looks. -/
inductive ServerSection
  | stop
  | restart
  | isListening
  | close
  | isClose (now : Option Nat)
  | stopSession
  | clearSession
  | connectionCount
  | insert
  | erase
  | copySessions
  | cancelTimer
  | expireTimer
  deriving DecidableEq

def ServerSection.mutex : ServerSection → ServerMutex
  | stop            => .startStop
  | restart         => .startStop
  | isListening     => .startStop
  | close           => .close
  | isClose _       => .close
  | stopSession     => .sessionSet
  | clearSession    => .sessionSet
  | connectionCount => .sessionSet
  | insert          => .sessionSet
  | erase           => .sessionSet
  | copySessions    => .sessionSet
  | cancelTimer     => .timer
  | expireTimer     => .timer

inductive IoHandler
  | onTimeout
  | onAccept
  | onClosed

inductive ServerQuery
  | isListening
  | connectionCount
  deriving DecidableEq

structure ServerInput where
  handler   : IoHandler := .onTimeout
  now       : Nat := 0
  aborted   : Bool := false
  listens   : Bool := true
  maintains : Bool := true
  closes    : Nat := 0
  error     : Bool := false
  limited   : Bool := false
  full      : Bool := false
  queries   : List ServerQuery := []

/-- Worker `0` is the maintenance thread. -/
inductive ServerAction
  | lock (part : ServerSection)
  | unlock (mutex : ServerMutex)
  | stop
  | stopTimer
  | stopWorker (worker : Nat)
  | joinWorker (worker : Nat)
  | run (worker : Nat)
  | onTimeout
  | restartTest (closed : Bool) (now : Nat)
  | reStartListen
  | startListen
  | isListening
  | maintain
  | closeSessions
  | onAccept
  | onAccepted
  | accept
  | onClosed
  | callback
  deriving DecidableEq

inductive StopCall
  | stop
  | isListening
  | connectionCount

structure ServerImpl where
  kcp                    : Bool
  poolSize               : Nat
  isRuning               : Bool := true
  timerRuning            : Bool := true
  closed                 : Bool := false
  lastRestartListenTicks : Nat := 0
  locked                 : ServerMutex → Bool := fun _ => false
  stopped                : Nat → Bool := fun _ => false
  ended                  : Nat → Bool := fun _ => false

namespace ServerImpl

variable (s : ServerImpl)

def restartListenIntervalTicks : Nat := 3

/-- What a critical section does first, and what its thread does after it. -/
def enter (input : ServerInput) (part : ServerSection) : ServerImpl × List ServerAction × List ServerAction :=
  let held := { s with locked := Function.update s.locked part.mutex true }
  match part with
  | .stop               => (held, [.stop], [])
  | .restart            => (held, [.reStartListen], [])
  | .isListening        => (held, [.isListening], [])
  | .close              => ({ held with closed := true }, [], [])
  | .isClose (some now) => (held, [], [.restartTest s.closed now])
  | .stopSession        => (held, List.replicate input.closes .onClosed, [])
  | .copySessions       => (held, [], [.closeSessions])
  | _                   => (held, [], [])

def gracefulStop (worker : Nat) : List ServerAction := [.stopWorker worker, .joinWorker worker]

/-- `Stop` behind its test. -/
def stops : List ServerAction :=
  [.stopTimer, .lock .close, .lock .stopSession] ++ (List.range s.poolSize).flatMap (fun i => gracefulStop (i + 1)) ++
    gracefulStop 0 ++ [.lock .clearSession]

def handle (input : ServerInput) (worker : Nat) : List ServerAction :=
  match input.handler with
  | .onTimeout => if worker = 0 then [.onTimeout] else []
  | .onAccept  => [.onAccept]
  | .onClosed  => [.onClosed]

def ask : ServerQuery → ServerAction
  | .isListening     => .lock .isListening
  | .connectionCount => .lock .connectionCount

/-- An action waits for a mutex that is locked, and for a thread that has not ended. -/
def act (input : ServerInput) : ServerAction → Option (ServerImpl × List ServerAction)
  | .lock part              =>
    if s.locked part.mutex then none
    else
      let (entered, inside, after) := s.enter input part
      some (entered, inside ++ .unlock part.mutex :: after)
  | .unlock mutex           => some ({ s with locked := Function.update s.locked mutex false }, [])
  | .stop                   => if s.isRuning then some ({ s with isRuning := false }, s.stops) else some (s, [])
  | .stopTimer              =>
    if s.timerRuning then some ({ s with timerRuning := false }, [.lock .cancelTimer]) else some (s, [])
  | .stopWorker worker      => some ({ s with stopped := Function.update s.stopped worker true }, [])
  | .joinWorker worker      => if s.ended worker then some (s, []) else none
  | .run worker             =>
    if s.stopped worker then some ({ s with ended := Function.update s.ended worker true }, [])
    else some (s, handle input worker ++ [.run worker])
  | .onTimeout              =>
    if s.timerRuning then
      some (s, (if input.aborted then [] else [.lock (.isClose (some input.now)), .maintain]) ++ [.lock .expireTimer])
    else some (s, [])
  | .restartTest closed now =>
    if closed ∧ s.lastRestartListenTicks + restartListenIntervalTicks ≤ now then
      some ({ s with lastRestartListenTicks := now }, [.lock .restart])
    else some (s, [])
  | .reStartListen          => some (s, if s.isRuning then [.lock .close, .startListen] else [])
  | .startListen            => some ({ s with closed := s.kcp && !input.listens }, [])
  | .isListening            => some (s, if s.isRuning then [.lock (.isClose none)] else [])
  | .maintain               => some (s, if input.maintains then [.lock .copySessions] else [])
  | .closeSessions          => some (s, List.replicate input.closes .onClosed)
  | .onAccept               =>
    some (s, if s.closed then []
      else if input.error then (if s.kcp then [] else [.lock .close])
      else [.onAccepted])
  | .onAccepted             =>
    some (s, if s.isRuning then (if input.limited then [.lock .connectionCount] else []) ++ [.accept] else [.onClosed])
  | .accept                 => some (s, if input.full then [.onClosed] else [.lock .insert, .callback])
  | .onClosed               => some (s, if s.isRuning then [.callback, .lock .erase] else [])
  | .callback               => some (s, input.queries.map ask)

def call : StopCall → Option (ServerImpl × List ServerAction)
  | .stop            => some (s, [.lock .stop])
  | .isListening     => some (s, [.lock .isListening])
  | .connectionCount => some (s, [.lock .connectionCount])

def program : Program ServerImpl ServerInput StopCall ServerAction := ⟨act, call, fun _ => false⟩

/-- After `Start`. -/
def init (kcp : Bool) (poolSize : Nat) : State ServerImpl ServerAction :=
  ⟨{ kcp, poolSize }, (List.range (poolSize + 1)).map fun worker => [.run worker]⟩

end ServerImpl

namespace ServerAction

def asks : ServerAction → Bool
  | lock part => decide (part.mutex = .startStop)
  | _         => false

/-- A call of `Stop`, where it begins, tests and waits for the maintenance thread. -/
def stopping : ServerAction → Bool
  | lock .stop   => true
  | stop         => true
  | joinWorker 0 => true
  | _            => false

/-- Neither asks for `_start_stop_mutex` nor holds it or another, and is in no call of `Stop` that begins, tests or waits. -/
def plain : ServerAction → Bool
  | lock part    => decide (part.mutex ≠ .startStop)
  | unlock _     => false
  | stop         => false
  | joinWorker 0 => false
  | run _        => false
  | _            => true

theorem asks_of_plain {b : ServerAction} (h : b.plain = true) : b.asks = false := by
  cases b with
  | lock part => simpa [asks, plain] using h
  | _         => rfl

theorem stopping_of_plain {b : ServerAction} (h : b.plain = true) : b.stopping = false := by
  cases b with
  | lock part         => cases part <;> first | rfl | cases h
  | stop              => cases h
  | joinWorker worker => cases worker <;> first | rfl | cases h
  | _                 => rfl

end ServerAction

abbrev ServerThreads := State ServerImpl ServerAction

namespace ServerImpl

/-- Whether an action is followed by one that asks for `_start_stop_mutex`: the timer finds the listener closed for long
enough, or the application calls `IsListening`. -/
def asks (m : ServerImpl) (input : ServerInput) : ServerAction → Bool
  | .restartTest closed now => closed && decide (m.lastRestartListenTicks + restartListenIntervalTicks ≤ now)
  | .callback               => decide (.isListening ∈ input.queries)
  | _                       => false

/-- The condition on a step.  When `Stop` has found the server running, the maintenance thread is not about to lock
`_start_stop_mutex`, and it does not set about it before `Stop` has joined it. -/
def Clear (s : ServerThreads) (k : Nat) (input : ServerInput) (a : ServerAction) : Prop :=
  (a = .stop → s.shared.isRuning = true → ∀ op ∈ s.ops, .run 0 ∈ op → ∀ b ∈ op, b.asks = false) ∧
  (Has s.ops (.joinWorker 0) → .run 0 ∈ (s.ops[k]?).getD [] → s.shared.asks input a = false)

instance (s : ServerThreads) (k : Nat) (input : ServerInput) (a : ServerAction) : Decidable (Clear s k input a) :=
  inferInstanceAs (Decidable ((_ → _) ∧ (_ → _ → _)))

/-- `Stop` waits for the maintenance thread, which waits for a mutex that `Stop` holds. -/
def Deadlocked (s : ServerThreads) : Prop := ∃ part rest rest', .joinWorker 0 :: rest ∈ s.ops ∧
  .unlock part.mutex ∈ rest ∧ .lock part :: rest' ∈ s.ops ∧ .run 0 ∈ rest'

variable {s : ServerThreads} {m m' : ServerImpl} {shared : ServerImpl} {ops : List (List ServerAction)} {k : Nat}
  {input : ServerInput} {a : ServerAction} {rest pushed : List ServerAction}

/-! ## What a step leaves to do -/

theorem plain_handle {worker : Nat} {b : ServerAction} (h : b ∈ handle input worker) : b.plain = true := by
  unfold handle at h
  split at h
  · split at h
    · rw [List.mem_singleton.1 h]
      rfl
    · cases h
  all_goals
    rw [List.mem_singleton.1 h]
    rfl

theorem mem_stops {b : ServerAction} (h : b ∈ m.stops) : b.plain = true ∨ b = .joinWorker 0 := by
  simp only [stops, gracefulStop, List.mem_append, List.mem_cons, List.mem_flatMap, List.not_mem_nil, or_false] at h
  rcases h with (((rfl | rfl | rfl) | ⟨i, _, rfl | rfl⟩) | rfl | rfl) | rfl <;>
    simp [ServerAction.plain, ServerSection.mutex]

/-- What the first part of a critical section does, and what comes after it. -/
theorem plain_enter {part : ServerSection} {b : ServerAction} (h : b ∈ (m.enter input part).2.1 ∨ b ∈ (m.enter input part).2.2) :
    b.plain = true ∨ part = .stop ∧ b = .stop := by
  cases part with
  | stop      => exact .inr ⟨rfl, by simpa [enter] using h⟩
  | isClose now =>
    cases now <;> simp [enter] at h
    simp [h, ServerAction.plain]
  | _         => simp [enter] at h <;> simp [h, ServerAction.plain]

/-- **What an action is followed by**, other than what is plain. -/
theorem pushed_cases (h : m.act input a = some (m', pushed)) {b : ServerAction} (hb : b ∈ pushed) : b.plain = true ∨
    (∃ part, a = .lock part ∧ b = .unlock part.mutex) ∨ (a = .lock .stop ∧ b = .stop) ∨
    (a = .stop ∧ m.isRuning = true ∧ b = .joinWorker 0) ∨ (∃ worker, a = .run worker ∧ b = .run worker) ∨
    (m.asks input a = true ∧ (b = .lock .restart ∨ b = .lock .isListening)) := by
  cases a with
  | lock part =>
    simp only [ServerImpl.act] at h
    split at h
    · cases h
    · cases h
      rcases List.mem_append.1 hb with hb | hb
      · rcases plain_enter (.inl hb) with hplain | ⟨rfl, rfl⟩
        · exact .inl hplain
        · exact .inr (.inr (.inl ⟨rfl, rfl⟩))
      · rcases List.mem_cons.1 hb with rfl | hb
        · exact .inr (.inl ⟨part, rfl, rfl⟩)
        · rcases plain_enter (.inr hb) with hplain | ⟨rfl, rfl⟩
          · exact .inl hplain
          · exact .inr (.inr (.inl ⟨rfl, rfl⟩))
  | stop =>
    simp only [ServerImpl.act] at h
    by_cases hrunning : m.isRuning = true
    · rw [if_pos hrunning] at h
      cases h
      exact (mem_stops hb).imp_right fun hjoin => .inr (.inr (.inl ⟨rfl, hrunning, hjoin⟩))
    · rw [if_neg hrunning] at h
      cases h
      cases hb
  | run worker =>
    simp only [ServerImpl.act] at h
    split at h <;> cases h
    · cases hb
    · rcases List.mem_append.1 hb with hb | hb
      · exact .inl (plain_handle hb)
      · exact .inr (.inr (.inr (.inr (.inl ⟨worker, rfl, List.mem_singleton.1 hb⟩))))
  | restartTest closed now =>
    simp only [ServerImpl.act] at h
    split at h <;> cases h
    · refine .inr (.inr (.inr (.inr (.inr ⟨?_, .inl (List.mem_singleton.1 hb)⟩))))
      simpa [asks] using ‹_ ∧ _›
    · cases hb
  | callback =>
    cases h
    obtain ⟨query, hquery, rfl⟩ := List.mem_map.1 hb
    cases query with
    | isListening     => exact .inr (.inr (.inr (.inr (.inr ⟨decide_eq_true hquery, .inr rfl⟩))))
    | connectionCount => exact .inl rfl
  | stopTimer | joinWorker worker =>
    simp only [ServerImpl.act] at h
    split at h <;> cases h <;> simp at hb
    all_goals simp [hb, ServerAction.plain, ServerSection.mutex]
  | onTimeout =>
    simp only [ServerImpl.act] at h
    split at h <;> cases h
    · simp at hb
      rcases hb with ⟨_, rfl | rfl⟩ | rfl <;> exact .inl rfl
    · cases hb
  | _ =>
    cases h
    left
    revert hb
    simp [ServerAction.plain, ServerSection.mutex]
    try grind

/-! ## What `Stop` holds -/

/-- Where a thread begins `Stop`, tests or waits, it unlocks nothing but `_start_stop_mutex` afterwards. -/
def Ends : List ServerAction → Prop
  | []        => True
  | a :: rest => (a.stopping = true → ∀ mutex, .unlock mutex ∈ rest → mutex = .startStop) ∧ Ends rest

theorem Ends.append_plain : ∀ {l : List ServerAction}, (∀ b ∈ l, b.stopping = false) → Ends rest → Ends (l ++ rest)
  | [],     _, h => h
  | b :: l, hl, h => by
    refine ⟨fun hb => ?_, append_plain (fun c hc => hl c (List.mem_cons_of_mem b hc)) h⟩
    rw [hl b List.mem_cons_self] at hb
    cases hb

theorem Ends.append_stops (hrest : ∀ mutex, .unlock mutex ∈ rest → mutex = .startStop) (h : Ends rest) :
    ∀ {l : List ServerAction}, (∀ mutex, .unlock mutex ∉ l) → Ends (l ++ rest)
  | [],     _ => h
  | b :: l, hl => by
    have htail : ∀ mutex, .unlock mutex ∉ l := fun mutex hm => hl mutex (List.mem_cons_of_mem b hm)
    refine ⟨fun _ mutex hm => ?_, append_stops hrest h htail⟩
    rcases List.mem_append.1 hm with hm | hm
    · exact absurd hm (htail mutex)
    · exact hrest mutex hm

theorem Ends.act (h : Ends (a :: rest)) (hact : m.act input a = some (m', pushed)) : Ends (pushed ++ rest) := by
  by_cases hlock : a = .lock .stop
  · subst hlock
    simp only [ServerImpl.act] at hact
    split at hact
    · cases hact
    · cases hact
      exact ⟨fun _ mutex hm => by
        rcases List.mem_cons.1 hm with heq | hm
        · cases heq
          rfl
        · exact h.1 rfl mutex hm, ⟨fun hb => (nomatch hb), h.2⟩⟩
  · by_cases hstop : a = .stop
    · subst hstop
      simp only [ServerImpl.act] at hact
      split at hact <;> cases hact
      · apply append_stops (h.1 rfl) h.2
        intro mutex hm
        rcases mem_stops hm with hplain | heq
        · cases hplain
        · cases heq
      · exact h.2
    · apply append_plain _ h.2
      intro b hb
      rcases pushed_cases hact hb with hplain | ⟨_, _, rfl⟩ | ⟨heq, _⟩ | ⟨heq, _⟩ | ⟨_, _, rfl⟩ | ⟨_, rfl | rfl⟩
      · exact ServerAction.stopping_of_plain hplain
      · rfl
      · exact absurd heq hlock
      · exact absurd heq hstop
      all_goals rfl

/-- While `Stop` is to join the maintenance thread, that does not ask for the mutex. -/
structure Guarded (s : ServerThreads) : Prop where
  ends  : ∀ op ∈ s.ops, Ends op
  clear : Has s.ops (.joinWorker 0) → ∀ op ∈ s.ops, .run 0 ∈ op → ∀ b ∈ op, b.asks = false

theorem Guarded.call (h : Guarded s) {c : StopCall} {op : List ServerAction}
    (hcall : s.shared.call c = some (shared, op)) (hstarted : program.Started op s.ops ops) : Guarded ⟨shared, ops⟩ := by
  have hop : ∃ part, op = [.lock part] := by
    cases c <;> cases hcall <;> exact ⟨_, rfl⟩
  obtain ⟨part, rfl⟩ := hop
  have heach : ∀ o ∈ ops, o ∈ s.ops ∨ o = [.lock part] := by
    intro o ho
    rcases hstarted.each o ho with ho | ho | ⟨_, _, hcalls, _⟩
    · exact .inl ho
    · exact .inr ho
    · cases hcalls
  constructor
  · intro o ho
    rcases heach o ho with ho | rfl
    · exact h.ends o ho
    · exact ⟨fun _ mutex hm => (nomatch hm), trivial⟩
  · intro hjoin o ho hrun
    have hbefore : Has s.ops (.joinWorker 0) := by simpa using (hstarted.has _).1 hjoin
    rcases heach o ho with ho | rfl
    · exact h.clear hbefore o ho hrun
    · simp at hrun

theorem Guarded.act (h : Guarded s) (hk : s.ops[k]? = some (a :: rest)) (hQ : Clear s k input a)
    (hact : s.shared.act input a = some (shared, pushed)) : Guarded ⟨shared, advance s.ops k pushed⟩ := by
  have hmem := List.mem_of_getElem? hk
  constructor
  · intro op hop
    rcases mem_advance hk hop with rfl | hop
    · exact (h.ends _ hmem).act hact
    · exact h.ends op hop
  · intro hjoin
    -- `Stop` was to join the thread before, or it has just found the server running
    have hwas : Has s.ops (.joinWorker 0) ∨ a = .stop ∧ s.shared.isRuning = true := by
      rcases (has_advance hk).1 hjoin with hnew | hold
      · rcases pushed_cases hact hnew with hplain | ⟨_, _, heq⟩ | ⟨_, heq⟩ | ⟨rfl, hrunning, _⟩ | ⟨_, _, heq⟩ | ⟨_, heq | heq⟩
        · cases hplain
        · cases heq
        · cases heq
        · exact .inr ⟨rfl, hrunning⟩
        all_goals cases heq
      · exact .inl hold.of_advance
    have hclear : ∀ op ∈ s.ops, .run 0 ∈ op → ∀ b ∈ op, b.asks = false := by
      rcases hwas with hbefore | ⟨rfl, hrunning⟩
      · exact h.clear hbefore
      · exact hQ.1 rfl hrunning
    intro op hop hrun b hb
    rcases mem_advance hk hop with rfl | hop
    · have hrun' : .run 0 ∈ a :: rest := by
        rcases List.mem_append.1 hrun with hnew | hold
        · rcases pushed_cases hact hnew with hplain | ⟨_, _, heq⟩ | ⟨_, heq⟩ | ⟨_, _, heq⟩ | ⟨w, rfl, heq⟩ | ⟨_, heq | heq⟩
          · cases hplain
          all_goals cases heq
          exact List.mem_cons_self
        · exact List.mem_cons_of_mem a hold
      rcases List.mem_append.1 hb with hnew | hold
      · rcases pushed_cases hact hnew with hplain | ⟨_, _, rfl⟩ | ⟨_, rfl⟩ | ⟨_, _, rfl⟩ | ⟨_, _, rfl⟩ | ⟨hasks, _⟩
        · exact ServerAction.asks_of_plain hplain
        · rfl
        · rfl
        · rfl
        · rfl
        · rcases hwas with hbefore | ⟨rfl, _⟩
          · rw [hQ.2 hbefore (by rw [hk]; exact hrun')] at hasks
            cases hasks
          · cases hasks
      · exact hclear _ hmem hrun' b (List.mem_cons_of_mem a hold)
    · exact hclear op hop hrun b hb

theorem Guarded.not_deadlocked (h : Guarded s) : ¬Deadlocked s := by
  rintro ⟨part, rest, rest', hjoin, hunlock, hlock, hrun⟩
  have hheld := (h.ends _ hjoin).1 rfl _ hunlock
  have hasks := h.clear ⟨_, hjoin, List.mem_cons_self⟩ _ hlock (List.mem_cons_of_mem _ hrun) _ List.mem_cons_self
  simp [ServerAction.asks, hheld] at hasks

/-! ## Runs -/

theorem guarded_preserves : Program.Preserves program Clear Guarded where
  call := fun _ hs _ _ _ _ hcall hstarted => hs.call hcall hstarted
  act  := fun _ hs _ _ _ _ _ _ hk hQ hact => hs.act hk hQ hact

theorem guarded_init (kcp : Bool) (poolSize : Nat) : Guarded (init kcp poolSize) := by
  have hop : ∀ op ∈ (init kcp poolSize).ops, ∃ worker, op = [.run worker] := by
    intro op hop
    obtain ⟨worker, _, rfl⟩ := List.mem_map.1 hop
    exact ⟨worker, rfl⟩
  constructor
  · intro op hmem
    obtain ⟨worker, rfl⟩ := hop op hmem
    exact ⟨fun hb => (nomatch hb), trivial⟩
  · rintro ⟨op, hmem, hjoin⟩
    obtain ⟨worker, rfl⟩ := hop op hmem
    simp at hjoin

/-- **In a run in which the maintenance thread does not ask for the mutex that `Stop` holds until it has joined it, `Stop`
does not wait for a thread that waits for `Stop`.** -/
theorem run_noDeadlock (kcp : Bool) (poolSize : Nat) (events : List (Event ServerInput StopCall))
    (h : Along program.step (Program.AtAction Clear) (init kcp poolSize) events) :
    ¬Deadlocked (events.foldl program.step (init kcp poolSize)) :=
  (guarded_preserves.run events (guarded_init kcp poolSize) h).not_deadlocked

/-- The listener fails and is started again by the timer.  Then the server is stopped. -/
def restartedAndStopped : List (Event ServerInput StopCall) :=
  [.step 0 { handler := .onAccept }, .step 0 { error := true }] ++ List.replicate 19 (.step 0 { now := 3 }) ++ [.call .stop] ++
    List.replicate 12 (.step 2 {}) ++ [.step 1 {}] ++ List.replicate 2 (.step 2 {}) ++ [.step 0 {}] ++
    List.replicate 5 (.step 2 {})

theorem run_noDeadlock_restartedAndStopped : ¬Deadlocked (restartedAndStopped.foldl program.step (init false 1)) :=
  run_noDeadlock false 1 restartedAndStopped (by decide)

/-- The timer has found the listener closed when the server is stopped. -/
theorem not_run_noDeadlock : ¬∀ (kcp : Bool) (poolSize : Nat) (events : List (Event ServerInput StopCall)),
    ¬Deadlocked (events.foldl program.step (init kcp poolSize)) := by
  intro h
  apply h false 1 <| List.flatten
    [[.step 0 { handler := .onAccept }, .step 0 { error := true }], List.replicate 7 (.step 0 { now := 3 }), [.call .stop],
      List.replicate 12 (.step 2 {}), [.step 1 {}], List.replicate 2 (.step 2 {})]
  refine ⟨.restart, [.lock .clearSession, .unlock .startStop], [.maintain, .lock .expireTimer, .run 0], ?_⟩
  decide

end ServerImpl

end Gb
