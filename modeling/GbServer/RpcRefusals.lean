import GbServer.RpcSequences
/-!
# RpcRefusals — whether a request is sent that was refused

`StartTimer` completes a request with `InvalidRequest` where the object has no session or no timer, and returns; `Call`
goes on to send the request if there is a session.  A timer is given back by every completion and got by `SetSession` and
`SetTimeout`, so an object that is called again without these has a session and no timer.  A refused request is not sent
exactly if the object has no session when `Call` comes to its `Send` (`run_refusedNotSent_iff`): neither before nor from
the callback.  So it is where every object that is called with a session was given a timer again, and none gets a
session from its refusal to its `Send` (`Equipped`).

Every request is to be started, to be sent or was sent, once in all (`Once`).
-/
namespace Gb

open Run (Along recorded)
open Tally

namespace Action

def isRequest : Action → Bool
  | startTimer _ _ => true
  | send _ _       => true
  | _              => false

def starts (x : CallRun) : Action → Nat
  | startTimer run _ => run.one x
  | _                => 0

def sends (x : CallRun) : Action → Nat
  | send run _ => run.one x
  | _          => 0

theorem starts_of_not_request (x : CallRun) {a : Action} (h : a.isRequest = false) : a.starts x = 0 := by
  cases a <;> first | rfl | cases h

theorem sends_of_not_request (x : CallRun) {a : Action} (h : a.isRequest = false) : a.sends x = 0 := by
  cases a <;> first | rfl | cases h

end Action

namespace RpcSystem

/-! ## Requests that are to be made -/

/-- What the threads have to do, weighed. -/
def todo (s : RpcSystem) (w : Action → Nat) : Nat := tally (fun op : Thread × List Action => tally w op.2) s.ops

/-- How often a request was sent. -/
def sendings (s : RpcSystem) (x : CallRun) : Nat := tally (fun e => e.1.one x) s.sent

/-- Nothing is done about requests. -/
structure Silent (s t : RpcSystem) : Prop where
  todo : ∀ w : Action → Nat, (∀ a, a.isRequest = false → w a = 0) → t.todo w = s.todo w
  sent : t.sent = s.sent
  ops  : ∀ op ∈ t.ops, op ∈ s.ops ∨ ∀ a ∈ op.2, a.isRequest = true → ∃ op' ∈ s.ops, a ∈ op'.2.tail

namespace Silent

variable {s t : RpcSystem}

theorem books (hops : t.ops = s.ops) (hsent : t.sent = s.sent) : s.Silent t := by
  refine ⟨fun w _ => ?_, hsent, fun op hop => .inl (hops ▸ hop)⟩
  rw [RpcSystem.todo, hops]
  rfl

theorem begin (h : s.Silent t) (thread : Thread) {actions : List Action} (hactions : ∀ a ∈ actions, a.isRequest = false) :
    s.Silent (t.begin thread actions) := by
  refine ⟨fun w hw => ?_, h.sent, fun op hop => ?_⟩
  · have hnone : tally w actions = 0 := tally_eq_zero fun a ha => hw a (hactions a ha)
    have hbefore := h.todo w hw
    unfold RpcSystem.todo at hbefore ⊢
    unfold RpcSystem.begin
    rw [tally_cons, hnone, Nat.zero_add]
    exact hbefore
  · rcases List.mem_cons.1 hop with rfl | hop
    · refine .inr fun a ha hrequest => ?_
      rw [hactions a ha] at hrequest
      cases hrequest
    · exact h.ops op hop

theorem complete {c : CallId} {outcome : Outcome} {run : CallRun} (hc : s.complete c outcome = some (run, t)) :
    s.Silent t := by
  refine books (complete_frame hc).1 ?_
  unfold RpcSystem.complete at hc
  split at hc
  · simp only [Option.some.injEq, Prod.mk.injEq] at hc
    obtain ⟨_, rfl⟩ := hc
    rfl
  · cases hc

end Silent

theorem finish_quiet (run : CallRun) (outcome : Outcome) : ∀ a ∈ finish run outcome, a.isRequest = false := by
  simp [finish, Action.isRequest]

/-- An action that is none of a request does nothing about requests, and has none to follow. -/
theorem act_silent (s : RpcSystem) {a : Action} (ha : a.isRequest = false) :
    (s.act a).1.sent = s.sent ∧ ∀ b ∈ (s.act a).2, b.isRequest = false := by
  cases a with
  | startTimer run m     => cases ha
  | send run m           => cases ha
  | done c session m     =>
    rcases s.act_done_cases c session m with ⟨_, hact⟩ | ⟨rs, hc, hact⟩
    · rw [hact]
      exact ⟨rfl, fun _ hb => absurd hb List.not_mem_nil⟩
    · rw [hact]
      exact ⟨(Silent.complete hc).sent, finish_quiet _ _⟩
  | take c               => exact ⟨rfl, fun _ hb => absurd hb List.not_mem_nil⟩
  | stopTimer c          =>
    refine ⟨?_, fun _ hb => absurd hb List.not_mem_nil⟩
    simp only [act, stopTimer]
    split <;> rfl
  | callback run outcome => exact ⟨rfl, fun _ hb => absurd hb List.not_mem_nil⟩
  | postTimeout run      =>
    simp only [act]
    split
    · exact ⟨rfl, by simp [Action.isRequest]⟩
    · exact ⟨rfl, fun _ hb => absurd hb List.not_mem_nil⟩
  | post worker task     =>
    simp only [act]
    split
    · exact ⟨rfl, by simp [Action.isRequest]⟩
    · exact ⟨rfl, fun _ hb => absurd hb List.not_mem_nil⟩
  | enqueue worker task  => exact ⟨rfl, fun _ hb => absurd hb List.not_mem_nil⟩

theorem runTask_silent (s : RpcSystem) (worker : Nat) (task : RpcTask) :
    (s.runTask worker task).1.ops = s.ops ∧ (s.runTask worker task).1.sent = s.sent ∧
      ∀ a ∈ (s.runTask worker task).2, a.isRequest = false := by
  cases task with
  | response session m localSeq =>
    rcases s.runTask_response_cases worker session m localSeq with hrun | ⟨c, _, hrun⟩
    · rw [hrun]
      exact ⟨rfl, rfl, fun _ ha => absurd ha List.not_mem_nil⟩
    · rw [hrun]
      exact ⟨rfl, rfl, by simp [Action.isRequest]⟩
  | timeout run => exact ⟨rfl, rfl, by simp [runTask, finish, Action.isRequest]⟩
  | other n     => exact ⟨rfl, rfl, fun _ ha => absurd ha List.not_mem_nil⟩

/-- What is to do after an action. -/
theorem todo_acted {s : RpcSystem} {k : Nat} {thread : Thread} {a : Action} {rest : List Action}
    (hop : s.ops[k]? = some (thread, a :: rest)) (w : Action → Nat) :
    (s.step (.acted k)).todo w + w a = s.todo w + tally w (s.act a).2 := by
  have hset := tally_set (fun op : Thread × List Action => tally w op.2) (thread, (s.act a).2 ++ rest) hop
  simp only [tally_append, tally_cons] at hset
  simp only [step, hop, todo]
  omega

/-- The event does an action of a request. -/
def Requests (s : RpcSystem) (event : RpcEvent) : Prop :=
  ∃ k thread a rest, event = .acted k ∧ s.ops[k]? = some (thread, a :: rest) ∧ a.isRequest = true

/-- **Only calls and the actions of requests do anything about requests.** -/
theorem step_silent {s : RpcSystem} {event : RpcEvent} (hcall : ¬s.Calls event) (hrequest : ¬s.Requests event) :
    s.Silent (s.step event) := by
  cases event with
  | acted k =>
    rcases hop : s.ops[k]? with _ | ⟨thread, _ | ⟨a, rest⟩⟩
    · exact .books (by simp [step, hop]) (by simp [step, hop])
    · exact .books (by simp [step, hop]) (by simp [step, hop])
    · have ha : a.isRequest = false := Bool.eq_false_iff.2 fun h => hrequest ⟨k, thread, a, rest, rfl, hop, h⟩
      obtain ⟨hsent, hnext⟩ := s.act_silent ha
      refine ⟨fun w hw => ?_, by simpa [step, hop] using hsent, fun op hop' => ?_⟩
      · have htodo := todo_acted hop w
        rw [hw a ha, tally_eq_zero fun b hb => hw b (hnext b hb)] at htodo
        exact htodo
      · simp only [step, hop] at hop'
        rcases List.mem_or_eq_of_mem_set hop' with hop' | rfl
        · exact .inl hop'
        · refine .inr fun b hb hrequest' => ⟨_, List.mem_of_getElem? hop, ?_⟩
          rcases List.mem_append.1 hb with hb | hb
          · rw [hnext b hb] at hrequest'
            cases hrequest'
          · exact hb
  | called worker c m =>
    refine .books ?_ ?_ <;> unfold step <;> dsimp only <;> split
    · rename_i hmay
      cases hw : s.workers[worker]? with
      | none   => simp [callImpl, hw]
      | some w => exact absurd ⟨worker, c, m, rfl, hmay, by rw [hw]; rfl⟩ hcall
    · rfl
    · exact (s.callImpl_books worker c m).1
    · rfl
  | created =>
    unfold step
    dsimp only
    split <;> exact .books rfl rfl
  | changed worker event =>
    cases event <;> exact .books rfl rfl
  | posted worker n => exact .books rfl rfl
  | setSession c session => exact .books rfl rfl
  | setTimeout c hasSession => exact .books rfl rfl
  | cancelled thread c =>
    unfold step
    dsimp only
    cases hc : s.complete c .cancel with
    | none    => exact .books rfl rfl
    | some rs =>
      refine (Silent.complete hc).begin thread fun a ha => ?_
      rcases List.mem_cons.1 ha with rfl | ha
      · rfl
      · exact finish_quiet _ _ a ha
  | received io session m =>
    unfold step
    dsimp only
    split
    · exact (Silent.books rfl rfl).begin _ (by simp [Action.isRequest])
    · exact .books rfl rfl
  | fired k => exact .books rfl rfl
  | expired io k =>
    unfold step
    dsimp only
    cases s.waits[k]? with
    | none      => exact .books rfl rfl
    | some wait =>
      by_cases hfired : wait.fired
      · simp only [hfired, if_true]
        cases hc : { s with waits := s.waits.eraseIdx k }.complete wait.call .timeout with
        | none    => exact .books rfl rfl
        | some rs =>
          obtain ⟨htodo, hsent, hops⟩ := Silent.complete hc
          have hactions : ∀ a ∈ [Action.postTimeout rs.1], a.isRequest = false := by simp [Action.isRequest]
          have hexpired : s.Silent rs.2 := ⟨htodo, hsent, hops⟩
          exact hexpired.begin (.io io) hactions
      · simp only [hfired, if_false, Bool.false_eq_true]
        exact .books rfl rfl
  | worked worker k =>
    unfold step
    dsimp only
    cases hw : s.workers[worker]? with
    | none   => exact .books rfl rfl
    | some w =>
      dsimp only
      split
      · cases htask : w.events[k]? with
        | none      => exact .books rfl rfl
        | some task =>
          let popped := { s with workers := s.workers.modify worker fun w => { w with events := w.events.eraseIdx k } }
          obtain ⟨hops, hsent, hactions⟩ := popped.runTask_silent worker task
          have hpopped : s.Silent (popped.runTask worker task).1 := .books hops hsent
          exact hpopped.begin (.worker worker) hactions
      · exact .books rfl rfl

/-! ## Refusals -/

/-- The request that an event refuses: `StartTimer` finds no session or no timer, and completes it. -/
def refusal (s : RpcSystem) : RpcEvent → Option CallRun
  | .acted k =>
    match s.ops[k]? with
    | some (_, .startTimer run _ :: _) =>
      if ((s.calls run.1).session = none ∨ (s.calls run.1).timerHandle = false) ∧ (s.calls run.1).state = .pending then
        some run
      else none
    | _ => none
  | _        => none

/-- A refusal completes the object of the request with `InvalidRequest`. -/
theorem left_of_refusal {s : RpcSystem} {event : RpcEvent} {run : CallRun} (h : s.refusal event = some run) :
    (s.step event).left = ((run.1, (s.calls run.1).generation), .invalidRequest) :: s.left := by
  unfold refusal at h
  split at h
  · split at h
    · rename_i k thread run' m rest hop
      split at h
      · rename_i hrefused
        obtain rfl := Option.some.inj h
        simp [step, hop, act, hrefused.1, complete, hrefused.2, modifyCall]
      · cases h
    · cases h
  · cases h

def recordRefusal (s : RpcSystem) (event : RpcEvent) (refused : List CallRun) : List CallRun :=
  (s.refusal event).toList ++ refused

theorem sendings_send (s : RpcSystem) (run : CallRun) (m : Meta) (x : CallRun) :
    (s.send run m).sendings x = s.sendings x + if (s.calls run.1).session = none then 0 else run.one x := by
  unfold send sendings
  cases (s.calls run.1).session with
  | none         => rfl
  | some session =>
    simp only [tally_cons, reduceCtorEq, if_false]
    omega

/-- What is done about requests where one is started: it is refused, or comes to its `Send` all the same, or is sent. -/
theorem started_cases {s : RpcSystem} {k : Nat} {thread : Thread} {run : CallRun} {m : Meta} {rest : List Action}
    (hop : s.ops[k]? = some (thread, .startTimer run m :: rest)) :
    (∀ x, (s.step (.acted k)).todo (Action.starts x) + run.one x = s.todo (Action.starts x)) ∧
    ((∀ x, (s.step (.acted k)).todo (Action.sends x) = s.todo (Action.sends x) + run.one x) ∧
        (s.step (.acted k)).sent = s.sent ∧ (s.refusal (.acted k) = some run ∨ s.refusal (.acted k) = none) ∨
      (∀ x, (s.step (.acted k)).todo (Action.sends x) = s.todo (Action.sends x)) ∧
        (∀ x, (s.step (.acted k)).sendings x = s.sendings x + run.one x) ∧ s.refusal (.acted k) = none) := by
  have hstarts := fun x => todo_acted hop (Action.starts x)
  have hsends := fun x => todo_acted hop (Action.sends x)
  have hsent : (s.step (.acted k)).sent = (s.act (.startTimer run m)).1.sent := by simp [step, hop]
  by_cases hnone : (s.calls run.1).session = none ∨ (s.calls run.1).timerHandle = false
  · cases hc : s.complete run.1 .invalidRequest with
    | none    =>
      have hact : s.act (.startTimer run m) = (s, [.send run m]) := by simp [act, hnone, hc]
      have hpending : (s.calls run.1).state ≠ .pending := fun h => by simp [complete, h] at hc
      rw [hact] at hstarts hsends hsent
      refine ⟨fun x => by simpa [Action.starts] using hstarts x, .inl ⟨fun x => ?_, hsent, .inr ?_⟩⟩
      · simpa [Action.sends] using hsends x
      · simp [refusal, hop, hpending]
    | some rs =>
      have hact : s.act (.startTimer run m) = (rs.2, .take run.1 :: finish rs.1 .invalidRequest ++ [.send run m]) := by
        simp [act, hnone, hc]
      have hpending := (complete_eq hc).1
      rw [hact] at hstarts hsends hsent
      refine ⟨fun x => ?_, .inl ⟨fun x => ?_, hsent.trans (Silent.complete hc).sent, .inl ?_⟩⟩
      · simpa [Action.starts, finish] using hstarts x
      · simpa [Action.sends, finish] using hsends x
      · simp [refusal, hop, hnone, hpending]
  · have hsession : (s.calls run.1).session ≠ none := fun h => hnone (.inl h)
    have hact : s.act (.startTimer run m) = ({ s.cancelWaits run.1 with
        waits := ⟨run.1, false⟩ :: (s.cancelWaits run.1).waits }.send run m, []) := by simp [act, hnone]
    rw [hact] at hstarts hsends hsent
    refine ⟨fun x => by simpa [Action.starts] using hstarts x, .inr ⟨fun x => ?_, fun x => ?_, ?_⟩⟩
    · simpa [Action.sends] using hsends x
    · have hsendings := sendings_send { s.cancelWaits run.1 with
        waits := ⟨run.1, false⟩ :: (s.cancelWaits run.1).waits } run m x
      unfold sendings at hsendings ⊢
      rw [hsent, hsendings]
      simp [cancelWaits, hsession]
    · simp [refusal, hop, hnone]

/-- What is done about requests where one comes to its `Send`. -/
theorem sent_cases {s : RpcSystem} {k : Nat} {thread : Thread} {run : CallRun} {m : Meta} {rest : List Action}
    (hop : s.ops[k]? = some (thread, .send run m :: rest)) (x : CallRun) :
    (s.step (.acted k)).todo (Action.starts x) = s.todo (Action.starts x) ∧
      (s.step (.acted k)).todo (Action.sends x) + run.one x = s.todo (Action.sends x) ∧
      (s.step (.acted k)).sendings x = s.sendings x + if (s.calls run.1).session = none then 0 else run.one x := by
  refine ⟨?_, ?_, ?_⟩
  · simpa [Action.starts, act] using todo_acted hop (Action.starts x)
  · simpa [Action.sends, act] using todo_acted hop (Action.sends x)
  · rw [← s.sendings_send run m]
    simp [step, hop, act, sendings]

/-- A call has one request more to start. -/
theorem todo_called {s : RpcSystem} {worker : Nat} {c : CallId} {m : Meta} {w : Worker RpcTask}
    (hw : s.workers[worker]? = some w) (x : CallRun) :
    (s.callImpl worker c m).todo (Action.starts x) = s.todo (Action.starts x) +
        CallRun.one (c, (s.calls c).generation + 1) x ∧
      (s.callImpl worker c m).todo (Action.sends x) = s.todo (Action.sends x) := by
  constructor
  · simp [callImpl, hw, todo, RpcSystem.begin, Action.starts, modifyCall]
    omega
  · simp [callImpl, hw, todo, RpcSystem.begin, Action.sends, modifyCall]

/-! ## Once in all -/

/-- A system with the requests that it has refused. -/
abbrev RefusalRecord := RpcSystem × List CallRun

/-- Every request is to be started, to be sent or was sent, once in all; and none is refused before it is started. -/
structure Once (r : RefusalRecord) : Prop where
  once    : ∀ x, r.1.todo (Action.starts x) + r.1.todo (Action.sends x) + r.1.sendings x ≤ 1
  refused : ∀ x ∈ r.2, r.1.todo (Action.starts x) = 0
  future  : ∀ x : CallRun, (r.1.calls x.1).generation < x.2 → r.1.todo (Action.starts x) = 0 ∧
    r.1.todo (Action.sends x) = 0 ∧ r.1.sendings x = 0 ∧ x ∉ r.2

/-- No request that was refused has been sent. -/
def RefusedNotSent (r : RefusalRecord) : Prop := ∀ run ∈ r.2, ∀ e ∈ r.1.sent, e.1 ≠ run

/-- A refused request has no session when it comes to its `Send`. -/
def Sessionless (r : RefusalRecord) : Action → Prop
  | .send run _ => run ∈ r.2 → (r.1.calls run.1).session = none
  | _           => True

/-- The action that an event does finds no session for a refused request. -/
def SendsRefusedNowhere (r : RefusalRecord) : RpcEvent → Prop
  | .acted k => ∀ op ∈ r.1.ops[k]?, ∀ action ∈ op.2.head?, Sessionless r action
  | _        => True

theorem refusedNotSent_iff (r : RefusalRecord) : RefusedNotSent r ↔ ∀ run ∈ r.2, r.1.sendings run = 0 := by
  refine forall₂_congr fun run _ => ⟨fun h => ?_, fun h e he heq => ?_⟩
  · exact tally_eq_zero fun e he => one_of_ne (h e he)
  · have hle := le_tally (fun e : CallRun × SessionId × Nat => e.1.one run) he
    rw [heq, one_self] at hle
    unfold sendings at h
    omega

/-- The step of the record. -/
def recordedStep : RefusalRecord → RpcEvent → RefusalRecord := recorded step recordRefusal

namespace Once

variable {r : RefusalRecord}

theorem init : Once ({}, []) where
  once    := fun _ => Nat.zero_le _
  refused := fun _ hx => nomatch hx
  future  := fun _ _ => ⟨rfl, rfl, rfl, List.not_mem_nil⟩

theorem one_le_starts {s : RpcSystem} {k : Nat} {thread : Thread} {run : CallRun} {m : Meta} {rest : List Action}
    (hop : s.ops[k]? = some (thread, .startTimer run m :: rest)) : 1 ≤ s.todo (Action.starts run) := by
  have hle := le_tally (fun op : Thread × List Action => tally (Action.starts run) op.2) (List.mem_of_getElem? hop)
  simp only [tally_cons, Action.starts, one_self] at hle
  unfold todo
  omega

theorem one_le_sends {s : RpcSystem} {k : Nat} {thread : Thread} {run : CallRun} {m : Meta} {rest : List Action}
    (hop : s.ops[k]? = some (thread, .send run m :: rest)) : 1 ≤ s.todo (Action.sends run) := by
  have hle := le_tally (fun op : Thread × List Action => tally (Action.sends run) op.2) (List.mem_of_getElem? hop)
  simp only [tally_cons, Action.sends, one_self] at hle
  unfold todo
  omega

variable {s t : RpcSystem} {refused : List CallRun}

theorem silent (h : Once (s, refused)) (hsilent : s.Silent t) (hgen : ∀ c, (t.calls c).generation = (s.calls c).generation) :
    Once (t, refused) := by
  have hstarts := fun x => hsilent.todo (Action.starts x) fun _ => Action.starts_of_not_request x
  have hsends := fun x => hsilent.todo (Action.sends x) fun _ => Action.sends_of_not_request x
  have hsendings : ∀ x, t.sendings x = s.sendings x := fun x => by rw [sendings, hsilent.sent, sendings]
  constructor <;> dsimp only <;> simp only [hstarts, hsends, hsendings, hgen]
  · exact h.once
  · exact h.refused
  · exact h.future

theorem called (h : Once (s, refused)) {worker : Nat} {c : CallId} {m : Meta} {w : Worker RpcTask}
    (hw : s.workers[worker]? = some w) : Once (s.callImpl worker c m, refused) := by
  have htodo := fun x => todo_called (c := c) (m := m) hw x
  have hmade := callImpl_made c m hw
  have hsendings : ∀ x, (s.callImpl worker c m).sendings x = s.sendings x := fun x => by
    rw [sendings, (s.callImpl_books worker c m).1, sendings]
  -- the request of the call is one that there has not been
  have hnew := h.future (c, (s.calls c).generation + 1) (Nat.lt_succ_self _)
  have hgeneration : ∀ x : CallRun, ((s.callImpl worker c m).calls x.1).generation < x.2 →
      (s.calls x.1).generation < x.2 ∧ (c, (s.calls c).generation + 1) ≠ x := by
    rintro ⟨c', g⟩ hlt
    by_cases hc : c' = c
    · subst hc
      rw [hmade.generation] at hlt
      dsimp only at hlt
      refine ⟨by dsimp only; omega, fun heq => ?_⟩
      injection heq with _ hg
      omega
    · rw [hmade.others c' hc] at hlt
      exact ⟨hlt, fun heq => hc (congrArg Prod.fst heq).symm⟩
  constructor <;> dsimp only
  · intro x
    rw [(htodo x).1, (htodo x).2, hsendings]
    have hx := h.once x
    by_cases heq : (c, (s.calls c).generation + 1) = x
    · subst heq
      dsimp only at hnew
      rw [hnew.1, hnew.2.1, hnew.2.2.1, one_self]
    · rw [one_of_ne heq]
      exact hx
  · intro x hx
    have hne : (c, (s.calls c).generation + 1) ≠ x := fun heq => hnew.2.2.2 (heq ▸ hx)
    rw [(htodo x).1, one_of_ne hne]
    exact h.refused x hx
  · intro x hlt
    obtain ⟨hold, hne⟩ := hgeneration x hlt
    rw [(htodo x).1, (htodo x).2, hsendings, one_of_ne hne]
    exact h.future x hold

theorem started (h : Once (s, refused)) {k : Nat} {thread : Thread} {run : CallRun} {m : Meta} {rest : List Action}
    (hop : s.ops[k]? = some (thread, .startTimer run m :: rest))
    (hgen : ∀ c, ((s.step (.acted k)).calls c).generation = (s.calls c).generation) :
    Once (recordedStep (s, refused) (.acted k)) ∧
      (RefusedNotSent (recordedStep (s, refused) (.acted k)) ↔ RefusedNotSent (s, refused)) := by
  have hone := one_le_starts hop
  have hrun := h.once run
  have hnot : run ∉ refused := fun hmem => by
    have hzero := h.refused run hmem
    dsimp only at hzero
    omega
  rw [refusedNotSent_iff, refusedNotSent_iff]
  unfold recordedStep recorded recordRefusal
  dsimp only at hrun ⊢
  obtain ⟨hstarts, ⟨hsends, hsent, hrefusal⟩ | ⟨hsends, hsendings, hrefusal⟩⟩ := started_cases hop
  · have hsendings : ∀ x, (s.step (.acted k)).sendings x = s.sendings x := fun x => by rw [sendings, hsent, sendings]
    have hafter : ∀ x ∈ (s.refusal (.acted k)).toList ++ refused, x = run ∨ x ∈ refused := by
      intro x hx
      rcases List.mem_append.1 hx with hx | hx
      · rcases hrefusal with heq | heq
        · rw [heq] at hx
          exact .inl (List.mem_singleton.1 hx)
        · rw [heq] at hx
          cases hx
      · exact .inr hx
    refine ⟨⟨fun x => ?_, fun x hx => ?_, fun x hlt => ?_⟩, ?_⟩
    · have hx := h.once x
      have hx' := hstarts x
      dsimp only at hx ⊢
      rw [hsends, hsendings]
      omega
    · have hx' := hstarts x
      dsimp only
      rcases hafter x hx with rfl | hx
      · rw [one_self] at hx'
        omega
      · have hzero := h.refused x hx
        dsimp only at hzero
        omega
    · rw [hgen] at hlt
      obtain ⟨h₁, h₂, h₃, h₄⟩ := h.future x hlt
      have hx' := hstarts x
      have hne : run ≠ x := by
        rintro rfl
        dsimp only at h₁
        omega
      rw [one_of_ne hne] at hx'
      rw [hsends, hsendings, one_of_ne hne]
      refine ⟨hx'.trans h₁, h₂, h₃, fun hx => ?_⟩
      exact (hafter x hx).elim (fun heq => hne heq.symm) h₄
    · simp only [hsendings]
      refine ⟨fun hs x hx => hs x (List.mem_append_right _ hx), fun hs x hx => ?_⟩
      rcases hafter x hx with rfl | hx
      · omega
      · exact hs x hx
  · rw [hrefusal]
    refine ⟨⟨fun x => ?_, fun x hx => ?_, fun x hlt => ?_⟩, ?_⟩
    · have hx := h.once x
      have hx' := hstarts x
      dsimp only at hx ⊢
      rw [hsends, hsendings]
      omega
    · have hx' := hstarts x
      have hzero := h.refused x hx
      dsimp only at hzero ⊢
      omega
    · rw [hgen] at hlt
      obtain ⟨h₁, h₂, h₃, h₄⟩ := h.future x hlt
      have hx' := hstarts x
      have hne : run ≠ x := by
        rintro rfl
        dsimp only at h₁
        omega
      rw [one_of_ne hne] at hx'
      rw [hsends, hsendings, one_of_ne hne]
      exact ⟨hx'.trans h₁, h₂, h₃, h₄⟩
    · simp only [hsendings]
      refine forall₂_congr fun x hx => ?_
      have hne : run ≠ x := fun heq => hnot (heq ▸ hx)
      rw [one_of_ne hne, Nat.add_zero]

theorem sent (h : Once (s, refused)) {k : Nat} {thread : Thread} {run : CallRun} {m : Meta} {rest : List Action}
    (hop : s.ops[k]? = some (thread, .send run m :: rest))
    (hgen : ∀ c, ((s.step (.acted k)).calls c).generation = (s.calls c).generation) :
    Once (s.step (.acted k), refused) ∧
      (RefusedNotSent (s.step (.acted k), refused) ↔ RefusedNotSent (s, refused) ∧ Sessionless (s, refused) (.send run m)) := by
  have hone := one_le_sends hop
  have hcases := sent_cases hop
  have hle : ∀ x, (if (s.calls run.1).session = none then 0 else run.one x) ≤ run.one x := fun x => by
    split <;> omega
  rw [refusedNotSent_iff, refusedNotSent_iff]
  refine ⟨⟨fun x => ?_, fun x hx => ?_, fun x hlt => ?_⟩, ?_⟩ <;> dsimp only
  · have hx := h.once x
    obtain ⟨h₁, h₂, h₃⟩ := hcases x
    have hx' := hle x
    dsimp only at hx
    omega
  · rw [(hcases x).1]
    exact h.refused x hx
  · rw [hgen] at hlt
    obtain ⟨h₁, h₂, h₃, h₄⟩ := h.future x hlt
    obtain ⟨h₁', h₂', h₃'⟩ := hcases x
    have hx' := hle x
    dsimp only at h₁ h₂ h₃
    exact ⟨by omega, by omega, by omega, h₄⟩
  · unfold Sessionless
    have hrun := h.once run
    have hsendings := fun x => (hcases x).2.2
    dsimp only at hrun
    simp only [hsendings]
    constructor
    · intro hs
      refine ⟨fun x hx => (Nat.add_eq_zero_iff.1 (hs x hx)).1, fun hmem => ?_⟩
      by_contra hsome
      have hzero := hs run hmem
      rw [if_neg hsome, one_self] at hzero
      omega
    · rintro ⟨hs, hnone⟩ x hx
      rw [hs x hx, Nat.zero_add]
      by_cases heq : run = x
      · rw [if_pos (hnone (heq ▸ hx))]
      · rw [one_of_ne heq]
        split <;> rfl

theorem refusal_of_not_requests {event : RpcEvent} (h : ¬s.Requests event) : s.refusal event = none := by
  cases event with
  | acted k =>
    rcases hop : s.ops[k]? with _ | ⟨thread, _ | ⟨a, rest⟩⟩
    · simp [refusal, hop]
    · simp [refusal, hop]
    · cases a with
      | startTimer run m => exact absurd ⟨k, thread, _, rest, rfl, hop, rfl⟩ h
      | _                => simp [refusal, hop]
  | _       => rfl

theorem nowhere_of_not_requests {event : RpcEvent} (h : ¬s.Requests event) : SendsRefusedNowhere (s, refused) event := by
  cases event with
  | acted k =>
    rintro ⟨thread, actions⟩ hop action haction
    cases actions with
    | nil         => cases haction
    | cons a rest =>
      obtain rfl := Option.some.inj haction
      cases a with
      | send run m => exact absurd ⟨k, thread, _, rest, rfl, hop, rfl⟩ h
      | _          => exact trivial
  | _       => trivial

/-- **A step keeps refused requests from being sent exactly if it finds no session for one.** -/
theorem step_iff (h : Once (s, refused)) (event : RpcEvent) :
    Once (recordedStep (s, refused) event) ∧
      (RefusedNotSent (recordedStep (s, refused) event) ↔
        RefusedNotSent (s, refused) ∧ SendsRefusedNowhere (s, refused) event) := by
  by_cases hcall : s.Calls event
  · obtain ⟨worker, c, m, rfl, hmay, hworker⟩ := hcall
    obtain ⟨w, hw⟩ := Option.isSome_iff_exists.1 hworker
    have hstep : recordedStep (s, refused) (.called worker c m) = (s.callImpl worker c m, refused) := by
      simp [recordedStep, recorded, recordRefusal, refusal, step, hmay]
    rw [hstep]
    refine ⟨h.called hw, ?_⟩
    unfold RefusedNotSent
    dsimp only
    rw [(s.callImpl_books worker c m).1]
    exact (and_iff_left trivial).symm
  · have hgen := (step_recedes hcall).generation
    by_cases hrequest : s.Requests event
    · obtain ⟨k, thread, a, rest, rfl, hop, ha⟩ := hrequest
      have hnowhere : SendsRefusedNowhere (s, refused) (.acted k) ↔ Sessionless (s, refused) a := by
        simp [SendsRefusedNowhere, hop]
      rw [hnowhere]
      cases a with
      | startTimer run m =>
        obtain ⟨honce, hiff⟩ := h.started hop hgen
        exact ⟨honce, hiff.trans (and_iff_left trivial).symm⟩
      | send run m       =>
        have hstep : recordedStep (s, refused) (.acted k) = (s.step (.acted k), refused) := by
          simp [recordedStep, recorded, recordRefusal, refusal, hop]
        rw [hstep]
        exact h.sent hop hgen
      | _                => cases ha
    · have hsilent := step_silent hcall hrequest
      have hrefusal := refusal_of_not_requests hrequest
      have hnowhere : SendsRefusedNowhere (s, refused) event := nowhere_of_not_requests hrequest
      have hstep : recordedStep (s, refused) event = (s.step event, refused) := by
        simp [recordedStep, recorded, recordRefusal, hrefusal]
      rw [hstep]
      refine ⟨h.silent hsilent hgen, ?_⟩
      unfold RefusedNotSent
      dsimp only
      rw [hsilent.sent]
      exact (and_iff_left hnowhere).symm

end Once

/-! ## Where the sessions come from -/

theorem modifyCall_session (s : RpcSystem) (c : CallId) {f : RpcCall → RpcCall}
    (hf : ∀ call, (f call).session = call.session) (c' : CallId) :
    ((s.modifyCall c f).calls c').session = (s.calls c').session := by
  by_cases hc : c' = c
  · subst hc
    simp [modifyCall, hf]
  · simp [modifyCall, hc]

theorem complete_session {s t : RpcSystem} {c : CallId} {outcome : Outcome} {run : CallRun}
    (hc : s.complete c outcome = some (run, t)) (c' : CallId) : (t.calls c').session = (s.calls c').session := by
  unfold complete at hc
  split at hc
  · simp only [Option.some.injEq, Prod.mk.injEq] at hc
    obtain ⟨_, rfl⟩ := hc
    exact s.modifyCall_session c (f := fun call => { call with state := outcome.state }) (fun _ => rfl) c'
  · cases hc

theorem act_session (s : RpcSystem) (a : Action) (c : CallId) : ((s.act a).1.calls c).session = (s.calls c).session := by
  cases a with
  | startTimer run m =>
    rcases s.act_startTimer_cases run m with hact | ⟨rs, hc, hact⟩ | hact
    · rw [hact]
    · rw [hact]
      exact complete_session hc c
    · obtain ⟨_, _, _, hcalls⟩ :=
        { s.cancelWaits run.1 with waits := ⟨run.1, false⟩ :: (s.cancelWaits run.1).waits }.send_books run m
      rw [hact, hcalls]
      rfl
  | send run m           =>
    have hcalls := (s.send_books run m).2.2.2
    simp [act, hcalls]
  | done c' session m    =>
    rcases s.act_done_cases c' session m with ⟨_, hact⟩ | ⟨rs, hc, hact⟩
    · rw [hact]
    · rw [hact]
      exact complete_session hc c
  | stopTimer c'         =>
    simp only [act, stopTimer]
    split
    · exact (s.cancelWaits c').modifyCall_session c' (f := fun call => { call with timerHandle := false })
        (fun _ => rfl) c
    · rfl
  | postTimeout run      =>
    simp only [act]
    split <;> rfl
  | post worker task     =>
    simp only [act]
    split <;> rfl
  | _                    => rfl

theorem runTask_calls (s : RpcSystem) (worker : Nat) (task : RpcTask) : (s.runTask worker task).1.calls = s.calls := by
  cases task with
  | response session m localSeq =>
    rcases s.runTask_response_cases worker session m localSeq with hrun | ⟨_, _, hrun⟩ <;> rw [hrun]
  | _ => rfl

/-- **Only `SetSession` changes the session of a call.** -/
theorem step_session {s : RpcSystem} {event : RpcEvent} (hset : ∀ c session, event ≠ .setSession c session) (c : CallId) :
    ((s.step event).calls c).session = (s.calls c).session := by
  cases event with
  | setSession c' session    => exact absurd rfl (hset c' session)
  | setTimeout c' hasSession =>
    exact s.modifyCall_session c'
      (f := fun call => { call with timerHandle := call.timerHandle || (call.session.isSome && hasSession) })
      (fun _ => rfl) c
  | called worker c' m       =>
    simp only [step, callImpl]
    split
    · split
      · exact modifyCall_session _ c' (f := fun call => { call with
          id := _, workerIndex := worker, localSeq := _, state := .pending, generation := call.generation + 1 })
          (fun _ => rfl) c
      · rfl
    · rfl
  | cancelled thread c'      =>
    unfold step
    dsimp only
    cases hc : s.complete c' .cancel with
    | none    => rfl
    | some rs => exact complete_session hc c
  | expired io k             =>
    unfold step
    dsimp only
    cases s.waits[k]? with
    | none      => rfl
    | some wait =>
      by_cases hfired : wait.fired
      · simp only [hfired, if_true]
        cases hc : { s with waits := s.waits.eraseIdx k }.complete wait.call .timeout with
        | none    => rfl
        | some rs => exact complete_session hc c
      · simp only [hfired, if_false, Bool.false_eq_true]
  | worked worker k          =>
    unfold step
    dsimp only
    cases s.workers[worker]? with
    | none   => rfl
    | some w =>
      dsimp only
      split
      · cases w.events[k]? with
        | none      => rfl
        | some task =>
          let popped := { s with workers := s.workers.modify worker fun w => { w with events := w.events.eraseIdx k } }
          exact congrArg (fun calls => (calls c).session) (popped.runTask_calls worker task)
      · rfl
  | acted k                  =>
    unfold step
    dsimp only
    split
    · exact s.act_session _ c
    · rfl
  | changed worker event     => cases event <;> rfl
  | created                  =>
    simp only [step]
    split <;> rfl
  | received io session m    =>
    simp only [step]
    split <;> rfl
  | _                        => rfl

/-! ## Sessions with timers -/

/-- The object of a request that starts has a timer if it has a session. -/
def Armed (s : RpcSystem) : Action → Prop
  | .startTimer run _ => (s.calls run.1).session ≠ none → (s.calls run.1).timerHandle = true
  | _                 => True

/-- The action is not the `Send` of a refused request of the object. -/
def Spares (r : RefusalRecord) (c : CallId) : Action → Prop
  | .send run _ => run ∈ r.2 → run.1 ≠ c
  | _           => True

instance (s : RpcSystem) (a : Action) : Decidable (s.Armed a) := by
  cases a <;> unfold Armed <;> infer_instance

instance (r : RefusalRecord) (c : CallId) (a : Action) : Decidable (Spares r c a) := by
  cases a <;> unfold Spares <;> infer_instance

/-- Where a request starts, an object with a session has a timer; and an object gets no session while a refused request of
it is to come to its `Send`. -/
def Equipped (r : RefusalRecord) : RpcEvent → Prop
  | .acted k              => ∀ op ∈ r.1.ops[k]?, ∀ action ∈ op.2.head?, r.1.Armed action
  | .setSession c session => session ≠ none → ∀ op ∈ r.1.ops, ∀ action ∈ op.2, Spares r c action
  | _                     => True

instance (r : RefusalRecord) (event : RpcEvent) : Decidable (Equipped r event) := by
  cases event <;> unfold Equipped <;> infer_instance

/-- The objects of the refused requests that are still to come to their `Send` have no sessions. -/
def Unsendable (r : RefusalRecord) : Prop :=
  ∀ op ∈ r.1.ops, ∀ run m, .send run m ∈ op.2 → run ∈ r.2 → (r.1.calls run.1).session = none

namespace Unsendable

variable {s : RpcSystem} {refused : List CallRun}

theorem init : Unsendable ({}, []) := fun _ _ _ _ _ hrun => nomatch hrun

/-- A request that is refused has no session, if an object that has a session has a timer. -/
theorem session_of_refusal {event : RpcEvent} (h : Equipped (s, refused) event) {run : CallRun}
    (hrun : s.refusal event = some run) : (s.calls run.1).session = none := by
  unfold refusal at hrun
  split at hrun
  · split at hrun
    · rename_i k thread run' m rest hop
      split at hrun
      · rename_i hrefused
        obtain rfl := Option.some.inj hrun
        rcases hrefused.1 with hnone | htimer
        · exact hnone
        · by_contra hsome
          have hequipped := h _ hop _ rfl hsome
          dsimp only at hequipped
          rw [htimer] at hequipped
          cases hequipped
      · cases hrun
    · cases hrun
  · cases hrun

/-- A `Send` that is to do after a step was to do before it, or is that of the request that the step starts. -/
theorem mem_ops {event : RpcEvent} {op : Thread × List Action} (hop : op ∈ (s.step event).ops) {run : CallRun} {m : Meta}
    (hsend : .send run m ∈ op.2) : (∃ op' ∈ s.ops, .send run m ∈ op'.2) ∨
      ∃ k thread rest, event = .acted k ∧ s.ops[k]? = some (thread, .startTimer run m :: rest) := by
  by_cases hcall : s.Calls event
  · obtain ⟨worker, c, m', rfl, hmay, hworker⟩ := hcall
    obtain ⟨w, hw⟩ := Option.isSome_iff_exists.1 hworker
    simp only [RpcSystem.step, hmay, if_true, callImpl, hw] at hop
    rcases List.mem_cons.1 hop with rfl | hop
    · simp at hsend
    · exact .inl ⟨op, hop, hsend⟩
  · by_cases hrequest : s.Requests event
    · obtain ⟨k, thread, a, rest, rfl, hold, ha⟩ := hrequest
      simp only [RpcSystem.step, hold] at hop
      rcases List.mem_or_eq_of_mem_set hop with hop | rfl
      · exact .inl ⟨op, hop, hsend⟩
      · rcases List.mem_append.1 hsend with hnext | hrest
        · cases a with
          | startTimer run' m' =>
            obtain ⟨rfl, rfl⟩ : run = run' ∧ m = m' := by
              rcases s.act_startTimer_cases run' m' with hact | ⟨_, _, hact⟩ | hact <;> rw [hact] at hnext
              · simpa using hnext
              · simpa [finish] using hnext
              · cases hnext
            exact .inr ⟨k, thread, rest, rfl, hold⟩
          | send run' m'       => cases hnext
          | _                  => cases ha
        · exact .inl ⟨_, List.mem_of_getElem? hold, List.mem_cons_of_mem a hrest⟩
    · rcases (step_silent hcall hrequest).ops op hop with hop | hops
      · exact .inl ⟨op, hop, hsend⟩
      · obtain ⟨op', hop', hmem⟩ := hops _ hsend rfl
        exact .inl ⟨op', hop', List.mem_of_mem_tail hmem⟩

theorem step (h : Unsendable (s, refused)) (honce : Once (s, refused)) (event : RpcEvent) (hequipped : Equipped (s, refused) event) :
    Unsendable (recordedStep (s, refused) event) := by
  intro op hop run m hsend hrun
  have hrefused : s.refusal event = some run ∨ run ∈ refused :=
    (List.mem_append.1 hrun).imp_left Option.mem_toList.1
  rcases mem_ops (s := s) hop hsend with ⟨op', hop', hsend'⟩ | ⟨k, thread, rest, rfl, hstart⟩
  · have hnone : (s.calls run.1).session = none :=
      hrefused.elim (session_of_refusal hequipped) (h op' hop' run m hsend')
    have hkept : (∀ c session, event ≠ .setSession c session) → ((s.step event).calls run.1).session = none :=
      fun hset => (step_session hset run.1).trans hnone
    cases event with
    | setSession c session =>
      have hold : run ∈ refused := hrefused.resolve_left (nomatch ·)
      by_cases hc : run.1 = c
      · have hsession : session = none := by
          by_contra hsome
          exact hequipped hsome op' hop' _ hsend' hold hc
        simp [recordedStep, recorded, RpcSystem.step, modifyCall, hc, hsession]
      · simpa [recordedStep, recorded, RpcSystem.step, modifyCall, hc] using hnone
    | _                    => exact hkept (by simp)
  · have hnone : (s.calls run.1).session = none := by
      rcases hrefused with hrefusal | hmem
      · exact session_of_refusal hequipped hrefusal
      · have hzero : s.todo (Action.starts run) = 0 := honce.refused run hmem
        have hone := Once.one_le_starts hstart
        omega
    exact (step_session (by simp) run.1).trans hnone

theorem nowhere (h : Unsendable (s, refused)) (event : RpcEvent) : SendsRefusedNowhere (s, refused) event := by
  cases event with
  | acted k =>
    rintro op hop action haction
    cases action with
    | send run m => exact fun hmem => h op (List.mem_of_getElem? hop) run m (List.mem_of_mem_head? haction) hmem
    | _          => trivial
  | _       => trivial

end Unsendable

/-- **In every run, no refused request is sent if and only if no refused request has a session when it comes to its
`Send`; and none is sent in a run where every object that is called with a session has a timer, and gets no session from
its refusal to its `Send`.** -/
theorem run_refusedNotSent_iff (events : List RpcEvent) :
    (RefusedNotSent (events.foldl recordedStep ({}, [])) ↔ Along recordedStep SendsRefusedNowhere ({}, []) events) ∧
      (Along recordedStep Equipped ({}, []) events → RefusedNotSent (events.foldl recordedStep ({}, []))) := by
  have hiff : RefusedNotSent (events.foldl recordedStep ({}, [])) ↔
      Along recordedStep SendsRefusedNowhere ({}, []) events := by
    have hrun := Run.foldl_iff (fun (_, _) event h => (Once.step_iff h event).1)
      (fun (_, _) event h => (Once.step_iff h event).2) events Once.init
    rw [hrun]
    exact and_iff_right fun _ hx => nomatch hx
  have hstep : ∀ (r : RefusalRecord) event, Once r ∧ Unsendable r → Equipped r event →
      Once (recordedStep r event) ∧ Unsendable (recordedStep r event) :=
    fun (_, _) event h hequipped => ⟨(Once.step_iff h.1 event).1, h.2.step h.1 event hequipped⟩
  refine ⟨hiff, fun hequipped => hiff.2 ?_⟩
  exact Run.along_of_inv hstep (fun (_, _) event h _ => h.2.nowhere event) events ⟨.init, .init⟩ hequipped

/-- An object without a session is called, and again when it has one. -/
def calledWithout : List RpcEvent :=
  [.created, .called 0 0 .init] ++ List.replicate 5 (.acted 0) ++ [.setSession 0 (some 5), .called 0 0 .init, .acted 0]

theorem run_refusedNotSent_calledWithout : Along recordedStep Equipped ({}, []) calledWithout ∧
    (calledWithout.foldl recordedStep ({}, [])).2 = [(0, 1)] ∧
    (calledWithout.foldl recordedStep ({}, [])).1.sent = [((0, 2), 5, 2 ^ 32 * 2)] ∧
    RefusedNotSent (calledWithout.foldl recordedStep ({}, [])) := by
  have hequipped : Along recordedStep Equipped ({}, []) calledWithout := by decide
  exact ⟨hequipped, rfl, rfl, (run_refusedNotSent_iff calledWithout).2 hequipped⟩

/-- A request and its response, and a second request of the same object: it has its session still, and has given its timer
back. -/
def calledAgain : List RpcEvent :=
  answered 5 ++ [.acted 0, .acted 0, .called 0 0 .init] ++ List.replicate 5 (.acted 0)

theorem not_run_refusedNotSent : ¬∀ events : List RpcEvent, RefusedNotSent (events.foldl recordedStep ({}, [])) := by
  intro h
  have hrefused : (calledAgain.foldl recordedStep ({}, [])).2 = [(0, 2)] := rfl
  have hsent : (calledAgain.foldl recordedStep ({}, [])).1.sent = [((0, 2), 5, 2 ^ 32 * 2), ((0, 1), 5, 2 ^ 32)] := rfl
  refine h calledAgain (0, 2) ?_ ((0, 2), 5, 2 ^ 32 * 2) ?_ rfl
  · rw [hrefused]
    exact List.mem_cons_self
  · rw [hsent]
    exact List.mem_cons_self

end RpcSystem

end Gb
