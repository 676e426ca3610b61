import GbServer.RpcCompletion
/-!
# RpcAuthenticity — which responses complete a call

A `Response` names its call by a number, and nothing else of it is looked at: the call that a worker has waiting under
the number is completed, whichever session the message came on.  So the response that completes a call carries a number
that `CallImpl` gave to that call object, and in general no more is true of it.  Where the peers answer nothing but the
requests that were sent to them, and numbers and call objects are not given anew while they are in use, it came on the
session of the request (`run_authentic`).
-/
namespace Gb

open Run (Along)
open Tally

namespace SequenceId

theorem ofValue_value {worker seq : Nat} (hworker : worker < 2 ^ 32) (hseq : seq < 2 ^ 32) :
    ofValue (value ⟨worker, seq⟩) = ⟨worker, seq⟩ := by
  simp only [ofValue, value, mk.injEq]
  omega

theorem value_ofValue {n : Nat} (h : n < 2 ^ 64) : value (ofValue n) = n := by
  simp only [ofValue, value]
  omega

end SequenceId

theorem Meta.sequence_lt (m : Meta) : m.sequence < 2 ^ 64 := by
  have hle := Bytes.leNat_lt (Bytes.slice m.raw 22 8)
  have hlen : (Bytes.slice m.raw 22 8).length ≤ 8 := by simp [Bytes.slice]
  have hpow : 256 ^ (Bytes.slice m.raw 22 8).length ≤ 256 ^ 8 := Nat.pow_le_pow_right (by omega) hlen
  unfold Meta.sequence
  omega

namespace RpcSystem

/-! ## What a step does with responses -/

/-- A worker has the call waiting under a number. -/
def Waits (s : RpcSystem) (worker seq : Nat) (c : CallId) : Prop :=
  ∃ w, s.workers[worker]? = some w ∧ w.pendingRpcs seq = some c

/-- An operation is to complete the call with a response. -/
def Completing (s : RpcSystem) (c : CallId) (session : SessionId) (m : Meta) : Prop :=
  ∃ op ∈ s.ops, .done c session m ∈ op.2

/-- The indices of the workers and their counters have 32 bits. -/
def Small (s : RpcSystem) : Prop := s.workers.length ≤ 2 ^ 32 ∧ ∀ w ∈ s.workers, w.rpcSeqCounter < 2 ^ 32

/-- A change that gives no number, and lets no call wait that did not. -/
structure Keeps (s t : RpcSystem) : Prop where
  small      : s.Small → t.Small
  numbered   : t.numbered = s.numbered
  sent       : ∀ x ∈ s.sent, x ∈ t.sent
  taken      : t.taken = s.taken
  generation : ∀ c, (t.calls c).generation = (s.calls c).generation
  pending    : ∀ c, (t.calls c).state = .pending → (s.calls c).state = .pending
  waits      : ∀ worker seq c, t.Waits worker seq c → s.Waits worker seq c

/-- Such a change that also brings no response and completes no call with one. -/
structure Fades (s t : RpcSystem) : Prop extends Keeps s t where
  placed     : ∀ worker session m seq, t.Placed worker (.response session m seq) → s.Placed worker (.response session m seq)
  completing : ∀ c session m, t.Completing c session m → s.Completing c session m
  left       : ∀ run session m, (run, .response session m) ∈ t.left → (run, .response session m) ∈ s.left

/-- A step by what it does with responses. -/
inductive Course (s : RpcSystem) : RpcEvent → RpcSystem → Prop
  | fades {event : RpcEvent} {t : RpcSystem} (h : s.Fades t) : Course s event t
  | calls {worker : Nat} {c : CallId} {m : Meta} {w : Worker RpcTask} (hw : s.workers[worker]? = some w)
      (hmay : s.MayCall (.worker worker)) : Course s (.called worker c m) (s.callImpl worker c m)
  | receives {io : Nat} {session : SessionId} {m : Meta} (hmode : m.mode = MsgMode.response) :
      Course s (.received io session m) (s.begin (.io io)
        [.post (SequenceId.ofValue m.sequence).index (.response session m (SequenceId.ofValue m.sequence).seq)])
  | takes {event : RpcEvent} {t : RpcSystem} {worker seq : Nat} {c : CallId} {session : SessionId} {m : Meta}
      (hplaced : s.Placed worker (.response session m seq)) (hwaits : s.Waits worker seq c) (h : s.Fades t) (thread : Thread) :
      Course s event ({ t with taken :=
        if (s.calls c).state = RpcState.pending then ((c, (s.calls c).generation), session) :: t.taken else t.taken }.begin
          thread [.done c session m])
  | completes {event : RpcEvent} {t : RpcSystem} {c : CallId} {session : SessionId} {m : Meta}
      (hcompleting : s.Completing c session m) (hpending : (s.calls c).state = RpcState.pending) (h : s.Fades t) :
      Course s event { t with left := ((c, (s.calls c).generation), .response session m) :: t.left }

theorem complete_eq {s t : RpcSystem} {c : CallId} {outcome : Outcome} {run : CallRun}
    (h : s.complete c outcome = some (run, t)) : (s.calls c).state = .pending ∧ run = (c, (s.calls c).generation) ∧
      t.left = (run, outcome) :: s.left := by
  unfold complete at h
  split at h
  · simp only [Option.some.injEq, Prod.mk.injEq] at h
    obtain ⟨rfl, rfl⟩ := h
    exact ⟨‹_›, rfl, rfl⟩
  · cases h

namespace Keeps

variable {s t : RpcSystem}

theorem refl (s : RpcSystem) : s.Keeps s where
  small      := id
  numbered   := rfl
  sent       := fun _ h => h
  taken      := rfl
  generation := fun _ => rfl
  pending    := fun _ => id
  waits      := fun _ _ _ => id

/-- A change of the calls, the waits and what has happened. -/
theorem books (hworkers : t.workers = s.workers) (hnumbered : t.numbered = s.numbered) (hsent : ∀ x ∈ s.sent, x ∈ t.sent)
    (htaken : t.taken = s.taken) (hcalls : ∀ c, (t.calls c).generation = (s.calls c).generation ∧
      ((t.calls c).state = .pending → (s.calls c).state = .pending)) : s.Keeps t where
  small      := fun hs => by rwa [Small, hworkers]
  numbered   := hnumbered
  sent       := hsent
  taken      := htaken
  generation := fun c => (hcalls c).1
  pending    := fun c => (hcalls c).2
  waits      := fun worker seq c hc => by rwa [Waits, hworkers] at hc

theorem modifyCall (s : RpcSystem) (c : CallId) {f : RpcCall → RpcCall}
    (hf : ∀ call, (f call).generation = call.generation ∧ ((f call).state = .pending → call.state = .pending)) :
    s.Keeps (s.modifyCall c f) := by
  apply books (s := s) (t := s.modifyCall c f) rfl rfl (fun _ h => h) rfl
  intro c'
  unfold RpcSystem.modifyCall
  by_cases hc : c' = c
  · subst hc
    simp only [Function.update_self]
    exact hf _
  · simp [hc]

/-- A change of a worker, which may lose calls. -/
theorem modify (s : RpcSystem) (worker : Nat) {f : Worker RpcTask → Worker RpcTask}
    (hf : ∀ w, (f w).rpcSeqCounter = w.rpcSeqCounter ∧
      ∀ seq c, (f w).pendingRpcs seq = some c → w.pendingRpcs seq = some c) :
    s.Keeps { s with workers := s.workers.modify worker f } where
  small      := fun hs => by
    refine ⟨by simpa using hs.1, fun w hw => ?_⟩
    obtain ⟨j, hj⟩ := List.mem_iff_getElem?.1 hw
    obtain ⟨v, hold, ⟨_, rfl⟩ | ⟨_, rfl⟩⟩ := of_getElem?_modify hj
    · rw [(hf v).1]
      exact hs.2 v (List.mem_of_getElem? hold)
    · exact hs.2 w (List.mem_of_getElem? hold)
  numbered   := rfl
  sent       := fun _ h => h
  taken      := rfl
  generation := fun _ => rfl
  pending    := fun _ => id
  waits      := by
    rintro worker' seq c ⟨w, hw, hc⟩
    obtain ⟨v, hold, ⟨_, rfl⟩ | ⟨_, rfl⟩⟩ := of_getElem?_modify hw
    · exact ⟨v, hold, (hf v).2 seq c hc⟩
    · exact ⟨w, hold, hc⟩

theorem complete {c : CallId} {outcome : Outcome} {run : CallRun} (hc : s.complete c outcome = some (run, t)) :
    s.Keeps t := by
  obtain ⟨_, hworkers, hcalls⟩ := complete_frame hc
  unfold RpcSystem.complete at hc
  split at hc
  · simp only [Option.some.injEq, Prod.mk.injEq] at hc
    obtain ⟨_, rfl⟩ := hc
    apply books (s := s) hworkers rfl (fun _ h => h) rfl
    intro c'
    refine ⟨(hcalls c').1, fun hpending => ?_⟩
    by_cases hc' : c' = c
    · subst hc'
      assumption
    · simpa [RpcSystem.modifyCall, hc'] using hpending
  · cases hc

theorem stopTimer (s : RpcSystem) (c : CallId) : s.Keeps (s.stopTimer c) := by
  apply books
  · exact (s.stopTimer_books c).2.2
  all_goals unfold RpcSystem.stopTimer; split
  all_goals simp [RpcSystem.modifyCall, cancelWaits]
  intro c'
  by_cases hc : c' = c
  · subst hc
    simp
  · simp [hc]

theorem send (s : RpcSystem) (run : CallRun) (m : Meta) : s.Keeps (s.send run m) := by
  unfold RpcSystem.send
  split
  · exact books rfl rfl (fun _ h => List.mem_cons_of_mem _ h) rfl fun _ => ⟨rfl, id⟩
  · exact refl s

/-- **An action gives no number and lets no call wait.** -/
theorem act (s : RpcSystem) (a : Action) : s.Keeps (s.act a).1 := by
  cases a with
  | startTimer run m =>
    unfold RpcSystem.act
    dsimp only
    split
    · cases hc : s.complete run.1 .invalidRequest with
      | none    => exact refl s
      | some rs => exact complete hc
    · have hkeeps := send { s.cancelWaits run.1 with waits := ⟨run.1, false⟩ :: (s.cancelWaits run.1).waits } run m
      exact ⟨hkeeps.small, hkeeps.numbered, hkeeps.sent, hkeeps.taken, hkeeps.generation, hkeeps.pending, hkeeps.waits⟩
  | send run m => exact send s run m
  | done c session m =>
    unfold RpcSystem.act
    dsimp only
    cases hc : s.complete c (.response session m) with
    | none    => exact refl s
    | some rs => exact complete hc
  | take c =>
    apply modify
    refine fun w => ⟨rfl, fun seq c' hc => ?_⟩
    unfold Worker.takePendingRpc at hc
    by_cases hseq : seq = (s.calls c).localSeq
    · simp [hseq] at hc
    · simpa [hseq] using hc
  | stopTimer c => exact stopTimer s c
  | callback run outcome => exact books rfl rfl (fun _ h => h) rfl fun _ => ⟨rfl, id⟩
  | postTimeout run =>
    unfold RpcSystem.act
    dsimp only
    split <;> exact refl s
  | post worker task =>
    unfold RpcSystem.act
    dsimp only
    split <;> exact refl s
  | enqueue worker task => exact modify s worker fun _ => ⟨rfl, fun _ _ => id⟩

end Keeps

namespace Fades

variable {s t : RpcSystem}

/-- A change of the calls, the waits and what has happened. -/
theorem books (h : s.Keeps t) (hworkers : t.workers = s.workers) (hops : t.ops = s.ops)
    (hleft : ∀ run session m, (run, .response session m) ∈ t.left → (run, .response session m) ∈ s.left) : s.Fades t where
  toKeeps    := h
  placed     := fun worker session m seq hp => placed_congr hops hworkers hp
  completing := fun c session m hc => by rwa [Completing, hops] at hc
  left       := hleft

theorem refl (s : RpcSystem) : s.Fades s := books (.refl s) rfl rfl fun _ _ _ => id

theorem trans {u : RpcSystem} (h : s.Fades t) (h' : t.Fades u) : s.Fades u where
  small      := fun hs => h'.small (h.small hs)
  numbered   := h'.numbered.trans h.numbered
  sent       := fun x hx => h'.sent x (h.sent x hx)
  taken      := h'.taken.trans h.taken
  generation := fun c => (h'.generation c).trans (h.generation c)
  pending    := fun c hc => h.pending c (h'.pending c hc)
  waits      := fun worker seq c hc => h.waits worker seq c (h'.waits worker seq c hc)
  placed     := fun worker session m seq hp => h.placed worker session m seq (h'.placed worker session m seq hp)
  completing := fun c session m hc => h.completing c session m (h'.completing c session m hc)
  left       := fun run session m hl => h.left run session m (h'.left run session m hl)

theorem modifyCall (s : RpcSystem) (c : CallId) {f : RpcCall → RpcCall}
    (hf : ∀ call, (f call).generation = call.generation ∧ ((f call).state = .pending → call.state = .pending)) :
    s.Fades (s.modifyCall c f) :=
  books (.modifyCall s c hf) rfl rfl fun _ _ _ => id

/-- A change of a worker, which may lose tasks and calls. -/
theorem modify (s : RpcSystem) (worker : Nat) {f : Worker RpcTask → Worker RpcTask}
    (hf : ∀ w, (f w).rpcSeqCounter = w.rpcSeqCounter ∧
      ∀ seq c, (f w).pendingRpcs seq = some c → w.pendingRpcs seq = some c)
    (hevents : ∀ w session m seq, RpcTask.response session m seq ∈ (f w).events → .response session m seq ∈ w.events) :
    s.Fades { s with workers := s.workers.modify worker f } where
  toKeeps    := .modify s worker hf
  placed     := fun _ session m seq hp => placed_modify hp rfl rfl fun w => hevents w session m seq
  completing := fun _ _ _ => id
  left       := fun _ _ _ => id

theorem begin (h : s.Fades t) (thread : Thread) {actions : List Action}
    (hactions : ∀ session m, (∀ worker seq, .post worker (.response session m seq) ∉ actions ∧
      .enqueue worker (.response session m seq) ∉ actions) ∧ ∀ c, .done c session m ∉ actions) :
    s.Fades (t.begin thread actions) where
  toKeeps    := ⟨h.small, h.numbered, h.sent, h.taken, h.generation, h.pending, h.waits⟩
  placed     := fun worker session m seq hp => by
    rcases placed_begin hp with hp | hp | hp
    · exact h.placed worker session m seq hp
    · exact absurd hp ((hactions session m).1 worker seq).1
    · exact absurd hp ((hactions session m).1 worker seq).2
  completing := by
    rintro c session m ⟨op, hop, hdone⟩
    rcases List.mem_cons.1 hop with rfl | hop
    · exact absurd hdone ((hactions session m).2 c)
    · exact h.completing c session m ⟨op, hop, hdone⟩
  left       := h.left

/-- A call is completed otherwise than with a response. -/
theorem complete {c : CallId} {outcome : Outcome} {run : CallRun} (hc : s.complete c outcome = some (run, t))
    (houtcome : ∀ session m, outcome ≠ .response session m) : s.Fades t := by
  obtain ⟨hops, hworkers, _⟩ := complete_frame hc
  refine books (.complete hc) hworkers hops fun run' session m hl => ?_
  rw [(complete_eq hc).2.2] at hl
  rcases List.mem_cons.1 hl with hl | hl
  · simp only [Prod.mk.injEq] at hl
    exact absurd hl.2.symm (houtcome session m)
  · exact hl

/-- An action of an operation, but for what it completes. -/
theorem acted {k : Nat} {thread : Thread} {action : Action} {rest : List Action}
    (hop : s.ops[k]? = some (thread, action :: rest)) :
    s.Fades { (s.act action).1 with ops := s.ops.set k (thread, (s.act action).2 ++ rest), left := s.left } where
  toKeeps    := by
    have h := Keeps.act s action
    exact ⟨h.small, h.numbered, h.sent, h.taken, h.generation, h.pending, h.waits⟩
  placed     := by
    intro worker session m seq hp
    rcases placed_acted hop hp with hp | ⟨run, _, heq, _⟩
    · exact hp
    · cases heq
  completing := by
    rintro c session m ⟨op, hop', hdone⟩
    rcases List.mem_or_eq_of_mem_set hop' with hop' | rfl
    · exact ⟨op, hop', hdone⟩
    · rcases List.mem_append.1 hdone with hdone | hdone
      · exact absurd hdone ((s.act_frame action).next.2 c session m)
      · exact ⟨_, List.mem_of_getElem? hop, List.mem_cons_of_mem action hdone⟩
  left       := fun _ _ _ => id

end Fades

/-- What leaves `Pending` with an action: the call of a response that the action completes it with, or else not with a
response. -/
theorem act_left (s : RpcSystem) (a : Action) :
    (∀ run session m, (run, .response session m) ∈ (s.act a).1.left → (run, .response session m) ∈ s.left) ∨
      ∃ c session m, a = .done c session m ∧ (s.calls c).state = .pending ∧
        (s.act a).1.left = ((c, (s.calls c).generation), .response session m) :: s.left := by
  cases a with
  | startTimer run m =>
    refine .inl ?_
    unfold act
    dsimp only
    split
    · cases hc : s.complete run.1 .invalidRequest with
      | none    => exact fun _ _ _ => id
      | some rs => exact (Fades.complete hc fun _ _ => by simp).left
    · rw [(send_books _ run m).1]
      exact fun _ _ _ => id
  | send run m =>
    refine .inl ?_
    simp only [act, (send_books _ run m).1]
    exact fun _ _ _ => id
  | done c session m =>
    unfold act
    dsimp only
    cases hc : s.complete c (.response session m) with
    | none    => exact .inl fun _ _ _ => id
    | some rs =>
      obtain ⟨hpending, hrun, hleft⟩ := complete_eq hc
      exact .inr ⟨c, session, m, rfl, hpending, hrun ▸ hleft⟩
  | take c => exact .inl fun _ _ _ => id
  | stopTimer c =>
    refine .inl ?_
    simp only [act, (stopTimer_books _ c).1]
    exact fun _ _ _ => id
  | callback run outcome => exact .inl fun _ _ _ => id
  | postTimeout run =>
    refine .inl ?_
    unfold act
    dsimp only
    split <;> exact fun _ _ _ => id
  | post worker task =>
    refine .inl ?_
    unfold act
    dsimp only
    split <;> exact fun _ _ _ => id
  | enqueue worker task => exact .inl fun _ _ _ => id

theorem worked_course (s : RpcSystem) {event : RpcEvent} {worker k : Nat} {w : Worker RpcTask} {task : RpcTask}
    (hw : s.workers[worker]? = some w) (htask : w.events[k]? = some task) :
    let popped := { s with workers := s.workers.modify worker fun w => { w with events := w.events.eraseIdx k } }
    s.Course event ((popped.runTask worker task).1.begin (.worker worker) (popped.runTask worker task).2) := by
  intro popped
  have hpopped : s.Fades popped :=
    .modify s worker (fun _ => ⟨rfl, fun _ _ => id⟩) fun _ _ _ _ => List.mem_of_mem_eraseIdx
  cases task with
  | response session m localSeq =>
    rcases popped.runTask_response_cases worker session m localSeq with hrun | ⟨c, hc, hrun⟩
    · rw [hrun]
      exact .fades (hpopped.begin _ (by simp))
    · have hplaced : s.Placed worker (.response session m localSeq) := .inr ⟨w, hw, List.mem_of_getElem? htask⟩
      have hwaits : s.Waits worker localSeq c := by
        obtain ⟨v, hv, hseq⟩ := Option.bind_eq_some_iff.1 hc
        exact hpopped.waits worker localSeq c ⟨v, hv, hseq⟩
      have htook : popped.Fades { popped with
          workers := popped.workers.modify worker fun w => (w.takePendingRpc localSeq).2 } := by
        apply Fades.modify
        · refine fun w => ⟨rfl, fun seq c' hc' => ?_⟩
          unfold Worker.takePendingRpc at hc'
          by_cases hseq : seq = localSeq
          · simp [hseq] at hc'
          · simpa [hseq] using hc'
        · exact fun _ _ _ _ => id
      have hcourse : s.Course event _ := .takes hplaced hwaits (hpopped.trans htook) (.worker worker)
      rw [hrun]
      exact hcourse
  | timeout run =>
    change s.Course event (popped.begin (.worker worker) (.take run.1 :: finish run .timeout))
    exact .fades (hpopped.begin _ (by simp [finish]))
  | other n     =>
    change s.Course event (popped.begin (.worker worker) [])
    exact .fades (hpopped.begin _ (by simp))

/-- **What a step does with responses.** -/
theorem step_course (s : RpcSystem) (event : RpcEvent) : s.Course event (s.step event) := by
  cases event with
  | created =>
    unfold step
    dsimp only
    split
    · rename_i hlt
      refine .fades ⟨⟨fun hs => ?_, rfl, fun _ h => h, rfl, fun _ => rfl, fun _ => id, ?_⟩, ?_, fun _ _ _ => id,
        fun _ _ _ => id⟩
      · refine ⟨by simp only [List.length_append, List.length_singleton]; omega, fun w hw => ?_⟩
        rcases List.mem_append.1 hw with hw | hw
        · exact hs.2 w hw
        · rw [List.mem_singleton.1 hw]
          change 1 < 2 ^ 32
          omega
      · rintro worker seq c ⟨w, hw, hc⟩
        rw [List.getElem?_append] at hw
        split at hw
        · exact ⟨w, hw, hc⟩
        · -- in a new worker nothing waits
          obtain rfl := List.mem_singleton.1 (List.mem_of_getElem? hw)
          cases hc
      · rintro worker session m seq (hop | ⟨w, hw, hmem⟩)
        · exact .inl hop
        · rw [List.getElem?_append] at hw
          split at hw
          · exact .inr ⟨w, hw, hmem⟩
          · obtain rfl := List.mem_singleton.1 (List.mem_of_getElem? hw)
            cases hmem
    · exact .fades (.refl s)
  | changed worker event =>
    cases event with
    | init index => exact .fades (.refl s)
    | exit       =>
      refine .fades (.modify s worker (fun w => ?_) fun w session m seq hmem => ?_)
      · change w.exit.rpcSeqCounter = w.rpcSeqCounter ∧ ∀ seq c, w.exit.pendingRpcs seq = some c → _
        unfold Worker.exit
        split <;> exact ⟨rfl, fun _ _ => id⟩
      · rwa [WorkerEvent.events_apply] at hmem
    | _          => exact .fades (.modify s worker (fun _ => ⟨rfl, fun _ _ => id⟩) fun _ _ _ _ => id)
  | posted worker n =>
    refine .fades (.modify s worker (fun w => ?_) fun w session m seq hmem => ?_)
    · unfold Worker.post Worker.enqueueTask
      split <;> exact ⟨rfl, fun _ _ => id⟩
    · rcases Worker.mem_post hmem with hmem | heq
      · exact hmem
      · cases heq
  | setSession c session =>
    unfold step
    apply Course.fades
    apply Fades.modifyCall
    exact fun _ => ⟨rfl, id⟩
  | setTimeout c hasSession =>
    unfold step
    apply Course.fades
    apply Fades.modifyCall
    exact fun _ => ⟨rfl, id⟩
  | called worker c m =>
    unfold step
    dsimp only
    by_cases hmay : s.MayCall (.worker worker)
    · rw [if_pos hmay]
      cases hw : s.workers[worker]? with
      | some w => exact .calls hw hmay
      | none   =>
        have hsame : s.callImpl worker c m = s := by simp [callImpl, hw]
        rw [hsame]
        exact .fades (.refl s)
    · rw [if_neg hmay]
      exact .fades (.refl s)
  | cancelled thread c =>
    unfold step
    dsimp only
    cases hc : s.complete c .cancel with
    | none    => exact .fades (.refl s)
    | some rs => exact .fades ((Fades.complete hc fun _ _ => by simp).begin _ (by simp [finish]))
  | received io session m =>
    unfold step
    dsimp only
    split
    · rename_i hmode
      exact .receives hmode.1
    · exact .fades (.refl s)
  | fired k => exact .fades (.books (.books rfl rfl (fun _ h => h) rfl fun _ => ⟨rfl, id⟩) rfl rfl fun _ _ _ => id)
  | expired io k =>
    unfold step
    dsimp only
    cases s.waits[k]? with
    | none      => exact .fades (.refl s)
    | some wait =>
      by_cases hfired : wait.fired
      · have hwaits : s.Fades { s with waits := s.waits.eraseIdx k } :=
          .books (.books rfl rfl (fun _ h => h) rfl fun _ => ⟨rfl, id⟩) rfl rfl fun _ _ _ => id
        simp only [hfired, if_true]
        cases hc : { s with waits := s.waits.eraseIdx k }.complete wait.call .timeout with
        | none    => exact .fades hwaits
        | some rs => exact .fades ((hwaits.trans (.complete hc fun _ _ => by simp)).begin _ (by simp))
      · simp only [hfired, if_false, Bool.false_eq_true]
        exact .fades (.refl s)
  | worked worker k =>
    unfold step
    dsimp only
    cases hw : s.workers[worker]? with
    | none   => exact .fades (.refl s)
    | some w =>
      by_cases hready : w.exited = false ∧ s.Idle (.worker worker)
      · simp only [if_pos hready]
        cases htask : w.events[k]? with
        | none      => exact .fades (.refl s)
        | some task => exact s.worked_course hw htask
      · simp only [if_neg hready]
        exact .fades (.refl s)
  | acted k =>
    unfold step
    dsimp only
    split
    · rename_i thread action rest hop
      have hfades := Fades.acted hop
      rcases s.act_left action with hleft | ⟨c, session, m, rfl, hpending, hleft⟩
      · exact .fades ⟨⟨hfades.small, hfades.numbered, hfades.sent, hfades.taken, hfades.generation, hfades.pending,
          hfades.waits⟩, hfades.placed, hfades.completing, hleft⟩
      · have hcourse : s.Course (.acted k) _ := .completes
          ⟨_, List.mem_of_getElem? hop, List.mem_cons_self⟩ hpending hfades
        rw [← hleft] at hcourse
        exact hcourse
    · exact .fades (.refl s)

/-- The new number of a call, and what waits once it is stored. -/
theorem callImpl_waits {s : RpcSystem} {worker : Nat} {c : CallId} {m : Meta} {w : Worker RpcTask}
    (hw : s.workers[worker]? = some w) {worker' seq : Nat} {c' : CallId}
    (h : (s.callImpl worker c m).Waits worker' seq c') :
    (worker' = worker ∧ seq = w.rpcSeqCounter ∧ c' = c) ∨
      ((worker' = worker → seq ≠ w.rpcSeqCounter) ∧ s.Waits worker' seq c') := by
  obtain ⟨v, hv, hc⟩ := h
  simp only [callImpl, hw] at hv
  obtain ⟨u, hold, ⟨rfl, rfl⟩ | ⟨hne, rfl⟩⟩ := of_getElem?_modify hv
  · rw [hw] at hold
    obtain rfl := Option.some.inj hold
    unfold Worker.storePendingRpc at hc
    by_cases hseq : seq = w.rpcSeqCounter
    · simp [hseq, Worker.allocRpcSeq] at hc
      exact .inl ⟨rfl, hseq, hc.symm⟩
    · simp [hseq, Worker.allocRpcSeq] at hc
      exact .inr ⟨fun _ => hseq, w, hw, hc⟩
  · exact .inr ⟨fun heq => absurd heq.symm hne, v, hold, hc⟩

/-- The number that `CallImpl` gives to a call. -/
theorem callImpl_numbered {s : RpcSystem} {worker : Nat} {c : CallId} {m : Meta} {w : Worker RpcTask}
    (hw : s.workers[worker]? = some w) :
    (s.callImpl worker c m).numbered =
      ((c, (s.calls c).generation + 1), SequenceId.value ⟨worker, w.rpcSeqCounter⟩) :: s.numbered := by
  simp [callImpl, hw, RpcSystem.begin, modifyCall, Worker.allocRpcSeq]

theorem callImpl_small {s : RpcSystem} {worker : Nat} {c : CallId} {m : Meta} (h : s.Small) :
    (s.callImpl worker c m).Small := by
  unfold callImpl
  cases hw : s.workers[worker]? with
  | none   => exact h
  | some w =>
    refine ⟨by simpa [RpcSystem.begin, modifyCall] using h.1, fun v hv => ?_⟩
    obtain ⟨j, hj⟩ := List.mem_iff_getElem?.1 hv
    obtain ⟨u, hold, ⟨_, rfl⟩ | ⟨_, rfl⟩⟩ := of_getElem?_modify hj
    · exact Nat.mod_lt _ (by omega)
    · exact h.2 v (List.mem_of_getElem? hold)

theorem callImpl_placed {s : RpcSystem} {worker : Nat} {c : CallId} {m : Meta} {worker' seq : Nat} {session : SessionId}
    {m' : Meta} (h : (s.callImpl worker c m).Placed worker' (.response session m' seq)) :
    s.Placed worker' (.response session m' seq) := by
  unfold callImpl at h
  cases hw : s.workers[worker]? with
  | none   => simpa [hw] using h
  | some w =>
    rw [hw] at h
    rcases placed_begin h with h | h | h
    · exact placed_modify h rfl rfl fun _ hmem => hmem
    · simp at h
    · simp at h

theorem callImpl_completing {s : RpcSystem} {worker : Nat} {c : CallId} {m : Meta} {c' : CallId} {session : SessionId}
    {m' : Meta} (h : (s.callImpl worker c m).Completing c' session m') : s.Completing c' session m' := by
  unfold callImpl at h
  cases hw : s.workers[worker]? with
  | none   => simpa [hw] using h
  | some w =>
    rw [hw] at h
    obtain ⟨op, hop, hdone⟩ := h
    rcases List.mem_cons.1 hop with rfl | hop
    · simp at hdone
    · exact ⟨op, hop, hdone⟩

theorem callImpl_books (s : RpcSystem) (worker : Nat) (c : CallId) (m : Meta) :
    (s.callImpl worker c m).sent = s.sent ∧ (s.callImpl worker c m).left = s.left ∧
      (s.callImpl worker c m).taken = s.taken := by
  unfold callImpl
  split <;> exact ⟨rfl, rfl, rfl⟩

/-! ## The number of a response -/

/-- The responses that are for a call carry a number that the call object was given. -/
structure Named (s : RpcSystem) : Prop where
  small      : s.Small
  waits      : ∀ worker seq c, s.Waits worker seq c →
    ∃ g, ((c, g), SequenceId.value ⟨worker, seq⟩) ∈ s.numbered
  placed     : ∀ worker session m seq, s.Placed worker (.response session m seq) →
    SequenceId.ofValue m.sequence = ⟨worker, seq⟩
  completing : ∀ c session m, s.Completing c session m → ∃ g, ((c, g), m.sequence) ∈ s.numbered
  left       : ∀ run session m, (run, .response session m) ∈ s.left → ∃ g, ((run.1, g), m.sequence) ∈ s.numbered

namespace Named

variable {s : RpcSystem}

theorem init : Named {} where
  small      := ⟨Nat.zero_le _, fun _ hw => nomatch hw⟩
  waits      := by
    rintro _ _ _ ⟨_, hw, _⟩
    cases hw
  placed     := by
    rintro _ _ _ _ (⟨_, hop, _⟩ | ⟨_, hw, _⟩)
    · cases hop
    · cases hw
  completing := by
    rintro _ _ _ ⟨_, hop, _⟩
    cases hop
  left       := fun _ _ _ hl => nomatch hl

theorem fades {t : RpcSystem} (h : s.Named) (hf : s.Fades t) : t.Named where
  small      := hf.small h.small
  waits      := fun worker seq c hc => by
    rw [hf.numbered]
    exact h.waits worker seq c (hf.waits worker seq c hc)
  placed     := fun worker session m seq hp => h.placed worker session m seq (hf.placed worker session m seq hp)
  completing := fun c session m hc => by
    rw [hf.numbered]
    exact h.completing c session m (hf.completing c session m hc)
  left       := fun run session m hl => by
    rw [hf.numbered]
    exact h.left run session m (hf.left run session m hl)

/-- The number of a response is the one that its call waits under. -/
theorem value_eq (h : s.Named) {worker seq : Nat} {session : SessionId} {m : Meta}
    (hplaced : s.Placed worker (.response session m seq)) : SequenceId.value ⟨worker, seq⟩ = m.sequence := by
  rw [← h.placed worker session m seq hplaced]
  exact SequenceId.value_ofValue m.sequence_lt

theorem step (h : s.Named) (event : RpcEvent) : (s.step event).Named := by
  have hcourse := s.step_course event
  generalize s.step event = t at hcourse
  cases hcourse with
  | fades hf => exact h.fades hf
  | @calls worker c m w hw hmay =>
    obtain ⟨_, hleft, _⟩ := s.callImpl_books worker c m
    have hnumbered := callImpl_numbered (c := c) (m := m) hw
    refine ⟨callImpl_small h.small, fun worker' seq c' hc => ?_, fun worker' session m' seq hp => ?_,
      fun c' session m' hc => ?_, fun run session m' hl => ?_⟩
    · rw [hnumbered]
      rcases callImpl_waits hw hc with ⟨rfl, rfl, rfl⟩ | ⟨_, hc⟩
      · exact ⟨_, List.mem_cons_self⟩
      · obtain ⟨g, hg⟩ := h.waits worker' seq c' hc
        exact ⟨g, List.mem_cons_of_mem _ hg⟩
    · exact h.placed worker' session m' seq (callImpl_placed hp)
    · rw [hnumbered]
      obtain ⟨g, hg⟩ := h.completing c' session m' (callImpl_completing hc)
      exact ⟨g, List.mem_cons_of_mem _ hg⟩
    · rw [hnumbered]
      rw [hleft] at hl
      obtain ⟨g, hg⟩ := h.left run session m' hl
      exact ⟨g, List.mem_cons_of_mem _ hg⟩
  | @receives io session m hmode =>
    refine ⟨h.small, h.waits, fun worker' session' m' seq hp => ?_, ?_, h.left⟩
    · rcases placed_begin hp with hp | hp | hp
      · exact h.placed worker' session' m' seq hp
      · simp only [List.mem_singleton, Action.post.injEq, RpcTask.response.injEq] at hp
        rw [hp.2.2.1, hp.1, hp.2.2.2]
      · simp at hp
    · rintro c session' m' ⟨op, hop, hdone⟩
      rcases List.mem_cons.1 hop with rfl | hop
      · simp at hdone
      · exact h.completing c session' m' ⟨op, hop, hdone⟩
  | @takes _ t worker seq c session m hplaced hwaits hf thread =>
    have ht := h.fades hf
    refine ⟨ht.small, ht.waits, fun worker' session' m' seq' hp => ?_, ?_, ht.left⟩
    · rcases placed_begin hp with hp | hp | hp
      · exact ht.placed worker' session' m' seq' hp
      · simp at hp
      · simp at hp
    · rintro c' session' m' ⟨op, hop, hdone⟩
      rcases List.mem_cons.1 hop with rfl | hop
      · simp only [List.mem_singleton, Action.done.injEq] at hdone
        obtain ⟨rfl, rfl, rfl⟩ := hdone
        have hnamed := h.waits worker seq c' hwaits
        rw [h.value_eq hplaced] at hnamed
        exact hf.numbered ▸ hnamed
      · exact ht.completing c' session' m' ⟨op, hop, hdone⟩
  | @completes _ t c session m hcompleting hpending hf =>
    have ht := h.fades hf
    refine ⟨ht.small, ht.waits, ht.placed, ht.completing, fun run session' m' hl => ?_⟩
    rcases List.mem_cons.1 hl with heq | hl
    · simp only [Prod.mk.injEq, Outcome.response.injEq] at heq
      obtain ⟨rfl, rfl, rfl⟩ := heq
      exact hf.numbered ▸ h.completing c session' m' hcompleting
    · exact ht.left run session' m' hl

end Named

/-! ## The session of a response -/

/-- The last call that was given a number. -/
def lastNumbered (s : RpcSystem) (n : Nat) : Option CallRun := (s.numbered.find? fun x => x.2 = n).map Prod.fst

/-- The session was sent the request of the call that was last given the number of the message. -/
def Asked (s : RpcSystem) (session : SessionId) (m : Meta) : Prop :=
  ∃ run, s.lastNumbered m.sequence = some run ∧ (run, session, m.sequence) ∈ s.sent

/-- A call that is completed with a response, or taken from its worker by one, has sent its request on the session of the
response. -/
def Authentic (s : RpcSystem) : Prop :=
  (∀ run session m, (run, .response session m) ∈ s.left → (run, session, m.sequence) ∈ s.sent) ∧
    ∀ run session, (run, session) ∈ s.taken → ∃ n, (run, session, n) ∈ s.sent

/-- A peer answers only what it was asked; and where a call is made, neither its object nor its number is in use. -/
def Honest (s : RpcSystem) : RpcEvent → Prop
  | .received _ session m => m.mode = MsgMode.response → s.Asked session m
  | .called worker c _    => s.MayCall (.worker worker) → ∀ w, s.workers[worker]? = some w →
    (∀ worker' seq, ¬s.Waits worker' seq c) ∧ (∀ session m, ¬s.Completing c session m) ∧
      ∀ worker' session m seq, s.Placed worker' (.response session m seq) →
        m.sequence ≠ SequenceId.value ⟨worker, w.rpcSeqCounter⟩
  | _                     => True

/-- What is under way for a call belongs to its request. -/
structure Matched (s : RpcSystem) : Prop where
  named      : s.Named
  waits      : ∀ worker seq c, s.Waits worker seq c → (s.calls c).state = .pending →
    s.lastNumbered (SequenceId.value ⟨worker, seq⟩) = some (c, (s.calls c).generation)
  bounded    : ∀ worker seq c, s.Waits worker seq c → worker < 2 ^ 32 ∧ seq < 2 ^ 32
  placed     : ∀ worker session m seq, s.Placed worker (.response session m seq) → s.Asked session m
  completing : ∀ c session m, s.Completing c session m → (s.calls c).state = .pending →
    ((c, (s.calls c).generation), session, m.sequence) ∈ s.sent
  authentic  : s.Authentic

namespace Matched

variable {s : RpcSystem}

theorem init : Matched {} where
  named      := .init
  waits      := by
    rintro _ _ _ ⟨_, hw, _⟩
    cases hw
  bounded    := by
    rintro _ _ _ ⟨_, hw, _⟩
    cases hw
  placed     := by
    rintro _ _ _ _ (⟨_, hop, _⟩ | ⟨_, hw, _⟩)
    · cases hop
    · cases hw
  completing := by
    rintro _ _ _ ⟨_, hop, _⟩
    cases hop
  authentic  := ⟨fun _ _ _ hl => (nomatch hl), fun _ _ ht => (nomatch ht)⟩

theorem fades {t : RpcSystem} (h : s.Matched) (hf : s.Fades t) : t.Matched where
  named      := h.named.fades hf
  waits      := fun worker seq c hc hpending => by
    rw [lastNumbered, hf.numbered, hf.generation]
    exact h.waits worker seq c (hf.waits worker seq c hc) (hf.pending c hpending)
  bounded    := fun worker seq c hc => h.bounded worker seq c (hf.waits worker seq c hc)
  placed     := fun worker session m seq hp => by
    obtain ⟨run, hlast, hsent⟩ := h.placed worker session m seq (hf.placed worker session m seq hp)
    exact ⟨run, by rwa [lastNumbered, hf.numbered], hf.sent _ hsent⟩
  completing := fun c session m hc hpending => by
    rw [hf.generation]
    exact hf.sent _ (h.completing c session m (hf.completing c session m hc) (hf.pending c hpending))
  authentic  := by
    refine ⟨fun run session m hl => hf.sent _ (h.authentic.1 run session m (hf.left run session m hl)),
      fun run session ht => ?_⟩
    rw [hf.taken] at ht
    obtain ⟨n, hn⟩ := h.authentic.2 run session ht
    exact ⟨n, hf.sent _ hn⟩

/-- The request of the call that a response finds waiting was sent on the session of the response. -/
theorem sent_of_waits (h : s.Matched) {worker seq : Nat} {c : CallId} {session : SessionId} {m : Meta}
    (hplaced : s.Placed worker (.response session m seq)) (hwaits : s.Waits worker seq c)
    (hpending : (s.calls c).state = .pending) : ((c, (s.calls c).generation), session, m.sequence) ∈ s.sent := by
  obtain ⟨run, hlast, hsent⟩ := h.placed worker session m seq hplaced
  have hcall := h.waits worker seq c hwaits hpending
  rw [h.named.value_eq hplaced, hlast] at hcall
  rwa [Option.some.inj hcall] at hsent

/-- A call is made, and neither its object nor its number is in use. -/
theorem callImpl (h : s.Matched) {worker : Nat} {c : CallId} {m : Meta} {w : Worker RpcTask}
    (hw : s.workers[worker]? = some w) (hmay : s.MayCall (.worker worker)) (hhonest : s.Honest (.called worker c m)) :
    (s.callImpl worker c m).Matched := by
  obtain ⟨hfree, hidle, hunused⟩ := hhonest hmay w hw
  obtain ⟨hsent, hleft, htaken⟩ := s.callImpl_books worker c m
  have hnumbered := callImpl_numbered (c := c) (m := m) hw
  have hnew : worker < 2 ^ 32 ∧ w.rpcSeqCounter < 2 ^ 32 := by
    have hlen := h.named.small.1
    have hlt := (List.getElem?_eq_some_iff.1 hw).1
    exact ⟨by omega, h.named.small.2 w (List.mem_of_getElem? hw)⟩
  have hcalls : ∀ c', c' ≠ c → (s.callImpl worker c m).calls c' = s.calls c' := by
    intro c' hc
    simp [RpcSystem.callImpl, hw, RpcSystem.begin, modifyCall, hc]
  have hlast : ∀ n, n ≠ SequenceId.value ⟨worker, w.rpcSeqCounter⟩ →
      (s.callImpl worker c m).lastNumbered n = s.lastNumbered n := by
    intro n hn
    rw [lastNumbered, hnumbered, List.find?_cons_of_neg (by simpa using hn.symm)]
    rfl
  have hnamed : (s.callImpl worker c m).Named := by
    have hstep := h.named.step (.called worker c m)
    rwa [step, if_pos hmay] at hstep
  refine ⟨hnamed, fun worker' seq c' hc hpending => ?_, fun worker' seq c' hc => ?_, fun worker' session m' seq hp => ?_,
    fun c' session m' hc hpending => ?_, ?_⟩
  · rcases callImpl_waits hw hc with ⟨rfl, rfl, rfl⟩ | ⟨hne, hold⟩
    · simp [lastNumbered, hnumbered]
      simp [RpcSystem.callImpl, hw, RpcSystem.begin, modifyCall]
    · have hcne : c' ≠ c := by
        rintro rfl
        exact hfree worker' seq hold
      -- what waits elsewhere has another number
      have hvalue : SequenceId.value ⟨worker', seq⟩ ≠ SequenceId.value ⟨worker, w.rpcSeqCounter⟩ := by
        intro heq
        obtain ⟨hworker', hseq⟩ := h.bounded worker' seq c' hold
        have hid := congrArg SequenceId.ofValue heq
        rw [SequenceId.ofValue_value hworker' hseq, SequenceId.ofValue_value hnew.1 hnew.2, SequenceId.mk.injEq] at hid
        exact hne hid.1 hid.2
      rw [hlast _ hvalue, hcalls c' hcne]
      rw [hcalls c' hcne] at hpending
      exact h.waits worker' seq c' hold hpending
  · rcases callImpl_waits hw hc with ⟨rfl, rfl, rfl⟩ | ⟨_, hold⟩
    · exact hnew
    · exact h.bounded worker' seq c' hold
  · have hold := callImpl_placed hp
    obtain ⟨run, hrun, hmem⟩ := h.placed worker' session m' seq hold
    exact ⟨run, by rw [hlast _ (hunused worker' session m' seq hold), hrun], hsent ▸ hmem⟩
  · have hold := callImpl_completing hc
    have hcne : c' ≠ c := by
      rintro rfl
      exact hidle session m' hold
    rw [hcalls c' hcne] at hpending ⊢
    rw [hsent]
    exact h.completing c' session m' hold hpending
  · rw [Authentic, hleft, htaken, hsent]
    exact h.authentic

theorem step (h : s.Matched) (event : RpcEvent) (hhonest : s.Honest event) : (s.step event).Matched := by
  have hnamed := h.named.step event
  have hcourse := s.step_course event
  generalize s.step event = t at hcourse hnamed
  cases hcourse with
  | fades hf => exact h.fades hf
  | calls hw hmay => exact h.callImpl hw hmay hhonest
  | @receives io session m hmode =>
    refine ⟨hnamed, h.waits, h.bounded, fun worker' session' m' seq hp => ?_, ?_, h.authentic⟩
    · rcases placed_begin hp with hp | hp | hp
      · exact h.placed worker' session' m' seq hp
      · simp only [List.mem_singleton, Action.post.injEq, RpcTask.response.injEq] at hp
        rw [hp.2.1, hp.2.2.1]
        exact hhonest hmode
      · simp at hp
    · rintro c session' m' ⟨op, hop, hdone⟩ hpending
      rcases List.mem_cons.1 hop with rfl | hop
      · simp at hdone
      · exact h.completing c session' m' ⟨op, hop, hdone⟩ hpending
  | @takes _ t worker seq c session m hplaced hwaits hf thread =>
    have ht := h.fades hf
    refine ⟨hnamed, ht.waits, ht.bounded, fun worker' session' m' seq' hp => ?_, ?_, ht.authentic.1,
      fun run session' htaken => ?_⟩
    · rcases placed_begin hp with hp | hp | hp
      · exact ht.placed worker' session' m' seq' hp
      · simp at hp
      · simp at hp
    · rintro c' session' m' ⟨op, hop, hdone⟩ hpending
      rcases List.mem_cons.1 hop with rfl | hop
      · simp only [List.mem_singleton, Action.done.injEq] at hdone
        obtain ⟨rfl, rfl, rfl⟩ := hdone
        have hsent := h.sent_of_waits hplaced hwaits (hf.pending c' hpending)
        rw [← hf.generation] at hsent
        exact hf.sent _ hsent
      · exact ht.completing c' session' m' ⟨op, hop, hdone⟩ hpending
    · change (run, session') ∈ (if (s.calls c).state = RpcState.pending then
        ((c, (s.calls c).generation), session) :: t.taken else t.taken) at htaken
      by_cases hpending : (s.calls c).state = .pending
      · rw [if_pos hpending] at htaken
        rcases List.mem_cons.1 htaken with heq | htaken
        · simp only [Prod.mk.injEq] at heq
          rw [heq.1, heq.2]
          exact ⟨_, hf.sent _ (h.sent_of_waits hplaced hwaits hpending)⟩
        · exact ht.authentic.2 run session' htaken
      · rw [if_neg hpending] at htaken
        exact ht.authentic.2 run session' htaken
  | @completes _ t c session m hcompleting hpending hf =>
    have ht := h.fades hf
    refine ⟨hnamed, ht.waits, ht.bounded, ht.placed, ht.completing, fun run session' m' hl => ?_, ht.authentic.2⟩
    rcases List.mem_cons.1 hl with heq | hl
    · simp only [Prod.mk.injEq, Outcome.response.injEq] at heq
      obtain ⟨rfl, rfl, rfl⟩ := heq
      exact hf.sent _ (h.completing c session' m' hcompleting hpending)
    · exact ht.authentic.1 run session' m' hl

end Matched

/-- **The response that completes a call carries a number that the call object was given, on whichever session it came;
and where the peers answer only what they were asked, and no number or call object is given anew while it is in use, it
came on the session of the request.** -/
theorem run_authentic (events : List RpcEvent) :
    (∀ run session m, (run, .response session m) ∈ (events.foldl step {}).left →
      ∃ g, ((run.1, g), m.sequence) ∈ (events.foldl step {}).numbered) ∧
    (Along step Honest {} events → (events.foldl step {}).Authentic) := by
  refine ⟨?_, fun halong => ?_⟩
  · have hnamed : (events.foldl step {}).Named :=
      List.foldlRecOn events step Named.init fun _ h event _ => h.step event
    exact hnamed.left
  · have hmatched := Run.foldl_inv (fun s event h hhonest => Matched.step (s := s) h event hhonest) events Matched.init halong
    exact hmatched.authentic

/-- A response with the first number of the main worker. -/
def firstResponse : Meta := (Meta.init.copyIn [2]).withSequence (2 ^ 32)

/-- A call is made over one session, and a response with its number comes over another or the same. -/
def answered (session : SessionId) : List RpcEvent :=
  [.created, .changed 0 .onStart, .setSession 0 (some 5), .called 0 0 .init, .acted 0, .received 0 session firstResponse,
    .acted 0, .acted 0, .worked 0 0, .acted 0]

theorem run_authentic_answered : Along step Honest {} (answered 5) ∧ ((answered 5).foldl step {}).Authentic := by
  have hnew : Honest (([.created, .changed 0 .onStart, .setSession 0 (some 5)] : List RpcEvent).foldl step {})
      (.called 0 0 .init) := by
    refine fun _ w _ => ⟨?_, ?_, ?_⟩
    · rintro worker' seq ⟨v, hv, hc⟩
      obtain rfl := List.mem_singleton.1 (List.mem_of_getElem? hv)
      cases hc
    · rintro session m ⟨op, hop, _⟩
      cases hop
    · rintro worker' session m seq (⟨op, hop, _⟩ | ⟨v, hv, hmem⟩)
      · cases hop
      · obtain rfl := List.mem_singleton.1 (List.mem_of_getElem? hv)
        cases hmem
  have halong : Along step Honest {} (answered 5) := by
    refine ⟨trivial, trivial, trivial, hnew, trivial, fun _ => ⟨(0, 1), rfl, ?_⟩, trivial, trivial, trivial, trivial, trivial⟩
    exact List.mem_cons_self
  exact ⟨halong, (run_authentic (answered 5)).2 halong⟩

theorem not_run_authentic : ¬∀ events : List RpcEvent, (events.foldl step {}).Authentic := by
  intro h
  have hleft : ((answered 9).foldl step {}).left = [((0, 1), .response 9 firstResponse)] := rfl
  have hsent : ((answered 9).foldl step {}).sent = [((0, 1), 5, 2 ^ 32)] := rfl
  have hforged := (h (answered 9)).1 (0, 1) 9 firstResponse (hleft ▸ List.mem_cons_self)
  rw [hsent, List.mem_singleton] at hforged
  injection hforged with _ hforged
  injection hforged with hsession
  cases hsession

end RpcSystem

end Gb
