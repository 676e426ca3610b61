import GbServer.Lib.Run
import GbServer.PgConnection
import Mathlib.Data.List.Range
/-!
# PgPipeline — the operations come out as they went in

Whatever libpq answers, the socket reports and becomes of the connection: one operation is in flight at a time, they are
sent in the order of submission, and the callbacks are invoked in that order, each once and with the outcome of its own
operation (`Pipelined`).  None is forgotten: while no wait for the socket is under way, all have been called (`run_pipelined`).
-/
namespace Gb

/-- What a step means for the operation, if it decides: a step that fails ends it, and so do the results. -/
def PqCall.outcome : PqCall → Option DbResult
  | .unavailable                 => some (.ofError "Connection not available" (-1))
  | .send (some message)         => some (.ofError message (-1))
  | .flush .failed message       => some (.ofError message (-1))
  | .socket false                => some (.ofError "PQsocket failed" (-1))
  | .wait type (some message)    => some (.ofError (PgConnection.waitError type message) (-1))
  | .consumeInput (some message) => some (.ofError message (-1))
  | .results _ rs                => some (PgConnection.finalResult rs)
  | _                            => none

def PgEntry.submitted? : PgEntry → Option Nat
  | .submitted op => some op
  | _             => none

def PgEntry.sent? : PgEntry → Option Nat
  | .call op (.send none) => some op
  | _                     => none

def PgEntry.called? : PgEntry → Option Nat
  | .callback op _ => some op
  | _              => none

def PgEntry.callFor? (op : Nat) : PgEntry → Option PqCall
  | .call op' c => if op' = op then some c else none
  | _           => none

namespace PgConnection

/-! ## What the log says -/

def submittedOps (log : List PgEntry) : List Nat := log.filterMap PgEntry.submitted?

def sentOps (log : List PgEntry) : List Nat := log.filterMap PgEntry.sent?

def calledOps (log : List PgEntry) : List Nat := log.filterMap PgEntry.called?

/-- The steps done for an operation. -/
def callsFor (op : Nat) (log : List PgEntry) : List PqCall := log.filterMap (PgEntry.callFor? op)

/-- What these steps decided. -/
def outcomes (op : Nat) (log : List PgEntry) : List DbResult := (callsFor op log).filterMap PqCall.outcome

/-- Sent, and the callback is still to be invoked. -/
def InFlight (log : List PgEntry) (op : Nat) : Prop := op ∈ sentOps log ∧ op ∉ calledOps log

/-- Of the operations submitted, the first `done` are done with and the first `begun` were begun. -/
structure Trace (log : List PgEntry) (done begun total : Nat) : Prop where
  submitted : submittedOps log = List.range total
  called    : calledOps log = List.range done
  sent      : (sentOps log).Sublist (List.range begun)
  le_begun  : done ≤ begun
  begun_le  : begun ≤ done + 1
  le_total  : begun ≤ total
  untouched : ∀ op, begun ≤ op → callsFor op log = []
  inFlight  : ∀ l, l <+: log → ∀ i j, InFlight l i → InFlight l j → i = j
  outcome   : ∀ op r, .callback op r ∈ log → outcomes op log = [r]
  results   : ∀ op command rs, .call op (.results command rs) ∈ log → command = some op ∨ command = none ∧ rs = []

section Trace

variable {log : List PgEntry} {done begun total op : Nat} {c : PqCall}

theorem mem_calledOps {r : DbResult} (h : .callback op r ∈ log) : op ∈ calledOps log :=
  List.mem_filterMap.2 ⟨_, h, rfl⟩

theorem callsFor_call_self : callsFor op (log ++ [.call op c]) = callsFor op log ++ [c] := by
  simp [callsFor, PgEntry.callFor?]

theorem callsFor_call_of_ne {op' : Nat} (h : op' ≠ op) : callsFor op (log ++ [.call op' c]) = callsFor op log := by
  simp [callsFor, PgEntry.callFor?, h]

theorem outcomes_call_self : outcomes op (log ++ [.call op c]) = outcomes op log ++ c.outcome.toList := by
  rw [outcomes, callsFor_call_self, List.filterMap_append]
  cases h : c.outcome with
  | none   => simp [outcomes, h]
  | some r => simp [outcomes, h]

theorem outcomes_call_of_ne {op' : Nat} (h : op' ≠ op) : outcomes op (log ++ [.call op' c]) = outcomes op log := by
  rw [outcomes, callsFor_call_of_ne h, outcomes]

/-- The one that is begun and not done. -/
theorem InFlight.eq {i : Nat} (h : InFlight log i) (hsent : (sentOps log).Sublist (List.range begun))
    (hcalled : calledOps log = List.range done) (hbegun : begun ≤ done + 1) : i = done := by
  have hlt := List.mem_range.1 (hsent.mem h.1)
  have hle : ¬i < done := fun hlt' => h.2 (hcalled ▸ List.mem_range.2 hlt')
  omega

/-- One more entry. -/
theorem inFlight_concat {e : PgEntry} (h : ∀ l, l <+: log → ∀ i j, InFlight l i → InFlight l j → i = j)
    (hsent : (sentOps (log ++ [e])).Sublist (List.range begun)) (hcalled : calledOps (log ++ [e]) = List.range done)
    (hbegun : begun ≤ done + 1) : ∀ l, l <+: log ++ [e] → ∀ i j, InFlight l i → InFlight l j → i = j := by
  intro l hl i j hi hj
  rcases List.prefix_concat_iff.1 hl with rfl | hl
  · exact (hi.eq hsent hcalled hbegun).trans (hj.eq hsent hcalled hbegun).symm
  · exact h l hl i j hi hj

theorem Trace.submit (h : Trace log done begun total) : Trace (log ++ [.submitted total]) done begun (total + 1) := by
  have hcalled : calledOps (log ++ [.submitted total]) = calledOps log := by simp [calledOps, PgEntry.called?]
  have hsent : sentOps (log ++ [.submitted total]) = sentOps log := by simp [sentOps, PgEntry.sent?]
  have hcalls : ∀ op, callsFor op (log ++ [.submitted total]) = callsFor op log := by simp [callsFor, PgEntry.callFor?]
  refine ⟨?_, hcalled.trans h.called, hsent ▸ h.sent, h.le_begun, h.begun_le, Nat.le_succ_of_le h.le_total, ?_, ?_, ?_, ?_⟩
  · rw [List.range_succ, ← h.submitted]
    simp [submittedOps, PgEntry.submitted?]
  · exact fun op hop => (hcalls op).trans (h.untouched op hop)
  · exact inFlight_concat h.inFlight (hsent ▸ h.sent) (hcalled.trans h.called) h.begun_le
  · intro op r hr
    rw [outcomes, hcalls]
    exact h.outcome op r (by simpa using hr)
  · exact fun op command rs hrs => h.results op command rs (by simpa using hrs)

theorem sent?_call (op : Nat) (c : PqCall) :
    c = .send none ∧ (PgEntry.call op c).sent? = some op ∨ (PgEntry.call op c).sent? = none := by
  cases c with
  | send error =>
    cases error with
    | none   => exact .inl ⟨rfl, rfl⟩
    | some _ => exact .inr rfl
  | _          => exact .inr rfl

/-- A step for the operation whose turn it is. -/
theorem Trace.call (h : Trace log done begun total) (hlt : done < total) (hsend : c = .send none → begun = done)
    (hown : ∀ command rs, c = .results command rs → command = some done ∨ command = none ∧ rs = []) :
    Trace (log ++ [.call done c]) done (done + 1) total := by
  have hcalled : calledOps (log ++ [.call done c]) = List.range done := by
    rw [← h.called]
    simp [calledOps, PgEntry.called?]
  have hsent : (sentOps (log ++ [.call done c])).Sublist (List.range (done + 1)) := by
    rw [sentOps, List.filterMap_append]
    rcases sent?_call done c with ⟨heq, hsome⟩ | hnone
    · rw [List.filterMap_cons_some hsome, List.range_succ]
      exact (hsend heq ▸ h.sent).append (List.Sublist.refl [done])
    · rw [List.filterMap_cons_none hnone, List.filterMap_nil, List.append_nil]
      exact h.sent.trans (List.range_sublist.2 h.begun_le)
  refine ⟨?_, hcalled, hsent, Nat.le_succ done, Nat.le_refl _, hlt, ?_, ?_, ?_, ?_⟩
  · rw [← h.submitted]
    simp [submittedOps, PgEntry.submitted?]
  · intro op hop
    rw [callsFor_call_of_ne (by omega)]
    exact h.untouched op (h.begun_le.trans hop)
  · exact inFlight_concat h.inFlight hsent hcalled (Nat.le_refl _)
  · intro op r hr
    have hmem : .callback op r ∈ log := by simpa using hr
    have hop := List.mem_range.1 (h.called ▸ mem_calledOps hmem)
    rw [outcomes_call_of_ne (by omega)]
    exact h.outcome op r hmem
  · intro op command rs hrs
    rcases List.mem_append.1 hrs with hrs | hrs
    · exact h.results op command rs hrs
    · obtain ⟨rfl, rfl⟩ := PgEntry.call.inj (List.mem_singleton.1 hrs)
      exact hown command rs rfl

/-- The operation is done with. -/
theorem Trace.callback {r : DbResult} (h : Trace log done (done + 1) total) (hr : outcomes done log = [r]) :
    Trace (log ++ [.callback done r]) (done + 1) (done + 1) total := by
  have hcalled : calledOps (log ++ [.callback done r]) = List.range (done + 1) := by
    rw [List.range_succ, ← h.called]
    simp [calledOps, PgEntry.called?]
  have hsent : sentOps (log ++ [.callback done r]) = sentOps log := by simp [sentOps, PgEntry.sent?]
  have hcalls : ∀ op, callsFor op (log ++ [.callback done r]) = callsFor op log := by simp [callsFor, PgEntry.callFor?]
  refine ⟨?_, hcalled, hsent ▸ h.sent, Nat.le_refl _, Nat.le_succ _, h.le_total, ?_, ?_, ?_, ?_⟩
  · rw [← h.submitted]
    simp [submittedOps, PgEntry.submitted?]
  · exact fun op hop => (hcalls op).trans (h.untouched op hop)
  · exact inFlight_concat h.inFlight (hsent ▸ h.sent) hcalled (Nat.le_succ _)
  · intro op r' hr'
    rw [outcomes, hcalls]
    rcases List.mem_append.1 hr' with hr' | hr'
    · exact h.outcome op r' hr'
    · obtain ⟨rfl, rfl⟩ := PgEntry.callback.inj (List.mem_singleton.1 hr')
      exact hr
  · exact fun op command rs hrs => h.results op command rs (by simpa using hrs)

end Trace

/-! ## The tasks -/

/-- The operation `op` is under way, and the following ones are in the queue. -/
structure InHand (p : PgConnection) (op begun : Nat) : Prop where
  trace     : Trace p.log op begun p.submitted
  undecided : outcomes op p.log = []
  lt        : op < p.submitted
  pending   : p.pendingOps.map AsyncOp.op = List.range' (op + 1) (p.submitted - (op + 1))
  waiting   : p.waiting = none

/-- What libpq is still busy with is the command of `op`. -/
def Mine (p : PgConnection) (op : Nat) : Prop := ∀ conn, p.conn = some conn → ∀ command, conn.command = some command → command = op

/-- The operations from `op` on are in the queue, and those before are done with. -/
structure Ready (p : PgConnection) (op : Nat) : Prop where
  trace   : Trace p.log op op p.submitted
  le      : op ≤ p.submitted
  pending : p.pendingOps.map AsyncOp.op = List.range' op (p.submitted - op)
  waiting : p.waiting = none

/-- Between tasks: nothing to do, or a wait for the socket on behalf of an operation. -/
inductive Invariant (p : PgConnection) : Prop
  | idle (active : p.opActive = false) (ready : Ready p p.submitted)
  | busy (type : WaitType) (op : AsyncOp) (active : p.opActive = true) (waiting : p.waiting = some (type, op))
      (inHand : InHand { p with waiting := none } op.op (op.op + 1)) (mine : Mine p op.op)

variable {p : PgConnection} {op begun : Nat} {c : PqCall}

theorem InHand.logs (h : InHand p op begun) (hc : c.outcome = none) (hsend : c = .send none → begun = op) :
    InHand (p.logs op c) op (op + 1) where
  trace     := h.trace.call h.lt hsend fun command rs heq => by simp [heq, PqCall.outcome] at hc
  undecided := by
    rw [PgConnection.logs, outcomes_call_self, h.undecided, hc]
    rfl
  lt        := h.lt
  pending   := h.pending
  waiting   := h.waiting

/-- A step that decides, and the callback. -/
theorem InHand.invoke (h : InHand p op begun) {r : DbResult} (hc : c.outcome = some r)
    (hown : ∀ command rs, c = .results command rs → command = some op ∨ command = none ∧ rs = []) (a : PqAnswers) :
    Ready ((p.logs op c).invoke a op r) (op + 1) where
  trace   := by
    refine (h.trace.call h.lt (fun heq => ?_) hown).callback ?_
    · simp [heq, PqCall.outcome] at hc
    · rw [outcomes_call_self, h.undecided, hc]
      rfl
  le      := h.lt
  pending := h.pending
  waiting := h.waiting

theorem InHand.setConn (h : InHand p op begun) (conn : Option PGconn) : InHand { p with conn := conn } op begun :=
  ⟨h.trace, h.undecided, h.lt, h.pending, h.waiting⟩

theorem pqSend_spec (p : PgConnection) (a : PqAnswers) (op : Nat) : ∃ conn, (p.pqSend a op).2 = { p with conn := conn } ∧
    ((p.pqSend a op).1 = true → conn = some ⟨some op⟩) := by
  rw [pqSend]
  split
  · split
    · exact ⟨_, rfl, fun _ => rfl⟩
    · exact ⟨p.conn, rfl, fun h => by cases h⟩
  · exact ⟨p.conn, rfl, fun h => by cases h⟩

theorem Mine.pqGetResults_spec (h : Mine p op) (a : PqAnswers) :
    (∃ conn, (p.pqGetResults a).2.2 = { p with conn := conn }) ∧
    ((p.pqGetResults a).1 = some op ∨ (p.pqGetResults a).1 = none ∧ (p.pqGetResults a).2.1 = []) := by
  rw [pqGetResults]
  split
  · rename_i command hconn
    exact ⟨⟨_, rfl⟩, .inl (congrArg some (h _ hconn command rfl))⟩
  · exact ⟨⟨p.conn, rfl⟩, .inr ⟨rfl, rfl⟩⟩

section Continue

variable {answers : Nat → PqAnswers}

/-- What `StartNext` makes of the connection, for as many operations as are in the queue. -/
def Continues (answers : Nat → PqAnswers) (pending : List AsyncOp) : Prop :=
  ∀ (p : PgConnection) (op : Nat), p.pendingOps = pending → Ready p op → Invariant (startNext answers p)

theorem awaitSocket_inv (hnext : Continues answers p.pendingOps) (type : WaitType) {op : AsyncOp}
    (h : InHand p op.op (op.op + 1)) (hmine : Mine p op.op) (hactive : p.opActive = true) :
    Invariant (awaitSocket answers type op p) := by
  rw [awaitSocket]
  split
  · have hlogged := h.logs (c := .socket true) rfl (fun heq => nomatch heq)
    exact .busy type op hactive rfl ⟨hlogged.trace, hlogged.undecided, hlogged.lt, hlogged.pending, rfl⟩ hmine
  · exact hnext _ _ rfl (h.invoke rfl (by simp) _)

theorem collect_inv (hnext : Continues answers p.pendingOps) {op : AsyncOp} (h : InHand p op.op (op.op + 1))
    (hmine : Mine p op.op) (hactive : p.opActive = true) : Invariant (collect answers op p) := by
  rw [collect]
  dsimp only
  split
  · exact hnext _ _ rfl (h.invoke rfl (by simp) _)
  · have hconsumed := h.logs (c := .consumeInput none) rfl (fun heq => nomatch heq)
    split
    · have hbusy := hconsumed.logs (c := .isBusy) rfl (fun heq => nomatch heq)
      exact awaitSocket_inv (p := (p.logs op.op (.consumeInput none)).logs op.op .isBusy) hnext _ hbusy hmine hactive
    · have hmine' : Mine (p.logs op.op (.consumeInput none)) op.op := hmine
      obtain ⟨⟨conn, hconn⟩, hown⟩ := hmine'.pqGetResults_spec (answers op.op)
      rw [hconn]
      refine hnext _ _ rfl ((hconsumed.setConn conn).invoke rfl (fun command rs heq => ?_) _)
      obtain ⟨rfl, rfl⟩ := PqCall.results.inj heq
      exact hown

theorem continueOp_inv (hnext : Continues answers p.pendingOps) {op : AsyncOp} (h : InHand p op.op (op.op + 1))
    (hmine : Mine p op.op) (hactive : p.opActive = true) : Invariant (continueOp answers op p) := by
  rw [continueOp]
  dsimp only
  split
  · split
    · exact hnext _ _ rfl (h.invoke rfl (by simp) _)
    · have hflushed := h.logs (c := .flush .incomplete (p.pqErrorMessage (answers op.op))) rfl (fun heq => by cases heq)
      exact awaitSocket_inv (p := p.logs op.op _) hnext _ hflushed hmine hactive
    · have hflushed := h.logs (c := .flush .done (p.pqErrorMessage (answers op.op))) rfl (fun heq => by cases heq)
      exact collect_inv (p := p.logs op.op _) hnext hflushed hmine hactive
  · exact collect_inv hnext h hmine hactive

/-- An operation whose turn it is. -/
theorem startSend_inv (hnext : Continues answers p.pendingOps) (h : InHand p op op) (hactive : p.opActive = false) :
    Invariant (startSend answers op p) := by
  have hstart : InHand { p with opActive := true } op op := ⟨h.trace, h.undecided, h.lt, h.pending, h.waiting⟩
  rw [startSend, if_neg (Bool.eq_false_iff.1 hactive)]
  dsimp only
  split
  · exact hnext _ _ rfl (hstart.invoke rfl (by simp) _)
  · obtain ⟨conn, hconn, hsent⟩ := pqSend_spec { p with opActive := true } (answers op) op
    rw [hconn]
    split
    · exact hnext _ _ rfl ((hstart.setConn conn).invoke rfl (by simp) _)
    · rename_i hok
      have hbegun := (hstart.setConn conn).logs (c := .send none) rfl (fun _ => rfl)
      have hmine : ∀ conn', conn = some conn' → ∀ command, conn'.command = some command → command = op := by
        rintro _ hsome command hcommand
        rw [hsent (by simpa using hok), Option.some.injEq] at hsome
        rw [← hsome] at hcommand
        exact (Option.some.inj hcommand).symm
      exact continueOp_inv (p := logs { p with opActive := true, conn := conn } op (.send none)) hnext hbegun hmine rfl

theorem startNext_inv : ∀ pending : List AsyncOp, Continues answers pending
  | [],           p, op, hpending, h => by
    have hnone : p.submitted - op = 0 := by simpa [hpending] using h.pending.symm
    obtain rfl : op = p.submitted := Nat.le_antisymm h.le (Nat.le_of_sub_eq_zero hnone)
    rw [startNext]
    split
    · exact .idle rfl ⟨h.trace, h.le, h.pending, h.waiting⟩
    · rename_i heq
      rw [hpending] at heq
      cases heq
  | next :: rest, p, op, hpending, h => by
    have hqueue := h.pending
    rw [hpending, List.map_cons] at hqueue
    obtain ⟨left, hleft⟩ : ∃ left, p.submitted - op = left + 1 := by
      cases hlen : p.submitted - op with
      | zero      => simp [hlen] at hqueue
      | succ left => exact ⟨left, rfl⟩
    rw [hleft, List.range'_succ, List.cons.injEq] at hqueue
    obtain ⟨rfl, hrest⟩ := hqueue
    have hlt : next.op < p.submitted := by omega
    have hsub : p.submitted - (next.op + 1) = left := by omega
    rw [startNext]
    split
    · rename_i heq
      rw [hpending] at heq
      cases heq
    · rename_i next' rest' heq
      rw [hpending, List.cons.injEq] at heq
      obtain ⟨rfl, rfl⟩ := heq
      refine startSend_inv (startNext_inv rest) ⟨h.trace, ?_, hlt, ?_, h.waiting⟩ rfl
      · rw [outcomes, h.trace.untouched _ (Nat.le_refl _), List.filterMap_nil]
      · rw [hsub]
        exact hrest

end Continue

/-! ## Runs -/

/-- No wait is under way, so nothing is left to do. -/
theorem Invariant.complete (h : Invariant p) (hwaiting : p.waiting = none) : calledOps p.log = submittedOps p.log := by
  cases h with
  | idle _ ready               => exact ready.trace.called.trans ready.trace.submitted.symm
  | busy _ _ _ waiting _ _ => exact absurd (hwaiting.symm.trans waiting) (by simp)

theorem outcomes_submitted (op : Nat) (log : List PgEntry) (n : Nat) :
    outcomes op (log ++ [.submitted n]) = outcomes op log := by
  simp [outcomes, callsFor, PgEntry.callFor?]

theorem Invariant.submit (h : Invariant p) (answers : Nat → PqAnswers) : Invariant (p.step (.submit answers)) := by
  rw [step]
  cases h with
  | idle active ready                       =>
    refine startSend_inv (startNext_inv _) ⟨ready.trace.submit, ?_, Nat.lt_succ_self _, ?_, ready.waiting⟩ active
    · rw [outcomes_submitted, outcomes, ready.trace.untouched _ (Nat.le_refl _), List.filterMap_nil]
    · rw [ready.pending, Nat.sub_self, Nat.sub_self, List.range'_zero, List.range'_zero]
  | busy type op active waiting inHand mine =>
    rw [startSend, if_pos active]
    refine .busy type op active waiting
      ⟨inHand.trace.submit, ?_, Nat.lt_succ_of_lt inHand.lt, ?_, rfl⟩ mine
    · rw [outcomes_submitted]
      exact inHand.undecided
    · -- the new operation is the last one of the queue
      have hlt : op.op < p.submitted := inHand.lt
      have hlen : p.submitted + 1 - (op.op + 1) = p.submitted - (op.op + 1) + 1 := by omega
      have hlast : op.op + 1 + (p.submitted - (op.op + 1)) = p.submitted := by omega
      rw [List.map_append, inHand.pending, hlen, List.range'_concat, Nat.one_mul, hlast]
      rfl

theorem Invariant.waited (h : Invariant p) (error : Option String) (answers : Nat → PqAnswers) :
    Invariant (p.onWait error answers) := by
  cases h with
  | idle active ready                       =>
    rw [onWait, ready.waiting]
    exact .idle active ready
  | busy type op active waiting inHand mine =>
    rw [onWait, waiting]
    dsimp only
    cases error with
    | none         =>
      have hwaited := inHand.logs (c := .wait type none) rfl (fun heq => nomatch heq)
      exact continueOp_inv (startNext_inv _) hwaited mine active
    | some message => exact startNext_inv _ _ _ rfl (inHand.invoke rfl (by simp) _)

theorem Invariant.step (h : Invariant p) (e : PgEvent) : Invariant (p.step e) := by
  cases e with
  | submit answers       => exact h.submit answers
  | waited error answers => exact h.waited error answers
  | task task            =>
    cases h with
    | idle active ready                       => exact .idle active ⟨ready.trace, ready.le, ready.pending, ready.waiting⟩
    | busy type op active waiting inHand mine =>
      refine .busy type op active waiting ⟨inHand.trace, inHand.undecided, inHand.lt, inHand.pending, rfl⟩ ?_
      intro conn hconn command hcommand
      cases task with
      | closeSync             => cases hconn
      | connectSync allocated =>
        cases allocated with
        | false => cases hconn
        | true  =>
          cases hconn
          cases hcommand

end PgConnection

end Gb
