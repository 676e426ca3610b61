import GbServer.Lib.Cyclic
import GbServer.RpcEntries
/-!
# RpcSequences — the numbers of the calls that are outstanding

`AllocRpcSeq` gives out the numbers of a cycle of 2^32, and `StorePendingRpc` overwrites what is stored under a number.
So what is stored must be gone before its number comes again, and before its call object is used for another call: a
response to the number of the earlier call completes the later one, and what removes the entry of the earlier one takes
what the object says then, which is the number of the later one.  Where a call finds nothing left of the earlier ones
(`Clear`), no two outstanding calls of a worker share a number, no entry is replaced, and a response completes the call
that has its number (`run_sequenced`).
-/
namespace Gb

open Run (Along)
open Tally

namespace RpcSystem

/-! ## What a step does at most -/

/-- A step that makes no call: what there is after it was there before, or comes from what was there. -/
structure Recedes (s t : RpcSystem) : Prop where
  numbered   : t.numbered = s.numbered
  generation : ∀ c, (t.calls c).generation = (s.calls c).generation
  pending    : ∀ c, (t.calls c).state = .pending → (s.calls c).state = .pending
  waits      : ∀ worker seq c, t.Waits worker seq c → s.Waits worker seq c
  completing : ∀ c session m, t.Completing c session m → s.Completing c session m ∨
    ∃ worker seq, s.Placed worker (.response session m seq) ∧ s.Waits worker seq c
  left       : ∀ run session m, (run, .response session m) ∈ t.left → (run, .response session m) ∈ s.left ∨
    s.Completing run.1 session m ∧ (s.calls run.1).state = .pending ∧ run.2 = (s.calls run.1).generation

/-- The event makes a call. -/
def Calls (s : RpcSystem) (event : RpcEvent) : Prop :=
  ∃ worker c m, event = .called worker c m ∧ s.MayCall (.worker worker) ∧ (s.workers[worker]?).isSome = true

theorem step_recedes {s : RpcSystem} {event : RpcEvent} (hevent : ¬s.Calls event) : s.Recedes (s.step event) := by
  have hcourse := s.step_course event
  generalize s.step event = t at hcourse
  cases hcourse with
  | fades hf =>
    exact ⟨hf.numbered, hf.generation, hf.pending, hf.waits, fun c session m hc => .inl (hf.completing c session m hc),
      fun run session m hl => .inl (hf.left run session m hl)⟩
  | calls hw hmay => exact absurd ⟨_, _, _, rfl, hmay, by rw [hw]; rfl⟩ hevent
  | receives hmode =>
    refine ⟨rfl, fun _ => rfl, fun _ => id, fun _ _ _ => id, ?_, fun _ _ _ => .inl⟩
    rintro c session m ⟨op, hop, hdone⟩
    rcases List.mem_cons.1 hop with rfl | hop
    · simp at hdone
    · exact .inl ⟨op, hop, hdone⟩
  | @takes _ t worker seq c session m hplaced hwaits hf thread =>
    refine ⟨hf.numbered, hf.generation, hf.pending, hf.waits, ?_, fun run session m hl => .inl (hf.left run session m hl)⟩
    rintro c' session' m' ⟨op, hop, hdone⟩
    rcases List.mem_cons.1 hop with rfl | hop
    · simp only [List.mem_singleton, Action.done.injEq] at hdone
      obtain ⟨rfl, rfl, rfl⟩ := hdone
      exact .inr ⟨worker, seq, hplaced, hwaits⟩
    · exact .inl (hf.completing c' session' m' ⟨op, hop, hdone⟩)
  | @completes _ t c session m hcompleting hpending hf =>
    refine ⟨hf.numbered, hf.generation, hf.pending, hf.waits, fun c session m hc => .inl (hf.completing c session m hc),
      fun run session' m' hl => ?_⟩
    rcases List.mem_cons.1 hl with heq | hl
    · simp only [Prod.mk.injEq, Outcome.response.injEq] at heq
      obtain ⟨rfl, rfl, rfl⟩ := heq
      exact .inr ⟨hcompleting, hpending, rfl⟩
    · exact .inl (hf.left run session' m' hl)

/-! ## What a call does -/

/-- The object of a call, its number and what is stored. -/
structure Made (s : RpcSystem) (worker : Nat) (c : CallId) (w : Worker RpcTask) (t : RpcSystem) : Prop where
  numbered   : t.numbered = ((c, (s.calls c).generation + 1), SequenceId.value ⟨worker, w.rpcSeqCounter⟩) :: s.numbered
  generation : (t.calls c).generation = (s.calls c).generation + 1
  number     : (t.calls c).workerIndex = worker ∧ (t.calls c).localSeq = w.rpcSeqCounter
  others     : ∀ c', c' ≠ c → t.calls c' = s.calls c'
  length     : t.workers.length = s.workers.length
  workers    : ∀ worker' v, t.workers[worker']? = some v →
    worker' = worker ∧ v.rpcSeqCounter = (w.rpcSeqCounter + 1) % 2 ^ 32 ∨
      worker' ≠ worker ∧ s.workers[worker']? = some v
  stored     : t.Waits worker w.rpcSeqCounter c
  waits      : ∀ worker' seq c', t.Waits worker' seq c' →
    (worker' = worker ∧ seq = w.rpcSeqCounter ∧ c' = c) ∨ s.Waits worker' seq c'
  stays      : ∀ worker' seq c', s.Waits worker' seq c' →
    (worker' = worker ∧ seq = w.rpcSeqCounter) ∨ t.Waits worker' seq c'
  completing : ∀ c' session m, t.Completing c' session m ↔ s.Completing c' session m
  leftover   : ∀ c', t.Leftover c' → s.Leftover c'
  left       : t.left = s.left

theorem callImpl_made {s : RpcSystem} {worker : Nat} (c : CallId) (m : Meta) {w : Worker RpcTask}
    (hw : s.workers[worker]? = some w) : s.Made worker c w (s.callImpl worker c m) where
  numbered   := callImpl_numbered hw
  generation := by simp [callImpl, hw, RpcSystem.begin, modifyCall]
  number     := by simp [callImpl, hw, RpcSystem.begin, modifyCall, Worker.allocRpcSeq]
  others     := fun c' hc => by simp [callImpl, hw, RpcSystem.begin, modifyCall, hc]
  length     := by simp [callImpl, hw, RpcSystem.begin, modifyCall]
  workers    := fun worker' v hv => by
    simp only [callImpl, hw] at hv
    obtain ⟨u, hold, ⟨rfl, rfl⟩ | ⟨hne, rfl⟩⟩ := of_getElem?_modify hv
    · rw [hw] at hold
      obtain rfl := Option.some.inj hold
      exact .inl ⟨rfl, rfl⟩
    · exact .inr ⟨Ne.symm hne, hold⟩
  stored     := by
    refine ⟨w.allocRpcSeq.2.storePendingRpc w.rpcSeqCounter c, ?_, ?_⟩
    · simp [callImpl, hw, RpcSystem.begin, modifyCall, Worker.allocRpcSeq]
    · simp [Worker.storePendingRpc]
  waits      := fun worker' seq c' hc => (callImpl_waits hw hc).imp_right And.right
  stays      := by
    rintro worker' seq c' ⟨v, hv, hc⟩
    by_cases hworker : worker' = worker
    · subst hworker
      rw [hw] at hv
      obtain rfl := Option.some.inj hv
      by_cases hseq : seq = w.rpcSeqCounter
      · exact .inl ⟨rfl, hseq⟩
      · refine .inr ⟨w.allocRpcSeq.2.storePendingRpc w.rpcSeqCounter c, ?_, ?_⟩
        · simp [callImpl, hw, RpcSystem.begin, modifyCall, Worker.allocRpcSeq]
        · simp [Worker.storePendingRpc, Worker.allocRpcSeq, hseq, hc]
    · refine .inr ⟨v, ?_, hc⟩
      simp [callImpl, hw, RpcSystem.begin, modifyCall, Ne.symm hworker, hv]
  completing := fun c' session m' => by
    constructor
    · exact callImpl_completing
    · rintro ⟨op, hop, hdone⟩
      refine ⟨op, ?_, hdone⟩
      simp [callImpl, hw, RpcSystem.begin, modifyCall, hop]
  leftover   := fun c' hc => by
    simp only [callImpl, hw] at hc
    rcases leftover_begin (by simp) hc with hc | hc
    · exact leftover_modify hc rfl rfl fun _ _ => id
    · simp at hc
  left       := (s.callImpl_books worker c m).2.1

/-! ## Outstanding calls and their numbers -/

/-- A call was made on the object, and is not completed. -/
def Outstanding (s : RpcSystem) (c : CallId) : Prop := 0 < (s.calls c).generation ∧ (s.calls c).state = .pending

/-- The number that a call object says it has. -/
def sequenceId (s : RpcSystem) (c : CallId) : SequenceId := ⟨(s.calls c).workerIndex, (s.calls c).localSeq⟩

/-- Something is there that is for a call of the object, or will take the entry of one. -/
def Remains (s : RpcSystem) (c : CallId) : Prop :=
  (∃ worker seq, s.Waits worker seq c) ∨ (∃ session m, s.Completing c session m) ∨ s.Leftover c

/-- The calls that a worker made, with their numbers, the last one first. -/
def own (s : RpcSystem) (worker : Nat) : List (CallRun × Nat) :=
  s.numbered.filter fun x => (SequenceId.ofValue x.2).index = worker

/-- Where a call is made, nothing remains of earlier calls of its object, nor of the call that had its number before; and
where a call that never was made is taken from its worker, nothing is stored there. -/
def Clear (s : RpcSystem) : RpcEvent → Prop
  | .called worker c _ => s.MayCall (.worker worker) → ¬s.Remains c ∧
    ∀ x, (s.own worker)[2 ^ 32 - 1]? = some x → (s.calls x.1.1).generation = x.1.2 → ¬s.Remains x.1.1
  | .acted k           => ∀ op, s.ops[k]? = some op → ∀ c, op.2.head? = some (.take c) → (s.calls c).generation = 0 →
    ∀ c', ¬s.Waits (s.calls c).workerIndex (s.calls c).localSeq c'
  | _                  => True

/-- No two outstanding calls of a worker have one number, and a response completed a call that was given its number. -/
structure Sequenced (s : RpcSystem) : Prop where
  unique  : ∀ c c', s.Outstanding c → s.Outstanding c' → s.sequenceId c = s.sequenceId c' → c = c'
  carried : ∀ c, s.Outstanding c → ((c, (s.calls c).generation), (s.sequenceId c).value) ∈ s.numbered
  answers : ∀ run session m, (run, .response session m) ∈ s.left → (run, m.sequence) ∈ s.numbered

/-- A call replaces no entry; and a response that a worker takes from its queue completes the outstanding call that has
its number, if no other response already does. -/
def Exact (s : RpcSystem) : RpcEvent → Prop
  | .called worker _ _ => s.MayCall (.worker worker) → ∀ w, s.workers[worker]? = some w →
    w.pendingRpcs w.allocRpcSeq.1 = none
  | .worked worker k   => ∀ w, s.workers[worker]? = some w → w.exited = false → s.Idle (.worker worker) →
    ∀ session m seq, w.events[k]? = some (.response session m seq) → ∀ c, s.Outstanding c →
      (s.sequenceId c).value = m.sequence →
        (s.step (.worked worker k)).Completing c session m ∨ ∃ session' m', s.Completing c session' m'
  | _                  => True

/-! ## The invariant -/

/-- The counters gave out the numbers; what is there for a call goes by the number that its object says, which is one of
the last 2^32 of its worker; and an outstanding call is stored there or about to be completed. -/
structure Numbers (s : RpcSystem) : Prop where
  named      : s.Named
  owned      : ∀ x ∈ s.numbered, (SequenceId.ofValue x.2).index < s.workers.length
  counts     : ∀ worker w, s.workers[worker]? = some w →
    Cyclic.Counts (2 ^ 32) ((s.own worker).map fun x => (SequenceId.ofValue x.2).seq) w.rpcSeqCounter
  current    : ∀ c, 0 < (s.calls c).generation → s.Remains c ∨ (s.calls c).state = .pending →
    ∃ j n, j < 2 ^ 32 ∧ (s.own (s.sequenceId c).index)[j]? = some ((c, (s.calls c).generation), n) ∧
      (s.sequenceId c).value = n ∧ SequenceId.ofValue n = s.sequenceId c
  waits      : ∀ worker seq c, s.Waits worker seq c → s.sequenceId c = ⟨worker, seq⟩ ∧ 0 < (s.calls c).generation
  completing : ∀ c session m, s.Completing c session m →
    (s.sequenceId c).value = m.sequence ∧ 0 < (s.calls c).generation
  leftover   : ∀ c, s.Leftover c → (s.calls c).state ≠ .pending
  answerable : ∀ c, s.Outstanding c → s.Waits (s.sequenceId c).index (s.sequenceId c).seq c ∨
    ∃ session m, s.Completing c session m
  left       : ∀ run session m, (run, .response session m) ∈ s.left → (run, m.sequence) ∈ s.numbered

/-- A response takes the call that waits under its number. -/
theorem worked_completing {s : RpcSystem} {worker k seq : Nat} {w : Worker RpcTask} {session : SessionId} {m : Meta}
    {c : CallId} (hw : s.workers[worker]? = some w) (hexited : w.exited = false) (hidle : s.Idle (.worker worker))
    (htask : w.events[k]? = some (.response session m seq)) (hwaits : s.Waits worker seq c) :
    (s.step (.worked worker k)).Completing c session m := by
  obtain ⟨v, hv, hc⟩ := hwaits
  rw [hw] at hv
  obtain rfl := Option.some.inj hv
  refine ⟨(.worker worker, [.done c session m]), ?_, List.mem_singleton.2 rfl⟩
  simp [step, hw, hexited, hidle, htask, runTask, Worker.takePendingRpc, hc, RpcSystem.begin]

namespace Numbers

variable {s : RpcSystem}

theorem init : Numbers {} where
  named      := .init
  owned      := fun _ hx => nomatch hx
  counts     := fun _ _ hw => nomatch hw
  current    := fun _ hgen => absurd hgen (Nat.lt_irrefl 0)
  waits      := by
    rintro _ _ _ ⟨_, hw, _⟩
    cases hw
  completing := by
    rintro _ _ _ ⟨_, hop, _⟩
    cases hop
  leftover   := by
    rintro c (⟨_, hop, _⟩ | ⟨_, _, hop, _⟩ | ⟨_, _, ⟨_, hop, _⟩ | ⟨_, hw, _⟩⟩)
    · cases hop
    · cases hop
    · cases hop
    · cases hw
  answerable := fun _ h => absurd h.1 (Nat.lt_irrefl 0)
  left       := fun _ _ _ hl => nomatch hl

/-- What is there for an outstanding call. -/
theorem remains (h : s.Numbers) {c : CallId} (hc : s.Outstanding c) : s.Remains c := by
  rcases h.answerable c hc with hwaits | hcompleting
  · exact .inl ⟨_, _, hwaits⟩
  · exact .inr (.inl hcompleting)

/-- Two calls for which something is there do not have one number. -/
theorem unique (h : s.Numbers) {c c' : CallId} (hgen : 0 < (s.calls c).generation)
    (hc : s.Remains c ∨ (s.calls c).state = .pending) (hgen' : 0 < (s.calls c').generation)
    (hc' : s.Remains c' ∨ (s.calls c').state = .pending) (hid : s.sequenceId c = s.sequenceId c') : c = c' := by
  obtain ⟨j, n, hj, hown, _, hvalue⟩ := h.current c hgen hc
  obtain ⟨j', n', hj', hown', _, hvalue'⟩ := h.current c' hgen' hc'
  have hmem := List.mem_filter.1 (List.mem_of_getElem? hown)
  have hlt := h.owned _ hmem.1
  rw [hvalue] at hlt
  rw [← hid] at hown' hvalue'
  have hcounts := h.counts _ _ (List.getElem?_eq_getElem hlt)
  have heq : j = j' := by
    apply hcounts.unique (n := (s.sequenceId c).seq) _ _ hj hj'
    · simp [hown, hvalue]
    · simp [hown', hvalue']
  subst heq
  rw [hown] at hown'
  simp only [Option.some.injEq, Prod.mk.injEq] at hown'
  exact hown'.1.1

/-- What is taken from a worker is not an outstanding call. -/
theorem not_takes (h : s.Numbers) {event : RpcEvent} (hclear : s.Clear event) {c : CallId} (hc : s.Outstanding c)
    (hwaits : s.Waits (s.sequenceId c).index (s.sequenceId c).seq c) :
    ¬s.Takes event (s.sequenceId c).index (s.sequenceId c).seq := by
  rintro ⟨k, op, c', rfl, hop, hhead, hindex, hseq⟩
  have hleftover : s.Leftover c' := .inl ⟨op, List.mem_of_getElem? hop, List.mem_of_mem_head? hhead⟩
  by_cases hgen : (s.calls c').generation = 0
  · apply hclear op hop c' hhead hgen c
    rwa [← hindex, ← hseq]
  · have hid : s.sequenceId c' = s.sequenceId c := by
      rw [sequenceId, ← hindex, ← hseq]
    have heq := h.unique (Nat.pos_of_ne_zero hgen) (.inl (.inr (.inr hleftover))) hc.1 (.inr hc.2) hid
    subst heq
    exact h.leftover c' hleftover hc.2

/-- A step that makes no call. -/
theorem step_quiet (h : s.Numbers) {event : RpcEvent} (hclear : s.Clear event) (hevent : ¬s.Calls event) :
    (s.step event).Numbers := by
  have hnamed := h.named.step event
  have hrecedes := step_recedes hevent
  have hentries : s.Entries event (s.step event) := by
    apply step_entries
    intro worker c m heq hmay
    cases hw : s.workers[worker]? with
    | none   => rfl
    | some w => exact absurd ⟨worker, c, m, heq, hmay, by rw [hw]; rfl⟩ hevent
  generalize s.step event = t at hnamed hrecedes hentries
  have hid : ∀ c, t.sequenceId c = s.sequenceId c := by
    intro c
    simp only [sequenceId, hentries.calls c]
  have hown : ∀ worker, t.own worker = s.own worker := by
    intro worker
    rw [own, hrecedes.numbered]
    rfl
  have hout : ∀ c, t.Outstanding c → s.Outstanding c := by
    intro c hc
    exact ⟨hrecedes.generation c ▸ hc.1, hrecedes.pending c hc.2⟩
  have hremains : ∀ c, t.Remains c → s.Remains c ∨ (s.calls c).state = .pending := by
    rintro c (⟨worker, seq, hc⟩ | ⟨session, m, hc⟩ | hc)
    · exact .inl (.inl ⟨worker, seq, hrecedes.waits worker seq c hc⟩)
    · rcases hrecedes.completing c session m hc with hc | ⟨worker, seq, _, hc⟩
      · exact .inl (.inr (.inl ⟨session, m, hc⟩))
      · exact .inl (.inl ⟨worker, seq, hc⟩)
    · rcases hentries.leftover c hc with hc | hc
      · exact .inl (.inr (.inr hc))
      · exact .inr hc.1
  refine ⟨hnamed, fun x hx => ?_, fun worker w hw => ?_, fun c hgen hc => ?_, fun worker seq c hc => ?_,
    fun c session m hc => ?_, fun c hc => ?_, fun c hc => ?_, fun run session m hl => ?_⟩
  · rw [hrecedes.numbered] at hx
    exact Nat.lt_of_lt_of_le (h.owned x hx) hentries.length
  · rw [hown]
    rcases hentries.workers worker w hw with ⟨v, hv, heq⟩ | hnew
    · rw [← heq]
      exact h.counts worker v hv
    · -- a new worker has given out no numbers
      have hnone : s.own worker = [] := by
        apply List.filter_eq_nil_iff.2
        intro x hx
        have hlt := h.owned x hx
        simp only [decide_eq_true_eq]
        omega
      rw [hnone]
      exact Cyclic.Counts.nil _ _
  · rw [hid, hown, hrecedes.generation]
    apply h.current c
    · rwa [← hrecedes.generation]
    · rcases hc with hc | hc
      · exact hremains c hc
      · exact .inr (hrecedes.pending c hc)
  · rw [hid, hrecedes.generation]
    exact h.waits worker seq c (hrecedes.waits worker seq c hc)
  · rw [hid, hrecedes.generation]
    rcases hrecedes.completing c session m hc with hc | ⟨worker, seq, hplaced, hwaits⟩
    · exact h.completing c session m hc
    · obtain ⟨heq, hgen⟩ := h.waits worker seq c hwaits
      rw [heq]
      exact ⟨h.named.value_eq hplaced, hgen⟩
  · rcases hentries.leftover c hc with hc | hc
    · exact fun hpending => h.leftover c hc (hrecedes.pending c hpending)
    · exact hc.2
  · rw [hid]
    rcases h.answerable c (hout c hc) with hwaits | ⟨session, m, hcompleting⟩
    · rcases hentries.waits _ _ c hwaits with hwaits | hcompleting | htakes
      · exact .inl hwaits
      · exact .inr hcompleting
      · exact absurd htakes (h.not_takes hclear (hout c hc) hwaits)
    · rcases hentries.completing c session m hcompleting with hcompleting | hstate
      · exact .inr ⟨session, m, hcompleting⟩
      · exact absurd hc.2 hstate
  · rw [hrecedes.numbered]
    rcases hrecedes.left run session m hl with hl | ⟨hcompleting, hpending, hrun⟩
    · exact h.left run session m hl
    · -- the call that is completed is outstanding, with the number of the response
      obtain ⟨hvalue, hgen⟩ := h.completing run.1 session m hcompleting
      obtain ⟨j, n, _, hj, hn, _⟩ := h.current run.1 hgen (.inr hpending)
      rw [← hvalue, hn]
      rw [← hrun] at hj
      exact (List.mem_filter.1 (List.mem_of_getElem? hj)).1

/-- Where a call is made, the numbers of its worker that are in use are not the oldest, nor the new one. -/
theorem recent (h : s.Numbers) {worker : Nat} {w : Worker RpcTask} (hw : s.workers[worker]? = some w)
    (hfree : ∀ x, (s.own worker)[2 ^ 32 - 1]? = some x → (s.calls x.1.1).generation = x.1.2 → ¬s.Remains x.1.1)
    {c : CallId} (hgen : 0 < (s.calls c).generation) (hc : s.Remains c ∨ (s.calls c).state = .pending)
    (hworker : (s.sequenceId c).index = worker) : ∃ j n, j + 1 < 2 ^ 32 ∧
      (s.own worker)[j]? = some ((c, (s.calls c).generation), n) ∧ (s.sequenceId c).value = n ∧
      SequenceId.ofValue n = s.sequenceId c ∧ (s.sequenceId c).seq ≠ w.rpcSeqCounter := by
  obtain ⟨j, n, hj, hown, hn, hvalue⟩ := h.current c hgen hc
  rw [hworker] at hown
  have hremains : s.Remains c := by
    rcases hc with hc | hc
    · exact hc
    · exact h.remains ⟨hgen, hc⟩
  have hlt : j + 1 < 2 ^ 32 := by
    have hne : j ≠ 2 ^ 32 - 1 := by
      rintro rfl
      exact hfree _ hown rfl hremains
    omega
  refine ⟨j, n, hlt, hown, hn, hvalue, fun hseq => ?_⟩
  have hlast := (h.counts worker w hw).oldest (j := j) (by simp [hown, hvalue, hseq]) hj
  omega

/-- A call is made. -/
theorem step_call (h : s.Numbers) {worker : Nat} {c : CallId} {m : Meta} {w : Worker RpcTask}
    (hw : s.workers[worker]? = some w) (hmay : s.MayCall (.worker worker)) (hclear : s.Clear (.called worker c m)) :
    (s.step (.called worker c m)).Numbers := by
  have hnamed := h.named.step (.called worker c m)
  obtain ⟨hnone, hfree⟩ := hclear hmay
  have hmade := callImpl_made c m hw
  have hstep : s.step (.called worker c m) = s.callImpl worker c m := if_pos hmay
  rw [hstep] at hnamed ⊢
  generalize s.callImpl worker c m = t at hnamed hmade
  have hsmall : worker < 2 ^ 32 ∧ w.rpcSeqCounter < 2 ^ 32 := by
    have hlen := h.named.small.1
    have hlt := (List.getElem?_eq_some_iff.1 hw).1
    exact ⟨by omega, h.named.small.2 w (List.mem_of_getElem? hw)⟩
  have hofValue := SequenceId.ofValue_value hsmall.1 hsmall.2
  have hid : t.sequenceId c = ⟨worker, w.rpcSeqCounter⟩ := by
    rw [sequenceId, hmade.number.1, hmade.number.2]
  have hothers : ∀ c', c' ≠ c → t.sequenceId c' = s.sequenceId c' := by
    intro c' hc'
    simp only [sequenceId, hmade.others c' hc']
  have hown : t.own worker =
      ((c, (s.calls c).generation + 1), SequenceId.value ⟨worker, w.rpcSeqCounter⟩) :: s.own worker := by
    rw [own, hmade.numbered, List.filter_cons_of_pos (by simp [hofValue])]
    rfl
  have hownElse : ∀ worker', worker' ≠ worker → t.own worker' = s.own worker' := by
    intro worker' hne
    rw [own, hmade.numbered, List.filter_cons_of_neg (by simp [hofValue, Ne.symm hne])]
    rfl
  -- nothing of an earlier call of the object is there, so what there is of others was there before
  have hold : ∀ c', c' ≠ c → t.Remains c' → s.Remains c' := by
    rintro c' hc' (⟨worker', seq, hwaits⟩ | ⟨session, m', hcompleting⟩ | hleftover)
    · rcases hmade.waits worker' seq c' hwaits with ⟨_, _, heq⟩ | hwaits
      · exact absurd heq hc'
      · exact .inl ⟨worker', seq, hwaits⟩
    · exact .inr (.inl ⟨session, m', (hmade.completing c' session m').1 hcompleting⟩)
    · exact .inr (.inr (hmade.leftover c' hleftover))
  refine ⟨hnamed, fun x hx => ?_, fun worker' v hv => ?_, fun c' hgen hc' => ?_, fun worker' seq c' hc' => ?_,
    fun c' session m' hc' => ?_, fun c' hc' => ?_, fun c' hc' => ?_, fun run session m' hl => ?_⟩
  · rw [hmade.length]
    rw [hmade.numbered] at hx
    rcases List.mem_cons.1 hx with rfl | hx
    · rw [hofValue]
      exact (List.getElem?_eq_some_iff.1 hw).1
    · exact h.owned x hx
  · rcases hmade.workers worker' v hv with ⟨rfl, hcounter⟩ | ⟨hne, hv⟩
    · rw [hown, hcounter, List.map_cons, hofValue]
      exact (h.counts worker' w hw).issue
    · rw [hownElse worker' hne]
      exact h.counts worker' v hv
  · by_cases heq : c' = c
    · subst heq
      rw [hid]
      refine ⟨0, SequenceId.value ⟨worker, w.rpcSeqCounter⟩, by omega, ?_, rfl, hofValue⟩
      rw [hown, hmade.generation]
      rfl
    · rw [hothers c' heq, hmade.others c' heq]
      rw [hmade.others c' heq] at hgen hc'
      have hthere := hc'.imp_left (hold c' heq)
      by_cases hworker : (s.sequenceId c').index = worker
      · obtain ⟨j, n, hj, hget, hn, hvalue, _⟩ := h.recent hw hfree hgen hthere hworker
        refine ⟨j + 1, n, hj, ?_, hn, hvalue⟩
        rw [hworker, hown]
        exact hget
      · rw [hownElse _ hworker]
        exact h.current c' hgen hthere
  · rcases hmade.waits worker' seq c' hc' with ⟨rfl, rfl, rfl⟩ | hc'
    · rw [hid, hmade.generation]
      exact ⟨rfl, Nat.succ_pos _⟩
    · have hne : c' ≠ c := by
        rintro rfl
        exact hnone (.inl ⟨worker', seq, hc'⟩)
      rw [hothers c' hne, hmade.others c' hne]
      exact h.waits worker' seq c' hc'
  · rw [hmade.completing] at hc'
    have hne : c' ≠ c := by
      rintro rfl
      exact hnone (.inr (.inl ⟨session, m', hc'⟩))
    rw [hothers c' hne, hmade.others c' hne]
    exact h.completing c' session m' hc'
  · have hc' := hmade.leftover c' hc'
    have hne : c' ≠ c := by
      rintro rfl
      exact hnone (.inr (.inr hc'))
    rw [hmade.others c' hne]
    exact h.leftover c' hc'
  · by_cases heq : c' = c
    · subst heq
      rw [hid]
      exact .inl hmade.stored
    · rw [hothers c' heq]
      rw [Outstanding, hmade.others c' heq] at hc'
      rcases h.answerable c' hc' with hwaits | ⟨session, m', hcompleting⟩
      · rcases hmade.stays _ _ c' hwaits with ⟨hworker, hseq⟩ | hwaits
        · -- the new number is not that of an outstanding call
          obtain ⟨_, _, _, _, _, _, hne⟩ := h.recent hw hfree hc'.1 (.inr hc'.2) hworker
          exact absurd hseq hne
        · exact .inl hwaits
      · exact .inr ⟨session, m', (hmade.completing c' session m').2 hcompleting⟩
  · rw [hmade.left] at hl
    rw [hmade.numbered]
    exact List.mem_cons_of_mem _ (h.left run session m' hl)

theorem step (h : s.Numbers) (event : RpcEvent) (hclear : s.Clear event) : (s.step event).Numbers := by
  by_cases hevent : s.Calls event
  · obtain ⟨worker, c, m, rfl, hmay, hsome⟩ := hevent
    obtain ⟨w, hw⟩ := Option.isSome_iff_exists.1 hsome
    exact h.step_call hw hmay hclear
  · exact h.step_quiet hclear hevent

theorem sequenced (h : s.Numbers) : s.Sequenced where
  unique  := fun c c' hc hc' hid => h.unique hc.1 (.inr hc.2) hc'.1 (.inr hc'.2) hid
  carried := fun c hc => by
    obtain ⟨j, n, _, hj, hn, _⟩ := h.current c hc.1 (.inr hc.2)
    rw [hn]
    exact (List.mem_filter.1 (List.mem_of_getElem? hj)).1
  answers := h.left

/-- Nothing is stored under the number of a new call. -/
theorem pendingRpcs_eq_none (h : s.Numbers) {worker : Nat} {w : Worker RpcTask} (hw : s.workers[worker]? = some w)
    (hfree : ∀ x, (s.own worker)[2 ^ 32 - 1]? = some x → (s.calls x.1.1).generation = x.1.2 → ¬s.Remains x.1.1) :
    w.pendingRpcs w.rpcSeqCounter = none := by
  cases hc : w.pendingRpcs w.rpcSeqCounter with
  | none   => rfl
  | some c =>
    have hwaits : s.Waits worker w.rpcSeqCounter c := ⟨w, hw, hc⟩
    obtain ⟨hid, hgen⟩ := h.waits worker w.rpcSeqCounter c hwaits
    obtain ⟨_, _, _, _, _, _, hne⟩ := h.recent hw hfree hgen (.inl (.inl ⟨_, _, hwaits⟩)) (by rw [hid])
    rw [hid] at hne
    exact absurd rfl hne

/-- A response finds the outstanding call that has its number. -/
theorem exact (h : s.Numbers) (event : RpcEvent) (hclear : s.Clear event) : s.Exact event := by
  cases event with
  | called worker c m => exact fun hmay w hw => h.pendingRpcs_eq_none hw (hclear hmay).2
  | worked worker k   =>
    intro w hw hexited hidle session m seq htask c hc hvalue
    rcases h.answerable c hc with hwaits | hcompleting
    · have hplaced : s.Placed worker (.response session m seq) := .inr ⟨w, hw, List.mem_of_getElem? htask⟩
      obtain ⟨_, n, _, _, hn, hofValue⟩ := h.current c hc.1 (.inr hc.2)
      have hid : s.sequenceId c = ⟨worker, seq⟩ := by
        rw [← hofValue, ← hn, hvalue]
        exact h.named.placed worker session m seq hplaced
      rw [hid] at hwaits
      exact .inl (worked_completing hw hexited hidle htask hwaits)
    · exact .inr hcompleting
  | _ => trivial

end Numbers

/-- **Where a call finds nothing left of the earlier ones, no two outstanding calls of a worker share a number, no entry
is replaced, and each response completes the call that has its number.** -/
theorem run_sequenced (events : List RpcEvent) (h : Along step Clear {} events) :
    (events.foldl step {}).Sequenced ∧ Along step Exact {} events := by
  have hstep : ∀ (s : RpcSystem) event, s.Numbers → s.Clear event → (s.step event).Numbers :=
    fun s event hs hclear => hs.step event hclear
  constructor
  · exact (Run.foldl_inv hstep events .init h).sequenced
  · exact Run.along_of_inv hstep (fun s event hs hclear => hs.exact event hclear) events .init h

/-- A call is made on an object, and again before it is answered; then comes the response with the number of the first. -/
def calledTwice : List RpcEvent :=
  [.created, .changed 0 .onStart, .setSession 0 (some 5), .called 0 0 .init, .acted 0, .called 0 0 .init, .acted 0,
    .received 0 5 firstResponse, .acted 0, .acted 0, .worked 0 0, .acted 0]

theorem run_sequenced_answered : Along step Clear {} (answered 5) ∧ ((answered 5).foldl step {}).Sequenced ∧
    Along step Exact {} (answered 5) := by
  have hnew : Clear (([.created, .changed 0 .onStart, .setSession 0 (some 5)] : List RpcEvent).foldl step {})
      (.called 0 0 .init) := by
    refine fun _ => ⟨?_, fun x hx => ?_⟩
    · rintro (⟨worker, seq, v, hv, hc⟩ | ⟨session, m, op, hop, _⟩ | ⟨op, hop, _⟩ | ⟨g, op, hop, _⟩ |
        ⟨worker, g, ⟨op, hop, _⟩ | ⟨v, hv, hmem⟩⟩)
      · obtain rfl := List.mem_singleton.1 (List.mem_of_getElem? hv)
        cases hc
      · cases hop
      · cases hop
      · cases hop
      · cases hop
      · obtain rfl := List.mem_singleton.1 (List.mem_of_getElem? hv)
        cases hmem
    · cases hx
  -- none of its operations takes a call from its worker
  have hacted : ∀ (s : RpcSystem) action, s.ops[0]?.map (fun op => op.2.head?) = some (some action) →
      (∀ c, action ≠ .take c) → s.Clear (.acted 0) := by
    intro s action hhead haction op hop c htake
    rw [hop, Option.map_some, htake] at hhead
    exact absurd (Option.some.inj (Option.some.inj hhead)).symm (haction c)
  have halong : Along step Clear {} (answered 5) :=
    ⟨trivial, trivial, trivial, hnew, hacted _ _ rfl nofun, trivial, hacted _ _ rfl nofun, hacted _ _ rfl nofun, trivial,
      hacted _ _ rfl nofun, trivial⟩
  exact ⟨halong, run_sequenced (answered 5) halong⟩

/-- The response completes the second call, which has another number. -/
theorem not_run_sequenced : ¬∀ events : List RpcEvent, (events.foldl step {}).Sequenced ∧ Along step Exact {} events := by
  intro h
  have hleft : (calledTwice.foldl step {}).left = [((0, 2), .response 5 firstResponse)] := rfl
  have hnumbered : (calledTwice.foldl step {}).numbered = [((0, 2), 2 * 2 ^ 32), ((0, 1), 2 ^ 32)] := rfl
  have hanswer := (h calledTwice).1.answers (0, 2) 5 firstResponse (hleft ▸ List.mem_cons_self)
  have hsequence : firstResponse.sequence = 2 ^ 32 := Meta.sequence_withSequence _ (by decide)
  rw [hnumbered, hsequence] at hanswer
  simp at hanswer

end RpcSystem

end Gb
