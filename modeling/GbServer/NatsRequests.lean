import GbServer.Lib.Run
import GbServer.NatsInbox
import Mathlib.Data.List.Nodup
import Mathlib.Logic.Function.Basic
/-!
# NatsRequests — the requests of one worker

`AsyncRequest`, `RequestRaw` and the worker's task of `OnNatsInboxMsg` (`nats_manager.cpp`), with the part of `TLS_Nats` that
they share.  All of it runs on one thread: an event is a request, the task of a reply, a timer that goes off, or the shutdown
of the timers.

Requests are numbered as they are made.  A request's number also stands for its promise or callback and for the subscription
of its inbox.  `inserted`, `removed`, `completed`, `returned` and `destroyed` tell what was done: an entry put into `pending` or
erased from it, a promise set or a callback invoked, a coroutine that returns without a promise, a subscription destroyed.
-/
namespace Gb

open Run (Along Always)

namespace NatsError

def ok : Int := 0
def timeout : Int := -1
def disconnected : Int := -2
def subscribeFailed : Int := -4
def requestFailed : Int := -5

end NatsError

/-- `RequestRaw` waits for a promise, `AsyncRequest` has a callback. -/
inductive RequestForm
  | promise
  | callback
  deriving DecidableEq

structure PendingRequest where
  request : Nat
  form    : RequestForm
  timerId : Int := -1

/-- What the calls of a request come to: `connected_`, `natsConnection_Subscribe` and `natsConnection_PublishRequest`. -/
structure NatsAnswers where
  connected  : Bool
  subscribed : Bool
  published  : Bool

/-- The state of a thread with the index that `GenInbox` takes; a worker has timers, another thread has none. -/
structure NatsWorker where
  index           : Nat
  isWorker        : Bool
  inboxSeq        : Nat := 0
  pending         : Inbox → Option PendingRequest := fun _ => none
  timers          : List (Int × Inbox) := []
  generateTimerId : Nat := 0
  shuttingDown    : Bool := false
  requests        : Nat := 0
  inserted        : List Nat := []
  removed         : List Nat := []
  completed       : List (Nat × Int × List UInt8) := []
  returned        : List (Nat × Int) := []
  destroyed       : List Nat := []

inductive NatsEvent
  | request (form : RequestForm) (answers : NatsAnswers)
  | reply (inbox : Inbox) (payload : List UInt8)
  | timer (id : Int)
  | shutdown (kept : Int → Bool)

namespace NatsWorker

variable (w : NatsWorker)

/-- A promise is set or a callback invoked. -/
def complete (request : Nat) (error : Int) (body : List UInt8) : NatsWorker :=
  { w with completed := w.completed ++ [(request, error, body)] }

/-- `RequestRaw` returns an error, `AsyncRequest` passes it to the callback. -/
def refuse (form : RequestForm) (request : Nat) (error : Int) : NatsWorker :=
  match form with
  | .promise  => { w with returned := w.returned ++ [(request, error)] }
  | .callback => w.complete request error []

def insert (inbox : Inbox) (it : PendingRequest) : NatsWorker :=
  { w with pending := Function.update w.pending inbox (some it), inserted := w.inserted ++ [it.request] }

/-- The subscription is destroyed and the entry erased. -/
def remove (inbox : Inbox) (it : PendingRequest) : NatsWorker :=
  { w with
    pending   := Function.update w.pending inbox none
    removed   := w.removed ++ [it.request]
    destroyed := w.destroyed ++ [it.request] }

/-- What follows a `PublishRequest` that fails. -/
def publishFailed (inbox : Inbox) : NatsWorker :=
  match w.pending inbox with
  | none    => w
  | some it => (w.remove inbox it).refuse it.form it.request NatsError.requestFailed

/-- `RegisterTimer`. -/
def registerTimer (inbox : Inbox) : Int × NatsWorker :=
  if w.shuttingDown then (-1, w)
  else
    let id := w.generateTimerId + 1
    (id, { w with generateTimerId := id, timers := w.timers ++ [((id : Int), inbox)] })

def unRegisterTimer (id : Int) : NatsWorker := { w with timers := w.timers.filter fun timer => timer.1 != id }

/-- The timer of a request, and its number in the entry. -/
def registerTimeout (inbox : Inbox) : NatsWorker :=
  if w.isWorker then
    let (timerId, w) := w.registerTimer inbox
    match w.pending inbox with
    | none    => w
    | some it => { w with pending := Function.update w.pending inbox (some { it with timerId := timerId }) }
  else w

/-- The inbox of the next request. -/
def nextInbox : Inbox := NatsManager.genInbox w.index w.inboxSeq

/-- `AsyncRequest` and `RequestRaw`. -/
def request (form : RequestForm) (answers : NatsAnswers) : NatsWorker :=
  let request := w.requests
  let inbox := w.nextInbox
  let w := { w with requests := request + 1 }
  if !answers.connected then w.refuse form request NatsError.disconnected
  else
    let w := { w with inboxSeq := (w.inboxSeq + 1) % 2 ^ 64 }
    if !answers.subscribed then w.refuse form request NatsError.subscribeFailed
    else
      let w := w.insert inbox { request := request, form := form }
      if !answers.published then w.publishFailed inbox else w.registerTimeout inbox

/-- The task of `OnNatsInboxMsg`. -/
def onReply (inbox : Inbox) (payload : List UInt8) : NatsWorker :=
  match w.pending inbox with
  | none    => w
  | some it =>
    let w := if 0 ≤ it.timerId then w.unRegisterTimer it.timerId else w
    (w.remove inbox it).complete it.request NatsError.ok (NatsManager.splitPayload payload).2

/-- The timer of a request. -/
def onTimeout (inbox : Inbox) : NatsWorker :=
  match w.pending inbox with
  | none    => w
  | some it => (w.remove inbox it).complete it.request NatsError.timeout []

/-- A timer goes off. -/
def onTimer (id : Int) : NatsWorker :=
  match w.timers.lookup id with
  | none       => w
  | some inbox => (w.unRegisterTimer id).onTimeout inbox

def step (w : NatsWorker) : NatsEvent → NatsWorker
  | .request form answers => w.request form answers
  | .reply inbox payload  => w.onReply inbox payload
  | .timer id             => w.onTimer id
  | .shutdown kept        => { w with shuttingDown := true, timers := w.timers.filter fun timer => kept timer.1 }

/-- The inbox that a step is for. -/
def inboxOf : NatsEvent → Option Inbox
  | .request _ _   => some w.nextInbox
  | .reply inbox _ => some inbox
  | .timer id      => w.timers.lookup id
  | .shutdown _    => none

/-! ## What is kept up -/

/-- No promise is set and no callback invoked twice, no subscription is destroyed twice, and of the requests that had an
entry exactly those were completed whose entry was removed, or `RequestRaw` returned with the failure to publish. -/
structure Completed : Prop where
  once      : (w.completed.map Prod.fst).Nodup
  destroyed : w.destroyed.Nodup
  removed   : ∀ q ∈ w.inserted, q ∈ w.removed ↔
    q ∈ w.completed.map Prod.fst ∨ (q, NatsError.requestFailed) ∈ w.returned

/-- The requests that are done with. -/
def Finished (q : Nat) : Prop :=
  q ∈ w.removed ∨ q ∈ w.destroyed ∨ q ∈ w.completed.map Prod.fst ∨ q ∈ w.returned.map Prod.fst

/-- What the numbers of requests are worth, while the request `aside` is being finished, if any. -/
structure Kept (aside : Option Nat) : Prop where
  once      : (w.completed.map Prod.fst).Nodup
  destroyed : w.destroyed.Nodup
  removed   : ∀ q ∈ w.inserted, some q ≠ aside → (q ∈ w.removed ↔
    q ∈ w.completed.map Prod.fst ∨ (q, NatsError.requestFailed) ∈ w.returned)
  inserted  : ∀ q ∈ w.inserted, q < w.requests
  finished  : ∀ q, w.Finished q → q < w.requests
  pending   : ∀ inbox it, w.pending inbox = some it →
    it.request ∈ w.inserted ∧ some it.request ≠ aside ∧ ¬w.Finished it.request
  distinct  : ∀ inbox it inbox' it', w.pending inbox = some it → w.pending inbox' = some it' →
    it.request = it'.request → inbox = inbox'

/-- A timer is for the inbox whose entry has its number. -/
structure Timed : Prop where
  timers  : ∀ id inbox, (id, inbox) ∈ w.timers → 0 < id ∧ id ≤ w.generateTimerId
  entries : ∀ inbox it, w.pending inbox = some it → it.timerId ≤ w.generateTimerId
  same    : ∀ inbox it, w.pending inbox = some it → ∀ inbox', (it.timerId, inbox') ∈ w.timers → inbox' = inbox
  nodup   : (w.timers.map Prod.fst).Nodup

variable {w}

theorem update_some_cases {f : Inbox → Option PendingRequest} {inbox inbox' : Inbox} {it it' : PendingRequest}
    (h : Function.update f inbox (some it) inbox' = some it') :
    inbox' = inbox ∧ it' = it ∨ inbox' ≠ inbox ∧ f inbox' = some it' := by
  by_cases heq : inbox' = inbox
  · rw [heq, Function.update_self, Option.some.injEq] at h
    exact .inl ⟨heq, h.symm⟩
  · rw [Function.update_of_ne heq] at h
    exact .inr ⟨heq, h⟩

theorem update_none_cases {f : Inbox → Option PendingRequest} {inbox inbox' : Inbox} {it' : PendingRequest}
    (h : Function.update f inbox none inbox' = some it') : inbox' ≠ inbox ∧ f inbox' = some it' := by
  by_cases heq : inbox' = inbox
  · rw [heq, Function.update_self] at h
    cases h
  · rw [Function.update_of_ne heq] at h
    exact ⟨heq, h⟩

theorem Kept.completedAll (h : w.Kept none) : w.Completed :=
  ⟨h.once, h.destroyed, fun q hq => h.removed q hq (by simp)⟩

/-- What is not about requests. -/
theorem Kept.congr {aside : Option Nat} (h : w.Kept aside) {w' : NatsWorker} (hpending : w'.pending = w.pending)
    (hrequests : w'.requests = w.requests) (hinserted : w'.inserted = w.inserted) (hremoved : w'.removed = w.removed)
    (hcompleted : w'.completed = w.completed) (hreturned : w'.returned = w.returned)
    (hdestroyed : w'.destroyed = w.destroyed) : w'.Kept aside := by
  have hfinished : ∀ q, w'.Finished q ↔ w.Finished q := by
    intro q
    rw [Finished, Finished, hremoved, hcompleted, hreturned, hdestroyed]
  refine ⟨?_, ?_, ?_, ?_, ?_, ?_, ?_⟩
  · rw [hcompleted]
    exact h.once
  · rw [hdestroyed]
    exact h.destroyed
  · rw [hinserted, hremoved, hcompleted, hreturned]
    exact h.removed
  · rw [hinserted, hrequests]
    exact h.inserted
  · intro q hq
    rw [hrequests]
    exact h.finished q ((hfinished q).1 hq)
  · intro inbox it hit
    rw [hpending] at hit
    rw [hinserted, hfinished]
    exact h.pending inbox it hit
  · rw [hpending]
    exact h.distinct

/-- A new number. -/
theorem Kept.nextRequest (h : w.Kept none) : Kept { w with requests := w.requests + 1 } (some w.requests) := by
  refine ⟨h.once, h.destroyed, fun q hq _ => h.removed q hq (by simp), fun q hq => Nat.lt_succ_of_lt (h.inserted q hq),
    fun q hq => Nat.lt_succ_of_lt (h.finished q hq), fun inbox it hit => ?_, h.distinct⟩
  obtain ⟨hmem, _, hnot⟩ := h.pending inbox it hit
  refine ⟨hmem, fun heq => ?_, hnot⟩
  exact Nat.ne_of_lt (h.inserted _ hmem) (Option.some.inj heq)

/-- The request set aside is finished. -/
theorem Kept.settle {q : Nat} (h : w.Kept (some q)) (hlt : q < w.requests) {w' : NatsWorker} (hpending : w'.pending = w.pending)
    (hrequests : w'.requests = w.requests) (hinserted : w'.inserted = w.inserted)
    (hfinished : ∀ q', w'.Finished q' ↔ w.Finished q' ∨ q' = q) (honce : (w'.completed.map Prod.fst).Nodup)
    (hdestroyed : w'.destroyed = w.destroyed)
    (hremoved : ∀ q' ∈ w.inserted, q' ∈ w'.removed ↔
      q' ∈ w'.completed.map Prod.fst ∨ (q', NatsError.requestFailed) ∈ w'.returned) : w'.Kept none := by
  refine ⟨honce, ?_, fun q' hq' _ => ?_, ?_, fun q' hq' => ?_, fun inbox it hit => ?_, ?_⟩
  · rw [hdestroyed]
    exact h.destroyed
  · rw [hinserted] at hq'
    exact hremoved q' hq'
  · rw [hinserted, hrequests]
    exact h.inserted
  · rw [hrequests]
    rcases (hfinished q').1 hq' with hq' | rfl
    · exact h.finished q' hq'
    · exact hlt
  · rw [hpending] at hit
    rw [hinserted]
    obtain ⟨hmem, hne, hnotFinished⟩ := h.pending inbox it hit
    refine ⟨hmem, by simp, fun hbad => ?_⟩
    exact ((hfinished _).1 hbad).elim hnotFinished fun heq => hne (congrArg some heq)
  · rw [hpending]
    exact h.distinct

/-- The request is finished, after its entry was removed if it had one. -/
theorem Kept.complete {q : Nat} (h : w.Kept (some q)) (hlt : q < w.requests) (hnot : q ∉ w.completed.map Prod.fst)
    (hremoved : q ∈ w.inserted → q ∈ w.removed) (error : Int) (body : List UInt8) : (w.complete q error body).Kept none := by
  have hfinished : ∀ q', (w.complete q error body).Finished q' ↔ w.Finished q' ∨ q' = q := by
    intro q'
    simp only [Finished, NatsWorker.complete, List.map_append, List.map_cons, List.map_nil, List.mem_append,
      List.mem_singleton]
    tauto
  refine h.settle hlt rfl rfl rfl hfinished ?_ rfl fun q' hq' => ?_
  · simp only [NatsWorker.complete, List.map_append, List.map_cons, List.map_nil]
    exact List.nodup_append.2 ⟨h.once, List.nodup_singleton q, fun a ha b hb heq => hnot (by simp_all)⟩
  · simp only [NatsWorker.complete, List.map_append, List.map_cons, List.map_nil, List.mem_append, List.mem_singleton]
    by_cases heq : q' = q
    · subst heq
      exact iff_of_true (hremoved hq') (.inl (.inr rfl))
    · rw [h.removed q' hq' fun hsome => heq (Option.some.inj hsome)]
      simp [heq]

/-- `RequestRaw` returns without its promise. -/
theorem Kept.returns {q : Nat} (h : w.Kept (some q)) (hlt : q < w.requests) {error : Int}
    (hremoved : q ∈ w.inserted → q ∈ w.removed ∧ error = NatsError.requestFailed) :
    Kept { w with returned := w.returned ++ [(q, error)] } none := by
  have hfinished : ∀ q', Finished { w with returned := w.returned ++ [(q, error)] } q' ↔ w.Finished q' ∨ q' = q := by
    intro q'
    simp only [Finished, List.map_append, List.map_cons, List.map_nil, List.mem_append, List.mem_singleton]
    tauto
  refine h.settle hlt rfl rfl rfl hfinished h.once rfl fun q' hq' => ?_
  simp only [List.mem_append, List.mem_singleton, Prod.mk.injEq]
  by_cases heq : q' = q
  · subst heq
    obtain ⟨hmem, herror⟩ := hremoved hq'
    exact iff_of_true hmem (.inr (.inr ⟨rfl, herror.symm⟩))
  · rw [h.removed q' hq' fun hsome => heq (Option.some.inj hsome)]
    simp [heq]

theorem Kept.refuse {q : Nat} (h : w.Kept (some q)) (hlt : q < w.requests) (hnot : q ∉ w.completed.map Prod.fst)
    {error : Int} (hremoved : q ∈ w.inserted → q ∈ w.removed ∧ error = NatsError.requestFailed) (form : RequestForm) :
    (w.refuse form q error).Kept none := by
  cases form with
  | promise  => exact h.returns hlt hremoved
  | callback => exact h.complete hlt hnot (fun hq => (hremoved hq).1) error []

/-! ## Entries -/

theorem Kept.insert {q : Nat} (h : w.Kept (some q)) (hlt : q < w.requests) (hfinished : ¬w.Finished q)
    (hinserted : q ∉ w.inserted) (inbox : Inbox) (form : RequestForm) :
    (w.insert inbox { request := q, form := form }).Kept none := by
  have hcase : ∀ inbox' it, Function.update w.pending inbox (some { request := q, form := form }) inbox' = some it →
      it.request = q ∧ inbox' = inbox ∨ w.pending inbox' = some it ∧ it.request ≠ q := by
    intro inbox' it hit
    rcases update_some_cases hit with ⟨heq, rfl⟩ | ⟨_, hold⟩
    · exact .inl ⟨rfl, heq⟩
    · exact .inr ⟨hold, fun hq => (h.pending inbox' it hold).2.1 (congrArg some hq)⟩
  refine ⟨h.once, h.destroyed, fun q' hq' _ => ?_, fun q' hq' => ?_, h.finished, fun inbox' it hit => ?_,
    fun inbox₁ it₁ inbox₂ it₂ h₁ h₂ heq => ?_⟩
  · rcases List.mem_append.1 hq' with hq' | hq'
    · exact h.removed q' hq' fun hsome => hinserted (Option.some.inj hsome ▸ hq')
    · rw [List.mem_singleton.1 hq']
      simp only [Finished, not_or] at hfinished
      refine iff_of_false hfinished.1 (not_or.2 ⟨hfinished.2.2.1, fun hret => hfinished.2.2.2 ?_⟩)
      exact List.mem_map_of_mem (f := Prod.fst) hret
  · rcases List.mem_append.1 hq' with hq' | hq'
    · exact h.inserted q' hq'
    · rw [List.mem_singleton.1 hq']
      exact hlt
  · rcases hcase inbox' it hit with ⟨rfl, _⟩ | ⟨hold, _⟩
    · exact ⟨List.mem_append_right _ (List.mem_singleton_self _), by simp, hfinished⟩
    · obtain ⟨hmem, _, hnot⟩ := h.pending inbox' it hold
      exact ⟨List.mem_append_left _ hmem, by simp, hnot⟩
  · rcases hcase inbox₁ it₁ h₁ with ⟨hq₁, rfl⟩ | ⟨hold₁, hne₁⟩
    · rcases hcase inbox₂ it₂ h₂ with ⟨_, rfl⟩ | ⟨_, hne₂⟩
      · rfl
      · exact absurd (heq.symm.trans hq₁) hne₂
    · rcases hcase inbox₂ it₂ h₂ with ⟨hq₂, _⟩ | ⟨hold₂, _⟩
      · exact absurd (heq.trans hq₂) hne₁
      · exact h.distinct inbox₁ it₁ inbox₂ it₂ hold₁ hold₂ heq

theorem Kept.remove (h : w.Kept none) {inbox : Inbox} {it : PendingRequest} (hit : w.pending inbox = some it) :
    (w.remove inbox it).Kept (some it.request) := by
  obtain ⟨hmem, _, hnot⟩ := h.pending inbox it hit
  have hcase : ∀ inbox' it', Function.update w.pending inbox none inbox' = some it' →
      w.pending inbox' = some it' ∧ it'.request ≠ it.request := by
    intro inbox' it' hit'
    obtain ⟨hne, hold⟩ := update_none_cases hit'
    exact ⟨hold, fun hq => hne (h.distinct inbox' it' inbox it hold hit hq)⟩
  have hfinished : ∀ q, (w.remove inbox it).Finished q ↔ w.Finished q ∨ q = it.request := by
    intro q
    simp only [Finished, NatsWorker.remove, List.mem_append, List.mem_singleton]
    tauto
  refine ⟨h.once, ?_, fun q hq hne => ?_, h.inserted, fun q hq => ?_, fun inbox' it' hit' => ?_,
    fun inbox₁ it₁ inbox₂ it₂ h₁ h₂ => h.distinct inbox₁ it₁ inbox₂ it₂ (hcase _ _ h₁).1 (hcase _ _ h₂).1⟩
  · simp only [Finished, not_or] at hnot
    exact List.nodup_append.2 ⟨h.destroyed, List.nodup_singleton _, fun a ha b hb heq => hnot.2.1 (by simp_all)⟩
  · have hne' : q ≠ it.request := fun heq => hne (congrArg some heq)
    have hiff := h.removed q hq (by simp)
    simpa [NatsWorker.remove, hne'] using hiff
  · rcases (hfinished q).1 hq with hq | rfl
    · exact h.finished q hq
    · exact h.inserted _ hmem
  · obtain ⟨hold, hne⟩ := hcase inbox' it' hit'
    obtain ⟨hmem', _, hnot'⟩ := h.pending inbox' it' hold
    refine ⟨hmem', fun heq => hne (Option.some.inj heq), fun hbad => ?_⟩
    exact ((hfinished _).1 hbad).elim hnot' hne

/-- What stands in an entry beside the request is changed. -/
theorem Kept.setEntry {aside : Option Nat} (h : w.Kept aside) {inbox : Inbox} {it it' : PendingRequest}
    (hit : w.pending inbox = some it) (hrequest : it'.request = it.request) :
    Kept { w with pending := Function.update w.pending inbox (some it') } aside := by
  have hcase : ∀ inbox' it₁, Function.update w.pending inbox (some it') inbox' = some it₁ →
      ∃ it₂, w.pending inbox' = some it₂ ∧ it₁.request = it₂.request := by
    intro inbox' it₁ h₁
    rcases update_some_cases h₁ with ⟨rfl, rfl⟩ | ⟨_, hold⟩
    · exact ⟨it, hit, hrequest⟩
    · exact ⟨it₁, hold, rfl⟩
  refine ⟨h.once, h.destroyed, h.removed, h.inserted, h.finished, fun inbox' it₁ h₁ => ?_,
    fun inbox₁ it₁ inbox₂ it₂ h₁ h₂ heq => ?_⟩
  · obtain ⟨it₂, h₂, hreq⟩ := hcase inbox' it₁ h₁
    have hpending := h.pending inbox' it₂ h₂
    rw [hreq]
    exact hpending
  · obtain ⟨it₁', h₁', hreq₁⟩ := hcase inbox₁ it₁ h₁
    obtain ⟨it₂', h₂', hreq₂⟩ := hcase inbox₂ it₂ h₂
    exact h.distinct inbox₁ it₁' inbox₂ it₂' h₁' h₂' (hreq₁.symm.trans (heq.trans hreq₂))

/-! ## What a step does to the requests -/

theorem Kept.lt (h : w.Kept none) {inbox : Inbox} {it : PendingRequest} (hit : w.pending inbox = some it) :
    it.request < w.requests := h.inserted _ (h.pending inbox it hit).1

theorem Kept.not_completed (h : w.Kept none) {inbox : Inbox} {it : PendingRequest} (hit : w.pending inbox = some it) :
    it.request ∉ w.completed.map Prod.fst := fun hmem => (h.pending inbox it hit).2.2 (.inr (.inr (.inl hmem)))

/-- The entry is removed, and its request completed. -/
theorem Kept.finish (h : w.Kept none) {inbox : Inbox} {it : PendingRequest} (hit : w.pending inbox = some it) (error : Int)
    (body : List UInt8) : ((w.remove inbox it).complete it.request error body).Kept none :=
  (h.remove hit).complete (h.lt hit) (h.not_completed hit)
    (fun _ => List.mem_append_right _ (List.mem_singleton_self _)) error body

theorem Kept.unRegisterTimer (h : w.Kept none) (id : Int) : (w.unRegisterTimer id).Kept none :=
  h.congr rfl rfl rfl rfl rfl rfl rfl

theorem Kept.onTimeout (h : w.Kept none) (inbox : Inbox) : (w.onTimeout inbox).Kept none := by
  rw [NatsWorker.onTimeout]
  split
  · exact h
  · rename_i it hit
    exact h.finish hit NatsError.timeout []

theorem Kept.onReply (h : w.Kept none) (inbox : Inbox) (payload : List UInt8) : (w.onReply inbox payload).Kept none := by
  rw [NatsWorker.onReply]
  split
  · exact h
  · rename_i it hit
    dsimp only
    split
    · exact (h.unRegisterTimer it.timerId).finish hit _ _
    · exact h.finish hit _ _

theorem Kept.publishFailed (h : w.Kept none) (inbox : Inbox) : (w.publishFailed inbox).Kept none := by
  rw [NatsWorker.publishFailed]
  split
  · exact h
  · rename_i it hit
    exact (h.remove hit).refuse (h.lt hit) (h.not_completed hit)
      (fun _ => ⟨List.mem_append_right _ (List.mem_singleton_self _), rfl⟩) it.form

theorem Kept.registerTimer (h : w.Kept none) (inbox : Inbox) : (w.registerTimer inbox).2.Kept none := by
  rw [NatsWorker.registerTimer]
  split
  · exact h
  · exact h.congr rfl rfl rfl rfl rfl rfl rfl

theorem Kept.registerTimeout (h : w.Kept none) (inbox : Inbox) : (w.registerTimeout inbox).Kept none := by
  rw [NatsWorker.registerTimeout]
  split
  · dsimp only
    split
    · exact h.registerTimer inbox
    · rename_i it hit
      exact (h.registerTimer inbox).setEntry hit rfl
  · exact h

theorem Kept.request (h : w.Kept none) (form : RequestForm) (answers : NatsAnswers) : (w.request form answers).Kept none := by
  have hnew : w.requests ∉ w.inserted := fun hmem => Nat.lt_irrefl _ (h.inserted _ hmem)
  have hnot : ¬w.Finished w.requests := fun hfinished => Nat.lt_irrefl _ (h.finished _ hfinished)
  have hcompleted : w.requests ∉ w.completed.map Prod.fst := fun hmem => hnot (.inr (.inr (.inl hmem)))
  have hnext := h.nextRequest
  have hseq : Kept { w with requests := w.requests + 1, inboxSeq := (w.inboxSeq + 1) % 2 ^ 64 } (some w.requests) :=
    hnext.congr rfl rfl rfl rfl rfl rfl rfl
  rw [NatsWorker.request]
  dsimp only
  split
  · exact hnext.refuse (Nat.lt_succ_self _) hcompleted (fun hmem => absurd hmem hnew) form
  · split
    · exact hseq.refuse (Nat.lt_succ_self _) hcompleted (fun hmem => absurd hmem hnew) form
    · have hinsert := hseq.insert (Nat.lt_succ_self _) hnot hnew w.nextInbox form
      split
      · exact hinsert.publishFailed w.nextInbox
      · exact hinsert.registerTimeout w.nextInbox

theorem Kept.step (h : w.Kept none) (e : NatsEvent) : (w.step e).Kept none := by
  cases e with
  | request form answers => exact h.request form answers
  | reply inbox payload  => exact h.onReply inbox payload
  | timer id             =>
    rw [NatsWorker.step, NatsWorker.onTimer]
    split
    · exact h
    · exact (h.unRegisterTimer id).onTimeout _
  | shutdown kept        => exact h.congr rfl rfl rfl rfl rfl rfl rfl

/-! ## Timers -/

theorem Timed.of_pending (h : w.Timed) {w' : NatsWorker}
    (hpending : ∀ inbox it, w'.pending inbox = some it → w.pending inbox = some it ∨ it.timerId = -1)
    (htimers : w'.timers.Sublist w.timers) (hid : w'.generateTimerId = w.generateTimerId) : w'.Timed := by
  refine ⟨fun id inbox hmem => ?_, fun inbox it hit => ?_, fun inbox it hit inbox' hmem => ?_, ?_⟩
  · rw [hid]
    exact h.timers id inbox (htimers.mem hmem)
  · rw [hid]
    rcases hpending inbox it hit with hold | hminus
    · exact h.entries inbox it hold
    · rw [hminus]
      omega
  · rcases hpending inbox it hit with hold | hminus
    · exact h.same inbox it hold inbox' (htimers.mem hmem)
    · have hpos := (h.timers _ _ (htimers.mem hmem)).1
      rw [hminus] at hpos
      exact absurd hpos (by decide)
  · exact h.nodup.sublist (htimers.map Prod.fst)

/-- A new timer, whose number at most the entry of its inbox has. -/
theorem Timed.addTimer (h : w.Timed) {inbox : Inbox} {pending : Inbox → Option PendingRequest}
    (hpending : ∀ inbox' it, pending inbox' = some it →
      w.pending inbox' = some it ∨ inbox' = inbox ∧ it.timerId = ((w.generateTimerId + 1 : Nat) : Int)) :
    Timed { w with
      generateTimerId := w.generateTimerId + 1
      timers          := w.timers ++ [(((w.generateTimerId + 1 : Nat) : Int), inbox)]
      pending         := pending } := by
  refine ⟨fun id inbox' hmem => ?_, fun inbox' it hit => ?_, fun inbox' it hit inbox'' hmem => ?_, ?_⟩
  · rcases List.mem_append.1 hmem with hmem | hmem
    · have hold := h.timers id inbox' hmem
      simp only
      omega
    · obtain ⟨rfl, _⟩ := Prod.mk.inj (List.mem_singleton.1 hmem)
      simp only
      omega
  · rcases hpending inbox' it hit with hold | ⟨_, hnew⟩
    · have hle := h.entries inbox' it hold
      simp only
      omega
    · rw [hnew]
  · rcases List.mem_append.1 hmem with hmem | hmem
    · rcases hpending inbox' it hit with hold | ⟨_, hnew⟩
      · exact h.same inbox' it hold inbox'' hmem
      · have hle := (h.timers _ _ hmem).2
        rw [hnew] at hle
        omega
    · obtain ⟨hid, rfl⟩ := Prod.mk.inj (List.mem_singleton.1 hmem)
      rcases hpending inbox' it hit with hold | ⟨heq, _⟩
      · have hle := h.entries inbox' it hold
        omega
      · exact heq.symm
  · simp only [List.map_append, List.map_cons, List.map_nil]
    refine List.nodup_append.2 ⟨h.nodup, List.nodup_singleton _, fun a ha b hb heq => ?_⟩
    obtain ⟨⟨id, inbox'⟩, hmem, rfl⟩ := List.mem_map.1 ha
    have hle := (h.timers id inbox' hmem).2
    rw [List.mem_singleton.1 hb] at heq
    simp only at heq
    omega

theorem Timed.registerTimeout (h : w.Timed) (inbox : Inbox) : (w.registerTimeout inbox).Timed := by
  rw [NatsWorker.registerTimeout, NatsWorker.registerTimer]
  split
  · by_cases hdown : w.shuttingDown = true
    · simp only [if_pos hdown]
      split
      · exact h
      · refine h.of_pending (fun inbox' it' hit' => ?_) (List.Sublist.refl _) rfl
        rcases update_some_cases hit' with ⟨_, rfl⟩ | ⟨_, hold⟩
        · exact .inr rfl
        · exact .inl hold
    · simp only [if_neg hdown]
      split
      · exact h.addTimer fun _ _ hit' => .inl hit'
      · refine h.addTimer fun inbox' it' hit' => ?_
        rcases update_some_cases hit' with ⟨heq, rfl⟩ | ⟨_, hold⟩
        · exact .inr ⟨heq, rfl⟩
        · exact .inl hold
  · exact h

theorem Timed.remove (h : w.Timed) (inbox : Inbox) (it : PendingRequest) : (w.remove inbox it).Timed :=
  h.of_pending (fun _ _ hit => .inl (update_none_cases hit).2) (List.Sublist.refl _) rfl

theorem Timed.unRegisterTimer (h : w.Timed) (id : Int) : (w.unRegisterTimer id).Timed :=
  h.of_pending (fun _ _ hit => .inl hit) List.filter_sublist rfl

/-- What is about neither entries nor timers. -/
theorem Timed.congr (h : w.Timed) {w' : NatsWorker} (hpending : w'.pending = w.pending) (htimers : w'.timers = w.timers)
    (hid : w'.generateTimerId = w.generateTimerId) : w'.Timed :=
  h.of_pending (fun _ _ hit => .inl (hpending ▸ hit)) (htimers ▸ List.Sublist.refl _) hid

theorem Timed.refuse (h : w.Timed) (form : RequestForm) (q : Nat) (error : Int) : (w.refuse form q error).Timed := by
  cases form with
  | promise  => exact h.congr rfl rfl rfl
  | callback => exact h.congr rfl rfl rfl

theorem Timed.onTimeout (h : w.Timed) (inbox : Inbox) : (w.onTimeout inbox).Timed := by
  rw [NatsWorker.onTimeout]
  split
  · exact h
  · rename_i it _
    exact (h.remove inbox it).congr rfl rfl rfl

theorem Timed.onReply (h : w.Timed) (inbox : Inbox) (payload : List UInt8) : (w.onReply inbox payload).Timed := by
  rw [NatsWorker.onReply]
  split
  · exact h
  · rename_i it _
    dsimp only
    split
    · exact ((h.unRegisterTimer it.timerId).remove inbox it).congr rfl rfl rfl
    · exact (h.remove inbox it).congr rfl rfl rfl

theorem Timed.request (h : w.Timed) (form : RequestForm) (answers : NatsAnswers) : (w.request form answers).Timed := by
  rw [NatsWorker.request]
  dsimp only
  split
  · have hmade : Timed { w with requests := w.requests + 1 } := h.congr rfl rfl rfl
    exact hmade.refuse form _ _
  · split
    · have hmade : Timed { w with requests := w.requests + 1, inboxSeq := (w.inboxSeq + 1) % 2 ^ 64 } := h.congr rfl rfl rfl
      exact hmade.refuse form _ _
    · have hinsert : (insert { w with requests := w.requests + 1, inboxSeq := (w.inboxSeq + 1) % 2 ^ 64 } w.nextInbox
          { request := w.requests, form := form }).Timed := by
        refine h.of_pending (fun inbox it hit => ?_) (List.Sublist.refl _) rfl
        rcases update_some_cases hit with ⟨_, rfl⟩ | ⟨_, hold⟩
        · exact .inr rfl
        · exact .inl hold
      split
      · rw [NatsWorker.publishFailed]
        split
        · exact hinsert
        · exact (hinsert.remove _ _).refuse _ _ _
      · exact hinsert.registerTimeout _

theorem Timed.step (h : w.Timed) (e : NatsEvent) : (w.step e).Timed := by
  cases e with
  | request form answers => exact h.request form answers
  | reply inbox payload  => exact h.onReply inbox payload
  | timer id             =>
    rw [NatsWorker.step, NatsWorker.onTimer]
    split
    · exact h
    · exact (h.unRegisterTimer id).onTimeout _
  | shutdown kept        => exact h.of_pending (fun _ _ hit => .inl hit) List.filter_sublist rfl

/-! ## The other inboxes -/

/-- From `w` to `w'`, the entries of other inboxes are the same, and their timers are there. -/
structure Frames (w w' : NatsWorker) (inbox : Inbox) : Prop where
  pending : ∀ inbox', inbox' ≠ inbox → w'.pending inbox' = w.pending inbox'
  timers  : ∀ inbox', inbox' ≠ inbox → ∀ id, (id, inbox') ∈ w.timers → (id, inbox') ∈ w'.timers

theorem Frames.refl (w : NatsWorker) (inbox : Inbox) : Frames w w inbox := ⟨fun _ _ => rfl, fun _ _ _ hmem => hmem⟩

theorem Frames.trans {w' w'' : NatsWorker} {inbox : Inbox} (h : Frames w w' inbox) (h' : Frames w' w'' inbox) :
    Frames w w'' inbox :=
  ⟨fun inbox' hne => (h'.pending inbox' hne).trans (h.pending inbox' hne),
    fun inbox' hne id hmem => h'.timers inbox' hne id (h.timers inbox' hne id hmem)⟩

/-- Only the entry of the inbox is changed. -/
theorem frames_update {w' : NatsWorker} {inbox : Inbox} {it : Option PendingRequest}
    (hpending : w'.pending = Function.update w.pending inbox it) (htimers : w'.timers = w.timers) : Frames w w' inbox :=
  ⟨fun inbox' hne => by rw [hpending, Function.update_of_ne hne], fun _ _ _ hmem => htimers ▸ hmem⟩

theorem frames_remove (w : NatsWorker) (inbox : Inbox) (it : PendingRequest) : Frames w (w.remove inbox it) inbox :=
  frames_update rfl rfl

theorem frames_refuse (w : NatsWorker) (inbox : Inbox) (form : RequestForm) (q : Nat) (error : Int) :
    Frames w (w.refuse form q error) inbox := by
  cases form with
  | promise  => exact ⟨fun _ _ => rfl, fun _ _ _ hmem => hmem⟩
  | callback => exact ⟨fun _ _ => rfl, fun _ _ _ hmem => hmem⟩

/-- A timer that is for the inbox. -/
theorem frames_unRegisterTimer {inbox : Inbox} {id : Int} (hid : ∀ inbox', (id, inbox') ∈ w.timers → inbox' = inbox) :
    Frames w (w.unRegisterTimer id) inbox := by
  refine ⟨fun _ _ => rfl, fun inbox' hne id' hmem => ?_⟩
  rw [unRegisterTimer, List.mem_filter]
  refine ⟨hmem, ?_⟩
  have hne' : id' ≠ id := fun heq => hne (hid inbox' (heq ▸ hmem))
  simpa using hne'

theorem frames_registerTimeout (w : NatsWorker) (inbox : Inbox) : Frames w (w.registerTimeout inbox) inbox := by
  have hregister : Frames w (w.registerTimer inbox).2 inbox := by
    rw [registerTimer]
    split
    · exact Frames.refl w inbox
    · exact ⟨fun _ _ => rfl, fun _ _ _ hmem => List.mem_append_left _ hmem⟩
  rw [registerTimeout]
  split
  · dsimp only
    split
    · exact hregister
    · exact hregister.trans (frames_update rfl rfl)
  · exact Frames.refl w inbox

theorem frames_onTimeout (w : NatsWorker) (inbox : Inbox) : Frames w (w.onTimeout inbox) inbox := by
  rw [onTimeout]
  split
  · exact Frames.refl w inbox
  · exact frames_update rfl rfl

theorem Timed.frames_onReply (h : w.Timed) (inbox : Inbox) (payload : List UInt8) :
    Frames w (w.onReply inbox payload) inbox := by
  rw [NatsWorker.onReply]
  split
  · exact Frames.refl w inbox
  · rename_i it hit
    dsimp only
    split
    · exact (frames_unRegisterTimer (h.same inbox it hit)).trans (frames_update rfl rfl)
    · exact frames_update rfl rfl

theorem frames_request (w : NatsWorker) (form : RequestForm) (answers : NatsAnswers) :
    Frames w (w.request form answers) w.nextInbox := by
  rw [NatsWorker.request]
  dsimp only
  split
  · have hf := frames_refuse { w with requests := w.requests + 1 } w.nextInbox form w.requests NatsError.disconnected
    exact ⟨hf.pending, hf.timers⟩
  · split
    · have hf := frames_refuse { w with requests := w.requests + 1, inboxSeq := (w.inboxSeq + 1) % 2 ^ 64 }
        w.nextInbox form w.requests NatsError.subscribeFailed
      exact ⟨hf.pending, hf.timers⟩
    · have hinsert : Frames w (insert { w with requests := w.requests + 1, inboxSeq := (w.inboxSeq + 1) % 2 ^ 64 }
          w.nextInbox { request := w.requests, form := form }) w.nextInbox := frames_update rfl rfl
      split
      · rw [NatsWorker.publishFailed]
        split
        · exact hinsert
        · rename_i it _
          exact (hinsert.trans (frames_remove _ _ it)).trans (frames_refuse _ _ _ _ _)
      · exact hinsert.trans (frames_registerTimeout _ _)

theorem Timed.frames_onTimer (h : w.Timed) {id : Int} {inbox : Inbox} (hlookup : w.timers.lookup id = some inbox) :
    Frames w (w.onTimer id) inbox := by
  have hmem : (id, inbox) ∈ w.timers := by
    obtain ⟨l₁, l₂, heq, _⟩ := List.lookup_eq_some_iff.1 hlookup
    rw [heq]
    exact List.mem_append_right _ List.mem_cons_self
  have honly : ∀ inbox', (id, inbox') ∈ w.timers → inbox' = inbox := by
    intro inbox' hmem'
    have hpair := List.inj_on_of_nodup_map h.nodup hmem' hmem rfl
    exact (Prod.mk.inj hpair).2
  simp only [NatsWorker.onTimer, hlookup]
  exact (frames_unRegisterTimer honly).trans (frames_onTimeout _ inbox)

/-- A step for one inbox leaves the others alone; the shutdown of the timers leaves all entries alone. -/
theorem Timed.frame_step (h : w.Timed) (e : NatsEvent) (inbox' : Inbox) (hne : w.inboxOf e ≠ some inbox') :
    (w.step e).pending inbox' = w.pending inbox' ∧
    ((∀ kept, e ≠ .shutdown kept) → ∀ id, (id, inbox') ∈ w.timers → (id, inbox') ∈ (w.step e).timers) := by
  have hframes : ∀ inbox, w.inboxOf e = some inbox → inbox' ≠ inbox := fun inbox heq heq' => hne (heq' ▸ heq)
  cases e with
  | request form answers =>
    have hf := frames_request w form answers
    exact ⟨hf.pending inbox' (hframes _ rfl), fun _ => hf.timers inbox' (hframes _ rfl)⟩
  | reply inbox payload  =>
    have hf := h.frames_onReply inbox payload
    exact ⟨hf.pending inbox' (hframes _ rfl), fun _ => hf.timers inbox' (hframes _ rfl)⟩
  | timer id             =>
    cases hlookup : w.timers.lookup id with
    | none       =>
      rw [NatsWorker.step, onTimer, hlookup]
      exact ⟨rfl, fun _ _ hmem => hmem⟩
    | some inbox =>
      have hf := h.frames_onTimer hlookup
      exact ⟨hf.pending inbox' (hframes _ hlookup), fun _ => hf.timers inbox' (hframes _ hlookup)⟩
  | shutdown kept        => exact ⟨rfl, fun hnot => absurd rfl (hnot kept)⟩

/-! ## Runs -/

/-- Nothing was requested yet. -/
def start (index : Nat) (isWorker : Bool) : NatsWorker := { index := index, isWorker := isWorker }

theorem kept_start (index : Nat) (isWorker : Bool) : (start index isWorker).Kept none := by
  refine ⟨List.nodup_nil, List.nodup_nil, fun q hq => absurd hq List.not_mem_nil, fun q hq => absurd hq List.not_mem_nil,
    fun q hq => ?_, fun _ _ hit => ?_, fun _ _ _ _ hit => ?_⟩
  · simp [Finished, start] at hq
  · simp [start] at hit
  · simp [start] at hit

theorem timed_start (index : Nat) (isWorker : Bool) : (start index isWorker).Timed := by
  refine ⟨fun _ _ hmem => absurd hmem List.not_mem_nil, fun _ _ hit => ?_, fun _ _ hit => ?_, List.nodup_nil⟩
  · simp [start] at hit
  · simp [start] at hit

/-- **In every run a promise is set, or a callback invoked, at most once, and a subscription destroyed at most once; the
requests whose entry was removed are those completed, and those that `RequestRaw` returned with the failure to publish; and
a step for one inbox leaves the entries of the others, and their timers, as they are.** -/
theorem run_requests_completed (index : Nat) (isWorker : Bool) (events : List NatsEvent) :
    (events.foldl step (start index isWorker)).Completed ∧
    ∀ e inbox', (events.foldl step (start index isWorker)).inboxOf e ≠ some inbox' →
      ((events.foldl step (start index isWorker)).step e).pending inbox' =
        (events.foldl step (start index isWorker)).pending inbox' ∧
      ((∀ kept, e ≠ .shutdown kept) → ∀ id, (id, inbox') ∈ (events.foldl step (start index isWorker)).timers →
        (id, inbox') ∈ ((events.foldl step (start index isWorker)).step e).timers) := by
  have hinv : (events.foldl step (start index isWorker)).Kept none ∧ (events.foldl step (start index isWorker)).Timed :=
    Run.foldl_of_step (fun w : NatsWorker => w.Kept none ∧ w.Timed) (fun _ e h => ⟨h.1.step e, h.2.step e⟩) events
      ⟨kept_start index isWorker, timed_start index isWorker⟩
  exact ⟨hinv.1.completedAll, hinv.2.frame_step⟩

/-- `RequestRaw` cannot publish: the entry is removed, and the promise is never set. -/
theorem not_run_requests_completed : ¬∀ (index : Nat) (isWorker : Bool) (events : List NatsEvent) (q : Nat),
    q ∈ (events.foldl step (start index isWorker)).removed →
    q ∈ (events.foldl step (start index isWorker)).completed.map Prod.fst := by
  intro h
  exact absurd (h 0 true [.request .promise ⟨true, true, false⟩] 0) (by decide +kernel)

end NatsWorker

end Gb
