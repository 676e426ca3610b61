import GbServer.NatsRequests
/-!
# NatsIsolation — requests of all processes through one server

Threads of any number of processes make requests (`NatsRequests`), each with its own counter; a thread that is no worker
takes the index 0, which the main worker of its process has, too.  The server passes a reply on to every subscription with
its subject, in whatever process that is, and `OnNatsInboxMsg` posts it there to the worker whose index the inbox says.

`asked` are the requests that were published, `onTheWay` the tasks of replies that are posted and not yet run, and
`delivered` what each reply that found an entry was taken for, and the request that it answers.
-/
namespace Gb

open Run (Along Always)

/-- The threads: the process of each, its index if it is a worker, and what `GetWorker` of a process finds. -/
structure NatsThreads where
  process        : Nat → Nat
  worker         : Nat → Option Nat
  getWorker      : Nat → Nat → Option Nat
  getWorker_iff  : ∀ p i t, getWorker p i = some t ↔ process t = p ∧ worker t = some i
  worker_lt      : ∀ t i, worker t = some i → i < 2 ^ 32

/-- A request: its thread, its number there, and the `inbox_seq` that it took. -/
structure NatsRequest where
  thread : Nat
  number : Nat
  seq    : Nat
  deriving DecidableEq

namespace NatsThreads

variable (threads : NatsThreads)

/-- The index that `GenInbox` takes. -/
def index (t : Nat) : Nat := (threads.worker t).getD 0

def inbox (r : NatsRequest) : Inbox := NatsManager.genInbox (threads.index r.thread) r.seq

/-- The thread to which `OnNatsInboxMsg` posts what the subscription of `sub` receives on the inbox. -/
def target (sub : NatsRequest) (inbox : Inbox) : Option Nat :=
  (NatsManager.parseInboxWorkerIndex inbox).bind (threads.getWorker (threads.process sub.thread))

/-- Two requests take the same inbox. -/
theorem inbox_eq_iff {r r' : NatsRequest} :
    threads.inbox r = threads.inbox r' ↔ threads.index r.thread = threads.index r'.thread ∧ r.seq = r'.seq :=
  NatsManager.genInbox_inj

/-- What comes for a worker's request is posted to that worker. -/
theorem target_worker {r : NatsRequest} {i : Nat} (h : threads.worker r.thread = some i) :
    threads.target r (threads.inbox r) = some r.thread := by
  have hindex : threads.index r.thread = i := by rw [index, h, Option.getD_some]
  rw [target, inbox, hindex, NatsManager.parseInboxWorkerIndex_genInbox (threads.worker_lt _ i h), Option.bind_some,
    threads.getWorker_iff]
  exact ⟨rfl, h⟩

end NatsThreads

/-- A reply posted to a thread. -/
structure NatsMessage where
  target  : Nat
  answers : NatsRequest
  payload : List UInt8

structure NatsSystem where
  workers       : Nat → NatsWorker
  asked         : List NatsRequest := []
  subscriptions : List NatsRequest := []
  onTheWay      : List NatsMessage := []
  delivered     : List ((Nat × Nat) × NatsRequest) := []

inductive NatsSystemEvent
  | request (thread : Nat) (form : RequestForm) (answers : NatsAnswers)
  | publish (answers : NatsRequest) (payload : List UInt8)
  | reply (i : Nat)
  | lose (i : Nat)
  | timer (thread : Nat) (id : Int)
  | shutdown (thread : Nat) (kept : Int → Bool)

namespace NatsAnswers

/-- The request is published. -/
def taken (answers : NatsAnswers) : Bool := answers.connected && answers.subscribed && answers.published

end NatsAnswers

namespace NatsWorker

/-- The request whose entry an inbox has. -/
def waiting (w : NatsWorker) (inbox : Inbox) : Option Nat := (w.pending inbox).map PendingRequest.request

end NatsWorker

namespace NatsSystem

variable (threads : NatsThreads) (s : NatsSystem)

/-- A thread does something; the subscriptions that it destroys are gone. -/
def onWorker (t : Nat) (e : NatsEvent) : NatsSystem :=
  let w := (s.workers t).step e
  { s with
    workers       := Function.update s.workers t w
    subscriptions := s.subscriptions.filter fun r => !(r.thread == t && w.destroyed.contains r.number) }

/-- The tasks that a reply makes, one for each subscription that receives it. -/
def posts (r : NatsRequest) (payload : List UInt8) : List NatsMessage :=
  (s.subscriptions.filter fun sub => threads.inbox sub == threads.inbox r).filterMap fun sub =>
    (threads.target sub (threads.inbox r)).map fun t => { target := t, answers := r, payload := payload }

def step : NatsSystemEvent → NatsSystem
  | .request t form answers =>
    let r := { thread := t, number := (s.workers t).requests, seq := (s.workers t).inboxSeq }
    let s := s.onWorker t (.request form answers)
    if answers.taken then { s with asked := s.asked ++ [r], subscriptions := s.subscriptions ++ [r] } else s
  | .publish r payload      =>
    if r ∈ s.asked then
      -- a subscription of an inbox receives one message
      { s with
        subscriptions := s.subscriptions.filter fun sub => !(threads.inbox sub == threads.inbox r)
        onTheWay      := s.onTheWay ++ s.posts threads r payload }
    else s
  | .reply i                =>
    match s.onTheWay[i]? with
    | none   => s
    | some m =>
      let inbox := threads.inbox m.answers
      let found := ((s.workers m.target).waiting inbox).toList.map fun q => ((m.target, q), m.answers)
      { s.onWorker m.target (.reply inbox m.payload) with
        onTheWay  := s.onTheWay.eraseIdx i
        delivered := s.delivered ++ found }
  | .lose i                 => { s with onTheWay := s.onTheWay.eraseIdx i }
  | .timer t id             => s.onWorker t (.timer id)
  | .shutdown t kept        => s.onWorker t (.shutdown kept)

/-- The request's entry was not removed yet. -/
def Open (r : NatsRequest) : Prop := r.number ∉ (s.workers r.thread).removed

instance (r : NatsRequest) : Decidable (s.Open r) := inferInstanceAs (Decidable (_ ∉ _))

/-- No two pending requests have the same inbox, and a reply is delivered, or on its way, only to the request that it
answers. -/
structure Isolated : Prop where
  distinct  : ∀ r ∈ s.asked, ∀ r' ∈ s.asked, s.Open r → s.Open r' → threads.inbox r = threads.inbox r' → r = r'
  onTheWay  : ∀ m ∈ s.onTheWay, ∀ q, (s.workers m.target).waiting (threads.inbox m.answers) = some q →
    (m.target, q) = (m.answers.thread, m.answers.number)
  delivered : ∀ d ∈ s.delivered, d.1 = (d.2.thread, d.2.number)

/-- The thread's index and its `inbox_seq` are those of the request. -/
def SameName (t : Nat) (r : NatsRequest) : Prop := threads.index r.thread = threads.index t ∧ r.seq = (s.workers t).inboxSeq

/-- A request is made only while no pending request, and no reply on its way to the thread, is of the same index and
number; a reply is published only while no other request is pending under its index and number at a worker to which a
subscription leads it. -/
def Unique : NatsSystemEvent → Prop
  | .request t _ answers => answers.taken = true →
      (∀ r ∈ s.asked, s.Open r → ¬s.SameName threads t r) ∧
      (∀ m ∈ s.onTheWay, m.target = t → ¬s.SameName threads t m.answers)
  | .publish r _         => r ∈ s.asked → ∀ sub ∈ s.subscriptions,
      threads.index sub.thread = threads.index r.thread ∧ sub.seq = r.seq →
      ∀ t ∈ threads.target sub (threads.inbox r), ∀ q ∈ (s.workers t).waiting (threads.inbox r),
        (t, q) = (r.thread, r.number)
  | _                    => True

end NatsSystem

/-! ## What a thread's step does -/

namespace NatsWorker

variable {w : NatsWorker}

/-- From `w` to `w'` requests may have been finished, and none has become pending. -/
structure Settles (w w' : NatsWorker) : Prop where
  index    : w'.index = w.index
  requests : w.requests ≤ w'.requests
  removed  : ∀ q ∈ w.removed, q ∈ w'.removed
  waiting  : ∀ inbox q, w'.waiting inbox = some q → w.waiting inbox = some q

theorem waiting_of_pending {w' : NatsWorker} (inbox : Inbox) (it : Option PendingRequest)
    (h : w'.pending = Function.update w.pending inbox it) :
    w'.waiting = Function.update w.waiting inbox (it.map PendingRequest.request) := by
  funext inbox'
  by_cases heq : inbox' = inbox
  · rw [waiting, h, heq, Function.update_self, Function.update_self]
  · rw [waiting, h, Function.update_of_ne heq, Function.update_of_ne heq, waiting]

/-- Nothing was done to the entries. -/
theorem settles_of_eq {w' : NatsWorker} (hindex : w'.index = w.index) (hrequests : w.requests ≤ w'.requests)
    (hremoved : w'.removed = w.removed) (hpending : w'.pending = w.pending) : Settles w w' := by
  refine ⟨hindex, hrequests, fun q hq => hremoved ▸ hq, fun inbox q hq => ?_⟩
  rw [waiting, hpending] at hq
  exact hq

theorem Settles.trans {w' w'' : NatsWorker} (h : Settles w w') (h' : Settles w' w'') : Settles w w'' :=
  ⟨h'.index.trans h.index, Nat.le_trans h.requests h'.requests, fun q hq => h'.removed q (h.removed q hq),
    fun inbox q hq => h.waiting inbox q (h'.waiting inbox q hq)⟩

theorem Settles.refl (w : NatsWorker) : Settles w w := settles_of_eq rfl (Nat.le_refl _) rfl rfl

theorem settles_refuse (w : NatsWorker) (form : RequestForm) (q : Nat) (error : Int) :
    Settles w (w.refuse form q error) := by
  cases form with
  | promise  => exact settles_of_eq rfl (Nat.le_refl _) rfl rfl
  | callback => exact settles_of_eq rfl (Nat.le_refl _) rfl rfl

theorem settles_complete (w : NatsWorker) (q : Nat) (error : Int) (body : List UInt8) :
    Settles w (w.complete q error body) := settles_of_eq rfl (Nat.le_refl _) rfl rfl

theorem settles_unRegisterTimer (w : NatsWorker) (id : Int) : Settles w (w.unRegisterTimer id) :=
  settles_of_eq rfl (Nat.le_refl _) rfl rfl

theorem settles_shutdown (w : NatsWorker) (kept : Int → Bool) : Settles w (w.step (.shutdown kept)) :=
  settles_of_eq rfl (Nat.le_refl _) rfl rfl

theorem settles_remove (w : NatsWorker) (inbox : Inbox) (it : PendingRequest) : Settles w (w.remove inbox it) := by
  refine ⟨rfl, Nat.le_refl _, fun q hq => List.mem_append_left _ hq, fun inbox' q hq => ?_⟩
  rw [waiting_of_pending (w := w) inbox none rfl] at hq
  by_cases heq : inbox' = inbox
  · rw [heq, Function.update_self] at hq
    cases hq
  · rwa [Function.update_of_ne heq] at hq

theorem settles_onTimeout (w : NatsWorker) (inbox : Inbox) : Settles w (w.onTimeout inbox) := by
  rw [onTimeout]
  split
  · exact Settles.refl w
  · exact (settles_remove w inbox _).trans (settles_complete _ _ _ _)

theorem settles_onReply (w : NatsWorker) (inbox : Inbox) (payload : List UInt8) : Settles w (w.onReply inbox payload) := by
  rw [onReply]
  split
  · exact Settles.refl w
  · dsimp only
    split
    · exact ((settles_unRegisterTimer w _).trans (settles_remove _ inbox _)).trans (settles_complete _ _ _ _)
    · exact (settles_remove w inbox _).trans (settles_complete _ _ _ _)

theorem settles_onTimer (w : NatsWorker) (id : Int) : Settles w (w.onTimer id) := by
  rw [onTimer]
  split
  · exact Settles.refl w
  · exact (settles_unRegisterTimer w id).trans (settles_onTimeout _ _)

/-- A request that is not published leaves no entry. -/
theorem settles_request (w : NatsWorker) (form : RequestForm) {answers : NatsAnswers} (h : answers.taken ≠ true) :
    Settles w (w.request form answers) := by
  have hcount : Settles w { w with requests := w.requests + 1 } := settles_of_eq rfl (Nat.le_succ _) rfl rfl
  have hseq : Settles w { w with requests := w.requests + 1, inboxSeq := (w.inboxSeq + 1) % 2 ^ 64 } :=
    settles_of_eq rfl (Nat.le_succ _) rfl rfl
  rw [request]
  dsimp only
  split
  · exact hcount.trans (settles_refuse _ form _ _)
  · rename_i hconnected
    split
    · exact hseq.trans (settles_refuse _ form _ _)
    · rename_i hsubscribed
      split
      · -- the entry that was put in is the one that is removed
        have hpending : (insert { w with requests := w.requests + 1, inboxSeq := (w.inboxSeq + 1) % 2 ^ 64 } w.nextInbox
            { request := w.requests, form := form }).pending w.nextInbox = some { request := w.requests, form := form } :=
          Function.update_self ..
        simp only [publishFailed, hpending]
        have hremove : Settles w ((insert { w with requests := w.requests + 1, inboxSeq := (w.inboxSeq + 1) % 2 ^ 64 }
            w.nextInbox { request := w.requests, form := form }).remove w.nextInbox
            { request := w.requests, form := form }) := by
          refine ⟨rfl, Nat.le_succ _, fun q hq => List.mem_append_left _ hq, fun inbox q hq => ?_⟩
          by_cases heq : inbox = w.nextInbox
          · simp [waiting, remove, heq] at hq
          · simpa [waiting, remove, insert, Function.update_of_ne heq] using hq
        exact hremove.trans (settles_refuse _ form _ _)
      · rename_i hpublished
        refine absurd ?_ h
        simp_all [NatsAnswers.taken]

theorem waiting_registerTimeout (w : NatsWorker) (inbox : Inbox) : (w.registerTimeout inbox).waiting = w.waiting := by
  have hregister : (w.registerTimer inbox).2.pending = w.pending := by
    rw [registerTimer]
    split
    · rfl
    · rfl
  rw [registerTimeout]
  split
  · dsimp only
    split
    · funext inbox'
      rw [waiting, waiting, hregister]
    · rename_i it hit
      rw [waiting_of_pending (w := (w.registerTimer inbox).2) inbox _ rfl]
      funext inbox'
      by_cases heq : inbox' = inbox
      · rw [heq, Function.update_self, waiting, ← hregister, hit]
        rfl
      · rw [Function.update_of_ne heq, waiting, waiting, hregister]
  · rfl

theorem registerTimeout_rest (w : NatsWorker) (inbox : Inbox) :
    (w.registerTimeout inbox).removed = w.removed ∧ (w.registerTimeout inbox).requests = w.requests ∧
    (w.registerTimeout inbox).index = w.index := by
  rw [registerTimeout, registerTimer]
  split
  · dsimp only
    split
    · split
      · exact ⟨rfl, rfl, rfl⟩
      · exact ⟨rfl, rfl, rfl⟩
    · split
      · exact ⟨rfl, rfl, rfl⟩
      · exact ⟨rfl, rfl, rfl⟩
  · exact ⟨rfl, rfl, rfl⟩

/-- A request that is published has its entry. -/
theorem request_taken (w : NatsWorker) (form : RequestForm) {answers : NatsAnswers} (h : answers.taken = true) :
    (w.request form answers).waiting = Function.update w.waiting w.nextInbox (some w.requests) ∧
    (w.request form answers).removed = w.removed ∧ (w.request form answers).requests = w.requests + 1 ∧
    (w.request form answers).index = w.index := by
  rw [NatsAnswers.taken, Bool.and_eq_true, Bool.and_eq_true] at h
  obtain ⟨⟨hconnected, hsubscribed⟩, hpublished⟩ := h
  simp only [request, hconnected, hsubscribed, hpublished, Bool.not_true, Bool.false_eq_true, if_false]
  refine ⟨?_, registerTimeout_rest _ _⟩
  rw [waiting_registerTimeout]
  exact waiting_of_pending (w := w) _ (some { request := w.requests, form := form }) rfl

end NatsWorker

namespace NatsSystem

variable {threads : NatsThreads} {s : NatsSystem}

/-- What is known of every state. -/
structure Known (threads : NatsThreads) (s : NatsSystem) : Prop where
  kept     : ∀ t, (s.workers t).Kept none
  index    : ∀ t, (s.workers t).index = threads.index t
  asked    : ∀ r ∈ s.asked, r.number < (s.workers r.thread).requests
  onTheWay : ∀ m ∈ s.onTheWay, m.answers ∈ s.asked

theorem workers_onWorker_self (s : NatsSystem) (t : Nat) (e : NatsEvent) :
    (s.onWorker t e).workers t = (s.workers t).step e := Function.update_self ..

theorem workers_onWorker_ne (s : NatsSystem) {t t' : Nat} (e : NatsEvent) (h : t' ≠ t) :
    (s.onWorker t e).workers t' = s.workers t' := Function.update_of_ne h ..

/-- What holds of the thread that takes a step, and of the others, holds of all. -/
theorem forall_onWorker {P : Nat → NatsWorker → Prop} {t : Nat} {e : NatsEvent} (h : P t ((s.workers t).step e))
    (hother : ∀ t', t' ≠ t → P t' (s.workers t')) (t' : Nat) : P t' ((s.onWorker t e).workers t') := by
  by_cases heq : t' = t
  · rw [heq, workers_onWorker_self]
    exact h
  · rw [workers_onWorker_ne s e heq]
    exact hother t' heq

/-- A thread's step in which nothing becomes pending: every thread has settled. -/
theorem settles_onWorker {t : Nat} {e : NatsEvent} (h : (s.workers t).Settles ((s.workers t).step e)) (t' : Nat) :
    (s.workers t').Settles ((s.onWorker t e).workers t') :=
  forall_onWorker (P := fun t' w => (s.workers t').Settles w) h (fun t' _ => NatsWorker.Settles.refl (s.workers t')) t'

theorem Known.kept_onWorker (h : s.Known threads) (t : Nat) (e : NatsEvent) (t' : Nat) :
    ((s.onWorker t e).workers t').Kept none :=
  forall_onWorker (P := fun _ w => w.Kept none) ((h.kept t).step e) (fun t' _ => h.kept t') t'

/-- All threads settle, no request is added, and replies on their way are those that were. -/
theorem Known.settle (h : s.Known threads) {s' : NatsSystem} (hkept : ∀ t, (s'.workers t).Kept none)
    (hsettles : ∀ t, (s.workers t).Settles (s'.workers t)) (hasked : s'.asked = s.asked)
    (honTheWay : ∀ m ∈ s'.onTheWay, m ∈ s.onTheWay) : s'.Known threads := by
  refine ⟨hkept, fun t => (hsettles t).index.trans (h.index t), fun r hr => ?_, fun m hm => ?_⟩
  · exact Nat.lt_of_lt_of_le (h.asked r (hasked ▸ hr)) (hsettles r.thread).requests
  · exact hasked ▸ h.onTheWay m (honTheWay m hm)

theorem Isolated.settle (h : s.Isolated threads) {s' : NatsSystem}
    (hsettles : ∀ t, (s.workers t).Settles (s'.workers t)) (hasked : s'.asked = s.asked)
    (honTheWay : ∀ m ∈ s'.onTheWay, m ∈ s.onTheWay)
    (hdelivered : ∀ d ∈ s'.delivered, d ∈ s.delivered ∨ d.1 = (d.2.thread, d.2.number)) : s'.Isolated threads := by
  have hopen : ∀ r, s'.Open r → s.Open r := fun r hr hmem => hr ((hsettles r.thread).removed _ hmem)
  refine ⟨fun r hr r' hr' ho ho' => ?_, fun m hm q hq => ?_, fun d hd => ?_⟩
  · exact h.distinct r (hasked ▸ hr) r' (hasked ▸ hr') (hopen r ho) (hopen r' ho')
  · exact h.onTheWay m (honTheWay m hm) q ((hsettles m.target).waiting _ q hq)
  · exact (hdelivered d hd).elim (h.delivered d) id

/-! ## Steps -/

/-- What a thread does without asking. -/
theorem settled_onWorker (h : s.Known threads) (hsafe : s.Isolated threads) {t : Nat} {e : NatsEvent}
    (hsettles : (s.workers t).Settles ((s.workers t).step e)) :
    (s.onWorker t e).Known threads ∧ (s.onWorker t e).Isolated threads :=
  ⟨h.settle (h.kept_onWorker t e) (settles_onWorker hsettles) rfl fun _ hm => hm,
    hsafe.settle (settles_onWorker hsettles) rfl (fun _ hm => hm) fun _ hd => .inl hd⟩

theorem settled_lose (h : s.Known threads) (hsafe : s.Isolated threads) (i : Nat) :
    (s.step threads (.lose i)).Known threads ∧ (s.step threads (.lose i)).Isolated threads :=
  ⟨h.settle h.kept (fun _ => NatsWorker.Settles.refl _) rfl fun _ hm => List.mem_of_mem_eraseIdx hm,
    hsafe.settle (fun _ => NatsWorker.Settles.refl _) rfl (fun _ hm => List.mem_of_mem_eraseIdx hm) fun _ hd => .inl hd⟩

theorem settled_reply (h : s.Known threads) (hsafe : s.Isolated threads) (i : Nat) :
    (s.step threads (.reply i)).Known threads ∧ (s.step threads (.reply i)).Isolated threads := by
  rw [step]
  split
  · exact ⟨h, hsafe⟩
  · rename_i m hm
    have hmem : m ∈ s.onTheWay := List.mem_of_getElem? hm
    have hsettles := settles_onWorker (s := s) (t := m.target) (e := .reply (threads.inbox m.answers) m.payload)
      (NatsWorker.settles_onReply _ _ _)
    refine ⟨h.settle (h.kept_onWorker _ _) hsettles rfl fun _ hm' => List.mem_of_mem_eraseIdx hm',
      hsafe.settle hsettles rfl (fun _ hm' => List.mem_of_mem_eraseIdx hm') fun d hd => ?_⟩
    rcases List.mem_append.1 hd with hd | hd
    · exact .inl hd
    · obtain ⟨q, hq, rfl⟩ := List.mem_map.1 hd
      exact .inr (hsafe.onTheWay m hmem q (Option.mem_toList.1 hq))

theorem mem_posts {r : NatsRequest} {payload : List UInt8} {m : NatsMessage} :
    m ∈ s.posts threads r payload ↔ ∃ sub ∈ s.subscriptions,
      (threads.index sub.thread = threads.index r.thread ∧ sub.seq = r.seq) ∧
      threads.target sub (threads.inbox r) = some m.target ∧ m.answers = r ∧ m.payload = payload := by
  simp only [posts, List.mem_filterMap, List.mem_filter, beq_iff_eq, threads.inbox_eq_iff, Option.map_eq_some_iff]
  constructor
  · rintro ⟨sub, ⟨hsub, hname⟩, t, ht, rfl⟩
    exact ⟨sub, hsub, hname, ht, rfl, rfl⟩
  · rintro ⟨sub, hsub, hname, ht, rfl, rfl⟩
    exact ⟨sub, ⟨hsub, hname⟩, m.target, ht, rfl⟩

theorem known_publish (h : s.Known threads) (r : NatsRequest) (payload : List UInt8) :
    (s.step threads (.publish r payload)).Known threads := by
  rw [step]
  split
  · rename_i hr
    refine ⟨h.kept, h.index, h.asked, fun m hm => ?_⟩
    rcases List.mem_append.1 hm with hm | hm
    · exact h.onTheWay m hm
    · obtain ⟨_, _, _, _, rfl, _⟩ := mem_posts.1 hm
      exact hr
  · exact h

theorem isolated_publish_iff (hsafe : s.Isolated threads) (r : NatsRequest) (payload : List UInt8) :
    (s.step threads (.publish r payload)).Isolated threads ↔ s.Unique threads (.publish r payload) := by
  rw [step, Unique]
  split
  · rename_i hr
    constructor
    · intro h _ sub hsub hname t ht q hq
      exact h.onTheWay ⟨t, r, payload⟩ (List.mem_append_right _ (mem_posts.2 ⟨sub, hsub, hname, ht, rfl, rfl⟩)) q hq
    · refine fun h => ⟨hsafe.distinct, fun m hm q hq => ?_, hsafe.delivered⟩
      rcases List.mem_append.1 hm with hm | hm
      · exact hsafe.onTheWay m hm q hq
      · obtain ⟨sub, hsub, hname, ht, rfl, _⟩ := mem_posts.1 hm
        exact h hr sub hsub hname m.target ht q hq
  · rename_i hr
    exact iff_of_true hsafe fun hr' => absurd hr' hr

/-- The next request of a thread. -/
def nextRequest (s : NatsSystem) (t : Nat) : NatsRequest :=
  { thread := t, number := (s.workers t).requests, seq := (s.workers t).inboxSeq }

theorem Known.inbox_nextRequest (h : s.Known threads) (t : Nat) :
    threads.inbox (s.nextRequest t) = (s.workers t).nextInbox := by
  rw [NatsThreads.inbox, nextRequest, NatsWorker.nextInbox, h.index t]

theorem Known.inbox_eq_nextInbox (h : s.Known threads) (t : Nat) (r : NatsRequest) :
    threads.inbox r = (s.workers t).nextInbox ↔ s.SameName threads t r := by
  rw [← h.inbox_nextRequest, threads.inbox_eq_iff]
  rfl

theorem Known.ne_nextRequest (h : s.Known threads) {r : NatsRequest} (hr : r ∈ s.asked) (t : Nat) :
    (r.thread, r.number) ≠ (t, (s.workers t).requests) := by
  intro heq
  obtain ⟨rfl, hnumber⟩ := Prod.mk.inj heq
  exact Nat.ne_of_lt (h.asked r hr) hnumber

theorem Known.open_nextRequest (h : s.Known threads) (t : Nat) : s.Open (s.nextRequest t) := fun hmem =>
  Nat.lt_irrefl _ ((h.kept t).finished _ (.inl hmem))

section Taken

variable {t : Nat} {form : RequestForm} {answers : NatsAnswers}

theorem open_taken (ht : answers.taken = true) (r : NatsRequest) :
    (s.onWorker t (.request form answers)).Open r ↔ s.Open r := by
  rw [Open, Open]
  by_cases heq : r.thread = t
  · rw [heq, workers_onWorker_self, NatsWorker.step, ((s.workers t).request_taken form ht).2.1]
  · rw [workers_onWorker_ne s _ heq]

theorem waiting_taken (ht : answers.taken = true) (t' : Nat) (inbox : Inbox) (q : Nat) :
    ((s.onWorker t (.request form answers)).workers t').waiting inbox = some q ↔
      if t' = t ∧ inbox = (s.workers t).nextInbox then q = (s.workers t).requests
      else (s.workers t').waiting inbox = some q := by
  by_cases heq : t' = t
  · rw [heq, workers_onWorker_self, NatsWorker.step, ((s.workers t).request_taken form ht).1]
    by_cases hinbox : inbox = (s.workers t).nextInbox
    · rw [if_pos ⟨rfl, hinbox⟩, hinbox, Function.update_self, Option.some.injEq]
      exact eq_comm
    · rw [if_neg fun hand => hinbox hand.2, Function.update_of_ne hinbox]
  · rw [workers_onWorker_ne s _ heq, if_neg fun hand => heq hand.1]

theorem step_taken (ht : answers.taken = true) : s.step threads (.request t form answers) =
    { s.onWorker t (.request form answers) with
      asked         := s.asked ++ [s.nextRequest t]
      subscriptions := (s.onWorker t (.request form answers)).subscriptions ++ [s.nextRequest t] } := by
  simp only [step, if_pos ht]
  rfl

theorem known_taken (h : s.Known threads) (ht : answers.taken = true) :
    (s.step threads (.request t form answers)).Known threads := by
  have htaken := (s.workers t).request_taken form ht
  have hrequests : ∀ t', (s.workers t').requests ≤ ((s.onWorker t (.request form answers)).workers t').requests :=
    forall_onWorker (P := fun t' w => (s.workers t').requests ≤ w.requests)
      (Nat.le_of_lt (Nat.lt_of_lt_of_eq (Nat.lt_succ_self _) htaken.2.2.1.symm)) (fun _ _ => Nat.le_refl _)
  rw [step_taken ht]
  refine ⟨h.kept_onWorker t _, ?_, fun r hr => ?_, fun m hm => List.mem_append_left _ (h.onTheWay m hm)⟩
  · exact forall_onWorker (P := fun t' w => w.index = threads.index t') (htaken.2.2.2.trans (h.index t))
      (fun t' _ => h.index t')
  · rcases List.mem_append.1 hr with hr | hr
    · exact Nat.lt_of_lt_of_le (h.asked r hr) (hrequests r.thread)
    · rw [List.mem_singleton.1 hr]
      change _ < ((s.onWorker t (.request form answers)).workers t).requests
      rw [workers_onWorker_self, NatsWorker.step, htaken.2.2.1]
      exact Nat.lt_succ_self _

theorem isolated_taken_iff (h : s.Known threads) (hsafe : s.Isolated threads) (ht : answers.taken = true) :
    (s.step threads (.request t form answers)).Isolated threads ↔ s.Unique threads (.request t form answers) := by
  rw [step_taken ht, Unique]
  have hinbox := h.inbox_nextRequest t
  constructor
  · refine fun hnew _ => ⟨fun r hr hopen hname => ?_, fun m hm htarget hname => ?_⟩
    · have heq := hnew.distinct r (List.mem_append_left _ hr) (s.nextRequest t)
        (List.mem_append_right _ (List.mem_singleton_self _)) ((open_taken ht r).2 hopen)
        ((open_taken ht _).2 (h.open_nextRequest t)) (((h.inbox_eq_nextInbox t r).2 hname).trans hinbox.symm)
      exact h.ne_nextRequest hr t (by rw [heq]; rfl)
    · have hwaiting := (@waiting_taken s t form answers ht m.target (threads.inbox m.answers)
        (s.workers t).requests).2 (by rw [if_pos ⟨htarget, (h.inbox_eq_nextInbox t _).2 hname⟩])
      have heq := hnew.onTheWay m hm _ hwaiting
      rw [htarget] at heq
      exact h.ne_nextRequest (h.onTheWay m hm) t heq.symm
  · intro hunique
    obtain ⟨hasked, honTheWay⟩ := hunique ht
    have hne : ∀ r ∈ s.asked, s.Open r → threads.inbox r ≠ threads.inbox (s.nextRequest t) := fun r hr hopen heq =>
      hasked r hr hopen ((h.inbox_eq_nextInbox t r).1 (heq.trans hinbox))
    refine ⟨fun r hr r' hr' hopen hopen' heq => ?_, fun m hm q hq => ?_, hsafe.delivered⟩
    · have hopen := (open_taken ht r).1 hopen
      have hopen' := (open_taken ht r').1 hopen'
      rcases List.mem_append.1 hr with hr | hr
      · rcases List.mem_append.1 hr' with hr' | hr'
        · exact hsafe.distinct r hr r' hr' hopen hopen' heq
        · exact absurd (List.mem_singleton.1 hr' ▸ heq) (hne r hr hopen)
      · rcases List.mem_append.1 hr' with hr' | hr'
        · exact absurd (List.mem_singleton.1 hr ▸ heq.symm) (hne r' hr' hopen')
        · exact (List.mem_singleton.1 hr).trans (List.mem_singleton.1 hr').symm
    · have hq := (waiting_taken ht m.target (threads.inbox m.answers) q).1 hq
      have hnot : ¬(m.target = t ∧ threads.inbox m.answers = (s.workers t).nextInbox) := fun hand =>
        honTheWay m hm hand.1 ((h.inbox_eq_nextInbox t _).1 hand.2)
      rw [if_neg hnot] at hq
      exact hsafe.onTheWay m hm q hq

end Taken

theorem known_step (h : s.Known threads) (hsafe : s.Isolated threads) (e : NatsSystemEvent) :
    (s.step threads e).Known threads := by
  cases e with
  | request t form answers =>
    by_cases ht : answers.taken = true
    · exact known_taken h ht
    · simp only [step, if_neg ht]
      exact (settled_onWorker h hsafe (NatsWorker.settles_request _ form ht)).1
  | publish r payload      => exact known_publish h r payload
  | reply i                => exact (settled_reply h hsafe i).1
  | lose i                 => exact (settled_lose h hsafe i).1
  | timer t id             => exact (settled_onWorker h hsafe (NatsWorker.settles_onTimer _ id)).1
  | shutdown t kept        => exact (settled_onWorker h hsafe (NatsWorker.settles_shutdown _ kept)).1

theorem isolated_step_iff (h : s.Known threads) (hsafe : s.Isolated threads) (e : NatsSystemEvent) :
    (s.step threads e).Isolated threads ↔ s.Unique threads e := by
  cases e with
  | request t form answers =>
    by_cases ht : answers.taken = true
    · exact isolated_taken_iff h hsafe ht
    · simp only [step, if_neg ht]
      exact iff_of_true (settled_onWorker h hsafe (NatsWorker.settles_request _ form ht)).2 fun ht' => absurd ht' ht
  | publish r payload      => exact isolated_publish_iff hsafe r payload
  | reply i                => exact iff_of_true (settled_reply h hsafe i).2 trivial
  | lose i                 => exact iff_of_true (settled_lose h hsafe i).2 trivial
  | timer t id             => exact iff_of_true (settled_onWorker h hsafe (NatsWorker.settles_onTimer _ id)).2 trivial
  | shutdown t kept        =>
    exact iff_of_true (settled_onWorker h hsafe (NatsWorker.settles_shutdown _ kept)).2 trivial

/-! ## Runs -/

/-- Nothing was requested yet by any thread. -/
def start (threads : NatsThreads) : NatsSystem :=
  { workers := fun t => NatsWorker.start (threads.index t) (threads.worker t).isSome }

theorem known_start (threads : NatsThreads) : (start threads).Known threads :=
  ⟨fun _ => NatsWorker.kept_start _ _, fun _ => rfl, fun _ hr => absurd hr List.not_mem_nil,
    fun _ hm => absurd hm List.not_mem_nil⟩

theorem isolated_start (threads : NatsThreads) : (start threads).Isolated threads :=
  ⟨fun _ hr => absurd hr List.not_mem_nil, fun _ hm => absurd hm List.not_mem_nil, fun _ hd => absurd hd List.not_mem_nil⟩

/-- **For any threads of any processes, in every state of a run no two pending requests have the same inbox and replies
are only for the requests that they answer, exactly if no request is made while one of the same index and number is
pending, or a reply to such a one on its way to the thread, and no reply is published whose index and number lead it to
another pending request.** -/
theorem run_isolated_iff (threads : NatsThreads) (events : List NatsSystemEvent) :
    Always (step threads) (Isolated threads) (start threads) events ↔
    Along (step threads) (Unique threads) (start threads) events :=
  Run.always_iff_along (fun _ e h hsafe => known_step h hsafe e) (fun _ e h hsafe => isolated_step_iff h hsafe e) events
    (known_start threads) (isolated_start threads)

/-- Processes of one thread each, their worker with the index 0. -/
def oneWorkerEach : NatsThreads where
  process         := fun t => t
  worker          := fun _ => some 0
  getWorker p i   := if i = 0 then some p else none
  getWorker_iff p i t := by
    by_cases hi : i = 0
    · simp [hi, eq_comm]
    · simp [hi, eq_comm]
  worker_lt t i h := by
    cases h
    decide

/-- Two processes each make their first request. -/
theorem not_run_isolated_processes : ¬∀ (threads : NatsThreads) (events : List NatsSystemEvent),
    Always (step threads) (Isolated threads) (start threads) events := by
  intro h
  have hsafe := (h oneWorkerEach [.request 0 .promise ⟨true, true, true⟩, .request 1 .promise ⟨true, true, true⟩]).2.2
  have heq := hsafe.distinct ⟨0, 0, 0⟩ (by decide +kernel) ⟨1, 0, 0⟩ (by decide +kernel) (by decide +kernel)
    (by decide +kernel) (by decide +kernel)
  exact absurd heq (by decide)

end NatsSystem

end Gb
