import GbServer.KcpReceive
import GbServer.Lib.Tally
import Mathlib.Logic.Function.Basic
/-!
# KcpListener — datagrams of many endpoints on one socket

`KcpListener` (`kcp_listener.cpp`) looks up the conversation of a datagram in `_kcp_map` and posts it to the session it
finds, or creates one.  Sessions are numbered as they are created.  What is posted to a session is done in order
(`KcpTask`), on its own thread, so one step of the listener, one task of a session, or a `close` from any thread come in
any order.

`first` is the datagram that created a session, `routed` the datagrams that were posted to it, `fed` those that came to
`ikcp_input`, and `drained` what `DrainInput` took out of KCP; `received` are the datagrams that the listener looked up.
-/
namespace Gb

open Run (Along)
open Tally

structure KcpDatagram (ε : Type) where
  sender : ε
  bytes  : List UInt8
  deriving DecidableEq

/-- `ikcp_getconv`, on a buffer of zeros. -/
def KcpDatagram.conv {ε : Type} (d : KcpDatagram ε) : UInt32 := UInt32.ofNat (decode32u d.bytes)

/-- The first post of a session is `Setup`, what `set_socket_connected` does to the status, and the input of the first
datagram. -/
inductive KcpTask (ε : Type)
  | setup (d : KcpDatagram ε)
  | connected
  | input (d : KcpDatagram ε)

/-- The datagram of a task. -/
def KcpTask.data {ε : Type} : KcpTask ε → Option (KcpDatagram ε)
  | setup d   => some d
  | connected => none
  | input d   => some d

@[simp] theorem KcpTask.data_connected {ε : Type} : (connected (ε := ε)).data = none := rfl

@[simp] theorem KcpTask.data_input {ε : Type} (d : KcpDatagram ε) : (input d).data = some d := rfl

structure KcpSession (ε κ : Type) where
  first           : KcpDatagram ε
  tasks           : List (KcpTask ε)
  endpoint        : Option ε := none
  kcp             : Option κ := none
  closed          : Bool := false
  transportClosed : Bool := false
  routed          : List (KcpDatagram ε)
  fed             : List (KcpDatagram ε) := []
  drained         : List UInt8 := []

structure KcpListener (ε κ : Type) where
  closed   : Bool := false
  kcpMap   : UInt32 → Option Nat := fun _ => none
  sessions : List (KcpSession ε κ) := []
  received : List (KcpDatagram ε) := []

/-- What the listener, the sessions and those that close them do.  The sending half of a session is not here: no `ikcp_send`
or `ikcp_update` comes between the datagrams that it is fed with. -/
inductive KcpEvent (ε : Type)
  | receive (d : KcpDatagram ε)
  | run (session : Nat)
  | close (session : Nat)
  | closeListener

namespace KcpSession

variable {ε κ : Type} (k : Ikcp κ) (s : KcpSession ε κ)

def create (d : KcpDatagram ε) : KcpSession ε κ := { first := d, tasks := [.setup d], routed := [d] }

def post (d : KcpDatagram ε) : KcpSession ε κ := { s with tasks := s.tasks ++ [.input d], routed := s.routed ++ [d] }

def close : KcpSession ε κ := if s.closed then s else { s with closed := true, transportClosed := true, kcp := none }

def setup (d : KcpDatagram ε) : KcpSession ε κ :=
  if s.transportClosed then s.close
  else
    match k.create d.conv with
    | some kcp => { s with endpoint := some d.sender, kcp := some kcp, tasks := .connected :: .input d :: s.tasks }
    | none     => { s with endpoint := some d.sender }.close

def handleInput (d : KcpDatagram ε) : KcpSession ε κ :=
  if s.transportClosed then s
  else
    match s.kcp with
    | some kcp =>
      let r := k.drainInput (k.input kcp d.bytes)
      { s with kcp := some r.1, fed := s.fed ++ [d], drained := s.drained ++ r.2 }
    | none     => s

def runTask : KcpSession ε κ :=
  match s.tasks with
  | []                  => s
  | .setup d :: tasks   => { s with tasks }.setup k d
  | .connected :: tasks => { s with tasks, closed := false }
  | .input d :: tasks   => { s with tasks }.handleInput k d

end KcpSession

namespace KcpListener

variable {ε κ : Type} (k : Ikcp κ) (s : KcpListener ε κ)

/-- Whether the session with a number is closed. -/
def isClosed (session : Nat) : Bool := s.sessions[session]?.any fun e => e.closed

def onReceive (d : KcpDatagram ε) : KcpListener ε κ :=
  if s.closed ∨ d.bytes = [] then s
  else
    let s := { s with received := s.received ++ [d] }
    match s.kcpMap d.conv with
    | some session =>
      if s.isClosed session then { s with kcpMap := Function.update s.kcpMap d.conv none }
      else { s with sessions := s.sessions.modify session fun e => e.post d }
    | none         =>
      { s with
        kcpMap   := Function.update s.kcpMap d.conv (some s.sessions.length)
        sessions := s.sessions ++ [.create d] }

def step (s : KcpListener ε κ) : KcpEvent ε → KcpListener ε κ
  | .receive d     => s.onReceive d
  | .run session   => { s with sessions := s.sessions.modify session fun e => e.runTask k }
  | .close session => { s with sessions := s.sessions.modify session fun e => e.close }
  | .closeListener => if s.closed then s else { s with closed := true, kcpMap := fun _ => none }

end KcpListener

namespace Ikcp

variable {ε κ : Type}

/-- KCP with what was drained from it, after one more datagram. -/
def feed (k : Ikcp κ) (r : κ × List UInt8) (d : KcpDatagram ε) : κ × List UInt8 :=
  let q := k.drainInput (k.input r.1 d.bytes)
  (q.1, r.2 ++ q.2)

/-- What these datagrams yield on a conversation of their own. -/
def replay (k : Ikcp κ) (conv : UInt32) (fed : List (KcpDatagram ε)) : Option (κ × List UInt8) :=
  (k.create conv).map fun kcp => fed.foldl k.feed (kcp, [])

end Ikcp

namespace KcpSession

variable {ε κ : Type} {k : Ikcp κ} {s : KcpSession ε κ}

/-- A session is about one conversation and the endpoint that began it: only datagrams of the conversation are posted to
it, the first one first, and they alone decide what comes out of its KCP. -/
structure Isolated (k : Ikcp κ) (s : KcpSession ε κ) : Prop where
  routed   : ∃ later, s.routed = s.first :: later ∧ ∀ d ∈ later, d.conv = s.first.conv
  fed      : s.fed <+: s.routed
  endpoint : ∀ e ∈ s.endpoint, e = s.first.sender
  drained  : s.drained = ((k.replay s.first.conv s.fed).map Prod.snd).getD []

theorem Isolated.conv (h : s.Isolated k) : ∀ d ∈ s.routed, d.conv = s.first.conv := by
  obtain ⟨later, hrouted, hconv⟩ := h.routed
  intro d hd
  rw [hrouted] at hd
  rcases List.mem_cons.1 hd with rfl | hd
  · rfl
  · exact hconv d hd

/-- Before `Setup`. -/
def Waiting (s : KcpSession ε κ) : Prop := s.fed = [] ∧ ∃ later, s.tasks = .setup s.first :: later.map .input ∧
  s.routed = s.first :: later

/-- With its KCP, which has got what was fed; what is posted is still to come. -/
def Running (k : Ikcp κ) (s : KcpSession ε κ) : Prop := (∃ kcp, s.kcp = some kcp ∧
  k.replay s.first.conv s.fed = some (kcp, s.drained)) ∧ (∀ d, .setup d ∉ s.tasks) ∧
  s.routed = s.fed ++ s.tasks.filterMap KcpTask.data

structure Sound (k : Ikcp κ) (s : KcpSession ε κ) : Prop where
  isolated : s.Isolated k
  closed   : s.closed = true → s.transportClosed = true
  phase    : s.transportClosed = true ∨ s.Waiting ∨ s.Running k

theorem Sound.create (d : KcpDatagram ε) : (create (κ := κ) d).Sound k where
  isolated := by
    refine ⟨⟨[], rfl, by simp⟩, List.nil_prefix, fun e he => (nomatch he), ?_⟩
    cases hcreate : k.create d.conv <;> simp [KcpSession.create, Ikcp.replay, hcreate]
  closed   := fun hclosed => nomatch hclosed
  phase    := .inr (.inl ⟨rfl, [], rfl, rfl⟩)

theorem Sound.post (h : s.Sound k) {d : KcpDatagram ε} (hconv : d.conv = s.first.conv) : (s.post d).Sound k where
  isolated := by
    obtain ⟨later, hrouted, hlater⟩ := h.isolated.routed
    refine ⟨⟨later ++ [d], ?_, ?_⟩, h.isolated.fed.trans (List.prefix_append _ _), h.isolated.endpoint, h.isolated.drained⟩
    · simp [KcpSession.post, hrouted]
    · intro e he
      rcases List.mem_append.1 he with he | he
      · exact hlater e he
      · rw [List.mem_singleton.1 he]
        exact hconv
  closed   := h.closed
  phase    := by
    rcases h.phase with hclosed | ⟨hfed, later, htasks, hrouted⟩ | ⟨hkcp, hsetup, hrouted⟩
    · exact .inl hclosed
    · refine .inr (.inl ⟨hfed, later ++ [d], ?_, ?_⟩)
      · simp [KcpSession.post, htasks]
      · simp [KcpSession.post, hrouted]
    · refine .inr (.inr ⟨hkcp, fun e => ?_, ?_⟩)
      · simpa [KcpSession.post] using hsetup e
      · simp [KcpSession.post, hrouted]

theorem Sound.close (h : s.Sound k) : s.close.Sound k := by
  unfold KcpSession.close
  split
  · exact h
  · exact ⟨⟨h.isolated.routed, h.isolated.fed, h.isolated.endpoint, h.isolated.drained⟩, fun _ => rfl, .inl rfl⟩

/-- What changes the tasks and the status only, once the transport is closed. -/
theorem Sound.of_closed (h : s.Sound k) (hclosed : s.transportClosed = true) {tasks : List (KcpTask ε)} {closed : Bool}
    (htransport : closed = true → s.transportClosed = true) : Sound k { s with tasks, closed } where
  isolated := ⟨h.isolated.routed, h.isolated.fed, h.isolated.endpoint, h.isolated.drained⟩
  closed   := htransport
  phase    := .inl hclosed

theorem setup_of_closed (hclosed : s.transportClosed = true) (d : KcpDatagram ε) : s.setup k d = s.close := by
  unfold KcpSession.setup
  rw [if_pos hclosed]

theorem Sound.setup (h : s.Sound k) {later : List (KcpDatagram ε)} (hopen : ¬s.transportClosed = true) (hfed : s.fed = [])
    (hrouted : s.routed = s.first :: later) : Sound k ({ s with tasks := later.map .input }.setup k s.first) := by
  have hclosed : ¬s.closed = true := fun hc => hopen (h.closed hc)
  have hendpoint : ∀ e ∈ some s.first.sender, e = s.first.sender := fun e he => (Option.some.inj he).symm
  have hisolated := h.isolated
  unfold KcpSession.setup
  dsimp only
  rw [if_neg hopen]
  cases hcreate : k.create s.first.conv with
  | none     =>
    dsimp only [KcpSession.close]
    rw [if_neg hclosed]
    exact ⟨⟨hisolated.routed, hisolated.fed, hendpoint, hisolated.drained⟩, fun _ => rfl, .inl rfl⟩
  | some kcp =>
    refine ⟨⟨hisolated.routed, hisolated.fed, hendpoint, hisolated.drained⟩, fun hc => absurd hc hclosed,
      .inr (.inr ⟨⟨kcp, rfl, ?_⟩, ?_, ?_⟩)⟩
    · have hdrained := hisolated.drained
      simp only [hfed, Ikcp.replay, hcreate, Option.map_some, List.foldl_nil, Option.getD_some] at hdrained ⊢
      rw [hdrained]
    · simp
    · have hinputs : (later.map KcpTask.input).filterMap KcpTask.data = later := by
        rw [List.filterMap_map]
        exact List.filterMap_some
      dsimp only
      rw [hfed, hrouted, List.filterMap_cons_none KcpTask.data_connected,
        List.filterMap_cons_some (KcpTask.data_input _), hinputs, List.nil_append]

theorem Sound.handleInput (h : s.Sound k) (hrunning : s.transportClosed = true ∨ s.Running k) {d : KcpDatagram ε}
    {tasks : List (KcpTask ε)} (htasks : s.tasks = .input d :: tasks) : Sound k ({ s with tasks }.handleInput k d) := by
  unfold KcpSession.handleInput
  dsimp only
  by_cases hclosed : s.transportClosed = true
  · rw [if_pos hclosed]
    exact h.of_closed hclosed h.closed
  · obtain ⟨⟨kcp, hkcp, hreplay⟩, hsetup, hrouted⟩ := hrunning.resolve_left hclosed
    rw [if_neg hclosed, hkcp]
    dsimp only
    have hfed : k.replay s.first.conv (s.fed ++ [d]) = some (k.feed (kcp, s.drained) d) := by
      obtain ⟨kcp₀, hcreate, hfold⟩ := Option.map_eq_some_iff.1 hreplay
      rw [Ikcp.replay, hcreate, Option.map_some, List.foldl_append, hfold]
      rfl
    rw [htasks, List.filterMap_cons_some (KcpTask.data_input d)] at hrouted
    refine ⟨⟨h.isolated.routed, ?_, h.isolated.endpoint, ?_⟩, h.closed, .inr (.inr ⟨⟨_, rfl, hfed⟩, fun e he => ?_, ?_⟩)⟩
    · exact ⟨tasks.filterMap KcpTask.data, by simp [hrouted]⟩
    · dsimp only
      rw [hfed]
      rfl
    · exact hsetup e (htasks ▸ List.mem_cons_of_mem _ he)
    · simp [hrouted]

/-- **A session stays isolated over its tasks.** -/
theorem Sound.runTask (h : s.Sound k) : Sound k (s.runTask k) := by
  unfold KcpSession.runTask
  split
  · exact h
  · rename_i d tasks htasks
    by_cases hclosed : s.transportClosed = true
    · rw [setup_of_closed (s := { s with tasks }) hclosed]
      exact (h.of_closed hclosed h.closed).close
    · rcases h.phase.resolve_left hclosed with ⟨hfed, later, hlater, hrouted⟩ | ⟨_, hsetup, _⟩
      · obtain ⟨rfl, rfl⟩ : d = s.first ∧ tasks = later.map .input := by
          rw [htasks] at hlater
          simpa using hlater
        exact h.setup hclosed hfed hrouted
      · exact absurd (htasks ▸ List.mem_cons_self) (hsetup d)
  · rename_i tasks htasks
    rcases h.phase with hclosed | ⟨_, later, hlater, _⟩ | ⟨hkcp, hsetup, hrouted⟩
    · exact h.of_closed hclosed fun hc => (nomatch hc)
    · rw [htasks] at hlater
      cases hlater
    · refine ⟨⟨h.isolated.routed, h.isolated.fed, h.isolated.endpoint, h.isolated.drained⟩, fun hc => (nomatch hc),
        .inr (.inr ⟨hkcp, fun e he => hsetup e (htasks ▸ List.mem_cons_of_mem _ he), ?_⟩)⟩
      rw [htasks] at hrouted
      exact hrouted
  · rename_i d tasks htasks
    refine h.handleInput ?_ htasks
    rcases h.phase with hclosed | ⟨_, later, hlater, _⟩ | hrunning
    · exact .inl hclosed
    · rw [htasks] at hlater
      cases hlater
    · exact .inr hrunning

/-! ## What stays as it is -/

@[simp] theorem first_close : s.close.first = s.first := by
  unfold KcpSession.close
  split <;> rfl

@[simp] theorem routed_close : s.close.routed = s.routed := by
  unfold KcpSession.close
  split <;> rfl

theorem runTask_same : (s.runTask k).first = s.first ∧ (s.runTask k).routed = s.routed := by
  unfold KcpSession.runTask KcpSession.setup KcpSession.handleInput
  split
  · exact ⟨rfl, rfl⟩
  · split
    · simp
    · split <;> simp
  · exact ⟨rfl, rfl⟩
  · split
    · exact ⟨rfl, rfl⟩
    · split <;> exact ⟨rfl, rfl⟩

end KcpSession

namespace KcpListener

variable {ε κ : Type} {k : Ikcp κ} {s : KcpListener ε κ}

/-- The sessions are isolated, each is registered under the conversation that it is about, and nobody makes datagrams up. -/
structure Sound (k : Ikcp κ) (s : KcpListener ε κ) : Prop where
  sessions   : ∀ e ∈ s.sessions, e.Sound k
  registered : ∀ conv n, s.kcpMap conv = some n → ∃ e, s.sessions[n]? = some e ∧ e.first.conv = conv
  received   : ∀ e ∈ s.sessions, ∀ d ∈ e.routed, d ∈ s.received

/-- A change of one session that keeps what the session is about. -/
theorem Sound.modify (h : s.Sound k) (n : Nat) {f : KcpSession ε κ → KcpSession ε κ}
    (hsound : ∀ e, s.sessions[n]? = some e → (f e).Sound k) (hsame : ∀ e, (f e).first = e.first ∧ (f e).routed = e.routed) :
    Sound k { s with sessions := s.sessions.modify n f } where
  sessions   := forall_modify h.sessions n hsound
  registered := fun conv m hm => by
    obtain ⟨e, he, hconv⟩ := h.registered conv m hm
    by_cases hnm : n = m
    · exact ⟨f e, by simp [he, hnm], by rw [(hsame e).1, hconv]⟩
    · exact ⟨e, by simp [he, hnm], hconv⟩
  received   := forall_modify h.received n fun e he d hd =>
    h.received e (List.mem_of_getElem? he) d ((hsame e).2 ▸ hd)

theorem Sound.receive (h : s.Sound k) (d : KcpDatagram ε) : (s.onReceive d).Sound k := by
  have hreceived : ∀ e ∈ s.sessions, ∀ d' ∈ e.routed, d' ∈ s.received ++ [d] := fun e he d' hd =>
    List.mem_append_left _ (h.received e he d' hd)
  unfold onReceive
  split
  · exact h
  · dsimp only
    split
    · rename_i n hn
      obtain ⟨e, he, hconv⟩ := h.registered _ n hn
      split
      · refine ⟨h.sessions, fun conv m hm => ?_, hreceived⟩
        by_cases hd : conv = d.conv
        · simp [hd] at hm
        · exact h.registered conv m (by simpa [hd] using hm)
      · constructor
        · apply forall_modify h.sessions n
          intro e' he'
          rw [he] at he'
          obtain rfl := Option.some.inj he'
          exact (h.sessions e (List.mem_of_getElem? he)).post hconv.symm
        · intro conv m hm
          obtain ⟨e', he', hconv'⟩ := h.registered conv m hm
          by_cases hnm : n = m
          · exact ⟨e'.post d, by simp [he', hnm], hconv'⟩
          · exact ⟨e', by simp [he', hnm], hconv'⟩
        · apply forall_modify hreceived n
          intro e' he' d' hd'
          rcases List.mem_append.1 hd' with hd' | hd'
          · exact hreceived e' (List.mem_of_getElem? he') d' hd'
          · exact List.mem_append_right _ hd'
    · refine ⟨?_, fun conv m hm => ?_, ?_⟩
      · intro e he
        rcases List.mem_append.1 he with he | he
        · exact h.sessions e he
        · rw [List.mem_singleton.1 he]
          exact .create d
      · by_cases hd : conv = d.conv
        · simp only [hd, Function.update_self, Option.some.injEq] at hm
          exact ⟨.create d, by simp [← hm], hd.symm⟩
        · obtain ⟨e, he, hconv⟩ := h.registered conv m (by simpa [hd] using hm)
          refine ⟨e, ?_, hconv⟩
          rw [List.getElem?_append_left (List.getElem?_eq_some_iff.1 he).1, he]
      · intro e he d' hd'
        rcases List.mem_append.1 he with he | he
        · exact hreceived e he d' hd'
        · rw [List.mem_singleton.1 he] at hd'
          exact List.mem_append_right _ hd'

theorem Sound.step (h : s.Sound k) (e : KcpEvent ε) : (s.step k e).Sound k := by
  cases e with
  | receive d     => exact h.receive d
  | run n         =>
    exact h.modify n (fun e he => (h.sessions e (List.mem_of_getElem? he)).runTask) fun e => KcpSession.runTask_same
  | close n       =>
    exact h.modify n (fun e he => (h.sessions e (List.mem_of_getElem? he)).close) fun e => by simp
  | closeListener =>
    simp only [KcpListener.step]
    split
    · exact h
    · exact ⟨h.sessions, fun conv n hn => (nomatch hn), h.received⟩

/-! ## Every datagram has its session -/

variable [DecidableEq ε]

/-- A datagram does not come for a closed session. -/
def ToOpen (s : KcpListener ε κ) : KcpEvent ε → Prop
  | .receive d => ∀ n ∈ s.kcpMap d.conv, s.isClosed n = false
  | _          => True

instance (s : KcpListener ε κ) : (e : KcpEvent ε) → Decidable (s.ToOpen e)
  | .receive _     => inferInstanceAs (Decidable (∀ _ ∈ _, _))
  | .run _         => isTrue trivial
  | .close _       => isTrue trivial
  | .closeListener => isTrue trivial

/-- Every datagram that was looked up has been posted, as often as it came. -/
def Routed (s : KcpListener ε κ) : Prop := ∀ d, s.received.count d = tally (fun e => e.routed.count d) s.sessions

theorem Routed.step (h : s.Routed) (hsound : s.Sound k) (e : KcpEvent ε) (hopen : s.ToOpen e) : (s.step k e).Routed := by
  intro d'
  cases e with
  | run n         =>
    simp only [KcpListener.step]
    rw [tally_modify_of_eq fun e => by rw [KcpSession.runTask_same.2]]
    exact h d'
  | close n       =>
    simp only [KcpListener.step]
    rw [tally_modify_of_eq fun e => by rw [KcpSession.routed_close]]
    exact h d'
  | closeListener =>
    simp only [KcpListener.step]
    split <;> exact h d'
  | receive d     =>
    simp only [KcpListener.step, onReceive]
    split
    · exact h d'
    · split
      · rename_i n hn
        obtain ⟨e, he, _⟩ := hsound.registered _ n hn
        have hnot : isClosed { s with received := s.received ++ [d] } n = false := hopen n hn
        rw [hnot, if_neg Bool.false_ne_true]
        have hmodify := tally_modify (fun e : KcpSession ε κ => e.routed.count d') (fun e => e.post d) he
        have hbefore := h d'
        simp only [KcpSession.post, List.count_append] at hmodify ⊢
        omega
      · rw [List.count_append, tally_append, h d']
        simp [KcpSession.create]

/-! ## Runs -/

/-- What the sessions are fed with, and where each datagram goes. -/
structure Isolated (k : Ikcp κ) (s : KcpListener ε κ) : Prop where
  sessions  : ∀ e ∈ s.sessions, e.Isolated k
  endpoints : (∀ d ∈ s.received, ∀ d' ∈ s.received, d.conv = d'.conv → d.sender = d'.sender) →
    ∀ e ∈ s.sessions, ∀ d ∈ e.fed, d.sender = e.first.sender

omit [DecidableEq ε] in
theorem Sound.isolated (h : s.Sound k) : s.Isolated k where
  sessions  := fun e he => (h.sessions e he).isolated
  endpoints := fun hown e he d hd => by
    have hisolated := (h.sessions e he).isolated
    obtain ⟨later, hrouted, _⟩ := hisolated.routed
    have hmem := hisolated.fed.subset hd
    apply hown d (h.received e he d hmem) e.first (h.received e he _ (hrouted ▸ List.mem_cons_self))
    exact hisolated.conv d hmem

omit [DecidableEq ε] in
theorem sound_init : Sound k ({} : KcpListener ε κ) where
  sessions   := fun _ he => absurd he List.not_mem_nil
  registered := fun _ _ hn => nomatch hn
  received   := fun _ he => absurd he List.not_mem_nil

/-- **A session is fed with datagrams of its own conversation only, the one that created it first; so with those of its own
endpoint, where no two endpoints use the same conversation.  And every datagram goes to the session registered for its
conversation, or to a new one for its endpoint, where none comes for a closed session.** -/
theorem run_isolated (k : Ikcp κ) (events : List (KcpEvent ε)) : (events.foldl (step k) {}).Isolated k ∧
    (Along (step k) ToOpen {} events → (events.foldl (step k) {}).Routed) := by
  have hrouted : ∀ (t : KcpListener ε κ) (e : KcpEvent ε), t.Sound k ∧ t.Routed → t.ToOpen e →
      (t.step k e).Sound k ∧ (t.step k e).Routed := fun _ e ht ho => ⟨ht.1.step e, ht.2.step ht.1 e ho⟩
  refine ⟨(Run.foldl_of_step (Sound k) (fun _ e ht => ht.step e) events sound_init).isolated, fun hopen => ?_⟩
  exact (Run.foldl_inv hrouted events ⟨sound_init, fun d => rfl⟩ hopen).2

/-- A push segment of one byte. -/
def pushSegment (conv sn b : UInt8) : List UInt8 :=
  [conv, 0, 0, 0, 81] ++ List.replicate 7 0 ++ [sn] ++ List.replicate 7 0 ++ [1, 0, 0, 0, b]

/-- Two endpoints with a conversation each. -/
def twoEndpoints : List (KcpEvent Nat) :=
  [.receive ⟨10, pushSegment 1 0 7⟩, .receive ⟨20, pushSegment 2 0 8⟩, .receive ⟨10, pushSegment 1 1 9⟩] ++
    List.replicate 4 (.run 0) ++ List.replicate 3 (.run 1)

theorem run_isolated_twoEndpoints : (twoEndpoints.foldl (step inOrderKcp) {}).Isolated inOrderKcp ∧
    (twoEndpoints.foldl (step inOrderKcp) {}).Routed :=
  have h := run_isolated inOrderKcp twoEndpoints
  ⟨h.1, h.2 (by decide +kernel)⟩

/-- A segment of another endpoint with the conversation of a session. -/
theorem not_run_isolated : ¬∀ events : List (KcpEvent Nat), ∀ e ∈ (events.foldl (step inOrderKcp) {}).sessions,
    ∀ d ∈ e.fed, d.sender = e.first.sender := by
  intro h
  have hfed := h ([.receive ⟨10, pushSegment 1 0 7⟩, .receive ⟨20, pushSegment 1 1 9⟩] ++ List.replicate 4 (.run 0))
  exact absurd hfed (by decide +kernel)

end KcpListener

end Gb
