import GbServer.ConnectionLimit
import GbServer.KcpListener
/-!
# KcpConnections — what the conversation map of a listener keeps alive

`KcpListener::OnReceive` (`kcp_listener.cpp`) puts a session into `_kcp_map` before its accept task has asked `OnAccepted`
(`server.cpp`) whether there is room, and takes one out only when a later datagram comes for it.  The sessions are numbered
as they are created; a step is one datagram, one step of an accept task, or what closes sessions and listeners.

The map stays within the limit, with open sessions only, as long as none of its sessions closes, none is turned away, and
`OnAccepted` is not called at the same time for more than there is room for (`run_bounded`).
-/
namespace Gb

open Run (Along Always)
open Tally

/-- The task that `OnReceive` posts for a new session, before the step that is next. -/
inductive KcpAccept
  | setup
  | accepting (call : ServerCall Nat)
  | input
  | done
  deriving DecidableEq

/-- What `SetupKcp` comes to: `ikcp_create` may fail, and `on_connected` closes the stream if it gets no transfer block. -/
inductive KcpSetup
  | failed
  | outOfMemory
  | connected
  deriving DecidableEq

structure KcpConnection (ε : Type) where
  first  : KcpDatagram ε
  accept : KcpAccept := .setup
  closed : Bool := false

structure KcpServer (ε : Type) where
  server         : SessionSet Nat
  listenerClosed : Bool := false
  kcpMap         : List (UInt32 × Nat) := []
  sessions       : List (KcpConnection ε) := []

inductive KcpServerEvent (ε : Type)
  | receive (d : KcpDatagram ε)
  | accept (session : Nat) (setup : KcpSetup)
  | close (session : Nat)
  | closing (k : Nat)
  | stop
  | closeListener
  | reStartListen
  | clearSession

/-- `OnAccepted` closes the session it turns away. -/
def ServerCall.turnedAway {σ : Type} : ServerCall σ → Bool
  | closedRunning _ => true
  | _               => false

namespace KcpConnection

variable {ε : Type} (e : KcpConnection ε)

/-- The call of `OnAccepted` that the accept task is in. -/
def call : ServerCall Nat :=
  match e.accept with
  | .accepting call => call
  | _               => .returned

def acceptStep (server : SessionSet Nat) (session : Nat) (setup : KcpSetup) : SessionSet Nat × KcpConnection ε :=
  match e.accept with
  | .setup               =>
    match setup with
    | .failed      => (server, { e with accept := .done, closed := true })
    -- `Setup` does not look at what `on_connected` said
    | .outOfMemory => (server, { e with accept := .accepting (.acceptedRunning session), closed := true })
    | .connected   => (server, { e with accept := .accepting (.acceptedRunning session) })
  | .accepting .returned => (server, { e with accept := .input })
  | .accepting call      =>
    let (server', call') := server.callStep call
    (server', { e with accept := .accepting call', closed := e.closed || call'.turnedAway })
  | .input               => (server, { e with accept := .done })
  | .done                => (server, e)

/-- Whether others have the session, from the set or from a callback. -/
def handed : Bool :=
  match e.accept with
  | .setup               => false
  | .accepting .returned => true
  | .accepting _         => false
  | .input               => true
  | .done                => true

end KcpConnection

namespace KcpServer

variable {ε : Type} (s : KcpServer ε)

def isClosed (session : Nat) : Bool := s.sessions[session]?.any fun e => e.closed

def onReceive (d : KcpDatagram ε) : KcpServer ε :=
  if s.listenerClosed ∨ d.bytes = [] then s
  else
    match s.kcpMap.lookup d.conv with
    | some session =>
      if s.isClosed session then { s with kcpMap := s.kcpMap.filter fun entry => entry.1 ≠ d.conv } else s
    | none         =>
      { s with kcpMap := (d.conv, s.sessions.length) :: s.kcpMap, sessions := s.sessions ++ [{ first := d }] }

def step (s : KcpServer ε) : KcpServerEvent ε → KcpServer ε
  | .receive d            => s.onReceive d
  | .accept session setup =>
    match s.sessions[session]? with
    | some e =>
      let (server, e') := e.acceptStep s.server session setup
      { s with server, sessions := s.sessions.set session e' }
    | none   => s
  | .close session        =>
    match s.sessions[session]? with
    | some e =>
      if e.handed ∧ ¬e.closed then
        { s with server := s.server.step (.onClosed session), sessions := s.sessions.set session { e with closed := true } }
      else s
    | none   => s
  | .closing k            => { s with server := s.server.step (.call k) }
  | .stop                 => { s with server := s.server.step .stop }
  | .closeListener        => { s with listenerClosed := true, kcpMap := [] }
  | .reStartListen        => if s.server.isRunning then { s with listenerClosed := false, kcpMap := [] } else s
  -- `Stop` has closed the listener before
  | .clearSession         =>
    if s.listenerClosed ∧ ¬s.server.isRunning then { s with server := s.server.step .clearSession } else s

/-- The accept tasks in progress. -/
def accepting : Nat := s.sessions.countP fun e => e.accept ≠ .done

/-- The map keeps no more sessions alive than the limit and the accept tasks in progress. -/
def Bounded : Prop := (s.kcpMap.length : Int) ≤ max s.server.maxConnectionCount 0 + s.accepting

instance : Decidable s.Bounded := inferInstanceAs (Decidable (_ ≤ _))

/-- The header of a KCP segment, `IKCP_OVERHEAD`. -/
def ikcpOverhead : Nat := 24

/-- The sessions in the map are open, and began with a datagram that has room for a header. -/
def Tidy : Prop := ∀ entry ∈ s.kcpMap, ∃ e, s.sessions[entry.2]? = some e ∧ e.closed = false ∧ ikcpOverhead ≤ e.first.bytes.length

/-- Whether a session is in the map. -/
def Registered (session : Nat) : Prop := ∃ entry ∈ s.kcpMap, entry.2 = session

/-- `SetupKcp` succeeds, and `OnAccepted` does not turn the session away. -/
def Admitted (server : SessionSet Nat) (setup : KcpSetup) : KcpAccept → Prop
  | .setup                          => setup = .connected
  | .accepting (.acceptedRunning _) => server.isRunning = true
  | .accepting (.acceptedCount _)   =>
    server.maxConnectionCount = -1 ∨ server.connectionCount < server.maxConnectionCount
  | _                               => True

/-- The condition on a step: no session in the map is closed, and none begins with less than a header. -/
def Keeping (s : KcpServer ε) : KcpServerEvent ε → Prop
  | .receive d            =>
    s.listenerClosed = false → d.bytes ≠ [] → s.kcpMap.lookup d.conv = none → ikcpOverhead ≤ d.bytes.length
  | .accept session setup => s.Registered session → ∀ e, s.sessions[session]? = some e → Admitted s.server setup e.accept
  | .close session        => s.Registered session → ∀ e, s.sessions[session]? = some e → e.handed = false
  | _                     => True

/-- The server with the calls of the accept tasks and those of `OnClosed`. -/
def view : SessionSet Nat := { s.server with calls := s.sessions.map KcpConnection.call ++ s.server.calls }

/-- `OnAccepted` counts where the calls before their insertion leave room as well. -/
def RoomLeft (s : KcpServer ε) : KcpServerEvent ε → Prop
  | .accept session _ => s.view.RoomLeft (.call session)
  | _                 => True

variable {s}

/-! ## The sessions in the map -/

theorem acceptStep_first (e : KcpConnection ε) (server : SessionSet Nat) (session : Nat) (setup : KcpSetup) :
    (e.acceptStep server session setup).2.first = e.first := by
  unfold KcpConnection.acceptStep
  split
  · cases setup <;> rfl
  all_goals rfl

/-- A step of an accept task leaves the session open exactly if it is admitted. -/
theorem acceptStep_closed {e : KcpConnection ε} (hopen : e.closed = false) (server : SessionSet Nat) (session : Nat)
    (setup : KcpSetup) : (e.acceptStep server session setup).2.closed = false ↔ Admitted server setup e.accept := by
  obtain ⟨first, accept, closed⟩ := e
  obtain rfl : closed = false := hopen
  cases accept with
  | setup          => cases setup <;> simp [KcpConnection.acceptStep, Admitted]
  | input          => exact iff_of_true rfl trivial
  | done           => exact iff_of_true rfl trivial
  | accepting call =>
    cases call with
    | acceptedRunning n =>
      cases hrunning : server.isRunning <;>
        simp [KcpConnection.acceptStep, SessionSet.callStep, Admitted, ServerCall.turnedAway, hrunning]
    | acceptedCount n   =>
      simp only [KcpConnection.acceptStep, SessionSet.callStep, Admitted, Bool.false_or]
      split
      · rename_i hfull
        refine iff_of_false (fun hclosed => by cases hclosed) fun hroom => ?_
        rcases hroom with hunlimited | hlt
        · exact hfull.1 hunlimited
        · exact absurd hlt (not_lt.2 hfull.2)
      · rename_i hroom
        refine iff_of_true rfl ?_
        by_contra hnone
        obtain ⟨hlimit, hge⟩ := not_or.1 hnone
        exact hroom ⟨hlimit, not_lt.1 hge⟩
    | acceptedInsert n  => exact iff_of_true rfl trivial
    | closedRunning n   =>
      cases hrunning : server.isRunning <;>
        simp [KcpConnection.acceptStep, SessionSet.callStep, Admitted, ServerCall.turnedAway, hrunning]
    | closedErase n     => exact iff_of_true rfl trivial
    | returned          => exact iff_of_true rfl trivial

/-- A change of one session, which began with the same datagram. -/
theorem tidy_set_iff (h : s.Tidy) {session : Nat} {e e' : KcpConnection ε} (he : s.sessions[session]? = some e)
    (hfirst : e'.first = e.first) (server : SessionSet Nat) :
    Tidy { s with server, sessions := s.sessions.set session e' } ↔ (s.Registered session → e'.closed = false) := by
  obtain ⟨hlt, -⟩ := List.getElem?_eq_some_iff.1 he
  constructor
  · rintro htidy ⟨entry, hentry, rfl⟩
    obtain ⟨e'', he'', hopen, -⟩ := htidy entry hentry
    change (s.sessions.set entry.2 e')[entry.2]? = some e'' at he''
    rw [List.getElem?_set_self hlt] at he''
    rw [Option.some.inj he'']
    exact hopen
  · intro hopen entry hentry
    obtain ⟨e₀, he₀, hopen₀, hlong⟩ := h entry hentry
    change ∃ e'', (s.sessions.set session e')[entry.2]? = some e'' ∧ _
    by_cases heq : entry.2 = session
    · rw [heq] at he₀ ⊢
      obtain rfl := Option.some.inj (he.symm.trans he₀)
      exact ⟨e', List.getElem?_set_self hlt, hopen ⟨entry, hentry, heq⟩, hfirst ▸ hlong⟩
    · exact ⟨e₀, (List.getElem?_set_ne (Ne.symm heq)).trans he₀, hopen₀, hlong⟩

theorem tidy_onReceive_iff (h : s.Tidy) (d : KcpDatagram ε) : (s.onReceive d).Tidy ↔ s.Keeping (.receive d) := by
  dsimp only [Keeping]
  unfold onReceive
  by_cases hignored : s.listenerClosed = true ∨ d.bytes = []
  · rw [if_pos hignored]
    refine iff_of_true h fun hopen hbytes _ => ?_
    rcases hignored with hclosed | hempty
    · exact absurd (hopen.symm.trans hclosed) Bool.false_ne_true
    · exact absurd hempty hbytes
  · obtain ⟨hopen, hbytes⟩ := not_or.1 hignored
    rw [if_neg hignored]
    cases hlookup : s.kcpMap.lookup d.conv with
    | some session =>
      refine iff_of_true ?_ fun _ _ hnone => absurd hnone (Option.some_ne_none _)
      dsimp only
      split
      · exact fun entry hentry => h entry (List.mem_of_mem_filter hentry)
      · exact h
    | none         =>
      rw [imp_iff_right (Bool.eq_false_of_not_eq_true hopen), imp_iff_right hbytes, imp_iff_right rfl]
      constructor
      · intro htidy
        obtain ⟨e, he, -, hlong⟩ := htidy _ List.mem_cons_self
        rw [← Option.some.inj (List.getElem?_concat_length.symm.trans he)] at hlong
        exact hlong
      · intro hlong entry hentry
        rcases List.mem_cons.1 hentry with rfl | hentry
        · exact ⟨_, List.getElem?_concat_length, rfl, hlong⟩
        · obtain ⟨e, he, htidy⟩ := h entry hentry
          obtain ⟨hlt, -⟩ := List.getElem?_eq_some_iff.1 he
          exact ⟨e, (List.getElem?_append_left hlt).trans he, htidy⟩

/-- **The map keeps open sessions only exactly as long as no session in it closes and none is turned away, and none begins
with less than a header.** -/
theorem tidy_step_iff (h : s.Tidy) (e : KcpServerEvent ε) : (s.step e).Tidy ↔ s.Keeping e := by
  cases e with
  | receive d            => exact tidy_onReceive_iff h d
  | accept session setup =>
    dsimp only [KcpServer.step, Keeping]
    cases he : s.sessions[session]? with
    | none   => exact iff_of_true h fun _ _ he => nomatch he
    | some e =>
      refine (tidy_set_iff h he (acceptStep_first e s.server session setup) _).trans (forall_congr' fun hregistered => ?_)
      obtain ⟨entry, hentry, rfl⟩ := hregistered
      obtain ⟨e₀, he₀, hopen, -⟩ := h entry hentry
      obtain rfl := Option.some.inj (he.symm.trans he₀)
      rw [acceptStep_closed hopen]
      exact ⟨fun hadmitted e' he' => Option.some.inj he' ▸ hadmitted, fun hadmitted => hadmitted e rfl⟩
  | close session        =>
    dsimp only [KcpServer.step, Keeping]
    cases he : s.sessions[session]? with
    | none   => exact iff_of_true h fun _ _ he => nomatch he
    | some e =>
      dsimp only
      split
      · rename_i hclosing
        have hfirst : ({ e with closed := true } : KcpConnection ε).first = e.first := rfl
        refine (tidy_set_iff h he hfirst _).trans (forall_congr' fun _ => ?_)
        exact iff_of_false (fun hclosed => nomatch hclosed) fun hnone => Bool.false_ne_true ((hnone e rfl).symm.trans hclosing.1)
      · rename_i hclosing
        refine iff_of_true h fun hregistered e' he' => ?_
        obtain rfl := Option.some.inj he'
        obtain ⟨entry, hentry, rfl⟩ := hregistered
        obtain ⟨e₀, he₀, hopen, -⟩ := h entry hentry
        obtain rfl := Option.some.inj (he.symm.trans he₀)
        refine Bool.eq_false_of_not_eq_true fun hhanded => hclosing ⟨hhanded, ?_⟩
        rw [hopen]
        exact Bool.false_ne_true
  | closing k            => exact iff_of_true h trivial
  | stop                 => exact iff_of_true h trivial
  | closeListener        => exact iff_of_true nofun trivial
  | reStartListen        =>
    refine iff_of_true ?_ trivial
    dsimp only [KcpServer.step]
    split
    · exact nofun
    · exact h
  | clearSession         =>
    refine iff_of_true ?_ trivial
    dsimp only [KcpServer.step]
    split <;> exact h

/-! ## The limit -/

/-- Before `OnAccepted` has inserted the session. -/
def early : KcpAccept → Bool
  | .setup                          => true
  | .accepting (.acceptedRunning _) => true
  | .accepting (.acceptedCount _)   => true
  | .accepting (.acceptedInsert _)  => true
  | _                               => false

/-- The calls of an accept task are about its own session, which is closed where it has been turned away. -/
def Own (session : Nat) (closed : Bool) : KcpAccept → Prop
  | .accepting (.acceptedRunning n) => n = session
  | .accepting (.acceptedCount n)   => n = session
  | .accepting (.acceptedInsert n)  => n = session
  | .accepting (.closedRunning n)   => n = session ∧ closed = true
  | .accepting (.closedErase n)     => n = session ∧ closed = true
  | _                               => True

/-- The other calls are those of `OnClosed`, for closed sessions. -/
def Closing (s : KcpServer ε) : ServerCall Nat → Prop
  | .closedRunning n => s.isClosed n = true
  | .closedErase n   => s.isClosed n = true
  | .returned        => True
  | _                => False

/-- What holds as long as the condition does: what is in the map is about to be inserted into the set of the server, or is
there. -/
structure Limited (s : KcpServer ε) : Prop where
  tidy           : s.Tidy
  nodup          : (s.kcpMap.map Prod.snd).Nodup
  own            : ∀ session e, s.sessions[session]? = some e → Own session e.closed e.accept
  closing        : ∀ c ∈ s.server.calls, s.Closing c
  inserted       : ∀ entry ∈ s.kcpMap, ∀ e, s.sessions[entry.2]? = some e → early e.accept = false →
    entry.2 ∈ s.server.sessionSet
  listenerClosed : s.listenerClosed = true → s.kcpMap = []
  within         : s.view.Within

theorem Own.closed {session : Nat} {closed : Bool} {accept : KcpAccept} (h : Own session closed accept) :
    Own session true accept := by
  cases accept with
  | accepting call => cases call <;> first | exact h | exact ⟨h.1, rfl⟩
  | _              => exact h

theorem Own.acceptStep {session : Nat} {e : KcpConnection ε} (h : Own session e.closed e.accept) (server : SessionSet Nat)
    (setup : KcpSetup) :
    Own session (e.acceptStep server session setup).2.closed (e.acceptStep server session setup).2.accept := by
  obtain ⟨first, accept, closed⟩ := e
  cases accept with
  | setup          => cases setup <;> first | exact trivial | exact rfl
  | input          => exact trivial
  | done           => exact trivial
  | accepting call =>
    cases call with
    | acceptedRunning n =>
      cases hrunning : server.isRunning <;>
        simp_all [KcpConnection.acceptStep, SessionSet.callStep, Own, ServerCall.turnedAway]
    | acceptedCount n   =>
      simp only [KcpConnection.acceptStep, SessionSet.callStep]
      split
      · exact ⟨h, Bool.or_true closed⟩
      · exact h
    | acceptedInsert n  => exact trivial
    | closedRunning n   =>
      cases hrunning : server.isRunning <;>
        simp_all [KcpConnection.acceptStep, SessionSet.callStep, Own, ServerCall.turnedAway]
    | closedErase n     => exact trivial
    | returned          => exact trivial

/-- A step of an accept task erases its own session only, once it is closed. -/
theorem mem_acceptStep {session : Nat} {e : KcpConnection ε} (h : Own session e.closed e.accept) {server : SessionSet Nat}
    {n : Nat} (hmem : n ∈ server.sessionSet) (hopen : n = session → e.closed = false) (setup : KcpSetup) :
    n ∈ (e.acceptStep server session setup).1.sessionSet := by
  obtain ⟨first, accept, closed⟩ := e
  cases accept with
  | setup          => cases setup <;> exact hmem
  | input          => exact hmem
  | done           => exact hmem
  | accepting call =>
    cases call with
    | acceptedInsert n' => exact Finset.mem_insert_of_mem hmem
    | closedErase n'    =>
      refine Finset.mem_erase.2 ⟨?_, hmem⟩
      rintro rfl
      exact Bool.false_ne_true ((hopen h.1).symm.trans h.2)
    | _                 => exact hmem

/-- An open session is inserted when its accept task is past `OnAccepted`. -/
theorem inserted_acceptStep {session : Nat} {e : KcpConnection ε} (h : Own session e.closed e.accept)
    (hearly : early e.accept = true) {server : SessionSet Nat} {setup : KcpSetup}
    (hlate : early (e.acceptStep server session setup).2.accept = false)
    (hopen : (e.acceptStep server session setup).2.closed = false) :
    session ∈ (e.acceptStep server session setup).1.sessionSet := by
  obtain ⟨first, accept, closed⟩ := e
  cases accept with
  | setup          =>
    cases setup with
    | failed      => cases hopen
    | outOfMemory => cases hlate
    | connected   => cases hlate
  | input          => cases hearly
  | done           => cases hearly
  | accepting call =>
    cases call with
    | acceptedRunning n =>
      cases hrunning : server.isRunning <;>
        simp_all [KcpConnection.acceptStep, SessionSet.callStep, ServerCall.turnedAway, early]
    | acceptedCount n   =>
      simp only [KcpConnection.acceptStep, SessionSet.callStep] at hlate hopen
      split at hlate
      · rename_i hfull
        rw [if_pos hfull, ServerCall.turnedAway, Bool.or_true] at hopen
        cases hopen
      · cases hlate
    | acceptedInsert n  =>
      obtain rfl : n = session := h
      exact Finset.mem_insert_self n server.sessionSet
    | closedRunning n   => cases hearly
    | closedErase n     => cases hearly
    | returned          => cases hearly

theorem acceptStep_calls (e : KcpConnection ε) (server : SessionSet Nat) (session : Nat) (setup : KcpSetup) :
    (e.acceptStep server session setup).1.calls = server.calls := by
  unfold KcpConnection.acceptStep
  split
  · cases setup <;> rfl
  · rfl
  · rename_i call _ _
    cases call <;> rfl
  · rfl
  · rfl

theorem view_taken : s.view.taken = s.server.sessionSet.card + tally (fun e => e.call.inserting) s.sessions +
    tally ServerCall.inserting s.server.calls := by
  unfold SessionSet.taken view
  rw [tally_append, tally, List.map_map, Nat.add_assoc]
  rfl

/-- The calls of others do not come between those of the accept tasks. -/
theorem callStep_with_calls (server : SessionSet Nat) (calls : List (ServerCall Nat)) (c : ServerCall Nat) :
    SessionSet.callStep { server with calls } c = ({ (server.callStep c).1 with calls }, (server.callStep c).2) := by
  cases c <;> rfl

/-- What an accept task does is a step of its call, or leaves the server as it is. -/
theorem acceptStep_cases (e : KcpConnection ε) (server : SessionSet Nat) (session : Nat) (setup : KcpSetup) :
    (e.acceptStep server session setup).1 = (server.callStep e.call).1 ∧
        (e.acceptStep server session setup).2.call = (server.callStep e.call).2 ∨
      (e.acceptStep server session setup).1 = server ∧ e.call = .returned ∧
        (e.acceptStep server session setup).2.call.inserting = 0 := by
  obtain ⟨first, accept, closed⟩ := e
  cases accept with
  | setup          => cases setup <;> exact .inr ⟨rfl, rfl, rfl⟩
  | input          => exact .inl ⟨rfl, rfl⟩
  | done           => exact .inl ⟨rfl, rfl⟩
  | accepting call => cases call <;> exact .inl ⟨rfl, rfl⟩

theorem within_accept (h : s.view.Within) {session : Nat} {e : KcpConnection ε} (he : s.sessions[session]? = some e)
    (setup : KcpSetup) (hroom : s.RoomLeft (.accept session setup)) : (s.step (.accept session setup)).view.Within := by
  obtain ⟨hlt, -⟩ := List.getElem?_eq_some_iff.1 he
  have hcall : s.view.calls[session]? = some e.call := by
    change (s.sessions.map KcpConnection.call ++ s.server.calls)[session]? = _
    rw [List.getElem?_append_left (by rwa [List.length_map]), List.getElem?_map, he, Option.map_some]
  dsimp only [step]
  rw [he]
  dsimp only
  rcases acceptStep_cases e s.server session setup with ⟨hserver, hnext⟩ | ⟨hserver, hidle, hnext⟩
  · have hview : view { s with
        server   := (e.acceptStep s.server session setup).1
        sessions := s.sessions.set session (e.acceptStep s.server session setup).2 } =
        { (s.view.callStep e.call).1 with calls := s.view.calls.set session (s.view.callStep e.call).2 } := by
      have hlength : session < (s.sessions.map KcpConnection.call).length := by rwa [List.length_map]
      unfold view
      dsimp only
      rw [callStep_with_calls, acceptStep_calls, List.map_set, hserver, hnext, List.set_append_left _ _ hlength]
    rw [hview]
    exact h.callStep hcall hroom
  · have htally := tally_set (fun e => e.call.inserting) (e.acceptStep s.server session setup).2 he
    have hzero : e.call.inserting = 0 := by
      rw [hidle]
      rfl
    refine h.of_le ?_ ?_
    · change (e.acceptStep s.server session setup).1.maxConnectionCount = _
      rw [hserver]
      rfl
    · rw [view_taken, view_taken]
      dsimp only
      rw [hserver]
      omega

theorem isClosed_set {session : Nat} {e e' : KcpConnection ε} (he : s.sessions[session]? = some e)
    (hclosed : e.closed = true → e'.closed = true) {n : Nat} (h : s.isClosed n = true) (server : SessionSet Nat) :
    isClosed { s with server, sessions := s.sessions.set session e' } n = true := by
  obtain ⟨e₀, he₀, hclosed₀⟩ := (Option.any_eq_true _ _).1 h
  obtain ⟨hlt, -⟩ := List.getElem?_eq_some_iff.1 he
  refine (Option.any_eq_true _ _).2 ?_
  change ∃ e'', (s.sessions.set session e')[n]? = some e'' ∧ _
  by_cases hn : session = n
  · subst hn
    obtain rfl := Option.some.inj (he.symm.trans he₀)
    exact ⟨e', List.getElem?_set_self hlt, hclosed hclosed₀⟩
  · exact ⟨e₀, (List.getElem?_set_ne hn).trans he₀, hclosed₀⟩

theorem Closing.mono {t : KcpServer ε} (h : ∀ n, s.isClosed n = true → t.isClosed n = true) {c : ServerCall Nat}
    (hc : s.Closing c) : t.Closing c := by
  cases c with
  | closedRunning n => exact h n hc
  | closedErase n   => exact h n hc
  | returned        => exact trivial
  | _               => exact hc

theorem Closing.inserting {c : ServerCall Nat} (hc : s.Closing c) : c.inserting = 0 := by
  cases c with
  | acceptedInsert n => exact hc.elim
  | _                => rfl

theorem acceptStep_closed_of_closed {e : KcpConnection ε} (h : e.closed = true) (server : SessionSet Nat) (session : Nat)
    (setup : KcpSetup) : (e.acceptStep server session setup).2.closed = true := by
  unfold KcpConnection.acceptStep
  split
  · cases setup <;> first | rfl | exact h
  · exact h
  · change (e.closed || _) = true
    rw [h, Bool.true_or]
  · exact h
  · exact h

theorem Tidy.isClosed (h : s.Tidy) {entry : UInt32 × Nat} (hentry : entry ∈ s.kcpMap) : s.isClosed entry.2 = false := by
  obtain ⟨e, he, hopen, -⟩ := h entry hentry
  unfold KcpServer.isClosed
  rw [he]
  exact hopen

theorem Tidy.lt (h : s.Tidy) {entry : UInt32 × Nat} (hentry : entry ∈ s.kcpMap) : entry.2 < s.sessions.length := by
  obtain ⟨e, he, -⟩ := h entry hentry
  exact (List.getElem?_eq_some_iff.1 he).1

/-- What the sessions are about, after a change of one. -/
theorem own_set (h : ∀ session e, s.sessions[session]? = some e → Own session e.closed e.accept) {session : Nat}
    {e' : KcpConnection ε} (hown : Own session e'.closed e'.accept) {n : Nat} {e : KcpConnection ε}
    (he : (s.sessions.set session e')[n]? = some e) : Own n e.closed e.accept := by
  by_cases hn : session = n
  · subst hn
    obtain ⟨hlt, -⟩ := List.getElem?_eq_some_iff.1 he
    rw [List.getElem?_set_self (by rwa [List.length_set] at hlt)] at he
    obtain rfl := Option.some.inj he
    exact hown
  · rw [List.getElem?_set_ne hn] at he
    exact h n e he

theorem Limited.accept (h : s.Limited) {session : Nat} {setup : KcpSetup} (hkeeping : s.Keeping (.accept session setup))
    (hroom : s.RoomLeft (.accept session setup)) : (s.step (.accept session setup)).Limited := by
  have htidy := (tidy_step_iff h.tidy (.accept session setup)).2 hkeeping
  cases he : s.sessions[session]? with
  | none   =>
    have hstep : s.step (.accept session setup) = s := by
      dsimp only [step]
      rw [he]
    rwa [hstep]
  | some e =>
    have hwithin := within_accept h.within he setup hroom
    obtain ⟨hlt, -⟩ := List.getElem?_eq_some_iff.1 he
    have hown := h.own session e he
    have hstep : s.step (.accept session setup) = { s with
        server   := (e.acceptStep s.server session setup).1
        sessions := s.sessions.set session (e.acceptStep s.server session setup).2 } := by
      dsimp only [step]
      rw [he]
    rw [hstep] at htidy hwithin ⊢
    refine ⟨htidy, h.nodup, fun n e₀ he₀ => own_set h.own (hown.acceptStep s.server setup) he₀, fun c hc => ?_, ?_,
      h.listenerClosed, hwithin⟩
    · dsimp only at hc
      rw [acceptStep_calls] at hc
      exact (h.closing c hc).mono fun n hn =>
        isClosed_set he (fun hclosed => acceptStep_closed_of_closed hclosed s.server session setup) hn _
    · intro entry hentry e₀ he₀ hlate
      dsimp only at he₀ ⊢
      by_cases hn : session = entry.2
      · obtain ⟨e', he', hopen, -⟩ := htidy entry hentry
        dsimp only at he'
        obtain rfl := Option.some.inj (he₀.symm.trans he')
        rw [← hn, List.getElem?_set_self hlt] at he₀
        obtain rfl := Option.some.inj he₀
        rw [← hn]
        cases hearly : early e.accept with
        | true  => exact inserted_acceptStep hown hearly hlate hopen
        | false =>
          refine mem_acceptStep hown (hn ▸ h.inserted entry hentry e (hn ▸ he) hearly) (fun _ => ?_) setup
          have hregistered := h.tidy.isClosed hentry
          rw [← hn, isClosed, he] at hregistered
          exact hregistered
      · rw [List.getElem?_set_ne hn] at he₀
        exact mem_acceptStep hown (h.inserted entry hentry e₀ he₀ hlate) (fun heq => absurd heq.symm hn) setup

theorem Limited.receive (h : s.Limited) {d : KcpDatagram ε} (hkeeping : s.Keeping (.receive d)) :
    (s.onReceive d).Limited := by
  have htidy := (tidy_onReceive_iff h.tidy d).2 hkeeping
  unfold onReceive at htidy ⊢
  split
  · exact h
  · rename_i hopen
    rw [if_neg hopen] at htidy
    split
    · split
      · exact ⟨fun entry hentry => h.tidy entry (List.mem_of_mem_filter hentry),
          h.nodup.sublist (List.filter_sublist.map Prod.snd), h.own, h.closing,
          fun entry hentry => h.inserted entry (List.mem_of_mem_filter hentry),
          fun hclosed => absurd (.inl hclosed) hopen, h.within⟩
      · exact h
    · rename_i hnone
      rw [hnone] at htidy
      have hnew {n : Nat} {e : KcpConnection ε} (he : (s.sessions ++ [{ first := d }])[n]? = some e) :
          s.sessions[n]? = some e ∨ e = { first := d } := by
        by_cases hn : n < s.sessions.length
        · exact .inl ((List.getElem?_append_left hn).symm.trans he)
        · exact .inr (List.mem_singleton.1 (List.mem_of_getElem? ((List.getElem?_append_right (not_lt.1 hn)).symm.trans he)))
      refine ⟨htidy, List.nodup_cons.2 ⟨?_, h.nodup⟩, fun n e he => ?_, fun c hc => ?_, fun entry hentry e he hlate => ?_,
        fun hclosed => absurd (.inl hclosed) hopen, h.within.of_le rfl ?_⟩
      · rintro hmem
        obtain ⟨entry, hentry, hlength⟩ := List.mem_map.1 hmem
        exact absurd hlength (Nat.ne_of_lt (h.tidy.lt hentry))
      · rcases hnew he with he | rfl
        · exact h.own n e he
        · exact trivial
      · refine (h.closing c hc).mono fun n hn => ?_
        obtain ⟨e, he, hclosed⟩ := (Option.any_eq_true _ _).1 hn
        obtain ⟨hlt, -⟩ := List.getElem?_eq_some_iff.1 he
        exact (Option.any_eq_true _ _).2 ⟨e, (List.getElem?_append_left hlt).trans he, hclosed⟩
      · rcases hnew he with he | rfl
        · rcases List.mem_cons.1 hentry with rfl | hentry
          · exact absurd (List.getElem?_eq_some_iff.1 he).1 (Nat.lt_irrefl _)
          · exact h.inserted entry hentry e he hlate
        · exact nomatch hlate
      · rw [view_taken, view_taken, tally_append]
        exact Nat.le_refl _

theorem Limited.close (h : s.Limited) {session : Nat} (hkeeping : s.Keeping (.close session)) :
    (s.step (.close session)).Limited := by
  have htidy := (tidy_step_iff h.tidy (.close session)).2 hkeeping
  dsimp only [step] at htidy ⊢
  cases he : s.sessions[session]? with
  | none   => exact h
  | some e =>
    rw [he] at htidy
    dsimp only at htidy ⊢
    split
    · rename_i hclosing
      rw [if_pos hclosing] at htidy
      obtain ⟨hlt, -⟩ := List.getElem?_eq_some_iff.1 he
      refine ⟨htidy, h.nodup, fun n e₀ he₀ => own_set h.own (h.own session e he).closed he₀, fun c hc => ?_,
        fun entry hentry e₀ he₀ hlate => ?_, h.listenerClosed, h.within.of_le rfl ?_⟩
      · rcases List.mem_cons.1 hc with rfl | hc
        · refine (Option.any_eq_true _ _).2 ⟨_, List.getElem?_set_self hlt, rfl⟩
        · exact (h.closing c hc).mono fun n hn => isClosed_set he (fun _ => rfl) hn _
      · obtain ⟨e', he', hopen, -⟩ := htidy entry hentry
        dsimp only at he₀ he'
        by_cases hn : session = entry.2
        · rw [← hn, List.getElem?_set_self hlt] at he'
          obtain rfl := Option.some.inj he'
          cases hopen
        · rw [List.getElem?_set_ne hn] at he₀
          exact h.inserted entry hentry e₀ he₀ hlate
      · have htally := tally_set (fun e => e.call.inserting) { e with closed := true } he
        have hsame : ({ e with closed := true } : KcpConnection ε).call = e.call := rfl
        rw [view_taken, view_taken]
        dsimp only [SessionSet.step] at htally ⊢
        rw [tally_cons, ServerCall.inserting]
        · rw [hsame] at htally
          omega
        · exact fun n hn => by cases hn
    · exact h

theorem Limited.closing_ (h : s.Limited) (k : Nat) : (s.step (.closing k)).Limited := by
  dsimp only [step]
  cases hk : s.server.calls[k]? with
  | none   =>
    have hsame : s.server.step (.call k) = s.server := by
      unfold SessionSet.step
      dsimp only
      rw [hk]
    rwa [hsame]
  | some c =>
    have hclosing := h.closing c (List.mem_of_getElem? hk)
    have hnext : s.Closing (s.server.callStep c).2 ∧ (∀ n ∈ s.server.sessionSet, s.isClosed n = false →
        n ∈ (s.server.callStep c).1.sessionSet) ∧ (s.server.callStep c).1.sessionSet.card ≤ s.server.sessionSet.card := by
      cases c with
      | closedRunning n =>
        refine ⟨?_, fun _ hmem _ => hmem, Nat.le_refl _⟩
        unfold SessionSet.callStep
        dsimp only
        split
        · exact hclosing
        · exact trivial
      | closedErase n   =>
        refine ⟨trivial, fun m hmem hopen => Finset.mem_erase.2 ⟨?_, hmem⟩, Finset.card_erase_le⟩
        rintro rfl
        exact Bool.false_ne_true (hopen.symm.trans hclosing)
      | returned        => exact ⟨trivial, fun _ hmem _ => hmem, Nat.le_refl _⟩
      | _               => exact hclosing.elim
    rw [SessionSet.step_call hk]
    refine ⟨h.tidy, h.nodup, h.own, fun c' hc' => ?_, fun entry hentry e he hlate => ?_, h.listenerClosed,
      h.within.of_le ?_ ?_⟩
    · rcases List.mem_or_eq_of_mem_set hc' with hc' | rfl
      · exact h.closing c' hc'
      · exact hnext.1
    · exact hnext.2.1 _ (h.inserted entry hentry e he hlate) (h.tidy.isClosed hentry)
    · exact SessionSet.callStep_maxConnectionCount c
    · have htally := tally_set ServerCall.inserting (s.server.callStep c).2 hk
      have hzero := hclosing.inserting
      have hzero' := hnext.1.inserting
      have hcard := hnext.2.2
      rw [view_taken, view_taken]
      dsimp only
      omega

theorem Limited.step (h : s.Limited) (e : KcpServerEvent ε) (hkeeping : s.Keeping e) (hroom : s.RoomLeft e) :
    (s.step e).Limited := by
  cases e with
  | receive d            => exact h.receive hkeeping
  | accept session setup => exact h.accept hkeeping hroom
  | close session        => exact h.close hkeeping
  | closing k            => exact h.closing_ k
  | stop                 => exact ⟨h.tidy, h.nodup, h.own, h.closing, h.inserted, h.listenerClosed, h.within.of_le rfl (Nat.le_refl _)⟩
  | closeListener        =>
    exact ⟨nofun, List.nodup_nil, h.own, h.closing, nofun, fun _ => rfl, h.within⟩
  | reStartListen        =>
    dsimp only [KcpServer.step]
    split
    · exact ⟨nofun, List.nodup_nil, h.own, h.closing, nofun, fun _ => rfl, h.within⟩
    · exact h
  | clearSession         =>
    dsimp only [KcpServer.step]
    split
    · rename_i hclosed
      have hempty := h.listenerClosed hclosed.1
      refine ⟨h.tidy, h.nodup, h.own, h.closing, fun entry hentry => ?_, h.listenerClosed, h.within.of_le rfl ?_⟩
      · change entry ∈ s.kcpMap at hentry
        rw [hempty] at hentry
        cases hentry
      · rw [view_taken, view_taken]
        exact Nat.add_le_add_right (Nat.add_le_add_right (Nat.zero_le _) _) _
    · exact h

theorem Limited.bounded (h : s.Limited) : s.Bounded := by
  have hsplit : (s.kcpMap.map Prod.snd).toFinset ⊆ s.server.sessionSet ∪
      (Finset.range s.sessions.length).filter fun n => (s.sessions[n]?.any fun e => e.accept ≠ .done) = true := by
    intro n hn
    obtain ⟨entry, hentry, rfl⟩ := List.mem_map.1 (List.mem_toFinset.1 hn)
    obtain ⟨e, he, -⟩ := h.tidy entry hentry
    by_cases hdone : e.accept = .done
    · refine Finset.mem_union_left _ (h.inserted entry hentry e he ?_)
      rw [hdone]
      rfl
    · refine Finset.mem_union_right _ (Finset.mem_filter.2 ⟨Finset.mem_range.2 (h.tidy.lt hentry), ?_⟩)
      rw [he]
      exact decide_eq_true hdone
  have hcard := (Finset.card_le_card hsplit).trans (Finset.card_union_le _ _)
  rw [List.toFinset_card_of_nodup h.nodup, List.length_map, card_filter_getElem?] at hcard
  obtain ⟨-, htaken⟩ := h.within
  change s.view.taken ≤ max s.server.maxConnectionCount 0 at htaken
  rw [view_taken] at htaken
  unfold Bounded KcpServer.accepting
  omega

/-- A server with a limit. -/
def start (c : Int) : KcpServer ε := { server := { maxConnectionCount := c } }

theorem Limited.start {c : Int} (hc : c ≠ -1) : (start c : KcpServer ε).Limited where
  tidy           := nofun
  nodup          := List.nodup_nil
  own            := nofun
  closing        := nofun
  inserted       := nofun
  listenerClosed := fun _ => rfl
  within         := ⟨hc, Int.le_max_right c 0⟩

/-- **Exactly as long as no session in the map closes or is turned away and none begins with less than a header, the map
has open sessions only, each begun with a header; and where `OnAccepted` has room for all that it lets in, they are no more
than the limit and the accept tasks in progress.** -/
theorem run_bounded {c : Int} (hc : c ≠ -1) (es : List (KcpServerEvent ε)) :
    (Always step Tidy (start c) es ↔ Along step Keeping (start c) es) ∧
      (Along step (fun s e => s.Keeping e ∧ s.RoomLeft e) (start c) es →
        Always step (fun s => s.Bounded ∧ s.Tidy) (start c) es) := by
  have htidy (s : KcpServer ε) (e : KcpServerEvent ε) (_ : True) (htidy : s.Tidy) : (s.step e).Tidy ↔ s.Keeping e :=
    tidy_step_iff htidy e
  refine ⟨Run.always_iff_along (fun _ _ _ _ => trivial) htidy es trivial nofun, fun hcond => ?_⟩
  refine (Run.always_inv (fun s e h hP => h.step e hP.1 hP.2) es (Limited.start hc) hcond).mono fun s h => ?_
  exact ⟨h.bounded, h.tidy⟩

/-- A header of KCP. -/
def pushOf (conv : UInt8) : KcpDatagram Nat := ⟨0, conv :: List.replicate 23 0⟩

/-- A datagram of a conversation, and the steps of the accept task of the session that it creates. -/
def admission (conv : UInt8) (session : Nat) : List (KcpServerEvent Nat) :=
  .receive (pushOf conv) :: List.replicate 7 (.accept session .connected)

/-- Two conversations with room for both, and one more datagram of the first. -/
theorem run_bounded_conversations : Always step (fun s => s.Bounded ∧ s.Tidy) (start 2)
    (admission 1 0 ++ admission 2 1 ++ [.receive (pushOf 1)]) := by
  have hfirst : (pushOf 1).conv = 1 := by decide
  have hsecond : (pushOf 2).conv = 2 := by decide
  have hbytes : ∀ conv, (pushOf conv).bytes ≠ [] := fun conv => List.cons_ne_nil _ _
  have hlength : ∀ conv, (pushOf conv).bytes.length = 24 := fun conv => rfl
  refine (run_bounded (by decide) _).2 ?_
  simp [admission, Along, Keeping, RoomLeft, KcpServer.step, onReceive, start, view, hfirst, hsecond, hbytes, hlength, Registered,
    List.lookup_cons, List.lookup_nil, KcpConnection.acceptStep, KcpConnection.call, Admitted, SessionSet.RoomLeft, SessionSet.callStep,
    SessionSet.connectionCount, SessionSet.taken, ServerCall.inserting, ServerCall.turnedAway, ikcpOverhead]

/-- Two sessions with room for one: the second is turned away, and stays in the map. -/
theorem not_run_bounded : ¬∀ c : Int, c ≠ -1 → ∀ es : List (KcpServerEvent Nat),
    Always step (fun s => s.Bounded ∧ s.Tidy) (start c) es := by
  intro h
  have hbounded := (Run.always_iff_take.1 (h 1 (by decide) (admission 1 0 ++ admission 2 1)) 16).1
  exact absurd hbounded (by decide)

end KcpServer

end Gb
