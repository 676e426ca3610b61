import GbServer.Lib.Run
import Mathlib.Algebra.Group.Nat.Defs
import Mathlib.Data.List.Basic
import Mathlib.Logic.Function.Iterate
/-!
# DbPool — a pool of database connections

`DbConnectionPool` (`db_pool.cpp`).  The pool has a thread of its own, which runs its `io_context`: an event is a task of
that thread (`Start`, `DoAcquire`, `DoRelease`, a tick of the heartbeat, `Stop`), or a connection that breaks.  Ticks come
at any time.  A task brings along which of its attempts to connect succeed, in order; the others fail.

Connections are numbered as they are made.  `handedOut` are those that a promise was set to and that have not been
released, `stopped` is whether `Stop` came after the last `Start`, and `attempts` and `lastFailed` tell of
`CreateConnectionSync`.
-/
namespace Gb

open Run (Along Always)

/-- A `std::atomic<size_t>`.  `underflown` is whether it was ever counted down from zero. -/
structure AtomicSize where
  value      : Nat := 0
  underflown : Bool := false
  deriving DecidableEq

namespace AtomicSize

def fetchAdd (c : AtomicSize) : AtomicSize := { c with value := (c.value + 1) % 2 ^ 64 }

def fetchSub (c : AtomicSize) : AtomicSize := ⟨(c.value + (2 ^ 64 - 1)) % 2 ^ 64, c.underflown || c.value == 0⟩

def ofNat (n : Nat) : AtomicSize := { value := n }

@[simp] theorem value_ofNat (n : Nat) : (ofNat n).value = n := rfl

theorem fetchAdd_ofNat {n : Nat} (h : n + 1 < 2 ^ 64) : (ofNat n).fetchAdd = ofNat (n + 1) := by
  simp only [ofNat, fetchAdd, Nat.mod_eq_of_lt h]

theorem fetchSub_ofNat {n : Nat} (h : n < 2 ^ 64) : (ofNat (n + 1)).fetchSub = ofNat n := by
  have hvalue : (n + 1 + (2 ^ 64 - 1)) % 2 ^ 64 = n := by omega
  rw [fetchSub, value_ofNat, hvalue]
  rfl

end AtomicSize

structure DbConfig where
  minPoolSize    : Nat := 4
  maxPoolSize    : Nat := 32
  minPoolSize_lt : minPoolSize < 2 ^ 64 := by decide
  maxPoolSize_lt : maxPoolSize < 2 ^ 64 := by decide

/-- The number of attempts to connect before the waiter came. -/
structure PoolWaiter where
  arrival : Nat
  deriving DecidableEq

structure DbConnectionPool where
  config           : DbConfig
  idle             : List Nat := []
  totalConnections : AtomicSize := {}
  idleCount        : AtomicSize := {}
  activeCount      : AtomicSize := {}
  running          : Bool := false
  waiters          : List PoolWaiter := []
  connected        : Nat → Bool := fun _ => false
  made             : Nat := 0
  handedOut        : List Nat := []
  attempts         : Nat := 0
  lastFailed       : Bool := false
  stopped          : Bool := false

inductive PoolEvent
  | start (attempts : List Bool)
  | acquire (connects : Bool)
  | release (conn : Option Nat)
  | heartbeat (error : Bool) (attempts : List Bool)
  | stop
  | disconnected (conn : Nat)

namespace DbConnectionPool

/-- The constructor. -/
def create (cfg : DbConfig) : DbConnectionPool where
  config :=
    { minPoolSize    := if cfg.minPoolSize = 0 then 4 else cfg.minPoolSize
      maxPoolSize    := if cfg.maxPoolSize = 0 then 32 else cfg.maxPoolSize
      minPoolSize_lt := by
        split
        · decide
        · exact cfg.minPoolSize_lt
      maxPoolSize_lt := by
        split
        · decide
        · exact cfg.maxPoolSize_lt }

variable (p : DbConnectionPool)

/-- After an attempt that succeeds. -/
def opened : DbConnectionPool :=
  { p with
    made       := p.made + 1
    connected  := Function.update p.connected p.made true
    attempts   := p.attempts + 1
    lastFailed := false }

/-- After an attempt that fails. -/
def refused : DbConnectionPool := { p with attempts := p.attempts + 1, lastFailed := true }

def createConnectionSync (connects : Bool) : Option Nat × DbConnectionPool :=
  if connects then (some p.made, p.opened) else (none, p.refused)

/-- A new connection goes to the idle queue. -/
def addIdle (conn : Nat) : DbConnectionPool :=
  { p with
    idle             := p.idle ++ [conn]
    idleCount        := p.idleCount.fetchAdd
    totalConnections := p.totalConnections.fetchAdd }

/-- The loop of `Start`, with the number of connections created so far. -/
def createInitial : Nat → List Bool → Nat → DbConnectionPool → Nat × DbConnectionPool
  | 0,     _,        created, p => (created, p)
  | n + 1, attempts, created, p =>
    match p.createConnectionSync (attempts.headD false) with
    | (some conn, p) => createInitial n attempts.tail (created + 1) (p.addIdle conn)
    | (none, p)      => createInitial n attempts.tail created p

def toCreate : Nat := min p.config.minPoolSize p.config.maxPoolSize

/-- `Start`, with what its promise is set to. -/
def start (attempts : List Bool) : Bool × DbConnectionPool :=
  let (created, p') := createInitial p.toCreate attempts 0 { p with running := true, stopped := false }
  (decide (0 < created ∨ p.toCreate = 0), p')

/-- The loop of `Stop` over the idle queue. -/
def closeIdle : List Nat → DbConnectionPool → DbConnectionPool
  | [],           p => p
  | conn :: idle, p =>
    closeIdle idle { p with
      idle             := idle
      idleCount        := p.idleCount.fetchSub
      totalConnections := p.totalConnections.fetchSub
      connected        := Function.update p.connected conn false }

/-- `Stop`; the promises of the waiters are set to null. -/
def stop : DbConnectionPool :=
  { closeIdle p.idle { p with running := false } with waiters := [], stopped := true }

/-- The second and third step of `DoAcquire`. -/
def createOrWait (connects : Bool) : DbConnectionPool :=
  let waiter : PoolWaiter := ⟨p.attempts⟩
  if p.totalConnections.value < p.config.maxPoolSize then
    match p.createConnectionSync connects with
    | (some conn, p) =>
      { p with
        totalConnections := p.totalConnections.fetchAdd
        activeCount      := p.activeCount.fetchAdd
        handedOut        := conn :: p.handedOut }
    | (none, p)      => { p with waiters := p.waiters ++ [waiter] }
  else { p with waiters := p.waiters ++ [waiter] }

def doAcquire (connects : Bool) : DbConnectionPool :=
  match p.idle with
  | conn :: idle =>
    let p := { p with idle := idle, idleCount := p.idleCount.fetchSub }
    if p.connected conn then { p with activeCount := p.activeCount.fetchAdd, handedOut := conn :: p.handedOut }
    else createOrWait { p with totalConnections := p.totalConnections.fetchSub } connects
  | []           => p.createOrWait connects

def doRelease : Option Nat → DbConnectionPool
  | none      => p
  | some conn =>
    let p := { p with handedOut := p.handedOut.erase conn }
    if p.connected conn = false then
      { p with totalConnections := p.totalConnections.fetchSub, activeCount := p.activeCount.fetchSub }
    else
      match p.waiters with
      | _ :: waiters =>
        -- the waiter's share of the count is left to `Acquire`, which does not add it
        { p with waiters := waiters, activeCount := p.activeCount.fetchSub, handedOut := conn :: p.handedOut }
      | []           =>
        { p with
          idle        := p.idle ++ [conn]
          idleCount   := p.idleCount.fetchAdd
          activeCount := p.activeCount.fetchSub }

/-- The first loop of `OnHeartbeat`: the healthy connections, and the pool without them. -/
def checkIdle : List Nat → List Nat → DbConnectionPool → List Nat × DbConnectionPool
  | [],           checked, p => (checked, p)
  | conn :: idle, checked, p =>
    let p := { p with idle := idle, idleCount := p.idleCount.fetchSub }
    if p.connected conn then checkIdle idle (checked ++ [conn]) p
    else checkIdle idle checked { p with totalConnections := p.totalConnections.fetchSub }

/-- The second loop of `OnHeartbeat`. -/
def giveBack : List Nat → DbConnectionPool → DbConnectionPool
  | [],           p => p
  | conn :: rest, p => giveBack rest { p with idle := p.idle ++ [conn], idleCount := p.idleCount.fetchAdd }

/-- Both of them: the broken connections are dropped. -/
def dropBroken : DbConnectionPool :=
  let (checked, p) := checkIdle p.idle [] p
  giveBack checked p

/-- The last loop of `OnHeartbeat`. -/
def refill : List Bool → DbConnectionPool → DbConnectionPool
  | [],                   p =>
    if p.totalConnections.value < p.config.minPoolSize then (p.createConnectionSync false).2 else p
  | connects :: attempts, p =>
    if p.totalConnections.value < p.config.minPoolSize then
      match p.createConnectionSync connects with
      | (some conn, p) => refill attempts (p.addIdle conn)
      | (none, p)      => p
    else p

def onHeartbeat (error : Bool) (attempts : List Bool) : DbConnectionPool :=
  if error || !p.running then p else refill attempts p.dropBroken

def step (p : DbConnectionPool) : PoolEvent → DbConnectionPool
  | .start attempts           => (p.start attempts).2
  | .acquire connects         => p.doAcquire connects
  | .release conn             => p.doRelease conn
  | .heartbeat error attempts => p.onHeartbeat error attempts
  | .stop                     => p.stop
  | .disconnected conn        => { p with connected := Function.update p.connected conn false }

/-! ## The counters -/

/-- The counters count what they are named for. -/
structure Accounted : Prop where
  total      : p.totalConnections.value = p.idleCount.value + p.activeCount.value
  idle       : p.idleCount.value = p.idle.length
  active     : p.activeCount.value = p.handedOut.length
  limit      : p.totalConnections.value ≤ p.config.maxPoolSize
  underflown : p.totalConnections.underflown = false ∧ p.idleCount.underflown = false ∧ p.activeCount.underflown = false

/-- The idle connections that are broken. -/
def brokenIdle : Nat := (p.idle.filter fun conn => !p.connected conn).length

/-- What a tick fills `totalConnections` up to. -/
def refilled (attempts : List Bool) : Nat :=
  let kept := p.totalConnections.value - p.brokenIdle
  kept + min (p.config.minPoolSize - kept) (attempts.takeWhile fun connects => connects).length

/-- The condition on a step: `Start` and a tick stay within the limit, and who releases a connection has it, and gives it to
no waiter. -/
def Keeps (p : DbConnectionPool) : PoolEvent → Prop
  | .start attempts           => p.totalConnections.value + (attempts.take p.toCreate).count true ≤ p.config.maxPoolSize
  | .release (some conn)      => conn ∈ p.handedOut ∧ (p.connected conn = true → p.waiters = [])
  | .heartbeat error attempts => error = true ∨ p.running = false ∨ p.refilled attempts ≤ p.config.maxPoolSize
  | _                         => True

/-- What the counters are when `aside` connections are in no queue. -/
structure Counted (aside : Nat) : Prop where
  total  : p.totalConnections = .ofNat (p.idle.length + p.handedOut.length + aside)
  idle   : p.idleCount = .ofNat p.idle.length
  active : p.activeCount = .ofNat p.handedOut.length
  lt     : p.idle.length + p.handedOut.length + aside < 2 ^ 64

variable {p}

theorem accounted_iff : p.Accounted ↔ p.Counted 0 ∧ p.idle.length + p.handedOut.length ≤ p.config.maxPoolSize := by
  constructor
  · rintro ⟨htotal, hidle, hactive, hlimit, hflown, hidleFlown, hactiveFlown⟩
    have hlt := p.config.maxPoolSize_lt
    have hsum : p.totalConnections.value = p.idle.length + p.handedOut.length := by rw [htotal, hidle, hactive]
    refine ⟨⟨?_, ?_, ?_, by omega⟩, by omega⟩
    · rw [Nat.add_zero, ← hsum, AtomicSize.ofNat, ← hflown]
    · rw [← hidle, AtomicSize.ofNat, ← hidleFlown]
    · rw [← hactive, AtomicSize.ofNat, ← hactiveFlown]
  · rintro ⟨⟨htotal, hidle, hactive, _⟩, hlimit⟩
    refine ⟨?_, ?_, ?_, ?_, ?_⟩
    · rw [htotal, hidle, hactive]
      rfl
    · rw [hidle]
      rfl
    · rw [hactive]
      rfl
    · rw [htotal]
      exact hlimit
    · rw [htotal, hidle, hactive]
      exact ⟨rfl, rfl, rfl⟩

theorem Counted.value (h : p.Counted 0) : p.totalConnections.value = p.idle.length + p.handedOut.length := by
  rw [h.total]
  rfl

/-- What leaves the queue, the connections handed out and the counters alone. -/
theorem Counted.congr {aside : Nat} (h : p.Counted aside) {p' : DbConnectionPool} (hidle : p'.idle = p.idle)
    (hhanded : p'.handedOut = p.handedOut) (htotal : p'.totalConnections = p.totalConnections)
    (hidleCount : p'.idleCount = p.idleCount) (hactive : p'.activeCount = p.activeCount) : p'.Counted aside := by
  refine ⟨?_, ?_, ?_, ?_⟩
  · rw [htotal, hidle, hhanded]
    exact h.total
  · rw [hidleCount, hidle]
    exact h.idle
  · rw [hactive, hhanded]
    exact h.active
  · rw [hidle, hhanded]
    exact h.lt

/-- A new connection, where there is room for one more. -/
theorem Counted.addIdle (h : p.Counted 0) {n : Nat} (hroom : p.totalConnections.value < n) (hn : n < 2 ^ 64) (conn : Nat) :
    (p.addIdle conn).Counted 0 := by
  have hvalue := h.value
  refine ⟨?_, ?_, h.active, ?_⟩
  · simp only [DbConnectionPool.addIdle, List.length_append, List.length_singleton]
    rw [h.total, AtomicSize.fetchAdd_ofNat (by omega)]
    congr 1
    omega
  · simp only [DbConnectionPool.addIdle, List.length_append, List.length_singleton]
    rw [h.idle, AtomicSize.fetchAdd_ofNat (by omega)]
  · simp only [DbConnectionPool.addIdle, List.length_append, List.length_singleton]
    omega

/-- The first of the queue is taken out. -/
theorem Counted.dequeue {aside conn : Nat} {idle : List Nat} (h : p.Counted aside) (hidle : p.idle = conn :: idle) :
    Counted { p with idle := idle, idleCount := p.idleCount.fetchSub } (aside + 1) := by
  have hlt := h.lt
  simp only [hidle, List.length_cons] at hlt
  refine ⟨?_, ?_, h.active, ?_⟩
  · simp only [h.total, hidle, List.length_cons]
    congr 1
    omega
  · simp only [h.idle, hidle, List.length_cons]
    exact AtomicSize.fetchSub_ofNat (by omega)
  · simp only
    omega

/-- A connection that is in no queue is given up. -/
theorem Counted.discard {aside : Nat} (h : p.Counted (aside + 1)) :
    Counted { p with totalConnections := p.totalConnections.fetchSub } aside := by
  have hlt := h.lt
  refine ⟨?_, h.idle, h.active, ?_⟩
  · simp only [h.total, ← Nat.add_assoc]
    exact AtomicSize.fetchSub_ofNat (by omega)
  · simp only
    omega

/-- A connection that is in no queue goes back to it. -/
theorem Counted.enqueue {aside : Nat} (h : p.Counted (aside + 1)) (conn : Nat) :
    Counted { p with idle := p.idle ++ [conn], idleCount := p.idleCount.fetchAdd } aside := by
  have hlt := h.lt
  refine ⟨?_, ?_, h.active, ?_⟩
  · simp only [h.total, List.length_append, List.length_singleton]
    congr 1
    omega
  · simp only [h.idle, List.length_append, List.length_singleton]
    exact AtomicSize.fetchAdd_ofNat (by omega)
  · simp only [List.length_append, List.length_singleton]
    omega

/-- A connection that is in no queue is handed out. -/
theorem Counted.handOut {aside : Nat} (h : p.Counted (aside + 1)) (conn : Nat) :
    Counted { p with activeCount := p.activeCount.fetchAdd, handedOut := conn :: p.handedOut } aside := by
  have hlt := h.lt
  refine ⟨?_, h.idle, ?_, ?_⟩
  · simp only [h.total, List.length_cons]
    congr 1
    omega
  · simp only [h.active, List.length_cons]
    exact AtomicSize.fetchAdd_ofNat (by omega)
  · simp only [List.length_cons]
    omega

/-- A connection that was handed out is in no queue. -/
theorem Counted.takeBack {conn : Nat} (h : p.Counted 0) (hconn : conn ∈ p.handedOut) :
    Counted { p with activeCount := p.activeCount.fetchSub, handedOut := p.handedOut.erase conn } 1 := by
  have hlt := h.lt
  have hpos := List.length_pos_of_mem hconn
  have hlength : (p.handedOut.erase conn).length + 1 = p.handedOut.length := by
    rw [List.length_erase_of_mem hconn]
    omega
  refine ⟨?_, h.idle, ?_, ?_⟩
  · simp only [h.total]
    congr 1
    omega
  · simp only [h.active, ← hlength]
    exact AtomicSize.fetchSub_ofNat (by omega)
  · simp only
    omega

/-! ## The loops -/

@[simp] theorem createConnectionSync_true : p.createConnectionSync true = (some p.made, p.opened) := rfl

@[simp] theorem createConnectionSync_false : p.createConnectionSync false = (none, p.refused) := rfl

/-- `Start` creates what its attempts say. -/
theorem createInitial_length : ∀ (n : Nat) (attempts : List Bool) (created : Nat) (p : DbConnectionPool),
    (createInitial n attempts created p).2.idle.length = p.idle.length + (attempts.take n).count true ∧
    (createInitial n attempts created p).2.handedOut = p.handedOut ∧
    (createInitial n attempts created p).2.config = p.config
  | 0,     _,                 _,       _ => ⟨by simp [createInitial], rfl, rfl⟩
  | n + 1, [],                created, p => by
    obtain ⟨hidle, hhanded, hconfig⟩ := createInitial_length n [] created p.refused
    refine ⟨?_, hhanded, hconfig⟩
    rw [List.take_nil] at hidle ⊢
    exact hidle
  | n + 1, false :: attempts, created, p => by
    obtain ⟨hidle, hhanded, hconfig⟩ := createInitial_length n attempts created p.refused
    refine ⟨?_, hhanded, hconfig⟩
    rw [List.take_succ_cons, List.count_cons_of_ne Bool.false_ne_true]
    exact hidle
  | n + 1, true :: attempts,  created, p => by
    obtain ⟨hidle, hhanded, hconfig⟩ := createInitial_length n attempts (created + 1) (p.opened.addIdle p.made)
    refine ⟨?_, hhanded, hconfig⟩
    rw [List.take_succ_cons, List.count_cons_self]
    simp only [createInitial, List.headD_cons, createConnectionSync_true, List.tail_cons]
    rw [hidle]
    simp only [addIdle, opened, List.length_append, List.length_singleton]
    omega

theorem Counted.createInitial : ∀ (n : Nat) (attempts : List Bool) (created : Nat) {p : DbConnectionPool}, p.Counted 0 →
    p.totalConnections.value + (attempts.take n).count true < 2 ^ 64 →
    (DbConnectionPool.createInitial n attempts created p).2.Counted 0
  | 0,     _,                 _,       _, h, _     => h
  | n + 1, [],                created, p, h, hroom => by
    refine Counted.createInitial n [] created (p := p.refused) (h.congr rfl rfl rfl rfl rfl) ?_
    rw [List.take_nil] at hroom ⊢
    exact hroom
  | n + 1, false :: attempts, created, p, h, hroom => by
    refine Counted.createInitial n attempts created (p := p.refused) (h.congr rfl rfl rfl rfl rfl) ?_
    rw [List.take_succ_cons, List.count_cons_of_ne Bool.false_ne_true] at hroom
    exact hroom
  | n + 1, true :: attempts,  created, p, h, hroom => by
    rw [List.take_succ_cons, List.count_cons_self] at hroom
    have hopened : p.opened.Counted 0 := h.congr rfl rfl rfl rfl rfl
    have hadded := hopened.addIdle (n := p.totalConnections.value + 1) (Nat.lt_succ_self _) (by omega) p.made
    refine Counted.createInitial n attempts (created + 1) hadded ?_
    have hvalue := h.value
    rw [hadded.value]
    simp only [DbConnectionPool.addIdle, opened, List.length_append, List.length_singleton]
    omega

theorem Counted.closeIdle : ∀ {idle : List Nat} {p : DbConnectionPool}, p.idle = idle → p.Counted 0 →
    (DbConnectionPool.closeIdle idle p).Counted 0
  | [],           _, _,     h => h
  | conn :: idle, p, hidle, h => by
    have hnext := (h.dequeue hidle).discard
    rw [DbConnectionPool.closeIdle]
    exact Counted.closeIdle rfl (hnext.congr rfl rfl rfl rfl rfl)

/-- What `Stop` does to the idle connections concerns nothing else. -/
theorem closeIdle_eq : ∀ {idle : List Nat} {p : DbConnectionPool}, p.idle = idle → ∃ idleCount totalConnections connected,
    closeIdle idle p =
      { p with idle := [], idleCount := idleCount, totalConnections := totalConnections, connected := connected }
  | [],           p, hidle => by
    refine ⟨p.idleCount, p.totalConnections, p.connected, ?_⟩
    rw [closeIdle, ← hidle]
  | conn :: idle, p, _     => by
    obtain ⟨idleCount, totalConnections, connected, heq⟩ := closeIdle_eq (p := { p with
      idle             := idle
      idleCount        := p.idleCount.fetchSub
      totalConnections := p.totalConnections.fetchSub
      connected        := Function.update p.connected conn false }) rfl
    exact ⟨idleCount, totalConnections, connected, heq⟩

/-- The first loop of a tick takes the connections out of the queue, keeps those that are healthy, and counts the others
down. -/
theorem checkIdle_eq : ∀ {idle : List Nat} (checked : List Nat) {p : DbConnectionPool}, p.idle = idle → ∃ idleCount,
    checkIdle idle checked p = (checked ++ idle.filter p.connected,
      { p with
        idle             := []
        idleCount        := idleCount
        totalConnections := AtomicSize.fetchSub^[(idle.filter fun conn => !p.connected conn).length] p.totalConnections })
  | [],           checked, p, hidle => by
    refine ⟨p.idleCount, ?_⟩
    simp only [checkIdle, List.filter_nil, List.append_nil, List.length_nil, Function.iterate_zero, id_eq]
    rw [← hidle]
  | conn :: idle, checked, p, hidle => by
    by_cases hconn : p.connected conn = true
    · obtain ⟨idleCount, heq⟩ :=
        checkIdle_eq (checked ++ [conn]) (p := { p with idle := idle, idleCount := p.idleCount.fetchSub }) rfl
      refine ⟨idleCount, ?_⟩
      simp only [checkIdle, if_pos hconn, heq, List.filter_cons_of_pos hconn, List.append_assoc, List.singleton_append]
      rw [List.filter_cons_of_neg (by simp [hconn])]
    · obtain ⟨idleCount, heq⟩ := checkIdle_eq checked
        (p := { p with idle := idle, idleCount := p.idleCount.fetchSub, totalConnections := p.totalConnections.fetchSub }) rfl
      refine ⟨idleCount, ?_⟩
      simp only [checkIdle, if_neg hconn, heq, List.filter_cons_of_neg hconn]
      rw [List.filter_cons_of_pos (by simp [hconn]), List.length_cons, Function.iterate_succ_apply]

theorem Counted.checkIdle : ∀ {idle checked : List Nat} {p : DbConnectionPool}, p.idle = idle → p.Counted checked.length →
    (DbConnectionPool.checkIdle idle checked p).2.Counted (DbConnectionPool.checkIdle idle checked p).1.length
  | [],           _,       _, _,     h => h
  | conn :: idle, checked, p, hidle, h => by
    have hnext := h.dequeue hidle
    by_cases hconn : p.connected conn = true
    · simp only [DbConnectionPool.checkIdle, if_pos hconn]
      exact Counted.checkIdle rfl (by simpa using hnext)
    · simp only [DbConnectionPool.checkIdle, if_neg hconn]
      exact Counted.checkIdle rfl hnext.discard

theorem giveBack_eq : ∀ (checked : List Nat) (p : DbConnectionPool), ∃ idleCount,
    giveBack checked p = { p with idle := p.idle ++ checked, idleCount := idleCount }
  | [],           p => ⟨p.idleCount, by rw [giveBack, List.append_nil]⟩
  | conn :: rest, p => by
    obtain ⟨idleCount, heq⟩ := giveBack_eq rest { p with idle := p.idle ++ [conn], idleCount := p.idleCount.fetchAdd }
    refine ⟨idleCount, ?_⟩
    rw [giveBack, heq, List.append_assoc]
    rfl

theorem Counted.giveBack : ∀ {checked : List Nat} {p : DbConnectionPool}, p.Counted checked.length →
    (DbConnectionPool.giveBack checked p).Counted 0
  | [],        _, h => h
  | conn :: _, _, h => by
    rw [DbConnectionPool.giveBack]
    exact Counted.giveBack (h.enqueue conn)

theorem dropBroken_eq (p : DbConnectionPool) : ∃ idleCount, p.dropBroken =
    { p with
      idle             := p.idle.filter p.connected
      idleCount        := idleCount
      totalConnections := AtomicSize.fetchSub^[p.brokenIdle] p.totalConnections } := by
  obtain ⟨_, hchecked⟩ := checkIdle_eq [] (rfl : p.idle = p.idle)
  simp only [dropBroken, hchecked, List.nil_append]
  exact giveBack_eq _ _

theorem Counted.dropBroken (h : p.Counted 0) : p.dropBroken.Counted 0 := (Counted.checkIdle rfl h).giveBack

/-- The last loop of a tick creates one connection after the other until there are enough or an attempt fails. -/
theorem refill_spec : ∀ (attempts : List Bool) {p : DbConnectionPool}, p.Counted 0 →
    (refill attempts p).Counted 0 ∧ (refill attempts p).idle.length = p.idle.length +
      min (p.config.minPoolSize - p.totalConnections.value) (attempts.takeWhile fun connects => connects).length ∧
    (refill attempts p).handedOut = p.handedOut ∧ (refill attempts p).config = p.config
  | [],                p, h => by
    rw [refill]
    split
    · exact ⟨h.congr rfl rfl rfl rfl rfl, by simp [refused], rfl, rfl⟩
    · exact ⟨h, by simp, rfl, rfl⟩
  | false :: attempts, p, h => by
    rw [refill]
    split
    · exact ⟨h.congr rfl rfl rfl rfl rfl, by simp [refused], rfl, rfl⟩
    · exact ⟨h, by simp, rfl, rfl⟩
  | true :: attempts,  p, h => by
    rw [refill]
    split
    · rename_i hroom
      have hopened : p.opened.Counted 0 := h.congr rfl rfl rfl rfl rfl
      have hadded := hopened.addIdle hroom p.config.minPoolSize_lt p.made
      obtain ⟨hcounted, hidle, hsame⟩ := refill_spec attempts hadded
      refine ⟨hcounted, ?_, hsame⟩
      have hvalue := h.value
      simp only [createConnectionSync_true]
      rw [hidle, hadded.value]
      simp only [addIdle, opened, List.length_append, List.takeWhile_cons_of_pos, List.length_cons, List.length_nil]
      omega
    · refine ⟨h, ?_, rfl, rfl⟩
      omega

/-! ## One step -/

theorem Accounted.start_iff (h : p.Accounted) (attempts : List Bool) :
    (p.start attempts).2.Accounted ↔ p.Keeps (.start attempts) := by
  obtain ⟨hcounted, hlimit⟩ := accounted_iff.1 h
  have hvalue := hcounted.value
  have hmax := p.config.maxPoolSize_lt
  obtain ⟨hidle, hhanded, hconfig⟩ :=
    createInitial_length p.toCreate attempts 0 { p with running := true, stopped := false }
  simp only [accounted_iff, DbConnectionPool.start, Keeps, hidle, hhanded, hconfig, hvalue]
  constructor
  · rintro ⟨_, hle⟩
    omega
  · intro hle
    refine ⟨Counted.createInitial _ _ _ (hcounted.congr rfl rfl rfl rfl rfl) ?_, by omega⟩
    simp only [hvalue]
    omega

theorem Accounted.createOrWait (hcounted : p.Counted 0) (hlimit : p.idle.length + p.handedOut.length ≤ p.config.maxPoolSize)
    (connects : Bool) : (p.createOrWait connects).Accounted := by
  have hvalue := hcounted.value
  have hmax := p.config.maxPoolSize_lt
  rw [accounted_iff, DbConnectionPool.createOrWait]
  split
  · rename_i hroom
    cases connects with
    | false => exact ⟨hcounted.congr rfl rfl rfl rfl rfl, hlimit⟩
    | true  =>
      refine ⟨⟨?_, hcounted.idle, ?_, ?_⟩, ?_⟩
      · simp only [createConnectionSync_true, opened, hcounted.total, List.length_cons]
        rw [AtomicSize.fetchAdd_ofNat (by omega)]
        congr 1
      · simp only [createConnectionSync_true, opened, hcounted.active, List.length_cons]
        exact AtomicSize.fetchAdd_ofNat (by omega)
      · simp only [createConnectionSync_true, opened, List.length_cons]
        omega
      · simp only [createConnectionSync_true, opened, List.length_cons]
        omega
  · exact ⟨hcounted.congr rfl rfl rfl rfl rfl, hlimit⟩

theorem Accounted.doAcquire (h : p.Accounted) (connects : Bool) : (p.doAcquire connects).Accounted := by
  obtain ⟨hcounted, hlimit⟩ := accounted_iff.1 h
  rw [DbConnectionPool.doAcquire]
  split
  · rename_i conn idle hidle
    have hnext := hcounted.dequeue hidle
    simp only [hidle, List.length_cons] at hlimit
    dsimp only
    split
    · refine accounted_iff.2 ⟨hnext.handOut conn, ?_⟩
      simp only [List.length_cons]
      omega
    · apply Accounted.createOrWait hnext.discard
      simp only
      omega
  · exact Accounted.createOrWait hcounted hlimit connects

/-- A release leaves the counters right exactly if it is of a connection that is handed out and gives it to no waiter. -/
theorem Accounted.release_iff (h : p.Accounted) (conn : Option Nat) : (p.doRelease conn).Accounted ↔ p.Keeps (.release conn) := by
  obtain ⟨hcounted, hlimit⟩ := accounted_iff.1 h
  have hmax := p.config.maxPoolSize_lt
  cases conn with
  | none      => exact iff_of_true h trivial
  | some conn =>
    constructor
    · intro h'
      have hactive := h'.active
      have hlt := hcounted.lt
      rw [DbConnectionPool.doRelease] at hactive
      dsimp only at hactive
      -- the count goes down by one, so the connections handed out have to
      by_cases hconn : conn ∈ p.handedOut
      · have hlength := List.length_erase_of_mem hconn
        have hpos := List.length_pos_of_mem hconn
        refine ⟨hconn, fun hconnected => ?_⟩
        rw [if_neg (by simp [hconnected])] at hactive
        cases hwaiters : p.waiters with
        | nil            => rfl
        | cons w waiters =>
          simp only [hwaiters, hcounted.active, AtomicSize.fetchSub, AtomicSize.value_ofNat, List.length_cons] at hactive
          omega
      · rw [List.erase_of_not_mem hconn] at hactive
        split at hactive
        · simp only [hcounted.active, AtomicSize.fetchSub, AtomicSize.value_ofNat] at hactive
          omega
        · split at hactive
          · simp only [hcounted.active, AtomicSize.fetchSub, AtomicSize.value_ofNat, List.length_cons] at hactive
            omega
          · simp only [hcounted.active, AtomicSize.fetchSub, AtomicSize.value_ofNat] at hactive
            omega
    · rintro ⟨hconn, hwaiters⟩
      have hback := hcounted.takeBack hconn
      have hlength := List.length_erase_of_mem hconn
      have hpos := List.length_pos_of_mem hconn
      rw [accounted_iff, DbConnectionPool.doRelease]
      dsimp only
      split
      · refine ⟨hback.discard, ?_⟩
        simp only
        omega
      · rename_i hconnected
        rw [hwaiters (by simpa using hconnected)]
        refine ⟨(hback.enqueue conn).congr rfl rfl rfl rfl rfl, ?_⟩
        simp only [List.length_append, List.length_singleton]
        omega

/-- Why a heartbeat does nothing. -/
theorem quiet_cases {error running : Bool} (h : (error || !running) = true) : error = true ∨ running = false :=
  (Bool.or_eq_true_iff.1 h).imp_right (Bool.not_eq_true' running).mp

theorem Accounted.heartbeat_iff (h : p.Accounted) (error : Bool) (attempts : List Bool) :
    (p.onHeartbeat error attempts).Accounted ↔ p.Keeps (.heartbeat error attempts) := by
  obtain ⟨hcounted, hlimit⟩ := accounted_iff.1 h
  rw [DbConnectionPool.onHeartbeat]
  split
  · rename_i hquiet
    exact iff_of_true h ((quiet_cases hquiet).imp_right .inl)
  · rename_i hticks
    have hidle : p.dropBroken.idle = p.idle.filter p.connected ∧ p.dropBroken.handedOut = p.handedOut ∧
        p.dropBroken.config = p.config := by
      obtain ⟨_, hdropped⟩ := dropBroken_eq p
      rw [hdropped]
      exact ⟨rfl, rfl, rfl⟩
    obtain ⟨hidle, hhanded, hconfig⟩ := hidle
    obtain ⟨hfilled, hlength, hfilledHanded, hfilledConfig⟩ := refill_spec attempts hcounted.dropBroken
    have hsum := List.length_eq_length_filter_add (l := p.idle) p.connected
    have hvalue := hcounted.value
    have hdropped := hcounted.dropBroken.value
    have hkeeps : p.Keeps (.heartbeat error attempts) ↔ p.refilled attempts ≤ p.config.maxPoolSize := by
      simp only [Bool.or_eq_true, Bool.not_eq_true', not_or, Bool.not_eq_true, Bool.not_eq_false] at hticks
      simp [Keeps, hticks]
    rw [hidle, hhanded] at hdropped
    rw [accounted_iff, and_iff_right hfilled, hlength, hfilledHanded, hfilledConfig, hidle, hhanded, hconfig, hkeeps, refilled,
      brokenIdle, hdropped]
    omega

theorem Accounted.stop (h : p.Accounted) : p.stop.Accounted := by
  obtain ⟨hcounted, hlimit⟩ := accounted_iff.1 h
  have hclosed := Counted.closeIdle (p := { p with running := false }) rfl (hcounted.congr rfl rfl rfl rfl rfl)
  obtain ⟨idleCount, totalConnections, connected, heq⟩ := closeIdle_eq (p := { p with running := false }) rfl
  rw [heq] at hclosed
  rw [accounted_iff, DbConnectionPool.stop, heq]
  refine ⟨hclosed.congr rfl rfl rfl rfl rfl, ?_⟩
  simp only [List.length_nil]
  omega

/-- **A step leaves the counters right exactly if it meets the condition.** -/
theorem Accounted.step_iff (h : p.Accounted) (e : PoolEvent) : (p.step e).Accounted ↔ p.Keeps e := by
  cases e with
  | start attempts           => exact h.start_iff attempts
  | acquire connects         => exact iff_of_true (h.doAcquire connects) trivial
  | release conn             => exact h.release_iff conn
  | heartbeat error attempts => exact h.heartbeat_iff error attempts
  | stop                     => exact iff_of_true h.stop trivial
  | disconnected conn        => exact iff_of_true ⟨h.total, h.idle, h.active, h.limit, h.underflown⟩ trivial

/-! ## Runs -/

theorem accounted_create (cfg : DbConfig) : (create cfg).Accounted :=
  accounted_iff.2 ⟨⟨rfl, rfl, rfl, Nat.two_pow_pos 64⟩, Nat.zero_le _⟩

/-- **The counters are right in every state of a run exactly if every step stays within the limit, and every release is of
a connection that is handed out and gives it to no waiter.** -/
theorem run_accounted_iff (cfg : DbConfig) (events : List PoolEvent) :
    (∀ n, ((events.take n).foldl step (create cfg)).Accounted) ↔ Along step Keeps (create cfg) events := by
  rw [← Run.always_iff_take]
  exact Run.always_iff_along (fun _ _ (_ : True) _ => trivial) (fun _ e _ h => h.step_iff e) events trivial
    (accounted_create cfg)

/-- A connection is given to a waiter. -/
theorem not_run_accounted : ¬∀ (cfg : DbConfig) (events : List PoolEvent), (events.foldl step (create cfg)).Accounted := by
  intro h
  have hactive := (h { minPoolSize := 1, maxPoolSize := 1 }
    [.start [true], .acquire false, .acquire false, .release (some 0)]).active
  exact absurd hactive (by decide)

end DbConnectionPool

end Gb
