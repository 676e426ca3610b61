import GbServer.DbPool
/-!
# PoolWaiters — who waits for a connection, and until when

An `Acquire` that finds no connection waits in `waiters_` until a healthy connection is released or `Stop` comes.  Nobody
waits in vain (`NotStranded`) exactly in the runs whose steps look after the waiters (`run_notStranded_iff`): a connection
that is dropped, a tick, and an `Acquire` that comes later may all leave something behind that a waiter should have had.
-/
namespace Gb

open Run (Along Always)

namespace DbConnectionPool

variable (p : DbConnectionPool)

/-- The connections of the pool. -/
def connections : Nat := p.idle.length + p.handedOut.length

def NoHealthyIdle : Prop := ∀ conn ∈ p.idle, p.connected conn = false

/-- The last attempt to create a connection failed, and came with the waiter or after it. -/
def FailedSince (w : PoolWaiter) : Prop := p.lastFailed = true ∧ w.arrival < p.attempts

instance (w : PoolWaiter) : Decidable (p.FailedSince w) := inferInstanceAs (Decidable (_ ∧ _))

/-- Who waits has a reason to, and after `Stop` nobody does. -/
structure NotStranded : Prop where
  healthy : p.waiters ≠ [] → p.NoHealthyIdle
  full    : ∀ w ∈ p.waiters, p.config.maxPoolSize ≤ p.connections ∨ p.FailedSince w
  stopped : p.stopped = true → p.waiters = []

/-- `total_connections_` without the idle connections that are broken. -/
def keptTotal : Nat := (AtomicSize.fetchSub^[p.brokenIdle] p.totalConnections).value

/-- The condition on an `Acquire` that finds no healthy connection at the front of the queue.  A new connection leaves room
for no waiter; and who has to wait comes before `Stop`, with no healthy connection in the queue, and where the count
of the connections keeps it from an attempt, the count is right. -/
def ServesNew (connects : Bool) : Prop :=
  if p.totalConnections.value < p.config.maxPoolSize ∧ connects = true then
    p.waiters = [] ∨ p.config.maxPoolSize ≤ p.connections + 1
  else
    p.stopped = false ∧ p.NoHealthyIdle ∧
      (p.config.maxPoolSize ≤ p.totalConnections.value → p.config.maxPoolSize ≤ p.connections)

/-- The condition on a step.  While somebody waits, `Start` creates nothing; a broken connection that is released leaves
the pool full, or an attempt has failed; and a tick creates nothing, and leaves the pool full or fails in an attempt. -/
def Serves (p : DbConnectionPool) : PoolEvent → Prop
  | .start attempts           => p.waiters = [] ∨ (attempts.take p.toCreate).count true = 0
  | .acquire connects         =>
    match p.idle with
    | conn :: idle =>
      p.connected conn = true ∨ ServesNew
        { p with idle := idle, idleCount := p.idleCount.fetchSub, totalConnections := p.totalConnections.fetchSub } connects
    | []           => p.ServesNew connects
  | .release (some conn)      =>
    p.connected conn = true ∨
      ∀ w ∈ p.waiters, p.config.maxPoolSize ≤ p.idle.length + (p.handedOut.erase conn).length ∨ p.FailedSince w
  | .heartbeat error attempts =>
    error = true ∨ p.running = false ∨
      if p.keptTotal < p.config.minPoolSize then p.waiters = [] ∨ attempts.headD false = false
      else ∀ w ∈ p.waiters, p.config.maxPoolSize ≤ p.handedOut.length ∨ p.FailedSince w
  | _                         => True

/-- What the numbers of the connections and of the attempts are worth. -/
structure Numbered : Prop where
  idle      : ∀ conn ∈ p.idle, conn < p.made
  connected : ∀ conn, p.connected conn = true → conn < p.made
  arrival   : ∀ w ∈ p.waiters, w.arrival ≤ p.attempts

variable {p}

/-- Nobody waits. -/
theorem notStranded_of_nil (h : p.waiters = []) : p.NotStranded where
  healthy := fun hne => absurd h hne
  full    := fun _ hw => absurd (h ▸ hw) List.not_mem_nil
  stopped := fun _ => h

/-- What changes neither the queue and the waiters nor what the waiters are told by. -/
theorem NotStranded.congr (h : p.NotStranded) {p' : DbConnectionPool} (hconfig : p'.config = p.config)
    (hidle : p'.idle = p.idle) (hhanded : p'.handedOut = p.handedOut) (hwaiters : p'.waiters = p.waiters)
    (hconnected : ∀ conn ∈ p.idle, p.connected conn = false → p'.connected conn = false)
    (hlast : p'.lastFailed = p.lastFailed) (hattempts : p'.attempts = p.attempts)
    (hstopped : p'.stopped = true → p.stopped = true) : p'.NotStranded where
  healthy := fun hne conn hconn => by
    rw [hwaiters] at hne
    rw [hidle] at hconn
    exact hconnected conn hconn (h.healthy hne conn hconn)
  full    := fun w hw => by
    rw [hwaiters] at hw
    rw [hconfig, connections, hidle, hhanded, FailedSince, hlast, hattempts]
    exact h.full w hw
  stopped := fun hs => hwaiters.trans (h.stopped (hstopped hs))

/-! ## Attempts to connect -/

/-- An attempt that fails is a reason to wait. -/
theorem notStranded_refused (hhealthy : p.waiters ≠ [] → p.NoHealthyIdle) (hstopped : p.stopped = true → p.waiters = [])
    (hnumbered : p.Numbered) : p.refused.NotStranded where
  healthy := hhealthy
  full    := fun w hw => .inr ⟨rfl, Nat.lt_succ_of_le (hnumbered.arrival w hw)⟩
  stopped := hstopped

theorem NotStranded.refused (h : p.NotStranded) (hnumbered : p.Numbered) : p.refused.NotStranded :=
  notStranded_refused h.healthy h.stopped hnumbered

theorem Numbered.refused (h : p.Numbered) : p.refused.Numbered where
  idle      := h.idle
  connected := h.connected
  arrival   := fun w hw => Nat.le_succ_of_le (h.arrival w hw)

theorem Numbered.opened (h : p.Numbered) : p.opened.Numbered where
  idle      := fun conn hconn => Nat.lt_succ_of_lt (h.idle conn hconn)
  connected := fun conn hconn => by
    by_cases heq : conn = p.made
    · rw [heq]
      exact Nat.lt_succ_self p.made
    · simp only [DbConnectionPool.opened, Function.update_of_ne heq] at hconn
      exact Nat.lt_succ_of_lt (h.connected conn hconn)
  arrival   := fun w hw => Nat.le_succ_of_le (h.arrival w hw)

theorem Numbered.addIdle (h : p.Numbered) {conn : Nat} (hconn : conn < p.made) : (p.addIdle conn).Numbered where
  idle      := fun c hc => by
    rcases List.mem_append.1 hc with hc | hc
    · exact h.idle c hc
    · rw [List.mem_singleton.1 hc]
      exact hconn
  connected := h.connected
  arrival   := h.arrival

/-- A queue with a healthy connection. -/
def HealthyIdle (p : DbConnectionPool) : Prop := ∃ conn ∈ p.idle, p.connected conn = true

theorem HealthyIdle.opened (h : p.HealthyIdle) : p.opened.HealthyIdle := by
  obtain ⟨conn, hmem, hconn⟩ := h
  refine ⟨conn, hmem, ?_⟩
  by_cases heq : conn = p.made
  · simp [DbConnectionPool.opened, heq]
  · simpa [DbConnectionPool.opened, heq] using hconn

theorem healthyIdle_addIdle (p : DbConnectionPool) : (p.opened.addIdle p.made).HealthyIdle :=
  ⟨p.made, List.mem_append_right _ (List.mem_singleton_self _), Function.update_self _ _ _⟩

theorem HealthyIdle.addIdle (h : p.HealthyIdle) (conn : Nat) : (p.addIdle conn).HealthyIdle := by
  obtain ⟨c, hmem, hc⟩ := h
  exact ⟨c, List.mem_append_left _ hmem, hc⟩

theorem HealthyIdle.stranded (h : p.HealthyIdle) (hne : p.waiters ≠ []) : ¬p.NotStranded := by
  intro hnot
  obtain ⟨conn, hmem, hconn⟩ := h
  exact Bool.false_ne_true ((hnot.healthy hne conn hmem).symm.trans hconn)

/-! ## `Start` -/

theorem createInitial_waiters : ∀ (n : Nat) (attempts : List Bool) (created : Nat) (p : DbConnectionPool),
    (createInitial n attempts created p).2.waiters = p.waiters
  | 0,     _,                 _,       _ => rfl
  | n + 1, [],                created, p => createInitial_waiters n [] created p.refused
  | n + 1, false :: attempts, created, p => createInitial_waiters n attempts created p.refused
  | n + 1, true :: attempts,  created, p => createInitial_waiters n attempts (created + 1) (p.opened.addIdle p.made)

theorem Numbered.createInitial : ∀ (n : Nat) (attempts : List Bool) (created : Nat) {p : DbConnectionPool}, p.Numbered →
    (DbConnectionPool.createInitial n attempts created p).2.Numbered
  | 0,     _,                 _,       _, h => h
  | n + 1, [],                created, _, h => Numbered.createInitial n [] created h.refused
  | n + 1, false :: attempts, created, _, h => Numbered.createInitial n attempts created h.refused
  | n + 1, true :: attempts,  created, p, h =>
    Numbered.createInitial n attempts (created + 1) (h.opened.addIdle (Nat.lt_succ_self p.made))

theorem HealthyIdle.createInitial : ∀ (n : Nat) (attempts : List Bool) (created : Nat) {p : DbConnectionPool},
    p.HealthyIdle → (DbConnectionPool.createInitial n attempts created p).2.HealthyIdle
  | 0,     _,                 _,       _, h => h
  | n + 1, [],                created, p, h => HealthyIdle.createInitial n [] created (p := p.refused) h
  | n + 1, false :: attempts, created, p, h => HealthyIdle.createInitial n attempts created (p := p.refused) h
  | n + 1, true :: attempts,  created, p, h =>
    HealthyIdle.createInitial n attempts (created + 1) (h.opened.addIdle p.made)

theorem healthyIdle_createInitial : ∀ (n : Nat) (attempts : List Bool) (created : Nat) (p : DbConnectionPool),
    (attempts.take n).count true ≠ 0 → (createInitial n attempts created p).2.HealthyIdle
  | 0,     attempts,          _,       _, h => absurd (by simp) h
  | n + 1, [],                _,       _, h => absurd (by simp) h
  | n + 1, false :: attempts, created, p, h => by
    rw [List.take_succ_cons, List.count_cons_of_ne Bool.false_ne_true] at h
    exact healthyIdle_createInitial n attempts created p.refused h
  | n + 1, true :: attempts,  created, p, _ =>
    (healthyIdle_addIdle p).createInitial n attempts (created + 1)

theorem NotStranded.createInitial : ∀ (n : Nat) (attempts : List Bool) (created : Nat) {p : DbConnectionPool},
    p.NotStranded → p.Numbered → (attempts.take n).count true = 0 →
    (DbConnectionPool.createInitial n attempts created p).2.NotStranded
  | 0,     _,                 _,       _, h, _,  _     => h
  | n + 1, [],                created, _, h, hn, _     =>
    NotStranded.createInitial n [] created (h.refused hn) hn.refused (by simp)
  | n + 1, false :: attempts, created, _, h, hn, hzero => by
    rw [List.take_succ_cons, List.count_cons_of_ne Bool.false_ne_true] at hzero
    exact NotStranded.createInitial n attempts created (h.refused hn) hn.refused hzero
  | n + 1, true :: attempts,  _,       _, _, _,  hzero => by
    rw [List.take_succ_cons, List.count_cons_self] at hzero
    exact absurd hzero (Nat.succ_ne_zero _)

theorem NotStranded.start_iff (h : p.NotStranded) (hnumbered : p.Numbered) (attempts : List Bool) :
    (p.start attempts).2.NotStranded ↔ p.Serves (.start attempts) := by
  have hwaiters := createInitial_waiters p.toCreate attempts 0 { p with running := true, stopped := false }
  by_cases hnil : p.waiters = []
  · exact iff_of_true (notStranded_of_nil (hwaiters.trans hnil)) (.inl hnil)
  · simp only [Serves, hnil, false_or]
    constructor
    · intro h'
      by_contra hcount
      have hhealthy := healthyIdle_createInitial p.toCreate attempts 0 { p with running := true, stopped := false } hcount
      exact hhealthy.stranded (fun hnil' => hnil (hwaiters.symm.trans hnil')) h'
    · intro hcount
      refine NotStranded.createInitial _ _ _ ?_ ⟨hnumbered.idle, hnumbered.connected, hnumbered.arrival⟩ hcount
      exact h.congr rfl rfl rfl rfl (fun _ _ hconn => hconn) rfl rfl fun hs => nomatch hs

/-! ## `Acquire` -/

theorem connected_opened (h : p.Numbered) {conn : Nat} (hconn : conn ∈ p.idle) : p.opened.connected conn = p.connected conn :=
  Function.update_of_ne (Nat.ne_of_lt (h.idle conn hconn)) _ _

/-- Who has to wait. -/
theorem wait_iff {w : PoolWaiter} (hfull : ∀ v ∈ p.waiters ++ [w],
      p.config.maxPoolSize ≤ p.connections ∨ p.FailedSince v) :
    NotStranded { p with waiters := p.waiters ++ [w] } ↔ p.stopped = false ∧ p.NoHealthyIdle := by
  constructor
  · intro h
    refine ⟨Bool.eq_false_iff.2 fun hs => ?_, h.healthy (by simp)⟩
    exact absurd (h.stopped hs) (by simp)
  · rintro ⟨hstopped, hidle⟩
    refine ⟨fun _ => hidle, hfull, fun hs => ?_⟩
    exact absurd (hstopped.symm.trans hs) Bool.false_ne_true

theorem Numbered.arrival_append (h : p.Numbered) : ∀ v ∈ p.waiters ++ [⟨p.attempts⟩], v.arrival ≤ p.attempts := by
  intro v hv
  rcases List.mem_append.1 hv with hv | hv
  · exact h.arrival v hv
  · exact Nat.le_of_eq (congrArg PoolWaiter.arrival (List.mem_singleton.1 hv))

/-- Who does not get a connection from the queue, where those who wait find none there either. -/
theorem createOrWait_iff (hnumbered : p.Numbered) (hidle : p.waiters ≠ [] → p.NoHealthyIdle)
    (hstopped : p.stopped = true → p.waiters = []) (connects : Bool) :
    (p.createOrWait connects).NotStranded ↔ p.ServesNew connects := by
  rw [createOrWait, ServesNew]
  by_cases hroom : p.totalConnections.value < p.config.maxPoolSize
  · cases connects with
    | true  =>
      simp only [createConnectionSync_true, hroom, and_self, if_true]
      constructor
      · intro h
        by_cases hnil : p.waiters = []
        · exact .inl hnil
        · obtain ⟨w, hw⟩ := List.exists_mem_of_ne_nil _ hnil
          refine .inr ((h.full w hw).resolve_right fun hfailed => ?_)
          exact absurd hfailed.1 Bool.false_ne_true
      · intro h
        by_cases hnil : p.waiters = []
        · exact notStranded_of_nil hnil
        · refine ⟨fun _ conn hconn => ?_, fun w _ => .inl (h.resolve_left hnil), hstopped⟩
          exact (connected_opened hnumbered hconn).trans (hidle hnil conn hconn)
    | false =>
      simp only [hroom, if_true, createConnectionSync_false, Bool.false_eq_true, and_false, if_false]
      rw [wait_iff (p := p.refused)]
      · exact ⟨fun h => ⟨h.1, h.2, fun hle => absurd hroom (Nat.not_lt.2 hle)⟩, fun h => ⟨h.1, h.2.1⟩⟩
      · intro v hv
        exact .inr ⟨rfl, Nat.lt_succ_of_le (hnumbered.arrival_append v hv)⟩
  · simp only [hroom, false_and, if_false]
    constructor
    · intro h
      have hlast := h.full ⟨p.attempts⟩ (List.mem_append_right _ (List.mem_singleton_self _))
      have hcount := hlast.resolve_right fun hfailed => Nat.lt_irrefl _ hfailed.2
      refine ⟨Bool.eq_false_iff.2 fun hs => ?_, h.healthy (by simp), fun _ => hcount⟩
      exact absurd (h.stopped hs) (by simp)
    · rintro ⟨hs, hnone, hcount⟩
      rw [wait_iff]
      · exact ⟨hs, hnone⟩
      · exact fun _ _ => .inl (hcount (Nat.le_of_not_lt hroom))

theorem Numbered.dropFirst (h : p.Numbered) {conn : Nat} {idle : List Nat} (hidle : p.idle = conn :: idle) : Numbered
    { p with idle := idle, idleCount := p.idleCount.fetchSub, totalConnections := p.totalConnections.fetchSub } :=
  ⟨fun c hc => h.idle c (hidle ▸ List.mem_cons_of_mem conn hc), h.connected, h.arrival⟩

theorem NotStranded.acquire_iff (h : p.NotStranded) (hnumbered : p.Numbered) (connects : Bool) :
    (p.doAcquire connects).NotStranded ↔ p.Serves (.acquire connects) := by
  cases hidle : p.idle with
  | nil            =>
    simp only [DbConnectionPool.doAcquire, Serves, hidle]
    exact createOrWait_iff hnumbered h.healthy h.stopped connects
  | cons conn idle =>
    simp only [DbConnectionPool.doAcquire, Serves, hidle]
    by_cases hconn : p.connected conn = true
    · have hnil : p.waiters = [] := by
        by_contra hne
        have hbroken := h.healthy hne conn (hidle ▸ List.mem_cons_self)
        exact Bool.false_ne_true (hbroken.symm.trans hconn)
      rw [if_pos hconn]
      exact iff_of_true (notStranded_of_nil hnil) (.inl hconn)
    · rw [if_neg hconn, or_iff_right hconn]
      have hsub : ∀ c ∈ idle, c ∈ p.idle := fun c hc => hidle ▸ List.mem_cons_of_mem conn hc
      have hdropped := hnumbered.dropFirst hidle
      exact createOrWait_iff hdropped (fun hne c hc => h.healthy hne c (hsub c hc)) h.stopped connects

theorem Numbered.createOrWait (h : p.Numbered) (connects : Bool) : (p.createOrWait connects).Numbered := by
  rw [DbConnectionPool.createOrWait]
  split
  · cases connects with
    | true  => exact ⟨h.opened.idle, h.opened.connected, h.opened.arrival⟩
    | false => exact ⟨h.idle, h.connected, fun v hv => Nat.le_succ_of_le (h.arrival_append v hv)⟩
  · exact ⟨h.idle, h.connected, h.arrival_append⟩

theorem Numbered.doAcquire (h : p.Numbered) (connects : Bool) : (p.doAcquire connects).Numbered := by
  rw [DbConnectionPool.doAcquire]
  split
  · rename_i conn idle hidle
    have hdropped := h.dropFirst hidle
    dsimp only
    split
    · exact ⟨hdropped.idle, hdropped.connected, hdropped.arrival⟩
    · exact hdropped.createOrWait connects
  · exact h.createOrWait connects

/-! ## `Release` -/

theorem NotStranded.release_iff (h : p.NotStranded) (conn : Option Nat) :
    (p.doRelease conn).NotStranded ↔ p.Serves (.release conn) := by
  cases conn with
  | none      => exact iff_of_true h trivial
  | some conn =>
    by_cases hconn : p.connected conn = true
    · refine iff_of_true ?_ (.inl hconn)
      simp only [doRelease, hconn, Bool.true_eq_false, if_false]
      split
      · rename_i w waiters hwaiters
        refine ⟨fun _ c hc => h.healthy (by simp [hwaiters]) c hc, fun v hv => ?_, fun hs => ?_⟩
        · have hfull := h.full v (hwaiters ▸ List.mem_cons_of_mem w hv)
          have hlength : p.handedOut.length ≤ (p.handedOut.erase conn).length + 1 := by
            have := List.le_length_erase (a := conn) (l := p.handedOut)
            omega
          refine hfull.imp (fun hle => ?_) fun hfailed => ⟨hfailed.1, hfailed.2⟩
          simp only [connections, List.length_cons] at hle ⊢
          omega
        · exact absurd (h.stopped hs) (by simp [hwaiters])
      · rename_i hnil
        exact notStranded_of_nil hnil
    · have hbroken : p.connected conn = false := by simpa using hconn
      simp only [doRelease, Serves, hbroken, if_true, Bool.false_eq_true, false_or]
      constructor
      · exact fun h' w hw => (h'.full w hw).imp id fun hfailed => ⟨hfailed.1, hfailed.2⟩
      · exact fun hfull => ⟨fun hne c hc => h.healthy hne c hc,
          fun w hw => (hfull w hw).imp id fun hfailed => ⟨hfailed.1, hfailed.2⟩, h.stopped⟩

theorem Numbered.doRelease (h : p.Numbered) (conn : Option Nat) : (p.doRelease conn).Numbered := by
  cases conn with
  | none      => exact h
  | some conn =>
    rw [DbConnectionPool.doRelease]
    dsimp only
    split
    · exact ⟨h.idle, h.connected, h.arrival⟩
    · rename_i hconn
      split
      · rename_i w waiters hwaiters
        exact ⟨h.idle, h.connected, fun v hv => h.arrival v (hwaiters ▸ List.mem_cons_of_mem w hv)⟩
      · rename_i hnil
        refine ⟨fun c hc => ?_, h.connected, fun v hv => h.arrival v hv⟩
        rcases List.mem_append.1 hc with hc | hc
        · exact h.idle c hc
        · rw [List.mem_singleton.1 hc]
          exact h.connected conn (by simpa using hconn)

/-! ## The heartbeat -/

theorem refill_waiters : ∀ (attempts : List Bool) (p : DbConnectionPool), (refill attempts p).waiters = p.waiters
  | [],                p => by
    rw [refill]
    split <;> rfl
  | false :: attempts, p => by
    rw [refill]
    split <;> rfl
  | true :: attempts,  p => by
    rw [refill]
    split
    · exact refill_waiters attempts (p.opened.addIdle p.made)
    · rfl

theorem HealthyIdle.refill : ∀ (attempts : List Bool) {p : DbConnectionPool}, p.HealthyIdle →
    (DbConnectionPool.refill attempts p).HealthyIdle
  | [],                p, h => by
    rw [DbConnectionPool.refill]
    split
    · exact h
    · exact h
  | false :: attempts, p, h => by
    rw [DbConnectionPool.refill]
    split
    · exact h
    · exact h
  | true :: attempts,  p, h => by
    rw [DbConnectionPool.refill]
    split
    · exact HealthyIdle.refill attempts (h.opened.addIdle p.made)
    · exact h

theorem Numbered.refill : ∀ (attempts : List Bool) {p : DbConnectionPool}, p.Numbered →
    (DbConnectionPool.refill attempts p).Numbered
  | [],                p, h => by
    rw [DbConnectionPool.refill]
    split
    · exact h.refused
    · exact h
  | false :: attempts, p, h => by
    rw [DbConnectionPool.refill]
    split
    · exact h.refused
    · exact h
  | true :: attempts,  p, h => by
    rw [DbConnectionPool.refill]
    split
    · exact Numbered.refill attempts (h.opened.addIdle (Nat.lt_succ_self p.made))
    · exact h

/-- The first attempt decides. -/
theorem refill_cases (attempts : List Bool) (p : DbConnectionPool) :
    p.config.minPoolSize ≤ p.totalConnections.value ∧ refill attempts p = p ∨
    p.totalConnections.value < p.config.minPoolSize ∧ attempts.headD false = false ∧ refill attempts p = p.refused ∨
    p.totalConnections.value < p.config.minPoolSize ∧ attempts.headD false = true ∧ (refill attempts p).HealthyIdle := by
  by_cases hroom : p.totalConnections.value < p.config.minPoolSize
  · refine .inr ?_
    rcases attempts with _ | ⟨_ | _, attempts⟩
    · exact .inl ⟨hroom, rfl, by rw [refill, if_pos hroom]; rfl⟩
    · exact .inl ⟨hroom, rfl, by rw [refill, if_pos hroom]; rfl⟩
    · refine .inr ⟨hroom, rfl, ?_⟩
      rw [refill, if_pos hroom]
      exact (healthyIdle_addIdle p).refill attempts
  · refine .inl ⟨Nat.le_of_not_lt hroom, ?_⟩
    cases attempts with
    | nil      => rw [refill, if_neg hroom]
    | cons _ _ => rw [refill, if_neg hroom]

theorem Numbered.dropBroken (h : p.Numbered) : p.dropBroken.Numbered := by
  obtain ⟨idleCount, heq⟩ := dropBroken_eq p
  rw [heq]
  exact ⟨fun c hc => h.idle c (List.mem_of_mem_filter hc), h.connected, h.arrival⟩

theorem NotStranded.heartbeat_iff (h : p.NotStranded) (hnumbered : p.Numbered) (error : Bool) (attempts : List Bool) :
    (p.onHeartbeat error attempts).NotStranded ↔ p.Serves (.heartbeat error attempts) := by
  rw [onHeartbeat]
  split
  · rename_i hquiet
    exact iff_of_true h ((quiet_cases hquiet).imp_right .inl)
  · rename_i hticks
    have hserves : p.Serves (.heartbeat error attempts) ↔
        if p.keptTotal < p.config.minPoolSize then p.waiters = [] ∨ attempts.headD false = false
        else ∀ w ∈ p.waiters, p.config.maxPoolSize ≤ p.handedOut.length ∨ p.FailedSince w := by
      simp only [Bool.or_eq_true, Bool.not_eq_true', not_or, Bool.not_eq_true, Bool.not_eq_false] at hticks
      simp [Serves, hticks]
    rw [hserves]
    obtain ⟨idleCount, hdropped⟩ := dropBroken_eq p
    have hwaiters : p.dropBroken.waiters = p.waiters := by rw [hdropped]
    by_cases hnil : p.waiters = []
    · refine iff_of_true (notStranded_of_nil ((refill_waiters attempts _).trans (hwaiters.trans hnil))) ?_
      split
      · exact .inl hnil
      · simp [hnil]
    · have hempty : p.idle.filter p.connected = [] :=
        List.filter_eq_nil_iff.2 fun conn hconn => by simp [h.healthy hnil conn hconn]
      have hkept : p.dropBroken.totalConnections.value = p.keptTotal := by
        rw [hdropped]
        rfl
      have hconfig : p.dropBroken.config = p.config := by rw [hdropped]
      have hnone : ∀ conn ∈ p.idle.filter p.connected, p.connected conn = false := by simp [hempty]
      have hafter : p.dropBroken.NotStranded ↔
          ∀ w ∈ p.waiters, p.config.maxPoolSize ≤ p.handedOut.length ∨ p.FailedSince w := by
        rw [hdropped]
        constructor
        · intro h' w hw
          refine (h'.full w hw).imp (fun hle => ?_) fun hfailed => ⟨hfailed.1, hfailed.2⟩
          simpa [connections, hempty] using hle
        · intro hfull
          refine ⟨fun _ => hnone, fun w hw => ?_, h.stopped⟩
          refine (hfull w hw).imp (fun hle => ?_) fun hfailed => ⟨hfailed.1, hfailed.2⟩
          simpa [connections, hempty] using hle
      rcases refill_cases attempts p.dropBroken with ⟨hfull, heq⟩ | ⟨hroom, hhead, heq⟩ | ⟨hroom, hhead, hhealthy⟩
      · rw [hkept, hconfig] at hfull
        rw [heq, hafter, if_neg (Nat.not_lt.2 hfull)]
      · rw [hkept, hconfig] at hroom
        rw [heq, if_pos hroom]
        refine iff_of_true (notStranded_refused (fun _ => ?_) ?_ hnumbered.dropBroken) (.inr hhead)
        · rw [hdropped]
          exact hnone
        · rw [hdropped]
          exact h.stopped
      · rw [hkept, hconfig] at hroom
        rw [if_pos hroom]
        refine iff_of_false (hhealthy.stranded ?_) fun hor =>
          hor.elim hnil fun hfails => Bool.false_ne_true (hfails.symm.trans hhead)
        rw [refill_waiters, hwaiters]
        exact hnil

/-! ## Runs -/

theorem connected_of_update {conn c : Nat} (h : Function.update p.connected conn false c = true) : p.connected c = true := by
  by_cases heq : c = conn
  · simp [heq] at h
  · simpa [heq] using h

theorem Numbered.closeIdle : ∀ {idle : List Nat} {p : DbConnectionPool}, p.idle = idle → p.Numbered →
    (DbConnectionPool.closeIdle idle p).Numbered
  | [],           _, _,     h => h
  | conn :: idle, p, hidle, h => by
    have hrest : ∀ c ∈ idle, c < p.made := fun c hc => h.idle c (hidle ▸ List.mem_cons_of_mem conn hc)
    rw [DbConnectionPool.closeIdle]
    exact Numbered.closeIdle rfl ⟨hrest, fun c hc => h.connected c (connected_of_update hc), h.arrival⟩

theorem NotStranded.step_iff (h : p.NotStranded) (hnumbered : p.Numbered) (e : PoolEvent) :
    (p.step e).NotStranded ↔ p.Serves e := by
  cases e with
  | start attempts           => exact h.start_iff hnumbered attempts
  | acquire connects         => exact h.acquire_iff hnumbered connects
  | release conn             => exact h.release_iff conn
  | heartbeat error attempts => exact h.heartbeat_iff hnumbered error attempts
  | stop                     => exact iff_of_true (notStranded_of_nil rfl) trivial
  | disconnected conn        =>
    refine iff_of_true (h.congr rfl rfl rfl rfl (fun c _ hc => ?_) rfl rfl id) trivial
    by_cases heq : c = conn
    · simp [DbConnectionPool.step, heq]
    · simpa [DbConnectionPool.step, heq] using hc

theorem Numbered.step (h : p.Numbered) (e : PoolEvent) : (p.step e).Numbered := by
  cases e with
  | start attempts           => exact Numbered.createInitial _ _ _ ⟨h.idle, h.connected, h.arrival⟩
  | acquire connects         => exact h.doAcquire connects
  | release conn             => exact h.doRelease conn
  | heartbeat error attempts =>
    simp only [DbConnectionPool.step, onHeartbeat]
    split
    · exact h
    · exact h.dropBroken.refill attempts
  | stop                     =>
    have hclosed := Numbered.closeIdle (p := { p with running := false }) rfl ⟨h.idle, h.connected, h.arrival⟩
    exact ⟨hclosed.idle, hclosed.connected, fun _ hw => absurd hw List.not_mem_nil⟩
  | disconnected conn        => exact ⟨h.idle, fun c hc => h.connected c (connected_of_update hc), h.arrival⟩

/-- **Nobody is stranded in any state of a run exactly if every step looks after those who wait.** -/
theorem run_notStranded_iff (cfg : DbConfig) (events : List PoolEvent) :
    (∀ n, ((events.take n).foldl step (create cfg)).NotStranded) ↔ Along step Serves (create cfg) events := by
  have hnumbered : (create cfg).Numbered := ⟨by simp [create], by simp [create], by simp [create]⟩
  rw [← Run.always_iff_take]
  exact Run.always_iff_along (fun _ e h _ => h.step e) (fun _ e hn h => h.step_iff hn e) events hnumbered
    (notStranded_of_nil rfl)

/-- The one connection breaks and is released while somebody waits. -/
theorem not_run_notStranded : ¬∀ (cfg : DbConfig) (events : List PoolEvent), (events.foldl step (create cfg)).NotStranded := by
  intro h
  have hfull := (h { minPoolSize := 1, maxPoolSize := 1 }
    [.start [true], .acquire false, .acquire false, .disconnected 0, .release (some 0)]).full ⟨1⟩ (by decide)
  exact absurd hfull (by decide)

end DbConnectionPool

end Gb
