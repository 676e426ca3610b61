import GbServer.FlowController
import GbServer.KcpSend
/-!
# Maintain — the options and the maintenance of a server or a client

`ResetOptions` and `TimerMaintain` of `server.cpp` and `client.cpp` over the sessions there are, with what the sessions
do between them: reads and writes that complete, messages that are sent, connections that open and close.  A client's
`ResetOptions` leaves the controller alone; what else differs is the length of a slice.

`_slice_quota_in`, `_slice_quota_out`, `_max_pending_buffer_size` and `_keep_alive_ticks` are functions of the options,
which the source keeps in step with them.  An event is a whole call: the interleavings inside of a session's own calls are the
matter of another model.  Of the listener, which `TimerMaintain` starts again when it is closed, nothing is here.
-/
namespace Gb

/-- The options that can be reset; -1 is no limit. -/
structure MaintainOptions where
  maxThroughputIn      : Int := -1
  maxThroughputOut     : Int := -1
  maxPendingBufferSize : Int := 100
  keepAliveTime        : Int := -1

def maintainIntervalInMs : NetType → Int
  | .server => 100
  | .client => 500

def sliceCount (t : NetType) : Int := max 1 (1000 / maintainIntervalInMs t)

def MaintainOptions.maxThroughput (o : MaintainOptions) : Direction → Int
  | .read  => o.maxThroughputIn
  | .write => o.maxThroughputOut

/-- `_slice_quota_in` and `_slice_quota_out`. -/
def MaintainOptions.sliceQuota (o : MaintainOptions) (t : NetType) (d : Direction) : Int :=
  if o.maxThroughput d = -1 then -1 else max 0 (o.maxThroughput d * 1024 * 1024) / sliceCount t

/-- `_max_pending_buffer_size`. -/
def MaintainOptions.pendingLimit (o : MaintainOptions) : Int := max 0 (o.maxPendingBufferSize * 1024 * 1024)

/-- `_keep_alive_ticks`; a tick is a second. -/
def MaintainOptions.keepAliveTicks (o : MaintainOptions) : Int :=
  if o.keepAliveTime = -1 then -1 else max 1 o.keepAliveTime

structure WaitingMessage where
  totalCount     : Int
  totalBlockSize : Int

/-- What maintenance reads and writes of a session.  `rwTicks` is no field of the source: the time of the last
`TimerMaintain` when the last read or write completed. -/
structure MaintainedSession where
  status               : NetStatus := .connecting
  ticks                : Int
  lastRwTicks          : Int
  readQuotaToken       : Int := 1
  writeQuotaToken      : Int := 1
  receiveTokenLocked   : Bool := false
  sendTokenLocked      : Bool := false
  receivingSize        : Int := 0
  pendingCalls         : List WaitingMessage := []
  maxPendingBufferSize : Int
  rwTicks              : Option Int := none

namespace MaintainedSession

def token (s : MaintainedSession) : Direction → Int
  | .read  => s.readQuotaToken
  | .write => s.writeQuotaToken

def pendingBufferSize (s : MaintainedSession) : Int := (s.pendingCalls.map WaitingMessage.totalBlockSize).sum

def resetTicks (s : MaintainedSession) (ticks : Int) (updateLastRwTicks : Bool) : MaintainedSession :=
  { s with ticks := ticks, lastRwTicks := if updateLastRwTicks then ticks else s.lastRwTicks }

def tryStartReceive (t : NetType) (s : MaintainedSession) (f : FlowController) : MaintainedSession × FlowController :=
  if s.receiveTokenLocked ∨ s.readQuotaToken ≤ 0 ∨ (t = .server ∧ s.maxPendingBufferSize < s.pendingBufferSize) ∨
      s.status ≠ .connected then (s, f)
  else
    let (token, f) := f.acquireReadQuota s.receivingSize
    ({ s with readQuotaToken := token, receiveTokenLocked := decide (0 < token) }, f)

def tryStartSend (s : MaintainedSession) (f : FlowController) : MaintainedSession × FlowController :=
  if s.sendTokenLocked ∨ s.writeQuotaToken ≤ 0 ∨ s.status ≠ .connected then (s, f)
  else
    match s.pendingCalls with
    | []      => (s, f)
    | m :: ms =>
      let (token, f) := f.acquireWriteQuota m.totalCount
      if token ≤ 0 then ({ s with writeQuotaToken := token }, f)
      else ({ s with writeQuotaToken := token, sendTokenLocked := true, pendingCalls := ms }, f)

def triggerReceive (t : NetType) (s : MaintainedSession) (f : FlowController) : MaintainedSession × FlowController :=
  tryStartReceive t { s with readQuotaToken := 1 } f

def triggerSend (s : MaintainedSession) (f : FlowController) : MaintainedSession × FlowController :=
  tryStartSend { s with writeQuotaToken := 1 } f

def trigger (t : NetType) : Direction → MaintainedSession → FlowController → MaintainedSession × FlowController
  | .read  => triggerReceive t
  | .write => triggerSend

/-- `set_socket_connected` with a first block of `receivingSize` bytes. -/
def setSocketConnected (t : NetType) (receivingSize : Int) (s : MaintainedSession) (f : FlowController) :
    MaintainedSession × FlowController :=
  if s.status = .connecting then
    let (s, f) := triggerReceive t
      { s with status := .connected, lastRwTicks := s.ticks, receivingSize := receivingSize } f
    triggerSend s f
  else (s, f)

/-- A read or a write completed, `maintained` being the time of the last `TimerMaintain`. -/
def stamp (s : MaintainedSession) (maintained : Int) : MaintainedSession :=
  { s with lastRwTicks := s.ticks, rwTicks := some maintained }

/-- `on_read_some`, with `receivingSize` bytes of room behind it. -/
def onReadSome (t : NetType) (maintained receivingSize : Int) (s : MaintainedSession) (f : FlowController) :
    MaintainedSession × FlowController :=
  if s.status = .connected ∧ s.receiveTokenLocked then
    tryStartReceive t { s.stamp maintained with receiveTokenLocked := false, receivingSize := receivingSize } f
  else (s, f)

/-- `on_write_some`, for the last bytes of a message or for others. -/
def onWriteSome (t : NetType) (maintained : Int) (last : Bool) (s : MaintainedSession) (f : FlowController) :
    MaintainedSession × FlowController :=
  if s.status = .connected ∧ s.sendTokenLocked then
    if last then
      let (s, f) := tryStartSend { s.stamp maintained with sendTokenLocked := false } f
      match t with
      | .server => tryStartReceive t s f
      | .client => (s, f)
    else (s.stamp maintained, f)
  else (s, f)

def asyncSendMessage (m : WaitingMessage) (s : MaintainedSession) (f : FlowController) :
    MaintainedSession × FlowController :=
  if s.status = .closed then (s, f) else tryStartSend { s with pendingCalls := s.pendingCalls ++ [m] } f

end MaintainedSession

/-- What a session's own calls do to it and the controller. -/
inductive SessionCall
  | setSocketConnected (receivingSize : Int)
  | onReadSome (receivingSize : Int)
  | onWriteSome (last : Bool)
  | asyncSendMessage (m : WaitingMessage)

def SessionCall.run (t : NetType) (maintained : Int) : SessionCall → MaintainedSession → FlowController →
    MaintainedSession × FlowController
  | setSocketConnected receivingSize => MaintainedSession.setSocketConnected t receivingSize
  | onReadSome receivingSize         => MaintainedSession.onReadSome t maintained receivingSize
  | onWriteSome last                 => MaintainedSession.onWriteSome t maintained last
  | asyncSendMessage m               => MaintainedSession.asyncSendMessage m

inductive MaintainEvent
  | elapse (seconds : Nat)
  | resetOptions (options : MaintainOptions)
  | timerMaintain
  | opened
  | call (k : Nat) (c : SessionCall)
  | closed (k : Nat)

/-- A server or a client.  `clock` is the seconds since it began. -/
structure Maintain where
  netType           : NetType
  clock             : Int
  options           : MaintainOptions
  lastMaintainTicks : Int
  flowController    : FlowController
  sessions          : List MaintainedSession

namespace Maintain

/-- The constructor and `Start`.  The quotas become `int`s. -/
def init (t : NetType) (o : MaintainOptions) : Maintain where
  netType           := t
  clock             := 0
  options           := o
  lastMaintainTicks := 0
  flowController    :=
    ⟨⟨decide (o.sliceQuota t .read = -1), toInt32 (o.sliceQuota t .read)⟩,
      ⟨decide (o.sliceQuota t .write = -1), toInt32 (o.sliceQuota t .write)⟩⟩
  sessions          := []

def sliceQuota (s : Maintain) (d : Direction) : Int := s.options.sliceQuota s.netType d

/-- A call on the `k`th session. -/
def onSession (s : Maintain) (k : Nat)
    (f : MaintainedSession → FlowController → MaintainedSession × FlowController) : Maintain :=
  match s.sessions[k]? with
  | some session =>
    let (session, flowController) := f session s.flowController
    { s with sessions := s.sessions.set k session, flowController := flowController }
  | none         => s

/-- A server's controller, when its quota in one direction is another than it was. -/
def resetQuota (d : Direction) (quota quota' : Int) (f : FlowController) : FlowController :=
  if quota' ≠ quota then f.reset d (decide (quota' = -1)) (toInt32 quota') else f

def resetOptions (s : Maintain) (o : MaintainOptions) : Maintain :=
  let sessions :=
    if o.pendingLimit ≠ s.options.pendingLimit then
      s.sessions.map fun session => { session with maxPendingBufferSize := o.pendingLimit }
    else s.sessions
  let flowController :=
    match s.netType with
    | .server =>
      resetQuota .write (s.sliceQuota .write) (o.sliceQuota s.netType .write)
        (resetQuota .read (s.sliceQuota .read) (o.sliceQuota s.netType .read) s.flowController)
    | .client => s.flowController
  { s with options := o, sessions := sessions, flowController := flowController }

/-- The keep-alive loop. -/
def keepAlive (s : Maintain) (nowTicks : Int) : Maintain :=
  { s with sessions := s.sessions.map fun session =>
      if session.status = .closed then session
      else if nowTicks - session.lastRwTicks ≥ s.options.keepAliveTicks then { session with status := .closed }
      else session.resetTicks nowTicks false }

/-- The sessions without quota, sorted. -/
def triggerList (s : Maintain) (d : Direction) : List (FlowControlItem Nat) :=
  let items := s.sessions.zipIdx.filterMap fun (session, k) =>
    if session.status ≠ .closed ∧ session.token d ≤ 0 then some ⟨session.token d, k⟩ else none
  items.mergeSort fun a b => !decide (b.lt a)

def trigger (d : Direction) (s : Maintain) (item : FlowControlItem Nat) : Maintain :=
  s.onSession item.session (MaintainedSession.trigger s.netType d)

def maintainQuota (d : Direction) (s : Maintain) : Maintain :=
  if s.sliceQuota d ≠ -1 then
    let s := { s with flowController := s.flowController.recharge d (toInt32 (s.sliceQuota d)) }
    (s.triggerList d).foldl (trigger d) s
  else s

def timerMaintain (s : Maintain) (nowTicks : Int) : Maintain :=
  let s' :=
    if s.options.keepAliveTicks ≠ -1 ∨ s.sliceQuota .read ≠ -1 ∨ s.sliceQuota .write ≠ -1 then
      let s := if s.options.keepAliveTicks ≠ -1 then s.keepAlive nowTicks else s
      maintainQuota .write (maintainQuota .read s)
    else s
  { s' with lastMaintainTicks := nowTicks }

/-- `OnAccepted` of a server, `FindOrCreateStream` of a client. -/
def opened (s : Maintain) : Maintain :=
  { s with sessions := s.sessions ++
      [{ ticks := s.clock, lastRwTicks := s.clock, maxPendingBufferSize := s.options.pendingLimit }] }

def step (s : Maintain) : MaintainEvent → Maintain
  | .elapse seconds   => { s with clock := s.clock + seconds }
  | .resetOptions o   => s.resetOptions o
  | .timerMaintain    => s.timerMaintain s.clock
  | .opened           => s.opened
  | .call k c         => s.onSession k (c.run s.netType s.lastMaintainTicks)
  | .closed k         => s.onSession k fun session f => ({ session with status := .closed }, f)

/-! ## What a step leaves alone -/

variable {s : Maintain} {d d' : Direction} {k : Nat}
  {g : MaintainedSession → FlowController → MaintainedSession × FlowController}

theorem onSession_cases :
    s.sessions[k]? = none ∧ s.onSession k g = s ∨
    ∃ session, s.sessions[k]? = some session ∧ s.onSession k g
      = { s with sessions := s.sessions.set k (g session s.flowController).1, flowController := (g session s.flowController).2 } := by
  unfold onSession
  cases hk : s.sessions[k]? with
  | none         => exact .inl ⟨rfl, rfl⟩
  | some session => exact .inr ⟨session, rfl, rfl⟩

theorem mem_onSession {session' : MaintainedSession} (hmem : session' ∈ (s.onSession k g).sessions) :
    session' ∈ s.sessions ∨
    ∃ session, s.sessions[k]? = some session ∧ session' = (g session s.flowController).1 := by
  rcases onSession_cases (s := s) (k := k) (g := g) with ⟨_, hsame⟩ | ⟨session, hk, hset⟩
  · rw [hsame] at hmem
    exact .inl hmem
  · rw [hset] at hmem
    exact (List.mem_or_eq_of_mem_set hmem).imp_right fun heq => ⟨session, hk, heq⟩

@[simp] theorem onSession_options : (s.onSession k g).options = s.options := by
  rcases onSession_cases (s := s) (k := k) (g := g) with ⟨_, hsame⟩ | ⟨session, hk, hset⟩
  · rw [hsame]
  · rw [hset]

@[simp] theorem onSession_clock : (s.onSession k g).clock = s.clock := by
  rcases onSession_cases (s := s) (k := k) (g := g) with ⟨_, hsame⟩ | ⟨session, hk, hset⟩
  · rw [hsame]
  · rw [hset]

@[simp] theorem onSession_lastMaintainTicks : (s.onSession k g).lastMaintainTicks = s.lastMaintainTicks := by
  rcases onSession_cases (s := s) (k := k) (g := g) with ⟨_, hsame⟩ | ⟨session, hk, hset⟩
  · rw [hsame]
  · rw [hset]

@[simp] theorem onSession_netType : (s.onSession k g).netType = s.netType := by
  rcases onSession_cases (s := s) (k := k) (g := g) with ⟨_, hsame⟩ | ⟨session, hk, hset⟩
  · rw [hsame]
  · rw [hset]

theorem foldl_trigger_same : ∀ (items : List (FlowControlItem Nat)) (s : Maintain),
    (items.foldl (Maintain.trigger d) s).options = s.options ∧ (items.foldl (Maintain.trigger d) s).netType = s.netType ∧
    (items.foldl (Maintain.trigger d) s).clock = s.clock
  | [],            s => ⟨rfl, rfl, rfl⟩
  | item :: items, s => by
    have hrec := foldl_trigger_same items (Maintain.trigger d s item)
    simpa [Maintain.trigger] using hrec

@[simp] theorem maintainQuota_options : (s.maintainQuota d).options = s.options := by
  unfold maintainQuota
  split
  · exact (foldl_trigger_same _ _).1
  · rfl

@[simp] theorem maintainQuota_netType : (s.maintainQuota d).netType = s.netType := by
  unfold maintainQuota
  split
  · exact (foldl_trigger_same _ _).2.1
  · rfl

@[simp] theorem maintainQuota_clock : (s.maintainQuota d).clock = s.clock := by
  unfold maintainQuota
  split
  · exact (foldl_trigger_same _ _).2.2
  · rfl

@[simp] theorem sliceQuota_maintainQuota : (s.maintainQuota d).sliceQuota d' = s.sliceQuota d' := by
  simp [sliceQuota]

/-- What every call on a session keeps, and a recharge too. -/
theorem maintainQuota_inv {P : Maintain → Prop} (hs : P s)
    (hrecharge : ∀ q, P { s with flowController := s.flowController.recharge d' q })
    (htrigger : ∀ s item, P s → P (Maintain.trigger d' s item)) : P (s.maintainQuota d') := by
  unfold maintainQuota
  split
  · apply List.foldlRecOn (motive := P)
    · exact hrecharge _
    · exact fun s hs item _ => htrigger s item hs
  · exact hs

/-- What the triggers of a direction leave of every session, and of the other direction. -/
theorem maintainQuota_map {β : Type} {v : MaintainedSession → β}
    (hv : ∀ t session f, v (MaintainedSession.trigger t d session f).1 = v session) :
    (s.maintainQuota d).sessions.map v = s.sessions.map v := by
  apply maintainQuota_inv (P := fun s' => s'.sessions.map v = s.sessions.map v) rfl
  · exact fun _ => rfl
  · intro s' item hs'
    rw [← hs']
    unfold Maintain.trigger
    rcases onSession_cases (s := s') (k := item.session) (g := MaintainedSession.trigger s'.netType d) with
      ⟨_, hsame⟩ | ⟨session, hk, hset⟩
    · rw [hsame]
    · rw [hset]
      simp only [List.map_set, hv]
      apply List.ext_getElem?
      intro j
      by_cases hj : item.session = j
      · subst hj
        obtain ⟨hlt, rfl⟩ := List.getElem?_eq_some_iff.1 hk
        simp [hlt]
      · rw [List.getElem?_set_ne hj]

/-- The first test of `TimerMaintain` decides nothing that the others do not. -/
theorem timerMaintain_eq (now : Int) : s.timerMaintain now =
    { maintainQuota .write (maintainQuota .read (if s.options.keepAliveTicks ≠ -1 then s.keepAlive now else s)) with
      lastMaintainTicks := now } := by
  unfold timerMaintain
  split
  · rfl
  · next hnone =>
    simp only [not_or, not_not] at hnone
    obtain ⟨hkeep, hin, hout⟩ := hnone
    simp [hkeep, maintainQuota, hin, hout]

/-- `ResetOptions` changes the limit of what may be pending and nothing else of a session. -/
theorem mem_resetOptions {o : MaintainOptions} {session' : MaintainedSession}
    (hmem : session' ∈ (s.resetOptions o).sessions) :
    ∃ session ∈ s.sessions, session' = { session with maxPendingBufferSize := session'.maxPendingBufferSize } := by
  unfold resetOptions at hmem
  dsimp only at hmem
  split at hmem
  · obtain ⟨session, hold, rfl⟩ := List.mem_map.1 hmem
    exact ⟨session, hold, rfl⟩
  · exact ⟨session', hmem, rfl⟩

end Maintain

end Gb
