import GbServer.Maintain
/-!
# QuotaWidth — the quotas of a server in `int`

`FlowController` counts in `int`, and what it is given is converted to `int`: the slice quotas of `server.cpp`, which are
`int64_t`, and the sizes of the buffers and messages (`try_start_receive`, `try_start_send`).  Every function here has the
conversion for a parameter: `toInt32` is the source's, and `id` gives the values that are meant.  The two agree in a run
exactly if the options are below 20480 MB/s, every message is below 2^31 bytes, and no acquire is turned away at the least
`int` (`run_exact_iff`).

An update that leaves the range of `int` is undefined in the source; here it wraps.
-/
namespace Gb

open Run (Along along_iff)

namespace Quota

/-- `recharge_read_quota` and `recharge_write_quota`. -/
def rechargeBy (conv : Int → Int) (c : Quota) (quota : Int) : Quota :=
  if c.noLimit then c else { c with quota := conv (if c.quota > 0 then conv quota else c.quota + conv quota) }

/-- `acquire_read_quota` and `acquire_write_quota`. -/
def acquireBy (conv : Int → Int) (c : Quota) (quota : Int) : Int × Quota :=
  if c.noLimit then (1, c)
  else (c.quota, { c with quota := conv (if c.quota > 0 then c.quota - conv quota else c.quota - 1) })

theorem rechargeBy_id (c : Quota) (quota : Int) : c.rechargeBy id quota = c.recharge quota := rfl

theorem acquireBy_id (c : Quota) (quota : Int) : c.acquireBy id quota = c.acquire quota := rfl

end Quota

def FlowController.update (f : FlowController) (d : Direction) (c : Quota) : FlowController :=
  match d with
  | .read  => { f with read := c }
  | .write => { f with write := c }

@[simp] theorem FlowController.update_side (f : FlowController) (d d' : Direction) (c : Quota) :
    (f.update d c).side d' = if d' = d then c else f.side d' := by
  cases d <;> cases d' <;> rfl

/-- What happens to the controller of a server.  A buffer to receive into is a block of the pool, and `TotalCount` of a
message is an `int64_t`. -/
inductive QuotaEvent
  | resetOptions (options : MaintainOptions)
  | recharge (d : Direction)
  | receive (receivingSize : Fin (TRAN_BUF_BLOCK_BASE_SIZE <<< TRAN_BUF_BLOCK_MAX_FACTOR))
  | send (totalCount : Fin (2 ^ 63))

structure QuotaServer where
  options        : MaintainOptions
  flowController : FlowController

namespace QuotaServer

/-- `ServerImpl::ServerImpl` and `Start`. -/
def init (conv : Int → Int) (o : MaintainOptions) : QuotaServer where
  options        := o
  flowController :=
    ⟨⟨decide (o.sliceQuota .server .read = -1), conv (o.sliceQuota .server .read)⟩,
      ⟨decide (o.sliceQuota .server .write = -1), conv (o.sliceQuota .server .write)⟩⟩

/-- `ResetOptions`, for one direction. -/
def resetQuota (conv : Int → Int) (s : QuotaServer) (o : MaintainOptions) (d : Direction) (f : FlowController) :
    FlowController :=
  let quota := o.sliceQuota .server d
  if quota ≠ s.options.sliceQuota .server d then f.update d ⟨decide (quota = -1), conv quota⟩ else f

def acquire (conv : Int → Int) (s : QuotaServer) (d : Direction) (quota : Int) : QuotaServer :=
  { s with flowController := s.flowController.update d ((s.flowController.side d).acquireBy conv quota).2 }

def step (conv : Int → Int) (s : QuotaServer) : QuotaEvent → QuotaServer
  | .resetOptions o  =>
    { options := o, flowController := s.resetQuota conv o .write (s.resetQuota conv o .read s.flowController) }
  | .recharge d      =>
    let quota := s.options.sliceQuota .server d
    -- `TimerMaintain`
    if quota ≠ -1 then
      { s with flowController := s.flowController.update d ((s.flowController.side d).rechargeBy conv quota) }
    else s
  | .receive size    => s.acquire conv .read size
  | .send totalCount => s.acquire conv .write totalCount

/-- The values that an event converts. -/
def converted (conv : Int → Int) (s : QuotaServer) : QuotaEvent → List Int
  | .resetOptions o  =>
    ([.read, .write].filter fun d => o.sliceQuota .server d ≠ s.options.sliceQuota .server d).map fun d =>
      conv (o.sliceQuota .server d)
  | .recharge d      => if s.options.sliceQuota .server d ≠ -1 then [conv (s.options.sliceQuota .server d)] else []
  | .receive size    => [conv size]
  | .send totalCount => [conv totalCount]

def counters (s : QuotaServer) : List Int := [(s.flowController.side .read).quota, (s.flowController.side .write).quota]

/-! ## Values that are exact -/

/-- The values that are meant, beside those of the source. -/
def stepBoth (s : QuotaServer × QuotaServer) (event : QuotaEvent) : QuotaServer × QuotaServer :=
  (s.1.step id event, s.2.step toInt32 event)

/-- What an event converts and the counters after it are what is meant. -/
def ExactStep (s : QuotaServer × QuotaServer) (event : QuotaEvent) : Prop :=
  s.2.converted toInt32 event = s.1.converted id event ∧ (stepBoth s event).2.counters = (stepBoth s event).1.counters

/-- All values of a run are what is meant. -/
def Exact (o : MaintainOptions) (events : List QuotaEvent) : Prop :=
  (init toInt32 o).counters = (init id o).counters ∧ Along stepBoth ExactStep (init id o, init toInt32 o) events

/-- A limit that is to be kept is below 20480 MB/s. -/
def Moderate (o : MaintainOptions) : Prop := ∀ d, o.maxThroughput d < 20480

/-- Nobody is turned away at the least `int`. -/
def CanCount (s : QuotaServer) (d : Direction) : Prop :=
  (s.flowController.side d).noLimit = false → (s.flowController.side d).quota ≠ -2 ^ 31

/-- The options of an event, the size of its message and the counter before it. -/
def Fits (s : QuotaServer) : QuotaEvent → Prop
  | .resetOptions o  => Moderate o
  | .recharge _      => True
  | .receive _       => s.CanCount .read
  | .send totalCount => (totalCount : Int) < 2 ^ 31 ∧ s.CanCount .write

end QuotaServer

/-! ## Ranges -/

theorem toInt32_ge (x : Int) : -2 ^ 31 ≤ toInt32 x := by
  unfold toInt32
  dsimp only
  split <;> omega

theorem toInt32_eq_iff {x : Int} : toInt32 x = x ↔ -2 ^ 31 ≤ x ∧ x < 2 ^ 31 :=
  ⟨fun h => h ▸ ⟨toInt32_ge x, toInt32_lt x⟩, fun h => toInt32_of_range x h.1 h.2⟩

theorem MaintainOptions.sliceQuota_server (o : MaintainOptions) (d : Direction) :
    o.sliceQuota .server d = if o.maxThroughput d = -1 then -1 else max 0 (o.maxThroughput d * 1024 * 1024) / 10 := rfl

theorem MaintainOptions.sliceQuota_ge (o : MaintainOptions) (d : Direction) :
    -1 ≤ o.sliceQuota .server d ∧ (o.sliceQuota .server d ≠ -1 → 0 ≤ o.sliceQuota .server d) := by
  rw [o.sliceQuota_server]
  split <;> omega

/-- A slice of a limit. -/
theorem MaintainOptions.sliceQuota_lt_iff (o : MaintainOptions) (d : Direction) :
    o.sliceQuota .server d < 2 ^ 31 ↔ o.maxThroughput d < 20480 := by
  rw [o.sliceQuota_server]
  split <;> omega

theorem MaintainOptions.toInt32_sliceQuota (o : MaintainOptions) (d : Direction) :
    toInt32 (o.sliceQuota .server d) = o.sliceQuota .server d ↔ o.maxThroughput d < 20480 := by
  have hge := (o.sliceQuota_ge d).1
  rw [toInt32_eq_iff, o.sliceQuota_lt_iff]
  exact and_iff_right (by omega)

namespace Quota

/-- The counter is an `int`. -/
def InRange (c : Quota) : Prop := -2 ^ 31 ≤ c.quota ∧ c.quota < 2 ^ 31

theorem rechargeBy_toInt32 {c : Quota} (hc : c.InRange) {quota : Int} (hge : 0 ≤ quota) (hlt : quota < 2 ^ 31) :
    c.rechargeBy toInt32 quota = c.recharge quota ∧ (c.recharge quota).InRange := by
  obtain ⟨hlow, hhigh⟩ := hc
  have hquota := toInt32_of_range quota (by omega) hlt
  unfold rechargeBy recharge InRange
  rw [hquota]
  cases hlimit : c.noLimit with
  | true  =>
    simp only [if_true, true_and]
    exact ⟨hlow, hhigh⟩
  | false =>
    simp only [Bool.false_eq_true, if_false]
    by_cases hpos : c.quota > 0
    · simp only [if_pos hpos, hquota, true_and]
      exact ⟨by omega, hlt⟩
    · simp only [if_neg hpos]
      rw [toInt32_of_range _ (by omega) (by omega)]
      simp only [true_and]
      exact ⟨by omega, by omega⟩

/-- An acquire is exact where the counter can be counted down. -/
theorem acquireBy_toInt32 {c : Quota} (hc : c.InRange) {quota : Int} (hge : 0 ≤ quota) (hlt : quota < 2 ^ 31) :
    ((c.acquireBy toInt32 quota).2.quota = (c.acquire quota).2.quota ↔ (c.noLimit = false → c.quota ≠ -2 ^ 31)) ∧
      ((c.noLimit = false → c.quota ≠ -2 ^ 31) →
        (c.acquireBy toInt32 quota).2 = (c.acquire quota).2 ∧ (c.acquire quota).2.InRange) := by
  obtain ⟨hlow, hhigh⟩ := hc
  have hquota := toInt32_of_range quota (by omega) hlt
  unfold acquireBy acquire InRange
  rw [hquota]
  cases hlimit : c.noLimit with
  | true  =>
    simp only [if_true, true_and]
    exact ⟨by simp, fun _ => ⟨hlow, hhigh⟩⟩
  | false =>
    simp only [Bool.false_eq_true, if_false, forall_const]
    by_cases hpos : c.quota > 0
    · simp only [if_pos hpos]
      rw [toInt32_of_range _ (by omega) (by omega)]
      simp only [true_and]
      exact ⟨iff_of_true trivial (by omega), fun _ => ⟨by omega, by omega⟩⟩
    · simp only [if_neg hpos]
      rw [toInt32_eq_iff]
      refine ⟨by omega, fun hne => ?_⟩
      rw [toInt32_of_range _ (by omega) (by omega)]
      simp only [true_and]
      exact ⟨by omega, by omega⟩

end Quota

namespace QuotaServer

/-- What the source's values are while they are exact. -/
structure Kept (s : QuotaServer) : Prop where
  moderate : Moderate s.options
  range    : ∀ d, (s.flowController.side d).InRange

variable {s : QuotaServer}

theorem counters_eq_iff {s t : QuotaServer} :
    s.counters = t.counters ↔ ∀ d, (s.flowController.side d).quota = (t.flowController.side d).quota := by
  unfold counters
  simp only [List.cons.injEq, and_true]
  exact ⟨fun h d => by cases d <;> simp [h], fun h => ⟨h .read, h .write⟩⟩

theorem resetQuota_toInt32 {o : MaintainOptions} (ho : Moderate o) (d : Direction) (f : FlowController) :
    s.resetQuota toInt32 o d f = s.resetQuota id o d f := by
  simp only [resetQuota, (o.toInt32_sliceQuota d).2 (ho d), id]

theorem resetQuota_side (o : MaintainOptions) (d d' : Direction) (f : FlowController) :
    (s.resetQuota id o d f).side d' = f.side d' ∨
      (s.resetQuota id o d f).side d' = ⟨decide (o.sliceQuota .server d' = -1), o.sliceQuota .server d'⟩ := by
  unfold resetQuota
  dsimp only
  split
  · rw [FlowController.update_side]
    split
    · rename_i hd
      exact .inr (hd ▸ rfl)
    · exact .inl rfl
  · exact .inl rfl

namespace Kept

theorem resetOptions (h : s.Kept) (o : MaintainOptions) :
    (ExactStep (s, s) (.resetOptions o) ↔ Moderate o) ∧
      (Moderate o → s.step toInt32 (.resetOptions o) = s.step id (.resetOptions o) ∧
        (s.step id (.resetOptions o)).Kept) := by
  have hsame : Moderate o → s.step toInt32 (.resetOptions o) = s.step id (.resetOptions o) := by
    intro ho
    simp only [step, resetQuota_toInt32 ho]
  constructor
  · constructor
    · rintro ⟨hconverted, _⟩ d
      by_cases hchanged : o.sliceQuota .server d ≠ s.options.sliceQuota .server d
      · have hmem : d ∈ [Direction.read, .write].filter fun d =>
            o.sliceQuota .server d ≠ s.options.sliceQuota .server d := by
          cases d <;> simp [hchanged]
        exact (o.toInt32_sliceQuota d).1 (List.map_inj_left.1 hconverted d hmem)
      · rw [← o.sliceQuota_lt_iff, not_not.1 hchanged, s.options.sliceQuota_lt_iff]
        exact h.moderate d
    · intro ho
      refine ⟨List.map_congr_left fun d _ => (o.toInt32_sliceQuota d).2 (ho d), ?_⟩
      unfold stepBoth
      rw [hsame ho]
  · intro ho
    refine ⟨hsame ho, ho, fun d => ?_⟩
    have hquota : Quota.InRange ⟨decide (o.sliceQuota .server d = -1), o.sliceQuota .server d⟩ :=
      toInt32_eq_iff.1 ((o.toInt32_sliceQuota d).2 (ho d))
    dsimp only [step]
    rcases resetQuota_side (s := s) o .write d (s.resetQuota id o .read s.flowController) with hside | hside
    · rw [hside]
      rcases resetQuota_side (s := s) o .read d s.flowController with hside | hside
      · rw [hside]
        exact h.range d
      · rw [hside]
        exact hquota
    · rw [hside]
      exact hquota

theorem recharge (h : s.Kept) (d : Direction) :
    ExactStep (s, s) (.recharge d) ∧ s.step toInt32 (.recharge d) = s.step id (.recharge d) ∧
      (s.step id (.recharge d)).Kept := by
  have hlt := (s.options.sliceQuota_lt_iff d).2 (h.moderate d)
  have hconv := (s.options.toInt32_sliceQuota d).2 (h.moderate d)
  by_cases hlimit : s.options.sliceQuota .server d ≠ -1
  · obtain ⟨hsame, hrange⟩ := Quota.rechargeBy_toInt32 (h.range d) ((s.options.sliceQuota_ge d).2 hlimit) hlt
    rw [← Quota.rechargeBy_id] at hsame hrange
    have hstep : s.step toInt32 (.recharge d) = s.step id (.recharge d) := by
      simp only [step, if_pos hlimit, hsame]
    refine ⟨⟨?_, ?_⟩, hstep, ?_, fun d' => ?_⟩
    · simp only [converted, hconv, id]
    · unfold stepBoth
      rw [hstep]
    · simp only [step, if_pos hlimit]
      exact h.moderate
    · simp only [step, if_pos hlimit, FlowController.update_side]
      split
      · exact hrange
      · exact h.range d'
  · have hstep : ∀ conv, s.step conv (.recharge d) = s := fun conv => by simp only [step, if_neg hlimit]
    refine ⟨⟨?_, ?_⟩, ?_, ?_⟩
    · simp only [converted, if_neg hlimit]
    · unfold stepBoth
      rw [hstep, hstep]
    · rw [hstep, hstep]
    · rwa [hstep]

theorem acquire (h : s.Kept) (d : Direction) {quota : Int} (hge : 0 ≤ quota) (hlt : quota < 2 ^ 31) :
    ((s.acquire toInt32 d quota).counters = (s.acquire id d quota).counters ↔ s.CanCount d) ∧
      (s.CanCount d → s.acquire toInt32 d quota = s.acquire id d quota ∧ (s.acquire id d quota).Kept) := by
  obtain ⟨hiff, hsame⟩ := Quota.acquireBy_toInt32 (h.range d) hge hlt
  rw [← Quota.acquireBy_id] at hiff hsame
  constructor
  · rw [counters_eq_iff]
    unfold CanCount
    rw [← hiff]
    simp only [QuotaServer.acquire, FlowController.update_side]
    constructor
    · intro hcounters
      simpa using hcounters d
    · intro hquota d'
      split
      · exact hquota
      · rfl
  · intro hcount
    obtain ⟨heq, hrange⟩ := hsame hcount
    refine ⟨by simp only [QuotaServer.acquire, heq], h.moderate, fun d' => ?_⟩
    simp only [QuotaServer.acquire, FlowController.update_side]
    split
    · exact hrange
    · exact h.range d'

/-- **From values that are exact, a step keeps them exact if and only if the event fits.** -/
theorem exactStep_iff (h : s.Kept) (event : QuotaEvent) :
    (ExactStep (s, s) event ↔ s.Fits event) ∧
      (s.Fits event → s.step toInt32 event = s.step id event ∧ (s.step id event).Kept) := by
  cases event with
  | resetOptions o  => exact h.resetOptions o
  | recharge d      => exact ⟨iff_of_true (h.recharge d).1 trivial, fun _ => (h.recharge d).2⟩
  | receive size    =>
    have hsize : (size : Int) < 2 ^ 31 := by
      have hlt := size.isLt
      simp only [TRAN_BUF_BLOCK_BASE_SIZE, TRAN_BUF_BLOCK_MAX_FACTOR] at hlt
      omega
    obtain ⟨hiff, hsame⟩ := h.acquire .read (Int.natCast_nonneg size) hsize
    refine ⟨?_, hsame⟩
    have hconv : toInt32 size = size := toInt32_of_range _ (by omega) hsize
    unfold ExactStep
    simp only [converted, hconv, id, true_and]
    exact hiff
  | send totalCount =>
    have hconv : toInt32 totalCount = totalCount ↔ (totalCount : Int) < 2 ^ 31 := by
      rw [toInt32_eq_iff]
      exact and_iff_right (by omega)
    constructor
    · unfold ExactStep
      simp only [converted, id, List.cons.injEq, and_true, hconv]
      exact and_congr_right fun hlt => (h.acquire .write (Int.natCast_nonneg totalCount) hlt).1
    · rintro ⟨hlt, hcount⟩
      exact (h.acquire .write (Int.natCast_nonneg totalCount) hlt).2 hcount

end Kept

/-- **In every run, all values are what is meant if and only if the options that are set are below 20480 MB/s, every message
has less than 2^31 bytes, and nobody is turned away where the counter is at -2^31.** -/
theorem run_exact_iff (o : MaintainOptions) (events : List QuotaEvent) :
    Exact o events ↔ Moderate o ∧ Along (step toInt32) Fits (init toInt32 o) events := by
  have hinit : (init toInt32 o).counters = (init id o).counters ↔ Moderate o := by
    rw [counters_eq_iff]
    refine forall_congr' fun d => ?_
    rw [← o.toInt32_sliceQuota d]
    cases d <;> rfl
  unfold Exact
  rw [hinit]
  refine and_congr_right fun ho => ?_
  have hstart : init id o = init toInt32 o := by
    simp only [init, (o.toInt32_sliceQuota _).2 (ho _), id]
  rw [hstart]
  let rel : QuotaServer × QuotaServer → QuotaServer → Prop := fun both s => both = (s, s) ∧ Kept s
  have hrel : rel (init toInt32 o, init toInt32 o) (init toInt32 o) := by
    refine ⟨rfl, ho, fun d => ?_⟩
    have hrange := toInt32_eq_iff.1 ((o.toInt32_sliceQuota d).2 (ho d))
    rw [← (o.toInt32_sliceQuota d).2 (ho d)] at hrange
    cases d <;> exact hrange
  refine along_iff ?_ ?_ events hrel
  · rintro _ s event ⟨rfl, h⟩
    exact (h.exactStep_iff event).1
  · rintro _ s event ⟨rfl, h⟩ hfits
    obtain ⟨hsame, hkept⟩ := (h.exactStep_iff event).2 hfits
    rw [hsame]
    refine ⟨?_, hkept⟩
    unfold stepBoth
    rw [hsame]

/-- A limit of 20480 MB/s is -2147483648 bytes a slice. -/
theorem not_run_exact : ¬∀ (o : MaintainOptions) (events : List QuotaEvent), Exact o events := by
  intro h
  have hcounters := (h { maxThroughputIn := 20480 } []).1
  exact absurd hcounters (by decide)

end QuotaServer

end Gb
