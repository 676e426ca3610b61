import GbServer.Lib.Tally
import GbServer.Maintain
/-!
# QuotaRelease — sessions without quota, and limits that change

A session that got no quota waits for `TimerMaintain` to trigger it.  `TimerMaintain` triggers the sessions of a
direction that has a limit: where the limit was lifted while a session waited, nobody triggers it any more.  A client's
`ResetOptions` does not reach its controller at all.

`Asks` is what a session's calls may do to its token and the controller; `run_released` is about runs in which no limit
is lifted while a session waits for it, and a client lifts none.
-/
namespace Gb

open Run (Along)
open Tally

/-- In limited mode with nothing left. -/
def Quota.Empty (c : Quota) : Prop := c.noLimit = false ∧ c.quota ≤ 0

namespace Quota

variable {c : Quota}

theorem Empty.acquire (h : c.Empty) (amount : Int) : (c.acquire amount).2.Empty := by
  obtain ⟨hlimited, hle⟩ := h
  unfold Empty Quota.acquire
  simp [hlimited]
  omega

/-- Whoever gets nothing leaves nothing. -/
theorem acquire_spec (c : Quota) (amount : Int) : 0 < (c.acquire amount).1 ∨ (c.acquire amount).2.Empty := by
  unfold Empty Quota.acquire
  by_cases hno : c.noLimit
  · simp [hno]
  · by_cases hpos : 0 < c.quota
    · simp [hno, hpos]
    · simp [hno]
      omega

/-- While there is a budget, an acquire gets through and takes no more than it asks for. -/
theorem acquire_serves (hpos : 0 < c.quota) (amount : Int) :
    0 < (c.acquire amount).1 ∧ c.quota - amount.toNat ≤ (c.acquire amount).2.quota := by
  unfold Quota.acquire
  by_cases hno : c.noLimit
  · simp [hno]
  · simp [hno, hpos]
    omega

end Quota

namespace MaintainedSession

/-- What a session's call may do to its token and the controller: whoever ends without quota found the controller
empty, or had none. -/
structure Asks (d : Direction) (s : MaintainedSession) (f : FlowController) (r : MaintainedSession × FlowController) :
    Prop where
  status  : s.status = .closed → r.1.status = .closed
  noLimit : (r.2.side d).noLimit = (f.side d).noLimit
  empty   : (f.side d).Empty → (r.2.side d).Empty
  token   : r.1.token d = s.token d ∨ 0 < r.1.token d ∨ (r.2.side d).Empty

variable {t : NetType} {d d' : Direction} {s : MaintainedSession} {f : FlowController}

namespace Asks

/-- The session has another value in a field that does not matter here. -/
theorem of_eq {s' : MaintainedSession} (hstatus : s.status = .closed → s'.status = .closed)
    (htoken : s'.token d = s.token d ∨ 0 < s'.token d) : Asks d s f (s', f) where
  status  := hstatus
  noLimit := rfl
  empty   := id
  token   := htoken.imp_right .inl

theorem refl : Asks d s f (s, f) := of_eq id (.inl rfl)

theorem trans {r q : MaintainedSession × FlowController} (h : Asks d s f r) (h' : Asks d r.1 r.2 q) : Asks d s f q where
  status  := h'.status ∘ h.status
  noLimit := h'.noLimit.trans h.noLimit
  empty   := h'.empty ∘ h.empty
  token   := by
    rcases h'.token with heq | hpos | hempty
    · rcases h.token with heq' | hpos | hempty
      · exact .inl (heq.trans heq')
      · exact .inr (.inl (heq ▸ hpos))
      · exact .inr (.inr (h'.empty hempty))
    · exact .inr (.inl hpos)
    · exact .inr (.inr hempty)

end Asks

theorem tryStartReceive_asks : Asks d s f (tryStartReceive t s f) := by
  unfold tryStartReceive
  split
  · exact .refl
  · cases d with
    | read  =>
      constructor
      case status  => exact id
      case noLimit => exact Quota.acquire_noLimit ..
      case empty   => exact fun h => h.acquire s.receivingSize
      case token   => exact .inr (f.read.acquire_spec s.receivingSize)
    | write => exact ⟨id, rfl, id, .inl rfl⟩

theorem tryStartSend_asks : Asks d s f (tryStartSend s f) := by
  unfold tryStartSend
  split
  · exact .refl
  · cases s.pendingCalls with
    | nil       => exact .refl
    | cons m ms =>
      have hspec := f.write.acquire_spec m.totalCount
      by_cases hle : (f.acquireWriteQuota m.totalCount).1 ≤ 0
      · simp only [hle]
        cases d with
        | read  => exact ⟨id, rfl, id, .inl rfl⟩
        | write => exact ⟨id, Quota.acquire_noLimit .., fun h => h.acquire m.totalCount, .inr hspec⟩
      · simp only [hle]
        cases d with
        | read  => exact ⟨id, rfl, id, .inl rfl⟩
        | write => exact ⟨id, Quota.acquire_noLimit .., fun h => h.acquire m.totalCount, .inr hspec⟩

theorem trigger_asks (d' : Direction) : Asks d s f (trigger t d' s f) := by
  cases d' with
  | read  =>
    have hset : Asks d s f ({ s with readQuotaToken := 1 }, f) := .of_eq id (by cases d <;> simp [token])
    exact hset.trans tryStartReceive_asks
  | write =>
    have hset : Asks d s f ({ s with writeQuotaToken := 1 }, f) := .of_eq id (by cases d <;> simp [token])
    exact hset.trans tryStartSend_asks

/-- Whoever was triggered has quota, or the controller has none. -/
theorem trigger_token : 0 < (trigger t d s f).1.token d ∨ ((trigger t d s f).2.side d).Empty := by
  cases d with
  | read  =>
    have htry := (tryStartReceive_asks (t := t) (d := .read) (s := { s with readQuotaToken := 1 }) (f := f)).token
    rcases htry with heq | hor
    · left
      rw [show (trigger t .read s f).1.token .read = 1 from heq]
      decide
    · exact hor
  | write =>
    have htry := (tryStartSend_asks (d := .write) (s := { s with writeQuotaToken := 1 }) (f := f)).token
    rcases htry with heq | hor
    · left
      rw [show (trigger t .write s f).1.token .write = 1 from heq]
      decide
    · exact hor

theorem run_asks (maintained : Int) (c : SessionCall) : Asks d s f (c.run t maintained s f) := by
  cases c with
  | setSocketConnected receivingSize =>
    simp only [SessionCall.run, setSocketConnected]
    split
    · next hconnecting =>
      have hset : Asks d s f ({ s with status := .connected, lastRwTicks := s.ticks, receivingSize := receivingSize }, f) :=
        .of_eq (by simp [hconnecting]) (.inl (by cases d <;> rfl))
      exact (hset.trans (trigger_asks (t := t) .read)).trans (trigger_asks (t := t) .write)
    · exact .refl
  | onReadSome receivingSize         =>
    simp only [SessionCall.run, onReadSome]
    split
    · have hset : Asks d s f ({ s.stamp maintained with receiveTokenLocked := false, receivingSize := receivingSize }, f) :=
        .of_eq id (.inl (by cases d <;> rfl))
      exact hset.trans tryStartReceive_asks
    · exact .refl
  | onWriteSome last                 =>
    simp only [SessionCall.run, onWriteSome]
    split
    · split
      · have hset : Asks d s f ({ s.stamp maintained with sendTokenLocked := false }, f) :=
          .of_eq id (.inl (by cases d <;> rfl))
        have hsend := hset.trans tryStartSend_asks
        cases t with
        | server => exact hsend.trans tryStartReceive_asks
        | client => exact hsend
      · exact .of_eq id (.inl (by cases d <;> rfl))
    · exact .refl
  | asyncSendMessage m               =>
    simp only [SessionCall.run, asyncSendMessage]
    split
    · exact .refl
    · have hset : Asks d s f ({ s with pendingCalls := s.pendingCalls ++ [m] }, f) := .of_eq id (.inl (by cases d <;> rfl))
      exact hset.trans tryStartSend_asks

/-- What a session asks the controller for when it is triggered, at most. -/
def wanted (d : Direction) (s : MaintainedSession) : Nat :=
  match d with
  | .read  => s.receivingSize.toNat
  | .write => (s.pendingCalls.head?.map fun m => m.totalCount.toNat).getD 0

/-- What the triggers of the other direction leave. -/
def standing (d : Direction) (s : MaintainedSession) : NetStatus × Int × Nat := (s.status, s.token d, s.wanted d)

theorem trigger_other (hne : d ≠ d') :
    (trigger t d' s f).1.standing d = s.standing d ∧ (trigger t d' s f).2.side d = f.side d := by
  cases d <;> cases d'
  · exact absurd rfl hne
  · simp only [trigger, triggerSend, tryStartSend]
    split
    · exact ⟨rfl, rfl⟩
    · cases s.pendingCalls with
      | nil       => exact ⟨rfl, rfl⟩
      | cons m ms =>
        dsimp only
        split <;> exact ⟨rfl, rfl⟩
  · simp only [trigger, triggerReceive, tryStartReceive]
    split <;> exact ⟨rfl, rfl⟩
  · exact absurd rfl hne

/-- A session that is triggered while there is a budget gets its quota, and takes no more than it wants. -/
theorem trigger_serves (hpos : 0 < (f.side d).quota) : 0 < (trigger t d s f).1.token d ∧
    (f.side d).quota - s.wanted d ≤ ((trigger t d s f).2.side d).quota := by
  cases d with
  | read  =>
    have hacquire := f.read.acquire_serves hpos s.receivingSize
    simp only [trigger, triggerReceive, tryStartReceive]
    split
    · exact ⟨by simp [token], by simp⟩
    · exact hacquire
  | write =>
    simp only [trigger, triggerSend, tryStartSend]
    split
    · exact ⟨by simp [token], by simp⟩
    · cases hcalls : s.pendingCalls with
      | nil       => exact ⟨by simp [token], by simp⟩
      | cons m ms =>
        have hacquire := f.write.acquire_serves hpos m.totalCount
        have hgets : ¬(f.acquireWriteQuota m.totalCount).1 ≤ 0 := not_le.2 hacquire.1
        simp only [if_neg hgets]
        refine ⟨hacquire.1, ?_⟩
        simp only [wanted, hcalls, List.head?_cons, Option.map_some, Option.getD_some]
        exact hacquire.2

end MaintainedSession

namespace Maintain

open MaintainedSession (Asks)

variable {s : Maintain} {d : Direction}

/-- Whoever waits, waits for a controller that has nothing left. -/
def Released (d : Direction) (s : Maintain) : Prop :=
  ∀ session ∈ s.sessions, session.status ≠ .closed → session.token d ≤ 0 → (s.flowController.side d).Empty

/-- Nobody waits where there is no limit. -/
def Unblocked (d : Direction) (s : Maintain) : Prop :=
  (s.flowController.side d).noLimit = true → ∀ session ∈ s.sessions, session.status ≠ .closed → 0 < session.token d

/-! ## A call on one session -/

section OnSession

variable {k : Nat} {g : MaintainedSession → FlowController → MaintainedSession × FlowController}

theorem Released.onSession (h : s.Released d) (hasks : ∀ session f, Asks d session f (g session f)) :
    (s.onSession k g).Released d := by
  rcases onSession_cases (s := s) (k := k) (g := g) with ⟨_, hsame⟩ | ⟨session, hk, hset⟩
  · rwa [hsame]
  · rw [hset]
    have ha := hasks session s.flowController
    intro session' hmem hopen hwaits
    rcases List.mem_or_eq_of_mem_set hmem with hmem | rfl
    · exact ha.empty (h session' hmem hopen hwaits)
    · rcases ha.token with heq | hpos | hempty
      · have hopen' : session.status ≠ .closed := fun hclosed => hopen (ha.status hclosed)
        exact ha.empty (h session (List.mem_of_getElem? hk) hopen' (heq ▸ hwaits))
      · omega
      · exact hempty

theorem Unblocked.onSession (h : s.Unblocked d) (hasks : ∀ session f, Asks d session f (g session f)) :
    (s.onSession k g).Unblocked d := by
  rcases onSession_cases (s := s) (k := k) (g := g) with ⟨_, hsame⟩ | ⟨session, hk, hset⟩
  · rwa [hsame]
  · rw [hset]
    have ha := hasks session s.flowController
    intro hno session' hmem hopen
    have hno' : (s.flowController.side d).noLimit = true := ha.noLimit.symm.trans hno
    rcases List.mem_or_eq_of_mem_set hmem with hmem | rfl
    · exact h hno' session' hmem hopen
    · rcases ha.token with heq | hpos | hempty
      · have hopen' : session.status ≠ .closed := fun hclosed => hopen (ha.status hclosed)
        exact heq ▸ h hno' session (List.mem_of_getElem? hk) hopen'
      · exact hpos
      · exact absurd (hempty.1.symm.trans hno) (by decide)

theorem onSession_noLimit (hasks : ∀ session f, Asks d session f (g session f)) :
    ((s.onSession k g).flowController.side d).noLimit = (s.flowController.side d).noLimit := by
  rcases onSession_cases (s := s) (k := k) (g := g) with ⟨_, hsame⟩ | ⟨session, hk, hset⟩
  · rw [hsame]
  · rw [hset]
    exact (hasks session s.flowController).noLimit

end OnSession

/-! ## The maintenance -/

/-- Whoever waits is one of the sessions still to be triggered, or the controller has nothing left. -/
def Left (d : Direction) (ks : List Nat) (s : Maintain) : Prop :=
  ∀ k session, s.sessions[k]? = some session → session.status ≠ .closed → session.token d ≤ 0 →
    (s.flowController.side d).Empty ∨ k ∈ ks

theorem Left.trigger {item : FlowControlItem Nat} {ks : List Nat} (h : s.Left d (item.session :: ks)) :
    (trigger d s item).Left d ks := by
  unfold Maintain.trigger
  rcases onSession_cases (s := s) (k := item.session) (g := MaintainedSession.trigger s.netType d) with
    ⟨hnone, hsame⟩ | ⟨session, hk, hset⟩
  · rw [hsame]
    intro k session hsome hopen hwaits
    refine (h k session hsome hopen hwaits).imp_right fun hmem => ?_
    rcases List.mem_cons.1 hmem with rfl | hmem
    · simp [hnone] at hsome
    · exact hmem
  · rw [hset]
    intro k session' hsome hopen hwaits
    have ha : Asks d session s.flowController (MaintainedSession.trigger s.netType d session s.flowController) :=
      MaintainedSession.trigger_asks d
    by_cases hkey : item.session = k
    · subst hkey
      have hlt := (List.getElem?_eq_some_iff.1 hk).1
      simp only [List.getElem?_set_self hlt, Option.some.injEq] at hsome
      subst hsome
      rcases MaintainedSession.trigger_token (t := s.netType) (d := d) (s := session) (f := s.flowController) with
        hpos | hempty
      · omega
      · exact .inl hempty
    · simp only [List.getElem?_set_ne hkey] at hsome
      rcases h k session' hsome hopen hwaits with hempty | hmem
      · exact .inl (ha.empty hempty)
      · refine .inr ((List.mem_cons.1 hmem).resolve_left fun heq => hkey heq.symm)

theorem Left.foldl : ∀ (items : List (FlowControlItem Nat)) {s : Maintain}, s.Left d (items.map (·.session)) →
    (items.foldl (Maintain.trigger d) s).Left d []
  | [],         _, h => h
  | _ :: items, _, h => Left.foldl items h.trigger

theorem Left.released (h : s.Left d []) : s.Released d := by
  intro session hmem hopen hwaits
  obtain ⟨k, hk⟩ := List.mem_iff_getElem?.1 hmem
  simpa using h k session hk hopen hwaits

/-- Every session without quota is in the list. -/
theorem left_triggerList : s.Left d ((s.triggerList d).map (·.session)) := by
  intro k session hk hopen hwaits
  right
  apply List.mem_map.2
  refine ⟨⟨session.token d, k⟩, ?_, rfl⟩
  unfold triggerList
  simp only [List.mem_mergeSort, List.mem_filterMap]
  refine ⟨(session, k), List.mem_zipIdx_iff_getElem?.2 hk, ?_⟩
  simp [hopen, hwaits]

section MaintainQuota

variable {d' : Direction}

theorem maintainQuota_released (hlimit : s.sliceQuota d ≠ -1) : (s.maintainQuota d).Released d := by
  unfold maintainQuota
  rw [if_pos hlimit]
  exact (Left.foldl _ left_triggerList).released

theorem Released.maintainQuota (h : s.Released d) (hne : d ≠ d') : (s.maintainQuota d').Released d := by
  apply maintainQuota_inv h
  · intro q session hmem hopen hwaits
    simpa [hne] using h session hmem hopen hwaits
  · exact fun _ _ hs => hs.onSession fun _ _ => MaintainedSession.trigger_asks d'

theorem Unblocked.maintainQuota (h : s.Unblocked d) : (s.maintainQuota d').Unblocked d := by
  apply maintainQuota_inv h
  · intro q hno
    apply h
    by_cases hd : d = d'
    · subst hd
      simpa using hno
    · simpa [hd] using hno
  · exact fun _ _ hs => hs.onSession fun _ _ => MaintainedSession.trigger_asks d'

theorem maintainQuota_noLimit :
    ((s.maintainQuota d').flowController.side d).noLimit = (s.flowController.side d).noLimit := by
  apply maintainQuota_inv (P := fun s' => (s'.flowController.side d).noLimit = (s.flowController.side d).noLimit) rfl
  · intro q
    by_cases hd : d = d'
    · simp [hd]
    · simp [hd]
  · intro s' _ hs'
    rw [← hs']
    exact onSession_noLimit fun _ _ => MaintainedSession.trigger_asks d'

end MaintainQuota

/-- The keep-alive loop closes sessions and touches neither tokens nor the controller. -/
theorem mem_keepAlive {now : Int} {session' : MaintainedSession} (hmem : session' ∈ (s.keepAlive now).sessions) :
    ∃ session ∈ s.sessions, (session.status = .closed → session'.status = .closed) ∧ session'.token d = session.token d := by
  obtain ⟨session, hold, rfl⟩ := List.mem_map.1 hmem
  refine ⟨session, hold, ?_⟩
  by_cases hclosed : session.status = .closed
  · simp [hclosed]
  · simp only [if_neg hclosed]
    split
    · exact ⟨fun _ => rfl, by cases d <;> rfl⟩
    · exact ⟨id, by cases d <;> rfl⟩

theorem Unblocked.keepAlive (h : s.Unblocked d) (now : Int) : (s.keepAlive now).Unblocked d := by
  intro hno session' hmem hopen
  obtain ⟨session, hmem, hclosed, htoken⟩ := mem_keepAlive (d := d) hmem
  rw [htoken]
  exact h hno session hmem fun hc => hopen (hclosed hc)

/-! ## What a recharge serves -/

theorem neg_one_le_sliceQuota (o : MaintainOptions) (t : NetType) (d : Direction) : -1 ≤ o.sliceQuota t d := by
  unfold MaintainOptions.sliceQuota
  split
  · exact le_rfl
  · have hnonneg : 0 ≤ max 0 (o.maxThroughput d * 1024 * 1024) / sliceCount t := by
      apply Int.ediv_nonneg (le_max_left ..)
      cases t <;> decide
    omega

section Serves

open MaintainedSession (standing)

variable {d' : Direction}

/-- What the `k`th session wants. -/
def wantedAt (s : Maintain) (d : Direction) (k : Nat) : Nat := (s.sessions[k]?.map (MaintainedSession.wanted d)).getD 0

/-- What the open sessions that wait want together. -/
def wanted (s : Maintain) (d : Direction) : Nat :=
  tally (fun session => if session.status ≠ .closed ∧ session.token d ≤ 0 then session.wanted d else 0) s.sessions

/-- What there is to give when the slice of the options has been added. -/
def budget (s : Maintain) (d : Direction) : Int := ((s.flowController.side d).recharge (s.sliceQuota d)).quota

theorem foldl_trigger_quota : ∀ (items : List (FlowControlItem Nat)) {s : Maintain}, (items.map (·.session)).Nodup →
    (tally (fun item => s.wantedAt d item.session) items : Int) < (s.flowController.side d).quota →
    0 < ((items.foldl (Maintain.trigger d) s).flowController.side d).quota
  | [],            s, _,      hlt => by simpa using hlt
  | item :: items, s, hnodup, hlt => by
    obtain ⟨hfresh, hnodup⟩ := List.nodup_cons.1 hnodup
    rw [tally_cons] at hlt
    have hothers : tally (fun other => (trigger d s item).wantedAt d other.session) items =
        tally (fun other => s.wantedAt d other.session) items := by
      unfold tally
      congr 1
      apply List.map_congr_left
      intro other hother
      have hne : item.session ≠ other.session := fun heq => hfresh (List.mem_map.2 ⟨other, hother, heq.symm⟩)
      unfold wantedAt Maintain.trigger
      rcases onSession_cases (s := s) (k := item.session) (g := MaintainedSession.trigger s.netType d) with
        ⟨_, hsame⟩ | ⟨session, hk, hset⟩
      · rw [hsame]
      · rw [hset, List.getElem?_set_ne hne]
    apply foldl_trigger_quota items hnodup
    rw [hothers]
    unfold Maintain.trigger
    rcases onSession_cases (s := s) (k := item.session) (g := MaintainedSession.trigger s.netType d) with
      ⟨_, hsame⟩ | ⟨session, hk, hset⟩
    · rw [hsame]
      omega
    · have hserves := (MaintainedSession.trigger_serves (t := s.netType) (d := d) (s := session) (f := s.flowController)
        (by omega)).2
      rw [hset]
      simp only [wantedAt, hk, Option.map_some, Option.getD_some] at hlt ⊢
      omega

theorem nodup_triggerList : ((s.triggerList d).map (·.session)).Nodup := by
  unfold triggerList
  refine ((List.mergeSort_perm _ _).map _).nodup_iff.2 ?_
  rw [List.Nodup, List.pairwise_map, List.pairwise_filterMap]
  have hkeys : (s.sessions.zipIdx.map Prod.snd).Nodup := by
    rw [List.zipIdx_map_snd]
    exact List.nodup_range'
  rw [List.Nodup, List.pairwise_map] at hkeys
  refine hkeys.imp ?_
  intro p q hne item hitem item' hitem'
  simp only [Option.ite_none_right_eq_some, Option.some.injEq] at hitem hitem'
  rw [← hitem.2, ← hitem'.2]
  exact hne

/-- The sessions in the list are those that wait. -/
theorem tally_triggerList : tally (fun item => s.wantedAt d item.session) (s.triggerList d) = s.wanted d := by
  unfold triggerList
  have hfst : tally (fun p : MaintainedSession × Nat => if p.1.status ≠ .closed ∧ p.1.token d ≤ 0 then p.1.wanted d else 0)
      s.sessions.zipIdx = s.wanted d := by
    conv_rhs => rw [wanted, tally, ← List.zipIdx_map_fst 0 s.sessions, List.map_map]
    rfl
  rw [tally, ((List.mergeSort_perm _ _).map _).sum_eq, ← tally, tally_filterMap, ← hfst]
  unfold tally
  congr 1
  apply List.map_congr_left
  rintro ⟨session, k⟩ hmem
  have hk := List.mem_zipIdx_iff_getElem?.1 hmem
  by_cases hwaits : session.status ≠ .closed ∧ session.token d ≤ 0
  · simp [hwaits, wantedAt, hk]
  · simp [if_neg hwaits]

theorem toInt32_sliceQuota {o : MaintainOptions} {t : NetType} (hsmall : o.sliceQuota t d < 2 ^ 31) :
    toInt32 (o.sliceQuota t d) = o.sliceQuota t d := by
  have hge := neg_one_le_sliceQuota o t d
  exact toInt32_of_range _ (by omega) hsmall

theorem maintainQuota_serves (hsmall : s.sliceQuota d < 2 ^ 31) (hlimit : s.sliceQuota d ≠ -1)
    (hcovers : (s.wanted d : Int) < s.budget d) : 0 < ((s.maintainQuota d).flowController.side d).quota := by
  have hslice : toInt32 (s.sliceQuota d) = s.sliceQuota d := toInt32_sliceQuota hsmall
  unfold maintainQuota
  rw [if_pos hlimit, hslice]
  apply foldl_trigger_quota _ nodup_triggerList
  rw [tally_triggerList, FlowController.recharge_side, if_pos rfl]
  exact hcovers

theorem maintainQuota_other (hne : d ≠ d') :
    (s.maintainQuota d').flowController.side d = s.flowController.side d ∧
      (s.maintainQuota d').sessions.map (standing d) = s.sessions.map (standing d) := by
  constructor
  · apply maintainQuota_inv (P := fun s' => s'.flowController.side d = s.flowController.side d) rfl
    · exact fun q => by simp [hne]
    · intro s' item hs'
      rw [← hs']
      unfold Maintain.trigger
      rcases onSession_cases (s := s') (k := item.session) (g := MaintainedSession.trigger s'.netType d') with
        ⟨_, hsame⟩ | ⟨session, hk, hset⟩
      · rw [hsame]
      · rw [hset]
        exact (MaintainedSession.trigger_other hne).2
  · exact maintainQuota_map fun _ _ _ => (MaintainedSession.trigger_other hne).1

theorem wanted_congr {s' : Maintain} (h : s'.sessions.map (standing d) = s.sessions.map (standing d)) :
    s'.wanted d = s.wanted d := by
  have heq : ∀ s : Maintain, s.wanted d = ((s.sessions.map (standing d)).map fun p =>
      if p.1 ≠ .closed ∧ p.2.1 ≤ 0 then p.2.2 else 0).sum := fun s => by
    rw [List.map_map]
    rfl
  rw [heq, heq, h]

/-- The keep-alive loop closes sessions, and the others want what they wanted. -/
theorem wanted_keepAlive (now : Int) : (s.keepAlive now).wanted d ≤ s.wanted d := by
  unfold wanted Maintain.keepAlive tally
  rw [List.map_map]
  apply List.sum_le_sum
  intro session _
  simp only [Function.comp_apply]
  split
  · exact le_rfl
  · split
    · simp
    · cases d <;> exact le_rfl

end Serves

/-! ## Runs -/

/-- What holds between the events: a lifted limit is lifted in the controller, and nobody waits for it; and the quotas
are `int`s. -/
structure Lifted (s : Maintain) : Prop where
  unblocked : ∀ d, s.Unblocked d
  lifted    : ∀ d, s.sliceQuota d = -1 → (s.flowController.side d).noLimit = true
  small     : ∀ d, s.sliceQuota d < 2 ^ 31

/-- After a `TimerMaintain`, whoever waits waits for a controller with nothing left. -/
theorem Lifted.maintained (h : s.Lifted) (now : Int) (d : Direction) :
    (s.timerMaintain now).Released d ∧ (s.timerMaintain now).Unblocked d ∧
    ((s.timerMaintain now).flowController.side d).noLimit = (s.flowController.side d).noLimit := by
  rw [timerMaintain_eq]
  generalize hkept : (if s.options.keepAliveTicks ≠ -1 then s.keepAlive now else s) = kept
  have hunblocked : kept.Unblocked d := by
    rw [← hkept]
    split
    · exact (h.unblocked d).keepAlive now
    · exact h.unblocked d
  have hcontroller : kept.flowController = s.flowController := by
    rw [← hkept]
    split <;> rfl
  have hquota : kept.sliceQuota d = s.sliceQuota d := by
    rw [← hkept]
    split <;> rfl
  have hfree : (maintainQuota .write (maintainQuota .read kept)).Unblocked d := hunblocked.maintainQuota.maintainQuota
  have hno : ((maintainQuota .write (maintainQuota .read kept)).flowController.side d).noLimit
      = (s.flowController.side d).noLimit := by
    rw [maintainQuota_noLimit, maintainQuota_noLimit, hcontroller]
  refine ⟨?_, hfree, hno⟩
  by_cases hlimit : s.sliceQuota d = -1
  · -- no limit: nobody waits
    intro session hmem hopen hwaits
    have hpos := hfree (hno.trans (h.lifted d hlimit)) session hmem hopen
    omega
  · rw [← hquota] at hlimit
    cases d with
    | read  => exact Released.maintainQuota (maintainQuota_released hlimit) (by decide)
    | write => exact maintainQuota_released (by simpa using hlimit)

/-- **A `TimerMaintain` whose budget covers what the waiting sessions want leaves something of it.** -/
theorem Lifted.serves (h : s.Lifted) (now : Int) (hlimit : s.sliceQuota d ≠ -1) (hcovers : (s.wanted d : Int) < s.budget d) :
    0 < ((s.timerMaintain now).flowController.side d).quota := by
  rw [timerMaintain_eq]
  generalize hkept : (if s.options.keepAliveTicks ≠ -1 then s.keepAlive now else s) = kept
  have hwanted : kept.wanted d ≤ s.wanted d := by
    rw [← hkept]
    split
    · exact wanted_keepAlive now
    · exact le_rfl
  have hsame : kept.flowController = s.flowController ∧ kept.sliceQuota d = s.sliceQuota d := by
    rw [← hkept]
    split <;> exact ⟨rfl, rfl⟩
  have hbudget : kept.budget d = s.budget d := by
    unfold budget
    rw [hsame.1, hsame.2]
  rw [← hsame.2] at hlimit
  have hsmall : kept.sliceQuota d < 2 ^ 31 := hsame.2 ▸ h.small d
  cases d with
  | read  =>
    dsimp only
    rw [(maintainQuota_other (by decide)).1]
    exact maintainQuota_serves hsmall hlimit (by omega)
  | write =>
    have hother : Direction.write ≠ .read := by decide
    obtain ⟨hside, hstanding⟩ := maintainQuota_other (s := kept) hother
    have hbudget' : (kept.maintainQuota .read).budget .write = kept.budget .write := by
      unfold budget
      rw [hside, sliceQuota_maintainQuota]
    apply maintainQuota_serves
    · rw [sliceQuota_maintainQuota]
      exact hsmall
    · rw [sliceQuota_maintainQuota]
      exact hlimit
    · rw [wanted_congr hstanding, hbudget']
      omega

/-- The condition on a step: a server lifts a limit while nobody waits, a client lifts none, and the new quotas are
`int`s. -/
def Lifts (s : Maintain) : MaintainEvent → Prop
  | .resetOptions o => ∀ d, o.sliceQuota s.netType d < 2 ^ 31 ∧ (o.sliceQuota s.netType d = -1 →
      match s.netType with
      | .server => ∀ session ∈ s.sessions, session.status ≠ .closed → 0 < session.token d
      | .client => (s.flowController.side d).noLimit = true)
  | _               => True

theorem resetQuota_side {d d' : Direction} {quota quota' : Int} {f : FlowController} :
    (resetQuota d' quota quota' f).side d =
      if d = d' ∧ quota' ≠ quota then ⟨decide (quota' = -1), toInt32 quota'⟩ else f.side d := by
  unfold resetQuota
  by_cases hsame : quota' = quota
  · simp [hsame]
  · simp [hsame]

theorem server_side {o : MaintainOptions} (hserver : s.netType = .server) (d : Direction) :
    (s.resetOptions o).flowController.side d =
      if o.sliceQuota s.netType d ≠ s.sliceQuota d then
        ⟨decide (o.sliceQuota s.netType d = -1), toInt32 (o.sliceQuota s.netType d)⟩
      else s.flowController.side d := by
  unfold resetOptions
  rw [hserver]
  simp only [resetQuota_side]
  cases d <;> simp

theorem client_flowController {o : MaintainOptions} (hclient : s.netType = .client) :
    (s.resetOptions o).flowController = s.flowController := by
  unfold resetOptions
  rw [hclient]

theorem Lifted.resetOptions (h : s.Lifted) {o : MaintainOptions} (hlifts : s.Lifts (.resetOptions o)) :
    (s.resetOptions o).Lifted where
  unblocked d := by
    intro hno session' hmem hopen
    obtain ⟨session, hold, hsame⟩ := mem_resetOptions hmem
    have htoken : session'.token d = session.token d := by
      rw [hsame]
      cases d <;> rfl
    have hstatus : session'.status = session.status := by rw [hsame]
    rw [htoken]
    rw [hstatus] at hopen
    cases ht : s.netType with
    | server =>
      rw [server_side ht] at hno
      by_cases hchange : o.sliceQuota s.netType d ≠ s.sliceQuota d
      · have hlift : o.sliceQuota s.netType d = -1 := by simpa [hchange] using hno
        have hnobody := (hlifts d).2 hlift
        simp only [ht] at hnobody
        exact hnobody session hold hopen
      · rw [if_neg hchange] at hno
        exact h.unblocked d hno session hold hopen
    | client =>
      rw [client_flowController ht] at hno
      exact h.unblocked d hno session hold hopen
  lifted    d := by
    intro hlift
    have hlift' : o.sliceQuota s.netType d = -1 := hlift
    cases ht : s.netType with
    | server =>
      rw [server_side ht]
      by_cases hchange : o.sliceQuota s.netType d ≠ s.sliceQuota d
      · rw [if_pos hchange]
        exact decide_eq_true hlift'
      · rw [if_neg hchange]
        exact h.lifted d ((not_not.1 hchange).symm.trans hlift')
    | client =>
      rw [client_flowController ht]
      have hhad := (hlifts d).2 hlift'
      simpa only [ht] using hhad
  small     d := (hlifts d).1

theorem Lifted.onSession (h : s.Lifted) {k : Nat}
    {g : MaintainedSession → FlowController → MaintainedSession × FlowController}
    (hasks : ∀ d session f, Asks d session f (g session f)) : (s.onSession k g).Lifted where
  unblocked d := (h.unblocked d).onSession (hasks d)
  lifted    d := by
    rw [onSession_noLimit (hasks d)]
    simpa [sliceQuota] using h.lifted d
  small     d := by simpa [sliceQuota] using h.small d

theorem Lifted.step (h : s.Lifted) (e : MaintainEvent) (hlifts : s.Lifts e) : (s.step e).Lifted := by
  cases e with
  | elapse seconds  => exact ⟨h.unblocked, h.lifted, h.small⟩
  | resetOptions o  => exact h.resetOptions hlifts
  | timerMaintain   =>
    have hmaintained := h.maintained s.clock
    have hquota : ∀ d, (s.timerMaintain s.clock).sliceQuota d = s.sliceQuota d := by
      intro d
      rw [timerMaintain_eq]
      split <;> simp [sliceQuota, Maintain.keepAlive]
    constructor
    case unblocked => exact fun d => (hmaintained d).2.1
    case lifted    => exact fun d hlift => (hmaintained d).2.2.trans (h.lifted d ((hquota d).symm.trans hlift))
    case small     =>
      intro d
      exact (hquota d).symm ▸ h.small d
  | opened          =>
    refine ⟨?_, h.lifted, h.small⟩
    intro d hno session hmem hopen
    rcases List.mem_append.1 hmem with hmem | hmem
    · exact h.unblocked d hno session hmem hopen
    · rw [List.mem_singleton.1 hmem]
      cases d <;> simp [MaintainedSession.token]
  | call k c        => exact h.onSession fun d session f => MaintainedSession.run_asks s.lastMaintainTicks c
  | closed k        => exact h.onSession fun d session f => .of_eq (fun _ => rfl) (.inl (by cases d <;> rfl))

theorem init_lifted {t : NetType} {o : MaintainOptions} (ho : ∀ d, o.sliceQuota t d < 2 ^ 31) : (init t o).Lifted where
  unblocked d := by simp [Unblocked, init]
  lifted    d := by
    intro hlift
    cases d
    · exact decide_eq_true hlift
    · exact decide_eq_true hlift
  small     d := ho d

/-- **Of a server or a client whose limits are only lifted in the controller too, and while nobody waits for them:
after every `TimerMaintain`, an open session without quota is without it for a controller in limited mode with nothing
left; a lifted limit is lifted in the controller; what the controller is given is the slice of the option; nobody waits
any more where that covers what the waiting sessions want; and a server's controller has a new limit at once.** -/
theorem run_released (t : NetType) (o : MaintainOptions) (ho : ∀ d, o.sliceQuota t d < 2 ^ 31) (es : List MaintainEvent)
    (hlifts : Along step Lifts (init t o) es) (d : Direction) :
    let s := es.foldl step (init t o)
    let s' := s.step .timerMaintain
    (∀ session ∈ s'.sessions, session.status ≠ .closed → session.token d ≤ 0 →
      (s'.flowController.side d).noLimit = false ∧ (s'.flowController.side d).quota ≤ 0) ∧
    (s'.sliceQuota d = -1 → (s'.flowController.side d).noLimit = true) ∧
    toInt32 (s'.sliceQuota d) = s'.sliceQuota d ∧
    (s.sliceQuota d ≠ -1 → (s.wanted d : Int) < s.budget d →
      ∀ session ∈ s'.sessions, session.status ≠ .closed → 0 < session.token d) ∧
    ∀ o' : MaintainOptions, s.netType = .server → o'.sliceQuota s.netType d < 2 ^ 31 →
      o'.sliceQuota s.netType d ≠ s.sliceQuota d →
      (s.step (.resetOptions o')).flowController.side d
        = ⟨decide (o'.sliceQuota s.netType d = -1), o'.sliceQuota s.netType d⟩ := by
  intro s s'
  have hrun : s.Lifted := by
    apply Run.foldl_inv (fun s e hs he => Lifted.step hs e he) es ?_ hlifts
    exact init_lifted ho
  have hstep : s'.Lifted := hrun.step .timerMaintain trivial
  have hreleased := (hrun.maintained s.clock d).1
  refine ⟨hreleased, hstep.lifted d, toInt32_sliceQuota (hstep.small d), ?_, ?_⟩
  · intro hlimit hcovers session hmem hopen
    by_contra hwaits
    have hempty := (hreleased session hmem hopen (not_lt.1 hwaits)).2
    have hleft := hrun.serves s.clock hlimit hcovers
    omega
  · intro o' hserver hsmall hnew
    exact (server_side hserver d).trans (by rw [if_pos hnew, toInt32_sliceQuota hsmall])

/-- A server's limit is raised while a session waits for it. -/
theorem run_released_raised :
    let s := [.opened, .call 0 (.setSocketConnected 200000), .call 0 (.onReadSome 1000),
      .resetOptions { maxThroughputIn := 2 }].foldl step (init .server { maxThroughputIn := 1 })
    (∃ session ∈ s.sessions, session.status = .connected ∧ session.token .read ≤ 0) ∧
      ∀ session ∈ (s.step .timerMaintain).sessions, session.status ≠ .closed → 0 < session.token .read := by
  have hlifts : Along step Lifts (init .server { maxThroughputIn := 1 }) [.opened, .call 0 (.setSocketConnected 200000),
      .call 0 (.onReadSome 1000), .resetOptions { maxThroughputIn := 2 }] := by
    refine ⟨trivial, trivial, trivial, ?_, trivial⟩
    intro d
    cases d with
    | read  => exact ⟨by decide, fun hlift => absurd hlift (by decide)⟩
    | write =>
      have hnobody : ∀ session ∈ ([.opened, .call 0 (.setSocketConnected 200000), .call 0 (.onReadSome 1000)].foldl step
          (init .server { maxThroughputIn := 1 })).sessions, session.status ≠ .closed → 0 < session.token .write := by
        decide
      exact ⟨by decide, fun _ => hnobody⟩
  have hreleased := run_released .server { maxThroughputIn := 1 } (by intro d; cases d <;> decide) _ hlifts .read
  exact ⟨by decide, hreleased.2.2.2.1 (by decide) (by decide)⟩

/-- A session waits when the limit is lifted. -/
def liftedRun (t : NetType) : Maintain :=
  ([.opened, .call 0 (.setSocketConnected 600000), .call 0 (.onReadSome 1000), .resetOptions {}].foldl step
    (init t { maxThroughputIn := 1 })).step .timerMaintain

/-- On a server it is not triggered any more, on a client the controller keeps its limit. -/
theorem lifted_waits :
    ((∃ session ∈ (liftedRun .server).sessions, session.status = .connected ∧ session.token .read ≤ 0) ∧
      (liftedRun .server).sliceQuota .read = -1 ∧ (liftedRun .server).flowController.read.noLimit = true) ∧
    (∃ session ∈ (liftedRun .client).sessions, session.status = .connected ∧ session.token .read ≤ 0) ∧
      (liftedRun .client).sliceQuota .read = -1 ∧ (liftedRun .client).flowController.read.noLimit = false := by
  decide

end Maintain

end Gb
