import GbServer.RouteTable
import GbServer.Lib.Run
import GbServer.Lib.Tally
/-!
# RouteReclamation — when the snapshots of the route table are deleted

`LockFreeRouteTable::Freeze` and `Lookup` (`lock_free_route_table.h`) in their steps: the main thread publishes a snapshot,
deletes the retired one and retires the one before, and does so every frame; a reader on any thread loads the current
snapshot and then searches it.  A snapshot is the number under which it was published, `nullptr` is 0, and none is used
again; what a reader finds in a snapshot that was deleted can be anything.

Nothing tells the main thread who is searching, so a snapshot is there until the second `Freeze` after its own deletes it:
readers are safe exactly if none is slower than that (`run_reclaimed_iff`).
-/
namespace Gb

open Run (Along Always)
open Tally
open LockFreeRouteTable (Table Op)

/-- Where `Freeze` is: it has published a snapshot in place of `old`. -/
inductive FreezePc
  | deleting (old : Nat)
  | retiring (old : Nat)

inductive LookupPc
  | called
  | loaded (snapshot : Nat)
  /-- `last` is the snapshot that was published last when `Lookup` ended. -/
  | returned (value : WorkerIndex) (last : Nat)

/-- A call of `Lookup`; `first` is the snapshot that was current when it began. -/
structure RouteLookup where
  entityId : EntityId
  first    : Nat
  pc       : LookupPc := .called

structure RouteSnapshots where
  pending   : Table := []
  current   : Nat := 0
  retired   : Nat := 0
  freezing  : Option FreezePc := none
  lookups   : List RouteLookup := []
  /-- Every snapshot that was published, the first one first. -/
  published : List Table := []
  deleted   : List Nat := []

/-- `main` is a call on the main thread, and `freeze` the next step of a `Freeze` there; `load` and `search` are those of a
`Lookup`, `garbage` what it finds in a deleted snapshot. -/
inductive RouteEvent
  | main (op : Op)
  | freeze
  | lookup (entityId : EntityId)
  | load (k : Nat)
  | search (k : Nat) (garbage : WorkerIndex)

namespace RouteSnapshots

variable (s : RouteSnapshots)

/-- The table of a snapshot. -/
def tableOf (snapshot : Nat) : Option Table := if snapshot = 0 then none else s.published[snapshot - 1]?

/-- The table as `Lookup` sees it. -/
def view (snapshot : Nat) : LockFreeRouteTable := ⟨s.pending, s.tableOf snapshot, none⟩

/-- What `Lookup` returns that has loaded a snapshot. -/
def valueOf (snapshot : Nat) (entityId : EntityId) : WorkerIndex := (s.view snapshot).lookup entityId

/-- `Freeze`, up to the exchange. -/
def exchange : RouteSnapshots :=
  let t := (s.view s.current).freeze
  { s with
    pending   := t.pending
    current   := s.published.length + 1
    freezing  := some (.deleting s.current)
    published := s.published ++ t.current.toList }

/-- A call that begins on the main thread, which does one thing after the other. -/
def main (op : Op) : RouteSnapshots :=
  match s.freezing, op with
  | some _, _       => s
  | none,   .freeze => s.exchange
  | none,   op      =>
    match (s.view s.current).step op with
    | some t => { s with pending := t.pending }
    | none   => s

/-- The steps of `Freeze` behind the exchange. -/
def freeze : RouteSnapshots :=
  match s.freezing with
  | some (.deleting old) =>
    { s with
      freezing := some (.retiring old)
      deleted  := if s.retired = 0 then s.deleted else s.retired :: s.deleted }
  | some (.retiring old) => { s with freezing := none, retired := old }
  | none                 => s

def load (l : RouteLookup) : RouteLookup :=
  match l.pc with
  | .called => { l with pc := .loaded s.current }
  | _       => l

/-- The search, at the last entry that it reads. -/
def search (garbage : WorkerIndex) (l : RouteLookup) : RouteLookup :=
  match l.pc with
  | .loaded snapshot =>
    let value := if snapshot ∈ s.deleted then garbage else s.valueOf snapshot l.entityId
    { l with pc := .returned value s.published.length }
  | _                => l

def step (s : RouteSnapshots) : RouteEvent → RouteSnapshots
  | .main op          => s.main op
  | .freeze           => s.freeze
  | .lookup entityId  => { s with lookups := s.lookups ++ [{ entityId, first := s.published.length }] }
  | .load k           => { s with lookups := s.lookups.modify k s.load }
  | .search k garbage => { s with lookups := s.lookups.modify k (s.search garbage) }

/-- A `Lookup` that is searching searches a snapshot that is there, and one that has returned has returned the value of a
snapshot that was current meanwhile. -/
def Served (l : RouteLookup) : Prop :=
  match l.pc with
  | .called              => True
  | .loaded snapshot     => snapshot ∉ s.deleted
  | .returned value last => ∃ snapshot, l.first ≤ snapshot ∧ snapshot ≤ last ∧ value = s.valueOf snapshot l.entityId

def Reclaimed : Prop := ∀ l ∈ s.lookups, s.Served l

/-- Fewer than two snapshots were published since the one that a `Lookup` has loaded. -/
def Recent (l : RouteLookup) : Prop :=
  match l.pc with
  | .loaded snapshot => snapshot = 0 ∨ s.published.length < snapshot + 2
  | _                => True

/-- The condition on a step: where `Freeze` deletes, whoever is searching has loaded a recent snapshot. -/
def Prompt (s : RouteSnapshots) : RouteEvent → Prop
  | .freeze => (∃ old, s.freezing = some (.deleting old)) → ∀ l ∈ s.lookups, s.Recent l
  | _       => True

/-! ## What the snapshots are -/

/-- What a lookup has loaded, and when it ended. -/
def Placed (l : RouteLookup) : Prop := l.first ≤ s.published.length ∧
  match l.pc with
  | .called          => True
  | .loaded snapshot => l.first ≤ snapshot ∧ snapshot ≤ s.published.length
  | .returned _ last => last ≤ s.published.length

/-- The snapshots that are current and retired, and those that are deleted. -/
structure Numbered (s : RouteSnapshots) : Prop where
  current  : s.current = s.published.length
  freezing : match s.freezing with
    | none                 => s.retired = s.published.length - 1 ∧ ∀ k, k ∈ s.deleted ↔ 1 ≤ k ∧ k + 1 < s.published.length
    | some (.deleting old) => 1 ≤ s.published.length ∧ old = s.published.length - 1 ∧ s.retired = s.published.length - 2 ∧
        ∀ k, k ∈ s.deleted ↔ 1 ≤ k ∧ k + 2 < s.published.length
    | some (.retiring old) => 1 ≤ s.published.length ∧ old = s.published.length - 1 ∧
        ∀ k, k ∈ s.deleted ↔ 1 ≤ k ∧ k + 1 < s.published.length
  lookups  : ∀ l ∈ s.lookups, s.Placed l

theorem Numbered.init : ({} : RouteSnapshots).Numbered where
  current  := rfl
  freezing := ⟨rfl, fun k => by simp⟩
  lookups  := nofun

variable {s : RouteSnapshots}

/-- Everything that a call on the main thread can do. -/
theorem main_cases (op : Op) : (∃ pending, s.main op = { s with pending := pending }) ∨
    s.freezing = none ∧ op = .freeze ∧ s.main op = s.exchange := by
  unfold main
  split
  · exact .inl ⟨s.pending, rfl⟩
  · rename_i hfreezing
    exact .inr ⟨hfreezing, rfl, rfl⟩
  · split
    · exact .inl ⟨_, rfl⟩
    · exact .inl ⟨s.pending, rfl⟩

theorem exchange_published : ∃ table, s.exchange.published = s.published ++ [table] := ⟨_, rfl⟩

/-- A snapshot that was published stays what it was. -/
theorem tableOf_append {t : RouteSnapshots} {tables : List Table} (h : t.published = s.published ++ tables)
    {snapshot : Nat} (hle : snapshot ≤ s.published.length) : t.tableOf snapshot = s.tableOf snapshot := by
  unfold tableOf
  rw [h]
  by_cases hzero : snapshot = 0
  · rw [if_pos hzero, if_pos hzero]
  · rw [if_neg hzero, if_neg hzero, List.getElem?_append_left (by omega)]

theorem valueOf_append {t : RouteSnapshots} {tables : List Table} (h : t.published = s.published ++ tables)
    {snapshot : Nat} (hle : snapshot ≤ s.published.length) (entityId : EntityId) :
    t.valueOf snapshot entityId = s.valueOf snapshot entityId := by
  unfold valueOf view LockFreeRouteTable.lookup
  rw [tableOf_append h hle]

/-! ## The lookups -/

/-- A lookup stays where it is, as snapshots are published. -/
theorem Placed.append {t : RouteSnapshots} {tables : List Table} (h : t.published = s.published ++ tables) {l : RouteLookup}
    (hl : s.Placed l) : t.Placed l := by
  have hle : s.published.length ≤ t.published.length := by
    rw [h, List.length_append]
    exact Nat.le_add_right _ _
  obtain ⟨hfirst, hpc⟩ := hl
  refine ⟨Nat.le_trans hfirst hle, ?_⟩
  cases hl : l.pc with
  | called        => trivial
  | loaded k      =>
    rw [hl] at hpc
    exact ⟨hpc.1, Nat.le_trans hpc.2 hle⟩
  | returned _ _  =>
    rw [hl] at hpc
    exact Nat.le_trans hpc hle

/-- What was returned stays the value of a snapshot; and what is searched, if no more is deleted. -/
theorem Served.append {t : RouteSnapshots} {tables : List Table} (h : t.published = s.published ++ tables) {l : RouteLookup}
    (hplaced : s.Placed l) (hdeleted : ∀ k, l.pc = .loaded k → (k ∈ t.deleted ↔ k ∈ s.deleted)) :
    t.Served l ↔ s.Served l := by
  unfold Served
  cases hl : l.pc with
  | called              => exact Iff.rfl
  | loaded k            => exact not_congr (hdeleted k hl)
  | returned value last =>
    obtain ⟨-, hpc⟩ := hplaced
    rw [hl] at hpc
    refine exists_congr fun k => and_congr_right fun _ => and_congr_right fun hk => ?_
    rw [valueOf_append h (Nat.le_trans hk hpc)]

theorem Placed.load (hcurrent : s.current = s.published.length) {l : RouteLookup} (hl : s.Placed l) : s.Placed (s.load l) := by
  unfold RouteSnapshots.load
  split
  · exact ⟨hl.1, hcurrent ▸ hl.1, Nat.le_of_eq hcurrent⟩
  · exact hl

theorem Placed.search (garbage : WorkerIndex) {l : RouteLookup} (hl : s.Placed l) : s.Placed (s.search garbage l) := by
  unfold RouteSnapshots.search
  split
  · exact ⟨hl.1, Nat.le_refl _⟩
  · exact hl

/-- What is current is not deleted. -/
theorem Served.load (hcurrent : s.current ∉ s.deleted) {l : RouteLookup} (hl : s.Served l) : s.Served (s.load l) := by
  unfold RouteSnapshots.load
  split
  · exact hcurrent
  · exact hl

theorem Served.search (garbage : WorkerIndex) {l : RouteLookup} (hplaced : s.Placed l) (hl : s.Served l) :
    s.Served (s.search garbage l) := by
  unfold RouteSnapshots.search
  cases hpc : l.pc with
  | loaded snapshot =>
    unfold Placed at hplaced
    unfold Served at hl
    rw [hpc] at hplaced hl
    dsimp only
    rw [if_neg hl]
    exact ⟨snapshot, hplaced.2.1, hplaced.2.2, rfl⟩
  | _               => exact hl

/-! ## Steps and runs -/

theorem Numbered.current_alive (h : s.Numbered) : s.current ∉ s.deleted := by
  have hfreezing := h.freezing
  rw [h.current]
  intro hmem
  split at hfreezing
  · have := (hfreezing.2 _).1 hmem
    omega
  · have := (hfreezing.2.2.2 _).1 hmem
    omega
  · have := (hfreezing.2.2 _).1 hmem
    omega

theorem Numbered.exchange (h : s.Numbered) (hidle : s.freezing = none) : s.exchange.Numbered := by
  obtain ⟨table, hpublished⟩ := s.exchange_published
  have hlength : s.exchange.published.length = s.published.length + 1 := by rw [hpublished, List.length_append, List.length_singleton]
  have hfreezing := h.freezing
  rw [hidle] at hfreezing
  refine ⟨hlength.symm, ⟨?_, ?_, ?_, fun k => ?_⟩, fun l hl => (h.lookups l hl).append hpublished⟩
  · omega
  · rw [hlength, h.current]
    rfl
  · rw [hlength]
    exact hfreezing.1
  · rw [hlength]
    refine (hfreezing.2 k).trans ?_
    omega

theorem Numbered.freeze (h : s.Numbered) : s.freeze.Numbered := by
  have hfreezing := h.freezing
  unfold RouteSnapshots.freeze
  cases hpc : s.freezing with
  | none    => exact h
  | some pc =>
    rw [hpc] at hfreezing
    cases pc with
    | deleting old =>
      obtain ⟨hpos, hold, hretired, hdeleted⟩ := hfreezing
      refine ⟨h.current, ⟨hpos, hold, fun k => ?_⟩, h.lookups⟩
      dsimp only
      split
      · rw [hdeleted]
        omega
      · rw [List.mem_cons, hdeleted]
        omega
    | retiring old =>
      obtain ⟨hpos, hold, hdeleted⟩ := hfreezing
      exact ⟨h.current, ⟨hold, hdeleted⟩, h.lookups⟩

theorem Numbered.step (h : s.Numbered) (e : RouteEvent) : (s.step e).Numbered := by
  cases e with
  | main op          =>
    change (s.main op).Numbered
    obtain ⟨pending, hmain⟩ | ⟨hidle, rfl, hmain⟩ := s.main_cases op
    · rw [hmain]
      exact ⟨h.current, h.freezing, h.lookups⟩
    · rw [hmain]
      exact h.exchange hidle
  | freeze           => exact h.freeze
  | lookup entityId  =>
    refine ⟨h.current, h.freezing, fun l hl => ?_⟩
    rcases List.mem_append.1 hl with hl | hl
    · exact h.lookups l hl
    · rw [List.mem_singleton.1 hl]
      exact ⟨Nat.le_refl _, trivial⟩
  | load k           =>
    exact ⟨h.current, h.freezing, forall_modify h.lookups k fun l hl =>
      (h.lookups l (List.mem_of_getElem? hl)).load h.current⟩
  | search k garbage =>
    exact ⟨h.current, h.freezing, forall_modify h.lookups k fun l hl =>
      (h.lookups l (List.mem_of_getElem? hl)).search garbage⟩

/-- The table of the calls one after another. -/
def routes (s : RouteSnapshots) : LockFreeRouteTable := ⟨s.pending, s.tableOf s.current, s.tableOf s.retired⟩

/-- The steps of `Freeze` one after another. -/
theorem routes_freeze (h : s.Numbered) : s.exchange.freeze.freeze.routes = s.routes.freeze := by
  have hcurrent : s.exchange.tableOf s.current = s.tableOf s.current := by
    obtain ⟨table, hpublished⟩ := s.exchange_published
    exact tableOf_append hpublished (Nat.le_of_eq h.current)
  have hnew : s.exchange.tableOf (s.published.length + 1) = s.routes.freeze.current := by
    unfold tableOf
    rw [if_neg (Nat.succ_ne_zero _), Nat.add_sub_cancel]
    exact List.getElem?_concat_length
  change LockFreeRouteTable.mk _ (s.exchange.tableOf (s.published.length + 1)) (s.exchange.tableOf s.current) = _
  rw [hnew, hcurrent]
  rfl

/-- What is searched is still there after `Freeze` has deleted exactly if it is recent. -/
theorem reclaimed_freeze_iff (h : s.Numbered) (hsafe : s.Reclaimed) : s.freeze.Reclaimed ↔ s.Prompt .freeze := by
  have hfreezing := h.freezing
  unfold Prompt RouteSnapshots.freeze
  cases hpc : s.freezing with
  | none    => exact iff_of_true hsafe fun ⟨_, hold⟩ => nomatch hold
  | some pc =>
    rw [hpc] at hfreezing
    cases pc with
    | deleting old =>
      obtain ⟨hpos, hold, hretired, hdeleted⟩ := hfreezing
      rw [imp_iff_right ⟨old, rfl⟩]
      refine forall₂_congr fun l hl => ?_
      have hplaced := h.lookups l hl
      have hserved := hsafe l hl
      unfold Placed at hplaced
      unfold Served at hserved ⊢
      unfold Recent
      cases hl : l.pc with
      | loaded snapshot  =>
        rw [hl] at hplaced hserved
        dsimp only at hserved ⊢
        split
        · refine iff_of_true hserved ?_
          omega
        · rw [List.mem_cons]
          rw [hdeleted] at hserved ⊢
          omega
      | returned value _ =>
        rw [hl] at hserved
        exact iff_of_true hserved trivial
      | called           => exact Iff.rfl
    | retiring old =>
      refine iff_of_true hsafe fun ⟨_, hold⟩ => ?_
      cases hold

theorem reclaimed_step_iff (h : s.Numbered) (hsafe : s.Reclaimed) (e : RouteEvent) : (s.step e).Reclaimed ↔ s.Prompt e := by
  cases e with
  | main op          =>
    refine iff_of_true ?_ trivial
    change (s.main op).Reclaimed
    obtain ⟨pending, hmain⟩ | ⟨hidle, rfl, hmain⟩ := s.main_cases op
    · rw [hmain]
      exact hsafe
    · rw [hmain]
      obtain ⟨table, hpublished⟩ := s.exchange_published
      exact fun l hl => (Served.append hpublished (h.lookups l hl) fun _ _ => Iff.rfl).2 (hsafe l hl)
  | freeze           => exact reclaimed_freeze_iff h hsafe
  | lookup entityId  =>
    refine iff_of_true (fun l hl => ?_) trivial
    rcases List.mem_append.1 hl with hl | hl
    · exact hsafe l hl
    · rw [List.mem_singleton.1 hl]
      exact trivial
  | load k           =>
    exact iff_of_true (forall_modify hsafe k fun l hl =>
      Served.load h.current_alive (hsafe l (List.mem_of_getElem? hl))) trivial
  | search k garbage =>
    exact iff_of_true (forall_modify hsafe k fun l hl =>
      have hmem := List.mem_of_getElem? hl
      Served.search garbage (h.lookups l hmem) (hsafe l hmem)) trivial

/-- **No snapshot is deleted that is searched, and every `Lookup` returns the value of a snapshot that was current
meanwhile, in every state of a run, exactly if no `Freeze` deletes while a `Lookup` is searching whose snapshot is two
behind.** -/
theorem run_reclaimed_iff (es : List RouteEvent) : Always step Reclaimed {} es ↔ Along step Prompt {} es :=
  Run.always_iff_along (fun _ e h _ => h.step e) (fun _ e h hsafe => reclaimed_step_iff h hsafe e) es Numbered.init nofun

/-- A reader that two frames have passed by. -/
def slowReader : List RouteEvent :=
  [.main .freeze, .freeze, .freeze, .lookup 1, .load 0, .main .freeze, .freeze, .freeze, .main .freeze, .freeze]

theorem not_run_reclaimed : ¬∀ es, Always step Reclaimed {} es := by
  intro h
  have hsafe : (slowReader.foldl step {}).Reclaimed := Run.always_iff_take.1 (h slowReader) slowReader.length
  exact hsafe _ List.mem_cons_self List.mem_cons_self

end RouteSnapshots

end Gb
