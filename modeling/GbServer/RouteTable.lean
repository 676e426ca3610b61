import GbServer.Lib.IntervalMap
import GbServer.Lib.UpperBound
import Mathlib.Algebra.GroupWithZero.Nat
import Mathlib.Order.Fin.Basic
/-!
# RouteTable — the lock-free route table

`LockFreeRouteTable` (`lock_free_route_table.h`): the main thread edits `pending_`, `Freeze` publishes a sorted snapshot,
readers search it.  An entry is an interval of `Lib/IntervalMap`, its value the worker index.  The table refines the
plain map in which the last writer of an id wins (`run_refines`): a scan of `Bind` that splits an entry starts over, and
the second scan ends (`bindLoop_eq`), since what is left to cut no longer holds an interval around the new one.
-/
namespace Gb

open IntervalMap (cutAll)

/-- A `uint64_t`: sums wrap around. -/
abbrev EntityId := Fin 18446744073709551616

instance instNeZeroEntityId : NeZero 18446744073709551616 := ⟨by decide⟩

abbrev WorkerIndex := Fin 4294967296

namespace LockFreeRouteTable

/-- `UINT32_MAX`. -/
def kInvalidWorker : WorkerIndex := 4294967295

abbrev Entry := IntervalMap.Entry EntityId WorkerIndex

abbrev Table := List Entry

end LockFreeRouteTable

open LockFreeRouteTable

structure LockFreeRouteTable where
  pending : Table
  current : Option Table
  retired : Option Table

namespace LockFreeRouteTable

def init : LockFreeRouteTable := ⟨[], none, none⟩

/-- One `for` scan of `Bind`: whether it split an entry and left, and the entries. -/
def bindScan (entityBegin entityEnd : EntityId) : Table → Bool × Table
  | []        => (false, [])
  | it :: vec =>
    if it.end_ ≤ entityBegin ∨ entityEnd ≤ it.begin_ then
      let (restart, vec) := bindScan entityBegin entityEnd vec
      (restart, it :: vec)
    else if it.begin_ < entityBegin ∧ entityEnd < it.end_ then
      (true, { it with end_ := entityBegin } :: ⟨entityEnd, it.end_, it.value⟩ :: vec)
    else if it.begin_ < entityBegin then
      let (restart, vec) := bindScan entityBegin entityEnd vec
      (restart, { it with end_ := entityBegin } :: vec)
    else if entityEnd < it.end_ then
      let (restart, vec) := bindScan entityBegin entityEnd vec
      (restart, { it with begin_ := entityEnd } :: vec)
    else bindScan entityBegin entityEnd vec

/-- The `while (restart)` loop, for at most so many scans; `none` when it has not ended by then. -/
def bindLoop (entityBegin entityEnd : EntityId) : Nat → Table → Option Table
  | 0,     _   => none
  | n + 1, vec =>
    match bindScan entityBegin entityEnd vec with
    | (true, vec)  => bindLoop entityBegin entityEnd n vec
    | (false, vec) => some vec

/-- `Bind`, scanning at most `scans` times. -/
def bind (t : LockFreeRouteTable) (scans : Nat) (entityBegin entityEnd : EntityId) (workerIndex : WorkerIndex) :
    Option LockFreeRouteTable :=
  if entityEnd ≤ entityBegin then some t
  else
    (bindLoop entityBegin entityEnd scans t.pending).map fun vec =>
      { t with pending := vec ++ [⟨entityBegin, entityEnd, workerIndex⟩] }

def bindSingle (t : LockFreeRouteTable) (scans : Nat) (entityId : EntityId) (workerIndex : WorkerIndex) :
    Option LockFreeRouteTable := t.bind scans entityId (entityId + 1) workerIndex

/-- The loop of `Unbind`: the first entry that holds the id loses it. -/
def unbindLoop (entityId : EntityId) : Table → Table
  | []        => []
  | it :: vec =>
    if it.begin_ ≤ entityId ∧ entityId < it.end_ then
      if it.begin_ = entityId ∧ it.end_ = entityId + 1 then vec
      else if it.begin_ = entityId then { it with begin_ := entityId + 1 } :: vec
      else if it.end_ = entityId + 1 then { it with end_ := entityId } :: vec
      else { it with end_ := entityId } :: ⟨entityId + 1, it.end_, it.value⟩ :: vec
    else it :: unbindLoop entityId vec

def unbind (t : LockFreeRouteTable) (entityId : EntityId) : LockFreeRouteTable :=
  { t with pending := unbindLoop entityId t.pending }

/-- The entry `e` in the snapshot of `Freeze`: merged into the last one if that reaches into it. -/
def freezeEntry (snapshot : Table) (e : Entry) : Table :=
  match snapshot.getLast? with
  | none      => [e]
  | some back =>
    if e.begin_ < back.end_ then
      snapshot.dropLast ++ [{ back with value := e.value, end_ := if back.end_ < e.end_ then e.end_ else back.end_ }]
    else snapshot ++ [e]

/-- `Freeze`.  The sort is by `begin`; entries that do not overlap have different ones, so a stable sort is as good as
any. -/
def freeze (t : LockFreeRouteTable) : LockFreeRouteTable :=
  let pending := t.pending.mergeSort (fun a b => decide (a.begin_ ≤ b.begin_))
  { pending := pending
    current := some (pending.foldl freezeEntry [])
    retired := t.current }

/-- `Lookup`, with `std::upper_bound` as the halving search it is. -/
def lookup (t : LockFreeRouteTable) (entityId : EntityId) : WorkerIndex :=
  match t.current with
  | none       => kInvalidWorker
  | some table =>
    if table = [] then kInvalidWorker
    else
      let it := UpperBound.upperBound (fun e : Entry => decide (entityId < e.begin_)) table
      if it = 0 then kInvalidWorker
      else
        match table[it - 1]? with
        | none   => kInvalidWorker
        | some e => if e.begin_ ≤ entityId ∧ entityId < e.end_ then e.value else kInvalidWorker

/-! ## Calls one after another -/

/-- A call of the main thread. -/
inductive Op
  | bind (entityBegin entityEnd : EntityId) (workerIndex : WorkerIndex)
  | unbind (entityId : EntityId)
  | freeze

/-- A call.  `Bind` may scan once for every entry and once more. -/
def step (t : LockFreeRouteTable) : Op → Option LockFreeRouteTable
  | .bind b e w => t.bind (t.pending.length + 1) b e w
  | .unbind id  => some (t.unbind id)
  | .freeze     => some t.freeze

def run : LockFreeRouteTable → List Op → Option LockFreeRouteTable
  | t, []        => some t
  | t, op :: ops =>
    match t.step op with
    | none    => none
    | some t' => t'.run ops

end LockFreeRouteTable

/-! ## The plain map -/

/-- What the table is for: a map from ids to workers, and the map as it was at the last `Freeze`. -/
structure PlainRoutes where
  live   : EntityId → Option WorkerIndex
  frozen : EntityId → Option WorkerIndex

namespace PlainRoutes

def init : PlainRoutes := ⟨fun _ => none, fun _ => none⟩

def step (m : PlainRoutes) : Op → PlainRoutes
  | .bind b e w => { m with live := fun id => if b ≤ id ∧ id < e then some w else m.live id }
  | .unbind id  => { m with live := fun id' => if id' = id then none else m.live id' }
  | .freeze     => { m with frozen := m.live }

def run (m : PlainRoutes) (ops : List Op) : PlainRoutes := ops.foldl step m

end PlainRoutes

namespace LockFreeRouteTable

open IntervalMap (Disjoint Ordered)

/-! ## Bind -/

/-- An entry around the whole of the new interval, with room on both sides. -/
def Around (b e : EntityId) (it : Entry) : Prop := it.begin_ < b ∧ e < it.end_

instance (b e : EntityId) (it : Entry) : Decidable (Around b e it) := by unfold Around; infer_instance

theorem cut_truncate_left {b e : EntityId} {it : Entry} (h1 : it.begin_ < b) (h2 : b < it.end_) (h3 : it.end_ ≤ e) :
    it.cut b e = [{ it with end_ := b }] := by
  rw [IntervalMap.Entry.cut, if_pos h1, if_neg (not_lt.2 h3), min_eq_right h2.le, List.append_nil]

theorem cut_truncate_right {b e : EntityId} {it : Entry} (h1 : b ≤ it.begin_) (h2 : it.begin_ < e) (h3 : e < it.end_) :
    it.cut b e = [{ it with begin_ := e }] := by
  rw [IntervalMap.Entry.cut, if_neg (not_lt.2 h1), if_pos h3, max_eq_right h2.le, List.nil_append]

theorem cut_erase {b e : EntityId} {it : Entry} (h1 : b ≤ it.begin_) (h3 : it.end_ ≤ e) : it.cut b e = [] := by
  rw [IntervalMap.Entry.cut, if_neg (not_lt.2 h1), if_neg (not_lt.2 h3), List.append_nil]

theorem cut_split {b e : EntityId} (hbe : b < e) {it : Entry} (h : Around b e it) :
    it.cut b e = [{ it with end_ := b }, ⟨e, it.end_, it.value⟩] := by
  rw [IntervalMap.Entry.cut, if_pos h.1, if_pos h.2, min_eq_right (hbe.trans h.2).le, max_eq_right (h.1.trans hbe).le,
    List.singleton_append]

/-- **What a scan does**: it ends with the interval cut out of every entry, or it splits one entry and leaves as much to
cut as before, with one entry around the interval less. -/
theorem bindScan_cases {b e : EntityId} (hbe : b < e) : ∀ vec : Table, (∀ it ∈ vec, it.begin_ < it.end_) →
    (bindScan b e vec = (false, cutAll b e vec)) ∨
    (∃ vec', bindScan b e vec = (true, vec') ∧ cutAll b e vec' = cutAll b e vec ∧ (∀ it ∈ vec', it.begin_ < it.end_) ∧
      vec'.countP (fun it => decide (Around b e it)) < vec.countP fun it => decide (Around b e it))
  | [],        _    => Or.inl rfl
  | it :: vec, hvec => by
    have hit := hvec it List.mem_cons_self
    have hrest := fun d hd => hvec d (List.mem_cons_of_mem it hd)
    -- the scan goes on with the pieces of the first entry in its place
    have hgo : ∀ pieces : Table, it.cut b e = pieces → (∀ p ∈ pieces, p.cut b e = [p] ∧ p.begin_ < p.end_) →
        (∀ p ∈ pieces, ¬ Around b e p) →
        bindScan b e (it :: vec) = ((bindScan b e vec).1, pieces ++ (bindScan b e vec).2) →
        (bindScan b e (it :: vec) = (false, cutAll b e (it :: vec))) ∨
        (∃ vec', bindScan b e (it :: vec) = (true, vec') ∧ cutAll b e vec' = cutAll b e (it :: vec) ∧
          (∀ it ∈ vec', it.begin_ < it.end_) ∧
          vec'.countP (fun it => decide (Around b e it)) < (it :: vec).countP fun it => decide (Around b e it)) := by
      intro pieces hcut hpieces hclear hscan
      have hcons : cutAll b e (it :: vec) = pieces ++ cutAll b e vec := by
        rw [cutAll, List.flatMap_cons, hcut]
        rfl
      have hpc : cutAll b e pieces = pieces := by
        rw [cutAll, List.flatMap_congr fun p hp => (hpieces p hp).1]
        simp
      have hcount : pieces.countP (fun it => decide (Around b e it)) = 0 :=
        List.countP_eq_zero.2 fun p hp => by simpa using hclear p hp
      rcases bindScan_cases hbe vec hrest with h | ⟨vec', h, hc, hne, hlt⟩
      · left
        rw [hscan, h, hcons]
      · right
        refine ⟨pieces ++ vec', by rw [hscan, h], ?_, ?_, ?_⟩
        · rw [hcons, cutAll, List.flatMap_append]
          exact congrArg₂ (· ++ ·) hpc hc
        · intro d hd
          rcases List.mem_append.1 hd with hd | hd
          · exact (hpieces d hd).2
          · exact hne d hd
        · rw [List.countP_append, hcount, List.countP_cons]
          omega
    by_cases happ : it.end_ ≤ b ∨ e ≤ it.begin_
    · have hcut := IntervalMap.Entry.cut_of_apart hbe hit happ
      refine hgo [it] hcut (by simp [hcut, hit]) ?_ ?_
      · simp only [List.mem_singleton, forall_eq, Around]
        rintro ⟨h1, h2⟩
        rcases happ with h | h
        · exact absurd (hbe.trans h2) (not_lt.2 h)
        · exact absurd (h1.trans hbe) (not_lt.2 h)
      · rw [bindScan, if_pos happ]
        rfl
    · have h1 : b < it.end_ := not_le.1 fun h => happ (Or.inl h)
      have h2 : it.begin_ < e := not_le.1 fun h => happ (Or.inr h)
      by_cases hsplit : it.begin_ < b ∧ e < it.end_
      · right
        refine ⟨{ it with end_ := b } :: ⟨e, it.end_, it.value⟩ :: vec, ?_, ?_, ?_, ?_⟩
        · rw [bindScan, if_neg happ, if_pos hsplit]
        · have hl : IntervalMap.Entry.cut b e { it with end_ := b } = [{ it with end_ := b }] :=
            IntervalMap.Entry.cut_of_apart hbe hsplit.1 (Or.inl (le_refl b))
          have hr : IntervalMap.Entry.cut b e (⟨e, it.end_, it.value⟩ : Entry) = [⟨e, it.end_, it.value⟩] :=
            IntervalMap.Entry.cut_of_apart hbe hsplit.2 (Or.inr (le_refl e))
          rw [cutAll, cutAll, List.flatMap_cons, List.flatMap_cons, List.flatMap_cons, cut_split hbe hsplit, hl, hr]
          rfl
        · intro d hd
          rcases List.mem_cons.1 hd with rfl | hd
          · exact hsplit.1
          · rcases List.mem_cons.1 hd with rfl | hd
            · exact hsplit.2
            · exact hrest d hd
        · have hl : ¬ Around b e { it with end_ := b } := fun h => absurd h.2 (not_lt.2 hbe.le)
          have hr : ¬ Around b e (⟨e, it.end_, it.value⟩ : Entry) := fun h => absurd h.1 (not_lt.2 hbe.le)
          have hm : Around b e it := hsplit
          simp only [List.countP_cons, hl, hr, hm, decide_false, decide_true, Bool.false_eq_true, if_true, if_false]
          omega
      · by_cases hleft : it.begin_ < b
        · have h3 : it.end_ ≤ e := not_lt.1 fun h => hsplit ⟨hleft, h⟩
          refine hgo [{ it with end_ := b }] (cut_truncate_left hleft h1 h3) ?_ ?_ ?_
          · simp only [List.mem_singleton, forall_eq]
            exact ⟨IntervalMap.Entry.cut_of_apart hbe hleft (Or.inl (le_refl b)), hleft⟩
          · simp only [List.mem_singleton, forall_eq]
            exact fun h => absurd h.2 (not_lt.2 hbe.le)
          · rw [bindScan, if_neg happ, if_neg hsplit, if_pos hleft]
            rfl
        · have hge : b ≤ it.begin_ := not_lt.1 hleft
          by_cases hright : e < it.end_
          · refine hgo [{ it with begin_ := e }] (cut_truncate_right hge h2 hright) ?_ ?_ ?_
            · simp only [List.mem_singleton, forall_eq]
              exact ⟨IntervalMap.Entry.cut_of_apart hbe hright (Or.inr (le_refl e)), hright⟩
            · simp only [List.mem_singleton, forall_eq]
              exact fun h => absurd h.1 (not_lt.2 hbe.le)
            · rw [bindScan, if_neg happ, if_neg hsplit, if_neg hleft, if_pos hright]
              rfl
          · refine hgo [] (cut_erase hge (not_lt.1 hright)) (by simp) (by simp) ?_
            rw [bindScan, if_neg happ, if_neg hsplit, if_neg hleft, if_neg hright]
            rfl

/-- **The restart loop ends**, with the interval cut out of every entry: every restart leaves one entry less around the
interval. -/
theorem bindLoop_eq {b e : EntityId} (hbe : b < e) : ∀ (n : Nat) (vec : Table), (∀ it ∈ vec, it.begin_ < it.end_) →
    vec.countP (fun it => decide (Around b e it)) < n → bindLoop b e n vec = some (cutAll b e vec)
  | 0,     _,   _,    h => by omega
  | n + 1, vec, hvec, h => by
    rw [bindLoop]
    rcases bindScan_cases hbe vec hvec with hs | ⟨vec', hs, hc, hne, hlt⟩
    · rw [hs]
    · rw [hs]
      simp only
      rw [bindLoop_eq hbe n vec' hne (by omega), hc]

theorem bind_eq (t : LockFreeRouteTable) (ht : Disjoint t.pending) {b e : EntityId} (hbe : b < e) (w : WorkerIndex) :
    t.bind (t.pending.length + 1) b e w = some { t with pending := cutAll b e t.pending ++ [⟨b, e, w⟩] } := by
  have hcount := List.countP_le_length (l := t.pending) (p := fun it => decide (Around b e it))
  rw [bind, if_neg (not_le.2 hbe), bindLoop_eq hbe _ _ ht.nonempty (by omega)]
  rfl

/-! ## Unbind -/

/-- Below some id, the next id is the next. -/
theorem lt_succ_iff {id y : EntityId} (h : id < y) (x : EntityId) : x < id + 1 ↔ x ≤ id := by
  have hid : (id + 1 : EntityId).val = id.val + 1 := by
    have := y.isLt
    have hlt : id.val < y.val := h
    rw [Fin.val_add]
    exact Nat.mod_eq_of_lt (by show id.val + 1 < _; omega)
  rw [Fin.lt_def, Fin.le_def, hid]
  omega

theorem succ_le_iff {id y : EntityId} (h : id < y) (x : EntityId) : id + 1 ≤ x ↔ id < x := by
  rw [← not_lt, lt_succ_iff h, not_le]

/-- The entry that holds the id loses it as a cut of one id would have it. -/
theorem unbindLoop_eq (id : EntityId) : ∀ vec : Table, Disjoint vec →
    (∃ it ∈ vec, it.Covers id) → unbindLoop id vec = cutAll id (id + 1) vec
  | [],        _, h => by obtain ⟨it, hit, -⟩ := h; cases hit
  | it :: vec, hd, h => by
    have hne := hd.nonempty it List.mem_cons_self
    have hrest : Disjoint vec := ⟨fun d hm => hd.nonempty d (List.mem_cons_of_mem it hm), (List.pairwise_cons.1 hd.apart).2⟩
    rw [unbindLoop]
    split
    · rename_i hin
      have hsucc : id < id + 1 := (lt_succ_iff hin.2 id).2 (le_refl id)
      -- no other entry holds the id
      have htail : cutAll id (id + 1) vec = vec := by
        have : ∀ d ∈ vec, d.cut id (id + 1) = [d] := by
          intro d hm
          refine IntervalMap.Entry.cut_of_apart hsucc (hrest.nonempty d hm) ?_
          by_contra hc
          rw [not_or, not_le, succ_le_iff hin.2, not_lt] at hc
          have hap := (List.pairwise_cons.1 hd.apart).1 d hm
          exact hap.not_covers hin ⟨hc.2, hc.1⟩
        rw [cutAll, List.flatMap_congr this]
        simp
      have hcons : cutAll id (id + 1) (it :: vec) = it.cut id (id + 1) ++ vec := by
        rw [cutAll, List.flatMap_cons]
        exact congrArg _ htail
      have hle : id + 1 ≤ it.end_ := (succ_le_iff hin.2 _).2 hin.2
      rw [hcons]
      split
      · rename_i h1
        rw [cut_erase h1.1.ge h1.2.le, List.nil_append]
      · rename_i h1
        split
        · rename_i h2
          have hend : id + 1 < it.end_ := lt_of_le_of_ne hle fun h3 => h1 ⟨h2, h3.symm⟩
          rw [cut_truncate_right h2.ge (by rw [h2]; exact hsucc) hend, List.singleton_append]
        · rename_i h2
          have hbeg : it.begin_ < id := lt_of_le_of_ne hin.1 h2
          split
          · rename_i h3
            rw [cut_truncate_left hbeg hin.2 h3.le, List.singleton_append]
          · rename_i h3
            rw [cut_split hsucc ⟨hbeg, lt_of_le_of_ne hle (Ne.symm h3)⟩]
            rfl
    · rename_i hout
      have h' : ∃ d ∈ vec, d.Covers id := by
        obtain ⟨d, hm, hdx⟩ := h
        rcases List.mem_cons.1 hm with rfl | hm
        · exact absurd hdx hout
        · exact ⟨d, hm, hdx⟩
      obtain ⟨d, hm, hdx⟩ := h'
      have hsucc : id < id + 1 := (lt_succ_iff hdx.2 id).2 (le_refl id)
      have hcut : it.cut id (id + 1) = [it] := by
        refine IntervalMap.Entry.cut_of_apart hsucc hne ?_
        by_contra hc
        rw [not_or, not_le, succ_le_iff hdx.2, not_lt] at hc
        exact hout ⟨hc.2, hc.1⟩
      rw [unbindLoop_eq id vec hrest ⟨d, hm, hdx⟩, cutAll, cutAll, List.flatMap_cons, hcut]
      rfl

theorem unbindLoop_of_uncovered (id : EntityId) : ∀ vec : Table, (∀ it ∈ vec, ¬ it.Covers id) → unbindLoop id vec = vec
  | [],        _ => rfl
  | it :: vec, h => by
    have hit : ¬ (it.begin_ ≤ id ∧ id < it.end_) := h it List.mem_cons_self
    rw [unbindLoop, if_neg hit, unbindLoop_of_uncovered id vec fun d hd => h d (List.mem_cons_of_mem it hd)]

/-- **Unbinding keeps the entries disjoint and removes the id and no other.** -/
theorem unbindLoop_spec (id : EntityId) (vec : Table) (hd : Disjoint vec) :
    Disjoint (unbindLoop id vec) ∧
      ∀ x, IntervalMap.lookup (unbindLoop id vec) x = if x = id then none else IntervalMap.lookup vec x := by
  by_cases h : ∃ it ∈ vec, it.Covers id
  · obtain ⟨it, hit, hx⟩ := h
    have hsucc : id < id + 1 := (lt_succ_iff hx.2 id).2 (le_refl id)
    rw [unbindLoop_eq id vec hd ⟨it, hit, hx⟩]
    refine ⟨hd.cutAll hsucc, fun x => ?_⟩
    rw [hd.lookup_cutAll hsucc]
    have : (id ≤ x ∧ x < id + 1) ↔ x = id := by
      rw [lt_succ_iff hx.2]
      exact ⟨fun h => le_antisymm h.2 h.1, fun h => by rw [h]; exact ⟨le_refl _, le_refl _⟩⟩
    simp only [this]
  · have hun : ∀ it ∈ vec, ¬ it.Covers id := fun it hit hx => h ⟨it, hit, hx⟩
    rw [unbindLoop_of_uncovered id vec hun]
    refine ⟨hd, fun x => ?_⟩
    split
    · rename_i hx
      rw [hx]
      exact IntervalMap.lookup_eq_none.2 hun
    · rfl

/-! ## Freeze and Lookup -/

/-- Entries in order are never merged. -/
theorem foldl_freezeEntry : ∀ (vec snapshot : Table), Ordered (snapshot ++ vec) →
    vec.foldl freezeEntry snapshot = snapshot ++ vec
  | [],       snapshot, _ => by simp
  | e :: vec, snapshot, h => by
    have hstep : freezeEntry snapshot e = snapshot ++ [e] := by
      unfold freezeEntry
      cases hl : snapshot.getLast? with
      | none => rw [List.getLast?_eq_none_iff.1 hl]; rfl
      | some back =>
        have := (List.pairwise_append.1 h).2.2 back (List.mem_of_getLast? hl) e List.mem_cons_self
        simp only
        rw [if_neg (not_lt.2 this)]
    rw [List.foldl_cons, hstep, foldl_freezeEntry vec (snapshot ++ [e]) (by simpa using h)]
    simp

/-- **Freezing sorts**: it merges nothing. -/
theorem freeze_spec (t : LockFreeRouteTable) (ht : Disjoint t.pending) :
    Disjoint t.freeze.pending ∧ Ordered t.freeze.pending ∧ t.freeze.current = some t.freeze.pending ∧
      ∀ x, IntervalMap.lookup t.freeze.pending x = IntervalMap.lookup t.pending x := by
  have hp : t.freeze.pending.Perm t.pending := List.mergeSort_perm _ _
  have hd := ht.perm hp.symm
  have hs : t.freeze.pending.Pairwise fun d e => d.begin_ ≤ e.begin_ := by
    have htrans : ∀ a b c : Entry, decide (a.begin_ ≤ b.begin_) = true → decide (b.begin_ ≤ c.begin_) = true →
        decide (a.begin_ ≤ c.begin_) = true := fun a b c h1 h2 => by
      simp only [decide_eq_true_eq] at *
      exact h1.trans h2
    have htotal : ∀ a b : Entry, (decide (a.begin_ ≤ b.begin_) || decide (b.begin_ ≤ a.begin_)) = true := fun a b => by
      simpa using le_total a.begin_ b.begin_
    exact (List.pairwise_mergeSort htrans htotal t.pending).imp fun h => by simpa using h
  have ho := hd.ordered hs
  refine ⟨hd, ho, ?_, fun x => (ht.lookup_perm hp.symm x).symm⟩
  exact congrArg some (foldl_freezeEntry t.freeze.pending [] ho)

/-- **The binary search is the map.** -/
theorem lookup_eq (t : LockFreeRouteTable) (table : Table) (hcur : t.current = some table) (hd : Disjoint table)
    (ho : Ordered table) (id : EntityId) : t.lookup id = (IntervalMap.lookup table id).getD kInvalidWorker := by
  -- the entries up to the id, and those past it
  obtain ⟨l, m, rfl, hl, hm⟩ : ∃ l m, table = l ++ m ∧ (∀ e ∈ l, e.begin_ ≤ id) ∧ ∀ e ∈ m, id < e.begin_ := by
    clear hcur
    induction table with
    | nil => exact ⟨[], [], rfl, by simp, by simp⟩
    | cons a table ih =>
      have hd' : Disjoint table := ⟨fun e he => hd.nonempty e (List.mem_cons_of_mem a he), (List.pairwise_cons.1 hd.apart).2⟩
      by_cases ha : a.begin_ ≤ id
      · obtain ⟨l, m, rfl, hl, hm⟩ := ih hd' (List.pairwise_cons.1 ho).2
        exact ⟨a :: l, m, rfl, by simpa using ⟨ha, hl⟩, hm⟩
      · refine ⟨[], a :: table, rfl, by simp, ?_⟩
        have hlt := not_le.1 ha
        intro e he
        rcases List.mem_cons.1 he with rfl | he
        · exact hlt
        · have h1 := (List.pairwise_cons.1 ho).1 e he
          exact hlt.trans ((hd.nonempty a List.mem_cons_self).trans_le h1)
  have hub : UpperBound.upperBound (fun e : Entry => decide (id < e.begin_)) (l ++ m) = l.length :=
    UpperBound.upperBound_append _ l m (fun e he => by simpa using hl e he) (fun e he => by simpa using hm e he)
  rw [hd.lookup_append_sorted ho hl hm, lookup, hcur]
  simp only [hub]
  rcases List.eq_nil_or_concat' l with rfl | ⟨init, last, rfl⟩
  · simp
  · rw [if_neg (by simp), if_neg (by simp), List.getLast?_concat]
    have hget : (init ++ [last] ++ m)[(init ++ [last]).length - 1]? = some last := by
      simp
    rw [hget]
    by_cases hc : last.Covers id
    · rw [Option.filter_some, if_pos (by simpa using hc)]
      exact if_pos hc
    · rw [Option.filter_some, if_neg (by simpa using hc)]
      exact if_neg hc

/-! ## The refinement -/

/-- A table that stands for a plain map. -/
structure Refines (t : LockFreeRouteTable) (m : PlainRoutes) : Prop where
  disjoint : Disjoint t.pending
  live     : ∀ id, IntervalMap.lookup t.pending id = m.live id
  frozen   : (t.current = none ∧ ∀ id, m.frozen id = none) ∨
    ∃ table, t.current = some table ∧ Disjoint table ∧ Ordered table ∧ ∀ id, IntervalMap.lookup table id = m.frozen id

theorem Refines.init : Refines LockFreeRouteTable.init PlainRoutes.init :=
  ⟨.nil, fun _ => rfl, Or.inl ⟨rfl, fun _ => rfl⟩⟩

/-- **Every call ends and does to the table what it does to the map.** -/
theorem Refines.step {t : LockFreeRouteTable} {m : PlainRoutes} (h : t.Refines m) (op : Op) :
    ∃ t', t.step op = some t' ∧ t'.Refines (m.step op) := by
  cases op with
  | bind b e w =>
    by_cases hbe : b < e
    · refine ⟨_, bind_eq t h.disjoint hbe w, h.disjoint.assign hbe w, fun id => ?_, h.frozen⟩
      rw [h.disjoint.lookup_assign hbe w id]
      simp only [PlainRoutes.step, h.live]
    · refine ⟨t, by rw [LockFreeRouteTable.step, bind, if_pos (not_lt.1 hbe)], h.disjoint, fun id => ?_, h.frozen⟩
      have : ¬ (b ≤ id ∧ id < e) := fun hx => hbe (lt_of_le_of_lt hx.1 hx.2)
      simp only [PlainRoutes.step, if_neg this]
      exact h.live id
  | unbind id =>
    obtain ⟨hd, hl⟩ := unbindLoop_spec id t.pending h.disjoint
    refine ⟨_, rfl, hd, fun x => ?_, h.frozen⟩
    show IntervalMap.lookup (unbindLoop id t.pending) x = _
    rw [hl]
    simp only [PlainRoutes.step, h.live]
  | freeze =>
    obtain ⟨hd, ho, hc, hl⟩ := freeze_spec t h.disjoint
    exact ⟨_, rfl, hd, fun x => (hl x).trans (h.live x), Or.inr ⟨_, hc, hd, ho, fun x => (hl x).trans (h.live x)⟩⟩

theorem Refines.run : ∀ (ops : List Op) {t : LockFreeRouteTable} {m : PlainRoutes}, t.Refines m →
    ∃ t', t.run ops = some t' ∧ t'.Refines (m.run ops)
  | [],        t, m, h => ⟨t, rfl, h⟩
  | op :: ops, t, m, h => by
    obtain ⟨t', ht', h'⟩ := h.step op
    obtain ⟨t'', hrun, h''⟩ := h'.run ops
    refine ⟨t'', ?_, h''⟩
    rw [LockFreeRouteTable.run, ht']
    exact hrun

theorem Refines.lookup {t : LockFreeRouteTable} {m : PlainRoutes} (h : t.Refines m) (id : EntityId) :
    t.lookup id = (m.frozen id).getD kInvalidWorker := by
  rcases h.frozen with ⟨hc, hn⟩ | ⟨table, hc, hd, ho, hl⟩
  · rw [LockFreeRouteTable.lookup, hc, hn]
    rfl
  · rw [lookup_eq t table hc hd ho, hl]

/-- **The route table refines a map in which the last writer wins.**  After any calls every `Bind` has ended, the pending
entries are disjoint and not empty, and `Lookup` finds what the map had at the last `Freeze`. -/
theorem run_refines (ops : List Op) : ∃ t, LockFreeRouteTable.init.run ops = some t ∧
    (∀ e ∈ t.pending, e.begin_ < e.end_) ∧ t.pending.Pairwise IntervalMap.Entry.Apart ∧
    ∀ id, t.lookup id = ((PlainRoutes.init.run ops).frozen id).getD kInvalidWorker := by
  obtain ⟨t, ht, h⟩ := Refines.init.run ops
  exact ⟨t, ht, h.disjoint.nonempty, h.disjoint.apart, h.lookup⟩

end LockFreeRouteTable
end Gb
