import Mathlib.Order.MinMax
import Mathlib.Data.List.Basic
import Mathlib.Data.List.Pairwise
import Mathlib.Tactic.Common
/-!
# IntervalMap — a finite map kept as disjoint half-open intervals

A list of intervals with values stands for a partial function (`lookup`).  While the intervals are disjoint and not
empty, the order of the list does not matter, cutting an interval out of all of them removes it from the domain
(`lookup_cutAll`), and assigning to an interval is cutting it out and adding it (`lookup_assign`); both keep the
intervals disjoint.  In a list sorted by begin the interval of a point is the last that begins at it or before
(`lookup_append_sorted`).
-/
namespace IntervalMap

variable {α β : Type} [LinearOrder α]

/-- The interval from `begin_` to `end_`, which is not part of it, with its value. -/
structure Entry (α β : Type) where
  begin_ : α
  end_   : α
  value  : β
  deriving DecidableEq

namespace Entry

def Covers (e : Entry α β) (x : α) : Prop := e.begin_ ≤ x ∧ x < e.end_

instance (e : Entry α β) (x : α) : Decidable (e.Covers x) := by unfold Covers; infer_instance

/-- Intervals one of which ends before the other begins. -/
def Apart (d e : Entry α β) : Prop := d.end_ ≤ e.begin_ ∨ e.end_ ≤ d.begin_

instance : Std.Symm (@Apart α β _) := ⟨fun _ _ h => Or.symm h⟩

theorem Apart.not_covers {d e : Entry α β} (h : d.Apart e) {x : α} (hd : d.Covers x) : ¬ e.Covers x := by
  rintro he
  rcases h with h | h
  · exact absurd (lt_of_lt_of_le hd.2 (h.trans he.1)) (lt_irrefl x)
  · exact absurd (lt_of_lt_of_le he.2 (h.trans hd.1)) (lt_irrefl x)

/-- What is left of an interval when `[b, e)` is cut out: a piece before it, a piece behind it, both or none. -/
def cut (b e : α) (d : Entry α β) : List (Entry α β) :=
  (if d.begin_ < b then [⟨d.begin_, min d.end_ b, d.value⟩] else []) ++
    if e < d.end_ then [⟨max d.begin_ e, d.end_, d.value⟩] else []

end Entry

/-- Intervals that are not empty and lie apart. -/
structure Disjoint (l : List (Entry α β)) : Prop where
  nonempty : ∀ e ∈ l, e.begin_ < e.end_
  apart    : l.Pairwise Entry.Apart

/-- The value at a point. -/
def lookup (l : List (Entry α β)) (x : α) : Option β := (l.find? (fun e => decide (e.Covers x))).map Entry.value

theorem Disjoint.nil : Disjoint ([] : List (Entry α β)) := ⟨by simp, .nil⟩

theorem Disjoint.perm {l m : List (Entry α β)} (h : Disjoint l) (hp : l.Perm m) : Disjoint m :=
  ⟨fun e he => h.nonempty e (hp.mem_iff.2 he), (hp.pairwise_iff (Std.Symm.symm _ _)).1 h.apart⟩

/-- At most one interval covers a point. -/
theorem Disjoint.unique {l : List (Entry α β)} (h : Disjoint l) {d e : Entry α β} (hd : d ∈ l) (he : e ∈ l) {x : α}
    (hdx : d.Covers x) (hex : e.Covers x) : d = e := by
  by_contra hne
  exact (h.apart.forall hd he hne).not_covers hdx hex

theorem lookup_eq_none {l : List (Entry α β)} {x : α} : lookup l x = none ↔ ∀ e ∈ l, ¬ e.Covers x := by
  simp [lookup]

/-- **A point has the value of the interval that covers it.** -/
theorem Disjoint.lookup_eq_some {l : List (Entry α β)} (h : Disjoint l) {x : α} {v : β} :
    lookup l x = some v ↔ ∃ e ∈ l, e.Covers x ∧ e.value = v := by
  constructor
  · intro hl
    rw [lookup, Option.map_eq_some_iff] at hl
    obtain ⟨e, he, rfl⟩ := hl
    exact ⟨e, List.mem_of_find?_eq_some he, by simpa using List.find?_some he, rfl⟩
  · rintro ⟨e, he, hex, rfl⟩
    cases hl : lookup l x with
    | none => exact absurd hex (lookup_eq_none.1 hl e he)
    | some w =>
      rw [lookup, Option.map_eq_some_iff] at hl
      obtain ⟨d, hd, rfl⟩ := hl
      have hdx : d.Covers x := by simpa using List.find?_some hd
      rw [h.unique (List.mem_of_find?_eq_some hd) he hdx hex]

/-- Disjoint lists that cover the same points with the same values are the same map. -/
theorem Disjoint.lookup_congr {l m : List (Entry α β)} (hl : Disjoint l) (hm : Disjoint m) {x : α}
    (h : ∀ v, (∃ e ∈ l, e.Covers x ∧ e.value = v) ↔ ∃ e ∈ m, e.Covers x ∧ e.value = v) : lookup l x = lookup m x := by
  apply Option.ext
  intro v
  rw [hl.lookup_eq_some, hm.lookup_eq_some]
  exact h v

theorem Disjoint.lookup_perm {l m : List (Entry α β)} (h : Disjoint l) (hp : l.Perm m) (x : α) :
    lookup l x = lookup m x :=
  h.lookup_congr (h.perm hp) fun v => by simp only [hp.mem_iff]

/-! ## Cutting -/

/-- **The pieces cover what the interval covers outside the cut.** -/
theorem Entry.covers_cut {b e : α} (d : Entry α β) (x : α) (v : β) :
    (∃ p ∈ d.cut b e, p.Covers x ∧ p.value = v) ↔ (d.Covers x ∧ d.value = v) ∧ ¬ (b ≤ x ∧ x < e) := by
  unfold Entry.cut Entry.Covers
  constructor
  · rintro ⟨p, hp, ⟨h1, h2⟩, rfl⟩
    rcases List.mem_append.1 hp with hp | hp
    · split at hp
      · rw [List.mem_singleton.1 hp] at h1 h2 ⊢
        exact ⟨⟨⟨h1, lt_of_lt_of_le h2 (min_le_left _ _)⟩, rfl⟩, fun h =>
          absurd (lt_of_lt_of_le h2 (min_le_right _ _)) (not_lt.2 h.1)⟩
      · cases hp
    · split at hp
      · rw [List.mem_singleton.1 hp] at h1 h2 ⊢
        exact ⟨⟨⟨(le_max_left _ _).trans h1, h2⟩, rfl⟩, fun h =>
          absurd h.2 (not_lt.2 ((le_max_right _ _).trans h1))⟩
      · cases hp
  · rintro ⟨⟨⟨h1, h2⟩, rfl⟩, hout⟩
    by_cases hx : x < b
    · refine ⟨⟨d.begin_, min d.end_ b, d.value⟩, List.mem_append_left _ ?_, ⟨h1, lt_min h2 hx⟩, rfl⟩
      rw [if_pos (lt_of_le_of_lt h1 hx)]
      exact List.mem_singleton_self _
    · have hex : e ≤ x := not_lt.1 fun h => hout ⟨not_lt.1 hx, h⟩
      refine ⟨⟨max d.begin_ e, d.end_, d.value⟩, List.mem_append_right _ ?_, ⟨max_le h1 hex, h2⟩, rfl⟩
      rw [if_pos (lt_of_le_of_lt hex h2)]
      exact List.mem_singleton_self _

/-- A piece lies in its interval. -/
theorem Entry.mem_cut {b e : α} {d p : Entry α β} (hp : p ∈ d.cut b e) (hd : d.begin_ < d.end_) :
    d.begin_ ≤ p.begin_ ∧ p.end_ ≤ d.end_ ∧ p.begin_ < p.end_ ∧ (p.end_ ≤ b ∨ e ≤ p.begin_) := by
  rcases List.mem_append.1 hp with hp | hp
  · split at hp
    · rename_i h
      rw [List.mem_singleton.1 hp]
      exact ⟨le_refl _, min_le_left _ _, lt_min hd h, Or.inl (min_le_right _ _)⟩
    · cases hp
  · split at hp
    · rename_i h
      rw [List.mem_singleton.1 hp]
      exact ⟨le_max_left _ _, le_refl _, max_lt hd h, Or.inr (le_max_right _ _)⟩
    · cases hp

theorem Entry.cut_apart {b e : α} (hbe : b < e) (d : Entry α β) : (d.cut b e).Pairwise Apart := by
  unfold Entry.cut
  split <;> split
  · simp only [List.singleton_append, List.pairwise_cons, List.mem_singleton, forall_eq]
    exact ⟨Or.inl ((min_le_right _ _).trans (hbe.le.trans (le_max_right _ _))), by simp⟩
  all_goals simp

/-- An interval apart from the cut stays whole. -/
theorem Entry.cut_of_apart {b e : α} (hbe : b < e) {d : Entry α β} (hd : d.begin_ < d.end_)
    (h : d.end_ ≤ b ∨ e ≤ d.begin_) : d.cut b e = [d] := by
  unfold Entry.cut
  rcases h with h | h
  · rw [if_pos (lt_of_lt_of_le hd h), if_neg (not_lt.2 (h.trans hbe.le)), min_eq_left h, List.append_nil]
  · rw [if_neg (not_lt.2 (hbe.le.trans h)), if_pos (lt_of_le_of_lt h hd), max_eq_left h, List.nil_append]

/-- `[b, e)` cut out of every interval. -/
def cutAll (b e : α) (l : List (Entry α β)) : List (Entry α β) := l.flatMap (Entry.cut b e)

theorem Disjoint.cutAll {l : List (Entry α β)} (h : Disjoint l) {b e : α} (hbe : b < e) : Disjoint (cutAll b e l) := by
  constructor
  · intro p hp
    obtain ⟨d, hd, hpd⟩ := List.mem_flatMap.1 hp
    exact (Entry.mem_cut hpd (h.nonempty d hd)).2.2.1
  · rw [IntervalMap.cutAll, List.pairwise_flatMap]
    refine ⟨fun d _ => d.cut_apart hbe, ?_⟩
    refine h.apart.imp_of_mem fun {c d} hc hd hcd p hp q hq => ?_
    obtain ⟨p1, p2, -, -⟩ := Entry.mem_cut hp (h.nonempty c hc)
    obtain ⟨q1, q2, -, -⟩ := Entry.mem_cut hq (h.nonempty d hd)
    rcases hcd with hcd | hcd
    · exact Or.inl (p2.trans (hcd.trans q1))
    · exact Or.inr (q2.trans (hcd.trans p1))

/-- **Cutting removes the interval from the domain and nothing else.** -/
theorem Disjoint.lookup_cutAll {l : List (Entry α β)} (h : Disjoint l) {b e : α} (hbe : b < e) (x : α) :
    lookup (IntervalMap.cutAll b e l) x = if b ≤ x ∧ x < e then none else lookup l x := by
  have hmem : ∀ v, (∃ p ∈ IntervalMap.cutAll b e l, p.Covers x ∧ p.value = v) ↔
      (∃ d ∈ l, d.Covers x ∧ d.value = v) ∧ ¬ (b ≤ x ∧ x < e) := by
    intro v
    simp only [IntervalMap.cutAll, List.mem_flatMap]
    constructor
    · rintro ⟨p, ⟨d, hd, hp⟩, hpx⟩
      obtain ⟨hdx, hout⟩ := (Entry.covers_cut d x v).1 ⟨p, hp, hpx⟩
      exact ⟨⟨d, hd, hdx⟩, hout⟩
    · rintro ⟨⟨d, hd, hdx⟩, hout⟩
      obtain ⟨p, hp, hpx⟩ := (Entry.covers_cut d x v).2 ⟨hdx, hout⟩
      exact ⟨p, ⟨d, hd, hp⟩, hpx⟩
  apply Option.ext
  intro v
  rw [(h.cutAll hbe).lookup_eq_some, hmem]
  split
  · rename_i hin
    simp [hin]
  · rename_i hout
    rw [h.lookup_eq_some]
    simp [hout]

theorem Disjoint.assign {l : List (Entry α β)} (h : Disjoint l) {b e : α} (hbe : b < e) (v : β) :
    Disjoint (IntervalMap.cutAll b e l ++ [⟨b, e, v⟩]) := by
  have hc := h.cutAll hbe
  constructor
  · intro d hd
    rcases List.mem_append.1 hd with hd | hd
    · exact hc.nonempty d hd
    · rw [List.mem_singleton.1 hd]; exact hbe
  · rw [List.pairwise_append]
    refine ⟨hc.apart, by simp, fun p hp q hq => ?_⟩
    rw [List.mem_singleton.1 hq]
    obtain ⟨d, hd, hpd⟩ := List.mem_flatMap.1 hp
    exact (Entry.mem_cut hpd (h.nonempty d hd)).2.2.2

/-- **Assigning to an interval**: the last writer wins there, and everything else stays. -/
theorem Disjoint.lookup_assign {l : List (Entry α β)} (h : Disjoint l) {b e : α} (hbe : b < e) (v : β) (x : α) :
    lookup (IntervalMap.cutAll b e l ++ [⟨b, e, v⟩]) x = if b ≤ x ∧ x < e then some v else lookup l x := by
  have hcut := h.lookup_cutAll hbe x
  by_cases hx : b ≤ x ∧ x < e
  · rw [if_pos hx, (h.assign hbe v).lookup_eq_some]
    exact ⟨⟨b, e, v⟩, List.mem_append_right _ (List.mem_singleton_self _), hx, rfl⟩
  · rw [if_neg hx] at hcut ⊢
    rw [← hcut]
    refine (h.assign hbe v).lookup_congr (h.cutAll hbe) fun w => ⟨?_, ?_⟩
    · rintro ⟨d, hd, hdx, hw⟩
      rcases List.mem_append.1 hd with hd | hd
      · exact ⟨d, hd, hdx, hw⟩
      · rw [List.mem_singleton.1 hd] at hdx
        exact absurd hdx hx
    · rintro ⟨d, hd, hdx⟩
      exact ⟨d, List.mem_append_left _ hd, hdx⟩

/-! ## Sorted lists -/

/-- Each interval ends before the next begins. -/
def Ordered (l : List (Entry α β)) : Prop := l.Pairwise fun d e => d.end_ ≤ e.begin_

/-- Disjoint intervals sorted by begin are in order. -/
theorem Disjoint.ordered {l : List (Entry α β)} (h : Disjoint l) (hs : l.Pairwise fun d e => d.begin_ ≤ e.begin_) :
    Ordered l := by
  refine (hs.and h.apart).imp_of_mem ?_
  rintro d e hd he ⟨hle, hap | hap⟩
  · exact hap
  · exact absurd (lt_of_lt_of_le (h.nonempty e he) (hap.trans hle)) (lt_irrefl _)

/-- **The interval of a point is the last that begins at it or before.** -/
theorem Disjoint.lookup_append_sorted {l m : List (Entry α β)} (h : Disjoint (l ++ m)) (ho : Ordered (l ++ m)) {x : α}
    (hl : ∀ e ∈ l, e.begin_ ≤ x) (hm : ∀ e ∈ m, x < e.begin_) :
    lookup (l ++ m) x = (l.getLast?.filter fun e => decide (e.Covers x)).map Entry.value := by
  have hm' : ∀ e ∈ m, ¬ e.Covers x := fun e he hc => absurd (hm e he) (not_lt.2 hc.1)
  rcases List.eq_nil_or_concat' l with rfl | ⟨init, last, rfl⟩
  · rw [List.nil_append, lookup_eq_none.2 hm']
    rfl
  · rw [List.getLast?_concat]
    by_cases hc : last.Covers x
    · rw [Option.filter_some, if_pos (by simpa using hc)]
      exact h.lookup_eq_some.2 ⟨last, by simp, hc, rfl⟩
    · rw [Option.filter_some, if_neg (by simpa using hc)]
      refine lookup_eq_none.2 fun e he hex => ?_
      rw [List.append_assoc] at he ho
      rcases List.mem_append.1 he with he | he
      · -- an earlier interval ends before the last one begins
        have := (List.pairwise_append.1 ho).2.2 e he last (by simp)
        have hlast := hl last (by simp)
        exact absurd (lt_of_lt_of_le hex.2 (this.trans hlast)) (lt_irrefl x)
      · rcases List.mem_cons.1 he with rfl | he
        · exact hc hex
        · exact hm' e he hex

end IntervalMap
