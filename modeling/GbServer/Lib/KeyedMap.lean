import Mathlib.Data.List.Basic
/-!
# KeyedMap — maps whose keys stand for one another

A map holds two keys for the same where it says so, which need not be where they are equal: a search tree does if neither
is less, a hash table if a comparison finds them equal (`ThreeWay.keys`).  Here it is the list of its entries, in the order
in which they came.  An entry under a new key comes behind them; under another, what is mapped to the key that is there
changes, and that key stays (`insertOrAssign`).
-/

universe u v

/-- How a value stands to another, `none` where the two are unordered. -/
def ThreeWay (α : Type u) := α → α → Option Ordering

/-- What a map knows of its keys: which stand for one another, and which are less. -/
structure Keys (α : Type u) where
  same : α → α → Bool
  less : α → α → Bool

namespace ThreeWay

variable {α : Type u} {β : Type v}

/-- By the places of values, of those that have one. -/
def byRank (rank : α → Option Int) : ThreeWay α := fun x y =>
  match rank x, rank y with
  | some m, some n => some (compare m n)
  | _,      _      => none

def pair (c : ThreeWay α) (d : ThreeWay β) : ThreeWay (α × β) := fun x y =>
  match c x.1 y.1 with
  | some .eq => d x.2 y.2
  | o        => o

def lexicographic (c : ThreeWay α) : ThreeWay (List α)
  | [],      []      => some .eq
  | [],      _ :: _  => some .lt
  | _ :: _,  []      => some .gt
  | x :: xs, y :: ys =>
    match c x y with
    | some .eq => lexicographic c xs ys
    | o        => o

/-- Maps, along their entries in the order of the keys. -/
def entries (c : ThreeWay α) (d : ThreeWay β) : ThreeWay (List (α × β)) := fun xs ys =>
  (c.pair d).lexicographic (xs.mergeSort fun x y => c x.1 y.1 != some .gt) (ys.mergeSort fun x y => c x.1 y.1 != some .gt)

/-- The keys of a hash table, or of a search tree. -/
def keys (c : ThreeWay α) (hashed : Bool) : Keys α where
  same x y := if hashed then c x y == some .eq else c x y != some .lt && c y x != some .lt
  less x y := c x y == some .lt

end ThreeWay

namespace Keys

variable {α : Type u} {β : Type v}

/-- Keys that stand for themselves. -/
def ofEq [DecidableEq α] : Keys α := ⟨fun x y => decide (x = y), fun _ _ => false⟩

variable (keys : Keys α)

/-- The one of the keys that is found for another.  Several may stand for it, if it is unordered; a search tree is
searched for the first. -/
def finds (entries : List (α × β)) (key found : α) : Bool :=
  keys.same found key && entries.all fun e => !(keys.same e.1 key && keys.less e.1 found)

def assign (key : α) (val : β) (entries : List (α × β)) : List (α × β) :=
  if entries.any fun e => keys.same e.1 key then
    entries.map fun e => if keys.finds entries key e.1 then (e.1, val) else e
  else entries ++ [(key, val)]

variable {keys}

/-- The key is new. -/
theorem new_iff {key : α} {entries : List (α × β)} :
    ¬(entries.any fun e => keys.same e.1 key) = true ↔ ∀ e ∈ entries, keys.same e.1 key = false := by
  simp only [Bool.not_eq_true, List.any_eq_false]

theorem assign_new {key : α} {entries : List (α × β)} (h : ¬(entries.any fun e => keys.same e.1 key) = true) (val : β) :
    keys.assign key val entries = entries ++ [(key, val)] := by
  rw [assign, if_neg h]

theorem assign_old {key : α} {entries : List (α × β)} (h : (entries.any fun e => keys.same e.1 key) = true) (val : β) :
    keys.assign key val entries = entries.map fun e => if keys.finds entries key e.1 then (e.1, val) else e := by
  rw [assign, if_pos h]

/-- No key stands for one that came before. -/
def Apart (keys : Keys α) (entries : List (α × β)) : Prop := entries.Pairwise fun d e => keys.same d.1 e.1 = false

theorem Apart.assign {entries : List (α × β)} (h : keys.Apart entries) (key : α) (val : β) :
    keys.Apart (keys.assign key val entries) := by
  by_cases hold : (entries.any fun e => keys.same e.1 key) = true
  · -- the keys are those that were there
    rw [assign_old hold, Apart, List.pairwise_map]
    refine h.imp fun {d e} hde => ?_
    split <;> split <;> exact hde
  · rw [assign_new hold, Apart, List.pairwise_append]
    refine ⟨h, List.pairwise_singleton _ _, fun e he e' he' => ?_⟩
    rw [List.mem_singleton.1 he']
    exact new_iff.1 hold e he

theorem Apart.nodup [DecidableEq α] {entries : List (α × β)} (h : (ofEq : Keys α).Apart entries) :
    (entries.map Prod.fst).Nodup := List.pairwise_map.2 (h.imp fun hne => of_decide_eq_false hne)

theorem finds_ofEq [DecidableEq α] (entries : List (α × β)) (key found : α) :
    ofEq.finds entries key found = decide (found = key) := by simp [finds, ofEq]

end Keys

/-- A map by its entries. -/
def KeyedMap {α : Type u} (keys : Keys α) (β : Type v) : Type (max u v) := {entries : List (α × β) // keys.Apart entries}

namespace KeyedMap

variable {α : Type u} {β : Type v} {keys : Keys α}

def empty : KeyedMap keys β := ⟨[], List.Pairwise.nil⟩

def insertOrAssign (map : KeyedMap keys β) (key : α) (val : β) : KeyedMap keys β :=
  ⟨keys.assign key val map.1, map.2.assign key val⟩

/-- The map that entries make, one after another, on top of a map. -/
def insertAll (map : KeyedMap keys β) (entries : List (α × β)) : KeyedMap keys β :=
  entries.foldl (fun map entry => map.insertOrAssign entry.1 entry.2) map

/-- Entries that fit behind a map come there. -/
theorem insertAll_eq : ∀ (entries : List (α × β)) (map whole : KeyedMap keys β), whole.1 = map.1 ++ entries →
    map.insertAll entries = whole
  | [],           map, whole, h => by
    rw [List.append_nil] at h
    exact Subtype.ext h.symm
  | e :: entries, map, whole, h => by
    have hnew : ∀ d ∈ map.1, keys.same d.1 e.1 = false := by
      have hapart : keys.Apart (map.1 ++ e :: entries) := h ▸ whole.2
      exact fun d hd => (List.pairwise_append.1 hapart).2.2 d hd e List.mem_cons_self
    have hmap : (map.insertOrAssign e.1 e.2).1 = map.1 ++ [e] := Keys.assign_new (Keys.new_iff.2 hnew) e.2
    exact insertAll_eq entries (map.insertOrAssign e.1 e.2) whole
      (by rw [h, hmap, List.append_assoc, List.singleton_append])

end KeyedMap
