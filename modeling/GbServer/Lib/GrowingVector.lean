import Mathlib.Data.List.Basic
/-!
# GrowingVector — pointers into a vector that grows

The elements of a vector lie in one block of memory.  An element that is added where the block is full moves all of them to
another block, and pointers to where they were point at nothing.  In a vector that has room for all that are added, every
pointer to an element stays with it (`deref_push`).
-/
namespace GrowingVector

variable {α : Type}

/-- The block that a vector has, how many elements fit there, and the elements. -/
structure Vec (α : Type) where
  block    : Nat
  capacity : Nat
  elems    : List α
  fits     : elems.length ≤ capacity

/-- A pointer to an element: the block, and the place there. -/
structure Ptr where
  block : Nat
  index : Nat
  deriving DecidableEq

namespace Vec

def empty : Vec α := ⟨0, 0, [], Nat.le_refl 0⟩

def reserve (v : Vec α) (n : Nat) : Vec α :=
  if h : n ≤ v.capacity then v
  else ⟨v.block + 1, n, v.elems, Nat.le_trans v.fits (Nat.le_of_not_le h)⟩

def push (v : Vec α) (x : α) : Vec α :=
  if h : v.elems.length < v.capacity then
    ⟨v.block, v.capacity, v.elems ++ [x], by
      rw [List.length_append, List.length_singleton]
      exact h⟩
  else
    ⟨v.block + 1, v.capacity + max v.capacity 1, v.elems ++ [x], by
      have := v.fits
      rw [List.length_append, List.length_singleton]
      omega⟩

/-- A pointer to the last element. -/
def back (v : Vec α) : Ptr := ⟨v.block, v.elems.length - 1⟩

/-- What a pointer points at; `none` where it is not into the block. -/
def deref (v : Vec α) (p : Ptr) : Option α := if p.block = v.block then v.elems[p.index]? else none

/-- Room for so many more elements. -/
def Room (v : Vec α) (n : Nat) : Prop := v.elems.length + n ≤ v.capacity

theorem room_reserve (n : Nat) : (empty.reserve n : Vec α).Room n := by
  unfold Room reserve
  split
  · rename_i h
    exact Nat.le_trans (Nat.le_of_eq (Nat.zero_add n)) h
  · exact Nat.le_of_eq (Nat.zero_add n)

@[simp] theorem elems_push (v : Vec α) (x : α) : (v.push x).elems = v.elems ++ [x] := by
  unfold push
  split <;> rfl

theorem Room.push {v : Vec α} {n : Nat} (h : v.Room (n + 1)) (x : α) : (v.push x).Room n := by
  unfold Room at h ⊢
  rw [elems_push, List.length_append, List.length_singleton, Vec.push, dif_pos (by omega)]
  dsimp only
  omega

/-- The pointer to an element that was just added. -/
theorem deref_back (v : Vec α) (x : α) : (v.push x).deref (v.push x).back = some x := by
  rw [deref, back, if_pos rfl, elems_push, List.length_append, List.length_singleton, Nat.add_sub_cancel,
    List.getElem?_append_right (Nat.le_refl _), Nat.sub_self]
  rfl

/-- **Where there is room, a pointer stays with its element.** -/
theorem deref_push {v : Vec α} {n : Nat} (h : v.Room (n + 1)) (x : α) {p : Ptr} {a : α} (hp : v.deref p = some a) :
    (v.push x).deref p = some a := by
  have hroom : v.elems.length < v.capacity := by
    unfold Room at h
    omega
  rw [deref] at hp
  split at hp
  · rename_i hblock
    have hlt : p.index < v.elems.length := (List.getElem?_eq_some_iff.1 hp).1
    rw [deref, Vec.push, dif_pos hroom, if_pos hblock, List.getElem?_append_left hlt, hp]
  · cases hp

end Vec

end GrowingVector
