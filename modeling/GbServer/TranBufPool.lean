import GbServer.Lib.Bytes
/-!
# TranBufPool — the reference-counted blocks of the transfer buffers

A block is its size, its reference count and its data (`tran_buf_pool.h`); a pointer is the number of its block, and
`nullptr` is 0.  `malloc` takes a number no block has had, so a pointer that outlives its block reads nothing: a use
after the last `free` shows as `none`.  An allocation may fail; the caller says whether this one does.
-/
namespace Gb

open Bytes (slice overwrite)

/-- A block pointer. -/
abbrev BlockPtr := Nat

/-- `nullptr`. -/
def nullptr : BlockPtr := 0

def TRAN_BUF_BLOCK_BASE_SIZE : Nat := 64

def TRAN_BUF_BLOCK_MAX_FACTOR : Nat := 9

/-- `sizeof(int) * 2`: the size and the reference count in front of the data. -/
def blockHeadSize : Nat := 8

/-- A live block: its data fills the size, and somebody holds it. -/
structure Block where
  size         : Nat
  refCount     : Nat
  data         : List UInt8
  data_length  : data.length = size - blockHeadSize
  refCount_pos : 0 < refCount

/-- The live blocks, and the number of the next one. -/
structure TranBufPool where
  blocks   : BlockPtr → Option Block
  next     : BlockPtr
  next_pos : nullptr < next
  null     : blocks nullptr = none
  fresh    : ∀ b, next ≤ b → blocks b = none

namespace TranBufPool

/-- The pool before any allocation. -/
def init : TranBufPool := ⟨fun _ => none, 1, by decide, rfl, fun _ _ => rfl⟩

/-- `malloc(factor)`; `ok` says whether the system allocator has the memory. -/
def malloc (p : TranBufPool) (factor : Nat) (ok : Bool) : BlockPtr × TranBufPool :=
  if ok then
    let size := TRAN_BUF_BLOCK_BASE_SIZE <<< factor
    (p.next,
      { blocks   := fun b =>
          if b = p.next then some ⟨size, 1, List.replicate (size - blockHeadSize) 0, by simp, by decide⟩ else p.blocks b
        next     := p.next + 1
        next_pos := Nat.lt_succ_of_lt p.next_pos
        null     := by rw [if_neg (Nat.ne_of_lt p.next_pos)]; exact p.null
        fresh    := fun b hb => by
          rw [if_neg (Nat.ne_of_gt (Nat.lt_of_succ_le hb))]; exact p.fresh b (Nat.le_of_succ_le hb) })
  else (nullptr, p)

def blockSize (p : TranBufPool) (b : BlockPtr) : Nat := ((p.blocks b).map Block.size).getD 0

def capacity (p : TranBufPool) (b : BlockPtr) : Nat := p.blockSize b - blockHeadSize

def refCount (p : TranBufPool) (b : BlockPtr) : Nat := ((p.blocks b).map Block.refCount).getD 0

def modify (p : TranBufPool) (b : BlockPtr) (f : Block → Option Block) : TranBufPool where
  blocks   := fun b' => if b' = b then (p.blocks b).bind f else p.blocks b'
  next     := p.next
  next_pos := p.next_pos
  null     := by
    split
    · rename_i h; rw [← h, p.null]; rfl
    · exact p.null
  fresh    := fun b' hb' => by
    split
    · rename_i h; rw [← h, p.fresh b' hb']; rfl
    · exact p.fresh b' hb'

def addRef (p : TranBufPool) (b : BlockPtr) : TranBufPool :=
  p.modify b (fun k => some { k with refCount := k.refCount + 1, refCount_pos := Nat.succ_pos _ })

/-- A reference more to each of the blocks. -/
def addRefAll (p : TranBufPool) (bs : List BlockPtr) : TranBufPool := bs.foldl addRef p

/-- `free`: the last reference returns the block to the system. -/
def free (p : TranBufPool) (b : BlockPtr) : TranBufPool :=
  p.modify b (fun k =>
    if h : k.refCount = 1 then none
    else some { k with refCount := k.refCount - 1, refCount_pos := by have := k.refCount_pos; omega })

/-- A copy of `bs` to the block from `off`. -/
def write (p : TranBufPool) (b : BlockPtr) (off : Nat) (bs : List UInt8) : TranBufPool :=
  p.modify b (fun k => some { k with
    data := overwrite k.data off bs, data_length := by rw [Bytes.overwrite_length, k.data_length] })

/-- The `n` bytes from `off`, a pointer difference; `none` when they are not all in a live block. -/
def read (p : TranBufPool) (b : BlockPtr) (off : Int) (n : Nat) : Option (List UInt8) :=
  match p.blocks b with
  | none   => none
  | some k => if 0 ≤ off ∧ off.toNat + n ≤ k.data.length then some (slice k.data off.toNat n) else none

/-! ## What each operation leaves -/

@[simp] theorem modify_blocks (p : TranBufPool) (b b' : BlockPtr) (f : Block → Option Block) :
    (p.modify b f).blocks b' = if b' = b then (p.blocks b).bind f else p.blocks b' := rfl

@[simp] theorem modify_next (p : TranBufPool) (b : BlockPtr) (f : Block → Option Block) : (p.modify b f).next = p.next :=
  rfl

@[simp] theorem read_addRef (p : TranBufPool) (b b' : BlockPtr) (off : Int) (n : Nat) :
    (p.addRef b).read b' off n = p.read b' off n := by
  unfold read addRef
  rw [modify_blocks]
  by_cases h : b' = b
  · subst h; cases hb : p.blocks b' <;> simp
  · simp [h]

/-- A read in two halves. -/
theorem read_append (p : TranBufPool) (b : BlockPtr) (off : Int) (x y : List UInt8)
    (h : p.read b off (x ++ y).length = some (x ++ y)) :
    p.read b off x.length = some x ∧ p.read b (off + x.length) y.length = some y := by
  unfold read at h ⊢
  cases hk : p.blocks b with
  | none => rw [hk] at h; cases h
  | some k =>
    rw [hk] at h
    simp only at h ⊢
    split at h
    · rename_i hb
      have hlen : (x ++ y).length = x.length + y.length := List.length_append
      rw [Option.some.injEq, hlen, ← Bytes.slice_append] at h
      have h2 : (off + x.length).toNat = off.toNat + x.length := by omega
      have hx := Bytes.slice_length k.data off.toNat x.length (by omega)
      obtain ⟨e1, e2⟩ := List.append_inj h hx
      rw [if_pos ⟨hb.1, by omega⟩, if_pos ⟨by omega, by omega⟩, h2, e1, e2]
      exact ⟨rfl, rfl⟩
    · cases h

theorem refCount_addRef (p : TranBufPool) (b b' : BlockPtr) (hb : (p.blocks b).isSome) :
    (p.addRef b).refCount b' = p.refCount b' + if b' = b then 1 else 0 := by
  unfold refCount addRef
  rw [modify_blocks]
  by_cases h : b' = b
  · subst h
    obtain ⟨k, hk⟩ := Option.isSome_iff_exists.1 hb
    simp [hk]
  · simp [h]

theorem read_write_of_ne (p : TranBufPool) (b b' : BlockPtr) (off : Nat) (bs : List UInt8) (off' : Int) (n : Nat)
    (h : b' ≠ b) : (p.write b off bs).read b' off' n = p.read b' off' n := by
  unfold read write
  rw [modify_blocks, if_neg h]

/-- A window that ends before a copy reads as before it. -/
theorem read_write_of_le (p : TranBufPool) (b : BlockPtr) (k : Block) (hk : p.blocks b = some k) (off : Nat)
    (bs : List UInt8) (off' : Int) (n : Nat) (hfit : off + bs.length ≤ k.data.length) (h : off'.toNat + n ≤ off) :
    (p.write b off bs).read b off' n = p.read b off' n := by
  unfold read write
  rw [modify_blocks, if_pos rfl, hk]
  simp only [Option.bind_some, Bytes.overwrite_length, Bytes.slice_overwrite_of_le k.data off'.toNat n off bs hfit h]

theorem read_free_of_ne (p : TranBufPool) (b b' : BlockPtr) (off : Int) (n : Nat) (h : b' ≠ b) :
    (p.free b).read b' off n = p.read b' off n := by
  unfold read free
  rw [modify_blocks, if_neg h]

/-- A block with another reference still reads the same. -/
theorem read_free_of_shared (p : TranBufPool) (b : BlockPtr) (off : Int) (n : Nat) (h : p.refCount b ≠ 1) :
    (p.free b).read b off n = p.read b off n := by
  unfold read free
  rw [modify_blocks, if_pos rfl]
  unfold refCount at h
  cases hb : p.blocks b with
  | none => rfl
  | some k =>
    rw [hb] at h
    simp only [Option.map_some, Option.getD_some] at h
    simp [h]

theorem refCount_free (p : TranBufPool) (b b' : BlockPtr) :
    (p.free b).refCount b' = p.refCount b' - if b' = b then 1 else 0 := by
  unfold refCount free
  rw [modify_blocks]
  by_cases h : b' = b
  · subst h
    cases hb : p.blocks b' with
    | none => simp
    | some k => by_cases h1 : k.refCount = 1 <;> simp [h1]
  · simp [h]

@[simp] theorem refCount_write (p : TranBufPool) (b b' : BlockPtr) (off : Nat) (bs : List UInt8) :
    (p.write b off bs).refCount b' = p.refCount b' := by
  unfold refCount write
  rw [modify_blocks]
  by_cases h : b' = b
  · subst h; cases hb : p.blocks b' <;> simp
  · simp [h]

theorem live_of_read {p : TranBufPool} {b : BlockPtr} {off : Int} {n : Nat} {bs : List UInt8}
    (h : p.read b off n = some bs) : ∃ k, p.blocks b = some k ∧ 0 ≤ off ∧ off.toNat + n ≤ k.data.length := by
  unfold read at h
  split at h
  · cases h
  · rename_i k hk
    split at h
    · rename_i hb
      exact ⟨k, hk, hb⟩
    · cases h

theorem read_length {p : TranBufPool} {b : BlockPtr} {off : Int} {n : Nat} {bs : List UInt8}
    (h : p.read b off n = some bs) : bs.length = n := by
  unfold read at h
  split at h
  · cases h
  · split at h
    · rename_i hb
      rw [← Option.some.inj h, Bytes.slice_length _ _ _ hb.2]
    · cases h

theorem lt_next_of_live {p : TranBufPool} {b : BlockPtr} {k : Block} (h : p.blocks b = some k) : b < p.next := by
  by_contra hge
  rw [p.fresh b (Nat.le_of_not_lt hge)] at h
  cases h

theorem ne_nullptr_of_live {p : TranBufPool} {b : BlockPtr} {k : Block} (h : p.blocks b = some k) : b ≠ nullptr := by
  rintro rfl
  rw [p.null] at h
  cases h

theorem read_malloc (p : TranBufPool) (factor : Nat) (ok : Bool) (b : BlockPtr) (off : Int) (n : Nat)
    (h : b < p.next) : (p.malloc factor ok).2.read b off n = p.read b off n := by
  unfold malloc
  split
  · unfold read
    simp only [if_neg (Nat.ne_of_lt h)]
  · rfl

theorem refCount_malloc (p : TranBufPool) (factor : Nat) (b : BlockPtr) :
    (p.malloc factor true).2.refCount b = p.refCount b + if b = p.next then 1 else 0 := by
  unfold refCount malloc
  by_cases h : b = p.next
  · simp [h, p.fresh p.next (Nat.le_refl _)]
  · simp [h]

theorem blocks_write_of_ne (p : TranBufPool) {b c : BlockPtr} (off : Nat) (bs : List UInt8) (h : c ≠ b) :
    (p.write b off bs).blocks c = p.blocks c := if_neg h

theorem capacity_malloc (p : TranBufPool) (factor : Nat) :
    (p.malloc factor true).2.capacity p.next = TRAN_BUF_BLOCK_BASE_SIZE <<< factor - blockHeadSize := by
  show ((if p.next = p.next then _ else _ : Option Block).map Block.size).getD 0 - blockHeadSize = _
  rw [if_pos rfl]
  rfl

/-- The block that `malloc` returns. -/
theorem blocks_malloc (p : TranBufPool) (factor : Nat) : ∃ k, (p.malloc factor true).2.blocks p.next = some k ∧
    k.data.length = (p.malloc factor true).2.capacity p.next ∧ 0 < (p.malloc factor true).2.capacity p.next := by
  have hpos : 64 ≤ TRAN_BUF_BLOCK_BASE_SIZE <<< factor := by
    rw [Nat.shiftLeft_eq]
    exact Nat.le_mul_of_pos_right _ (Nat.two_pow_pos factor)
  have hcap := p.capacity_malloc factor
  refine ⟨_, if_pos rfl, ?_, ?_⟩
  · rw [hcap]
    exact List.length_replicate ..
  · rw [hcap, blockHeadSize]
    omega

theorem blocks_malloc_of_lt (p : TranBufPool) (factor : Nat) {b : BlockPtr} (h : b < p.next) :
    (p.malloc factor true).2.blocks b = p.blocks b := if_neg (Nat.ne_of_lt h)

theorem live_write (p : TranBufPool) (b : BlockPtr) (k : Block) (h : p.blocks b = some k) (off : Nat) (bs : List UInt8) :
    ∃ k', (p.write b off bs).blocks b = some k' ∧ k'.size = k.size ∧ k'.data = overwrite k.data off bs := by
  rw [write, modify_blocks, if_pos rfl, h]
  exact ⟨_, rfl, rfl, rfl⟩

end TranBufPool
end Gb
