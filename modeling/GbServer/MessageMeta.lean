import GbServer.ReadBuffer
/-!
# MessageMeta — the 30 bytes in front of a message's data

`Meta` (`message_meta.h`) is packed to one byte, so it is its bytes; the fields are read off them.  `ReadMeta` takes one
block with `Next` and copies `meta_size` bytes from it.  The copy stays inside that block, and inside the `Meta`, only
when both are large enough (`readMetaBounded_iff`), and it is right and in place exactly when the block holds the whole
of the meta (`readMeta_sent_iff`).
-/
namespace Gb

open Bytes (slice overwrite leNat toLe)

/-- `sizeof(Meta)`, packed. -/
def metaStructSize : Nat := 30

structure Meta where
  raw        : List UInt8
  raw_length : raw.length = metaStructSize
  deriving DecidableEq

namespace Meta

def mode (m : Meta) : Nat := leNat (slice m.raw 0 1)

def userUniqueId (m : Meta) : Nat := leNat (slice m.raw 1 8)

def type (m : Meta) : Nat := leNat (slice m.raw 9 4)

def compressType (m : Meta) : Nat := leNat (slice m.raw 13 1)

def method (m : Meta) : Nat := leNat (slice m.raw 14 8)

def sequence (m : Meta) : Nat := leNat (slice m.raw 22 8)

/-- The default member initializers: every byte is zero. -/
def init : Meta := ⟨List.replicate metaStructSize 0, List.length_replicate⟩

/-- `memcpy` to the front of the `Meta`. -/
def copyIn (m : Meta) (bs : List UInt8) : Meta := ⟨overwrite m.raw 0 bs, by rw [Bytes.overwrite_length, m.raw_length]⟩

/-- An assignment to `sequence`. -/
def withSequence (m : Meta) (sequence : Nat) : Meta :=
  ⟨overwrite m.raw 22 (toLe 8 sequence), by rw [Bytes.overwrite_length, m.raw_length]⟩

theorem sequence_withSequence (m : Meta) {sequence : Nat} (h : sequence < 2 ^ 64) :
    (m.withSequence sequence).sequence = sequence := by
  have hlen : 22 + (toLe 8 sequence).length ≤ m.raw.length := by
    rw [Bytes.toLe_length, m.raw_length]
    decide
  have hslice := Bytes.slice_overwrite m.raw 22 (toLe 8 sequence) hlen
  rw [Bytes.toLe_length] at hslice
  unfold Meta.sequence withSequence
  dsimp only
  rw [hslice, Bytes.leNat_toLe]
  exact Nat.mod_eq_of_lt h

@[ext] theorem ext_raw {m n : Meta} (e : m.raw = n.raw) : m = n := by
  cases m; cases n; cases e; rfl

theorem copyIn_raw (m n : Meta) : m.copyIn n.raw = n := by
  apply ext_raw
  have hlen : 0 + n.raw.length ≤ m.raw.length := by rw [m.raw_length, n.raw_length]; decide
  show overwrite m.raw 0 n.raw = n.raw
  rw [Bytes.overwrite_eq _ _ _ hlen, List.take_zero, List.nil_append, List.drop_of_length_le, List.append_nil]
  rw [m.raw_length, n.raw_length]
  decide

end Meta

/-- The `memcpy` of `ReadMeta`: so many bytes to the front of the `Meta`, from the block that `Next` returned if it
returned one. -/
structure MetaCopy where
  source : Option ReadBuffer.Region
  size   : Nat

/-- `ReadMeta`: its `memcpy`, and then the `Meta` and the buffer behind it.  `none` is a `memcpy` from bytes that are not in
a live block, or past the end of the `Meta`. -/
def readMeta (p : TranBufPool) (input : ReadBuffer) (m : Meta) (metaSize : Nat) : MetaCopy × Option (Meta × ReadBuffer) :=
  match input.next with
  | (none, input)   => (⟨none, metaSize⟩, if metaSize = 0 then some (m, input) else none)
  | (some r, input) => (⟨some r, metaSize⟩,
    match p.read r.data r.offset metaSize with
    | none    => none
    | some bs =>
      if metaStructSize < metaSize then none
      else some (m.copyIn bs, if toInt32 metaSize < r.size then input.backUp (r.size - toInt32 metaSize) else input))

/-- `NetworkManager::OnReceiveCall`, up to `Dispatch`. -/
def onReceiveCall (p : TranBufPool) (buffer : ReadBuffer) (metaSize : Int) : Option (Meta × ReadBuffer) :=
  (readMeta p buffer .init (toSizeT metaSize)).2

namespace ReadBuffer

/-- The bytes of the first block that `Next` gives. -/
def firstSize (rb : ReadBuffer) : Int := ((rb.bufList[0]?).map BufferHandle.size).getD 0

end ReadBuffer

/-- The copy writes only the `Meta`, and reads only the block that `Next` returned. -/
def MetaCopy.Bounded (copy : MetaCopy) : Prop :=
  copy.size ≤ metaStructSize ∧ (copy.size : Int) ≤ (copy.source.map ReadBuffer.Region.size).getD 0

/-- `ReadMeta`, as `OnReceiveCall` calls it, stays in bounds. -/
def ReadMetaBounded (p : TranBufPool) (buffer : ReadBuffer) (metaSize : Int) : Prop :=
  (readMeta p buffer .init (toSizeT metaSize)).1.Bounded

theorem readMeta_copy (p : TranBufPool) (input : ReadBuffer) (m : Meta) (metaSize : Nat) :
    (readMeta p input m metaSize).1 = ⟨input.next.1, metaSize⟩ := by
  unfold readMeta
  split
  · rename_i hnext
    rw [hnext]
  · rename_i hnext
    rw [hnext]

/-- **`ReadMeta` stays in bounds exactly when the header's `meta_size` is one of a `Meta` or less, and the first block of
the message holds as many bytes.** -/
theorem readMetaBounded_iff (p : TranBufPool) (rb : ReadBuffer) (hrb : rb.Fresh) (metaSize : Int)
    (lo : -2 ^ 31 ≤ metaSize) (hi : metaSize < 2 ^ 31) :
    ReadMetaBounded p rb metaSize ↔ 0 ≤ metaSize ∧ metaSize ≤ metaStructSize ∧ metaSize ≤ rb.firstSize := by
  have hnext : ((rb.next.1).map ReadBuffer.Region.size).getD 0 = rb.firstSize := by
    unfold ReadBuffer.next ReadBuffer.firstSize
    rw [hrb.curIt, hrb.curPos]
    cases rb.bufList[0]? with
    | none => rfl
    | some h => simp
  rw [ReadMetaBounded, readMeta_copy, MetaCopy.Bounded, hnext]
  dsimp only
  constructor
  · rintro ⟨h1, h2⟩
    have hpos : 0 ≤ metaSize := by
      by_contra hneg
      simp only [toSizeT, metaStructSize] at h1
      omega
    have e := toSizeT_of_range metaSize hpos (by omega)
    omega
  · rintro ⟨h0, h1, h2⟩
    have e := toSizeT_of_range metaSize h0 (by omega)
    omega

/-- What a receiver does with a meta that a sender wrote: it has the same `Meta`, and the buffer stands at the first
byte of the data. -/
def RecoversMeta (p : TranBufPool) (rb : ReadBuffer) (m : Meta) (data : List UInt8) : Prop :=
  ∃ rb', onReceiveCall p rb metaStructSize = some (m, rb') ∧ rb'.remaining p = some data ∧
    rb'.byteCount = metaStructSize

/-- **A meta is recovered exactly when the first block of its message holds the whole of it.** -/
theorem readMeta_sent_iff (p : TranBufPool) (rb : ReadBuffer) (hrb : rb.Fresh) (m : Meta) (data : List UInt8)
    (hbytes : rb.toString p = some (m.raw ++ data)) :
    RecoversMeta p rb m data ↔ (metaStructSize : Int) ≤ rb.firstSize := by
  have hm := m.raw_length
  have hmeta : toSizeT (metaStructSize : Nat) = metaStructSize := by decide
  have hint : toInt32 (metaStructSize : Nat) = metaStructSize := by decide
  unfold RecoversMeta onReceiveCall readMeta ReadBuffer.firstSize
  rw [hmeta, hint]
  cases hl : rb.bufList with
  | nil =>
    rw [ReadBuffer.toString, hl, readHandles_nil, Option.some.injEq] at hbytes
    have := congrArg List.length hbytes
    rw [List.length_append, hm, List.length_nil, metaStructSize] at this
    omega
  | cons h hs =>
    have hnext : rb.next = (some ⟨h.data, h.offset, h.size⟩,
        { rb with curIt := 1, curPos := 0, lastBytes := h.size, readBytes := h.size }) := by
      unfold ReadBuffer.next
      simp [hrb.curIt, hrb.curPos, hrb.readBytes, hl]
    rw [hnext]
    simp only [List.length_cons, Nat.zero_lt_succ, getElem?_pos, List.getElem_cons_zero, Option.map_some,
      Option.getD_some]
    rw [ReadBuffer.toString, hl] at hbytes
    obtain ⟨x, xs, hx, hxs, hcat⟩ := readHandles_cons_inv hbytes
    constructor
    · rintro ⟨rb', hrb', -, hcount⟩
      by_contra hlt
      split at hrb'
      · cases hrb'
      · rw [if_neg (Nat.lt_irrefl _), if_neg (by omega), Option.some.injEq, Prod.mk.injEq] at hrb'
        rw [← hrb'.2] at hcount
        have e : h.size = metaStructSize := hcount
        omega
    · intro hle
      have hxlen : x.length = h.size.toNat := by
        obtain ⟨k, -, -, hk⟩ := TranBufPool.live_of_read hx
        exact TranBufPool.read_length hx
      -- the block's bytes are the meta and the first bytes of the data
      obtain ⟨y, hy⟩ : ∃ y, x = m.raw ++ y := by
        refine ⟨x.drop metaStructSize, ?_⟩
        rw [← hm]
        have ht : x.take m.raw.length = m.raw := by
          have := congrArg (List.take m.raw.length) hcat
          rw [List.take_left, List.take_append_of_le_length (by omega)] at this
          exact this.symm
        conv => lhs; rw [← List.take_append_drop m.raw.length x, ht]
      subst hy
      have hdata : data = y ++ xs := by
        rw [List.append_assoc] at hcat
        exact List.append_cancel_left hcat
      have hread : p.read h.data h.offset metaStructSize = some m.raw ∧
          p.read h.data (h.offset + metaStructSize) y.length = some y := by
        rw [BufferHandle.read, ← hxlen] at hx
        have := TranBufPool.read_append p h.data h.offset m.raw y hx
        rw [hm] at this
        exact this
      rw [List.length_append, hm] at hxlen
      rw [hread.1]
      simp only
      rw [if_neg (Nat.lt_irrefl _), Meta.copyIn_raw]
      refine ⟨_, rfl, ?_, ?_⟩
      · split
        · rename_i hgt
          rw [ReadBuffer.backUp, if_pos (by omega)]
          simp only [Nat.sub_self, ReadBuffer.remaining, hl, List.drop_zero, List.length_cons, Nat.zero_lt_succ,
            getElem?_pos, List.getElem_cons_zero, Option.map_some, Option.getD_some]
          rw [hdata]
          refine readHandles_cons_eq_some p _ hs y xs ?_ hxs
          have e1 : h.size - (h.size - (h.size - (metaStructSize : Int))) = y.length := by omega
          have e2 : h.offset + (h.size - (h.size - (metaStructSize : Int))) = h.offset + metaStructSize := by omega
          rw [BufferHandle.read, e1, e2, Int.toNat_natCast]
          exact hread.2
        · rename_i hge
          have hy0 : y = [] := List.eq_nil_of_length_eq_zero (by omega)
          rw [hdata, hy0, List.nil_append]
          simp only [ReadBuffer.remaining, hl]
          cases hs with
          | nil => exact hxs
          | cons h' hs' => simpa using hxs
      · split
        · rename_i hgt
          rw [ReadBuffer.backUp, if_pos (by omega)]
          show h.size - (h.size - (metaStructSize : Int)) = metaStructSize
          omega
        · rename_i hge
          show h.size = metaStructSize
          omega

end Gb
