import GbServer.CompressedStream
import GbServer.Lib.Run
/-!
# BlockInput — compressed blocks from a peer

`BlockCompressionInputStream` (`block_wrappers.cpp`) over bytes that may be anything.  `RawUncompress` keeps what
`LZ4_uncompress_unknownOutputSize` returns in a `size_t`, and `Next` hands it out as a size: of a block that is malformed, a
negative one.  `Skip` does nothing.  A run of calls is what a `ZeroCopyInputStream` demands exactly if no block that it comes
to is malformed, and nothing is skipped but behind the last byte (`behaves_iff`).
-/
namespace Gb

open Run (Along)

/-- What LZ4 and the coded stream of protobuf do.  `uncompress` is `LZ4_uncompress_unknownOutputSize`, from a block to a
buffer: what it returns, the size or a negative number, and what it leaves in the buffer.  `afterFailure` is what a coded
stream still has after a read that failed, and `memory` what a new buffer holds. -/
structure BlockReader where
  uncompress    : List UInt8 → List UInt8 → Int × List UInt8
  buffer_length : ∀ source dest, (uncompress source dest).2.length = dest.length
  le_length     : ∀ source dest, (uncompress source dest).1 ≤ dest.length
  neg_le        : ∀ source dest, -(source.length : Int) ≤ (uncompress source dest).1
  afterFailure  : List UInt8 → List UInt8
  suffix        : ∀ bs, afterFailure bs <:+ bs
  memory        : List UInt8
  memory_length : memory.length = BLOCKSIZE

/-- A `BlockCompressionInputStream`: `rest` is what its coded stream has not read, and `block` what the last block was
uncompressed to, if it was. -/
structure LZ4InputStream where
  outputBuffer     : List UInt8
  outputBufferSize : Nat := 0
  backedUpBytes    : Int := 0
  byteCount        : Int := 0
  rest             : List UInt8
  block            : Option (List UInt8) := none

namespace LZ4InputStream

/-- `RawUncompress`: the size is a `size_t`. -/
def rawUncompress (r : BlockReader) (s : LZ4InputStream) (input : List UInt8) : LZ4InputStream :=
  let (size, buffer) := r.uncompress input s.outputBuffer
  { s with
    outputBuffer     := buffer
    outputBufferSize := toSizeT size
    block            := if 0 ≤ size then some (buffer.take size.toNat) else none }

/-- `Next`: an offset into the buffer and a size, which is an `int`. -/
def next (r : BlockReader) (s : LZ4InputStream) : Option (Nat × Int) × LZ4InputStream :=
  if s.backedUpBytes ≠ 0 then
    (some (toSizeT (s.outputBufferSize - s.backedUpBytes), s.backedUpBytes),
      { s with backedUpBytes := 0, byteCount := s.byteCount + s.backedUpBytes })
  else
    match readVarint32 s.rest with
    | none                        => (none, { s with rest := r.afterFailure s.rest })
    | some (compressedSize, rest) =>
      if 2 * BLOCKSIZE < compressedSize then (none, { s with rest := rest })
      else if rest.length < compressedSize then (none, { s with rest := r.afterFailure rest })
      else
        let s := { s with rest := rest.drop compressedSize }.rawUncompress r (rest.take compressedSize)
        (some (0, toInt32 s.outputBufferSize), { s with byteCount := s.byteCount + toInt32 s.outputBufferSize })

def backUp (s : LZ4InputStream) (count : Int) : LZ4InputStream :=
  if count ≤ 0 then s
  else { s with backedUpBytes := s.backedUpBytes + count, byteCount := s.byteCount - count }

/-- `Skip`: the check in it only logs. -/
def skip (s : LZ4InputStream) (_count : Nat) : Bool × LZ4InputStream := (false, s)

/-- To read `count` bytes and to discard them, with at most `fuel` calls; `none` when these were not enough. -/
def discard (r : BlockReader) : Nat → LZ4InputStream → Int → Option (Bool × LZ4InputStream)
  | 0,        _, _     => none
  | fuel + 1, s, count =>
    if count ≤ 0 then some (true, s)
    else
      match s.next r with
      | (none, s)           => some (false, s)
      | (some (_, size), s) =>
        if count < size then some (true, s.backUp (size - count)) else discard r fuel s (count - size)

end LZ4InputStream

inductive BlockInputOp
  | next
  | backUp (count : Nat)
  | skip (count : Nat)

namespace LZ4InputStream

def init (r : BlockReader) (bs : List UInt8) : LZ4InputStream := { outputBuffer := r.memory, rest := bs }

/-- A call; `BackUp` stays within what has been handed out of the buffer. -/
def step (r : BlockReader) (s : LZ4InputStream) : BlockInputOp → LZ4InputStream
  | .next         => (s.next r).2
  | .backUp count => if (count : Int) ≤ s.outputBufferSize - s.backedUpBytes then s.backUp count else s
  | .skip count   => (s.skip count).2

/-- `Next` fails, or hands out at most a block: bytes that this was uncompressed to, which are counted. -/
def NextSound (r : BlockReader) (s : LZ4InputStream) : Prop :=
  match s.next r with
  | (none, _)                 => True
  | (some (offset, size), s') =>
    0 ≤ size ∧ size ≤ BLOCKSIZE ∧ s'.byteCount = s.byteCount + size ∧
      ∃ out, s'.block = some out ∧ offset + size.toNat ≤ out.length ∧
        (s'.outputBuffer.drop offset).take size.toNat = (out.drop offset).take size.toNat

/-- `Skip` is to read and to discard. -/
def SkipSound (r : BlockReader) (s : LZ4InputStream) (count : Nat) : Prop :=
  s.discard r (s.rest.length + 2) count = some (s.skip count)

/-- What a `ZeroCopyInputStream` demands of a call. -/
def Behaves (r : BlockReader) (s : LZ4InputStream) : BlockInputOp → Prop
  | .next       => s.NextSound r
  | .backUp _   => True
  | .skip count => s.SkipSound r count

/-- The bytes begin with a block that does not uncompress. -/
def Malformed (r : BlockReader) (dest bs : List UInt8) : Prop :=
  ∃ compressedSize rest, readVarint32 bs = some (compressedSize, rest) ∧ compressedSize ≤ 2 * BLOCKSIZE ∧
    compressedSize ≤ rest.length ∧ (r.uncompress (rest.take compressedSize) dest).1 < 0

/-- The bytes that are left are no size, and are not read. -/
def AtEnd (r : BlockReader) (bs : List UInt8) : Prop := readVarint32 bs = none ∧ r.afterFailure bs = bs

/-- No malformed block is come to, and something is skipped behind the last byte only. -/
def Meets (r : BlockReader) (s : LZ4InputStream) : BlockInputOp → Prop
  | .next       => s.backedUpBytes = 0 → ¬Malformed r s.outputBuffer s.rest
  | .backUp _   => True
  | .skip count => 0 < count ∧ s.backedUpBytes = 0 ∧ AtEnd r s.rest

/-! ## What `Next` does -/

/-- The size of a block goes through a `size_t` and comes back. -/
theorem toInt32_toSizeT {x : Int} (lo : -2 ^ 31 ≤ x) (hi : x < 2 ^ 31) : toInt32 (toSizeT x) = x := by
  unfold toInt32 toSizeT
  dsimp only
  split <;> omega

theorem readVarint32_length {bs rest : List UInt8} {n : Nat} (h : readVarint32 bs = some (n, rest)) :
    rest.length < bs.length := by
  obtain ⟨⟨m, rest'⟩, hread, heq⟩ := Option.map_eq_some_iff.1 h
  obtain ⟨-, rfl⟩ := Prod.mk.inj heq
  exact Varint.length_read hread

variable {r : BlockReader} {s s' : LZ4InputStream}

/-- A `Next` that goes on with the buffer. -/
theorem next_of_backedUp (h : s.backedUpBytes ≠ 0) : s.next r =
    (some (toSizeT (s.outputBufferSize - s.backedUpBytes), s.backedUpBytes),
      { s with backedUpBytes := 0, byteCount := s.byteCount + s.backedUpBytes }) := by
  rw [next, if_pos h]

/-- **A `Next` that goes on in the bytes**: it fails, and has then read something or nothing is a size; or it uncompresses a
block, which is malformed exactly if the size is negative. -/
theorem next_cases (hbuffer : s.outputBuffer.length = BLOCKSIZE) (h : s.backedUpBytes = 0) :
    (¬Malformed r s.outputBuffer s.rest ∧ ∃ rest, s.next r = (none, { s with rest := rest }) ∧
      rest.length ≤ s.rest.length ∧ (rest = s.rest ↔ AtEnd r s.rest)) ∨
    ∃ input rest size buffer, r.uncompress input s.outputBuffer = (size, buffer) ∧ rest.length < s.rest.length ∧
      (Malformed r s.outputBuffer s.rest ↔ size < 0) ∧ s.next r =
        (some (0, size), { s with
          outputBuffer     := buffer
          outputBufferSize := toSizeT size
          byteCount        := s.byteCount + size
          rest             := rest
          block            := if 0 ≤ size then some (buffer.take size.toNat) else none }) := by
  rw [next, if_neg (not_not_intro h)]
  cases hread : readVarint32 s.rest with
  | none   =>
    refine .inl ⟨?_, r.afterFailure s.rest, rfl, (r.suffix s.rest).length_le, ?_⟩
    · rintro ⟨n, rest, hsome, -⟩
      cases hread.symm.trans hsome
    · rw [AtEnd, hread, and_iff_right rfl]
  | some x =>
    obtain ⟨n, rest⟩ := x
    have hlt := readVarint32_length hread
    have hnotEnd : ¬AtEnd r s.rest := fun hend => (nomatch hread.symm.trans hend.1)
    have hof : Malformed r s.outputBuffer s.rest ↔ n ≤ 2 * BLOCKSIZE ∧ n ≤ rest.length ∧
        (r.uncompress (rest.take n) s.outputBuffer).1 < 0 := by
      constructor
      · rintro ⟨n', rest', hsome, hmalformed⟩
        obtain ⟨rfl, rfl⟩ := Prod.mk.inj (Option.some.inj (hread.symm.trans hsome))
        exact hmalformed
      · exact fun hmalformed => ⟨n, rest, hread, hmalformed⟩
    have hshort : ∀ rest' : List UInt8, rest'.length ≤ rest.length → (rest' = s.rest ↔ AtEnd r s.rest) := by
      intro rest' hle
      refine iff_of_false (fun heq => ?_) hnotEnd
      rw [heq] at hle
      omega
    dsimp only
    split
    · refine .inl ⟨fun hm => ?_, rest, rfl, Nat.le_of_lt hlt, hshort rest (Nat.le_refl _)⟩
      have hle := (hof.1 hm).1
      omega
    · split
      · have hle := (r.suffix rest).length_le
        refine .inl ⟨fun hm => ?_, r.afterFailure rest, rfl, by omega, hshort _ hle⟩
        have hle' := (hof.1 hm).2.1
        omega
      · rcases huncompress : r.uncompress (rest.take n) s.outputBuffer with ⟨size, buffer⟩
        have hlow := r.neg_le (rest.take n) s.outputBuffer
        have hhigh := r.le_length (rest.take n) s.outputBuffer
        rw [huncompress] at hlow hhigh
        have hsize : toInt32 (toSizeT size) = size := by
          have hn : (rest.take n).length ≤ n := List.length_take_le n rest
          rw [hbuffer] at hhigh
          unfold BLOCKSIZE at *
          exact toInt32_toSizeT (by omega) (by omega)
        have hdrop : (rest.drop n).length ≤ rest.length := by
          rw [List.length_drop]
          exact Nat.sub_le _ _
        refine .inr ⟨rest.take n, rest.drop n, size, buffer, huncompress, by omega, ?_, ?_⟩
        · rw [hof, huncompress]
          constructor
          · exact fun hmalformed => hmalformed.2.2
          · exact fun hneg => ⟨by omega, by omega, hneg⟩
        · rw [rawUncompress, huncompress]
          dsimp only
          rw [hsize]

/-! ## Calls and what is demanded of them -/

/-- The buffer has a block, of which a part was backed up, or nothing yet. -/
structure Good (s : LZ4InputStream) : Prop where
  buffer : s.outputBuffer.length = BLOCKSIZE
  block  : (s.block = none ∧ s.outputBufferSize = 0 ∧ s.backedUpBytes = 0) ∨
    ∃ out, s.block = some out ∧ out = s.outputBuffer.take out.length ∧ s.outputBufferSize = out.length ∧
      out.length ≤ BLOCKSIZE ∧ 0 ≤ s.backedUpBytes ∧ s.backedUpBytes ≤ out.length

theorem good_init (r : BlockReader) (bs : List UInt8) : (init r bs).Good :=
  ⟨r.memory_length, .inl ⟨rfl, rfl, rfl⟩⟩

/-- A block that was uncompressed. -/
theorem uncompressed {input dest buffer : List UInt8} {size : Int} (huncompress : r.uncompress input dest = (size, buffer))
    (hdest : dest.length = BLOCKSIZE) (hsize : 0 ≤ size) : buffer.length = BLOCKSIZE ∧ size.toNat ≤ BLOCKSIZE ∧
      (buffer.take size.toNat).length = size.toNat ∧ toSizeT size = size.toNat := by
  have hlength := r.buffer_length input dest
  have hle := r.le_length input dest
  rw [huncompress, hdest] at hlength hle
  have hto : (toSizeT size : Int) = size := toSizeT_of_range size hsize (by unfold BLOCKSIZE at hle; omega)
  refine ⟨hlength, by omega, ?_, by omega⟩
  rw [List.length_take, hlength]
  omega

theorem good_step (hs : s.Good) {op : BlockInputOp} (hmeets : s.Meets r op) : (s.step r op).Good := by
  cases op with
  | next         =>
    rw [step]
    by_cases hbacked : s.backedUpBytes = 0
    · rcases next_cases (r := r) hs.buffer hbacked with ⟨-, rest, hnext, -⟩ |
        ⟨input, rest, size, buffer, huncompress, -, hof, hnext⟩
      · rw [hnext]
        exact ⟨hs.buffer, hs.block⟩
      · have hsize : 0 ≤ size := by
          by_contra hneg
          exact hmeets hbacked (hof.2 (by omega))
        obtain ⟨hlength, hle, htake, hto⟩ := uncompressed huncompress hs.buffer hsize
        rw [hnext]
        refine ⟨hlength, .inr ⟨buffer.take size.toNat, if_pos hsize, ?_, ?_, ?_, ?_, ?_⟩⟩
        · rw [htake]
        · rw [htake]
          exact hto
        · rw [htake]
          exact hle
        · exact Int.le_of_eq hbacked.symm
        · show s.backedUpBytes ≤ _
          omega
    · rw [next_of_backedUp hbacked]
      rcases hs.block with ⟨-, -, hzero⟩ | ⟨out, hblock, htake, hsize, hle, -, -⟩
      · exact absurd hzero hbacked
      · exact ⟨hs.buffer, .inr ⟨out, hblock, htake, hsize, hle, Int.le_refl 0, Int.natCast_nonneg _⟩⟩
  | backUp count =>
    rw [step]
    split
    · rename_i hwithin
      rw [backUp]
      split
      · exact hs
      · refine ⟨hs.buffer, ?_⟩
        rcases hs.block with ⟨-, hsize, hzero⟩ | ⟨out, hblock, htake, hsize, hle, hlow, hhigh⟩
        · omega
        · exact .inr ⟨out, hblock, htake, hsize, hle, by show 0 ≤ s.backedUpBytes + (count : Int); omega,
            by show s.backedUpBytes + (count : Int) ≤ out.length; omega⟩
    · exact hs
  | skip count   => exact hs

/-- A window at the end of the front of a list. -/
theorem take_drop_take (l : List UInt8) {size n : Nat} (hle : n ≤ size) :
    ((l.take size).drop (size - n)).take n = (l.drop (size - n)).take n := by
  rw [List.drop_take, List.take_take]
  congr 1
  omega

/-- `Next` is sound exactly if it does not come to a malformed block. -/
theorem nextSound_iff (hs : s.Good) : s.NextSound r ↔ s.Meets r .next := by
  by_cases hbacked : s.backedUpBytes = 0
  · have hmeets : s.Meets r .next ↔ ¬Malformed r s.outputBuffer s.rest := by
      rw [Meets]
      exact ⟨fun h => h hbacked, fun h _ => h⟩
    rw [hmeets, NextSound]
    rcases next_cases (r := r) hs.buffer hbacked with ⟨hfine, rest, hnext, -⟩ |
      ⟨input, rest, size, buffer, huncompress, -, hof, hnext⟩
    · rw [hnext]
      exact iff_of_true trivial hfine
    · rw [hnext, hof]
      dsimp only
      constructor
      · rintro ⟨hsize, -⟩ hneg
        omega
      · intro hneg
        have hsize : 0 ≤ size := by omega
        obtain ⟨-, hle, htake, -⟩ := uncompressed huncompress hs.buffer hsize
        refine ⟨hsize, by omega, rfl, buffer.take size.toNat, if_pos hsize, by rw [htake, Nat.zero_add], ?_⟩
        rw [List.drop_zero, List.drop_zero, List.take_take, Nat.min_self]
  · refine iff_of_true ?_ fun h => absurd h hbacked
    rw [NextSound, next_of_backedUp hbacked]
    dsimp only
    rcases hs.block with ⟨-, -, hzero⟩ | ⟨out, hblock, htake, hsize, hle, hlow, hhigh⟩
    · exact absurd hzero hbacked
    · have hoff : toSizeT (s.outputBufferSize - s.backedUpBytes) = out.length - s.backedUpBytes.toNat := by
        have hto := toSizeT_of_range (s.outputBufferSize - s.backedUpBytes) (by omega) (by unfold BLOCKSIZE at hle; omega)
        omega
      rw [hoff]
      refine ⟨hlow, by omega, rfl, out, hblock, by omega, ?_⟩
      have hn : s.backedUpBytes.toNat ≤ out.length := by omega
      have hwindow := take_drop_take s.outputBuffer hn
      rw [← htake] at hwindow
      exact hwindow.symm

/-- What `Next` leaves. -/
theorem next_frame (hbuffer : s.outputBuffer.length = BLOCKSIZE) : (s.next r).2.outputBuffer.length = BLOCKSIZE ∧
    (s.next r).2.backedUpBytes = 0 ∧ (s.next r).2.rest.length ≤ s.rest.length := by
  by_cases hbacked : s.backedUpBytes = 0
  · rcases next_cases (r := r) hbuffer hbacked with ⟨-, rest, hnext, hle, -⟩ |
      ⟨input, rest, size, buffer, huncompress, hlt, -, hnext⟩
    · rw [hnext]
      exact ⟨hbuffer, hbacked, hle⟩
    · have hlength := r.buffer_length input s.outputBuffer
      rw [huncompress] at hlength
      rw [hnext]
      exact ⟨hlength.trans hbuffer, hbacked, Nat.le_of_lt hlt⟩
  · rw [next_of_backedUp hbacked]
    exact ⟨hbuffer, rfl, Nat.le_refl _⟩

/-- What is left where the bytes were not enough. -/
theorem discard_frame : ∀ (fuel : Nat) {s s' : LZ4InputStream} {count : Int}, s.outputBuffer.length = BLOCKSIZE →
    s.discard r fuel count = some (false, s') → s'.backedUpBytes = 0 ∧ s'.rest.length ≤ s.rest.length
  | 0,        _, _,  _,     _,       h => by cases h
  | fuel + 1, s, s', count, hbuffer, h => by
    have hframe := next_frame (r := r) hbuffer
    rw [discard] at h
    split at h
    · cases h
    · split at h
      · rename_i hnext
        obtain ⟨-, rfl⟩ := Prod.mk.inj (Option.some.inj h)
        rw [hnext] at hframe
        exact hframe.2
      · rename_i hnext
        rw [hnext] at hframe
        split at h
        · cases h
        · obtain ⟨hbacked, hle⟩ := discard_frame fuel hframe.1 h
          exact ⟨hbacked, Nat.le_trans hle hframe.2.2⟩

/-- To read and to discard comes to an end: every block takes a byte of what is left. -/
theorem discard_ends : ∀ (fuel : Nat) {s : LZ4InputStream} (count : Int), s.outputBuffer.length = BLOCKSIZE →
    s.rest.length + (if s.backedUpBytes = 0 then 0 else 1) < fuel → (s.discard r fuel count).isSome = true
  | 0,        _, _,     _,       hfuel => absurd hfuel (Nat.not_lt_zero _)
  | fuel + 1, s, count, hbuffer, hfuel => by
    have hframe := next_frame (r := r) hbuffer
    have hless : (s.next r).1.isSome = true → (s.next r).2.rest.length < fuel := by
      intro hsome
      by_cases hbacked : s.backedUpBytes = 0
      · rw [if_pos hbacked] at hfuel
        rcases next_cases (r := r) hbuffer hbacked with ⟨-, rest, hnext, -⟩ |
          ⟨input, rest, size, buffer, -, hlt, -, hnext⟩
        · rw [hnext] at hsome
          cases hsome
        · rw [hnext]
          show rest.length < fuel
          omega
      · rw [if_neg hbacked] at hfuel
        omega
    rw [discard]
    split
    · rfl
    · split
      · rfl
      · rename_i hnext
        rw [hnext] at hframe hless
        split
        · rfl
        · refine discard_ends fuel _ hframe.1 ?_
          rw [if_pos hframe.2.1]
          exact hless rfl

/-- `Skip` is sound behind the last byte alone. -/
theorem skipSound_iff (hs : s.Good) (count : Nat) : s.SkipSound r count ↔ s.Meets r (.skip count) := by
  rw [SkipSound, skip, discard]
  constructor
  · intro h
    split at h
    · cases h
    · rename_i hpos
      have hframe := next_frame (r := r) hs.buffer
      by_cases hbacked : s.backedUpBytes = 0
      · refine ⟨by omega, hbacked, ?_⟩
        rcases next_cases (r := r) hs.buffer hbacked with ⟨-, rest, hnext, -, hend⟩ |
          ⟨input, rest, size, buffer, -, hlt, -, hnext⟩
        · rw [hnext] at h
          exact hend.1 (congrArg LZ4InputStream.rest (Prod.mk.inj (Option.some.inj h)).2)
        · rw [hnext] at h hframe
          dsimp only at h
          split at h
          · cases h
          · have hle := (discard_frame _ hframe.1 h).2
            have hlt' : rest.length < s.rest.length := hlt
            change s.rest.length ≤ rest.length at hle
            omega
      · rw [next_of_backedUp hbacked] at h hframe
        dsimp only at h
        split at h
        · cases h
        · exact absurd (discard_frame _ hframe.1 h).1 hbacked
  · rintro ⟨hpos, hbacked, hend⟩
    rw [if_neg (by omega)]
    rcases next_cases (r := r) hs.buffer hbacked with ⟨-, rest, hnext, -, hiff⟩ |
      ⟨input, rest, size, buffer, -, hlt, -, hnext⟩
    · rw [hnext, hiff.2 hend]
    · have hnone : (s.next r).1 = none := by
        rw [next, if_neg (not_not_intro hbacked), hend.1]
      rw [hnext] at hnone
      cases hnone

/-- A call is as it is demanded exactly if it meets the condition. -/
theorem behaves_iff_meets (hs : s.Good) (op : BlockInputOp) : s.Behaves r op ↔ s.Meets r op := by
  cases op with
  | next         => exact nextSound_iff hs
  | backUp count => exact Iff.rfl
  | skip count   => exact skipSound_iff hs count

/-- **A run of calls is as it is demanded**, whatever the bytes are, if and only if no `Next` comes to a malformed block and
every `Skip` is behind the last byte. -/
theorem behaves_iff (r : BlockReader) (bs : List UInt8) (ops : List BlockInputOp) :
    Along (step r) (Behaves r) (init r bs) ops ↔ Along (step r) (Meets r) (init r bs) ops := by
  have hrel : ∀ (s t : LZ4InputStream) (op : BlockInputOp), s = t ∧ s.Good → t.Meets r op →
      s.step r op = t.step r op ∧ (s.step r op).Good := by
    rintro s _ op ⟨rfl, hs⟩ hmeets
    exact ⟨rfl, good_step hs hmeets⟩
  have hiff : ∀ (s t : LZ4InputStream) (op : BlockInputOp), s = t ∧ s.Good → (s.Behaves r op ↔ t.Meets r op) := by
    rintro s _ op ⟨rfl, hs⟩
    exact behaves_iff_meets hs op
  exact Run.along_iff hiff hrel ops ⟨rfl, good_init r bs⟩

/-- LZ4 for blocks that are one token and its literals; what else there is, it refuses at the first byte. -/
def uncompressLiterals (source dest : List UInt8) : Int × List UInt8 :=
  match source with
  | []                => (0, dest)
  | token :: literals =>
    if token = UInt8.ofNat (16 * literals.length) ∧ literals.length ≤ dest.length then
      (literals.length, Bytes.overwrite dest 0 literals)
    else (-1, dest)

theorem length_uncompressLiterals (source dest : List UInt8) : (uncompressLiterals source dest).2.length = dest.length := by
  unfold uncompressLiterals
  split
  · rfl
  · split
    · exact Bytes.overwrite_length _ _ _
    · rfl

theorem uncompressLiterals_le (source dest : List UInt8) : (uncompressLiterals source dest).1 ≤ dest.length := by
  unfold uncompressLiterals
  split
  · exact Int.natCast_nonneg _
  · split
    · rename_i hfits
      exact Int.ofNat_le.2 hfits.2
    · show (-1 : Int) ≤ dest.length
      omega

theorem neg_le_uncompressLiterals (source dest : List UInt8) : -(source.length : Int) ≤ (uncompressLiterals source dest).1 := by
  unfold uncompressLiterals
  split
  · exact Int.le_refl 0
  · rw [List.length_cons]
    split
    · dsimp only
      omega
    · dsimp only
      omega

theorem length_emptyBlock : (List.replicate BLOCKSIZE (0 : UInt8)).length = BLOCKSIZE := List.length_replicate

def literalReader : BlockReader where
  uncompress    := uncompressLiterals
  buffer_length := length_uncompressLiterals
  le_length     := uncompressLiterals_le
  neg_le        := neg_le_uncompressLiterals
  afterFailure  := fun _ => []
  suffix        := @List.nil_suffix UInt8
  memory        := List.replicate BLOCKSIZE 0
  memory_length := length_emptyBlock

/-- A block of one byte, the token of a literal that is not there. -/
theorem not_behaves : ¬∀ (r : BlockReader) (bs : List UInt8) (ops : List BlockInputOp),
    Along (step r) (Behaves r) (init r bs) ops := by
  intro h
  have hnext : (init literalReader [1, 0x10]).Meets literalReader .next :=
    (behaves_iff_meets (good_init literalReader [1, 0x10]) .next).1 (h literalReader [1, 0x10] [.next]).1
  have hmalformed : Malformed literalReader literalReader.memory [1, 0x10] :=
    ⟨1, [0x10], rfl, by decide, by decide, by decide⟩
  exact hnext rfl hmalformed

end LZ4InputStream

end Gb
