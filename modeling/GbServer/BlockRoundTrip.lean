import GbServer.BlockInput
import GbServer.MessageData
/-!
# BlockRoundTrip — what is written to a block stream and read from another

An `LZ4OutputStream` that is written by `Next`, `BackUp` and `Flush` in any order, and an `LZ4InputStream` that reads what it
has handed on by `Next` and `BackUp` in any order.  Writer and reader cut the bytes in pieces of their own: the one keeps whole
blocks and the front of another (`BlockWriting.Keeps`), the other has come to a place in a block (`BlockReading.Follows`).
What is read is what was written, from the front to the end, and both count it (`roundTrip`).
-/
namespace Gb

open Run (Always)
open Bytes (slice overwrite)

def LZ4_compressBound (size : Nat) : Nat := size + size / 255 + 16

/-- What LZ4 documents: a block of at most 64K is uncompressed from what it was compressed to, which keeps to
`LZ4_compressBound`. -/
structure LZ4Inverse (c : Codecs) (r : BlockReader) : Prop where
  uncompress : ∀ block dest : List UInt8, block.length ≤ BLOCKSIZE → dest.length = BLOCKSIZE →
    ∃ buffer, r.uncompress (c.lz4Compress block) dest = ((block.length : Int), buffer) ∧ buffer.take block.length = block
  bound      : ∀ block : List UInt8, block.length ≤ BLOCKSIZE →
    (c.lz4Compress block).length ≤ LZ4_compressBound block.length

/-- A call to an `LZ4OutputStream`.  The caller of `Next` puts `content` to the front of what it is given. -/
inductive BlockOutputOp
  | next (content : List UInt8)
  | backUp (count : Nat)
  | flush

/-- A stream and what was written to it. -/
structure BlockWriting where
  stream  : LZ4OutputStream := {}
  written : List UInt8 := []

/-- A call; `BackUp` stays within what has been handed out of the block. -/
def BlockWriting.step (c : Codecs) (w : BlockWriting) : BlockOutputOp → BlockWriting
  | .next content =>
    let ((offset, size), stream) := w.stream.next c
    let stream := stream.fill offset (content.take size)
    ⟨stream, w.written ++ slice (stream.inputBuffer.getD []) offset size⟩
  | .backUp count =>
    if w.stream.inputBuffer.isSome ∧ count ≤ BLOCKSIZE - w.stream.backedUpBytes then
      ⟨w.stream.backUp count, w.written.take (w.written.length - count)⟩
    else w
  | .flush        => ⟨w.stream.flush c, w.written⟩

/-- A stream and what was read from it. -/
structure BlockReading where
  stream : LZ4InputStream
  read   : List UInt8 := []

namespace BlockReading

/-- What a call adds to what was read, or takes from it. -/
def readBy (r : BlockReader) (g : BlockReading) : BlockInputOp → List UInt8
  | .next         =>
    match g.stream.next r with
    | (none, _)                      => g.read
    | (some (offset, size), stream)  => g.read ++ slice stream.outputBuffer offset size.toNat
  | .backUp count =>
    if (count : Int) ≤ g.stream.outputBufferSize - g.stream.backedUpBytes then g.read.take (g.read.length - count)
    else g.read
  | .skip _       => g.read

def step (r : BlockReader) (g : BlockReading) (op : BlockInputOp) : BlockReading := ⟨g.stream.step r op, g.readBy r op⟩

/-- What is read is the front of `written`, and all of it where `Next` fails. -/
def Reads (r : BlockReader) (written : List UInt8) (g : BlockReading) : Prop :=
  g.stream.byteCount = g.read.length ∧ g.read <+: written ∧ ((g.stream.next r).1 = none → g.read = written)

end BlockReading

/-- The calls `writes` and a last `Flush`, and the calls `reads` to a stream over what was handed on: both counts are right
all the time, what is read is what was written, and so many calls of `Next` as there are bytes come to the end of it. -/
def RoundTrip (c : Codecs) (r : BlockReader) (writes : List BlockOutputOp) (reads : List BlockInputOp) : Prop :=
  Always (BlockWriting.step c) (fun w => w.stream.byteCount = w.written.length) {} (writes ++ [.flush]) ∧
  let w := (writes ++ [BlockOutputOp.flush]).foldl (BlockWriting.step c) {}
  let g : BlockReading := ⟨.init r w.stream.subStream, []⟩
  Always (BlockReading.step r) (BlockReading.Reads r w.written) g reads ∧
    ((reads ++ List.replicate w.written.length BlockInputOp.next).foldl (BlockReading.step r) g).read = w.written

/-! ## Writing -/

namespace BlockWriting

variable {c : Codecs} {w : BlockWriting} {blocks : List (List UInt8)}

/-- The stream has what was written: whole blocks, none of them empty, and the front of one that is not flushed. -/
structure Keeps (c : Codecs) (w : BlockWriting) (blocks : List (List UInt8)) : Prop where
  wrote    : w.stream.Wrote c blocks w.written
  nonempty : ∀ b ∈ blocks, b ≠ []
  count    : w.stream.byteCount = w.written.length
  backed   : w.stream.backedUpBytes ≤ BLOCKSIZE
  idle     : w.stream.inputBuffer = none → w.stream.backedUpBytes = 0

theorem keeps_init (c : Codecs) : ({} : BlockWriting).Keeps c [] where
  wrote    := ⟨fun _ hb => absurd hb List.not_mem_nil, rfl, .inl ⟨rfl, rfl⟩⟩
  nonempty := fun _ hb => absurd hb List.not_mem_nil
  count    := rfl
  backed   := Nat.zero_le _
  idle     := fun _ => rfl

/-- After a flush there is no block, or one that is backed up entirely. -/
theorem Keeps.flush (h : w.Keeps c blocks) : ∃ blocks', (w.step c .flush).Keeps c blocks' ∧ w.written = blocks'.flatten := by
  obtain ⟨blocks', hwrote, hwritten, hmem⟩ := h.wrote.flush
  have hnonempty : ∀ b ∈ blocks', b ≠ [] := by
    intro b hb
    rcases hmem b hb with hb | hb
    · exact h.nonempty b hb
    · exact hb
  rw [step]
  by_cases hnothing : w.stream.inputBuffer = none ∨ BLOCKSIZE - w.stream.backedUpBytes = 0
  · rw [LZ4OutputStream.flush_of_nothing hnothing] at hwrote ⊢
    exact ⟨blocks', ⟨hwrote, hnonempty, h.count, h.backed, h.idle⟩, hwritten⟩
  · obtain ⟨hsome, hpart⟩ := not_or.1 hnothing
    obtain ⟨input, hinput⟩ := Option.ne_none_iff_exists'.1 hsome
    rw [LZ4OutputStream.flush_of_some hinput hpart] at hwrote ⊢
    exact ⟨blocks', ⟨hwrote, hnonempty, h.count, Nat.zero_le _, fun _ => rfl⟩, hwritten⟩

/-- What `Next` gives out: a block from `offset` to its end, behind what was written to it. -/
structure GivesOut (c : Codecs) (w : BlockWriting) (blocks : List (List UInt8)) (offset size : Nat) (input : List UInt8)
    (stream : LZ4OutputStream) : Prop where
  next     : w.stream.next c = ((offset, size), stream)
  sum      : offset + size = BLOCKSIZE
  buffer   : stream.inputBuffer = some input
  length   : input.length = BLOCKSIZE
  backed   : stream.backedUpBytes = 0
  count    : stream.byteCount = w.stream.byteCount + size
  written  : w.written = blocks.flatten ++ input.take offset
  flushed  : stream.subStream = blocks.flatMap (lz4Block c)
  small    : ∀ b ∈ blocks, b.length ≤ BLOCKSIZE
  nonempty : ∀ b ∈ blocks, b ≠ []

theorem Keeps.next (h : w.Keeps c blocks) : ∃ blocks' offset size input stream,
    w.GivesOut c blocks' offset size input stream := by
  by_cases hbacked : w.stream.backedUpBytes = 0
  · obtain ⟨blocks', hkeeps, hwritten⟩ := h.flush
    have hcount : (w.stream.flush c).byteCount = w.stream.byteCount := hkeeps.count.trans h.count.symm
    exact ⟨blocks', 0, BLOCKSIZE, List.replicate BLOCKSIZE 0, _, {
      next     := LZ4OutputStream.next_of_full hbacked
      sum      := Nat.zero_add _
      buffer   := rfl
      length   := List.length_replicate
      backed   := LZ4OutputStream.flush_backedUpBytes _ hbacked
      count    := by rw [hcount]
      written  := by
        rw [List.take_zero, List.append_nil]
        exact hwritten
      flushed  := hkeeps.wrote.flushed
      small    := hkeeps.wrote.small
      nonempty := hkeeps.nonempty }⟩
  · rcases h.wrote.pending with ⟨hnone, -⟩ | ⟨input, hsome, hlen, hwritten⟩
    · exact absurd (h.idle hnone) hbacked
    · exact ⟨blocks, BLOCKSIZE - w.stream.backedUpBytes, w.stream.backedUpBytes, input, _, {
        next     := if_pos hbacked
        sum      := Nat.sub_add_cancel h.backed
        buffer   := hsome
        length   := hlen
        backed   := rfl
        count    := rfl
        written  := hwritten
        flushed  := h.wrote.flushed
        small    := h.wrote.small
        nonempty := h.nonempty }⟩

/-- What is given out is written. -/
theorem GivesOut.step {offset size : Nat} {input : List UInt8} {stream : LZ4OutputStream}
    (h : w.GivesOut c blocks offset size input stream) (hcount : w.stream.byteCount = w.written.length)
    (content : List UInt8) : (w.step c (.next content)).Keeps c blocks := by
  have hsum := h.sum
  have hlen := h.length
  have hfilled := Bytes.overwrite_length input offset (content.take size)
  have hall : (overwrite input offset (content.take size)).take BLOCKSIZE =
      input.take offset ++ slice (overwrite input offset (content.take size)) offset size := by
    rw [← hsum, List.take_add, Bytes.take_overwrite_of_le _ _ _ _ (Nat.le_refl _)]
    rfl
  have hstep : w.step c (.next content) = ⟨stream.fill offset (content.take size),
      w.written ++ slice (overwrite input offset (content.take size)) offset size⟩ := by
    rw [BlockWriting.step, h.next]
    dsimp only [LZ4OutputStream.fill]
    rw [h.buffer]
    rfl
  rw [hstep]
  refine ⟨⟨h.small, h.flushed, .inr ⟨overwrite input offset (content.take size), ?_, hfilled.trans hlen, ?_⟩⟩, h.nonempty, ?_,
    Nat.le_trans (Nat.le_of_eq h.backed) (Nat.zero_le _), fun _ => h.backed⟩
  · show stream.inputBuffer.map _ = _
    rw [h.buffer]
    rfl
  · show _ = _ ++ (overwrite input offset (content.take size)).take (BLOCKSIZE - stream.backedUpBytes)
    rw [h.backed, Nat.sub_zero, hall, h.written, List.append_assoc]
  · show stream.byteCount = ((w.written ++ slice (overwrite input offset (content.take size)) offset size).length : Int)
    rw [List.length_append, Bytes.slice_length _ _ _ (by omega), h.count, hcount]
    rfl

/-- A call. -/
theorem Keeps.step (h : w.Keeps c blocks) (op : BlockOutputOp) : ∃ blocks', (w.step c op).Keeps c blocks' := by
  cases op with
  | next content =>
    obtain ⟨blocks', _, _, _, _, hgives⟩ := h.next
    exact ⟨blocks', hgives.step h.count content⟩
  | backUp count =>
    rw [BlockWriting.step]
    split
    · rename_i hwithin
      rcases h.wrote.pending with ⟨hnone, -⟩ | ⟨input, hsome, hlen, hwritten⟩
      · rw [hnone] at hwithin
        exact absurd hwithin.1 Bool.false_ne_true
      · have hlength : w.written.length = blocks.flatten.length + (BLOCKSIZE - w.stream.backedUpBytes) := by
          rw [hwritten, List.length_append, List.length_take, hlen]
          omega
        have htake : w.written.take (w.written.length - count) =
            blocks.flatten ++ input.take (BLOCKSIZE - (w.stream.backedUpBytes + count)) := by
          rw [hlength, hwritten, Nat.add_sub_assoc hwithin.2, List.take_length_add_append, List.take_take]
          congr 2
          omega
        refine ⟨blocks, ⟨h.wrote.small, h.wrote.flushed, .inr ⟨input, hsome, hlen, htake⟩⟩, h.nonempty, ?_, ?_, ?_⟩
        · show w.stream.byteCount - (count : Int) = ((w.written.take (w.written.length - count)).length : Int)
          rw [List.length_take, h.count]
          omega
        · show w.stream.backedUpBytes + count ≤ BLOCKSIZE
          have hbacked := h.backed
          omega
        · intro hnone
          cases hsome.symm.trans hnone
    · exact ⟨blocks, h⟩
  | flush =>
    obtain ⟨blocks', hkeeps, -⟩ := h.flush
    exact ⟨blocks', hkeeps⟩

end BlockWriting

/-! ## Reading -/

namespace LZ4InputStream

variable {c : Codecs} {r : BlockReader} {s : LZ4InputStream}

theorem next_of_end (hbacked : s.backedUpBytes = 0) (hrest : s.rest = []) : s.next r = (none, s) := by
  have hnil : r.afterFailure [] = [] := List.suffix_nil.1 (r.suffix [])
  rw [next, if_neg (not_not_intro hbacked), hrest, readVarint32_nil, hnil, ← hrest]

/-- The block that was written is read. -/
theorem next_of_block (hlz4 : LZ4Inverse c r) {b rest : List UInt8} (hb : b.length ≤ BLOCKSIZE)
    (hbuffer : s.outputBuffer.length = BLOCKSIZE) (hbacked : s.backedUpBytes = 0) (hrest : s.rest = lz4Block c b ++ rest) :
    ∃ buffer : List UInt8, buffer.length = BLOCKSIZE ∧ buffer.take b.length = b ∧ s.next r =
      (some (0, (b.length : Int)), { s with
        outputBuffer     := buffer
        outputBufferSize := b.length
        byteCount        := s.byteCount + b.length
        rest             := rest
        block            := some b }) := by
  have hbound := hlz4.bound b hb
  obtain ⟨buffer, huncompress, hfront⟩ := hlz4.uncompress b s.outputBuffer hb hbuffer
  have hlength := r.buffer_length (c.lz4Compress b) s.outputBuffer
  rw [huncompress, hbuffer] at hlength
  have hsize : (c.lz4Compress b).length ≤ 2 * BLOCKSIZE := by
    unfold LZ4_compressBound at hbound
    unfold BLOCKSIZE at hb ⊢
    omega
  have h32 : (c.lz4Compress b).length < 2 ^ 32 := Nat.lt_of_le_of_lt hsize (by decide)
  obtain ⟨-, -, -, hto⟩ := uncompressed huncompress hbuffer (Int.natCast_nonneg _)
  have hint : toInt32 (b.length : Int).toNat = b.length := by
    rw [← hto]
    unfold BLOCKSIZE at hb
    exact toInt32_toSizeT (by omega) (by omega)
  refine ⟨buffer, hlength, hfront, ?_⟩
  rw [next, if_neg (not_not_intro hbacked), hrest, lz4Block, List.append_assoc, readVarint32_write _ _ h32]
  dsimp only
  rw [if_neg (Nat.not_lt.2 hsize), if_neg (by rw [List.length_append]; omega), rawUncompress, List.take_left, List.drop_left,
    huncompress]
  dsimp only
  rw [hto, hint, if_pos (Int.natCast_nonneg _), Int.toNat_natCast, hfront]

end LZ4InputStream

namespace BlockReading

variable {c : Codecs} {r : BlockReader} {written : List UInt8} {g : BlockReading}

theorem step_of_none {stream : LZ4InputStream} (h : g.stream.next r = (none, stream)) : g.step r .next = ⟨stream, g.read⟩ := by
  rw [step, readBy, LZ4InputStream.step, h]

theorem step_of_some {stream : LZ4InputStream} {offset : Nat} {size : Int}
    (h : g.stream.next r = (some (offset, size), stream)) :
    g.step r .next = ⟨stream, g.read ++ slice stream.outputBuffer offset size.toNat⟩ := by
  rw [step, readBy, LZ4InputStream.step, h]

/-- The stream has come to a place in the block `last`, or to its end: behind the bytes `front`, and before the blocks
`todo`. -/
structure Follows (c : Codecs) (written : List UInt8) (g : BlockReading) (front last : List UInt8)
    (todo : List (List UInt8)) : Prop where
  all      : written = front ++ last ++ todo.flatten
  small    : ∀ b ∈ todo, b.length ≤ BLOCKSIZE
  nonempty : ∀ b ∈ todo, b ≠ []
  rest     : g.stream.rest = todo.flatMap (lz4Block c)
  buffer   : g.stream.outputBuffer.length = BLOCKSIZE
  block    : g.stream.outputBuffer.take last.length = last
  size     : g.stream.outputBufferSize = last.length
  backed   : 0 ≤ g.stream.backedUpBytes
  within   : g.stream.backedUpBytes ≤ last.length
  read     : g.read = front ++ last.take (last.length - g.stream.backedUpBytes.toNat)
  count    : g.stream.byteCount = g.read.length

variable {front last : List UInt8} {todo : List (List UInt8)}

/-- Nothing is backed up: the whole block was read. -/
theorem Follows.read_all (h : g.Follows c written front last todo) (hbacked : g.stream.backedUpBytes = 0) :
    g.read = front ++ last := by
  rw [h.read, hbacked]
  exact congrArg (front ++ ·) (List.take_length ..)

/-- **A call of `Next`** gives out what is backed up, or the next block; it fails at the end alone. -/
theorem Follows.next (hlz4 : LZ4Inverse c r) (h : g.Follows c written front last todo) :
    (g.read = written ∧ g.step r .next = g) ∨
    ((g.stream.next r).1 ≠ none ∧ g.read.length < (g.step r .next).read.length ∧
      ∃ front' last' todo', (g.step r .next).Follows c written front' last' todo') := by
  by_cases hbacked : g.stream.backedUpBytes = 0
  · have hread := h.read_all hbacked
    cases todo with
    | nil         =>
      refine .inl ⟨?_, step_of_none (LZ4InputStream.next_of_end hbacked h.rest)⟩
      rw [hread, h.all, List.flatten_nil, List.append_nil]
    | cons b todo =>
      have hb := h.small b List.mem_cons_self
      have hpos : 0 < b.length := List.length_pos_iff.2 (h.nonempty b List.mem_cons_self)
      obtain ⟨buffer, hlength, hfront, hnext⟩ := LZ4InputStream.next_of_block hlz4 hb h.buffer hbacked h.rest
      have hstep := step_of_some hnext
      rw [slice, List.drop_zero, Int.toNat_natCast, hfront] at hstep
      rw [hstep, hnext]
      refine .inr ⟨Option.some_ne_none _, ?_, front ++ last, b, todo, ?_⟩
      · rw [List.length_append]
        omega
      · refine ⟨?_, fun b' hb' => h.small b' (List.mem_cons_of_mem _ hb'),
          fun b' hb' => h.nonempty b' (List.mem_cons_of_mem _ hb'), rfl, hlength, hfront, rfl, Int.le_of_eq hbacked.symm,
          ?_, ?_, ?_⟩
        · rw [h.all, List.flatten_cons, List.append_assoc (front ++ last)]
        · show g.stream.backedUpBytes ≤ _
          omega
        · show g.read ++ b = _ ++ b.take (b.length - g.stream.backedUpBytes.toNat)
          rw [hread, hbacked]
          exact congrArg (front ++ last ++ ·) (List.take_length ..).symm
        · show g.stream.byteCount + (b.length : Int) = ((g.read ++ b).length : Int)
          rw [h.count, List.length_append]
          rfl
  · have hle : last.length ≤ BLOCKSIZE := by
      rw [← h.block, List.length_take, h.buffer]
      exact Nat.min_le_right _ _
    have hlow := h.backed
    have hwithin := h.within
    have hoffset : toSizeT (g.stream.outputBufferSize - g.stream.backedUpBytes) =
        last.length - g.stream.backedUpBytes.toNat := by
      have hsize := h.size
      have hto := toSizeT_of_range (g.stream.outputBufferSize - g.stream.backedUpBytes) (by omega)
        (by unfold BLOCKSIZE at hle; omega)
      omega
    have hwindow : slice g.stream.outputBuffer (last.length - g.stream.backedUpBytes.toNat) g.stream.backedUpBytes.toNat =
        last.drop (last.length - g.stream.backedUpBytes.toNat) := by
      have hn : g.stream.backedUpBytes.toNat ≤ last.length := by omega
      have hwindow := LZ4InputStream.take_drop_take g.stream.outputBuffer hn
      rw [h.block, List.take_of_length_le (by rw [List.length_drop]; omega)] at hwindow
      exact hwindow.symm
    have hnext := LZ4InputStream.next_of_backedUp (r := r) hbacked
    rw [hoffset] at hnext
    have hstep := step_of_some hnext
    have hread : g.read ++ last.drop (last.length - g.stream.backedUpBytes.toNat) = front ++ last := by
      rw [h.read, List.append_assoc, List.take_append_drop]
    dsimp only at hstep
    rw [hwindow, hread] at hstep
    have hlength := congrArg List.length hread
    rw [List.length_append, List.length_drop] at hlength
    rw [hstep, hnext]
    refine .inr ⟨Option.some_ne_none _, ?_, front, last, todo, h.all, h.small, h.nonempty, h.rest, h.buffer, h.block, h.size,
      Int.le_refl 0, Int.natCast_nonneg _, ?_, ?_⟩
    · show g.read.length < (front ++ last).length
      omega
    · exact congrArg (front ++ ·) (List.take_length ..).symm
    · show g.stream.byteCount + g.stream.backedUpBytes = ((front ++ last).length : Int)
      rw [h.count]
      omega

/-- A call. -/
theorem Follows.step (hlz4 : LZ4Inverse c r) (h : g.Follows c written front last todo) (op : BlockInputOp) :
    ∃ front' last' todo', (g.step r op).Follows c written front' last' todo' := by
  cases op with
  | next         =>
    rcases h.next hlz4 with ⟨-, hsame⟩ | ⟨-, -, hnext⟩
    · rw [hsame]
      exact ⟨front, last, todo, h⟩
    · exact hnext
  | backUp count =>
    by_cases hwithin : (count : Int) ≤ g.stream.outputBufferSize - g.stream.backedUpBytes
    · have hback : g.stream.backUp count = { g.stream with
          backedUpBytes := g.stream.backedUpBytes + count, byteCount := g.stream.byteCount - count } := by
        rw [LZ4InputStream.backUp]
        split
        · have hzero : (count : Int) = 0 := by omega
          rw [hzero, Int.add_zero, Int.sub_zero]
        · rfl
      have hstep : g.step r (.backUp count) = ⟨{ g.stream with
          backedUpBytes := g.stream.backedUpBytes + count, byteCount := g.stream.byteCount - count },
          g.read.take (g.read.length - count)⟩ := by
        rw [BlockReading.step, readBy, LZ4InputStream.step, if_pos hwithin, if_pos hwithin, hback]
      have hlow := h.backed
      have hsize := h.size
      have hlength : g.read.length = front.length + (last.length - g.stream.backedUpBytes.toNat) := by
        rw [h.read, List.length_append, List.length_take]
        omega
      have hfits : count ≤ last.length - g.stream.backedUpBytes.toNat := by omega
      rw [hstep]
      refine ⟨front, last, todo, h.all, h.small, h.nonempty, h.rest, h.buffer, h.block, h.size, ?_, ?_, ?_, ?_⟩
      · show 0 ≤ g.stream.backedUpBytes + (count : Int)
        omega
      · show g.stream.backedUpBytes + (count : Int) ≤ last.length
        omega
      · show g.read.take (g.read.length - count) =
          front ++ last.take (last.length - (g.stream.backedUpBytes + (count : Int)).toNat)
        rw [hlength, h.read, Nat.add_sub_assoc hfits, List.take_length_add_append, List.take_take]
        congr 2
        omega
      · show g.stream.byteCount - (count : Int) = ((g.read.take (g.read.length - count)).length : Int)
        rw [h.count, List.length_take]
        omega
    · have hstep : g.step r (.backUp count) = g := by
        rw [BlockReading.step, readBy, LZ4InputStream.step, if_neg hwithin, if_neg hwithin]
      rw [hstep]
      exact ⟨front, last, todo, h⟩
  | skip _       => exact ⟨front, last, todo, h⟩

/-- What is read is the front of what was written, and at the end all of it. -/
theorem Follows.reads (hlz4 : LZ4Inverse c r) (h : g.Follows c written front last todo) : g.Reads r written := by
  refine ⟨h.count, ?_, fun hnone => ?_⟩
  · rw [h.read, h.all, List.append_assoc, List.prefix_append_right_inj]
    exact (List.take_prefix _ _).trans (List.prefix_append _ _)
  · rcases h.next hlz4 with ⟨hall, -⟩ | ⟨hsome, -⟩
    · exact hall
    · exact absurd hnone hsome

/-- Every call of `Next` reads something until all is read. -/
theorem Follows.reads_all (hlz4 : LZ4Inverse c r) : ∀ (n : Nat) {g : BlockReading} {front last : List UInt8}
    {todo : List (List UInt8)}, g.Follows c written front last todo → written.length ≤ g.read.length + n →
    ((List.replicate n BlockInputOp.next).foldl (BlockReading.step r) g).read = written
  | 0,     g, _, _, _, h, hle => (h.reads hlz4).2.1.eq_of_length_le hle
  | n + 1, g, _, _, _, h, hle => by
    rw [List.replicate_succ, List.foldl_cons]
    rcases h.next hlz4 with ⟨hall, hsame⟩ | ⟨-, hlt, front', last', todo', hnext⟩
    · rw [hsame]
      exact h.reads_all hlz4 n (by rw [hall]; exact Nat.le_add_right _ _)
    · exact hnext.reads_all hlz4 n (by omega)

end BlockReading

/-- **What is written to an `LZ4OutputStream` is read from an `LZ4InputStream`**, in whatever pieces, and both count it. -/
theorem roundTrip (c : Codecs) (r : BlockReader) (hlz4 : LZ4Inverse c r) (writes : List BlockOutputOp)
    (reads : List BlockInputOp) : RoundTrip c r writes reads := by
  have hkeeps (w : BlockWriting) (op : BlockOutputOp) : (∃ blocks, w.Keeps c blocks) → ∃ blocks, (w.step c op).Keeps c blocks :=
    fun ⟨_, h⟩ => h.step op
  have hinit : ∃ blocks, ({} : BlockWriting).Keeps c blocks := ⟨[], BlockWriting.keeps_init c⟩
  have hcounts := Run.always_of_step _ hkeeps (writes ++ [.flush]) hinit
  obtain ⟨_, hwrites⟩ := Run.foldl_of_step _ hkeeps writes hinit
  obtain ⟨blocks, hflushed, hall⟩ := hwrites.flush
  rw [RoundTrip]
  refine ⟨hcounts.mono fun w ⟨_, h⟩ => h.count, ?_⟩
  rw [List.foldl_append, List.foldl_cons, List.foldl_nil]
  generalize hw : (writes.foldl (BlockWriting.step c) {}).step c .flush = w at hflushed
  have hwritten : w.written = blocks.flatten := by
    rw [← hw]
    exact hall
  have hfollows : ∃ front last todo, (⟨.init r w.stream.subStream, []⟩ : BlockReading).Follows c w.written front last todo :=
    ⟨[], [], blocks, by rw [hwritten]; rfl, hflushed.wrote.small, hflushed.nonempty, hflushed.wrote.flushed,
      r.memory_length, rfl, rfl, Int.le_refl 0, Int.le_refl 0, rfl, rfl⟩
  have hread (g : BlockReading) (op : BlockInputOp) : (∃ front last todo, g.Follows c w.written front last todo) →
      ∃ front last todo, (g.step r op).Follows c w.written front last todo :=
    fun ⟨_, _, _, h⟩ => h.step hlz4 op
  dsimp only
  refine ⟨(Run.always_of_step _ hread reads hfollows).mono fun g ⟨_, _, _, h⟩ => h.reads hlz4, ?_⟩
  obtain ⟨_, _, _, h⟩ := Run.foldl_of_step _ hread reads hfollows
  rw [List.foldl_append]
  exact h.reads_all hlz4 _ (Nat.le_add_left _ _)

theorem literal_inverse : LZ4Inverse literalCodecs LZ4InputStream.literalReader where
  uncompress := fun block dest hblock hdest => by
    refine ⟨overwrite dest 0 block, if_pos ⟨rfl, by rw [hdest]; exact hblock⟩, ?_⟩
    rw [Bytes.overwrite_eq _ _ _ (by rw [hdest, Nat.zero_add]; exact hblock), List.take_zero, List.nil_append, List.take_left]
  bound      := fun block _ => by
    show block.length + 1 ≤ _
    unfold LZ4_compressBound
    omega

/-- Three bytes of a block, of which one is backed up, then another after a flush, and read with one byte backed up. -/
theorem roundTrip_bytes : RoundTrip literalCodecs LZ4InputStream.literalReader
    [.next [7, 8, 9], .backUp 65533, .backUp 1, .flush, .next [10], .backUp 65535] [.next, .backUp 1, .next, .next] :=
  roundTrip literalCodecs LZ4InputStream.literalReader literal_inverse _ _

end Gb
