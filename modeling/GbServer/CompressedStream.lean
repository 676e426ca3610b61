import GbServer.Lib.Bytes
import GbServer.Lib.Varint
import GbServer.ReadBuffer
/-!
# CompressedStream — what a compressed stream hands to the stream below it, and when

`get_compressed_output_stream` and `get_compressed_input_stream` (`compressed_stream.cpp`).  The codecs of zlib and LZ4
are parameters (`Codecs`); the block stream around LZ4 is that of `block_wrappers.cpp`: blocks of up to `BLOCKSIZE`
bytes, each a length and the compressed bytes, written through a `CodedOutputStream` that keeps them until it is
destroyed.  What was written in any pieces comes back (`decompress_compress`).
-/
namespace Gb

open Bytes (overwrite)

inductive CompressType
  | compressTypeNone
  | compressTypeGzip
  | compressTypeZlib
  | compressTypeLZ4
  deriving DecidableEq

/-- The value of the `int8_t` on the wire, if it names a type. -/
def CompressType.ofCode : Nat → Option CompressType
  | 0 => some .compressTypeNone
  | 1 => some .compressTypeGzip
  | 2 => some .compressTypeZlib
  | 3 => some .compressTypeLZ4
  | _ => none

def BLOCKSIZE : Nat := 64 * 1024

inductive GzipFormat
  | gzip
  | zlib
  deriving DecidableEq

/-- zlib and LZ4: the bytes after a full flush of a deflate stream, those that finishing it adds, and all the bytes an
inflate stream gives; a compressed block, and a block uncompressed unless it is malformed. -/
structure Codecs where
  deflateFlush  : GzipFormat → List UInt8 → List UInt8
  deflateFinish : GzipFormat → List UInt8 → List UInt8
  inflate       : GzipFormat → List UInt8 → List UInt8
  lz4Compress   : List UInt8 → List UInt8
  lz4Uncompress : List UInt8 → Option (List UInt8)

/-- What zlib and LZ4 document: they are inverse, a deflate stream is hardly longer than its input, an empty stream
inflates to nothing, a gzip stream begins with its magic number, and a compressed block keeps to `LZ4_compressBound`. -/
structure Codecs.Lawful (c : Codecs) : Prop where
  inflate_flush  : ∀ f xs, c.inflate f (c.deflateFlush f xs) = xs
  inflate_finish : ∀ f xs, c.inflate f (c.deflateFlush f xs ++ c.deflateFinish f xs) = xs
  inflate_nil    : ∀ f, c.inflate f [] = []
  deflate_length : ∀ f xs, xs.length < 2 ^ 31 + 5 → (c.deflateFlush f xs).length < 2 ^ 32
  gzip_magic     : ∀ xs, ∃ rest, c.deflateFlush .gzip xs = 0x1f :: rest
  uncompress     : ∀ xs, xs.length ≤ BLOCKSIZE → c.lz4Uncompress (c.lz4Compress xs) = some xs
  compress_bound : ∀ xs, xs.length ≤ BLOCKSIZE → (c.lz4Compress xs).length ≤ 2 * BLOCKSIZE

/-- `WriteVarint32` of a `size_t`. -/
def writeVarint32 (n : Nat) : List UInt8 := Varint.write 5 (n % 2 ^ 32)

/-- `ReadVarint32`: up to ten bytes, of which 32 bits count. -/
def readVarint32 (bs : List UInt8) : Option (Nat × List UInt8) := (Varint.read 10 bs).map fun r => (r.1 % 2 ^ 32, r.2)

theorem readVarint32_write (n : Nat) (rest : List UInt8) (hn : n < 2 ^ 32) :
    readVarint32 (writeVarint32 n ++ rest) = some (n, rest) := by
  have hlt : n < 128 ^ (4 + 1) := Nat.lt_of_lt_of_le hn (by decide)
  rw [readVarint32, writeVarint32, Nat.mod_eq_of_lt hn, Varint.read_write 10 4 n rest (by decide) hlt, Option.map_some,
    Nat.mod_eq_of_lt hn]

@[simp] theorem readVarint32_nil : readVarint32 [] = none := rfl

/-! ## The LZ4 block streams -/

/-- A `BlockCompressionOutputStream`; `subStream` is what its `CodedOutputStream` was given and keeps. -/
structure LZ4OutputStream where
  inputBuffer   : Option (List UInt8) := none
  backedUpBytes : Nat := 0
  byteCount     : Int := 0
  subStream     : List UInt8 := []

namespace LZ4OutputStream

variable (c : Codecs)

/-- `Flush`: the bytes of the block that were not backed up, compressed. -/
def flush (s : LZ4OutputStream) : LZ4OutputStream :=
  match s.inputBuffer with
  | none       => s
  | some input =>
    let size := BLOCKSIZE - s.backedUpBytes
    if size = 0 then s
    else
      let compressed := c.lz4Compress (input.take size)
      { s with
        subStream     := s.subStream ++ (writeVarint32 compressed.length ++ compressed)
        backedUpBytes := 0
        inputBuffer   := none }

/-- `Next`: the bytes backed up, or a new block; an offset into the block, and the size. -/
def next (s : LZ4OutputStream) : (Nat × Nat) × LZ4OutputStream :=
  if s.backedUpBytes ≠ 0 then
    ((BLOCKSIZE - s.backedUpBytes, s.backedUpBytes),
      { s with backedUpBytes := 0, byteCount := s.byteCount + s.backedUpBytes })
  else
    let s := s.flush c
    ((0, BLOCKSIZE),
      { s with inputBuffer := some (List.replicate BLOCKSIZE 0), byteCount := s.byteCount + BLOCKSIZE })

def backUp (s : LZ4OutputStream) (count : Nat) : LZ4OutputStream :=
  { s with backedUpBytes := s.backedUpBytes + count, byteCount := s.byteCount - count }

/-- The caller of `Next` writes to the front of what it was given. -/
def fill (s : LZ4OutputStream) (offset : Nat) (bs : List UInt8) : LZ4OutputStream :=
  { s with inputBuffer := s.inputBuffer.map fun input => overwrite input offset bs }

/-- A `CodedOutputStream` over the stream hands over `bs`, block by block, and backs up what it does not need. -/
def codedWrite : Nat → LZ4OutputStream → List UInt8 → LZ4OutputStream
  | 0,        s, _  => s
  | fuel + 1, s, bs =>
    if bs.isEmpty then s
    else
      let ((offset, size), s) := s.next c
      if bs.length < size then (s.fill offset bs).backUp (size - bs.length)
      else codedWrite fuel (s.fill offset (bs.take size)) (bs.drop size)

end LZ4OutputStream

/-- What `BlockCompressionInputStream::Next` comes to: a block and the bytes behind it, the end or a length it refuses,
or a block that does not uncompress, of which it reports a negative size. -/
inductive LZ4Next
  | block (bs rest : List UInt8)
  | stop
  | malformed

def lz4Next (c : Codecs) (bs : List UInt8) : LZ4Next :=
  match readVarint32 bs with
  | none                        => .stop
  | some (compressedSize, rest) =>
    if 2 * BLOCKSIZE < compressedSize ∨ rest.length < compressedSize then .stop
    else
      match c.lz4Uncompress (rest.take compressedSize) with
      | some out => .block out (rest.drop compressedSize)
      | none     => .malformed

/-- The bytes a reader gets from an `LZ4InputStream`, in at most `fuel` blocks. -/
def lz4ReadAll (c : Codecs) : Nat → List UInt8 → List UInt8
  | 0,        _  => []
  | fuel + 1, bs =>
    match lz4Next c bs with
    | .block out rest => out ++ lz4ReadAll c fuel rest
    | _               => []

/-! ## Blocks written and read -/

/-- A block as `Flush` writes it. -/
def lz4Block (c : Codecs) (bs : List UInt8) : List UInt8 :=
  writeVarint32 (c.lz4Compress bs).length ++ c.lz4Compress bs

/-- A stream that was given `bs`: whole blocks, and the front of one that is not flushed. -/
structure LZ4OutputStream.Wrote (c : Codecs) (s : LZ4OutputStream) (blocks : List (List UInt8)) (bs : List UInt8) :
    Prop where
  small   : ∀ b ∈ blocks, b.length ≤ BLOCKSIZE
  flushed : s.subStream = blocks.flatMap (lz4Block c)
  pending : (s.inputBuffer = none ∧ bs = blocks.flatten) ∨
    ∃ input, s.inputBuffer = some input ∧ input.length = BLOCKSIZE ∧
      bs = blocks.flatten ++ input.take (BLOCKSIZE - s.backedUpBytes)

namespace LZ4OutputStream

variable {c : Codecs}

/-- There is nothing to flush. -/
theorem flush_of_nothing {s : LZ4OutputStream} (h : s.inputBuffer = none ∨ BLOCKSIZE - s.backedUpBytes = 0) :
    s.flush c = s := by
  rw [LZ4OutputStream.flush]
  rcases h with hnone | hall
  · rw [hnone]
  · split
    · rfl
    · exact if_pos hall

theorem flush_of_some {s : LZ4OutputStream} {input : List UInt8} (hsome : s.inputBuffer = some input)
    (h : BLOCKSIZE - s.backedUpBytes ≠ 0) : s.flush c = { s with
      subStream     := s.subStream ++ lz4Block c (input.take (BLOCKSIZE - s.backedUpBytes))
      backedUpBytes := 0
      inputBuffer   := none } := by
  rw [LZ4OutputStream.flush, hsome]
  exact if_neg h

/-- A flush makes a block of what is not backed up, if there is any. -/
theorem Wrote.flush {s : LZ4OutputStream} {blocks : List (List UInt8)} {bs : List UInt8} (h : s.Wrote c blocks bs) :
    ∃ blocks' : List (List UInt8), (s.flush c).Wrote c blocks' bs ∧ bs = blocks'.flatten ∧
      ∀ b ∈ blocks', b ∈ blocks ∨ b ≠ [] := by
  rcases h.pending with ⟨hnone, hbs⟩ | ⟨input, hsome, hlen, hbs⟩
  · rw [flush_of_nothing (.inl hnone)]
    exact ⟨blocks, h, hbs, fun _ hb => .inl hb⟩
  · by_cases hall : BLOCKSIZE - s.backedUpBytes = 0
    · rw [flush_of_nothing (.inr hall)]
      rw [hall, List.take_zero, List.append_nil] at hbs
      exact ⟨blocks, h, hbs, fun _ hb => .inl hb⟩
    · have hblock : (input.take (BLOCKSIZE - s.backedUpBytes)).length = BLOCKSIZE - s.backedUpBytes :=
        List.length_take_of_le (by omega)
      have hflatten : bs = (blocks ++ [input.take (BLOCKSIZE - s.backedUpBytes)]).flatten := by
        rw [hbs, List.flatten_append, List.flatten_singleton]
      rw [flush_of_some hsome hall]
      refine ⟨blocks ++ [input.take (BLOCKSIZE - s.backedUpBytes)], ⟨?_, ?_, .inl ⟨rfl, hflatten⟩⟩, hflatten, ?_⟩
      · intro b hb
        rcases List.mem_append.1 hb with hb | hb
        · exact h.small b hb
        · rw [List.mem_singleton.1 hb, hblock]
          exact Nat.sub_le _ _
      · rw [List.flatMap_append, List.flatMap_singleton, h.flushed]
      · intro b hb
        rcases List.mem_append.1 hb with hb | hb
        · exact .inl hb
        · rw [List.mem_singleton.1 hb]
          refine .inr fun hnil => ?_
          rw [hnil] at hblock
          exact hall hblock.symm

theorem flush_backedUpBytes (s : LZ4OutputStream) (h : s.backedUpBytes = 0) : (s.flush c).backedUpBytes = 0 := by
  unfold LZ4OutputStream.flush
  split
  · exact h
  · dsimp only
    split
    · exact h
    · rfl

theorem next_of_full {s : LZ4OutputStream} (hfull : s.backedUpBytes = 0) : s.next c = ((0, BLOCKSIZE), { s.flush c with
    inputBuffer := some (List.replicate BLOCKSIZE 0), byteCount := (s.flush c).byteCount + BLOCKSIZE }) := by
  rw [next, if_neg (by rw [hfull]; decide)]

/-- The next block, filled from its front and the rest backed up. -/
theorem Wrote.next_fill {s : LZ4OutputStream} {blocks : List (List UInt8)} {bs : List UInt8} (h : s.Wrote c blocks bs)
    (hfull : s.backedUpBytes = 0) (xs : List UInt8) (hxs : xs.length ≤ BLOCKSIZE) : ∃ blocks' : List (List UInt8),
      (((s.next c).2.fill 0 xs).backUp (BLOCKSIZE - xs.length)).Wrote c blocks' (bs ++ xs) := by
  obtain ⟨blocks', hwrote, hbs, -⟩ := h.flush
  rw [next_of_full hfull]
  refine ⟨blocks', hwrote.small, hwrote.flushed, Or.inr ⟨overwrite (List.replicate BLOCKSIZE 0) 0 xs, rfl, ?_, ?_⟩⟩
  · rw [Bytes.overwrite_length, List.length_replicate]
  · change bs ++ xs = _ ++ (overwrite (List.replicate BLOCKSIZE 0) 0 xs).take
      (BLOCKSIZE - ((s.flush c).backedUpBytes + (BLOCKSIZE - xs.length)))
    have hkeep : BLOCKSIZE - (0 + (BLOCKSIZE - xs.length)) = xs.length := by omega
    rw [flush_backedUpBytes s hfull, hkeep, hbs,
      Bytes.overwrite_eq _ _ _ (by rw [List.length_replicate, Nat.zero_add]; exact hxs), List.take_zero, List.nil_append,
      List.take_left]

theorem Wrote.codedWrite : ∀ (fuel : Nat) {s : LZ4OutputStream} {blocks : List (List UInt8)} {bs : List UInt8}
    (xs : List UInt8), s.Wrote c blocks bs → s.backedUpBytes = 0 → xs.length ≤ fuel →
    ∃ blocks' : List (List UInt8), (LZ4OutputStream.codedWrite c fuel s xs).Wrote c blocks' (bs ++ xs)
  | 0,        s, blocks, bs, xs, h, _, hle => by
    rw [List.eq_nil_of_length_eq_zero (Nat.le_zero.1 hle), List.append_nil]
    exact ⟨blocks, h⟩
  | fuel + 1, s, blocks, bs, xs, h, hfull, hle => by
    rw [LZ4OutputStream.codedWrite]
    split
    · rename_i hnil
      rw [List.isEmpty_iff.1 hnil, List.append_nil]
      exact ⟨blocks, h⟩
    · rename_i hne
      have hpos : 0 < xs.length := List.length_pos_iff.2 fun h0 => hne (List.isEmpty_iff.2 h0)
      have hsize : (s.next c).1 = (0, BLOCKSIZE) := by rw [next_of_full hfull]
      rcases hnext : s.next c with ⟨⟨offset, size⟩, s₁⟩
      rw [hnext] at hsize
      obtain ⟨rfl, rfl⟩ := Prod.mk.inj hsize
      dsimp only
      split
      · rename_i hlt
        have hw := h.next_fill hfull xs (Nat.le_of_lt hlt)
        rw [hnext] at hw
        exact hw
      · rename_i hge
        -- the block is used up: nothing is backed up, and the next round asks for another
        have hlen : (xs.take BLOCKSIZE).length = BLOCKSIZE := List.length_take_of_le (Nat.not_lt.1 hge)
        obtain ⟨blocks₁, hw⟩ := h.next_fill hfull (xs.take BLOCKSIZE) (Nat.le_of_eq hlen)
        rw [hnext, hlen, Nat.sub_self] at hw
        have hw' : (s₁.fill 0 (xs.take BLOCKSIZE)).Wrote c blocks₁ (bs ++ xs.take BLOCKSIZE) :=
          ⟨hw.small, hw.flushed, hw.pending⟩
        have hfull' : (s₁.fill 0 (xs.take BLOCKSIZE)).backedUpBytes = 0 := by
          rw [← show (s.next c).2 = s₁ by rw [hnext], next_of_full hfull]
          exact flush_backedUpBytes s hfull
        obtain ⟨blocks₂, hw₂⟩ := hw'.codedWrite fuel (xs.drop BLOCKSIZE) hfull' (by
          have : 0 < BLOCKSIZE := by decide
          rw [List.length_drop]
          omega)
        rw [List.append_assoc, List.take_append_drop] at hw₂
        exact ⟨blocks₂, hw₂⟩

end LZ4OutputStream

theorem lz4Next_block {c : Codecs} (hc : c.Lawful) {b : List UInt8} (hb : b.length ≤ BLOCKSIZE) (rest : List UInt8) :
    lz4Next c (lz4Block c b ++ rest) = .block b rest := by
  have hbound := hc.compress_bound b hb
  have h32 : (c.lz4Compress b).length < 2 ^ 32 := Nat.lt_of_le_of_lt hbound (by decide)
  rw [lz4Next, lz4Block, List.append_assoc, readVarint32_write _ _ h32]
  dsimp only
  rw [if_neg (by rw [List.length_append]; omega), List.take_left, hc.uncompress b hb, List.drop_left]

/-- Blocks written one after another are read one after another. -/
theorem lz4ReadAll_blocks {c : Codecs} (hc : c.Lawful) : ∀ (fuel : Nat) (blocks : List (List UInt8)),
    (∀ b ∈ blocks, b.length ≤ BLOCKSIZE) → blocks.length ≤ fuel →
    lz4ReadAll c fuel (blocks.flatMap (lz4Block c)) = blocks.flatten
  | 0,        blocks,    _,      hle => by
    rw [List.eq_nil_of_length_eq_zero (Nat.le_zero.1 hle)]
    rfl
  | _ + 1,    [],        _,      _   => rfl
  | fuel + 1, b :: rest, hsmall, hle => by
    rw [List.flatMap_cons, lz4ReadAll, lz4Next_block hc (hsmall b List.mem_cons_self)]
    dsimp only
    rw [lz4ReadAll_blocks hc fuel rest (fun b' hb' => hsmall b' (List.mem_cons_of_mem _ hb'))
      (Nat.le_of_succ_le_succ hle), List.flatten_cons]

theorem length_blocks_le (c : Codecs) (blocks : List (List UInt8)) :
    blocks.length ≤ (blocks.flatMap (lz4Block c)).length := by
  induction blocks with
  | nil => exact Nat.le_refl _
  | cons b rest ih =>
    have hpos : 0 < (lz4Block c b).length := by
      rw [lz4Block, writeVarint32, Varint.write, List.length_append]
      split
      · exact Nat.add_pos_left Nat.one_pos _
      · exact Nat.add_pos_left (Nat.succ_pos _) _
    rw [List.flatMap_cons, List.length_cons, List.length_append]
    omega

/-! ## The streams of every type -/

/-- What a compressed stream over `o` hands to `o` when `plain` is written through a `CodedOutputStream` and flushed,
and what its destruction adds; `none` where there is no such stream. -/
def compressStream (c : Codecs) (type : CompressType) (plain : List UInt8) : Option (List UInt8 × List UInt8) :=
  match type with
  | .compressTypeNone => none
  | .compressTypeGzip => some (c.deflateFlush .gzip plain, c.deflateFinish .gzip plain)
  | .compressTypeZlib => some (c.deflateFlush .zlib plain, c.deflateFinish .zlib plain)
  | .compressTypeLZ4  => some ([], ((LZ4OutputStream.codedWrite c plain.length {} plain).flush c).subStream)

theorem compressStream_eq_some (c : Codecs) {type : CompressType} (htype : type ≠ .compressTypeNone)
    (plain : List UInt8) : ∃ flushed rest, compressStream c type plain = some (flushed, rest) := by
  cases type with
  | compressTypeNone => exact absurd rfl htype
  | compressTypeGzip | compressTypeZlib | compressTypeLZ4 => exact ⟨_, _, rfl⟩

/-- What a compressed stream over `data` gives. -/
def decompressStream (c : Codecs) (type : CompressType) (data : List UInt8) : Option (List UInt8) :=
  match type with
  | .compressTypeNone => none
  | .compressTypeGzip => some (c.inflate .gzip data)
  | .compressTypeZlib => some (c.inflate .zlib data)
  | .compressTypeLZ4  => some (lz4ReadAll c (data.length + 1) data)

/-- **What is written through a stream comes back from all it hands on, flushed and destroyed.** -/
theorem decompress_compress {c : Codecs} (hc : c.Lawful) {type : CompressType} {plain flushed rest : List UInt8}
    (h : compressStream c type plain = some (flushed, rest)) : decompressStream c type (flushed ++ rest) = some plain := by
  cases type with
  | compressTypeNone => cases h
  | compressTypeGzip =>
    cases h
    exact congrArg some (hc.inflate_finish .gzip plain)
  | compressTypeZlib =>
    cases h
    exact congrArg some (hc.inflate_finish .zlib plain)
  | compressTypeLZ4 =>
    obtain ⟨rfl, rfl⟩ := Prod.mk.inj (Option.some.inj h)
    have hnew : ({} : LZ4OutputStream).Wrote c [] [] :=
      ⟨fun _ hb => absurd hb List.not_mem_nil, rfl, Or.inl ⟨rfl, rfl⟩⟩
    obtain ⟨blocks₁, hw⟩ := hnew.codedWrite plain.length plain rfl (Nat.le_refl _)
    obtain ⟨blocks, hwrote, hplain, -⟩ := hw.flush
    rw [List.nil_append] at hplain
    rw [List.nil_append, decompressStream, hwrote.flushed,
      lz4ReadAll_blocks hc _ blocks hwrote.small (Nat.le_succ_of_le (length_blocks_le c blocks)), hplain]

/-- A deflate stream can be read as soon as it is flushed. -/
theorem decompress_flushed {c : Codecs} (hc : c.Lawful) {type : CompressType} {plain flushed rest : List UInt8}
    (h : compressStream c type plain = some (flushed, rest)) (hlz4 : type ≠ .compressTypeLZ4) :
    decompressStream c type flushed = some plain := by
  cases type with
  | compressTypeNone => cases h
  | compressTypeGzip =>
    cases h
    exact congrArg some (hc.inflate_flush .gzip plain)
  | compressTypeZlib =>
    cases h
    exact congrArg some (hc.inflate_flush .zlib plain)
  | compressTypeLZ4 => exact absurd rfl hlz4

end Gb
