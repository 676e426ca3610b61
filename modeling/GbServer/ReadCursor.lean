import GbServer.Lib.Run
import GbServer.ReadBuffer
/-!
# ReadCursor — a buffer that is read, beside a position in its bytes

`Next`, `BackUp` and `Skip` of a `ReadBuffer` are those of a position in the list of its bytes, however the bytes lie in the
handles: `Next` yields bytes from the position on and fails at the end alone, `BackUp` goes back in what `Next` yielded,
`Skip` goes on as far as there are bytes, and `ByteCount` is the position (`position_run`).
-/
namespace Gb

open Bytes (slice)
open Run (Always)

namespace ReadBuffer

/-- The loop of `Skip`, at most `fuel` times, with what is left to skip; `none` when it has not ended then. -/
def skipLoop : Nat → ReadBuffer → Int → Option (Int × ReadBuffer)
  | 0,        rb, count => if count ≤ 0 then some (count, rb) else none
  | fuel + 1, rb, count =>
    if count ≤ 0 then some (count, rb)
    else
      match rb.next with
      | (none, rb)   => some (count, rb)
      | (some r, rb) =>
        if count < r.size then some (0, rb.backUp (r.size - count)) else skipLoop fuel rb (count - r.size)

def skip (rb : ReadBuffer) (count : Int) : Option (Bool × ReadBuffer) :=
  (skipLoop (rb.bufList.length + 1) rb count).map fun (count, rb) => (decide (count = 0), { rb with lastBytes := 0 })

end ReadBuffer

/-- What a buffer is built from: a handle, or a buffer that was built from handles. -/
inductive ReadPart
  | handle (h : BufferHandle)
  | buffer (hs : List BufferHandle)

def ReadPart.handles : ReadPart → List BufferHandle
  | handle h  => [h]
  | buffer hs => hs

namespace ReadBuffer

def build (p : TranBufPool) (hs : List BufferHandle) : ReadBuffer × TranBufPool :=
  hs.foldl (fun (rb, p) h => rb.append p h) ({}, p)

def addPart : ReadBuffer × TranBufPool → ReadPart → ReadBuffer × TranBufPool
  | (rb, p), .handle h  => rb.append p h
  | (rb, p), .buffer hs => rb.appendBuffer (build p hs).2 (build p hs).1

def buildParts (p : TranBufPool) (parts : List ReadPart) : ReadBuffer × TranBufPool := parts.foldl addPart ({}, p)

end ReadBuffer

/-- Parts whose handles are not empty, and whose bytes can be read. -/
structure ReadSource (p : TranBufPool) where
  parts : List ReadPart
  bytes : List UInt8
  size  : ∀ part ∈ parts, ∀ h ∈ part.handles, 0 < h.size
  read  : readHandles p (parts.flatMap ReadPart.handles) = some bytes

/-- Two windows of one block. -/
example : ReadSource (TranBufPool.init.malloc 0 true).2 :=
  ⟨[.handle ⟨1, 2, 0⟩, .buffer [⟨1, 3, 2⟩]], List.replicate 5 0, by simp [ReadPart.handles], rfl⟩

inductive ReadOp
  | next
  | backUp (count : Nat)
  | skip (count : Nat)

/-- A buffer, the position that it is to be at, and how many bytes the last call has yielded; `fault` once a loop has not
ended. -/
structure Reading where
  buffer : ReadBuffer
  total  : Nat
  pos    : Nat := 0
  given  : Nat := 0
  fault  : Bool := false

namespace Reading

def init {p : TranBufPool} (source : ReadSource p) : Reading :=
  { buffer := (ReadBuffer.buildParts p source.parts).1, total := source.bytes.length }

/-- A call to both.  `BackUp` comes right after a `Next` and goes back at most by what that yielded. -/
def step (s : Reading) : ReadOp → Reading
  | .next         =>
    match s.buffer.next with
    | (none, rb)   => { s with buffer := rb, given := 0 }
    | (some r, rb) => { s with buffer := rb, pos := s.pos + r.size.toNat, given := r.size.toNat }
  | .backUp count =>
    if 0 < s.given ∧ count ≤ s.given then
      { s with buffer := s.buffer.backUp count, pos := s.pos - count, given := 0 }
    else s
  | .skip count   =>
    match s.buffer.skip count with
    | none         => { s with fault := true }
    | some (_, rb) => { s with buffer := rb, pos := min (s.pos + count) s.total, given := 0 }

/-- What `Next` yields here: bytes from the position on, and nothing at the end alone. -/
def NextYields (p : TranBufPool) (bs : List UInt8) (s : Reading) : Prop :=
  match s.buffer.next.1 with
  | none   => s.pos = bs.length
  | some r => 0 < r.size ∧ s.pos + r.size.toNat ≤ bs.length ∧
      p.read r.data r.offset r.size.toNat = some (slice bs s.pos r.size.toNat)

/-- The buffer is at the position. -/
structure Agrees (p : TranBufPool) (bs : List UInt8) (s : Reading) : Prop where
  noFault : s.fault = false
  count   : s.buffer.byteCount = s.pos
  next    : s.NextYields p bs
  skip    : ∀ count : Nat, ∃ rb, s.buffer.skip count = some (decide (s.pos + count ≤ bs.length), rb)
  total   : s.buffer.totalCount = bs.length
  bytes   : s.buffer.toString p = some bs

end Reading

/-! ## Where the handles begin -/

/-- The bytes of the handles before the handle number `k`. -/
def bytesBefore (hs : List BufferHandle) (k : Nat) : Int := ((hs.take k).map BufferHandle.size).sum

theorem bytesBefore_zero (hs : List BufferHandle) : bytesBefore hs 0 = 0 := rfl

theorem bytesBefore_succ {hs : List BufferHandle} {k : Nat} {h : BufferHandle} (hk : hs[k]? = some h) :
    bytesBefore hs (k + 1) = bytesBefore hs k + h.size := by
  obtain ⟨hlt, rfl⟩ := List.getElem?_eq_some_iff.1 hk
  rw [bytesBefore, bytesBefore, List.take_succ_eq_append_getElem hlt, List.map_append, List.sum_append]
  simp

theorem bytesBefore_length : ∀ {hs : List BufferHandle} {p : TranBufPool} {bs : List UInt8},
    (∀ h ∈ hs, 0 < h.size) → readHandles p hs = some bs → bytesBefore hs hs.length = bs.length
  | [],      _, _, _,    hb => by
    obtain rfl := Option.some.inj hb
    rfl
  | h :: hs, p, _, hpos, hb => by
    obtain ⟨x, xs, hx, hxs, rfl⟩ := readHandles_cons_inv hb
    have hrest := bytesBefore_length (fun k hk => hpos k (List.mem_cons_of_mem h hk)) hxs
    have hsize := hpos h List.mem_cons_self
    have hlen : x.length = h.size.toNat := TranBufPool.read_length hx
    rw [bytesBefore, List.take_length] at hrest ⊢
    rw [List.map_cons, List.sum_cons, hrest, List.length_append]
    omega

/-- A window of a handle is a window of the bytes. -/
theorem read_window : ∀ {hs : List BufferHandle} {p : TranBufPool} {bs : List UInt8}, (∀ h ∈ hs, 0 < h.size) →
    readHandles p hs = some bs → ∀ {k : Nat} {h : BufferHandle}, hs[k]? = some h → ∀ {off : Nat}, (off : Int) < h.size →
      p.read h.data (h.offset + off) (h.size - off).toNat =
          some (slice bs ((bytesBefore hs k).toNat + off) (h.size - off).toNat) ∧
        bytesBefore hs k + h.size ≤ bs.length ∧ 0 ≤ bytesBefore hs k
  | h :: hs, p, _, hpos, hb, 0,     _, hk, off, hoff => by
    obtain ⟨x, xs, hx, -, rfl⟩ := readHandles_cons_inv hb
    obtain rfl := Option.some.inj hk
    have hlen : x.length = h.size.toNat := TranBufPool.read_length hx
    have hsplit : x.take off ++ x.drop off = x := List.take_append_drop off x
    have htake : (x.take off).length = off := by
      rw [List.length_take]
      omega
    have hdrop : (x.drop off).length = (h.size - off).toNat := by
      rw [List.length_drop]
      omega
    have hwhole : p.read h.data h.offset (x.take off ++ x.drop off).length = some (x.take off ++ x.drop off) := by
      rw [hsplit, hlen]
      exact hx
    have hread := (TranBufPool.read_append p h.data h.offset _ _ hwhole).2
    rw [htake, hdrop] at hread
    refine ⟨?_, ?_, Int.le_refl 0⟩
    · rw [hread, bytesBefore_zero, slice, Int.toNat_zero, Nat.zero_add, ← hdrop, List.drop_append_of_le_length (by omega),
        List.take_left]
    · rw [bytesBefore_zero, List.length_append]
      omega
  | h :: hs, p, _, hpos, hb, k + 1, _, hk, off, hoff => by
    obtain ⟨x, xs, hx, hxs, rfl⟩ := readHandles_cons_inv hb
    have hlen : x.length = h.size.toNat := TranBufPool.read_length hx
    have hsize := hpos h List.mem_cons_self
    obtain ⟨hread, hle, hnonneg⟩ := read_window (fun g hg => hpos g (List.mem_cons_of_mem h hg)) hxs
      (k := k) (by simpa using hk) hoff
    have hbefore : bytesBefore (h :: hs) (k + 1) = h.size + bytesBefore hs k := by
      rw [bytesBefore, List.take_succ_cons, List.map_cons, List.sum_cons]
      rfl
    rw [hbefore, List.length_append]
    refine ⟨?_, by omega, by omega⟩
    have hat : (h.size + bytesBefore hs k).toNat + off = x.length + ((bytesBefore hs k).toNat + off) := by omega
    rw [hread, slice, slice, hat, List.drop_length_add_append]

/-! ## The cursor -/

/-- The cursor of a buffer is at `pos`, in a handle or behind the last one. -/
structure ReadBuffer.At (p : TranBufPool) (bs : List UInt8) (rb : ReadBuffer) (pos : Nat) : Prop where
  size   : ∀ h ∈ rb.bufList, 0 < h.size
  read   : readHandles p rb.bufList = some bs
  total  : rb.totalBytes = bs.length
  within : rb.curIt ≤ rb.bufList.length
  nonneg : 0 ≤ rb.curPos
  inside : ∀ h, rb.bufList[rb.curIt]? = some h → rb.curPos < h.size
  behind : rb.bufList[rb.curIt]? = none → rb.curPos = 0
  here   : (pos : Int) = bytesBefore rb.bufList rb.curIt + rb.curPos
  count  : rb.readBytes = pos

namespace ReadBuffer

variable {p : TranBufPool} {bs : List UInt8} {rb : ReadBuffer} {pos : Nat}

/-- What `Next` yielded lies in the handle before the cursor. -/
def Behind (rb : ReadBuffer) (given : Nat) : Prop :=
  ∃ k h, rb.curIt = k + 1 ∧ rb.bufList[k]? = some h ∧ rb.curPos = 0 ∧ (given : Int) ≤ h.size

theorem At.eq_length (h : rb.At p bs pos) (hend : rb.bufList[rb.curIt]? = none) : pos = bs.length := by
  have hit : rb.curIt = rb.bufList.length := Nat.le_antisymm h.within (List.getElem?_eq_none_iff.1 hend)
  have hhere := h.here
  rw [hit, bytesBefore_length h.size h.read, h.behind hend] at hhere
  omega

theorem next_eq_some {k : BufferHandle} (hk : rb.bufList[rb.curIt]? = some k) :
    rb.next = (some ⟨k.data, k.offset + rb.curPos, k.size - rb.curPos⟩,
      { rb with curIt := rb.curIt + 1, curPos := 0, lastBytes := k.size - rb.curPos,
                readBytes := rb.readBytes + (k.size - rb.curPos) }) := by
  rw [next, hk]

theorem next_eq_none (hend : rb.bufList[rb.curIt]? = none) : rb.next = (none, { rb with lastBytes := 0 }) := by
  rw [next, hend]

/-- **What `Next` does**: at the end nothing; elsewhere it yields the bytes up to the end of the handle, and goes there. -/
theorem At.next_cases (h : rb.At p bs pos) :
    (pos = bs.length ∧ rb.next = (none, { rb with lastBytes := 0 })) ∨
    ∃ r rb', rb.next = (some r, rb') ∧ 0 < r.size ∧ pos + r.size.toNat ≤ bs.length ∧
      p.read r.data r.offset r.size.toNat = some (slice bs pos r.size.toNat) ∧
      rb'.At p bs (pos + r.size.toNat) ∧ rb'.Behind r.size.toNat ∧
      rb'.bufList = rb.bufList ∧ rb'.curIt = rb.curIt + 1 := by
  cases hk : rb.bufList[rb.curIt]? with
  | none   => exact .inl ⟨h.eq_length hk, next_eq_none hk⟩
  | some k =>
    have hinside := h.inside k hk
    have hnonneg := h.nonneg
    have hhere := h.here
    have hoff : ((rb.curPos.toNat : Nat) : Int) = rb.curPos := Int.toNat_of_nonneg hnonneg
    have hlt : (rb.curPos.toNat : Int) < k.size := by omega
    obtain ⟨hread, hle, hbefore⟩ := read_window h.size h.read hk hlt
    have hat : (bytesBefore rb.bufList rb.curIt).toNat + rb.curPos.toNat = pos := by omega
    have hsucc := bytesBefore_succ hk
    have hlt : rb.curIt < rb.bufList.length := (List.getElem?_eq_some_iff.1 hk).1
    rw [hoff, hat] at hread
    refine .inr ⟨_, _, next_eq_some hk, by show 0 < k.size - rb.curPos; omega,
      by show pos + (k.size - rb.curPos).toNat ≤ bs.length; omega, hread, ?_,
      ⟨rb.curIt, k, rfl, hk, rfl, by show ((k.size - rb.curPos).toNat : Int) ≤ k.size; omega⟩, rfl, rfl⟩
    constructor
    case size   => exact h.size
    case read   => exact h.read
    case total  => exact h.total
    case within => exact hlt
    case nonneg => exact Int.le_refl 0
    case inside => exact fun k' hk' => h.size k' (List.mem_of_getElem? hk')
    case behind => exact fun _ => rfl
    case here   =>
      show ((pos + (k.size - rb.curPos).toNat : Nat) : Int) = bytesBefore rb.bufList (rb.curIt + 1) + 0
      omega
    case count  =>
      have hcount := h.count
      show rb.readBytes + (k.size - rb.curPos) = ((pos + (k.size - rb.curPos).toNat : Nat) : Int)
      omega

/-- **`BackUp` goes back** in what `Next` yielded. -/
theorem At.backUp (h : rb.At p bs pos) {given count : Nat} (hbehind : rb.Behind given) (hle : count ≤ given)
    (hpos : count ≤ pos) : (rb.backUp count).At p bs (pos - count) := by
  obtain ⟨k, g, hit, hk, hcur, hgiven⟩ := hbehind
  have hhere := h.here
  have hcount := h.count
  unfold ReadBuffer.backUp
  split
  · rename_i hback
    have hsucc := bytesBefore_succ hk
    have hprev : rb.curIt - 1 = k := by omega
    rw [hprev, hk]
    constructor
    case size   => exact h.size
    case read   => exact h.read
    case total  => exact h.total
    case within => exact Nat.le_of_lt (List.getElem?_eq_some_iff.1 hk).1
    case nonneg =>
      show 0 ≤ g.size - (count : Int)
      omega
    case inside =>
      intro g' hg'
      obtain rfl := Option.some.inj (hk.symm.trans hg')
      show g.size - (count : Int) < g.size
      omega
    case behind => exact fun hnone => (nomatch hk.symm.trans hnone)
    case here   =>
      rw [hit] at hhere
      show ((pos - count : Nat) : Int) = bytesBefore rb.bufList k + (g.size - (count : Int))
      omega
    case count  =>
      show rb.readBytes - (count : Int) = ((pos - count : Nat) : Int)
      omega
  · refine ⟨h.size, h.read, h.total, h.within, h.nonneg, h.inside, h.behind, ?_, ?_⟩
    · show ((pos - count : Nat) : Int) = bytesBefore rb.bufList rb.curIt + rb.curPos
      omega
    · show rb.readBytes - (count : Int) = ((pos - count : Nat) : Int)
      omega

theorem At.of_lastBytes (h : rb.At p bs pos) (n : Int) : At p bs { rb with lastBytes := n } pos :=
  ⟨h.size, h.read, h.total, h.within, h.nonneg, h.inside, h.behind, h.here, h.count⟩

/-- The loop of `Skip` ends, as far on as it was to go or at the end. -/
theorem At.skipLoop : ∀ (fuel : Nat) {rb : ReadBuffer} {pos : Nat} (count : Nat), rb.At p bs pos → pos ≤ bs.length →
    rb.bufList.length < rb.curIt + fuel → ∃ rb', ReadBuffer.skipLoop fuel rb count =
        some (((pos + count - min (pos + count) bs.length : Nat) : Int), rb') ∧
      rb'.At p bs (min (pos + count) bs.length)
  | 0,        rb, pos, count, h, _, hfuel => by
    have hwithin := h.within
    omega
  | fuel + 1, rb, pos, count, h, hle, hfuel => by
    rw [ReadBuffer.skipLoop]
    split
    · rename_i hzero
      obtain rfl : count = 0 := by omega
      rw [Nat.add_zero, Nat.min_eq_left hle, Nat.sub_self]
      exact ⟨rb, rfl, h⟩
    · rename_i hpos
      rcases h.next_cases with ⟨hend, hnext⟩ | ⟨r, rb', hnext, hsize, hbound, -, hat, hbehind, hlist, hit⟩
      · rw [hnext]
        subst hend
        rw [Nat.min_eq_right (Nat.le_add_right _ _), Nat.add_sub_cancel_left]
        exact ⟨_, rfl, h.of_lastBytes 0⟩
      · rw [hnext]
        dsimp only
        split
        · rename_i hlt
          have hgiven : r.size.toNat - count ≤ r.size.toNat := Nat.sub_le _ _
          have hback := hat.backUp hbehind hgiven (by omega)
          have hcast : ((r.size.toNat - count : Nat) : Int) = r.size - count := by omega
          have hto : pos + r.size.toNat - (r.size.toNat - count) = pos + count := by omega
          rw [hcast, hto] at hback
          rw [Nat.min_eq_left (by omega), Nat.sub_self]
          exact ⟨_, rfl, hback⟩
        · obtain ⟨rb'', hloop, hat'⟩ := hat.skipLoop fuel (count - r.size.toNat) hbound (by rw [hlist, hit]; omega)
          have hcast : ((count - r.size.toNat : Nat) : Int) = count - r.size := by omega
          have hto : pos + r.size.toNat + (count - r.size.toNat) = pos + count := by omega
          rw [hcast, hto] at hloop
          rw [hto] at hat'
          exact ⟨rb'', hloop, hat'⟩

/-- **What `Skip` does**: it goes on by `count` bytes, or to the end, and says which. -/
theorem At.skip (h : rb.At p bs pos) (hle : pos ≤ bs.length) (count : Nat) :
    ∃ rb', rb.skip count = some (decide (pos + count ≤ bs.length), rb') ∧ rb'.At p bs (min (pos + count) bs.length) := by
  obtain ⟨rb', hloop, hat⟩ := h.skipLoop (rb.bufList.length + 1) count hle (by omega)
  refine ⟨{ rb' with lastBytes := 0 }, ?_, hat.of_lastBytes 0⟩
  rw [ReadBuffer.skip, hloop, Option.map_some]
  refine congrArg (fun b => some (b, { rb' with lastBytes := 0 })) (decide_eq_decide.2 ?_)
  omega

/-! ## Building a buffer -/

/-- A buffer of the handles, from which nothing was taken, in a pool that reads as the first one. -/
structure Built (p : TranBufPool) (hs : List BufferHandle) (x : ReadBuffer × TranBufPool) : Prop where
  list  : x.1.bufList = hs
  total : x.1.totalBytes = (hs.map BufferHandle.size).sum
  fresh : x.1.Fresh
  reads : ∀ ks, readHandles x.2 ks = readHandles p ks

namespace Built

variable {p : TranBufPool} {hs : List BufferHandle} {x : ReadBuffer × TranBufPool}

theorem append (h : Built p hs x) (k : BufferHandle) : Built p (hs ++ [k]) (x.1.append x.2 k) where
  list  := congrArg (· ++ [k]) h.list
  total := by
    rw [List.map_append, List.sum_append]
    show x.1.totalBytes + k.size = _
    rw [h.total]
    simp
  fresh := h.fresh.append x.2 k
  reads := fun ks => by
    show readHandles (x.2.addRef k.data) ks = _
    rw [readHandles_addRef, h.reads]

theorem foldl : ∀ (ks : List BufferHandle) {hs : List BufferHandle} {x : ReadBuffer × TranBufPool}, Built p hs x →
    Built p (hs ++ ks) (ks.foldl (fun (rb, p) h => rb.append p h) x)
  | [],      hs, _, h => by
    rw [List.append_nil]
    exact h
  | k :: ks, hs, _, h => by
    have hrest := foldl ks (h.append k)
    rwa [List.append_assoc, List.singleton_append] at hrest

theorem build (p : TranBufPool) (hs : List BufferHandle) : Built p hs (build p hs) :=
  Built.foldl hs (x := ({}, p)) ⟨rfl, rfl, ⟨rfl, rfl, rfl⟩, fun _ => rfl⟩

theorem readHandles_addRefAll (ks : List BufferHandle) : ∀ (blocks : List BlockPtr) (p : TranBufPool),
    readHandles (p.addRefAll blocks) ks = readHandles p ks
  | [],          _ => rfl
  | b :: blocks, p => by
    show readHandles ((p.addRef b).addRefAll blocks) ks = _
    rw [readHandles_addRefAll ks blocks, readHandles_addRef]

theorem addPart (h : Built p hs x) (part : ReadPart) : Built p (hs ++ part.handles) (ReadBuffer.addPart x part) := by
  cases part with
  | handle k  => exact h.append k
  | buffer ks =>
    have hother := Built.build x.2 ks
    refine ⟨?_, ?_, ⟨rfl, h.fresh.curPos, h.fresh.readBytes⟩, fun qs => ?_⟩
    · show x.1.bufList ++ (ReadBuffer.build x.2 ks).1.bufList = hs ++ ks
      rw [h.list, hother.list]
    · show x.1.totalBytes + (ReadBuffer.build x.2 ks).1.totalBytes = ((hs ++ ks).map BufferHandle.size).sum
      rw [h.total, hother.total, List.map_append, List.sum_append]
    · exact (readHandles_addRefAll qs _ _).trans ((hother.reads qs).trans (h.reads qs))

theorem parts : ∀ (parts : List ReadPart) {hs : List BufferHandle} {x : ReadBuffer × TranBufPool}, Built p hs x →
    Built p (hs ++ parts.flatMap ReadPart.handles) (parts.foldl ReadBuffer.addPart x)
  | [],            hs, _, h => by
    rw [List.flatMap_nil, List.append_nil]
    exact h
  | part :: parts, hs, _, h => by
    have hrest := Built.parts parts (h.addPart part)
    rwa [List.append_assoc, ← List.flatMap_cons] at hrest

end Built

theorem built_buildParts (p : TranBufPool) (parts : List ReadPart) :
    Built p (parts.flatMap ReadPart.handles) (buildParts p parts) :=
  Built.parts parts (x := ({}, p)) ⟨rfl, rfl, ⟨rfl, rfl, rfl⟩, fun _ => rfl⟩

/-- A buffer that was built is at its beginning. -/
theorem at_buildParts {p : TranBufPool} (source : ReadSource p) :
    (buildParts p source.parts).1.At (buildParts p source.parts).2 source.bytes 0 := by
  have hbuilt := built_buildParts p source.parts
  have hsize : ∀ h ∈ source.parts.flatMap ReadPart.handles, 0 < h.size := by
    intro h hh
    obtain ⟨part, hpart, hmem⟩ := List.mem_flatMap.1 hh
    exact source.size part hpart h hmem
  have hlength := bytesBefore_length hsize source.read
  rw [bytesBefore, List.take_length] at hlength
  constructor
  case size   => rwa [hbuilt.list]
  case read   =>
    rw [hbuilt.list, hbuilt.reads]
    exact source.read
  case total  => rw [hbuilt.total, hlength]
  case within =>
    rw [hbuilt.fresh.curIt]
    exact Nat.zero_le _
  case nonneg => exact Int.le_of_eq hbuilt.fresh.curPos.symm
  case inside =>
    intro h hh
    rw [hbuilt.list] at hh
    rw [hbuilt.fresh.curPos]
    exact hsize h (List.mem_of_getElem? hh)
  case behind => exact fun _ => hbuilt.fresh.curPos
  case here   =>
    rw [hbuilt.fresh.curIt, hbuilt.fresh.curPos]
    rfl
  case count  => exact hbuilt.fresh.readBytes

end ReadBuffer

/-! ## Runs -/

namespace Reading

variable {p : TranBufPool} {bs : List UInt8} {s : Reading}

/-- The buffer is at the position, and what was yielded last lies before it. -/
structure Kept (p : TranBufPool) (bs : List UInt8) (s : Reading) : Prop where
  noFault : s.fault = false
  cursor     : s.buffer.At p bs s.pos
  le      : s.pos ≤ bs.length
  given   : 0 < s.given → s.buffer.Behind s.given ∧ s.given ≤ s.pos
  total   : s.total = bs.length

theorem Kept.step (h : s.Kept p bs) (op : ReadOp) : (s.step op).Kept p bs := by
  cases op with
  | next         =>
    rcases h.cursor.next_cases with ⟨-, hnext⟩ | ⟨r, rb', hnext, -, hbound, -, hat, hbehind, -, -⟩
    · rw [Reading.step, hnext]
      exact ⟨h.noFault, h.cursor.of_lastBytes 0, h.le, fun hlt => absurd hlt (Nat.lt_irrefl 0), h.total⟩
    · rw [Reading.step, hnext]
      exact ⟨h.noFault, hat, hbound, fun _ => ⟨hbehind, Nat.le_add_left _ _⟩, h.total⟩
  | backUp count =>
    rw [Reading.step]
    split
    · rename_i hallowed
      obtain ⟨hbehind, hle⟩ := h.given hallowed.1
      have hback := h.cursor.backUp hbehind hallowed.2 (Nat.le_trans hallowed.2 hle)
      exact ⟨h.noFault, hback, Nat.le_trans (Nat.sub_le _ _) h.le, fun hlt => absurd hlt (Nat.lt_irrefl 0), h.total⟩
    · exact h
  | skip count   =>
    obtain ⟨rb', hskip, hat⟩ := h.cursor.skip h.le count
    rw [Reading.step, hskip]
    refine ⟨h.noFault, ?_, ?_, fun hlt => absurd hlt (Nat.lt_irrefl 0), h.total⟩
    · rw [h.total]
      exact hat
    · show min (s.pos + count) s.total ≤ bs.length
      rw [h.total]
      exact Nat.min_le_right _ _

theorem Kept.agrees (h : s.Kept p bs) : s.Agrees p bs where
  noFault := h.noFault
  count   := h.cursor.count
  next    := by
    unfold NextYields
    rcases h.cursor.next_cases with ⟨hend, hnext⟩ | ⟨r, rb', hnext, hsize, hbound, hread, -⟩
    · rw [hnext]
      exact hend
    · rw [hnext]
      exact ⟨hsize, hbound, hread⟩
  skip    := fun count => by
    obtain ⟨rb', hskip, -⟩ := h.cursor.skip h.le count
    exact ⟨rb', hskip⟩
  total   := h.cursor.total
  bytes   := h.cursor.read

/-- **A buffer is a position in its bytes**: whatever it was built from and however it was read, `Next` yields what comes
next, and nothing at the end alone, `Skip` goes on as far as there are bytes, `ByteCount` is the position, and `TotalCount`
and `ToString` are those of the bytes. -/
theorem position_run (p : TranBufPool) (source : ReadSource p) (ops : List ReadOp) :
    Always step (Agrees (ReadBuffer.buildParts p source.parts).2 source.bytes) (init source) ops := by
  have hstart : (init source).Kept (ReadBuffer.buildParts p source.parts).2 source.bytes :=
    ⟨rfl, ReadBuffer.at_buildParts source, Nat.zero_le _, fun hlt => absurd hlt (Nat.lt_irrefl 0), rfl⟩
  exact (Run.always_of_step _ (fun _ op hs => hs.step op) ops hstart).mono fun _ hs => hs.agrees

end Reading

end Gb
