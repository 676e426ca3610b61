import GbServer.Lib.Run
import GbServer.WriteBuffer
import Mathlib.Data.List.Forall2
/-!
# WriteList — a buffer that is written, beside a list

What is written to a `WriteBuffer` by `Next`, `BackUp`, `Reserve`, `Append` and `SetData`, in any order and whatever blocks
it takes, is what the same calls do to a list (`ByteList`): the buffer counts as many bytes, and `SwapOut` hands over a
buffer that has the list's bytes (`agrees_run`).  Bytes that were reserved are anything until they are set.  Two kinds of
calls break this: a string whose size an `int` does not hold is appended short or not at all, and one that runs out of memory
in the middle leaves what it had taken.
-/
namespace Gb

open Run (Along Always)

/-- A call to a `WriteBuffer`, and whether there is memory for the block number `k`.  The caller of `Next` puts
`content i` at the place `i` of the region. -/
inductive WriteOp
  | setBaseBlockFactor (factor : Nat)
  | next (mallocOk : Nat → Bool) (content : Nat → UInt8)
  | backUp (count : Nat)
  | reserve (count : Int) (mallocOk : Nat → Bool)
  | append (data : List UInt8) (mallocOk : Nat → Bool)
  | setData (pos : Nat) (data : List UInt8)

/-- A list of bytes that are known or not, and how many of them the last call has given out. -/
structure ByteList where
  bytes : List (Option UInt8) := []
  given : Nat := 0

namespace ByteList

/-- What the calls of the buffer do to the list.  `Next` chooses the size of its region, and what fails has done nothing. -/
def next (l : ByteList) (size : Nat) (content : Nat → UInt8) : ByteList :=
  ⟨l.bytes ++ (List.range size).map fun i => some (content i), size⟩

def backUp (l : ByteList) (count : Nat) : ByteList := ⟨l.bytes.take (l.bytes.length - count), 0⟩

def reserve (l : ByteList) (count : Nat) : ByteList := ⟨l.bytes ++ List.replicate count none, 0⟩

def append (l : ByteList) (data : List UInt8) : ByteList := ⟨l.bytes ++ data.map some, 0⟩

/-- The bytes from `pos` to `pos + size`, and no others. -/
def setData (l : ByteList) (pos : Nat) (data : List UInt8) : ByteList :=
  ⟨l.bytes.take pos ++ data.map some ++ l.bytes.drop (pos + data.length), 0⟩

def failed (l : ByteList) : ByteList := ⟨l.bytes, 0⟩

end ByteList

/-- A buffer and the list that it is to be; `fault` once a call went beyond the blocks. -/
structure Writing where
  buffer : WriteBuffer
  list   : ByteList := {}
  fault  : Bool := false

/-- `Append(const std::string&)`: the size becomes an `int`. -/
def WriteBuffer.appendString (w : WriteBuffer) (data : List UInt8) (mallocOk : Nat → Bool) : Option (Bool × WriteBuffer) :=
  w.append data (toInt32 data.length) mallocOk

namespace Writing

def init (pool : TranBufPool) : Writing := { buffer := { pool := pool } }

/-- A call to both. -/
def run (s : Writing) : WriteOp → Writing
  | .setBaseBlockFactor factor => { s with buffer := { s.buffer with baseBlockFactor := factor } }
  | .next mallocOk content     =>
    match s.buffer.next mallocOk with
    | (none, w)   => { s with buffer := w, list := s.list.failed }
    | (some r, w) =>
      { s with buffer := w.fill r ((List.range r.size).map content), list := s.list.next r.size content }
  | .backUp count              => { s with buffer := s.buffer.backUp count, list := s.list.backUp count }
  | .reserve count mallocOk    =>
    match s.buffer.reserve count mallocOk with
    | none           => { s with fault := true }
    | some (head, w) => { s with buffer := w, list := if head < 0 then s.list.failed else s.list.reserve count.toNat }
  | .append data mallocOk      =>
    match s.buffer.appendString data mallocOk with
    | none         => { s with fault := true }
    | some (ok, w) => { s with buffer := w, list := if ok then s.list.append data else s.list.failed }
  | .setData pos data          =>
    match s.buffer.setData pos data with
    | none   => { s with fault := true }
    | some w => { s with buffer := w, list := s.list.setData pos data }

/-- What a caller has to keep to: `BackUp` comes right after a `Next` and takes back at most what that gave, and `SetData`
stays within the bytes. -/
def Allowed (s : Writing) : WriteOp → Prop
  | .backUp count     => 0 < s.list.given ∧ count ≤ s.list.given
  | .setData pos data => 0 < data.length ∧ pos + data.length ≤ s.buffer.byteCount
  | _                 => True

instance (s : Writing) : ∀ op, Decidable (s.Allowed op)
  | .backUp _             => inferInstanceAs (Decidable (_ ∧ _))
  | .setData _ _          => inferInstanceAs (Decidable (_ ∧ _))
  | .setBaseBlockFactor _ => isTrue trivial
  | .next _ _             => isTrue trivial
  | .reserve _ _          => isTrue trivial
  | .append _ _           => isTrue trivial

def step (s : Writing) (op : WriteOp) : Writing := if s.Allowed op then s.run op else s

/-- The bytes are those of the list, where it knows them. -/
def Matches (known : List (Option UInt8)) (bs : List UInt8) : Prop :=
  List.Forall₂ (fun byte b => ∀ x ∈ byte, b = x) known bs

/-- The buffer is the list. -/
structure Agrees (s : Writing) : Prop where
  noFault : s.fault = false
  count   : s.buffer.byteCount = s.list.bytes.length
  full    : s.buffer.Full
  bytes   : ∃ bs, (s.buffer.swapOut {}).1.toString (s.buffer.swapOut {}).2.pool = some bs ∧ Matches s.list.bytes bs
  total   : (s.buffer.swapOut {}).1.totalCount = s.list.bytes.length

end Writing

namespace WriteBuffer

/-- A call that takes `count` bytes does not run out of memory in the middle. -/
def Untouched (w : WriteBuffer) (mallocOk : Nat → Bool) (count : Int) : Prop :=
  ∀ taken, w.FailsAfter mallocOk taken → taken = 0 ∨ count ≤ taken

variable {w : WriteBuffer} {mallocOk : Nat → Bool}

theorem untouched_of_memory (hok : ∀ k, mallocOk k = true) (count : Int) : w.Untouched mallocOk count := by
  rintro taken ⟨blocks, -, hfails, -⟩
  rw [hok] at hfails
  cases hfails

theorem untouched_of_le_room {count : Int} (hle : count ≤ w.room) : w.Untouched mallocOk count := by
  rintro taken ⟨blocks, -, -, rfl⟩
  have hroom : w.room ≤ w.roomIn blocks := Nat.le_add_right _ _
  omega

end WriteBuffer

/-- The strings are such that an `int` holds their size, and no call runs out of memory in the middle. -/
def Writing.Fits (s : Writing) : WriteOp → Prop
  | .reserve count mallocOk => s.buffer.Untouched mallocOk count
  | .append data mallocOk   => data.length < 2 ^ 31 ∧ s.buffer.Untouched mallocOk data.length
  | _                       => True

namespace Writing

variable {s : Writing} {known : List (Option UInt8)} {bs : List UInt8}

/-! ## Known bytes -/

theorem Matches.length (h : Matches known bs) : known.length = bs.length := h.length_eq

theorem Matches.append {more : List (Option UInt8)} {g : List UInt8} (h : Matches known bs) (hg : Matches more g) :
    Matches (known ++ more) (bs ++ g) := List.rel_append h hg

theorem matches_map_some : ∀ xs : List UInt8, Matches (xs.map some) xs
  | []      => .nil
  | _ :: xs => .cons (fun _ hx => Option.some.inj hx) (matches_map_some xs)

theorem matches_replicate : ∀ g : List UInt8, Matches (List.replicate g.length none) g
  | []     => .nil
  | _ :: g => .cons (fun _ hx => (nomatch hx)) (matches_replicate g)

/-- A copy to a place in the bytes. -/
theorem Matches.overwrite (h : Matches known bs) {pos : Nat} {xs : List UInt8} (hle : pos + xs.length ≤ bs.length) :
    Matches (known.take pos ++ xs.map some ++ known.drop (pos + xs.length)) (Bytes.overwrite bs pos xs) := by
  have htake : Matches (known.take pos) (bs.take pos) := List.forall₂_take pos h
  rw [Bytes.overwrite_eq _ _ _ hle]
  exact (htake.append (matches_map_some xs)).append (List.forall₂_drop (pos + xs.length) h)

/-! ## What a call preserves -/

/-- The buffer has bytes, those of the list where the run is `exact`, and the region that was given out lies at its end. -/
structure Kept (exact : Prop) (s : Writing) : Prop where
  holds   : ∃ bs, s.buffer.Holds bs ∧ (exact → Matches s.list.bytes bs)
  full    : s.buffer.Full
  noFault : s.fault = false
  given   : 0 < s.list.given → ∃ r, s.buffer.AtEnd r ∧ r.size = s.list.given ∧ s.list.given ≤ s.buffer.byteCount

namespace Kept

variable {exact : Prop}

theorem init (pool : TranBufPool) : (Writing.init pool).Kept exact where
  holds   := ⟨[], ⟨.nil, rfl⟩, fun _ => .nil⟩
  full    := fun _ hh => absurd hh List.not_mem_nil
  noFault := rfl
  given   := fun h => absurd h (Nat.lt_irrefl 0)

/-- A call after which nothing is given out. -/
theorem of_holds {w : WriteBuffer} {list : ByteList} {g : List UInt8} (hw : w.Holds g) (hfull : w.Full)
    (hmatches : exact → Matches list.bytes g) (hgiven : list.given = 0) (hfault : s.fault = false) :
    Kept exact { s with buffer := w, list := list } :=
  ⟨⟨g, hw, hmatches⟩, hfull, hfault, fun h => absurd h (by rw [hgiven]; exact Nat.lt_irrefl 0)⟩

theorem next (h : s.Kept exact) (mallocOk : Nat → Bool) (content : Nat → UInt8) :
    (s.run (.next mallocOk content)).Kept exact := by
  obtain ⟨bs, hholds, hmatches⟩ := h.holds
  by_cases hready : s.buffer.hasRoom = true ∨ mallocOk s.buffer.bufList.length = true
  · obtain ⟨r, w, g, hnext, hw, hg, hpos, hend⟩ := hholds.next hready
    have hlen : ((List.range r.size).map content).length = r.size := by
      rw [List.length_map, List.length_range]
    obtain ⟨hfill, hend'⟩ := hw.fill hend hg (Nat.le_of_eq hlen)
    rw [hlen, ← hg, List.drop_length, List.append_nil, hg] at hfill
    have hcount : w.byteCount = _ := hfill.count
    have hfull : w.Full := by
      have hw := h.full.next mallocOk
      rwa [hnext] at hw
    rw [run, hnext]
    refine ⟨⟨_, hfill, fun hexact => (hmatches hexact).append ?_⟩, hfull, h.noFault, fun _ => ⟨r, hend', rfl, ?_⟩⟩
    · rw [← Function.comp_def, ← List.map_map]
      exact matches_map_some _
    · show r.size ≤ w.byteCount
      rw [hcount, List.length_append, hlen]
      exact Nat.le_add_left _ _
  · rw [not_or, Bool.not_eq_true, Bool.not_eq_true] at hready
    rw [run, WriteBuffer.next_eq_none hready.1 hready.2]
    exact .of_holds ⟨hholds.handles, hholds.count⟩ h.full hmatches rfl h.noFault

theorem backUp (h : s.Kept exact) {count : Nat} (hgiven : 0 < s.list.given) (hcount : count ≤ s.list.given) :
    (s.run (.backUp count)).Kept exact := by
  obtain ⟨bs, hholds, hmatches⟩ := h.holds
  obtain ⟨r, hend, hsize, hle⟩ := h.given hgiven
  have hlen : s.buffer.byteCount = bs.length := hholds.count
  have hdrop : (bs.drop (bs.length - count)).length = count := by
    rw [List.length_drop]
    omega
  rw [← List.take_append_drop (bs.length - count) bs] at hholds
  have hback := hholds.backUp hend (by omega)
  rw [hdrop] at hback
  refine .of_holds hback (h.full.backUp count) (fun hexact => ?_) rfl h.noFault
  rw [ByteList.backUp, (hmatches hexact).length]
  exact List.forall₂_take _ (hmatches hexact)

theorem reserve (h : s.Kept exact) {count : Int} {mallocOk : Nat → Bool}
    (huntouched : exact → s.buffer.Untouched mallocOk count) : (s.run (.reserve count mallocOk)).Kept exact := by
  obtain ⟨bs, hholds, hmatches⟩ := h.holds
  obtain ⟨w, g, hw, hfull, ⟨hreserve, hg, -⟩ | ⟨hreserve, hg, hexactly⟩⟩ := hholds.reserve_cases count mallocOk
  · rw [run, hreserve]
    refine .of_holds hw (hfull h.full) (fun hexact => ?_) ?_ h.noFault
    · rw [if_neg (by omega), ByteList.reserve, ← hg]
      exact (hmatches hexact).append (matches_replicate g)
    · rw [if_neg (by omega)]
      rfl
  · rw [run, hreserve]
    refine .of_holds hw (hfull h.full) (fun hexact => ?_) rfl h.noFault
    have hnil : g.length = 0 := by
      have hor := huntouched hexact g.length ((hexactly _).2 rfl)
      omega
    rw [List.eq_nil_of_length_eq_zero hnil, List.append_nil]
    exact hmatches hexact

theorem append (h : s.Kept exact) {data : List UInt8} {mallocOk : Nat → Bool}
    (hfits : exact → data.length < 2 ^ 31 ∧ s.buffer.Untouched mallocOk data.length) :
    (s.run (.append data mallocOk)).Kept exact := by
  obtain ⟨bs, hholds, hmatches⟩ := h.holds
  have hint : exact → toInt32 data.length = data.length := by
    intro hexact
    have hlt := (hfits hexact).1
    exact toInt32_of_range _ (by omega) (by omega)
  obtain ⟨w, g, hw, hfull, ⟨happend, hg, -⟩ | ⟨happend, hg, hexactly⟩⟩ :=
    hholds.append_cases mallocOk data (toInt32_le data.length)
  · rw [run, WriteBuffer.appendString, happend]
    refine .of_holds hw (hfull h.full) (fun hexact => ?_) rfl h.noFault
    rw [hint hexact, Int.toNat_natCast, List.take_length] at hg
    rw [hg]
    exact (hmatches hexact).append (matches_map_some data)
  · rw [run, WriteBuffer.appendString, happend]
    refine .of_holds hw (hfull h.full) (fun hexact => ?_) rfl h.noFault
    have hnil : g.length = 0 := by
      have hor := (hfits hexact).2 g.length ((hexactly _).2 rfl)
      rw [hint hexact] at hg
      omega
    rw [List.eq_nil_of_length_eq_zero hnil, List.append_nil]
    exact hmatches hexact

theorem setData (h : s.Kept exact) {pos : Nat} {data : List UInt8} (hle : pos + data.length ≤ s.buffer.byteCount) :
    (s.run (.setData pos data)).Kept exact := by
  obtain ⟨bs, hholds, hmatches⟩ := h.holds
  have hlen : s.buffer.byteCount = bs.length := hholds.count
  rw [hlen] at hle
  obtain ⟨w, hset, hw⟩ := hholds.setData pos data hle
  have hfull : w.Full := by
    unfold WriteBuffer.Full
    rw [WriteBuffer.setData_frame hset]
    exact h.full
  rw [run, hset]
  exact .of_holds hw hfull (fun hexact => (hmatches hexact).overwrite hle) rfl h.noFault

theorem step (h : s.Kept exact) {op : WriteOp} (hfits : exact → s.Fits op) : (s.step op).Kept exact := by
  unfold Writing.step
  split
  · rename_i hallowed
    cases op with
    | setBaseBlockFactor factor =>
      obtain ⟨bs, hholds, hmatches⟩ := h.holds
      exact ⟨⟨bs, ⟨hholds.handles, hholds.count⟩, hmatches⟩, h.full, h.noFault, h.given⟩
    | next mallocOk content     => exact h.next mallocOk content
    | backUp count              => exact h.backUp hallowed.1 hallowed.2
    | reserve count mallocOk    => exact h.reserve hfits
    | append data mallocOk      => exact h.append hfits
    | setData pos data          => exact h.setData hallowed.2
  · exact h

theorem agrees (h : s.Kept True) : s.Agrees := by
  obtain ⟨bs, hholds, hmatches⟩ := h.holds
  have hlen := (hmatches trivial).length
  refine ⟨h.noFault, ?_, h.full, ⟨bs, hholds.swapOut.1, hmatches trivial⟩, ?_⟩
  · rw [hlen]
    exact hholds.count
  · rw [hlen]
    exact hholds.swapOut_totalCount

end Kept

/-! ## Runs -/

/-- Whatever is called, the buffer has bytes. -/
theorem kept_run (pool : TranBufPool) (ops : List WriteOp) : (ops.foldl step (init pool)).Kept False :=
  Run.foldl_of_step (Kept False) (fun _ _ hs => hs.step False.elim) ops (Kept.init pool)

/-- **In every run in which an `int` holds the sizes and no call runs out of memory in the middle**, the buffer is the list:
it counts its bytes, its blocks but the last are full, and `SwapOut` hands its bytes over. -/
theorem agrees_run (pool : TranBufPool) (ops : List WriteOp) (h : Along step Fits (init pool) ops) :
    Always step Agrees (init pool) ops :=
  (Run.always_inv (fun _ _ hs hop => hs.step fun _ => hop) ops (Kept.init pool) h).mono fun _ hs => hs.agrees

/-- A block that is given out and taken back, a place that is kept for a size, and what is put there. -/
theorem agrees_run_message : Always step Agrees (init .init)
    [.setBaseBlockFactor 0, .next (fun _ => true) fun _ => 1, .backUp 50, .reserve 4 fun _ => true,
      .append [7, 8, 9] fun _ => true, .setData 6 [3, 0, 0, 0], .reserve 1 fun _ => false] := by
  refine agrees_run .init _ ⟨trivial, trivial, trivial, WriteBuffer.untouched_of_memory (fun _ => rfl) 4,
    ⟨by decide, WriteBuffer.untouched_of_memory (fun _ => rfl) _⟩, trivial, WriteBuffer.untouched_of_le_room ?_, trivial⟩
  decide

/-- A string whose size an `int` does not hold is not appended as it is. -/
theorem Kept.count_ne_of_long (h : s.Kept True) {data : List UInt8} (hlong : 2 ^ 31 ≤ data.length) {mallocOk : Nat → Bool}
    (hok : ∀ k, mallocOk k = true) : (s.run (.append data mallocOk)).buffer.byteCount ≠
      (s.run (.append data mallocOk)).list.bytes.length := by
  obtain ⟨bs, hholds, hmatches⟩ := h.holds
  obtain ⟨w, happend, hw⟩ := hholds.append hok data (toInt32 data.length) (toInt32_le _)
  have hlt := toInt32_lt data.length
  have hcount : w.byteCount = _ := hw.count
  rw [List.length_append, List.length_take] at hcount
  rw [run, WriteBuffer.appendString, happend]
  show w.byteCount ≠ (s.list.bytes ++ data.map some).length
  rw [hcount, List.length_append, List.length_map, (hmatches trivial).length]
  omega

/-- A string of 2^31 bytes: `Append` says that it has appended it, and has not. -/
theorem not_agrees_run : ¬∀ ops, Always step Agrees (init .init) ops := by
  intro h
  have hshort : ∀ data : List UInt8, ¬2 ^ 31 ≤ data.length := fun data hlong =>
    (Kept.init .init).count_ne_of_long hlong (fun _ => rfl)
      (Run.always_iff_take.1 (h [.append data fun _ => true]) 1).count
  exact hshort (List.replicate (2 ^ 31) 0) (Nat.le_of_eq List.length_replicate.symm)

/-! ## A write that fails -/

end Writing

namespace WriteBuffer

variable {w : WriteBuffer} {mallocOk : Nat → Bool}

/-- The bytes that `SwapOut` hands over. -/
def delivers (w : WriteBuffer) : Option (List UInt8) := (w.swapOut {}).1.toString (w.swapOut {}).2.pool

/-- A `Reserve` that fails leaves the buffer as it was. -/
def ReserveKeeps (w : WriteBuffer) (count : Int) (mallocOk : Nat → Bool) : Prop :=
  ∀ w', w.reserve count mallocOk = some (-1, w') → w'.byteCount = w.byteCount ∧ w'.delivers = w.delivers

/-- An `Append` that fails leaves the buffer as it was. -/
def AppendKeeps (w : WriteBuffer) (data : List UInt8) (size : Int) (mallocOk : Nat → Bool) : Prop :=
  ∀ w', w.append data size mallocOk = some (false, w') → w'.byteCount = w.byteCount ∧ w'.delivers = w.delivers

theorem Holds.delivers_eq {bs : List UInt8} (h : w.Holds bs) : w.delivers = some bs := h.swapOut.1

theorem Holds.reserveKeeps_iff {bs : List UInt8} (h : w.Holds bs) (count : Int) :
    w.ReserveKeeps count mallocOk ↔ w.Untouched mallocOk count := by
  have hcount : w.byteCount = bs.length := h.count
  obtain ⟨w', g, hw', -, ⟨hreserve, -, henough⟩ | ⟨hreserve, hlen, hexactly⟩⟩ := h.reserve_cases count mallocOk
  · refine iff_of_true (fun v hv => ?_) fun taken ht => ?_
    · rw [hreserve] at hv
      have hhead := (Prod.mk.inj (Option.some.inj hv)).1
      omega
    · have hle := henough taken ht
      omega
  · have hcount' : w'.byteCount = _ := hw'.count
    rw [List.length_append] at hcount'
    constructor
    · intro hkeeps taken ht
      have hsame := (hkeeps w' hreserve).1
      have htaken := (hexactly taken).1 ht
      omega
    · intro huntouched v hv
      have hnil : g.length = 0 := by
        have hor := huntouched g.length ((hexactly _).2 rfl)
        omega
      rw [hreserve] at hv
      obtain ⟨-, rfl⟩ := Prod.mk.inj (Option.some.inj hv)
      rw [List.eq_nil_of_length_eq_zero hnil, List.append_nil] at hw'
      exact ⟨by omega, by rw [hw'.delivers_eq, h.delivers_eq]⟩

/-- `Append` fails where its `Reserve` does. -/
theorem Holds.append_fails_iff {bs : List UInt8} (h : w.Holds bs) {data : List UInt8} {size : Int} {w' : WriteBuffer} :
    w.append data size mallocOk = some (false, w') ↔ w.reserve size mallocOk = some (-1, w') := by
  obtain ⟨v, g, -, -, ⟨hreserve, -⟩ | ⟨hreserve, hlen, -⟩⟩ := h.reserve_cases size mallocOk
  · have hhead : w.reserve size mallocOk ≠ some (-1, w') := by
      intro hfails
      rw [hreserve] at hfails
      have hhead := (Prod.mk.inj (Option.some.inj hfails)).1
      omega
    refine iff_of_false (fun hfails => ?_) hhead
    rw [WriteBuffer.append, hreserve] at hfails
    dsimp only at hfails
    rw [if_neg (show ¬(bs.length : Int) < 0 by omega)] at hfails
    split at hfails
    · cases hfails
    · obtain ⟨_, _, heq⟩ := Option.map_eq_some_iff.1 hfails
      cases heq
  · have hsize : size ≠ 0 := by
      rintro rfl
      exact Nat.not_lt_zero _ hlen
    rw [WriteBuffer.append, if_neg hsize, hreserve]
    constructor
    · intro hfails
      exact congrArg (fun v => some ((-1 : Int), v)) (Prod.mk.inj (Option.some.inj hfails)).2
    · intro hfails
      exact congrArg (fun v => some (false, v)) (Prod.mk.inj (Option.some.inj hfails)).2

end WriteBuffer

namespace Writing

/-- **A `Reserve` or an `Append` that fails leaves the buffer as it was**, in whatever state it is, if and only if it does
not run out of memory in the middle. -/
theorem failed_write_iff (pool : TranBufPool) (ops : List WriteOp) (mallocOk : Nat → Bool) (size : Int) :
    ((ops.foldl step (init pool)).buffer.ReserveKeeps size mallocOk ↔
      (ops.foldl step (init pool)).buffer.Untouched mallocOk size) ∧
    ∀ data, (ops.foldl step (init pool)).buffer.AppendKeeps data size mallocOk ↔
      (ops.foldl step (init pool)).buffer.Untouched mallocOk size := by
  obtain ⟨bs, hholds, -⟩ := (kept_run pool ops).holds
  refine ⟨hholds.reserveKeeps_iff size, fun data => ?_⟩
  rw [← hholds.reserveKeeps_iff]
  exact forall_congr' fun w' => by rw [hholds.append_fails_iff]

/-- The first block is there and the second is not: `Reserve` leaves the first. -/
theorem not_failed_write : ¬∀ (pool : TranBufPool) (ops : List WriteOp) (mallocOk : Nat → Bool) (size : Int),
    (ops.foldl step (init pool)).buffer.ReserveKeeps size mallocOk := by
  intro h
  have hnew : (init .init).buffer.Holds [] := ⟨.nil, rfl⟩
  have huntouched := (hnew.reserveKeeps_iff 2000).1 (h .init [] (fun k => k == 0) 2000)
  have hfails : (init .init).buffer.FailsAfter (fun k => k == 0) 1016 := ⟨1, by decide, rfl, by decide⟩
  exact absurd (huntouched 1016 hfails) (by decide)

end Writing

end Gb
