import GbServer.Lib.Report
import GbServer.MsgpackPlaces
/-!
# MsgpackDemands — what a message makes its decoder do, place by place

Four things that a decoder does are as the message says: the copy of a float, a count that is handed to `reserve` or
`resize`, a key that is written at, and the copy into a `std::array`.  What is asked of them (`Demand`) is a condition on
the bytes (`Meets`): at each place where a value begins it is read off the bytes there, and the next value begins where
the bytes say that the last one ends.
-/
namespace Gb.Msgpack

open Stateful

/-- What is asked of the size of a float at an offset, of a count and the bytes left behind it, of a key and the size of the
vector, and of a number of elements and the size of the array that they are copied to. -/
structure Demand where
  float  : Nat → Nat → Prop := fun _ _ => True
  count  : Nat → Nat → Prop := fun _ _ => True
  key    : Int → Nat → Prop := fun _ _ => True
  copied : Nat → Nat → Prop := fun _ _ => True

/-- What is asked of an event. -/
def Demand.of (d : Demand) : Event → Prop
  | .memcpy offset size     => d.float offset size
  | .alloc count remaining  => d.count count remaining
  | .key key size           => d.key key size
  | .elements count size    => d.copied count size
  | _                       => True

def All (p : Event → Prop) (u : Unpacker) : Prop := ∀ e ∈ u.log, p e

section

variable (d : Demand) (b : Buffer)

/-- At the marker of a float. -/
def NumberMeets (p : Nat) : Prop :=
  (b.front p = Format.float32.code → d.float (b.skip p 1) 4) ∧ (b.front p = Format.float64.code → d.float (b.skip p 1) 8)

/-- Behind a count that is announced to a container; what follows is met only where the count can be reserved. -/
def CountMeets (reserves : Bool) (count p : Nat) (rest : Prop) : Prop :=
  (reserves = true → count ≠ 0 → d.count count (b.bytes.length - p)) ∧ (b.reservable reserves count → rest)

section Containers

variable (next : Nat → Option Nat) (meets : Nat → Prop)

def ElementsMeet : Nat → Nat → Prop
  | 0,         _ => True
  | count + 1, p => meets p ∧ ∀ q, next p = some q → ElementsMeet count q

/-- The entries of a table that is read into a vector of `size` elements. -/
def IndexedMeet (size : Nat) : Nat → Nat → Prop
  | 0,         _ => True
  | count + 1, p => NumberMeets d b p ∧ ∀ key, b.keyAt p = some key → meets key.2 ∧ ∀ q, next key.2 = some q →
      d.key key.1 size ∧ (1 ≤ key.1 ∧ key.1 ≤ size → IndexedMeet size count q)

/-- At the marker of an array. -/
def ArrayMeets (indexed : Bool) (byte : UInt8) (p : Nat) : Prop :=
  ∀ count q, b.arrayHead byte p = some (count, q) → CountMeets d b indexed count q (
    if byte = Format.table.code then indexed = true → IndexedMeet d b next meets count count q
    else ElementsMeet next meets count q)

variable (mapped : Nat → Option Nat) (mappedMeets : Nat → Prop)

def EntriesMeet : Nat → Nat → Prop
  | 0,         _ => True
  | count + 1, p => meets p ∧ ∀ q, next p = some q → mappedMeets q ∧ ∀ r, mapped q = some r → EntriesMeet count r

def MapMeets (unordered : Bool) (byte : UInt8) (p : Nat) : Prop :=
  ∀ count q, b.mapHead byte p = some (count, q) →
    CountMeets d b unordered count q (EntriesMeet next meets mapped mappedMeets count q)

end Containers

/-- What a value of the type makes its decoder do, from this place. -/
def Meets : Ty → Nat → Prop
  | .num _,             p => NumberMeets d b p
  | .enum _,            p => NumberMeets d b p
  | .vector t,          p => ArrayMeets d b (b.behind t) (Meets t) true (b.front p) p
  | .list t,            p => ArrayMeets d b (b.behind t) (Meets t) false (b.front p) p
  | .array size t,      p => ArrayMeets d b (b.behind t) (Meets t) true (b.front p) p ∧
      ∀ array, b.arrayAt (b.behind t) true (b.front p) p = some array → d.copied array.1 size
  | .map unordered k v, p => MapMeets d b (b.behind k) (Meets k) (b.behind v) (Meets v) unordered (b.front p) p
  | .pair s t,          p => Meets s p ∧ ∀ q, b.behind s p = some q → Meets t q
  | .nullptr,           _ => True
  | .string,            _ => True
  | .binary,            _ => True
  | .unit,              _ => True

end

/-! ## What the log shows -/

/-- The decoder arrives where the bytes say, and the log behind it shows what is asked exactly if it did before and the
place that it started at does. -/
abbrev ShowsAt (d : Demand) (b : Buffer) {α ρ : Type} (arrive : α → Nat → ρ) (m : Reader α) (f : Nat → Option ρ)
    (F : Nat → Prop) : Prop :=
  Reports Unpacker.dataPointer (fun u => u.dataPointer ≤ b.bytes.length) (All d.of) arrive m f F

/-- Of where it arrives only the place is seen. -/
abbrev Shows (d : Demand) (b : Buffer) {α : Type} (m : Reader α) (f : Nat → Option Nat) (F : Nat → Prop) : Prop :=
  ShowsAt d b (fun _ q => q) m f F

section

variable {d : Demand} {b : Buffer}

theorem all_cons {p : Event → Prop} {s t : Unpacker} {e : Event} (hlog : t.log = e :: s.log) :
    All p t ↔ All p s ∧ p e := by
  unfold All
  rw [hlog, List.forall_mem_cons, and_comm]

theorem all_note {p : Event → Prop} {s t : Unpacker} {e : Event} (hlog : t.log = e :: s.log) (he : p e) :
    All p t ↔ All p s ∧ True := (all_cons hlog).trans (and_congr_right fun _ => iff_true_intro he)

theorem all_same {p : Event → Prop} {s t : Unpacker} (hlog : t.log = s.log) : All p t ↔ All p s ∧ True := by
  unfold All
  rw [hlog, and_true]

namespace Shows

variable {α β ρ : Type} {arrive : α → Nat → ρ} {m n : Reader α} {f : Nat → Option ρ} {F : Nat → Prop}

theorem safeData : ShowsAt d b Prod.mk (safeData b) (fun p => some (b.front p, p)) fun _ => True where
  ends  := fun s hs => by
    unfold Msgpack.safeData Buffer.front
    cases b.bytes[s.dataPointer]? with
    | none   => exact .ok rfl hs
    | some x => exact .ok rfl hs
  tells := fun s _ => by
    unfold Msgpack.safeData
    split
    · exact all_note rfl trivial
    · exact all_same rfl

theorem safeIncremen (size : Nat) :
    ShowsAt d b Prod.mk (safeIncremen b size) (fun p => some ((), b.skip p size)) fun _ => True where
  ends  := fun s _ => by
    unfold Msgpack.safeIncremen Buffer.skip
    split
    · rename_i h
      exact .ok (by rw [Nat.min_eq_left h]) h
    · rename_i h
      exact .ok (by rw [Nat.min_eq_right (Nat.le_of_not_le h)]) (Nat.le_refl _)
  tells := fun s _ => by
    unfold Msgpack.safeIncremen
    split <;> exact all_same rfl

theorem skipped (size : Nat) : Shows d b (Msgpack.safeIncremen b size) (fun p => some (b.skip p size)) fun _ => True :=
  (safeIncremen size).map Prod.snd fun _ _ => rfl

theorem setError : ShowsAt d b Prod.mk setError (fun p => some ((), p)) fun _ => True where
  ends  := fun _ hs => .ok rfl hs
  tells := fun _ _ => all_same rfl

theorem note {e : Event} (he : d.of e) : ShowsAt d b Prod.mk (note e) (fun p => some ((), p)) fun _ => True where
  ends  := fun _ hs => .ok rfl hs
  tells := fun _ _ => all_note rfl he

theorem copyFloat (size : Nat) :
    ShowsAt d b Prod.mk (copyFloat b size) (fun p => some (b.floatAt p size, p)) fun p => d.float p size where
  ends  := fun _ hs => .ok rfl hs
  tells := fun s _ => all_cons (e := .memcpy s.dataPointer size) rfl

theorem takeBytes (size : Nat) : Shows d b (takeBytes b size) (b.behindBytes size) fun _ => True where
  ends  := fun s hs => by
    unfold Msgpack.takeBytes Buffer.behindBytes Buffer.inRange
    split
    · split
      · rename_i h
        exact .ok rfl h
      · exact .error rfl hs
    · exact .ok rfl hs
  tells := fun s _ => by
    unfold Msgpack.takeBytes
    split
    · split
      · exact all_note rfl trivial
      · exact (and_true _).symm.to_iff
    · exact all_same rfl

/-! ### Programs that are put together -/

theorem of_true (hm : ShowsAt d b arrive m f fun _ => True) (hF : ∀ p, F p) : ShowsAt d b arrive m f F :=
  hm.imp fun _ _ => (iff_true_intro (hF _)).symm

theorem front {k : UInt8 → Reader α} {g : UInt8 → Nat → Option ρ} {H : UInt8 → Nat → Prop}
    (hk : ∀ byte, ShowsAt d b arrive (k byte) (g byte) (H byte)) :
    ShowsAt d b arrive (Msgpack.safeData b >>= k) (fun p => g (b.front p) p) fun p => H (b.front p) p :=
  safeData.lead hk

theorem incremen {size : Nat} (hm : ShowsAt d b arrive m f F) :
    ShowsAt d b arrive (Msgpack.safeIncremen b size >>= fun _ => m) (fun p => f (b.skip p size)) fun p => F (b.skip p size) :=
  (safeIncremen size).lead fun _ => hm

theorem marker {family : Family} {byte : UInt8} (hm : ShowsAt d b arrive m f F) :
    ShowsAt d b arrive (Msgpack.note (.marker family byte) >>= fun _ => m) f F :=
  (note (e := .marker family byte) trivial).lead fun _ => hm

theorem cast {x : Number} {t : NumType} (hm : ShowsAt d b arrive m f F) :
    ShowsAt d b arrive (Msgpack.note (.cast x t) >>= fun _ => m) f F :=
  (note (e := .cast x t) trivial).lead fun _ => hm

theorem failed (hm : ShowsAt d b arrive m f F) : ShowsAt d b arrive (Msgpack.setError >>= fun _ => m) f F :=
  setError.lead fun _ => hm

theorem readBeLoop : ∀ k out, ShowsAt d b Prod.mk (readBeLoop b k out)
    (fun p => some (((List.range' p k).map b.front).foldl (fun acc x => acc * 256 + x.toNat) out, b.skip p k)) fun _ => True
  | 0,     out => (Reports.pure out).congr
      (fun s hs => congrArg (fun q => some (out, q)) (Nat.min_eq_left hs).symm) fun _ _ => Iff.rfl
  | k + 1, out => by
    refine (front fun x => incremen (readBeLoop k (out * 256 + x.toNat))).congr (fun s hs => ?_) fun _ _ => Iff.rfl
    rw [Buffer.skip_skip, Buffer.map_front_skip hs, List.range'_succ, List.map_cons, List.foldl_cons]

theorem readBeUnsigned (k : Nat) :
    ShowsAt d b Prod.mk (readBeUnsigned b k) (fun p => some (b.beAt p k, b.skip p k)) fun _ => True := readBeLoop k 0

theorem readBeSigned (t : IntType) (k : Nat) :
    ShowsAt d b Prod.mk (readBeSigned b t k) (fun p => some ((t.wrap (b.beAt p k)).val, b.skip p k)) fun _ => True :=
  (readBeUnsigned k).lead fun _ => .pure _

/-- A number of `k` bytes behind a marker, and what comes behind it. -/
theorem unsigned {k : Nat → Reader α} {g : Nat → Nat → Option ρ} {H : Nat → Nat → Prop} (size : Nat)
    (hk : ∀ n, ShowsAt d b arrive (k n) (g n) (H n)) :
    ShowsAt d b arrive (do Msgpack.safeIncremen b 1; k (← Msgpack.readBeUnsigned b size))
      (fun p => g (b.beAt (b.skip p 1) size) (b.skip (b.skip p 1) size))
      fun p => H (b.beAt (b.skip p 1) size) (b.skip (b.skip p 1) size) :=
  incremen ((readBeUnsigned size).lead hk)

/-! ### Numbers -/

theorem floating (size : Nat) (g : Nat → Number) : ShowsAt d b Prod.mk
    (do Msgpack.safeIncremen b 1; let x ← Msgpack.copyFloat b size; Msgpack.safeIncremen b size; return some (g x))
    (fun p => some (some (g (b.floatAt (b.skip p 1) size)), b.skip (b.skip p 1) size)) fun p => d.float (b.skip p 1) size := by
  refine incremen (((copyFloat size).behind (g := fun r => some (some (g r.1), b.skip r.2 size)) fun x => ?_))
  exact incremen (.pure _)

theorem readNumber : ShowsAt d b Prod.mk (readNumber b) (fun p => some (b.numberAt (b.front p) p)) (NumberMeets d b) := by
  let H (byte : UInt8) (p : Nat) : Prop :=
    (byte = Format.float32.code → d.float (b.skip p 1) 4) ∧ (byte = Format.float64.code → d.float (b.skip p 1) 8)
  refine front (g := fun byte p => some (b.numberAt byte p)) (H := H) fun byte => marker ?_
  have hno : ∀ {m : Reader (Option Number)} {f : Nat → Option (Option Number × Nat)},
      byte ≠ Format.float32.code ∧ byte ≠ Format.float64.code →
      ShowsAt d b Prod.mk m f (fun _ => True) → ShowsAt d b Prod.mk m f (H byte) := fun hne hm =>
    of_true hm fun _ => ⟨fun h => absurd h hne.1, fun h => absurd h hne.2⟩
  have hone : ∀ x : Number, ShowsAt d b Prod.mk (do Msgpack.safeIncremen b 1; return some x)
      (fun p => some (some x, b.skip p 1)) fun _ => True := fun x => incremen (.pure (some x))
  have hint : ∀ k, ShowsAt d b Prod.mk (do
      Msgpack.safeIncremen b 1
      return some (Number.int (← Msgpack.readBeUnsigned b k)))
      (fun p => some (some (Number.int (b.beAt (b.skip p 1) k)), b.skip (b.skip p 1) k)) fun _ => True := fun k =>
    unsigned k fun n => .pure (some (Number.int n))
  have hsigned : ∀ t k, ShowsAt d b Prod.mk (do
      Msgpack.safeIncremen b 1
      return some (Number.int (← Msgpack.readBeSigned b t k)))
      (fun p => some (some (Number.int (t.wrap (b.beAt (b.skip p 1) k)).val), b.skip (b.skip p 1) k)) fun _ => True := fun t k =>
    incremen ((readBeSigned t k).lead fun n => .pure (some (Number.int n)))
  unfold Buffer.numberAt
  refine .ite_some (fun h => hno ?_ (hone _)) fun _ => .ite_some (fun h => hno ?_ (hone _)) fun _ => ?_
  · constructor <;> rintro rfl <;> exact absurd h (by decide)
  · constructor <;> rintro rfl <;> exact absurd h (by decide)
  refine .ite_some (fun h => hno (h ▸ by decide) (hint 8)) fun _ => ?_
  refine .ite_some (fun h => hno (h ▸ by decide) (hint 4)) fun _ => ?_
  refine .ite_some (fun h => hno (h ▸ by decide) (hint 2)) fun _ => ?_
  refine .ite_some (fun h => hno (h ▸ by decide) (hint 1)) fun _ => ?_
  refine .ite_some (fun h => hno (h ▸ by decide) (hsigned .int64 8)) fun _ => ?_
  refine .ite_some (fun h => hno (h ▸ by decide) (hsigned .int32 4)) fun _ => ?_
  refine .ite_some (fun h => hno (h ▸ by decide) (hsigned .int16 2)) fun _ => ?_
  refine .ite_some (fun h => hno (h ▸ by decide) (hsigned .int8 1)) fun _ => ?_
  refine .ite_some (fun h => (floating 4 .float32).imp fun s _ => ?_) fun h₁ => ?_
  · subst h
    exact ⟨fun hf => ⟨fun _ => hf, fun h => absurd h (by decide)⟩, fun hf => hf.1 rfl⟩
  refine .ite_some (fun h => (floating 8 .float64).imp fun s _ => ?_) fun h₂ => ?_
  · subst h
    exact ⟨fun hf => ⟨fun h => absurd h (by decide), fun _ => hf⟩, fun hf => hf.2 rfl⟩
  · exact hno ⟨h₁, h₂⟩ (failed (.pure none))

theorem unpackNumber (t : NumType) : ShowsAt d b Prod.mk (unpackNumber b t) (b.numAt t) (NumberMeets d b) := by
  refine readNumber.behind (g := fun x => (t.ofNumber x.1).map fun val => (val, x.2)) fun x => ?_
  cases x with
  | none   => exact .pure t.init
  | some x =>
    refine cast ?_
    change ShowsAt d b Prod.mk _ (fun q => (t.cast x).map fun val => (val, q)) _
    cases t.cast x with
    | none     => exact .throw _
    | some val => exact .pure val

theorem behindNum (t : NumType) : Shows d b (Msgpack.unpackNumber b t) (b.behindNum t) (NumberMeets d b) :=
  (unpackNumber t).map Prod.snd fun _ _ => rfl

theorem unpackKey : ShowsAt d b (fun key q => (key.val, q)) (Msgpack.unpackNumber b (.int .int64)) b.keyAt (NumberMeets d b) :=
  (unpackNumber (.int .int64)).map (fun key => (key.1.val, key.2)) fun _ _ => rfl

theorem unpackBool : Shows d b (unpackBool b) b.behindBool (NumberMeets d b) := by
  have hvalue : ∀ (byte : UInt8) (x : Bool), Shows d b (do
      Msgpack.note (.marker .bool byte)
      Msgpack.safeIncremen b 1
      return x) (fun p => some (b.skip p 1)) fun _ => True := fun byte x => marker (incremen (.pure x))
  have hsecond : Shows d b (do
      let byte ← Msgpack.safeData b
      if byte = Format.trueBool.code then
        Msgpack.note (.marker .bool byte)
        Msgpack.safeIncremen b 1
        return true
      else Msgpack.unpackNumber b .bool)
      (fun p => if b.front p = Format.trueBool.code then some (b.skip p 1) else b.behindNum .bool p)
      fun p => b.front p ≠ Format.trueBool.code → NumberMeets d b p := by
    refine front (H := fun byte p => byte ≠ Format.trueBool.code → NumberMeets d b p)
      (g := fun byte p => if byte = Format.trueBool.code then some (b.skip p 1) else b.behindNum .bool p) fun byte => ?_
    refine .ite (fun h => of_true (hvalue byte true) fun _ hne => absurd h hne) fun h => ?_
    exact (behindNum .bool).imp fun _ _ => (imp_iff_right h).symm
  have hfirst : Shows d b (Msgpack.unpackBool b) b.behindBool fun p =>
      b.front p ≠ Format.falseBool.code → b.front p ≠ Format.trueBool.code → NumberMeets d b p := by
    refine front (H := fun byte p => byte ≠ Format.falseBool.code → b.front p ≠ Format.trueBool.code → NumberMeets d b p)
      (g := fun byte p => if byte = Format.falseBool.code then some (b.skip p 1) else
        if b.front p = Format.trueBool.code then some (b.skip p 1) else b.behindNum .bool p) fun byte => ?_
    refine .ite (fun h => of_true (hvalue byte false) fun _ hne => absurd h hne) fun h => ?_
    exact hsecond.imp fun _ _ => (imp_iff_right h).symm
  refine hfirst.imp fun s _ => ⟨fun h => ?_, fun h _ _ => h⟩
  constructor
  · exact fun hf => (h (hf ▸ by decide) (hf ▸ by decide)).1 hf
  · exact fun hf => (h (hf ▸ by decide) (hf ▸ by decide)).2 hf

theorem unpackNil : Shows d b (unpackNil b) (fun p => some (b.skip p 1)) fun _ => True where
  ends  := fun s hs => (skipped (d := d) 1).ends { s with log := .marker .nil ((b.bytes[s.dataPointer]?).getD 0) :: s.log } hs
  tells := fun s _ => by
    unfold Msgpack.unpackNil Msgpack.safeIncremen
    split <;> exact all_note rfl trivial

/-! ### Strings -/

theorem unpackString : Shows d b (unpackString b) (fun p => b.behindString (b.front p) p) fun _ => True := by
  refine front (H := fun _ _ => True) fun byte => marker ?_
  refine .ite (fun _ => incremen (takeBytes _)) fun _ => ?_
  refine .ite (fun _ => unsigned 8 takeBytes) fun _ => .ite (fun _ => unsigned 8 takeBytes) fun _ => ?_
  exact .ite (fun _ => unsigned 1 takeBytes) fun _ => failed (.pure [])

theorem unpackBinary : Shows d b (unpackBinary b) (fun p => b.behindBinary (b.front p) p) fun _ => True := by
  refine front (H := fun _ _ => True) fun byte => marker ?_
  refine .ite (fun _ => unsigned 8 takeBytes) fun _ => .ite (fun _ => unsigned 8 takeBytes) fun _ => ?_
  exact .ite (fun _ => unsigned 1 takeBytes) fun _ => failed (.pure [])

/-! ### Containers -/

theorem announce (reserves : Bool) (count : Nat) : Shows d b (announce b reserves count)
    (fun p => if b.reservable reserves count then some p else none)
    fun p => reserves = true → count ≠ 0 → d.count count (b.bytes.length - p) where
  ends  := fun s hs => by
    unfold Msgpack.announce
    dsimp only
    by_cases hcount : reserves = true ∧ count ≠ 0
    · by_cases hlt : b.maxSize < count
      · rw [if_pos hcount, if_pos hlt]
        exact .error (if_neg fun hfits => Nat.not_le_of_lt hlt (hfits hcount.1)) hs
      · rw [if_pos hcount, if_neg hlt]
        exact .ok (if_pos fun _ => Nat.le_of_not_lt hlt) hs
    · rw [if_neg hcount]
      refine .ok (if_pos fun hreserves => ?_) hs
      have hzero : count = 0 := by
        by_contra hne
        exact hcount ⟨hreserves, hne⟩
      exact hzero ▸ Nat.zero_le _
  tells := fun s _ => by
    unfold Msgpack.announce
    dsimp only
    split
    · rename_i h
      have hlog : ∀ t : Unpacker, t.log = .alloc count (b.remaining s) :: s.log → (All d.of t ↔ All d.of s ∧
          (reserves = true → count ≠ 0 → d.count count (b.bytes.length - s.dataPointer))) := fun t ht =>
        (all_cons ht).trans (and_congr_right fun _ => ⟨fun hd _ _ => hd, fun hd => hd h.1 h.2⟩)
      split <;> exact hlog _ rfl
    · rename_i h
      exact (and_iff_left fun hr hne => absurd ⟨hr, hne⟩ h).symm

theorem announced (reserves : Bool) (count : Nat) (hm : ShowsAt d b arrive m f F) :
    ShowsAt d b arrive (Msgpack.announce b reserves count >>= fun _ => m)
      (fun p => if b.reservable reserves count then f p else none) fun p => CountMeets d b reserves count p (F p) := by
  refine ((announce reserves count).bind fun _ => hm).congr (fun s _ => ?_) fun s _ => and_congr_right fun _ => ?_
  · split <;> rfl
  · by_cases hfits : b.reservable reserves count
    · rw [if_pos hfits, imp_iff_right hfits]
      constructor
      · exact fun h => h _ rfl
      · rintro h _ ⟨⟩
        exact h
    · rw [if_neg hfits]
      exact iff_of_true (fun _ hq => nomatch hq) fun h => absurd h hfits

/-- How long a list is, and where it ends. -/
abbrev sized {α : Type} (array : List α) (q : Nat) : Nat × Nat := (array.length, q)

theorem store (array : List α) (key : Int) (val : α) : ShowsAt d b sized (store array key val)
    (fun p => if 1 ≤ key ∧ key ≤ array.length then some (array.length, p) else none) fun _ => d.key key array.length where
  ends  := fun s hs => by
    unfold Msgpack.store
    dsimp only
    split
    · exact .ok (by rw [sized, List.length_set]) hs
    · exact .error rfl hs
  tells := fun s _ => by
    unfold Msgpack.store
    dsimp only
    split <;> exact all_cons (e := .key key array.length) rfl

theorem copyOut (size : Nat) (init : α) (vec : List α) : Shows d b (copyOut size init vec)
    (fun p => if vec.length ≤ size then some p else none) fun _ => d.copied vec.length size where
  ends  := fun s hs => by
    unfold Msgpack.copyOut
    dsimp only
    split
    · exact .ok rfl hs
    · exact .error rfl hs
  tells := fun s _ => by
    unfold Msgpack.copyOut
    dsimp only
    split <;> exact all_cons (e := .elements vec.length size) rfl

section

variable {unpackType : Reader α} {next : Nat → Option Nat} {meets : Nat → Prop} (helem : Shows d b unpackType next meets)

include helem

theorem unpackElements : ∀ (count : Nat) (array : List α), ShowsAt d b sized (unpackElements unpackType count array)
    (fun p => (behindElements next count p).map (Prod.mk (array.length + count))) (ElementsMeet next meets count)
  | 0,         array => .pure array
  | count + 1, array => by
    have hrest : ∀ val, ShowsAt d b sized (Msgpack.unpackElements unpackType count (array ++ [val]))
        (fun p => (behindElements next count p).map (Prod.mk (array.length + (count + 1)))) (ElementsMeet next meets count) := by
      intro val
      have h := unpackElements count (array ++ [val])
      rwa [List.length_append, List.length_singleton, Nat.add_assoc, Nat.add_comm 1] at h
    refine (helem.bind hrest).congr (fun s _ => ?_) fun _ _ => Iff.rfl
    rw [behindElements, Option.map_bind]
    rfl

theorem unpackIndexed : ∀ (count : Nat) (array : List α), ShowsAt d b sized (unpackIndexed b unpackType count array)
    (fun p => (b.behindIndexed next array.length count p).map (Prod.mk array.length))
    (IndexedMeet d b next meets array.length count)
  | 0,         array => .pure array
  | count + 1, array => by
    have hstore : ∀ (key : Int) (val : α), ShowsAt d b sized
        (do let array ← Msgpack.store array key val; Msgpack.unpackIndexed b unpackType count array)
        (fun q => if 1 ≤ key ∧ key ≤ array.length then
          (b.behindIndexed next array.length count q).map (Prod.mk array.length) else none)
        fun q => d.key key array.length ∧
          (1 ≤ key ∧ key ≤ array.length → IndexedMeet d b next meets array.length count q) := by
      intro key val
      refine ((store array key val).bind (g := fun r => (b.behindIndexed next r.1 count r.2).map (Prod.mk r.1))
        (H := fun r => IndexedMeet d b next meets r.1 count r.2) fun array => unpackIndexed count array).congr (fun s _ => ?_)
        fun s _ => and_congr_right fun _ => ?_
      · split <;> rfl
      · by_cases hkey : 1 ≤ key ∧ key ≤ array.length
        · rw [if_pos hkey, imp_iff_right hkey]
          constructor
          · exact fun h => h _ rfl
          · rintro h _ ⟨⟩
            exact h
        · rw [if_neg hkey]
          exact iff_of_true (fun _ hq => nomatch hq) fun h => absurd h hkey
    let rest (key : Int × Nat) : Option (Nat × Nat) := (next key.2).bind fun q =>
      if 1 ≤ key.1 ∧ key.1 ≤ array.length then
        (b.behindIndexed next array.length count q).map (Prod.mk array.length) else none
    let restMeets (key : Int × Nat) : Prop := meets key.2 ∧ ∀ q, next key.2 = some q →
      d.key key.1 array.length ∧ (1 ≤ key.1 ∧ key.1 ≤ array.length → IndexedMeet d b next meets array.length count q)
    refine (unpackKey.bind (g := rest) (H := restMeets) fun key => helem.bind fun val => hstore key.val val).congr
      (fun s _ => ?_) fun _ _ => Iff.rfl
    rw [Buffer.behindIndexed, Option.map_bind]
    refine congrArg (Option.bind _) (funext fun key => ?_)
    rw [Function.comp_apply, Option.map_bind]
    refine congrArg (Option.bind _) (funext fun q => ?_)
    exact (apply_ite (Option.map (Prod.mk array.length)) (1 ≤ key.1 ∧ key.1 ≤ array.length) _ none).symm

/-- **How many elements a container gets, and where its array ends, is what the bytes say.** -/
theorem unpackArray (indexed : Bool) (init : α) : ShowsAt d b sized (unpackArray b indexed init unpackType)
    (fun p => b.arrayAt next indexed (b.front p) p) fun p => ArrayMeets d b next meets indexed (b.front p) p := by
  refine front (g := b.arrayAt next indexed) (H := ArrayMeets d b next meets indexed) fun byte => marker ?_
  have helements : ∀ count, ShowsAt d b sized (unpackCounted b indexed unpackType count)
      (fun q => if b.reservable indexed count then (behindElements next count q).map (Prod.mk count) else none)
      fun q => CountMeets d b indexed count q (ElementsMeet next meets count q) := by
    intro count
    have h := announced indexed count (unpackElements helem count [])
    rwa [List.length_nil, Nat.zero_add] at h
  have hlong : byte ≠ Format.table.code →
      (byte = Format.array32.code ∨ byte = Format.array16.code ∨ byte = Format.table.code) →
      ShowsAt d b sized (do Msgpack.safeIncremen b 1; unpackCounted b indexed unpackType (← Msgpack.readBeUnsigned b 8))
        (b.arrayAt next indexed byte) (ArrayMeets d b next meets indexed byte) := by
    intro hne h
    refine (unsigned 8 helements).congr (fun s _ => ?_) fun s _ => ?_
    · simp only [Buffer.arrayAt, Buffer.arrayHead_long h, if_neg hne]
    · rw [ArrayMeets, forall_head (Buffer.arrayHead_long h _), if_neg hne]
  refine .either (fun h => ?_) fun h₁ => .either (fun h => ?_) fun h₂ => .either (fun h => ?_) fun h₃ => ?_
  · have hne : byte ≠ Format.table.code := by
      rintro rfl
      exact absurd h (by decide)
    refine (incremen (helements (byte &&& 0x0f).toNat)).congr (fun s _ => ?_) fun s _ => ?_
    · simp only [Buffer.arrayAt, Buffer.arrayHead_fix h, if_neg hne]
    · rw [ArrayMeets, forall_head (Buffer.arrayHead_fix h _), if_neg hne]
  · exact hlong (h ▸ by decide) (.inl h)
  · exact hlong (h ▸ by decide) (.inr (.inl h))
  refine .either (fun h => ?_) fun h₄ => ?_
  · have htable : ∀ count, ShowsAt d b sized
        (if indexed = true then Msgpack.unpackIndexed b unpackType count (List.replicate count init) else Pure.pure [])
        (fun q => if indexed = true then (b.behindIndexed next count count q).map (Prod.mk count) else some (0, q))
        fun q => indexed = true → IndexedMeet d b next meets count count q := by
      intro count
      refine .ite (fun hi => ?_) fun hi => of_true (.pure []) fun _ hi' => absurd hi' hi
      have hindexed := unpackIndexed helem count (List.replicate count init)
      rw [List.length_replicate] at hindexed
      exact hindexed.imp fun _ _ => (imp_iff_right hi).symm
    refine (unsigned 8 fun count => announced indexed count (htable count)).congr (fun s _ => ?_) fun s _ => ?_
    · simp only [Buffer.arrayAt, Buffer.arrayHead_long (.inr (.inr h)), if_pos h]
    · rw [ArrayMeets, forall_head (Buffer.arrayHead_long (.inr (.inr h)) _), if_pos h]
  · have hnone := Buffer.arrayHead_none (b := b) h₁ h₂ h₃ h₄
    refine (failed (.pure [])).congr (fun s _ => ?_) fun s _ => ?_
    · simp only [Buffer.arrayAt, hnone, sized, List.length_nil]
    · rw [ArrayMeets, hnone]
      exact iff_of_true trivial fun _ _ hhead => nomatch hhead

variable {keys : Keys α} {unpackMapped : Reader β} {mapped : Nat → Option Nat} {mappedMeets : Nat → Prop}
  (hmapped : Shows d b unpackMapped mapped mappedMeets)

include hmapped

theorem unpackEntries : ∀ (count : Nat) (map : KeyedMap keys β), Shows d b (unpackEntries unpackType unpackMapped count map)
    (behindEntries next mapped count) (EntriesMeet next meets mapped mappedMeets count)
  | 0,         map => .pure map
  | count + 1, map =>
    helem.bind (g := fun q => (mapped q).bind (behindEntries next mapped count))
      (H := fun q => mappedMeets q ∧ ∀ r, mapped q = some r → EntriesMeet next meets mapped mappedMeets count r) fun key =>
      hmapped.bind fun val => unpackEntries count (map.insertOrAssign key val)

theorem unpackMap (unordered : Bool) : Shows d b (unpackMap b keys unordered unpackType unpackMapped)
    (fun p => b.behindMap next mapped unordered (b.front p) p)
    fun p => MapMeets d b next meets mapped mappedMeets unordered (b.front p) p := by
  refine front (g := b.behindMap next mapped unordered) (H := MapMeets d b next meets mapped mappedMeets unordered)
    fun byte => marker ?_
  have hentries := fun count => announced unordered count (
    unpackEntries helem hmapped count (.empty : KeyedMap keys β))
  have hlong : (byte = Format.map32.code ∨ byte = Format.table.code ∨ byte = Format.map16.code) →
      Shows d b (do
        Msgpack.safeIncremen b 1
        unpackCountedMap b keys unordered unpackType unpackMapped (← Msgpack.readBeUnsigned b 8))
        (b.behindMap next mapped unordered byte) (MapMeets d b next meets mapped mappedMeets unordered byte) := by
    intro h
    refine (unsigned 8 hentries).congr (fun s _ => ?_) fun s _ => ?_
    · simp only [Buffer.behindMap, Buffer.mapHead_long h]
    · rw [MapMeets, forall_head (Buffer.mapHead_long h _)]
  refine .either (fun h => ?_) fun h₁ => .either (fun h => ?_) fun h₂ => .either (fun h => ?_) fun h₃ => ?_
  · refine (incremen (hentries (byte &&& 0x0f).toNat)).congr (fun s _ => ?_) fun s _ => ?_
    · simp only [Buffer.behindMap, Buffer.mapHead_fix h]
    · rw [MapMeets, forall_head (Buffer.mapHead_fix h _)]
  · exact hlong (h.elim .inl fun h => .inr (.inl h))
  · exact hlong (.inr (.inr h))
  · have hnone := Buffer.mapHead_none (b := b) h₁ h₂ h₃
    refine (Reports.pure _).congr (fun s _ => ?_) fun s _ => ?_
    · simp only [Buffer.behindMap, hnone]
    · rw [MapMeets, hnone]
      exact iff_of_true trivial fun _ _ hhead => nomatch hhead

end

end Shows

/-- **What a decoder does with what the message chose, and where it arrives, is what the bytes say.** -/
theorem unpackType_shows (d : Demand) (b : Buffer) : ∀ t : Ty, Shows d b (unpackType b t) (b.behind t) (Meets d b t)
  | .num (.int t)       => Shows.behindNum (.int t)
  | .num .bool          => Shows.unpackBool
  | .num .float         => Shows.behindNum .float
  | .num .double        => Shows.behindNum .double
  | .nullptr            => Shows.unpackNil
  | .enum _             => ((Shows.behindNum (.int .int32)).behind (g := some) fun _ => .pure _).congr
      (fun _ _ => Option.bind_fun_some _) fun _ _ => Iff.rfl
  | .string             => Shows.unpackString
  | .binary             => Shows.unpackBinary
  | .vector t           => (Shows.unpackArray (unpackType_shows d b t) true t.init).map Prod.snd fun _ _ => rfl
  | .list t             => (Shows.unpackArray (unpackType_shows d b t) false t.init).map Prod.snd fun _ _ => rfl
  | .array size t       =>
    (Shows.unpackArray (unpackType_shows d b t) true t.init).bind
      (g := fun array => if array.1 ≤ size then some array.2 else none) (H := fun array => d.copied array.1 size)
      fun vec => Shows.copyOut size t.init vec
  | .map unordered k v  => Shows.unpackMap (unpackType_shows d b k) (unpackType_shows d b v) unordered
  | .unit               => .pure ()
  | .pair s t           => (unpackType_shows d b s).bind fun _ =>
      ((unpackType_shows d b t).behind (g := some) fun _ => .pure _).congr
        (fun _ _ => Option.bind_fun_some _) fun _ _ => Iff.rfl

end

end Gb.Msgpack
