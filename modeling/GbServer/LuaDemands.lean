import GbServer.LuaSteps
import GbServer.MsgpackDemands
/-!
# LuaDemands — what a message makes the Lua decoder do, place by place

Of what the message chooses, `unpack_stack_proxy` does one thing only: it copies floats, by `unpack_number`.  Where it
comes to is what the bytes say (`Buffer.behindProxy`), and depends on the Lua stack, too: a push that finds no room and a
key that is no key end the run.
-/
namespace Gb.Msgpack

open Stateful

/-! ## Where Lua values end -/

/-- What of a value matters to the functions that the decoder calls: a table, what is no key, and any other. -/
inductive Kind
  | table
  | noKey
  | other
  deriving DecidableEq

def LuaValue.kind : LuaValue → Kind
  | .table _ => .table
  | value    => if value.key = none then .noKey else .other

/-- A place of the message, and the stack there. -/
abbrev Place : Type := Nat × List Kind

/-- Where the decoder is, and what it has pushed. -/
def LuaState.place (s : LuaState) : Place := (s.unpacker.dataPointer, s.stack.map LuaValue.kind)

/-- On a stack with room for `limit` values. -/
def Place.push (limit : Nat) (kind : Kind) (v : Place) : Option Place :=
  if v.2.length < limit then some (v.1, kind :: v.2) else none

def Place.rawseti : Place → Option Place
  | (p, _ :: kind :: stack) => if kind = .table then some (p, .table :: stack) else none
  | _                       => none

def Place.rawset : Place → Option Place
  | (p, _ :: key :: kind :: stack) =>
    if kind = .table ∧ key ≠ .noKey then some (p, .table :: stack) else none
  | _                              => none

section

variable (b : Buffer)

/-- What the marker of an array, a map or a table announces: the count, and where the elements begin. -/
def Buffer.tableHead (byte : UInt8) (p : Nat) : Option (Nat × Nat) :=
  let q := b.skip p 1
  if byte = Format.array32.code ∨ byte = Format.map32.code ∨ byte = Format.table.code then some (b.beAt q 4, b.skip q 4)
  else if byte = Format.array16.code ∨ byte = Format.map16.code then some (b.beAt q 2, b.skip q 2)
  else if 0x80 ≤ byte ∧ byte ≤ 0x9f then some ((byte &&& 0x0f).toNat, q)
  else none

/-- The markers behind which there are keys. -/
def isKeyed (byte : UInt8) : Prop :=
  byte = Format.map32.code ∨ byte = Format.table.code ∨ byte = Format.map16.code ∨ 0x80 ≤ byte ∧ byte ≤ 0x8f

instance (byte : UInt8) : Decidable (isKeyed byte) := inferInstanceAs (Decidable (_ ∨ _))

section Tables

variable (next : Place → Option Place)

def behindItems : Nat → Place → Option Place
  | 0,         v => some v
  | count + 1, v => (next v).bind fun w => w.rawseti.bind (behindItems count)

def behindFields : Nat → Place → Option Place
  | 0,         v => some v
  | count + 1, v => (next v).bind fun w => (next w).bind fun w => w.rawset.bind (behindFields count)

def Buffer.behindTable (limit : Nat) (byte : UInt8) (v : Place) : Option Place :=
  match b.tableHead byte v.1 with
  | none            => some v
  | some (count, q) =>
    if v.2.length < limit then
      if isKeyed byte then behindFields next count (q, .table :: v.2) else behindItems next count (q, .table :: v.2)
    else none

/-- Where the value ends that has this marker, and what it leaves on the stack. -/
def Buffer.behindMarker (limit : Nat) (byte : UInt8) (v : Place) : Option Place :=
  let behind (q : Option Nat) : Option Place := q.bind fun q => Place.push limit .other (q, v.2)
  let q := b.skip v.1 1
  if byte = Format.nil.code then Place.push limit .noKey (q, v.2)
  else if byte = Format.falseBool.code then Place.push limit .other (q, v.2)
  else if byte = Format.trueBool.code then Place.push limit .other (q, v.2)
  else if byte = Format.bin8.code ∨ byte = Format.bin16.code ∨ byte = Format.bin32.code then
    behind (b.behindBinary (b.front v.1) v.1)
  else if byte = Format.float32.code then
    (b.numAt .float v.1).bind fun x => Place.push limit (LuaValue.number (widen x.1)).kind (x.2, v.2)
  else if byte = Format.float64.code then
    (b.numAt .double v.1).bind fun x => Place.push limit (LuaValue.number x.1).kind (x.2, v.2)
  else if byte = Format.uint8.code ∨ byte = Format.uint16.code ∨ byte = Format.uint32.code
      ∨ byte = Format.uint64.code then behind (b.behindNum (.int .uint64) v.1)
  else if byte = Format.int8.code ∨ byte = Format.int16.code ∨ byte = Format.int32.code
      ∨ byte = Format.int64.code then behind (b.behindNum (.int .int64) v.1)
  else if byte = Format.str8.code ∨ byte = Format.str16.code ∨ byte = Format.str32.code then
    behind (b.behindString (b.front v.1) v.1)
  else if byte = Format.array16.code ∨ byte = Format.array32.code ∨ byte = Format.map16.code
      ∨ byte = Format.map32.code ∨ byte = Format.table.code then b.behindTable next limit (b.front v.1) v
  else if byte ≤ 0x7f then Place.push limit .other (q, v.2)
  else if 0xe0 ≤ byte then Place.push limit .other (q, v.2)
  else if 0x90 ≤ byte ∧ byte ≤ 0x9f then b.behindTable next limit (b.front v.1) v
  else if 0x80 ≤ byte ∧ byte ≤ 0x8f then b.behindTable next limit (b.front v.1) v
  else if 0xa0 ≤ byte ∧ byte ≤ 0xbf then
    let size := (byte &&& 0x1f).toNat
    -- a string that ends behind the message pushes nothing
    if b.inRange { dataPointer := q } size then Place.push limit .other (b.skip q size, v.2) else some (q, v.2)
  else some v

end Tables

def Buffer.behindProxy (limit : Nat) : Nat → Place → Option Place
  | 0,         _ => none
  | depth + 1, v => b.behindMarker (behindProxy limit depth) limit (b.front v.1) v

end

/-! ## Demands -/

section

variable (d : Demand) (b : Buffer)

section Tables

variable (next : Place → Option Place) (meets : Place → Prop)

def ItemsMeet : Nat → Place → Prop
  | 0,         _ => True
  | count + 1, v => meets v ∧ ∀ w, next v = some w → ∀ w', w.rawseti = some w' → ItemsMeet count w'

def FieldsMeet : Nat → Place → Prop
  | 0,         _ => True
  | count + 1, v => meets v ∧ ∀ w, next v = some w → meets w ∧ ∀ w', next w = some w' →
      ∀ w'', w'.rawset = some w'' → FieldsMeet count w''

/-- At the marker of an array, a map or a table. -/
def TableMeets (limit : Nat) (byte : UInt8) (v : Place) : Prop :=
  ∀ count q, b.tableHead byte v.1 = some (count, q) → v.2.length < limit →
    if isKeyed byte then FieldsMeet next meets count (q, .table :: v.2) else ItemsMeet next meets count (q, .table :: v.2)

end Tables

variable (limit : Nat)

/-- What a value makes the Lua decoder do, from this place. -/
def ProxyMeets : Nat → Place → Prop
  | 0,         _ => True
  | depth + 1, v =>
    NumberMeets d b v.1 ∧ TableMeets b (b.behindProxy limit depth) (ProxyMeets depth) limit (b.front v.1) v

/-- What the values of a message make it do. -/
def LoopMeets : Nat → Place → Prop
  | 0,          _ => True
  | rounds + 1, v => v.1 < b.bytes.length → ProxyMeets d b limit b.depth v ∧
      ∀ w, b.behindProxy limit b.depth v = some w → LoopMeets rounds w

end

/-! ## Places -/

theorem Buffer.tableHead_fix {b : Buffer} {byte : UInt8} (h : 0x80 ≤ byte ∧ byte ≤ 0x9f) (p : Nat) :
    b.tableHead byte p = some ((byte &&& 0x0f).toNat, b.skip p 1) := by
  have h4 : ¬(byte = Format.array32.code ∨ byte = Format.map32.code ∨ byte = Format.table.code) := by
    rintro (rfl | rfl | rfl) <;> exact absurd h (by decide)
  have h2 : ¬(byte = Format.array16.code ∨ byte = Format.map16.code) := by
    rintro (rfl | rfl) <;> exact absurd h (by decide)
  exact (if_neg h4).trans ((if_neg h2).trans (if_pos h))

theorem Buffer.tableHead_none {b : Buffer} {byte : UInt8} (h : ¬(0x80 ≤ byte ∧ byte ≤ 0x9f ∨ 0xdc ≤ byte ∧ byte ≤ 0xe0))
    (p : Nat) : b.tableHead byte p = none := by
  have h4 : ¬(byte = Format.array32.code ∨ byte = Format.map32.code ∨ byte = Format.table.code) := by
    rintro (rfl | rfl | rfl) <;> exact h (by decide)
  have h2 : ¬(byte = Format.array16.code ∨ byte = Format.map16.code) := by
    rintro (rfl | rfl) <;> exact h (by decide)
  exact (if_neg h4).trans ((if_neg h2).trans (if_neg fun hfix => h (.inl hfix)))

theorem LuaValue.kind_eq_table {value : LuaValue} : value.kind = .table ↔ ∃ entries, value = .table entries := by
  constructor
  · intro h
    cases value with
    | table entries => exact ⟨entries, rfl⟩
    | _             =>
      unfold LuaValue.kind at h
      split at h
      · rename_i entries hv
        exact ⟨entries, hv⟩
      · split at h <;> cases h
  · rintro ⟨entries, rfl⟩
    rfl

theorem LuaValue.kind_eq_noKey {value : LuaValue} : value.kind = .noKey ↔ value.key = none := by
  unfold LuaValue.kind
  split
  · exact iff_of_false (fun h => nomatch h) fun h => nomatch h
  · split
    · rename_i h
      exact iff_of_true rfl h
    · rename_i h
      exact iff_of_false (fun h => nomatch h) h

/-! ## What the log shows -/

/-- The Lua decoder arrives where the bytes say. -/
abbrev ShowsLuaAt (d : Demand) (b : Buffer) {α ρ : Type} (arrive : α → Place → ρ) (m : LuaReader α) (f : Place → Option ρ)
    (F : Place → Prop) : Prop :=
  Reports LuaState.place (fun s => s.unpacker.dataPointer ≤ b.bytes.length) (fun s => All d.of s.unpacker) arrive m f F

abbrev ShowsLua (d : Demand) (b : Buffer) {α : Type} (m : LuaReader α) (f : Place → Option Place) (F : Place → Prop) : Prop :=
  ShowsLuaAt d b (fun _ v => v) m f F

namespace ShowsLua

variable {d : Demand} {b : Buffer} {α β ρ : Type} {m : LuaReader α} {f : Place → Option Place} {F : Place → Prop}

theorem typedAt {arrive : α → Nat → ρ} {m : Reader α} {f : Nat → Option ρ} {F : Nat → Prop} (hm : ShowsAt d b arrive m f F) :
    ShowsLuaAt d b (fun a v => (arrive a v.1, v.2)) (onUnpacker m) (fun v => (f v.1).map fun c => (c, v.2)) fun v => F v.1 where
  ends  := fun s hs => by
    have hend := hm.ends s.unpacker hs
    unfold onUnpacker
    cases hms : m s.unpacker with
    | ok a u    =>
      rw [hms] at hend
      cases hend with
      | ok ho hu => exact .ok (congrArg (Option.map fun c => (c, s.place.2)) ho) hu
    | error e u =>
      rw [hms] at hend
      cases hend with
      | error ho hu => exact .error (congrArg (Option.map fun c => (c, s.place.2)) ho) hu
  tells := fun s hs => by
    have htell := hm.tells s.unpacker hs
    unfold onUnpacker
    cases hms : m s.unpacker with
    | ok a u    => rwa [hms] at htell
    | error e u => rwa [hms] at htell

theorem typed {m : Reader α} {f : Nat → Option Nat} {F : Nat → Prop} (hm : Shows d b m f F) :
    ShowsLua d b (onUnpacker m) (fun v => (f v.1).map fun q => (q, v.2)) fun v => F v.1 := typedAt hm

/-- A typed decoder that notes nothing, and always arrives. -/
theorem lead {arrive : β → Place → ρ} {m : Reader α} {k : α → LuaReader β} {g : α → Place → Option ρ} {H : α → Place → Prop}
    {a : Nat → α} {next : Nat → Nat} (hm : ShowsAt d b Prod.mk m (fun p => some (a p, next p)) fun _ => True)
    (hk : ∀ a, ShowsLuaAt d b arrive (k a) (g a) (H a)) :
    ShowsLuaAt d b arrive (onUnpacker m >>= k) (fun v => g (a v.1) (next v.1, v.2)) fun v => H (a v.1) (next v.1, v.2) := by
  have htyped : ShowsLuaAt d b Prod.mk (onUnpacker m) (fun v => some (a v.1, (next v.1, v.2))) fun _ => True :=
    (typedAt hm).map (fun c => (c.1.1, (c.1.2, c.2))) fun _ _ => rfl
  exact Reports.lead htyped hk

theorem front {arrive : β → Place → ρ} {k : UInt8 → LuaReader β} {g : UInt8 → Place → Option ρ} {H : UInt8 → Place → Prop}
    (hk : ∀ byte, ShowsLuaAt d b arrive (k byte) (g byte) (H byte)) :
    ShowsLuaAt d b arrive (onUnpacker (safeData b) >>= k) (fun v => g (b.front v.1) v) fun v => H (b.front v.1) v :=
  lead Shows.safeData hk

theorem incremen (hm : ShowsLua d b m f F) :
    ShowsLua d b (onUnpacker (safeIncremen b 1) >>= fun _ => m) (fun v => f (b.skip v.1 1, v.2)) fun v => F (b.skip v.1 1, v.2) :=
  lead (Shows.safeIncremen 1) fun _ => hm

theorem luaPush (limit : Nat) (value : LuaValue) :
    ShowsLua d b (luaPush limit value) (Place.push limit value.kind) fun _ => True where
  ends  := fun s hs => by
    unfold Msgpack.luaPush Place.push LuaState.place
    rw [List.length_map]
    split
    · exact .ok rfl hs
    · exact .error rfl hs
  tells := fun s _ => by rw [(luaPush_still limit value s).1, and_true]

theorem luaRawseti (n : Nat) : ShowsLua d b (luaRawseti n) Place.rawseti fun _ => True where
  ends  := fun s hs => by
    unfold Msgpack.luaRawseti LuaState.place
    split
    · rename_i hstack
      rw [hstack]
      exact .ok rfl hs
    · rename_i hstack
      refine .error ?_ hs
      rcases hs' : s.stack with _ | ⟨val, _ | ⟨table, stack⟩⟩
      · rfl
      · rfl
      · refine if_neg fun htable => ?_
        obtain ⟨entries, rfl⟩ := LuaValue.kind_eq_table.1 htable
        exact hstack _ _ _ hs'
  tells := fun s _ => by rw [(luaRawseti_still n s).1, and_true]

theorem luaRawset : ShowsLua d b luaRawset Place.rawset fun _ => True where
  ends  := fun s hs => by
    unfold Msgpack.luaRawset LuaState.place
    split
    · rename_i hstack
      rw [hstack]
      split
      · rename_i hkey
        refine .ok (if_pos ⟨rfl, fun h => ?_⟩) hs
        cases (LuaValue.kind_eq_noKey.1 h).symm.trans hkey
      · rename_i hkey
        exact .error (if_neg fun h => h.2 (LuaValue.kind_eq_noKey.2 hkey)) hs
    · rename_i hstack
      refine .error ?_ hs
      rcases hs' : s.stack with _ | ⟨val, _ | ⟨key, _ | ⟨table, stack⟩⟩⟩
      · rfl
      · rfl
      · rfl
      · refine if_neg fun h => ?_
        obtain ⟨entries, rfl⟩ := LuaValue.kind_eq_table.1 h.1
        exact hstack _ _ _ _ hs'
  tells := fun s _ => by rw [(luaRawset_still s).1, and_true]

theorem of_true (hm : ShowsLua d b m f fun _ => True) (hF : ∀ v, F v) : ShowsLua d b m f F :=
  hm.imp fun _ _ => (iff_true_intro (hF _)).symm

/-- What comes behind a push finds the value on the stack. -/
theorem pushed (limit : Nat) (value : LuaValue) (hm : ShowsLua d b m f F) :
    ShowsLua d b (Msgpack.luaPush limit value >>= fun _ => m)
      (fun v => if v.2.length < limit then f (v.1, value.kind :: v.2) else none)
      fun v => v.2.length < limit → F (v.1, value.kind :: v.2) := by
  refine ((luaPush limit value).bind fun _ => hm).congr (fun s _ => ?_) fun s _ => (and_iff_right trivial).trans ?_
  · unfold Place.push
    split <;> rfl
  · by_cases hroom : s.place.2.length < limit
    · rw [Place.push, if_pos hroom, imp_iff_right hroom]
      constructor
      · exact fun h => h _ rfl
      · rintro h _ ⟨⟩
        exact h
    · rw [Place.push, if_neg hroom]
      exact iff_of_true (fun _ hw => nomatch hw) fun h => absurd h hroom

theorem readTableSize : ∀ k size, ShowsAt d b Prod.mk (readTableSize b k size)
    (fun p => some (size + b.beAt p k, b.skip p k)) fun _ => True
  | 0,     size => (Reports.pure size).congr
      (fun s hs => congrArg (fun q => some (size, q)) (Nat.min_eq_left hs).symm) fun _ _ => Iff.rfl
  | k + 1, size => by
    refine (Shows.front fun x => Shows.incremen (readTableSize k (size + x.toNat * 2 ^ (8 * k)))).congr (fun s hs => ?_)
      fun _ _ => Iff.rfl
    rw [Buffer.skip_skip, Buffer.beAt_succ hs, Nat.pow_mul, Nat.add_assoc]

/-- The count of a table, and what comes behind it. -/
theorem sized {loop : Nat → LuaReader Unit} {g : Nat → Place → Option Place} {H : Nat → Place → Prop} (k : Nat)
    (hloop : ∀ n, ShowsLua d b (loop n) (g n) (H n)) :
    ShowsLua d b (onUnpacker (Msgpack.readTableSize b k 0) >>= loop) (fun v => g (b.beAt v.1 k) (b.skip v.1 k, v.2))
      fun v => H (b.beAt v.1 k) (b.skip v.1 k, v.2) := by
  have hsize := readTableSize (d := d) (b := b) k 0
  simp only [Nat.zero_add] at hsize
  exact lead hsize hloop

section Tables

variable {proxy : LuaReader Unit} {next : Place → Option Place} {meets : Place → Prop} (hproxy : ShowsLua d b proxy next meets)

include hproxy

theorem unpackItems : ∀ count i, ShowsLua d b (unpackItems proxy i count) (behindItems next count) (ItemsMeet next meets count)
  | 0,         _ => .pure ()
  | count + 1, i => by
    refine (hproxy.bind (g := fun w => w.rawseti.bind (behindItems next count))
      (H := fun w => ∀ w', w.rawseti = some w' → ItemsMeet next meets count w') fun _ => ?_)
    exact ((luaRawseti (i + 1)).bind fun _ => unpackItems count (i + 1)).imp fun _ _ => and_iff_right trivial

theorem unpackFields : ∀ count, ShowsLua d b (unpackFields proxy count) (behindFields next count) (FieldsMeet next meets count)
  | 0         => .pure ()
  | count + 1 => by
    refine hproxy.bind (g := fun w => (next w).bind fun w => w.rawset.bind (behindFields next count))
      (H := fun w => meets w ∧ ∀ w', next w = some w' → ∀ w'', w'.rawset = some w'' → FieldsMeet next meets count w'')
      fun _ => ?_
    refine hproxy.bind (g := fun w => w.rawset.bind (behindFields next count))
      (H := fun w => ∀ w', w.rawset = some w' → FieldsMeet next meets count w') fun _ => ?_
    exact (luaRawset.bind fun _ => unpackFields count).imp fun _ _ => and_iff_right trivial

theorem unpackTable (limit : Nat) : ShowsLua d b (unpackTable b limit proxy)
    (fun v => b.behindTable next limit (b.front v.1) v) fun v => TableMeets b next meets limit (b.front v.1) v := by
  refine front (g := b.behindTable next limit) (H := TableMeets b next meets limit) fun byte => ?_
  let behindLoop (count : Nat) (w : Place) : Option Place :=
    if isKeyed byte then behindFields next count w else behindItems next count w
  let loopMeets (count : Nat) (w : Place) : Prop :=
    if isKeyed byte then FieldsMeet next meets count w else ItemsMeet next meets count w
  have hitems : ¬isKeyed byte → ∀ count,
      ShowsLua d b (Msgpack.unpackItems proxy 0 count) (behindLoop count) (loopMeets count) := fun h count =>
    (unpackItems hproxy count 0).congr (fun _ _ => (if_neg h).symm) fun _ _ => (if_neg h).symm.to_iff
  have hfields : isKeyed byte → ∀ count,
      ShowsLua d b (Msgpack.unpackFields proxy count) (behindLoop count) (loopMeets count) := fun h count =>
    (unpackFields hproxy count).congr (fun _ _ => (if_pos h).symm) fun _ _ => (if_pos h).symm.to_iff
  -- behind the marker comes a count of `k` bytes, or the elements
  have hcounted : ∀ {k : Nat} {loop : Nat → LuaReader Unit},
      (∀ p, b.tableHead byte p = some (b.beAt (b.skip p 1) k, b.skip (b.skip p 1) k)) →
      (∀ count, ShowsLua d b (loop count) (behindLoop count) (loopMeets count)) →
      ShowsLua d b (do
        Msgpack.luaPush limit (.table [])
        onUnpacker (safeIncremen b 1)
        loop (← onUnpacker (Msgpack.readTableSize b k 0)))
        (b.behindTable next limit byte) (TableMeets b next meets limit byte) := by
    intro k loop hhead hloop
    refine (pushed limit _ (incremen (sized k hloop))).congr (fun s _ => ?_) fun s _ => ?_
    · rw [Buffer.behindTable, hhead]
      rfl
    · rw [TableMeets, forall_head (hhead _)]
      rfl
  have hfixed : ∀ {loop : LuaReader Unit}, 0x80 ≤ byte ∧ byte ≤ 0x9f →
      ShowsLua d b loop (behindLoop (byte &&& 0x0f).toNat) (loopMeets (byte &&& 0x0f).toNat) →
      ShowsLua d b (do Msgpack.luaPush limit (.table []); onUnpacker (safeIncremen b 1); loop)
        (b.behindTable next limit byte) (TableMeets b next meets limit byte) := by
    intro loop h hloop
    refine (pushed limit _ (incremen hloop)).congr (fun s _ => ?_) fun s _ => ?_
    · rw [Buffer.behindTable, Buffer.tableHead_fix h]
      rfl
    · rw [TableMeets, forall_head (Buffer.tableHead_fix h _)]
      rfl
  refine .either (fun h => ?_) fun h₁ => .either (fun h => ?_) fun h₂ => .either (fun h => ?_) fun h₃ => ?_
  · subst h
    exact hcounted (fun _ => rfl) (hitems (by decide))
  · subst h
    exact hcounted (fun _ => rfl) (hitems (by decide))
  · rcases h with rfl | rfl
    · exact hcounted (fun _ => rfl) (hfields (by decide))
    · exact hcounted (fun _ => rfl) (hfields (by decide))
  refine .either (fun h => ?_) fun h₄ => .either (fun h => ?_) fun h₅ => .either (fun h => ?_) fun h₆ => ?_
  · subst h
    exact hcounted (fun _ => rfl) (hfields (by decide))
  · refine hfixed ⟨UInt8.le_trans (by decide) h.1, h.2⟩ (hitems ?_ _)
    rintro (rfl | rfl | rfl | h')
    · exact absurd h (by decide)
    · exact absurd h (by decide)
    · exact absurd h (by decide)
    · exact absurd (UInt8.le_trans h.1 h'.2) (by decide)
  · exact hfixed ⟨h.1, UInt8.le_trans h.2 (by decide)⟩ (hfields (.inr (.inr (.inr h))) _)
  · have hnone : ¬(0x80 ≤ byte ∧ byte ≤ 0x9f ∨ 0xdc ≤ byte ∧ byte ≤ 0xe0) := by
      simp only [Format.code] at *
      grind
    refine (typed (Shows.setError.map Prod.snd fun _ _ => rfl)).congr (fun s _ => ?_) fun s _ => ?_
    · rw [Buffer.behindTable, Buffer.tableHead_none hnone]
      rfl
    · rw [TableMeets, Buffer.tableHead_none hnone]
      refine iff_of_true trivial fun _ _ hhead => ?_
      cases hhead

end Tables

/-! ### Values -/

theorem peekBytes {size : Nat} : ShowsAt d b (fun str q => (str.isSome, q)) (peekBytes b size)
    (fun p => some (b.inRange { dataPointer := p } size, p)) fun _ => True where
  ends  := fun s hs => by
    unfold Msgpack.peekBytes
    split
    · rename_i hin
      exact .ok (congrArg (fun x => some (x, s.dataPointer)) hin) hs
    · rename_i hout
      exact .ok (congrArg (fun x => some (x, s.dataPointer)) (Bool.eq_false_iff.2 hout)) hs
  tells := fun s _ => by
    unfold Msgpack.peekBytes
    split
    · exact all_note rfl trivial
    · exact all_same rfl

/-- A value that is pushed once its bytes are read. -/
theorem read {m : Reader α} {f : Nat → Option Nat} {F : Nat → Prop} (limit : Nat) (hm : Shows d b m f F) (value : α → LuaValue)
    (hkind : ∀ a, (value a).kind = .other) : ShowsLua d b (do Msgpack.luaPush limit (value (← onUnpacker m)))
      (fun v => (f v.1).bind fun q => Place.push limit .other (q, v.2)) fun v => F v.1 := by
  refine ((typed hm).behind (g := Place.push limit .other) fun a => ?_).congr (fun _ _ => Option.bind_map) fun _ _ => Iff.rfl
  have hpush := luaPush (d := d) (b := b) limit (value a)
  rwa [hkind a] at hpush

/-- A float that is pushed once it is copied. -/
theorem number (limit : Nat) (t : NumType) (value : t.Val → LuaValue) :
    ShowsLua d b (do Msgpack.luaPush limit (value (← onUnpacker (unpackNumber b t))))
      (fun v => (b.numAt t v.1).bind fun x => Place.push limit (value x.1).kind (x.2, v.2)) fun v => NumberMeets d b v.1 :=
  ((typedAt (Shows.unpackNumber t)).behind (g := fun c => Place.push limit (value c.1.1).kind (c.1.2, c.2)) fun a =>
    luaPush limit (value a)).congr (fun _ _ => Option.bind_map) fun _ _ => Iff.rfl

/-- A value whose bytes are skipped behind the push. -/
theorem scalar (limit size : Nat) (value : LuaValue) :
    ShowsLua d b (do Msgpack.luaPush limit value; onUnpacker (safeIncremen b size))
      (fun v => Place.push limit value.kind (b.skip v.1 size, v.2)) fun _ => True :=
  (pushed limit value (typed (Shows.skipped size))).imp fun _ _ =>
    iff_true_intro fun _ => trivial

theorem fixstr (limit size : Nat) : ShowsLua d b (do
      match ← onUnpacker (Msgpack.peekBytes b size) with
      | some str =>
        Msgpack.luaPush limit (.string str)
        onUnpacker (safeIncremen b size)
      | none => Pure.pure ())
    (fun v => if b.inRange { dataPointer := v.1 } size then Place.push limit .other (b.skip v.1 size, v.2) else some v)
    fun _ => True := by
  refine (typedAt peekBytes).behind
    (g := fun c => if c.1.1 then Place.push limit .other (b.skip c.1.2 size, c.2) else some (c.1.2, c.2)) fun str => ?_
  cases str with
  | none     => exact .pure ()
  | some str => exact scalar limit size (.string str)

/-- **What the Lua decoder does with what the message chose, and where it arrives, is what the bytes say.** -/
theorem unpackStackProxy (limit : Nat) : ∀ depth,
    ShowsLua d b (unpackStackProxy b limit depth) (b.behindProxy limit depth) (ProxyMeets d b limit depth)
  | 0         => .throw Fault.outOfFuel
  | depth + 1 => by
    have htable := unpackTable (unpackStackProxy limit depth) limit
    let H (byte : UInt8) (v : Place) : Prop :=
      (0xca ≤ byte ∧ byte ≤ 0xd3 → NumberMeets d b v.1) ∧
      (0x80 ≤ byte ∧ byte ≤ 0x9f ∨ 0xdc ≤ byte ∧ byte ≤ 0xe0 →
        TableMeets b (b.behindProxy limit depth) (ProxyMeets d b limit depth) limit (b.front v.1) v)
    have hdispatch : ShowsLua d b (Msgpack.unpackStackProxy b limit (depth + 1)) (b.behindProxy limit (depth + 1))
        fun v => H (b.front v.1) v := by
      refine front (g := b.behindMarker (b.behindProxy limit depth) limit) (H := H) fun byte => ?_
      have hno : ∀ {m : LuaReader Unit} {f : Place → Option Place}, ¬(0xca ≤ byte ∧ byte ≤ 0xd3) →
          ¬(0x80 ≤ byte ∧ byte ≤ 0x9f ∨ 0xdc ≤ byte ∧ byte ≤ 0xe0) → ShowsLua d b m f (fun _ => True) →
          ShowsLua d b m f (H byte) := fun hf ht hm => hm.of_true fun _ => ⟨fun h => absurd h hf, fun h => absurd h ht⟩
      have hnumber : ∀ {m : LuaReader Unit} {f : Place → Option Place}, 0xca ≤ byte ∧ byte ≤ 0xd3 →
          ShowsLua d b m f (fun v => NumberMeets d b v.1) → ShowsLua d b m f (H byte) := by
        intro m f h hm
        have htable : ¬(0x80 ≤ byte ∧ byte ≤ 0x9f ∨ 0xdc ≤ byte ∧ byte ≤ 0xe0) := by grind
        exact hm.imp fun _ _ => ⟨fun hn => ⟨fun _ => hn, fun h => absurd h htable⟩, fun hn => hn.1 h⟩
      have htables : (0x80 ≤ byte ∧ byte ≤ 0x9f ∨ 0xdc ≤ byte ∧ byte ≤ 0xe0) →
          ShowsLua d b (Msgpack.unpackTable b limit (Msgpack.unpackStackProxy b limit depth))
            (fun v => b.behindTable (b.behindProxy limit depth) limit (b.front v.1) v) (H byte) := by
        intro h
        have hnumber : ¬(0xca ≤ byte ∧ byte ≤ 0xd3) := by grind
        exact htable.imp fun _ _ => ⟨fun ht => ⟨fun h => absurd h hnumber, fun _ => ht⟩, fun ht => ht.2 h⟩
      have hfix : ∀ value, value.kind = .other → ShowsLua d b (do onUnpacker (safeIncremen b 1); Msgpack.luaPush limit value)
          (fun v => Place.push limit .other (b.skip v.1 1, v.2)) fun _ => True := fun value h =>
        h ▸ incremen (luaPush limit value)
      refine .ite (fun h => hno (h ▸ by decide) (h ▸ by decide) (scalar limit 1 .nil)) fun _ => ?_
      refine .ite (fun h => hno (h ▸ by decide) (h ▸ by decide) (scalar limit 1 (.boolean false))) fun _ => ?_
      refine .ite (fun h => hno (h ▸ by decide) (h ▸ by decide) (scalar limit 1 (.boolean true))) fun _ => ?_
      refine .ite (fun h => hno ?_ ?_ (read limit Shows.unpackBinary .string fun _ => rfl)) fun _ => ?_
      · rcases h with rfl | rfl | rfl <;> decide
      · rcases h with rfl | rfl | rfl <;> decide
      refine .ite (fun h => hnumber (h ▸ by decide) (number limit .float fun x => .number (widen x))) fun _ => ?_
      refine .ite (fun h => hnumber (h ▸ by decide) (number limit .double .number)) fun _ => ?_
      refine .ite (fun h => hnumber ?_ (read limit (Shows.behindNum (.int .uint64)) _ fun _ => rfl)) fun _ => ?_
      · rcases h with rfl | rfl | rfl | rfl <;> decide
      refine .ite (fun h => hnumber ?_ (read limit (Shows.behindNum (.int .int64)) .integer fun _ => rfl)) fun _ => ?_
      · rcases h with rfl | rfl | rfl | rfl <;> decide
      refine .ite (fun h => hno ?_ ?_ (read limit Shows.unpackString .string fun _ => rfl)) fun _ => ?_
      · rcases h with rfl | rfl | rfl <;> decide
      · rcases h with rfl | rfl | rfl <;> decide
      refine .ite (fun h => htables ?_) fun _ => ?_
      · rcases h with rfl | rfl | rfl | rfl | rfl <;> decide
      refine .ite (fun h => hno (by grind) (by grind) (hfix _ rfl)) fun _ => ?_
      refine .ite (fun h => hno (by grind) ?_ (hfix _ rfl)) fun _ => ?_
      · simp only [Format.code] at *
        grind
      refine .ite (fun h => htables (by grind)) fun _ => .ite (fun h => htables (by grind)) fun _ => ?_
      refine .ite (fun h => hno (by grind) (by grind) (incremen (fixstr limit _))) fun _ => hno ?_ ?_ ?_
      · simp only [Format.code] at *
        grind
      · simp only [Format.code] at *
        grind
      · exact typed (Shows.setError.map Prod.snd fun _ _ => rfl)
    refine hdispatch.imp fun s _ => and_congr ⟨fun h => ?_, fun h _ => h⟩ ⟨fun h count q hhead => ?_, fun h _ => h⟩
    · exact ⟨fun hf => (h (hf ▸ by decide)).1 hf, fun hf => (h (hf ▸ by decide)).2 hf⟩
    · by_cases hbyte : 0x80 ≤ b.front s.place.1 ∧ b.front s.place.1 ≤ 0x9f ∨
          0xdc ≤ b.front s.place.1 ∧ b.front s.place.1 ≤ 0xe0
      · exact h hbyte count q hhead
      · cases (Buffer.tableHead_none hbyte _).symm.trans hhead

end ShowsLua

/-- Behind the values of a message. -/
def Buffer.behindLoop (b : Buffer) (limit : Nat) : Nat → Place → Option Place
  | 0,          _ => none
  | rounds + 1, v =>
    if v.1 < b.bytes.length then (b.behindProxy limit b.depth v).bind (behindLoop b limit rounds) else some v

theorem unpackLoop_shows (d : Demand) (b : Buffer) (limit : Nat) : ∀ rounds i,
    ShowsLua d b (unpackLoop b limit rounds i) (b.behindLoop limit rounds) (LoopMeets d b limit rounds)
  | 0,          _ => .throw Fault.outOfFuel
  | rounds + 1, i => by
    refine Reports.test (c := fun v => v.1 < b.bytes.length) i (fun s => ?_)
      ((ShowsLua.unpackStackProxy limit b.depth).bind fun _ => unpackLoop_shows d b limit rounds (i + 1))
    change (if decide (b.bytes.length ≤ s.unpacker.dataPointer) = true then (Pure.pure i : LuaReader Nat) else _) s =
      if s.unpacker.dataPointer < b.bytes.length then _ else _
    by_cases hempty : b.bytes.length ≤ s.unpacker.dataPointer
    · exact (congrFun (if_pos (decide_eq_true hempty)) s).trans (if_neg (Nat.not_lt_of_le hempty)).symm
    · exact (congrFun (if_neg fun h => hempty (of_decide_eq_true h)) s).trans (if_pos (Nat.lt_of_not_le hempty)).symm

end Gb.Msgpack
