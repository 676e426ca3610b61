import GbServer.LuaTermination
/-!
# LuaBalance — what a call leaves on the Lua stack

The format that `unpack_stack_proxy` reads, as a reader of values that knows no stack (`readLua`): it fails where the
bytes are no value, and where the value needs more slots than are free.  A call pushes the value that is read and nothing
else; where none can be read it does not return, or it leaves the stack lower (`unpackStackProxy_simulates`).
-/
namespace Gb.Msgpack

open Stateful
open Relation (ReflTransGen)

/-! ## Values -/

section

variable (b : Buffer)

def takeSlot (free : Nat) : Reader Unit := if free = 0 then throw .luaStack else pure ()

def readItems (readValue : Reader LuaValue) (i : Nat) :
    Nat → List (LuaValue × LuaValue) → Reader (List (LuaValue × LuaValue))
  | 0,         entries => pure entries
  | count + 1, entries => do
    let val ← readValue
    readItems readValue (i + 1) count (LuaValue.set (.integer (IntType.int64.wrap (i + 1 : Nat))) val entries)

def readFields (readKey readMapped : Reader LuaValue) :
    Nat → List (LuaValue × LuaValue) → Reader (List (LuaValue × LuaValue))
  | 0,         entries => pure entries
  | count + 1, entries => do
    let key ← readKey
    let val ← readMapped
    match key.key with
    | some key => readFields readKey readMapped count (LuaValue.set key val entries)
    | none     => throw .luaError

/-- A table in its slot, from the entries that are read with the slots behind it. -/
def readEntries (free : Nat) (entries : Nat → List (LuaValue × LuaValue) → Reader (List (LuaValue × LuaValue))) :
    Reader LuaValue := do
  takeSlot free
  safeIncremen b 1
  return .table (← entries (free - 1) [])

/-- Of the slots that are free for it, a key takes one while its value is read. -/
def readTable (readValue : Nat → Reader LuaValue) (free : Nat) : Reader LuaValue := do
  let items := fun count free => readItems (readValue free) 0 count
  let fields := fun count free => readFields (readValue free) (readValue (free - 1)) count
  let byte ← safeData b
  if byte = Format.array32.code then
    readEntries b free fun free entries => do items (← readTableSize b 4 0) free entries
  else if byte = Format.array16.code then
    readEntries b free fun free entries => do items (← readTableSize b 2 0) free entries
  else if byte = Format.map32.code ∨ byte = Format.table.code then
    readEntries b free fun free entries => do fields (← readTableSize b 4 0) free entries
  else if byte = Format.map16.code then
    readEntries b free fun free entries => do fields (← readTableSize b 2 0) free entries
  else if 0x90 ≤ byte ∧ byte ≤ 0x9f then readEntries b free (items (byte &&& 0x0f).toNat)
  else if 0x80 ≤ byte ∧ byte ≤ 0x8f then readEntries b free (fields (byte &&& 0x0f).toNat)
  else throw .luaStack

/-- A scalar in its slot. -/
def readScalar {α : Type} (free : Nat) (f : α → LuaValue) (m : Reader α) : Reader LuaValue := do
  let a ← m
  takeSlot free
  return f a

/-- A value of one byte. -/
def readByte (free : Nat) (value : LuaValue) : Reader LuaValue := do
  takeSlot free
  safeIncremen b 1
  return value

/-- The value at the position, nested no deeper than `depth`, for a stack with `free` slots. -/
def readLua : Nat → Nat → Reader LuaValue
  | 0,         _    => throw .outOfFuel
  | depth + 1, free => do
    let byte ← safeData b
    if byte = Format.nil.code then readByte b free .nil
    else if byte = Format.falseBool.code then readByte b free (.boolean false)
    else if byte = Format.trueBool.code then readByte b free (.boolean true)
    else if byte = Format.bin8.code ∨ byte = Format.bin16.code ∨ byte = Format.bin32.code then
      readScalar free .string (unpackBinary b)
    else if byte = Format.float32.code then
      readScalar free (fun bits : BitVec 32 => .number (widen bits)) (unpackNumber b .float)
    else if byte = Format.float64.code then readScalar free .number (unpackNumber b .double)
    else if byte = Format.uint8.code ∨ byte = Format.uint16.code ∨ byte = Format.uint32.code
        ∨ byte = Format.uint64.code then
      readScalar free (fun n : IntType.uint64.Val => .integer (IntType.int64.wrap n.val)) (unpackNumber b (.int .uint64))
    else if byte = Format.int8.code ∨ byte = Format.int16.code ∨ byte = Format.int32.code
        ∨ byte = Format.int64.code then
      readScalar free .integer (unpackNumber b (.int .int64))
    else if byte = Format.str8.code ∨ byte = Format.str16.code ∨ byte = Format.str32.code then
      readScalar free .string (unpackString b)
    else if byte = Format.array16.code ∨ byte = Format.array32.code ∨ byte = Format.map16.code
        ∨ byte = Format.map32.code ∨ byte = Format.table.code then
      readTable b (readLua depth) free
    else if byte ≤ 0x7f then
      readScalar free (fun _ => .integer (IntType.int64.wrap byte.toNat)) (safeIncremen b 1)
    else if 0xe0 ≤ byte then
      readScalar free (fun _ => .integer (IntType.int64.wrap (IntType.int8.wrap byte.toNat).val)) (safeIncremen b 1)
    else if 0x90 ≤ byte ∧ byte ≤ 0x9f then readTable b (readLua depth) free
    else if 0x80 ≤ byte ∧ byte ≤ 0x8f then readTable b (readLua depth) free
    else if 0xa0 ≤ byte ∧ byte ≤ 0xbf then
      safeIncremen b 1
      let strSize := (byte &&& 0x1f).toNat
      match ← peekBytes b strSize with
      | some str =>
        takeSlot free
        safeIncremen b strSize
        return .string str
      | none => throw .luaStack
    else throw .luaStack

end

/-! ## One call -/

/-- A program pushes what a reader reads. -/
structure Simulates (limit : Nat) (M : LuaReader Unit) (m : Nat → Reader LuaValue) : Prop where
  push   : ∀ s v u, m (limit - s.stack.length) s.unpacker = .ok v u → M s = .ok () ⟨u, v :: s.stack⟩
  height : ∀ s t, M s = .ok () t → t.stack.length ≤ s.stack.length + 1
  exact  : ∀ s t, M s = .ok () t → t.stack.length = s.stack.length + 1 →
    ∃ v u, m (limit - s.stack.length) s.unpacker = .ok v u

/-- A program fills the table on top of the stack with what a reader reads. -/
structure Fills (limit : Nat) (M : LuaReader Unit)
    (m : Nat → List (LuaValue × LuaValue) → Reader (List (LuaValue × LuaValue))) : Prop where
  fill   : ∀ s entries stack, s.stack = .table entries :: stack → ∀ result u,
    m (limit - s.stack.length) entries s.unpacker = .ok result u → M s = .ok () ⟨u, .table result :: stack⟩
  height : ∀ s t, M s = .ok () t → t.stack.length ≤ s.stack.length
  exact  : ∀ s entries stack, s.stack = .table entries :: stack → ∀ t, M s = .ok () t →
    t.stack.length = s.stack.length → ∃ result u, m (limit - s.stack.length) entries s.unpacker = .ok result u

theorem onUnpacker_ok {α : Type} {m : Reader α} {s : LuaState} {a : α} {u : Unpacker} (h : m s.unpacker = .ok a u) :
    onUnpacker m s = .ok a { s with unpacker := u } := by
  rw [onUnpacker, h]

theorem ok_of_onUnpacker {α : Type} {m : Reader α} {s t : LuaState} {a : α} (h : onUnpacker m s = .ok a t) :
    m s.unpacker = .ok a t.unpacker ∧ t.stack = s.stack := by
  unfold onUnpacker at h
  split at h
  · rename_i hm
    cases h
    exact ⟨hm, rfl⟩
  · cases h

theorem luaPush_ok {limit : Nat} {value : LuaValue} {s : LuaState} (h : s.stack.length < limit) :
    luaPush limit value s = .ok () { s with stack := value :: s.stack } := if_pos h

theorem ok_of_luaPush {limit : Nat} {value : LuaValue} {s t : LuaState} (h : luaPush limit value s = .ok () t) :
    s.stack.length < limit ∧ t = { s with stack := value :: s.stack } := by
  unfold luaPush at h
  split at h
  · rename_i hlt
    cases h
    exact ⟨hlt, rfl⟩
  · cases h

theorem takeSlot_ok {free : Nat} {u : Unpacker} (h : 0 < free) : takeSlot free u = .ok () u := by
  rw [takeSlot, if_neg (Nat.ne_of_gt h)]
  rfl

theorem ok_of_takeSlot {free : Nat} {u v : Unpacker} (h : takeSlot free u = .ok () v) : 0 < free ∧ v = u := by
  unfold takeSlot at h
  split at h
  · cases h
  · rename_i hne
    cases h
    exact ⟨Nat.pos_of_ne_zero hne, rfl⟩

theorem ok_of_pure {α : Type} {a b : α} {u v : Unpacker} (h : (pure a : Reader α) u = .ok b v) : b = a ∧ v = u := by
  cases h
  exact ⟨rfl, rfl⟩

namespace Simulates

variable {limit : Nat} {α : Type}

theorem ite {c : Prop} [Decidable c] {M N : LuaReader Unit} {m n : Nat → Reader LuaValue} (hM : Simulates limit M m)
    (hN : Simulates limit N n) :
    Simulates limit (if c then M else N) fun free => if c then m free else n free := by
  split
  · exact hM
  · exact hN

theorem front {m : Reader α} {F : α → LuaReader Unit} {f : Nat → α → Reader LuaValue}
    (h : ∀ a, Simulates limit (F a) fun free => f free a) :
    Simulates limit (onUnpacker m >>= F) fun free => m >>= f free where
  push   := fun s v u hm => by
    obtain ⟨a, r, ha, hf⟩ := bind_eq_ok hm
    rw [bind_of_ok (onUnpacker_ok ha)]
    exact (h a).push { s with unpacker := r } v u hf
  height := fun s t hM => by
    obtain ⟨a, r, ha, hF⟩ := bind_eq_ok hM
    rw [← (ok_of_onUnpacker ha).2]
    exact (h a).height r t hF
  exact  := fun s t hM hheight => by
    obtain ⟨a, r, ha, hF⟩ := bind_eq_ok hM
    obtain ⟨hm, hr⟩ := ok_of_onUnpacker ha
    rw [← hr] at hheight ⊢
    obtain ⟨v, u, hf⟩ := (h a).exact r t hF hheight
    exact ⟨v, u, (bind_of_ok hm).trans hf⟩

/-- A value that is there before its bytes are left behind. -/
theorem pushThen (value : LuaValue) (m : Reader Unit) :
    Simulates limit (do luaPush limit value; onUnpacker m) fun free => do takeSlot free; m; return value where
  push   := fun s v u hm => by
    obtain ⟨_, r, hslot, hrest⟩ := bind_eq_ok hm
    obtain ⟨hfree, rfl⟩ := ok_of_takeSlot hslot
    obtain ⟨_, r, hmr, hv⟩ := bind_eq_ok hrest
    obtain ⟨rfl, rfl⟩ := ok_of_pure hv
    rw [bind_of_ok (luaPush_ok (Nat.lt_of_sub_pos hfree))]
    exact @onUnpacker_ok _ m { s with stack := v :: s.stack } () u hmr
  height := fun s t hM => by
    obtain ⟨_, r, hpush, hm⟩ := bind_eq_ok hM
    rw [(ok_of_onUnpacker hm).2, (ok_of_luaPush hpush).2]
    exact Nat.le_refl _
  exact  := fun s t hM _ => by
    obtain ⟨_, r, hpush, hm⟩ := bind_eq_ok hM
    obtain ⟨hlt, rfl⟩ := ok_of_luaPush hpush
    have hok := (ok_of_onUnpacker hm).1
    exact ⟨value, t.unpacker, (bind_of_ok (takeSlot_ok (Nat.sub_pos_of_lt hlt))).trans ((bind_of_ok hok).trans rfl)⟩

theorem push' (value : LuaValue) :
    Simulates limit (luaPush limit value) fun free => do takeSlot free; return value where
  push   := fun s v u hm => by
    obtain ⟨_, r, hslot, hv⟩ := bind_eq_ok hm
    obtain ⟨hfree, rfl⟩ := ok_of_takeSlot hslot
    obtain ⟨rfl, rfl⟩ := ok_of_pure hv
    exact luaPush_ok (Nat.lt_of_sub_pos hfree)
  height := fun s t hM => by
    rw [(ok_of_luaPush hM).2]
    exact Nat.le_refl _
  exact  := fun s t hM _ =>
    ⟨value, s.unpacker, (bind_of_ok (takeSlot_ok (Nat.sub_pos_of_lt (ok_of_luaPush hM).1))).trans rfl⟩

theorem scalar (f : α → LuaValue) (m : Reader α) :
    Simulates limit (do luaPush limit (f (← onUnpacker m))) fun free => readScalar free f m := front fun a => push' (f a)

/-- A branch that pushes nothing. -/
theorem missing {M : LuaReader Unit} (h : ∀ s t, M s = .ok () t → t.stack = s.stack) (e : Fault) :
    Simulates limit M fun _ => throw e where
  push   := fun _ _ _ hm => nomatch hm
  height := fun s t hM => by
    rw [h s t hM]
    exact Nat.le_succ _
  exact  := fun s t hM hheight => by
    rw [h s t hM] at hheight
    omega

end Simulates

theorem luaRawseti_table (n : Nat) (u : Unpacker) (val : LuaValue) (entries : List (LuaValue × LuaValue))
    (stack : List LuaValue) : luaRawseti n ⟨u, val :: .table entries :: stack⟩
      = .ok () ⟨u, .table (LuaValue.set (.integer (IntType.int64.wrap n)) val entries) :: stack⟩ := rfl

theorem luaRawset_table (u : Unpacker) (val key : LuaValue) (entries : List (LuaValue × LuaValue))
    (stack : List LuaValue) : luaRawset ⟨u, val :: key :: .table entries :: stack⟩
      = match key.key with
        | some key => .ok () ⟨u, .table (LuaValue.set key val entries) :: stack⟩
        | none     => .error .luaError ⟨u, val :: key :: .table entries :: stack⟩ := rfl

theorem luaRawseti_height {n : Nat} {s t : LuaState} (h : luaRawseti n s = .ok () t) :
    s.stack.length = t.stack.length + 1 := by
  unfold luaRawseti at h
  split at h
  · rename_i hs
    cases h
    rw [hs]
    rfl
  · cases h

theorem luaRawset_height {s t : LuaState} (h : luaRawset s = .ok () t) : s.stack.length = t.stack.length + 2 := by
  unfold luaRawset at h
  split at h
  · rename_i hs
    split at h
    · cases h
      rw [hs]
      rfl
    · cases h
  · cases h

namespace Simulates

/-- A call that leaves the stack one higher has pushed what was read. -/
theorem pushed {limit : Nat} {M : LuaReader Unit} {m : Nat → Reader LuaValue} (h : Simulates limit M m) {s t : LuaState}
    (hM : M s = .ok () t) (hheight : t.stack.length = s.stack.length + 1) :
    ∃ v, m (limit - s.stack.length) s.unpacker = .ok v t.unpacker ∧ t.stack = v :: s.stack := by
  obtain ⟨v, u, hm⟩ := h.exact s t hM hheight
  have ht := h.push s v u hm
  rw [hM] at ht
  injection ht with _ ht
  rw [ht]
  exact ⟨v, hm, rfl⟩

end Simulates

namespace Fills

variable {limit : Nat} {α : Type}

theorem front {m : Reader α} {F : α → LuaReader Unit}
    {f : Nat → List (LuaValue × LuaValue) → α → Reader (List (LuaValue × LuaValue))}
    (h : ∀ a, Fills limit (F a) fun free entries => f free entries a) :
    Fills limit (onUnpacker m >>= F) fun free entries => m >>= f free entries where
  fill   := fun s entries stack hs result u hm => by
    obtain ⟨a, r, ha, hf⟩ := bind_eq_ok hm
    rw [bind_of_ok (onUnpacker_ok ha)]
    exact (h a).fill { s with unpacker := r } entries stack hs result u hf
  height := fun s t hM => by
    obtain ⟨a, r, ha, hF⟩ := bind_eq_ok hM
    rw [← (ok_of_onUnpacker ha).2]
    exact (h a).height r t hF
  exact  := fun s entries stack hs t hM hheight => by
    obtain ⟨a, r, ha, hF⟩ := bind_eq_ok hM
    obtain ⟨hm, hr⟩ := ok_of_onUnpacker ha
    rw [← hr] at hheight hs ⊢
    obtain ⟨result, u, hf⟩ := (h a).exact r entries stack hs t hF hheight
    exact ⟨result, u, (bind_of_ok hm).trans hf⟩

variable {proxy : LuaReader Unit} {readValue : Nat → Reader LuaValue} (hproxy : Simulates limit proxy readValue)

include hproxy

theorem items : ∀ count i, Fills limit (unpackItems proxy i count) fun free => readItems (readValue free) i count
  | 0,         i => {
      fill   := fun s entries stack hs result u hm => by
        obtain ⟨rfl, rfl⟩ := ok_of_pure hm
        cases s
        cases hs
        rfl
      height := fun s t hM => by
        cases hM
        exact Nat.le_refl _
      exact  := fun s entries stack hs t hM _ => ⟨entries, s.unpacker, rfl⟩ }
  | count + 1, i => {
      fill   := fun s entries stack hs result u hm => by
        obtain ⟨val, r, hval, hrest⟩ := bind_eq_ok hm
        have hcall := hproxy.push s val r hval
        rw [unpackItems, bind_of_ok hcall, hs, bind_of_ok (luaRawseti_table (i + 1) r val entries stack)]
        refine (items count (i + 1)).fill ⟨r, _⟩ _ stack rfl result u ?_
        rw [hs] at hrest
        exact hrest
      height := fun s t hM => by
        obtain ⟨_, r, hcall, hrest⟩ := bind_eq_ok hM
        obtain ⟨_, r', hset, hrest⟩ := bind_eq_ok hrest
        have h₁ := hproxy.height s r hcall
        have h₂ := luaRawseti_height hset
        have h₃ := (items count (i + 1)).height r' t hrest
        omega
      exact  := fun s entries stack hs t hM hheight => by
        obtain ⟨_, r, hcall, hrest⟩ := bind_eq_ok hM
        obtain ⟨_, r', hset, hrest⟩ := bind_eq_ok hrest
        have h₁ := hproxy.height s r hcall
        have h₂ := luaRawseti_height hset
        have h₃ := (items count (i + 1)).height r' t hrest
        obtain ⟨val, hval, hr⟩ := hproxy.pushed hcall (by omega)
        obtain ⟨ru, rstack⟩ := r
        dsimp only at hr
        subst hr
        rw [hs, luaRawseti_table] at hset
        injection hset with _ hset
        subst hset
        rw [hs] at hheight
        obtain ⟨result, u, hread⟩ := (items count (i + 1)).exact _ _ stack rfl t hrest hheight
        refine ⟨result, u, (bind_of_ok hval).trans ?_⟩
        rw [hs]
        exact hread }

theorem fields : ∀ count,
    Fills limit (unpackFields proxy count) fun free => readFields (readValue free) (readValue (free - 1)) count
  | 0         => {
      fill   := fun s entries stack hs result u hm => by
        obtain ⟨rfl, rfl⟩ := ok_of_pure hm
        cases s
        cases hs
        rfl
      height := fun s t hM => by
        cases hM
        exact Nat.le_refl _
      exact  := fun s entries stack hs t hM _ => ⟨entries, s.unpacker, rfl⟩ }
  | count + 1 => {
      fill   := fun s entries stack hs result u hm => by
        obtain ⟨key, r, hkey, hrest⟩ := bind_eq_ok hm
        obtain ⟨val, r', hval, hrest⟩ := bind_eq_ok hrest
        have hcall := hproxy.push s key r hkey
        have hcall' := hproxy.push ⟨r, key :: s.stack⟩ val r' hval
        rw [unpackFields, bind_of_ok hcall, bind_of_ok hcall', hs]
        cases hkk : key.key with
        | none     =>
          rw [hkk] at hrest
          cases hrest
        | some key' =>
          rw [hkk] at hrest
          have hset := luaRawset_table r' val key entries stack
          rw [hkk] at hset
          rw [bind_of_ok hset]
          rw [hs] at hrest
          exact (fields count).fill ⟨r', _⟩ _ stack rfl result u hrest
      height := fun s t hM => by
        obtain ⟨_, r, hcall, hrest⟩ := bind_eq_ok hM
        obtain ⟨_, r', hcall', hrest⟩ := bind_eq_ok hrest
        obtain ⟨_, r'', hset, hrest⟩ := bind_eq_ok hrest
        have h₁ := hproxy.height s r hcall
        have h₂ := hproxy.height r r' hcall'
        have h₃ := luaRawset_height hset
        have h₄ := (fields count).height r'' t hrest
        omega
      exact  := fun s entries stack hs t hM hheight => by
        obtain ⟨_, r, hcall, hrest⟩ := bind_eq_ok hM
        obtain ⟨_, r', hcall', hrest⟩ := bind_eq_ok hrest
        obtain ⟨_, r'', hset, hrest⟩ := bind_eq_ok hrest
        have h₁ := hproxy.height s r hcall
        have h₂ := hproxy.height r r' hcall'
        have h₃ := luaRawset_height hset
        have h₄ := (fields count).height r'' t hrest
        obtain ⟨key, hkey, hr⟩ := hproxy.pushed hcall (by omega)
        obtain ⟨val, hval, hr'⟩ := hproxy.pushed hcall' (by omega)
        obtain ⟨ru, rstack⟩ := r
        obtain ⟨ru', rstack'⟩ := r'
        dsimp only at hr hr'
        subst hr hr'
        rw [hs, luaRawset_table] at hset
        cases hkk : key.key with
        | none      =>
          rw [hkk] at hset
          cases hset
        | some key' =>
          rw [hkk] at hset
          injection hset with _ hset
          subst hset
          rw [hs] at hheight
          obtain ⟨result, u, hread⟩ := (fields count).exact _ _ stack rfl t hrest hheight
          refine ⟨result, u, (bind_of_ok hkey).trans ((bind_of_ok hval).trans ?_)⟩
          rw [hkk, hs]
          exact hread }

end Fills

namespace Simulates

variable {b : Buffer} {limit : Nat}

/-- A table: its slot, its marker, and what fills it. -/
theorem entries {M : LuaReader Unit} {m : Nat → List (LuaValue × LuaValue) → Reader (List (LuaValue × LuaValue))}
    (h : Fills limit M m) :
    Simulates limit (do luaPush limit (.table []); onUnpacker (safeIncremen b 1); M) fun free => readEntries b free m where
  push   := fun s v u hm => by
    obtain ⟨_, r, hslot, hrest⟩ := bind_eq_ok hm
    obtain ⟨hfree, rfl⟩ := ok_of_takeSlot hslot
    obtain ⟨_, r, hincremen, hrest⟩ := bind_eq_ok hrest
    obtain ⟨result, r', hread, hv⟩ := bind_eq_ok hrest
    obtain ⟨rfl, rfl⟩ := ok_of_pure hv
    rw [bind_of_ok (luaPush_ok (Nat.lt_of_sub_pos hfree)),
      bind_of_ok (@onUnpacker_ok _ _ { s with stack := .table [] :: s.stack } () r hincremen)]
    exact h.fill ⟨r, .table [] :: s.stack⟩ [] s.stack rfl result u hread
  height := fun s t hM => by
    obtain ⟨_, r, hpush, hrest⟩ := bind_eq_ok hM
    obtain ⟨_, r', hincremen, hrest⟩ := bind_eq_ok hrest
    have hheight := h.height r' t hrest
    rw [(ok_of_onUnpacker hincremen).2, (ok_of_luaPush hpush).2] at hheight
    exact hheight
  exact  := fun s t hM hheight => by
    obtain ⟨_, r, hpush, hrest⟩ := bind_eq_ok hM
    obtain ⟨_, r', hincremen, hfill⟩ := bind_eq_ok hrest
    obtain ⟨hlt, rfl⟩ := ok_of_luaPush hpush
    obtain ⟨hok, hstack⟩ := ok_of_onUnpacker hincremen
    obtain ⟨result, u, hread⟩ := h.exact r' [] s.stack hstack t hfill (by rw [hheight, hstack]; rfl)
    rw [hstack] at hread
    exact ⟨.table result, u, (bind_of_ok (takeSlot_ok (Nat.sub_pos_of_lt hlt))).trans
      ((bind_of_ok hok).trans ((bind_of_ok hread).trans rfl))⟩

theorem unpackTable {proxy : LuaReader Unit} {readValue : Nat → Reader LuaValue}
    (hproxy : Simulates limit proxy readValue) :
    Simulates limit (Msgpack.unpackTable b limit proxy) (readTable b readValue) := by
  have hitems := fun count => Fills.items hproxy count 0
  have hfields := Fills.fields hproxy
  refine front fun byte => ?_
  refine ite (entries (Fills.front hitems)) (ite (entries (Fills.front hitems)) ?_)
  refine ite (entries (Fills.front hfields)) (ite (entries (Fills.front hfields)) ?_)
  refine ite (entries (hitems _)) (ite (entries (hfields _)) ?_)
  exact missing (fun s t hM => (ok_of_onUnpacker hM).2) _

end Simulates

/-- **A call pushes the value at the position, and where there is none it does not leave the stack one higher.** -/
theorem unpackStackProxy_simulates (b : Buffer) (limit : Nat) :
    ∀ depth, Simulates limit (unpackStackProxy b limit depth) (readLua b depth)
  | 0         => ⟨fun _ _ _ h => (nomatch h), fun _ _ h => (nomatch h), fun _ _ h => (nomatch h)⟩
  | depth + 1 => by
    have htable := (unpackStackProxy_simulates b limit depth).unpackTable (b := b)
    refine .front fun byte => ?_
    refine .ite (.pushThen _ _) (.ite (.pushThen _ _) (.ite (.pushThen _ _) ?_))
    refine .ite (.scalar _ _) (.ite (.scalar _ _) (.ite (.scalar _ _) ?_))
    refine .ite (.scalar _ _) (.ite (.scalar _ _) (.ite (.scalar _ _) ?_))
    refine .ite htable (.ite (.scalar _ _) (.ite (.scalar _ _) (.ite htable (.ite htable (.ite ?_ ?_)))))
    · refine .front fun _ => .front fun str => ?_
      cases str with
      | none     => exact .missing (fun s t hM => by cases hM; rfl) _
      | some str => exact .pushThen _ _
    · exact .missing (fun s t hM => (ok_of_onUnpacker hM).2) _

/-! ## Balance -/

section

variable (b : Buffer) (limit : Nat)

/-- The bytes at the position are a value: its markers begin values, its short strings are all there and its long ones
do not reach past the address space, its keys are neither nil nor NaN, and it fits in the slots that are free. -/
def Readable (free : Nat) (u : Unpacker) : Prop := ∃ v u', readLua b b.depth free u = .ok v u'

/-- A call returns with exactly one more element on the stack. -/
def Balanced (s : LuaState) : Prop :=
  ∃ t, unpackStackProxy b limit b.depth s = .ok () t ∧ t.stack.length = s.stack.length + 1

/-- Every call that the loop makes comes to a value. -/
def AllReadable (s : LuaState) : Prop :=
  ∀ t, ReflTransGen (Calls b limit) s t → b.isEmpty t.unpacker = false → Readable b (limit - t.stack.length) t.unpacker

theorem balanced_iff_readable (s : LuaState) :
    Balanced b limit s ↔ Readable b (limit - s.stack.length) s.unpacker := by
  have hsim := unpackStackProxy_simulates b limit b.depth
  constructor
  · rintro ⟨t, hcall, hheight⟩
    exact hsim.exact s t hcall hheight
  · rintro ⟨v, u, hread⟩
    exact ⟨_, hsim.push s v u hread, rfl⟩

variable {b limit}

theorem Calls.det {s t u : LuaState} (ht : Calls b limit s t) (hu : Calls b limit s u) : t = u := by
  have h := ht.2.symm.trans hu.2
  injection h

theorem Calls.height {s t : LuaState} (h : Calls b limit s t) : t.stack.length ≤ s.stack.length + 1 :=
  (unpackStackProxy_simulates b limit b.depth).height s t h.2

theorem Calls.balanced_iff {s t : LuaState} (h : Calls b limit s t) :
    t.stack.length = s.stack.length + 1 ↔ Readable b (limit - s.stack.length) s.unpacker := by
  rw [← balanced_iff_readable]
  constructor
  · exact fun hheight => ⟨t, h.2, hheight⟩
  · rintro ⟨u, hu, hheight⟩
    rw [h.det ⟨h.1, hu⟩]
    exact hheight

theorem allReadable_iff_of_calls {s t : LuaState} (h : Calls b limit s t) :
    AllReadable b limit s ↔ Readable b (limit - s.stack.length) s.unpacker ∧ AllReadable b limit t := by
  constructor
  · exact fun hs => ⟨hs s .refl h.1, fun u htu hu => hs u (.head h htu) hu⟩
  · rintro ⟨hs, ht⟩ u hsu hu
    rcases ReflTransGen.cases_head hsu with rfl | ⟨r, hsr, hru⟩
    · exact hs
    · exact ht u (hsr.det h ▸ hru) hu

/-- What a loop that returns has counted, against what it has pushed. -/
theorem unpackLoop_height : ∀ (rounds i n : Nat) (s t : LuaState), unpackLoop b limit rounds i s = .ok n t →
    t.stack.length + i ≤ s.stack.length + n ∧
      (t.stack.length + i = s.stack.length + n ↔ AllReadable b limit s)
  | 0,          _, _, _, _, h => nomatch h
  | rounds + 1, i, n, s, t, h => by
    rw [unpackLoop_succ] at h
    by_cases hempty : b.isEmpty s.unpacker
    · rw [if_pos hempty] at h
      cases h
      refine ⟨Nat.le_refl _, fun _ u hsu hu => ?_, fun _ => rfl⟩
      rcases ReflTransGen.cases_head hsu with rfl | ⟨r, hsr, _⟩
      · rw [hempty] at hu
        cases hu
      · rw [hsr.1] at hempty
        cases hempty
    · rw [if_neg hempty] at h
      cases hcall : unpackStackProxy b limit b.depth s with
      | ok _ r    =>
        rw [hcall] at h
        have hsr : Calls b limit s r := ⟨by simpa using hempty, hcall⟩
        obtain ⟨hle, hiff⟩ := unpackLoop_height rounds (i + 1) n r t h
        have hheight := hsr.height
        rw [allReadable_iff_of_calls hsr, ← hsr.balanced_iff, ← hiff]
        exact ⟨by omega, by omega⟩
      | error e r =>
        rw [hcall] at h
        cases h

end

/-- **A call leaves the stack exactly one higher if and only if the bytes at the position are a value, and then what was
on the stack is untouched.  The loop counts as many values as it pushes if and only if that is so for all its calls.** -/
theorem unpackStackProxy_balanced_iff (b : Buffer) (limit : Nat) (s : LuaState) :
    (Balanced b limit s ↔ Readable b (limit - s.stack.length) s.unpacker) ∧
    (∀ t, unpackStackProxy b limit b.depth s = .ok () t → t.stack.length = s.stack.length + 1 →
      ∃ v, t.stack = v :: s.stack) ∧
    ∀ rounds n t, unpackLoop b limit rounds 0 s = .ok n t →
      (t.stack.length = s.stack.length + n ↔ AllReadable b limit s) := by
  refine ⟨balanced_iff_readable b limit s, fun t hcall hheight => ?_, fun rounds n t hloop => ?_⟩
  · obtain ⟨v, _, hv⟩ := (unpackStackProxy_simulates b limit b.depth).pushed hcall hheight
    exact ⟨v, hv⟩
  · exact (unpackLoop_height rounds 0 n s t hloop).2

/-- A message that announces a string of one byte and ends there. -/
def truncatedString : Buffer := .ofBytes [0xa1] (by decide)

theorem not_unpackStackProxy_balanced : ¬∀ (b : Buffer) (limit : Nat) (s : LuaState),
    s.stack.length + b.bytes.length < limit → Balanced b limit s := by
  intro h
  obtain ⟨t, hcall, hheight⟩ := h truncatedString 20 { stack := [] } (by decide)
  cases hcall
  exact absurd hheight (by decide)

end Gb.Msgpack
