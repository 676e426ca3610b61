import GbServer.ProtobufLua
import GbServer.Lib.StackProgram
/-!
# ProtobufStack — what the converters do to the Lua stack

`protobuf_new_table` and `fill_lua_table` (`lua_pb_parse.cpp`) as the Lua functions that they call, on a stack with room for
`limit` values and with room for `depth` calls inside one another; for all message types, recursive ones too, as reflection
shows them.  A run that ends in undefined behaviour, in an error of Lua or in a fatal error of protobuf does not return.
-/
namespace Gb

open StackProgram (Program Triple ofOption push stuck)
open Msgpack (LuaValue IntType)

/-! ## Messages -/

/-- A field of the messages `M`, with what reflection does to it: how it is read and how it is set. -/
inductive FieldDescriptor {Descriptor : Type} (Message : Descriptor → Type) (M : Type)
  | scalar (name : FieldName) (type : CppType) (get : M → type.Val) (set : M → type.Val → M)
  /-- The message that is there or a default; the one that can be changed, and what changes with it. -/
  | message (name : FieldName) (type : Descriptor) (get : M → Message type) (mutableMessage : M → Message type)
      (put : M → Message type → M)
  | scalars (name : FieldName) (type : CppType) (elements : M → Repeated type.Val) (add : M → type.Val → M)
  /-- The elements; a new one, and what it is added to. -/
  | messages (name : FieldName) (type : Descriptor) (elements : M → Repeated (Message type)) (added : Message type)
      (put : M → Message type → M)

def FieldDescriptor.name {Descriptor : Type} {Message : Descriptor → Type} {M : Type} : FieldDescriptor Message M → FieldName
  | .scalar name ..   => name
  | .message name ..  => name
  | .scalars name ..  => name
  | .messages name .. => name

/-- Message types, their messages, and what the program uses of the library. -/
structure Reflection where
  Descriptor : Type
  Message : Descriptor → Type
  fields : (type : Descriptor) → List (FieldDescriptor Message (Message type))
  /-- `create_message` of a name; `none` is a null pointer. -/
  createMessage : List UInt8 → Option ((type : Descriptor) × Message type)
  parseFromString : {type : Descriptor} → Message type → List UInt8 → Message type
  parseFromZeroCopyStream : {type : Descriptor} → Message type → List UInt8 → Message type
  serializeAsString : {type : Descriptor} → Message type → List UInt8
  serializeToZeroCopyStream : {type : Descriptor} → Message type → Option (List UInt8)

/-! ## The stack -/

/-- What Lua makes of values: also what it finds in them, metamethods included, and how long it takes them to be. -/
structure LuaApi extends LuaCoercions where
  getField : LuaValue → FieldName → Option LuaValue
  rawLen : LuaValue → Nat

abbrev LuaStack (α : Type) := Program LuaValue α

namespace LuaStack

/-- The value at an index: from the bottom, or from the top. -/
def index (idx : Int) (stack : List LuaValue) : Option LuaValue :=
  if 0 < idx then stack.reverse[idx.toNat - 1]? else if idx < 0 then stack[(-idx).toNat - 1]? else none

def valueAt (idx : Int) : LuaStack LuaValue := fun stack => (index idx stack).map fun value => (value, stack)

/-- `lua_settop`: an index from the bottom is the height afterwards. -/
def setTop (limit : Nat) (idx : Int) : LuaStack Unit := fun stack =>
  if 0 ≤ idx then
    if idx.toNat ≤ limit then
      some ((), List.replicate (idx.toNat - stack.length) .nil ++ stack.drop (stack.length - idx.toNat))
    else none
  else if (-idx).toNat ≤ stack.length + 1 then some ((), stack.drop ((-idx).toNat - 1))
  else none

/-- `lua_pop`. -/
def pop (limit : Nat) (n : Int) : LuaStack Unit := setTop limit (-n - 1)

/-- `lua_rawset(L, -3)`; and `lua_settable(L, -3)`, as the table has no metatable. -/
def rawSet : LuaStack Unit := fun stack =>
  match stack with
  | value :: key :: .table entries :: stack => key.key.map fun key => ((), .table (LuaValue.set key value entries) :: stack)
  | _ => none

/-- `lua_tostring` turns a number into a string, where it lies. -/
def convertTop (lua : LuaApi) : LuaStack Unit := fun stack =>
  match stack with
  | .integer n :: stack   => some ((), .string (lua.toText (.integer n)) :: stack)
  | .number bits :: stack => some ((), .string (lua.toText (.number bits)) :: stack)
  | stack                 => some ((), stack)

variable (limit : Nat)

/-! ## To Lua -/

section

variable (ref : Reflection)

/-- An element of the array on top, behind `element.2` others. -/
def setElement {α : Type} (pushElement : α → LuaStack Unit) (element : α × Nat) : LuaStack Unit := do
  push limit (.integer (IntType.int64.wrap (element.2 + 1 : Nat)))
  pushElement element.1
  rawSet

/-- The array of a repeated field. -/
def pushArray {α : Type} (elements : List α) (pushElement : α → LuaStack Unit) : LuaStack Unit := do
  push limit (.table [])
  elements.zipIdx.forM (setElement limit pushElement)

/-- A field of the table on top; `newTable` is the call of `protobuf_new_table` inside. -/
def setField (newTable : {type : ref.Descriptor} → ref.Message type → LuaStack Unit) {M : Type} (msg : M)
    (fd : FieldDescriptor ref.Message M) : LuaStack Unit := do
  push limit (.string fd.name)
  (match fd with
    | .scalar _ t get _          => push limit (t.push (get msg))
    | .message _ _ get _ _       => newTable (get msg)
    | .scalars _ t elements _    => pushArray limit (elements msg).val fun element => push limit (t.push element)
    | .messages _ _ elements _ _ => pushArray limit (elements msg).val fun element => newTable element)
  rawSet

/-- `protobuf_new_table`. -/
def protobufNewTable : Nat → {type : ref.Descriptor} → ref.Message type → LuaStack Unit
  | 0,         _,    _   => stuck
  | depth + 1, type, msg => do
    push limit (.table [])
    (ref.fields type).forM (setField limit ref (protobufNewTable depth) msg)

end

/-! ## From Lua -/

section

variable (ref : Reflection) (lua : LuaApi)

/-- What is found in the value on top. -/
def pushFound (find : LuaValue → Option LuaValue) : LuaStack Unit := do
  let value ← valueAt (-1)
  let found ← ofOption (find value)
  push limit found

/-- `lua_getfield(L, -1, name)`. -/
def getField (name : FieldName) : LuaStack Unit := pushFound limit fun value => lua.getField value name

/-- `lua_rawgeti(L, -1, i)`. -/
def rawGetI (i : Nat) : LuaStack Unit := pushFound limit fun value => luaRawGetI value i

/-- The value on top, as the argument of a setter. -/
def readTop (type : CppType) : LuaStack type.Val := do
  let value ← valueAt (-1)
  let read ← ofOption (type.read lua.toLuaCoercions value)
  (if type = .string then convertTop lua else pure ())
  return read

/-- The indices of the loop over an array. -/
def indices (array : LuaValue) : List Nat := List.range' 1 ((IntType.int32.wrap (lua.rawLen array)).val.toNat - 1)

/-- The loop over the elements of the array on top. -/
def forElements {M : Type} (readElement : M → LuaStack M) (msg : M) : LuaStack M := do
  let array ← valueAt (-1)
  (indices lua array).foldlM (fun msg i => do
    rawGetI limit i
    let msg ← readElement msg
    pop limit 1
    return msg) msg

/-- `fill_lua_table` with the value at its index. -/
def fillValue : Nat → {type : ref.Descriptor} → ref.Message type → LuaValue → LuaStack (ref.Message type)
  | 0,         _,    _,   _     => stuck
  | depth + 1, type, msg, value => do
    push limit value
    let msg ← (ref.fields type).foldlM (fun msg fd => do
      getField limit lua fd.name
      let msg ← (match fd with
        -- `AddUInt32` and `AddUInt64` of a singular field are fatal
        | .scalar _ .uint32 _ _ | .scalar _ .uint64 _ _ => stuck
        | .scalar _ .enum _ _                           => pure msg
        | .scalar _ t _ set                             => set msg <$> readTop lua t
        | .message _ _ _ mutableMessage put             =>
          put msg <$> (valueAt (-1) >>= fillValue depth (mutableMessage msg))
        | .scalars _ .enum _ _                          => forElements limit lua pure msg
        | .scalars _ t _ add                            => forElements limit lua (fun msg => add msg <$> readTop lua t) msg
        | .messages _ _ _ added put                     =>
          forElements limit lua (fun msg => put msg <$> (valueAt (-1) >>= fillValue depth added)) msg)
      pop limit 1
      return msg) msg
    pop limit 1
    return msg

/-- `fill_lua_table`. -/
def fillLuaTable (depth : Nat) (idx : Int) {type : ref.Descriptor} (msg : ref.Message type) : LuaStack (ref.Message type) :=
  valueAt idx >>= fillValue limit ref lua depth msg

end

/-! ## One operation -/

section

variable {limit : Nat} {more : List LuaValue}

/-- What is done with the value on top. -/
theorem valueAt_bind {β : Type} {value : LuaValue} {f : LuaValue → LuaStack β} {room : Nat → Prop}
    {post : β → List LuaValue → Prop} (hf : Triple limit (value :: more) (f value) room post) :
    Triple limit (value :: more) (valueAt (-1) >>= f) room post := by
  have htop : Triple limit (value :: more) (valueAt (-1)) (fun _ => True) fun a top => a = value ∧ top = value :: more :=
    .of_eq fun _ => rfl
  exact htop.after fun _ _ h => h.1 ▸ h.2 ▸ hf

theorem pop_one (value : LuaValue) (stack : List LuaValue) : pop limit 1 (value :: stack) = some ((), stack) := by
  have hheight : (-(-1 - 1) : Int).toNat ≤ (value :: stack).length + 1 := by
    rw [List.length_cons]
    omega
  unfold pop setTop
  rw [if_neg (by decide), if_pos hheight]
  rfl

theorem pop_top (value : LuaValue) :
    Triple limit (value :: more) (pop limit 1) (fun _ => True) fun _ top => top = more :=
  (Triple.of_eq fun rest => pop_one value (more ++ rest)).weaken fun _ _ h => h.2

/-- Nothing lies there but a table. -/
def IsTable (top : List LuaValue) : Prop := ∃ entries, top = [.table entries]

theorem rawSet_top {key key' : LuaValue} (hkey : key.key = some key') (value : LuaValue) {table : List LuaValue}
    (htable : IsTable table) : Triple limit (value :: key :: table) rawSet (fun _ => True) fun _ => IsTable := by
  obtain ⟨entries, rfl⟩ := htable
  have hset : ∀ rest, rawSet ([value, key, .table entries] ++ rest)
      = some ((), [.table (LuaValue.set key' value entries)] ++ rest) := by
    intro rest
    change key.key.map _ = _
    rw [hkey]
    rfl
  exact (Triple.of_eq hset).weaken fun _ _ h => ⟨_, h.2⟩

theorem convertTop_top (lua : LuaApi) (value : LuaValue) :
    Triple limit (value :: more) (convertTop lua) (fun _ => True) fun _ top => ∃ value, top = value :: more := by
  have hconvert : ∃ value', ∀ rest, convertTop lua (value :: more ++ rest) = some ((), value' :: more ++ rest) := by
    cases value with
    | integer n   => exact ⟨_, fun _ => rfl⟩
    | number bits => exact ⟨_, fun _ => rfl⟩
    | _           => exact ⟨_, fun _ => rfl⟩
  obtain ⟨value', hconvert⟩ := hconvert
  exact (Triple.of_eq hconvert).weaken fun _ _ h => ⟨value', h.2⟩

/-- What is found in the value on top, and a continuation whose room depends on it. -/
theorem pushFound_bind {β : Type} {find : LuaValue → Option LuaValue} {value : LuaValue} {k : LuaStack β}
    {room : LuaValue → Nat → Prop} {post : β → List LuaValue → Prop}
    (hk : ∀ found, find value = some found → Triple limit (found :: value :: more) k (room found) post) :
    Triple limit (value :: more) (pushFound limit find >>= fun _ => k)
      (fun n => ∃ found, find value = some found ∧ more.length + 1 < n ∧ room found n) post := by
  rw [pushFound, bind_assoc]
  refine valueAt_bind ?_
  rw [bind_assoc]
  exact Triple.ofOption_bind fun found hfound => (Triple.push found).bind fun _ _ htop => htop ▸ hk found hfound

theorem readTop_top (lua : LuaApi) (type : CppType) (value : LuaValue) :
    Triple limit (value :: more) (readTop lua type) (fun _ => ∃ read, type.read lua.toLuaCoercions value = some read)
      fun _ top => ∃ value, top = value :: more := by
  have hconvert : Triple limit (value :: more) (if type = .string then convertTop lua else pure ()) (fun _ => True)
      fun _ top => ∃ value, top = value :: more := by
    split
    · exact convertTop_top lua value
    · exact (Triple.pure ()).weaken fun _ _ h => ⟨value, h.2⟩
  refine valueAt_bind ?_
  refine Triple.ofOption_const fun read _ => ?_
  exact hconvert.after fun _ _ htop => (Triple.pure read).weaken fun _ _ h => h.2 ▸ htop

end

/-! ## The table of a message -/

section

variable {limit : Nat} {ref : Reflection}

/-- Nothing lies there but what was pushed. -/
def Pushed (top : List LuaValue) : Prop := ∃ value, top = [value]

/-- In `n` slots and `depth` calls there is room for the table of a message: for it, for each key above it and the value
above that; and for an array, the index and the element above that. -/
def Fits (ref : Reflection) : Nat → {type : ref.Descriptor} → ref.Message type → Nat → Prop
  | 0,         _,    _,   _ => False
  | depth + 1, type, msg, n => 0 < n ∧ ∀ fd ∈ ref.fields type, 1 < n ∧
    match fd with
    | .scalar ..                 => 2 < n
    | .message _ _ get _ _       => Fits ref depth (get msg) (n - 2)
    | .scalars _ _ elements _    => 2 < n ∧ ((elements msg).val ≠ [] → 4 < n)
    | .messages _ _ elements _ _ => 2 < n ∧ ∀ element ∈ (elements msg).val, 3 < n ∧ Fits ref depth element (n - 4)

/-- Calls inside one another take slots: where there are as many calls as slots, more of them do not help. -/
theorem fits_of_le : ∀ {depth' depth n : Nat} {type : ref.Descriptor} {msg : ref.Message type}, n ≤ depth →
    Fits ref depth' msg n → Fits ref depth msg n
  | 0,          _,         _, _, _, _,      h => h.elim
  | _ + 1,      0,         n, _, _, hdepth, h => absurd h.1 (Nat.not_lt.2 hdepth)
  | depth' + 1, depth + 1, n, _, _, hdepth, h => by
    refine ⟨h.1, fun fd hfd => ⟨(h.2 fd hfd).1, ?_⟩⟩
    have hfield := (h.2 fd hfd).2
    cases fd with
    | scalar   => exact hfield
    | message  => exact fits_of_le (by omega) hfield
    | scalars  => exact hfield
    | messages =>
      exact ⟨hfield.1, fun element helement => ⟨(hfield.2 element helement).1, fits_of_le (by omega) (hfield.2 element helement).2⟩⟩

/-- A key, a value and the assignment. -/
theorem assign {key key' : LuaValue} (hkey : key.key = some key') {m : LuaStack Unit} {room : Nat → Prop}
    (hm : Triple limit [] m room fun _ => Pushed) {table : List LuaValue} (htable : IsTable table) :
    Triple limit table (do push limit key; m; rawSet) (fun n => 1 < n ∧ room (n - 2)) fun _ => IsTable := by
  obtain ⟨entries, rfl⟩ := htable
  refine (Triple.push key).bind fun _ _ htop => ?_
  subst htop
  refine (hm.frame [key, .table entries]).before fun _ _ htop => ?_
  obtain ⟨_, ⟨value, rfl⟩, rfl⟩ := htop
  exact rawSet_top hkey value ⟨entries, rfl⟩

theorem push_pushed (value : LuaValue) : Triple limit [] (push limit value) (fun n => 0 < n) fun _ => Pushed :=
  (Triple.push value).weaken fun _ _ h => ⟨value, h⟩

/-- A table, and a loop each of whose rounds sets a key of it. -/
theorem table_pushed {ι : Type} {l : List ι} {f : ι → LuaStack Unit} {room : ι → Nat → Prop}
    (hf : ∀ x ∈ l, ∀ top, IsTable top → Triple limit top (f x) (room x) fun _ => IsTable) :
    Triple limit [] (do push limit (.table []); l.forM f) (fun n => 0 < n ∧ ∀ x ∈ l, room x n) fun _ => Pushed := by
  refine (Triple.push (LuaValue.table [])).bind fun _ top htop => ?_
  exact (Triple.forM hf top ⟨[], htop⟩).weaken fun _ _ ⟨entries, h⟩ => ⟨.table entries, h⟩

theorem pushArray_pushed {α : Type} (elements : List α) {pushElement : α → LuaStack Unit} {room : α → Nat → Prop}
    (h : ∀ element, Triple limit [] (pushElement element) (room element) fun _ => Pushed) :
    Triple limit [] (pushArray limit elements pushElement)
      (fun n => 0 < n ∧ ∀ element ∈ elements, 1 < n ∧ room element (n - 2)) fun _ => Pushed := by
  refine (table_pushed fun element _ top htop => assign rfl (h element.1) htop).of_iff fun n => ?_
  refine and_congr_right fun _ => ?_
  conv_lhs => rw [← List.zipIdx_map_fst 0 elements, List.forall_mem_map]

/-- **`protobuf_new_table` returns exactly if the table fits, and leaves the table and nothing else.** -/
theorem protobufNewTable_pushed : ∀ (depth : Nat) {type : ref.Descriptor} (msg : ref.Message type),
    Triple limit [] (protobufNewTable limit ref depth msg) (Fits ref depth msg) fun _ => Pushed
  | 0,         _,    _   => .stuck
  | depth + 1, type, msg => by
    have hnested {type : ref.Descriptor} (msg : ref.Message type) := protobufNewTable_pushed depth msg
    refine table_pushed fun fd _ top htop => ?_
    cases fd with
    | scalar name t get set            =>
      refine (assign rfl (push_pushed _) htop).of_iff fun n => and_congr_right fun _ => ?_
      exact Nat.sub_pos_iff_lt.symm
    | message name _ get _ _           => exact assign rfl (hnested (get msg)) htop
    | scalars name t elements add      =>
      refine (assign rfl (pushArray_pushed _ fun _ => push_pushed _) htop).of_iff fun n => and_congr_right fun _ => ?_
      refine and_congr Nat.sub_pos_iff_lt.symm ⟨fun h element helement => ?_, fun h hne => ?_⟩
      · have := h (List.ne_nil_of_mem helement)
        exact ⟨Nat.lt_sub_of_add_lt (Nat.lt_of_succ_lt this), Nat.sub_pos_of_lt (Nat.lt_sub_of_add_lt this)⟩
      · obtain ⟨element, helement⟩ := List.exists_mem_of_ne_nil _ hne
        have := (h element helement).2
        omega
    | messages name _ elements added _ =>
      refine (assign rfl (pushArray_pushed _ hnested) htop).of_iff fun n => and_congr_right fun _ => ?_
      refine and_congr Nat.sub_pos_iff_lt.symm (forall₂_congr fun element _ => and_congr_left fun _ => ?_)
      omega

end

/-! ## The message of a table -/

section

variable {limit : Nat} {ref : Reflection} {lua : LuaApi}

/-- A field is found in a value, above its copy in the first of `n` slots: a string or a number for a singular one, which is
not unsigned, and the elements of a repeated one above it; `readable` is said of the messages inside. -/
def ReadableField (ref : Reflection) (lua : LuaApi) (readable : ref.Descriptor → LuaValue → Nat → Prop) (value : LuaValue)
    (n : Nat) {M : Type} (fd : FieldDescriptor ref.Message M) : Prop :=
  ∃ found, lua.getField value fd.name = some found ∧ 1 < n ∧
    match fd with
    | .scalar _ t _ _        => t ≠ .uint32 ∧ t ≠ .uint64 ∧ (t = .enum ∨ ∃ read, t.read lua.toLuaCoercions found = some read)
    | .message _ type _ _ _  => readable type found (n - 2)
    | .scalars _ t _ _       => ∀ i ∈ indices lua found, ∃ element, luaRawGetI found i = some element ∧ 2 < n ∧
        (t = .enum ∨ ∃ read, t.read lua.toLuaCoercions element = some read)
    | .messages _ type _ _ _ => ∀ i ∈ indices lua found, ∃ element, luaRawGetI found i = some element ∧ 2 < n ∧
        readable type element (n - 3)

/-- In `n` slots and `depth` calls a value can be read as a message of the type. -/
def Readable (ref : Reflection) (lua : LuaApi) : Nat → ref.Descriptor → LuaValue → Nat → Prop
  | 0,         _,    _,     _ => False
  | depth + 1, type, value, n => 0 < n ∧ ∀ fd ∈ ref.fields type, ReadableField ref lua (Readable ref lua depth) value n fd

theorem readable_of_le : ∀ {depth' depth n : Nat} {type : ref.Descriptor} {value : LuaValue}, n ≤ depth →
    Readable ref lua depth' type value n → Readable ref lua depth type value n
  | 0,          _,         _, _, _, _,      h => h.elim
  | _ + 1,      0,         n, _, _, hdepth, h => absurd h.1 (Nat.not_lt.2 hdepth)
  | depth' + 1, depth + 1, n, _, _, hdepth, h => by
    refine ⟨h.1, fun fd hfd => ?_⟩
    obtain ⟨found, hfound, hslot, hfield⟩ := h.2 fd hfd
    refine ⟨found, hfound, hslot, ?_⟩
    cases fd with
    | scalar   => exact hfield
    | message  => exact readable_of_le (by omega) hfield
    | scalars  => exact hfield
    | messages =>
      intro i hi
      obtain ⟨element, helement, hslots, hreadable⟩ := hfield i hi
      exact ⟨element, helement, hslots, readable_of_le (by omega) hreadable⟩

/-- One value lies above `more`. -/
def Above (more top : List LuaValue) : Prop := ∃ value, top = value :: more

/-- What is found in the value on top, what is done with it, and the end of it. -/
theorem field_top {M : Type} {more : List LuaValue} {find : LuaValue → Option LuaValue} {value : LuaValue}
    {body : LuaStack M} {room : LuaValue → Nat → Prop}
    (hbody : ∀ found, Triple limit (found :: value :: more) body (room found) fun _ => Above (value :: more)) :
    Triple limit (value :: more)
      (do pushFound limit find; let msg ← body; pop limit 1; return msg)
      (fun n => ∃ found, find value = some found ∧ more.length + 1 < n ∧ room found n) fun _ top => top = value :: more := by
  refine pushFound_bind fun found _ => (hbody found).before fun msg _ htop => ?_
  obtain ⟨value', rfl⟩ := htop
  exact (pop_top value').after fun _ _ htop => (Triple.pure msg).weaken fun _ _ h => h.2.trans htop

theorem forElements_top {M : Type} {more : List LuaValue} {readElement : M → LuaStack M} {array : LuaValue}
    {room : LuaValue → Nat → Prop}
    (helement : ∀ msg element, Triple limit (element :: array :: more) (readElement msg) (room element)
      fun _ => Above (array :: more)) (msg : M) :
    Triple limit (array :: more) (forElements limit lua readElement msg)
      (fun n => ∀ i ∈ indices lua array, ∃ element, luaRawGetI array i = some element ∧ more.length + 1 < n ∧ room element n)
      fun _ => Above more := by
  refine valueAt_bind ?_
  refine (Triple.foldlM_same (fun i _ msg => ?_) msg).weaken fun _ _ h => ⟨array, h⟩
  exact field_top fun element => helement msg element

/-- A call inside, on what lies on top. -/
theorem fillTop {N M : Type} {fill : LuaValue → LuaStack N} {value : LuaValue} {room : Nat → Prop}
    (hfill : Triple limit [] (fill value) room fun _ top => top = []) (put : N → M) (more : List LuaValue) :
    Triple limit (value :: more) (put <$> (valueAt (-1) >>= fill)) (fun n => room (n - (more.length + 1))) fun _ =>
      Above more := by
  refine (valueAt_bind (hfill.frame (value :: more))).map fun _ _ htop => ?_
  obtain ⟨_, rfl, rfl⟩ := htop
  exact ⟨value, rfl⟩

/-- The value on top as the argument of a setter, but for an enumeration. -/
theorem set_readTop {M : Type} {t : CppType} (ht : t ≠ .enum) (set : t.Val → M) (value : LuaValue) (more : List LuaValue) :
    Triple limit (value :: more) (set <$> readTop lua t)
      (fun _ => t = .enum ∨ ∃ read, t.read lua.toLuaCoercions value = some read) fun _ => Above more :=
  ((readTop_top lua t value).map fun _ _ htop => htop).of_iff fun _ => or_iff_right ht

theorem pure_top {M : Type} (msg : M) (value : LuaValue) (more : List LuaValue) :
    Triple limit (value :: more) (pure msg : LuaStack M) (fun _ => True) fun _ => Above more :=
  (Triple.pure msg).weaken fun _ _ h => ⟨value, h.2⟩

/-- **`fill_lua_table` returns exactly if the value can be read, and leaves the stack as it was.** -/
theorem fillValue_kept : ∀ (depth : Nat) {type : ref.Descriptor} (msg : ref.Message type) (value : LuaValue),
    Triple limit [] (fillValue limit ref lua depth msg value) (Readable ref lua depth type value) fun _ top => top = []
  | 0,         _,    _,   _     => .stuck
  | depth + 1, type, msg, value => by
    have hnested {type : ref.Descriptor} (msg : ref.Message type) (value : LuaValue) := fillValue_kept depth msg value
    refine (Triple.push value).bind fun _ _ htop => ?_
    subst htop
    refine (Triple.foldlM_same (fun fd _ msg => ?_) msg).before fun msg _ htop => ?_
    · refine field_top fun found => ?_
      cases fd with
      | scalar name t get set            =>
        cases t with
        | uint32 => exact Triple.stuck.of_iff fun _ => by simp
        | uint64 => exact Triple.stuck.of_iff fun _ => by simp
        | enum   => exact (pure_top msg found [value]).of_iff fun _ => by simp
        | _      => exact (set_readTop (by decide) (set msg) found [value]).of_iff fun _ => by simp
      | message name _ get mutable put   => exact fillTop (hnested (mutable msg) found) (put msg) [value]
      | scalars name t elements add      =>
        cases t with
        | enum => exact forElements_top (fun msg element => (pure_top msg element _).of_iff fun _ => by simp) msg
        | _    => exact forElements_top (fun msg element => set_readTop (by decide) (add msg) element _) msg
      | messages name _ elements added put =>
        exact forElements_top (fun msg element => fillTop (hnested added element) (put msg) _) msg
    · subst htop
      exact (pop_top value).after fun _ _ htop => (Triple.pure msg).weaken fun _ _ h => h.2.trans htop

end

end LuaStack

end Gb
