import GbServer.ProtobufStack
/-!
# ScriptStack — what `Script` leaves on the Lua stack

`ProtobufTransTable`, `TableTransProtobuf`, `ProtoDecode` and `ProtoEncode` (`script.cpp`) around the two converters.  sol is
a library: what it is relied on for are the laws of `Sol.Documented`.
-/
namespace Gb

open StackProgram (Triple ofOption push)
open Msgpack (LuaValue IntType)
open LuaStack (pop Fits Readable Pushed)

/-- What `Script` calls of sol: it refers to Lua values from elsewhere, and moves them to the stack and from it. -/
structure Sol where
  makeObject : LuaValue → LuaStack LuaValue
  push : LuaValue → LuaStack Unit
  /-- `sol::table table(L)`. -/
  table : LuaStack LuaValue
  popN : Int → LuaStack Unit

/-- An object and a table are references, and nothing of them is on the stack; what a table is made from is on top and
stays there; the pops are those of Lua. -/
structure Sol.Documented (sol : Sol) (limit : Nat) : Prop where
  makeObject : ∀ value stack object t, sol.makeObject value stack = some (object, t) → object = value ∧ t = stack
  push : ∀ value, sol.push value = StackProgram.push limit value
  table : ∀ value stack object t, sol.table (value :: stack) = some (object, t) → object = value ∧ t = value :: stack
  popN : ∀ n, sol.popN n = pop limit n

namespace Script

variable (depth limit : Nat) (ref : Reflection) (lua : LuaApi) (sol : Sol)

def protobufTransTable {type : ref.Descriptor} (msg : ref.Message type) : LuaStack LuaValue := do
  LuaStack.protobufNewTable limit ref depth msg
  sol.table

/-- `TableTransProtobuf`: `traverse_message` reads the message and does nothing. -/
def tableTransProtobuf (protoName : List UInt8) (table : LuaValue) :
    LuaStack ((type : ref.Descriptor) × ref.Message type) := do
  let obj ← sol.makeObject table
  sol.push obj
  -- a null message is dereferenced in `fill_lua_table`
  let msg ← ofOption (ref.createMessage protoName)
  let msg ← (fun filled => ⟨msg.1, filled⟩) <$> LuaStack.fillLuaTable limit ref lua depth (-1) msg.2
  sol.popN (-1)
  return msg

/-- `ProtoDecode`: of a string, which is handed on as a C string. -/
def protoDecode (proto data : List UInt8) : LuaStack LuaValue := do
  let msg ← ofOption (ref.createMessage proto)
  protobufTransTable depth limit ref sol (ref.parseFromString msg.2 (cString data))

/-- `ProtoDecode`: of a buffer, by its bytes. -/
def protoDecodeBuffer (proto buffer : List UInt8) : LuaStack LuaValue := do
  let msg ← ofOption (ref.createMessage proto)
  protobufTransTable depth limit ref sol (ref.parseFromZeroCopyStream msg.2 buffer)

def protoEncodeToString (proto : List UInt8) (table : LuaValue) : LuaStack (List UInt8) := do
  let msg ← tableTransProtobuf depth limit ref lua sol proto table
  return ref.serializeAsString msg.2

/-- `ProtoEncode`: the bytes of the buffer; `none` is a null pointer. -/
def protoEncode (proto : List UInt8) (table : LuaValue) : LuaStack (Option (List UInt8)) := do
  let msg ← tableTransProtobuf depth limit ref lua sol proto table
  return ref.serializeToZeroCopyStream msg.2

end Script

/-! ## Heights -/

section

variable {limit : Nat} {ref : Reflection} {lua : LuaApi} {sol : Sol} {α β : Type}

/-- A call returns, and leaves the stack `t`. -/
def Leaves (m : LuaStack α) (stack t : List LuaValue) : Prop := ∃ a, m stack = some (a, t)

theorem leaves_bind {m : LuaStack α} {f : α → LuaStack β} {stack t : List LuaValue} :
    Leaves (m >>= f) stack t ↔ ∃ a r, m stack = some (a, r) ∧ Leaves (f a) r t := by
  constructor
  · rintro ⟨b, h⟩
    obtain ⟨a, r, hm, hf⟩ := StackProgram.bind_eq_some h
    exact ⟨a, r, hm, b, hf⟩
  · rintro ⟨a, r, hm, b, hf⟩
    exact ⟨b, (StackProgram.bind_of_some hm).trans hf⟩

/-- What is done with a result leaves the stack as it is. -/
theorem leaves_bind_pure {m : LuaStack α} (f : α → β) {stack t : List LuaValue} :
    Leaves (m >>= fun a => pure (f a)) stack t ↔ Leaves m stack t := by
  rw [leaves_bind]
  constructor
  · rintro ⟨a, r, hm, b, hb⟩
    cases hb
    exact ⟨a, hm⟩
  · rintro ⟨a, hm⟩
    exact ⟨a, t, hm, f a, rfl⟩

/-- A triple about a whole stack. -/
theorem leaves_of_triple {pre : List LuaValue} {m : LuaStack α} {room : Nat → Prop} {post : α → List LuaValue → Prop}
    (h : Triple limit pre m room post) (stack : List LuaValue) :
    ((∃ t, Leaves m (pre ++ stack) t) ↔ room (limit - stack.length)) ∧
      ∀ t, Leaves m (pre ++ stack) t → ∃ a top, post a top ∧ t = top ++ stack := by
  refine ⟨⟨?_, fun hroom => ?_⟩, ?_⟩
  · rintro ⟨t, a, hm⟩
    exact (h.returned stack a t hm).1
  · obtain ⟨a, t, hm⟩ := h.returns stack hroom
    exact ⟨t, a, hm⟩
  · rintro t ⟨a, hm⟩
    exact ⟨a, (h.returned stack a t hm).2⟩

variable (depth : Nat)

/-- `protobuf_new_table` leaves one value on what was there, and returns exactly if there is room. -/
theorem protobufNewTable_leaves {type : ref.Descriptor} (msg : ref.Message type) (stack : List LuaValue) :
    ((∃ value, Leaves (LuaStack.protobufNewTable limit ref depth msg) stack (value :: stack)) ↔
      Fits ref depth msg (limit - stack.length)) ∧
    ∀ t, Leaves (LuaStack.protobufNewTable limit ref depth msg) stack t → ∃ value, t = value :: stack := by
  have htable : Triple limit [] (LuaStack.protobufNewTable limit ref depth msg) _ _ := LuaStack.protobufNewTable_pushed depth msg
  obtain ⟨hreturns, hleaves⟩ := leaves_of_triple htable stack
  have hpushed : ∀ t, Leaves (LuaStack.protobufNewTable limit ref depth msg) stack t → ∃ value, t = value :: stack := by
    intro t h
    obtain ⟨_, _, ⟨value, rfl⟩, rfl⟩ := hleaves t h
    exact ⟨value, rfl⟩
  refine ⟨⟨fun ⟨value, h⟩ => hreturns.1 ⟨_, h⟩, fun hfits => ?_⟩, hpushed⟩
  obtain ⟨t, h⟩ := hreturns.2 hfits
  obtain ⟨value, rfl⟩ := hpushed t h
  exact ⟨value, h⟩

/-- As many calls inside one another as free slots are enough. -/
theorem protobufNewTable_of_le {depth' : Nat} {type : ref.Descriptor} {msg : ref.Message type} {stack : List LuaValue}
    (hdepth : limit - stack.length ≤ depth)
    (h : ∃ value, Leaves (LuaStack.protobufNewTable limit ref depth' msg) stack (value :: stack)) :
    ∃ value, Leaves (LuaStack.protobufNewTable limit ref depth msg) stack (value :: stack) := by
  have hfits := (protobufNewTable_leaves depth' msg stack).1.1 h
  exact (protobufNewTable_leaves depth msg stack).1.2 (LuaStack.fits_of_le hdepth hfits)

/-- `fill_lua_table` leaves what was there, and returns exactly if there is a value at the index that can be read. -/
theorem fillLuaTable_leaves (idx : Int) {type : ref.Descriptor} (msg : ref.Message type) (stack : List LuaValue) :
    (Leaves (LuaStack.fillLuaTable limit ref lua depth idx msg) stack stack ↔
      ∃ value, LuaStack.index idx stack = some value ∧ Readable ref lua depth type value (limit - stack.length)) ∧
    ∀ t, Leaves (LuaStack.fillLuaTable limit ref lua depth idx msg) stack t → t = stack := by
  have hvalue : ∀ value, Triple limit [] (LuaStack.fillValue limit ref lua depth msg value) _ _ := LuaStack.fillValue_kept depth msg
  have hfill := fun value => leaves_of_triple (hvalue value) stack
  have hkept : ∀ value t, Leaves (LuaStack.fillValue limit ref lua depth msg value) stack t → t = stack := by
    intro value t h
    obtain ⟨_, _, rfl, rfl⟩ := (hfill value).2 t h
    rfl
  have hindexed : ∀ {t}, Leaves (LuaStack.fillLuaTable limit ref lua depth idx msg) stack t ↔
      ∃ value, LuaStack.index idx stack = some value ∧ Leaves (LuaStack.fillValue limit ref lua depth msg value) stack t := by
    intro t
    rw [LuaStack.fillLuaTable, leaves_bind]
    constructor
    · rintro ⟨value, r, hindex, hleaves⟩
      obtain ⟨_, hvalue, hr⟩ := Option.map_eq_some_iff.1 hindex
      cases hr
      exact ⟨value, hvalue, hleaves⟩
    · rintro ⟨value, hindex, hleaves⟩
      exact ⟨value, stack, Option.map_eq_some_iff.2 ⟨value, hindex, rfl⟩, hleaves⟩
  refine ⟨?_, fun t h => ?_⟩
  · rw [hindexed]
    refine exists_congr fun value => and_congr_right fun _ => ⟨fun h => (hfill value).1.1 ⟨stack, h⟩, fun h => ?_⟩
    obtain ⟨t, ht⟩ := (hfill value).1.2 h
    exact hkept value t ht ▸ ht
  · obtain ⟨value, _, ht⟩ := hindexed.1 h
    exact hkept value t ht

/-- `lua_pop(L, -1)` is `lua_settop(L, 0)`. -/
theorem pop_neg_one (stack : List LuaValue) : pop limit (-1) stack = some ((), []) := by
  change LuaStack.setTop limit 0 stack = some ((), [])
  simp [LuaStack.setTop]

theorem leaves_push_bind {value : LuaValue} {f : Unit → LuaStack β} {stack t : List LuaValue} :
    Leaves (push limit value >>= f) stack t ↔ stack.length < limit ∧ Leaves (f ()) (value :: stack) t := by
  rw [leaves_bind]
  constructor
  · rintro ⟨_, r, hpush, h⟩
    unfold push at hpush
    split at hpush
    · rename_i hlt
      cases hpush
      exact ⟨hlt, h⟩
    · cases hpush
  · rintro ⟨hlt, h⟩
    exact ⟨(), value :: stack, if_pos hlt, h⟩

theorem leaves_ofOption_bind {value : Option α} {f : α → LuaStack β} {stack t : List LuaValue} :
    Leaves (ofOption value >>= f) stack t ↔ ∃ a, value = some a ∧ Leaves (f a) stack t := by
  rw [leaves_bind]
  constructor
  · rintro ⟨a, r, hvalue, h⟩
    obtain ⟨_, ha, hr⟩ := Option.map_eq_some_iff.1 hvalue
    cases hr
    exact ⟨a, ha, h⟩
  · rintro ⟨a, hvalue, h⟩
    exact ⟨a, stack, Option.map_eq_some_iff.2 ⟨a, hvalue, rfl⟩, h⟩

/-- The object can be made, it has a slot, the name is that of a message type, and the table can be read as a message
of the type above that. -/
def Script.Encodes (depth limit : Nat) (ref : Reflection) (lua : LuaApi) (sol : Sol) (stack : List LuaValue)
    (protoName : List UInt8) (table : LuaValue) : Prop :=
  (∃ object, sol.makeObject table stack = some object) ∧ stack.length < limit ∧
    ∃ msg, ref.createMessage protoName = some msg ∧ Readable ref lua depth msg.1 table (limit - (stack.length + 1))

section

variable (hsol : sol.Documented limit)
include hsol

/-- The table stays on the stack. -/
theorem protobufTransTable_leaves {type : ref.Descriptor} {msg : ref.Message type} {stack t : List LuaValue}
    (h : Leaves (Script.protobufTransTable depth limit ref sol msg) stack t) : ∃ value, t = value :: stack := by
  obtain ⟨_, r, hnew, object, htable⟩ := leaves_bind.1 h
  obtain ⟨value, rfl⟩ := (protobufNewTable_leaves depth msg stack).2 r ⟨_, hnew⟩
  exact ⟨value, (hsol.table value stack object t htable).2⟩

theorem leaves_makeObject_bind {value : LuaValue} {f : LuaValue → LuaStack β} {stack t : List LuaValue} :
    Leaves (sol.makeObject value >>= f) stack t ↔
      (∃ object, sol.makeObject value stack = some object) ∧ Leaves (f value) stack t := by
  rw [leaves_bind]
  constructor
  · rintro ⟨object, r, hobject, h⟩
    obtain ⟨rfl, rfl⟩ := hsol.makeObject value stack object r hobject
    exact ⟨⟨_, hobject⟩, h⟩
  · rintro ⟨⟨⟨object, r⟩, hobject⟩, h⟩
    obtain ⟨rfl, rfl⟩ := hsol.makeObject value stack object r hobject
    exact ⟨object, r, hobject, h⟩

theorem leaves_popN_bind {f : Unit → β} {stack t : List LuaValue} :
    Leaves (sol.popN (-1) >>= fun r => pure (f r)) stack t ↔ t = [] := by
  rw [leaves_bind_pure, hsol.popN, Leaves]
  constructor
  · rintro ⟨_, h⟩
    rw [pop_neg_one] at h
    cases h
    rfl
  · rintro rfl
    exact ⟨(), pop_neg_one stack⟩

/-- The stack is left empty. -/
theorem tableTransProtobuf_leaves (protoName : List UInt8) (table : LuaValue) {stack t : List LuaValue} :
    Leaves (Script.tableTransProtobuf depth limit ref lua sol protoName table) stack t ↔
      t = [] ∧ Script.Encodes depth limit ref lua sol stack protoName table := by
  have hfilled : ∀ {type : ref.Descriptor} (msg : ref.Message type),
      Leaves (LuaStack.fillLuaTable limit ref lua depth (-1) msg >>= fun filled => do
        sol.popN (-1); return (⟨type, filled⟩ : (type : ref.Descriptor) × ref.Message type)) (table :: stack) t ↔
      t = [] ∧ Readable ref lua depth type table (limit - (stack.length + 1)) := by
    intro type msg
    obtain ⟨hfill, hkept⟩ : (Leaves (LuaStack.fillLuaTable limit ref lua depth (-1) msg) (table :: stack) _ ↔ _) ∧ _ :=
      fillLuaTable_leaves depth (-1) msg (table :: stack)
    rw [leaves_bind]
    constructor
    · rintro ⟨filled, r, hmsg, h⟩
      obtain rfl := hkept r ⟨filled, hmsg⟩
      obtain ⟨_, hindex, hreadable⟩ := hfill.1 ⟨filled, hmsg⟩
      cases hindex
      exact ⟨(leaves_popN_bind hsol).1 h, hreadable⟩
    · rintro ⟨ht, hreadable⟩
      obtain ⟨filled, hmsg⟩ := hfill.2 ⟨table, rfl, hreadable⟩
      exact ⟨filled, table :: stack, hmsg, (leaves_popN_bind hsol).2 ht⟩
  rw [Script.tableTransProtobuf, leaves_makeObject_bind hsol, hsol.push, leaves_push_bind, leaves_ofOption_bind]
  simp only [map_eq_pure_bind, bind_assoc, pure_bind, hfilled]
  constructor
  · rintro ⟨hobject, hlt, msg, hmsg, ht, hreadable⟩
    exact ⟨ht, hobject, hlt, msg, hmsg, hreadable⟩
  · rintro ⟨ht, hobject, hlt, msg, hmsg, hreadable⟩
    exact ⟨hobject, hlt, msg, hmsg, ht, hreadable⟩

/-- A caller's stack is left as it was exactly if it was empty, and the call returns. -/
theorem tableTransProtobuf_kept (protoName : List UInt8) (table : LuaValue) {stack : List LuaValue} :
    Leaves (Script.tableTransProtobuf depth limit ref lua sol protoName table) stack stack ↔
      stack = [] ∧ Script.Encodes depth limit ref lua sol stack protoName table :=
  tableTransProtobuf_leaves depth hsol protoName table

theorem tableTransProtobuf_of_le {depth' : Nat} {protoName : List UInt8} {table : LuaValue} {stack : List LuaValue}
    (hdepth : limit - (stack.length + 1) ≤ depth)
    (h : Leaves (Script.tableTransProtobuf depth' limit ref lua sol protoName table) stack []) :
    Leaves (Script.tableTransProtobuf depth limit ref lua sol protoName table) stack [] := by
  obtain ⟨-, hobject, hlt, msg, hmsg, hreadable⟩ := (tableTransProtobuf_leaves depth' hsol protoName table).1 h
  refine (tableTransProtobuf_leaves depth hsol protoName table).2 ⟨rfl, hobject, hlt, msg, hmsg, ?_⟩
  exact LuaStack.readable_of_le hdepth hreadable

theorem protoDecode_leaves {proto data : List UInt8} {stack t : List LuaValue}
    (h : Leaves (Script.protoDecode depth limit ref sol proto data) stack t) : ∃ value, t = value :: stack := by
  obtain ⟨msg, _, h⟩ := leaves_ofOption_bind.1 h
  exact protobufTransTable_leaves depth hsol h

theorem protoDecodeBuffer_leaves {proto buffer : List UInt8} {stack t : List LuaValue}
    (h : Leaves (Script.protoDecodeBuffer depth limit ref sol proto buffer) stack t) : ∃ value, t = value :: stack := by
  obtain ⟨msg, _, h⟩ := leaves_ofOption_bind.1 h
  exact protobufTransTable_leaves depth hsol h

end

/-- A call that leaves one value more does not leave the stack as it was. -/
theorem not_kept {m : LuaStack α} {stack : List LuaValue} (h : ∀ t, Leaves m stack t → ∃ value, t = value :: stack) :
    ¬Leaves m stack stack := by
  intro hkept
  obtain ⟨value, ht⟩ := h stack hkept
  exact List.cons_ne_self value stack ht.symm

end

/-- **`protobuf_new_table` leaves the stack one higher, and `fill_lua_table` as it was, exactly if they return.  The
functions of `Script` that make a table never leave it as it was: the table stays there.  Those that make a message leave
nothing on it, which is what was there only for a caller whose stack is empty.** -/
theorem script_stack_iff (depth limit : Nat) (ref : Reflection) (lua : LuaApi) (sol : Sol) (hsol : sol.Documented limit)
    (stack : List LuaValue) :
    (∀ (type : ref.Descriptor) (msg : ref.Message type),
      ((∃ value, Leaves (LuaStack.protobufNewTable limit ref depth msg) stack (value :: stack)) ↔
        Fits ref depth msg (limit - stack.length)) ∧
      ∀ t, Leaves (LuaStack.protobufNewTable limit ref depth msg) stack t → ∃ value, t = value :: stack) ∧
    (∀ (idx : Int) (type : ref.Descriptor) (msg : ref.Message type),
      (Leaves (LuaStack.fillLuaTable limit ref lua depth idx msg) stack stack ↔
        ∃ value, LuaStack.index idx stack = some value ∧ Readable ref lua depth type value (limit - stack.length)) ∧
      ∀ t, Leaves (LuaStack.fillLuaTable limit ref lua depth idx msg) stack t → t = stack) ∧
    (∀ (type : ref.Descriptor) (msg : ref.Message type),
      ¬Leaves (Script.protobufTransTable depth limit ref sol msg) stack stack) ∧
    (∀ proto data : List UInt8, ¬Leaves (Script.protoDecode depth limit ref sol proto data) stack stack ∧
      ¬Leaves (Script.protoDecodeBuffer depth limit ref sol proto data) stack stack) ∧
    ∀ (proto : List UInt8) (table : LuaValue),
      (Leaves (Script.tableTransProtobuf depth limit ref lua sol proto table) stack stack ↔
        stack = [] ∧ Script.Encodes depth limit ref lua sol stack proto table) ∧
      (Leaves (Script.protoEncodeToString depth limit ref lua sol proto table) stack stack ↔
        stack = [] ∧ Script.Encodes depth limit ref lua sol stack proto table) ∧
      (Leaves (Script.protoEncode depth limit ref lua sol proto table) stack stack ↔
        stack = [] ∧ Script.Encodes depth limit ref lua sol stack proto table) := by
  refine ⟨fun type msg => protobufNewTable_leaves depth msg stack, fun idx type msg => fillLuaTable_leaves depth idx msg stack,
    fun type msg => not_kept fun t => protobufTransTable_leaves depth hsol,
    fun proto data => ⟨not_kept fun t => protoDecode_leaves depth hsol, not_kept fun t => protoDecodeBuffer_leaves depth hsol⟩,
    fun proto table => ?_⟩
  have hkept : Leaves (Script.tableTransProtobuf depth limit ref lua sol proto table) stack stack ↔ _ :=
    tableTransProtobuf_kept depth hsol proto table
  exact ⟨hkept, (leaves_bind_pure _).trans hkept, (leaves_bind_pure _).trans hkept⟩

/-! ## Messages with a submessage and repeated fields -/

/-- The types of `message Item { int32 n = 1; }` and
`message Bag { Item f = 1; repeated Item r = 2; repeated int32 m = 3; }`. -/
inductive BagType
  | item
  | bag

structure Bag where
  first : IntType.int32.Val
  rest  : Repeated IntType.int32.Val
  marks : Repeated IntType.int32.Val

namespace BagType

def Message : BagType → Type
  | item => IntType.int32.Val
  | bag  => Bag

/-- No more elements than can be counted. -/
def add {α : Type} (elements : Repeated α) (element : α) : Repeated α :=
  if h : (elements.val ++ [element]).length < 2 ^ 31 then ⟨elements.val ++ [element], h⟩ else elements

def fields : (type : BagType) → List (FieldDescriptor Message type.Message)
  | item => [.scalar [0x6e] .int32 (fun msg => msg) fun _ n => n]
  | bag  => [
      .message [0x66] item (fun msg => msg.first) (fun msg => msg.first) fun msg first => { msg with first },
      .messages [0x72] item (fun msg => msg.rest) (IntType.int32.wrap 0) fun msg element =>
        { msg with rest := add msg.rest element },
      .scalars [0x6d] .int32 (fun msg => msg.marks) fun msg mark => { msg with marks := add msg.marks mark }]

end BagType

def bagReflection : Reflection where
  Descriptor := BagType
  Message := BagType.Message
  fields := BagType.fields
  createMessage := fun name =>
    if name = [0x49, 0x74, 0x65, 0x6d] then some ⟨.item, IntType.int32.wrap 0⟩
    else if name = [0x42, 0x61, 0x67] then some ⟨.bag, { first := IntType.int32.wrap 0, rest := .empty, marks := .empty }⟩
    else none
  parseFromString := fun msg _ => msg
  parseFromZeroCopyStream := fun msg _ => msg
  serializeAsString := fun _ => []
  serializeToZeroCopyStream := fun _ => some []

/-- `f {n: 1} r {n: 2} m: 3 m: 4`. -/
def bagMessage : bagReflection.Message .bag := Bag.mk (IntType.int32.wrap 1) ⟨[IntType.int32.wrap 2], by decide⟩
  ⟨[IntType.int32.wrap 3, IntType.int32.wrap 4], by decide⟩

/-- `{n = 1}`. -/
def itemTable (n : Int) : LuaValue := .table [(.string [0x6e], .integer (IntType.int64.wrap n))]

/-- `{x, y}`. -/
def arrayTable (x y : LuaValue) : LuaValue := .table [(.integer (IntType.int64.wrap 1), x), (.integer (IntType.int64.wrap 2), y)]

/-- `{f = {n = 1}, r = {{n = 2}, {n = 3}}, m = {4, 5}}`. -/
def bagTable : LuaValue := .table [
  (.string [0x66], itemTable 1),
  (.string [0x72], arrayTable (itemTable 2) (itemTable 3)),
  (.string [0x6d], arrayTable (.integer (IntType.int64.wrap 4)) (.integer (IntType.int64.wrap 5)))]

/-- Lua without metatables and without strings for numbers. -/
def plainLua : LuaApi where
  toNumber _ := .nil
  toText _ := []
  index _ _ := none
  getField value name :=
    match value with
    | .table entries => some (rawGet (.string name) entries)
    | _              => none
  rawLen := luaRawLen

/-- sol, on a Lua stack. -/
def plainSol (limit : Nat) : Sol where
  makeObject value := fun stack => some (value, stack)
  push value := push limit value
  table := LuaStack.valueAt (-1)
  popN := pop limit

theorem plainSol_documented (limit : Nat) : (plainSol limit).Documented limit where
  makeObject := fun value stack object t h => by
    cases h
    exact ⟨rfl, rfl⟩
  push := fun _ => rfl
  table := fun value stack object t h => by
    cases h
    exact ⟨rfl, rfl⟩
  popN := fun _ => rfl

/-- A caller with a value on its stack gets it back from `protobuf_new_table` below the table; one without has its stack
as it was after `TableTransProtobuf`. -/
theorem script_stack_iff_bag :
    (∃ value, Leaves (LuaStack.protobufNewTable 20 bagReflection 200 bagMessage) [.nil] [value, .nil]) ∧
    Leaves (Script.tableTransProtobuf 200 20 bagReflection plainLua (plainSol 20) [0x42, 0x61, 0x67] bagTable) [] [] := by
  have hcaller := script_stack_iff 200 20 bagReflection plainLua (plainSol 20) (plainSol_documented 20) [.nil]
  have hbag := script_stack_iff 200 20 bagReflection plainLua (plainSol 20) (plainSol_documented 20) []
  have hitem : ∀ (depth : Nat) (msg : bagReflection.Message .item) (n : Nat), 2 < n → Fits bagReflection (depth + 1) msg n := by
    intro depth msg n hn
    refine ⟨by omega, fun fd hfd => ⟨by omega, ?_⟩⟩
    obtain rfl := List.mem_singleton.1 hfd
    exact hn
  have hreadable : ∀ (depth : Nat) (k : Int) (n : Nat), 1 < n →
      Readable bagReflection plainLua (depth + 1) .item (itemTable k) n := by
    intro depth k n hn
    refine ⟨by omega, fun fd hfd => ?_⟩
    obtain rfl := List.mem_singleton.1 hfd
    exact ⟨_, rfl, hn, by decide, by decide, .inr ⟨_, rfl⟩⟩
  constructor
  · refine (hcaller.1 .bag bagMessage).1.2 ⟨by decide, fun fd hfd => ⟨by decide, ?_⟩⟩
    rcases List.mem_cons.1 hfd with rfl | hfd
    · exact hitem _ _ _ (by decide)
    rcases List.mem_cons.1 hfd with rfl | hfd
    · exact ⟨by decide, fun element _ => ⟨by decide, hitem _ _ _ (by decide)⟩⟩
    · obtain rfl := List.mem_singleton.1 hfd
      exact ⟨by decide, fun _ => by decide⟩
  · refine (hbag.2.2.2.2 _ bagTable).1.2 ⟨rfl, ⟨_, rfl⟩, by decide, ⟨.bag, _⟩, rfl, by decide, fun fd hfd => ?_⟩
    rcases List.mem_cons.1 hfd with rfl | hfd
    · exact ⟨itemTable 1, rfl, by decide, hreadable _ _ _ (by decide)⟩
    rcases List.mem_cons.1 hfd with rfl | hfd
    · refine ⟨arrayTable (itemTable 2) (itemTable 3), rfl, by decide, fun i hi => ?_⟩
      obtain rfl : i = 1 := List.mem_singleton.1 hi
      exact ⟨itemTable 2, rfl, by decide, hreadable _ _ _ (by decide)⟩
    · obtain rfl := List.mem_singleton.1 hfd
      refine ⟨arrayTable (.integer (IntType.int64.wrap 4)) (.integer (IntType.int64.wrap 5)), rfl, by decide, fun i hi => ?_⟩
      obtain rfl : i = 1 := List.mem_singleton.1 hi
      exact ⟨.integer (IntType.int64.wrap 4), rfl, by decide, .inr ⟨_, rfl⟩⟩

/-- `ProtobufTransTable` leaves its table above the caller's value, and `TableTransProtobuf` takes that value off. -/
theorem not_script_stack :
    (¬∀ (stack t : List LuaValue), Leaves (Script.protobufTransTable 200 20 bagReflection (plainSol 20) bagMessage)
      stack t → t = stack) ∧
    ¬∀ (stack t : List LuaValue), Leaves (Script.tableTransProtobuf 200 20 bagReflection plainLua (plainSol 20)
      [0x42, 0x61, 0x67] bagTable) stack t → t = stack := by
  constructor
  · intro h
    cases h [.nil] [_, .nil] ⟨_, rfl⟩
  · intro h
    cases h [.nil] [] ⟨_, rfl⟩

end Gb
