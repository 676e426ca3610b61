import GbServer.TypedLua
/-!
# ProtobufLua — messages as Lua tables

`protobuf_new_table` and `fill_lua_table` (`lua_pb_parse.cpp`), and `ProtoDecode` of a string (`script.cpp`).  A descriptor
is its fields one after another, each with its cardinality, and a message has what the getters give for them: an unset
field its default.  Descriptors without recursive types are the trees of `Descriptor`.

Neither function asks for stack space, so what it pushes needs the slots that are there; `none` is a run that ends in
undefined behaviour, in an error of Lua or in a fatal error of protobuf.
-/
namespace Gb

open Msgpack (LuaValue IntType widen)
open FloatBits (binary32 binary64)

/-- `FieldDescriptor::CppType`, but for messages. -/
inductive CppType
  | int32
  | int64
  | uint32
  | uint64
  | double
  | float
  | bool
  | enum
  | string
  deriving DecidableEq

def CppType.Val : CppType → Type
  | int32  => IntType.int32.Val
  | int64  => IntType.int64.Val
  | uint32 => IntType.uint32.Val
  | uint64 => IntType.uint64.Val
  | double => BitVec 64
  | float  => BitVec 32
  | bool   => Bool
  | enum   => IntType.int32.Val
  | string => List UInt8

abbrev FieldName := List UInt8

/-- The fields of a message type, in the order of the descriptor: singular ones of a scalar type with its default, or of a
message type, either of them perhaps in a oneof; and repeated ones. -/
inductive Descriptor
  | nil
  | scalar (name : FieldName) (oneof : Option Nat) (type : CppType) (default : type.Val) (rest : Descriptor)
  | message (name : FieldName) (oneof : Option Nat) (type : Descriptor) (rest : Descriptor)
  | scalars (name : FieldName) (type : CppType) (rest : Descriptor)
  | messages (name : FieldName) (type : Descriptor) (rest : Descriptor)

/-- The elements of a repeated field, at most as many as an `int` counts. -/
def Repeated (α : Type) : Type := {elements : List α // elements.length < 2 ^ 31}

def Repeated.empty {α : Type} : Repeated α := ⟨[], Nat.two_pow_pos 31⟩

namespace Descriptor

/-- The messages of a type. -/
def Msg : Descriptor → Type
  | nil                    => Unit
  | scalar _ _ type _ rest => type.Val × rest.Msg
  | message _ _ type rest  => type.Msg × rest.Msg
  | scalars _ type rest    => Repeated type.Val × rest.Msg
  | messages _ type rest   => Repeated type.Msg × rest.Msg

/-- `create_message`. -/
def fresh : (d : Descriptor) → d.Msg
  | nil                       => ()
  | scalar _ _ _ default rest => (default, rest.fresh)
  | message _ _ type rest     => (type.fresh, rest.fresh)
  | scalars _ _ rest          => (.empty, rest.fresh)
  | messages _ _ rest         => (.empty, rest.fresh)

def names : Descriptor → List FieldName
  | nil                    => []
  | scalar name _ _ _ rest => name :: rest.names
  | message name _ _ rest  => name :: rest.names
  | scalars name _ rest    => name :: rest.names
  | messages name _ rest   => name :: rest.names

/-- No two fields of a message type have one name. -/
def Named : Descriptor → Prop
  | nil                      => True
  | scalar name _ _ _ rest   => name ∉ rest.names ∧ rest.Named
  | message name _ type rest => name ∉ rest.names ∧ type.Named ∧ rest.Named
  | scalars name _ rest      => name ∉ rest.names ∧ rest.Named
  | messages name type rest  => name ∉ rest.names ∧ type.Named ∧ rest.Named

end Descriptor

/-- The bytes of a C string. -/
def cString (bytes : List UInt8) : List UInt8 := bytes.takeWhile fun x => x != 0

/-! ## To Lua -/

abbrev LuaEntries := List (LuaValue × LuaValue)

/-- The value that is pushed for a scalar. -/
def CppType.push : (t : CppType) → t.Val → LuaValue
  | .int32,  n     => .integer (IntType.int64.wrap n.val)
  | .int64,  n     => .integer (IntType.int64.wrap n.val)
  | .uint32, n     => .integer (IntType.int64.wrap n.val)
  | .uint64, n     => .integer (IntType.int64.wrap n.val)
  | .double, bits  => .number bits
  | .float,  bits  => .number (widen bits)
  | .bool,   value => .boolean value
  | .enum,   n     => .integer (IntType.int64.wrap n.val)
  | .string, str   => .string (cString str)

/-- `lua_createtable`, and what is done with the table. -/
def createTable (free : Nat) (fields : Nat → Option LuaEntries) : Option LuaValue :=
  if free < 1 then none else (fields (free - 1)).map LuaValue.table

/-- The elements of a repeated field, set one after another behind the first `j`. -/
def setElements (j : Nat) (values : List LuaValue) (entries : LuaEntries) : LuaEntries :=
  match values with
  | []              => entries
  | value :: values => setElements (j + 1) values (LuaValue.set (.integer (IntType.int64.wrap (j + 1 : Nat))) value entries)

/-- The loop of `protobuf_new_table` over the fields, with `free` slots above the table. -/
def newFields : (d : Descriptor) → d.Msg → Nat → LuaEntries → Option LuaEntries
  | .nil,                    _, _,    entries => some entries
  | .scalar name _ type _ rest, m, free, entries =>
    if free < 2 then none else newFields rest m.2 free (LuaValue.set (.string name) (type.push m.1) entries)
  | .message name _ type rest, m, free, entries => do
    let table ← createTable (free - 1) fun free => newFields type m.1 free []
    newFields rest m.2 free (LuaValue.set (.string name) table entries)
  | .scalars name type rest, m, free, entries =>
    -- the key and the array; and an index and an element, if there are any
    if free < 2 ∨ m.1.val ≠ [] ∧ free < 4 then none
    else newFields rest m.2 free
      (LuaValue.set (.string name) (.table (setElements 0 (m.1.val.map type.push) [])) entries)
  | .messages name type rest, m, free, entries => do
    if free < 2 then none
    let elements ← m.1.val.mapM fun element => createTable (free - 3) fun free => newFields type element free []
    newFields rest m.2 free (LuaValue.set (.string name) (.table (setElements 0 elements [])) entries)

/-- `protobuf_new_table`. -/
def protobufNewTable (d : Descriptor) (m : d.Msg) (free : Nat) : Option LuaValue := createTable free fun free => newFields d m free []

/-! ## From Lua -/

/-- What Lua does with strings that are taken for numbers, with numbers that are taken for strings, and with an index into a
value that is no table. -/
structure LuaCoercions where
  toNumber : List UInt8 → LuaValue
  toText   : LuaValue → List UInt8
  index    : LuaValue → FieldName → Option LuaValue

section

variable (lua : LuaCoercions)

/-- The integer that a number is; 0 if it is none. -/
def integerOf : LuaValue → Int
  | .integer n   => n.val
  | .number bits =>
    match binary64.toInt bits.toNat with
    | some i => if IntType.int64.min ≤ i ∧ i ≤ IntType.int64.max then i else 0
    | none   => 0
  | _            => 0

/-- The double that a number is; 0 if it is none. -/
def numberOf : LuaValue → BitVec 64
  | .integer n   => BitVec.ofNat 64 (binary64.ofInt n.val)
  | .number bits => bits
  | _            => 0

def luaToInteger : LuaValue → Int
  | .string str => integerOf (lua.toNumber str)
  | value       => integerOf value

def luaToNumber : LuaValue → BitVec 64
  | .string str => numberOf (lua.toNumber str)
  | value       => numberOf value

def luaToBoolean : LuaValue → Bool
  | .nil           => false
  | .boolean value => value
  | _              => true

/-- `lua_tostring`, as a C string; `none` is a null pointer. -/
def luaToString : LuaValue → Option (List UInt8)
  | .string str  => some (cString str)
  | .integer n   => some (cString (lua.toText (.integer n)))
  | .number bits => some (cString (lua.toText (.number bits)))
  | _            => none

/-- The argument of the setter; enumerations have none. -/
def CppType.read : (t : CppType) → LuaValue → Option t.Val
  | .int32,  value => some (IntType.int32.wrap (luaToInteger lua value))
  | .int64,  value => some (IntType.int64.wrap (luaToInteger lua value))
  | .uint32, value => some (IntType.uint32.wrap (luaToInteger lua value))
  | .uint64, value => some (IntType.uint64.wrap (luaToInteger lua value))
  | .double, value => some (luaToNumber lua value)
  | .float,  value => some (BitVec.ofNat 32 (FloatBits.convert binary64 binary32 (luaToNumber lua value).toNat))
  | .bool,   value => some (luaToBoolean value)
  | .enum,   _     => none
  | .string, value => luaToString lua value

/-- What `lua_rawget` finds. -/
def rawGet (key : LuaValue) : LuaEntries → LuaValue
  | []               => .nil
  | entry :: entries => if LuaValue.same entry.1 key then entry.2 else rawGet key entries

/-- A border of a table; the least one. -/
def border (entries : LuaEntries) : Nat :=
  ((List.range entries.length).find? fun n => (rawGet (.integer (IntType.int64.wrap (n + 1 : Nat))) entries).isNil).getD
    entries.length

def luaRawLen : LuaValue → Nat
  | .table entries => border entries
  | .string str    => str.length
  | _              => 0

def luaGetField (value : LuaValue) (name : FieldName) : Option LuaValue :=
  match value with
  | .table entries => some (rawGet (.string name) entries)
  | value          => lua.index value name

def luaRawGetI (value : LuaValue) (i : Nat) : Option LuaValue :=
  match value with
  | .table entries => some (rawGet (.integer (IntType.int64.wrap i)) entries)
  | _              => none

/-- A singular field, and whether it was set: `AddUInt32` and `AddUInt64` of one are fatal, and nothing is done for an
enumeration. -/
def setScalar (t : CppType) (default : t.Val) (value : LuaValue) : Option (t.Val × Bool) :=
  match t with
  | .uint32 | .uint64 => none
  | .enum             => some (default, false)
  | t                 => (t.read lua value).map fun v => (v, true)

/-- The loop over the elements of a repeated field, each of which is added or left out; `lua_rawgeti` takes one of `free`
slots. -/
def readElements {α : Type} (free : Nat) (value : LuaValue) (read : LuaValue → Option (List α)) : Option (Repeated α) := do
  let arrLen := (IntType.int32.wrap (luaRawLen value)).val.toNat
  let added ← (List.range' 1 (arrLen - 1)).mapM fun i => if free < 1 then none else (luaRawGetI value i).bind read
  if h : added.flatten.length < 2 ^ 31 then some ⟨added.flatten, h⟩ else none

/-- `fill_lua_table` on a table: the copy of it, and what is done with it. -/
def pushValue {α : Type} (free : Nat) (fields : Nat → Option α) : Option α := if free < 1 then none else fields (free - 1)

/-- To set a member of a oneof clears the others. -/
def clears (set : List Nat) (oneof : Option Nat) : Bool := oneof.any fun o => set.contains o

/-- The loop of `fill_lua_table` over the fields of a fresh message, with `free` slots above the copy; and the oneofs of
which a member was set, which clears the members before it. -/
def fillFields : (d : Descriptor) → Nat → LuaValue → Option (d.Msg × List Nat)
  | .nil,                                _,    _     => some ((), [])
  | .scalar name oneof type default rest, free, table => do
    if free < 1 then none
    let (value, isSet) ← setScalar lua type default (← luaGetField lua table name)
    let (m, set) ← fillFields rest free table
    return ((if clears set oneof then default else value, m), if isSet then oneof.toList ++ set else set)
  | .message name oneof type rest,        free, table => do
    if free < 1 then none
    let value ← luaGetField lua table name
    let (subMsg, _) ← pushValue (free - 1) fun free => fillFields type free value
    let (m, set) ← fillFields rest free table
    return ((if clears set oneof then type.fresh else subMsg, m), oneof.toList ++ set)
  | .scalars name type rest,              free, table => do
    if free < 1 then none
    let value ← luaGetField lua table name
    -- the elements of an enumeration are looked at, and none is added
    let elements ← readElements (free - 1) value fun value =>
      if type = .enum then some [] else (type.read lua value).map fun v => [v]
    let (m, set) ← fillFields rest free table
    return ((elements, m), set)
  | .messages name type rest,             free, table => do
    if free < 1 then none
    let value ← luaGetField lua table name
    let elements ← readElements (free - 1) value fun value =>
      pushValue (free - 2) fun free => (fillFields type free value).map fun filled => [filled.1]
    let (m, set) ← fillFields rest free table
    return ((elements, m), set)

/-- `fill_lua_table` of a fresh message. -/
def fillLuaTable (d : Descriptor) (free : Nat) (table : LuaValue) : Option d.Msg :=
  pushValue free fun free => (fillFields lua d free table).map Prod.fst

end

/-- `ProtoDecode` of a string, where `parse` is what `ParseFromString` leaves in a fresh message: the bytes are handed on as
a C string. -/
def protoDecode (d : Descriptor) (parse : List UInt8 → d.Msg) (data : List UInt8) (free : Nat) : Option LuaValue :=
  protobufNewTable d (parse (cString data)) free

end Gb
