import GbServer.ScriptStack
import GbServer.Lib.CallLog
import GbServer.Lib.Nesting
/-!
# ProtobufBridge — what the converters call

`fill_lua_table`, `protobuf_new_table` and `traverse_message` (`lua_pb_parse.cpp`), and the functions of `Script` around them
(`script.cpp`), as the calls that they make where a caller has something to keep to: methods of reflection, which are for
fields of one kind; strings from pointers, which must not be null; looking into Lua values, which are to be tables; and what
is done with the message that a name may have.  A walk comes to its values in the order of the fields, and what is behind an
error of Lua is not called.

The slots that the walks take on the Lua stack are counted in `LuaStack`, and not here.
-/
namespace Gb

open CallLog (Program Spec Safe Along Returns call)
open Msgpack (LuaValue IntType)

inductive Cardinality
  | singular
  | repeated
  deriving DecidableEq

/-- What the methods of reflection depend on; without a type it is a field of messages. -/
structure FieldKind where
  cardinality : Cardinality
  type : Option CppType
  deriving DecidableEq

/-- The methods of reflection that are called; those of scalars are one for each type. -/
inductive ReflectionMethod
  | get (type : CppType)
  | set (type : CppType)
  | getMessage
  | mutableMessage
  | fieldSize
  | getRepeated (type : CppType)
  | add (type : CppType)
  | getRepeatedMessage
  | addMessage

/-- The fields that a method is for. -/
def ReflectionMethod.suits : ReflectionMethod → FieldKind → Bool
  | get type,           field => field = ⟨.singular, some type⟩
  | set type,           field => field = ⟨.singular, some type⟩
  | getMessage,         field => field = ⟨.singular, none⟩
  | mutableMessage,     field => field = ⟨.singular, none⟩
  | fieldSize,          field => field.cardinality = .repeated
  | getRepeated type,   field => field = ⟨.repeated, some type⟩
  | add type,           field => field = ⟨.repeated, some type⟩
  | getRepeatedMessage, field => field = ⟨.repeated, none⟩
  | addMessage,         field => field = ⟨.repeated, none⟩

namespace ReflectionMethod

@[simp] theorem get_suits (t : CppType) : (get t).suits ⟨.singular, some t⟩ = true := decide_eq_true rfl

@[simp] theorem getRepeated_suits (t : CppType) : (getRepeated t).suits ⟨.repeated, some t⟩ = true := decide_eq_true rfl

@[simp] theorem add_suits (t : CppType) : (add t).suits ⟨.repeated, some t⟩ = true := decide_eq_true rfl

end ReflectionMethod

/-- Lua values of all types, and what the functions of Lua make of them. -/
structure LuaView where
  Value : Type
  isTable : Value → Bool
  /-- `lua_getfield`, metamethods included; `none` is an error of Lua. -/
  getField : Value → FieldName → Option Value
  rawLen : Value → Nat
  /-- `lua_rawgeti` of a table. -/
  rawGetI : Value → Nat → Value
  toInteger : Value → Int
  toNumber : Value → BitVec 64
  toBoolean : Value → Bool
  /-- `lua_tostring`; `none` is a null pointer. -/
  toString : Value → Option (List UInt8)

/-- Values as they lie on the stack. -/
def LuaApi.view (lua : LuaApi) : LuaView where
  Value := LuaValue
  isTable value :=
    match value with
    | .table _ => true
    | _        => false
  getField := lua.getField
  rawLen := lua.rawLen
  rawGetI value i := (luaRawGetI value i).getD .nil
  toInteger := luaToInteger lua.toLuaCoercions
  toNumber := luaToNumber lua.toLuaCoercions
  toBoolean := luaToBoolean
  toString := luaToString lua.toLuaCoercions

/-- A call, by what its caller has to keep to. -/
inductive BridgeCall (Value : Type)
  | reflection (method : ReflectionMethod) (field : FieldKind)
  /-- A `std::string` from a pointer. -/
  | string (chars : Option (List UInt8))
  /-- `lua_getfield` or `lua_rawgeti`. -/
  | index (value : Value)
  /-- A member of what `create_message` returned. -/
  | message (known : Bool)

def BridgeCall.Allowed (lua : LuaView) : BridgeCall lua.Value → Prop
  | reflection method field => method.suits field
  | string chars            => chars ≠ none
  | index value             => lua.isTable value
  | message known           => known

/-- Why a walk does not go on: its calls inside one another are too many, Lua has thrown an error, protobuf has ended the
program, or nobody knows what is behind the call. -/
inductive Halt
  | depth
  | luaError
  | fatal
  | undefined

abbrev Bridge (lua : LuaView) (α : Type) := Program (BridgeCall lua.Value) Halt α

namespace Bridge

variable {lua : LuaView}

def orElse {α : Type} (value : Option α) (halt : Halt) : Except Halt α :=
  match value with
  | some a => .ok a
  | none   => .error halt

def reflect (method : ReflectionMethod) (field : FieldKind) : Bridge lua Unit :=
  call (.reflection method field) (if method.suits field then .ok () else .error .fatal)

/-- `lua_getfield`. -/
def getField (value : lua.Value) (name : FieldName) : Bridge lua lua.Value :=
  call (.index value) (orElse (lua.getField value name) .luaError)

/-- `lua_rawgeti`. -/
def rawGetI (value : lua.Value) (i : Nat) : Bridge lua lua.Value :=
  call (.index value) (if lua.isTable value then .ok (lua.rawGetI value i) else .error .undefined)

/-- The value as the argument of a method; a string is built from a pointer. -/
def readArgument : (t : CppType) → lua.Value → Bridge lua t.Val
  | .int32,  value => pure (IntType.int32.wrap (lua.toInteger value))
  | .int64,  value => pure (IntType.int64.wrap (lua.toInteger value))
  | .uint32, value => pure (IntType.uint32.wrap (lua.toInteger value))
  | .uint64, value => pure (IntType.uint64.wrap (lua.toInteger value))
  | .double, value => pure (lua.toNumber value)
  | .float,  value =>
    pure (BitVec.ofNat 32 (FloatBits.convert FloatBits.binary64 FloatBits.binary32 (lua.toNumber value).toNat))
  | .bool,   value => pure (lua.toBoolean value)
  | .enum,   value => pure (IntType.int32.wrap (lua.toInteger value))
  | .string, value => call (.string (lua.toString value)) (orElse (lua.toString value) .undefined)

/-- What is done with a scalar: nothing for an enumeration. -/
def store {M : Type} (method : ReflectionMethod) (field : FieldKind) (t : CppType) (put : t.Val → M) (msg : M)
    (value : lua.Value) : Bridge lua M :=
  if t = .enum then pure msg
  else do
    let argument ← readArgument t value
    reflect method field
    return put argument

/-- The method that is called for a singular scalar. -/
def setter : CppType → ReflectionMethod
  | .uint32 => .add .uint32
  | .uint64 => .add .uint64
  | t       => .set t

/-- The indices of the loop over an array. -/
def indices (array : lua.Value) : List Nat := List.range' 1 ((IntType.int32.wrap (lua.rawLen array)).val.toNat - 1)

/-- The loop over the elements of an array. -/
def forElements {M : Type} (readElement : M → lua.Value → Bridge lua M) (array : lua.Value) (msg : M) : Bridge lua M :=
  (indices array).foldlM (fun msg i => do readElement msg (← rawGetI array i)) msg

section

variable (lua) (ref : Reflection)

/-- A field of a message from the value of a table; `fill` is the call of `fill_lua_table` inside. -/
def fillField (fill : {type : ref.Descriptor} → ref.Message type → lua.Value → Bridge lua (ref.Message type))
    (value : lua.Value) {M : Type} (msg : M) (fd : FieldDescriptor ref.Message M) : Bridge lua M := do
  let found ← getField value fd.name
  match fd with
  | .scalar _ t _ set                 => store (setter t) ⟨.singular, some t⟩ t (set msg) msg found
  | .message _ _ _ mutableMessage put => do
    reflect .mutableMessage ⟨.singular, none⟩
    put msg <$> fill (mutableMessage msg) found
  | .scalars _ t _ add                =>
    forElements (fun msg element => store (.add t) ⟨.repeated, some t⟩ t (add msg) msg element) found msg
  | .messages _ _ _ added put         =>
    forElements (fun msg element => do
      reflect .addMessage ⟨.repeated, none⟩
      put msg <$> fill added element) found msg

/-- `fill_lua_table`. -/
def fillLuaTable : Nat → {type : ref.Descriptor} → ref.Message type → lua.Value → Bridge lua (ref.Message type)
  | 0,         _,    _,   _     => CallLog.throw .depth
  | depth + 1, type, msg, value => (ref.fields type).foldlM (fillField lua ref (fillLuaTable depth) value) msg

/-- A field of a message for its table; `newTable` is the call of `protobuf_new_table` inside. -/
def newField (newTable : {type : ref.Descriptor} → ref.Message type → Bridge lua Unit) {M : Type} (msg : M) :
    FieldDescriptor ref.Message M → Bridge lua Unit
  | .scalar _ t _ _            => reflect (.get t) ⟨.singular, some t⟩
  | .message _ _ get _ _       => do
    reflect .getMessage ⟨.singular, none⟩
    newTable (get msg)
  | .scalars _ t elements _    => do
    reflect .fieldSize ⟨.repeated, some t⟩
    (elements msg).val.forM fun _ => reflect (.getRepeated t) ⟨.repeated, some t⟩
  | .messages _ _ elements _ _ => do
    reflect .fieldSize ⟨.repeated, none⟩
    (elements msg).val.forM fun element => do
      reflect .getRepeatedMessage ⟨.repeated, none⟩
      newTable element

/-- `protobuf_new_table`. -/
def protobufNewTable : Nat → {type : ref.Descriptor} → ref.Message type → Bridge lua Unit
  | 0,         _,    _   => CallLog.throw .depth
  | depth + 1, type, msg => (ref.fields type).forM (newField lua ref (protobufNewTable depth) msg)

/-- A field on the way through a message; `traverse` is the call of `traverse_message` inside.  The size of a repeated field is
asked for before each element and behind the last one. -/
def traverseField (traverse : {type : ref.Descriptor} → ref.Message type → Bridge lua Unit) {M : Type} (msg : M) :
    FieldDescriptor ref.Message M → Bridge lua Unit
  | .scalar ..                 => pure ()
  | .message _ _ get _ _       => do
    reflect .getMessage ⟨.singular, none⟩
    traverse (get msg)
  | .scalars _ t elements _    => do
    (elements msg).val.forM fun _ => reflect .fieldSize ⟨.repeated, some t⟩
    reflect .fieldSize ⟨.repeated, some t⟩
  | .messages _ _ elements _ _ => do
    (elements msg).val.forM fun element => do
      reflect .fieldSize ⟨.repeated, none⟩
      reflect .getRepeatedMessage ⟨.repeated, none⟩
      traverse element
    reflect .fieldSize ⟨.repeated, none⟩

/-- `traverse_message`. -/
def traverseMessage : Nat → {type : ref.Descriptor} → ref.Message type → Bridge lua Unit
  | 0,         _,    _   => CallLog.throw .depth
  | depth + 1, type, msg => (ref.fields type).forM (traverseField lua ref (traverseMessage depth) msg)

/-! ## What scripts call -/

abbrev AnyMessage := (type : ref.Descriptor) × ref.Message type

/-- The message behind the pointer. -/
def deref (msg : Option (AnyMessage ref)) : Bridge lua (AnyMessage ref) := call (.message msg.isSome) (orElse msg .undefined)

/-- `lua_to_protobuf`, with the name and the value on the stack. -/
def luaToProtobuf (depth : Nat) (name : List UInt8) (value : lua.Value) : Bridge lua Unit :=
  if lua.isTable value then
    match ref.createMessage name with
    | some msg => do
      let msg ← fillLuaTable lua ref depth msg.2 value
      traverseMessage lua ref depth msg
    | none     => pure ()
  else pure ()

def tableTransProtobuf (depth : Nat) (protoName : List UInt8) (table : lua.Value) : Bridge lua (AnyMessage ref) := do
  let msg ← deref lua ref (ref.createMessage protoName)
  let filled ← fillLuaTable lua ref depth msg.2 table
  traverseMessage lua ref depth filled
  return ⟨msg.1, filled⟩

def protoEncodeToString (depth : Nat) (proto : List UInt8) (table : lua.Value) : Bridge lua (List UInt8) := do
  let msg ← tableTransProtobuf lua ref depth proto table
  return ref.serializeAsString msg.2

/-- `ProtoEncode`: the bytes of the buffer; `none` is a null pointer. -/
def protoEncode (depth : Nat) (proto : List UInt8) (table : lua.Value) : Bridge lua (Option (List UInt8)) := do
  let msg ← tableTransProtobuf lua ref depth proto table
  return ref.serializeToZeroCopyStream msg.2

/-- `ProtoDecode`: of a string, which is handed on as a C string. -/
def protoDecode (depth : Nat) (proto data : List UInt8) : Bridge lua Unit := do
  let msg ← deref lua ref (ref.createMessage proto)
  protobufNewTable lua ref depth (ref.parseFromString msg.2 (cString data))

/-- `ProtoDecode`: of a buffer, by its bytes. -/
def protoDecodeBuffer (depth : Nat) (proto buffer : List UInt8) : Bridge lua Unit := do
  let msg ← deref lua ref (ref.createMessage proto)
  protobufNewTable lua ref depth (ref.parseFromZeroCopyStream msg.2 buffer)

end

/-! ## One call -/

section

variable {α β : Type} {safe returns : Prop}

theorem orElse_eq_ok {value : Option α} {halt : Halt} {a : α} : orElse value halt = .ok a ↔ value = some a := by
  cases value with
  | none   => exact iff_of_false (fun h => nomatch h) fun h => nomatch h
  | some b => rw [orElse, Except.ok.injEq, Option.some.injEq]

theorem reflect_spec (method : ReflectionMethod) (field : FieldKind) :
    Spec (BridgeCall.Allowed lua) (reflect method field) (method.suits field) (method.suits field) := by
  refine (Spec.call _ _).of_iff Iff.rfl ⟨fun h => ⟨(), if_pos h⟩, fun ⟨_, hok⟩ => ?_⟩
  by_contra h
  rw [if_neg h] at hok
  cases hok

/-- A method for a field of its kind. -/
theorem reflect_allowed (method : ReflectionMethod) (field : FieldKind) (hsuits : method.suits field = true) :
    Spec (BridgeCall.Allowed lua) (reflect method field) True True :=
  (reflect_spec method field).of_iff (iff_of_true trivial hsuits) (iff_of_true trivial hsuits)

/-- A string can be built from the value, if one is to be. -/
def Text (t : CppType) (value : lua.Value) : Prop := t = .string → lua.toString value ≠ none

theorem readArgument_spec (t : CppType) (value : lua.Value) :
    Spec (BridgeCall.Allowed lua) (readArgument t value) (Text t value) (Text t value) := by
  cases t with
  | string =>
    have htext : Text .string value ↔ lua.toString value ≠ none := ⟨fun h => h rfl, fun h _ => h⟩
    refine (Spec.call _ _).of_iff htext (htext.trans ?_)
    rw [Option.ne_none_iff_exists']
    exact exists_congr fun _ => orElse_eq_ok.symm
  | _      => exact (Spec.pure _).of_iff (iff_of_true nofun trivial) (iff_of_true nofun trivial)

/-- Nothing is called for an enumeration. -/
theorem store_spec {M : Type} (method : ReflectionMethod) (field : FieldKind) (t : CppType) (put : t.Val → M) (msg : M)
    (value : lua.Value) :
    Spec (BridgeCall.Allowed lua) (store method field t put msg value) (t = .enum ∨ Text t value ∧ method.suits field)
      (t = .enum ∨ Text t value ∧ method.suits field) := by
  unfold store
  split
  · next h => exact (Spec.pure msg).of_iff (iff_of_true (.inl h) trivial) (iff_of_true (.inl h) trivial)
  · next h =>
    have hput (argument : t.Val) : Spec (BridgeCall.Allowed lua) (do reflect method field; return put argument) _ _ :=
      (reflect_spec method field).before fun _ => Spec.pure (put argument)
    refine ((readArgument_spec t value).bind_const hput).of_iff ?_ (or_iff_right h)
    rw [or_iff_right h]
    exact and_congr_right fun htext => (imp_iff_right htext).symm

/-- There is no setter for an unsigned number. -/
theorem setter_suits {t : CppType} (ht : t ≠ .enum) :
    (setter t).suits ⟨.singular, some t⟩ ↔ t ≠ .uint32 ∧ t ≠ .uint64 := by
  revert ht
  cases t <;> decide

/-- What is found by name, and what is done with it. -/
theorem getField_bind {value : lua.Value} {name : FieldName} {f : lua.Value → Bridge lua β} {safe returns : lua.Value → Prop}
    (hf : ∀ found, lua.getField value name = some found → Spec (BridgeCall.Allowed lua) (f found) (safe found) (returns found)) :
    Spec (BridgeCall.Allowed lua) (getField value name >>= f)
      (lua.isTable value ∧ ∀ found, lua.getField value name = some found → safe found)
      (∃ found, lua.getField value name = some found ∧ returns found) := by
  have hcall : Spec (BridgeCall.Allowed lua) (getField value name) _ _ := Spec.call _ _
  have hresult (found : lua.Value) : (getField value name).result = .ok found ↔ lua.getField value name = some found :=
    orElse_eq_ok
  refine (hcall.bind fun found hok => hf found ((hresult found).1 hok)).of_iff ?_ ?_
  · exact and_congr_right fun _ => forall_congr' fun found => imp_congr_left (hresult found).symm
  · exact exists_congr fun found => and_congr_left fun _ => (hresult found).symm

/-- An element, and what is done with it. -/
theorem rawGetI_bind {array : lua.Value} {i : Nat} {f : lua.Value → Bridge lua β}
    (hf : Spec (BridgeCall.Allowed lua) (f (lua.rawGetI array i)) safe returns) :
    Spec (BridgeCall.Allowed lua) (rawGetI array i >>= f) (lua.isTable array ∧ safe) (lua.isTable array ∧ returns) := by
  have hcall : Spec (BridgeCall.Allowed lua) (rawGetI array i) _ _ := Spec.call _ _
  have hresult (element : lua.Value) :
      (rawGetI array i).result = .ok element ↔ lua.isTable array ∧ lua.rawGetI array i = element := by
    change (if _ then _ else _) = _ ↔ _
    split
    · next h => rw [Except.ok.injEq, and_iff_right h]
    · next h => exact iff_of_false (fun h => nomatch h) fun hand => h hand.1
  refine (hcall.bind fun element hok => ?_ : Spec _ _ (_ ∧ ∀ element, _ → safe) (∃ element, _ ∧ returns)).of_iff ?_ ?_
  · exact ((hresult element).1 hok).2 ▸ hf
  · exact and_congr_right fun htable => ⟨fun h _ _ => h, fun h => h _ ((hresult _).2 ⟨htable, rfl⟩)⟩
  · exact ⟨fun h => ⟨_, (hresult _).2 ⟨h.1, rfl⟩, h.2⟩, fun ⟨element, hok, h⟩ => ⟨((hresult element).1 hok).1, h⟩⟩

theorem forElements_spec {M : Type} {readElement : M → lua.Value → Bridge lua M} {safe returns : lua.Value → Prop}
    (helement : ∀ msg element, Spec (BridgeCall.Allowed lua) (readElement msg element) (safe element) (returns element))
    (array : lua.Value) (msg : M) :
    Spec (BridgeCall.Allowed lua) (forElements readElement array msg)
      (Along (fun i => lua.isTable array ∧ safe (lua.rawGetI array i))
        (fun i => lua.isTable array ∧ returns (lua.rawGetI array i)) (indices array))
      (∀ i ∈ indices array, lua.isTable array ∧ returns (lua.rawGetI array i)) :=
  Spec.foldlM (fun i _ msg => rawGetI_bind (helement msg (lua.rawGetI array i))) msg

end

/-! ## The walk of a table -/

section

variable (lua) (ref : Reflection)

/-- A field can be filled from a value: `ends` is said of the messages inside. -/
def EndsField (ends : ref.Descriptor → lua.Value → Prop) (value : lua.Value) {M : Type} (fd : FieldDescriptor ref.Message M) :
    Prop :=
  ∃ found, lua.getField value fd.name = some found ∧
    match fd with
    | .scalar _ t _ _        => t ≠ .uint32 ∧ t ≠ .uint64 ∧ Text t found
    | .message _ type _ _ _  => ends type found
    | .scalars _ t _ _       => ∀ i ∈ indices found, lua.isTable found ∧ Text t (lua.rawGetI found i)
    | .messages _ type _ _ _ => ∀ i ∈ indices found, lua.isTable found ∧ ends type (lua.rawGetI found i)

/-- In `depth` calls a value is walked to its end. -/
def Ends : Nat → ref.Descriptor → lua.Value → Prop
  | 0,         _,    _     => False
  | depth + 1, type, value => ∀ fd ∈ ref.fields type, EndsField lua ref (Ends depth) value fd

/-- Nothing but a table is looked into for the field, and what is found there is a string or a number where it is to be a
string, and not to be an unsigned number; an element that walks do not come to the end of is the last one that is looked at. -/
def HarmlessField (harmless ends : ref.Descriptor → lua.Value → Prop) (value : lua.Value) {M : Type}
    (fd : FieldDescriptor ref.Message M) : Prop :=
  lua.isTable value ∧ ∀ found, lua.getField value fd.name = some found →
    match fd with
    | .scalar _ t _ _        => t ≠ .uint32 ∧ t ≠ .uint64 ∧ Text t found
    | .message _ type _ _ _  => harmless type found
    | .scalars _ t _ _       => ∀ i ∈ indices found, lua.isTable found ∧ Text t (lua.rawGetI found i)
    | .messages _ type _ _ _ =>
      Along (fun i => lua.isTable found ∧ harmless type (lua.rawGetI found i))
        (fun i => lua.isTable found ∧ ends type (lua.rawGetI found i)) (indices found)

/-- In `depth` calls no field of a value does harm; one that walks do not come to the end of is the last one. -/
def Harmless : Nat → ref.Descriptor → lua.Value → Prop
  | 0,         _,    _     => True
  | depth + 1, type, value =>
    Along (HarmlessField lua ref (Harmless depth) (Ends lua ref depth) value) (EndsField lua ref (Ends lua ref depth) value)
      (ref.fields type)

end

section

variable {ref : Reflection}

theorem fillField_spec {fill : {type : ref.Descriptor} → ref.Message type → lua.Value → Bridge lua (ref.Message type)}
    {harmless ends : ref.Descriptor → lua.Value → Prop}
    (hfill : ∀ {type : ref.Descriptor} (msg : ref.Message type) (value : lua.Value),
      Spec (BridgeCall.Allowed lua) (fill msg value) (harmless type value) (ends type value))
    (value : lua.Value) {M : Type} (msg : M) (fd : FieldDescriptor ref.Message M) :
    Spec (BridgeCall.Allowed lua) (fillField lua ref fill value msg fd) (HarmlessField lua ref harmless ends value fd)
      (EndsField lua ref ends value fd) := by
  refine getField_bind fun found _ => ?_
  cases fd with
  | scalar name t get set                 =>
    have hstore : t ≠ .uint32 ∧ t ≠ .uint64 ∧ Text t found ↔
        t = .enum ∨ Text t found ∧ (setter t).suits ⟨.singular, some t⟩ := by
      by_cases ht : t = .enum
      · subst ht
        exact iff_of_true ⟨nofun, nofun, nofun⟩ (.inl rfl)
      · rw [or_iff_right ht, setter_suits ht, ← and_assoc]
        exact and_comm
    exact (store_spec _ _ t (set msg) msg found).of_iff hstore hstore
  | message name type get mutable put     => exact (reflect_allowed _ _ rfl).after fun _ => (hfill (mutable msg) found).map
  | scalars name t elements add           =>
    have hstore (element : lua.Value) :
        Text t element ↔ t = .enum ∨ Text t element ∧ (ReflectionMethod.add t).suits ⟨.repeated, some t⟩ := by
      rw [and_iff_left (ReflectionMethod.add_suits t)]
      refine ⟨.inr, fun h => h.elim (fun ht => ?_) id⟩
      subst ht
      exact nofun
    have helement (msg : M) (element : lua.Value) := (store_spec (.add t) ⟨.repeated, some t⟩ t (add msg) msg element).of_iff
      (hstore element) (hstore element)
    exact (forElements_spec helement found msg).of_iff CallLog.along_self.symm Iff.rfl
  | messages name type elements added put =>
    exact forElements_spec (fun msg element => (reflect_allowed _ _ rfl).after fun _ => (hfill added element).map) found msg

/-- **All that `fill_lua_table` calls is allowed exactly if the value is harmless.** -/
theorem fillLuaTable_spec : ∀ (depth : Nat) {type : ref.Descriptor} (msg : ref.Message type) (value : lua.Value),
    Spec (BridgeCall.Allowed lua) (fillLuaTable lua ref depth msg value) (Harmless lua ref depth type value)
      (Ends lua ref depth type value)
  | 0,         _,    _,   _     => Spec.throw _
  | depth + 1, _,    msg, value => Spec.foldlM (fun fd _ msg => fillField_spec (fillLuaTable_spec depth) value msg fd) msg

end

/-! ## The walk of a message -/

section

variable {ref : Reflection}

/-- The messages that a field of a message leads to: a singular one that is there or a default, and the elements. -/
def submessages {M : Type} (msg : M) : FieldDescriptor ref.Message M → List (AnyMessage ref)
  | .scalar ..                    => []
  | .message _ type get _ _       => [⟨type, get msg⟩]
  | .scalars ..                   => []
  | .messages _ type elements _ _ => (elements msg).val.map fun element => ⟨type, element⟩

def Submessage (ref : Reflection) (sub msg : AnyMessage ref) : Prop := ∃ fd ∈ ref.fields msg.1, sub ∈ submessages msg.2 fd

/-- In `depth` calls a message is walked to its end. -/
def Walked (ref : Reflection) (depth : Nat) {type : ref.Descriptor} (msg : ref.Message type) : Prop :=
  Nesting.Within (Submessage ref) depth ⟨type, msg⟩

theorem walked_succ {depth : Nat} {type : ref.Descriptor} {msg : ref.Message type} :
    Walked ref (depth + 1) msg ↔ ∀ fd ∈ ref.fields type, ∀ sub ∈ submessages msg fd, Walked ref depth sub.2 :=
  ⟨fun h fd hfd sub hsub => h sub ⟨fd, hfd, hsub⟩, fun h sub ⟨fd, hfd, hsub⟩ => h fd hfd sub hsub⟩

variable {walk : {type : ref.Descriptor} → ref.Message type → Bridge lua Unit}
  {within : {type : ref.Descriptor} → ref.Message type → Prop}

theorem newField_spec (hwalk : ∀ {type : ref.Descriptor} (msg : ref.Message type),
      Spec (BridgeCall.Allowed lua) (walk msg) True (within msg)) {M : Type} (msg : M) (fd : FieldDescriptor ref.Message M) :
    Spec (BridgeCall.Allowed lua) (newField lua ref walk msg fd) True (∀ sub ∈ submessages msg fd, within sub.2) := by
  have hnone : (∀ sub ∈ ([] : List (AnyMessage ref)), within sub.2) ↔ True :=
    iff_of_true (fun _ h => absurd h List.not_mem_nil) trivial
  cases fd with
  | scalar name t get set                 =>
    exact (reflect_allowed (.get t) ⟨.singular, some t⟩ (ReflectionMethod.get_suits t)).of_iff Iff.rfl hnone
  | message name type get mutable put     =>
    exact ((reflect_allowed _ _ rfl).after fun _ => hwalk (get msg)).of_iff Iff.rfl List.forall_mem_singleton
  | scalars name t elements add           =>
    have hget : Spec (BridgeCall.Allowed lua)
        ((elements msg).val.forM fun _ => reflect (.getRepeated t) ⟨.repeated, some t⟩) True (∀ element ∈ _, True) :=
      Spec.forM_true fun _ _ => reflect_allowed _ _ (ReflectionMethod.getRepeated_suits t)
    exact ((reflect_allowed _ _ rfl).after fun _ => hget).of_iff Iff.rfl (hnone.trans (by simp))
  | messages name type elements added put =>
    have hget : Spec (BridgeCall.Allowed lua) ((elements msg).val.forM fun element => do
        reflect .getRepeatedMessage ⟨.repeated, none⟩; walk element) True (∀ element ∈ _, within element) :=
      Spec.forM_true fun element _ => (reflect_allowed _ _ rfl).after fun _ => hwalk element
    exact ((reflect_allowed _ _ rfl).after fun _ => hget).of_iff Iff.rfl List.forall_mem_map

/-- `protobuf_new_table` calls nothing that is not allowed, and returns if the walk ends. -/
theorem protobufNewTable_spec : ∀ (depth : Nat) {type : ref.Descriptor} (msg : ref.Message type),
    Spec (BridgeCall.Allowed lua) (protobufNewTable lua ref depth msg) True (Walked ref depth msg)
  | 0,         _, _   => Spec.throw _
  | depth + 1, _, msg =>
    (Spec.forM_true fun fd _ => newField_spec (protobufNewTable_spec depth) msg fd).of_iff Iff.rfl walked_succ

theorem traverseField_spec (hwalk : ∀ {type : ref.Descriptor} (msg : ref.Message type),
      Spec (BridgeCall.Allowed lua) (walk msg) True (within msg)) {M : Type} (msg : M) (fd : FieldDescriptor ref.Message M) :
    Spec (BridgeCall.Allowed lua) (traverseField lua ref walk msg fd) True (∀ sub ∈ submessages msg fd, within sub.2) := by
  have hnone : (∀ sub ∈ ([] : List (AnyMessage ref)), within sub.2) ↔ True :=
    iff_of_true (fun _ h => absurd h List.not_mem_nil) trivial
  cases fd with
  | scalar name t get set                 => exact (Spec.pure ()).of_iff Iff.rfl hnone
  | message name type get mutable put     =>
    exact ((reflect_allowed _ _ rfl).after fun _ => hwalk (get msg)).of_iff Iff.rfl List.forall_mem_singleton
  | scalars name t elements add           =>
    have hsize : Spec (BridgeCall.Allowed lua)
        ((elements msg).val.forM fun _ => reflect .fieldSize ⟨.repeated, some t⟩) True (∀ element ∈ _, True) :=
      Spec.forM_true fun _ _ => reflect_allowed _ _ rfl
    exact (hsize.before fun _ => reflect_allowed _ _ rfl).of_iff Iff.rfl (hnone.trans (by simp))
  | messages name type elements added put =>
    have hget : Spec (BridgeCall.Allowed lua) ((elements msg).val.forM fun element => do
        reflect .fieldSize ⟨.repeated, none⟩; reflect .getRepeatedMessage ⟨.repeated, none⟩; walk element) True
        (∀ element ∈ _, within element) :=
      Spec.forM_true fun element _ =>
        (reflect_allowed _ _ rfl).after fun _ => (reflect_allowed _ _ rfl).after fun _ => hwalk element
    exact (hget.before fun _ => reflect_allowed _ _ rfl).of_iff Iff.rfl List.forall_mem_map

/-- So does `traverse_message`. -/
theorem traverseMessage_spec : ∀ (depth : Nat) {type : ref.Descriptor} (msg : ref.Message type),
    Spec (BridgeCall.Allowed lua) (traverseMessage lua ref depth msg) True (Walked ref depth msg)
  | 0,         _, _   => Spec.throw _
  | depth + 1, _, msg =>
    (Spec.forM_true fun fd _ => traverseField_spec (traverseMessage_spec depth) msg fd).of_iff Iff.rfl walked_succ

end

/-! ## What scripts call -/

section

variable (lua) {ref : Reflection}

/-- What is called with a Lua value, or with a name and bytes. -/
inductive Entry (ref : Reflection)
  | fillLuaTable (type : ref.Descriptor) (msg : ref.Message type)
  | luaToProtobuf (name : List UInt8)
  | tableTransProtobuf (protoName : List UInt8)
  | protoEncodeToString (proto : List UInt8)
  | protoEncode (proto : List UInt8)
  | protoDecode (proto data : List UInt8)
  | protoDecodeBuffer (proto buffer : List UInt8)

def Entry.run : Entry ref → Nat → lua.Value → Bridge lua Unit
  | fillLuaTable _ msg,          depth, value => do let _ ← Bridge.fillLuaTable lua ref depth msg value
  | luaToProtobuf name,          depth, value => Bridge.luaToProtobuf lua ref depth name value
  | tableTransProtobuf name,     depth, value => do let _ ← Bridge.tableTransProtobuf lua ref depth name value
  | protoEncodeToString proto,   depth, value => do let _ ← Bridge.protoEncodeToString lua ref depth proto value
  | protoEncode proto,           depth, value => do let _ ← Bridge.protoEncode lua ref depth proto value
  | protoDecode proto data,      depth, _     => Bridge.protoDecode lua ref depth proto data
  | protoDecodeBuffer proto buf, depth, _     => Bridge.protoDecodeBuffer lua ref depth proto buf

/-- A message type has the name, and a value does no harm as a message of the type. -/
def Suited (ref : Reflection) (name : List UInt8) (value : lua.Value) : Prop :=
  ∃ msg, ref.createMessage name = some msg ∧ ∀ depth, Harmless lua ref depth msg.1 value

/-- What an entry asks of a name and a value.  `lua_to_protobuf` looks at the value and at the pointer itself. -/
def Entry.Accepts (value : lua.Value) : Entry ref → Prop
  | fillLuaTable type _       => ∀ depth, Harmless lua ref depth type value
  | luaToProtobuf name        =>
    lua.isTable value → ∀ msg, ref.createMessage name = some msg → ∀ depth, Harmless lua ref depth msg.1 value
  | tableTransProtobuf name   => Suited lua ref name value
  | protoEncodeToString proto => Suited lua ref proto value
  | protoEncode proto         => Suited lua ref proto value
  | protoDecode proto _       => ref.createMessage proto ≠ none
  | protoDecodeBuffer proto _ => ref.createMessage proto ≠ none

variable {lua}

theorem deref_bind {β : Type} {msg : Option (AnyMessage ref)} {f : AnyMessage ref → Bridge lua β} :
    Safe (BridgeCall.Allowed lua) (deref lua ref msg >>= f) ↔ ∃ a, msg = some a ∧ Safe (BridgeCall.Allowed lua) (f a) := by
  rw [CallLog.safe_bind, deref, CallLog.safe_call]
  cases msg with
  | none   => exact iff_of_false (fun h => nomatch h.1) fun ⟨_, h, _⟩ => nomatch h
  | some a => exact ⟨fun h => ⟨a, rfl, h.2 a rfl⟩, fun ⟨_, heq, h⟩ => ⟨rfl, fun _ hok => Except.ok.inj hok ▸ Option.some.inj heq ▸ h⟩⟩

/-- What fills and then traverses. -/
theorem fill_traverse {β : Type} (depth : Nat) {type : ref.Descriptor} (msg : ref.Message type) (value : lua.Value)
    (f : ref.Message type → Bridge lua β) (hf : ∀ filled, Safe (BridgeCall.Allowed lua) (f filled)) :
    Safe (BridgeCall.Allowed lua) (Bridge.fillLuaTable lua ref depth msg value >>= f) ↔ Harmless lua ref depth type value :=
  (CallLog.safe_before hf).trans (fillLuaTable_spec depth msg value).safe

theorem tableTransProtobuf_safe (depth : Nat) (name : List UInt8) (value : lua.Value) :
    Safe (BridgeCall.Allowed lua) (Bridge.tableTransProtobuf lua ref depth name value) ↔
      ∃ msg, ref.createMessage name = some msg ∧ Harmless lua ref depth msg.1 value := by
  refine deref_bind.trans (exists_congr fun msg => and_congr_right fun _ => fill_traverse depth msg.2 value _ fun filled => ?_)
  exact (CallLog.safe_before fun _ => CallLog.safe_pure _).2 ((traverseMessage_spec depth filled).safe.2 trivial)

/-- What all depths ask of a name is asked of one message type. -/
theorem suited_iff {name : List UInt8} {value : lua.Value} :
    (∀ depth, ∃ msg, ref.createMessage name = some msg ∧ Harmless lua ref depth msg.1 value) ↔ Suited lua ref name value := by
  unfold Suited
  cases ref.createMessage name with
  | none     => exact iff_of_false (fun h => nomatch (h 0)) fun ⟨_, h, _⟩ => nomatch h
  | some msg =>
    constructor
    · intro h
      refine ⟨msg, rfl, fun depth => ?_⟩
      obtain ⟨_, heq, hharmless⟩ := h depth
      exact Option.some.inj heq ▸ hharmless
    · rintro ⟨_, heq, h⟩ depth
      exact ⟨_, heq, h depth⟩

theorem luaToProtobuf_safe (depth : Nat) (name : List UInt8) (value : lua.Value) :
    Safe (BridgeCall.Allowed lua) (Bridge.luaToProtobuf lua ref depth name value) ↔
      (lua.isTable value → ∀ msg, ref.createMessage name = some msg → Harmless lua ref depth msg.1 value) := by
  unfold Bridge.luaToProtobuf
  split
  · next htable =>
    rw [imp_iff_right htable]
    cases ref.createMessage name with
    | none     => exact iff_of_true (CallLog.safe_pure _) fun _ h => nomatch h
    | some msg =>
      refine (fill_traverse depth msg.2 value _ fun filled => (traverseMessage_spec depth filled).safe.2 trivial).trans ?_
      exact ⟨fun h _ heq => Option.some.inj heq ▸ h, fun h => h msg rfl⟩
  · next htable => exact iff_of_true (CallLog.safe_pure _) fun h => absurd h htable

/-- A name, and what is decoded. -/
theorem decode_safe {depth : Nat} {name : List UInt8} (parse : (msg : AnyMessage ref) → ref.Message msg.1) :
    Safe (BridgeCall.Allowed lua)
        (deref lua ref (ref.createMessage name) >>= fun msg => Bridge.protobufNewTable lua ref depth (parse msg)) ↔
      ref.createMessage name ≠ none := by
  rw [deref_bind, Option.ne_none_iff_exists']
  exact exists_congr fun msg => and_iff_left ((protobufNewTable_spec depth (parse msg)).safe.2 trivial)

/-- **All that an entry calls is allowed, however deep it goes, exactly if it accepts its name and its value.** -/
theorem entry_allowed_iff (lua : LuaView) (ref : Reflection) (entry : Entry ref) (value : lua.Value) :
    (∀ depth, Safe (BridgeCall.Allowed lua) (entry.run lua depth value)) ↔ entry.Accepts lua value := by
  -- what is returned is left out
  have hunit {α : Type} (m : Bridge lua α) :
      Safe (BridgeCall.Allowed lua) (m >>= fun _ => pure ()) ↔ Safe (BridgeCall.Allowed lua) m :=
    CallLog.safe_before fun _ => CallLog.safe_pure ()
  cases entry with
  | fillLuaTable type msg         => exact forall_congr' fun depth => (hunit _).trans (fillLuaTable_spec depth msg value).safe
  | luaToProtobuf name            =>
    refine (forall_congr' fun depth => luaToProtobuf_safe depth name value).trans ?_
    exact ⟨fun h htable msg hmsg depth => h depth htable msg hmsg, fun h depth htable msg hmsg => h htable msg hmsg depth⟩
  | tableTransProtobuf name       =>
    exact (forall_congr' fun depth => (hunit _).trans (tableTransProtobuf_safe depth name value)).trans suited_iff
  | protoEncodeToString proto     =>
    have hencode (depth : Nat) : Safe (BridgeCall.Allowed lua) (Bridge.protoEncodeToString lua ref depth proto value) ↔ _ :=
      (CallLog.safe_before fun _ => CallLog.safe_pure _).trans (tableTransProtobuf_safe depth proto value)
    exact (forall_congr' fun depth => (hunit _).trans (hencode depth)).trans suited_iff
  | protoEncode proto             =>
    have hencode (depth : Nat) : Safe (BridgeCall.Allowed lua) (Bridge.protoEncode lua ref depth proto value) ↔ _ :=
      (CallLog.safe_before fun _ => CallLog.safe_pure _).trans (tableTransProtobuf_safe depth proto value)
    exact (forall_congr' fun depth => (hunit _).trans (hencode depth)).trans suited_iff
  | protoDecode proto data        =>
    exact (forall_congr' fun depth => decode_safe fun msg => ref.parseFromString msg.2 (cString data)).trans (forall_const Nat)
  | protoDecodeBuffer proto bytes =>
    exact (forall_congr' fun depth => decode_safe fun msg => ref.parseFromZeroCopyStream msg.2 bytes).trans (forall_const Nat)

end

/-! ## The values of the stack -/

section

variable {ref : Reflection} {lua : LuaApi}

theorem isTable_of_rawGetI (lua : LuaApi) {value element : LuaValue} {i : Nat} (h : luaRawGetI value i = some element) :
    lua.view.isTable value ∧ lua.view.rawGetI value i = element := by
  cases value with
  | table entries => exact ⟨rfl, Option.some.inj h⟩
  | _             => cases h

theorem text_of_read {t : CppType} {value : lua.view.Value}
    (h : t = .enum ∨ ∃ read, t.read lua.toLuaCoercions value = some read) : Text t value := by
  rintro rfl
  obtain ⟨read, hread⟩ := h.resolve_left nofun
  exact Option.ne_none_iff_exists'.2 ⟨read, hread⟩

/-- What can be read in some room of the stack is walked to its end. -/
theorem ends_of_readable : ∀ {depth n : Nat} {type : ref.Descriptor} {value : LuaValue},
    LuaStack.Readable ref lua depth type value n → Ends lua.view ref depth type value
  | 0,         _, _,    _,     h => h
  | depth + 1, n, type, value, h => by
    intro fd hfd
    obtain ⟨found, hfound, -, hfield⟩ := h.2 fd hfd
    refine ⟨found, hfound, ?_⟩
    cases fd with
    | scalar name t get set                 => exact ⟨hfield.1, hfield.2.1, text_of_read hfield.2.2⟩
    | message name type get mutable put     => exact ends_of_readable hfield
    | scalars name t elements add           =>
      intro i hi
      obtain ⟨element, helement, -, hread⟩ := hfield i hi
      obtain ⟨htable, rfl⟩ := isTable_of_rawGetI lua helement
      exact ⟨htable, text_of_read hread⟩
    | messages name type elements added put =>
      intro i hi
      obtain ⟨element, helement, -, hreadable⟩ := hfield i hi
      obtain ⟨htable, rfl⟩ := isTable_of_rawGetI lua helement
      exact ⟨htable, ends_of_readable hreadable⟩

end

/-! ## A message type with an unsigned field -/

/-- `message Counter { uint32 n = 1; }`. -/
def counterReflection : Reflection where
  Descriptor := Unit
  Message := fun _ => IntType.uint32.Val
  fields := fun _ => [.scalar [0x6e] .uint32 (fun msg => msg) fun _ value => value]
  createMessage := fun name =>
    if name = [0x43, 0x6f, 0x75, 0x6e, 0x74, 0x65, 0x72] then some ⟨(), IntType.uint32.wrap 0⟩ else none
  parseFromString := fun msg _ => msg
  parseFromZeroCopyStream := fun msg _ => msg
  serializeAsString := fun _ => []
  serializeToZeroCopyStream := fun _ => some []

def counterMessage : counterReflection.Message () := IntType.uint32.wrap 0

/-- `{n = 1}`. -/
def counterTable : plainLua.view.Value := LuaValue.table [(.string [0x6e], .integer (IntType.int64.wrap 1))]

/-- `fill_lua_table` calls `AddUInt32` of a singular field. -/
theorem not_entry_allowed : ¬∀ (lua : LuaView) (ref : Reflection) (entry : Entry ref) (table : lua.Value),
    lua.isTable table → ∀ depth, Safe (BridgeCall.Allowed lua) (entry.run lua depth table) := by
  intro h
  have hrun := h plainLua.view counterReflection (.fillLuaTable () counterMessage) counterTable rfl 1
  have hfill := (CallLog.safe_before fun _ => CallLog.safe_pure ()).1 hrun
  have hharmless := (fillLuaTable_spec 1 counterMessage counterTable).safe.1 hfill
  exact (hharmless.1.2 (LuaValue.integer (IntType.int64.wrap 1)) rfl).1 rfl

end Bridge

end Gb
