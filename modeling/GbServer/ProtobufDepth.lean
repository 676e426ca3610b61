import GbServer.ProtobufBridge
/-!
# ProtobufDepth — how deep the walks go

`protobuf_new_table` and `traverse_message` (`lua_pb_parse.cpp`) go into singular message fields whether they are set or not:
the getter of one that is not gives a default message, whose fields give defaults again.  So what is walked is what is present,
and below each field that is not set a chain of types.  `fill_lua_table` goes into Lua values, and no deeper than they are.
-/
namespace Gb

open CallLog (Returns Throws)
open Nesting (Within Inside)
open Msgpack (LuaValue)
open Bridge (AnyMessage Submessage Walked submessages)
open LuaStack (Fits)

/-! ## What is present -/

section

variable (ref : Reflection)

/-- What the getter of a singular message field gives. -/
def Gives (msg : AnyMessage ref) (name : FieldName) (sub : AnyMessage ref) : Prop :=
  ∃ get mutableMessage put, .message name sub.1 get mutableMessage put ∈ ref.fields msg.1 ∧ sub.2 = get msg.2

/-- An element of a repeated field. -/
def Element (sub msg : AnyMessage ref) : Prop :=
  ∃ name elements added put, .messages name sub.1 elements added put ∈ ref.fields msg.1 ∧ sub.2 ∈ (elements msg.2).val

/-- What is in a message, where `hasField` says which fields are set. -/
def Present (hasField : AnyMessage ref → FieldName → Prop) (sub msg : AnyMessage ref) : Prop :=
  (∃ name, Gives ref msg name sub ∧ hasField msg name) ∨ Element ref sub msg

/-- The type of a singular message field. -/
def Singular (sub type : ref.Descriptor) : Prop :=
  ∃ name get mutableMessage put, .message name sub get mutableMessage put ∈ ref.fields type

/-- Which singular fields are set, and the default message of each type: it is what the getters give for those that are not
set, nothing is in it, and nothing is for ever in anything else. -/
structure Presence where
  hasField : AnyMessage ref → FieldName → Prop
  default : (type : ref.Descriptor) → ref.Message type
  gives_unset : ∀ msg name sub, Gives ref msg name sub → ¬hasField msg name → sub.2 = default sub.1
  default_empty : ∀ type sub, ¬Present ref hasField sub ⟨type, default type⟩
  finite : ∀ msg, ∃ n, Within (Present ref hasField) n msg

variable {ref}

namespace Presence

variable (presence : Presence ref)

/-- The type of a singular message field that is not set. -/
def Unset (type : ref.Descriptor) (msg : AnyMessage ref) : Prop :=
  ∃ name sub, Gives ref msg name ⟨type, sub⟩ ∧ ¬presence.hasField msg name

open Classical in
/-- The nesting that is present: 1 for a message with no others in it. -/
noncomputable def nesting (msg : AnyMessage ref) : Nat := Nat.find (presence.finite msg)

theorem within_nesting (msg : AnyMessage ref) : Within (Present ref presence.hasField) (presence.nesting msg) msg :=
  open Classical in Nat.find_spec (presence.finite msg)

end Presence

/-! ## Messages and types -/

theorem submessage_iff {sub msg : AnyMessage ref} :
    Submessage ref sub msg ↔ (∃ name, Gives ref msg name sub) ∨ Element ref sub msg := by
  constructor
  · rintro ⟨fd, hfd, hsub⟩
    cases fd with
    | scalar name t get set                 => cases hsub
    | message name type get mutable put     =>
      obtain rfl := List.mem_singleton.1 hsub
      exact .inl ⟨name, get, mutable, put, hfd, rfl⟩
    | scalars name t elements add           => cases hsub
    | messages name type elements added put =>
      obtain ⟨element, helement, rfl⟩ := List.mem_map.1 hsub
      exact .inr ⟨name, elements, added, put, hfd, helement⟩
  · rintro (⟨name, get, mutable, put, hfd, hsub⟩ | ⟨name, elements, added, put, hfd, helement⟩)
    · exact ⟨_, hfd, List.mem_singleton.2 (Sigma.ext rfl (heq_of_eq hsub))⟩
    · exact ⟨_, hfd, List.mem_map.2 ⟨sub.2, helement, rfl⟩⟩

theorem submessage_finite : Nesting.Finite (Submessage ref) := by
  intro msg
  refine ⟨(ref.fields msg.1).flatMap (submessages msg.2), fun sub ⟨fd, hfd, hsub⟩ => ?_⟩
  exact List.mem_flatMap.2 ⟨fd, hfd, hsub⟩

variable (presence : Presence ref)

/-- What a default message leads to are the default messages of its fields. -/
theorem submessage_default (type : ref.Descriptor) (sub : AnyMessage ref) :
    Submessage ref sub ⟨type, presence.default type⟩ ↔
      ∃ type', Singular ref type' type ∧ (⟨type', presence.default type'⟩ : AnyMessage ref) = sub := by
  have hempty := presence.default_empty type
  rw [submessage_iff]
  constructor
  · rintro (⟨name, h⟩ | helement)
    · have hunset : ¬presence.hasField ⟨type, presence.default type⟩ name := fun hset => hempty sub (.inl ⟨name, h, hset⟩)
      have hdefault := presence.gives_unset _ name sub h hunset
      obtain ⟨get, mutable, put, hfd, -⟩ := h
      exact ⟨sub.1, ⟨name, get, mutable, put, hfd⟩, Sigma.ext rfl (heq_of_eq hdefault.symm)⟩
    · exact absurd (.inr helement) (hempty sub)
  · rintro ⟨type', ⟨name, get, mutable, put, hfd⟩, rfl⟩
    have h : Gives ref ⟨type, presence.default type⟩ name ⟨type', get (presence.default type)⟩ :=
      ⟨get, mutable, put, hfd, rfl⟩
    have hunset : ¬presence.hasField ⟨type, presence.default type⟩ name := fun hset => hempty _ (.inl ⟨name, h, hset⟩)
    have hdefault := presence.gives_unset _ name _ h hunset
    exact .inl ⟨name, get, mutable, put, hfd, hdefault.symm⟩

/-- A default message is walked as deep as there are types in one another. -/
theorem walked_default {depth : Nat} {type : ref.Descriptor} :
    Walked ref depth (presence.default type) ↔ Within (Singular ref) depth type :=
  Nesting.within_map (f := fun type => (⟨type, presence.default type⟩ : AnyMessage ref)) (submessage_default presence)

theorem singular_finite : Nesting.Finite (Singular ref) := by
  intro type
  refine ⟨(ref.fields type).filterMap fun fd => match fd with | .message _ sub .. => some sub | _ => none, ?_⟩
  rintro sub ⟨name, get, mutable, put, hfd⟩
  exact List.mem_filterMap.2 ⟨_, hfd, rfl⟩

/-- A walk goes into what is present, and into a default message for each field that is not set. -/
theorem submessage_or (sub msg : AnyMessage ref) :
    Submessage ref sub msg ↔ Present ref presence.hasField sub msg ∨
      ∃ type, presence.Unset type msg ∧ sub = ⟨type, presence.default type⟩ := by
  rw [submessage_iff]
  constructor
  · rintro (⟨name, h⟩ | helement)
    · by_cases hset : presence.hasField msg name
      · exact .inl (.inl ⟨name, h, hset⟩)
      · have hdefault := presence.gives_unset msg name sub h hset
        exact .inr ⟨sub.1, ⟨name, sub.2, h, hset⟩, Sigma.ext rfl (heq_of_eq hdefault)⟩
    · exact .inl (.inr helement)
  · rintro ((⟨name, h, -⟩ | helement) | ⟨type, ⟨name, sub, h, hset⟩, rfl⟩)
    · exact .inl ⟨name, h⟩
    · exact .inr helement
    · obtain rfl : sub = presence.default type := presence.gives_unset msg name _ h hset
      exact .inl ⟨name, h⟩

/-- **A message is walked in `depth` calls exactly if what is present is nested no deeper, and below each field that is not set
the chains of types are no longer than what is left of the depth.** -/
theorem walked_iff {depth : Nat} {type : ref.Descriptor} (msg : ref.Message type) :
    Walked ref depth msg ↔ Within (Present ref presence.hasField) depth ⟨type, msg⟩ ∧
      ∀ k sub, Inside (Present ref presence.hasField) k sub ⟨type, msg⟩ → ∀ t, presence.Unset t sub →
        Within (Singular ref) (depth - (k + 1)) t := by
  refine (Nesting.within_or_iff (submessage_or presence)).trans (and_congr_right fun _ => ?_)
  refine forall₃_congr fun k sub _ => ⟨fun h t ht => ?_, fun h c ⟨t, ht, hc⟩ => ?_⟩
  · exact (walked_default presence).1 (h _ ⟨t, ht, rfl⟩)
  · exact hc ▸ (walked_default presence).2 (h t ht)

/-- **It is walked to its end exactly if no chain of types below a field that is not set goes on for ever.** -/
theorem exists_walked_iff {type : ref.Descriptor} (msg : ref.Message type) :
    (∃ depth, Walked ref depth msg) ↔
      ∀ k sub, Inside (Present ref presence.hasField) k sub ⟨type, msg⟩ → ∀ t, presence.Unset t sub → Acc (Singular ref) t := by
  refine (Nesting.exists_within_or_iff submessage_finite (submessage_or presence) (presence.finite _)).trans ?_
  refine forall₃_congr fun k sub _ => ⟨fun h t ht => ?_, fun h c ⟨t, ht, hc⟩ => ?_⟩
  · obtain ⟨n, hn⟩ := h _ ⟨t, ht, rfl⟩
    exact (Nesting.exists_within_iff_acc singular_finite).1 ⟨n, (walked_default presence).1 hn⟩
  · obtain ⟨n, hn⟩ := (Nesting.exists_within_iff_acc singular_finite).2 (h t ht)
    exact ⟨n, hc ▸ (walked_default presence).2 hn⟩

end

/-! ## The walks -/

section

variable {ref : Reflection}

/-- Four slots for each call are enough. -/
theorem fits_of_walked : ∀ {depth n : Nat} {type : ref.Descriptor} {msg : ref.Message type}, Walked ref depth msg →
    4 * depth < n → Fits ref depth msg n
  | 0,         _, _, _,   h, _  => h
  | depth + 1, n, _, msg, h, hn => by
    refine ⟨by omega, fun fd hfd => ⟨by omega, ?_⟩⟩
    have hsub := Bridge.walked_succ.1 h fd hfd
    cases fd with
    | scalar name t get set                 => exact (by omega : 2 < n)
    | message name type get mutable put     => exact fits_of_walked (hsub _ (List.mem_singleton_self _)) (by omega)
    | scalars name t elements add           => exact ⟨by omega, fun _ => by omega⟩
    | messages name type elements added put =>
      refine ⟨by omega, fun element helement => ⟨by omega, ?_⟩⟩
      exact fits_of_walked (hsub _ (List.mem_map.2 ⟨element, helement, rfl⟩)) (by omega)

theorem walked_of_fits : ∀ {depth n : Nat} {type : ref.Descriptor} {msg : ref.Message type}, Fits ref depth msg n →
    Walked ref depth msg
  | 0,         _, _, _,   h => h
  | depth + 1, n, _, msg, h => by
    refine Bridge.walked_succ.2 fun fd hfd sub hsub => ?_
    have hfield := (h.2 fd hfd).2
    cases fd with
    | scalar name t get set                 => cases hsub
    | message name type get mutable put     =>
      obtain rfl := List.mem_singleton.1 hsub
      exact walked_of_fits hfield
    | scalars name t elements add           => cases hsub
    | messages name type elements added put =>
      obtain ⟨element, helement, rfl⟩ := List.mem_map.1 hsub
      exact walked_of_fits (hfield.2 element helement).2

/-- In `depth` calls inside one another `protobuf_new_table` makes the table of a message, given the slots that it takes. -/
def NewTable (ref : Reflection) (depth : Nat) {type : ref.Descriptor} (msg : ref.Message type) : Prop :=
  ∃ limit value, Leaves (LuaStack.protobufNewTable limit ref depth msg) [] [value]

theorem newTable_iff {depth : Nat} {type : ref.Descriptor} {msg : ref.Message type} :
    NewTable ref depth msg ↔ Walked ref depth msg := by
  have hroom (limit : Nat) : (∃ value, Leaves (LuaStack.protobufNewTable limit ref depth msg) [] [value]) ↔ _ :=
    (protobufNewTable_leaves depth msg []).1
  refine (exists_congr hroom).trans ⟨fun ⟨_, h⟩ => walked_of_fits h, fun h => ⟨4 * depth + 1, ?_⟩⟩
  exact fits_of_walked h (Nat.lt_succ_self _)

/-! ## From Lua -/

variable {lua : LuaView}

/-- What is found in a Lua value, by name or by number. -/
def LuaPart (lua : LuaView) (found value : lua.Value) : Prop :=
  (∃ name, lua.getField value name = some found) ∨ ∃ i, lua.isTable value ∧ lua.rawGetI value i = found

/-- The calls inside one another are not too many. -/
def InDepth {α : Type} (m : Bridge lua α) : Prop := Throws (fun halt => halt ≠ .depth) m

namespace Bridge

variable {α β : Type}

theorem orElse_inDepth {value : Option α} {halt : Halt} (hhalt : halt ≠ .depth) :
    ∀ e, orElse value halt = .error e → e ≠ .depth := by
  intro e he
  cases value with
  | none   => exact Except.error.inj he ▸ hhalt
  | some a => cases he

theorem reflect_inDepth (method : ReflectionMethod) (field : FieldKind) :
    InDepth (reflect method field : Bridge lua Unit) := by
  refine Throws.call fun e he => ?_
  split at he
  · cases he
  · exact Except.error.inj he ▸ nofun

theorem store_inDepth {M : Type} (method : ReflectionMethod) (field : FieldKind) (t : CppType) (put : t.Val → M) (msg : M)
    (value : lua.Value) : InDepth (store method field t put msg value) := by
  have hread : InDepth (readArgument t value) := by
    cases t with
    | string => exact Throws.call (orElse_inDepth nofun)
    | _      => exact Throws.of_ok rfl
  unfold store
  split
  · exact Throws.of_ok rfl
  · exact hread.bind fun _ _ => (reflect_inDepth method field).bind fun _ _ => Throws.of_ok rfl

theorem getField_inDepth {value : lua.Value} {name : FieldName} {f : lua.Value → Bridge lua β}
    (hf : ∀ found, LuaPart lua found value → InDepth (f found)) : InDepth (getField value name >>= f) := by
  have hget : InDepth (getField value name) := Throws.call (orElse_inDepth nofun)
  exact hget.bind fun found hok => hf found (.inl ⟨name, orElse_eq_ok.1 hok⟩)

theorem forElements_inDepth {M : Type} {readElement : M → lua.Value → Bridge lua M} {array : lua.Value}
    (helement : ∀ msg element, LuaPart lua element array → InDepth (readElement msg element)) (msg : M) :
    InDepth (forElements readElement array msg) := by
  refine Throws.foldlM (fun i _ msg => ?_) msg
  by_cases htable : lua.isTable array
  · have hget : (rawGetI array i).result = .ok (lua.rawGetI array i) := if_pos htable
    refine (Throws.of_ok hget).bind fun element hok => helement msg element (.inr ⟨i, htable, ?_⟩)
    exact Except.ok.inj (hget.symm.trans hok)
  · have hget : (rawGetI array i).result = .error .undefined := if_neg htable
    have hthrows : InDepth (rawGetI array i) := fun e he => Except.error.inj (hget.symm.trans he) ▸ nofun
    exact hthrows.bind fun element hok => nomatch hget.symm.trans hok

/-- **`fill_lua_table` makes no more calls inside one another than there are Lua values in one another.** -/
theorem fillLuaTable_inDepth : ∀ {depth : Nat} {type : ref.Descriptor} (msg : ref.Message type) {value : lua.Value},
    Within (LuaPart lua) depth value → InDepth (fillLuaTable lua ref depth msg value)
  | 0,         _, _,   _,     h => h.elim
  | depth + 1, _, msg, value, h => by
    refine Throws.foldlM (fun fd _ msg => getField_inDepth fun found hfound => ?_) msg
    have hfill {type : ref.Descriptor} (msg : ref.Message type) := fillLuaTable_inDepth msg (h found hfound)
    cases fd with
    | scalar name t get set                 => exact store_inDepth _ _ t (set msg) msg found
    | message name type get mutable put     => exact (reflect_inDepth _ _).bind fun _ _ => (hfill (mutable msg)).map
    | scalars name t elements add           =>
      exact forElements_inDepth (fun msg element _ => store_inDepth _ _ t (add msg) msg element) msg
    | messages name type elements added put =>
      refine forElements_inDepth (fun msg element helement => (reflect_inDepth _ _).bind fun _ _ => ?_) msg
      exact (fillLuaTable_inDepth added ((h found hfound).of_part helement)).map

end Bridge

end

/-! ## Termination -/

section

variable {ref : Reflection} (presence : Presence ref) (lua : LuaView)

/-- The walks of a message, in `depth` calls inside one another. -/
structure WalksIn (depth : Nat) {type : ref.Descriptor} (msg : ref.Message type) : Prop where
  newTable : NewTable ref depth msg
  traverse : Returns (Bridge.traverseMessage lua ref depth msg)

/-- A message is filled in as many calls as the Lua value is nested. -/
def FillsIn {type : ref.Descriptor} (msg : ref.Message type) : Prop :=
  ∀ depth value, Within (LuaPart lua) depth value → InDepth (Bridge.fillLuaTable lua ref depth msg value)

theorem walksIn_iff {depth : Nat} {type : ref.Descriptor} {msg : ref.Message type} :
    WalksIn lua depth msg ↔ Walked ref depth msg := by
  have htraverse : Returns (Bridge.traverseMessage lua ref depth msg) ↔ _ := (Bridge.traverseMessage_spec depth msg).returns
  exact ⟨fun h => newTable_iff.1 h.newTable, fun h => ⟨newTable_iff.2 h, htraverse.2 h⟩⟩

/-- **The walks end exactly if no chain of types goes on for ever below a field that is not set in what is present; they end
in as many calls as are nested in the message exactly if those chains go no deeper.  `fill_lua_table` ends in as many calls as
are nested in the Lua value.** -/
theorem walks_end_iff (ref : Reflection) (presence : Presence ref) (lua : LuaView) (type : ref.Descriptor)
    (msg : ref.Message type) :
    ((∃ depth, WalksIn lua depth msg) ∧ FillsIn lua msg ↔
      ∀ k sub, Inside (Present ref presence.hasField) k sub ⟨type, msg⟩ → ∀ t, presence.Unset t sub → Acc (Singular ref) t) ∧
    (WalksIn lua (presence.nesting ⟨type, msg⟩) msg ∧ FillsIn lua msg ↔
      ∀ k sub, Inside (Present ref presence.hasField) k sub ⟨type, msg⟩ → ∀ t, presence.Unset t sub →
        Within (Singular ref) (presence.nesting ⟨type, msg⟩ - (k + 1)) t) := by
  have hfills : FillsIn lua msg := fun _ _ h => Bridge.fillLuaTable_inDepth msg h
  constructor
  · rw [and_iff_left hfills, ← exists_walked_iff presence msg]
    exact exists_congr fun _ => walksIn_iff lua
  · rw [and_iff_left hfills, walksIn_iff, walked_iff presence]
    exact and_iff_right (presence.within_nesting ⟨type, msg⟩)

end

/-! ## A recursive message type -/

/-- `message Node { Node next = 1; }`, a message by the number of those that are set in one another. -/
def nodeReflection : Reflection where
  Descriptor := Unit
  Message := fun _ => Nat
  fields := fun _ => [.message [0x6e, 0x65, 0x78, 0x74] () (fun msg => msg - 1) (fun msg => msg - 1) fun _ next => next + 1]
  createMessage := fun name => if name = [0x4e, 0x6f, 0x64, 0x65] then some ⟨(), (0 : Nat)⟩ else none
  parseFromString := fun msg _ => msg
  parseFromZeroCopyStream := fun msg _ => msg
  serializeAsString := fun _ => []
  serializeToZeroCopyStream := fun _ => some []

theorem node_gives {msg sub : AnyMessage nodeReflection} {name : FieldName} (h : Gives nodeReflection msg name sub) :
    sub.2 = Nat.pred msg.2 := by
  obtain ⟨get, mutable, put, hfd, hsub⟩ := h
  cases List.mem_singleton.1 hfd
  exact hsub

theorem node_not_element {msg sub : AnyMessage nodeReflection} : ¬Element nodeReflection sub msg := by
  rintro ⟨name, elements, added, put, hfd, -⟩
  cases List.mem_singleton.1 hfd

def nodePresence : Presence nodeReflection where
  hasField := fun msg _ => msg.2 ≠ Nat.zero
  default := fun _ => Nat.zero
  gives_unset := fun msg name sub h hset => by
    rw [node_gives h, not_not.1 hset]
    rfl
  default_empty := fun type sub h => by
    rcases h with ⟨name, -, hset⟩ | helement
    · exact hset rfl
    · exact node_not_element helement
  finite := fun msg => by
    obtain ⟨_, set⟩ := msg
    refine ⟨Nat.succ set, ?_⟩
    induction set using Nat.rec with
    | zero        =>
      rintro sub (⟨name, -, hset⟩ | helement)
      · exact absurd rfl hset
      · exact absurd helement node_not_element
    | succ set ih =>
      rintro sub (⟨name, h, -⟩ | helement)
      · obtain ⟨_, sub⟩ := sub
        obtain rfl : sub = set := node_gives h
        exact ih
      · exact absurd helement node_not_element

/-- The walks of an empty node do not end. -/
theorem not_walks_end : ¬∀ (ref : Reflection) (_ : Presence ref) (lua : LuaView) (type : ref.Descriptor)
    (msg : ref.Message type), ∃ depth, WalksIn lua depth msg := by
  intro h
  obtain ⟨depth, hwalks⟩ := h nodeReflection nodePresence plainLua.view () Nat.zero
  have hchain : Within (Singular nodeReflection) depth () := (walked_default nodePresence).1 ((walksIn_iff plainLua.view).1 hwalks)
  clear hwalks
  induction depth with
  | zero          => exact hchain
  | succ depth ih => exact ih (hchain () ⟨_, _, _, _, List.mem_singleton_self _⟩)

end Gb
