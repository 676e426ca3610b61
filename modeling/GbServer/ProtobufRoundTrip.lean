import GbServer.ProtobufLua
import Mathlib.Data.List.TakeWhile
/-!
# ProtobufRoundTrip — messages through Lua tables and back

The table of a message is its fields, one after another (`newFields_iff`).  To fill a message from it leaves out the last
element of each repeated field, so that only messages without elements come back; and of those, the ones that say so
field by field (`Kept`).
-/
namespace Gb

open Msgpack (LuaValue IntType widen narrow_widen_iff sequenceFrom length_sequenceFrom same_index set_new)
open FloatBits (binary32 binary64)

/-! ## The table of a message -/

namespace Descriptor

def fieldEntries : (d : Descriptor) → d.Msg → LuaEntries
  | nil,                       _ => []
  | scalar name _ type _ rest, m => (.string name, type.push m.1) :: fieldEntries rest m.2
  | message name _ type rest,  m => (.string name, .table (fieldEntries type m.1)) :: fieldEntries rest m.2
  | scalars name type rest,    m => (.string name, .table (sequenceFrom 0 (m.1.val.map type.push))) :: fieldEntries rest m.2
  | messages name type rest,   m =>
    (.string name, .table (sequenceFrom 0 (m.1.val.map fun element => .table (fieldEntries type element)))) ::
      fieldEntries rest m.2

/-- There are slots for all that is pushed above the table. -/
def Fits : (d : Descriptor) → d.Msg → Nat → Prop
  | nil,                    _, _    => True
  | scalar _ _ _ _ rest,    m, free => 2 ≤ free ∧ Fits rest m.2 free
  | message _ _ type rest,  m, free => (2 ≤ free ∧ Fits type m.1 (free - 2)) ∧ Fits rest m.2 free
  | scalars _ _ rest,       m, free => (2 ≤ free ∧ (m.1.val ≠ [] → 4 ≤ free)) ∧ Fits rest m.2 free
  | messages _ type rest,   m, free =>
    (2 ≤ free ∧ ∀ element ∈ m.1.val, 4 ≤ free ∧ Fits type element (free - 4)) ∧ Fits rest m.2 free

end Descriptor

open Descriptor (fieldEntries)

theorem isNil_push (t : CppType) (v : t.Val) : (t.push v).isNil = false := by
  cases t <;> rfl

/-- None of the entries has one of the names for a key. -/
def Apart (entries : LuaEntries) (names : List FieldName) : Prop :=
  ∀ e ∈ entries, ∀ name ∈ names, LuaValue.same e.1 (.string name) = false

theorem Apart.nil (names : List FieldName) : Apart [] names := by
  intro e he
  cases he

theorem Apart.snoc {entries : LuaEntries} {name : FieldName} {names : List FieldName} (h : Apart entries (name :: names))
    (hname : name ∉ names) (value : LuaValue) : Apart (entries ++ [(.string name, value)]) names := by
  intro e he other hother
  rcases List.mem_append.1 he with he | he
  · exact h e he other (List.mem_cons_of_mem name hother)
  · rw [List.mem_singleton.1 he]
    apply decide_eq_false
    rintro rfl
    exact hname hother

theorem Apart.set {entries : LuaEntries} {name : FieldName} {names : List FieldName} (h : Apart entries (name :: names))
    {value : LuaValue} (hvalue : value.isNil = false) :
    LuaValue.set (.string name) value entries = entries ++ [(.string name, value)] :=
  set_new hvalue entries fun e he => h e he name List.mem_cons_self

/-- The elements of an array are a sequence. -/
theorem setElements_eq : ∀ (values : List LuaValue) (j : Nat) (entries : LuaEntries), j + values.length < 2 ^ 31 →
    (∀ value ∈ values, value.isNil = false) →
    (∀ e ∈ entries, ∃ i ≤ j, e.1 = .integer (IntType.int64.wrap (i : Nat))) →
    setElements j values entries = entries ++ sequenceFrom j values
  | [],              j, entries, _,    _,    _        => (List.append_nil entries).symm
  | value :: values, j, entries, hlen, hnil, hentries => by
    rw [List.length_cons] at hlen
    have hset : LuaValue.set (.integer (IntType.int64.wrap (j + 1 : Nat))) value entries
        = entries ++ [(.integer (IntType.int64.wrap (j + 1 : Nat)), value)] := by
      apply set_new (hnil value List.mem_cons_self)
      intro e he
      obtain ⟨i, hi, hkey⟩ := hentries e he
      rw [hkey]
      exact same_index (by omega) (by omega)
    rw [setElements, hset, setElements_eq values (j + 1) _ (by omega) fun v hv => hnil v (List.mem_cons_of_mem value hv)]
    · rw [List.append_assoc]
      rfl
    · intro e he
      rcases List.mem_append.1 he with he | he
      · obtain ⟨i, hi, hkey⟩ := hentries e he
        exact ⟨i, by omega, hkey⟩
      · rw [List.mem_singleton.1 he]
        exact ⟨j + 1, le_refl _, rfl⟩

theorem setElements_nil {values : List LuaValue} (hlen : values.length < 2 ^ 31)
    (hnil : ∀ value ∈ values, value.isNil = false) : setElements 0 values [] = sequenceFrom 0 values := by
  apply setElements_eq values 0 [] (by omega) hnil
  intro e he
  cases he

theorem mapM_eq_some_iff {α β : Type} {f : α → Option β} {p : α → Prop} {g : α → β} : ∀ {xs : List α} {ys : List β},
    (∀ x ∈ xs, ∀ y, f x = some y ↔ p x ∧ y = g x) → (xs.mapM f = some ys ↔ (∀ x ∈ xs, p x) ∧ ys = xs.map g)
  | [],      ys, _ => by simp [eq_comm]
  | x :: xs, ys, h => by
    have htail := fun ys => @mapM_eq_some_iff α β f p g xs ys fun z hz => h z (List.mem_cons_of_mem x hz)
    have hhead := h x List.mem_cons_self
    simp only [List.mapM_cons, Option.bind_eq_bind, Option.bind_eq_some_iff, Option.pure_def, Option.some_inj, hhead, htail,
      List.forall_mem_cons, List.map_cons]
    constructor
    · rintro ⟨y, ⟨hx, rfl⟩, zs, ⟨hxs, rfl⟩, rfl⟩
      exact ⟨⟨hx, hxs⟩, rfl⟩
    · rintro ⟨⟨hx, hxs⟩, rfl⟩
      exact ⟨_, ⟨hx, rfl⟩, _, ⟨hxs, rfl⟩, rfl⟩

theorem createTable_iff {free : Nat} {fields : Nat → Option LuaEntries} {table : LuaValue} :
    createTable free fields = some table ↔
      1 ≤ free ∧ ∃ entries, fields (free - 1) = some entries ∧ table = .table entries := by
  unfold createTable
  split
  · simp only [reduceCtorEq, false_iff]
    omega
  · have hfree : 1 ≤ free := by omega
    simp only [Option.map_eq_some_iff, eq_comm (b := table), hfree, true_and]

open Descriptor in
/-- **The table of a message is its fields, where there are slots for them.** -/
theorem newFields_iff : ∀ {d : Descriptor} {m : d.Msg} {free : Nat} {entries result : LuaEntries}, d.Named →
    Apart entries d.names →
    (newFields d m free entries = some result ↔ d.Fits m free ∧ result = entries ++ fieldEntries d m)
  | nil, _, free, entries, result, _, _ => by
    rw [newFields, fieldEntries, List.append_nil, Option.some_inj, Fits, true_and, eq_comm]
  | scalar name oneof type default rest, m, free, entries, result, hnamed, hapart => by
    rw [newFields, fieldEntries, List.append_cons, hapart.set (isNil_push type m.1), Fits]
    split
    · simp only [reduceCtorEq, false_iff]
      omega
    · have hfree : 2 ≤ free := by omega
      rw [newFields_iff hnamed.2 (hapart.snoc hnamed.1 _), eq_true hfree, true_and]
  | message name oneof type rest, m, free, entries, result, hnamed, hapart => by
    have htype := fun result => @newFields_iff type m.1 (free - 1 - 1) [] result hnamed.2.1 (Apart.nil type.names)
    have hrest := fun value => @newFields_iff rest m.2 free _ result hnamed.2.2 (hapart.snoc hnamed.1 value)
    rw [newFields, fieldEntries, List.append_cons, Fits]
    simp only [Option.bind_eq_bind, Option.bind_eq_some_iff, createTable_iff, htype, List.nil_append]
    constructor
    · rintro ⟨table, ⟨hfree, entries', ⟨hfits, rfl⟩, rfl⟩, hfields⟩
      rw [hapart.set rfl, hrest] at hfields
      exact ⟨⟨⟨by omega, hfits⟩, hfields.1⟩, hfields.2⟩
    · rintro ⟨⟨⟨hfree, hfits⟩, hfields⟩, hresult⟩
      refine ⟨_, ⟨by omega, _, ⟨hfits, rfl⟩, rfl⟩, ?_⟩
      rw [hapart.set rfl, hrest]
      exact ⟨hfields, hresult⟩
  | scalars name type rest, m, free, entries, result, hnamed, hapart => by
    have helements : setElements 0 (m.1.val.map type.push) [] = sequenceFrom 0 (m.1.val.map type.push) := by
      apply setElements_nil
      · rw [List.length_map]
        exact m.1.2
      · intro value hvalue
        obtain ⟨v, -, rfl⟩ := List.mem_map.1 hvalue
        exact isNil_push type v
    rw [newFields, fieldEntries, List.append_cons, hapart.set rfl, Fits, helements]
    split
    · simp only [reduceCtorEq, false_iff]
      rintro ⟨⟨⟨hfree, hneeded⟩, -⟩, -⟩
      rcases ‹_ ∨ _› with hlt | ⟨hne, hlt⟩
      · omega
      · have := hneeded hne
        omega
    · rename_i hfree
      have hslots : 2 ≤ free ∧ (m.1.val ≠ [] → 4 ≤ free) := by
        refine ⟨by omega, fun hne => ?_⟩
        by_contra hlt
        exact hfree (.inr ⟨hne, by omega⟩)
      rw [newFields_iff hnamed.2 (hapart.snoc hnamed.1 _), eq_true hslots, true_and]
  | messages name type rest, m, free, entries, result, hnamed, hapart => by
    have htype : ∀ element ∈ m.1.val, ∀ table,
        createTable (free - 3) (fun free => newFields type element free []) = some table
          ↔ (4 ≤ free ∧ type.Fits element (free - 4)) ∧ table = .table (fieldEntries type element) := by
      intro element _ table
      simp only [createTable_iff, newFields_iff hnamed.2.1 (Apart.nil type.names), List.nil_append]
      constructor
      · rintro ⟨hfree, entries', ⟨hfits, rfl⟩, rfl⟩
        exact ⟨⟨by omega, hfits⟩, rfl⟩
      · rintro ⟨⟨hfree, hfits⟩, rfl⟩
        exact ⟨by omega, _, ⟨hfits, rfl⟩, rfl⟩
    have helements : setElements 0 (m.1.val.map fun element => .table (fieldEntries type element)) []
        = sequenceFrom 0 (m.1.val.map fun element => .table (fieldEntries type element)) := by
      apply setElements_nil
      · rw [List.length_map]
        exact m.1.2
      · intro value hvalue
        obtain ⟨element, -, rfl⟩ := List.mem_map.1 hvalue
        rfl
    have hrest := fun value => @newFields_iff rest m.2 free _ result hnamed.2.2 (hapart.snoc hnamed.1 value)
    rw [newFields, fieldEntries, List.append_cons, Fits]
    split
    · simp only [Option.bind_eq_bind, Option.bind_none, reduceCtorEq, false_iff]
      omega
    · simp only [Option.bind_eq_bind, Option.bind_eq_some_iff, mapM_eq_some_iff htype]
      constructor
      · rintro ⟨tables, ⟨hfits, rfl⟩, hfields⟩
        rw [hapart.set rfl, helements, hrest] at hfields
        exact ⟨⟨⟨by omega, hfits⟩, hfields.1⟩, hfields.2⟩
      · rintro ⟨⟨⟨-, hfits⟩, hfields⟩, hresult⟩
        refine ⟨_, ⟨hfits, rfl⟩, ?_⟩
        rw [hapart.set rfl, helements, hrest]
        exact ⟨hfields, hresult⟩

/-! ## What comes back -/

/-- There is no zero byte, at which a C string would end. -/
def ZeroFree (bytes : List UInt8) : Prop := 0 ∉ bytes

namespace CppType

/-- What is set from a value that was pushed. -/
def reread : (t : CppType) → t.Val → t.Val
  | float,  bits => BitVec.ofNat 32 (FloatBits.convert binary64 binary32 (widen bits).toNat)
  | string, str  => cString str
  | int32,  n    => n
  | int64,  n    => n
  | uint32, n    => n
  | uint64, n    => n
  | double, bits => bits
  | bool,   b    => b
  | enum,   n    => n

/-- The values that come back: floats that are not signaling NaNs, and strings without zero bytes. -/
def Plain : (t : CppType) → t.Val → Prop
  | float,  bits => binary32.signaling bits.toNat = false
  | string, str  => ZeroFree str
  | _,      _    => True

end CppType

theorem cString_eq_iff {bytes : List UInt8} : cString bytes = bytes ↔ ZeroFree bytes := by
  rw [cString, List.takeWhile_eq_self_iff]
  constructor
  · intro h hzero
    exact absurd (h 0 hzero) (by decide)
  · intro h x hx
    rw [bne_iff_ne]
    rintro rfl
    exact h hx

theorem zeroFree_cString (bytes : List UInt8) : ZeroFree (cString bytes) := by
  intro hzero
  exact absurd (List.mem_takeWhile_imp hzero) (by decide)

theorem reread_eq_iff (t : CppType) (v : t.Val) : t.reread v = v ↔ t.Plain v := by
  cases t with
  | float => exact narrow_widen_iff v
  | string => exact cString_eq_iff
  | _ => exact iff_of_true rfl trivial

theorem wrap_integerOf {t : IntType} (n : t.Val) (lo : IntType.int64.min ≤ t.min) (hi : t.max ≤ IntType.int64.max) :
    t.wrap (integerOf (.integer (IntType.int64.wrap n.val))) = n := by
  rw [integerOf, IntType.int64.wrap_val n.val (lo.trans n.2.1) (n.2.2.trans hi), IntType.wrap_self]

namespace CppType

/-- The types for which a singular field is set with the function for repeated ones. -/
def unsigned : CppType → Bool
  | uint32 | uint64 => true
  | _               => false

end CppType

section

variable (lua : LuaCoercions)

/-- A pushed value is read again; only an enumeration is not. -/
theorem setScalar_push (t : CppType) (default v : t.Val) : setScalar lua t default (t.push v) =
    if t.unsigned then none else some (if t = .enum then (default, false) else (t.reread v, true)) := by
  cases t with
  | int32 => exact congrArg (fun n => some (n, true)) (wrap_integerOf v (by decide) (by decide))
  | int64 => exact congrArg (fun n => some (n, true)) (wrap_integerOf v (by decide) (by decide))
  | string => exact congrArg (fun n => some (n, true)) (cString_eq_iff.2 (zeroFree_cString v))
  | _ => rfl

end

namespace Descriptor

/-- The oneofs of which a member is set. -/
def setOneofs : Descriptor → List Nat
  | nil                         => []
  | scalar _ oneof type _ rest  => if type = .enum then rest.setOneofs else oneof.toList ++ rest.setOneofs
  | message _ oneof _ rest      => oneof.toList ++ rest.setOneofs
  | scalars _ _ rest            => rest.setOneofs
  | messages _ _ rest           => rest.setOneofs

/-- Whether there is a singular field of an unsigned type. -/
def unsigned : Descriptor → Bool
  | nil                    => false
  | scalar _ _ type _ rest => type.unsigned || rest.unsigned
  | message _ _ type rest  => type.unsigned || rest.unsigned
  | scalars _ _ rest       => rest.unsigned
  | messages _ _ rest      => rest.unsigned

/-- The slots for a message without elements, where `n` are needed for a field that is no message. -/
def slots (n : Nat) : Descriptor → Nat
  | nil                   => 0
  | scalar _ _ _ _ rest   => max n (rest.slots n)
  | message _ _ type rest => max (2 + type.slots n) (rest.slots n)
  | scalars _ _ rest      => max n (rest.slots n)
  | messages _ _ rest     => max n (rest.slots n)

/-- There is no element in it. -/
def Bare : (d : Descriptor) → d.Msg → Prop
  | nil,                  _ => True
  | scalar _ _ _ _ rest,  m => Bare rest m.2
  | message _ _ type rest, m => Bare type m.1 ∧ Bare rest m.2
  | scalars _ _ rest,     m => m.1.val = [] ∧ Bare rest m.2
  | messages _ _ rest,    m => m.1.val = [] ∧ Bare rest m.2

/-- What a message is filled with from the table of one without elements. -/
def refill : (d : Descriptor) → d.Msg → d.Msg
  | nil,                              _ => ()
  | scalar _ oneof type default rest, m =>
    (if type = .enum ∨ clears rest.setOneofs oneof then default else type.reread m.1, refill rest m.2)
  | message _ oneof type rest,        m => (if clears rest.setOneofs oneof then type.fresh else refill type m.1, refill rest m.2)
  | scalars _ _ rest,                 m => (.empty, refill rest m.2)
  | messages _ _ rest,                m => (.empty, refill rest m.2)

/-- The messages that are filled from their tables: there are no elements; enumerations and what a later member of its oneof
clears have their defaults; and the other fields have plain values. -/
def Kept : (d : Descriptor) → d.Msg → Prop
  | nil,                              _ => True
  | scalar _ oneof type default rest, m =>
    (if type = .enum ∨ clears rest.setOneofs oneof then m.1 = default else type.Plain m.1) ∧ Kept rest m.2
  | message _ oneof type rest,        m =>
    (if clears rest.setOneofs oneof then m.1 = type.fresh else Kept type m.1) ∧ Kept rest m.2
  | scalars _ _ rest,                 m => m.1.val = [] ∧ Kept rest m.2
  | messages _ _ rest,                m => m.1.val = [] ∧ Kept rest m.2

theorem bare_fresh : ∀ d : Descriptor, d.Bare d.fresh
  | nil                      => trivial
  | scalar _ _ _ _ rest      => bare_fresh rest
  | message _ _ type rest    => ⟨bare_fresh type, bare_fresh rest⟩
  | scalars _ _ rest         => ⟨rfl, bare_fresh rest⟩
  | messages _ _ rest        => ⟨rfl, bare_fresh rest⟩

theorem Kept.bare : ∀ {d : Descriptor} {m : d.Msg}, d.Kept m → d.Bare m
  | nil,                      _, _ => trivial
  | scalar _ _ _ _ rest,      _, h => Kept.bare (d := rest) h.2
  | message _ oneof type rest, m, h => by
    refine ⟨?_, Kept.bare (d := rest) h.2⟩
    have hfield := h.1
    split at hfield
    · rw [hfield]
      exact bare_fresh type
    · exact Kept.bare hfield
  | scalars _ _ rest,         _, h => ⟨h.1, Kept.bare (d := rest) h.2⟩
  | messages _ _ rest,        _, h => ⟨h.1, Kept.bare (d := rest) h.2⟩

theorem refill_eq_iff : ∀ {d : Descriptor} {m : d.Msg}, d.Bare m → (d.refill m = m ↔ d.Kept m)
  | nil,                              _, _ => iff_of_true rfl trivial
  | scalar _ oneof type default rest, m, h => by
    refine Prod.ext_iff.trans (and_congr ?_ (refill_eq_iff (d := rest) h))
    rw [refill]
    split
    · exact eq_comm
    · exact reread_eq_iff type m.1
  | message _ oneof type rest,        m, h => by
    refine Prod.ext_iff.trans (and_congr ?_ (refill_eq_iff (d := rest) h.2))
    rw [refill]
    split
    · exact eq_comm
    · exact refill_eq_iff h.1
  | scalars _ type rest,              m, h =>
    Prod.ext_iff.trans (and_congr (Subtype.ext_iff.trans eq_comm) (refill_eq_iff (d := rest) h.2))
  | messages _ type rest,             m, h =>
    Prod.ext_iff.trans (and_congr (Subtype.ext_iff.trans eq_comm) (refill_eq_iff (d := rest) h.2))

/-- The slots for a message without elements. -/
theorem fits_iff : ∀ {d : Descriptor} {m : d.Msg} {free : Nat}, d.Bare m → (d.Fits m free ↔ d.slots 2 ≤ free)
  | nil,                   _, free, _ => iff_of_true trivial (Nat.zero_le free)
  | scalar _ _ _ _ rest,   m, free, h => by
    rw [Fits, fits_iff (d := rest) h, slots, Nat.max_le]
  | message _ _ type rest, m, free, h => by
    rw [Fits, fits_iff (d := type) h.1, fits_iff (d := rest) h.2, slots, Nat.max_le]
    omega
  | scalars _ _ rest,      m, free, h => by
    have hfield : (2 ≤ free ∧ (m.1.val ≠ [] → 4 ≤ free)) ↔ 2 ≤ free :=
      and_iff_left_of_imp fun _ hne => absurd h.1 hne
    rw [Fits, fits_iff (d := rest) h.2, slots, Nat.max_le, hfield]
  | messages _ type rest,  m, free, h => by
    have hfield : (2 ≤ free ∧ ∀ element ∈ m.1.val, 4 ≤ free ∧ Fits type element (free - 4)) ↔ 2 ≤ free := by
      refine and_iff_left_of_imp fun _ element helement => ?_
      rw [h.1] at helement
      cases helement
    rw [Fits, fits_iff (d := rest) h.2, slots, Nat.max_le, hfield]

end Descriptor

/-! ## To fill a message -/

theorem Apart.rawGet {name : FieldName} {names : List FieldName} {value : LuaValue} {post : LuaEntries} :
    ∀ {entries : LuaEntries}, Apart entries (name :: names) →
      rawGet (.string name) (entries ++ (.string name, value) :: post) = value
  | [],               _ => if_pos (decide_eq_true rfl)
  | entry :: entries, h => by
    have hentry := h entry List.mem_cons_self name List.mem_cons_self
    rw [List.cons_append, Gb.rawGet, hentry, if_neg Bool.false_ne_true]
    exact Apart.rawGet fun e he => h e (List.mem_cons_of_mem entry he)

theorem border_le (entries : LuaEntries) : border entries ≤ entries.length := by
  unfold border
  cases hfind : (List.range entries.length).find? _ with
  | none   => exact le_refl _
  | some n => exact le_of_lt (List.mem_range.1 (List.mem_of_find?_eq_some hfind))

theorem toNat_wrap_le (n : Nat) : (IntType.int32.wrap n).val.toNat ≤ n := by
  change (if (n : Int) % 4294967296 ≤ 2147483647 then (n : Int) % 4294967296 else (n : Int) % 4294967296 - 4294967296).toNat ≤ n
  split <;> omega

/-- Of every value at most one thing is added. -/
theorem length_flatten_mapM {α β : Type} {f : α → Option (List β)}
    (hf : ∀ x added, f x = some added → added.length ≤ 1) : ∀ {xs : List α} {ys : List (List β)}, xs.mapM f = some ys → ys.flatten.length ≤ xs.length
  | [],      _, h => by
    cases h
    exact le_refl 0
  | x :: xs, _, h => by
    simp only [List.mapM_cons, Option.bind_eq_bind, Option.bind_eq_some_iff, Option.pure_def, Option.some_inj] at h
    obtain ⟨added, hadded, ys, hys, rfl⟩ := h
    have hone := hf x added hadded
    have htail := length_flatten_mapM hf hys
    rw [List.flatten_cons, List.length_append, List.length_cons]
    omega

section

variable {lua : LuaCoercions}

theorem readElements_nil {α : Type} {free : Nat} {read : LuaValue → Option (List α)} :
    readElements free (.table (sequenceFrom 0 [])) read = some .empty := rfl

/-- **The last element is left out.** -/
theorem readElements_length {α : Type} {free : Nat} {values : List LuaValue} {read : LuaValue → Option (List α)}
    {result : Repeated α} (hread : ∀ value added, read value = some added → added.length ≤ 1)
    (h : readElements free (.table (sequenceFrom 0 values)) read = some result) :
    result.val.length ≤ values.length - 1 := by
  simp only [readElements, Option.bind_eq_bind, Option.bind_eq_some_iff] at h
  obtain ⟨added, hadded, hresult⟩ := h
  have hborder := border_le (sequenceFrom 0 values)
  have hwrap := toNat_wrap_le (border (sequenceFrom 0 values))
  have hlength := length_flatten_mapM (fun i added h => by
    split at h
    · cases h
    · obtain ⟨value, -, hvalue⟩ := Option.bind_eq_some_iff.1 h
      exact hread value added hvalue) hadded
  rw [List.length_range', luaRawLen] at hlength
  rw [length_sequenceFrom] at hborder
  split at hresult
  · cases hresult
    change added.flatten.length ≤ values.length - 1
    omega
  · cases hresult

/-- Elements come back only where there are none. -/
theorem readElements_eq {α : Type} {free : Nat} {elements : Repeated α} {values : List LuaValue}
    {read : LuaValue → Option (List α)} (hlength : values.length = elements.val.length)
    (hread : ∀ value added, read value = some added → added.length ≤ 1)
    (h : readElements free (.table (sequenceFrom 0 values)) read = some elements) : elements.val = [] := by
  have hleft := readElements_length hread h
  exact List.eq_nil_of_length_eq_zero (by omega)

theorem pushValue_iff {α : Type} {free : Nat} {fields : Nat → Option α} {a : α} :
    pushValue free fields = some a ↔ 1 ≤ free ∧ fields (free - 1) = some a := by
  unfold pushValue
  split
  · simp only [reduceCtorEq, false_iff]
    omega
  · have hfree : 1 ≤ free := by omega
    rw [eq_true hfree, true_and]

theorem Apart.getField {entries post : LuaEntries} {name : FieldName} {names : List FieldName} {value : LuaValue}
    (h : Apart entries (name :: names)) :
    luaGetField lua (.table (entries ++ (.string name, value) :: post)) name = some value :=
  congrArg some h.rawGet

section

variable {name : FieldName} {oneof : Option Nat} {rest : Descriptor} {free : Nat} {table value : LuaValue} {set : List Nat}

theorem fillFields_scalar {type : CppType} {default : type.Val} {m : (Descriptor.scalar name oneof type default rest).Msg}
    (hget : luaGetField lua table name = some value) :
    fillFields lua (.scalar name oneof type default rest) free table = some (m, set) ↔
      1 ≤ free ∧ ∃ v isSet set', setScalar lua type default value = some (v, isSet) ∧
        fillFields lua rest free table = some (m.2, set') ∧
        m.1 = (if clears set' oneof then default else v) ∧ set = if isSet then oneof.toList ++ set' else set' := by
  simp only [fillFields, hget, Option.bind_eq_bind, Option.bind_some, Option.pure_def]
  split
  · exact iff_of_false nofun fun h => by omega
  · have hfree : 1 ≤ free := by omega
    simp only [Option.bind_eq_some_iff, Option.some_inj, eq_true hfree, true_and]
    constructor
    · rintro ⟨⟨v, isSet⟩, hscalar, ⟨m', set'⟩, hrest, heq⟩
      cases heq
      exact ⟨v, isSet, set', hscalar, hrest, rfl, rfl⟩
    · rintro ⟨v, isSet, set', hscalar, hrest, hm, rfl⟩
      exact ⟨(v, isSet), hscalar, (m.2, set'), hrest, Prod.ext (Prod.ext hm.symm rfl) rfl⟩

theorem fillFields_message {type : Descriptor} {m : (Descriptor.message name oneof type rest).Msg}
    (hget : luaGetField lua table name = some value) :
    fillFields lua (.message name oneof type rest) free table = some (m, set) ↔
      2 ≤ free ∧ ∃ subMsg inner set', fillFields lua type (free - 2) value = some (subMsg, inner) ∧
        fillFields lua rest free table = some (m.2, set') ∧
        m.1 = (if clears set' oneof then type.fresh else subMsg) ∧ set = oneof.toList ++ set' := by
  simp only [fillFields, hget, Option.bind_eq_bind, Option.bind_some, Option.pure_def]
  split
  · exact iff_of_false nofun fun h => by omega
  · simp only [Option.bind_eq_some_iff, Option.some_inj, pushValue_iff]
    constructor
    · rintro ⟨⟨subMsg, inner⟩, ⟨hfree, hsub⟩, ⟨m', set'⟩, hrest, heq⟩
      cases heq
      exact ⟨by omega, subMsg, inner, set', hsub, hrest, rfl, rfl⟩
    · rintro ⟨hfree, subMsg, inner, set', hsub, hrest, hm, rfl⟩
      exact ⟨(subMsg, inner), ⟨by omega, hsub⟩, (m.2, set'), hrest, Prod.ext (Prod.ext hm.symm rfl) rfl⟩

/-- What is read for an element of a scalar type. -/
def readScalar (lua : LuaCoercions) (type : CppType) (value : LuaValue) : Option (List type.Val) :=
  if type = .enum then some [] else (type.read lua value).map fun v => [v]

/-- What is read for an element of a message type. -/
def readMessage (lua : LuaCoercions) (type : Descriptor) (free : Nat) (value : LuaValue) : Option (List type.Msg) :=
  pushValue free fun free => (fillFields lua type free value).map fun filled => [filled.1]

theorem readScalar_length {type : CppType} {value : LuaValue} {added : List type.Val}
    (h : readScalar lua type value = some added) : added.length ≤ 1 := by
  unfold readScalar at h
  split at h
  · cases h
    exact Nat.zero_le 1
  · obtain ⟨v, -, rfl⟩ := Option.map_eq_some_iff.1 h
    exact le_refl 1

theorem readMessage_length {type : Descriptor} {value : LuaValue} {added : List type.Msg}
    (h : readMessage lua type free value = some added) : added.length ≤ 1 := by
  obtain ⟨-, h⟩ := pushValue_iff.1 h
  obtain ⟨filled, -, rfl⟩ := Option.map_eq_some_iff.1 h
  exact le_refl 1

theorem bind_elements_iff {α β : Type} {x : Option α} {y : Option (β × List Nat)} {m : α × β} :
    (x.bind fun elements => y.bind fun filled => some ((elements, filled.1), filled.2)) = some (m, set) ↔
      x = some m.1 ∧ y = some (m.2, set) := by
  simp only [Option.bind_eq_some_iff, Option.some_inj]
  constructor
  · rintro ⟨elements, helements, ⟨m', set'⟩, hrest, heq⟩
    cases heq
    exact ⟨helements, hrest⟩
  · rintro ⟨helements, hrest⟩
    exact ⟨m.1, helements, (m.2, set), hrest, rfl⟩

theorem fillFields_scalars {type : CppType} {m : (Descriptor.scalars name type rest).Msg}
    (hget : luaGetField lua table name = some value) :
    fillFields lua (.scalars name type rest) free table = some (m, set) ↔
      1 ≤ free ∧ readElements (free - 1) value (readScalar lua type) = some m.1 ∧
        fillFields lua rest free table = some (m.2, set) := by
  simp only [fillFields, hget, Option.bind_eq_bind, Option.bind_some, Option.pure_def]
  split
  · exact iff_of_false nofun fun h => by omega
  · have hfree : 1 ≤ free := by omega
    rw [eq_true hfree, true_and]
    exact bind_elements_iff

theorem fillFields_messages {type : Descriptor} {m : (Descriptor.messages name type rest).Msg}
    (hget : luaGetField lua table name = some value) :
    fillFields lua (.messages name type rest) free table = some (m, set) ↔
      1 ≤ free ∧ readElements (free - 1) value (readMessage lua type (free - 2)) = some m.1 ∧
        fillFields lua rest free table = some (m.2, set) := by
  simp only [fillFields, hget, Option.bind_eq_bind, Option.bind_some, Option.pure_def]
  split
  · exact iff_of_false nofun fun h => by omega
  · have hfree : 1 ≤ free := by omega
    rw [eq_true hfree, true_and]
    exact bind_elements_iff

end

open Descriptor in
/-- **A message that comes back has no elements.** -/
theorem bare_of_fillFields : ∀ {d : Descriptor} {m : d.Msg} {free : Nat} {entries : LuaEntries} {set : List Nat}, d.Named →
    Apart entries d.names → fillFields lua d free (.table (entries ++ fieldEntries d m)) = some (m, set) → d.Bare m
  | nil, _, _, _, _, _, _, _ => trivial
  | scalar name oneof type default rest, m, free, entries, set, hnamed, hapart, h => by
    rw [fieldEntries, fillFields_scalar hapart.getField, List.append_cons] at h
    obtain ⟨-, v, isSet, set', -, hrest, -, -⟩ := h
    exact bare_of_fillFields (d := rest) hnamed.2 (hapart.snoc hnamed.1 _) hrest
  | message name oneof type rest, m, free, entries, set, hnamed, hapart, h => by
    rw [fieldEntries, fillFields_message hapart.getField, List.append_cons] at h
    obtain ⟨-, subMsg, inner, set', hsub, hrest, hm, -⟩ := h
    refine ⟨?_, bare_of_fillFields (d := rest) hnamed.2.2 (hapart.snoc hnamed.1 _) hrest⟩
    split at hm
    · rw [hm]
      exact bare_fresh type
    · rw [← hm] at hsub
      exact bare_of_fillFields hnamed.2.1 (Apart.nil type.names) hsub
  | scalars name type rest, m, free, entries, set, hnamed, hapart, h => by
    rw [fieldEntries, fillFields_scalars hapart.getField, List.append_cons] at h
    exact ⟨readElements_eq (List.length_map _) (fun _ _ => readScalar_length) h.2.1,
      bare_of_fillFields (d := rest) hnamed.2 (hapart.snoc hnamed.1 _) h.2.2⟩
  | messages name type rest, m, free, entries, set, hnamed, hapart, h => by
    rw [fieldEntries, fillFields_messages hapart.getField, List.append_cons] at h
    exact ⟨readElements_eq (List.length_map _) (fun _ _ => readMessage_length) h.2.1,
      bare_of_fillFields (d := rest) hnamed.2.2 (hapart.snoc hnamed.1 _) h.2.2⟩

theorem and_empty_iff {α β : Type} {m : Repeated α × β} {y : β} {p q r t : Prop} :
    p ∧ Repeated.empty = m.1 ∧ q ∧ r ∧ m.2 = y ∧ t ↔ (p ∧ q) ∧ r ∧ m = (.empty, y) ∧ t := by
  constructor
  · rintro ⟨hp, helements, hq, hr, hm, ht⟩
    exact ⟨⟨hp, hq⟩, hr, Prod.ext helements.symm hm, ht⟩
  · rintro ⟨⟨hp, hq⟩, hr, rfl, ht⟩
    exact ⟨hp, rfl, hq, hr, rfl, ht⟩

open Descriptor in
/-- What a message is filled with from the table of one without elements. -/
theorem fillFields_iff : ∀ {d : Descriptor} {m m' : d.Msg} {free : Nat} {entries : LuaEntries} {set : List Nat}, d.Named →
    Apart entries d.names → d.Bare m →
    (fillFields lua d free (.table (entries ++ fieldEntries d m)) = some (m', set) ↔
      d.slots 1 ≤ free ∧ d.unsigned = false ∧ m' = d.refill m ∧ set = d.setOneofs)
  | nil, _, _, free, _, set, _, _, _ => by
    rw [fillFields, slots, Descriptor.unsigned, setOneofs, Option.some_inj]
    constructor
    · intro h
      cases h
      exact ⟨Nat.zero_le free, rfl, rfl, rfl⟩
    · rintro ⟨-, -, rfl, rfl⟩
      rfl
  | scalar name oneof type default rest, m, m', free, entries, set, hnamed, hapart, hbare => by
    have hrest := fun m' set => @fillFields_iff rest m.2 m' free _ set hnamed.2
      (hapart.snoc hnamed.1 (type.push m.1)) hbare
    rw [fieldEntries, fillFields_scalar hapart.getField, List.append_cons, setScalar_push, slots, Nat.max_le,
      Descriptor.unsigned, Bool.or_eq_false_iff, refill, setOneofs]
    simp only [hrest]
    constructor
    · rintro ⟨hfree, v, isSet, set', hscalar, ⟨hslots, hunsigned, hm, rfl⟩, hv, rfl⟩
      split at hscalar
      · cases hscalar
      rename_i hsigned
      refine ⟨⟨hfree, hslots⟩, ⟨Bool.eq_false_of_not_eq_true hsigned, hunsigned⟩, ?_⟩
      by_cases htype : type = .enum
      · rw [if_pos htype] at hscalar
        cases hscalar
        rw [ite_self] at hv
        rw [if_pos (.inl htype), if_pos htype]
        exact ⟨Prod.ext hv hm, rfl⟩
      · rw [if_neg htype] at hscalar
        cases hscalar
        simp only [htype, false_or, if_false]
        exact ⟨Prod.ext hv hm, rfl⟩
    · rintro ⟨⟨hfree, hslots⟩, ⟨hsigned, hunsigned⟩, rfl, rfl⟩
      rw [hsigned, if_neg Bool.false_ne_true]
      by_cases htype : type = .enum
      · rw [if_pos htype, if_pos (.inl htype), if_pos htype]
        exact ⟨hfree, _, _, _, rfl, ⟨hslots, hunsigned, rfl, rfl⟩, (ite_self _).symm, rfl⟩
      · simp only [htype, false_or, if_false]
        exact ⟨hfree, _, _, _, rfl, ⟨hslots, hunsigned, trivial, rfl⟩, rfl, rfl⟩
  | message name oneof type rest, m, m', free, entries, set, hnamed, hapart, hbare => by
    have htype := fun m' set => @fillFields_iff type m.1 m' (free - 2) [] set hnamed.2.1 (Apart.nil type.names) hbare.1
    have hrest := fun m' set => @fillFields_iff rest m.2 m' free _ set hnamed.2.2
      (hapart.snoc hnamed.1 (.table (fieldEntries type m.1))) hbare.2
    rw [List.nil_append] at htype
    rw [fieldEntries, fillFields_message hapart.getField, List.append_cons, slots, Nat.max_le, Descriptor.unsigned,
      Bool.or_eq_false_iff, refill, setOneofs]
    simp only [htype, hrest]
    constructor
    · rintro ⟨hfree, subMsg, inner, set', ⟨hslots, hunsigned, rfl, rfl⟩, ⟨hslots', hunsigned', hm, rfl⟩, hsub, rfl⟩
      exact ⟨⟨by omega, hslots'⟩, ⟨hunsigned, hunsigned'⟩, Prod.ext hsub hm, rfl⟩
    · rintro ⟨⟨hslots, hslots'⟩, ⟨hunsigned, hunsigned'⟩, rfl, rfl⟩
      exact ⟨by omega, _, _, _, ⟨by omega, hunsigned, rfl, rfl⟩, ⟨hslots', hunsigned', rfl, rfl⟩, rfl, rfl⟩
  | scalars name type rest, m, m', free, entries, set, hnamed, hapart, hbare => by
    rw [fieldEntries, fillFields_scalars hapart.getField, List.append_cons,
      fillFields_iff hnamed.2 (hapart.snoc hnamed.1 _) hbare.2, hbare.1, List.map_nil, readElements_nil,
      slots, Nat.max_le, Descriptor.unsigned, refill, setOneofs, Option.some_inj]
    exact and_empty_iff
  | messages name type rest, m, m', free, entries, set, hnamed, hapart, hbare => by
    rw [fieldEntries, fillFields_messages hapart.getField, List.append_cons,
      fillFields_iff hnamed.2.2 (hapart.snoc hnamed.1 _) hbare.2, hbare.1, List.map_nil, readElements_nil,
      slots, Nat.max_le, Descriptor.unsigned, refill, setOneofs, Option.some_inj]
    exact and_empty_iff

end

/-! ## Round trips -/

/-- Two values of which one value is pushed. -/
def CppType.Alike : (t : CppType) → t.Val → t.Val → Prop
  | float,  x, y => widen x = widen y
  | string, x, y => cString x = cString y
  | _,      x, y => x = y

namespace Descriptor

/-- Two messages that are alike in every field. -/
def Alike : (d : Descriptor) → d.Msg → d.Msg → Prop
  | nil,                    _, _  => True
  | scalar _ _ type _ rest, m, m' => type.Alike m.1 m'.1 ∧ Alike rest m.2 m'.2
  | message _ _ type rest,  m, m' => Alike type m.1 m'.1 ∧ Alike rest m.2 m'.2
  | scalars _ type rest,    m, m' => List.Forall₂ type.Alike m.1.val m'.1.val ∧ Alike rest m.2 m'.2
  | messages _ type rest,   m, m' => List.Forall₂ (Alike type) m.1.val m'.1.val ∧ Alike rest m.2 m'.2

theorem Alike.bare : ∀ {d : Descriptor} {m m' : d.Msg}, d.Alike m m' → d.Bare m' → d.Bare m
  | nil,                   _, _,  _, _      => trivial
  | scalar _ _ _ _ rest,   _, _,  h, hbare  => Alike.bare (d := rest) h.2 hbare
  | message _ _ type rest, _, _,  h, hbare  => ⟨Alike.bare h.1 hbare.1, Alike.bare (d := rest) h.2 hbare.2⟩
  | scalars _ _ rest,      m, m', h, hbare => by
    have helements := h.1
    rw [hbare.1, List.forall₂_nil_right_iff] at helements
    exact ⟨helements, Alike.bare (d := rest) h.2 hbare.2⟩
  | messages _ type rest,  m, m', h, hbare => by
    have helements := h.1
    rw [hbare.1, List.forall₂_nil_right_iff] at helements
    exact ⟨helements, Alike.bare (d := rest) h.2 hbare.2⟩

end Descriptor

theorem val_wrap_emod (t : IntType) (n : Int) : (t.wrap n).val % t.modulus = n % t.modulus := by
  unfold IntType.wrap
  dsimp only
  split
  · exact Int.emod_emod_of_dvd n (dvd_refl _)
  · rw [Int.sub_emod_right, Int.emod_emod_of_dvd n (dvd_refl _)]

theorem wrap_int64_inj {t : IntType} {x y : t.Val} : IntType.int64.wrap x.val = IntType.int64.wrap y.val ↔ x = y := by
  refine ⟨fun h => Subtype.ext ?_, fun h => by rw [h]⟩
  have hx := val_wrap_emod .int64 x.val
  have hy := val_wrap_emod .int64 y.val
  rw [h, hy] at hx
  have hboundsx := x.2
  have hboundsy := y.2
  cases t <;> simp only [IntType.min, IntType.max, IntType.modulus] at hx hboundsx hboundsy <;> omega

theorem push_eq_iff (t : CppType) (x y : t.Val) : t.push x = t.push y ↔ t.Alike x y := by
  cases t with
  | int32 | int64 | uint32 | uint64 | enum => exact (LuaValue.integer.injEq _ _).to_iff.trans wrap_int64_inj
  | double | float => exact (LuaValue.number.injEq _ _).to_iff
  | bool => exact (LuaValue.boolean.injEq _ _).to_iff
  | string => exact (LuaValue.string.injEq _ _).to_iff

theorem sequenceFrom_inj : ∀ {xs ys : List LuaValue} {i : Nat}, sequenceFrom i xs = sequenceFrom i ys ↔ xs = ys
  | [],      [],      _ => iff_of_true rfl rfl
  | [],      _ :: _,  _ => iff_of_false nofun nofun
  | _ :: _,  [],      _ => iff_of_false nofun nofun
  | x :: xs, y :: ys, i => by
    rw [sequenceFrom, sequenceFrom, List.cons.injEq, Prod.mk.injEq, sequenceFrom_inj, List.cons.injEq, eq_self, true_and]

theorem map_eq_map_iff {α : Type} {f : α → LuaValue} {r : α → α → Prop} (h : ∀ x y, f x = f y ↔ r x y) {xs ys : List α} :
    xs.map f = ys.map f ↔ List.Forall₂ r xs ys := by
  rw [← List.forall₂_eq_eq_eq, List.forall₂_map_left_iff, List.forall₂_map_right_iff]
  simp only [h]

open Descriptor in
/-- Two messages have one table, where they are alike. -/
theorem fieldEntries_eq_iff : ∀ {d : Descriptor} {m m' : d.Msg}, fieldEntries d m = fieldEntries d m' ↔ d.Alike m m'
  | nil, _, _ => iff_of_true rfl trivial
  | scalar name oneof type default rest, m, m' => by
    rw [fieldEntries, fieldEntries, List.cons.injEq, Prod.mk.injEq, fieldEntries_eq_iff, push_eq_iff, Descriptor.Alike,
      eq_self, true_and]
  | message name oneof type rest, m, m' => by
    rw [fieldEntries, fieldEntries, List.cons.injEq, Prod.mk.injEq, LuaValue.table.injEq, fieldEntries_eq_iff,
      fieldEntries_eq_iff, Descriptor.Alike, eq_self, true_and]
  | scalars name type rest, m, m' => by
    rw [fieldEntries, fieldEntries, List.cons.injEq, Prod.mk.injEq, LuaValue.table.injEq, sequenceFrom_inj,
      map_eq_map_iff (push_eq_iff type), fieldEntries_eq_iff, Descriptor.Alike, eq_self, true_and]
  | messages name type rest, m, m' => by
    have htype : ∀ x y : type.Msg, LuaValue.table (fieldEntries type x) = .table (fieldEntries type y) ↔ type.Alike x y :=
      fun x y => (LuaValue.table.injEq _ _).to_iff.trans fieldEntries_eq_iff
    rw [fieldEntries, fieldEntries, List.cons.injEq, Prod.mk.injEq, LuaValue.table.injEq, sequenceFrom_inj,
      map_eq_map_iff htype, fieldEntries_eq_iff, Descriptor.Alike, eq_self, true_and]

theorem protobufNewTable_iff {d : Descriptor} {m : d.Msg} {free : Nat} {table : LuaValue} (hnamed : d.Named) :
    protobufNewTable d m free = some table ↔ 1 ≤ free ∧ d.Fits m (free - 1) ∧ table = .table (fieldEntries d m) := by
  simp only [protobufNewTable, createTable_iff, newFields_iff hnamed (Apart.nil d.names), List.nil_append]
  constructor
  · rintro ⟨hfree, entries, ⟨hfits, rfl⟩, rfl⟩
    exact ⟨hfree, hfits, rfl⟩
  · rintro ⟨hfree, hfits, rfl⟩
    exact ⟨hfree, _, ⟨hfits, rfl⟩, rfl⟩

/-- **The messages that are filled from their tables.** -/
theorem fillLuaTable_iff {lua : LuaCoercions} {d : Descriptor} {m : d.Msg} {free : Nat} (hnamed : d.Named) :
    fillLuaTable lua d free (.table (fieldEntries d m)) = some m ↔
      1 + d.slots 1 ≤ free ∧ d.unsigned = false ∧ d.Kept m := by
  have hfill := fun set => @fillFields_iff lua d m m (free - 1) [] set hnamed (Apart.nil d.names)
  rw [List.nil_append] at hfill
  simp only [fillLuaTable, pushValue_iff, Option.map_eq_some_iff]
  constructor
  · rintro ⟨hfree, ⟨m', set⟩, hfields, rfl⟩
    have hbare := bare_of_fillFields hnamed (Apart.nil d.names) hfields
    obtain ⟨hslots, hunsigned, hm, -⟩ := (hfill set hbare).1 hfields
    exact ⟨by omega, hunsigned, (Descriptor.refill_eq_iff hbare).1 hm.symm⟩
  · rintro ⟨hfree, hunsigned, hkept⟩
    have hbare := hkept.bare
    have hm := ((Descriptor.refill_eq_iff hbare).2 hkept).symm
    exact ⟨by omega, (m, d.setOneofs), (hfill _ hbare).2 ⟨by omega, hunsigned, hm, rfl⟩, rfl⟩

/-- The message comes back from its table, and what is decoded from its bytes has the same table. -/
def ProtoRoundTrips (lua : LuaCoercions) (d : Descriptor) (serialize : d.Msg → List UInt8) (parse : List UInt8 → d.Msg)
    (free free' : Nat) (m : d.Msg) : Prop :=
  (∃ table, protobufNewTable d m free = some table ∧ fillLuaTable lua d free' table = some m) ∧
    ∃ table, protobufNewTable d m free = some table ∧ protoDecode d parse (serialize m) free = some table

/-- **The messages that come back through Lua.** -/
theorem protoRoundTrips_iff {lua : LuaCoercions} {d : Descriptor} {serialize : d.Msg → List UInt8}
    {parse : List UInt8 → d.Msg} {free free' : Nat} {m : d.Msg} (hnamed : d.Named) (hparse : parse (serialize m) = m) :
    ProtoRoundTrips lua d serialize parse free free' m ↔
      1 + d.slots 2 ≤ free ∧ 1 + d.slots 1 ≤ free' ∧ d.unsigned = false ∧ d.Kept m ∧
        (ZeroFree (serialize m) ∨ d.Alike (parse (cString (serialize m))) m) := by
  simp only [ProtoRoundTrips, protoDecode, protobufNewTable_iff hnamed]
  constructor
  · rintro ⟨⟨table, ⟨hfree, hfits, rfl⟩, hfill⟩, table', ⟨-, -, rfl⟩, -, -, htable⟩
    obtain ⟨hfree', hunsigned, hkept⟩ := (fillLuaTable_iff hnamed).1 hfill
    have hslots := (Descriptor.fits_iff hkept.bare).1 hfits
    rw [LuaValue.table.injEq, eq_comm, fieldEntries_eq_iff] at htable
    exact ⟨by omega, hfree', hunsigned, hkept, .inr htable⟩
  · rintro ⟨hfree, hfree', hunsigned, hkept, hbytes⟩
    have hfits := (Descriptor.fits_iff hkept.bare).2 (show d.slots 2 ≤ free - 1 by omega)
    have hfill : fillLuaTable lua d free' (.table (fieldEntries d m)) = some m :=
      (fillLuaTable_iff hnamed).2 ⟨hfree', hunsigned, hkept⟩
    have halike : d.Alike (parse (cString (serialize m))) m := by
      rcases hbytes with hzero | halike
      · rw [cString_eq_iff.2 hzero, hparse]
        exact fieldEntries_eq_iff.1 rfl
      · exact halike
    have hfits' := (Descriptor.fits_iff (halike.bare hkept.bare)).2 (show d.slots 2 ≤ free - 1 by omega)
    refine ⟨⟨_, ⟨by omega, hfits, rfl⟩, hfill⟩, _, ⟨by omega, hfits, rfl⟩, by omega, hfits', ?_⟩
    rw [fieldEntries_eq_iff.2 halike]

/-- What Lua does with plain strings and with indices into other values. -/
def noCoercions : LuaCoercions where
  toNumber := fun _ => .nil
  toText := fun _ => []
  index := fun _ _ => none

/-- `int32 id = 1; string text = 2; Flags flags = 3;`, with `bool on = 1;` in the flags. -/
def noteDescriptor : Descriptor :=
  .scalar [105, 100] none .int32 ⟨0, by decide⟩ <| .scalar [116, 101, 120, 116] none .string [] <|
    .message [102, 108, 97, 103, 115] none (.scalar [111, 110] none .bool false .nil) .nil

/-- An id of 5, the text `hi` and the flag. -/
def note : noteDescriptor.Msg := (⟨5, by decide⟩, [104, 105], (true, ()), ())

def noteBytes : List UInt8 := [0x08, 5, 0x12, 2, 104, 105, 0x1a, 2, 0x08, 1]

theorem protoRoundTrips_note : ProtoRoundTrips noCoercions noteDescriptor (fun _ => noteBytes)
    (fun bytes => if bytes = noteBytes then note else noteDescriptor.fresh) 20 20 note := by
  refine (protoRoundTrips_iff ?_ (if_pos rfl)).2 ⟨by decide, by decide, rfl, ?_, .inl ?_⟩
  · simp [noteDescriptor, Descriptor.Named, Descriptor.names]
  · simp [noteDescriptor, note, Descriptor.Kept, Descriptor.setOneofs, clears, CppType.Plain, ZeroFree]
  · simp [noteBytes, ZeroFree]

/-- `repeated int32 n = 1;`. -/
def numbersDescriptor : Descriptor := .scalars [110] .int32 .nil

/-- The one number is left out, whatever slots there are. -/
theorem not_protoRoundTrips : ¬∃ free free', ProtoRoundTrips noCoercions numbersDescriptor (fun _ => [0x0a, 1, 7])
    (fun _ => (⟨[⟨7, by decide⟩], by decide⟩, ())) free free' (⟨[⟨7, by decide⟩], by decide⟩, ()) := by
  rintro ⟨free, free', ⟨table, htable, hfill⟩, -⟩
  have hnamed : numbersDescriptor.Named := ⟨nofun, trivial⟩
  obtain ⟨-, -, rfl⟩ := (protobufNewTable_iff hnamed).1 htable
  have hkept := ((fillLuaTable_iff hnamed).1 hfill).2.2
  cases hkept.1

end Gb
