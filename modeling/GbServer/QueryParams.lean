import GbServer.Lib.DecimalText
import GbServer.Lib.GrowingVector
import GbServer.Lib.IntegerText
import Mathlib.Data.List.Forall2
/-!
# QueryParams — the parameters of a PostgreSQL query

`DbValue` (`db_value.h`), and the arrays that `PgConnection` makes of a list of them for `PQsendQueryParams`
(`pg_connection.cpp`).  The texts lie in a vector with room for all of them, so that the pointers to them stay good while it
grows and when it is moved (`convert_spec`).  What goes wrong is the text: a string with a tag has nothing in the union, which
the tags of numbers are read from, and the tags beyond those are not written at all (`handsOver_iff`).
-/
namespace Gb.QueryParams

open GrowingVector (Vec Ptr)
open FloatBits (binary32 binary64 convert)
open DecimalText (percentF)
open IntegerText (ofInt readInt readInt_ofInt length_ofInt)

abbrev Text := List Char

inductive DbFieldType
  | null
  | bool
  | int8
  | int16
  | int32
  | int64
  | uint64
  | float
  | double
  | numeric
  | string
  | blob
  | date
  | time
  | timestamp
  | timestamptz
  | interval
  | uuid
  | json
  | inet
  | macaddr
  | geometry
  | tsvector
  | range
  | pgLsn
  | xml
  | array
  | money
  | bit
  deriving DecidableEq

/-! ## Values -/

/-- A value of `w` bits is stored in the union: the bytes behind it stay what they were. -/
def store {w : Nat} (value : BitVec w) (rest : BitVec 64) : BitVec 64 :=
  BitVec.ofNat 64 (value.toNat + 2 ^ w * (rest.toNat / 2 ^ w))

def load (w : Nat) (union : BitVec 64) : BitVec w := union.setWidth w

theorem load_store {w : Nat} (hw : w ≤ 64) (value : BitVec w) (rest : BitVec 64) : load w (store value rest) = value := by
  apply BitVec.eq_of_toNat_eq
  rw [load, store, BitVec.toNat_setWidth, BitVec.toNat_ofNat, Nat.mod_mod_of_dvd _ (Nat.pow_dvd_pow 2 hw),
    Nat.add_mul_mod_self_left, Nat.mod_eq_of_lt value.isLt]

structure DbValue where
  type  : DbFieldType
  union : BitVec 64
  str   : Text

namespace DbValue

variable (p : DbValue)

def isNull : Bool := decide (p.type = .null)

def asBool : Bool := decide (load 8 p.union ≠ 0)

def asInt8 : Int := (load 8 p.union).toInt

def asInt16 : Int := (load 16 p.union).toInt

def asInt32 : Int := (load 32 p.union).toInt

def asInt64 : Int := (load 64 p.union).toInt

def asUint64 : Nat := (load 64 p.union).toNat

def asFloat : BitVec 32 := load 32 p.union

def asDouble : BitVec 64 := load 64 p.union

end DbValue

/-- The constructors of a `DbValue`, those from floating-point numbers apart. -/
inductive Param
  | null
  | bool (v : Bool)
  | int8 (v : BitVec 8)
  | int16 (v : BitVec 16)
  | int32 (v : BitVec 32)
  | int64 (v : BitVec 64)
  | uint64 (v : BitVec 64)
  | string (v : Text)
  | tagged (v : Text) (type : DbFieldType)

/-- The value that a constructor makes where the union held `rest`. -/
def Param.make (rest : BitVec 64) : Param → DbValue
  | .null          => ⟨.null, rest, []⟩
  | .bool v        => ⟨.bool, store (w := 8) (if v then 1 else 0) rest, []⟩
  | .int8 v        => ⟨.int8, store v rest, []⟩
  | .int16 v       => ⟨.int16, store v rest, []⟩
  | .int32 v       => ⟨.int32, store v rest, []⟩
  | .int64 v       => ⟨.int64, store v rest, []⟩
  | .uint64 v      => ⟨.uint64, store v rest, []⟩
  | .string v      => ⟨.string, rest, v⟩
  | .tagged v type => ⟨type, rest, v⟩

/-- Values that are made one after another, each where the union held something. -/
def make (rests : Nat → BitVec 64) (params : List Param) : List DbValue := params.mapIdx fun i p => p.make (rests i)

/-! ## The arrays -/

/-- The text that is pushed for a value that is not null. -/
def text (p : DbValue) : Text :=
  match p.type with
  | .bool   => if p.asBool then ['t'] else ['f']
  | .int8   => ofInt p.asInt8
  | .int16  => ofInt p.asInt16
  | .int32  => ofInt p.asInt32
  | .int64  => ofInt p.asInt64
  | .uint64 => ofInt p.asUint64
  | .float  => percentF (convert binary32 binary64 p.asFloat.toNat)
  | .double => percentF p.asDouble.toNat
  | .string => p.str
  | _       => []

/-- `static_cast<int>` of a size. -/
@[irreducible] def toInt (size : Nat) : Int := (size : Int).bmod (2 ^ 32)

structure Conversion where
  values   : List (Option Ptr) := []
  lengths  : List Int := []
  formats  : List Int := []
  tempStrs : Vec Text

/-- A round of the loop over the parameters. -/
def convertOne (c : Conversion) (p : DbValue) : Conversion :=
  let c := { c with formats := c.formats ++ [0] }
  if p.isNull then { c with values := c.values ++ [none], lengths := c.lengths ++ [0] }
  else
    let tempStrs := c.tempStrs.push (text p)
    { c with
      tempStrs := tempStrs
      values   := c.values ++ [some tempStrs.back]
      lengths  := c.lengths ++ [toInt (text p).length] }

def convertAll (params : List DbValue) : Conversion :=
  params.foldl convertOne { tempStrs := Vec.empty.reserve params.length }

/-- What `PQsendQueryParams` is called with, and the strings that are kept for it. -/
structure SendParams where
  nParams    : Int
  values     : List (Option Ptr)
  lengths    : List Int
  formats    : List Int
  tempHolder : Vec Text

def sendParams (params : List DbValue) : SendParams :=
  let c := convertAll params
  { nParams    := toInt params.length
    values     := c.values
    lengths    := c.lengths
    formats    := c.formats
    tempHolder := c.tempStrs }

@[simp] theorem nParams_sendParams (params : List DbValue) : (sendParams params).nParams = toInt params.length := rfl

/-- `Query(sql, params)`. -/
def query (params : List DbValue) : SendParams := sendParams params

/-- `AsyncQuery(sql, params, callback)`, which has the loop once more. -/
def asyncQuery (params : List DbValue) : SendParams := sendParams params

/-! ## What they should be -/

/-- How PostgreSQL reads a boolean. -/
def readBool (t : Text) : Option Bool :=
  if t ∈ ["t".toList, "true".toList, "y".toList, "yes".toList, "on".toList, "1".toList] then some true
  else if t ∈ ["f".toList, "false".toList, "n".toList, "no".toList, "off".toList, "0".toList] then some false
  else none

/-- The text of a value: what is read from it is the value. -/
def Denotes (t : Text) : Param → Prop
  | .null       => False
  | .bool v     => readBool t = some v
  | .int8 v     => readInt t = some v.toInt
  | .int16 v    => readInt t = some v.toInt
  | .int32 v    => readInt t = some v.toInt
  | .int64 v    => readInt t = some v.toInt
  | .uint64 v   => readInt t = some v.toNat
  | .string v   => t = v
  | .tagged v _ => t = v

def Param.isNull : Param → Bool
  | .null         => true
  | .tagged _ tag => decide (tag = .null)
  | _             => false

/-- One entry for each value: null exactly for a null, and otherwise a pointer to its text, with the length of it. -/
structure HandsOver (s : SendParams) (params : List Param) : Prop where
  count   : s.nParams = params.length
  values  : s.values.length = params.length
  lengths : s.lengths.length = params.length
  formats : s.formats = List.replicate params.length 0
  entry   : ∀ (i : Nat) (p : Param), params[i]? = some p → if p.isNull then s.values[i]? = some none
    else ∃ ptr t, s.values[i]? = some (some ptr) ∧ s.tempHolder.deref ptr = some t ∧ s.lengths[i]? = some (t.length : Int) ∧
      Denotes t p

/-- The values that are written as they are: a string with a tag only where the tag is that of a string, or where there is
nothing to write and the tag is none of those that are written from the union. -/
def Written : Param → Prop
  | .string v   => v.length < 2 ^ 31
  | .tagged v t =>
    match t with
    | .null   => True
    | .string => v.length < 2 ^ 31
    | .bool | .int8 | .int16 | .int32 | .int64 | .uint64 | .float | .double => False
    | _       => v = []
  | _           => True

instance (p : Param) : Decidable (Written p) := by
  unfold Written
  split
  · infer_instance
  · split <;> infer_instance
  · infer_instance

/-! ## The loop -/

/-- What the loop has put down for a value. -/
inductive Stored (strs : Vec Text) (p : DbValue) : Option Ptr × Int → Prop
  | null (h : p.isNull = true) : Stored strs p (none, 0)
  | text {ptr : Ptr} (h : p.isNull = false) (hptr : strs.deref ptr = some (text p)) :
    Stored strs p (some ptr, toInt (text p).length)

theorem Stored.push {strs : Vec Text} {n : Nat} (hroom : strs.Room (n + 1)) (t : Text) {p : DbValue} {e : Option Ptr × Int}
    (h : Stored strs p e) : Stored (strs.push t) p e := by
  cases h with
  | null hnull      => exact .null hnull
  | text hnull hptr => exact .text hnull (Vec.deref_push hroom t hptr)

/-- The arrays hold these entries, for the values so far. -/
structure Converted (c : Conversion) (params : List DbValue) (entries : List (Option Ptr × Int)) : Prop where
  values  : c.values = entries.map Prod.fst
  lengths : c.lengths = entries.map Prod.snd
  formats : c.formats = List.replicate params.length 0
  stored  : List.Forall₂ (Stored c.tempStrs) params entries

theorem Converted.step {c : Conversion} {params : List DbValue} {entries : List (Option Ptr × Int)}
    (h : Converted c params entries) {n : Nat} (hroom : c.tempStrs.Room (n + 1)) (p : DbValue) :
    ∃ e, Converted (convertOne c p) (params ++ [p]) (entries ++ [e]) ∧ (convertOne c p).tempStrs.Room n := by
  have hformats : c.formats ++ [0] = List.replicate (params ++ [p]).length 0 := by
    rw [h.formats, List.length_append, List.length_singleton, List.replicate_succ']
  by_cases hnull : p.isNull = true
  · have hone : convertOne c p = { c with
        formats := c.formats ++ [0], values := c.values ++ [none], lengths := c.lengths ++ [0] } := if_pos hnull
    refine ⟨(none, 0), ⟨?_, ?_, ?_, ?_⟩, ?_⟩
    · rw [hone, h.values, List.map_append, List.map_singleton]
    · rw [hone, h.lengths, List.map_append, List.map_singleton]
    · rw [hone]
      exact hformats
    · rw [hone]
      exact List.rel_append h.stored (.cons (.null hnull) .nil)
    · rw [hone]
      unfold Vec.Room at hroom ⊢
      dsimp only
      omega
  · have hone : convertOne c p = { c with
        formats  := c.formats ++ [0]
        tempStrs := c.tempStrs.push (text p)
        values   := c.values ++ [some (c.tempStrs.push (text p)).back]
        lengths  := c.lengths ++ [toInt (text p).length] } := if_neg hnull
    refine ⟨(some (c.tempStrs.push (text p)).back, toInt (text p).length), ⟨?_, ?_, ?_, ?_⟩, ?_⟩
    · rw [hone, h.values, List.map_append, List.map_singleton]
    · rw [hone, h.lengths, List.map_append, List.map_singleton]
    · rw [hone]
      exact hformats
    · rw [hone]
      refine List.rel_append (h.stored.imp fun _ _ hold => hold.push hroom (text p)) (.cons ?_ .nil)
      exact .text (Bool.eq_false_iff.2 hnull) (Vec.deref_back c.tempStrs (text p))
    · rw [hone]
      exact hroom.push (text p)

theorem Converted.foldl : ∀ (rest : List DbValue) {c : Conversion} {params : List DbValue}
    {entries : List (Option Ptr × Int)}, Converted c params entries → c.tempStrs.Room rest.length →
    ∃ entries', Converted (rest.foldl convertOne c) (params ++ rest) entries'
  | [],        c, params, entries, h, _     => ⟨entries, (List.append_nil params).symm ▸ h⟩
  | p :: rest, c, params, entries, h, hroom => by
    obtain ⟨e, hnext, hroom'⟩ := h.step hroom p
    obtain ⟨entries', hall⟩ := hnext.foldl rest hroom'
    rw [List.append_assoc] at hall
    exact ⟨entries', hall⟩

/-- **The arrays have an entry for each value, with a pointer to the text that was pushed for it.** -/
theorem convert_spec (params : List DbValue) : ∃ entries, Converted (convertAll params) params entries := by
  have hstart : Converted { tempStrs := Vec.empty.reserve params.length } [] [] := ⟨rfl, rfl, rfl, .nil⟩
  exact hstart.foldl params (Vec.room_reserve params.length)

/-! ## The texts -/

theorem natAbs_toInt {w : Nat} (hw : w ≤ 64) (v : BitVec w) : v.toInt.natAbs < 10 ^ 20 := by
  have hlt := v.isLt
  have hpow : 2 ^ w ≤ 2 ^ 64 := Nat.pow_le_pow_right (by decide) hw
  have hcases : v.toInt = v.toNat ∨ v.toInt = (v.toNat : Int) - (2 ^ w : Nat) := by
    rw [BitVec.toInt_eq_toNat_cond]
    split
    · exact .inl rfl
    · exact .inr rfl
  omega

theorem toInt_eq_iff (size : Nat) : toInt size = size ↔ size < 2 ^ 31 := by
  unfold toInt Int.bmod
  dsimp only
  split <;> omega

/-! ## What is handed over -/

/-- The entry for a value is right, where the union held `rest`. -/
def Right (p : Param) (rest : BitVec 64) : Prop :=
  p.isNull = true ∨ Denotes (text (p.make rest)) p ∧ (text (p.make rest)).length < 2 ^ 31

theorem isNull_make (rest : BitVec 64) (p : Param) : (p.make rest).isNull = p.isNull := by
  cases p <;> rfl

theorem Converted.entry {rests : Nat → BitVec 64} {params : List Param} {c : Conversion} {entries : List (Option Ptr × Int)}
    (h : Converted c (make rests params) entries) {i : Nat} {p : Param} (hp : params[i]? = some p) :
    ∃ e, c.values[i]? = some e.1 ∧ c.lengths[i]? = some e.2 ∧ Stored c.tempStrs (p.make (rests i)) e := by
  obtain ⟨hlength, hall⟩ := List.forall₂_iff_get.1 h.stored
  obtain ⟨hi, rfl⟩ := List.getElem?_eq_some_iff.1 hp
  have hmade : i < (make rests params).length := by rwa [make, List.length_mapIdx]
  have hentry := hall i hmade (hlength ▸ hmade)
  rw [List.get_eq_getElem, List.get_eq_getElem] at hentry
  refine ⟨entries[i], ?_, ?_, ?_⟩
  · rw [h.values, List.getElem?_map, List.getElem?_eq_getElem (hlength ▸ hmade), Option.map_some]
  · rw [h.lengths, List.getElem?_map, List.getElem?_eq_getElem (hlength ▸ hmade), Option.map_some]
  · have hget : (make rests params)[i] = params[i].make (rests i) := List.getElem_mapIdx
    rwa [hget] at hentry

theorem handsOver_sendParams_iff (rests : Nat → BitVec 64) (params : List Param) :
    HandsOver (sendParams (make rests params)) params ↔
      params.length < 2 ^ 31 ∧ ∀ (i : Nat) (p : Param), params[i]? = some p → Right p (rests i) := by
  obtain ⟨entries, h⟩ := convert_spec (make rests params)
  have hmade : (make rests params).length = params.length := List.length_mapIdx
  have hentries : entries.length = params.length := h.stored.length_eq.symm.trans hmade
  constructor
  · intro hands
    have hcount := hands.count
    rw [nParams_sendParams, hmade] at hcount
    refine ⟨(toInt_eq_iff _).1 hcount, fun i p hp => ?_⟩
    obtain ⟨e, hvalue, hlength, hstored⟩ := h.entry hp
    have hentry := hands.entry i p hp
    cases hnull : p.isNull with
    | true  => exact .inl hnull
    | false =>
      rw [hnull, if_neg Bool.false_ne_true] at hentry
      obtain ⟨ptr, t, hptr, hderef, hsize, hdenotes⟩ := hentry
      cases hstored with
      | null hisNull => rw [isNull_make, hnull] at hisNull; cases hisNull
      | text _ htext =>
        obtain rfl := Option.some.inj (Option.some.inj (hvalue.symm.trans hptr))
        obtain rfl := Option.some.inj (htext.symm.trans hderef)
        have hsame : toInt (text (p.make (rests i))).length = (text (p.make (rests i))).length :=
          Option.some.inj (hlength.symm.trans hsize)
        exact .inr ⟨hdenotes, (toInt_eq_iff _).1 hsame⟩
  · rintro ⟨hlt, hright⟩
    refine ⟨?_, ?_, ?_, ?_, fun i p hp => ?_⟩
    · rw [nParams_sendParams, hmade]
      exact (toInt_eq_iff params.length).2 hlt
    · rw [← hentries]
      exact (congrArg List.length h.values).trans (List.length_map Prod.fst)
    · rw [← hentries]
      exact (congrArg List.length h.lengths).trans (List.length_map Prod.snd)
    · exact h.formats.trans (congrArg (List.replicate · 0) hmade)
    · obtain ⟨e, hvalue, hlength, hstored⟩ := h.entry hp
      cases hstored with
      | null hisNull =>
        rw [isNull_make] at hisNull
        rw [if_pos hisNull]
        exact hvalue
      | text hisNull htext =>
        rw [isNull_make] at hisNull
        rw [hisNull, if_neg Bool.false_ne_true]
        rcases hright i p hp with hnull | ⟨hdenotes, hsize⟩
        · rw [hisNull] at hnull; cases hnull
        · refine ⟨_, _, hvalue, htext, ?_, hdenotes⟩
          rw [← (toInt_eq_iff (text (p.make (rests i))).length).2 hsize]
          exact hlength

/-- An integer is written right, whatever else the union holds. -/
theorem right_int {p : Param} {rest : BitVec 64} {n : Int} (htext : text (p.make rest) = ofInt n)
    (hsmall : n.natAbs < 10 ^ 20) (hdenotes : ∀ t, readInt t = some n → Denotes t p) : Right p rest := by
  refine .inr ⟨hdenotes _ (by rw [htext, readInt_ofInt]), ?_⟩
  have hlength := length_ofInt (show 0 < 20 by decide) hsmall
  rw [htext]
  omega

theorem right_signed {w : Nat} (hw : w ≤ 64) (v : BitVec w) {p : Param} {rest : BitVec 64}
    (htext : text (p.make rest) = ofInt (load w (store v rest)).toInt)
    (hdenotes : ∀ t, readInt t = some v.toInt → Denotes t p) : Right p rest := by
  rw [load_store hw] at htext
  exact right_int htext (natAbs_toInt hw v) hdenotes

/-- A string with a tag is not written from what is in the union. -/
theorem not_right_tagged {v : Text} {tag : DbFieldType} (htag : tag ≠ .null) (hstr : ∀ rest, text ⟨tag, rest, v⟩ = text ⟨tag, rest, []⟩)
    {a b : BitVec 64} (hne : text ⟨tag, a, []⟩ ≠ text ⟨tag, b, []⟩) : ¬∀ rest, Right (.tagged v tag) rest := by
  intro h
  have hread (rest : BitVec 64) : text ⟨tag, rest, []⟩ = v := by
    rcases h rest with hnull | ⟨hdenotes, _⟩
    · exact absurd (of_decide_eq_true hnull) htag
    · rw [← hstr]
      exact hdenotes
  exact hne ((hread a).trans (hread b).symm)

/-- A string that is written from nothing. -/
theorem right_unwritten {v : Text} {tag : DbFieldType} (htag : tag ≠ .null) (hempty : ∀ rest, text ⟨tag, rest, v⟩ = []) :
    (∀ rest, Right (.tagged v tag) rest) ↔ v = [] := by
  constructor
  · intro h
    rcases h 0 with hnull | ⟨hdenotes, _⟩
    · exact absurd (of_decide_eq_true hnull) htag
    · exact hdenotes.symm.trans (hempty 0)
  · rintro rfl rest
    refine .inr ⟨hempty rest, ?_⟩
    rw [Param.make, hempty]
    decide

/-- **A value is written right, whatever the union held, exactly if it is one of those that are written as they are.** -/
theorem right_iff (p : Param) : (∀ rest, Right p rest) ↔ Written p := by
  cases p with
  | null     => exact iff_of_true (fun _ => .inl rfl) trivial
  | bool v   =>
    refine iff_of_true (fun rest => .inr ?_) trivial
    have htext : text (Param.make rest (.bool v)) = if v then ['t'] else ['f'] := by
      change (if decide (load 8 (store (w := 8) (if v then 1 else 0) rest) ≠ 0) then ['t'] else ['f']) = _
      rw [load_store (by decide)]
      cases v <;> rfl
    rw [htext]
    refine ⟨?_, by cases v <;> decide⟩
    change readBool (if v then ['t'] else ['f']) = some v
    cases v <;> decide
  | int8 v   => exact iff_of_true (fun _ => right_signed (by decide) v rfl fun _ h => h) trivial
  | int16 v  => exact iff_of_true (fun _ => right_signed (by decide) v rfl fun _ h => h) trivial
  | int32 v  => exact iff_of_true (fun _ => right_signed (by decide) v rfl fun _ h => h) trivial
  | int64 v  => exact iff_of_true (fun _ => right_signed (by decide) v rfl fun _ h => h) trivial
  | uint64 v =>
    refine iff_of_true (fun rest => right_int (n := v.toNat) ?_ ?_ fun _ h => h) trivial
    · exact congrArg (fun x : BitVec 64 => ofInt x.toNat) (load_store (by decide) v rest)
    · have := v.isLt
      omega
  | string v =>
    refine ⟨fun h => ?_, fun hlt rest => .inr ⟨rfl, hlt⟩⟩
    rcases h 0 with hnull | ⟨_, hlt⟩
    · cases hnull
    · exact hlt
  | tagged v tag =>
    cases tag with
    | null   => exact iff_of_true (fun _ => .inl rfl) trivial
    | string =>
      refine ⟨fun h => ?_, fun hlt rest => .inr ⟨rfl, hlt⟩⟩
      rcases h 0 with hnull | ⟨_, hlt⟩
      · cases hnull
      · exact hlt
    | bool   => exact iff_of_false (not_right_tagged (a := 0) (b := 1) nofun (fun _ => rfl) (by decide)) id
    | int8   => exact iff_of_false (not_right_tagged (a := 0) (b := 1) nofun (fun _ => rfl) (by decide)) id
    | int16  => exact iff_of_false (not_right_tagged (a := 0) (b := 1) nofun (fun _ => rfl) (by decide)) id
    | int32  => exact iff_of_false (not_right_tagged (a := 0) (b := 1) nofun (fun _ => rfl) (by decide)) id
    | int64  => exact iff_of_false (not_right_tagged (a := 0) (b := 1) nofun (fun _ => rfl) (by decide)) id
    | uint64 => exact iff_of_false (not_right_tagged (a := 0) (b := 1) nofun (fun _ => rfl) (by decide)) id
    | float  =>
      exact iff_of_false (not_right_tagged (a := 0) (b := 0x3f800000) nofun (fun _ => rfl) (by decide +kernel)) id
    | double =>
      exact iff_of_false (not_right_tagged (a := 0) (b := 0x3ff0000000000000) nofun (fun _ => rfl) (by decide +kernel)) id
    | _      => exact right_unwritten nofun fun _ => rfl

/-- What `Query` and `AsyncQuery` hand over for a list of values: an entry for each that is right, and both the same. -/
def HandedOver (params : List Param) : Prop :=
  ∀ rests : Nat → BitVec 64, HandsOver (query (make rests params)) params ∧ HandsOver (asyncQuery (make rests params)) params ∧
    query (make rests params) = asyncQuery (make rests params)

/-- **The parameters are handed over as they are exactly if there are fewer than `2 ^ 31` of them and each is one of those
that are written as they are.** -/
theorem handedOver_iff (params : List Param) : HandedOver params ↔ params.length < 2 ^ 31 ∧ ∀ p ∈ params, Written p := by
  have hone : HandedOver params ↔ ∀ rests, HandsOver (sendParams (make rests params)) params :=
    ⟨fun h rests => (h rests).1, fun h rests => ⟨h rests, h rests, rfl⟩⟩
  rw [hone]
  constructor
  · intro h
    refine ⟨((handsOver_sendParams_iff (fun _ => 0) params).1 (h _)).1, fun p hp => (right_iff p).1 fun rest => ?_⟩
    obtain ⟨i, hi⟩ := List.mem_iff_getElem?.1 hp
    exact ((handsOver_sendParams_iff (fun _ => rest) params).1 (h _)).2 i p hi
  · rintro ⟨hlt, hwritten⟩ rests
    refine (handsOver_sendParams_iff rests params).2 ⟨hlt, fun i p hp => ?_⟩
    exact (right_iff p).2 (hwritten p (List.mem_of_getElem? hp)) (rests i)

/-- A date: an empty text is handed over. -/
theorem not_handedOver : ¬∀ params, HandedOver params := by
  intro h
  have hands := (h [.tagged "2024-01-31".toList .date] fun _ => 0).1
  rcases ((handsOver_sendParams_iff _ _).1 hands).2 0 _ rfl with hnull | ⟨hdenotes, _⟩
  · cases hnull
  · cases hdenotes

end Gb.QueryParams
