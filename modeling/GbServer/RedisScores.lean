import GbServer.Lib.DecimalText
import GbServer.RedisCommands
/-!
# RedisScores — sorted sets in replies of both protocols

The readers of sorted sets with their scores (`redis_connection.cpp`, `redis_value.cpp`).  In RESP2 a server answers with one
array of members and scores in turn, a score being text; in RESP3 with an array of pairs, a score being a number.  Pairs are
read the same in both.  Where the caller gets strings, a score is its text in the one and what `std::to_string` makes of the
number in the other, and these are the same only for texts with the six decimals of `%f` (`agree_iff`).
-/
namespace Gb

open DecimalText

structure RedisError where
  code    : Int := 0
  message : String := ""
  deriving DecidableEq

/-- `std::to_string` of a `double`. -/
def stdToString (bits : UInt64) : String := String.ofList (percentF bits.toNat)

/-- `SafeStod`. -/
def safeStod (s : String) : UInt64 :=
  if s.isEmpty then 0
  else
    match strtod s.toList with
    | some (v, _) => UInt64.ofNat v
    | none        => 0

namespace RedisValue

def isNil : RedisValue → Bool
  | .nil => true
  | _    => false

def isArray : RedisValue → Bool
  | .array _ => true
  | _        => false

def err : RedisValue → RedisError
  | .error message => ⟨-1, message⟩
  | _              => {}

def asStr : RedisValue → String
  | .str value    => value
  | .int value    => toString value
  | .double value => stdToString value
  | .bool value   => if value then "1" else "0"
  | _             => ""

def asDouble : RedisValue → UInt64
  | .double value => value
  | .int value    => UInt64.ofNat (FloatBits.binary64.ofInt value)
  | .str value    => safeStod value
  | _             => 0

/-- An element of `ToStrArray`. -/
def elementStr (v : RedisValue) : String := if v.isNil then "" else v.asStr

/-- `ToStrArray`. -/
def toStrArray : RedisValue → List String
  | .array items => items.flatMap fun item =>
    match item with
    | .array subs => subs.map elementStr
    | item        => [item.elementStr]
  | _            => []

/-- RESP3: `[[member, score], ...]`. -/
def nestedPairs (arr : List RedisValue) : List (String × UInt64) :=
  arr.filterMap fun item =>
    match item with
    | .array (member :: score :: _) => some (member.asStr, score.asDouble)
    | _                             => none

/-- RESP2: `[member, score, member, score, ...]`. -/
def flatPairs : List RedisValue → List (String × UInt64)
  | member :: score :: arr => (member.asStr, safeStod score.asStr) :: flatPairs arr
  | _                      => []

/-- `ToPairs`. -/
def toPairs : RedisValue → List (String × UInt64)
  | .array arr => if arr.head?.any isArray then nestedPairs arr else flatPairs arr
  | _          => []

end RedisValue

/-! ## The readers -/

/-- A command, and what its caller gets for a reply. -/
structure RedisRequest (α : Type) where
  argv    : List String
  onReply : RedisValue → RedisError × α

namespace RedisRequest

variable {α : Type}

/-- What the caller gets when the reply of the server comes. -/
def answer (request : RedisRequest α) (reply : RedisReply) : RedisError × α :=
  request.onReply (RedisCommands.replyValue (some reply))

/-- A reader of strings. -/
def strVec (argv : List String) : RedisRequest (List String) :=
  ⟨argv, fun v => if v.isError then (v.err, []) else ({}, v.toStrArray)⟩

/-- A reader of pairs. -/
def pairs (argv : List String) : RedisRequest (List (String × UInt64)) :=
  ⟨argv, fun v => if v.isError then (v.err, []) else ({}, v.toPairs)⟩

def asyncZRange (key : String) (start stop : Int) (withScores : Bool) : RedisRequest (List String) :=
  strVec (["ZRANGE", key, toString start, toString stop] ++ if withScores then ["WITHSCORES"] else [])

def asyncZRevRange (key : String) (start stop : Int) (withScores : Bool) : RedisRequest (List String) :=
  strVec (["ZREVRANGE", key, toString start, toString stop] ++ if withScores then ["WITHSCORES"] else [])

def asyncZRangeByScore (key : String) (min max : UInt64) (withScores : Bool) : RedisRequest (List String) :=
  strVec (["ZRANGEBYSCORE", key, stdToString min, stdToString max] ++ if withScores then ["WITHSCORES"] else [])

def asyncZRevRangeByScore (key : String) (min max : UInt64) (withScores : Bool) : RedisRequest (List String) :=
  strVec (["ZREVRANGEBYSCORE", key, stdToString max, stdToString min] ++ if withScores then ["WITHSCORES"] else [])

def asyncZRangeWithScores (key : String) (start stop : Int) : RedisRequest (List (String × UInt64)) :=
  pairs ["ZRANGE", key, toString start, toString stop, "WITHSCORES"]

def asyncZRevRangeWithScores (key : String) (start stop : Int) : RedisRequest (List (String × UInt64)) :=
  pairs ["ZREVRANGE", key, toString start, toString stop, "WITHSCORES"]

end RedisRequest

/-! ## The two forms of a reply -/

/-- A member and its score: the text of RESP2, and the number that it denotes. -/
structure ScoredMember where
  member  : String
  text    : String
  score   : UInt64
  denotes : strtod text.toList = some (score.toNat, [])

/-- The reply in RESP2. -/
def resp2 (scores : List ScoredMember) : RedisReply := .array (scores.flatMap fun x => [.string x.member, .string x.text])

/-- The reply in RESP3. -/
def resp3 (scores : List ScoredMember) : RedisReply :=
  .array (scores.map fun x => .array [.string x.member, .double x.score x.text])

/-- The same for the caller in both. -/
def Same {α : Type} (request : RedisRequest α) (scores : List ScoredMember) : Prop :=
  request.answer (resp2 scores) = request.answer (resp3 scores)

open RedisRequest in
/-- All readers give their caller the same in both. -/
structure Agree (scores : List ScoredMember) : Prop where
  zRangeWithScores    : ∀ key start stop, Same (asyncZRangeWithScores key start stop) scores
  zRevRangeWithScores : ∀ key start stop, Same (asyncZRevRangeWithScores key start stop) scores
  zRange              : ∀ key start stop, Same (asyncZRange key start stop true) scores
  zRevRange           : ∀ key start stop, Same (asyncZRevRange key start stop true) scores
  zRangeByScore       : ∀ key min max, Same (asyncZRangeByScore key min max true) scores
  zRevRangeByScore    : ∀ key min max, Same (asyncZRevRangeByScore key min max true) scores

namespace RedisValue

theorem fromElements_eq_map : ∀ elements : List RedisReply, fromElements elements = elements.map fromReply
  | []            => rfl
  | e :: elements => by rw [fromElements, List.map_cons, fromElements_eq_map elements]

theorem fromReply_resp2 (scores : List ScoredMember) :
    fromReply (resp2 scores) = .array (scores.flatMap fun x => [.str x.member, .str x.text]) := by
  rw [resp2, fromReply, fromElements_eq_map, List.map_flatMap]
  rfl

theorem fromReply_resp3 (scores : List ScoredMember) :
    fromReply (resp3 scores) = .array (scores.map fun x => .array [.str x.member, .double x.score]) := by
  rw [resp3, fromReply, fromElements_eq_map, List.map_map]
  rfl

theorem toStrArray_resp2 (scores : List ScoredMember) :
    (fromReply (resp2 scores)).toStrArray = scores.flatMap fun x => [x.member, x.text] := by
  rw [fromReply_resp2, toStrArray, List.flatMap_assoc]
  rfl

theorem toStrArray_resp3 (scores : List ScoredMember) :
    (fromReply (resp3 scores)).toStrArray = scores.flatMap fun x => [x.member, stdToString x.score] := by
  rw [fromReply_resp3, toStrArray, List.flatMap_map]
  rfl

theorem safeStod_text (x : ScoredMember) : safeStod x.text = x.score := by
  have hne : x.text.isEmpty = false := by
    by_contra hempty
    have hnil : x.text = "" := String.isEmpty_iff.1 (by simpa using hempty)
    have hdenotes := x.denotes
    rw [hnil] at hdenotes
    cases hdenotes
  unfold safeStod
  rw [hne, x.denotes, if_neg Bool.false_ne_true]
  exact UInt64.ofNat_toNat

theorem toPairs_resp2 (scores : List ScoredMember) :
    (fromReply (resp2 scores)).toPairs = scores.map fun x => (x.member, x.score) := by
  have hflat : flatPairs (scores.flatMap fun x => [.str x.member, .str x.text]) = scores.map fun x => (x.member, x.score) := by
    induction scores with
    | nil           => rfl
    | cons x scores ih =>
      rw [List.flatMap_cons, List.map_cons, ← ih, ← safeStod_text x]
      rfl
  rw [fromReply_resp2, toPairs, if_neg, hflat]
  cases scores with
  | nil           => exact Bool.false_ne_true
  | cons x scores => exact Bool.false_ne_true

theorem toPairs_resp3 (scores : List ScoredMember) :
    (fromReply (resp3 scores)).toPairs = scores.map fun x => (x.member, x.score) := by
  rw [fromReply_resp3, toPairs]
  cases scores with
  | nil           => rfl
  | cons x scores =>
    have hhead : (((x :: scores).map fun x => array [.str x.member, .double x.score]).head?.any isArray) = true := rfl
    rw [if_pos hhead, nestedPairs, List.filterMap_map]
    exact congrFun List.filterMap_eq_map _

end RedisValue

/-- **Pairs are read the same in both protocols.** -/
theorem pairs_same (argv : List String) (scores : List ScoredMember) : Same (.pairs argv) scores := by
  have h := (RedisValue.toPairs_resp2 scores).trans (RedisValue.toPairs_resp3 scores).symm
  exact congrArg (Prod.mk ({} : RedisError)) h

theorem flatMap_eq_flatMap_iff {β γ : Type} {f g h : β → γ} {xs : List β} :
    (xs.flatMap fun x => [f x, g x]) = (xs.flatMap fun x => [f x, h x]) ↔ ∀ x ∈ xs, g x = h x := by
  induction xs with
  | nil          => exact iff_of_true rfl fun x hx => absurd hx List.not_mem_nil
  | cons x xs ih =>
    rw [List.flatMap_cons, List.flatMap_cons, List.forall_mem_cons, ← ih]
    exact (List.cons_inj_right _).trans List.cons_eq_cons

/-- Strings are, where each score is the text of its number. -/
theorem strVec_same_iff (argv : List String) (scores : List ScoredMember) :
    Same (.strVec argv) scores ↔ ∀ x ∈ scores, Printed x.text.toList := by
  have hsame : Same (.strVec argv) scores ↔
      (scores.flatMap fun x => [x.member, x.text]) = scores.flatMap fun x => [x.member, stdToString x.score] := by
    rw [← RedisValue.toStrArray_resp2, ← RedisValue.toStrArray_resp3]
    exact Prod.mk_right_inj
  have htext (x : ScoredMember) : x.text = stdToString x.score ↔ Printed x.text.toList := by
    rw [← percentF_eq_iff x.denotes, stdToString, ← String.toList_inj, String.toList_ofList]
    exact eq_comm
  rw [hsame, flatMap_eq_flatMap_iff]
  exact forall₂_congr fun x _ => htext x

/-- **All readers give the same in both protocols exactly if each score is written as `std::to_string` writes numbers.** -/
theorem agree_iff (scores : List ScoredMember) : Agree scores ↔ ∀ x ∈ scores, Printed x.text.toList := by
  constructor
  · exact fun h => (strVec_same_iff _ scores).1 (h.zRange "" 0 0)
  · intro h
    exact ⟨fun _ _ _ => pairs_same _ scores, fun _ _ _ => pairs_same _ scores, fun _ _ _ => (strVec_same_iff _ scores).2 h,
      fun _ _ _ => (strVec_same_iff _ scores).2 h, fun _ _ _ => (strVec_same_iff _ scores).2 h,
      fun _ _ _ => (strVec_same_iff _ scores).2 h⟩

/-- A score as servers write it. -/
def oneAndAHalf : ScoredMember := ⟨"m", "1.5", 0x3FF8000000000000, by decide +kernel⟩

theorem not_agree : ¬∀ scores : List ScoredMember, Agree scores := by
  intro h
  have hprinted := (strVec_same_iff _ [oneAndAHalf]).1 ((h [oneAndAHalf]).zRange "" 0 0) oneAndAHalf List.mem_cons_self
  rcases hprinted.point with hpoint | hword | hword
  · cases hpoint
  · exact absurd hword (by decide)
  · exact absurd hword (by decide)

end Gb
