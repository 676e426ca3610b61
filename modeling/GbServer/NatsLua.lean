import GbServer.LuaRoundTrip
import GbServer.NatsValues
/-!
# NatsLua — Lua values through `Publish`, `AsyncRequestMsgpack` and `Reply`

The table `nats` that `register_nats` makes (`register_nats.cpp`), as far as a message is msgpack.  Each of the ways of a
message packs in its own manner.  `Publish` and `Reply` take one string for bytes, and another single value for a protobuf
message; what they pack they hand on as an lvalue, which the template of `NatsManager` takes without end.
`AsyncRequestMsgpack` packs a `sol::table`, of which nothing is packed, and takes an integer at the end for a timeout; its
callback gets the bytes of the answer as one string.
-/
namespace Gb

open Msgpack (LuaValue Buffer IntType packLua packStackProxy unpackLoop SlotsFit)

namespace NatsLua

/-! ## Sending -/

/-- An argument of `pack`: what lies on the stack, or a `sol::table`. -/
inductive SolValue
  | stackProxy (value : LuaValue)
  | table (entries : List (LuaValue × LuaValue))

/-- `pack_type`.  A `sol::table` is none of what it asks for, no `stack_proxy` either, and comes to its last branch. -/
def packType : SolValue → List UInt8
  | .stackProxy value => packStackProxy value
  | .table _          => []

def pack (args : List SolValue) : List UInt8 := args.flatMap packType

/-- The `Meta` of the bytes that `BuildMeta` makes. -/
def metaOf (metaBytes : List UInt8) : Meta :=
  if metaStructSize ≤ metaBytes.length then Meta.init.copyIn (metaBytes.take metaStructSize) else Meta.init

/-- The `data` of the overload that `sol` takes for these values behind the subject and the meta: of three arguments, the one
for bytes or the one for a protobuf message, which no value is. -/
def overload : List LuaValue → Option (List UInt8)
  | [.string str] => some str
  | [_]           => none
  | values        => some (pack (values.map .stackProxy))

/-- The overloads of `Publish` and of `Reply`, which hand on `data` as an lvalue that is not const. -/
def handOn (depth : Nat) (metaBytes : List UInt8) (values : List LuaValue) : Option (Meta × List UInt8) :=
  match overload values with
  | none      => none
  | some data => (NatsManager.callByName depth [⟨⟨.binary, data⟩, false⟩]).map fun body => (metaOf metaBytes, body)

def publish (depth : Nat) (metaBytes : List UInt8) (values : List LuaValue) : Option (Meta × List UInt8) :=
  handOn depth metaBytes values

def reply (depth : Nat) (metaBytes : List UInt8) (values : List LuaValue) : Option (Meta × List UInt8) :=
  handOn depth metaBytes values

/-- `table[i + 1] = value` and so on. -/
def tableFrom : Nat → List LuaValue → List (LuaValue × LuaValue) → List (LuaValue × LuaValue)
  | _, [],              entries => entries
  | i, value :: values, entries =>
    tableFrom (i + 1) values (LuaValue.set (.integer (IntType.int64.wrap (i + 1 : Nat))) value entries)

/-- What `NatsManager::AsyncRequest` is called with. -/
structure LuaRequest where
  msgMeta   : Meta
  data      : List UInt8
  timeoutMs : Int

def asyncRequest (metaBytes dataStr : List UInt8) (timeoutMs : Option Int) : LuaRequest :=
  ⟨metaOf metaBytes, dataStr, timeoutMs.getD 5000⟩

/-- `AsyncRequestMsgpack`, with the values behind the meta and whether a function is behind them.  `asInt` is what `sol` says
of `is<int>` and `as<int>`. -/
def asyncRequestMsgpack (asInt : LuaValue → Option Int) (metaBytes : List UInt8) (args : List LuaValue) (callback : Bool) :
    Option LuaRequest :=
  if callback then
    let (argv, timeoutMs) :=
      match args.getLast?.bind asInt with
      | some timeoutMs => (args.dropLast, timeoutMs)
      | none           => (args, 5000)
    some (asyncRequest metaBytes (pack [.table (tableFrom 0 argv [])]) (some timeoutMs))
  else none

/-! ## Receiving -/

/-- The values table of a handler that was subscribed as `msgpack`, if the loop of `unpack` ends in so many rounds: the values
on top of the stack, as many as the loop has counted. -/
def valuesTable (b : Buffer) (limit : Nat) (stack : List LuaValue) (rounds : Nat) : Option (List (LuaValue × LuaValue)) :=
  match unpackLoop b limit rounds 0 ⟨{}, stack⟩ with
  | .ok n s    => if n ≤ s.stack.length then some (tableFrom 0 (s.stack.take n).reverse []) else none
  | .error _ _ => none

/-- What the callback of a request is called with: the error, and the value behind it. -/
def callback (errorCode : Int) (body : List UInt8) : String × LuaValue :=
  if errorCode ≠ 0 then ("nats request failed", .nil) else ("", .string body)

/-- The handler gets the values table of `values`, wherever the body lies. -/
def Handled (limit : Nat) (stack : List LuaValue) (m : Meta) (body : List UInt8) (values : List LuaValue) : Prop :=
  ∀ b : Buffer, b.bytes = (NatsManager.splitPayload (NatsManager.buildPayload m body)).2 →
    ∃ rounds, valuesTable b limit stack rounds = some (tableFrom 0 (values.map LuaValue.normal) [])

/-- `Publish(subject, meta, values...)` sends something, from which a handler gets the values. -/
def Published (limit : Nat) (stack : List LuaValue) (metaBytes : List UInt8) (values : List LuaValue) : Prop :=
  ∃ depth m body, publish depth metaBytes values = some (m, body) ∧ Handled limit stack m body values

/-- `AsyncRequestMsgpack(subject, meta, values..., [timeout,] callback)` sends something, from which a handler gets the
values. -/
def Requested (asInt : LuaValue → Option Int) (limit : Nat) (stack : List LuaValue) (metaBytes : List UInt8)
    (values : List LuaValue) (timeout : Option IntType.int64.Val) : Prop :=
  ∃ request, asyncRequestMsgpack asInt metaBytes (values ++ timeout.toList.map .integer) true = some request ∧
    Handled limit stack request.msgMeta request.data values

/-- `Reply(reply_to, meta, replies...)` sends something, of which the callback gets the values behind an empty error. -/
def Answered (metaBytes : List UInt8) (replies : List LuaValue) : Prop :=
  ∃ depth m body, reply depth metaBytes replies = some (m, body) ∧
    ∃ value, callback 0 (NatsManager.splitPayload (NatsManager.buildPayload m body)).2 = ("", value) ∧
      [value] = replies.map LuaValue.normal

/-- The values come both ways, and what is answered comes back. -/
def Exchanged (asInt : LuaValue → Option Int) (limit : Nat) (stack : List LuaValue) (metaBytes : List UInt8)
    (values : List LuaValue) (timeout : Option IntType.int64.Val) (replies : List LuaValue) : Prop :=
  Published limit stack metaBytes values ∧ Requested asInt limit stack metaBytes values timeout ∧ Answered metaBytes replies

/-! ## What comes -/

variable {asInt : LuaValue → Option Int} {limit : Nat} {stack : List LuaValue} {m : Meta} {metaBytes body : List UInt8}

theorem handOn_eq_none (depth : Nat) (metaBytes : List UInt8) (values : List LuaValue) :
    handOn depth metaBytes values = none := by
  rw [handOn]
  split
  · rfl
  · rw [NatsManager.callByName_lvalue]
    rfl

theorem handled_iff {values : List LuaValue} : Handled limit stack m body values ↔
    ∀ b : Buffer, b.bytes = body →
      ∃ rounds, valuesTable b limit stack rounds = some (tableFrom 0 (values.map LuaValue.normal) []) := by
  rw [Handled, NatsManager.splitPayload_buildPayload]

/-- An empty body has no values. -/
theorem valuesTable_nil {b : Buffer} (hb : b.bytes = []) (rounds : Nat) :
    valuesTable b limit stack (rounds + 1) = some [] := by
  have hempty : b.isEmpty {} = true := decide_eq_true (by rw [hb]; exact Nat.le_refl 0)
  rw [valuesTable, Msgpack.unpackLoop_succ, hempty, if_pos rfl]
  exact if_pos (Nat.zero_le _)

/-- A body without bytes. -/
def noBytes : Buffer := .ofBytes [] (by decide)

theorem handled_nil {values : List LuaValue} :
    Handled limit stack m [] values ↔ tableFrom 0 (values.map LuaValue.normal) [] = [] := by
  rw [handled_iff]
  constructor
  · intro h
    obtain ⟨rounds, hrounds⟩ := h noBytes rfl
    cases rounds with
    | zero   => cases hrounds
    | succ n =>
      rw [valuesTable_nil rfl] at hrounds
      exact (Option.some.inj hrounds).symm
  · intro h b hb
    exact ⟨1, by rw [valuesTable_nil hb, h]⟩

/-- Whatever the values are, and the timeout, the body of a request is empty. -/
theorem asyncRequestMsgpack_data (asInt : LuaValue → Option Int) (metaBytes : List UInt8) (args : List LuaValue) :
    ∃ timeoutMs, asyncRequestMsgpack asInt metaBytes args true = some ⟨metaOf metaBytes, [], timeoutMs⟩ := by
  rw [asyncRequestMsgpack, if_pos rfl]
  exact ⟨_, rfl⟩

/-- A request brings the values exactly if their table is empty. -/
theorem requested_iff {values : List LuaValue} {timeout : Option IntType.int64.Val} :
    Requested asInt limit stack metaBytes values timeout ↔ tableFrom 0 (values.map LuaValue.normal) [] = [] := by
  obtain ⟨timeoutMs, hrequest⟩ := asyncRequestMsgpack_data asInt metaBytes (values ++ timeout.toList.map .integer)
  rw [Requested, hrequest]
  constructor
  · rintro ⟨request, heq, hhandled⟩
    rw [← Option.some.inj heq] at hhandled
    exact handled_nil.1 hhandled
  · exact fun h => ⟨_, rfl, handled_nil.2 h⟩

/-- An entry stays where another key is set. -/
theorem mem_set {key val : LuaValue} {e : LuaValue × LuaValue} (hkey : LuaValue.same e.1 key = false) :
    ∀ {entries : List (LuaValue × LuaValue)}, e ∈ entries → e ∈ LuaValue.set key val entries
  | x :: entries, hmem => by
    rw [LuaValue.set]
    rcases List.mem_cons.1 hmem with rfl | hmem
    · rw [hkey]
      exact List.mem_cons_self
    · split
      · split
        · exact hmem
        · exact List.mem_cons_of_mem _ hmem
      · exact List.mem_cons_of_mem x (mem_set hkey hmem)

theorem mem_tableFrom {e : LuaValue × LuaValue} : ∀ (values : List LuaValue) (i : Nat) {entries : List (LuaValue × LuaValue)},
    e ∈ entries → (∀ j, i < j → j ≤ i + values.length → LuaValue.same e.1 (.integer (IntType.int64.wrap j)) = false) →
    e ∈ tableFrom i values entries
  | [],              _, _, hmem, _    => hmem
  | value :: values, i, _, hmem, hkey => by
    rw [tableFrom]
    refine mem_tableFrom values (i + 1) (mem_set (hkey (i + 1) (by omega) (by rw [List.length_cons]; omega)) hmem) ?_
    intro j hlt hle
    exact hkey j (by omega) (by rw [List.length_cons]; omega)

theorem same_index {i j : Nat} (hlt : i < j) (hj : j < 2 ^ 63) :
    LuaValue.same (.integer (IntType.int64.wrap i)) (.integer (IntType.int64.wrap j)) = false := by
  have hval (n : Nat) (hn : n < 2 ^ 63) : (IntType.int64.wrap (n : Int)).val = n :=
    IntType.int64.wrap_val n (by simp only [IntType.min]; omega) (by simp only [IntType.max]; omega)
  refine decide_eq_false fun heq => ?_
  have hsame := congrArg Subtype.val heq
  rw [hval i (by omega), hval j hj] at hsame
  omega

/-- A table of values is empty exactly if they all are nil. -/
theorem tableFrom_eq_nil_iff : ∀ (values : List LuaValue) (i : Nat), i + values.length < 2 ^ 63 →
    (tableFrom i values [] = [] ↔ ∀ v ∈ values, v.isNil = true)
  | [],              _, _  => iff_of_true rfl fun _ hmem => nomatch hmem
  | value :: values, i, hi => by
    rw [List.length_cons] at hi
    rw [tableFrom, LuaValue.set, List.forall_mem_cons]
    cases hnil : value.isNil with
    | true  =>
      rw [if_pos rfl, and_iff_right rfl]
      exact tableFrom_eq_nil_iff values (i + 1) (by omega)
    | false =>
      rw [if_neg Bool.false_ne_true]
      refine iff_of_false (fun hempty => ?_) fun hall => Bool.false_ne_true hall.1
      have hmem := mem_tableFrom values (i + 1)
        (List.mem_singleton_self (LuaValue.integer (IntType.int64.wrap (i + 1 : Nat)), value))
        fun j hlt hle => same_index hlt (by omega)
      rw [hempty] at hmem
      cases hmem

theorem forall_isNil_normal (values : List LuaValue) :
    (∀ v ∈ values.map LuaValue.normal, v.isNil = true) ↔ ∀ v ∈ values, v.isNil = true := by
  rw [List.forall_mem_map]
  exact forall₂_congr fun v _ => by rw [Msgpack.isNil_normal]

/-- **A request brings the values exactly if all of them are nil.** -/
theorem requested_iff_nil {values : List LuaValue} {timeout : Option IntType.int64.Val} (hlength : values.length < 2 ^ 63) :
    Requested asInt limit stack metaBytes values timeout ↔ ∀ v ∈ values, v.isNil = true := by
  rw [requested_iff, tableFrom_eq_nil_iff _ 0 (by rw [List.length_map]; omega), forall_isNil_normal]

/-- The values of the variadic overloads, where they survive msgpack and fit on the stack, would come to a handler. -/
theorem handled_packLua {values : List LuaValue} (hvalid : ∀ v ∈ values, v.Valid) (hsurvive : ∀ v ∈ values, v.Survives)
    (hfit : SlotsFit (limit - stack.length) values) : Handled limit stack m (packLua values) values := by
  rw [handled_iff]
  intro b hb
  obtain ⟨rounds, s, hrun, hstack⟩ := Msgpack.luaRoundTrips_of_survive hb hvalid hsurvive hfit
  have hlength : (values.map LuaValue.normal).reverse.length = values.length := by
    rw [List.length_reverse, List.length_map]
  refine ⟨rounds, ?_⟩
  rw [valuesTable, hrun]
  dsimp only
  rw [hstack, if_pos (by rw [List.length_append]; omega), List.take_left' hlength, List.reverse_reverse]

/-- The callback would have the values of an answer exactly if they are one string. -/
theorem callback_iff {replies : List LuaValue} (h : overload replies = some body) :
    [(callback 0 body).2] = replies.map LuaValue.normal ↔ ∃ str, replies = [.string str] := by
  constructor
  · intro hvalues
    match replies, h, hvalues with
    | [value], h, hvalues =>
      cases value with
      | string str => exact ⟨str, rfl⟩
      | _          => cases h
    | _ :: _ :: _, _, hvalues =>
      have hlength := congrArg List.length hvalues
      simp only [List.length_cons, List.length_map, List.length_nil] at hlength
      omega
  · rintro ⟨str, rfl⟩
    cases h
    rfl

theorem not_published (limit : Nat) (stack : List LuaValue) (metaBytes : List UInt8) (values : List LuaValue) :
    ¬Published limit stack metaBytes values := by
  rintro ⟨depth, m, body, hpublish, -⟩
  rw [publish, handOn_eq_none] at hpublish
  cases hpublish

theorem not_answered (metaBytes : List UInt8) (replies : List LuaValue) : ¬Answered metaBytes replies := by
  rintro ⟨depth, m, body, hreply, -⟩
  rw [reply, handOn_eq_none] at hreply
  cases hreply

/-- **What is published or answered never comes, and of what is requested an empty table**, whatever the values are. -/
theorem exchanged_never (asInt : LuaValue → Option Int) (limit : Nat) (stack : List LuaValue) (metaBytes : List UInt8)
    (values : List LuaValue) (timeout : Option IntType.int64.Val) (replies : List LuaValue) :
    ¬Exchanged asInt limit stack metaBytes values timeout replies ∧ ¬Published limit stack metaBytes values ∧
      (Requested asInt limit stack metaBytes values timeout ↔ tableFrom 0 (values.map LuaValue.normal) [] = []) ∧
      ¬Answered metaBytes replies :=
  ⟨fun h => not_published limit stack metaBytes values h.1, not_published limit stack metaBytes values, requested_iff,
    not_answered metaBytes replies⟩

/-- The numbers 7 and 8, answered with a string. -/
theorem not_exchanged : ¬∀ (asInt : LuaValue → Option Int) (limit : Nat) (stack : List LuaValue) (metaBytes : List UInt8)
    (values : List LuaValue) (timeout : Option IntType.int64.Val) (replies : List LuaValue),
    Exchanged asInt limit stack metaBytes values timeout replies := by
  intro h
  have hexchanged := h (fun _ => none) 20 [] (List.replicate 30 0)
    [.integer (IntType.int64.wrap 7), .integer (IntType.int64.wrap 8)] (some (IntType.int64.wrap 3000)) [.string [0x6f, 0x6b]]
  have hnil := (requested_iff_nil (by decide)).1 hexchanged.2.1
  exact Bool.false_ne_true (hnil _ List.mem_cons_self)

end NatsLua

end Gb
