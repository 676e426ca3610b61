import GbServer.LuaBalance
import GbServer.RpcCall
import GbServer.RpcHandler
/-!
# RpcCallbacks — the callbacks of a call, for Lua and for C++

The two wrappers of `RpcCall::SetCallBack` (`rpc_call.h`), and what a completed call gives them (`rpc_call.cpp`): a response
comes with its message, an error with a session and a buffer that are null.  The wrapper of a Lua function takes the data
out of the buffer before it looks at the error code, so it calls its function for responses only, and of those for the ones
that the decoder of Lua comes through (`setCallBack_agree_iff`).
-/
namespace Gb

open Msgpack (Ty Buffer Fault LuaState LuaValue Calls unpack unpackLoop unpackLoop_succ)

/-! ## The loop of `unpack` -/

namespace Msgpack

/-- So many calls of the loop in a row. -/
def CallsIn (b : Buffer) (limit : Nat) : Nat → LuaState → LuaState → Prop
  | 0,     s, t => s = t
  | n + 1, s, t => ∃ u, Calls b limit s u ∧ CallsIn b limit n u t

/-- A loop that returns has come to the end of the message, in as many calls as it says. -/
theorem callsIn_of_unpackLoop {b : Buffer} {limit : Nat} : ∀ {rounds i m : Nat} {s t : LuaState},
    unpackLoop b limit rounds i s = .ok m t → ∃ n, m = i + n ∧ CallsIn b limit n s t ∧ b.isEmpty t.unpacker = true
  | 0,          _, _, _, _, h => nomatch h
  | rounds + 1, i, m, s, t, h => by
    rw [unpackLoop_succ] at h
    by_cases hempty : b.isEmpty s.unpacker
    · rw [if_pos hempty] at h
      cases h
      exact ⟨0, rfl, rfl, hempty⟩
    · rw [if_neg hempty] at h
      cases hcall : unpackStackProxy b limit b.depth s with
      | ok _ u    =>
        rw [hcall] at h
        obtain ⟨n, hm, hcalls, hend⟩ := callsIn_of_unpackLoop h
        exact ⟨n + 1, by omega, ⟨u, ⟨by simpa using hempty, hcall⟩, hcalls⟩, hend⟩
      | error e u =>
        rw [hcall] at h
        cases h

/-- One round more than there are calls is enough. -/
theorem CallsIn.unpackLoop {b : Buffer} {limit : Nat} : ∀ {n i : Nat} {s t : LuaState},
    CallsIn b limit n s t → b.isEmpty t.unpacker = true → Msgpack.unpackLoop b limit (n + 1) i s = .ok (i + n) t
  | 0,     i, s, t, h, hend => by
    cases h
    rw [unpackLoop_succ, if_pos hend]
    rfl
  | n + 1, i, s, t, h, hend => by
    obtain ⟨u, hsu, hut⟩ := h
    have hempty : ¬b.isEmpty s.unpacker := by simp [hsu.1]
    rw [unpackLoop_succ, if_neg hempty, hsu.2]
    dsimp only
    rw [hut.unpackLoop hend, Nat.add_right_comm i 1 n, Nat.add_assoc]

end Msgpack

/-! ## What a callback is given -/

/-- `static_cast<int>`. -/
def RpcErrorCode.value : RpcErrorCode → Nat
  | none           => 0
  | timeout        => 1
  | cancel         => 2
  | invalidRequest => 3

/-- The arguments of an `rpc_result_callback`. -/
structure CallbackArguments where
  err      : RpcErrorCode
  session  : Option SessionId := none
  buffer   : Option ReadBuffer := none
  meta_    : Meta := .init
  metaSize : Int := 0
  dataSize : Int := 0

/-- The message of a response, without its `Meta`. -/
structure ResponseBody where
  buffer   : ReadBuffer
  metaSize : Int
  dataSize : Int

/-- What `Done`, the timer, `Cancel` and `StartTimer` call the callback with. -/
def Outcome.arguments (body : ResponseBody) : Outcome → CallbackArguments
  | .response session m => ⟨.none, some session, some body.buffer, m, body.metaSize, body.dataSize⟩
  | .timeout            => { err := .timeout }
  | .cancel             => { err := .cancel }
  | .invalidRequest     => { err := .invalidRequest }

/-! ## The wrappers -/

/-- How a call of a wrapper goes: whether it uses the buffer, and what it comes to. -/
structure Wrapped (α : Type) where
  touched : Bool
  served  : Served α

/-- The calls of the user's function. -/
def Served.calls {α : Type} : Served α → List α
  | .invoked args => [args]
  | _             => []

/-- The arguments of a Lua function: the `RpcReply`, the error code, and the values of the response. -/
structure LuaCall where
  meta_   : Meta
  session : Option SessionId
  err     : Nat
  args    : List LuaValue

section

variable (c : Codecs) (p : TranBufPool) (outside : Int → UInt8) (memory : Memory) (limit : Nat) (stack : List LuaValue)

/-- What follows on `GetMsgData`; that starts with a call on the buffer, which may be null. -/
def CallbackArguments.withData {α : Type} (a : CallbackArguments) (f : List UInt8 → Served α) : Served α :=
  match a.buffer with
  | none        => .undefined
  | some buffer => .withData (getMsgData c p outside a.meta_ buffer a.metaSize a.dataSize) f

/-- `unpack`, for a number of rounds of its loop.  The values are the topmost ones of the stack, as many as it made calls. -/
def luaUnpack (rounds : Nat) (b : Buffer) : Except Fault (List LuaValue) :=
  match unpackLoop b limit rounds 0 { stack } with
  | .ok n t    => if n ≤ t.stack.length then .ok (t.stack.take n).reverse else .error .luaStack
  | .error e _ => .error e

/-- `SetCallBack` of a Lua function. -/
def setCallBackLua (rounds : Nat) (a : CallbackArguments) : Wrapped LuaCall where
  touched := true
  served  := a.withData c p outside fun s =>
    let call := LuaCall.mk (a.meta_.copyIn [UInt8.ofNat MsgMode.response]) a.session a.err.value
    match memory.place s with
    | none   => .threw
    | some b =>
      if a.err = .none ∧ 0 < a.dataSize then applyUnpacked call (luaUnpack limit stack rounds b)
      else .invoked (call [])

/-- `SetCallBack` of a C++ function with these values behind its `RpcErrorCode`. -/
def setCallBackCpp (a : CallbackArguments) : (ts : List Ty) → Wrapped (RpcErrorCode × (tuple ts).Val)
  | []      => ⟨false, .invoked (a.err, ())⟩
  | t :: ts =>
    if a.err = .none then
      ⟨true, a.withData c p outside fun s => applyUnpacked (fun values => (.none, values)) (msgpackUnpackTuple memory (t :: ts) s)⟩
    else ⟨false, .invoked (a.err, (tuple (t :: ts)).init)⟩

/-- For one outcome both wrappers call their functions once, with its error code, and neither uses a buffer that is not
there. -/
structure WrappersAgree (a : CallbackArguments) (ts : List Ty) : Prop where
  lua     : ∃ rounds call, (setCallBackLua c p outside memory limit stack rounds a).served.calls = [call] ∧ call.err = a.err.value
  cpp     : ∃ call, (setCallBackCpp c p outside memory a ts).served.calls = [call] ∧ call.1 = a.err
  touched : a.buffer = none → (∀ rounds, (setCallBackLua c p outside memory limit stack rounds a).touched = false) ∧
    (setCallBackCpp c p outside memory a ts).touched = false

/-- The decoder of Lua comes to the end of a message, and what it counts is on the stack. -/
def LuaDecodes (b : Buffer) : Prop :=
  ∃ n t, Msgpack.CallsIn b limit n { stack } t ∧ b.isEmpty t.unpacker = true ∧ n ≤ t.stack.length

/-- A response whose data is there; the decoder of Lua comes through it if it is to be decoded, and the one of C++ gives
back the values if there are any. -/
def Outcome.Delivers (body : ResponseBody) (ts : List Ty) (outcome : Outcome) : Prop :=
  ∃ session m s b, outcome = .response session m ∧
    getMsgData c p outside m body.buffer body.metaSize body.dataSize = .ok s ∧ memory.place s = some b ∧
    (0 < body.dataSize → LuaDecodes limit stack b) ∧ (ts = [] ∨ ∃ values u, unpack b (tuple ts) = .ok values u)

end

section

variable {c : Codecs} {p : TranBufPool} {outside : Int → UInt8} {memory : Memory} {limit : Nat} {stack : List LuaValue}

/-- The wrapper of a C++ function, on what a completed call gives it. -/
theorem setCallBackCpp_arguments (r : Received) (ts : List Ty) (outcome : Outcome)
    (hresponse : ∀ session m, outcome = .response session m → m = r.meta_) :
    (setCallBackCpp c p outside memory (outcome.arguments ⟨r.buffer, r.metaSize, r.dataSize⟩) ts).served =
      setCallBack c p outside memory (outcome.arguments ⟨r.buffer, r.metaSize, r.dataSize⟩).err r ts := by
  cases ts with
  | nil => rfl
  | cons t ts =>
    cases outcome with
    | response session m =>
      obtain rfl := hresponse session m rfl
      rfl
    | timeout | cancel | invalidRequest => rfl

theorem calls_eq_singleton {α : Type} {served : Served α} {x : α} : served.calls = [x] ↔ served = .invoked x := by
  cases served <;> simp [Served.calls]

theorem applyUnpacked_eq_invoked {α β : Type} {f : α → β} {e : Except Fault α} {x : β} :
    applyUnpacked f e = .invoked x ↔ ∃ values, e = .ok values ∧ f values = x := by
  cases e with
  | ok values => simp [applyUnpacked]
  | error e   => by_cases he : Throws e <;> simp [applyUnpacked, he]

/-- The loop of `unpack` gives back its values exactly if the decoder comes to the end of the message. -/
theorem luaUnpack_ok_iff (b : Buffer) :
    (∃ rounds values, luaUnpack limit stack rounds b = .ok values) ↔ LuaDecodes limit stack b := by
  constructor
  · rintro ⟨rounds, values, h⟩
    unfold luaUnpack at h
    cases hloop : unpackLoop b limit rounds 0 { stack } with
    | ok m t    =>
      rw [hloop] at h
      obtain ⟨n, hm, hcalls, hend⟩ := Msgpack.callsIn_of_unpackLoop hloop
      by_cases hle : m ≤ t.stack.length
      · exact ⟨n, t, hcalls, hend, by omega⟩
      · simp [hle] at h
    | error e t =>
      rw [hloop] at h
      cases h
  · rintro ⟨n, t, hcalls, hend, hle⟩
    refine ⟨n + 1, (t.stack.take n).reverse, ?_⟩
    unfold luaUnpack
    rw [hcalls.unpackLoop hend, Nat.zero_add]
    exact if_pos hle

theorem withData_eq_invoked {α : Type} {body : ResponseBody} {session : SessionId} {m : Meta} {f : List UInt8 → Served α}
    {x : α} : ((Outcome.response session m).arguments body).withData c p outside f = .invoked x ↔
      ∃ s, getMsgData c p outside m body.buffer body.metaSize body.dataSize = .ok s ∧ f s = .invoked x := by
  dsimp only [CallbackArguments.withData, Outcome.arguments]
  cases getMsgData c p outside m body.buffer body.metaSize body.dataSize with
  | error e =>
    refine iff_of_false (fun h => ?_) fun ⟨_, h, _⟩ => nomatch h
    cases e <;> cases h
  | ok s    => simp only [Served.withData, Except.ok.injEq, exists_eq_left']

/-- The Lua function is called for a response, once the data of that has come through the decoder. -/
theorem setCallBackLua_response_iff (body : ResponseBody) (session : SessionId) (m : Meta) :
    (∃ rounds call, (setCallBackLua c p outside memory limit stack rounds ((Outcome.response session m).arguments body)).served.calls =
      [call] ∧ call.err = RpcErrorCode.none.value) ↔
    ∃ s b, getMsgData c p outside m body.buffer body.metaSize body.dataSize = .ok s ∧ memory.place s = some b ∧
      (0 < body.dataSize → LuaDecodes limit stack b) := by
  constructor
  · rintro ⟨rounds, call, hcalls, _⟩
    obtain ⟨s, hdata, hs⟩ := withData_eq_invoked.1 (calls_eq_singleton.1 hcalls)
    cases hplace : memory.place s with
    | none   =>
      simp only [hplace] at hs
      cases hs
    | some b =>
      refine ⟨s, b, hdata, hplace, fun hsize => ?_⟩
      simp only [hplace] at hs
      rw [if_pos ⟨rfl, hsize⟩] at hs
      obtain ⟨values, hvalues, _⟩ := applyUnpacked_eq_invoked.1 hs
      exact (luaUnpack_ok_iff b).1 ⟨rounds, values, hvalues⟩
  · rintro ⟨s, b, hdata, hplace, hlua⟩
    by_cases hsize : 0 < body.dataSize
    · obtain ⟨rounds, values, hvalues⟩ := (luaUnpack_ok_iff b).2 (hlua hsize)
      refine ⟨rounds, ⟨m.copyIn [UInt8.ofNat MsgMode.response], some session, _, values⟩,
        calls_eq_singleton.2 (withData_eq_invoked.2 ⟨s, hdata, ?_⟩), rfl⟩
      simp only [hplace]
      rw [if_pos ⟨rfl, hsize⟩]
      exact applyUnpacked_eq_invoked.2 ⟨values, hvalues, rfl⟩
    · refine ⟨0, ⟨m.copyIn [UInt8.ofNat MsgMode.response], some session, _, []⟩,
        calls_eq_singleton.2 (withData_eq_invoked.2 ⟨s, hdata, ?_⟩), rfl⟩
      simp only [hplace]
      exact if_neg fun h => hsize h.2

/-- The C++ function is called for a response, once the values are there. -/
theorem setCallBackCpp_response_iff (body : ResponseBody) (session : SessionId) (m : Meta) {s : List UInt8} {b : Buffer}
    (hdata : getMsgData c p outside m body.buffer body.metaSize body.dataSize = .ok s) (hplace : memory.place s = some b)
    (ts : List Ty) :
    (∃ call, (setCallBackCpp c p outside memory ((Outcome.response session m).arguments body) ts).served.calls = [call] ∧
      call.1 = .none) ↔ ts = [] ∨ ∃ values u, unpack b (tuple ts) = .ok values u := by
  cases ts with
  | nil       => exact iff_of_true ⟨(.none, ()), rfl, rfl⟩ (.inl rfl)
  | cons t ts =>
    rw [or_iff_right (List.cons_ne_nil t ts)]
    constructor
    · rintro ⟨call, hcalls, _⟩
      obtain ⟨s', hs', hinvoked⟩ := withData_eq_invoked.1 (calls_eq_singleton.1 hcalls)
      obtain rfl := Except.ok.inj (hdata.symm.trans hs')
      obtain ⟨values, hvalues, _⟩ := applyUnpacked_eq_invoked.1 hinvoked
      rw [msgpackUnpackTuple, hplace] at hvalues
      dsimp only at hvalues
      split at hvalues
      · rename_i u hunpack
        exact ⟨_, u, hunpack⟩
      · cases hvalues
    · rintro ⟨values, u, hunpack⟩
      refine ⟨(.none, values), calls_eq_singleton.2 (withData_eq_invoked.2 ⟨s, hdata, ?_⟩), rfl⟩
      refine applyUnpacked_eq_invoked.2 ⟨values, ?_, rfl⟩
      rw [msgpackUnpackTuple, hplace]
      dsimp only
      rw [hunpack]

/-- Without a buffer the Lua function is not called. -/
theorem WrappersAgree.buffer {a : CallbackArguments} {ts : List Ty} (h : WrappersAgree c p outside memory limit stack a ts) :
    a.buffer ≠ none := by
  intro hnone
  have htouched := (h.touched hnone).1 0
  cases htouched

end

/-- **The callbacks for Lua and for C++ agree exactly on the responses that both decoders come through**: on every error
the Lua wrapper uses the buffer that is not there, and does not come to its function. -/
theorem setCallBack_agree_iff (c : Codecs) (p : TranBufPool) (outside : Int → UInt8) (memory : Memory) (limit : Nat)
    (stack : List LuaValue) (body : ResponseBody) (outcome : Outcome) (ts : List Ty) :
    WrappersAgree c p outside memory limit stack (outcome.arguments body) ts ↔
      outcome.Delivers c p outside memory limit stack body ts := by
  constructor
  · intro h
    cases outcome with
    | timeout | cancel | invalidRequest => exact absurd rfl h.buffer
    | response session m =>
      obtain ⟨s, b, hdata, hplace, hlua⟩ := (setCallBackLua_response_iff body session m).1 h.lua
      exact ⟨session, m, s, b, rfl, hdata, hplace, hlua,
        (setCallBackCpp_response_iff body session m hdata hplace ts).1 h.cpp⟩
  · rintro ⟨session, m, s, b, rfl, hdata, hplace, hlua, hcpp⟩
    exact ⟨(setCallBackLua_response_iff body session m).2 ⟨s, b, hdata, hplace, hlua⟩,
      (setCallBackCpp_response_iff body session m hdata hplace ts).2 hcpp, fun hnone => nomatch hnone⟩

/-- A timeout: the Lua wrapper calls `ToString` on a null buffer. -/
theorem not_setCallBack_agree : ¬∀ (c : Codecs) (p : TranBufPool) (outside : Int → UInt8) (memory : Memory) (limit : Nat)
    (stack : List LuaValue) (body : ResponseBody) (outcome : Outcome) (ts : List Ty),
    WrappersAgree c p outside memory limit stack (outcome.arguments body) ts :=
  fun h => (h literalCodecs .init (fun _ => 0) lowMemory 1000000 [] ⟨{}, 0, 0⟩ .timeout []).buffer rfl

end Gb
