import GbServer.MsgpackRoundTrip
import GbServer.NatsInbox
/-!
# NatsValues — values through the variadic `Publish`, `Request` and `Reply`

The templates of `NatsManager` (`nats_manager.h`).  The sender packs its arguments one behind the other.  The receiver
unpacks one value of one type; of several it unpacks a `std::tuple` as if it were one value, and `unpack_type` knows no
tuples: they stay as they were made.

`Publish` and `Reply` pass the packed bytes on by calling themselves by name.  The bytes are an lvalue that is not const,
which the template takes rather than the overload for `const std::vector<uint8_t>&`, and its condition does not leave bytes
out, as that of `Request` does: they call themselves without end.
-/
namespace Gb

open Msgpack (Ty Buffer Fault Unpacker Reader Survives Sized MapsRead)

/-- A value with its type. -/
abbrev NatsValue := Σ t : Ty, t.Val

/-- An argument as the overloads of `Publish` and `Reply` see it. -/
structure NatsArg where
  value         : NatsValue
  isConstLvalue : Bool

/-- The way of a message: published or requested, to a `Subscribe`; or replied, to the `Request` that takes bytes or to the
variadic one. -/
inductive NatsWay
  | publish
  | request
  | reply (variadic : Bool)

namespace NatsManager

/-- `pack` of the tuple of the arguments. -/
def packValues (values : List NatsValue) : List UInt8 := values.flatMap fun value => Msgpack.pack value.1 value.2

/-- A call of `Publish` or of `Reply`, which has at most so many calls inside it: the body that is handed to NATS, if the
overload for bytes is ever reached. -/
def callByName : Nat → List NatsArg → Option (List UInt8)
  | 0,         _                         => none
  | _ + 1,     [⟨⟨.binary, data⟩, true⟩] => some data
  | depth + 1, args                      => callByName depth [⟨⟨.binary, packValues (args.map NatsArg.value)⟩, false⟩]

/-- The variadic template `Publish`. -/
def publishValues (depth : Nat) (values : List NatsValue) : Option (List UInt8) :=
  callByName depth [⟨⟨.binary, packValues values⟩, false⟩]

/-- The variadic template `Reply`. -/
def replyValues (depth : Nat) (values : List NatsValue) : Option (List UInt8) :=
  callByName depth [⟨⟨.binary, packValues values⟩, false⟩]

/-- The body of a `Request`; one argument that is bytes goes to the overload for bytes. -/
def requestValues : List NatsValue → List UInt8
  | [⟨.binary, data⟩] => data
  | values            => packValues values

def send (depth : Nat) (values : List NatsValue) : NatsWay → Option (List UInt8)
  | .publish => publishValues depth values
  | .request => some (requestValues values)
  | .reply _ => replyValues depth values

/-- `unpack_type` of a `std::tuple`: the last branch, and no `pack` in it. -/
def unpackTuple (types : List Ty) : Reader (List NatsValue) := return types.map fun t => ⟨t, t.init⟩

/-- `unpack` of one type; `none` where it throws. -/
def unpackOne (t : Ty) (b : Buffer) : Option (List NatsValue) :=
  match Msgpack.unpack b t with
  | .ok value _ => some [⟨t, value⟩]
  | .error _ _  => none

/-- The value of the result that `Subscribe` and `Request` make of a body.  The variadic `Request` unpacks bytes, the others
take the body itself. -/
def receive (b : Buffer) (types : List Ty) (variadicRequest : Bool) : Option (List NatsValue) :=
  match types, variadicRequest with
  | [.binary], false => some [⟨.binary, b.bytes⟩]
  | [t],       _     => unpackOne t b
  | types,     _     =>
    match unpackTuple types {} with
    | .ok values _ => some values
    | .error _ _   => none

def NatsWay.variadicRequest : NatsWay → Bool
  | .reply variadic => variadic
  | _               => false

/-- The values are sent, and come to a receiver of their types, which has the body in `b`. -/
def Delivered (b : Buffer) (way : NatsWay) (m : Meta) (values : List NatsValue) : Prop :=
  ∃ depth body, send depth values way = some body ∧ b.bytes = (splitPayload (buildPayload m body)).2 ∧
    receive b (values.map Sigma.fst) (NatsWay.variadicRequest way) = some values

/-- Requested, and one value of bytes; or one value that survives; or values that all are those of fresh variables. -/
def Arrives : NatsWay → List NatsValue → Prop
  | .request, [⟨.binary, _⟩] => True
  | .request, [⟨t, value⟩]   => Survives t value
  | .request, values         => ∀ value ∈ values, value.2 = value.1.init
  | _,        _              => False

/-- The template for an lvalue of bytes calls itself. -/
theorem callByName_lvalue : ∀ (depth : Nat) (data : List UInt8), callByName depth [⟨⟨.binary, data⟩, false⟩] = none
  | 0,         _ => rfl
  | depth + 1, data => by
    rw [callByName]
    · exact callByName_lvalue depth _
    · intro data' h
      simp at h

theorem publishValues_eq_none (depth : Nat) (values : List NatsValue) : publishValues depth values = none :=
  callByName_lvalue depth _

theorem replyValues_eq_none (depth : Nat) (values : List NatsValue) : replyValues depth values = none :=
  callByName_lvalue depth _

/-! ## Requests -/

variable {b : Buffer} {m : Meta}

theorem delivered_request_iff {values : List NatsValue} (hb : b.bytes = requestValues values) :
    Delivered b .request m values ↔ receive b (values.map Sigma.fst) false = some values := by
  have hbody : b.bytes = (splitPayload (buildPayload m (requestValues values))).2 := by
    rw [splitPayload_buildPayload]
    exact hb
  constructor
  · rintro ⟨_, _, _, _, hreceive⟩
    exact hreceive
  · exact fun hreceive => ⟨0, requestValues values, rfl, hbody, hreceive⟩

theorem receive_one {t : Ty} (h : t ≠ .binary) : receive b [t] false = unpackOne t b := by
  rw [receive]
  exact fun _ hbinary => absurd hbinary h

theorem requestValues_one {t : Ty} (h : t ≠ .binary) (v : t.Val) : requestValues [⟨t, v⟩] = Msgpack.pack t v := by
  have hpack : requestValues [⟨t, v⟩] = packValues [⟨t, v⟩] := by
    cases t with
    | binary => exact absurd rfl h
    | _      => rfl
  rw [hpack, packValues, List.flatMap_singleton]

theorem arrives_one {t : Ty} (h : t ≠ .binary) (v : t.Val) : Arrives .request [⟨t, v⟩] ↔ Survives t v := by
  cases t with
  | binary => exact absurd rfl h
  | _      => exact Iff.rfl

theorem arrives_several (v₁ v₂ : NatsValue) (values : List NatsValue) :
    Arrives .request (v₁ :: v₂ :: values) ↔ ∀ value ∈ v₁ :: v₂ :: values, value.2 = value.1.init := by
  obtain ⟨t, v⟩ := v₁
  cases t with
  | _ => exact Iff.rfl

theorem unpackOne_eq_some_iff {t : Ty} {v : t.Val} :
    unpackOne t b = some [⟨t, v⟩] ↔ ∃ u, Msgpack.unpack b t = .ok v u := by
  rw [unpackOne]
  split
  · rename_i value u hrun
    simp [hrun]
  · rename_i e u hrun
    simp [hrun]

/-- One value is unpacked as it was packed. -/
theorem delivered_one {t : Ty} (h : t ≠ .binary) (v : t.Val) (hb : b.bytes = requestValues [⟨t, v⟩]) :
    (Survives t v → Delivered b .request m [⟨t, v⟩]) ∧
    (Sized t v → MapsRead false t v → Delivered b .request m [⟨t, v⟩] → Survives t v) := by
  have hpack : b.bytes = Msgpack.pack t v := hb.trans (requestValues_one h v)
  rw [delivered_request_iff hb, List.map_singleton, receive_one h, unpackOne_eq_some_iff]
  constructor
  · intro hsurvives
    obtain ⟨u, hrun, _⟩ := Msgpack.roundTrips_of_survives hpack hsurvives
    exact ⟨u, hrun⟩
  · rintro hsized hmaps ⟨u, hrun⟩
    exact Msgpack.survives_of_value hpack hmaps hsized hrun

theorem map_init_eq_self_iff : ∀ values : List NatsValue,
    (values.map fun value => (⟨value.1, value.1.init⟩ : NatsValue)) = values ↔ ∀ value ∈ values, value.2 = value.1.init
  | []                => iff_of_true rfl fun _ hmem => absurd hmem List.not_mem_nil
  | ⟨t, v⟩ :: values => by
    rw [List.map_cons, List.cons.injEq, map_init_eq_self_iff values, List.forall_mem_cons]
    refine and_congr_left fun _ => ⟨fun h => ?_, fun h => ?_⟩
    · exact (eq_of_heq (Sigma.mk.inj h).2).symm
    · exact Sigma.ext rfl (heq_of_eq h.symm)

/-- Of several values there come those of fresh variables. -/
theorem delivered_several {v₁ v₂ : NatsValue} {values : List NatsValue}
    (hb : b.bytes = requestValues (v₁ :: v₂ :: values)) :
    Delivered b .request m (v₁ :: v₂ :: values) ↔ ∀ value ∈ v₁ :: v₂ :: values, value.2 = value.1.init := by
  have hreceive : receive b ((v₁ :: v₂ :: values).map Sigma.fst) false =
      some ((v₁ :: v₂ :: values).map fun value => ⟨value.1, value.1.init⟩) := by
    rw [List.map_cons, List.map_cons, receive]
    · simp [unpackTuple, List.map_map, Function.comp_def]
      rfl
    all_goals simp
  rw [delivered_request_iff hb, hreceive, Option.some.injEq]
  exact map_init_eq_self_iff _

/-- Bytes are the body. -/
theorem delivered_bytes (data : List UInt8) (hb : b.bytes = requestValues [⟨.binary, data⟩]) :
    Delivered b .request m [⟨.binary, data⟩] := by
  have hdata : b.bytes = data := hb
  refine (delivered_request_iff hb).2 ?_
  change some [(⟨.binary, b.bytes⟩ : NatsValue)] = _
  rw [hdata]

/-- **Values that are published or replied never come.  Those of a request come if there is one, and it is bytes or
survives, or if there are more and all are those of fresh variables; and no others do, where one value has no length that
is too long for its field and no map of more than 15 entries.** -/
theorem delivered_iff (b : Buffer) (way : NatsWay) (m : Meta) (values : List NatsValue) (hne : values ≠ [])
    (hb : b.bytes = requestValues values) :
    (Arrives way values → Delivered b way m values) ∧
    ((∀ t (v : t.Val), values = [⟨t, v⟩] → Sized t v ∧ MapsRead false t v) →
      Delivered b way m values → Arrives way values) := by
  cases way with
  | publish =>
    refine ⟨False.elim, fun _ => ?_⟩
    rintro ⟨depth, body, hsend, _⟩
    rw [send, publishValues_eq_none] at hsend
    cases hsend
  | reply   =>
    refine ⟨False.elim, fun _ => ?_⟩
    rintro ⟨depth, body, hsend, _⟩
    rw [send, replyValues_eq_none] at hsend
    cases hsend
  | request =>
    match values, hne with
    | [⟨t, v⟩], _ =>
      by_cases ht : t = .binary
      · subst ht
        exact ⟨fun _ => delivered_bytes v hb, fun _ _ => trivial⟩
      · obtain ⟨hto, hfrom⟩ := delivered_one (m := m) ht v hb
        rw [arrives_one ht]
        exact ⟨hto, fun hfits => hfrom (hfits t v rfl).1 (hfits t v rfl).2⟩
    | v₁ :: v₂ :: values, _ =>
      rw [arrives_several, delivered_several hb]
      exact ⟨id, fun _ => id⟩

/-- A request with the number 7. -/
def seven : Buffer := .ofBytes [0x07] (by decide)

theorem delivered_seven :
    Delivered seven .request Meta.init [⟨.num (.int .int32), Msgpack.IntType.int32.wrap 7⟩] :=
  (delivered_iff seven .request Meta.init [⟨.num (.int .int32), Msgpack.IntType.int32.wrap 7⟩] (List.cons_ne_nil _ _)
    (by decide)).1 trivial

/-- A request with the numbers 7 and 8. -/
def sevenEight : Buffer := .ofBytes [0x07, 0x08] (by decide)

theorem not_delivered : ¬∀ (b : Buffer) (way : NatsWay) (m : Meta) (values : List NatsValue), values ≠ [] →
    b.bytes = requestValues values → Delivered b way m values := by
  intro h
  have hboth := h sevenEight .request Meta.init
    [⟨.num (.int .int32), Msgpack.IntType.int32.wrap 7⟩, ⟨.num (.int .int32), Msgpack.IntType.int32.wrap 8⟩]
    (List.cons_ne_nil _ _) (by decide)
  have hseven := (delivered_several (by decide)).1 hboth _ List.mem_cons_self
  exact absurd (congrArg Subtype.val hseven) (by decide)

end NatsManager

end Gb
