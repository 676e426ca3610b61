import GbServer.LuaDemands
/-!
# MsgpackReads — which bytes of memory an `Unpacker` reads

Every byte that a decoder looks at lies in the message, and so does every string that it takes, whatever length was
announced (`soundReads`).  A float is copied from wherever its marker was, so its bytes may lie behind the message: they
do where the decoder comes to the marker of a float with fewer bytes of the message behind it than the float has.
-/
namespace Gb.Msgpack

open Stateful

section

variable (b : Buffer)

/-- The bytes that were looked at lie in the message. -/
structure SoundReads (u : Unpacker) : Prop where
  position : u.dataPointer ≤ b.bytes.length
  reads    : ∀ offset size, .read offset size ∈ u.log → offset + size ≤ b.bytes.length

variable {b}

theorem SoundReads.note {u : Unpacker} (h : SoundReads b u) {e : Event}
    (he : ∀ offset size, e = .read offset size → offset + size ≤ b.bytes.length) :
    SoundReads b { u with log := e :: u.log } where
  position := h.position
  reads    := fun offset size hm => by
    rcases List.mem_cons.1 hm with rfl | hm
    · exact he offset size rfl
    · exact h.reads offset size hm

theorem SoundReads.move {u : Unpacker} (h : SoundReads b u) (ec : Bool) {p : Nat} (hp : p ≤ b.bytes.length) :
    SoundReads b { u with dataPointer := p, ec := ec } := ⟨hp, h.reads⟩

theorem SoundReads.safeIncremen {u : Unpacker} (h : SoundReads b u) (size : Nat) :
    SoundReads b (after (safeIncremen b size u)) := by
  unfold Msgpack.safeIncremen
  split
  · rename_i hle
    exact h.move _ hle
  · exact h.move _ (Nat.le_refl _)

/-- **No decoder looks at a byte outside the message.** -/
theorem soundReads (b : Buffer) : RespectsLua b fun s _ t => SoundReads b s → SoundReads b t where
  refl         := fun _ h => h
  trans        := fun h₁ h₂ h => h₂ (h₁ h)
  safeData     := fun s h => by
    unfold Msgpack.safeData
    split
    · rename_i hbyte
      refine h.note fun offset size he => ?_
      cases he
      exact (List.getElem?_eq_some_iff.1 hbyte).1
    · exact h.move true h.position
  safeIncremen := fun size s h => h.safeIncremen size
  setError     := fun s h => h.move true h.position
  copyFloat    := fun _ s h => h.note fun _ _ he => nomatch he
  takeBytes    := fun size s h => by
    unfold Msgpack.takeBytes
    split
    · split
      · rename_i hle
        refine (h.note fun offset size he => ?_).move s.ec hle
        cases he
        exact hle
      · exact h
    · exact h.move true h.position
  marker       := fun _ _ s h => h.note fun _ _ he => nomatch he
  cast         := fun _ _ s h => h.note fun _ _ he => nomatch he
  undefined    := fun _ _ h => h
  unpackNil    := fun s h => by
    have hmarker := h.note (e := .marker .nil ((b.bytes[s.dataPointer]?).getD 0)) fun _ _ he => by cases he
    exact hmarker.safeIncremen 1
  announce     := fun reserves count s h => by
    have halloc := h.note (e := .alloc count (b.remaining s)) fun _ _ he => by cases he
    unfold Msgpack.announce
    dsimp only
    split
    · split <;> exact halloc
    · exact h
  store        := fun array key val s h => by
    unfold Msgpack.store
    dsimp only
    split <;> exact h.note fun _ _ he => nomatch he
  copyOut      := fun size init vec s h => by
    unfold Msgpack.copyOut
    dsimp only
    split <;> exact h.note fun _ _ he => nomatch he
  peekBytes    := fun size hsize s h => by
    unfold Msgpack.peekBytes
    split
    · rename_i hin
      refine h.note fun offset size he => ?_
      cases he
      exact (inRange_iff h.position (by omega)).1 hin
    · exact h.move true h.position
  fault        := fun _ _ h => h

end

/-! ## Whole messages -/

theorem RespectsLua.unpackLoop {b : Buffer} {R : Unpacker → Option Fault → Unpacker → Prop} (h : RespectsLua b R)
    (limit : Nat) : ∀ rounds i, Steps (OnUnpacker R) (Msgpack.unpackLoop b limit rounds i)
  | 0,          _ => fun s => h.fault s.unpacker _
  | rounds + 1, i => by
    refine h.bind (fun s => h.refl s.unpacker) fun s => Steps.ite (h.pure i) ?_
    exact h.bind (h.unpackStackProxy limit b.depth) fun _ => unpackLoop h limit rounds (i + 1)

/-- Every byte that an `Unpacker` read or copied lies in the message. -/
def BoundedReads (b : Buffer) (u : Unpacker) : Prop :=
  ∀ offset size, .read offset size ∈ u.log ∨ .memcpy offset size ∈ u.log → offset + size ≤ b.bytes.length

/-- A float lies in the message. -/
def floatsInside (b : Buffer) : Demand := { float := fun offset size => offset + size ≤ b.bytes.length }

/-- At the marker of a float, its bytes are left. -/
theorem numberMeets_floatsInside_iff (b : Buffer) (p : Nat) : NumberMeets (floatsInside b) b p ↔
    (b.bytes[p]? = some Format.float32.code → p + 5 ≤ b.bytes.length) ∧
    (b.bytes[p]? = some Format.float64.code → p + 9 ≤ b.bytes.length) := by
  unfold NumberMeets floatsInside Buffer.front Buffer.skip
  cases hbyte : b.bytes[p]? with
  | none   =>
    have hno : ∀ {P : Prop} {x : UInt8}, none = some x → P := fun h => nomatch h
    exact iff_of_true ⟨fun h => absurd h (by decide), fun h => absurd h (by decide)⟩ ⟨hno, hno⟩
  | some x =>
    have hlt : p < b.bytes.length := (List.getElem?_eq_some_iff.1 hbyte).1
    rw [Nat.min_eq_left hlt, Option.getD_some, Option.some.injEq, Option.some.injEq]

theorem SoundReads.bounded_iff {b : Buffer} {u : Unpacker} (h : SoundReads b u) :
    BoundedReads b u ↔ All (floatsInside b).of u := by
  constructor
  · intro hb e hm
    cases e with
    | memcpy offset size => exact hb offset size (.inr hm)
    | _                  => trivial
  · rintro hf offset size (hm | hm)
    · exact h.reads offset size hm
    · exact hf _ hm

theorem SoundReads.init (b : Buffer) : SoundReads b {} := ⟨Nat.zero_le _, fun _ _ hm => nomatch hm⟩

theorem all_init (p : Event → Prop) : All p {} := fun _ hm => nomatch hm

/-- **All that is read of a message lies in it if and only if every float that the decoder comes to does, whatever type is
unpacked and also in the Lua decoder's loop.** -/
theorem unpack_boundedReads_iff (b : Buffer) :
    (∀ t : Ty, BoundedReads b (after (unpack b t)) ↔ Meets (floatsInside b) b t 0) ∧
    ∀ limit rounds i stack, BoundedReads b (after (unpackLoop b limit rounds i { stack })).unpacker ↔
      LoopMeets (floatsInside b) b limit rounds (0, stack.map LuaValue.kind) := by
  constructor
  · intro t
    have hmeets := (unpackType_shows (floatsInside b) b t).tells {} (Nat.zero_le _)
    rw [and_iff_right (all_init _)] at hmeets
    exact (SoundReads.bounded_iff ((soundReads b).unpackType t {} (.init b))).trans hmeets
  · intro limit rounds i stack
    have hmeets := (unpackLoop_shows (floatsInside b) b limit rounds i).tells { stack } (Nat.zero_le _)
    rw [and_iff_right (all_init _)] at hmeets
    exact (SoundReads.bounded_iff ((soundReads b).unpackLoop limit rounds i { stack } (.init b))).trans hmeets

/-- A message that ends with the marker of a float. -/
def truncatedFloat : Buffer := .ofBytes [0xca] (by decide)

theorem not_unpack_boundedReads : ¬∀ (b : Buffer) (t : Ty), BoundedReads b (after (unpack b t)) := by
  intro h
  have hcopy := h truncatedFloat (.num .float) 1 4 (.inr (by decide))
  exact absurd hcopy (by decide)

end Gb.Msgpack
