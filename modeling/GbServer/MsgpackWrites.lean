import GbServer.MsgpackDemands
/-!
# MsgpackWrites — what the container decoders write and reserve

Elements are appended, or assigned to an entry of a map; only a table that is read into a vector, and the copy into a
`std::array`, write at a place that the message chooses (`writesSteps`).  A count from the message is handed to `reserve`
and `resize` as it is, so it may be larger than what is left of the message.
-/
namespace Gb.Msgpack

open Stateful

/-- What an event must be for what is written to lie in the container. -/
def Event.inside : Event → Prop
  | .key k size          => 1 ≤ k ∧ k ≤ size
  | .elements count size => count ≤ size
  | _                    => True

/-- What an event must be for a count that is handed on to fit in the message. -/
def Event.affordable : Event → Prop
  | .alloc count remaining => count ≤ remaining
  | _                      => True

/-- As long as nothing was written outside, what comes next decides. -/
def WritesStep (s : Unpacker) (o : Option Fault) (t : Unpacker) : Prop :=
  All Event.inside s → (All Event.inside t ↔ o ≠ some .writeOutside)

theorem WritesStep.same {s t : Unpacker} {o : Option Fault} (hlog : t.log = s.log) (ho : o ≠ some .writeOutside) :
    WritesStep s o t := by
  intro h
  unfold All at h ⊢
  rw [hlog]
  exact iff_of_true h ho

theorem WritesStep.note {s t : Unpacker} {o : Option Fault} {e : Event} (hlog : t.log = e :: s.log)
    (he : e.inside ↔ o ≠ some .writeOutside) : WritesStep s o t := by
  intro h
  unfold All at h ⊢
  rw [hlog, List.forall_mem_cons, he]
  exact ⟨And.left, fun ho => ⟨ho, h⟩⟩

theorem WritesStep.safeIncremen (b : Buffer) (size : Nat) (s : Unpacker) :
    WritesStep s (outcome (safeIncremen b size s)) (after (safeIncremen b size s)) := by
  unfold Msgpack.safeIncremen
  split <;> exact .same rfl fun h => nomatch h

theorem writesSteps (b : Buffer) : Respects b WritesStep where
  refl         := fun _ => .same rfl fun h => nomatch h
  trans        := fun h₁ h₂ h => h₂ ((h₁ h).2 fun h => nomatch h)
  safeData     := fun s => by
    unfold Msgpack.safeData
    split
    · exact .note rfl (by simp [Event.inside, outcome])
    · exact .same rfl fun h => nomatch h
  safeIncremen := WritesStep.safeIncremen b
  setError     := fun _ => .same rfl fun h => nomatch h
  copyFloat    := fun _ _ => .note rfl (by simp [Event.inside, outcome, Msgpack.copyFloat])
  takeBytes    := fun size s => by
    unfold Msgpack.takeBytes
    split
    · split
      · exact .note rfl (by simp [Event.inside, outcome])
      · exact .same rfl fun h => nomatch h
    · exact .same rfl fun h => nomatch h
  marker       := fun _ _ _ => .note rfl (by simp [Event.inside, outcome, Msgpack.note])
  cast         := fun _ _ _ => .note rfl (by simp [Event.inside, outcome, Msgpack.note])
  undefined    := fun _ _ => .same rfl fun h => nomatch h
  unpackNil    := fun s h => by
    have hmarker : WritesStep s none { s with log := .marker .nil ((b.bytes[s.dataPointer]?).getD 0) :: s.log } :=
      .note rfl (by simp [Event.inside])
    exact WritesStep.safeIncremen b 1 _ ((hmarker h).2 fun h => nomatch h)
  announce     := fun reserves count s h => by
    unfold All at h
    unfold Msgpack.announce
    dsimp only
    split
    · split <;> simpa [All, Event.inside, outcome, after] using h
    · simpa [All, Event.inside, outcome, after] using h
  store        := fun array key val s h => by
    unfold Msgpack.store
    dsimp only
    split
    · rename_i hkey
      simpa [All, Event.inside, outcome, after, hkey] using h
    · rename_i hkey
      exact iff_of_false (fun hall => hkey (hall _ List.mem_cons_self)) fun hne => hne rfl
  copyOut      := fun size init vec s h => by
    unfold Msgpack.copyOut
    dsimp only
    split
    · rename_i hle
      simpa [All, Event.inside, outcome, after, hle] using h
    · rename_i hlt
      exact iff_of_false (fun hall => hlt (hall _ List.mem_cons_self)) fun hne => hne rfl

/-! ## Whole messages -/

/-- Nothing is written outside a container, and no count above the bytes that are left is handed on. -/
structure BoundedWrites (b : Buffer) (t : Ty) : Prop where
  writes : outcome (unpack b t) ≠ some .writeOutside
  allocs : All Event.affordable (after (unpack b t))

/-- A count is no larger than the bytes that are left behind it, a key is an index of the vector, and a `std::array` is
sent no more elements than it has. -/
def honest : Demand where
  count  := fun count remaining => count ≤ remaining
  key    := fun key size => 1 ≤ key ∧ key ≤ size
  copied := fun count size => count ≤ size

theorem all_honest_iff {u : Unpacker} : All honest.of u ↔ All Event.inside u ∧ All Event.affordable u := by
  have hevent : ∀ e : Event, honest.of e ↔ e.inside ∧ e.affordable := fun e => by
    cases e <;> simp [Demand.of, honest, Event.inside, Event.affordable]
  unfold All
  simp only [hevent, ← forall_and]

/-- **Writes and allocations are bounded if and only if the message is honest wherever the decoder comes to a count or a
key.** -/
theorem unpack_boundedWrites_iff (b : Buffer) (t : Ty) : BoundedWrites b t ↔ Meets honest b t 0 := by
  have hwrites : All Event.inside (after (unpack b t)) ↔ outcome (unpack b t) ≠ some .writeOutside :=
    (writesSteps b).unpackType t {} fun _ h => nomatch h
  have hmeets : All honest.of (after (unpack b t)) ↔ Meets honest b t 0 :=
    ((unpackType_shows honest b t).tells {} (Nat.zero_le _)).trans (and_iff_right fun _ h => nomatch h)
  rw [← hmeets, all_honest_iff, hwrites]
  exact ⟨fun h => ⟨h.writes, h.allocs⟩, fun h => ⟨h.1, h.2⟩⟩

/-- A table with one entry, under the key zero. -/
def zeroKey : Buffer := .ofBytes [0xe0, 0, 0, 0, 0, 0, 0, 0, 1, 0, 7] (by decide)

theorem not_unpack_boundedWrites : ¬∀ (b : Buffer) (t : Ty), BoundedWrites b t := by
  intro h
  have hwrites := (h zeroKey (.vector (.num (.int .int32)))).writes
  exact hwrites (by decide +kernel)

end Gb.Msgpack
