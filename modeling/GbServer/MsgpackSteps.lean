import GbServer.MsgpackTypes
/-!
# MsgpackSteps — what every decoder does to its `Unpacker`

A relation that the primitives respect (`Respects`) is respected by the decoder of every type (`Respects.unpackType`).
An error stays set, the position only grows and stays in the message, and the log only grows (`progress`).  A decoder
that comes to a marker of its family moves on (`Moves`).
-/
namespace Gb.Msgpack

open Stateful

/-- What holds of the primitives that look at bytes, and of a program when it holds of its parts. -/
structure Closed (b : Buffer) (P : ∀ {α : Type}, Reader α → Prop) : Prop where
  pure         : ∀ {α : Type} (a : α), P (Pure.pure a : Reader α)
  bind         : ∀ {α β : Type} {m : Reader α} {f : α → Reader β}, P m → (∀ a, P (f a)) → P (m >>= f)
  safeData     : P (safeData b)
  safeIncremen : ∀ size, P (safeIncremen b size)
  setError     : P setError
  takeBytes    : ∀ size, P (takeBytes b size)
  marker       : ∀ family byte, P (note (.marker family byte))

namespace Closed

variable {b : Buffer} {P : ∀ {α : Type}, Reader α → Prop} (h : Closed b P)

include h

omit h in
theorem ite {α : Type} {c : Prop} [Decidable c] {m n : Reader α} (hm : P m) (hn : P n) : P (if c then m else n) := by
  split
  · exact hm
  · exact hn

theorem readBeLoop : ∀ k out, P (Msgpack.readBeLoop b k out)
  | 0,     out => h.pure out
  | k + 1, out => h.bind h.safeData fun x => h.bind (h.safeIncremen 1) fun _ => readBeLoop k (out * 256 + x.toNat)

theorem readBeUnsigned (k : Nat) : P (Msgpack.readBeUnsigned b k) := h.readBeLoop k 0

theorem readBeSigned (t : IntType) (k : Nat) : P (Msgpack.readBeSigned b t k) := h.bind (h.readBeLoop k 0) fun _ => h.pure _

/-- A number behind its marker. -/
theorem typed {α β : Type} {m : Reader α} (hm : P m) (f : α → β) : P (do Msgpack.safeIncremen b 1; return f (← m)) :=
  h.bind (h.safeIncremen 1) fun _ => h.bind hm fun _ => h.pure _

theorem sized {α : Type} {f : Nat → Reader α} (k : Nat) (hf : ∀ size, P (f size)) :
    P (do Msgpack.safeIncremen b 1; f (← Msgpack.readBeUnsigned b k)) :=
  h.bind (h.safeIncremen 1) fun _ => h.bind (h.readBeUnsigned k) hf

theorem unpackString : P (Msgpack.unpackString b) := by
  refine h.bind h.safeData fun byte => h.bind (h.marker .string byte) fun _ => ?_
  refine ite (h.bind (h.safeIncremen 1) fun _ => h.takeBytes _) ?_
  refine ite (h.sized 8 h.takeBytes) (ite (h.sized 8 h.takeBytes) (ite (h.sized 1 h.takeBytes) ?_))
  exact h.bind h.setError fun _ => h.pure _

theorem unpackBinary : P (Msgpack.unpackBinary b) := by
  refine h.bind h.safeData fun byte => h.bind (h.marker .binary byte) fun _ => ?_
  refine ite (h.sized 8 h.takeBytes) (ite (h.sized 8 h.takeBytes) (ite (h.sized 1 h.takeBytes) ?_))
  exact h.bind h.setError fun _ => h.pure _

end Closed

/-- The primitives go along a relation. -/
structure Respects (b : Buffer) (R : Unpacker → Option Fault → Unpacker → Prop) : Prop extends Chain R where
  safeData     : Steps R (safeData b)
  safeIncremen : ∀ size, Steps R (safeIncremen b size)
  setError     : Steps R setError
  copyFloat    : ∀ size, Steps R (copyFloat b size)
  takeBytes    : ∀ size, Steps R (takeBytes b size)
  marker       : ∀ family byte, Steps R (note (.marker family byte))
  cast         : ∀ x t, Steps R (note (.cast x t))
  undefined    : ∀ α : Type, Steps R (throw .undefinedCast : Reader α)
  unpackNil    : Steps R (unpackNil b)
  announce     : ∀ reserves count, Steps R (announce b reserves count)
  store        : ∀ {α : Type} (array : List α) key val, Steps R (store array key val)
  copyOut      : ∀ {α : Type} size (init : α) vec, Steps R (copyOut size init vec)

namespace Respects

variable {b : Buffer} {R : Unpacker → Option Fault → Unpacker → Prop} (h : Respects b R)

include h

theorem bind {α β : Type} {m : Reader α} {f : α → Reader β} (hm : Steps R m) (hf : ∀ a, Steps R (f a)) :
    Steps R (m >>= f) := Steps.bind h.toChain hm hf

theorem pure {α : Type} (a : α) : Steps R (Pure.pure a : Reader α) := Steps.pure h.toChain a

theorem closed : Closed b (fun m => Steps R m) where
  pure         := h.pure
  bind         := h.bind
  safeData     := h.safeData
  safeIncremen := h.safeIncremen
  setError     := h.setError
  takeBytes    := h.takeBytes
  marker       := h.marker

theorem readBeLoop (k out : Nat) : Steps R (Msgpack.readBeLoop b k out) := h.closed.readBeLoop k out

theorem readBeUnsigned (k : Nat) : Steps R (Msgpack.readBeUnsigned b k) := h.closed.readBeUnsigned k

theorem readBeSigned (t : IntType) (k : Nat) : Steps R (Msgpack.readBeSigned b t k) := h.closed.readBeSigned t k

theorem floating {β : Type} (size : Nat) (f : Nat → β) :
    Steps R (do Msgpack.safeIncremen b 1; let d ← Msgpack.copyFloat b size; Msgpack.safeIncremen b size; return f d) :=
  h.bind (h.safeIncremen 1) fun _ => h.bind (h.copyFloat size) fun _ => h.bind (h.safeIncremen size) fun _ => h.pure _

theorem readNumber : Steps R (Msgpack.readNumber b) := by
  refine h.bind h.safeData fun byte => h.bind (h.marker .number byte) fun _ => ?_
  refine Steps.ite (h.bind (h.safeIncremen 1) fun _ => h.pure _) ?_
  refine Steps.ite (h.bind (h.safeIncremen 1) fun _ => h.pure _) ?_
  refine Steps.ite (h.closed.typed (h.readBeUnsigned 8) _) ?_
  refine Steps.ite (h.closed.typed (h.readBeUnsigned 4) _) ?_
  refine Steps.ite (h.closed.typed (h.readBeUnsigned 2) _) ?_
  refine Steps.ite (h.closed.typed (h.readBeUnsigned 1) _) ?_
  refine Steps.ite (h.closed.typed (h.readBeSigned .int64 8) _) ?_
  refine Steps.ite (h.closed.typed (h.readBeSigned .int32 4) _) ?_
  refine Steps.ite (h.closed.typed (h.readBeSigned .int16 2) _) ?_
  refine Steps.ite (h.closed.typed (h.readBeSigned .int8 1) _) ?_
  refine Steps.ite (h.floating 4 _) ?_
  refine Steps.ite (h.floating 8 _) ?_
  exact h.bind h.setError fun _ => h.pure _

theorem unpackNumber (t : NumType) : Steps R (Msgpack.unpackNumber b t) := by
  refine h.bind h.readNumber fun x => ?_
  cases x with
  | none   => exact h.pure _
  | some x =>
    refine h.bind (h.cast x t) fun _ => ?_
    cases t.cast x with
    | none     => exact h.undefined _
    | some val => exact h.pure val

theorem unpackBool : Steps R (Msgpack.unpackBool b) := by
  refine h.bind h.safeData fun byte => ?_
  refine Steps.ite (h.bind (h.marker .bool byte) fun _ => h.bind (h.safeIncremen 1) fun _ => h.pure _) ?_
  refine h.bind h.safeData fun byte => ?_
  exact Steps.ite (h.bind (h.marker .bool byte) fun _ => h.bind (h.safeIncremen 1) fun _ => h.pure _)
    (h.unpackNumber .bool)

theorem sized {α : Type} {f : Nat → Reader α} (k : Nat) (hf : ∀ size, Steps R (f size)) :
    Steps R (do Msgpack.safeIncremen b 1; f (← Msgpack.readBeUnsigned b k)) := h.closed.sized k hf

theorem unpackString : Steps R (Msgpack.unpackString b) := h.closed.unpackString

theorem unpackBinary : Steps R (Msgpack.unpackBinary b) := h.closed.unpackBinary

section Containers

variable {α β : Type} {unpackType : Reader α} (helem : Steps R unpackType)

include helem

theorem unpackElements : ∀ (count : Nat) (array : List α), Steps R (Msgpack.unpackElements unpackType count array)
  | 0,         array => h.pure array
  | count + 1, array => h.bind helem fun val => unpackElements count (array ++ [val])

theorem unpackIndexed : ∀ (count : Nat) (array : List α), Steps R (Msgpack.unpackIndexed b unpackType count array)
  | 0,         array => h.pure array
  | count + 1, array =>
    h.bind (h.unpackNumber (.int .int64)) fun key => h.bind helem fun val =>
      h.bind (h.store array key.val val) fun array => unpackIndexed count array

theorem unpackCounted (indexed : Bool) (count : Nat) : Steps R (Msgpack.unpackCounted b indexed unpackType count) :=
  h.bind (h.announce indexed count) fun _ => h.unpackElements helem count []

theorem unpackArray (indexed : Bool) (init : α) : Steps R (Msgpack.unpackArray b indexed init unpackType) := by
  refine h.bind h.safeData fun byte => h.bind (h.marker (.array indexed) byte) fun _ => ?_
  refine Steps.ite (h.bind (h.safeIncremen 1) fun _ => h.unpackCounted helem indexed _) ?_
  refine Steps.ite (h.sized 8 fun count => h.unpackCounted helem indexed count) ?_
  refine Steps.ite (h.sized 8 fun count => h.unpackCounted helem indexed count) ?_
  refine Steps.ite (h.sized 8 fun count => h.bind (h.announce indexed count) fun _ => ?_) ?_
  · exact Steps.ite (h.unpackIndexed helem count _) (h.pure _)
  · exact h.bind h.setError fun _ => h.pure _

theorem unpackStdarray (size : Nat) (init : α) : Steps R (Msgpack.unpackStdarray b size init unpackType) :=
  h.bind (h.unpackArray helem true init) fun vec => h.copyOut size init vec

variable {keys : Keys α} {unpackMapped : Reader β} (hmapped : Steps R unpackMapped)

include hmapped

theorem unpackEntries : ∀ (count : Nat) (map : KeyedMap keys β),
    Steps R (Msgpack.unpackEntries unpackType unpackMapped count map)
  | 0,         map => h.pure map
  | count + 1, map =>
    h.bind helem fun key => h.bind hmapped fun val => unpackEntries count (map.insertOrAssign key val)

theorem unpackCountedMap (unordered : Bool) (count : Nat) :
    Steps R (Msgpack.unpackCountedMap b keys unordered unpackType unpackMapped count) :=
  h.bind (h.announce unordered count) fun _ => h.unpackEntries helem hmapped count .empty

theorem unpackMap (unordered : Bool) : Steps R (Msgpack.unpackMap b keys unordered unpackType unpackMapped) := by
  refine h.bind h.safeData fun byte => h.bind (h.marker .map byte) fun _ => ?_
  refine Steps.ite (h.bind (h.safeIncremen 1) fun _ => h.unpackCountedMap helem hmapped unordered _) ?_
  refine Steps.ite (h.sized 8 fun count => h.unpackCountedMap helem hmapped unordered count) ?_
  exact Steps.ite (h.sized 8 fun count => h.unpackCountedMap helem hmapped unordered count) (h.pure _)

end Containers

/-- **The decoder of every type goes along a relation that the primitives respect.** -/
theorem unpackType : ∀ t : Ty, Steps R (Msgpack.unpackType b t)
  | .num (.int t)       => h.unpackNumber (.int t)
  | .num .bool          => h.unpackBool
  | .num .float         => h.unpackNumber .float
  | .num .double        => h.unpackNumber .double
  | .nullptr            => h.unpackNil
  | .enum _             => h.bind (h.unpackNumber (.int .int32)) fun _ => h.pure _
  | .string             => h.unpackString
  | .binary             => h.unpackBinary
  | .vector t           => h.unpackArray (unpackType t) true t.init
  | .list t             => h.unpackArray (unpackType t) false t.init
  | .array size t       => h.unpackStdarray (unpackType t) size t.init
  | .map unordered k v  => h.unpackMap (unpackType k) (unpackType v) unordered
  | .unit               => h.pure ()
  | .pair s t           => h.bind (unpackType s) fun _ => h.bind (unpackType t) fun _ => h.pure _

end Respects

/-- Two relations at once. -/
theorem Respects.and {b : Buffer} {R S : Unpacker → Option Fault → Unpacker → Prop} (h : Respects b R) (k : Respects b S) :
    Respects b fun s o t => R s o t ∧ S s o t where
  refl         := fun s => ⟨h.refl s, k.refl s⟩
  trans        := fun h₁ h₂ => ⟨h.trans h₁.1 h₂.1, k.trans h₁.2 h₂.2⟩
  safeData     := fun s => ⟨h.safeData s, k.safeData s⟩
  safeIncremen := fun size s => ⟨h.safeIncremen size s, k.safeIncremen size s⟩
  setError     := fun s => ⟨h.setError s, k.setError s⟩
  copyFloat    := fun size s => ⟨h.copyFloat size s, k.copyFloat size s⟩
  takeBytes    := fun size s => ⟨h.takeBytes size s, k.takeBytes size s⟩
  marker       := fun family byte s => ⟨h.marker family byte s, k.marker family byte s⟩
  cast         := fun x t s => ⟨h.cast x t s, k.cast x t s⟩
  undefined    := fun α s => ⟨h.undefined α s, k.undefined α s⟩
  unpackNil    := fun s => ⟨h.unpackNil s, k.unpackNil s⟩
  announce     := fun reserves count s => ⟨h.announce reserves count s, k.announce reserves count s⟩
  store        := fun array key val s => ⟨h.store array key val s, k.store array key val s⟩
  copyOut      := fun size init vec s => ⟨h.copyOut size init vec s, k.copyOut size init vec s⟩

/-! ## Progress -/

/-- What no decoder undoes. -/
structure Progress (b : Buffer) (s t : Unpacker) : Prop where
  ec       : s.ec = true → t.ec = true
  position : s.dataPointer ≤ b.bytes.length → s.dataPointer ≤ t.dataPointer ∧ t.dataPointer ≤ b.bytes.length
  log      : s.log <:+ t.log

theorem Progress.refl (b : Buffer) (s : Unpacker) : Progress b s s := ⟨id, fun h => ⟨Nat.le_refl _, h⟩, List.suffix_rfl⟩

theorem Progress.trans {b : Buffer} {r s t : Unpacker} (h₁ : Progress b r s) (h₂ : Progress b s t) : Progress b r t where
  ec       := fun h => h₂.ec (h₁.ec h)
  position := fun h =>
    have hs := h₁.position h
    have ht := h₂.position hs.2
    ⟨Nat.le_trans hs.1 ht.1, ht.2⟩
  log      := h₁.log.trans h₂.log

theorem Progress.note (b : Buffer) (s : Unpacker) (e : Event) : Progress b s { s with log := e :: s.log } :=
  ⟨id, fun h => ⟨Nat.le_refl _, h⟩, List.suffix_cons e s.log⟩

theorem Progress.setError (b : Buffer) (s : Unpacker) : Progress b s { s with ec := true } :=
  ⟨fun _ => rfl, fun h => ⟨Nat.le_refl _, h⟩, List.suffix_rfl⟩

theorem Progress.safeIncremen (b : Buffer) (size : Nat) (s : Unpacker) :
    Progress b s (after (safeIncremen b size s)) := by
  unfold Msgpack.safeIncremen
  split
  · rename_i hle
    exact ⟨id, fun _ => ⟨Nat.le_add_right _ _, hle⟩, List.suffix_rfl⟩
  · exact ⟨fun _ => rfl, fun h => ⟨h, Nat.le_refl _⟩, List.suffix_rfl⟩

theorem progress (b : Buffer) : Respects b fun s _ t => Progress b s t where
  refl         := Progress.refl b
  trans        := Progress.trans
  safeData     := fun s => by
    unfold Msgpack.safeData
    split
    · exact .note b s _
    · exact .setError b s
  safeIncremen := Progress.safeIncremen b
  setError     := Progress.setError b
  copyFloat    := fun _ s => .note b s _
  takeBytes    := fun size s => by
    unfold Msgpack.takeBytes
    split
    · split
      · rename_i hle
        exact ⟨id, fun _ => ⟨Nat.le_add_right _ _, hle⟩, List.suffix_cons _ _⟩
      · exact .refl b s
    · exact .setError b s
  marker       := fun _ _ s => .note b s _
  cast         := fun _ _ s => .note b s _
  undefined    := fun _ s => .refl b s
  unpackNil    := fun s => (Progress.note b s _).trans (.safeIncremen b 1 _)
  announce     := fun reserves count s => by
    have halloc := Progress.note b s (.alloc count (b.remaining s))
    unfold Msgpack.announce
    dsimp only
    split
    · split
      · exact halloc
      · exact halloc
    · exact .refl b s
  store        := fun array key val s => by
    unfold Msgpack.store
    dsimp only
    split
    · exact .note b s _
    · exact .note b s _
  copyOut      := fun size init vec s => by
    unfold Msgpack.copyOut
    dsimp only
    split
    · exact .note b s _
    · exact .note b s _

/-- The comparison of addresses, where the length is too short to wrap one. -/
theorem inRange_iff {b : Buffer} {u : Unpacker} (hu : u.dataPointer ≤ b.bytes.length) {size : Nat} (hsize : size < 2 ^ 63) :
    b.inRange u size = true ↔ u.dataPointer + size ≤ b.bytes.length := by
  have hfits := b.fits
  have hmod : (b.start + u.dataPointer + size) % 2 ^ 64 = b.start + u.dataPointer + size :=
    Nat.mod_eq_of_lt (by omega)
  rw [Buffer.inRange, hmod, decide_eq_true_iff]
  omega

/-- No typed decoder has steps to run out of. -/
theorem neverOutOfFuel (b : Buffer) : Respects b fun _ o _ => o ≠ some .outOfFuel where
  refl         := fun _ h => nomatch h
  trans        := fun _ h => h
  safeData     := fun s => by
    unfold Msgpack.safeData
    split <;> exact fun h => nomatch h
  safeIncremen := fun size s => by
    unfold Msgpack.safeIncremen
    split <;> exact fun h => nomatch h
  setError     := fun _ h => nomatch h
  copyFloat    := fun _ _ h => nomatch h
  takeBytes    := fun size s => by
    unfold Msgpack.takeBytes
    split
    · split <;> exact fun h => nomatch h
    · exact fun h => nomatch h
  marker       := fun _ _ _ h => nomatch h
  cast         := fun _ _ _ h => nomatch h
  undefined    := fun _ _ h => nomatch h
  unpackNil    := fun s => by
    unfold Msgpack.unpackNil Msgpack.safeIncremen
    split <;> exact fun h => nomatch h
  announce     := fun reserves count s => by
    unfold Msgpack.announce
    dsimp only
    split
    · split <;> exact fun h => nomatch h
    · exact fun h => nomatch h
  store        := fun array key val s => by
    unfold Msgpack.store
    dsimp only
    split <;> exact fun h => nomatch h
  copyOut      := fun size init vec s => by
    unfold Msgpack.copyOut
    dsimp only
    split <;> exact fun h => nomatch h

/-! ## Lengths -/

section

variable {b : Buffer}

theorem unpackElements_ok {α : Type} {m : Reader α} : ∀ (count : Nat) (acc result : List α) (u u' : Unpacker),
    unpackElements m count acc u = .ok result u' → ∃ vs, result = acc ++ vs ∧ vs.length = count
  | 0,         acc, result, u, u', h => by
    cases h
    exact ⟨[], (List.append_nil _).symm, rfl⟩
  | count + 1, acc, result, u, u', h => by
    obtain ⟨v, w, _, h⟩ := bind_eq_ok h
    obtain ⟨vs, hvs, hlen⟩ := unpackElements_ok count (acc ++ [v]) result w u' h
    exact ⟨v :: vs, by rw [hvs, List.append_assoc, List.singleton_append], by rw [List.length_cons, hlen]⟩

theorem unpackCounted_length {α : Type} {m : Reader α} {indexed : Bool} {count : Nat} {vs : List α} {u u' : Unpacker}
    (h : unpackCounted b indexed m count u = .ok vs u') : vs.length = count := by
  obtain ⟨_, v, _, h⟩ := bind_eq_ok h
  obtain ⟨ws, hws, hlen⟩ := unpackElements_ok count [] vs v u' h
  rw [hws, List.nil_append, hlen]

theorem unpackIndexed_length {α : Type} {m : Reader α} : ∀ (count : Nat) (acc result : List α) (u u' : Unpacker),
    unpackIndexed b m count acc u = .ok result u' → result.length = acc.length
  | 0,         acc, result, u, u', h => by
    cases h
    rfl
  | count + 1, acc, result, u, u', h => by
    obtain ⟨key, v, _, h⟩ := bind_eq_ok h
    obtain ⟨val, w, _, h⟩ := bind_eq_ok h
    obtain ⟨array, r, hstore, h⟩ := bind_eq_ok h
    unfold store at hstore
    dsimp only at hstore
    split at hstore
    · cases hstore
      rw [unpackIndexed_length count _ result _ u' h, List.length_set]
    · cases hstore

end

/-! ## Markers -/

/-- The markers of a family; a table may stand for an array that has `operator[]`, and for a map. -/
def Family.accepts (byte : UInt8) : Family → Prop
  | .number        => byte ≤ 0x7f ∨ 0xe0 ≤ byte ∨ 0xca ≤ byte ∧ byte ≤ 0xd3
  | .bool          => byte = Format.falseBool.code ∨ byte = Format.trueBool.code
  | .nil           => byte = Format.nil.code
  | .string        => 0xa0 ≤ byte ∧ byte ≤ 0xbf ∨ 0xd9 ≤ byte ∧ byte ≤ 0xdb
  | .binary        => 0xc4 ≤ byte ∧ byte ≤ 0xc6
  | .array indexed => 0x90 ≤ byte ∧ byte ≤ 0x9f ∨ 0xdc ≤ byte ∧ byte ≤ 0xdd ∨ indexed = true ∧ byte = Format.table.code
  | .map           => 0x80 ≤ byte ∧ byte ≤ 0x8f ∨ 0xde ≤ byte ∧ byte ≤ 0xe0

instance (byte : UInt8) (family : Family) : Decidable (family.accepts byte) := by
  cases family <;> (dsimp only [Family.accepts]; infer_instance)

/-! ## Moves -/

section

variable {b : Buffer} {p : Nat}

/-- At a byte of the message. -/
def At (b : Buffer) (p : Nat) (u : Unpacker) : Prop := u.dataPointer = p ∧ p < b.bytes.length

def Past (b : Buffer) (p : Nat) (u : Unpacker) : Prop := p < u.dataPointer ∧ u.dataPointer ≤ b.bytes.length

/-- What a decoder does that returns from this byte. -/
def Moves (b : Buffer) (p : Nat) {α : Type} (m : Reader α) : Prop :=
  Hoare (At b p) m (fun _ => Past b p) fun _ => True

theorem Past.of_progress {u v : Unpacker} (h : Past b p u) (huv : Progress b u v) : Past b p v :=
  ⟨Nat.lt_of_lt_of_le h.1 (huv.position h.2).1, (huv.position h.2).2⟩

theorem past_steps {α : Type} {m : Reader α} (hm : Steps (fun s _ t => Progress b s t) m) :
    Hoare (Past b p) m (fun _ => Past b p) fun _ => True :=
  Hoare.of_steps hm (fun _ _ _ h hst => h.of_progress hst) fun _ _ _ _ _ => trivial

theorem safeData_at (b : Buffer) (p : Nat) :
    Hoare (At b p) (safeData b) (fun byte u => At b p u ∧ b.bytes[p]? = some byte) fun _ => False := by
  rintro u ⟨rfl, hlt⟩
  rw [safeData, List.getElem?_eq_getElem hlt]
  exact ⟨⟨rfl, hlt⟩, rfl⟩

theorem safeIncremen_past (b : Buffer) (p : Nat) : Moves b p (safeIncremen b 1) := by
  rintro u ⟨rfl, hlt⟩
  have hle : u.dataPointer + 1 ≤ b.bytes.length := hlt
  rw [safeIncremen, if_pos hle]
  exact ⟨Nat.lt_succ_self _, hle⟩

namespace Moves

variable {α β : Type} {m n : Reader α} {f : α → Reader β}

theorem bind (hm : Moves b p m) (hf : ∀ a, Steps (fun s _ t => Progress b s t) (f a)) : Moves b p (m >>= f) :=
  Hoare.bind hm fun a => past_steps (hf a)

theorem incremen (hm : Steps (fun s _ t => Progress b s t) m) : Moves b p (safeIncremen b 1 >>= fun _ => m) :=
  bind (safeIncremen_past b p) fun _ => hm

theorem front {f : UInt8 → Reader β} (hf : ∀ byte, b.bytes[p]? = some byte → Moves b p (f byte)) :
    Moves b p (safeData b >>= f) :=
  Hoare.bind ((safeData_at b p).weaken (fun _ h => h) (fun _ _ h => h) fun _ h => h.elim) fun byte u h =>
    hf byte h.2 u h.1

theorem marker {e : Event} (hm : Moves b p m) : Moves b p (note e >>= fun _ => m) := fun _ hu => hm _ hu

theorem ite {c : Prop} [Decidable c] (hm : c → Moves b p m) (hn : ¬c → Moves b p n) :
    Moves b p (if c then m else n) := Hoare.ite hm hn

end Moves

theorem readNumber_moves {byte : UInt8} (hbyte : b.bytes[p]? = some byte) (h : Family.number.accepts byte) :
    Moves b p (readNumber b) := by
  have hb := progress b
  refine Moves.front fun x hx => Moves.marker ?_
  obtain rfl : byte = x := Option.some.inj (hbyte.symm.trans hx)
  have hint := fun k => Moves.incremen (p := p) (hb.bind (hb.readBeUnsigned k) fun n => hb.pure (some (Number.int n)))
  have hsigned := fun t k => Moves.incremen (p := p) (hb.bind (hb.readBeSigned t k) fun n => hb.pure (some (Number.int n)))
  have hfloat := fun (f : Nat → Number) k =>
    Moves.incremen (p := p) (hb.bind (hb.copyFloat k) fun d => hb.bind (hb.safeIncremen k) fun _ => hb.pure (some (f d)))
  refine Moves.ite (fun _ => Moves.incremen (hb.pure _)) fun h₁ => ?_
  refine Moves.ite (fun _ => Moves.incremen (hb.pure _)) fun h₂ => ?_
  refine Moves.ite (fun _ => hint 8) fun h₃ => Moves.ite (fun _ => hint 4) fun h₄ => ?_
  refine Moves.ite (fun _ => hint 2) fun h₅ => Moves.ite (fun _ => hint 1) fun h₆ => ?_
  refine Moves.ite (fun _ => hsigned .int64 8) fun h₇ => Moves.ite (fun _ => hsigned .int32 4) fun h₈ => ?_
  refine Moves.ite (fun _ => hsigned .int16 2) fun h₉ => Moves.ite (fun _ => hsigned .int8 1) fun h₁₀ => ?_
  refine Moves.ite (fun _ => hfloat .float32 4) fun h₁₁ => Moves.ite (fun _ => hfloat .float64 8) fun h₁₂ => ?_
  exfalso
  simp only [Family.accepts, Format.code] at *
  grind

theorem unpackNumber_moves {byte : UInt8} (hbyte : b.bytes[p]? = some byte) (h : Family.number.accepts byte)
    (t : NumType) : Moves b p (unpackNumber b t) := by
  have hb := progress b
  refine (readNumber_moves hbyte h).bind fun x => ?_
  cases x with
  | none   => exact hb.pure _
  | some x =>
    refine hb.bind (hb.cast x t) fun _ => ?_
    cases t.cast x with
    | none     => exact hb.undefined _
    | some val => exact hb.pure val

theorem unpackString_moves {byte : UInt8} (hbyte : b.bytes[p]? = some byte) (h : Family.string.accepts byte) :
    Moves b p (unpackString b) := by
  have hb := progress b
  refine Moves.front fun x hx => Moves.marker ?_
  obtain rfl : byte = x := Option.some.inj (hbyte.symm.trans hx)
  have hsized := fun k => Moves.incremen (p := p) (hb.bind (hb.readBeUnsigned k) hb.takeBytes)
  refine Moves.ite (fun _ => Moves.incremen (hb.takeBytes _)) fun h₁ => Moves.ite (fun _ => hsized 8) fun h₂ => ?_
  refine Moves.ite (fun _ => hsized 8) fun h₃ => Moves.ite (fun _ => hsized 1) fun h₄ => ?_
  exfalso
  simp only [Family.accepts, Format.code] at *
  grind

theorem unpackBinary_moves {byte : UInt8} (hbyte : b.bytes[p]? = some byte) (h : Family.binary.accepts byte) :
    Moves b p (unpackBinary b) := by
  have hb := progress b
  refine Moves.front fun x hx => Moves.marker ?_
  obtain rfl : byte = x := Option.some.inj (hbyte.symm.trans hx)
  have hsized := fun k => Moves.incremen (p := p) (hb.bind (hb.readBeUnsigned k) hb.takeBytes)
  refine Moves.ite (fun _ => hsized 8) fun h₁ => Moves.ite (fun _ => hsized 8) fun h₂ => ?_
  refine Moves.ite (fun _ => hsized 1) fun h₃ => ?_
  exfalso
  simp only [Family.accepts, Format.code] at *
  grind

end

end Gb.Msgpack
