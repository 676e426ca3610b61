import GbServer.MsgpackLua
import GbServer.MsgpackSteps
/-!
# LuaSteps — what the Lua decoder does to its `Unpacker`

It goes along whatever its primitives respect (`RespectsLua.unpackStackProxy`), so what holds of the typed decoders holds
of it.  Its recursion is as deep as the message is long, and the levels that the model gives it are enough
(`unpackStackProxy_enough`).
-/
namespace Gb.Msgpack

open Stateful

/-! ## The decoder goes along what its primitives respect -/

theorem fixstr_size_le (byte : UInt8) : (byte &&& 0x1f).toNat ≤ 31 := by
  rw [UInt8.toNat_and]
  exact Nat.and_le_right

theorem Closed.readTableSize {b : Buffer} {P : ∀ {α : Type}, Reader α → Prop} (h : Closed b P) :
    ∀ k size, P (Msgpack.readTableSize b k size)
  | 0,     size => h.pure size
  | i + 1, size =>
    h.bind h.safeData fun x => h.bind (h.safeIncremen 1) fun _ => readTableSize h i (size + x.toNat * 2 ^ (8 * i))

structure RespectsLua (b : Buffer) (R : Unpacker → Option Fault → Unpacker → Prop) : Prop extends Respects b R where
  peekBytes : ∀ size ≤ 31, Steps R (peekBytes b size)
  fault     : ∀ u e, R u (some e) u

/-- A relation on the unpackers. -/
def OnUnpacker (R : Unpacker → Option Fault → Unpacker → Prop) (s : LuaState) (o : Option Fault) (t : LuaState) : Prop :=
  R s.unpacker o t.unpacker

theorem steps_onUnpacker {R : Unpacker → Option Fault → Unpacker → Prop} {α : Type} {m : Reader α} (hm : Steps R m) :
    Steps (OnUnpacker R) (onUnpacker m) := by
  intro s
  have h := hm s.unpacker
  unfold onUnpacker
  cases hms : m s.unpacker with
  | ok a u    =>
    rw [hms] at h
    exact h
  | error e u =>
    rw [hms] at h
    exact h

/-- The Lua functions do not touch the unpacker. -/
def Still (s : LuaState) (o : Option Fault) (t : LuaState) : Prop := t.unpacker = s.unpacker ∧ o ≠ some .outOfFuel

theorem luaPush_still (limit : Nat) (value : LuaValue) : Steps Still (luaPush limit value) := by
  intro s
  unfold luaPush
  split <;> exact ⟨rfl, fun h => nomatch h⟩

theorem luaRawseti_still (n : Nat) : Steps Still (luaRawseti n) := by
  intro s
  unfold luaRawseti
  split <;> exact ⟨rfl, fun h => nomatch h⟩

theorem luaRawset_still : Steps Still luaRawset := by
  intro s
  unfold luaRawset
  split
  · split <;> exact ⟨rfl, fun h => nomatch h⟩
  · exact ⟨rfl, fun h => nomatch h⟩

namespace RespectsLua

variable {b : Buffer} {R : Unpacker → Option Fault → Unpacker → Prop} (h : RespectsLua b R)

include h

theorem chain : Chain (OnUnpacker R) := ⟨fun s => h.refl s.unpacker, fun h₁ h₂ => h.trans h₁ h₂⟩

theorem of_still {α : Type} {m : LuaReader α} (hm : Steps Still m) : Steps (OnUnpacker R) m := by
  intro s
  have hs := (hm s).1
  unfold OnUnpacker
  rw [hs]
  cases outcome (m s) with
  | none   => exact h.refl s.unpacker
  | some e => exact h.fault s.unpacker e

theorem bind {α β : Type} {m : LuaReader α} {f : α → LuaReader β} (hm : Steps (OnUnpacker R) m)
    (hf : ∀ a, Steps (OnUnpacker R) (f a)) : Steps (OnUnpacker R) (m >>= f) := Steps.bind h.chain hm hf

theorem pure {α : Type} (a : α) : Steps (OnUnpacker R) (Pure.pure a : LuaReader α) := Steps.pure h.chain a

theorem safeIncremenLua (size : Nat) : Steps (OnUnpacker R) (onUnpacker (Msgpack.safeIncremen b size)) :=
  steps_onUnpacker (h.safeIncremen size)

theorem readTableSize (k size : Nat) : Steps R (Msgpack.readTableSize b k size) := h.toRespects.closed.readTableSize k size

/-- A table behind its marker, with a count of `k` bytes. -/
theorem counted (limit k : Nat) {loop : Nat → LuaReader Unit} (hloop : ∀ count, Steps (OnUnpacker R) (loop count)) :
    Steps (OnUnpacker R) (do
      Msgpack.luaPush limit (.table [])
      onUnpacker (Msgpack.safeIncremen b 1)
      loop (← onUnpacker (Msgpack.readTableSize b k 0))) :=
  h.bind (h.of_still (luaPush_still limit _)) fun _ => h.bind (h.safeIncremenLua 1) fun _ =>
    h.bind (steps_onUnpacker (h.readTableSize k 0)) hloop

section Loops

variable {proxy : LuaReader Unit} (hproxy : Steps (OnUnpacker R) proxy)

include hproxy

theorem unpackItems : ∀ count i, Steps (OnUnpacker R) (Msgpack.unpackItems proxy i count)
  | 0,         _ => h.pure ()
  | count + 1, i =>
    h.bind hproxy fun _ => h.bind (h.of_still (luaRawseti_still (i + 1))) fun _ => unpackItems count (i + 1)

theorem unpackFields : ∀ count, Steps (OnUnpacker R) (Msgpack.unpackFields proxy count)
  | 0         => h.pure ()
  | count + 1 =>
    h.bind hproxy fun _ => h.bind hproxy fun _ => h.bind (h.of_still luaRawset_still) fun _ => unpackFields count

theorem unpackTable (limit : Nat) : Steps (OnUnpacker R) (Msgpack.unpackTable b limit proxy) := by
  have hitems := fun count => h.unpackItems hproxy count 0
  have hfields := h.unpackFields hproxy
  refine h.bind (steps_onUnpacker h.safeData) fun byte => ?_
  refine Steps.ite (h.counted limit 4 hitems) ?_
  refine Steps.ite (h.counted limit 2 hitems) ?_
  refine Steps.ite (h.counted limit 4 hfields) ?_
  refine Steps.ite (h.counted limit 2 hfields) ?_
  refine Steps.ite (h.bind (h.of_still (luaPush_still limit _)) fun _ => h.bind (h.safeIncremenLua 1) fun _ => hitems _) ?_
  refine Steps.ite (h.bind (h.of_still (luaPush_still limit _)) fun _ => h.bind (h.safeIncremenLua 1) fun _ => hfields _) ?_
  exact steps_onUnpacker h.setError

end Loops

/-- A scalar that is pushed once its bytes are read. -/
theorem pushed (limit : Nat) {α : Type} {m : Reader α} (hm : Steps R m) (f : α → LuaValue) :
    Steps (OnUnpacker R) (do Msgpack.luaPush limit (f (← onUnpacker m))) :=
  h.bind (steps_onUnpacker hm) fun a => h.of_still (luaPush_still limit (f a))

theorem unpackStackProxy (limit : Nat) : ∀ depth, Steps (OnUnpacker R) (Msgpack.unpackStackProxy b limit depth)
  | 0         => fun s => h.fault s.unpacker _
  | depth + 1 => by
    have htable := h.unpackTable (unpackStackProxy limit depth) limit
    have hone := h.safeIncremenLua 1
    have hscalar := fun value : LuaValue => h.bind (h.of_still (luaPush_still limit value)) fun _ => hone
    refine h.bind (steps_onUnpacker h.safeData) fun byte => ?_
    refine Steps.ite (hscalar _) (Steps.ite (hscalar _) (Steps.ite (hscalar _) ?_))
    refine Steps.ite (h.pushed limit h.unpackBinary _) ?_
    refine Steps.ite (h.pushed limit (h.unpackNumber .float) _) ?_
    refine Steps.ite (h.pushed limit (h.unpackNumber .double) _) ?_
    refine Steps.ite (h.pushed limit (h.unpackNumber (.int .uint64)) _) ?_
    refine Steps.ite (h.pushed limit (h.unpackNumber (.int .int64)) _) ?_
    refine Steps.ite (h.pushed limit h.unpackString _) ?_
    refine Steps.ite htable ?_
    refine Steps.ite (h.bind hone fun _ => h.of_still (luaPush_still limit _)) ?_
    refine Steps.ite (h.bind hone fun _ => h.of_still (luaPush_still limit _)) ?_
    refine Steps.ite htable (Steps.ite htable ?_)
    refine Steps.ite (h.bind hone fun _ => h.bind (steps_onUnpacker (h.peekBytes _ (fixstr_size_le byte))) fun str => ?_)
      (steps_onUnpacker h.setError)
    cases str with
    | none     => exact h.pure ()
    | some str => exact h.bind (h.of_still (luaPush_still limit _)) fun _ => h.safeIncremenLua _

end RespectsLua

theorem progressLua (b : Buffer) : RespectsLua b fun s _ t => Progress b s t where
  toRespects := progress b
  peekBytes  := fun size _ s => by
    unfold peekBytes
    split
    · exact .note b s _
    · exact .setError b s
  fault      := fun s _ => .refl b s

/-! ## Nesting -/

/-- Fewer bytes are left than levels. -/
def Within (b : Buffer) (depth : Nat) (u : Unpacker) : Prop :=
  u.dataPointer ≤ b.bytes.length ∧ b.bytes.length - u.dataPointer < depth

theorem Within.of_progress {b : Buffer} {depth : Nat} {u v : Unpacker} (h : Within b depth u) (huv : Progress b u v) :
    Within b depth v := by
  have := huv.position h.1
  unfold Within at *
  omega

/-- A program that keeps the position within the levels, and has enough of them. -/
def Enough (b : Buffer) (depth : Nat) {α : Type} (m : LuaReader α) : Prop :=
  Hoare (fun s => Within b depth s.unpacker) m (fun _ t => Within b depth t.unpacker) (· ≠ .outOfFuel)

namespace Enough

variable {b : Buffer} {depth : Nat} {α β : Type}

theorem bind {m : LuaReader α} {f : α → LuaReader β} (hm : Enough b depth m) (hf : ∀ a, Enough b depth (f a)) :
    Enough b depth (m >>= f) := Hoare.bind hm hf

theorem pure (a : α) : Enough b depth (Pure.pure a : LuaReader α) := fun _ hs => hs

theorem ite {c : Prop} [Decidable c] {m n : LuaReader α} (hm : Enough b depth m) (hn : Enough b depth n) :
    Enough b depth (if c then m else n) := Hoare.ite (fun _ => hm) fun _ => hn

theorem typed {m : Reader α} (hm : Steps (fun s _ t => Progress b s t) m)
    (hfuel : Steps (fun _ o _ => o ≠ some Fault.outOfFuel) m) : Enough b depth (onUnpacker m) := by
  intro s hs
  have h := hm s.unpacker
  have hf := hfuel s.unpacker
  unfold onUnpacker
  cases hms : m s.unpacker with
  | ok a u    =>
    rw [hms] at h
    exact hs.of_progress h
  | error e u =>
    rw [hms] at hf
    exact fun he => hf (congrArg some he)

theorem of_respects {m : Reader α}
    (hm : Steps (fun s o t => Progress b s t ∧ o ≠ some Fault.outOfFuel) m) : Enough b depth (onUnpacker m) :=
  typed (fun s => (hm s).1) fun s => (hm s).2

theorem of_still {m : LuaReader α} (hm : Steps Still m) : Enough b depth m := by
  refine Hoare.of_steps hm (fun s _ t hs hst => ?_) fun _ _ _ _ hst he => hst.2 (congrArg some he)
  rw [hst.1]
  exact hs

theorem luaPush (limit : Nat) (value : LuaValue) : Enough b depth (Msgpack.luaPush limit value) :=
  of_still (luaPush_still limit value)

theorem readTableSize (b : Buffer) (k size : Nat) :
    Steps (fun _ o _ => o ≠ some Fault.outOfFuel) (readTableSize b k size) := (neverOutOfFuel b).closed.readTableSize k size

theorem peekBytes (b : Buffer) (size : Nat) : Steps (fun _ o _ => o ≠ some Fault.outOfFuel) (peekBytes b size) := by
  intro s
  unfold Msgpack.peekBytes
  split <;> exact fun h => nomatch h

variable {proxy : LuaReader Unit} (hproxy : Enough b depth proxy)

include hproxy

theorem unpackItems : ∀ count i, Enough b depth (Msgpack.unpackItems proxy i count)
  | 0,         _ => pure ()
  | count + 1, i => hproxy.bind fun _ => (of_still (luaRawseti_still (i + 1))).bind fun _ => unpackItems count (i + 1)

theorem unpackFields : ∀ count, Enough b depth (Msgpack.unpackFields proxy count)
  | 0         => pure ()
  | count + 1 => hproxy.bind fun _ => hproxy.bind fun _ => (of_still luaRawset_still).bind fun _ => unpackFields count

/-- A table consumes its marker, so its elements need one level less. -/
theorem unpackTable (limit : Nat) : Enough b (depth + 1) (Msgpack.unpackTable b limit proxy) := by
  have hb := (progress b).and (neverOutOfFuel b)
  have hwithin : ∀ u, Within b depth u → Within b (depth + 1) u := fun u h => ⟨h.1, Nat.lt_succ_of_lt h.2⟩
  -- the marker is a byte of the message, since behind it the decoder reads zeros
  have hfront : Hoare (fun s => Within b (depth + 1) s.unpacker) (onUnpacker (safeData b))
      (fun byte s => Within b (depth + 1) s.unpacker ∧ (byte ≠ 0 → s.unpacker.dataPointer < b.bytes.length))
      (· ≠ .outOfFuel) := by
    intro s hs
    unfold onUnpacker safeData
    cases hbyte : b.bytes[s.unpacker.dataPointer]? with
    | none      => exact ⟨hs, fun h => absurd rfl h⟩
    | some byte => exact ⟨hs, fun _ => (List.getElem?_eq_some_iff.1 hbyte).1⟩
  refine Hoare.bind hfront fun byte => ?_
  have hopen : ∀ rest : LuaReader Unit, byte ≠ 0 → Enough b depth rest →
      Hoare (fun s => Within b (depth + 1) s.unpacker ∧ (byte ≠ 0 → s.unpacker.dataPointer < b.bytes.length))
        (do Msgpack.luaPush limit (.table []); onUnpacker (safeIncremen b 1); rest)
        (fun _ t => Within b (depth + 1) t.unpacker) (· ≠ .outOfFuel) := by
    intro rest hne hrest
    have hpush : Hoare (fun s => Within b (depth + 1) s.unpacker ∧ (byte ≠ 0 → s.unpacker.dataPointer < b.bytes.length))
        (Msgpack.luaPush limit (.table []))
        (fun _ s => Within b (depth + 1) s.unpacker ∧ (byte ≠ 0 → s.unpacker.dataPointer < b.bytes.length))
        (· ≠ .outOfFuel) := by
      refine Hoare.of_steps (luaPush_still limit _) (fun s _ t hs hst => ?_) fun _ _ _ _ hst he => hst.2 (congrArg some he)
      rw [hst.1]
      exact hs
    refine Hoare.bind hpush fun _ => Hoare.bind (fun s hs => ?_) fun _ =>
      hrest.weaken (fun _ h => h) (fun _ t h => hwithin t.unpacker h) fun _ h => h
    have hlt : s.unpacker.dataPointer + 1 ≤ b.bytes.length := hs.2 hne
    have hin : Within b (depth + 1) s.unpacker := hs.1
    unfold onUnpacker safeIncremen
    rw [if_pos hlt]
    change Within b depth _
    unfold Within at *
    dsimp only
    omega
  have hcounted : ∀ (loop : Nat → LuaReader Unit) k, (∀ count, Enough b depth (loop count)) →
      Enough b depth (do loop (← onUnpacker (Msgpack.readTableSize b k 0))) := fun loop k hloop =>
    (typed ((progressLua b).readTableSize k 0) (readTableSize b k 0)).bind hloop
  have hitems := fun count => unpackItems hproxy count 0
  have hfields := unpackFields hproxy
  refine Hoare.ite (fun h => hopen _ (by rw [h]; decide) (hcounted _ 4 hitems)) fun _ => ?_
  refine Hoare.ite (fun h => hopen _ (by rw [h]; decide) (hcounted _ 2 hitems)) fun _ => ?_
  refine Hoare.ite (fun h => hopen _ (by rcases h with h | h <;> rw [h] <;> decide) (hcounted _ 4 hfields)) fun _ => ?_
  refine Hoare.ite (fun h => hopen _ (by rw [h]; decide) (hcounted _ 2 hfields)) fun _ => ?_
  refine Hoare.ite (fun h => hopen _ (by grind) (hitems _)) fun _ => ?_
  refine Hoare.ite (fun h => hopen _ (by grind) (hfields _)) fun _ => ?_
  exact (of_respects hb.setError).weaken (fun _ h => h.1) (fun _ _ h => h) fun _ h => h

end Enough

/-- **The levels that a decoder is given are enough.** -/
theorem unpackStackProxy_enough (b : Buffer) (limit : Nat) : ∀ depth, Enough b depth (unpackStackProxy b limit depth)
  | 0         => fun _ h => absurd h.2 (Nat.not_lt_zero _)
  | depth + 1 => by
    have hb := (progress b).and (neverOutOfFuel b)
    have htable := (unpackStackProxy_enough b limit depth).unpackTable limit
    have hone : Enough b (depth + 1) (onUnpacker (safeIncremen b 1)) := .of_respects (hb.safeIncremen 1)
    have hscalar := fun value : LuaValue => (Enough.luaPush limit value).bind fun _ => hone
    have hpushed : ∀ {α : Type} {m : Reader α} (_ : Steps (fun s o t => Progress b s t ∧ o ≠ some Fault.outOfFuel) m)
        (f : α → LuaValue), Enough b (depth + 1) (do luaPush limit (f (← onUnpacker m))) := fun hm f =>
      (Enough.of_respects hm).bind fun a => .luaPush limit (f a)
    refine (Enough.of_respects hb.safeData).bind fun byte => ?_
    refine .ite (hscalar _) (.ite (hscalar _) (.ite (hscalar _) ?_))
    refine .ite (hpushed hb.unpackBinary _) (.ite (hpushed (hb.unpackNumber .float) _) ?_)
    refine .ite (hpushed (hb.unpackNumber .double) _) (.ite (hpushed (hb.unpackNumber (.int .uint64)) _) ?_)
    refine .ite (hpushed (hb.unpackNumber (.int .int64)) _) (.ite (hpushed hb.unpackString _) ?_)
    refine .ite htable (.ite (hone.bind fun _ => .luaPush limit _) (.ite (hone.bind fun _ => .luaPush limit _) ?_))
    refine .ite htable (.ite htable (.ite ?_ (.of_respects hb.setError)))
    refine hone.bind fun _ =>
      (Enough.typed ((progressLua b).peekBytes _ (fixstr_size_le byte)) (Enough.peekBytes b _)).bind fun str => ?_
    cases str with
    | none     => exact .pure ()
    | some str => exact (Enough.luaPush limit _).bind fun _ => .of_respects (hb.safeIncremen _)

end Gb.Msgpack
