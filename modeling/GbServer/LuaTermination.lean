import GbServer.LuaSteps
import Mathlib.Logic.Relation
/-!
# LuaTermination — when the loop over a message ends

A call of `unpack_stack_proxy` with bytes left moves on (`unpackStackProxy_moves`), unless it comes to a byte that begins
no value: there it sets the error and stays where it is (`unpackStackProxy_stays`).  The loop of `unpack` looks at the
position only.
-/
namespace Gb.Msgpack

open Stateful
open Relation (ReflTransGen)

/-- The bytes that begin a value. -/
def isMarker (byte : UInt8) : Prop :=
  byte ≠ 0xc1 ∧ ¬(0xc7 ≤ byte ∧ byte ≤ 0xc9) ∧ ¬(0xd4 ≤ byte ∧ byte ≤ 0xd8)

section

variable {b : Buffer} {p : Nat}

/-- What a call does that returns from this byte. -/
def MovesLua (b : Buffer) (p : Nat) {α : Type} (m : LuaReader α) : Prop :=
  Hoare (fun s => At b p s.unpacker) m (fun _ t => Past b p t.unpacker) fun _ => True

namespace MovesLua

variable {α β : Type} {m n : LuaReader α} {f : α → LuaReader β}

theorem bind (hm : MovesLua b p m) (hf : ∀ a, Steps (OnUnpacker fun s _ t => Progress b s t) (f a)) :
    MovesLua b p (m >>= f) :=
  Hoare.bind hm fun a => Hoare.of_steps (hf a) (fun _ _ _ h hst => h.of_progress hst) fun _ _ _ _ _ => trivial

theorem typed {m : Reader α} (hm : Moves b p m) : MovesLua b p (onUnpacker m) := by
  intro s hs
  have h := hm s.unpacker hs
  cases hms : m s.unpacker with
  | ok a u    =>
    rw [hms] at h
    simpa only [onUnpacker, hms] using h
  | error e u =>
    simp only [onUnpacker, hms]

theorem still {m : LuaReader α} (hm : Steps Still m) (hf : ∀ a, MovesLua b p (f a)) : MovesLua b p (m >>= f) := by
  refine Hoare.bind (Q := fun _ (s : LuaState) => At b p s.unpacker) (Hoare.of_steps hm (fun s _ t hs hst => ?_) ?_) hf
  · rw [hst.1]
    exact hs
  · exact fun _ _ _ _ _ => trivial

theorem front {f : UInt8 → LuaReader β} (hf : ∀ byte, b.bytes[p]? = some byte → MovesLua b p (f byte)) :
    MovesLua b p (onUnpacker (safeData b) >>= f) := by
  refine Hoare.bind (Q := fun byte s => At b p s.unpacker ∧ b.bytes[p]? = some byte) (fun s hs => ?_) fun byte s h =>
    hf byte h.2 s h.1
  obtain ⟨hp, hlt⟩ := hs
  have hbyte := List.getElem?_eq_getElem (hp.symm ▸ hlt : s.unpacker.dataPointer < b.bytes.length)
  unfold onUnpacker safeData
  rw [hbyte]
  exact ⟨⟨hp, hlt⟩, hp ▸ hbyte⟩

theorem ite {c : Prop} [Decidable c] (hm : c → MovesLua b p m) (hn : ¬c → MovesLua b p n) :
    MovesLua b p (if c then m else n) := Hoare.ite hm hn

theorem incremen : MovesLua b p (onUnpacker (safeIncremen b 1)) := typed (safeIncremen_past b p)

end MovesLua

theorem unpackTable_moves (limit : Nat) {proxy : LuaReader Unit}
    (hproxy : Steps (OnUnpacker fun s _ t => Progress b s t) proxy) {byte : UInt8} (hbyte : b.bytes[p]? = some byte)
    (h : 0x80 ≤ byte ∧ byte ≤ 0x9f ∨ 0xdc ≤ byte ∧ byte ≤ 0xe0) : MovesLua b p (unpackTable b limit proxy) := by
  have hb := progressLua b
  have hitems := fun count => hb.unpackItems hproxy count 0
  have hfields := hb.unpackFields hproxy
  have hopen : ∀ rest : LuaReader Unit, Steps (OnUnpacker fun s _ t => Progress b s t) rest →
      MovesLua b p (do luaPush limit (.table []); onUnpacker (safeIncremen b 1); rest) := fun rest hrest =>
    .still (luaPush_still limit _) fun _ => MovesLua.incremen.bind fun _ => hrest
  have hcounted : ∀ (loop : Nat → LuaReader Unit) k,
      (∀ count, Steps (OnUnpacker fun s _ t => Progress b s t) (loop count)) →
      Steps (OnUnpacker fun s _ t => Progress b s t) (do loop (← onUnpacker (readTableSize b k 0))) :=
    fun loop k hloop => hb.bind (steps_onUnpacker (hb.readTableSize k 0)) hloop
  refine .front fun x hx => ?_
  obtain rfl : byte = x := Option.some.inj (hbyte.symm.trans hx)
  refine .ite (fun _ => hopen _ (hcounted _ 4 hitems)) fun h₁ => .ite (fun _ => hopen _ (hcounted _ 2 hitems)) fun h₂ => ?_
  refine .ite (fun _ => hopen _ (hcounted _ 4 hfields)) fun h₃ => ?_
  refine .ite (fun _ => hopen _ (hcounted _ 2 hfields)) fun h₄ => ?_
  refine .ite (fun _ => hopen _ (hitems _)) fun h₅ => .ite (fun _ => hopen _ (hfields _)) fun h₆ => ?_
  exfalso
  simp only [Format.code] at *
  grind

/-- **A call that comes to a byte that begins a value moves on.** -/
theorem unpackStackProxy_moves (limit depth : Nat) {byte : UInt8} (hbyte : b.bytes[p]? = some byte) (h : isMarker byte) :
    MovesLua b p (unpackStackProxy b limit (depth + 1)) := by
  have hb := progressLua b
  have htable := unpackTable_moves limit (hb.unpackStackProxy limit depth) hbyte
  have hscalar : ∀ value, MovesLua b p (do luaPush limit value; onUnpacker (safeIncremen b 1)) := fun value =>
    .still (luaPush_still limit value) fun _ => .incremen
  have hfix : ∀ value, MovesLua b p (do onUnpacker (safeIncremen b 1); luaPush limit value) := fun value =>
    MovesLua.incremen.bind fun _ => hb.of_still (luaPush_still limit value)
  have hpushed : ∀ {α : Type} {m : Reader α} (_ : Moves b p m) (f : α → LuaValue),
      MovesLua b p (do luaPush limit (f (← onUnpacker m))) := fun hm f =>
    (MovesLua.typed hm).bind fun a => hb.of_still (luaPush_still limit (f a))
  have hnumber := fun t (hn : Family.number.accepts byte) => unpackNumber_moves hbyte hn t
  refine .front fun x hx => ?_
  obtain rfl : byte = x := Option.some.inj (hbyte.symm.trans hx)
  refine .ite (fun _ => hscalar _) fun h₁ => .ite (fun _ => hscalar _) fun h₂ => .ite (fun _ => hscalar _) fun h₃ => ?_
  refine .ite (fun c => hpushed (unpackBinary_moves hbyte ?_) _) fun h₄ => ?_
  · rcases c with rfl | rfl | rfl <;> decide
  refine .ite (fun c => hpushed (hnumber .float ?_) _) fun h₅ => ?_
  · rw [c]; decide
  refine .ite (fun c => hpushed (hnumber .double ?_) _) fun h₆ => ?_
  · rw [c]; decide
  refine .ite (fun c => hpushed (hnumber (.int .uint64) ?_) _) fun h₇ => ?_
  · rcases c with rfl | rfl | rfl | rfl <;> decide
  refine .ite (fun c => hpushed (hnumber (.int .int64) ?_) _) fun h₈ => ?_
  · rcases c with rfl | rfl | rfl | rfl <;> decide
  refine .ite (fun c => hpushed (unpackString_moves hbyte ?_) _) fun h₉ => ?_
  · rcases c with rfl | rfl | rfl <;> decide
  refine .ite (fun c => htable ?_) fun h₁₀ => ?_
  · rcases c with rfl | rfl | rfl | rfl | rfl <;> decide
  refine .ite (fun _ => hfix _) fun h₁₁ => .ite (fun _ => hfix _) fun h₁₂ => ?_
  refine .ite (fun c => htable ?_) fun h₁₃ => .ite (fun c => htable ?_) fun h₁₄ => ?_
  · grind
  · grind
  refine .ite (fun _ => MovesLua.incremen.bind fun _ => ?_) fun h₁₅ => ?_
  · refine hb.bind (steps_onUnpacker (hb.peekBytes _ (fixstr_size_le byte))) fun str => ?_
    cases str with
    | none     => exact hb.pure ()
    | some str => exact hb.bind (hb.of_still (luaPush_still limit _)) fun _ => hb.safeIncremenLua _
  · exfalso
    simp only [isMarker, Format.code] at *
    grind

/-- **A call that comes to any other byte returns where it was.** -/
theorem unpackStackProxy_stays (limit depth : Nat) {byte : UInt8} (hbyte : b.bytes[p]? = some byte) (h : ¬isMarker byte) :
    Hoare (fun s => s.unpacker.dataPointer = p) (unpackStackProxy b limit (depth + 1))
      (fun _ t => t.unpacker.dataPointer = p) fun _ => False := by
  refine Hoare.bind (Q := fun x (s : LuaState) => x = byte ∧ s.unpacker.dataPointer = p) (fun s hs => ?_) fun x => ?_
  · have hp : b.bytes[s.unpacker.dataPointer]? = some byte := hs.symm ▸ hbyte
    unfold onUnpacker safeData
    rw [hp]
    exact ⟨rfl, hs⟩
  · -- every branch but the last is for a byte that begins a value
    have hno : ∀ {c : Prop} [Decidable c] {m n : LuaReader Unit}, (c → x = byte → isMarker byte) →
        Hoare (fun s => x = byte ∧ s.unpacker.dataPointer = p) n (fun _ t => t.unpacker.dataPointer = p) (fun _ => False) →
        Hoare (fun s => x = byte ∧ s.unpacker.dataPointer = p) (if c then m else n)
          (fun _ t => t.unpacker.dataPointer = p) fun _ => False := fun hc hn =>
      Hoare.ite (fun c s hs => absurd (hc c hs.1) h) fun _ => hn
    simp only [isMarker, Format.code] at *
    iterate 15 refine hno (fun c hx => by grind) ?_
    exact fun s hs => hs.2

end

/-! ## The loop -/

section

variable (b : Buffer) (limit : Nat)

/-- A call that the loop makes, and that returns. -/
def Calls (s t : LuaState) : Prop :=
  b.isEmpty s.unpacker = false ∧ unpackStackProxy b limit b.depth s = .ok () t

theorem unpackLoop_succ (rounds i : Nat) (s : LuaState) : unpackLoop b limit (rounds + 1) i s =
    if b.isEmpty s.unpacker then .ok i s
    else match unpackStackProxy b limit b.depth s with
      | .ok _ t    => unpackLoop b limit rounds (i + 1) t
      | .error e t => .error e t := by
  have hget : (get : LuaReader LuaState) s = .ok s s := rfl
  rw [unpackLoop, bind_of_ok hget]
  by_cases hempty : b.isEmpty s.unpacker
  · rw [if_pos hempty, if_pos hempty]
    rfl
  · rw [if_neg hempty, if_neg hempty]
    cases hcall : unpackStackProxy b limit b.depth s with
    | ok _ t    => exact bind_of_ok hcall
    | error e t => exact bind_of_error hcall

/-- A loop that comes to a byte that begins no value never leaves it. -/
theorem unpackLoop_diverges {byte : UInt8} (h : ¬isMarker byte) : ∀ (rounds i : Nat) (s : LuaState),
    b.bytes[s.unpacker.dataPointer]? = some byte → ∃ t, unpackLoop b limit rounds i s = .error .outOfFuel t
  | 0,          _, s, _     => ⟨s, rfl⟩
  | rounds + 1, i, s, hbyte => by
    have hlt := (List.getElem?_eq_some_iff.1 hbyte).1
    have hempty : ¬b.isEmpty s.unpacker := by simpa [Buffer.isEmpty] using hlt
    have hstays := unpackStackProxy_stays limit b.bytes.length hbyte h s rfl
    rw [unpackLoop_succ, if_neg hempty]
    unfold Buffer.depth
    cases hcall : unpackStackProxy b limit (b.bytes.length + 1) s with
    | ok _ t    =>
      rw [hcall] at hstays
      exact unpackLoop_diverges h rounds (i + 1) t (hstays.symm ▸ hbyte)
    | error e t =>
      rw [hcall] at hstays
      exact hstays.elim

theorem unpackLoop_diverges_of_calls {s t : LuaState} (hst : ReflTransGen (Calls b limit) s t)
    (ht : ∀ rounds i, ∃ u, unpackLoop b limit rounds i t = .error .outOfFuel u) :
    ∀ rounds i, ∃ u, unpackLoop b limit rounds i s = .error .outOfFuel u := by
  induction hst using ReflTransGen.head_induction_on with
  | refl => exact ht
  | @head r s hrs _ ih =>
    intro rounds i
    cases rounds with
    | zero        => exact ⟨r, rfl⟩
    | succ rounds =>
      have hempty : ¬b.isEmpty r.unpacker := by simp [hrs.1]
      rw [unpackLoop_succ, if_neg hempty, hrs.2]
      exact ih rounds (i + 1)

/-- No call of the loop comes to a byte that begins no value. -/
def WellMarked (s : LuaState) : Prop :=
  ∀ t byte, ReflTransGen (Calls b limit) s t → b.bytes[t.unpacker.dataPointer]? = some byte → isMarker byte

variable {b limit}

theorem Calls.byte {s t : LuaState} (h : Calls b limit s t) : ∃ byte, b.bytes[s.unpacker.dataPointer]? = some byte := by
  have hlt : s.unpacker.dataPointer < b.bytes.length := by simpa [Buffer.isEmpty] using h.1
  exact ⟨_, List.getElem?_eq_getElem hlt⟩

theorem WellMarked.moves {s t : LuaState} (hs : WellMarked b limit s) (h : Calls b limit s t) :
    Past b s.unpacker.dataPointer t.unpacker := by
  obtain ⟨byte, hbyte⟩ := h.byte
  have hmoves := unpackStackProxy_moves limit b.bytes.length hbyte (hs s byte .refl hbyte)
  exact hmoves.ok ⟨rfl, (List.getElem?_eq_some_iff.1 hbyte).1⟩ h.2

theorem WellMarked.next {s t : LuaState} (hs : WellMarked b limit s) (h : Calls b limit s t) : WellMarked b limit t :=
  fun u byte htu hbyte => hs u byte (.head h htu) hbyte

/-- As many rounds as bytes are enough, and one to find that none is left. -/
theorem WellMarked.ends {s : LuaState} (hs : WellMarked b limit s) (hle : s.unpacker.dataPointer ≤ b.bytes.length) :
    ∀ (rounds i : Nat), b.bytes.length - s.unpacker.dataPointer < rounds →
      ∀ t, unpackLoop b limit rounds i s ≠ .error .outOfFuel t := by
  intro rounds
  induction rounds generalizing s with
  | zero => exact fun i h => absurd h (Nat.not_lt_zero _)
  | succ rounds ih =>
    intro i hrounds t
    rw [unpackLoop_succ]
    by_cases hempty : b.isEmpty s.unpacker
    · rw [if_pos hempty]
      exact fun h => nomatch h
    · rw [if_neg hempty]
      cases hcall : unpackStackProxy b limit b.depth s with
      | ok _ r    =>
        have hsr : Calls b limit s r := ⟨by simpa using hempty, hcall⟩
        obtain ⟨hlt, hend⟩ := hs.moves hsr
        exact ih (hs.next hsr) hend (i + 1) (by omega) t
      | error e r =>
        have hdepth : Within b b.depth s.unpacker := ⟨hle, by unfold Buffer.depth; omega⟩
        have hne := (unpackStackProxy_enough b limit b.depth).error hdepth hcall
        intro h
        injection h with h
        exact hne h

end

/-- The loop over a message ends, and every call that returns has moved on. -/
structure Terminates (b : Buffer) (limit : Nat) (s : LuaState) : Prop where
  ends  : ∃ rounds, ∀ i t, unpackLoop b limit rounds i s ≠ .error .outOfFuel t
  moves : ∀ t u, ReflTransGen (Calls b limit) s t → Calls b limit t u → t.unpacker.dataPointer < u.unpacker.dataPointer

/-- **The loop over a message ends exactly when no call comes to a byte that begins no value.** -/
theorem unpackLoop_terminates_iff (b : Buffer) (limit : Nat) (stack : List LuaValue) :
    Terminates b limit { stack } ↔ WellMarked b limit { stack } := by
  constructor
  · intro h t byte hst hbyte
    by_contra hno
    obtain ⟨rounds, hends⟩ := h.ends
    have hdiverges := unpackLoop_diverges_of_calls b limit hst fun rounds i => unpackLoop_diverges b limit hno rounds i t hbyte
    obtain ⟨u, hu⟩ := hdiverges rounds 0
    exact hends 0 u hu
  · intro h
    refine ⟨⟨b.bytes.length + 1, fun i t => h.ends (Nat.zero_le _) _ i (Nat.lt_succ_self _) t⟩, fun t u hst htu => ?_⟩
    have ht : WellMarked b limit t := fun v byte htv => h v byte (hst.trans htv)
    exact (ht.moves htu).1

/-- A message of one byte that begins no value. -/
def unknownByte : Buffer := .ofBytes [0xc1] (by decide)

theorem not_unpackLoop_terminates : ¬∀ (b : Buffer) (limit : Nat) (stack : List LuaValue),
    ∃ rounds, ∀ t, unpackLoop b limit rounds 0 { stack } ≠ .error .outOfFuel t := by
  intro h
  obtain ⟨rounds, hends⟩ := h unknownByte 20 []
  have hno : ¬isMarker 0xc1 := fun hmarker => hmarker.1 rfl
  obtain ⟨t, ht⟩ := unpackLoop_diverges unknownByte 20 hno rounds 0 { stack := [] } rfl
  exact hends t ht

end Gb.Msgpack
