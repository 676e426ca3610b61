import GbServer.MsgpackEncodes
/-!
# MsgpackAccepts — a decoder that reports no error accepted what it consumed

A run of a decoder that returns with the error code clear has consumed bytes that it takes for the value it returns
(`Parses`).  And bytes that it takes for a value as an encoding, in every part, are decoded to that value wherever they
stand (`decodes_accepts`).
-/
namespace Gb.Msgpack

open Stateful
open Bytes (beNat leNat slice)
open Encoding (Flagged)

/-- The bytes between two positions. -/
def Spans (b : Buffer) (u u' : Unpacker) (bs : List UInt8) : Prop :=
  u'.dataPointer = u.dataPointer + bs.length ∧ bs <+: b.bytes.drop u.dataPointer

theorem Spans.trans {b : Buffer} {r s t : Unpacker} {xs ys : List UInt8} (h : Spans b r s xs)
    (h' : Spans b s t ys) : Spans b r t (xs ++ ys) := by
  obtain ⟨hs, rest, hxs⟩ := h
  obtain ⟨ht, rest', hys⟩ := h'
  refine ⟨by rw [ht, hs, List.length_append, Nat.add_assoc], rest', ?_⟩
  have hrest : rest = b.bytes.drop s.dataPointer := by rw [hs, ← List.drop_drop, ← hxs, List.drop_left]
  rw [List.append_assoc, hys, ← hrest, hxs]

/-- From a state of `P`, what a run consumes without an error is accepted for what it returns. -/
structure Parses (b : Buffer) (P : Unpacker → Prop) {α : Type} (m : Reader α) (A : α → List UInt8 → Bool → Prop) : Prop where
  steps  : Steps (fun s _ t => Progress b s t) m
  parses : ∀ {u u' : Unpacker} {a : α}, P u → u.dataPointer ≤ b.bytes.length → m u = .ok a u' → u'.ec = false →
    ∃ bs st, Spans b u u' bs ∧ A a bs st

/-- Anywhere in a message. -/
def Anywhere (_ : Unpacker) : Prop := True

/-- In front of a byte. -/
def Facing (b : Buffer) (x : UInt8) (u : Unpacker) : Prop := b.bytes[u.dataPointer]? = some x

namespace Parses

variable {b : Buffer} {P : Unpacker → Prop} {α β : Type} {m n : Reader α} {f : α → Reader β}
  {A A' : α → List UInt8 → Bool → Prop} {C : β → List UInt8 → Bool → Prop}

theorem flag (h : Parses b P m A) (hA : ∀ a bs st, A a bs st → ∃ st', A' a bs st') : Parses b P m A' where
  steps  := h.steps
  parses := fun hP hle hm hec => by
    obtain ⟨bs, st, hspans, ha⟩ := h.parses hP hle hm hec
    obtain ⟨st', ha'⟩ := hA _ bs st ha
    exact ⟨bs, st', hspans, ha'⟩

theorem weaken (h : Parses b P m A) (hA : ∀ a bs st, A a bs st → A' a bs st) : Parses b P m A' :=
  h.flag fun a bs st ha => ⟨st, hA a bs st ha⟩

theorem anywhere (h : Parses b Anywhere m A) : Parses b P m A := ⟨h.steps, fun _ hle hm hec => h.parses trivial hle hm hec⟩

/-- A step that leaves the `Unpacker`. -/
theorem pure {a : α} (h : A a [] true) : Parses b P (Pure.pure a) A where
  steps  := (progress b).pure a
  parses := fun _ _ hm _ => by
    cases hm
    exact ⟨[], true, ⟨rfl, List.nil_prefix⟩, h⟩

theorem bind (hm : Parses b P m A) (hf : ∀ a, Parses b Anywhere (f a) fun c ys st' =>
    ∀ xs st, A a xs st → C c (xs ++ ys) (st && st')) : Parses b P (m >>= f) C where
  steps  := (progress b).bind hm.steps fun a => (hf a).steps
  parses := fun {u u' c} hP hle h hec => by
    obtain ⟨a, r, hr, hc⟩ := bind_eq_ok h
    have hprogress : Progress b r u' := (hf a).steps.of_ok hc
    have hclear : r.ec = false := by
      cases hr' : r.ec with
      | false => rfl
      | true  => exact absurd (hprogress.ec hr') (by simp [hec])
    obtain ⟨xs, st, hxs, ha⟩ := hm.parses hP hle hr hclear
    have hle' := ((hm.steps.of_ok hr).position hle).2
    obtain ⟨ys, st', hys, hac⟩ := (hf a).parses trivial hle' hc hec
    exact ⟨xs ++ ys, st && st', hxs.trans hys, hac xs st ha⟩

theorem ite {c : Prop} [Decidable c] (hm : c → Parses b P m A) (hn : ¬c → Parses b P n A) :
    Parses b P (if c then m else n) A := by
  by_cases hc : c
  · rw [if_pos hc]
    exact hm hc
  · rw [if_neg hc]
    exact hn hc

/-- Nothing is returned. -/
theorem throw (e : Fault) (hsteps : Steps (fun s _ t => Progress b s t) (throw e : Reader α)) :
    Parses b P (throw e : Reader α) A := ⟨hsteps, fun _ _ hm _ => nomatch hm⟩

/-- An error is set. -/
theorem error (h : Steps (fun s _ t => Progress b s t) m) : Parses b P (setError >>= fun _ => m) A where
  steps  := (progress b).bind (progress b).setError fun _ => h
  parses := fun _ _ hm hec => by
    obtain ⟨_, r, hr, hm⟩ := bind_eq_ok hm
    cases hr
    have hset := (h.of_ok hm).ec rfl
    rw [hec] at hset
    cases hset

/-- Whatever a program does, it consumes some bytes. -/
theorem consumes (h : Steps (fun s _ t => Progress b s t) m) : Parses b P m fun _ _ st => st = false where
  steps  := h
  parses := fun {u u' a} _ hle hm _ => by
    obtain ⟨hlo, hhi⟩ := (h.of_ok hm).position hle
    have hlen : (slice b.bytes u.dataPointer (u'.dataPointer - u.dataPointer)).length = u'.dataPointer - u.dataPointer := by
      simp [slice]
      omega
    exact ⟨slice b.bytes u.dataPointer (u'.dataPointer - u.dataPointer), false,
      ⟨by rw [hlen]; omega, List.take_prefix _ _⟩, rfl⟩

/-- A look at the next byte. -/
theorem look {f : UInt8 → Reader α} (h : ∀ x, Parses b (Facing b x) (f x) A) : Parses b P (safeData b >>= f) A where
  steps  := (progress b).bind (progress b).safeData fun x => (h x).steps
  parses := fun {u u' a} _ hle hm hec => by
    obtain ⟨x, r, hr, hm⟩ := bind_eq_ok hm
    unfold safeData at hr
    cases hbyte : b.bytes[u.dataPointer]? with
    | none   =>
      rw [hbyte] at hr
      cases hr
      have hset := ((h 0).steps.of_ok hm).ec rfl
      rw [hec] at hset
      cases hset
    | some y =>
      rw [hbyte] at hr
      cases hr
      exact (h x).parses (u := { u with log := .read u.dataPointer 1 :: u.log }) hbyte hle hm hec

/-- An event that the model keeps. -/
theorem note {e : Event} (hP : ∀ u : Unpacker, P u → P { u with log := e :: u.log })
    (h : Parses b P m A) : Parses b P (Msgpack.note e >>= fun _ => m) A where
  steps  := (progress b).bind (fun s => Progress.note b s e) fun _ => h.steps
  parses := fun {u u' a} hPu hle hm hec => by
    exact h.parses (u := { u with log := e :: u.log }) (hP u hPu) hle hm hec

/-- A step over the next byte. -/
theorem skip {x : UInt8} (h : Parses b Anywhere m fun a bs st => A a (x :: bs) st) :
    Parses b (Facing b x) (safeIncremen b 1 >>= fun _ => m) A where
  steps  := (progress b).bind ((progress b).safeIncremen 1) fun _ => h.steps
  parses := fun {u u' a} hP hle hm hec => by
    obtain ⟨hlt, hx⟩ := List.getElem?_eq_some_iff.1 hP
    have hskip : safeIncremen b 1 u = .ok () { u with dataPointer := u.dataPointer + 1 } := if_pos hlt
    rw [bind_of_ok hskip] at hm
    obtain ⟨bs, st, hspans, ha⟩ := h.parses (u := { u with dataPointer := u.dataPointer + 1 }) trivial hlt hm hec
    have hone : Spans b u { u with dataPointer := u.dataPointer + 1 } [x] := by
      refine ⟨rfl, b.bytes.drop (u.dataPointer + 1), ?_⟩
      rw [List.drop_eq_getElem_cons hlt, hx]
      rfl
    exact ⟨x :: bs, st, hone.trans hspans, ha⟩

/-! ## Numbers -/

theorem readBeLoop : ∀ k out, Parses b Anywhere (Msgpack.readBeLoop b k out) fun n bs st =>
    bs.length = k ∧ n = bs.foldl (fun acc x => acc * 256 + x.toNat) out ∧ st = true
  | 0,     out => pure ⟨rfl, rfl, rfl⟩
  | k + 1, out => by
    refine look fun x => skip ((readBeLoop k (out * 256 + x.toNat)).weaken ?_)
    rintro n bs st ⟨rfl, rfl, rfl⟩
    exact ⟨rfl, rfl, rfl⟩

theorem readBeUnsigned (k : Nat) :
    Parses b P (Msgpack.readBeUnsigned b k) fun n bs st => bs.length = k ∧ n = beNat bs ∧ st = true :=
  (readBeLoop k 0).anywhere

theorem readBeSigned (t : IntType) (k : Nat) : Parses b P (Msgpack.readBeSigned b t k) fun n bs st =>
    bs.length = k ∧ n = (t.wrap (beNat bs)).val ∧ st = true := by
  refine bind (readBeLoop k 0).anywhere fun n => pure ?_
  rintro bs st ⟨hbs, rfl, rfl⟩
  rw [List.append_nil]
  exact ⟨hbs, rfl, rfl⟩

theorem copyFloat {size : Nat} (f : Nat → α) : Parses b P
    (do let d ← Msgpack.copyFloat b size; Msgpack.safeIncremen b size; return f d)
    fun a bs st => bs.length = size ∧ a = f (leNat bs) ∧ st = true where
  steps  := (progress b).bind ((progress b).copyFloat size) fun _ =>
    (progress b).bind ((progress b).safeIncremen size) fun _ => (progress b).pure _
  parses := fun {u u' a} _ hle hm hec => by
    by_cases hsize : u.dataPointer + size ≤ b.bytes.length
    · have hcopy : (List.range size).map (fun i => b.byteAt (u.dataPointer + i)) = slice b.bytes u.dataPointer size := by
        apply List.ext_getElem
        · simp [slice]
          omega
        · intro i h₁ h₂
          have hi : u.dataPointer + i < b.bytes.length := by
            simp at h₁
            omega
          simp [Buffer.byteAt, slice, List.getElem?_eq_getElem hi]
      have hrun : (do let d ← Msgpack.copyFloat b size; Msgpack.safeIncremen b size; return f d) u =
          .ok (f (leNat (slice b.bytes u.dataPointer size)))
            { u with dataPointer := u.dataPointer + size, log := .memcpy u.dataPointer size :: u.log } := by
        have hfloat : Msgpack.copyFloat b size u = .ok (leNat (slice b.bytes u.dataPointer size))
            { u with log := .memcpy u.dataPointer size :: u.log } := by
          rw [Msgpack.copyFloat, hcopy]
        have hskip : Msgpack.safeIncremen b size { u with log := .memcpy u.dataPointer size :: u.log } =
            .ok () { u with dataPointer := u.dataPointer + size, log := .memcpy u.dataPointer size :: u.log } :=
          if_pos hsize
        rw [bind_of_ok hfloat, bind_of_ok hskip]
        rfl
      rw [hrun] at hm
      cases hm
      have hlen : (slice b.bytes u.dataPointer size).length = size := by
        simp [slice]
        omega
      exact ⟨slice b.bytes u.dataPointer size, true, ⟨by rw [hlen], List.take_prefix _ _⟩, hlen, rfl, rfl⟩
    · -- the step over the bytes sets an error
      have hset : u'.ec = true := by
        have hskip : Msgpack.safeIncremen b size { u with log := .memcpy u.dataPointer size :: u.log } =
            .ok () { u with dataPointer := b.bytes.length, ec := true, log := .memcpy u.dataPointer size :: u.log } :=
          if_neg hsize
        rw [bind_of_ok (m := Msgpack.copyFloat b size) rfl, bind_of_ok hskip] at hm
        cases hm
        rfl
      rw [hec] at hset
      cases hset

/-- A number was read. -/
def ReadsNumber (o : Option Number) (bs : List UInt8) (st : Bool) : Prop := ∃ x, o = some x ∧ EncodesNumber x bs ∧ st = true

theorem unsignedNumber {format : Format} {k : Nat}
    (h : (format, k) ∈ [(.uint8, 1), (.uint16, 2), (.uint32, 4), (.uint64, 8)]) :
    Parses b (Facing b format.code) (do safeIncremen b 1; return some (.int (← Msgpack.readBeUnsigned b k))) ReadsNumber := by
  refine skip (bind (readBeUnsigned k) fun n => pure ?_)
  rintro bs st ⟨hbs, rfl, rfl⟩
  rw [List.append_nil]
  exact ⟨_, rfl, .unsigned h hbs, rfl⟩

theorem signedNumber {format : Format} {s : IntType} {k : Nat}
    (h : (format, s, k) ∈ [(.int8, .int8, 1), (.int16, .int16, 2), (.int32, .int32, 4), (.int64, .int64, 8)]) :
    Parses b (Facing b format.code) (do safeIncremen b 1; return some (.int (← Msgpack.readBeSigned b s k))) ReadsNumber := by
  refine skip (bind (readBeSigned s k) fun n => pure ?_)
  rintro bs st ⟨hbs, rfl, rfl⟩
  rw [List.append_nil]
  exact ⟨_, rfl, .signed h hbs, rfl⟩

theorem readNumber : Parses b P (Msgpack.readNumber b) ReadsNumber := by
  refine look fun byte => note (fun _ h => h) ?_
  refine ite (fun h => skip (pure ⟨_, rfl, .positive h, rfl⟩)) fun _ => ?_
  refine ite (fun h => skip (pure ⟨_, rfl, .negative h, rfl⟩)) fun _ => ?_
  refine ite (fun h => h ▸ unsignedNumber (by simp)) fun _ => ?_
  refine ite (fun h => h ▸ unsignedNumber (by simp)) fun _ => ?_
  refine ite (fun h => h ▸ unsignedNumber (by simp)) fun _ => ?_
  refine ite (fun h => h ▸ unsignedNumber (by simp)) fun _ => ?_
  refine ite (fun h => h ▸ signedNumber (by simp)) fun _ => ?_
  refine ite (fun h => h ▸ signedNumber (by simp)) fun _ => ?_
  refine ite (fun h => h ▸ signedNumber (by simp)) fun _ => ?_
  refine ite (fun h => h ▸ signedNumber (by simp)) fun _ => ?_
  refine ite (fun h => ?_) fun _ => ite (fun h => ?_) fun _ => ?_
  · subst h
    refine skip ((copyFloat fun bits => some (Number.float32 bits)).weaken ?_)
    rintro o bs st ⟨hbs, rfl, rfl⟩
    exact ⟨_, rfl, .float32 hbs, rfl⟩
  · subst h
    refine skip ((copyFloat fun bits => some (Number.float64 bits)).weaken ?_)
    rintro o bs st ⟨hbs, rfl, rfl⟩
    exact ⟨_, rfl, .float64 hbs, rfl⟩
  · exact error ((progress b).pure _)

theorem unpackNumber (t : NumType) : Parses b P (Msgpack.unpackNumber b t) fun value bs _ =>
    ∃ x, EncodesNumber x bs ∧ t.cast x = some value := by
  refine bind readNumber fun o => ?_
  cases o with
  | none   =>
    refine pure ?_
    rintro xs st ⟨x, hx, _⟩
    cases hx
  | some x =>
    refine note (fun _ h => h) ?_
    cases hcast : t.cast x with
    | none       => exact throw _ ((progress b).undefined _)
    | some value =>
      refine pure ?_
      rintro xs st ⟨y, hy, hencodes, rfl⟩
      cases hy
      rw [List.append_nil]
      exact ⟨x, hencodes, hcast⟩

/-- With what the number holds. -/
theorem held (t : NumType) : Parses b P (Msgpack.unpackNumber b t) fun value bs st =>
    ∃ x, EncodesNumber x bs ∧ t.cast x = some value ∧ st = t.holds value x :=
  (unpackNumber t).flag fun value _ _ ⟨x, hx, hcast⟩ => ⟨t.holds value x, x, hx, hcast, rfl⟩

theorem unpackBool : Parses b P (Msgpack.unpackBool b) (Accepts (.num .bool)) := by
  refine look fun byte => ite (fun h => ?_) fun _ => look fun byte' => ite (fun h => ?_) fun _ => ?_
  · subst h
    exact note (fun _ h => h) (skip (pure (.inl ⟨rfl, rfl⟩)))
  · subst h
    exact note (fun _ h => h) (skip (pure (.inl ⟨rfl, rfl⟩)))
  · exact (unpackNumber .bool).flag fun _ _ _ h => ⟨false, .inr (h.imp fun _ hx => ⟨hx.1, hx.2, rfl⟩)⟩

theorem unpackNil : Parses b P (Msgpack.unpackNil b) (Accepts .nullptr) where
  steps  := (progress b).unpackNil
  parses := fun {u u' a} _ hle hm hec => by
    by_cases hlt : u.dataPointer < b.bytes.length
    · have hbyte : b.bytes[u.dataPointer]? = some b.bytes[u.dataPointer] := List.getElem?_eq_getElem hlt
      have hrun : Msgpack.unpackNil b u = .ok () { u with
          dataPointer := u.dataPointer + 1, log := .marker .nil b.bytes[u.dataPointer] :: u.log } := by
        unfold Msgpack.unpackNil
        rw [hbyte]
        exact if_pos hlt
      rw [hrun] at hm
      cases hm
      refine ⟨[b.bytes[u.dataPointer]], _, ⟨rfl, b.bytes.drop (u.dataPointer + 1), ?_⟩, _, rfl, rfl⟩
      exact (List.drop_eq_getElem_cons hlt).symm
    · have hrun : ∀ log, safeIncremen b 1 { u with log := log } =
          .ok () { u with dataPointer := b.bytes.length, ec := true, log := log } := fun log => if_neg (by
        change ¬u.dataPointer + 1 ≤ b.bytes.length
        omega)
      unfold Msgpack.unpackNil at hm
      rw [hrun] at hm
      cases hm
      cases hec

/-! ## Bytes -/

theorem takeBytes (size : Nat) : Parses b P (Msgpack.takeBytes b size) fun value bs st =>
    value = bs ∧ bs.length = size ∧ st = true where
  steps  := (progress b).takeBytes size
  parses := fun {u u' a} _ hle hm hec => by
    unfold Msgpack.takeBytes at hm
    by_cases hin : b.inRange u size = true
    · rw [if_pos hin] at hm
      by_cases hsize : u.dataPointer + size ≤ b.bytes.length
      · rw [if_pos hsize] at hm
        cases hm
        have hlen : (slice b.bytes u.dataPointer size).length = size := by
          simp [slice]
          omega
        exact ⟨slice b.bytes u.dataPointer size, true, ⟨by rw [hlen], List.take_prefix _ _⟩, rfl, hlen, rfl⟩
      · rw [if_neg hsize] at hm
        cases hm
    · rw [if_neg hin] at hm
      cases hm
      cases hec

/-- A length in its marker. -/
theorem marked {l : Lengths} {byte : UInt8} {size : Nat} (hl : l.inMarker byte = some size)
    (hm : Parses b Anywhere m fun a ys st => ∀ hs, l.Accepts size hs true → A a (hs ++ ys) (true && st)) :
    Parses b (Facing b byte) (safeIncremen b 1 >>= fun _ => m) A :=
  skip (hm.weaken fun _ _ _ ha => ha [byte] (.inMarker hl))

/-- A length behind its marker, in one byte or what is taken for more. -/
theorem sized {l : Lengths} {format : Format} {k : Nat} {strict : Bool} {f : Nat → Reader α}
    (hl : ∀ bs : List UInt8, bs.length = k → l.Accepts (beNat bs) (format.code :: bs) strict)
    (hf : ∀ size, Parses b Anywhere (f size) fun a ys st => ∀ hs, l.Accepts size hs strict → A a (hs ++ ys) (strict && st)) :
    Parses b (Facing b format.code) (do safeIncremen b 1; f (← Msgpack.readBeUnsigned b k)) A := by
  refine skip (bind (readBeUnsigned k) fun size => (hf size).flag ?_)
  intro a ys st ha
  refine ⟨strict && st, ?_⟩
  rintro xs _ ⟨hxs, rfl, rfl⟩
  exact ha (format.code :: xs) (hl xs hxs)

theorem unpackString : Parses b P (Msgpack.unpackString b) (Accepts .string) := by
  refine look fun byte => note (fun _ h => h) ?_
  have htake : ∀ {strict : Bool} size, Parses b Anywhere (Msgpack.takeBytes b size) fun value ys st =>
      ∀ hs, Lengths.string.Accepts size hs strict → Accepts .string value (hs ++ ys) (strict && st) := by
    intro strict size
    refine (takeBytes size).weaken ?_
    rintro value bs st ⟨rfl, rfl, rfl⟩ hs hhs
    rw [Bool.and_true]
    exact ⟨hs, hhs, rfl⟩
  refine ite (fun h => ?_) fun _ => ite (fun h => ?_) fun _ => ite (fun h => ?_) fun _ => ite (fun h => ?_) fun _ => ?_
  · exact marked (if_pos h) (htake _)
  · subst h
    exact sized (fun bs hbs => .wide (by simp [Lengths.string]) (.inr rfl) hbs) htake
  · subst h
    exact sized (fun bs hbs => .wide (by simp [Lengths.string]) (.inl rfl) hbs) htake
  · subst h
    exact sized (fun bs hbs => .byte (by simp [Lengths.string]) hbs) htake
  · exact error ((progress b).pure _)

theorem unpackBinary : Parses b P (Msgpack.unpackBinary b) (Accepts .binary) := by
  refine look fun byte => note (fun _ h => h) ?_
  have htake : ∀ {strict : Bool} size, Parses b Anywhere (Msgpack.takeBytes b size) fun value ys st =>
      ∀ hs, Lengths.binary.Accepts size hs strict → Accepts .binary value (hs ++ ys) (strict && st) := by
    intro strict size
    refine (takeBytes size).weaken ?_
    rintro value bs st ⟨rfl, rfl, rfl⟩ hs hhs
    rw [Bool.and_true]
    exact ⟨hs, hhs, rfl⟩
  refine ite (fun h => ?_) fun _ => ite (fun h => ?_) fun _ => ite (fun h => ?_) fun _ => ?_
  · subst h
    exact sized (fun bs hbs => .wide (by simp [Lengths.binary]) (.inr rfl) hbs) htake
  · subst h
    exact sized (fun bs hbs => .wide (by simp [Lengths.binary]) (.inl rfl) hbs) htake
  · subst h
    exact sized (fun bs hbs => .byte (by simp [Lengths.binary]) hbs) htake
  · exact error ((progress b).pure _)

/-! ## Containers -/

theorem announce (reserves : Bool) (count : Nat) : Parses b P (Msgpack.announce b reserves count) fun _ bs st =>
    bs = [] ∧ st = true where
  steps  := (progress b).announce reserves count
  parses := fun {u u' a} _ hle hm hec => by
    have hsame : u'.dataPointer = u.dataPointer := by
      unfold Msgpack.announce at hm
      dsimp only at hm
      split at hm
      · split at hm
        · cases hm
        · cases hm
          rfl
      · cases hm
        rfl
    exact ⟨[], true, ⟨hsame, List.nil_prefix⟩, rfl, rfl⟩

theorem unpackElements (h : Parses b Anywhere m A) : ∀ (count : Nat) (array : List α),
    Parses b Anywhere (Msgpack.unpackElements m count array) fun elements bs st =>
      ∃ new, elements = array ++ new ∧ new.length = count ∧ Flagged A new bs st
  | 0,         array => pure ⟨[], (List.append_nil _).symm, rfl, .nil⟩
  | count + 1, array => by
    refine bind h fun val => (unpackElements h count (array ++ [val])).weaken ?_
    rintro elements bs st ⟨new, rfl, rfl, hall⟩ xs st' hval
    exact ⟨val :: new, by rw [List.append_assoc, List.singleton_append], rfl, .cons hval hall⟩

theorem unpackCounted (h : Parses b Anywhere m A) (indexed : Bool) (count : Nat) :
    Parses b Anywhere (Msgpack.unpackCounted b indexed m count) fun elements bs st =>
      elements.length = count ∧ Flagged A elements bs st := by
  refine bind (announce indexed count) fun _ => (unpackElements h count []).weaken ?_
  rintro elements bs st ⟨new, rfl, hlen, hall⟩ xs st' ⟨rfl, rfl⟩
  exact ⟨hlen, hall⟩

/-- Anything at all behind the marker of a table. -/
theorem table {l : Lengths} {m : Reader (List α)} (hsteps : Steps (fun s _ t => Progress b s t) m) :
    Parses b (Facing b Format.table.code) (safeIncremen b 1 >>= fun _ => m) (AcceptsElements l A) :=
  skip ((consumes hsteps).weaken fun _ bs _ hst => .inl ⟨bs, rfl, hst⟩)

theorem unpackArray (helem : Parses b Anywhere m A) (indexed : Bool) (init : α) :
    Parses b P (Msgpack.unpackArray b indexed init m) (AcceptsElements .array A) := by
  refine look fun byte => note (fun _ h => h) ?_
  have hcounted : ∀ {strict : Bool} count, Parses b Anywhere (Msgpack.unpackCounted b indexed m count) fun elements ys st =>
      ∀ hs, Lengths.array.Accepts count hs strict → AcceptsElements .array A elements (hs ++ ys) (strict && st) := by
    intro strict count
    refine (unpackCounted helem indexed count).weaken ?_
    rintro elements bs st ⟨rfl, hall⟩ hs hhs
    exact .inr ⟨hs, bs, strict, st, hhs, hall, rfl, rfl⟩
  refine ite (fun h => ?_) fun _ => ite (fun h => ?_) fun _ => ite (fun h => ?_) fun _ => ite (fun h => ?_) fun _ => ?_
  · exact marked (if_pos h) (hcounted _)
  · subst h
    exact sized (fun bs hbs => .wide (by simp [Lengths.array]) (.inr rfl) hbs) hcounted
  · subst h
    exact sized (fun bs hbs => .wide (by simp [Lengths.array]) (.inl rfl) hbs) hcounted
  · subst h
    refine table ((progress b).bind ((progress b).readBeUnsigned 8) fun count => ?_)
    refine (progress b).bind ((progress b).announce indexed count) fun _ => ?_
    exact Steps.ite ((progress b).unpackIndexed helem.steps count _) ((progress b).pure _)
  · exact error ((progress b).pure _)

theorem unpackStdarray (h : Parses b Anywhere m A) (size : Nat) (init : α) :
    Parses b P (Msgpack.unpackStdarray b size init m) fun value bs st => ∃ (vec : List α) (st' : Bool),
      AcceptsElements .array A vec bs st' ∧ vec.length ≤ size ∧
      value.val = vec ++ List.replicate (size - vec.length) init ∧ st = (decide (vec.length = size) && st') := by
  refine bind (unpackArray h true init) fun vec => ⟨(progress b).copyOut size init vec, fun {u u' value} _ hle hm hec => ?_⟩
  unfold copyOut at hm
  dsimp only at hm
  split at hm
  · rename_i hsize
    cases hm
    refine ⟨[], decide (vec.length = size), ⟨rfl, List.nil_prefix⟩, fun xs st hvec => ?_⟩
    rw [List.append_nil]
    exact ⟨vec, st, hvec, hsize, rfl, Bool.and_comm _ _⟩
  · cases hm

section

variable {keys : Keys α} {n : Reader β} {B : β → List UInt8 → Bool → Prop}

theorem unpackEntries (hkey : Parses b Anywhere m A) (hmapped : Parses b Anywhere n B) :
    ∀ (count : Nat) (map : KeyedMap keys β), Parses b Anywhere (Msgpack.unpackEntries m n count map) fun value bs st =>
      ∃ entries : List (α × β), value = map.insertAll entries ∧ entries.length = count ∧
        Flagged (AcceptsEntry A B) entries bs st
  | 0,         map => pure ⟨[], rfl, rfl, .nil⟩
  | count + 1, map => by
    refine bind hkey fun key => bind hmapped fun val =>
      (unpackEntries hkey hmapped count (map.insertOrAssign key val)).weaken ?_
    rintro value bs st ⟨entries, rfl, rfl, hall⟩ ys st₂ hval xs st₁ hk
    refine ⟨(key, val) :: entries, rfl, rfl, ?_⟩
    rw [← List.append_assoc, ← Bool.and_assoc]
    exact .cons ⟨xs, ys, st₁, st₂, hk, hval, rfl, rfl⟩ hall

theorem unpackMap (hkey : Parses b Anywhere m A) (hmapped : Parses b Anywhere n B) (unordered : Bool) :
    Parses b P (Msgpack.unpackMap b keys unordered m n) (AcceptsMap A B) := by
  refine look fun byte => note (fun _ h => h) ?_
  have hcounted : ∀ {strict : Bool} count, Parses b Anywhere (Msgpack.unpackCountedMap b keys unordered m n count)
      fun value ys st => ∀ hs, Lengths.map.Accepts count hs strict → AcceptsMap A B value (hs ++ ys) (strict && st) := by
    intro strict count
    refine bind (announce unordered count) fun _ => (unpackEntries hkey hmapped count .empty).weaken ?_
    rintro value bs st ⟨entries, rfl, rfl, hall⟩ xs st' ⟨rfl, rfl⟩ hs hhs
    exact .inr ⟨entries, .inr ⟨hs, bs, strict, st, hhs, hall, rfl, rfl⟩, rfl⟩
  refine ite (fun h => ?_) fun _ => ite (fun h => ?_) fun _ => ite (fun h => ?_) fun _ => ?_
  · exact marked (if_pos h) (hcounted _)
  · rcases h with rfl | rfl
    · exact sized (fun bs hbs => .wide (by simp [Lengths.map]) (.inr rfl) hbs) hcounted
    · refine skip (bind (readBeUnsigned 8) fun count => bind (announce unordered count) fun _ =>
        (unpackEntries hkey hmapped count .empty).flag ?_)
      rintro value bs st ⟨entries, rfl, _, _⟩
      refine ⟨false, ?_⟩
      rintro xs st' _ ys st'' _
      exact .inr ⟨entries, .inl ⟨_, rfl, by simp⟩, rfl⟩
  · subst h
    exact sized (fun bs hbs => .wide (by simp [Lengths.map]) (.inl rfl) hbs) hcounted
  · exact (pure (A := fun value bs _ => value = KeyedMap.empty ∧ bs = []) ⟨rfl, rfl⟩).flag fun _ _ _ h =>
      ⟨false, .inl ⟨h.2, rfl⟩⟩

end

/-- **What a decoder consumes without an error, it accepts for the value that it returns.** -/
theorem unpackType : ∀ t : Ty, Parses b Anywhere (Msgpack.unpackType b t) (Accepts t)
  | .num (.int t)       => held (.int t)
  | .num .bool          => unpackBool
  | .num .float         => held .float
  | .num .double        => held .double
  | .nullptr            => unpackNil
  | .enum t             => by
    have hcast : Parses b Anywhere (Msgpack.unpackType b (.enum t)) fun value bs _ =>
        ∃ x v, EncodesNumber x bs ∧ (NumType.int .int32).cast x = some v ∧ value = t.wrap v.val := by
      refine bind (unpackNumber (.int .int32)) fun v => pure ?_
      rintro xs st ⟨x, hx, hcast⟩
      rw [List.append_nil]
      exact ⟨x, v, hx, hcast, rfl⟩
    exact hcast.flag fun value _ _ ⟨x, v, hx, hv, hvalue⟩ => ⟨(NumType.int t).holds value x, x, v, hx, hv, hvalue, rfl⟩
  | .string             => unpackString
  | .binary             => unpackBinary
  | .vector t           => unpackArray (unpackType t) true t.init
  | .list t             => unpackArray (unpackType t) false t.init
  | .array size t       => unpackStdarray (unpackType t) size t.init
  | .map unordered k v  => unpackMap (unpackType k) (unpackType v) unordered
  | .unit               => pure ⟨rfl, rfl⟩
  | .pair s t           => by
    refine bind (unpackType s) fun fst => bind (unpackType t) fun snd => pure ?_
    intro ys st₂ hsnd xs st₁ hfst
    rw [List.append_nil, Bool.and_true]
    exact ⟨xs, ys, st₁, st₂, hfst, hsnd, rfl, rfl⟩

end Parses

/-! ## What is accepted as an encoding

The bytes of a value, where every part of them is accepted as an encoding, are decoded to it. -/

section

variable {b : Buffer}

theorem decodes_number {x : Number} {bs : List UInt8} (h : EncodesNumber x bs) : Decodes b (readNumber b) bs (some x) := by
  cases h with
  | positive h     => exact decodes_positive h
  | negative h     => exact decodes_negative h
  | unsigned h hbs => exact decodes_unsigned (by simpa using h) _ hbs
  | signed h hbs   => exact decodes_signed (by simpa using h) _ hbs
  | float32 hbs    => exact decodes_float32 _ hbs
  | float64 hbs    => exact decodes_float64 _ hbs

theorem EncodesNumber.length_le {x : Number} {bs : List UInt8} (h : EncodesNumber x bs) : bs.length ≤ 9 := by
  cases h with
  | positive h     => exact Nat.le_add_left 1 8
  | negative h     => exact Nat.le_add_left 1 8
  | unsigned h hbs =>
    simp only [List.mem_cons, Prod.mk.injEq, List.not_mem_nil, or_false] at h
    rw [List.length_cons]
    omega
  | signed h hbs   =>
    simp only [List.mem_cons, Prod.mk.injEq, List.not_mem_nil, or_false] at h
    rw [List.length_cons]
    omega
  | float32 hbs    =>
    rw [List.length_cons]
    omega
  | float64 hbs    =>
    rw [List.length_cons]
    omega

/-- Bytes are those of one number: that to which they are decoded. -/
theorem EncodesNumber.unique {x y : Number} {bs : List UInt8} (hx : EncodesNumber x bs) (hy : EncodesNumber y bs) :
    x = y := by
  have hlen := hx.length_le
  let b : Buffer := .ofBytes bs (by omega)
  have hfront : bs <+: b.bytes.drop ({} : Unpacker).dataPointer := front_of_bytes rfl
  obtain ⟨_, hdx, _⟩ := decodes_number (b := b) hx {} (Nat.zero_le _) hfront
  obtain ⟨_, hdy, _⟩ := decodes_number (b := b) hy {} (Nat.zero_le _) hfront
  cases hdx.symm.trans hdy
  rfl

theorem decodes_string {value bs : List UInt8} (h : AcceptsBytes .string value bs true) :
    Decodes b (unpackString b) bs value := by
  obtain ⟨hs, hhead, rfl⟩ := h
  generalize hlen : value.length = len at hhead
  generalize htrue : true = st at hhead
  cases hhead with
  | @inMarker byte _ h      =>
    simp only [Lengths.string, Option.ite_none_right_eq_some, Option.some.injEq] at h
    refine .front (.note _ (.ite_pos h.1 (.skip ?_)))
    rw [h.2, ← hlen]
    exact .takeBytes value
  | @byte format bs h hbs   =>
    simp only [Lengths.string, List.mem_cons, Prod.mk.injEq, List.not_mem_nil, or_false] at h
    obtain rfl : format = .str8 := by simpa using h
    have hsize := Decodes.readBeUnsigned (b := b) bs
    rw [hbs, ← hlen] at hsize
    refine .front (.note _ ?_)
    repeat first | refine .ite_pos (by decide) ?_ | refine .ite_neg (by decide) ?_
    exact .skip (hsize.bind (.takeBytes value))
  | wide h hk hbs           => cases htrue

theorem decodes_binary {value bs : List UInt8} (h : AcceptsBytes .binary value bs true) :
    Decodes b (unpackBinary b) bs value := by
  obtain ⟨hs, hhead, rfl⟩ := h
  generalize hlen : value.length = len at hhead
  generalize htrue : true = st at hhead
  cases hhead with
  | inMarker h              => cases h
  | @byte format bs h hbs   =>
    simp only [Lengths.binary, List.mem_cons, Prod.mk.injEq, List.not_mem_nil, or_false] at h
    obtain rfl : format = .bin8 := by simpa using h
    have hsize := Decodes.readBeUnsigned (b := b) bs
    rw [hbs, ← hlen] at hsize
    refine .front (.note _ ?_)
    repeat first | refine .ite_pos (by decide) ?_ | refine .ite_neg (by decide) ?_
    exact .skip (hsize.bind (.takeBytes value))
  | wide h hk hbs           => cases htrue

/-- A count that is accepted as an encoding stands in its marker. -/
theorem count_inMarker {l : Lengths} (hl : ∀ form ∈ l.behind, form.2 ≠ 1) {n : Nat} {hs : List UInt8}
    (h : l.Accepts n hs true) : ∃ byte, hs = [byte] ∧ l.inMarker byte = some n := by
  generalize htrue : true = st at h
  cases h with
  | inMarker h    => exact ⟨_, rfl, h⟩
  | byte h hbs    => exact absurd rfl (hl _ h)
  | wide h hk hbs => cases htrue

theorem low_le (byte : UInt8) : (byte &&& 0x0f).toNat ≤ 15 := by
  rw [UInt8.toNat_and]
  exact Nat.and_le_right

theorem decodes_array {α : Type} {m : Reader α} {A : α → List UInt8 → Bool → Prop} (indexed : Bool) (init : α)
    (hm : ∀ a xs, A a xs true → Decodes b m xs a) {array : List α} {bs : List UInt8}
    (h : AcceptsElements .array A array bs true) : Decodes b (unpackArray b indexed init m) bs array := by
  rcases h with ⟨_, _, hst⟩ | ⟨hs, es, st₁, st₂, hhead, htail, rfl, hst⟩
  · cases hst
  · obtain ⟨rfl, rfl⟩ := Bool.and_eq_true_iff.1 hst.symm
    obtain ⟨byte, rfl, hbyte⟩ := count_inMarker (by decide) hhead
    simp only [Lengths.array, Option.ite_none_right_eq_some, Option.some.injEq] at hbyte
    refine .front (.note _ (.ite_pos hbyte.1 (.skip ?_)))
    have hlen := low_le byte
    rw [hbyte.2] at hlen ⊢
    exact (decodes_announce indexed hlen).still (decodes_elements (htail.sequence hm rfl) [])

theorem decodes_map {α β : Type} {keys : Keys α} {mk : Reader α} {mv : Reader β} {A : α → List UInt8 → Bool → Prop}
    {B : β → List UInt8 → Bool → Prop} (unordered : Bool) (hkey : ∀ a xs, A a xs true → Decodes b mk xs a)
    (hmapped : ∀ c ys, B c ys true → Decodes b mv ys c) {map : KeyedMap keys β} {bs : List UInt8}
    (h : AcceptsMap A B map bs true) : Decodes b (unpackMap b keys unordered mk mv) bs map := by
  rcases h with ⟨_, hst⟩ | ⟨entries, ⟨_, _, hst⟩ | ⟨hs, es, st₁, st₂, hhead, htail, rfl, hst⟩, rfl⟩
  · cases hst
  · cases hst
  · obtain ⟨rfl, rfl⟩ := Bool.and_eq_true_iff.1 hst.symm
    obtain ⟨byte, rfl, hbyte⟩ := count_inMarker (by decide) hhead
    simp only [Lengths.map, Option.ite_none_right_eq_some, Option.some.injEq] at hbyte
    refine .front (.note _ (.ite_pos hbyte.1 (.skip ?_)))
    have hlen := low_le byte
    rw [hbyte.2] at hlen ⊢
    refine (decodes_announce unordered hlen).still (decodes_entries (htail.sequence ?_ rfl) .empty)
    rintro entry zs ⟨xs, ys, st₁, st₂, hx, hy, rfl, hst⟩
    obtain ⟨rfl, rfl⟩ := Bool.and_eq_true_iff.1 hst.symm
    exact ⟨xs, ys, hkey _ xs hx, hmapped _ ys hy, rfl⟩

/-- **What is accepted as an encoding in every part is decoded to its value, wherever it stands.** -/
theorem decodes_accepts : ∀ (t : Ty) (value : t.Val) (bs : List UInt8), Accepts t value bs true →
    Decodes b (unpackType b t) bs value
  | .num .bool,     value, _, h => by
    rcases h with ⟨rfl, _⟩ | ⟨_, _, _, hst⟩
    · exact decodes_packBool value
    · cases hst
  | .num (.int _),  _,     _, ⟨_, hx, hcast, _⟩ => (decodes_number hx).number hcast
  | .num .float,    _,     _, ⟨_, hx, hcast, _⟩ => (decodes_number hx).number hcast
  | .num .double,   _,     _, ⟨_, hx, hcast, _⟩ => (decodes_number hx).number hcast
  | .nullptr,       _,     _, h => by
    obtain ⟨byte, rfl, hst⟩ := h
    rw [of_decide_eq_true hst.symm]
    exact decodes_packNil
  | .enum t,        value, _, h => by
    obtain ⟨x, v, hx, hcast, hvalue, _⟩ := h
    have hint := ((decodes_number (b := b) hx).number hcast).map fun v : IntType.int32.Val => t.wrap v.val
    rw [← hvalue] at hint
    exact hint
  | .string,        _,     _, h => decodes_string h
  | .binary,        _,     _, h => decodes_binary h
  | .vector t,      _,     _, h => decodes_array true t.init (decodes_accepts t) h
  | .list t,        _,     _, h => decodes_array false t.init (decodes_accepts t) h
  | .array size t,  value, bs, h => by
    obtain ⟨vec, st', hall, _, hval, hst⟩ := h
    obtain ⟨hsize, rfl⟩ := Bool.and_eq_true_iff.1 hst.symm
    have hvec : value.val = vec := by
      rw [hval, of_decide_eq_true hsize, Nat.sub_self]
      exact List.append_nil vec
    rw [← hvec] at hall
    have hcopy := (decodes_array (b := b) true t.init (decodes_accepts t) hall).bind (decodes_copyOut t.init value)
    rw [List.append_nil] at hcopy
    exact hcopy
  | .map unordered k v, _, _, h => decodes_map unordered (decodes_accepts k) (decodes_accepts v) h
  | .unit,          _,     _, h => by
    rw [h.1]
    exact .pure ()
  | .pair s t,      value, _, h => by
    obtain ⟨xs, ys, st₁, st₂, hfst, hsnd, rfl, hst⟩ := h
    obtain ⟨rfl, rfl⟩ := Bool.and_eq_true_iff.1 hst.symm
    exact (decodes_accepts s value.1 xs hfst).bind ((decodes_accepts t value.2 ys hsnd).map fun snd => (value.1, snd))

end

end Gb.Msgpack
