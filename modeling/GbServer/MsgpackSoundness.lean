import GbServer.MsgpackAccepts
/-!
# MsgpackSoundness — when what was consumed is an encoding of what was returned

A message that begins as an encoding is taken for the value that is encoded.  A decoder that made use of what is no
encoding may still have consumed an encoding of the value it returned, read in another way: a length of two bytes that is
zero, and behind it six numbers.  For that the two readings would have to meet again at the end of the message, and they do
not: the decoder stays ahead by numbers and booleans (`follows`).  So, for types without maps, what is consumed without an
error is an encoding exactly if the message begins as one; with maps, whose count is not that of what is returned, that is
enough (`soundDecode_iff`).
-/
namespace Gb.Msgpack

open Bytes (beNat)
open Encoding (Sequence Flagged PrefixFree Lead Follows)

/-! ## Words -/

/-- Numbers and booleans: the words that have a length by their marker. -/
def EncodesScalar : Number ⊕ Bool → List UInt8 → Prop
  | .inl x,     bs => EncodesNumber x bs
  | .inr value, bs => bs = packBool value

/-- The bytes behind the marker of a scalar. -/
def scalarSize (byte : UInt8) : Nat :=
  if byte = Format.uint8.code ∨ byte = Format.int8.code then 1
  else if byte = Format.uint16.code ∨ byte = Format.int16.code then 2
  else if byte = Format.uint32.code ∨ byte = Format.int32.code ∨ byte = Format.float32.code then 4
  else if byte = Format.uint64.code ∨ byte = Format.int64.code ∨ byte = Format.float64.code then 8
  else 0

/-- The markers of scalars. -/
def ScalarMarker (byte : UInt8) : Prop := Family.number.accepts byte ∨ Family.bool.accepts byte

instance (byte : UInt8) : Decidable (ScalarMarker byte) :=
  inferInstanceAs (Decidable (Family.number.accepts byte ∨ Family.bool.accepts byte))

theorem EncodesNumber.marker {x : Number} {bs : List UInt8} (h : EncodesNumber x bs) :
    ∃ byte rest, bs = byte :: rest ∧ Family.number.accepts byte ∧ rest.length = scalarSize byte := by
  cases h with
  | @positive byte h =>
    refine ⟨byte, [], rfl, .inl h, ?_⟩
    unfold scalarSize Format.code
    grind
  | @negative byte h =>
    refine ⟨byte, [], rfl, .inr (.inl h), ?_⟩
    unfold scalarSize Format.code
    grind
  | unsigned h hbs   =>
    simp only [List.mem_cons, Prod.mk.injEq, List.not_mem_nil, or_false] at h
    refine ⟨_, _, rfl, ?_, hbs.trans ?_⟩
    · rcases h with ⟨rfl, _⟩ | ⟨rfl, _⟩ | ⟨rfl, _⟩ | ⟨rfl, _⟩ <;> decide
    · rcases h with ⟨rfl, rfl⟩ | ⟨rfl, rfl⟩ | ⟨rfl, rfl⟩ | ⟨rfl, rfl⟩ <;> rfl
  | signed h hbs     =>
    simp only [List.mem_cons, Prod.mk.injEq, List.not_mem_nil, or_false] at h
    refine ⟨_, _, rfl, ?_, hbs.trans ?_⟩
    · rcases h with ⟨rfl, _⟩ | ⟨rfl, _⟩ | ⟨rfl, _⟩ | ⟨rfl, _⟩ <;> decide
    · rcases h with ⟨rfl, _, rfl⟩ | ⟨rfl, _, rfl⟩ | ⟨rfl, _, rfl⟩ | ⟨rfl, _, rfl⟩ <;> rfl
  | float32 hbs      => exact ⟨_, _, rfl, by decide, hbs⟩
  | float64 hbs      => exact ⟨_, _, rfl, by decide, hbs⟩

theorem EncodesScalar.marker : ∀ {x : Number ⊕ Bool} {bs : List UInt8}, EncodesScalar x bs →
    ∃ byte rest, bs = byte :: rest ∧ ScalarMarker byte ∧ rest.length = scalarSize byte
  | .inl _,     _, h => by
    obtain ⟨byte, rest, hbs, hmarker, hlen⟩ := EncodesNumber.marker h
    exact ⟨byte, rest, hbs, .inl hmarker, hlen⟩
  | .inr false, _, h => ⟨_, _, h, .inr (.inl rfl), rfl⟩
  | .inr true,  _, h => ⟨_, _, h, .inr (.inr rfl), rfl⟩

/-- The marker of a boolean is none of a number. -/
theorem not_encodesNumber_packBool {x : Number} (value : Bool) : ¬EncodesNumber x (packBool value) := by
  intro h
  obtain ⟨byte, rest, hbs, hmarker, _⟩ := h.marker
  cases value with
  | false =>
    obtain ⟨rfl, _⟩ := List.cons.inj hbs
    exact absurd hmarker (by decide)
  | true  =>
    obtain ⟨rfl, _⟩ := List.cons.inj hbs
    exact absurd hmarker (by decide)

theorem scalar_prefixFree : PrefixFree EncodesScalar := by
  intro x y xs ys r s hx hy hstream
  obtain ⟨byte, rest, rfl, _, hlen⟩ := hx.marker
  obtain ⟨byte', rest', rfl, _, hlen'⟩ := hy.marker
  simp only [List.cons_append, List.cons.injEq] at hstream
  obtain ⟨rfl, hstream⟩ := hstream
  rw [(List.append_inj hstream (hlen.trans hlen'.symm)).1]

theorem Lead.marker {lead : List UInt8} (h : Lead EncodesScalar lead) :
    ∃ byte rest, lead = byte :: rest ∧ ScalarMarker byte := by
  obtain ⟨x, xs, hseq⟩ := h
  cases hseq with
  | cons head tail =>
    obtain ⟨byte, rest, rfl, hmarker, _⟩ := head.marker
    exact ⟨byte, _, rfl, hmarker⟩

/-! ## Lengths -/

/-- A family knows a length by its marker, which is none of a scalar. -/
structure Lengths.Lawful (l : Lengths) : Prop where
  apart  : ∀ byte n, l.inMarker byte = some n → ∀ form ∈ l.behind, form.1.code ≠ byte
  single : ∀ form ∈ l.behind, ∀ form' ∈ l.behind, form.1.code = form'.1.code → form.2 = form'.2
  marked : ∀ byte n, l.inMarker byte = some n → ¬ScalarMarker byte
  behind : ∀ form ∈ l.behind, ¬ScalarMarker form.1.code

theorem Lengths.string_lawful : Lengths.string.Lawful where
  apart  := fun byte n h form hform => by
    simp only [Lengths.string, Option.ite_none_right_eq_some] at h hform
    simp only [List.mem_cons, List.not_mem_nil, or_false] at hform
    rcases hform with rfl | rfl | rfl <;> (simp only [Format.code]; grind)
  single := by decide
  marked := fun byte n h => by
    simp only [Lengths.string, Option.ite_none_right_eq_some] at h
    simp only [ScalarMarker, Family.accepts, Format.code]
    grind
  behind := by
    simp only [Lengths.string, ScalarMarker]
    decide

theorem Lengths.binary_lawful : Lengths.binary.Lawful where
  apart  := fun _ _ h => nomatch h
  single := by decide
  marked := fun _ _ h => nomatch h
  behind := by
    simp only [Lengths.binary, ScalarMarker]
    decide

theorem Lengths.array_lawful : Lengths.array.Lawful where
  apart  := fun byte n h form hform => by
    simp only [Lengths.array, Option.ite_none_right_eq_some] at h hform
    simp only [List.mem_cons, List.not_mem_nil, or_false] at hform
    rcases hform with rfl | rfl <;> (simp only [Format.code]; grind)
  single := by decide
  marked := fun byte n h => by
    simp only [Lengths.array, Option.ite_none_right_eq_some] at h
    simp only [ScalarMarker, Family.accepts, Format.code]
    grind
  behind := by
    simp only [Lengths.array, ScalarMarker]
    decide

theorem beNat_eq_zero : ∀ {bs : List UInt8}, beNat bs = 0 → bs = List.replicate bs.length 0
  | [],      _ => rfl
  | x :: bs, h => by
    have happend := Bytes.beNat_append [x] bs
    rw [List.singleton_append, h] at happend
    have hpos : 0 < 256 ^ bs.length := Nat.pow_pos (by decide)
    have hx : beNat [x] = 0 := by
      by_contra hne
      have := Nat.mul_pos (Nat.pos_of_ne_zero hne) hpos
      omega
    have hbyte : x = 0 := by
      have hone : beNat [x] = x.toNat := by simp [beNat]
      exact UInt8.toNat_inj.1 (hone.symm.trans hx)
    rw [List.length_cons, List.replicate_succ, hbyte, ← @beNat_eq_zero bs (by omega)]

/-- Zeros are numbers. -/
theorem lead_zeros {n : Nat} (h : 0 < n) : Lead EncodesScalar (List.replicate n 0) := by
  obtain ⟨k, rfl⟩ := Nat.exists_eq_succ_of_ne_zero (Nat.ne_of_gt h)
  have hzero : EncodesScalar (.inl (.int (0 : UInt8).toNat)) [0] := .positive (by decide)
  exact ⟨_, _, Sequence.replicate hzero (k + 1)⟩

/-- **A length and what is taken for one at the same place**: they are the same bytes, or both are zero and the reader has
read zeros behind the encoding. -/
theorem Lengths.Lawful.compare {l : Lengths} (hl : l.Lawful) {n n' : Nat} {hs hs' r s : List UInt8} {st : Bool}
    (he : l.Encodes n hs) (ha : l.Accepts n' hs' st) (hstream : hs ++ r = hs' ++ s) (hle : n' ≤ n) :
    st = true ∧ n = n' ∧ hs = hs' ∨ n = 0 ∧ n' = 0 ∧ ∃ lead, Lead EncodesScalar lead ∧ hs' = hs ++ lead := by
  cases he with
  | @inMarker byte _ h        =>
    cases ha with
    | inMarker h'    =>
      simp only [List.cons_append, List.cons.injEq] at hstream
      obtain ⟨rfl, _⟩ := hstream
      rw [h, Option.some.injEq] at h'
      exact .inl ⟨rfl, h', rfl⟩
    | byte h' _      =>
      simp only [List.cons_append, List.cons.injEq] at hstream
      exact absurd hstream.1.symm (hl.apart _ _ h _ h')
    | wide h' _ _    =>
      simp only [List.cons_append, List.cons.injEq] at hstream
      exact absurd hstream.1.symm (hl.apart _ _ h _ h')
  | @behind format k bs h hbs =>
    cases ha with
    | inMarker h'              =>
      simp only [List.cons_append, List.cons.injEq] at hstream
      exact absurd hstream.1 (hl.apart _ _ h' _ h)
    | @byte format' bs' h' hbs' =>
      simp only [List.cons_append, List.cons.injEq] at hstream
      have hk : k = 1 := hl.single _ h _ h' hstream.1
      obtain rfl := (List.append_inj hstream.2 (by rw [hbs, hbs', hk])).1
      exact .inl ⟨rfl, rfl, by rw [hstream.1]⟩
    | @wide format' k' bs' h' hk' hbs' =>
      simp only [List.cons_append, List.cons.injEq] at hstream
      have hk := hl.single _ h _ h' hstream.1
      dsimp only at hk
      subst hk
      -- the bytes of the length are the first of the eight
      obtain ⟨low, rfl⟩ : ∃ low, bs' = bs ++ low := by
        refine ⟨bs'.drop k, ?_⟩
        have htake : bs = bs'.take k := by
          have := congrArg (List.take k) hstream.2
          rwa [List.take_left' hbs, List.take_append_of_le_length (by omega)] at this
        rw [htake, List.take_append_drop]
      have hvalue := Bytes.beNat_append bs low
      have hlow : low.length = 8 - k := by
        rw [List.length_append] at hbs'
        omega
      have hpow : 256 ≤ 256 ^ low.length := by
        rw [hlow]
        rcases hk' with rfl | rfl <;> decide
      have hzero : beNat bs = 0 := by
        by_contra hne
        have := Nat.mul_le_mul_left (beNat bs) hpow
        have := Nat.pos_of_ne_zero hne
        omega
      rw [hzero, Nat.zero_mul, Nat.zero_add] at hvalue
      refine .inr ⟨hzero, by omega, low, ?_, by rw [hstream.1]; rfl⟩
      rw [@beNat_eq_zero low (by omega)]
      exact lead_zeros (by omega)

theorem Lengths.Lawful.marker {l : Lengths} (hl : l.Lawful) {n : Nat} {hs : List UInt8} (he : l.Encodes n hs) :
    ∃ byte rest, hs = byte :: rest ∧ ¬ScalarMarker byte := by
  cases he with
  | inMarker h => exact ⟨_, _, rfl, hl.marked _ _ h⟩
  | behind h _ => exact ⟨_, _, rfl, hl.behind _ h⟩

/-- What begins otherwise than a scalar is no lead. -/
theorem not_lead {byte : UInt8} {rest lead r s : List UInt8} (h : ¬ScalarMarker byte) (hlead : Lead EncodesScalar lead) :
    byte :: rest ++ r ≠ lead ++ s := by
  obtain ⟨byte', rest', rfl, hmarker⟩ := Lead.marker hlead
  intro hstream
  simp only [List.cons_append, List.cons.injEq] at hstream
  exact h (hstream.1 ▸ hmarker)

/-! ## Two readings -/

theorem follows_bytes {l : Lengths} (hl : l.Lawful) (value : List UInt8) :
    Follows EncodesScalar (EncodesBytes l value) (AcceptsBytes l value) := by
  apply Follows.apart
  · rintro _ lead r s ⟨hs, he, rfl⟩ hlead
    obtain ⟨byte, rest, rfl, hmarker⟩ := hl.marker he
    exact not_lead hmarker hlead
  · rintro _ _ r s st ⟨hs', ha, rfl⟩ ⟨hs, he, rfl⟩ hstream
    rw [List.append_assoc, List.append_assoc] at hstream
    rcases hl.compare he ha hstream (Nat.le_refl _) with ⟨rfl, _, rfl⟩ | ⟨hzero, _, lead, hlead, rfl⟩
    · exact .inl ⟨rfl, rfl⟩
    · rw [List.eq_nil_of_length_eq_zero hzero]
      exact .inr ⟨lead, hlead, by simp⟩

theorem follows_elements {α : Type} {l : Lengths} (hl : l.Lawful) {E : α → List UInt8 → Prop}
    {A : α → List UInt8 → Bool → Prop} (h : ∀ a, Follows EncodesScalar (E a) (A a)) (elements : List α) :
    Follows EncodesScalar (EncodesElements l E elements) (AcceptsElements l A elements) := by
  apply Follows.apart
  · rintro _ lead r s ⟨hs, es, he, _, rfl⟩ hlead
    obtain ⟨byte, rest, rfl, hmarker⟩ := hl.marker he
    rw [List.append_assoc]
    exact not_lead hmarker hlead
  · rintro _ _ r s st ha ⟨hs, es, he, hes, rfl⟩ hstream
    rcases ha with ⟨rest, rfl, rfl⟩ | ⟨hs', cs, st₁, st₂, ha, hcs, rfl, rfl⟩
    · -- the marker of a table is that of a number
      obtain ⟨byte, rest', rfl, hmarker⟩ := hl.marker he
      simp only [List.cons_append, List.cons.injEq] at hstream
      exact absurd (show ScalarMarker byte by rw [hstream.1]; decide) hmarker
    · rw [List.append_assoc, List.append_assoc] at hstream
      rcases hl.compare he ha hstream (Nat.le_refl _) with ⟨rfl, _, rfl⟩ | ⟨hzero, _, lead, hlead, rfl⟩
      · rcases (Follows.sequence elements fun a _ => h a).sync hcs hes (List.append_cancel_left hstream)
          with ⟨rfl, rfl⟩ | ⟨lead, hlead, rfl⟩
        · exact .inl ⟨rfl, rfl⟩
        · exact .inr ⟨lead, hlead, (List.append_assoc ..).symm⟩
      · obtain rfl := List.eq_nil_of_length_eq_zero hzero
        cases hes
        cases hcs
        exact .inr ⟨lead, hlead, by simp⟩

/-- A type without maps. -/
def Ty.mapFree : Ty → Bool
  | vector t  => t.mapFree
  | list t    => t.mapFree
  | array _ t => t.mapFree
  | map _ _ _ => false
  | pair s t  => s.mapFree && t.mapFree
  | _         => true

/-- A number that is the value, where one that is converted to it is read. -/
theorem follows_number {P : Number → Bool} {Q : Number → Prop} :
    Follows EncodesScalar (fun bs => ∃ x, EncodesNumber x bs ∧ P x = true)
      fun bs st => ∃ x, EncodesNumber x bs ∧ Q x ∧ st = P x := by
  apply Follows.word scalar_prefixFree
  · rintro bs ⟨x, hx, _⟩
    exact ⟨.inl x, hx⟩
  · rintro bs st ⟨x, hx, _⟩
    exact ⟨.inl x, hx⟩
  · rintro bs st ⟨x, hx, _, rfl⟩ ⟨y, hy, hholds⟩
    rwa [hx.unique hy]

theorem follows_bool (value : Bool) :
    Follows EncodesScalar (Encodes (.num .bool) value) (Accepts (.num .bool) value) := by
  apply Follows.word scalar_prefixFree
  · exact fun bs hbool => ⟨.inr value, hbool⟩
  · rintro bs st (⟨hbool, _⟩ | ⟨x, hx, _⟩)
    · exact ⟨.inr value, hbool⟩
    · exact ⟨.inl x, hx⟩
  · rintro _ st (⟨_, hst⟩ | ⟨x, hx, _⟩) rfl
    · exact hst
    · exact absurd hx (not_encodesNumber_packBool value)

theorem follows_nil : Follows EncodesScalar (fun bs => bs = packNil)
    fun bs st => ∃ byte, bs = [byte] ∧ st = decide (byte = Format.nil.code) := by
  apply Follows.apart
  · rintro _ lead r s rfl hlead
    have hnil : ¬ScalarMarker Format.nil.code := by
      unfold ScalarMarker
      decide
    exact @not_lead _ [] lead r s hnil hlead
  · rintro _ _ r s st ⟨byte, rfl, rfl⟩ rfl hstream
    simp only [packNil, List.cons_append, List.nil_append, List.cons.injEq] at hstream
    simp [packNil, ← hstream.1]

theorem follows_array {t : Ty} (h : ∀ a, Follows EncodesScalar (Encodes t a) (Accepts t a)) {size : Nat}
    (value : (Ty.array size t).Val) : Follows EncodesScalar (Encodes (.array size t) value) (Accepts (.array size t) value) := by
  have helements := follows_elements Lengths.array_lawful h value.val
  apply Follows.apart
  · rintro _ lead r s ⟨hs, es, he, _, rfl⟩ hlead
    obtain ⟨byte, rest, rfl, hmarker⟩ := Lengths.array_lawful.marker he
    rw [List.append_assoc]
    exact not_lead hmarker hlead
  · rintro cs es r s st ⟨vec, st', hall, hle, hval, rfl⟩ hes hstream
    by_cases hsize : vec.length = size
    · have hvec : value.val = vec := by
        rw [hval, hsize, Nat.sub_self]
        exact List.append_nil vec
      rw [decide_eq_true hsize, Bool.true_and]
      exact helements.sync (hvec ▸ hall) hes hstream
    · -- the encoding announces more elements than were read
      obtain ⟨hs, es, he, _, rfl⟩ := hes
      rcases hall with ⟨rest, rfl, rfl⟩ | ⟨hs', cs, st₁, st₂, ha, _, rfl, rfl⟩
      · obtain ⟨byte, rest', rfl, hmarker⟩ := Lengths.array_lawful.marker he
        simp only [List.cons_append, List.cons.injEq] at hstream
        exact absurd (show ScalarMarker byte by rw [hstream.1]; decide) hmarker
      · rw [List.append_assoc, List.append_assoc] at hstream
        have hlen : value.val.length = size := value.property
        have hle' : vec.length ≤ value.val.length := Nat.le_trans hle (Nat.le_of_eq hlen.symm)
        rcases Lengths.array_lawful.compare he ha hstream hle' with ⟨_, heq, _⟩ | ⟨hzero, hzero', _⟩
        · exact absurd (heq.symm.trans hlen) hsize
        · exact absurd ((hzero'.trans hzero.symm).trans hlen) hsize

/-- **The two readings of a value of any type without maps.** -/
theorem follows : ∀ t : Ty, t.mapFree = true → ∀ value : t.Val, Follows EncodesScalar (Encodes t value) (Accepts t value)
  | .num .bool,     _, value => follows_bool value
  | .num (.int _),  _, _     => follows_number
  | .num .float,    _, _     => follows_number
  | .num .double,   _, _     => follows_number
  | .enum t,        _, value => by
    refine (follows_number (P := (NumType.int t).holds value) (Q := fun x => ∃ v, (NumType.int .int32).cast x = some v ∧
      value = t.wrap v.val)).mono (fun _ he => he) ?_
    rintro bs st ⟨x, v, hx, hcast, hvalue, hst⟩
    exact ⟨x, hx, ⟨v, hcast, hvalue⟩, hst⟩
  | .nullptr,       _, _     => follows_nil
  | .string,        _, value => follows_bytes Lengths.string_lawful value
  | .binary,        _, value => follows_bytes Lengths.binary_lawful value
  | .vector t,      h, value => follows_elements Lengths.array_lawful (follows t h) value
  | .list t,        h, value => follows_elements Lengths.array_lawful (follows t h) value
  | .array size t,  h, value => follows_array (follows t h) value
  | .unit,          _, _     => Follows.nothing
  | .pair s t,      h, value =>
    have h := Bool.and_eq_true_iff.1 h
    (follows s h.1 value.1).append (follows t h.2 value.2)

/-! ## Whole messages -/

/-- What a message was consumed for, without an error, is encoded in what was consumed. -/
def SoundDecode (b : Buffer) (t : Ty) : Prop :=
  ∀ value u, unpack b t = .ok value u → u.ec = false → Encodes t value (b.bytes.take u.dataPointer)

/-- The message begins with bytes that are accepted as an encoding in every part: each marker is one of the family, each
length stands in its marker or in one byte, each number is one that the type holds, nil is nil, an array is whole. -/
def Begins (b : Buffer) (t : Ty) : Prop := ∃ value bs, Accepts t value bs true ∧ bs <+: b.bytes

/-- If the message is taken without an error, it begins as an encoding. -/
def StrictRun (b : Buffer) (t : Ty) : Prop := (∃ value u, unpack b t = .ok value u ∧ u.ec = false) → Begins b t

theorem unpack_accepts {b : Buffer} {t : Ty} {value : t.Val} {u : Unpacker} (h : unpack b t = .ok value u)
    (hec : u.ec = false) : ∃ st, Accepts t value (b.bytes.take u.dataPointer) st := by
  obtain ⟨bs, st, ⟨hpos, hprefix⟩, ha⟩ := (Parses.unpackType t).parses trivial (Nat.zero_le _) h hec
  have hbs : bs = b.bytes.take u.dataPointer := by
    have hzero : ({} : Unpacker).dataPointer = 0 := rfl
    rw [hzero, Nat.zero_add] at hpos
    rw [hpos]
    exact List.prefix_iff_eq_take.1 hprefix
  exact ⟨st, hbs ▸ ha⟩

/-- A message that begins as an encoding is decoded to the value that is encoded there. -/
theorem Begins.unpack {b : Buffer} {t : Ty} (h : Begins b t) :
    ∃ value u, Msgpack.unpack b t = .ok value u ∧ u.ec = false ∧ Encodes t value (b.bytes.take u.dataPointer) := by
  obtain ⟨value, bs, ha, hprefix⟩ := h
  obtain ⟨u, hu, hpos, hec⟩ := decodes_accepts (b := b) t value bs ha {} (Nat.zero_le _) hprefix
  refine ⟨value, u, hu, hec, ?_⟩
  rw [hpos, Nat.zero_add, ← List.prefix_iff_eq_take.1 hprefix]
  exact ha.encodes

theorem SoundDecode.of_strict {b : Buffer} {t : Ty} (h : StrictRun b t) : SoundDecode b t := by
  intro value u hu hec
  obtain ⟨value', u', hu', _, he⟩ := (h ⟨value, u, hu, hec⟩).unpack
  cases hu'.symm.trans hu
  exact he

theorem SoundDecode.strict {b : Buffer} {t : Ty} (ht : t.mapFree = true) (h : SoundDecode b t) : StrictRun b t := by
  rintro ⟨value, u, hu, hec⟩
  have he := h value u hu hec
  obtain ⟨st, ha⟩ := unpack_accepts hu hec
  rcases (follows t ht value).sync (r := []) (s := []) ha he rfl with ⟨rfl, _⟩ | ⟨lead, hlead, heq⟩
  · exact ⟨value, _, ha, List.take_prefix _ _⟩
  · -- both readings end with what was consumed
    have hnil : lead = [] := List.self_eq_append_right.1 heq
    exact absurd hnil (hlead.ne_nil fun x hx => by
      obtain ⟨_, _, hcons, _⟩ := hx.marker
      cases hcons)

/-- **When what is consumed without an error is an encoding of the values returned**: when the message begins as one, and
then it is taken for its values; and, of types without maps, only then. -/
theorem soundDecode_iff (b : Buffer) (t : Ty) :
    (Begins b t → ∃ value u, unpack b t = .ok value u ∧ u.ec = false ∧ Encodes t value (b.bytes.take u.dataPointer)) ∧
      (StrictRun b t → SoundDecode b t) ∧ (t.mapFree = true → (SoundDecode b t ↔ StrictRun b t)) :=
  ⟨Begins.unpack, SoundDecode.of_strict, fun ht => ⟨SoundDecode.strict ht, SoundDecode.of_strict⟩⟩

/-- A number is taken for nil, and no error is set. -/
theorem not_soundDecode : ¬∀ (b : Buffer) (t : Ty), SoundDecode b t := by
  intro h
  let b : Buffer := .ofBytes [0x05] (by decide)
  have hnil : [0x05] = packNil := h b .nullptr () ⟨1, false, [.marker .nil 0x05]⟩ rfl rfl
  exact absurd hnil (by decide)

end Gb.Msgpack
