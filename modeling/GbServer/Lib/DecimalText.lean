import GbServer.Lib.FloatNearest
import GbServer.Lib.FloatWiden
import Mathlib.Data.Nat.Digits.Defs
/-!
# DecimalText — binary64 numbers as text, and back

`strtod` of C, in the `C` locale, and what `%f` writes.  Reading what `%f` has written gives a number that `%f` writes the same
(`strtod_percentF`); it is the number itself only where six decimals are enough for it.
-/
namespace DecimalText

open FloatBits

/-! ## What `%f` writes -/

def digitChar (d : Nat) : Char := Char.ofNat (48 + d)

/-- The digits of a number, the last ones first, at least `least` of them. -/
def padded (least n : Nat) : List Nat := Nat.digits 10 n ++ List.replicate (least - (Nat.digits 10 n).length) 0

/-- A number of units of `10 ^ -decimals`. -/
def fixed (decimals n : Nat) : List Char :=
  let ds := padded (decimals + 1) n
  (ds.drop decimals).reverse.map digitChar ++ '.' :: (ds.take decimals).reverse.map digitChar

/-- A pattern without its sign, to six decimals, ties to even. -/
def unsignedF (abs : Nat) : List Char :=
  if abs < binary64.infinity then fixed 6 (roundDiv (binary64.magnitude abs * 10 ^ 6) (2 ^ binary64.places))
  else if abs = binary64.infinity then ['i', 'n', 'f']
  else ['n', 'a', 'n']

/-- `%f`. -/
def percentF (bits : Nat) : List Char :=
  (if binary64.negative bits then ['-'] else []) ++ unsignedF (binary64.absolute bits)

/-! ## What `strtod` reads -/

def isSpace (c : Char) : Bool := c.toNat = 32 || (9 ≤ c.toNat && c.toNat ≤ 13)

/-- The value of a digit to a base. -/
def digit (base : Nat) (c : Char) : Option Nat :=
  let value :=
    if 48 ≤ c.toNat ∧ c.toNat ≤ 57 then c.toNat - 48
    else if 97 ≤ c.toNat ∧ c.toNat ≤ 122 then c.toNat - 87
    else if 65 ≤ c.toNat ∧ c.toNat ≤ 90 then c.toNat - 55
    else base
  if value < base then some value else none

/-- The digits in front, and the rest. -/
def digits (base : Nat) : List Char → List Nat × List Char
  | []     => ([], [])
  | c :: s =>
    match digit base c with
    | some d => (d :: (digits base s).1, (digits base s).2)
    | none   => ([], c :: s)

def ofDigits (base : Nat) (ds : List Nat) : Nat := Nat.ofDigits base ds.reverse

/-- A sign, if there is one; `true` is minus. -/
def sign : List Char → Bool × List Char
  | []     => (false, [])
  | c :: s => if c = '-' then (true, s) else if c = '+' then (false, s) else (false, c :: s)

/-- The digits behind a point, if there is one. -/
def fraction (base : Nat) : List Char → List Nat × List Char
  | []     => ([], [])
  | c :: s => if c = '.' then digits base s else ([], c :: s)

/-- Digits with a point among them: their number, how many are behind the point, and the rest. -/
def mantissa (base : Nat) (s : List Char) : Option (Nat × Nat × List Char) :=
  let (whole, s) := digits base s
  let (behind, s) := fraction base s
  if whole = [] ∧ behind = [] then none else some (ofDigits base (whole ++ behind), behind.length, s)

/-- An exponent, if there is one. -/
def exponent (mark : Char) : List Char → Int × List Char
  | []     => (0, [])
  | c :: s =>
    if c.toLower = mark then
      let (neg, digitsOn) := sign s
      match digits 10 digitsOn with
      | ([], _)    => (0, c :: s)
      | (ds, rest) => (if neg then -(ofDigits 10 ds : Int) else ofDigits 10 ds, rest)
    else (0, c :: s)

/-- `n * base ^ e` as the pattern nearest to it. -/
def scaled (n base : Nat) (e : Int) : Nat :=
  binary64.nearest (n * base ^ e.toNat * 2 ^ binary64.places) (base ^ (-e).toNat)

def decimal (s : List Char) : Option (Nat × List Char) :=
  match mantissa 10 s with
  | some (n, behind, s) => some (scaled n 10 ((exponent 'e' s).1 - behind), (exponent 'e' s).2)
  | none                => none

def hexadecimal : List Char → Option (Nat × List Char)
  | zero :: x :: s =>
    if zero = '0' ∧ x.toLower = 'x' then
      match mantissa 16 s with
      | some (n, behind, s) => some (scaled n 2 ((exponent 'p' s).1 - 4 * behind), (exponent 'p' s).2)
      | none                => none
    else none
  | _              => none

/-- The rest behind a word, in lower or upper case. -/
def afterWord (word s : List Char) : Option (List Char) :=
  if (s.take word.length).map Char.toLower = word then some (s.drop word.length) else none

/-- The rest behind the parenthesis of a NaN, if there is one. -/
def afterPayload (s : List Char) : List Char :=
  match s with
  | c :: t =>
    let rest := t.dropWhile fun x => x.isAlphanum || x = '_'
    if c = '(' ∧ rest.head? = some ')' then rest.tail else s
  | []     => []

def special (s : List Char) : Option (Nat × List Char) :=
  match afterWord ['i', 'n', 'f', 'i', 'n', 'i', 't', 'y'] s, afterWord ['i', 'n', 'f'] s, afterWord ['n', 'a', 'n'] s with
  | some rest, _,         _         => some (binary64.infinity, rest)
  | none,      some rest, _         => some (binary64.infinity, rest)
  | none,      none,      some rest => some (binary64.infinity + 2 ^ (binary64.fraction - 1), afterPayload rest)
  | none,      none,      none      => none

/-- `strtod`: the number and what comes behind it, or nothing, where no number begins. -/
def strtod (s : List Char) : Option (Nat × List Char) :=
  let (neg, s) := sign (s.dropWhile isSpace)
  (((special s).or (hexadecimal s)).or (decimal s)).map fun r => (binary64.withSign neg r.1, r.2)

/-! ## Digits -/

theorem digitChar_toNat {d : Nat} (hd : d < 10) : (digitChar d).toNat = 48 + d := by
  have hall : ∀ d < 10, (digitChar d).toNat = 48 + d := by decide
  exact hall d hd

theorem digit_digitChar {base d : Nat} (hd : d < 10) (hbase : 10 ≤ base) : digit base (digitChar d) = some d := by
  have hrange : 48 ≤ 48 + d ∧ 48 + d ≤ 57 := ⟨by omega, by omega⟩
  unfold digit
  dsimp only
  rw [digitChar_toNat hd, if_pos hrange, Nat.add_sub_cancel_left, if_pos (by omega)]

theorem digits_map {base : Nat} (hbase : 10 ≤ base) {rest : List Char} (hrest : digits base rest = ([], rest)) :
    ∀ {ds : List Nat}, (∀ d ∈ ds, d < 10) → digits base (ds.map digitChar ++ rest) = (ds, rest)
  | [],      _ => hrest
  | d :: ds, h => by
    rw [List.map_cons, List.cons_append, digits, digit_digitChar (h d List.mem_cons_self) hbase,
      digits_map hbase hrest fun d hd => h d (List.mem_cons_of_mem _ hd)]

theorem padded_lt (least n : Nat) : ∀ d ∈ padded least n, d < 10 := by
  intro d hd
  rcases List.mem_append.1 hd with hd | hd
  · exact Nat.digits_lt_base (by decide) hd
  · rw [List.eq_of_mem_replicate hd]
    decide

theorem ofDigits_padded (least n : Nat) : Nat.ofDigits 10 (padded least n) = n := by
  unfold padded
  rw [Nat.ofDigits_append_replicate_zero, Nat.ofDigits_digits]

theorem length_padded (least n : Nat) : least ≤ (padded least n).length := by
  unfold padded
  rw [List.length_append, List.length_replicate]
  omega

theorem ofDigits_fixed (decimals n : Nat) :
    ofDigits 10 (((padded (decimals + 1) n).drop decimals).reverse ++ ((padded (decimals + 1) n).take decimals).reverse) = n := by
  unfold ofDigits
  rw [← List.reverse_append, List.take_append_drop, List.reverse_reverse, ofDigits_padded]

/-! ## What was written is read -/

theorem mantissa_eq {base : Nat} {s s' rest : List Char} {whole behind : List Nat} (hwhole : digits base s = (whole, s'))
    (hbehind : fraction base s' = (behind, rest)) (hne : whole ≠ []) :
    mantissa base s = some (ofDigits base (whole ++ behind), behind.length, rest) := by
  simp [mantissa, hwhole, hbehind, hne]

/-- What `fixed` writes is all read, as a mantissa. -/
theorem mantissa_fixed (decimals n : Nat) : mantissa 10 (fixed decimals n) = some (n, decimals, []) := by
  have hwhole : ∀ d ∈ ((padded (decimals + 1) n).drop decimals).reverse, d < 10 := fun d hd =>
    padded_lt _ _ d (List.mem_of_mem_drop (List.mem_reverse.1 hd))
  have hbehind : ∀ d ∈ ((padded (decimals + 1) n).take decimals).reverse, d < 10 := fun d hd =>
    padded_lt _ _ d (List.mem_of_mem_take (List.mem_reverse.1 hd))
  have hlength := length_padded (decimals + 1) n
  have hall := ofDigits_fixed decimals n
  have hpoint (s : List Char) : digits 10 ('.' :: s) = ([], '.' :: s) := rfl
  have hread := digits_map (Nat.le_refl 10) (rfl : digits 10 [] = ([], [])) hbehind
  rw [List.append_nil] at hread
  have hne : ((padded (decimals + 1) n).drop decimals).reverse ≠ [] := by
    intro hnil
    have hzero := congrArg List.length hnil
    rw [List.length_reverse, List.length_drop, List.length_nil] at hzero
    omega
  rw [fixed, mantissa_eq (digits_map (Nat.le_refl 10) (hpoint _) hwhole) hread hne, hall, List.length_reverse,
    List.length_take, Nat.min_eq_left (by omega)]

/-- What `fixed` writes begins with a digit, and then there is another one or the point. -/
theorem fixed_cons (decimals n : Nat) : ∃ d, d < 10 ∧ ∃ c s, fixed decimals n = digitChar d :: c :: s ∧
    (c = '.' ∨ ∃ d' < 10, c = digitChar d') := by
  have hlt : ∀ d ∈ ((padded (decimals + 1) n).drop decimals).reverse, d < 10 := fun d hd =>
    padded_lt _ _ d (List.mem_of_mem_drop (List.mem_reverse.1 hd))
  have hlength := length_padded (decimals + 1) n
  unfold fixed
  dsimp only
  cases hwhole : ((padded (decimals + 1) n).drop decimals).reverse with
  | nil       =>
    have hzero := congrArg List.length hwhole
    rw [List.length_reverse, List.length_drop, List.length_nil] at hzero
    omega
  | cons d ds =>
    rw [hwhole] at hlt
    refine ⟨d, hlt d List.mem_cons_self, ?_⟩
    cases ds with
    | nil        => exact ⟨'.', _, rfl, .inl rfl⟩
    | cons d' ds =>
      exact ⟨digitChar d', _, rfl, .inr ⟨d', hlt d' (List.mem_cons_of_mem _ List.mem_cons_self), rfl⟩⟩

/-- A number that begins with a digit is no word and has no other base. -/
theorem special_fixed (decimals n : Nat) : special (fixed decimals n) = none ∧ hexadecimal (fixed decimals n) = none := by
  obtain ⟨d, hd, c, s, heq, hc⟩ := fixed_cons decimals n
  have hlower : ∀ d < 10, (digitChar d).toLower = digitChar d ∧ digitChar d ≠ 'i' ∧ digitChar d ≠ 'n' ∧
      (digitChar d).toLower ≠ 'x' := by decide
  obtain ⟨hsame, hi, hn, -⟩ := hlower d hd
  rw [heq]
  constructor
  · unfold special afterWord
    simp [hsame, hi, hn]
  · have hx : c.toLower ≠ 'x' := by
      rcases hc with rfl | ⟨d', hd', rfl⟩
      · decide
      · exact (hlower d' hd').2.2.2
    unfold hexadecimal
    exact if_neg fun h => hx h.2

theorem decimal_fixed (n : Nat) :
    decimal (fixed 6 n) = some (binary64.nearest (n * 2 ^ binary64.places) (10 ^ 6), []) := by
  unfold decimal
  rw [mantissa_fixed]
  dsimp only [exponent, scaled]
  have hexponent : ((0 : Int) - (6 : Nat)).toNat = 0 ∧ (-((0 : Int) - (6 : Nat))).toNat = 6 := by decide
  rw [hexponent.1, hexponent.2, Nat.pow_zero, Nat.mul_one]

/-- What `strtod` makes of a text behind its sign. -/
theorem strtod_sign (neg : Bool) {c : Char} {s : List Char} (hspace : isSpace c = false) (hminus : c ≠ '-') (hplus : c ≠ '+') :
    strtod ((if neg then ['-'] else []) ++ c :: s) =
      (((special (c :: s)).or (hexadecimal (c :: s))).or (decimal (c :: s))).map
        fun r => (binary64.withSign neg r.1, r.2) := by
  unfold strtod
  cases neg with
  | false =>
    have hdrop : ((if false = true then ['-'] else []) ++ c :: s).dropWhile isSpace = c :: s :=
      List.dropWhile_cons_of_neg (by rw [hspace]; exact Bool.false_ne_true)
    rw [hdrop, sign, if_neg hminus, if_neg hplus]
  | true  =>
    have hdrop : ((if true = true then ['-'] else []) ++ c :: s).dropWhile isSpace = '-' :: c :: s :=
      List.dropWhile_cons_of_neg (by decide)
    rw [hdrop, sign, if_pos rfl]

/-- What is written of a pattern without its sign is read as one that is written the same. -/
theorem read_unsignedF (abs : Nat) : ∃ abs' < binary64.signBit, unsignedF abs' = unsignedF abs ∧
    ((special (unsignedF abs)).or (hexadecimal (unsignedF abs))).or (decimal (unsignedF abs)) = some (abs', []) := by
  have hsign := binary64.infinity_lt_signBit (by decide)
  by_cases hfinite : abs < binary64.infinity
  · have hplaces : binary64.places + 3 < 2 ^ binary64.exponent := by decide
    have hten : 0 < 10 ^ 6 := by decide
    have hlt := binary64.nearest_roundDiv_lt hten hfinite hplaces
    have hsame := binary64.roundDiv_nearest hten hlt
    refine ⟨_, Nat.lt_trans hlt hsign, ?_, ?_⟩
    · unfold unsignedF
      rw [if_pos hfinite, if_pos hlt, hsame]
    · obtain ⟨hspecial, hhexadecimal⟩ := special_fixed 6
        (roundDiv (binary64.magnitude abs * 10 ^ 6) (2 ^ binary64.places))
      unfold unsignedF
      rw [if_pos hfinite, hspecial, hhexadecimal, decimal_fixed]
      rfl
  · by_cases hinfinite : abs = binary64.infinity
    · refine ⟨binary64.infinity, hsign, by rw [hinfinite], ?_⟩
      unfold unsignedF
      rw [if_neg hfinite, if_pos hinfinite]
      rfl
    · refine ⟨binary64.infinity + 2 ^ (binary64.fraction - 1), by decide, ?_, ?_⟩
      · unfold unsignedF
        rw [if_neg hfinite, if_neg hinfinite, if_neg (by decide), if_neg (by decide)]
      · unfold unsignedF
        rw [if_neg hfinite, if_neg hinfinite]
        rfl

/-- It begins with neither a space nor a sign. -/
theorem unsignedF_cons (abs : Nat) :
    ∃ c s, unsignedF abs = c :: s ∧ isSpace c = false ∧ c ≠ '-' ∧ c ≠ '+' := by
  unfold unsignedF
  split
  · obtain ⟨d, hd, c, s, heq, -⟩ := fixed_cons 6 (roundDiv (binary64.magnitude abs * 10 ^ 6) (2 ^ binary64.places))
    have hall : ∀ d < 10, isSpace (digitChar d) = false ∧ digitChar d ≠ '-' ∧ digitChar d ≠ '+' := by decide
    exact ⟨digitChar d, c :: s, heq, hall d hd⟩
  · split
    · exact ⟨'i', _, rfl, by decide⟩
    · exact ⟨'n', _, rfl, by decide⟩

/-- **What `%f` has written is all read, as a number that `%f` writes the same.** -/
theorem strtod_percentF (bits : Nat) :
    ∃ bits', strtod (percentF bits) = some (bits', []) ∧ percentF bits' = percentF bits := by
  obtain ⟨abs', habs', hsame, hread⟩ := read_unsignedF (binary64.absolute bits)
  obtain ⟨c, s, hcons, hspace, hminus, hplus⟩ := unsignedF_cons (binary64.absolute bits)
  refine ⟨binary64.withSign (binary64.negative bits) abs', ?_, ?_⟩
  · unfold percentF
    rw [hcons] at hread ⊢
    rw [strtod_sign _ hspace hminus hplus, hread]
    rfl
  · unfold percentF
    rw [binary64.negative_withSign _ habs', binary64.absolute_withSign _ habs', hsame]

/-- What `%f` has written. -/
def Printed (s : List Char) : Prop := ∃ bits, s = percentF bits

/-- A text is that of its number exactly if it has been printed. -/
theorem percentF_eq_iff {s : List Char} {bits : Nat} (h : strtod s = some (bits, [])) : percentF bits = s ↔ Printed s := by
  constructor
  · exact fun heq => ⟨bits, heq.symm⟩
  · rintro ⟨bits', rfl⟩
    obtain ⟨bits'', hread, hsame⟩ := strtod_percentF bits'
    obtain ⟨rfl, -⟩ := Prod.mk.inj (Option.some.inj (h.symm.trans hread))
    exact hsame

/-- What is printed of a number is a word, or has a point six places before its end. -/
theorem Printed.point {s : List Char} (h : Printed s) :
    s.reverse[6]? = some '.' ∨ ['i', 'n', 'f'] <:+ s ∨ ['n', 'a', 'n'] <:+ s := by
  obtain ⟨bits, rfl⟩ := h
  unfold percentF
  generalize (if binary64.negative bits = true then ['-'] else []) = minus
  unfold unsignedF
  split
  · refine .inl ?_
    generalize roundDiv (binary64.magnitude (binary64.absolute bits) * 10 ^ 6) (2 ^ binary64.places) = n
    have hlength := length_padded 7 n
    have hbehind : (((padded 7 n).take 6).map digitChar).length = 6 := by
      rw [List.length_map, List.length_take, Nat.min_eq_left (by omega)]
    have hreverse : (fixed 6 n).reverse =
        ((padded 7 n).take 6).map digitChar ++ '.' :: ((padded 7 n).drop 6).map digitChar := by
      unfold fixed
      simp
    rw [List.reverse_append, hreverse, List.append_assoc, List.getElem?_append_right (Nat.le_of_eq hbehind), hbehind]
    rfl
  · split
    · exact .inr (.inl (List.suffix_append _ _))
    · exact .inr (.inr (List.suffix_append _ _))

example : strtod "0.1".toList = some (0x3FB999999999999A, []) ∧ percentF 0x3FB999999999999A = "0.100000".toList := by
  decide +kernel

end DecimalText
