import GbServer.MessageMeta
import Mathlib.Data.List.TakeWhile
/-!
# NatsInbox — payloads, and the names of inboxes

`BuildPayload`, `GenInbox` and `ParseInboxWorkerIndex` of `NatsManager` (`nats_manager.cpp`).  A payload is the meta and the
body behind it (`splitPayload_buildPayload`).  The inbox of a request says the index of the worker that made it and its
number there, and nothing else: two names are the same exactly if both are (`genInbox_inj`), and the index is read back
(`parseInboxWorkerIndex_genInbox`).
-/
namespace Gb

abbrev Inbox := List Char

namespace NatsManager

/-- `BuildPayload`. -/
def buildPayload (m : Meta) (body : List UInt8) : List UInt8 := m.raw ++ body

/-- The meta and the body that a task takes from a payload. -/
def splitPayload (payload : List UInt8) : Meta × List UInt8 :=
  if metaStructSize ≤ payload.length then
    (Meta.init.copyIn (payload.take metaStructSize), payload.drop metaStructSize)
  else (Meta.init, [])

theorem splitPayload_buildPayload (m : Meta) (body : List UInt8) : splitPayload (buildPayload m body) = (m, body) := by
  have hlength := m.raw_length
  rw [splitPayload, buildPayload, if_pos (by rw [List.length_append, hlength]; omega), ← hlength, List.take_left,
    List.drop_left, Meta.copyIn_raw]

/-- `GenInbox`, with the index of the current worker (0 where there is none) and the value of `inbox_seq`. -/
def genInbox (workerIndex seq : Nat) : Inbox :=
  "_INBOX.W".toList ++ (Nat.toDigits 10 workerIndex ++ (".N".toList ++ Nat.toDigits 10 seq))

/-- What stands before the first dot that `c` follows, and what stands behind both. -/
def splitAtDot (c : Char) : List Char → Option (List Char × List Char)
  | []        => none
  | x :: text =>
    if x = '.' ∧ text.head? = some c then some ([], text.tail)
    else (splitAtDot c text).map fun parts => (x :: parts.1, parts.2)

/-- `std::stoul`; `none` where it throws. -/
def stoul (text : List Char) : Option Nat :=
  let text := text.dropWhile fun c => c == ' ' || 9 ≤ c.toNat && c.toNat ≤ 13
  let digits := (if text.head? = some '-' ∨ text.head? = some '+' then text.tail else text).takeWhile Char.isDigit
  let n := Nat.ofDigitChars 10 digits 0
  if digits = [] ∨ 2 ^ 64 ≤ n then none
  else some (if text.head? = some '-' then (2 ^ 64 - n) % 2 ^ 64 else n)

def parseInboxWorkerIndex (inbox : Inbox) : Option Nat :=
  match splitAtDot 'W' inbox with
  | none           => some 0
  | some (_, text) =>
    match splitAtDot 'N' text with
    | none            => some 0
    | some (index, _) => (stoul index).map fun n => n % 2 ^ 32

theorem splitAtDot_append {c : Char} : ∀ {pre : List Char} (text : List Char), '.' ∉ pre →
    splitAtDot c (pre ++ '.' :: c :: text) = some (pre, text)
  | [],       text, _ => by simp [splitAtDot]
  | x :: pre, text, h => by
    rw [List.mem_cons, not_or] at h
    rw [List.cons_append, splitAtDot, if_neg fun hand => h.1 hand.1.symm, splitAtDot_append text h.2]
    rfl

theorem dot_not_mem_toDigits (n : Nat) : '.' ∉ Nat.toDigits 10 n := fun hmem =>
  absurd (Nat.isDigit_of_mem_toDigits (by decide) (by decide) hmem) (by decide)

theorem toDigits_inj {m n : Nat} (h : Nat.toDigits 10 m = Nat.toDigits 10 n) : m = n := by
  have hm := Nat.ofDigitChars_toDigits (b := 10) (n := m) (by decide) (by decide)
  rw [h, Nat.ofDigitChars_toDigits (by decide) (by decide)] at hm
  exact hm.symm

/-- The index and the number make the name. -/
theorem genInbox_inj {workerIndex seq workerIndex' seq' : Nat} :
    genInbox workerIndex seq = genInbox workerIndex' seq' ↔ workerIndex = workerIndex' ∧ seq = seq' := by
  constructor
  · intro h
    have hsplit := congrArg (splitAtDot 'N') (List.append_cancel_left h)
    have hparts : ∀ w s, splitAtDot 'N' (Nat.toDigits 10 w ++ (".N".toList ++ Nat.toDigits 10 s)) =
        some (Nat.toDigits 10 w, Nat.toDigits 10 s) :=
      fun w s => splitAtDot_append _ (dot_not_mem_toDigits w)
    rw [hparts, hparts, Option.some.injEq, Prod.mk.injEq] at hsplit
    exact ⟨toDigits_inj hsplit.1, toDigits_inj hsplit.2⟩
  · rintro ⟨rfl, rfl⟩
    rfl

theorem stoul_toDigits {n : Nat} (h : n < 2 ^ 64) : stoul (Nat.toDigits 10 n) = some n := by
  have hdigit : ∀ c ∈ Nat.toDigits 10 n, c.isDigit = true := fun c => Nat.isDigit_of_mem_toDigits (by decide) (by decide)
  have hne : Nat.toDigits 10 n ≠ [] := Nat.toDigits_ne_nil
  obtain ⟨c, rest, hcons⟩ := List.exists_cons_of_ne_nil hne
  have hc : 48 ≤ c.toNat ∧ c.toNat ≤ 57 := Char.isDigit_iff_toNat.1 (hdigit c (hcons ▸ List.mem_cons_self))
  have hdrop : (Nat.toDigits 10 n).dropWhile (fun c => c == ' ' || 9 ≤ c.toNat && c.toNat ≤ 13) = Nat.toDigits 10 n := by
    have hspace : c ≠ ' ' := fun heq => absurd hc.1 (by rw [heq]; decide)
    rw [hcons, List.dropWhile_cons_of_neg]
    simp only [Bool.or_eq_true, beq_iff_eq, hspace, Bool.and_eq_true, decide_eq_true_eq, false_or]
    omega
  have hsign : ¬((Nat.toDigits 10 n).head? = some '-' ∨ (Nat.toDigits 10 n).head? = some '+') := by
    rw [hcons, List.head?_cons, Option.some.injEq, Option.some.injEq]
    rintro (rfl | rfl)
    · exact absurd hc.1 (by decide)
    · exact absurd hc.1 (by decide)
  have htake : (Nat.toDigits 10 n).takeWhile Char.isDigit = Nat.toDigits 10 n := List.takeWhile_eq_self_iff.2 hdigit
  have hvalue : Nat.ofDigitChars 10 (Nat.toDigits 10 n) 0 = n := Nat.ofDigitChars_toDigits (by decide) (by decide)
  simp only [stoul, hdrop, if_neg hsign, htake, hvalue]
  rw [if_neg (not_or.2 ⟨hne, Nat.not_le.2 h⟩), if_neg fun hminus => hsign (.inl hminus)]

/-- A reply is posted to the worker that made the request. -/
theorem parseInboxWorkerIndex_genInbox {workerIndex : Nat} (h : workerIndex < 2 ^ 32) (seq : Nat) :
    parseInboxWorkerIndex (genInbox workerIndex seq) = some workerIndex := by
  have hw : splitAtDot 'W' (genInbox workerIndex seq) =
      some ("_INBOX".toList, Nat.toDigits 10 workerIndex ++ (".N".toList ++ Nat.toDigits 10 seq)) :=
    splitAtDot_append _ (show '.' ∉ "_INBOX".toList by decide)
  have hn : splitAtDot 'N' (Nat.toDigits 10 workerIndex ++ (".N".toList ++ Nat.toDigits 10 seq)) =
      some (Nat.toDigits 10 workerIndex, Nat.toDigits 10 seq) := splitAtDot_append _ (dot_not_mem_toDigits workerIndex)
  simp only [parseInboxWorkerIndex, hw, hn, stoul_toDigits (Nat.lt_trans h (by decide)), Option.map_some, Nat.mod_eq_of_lt h]

end NatsManager

end Gb
