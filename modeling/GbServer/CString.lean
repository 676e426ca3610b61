import Mathlib.Data.List.TakeWhile
/-!
# CString — what a C string shows of a text

`c_str()` hands on all of a `std::string`; who reads it as a C string reads up to the first zero byte.
-/
namespace Gb

/-- What `c_str` shows of a string. -/
def cStr (text : List Char) : List Char := text.takeWhile fun c => c != Char.ofNat 0

theorem zero_notMem_cStr (text : List Char) : Char.ofNat 0 ∉ cStr text := fun hmem => by
  simpa using List.mem_takeWhile_imp hmem

theorem cStr_eq_self {text : List Char} (h : Char.ofNat 0 ∉ text) : cStr text = text :=
  List.takeWhile_eq_self_iff.2 fun _ hc => bne_iff_ne.2 fun heq => h (heq ▸ hc)

theorem cStr_append {p : List Char} (hp : Char.ofNat 0 ∉ p) (text : List Char) : cStr (p ++ text) = p ++ cStr text :=
  List.takeWhile_append_of_pos fun _ hc => bne_iff_ne.2 fun heq => hp (heq ▸ hc)

theorem length_cStr_lt {p : List Char} (hp : Char.ofNat 0 ∈ p) : (cStr p).length < p.length := by
  refine Nat.lt_of_le_of_ne (List.takeWhile_prefix _).length_le fun hlen => ?_
  have hself : cStr p = p := (List.takeWhile_prefix _).eq_of_length hlen
  simpa using List.takeWhile_eq_self_iff.1 hself _ hp

theorem cStr_append_of_mem {p : List Char} (hp : Char.ofNat 0 ∈ p) (text : List Char) : cStr (p ++ text) = cStr p := by
  have hlen := length_cStr_lt hp
  rw [cStr] at hlen
  rw [cStr, List.takeWhile_append, if_neg (Nat.ne_of_lt hlen)]
  rfl

end Gb
