import Mathlib.Data.List.Basic
import Mathlib.Tactic.Common
/-!
# Framing — length-prefixed frames on a stream of symbols

A stream carries frames, each a header of fixed length followed by a body whose length the header announces.  The
reader `feed` consumes one symbol at a time; its state is what a receiver must remember between two symbols.  Reading
a stream in pieces is reading it whole (`feed_append`, `feedAll_eq`), so every cut of a stream gives the same frames,
and a concatenation of frames gives back exactly these frames and the state between frames (`feed_frames`).

A header that the format refuses puts the reader in `failed` for good (`feed_failed`).
-/
namespace Framing

variable {α H E : Type}

/-- A length-prefixed format: how long a header is, and what its symbols announce, which is the header and the length
of its body, or the reason it is refused. -/
structure Format (α H E : Type) where
  headerLen : Nat
  headerLen_pos : 0 < headerLen
  decode : List α → Except E (H × Nat)

/-- What a reader remembers: the symbols of a header that is not complete, or a header with the symbols of its body
that are still not all there, or the reason the stream was refused. -/
inductive State (α H E : Type)
  | header (got : List α)
  | body (h : H) (len : Nat) (got : List α)
  | failed (e : E)

/-- A frame as the reader hands it out: its header and the symbols of its body. -/
abbrev Out (α H : Type) := H × List α

/-- The state after a complete header.  A frame with an empty body ends there. -/
def afterHeader (F : Format α H E) (hdr : List α) : State α H E × List (Out α H) :=
  match F.decode hdr with
  | .error e => (.failed e, [])
  | .ok (h, 0) => (.header [], [(h, [])])
  | .ok (h, n + 1) => (.body h (n + 1) [], [])

/-- One symbol. -/
def step (F : Format α H E) : State α H E → α → State α H E × List (Out α H)
  | .header got, a =>
    if got.length + 1 < F.headerLen then (.header (got ++ [a]), []) else afterHeader F (got ++ [a])
  | .body h n got, a => if got.length + 1 < n then (.body h n (got ++ [a]), []) else (.header [], [(h, got ++ [a])])
  | .failed e, _ => (.failed e, [])

/-- Symbols one after another, with the frames that end among them. -/
def feed (F : Format α H E) : State α H E → List α → State α H E × List (Out α H)
  | s, [] => (s, [])
  | s, a :: as => ((feed F (step F s a).1 as).1, (step F s a).2 ++ (feed F (step F s a).1 as).2)

variable (F : Format α H E)

@[simp] theorem feed_nil (s : State α H E) : feed F s [] = (s, []) := rfl

/-- **Reading in two pieces is reading the whole.** -/
theorem feed_append : ∀ (s : State α H E) (xs ys : List α),
    feed F s (xs ++ ys) = ((feed F (feed F s xs).1 ys).1, (feed F s xs).2 ++ (feed F (feed F s xs).1 ys).2)
  | s, [], ys => by simp
  | s, x :: xs, ys => by simp only [List.cons_append, feed, feed_append _ xs ys, List.append_assoc]

/-- The pieces one after another. -/
def feedAll : State α H E → List (List α) → State α H E × List (Out α H)
  | s, [] => (s, [])
  | s, c :: cs => ((feedAll (feed F s c).1 cs).1, (feed F s c).2 ++ (feedAll (feed F s c).1 cs).2)

/-- **However a stream is cut, the reader ends in the same state with the same frames.** -/
theorem feedAll_eq : ∀ (s : State α H E) (cs : List (List α)), feedAll F s cs = feed F s cs.flatten
  | _, [] => rfl
  | s, c :: cs => by rw [feedAll, List.flatten_cons, feed_append, feedAll_eq _ cs]

@[simp] theorem feed_failed (e : E) : ∀ xs : List α, feed F (.failed e) xs = (.failed e, [])
  | [] => rfl
  | x :: xs => by simp [feed, step, feed_failed e xs]

theorem feed_header_short : ∀ (got xs : List α), got.length + xs.length < F.headerLen →
    feed F (.header got) xs = (.header (got ++ xs), [])
  | got, [], _ => by simp
  | got, x :: xs, h => by
    simp only [List.length_cons] at h
    rw [feed, step, if_pos (by omega), feed_header_short (got ++ [x]) xs (by simp; omega)]
    simp

theorem feed_header_exact : ∀ (got xs : List α), xs ≠ [] → got.length + xs.length = F.headerLen →
    feed F (.header got) xs = afterHeader F (got ++ xs)
  | got, [x], _, h => by
    simp only [List.length_cons, List.length_nil] at h
    simp only [feed, step, if_neg (show ¬ got.length + 1 < F.headerLen by omega), List.append_nil]
  | got, x :: y :: xs, _, h => by
    simp only [List.length_cons] at h
    rw [feed, step, if_pos (by omega), feed_header_exact (got ++ [x]) (y :: xs) (by simp) (by simp; omega)]
    simp

theorem feed_body_short (h : H) (n : Nat) : ∀ (got xs : List α), got.length + xs.length < n →
    feed F (.body h n got) xs = (.body h n (got ++ xs), [])
  | got, [], _ => by simp
  | got, x :: xs, hl => by
    simp only [List.length_cons] at hl
    rw [feed, step, if_pos (by omega), feed_body_short h n (got ++ [x]) xs (by simp; omega)]
    simp

theorem feed_body_exact (h : H) (n : Nat) : ∀ (got xs : List α), xs ≠ [] → got.length + xs.length = n →
    feed F (.body h n got) xs = (.header [], [(h, got ++ xs)])
  | got, [x], _, hl => by
    simp only [List.length_cons, List.length_nil] at hl
    simp only [feed, step, if_neg (show ¬ got.length + 1 < n by omega), List.append_nil]
  | got, x :: y :: xs, _, hl => by
    simp only [List.length_cons] at hl
    rw [feed, step, if_pos (by omega), feed_body_exact h n (got ++ [x]) (y :: xs) (by simp) (by simp; omega)]
    simp

/-- **A frame is read back**, and leaves the reader between frames. -/
theorem feed_frame (hdr body : List α) (h : H) (hlen : hdr.length = F.headerLen)
    (hdec : F.decode hdr = .ok (h, body.length)) :
    feed F (.header []) (hdr ++ body) = (.header [], [(h, body)]) := by
  have hne : hdr ≠ [] := fun he => by have := F.headerLen_pos; rw [he, List.length_nil] at hlen; omega
  have hh : feed F (.header []) hdr = afterHeader F hdr := by
    simpa using feed_header_exact F [] hdr hne (by simpa using hlen)
  rw [feed_append, hh, afterHeader, hdec]
  cases body with
  | nil => rfl
  | cons b bs =>
    have := feed_body_exact F h (bs.length + 1) [] (b :: bs) (by simp) (by simp)
    simp only [List.length_cons, this, List.nil_append]

/-- **A concatenation of frames is read back frame by frame.** -/
theorem feed_frames {ι : Type} (hdr body : ι → List α) (h : ι → H) (hlen : ∀ i, (hdr i).length = F.headerLen)
    (hdec : ∀ i, F.decode (hdr i) = .ok (h i, (body i).length)) :
    ∀ is : List ι, feed F (.header []) (is.flatMap fun i => hdr i ++ body i) =
      (.header [], is.map fun i => (h i, body i))
  | [] => rfl
  | i :: is => by
    rw [List.flatMap_cons, feed_append, feed_frame F (hdr i) (body i) (h i) (hlen i) (hdec i),
      feed_frames hdr body h hlen hdec is]
    rfl

/-- A state whose announced length is one that `P` allows for its header, and not reached yet, or that was refused for
a reason that `Q` allows. -/
def State.Valid (P : H → Nat → Prop) (Q : E → Prop) : State α H E → Prop
  | .header _     => True
  | .body h n got => P h n ∧ got.length < n
  | .failed e     => Q e

section Valid

variable {P : H → Nat → Prop} {Q : E → Prop} (hP : ∀ bs h n, F.decode bs = .ok (h, n) → P h n)
  (hQ : ∀ bs e, F.decode bs = .error e → Q e)

include hP hQ

theorem afterHeader_valid (hdr : List α) :
    (afterHeader F hdr).1.Valid P Q ∧ ∀ o ∈ (afterHeader F hdr).2, P o.1 o.2.length := by
  unfold afterHeader
  split
  · rename_i e hd
    exact ⟨hQ hdr e hd, by simp⟩
  · rename_i h hd
    exact ⟨trivial, by simpa using hP hdr h 0 hd⟩
  · rename_i h n hd
    exact ⟨⟨hP hdr h (n + 1) hd, Nat.succ_pos n⟩, by simp⟩

theorem step_valid (s : State α H E) (a : α) (hs : s.Valid P Q) :
    (step F s a).1.Valid P Q ∧ ∀ o ∈ (step F s a).2, P o.1 o.2.length := by
  cases s with
  | header got =>
    rw [step]
    split
    · exact ⟨trivial, by simp⟩
    · exact afterHeader_valid F hP hQ _
  | body h n got =>
    obtain ⟨hn, hlt⟩ := hs
    rw [step]
    split
    · rename_i hshort
      exact ⟨⟨hn, by simpa using hshort⟩, by simp⟩
    · refine ⟨trivial, ?_⟩
      intro o ho
      rw [List.mem_singleton.1 ho]
      have : (got ++ [a]).length = n := by simp only [List.length_append, List.length_singleton]; omega
      rw [this]
      exact hn
  | failed e => exact ⟨hs, by simp [step]⟩

/-- **Every frame has a body of the length its header announced**, and every refusal a reason the format gives. -/
theorem feed_valid : ∀ (xs : List α) (s : State α H E), s.Valid P Q →
    (feed F s xs).1.Valid P Q ∧ ∀ o ∈ (feed F s xs).2, P o.1 o.2.length
  | [], _, hs => ⟨hs, by simp⟩
  | x :: xs, s, hs => by
    obtain ⟨h1, h2⟩ := step_valid F hP hQ s x hs
    obtain ⟨h3, h4⟩ := feed_valid xs _ h1
    refine ⟨h3, fun o ho => ?_⟩
    rcases List.mem_append.1 ho with hm | hm
    · exact h2 o hm
    · exact h4 o hm

end Valid

/-- A header whose body is under way is the header of the frame that ends next, or still of the one under way. -/
theorem feed_body_header (h : H) (n : Nat) (got xs : List α) (hlt : got.length < n) :
    (∃ got', (feed F (.body h n got) xs).1 = .body h n got' ∧ (feed F (.body h n got) xs).2 = []) ∨
      ∃ o ∈ (feed F (.body h n got) xs).2, o.1 = h := by
  by_cases hshort : got.length + xs.length < n
  · rw [feed_body_short F h n got xs hshort]
    exact Or.inl ⟨_, rfl, rfl⟩
  · obtain ⟨x, y, rfl, hx⟩ : ∃ x y, xs = x ++ y ∧ got.length + x.length = n :=
      ⟨xs.take (n - got.length), xs.drop (n - got.length), (List.take_append_drop _ _).symm, by
        rw [List.length_take]; omega⟩
    have hne : x ≠ [] := fun he => by rw [he, List.length_nil] at hx; omega
    rw [feed_append, feed_body_exact F h n got x hne hx]
    exact Or.inr ⟨(h, got ++ x), List.mem_append_left _ (List.mem_singleton.2 rfl), rfl⟩

end Framing
