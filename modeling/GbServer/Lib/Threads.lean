import GbServer.Lib.Tally
/-!
# Threads — lists of what each thread still has to do

A thread is the list of its next actions.  A step takes the first action of one thread and puts others in its place
(`advance`).  `weight` counts actions over all threads, `Has` says that one is somewhere; both are told what a step does
to them.  Where the weights of all threads together are no more than that of one action, nobody else has any (`alone`).
`project` keeps the actions of one kind.
-/
namespace Threads

open Tally

universe u

variable {α : Type u}

/-- The `k`th thread does its first action and has `pushed` to do instead. -/
def advance (ops : List (List α)) (k : Nat) (pushed : List α) : List (List α) :=
  ops.modify k fun op => pushed ++ op.tail

def weight (w : α → Nat) (ops : List (List α)) : Nat := tally (tally w) ops

/-- Some thread has an action to do. -/
def Has (ops : List (List α)) (a : α) : Prop := ∃ op ∈ ops, a ∈ op

instance [DecidableEq α] (ops : List (List α)) (a : α) : Decidable (Has ops a) :=
  inferInstanceAs (Decidable (∃ op ∈ ops, a ∈ op))

/-- Some thread has an action of a kind to do. -/
def Anywhere (ops : List (List α)) (w : α → Bool) : Prop := ∃ a, Has ops a ∧ w a = true

instance (ops : List (List α)) (w : α → Bool) : Decidable (Anywhere ops w) :=
  decidable_of_iff (ops.any fun op => op.any w) (by
    simp only [List.any_eq_true, Anywhere, Has]
    constructor
    · rintro ⟨op, hop, a, ha, hw⟩
      exact ⟨a, ⟨op, hop, ha⟩, hw⟩
    · rintro ⟨a, ⟨op, hop, ha⟩, hw⟩
      exact ⟨op, hop, a, ha, hw⟩)

variable {w : α → Nat} {ops : List (List α)} {k : Nat} {a b : α} {pushed rest : List α}

@[simp] theorem weight_nil : weight w [] = 0 := rfl

@[simp] theorem weight_cons (op : List α) : weight w (op :: ops) = tally w op + weight w ops := by
  simp [weight]

@[simp] theorem has_cons {op : List α} : Has (op :: ops) a ↔ a ∈ op ∨ Has ops a := by
  simp [Has]

@[simp] theorem not_has_nil : ¬Has [] a := by
  simp [Has]

theorem weight_advance (w : α → Nat) (pushed : List α) (h : ops[k]? = some (a :: rest)) :
    weight w (advance ops k pushed) + w a = weight w ops + tally w pushed := by
  have hmodify := tally_modify (tally w) (fun op => pushed ++ op.tail) h
  simp only [List.tail_cons, tally_append, tally_cons] at hmodify
  simp only [weight, advance]
  omega

theorem getElem?_advance_self (h : ops[k]? = some (a :: rest)) (pushed : List α) :
    (advance ops k pushed)[k]? = some (pushed ++ rest) := by
  simp [advance, h]

theorem getElem?_advance_of_ne {j : Nat} (hne : j ≠ k) (pushed : List α) : (advance ops k pushed)[j]? = ops[j]? := by
  simp [advance, hne.symm]

theorem getElem?_advance {op : List α} {j : Nat} (h : ops[k]? = some (a :: rest)) (hop : (advance ops k pushed)[j]? = some op) :
    (j = k ∧ op = pushed ++ rest) ∨ (j ≠ k ∧ ops[j]? = some op) := by
  obtain ⟨old, hold, ⟨rfl, rfl⟩ | ⟨hne, rfl⟩⟩ := of_getElem?_modify hop
  · rw [h] at hold
    cases hold
    exact .inl ⟨rfl, rfl⟩
  · exact .inr ⟨Ne.symm hne, hold⟩

theorem mem_advance {op : List α} (h : ops[k]? = some (a :: rest)) (hop : op ∈ advance ops k pushed) :
    op = pushed ++ rest ∨ op ∈ ops := by
  obtain ⟨j, hj⟩ := List.mem_iff_getElem?.1 hop
  rcases getElem?_advance h hj with ⟨_, rfl⟩ | ⟨_, hold⟩
  · exact .inl rfl
  · exact .inr (List.mem_of_getElem? hold)

theorem has_advance (h : ops[k]? = some (a :: rest)) : Has (advance ops k pushed) b ↔ b ∈ pushed ∨ Has (advance ops k []) b := by
  constructor
  · rintro ⟨op, hop, hb⟩
    obtain ⟨j, hj⟩ := List.mem_iff_getElem?.1 hop
    obtain ⟨old, hold, ⟨rfl, rfl⟩ | ⟨hne, rfl⟩⟩ := of_getElem?_modify hj
    · rcases List.mem_append.1 hb with hb | hb
      · exact .inl hb
      · right
        refine ⟨old.tail, ?_, hb⟩
        apply List.mem_of_getElem? (i := k)
        simp [advance, hold]
    · right
      refine ⟨op, ?_, hb⟩
      apply List.mem_of_getElem? (i := j)
      simp [advance, hold, hne]
  · rintro (hb | ⟨op, hop, hb⟩)
    · refine ⟨pushed ++ rest, ?_, List.mem_append_left _ hb⟩
      apply List.mem_of_getElem? (i := k)
      simp [advance, h]
    · obtain ⟨j, hj⟩ := List.mem_iff_getElem?.1 hop
      obtain ⟨old, hold, ⟨rfl, rfl⟩ | ⟨hne, rfl⟩⟩ := of_getElem?_modify hj
      · refine ⟨pushed ++ old.tail, ?_, List.mem_append_right _ hb⟩
        apply List.mem_of_getElem? (i := k)
        simp [advance, hold]
      · refine ⟨op, ?_, hb⟩
        apply List.mem_of_getElem? (i := j)
        simp [advance, hold, hne]

/-- What the others have to do, and the thread itself behind its first action, they had to do before. -/
theorem Has.of_advance (h : Has (advance ops k []) b) : Has ops b := by
  obtain ⟨op, hop, hb⟩ := h
  obtain ⟨j, hj⟩ := List.mem_iff_getElem?.1 hop
  obtain ⟨old, hold, ⟨rfl, rfl⟩ | ⟨hne, rfl⟩⟩ := of_getElem?_modify hj
  · exact ⟨old, List.mem_of_getElem? hold, List.mem_of_mem_tail hb⟩
  · exact ⟨op, List.mem_of_getElem? hold, hb⟩

/-- What is to do is what one thread does first, or what is left without that. -/
theorem has_iff (h : ops[k]? = some (a :: rest)) : Has ops b ↔ b = a ∨ Has (advance ops k []) b := by
  constructor
  · rintro ⟨op, hop, hb⟩
    obtain ⟨j, hj⟩ := List.mem_iff_getElem?.1 hop
    by_cases hjk : j = k
    · subst hjk
      rw [h] at hj
      obtain rfl := Option.some.inj hj
      rcases List.mem_cons.1 hb with rfl | hb
      · exact .inl rfl
      · exact .inr ⟨rest, List.mem_of_getElem? (getElem?_advance_self h []), hb⟩
    · rw [← getElem?_advance_of_ne hjk []] at hj
      exact .inr ⟨op, List.mem_of_getElem? hj, hb⟩
  · rintro (rfl | hb)
    · exact ⟨_, List.mem_of_getElem? h, List.mem_cons_self⟩
    · exact hb.of_advance

/-- What is not done stays to do. -/
theorem Has.advance (hb : Has ops b) (h : ops[k]? = some (a :: rest)) (hne : b ≠ a) (pushed : List α) :
    Has (advance ops k pushed) b := by
  obtain ⟨op, hop, hb⟩ := hb
  obtain ⟨j, hj⟩ := List.mem_iff_getElem?.1 hop
  by_cases hjk : j = k
  · subst hjk
    rw [h] at hj
    obtain rfl := Option.some.inj hj
    refine ⟨pushed ++ rest, ?_, List.mem_append_right _ ((List.mem_cons.1 hb).resolve_left hne)⟩
    apply List.mem_of_getElem? (i := j)
    simp [Threads.advance, h]
  · refine ⟨op, ?_, hb⟩
    apply List.mem_of_getElem? (i := j)
    simp [Threads.advance, hj, Ne.symm hjk]

theorem Anywhere.of_mem {w : α → Bool} (hb : b ∈ pushed) (hw : w b = true) (h : ops[k]? = some (a :: rest)) :
    Anywhere (advance ops k pushed) w := ⟨b, (has_advance h).2 (.inl hb), hw⟩

/-- What others have to do of a kind they still have to do. -/
theorem Anywhere.advance {w : α → Bool} (hw : Anywhere ops w) (h : ops[k]? = some (a :: rest)) (ha : w a = false)
    (pushed : List α) : Anywhere (advance ops k pushed) w := by
  obtain ⟨b, hb, hwb⟩ := hw
  refine ⟨b, hb.advance h ?_ pushed, hwb⟩
  rintro rfl
  rw [ha] at hwb
  cases hwb

/-- What is to do of a kind was to do before, but for what is new. -/
theorem Anywhere.of_advance {w : α → Bool} (hw : Anywhere (Threads.advance ops k pushed) w)
    (h : ops[k]? = some (a :: rest)) (hnew : ∀ b ∈ pushed, w b = false) : Anywhere ops w := by
  obtain ⟨b, hb, hwb⟩ := hw
  rcases (has_advance h).1 hb with hmem | hold
  · rw [hnew b hmem] at hwb
    cases hwb
  · exact ⟨b, hold.of_advance, hwb⟩

/-- A thread that does something before its first action, which it keeps, is like one more thread. -/
theorem has_advance_before (h : ops[k]? = some (a :: rest)) :
    Has (advance ops k (pushed ++ [a])) b ↔ Has (pushed :: ops) b := by
  rw [has_advance h, has_cons, List.mem_append, List.mem_singleton]
  constructor
  · rintro ((hb | rfl) | hb)
    · exact .inl hb
    · exact .inr ⟨_, List.mem_of_getElem? h, List.mem_cons_self⟩
    · exact .inr hb.of_advance
  · rintro (hb | hb)
    · exact .inl (.inl hb)
    · by_cases hba : b = a
      · exact .inl (.inr hba)
      · exact .inr (hb.advance h hba [])

theorem weight_advance_before (w : α → Nat) (h : ops[k]? = some (a :: rest)) :
    weight w (advance ops k (pushed ++ [a])) = weight w (pushed :: ops) := by
  have hadvance := weight_advance w (pushed ++ [a]) h
  simp only [tally_append, tally_cons, tally_nil] at hadvance
  rw [weight_cons]
  omega

/-! ## Actions of one kind -/

section Project

variable {β : Type*} {f : α → Option β} {b : β}

/-- What each thread has to do of a kind. -/
def project (f : α → Option β) (ops : List (List α)) : List (List β) := ops.map (List.filterMap f)

theorem getElem?_project (h : ops[k]? = some (a :: rest)) (ha : f a = some b) :
    (project f ops)[k]? = some (b :: rest.filterMap f) := by
  simp [project, h, ha]

theorem project_advance (h : ops[k]? = some (a :: rest)) (ha : f a = some b) (pushed : List α) :
    project f (advance ops k pushed) = advance (project f ops) k (pushed.filterMap f) := by
  apply List.ext_getElem?
  intro j
  simp only [project, advance, List.getElem?_map, List.getElem?_modify]
  by_cases hjk : k = j
  · subst hjk
    simp [h, ha]
  · simp [hjk]

/-- An action that leaves what it is of the kind. -/
theorem project_advance_same (h : ops[k]? = some (a :: rest)) (hpushed : pushed.filterMap f = (f a).toList) :
    project f (advance ops k pushed) = project f ops := by
  apply List.ext_getElem?
  intro j
  simp only [project, advance, List.getElem?_map, List.getElem?_modify]
  by_cases hjk : k = j
  · subst hjk
    cases hfa : f a <;> simp [h, hpushed, hfa]
  · simp [hjk]

theorem has_project : Has (project f ops) b ↔ ∃ a, Has ops a ∧ f a = some b := by
  simp only [Has, project, List.mem_map]
  constructor
  · rintro ⟨_, ⟨op, hop, rfl⟩, hb⟩
    obtain ⟨a, ha, hfa⟩ := List.mem_filterMap.1 hb
    exact ⟨a, ⟨op, hop, ha⟩, hfa⟩
  · rintro ⟨a, ⟨op, hop, ha⟩, hfa⟩
    exact ⟨_, ⟨op, hop, rfl⟩, List.mem_filterMap.2 ⟨a, ha, hfa⟩⟩

theorem weight_project (w : β → Nat) : weight w (project f ops) = weight (fun a => ((f a).map w).getD 0) ops := by
  simp only [weight, project, tally, List.map_map]
  congr 1
  exact List.map_congr_left fun op _ => tally_filterMap f w op

/-- What an action of another kind leaves. -/
theorem has_project_advance (h : ops[k]? = some (a :: rest)) (ha : f a = none) :
    Has (project f (advance ops k pushed)) b ↔ b ∈ pushed.filterMap f ∨ Has (project f ops) b := by
  constructor
  · intro hb
    obtain ⟨c, hc, hfc⟩ := has_project.1 hb
    rcases (has_advance h).1 hc with hc | hc
    · exact .inl (List.mem_filterMap.2 ⟨c, hc, hfc⟩)
    · exact .inr (has_project.2 ⟨c, hc.of_advance, hfc⟩)
  · rintro (hb | hb)
    · obtain ⟨c, hc, hfc⟩ := List.mem_filterMap.1 hb
      exact has_project.2 ⟨c, (has_advance h).2 (.inl hc), hfc⟩
    · obtain ⟨c, hc, hfc⟩ := has_project.1 hb
      refine has_project.2 ⟨c, hc.advance h ?_ pushed, hfc⟩
      rintro rfl
      rw [ha] at hfc
      cases hfc

theorem weight_project_advance (w : β → Nat) (h : ops[k]? = some (a :: rest)) (ha : f a = none) :
    weight w (project f (advance ops k pushed)) = tally w (pushed.filterMap f) + weight w (project f ops) := by
  have hadvance := weight_advance (fun a => ((f a).map w).getD 0) pushed h
  rw [weight_project, weight_project, tally_filterMap]
  simp only [ha, Option.map_none, Option.getD_none] at hadvance
  omega

end Project

theorem has_of_getElem? (h : ops[k]? = some (a :: rest)) : Has ops a :=
  ⟨_, List.mem_of_getElem? h, List.mem_cons_self⟩

theorem le_weight (w : α → Nat) (h : Has ops a) : w a ≤ weight w ops := by
  obtain ⟨op, hop, ha⟩ := h
  exact Nat.le_trans (le_tally w ha) (le_tally (tally w) hop)

theorem weight_eq_zero (h : ∀ a, Has ops a → w a = 0) : weight w ops = 0 := by
  apply tally_eq_zero
  intro op hop
  apply tally_eq_zero
  exact fun a ha => h a ⟨op, hop, ha⟩

theorem exists_of_weight_pos (h : 0 < weight w ops) : ∃ a, Has ops a ∧ 0 < w a := by
  by_contra hnone
  have hzero : weight w ops = 0 := by
    apply weight_eq_zero
    intro a ha
    by_contra hne
    exact hnone ⟨a, ha, Nat.pos_of_ne_zero hne⟩
  omega

/-- An action that has all the weight there is. -/
theorem alone (h : ops[k]? = some (a :: rest)) (hall : weight w ops ≤ w a) (hb : Has (advance ops k []) b) : w b = 0 := by
  have hadvance := weight_advance w [] h
  have hle := le_weight w hb
  simp only [tally_nil] at hadvance
  omega

end Threads
