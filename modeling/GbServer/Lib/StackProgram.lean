import Mathlib.Tactic.Common
/-!
# StackProgram — programs on a stack of limited height

A program on a stack, topmost value first, returns with a result and another stack, or it does not return.  A triple says
what it does to the values on top, whatever lies under them: in how much room it returns, counted from what lies under
them, and what it then leaves in their place.
-/
namespace StackProgram

universe u

abbrev Program (V α : Type u) := StateT (List V) Option α

variable {V α β ι : Type u}

theorem bind_apply (m : Program V α) (f : α → Program V β) (s : List V) :
    (m >>= f) s = (m s).bind fun r => f r.1 r.2 := rfl

theorem bind_eq_some {m : Program V α} {f : α → Program V β} {s t : List V} {b : β} (h : (m >>= f) s = some (b, t)) :
    ∃ a r, m s = some (a, r) ∧ f a r = some (b, t) := by
  rw [bind_apply, Option.bind_eq_some_iff] at h
  obtain ⟨⟨a, r⟩, hm, hf⟩ := h
  exact ⟨a, r, hm, hf⟩

theorem bind_of_some {m : Program V α} {f : α → Program V β} {s r : List V} {a : α} (h : m s = some (a, r)) :
    (m >>= f) s = f a r := by
  rw [bind_apply, h]
  rfl

/-- A program that does not return. -/
def stuck : Program V α := fun _ => none

/-- A value that may be missing. -/
def ofOption (value : Option α) : Program V α := fun s => value.map fun a => (a, s)

/-- A push on a stack of at most `limit` values. -/
def push (limit : Nat) (v : V) : Program V PUnit := fun s => if s.length < limit then some (.unit, v :: s) else none

/-- The program returns exactly if there is `room` for it above what lies under `pre`, and it leaves what `post` says in the
place of `pre`, and nothing else changed. -/
structure Triple (limit : Nat) (pre : List V) (m : Program V α) (room : Nat → Prop) (post : α → List V → Prop) :
    Prop where
  returns  : ∀ rest, room (limit - rest.length) → ∃ a t, m (pre ++ rest) = some (a, t)
  returned : ∀ rest a t, m (pre ++ rest) = some (a, t) →
    room (limit - rest.length) ∧ ∃ top, post a top ∧ t = top ++ rest

namespace Triple

variable {limit : Nat} {pre : List V} {m : Program V α} {f : α → Program V β} {room room' : Nat → Prop}
  {post post' : α → List V → Prop} {post'' : β → List V → Prop}

theorem weaken (h : Triple limit pre m room post) (hpost : ∀ a top, post a top → post' a top) :
    Triple limit pre m room post' where
  returns  := h.returns
  returned := fun rest a t hm => by
    obtain ⟨hroom, top, htop, ht⟩ := h.returned rest a t hm
    exact ⟨hroom, top, hpost a top htop, ht⟩

theorem of_iff (h : Triple limit pre m room post) (hroom : ∀ n, room' n ↔ room n) : Triple limit pre m room' post := by
  have : room' = room := funext fun n => propext (hroom n)
  rw [this]
  exact h

/-- What lies above the rest and is not touched takes its share of the room. -/
theorem frame (h : Triple limit pre m room post) (more : List V) :
    Triple limit (pre ++ more) m (fun n => room (n - more.length)) fun a top => ∃ t, post a t ∧ top = t ++ more where
  returns  := fun rest hroom => by
    rw [List.append_assoc]
    refine h.returns (more ++ rest) ?_
    rw [List.length_append, Nat.add_comm, ← Nat.sub_sub]
    exact hroom
  returned := fun rest a t hm => by
    rw [List.append_assoc] at hm
    obtain ⟨hroom, top, htop, ht⟩ := h.returned (more ++ rest) a t hm
    rw [List.length_append, Nat.add_comm, ← Nat.sub_sub] at hroom
    exact ⟨hroom, top ++ more, ⟨top, htop, rfl⟩, ht.trans (List.append_assoc ..).symm⟩

/-- A program that always returns, and what it does to the values on top. -/
theorem of_eq {a : α} {top : List V} (h : ∀ rest, m (pre ++ rest) = some (a, top ++ rest)) :
    Triple limit pre m (fun _ => True) fun b t => b = a ∧ t = top where
  returns  := fun rest _ => ⟨a, top ++ rest, h rest⟩
  returned := fun rest b t hm => by
    rw [h] at hm
    cases hm
    exact ⟨trivial, top, ⟨rfl, rfl⟩, rfl⟩

theorem pure (a : α) : Triple limit pre (Pure.pure a : Program V α) (fun _ => True) fun b top => b = a ∧ top = pre :=
  of_eq fun _ => rfl

theorem stuck : Triple limit pre (stuck : Program V α) (fun _ => False) post where
  returns  := fun _ hroom => hroom.elim
  returned := fun _ _ _ hm => nomatch hm

theorem bind (hm : Triple limit pre m room post) (hf : ∀ a top, post a top → Triple limit top (f a) room' post'') :
    Triple limit pre (m >>= f) (fun n => room n ∧ room' n) post'' where
  returns  := fun rest hroom => by
    obtain ⟨a, t, hmt⟩ := hm.returns rest hroom.1
    obtain ⟨_, top, htop, rfl⟩ := hm.returned rest a t hmt
    rw [bind_of_some hmt]
    exact (hf a top htop).returns rest hroom.2
  returned := fun rest b t hbind => by
    obtain ⟨a, r, hmr, hft⟩ := bind_eq_some hbind
    obtain ⟨hroom, top, htop, rfl⟩ := hm.returned rest a r hmr
    obtain ⟨hroom', hpost⟩ := (hf a top htop).returned rest b t hft
    exact ⟨⟨hroom, hroom'⟩, hpost⟩

/-- Behind a program that always returns. -/
theorem after (hm : Triple limit pre m (fun _ => True) post)
    (hf : ∀ a top, post a top → Triple limit top (f a) room' post'') : Triple limit pre (m >>= f) room' post'' :=
  (hm.bind hf).of_iff fun _ => (iff_of_eq (true_and _)).symm

/-- Before a program that always returns. -/
theorem before (hm : Triple limit pre m room post)
    (hf : ∀ a top, post a top → Triple limit top (f a) (fun _ => True) post'') : Triple limit pre (m >>= f) room post'' :=
  (hm.bind hf).of_iff fun _ => (iff_of_eq (and_true _)).symm

theorem map {g : α → β} (hm : Triple limit pre m room post) (hg : ∀ a top, post a top → post'' (g a) top) :
    Triple limit pre (g <$> m) room post'' := by
  rw [map_eq_pure_bind]
  exact hm.before fun a top htop => (Triple.pure (g a)).weaken fun _ _ h => h.1 ▸ h.2 ▸ hg a top htop

/-- A value that may be missing, and a continuation whose room depends on it. -/
theorem ofOption_bind {value : Option α} {room : α → Nat → Prop}
    (hf : ∀ a, value = some a → Triple limit pre (f a) (room a) post'') :
    Triple limit pre (ofOption value >>= f) (fun n => ∃ a, value = some a ∧ room a n) post'' where
  returns  := fun rest ⟨a, ha, hroom⟩ => by
    have hm : ofOption value (pre ++ rest) = some (a, pre ++ rest) := by
      rw [ofOption, ha]
      rfl
    rw [bind_of_some hm]
    exact (hf a ha).returns rest hroom
  returned := fun rest b t hbind => by
    obtain ⟨a, r, hmr, hft⟩ := bind_eq_some hbind
    obtain ⟨a, ha, hr⟩ := Option.map_eq_some_iff.1 hmr
    cases hr
    obtain ⟨hroom, hpost⟩ := (hf a ha).returned rest b t hft
    exact ⟨⟨a, ha, hroom⟩, hpost⟩

theorem push (v : V) :
    Triple limit pre (push limit v) (fun n => pre.length < n) fun _ top => top = v :: pre where
  returns  := fun rest hroom => by
    refine ⟨.unit, v :: (pre ++ rest), if_pos ?_⟩
    rw [List.length_append]
    omega
  returned := fun rest a t hm => by
    unfold StackProgram.push at hm
    split at hm
    · rename_i hlt
      cases hm
      rw [List.length_append] at hlt
      exact ⟨by omega, v :: pre, rfl, rfl⟩
    · cases hm

/-- A value that may be missing, and a continuation that always returns. -/
theorem ofOption_const {value : Option α} (hf : ∀ a, value = some a → Triple limit pre (f a) (fun _ => True) post'') :
    Triple limit pre (ofOption value >>= f) (fun _ => ∃ a, value = some a) post'' :=
  (ofOption_bind hf).of_iff fun _ => exists_congr fun _ => (iff_of_eq (and_true _)).symm

/-- A loop each of whose rounds keeps the invariant of what is on top. -/
theorem foldlM {f : β → ι → Program V β} {room : ι → Nat → Prop} {inv : List V → Prop} :
    ∀ {l : List ι}, (∀ x ∈ l, ∀ b top, inv top → Triple limit top (f b x) (room x) fun _ => inv) →
      ∀ b top, inv top → Triple limit top (l.foldlM f b) (fun n => ∀ x ∈ l, room x n) fun _ => inv
  | [],     _, b, top, htop => by
    have hpure : Triple limit top (Pure.pure b : Program V β) (fun _ => True) fun _ => inv :=
      (Triple.pure b).weaken fun _ _ h => h.2 ▸ htop
    exact hpure.of_iff fun n => iff_of_true (fun x hx => nomatch hx) trivial
  | x :: l, h, b, top, htop => by
    have hx := h x List.mem_cons_self b top htop
    have hl := foldlM fun y hy => h y (List.mem_cons_of_mem x hy)
    exact (hx.bind hl).of_iff fun n => List.forall_mem_cons

/-- A loop each of whose rounds leaves what was on top. -/
theorem foldlM_same {f : β → ι → Program V β} {room : ι → Nat → Prop} {l : List ι}
    (h : ∀ x ∈ l, ∀ b, Triple limit pre (f b x) (room x) fun _ top => top = pre) (b : β) :
    Triple limit pre (l.foldlM f b) (fun n => ∀ x ∈ l, room x n) fun _ top => top = pre :=
  foldlM (fun x hx b _ htop => htop ▸ h x hx b) b pre rfl

theorem forM {f : ι → Program V PUnit} {room : ι → Nat → Prop} {inv : List V → Prop} :
    ∀ {l : List ι}, (∀ x ∈ l, ∀ top, inv top → Triple limit top (f x) (room x) fun _ => inv) →
      ∀ top, inv top → Triple limit top (l.forM f) (fun n => ∀ x ∈ l, room x n) fun _ => inv
  | [],     _, top, htop => by
    have hpure : Triple limit top (Pure.pure PUnit.unit : Program V PUnit) (fun _ => True) fun _ => inv :=
      (Triple.pure PUnit.unit).weaken fun _ _ h => h.2 ▸ htop
    exact hpure.of_iff fun n => iff_of_true (fun x hx => nomatch hx) trivial
  | x :: l, h, top, htop => by
    have hx := h x List.mem_cons_self top htop
    have hl := forM fun y hy => h y (List.mem_cons_of_mem x hy)
    exact (hx.bind fun _ => hl).of_iff fun n => List.forall_mem_cons

end Triple

end StackProgram
