import GbServer.Lib.Stateful
/-!
# Report — what a run leaves behind, read off the place it starts from

A program may look at a part of its state only, its view.  Where it arrives, and what of its result matters there, is then
a function of the view, its course (`Ends`); and what its run does to a property of states is a condition on the view.
`Reports` says both of a program, and those of a program that is put together come from its parts: what is behind the
first part is asked of the place where the course of the first part ends.
-/
namespace Stateful

universe u

variable {ε σ κ ρ ρ' α β : Type u} (π : σ → κ) (I G : σ → Prop)

/-- A run ends where its course does, seen as `arrive` sees its result and the view behind it; where the course ends
nowhere, with an exception. -/
inductive Ends (arrive : α → κ → ρ) (o : Option ρ) : EStateM.Result ε σ α → Prop
  | ok {a : α} {t : σ} (ho : o = some (arrive a (π t))) (ht : I t) : Ends arrive o (.ok a t)
  | error {e : ε} {t : σ} (ho : o = none) (ht : I t) : Ends arrive o (.error e t)

/-- Of states that keep the invariant `I`: a run takes the course `f`, and `G` holds behind it exactly if it held before and
the view it started from meets `F`. -/
structure Reports (arrive : α → κ → ρ) (m : EStateM ε σ α) (f : κ → Option ρ) (F : κ → Prop) : Prop where
  ends  : ∀ s, I s → Ends π I arrive (f (π s)) (m s)
  tells : ∀ s, I s → (G (after (m s)) ↔ G s ∧ F (π s))

variable {π I G} {arrive : α → κ → ρ} {arrive' : β → κ → ρ'}

theorem Ends.of_some {o : Option ρ} {r : EStateM.Result ε σ α} (h : Ends π I arrive o r) {c : ρ} (ho : o = some c) :
    ∃ a t, r = .ok a t ∧ arrive a (π t) = c ∧ I t := by
  cases h with
  | ok ha ht   => exact ⟨_, _, rfl, Option.some.inj (ha.symm.trans ho), ht⟩
  | error hn _ => cases hn.symm.trans ho

theorem Ends.of_none {o : Option ρ} {r : EStateM.Result ε σ α} (h : Ends π I arrive o r) (ho : o = none) :
    ∃ e t, r = .error e t ∧ I t := by
  cases h with
  | ok ha _    => cases ha.symm.trans ho
  | error _ ht => exact ⟨_, _, rfl, ht⟩

namespace Reports

variable {m n : EStateM ε σ α} {f f' : κ → Option ρ} {F F' : κ → Prop}

theorem congr (h : Reports π I G arrive m f F) (hf : ∀ s, I s → f (π s) = f' (π s))
    (hF : ∀ s, I s → (F (π s) ↔ F' (π s))) : Reports π I G arrive m f' F' where
  ends  := fun s hs => hf s hs ▸ h.ends s hs
  tells := fun s hs => (h.tells s hs).trans (and_congr_right fun _ => hF s hs)

theorem imp (h : Reports π I G arrive m f F) (hF : ∀ s, I s → (F (π s) ↔ F' (π s))) : Reports π I G arrive m f F' :=
  h.congr (fun _ _ => rfl) hF

theorem pure (a : α) : Reports π I G arrive (Pure.pure a : EStateM ε σ α) (fun p => some (arrive a p)) fun _ => True where
  ends  := fun _ hs => .ok rfl hs
  tells := fun _ _ => (and_true _).symm.to_iff

theorem throw (e : ε) : Reports π I G arrive (throw e : EStateM ε σ α) (fun _ => none) fun _ => True where
  ends  := fun _ hs => .error rfl hs
  tells := fun _ _ => (and_true _).symm.to_iff

theorem bind {k : α → EStateM ε σ β} {g : ρ → Option ρ'} {H : ρ → Prop} (hm : Reports π I G arrive m f F)
    (hk : ∀ a, Reports π I G arrive' (k a) (fun q => g (arrive a q)) fun q => H (arrive a q)) :
    Reports π I G arrive' (m >>= k) (fun p => (f p).bind g) fun p => F p ∧ ∀ c, f p = some c → H c where
  ends  := fun s hs => by
    have hend := hm.ends s hs
    cases hf : f (π s) with
    | none   =>
      obtain ⟨e, t, hms, ht⟩ := hend.of_none hf
      rw [bind_of_error hms]
      exact .error rfl ht
    | some c =>
      obtain ⟨a, t, hms, hc, ht⟩ := hend.of_some hf
      rw [bind_of_ok hms, Option.bind_some, ← hc]
      exact (hk a).ends t ht
  tells := fun s hs => by
    have hend := hm.ends s hs
    have htell := hm.tells s hs
    cases hf : f (π s) with
    | none   =>
      obtain ⟨e, t, hms, -⟩ := hend.of_none hf
      rw [hms, after_error] at htell
      rw [bind_of_error hms, after_error, htell]
      exact and_congr_right fun _ => (and_iff_left fun _ h => nomatch h).symm
    | some c =>
      obtain ⟨a, t, hms, hc, ht⟩ := hend.of_some hf
      have hrest : H (arrive a (π t)) ↔ ∀ c', some c = some c' → H c' := by
        rw [hc]
        constructor
        · rintro h _ ⟨⟩
          exact h
        · exact fun h => h c rfl
      rw [hms, after_ok] at htell
      rw [bind_of_ok hms, (hk a).tells t ht, htell, hrest, and_assoc]

/-- A part that leaves nothing behind, and always arrives. -/
theorem lead {k : α → EStateM ε σ β} {g : α → κ → Option ρ'} {H : α → κ → Prop} {a : κ → α} {next : κ → κ}
    (hm : Reports π I G Prod.mk m (fun p => some (a p, next p)) fun _ => True)
    (hk : ∀ a, Reports π I G arrive' (k a) (g a) (H a)) :
    Reports π I G arrive' (m >>= k) (fun p => g (a p) (next p)) fun p => H (a p) (next p) :=
  (hm.bind (g := fun c => g c.1 c.2) (H := fun c => H c.1 c.2) hk).congr (fun _ _ => rfl) fun s _ => by
    constructor
    · exact fun h => h.2 _ rfl
    · intro h
      refine ⟨trivial, ?_⟩
      rintro _ ⟨⟩
      exact h

/-- What is behind leaves nothing. -/
theorem behind {k : α → EStateM ε σ β} {g : ρ → Option ρ'} (hm : Reports π I G arrive m f F)
    (hk : ∀ a, Reports π I G arrive' (k a) (fun q => g (arrive a q)) fun _ => True) :
    Reports π I G arrive' (m >>= k) (fun p => (f p).bind g) F :=
  (hm.bind (H := fun _ => True) hk).imp fun _ _ => and_iff_left fun _ _ => trivial

/-- Less is seen of where a run arrives. -/
theorem map {arrive' : α → κ → ρ'} (φ : ρ → ρ') (harrive : ∀ a q, φ (arrive a q) = arrive' a q)
    (hm : Reports π I G arrive m f F) : Reports π I G arrive' m (fun p => (f p).map φ) F where
  ends  := fun s hs => by
    have hend := hm.ends s hs
    cases hf : f (π s) with
    | none   =>
      obtain ⟨e, t, hms, ht⟩ := hend.of_none hf
      rw [hms]
      exact .error rfl ht
    | some c =>
      obtain ⟨a, t, hms, hc, ht⟩ := hend.of_some hf
      rw [hms]
      exact .ok (by rw [Option.map_some, ← hc, harrive]) ht
  tells := hm.tells

theorem ite {c : Prop} [Decidable c] (hm : c → Reports π I G arrive m f F) (hn : ¬c → Reports π I G arrive n f' F) :
    Reports π I G arrive (if c then m else n) (fun p => if c then f p else f' p) F := by
  split
  · rename_i h
    exact hm h
  · rename_i h
    exact hn h

/-- Two programs that always arrive. -/
theorem ite_some {c : Prop} [Decidable c] {x y : κ → ρ} (hm : c → Reports π I G arrive m (fun p => some (x p)) F)
    (hn : ¬c → Reports π I G arrive n (fun p => some (y p)) F) :
    Reports π I G arrive (if c then m else n) (fun p => some (if c then x p else y p)) F := by
  split
  · rename_i h
    exact hm h
  · rename_i h
    exact hn h

/-- Two programs of one course. -/
theorem either {c : Prop} [Decidable c] (hm : c → Reports π I G arrive m f F) (hn : ¬c → Reports π I G arrive n f F) :
    Reports π I G arrive (if c then m else n) f F :=
  (ite hm hn).congr (fun _ _ => ite_self _) fun _ _ => Iff.rfl

/-- A test of the view. -/
theorem test {c : κ → Prop} [DecidablePred c] (a : α) (heq : ∀ s, m s = if c (π s) then n s else .ok a s)
    (hn : Reports π I G arrive n f F) :
    Reports π I G arrive m (fun p => if c p then f p else some (arrive a p)) fun p => c p → F p where
  ends  := fun s hs => by
    rw [heq s]
    split
    · exact hn.ends s hs
    · exact .ok rfl hs
  tells := fun s hs => by
    rw [heq s]
    split
    · rename_i h
      rw [hn.tells s hs, forall_prop_of_true h]
    · rename_i h
      exact (and_iff_left fun hc => absurd hc h).symm

end Reports

end Stateful
