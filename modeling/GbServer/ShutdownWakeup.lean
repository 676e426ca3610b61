import GbServer.ShutdownManager
/-!
# ShutdownWakeup — requests that are turned away, and those who wait

A thread that finds `is_advancing_` set records that the phase is to be advanced again, some time later, and the thread
in `AdvancePhase` looks for that at the end of each round.  Between its last look and the moment at which the guard has
reset both flags, nobody looks.  `AdvancePhase` stores its phases without the mutex, so a thread that has found the
phase not done may block after the notification.

`run_nothingLost` is about runs in which neither happens.
-/
namespace Gb

open Run (Along)
open Threads Interleaving

namespace ShutdownAction

/-- Before the store of a phase. -/
def moves : ShutdownAction → Bool
  | loadPhase    => true
  | storePhase _ => true
  | _            => false

/-- Before the look at `pending_advance_` that ends a round. -/
def retests : ShutdownAction → Bool
  | callCallback _  => true
  | exchangePending => true
  | _               => false

/-- Turned away, before the store of `pending_advance_`. -/
def records : ShutdownAction → Bool
  | storePending => true
  | _            => false

/-- Out of the loop, before the reset of `is_advancing_`. -/
def leaves : ShutdownAction → Bool
  | resetAdvancing => true
  | _              => false

/-- In the loop of `AdvancePhase`. -/
def advances : ShutdownAction → Bool
  | loadPhase       => true
  | storePhase _    => true
  | callCallback _  => true
  | exchangePending => true
  | _               => false

def storesDone : ShutdownAction → Bool
  | storePhase current => decide (current.next = .done)
  | _                  => false

def notifies : ShutdownAction → Bool
  | notifyAll => true
  | _         => false

/-- Has found the phase not done, and has not blocked yet. -/
def blocks : ShutdownAction → Bool
  | waitBlock _ => true
  | _           => false

/-- Holds `phase_mutex_`. -/
def locks : ShutdownAction → Nat
  | forceStore  => 1
  | waitTest _  => 1
  | waitBlock _ => 1
  | unlock      => 1
  | _           => 0

end ShutdownAction

namespace ShutdownManager

/-- The condition on a step.  Nobody is turned away by a thread that has left the loop; a thread that leaves it leaves no
request behind that is not recorded yet; and the guard clears none that nobody else will see. -/
def Heard (s : ShutdownThreads) (_ : Nat) (_ : ShutdownInput) (a : ShutdownAction) : Prop :=
  (a = .exchangeAdvancing → s.shared.isAdvancing = true → ¬Anywhere s.ops ShutdownAction.leaves) ∧
  (a = .exchangePending → s.shared.owed = true → s.shared.pendingAdvance = true) ∧
  (a = .clearPending → s.shared.owed = true → s.shared.pendingAdvance = true →
    Anywhere s.ops ShutdownAction.moves ∨ Anywhere s.ops ShutdownAction.records)

/-- `AdvancePhase` does not store the last phase while a thread that has found another one is about to block. -/
def Awaited (s : ShutdownThreads) (_ : Nat) (_ : ShutdownInput) (a : ShutdownAction) : Prop :=
  a.storesDone = true → ¬Anywhere s.ops ShutdownAction.blocks

def Heeded (s : ShutdownThreads) (k : Nat) (input : ShutdownInput) (a : ShutdownAction) : Prop :=
  Heard s k input a ∧ Awaited s k input a

instance (s : ShutdownThreads) (k : Nat) (input : ShutdownInput) (a : ShutdownAction) : Decidable (Heeded s k input a) :=
  inferInstanceAs (Decidable ((_ ∧ _ ∧ _) ∧ (_ → _)))

/-- A request that was turned away has an answer, or a thread that will give one: it is about to store a phase, or has
not looked yet whether it is to store another. -/
structure Answered (s : ShutdownThreads) : Prop where
  alone  : Alone s
  answer : s.shared.owed = true → s.shared.currentPhase = .done ∨ Anywhere s.ops ShutdownAction.moves ∨
    Anywhere s.ops ShutdownAction.retests ∧ (s.shared.pendingAdvance = true ∨ Anywhere s.ops ShutdownAction.records)

variable {s : ShutdownThreads} {shared : ShutdownManager} {ops : List (List ShutdownAction)} {k : Nat}
  {input : ShutdownInput} {a : ShutdownAction} {rest pushed : List ShutdownAction}

theorem Answered.call (h : Answered s) {c : ShutdownCall} {op : List ShutdownAction}
    (hcall : s.shared.call c = some (shared, op)) (hstarted : program.Started op s.ops ops) : Answered ⟨shared, ops⟩ := by
  have hmore : ∀ w, Anywhere s.ops w → Anywhere ops w := fun w ⟨b, hb, hw⟩ =>
    ⟨b, (hstarted.has b).2 (has_cons.2 (.inr hb)), hw⟩
  refine ⟨h.alone.call hcall hstarted, fun howed => ?_⟩
  obtain ⟨rfl, _⟩ := call_cases hcall
  exact (h.answer howed).imp_right (Or.imp (hmore _) (And.imp (hmore _) (Or.imp_right (hmore _))))

/-- Whoever is turned away by a thread in the loop has one that will look. -/
theorem Alone.someone (h : Alone s) (hadvancing : s.shared.isAdvancing = true)
    (hleaves : ¬Anywhere s.ops ShutdownAction.leaves) :
    Anywhere s.ops ShutdownAction.moves ∨ Anywhere s.ops ShutdownAction.retests := by
  unfold Alone at h
  rw [hadvancing, if_pos rfl] at h
  obtain ⟨b, hb, hpos⟩ := exists_of_weight_pos (show 0 < weight ShutdownAction.advancing s.ops by omega)
  cases b with
  | loadPhase              => exact .inl ⟨_, hb, rfl⟩
  | storePhase current     => exact .inl ⟨_, hb, rfl⟩
  | callCallback current   => exact .inr ⟨_, hb, rfl⟩
  | exchangePending        => exact .inr ⟨_, hb, rfl⟩
  | resetAdvancing         => exact absurd ⟨_, hb, rfl⟩ hleaves
  | _                      => exact absurd hpos (Nat.lt_irrefl 0)

theorem Answered.act (h : Answered s) (hk : s.ops[k]? = some (a :: rest)) (hQ : Heard s k input a)
    (hact : s.shared.act input a = some (shared, pushed)) : Answered ⟨shared, advance s.ops k pushed⟩ := by
  refine ⟨h.alone.act hk hact, ?_⟩
  dsimp only
  have hpushed : ∀ {w : ShutdownAction → Bool} {b}, b ∈ pushed → w b = true → Anywhere (advance s.ops k pushed) w :=
    fun hb hw => .of_mem hb hw hk
  have hkeep : ∀ w : ShutdownAction → Bool, w a = false → Anywhere s.ops w → Anywhere (advance s.ops k pushed) w :=
    fun w ha hw => hw.advance hk ha pushed
  have hquiet : shared.owed = s.shared.owed → shared.currentPhase = s.shared.currentPhase →
      shared.pendingAdvance = s.shared.pendingAdvance → a.moves = false → a.retests = false → a.records = false →
      (shared.owed = true → shared.currentPhase = .done ∨ Anywhere (advance s.ops k pushed) ShutdownAction.moves ∨
        Anywhere (advance s.ops k pushed) ShutdownAction.retests ∧
          (shared.pendingAdvance = true ∨ Anywhere (advance s.ops k pushed) ShutdownAction.records)) := by
    intro howed hphase hpending hmoves hretests hrecords howed'
    rw [hphase, hpending]
    exact (h.answer (howed ▸ howed')).imp_right
      (Or.imp (hkeep _ hmoves) (And.imp (hkeep _ hretests) (Or.imp_right (hkeep _ hrecords))))
  obtain ⟨hturned, hlooks, hclears⟩ := hQ
  cases a with
  | exchangeAdvancing =>
    simp only [ShutdownManager.act] at hact
    by_cases hadvancing : s.shared.isAdvancing = true
    · rw [if_pos hadvancing] at hact
      cases hact
      intro _
      have hrecords := hpushed (w := ShutdownAction.records) (List.mem_singleton_self _) rfl
      rcases h.alone.someone hadvancing (hturned rfl hadvancing) with hmoves | hretests
      · exact .inr (.inl (hkeep _ rfl hmoves))
      · exact .inr (.inr ⟨hkeep _ rfl hretests, .inr hrecords⟩)
    · rw [if_neg hadvancing] at hact
      cases hact
      intro _
      exact .inr (.inl (hpushed (List.mem_singleton_self _) rfl))
  | storePending =>
    cases hact
    intro howed
    rcases h.answer howed with hdone | hmoves | ⟨hretests, _⟩
    · exact .inl hdone
    · exact .inr (.inl (hkeep _ rfl hmoves))
    · exact .inr (.inr ⟨hkeep _ rfl hretests, .inl rfl⟩)
  | loadPhase =>
    cases hact
    intro _
    by_cases hdone : s.shared.currentPhase = .done
    · exact .inl hdone
    · exact .inr (.inl (hpushed (by rw [if_neg hdone]; exact List.mem_singleton_self _) rfl))
  | storePhase current =>
    cases hact
    intro howed
    cases howed
  | callCallback current =>
    have hagain : .exchangePending ∈ pushed ∧ shared.owed = s.shared.owed ∧ shared.currentPhase = s.shared.currentPhase ∧
        shared.pendingAdvance = s.shared.pendingAdvance := by
      simp only [ShutdownManager.act] at hact
      split at hact
      · split at hact <;> cases hact <;> simp
      · cases hact
        simp
    obtain ⟨hmem, howed, hphase, hpending⟩ := hagain
    intro howed'
    rw [hphase, hpending]
    rcases h.answer (howed ▸ howed') with hdone | hmoves | ⟨_, hanswer⟩
    · exact .inl hdone
    · exact .inr (.inl (hkeep _ rfl hmoves))
    · exact .inr (.inr ⟨hpushed hmem rfl, hanswer.imp_right (hkeep _ rfl)⟩)
  | exchangePending =>
    cases hact
    intro howed
    have hpending := hlooks rfl howed
    exact .inr (.inl (hpushed (by rw [hpending]; exact List.mem_singleton_self _) rfl))
  | clearPending =>
    cases hact
    intro howed
    rcases h.answer howed with hdone | hmoves | ⟨hretests, hanswer⟩
    · exact .inl hdone
    · exact .inr (.inl (hkeep _ rfl hmoves))
    · rcases hanswer with hpending | hrecords
      · rcases hclears rfl howed hpending with hmoves | hrecords
        · exact .inr (.inl (hkeep _ rfl hmoves))
        · exact .inr (.inr ⟨hkeep _ rfl hretests, .inr (hkeep _ rfl hrecords)⟩)
      · exact .inr (.inr ⟨hkeep _ rfl hretests, .inr (hkeep _ rfl hrecords)⟩)
  | forceStore =>
    cases hact
    exact fun _ => .inl rfl
  | request | forceLock | waitLock timed | waitBlocked timed since =>
    simp only [ShutdownManager.act] at hact
    split at hact <;> cases hact <;> exact hquiet rfl rfl rfl rfl rfl rfl
  | _ =>
    cases hact
    exact hquiet rfl rfl rfl rfl rfl rfl

/-! ## Waits -/

/-- `phase_mutex_` has one holder, as long as it is locked. -/
def Locked (s : ShutdownThreads) : Prop := weight ShutdownAction.locks s.ops = if s.shared.phaseMutexLocked then 1 else 0

theorem Locked.call (h : Locked s) {c : ShutdownCall} {op : List ShutdownAction}
    (hcall : s.shared.call c = some (shared, op)) (hstarted : program.Started op s.ops ops) : Locked ⟨shared, ops⟩ := by
  have hweight := hstarted.weight ShutdownAction.locks
  obtain ⟨rfl, a, rfl, ha⟩ := call_cases hcall
  have hzero : a.locks = 0 := by
    rcases ha with rfl | rfl | rfl | ⟨timed, rfl⟩ <;> rfl
  rw [weight_cons, Tally.tally_cons, Tally.tally_nil, hzero] at hweight
  unfold Locked at h ⊢
  dsimp only
  omega

/-- What an action does to `phase_mutex_`. -/
theorem phaseMutexLocked_act {m m' : ShutdownManager} (h : m.act input a = some (m', pushed)) :
    (m.phaseMutexLocked = false ∧ m'.phaseMutexLocked = true ∧ a.locks = 0 ∧
        Tally.tally ShutdownAction.locks pushed = 1) ∨
      (m'.phaseMutexLocked = false ∧ a.locks = 1 ∧ Tally.tally ShutdownAction.locks pushed = 0) ∨
      (m'.phaseMutexLocked = m.phaseMutexLocked ∧ a.locks = Tally.tally ShutdownAction.locks pushed) := by
  cases a with
  | forceLock | waitLock timed =>
    simp only [ShutdownManager.act] at h
    by_cases hlocked : m.phaseMutexLocked = true
    · rw [if_pos hlocked] at h
      cases h
    · rw [if_neg hlocked] at h
      cases h
      exact .inl ⟨Bool.eq_false_iff.2 hlocked, rfl, rfl, rfl⟩
  | waitBlock timed | unlock =>
    cases h
    exact .inr (.inl ⟨rfl, rfl, rfl⟩)
  | callCallback current =>
    simp only [ShutdownManager.act] at h
    split at h
    · split at h <;> cases h <;> exact .inr (.inr ⟨rfl, rfl⟩)
    · cases h
      exact .inr (.inr ⟨rfl, rfl⟩)
  | loadPhase | exchangePending | waitTest timed =>
    simp only [ShutdownManager.act] at h
    cases h
    split <;> exact .inr (.inr ⟨rfl, rfl⟩)
  | request | exchangeAdvancing | waitBlocked timed since =>
    simp only [ShutdownManager.act] at h
    split at h <;> cases h <;> exact .inr (.inr ⟨rfl, rfl⟩)
  | _ =>
    cases h
    exact .inr (.inr ⟨rfl, rfl⟩)

theorem Locked.act (h : Locked s) (hk : s.ops[k]? = some (a :: rest))
    (hact : s.shared.act input a = some (shared, pushed)) : Locked ⟨shared, advance s.ops k pushed⟩ := by
  have hweight := weight_advance ShutdownAction.locks pushed hk
  unfold Locked at h ⊢
  dsimp only
  rcases phaseMutexLocked_act hact with ⟨hbefore, hafter, ha, hpushed⟩ | ⟨hafter, ha, hpushed⟩ | ⟨hsame, ha⟩
  · rw [hbefore, if_neg Bool.false_ne_true] at h
    rw [hafter, if_pos rfl]
    omega
  · rw [hafter, if_neg Bool.false_ne_true]
    split at h <;> omega
  · rw [hsame, ← h]
    omega

/-- Who waits when the phase is done has been notified, or will be. -/
structure Waking (s : ShutdownThreads) : Prop where
  locked    : Locked s
  blocked   : ∀ timed since, Has s.ops (.waitBlocked timed since) → since ≤ s.shared.notifications
  unblocked : s.shared.currentPhase = .done → ¬Anywhere s.ops ShutdownAction.blocks
  woken     : s.shared.currentPhase = .done → ∀ timed since, Has s.ops (.waitBlocked timed since) →
    since < s.shared.notifications ∨ Anywhere s.ops ShutdownAction.notifies

theorem Waking.call (h : Waking s) {c : ShutdownCall} {op : List ShutdownAction}
    (hcall : s.shared.call c = some (shared, op)) (hstarted : program.Started op s.ops ops) : Waking ⟨shared, ops⟩ := by
  have hlocked := h.locked.call hcall hstarted
  obtain ⟨rfl, a, rfl, ha⟩ := call_cases hcall
  have hold : ∀ b, b ≠ a → Has ops b → Has s.ops b := fun b hb hhas =>
    (has_cons.1 ((hstarted.has b).1 hhas)).resolve_left fun hmem => hb (List.mem_singleton.1 hmem)
  have hblocked : ∀ timed since, .waitBlocked timed since ≠ a := by
    rintro timed since rfl
    simp at ha
  refine ⟨hlocked, fun timed since hb => h.blocked timed since (hold _ (hblocked timed since) hb), ?_, ?_⟩
  · rintro hdone ⟨b, hb, hblocks⟩
    refine h.unblocked hdone ⟨b, hold b ?_ hb, hblocks⟩
    rintro rfl
    rcases ha with rfl | rfl | rfl | ⟨timed, rfl⟩ <;> cases hblocks
  · intro hdone timed since hb
    refine (h.woken hdone timed since (hold _ (hblocked timed since) hb)).imp_right ?_
    exact fun ⟨b, hb, hw⟩ => ⟨b, (hstarted.has b).2 (has_cons.2 (.inr hb)), hw⟩

theorem Waking.act (h : Waking s) (hk : s.ops[k]? = some (a :: rest)) (hQ : Awaited s k input a)
    (hact : s.shared.act input a = some (shared, pushed)) : Waking ⟨shared, advance s.ops k pushed⟩ := by
  have hlocked := h.locked.act hk hact
  have hold : ∀ timed since, .waitBlocked timed since ∉ pushed →
      Has (advance s.ops k pushed) (.waitBlocked timed since) → Has s.ops (.waitBlocked timed since) :=
    fun timed since hnot hb => (((has_advance hk).1 hb).resolve_left hnot).of_advance
  -- a phase that is stored is told
  have hstored : shared.notifications = s.shared.notifications → ¬Anywhere s.ops ShutdownAction.blocks →
      .notifyAll ∈ pushed → (∀ timed since, .waitBlocked timed since ∉ pushed) → (∀ b ∈ pushed, b.blocks = false) →
      Waking ⟨shared, advance s.ops k pushed⟩ := by
    intro hnotifications hnone hmem hblocked hblocks
    refine ⟨hlocked, fun timed since hb => ?_, fun _ hw => hnone (hw.of_advance hk hblocks), fun _ _ _ _ => ?_⟩
    · rw [hnotifications]
      exact h.blocked timed since (hold timed since (hblocked timed since) hb)
    · exact .inr (.of_mem hmem rfl hk)
  have hquiet : shared.currentPhase = s.shared.currentPhase → shared.notifications = s.shared.notifications →
      a.notifies = false → (∀ timed since, .waitBlocked timed since ∉ pushed) →
      (s.shared.currentPhase = .done → ∀ b ∈ pushed, b.blocks = false) → Waking ⟨shared, advance s.ops k pushed⟩ := by
    intro hphase hnotifications hnotifies hblocked hblocks
    refine ⟨hlocked, fun timed since hb => ?_, fun hdone hw => ?_, fun hdone timed since hb => ?_⟩
    · rw [hnotifications]
      exact h.blocked timed since (hold timed since (hblocked timed since) hb)
    · exact h.unblocked (hphase ▸ hdone) (hw.of_advance hk (hblocks (hphase ▸ hdone)))
    · rw [hnotifications]
      exact (h.woken (hphase ▸ hdone) timed since (hold timed since (hblocked timed since) hb)).imp_right
        fun hw => hw.advance hk hnotifies pushed
  cases a with
  | notifyAll =>
    cases hact
    have hlt : ∀ timed since, Has (advance s.ops k []) (.waitBlocked timed since) → since < s.shared.notifications + 1 :=
      fun timed since hb => Nat.lt_succ_of_le (h.blocked timed since hb.of_advance)
    refine ⟨hlocked, fun timed since hb => Nat.le_of_lt (hlt timed since hb), fun hdone hw => ?_, ?_⟩
    · exact h.unblocked hdone (hw.of_advance hk fun b hb => nomatch hb)
    · exact fun _ timed since hb => .inl (hlt timed since hb)
  | storePhase current =>
    cases hact
    by_cases hdone : current.next = .done
    · apply hstored rfl (hQ (decide_eq_true hdone)) <;> simp [ShutdownAction.blocks]
    · refine ⟨hlocked, fun timed since hb => h.blocked timed since (hold timed since (by simp) hb), ?_, ?_⟩
      · exact fun hd => absurd hd hdone
      · exact fun hd => absurd hd hdone
  | forceStore =>
    -- the holder of the mutex is not about to block
    have hnone : ¬Anywhere s.ops ShutdownAction.blocks := by
      rintro ⟨b, hb, hblocks⟩
      have hlocks : b.locks = 1 := by
        cases b with
        | waitBlock timed => rfl
        | _               => cases hblocks
      have hne : b ≠ .forceStore := by
        rintro rfl
        cases hblocks
      have hzero := Threads.alone (w := ShutdownAction.locks) hk
        (by have hl := h.locked; unfold Locked at hl; split at hl <;> simp only [ShutdownAction.locks] <;> omega)
        (hb.advance hk hne [])
      omega
    cases hact
    apply hstored rfl hnone <;> simp [ShutdownAction.blocks]
  | waitTest timed =>
    cases hact
    by_cases hends : s.shared.currentPhase = .done ∨ timed && input.timedOut
    · rw [if_pos hends] at hquiet ⊢
      exact hquiet rfl rfl rfl (by simp) (by simp [ShutdownAction.blocks])
    · rw [if_neg hends] at hquiet ⊢
      exact hquiet rfl rfl rfl (by simp) fun hdone => absurd (.inl hdone) hends
  | waitBlock timed =>
    have hdone : s.shared.currentPhase ≠ .done := fun hdone =>
      h.unblocked hdone ⟨_, has_of_getElem? hk, rfl⟩
    cases hact
    refine ⟨hlocked, fun timed' since hb => ?_, fun hd => absurd hd hdone, fun hd => absurd hd hdone⟩
    rcases (has_advance hk).1 hb with hmem | hb
    · cases List.mem_singleton.1 hmem
      exact Nat.le_refl _
    · exact h.blocked timed' since hb.of_advance
  | callCallback current =>
    simp only [ShutdownManager.act] at hact
    split at hact
    · split at hact <;> cases hact <;> exact hquiet rfl rfl rfl (by simp) (by simp [ShutdownAction.blocks])
    · cases hact
      exact hquiet rfl rfl rfl (by simp) (by simp [ShutdownAction.blocks])
  | loadPhase | exchangePending =>
    cases hact
    apply hquiet rfl rfl rfl <;> split <;> simp [resetGuard, ShutdownAction.blocks]
  | request | exchangeAdvancing | forceLock | waitLock timed | waitBlocked timed since =>
    simp only [ShutdownManager.act] at hact
    split at hact <;> cases hact <;> exact hquiet rfl rfl rfl (by simp) (by simp [ShutdownAction.blocks])
  | _ =>
    cases hact
    exact hquiet rfl rfl rfl (by simp) (by simp [ShutdownAction.blocks])

/-! ## Runs -/

theorem answered_preserves : Program.Preserves program Heard Answered where
  call := fun _ hs _ _ _ _ hcall hstarted => hs.call hcall hstarted
  act  := fun _ hs _ _ _ _ _ _ hk hQ hact => hs.act hk hQ hact

theorem waking_preserves : Program.Preserves program Awaited Waking where
  call := fun _ hs _ _ _ _ hcall hstarted => hs.call hcall hstarted
  act  := fun _ hs _ _ _ _ _ _ hk hQ hact => hs.act hk hQ hact

/-- Where no thread is in the loop and the phase is not done, nobody was turned away since it was stored; and who waits
when it is done has been notified, or will be. -/
def NothingLost (s : ShutdownThreads) : Prop :=
  (s.shared.owed = true → s.shared.currentPhase ≠ .done → Anywhere s.ops ShutdownAction.advances) ∧
  (s.shared.currentPhase = .done → ∀ timed since, Has s.ops (.waitBlocked timed since) →
    since < s.shared.notifications ∨ Anywhere s.ops ShutdownAction.notifies)

theorem Answered.advances (h : Answered s) (howed : s.shared.owed = true) (hphase : s.shared.currentPhase ≠ .done) :
    Anywhere s.ops ShutdownAction.advances := by
  have hin : ∀ {w : ShutdownAction → Bool}, (∀ b, w b = true → b.advances = true) → Anywhere s.ops w →
      Anywhere s.ops ShutdownAction.advances := fun hw ⟨b, hb, hwb⟩ => ⟨b, hb, hw b hwb⟩
  rcases (h.answer howed).resolve_left hphase with hmoves | ⟨hretests, _⟩
  · exact hin (fun b hb => by cases b <;> first | rfl | cases hb) hmoves
  · exact hin (fun b hb => by cases b <;> first | rfl | cases hb) hretests

/-- **In a run in which nobody is turned away while no one looks, and none blocks behind the last store, no request and no
wake-up is lost.** -/
theorem run_nothingLost (initialized : ShutdownCallback → Bool) (events : List (Event ShutdownInput ShutdownCall))
    (h : Along program.step (Program.AtAction Heeded) (init initialized) events) :
    NothingLost (events.foldl program.step (init initialized)) := by
  have hinit : Answered (init initialized) ∧ Waking (init initialized) := by
    refine ⟨⟨rfl, fun howed => nomatch howed⟩, ⟨rfl, fun _ _ hb => absurd hb not_has_nil, ?_, ?_⟩⟩
    · exact fun hdone => nomatch hdone
    · exact fun hdone => nomatch hdone
  obtain ⟨hanswered, hwaking⟩ := (answered_preserves.and waking_preserves).run events hinit h
  exact ⟨hanswered.advances, hwaking.woken⟩

/-- A callback calls `NextPhase` while a thread waits; the phase is forced afterwards. -/
def heardInCallback : List (Event ShutdownInput ShutdownCall) :=
  [.call .shutdown, .call (.waitForShutdown false)] ++ List.replicate 3 (.step 1 {}) ++ List.replicate 6 (.step 0 {}) ++
    [.inside 0 .nextPhase] ++ List.replicate 4 (.step 0 {}) ++ [.call .forceShutdown] ++ List.replicate 2 (.step 2 {})

theorem run_nothingLost_heardInCallback : NothingLost (heardInCallback.foldl program.step (init fun _ => true)) :=
  run_nothingLost (fun _ => true) heardInCallback (by decide)

/-- A request that finds `is_advancing_` set after the last look, and is recorded when the guard has gone. -/
theorem not_run_nothingLost : ¬∀ (initialized : ShutdownCallback → Bool) (events : List (Event ShutdownInput ShutdownCall)),
    NothingLost (events.foldl program.step (init initialized)) := by
  intro h
  have hlost := (h (fun _ => false) <| List.flatten
    [[.call .shutdown], List.replicate 7 (.step 0 {}), [.call .nextPhase, .step 1 {}], List.replicate 2 (.step 0 {}),
      [.step 1 {}]]).1
  exact absurd (hlost rfl (by decide)) (by decide)

end ShutdownManager

end Gb
