import GbServer.Lib.Interleaving
import GbServer.NetworkDispatch
/-!
# HandlerFreeze — lookups of handlers while the maps are frozen

`NetworkManager::Freeze` with `FindListenFunction`, `FindRpcFunction` and the calls that register handlers
(`network_manager.cpp`), on any threads.  `Freeze` takes the registrations of both maps away, one after the other, and only
then publishes what it took; a lookup loads the published snapshot, and reads that or, if there is none, the map.  An RPC
method is its key.

Beside each map stands what has been done with it: how often it was taken, the number of the snapshot that was published
last, the registrations of each time between two takings (`entered`), and the keys registered before the first taking that
have not been unregistered since (`kept`).  A kept handler is found in every lookup exactly if no lookup of it ends behind a
taking while it began before the first publishing, and none begins behind the publishing of a later snapshot than the first;
unless the handler was registered again before that taking, or since (`run_found_iff`).
-/
namespace Gb

open Run (Along)
open Threads Interleaving

inductive HandlerKind
  | listen
  | rpc
  deriving DecidableEq

structure HandlerSnapshot where
  number    : Nat
  functions : Nat → Option HandlerId

/-- One of the two maps, with its frozen snapshot; and what has been done with it. -/
structure HandlerMap where
  functions : Nat → Option HandlerId := fun _ => none
  frozen    : Option HandlerSnapshot := none
  taken     : Nat := 0
  published : Option Nat := none
  entered   : List (Nat × Nat) := []
  kept      : List Nat := []

namespace HandlerMap

variable (m : HandlerMap)

def enter (key : Nat) (functions : Nat → Option HandlerId) : HandlerMap :=
  { m with functions := functions
           entered   := (m.taken, key) :: m.entered
           kept      := if m.taken = 0 then key :: m.kept else m.kept }

/-- `ListenOption`. -/
def assign (key : Nat) (f : HandlerId) : HandlerMap := m.enter key (Function.update m.functions key (some f))

/-- `RegisterOption`: the first one stays. -/
def insert (key : Nat) (f : HandlerId) : HandlerMap :=
  m.enter key (if (m.functions key).isSome then m.functions else Function.update m.functions key (some f))

/-- `UnListen` and `UnRegister`. -/
def erase (key : Nat) : HandlerMap :=
  { m with functions := Function.update m.functions key none
           entered   := m.entered.filter fun e => e ≠ (m.taken, key)
           kept      := m.kept.filter fun other => other ≠ key }

/-- The copy that `Freeze` makes, and the map that it clears. -/
def take : HandlerSnapshot × HandlerMap :=
  (⟨m.taken, m.functions⟩, { m with functions := fun _ => none, taken := m.taken + 1 })

/-- The store of the snapshot. -/
def publish (snapshot : HandlerSnapshot) : HandlerMap := { m with frozen := some snapshot }

/-- That snapshot `number` is published, whatever that does to the map. -/
def recordPublished (number : Nat) : HandlerMap := { m with published := some number }

/-- What a lookup reads that has loaded this. -/
def read (frozen : Option HandlerSnapshot) (key : Nat) : Option HandlerId :=
  match frozen with
  | some snapshot => snapshot.functions key
  | none          => m.functions key

/-- A lookup of the key that began when snapshot `seen` was the one published, and ends now, is in time: what it comes to
read has not been emptied, or the key was registered again. -/
def InTime (seen : Option Nat) (key : Nat) : Prop :=
  match seen with
  | some number => number = 0 ∨ (number, key) ∈ m.entered
  | none        => m.taken = 0 ∨ (m.taken, key) ∈ m.entered

instance (seen : Option Nat) (key : Nat) : Decidable (m.InTime seen key) :=
  match seen with
  | some _ => inferInstanceAs (Decidable (_ ∨ _))
  | none   => inferInstanceAs (Decidable (_ ∨ _))

end HandlerMap

/-- A lookup that has returned; `kept` is whether it was for one of the handlers that have to be found. -/
structure HandlerLookup where
  kind  : HandlerKind
  key   : Nat
  kept  : Bool
  found : Option HandlerId

structure HandlerMaps where
  maps    : HandlerKind → HandlerMap := fun _ => {}
  lookups : List HandlerLookup := []

/-- The steps of `Freeze` and of a lookup.  A lookup keeps, beside the pointer that it loaded, which snapshot was published
then. -/
inductive HandlerAction
  | takeListen
  | takeRpc (listenSnapshot : HandlerSnapshot)
  | publish (kind : HandlerKind) (snapshot : HandlerSnapshot)
  | load (kind : HandlerKind) (key : Nat)
  | find (kind : HandlerKind) (key : Nat) (frozen : Option HandlerSnapshot) (seen : Option Nat)

inductive HandlerOperation
  | listenOption (type : Nat) (f : HandlerId)
  | unListen (type : Nat)
  | registerOption (method : Nat) (f : HandlerId)
  | unRegister (method : Nat)
  | freeze
  | findListenFunction (type : Nat)
  | findRpcFunction (method : Nat)

namespace HandlerMaps

variable (s : HandlerMaps)

def update (kind : HandlerKind) (m : HandlerMap) : HandlerMaps := { s with maps := Function.update s.maps kind m }

@[simp] theorem maps_update_self (kind : HandlerKind) (m : HandlerMap) : (s.update kind m).maps kind = m := by
  simp [update]

theorem maps_update_of_ne {kind kind' : HandlerKind} (h : kind' ≠ kind) (m : HandlerMap) :
    (s.update kind m).maps kind' = s.maps kind' := by
  simp [update, h]

def act (_ : Unit) : HandlerAction → Option (HandlerMaps × List HandlerAction)
  | .takeListen             =>
    let (snapshot, m) := (s.maps .listen).take
    some (s.update .listen m, [.takeRpc snapshot])
  | .takeRpc listenSnapshot =>
    let (snapshot, m) := (s.maps .rpc).take
    some (s.update .rpc m, [.publish .listen listenSnapshot, .publish .rpc snapshot])
  | .publish kind snapshot  => some (s.update kind (((s.maps kind).publish snapshot).recordPublished snapshot.number), [])
  | .load kind key          => some (s, [.find kind key (s.maps kind).frozen (s.maps kind).published])
  | .find kind key frozen _ =>
    let m := s.maps kind
    some ({ s with lookups := ⟨kind, key, decide (key ∈ m.kept), m.read frozen key⟩ :: s.lookups }, [])

/-- The registrations hold the lock of their map from their beginning to their end. -/
def call : HandlerOperation → Option (HandlerMaps × List HandlerAction)
  | .listenOption type f     => some (s.update .listen ((s.maps .listen).assign type f), [])
  | .unListen type           => some (s.update .listen ((s.maps .listen).erase type), [])
  | .registerOption method f => some (s.update .rpc ((s.maps .rpc).insert method f), [])
  | .unRegister method       => some (s.update .rpc ((s.maps .rpc).erase method), [])
  | .freeze                  => some (s, [.takeListen])
  | .findListenFunction type => some (s, [.load .listen type])
  | .findRpcFunction method  => some (s, [.load .rpc method])

def program : Program HandlerMaps Unit HandlerOperation HandlerAction := ⟨act, call, fun _ => false⟩

/-- The maps as a message finds them that is dispatched at once. -/
def handlers : Handlers where
  listenFunctionMap     := (s.maps .listen).functions
  frozenListenMap       := (s.maps .listen).frozen.map HandlerSnapshot.functions
  rpcInterfaceMap       := (s.maps .rpc).functions
  frozenRpcInterfaceMap := (s.maps .rpc).frozen.map HandlerSnapshot.functions

/-- A lookup that nothing comes between. -/
theorem read_handlers (key : Nat) :
    (s.maps .listen).read (s.maps .listen).frozen key = s.handlers.findListenFunction key ∧
      (s.maps .rpc).read (s.maps .rpc).frozen key = s.handlers.findRpcFunction key := by
  unfold HandlerMap.read handlers Handlers.findListenFunction Handlers.findRpcFunction
  constructor
  · cases (s.maps .listen).frozen <;> rfl
  · cases (s.maps .rpc).frozen <;> rfl

end HandlerMaps

abbrev HandlerThreads := State HandlerMaps HandlerAction

/-! ## What the maps hold -/

/-- What a snapshot holds was entered in it. -/
def HandlerSnapshot.Of (snapshot : HandlerSnapshot) (m : HandlerMap) : Prop :=
  snapshot.number < m.taken ∧ ∀ key, (snapshot.functions key).isSome = true ↔ (snapshot.number, key) ∈ m.entered

/-- The record of one map. -/
structure HandlerMap.Recorded (m : HandlerMap) : Prop where
  holds  : ∀ key, (m.functions key).isSome = true ↔ (m.taken, key) ∈ m.entered
  before : ∀ e ∈ m.entered, e.1 ≤ m.taken
  kept   : ∀ key ∈ m.kept, (0, key) ∈ m.entered
  frozen : ∀ snapshot ∈ m.frozen, snapshot.Of m
  stored : m.frozen.map HandlerSnapshot.number = m.published

namespace HandlerMap.Recorded

variable {m : HandlerMap} (h : m.Recorded)

include h

theorem enter {key : Nat} {functions : Nat → Option HandlerId}
    (hfunctions : ∀ other, (functions other).isSome = true ↔ other = key ∨ (m.functions other).isSome = true) :
    (m.enter key functions).Recorded where
  holds  := fun other => by
    simp only [HandlerMap.enter]
    rw [hfunctions, h.holds, List.mem_cons, Prod.mk.injEq, eq_self_iff_true, true_and]
  before := fun e he => by
    rcases List.mem_cons.1 he with rfl | he
    · exact Nat.le_refl _
    · exact h.before e he
  stored := h.stored
  kept   := fun other hother => by
    simp only [HandlerMap.enter] at hother ⊢
    split at hother
    · rename_i hzero
      rcases List.mem_cons.1 hother with rfl | hother
      · rw [hzero]
        exact List.mem_cons_self
      · exact List.mem_cons_of_mem _ (h.kept other hother)
    · exact List.mem_cons_of_mem _ (h.kept other hother)
  frozen := fun snapshot hsnapshot => by
    obtain ⟨hlt, hholds⟩ := h.frozen snapshot hsnapshot
    refine ⟨hlt, fun other => ?_⟩
    rw [hholds, HandlerMap.enter, List.mem_cons, Prod.mk.injEq]
    exact ⟨.inr, fun hor => hor.resolve_left fun heq => Nat.ne_of_lt hlt heq.1⟩

theorem assign (key : Nat) (f : HandlerId) : (m.assign key f).Recorded := by
  refine h.enter fun other => ?_
  by_cases hother : other = key
  · simp [hother]
  · simp [hother]

theorem insert (key : Nat) (f : HandlerId) : (m.insert key f).Recorded := by
  refine h.enter fun other => ?_
  by_cases hsome : (m.functions key).isSome = true
  · rw [if_pos hsome]
    refine ⟨.inr, fun hor => hor.elim (fun heq => ?_) id⟩
    rw [heq]
    exact hsome
  · rw [if_neg hsome]
    by_cases hother : other = key
    · simp [hother]
    · simp [hother]

theorem erase (key : Nat) : (m.erase key).Recorded where
  holds  := fun other => by
    simp only [HandlerMap.erase, List.mem_filter, decide_eq_true_eq, ne_eq, Prod.mk.injEq, true_and]
    by_cases hother : other = key
    · simp [hother]
    · simp [hother, h.holds]
  before := fun e he => h.before e (List.mem_of_mem_filter he)
  stored := h.stored
  kept   := fun other hother => by
    simp only [HandlerMap.erase, List.mem_filter, decide_eq_true_eq, ne_eq, Prod.mk.injEq] at hother ⊢
    exact ⟨h.kept other hother.1, fun heq => hother.2 heq.2⟩
  frozen := fun snapshot hsnapshot => by
    obtain ⟨hlt, hholds⟩ := h.frozen snapshot hsnapshot
    refine ⟨hlt, fun other => ?_⟩
    simp only [hholds, HandlerMap.erase, List.mem_filter, decide_eq_true_eq, ne_eq, Prod.mk.injEq]
    exact ⟨fun hmem => ⟨hmem, fun heq => Nat.ne_of_lt hlt heq.1⟩, fun hmem => hmem.1⟩

theorem take : m.take.2.Recorded where
  holds  := fun key => by
    simp only [HandlerMap.take, Option.isSome_none, Bool.false_eq_true, false_iff]
    intro hmem
    have hle := h.before _ hmem
    dsimp only at hle
    omega
  before := fun e he => Nat.le_succ_of_le (h.before e he)
  kept   := h.kept
  stored := h.stored
  frozen := fun snapshot hsnapshot => by
    obtain ⟨hlt, hholds⟩ := h.frozen snapshot hsnapshot
    exact ⟨Nat.lt_succ_of_lt hlt, hholds⟩

theorem take_of : m.take.1.Of m.take.2 := ⟨Nat.lt_succ_self _, h.holds⟩

theorem publish {snapshot : HandlerSnapshot} (hof : snapshot.Of m) :
    ((m.publish snapshot).recordPublished snapshot.number).Recorded where
  holds  := h.holds
  before := h.before
  kept   := h.kept
  stored := rfl
  frozen := fun other hother => by
    obtain rfl := Option.some.inj hother
    exact hof

/-- A lookup that read a pointer when `seen` was published finds a kept key exactly if it is in time. -/
theorem read_iff {frozen : Option HandlerSnapshot} (hfrozen : ∀ snapshot ∈ frozen, snapshot.Of m) {seen : Option Nat}
    (hseen : frozen.map HandlerSnapshot.number = seen) (key : Nat) (hkept : key ∈ m.kept) :
    (m.read frozen key).isSome = true ↔ m.InTime seen key := by
  have hfirst := h.kept key hkept
  subst hseen
  cases frozen with
  | some snapshot =>
    have hread : (m.read (some snapshot) key).isSome = true ↔ (snapshot.number, key) ∈ m.entered :=
      (hfrozen snapshot rfl).2 key
    rw [hread]
    refine ⟨.inr, fun hor => hor.elim (fun hzero => ?_) id⟩
    rwa [hzero]
  | none          =>
    have hread : (m.read none key).isSome = true ↔ (m.taken, key) ∈ m.entered := h.holds key
    rw [hread]
    refine ⟨.inr, fun hor => hor.elim (fun hzero => ?_) id⟩
    rwa [hzero]

end HandlerMap.Recorded

namespace HandlerSnapshot

variable {snapshot : HandlerSnapshot} {m : HandlerMap}

/-- What was entered in a snapshot does not change. -/
theorem Of.congr {m' : HandlerMap} (h : snapshot.Of m) (htaken : m.taken ≤ m'.taken)
    (hentered : ∀ e : Nat × Nat, e.1 < m.taken → (e ∈ m'.entered ↔ e ∈ m.entered)) : snapshot.Of m' :=
  ⟨Nat.lt_of_lt_of_le h.1 htaken, fun key => (h.2 key).trans (hentered (snapshot.number, key) h.1).symm⟩

theorem Of.enter (h : snapshot.Of m) (key : Nat) (functions : Nat → Option HandlerId) :
    snapshot.Of (m.enter key functions) := by
  refine h.congr (Nat.le_refl _) fun e he => ?_
  simp only [HandlerMap.enter, List.mem_cons]
  exact ⟨fun hor => hor.resolve_left fun heq => Nat.ne_of_lt he (congrArg Prod.fst heq), .inr⟩

theorem Of.erase (h : snapshot.Of m) (key : Nat) : snapshot.Of (m.erase key) := by
  refine h.congr (Nat.le_refl _) fun e he => ?_
  simp only [HandlerMap.erase, List.mem_filter, decide_eq_true_eq, ne_eq]
  exact ⟨fun hmem => hmem.1, fun hmem => ⟨hmem, fun heq => Nat.ne_of_lt he (congrArg Prod.fst heq)⟩⟩

theorem Of.take (h : snapshot.Of m) : snapshot.Of m.take.2 := h.congr (Nat.le_succ _) fun _ _ => Iff.rfl

theorem Of.publish (h : snapshot.Of m) (other : HandlerSnapshot) :
    snapshot.Of ((m.publish other).recordPublished other.number) := h

end HandlerSnapshot

/-! ## The threads -/

/-- The snapshots that an action has at hand. -/
def HandlerAction.Carries (kind : HandlerKind) (snapshot : HandlerSnapshot) : HandlerAction → Prop
  | takeListen             => False
  | takeRpc listenSnapshot => kind = .listen ∧ snapshot = listenSnapshot
  | publish kind' other    => kind = kind' ∧ snapshot = other
  | load _ _               => False
  | find kind' _ frozen _  => kind = kind' ∧ frozen = some snapshot

/-- What a lookup loaded is what was published. -/
def HandlerAction.Seen : HandlerAction → Prop
  | find _ _ frozen seen => frozen.map HandlerSnapshot.number = seen
  | _                    => True

namespace HandlerMaps

structure Recorded (s : HandlerThreads) : Prop where
  maps    : ∀ kind, (s.shared.maps kind).Recorded
  carried : ∀ a, Has s.ops a → ∀ kind snapshot, a.Carries kind snapshot → snapshot.Of (s.shared.maps kind)
  seen    : ∀ a, Has s.ops a → a.Seen

/-- Every lookup of a kept handler has found it. -/
def Found (s : HandlerThreads) : Prop := ∀ lookup ∈ s.shared.lookups, lookup.kept = true → lookup.found.isSome = true

/-- Every lookup of a kept handler ends in time. -/
def Timely (s : HandlerThreads) (_ : Nat) (_ : Unit) : HandlerAction → Prop
  | .find kind key _ seen => key ∈ (s.shared.maps kind).kept → (s.shared.maps kind).InTime seen key
  | _                     => True

instance (s : HandlerThreads) (k : Nat) (input : Unit) : (a : HandlerAction) → Decidable (Timely s k input a)
  | .find _ _ _ _ => inferInstanceAs (Decidable (_ → _))
  | .takeListen   => isTrue trivial
  | .takeRpc _    => isTrue trivial
  | .publish _ _  => isTrue trivial
  | .load _ _     => isTrue trivial

variable {s : HandlerThreads} {shared : HandlerMaps} {ops : List (List HandlerAction)} {k : Nat} {a : HandlerAction}
  {rest pushed : List HandlerAction}

/-- One map changes, and with it nothing of what was entered in its snapshots. -/
theorem Recorded.update (h : Recorded s) {kind : HandlerKind} {m : HandlerMap} (hm : m.Recorded)
    (hof : ∀ snapshot : HandlerSnapshot, snapshot.Of (s.shared.maps kind) → snapshot.Of m)
    (hops : ∀ b, Has ops b → Has s.ops b ∨ b.Seen ∧ ∀ kind' snapshot, b.Carries kind' snapshot →
      snapshot.Of ((s.shared.update kind m).maps kind')) : Recorded ⟨s.shared.update kind m, ops⟩ where
  maps    := fun kind' => by
    by_cases hkind : kind' = kind
    · subst hkind
      rw [maps_update_self]
      exact hm
    · rw [maps_update_of_ne _ hkind]
      exact h.maps kind'
  carried := fun b hb kind' snapshot hcarries => by
    rcases hops b hb with hold | hnew
    · have hbefore := h.carried b hold kind' snapshot hcarries
      by_cases hkind : kind' = kind
      · subst hkind
        rw [maps_update_self]
        exact hof snapshot hbefore
      · rw [maps_update_of_ne _ hkind]
        exact hbefore
    · exact hnew.2 kind' snapshot hcarries
  seen    := fun b hb => (hops b hb).elim (h.seen b) And.left

theorem Recorded.call (h : Recorded s) {c : HandlerOperation} {op : List HandlerAction}
    (hcall : s.shared.call c = some (shared, op)) (hstarted : program.Started op s.ops ops) : Recorded ⟨shared, ops⟩ := by
  have hnone : ∀ b, Has ops b → b ∈ op ∨ Has s.ops b := fun b hb => has_cons.1 ((hstarted.has b).1 hb)
  cases c with
  | listenOption type f     =>
    cases hcall
    exact h.update ((h.maps .listen).assign type f) (fun _ hof => hof.enter _ _)
      fun b hb => .inl ((hnone b hb).resolve_left List.not_mem_nil)
  | unListen type           =>
    cases hcall
    exact h.update ((h.maps .listen).erase type) (fun _ hof => hof.erase _)
      fun b hb => .inl ((hnone b hb).resolve_left List.not_mem_nil)
  | registerOption method f =>
    cases hcall
    exact h.update ((h.maps .rpc).insert method f) (fun _ hof => hof.enter _ _)
      fun b hb => .inl ((hnone b hb).resolve_left List.not_mem_nil)
  | unRegister method       =>
    cases hcall
    exact h.update ((h.maps .rpc).erase method) (fun _ hof => hof.erase _)
      fun b hb => .inl ((hnone b hb).resolve_left List.not_mem_nil)
  | _                       =>
    cases hcall
    refine ⟨h.maps, fun b hb kind snapshot hcarries => ?_, fun b hb => ?_⟩
    · rcases hnone b hb with hb | hb
      · rw [List.mem_singleton.1 hb] at hcarries
        cases hcarries
      · exact h.carried b hb kind snapshot hcarries
    · rcases hnone b hb with hb | hb
      · rw [List.mem_singleton.1 hb]
        exact trivial
      · exact h.seen b hb

theorem Recorded.act (h : Recorded s) (hk : s.ops[k]? = some (a :: rest))
    (hact : s.shared.act () a = some (shared, pushed)) : Recorded ⟨shared, advance s.ops k pushed⟩ := by
  have hnew : ∀ b, Has (advance s.ops k pushed) b → b ∈ pushed ∨ Has s.ops b := fun b hb =>
    ((has_advance hk).1 hb).imp_right Has.of_advance
  have hhas := has_of_getElem? hk
  cases a with
  | takeListen             =>
    cases hact
    refine h.update (h.maps .listen).take (fun _ hof => hof.take) fun b hb => (hnew b hb).symm.imp_right fun hb => ?_
    rw [List.mem_singleton.1 hb]
    refine ⟨trivial, ?_⟩
    rintro kind snapshot ⟨rfl, rfl⟩
    rw [maps_update_self]
    exact (h.maps .listen).take_of
  | takeRpc listenSnapshot =>
    cases hact
    have hlisten := h.carried _ hhas .listen listenSnapshot ⟨rfl, rfl⟩
    refine h.update (h.maps .rpc).take (fun _ hof => hof.take) fun b hb => (hnew b hb).symm.imp_right fun hb => ?_
    rcases List.mem_cons.1 hb with rfl | hb
    · refine ⟨trivial, ?_⟩
      rintro kind snapshot ⟨rfl, rfl⟩
      rw [maps_update_of_ne _ (by decide)]
      exact hlisten
    · rw [List.mem_singleton.1 hb]
      refine ⟨trivial, ?_⟩
      rintro kind snapshot ⟨rfl, rfl⟩
      rw [maps_update_self]
      exact (h.maps .rpc).take_of
  | publish kind snapshot  =>
    cases hact
    have hof := h.carried _ hhas kind snapshot ⟨rfl, rfl⟩
    exact h.update ((h.maps kind).publish hof) (fun _ hother => hother.publish snapshot)
      fun b hb => .inl ((hnew b hb).resolve_left List.not_mem_nil)
  | load kind key          =>
    cases hact
    refine ⟨h.maps, fun b hb kind' snapshot hcarries => ?_, fun b hb => ?_⟩
    · rcases hnew b hb with hb | hb
      · rw [List.mem_singleton.1 hb] at hcarries
        obtain ⟨rfl, hfrozen⟩ := hcarries
        exact (h.maps kind').frozen snapshot hfrozen
      · exact h.carried b hb kind' snapshot hcarries
    · rcases hnew b hb with hb | hb
      · rw [List.mem_singleton.1 hb]
        exact (h.maps kind).stored
      · exact h.seen b hb
  | find kind key frozen _ =>
    cases hact
    have hold : ∀ b, Has (advance s.ops k []) b → Has s.ops b := fun b hb => (hnew b hb).resolve_left List.not_mem_nil
    exact ⟨h.maps, fun b hb => h.carried b (hold b hb), fun b hb => h.seen b (hold b hb)⟩

theorem recorded_preserves : Program.Preserves program (fun _ _ _ _ => True) Recorded where
  call := fun _ hs _ _ _ _ hcall hstarted => hs.call hcall hstarted
  act  := fun _ hs _ _ _ _ _ _ hk _ hact => hs.act hk hact

theorem recorded_init : Recorded ⟨{}, []⟩ where
  maps    := fun _ => ⟨fun _ => by simp, fun _ he => (nomatch he), fun _ hkey => (nomatch hkey), fun _ hs => (nomatch hs), rfl⟩
  carried := fun _ hb => absurd hb not_has_nil
  seen    := fun _ hb => absurd hb not_has_nil

/-! ## Runs -/

/-- Only the end of a lookup adds to the lookups. -/
theorem lookups_call {c : HandlerOperation} {op : List HandlerAction} (hcall : s.shared.call c = some (shared, op)) :
    shared.lookups = s.shared.lookups := by
  cases c <;> cases hcall <;> rfl

theorem found_of_lookups {s' : HandlerThreads} (h : s'.shared.lookups = s.shared.lookups) : Found s' ↔ Found s ∧ True := by
  unfold Found
  rw [h, and_true]

/-- A lookup ends. -/
theorem found_find (h : Recorded s) {kind : HandlerKind} {key : Nat} {frozen : Option HandlerSnapshot} {seen : Option Nat}
    (hk : s.ops[k]? = some (.find kind key frozen seen :: rest)) :
    Found (program.step s (.step k ())) ↔ Found s ∧ Timely s k () (.find kind key frozen seen) := by
  have hcarried : ∀ snapshot ∈ frozen, snapshot.Of (s.shared.maps kind) := fun snapshot hsnapshot =>
    h.carried _ (has_of_getElem? hk) kind snapshot ⟨rfl, hsnapshot⟩
  have hread := (h.maps kind).read_iff hcarried (h.seen _ (has_of_getElem? hk)) key
  have hstep : (program.step s (.step k ())).shared.lookups =
      ⟨kind, key, decide (key ∈ (s.shared.maps kind).kept), (s.shared.maps kind).read frozen key⟩ :: s.shared.lookups := by
    simp [Program.step, hk, program, HandlerMaps.act]
  unfold Found
  rw [hstep, List.forall_mem_cons]
  simp only [decide_eq_true_eq]
  rw [and_comm]
  exact and_congr_right fun _ => forall_congr' hread

/-- **A step keeps every lookup successful exactly if a lookup that it ends is in time.** -/
theorem found_step (h : Recorded s) (e : Event Unit HandlerOperation) :
    Found (program.step s e) ↔ Found s ∧ Program.AtAction Timely s e := by
  cases e with
  | call c       =>
    refine found_of_lookups ?_
    cases hcall : s.shared.call c with
    | none   => simp [Program.step, program, hcall]
    | some r => simpa [Program.step, program, hcall] using lookups_call hcall
  | inside k c   =>
    refine found_of_lookups ?_
    rcases hk : s.ops[k]? with _ | _ | ⟨a, rest⟩
    · simp [Program.step, hk]
    · simp [Program.step, hk]
    · simp [Program.step, hk, program]
  | step k input =>
    rcases hk : s.ops[k]? with _ | _ | ⟨a, rest⟩
    · simp [Program.step, Program.AtAction, hk]
    · simp [Program.step, Program.AtAction, hk]
    · simp only [Program.AtAction, hk]
      cases a with
      | find kind key frozen _ => exact found_find h hk
      | takeListen             => exact found_of_lookups (by simp [Program.step, hk, program, HandlerMaps.act, update])
      | takeRpc listenSnapshot => exact found_of_lookups (by simp [Program.step, hk, program, HandlerMaps.act, update])
      | publish kind snapshot  => exact found_of_lookups (by simp [Program.step, hk, program, HandlerMaps.act, update])
      | load kind key          => exact found_of_lookups (by simp [Program.step, hk, program, HandlerMaps.act])

/-- **In every run, the handlers that were registered before the first `Freeze` and not unregistered since are found by
every lookup if and only if no lookup of one of them that began before a snapshot was published ends behind a taking of the
map, and none began behind the publishing of a later snapshot than the first; or it was registered again before that taking,
or since.** -/
theorem run_found_iff (events : List (Event Unit HandlerOperation)) :
    Found (events.foldl program.step ⟨{}, []⟩) ↔ Along program.step (Program.AtAction Timely) ⟨{}, []⟩ events := by
  have hrun := Run.foldl_iff (fun _ e hs => recorded_preserves.step _ e hs (Program.atAction_true _ e))
    (fun _ e hs => found_step hs e) events recorded_init
  rw [hrun]
  exact and_iff_right fun _ hlookup => nomatch hlookup

/-- A listener, and a message that is looked up between the moment when `Freeze` takes it and the one when it publishes
it. -/
def lookupDuringFreeze : List (Event Unit HandlerOperation) :=
  [.call (.listenOption 5 7), .call .freeze, .step 1 (), .call (.findListenFunction 5), .step 2 (), .step 2 ()]

/-- A listener, two freezes, and a message. -/
def lookupAfterSecondFreeze : List (Event Unit HandlerOperation) :=
  ([.call (.listenOption 5 7), .call .freeze] : List (Event Unit HandlerOperation)) ++ List.replicate 4 (Event.step 1 ()) ++
    [Event.call HandlerOperation.freeze] ++ List.replicate 4 (Event.step 2 ()) ++
    [Event.call (HandlerOperation.findListenFunction 5), Event.step 3 (), Event.step 3 ()]

theorem not_run_found : ¬Found (lookupDuringFreeze.foldl program.step ⟨{}, []⟩) ∧
    ¬Found (lookupAfterSecondFreeze.foldl program.step ⟨{}, []⟩) := by
  constructor
  · exact fun h => absurd (h ⟨.listen, 5, true, none⟩ List.mem_cons_self rfl) (by decide)
  · exact fun h => absurd (h ⟨.listen, 5, true, none⟩ List.mem_cons_self rfl) (by decide)

end HandlerMaps

end Gb
