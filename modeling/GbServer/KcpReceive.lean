import GbServer.ReceiveLoop
/-!
# KcpReceive — what `KcpTransport` takes out of KCP

A datagram goes to `ikcp_input`; `DrainInput` then takes out of KCP all the messages that are complete, whether the
stream asks for them or not, and a read under way gets its part.  KCP is `ikcp.c`, which the repository does not contain:
`Ikcp` has its calls, `Ikcp.Documented` says what `DrainInput` relies on.  `held` counts what KCP holds, so that the loop
ends.

`run_backPressure` says when the bytes in `_in_buffer` do not become more while the stream does not read.
-/
namespace Gb

open Run (Along)

/-- The calls of KCP that the receiving half makes.  `recv` yields no bytes where `ikcp_recv` fails. -/
structure Ikcp (κ : Type) where
  create   : UInt32 → Option κ
  input    : κ → List UInt8 → κ
  peekSize : κ → Int
  recv     : κ → Nat → κ × List UInt8
  held     : κ → Nat

namespace Ikcp

variable {κ : Type}

/-- A message of the size that `ikcp_peeksize` says is taken out by `ikcp_recv`. -/
structure Documented (k : Ikcp κ) : Prop where
  length : ∀ s, 0 < k.peekSize s → ((k.recv s (k.peekSize s).toNat).2.length : Int) = k.peekSize s
  held   : ∀ s, 0 < k.peekSize s → k.held (k.recv s (k.peekSize s).toNat).1 < k.held s

variable (k : Ikcp κ)

/-- The loop of `DrainInput`, in as many rounds as there may be messages, with all the bytes it inserts. -/
def drain : Nat → κ → κ × List UInt8
  | 0,          s => (s, [])
  | rounds + 1, s =>
    if 0 < k.peekSize s then
      let r := k.recv s (k.peekSize s).toNat
      if r.2 = [] then (r.1, [])
      else
        let more := drain rounds r.1
        (more.1, r.2 ++ more.2)
    else (s, [])

def drainInput (s : κ) : κ × List UInt8 := k.drain (k.held s) s

variable {k}

/-- `DrainInput` leaves no complete message in KCP. -/
theorem Documented.peekSize_drain (h : k.Documented) : ∀ (rounds : Nat) (s : κ), k.held s ≤ rounds →
    k.peekSize (k.drain rounds s).1 ≤ 0
  | 0,          s, hheld => by
    by_contra hpos
    have hlt := h.held s (Int.not_le.1 hpos)
    omega
  | rounds + 1, s, hheld => by
    rw [drain]
    split
    · rename_i hpos
      have hlength := h.length s hpos
      have hlt := h.held s hpos
      dsimp only
      split
      · rename_i hnil
        rw [hnil] at hlength
        simp at hlength
        omega
      · exact h.peekSize_drain rounds (k.recv s (k.peekSize s).toNat).1 (by omega)
    · rename_i hpos
      exact Int.not_lt.1 hpos

theorem Documented.drainInput_eq_nil (h : k.Documented) (s : κ) : (k.drainInput s).2 = [] ↔ k.peekSize s ≤ 0 := by
  constructor
  · intro hnil
    by_contra hpos
    have hpos := Int.not_le.1 hpos
    have hlength := h.length s hpos
    have hheld := h.held s hpos
    obtain ⟨rounds, hrounds⟩ := Nat.exists_eq_succ_of_ne_zero (show k.held s ≠ 0 by omega)
    have hne : (k.recv s (k.peekSize s).toNat).2 ≠ [] := by
      intro heq
      rw [heq] at hlength
      simp at hlength
      omega
    rw [drainInput, hrounds, drain, if_pos hpos] at hnil
    dsimp only at hnil
    rw [if_neg hne] at hnil
    exact hne (List.append_eq_nil_iff.1 hnil).1
  · intro hle
    unfold drainInput
    cases k.held s with
    | zero   => rfl
    | succ n => rw [drain, if_neg (Int.not_lt.2 hle)]

end Ikcp

/-- A stream over KCP with the KCP of its transport. -/
structure KcpReceiver (κ : Type) where
  kcp      : κ
  receiver : Receiver

/-- A datagram, or what else the outside does. -/
inductive KcpInput
  | datagram (bytes : List UInt8) (mallocOk : Bool)
  | stream (i : RecvInput)

namespace KcpReceiver

variable {κ : Type} (k : Ikcp κ)

/-- `HandleInput` and `OnReceive` run from the event loop. -/
def handles (s : KcpReceiver κ) : Bool :=
  decide (s.receiver.pc = .running) && s.receiver.stack.isEmpty && !s.receiver.closed

def handleInput (s : KcpReceiver κ) (bytes : List UInt8) (mallocOk : Bool) : KcpReceiver κ :=
  if s.handles then
    let (kcp, drained) := k.drainInput (k.input s.kcp bytes)
    ⟨kcp, s.receiver.step (.drainInput drained mallocOk)⟩
  else s

/-- Bytes come from KCP only. -/
def step (s : KcpReceiver κ) : KcpInput → KcpReceiver κ
  | .datagram bytes mallocOk   => s.handleInput k bytes mallocOk
  | .stream (.drainInput _ _)  => s
  | .stream i                  => { s with receiver := s.receiver.step i }

def init (kcp : κ) (factor : BlockFactor) : KcpReceiver κ := ⟨kcp, .connected .kcp factor⟩

/-- The step does not come to `async_read_some`. -/
def NotReading (s : KcpReceiver κ) : KcpInput → Prop
  | .stream (.tryStartReceive overloaded quota _) =>
    s.receiver.pc = .tryStartReceive → ¬s.receiver.StartsRead overloaded quota
  | _                                             => True

instance (s : KcpReceiver κ) : (i : KcpInput) → Decidable (s.NotReading i)
  | .stream (.tryStartReceive _ _ _)  => inferInstanceAs (Decidable (_ → _))
  | .datagram _ _                     => isTrue trivial
  | .stream .deliver                  => isTrue trivial
  | .stream .onReceivedReturns        => isTrue trivial
  | .stream .triggerReceive           => isTrue trivial
  | .stream .messageSent              => isTrue trivial
  | .stream .close                    => isTrue trivial
  | .stream (.completeRead _ _)       => isTrue trivial
  | .stream (.drainInput _ _)         => isTrue trivial

/-- The condition on a step.  A datagram completes no message. -/
def Completes (s : KcpReceiver κ) : KcpInput → Prop
  | .datagram bytes _ => s.handles = true → k.peekSize (k.input s.kcp bytes) ≤ 0
  | .stream _         => True

instance (s : KcpReceiver κ) : (i : KcpInput) → Decidable (s.Completes k i)
  | .datagram _ _ => inferInstanceAs (Decidable (_ → _))
  | .stream _     => isTrue trivial

/-! ## A stream that does not read -/

/-- Over KCP, no read under way, and so many bytes in `_in_buffer`. -/
structure Holds (bytes : List UInt8) (s : Receiver) : Prop where
  transportType : s.transportType = .kcp
  pendingRead   : s.pendingRead = none
  inBuffer      : s.inBuffer = bytes

variable {k} {bytes : List UInt8}

theorem Holds.tryStartReceive {s : Receiver} (h : Holds bytes s) {overloaded : Bool} {quota : Int}
    (hnot : ¬s.StartsRead overloaded quota) (mallocOk : Bool) : Holds bytes (s.tryStartReceive overloaded quota mallocOk) := by
  unfold Receiver.tryStartReceive
  split
  · exact ⟨h.transportType, h.pendingRead, h.inBuffer⟩
  · rename_i hgates
    split
    · exact ⟨h.transportType, h.pendingRead, h.inBuffer⟩
    · rename_i hquota
      refine absurd ?_ hnot
      unfold Receiver.StartsRead
      grind

theorem Holds.deliver {s : Receiver} (h : Holds bytes s) : Holds bytes s.deliver := by
  unfold Receiver.deliver
  split
  · split <;> exact ⟨h.transportType, h.pendingRead, h.inBuffer⟩
  · exact ⟨h.transportType, h.pendingRead, h.inBuffer⟩
  · exact h

theorem Holds.onReceivedReturns {s : Receiver} (h : Holds bytes s) : Holds bytes s.onReceivedReturns := by
  unfold Receiver.onReceivedReturns
  split
  · exact ⟨h.transportType, h.pendingRead, h.inBuffer⟩
  · exact h

theorem Holds.completeRead {s : Receiver} (h : Holds bytes s) (bs : List UInt8) (mallocOk : Bool) :
    Holds bytes (s.completeRead bs mallocOk) := by
  unfold Receiver.completeRead
  rw [h.pendingRead]
  exact h

theorem Holds.receiver_step {s : Receiver} (h : Holds bytes s) {i : RecvInput} (hdrain : ∀ bs ok, i ≠ .drainInput bs ok)
    (hnot : ∀ overloaded quota ok, i = .tryStartReceive overloaded quota ok → s.pc = .tryStartReceive →
      ¬s.StartsRead overloaded quota) : Holds bytes (s.step i) := by
  unfold Receiver.step
  split
  · exact h.tryStartReceive (hnot _ _ _ rfl ‹_›) _
  · exact h.deliver
  · exact h.onReceivedReturns
  · split <;> exact ⟨h.transportType, h.pendingRead, h.inBuffer⟩
  · split <;> exact ⟨h.transportType, h.pendingRead, h.inBuffer⟩
  · split <;> exact ⟨h.transportType, h.pendingRead, h.inBuffer⟩
  · split
    · exact h.completeRead _ _
    · exact h
  · exact absurd rfl (hdrain _ _)
  · exact h

/-- `DrainInput` inserts what it has drained. -/
theorem Holds.drainInput {s : Receiver} (h : Holds bytes s) (hopen : s.closed = false) (bs : List UInt8) (mallocOk : Bool) :
    Holds (bytes ++ bs) (s.drainInput bs mallocOk) := by
  unfold Receiver.drainInput Receiver.tryDeliverRead
  rw [if_pos ⟨h.transportType, hopen⟩]
  dsimp only
  rw [h.pendingRead]
  exact ⟨h.transportType, rfl, congrArg (· ++ bs) h.inBuffer⟩

/-- **What a step adds to `_in_buffer`**: what a datagram completes. -/
theorem Holds.step {s : KcpReceiver κ} (h : Holds bytes s.receiver) (i : KcpInput) (hnot : s.NotReading i) :
    ∃ drained, Holds (bytes ++ drained) (s.step k i).receiver ∧
      (k.Documented → (drained = [] ↔ s.Completes k i)) := by
  have hquiet : Holds bytes (s.step k i).receiver → s.Completes k i → ∃ drained,
      Holds (bytes ++ drained) (s.step k i).receiver ∧ (k.Documented → (drained = [] ↔ s.Completes k i)) :=
    fun hholds hcompletes => ⟨[], by rwa [List.append_nil], fun _ => ⟨fun _ => hcompletes, fun _ => rfl⟩⟩
  cases i with
  | datagram data mallocOk =>
    by_cases hhandles : s.handles = true
    · refine ⟨(k.drainInput (k.input s.kcp data)).2, ?_, fun hdoc => ?_⟩
      · have hall := hhandles
        simp only [handles, Bool.and_eq_true, decide_eq_true_eq, Bool.not_eq_true'] at hall
        simp only [KcpReceiver.step, handleInput, if_pos hhandles, Receiver.step, hall.1.1, if_pos hall.1.2]
        exact h.drainInput hall.2 _ _
      · rw [hdoc.drainInput_eq_nil]
        exact ⟨fun hle _ => hle, fun hcompletes => hcompletes hhandles⟩
    · apply hquiet
      · simpa only [KcpReceiver.step, handleInput, if_neg hhandles] using h
      · exact fun hyes => absurd hyes hhandles
  | stream i =>
    refine hquiet ?_ trivial
    cases i with
    | drainInput bs mallocOk                    => exact h
    | tryStartReceive overloaded quota mallocOk =>
      apply h.receiver_step
      · simp
      · intro _ _ _ heq hpc
        cases heq
        exact hnot hpc
    | _                                         => exact h.receiver_step (by simp) (by simp)

theorem Holds.exists_step {s : KcpReceiver κ} (h : ∃ bytes, Holds bytes s.receiver) (i : KcpInput) (hnot : s.NotReading i) :
    ∃ bytes, Holds bytes (s.step k i).receiver := by
  obtain ⟨bytes, hholds⟩ := h
  obtain ⟨drained, hafter, _⟩ := hholds.step (k := k) i hnot
  exact ⟨bytes ++ drained, hafter⟩

/-- **While the stream does not read, `_in_buffer` holds no more than it did exactly as long as no datagram completes a
message.** -/
theorem run_backPressure (hdoc : k.Documented) (s : KcpReceiver κ) (hkcp : s.receiver.transportType = .kcp)
    (hstopped : s.receiver.pendingRead = none) (inputs : List KcpInput) (hreads : Along (step k) NotReading s inputs) :
    (inputs.foldl (step k) s).receiver.inBuffer.length ≤ s.receiver.inBuffer.length ↔ Along (step k) (Completes k) s inputs := by
  have hrun := @Run.foldl_iff_along _ _ (step k) (Completes k) NotReading
    (fun t => s.receiver.inBuffer.length ≤ t.receiver.inBuffer.length ∧ ∃ bytes, Holds bytes t.receiver)
    (fun t => t.receiver.inBuffer.length ≤ s.receiver.inBuffer.length) ?_ ?_ inputs s
    ⟨Nat.le_refl _, s.receiver.inBuffer, hkcp, hstopped, rfl⟩ hreads
  · rw [hrun]
    exact and_iff_right (Nat.le_refl _)
  · rintro t i ⟨hle, hholds⟩ hnot
    refine ⟨?_, Holds.exists_step hholds i hnot⟩
    obtain ⟨bytes, hholds⟩ := hholds
    obtain ⟨drained, hafter, _⟩ := hholds.step (k := k) i hnot
    rw [hholds.inBuffer] at hle
    rw [hafter.inBuffer, List.length_append]
    omega
  · rintro t i ⟨hle, bytes, hholds⟩ hnot
    obtain ⟨drained, hafter, hdrained⟩ := hholds.step (k := k) i hnot
    rw [← hdrained hdoc, hafter.inBuffer, hholds.inBuffer, List.length_append, ← List.length_eq_zero_iff]
    rw [hholds.inBuffer] at hle
    omega

end KcpReceiver

/-! ## Datagrams in order -/

/-- `ikcp_decode32u`. -/
def decode32u (bytes : List UInt8) : Nat := (bytes.take 4).foldr (fun b n => b.toNat + 256 * n) 0

/-- A KCP whose peer sends messages of one segment, none of which is lost or overtaken. -/
structure InOrderKcp where
  conv     : UInt32
  rcvNxt   : Nat := 0
  rcvQueue : List (List UInt8) := []

/-- A segment has its conversation at 0, its command at 4 (81 pushes, 82 acknowledges), the number of the fragments behind
it at 5, its own number at 12, its length at 20 and its data at 24. -/
def inOrderKcp : Ikcp InOrderKcp where
  create   := fun conv => some { conv }
  input    := fun s bytes =>
    if decode32u bytes = s.conv.toNat ∧ bytes[4]? = some 81 ∧ bytes[5]? = some 0 ∧ decode32u (bytes.drop 12) = s.rcvNxt ∧
        decode32u (bytes.drop 20) + 24 = bytes.length then
      { s with rcvNxt := s.rcvNxt + 1, rcvQueue := s.rcvQueue ++ [bytes.drop 24] }
    else s
  peekSize := fun s => match s.rcvQueue with
    | []           => -1
    | message :: _ => message.length
  recv     := fun s size => match s.rcvQueue with
    | []               => (s, [])
    | message :: queue => if message.length ≤ size then ({ s with rcvQueue := queue }, message) else (s, [])
  held     := fun s => s.rcvQueue.length

theorem inOrderKcp_documented : inOrderKcp.Documented where
  length := fun s hpos => by
    cases hqueue : s.rcvQueue with
    | nil                => simp [inOrderKcp, hqueue] at hpos
    | cons message queue => simp [inOrderKcp, hqueue]
  held   := fun s hpos => by
    cases hqueue : s.rcvQueue with
    | nil                => simp [inOrderKcp, hqueue] at hpos
    | cons message queue => simp [inOrderKcp, hqueue]

namespace KcpReceiver

/-- A stream of conversation 1 whose first `try_start_receive` finds no quota. -/
def withoutQuota : KcpReceiver InOrderKcp :=
  (init { conv := 1 } 0).step inOrderKcp (.stream (.tryStartReceive false 0 true))

/-- Acknowledgements of nothing, and a try that finds no quota. -/
theorem run_backPressure_acknowledged :
    ([.datagram (1 :: 0 :: 0 :: 0 :: 82 :: List.replicate 19 0) true, .stream .triggerReceive,
      .stream (.tryStartReceive false 0 true), .datagram (1 :: 0 :: 0 :: 0 :: 82 :: List.replicate 19 0) true].foldl
        (step inOrderKcp) withoutQuota).receiver.inBuffer.length ≤ withoutQuota.receiver.inBuffer.length :=
  (run_backPressure inOrderKcp_documented withoutQuota (by decide +kernel) (by decide +kernel) _ (by decide +kernel)).2
    (by decide +kernel)

/-- A datagram with one byte of data. -/
theorem not_run_backPressure : ¬∀ (s : KcpReceiver InOrderKcp), s.receiver.transportType = .kcp →
    s.receiver.pendingRead = none → ∀ inputs : List KcpInput, Along (step inOrderKcp) NotReading s inputs →
      (inputs.foldl (step inOrderKcp) s).receiver.inBuffer.length ≤ s.receiver.inBuffer.length := by
  intro h
  have hle := h withoutQuota (by decide +kernel) (by decide +kernel)
    [.datagram (1 :: 0 :: 0 :: 0 :: 81 :: List.replicate 15 0 ++ [1, 0, 0, 0, 7]) true] (by decide +kernel)
  exact absurd hle (by decide +kernel)

end KcpReceiver

end Gb
