import GbServer.StreamReceive
/-!
# StreamSplit — what the splitter does to a stream

Two facts hold of every step, whatever the header says: the blocks keep their data and the stream keeps its block
(`StreamFrame`), and every handle a step adds is one reference (`splitStep_ledger`).  The main result is that a call on
well-behaved sizes is the reader of `Lib/Framing` on the bytes of the read (`splitRun_feed`).
-/
namespace Gb

open Framing (feed)

/-! ## Pools that differ in their reference counts only -/

/-- Same blocks, same data; the reference counts may differ. -/
structure PoolFrame (p q : TranBufPool) : Prop where
  next   : q.next = p.next
  blocks : ∀ b, (q.blocks b).map (fun k => (k.size, k.data)) = (p.blocks b).map (fun k => (k.size, k.data))

theorem PoolFrame.refl (p : TranBufPool) : PoolFrame p p := ⟨rfl, fun _ => rfl⟩

theorem PoolFrame.trans {p q r : TranBufPool} (h1 : PoolFrame p q) (h2 : PoolFrame q r) : PoolFrame p r :=
  ⟨h2.next.trans h1.next, fun b => (h2.blocks b).trans (h1.blocks b)⟩

theorem PoolFrame.addRef (p : TranBufPool) (b : BlockPtr) : PoolFrame p (p.addRef b) := by
  refine ⟨rfl, fun b' => ?_⟩
  rw [TranBufPool.addRef, TranBufPool.modify_blocks]
  by_cases h : b' = b
  · subst h; cases hb : p.blocks b' <;> simp
  · simp [h]

theorem PoolFrame.isSome {p q : TranBufPool} (h : PoolFrame p q) (b : BlockPtr) :
    (q.blocks b).isSome = (p.blocks b).isSome := by
  have := congrArg Option.isSome (h.blocks b)
  simpa using this

theorem PoolFrame.read {p q : TranBufPool} (h : PoolFrame p q) (b : BlockPtr) (off : Int) (n : Nat) :
    q.read b off n = p.read b off n := by
  have := h.blocks b
  unfold TranBufPool.read
  cases hp : p.blocks b with
  | none => cases hq : q.blocks b with
    | none => rfl
    | some k => rw [hp, hq] at this; cases this
  | some k => cases hq : q.blocks b with
    | none => rw [hp, hq] at this; cases this
    | some k' =>
      rw [hp, hq] at this
      simp only [Option.map_some, Option.some.injEq, Prod.mk.injEq] at this
      simp only [this.2]

theorem PoolFrame.readHandles {p q : TranBufPool} (h : PoolFrame p q) (hs : List BufferHandle) :
    readHandles q hs = readHandles p hs :=
  readHandles_congr q p hs (fun k _ => h.read k.data k.offset k.size.toNat)

theorem PoolFrame.toString {p q : TranBufPool} (h : PoolFrame p q) (rb : ReadBuffer) :
    rb.toString q = rb.toString p := h.readHandles rb.bufList

/-- What splitting leaves of a stream: its block, the place in it, and the data of every block. -/
structure StreamFrame (s t : Recv) : Prop where
  pool          : PoolFrame s.pool t.pool
  factor        : t.readBufferBaseBlockFactor = s.readBufferBaseBlockFactor
  tranBuf       : t.tranBuf = s.tranBuf
  receivingData : t.receivingData = s.receivingData
  receivingSize : t.receivingSize = s.receivingSize

theorem StreamFrame.refl (s : Recv) : StreamFrame s s := ⟨.refl _, rfl, rfl, rfl, rfl⟩

theorem StreamFrame.trans {s t u : Recv} (h1 : StreamFrame s t) (h2 : StreamFrame t u) : StreamFrame s u :=
  ⟨h1.pool.trans h2.pool, h2.factor.trans h1.factor, h2.tranBuf.trans h1.tranBuf,
    h2.receivingData.trans h1.receivingData, h2.receivingSize.trans h1.receivingSize⟩

theorem StreamFrame.appendHandle (s : Recv) (size data : Int) : StreamFrame s (s.appendHandle size data) :=
  ⟨PoolFrame.addRef s.pool s.tranBuf, rfl, rfl, rfl, rfl⟩

/-- What looking for a header leaves of a stream: everything but the header under construction. -/
structure HeaderFrame (s t : Recv) : Prop extends StreamFrame s t where
  same    : t.pool = s.pool
  message : t.receivingMessage = s.receivingMessage
  size    : t.receivedMessageSize = s.receivedMessageSize

theorem identify_frame (s s' : Recv) (data size r : Int) (k : Nat)
    (h : s.identifyMessageHeader data size = some (s', r, k)) : HeaderFrame s s' ∧ k ≤ size.toNat := by
  unfold Recv.identifyMessageHeader at h
  simp only at h
  split at h
  · cases h
  · split at h
    · cases h; exact ⟨⟨⟨.refl _, rfl, rfl, rfl, rfl⟩, rfl, rfl, rfl⟩, Nat.min_le_left _ _⟩
    · split at h <;> cases h <;> exact ⟨⟨⟨.refl _, rfl, rfl, rfl, rfl⟩, rfl, rfl, rfl⟩, Nat.min_le_left _ _⟩

/-- Every handle a cursor holds: those of the complete messages and of the message under construction. -/
def SplitCursor.handles (c : SplitCursor) : List BufferHandle :=
  c.receivedMessages.flatMap (fun i => i.message.bufList) ++ c.stream.receivingMessage.bufList

/-- The cursor a step leaves, whether it goes on or returns. -/
def SplitStep.Leaves (r : SplitStep) (c' : SplitCursor) : Prop := r = .next c' ∨ ∃ ok, r = .ret ok c'

@[simp] theorem SplitStep.leaves_next (c c' : SplitCursor) : (SplitStep.next c).Leaves c' ↔ c = c' := by
  simp [SplitStep.Leaves]

@[simp] theorem SplitStep.leaves_ret (ok : Bool) (c c' : SplitCursor) : (SplitStep.ret ok c).Leaves c' ↔ c = c' := by
  simp [SplitStep.Leaves]

@[simp] theorem SplitStep.leaves_fault (c' : SplitCursor) : ¬ SplitStep.fault.Leaves c' := by
  simp [SplitStep.Leaves]

/-- The bytes the body half takes when the message ends among those that are there. -/
def SplitCursor.consumeSize (c : SplitCursor) : Int :=
  c.stream.receivingHeader.messageSize - c.stream.receivedMessageSize

/-- Everything a step can do to a cursor. -/
inductive SplitStep.Case (c c' : SplitCursor) : Prop
  | stay (hpc : c.pc = .head) (h : c' = c)
  | known (hpc : c.pc = .head) (hid : c.stream.receivingHeaderIdentified = true) (h : c' = { c with pc := .body })
  | wait (hpc : c.pc = .head) (s : Recv) (hs : HeaderFrame c.stream s) (h : c' = { c with stream := s })
  | header (hpc : c.pc = .head) (s : Recv) (hs : HeaderFrame c.stream s) (k : Nat) (hk : (k : Int) ≤ c.size)
      (h : c' = ⟨s, c.data + k, c.size - k, c.receivedMessages, .body⟩)
  | part (hpc : c.pc = .body) (hlt : c.size < c.consumeSize)
      (h : c' = { c with stream := { c.stream.appendHandle c.size c.data with
        receivedMessageSize := c.stream.receivedMessageSize + c.size } })
  | whole (hpc : c.pc = .body) (hle : c.consumeSize ≤ c.size) (s : Recv)
      (hs : s = if 0 < c.consumeSize then c.stream.appendHandle c.consumeSize c.data else c.stream)
      (h : c' = ⟨s.resetReceivingEnv, c.data + c.consumeSize, toInt32 (c.size - c.consumeSize), c.receivedMessages ++
        [⟨s.receivingMessage, s.receivingHeader.metaSize, s.receivingHeader.dataSize⟩], .head⟩)

/-- **Everything a step can do.** -/
theorem splitStep_cases (c c' : SplitCursor) (h : (splitStep c).Leaves c') : SplitStep.Case c c' := by
  unfold splitStep at h
  cases hpc : c.pc with
  | head =>
    rw [hpc] at h
    simp only [splitHead] at h
    split at h
    · rw [SplitStep.leaves_ret] at h
      exact .stay hpc h.symm
    rename_i hsize
    split at h
    · rename_i hid
      rw [SplitStep.leaves_next] at h
      exact .known hpc hid h.symm
    split at h
    · exact absurd h (SplitStep.leaves_fault c')
    rename_i s r k hid
    obtain ⟨hf, hk⟩ := identify_frame c.stream s c.data c.size r k hid
    have hf' : HeaderFrame c.stream { s with receivingHeaderIdentified := true } :=
      ⟨hf.toStreamFrame.trans ⟨.refl _, rfl, rfl, rfl, rfl⟩, hf.same, hf.message, hf.size⟩
    split at h
    · split at h
      · rw [SplitStep.leaves_ret] at h
        exact .wait hpc _ hf' h.symm
      · rw [SplitStep.leaves_next] at h
        exact .header hpc _ hf' k (by omega) h.symm
    · split at h
      · rw [SplitStep.leaves_ret] at h
        exact .wait hpc _ hf h.symm
      · rw [SplitStep.leaves_ret] at h
        exact .wait hpc _ hf h.symm
  | body =>
    rw [hpc] at h
    simp only [splitBody] at h
    split at h
    · rename_i hlt
      rw [SplitStep.leaves_ret] at h
      exact .part hpc (by rw [SplitCursor.consumeSize]; omega) h.symm
    · rename_i hge
      rw [SplitStep.leaves_next] at h
      exact .whole hpc (by rw [SplitCursor.consumeSize]; omega) _ rfl h.symm

/-- What any step does to a cursor: the frame, and at most one new handle, into the stream's block. -/
theorem splitStep_frame (c c' : SplitCursor) (h : (splitStep c).Leaves c') :
    StreamFrame c.stream c'.stream ∧
      ((c'.handles = c.handles ∧ c'.stream.pool = c.stream.pool) ∨
        ∃ size data, c'.handles = c.handles ++ [⟨c.stream.tranBuf, size, data⟩] ∧
          c'.stream.pool = c.stream.pool.addRef c.stream.tranBuf) := by
  cases splitStep_cases c c' h with
  | stay hpc h => subst h; exact ⟨.refl _, Or.inl ⟨rfl, rfl⟩⟩
  | known hpc hid h => subst h; exact ⟨.refl _, Or.inl ⟨rfl, rfl⟩⟩
  | wait hpc s hs h => subst h; exact ⟨hs.toStreamFrame, Or.inl ⟨by simp only [SplitCursor.handles, hs.message], hs.same⟩⟩
  | header hpc s hs k hk h =>
    subst h; exact ⟨hs.toStreamFrame, Or.inl ⟨by simp only [SplitCursor.handles, hs.message], hs.same⟩⟩
  | part hpc hlt h =>
    subst h
    refine ⟨(StreamFrame.appendHandle c.stream c.size c.data).trans ⟨.refl _, rfl, rfl, rfl, rfl⟩,
      Or.inr ⟨toInt32 c.size, toInt32 c.data, ?_, rfl⟩⟩
    simp [SplitCursor.handles]
  | whole hpc hle s hs h =>
    subst h
    by_cases hc : 0 < c.consumeSize
    · rw [if_pos hc] at hs
      subst hs
      refine ⟨(StreamFrame.appendHandle c.stream _ c.data).trans ⟨.refl _, rfl, rfl, rfl, rfl⟩,
        Or.inr ⟨toInt32 c.consumeSize, toInt32 c.data, ?_, rfl⟩⟩
      simp [SplitCursor.handles, Recv.resetReceivingEnv]
    · rw [if_neg hc] at hs
      subst hs
      refine ⟨⟨.refl _, rfl, rfl, rfl, rfl⟩, Or.inl ⟨?_, rfl⟩⟩
      simp [SplitCursor.handles, Recv.resetReceivingEnv]

/-- **Every handle a step adds is one reference to its block.** -/
theorem splitStep_ledger (c c' : SplitCursor) (h : (splitStep c).Leaves c')
    (hlive : (c.stream.pool.blocks c.stream.tranBuf).isSome) (b : BlockPtr) :
    c'.stream.pool.refCount b + refsTo b c.handles = c.stream.pool.refCount b + refsTo b c'.handles := by
  obtain ⟨-, ⟨hh, hp⟩ | ⟨size, data, hh, hp⟩⟩ := splitStep_frame c c' h
  · rw [hh, hp]
  · rw [hh, hp, refsTo_append, refsTo_singleton, TranBufPool.refCount_addRef _ _ _ hlive]
    simp only
    omega

/-! ## Runs -/

theorem splitRun_add : ∀ (m n : Nat) (c c' : SplitCursor), splitRun m c = .next c' →
    splitRun (m + n) c = splitRun n c'
  | 0, n, c, c', h => by cases h; rw [Nat.zero_add]
  | m + 1, n, c, c', h => by
    rw [splitRun] at h
    rw [Nat.add_right_comm, splitRun]
    split at h
    · rename_i d hd
      exact splitRun_add m n d c' h
    · rename_i hne
      exact absurd h (by intro h; exact hne _ h)

theorem splitRun_one (c : SplitCursor) : splitRun 1 c = splitStep c := by
  rw [splitRun]
  split
  · rename_i c' h; rw [h]; rfl
  · rfl

/-- A run that has returned returns the same with more steps. -/
theorem splitRun_ret_mono {m n : Nat} {c c' : SplitCursor} {ok : Bool} (hle : m ≤ n)
    (h : splitRun m c = .ret ok c') : splitRun n c = .ret ok c' := by
  induction m generalizing n c with
  | zero => cases h
  | succ m ih =>
    obtain ⟨n, rfl⟩ := Nat.exists_eq_add_of_le hle
    rw [splitRun] at h
    rw [Nat.add_right_comm, splitRun]
    split at h
    · rename_i d hd
      exact ih (Nat.le_add_right m n) h
    · exact h

theorem splitRun_fault_succ : ∀ {n : Nat} {c : SplitCursor}, splitRun n c = .fault → splitRun (n + 1) c = .fault
  | 0, c, h => by cases h
  | n + 1, c, h => by
    rw [splitRun] at h ⊢
    split at h
    · exact splitRun_fault_succ h
    · exact h

/-- Two runs that have returned have returned the same. -/
theorem splitRun_ret_unique {m n : Nat} {c c1 c2 : SplitCursor} {ok1 ok2 : Bool} (h1 : splitRun m c = .ret ok1 c1)
    (h2 : splitRun n c = .ret ok2 c2) : ok1 = ok2 ∧ c1 = c2 := by
  have e1 := splitRun_ret_mono (Nat.le_max_left m n) h1
  rw [splitRun_ret_mono (Nat.le_max_right m n) h2] at e1
  cases e1
  exact ⟨rfl, rfl⟩

/-- What holds of a cursor and is kept by every step holds where a run ends. -/
theorem splitRun_induction (P : SplitCursor → Prop)
    (hstep : ∀ c c', P c → (splitStep c).Leaves c' → P c') :
    ∀ (n : Nat) (c c' : SplitCursor), P c → (splitRun n c).Leaves c' → P c'
  | 0, c, c', hP, h => by
    rw [splitRun, SplitStep.leaves_next] at h
    exact h ▸ hP
  | n + 1, c, c', hP, h => by
    rw [splitRun] at h
    split at h
    · rename_i d hd
      exact splitRun_induction P hstep n d c' (hstep c d hP (Or.inl hd)) h
    · exact hstep c c' hP h

end Gb
