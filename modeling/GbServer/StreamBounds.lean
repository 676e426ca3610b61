import GbServer.StreamFraming
/-!
# StreamBounds — a call stays inside the bytes of its read

`CallBounded` is what a call owes to the bytes just read: it returns, it takes no byte back, and every handle it adds
lies among them.  A step keeps to this as long as its body half has something left to take (`splitStep_within`), which
is so exactly while no header announces a negative size (`callBounded_iff`).
-/
namespace Gb

open Framing (feed)

/-- A handle among the bytes that a cursor of the same stream has in front of it. -/
structure SplitCursor.Covers (c : SplitCursor) (h : BufferHandle) : Prop where
  block : h.data = c.stream.tranBuf
  lo    : c.data ≤ h.offset
  size  : 0 ≤ h.size
  hi    : h.offset + h.size ≤ c.data + c.size

/-- How a cursor that takes nothing back moves: forward, and not past the end of the bytes. -/
structure SplitCursor.Within (c d : SplitCursor) : Prop where
  data    : c.data ≤ d.data
  size    : d.size ≤ c.size
  nonneg  : 0 ≤ d.size
  hi      : d.data + d.size ≤ c.data + c.size
  handles : ∃ new, d.handles = c.handles ++ new ∧ ∀ h ∈ new, c.Covers h

theorem SplitCursor.Within.refl (c : SplitCursor) (h : 0 ≤ c.size) : c.Within c :=
  ⟨Int.le_refl _, Int.le_refl _, h, Int.le_refl _, [], by simp, by simp⟩

theorem SplitCursor.Within.trans {c d e : SplitCursor} (ht : d.stream.tranBuf = c.stream.tranBuf) (h1 : c.Within d)
    (h2 : d.Within e) : c.Within e := by
  obtain ⟨new1, e1, hn1⟩ := h1.handles
  obtain ⟨new2, e2, hn2⟩ := h2.handles
  refine ⟨Int.le_trans h1.data h2.data, Int.le_trans h2.size h1.size, h2.nonneg, Int.le_trans h2.hi h1.hi, new1 ++ new2, ?_, ?_⟩
  · rw [e2, e1, List.append_assoc]
  · intro h hh
    rcases List.mem_append.1 hh with hm | hm
    · exact hn1 h hm
    · have := hn2 h hm
      exact ⟨this.block.trans ht, Int.le_trans h1.data this.lo, this.size, Int.le_trans this.hi h1.hi⟩

/-- **What a call owes to the bytes just read**, those from `c.data` on, `c.size` of them. -/
structure CallBounded (c : SplitCursor) : Prop where
  returns : ∃ n ok c', splitRun n c = .ret ok c'
  within  : ∀ n d, (splitRun n c).Leaves d → c.Within d
  forward : ∀ n d d', splitRun n c = .next d → (splitStep d).Leaves d' → d.data ≤ d'.data ∧ d'.size ≤ d.size

/-- **A step that does not take bytes back keeps within the bytes there are.** -/
theorem splitStep_within (c c' : SplitCursor) (h : (splitStep c).Leaves c') (hlo : 0 ≤ c.data) (hsize : 0 ≤ c.size)
    (hhi : c.data + c.size < 2 ^ 31) (htake : c.pc = .body → 0 ≤ c.consumeSize) : c.Within c' := by
  cases splitStep_cases c c' h with
  | stay hpc h => subst h; exact .refl _ hsize
  | known hpc hid h => subst h; exact ⟨Int.le_refl _, Int.le_refl _, hsize, Int.le_refl _, [], by simp [SplitCursor.handles], by simp⟩
  | wait hpc s hs h =>
    subst h
    exact ⟨Int.le_refl _, Int.le_refl _, hsize, Int.le_refl _, [], by simp [SplitCursor.handles, hs.message], by simp⟩
  | header hpc s hs k hk h =>
    subst h
    refine ⟨?_, ?_, ?_, ?_, [], by simp [SplitCursor.handles, hs.message], by simp⟩ <;> simp only <;> omega
  | part hpc hlt h =>
    subst h
    refine ⟨Int.le_refl _, Int.le_refl _, hsize, Int.le_refl _, [⟨c.stream.tranBuf, c.size, c.data⟩], ?_, ?_⟩
    · simp [SplitCursor.handles, toInt32_of_range c.size (by omega) (by omega),
        toInt32_of_range c.data (by omega) (by omega)]
    · intro h hh
      rw [List.mem_singleton.1 hh]
      exact ⟨rfl, Int.le_refl _, hsize, Int.le_refl _⟩
  | whole hpc hle s hs h =>
    have htake := htake hpc
    subst h
    rw [toInt32_of_range (c.size - c.consumeSize) (by omega) (by omega)]
    refine ⟨by simp only; omega, by simp only; omega, by simp only; omega, by simp only; omega, ?_⟩
    by_cases hc : 0 < c.consumeSize
    · rw [if_pos hc] at hs
      refine ⟨[⟨c.stream.tranBuf, c.consumeSize, c.data⟩], ?_, ?_⟩
      · simp [SplitCursor.handles, hs, Recv.resetReceivingEnv, toInt32_of_range c.consumeSize (by omega) (by omega),
          toInt32_of_range c.data (by omega) (by omega)]
      · intro h hh
        rw [List.mem_singleton.1 hh]
        exact ⟨rfl, Int.le_refl _, htake, by simp only; omega⟩
    · rw [if_neg hc] at hs
      exact ⟨[], by simp [SplitCursor.handles, hs, Recv.resetReceivingEnv], by simp⟩

/-! ## A call whose headers announce no negative size -/

/-- The body half that follows a header half has something left to take, unless the header is negative. -/
theorem splitHead_takes (c d : SplitCursor) (st : StreamState) (bs : List UInt8) (hpc : c.pc = .head)
    (hr : c.stream.Reads st) (hb : c.Holds bs) (hd : splitRun 1 c = .next d)
    (hneg : ∀ h, (feed streamFormat st bs).1 ≠ .failed (.negativeSize h)) : d.pc = .body ∧ 0 ≤ d.consumeSize := by
  rw [splitRun_one, splitStep, hpc] at hd
  simp only at hd
  cases hr with
  | body hid hn hrecv hlt hmsg =>
    unfold splitHead at hd
    split at hd
    · cases hd
    cases hd
    refine ⟨rfl, ?_⟩
    rw [SplitCursor.consumeSize]
    simp only [hn, hrecv]
    omega
  | @header got hid hsize hlt hraw hmsg hrecv =>
    have hr := Recv.Reads.header hid hsize hlt hraw hmsg hrecv
    by_cases hne : bs = []
    · subst hne
      rw [splitHead, if_pos (by rw [hb.size]; simp)] at hd
      cases hd
    by_cases hshort : got.length + bs.length < messageHeaderSize
    · obtain ⟨s', hs', -⟩ := splitHead_short c got bs hr hb hne hshort
      rw [hs'] at hd
      cases hd
    obtain ⟨x, y, rfl, hx⟩ : ∃ x y, bs = x ++ y ∧ got.length + x.length = messageHeaderSize :=
      ⟨bs.take (messageHeaderSize - got.length), bs.drop (messageHeaderSize - got.length),
        (List.take_append_drop _ _).symm, by rw [List.length_take]; omega⟩
    have hx0 : x ≠ [] := fun h => by rw [h, List.length_nil] at hx; omega
    let h : MessageHeader := ⟨got ++ x, by rw [List.length_append]; exact hx⟩
    rw [splitHead_full c got x y h hr hb rfl] at hd
    have hf : feed streamFormat (.header got) x = Framing.afterHeader streamFormat h.raw :=
      Framing.feed_header_exact streamFormat got x hx0 hx
    have hdec := decode_raw h
    split at hd
    · rename_i hmag
      have hpos : 0 ≤ h.messageSize := by
        by_contra hlt
        rw [if_pos hmag, if_pos (by omega)] at hdec
        exact hneg h (by rw [Framing.feed_append, hf, Framing.afterHeader, hdec]; simp)
      split at hd
      · cases hd
      · cases hd
        refine ⟨rfl, ?_⟩
        show 0 ≤ h.messageSize - c.stream.receivedMessageSize
        omega
    · cases hd

/-- Whenever a call stands at its body half, there is something left to take. -/
theorem splitRun_takes : ∀ (m : Nat) (c : SplitCursor) (st : StreamState) (bs : List UInt8), bs.length ≤ m →
    c.pc = .head → c.stream.Reads st → c.Holds bs → (∀ h, (feed streamFormat st bs).1 ≠ .failed (.negativeSize h)) →
    ∀ k d, splitRun k c = .next d → d.pc = .body → 0 ≤ d.consumeSize := by
  intro m
  induction m with
  | zero =>
    intro c st bs hm hpc hr hb hneg k d hd hbody
    have hret : splitRun 1 c = .ret true c := by
      rw [splitRun_one, splitStep, hpc]
      simp only [splitHead]
      rw [if_pos (by rw [hb.size]; omega)]
    cases k with
    | zero => cases hd; rw [hpc] at hbody; cases hbody
    | succ k =>
      rw [splitRun_ret_mono (show 1 ≤ k + 1 by omega) hret] at hd
      cases hd
  | succ m ih =>
    intro c st bs hm hpc hr hb hneg k d hd hbody
    by_cases hne : bs = []
    · subst hne
      exact ih c st [] (by simp) hpc hr hb hneg k d hd hbody
    -- the passes of at most two steps: the body half in between is the one behind the header half
    have hfirst : k ≤ 1 → 0 ≤ d.consumeSize := by
      intro hk
      rcases Nat.le_one_iff_eq_zero_or_eq_one.1 hk with rfl | rfl
      · cases hd; rw [hpc] at hbody; cases hbody
      · exact (splitHead_takes c d st bs hpc hr hb hd hneg).2
    have hend : ∀ n ok c', n ≤ 2 → splitRun n c = .ret ok c' → 0 ≤ d.consumeSize := by
      intro n ok c' hn hrun
      by_cases hk : n ≤ k
      · rw [splitRun_ret_mono hk hrun] at hd
        cases hd
      · exact hfirst (by omega)
    cases splitPass c st bs hpc hr hb hne with
    | stop n hn c' hrun hst hout hmsgs => exact hend n _ _ hn hrun
    | refuse n hn c' hrun hst hmsgs => exact hend n _ _ hn hrun
    | frame n hn c' y item out hrun hpc' hst hb' hy hmsgs hitem hmet hfeed =>
      by_cases hk : n ≤ k
      · obtain ⟨j, rfl⟩ := Nat.exists_eq_add_of_le hk
        rw [splitRun_add n j c c' hrun] at hd
        exact ih c' (.header []) y (by omega) hpc' hst hb' (fun h hh => hneg h (by rw [hfeed]; exact hh)) j d hd hbody
      · exact hfirst (by omega)
    | derail n hn c' h hrun hpc' hid hh hneg' hrecv hsize hhi hfeed => exact absurd (by rw [hfeed]) (hneg h)

theorem splitRun_succ_of_next {n : Nat} {c d : SplitCursor} (h : splitRun n c = .next d) :
    splitRun (n + 1) c = splitStep d := by
  rw [splitRun_add n 1 c d h, splitRun_one]

/-- The cursors of a call that takes nothing back. -/
theorem splitRun_within (c : SplitCursor) (hlo : 0 ≤ c.data) (hsize : 0 ≤ c.size) (hhi : c.data + c.size < 2 ^ 31)
    (htake : ∀ k d, splitRun k c = .next d → d.pc = .body → 0 ≤ d.consumeSize) :
    ∀ n d, (splitRun n c).Leaves d → c.Within d := by
  intro n
  induction n with
  | zero =>
    intro d hd
    rw [splitRun, SplitStep.leaves_next] at hd
    exact hd ▸ .refl c hsize
  | succ n ih =>
    intro d hd
    cases hn : splitRun n c with
    | next e =>
      rw [splitRun_succ_of_next hn] at hd
      have he := ih e (Or.inl hn)
      have hb : e.stream.tranBuf = c.stream.tranBuf := (splitRun_frame n c e (Or.inl hn)).tranBuf
      have h1 := he.data
      have h2 := he.hi
      exact he.trans hb (splitStep_within e d hd (by omega) he.nonneg (by omega) (htake n e hn))
    | ret ok e =>
      rw [splitRun_ret_mono (Nat.le_succ n) hn, SplitStep.leaves_ret] at hd
      exact hd ▸ ih e (Or.inr ⟨ok, hn⟩)
    | fault =>
      exact absurd hd (splitRun_fault_succ hn ▸ SplitStep.leaves_fault d)

/-- **A call is bounded exactly when the bytes of the read end no header of negative size.** -/
theorem callBounded_iff (c : SplitCursor) (st : StreamState) (bs : List UInt8) (hpc : c.pc = .head)
    (hr : c.stream.Reads st) (hb : c.Holds bs) :
    CallBounded c ↔ ∀ h, (feed streamFormat st bs).1 ≠ .failed (.negativeSize h) := by
  have hlo := hb.lo
  have hhi : c.data + c.size < 2 ^ 31 := by rw [hb.size]; exact hb.hi
  have hsize : 0 ≤ c.size := by rw [hb.size]; omega
  constructor
  · intro hc h hf
    -- the body half behind such a header goes back
    obtain ⟨n, d, hrun, hpcd, hh, hneg, hrecv, h0, h1⟩ :=
      splitRun_derail bs.length c st bs h (Nat.le_refl _) hpc hr hb hf
    have hstep : splitStep d = splitBody d := by rw [splitStep, hpcd]
    obtain ⟨d', hd', hdata⟩ : ∃ d', splitStep d = .next d' ∧ d'.data = d.data + h.messageSize := by
      rw [hstep]
      unfold splitBody
      simp only
      rw [hh, hrecv, if_neg (by omega)]
      exact ⟨_, rfl, by simp only; omega⟩
    have := (hc.forward n d d' hrun (Or.inl hd')).1
    omega
  · intro hneg
    have htake := splitRun_takes bs.length c st bs (Nat.le_refl _) hpc hr hb hneg
    have hwithin := splitRun_within c hlo hsize hhi htake
    refine ⟨?_, hwithin, ?_⟩
    · obtain ⟨ok, c', items, hrun, -⟩ := splitRun_feed bs.length c st bs (Nat.le_refl _) hpc hr hb hneg
      exact ⟨_, ok, c', hrun⟩
    · intro n d d' hd hd'
      have h := hwithin n d (Or.inl hd)
      have h1 := h.data
      have h2 := h.hi
      have hs := splitStep_within d d' hd' (by omega) h.nonneg (by omega) (htake n d hd)
      exact ⟨hs.data, hs.size⟩

end Gb
