import GbServer.StreamFrames
import GbServer.MessageMeta
/-!
# StreamConsistency — headers whose sizes do not add up

A header is consistent when its two sizes are not negative and add up to `message_size`.  `identify_message_header`
logs one that is not and accepts it all the same.  The stream is safe for its consumers exactly as long as the peer sends
consistent headers only (`onlyConsistent_iff`): the headers that the splitter accepts are those the reader of the stream
meets (`splitRun_accepts`).
-/
namespace Gb

open Framing (feed)

/-- The sizes of a header, or of a message, that add up. -/
def MessageHeader.Consistent (h : MessageHeader) : Prop :=
  0 ≤ h.metaSize ∧ 0 ≤ h.dataSize ∧ h.metaSize + h.dataSize = h.messageSize

instance (h : MessageHeader) : Decidable h.Consistent := by unfold MessageHeader.Consistent; infer_instance

/-- A message that is safe to hand over: its sizes are not negative and add up to its bytes, so that the `meta_size`
bytes `ReadMeta` copies, and the window behind them that `GetMsgData` takes, are bytes of the message. -/
def ReceivedItem.Consistent (p : TranBufPool) (i : ReceivedItem) : Prop :=
  0 ≤ i.metaSize ∧ 0 ≤ i.dataSize ∧ ∃ bs, i.message.toString p = some bs ∧ i.metaSize + i.dataSize = bs.length ∧
    toSizeT i.metaSize ≤ bs.length ∧ toSizeT i.metaSize + toSizeT i.dataSize ≤ bs.length

/-- In every state of a run of reads a header that has been accepted is consistent, and every message handed over is. -/
def Recv.OnlyConsistent : Recv → List (List UInt8) → Prop
  | _, []          => True
  | s, bs :: reads =>
    (∀ n c, (splitRun n (splitCall (s.arrive bs) s.receivingData bs.length)).Leaves c →
      c.stream.receivingHeaderIdentified = true → c.stream.receivingHeader.Consistent) ∧
    ∀ mallocOk fuel s' items, (s.arrive bs).onReadSome bs.length mallocOk fuel = .received s' items →
      (∀ i ∈ items, i.Consistent s'.pool) ∧ s'.OnlyConsistent reads

/-- The headers of right magic that the reader meets: those of the frames that end and the one it stands at. -/
def headersMet (r : StreamState × List (MessageHeader × List UInt8)) : List MessageHeader :=
  r.2.map Prod.fst ++
    match r.1 with
    | .body h _ _               => [h]
    | .failed (.negativeSize h) => [h]
    | _                         => []

/-- The length a frame's header announces is its `message_size`. -/
def Announces (h : MessageHeader) (n : Nat) : Prop := h.messageSize = n

/-- A header refused for its size has a negative one. -/
def Refuses : StreamError → Prop
  | .badMagic       => True
  | .negativeSize h => h.messageSize < 0

theorem decode_announces (bs : List UInt8) (h : MessageHeader) (n : Nat) (hd : streamFormat.decode bs = .ok (h, n)) :
    Announces h n := by
  unfold streamFormat at hd
  simp only at hd
  split at hd
  · split at hd
    · split at hd
      · cases hd
      · cases hd
        exact (Int.toNat_of_nonneg (by omega)).symm
    · cases hd
  · cases hd

theorem decode_refuses (bs : List UInt8) (e : StreamError) (hd : streamFormat.decode bs = .error e) : Refuses e := by
  unfold streamFormat at hd
  simp only at hd
  split at hd
  · split at hd
    · split at hd
      · rename_i hneg
        cases hd
        exact hneg
      · cases hd
    · cases hd
      trivial
  · cases hd
    trivial

/-- A state of the stream's reader that can come up. -/
abbrev StreamState.Valid (st : StreamState) : Prop := Framing.State.Valid Announces Refuses st

theorem feed_stream_valid (st : StreamState) (hst : st.Valid) (bs : List UInt8) :
    StreamState.Valid (feed streamFormat st bs).1 ∧ ∀ o ∈ (feed streamFormat st bs).2, Announces o.1 o.2.length :=
  Framing.feed_valid streamFormat decode_announces decode_refuses bs st hst

theorem Recv.Reads.valid {s : Recv} {st : StreamState} (h : s.Reads st) : st.Valid := by
  cases h with
  | header => trivial
  | body hid hn hrecv hlt hmsg => exact ⟨hn, hlt⟩

theorem Recv.Reads.accepted {s : Recv} {st : StreamState} (h : s.Reads st)
    (hid : s.receivingHeaderIdentified = true) : ∃ n got, st = .body s.receivingHeader n got := by
  cases h with
  | header hid' => rw [hid] at hid'; cases hid'
  | body => exact ⟨_, _, rfl⟩

/-- A body under way counts its header among those met, whatever comes. -/
theorem mem_headersMet_body (h : MessageHeader) (n : Nat) (got bs : List UInt8) (hlt : got.length < n) :
    h ∈ headersMet (feed streamFormat (.body h n got) bs) := by
  rcases Framing.feed_body_header streamFormat h n got bs hlt with ⟨got', h1, h2⟩ | ⟨o, ho, rfl⟩
  · simp [headersMet, h1, h2]
  · exact List.mem_append_left _ (List.mem_map_of_mem ho)

/-- The headers met in a stream are those met in its first part and in the rest. -/
theorem mem_headersMet_append (st : StreamState) (hst : st.Valid) (xs ys : List UInt8) (h : MessageHeader) :
    h ∈ headersMet (feed streamFormat st (xs ++ ys)) ↔
      h ∈ headersMet (feed streamFormat st xs) ∨ h ∈ headersMet (feed streamFormat (feed streamFormat st xs).1 ys) := by
  have hmid := (feed_stream_valid st hst xs).1
  rw [Framing.feed_append]
  simp only [headersMet, List.map_append, List.append_assoc, List.mem_append]
  constructor
  · rintro (h1 | h2)
    · exact Or.inl (Or.inl h1)
    · exact Or.inr h2
  · rintro ((h1 | h1) | h2)
    · exact Or.inl h1
    · -- the header the first part ends at is still there, or its frame ends
      refine Or.inr ?_
      revert h1 hmid
      cases (feed streamFormat st xs).1 with
      | header got => simp
      | body k n got =>
        rintro hmid h1
        rw [List.mem_singleton.1 h1]
        exact List.mem_append.1 (mem_headersMet_body k n got ys hmid.2)
      | failed e =>
        cases e with
        | badMagic => simp
        | negativeSize k => simp
    · exact Or.inr h2

/-! ## What the splitter accepts -/

/-- The cursors of a pass: those of its first two steps. -/
theorem splitRun_one_accepts (c d : SplitCursor) (st : StreamState) (bs : List UInt8) (hpc : c.pc = .head)
    (hr : c.stream.Reads st) (hb : c.Holds bs) (hd : (splitRun 1 c).Leaves d)
    (hid : d.stream.receivingHeaderIdentified = true) : d.stream.receivingHeader ∈ headersMet (feed streamFormat st bs) := by
  rw [splitRun_one, splitStep, hpc] at hd
  simp only at hd
  by_cases hknown : c.stream.receivingHeaderIdentified = true
  · -- the header was there before
    have hsame : d.stream.receivingHeader = c.stream.receivingHeader := by
      unfold splitHead at hd
      split at hd
      · rw [SplitStep.leaves_ret] at hd; rw [hd]
      · rw [SplitStep.leaves_next] at hd; rw [← hd]
    obtain ⟨n, got, rfl⟩ := hr.accepted hknown
    rw [hsame]
    exact mem_headersMet_body _ n got bs hr.valid.2
  · cases hr with
    | body hid' => exact absurd hid' hknown
    | @header got hid' hsize hlt hraw hmsg hrecv =>
      have hr := Recv.Reads.header hid' hsize hlt hraw hmsg hrecv
      by_cases hne : bs = []
      · subst hne
        rw [splitHead, if_pos (by rw [hb.size]; simp), SplitStep.leaves_ret] at hd
        subst hd
        exact absurd hid hknown
      by_cases hshort : got.length + bs.length < messageHeaderSize
      · obtain ⟨s', hs', hr'⟩ := splitHead_short c got bs hr hb hne hshort
        rw [hs', SplitStep.leaves_ret] at hd
        subst hd
        obtain ⟨_, _, h⟩ := hr'.accepted hid
        cases h
      obtain ⟨x, y, rfl, hx⟩ : ∃ x y, bs = x ++ y ∧ got.length + x.length = messageHeaderSize :=
        ⟨bs.take (messageHeaderSize - got.length), bs.drop (messageHeaderSize - got.length),
          (List.take_append_drop _ _).symm, by rw [List.length_take]; omega⟩
      have hx0 : x ≠ [] := fun h => by rw [h, List.length_nil] at hx; omega
      let h : MessageHeader := ⟨got ++ x, by rw [List.length_append]; exact hx⟩
      have hf : feed streamFormat (.header got) x = Framing.afterHeader streamFormat h.raw :=
        Framing.feed_header_exact streamFormat got x hx0 hx
      rw [splitHead_full c got x y h hr hb rfl] at hd
      split at hd
      · rename_i hmag
        have hdh : d.stream.receivingHeader = h := by
          split at hd
          · rw [SplitStep.leaves_ret] at hd; rw [← hd]; rfl
          · rw [SplitStep.leaves_next] at hd; rw [← hd]; rfl
        rw [hdh, mem_headersMet_append (.header got) trivial]
        refine Or.inl ?_
        have hdec := decode_raw h
        rw [if_pos hmag] at hdec
        rw [hf, Framing.afterHeader]
        by_cases hneg : h.messageSize < 0
        · rw [if_pos hneg] at hdec
          rw [hdec]
          exact List.mem_singleton.2 rfl
        · rw [if_neg hneg] at hdec
          rw [hdec]
          cases h.messageSize.toNat with
          | zero => exact List.mem_singleton.2 rfl
          | succ n => exact List.mem_singleton.2 rfl
      · rw [SplitStep.leaves_ret] at hd
        subst hd
        exact absurd hid hknown

/-- The body half accepts no header. -/
theorem splitStep_body_accepted (c d : SplitCursor) (hpc : c.pc = .body) (hd : (splitStep c).Leaves d)
    (hid : d.stream.receivingHeaderIdentified = true) :
    d.stream.receivingHeader = c.stream.receivingHeader ∧ c.stream.receivingHeaderIdentified = true := by
  cases splitStep_cases c d hd with
  | stay hpc' | known hpc' | wait hpc' | header hpc' => rw [hpc] at hpc'; cases hpc'
  | part _ hlt h => subst h; exact ⟨rfl, hid⟩
  | whole _ hle s hs h => subst h; cases hid

/-- The first two steps: where the call stands, the header half, the body half behind it. -/
theorem splitRun_two_accepts (c d : SplitCursor) (st : StreamState) (bs : List UInt8) (n : Nat) (hn : n ≤ 2)
    (hpc : c.pc = .head) (hr : c.stream.Reads st) (hb : c.Holds bs)
    (hneg : ∀ h, (feed streamFormat st bs).1 ≠ .failed (.negativeSize h)) (hd : (splitRun n c).Leaves d)
    (hid : d.stream.receivingHeaderIdentified = true) : d.stream.receivingHeader ∈ headersMet (feed streamFormat st bs) := by
  have h0 : n = 0 ∨ n = 1 ∨ n = 2 := by omega
  rcases h0 with rfl | rfl | rfl
  · rw [splitRun, SplitStep.leaves_next] at hd
    subst hd
    obtain ⟨k, got, rfl⟩ := hr.accepted hid
    exact mem_headersMet_body _ k got bs hr.valid.2
  · exact splitRun_one_accepts c d st bs hpc hr hb hd hid
  · cases h1 : splitRun 1 c with
    | next e =>
      rw [splitRun_add 1 1 c e h1, splitRun_one] at hd
      have hpce := (splitHead_takes c e st bs hpc hr hb h1 hneg).1
      obtain ⟨hh, hide⟩ := splitStep_body_accepted e d hpce hd hid
      rw [hh]
      exact splitRun_one_accepts c e st bs hpc hr hb (Or.inl h1) hide
    | ret ok e =>
      rw [splitRun_ret_mono (show 1 ≤ 2 by omega) h1, SplitStep.leaves_ret] at hd
      subst hd
      exact splitRun_one_accepts c e st bs hpc hr hb (Or.inr ⟨ok, h1⟩) hid
    | fault =>
      rw [splitRun_fault_succ h1] at hd
      exact absurd hd (SplitStep.leaves_fault d)

/-- **The headers that a call accepts are among those the reader meets**, as long as none has a negative size. -/
theorem splitRun_accepted : ∀ (m : Nat) (c : SplitCursor) (st : StreamState) (bs : List UInt8), bs.length ≤ m →
    c.pc = .head → c.stream.Reads st → c.Holds bs → (∀ h, (feed streamFormat st bs).1 ≠ .failed (.negativeSize h)) →
    ∀ n d, (splitRun n c).Leaves d → d.stream.receivingHeaderIdentified = true →
      d.stream.receivingHeader ∈ headersMet (feed streamFormat st bs) := by
  intro m
  induction m with
  | zero =>
    intro c st bs hm hpc hr hb hneg n d hd hid
    have hret : splitRun 1 c = .ret true c := by
      rw [splitRun_one, splitStep, hpc]
      simp only [splitHead]
      rw [if_pos (by rw [hb.size]; omega)]
    refine splitRun_two_accepts c d st bs (min n 1) (by omega) hpc hr hb hneg ?_ hid
    by_cases hn : n ≤ 1
    · rwa [Nat.min_eq_left hn]
    · rw [splitRun_ret_mono (show 1 ≤ n by omega) hret] at hd
      rwa [Nat.min_eq_right (by omega), hret]
  | succ m ih =>
    intro c st bs hm hpc hr hb hneg n d hd hid
    by_cases hne : bs = []
    · subst hne
      exact ih c st [] (by simp) hpc hr hb hneg n d hd hid
    have hfirst : n ≤ 2 → d.stream.receivingHeader ∈ headersMet (feed streamFormat st bs) := fun hn =>
      splitRun_two_accepts c d st bs n hn hpc hr hb hneg hd hid
    have hend : ∀ k ok c', k ≤ 2 → splitRun k c = .ret ok c' →
        d.stream.receivingHeader ∈ headersMet (feed streamFormat st bs) := by
      intro k ok c' hk hrun
      by_cases hkn : k ≤ n
      · rw [splitRun_ret_mono hkn hrun, ← hrun] at hd
        exact splitRun_two_accepts c d st bs k hk hpc hr hb hneg hd hid
      · exact hfirst (by omega)
    cases splitPass c st bs hpc hr hb hne with
    | stop k hk c' hrun hst hout hmsgs => exact hend k _ _ hk hrun
    | refuse k hk c' hrun hst hmsgs => exact hend k _ _ hk hrun
    | frame k hk c' y item out hrun hpc' hst hb' hy hmsgs hitem hmet hfeed =>
      by_cases hkn : k ≤ n
      · obtain ⟨j, rfl⟩ := Nat.exists_eq_add_of_le hkn
        rw [splitRun_add k j c c' hrun] at hd
        have := ih c' (.header []) y (by omega) hpc' hst hb' (fun h hh => hneg h (by rw [hfeed]; exact hh)) j d hd hid
        rw [hfeed]
        exact List.mem_cons_of_mem _ this
      · exact hfirst (by omega)
    | derail k hk c' h hrun hpc' hid' hh hneg' hrecv hsize hhi hfeed => exact absurd (by rw [hfeed]) (hneg h)

/-- **The headers that the reader meets are accepted**, each at some cursor of the call. -/
theorem splitRun_meets : ∀ (m : Nat) (c : SplitCursor) (st : StreamState) (bs : List UInt8), bs.length ≤ m →
    c.pc = .head → c.stream.Reads st → c.Holds bs → ∀ h ∈ headersMet (feed streamFormat st bs),
    ∃ n d, (splitRun n c).Leaves d ∧ d.stream.receivingHeaderIdentified = true ∧ d.stream.receivingHeader = h := by
  have hstay : ∀ (c : SplitCursor) (st : StreamState), c.stream.Reads st → ∀ h ∈ headersMet (st, []),
      c.stream.receivingHeaderIdentified = true ∧ c.stream.receivingHeader = h := by
    intro c st hr h hh
    cases hr with
    | header => cases hh
    | body hid => exact ⟨hid, (List.mem_singleton.1 hh).symm⟩
  intro m
  induction m with
  | zero =>
    intro c st bs hm hpc hr hb h hh
    have hbs : bs = [] := List.eq_nil_of_length_eq_zero (by omega)
    subst hbs
    exact ⟨0, c, Or.inl rfl, hstay c st hr h hh⟩
  | succ m ih =>
    intro c st bs hm hpc hr hb h hh
    by_cases hne : bs = []
    · subst hne
      exact ⟨0, c, Or.inl rfl, hstay c st hr h hh⟩
    cases splitPass c st bs hpc hr hb hne with
    | stop k hk c' hrun hst hout hmsgs =>
      refine ⟨k, c', Or.inr ⟨true, hrun⟩, hstay c' _ hst h ?_⟩
      rwa [headersMet, hout] at hh
    | refuse k hk c' hrun hst hmsgs =>
      rw [hst] at hh
      cases hh
    | frame k hk c' y item out hrun hpc' hst hb' hy hmsgs hitem hmet hfeed =>
      rw [hfeed] at hh
      rcases List.mem_cons.1 hh with rfl | hh
      · obtain ⟨d, hd, hid, hdh⟩ := hmet
        exact ⟨1, d, Or.inl hd, hid, hdh⟩
      · obtain ⟨n, d, hd, hrest⟩ := ih c' (.header []) y (by omega) hpc' hst hb' h hh
        refine ⟨k + n, d, ?_, hrest⟩
        rwa [splitRun_add k n c c' hrun]
    | derail k hk c' h' hrun hpc' hid' hh' hneg' hrecv hsize hhi hfeed =>
      rw [hfeed] at hh
      exact ⟨k, c', Or.inl hrun, hid', hh'.trans (List.mem_singleton.1 hh).symm⟩

/-! ## Runs -/

theorem not_consistent_of_negative (h : MessageHeader) (hneg : h.messageSize < 0) : ¬ h.Consistent := by
  rintro ⟨h1, h2, h3⟩
  omega

/-- A frame with a consistent header is a consistent message. -/
theorem ItemOf.consistent {p : TranBufPool} {i : ReceivedItem} {o : MessageHeader × List UInt8} (hio : ItemOf p i o)
    (hlen : Announces o.1 o.2.length) (hc : o.1.Consistent) : i.Consistent p := by
  obtain ⟨h1, h2, h3⟩ := hc
  have e1 := hio.metaSize
  have e2 := hio.dataSize
  have hsum : o.1.metaSize + o.1.dataSize = o.2.length := h3.trans hlen
  have hm : o.1.metaSize < 2 ^ 31 := o.1.metaSize_lt
  have hd : o.1.dataSize < 2 ^ 63 := o.1.dataSize_lt
  have s1 := toSizeT_of_range i.metaSize (by omega) (by omega)
  have s2 := toSizeT_of_range i.dataSize (by omega) (by omega)
  exact ⟨by omega, by omega, o.2, hio.bytes, by omega, by omega, by omega⟩

theorem items_consistent {p : TranBufPool} : ∀ {items : List ReceivedItem} {outs : List (MessageHeader × List UInt8)},
    List.Forall₂ (ItemOf p) items outs → (∀ o ∈ outs, Announces o.1 o.2.length ∧ o.1.Consistent) →
    ∀ i ∈ items, i.Consistent p
  | i :: items, o :: outs, .cons hio hs, hall, k, hk => by
    rcases List.mem_cons.1 hk with rfl | hk
    · obtain ⟨h1, h2⟩ := hall o List.mem_cons_self
      exact hio.consistent h1 h2
    · exact items_consistent hs (fun o' ho' => hall o' (List.mem_cons_of_mem _ ho')) k hk

/-- **A run accepts and hands over consistent sizes only exactly when the reader meets only consistent headers.** -/
theorem Recv.Open.onlyConsistent_iff : ∀ (reads : List (List UInt8)) {s : Recv} {st : StreamState}
    {items : List ReceivedItem} {outs : List (MessageHeader × List UInt8)}, s.Open st items outs →
    FitsBlocks (blockCapacity s.readBufferBaseBlockFactor) s.receivingSize reads →
    (∀ h ∈ headersMet (st, []), h.Consistent) →
    (s.OnlyConsistent reads ↔ ∀ h ∈ headersMet (feed streamFormat st reads.flatten), h.Consistent)
  | [], s, st, items, outs, hs, _, hst => iff_of_true trivial hst
  | bs :: reads, s, st, items, outs, hs, hfit, hst => by
    obtain ⟨ha, hb⟩ := hs.toSound.arrive bs hfit.1
    have hvalid := ha.reads.valid
    have hmet : (∀ h ∈ headersMet (feed streamFormat st bs), h.Consistent) →
        ∀ h, (feed streamFormat st bs).1 ≠ .failed (.negativeSize h) := by
      intro hall h hf
      have hlt := (feed_stream_valid st hvalid bs).1
      rw [hf] at hlt
      exact not_consistent_of_negative h hlt (hall h (List.mem_append_right _ (by rw [hf]; exact List.mem_singleton.2 rfl)))
    have hrest : (∀ h ∈ headersMet (feed streamFormat st bs), h.Consistent) →
        ∀ h ∈ headersMet ((feed streamFormat st bs).1, []), h.Consistent := by
      intro hall h hh
      exact hall h (List.mem_append_right _ hh)
    have hsplit : (∀ h ∈ headersMet (feed streamFormat st (bs ++ reads.flatten)), h.Consistent) ↔
        (∀ h ∈ headersMet (feed streamFormat st bs), h.Consistent) ∧
          ∀ h ∈ headersMet (feed streamFormat (feed streamFormat st bs).1 reads.flatten), h.Consistent := by
      simp only [mem_headersMet_append st hvalid, or_imp, forall_and]
    rw [List.flatten_cons, Recv.OnlyConsistent, hsplit]
    constructor
    · rintro ⟨hcall, hnext⟩
      have hall : ∀ h ∈ headersMet (feed streamFormat st bs), h.Consistent := by
        intro h hh
        obtain ⟨n, d, hd, hid, rfl⟩ := splitRun_meets bs.length _ st bs (Nat.le_refl _) rfl ha.reads hb h hh
        exact hcall n d hd hid
      refine ⟨hall, ?_⟩
      rcases hs.onRead bs hfit.1 (hmet hall) with ⟨s', items', hread, hopen, hroom, hfac⟩ | ⟨-, hbad⟩
      · have ih := hopen.onlyConsistent_iff reads (by rw [hfac, hroom]; exact hfit.2) (hrest hall)
        exact ih.1 (hnext _ _ s' items' hread).2
      · rw [hbad, Framing.feed_failed]
        intro h hh
        cases hh
    · rintro ⟨hall, hlater⟩
      refine ⟨fun n d hd hid => ?_, fun mallocOk fuel t items'' ht => ?_⟩
      · exact hall _ (splitRun_accepted bs.length _ st bs (Nat.le_refl _) rfl ha.reads hb (hmet hall) n d hd hid)
      · have hread' := hs.onRead_unique bs hfit.1 (hmet hall) ht
        rcases hs.onRead bs hfit.1 (hmet hall) with ⟨s', items', hread, hopen, hroom, hfac⟩ | ⟨⟨s', hread⟩, -⟩
        · rw [hread] at hread'
          cases hread'
          refine ⟨?_, (hopen.onlyConsistent_iff reads (by rw [hfac, hroom]; exact hfit.2) (hrest hall)).2 hlater⟩
          have hnew : List.Forall₂ (ItemOf t.pool) items'' (feed streamFormat st bs).2 := by
            have := List.forall₂_drop_append _ _ _ hopen.frames
            rwa [← hs.frames.length_eq, List.drop_left] at this
          refine items_consistent hnew fun o ho => ⟨(feed_stream_valid st hvalid bs).2 o ho, hall o.1 ?_⟩
          exact List.mem_append_left _ (List.mem_map_of_mem ho)
        · rw [hread] at hread'
          cases hread'

/-- **A connected stream accepts and hands over consistent sizes only exactly when its peer sends consistent headers
only**: every header of right magic that the reader meets has sizes that are not negative and add up. -/
theorem onlyConsistent_onConnected (factor : BlockFactor) (reads : List (List UInt8))
    (hfit : FitsBlocks (blockCapacity factor) (blockCapacity factor) reads) :
    ((Recv.init factor).onConnected true).2.OnlyConsistent reads ↔
      ∀ h ∈ headersMet (feed streamFormat (.header []) reads.flatten), h.Consistent := by
  obtain ⟨s, hs, hopen, hroom, hfac⟩ := Recv.onConnected_open factor
  rw [hs]
  exact hopen.onlyConsistent_iff reads (by rw [hfac, hroom]; exact hfit) (by intro h hh; cases hh)

/-- A frame says of itself what it is. -/
theorem Frame.header_consistent (f : Frame) : f.header.Consistent := by
  refine ⟨?_, ?_, ?_⟩
  · rw [f.header_metaSize]
    exact f.metaSize_nonneg
  · rw [f.header_dataSize]
    exact f.dataSize_nonneg
  · rw [f.header_metaSize, f.header_dataSize, f.header_messageSize, f.body_length]

/-- The headers of a stream of frames are theirs. -/
theorem headersMet_feed_bytes (frames : List Frame) :
    headersMet (feed streamFormat (.header []) (frames.flatMap Frame.bytes)) = frames.map Frame.header := by
  rw [Frame.feed_bytes, headersMet, List.map_map]
  exact List.append_nil _

/-- Two frames that are cut inside the body of the second one. -/
theorem onlyConsistent_onConnected_cut : ((Recv.init 9).onConnected true).2.OnlyConsistent
    [([Frame.threeBytes, Frame.threeBytes].flatMap Frame.bytes).take 52,
      ([Frame.threeBytes, Frame.threeBytes].flatMap Frame.bytes).drop 52] :=
  (onlyConsistent_onConnected 9 [_, _] ⟨by decide, by decide, trivial⟩).2 (by
    rw [List.flatten_cons, List.flatten_singleton, List.take_append_drop, headersMet_feed_bytes]
    intro h hh
    obtain ⟨f, -, rfl⟩ := List.mem_map.1 hh
    exact f.header_consistent)

/-- A header of `meta_size` 1000 in front of an empty message: the message is handed over all the same. -/
theorem not_onlyConsistent_meta1000 :
    FitsBlocks (blockCapacity 9) (blockCapacity 9) [(MessageHeader.ofFields 1000 0 0).raw] ∧
      ¬ ((Recv.init 9).onConnected true).2.OnlyConsistent [(MessageHeader.ofFields 1000 0 0).raw] ∧
      ∃ s s' i, (Recv.init 9).onConnected true = (true, s) ∧
        s.receiveAll [(MessageHeader.ofFields 1000 0 0).raw] = some (s', [i]) ∧ i.metaSize = 1000 ∧
        i.message.toString s'.pool = some [] := by
  let h := MessageHeader.ofFields 1000 0 0
  obtain ⟨s, hs, hopen, hroom, hfac⟩ := Recv.onConnected_open 9
  have hfit : FitsBlocks (blockCapacity 9) (blockCapacity 9) [h.raw] := ⟨by decide, trivial⟩
  have hfits : FitsBlocks (blockCapacity s.readBufferBaseBlockFactor) s.receivingSize [h.raw] := by
    rw [hfac, hroom]; exact hfit
  have hmeta : h.metaSize = 1000 := MessageHeader.metaSize_ofFields 1000 0 0 (by decide) (by decide)
  have hmsg : h.messageSize = 0 := MessageHeader.messageSize_ofFields 1000 0 0 (by decide) (by decide)
  have hdec : streamFormat.decode h.raw = .ok (h, 0) := by
    have hmag : h.checkMagicString = true := MessageHeader.checkMagicString_ofFields _ _ _
    rw [decode_raw, if_pos hmag, if_neg (by omega), hmsg]
    rfl
  have hfeed : feed streamFormat (.header []) [h.raw].flatten = (.header [], [(h, [])]) := by
    have := Framing.feed_frame streamFormat h.raw [] h h.raw_length hdec
    simpa using this
  refine ⟨hfit, ?_, ?_⟩
  · rw [hs, hopen.onlyConsistent_iff _ hfits (by intro k hk; cases hk), hfeed]
    intro hall
    have hdata : h.dataSize = 0 := MessageHeader.dataSize_ofFields 1000 0 0 (by decide) (by decide)
    have := (hall h List.mem_cons_self).2.2
    omega
  · obtain ⟨s', items, hrun, hopen'⟩ := hopen.receiveAll _ hfits (fun e he => by rw [hfeed] at he; cases he)
    rw [hfeed] at hopen'
    have hframes := hopen'.frames
    rw [List.nil_append, List.nil_append] at hframes
    cases hframes with
    | cons hio hnil =>
      cases hnil
      exact ⟨s, s', _, hs, hrun, hio.metaSize.trans hmeta, hio.bytes⟩

end Gb
