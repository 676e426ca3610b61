import GbServer.NatsInbox
import GbServer.CString
import GbServer.Lib.KeyedMap
import GbServer.Lib.Run
import Mathlib.Data.List.Nodup
/-!
# NatsSubscriptions — handlers by subject

`Subscribe`, the worker's task of `OnNatsSubMsg`, and `NatsWildcardMatch` and `MatchSub` (`nats_manager.cpp`).  A call of
`Subscribe` that NATS accepts makes a subscription of its own, also where the subject has one; the handler of the subject is
replaced.  A message comes once for each subscription that it matches, and each time the handler is looked up anew, by the
subject of the message.

Which subscriptions a message matches is for the server to say; what is known of it is `tokensMatch`, with which
`NatsWildcardMatch` agrees on patterns whose wildcards are tokens (`matchSub_eq`).
-/
namespace Gb

open Run

abbrev Subject := List Char

/-! ## Wildcards -/

/-- The loop of `NatsWildcardMatch`, from one place in the pattern and one in the subject, and what follows it. -/
def natsMatchFrom : List Char → List Char → Bool
  | [],           subject => subject.isEmpty
  | p :: pattern, []      => p == '>' && pattern.isEmpty
  | p :: pattern, s :: subject =>
    if p = '*' then natsMatchFrom pattern ((s :: subject).dropWhile fun c => c != '.')
    else if p = '>' then true
    else p == s && natsMatchFrom pattern subject

def natsWildcardMatch (pattern subject : List Char) : Bool := pattern == ['>'] || natsMatchFrom pattern subject

def matchSub (pattern subject : Subject) : Bool := pattern == subject || natsWildcardMatch (cStr pattern) (cStr subject)

/-- Matching token by token: `*` stands for one, `>` in the end for one or more. -/
def tokensMatch : List (List Char) → List (List Char) → Bool
  | [],            []            => true
  | [],            _ :: _        => false
  | _ :: _,        []            => false
  | p :: pattern,  s :: subject  =>
    p == ['>'] && pattern.isEmpty || (p == ['*'] || p == s) && tokensMatch pattern subject

/-- The subject of these tokens. -/
def joinTokens (tokens : List (List Char)) : Subject := ['.'].intercalate tokens

/-- A token of a pattern: a wildcard, or text without one; `>` stands in the end. -/
def PatternTokens : List (List Char) → Prop
  | []           => True
  | p :: pattern => ('.' ∉ p ∧ (p = ['*'] ∨ p = ['>'] ∧ pattern = [] ∨ ∀ c ∈ p, c ≠ '*' ∧ c ≠ '>')) ∧ PatternTokens pattern

instance PatternTokens.decide : (pattern : List (List Char)) → Decidable (PatternTokens pattern)
  | []           => .isTrue trivial
  | p :: pattern =>
    have := PatternTokens.decide pattern
    have : Decidable (∀ c ∈ p, c ≠ '*' ∧ c ≠ '>') := List.decidableBAll _ p
    inferInstanceAs (Decidable
      (('.' ∉ p ∧ (p = ['*'] ∨ p = ['>'] ∧ pattern = [] ∨ ∀ c ∈ p, c ≠ '*' ∧ c ≠ '>')) ∧ PatternTokens pattern))

/-- A token of a subject. -/
def SubjectToken (s : List Char) : Prop := s ≠ [] ∧ '.' ∉ s

instance (s : List Char) : Decidable (SubjectToken s) := inferInstanceAs (Decidable (s ≠ [] ∧ '.' ∉ s))

/-- What follows a token: nothing, or a dot and more. -/
def AtDot (text : List Char) : Prop := text = [] ∨ ∃ rest, text = '.' :: rest

theorem natsMatchFrom_text : ∀ {p s : List Char} {pattern subject : List Char}, (∀ c ∈ p, c ≠ '*' ∧ c ≠ '>') → '.' ∉ p →
    '.' ∉ s → AtDot pattern → AtDot subject →
    natsMatchFrom (p ++ pattern) (s ++ subject) = (p == s && natsMatchFrom pattern subject)
  | [],     [],     _, _, _, _, _, _, _ => by simp
  | [],     c :: s, pattern, subject, _, _, hs, hpattern, _ => by
    have hc : c ≠ '.' := fun heq => hs (heq ▸ List.mem_cons_self)
    rcases hpattern with rfl | ⟨rest, rfl⟩
    · simp [natsMatchFrom]
    · simp [natsMatchFrom, hc.symm]
  | c :: p, [],     pattern, subject, hp, hdot, _, _, hsubject => by
    obtain ⟨hstar, hgt⟩ := hp c List.mem_cons_self
    have hc : c ≠ '.' := fun heq => hdot (heq ▸ List.mem_cons_self)
    rcases hsubject with rfl | ⟨rest, rfl⟩
    · simp [natsMatchFrom, hgt]
    · simp [natsMatchFrom, hstar, hgt, hc]
  | c :: p, d :: s, pattern, subject, hp, hdot, hs, hpattern, hsubject => by
    obtain ⟨hstar, hgt⟩ := hp c List.mem_cons_self
    have hrest := natsMatchFrom_text (fun x hx => hp x (List.mem_cons_of_mem c hx))
      (fun hmem => hdot (List.mem_cons_of_mem c hmem)) (fun hmem => hs (List.mem_cons_of_mem d hmem)) hpattern hsubject
    simp only [List.cons_append, natsMatchFrom, if_neg hstar, if_neg hgt, hrest]
    rw [List.cons_beq_cons, Bool.and_assoc]

theorem natsMatchFrom_star {s pattern subject : List Char} (hs : SubjectToken s) (hsubject : AtDot subject) :
    natsMatchFrom ('*' :: pattern) (s ++ subject) = natsMatchFrom pattern subject := by
  obtain ⟨c, rest, rfl⟩ := List.exists_cons_of_ne_nil hs.1
  have hdrop : ((c :: rest) ++ subject).dropWhile (fun c => c != '.') = subject := by
    rw [List.dropWhile_append_of_pos fun x hx => ?_]
    · rcases hsubject with rfl | ⟨tail, rfl⟩
      · rfl
      · simp
    · simp only [bne_iff_ne]
      exact fun heq => hs.2 (heq ▸ hx)
  rw [List.cons_append] at hdrop ⊢
  rw [natsMatchFrom, if_pos rfl, hdrop]

/-- The rest of a subject behind its first token. -/
def joinRest (tokens : List (List Char)) : List Char := if tokens = [] then [] else '.' :: joinTokens tokens

theorem joinTokens_cons (t : List Char) (tokens : List (List Char)) : joinTokens (t :: tokens) = t ++ joinRest tokens := by
  rw [joinTokens, joinRest]
  by_cases h : tokens = []
  · rw [if_pos h, h, List.intercalate_singleton, List.append_nil]
  · rw [if_neg h, List.intercalate_cons_of_ne_nil h, List.append_assoc]
    rfl

theorem atDot_joinRest (tokens : List (List Char)) : AtDot (joinRest tokens) := by
  rw [joinRest]
  split
  · exact .inl rfl
  · exact .inr ⟨_, rfl⟩

/-- **`NatsWildcardMatch` matches token by token.** -/
theorem natsMatchFrom_join : ∀ {pattern subject : List (List Char)}, PatternTokens pattern →
    (∀ s ∈ subject, SubjectToken s) → pattern ≠ [] → subject ≠ [] →
    natsMatchFrom (joinTokens pattern) (joinTokens subject) = tokensMatch pattern subject
  | [],           _,            _, _, h, _ => absurd rfl h
  | _ :: _,       [],           _, _, _, h => absurd rfl h
  | p :: pattern, s :: subject, hpattern, hsubject, _, _ => by
    have hs := hsubject s List.mem_cons_self
    -- behind equal tokens both are at a dot, or at the end
    have hrest : natsMatchFrom (joinRest pattern) (joinRest subject) = tokensMatch pattern subject := by
      rw [joinRest, joinRest]
      by_cases hp : pattern = []
      · by_cases hsub : subject = []
        · simp [hp, hsub, natsMatchFrom, tokensMatch]
        · obtain ⟨t, ts, rfl⟩ := List.exists_cons_of_ne_nil hsub
          simp [hp, natsMatchFrom, tokensMatch]
      · by_cases hsub : subject = []
        · obtain ⟨t, ts, rfl⟩ := List.exists_cons_of_ne_nil hp
          simp [hsub, natsMatchFrom, tokensMatch]
        · rw [if_neg hp, if_neg hsub, natsMatchFrom, if_neg (by decide), if_neg (by decide), beq_self_eq_true, Bool.true_and]
          exact natsMatchFrom_join hpattern.2 (fun t ht => hsubject t (List.mem_cons_of_mem s ht)) hp hsub
    rw [joinTokens_cons, joinTokens_cons, tokensMatch]
    obtain ⟨hdot, rfl | ⟨rfl, rfl⟩ | htext⟩ := hpattern.1
    · rw [List.cons_append, List.nil_append, natsMatchFrom_star hs (atDot_joinRest subject), hrest]
      simp
    · obtain ⟨c, rest, rfl⟩ := List.exists_cons_of_ne_nil hs.1
      simp [natsMatchFrom, joinRest]
    · rw [natsMatchFrom_text htext hdot hs.2 (atDot_joinRest pattern) (atDot_joinRest subject), hrest]
      have hstar : (p == ['*']) = false :=
        beq_eq_false_iff_ne.2 fun heq => (htext '*' (heq ▸ List.mem_singleton_self _)).1 rfl
      have hgt : (p == ['>']) = false :=
        beq_eq_false_iff_ne.2 fun heq => (htext '>' (heq ▸ List.mem_singleton_self _)).2 rfl
      rw [hstar, hgt, Bool.false_and, Bool.false_or, Bool.false_or]

theorem PatternTokens.dot : ∀ {pattern : List (List Char)}, PatternTokens pattern → ∀ p ∈ pattern, '.' ∉ p
  | [],          _, _, hmem => absurd hmem List.not_mem_nil
  | q :: pattern, h, p, hmem => by
    rcases List.mem_cons.1 hmem with rfl | hmem
    · exact h.1.1
    · exact h.2.dot p hmem

theorem tokensMatch_self : ∀ tokens : List (List Char), tokensMatch tokens tokens = true
  | []           => rfl
  | t :: tokens => by rw [tokensMatch, tokensMatch_self tokens, beq_self_eq_true, Bool.or_true, Bool.and_true, Bool.or_true]

/-- A text that is made of tokens and has no zero in it. -/
structure MadeOf (tokens : List (List Char)) (text : List Char) : Prop where
  nonempty : tokens ≠ []
  join     : text = joinTokens tokens
  zero     : Char.ofNat 0 ∉ text

def IsPattern (pattern : Subject) : Prop := ∃ tokens, MadeOf tokens pattern ∧ PatternTokens tokens

def IsSubject (subject : Subject) : Prop := ∃ tokens, MadeOf tokens subject ∧ ∀ s ∈ tokens, SubjectToken s

/-- What is known of the server: it matches token by token. -/
def serverMatches (pattern subject : Subject) : Bool := tokensMatch (pattern.splitOn '.') (subject.splitOn '.')

theorem MadeOf.cStr {tokens : List (List Char)} {text : List Char} (h : MadeOf tokens text) : cStr text = text :=
  cStr_eq_self h.zero

theorem MadeOf.splitOn {tokens : List (List Char)} {text : List Char} (h : MadeOf tokens text) (hdot : ∀ t ∈ tokens, '.' ∉ t) :
    text.splitOn '.' = tokens := by
  rw [h.join, joinTokens, List.splitOn_intercalate '.' hdot h.nonempty]

theorem IsSubject.cStr {subject : Subject} (h : IsSubject subject) : cStr subject = subject := by
  obtain ⟨_, hmade, _⟩ := h
  exact hmade.cStr

theorem natsWildcardMatch_eq {pattern subject : Subject} (hpattern : IsPattern pattern) (hsubject : IsSubject subject) :
    natsWildcardMatch pattern subject = serverMatches pattern subject := by
  obtain ⟨ps, hps, hpatternTokens⟩ := hpattern
  obtain ⟨ss, hss, hsubjectTokens⟩ := hsubject
  have hsplit := hps.splitOn hpatternTokens.dot
  have hsplit' := hss.splitOn fun s hmem => (hsubjectTokens s hmem).2
  have hloop := natsMatchFrom_join hpatternTokens hsubjectTokens hps.nonempty hss.nonempty
  rw [← hps.join, ← hss.join] at hloop
  rw [natsWildcardMatch, serverMatches, hsplit, hsplit', hloop]
  -- the comparison only says sooner what the loop finds
  have hall : pattern = ['>'] → tokensMatch ps ss = true := by
    rintro rfl
    obtain ⟨s, ss, rfl⟩ := List.exists_cons_of_ne_nil hss.nonempty
    rw [← hsplit]
    rfl
  rw [Bool.eq_iff_iff, Bool.or_eq_true, beq_iff_eq]
  exact ⟨fun h => h.elim hall id, .inr⟩

/-- `MatchSub` says of what is shown of a pattern what the server does. -/
theorem matchSub_shown {pattern subject : Subject} (hpattern : IsPattern (cStr pattern)) (hsubject : IsSubject subject) :
    matchSub pattern subject = serverMatches (cStr pattern) subject := by
  rw [matchSub, hsubject.cStr, natsWildcardMatch_eq hpattern hsubject]
  have hequal : pattern = subject → serverMatches (cStr pattern) subject = true := by
    rintro rfl
    rw [hsubject.cStr]
    exact tokensMatch_self _
  rw [Bool.eq_iff_iff, Bool.or_eq_true, beq_iff_eq]
  exact ⟨fun h => h.elim hequal id, .inr⟩

/-- **`MatchSub` says of well-formed patterns and subjects what the server does.** -/
theorem matchSub_eq {pattern subject : Subject} (hpattern : IsPattern pattern) (hsubject : IsSubject subject) :
    matchSub pattern subject = serverMatches pattern subject := by
  have hself : cStr pattern = pattern := by
    obtain ⟨_, hmade, _⟩ := hpattern
    exact hmade.cStr
  rw [matchSub_shown (hself.symm ▸ hpattern) hsubject, hself]

/-! ### The rules for tokens

The matcher is given C strings: of a pattern it sees what comes before the first zero byte.  The subject of a message is
made of a C string and has none. -/

/-- The rules of NATS: equal tokens match, `*` stands for one token, and `>` for one or more that remain. -/
inductive TokenRules : List (List Char) → List (List Char) → Prop
  | nil : TokenRules [] []
  | token {pattern subject} (t : List Char) : TokenRules pattern subject → TokenRules (t :: pattern) (t :: subject)
  | star {pattern subject} (s : List Char) : TokenRules pattern subject → TokenRules (['*'] :: pattern) (s :: subject)
  | rest (s : List Char) (subject : List (List Char)) : TokenRules [['>']] (s :: subject)

theorem tokensMatch_iff : ∀ pattern subject : List (List Char), tokensMatch pattern subject = true ↔ TokenRules pattern subject
  | [],           []           => iff_of_true rfl .nil
  | [],           _ :: _       => iff_of_false Bool.false_ne_true nofun
  | _ :: _,       []           => iff_of_false Bool.false_ne_true nofun
  | p :: pattern, s :: subject => by
    rw [tokensMatch, Bool.or_eq_true, Bool.and_eq_true, Bool.and_eq_true, Bool.or_eq_true, beq_iff_eq, beq_iff_eq,
      beq_iff_eq, List.isEmpty_iff, tokensMatch_iff pattern subject]
    constructor
    · rintro (⟨rfl, rfl⟩ | ⟨rfl | rfl, h⟩)
      · exact .rest s subject
      · exact .star s h
      · exact .token p h
    · rintro (_ | ⟨_, h⟩ | ⟨_, h⟩)
      · exact .inr ⟨.inr rfl, h⟩
      · exact .inr ⟨.inl rfl, h⟩
      · exact .inl ⟨rfl, rfl⟩

/-- What is shown of a well-formed pattern is well-formed. -/
theorem PatternTokens.cStr : ∀ {pattern : List (List Char)}, PatternTokens pattern → pattern ≠ [] →
    ∃ shown, MadeOf shown (Gb.cStr (joinTokens pattern)) ∧ PatternTokens shown
  | [],           _, hne => absurd rfl hne
  | p :: pattern, h, _   => by
    by_cases hp : Char.ofNat 0 ∈ p
    · -- a token with a zero byte is text, and the last that is shown
      have htext : ∀ c ∈ p, c ≠ '*' ∧ c ≠ '>' := by
        obtain ⟨_, rfl | ⟨rfl, _⟩ | htext⟩ := h.1
        · exact absurd hp (by decide)
        · exact absurd hp (by decide)
        · exact htext
      have hsub : ∀ c ∈ Gb.cStr p, c ∈ p := fun c hc => (List.takeWhile_prefix _).subset hc
      refine ⟨[Gb.cStr p], ⟨List.cons_ne_nil _ _, ?_, zero_notMem_cStr _⟩, ⟨fun hdot => h.1.1 (hsub _ hdot), ?_⟩, trivial⟩
      · rw [joinTokens_cons, cStr_append_of_mem hp]
        exact (List.intercalate_singleton).symm
      · exact .inr (.inr fun c hc => htext c (hsub c hc))
    · by_cases hlast : pattern = []
      · subst hlast
        refine ⟨[p], ⟨List.cons_ne_nil _ _, ?_, zero_notMem_cStr _⟩, h⟩
        rw [joinTokens_cons, cStr_append hp]
        rfl
      · obtain ⟨shown, hshown, hwell⟩ := PatternTokens.cStr h.2 hlast
        refine ⟨p :: shown, ⟨List.cons_ne_nil _ _, ?_, zero_notMem_cStr _⟩, ⟨h.1.1, ?_⟩, hwell⟩
        · rw [joinTokens_cons, joinTokens_cons, cStr_append hp, joinRest, joinRest, if_neg hlast, if_neg hshown.nonempty,
            ← hshown.join]
          exact congrArg (p ++ ·) (cStr_append (p := ['.']) (by decide) _)
        · rcases h.1.2 with hstar | ⟨_, hempty⟩ | htext
          · exact .inl hstar
          · exact absurd hempty hlast
          · exact .inr (.inr htext)

/-- The tokens that are shown of a pattern. -/
def shownTokens (pattern : List (List Char)) : List (List Char) := (cStr (joinTokens pattern)).splitOn '.'

theorem shownTokens_eq {pattern : List (List Char)} (h : PatternTokens pattern) (hne : pattern ≠ [])
    (hzero : Char.ofNat 0 ∉ joinTokens pattern) : shownTokens pattern = pattern := by
  have hmade : MadeOf pattern (joinTokens pattern) := ⟨hne, rfl, hzero⟩
  rw [shownTokens, hmade.cStr, hmade.splitOn h.dot]

/-- **`MatchSub` follows the rules for tokens**, of every pattern whose wildcards are tokens, `>` the last of them, and every
subject of tokens without a zero byte: those of the pattern are the ones before its first zero byte, all of them where it
has none. -/
theorem matchSub_iff {pattern subject : List (List Char)} (hpattern : PatternTokens pattern) (hne : pattern ≠ [])
    (hsubject : ∀ s ∈ subject, SubjectToken s) (hne' : subject ≠ []) (hzero : Char.ofNat 0 ∉ joinTokens subject) :
    (matchSub (joinTokens pattern) (joinTokens subject) = true ↔ TokenRules (shownTokens pattern) subject) ∧
      (Char.ofNat 0 ∉ joinTokens pattern → shownTokens pattern = pattern) := by
  refine ⟨?_, shownTokens_eq hpattern hne⟩
  have hmade : MadeOf subject (joinTokens subject) := ⟨hne', rfl, hzero⟩
  obtain ⟨shown, hshown, hwell⟩ := hpattern.cStr hne
  rw [matchSub_shown ⟨shown, hshown, hwell⟩ ⟨subject, hmade, hsubject⟩, serverMatches, tokensMatch_iff,
    hmade.splitOn fun s hs => (hsubject s hs).2]
  rfl

/-- Both wildcards at once. -/
theorem matchSub_iff_wildcards :
    (matchSub "a.*.>".toList "a.b.c.d".toList = true ↔
      TokenRules (shownTokens [['a'], ['*'], ['>']]) [['a'], ['b'], ['c'], ['d']]) ∧
      (Char.ofNat 0 ∉ "a.*.>".toList → shownTokens [['a'], ['*'], ['>']] = [['a'], ['*'], ['>']]) :=
  @matchSub_iff [['a'], ['*'], ['>']] [['a'], ['b'], ['c'], ['d']] (by decide) (by decide) (by decide) (by decide) (by decide)

/-- A zero byte in the pattern: `a` is what is shown of it. -/
theorem not_matchSub_iff : ¬∀ pattern subject : List (List Char), PatternTokens pattern → pattern ≠ [] → [] ∉ pattern →
    (∀ s ∈ subject, SubjectToken s ∧ '*' ∉ s ∧ '>' ∉ s) → subject ≠ [] →
    (matchSub (joinTokens pattern) (joinTokens subject) = true ↔ TokenRules pattern subject) := by
  intro h
  have hmatch := (h [['a', Char.ofNat 0, 'b']] [['a']] (by decide) (by decide) (by decide) (by decide) (by decide)).1
    (by decide)
  cases hmatch

/-! ## Handlers -/

/-- A map by subjects. -/
abbrev SubjectMap (κ : Type) : Type := KeyedMap (Keys.ofEq : Keys Subject) κ

/-- The worker's map, and the subscriptions that NATS has for it; `κ` are the handlers. -/
structure NatsSubs (κ : Type) where
  connected : Bool := false
  subs      : SubjectMap κ := .empty
  natsSubs  : List Subject := []

inductive NatsCall (κ : Type)
  | connect
  | disconnect
  | subscribe (subject : Subject) (handler : κ) (accepted : Bool)

structure NatsPublished where
  subject : Subject
  replyTo : List Char
  payload : List UInt8

/-- A handler is called, the one that stands under `subject`. -/
structure HandlerRun (κ : Type) where
  subject : Subject
  handler : κ
  arg     : Meta × List UInt8
  replyTo : List Char

namespace NatsSubs

variable {κ : Type}

def erase (subs : SubjectMap κ) (subject : Subject) : SubjectMap κ :=
  ⟨subs.val.filter fun kv => kv.1 != subject, subs.2.sublist List.filter_sublist⟩

def step (s : NatsSubs κ) : NatsCall κ → NatsSubs κ
  | .connect                           => { s with connected := true }
  | .disconnect                        => { s with connected := false, natsSubs := [] }
  | .subscribe subject handler accepted =>
    if !s.connected then s
    else
      let s := { s with subs := s.subs.insertOrAssign subject handler }
      if accepted then { s with natsSubs := s.natsSubs ++ [cStr subject] } else { s with subs := erase s.subs subject }

/-- The entry that a task finds, where the map is gone through in this order. -/
def find (order : List (Subject × κ)) (subject : Subject) : Option (Subject × κ) :=
  (order.find? fun kv => kv.1 == subject).or (order.find? fun kv => matchSub kv.1 subject)

/-- The handler of an entry is called with a message. -/
def call (m : NatsPublished) (kv : Subject × κ) : HandlerRun κ :=
  { subject := kv.1, handler := kv.2, arg := NatsManager.splitPayload m.payload, replyTo := m.replyTo }

/-- The task of `OnNatsSubMsg`. -/
def onNatsSubMsg (order : List (Subject × κ)) (m : NatsPublished) : List (HandlerRun κ) :=
  ((find order m.subject).map (call m)).toList

variable (matching : Subject → Subject → Bool) (s : NatsSubs κ) (order : List (Subject × κ)) (m : NatsPublished)

/-- The subscriptions that get a message. -/
def receiving : List Subject := s.natsSubs.filter fun subject => matching subject m.subject

/-- A message is published: each subscription that gets it makes a task. -/
def publish : List (HandlerRun κ) := (s.receiving matching m).flatMap fun _ => onNatsSubMsg order m

/-- The handler of every subject that the message matches is called once, with the message. -/
def Dispatched : Prop :=
  ∀ kv ∈ s.subs.val, matching (cStr kv.1) m.subject = true →
    (s.publish matching order m).filter (fun run => run.subject == kv.1) = [call m kv]

/-- An entry stands under the subject of the message; or that has none, and it is the first that `MatchSub` accepts. -/
def Foremost (kv : Subject × κ) : Prop :=
  kv.1 = m.subject ∨ m.subject ∉ order.map Prod.fst ∧ ∃ before after, order = before ++ kv :: after ∧
    matchSub kv.1 m.subject = true ∧ ∀ kv' ∈ before, matchSub kv'.1 m.subject ≠ true

/-- The message matches no registered subject; or one alone, one subscription alone gets it, and the lookup comes to the
subject's entry first. -/
def Sole : Prop :=
  (∀ kv ∈ s.subs.val, matching (cStr kv.1) m.subject ≠ true) ∨
    (s.receiving matching m).length = 1 ∧ ∃ kv ∈ s.subs.val,
      (∀ kv' ∈ s.subs.val, matching (cStr kv'.1) m.subject = true → kv' = kv) ∧ Foremost order m kv

variable {matching s order m}

theorem find_eq_some_iff (hkeys : (order.map Prod.fst).Nodup) {kv : Subject × κ} :
    find order m.subject = some kv ↔ kv ∈ order ∧ Foremost order m kv := by
  rw [find]
  cases hexact : order.find? fun kv => kv.1 == m.subject with
  | some it =>
    have hmem := List.mem_of_find?_eq_some hexact
    have hsubject : it.1 = m.subject := by simpa using List.find?_some hexact
    rw [Option.some_or, Option.some.injEq]
    constructor
    · rintro rfl
      exact ⟨hmem, .inl hsubject⟩
    · rintro ⟨hkv, heq | ⟨hnot, _⟩⟩
      · exact List.inj_on_of_nodup_map hkeys hmem hkv (hsubject.trans heq.symm)
      · exact absurd (hsubject ▸ List.mem_map_of_mem hmem) hnot
  | none    =>
    have hnot : m.subject ∉ order.map Prod.fst := by
      intro hmem
      obtain ⟨kv, hkv, heq⟩ := List.mem_map.1 hmem
      exact absurd (List.find?_eq_none.1 hexact kv hkv) (by simp [heq])
    rw [Option.none_or, List.find?_eq_some_iff_append]
    constructor
    · rintro ⟨hmatch, before, after, rfl, hbefore⟩
      exact ⟨by simp, .inr ⟨hnot, before, after, rfl, hmatch, fun kv' hkv' => by simpa using hbefore kv' hkv'⟩⟩
    · rintro ⟨hmem, heq | ⟨_, before, after, rfl, hmatch, hbefore⟩⟩
      · exact absurd (heq ▸ List.mem_map_of_mem hmem) hnot
      · exact ⟨hmatch, before, after, rfl, fun kv' hkv' => by simpa using hbefore kv' hkv'⟩

/-- Every subscription that gets the message calls the same handler. -/
theorem publish_of_find {kv : Subject × κ} (h : find order m.subject = some kv) :
    s.publish matching order m = List.replicate (s.receiving matching m).length (call m kv) := by
  rw [publish, onNatsSubMsg, h, Option.map_some, Option.toList_some]
  induction s.receiving matching m with
  | nil         => rfl
  | cons _ _ ih => rw [List.flatMap_cons, ih, List.length_cons, List.replicate_succ, List.singleton_append]

theorem publish_of_not_found (h : find order m.subject = none) : s.publish matching order m = [] := by
  rw [publish, onNatsSubMsg, h, Option.map_none, Option.toList_none, List.flatMap_eq_nil_iff]
  exact fun _ _ => rfl

theorem dispatched_iff (horder : order.Perm s.subs.val) : s.Dispatched matching order m ↔ s.Sole matching order m := by
  have hkeys : (order.map Prod.fst).Nodup := (horder.map Prod.fst).nodup_iff.2 s.subs.2.nodup
  constructor
  · intro h
    by_cases hnone : ∀ kv ∈ s.subs.val, matching (cStr kv.1) m.subject ≠ true
    · exact .inl hnone
    push Not at hnone
    obtain ⟨kv, hkv, hmatching⟩ := hnone
    -- a handler that is called is the one that the lookup comes to
    have hfind : ∀ kv' ∈ s.subs.val, matching (cStr kv'.1) m.subject = true →
        find order m.subject = some kv' ∧ (s.receiving matching m).length = 1 := by
      intro kv' hkv' hmatching'
      have hruns := h kv' hkv' hmatching'
      cases hfound : find order m.subject with
      | none    =>
        rw [publish_of_not_found hfound] at hruns
        cases hruns
      | some it =>
        rw [publish_of_find hfound, List.filter_replicate] at hruns
        split at hruns
        · rename_i hsubject
          have hit := ((find_eq_some_iff hkeys).1 hfound).1
          have heq : it = kv' :=
            List.inj_on_of_nodup_map hkeys hit (horder.mem_iff.2 hkv') (by simpa [call] using hsubject)
          exact ⟨congrArg some heq, by simpa using congrArg List.length hruns⟩
        · cases hruns
    obtain ⟨hfound, hone⟩ := hfind kv hkv hmatching
    refine .inr ⟨hone, kv, hkv, fun kv' hkv' hmatching' => ?_, ((find_eq_some_iff hkeys).1 hfound).2⟩
    exact Option.some.inj ((hfind kv' hkv' hmatching').1.symm.trans hfound)
  · rintro (hnone | ⟨hone, kv, hkv, honly, hforemost⟩) kv' hkv' hmatching'
    · exact absurd hmatching' (hnone kv' hkv')
    · obtain rfl := honly kv' hkv' hmatching'
      have hfound := (find_eq_some_iff hkeys).2 ⟨horder.mem_iff.2 hkv, hforemost⟩
      rw [publish_of_find hfound, hone]
      simp [call]

/-- **Whatever calls of `Subscribe` were made, and in whatever order the map is gone through, the handler of every subject
that a message matches is called once for it exactly if none matches, or one alone, with one subscription alone, and the
lookup comes to that subject first.** -/
theorem run_dispatched_iff (matching : Subject → Subject → Bool) (calls : List (NatsCall κ)) (m : NatsPublished)
    (order : List (Subject × κ)) (horder : order.Perm (calls.foldl step {}).subs.val) :
    (calls.foldl step {}).Dispatched matching order m ↔ (calls.foldl step {}).Sole matching order m :=
  dispatched_iff horder

/-- Between well-formed subjects, `MatchSub` finds the one that the server does. -/
theorem dispatched_iff_alone (horder : order.Perm s.subs.val) (hsubs : ∀ kv ∈ s.subs.val, IsPattern kv.1)
    (hm : IsSubject m.subject) : s.Dispatched serverMatches order m ↔
      (∀ kv ∈ s.subs.val, serverMatches kv.1 m.subject ≠ true) ∨
        (s.receiving serverMatches m).length = 1 ∧ ∃ kv ∈ s.subs.val, serverMatches kv.1 m.subject = true ∧
          ∀ kv' ∈ s.subs.val, serverMatches kv'.1 m.subject = true → kv' = kv := by
  have hkeys : (order.map Prod.fst).Nodup := (horder.map Prod.fst).nodup_iff.2 s.subs.2.nodup
  have hcstr : ∀ kv ∈ s.subs.val, cStr kv.1 = kv.1 := by
    intro kv hkv
    obtain ⟨_, hmade, _⟩ := hsubs kv hkv
    exact hmade.cStr
  rw [dispatched_iff horder]
  constructor
  · rintro (hnone | ⟨hone, kv, hkv, honly, _⟩)
    · exact .inl fun kv hkv => by
        have := hnone kv hkv
        rwa [hcstr kv hkv] at this
    · by_cases hmatching : serverMatches kv.1 m.subject = true
      · refine .inr ⟨hone, kv, hkv, hmatching, fun kv' hkv' hmatching' => honly kv' hkv' ?_⟩
        rwa [hcstr kv' hkv']
      · refine .inl fun kv' hkv' hmatching' => ?_
        have heq := honly kv' hkv' (by rwa [hcstr kv' hkv'])
        exact hmatching (heq ▸ hmatching')
  · rintro (hnone | ⟨hone, kv, hkv, hmatching, honly⟩)
    · exact .inl fun kv hkv => by
        rw [hcstr kv hkv]
        exact hnone kv hkv
    · have honly' : ∀ kv' ∈ s.subs.val, matchSub kv'.1 m.subject = true → kv' = kv := by
        intro kv' hkv' hmatch
        exact honly kv' hkv' ((matchSub_eq (hsubs kv' hkv') hm).symm.trans hmatch)
      refine .inr ⟨hone, kv, hkv, fun kv' hkv' hmatching' => honly kv' hkv' (by rwa [hcstr kv' hkv'] at hmatching'), ?_⟩
      by_cases hmem : m.subject ∈ order.map Prod.fst
      · obtain ⟨kv', hkv', hsubject⟩ := List.mem_map.1 hmem
        have hself : matchSub kv'.1 m.subject = true := by
          rw [hsubject, matchSub, beq_self_eq_true, Bool.true_or]
        exact .inl (honly' kv' (horder.mem_iff.1 hkv') hself ▸ hsubject)
      · obtain ⟨before, after, horderEq⟩ := List.append_of_mem (horder.mem_iff.2 hkv)
        refine .inr ⟨hmem, before, after, horderEq, (matchSub_eq (hsubs kv hkv) hm).trans hmatching, ?_⟩
        intro kv' hkv' hmatch
        have hmem' : kv' ∈ order := horderEq ▸ List.mem_append_left _ hkv'
        obtain rfl := honly' kv' (horder.mem_iff.1 hmem') hmatch
        rw [horderEq, List.map_append, List.map_cons] at hkeys
        have hdisjoint := (List.nodup_append.1 hkeys).2.2 kv'.1 (List.mem_map_of_mem hkv') kv'.1 List.mem_cons_self
        exact hdisjoint rfl

/-- A wildcard, and beside it a subject that the message does not match and that the lookup goes through first. -/
theorem run_dispatched_wildcard :
    (([.connect, .subscribe "a.*".toList 1 true, .subscribe "b.c".toList 2 true] : List (NatsCall Nat)).foldl step
      {}).Dispatched serverMatches [("b.c".toList, 2), ("a.*".toList, 1)] ⟨"a.b".toList, "_INBOX.1".toList, [7]⟩ := by
  refine (run_dispatched_iff serverMatches [.connect, .subscribe "a.*".toList 1 true, .subscribe "b.c".toList 2 true]
    ⟨"a.b".toList, "_INBOX.1".toList, [7]⟩ [("b.c".toList, 2), ("a.*".toList, 1)] (.swap _ _ [])).2 (.inr ⟨?_, ?_⟩)
  · decide +kernel
  · refine ⟨("a.*".toList, 1), List.mem_cons_self, fun kv hkv hmatching => ?_, .inr ⟨?_, [("b.c".toList, 2)], [], rfl, ?_, ?_⟩⟩
    · rcases List.mem_cons.1 hkv with rfl | hkv
      · rfl
      · obtain rfl := List.mem_singleton.1 hkv
        exact absurd hmatching (by decide +kernel)
    · decide +kernel
    · decide +kernel
    · intro kv' hkv'
      obtain rfl := List.mem_singleton.1 hkv'
      decide +kernel

/-- Two subjects that overlap: the exact one is found for both subscriptions. -/
theorem not_run_dispatched : ¬∀ (calls : List (NatsCall Nat)) (m : NatsPublished) (order : List (Subject × Nat)),
    order.Perm (calls.foldl step {}).subs.val → (calls.foldl step {}).Dispatched serverMatches order m := by
  intro h
  have hruns := h [.connect, .subscribe "a.b".toList 1 true, .subscribe "a.*".toList 2 true] ⟨"a.b".toList, [], []⟩
    [("a.b".toList, 1), ("a.*".toList, 2)] (List.Perm.refl _) ("a.*".toList, 2) (by decide +kernel) (by decide +kernel)
  exact absurd (congrArg List.length hruns) (by decide +kernel)

/-! ## A subscription that NATS refuses

`Subscribe` stores the handler first, and erases the subject when NATS refuses: also where the subject had a handler. -/

theorem lookup_cons_eq (kv : Subject × κ) (entries : List (Subject × κ)) (subject : Subject) :
    (kv :: entries).lookup subject = if subject = kv.1 then some kv.2 else entries.lookup subject := by
  rw [List.lookup_cons]
  by_cases h : subject = kv.1
  · rw [if_pos h, beq_iff_eq.2 h]
  · rw [if_neg h, beq_eq_false_iff_ne.2 h]

theorem lookup_replace (subject : Subject) (f : κ) (other : Subject) : ∀ entries : List (Subject × κ),
    (entries.map fun kv => if kv.1 = subject then (kv.1, f) else kv).lookup other =
      if other = subject then (entries.lookup other).map fun _ => f else entries.lookup other
  | []            => (ite_self none).symm
  | kv :: entries => by
    rw [List.map_cons, lookup_cons_eq, lookup_cons_eq, lookup_replace subject f other entries]
    by_cases hkv : kv.1 = subject
    · rw [if_pos hkv, hkv]
      by_cases hother : other = subject
      · rw [if_pos hother, if_pos hother, if_pos hother, Option.map_some]
      · rw [if_neg hother, if_neg hother, if_neg hother, if_neg hother]
    · rw [if_neg hkv]
      by_cases hother : other = kv.1
      · rw [if_pos hother, if_pos hother, if_neg (hother ▸ hkv)]
      · rw [if_neg hother, if_neg hother]

theorem lookup_assign (subject : Subject) (f : κ) (other : Subject) (entries : List (Subject × κ)) :
    ((Keys.ofEq : Keys Subject).assign subject f entries).lookup other =
      if other = subject then some f else entries.lookup other := by
  by_cases hold : (entries.any fun kv => (Keys.ofEq : Keys Subject).same kv.1 subject) = true
  · rw [Keys.assign_old hold]
    simp only [Keys.finds_ofEq, decide_eq_true_eq]
    rw [lookup_replace]
    split
    · rename_i hother
      obtain ⟨kv, hkv, hsame⟩ := List.any_eq_true.1 hold
      have hsome : (entries.lookup other).isSome := by
        rw [List.lookup_isSome_iff]
        exact ⟨kv, hkv, by rw [hother, beq_iff_eq]; exact (of_decide_eq_true hsame).symm⟩
      obtain ⟨g, hg⟩ := Option.isSome_iff_exists.1 hsome
      rw [hg, Option.map_some]
    · rfl
  · rw [Keys.assign_new hold, List.lookup_append, lookup_cons_eq, List.lookup_nil]
    split
    · rename_i hother
      have hnone : entries.lookup other = none := by
        rw [List.lookup_eq_none_iff]
        intro kv hkv
        rw [hother, bne_iff_ne]
        exact fun heq => of_decide_eq_false (Keys.new_iff.1 hold kv hkv) heq.symm
      rw [hnone, Option.none_or]
    · rw [Option.or_none]

theorem lookup_filter_ne (subject other : Subject) : ∀ entries : List (Subject × κ),
    (entries.filter fun kv => kv.1 != subject).lookup other = if other = subject then none else entries.lookup other
  | []            => (ite_self none).symm
  | kv :: entries => by
    have ih := lookup_filter_ne subject other entries
    by_cases hkv : kv.1 = subject
    · rw [List.filter_cons_of_neg (by simp [hkv]), ih, lookup_cons_eq, hkv]
      by_cases hother : other = subject
      · rw [if_pos hother, if_pos hother]
      · rw [if_neg hother, if_neg hother, if_neg hother]
    · rw [List.filter_cons_of_pos (by simp [hkv]), lookup_cons_eq, lookup_cons_eq, ih]
      by_cases hother : other = kv.1
      · rw [if_pos hother, if_pos hother, if_neg (hother ▸ hkv)]
      · rw [if_neg hother, if_neg hother]

/-- The handler of a subject in the worker's map. -/
def handler (s : NatsSubs κ) (subject : Subject) : Option κ := s.subs.val.lookup subject

/-- A refused call of `Subscribe` leaves every subject with the handler that it had. -/
def ChangesNothing (s : NatsSubs κ) (subject : Subject) (f : κ) : Prop :=
  ∀ other, (s.step (.subscribe subject f false)).handler other = s.handler other

theorem handler_refused (s : NatsSubs κ) (hconnected : s.connected = true) (subject other : Subject) (f : κ) :
    (s.step (.subscribe subject f false)).handler other = if other = subject then none else s.handler other := by
  have hstep : s.step (.subscribe subject f false) = { s with subs := erase (s.subs.insertOrAssign subject f) subject } := by
    rw [step, if_neg (by simp [hconnected])]
    rfl
  rw [handler, hstep]
  refine (lookup_filter_ne subject other _).trans ?_
  split
  · rfl
  · rename_i hne
    exact (lookup_assign subject f other s.subs.val).trans (if_neg hne)

theorem changesNothing_iff (s : NatsSubs κ) (subject : Subject) (f : κ) :
    s.ChangesNothing subject f ↔ s.connected = false ∨ s.handler subject = none := by
  cases hconnected : s.connected with
  | false =>
    refine iff_of_true (fun other => ?_) (.inl rfl)
    rw [step, if_pos (by simp [hconnected])]
  | true =>
    constructor
    · intro h
      have hself := h subject
      rw [handler_refused s hconnected, if_pos rfl] at hself
      exact .inr hself.symm
    · rintro (hdis | hnone) other
      · cases hdis
      · rw [handler_refused s hconnected]
        split
        · rename_i heq
          rw [heq, hnone]
        · rfl

/-- What is refused is a subject that has no handler. -/
def RefusesNew (s : NatsSubs κ) : NatsCall κ → Prop
  | .subscribe subject _ false => s.connected = false ∨ s.handler subject = none
  | _                          => True

/-- Every subscription that NATS has for the worker has a handler. -/
def Handled (s : NatsSubs κ) : Prop := ∀ live ∈ s.natsSubs, ∃ subject, cStr subject = live ∧ s.handler subject ≠ none

theorem Handled.step {s : NatsSubs κ} (h : s.Handled) (call : NatsCall κ) (hcall : s.RefusesNew call) :
    (s.step call).Handled := by
  cases call with
  | connect    => exact h
  | disconnect => exact fun live hlive => absurd hlive List.not_mem_nil
  | subscribe subject f accepted =>
    cases accepted with
    | false =>
      intro live hlive
      have hsubs : (s.step (.subscribe subject f false)).natsSubs = s.natsSubs := by
        rw [NatsSubs.step]
        split <;> rfl
      obtain ⟨other, hother, hhandler⟩ := h live (hsubs ▸ hlive)
      exact ⟨other, hother, by rwa [(changesNothing_iff s subject f).2 hcall other]⟩
    | true  =>
      rw [NatsSubs.step]
      split
      · exact h
      · have hkeeps (other : Subject) : (s.subs.insertOrAssign subject f).val.lookup other =
            if other = subject then some f else s.handler other := lookup_assign subject f other s.subs.val
        intro live hlive
        rcases List.mem_append.1 hlive with hold | hnew
        · obtain ⟨other, hother, hhandler⟩ := h live hold
          refine ⟨other, hother, ?_⟩
          rw [handler, if_pos rfl, hkeeps]
          split
          · exact Option.some_ne_none f
          · exact hhandler
        · refine ⟨subject, (List.mem_singleton.1 hnew).symm, ?_⟩
          rw [handler, if_pos rfl, hkeeps, if_pos rfl]
          exact Option.some_ne_none f

/-- **A refused `Subscribe` changes nothing exactly where the subject had no handler**; and in a run in which none is refused
of a subject that has one, every subscription that NATS has keeps a handler. -/
theorem refused_iff (s : NatsSubs κ) (subject : Subject) (f : κ) (calls : List (NatsCall κ)) :
    (s.ChangesNothing subject f ↔ s.connected = false ∨ s.handler subject = none) ∧
      (Along step RefusesNew {} calls → Always step Handled {} calls) :=
  ⟨changesNothing_iff s subject f, always_inv (fun _ call h hcall => h.step call hcall) calls fun _ hlive =>
    absurd hlive List.not_mem_nil⟩

/-- A second `Subscribe` of the same subject, on a connection that has broken. -/
theorem not_refused : ¬∀ (calls : List (NatsCall Nat)) (subject : Subject) (f : Nat),
    (calls.foldl step {}).ChangesNothing subject f := by
  intro h
  exact absurd (h [.connect, .subscribe "a".toList 1 true] "a".toList 2 "a".toList) (by decide +kernel)

end NatsSubs

end Gb
