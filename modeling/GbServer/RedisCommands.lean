import GbServer.Lib.Run
import Mathlib.Data.List.Nodup
/-!
# RedisCommands — the commands of a Redis connection and their replies

`PostCommand` and `CommandCallback` of `RedisConnection` (`redis_connection.cpp`).  A command that finds the connection not
connected is answered at once.  Any other is sent, and its callback stands in `pending_cb_` until a reply comes; there is
one such place, whatever number of commands is outstanding (`run_matched_iff`).
-/
namespace Gb

open Run (Along)

/-- A `redisReply`; a number has its text with it, where hiredis keeps it. -/
inductive RedisReply
  | nil
  | integer (integer : Int)
  | double (dval : UInt64) (str : String)
  | bool (integer : Int)
  | string (str : String)
  | error (str : String)
  | array (elements : List RedisReply)
  | map (elements : List RedisReply)
  | unknown

inductive RedisValue
  | nil
  | bool (value : Bool)
  | int (value : Int)
  | double (value : UInt64)
  | str (value : String)
  | array (value : List RedisValue)
  | map (value : List (String × RedisValue))
  | error (message : String)

namespace RedisValue

def isError : RedisValue → Bool
  | .error _ => true
  | _        => false

/-- The key of an entry of a map. -/
def mapKey : RedisReply → String
  | .string text   => text
  | .error text    => text
  | .double _ text => text
  | .integer n     => toString n
  | _              => ""

mutual

def fromReply : RedisReply → RedisValue
  | .nil            => .nil
  | .integer n      => .int n
  | .double dval _  => .double dval
  | .bool n         => .bool (n != 0)
  | .string text    => .str text
  | .error text     => .error text
  | .array elements => .array (fromElements elements)
  | .map elements   => .map (fromEntries elements)
  | .unknown        => .nil

def fromElements : List RedisReply → List RedisValue
  | []            => []
  | e :: elements => fromReply e :: fromElements elements

def fromEntries : List RedisReply → List (String × RedisValue)
  | k :: v :: elements => (mapKey k, fromReply v) :: fromEntries elements
  | _                  => []

end

end RedisValue

/-- What a connection knows of its commands.  `outstanding` are those that hiredis has sent, in order, each with the
callback it was posted with; a callback is any `κ`. -/
structure RedisCommands (κ : Type) where
  asyncCtx    : Option Nat := none
  connected   : Bool := false
  pendingCb   : Option κ := none
  outstanding : List κ := []

namespace RedisCommands

variable {κ : Type}

/-- `PostCommand`; `on_reply` is called at once with what comes first.  `accepted` is whether `redisAsyncCommandArgv`
returns `REDIS_OK`. -/
def postCommand (onReply : κ) (accepted : Bool) (c : RedisCommands κ) : Option RedisValue × RedisCommands κ :=
  if c.asyncCtx.isNone || !c.connected then (some (.error "not connected"), c)
  else if accepted then (none, { c with pendingCb := some onReply, outstanding := c.outstanding ++ [onReply] })
  else (none, { c with pendingCb := none })

/-- What `CommandCallback` passes on. -/
def replyValue : Option RedisReply → RedisValue
  | none   => .error "connection closed"
  | some r => .fromReply r

end RedisCommands

/-- A connection with its commands numbered as they are posted.  `inCallback` is while `CommandCallback` has called
`pending_cb_` and not reset it, `replies` are the answers to the commands, and `called` are the callbacks invoked. -/
structure RedisRun where
  commands   : RedisCommands Nat := {}
  posted     : Nat := 0
  inCallback : Bool := false
  crashed    : Bool := false
  replies    : List (Nat × RedisValue) := []
  called     : List (Nat × RedisValue) := []

/-- `reply` is hiredis calling `CommandCallback` for the first outstanding command, `returned` the return of the callback
from there, and `link` a change of `async_ctx_` and `connected_`. -/
inductive RedisEvent
  | post (accepted : Bool)
  | reply (reply : Option RedisReply)
  | returned
  | link (asyncCtx : Option Nat) (connected : Bool)

namespace RedisRun

variable (r : RedisRun)

def post (accepted : Bool) : RedisRun :=
  match r.commands.postCommand r.posted accepted with
  | (some value, commands) =>
    { r with
      commands := commands
      posted   := r.posted + 1
      replies  := r.replies ++ [(r.posted, value)]
      called   := r.called ++ [(r.posted, value)] }
  | (none, commands)       => { r with commands := commands, posted := r.posted + 1 }

/-- `CommandCallback` up to the call; an empty `std::function` throws. -/
def reply (reply : Option RedisReply) : RedisRun :=
  match r.commands.outstanding with
  | []                => r
  | op :: outstanding =>
    let value := RedisCommands.replyValue reply
    let commands := { r.commands with outstanding := outstanding }
    match r.commands.pendingCb with
    | none    => { r with commands := commands, replies := r.replies ++ [(op, value)], crashed := true }
    | some cb =>
      { r with
        commands   := commands
        replies    := r.replies ++ [(op, value)]
        called     := r.called ++ [(cb, value)]
        inCallback := true }

def step (r : RedisRun) (e : RedisEvent) : RedisRun :=
  if r.crashed then r
  else
    match e with
    | .post accepted           => r.post accepted
    | .reply reply             => if r.inCallback then r else r.reply reply
    | .returned                =>
      if r.inCallback then { r with commands := { r.commands with pendingCb := none }, inCallback := false } else r
    | .link asyncCtx connected => { r with commands := { r.commands with asyncCtx := asyncCtx, connected := connected } }

/-- Nothing more will come: every command sent has its reply, or an exception has left `CommandCallback`. -/
def Settled : Prop := r.crashed = true ∨ r.commands.outstanding = [] ∧ r.inCallback = false

/-- Every callback was invoked once, each with the reply to its own command. -/
structure Matched : Prop where
  crashed : r.crashed = false
  called  : r.called = r.replies
  once    : ∀ op < r.posted, (r.called.map Prod.fst).count op = 1

/-- The command is answered at once. -/
def NotConnected : Prop := r.commands.asyncCtx = none ∨ r.commands.connected = false

/-- The condition on a step: a command is sent while none is outstanding and no callback is running, and hiredis
accepts it. -/
def Fits (r : RedisRun) : RedisEvent → Prop
  | .post accepted =>
    r.NotConnected ∨ accepted = true ∧ r.commands.outstanding = [] ∧ r.inCallback = false
  | _              => True

/-- What no later step makes good: an exception, a callback given another command's reply, or a callback that
`pending_cb_` has lost, or will have lost when the reply comes. -/
inductive Lost : Prop
  | crashed (h : r.crashed = true)
  | called (h : r.called ≠ r.replies)
  | dropped (op : Nat) (hlt : op < r.posted) (hout : op ∉ r.commands.outstanding) (hpending : r.commands.pendingCb ≠ some op)
      (hcalled : op ∉ r.called.map Prod.fst)
  | replaced (op : Nat) (hmem : op ∈ r.commands.outstanding) (h : r.commands.pendingCb ≠ some op ∨ r.inCallback = true)

/-- What the numbers of the commands are worth. -/
structure Numbered : Prop where
  length      : r.crashed = false → r.called.length = r.replies.length
  nodup       : r.commands.outstanding.Nodup
  outstanding : ∀ op ∈ r.commands.outstanding, op < r.posted
  pending     : ∀ op, r.commands.pendingCb = some op → op < r.posted

/-- At most one command is outstanding, its callback stands in `pending_cb_`, and all others were called. -/
structure Good : Prop where
  crashed : r.crashed = false
  called  : r.called = r.replies
  once    : ∀ op < r.posted, op ∉ r.commands.outstanding → (r.called.map Prod.fst).count op = 1
  fresh   : ∀ op ∈ r.called.map Prod.fst, op < r.posted ∧ op ∉ r.commands.outstanding
  slot    : ∀ op ∈ r.commands.outstanding,
    r.commands.outstanding = [op] ∧ r.commands.pendingCb = some op ∧ r.inCallback = false

variable {r}

theorem Good.not_lost (h : r.Good) : ¬r.Lost := by
  rintro (hcrashed | hcalled | ⟨op, hlt, hout, _, hnot⟩ | ⟨op, hmem, hslot⟩)
  · exact Bool.false_ne_true (h.crashed.symm.trans hcrashed)
  · exact hcalled h.called
  · have hone := h.once op hlt hout
    rw [List.count_eq_zero_of_not_mem hnot] at hone
    exact absurd hone (by decide)
  · obtain ⟨_, hpending, hcallback⟩ := h.slot op hmem
    rcases hslot with hne | hin
    · exact hne hpending
    · exact Bool.false_ne_true (hcallback.symm.trans hin)

theorem Lost.not_matched (h : r.Lost) (hsettled : r.Settled) : ¬r.Matched := by
  rintro ⟨hcrashed, hcalled, honce⟩
  have hempty := (hsettled.resolve_left (Bool.eq_false_iff.1 hcrashed)).1
  rcases h with h | h | ⟨op, hlt, _, _, hnot⟩ | ⟨op, hmem, _⟩
  · exact Bool.false_ne_true (hcrashed.symm.trans h)
  · exact h hcalled
  · have hone := honce op hlt
    rw [List.count_eq_zero_of_not_mem hnot] at hone
    exact absurd hone (by decide)
  · rw [hempty] at hmem
    exact absurd hmem List.not_mem_nil

theorem Good.matched (h : r.Good) (hsettled : r.Settled) : r.Matched := by
  have hempty := (hsettled.resolve_left (Bool.eq_false_iff.1 h.crashed)).1
  refine ⟨h.crashed, h.called, fun op hlt => h.once op hlt ?_⟩
  rw [hempty]
  exact List.not_mem_nil

/-! ## `PostCommand` -/

instance : Decidable r.NotConnected := inferInstanceAs (Decidable (_ ∨ _))

theorem post_eq (r : RedisRun) (accepted : Bool) : r.post accepted =
    if r.NotConnected then
      { r with
        posted  := r.posted + 1
        replies := r.replies ++ [(r.posted, .error "not connected")]
        called  := r.called ++ [(r.posted, .error "not connected")] }
    else if accepted then
      { r with
        posted   := r.posted + 1
        commands :=
          { r.commands with pendingCb := some r.posted, outstanding := r.commands.outstanding ++ [r.posted] } }
    else { r with posted := r.posted + 1, commands := { r.commands with pendingCb := none } } := by
  have hiff : (r.commands.asyncCtx.isNone || !r.commands.connected) = true ↔ r.NotConnected := by
    simp [NotConnected]
  rw [post, RedisCommands.postCommand]
  by_cases hnot : r.NotConnected
  · rw [if_pos (hiff.2 hnot), if_pos hnot]
  · rw [if_neg (fun h => hnot (hiff.1 h)), if_neg hnot]
    cases accepted with
    | true  => rfl
    | false => rfl

theorem Numbered.post (h : r.Numbered) (accepted : Bool) : (r.post accepted).Numbered := by
  rw [post_eq]
  split
  · refine ⟨fun hcrashed => ?_, h.nodup, fun op hop => Nat.lt_succ_of_lt (h.outstanding op hop),
      fun op hop => Nat.lt_succ_of_lt (h.pending op hop)⟩
    simp [h.length hcrashed]
  · split
    · refine ⟨h.length, ?_, fun op hop => ?_, fun op hop => ?_⟩
      · refine List.Nodup.append h.nodup (List.nodup_singleton _) ?_
        intro op hop hlast
        rw [List.mem_singleton.1 hlast] at hop
        exact Nat.lt_irrefl _ (h.outstanding _ hop)
      · rcases List.mem_append.1 hop with hop | hop
        · exact Nat.lt_succ_of_lt (h.outstanding op hop)
        · rw [List.mem_singleton.1 hop]
          exact Nat.lt_succ_self _
      · rw [← Option.some.inj hop]
        exact Nat.lt_succ_self _
    · exact ⟨h.length, h.nodup, fun op hop => Nat.lt_succ_of_lt (h.outstanding op hop), fun op hop => nomatch hop⟩

theorem called_ne_append {a b : List (Nat × RedisValue)} {x y : Nat × RedisValue} (hlength : a.length = b.length) (h : a ≠ b) :
    a ++ [x] ≠ b ++ [y] := fun heq => h (List.append_inj heq hlength).1

theorem Lost.post (h : r.Lost) (hnumbered : r.Numbered) (hcrashed : r.crashed = false) (accepted : Bool) :
    (r.post accepted).Lost := by
  rw [post_eq]
  rcases h with h | h | ⟨op, hlt, hout, hpending, hnot⟩ | ⟨op, hmem, hslot⟩
  · exact absurd (hcrashed.symm.trans h) Bool.false_ne_true
  · split
    · exact .called (called_ne_append (hnumbered.length hcrashed) h)
    · split
      · exact .called h
      · exact .called h
  · have hne : op ≠ r.posted := Nat.ne_of_lt hlt
    split
    · refine .dropped op (Nat.lt_succ_of_lt hlt) hout hpending ?_
      simp only [List.map_append, List.map_cons, List.map_nil, List.mem_append, List.mem_singleton, not_or]
      exact ⟨hnot, hne⟩
    · split
      · refine .dropped op (Nat.lt_succ_of_lt hlt) ?_ ?_ hnot
        · simp only [List.mem_append, List.mem_singleton, not_or]
          exact ⟨hout, hne⟩
        · exact fun heq => hne (Option.some.inj heq).symm
      · exact .dropped op (Nat.lt_succ_of_lt hlt) hout (fun heq => nomatch heq) hnot
  · have hne : op ≠ r.posted := Nat.ne_of_lt (hnumbered.outstanding op hmem)
    split
    · exact .replaced op hmem hslot
    · split
      · exact .replaced op (List.mem_append_left _ hmem) (.inl fun heq => hne (Option.some.inj heq).symm)
      · exact .replaced op hmem (.inl fun heq => nomatch heq)

theorem Good.post (h : r.Good) (hnumbered : r.Numbered) {accepted : Bool} (hfits : r.Fits (.post accepted)) :
    (r.post accepted).Good := by
  have hnew : r.posted ∉ r.commands.outstanding := fun hmem => Nat.lt_irrefl _ (hnumbered.outstanding _ hmem)
  have hnever : r.posted ∉ r.called.map Prod.fst := fun hmem => Nat.lt_irrefl _ (h.fresh _ hmem).1
  rw [post_eq]
  by_cases hnot : r.NotConnected
  · rw [if_pos hnot]
    refine ⟨h.crashed, by rw [h.called], fun op hlt hout => ?_, fun op hop => ?_, h.slot⟩
    · rw [List.map_append, List.count_append]
      rcases Nat.lt_succ_iff_lt_or_eq.1 hlt with hlt | rfl
      · rw [h.once op hlt hout, List.map_singleton, List.count_singleton, if_neg (by simpa using (Nat.ne_of_lt hlt).symm)]
      · rw [List.count_eq_zero_of_not_mem hnever, List.map_singleton, List.count_singleton_self]
    · rw [List.map_append, List.mem_append] at hop
      rcases hop with hop | hop
      · exact ⟨Nat.lt_succ_of_lt (h.fresh op hop).1, (h.fresh op hop).2⟩
      · rw [List.map_singleton, List.mem_singleton] at hop
        rw [hop]
        exact ⟨Nat.lt_succ_self _, hnew⟩
  · obtain ⟨rfl, hempty, hcallback⟩ := hfits.resolve_left hnot
    rw [if_neg hnot, if_pos rfl]
    refine ⟨h.crashed, h.called, fun op hlt hout => ?_, fun op hop => ?_, fun op hop => ?_⟩
    · rw [hempty, List.nil_append, List.mem_singleton] at hout
      have hlt' : op < r.posted := Nat.lt_of_le_of_ne (Nat.le_of_lt_succ hlt) hout
      exact h.once op hlt' (by simp [hempty])
    · refine ⟨Nat.lt_succ_of_lt (h.fresh op hop).1, ?_⟩
      rw [hempty, List.nil_append, List.mem_singleton]
      exact Nat.ne_of_lt (h.fresh op hop).1
    · simp only [hempty, List.nil_append, List.mem_singleton] at hop ⊢
      rw [hop]
      exact ⟨rfl, rfl, hcallback⟩

/-- Another callback is given up for the new one, or the new one is given up. -/
theorem Good.lost_post (h : r.Good) (hnumbered : r.Numbered) {accepted : Bool} (hfits : ¬r.Fits (.post accepted)) :
    (r.post accepted).Lost := by
  have hnever : r.posted ∉ r.called.map Prod.fst := fun hmem => Nat.lt_irrefl _ (h.fresh _ hmem).1
  obtain ⟨hnot, hrest⟩ := not_or.1 hfits
  rw [post_eq, if_neg hnot]
  cases accepted with
  | false =>
    refine .dropped r.posted (Nat.lt_succ_self _) (fun hmem => ?_) (fun heq => nomatch heq) hnever
    exact Nat.lt_irrefl _ (hnumbered.outstanding _ hmem)
  | true  =>
    rw [if_pos rfl]
    by_cases hempty : r.commands.outstanding = []
    · have hin : r.inCallback = true := by simpa [hempty] using hrest
      exact .replaced r.posted (List.mem_append_right _ (List.mem_singleton_self _)) (.inr hin)
    · obtain ⟨op, hmem⟩ := List.exists_mem_of_ne_nil _ hempty
      have hne : r.posted ≠ op := (Nat.ne_of_lt (hnumbered.outstanding op hmem)).symm
      exact .replaced op (List.mem_append_left _ hmem) (.inl fun heq => hne (Option.some.inj heq))

/-! ## `CommandCallback` -/

theorem Numbered.reply (h : r.Numbered) (reply : Option RedisReply) : (r.reply reply).Numbered := by
  rw [RedisRun.reply]
  split
  · exact h
  · rename_i op outstanding hout
    have hnodup := h.nodup
    rw [hout, List.nodup_cons] at hnodup
    have hlt : ∀ op' ∈ outstanding, op' < r.posted := fun op' hop => h.outstanding op' (hout ▸ List.mem_cons_of_mem op hop)
    dsimp only
    split
    · exact ⟨fun hcrashed => absurd hcrashed.symm Bool.false_ne_true, hnodup.2, hlt, h.pending⟩
    · refine ⟨fun hcrashed => ?_, hnodup.2, hlt, h.pending⟩
      simp [h.length hcrashed]

theorem Lost.reply (h : r.Lost) (hnumbered : r.Numbered) (hcrashed : r.crashed = false) (hcallback : r.inCallback = false)
    (reply : Option RedisReply) : (r.reply reply).Lost := by
  rw [RedisRun.reply]
  split
  · exact h
  · rename_i op outstanding hout
    dsimp only
    split
    · exact .crashed rfl
    · rename_i cb hcb
      rcases h with h | h | ⟨op', hlt, hnotOut, hpending, hnot⟩ | ⟨op', hmem, hslot⟩
      · exact absurd (hcrashed.symm.trans h) Bool.false_ne_true
      · exact .called (called_ne_append (hnumbered.length hcrashed) h)
      · rw [hcb, ne_eq, Option.some.injEq] at hpending
        refine .dropped op' hlt (fun hop => hnotOut (hout ▸ List.mem_cons_of_mem op hop)) (by simpa [hcb] using hpending) ?_
        simp only [List.map_append, List.map_cons, List.map_nil, List.mem_append, List.mem_singleton, not_or]
        exact ⟨hnot, fun heq => hpending heq.symm⟩
      · have hne : cb ≠ op' := by
          have hne := hslot.resolve_right (Bool.eq_false_iff.1 hcallback)
          rwa [hcb, ne_eq, Option.some.injEq] at hne
        rw [hout, List.mem_cons] at hmem
        rcases hmem with rfl | hmem
        · -- the reply goes to a callback of another command
          refine .called fun heq => hne ?_
          have hlast := (List.append_inj heq (hnumbered.length hcrashed)).2
          exact (Prod.mk.inj (List.cons.inj hlast).1).1
        · exact .replaced op' hmem (.inr rfl)

theorem Good.reply (h : r.Good) (hnumbered : r.Numbered) (reply : Option RedisReply) : (r.reply reply).Good := by
  rw [RedisRun.reply]
  split
  · exact h
  · rename_i op outstanding hout
    obtain ⟨honly, hpending, _⟩ := h.slot op (hout ▸ List.mem_cons_self)
    obtain rfl : outstanding = [] := by simpa [hout] using honly
    have hnever : op ∉ r.called.map Prod.fst := fun hmem => (h.fresh op hmem).2 (hout ▸ List.mem_cons_self)
    have hlt : op < r.posted := hnumbered.outstanding op (hout ▸ List.mem_cons_self)
    simp only [hpending]
    refine ⟨h.crashed, by rw [h.called], fun op' hlt' _ => ?_, fun op' hop => ?_, fun op' hop => absurd hop List.not_mem_nil⟩
    · rw [List.map_append, List.count_append, List.map_singleton]
      by_cases heq : op' = op
      · rw [heq, List.count_eq_zero_of_not_mem hnever, List.count_singleton_self]
      · rw [h.once op' hlt' (by simpa [hout] using heq), List.count_singleton, if_neg (by simpa using Ne.symm heq)]
    · refine ⟨?_, List.not_mem_nil⟩
      rw [List.map_append, List.map_singleton, List.mem_append, List.mem_singleton] at hop
      rcases hop with hop | rfl
      · exact (h.fresh op' hop).1
      · exact hlt

/-! ## Runs -/

theorem step_of_crashed (h : r.crashed = true) (e : RedisEvent) : r.step e = r := if_pos h

theorem step_of_running (h : r.crashed = false) (e : RedisEvent) : r.step e =
    match e with
    | .post accepted           => r.post accepted
    | .reply reply             => if r.inCallback then r else r.reply reply
    | .returned                =>
      if r.inCallback then { r with commands := { r.commands with pendingCb := none }, inCallback := false } else r
    | .link asyncCtx connected => { r with commands := { r.commands with asyncCtx := asyncCtx, connected := connected } } :=
  if_neg (Bool.eq_false_iff.1 h)

theorem Numbered.step (h : r.Numbered) (e : RedisEvent) : (r.step e).Numbered := by
  cases hcrashed : r.crashed with
  | true  =>
    rw [step_of_crashed hcrashed]
    exact h
  | false =>
    rw [step_of_running hcrashed]
    cases e with
    | post accepted           => exact h.post accepted
    | reply reply             =>
      dsimp only
      split
      · exact h
      · exact h.reply reply
    | returned                =>
      dsimp only
      split
      · exact ⟨h.length, h.nodup, h.outstanding, fun op hop => nomatch hop⟩
      · exact h
    | link asyncCtx connected => exact ⟨h.length, h.nodup, h.outstanding, h.pending⟩

theorem Lost.step (h : r.Lost) (hnumbered : r.Numbered) (e : RedisEvent) : (r.step e).Lost := by
  cases hcrashed : r.crashed with
  | true  =>
    rw [step_of_crashed hcrashed]
    exact h
  | false =>
    rw [step_of_running hcrashed]
    cases e with
    | post accepted           => exact h.post hnumbered hcrashed accepted
    | reply reply             =>
      dsimp only
      split
      · exact h
      · rename_i hcallback
        exact h.reply hnumbered hcrashed (Bool.eq_false_iff.2 hcallback) reply
    | returned                =>
      dsimp only
      split
      · rcases h with h | h | ⟨op, hlt, hout, hpending, hnot⟩ | ⟨op, hmem, hslot⟩
        · exact .crashed h
        · exact .called h
        · exact .dropped op hlt hout (fun heq => nomatch heq) hnot
        · exact .replaced op hmem (.inl fun heq => nomatch heq)
      · exact h
    | link asyncCtx connected =>
      rcases h with h | h | ⟨op, hlt, hout, hpending, hnot⟩ | ⟨op, hmem, hslot⟩
      · exact .crashed h
      · exact .called h
      · exact .dropped op hlt hout hpending hnot
      · exact .replaced op hmem hslot

theorem Good.step (h : r.Good) (hnumbered : r.Numbered) {e : RedisEvent} (hfits : r.Fits e) : (r.step e).Good := by
  rw [step_of_running h.crashed]
  cases e with
  | post accepted           => exact h.post hnumbered hfits
  | reply reply             =>
    dsimp only
    split
    · exact h
    · exact h.reply hnumbered reply
  | returned                =>
    dsimp only
    split
    · rename_i hcallback
      refine ⟨h.crashed, h.called, h.once, h.fresh, fun op hop => ?_⟩
      exact absurd (h.slot op hop).2.2 (Bool.eq_false_iff.1 · hcallback)
    · exact h
  | link asyncCtx connected => exact ⟨h.crashed, h.called, h.once, h.fresh, h.slot⟩

/-- **A step leaves all callbacks with their commands exactly if it fits.** -/
theorem step_lost_iff (hnumbered : r.Numbered) (h : r.Good ∨ r.Lost) (e : RedisEvent) :
    ¬(r.step e).Lost ↔ ¬r.Lost ∧ r.Fits e := by
  rcases h with h | h
  · by_cases hfits : r.Fits e
    · exact iff_of_true (h.step hnumbered hfits).not_lost ⟨h.not_lost, hfits⟩
    · refine iff_of_false (not_not_intro ?_) fun hand => hfits hand.2
      cases e with
      | post accepted =>
        rw [step_of_running h.crashed]
        exact h.lost_post hnumbered hfits
      | _             => exact absurd trivial hfits
  · exact iff_of_false (not_not_intro (h.step hnumbered e)) fun hand => hand.1 h

theorem good_or_lost_step (hnumbered : r.Numbered) (h : r.Good ∨ r.Lost) (e : RedisEvent) :
    (r.step e).Good ∨ (r.step e).Lost := by
  rcases h with h | h
  · by_cases hfits : r.Fits e
    · exact .inl (h.step hnumbered hfits)
    · refine .inr (not_not.1 fun hnot => hfits ?_)
      exact ((step_lost_iff hnumbered (.inl h) e).1 hnot).2
  · exact .inr (h.step hnumbered e)

/-- Nothing was posted yet. -/
def start (asyncCtx : Option Nat) (connected : Bool) : RedisRun := { commands := { asyncCtx := asyncCtx, connected := connected } }

/-- **When a run has settled, every callback was invoked once with the reply to its own command exactly if each command was
answered at once, or was sent and accepted while none was outstanding and no callback was running.** -/
theorem run_matched_iff (asyncCtx : Option Nat) (connected : Bool) (events : List RedisEvent)
    (hsettled : (events.foldl step (start asyncCtx connected)).Settled) :
    (events.foldl step (start asyncCtx connected)).Matched ↔ Along step Fits (start asyncCtx connected) events := by
  have hgood : (start asyncCtx connected).Good :=
    ⟨rfl, rfl, fun _ hlt => absurd hlt (Nat.not_lt_zero _), fun _ hop => absurd hop List.not_mem_nil,
      fun _ hop => absurd hop List.not_mem_nil⟩
  have hnumbered : (start asyncCtx connected).Numbered :=
    ⟨fun _ => rfl, List.nodup_nil, fun _ hop => absurd hop List.not_mem_nil, fun _ hop => nomatch hop⟩
  have hstep : ∀ (r : RedisRun) (e : RedisEvent), r.Numbered ∧ (r.Good ∨ r.Lost) →
      (r.step e).Numbered ∧ ((r.step e).Good ∨ (r.step e).Lost) := fun _ e h => ⟨h.1.step e, good_or_lost_step h.1 h.2 e⟩
  have hfinal : (events.foldl step (start asyncCtx connected)).Good ∨ (events.foldl step (start asyncCtx connected)).Lost :=
    (Run.foldl_of_step (fun r : RedisRun => r.Numbered ∧ (r.Good ∨ r.Lost)) hstep events ⟨hnumbered, .inl hgood⟩).2
  have hiff := @Run.foldl_iff _ _ step Fits (fun r => r.Numbered ∧ (r.Good ∨ r.Lost)) (fun r => ¬r.Lost) hstep
    (fun r e h => step_lost_iff h.1 h.2 e) events _ ⟨hnumbered, .inl hgood⟩
  rw [and_iff_right hgood.not_lost] at hiff
  rw [← hiff]
  rcases hfinal with h | h
  · exact iff_of_true (h.matched hsettled) h.not_lost
  · exact iff_of_false (h.not_matched hsettled) (not_not_intro h)

/-- One command after the other. -/
theorem run_matched_inTurn :
    (([.post true, .reply (some .nil), .returned, .post true, .reply none, .returned] : List RedisEvent).foldl step
      (start (some 0) true)).Matched :=
  (run_matched_iff (some 0) true _ (.inr ⟨rfl, rfl⟩)).2
    ⟨.inr ⟨rfl, rfl, rfl⟩, trivial, trivial, .inr ⟨rfl, rfl, rfl⟩, trivial, trivial, trivial⟩

/-- Two commands before the first reply. -/
theorem not_run_matched : ¬∀ (asyncCtx : Option Nat) (connected : Bool) (events : List RedisEvent),
    (events.foldl step (start asyncCtx connected)).Settled → (events.foldl step (start asyncCtx connected)).Matched := by
  intro h
  have hmatched := h (some 0) true [.post true, .post true, .reply (some .nil), .returned, .reply (some .nil)] (.inl rfl)
  exact Bool.false_ne_true (hmatched.crashed.symm.trans rfl)

end RedisRun

end Gb
