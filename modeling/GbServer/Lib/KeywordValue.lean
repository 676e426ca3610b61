import GbServer.Lib.DecimalText
import Mathlib.Algebra.BigOperators.Group.List.Basic
import Mathlib.Data.List.Nodup
import Mathlib.Data.List.Perm.Subperm
/-!
# KeywordValue — settings written as `keyword = value`

The text of settings, with spaces between them and around the equals signs where one likes.  A value may stand in single
quotes, and must, where it is empty or has spaces; a quote or a backslash in a value has a backslash before it.

Values that need neither are plain, and plain settings are read as they were written (`parse_render`).  Whatever is read
that is not plain costs the text a character more than is kept of it, besides the one between two settings; so a text with
none to spare has only plain values in it (`plain_of_length`).
-/
namespace KeywordValue

open DecimalText (isSpace)

structure Setting where
  keyword : List Char
  value   : List Char
  deriving DecidableEq

/-- Where in the text the reader is. -/
inductive Place
  | between
  | keyword (k : List Char)
  | behindKeyword (k : List Char)
  | behindEquals (k : List Char)
  | bare (k v : List Char)
  | bareEscape (k v : List Char)
  | quoted (k v : List Char)
  | quotedEscape (k v : List Char)

structure Reader where
  settings : List Setting := []
  place    : Place := .between

namespace Reader

/-- The next character; `none` where a keyword has no equals sign. -/
def step (r : Reader) (c : Char) : Option Reader :=
  match r.place with
  | .between         =>
    if isSpace c then some r
    else if c = '=' then some { r with place := .behindEquals [] }
    else some { r with place := .keyword [c] }
  | .keyword k       =>
    if isSpace c then some { r with place := .behindKeyword k }
    else if c = '=' then some { r with place := .behindEquals k }
    else some { r with place := .keyword (k ++ [c]) }
  | .behindKeyword k =>
    if isSpace c then some r
    else if c = '=' then some { r with place := .behindEquals k }
    else none
  | .behindEquals k  =>
    if isSpace c then some r
    else if c = '\'' then some { r with place := .quoted k [] }
    else if c = '\\' then some { r with place := .bareEscape k [] }
    else some { r with place := .bare k [c] }
  | .bare k v        =>
    if isSpace c then some ⟨r.settings ++ [⟨k, v⟩], .between⟩
    else if c = '\\' then some { r with place := .bareEscape k v }
    else some { r with place := .bare k (v ++ [c]) }
  | .bareEscape k v  => some { r with place := .bare k (v ++ [c]) }
  | .quoted k v      =>
    if c = '\'' then some ⟨r.settings ++ [⟨k, v⟩], .between⟩
    else if c = '\\' then some { r with place := .quotedEscape k v }
    else some { r with place := .quoted k (v ++ [c]) }
  | .quotedEscape k v => some { r with place := .quoted k (v ++ [c]) }

/-- The end of the text: a keyword has no equals sign, or a quote has no end, or these are the settings. -/
def finish (r : Reader) : Option (List Setting) :=
  match r.place with
  | .between          => some r.settings
  | .keyword _        => none
  | .behindKeyword _  => none
  | .behindEquals k   => some (r.settings ++ [⟨k, []⟩])
  | .bare k v         => some (r.settings ++ [⟨k, v⟩])
  | .bareEscape k v   => some (r.settings ++ [⟨k, v⟩])
  | .quoted _ _       => none
  | .quotedEscape _ _ => none

end Reader

/-- The settings of a text, in the order in which they stand there. -/
def parse (text : List Char) : Option (List Setting) := (text.foldlM Reader.step {}).bind Reader.finish

/-- The value of a keyword: the last one counts. -/
def lastValue (settings : List Setting) (keyword : List Char) : Option (List Char) :=
  (settings.reverse.find? fun x => x.keyword == keyword).map Setting.value

theorem mem_of_lastValue {settings : List Setting} {keyword value : List Char}
    (h : lastValue settings keyword = some value) : ⟨keyword, value⟩ ∈ settings := by
  obtain ⟨x, hx, rfl⟩ := Option.map_eq_some_iff.1 h
  have hkeyword : x.keyword = keyword := by simpa using List.find?_some hx
  rw [← hkeyword]
  exact List.mem_reverse.1 (List.mem_of_find?_eq_some hx)

/-- Where no keyword stands twice, each has its value. -/
theorem lastValue_of_mem {settings : List Setting} (hdistinct : (settings.map Setting.keyword).Nodup) {x : Setting}
    (h : x ∈ settings) : lastValue settings x.keyword = some x.value := by
  have hsome : (settings.reverse.find? fun y => y.keyword == x.keyword).isSome :=
    List.find?_isSome.2 ⟨x, List.mem_reverse.2 h, beq_self_eq_true _⟩
  obtain ⟨y, hy⟩ := Option.isSome_iff_exists.1 hsome
  have hkeyword : y.keyword = x.keyword := by simpa using List.find?_some hy
  have heq : y = x := List.inj_on_of_nodup_map hdistinct (List.mem_reverse.1 (List.mem_of_find?_eq_some hy)) h hkeyword
  rw [lastValue, hy, Option.map_some, heq]

/-! ## Plain values -/

/-- A value that needs no quotes and no backslash. -/
structure Plain (v : List Char) : Prop where
  nonempty : v ≠ []
  quote    : v.head? ≠ some '\''
  chars    : ∀ c ∈ v, isSpace c = false ∧ c ≠ '\\'

theorem plain_singleton {c : Char} (hspace : isSpace c = false) (hquote : c ≠ '\'') (hback : c ≠ '\\') : Plain [c] :=
  ⟨List.cons_ne_nil c [], fun hhead => hquote (Option.some.inj hhead), fun _ hd => List.mem_singleton.1 hd ▸ ⟨hspace, hback⟩⟩

theorem Plain.concat {v : List Char} (h : Plain v) {c : Char} (hspace : isSpace c = false) (hback : c ≠ '\\') :
    Plain (v ++ [c]) := by
  refine ⟨List.append_ne_nil_of_left_ne_nil h.nonempty [c], ?_, fun d hd => ?_⟩
  · rw [List.head?_append_of_ne_nil v h.nonempty]
    exact h.quote
  · rcases List.mem_append.1 hd with hold | hnew
    · exact h.chars d hold
    · exact List.mem_singleton.1 hnew ▸ ⟨hspace, hback⟩

theorem plain_values {settings : List Setting} (h : ∀ x ∈ settings, Plain x.value) {k v : List Char} (hv : Plain v) :
    ∀ x ∈ settings ++ [⟨k, v⟩], Plain x.value := List.forall_mem_append.2 ⟨h, List.forall_mem_singleton.2 hv⟩

/-- A keyword without spaces and equals signs. -/
structure Named (k : List Char) : Prop where
  nonempty : k ≠ []
  chars    : ∀ c ∈ k, isSpace c = false ∧ c ≠ '='

instance (v : List Char) : Decidable (Plain v) :=
  have : Decidable (∀ c ∈ v, isSpace c = false ∧ c ≠ '\\') := List.decidableBAll _ v
  decidable_of_iff (v ≠ [] ∧ v.head? ≠ some '\'' ∧ ∀ c ∈ v, isSpace c = false ∧ c ≠ '\\')
    ⟨fun h => ⟨h.1, h.2.1, h.2.2⟩, fun h => ⟨h.nonempty, h.quote, h.chars⟩⟩

instance (k : List Char) : Decidable (Named k) :=
  have : Decidable (∀ c ∈ k, isSpace c = false ∧ c ≠ '=') := List.decidableBAll _ k
  decidable_of_iff (k ≠ [] ∧ ∀ c ∈ k, isSpace c = false ∧ c ≠ '=') ⟨fun h => ⟨h.1, h.2⟩, fun h => ⟨h.nonempty, h.chars⟩⟩

def Setting.text (x : Setting) : List Char := x.keyword ++ '=' :: x.value

/-- Settings as they are written when all values are plain. -/
def render : List Setting → List Char
  | []      => []
  | [x]     => x.text
  | x :: xs => x.text ++ ' ' :: render xs

theorem render_cons (x y : Setting) (xs : List Setting) : render (x :: y :: xs) = x.text ++ ' ' :: render (y :: xs) := rfl

theorem mem_render : ∀ {xs : List Setting} {x : Setting} {c : Char}, x ∈ xs → c ∈ x.text → c ∈ render xs
  | [],           _, _, hx, _  => absurd hx List.not_mem_nil
  | [_],          _, _, hx, hc => List.mem_singleton.1 hx ▸ hc
  | x :: y :: xs, _, _, hx, hc => by
    rw [render_cons, List.mem_append]
    rcases List.mem_cons.1 hx with rfl | hrest
    · exact .inl hc
    · exact .inr (List.mem_cons_of_mem ' ' (mem_render hrest hc))

theorem of_mem_render : ∀ {xs : List Setting} {c : Char}, c ∈ render xs → c = ' ' ∨ ∃ x ∈ xs, c ∈ x.text
  | [],           _, h => absurd h List.not_mem_nil
  | [x],          _, h => .inr ⟨x, List.mem_cons_self, h⟩
  | x :: y :: xs, _, h => by
    rw [render_cons, List.mem_append, List.mem_cons] at h
    rcases h with hfirst | rfl | hrest
    · exact .inr ⟨x, List.mem_cons_self, hfirst⟩
    · exact .inl rfl
    · rcases of_mem_render hrest with heq | ⟨z, hz, hc⟩
      · exact .inl heq
      · exact .inr ⟨z, List.mem_cons_of_mem x hz, hc⟩

namespace Reader

theorem foldlM_keyword {settings : List Setting} : ∀ {k : List Char} {k₀ : List Char}, (∀ c ∈ k, isSpace c = false ∧ c ≠ '=') →
    k.foldlM step ⟨settings, .keyword k₀⟩ = some ⟨settings, .keyword (k₀ ++ k)⟩
  | [],     k₀, _ => by rw [List.append_nil]; rfl
  | c :: k, k₀, h => by
    obtain ⟨hspace, hequals⟩ := h c List.mem_cons_self
    have hstep : step ⟨settings, .keyword k₀⟩ c = some ⟨settings, .keyword (k₀ ++ [c])⟩ := by
      simp [step, hspace, hequals]
    rw [List.foldlM_cons, hstep, Option.bind_eq_bind, Option.bind_some,
      foldlM_keyword fun d hd => h d (List.mem_cons_of_mem c hd), List.append_assoc]
    rfl

theorem foldlM_bare {settings : List Setting} {k : List Char} : ∀ {v : List Char} {v₀ : List Char},
    (∀ c ∈ v, isSpace c = false ∧ c ≠ '\\') →
    v.foldlM step ⟨settings, .bare k v₀⟩ = some ⟨settings, .bare k (v₀ ++ v)⟩
  | [],     v₀, _ => by rw [List.append_nil]; rfl
  | c :: v, v₀, h => by
    obtain ⟨hspace, hback⟩ := h c List.mem_cons_self
    have hstep : step ⟨settings, .bare k v₀⟩ c = some ⟨settings, .bare k (v₀ ++ [c])⟩ := by
      simp [step, hspace, hback]
    rw [List.foldlM_cons, hstep, Option.bind_eq_bind, Option.bind_some,
      foldlM_bare fun d hd => h d (List.mem_cons_of_mem c hd), List.append_assoc]
    rfl

/-- A plain setting is read up to its end. -/
theorem foldlM_text {settings : List Setting} {x : Setting} (hk : Named x.keyword) (hv : Plain x.value) :
    x.text.foldlM step ⟨settings, .between⟩ = some ⟨settings, .bare x.keyword x.value⟩ := by
  obtain ⟨_ | ⟨c, k⟩, _ | ⟨d, v⟩⟩ := x
  · exact absurd rfl hk.nonempty
  · exact absurd rfl hk.nonempty
  · exact absurd rfl hv.nonempty
  · obtain ⟨hspace, hequals⟩ := hk.chars c List.mem_cons_self
    obtain ⟨hspace', hback⟩ := hv.chars d List.mem_cons_self
    have hquote : d ≠ '\'' := fun h => hv.quote (congrArg some h)
    have hfirst : step ⟨settings, .between⟩ c = some ⟨settings, .keyword [c]⟩ := by
      simp [step, hspace, hequals]
    have hequalsSign : step ⟨settings, .keyword (c :: k)⟩ '=' = some ⟨settings, .behindEquals (c :: k)⟩ := rfl
    have hvalue : step ⟨settings, .behindEquals (c :: k)⟩ d = some ⟨settings, .bare (c :: k) [d]⟩ := by
      simp [step, hspace', hquote, hback]
    have hkeyword : k.foldlM step ⟨settings, .keyword [c]⟩ = some ⟨settings, .keyword ([c] ++ k)⟩ :=
      foldlM_keyword fun x hx => hk.chars x (List.mem_cons_of_mem c hx)
    have hbare : v.foldlM step ⟨settings, .bare (c :: k) [d]⟩ = some ⟨settings, .bare (c :: k) ([d] ++ v)⟩ :=
      foldlM_bare fun x hx => hv.chars x (List.mem_cons_of_mem d hx)
    rw [Setting.text, List.foldlM_append, List.foldlM_cons, hfirst, Option.bind_eq_bind, Option.bind_some, hkeyword,
      Option.bind_some, List.foldlM_cons, List.singleton_append, hequalsSign, Option.bind_eq_bind, Option.bind_some,
      List.foldlM_cons, hvalue, Option.bind_eq_bind, Option.bind_some, hbare]
    rfl

theorem foldlM_render : ∀ {xs : List Setting} {settings : List Setting}, xs ≠ [] →
    (∀ x ∈ xs, Named x.keyword ∧ Plain x.value) →
    ((render xs).foldlM step ⟨settings, .between⟩).bind finish = some (settings ++ xs)
  | [],          _,        hne, _ => absurd rfl hne
  | [x],         settings, _,   h => by
    obtain ⟨hk, hv⟩ := h x List.mem_cons_self
    rw [render, foldlM_text hk hv]
    rfl
  | x :: y :: xs, settings, _,  h => by
    obtain ⟨hk, hv⟩ := h x List.mem_cons_self
    have hspace : step ⟨settings, .bare x.keyword x.value⟩ ' ' = some ⟨settings ++ [x], .between⟩ := rfl
    have htail : ((render (y :: xs)).foldlM step ⟨settings ++ [x], .between⟩).bind finish = some (settings ++ [x] ++ y :: xs) :=
      foldlM_render (List.cons_ne_nil y xs) fun z hz => h z (List.mem_cons_of_mem x hz)
    rw [render_cons, List.foldlM_append, foldlM_text hk hv, Option.bind_eq_bind, Option.bind_some, List.foldlM_cons, hspace,
      Option.bind_eq_bind, Option.bind_some, htail, List.append_assoc]
    rfl

end Reader

/-- **Plain settings are read as they were written.** -/
theorem parse_render {xs : List Setting} (hne : xs ≠ []) (h : ∀ x ∈ xs, Named x.keyword ∧ Plain x.value) :
    parse (render xs) = some xs := Reader.foldlM_render hne h

/-! ## What is kept of a text

A character is kept, in a keyword or in a value or as an equals sign, or it is dropped: then it is a space, a quote or a
backslash. -/

/-- A character that is never dropped. -/
def ordinary (c : Char) : Bool := !isSpace c && c != '\'' && c != '\\'

theorem plain_of_ordinary {v : List Char} (hne : v ≠ []) (h : ∀ c ∈ v, ordinary c = true) : Plain v := by
  have hchar (c : Char) (hc : c ∈ v) : isSpace c = false ∧ c ≠ '\'' ∧ c ≠ '\\' := by
    simpa [ordinary, and_assoc] using h c hc
  refine ⟨hne, fun hhead => (hchar _ (List.mem_of_head? hhead)).2.1 rfl, fun c hc => ?_⟩
  exact ⟨(hchar c hc).1, (hchar c hc).2.2⟩

def Place.text : Place → List Char
  | .between          => []
  | .keyword k        => k
  | .behindKeyword k  => k
  | .behindEquals k   => k ++ ['=']
  | .bare k v         => k ++ '=' :: v
  | .bareEscape k v   => k ++ '=' :: v
  | .quoted k v       => k ++ '=' :: v
  | .quotedEscape k v => k ++ '=' :: v

/-- What has been kept. -/
def kept (settings : List Setting) : List Char := settings.flatMap Setting.text

/-- What has been kept, and a character more for each setting. -/
def cost (settings : List Setting) : Nat := (kept settings).length + settings.length

@[simp] theorem kept_singleton (x : Setting) : kept [x] = x.text := List.flatMap_singleton Setting.text x

@[simp] theorem cost_singleton (x : Setting) : cost [x] = x.text.length + 1 := by
  rw [cost, kept_singleton, List.length_singleton]

theorem kept_append (xs ys : List Setting) : kept (xs ++ ys) = kept xs ++ kept ys := List.flatMap_append

theorem kept_concat (xs : List Setting) (k v : List Char) : kept (xs ++ [⟨k, v⟩]) = kept xs ++ (k ++ '=' :: v) := by
  rw [kept_append]
  exact congrArg (kept xs ++ ·) (List.append_nil _)

namespace Reader

def text (r : Reader) : List Char := kept r.settings ++ r.place.text

def spent (r : Reader) : Nat := r.text.length + r.settings.length

/-- Nothing was dropped that is not between two settings, and all values are plain. -/
def Tidy (r : Reader) : Prop :=
  (∀ x ∈ r.settings, Plain x.value) ∧
    match r.place with
    | .between        => True
    | .keyword _      => True
    | .behindEquals _ => True
    | .bare _ v       => Plain v
    | _               => False

/-- What becomes of a character: it is kept, or it is dropped behind a setting, or for nothing. -/
inductive Takes (r : Reader) (c : Char) (r' : Reader) : Prop
  | keeps (htext : r'.text = r.text ++ [c]) (hsettings : r'.settings.length = r.settings.length) (htidy : r.Tidy → r'.Tidy)
  | ends (hordinary : ordinary c = false) (htext : r'.text = r.text) (hsettings : r'.settings.length = r.settings.length + 1)
    (htidy : r.Tidy → r'.Tidy)
  | drops (hordinary : ordinary c = false) (htext : r'.text = r.text) (hsettings : r'.settings.length = r.settings.length)

theorem takes {r r' : Reader} {c : Char} (h : r.step c = some r') : r.Takes c r' := by
  have hspace (hc : isSpace c = true) : ordinary c = false := by simp [ordinary, hc]
  have hquote (hc : c = '\'') : ordinary c = false := by simp [ordinary, hc]
  have hback (hc : c = '\\') : ordinary c = false := by simp [ordinary, hc]
  obtain ⟨settings, place⟩ := r
  cases place with
  | between         =>
    simp only [step] at h
    split at h
    · rename_i hc
      obtain rfl := Option.some.inj h
      exact .drops (hspace hc) rfl rfl
    · split at h
      · rename_i hc
        obtain rfl := Option.some.inj h
        exact .keeps (by simp [text, Place.text, hc]) rfl fun htidy => ⟨htidy.1, trivial⟩
      · obtain rfl := Option.some.inj h
        exact .keeps (by simp [text, Place.text]) rfl fun htidy => ⟨htidy.1, trivial⟩
  | keyword k       =>
    simp only [step] at h
    split at h
    · rename_i hc
      obtain rfl := Option.some.inj h
      exact .drops (hspace hc) rfl rfl
    · split at h
      · rename_i hc
        obtain rfl := Option.some.inj h
        exact .keeps (by simp [text, Place.text, hc]) rfl fun htidy => ⟨htidy.1, trivial⟩
      · obtain rfl := Option.some.inj h
        exact .keeps (by simp [text, Place.text]) rfl fun htidy => ⟨htidy.1, trivial⟩
  | behindKeyword k =>
    simp only [step] at h
    split at h
    · rename_i hc
      obtain rfl := Option.some.inj h
      exact .drops (hspace hc) rfl rfl
    · split at h
      · rename_i hc
        obtain rfl := Option.some.inj h
        exact .keeps (by simp [text, Place.text, hc]) rfl fun htidy => htidy.2.elim
      · cases h
  | behindEquals k  =>
    simp only [step] at h
    split at h
    · rename_i hc
      obtain rfl := Option.some.inj h
      exact .drops (hspace hc) rfl rfl
    · split at h
      · rename_i hc
        obtain rfl := Option.some.inj h
        exact .drops (hquote hc) (by simp [text, Place.text]) rfl
      · split at h
        · rename_i hc
          obtain rfl := Option.some.inj h
          exact .drops (hback hc) (by simp [text, Place.text]) rfl
        · rename_i hnospace hnoquote hnoback
          obtain rfl := Option.some.inj h
          have hplain : Plain [c] := plain_singleton (Bool.eq_false_iff.2 hnospace) hnoquote hnoback
          exact .keeps (by simp [text, Place.text]) rfl fun htidy => ⟨htidy.1, hplain⟩
  | bare k v        =>
    simp only [step] at h
    split at h
    · rename_i hc
      obtain rfl := Option.some.inj h
      exact .ends (hspace hc) (by simp [text, Place.text, kept_concat]) List.length_append fun htidy =>
        ⟨plain_values htidy.1 htidy.2, trivial⟩
    · split at h
      · rename_i hc
        obtain rfl := Option.some.inj h
        exact .drops (hback hc) rfl rfl
      · rename_i hnospace hnoback
        obtain rfl := Option.some.inj h
        have hplain (h : Plain v) : Plain (v ++ [c]) := h.concat (Bool.eq_false_iff.2 hnospace) hnoback
        exact .keeps (by simp [text, Place.text]) rfl fun htidy => ⟨htidy.1, hplain htidy.2⟩
  | bareEscape k v  =>
    obtain rfl := Option.some.inj h
    exact .keeps (by simp [text, Place.text]) rfl fun htidy => htidy.2.elim
  | quoted k v      =>
    simp only [step] at h
    split at h
    · rename_i hc
      obtain rfl := Option.some.inj h
      exact .ends (hquote hc) (by simp [text, Place.text, kept_concat]) List.length_append fun htidy => htidy.2.elim
    · split at h
      · rename_i hc
        obtain rfl := Option.some.inj h
        exact .drops (hback hc) rfl rfl
      · obtain rfl := Option.some.inj h
        exact .keeps (by simp [text, Place.text]) rfl fun htidy => htidy.2.elim
  | quotedEscape k v =>
    obtain rfl := Option.some.inj h
    exact .keeps (by simp [text, Place.text]) rfl fun htidy => htidy.2.elim

theorem Takes.countP {r r' : Reader} {c : Char} (h : r.Takes c r') :
    r'.text.countP ordinary = r.text.countP ordinary + [c].countP ordinary := by
  cases h with
  | keeps htext _ _           => rw [htext, List.countP_append]
  | ends hordinary htext _ _  => rw [htext, List.countP_singleton, hordinary]; rfl
  | drops hordinary htext _   => rw [htext, List.countP_singleton, hordinary]; rfl

theorem Takes.spent_le {r r' : Reader} {c : Char} (h : r.Takes c r') :
    r'.spent ≤ r.spent + 1 ∧ (r.spent + 1 ≤ r'.spent → r.Tidy → r'.Tidy) := by
  unfold spent
  cases h with
  | keeps htext hsettings htidy  =>
    rw [htext, hsettings, List.length_append, List.length_singleton]
    exact ⟨by omega, fun _ => htidy⟩
  | ends _ htext hsettings htidy =>
    rw [htext, hsettings]
    exact ⟨by omega, fun _ => htidy⟩
  | drops _ htext hsettings      =>
    rw [htext, hsettings]
    exact ⟨by omega, fun hlt => absurd hlt (by omega)⟩

theorem foldlM_kept : ∀ {s : List Char} {r r' : Reader}, s.foldlM step r = some r' →
    r'.text.countP ordinary = r.text.countP ordinary + s.countP ordinary ∧ r'.spent ≤ r.spent + s.length ∧
      (r.spent + s.length ≤ r'.spent → r.Tidy → r'.Tidy)
  | [],     r, r', h => by
    obtain rfl := Option.some.inj h
    exact ⟨rfl, Nat.le_refl _, fun _ => id⟩
  | c :: s, r, r', h => by
    rw [List.foldlM_cons] at h
    obtain ⟨next, hstep, hrest⟩ := Option.bind_eq_some_iff.1 h
    obtain ⟨hcount, hspent, htidy⟩ := foldlM_kept hrest
    obtain ⟨hle, hnext⟩ := (takes hstep).spent_le
    rw [List.length_cons]
    refine ⟨?_, by omega, fun hlt hr => htidy (by omega) (hnext (by omega) hr)⟩
    rw [hcount, (takes hstep).countP, Nat.add_assoc, ← List.countP_append]
    rfl

theorem finish_kept {r : Reader} {settings : List Setting} (h : r.finish = some settings) :
    kept settings = r.text ∧ cost settings ≤ r.spent + 1 ∧
      (r.spent + 1 ≤ cost settings → r.Tidy → (∀ k, r.place ≠ .behindEquals k) → ∀ x ∈ settings, Plain x.value) := by
  obtain ⟨done, place⟩ := r
  have hone (k v : List Char) (hs : done ++ [⟨k, v⟩] = settings) (htext : place.text = k ++ '=' :: v) :
      kept settings = text ⟨done, place⟩ ∧ cost settings = spent ⟨done, place⟩ + 1 := by
    have hkept : kept settings = text ⟨done, place⟩ := by
      rw [← hs, kept_concat, text, htext]
    refine ⟨hkept, ?_⟩
    rw [cost, hkept, ← hs, List.length_append, List.length_singleton]
    rfl
  cases place with
  | between         =>
    obtain rfl : done = settings := Option.some.inj h
    have hkept : kept done = text ⟨done, .between⟩ := (List.append_nil _).symm
    have hcost : cost done = spent ⟨done, .between⟩ := by
      rw [cost, hkept]
      rfl
    exact ⟨hkept, by omega, fun hlt => absurd hlt (by omega)⟩
  | behindEquals k  =>
    obtain ⟨hkept, hcost⟩ := hone k [] (Option.some.inj h) rfl
    exact ⟨hkept, by omega, fun _ _ hplace => absurd rfl (hplace k)⟩
  | bare k v        =>
    obtain ⟨hkept, hcost⟩ := hone k v (Option.some.inj h) rfl
    refine ⟨hkept, by omega, fun _ htidy _ => ?_⟩
    rw [← Option.some.inj h]
    exact plain_values htidy.1 htidy.2
  | bareEscape k v  =>
    obtain ⟨hkept, hcost⟩ := hone k v (Option.some.inj h) rfl
    exact ⟨hkept, by omega, fun _ htidy => htidy.2.elim⟩
  | keyword _       => cases h
  | behindKeyword _ => cases h
  | quoted _ _      => cases h
  | quotedEscape _ _ => cases h

/-- Behind an equals sign comes only such a sign, or a space. -/
theorem step_behindEquals {r r' : Reader} {c : Char} (h : r.step c = some r') {k : List Char}
    (hplace : r'.place = .behindEquals k) : c = '=' ∨ isSpace c = true := by
  by_contra hc
  rw [not_or, Bool.not_eq_true] at hc
  obtain ⟨settings, place⟩ := r
  cases place <;> simp only [step, hc.1, hc.2, if_false, Bool.false_eq_true] at h
  all_goals
    repeat' split at h
    all_goals cases h
    all_goals simp at hplace

end Reader

/-- **What is kept of a text**: all that is not a space, a quote or a backslash; and with a character more for each setting
than for the last, it is no longer than the text. -/
theorem parse_kept {s : List Char} {settings : List Setting} (h : parse s = some settings) :
    (kept settings).countP ordinary = s.countP ordinary ∧ cost settings ≤ s.length + 1 := by
  obtain ⟨r, hread, hfinish⟩ := Option.bind_eq_some_iff.1 h
  obtain ⟨hcount, hspent, _⟩ := Reader.foldlM_kept hread
  obtain ⟨hkept, hcost, _⟩ := Reader.finish_kept hfinish
  have hstart : Reader.spent {} = 0 := rfl
  refine ⟨?_, by omega⟩
  rw [hkept, hcount]
  exact Nat.zero_add _

/-- **Where a text is as short as it can be, all its values are plain.** -/
theorem plain_of_length {s : List Char} {c : Char} {settings : List Setting} (h : parse (s ++ [c]) = some settings)
    (hequals : c ≠ '=') (hspace : isSpace c = false) (hlength : (s ++ [c]).length + 1 ≤ cost settings) :
    ∀ x ∈ settings, Plain x.value := by
  obtain ⟨r, hread, hfinish⟩ := Option.bind_eq_some_iff.1 h
  obtain ⟨_, hspent, htidy⟩ := Reader.foldlM_kept hread
  obtain ⟨_, hcost, hplain⟩ := Reader.finish_kept hfinish
  have hstart : Reader.spent {} = 0 := rfl
  refine hplain (by omega) (htidy (by omega) ⟨fun x hx => absurd hx List.not_mem_nil, trivial⟩) fun k hk => ?_
  rw [List.foldlM_append] at hread
  obtain ⟨before, _, hlast⟩ := Option.bind_eq_some_iff.1 hread
  rw [List.foldlM_cons] at hlast
  obtain ⟨after, hstep, hafter⟩ := Option.bind_eq_some_iff.1 hlast
  obtain rfl := Option.some.inj hafter
  rcases Reader.step_behindEquals hstep hk with heq | hsp
  · exact hequals heq
  · rw [hspace] at hsp
    cases hsp

theorem cost_append (xs ys : List Setting) : cost (xs ++ ys) = cost xs + cost ys := by
  rw [cost, kept_append, List.length_append, List.length_append, cost, cost]
  omega

/-- What is wanted of the settings, and the rest of them. -/
theorem exists_rest {wanted settings : List Setting} (h : wanted.Subperm settings) :
    ∃ rest, (kept settings).countP ordinary = (kept wanted).countP ordinary + (kept rest).countP ordinary ∧
      cost settings = cost wanted + cost rest := by
  obtain ⟨found, hfound, hsublist⟩ := h
  obtain ⟨rest, hrest⟩ := hsublist.exists_perm_append
  have hperm : settings.Perm (wanted ++ rest) := hrest.trans (hfound.append_right rest)
  have hkept : (kept settings).Perm (kept (wanted ++ rest)) := hperm.flatMap_right Setting.text
  refine ⟨rest, ?_, ?_⟩
  · rw [hkept.countP_eq, kept_append, List.countP_append]
  · rw [← cost_append, cost, cost, hkept.length_eq, hperm.length_eq]

theorem countP_render : ∀ xs : List Setting, (render xs).countP ordinary = (kept xs).countP ordinary
  | []           => rfl
  | [x]          => by rw [render, kept_singleton]
  | x :: y :: xs => by
    have ih := countP_render (y :: xs)
    have hspace : ([' '] : List Char).countP ordinary = 0 := by decide
    rw [render_cons, ← List.singleton_append, List.countP_append, List.countP_append, hspace, ih, Nat.zero_add,
      ← List.countP_append]
    rfl

theorem length_render : ∀ {xs : List Setting}, xs ≠ [] → (render xs).length + 1 = cost xs
  | [],           hne => absurd rfl hne
  | [x],          _   => (cost_singleton x).symm
  | x :: y :: xs, _   => by
    have ih := length_render (List.cons_ne_nil y xs)
    have hcons := cost_append [x] (y :: xs)
    rw [List.singleton_append, cost_singleton] at hcons
    rw [render_cons, List.length_append, List.length_cons, hcons]
    omega

/-- **Settings that were written as they are, one of them of ordinary characters: if the others are all read, what is read is
all plain.** -/
theorem plain_of_wanted {xs wanted settings : List Setting} {filler : Setting} (hperm : xs.Perm (wanted ++ [filler]))
    (hfiller : ∀ c ∈ filler.text, ordinary c = true) {c : Char} (hlast : (render xs).getLast? = some c) (hequals : c ≠ '=')
    (hspace : isSpace c = false) (h : parse (render xs) = some settings) (hwanted : wanted.Subperm settings) :
    ∀ x ∈ settings, Plain x.value := by
  have hne : xs ≠ [] := by
    rintro rfl
    cases hlast
  have hkept : (kept xs).Perm (kept (wanted ++ [filler])) := hperm.flatMap_right Setting.text
  have hcostXs : cost xs = cost (wanted ++ [filler]) := by
    rw [cost, cost, hkept.length_eq, hperm.length_eq]
  have hlength := length_render hne
  rw [hcostXs, cost_append, cost_singleton] at hlength
  have hcount : (kept settings).countP ordinary = (kept wanted).countP ordinary + filler.text.length := by
    rw [(parse_kept h).1, countP_render, hkept.countP_eq, kept_append, List.countP_append, kept_singleton,
      List.countP_eq_length.2 hfiller]
  -- what is read besides has as many ordinary characters as the filler, and is a setting at least
  obtain ⟨rest, hrest, hcost⟩ := exists_rest hwanted
  have hle : (kept rest).countP ordinary ≤ (kept rest).length := List.countP_le_length
  have hpositive : 0 < filler.text.length := by
    rw [Setting.text, List.length_append, List.length_cons]
    omega
  have hsome : 0 < rest.length := by
    apply List.length_pos_of_ne_nil
    rintro rfl
    have hzero : (kept []).countP ordinary = 0 := rfl
    omega
  have hcost' : cost rest = (kept rest).length + rest.length := rfl
  obtain ⟨init, hinit⟩ := List.getLast?_eq_some_iff.1 hlast
  rw [hinit] at h hlength
  exact plain_of_length h hequals hspace (by omega)

end KeywordValue
