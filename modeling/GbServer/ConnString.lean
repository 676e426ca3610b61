import GbServer.CString
import GbServer.Lib.IntegerText
import GbServer.Lib.KeywordValue
/-!
# ConnString — the connection string of a PostgreSQL connection

`BuildConnString` (`pg_connection.cpp`), which `ConnectSync` hands to libpq.  libpq reads settings in it, of the form that
`Lib/KeywordValue` describes; the strings of the configuration are written there as they are.  That is enough for plain ones
and for no others (`configures_iff`): an empty password takes the setting behind it for its value.
-/
namespace Gb.PgConnection

open KeywordValue (Setting Plain Named parse render kept cost lastValue ordinary)
open DecimalText (isSpace)
open IntegerText (ofInt)

/-- What a `DbConfig` says of the connection; `DbPool` has what it says of the pool. -/
structure DbConfig where
  host              : List Char := "127.0.0.1".toList
  port              : UInt16 := 0
  user              : List Char := []
  password          : List Char := []
  database          : List Char := []
  useSsl            : Bool := false
  connectTimeoutSec : Int := 5

namespace DbConfig

/-- `DefaultPort` of PostgreSQL. -/
def defaultPort : UInt16 := 5432

variable (cfg : DbConfig)

/-- 0 stands for the default port. -/
def portInUse : UInt16 := if 0 < cfg.port then cfg.port else defaultPort

/-- `BuildConnString`. -/
def buildConnString : List Char :=
  "host=".toList ++ cfg.host ++ " port=".toList ++ ofInt cfg.portInUse.toNat ++ " user=".toList ++ cfg.user ++
    " password=".toList ++ cfg.password ++ " dbname=".toList ++ cfg.database ++ " connect_timeout=".toList ++
    ofInt cfg.connectTimeoutSec ++ if cfg.useSsl then " sslmode=require".toList else " sslmode=disable".toList

/-- What libpq reads of what `PQconnectdb` is given. -/
def readByLibpq : Option (List Setting) := parse (cStr cfg.buildConnString)

/-! ## The settings -/

def servers : List Setting :=
  [⟨"host".toList, cfg.host⟩, ⟨"port".toList, ofInt cfg.portInUse.toNat⟩, ⟨"user".toList, cfg.user⟩,
    ⟨"password".toList, cfg.password⟩, ⟨"dbname".toList, cfg.database⟩]

def timeout : Setting := ⟨"connect_timeout".toList, ofInt cfg.connectTimeoutSec⟩

def sslmode : Setting := ⟨"sslmode".toList, if cfg.useSsl then "require".toList else "disable".toList⟩

/-- What is configured. -/
def configured : List Setting := cfg.servers ++ [cfg.sslmode]

/-- What is written. -/
def written : List Setting := cfg.servers ++ [cfg.timeout, cfg.sslmode]

def keywords : List (List Char) :=
  ["host".toList, "port".toList, "user".toList, "password".toList, "dbname".toList, "connect_timeout".toList,
    "sslmode".toList]

/-- libpq reads what is configured, and no other keyword. -/
def Configures : Prop :=
  ∃ settings, cfg.readByLibpq = some settings ∧ (∀ x ∈ cfg.configured, lastValue settings x.keyword = some x.value) ∧
    ∀ x ∈ settings, x.keyword ∈ keywords

/-- A string that is written as it is: not empty, without spaces, backslashes and zero bytes, and with no quote in front. -/
def Clean (value : List Char) : Prop := Plain value ∧ Char.ofNat 0 ∉ value

instance (value : List Char) : Decidable (Clean value) := inferInstanceAs (Decidable (_ ∧ _))

theorem sslmode_text :
    ' ' :: cfg.sslmode.text = if cfg.useSsl then " sslmode=require".toList else " sslmode=disable".toList := by
  have hrequire : " sslmode=require".toList = ' ' :: ("sslmode".toList ++ '=' :: "require".toList) := by decide
  have hdisable : " sslmode=disable".toList = ' ' :: ("sslmode".toList ++ '=' :: "disable".toList) := by decide
  unfold sslmode
  simp only [Setting.text, hrequire, hdisable]
  split
  · rfl
  · rfl

theorem buildConnString_eq : cfg.buildConnString = render cfg.written := by
  have hhost : "host=".toList = "host".toList ++ ['='] := by decide
  have hport : " port=".toList = ' ' :: ("port".toList ++ ['=']) := by decide
  have huser : " user=".toList = ' ' :: ("user".toList ++ ['=']) := by decide
  have hpassword : " password=".toList = ' ' :: ("password".toList ++ ['=']) := by decide
  have hdbname : " dbname=".toList = ' ' :: ("dbname".toList ++ ['=']) := by decide
  have htimeout : " connect_timeout=".toList = ' ' :: ("connect_timeout".toList ++ ['=']) := by decide
  unfold buildConnString written servers timeout
  rw [← sslmode_text]
  generalize cfg.sslmode = mode
  simp only [hhost, hport, huser, hpassword, hdbname, htimeout, KeywordValue.render_cons, KeywordValue.render, Setting.text,
    List.append_assoc, List.cons_append, List.nil_append]

/-- Up to the timeout, and from there. -/
theorem render_written : render cfg.written = render cfg.servers ++ ' ' :: render [cfg.timeout, cfg.sslmode] := by
  unfold written servers
  simp only [KeywordValue.render_cons, KeywordValue.render, List.append_assoc, List.cons_append, List.nil_append]

theorem map_keyword_written : cfg.written.map Setting.keyword = keywords := rfl

theorem keyword_mem {x : Setting} (h : x ∈ cfg.written) : x.keyword ∈ keywords := by
  rw [← cfg.map_keyword_written]
  exact List.mem_map_of_mem h

theorem named_of_mem {k : List Char} (h : k ∈ keywords) : Named k ∧ Char.ofNat 0 ∉ k := by
  have hall : ∀ k ∈ keywords, Named k ∧ Char.ofNat 0 ∉ k := by decide
  exact hall k h

theorem nodup_keywords : keywords.Nodup := by decide

theorem written_perm : cfg.written.Perm (cfg.configured ++ [cfg.timeout]) := by
  unfold written configured
  rw [List.append_assoc]
  exact (List.Perm.swap cfg.sslmode cfg.timeout []).append_left cfg.servers

/-! ## Numbers and modes -/

theorem ordinary_of_isDigit {c : Char} (h : c.isDigit = true) : ordinary c = true := by
  have hquote : c ≠ '\'' := fun heq => absurd (heq ▸ h) (by decide)
  have hback : c ≠ '\\' := fun heq => absurd (heq ▸ h) (by decide)
  have hdigit : 48 ≤ c.toNat := (Char.isDigit_iff_toNat.1 h).1
  have hspace : isSpace c = false := by
    simp only [isSpace, Bool.or_eq_false_iff, Bool.and_eq_false_iff, decide_eq_false_iff_not]
    omega
  simp [ordinary, hspace, hquote, hback]

theorem ofInt_chars {n : Int} {c : Char} (h : c ∈ ofInt n) : ordinary c = true ∧ c ≠ Char.ofNat 0 := by
  rcases IntegerText.mem_ofInt h with rfl | hdigit
  · decide
  · exact ⟨ordinary_of_isDigit hdigit, fun heq => absurd (heq ▸ hdigit) (by decide)⟩

theorem clean_ofInt (n : Int) : Clean (ofInt n) :=
  ⟨KeywordValue.plain_of_ordinary (IntegerText.ofInt_ne_nil n) fun _ hc => (ofInt_chars hc).1,
    fun hmem => (ofInt_chars hmem).2 rfl⟩

theorem clean_sslmode : Clean cfg.sslmode.value := by
  have hboth : Clean "require".toList ∧ Clean "disable".toList := by decide
  unfold sslmode
  split
  · exact hboth.1
  · exact hboth.2

theorem ordinary_timeout : ∀ c ∈ cfg.timeout.text, ordinary c = true := by
  have hkeyword : ∀ c ∈ "connect_timeout".toList, ordinary c = true := List.all_eq_true.1 (by decide)
  intro c hc
  rcases List.mem_append.1 hc with hk | hv
  · exact hkeyword c hk
  · rcases List.mem_cons.1 hv with rfl | hdigits
    · decide
    · exact (ofInt_chars hdigits).1

theorem getLast?_written : (render cfg.written).getLast? = some 'e' := by
  have hvalue : cfg.sslmode.value.getLast? = some 'e' := by
    have hboth : "require".toList.getLast? = some 'e' ∧ "disable".toList.getLast? = some 'e' := by decide
    unfold sslmode
    split
    · exact hboth.1
    · exact hboth.2
  obtain ⟨init, hinit⟩ := List.getLast?_eq_some_iff.1 hvalue
  have hend : render cfg.written = (render cfg.servers ++ ' ' :: (cfg.timeout.text ++ ' ' ::
      (cfg.sslmode.keyword ++ '=' :: init))) ++ ['e'] := by
    rw [render_written, KeywordValue.render_cons, KeywordValue.render, Setting.text, Setting.text, hinit]
    simp only [List.append_assoc, List.cons_append]
  rw [hend, List.getLast?_concat]

/-- A zero byte stands in a value. -/
theorem zero_mem_render (h : Char.ofNat 0 ∈ render cfg.written) : ∃ x ∈ cfg.written, Char.ofNat 0 ∈ x.value := by
  rcases KeywordValue.of_mem_render h with heq | ⟨x, hx, htext⟩
  · exact absurd heq (by decide)
  · refine ⟨x, hx, ?_⟩
    rcases List.mem_append.1 htext with hk | hv
    · exact absurd hk (named_of_mem (cfg.keyword_mem hx)).2
    · exact (List.mem_cons.1 hv).resolve_left (by decide)

theorem forall_servers (P : List Char → Prop) : (∀ x ∈ cfg.servers, P x.value) ↔
    P cfg.host ∧ P (ofInt cfg.portInUse.toNat) ∧ P cfg.user ∧ P cfg.password ∧ P cfg.database := by
  unfold servers
  rw [List.forall_mem_cons, List.forall_mem_cons, List.forall_mem_cons, List.forall_mem_cons, List.forall_mem_singleton]

theorem forall_written (P : List Char → Prop) : (∀ x ∈ cfg.written, P x.value) ↔
    (∀ x ∈ cfg.servers, P x.value) ∧ P cfg.timeout.value ∧ P cfg.sslmode.value := by
  unfold written
  rw [List.forall_mem_append, List.forall_mem_cons, List.forall_mem_singleton]

/-- The numbers and the mode are clean. -/
theorem clean_written_iff :
    (∀ x ∈ cfg.written, Clean x.value) ↔ Clean cfg.host ∧ Clean cfg.user ∧ Clean cfg.password ∧ Clean cfg.database := by
  rw [forall_written, forall_servers]
  constructor
  · rintro ⟨⟨hhost, _, huser, hpassword, hdatabase⟩, _⟩
    exact ⟨hhost, huser, hpassword, hdatabase⟩
  · rintro ⟨hhost, huser, hpassword, hdatabase⟩
    exact ⟨⟨hhost, clean_ofInt _, huser, hpassword, hdatabase⟩, clean_ofInt _, cfg.clean_sslmode⟩

/-! ## Clean strings -/

theorem readByLibpq_of_clean (h : ∀ x ∈ cfg.written, Clean x.value) : cfg.readByLibpq = some cfg.written := by
  have hzero : Char.ofNat 0 ∉ render cfg.written := fun hmem => by
    obtain ⟨x, hx, hvalue⟩ := cfg.zero_mem_render hmem
    exact (h x hx).2 hvalue
  rw [readByLibpq, buildConnString_eq, cStr_eq_self hzero]
  exact KeywordValue.parse_render (List.cons_ne_nil _ _) fun x hx => ⟨(named_of_mem (cfg.keyword_mem hx)).1, (h x hx).1⟩

theorem configures_of_clean (h : ∀ x ∈ cfg.written, Clean x.value) : cfg.Configures := by
  refine ⟨cfg.written, cfg.readByLibpq_of_clean h, fun x hx => ?_, fun x hx => cfg.keyword_mem hx⟩
  have hmem : x ∈ cfg.written := cfg.written_perm.symm.subset (List.mem_append_left _ hx)
  exact KeywordValue.lastValue_of_mem (cfg.map_keyword_written ▸ nodup_keywords) hmem

/-! ## Other strings -/

theorem nodup_configured : cfg.configured.Nodup := by
  have hwritten : cfg.written.Nodup := List.Nodup.of_map Setting.keyword (cfg.map_keyword_written ▸ nodup_keywords)
  exact (List.nodup_append.1 (cfg.written_perm.nodup_iff.1 hwritten)).1

/-- Behind a zero byte nothing is read, and then too little. -/
theorem zero_notMem_of_wanted {settings : List Setting} (h : cfg.readByLibpq = some settings)
    (hwanted : cfg.configured.Subperm settings) : Char.ofNat 0 ∉ render cfg.servers := fun hzero => by
  rw [readByLibpq, buildConnString_eq, render_written, cStr_append_of_mem hzero] at h
  have hcut := length_cStr_lt hzero
  have hread := (KeywordValue.parse_kept h).2
  have hservers : (render cfg.servers).length + 1 = cost cfg.servers := KeywordValue.length_render (List.cons_ne_nil _ _)
  have hmode := KeywordValue.cost_append cfg.servers [cfg.sslmode]
  obtain ⟨rest, _, hcost⟩ := KeywordValue.exists_rest hwanted
  rw [configured] at hcost
  omega

theorem clean_of_configures (h : cfg.Configures) : ∀ x ∈ cfg.written, Clean x.value := by
  obtain ⟨settings, hread, hvalues, _⟩ := h
  have hwanted : cfg.configured.Subperm settings :=
    List.subperm_of_subset cfg.nodup_configured fun x hx => KeywordValue.mem_of_lastValue (hvalues x hx)
  have hvalue : ∀ x ∈ cfg.written, Char.ofNat 0 ∉ x.value := by
    rw [cfg.forall_written fun v => Char.ofNat 0 ∉ v]
    refine ⟨fun x hx hmem => ?_, (clean_ofInt _).2, cfg.clean_sslmode.2⟩
    have htext : Char.ofNat 0 ∈ x.text := List.mem_append_right _ (List.mem_cons_of_mem '=' hmem)
    exact cfg.zero_notMem_of_wanted hread hwanted (KeywordValue.mem_render hx htext)
  have hzero : Char.ofNat 0 ∉ render cfg.written := fun hmem => by
    obtain ⟨x, hx, hmem⟩ := cfg.zero_mem_render hmem
    exact hvalue x hx hmem
  rw [readByLibpq, buildConnString_eq, cStr_eq_self hzero] at hread
  have hplain := KeywordValue.plain_of_wanted cfg.written_perm cfg.ordinary_timeout cfg.getLast?_written (by decide)
    (by decide) hread hwanted
  rw [clean_written_iff]
  have hservers := (cfg.forall_servers Clean).1 fun x hx =>
    ⟨hplain x (hwanted.subset (List.mem_append_left _ hx)), hvalue x (List.mem_append_left _ hx)⟩
  exact ⟨hservers.1, hservers.2.2⟩

/-- **libpq reads what is configured if and only if all the strings are clean.** -/
theorem configures_iff :
    cfg.Configures ↔ Clean cfg.host ∧ Clean cfg.user ∧ Clean cfg.password ∧ Clean cfg.database := by
  rw [← clean_written_iff]
  exact ⟨cfg.clean_of_configures, cfg.configures_of_clean⟩

/-- An empty password takes the name of the database for its value. -/
theorem not_configures : ¬ Configures { user := "postgres".toList, database := "test".toList } := by
  rintro ⟨settings, hread, hvalues, _⟩
  have hpassword := hvalues ⟨"password".toList, []⟩ (by decide)
  have hshown : readByLibpq { user := "postgres".toList, database := "test".toList } =
      some [⟨"host".toList, "127.0.0.1".toList⟩, ⟨"port".toList, "5432".toList⟩, ⟨"user".toList, "postgres".toList⟩,
        ⟨"password".toList, "dbname=test".toList⟩, ⟨"connect_timeout".toList, "5".toList⟩,
        ⟨"sslmode".toList, "disable".toList⟩] := by decide
  obtain rfl := Option.some.inj (hread.symm.trans hshown)
  exact absurd hpassword (by decide)

end DbConfig

end Gb.PgConnection
