/-
The parser of URLs in `url.c`.
-/
import CMx.Strings

namespace CMx

open Mqtt (Bytes)

/-! ## The parser -/

structure UrlParser where
  scheme : Option Bytes
  schemeLen : Nat
  userinfo : Option Bytes
  userinfoLen : Nat
  host : Option Bytes
  hostLen : Nat
  port : Option Bytes
  portLen : Nat
  path : Option Bytes
  pathLen : Nat
  query : Option Bytes
  queryLen : Nat
  deriving DecidableEq, Repr

/-- `://` -/
def urlSchemeEnd : Bytes := [0x3A, 0x2F, 0x2F]

def urlFindScheme (parser : UrlParser) (url : Bytes) : UrlParser × Bytes :=
  match strstr url urlSchemeEnd with
  | none => ({ parser with scheme := none }, url)
  | some colon => ({ parser with scheme := some url, schemeLen := ptrDiff colon url }, colon.drop 3)

def urlFindUserinfo (parser : UrlParser) (tmp : Bytes) : UrlParser × Bytes :=
  match strchr tmp 0x40 with
  | none => ({ parser with userinfo := none }, tmp)
  | some atSign => ({ parser with userinfo := some tmp, userinfoLen := ptrDiff atSign tmp }, atSign.drop 1)

def urlFindQuery (parser : UrlParser) (path : Bytes) : UrlParser :=
  match strchr path 0x3F with
  | none => { parser with pathLen := path.length, query := none }
  | some question => { parser with pathLen := ptrDiff question path, query := some (question.drop 1),
                                   queryLen := (question.drop 1).length }

/-- The host and the port, and the path and the query behind them. -/
def urlFindHost (parser : UrlParser) (host : Bytes) : UrlParser :=
  let parser := { parser with host := some host }
  match strchr host 0x3A, strchr host 0x2F with
  | none, none => { parser with port := none, hostLen := host.length, path := none, query := none }
  | none, some slash =>
    urlFindQuery { parser with port := none, hostLen := ptrDiff slash host, path := some slash } slash
  | some colon, none =>
    { parser with hostLen := ptrDiff colon host, port := some (colon.drop 1), portLen := (colon.drop 1).length,
                  path := none, query := none }
  | some colon, some slash =>
    urlFindQuery { parser with hostLen := ptrDiff colon host, port := some (colon.drop 1),
                               portLen := ptrDiff slash (colon.drop 1), path := some slash } slash

/-- `url_parse` returns true for every URL. -/
def urlParse (parser : UrlParser) (url : Bytes) : UrlParser × Bool :=
  let (parser, tmp) := urlFindScheme parser url
  if tmp.head? = some 0x2F then
    -- it is just a path
    (urlFindQuery { parser with userinfo := none, host := none, port := none, path := some tmp } tmp, true)
  else
    let (parser, tmp) := urlFindUserinfo parser tmp
    (urlFindHost parser tmp, true)

/-! ## What the searches leave -/

/-- The URL behind its scheme. -/
def behindScheme (url : Bytes) : Bytes :=
  match strstr url urlSchemeEnd with
  | none => url
  | some colon => colon.drop 3

def behindUserinfo (tmp : Bytes) : Bytes :=
  match strchr tmp 0x40 with
  | none => tmp
  | some atSign => atSign.drop 1

@[simp] theorem urlFindScheme_snd (parser : UrlParser) (url : Bytes) :
    (urlFindScheme parser url).2 = behindScheme url := by
  unfold urlFindScheme behindScheme
  split <;> rfl

@[simp] theorem urlFindUserinfo_snd (parser : UrlParser) (tmp : Bytes) :
    (urlFindUserinfo parser tmp).2 = behindUserinfo tmp := by
  unfold urlFindUserinfo behindUserinfo
  split <;> rfl

theorem behindScheme_suffix (url : Bytes) : behindScheme url <:+ url := by
  unfold behindScheme
  split
  · exact List.suffix_refl _
  · rename_i h
    exact (List.drop_suffix ..).trans (strstr_suffix h)

theorem behindUserinfo_suffix (tmp : Bytes) : behindUserinfo tmp <:+ tmp := by
  unfold behindUserinfo
  split
  · exact List.suffix_refl _
  · rename_i h
    exact (List.drop_suffix ..).trans (strchr_suffix h)

/-! ## Ranges inside the URL -/

/-- The pointers with their lengths. -/
def UrlParser.parts (parser : UrlParser) : List (Option Bytes × Nat) :=
  [(parser.scheme, parser.schemeLen), (parser.userinfo, parser.userinfoLen), (parser.host, parser.hostLen),
   (parser.port, parser.portLen), (parser.path, parser.pathLen), (parser.query, parser.queryLen)]

/-- A pointer that is not null is inside the URL, and so are as many characters behind it. -/
def Inside (url : Bytes) (part : Option Bytes × Nat) : Prop :=
  ∀ p, part.1 = some p → p <:+ url ∧ part.2 ≤ p.length

@[simp] theorem inside_none (url : Bytes) (len : Nat) : Inside url (none, len) := fun p h => by cases h

@[simp] theorem inside_some (url p : Bytes) (len : Nat) : Inside url (some p, len) ↔ p <:+ url ∧ len ≤ p.length := by
  simp [Inside]

/-- The first colon is behind the first slash. -/
def PortBehindPath (host : Bytes) : Prop :=
  ∃ front path, host = front ++ 0x2F :: path ∧ 0x2F ∉ front ∧ 0x3A ∉ front ∧ 0x3A ∈ path

theorem portBehindPath_iff {host colon slash : Bytes} (hcolon : strchr host 0x3A = some colon)
    (hslash : strchr host 0x2F = some slash) : PortBehindPath host ↔ colon.length < slash.length := by
  obtain ⟨front, path, rfl, rfl, hfront⟩ := strchr_split hslash
  constructor
  · rintro ⟨front', path', heq, hfront', hnot, -⟩
    obtain ⟨rfl, rfl⟩ := Search.append_cons_inj hfront hfront' heq
    rw [strchr_skip _ hnot, strchr_skip_cons _ (by decide)] at hcolon
    exact Nat.lt_succ_of_le (strchr_suffix hcolon).length_le
  · intro hlt
    have hnot : 0x3A ∉ front := by
      intro hmem
      obtain ⟨found, hfound⟩ := Option.ne_none_iff_exists'.1 (mt strchr_eq_none_iff.1 (not_not.2 hmem))
      rw [strchr_append_of_found _ hfound] at hcolon
      cases hcolon
      rw [List.length_append] at hlt
      omega
    refine ⟨front, path, rfl, hfront, hnot, ?_⟩
    by_contra hpath
    rw [strchr_skip _ hnot, strchr_skip_cons _ (by decide), strchr_eq_none_iff.2 hpath] at hcolon
    cases hcolon

/-- The query is found inside the path, and nothing else of the parser changes. -/
theorem urlFindQuery_spec (parser : UrlParser) {url path : Bytes} (hpath : path <:+ url)
    (hsmall : url.length < 2 ^ 64) :
    ∃ pathLen query queryLen,
      urlFindQuery parser path = { parser with pathLen := pathLen, query := query, queryLen := queryLen } ∧
        pathLen ≤ path.length ∧ Inside url (query, queryLen) := by
  have hlen := hpath.length_le
  unfold urlFindQuery
  cases hquestion : strchr path 0x3F with
  | none => exact ⟨_, _, _, rfl, le_refl _, by simp⟩
  | some question =>
    have hsuffix := strchr_suffix hquestion
    refine ⟨_, _, _, rfl, ptrDiff_le hsuffix (by omega), ?_⟩
    rw [inside_some]
    exact ⟨((List.drop_suffix ..).trans hsuffix).trans hpath, le_refl _⟩

theorem urlFindHost_inside_iff (parser : UrlParser) {url host : Bytes} (hhost : host <:+ url)
    (hsmall : url.length < 2 ^ 64) (hscheme : Inside url (parser.scheme, parser.schemeLen))
    (huserinfo : Inside url (parser.userinfo, parser.userinfoLen)) :
    (∀ part ∈ (urlFindHost parser host).parts, Inside url part) ↔ ¬ PortBehindPath host := by
  have hlen := hhost.length_le
  unfold urlFindHost
  cases hcolon : strchr host 0x3A with
  | none =>
    have hnot : ¬ PortBehindPath host := by
      rintro ⟨front, path, rfl, -, -, hmem⟩
      rw [strchr_eq_none_iff] at hcolon
      exact hcolon (List.mem_append_right _ (List.mem_cons_of_mem _ hmem))
    refine iff_of_true ?_ hnot
    cases hslash : strchr host 0x2F with
    | none => simp [UrlParser.parts, hscheme, huserinfo, hhost]
    | some slash =>
      have hpath := strchr_suffix hslash
      obtain ⟨pathLen, query, queryLen, heq, hpathLen, hquery⟩ := urlFindQuery_spec
        { parser with host := some host, port := none, hostLen := ptrDiff slash host, path := some slash }
        (hpath.trans hhost) hsmall
      simp only [heq]
      simp [UrlParser.parts, hscheme, huserinfo, hhost, hpath.trans hhost, hpathLen, hquery,
        ptrDiff_le hpath (by omega)]
  | some colon =>
    have hport := strchr_suffix hcolon
    have hbehind : colon.drop 1 <:+ url := ((List.drop_suffix ..).trans hport).trans hhost
    cases hslash : strchr host 0x2F with
    | none =>
      have hnot : ¬ PortBehindPath host := by
        rintro ⟨front, path, rfl, -⟩
        rw [strchr_eq_none_iff] at hslash
        exact hslash (List.mem_append_right _ (List.mem_cons_self ..))
      refine iff_of_true ?_ hnot
      simp only [UrlParser.parts, List.forall_mem_cons, inside_some, inside_none, hscheme, huserinfo, hhost, hbehind,
        ptrDiff_le hport (show host.length < 2 ^ 64 by omega)]
      simp
    | some slash =>
      have hpath := strchr_suffix hslash
      obtain ⟨pathLen, query, queryLen, heq, hpathLen, hquery⟩ := urlFindQuery_spec
        { parser with host := some host, hostLen := ptrDiff colon host, port := some (colon.drop 1),
                      portLen := ptrDiff slash (colon.drop 1), path := some slash }
        (hpath.trans hhost) hsmall
      -- the port ends at the slash, so its length wraps around for a colon behind the slash
      rw [portBehindPath_iff hcolon hslash]
      simp only [heq]
      simp only [UrlParser.parts, List.forall_mem_cons, inside_some, hscheme, huserinfo, hhost, hbehind,
        hpath.trans hhost, hpathLen, hquery, ptrDiff_le hport (show host.length < 2 ^ 64 by omega)]
      have hslashLen := hpath.length_le
      have hcolonLe := hport.length_le
      have hcolonLen : 0 < colon.length := by
        obtain ⟨-, rest, -, rfl, -⟩ := strchr_split hcolon
        exact Nat.succ_pos _
      have hdrop : (colon.drop 1).length = colon.length - 1 := List.length_drop ..
      simp only [true_and, List.not_mem_nil, false_implies, implies_true, and_true]
      constructor
      · intro hle hlt
        exact absurd hle (Nat.not_le.2 (lt_ptrDiff (by omega) (by omega)))
      · intro hnot
        have hne : colon.length ≠ slash.length := fun he => by
          obtain ⟨front, rest, hsplit, rfl, -⟩ := strchr_split hcolon
          obtain ⟨front', rest', hsplit', rfl, -⟩ := strchr_split hslash
          have := List.append_inj_right' (hsplit.symm.trans hsplit') he
          cases this
        rw [ptrDiff_of_le (by omega) (by omega)]
        exact Nat.sub_le ..

theorem behindUserinfo_inside (parser : UrlParser) {url tmp : Bytes} (htmp : tmp <:+ url)
    (hsmall : url.length < 2 ^ 64) :
    Inside url ((urlFindUserinfo parser tmp).1.userinfo, (urlFindUserinfo parser tmp).1.userinfoLen) := by
  have hlen := htmp.length_le
  unfold urlFindUserinfo
  split
  · simp
  · rename_i hat
    rw [inside_some]
    exact ⟨htmp, ptrDiff_le (strchr_suffix hat) (by omega)⟩

theorem behindScheme_inside (parser : UrlParser) {url : Bytes} (hsmall : url.length < 2 ^ 64) :
    Inside url ((urlFindScheme parser url).1.scheme, (urlFindScheme parser url).1.schemeLen) := by
  unfold urlFindScheme
  split
  · simp
  · rename_i hcolon
    rw [inside_some]
    exact ⟨List.suffix_refl _, ptrDiff_le (strstr_suffix hcolon) hsmall⟩

theorem urlFindUserinfo_scheme (parser : UrlParser) (tmp : Bytes) :
    (urlFindUserinfo parser tmp).1.scheme = parser.scheme ∧
      (urlFindUserinfo parser tmp).1.schemeLen = parser.schemeLen := by
  unfold urlFindUserinfo
  split <;> exact ⟨rfl, rfl⟩

/-- All ranges that `url_parse` leaves are inside the URL, unless the URL has a host and behind it the first colon
only behind the first slash. -/
theorem urlParse_inside_iff (parser : UrlParser) (url : StoredString) :
    (∀ part ∈ (urlParse parser url.bytes).1.parts, Inside url.bytes part) ↔
      ((behindScheme url.bytes).head? = some 0x2F ∨
        ¬ PortBehindPath (behindUserinfo (behindScheme url.bytes))) := by
  have hscheme := behindScheme_inside parser url.small
  have htmp := behindScheme_suffix url.bytes
  rw [urlParse]
  simp only [urlFindScheme_snd]
  by_cases hpath : (behindScheme url.bytes).head? = some 0x2F
  · rw [if_pos hpath]
    refine iff_of_true ?_ (.inl hpath)
    obtain ⟨pathLen, query, queryLen, heq, hpathLen, hquery⟩ := urlFindQuery_spec
      { (urlFindScheme parser url.bytes).1 with
          userinfo := none, host := none, port := none, path := some (behindScheme url.bytes) } htmp url.small
    simp only [heq]
    simp only [UrlParser.parts, List.forall_mem_cons, inside_some, inside_none, hscheme, htmp, hpathLen, hquery]
    simp
  · rw [if_neg hpath]
    simp only [urlFindUserinfo_snd, hpath, false_or]
    obtain ⟨hkept, hkeptLen⟩ := urlFindUserinfo_scheme (urlFindScheme parser url.bytes).1 (behindScheme url.bytes)
    refine urlFindHost_inside_iff _ ((behindUserinfo_suffix _).trans htmp) url.small ?_
      (behindUserinfo_inside _ htmp url.small)
    rw [hkept, hkeptLen]
    exact hscheme

/-- `h/a:b`, where the port would be behind the slash. -/
theorem urlParse_outside :
    ¬ ∀ part ∈ (urlParse ⟨none, 0, none, 0, none, 0, none, 0, none, 0, none, 0⟩ [0x68, 0x2F, 0x61, 0x3A, 0x62]).1.parts,
      Inside [0x68, 0x2F, 0x61, 0x3A, 0x62] part := by
  intro h
  have hport := h (some [0x62], 18446744073709551613) (by decide)
  rw [inside_some] at hport
  exact absurd hport.2 (by decide)

/-! ## URLs that are put together -/

/-- The components of a URL, the path with its slash. -/
structure UrlParts where
  scheme : Option Bytes
  userinfo : Option Bytes
  host : Bytes
  port : Option Bytes
  path : Option Bytes
  query : Option Bytes
  deriving DecidableEq, Repr

/-- The path and the query. -/
def UrlParts.tail (u : UrlParts) : Bytes := u.path.getD [] ++ u.query.elim [] (0x3F :: ·)

/-- The host with all that is behind it. -/
def UrlParts.fromHost (u : UrlParts) : Bytes := u.host ++ (u.port.elim [] (0x3A :: ·) ++ u.tail)

def UrlParts.fromUserinfo (u : UrlParts) : Bytes := u.userinfo.elim [] (· ++ [0x40]) ++ u.fromHost

/-- `scheme://userinfo@host:port/path?query` -/
def UrlParts.assemble (u : UrlParts) : Bytes := u.scheme.elim [] (· ++ urlSchemeEnd) ++ u.fromUserinfo

def schemeChar (c : UInt8) : Bool :=
  65 ≤ c && c ≤ 90 || 97 ≤ c && c ≤ 122 || 48 ≤ c && c ≤ 57 || c = 0x2B || c = 0x2D || c = 0x2E

/-- Components in which no delimiter stands that would end them, with no second `://` unless there is a scheme. -/
structure Url extends UrlParts where
  scheme_word : ∀ s, scheme = some s → ∀ c ∈ s, schemeChar c = true
  userinfo_plain : ∀ s, userinfo = some s → 0x40 ∉ s ∧ 0x2F ∉ s ∧ 0x3F ∉ s ∧ ¬ urlSchemeEnd <:+: s
  host_nonempty : host ≠ []
  host_plain : 0x2F ∉ host ∧ 0x3A ∉ host ∧ 0x40 ∉ host ∧ 0x3F ∉ host
  port_digits : ∀ s, port = some s → ∀ c ∈ s, 48 ≤ c ∧ c ≤ 57
  path_slash : ∀ s, path = some s → s.head? = some 0x2F ∧ 0x3F ∉ s
  separator : scheme = none → ¬ urlSchemeEnd <:+: toUrlParts.assemble
  nulFree : 0 ∉ toUrlParts.assemble
  small : toUrlParts.assemble.length < 2 ^ 64

/-- The pointer with its length gives the component, or is null if there is none. -/
def ReadsAs (part : Option Bytes × Nat) : Option Bytes → Prop
  | none => part.1 = none
  | some component => ∃ p, part.1 = some p ∧ component <+: p ∧ part.2 = component.length

@[simp] theorem readsAs_none (p : Option Bytes) (len : Nat) : ReadsAs (p, len) none ↔ p = none := Iff.rfl

@[simp] theorem readsAs_some (p : Option Bytes) (len : Nat) (component : Bytes) :
    ReadsAs (p, len) (some component) ↔ ∃ rest, p = some (component ++ rest) ∧ len = component.length := by
  constructor
  · rintro ⟨p', hp, ⟨rest, rfl⟩, hlen⟩
    exact ⟨rest, hp, hlen⟩
  · rintro ⟨rest, hp, hlen⟩
    exact ⟨_, hp, List.prefix_append .., hlen⟩

/-! ## The components one by one -/

section Components

variable (u : Url)

theorem Url.fromUserinfo_suffix : u.fromUserinfo <:+ u.assemble := List.suffix_append ..

theorem Url.fromHost_suffix : u.fromHost <:+ u.assemble := (List.suffix_append ..).trans u.fromUserinfo_suffix

theorem Url.fromUserinfo_small : u.fromUserinfo.length < 2 ^ 64 :=
  Nat.lt_of_le_of_lt u.fromUserinfo_suffix.length_le u.small

theorem Url.fromHost_small : u.fromHost.length < 2 ^ 64 := Nat.lt_of_le_of_lt u.fromHost_suffix.length_le u.small

theorem Url.not_mem_port {ch : UInt8} (hch : ¬ (48 ≤ ch ∧ ch ≤ 57)) {s : Bytes} (hport : u.port = some s) : ch ∉ s :=
  fun hmem => hch (u.port_digits s hport ch hmem)

/-- The scheme always ends at the first `://`. -/
theorem Url.findScheme (parser : UrlParser) :
    (urlFindScheme parser u.assemble).2 = u.fromUserinfo ∧
      ReadsAs ((urlFindScheme parser u.assemble).1.scheme, (urlFindScheme parser u.assemble).1.schemeLen) u.scheme := by
  cases hscheme : u.scheme with
  | none =>
    have hnone : strstr u.assemble urlSchemeEnd = none := Search.find_eq_none_iff.2 (u.separator hscheme)
    have htext : u.assemble = u.fromUserinfo := by rw [UrlParts.assemble, hscheme]; rfl
    rw [urlFindScheme, hnone, htext]
    exact ⟨rfl, rfl⟩
  | some s =>
    have htext : u.assemble = s ++ (urlSchemeEnd ++ u.fromUserinfo) := by
      rw [UrlParts.assemble, hscheme, Option.elim_some, List.append_assoc]
    have hcolon : 0x3A ∉ s := fun hmem => absurd (u.scheme_word s hscheme _ hmem) (by decide)
    have hfind : strstr u.assemble urlSchemeEnd = some (urlSchemeEnd ++ u.fromUserinfo) := by
      rw [htext, strstr, urlSchemeEnd, Search.find_skip _ hcolon]
      exact Search.find_here (List.prefix_append ..)
    have hsmall := u.small
    rw [urlFindScheme, hfind]
    rw [htext] at hsmall ⊢
    refine ⟨rfl, ?_⟩
    rw [readsAs_some]
    exact ⟨_, rfl, ptrDiff_append hsmall⟩

/-- Behind the scheme is never just a path. -/
theorem Url.head?_fromUserinfo : u.fromUserinfo.head? ≠ some 0x2F := by
  have hhost := u.host_plain.1
  obtain ⟨c, cs, hc⟩ := List.exists_cons_of_ne_nil u.host_nonempty
  rw [UrlParts.fromUserinfo, UrlParts.fromHost]
  cases huserinfo : u.userinfo with
  | none =>
    rw [hc] at hhost ⊢
    intro h
    cases h
    exact hhost (List.mem_cons_self ..)
  | some s =>
    have hslash := (u.userinfo_plain s huserinfo).2.1
    cases s with
    | nil => simp
    | cons c' cs' =>
      intro h
      cases h
      exact hslash (List.mem_cons_self ..)

theorem Url.not_mem_fromHost {ch : UInt8} (hhost : ch ∉ u.host) (hcolon : ch ≠ 0x3A) (hdigit : ¬ (48 ≤ ch ∧ ch ≤ 57)) :
    ch ∈ u.fromHost ↔ ch ∈ u.tail := by
  rw [UrlParts.fromHost, List.mem_append, List.mem_append]
  cases hport : u.port with
  | none => simp [hhost]
  | some s => simp [hhost, hcolon, u.not_mem_port hdigit hport]

/-- The userinfo is found if it is there, and one is found that is not there if an `@` stands further behind. -/
theorem Url.findUserinfo_iff (parser : UrlParser) :
    ReadsAs ((urlFindUserinfo parser u.fromUserinfo).1.userinfo, (urlFindUserinfo parser u.fromUserinfo).1.userinfoLen)
        u.userinfo ↔
      (u.userinfo = none → 0x40 ∉ u.tail) := by
  rw [← u.not_mem_fromHost u.host_plain.2.2.1 (by decide) (by decide)]
  have hsmall := u.fromUserinfo_small
  cases huserinfo : u.userinfo with
  | none =>
    have htext : u.fromUserinfo = u.fromHost := by rw [UrlParts.fromUserinfo, huserinfo]; rfl
    rw [htext, ← strchr_eq_none_iff, urlFindUserinfo]
    cases strchr u.fromHost 0x40 <;> simp
  | some s =>
    have htext : u.fromUserinfo = s ++ 0x40 :: u.fromHost := by
      rw [UrlParts.fromUserinfo, huserinfo, Option.elim_some, List.append_assoc]; rfl
    rw [htext] at hsmall ⊢
    rw [urlFindUserinfo, strchr_append (u.userinfo_plain s huserinfo).1, readsAs_some]
    exact iff_of_true ⟨_, rfl, ptrDiff_append hsmall⟩ (by simp)

theorem Url.behindUserinfo_eq (h : u.userinfo = none → 0x40 ∉ u.tail) : behindUserinfo u.fromUserinfo = u.fromHost := by
  rw [← u.not_mem_fromHost u.host_plain.2.2.1 (by decide) (by decide)] at h
  rw [behindUserinfo, UrlParts.fromUserinfo]
  cases huserinfo : u.userinfo with
  | none =>
    rw [Option.elim_none, List.nil_append, strchr_eq_none_iff.2 (h huserinfo)]
  | some s =>
    rw [Option.elim_some, List.append_assoc, List.singleton_append, strchr_append (u.userinfo_plain s huserinfo).1]
    rfl

theorem Url.findQuery (parser : UrlParser) {path : Bytes} (hpath : u.path = some path)
    (hsmall : u.tail.length < 2 ^ 64) :
    ∃ pathLen query queryLen,
      urlFindQuery parser u.tail = { parser with pathLen := pathLen, query := query, queryLen := queryLen } ∧
        ReadsAs (some u.tail, pathLen) u.path ∧ ReadsAs (query, queryLen) u.query := by
  have hquestion := (u.path_slash path hpath).2
  have htail : u.tail = path ++ u.query.elim [] (0x3F :: ·) := by rw [UrlParts.tail, hpath]; rfl
  rw [htail] at hsmall ⊢
  rw [hpath, urlFindQuery]
  cases hquery : u.query with
  | none =>
    rw [Option.elim_none, List.append_nil, strchr_eq_none_iff.2 hquestion]
    exact ⟨_, _, _, rfl, ⟨path, rfl, List.prefix_refl _, rfl⟩, rfl⟩
  | some q =>
    rw [hquery] at hsmall
    rw [Option.elim_some, strchr_append hquestion]
    exact ⟨_, _, _, rfl, ⟨_, rfl, List.prefix_append .., ptrDiff_append hsmall⟩, ⟨q, rfl, List.prefix_refl _, rfl⟩⟩

/-- Where there is a path, a slash is found in front of it. -/
theorem Url.strchr_slash {path : Bytes} (hpath : u.path = some path) : strchr u.fromHost 0x2F = some u.tail := by
  obtain ⟨hhead, -⟩ := u.path_slash path hpath
  obtain ⟨rest, hrest⟩ := List.head?_eq_some_iff.1 hhead
  have htail : u.tail = 0x2F :: (rest ++ u.query.elim [] (0x3F :: ·)) := by rw [UrlParts.tail, hpath, hrest]; rfl
  rw [UrlParts.fromHost, strchr_skip _ u.host_plain.1, htail]
  cases hport : u.port with
  | none => exact strchr_append (List.not_mem_nil) _
  | some s =>
    rw [Option.elim_some]
    refine strchr_append ?_ _
    rw [List.mem_cons, not_or]
    exact ⟨by decide, u.not_mem_port (by decide) hport⟩

theorem urlFindQuery_kept (parser : UrlParser) (path : Bytes) :
    ∃ pathLen query queryLen,
      urlFindQuery parser path = { parser with pathLen := pathLen, query := query, queryLen := queryLen } := by
  unfold urlFindQuery
  split <;> exact ⟨_, _, _, rfl⟩

/-- The search for the host leaves the scheme and the userinfo as they are, and without a path it leaves no query. -/
theorem urlFindHost_kept (parser : UrlParser) (host : Bytes) :
    let p := urlFindHost parser host
    (p.scheme = parser.scheme ∧ p.schemeLen = parser.schemeLen) ∧
      (p.userinfo = parser.userinfo ∧ p.userinfoLen = parser.userinfoLen) ∧ (p.path = none → p.query = none) := by
  unfold urlFindHost
  cases strchr host 0x3A with
  | none =>
    cases strchr host 0x2F with
    | none => exact ⟨⟨rfl, rfl⟩, ⟨rfl, rfl⟩, fun _ => rfl⟩
    | some slash =>
      obtain ⟨_, _, _, heq⟩ := urlFindQuery_kept
        { parser with host := some host, port := none, hostLen := ptrDiff slash host, path := some slash } slash
      simp only [heq]
      simp
  | some colon =>
    cases strchr host 0x2F with
    | none => exact ⟨⟨rfl, rfl⟩, ⟨rfl, rfl⟩, fun _ => rfl⟩
    | some slash =>
      obtain ⟨_, _, _, heq⟩ := urlFindQuery_kept
        { parser with host := some host, hostLen := ptrDiff colon host, port := some (colon.drop 1),
                      portLen := ptrDiff slash (colon.drop 1), path := some slash } slash
      simp only [heq]
      simp

/-- The host, the port, the path and the query are found, unless a colon in the path or in the query is taken for
that in front of a port, or the query has no path in front of it. -/
theorem Url.findHost_iff (parser : UrlParser) :
    let p := urlFindHost parser u.fromHost
    (ReadsAs (p.host, p.hostLen) (some u.host) ∧ ReadsAs (p.port, p.portLen) u.port ∧
        ReadsAs (p.path, p.pathLen) u.path ∧ ReadsAs (p.query, p.queryLen) u.query) ↔
      (u.port = none → 0x3A ∉ u.tail) ∧ (u.path = none → u.query = none) := by
  intro p
  have hsmall := u.fromHost_small
  have hcolon := u.host_plain.2.1
  cases hpath : u.path with
  | none =>
    cases hquery : u.query with
    | some q =>
      -- without a path no query is found
      refine iff_of_false ?_ (by simp)
      rintro ⟨-, -, hnone, q', hq', -⟩
      rw [show p.query = none from (urlFindHost_kept _ _).2.2 hnone] at hq'
      cases hq'
    | none =>
      have htail : u.tail = [] := by rw [UrlParts.tail, hpath, hquery]; rfl
      have hslash : strchr u.fromHost 0x2F = none := by
        rw [strchr_eq_none_iff, u.not_mem_fromHost u.host_plain.1 (by decide) (by decide), htail]
        exact List.not_mem_nil
      refine iff_of_true ?_ (by simp [htail])
      cases hport : u.port with
      | none =>
        have htext : u.fromHost = u.host := by rw [UrlParts.fromHost, hport, htail]; simp
        rw [htext] at hslash
        have hp : p = { parser with host := some u.host, port := none, hostLen := u.host.length,
                                    path := none, query := none } := by
          simp only [p, urlFindHost, htext, strchr_eq_none_iff.2 hcolon, hslash]
        rw [hp]
        exact ⟨⟨_, rfl, List.prefix_refl _, rfl⟩, rfl, rfl, rfl⟩
      | some s =>
        have htext : u.fromHost = u.host ++ 0x3A :: s := by rw [UrlParts.fromHost, hport, htail]; simp
        rw [htext] at hslash hsmall
        have hp : p = { parser with host := some (u.host ++ 0x3A :: s),
                                    hostLen := ptrDiff (0x3A :: s) (u.host ++ 0x3A :: s), port := some s,
                                    portLen := s.length, path := none, query := none } := by
          simp only [p, urlFindHost, htext, strchr_append hcolon, hslash, List.drop_succ_cons, List.drop_zero]
        rw [hp]
        exact ⟨⟨_, rfl, List.prefix_append .., ptrDiff_append hsmall⟩, ⟨s, rfl, List.prefix_refl _, rfl⟩, rfl, rfl⟩
  | some path =>
    have hslash := u.strchr_slash hpath
    have htailSmall : u.tail.length < 2 ^ 64 := Nat.lt_of_le_of_lt (strchr_suffix hslash).length_le hsmall
    cases hport : u.port with
    | none =>
      have htext : u.fromHost = u.host ++ u.tail := by rw [UrlParts.fromHost, hport]; rfl
      rw [htext] at hslash hsmall
      cases hchr : strchr u.tail 0x3A with
      | none =>
        refine iff_of_true ?_ ⟨fun _ => strchr_eq_none_iff.1 hchr, by simp⟩
        obtain ⟨pathLen, query, queryLen, heq, hreadsPath, hreadsQuery⟩ := u.findQuery
          { parser with host := some (u.host ++ u.tail), port := none, hostLen := ptrDiff u.tail (u.host ++ u.tail),
                        path := some u.tail } hpath htailSmall
        rw [← strchr_skip _ hcolon] at hchr
        have hp := Eq.trans (show p = urlFindQuery _ u.tail by simp only [p, urlFindHost, htext, hchr, hslash]) heq
        rw [hp]
        exact ⟨⟨_, rfl, List.prefix_append .., ptrDiff_append hsmall⟩, rfl, hpath ▸ hreadsPath, hreadsQuery⟩
      | some colon =>
        -- what is behind this colon is taken for a port
        have hmem : 0x3A ∈ u.tail := by
          by_contra hnot
          rw [strchr_eq_none_iff.2 hnot] at hchr
          cases hchr
        refine iff_of_false ?_ fun h => h.1 rfl hmem
        rintro ⟨-, hnone, -⟩
        obtain ⟨_, _, _, heq⟩ := urlFindQuery_kept
          { parser with host := some (u.host ++ u.tail), hostLen := ptrDiff colon (u.host ++ u.tail),
                        port := some (colon.drop 1), portLen := ptrDiff u.tail (colon.drop 1), path := some u.tail } u.tail
        rw [← strchr_skip _ hcolon] at hchr
        simp only [p, urlFindHost, htext, hchr, hslash, heq, readsAs_none] at hnone
        cases hnone
    | some s =>
      have htext : u.fromHost = u.host ++ 0x3A :: (s ++ u.tail) := by rw [UrlParts.fromHost, hport]; simp
      rw [htext] at hslash hsmall
      refine iff_of_true ?_ (by simp)
      obtain ⟨pathLen, query, queryLen, heq, hreadsPath, hreadsQuery⟩ := u.findQuery
        { parser with host := some (u.host ++ 0x3A :: (s ++ u.tail)),
                      hostLen := ptrDiff (0x3A :: (s ++ u.tail)) (u.host ++ 0x3A :: (s ++ u.tail)),
                      port := some (s ++ u.tail), portLen := ptrDiff u.tail (s ++ u.tail), path := some u.tail }
        hpath htailSmall
      have hp := Eq.trans (show p = urlFindQuery _ u.tail by
        simp only [p, urlFindHost, htext, strchr_append hcolon, hslash, List.drop_succ_cons, List.drop_zero]) heq
      have hport : (s ++ u.tail).length < 2 ^ 64 := by
        rw [List.length_append, List.length_cons] at hsmall
        omega
      rw [hp]
      exact ⟨⟨_, rfl, List.prefix_append .., ptrDiff_append hsmall⟩,
        ⟨_, rfl, List.prefix_append .., ptrDiff_append hport⟩, hpath ▸ hreadsPath, hreadsQuery⟩

end Components

/-! ## The round trip -/

/-- No colon or `@` in the path or the query can be taken for one in front of them, and a query has a path in front. -/
def UrlParts.Unambiguous (u : UrlParts) : Prop :=
  (u.userinfo = none → 0x40 ∉ u.tail) ∧ (u.port = none → 0x3A ∉ u.tail) ∧ (u.path = none → u.query = none)

/-- `url_parse` gives the components of a URL, and null pointers for those that it does not have, exactly if the URL
is unambiguous. -/
theorem urlParse_components_iff (parser : UrlParser) (u : Url) :
    List.Forall₂ ReadsAs (urlParse parser u.assemble).1.parts
        [u.scheme, u.userinfo, some u.host, u.port, u.path, u.query] ↔
      u.Unambiguous := by
  obtain ⟨hbehind, hscheme⟩ := u.findScheme parser
  have huserinfo := u.findUserinfo_iff (urlFindScheme parser u.assemble).1
  obtain ⟨hkept, hkeptLen⟩ := urlFindUserinfo_scheme (urlFindScheme parser u.assemble).1 u.fromUserinfo
  rw [urlParse]
  simp only [hbehind]
  rw [if_neg u.head?_fromUserinfo]
  simp only [urlFindUserinfo_snd]
  generalize hfound : (urlFindUserinfo (urlFindScheme parser u.assemble).1 u.fromUserinfo).1 = found at *
  obtain ⟨⟨hs, hsLen⟩, ⟨hu, huLen⟩, -⟩ := urlFindHost_kept found (behindUserinfo u.fromUserinfo)
  simp only [UrlParser.parts, List.forall₂_cons, List.forall₂_nil_left_iff, and_true, hs, hsLen, hu, huLen,
    hkept, hkeptLen]
  rw [huserinfo, UrlParts.Unambiguous]
  constructor
  · rintro ⟨-, hat, hrest⟩
    rw [u.behindUserinfo_eq hat] at hrest
    exact ⟨hat, (u.findHost_iff found).1 hrest⟩
  · rintro ⟨hat, hrest⟩
    rw [u.behindUserinfo_eq hat]
    exact ⟨hscheme, hat, (u.findHost_iff found).2 hrest⟩

/-- `h/a:b`, a host and a path. -/
def colonInPath : Url where
  scheme := none
  userinfo := none
  host := [0x68]
  port := none
  path := some [0x2F, 0x61, 0x3A, 0x62]
  query := none
  scheme_word := by simp
  userinfo_plain := by simp
  host_nonempty := by simp
  host_plain := by decide
  port_digits := by simp
  path_slash := by simp
  separator := by decide
  nulFree := by decide
  small := by decide

/-- A port is read from the path. -/
theorem urlParse_components_colonInPath :
    ¬ List.Forall₂ ReadsAs
        (urlParse ⟨none, 0, none, 0, none, 0, none, 0, none, 0, none, 0⟩ colonInPath.assemble).1.parts
        [colonInPath.scheme, colonInPath.userinfo, some colonInPath.host, colonInPath.port, colonInPath.path,
          colonInPath.query] := by
  intro h
  obtain ⟨-, h⟩ := List.forall₂_cons.1 h
  obtain ⟨-, h⟩ := List.forall₂_cons.1 h
  obtain ⟨-, h⟩ := List.forall₂_cons.1 h
  obtain ⟨hport, -⟩ := List.forall₂_cons.1 h
  have hnone : (urlParse ⟨none, 0, none, 0, none, 0, none, 0, none, 0, none, 0⟩ colonInPath.assemble).1.port = none :=
    hport
  exact absurd hnone (by decide)

end CMx
