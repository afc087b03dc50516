import ApiStarter.Text.Lowercase
import ApiStarter.Web.FormUrlencoded

/-!
# Parsing URLs

The parser a browser resolves an address with, relative to the URL of a page.
It reads the address from left to right in states: scheme, authority, path,
query and fragment, each of which hands the rest over to a later one.  From the
path on nothing can fail, and the scheme, the host and the port stay as they are.
-/

namespace Web

/-- The path of a URL: a text that is not taken apart, or segments. -/
inductive UrlPath
  | whole (text : String)
  | segments (list : List String)
  deriving DecidableEq

structure Url where
  scheme : String
  username : String
  password : String
  host : Option String
  port : Option ℕ
  path : UrlPath
  query : Option String
  fragment : Option String
  deriving DecidableEq

/-- Hosts are parsed by rules of their own; a host is given by its serialization. -/
abbrev HostParser := (special : Bool) → String → Option String

/-! ## Characters -/

def isC0Control (c : Char) : Bool := c.toNat < 32

def isTabOrNewline (c : Char) : Bool := c == '\t' || c == '\n' || c == '\r'

/-- The C0 control percent-encode set -/
def c0Set (c : Char) : Bool := c.toNat < 32 || 126 < c.toNat

def fragmentSet (c : Char) : Bool := c0Set c || c.toNat ∈ [0x20, 0x22, 0x3C, 0x3E, 0x60]

def querySet (c : Char) : Bool := c0Set c || c.toNat ∈ [0x20, 0x22, 0x23, 0x3C, 0x3E]

def specialQuerySet (c : Char) : Bool := querySet c || c.toNat == 0x27

def pathSet (c : Char) : Bool := querySet c || c.toNat ∈ [0x3F, 0x5E, 0x60, 0x7B, 0x7D]

def userinfoSet (c : Char) : Bool :=
  pathSet c || c.toNat ∈ [0x2F, 0x3A, 0x3B, 0x3D, 0x40, 0x5B, 0x5C, 0x5D, 0x7C]

/-- UTF-8 percent-encode -/
def encodeWith (set : Char → Bool) (text : List Char) : List Char :=
  text.flatMap fun c ↦ if set c then (String.utf8EncodeChar c).flatMap percentEncode else [c]

/-! ## Special schemes -/

def specialSchemes : List (String × Option ℕ) :=
  [("ftp", some 21), ("file", none), ("http", some 80), ("https", some 443), ("ws", some 80),
    ("wss", some 443)]

def isSpecial (scheme : String) : Bool := specialSchemes.any fun s ↦ s.1 == scheme

def defaultPort (scheme : String) : Option ℕ :=
  (specialSchemes.find? fun s ↦ s.1 == scheme).bind Prod.snd

/-- A slash, or in special URLs a backslash. -/
def isSlash (special : Bool) (c : Char) : Bool := c == '/' || special && c == '\\'

/-! ## Fragment, query and path -/

namespace Url

def special (u : Url) : Bool := isSpecial u.scheme

def fragmentState (u : Url) (rest : List Char) : Url :=
  { u with fragment := some (String.ofList (encodeWith fragmentSet rest)) }

/-- The fragment when there is one. -/
def fragmentAfter (u : Url) : List Char → Url
  | [] => u
  | _ :: rest => u.fragmentState rest

def queryState (u : Url) (rest : List Char) : Url :=
  let set := if u.special then specialQuerySet else querySet
  let query := encodeWith set (rest.takeWhile (· ≠ '#'))
  { u with query := some (String.ofList query) }.fragmentAfter (rest.dropWhile (· ≠ '#'))

/-- A letter and a colon or a bar, as `C:`. -/
def isDriveLetter : List Char → Bool
  | [c, d] => c.isAlpha && (d == ':' || d == '|')
  | _ => false

def isNormalizedDriveLetter : List Char → Bool
  | [c, ':'] => c.isAlpha
  | _ => false

/-- A drive letter that ends the path segment. -/
def startsWithDriveLetter : List Char → Bool
  | [c, d] => isDriveLetter [c, d]
  | c :: d :: e :: _ => isDriveLetter [c, d] && (e == '/' || e == '\\' || e == '?' || e == '#')
  | _ => false

/-- Shorten the path. -/
def shorten (u : Url) : Url :=
  match u.path with
  | .whole _ => u
  | .segments list =>
      if u.scheme == "file" && list.length == 1 &&
          list.all fun s ↦ isNormalizedDriveLetter s.toList then u
      else { u with path := .segments list.dropLast }

def append (u : Url) (segment : List Char) : Url :=
  match u.path with
  | .whole _ => u
  | .segments list => { u with path := .segments (list ++ [String.ofList segment]) }

def isSingleDot (segment : List Char) : Bool :=
  segment.map Char.toLower ∈ [".".toList, "%2e".toList]

def isDoubleDot (segment : List Char) : Bool :=
  segment.map Char.toLower ∈ ["..".toList, ".%2e".toList, "%2e.".toList, "%2e%2e".toList]

/-- The segment is over, by a slash or by the end of the path. -/
def endSegment (u : Url) (segment : List Char) (slash : Bool) : Url :=
  if isDoubleDot segment then
    if slash then u.shorten else u.shorten.append []
  else if isSingleDot segment then
    if slash then u else u.append []
  else if u.scheme == "file" && u.path == .segments [] && isDriveLetter segment then
    u.append (segment.take 1 ++ [':'])
  else u.append segment

def pathState (u : Url) (segment : List Char) : List Char → Url
  | [] => u.endSegment segment false
  | c :: rest =>
      if isSlash u.special c then (u.endSegment segment true).pathState [] rest
      else if c = '?' then (u.endSegment segment false).queryState rest
      else if c = '#' then (u.endSegment segment false).fragmentState rest
      else u.pathState (segment ++ encodeWith pathSet [c]) rest

def pathStart (u : Url) (rest : List Char) : Url :=
  match rest with
  | [] => if u.special then u.pathState [] [] else u
  | c :: rest' =>
      if isSlash u.special c then u.pathState [] rest'
      else if u.special then u.pathState [] rest
      else if c = '?' then u.queryState rest'
      else if c = '#' then u.fragmentState rest'
      else u.pathState [] rest

/-- The path of a URL whose path is not taken apart. -/
def wholePathState (u : Url) (rest : List Char) : Url :=
  let text := rest.takeWhile fun c ↦ c ≠ '?' && c ≠ '#'
  let rest := rest.dropWhile fun c ↦ c ≠ '?' && c ≠ '#'
  let path := if text.getLast? = some ' ' ∧ rest ≠ [] then
      encodeWith c0Set text.dropLast ++ "%20".toList
    else encodeWith c0Set text
  let u := { u with path := .whole (String.ofList path) }
  match rest with
  | '?' :: rest => u.queryState rest
  | _ :: rest => u.fragmentState rest
  | [] => u

/-! ## Authority -/

/-- The host, and the text after the colon behind it. -/
def hostAndPort (inBrackets : Bool) : List Char → List Char × Option (List Char)
  | [] => ([], none)
  | c :: rest =>
      if c = ':' ∧ inBrackets = false then ([], some rest)
      else
        let inBrackets := if c = '[' then true else if c = ']' then false else inBrackets
        let (host, port) := hostAndPort inBrackets rest
        (c :: host, port)

/-- The port that is written, `none` when it is no port. -/
def portOf (scheme : String) (digits : List Char) : Option (Option ℕ) :=
  if digits.all Char.isDigit then
    if digits = [] then some none
    else
      let port := digits.foldl (fun n c ↦ 10 * n + (c.toNat - 48)) 0
      if 65535 < port then none
      else some (if defaultPort scheme = some port then none else some port)
  else none

variable (parseHost : HostParser)

def hostState (u : Url) (text rest : List Char) : Option Url :=
  match hostAndPort false text with
  | (host, port) =>
      if host = [] ∧ (u.special = true ∨ port.isSome = true) then none
      else do
        let host ← parseHost u.special (String.ofList host)
        let port ← portOf u.scheme (port.getD [])
        some ({ u with host := some host, port := port }.pathStart rest)

def isAuthorityEnd (special : Bool) (c : Char) : Bool :=
  isSlash special c || c == '?' || c == '#'

def authorityState (u : Url) (rest : List Char) : Option Url :=
  let authority := rest.takeWhile fun c ↦ !isAuthorityEnd u.special c
  let rest := rest.dropWhile fun c ↦ !isAuthorityEnd u.special c
  let host := authority.rtakeWhile (· ≠ '@')
  let userinfo := (authority.rdropWhile (· ≠ '@')).dropLast
  if '@' ∈ authority then
    if host = [] then none
    else hostState parseHost { u with
      username := String.ofList (encodeWith userinfoSet (userinfo.takeWhile (· ≠ ':')))
      password := String.ofList (encodeWith userinfoSet ((userinfo.dropWhile (· ≠ ':')).drop 1)) }
      host rest
  else hostState parseHost u authority rest

/-- The special authority ignore slashes state -/
def ignoreSlashes (u : Url) (rest : List Char) : Option Url :=
  u.authorityState parseHost (rest.dropWhile fun c ↦ c == '/' || c == '\\')

/-! ## File URLs -/

def fileHost (u : Url) (rest : List Char) : Option Url :=
  let text := rest.takeWhile fun c ↦ !(isAuthorityEnd true c)
  let rest' := rest.dropWhile fun c ↦ !(isAuthorityEnd true c)
  if isDriveLetter text then some (u.pathState text rest')
  else if text = [] then some ({ u with host := some "" }.pathStart rest')
  else do
    let host ← parseHost true (String.ofList text)
    some ({ u with host := some (if host = "localhost" then "" else host) }.pathStart rest')

/-- The drive letter that the path of a file URL begins with. -/
def drive (base : Url) : List String :=
  match base.path with
  | .segments (s :: _) => if isNormalizedDriveLetter s.toList then [s] else []
  | _ => []

def fileSlash (base u : Url) (rest : List Char) : Option Url :=
  match rest with
  | c :: rest' =>
      if isSlash true c then u.fileHost parseHost rest'
      else some (fromBase.pathState [] rest)
  | [] => some (fromBase.pathState [] [])
where
  fromBase : Url :=
    if base.scheme == "file" then
      let path := if startsWithDriveLetter rest then [] else drive base
      { u with host := base.host, path := .segments path }
    else u

def fileState (base : Url) (rest : List Char) : Option Url :=
  let u : Url := ⟨"file", "", "", some "", none, .segments [], none, none⟩
  let fromBase : Url := { u with host := base.host, path := base.path, query := base.query }
  match rest with
  | [] => some (if base.scheme == "file" then fromBase else u.pathState [] [])
  | c :: rest' =>
      if isSlash true c then fileSlash parseHost base u rest'
      else if base.scheme == "file" then
        if c = '?' then some ({ fromBase with query := none }.queryState rest')
        else if c = '#' then some (fromBase.fragmentState rest')
        else if startsWithDriveLetter rest then
          some ({ fromBase with path := .segments [], query := none }.pathState [] rest)
        else some ({ fromBase with query := none }.shorten.pathState [] rest)
      else some (u.pathState [] rest)

/-! ## Relative addresses -/

def relativeSlash (base : Url) (rest : List Char) : Option Url :=
  let u : Url := ⟨base.scheme, "", "", none, none, .segments [], none, none⟩
  let fromBase : Url := { u with
    username := base.username
    password := base.password
    host := base.host
    port := base.port }
  match rest with
  | [] => some (fromBase.pathState [] [])
  | c :: rest' =>
      if base.special = true ∧ isSlash true c = true then u.ignoreSlashes parseHost rest'
      else if c = '/' then u.authorityState parseHost rest'
      else some (fromBase.pathState [] rest)

def relativeState (base : Url) (rest : List Char) : Option Url :=
  let u : Url := { base with fragment := none }
  match rest with
  | [] => some u
  | c :: rest' =>
      if isSlash base.special c then relativeSlash parseHost base rest'
      else if c = '?' then some ({ u with query := none }.queryState rest')
      else if c = '#' then some (u.fragmentState rest')
      else some ({ u with query := none }.shorten.pathState [] rest)

/-! ## Scheme -/

/-- The scheme the address begins with, and what follows its colon. -/
def schemeOf (text : List Char) : Option (String × List Char) :=
  let isSchemeChar (c : Char) : Bool := c.isAlphanum || c == '+' || c == '-' || c == '.'
  match text with
  | [] => none
  | c :: _ =>
      if c.isAlpha then
        match text.dropWhile isSchemeChar with
        | ':' :: rest => some (String.ofList ((text.takeWhile isSchemeChar).map Char.toLower), rest)
        | _ => none
      else none

def skipTwoSlashes : List Char → List Char
  | '/' :: '/' :: rest => rest
  | rest => rest

def schemeState (base : Url) (scheme : String) (rest : List Char) : Option Url :=
  let u : Url := ⟨scheme, "", "", none, none, .segments [], none, none⟩
  if scheme = "file" then fileState parseHost base rest
  else if isSpecial scheme then
    if base.scheme = scheme ∧ ¬ "//".toList <+: rest then relativeState parseHost base rest
    else u.ignoreSlashes parseHost (skipTwoSlashes rest)
  else
    match rest with
    | '/' :: '/' :: rest => u.authorityState parseHost rest
    | '/' :: rest => some (u.pathState [] rest)
    | _ => some (u.wholePathState rest)

def noSchemeState (base : Url) (rest : List Char) : Option Url :=
  match base.path with
  | .whole _ =>
      match rest with
      | '#' :: rest => some ({ base with fragment := none }.fragmentState rest)
      | _ => none
  | .segments _ =>
      if base.scheme = "file" then fileState parseHost base rest
      else relativeState parseHost base rest

/-- The address without the blanks at its ends and the line breaks inside. -/
def clean (address : String) : List Char :=
  (Text.strip (fun c ↦ isC0Control c || c == ' ') address.toList).filter fun c ↦ !isTabOrNewline c

/-- The URL that the address stands for on the page with the base URL. -/
def resolve (base : Url) (address : String) : Option Url :=
  match schemeOf (clean address) with
  | some (scheme, rest) => schemeState parseHost base scheme rest
  | none => noSchemeState parseHost base (clean address)

/-! ## What stays as it is -/

/-- The URLs have the same scheme, host and port. -/
structure SameOrigin (u v : Url) : Prop where
  scheme : u.scheme = v.scheme
  host : u.host = v.host
  port : u.port = v.port

variable {u v base : Url}

theorem SameOrigin.trans {w : Url} (h : SameOrigin u v) (h' : SameOrigin v w) : SameOrigin u w where
  scheme := h.scheme.trans h'.scheme
  host := h.host.trans h'.host
  port := h.port.trans h'.port

theorem sameOrigin_fragmentState (u : Url) (rest : List Char) :
    SameOrigin (u.fragmentState rest) u := ⟨rfl, rfl, rfl⟩

theorem sameOrigin_queryState (u : Url) (rest : List Char) : SameOrigin (u.queryState rest) u := by
  unfold queryState
  cases rest.dropWhile (· ≠ '#') with
  | nil => exact ⟨rfl, rfl, rfl⟩
  | cons c rest => exact ⟨rfl, rfl, rfl⟩

theorem sameOrigin_shorten (u : Url) : SameOrigin u.shorten u := by
  unfold shorten
  split
  · exact ⟨rfl, rfl, rfl⟩
  · split
    · exact ⟨rfl, rfl, rfl⟩
    · exact ⟨rfl, rfl, rfl⟩

theorem sameOrigin_append (u : Url) (segment : List Char) : SameOrigin (u.append segment) u := by
  unfold append
  split
  · exact ⟨rfl, rfl, rfl⟩
  · exact ⟨rfl, rfl, rfl⟩

theorem sameOrigin_endSegment (u : Url) (segment : List Char) (slash : Bool) :
    SameOrigin (u.endSegment segment slash) u := by
  unfold endSegment
  split
  · split
    · exact sameOrigin_shorten u
    · exact (sameOrigin_append _ _).trans (sameOrigin_shorten u)
  · split
    · split
      · exact ⟨rfl, rfl, rfl⟩
      · exact sameOrigin_append u _
    · split
      · exact sameOrigin_append u _
      · exact sameOrigin_append u _

/-- Whatever the path is, it does not touch the scheme, the host and the port. -/
theorem sameOrigin_pathState (u : Url) (segment rest : List Char) :
    SameOrigin (u.pathState segment rest) u := by
  induction rest generalizing u segment with
  | nil => exact sameOrigin_endSegment u segment false
  | cons c rest ih =>
      rw [pathState]
      split
      · exact (ih _ _).trans (sameOrigin_endSegment u segment true)
      · split
        · exact (sameOrigin_queryState _ _).trans (sameOrigin_endSegment u segment false)
        · split
          · exact (sameOrigin_fragmentState _ _).trans (sameOrigin_endSegment u segment false)
          · exact ih u _

/-! ## Rooted addresses -/

/-- The address begins with one slash. -/
def Rooted (text : List Char) : Prop :=
  ∃ rest, text = '/' :: rest ∧ ∀ c ∈ rest.head?, c ≠ '/' ∧ c ≠ '\\'

theorem Rooted.strip {blank : Char → Bool} (hblank : blank '/' = false) {text : List Char}
    (h : Rooted text) : Rooted (Text.strip blank text) := by
  obtain ⟨rest, rfl, hnext⟩ := h
  have hstrip : Text.strip blank ('/' :: rest) = ('/' :: rest).rdropWhile blank := by
    rw [Text.strip, List.dropWhile_cons_of_neg (by simp [hblank])]
  have hne : ('/' :: rest).rdropWhile blank ≠ [] := by
    intro hnil
    have hall := List.rdropWhile_eq_nil_iff.mp hnil '/' List.mem_cons_self
    simp [hblank] at hall
  obtain ⟨tail, htail⟩ := List.rdropWhile_prefix blank ('/' :: rest)
  rw [hstrip]
  cases hfront : ('/' :: rest).rdropWhile blank with
  | nil => exact absurd hfront hne
  | cons c front =>
      rw [hfront, List.cons_append] at htail
      obtain ⟨rfl, rfl⟩ := List.cons.inj htail
      refine ⟨front, rfl, fun d hd ↦ hnext d ?_⟩
      rw [List.head?_append, Option.mem_def.mp hd]
      rfl

theorem clean_eq_strip {address : String}
    (hplain : ∀ c ∈ address.toList, isTabOrNewline c = false) :
    clean address = Text.strip (fun c ↦ isC0Control c || c == ' ') address.toList := by
  apply List.filter_eq_self.mpr
  intro c hc
  have hmem : c ∈ address.toList.dropWhile fun c ↦ isC0Control c || c == ' ' :=
    (List.rdropWhile_prefix _ _).subset hc
  rw [hplain c ((List.dropWhile_suffix _).subset hmem)]
  rfl

/-- A rooted address stays on the page's scheme, host and port. -/
theorem resolve_of_rooted (hscheme : base.scheme ≠ "file") {segments : List String}
    (hpath : base.path = .segments segments) {address : String}
    (hplain : ∀ c ∈ address.toList, isTabOrNewline c = false) (hrooted : Rooted address.toList) :
    ∃ u, resolve parseHost base address = some u ∧ SameOrigin u base := by
  have hstrip : Rooted (Text.strip (fun c ↦ isC0Control c || c == ' ') address.toList) :=
    hrooted.strip rfl
  obtain ⟨rest, hrest, hnext⟩ := hstrip
  rw [← clean_eq_strip hplain] at hrest
  have hnone : schemeOf ('/' :: rest) = none := rfl
  have hslash : isSlash base.special '/' = true := by simp [isSlash]
  rw [resolve, hrest, hnone]
  simp only [noSchemeState, hpath, if_neg hscheme, relativeState, hslash, if_true]
  cases rest with
  | nil => exact ⟨_, rfl, (sameOrigin_pathState _ _ _).trans ⟨rfl, rfl, rfl⟩⟩
  | cons c rest =>
      obtain ⟨hne, hne'⟩ := hnext c rfl
      have hslash' : ¬(base.special = true ∧ isSlash true c = true) := by simp [isSlash, hne, hne']
      simp only [relativeSlash, if_neg hslash', if_neg hne]
      exact ⟨_, rfl, (sameOrigin_pathState _ _ _).trans ⟨rfl, rfl, rfl⟩⟩

end Url

/-! ## Origins -/

/-- A tuple origin, which the special schemes have, that of files apart. -/
structure Origin where
  scheme : String
  host : String
  port : Option ℕ
  scheme_mem : scheme ∈ ["ftp", "http", "https", "ws", "wss"]

namespace Origin

def url (o : Origin) : Url :=
  ⟨o.scheme, "", "", some o.host, o.port, .segments [""], none, none⟩

/-- The address, resolved against the origin, stays on its scheme, host and port. -/
def Keeps (o : Origin) (parseHost : HostParser) (address : String) : Prop :=
  ∃ u, Url.resolve parseHost o.url address = some u ∧ u.SameOrigin o.url

theorem keeps_of_rooted (o : Origin) (parseHost : HostParser) {address : String}
    (hplain : ∀ c ∈ address.toList, isTabOrNewline c = false)
    (hrooted : Url.Rooted address.toList) : o.Keeps parseHost address := by
  apply Url.resolve_of_rooted parseHost _ rfl hplain hrooted
  intro hfile
  have hmem : "file" ∈ ["ftp", "http", "https", "ws", "wss"] := hfile ▸ o.scheme_mem
  exact absurd hmem (by decide)

end Origin

end Web
