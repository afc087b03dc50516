import ApiStarter.Web.Url
import Mathlib.Data.Bool.AllAny

/-!
# Well-formed URLs

What the parser returns for an address with a remote host: nothing in it is left
to encode, no path segment is a dot, the port is not the default one, and the
host is its own text.
-/

namespace Web

/-- A visible ASCII character. -/
def IsVisible (c : Char) : Prop := 32 < c.toNat ∧ c.toNat < 127

instance (c : Char) : Decidable (IsVisible c) :=
  inferInstanceAs (Decidable (32 < c.toNat ∧ c.toNat < 127))

/-! ## Nothing left to encode -/

/-- No character of the text is encoded. -/
def Encoded (set : Char → Bool) (text : List Char) : Prop := ∀ c ∈ text, set c = false

theorem encodeWith_of_encoded {set : Char → Bool} {text : List Char} (h : Encoded set text) :
    encodeWith set text = text := by
  induction text with
  | nil => rfl
  | cons c text ih =>
      have hc : set c = false := h c List.mem_cons_self
      have hrest : Encoded set text := fun d hd ↦ h d (List.mem_cons_of_mem c hd)
      have ih := ih hrest
      unfold encodeWith at ih ⊢
      rw [List.flatMap_cons, hc, ih]
      rfl

/-- The characters that encoded bytes are written with. -/
def digitChars : List Char := '%' :: (List.range 16).map hexDigit

theorem mem_digitChars_of_mem_percentEncode {b : UInt8} {c : Char} (h : c ∈ percentEncode b) :
    c ∈ digitChars := by
  have hb := b.toNat_lt
  unfold percentEncode at h
  rcases List.mem_cons.mp h with rfl | h
  · exact List.mem_cons_self
  · apply List.mem_cons_of_mem
    rcases List.mem_cons.mp h with rfl | h
    · exact List.mem_map_of_mem (List.mem_range.mpr (by omega))
    · obtain rfl := List.mem_singleton.mp h
      exact List.mem_map_of_mem (List.mem_range.mpr (by omega))

/-- The set leaves digits alone. -/
def SparesDigits (set : Char → Bool) : Prop := ∀ c ∈ digitChars, set c = false

theorem encoded_encodeWith {set : Char → Bool} (hset : SparesDigits set) (text : List Char) :
    Encoded set (encodeWith set text) := by
  intro c hc
  obtain ⟨d, -, hd⟩ := List.mem_flatMap.mp hc
  cases h : set d with
  | true =>
      rw [h, if_pos rfl] at hd
      obtain ⟨b, -, hb⟩ := List.mem_flatMap.mp hd
      exact hset c (mem_digitChars_of_mem_percentEncode hb)
  | false =>
      rw [h] at hd
      obtain rfl : c = d := by simpa using hd
      exact h

theorem sparesDigits_fragmentSet : SparesDigits fragmentSet := by
  unfold SparesDigits
  exact List.all_iff_forall_prop.mp (by decide)

theorem sparesDigits_specialQuerySet : SparesDigits specialQuerySet := by
  unfold SparesDigits
  exact List.all_iff_forall_prop.mp (by decide)

theorem sparesDigits_pathSet : SparesDigits pathSet := by
  unfold SparesDigits
  exact List.all_iff_forall_prop.mp (by decide)

theorem sparesDigits_userinfoSet : SparesDigits userinfoSet := by
  unfold SparesDigits
  exact List.all_iff_forall_prop.mp (by decide)

/-! ## Hosts -/

/-- A character that has no other meaning in the text of a host. -/
def isHostChar (c : Char) : Bool :=
  decide (IsVisible c) && decide (c.toNat ∉ [0x23, 0x2F, 0x3A, 0x3F, 0x40, 0x5B, 0x5C, 0x5D])

/-- A domain or an IPv4 address, or an IPv6 address in brackets. -/
inductive HostText : List Char → Prop
  | name {text : List Char} (h : ∀ c ∈ text, isHostChar c = true) : HostText text
  | bracketed {text : List Char} (h : ∀ c ∈ text, isHostChar c = true ∨ c = ':') :
      HostText ('[' :: text ++ [']'])

/-- The parser of hosts has this host as its own text. -/
structure HostParser.Settles (parseHost : HostParser) (host : String) : Prop where
  ne_empty : host ≠ ""
  text : HostText host.toList
  again : parseHost true host = some host

/-- What is known of the hosts of special URLs. -/
def HostParser.Documented (parseHost : HostParser) : Prop :=
  ∀ text host, parseHost true text = some host → parseHost.Settles host

/-- The schemes whose URLs have a remote host. -/
def remoteSchemes : List String := ["ftp", "http", "https", "ws", "wss"]

namespace Url

/-! ## Paths -/

/-- A path segment as the parser leaves it in a URL whose scheme is special. -/
structure IsSegment (segment : List Char) : Prop where
  encoded : ∀ c ∈ segment, pathSet c = false ∧ isSlash true c = false
  single : isSingleDot segment = false
  double : isDoubleDot segment = false

/-- The texts behind the path are ones that the parser leaves. -/
structure EncodedTail (query fragment : Option String) : Prop where
  query : ∀ q ∈ query, Encoded specialQuerySet q.toList
  fragment : ∀ f ∈ fragment, Encoded fragmentSet f.toList

/-- The URL with another path, query and fragment. -/
def withPath (u : Url) (segments : List String) (query fragment : Option String) : Url :=
  { u with path := .segments segments, query := query, fragment := fragment }

variable {parseHost : HostParser} {u : Url} {segments : List String}

theorem special_withPath (u : Url) (segments : List String) (query fragment : Option String) :
    (u.withPath segments query fragment).special = u.special := rfl

theorem fragmentState_withPath (u : Url) (segments : List String) (query fragment : Option String)
    (rest : List Char) : ∃ f, (u.withPath segments query fragment).fragmentState rest =
      u.withPath segments query (some f) ∧ Encoded fragmentSet f.toList := by
  refine ⟨_, rfl, ?_⟩
  rw [String.toList_ofList]
  exact encoded_encodeWith sparesDigits_fragmentSet rest

theorem queryState_withPath (hspecial : u.special = true) (segments : List String)
    (rest : List Char) : ∃ query fragment, (u.withPath segments none none).queryState rest =
      u.withPath segments query fragment ∧ EncodedTail query fragment := by
  have hquery : Encoded specialQuerySet (String.ofList
      (encodeWith specialQuerySet (rest.takeWhile (· ≠ '#')))).toList := by
    rw [String.toList_ofList]
    exact encoded_encodeWith sparesDigits_specialQuerySet _
  unfold queryState
  rw [special_withPath, hspecial, if_pos rfl]
  cases rest.dropWhile (· ≠ '#') with
  | nil =>
      refine ⟨_, none, rfl, fun q hq ↦ ?_, fun f hf ↦ by cases hf⟩
      exact Option.mem_some.mp hq ▸ hquery
  | cons c rest =>
      obtain ⟨f, hf, hencoded⟩ := fragmentState_withPath u segments (some _) none rest
      refine ⟨_, some f, hf, fun q hq ↦ ?_, fun g hg ↦ ?_⟩
      · exact Option.mem_some.mp hq ▸ hquery
      · exact Option.mem_some.mp hg ▸ hencoded

/-- The path with the segment at its end. -/
theorem endSegment_withPath (hfile : u.scheme ≠ "file") (hsegments : ∀ s ∈ segments,
    IsSegment s.toList) {segment : List Char}
    (hencoded : ∀ c ∈ segment, pathSet c = false ∧ isSlash true c = false) (slash : Bool) :
    ∃ segments', (u.withPath segments none none).endSegment segment slash =
        u.withPath segments' none none ∧
      (∀ s ∈ segments', IsSegment s.toList) ∧ (slash = false → segments' ≠ []) := by
  have hempty : IsSegment "".toList := ⟨by simp, by decide, by decide⟩
  have hscheme : (u.scheme == "file") = false := by simpa using hfile
  have hshorten : (u.withPath segments none none).shorten =
      u.withPath segments.dropLast none none := by
    simp [shorten, withPath, hscheme]
  have hfront : ∀ s ∈ segments.dropLast, IsSegment s.toList := fun s hs ↦
    hsegments s ((List.dropLast_sublist segments).subset hs)
  have happend {list : List String} (hlist : ∀ s ∈ list, IsSegment s.toList) :
      ∀ s ∈ list ++ [""], IsSegment s.toList := by
    intro s hs
    rcases List.mem_append.mp hs with hs | hs
    · exact hlist s hs
    · exact List.mem_singleton.mp hs ▸ hempty
  unfold endSegment
  split
  · split
    · exact ⟨_, hshorten, hfront, by simp [*]⟩
    · rw [hshorten]
      exact ⟨_, rfl, happend hfront, by simp⟩
  next hdouble =>
    split
    · split
      · exact ⟨_, rfl, hsegments, by simp [*]⟩
      · exact ⟨_, rfl, happend hsegments, by simp⟩
    next hsingle =>
      have hdrive : ((u.withPath segments none none).scheme == "file" &&
          (u.withPath segments none none).path == .segments [] && isDriveLetter segment) =
            false := by
        simp [withPath, hscheme]
      rw [hdrive]
      refine ⟨segments ++ [String.ofList segment], rfl, ?_, by simp⟩
      intro s hs
      rcases List.mem_append.mp hs with hs | hs
      · exact hsegments s hs
      · obtain rfl := List.mem_singleton.mp hs
        rw [String.toList_ofList]
        exact ⟨hencoded, by simpa using hsingle, by simpa using hdouble⟩

theorem encoded_of_mem_encode {segment : List Char}
    (hsegment : ∀ c ∈ segment, pathSet c = false ∧ isSlash true c = false) {c : Char}
    (hslash : isSlash true c = false) :
    ∀ d ∈ segment ++ encodeWith pathSet [c], pathSet d = false ∧ isSlash true d = false := by
  have hdigits : ∀ d ∈ digitChars, isSlash true d = false :=
    List.all_iff_forall_prop.mp (by decide)
  intro d hd
  rcases List.mem_append.mp hd with hd | hd
  · exact hsegment d hd
  · refine ⟨encoded_encodeWith sparesDigits_pathSet [c] d hd, ?_⟩
    obtain ⟨e, he, hbyte⟩ := List.mem_flatMap.mp hd
    obtain rfl := List.mem_singleton.mp he
    split at hbyte
    · obtain ⟨b, -, hb⟩ := List.mem_flatMap.mp hbyte
      exact hdigits d (mem_digitChars_of_mem_percentEncode hb)
    · obtain rfl := List.mem_singleton.mp hbyte
      exact hslash

/-- The path state leaves segments, and encoded texts behind them. -/
theorem pathState_withPath (hspecial : u.special = true) (hfile : u.scheme ≠ "file")
    (hsegments : ∀ s ∈ segments, IsSegment s.toList) {segment : List Char}
    (hencoded : ∀ c ∈ segment, pathSet c = false ∧ isSlash true c = false) (rest : List Char) :
    ∃ segments' query fragment, (u.withPath segments none none).pathState segment rest =
        u.withPath segments' query fragment ∧
      segments' ≠ [] ∧ (∀ s ∈ segments', IsSegment s.toList) ∧ EncodedTail query fragment := by
  induction rest generalizing segments segment with
  | nil =>
      obtain ⟨segments', hend, hall, hne⟩ := endSegment_withPath hfile hsegments hencoded false
      exact ⟨segments', none, none, hend, hne rfl, hall, by simp, by simp⟩
  | cons c rest ih =>
      rw [pathState, special_withPath, hspecial]
      split
      · obtain ⟨segments', hend, hall, -⟩ := endSegment_withPath hfile hsegments hencoded true
        rw [hend]
        exact ih hall (by simp)
      next hslash =>
        obtain ⟨segments', hend, hall, hne⟩ := endSegment_withPath hfile hsegments hencoded false
        split
        · obtain ⟨query, fragment, hquery, htail⟩ := queryState_withPath hspecial segments' rest
          rw [hend]
          exact ⟨segments', query, fragment, hquery, hne rfl, hall, htail⟩
        · split
          · obtain ⟨f, hf, hfragment⟩ := fragmentState_withPath u segments' none none rest
            rw [hend]
            refine ⟨segments', none, some f, hf, hne rfl, hall, by simp, fun g hg ↦ ?_⟩
            exact Option.mem_some.mp hg ▸ hfragment
          · exact ih hsegments (encoded_of_mem_encode hencoded (by simpa using hslash))

/-! ## Well-formed URLs -/

/-- What the parser makes of the scheme, the user and the host. -/
structure HasAuthority (parseHost : HostParser) (u : Url) : Prop where
  scheme : u.scheme ∈ remoteSchemes
  username : Encoded userinfoSet u.username.toList
  password : Encoded userinfoSet u.password.toList
  host : ∃ host, u.host = some host ∧ parseHost.Settles host
  port : ∀ p ∈ u.port, p ≤ 65535 ∧ defaultPort u.scheme ≠ some p

/-- What the parser makes of an address with a remote host. -/
structure WellFormed (parseHost : HostParser) (u : Url) : Prop extends
    u.HasAuthority parseHost where
  path : ∃ segments, u.path = .segments segments ∧ segments ≠ [] ∧
    ∀ s ∈ segments, IsSegment s.toList
  tail : EncodedTail u.query u.fragment

theorem isSpecial_of_remote {scheme : String} (h : scheme ∈ remoteSchemes) :
    isSpecial scheme = true := by
  have hall : ∀ scheme ∈ remoteSchemes, isSpecial scheme = true := by decide
  exact hall scheme h

theorem ne_file_of_remote {scheme : String} (h : scheme ∈ remoteSchemes) : scheme ≠ "file" := by
  rintro rfl
  exact absurd h (by decide)

theorem HasAuthority.withPath (h : u.HasAuthority parseHost) (segments : List String)
    (query fragment : Option String) :
    (u.withPath segments query fragment).HasAuthority parseHost where
  scheme := h.scheme
  username := h.username
  password := h.password
  host := h.host
  port := h.port

theorem wellFormed_pathStart (h : u.HasAuthority parseHost) (rest : List Char) :
    ((u.withPath [] none none).pathStart rest).WellFormed parseHost := by
  have hspecial : u.special = true := isSpecial_of_remote h.scheme
  have hstart : ∃ rest', (u.withPath [] none none).pathStart rest =
      (u.withPath [] none none).pathState [] rest' := by
    unfold pathStart
    rw [special_withPath, hspecial]
    cases rest with
    | nil => exact ⟨[], rfl⟩
    | cons c rest =>
        dsimp only
        split
        · exact ⟨rest, rfl⟩
        · exact ⟨c :: rest, rfl⟩
  obtain ⟨rest', hrest⟩ := hstart
  have hnone : ∀ s ∈ ([] : List String), IsSegment s.toList := fun s hs ↦ by cases hs
  have hnil : ∀ c ∈ ([] : List Char), pathSet c = false ∧ isSlash true c = false :=
    fun c hc ↦ by cases hc
  obtain ⟨segments, query, fragment, hstate, hne, hall, htail⟩ :=
    pathState_withPath hspecial (ne_file_of_remote h.scheme) hnone hnil rest'
  rw [hrest, hstate]
  exact { h.withPath segments query fragment with
    path := ⟨segments, rfl, hne, hall⟩
    tail := htail }

theorem port_of_portOf {scheme : String} {digits : List Char} {port : Option ℕ}
    (h : portOf scheme digits = some port) :
    ∀ p ∈ port, p ≤ 65535 ∧ defaultPort scheme ≠ some p := by
  intro p hp
  obtain rfl := Option.mem_def.mp hp
  unfold portOf at h
  split at h
  · split at h
    · cases h
    · dsimp only at h
      split at h
      · cases h
      next hle =>
        split at h
        · cases h
        next hdefault =>
          obtain rfl := Option.some.inj (Option.some.inj h)
          exact ⟨by omega, hdefault⟩
  · cases h

theorem wellFormed_hostState (hdoc : parseHost.Documented) {scheme username password : String}
    (hscheme : scheme ∈ remoteSchemes) (husername : Encoded userinfoSet username.toList)
    (hpassword : Encoded userinfoSet password.toList) {text rest : List Char} {v : Url}
    (h : hostState parseHost ⟨scheme, username, password, none, none, .segments [], none, none⟩
      text rest = some v) : v.WellFormed parseHost := by
  unfold hostState at h
  split at h
  next host port hsplit =>
    split at h
    · cases h
    · obtain ⟨serialized, hhost, h⟩ := Option.bind_eq_some_iff.mp h
      obtain ⟨number, hport, h⟩ := Option.bind_eq_some_iff.mp h
      obtain rfl := Option.some.inj h
      rw [special, isSpecial_of_remote hscheme] at hhost
      have hauthority : HasAuthority parseHost
          ⟨scheme, username, password, some serialized, number, .segments [], none, none⟩ := {
        scheme := hscheme
        username := husername
        password := hpassword
        host := ⟨serialized, rfl, hdoc _ _ hhost⟩
        port := port_of_portOf hport }
      exact wellFormed_pathStart hauthority rest

theorem encoded_userinfo (text : List Char) :
    Encoded userinfoSet (String.ofList (encodeWith userinfoSet text)).toList := by
  rw [String.toList_ofList]
  exact encoded_encodeWith sparesDigits_userinfoSet text

theorem wellFormed_authorityState (hdoc : parseHost.Documented) {scheme : String}
    (hscheme : scheme ∈ remoteSchemes) {rest : List Char} {v : Url}
    (h : authorityState parseHost ⟨scheme, "", "", none, none, .segments [], none, none⟩ rest =
      some v) : v.WellFormed parseHost := by
  have hempty : Encoded userinfoSet "".toList := fun c hc ↦ by simp at hc
  unfold authorityState at h
  dsimp only at h
  split at h
  · split at h
    · cases h
    · exact wellFormed_hostState hdoc hscheme (encoded_userinfo _) (encoded_userinfo _) h
  · exact wellFormed_hostState hdoc hscheme hempty hempty h

/-! ## Addresses that stand on their own -/

/-- The URL of a page that no address is relative to. -/
def blank : Url := ⟨"about", "", "", none, none, .whole "blank", none, none⟩

variable (parseHost) in
/-- The URL that the address stands for on its own. -/
def parse (address : String) : Option Url :=
  (schemeOf (clean address)).bind fun start ↦ schemeState parseHost blank start.1 start.2

/-- The address begins with a scheme whose URLs have a remote host. -/
def IsRemote (address : String) : Prop :=
  ∃ scheme rest, schemeOf (clean address) = some (scheme, rest) ∧ scheme ∈ remoteSchemes

theorem schemeState_remote {scheme : String} (h : scheme ∈ remoteSchemes) (rest : List Char) :
    schemeState parseHost blank scheme rest =
      authorityState parseHost ⟨scheme, "", "", none, none, .segments [], none, none⟩
        ((skipTwoSlashes rest).dropWhile fun c ↦ c == '/' || c == '\\') := by
  have hother : ¬(blank.scheme = scheme ∧ ¬ "//".toList <+: rest) := by
    rintro ⟨rfl, -⟩
    exact absurd h (by decide)
  unfold schemeState
  rw [if_neg (ne_file_of_remote h), if_pos (isSpecial_of_remote h), if_neg hother]
  rfl

/-- What the parser makes of an address with a remote host is well formed. -/
theorem wellFormed_parse (hdoc : parseHost.Documented) {address : String}
    (hremote : IsRemote address) (h : parse parseHost address = some u) :
    u.WellFormed parseHost := by
  obtain ⟨scheme, rest, hscheme, hmem⟩ := hremote
  rw [parse, hscheme, Option.bind_some, schemeState_remote hmem] at h
  exact wellFormed_authorityState hdoc hmem h

end Url

end Web
