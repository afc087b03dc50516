import ApiStarter.Web.WellFormedUrl

/-!
# Writing URLs

A URL is written from its parts, and a well-formed one is read back from its
text.  So a URL that was parsed, given more query parameters and written down
arrives as that URL, with those parameters.
-/

namespace Web

namespace Url

variable {parseHost : HostParser} {u : Url} {segments : List String}

/-! ## Reading the path back -/

/-- The path, with a slash before each segment. -/
def pathText (segments : List String) : List Char := segments.flatMap fun s ↦ '/' :: s.toList

theorem pathText_cons (s : String) (segments : List String) :
    pathText (s :: segments) = '/' :: (s.toList ++ pathText segments) := rfl

def fragmentText : Option String → List Char
  | some fragment => '#' :: fragment.toList
  | none => []

def queryText : Option String → List Char
  | some query => '?' :: query.toList
  | none => []

/-- A segment is read character by character. -/
theorem pathState_chars (hspecial : u.special = true) {text : List Char}
    (h : ∀ c ∈ text, pathSet c = false ∧ isSlash true c = false) (segment rest : List Char) :
    u.pathState segment (text ++ rest) = u.pathState (segment ++ text) rest := by
  induction text generalizing segment with
  | nil => simp
  | cons c text ih =>
      obtain ⟨hc, hslash⟩ := h c List.mem_cons_self
      have hquery : c ≠ '?' := by
        rintro rfl
        exact absurd hc (by decide)
      have hhash : c ≠ '#' := by
        rintro rfl
        exact absurd hc (by decide)
      have hencode : encodeWith pathSet [c] = [c] :=
        encodeWith_of_encoded fun d hd ↦ List.mem_singleton.mp hd ▸ hc
      rw [List.cons_append, pathState, hspecial, hslash, if_neg (by simp), if_neg hquery,
        if_neg hhash, hencode, ih fun d hd ↦ h d (List.mem_cons_of_mem c hd)]
      simp

theorem endSegment_of_isSegment (hfile : u.scheme ≠ "file") {s : String}
    (hs : IsSegment s.toList) (slash : Bool) :
    (u.withPath segments none none).endSegment s.toList slash =
      u.withPath (segments ++ [s]) none none := by
  have hdrive : ((u.withPath segments none none).scheme == "file" &&
      (u.withPath segments none none).path == .segments [] && isDriveLetter s.toList) = false := by
    have hscheme : (u.scheme == "file") = false := by simpa using hfile
    simp [withPath, hscheme]
  unfold endSegment
  rw [hs.double, hs.single, hdrive]
  simp [append, withPath]

theorem fragmentState_text {query : Option String} {fragment : String}
    (h : Encoded fragmentSet fragment.toList) :
    (u.withPath segments query none).fragmentState fragment.toList =
      u.withPath segments query (some fragment) := by
  simp [fragmentState, withPath, encodeWith_of_encoded h]

theorem queryState_text (hspecial : u.special = true) {query : String} {fragment : Option String}
    (h : EncodedTail (some query) fragment) :
    (u.withPath segments none none).queryState (query.toList ++ fragmentText fragment) =
      u.withPath segments (some query) fragment := by
  have hquery : Encoded specialQuerySet query.toList := h.query query rfl
  have hplain : ∀ c ∈ query.toList, decide (c ≠ '#') = true := by
    intro c hc
    apply decide_eq_true
    rintro rfl
    exact absurd (hquery _ hc) (by decide)
  have htext : (query.toList ++ fragmentText fragment).takeWhile (· ≠ '#') = query.toList ∧
      (query.toList ++ fragmentText fragment).dropWhile (· ≠ '#') = fragmentText fragment := by
    rw [List.takeWhile_append_of_pos hplain, List.dropWhile_append_of_pos hplain]
    cases fragment with
    | none => simp [fragmentText]
    | some fragment => simp [fragmentText]
  have hset : (u.withPath segments none none).special = true := hspecial
  unfold queryState
  rw [htext.1, htext.2, hset, if_pos rfl]
  dsimp only
  rw [encodeWith_of_encoded hquery, String.ofList_toList]
  cases fragment with
  | none => rfl
  | some fragment => exact fragmentState_text (h.fragment fragment rfl)

/-- Behind the path, the query and the fragment are read. -/
theorem pathState_tail (hspecial : u.special = true) (hfile : u.scheme ≠ "file") {s : String}
    (hs : IsSegment s.toList) {query fragment : Option String} (h : EncodedTail query fragment) :
    (u.withPath segments none none).pathState s.toList (queryText query ++ fragmentText fragment) =
      u.withPath (segments ++ [s]) query fragment := by
  have hend : (u.withPath segments none none).endSegment s.toList false =
      u.withPath (segments ++ [s]) none none := endSegment_of_isSegment hfile hs false
  cases query with
  | some query =>
      have hslash : isSlash (u.withPath segments none none).special '?' = false := by
        simp [isSlash]
      rw [queryText, List.cons_append, pathState, hslash, if_neg (by simp), if_pos rfl, hend]
      exact queryState_text hspecial h
  | none =>
      cases fragment with
      | some fragment =>
          have hslash : isSlash (u.withPath segments none none).special '#' = false := by
            simp [isSlash]
          rw [queryText, List.nil_append, fragmentText, pathState, hslash, if_neg (by simp),
            if_neg (by decide), if_pos rfl, hend]
          exact fragmentState_text (h.fragment fragment rfl)
      | none => exact hend

variable (segments) in
/-- The path is read back segment by segment. -/
theorem pathState_pathText (hspecial : u.special = true) (hfile : u.scheme ≠ "file") {s : String}
    {more : List String} (hall : ∀ t ∈ s :: more, IsSegment t.toList)
    {query fragment : Option String} (h : EncodedTail query fragment) :
    (u.withPath segments none none).pathState []
        (s.toList ++ (pathText more ++ (queryText query ++ fragmentText fragment))) =
      u.withPath (segments ++ s :: more) query fragment := by
  have hs : IsSegment s.toList := hall s List.mem_cons_self
  induction more generalizing s segments with
  | nil =>
      have hset : (u.withPath segments none none).special = true := hspecial
      rw [pathState_chars hset hs.encoded]
      exact pathState_tail hspecial hfile hs h
  | cons t more ih =>
      have hrest : ∀ r ∈ t :: more, IsSegment r.toList := fun r hr ↦
        hall r (List.mem_cons_of_mem s hr)
      have hset : (u.withPath segments none none).special = true := hspecial
      have hslash : isSlash (u.withPath segments none none).special '/' = true := by
        simp [isSlash]
      rw [pathState_chars hset hs.encoded, List.nil_append, pathText_cons, List.cons_append,
        pathState, hslash, if_pos rfl, endSegment_of_isSegment hfile hs, List.append_assoc,
        ih _ hrest (hrest t List.mem_cons_self)]
      simp

/-! ## Reading the authority back -/

def portText : Option ℕ → List Char
  | some port => ':' :: port.repr.toList
  | none => []

theorem portOf_repr {scheme : String} {port : ℕ} (hle : port ≤ 65535)
    (hdefault : defaultPort scheme ≠ some port) :
    portOf scheme port.repr.toList = some (some port) := by
  have hdigits : (Nat.toDigits 10 port).all Char.isDigit = true :=
    List.all_eq_true.mpr fun c hc ↦ Nat.isDigit_of_mem_toDigits (by omega) (by omega) hc
  have hvalue : (Nat.toDigits 10 port).foldl (fun n c ↦ 10 * n + (c.toNat - 48)) 0 = port :=
    Nat.ofDigitChars_ten_toDigits
  unfold portOf
  rw [Nat.toList_repr, if_pos hdigits, if_neg Nat.toDigits_ne_nil, hvalue]
  dsimp only
  rw [if_neg (by omega), if_neg hdefault]

theorem hostAndPort_append {inBrackets : Bool} {text : List Char}
    (h : ∀ c ∈ text, c ≠ '[' ∧ c ≠ ']' ∧ (c = ':' → inBrackets = true)) (rest : List Char) :
    hostAndPort inBrackets (text ++ rest) =
      (text ++ (hostAndPort inBrackets rest).1, (hostAndPort inBrackets rest).2) := by
  induction text with
  | nil => rfl
  | cons c text ih =>
      obtain ⟨hopen, hclose, hcolon⟩ := h c List.mem_cons_self
      have hinside : ¬(c = ':' ∧ inBrackets = false) := by
        rintro ⟨hc, hout⟩
        simp [hcolon hc] at hout
      rw [List.cons_append, hostAndPort, if_neg hinside, if_neg hopen, if_neg hclose]
      dsimp only
      rw [ih fun d hd ↦ h d (List.mem_cons_of_mem c hd)]
      rfl

theorem visible_of_isHostChar {c : Char} (h : isHostChar c = true) : IsVisible c := by
  unfold isHostChar at h
  rw [Bool.and_eq_true] at h
  exact of_decide_eq_true h.1

theorem ne_of_isHostChar {c d : Char} (h : isHostChar c = true)
    (hd : d.toNat ∈ [0x23, 0x2F, 0x3A, 0x3F, 0x40, 0x5B, 0x5C, 0x5D]) : c ≠ d := by
  rintro rfl
  unfold isHostChar at h
  rw [Bool.and_eq_true] at h
  exact of_decide_eq_true h.2 hd

theorem hostAndPort_portText (port : Option ℕ) :
    hostAndPort false (portText port) = ([], port.map fun p ↦ p.repr.toList) := by
  cases port with
  | none => rfl
  | some port => rfl

/-- The host ends where the port begins. -/
theorem hostAndPort_hostText {text : List Char} (h : HostText text) (port : Option ℕ) :
    hostAndPort false (text ++ portText port) = (text, port.map fun p ↦ p.repr.toList) := by
  cases h with
  | name h =>
      rw [hostAndPort_append, hostAndPort_portText, List.append_nil]
      intro c hc
      refine ⟨ne_of_isHostChar (h c hc) (by decide), ne_of_isHostChar (h c hc) (by decide), ?_⟩
      intro hcolon
      exact absurd hcolon (ne_of_isHostChar (h c hc) (by decide))
  | @bracketed text h =>
      have hinside : hostAndPort true (text ++ ']' :: portText port) =
          (text ++ [']'], port.map fun p ↦ p.repr.toList) := by
        rw [hostAndPort_append, hostAndPort, if_neg (by simp)]
        · dsimp only
          rw [if_neg (by decide), if_pos rfl, hostAndPort_portText]
        · intro c hc
          rcases h c hc with hchar | rfl
          · exact ⟨ne_of_isHostChar hchar (by decide), ne_of_isHostChar hchar (by decide),
              fun _ ↦ rfl⟩
          · exact ⟨by decide, by decide, fun _ ↦ rfl⟩
      rw [List.cons_append, List.cons_append, List.append_assoc, List.singleton_append, hostAndPort,
        if_neg (by decide), if_pos rfl]
      dsimp only
      rw [hinside]

theorem hostState_text {host : String} (hhost : parseHost.Settles host)
    (hremote : u.scheme ∈ remoteSchemes) {port : Option ℕ}
    (hport : ∀ p ∈ port, p ≤ 65535 ∧ defaultPort u.scheme ≠ some p) (rest : List Char) :
    hostState parseHost u (host.toList ++ portText port) rest =
      some ({ u with host := some host, port := port }.pathStart rest) := by
  have hne : host.toList ≠ [] := fun hnil ↦ hhost.ne_empty (String.toList_eq_nil_iff.mp hnil)
  have hnumber : portOf u.scheme ((port.map fun p ↦ p.repr.toList).getD []) = some port := by
    cases port with
    | none => rfl
    | some port => exact portOf_repr (hport port rfl).1 (hport port rfl).2
  have hspecial : u.special = true := isSpecial_of_remote hremote
  unfold hostState
  rw [hostAndPort_hostText hhost.text]
  dsimp only
  rw [if_neg (fun h ↦ hne h.1), hspecial, String.ofList_toList, hhost.again, hnumber]
  rfl

/-- The user and the password, with the sign behind them. -/
def credentials (username password : String) : List Char :=
  if username = "" ∧ password = "" then []
  else username.toList ++ ((if password = "" then [] else ':' :: password.toList) ++ ['@'])

/-- A character of the authority. -/
def InAuthority (c : Char) : Prop := IsVisible c ∧ isAuthorityEnd true c = false

theorem visible_of_querySet {c : Char} (h : querySet c = false) : IsVisible c := by
  simp only [querySet, c0Set, Bool.or_eq_false_iff, decide_eq_false_iff_not, List.mem_cons,
    not_or] at h
  exact ⟨by omega, by omega⟩

theorem inAuthority_of_ne {c : Char} (hvisible : IsVisible c)
    (h : c ≠ '/' ∧ c ≠ '\\' ∧ c ≠ '?' ∧ c ≠ '#') : InAuthority c := by
  refine ⟨hvisible, ?_⟩
  simp [isAuthorityEnd, isSlash, h]

theorem ne_of_userinfoSet {c d : Char} (h : userinfoSet c = false) (hd : userinfoSet d = true) :
    c ≠ d := by
  rintro rfl
  exact absurd h (by simp [hd])

theorem inAuthority_of_encoded {c : Char} (h : userinfoSet c = false) : InAuthority c := by
  have hquery : querySet c = false := by
    unfold userinfoSet pathSet at h
    rw [Bool.or_eq_false_iff, Bool.or_eq_false_iff] at h
    exact h.1.1
  refine inAuthority_of_ne (visible_of_querySet hquery) ⟨?_, ?_, ?_, ?_⟩
  all_goals exact ne_of_userinfoSet h (by decide)

theorem inAuthority_of_isHostChar {c : Char} (h : isHostChar c = true) :
    InAuthority c ∧ c ≠ '@' := by
  refine ⟨inAuthority_of_ne (visible_of_isHostChar h) ⟨?_, ?_, ?_, ?_⟩, ?_⟩
  all_goals exact ne_of_isHostChar h (by decide)

theorem inAuthority_of_mem_host {text : List Char} (h : HostText text) {c : Char} (hc : c ∈ text) :
    InAuthority c ∧ c ≠ '@' := by
  have hother : ∀ d ∈ ['[', ']', ':'], InAuthority d ∧ d ≠ '@' := by
    unfold InAuthority
    exact List.all_iff_forall_prop.mp (by decide)
  cases h with
  | name h => exact inAuthority_of_isHostChar (h c hc)
  | bracketed h =>
      rcases List.mem_cons.mp hc with rfl | hc
      · exact hother '[' (by simp)
      · rcases List.mem_append.mp hc with hc | hc
        · rcases h c hc with hchar | rfl
          · exact inAuthority_of_isHostChar hchar
          · exact hother ':' (by simp)
        · obtain rfl := List.mem_singleton.mp hc
          exact hother ']' (by simp)

theorem inAuthority_of_mem_port {port : Option ℕ} {c : Char} (hc : c ∈ portText port) :
    InAuthority c ∧ c ≠ '@' := by
  cases port with
  | none => cases hc
  | some port =>
      rcases List.mem_cons.mp hc with rfl | hc
      · exact ⟨inAuthority_of_ne (by decide) (by decide), by decide⟩
      · rw [Nat.toList_repr] at hc
        have hdigit : c.isDigit = true := Nat.isDigit_of_mem_toDigits (by omega) (by omega) hc
        have hrange : 48 ≤ c.toNat ∧ c.toNat ≤ 57 := by
          simpa [Char.isDigit, UInt32.le_iff_toNat_le] using hdigit
        have hne : ∀ d ∈ ['/', '\\', '?', '#', '@'], c ≠ d := by
          rintro d hd rfl
          have hall : ∀ d ∈ ['/', '\\', '?', '#', '@'], ¬(48 ≤ d.toNat ∧ d.toNat ≤ 57) :=
            List.all_iff_forall_prop.mp (by decide)
          exact hall c hd hrange
        exact ⟨inAuthority_of_ne ⟨by omega, by omega⟩ ⟨hne _ (by simp), hne _ (by simp),
          hne _ (by simp), hne _ (by simp)⟩, hne _ (by simp)⟩

theorem inAuthority_of_mem_credentials {username password : String}
    (husername : Encoded userinfoSet username.toList)
    (hpassword : Encoded userinfoSet password.toList) {c : Char}
    (hc : c ∈ credentials username password) : InAuthority c := by
  have hother : ∀ d ∈ [':', '@'], InAuthority d := by
    unfold InAuthority
    exact List.all_iff_forall_prop.mp (by decide)
  unfold credentials at hc
  split at hc
  · cases hc
  · rcases List.mem_append.mp hc with hc | hc
    · exact inAuthority_of_encoded (husername c hc)
    · rcases List.mem_append.mp hc with hc | hc
      · split at hc
        · cases hc
        · rcases List.mem_cons.mp hc with rfl | hc
          · exact hother ':' (by simp)
          · exact inAuthority_of_encoded (hpassword c hc)
      · obtain rfl := List.mem_singleton.mp hc
        exact hother '@' (by simp)

/-- The text is taken apart at its last separator. -/
theorem rtakeWhile_separator {p : Char → Bool} {d : Char} (hd : p d = false) {b : List Char}
    (hb : ∀ c ∈ b, p c = true) (a : List Char) :
    (a ++ d :: b).rtakeWhile p = b ∧ (a ++ d :: b).rdropWhile p = a ++ [d] := by
  have hreverse : (a ++ d :: b).reverse = b.reverse ++ d :: a.reverse := by simp
  have hall : ∀ c ∈ b.reverse, p c = true := fun c hc ↦ hb c (List.mem_reverse.mp hc)
  unfold List.rtakeWhile List.rdropWhile
  rw [hreverse, List.takeWhile_append_of_pos hall, List.dropWhile_append_of_pos hall,
    List.takeWhile_cons_of_neg (by simp [hd]), List.dropWhile_cons_of_neg (by simp [hd])]
  simp

/-- The user ends where the password begins. -/
theorem userinfo_text (password : String) {username : String}
    (husername : Encoded userinfoSet username.toList) :
    (username.toList ++ (if password = "" then [] else ':' :: password.toList)).takeWhile
        (· ≠ ':') = username.toList ∧
      ((username.toList ++ (if password = "" then [] else ':' :: password.toList)).dropWhile
        (· ≠ ':')).drop 1 = password.toList := by
  have hplain : ∀ c ∈ username.toList, decide (c ≠ ':') = true := fun c hc ↦
    decide_eq_true (ne_of_userinfoSet (husername c hc) (by decide))
  rw [List.takeWhile_append_of_pos hplain, List.dropWhile_append_of_pos hplain]
  split
  next h => simp [h]
  next => simp

theorem authorityState_text {scheme username password host : String} {port : Option ℕ}
    (hremote : scheme ∈ remoteSchemes) (husername : Encoded userinfoSet username.toList)
    (hpassword : Encoded userinfoSet password.toList) (hhost : parseHost.Settles host)
    (hport : ∀ p ∈ port, p ≤ 65535 ∧ defaultPort scheme ≠ some p) (rest : List Char) :
    authorityState parseHost ⟨scheme, "", "", none, none, .segments [], none, none⟩
        (credentials username password ++ (host.toList ++ portText port) ++ '/' :: rest) =
      some ((Url.mk scheme username password (some host) port (.segments []) none none).pathState
        [] rest) := by
  have hspecial : isSpecial scheme = true := isSpecial_of_remote hremote
  have hinside : ∀ c ∈ host.toList ++ portText port, InAuthority c ∧ c ≠ '@' := by
    intro c hc
    rcases List.mem_append.mp hc with hc | hc
    · exact inAuthority_of_mem_host hhost.text hc
    · exact inAuthority_of_mem_port hc
  have hall : ∀ c ∈ credentials username password ++ (host.toList ++ portText port),
      (!isAuthorityEnd (isSpecial scheme) c) = true := by
    intro c hc
    rw [hspecial]
    rcases List.mem_append.mp hc with hc | hc
    · simp [(inAuthority_of_mem_credentials husername hpassword hc).2]
    · simp [(hinside c hc).1.2]
  have hend : isAuthorityEnd (isSpecial scheme) '/' = true := by simp [isAuthorityEnd, isSlash]
  have hstart (u : Url) (hu : u.special = true) :
      u.pathStart ('/' :: rest) = u.pathState [] rest := by
    have hslash : isSlash true '/' = true := by simp [isSlash]
    unfold pathStart
    dsimp only
    rw [hu, hslash, if_pos rfl]
  have hstate (username password : String) := hostState_text
    (u := ⟨scheme, username, password, none, none, .segments [], none, none⟩) hhost hremote hport
      ('/' :: rest)
  unfold authorityState
  dsimp only [special]
  rw [List.takeWhile_append_of_pos hall, List.dropWhile_append_of_pos hall,
    List.takeWhile_cons_of_neg (by simp [hend]), List.dropWhile_cons_of_neg (by simp [hend]),
    List.append_nil]
  unfold credentials
  split
  next hnone =>
    obtain ⟨rfl, rfl⟩ := hnone
    have hat : '@' ∉ [] ++ (host.toList ++ portText port) := fun hmem ↦ (hinside '@' hmem).2 rfl
    rw [if_neg hat, List.nil_append, hstate]
    exact congrArg some (hstart _ hspecial)
  next =>
    have hfield : ∀ c ∈ host.toList ++ portText port, decide (c ≠ '@') = true := fun c hc ↦
      decide_eq_true (hinside c hc).2
    have hparts := rtakeWhile_separator (p := fun c ↦ decide (c ≠ '@')) (d := '@') (by simp) hfield
      (username.toList ++ if password = "" then [] else ':' :: password.toList)
    have hne : host.toList ++ portText port ≠ [] := by
      intro hnil
      exact hhost.ne_empty (String.toList_eq_nil_iff.mp (List.append_eq_nil_iff.mp hnil).1)
    have hassoc : username.toList ++ ((if password = "" then [] else ':' :: password.toList) ++
          ['@']) ++ (host.toList ++ portText port) =
        username.toList ++ (if password = "" then [] else ':' :: password.toList) ++
          '@' :: (host.toList ++ portText port) := by
      simp
    obtain ⟨huser, hpass⟩ := userinfo_text password husername
    rw [hassoc, if_pos (by simp), hparts.1, hparts.2, if_neg hne, List.dropLast_concat, huser,
      hpass, encodeWith_of_encoded husername, encodeWith_of_encoded hpassword,
      String.ofList_toList, String.ofList_toList, hstate]
    exact congrArg some (hstart _ hspecial)

/-! ## The whole text -/

/-- URL serializing -/
def serialize (u : Url) : List Char :=
  u.scheme.toList ++ ':' :: (authority ++ (path ++ (queryText u.query ++ fragmentText u.fragment)))
where
  authority : List Char :=
    match u.host, u.path with
    | some host, _ =>
        '/' :: '/' :: (credentials u.username u.password ++ (host.toList ++ portText u.port))
    | none, .segments ("" :: _ :: _) => "/.".toList
    | none, _ => []
  path : List Char :=
    match u.path with
    | .whole text => text.toList
    | .segments segments => pathText segments

theorem schemeOf_remote {scheme : String} (h : scheme ∈ remoteSchemes) (rest : List Char) :
    schemeOf (scheme.toList ++ ':' :: rest) = some (scheme, rest) := by
  simp only [remoteSchemes, List.mem_cons, List.not_mem_nil, or_false] at h
  rcases h with rfl | rfl | rfl | rfl | rfl
  all_goals rfl

theorem isSlash_of_inAuthority {c : Char} (h : InAuthority c) :
    (c == '/' || c == '\\') = false := by
  have hend := h.2
  simp only [isAuthorityEnd, isSlash, Bool.or_eq_false_iff, Bool.true_and] at hend
  simp [hend.1.1.1, hend.1.1.2]

theorem visible_of_mem_pathText (h : ∀ s ∈ segments, IsSegment s.toList) {c : Char}
    (hc : c ∈ pathText segments) : IsVisible c := by
  obtain ⟨s, hs, hc⟩ := List.mem_flatMap.mp hc
  rcases List.mem_cons.mp hc with rfl | hc
  · decide
  · have hpath : pathSet c = false := ((h s hs).encoded c hc).1
    unfold pathSet at hpath
    exact visible_of_querySet (Bool.or_eq_false_iff.mp hpath).1

theorem visible_of_mem_tail {query fragment : Option String} (h : EncodedTail query fragment)
    {c : Char} (hc : c ∈ queryText query ++ fragmentText fragment) : IsVisible c := by
  rcases List.mem_append.mp hc with hc | hc
  · cases query with
    | none => cases hc
    | some query =>
        rcases List.mem_cons.mp hc with rfl | hc
        · decide
        · have hquery : specialQuerySet c = false := h.query query rfl c hc
          unfold specialQuerySet at hquery
          exact visible_of_querySet (Bool.or_eq_false_iff.mp hquery).1
  · cases fragment with
    | none => cases hc
    | some fragment =>
        rcases List.mem_cons.mp hc with rfl | hc
        · decide
        · have hfragment : fragmentSet c = false := h.fragment fragment rfl c hc
          simp only [fragmentSet, c0Set, Bool.or_eq_false_iff, decide_eq_false_iff_not,
            List.mem_cons, not_or] at hfragment
          exact ⟨by omega, by omega⟩

/-- Visible texts are read as they are. -/
theorem clean_of_visible {text : List Char} (h : ∀ c ∈ text, IsVisible c) :
    clean (String.ofList text) = text := by
  have hplain : ∀ c ∈ text, isTabOrNewline c = false := by
    intro c hc
    have hvisible := h c hc
    unfold isTabOrNewline
    simp only [Bool.or_eq_false_iff, beq_eq_false_iff_ne]
    refine ⟨⟨?_, ?_⟩, ?_⟩
    all_goals
      rintro rfl
      exact absurd hvisible (by decide)
  have hblank : ∀ c ∈ text, (isC0Control c || c == ' ') = false := by
    intro c hc
    obtain ⟨hlow, hhigh⟩ := h c hc
    have hspace : c ≠ ' ' := by
      rintro rfl
      exact absurd hlow (by decide)
    simp [isC0Control, hspace]
    omega
  have htrimmed : Text.Trimmed (fun c ↦ isC0Control c || c == ' ') text :=
    ⟨fun c hc ↦ hblank c (List.mem_of_mem_head? hc),
      fun c hc ↦ hblank c (List.mem_of_mem_getLast? hc)⟩
  unfold clean
  rw [String.toList_ofList, htrimmed.strip_eq, List.filter_eq_self]
  intro c hc
  simp [hplain c hc]

variable (u) in
/-- A well-formed URL written from its parts. -/
theorem serialize_eq {host : String} (hhost : u.host = some host)
    (hpath : u.path = .segments segments) :
    u.serialize = u.scheme.toList ++ ':' :: '/' :: '/' ::
      (credentials u.username u.password ++ (host.toList ++ portText u.port) ++
        (pathText segments ++ (queryText u.query ++ fragmentText u.fragment))) := by
  unfold serialize serialize.authority serialize.path
  rw [hhost, hpath]
  simp

theorem WellFormed.visible (h : u.WellFormed parseHost) : ∀ c ∈ u.serialize, IsVisible c := by
  obtain ⟨host, hhost, hsettles⟩ := h.host
  obtain ⟨segments, hpath, -, hall⟩ := h.path
  have hscheme : ∀ scheme ∈ remoteSchemes, ∀ c ∈ scheme.toList, IsVisible c := by
    intro scheme hmem
    have hall : (remoteSchemes.all fun scheme ↦
        scheme.toList.all fun c ↦ decide (IsVisible c)) = true := by decide
    exact List.all_iff_forall_prop.mp (List.all_eq_true.mp hall scheme hmem)
  intro c hc
  rw [serialize_eq u hhost hpath] at hc
  rcases List.mem_append.mp hc with hc | hc
  · exact hscheme u.scheme h.scheme c hc
  · have hmarks : ∀ d ∈ [':', '/'], IsVisible d := List.all_iff_forall_prop.mp (by decide)
    rcases List.mem_cons.mp hc with rfl | hc
    · exact hmarks ':' (by simp)
    · rcases List.mem_cons.mp hc with rfl | hc
      · exact hmarks '/' (by simp)
      · rcases List.mem_cons.mp hc with rfl | hc
        · exact hmarks '/' (by simp)
        · rcases List.mem_append.mp hc with hc | hc
          · rcases List.mem_append.mp hc with hc | hc
            · exact (inAuthority_of_mem_credentials h.username h.password hc).1
            · rcases List.mem_append.mp hc with hc | hc
              · exact (inAuthority_of_mem_host hsettles.text hc).1.1
              · exact (inAuthority_of_mem_port hc).1.1
          · rcases List.mem_append.mp hc with hc | hc
            · exact visible_of_mem_pathText hall hc
            · exact visible_of_mem_tail h.tail hc

/-- The authority begins with no slash. -/
theorem dropSlashes_authority {username password host : String} {port : Option ℕ}
    (husername : Encoded userinfoSet username.toList)
    (hpassword : Encoded userinfoSet password.toList) (hhost : parseHost.Settles host)
    (rest : List Char) :
    (credentials username password ++ (host.toList ++ portText port) ++ rest).dropWhile
        (fun c ↦ c == '/' || c == '\\') =
      credentials username password ++ (host.toList ++ portText port) ++ rest := by
  have hne : host.toList ≠ [] := fun hnil ↦ hhost.ne_empty (String.toList_eq_nil_iff.mp hnil)
  have hall : ∀ c ∈ credentials username password ++ (host.toList ++ portText port),
      (c == '/' || c == '\\') = false := by
    intro c hc
    apply isSlash_of_inAuthority
    rcases List.mem_append.mp hc with hc | hc
    · exact inAuthority_of_mem_credentials husername hpassword hc
    · rcases List.mem_append.mp hc with hc | hc
      · exact (inAuthority_of_mem_host hhost.text hc).1
      · exact (inAuthority_of_mem_port hc).1
  cases htext : credentials username password ++ (host.toList ++ portText port) with
  | nil => exact absurd (List.append_eq_nil_iff.mp (List.append_eq_nil_iff.mp htext).2).1 hne
  | cons c text =>
      have hc := hall c (htext ▸ List.mem_cons_self)
      rw [List.cons_append, List.dropWhile_cons_of_neg (by simp [hc])]

/-- A well-formed URL is read back from its text. -/
theorem parse_serialize (h : u.WellFormed parseHost) :
    parse parseHost (String.ofList u.serialize) = some u := by
  have hvisible := clean_of_visible h.visible
  obtain ⟨host, hhost, hsettles⟩ := h.host
  obtain ⟨segments, hpath, hne, hall⟩ := h.path
  obtain ⟨s, more, rfl⟩ := List.exists_cons_of_ne_nil hne
  have hspecial : isSpecial u.scheme = true := isSpecial_of_remote h.scheme
  rw [parse, hvisible, serialize_eq u hhost hpath, schemeOf_remote h.scheme, Option.bind_some,
    schemeState_remote h.scheme, skipTwoSlashes,
    dropSlashes_authority h.username h.password hsettles, pathText_cons, List.cons_append,
    authorityState_text h.scheme h.username h.password hsettles h.port, List.append_assoc]
  have hstate := pathState_pathText []
    (u := ⟨u.scheme, u.username, u.password, some host, u.port, .segments [], none, none⟩)
    hspecial (ne_file_of_remote h.scheme) hall h.tail
  rw [List.nil_append] at hstate
  refine (congrArg some hstate).trans ?_
  rw [withPath, ← hhost, ← hpath]

/-! ## More parameters -/

/-- `Serializer::append_pair` -/
def extend (query : List Char) (pair : String × String) : List Char :=
  query ++ ((if query = [] then [] else ['&']) ++ formPair pair)

def appendPair (u : Url) (pair : String × String) : Url :=
  { u with query := some (String.ofList (extend (u.query.getD "").toList pair)) }

/-- `Url::query_pairs_mut` with the pairs appended -/
def appendPairs (u : Url) (pairs : List (String × String)) : Url :=
  pairs.foldl appendPair { u with query := some (u.query.getD "") }

/-- The parameters in the query, as a server reads them. -/
def parameters (decoder : Utf8Decoder) (u : Url) : List (String × String) :=
  formParse decoder (u.query.getD "").toList

theorem encoded_formPair (pair : String × String) : Encoded specialQuerySet (formPair pair) := by
  have hdigits : ∀ c ∈ digitChars, specialQuerySet c = false := sparesDigits_specialQuerySet
  have hbytes : ∀ n < 128, isFormByte (UInt8.ofNat n) = true →
      specialQuerySet (Char.ofNat n) = false := by decide
  have hencoded (s : String) : ∀ c ∈ formEncode s, specialQuerySet c = false := by
    intro c hc
    obtain ⟨b, -, hb⟩ := List.mem_flatMap.mp hc
    unfold formEncodeByte at hb
    split at hb
    · obtain rfl := List.mem_singleton.mp hb
      decide
    · split at hb
      next hbyte =>
        obtain rfl := List.mem_singleton.mp hb
        have hrange := toNat_lt_of_isFormByte hbyte
        exact hbytes b.toNat (by omega) (by rwa [UInt8.ofNat_toNat])
      next => exact hdigits c (mem_digitChars_of_mem_percentEncode hb)
  intro c hc
  rcases List.mem_append.mp hc with hc | hc
  · exact hencoded _ c hc
  · rcases List.mem_cons.mp hc with rfl | hc
    · decide
    · exact hencoded _ c hc

theorem wellFormed_appendPair (h : u.WellFormed parseHost) (pair : String × String) :
    (u.appendPair pair).WellFormed parseHost := by
  have hold : Encoded specialQuerySet (u.query.getD "").toList := by
    cases hquery : u.query with
    | none => exact fun c hc ↦ by simp at hc
    | some query => exact h.tail.query query hquery
  have hpair : ∀ q ∈ (u.appendPair pair).query, Encoded specialQuerySet q.toList := by
    rintro q ⟨⟩
    intro c hc
    rw [String.toList_ofList, extend] at hc
    rcases List.mem_append.mp hc with hc | hc
    · exact hold c hc
    · rcases List.mem_append.mp hc with hc | hc
      · split at hc
        · cases hc
        · obtain rfl := List.mem_singleton.mp hc
          decide
      · exact encoded_formPair pair c hc
  exact {
    scheme := h.scheme
    username := h.username
    password := h.password
    host := h.host
    port := h.port
    path := h.path
    tail := ⟨hpair, h.tail.fragment⟩ }

theorem wellFormed_appendPairs (h : u.WellFormed parseHost) (pairs : List (String × String)) :
    (u.appendPairs pairs).WellFormed parseHost := by
  have hstart : WellFormed parseHost { u with query := some (u.query.getD "") } := by
    have hold : ∀ q ∈ some (u.query.getD ""), Encoded specialQuerySet q.toList := by
      rintro q ⟨⟩
      cases hquery : u.query with
      | none => exact fun c hc ↦ by simp at hc
      | some query => exact h.tail.query query hquery
    exact { h with tail := ⟨hold, h.tail.fragment⟩ }
  unfold appendPairs
  generalize ({ u with query := some (u.query.getD "") } : Url) = v at hstart
  induction pairs generalizing v with
  | nil => exact hstart
  | cons pair pairs ih => exact ih _ (wellFormed_appendPair hstart pair)

theorem parameters_appendPair (decoder : Utf8Decoder) (u : Url) (pair : String × String) :
    (u.appendPair pair).parameters decoder = u.parameters decoder ++ [pair] := by
  have hone : formParse decoder (formPair pair) = [pair] := by
    simpa [formSerialize] using formParse_formSerialize decoder [pair]
  unfold parameters appendPair
  dsimp only
  rw [Option.getD_some, String.toList_ofList, extend]
  split
  next hempty =>
    rw [hempty, List.nil_append, List.nil_append, hone]
    rfl
  next =>
    rw [List.singleton_append, formParse, List.splitOn_append_cons_self, List.filter_append,
      List.map_append]
    exact congrArg _ hone

/-- The parameters appended stand behind those that were there. -/
theorem parameters_appendPairs (decoder : Utf8Decoder) (u : Url) (pairs : List (String × String)) :
    (u.appendPairs pairs).parameters decoder = u.parameters decoder ++ pairs := by
  have hstart : parameters decoder { u with query := some (u.query.getD "") } =
      u.parameters decoder := rfl
  rw [← hstart]
  unfold appendPairs
  generalize ({ u with query := some (u.query.getD "") } : Url) = v
  induction pairs generalizing v with
  | nil => simp
  | cons pair pairs ih => rw [List.foldl_cons, ih, parameters_appendPair, List.append_assoc]; rfl

/-- Only the query is another. -/
theorem appendPairs_eq (u : Url) (pairs : List (String × String)) :
    ∃ query, u.appendPairs pairs = { u with query := query } := by
  have hstep (v : Url) (hv : ∃ query, v = { u with query := query }) :
      ∃ query, pairs.foldl appendPair v = { u with query := query } := by
    induction pairs generalizing v with
    | nil => exact hv
    | cons pair pairs ih =>
        apply ih
        obtain ⟨query, rfl⟩ := hv
        exact ⟨_, rfl⟩
  exact hstep _ ⟨_, rfl⟩

/-- An address that was parsed, given more parameters and written down is read as that. -/
theorem parse_appended (hdoc : parseHost.Documented) {address : String}
    (hremote : IsRemote address) (h : parse parseHost address = some u)
    (pairs : List (String × String)) :
    parse parseHost (String.ofList (u.appendPairs pairs).serialize) =
      some (u.appendPairs pairs) :=
  parse_serialize (wellFormed_appendPairs (wellFormed_parse hdoc hremote h) pairs)

end Url

end Web
