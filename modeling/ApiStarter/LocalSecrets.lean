import ApiStarter.Text.Lines
import Mathlib.Data.Finset.Card
import Mathlib.Data.Finset.Image

/-!
# Generated secrets

`gen --secrets` goes through the lines of `.env` once for each secret: the first
line that names it, commented out or not, gets the drawn value, unless it holds
one already; without such a line the assignment is appended.  Running it again
changes nothing, and the first run touches one line for each secret it reports,
except that a line which ends in a bare carriage return does not survive being
written back.
-/

namespace ApiStarter

open Text

/-! ## `infra::secrets` -/

/-- The characters of unpadded base64url. -/
def isBase64Url (c : Char) : Bool := c.isAlphanum || c = '-' || c = '_'

/-- `secret_token::generate().raw`: 32 random bytes in base64url. -/
structure RawToken where
  text : List Char
  base64Url : ∀ c ∈ text, isBase64Url c = true
  length_eq : text.length = 43

/-- The values one run draws. -/
structure DrawnSecrets where
  jwtSecret : RawToken
  metricsToken : RawToken
  adminPassword : RawToken

inductive PrometheusSync
  | notFound
  | noCredentialsLine
  | updated
  deriving DecidableEq

structure GeneratedSecrets where
  changed : List Line
  adminEmailMissing : Bool
  prometheusSync : Option PrometheusSync
  deriving DecidableEq

inductive SecretsError
  /-- `.env` cannot be read. -/
  | noEnvFile
  | write
  deriving DecidableEq

def SecretsError.message (envPath : String) : SecretsError → Option String
  | .noEnvFile => some ("no " ++ envPath ++ " found; run `cp .env.example .env` first")
  | .write => none

/-- The two files of the checkout, `none` for one that cannot be read, and whether they can be
written. -/
structure Checkout where
  env : Option (List Char)
  prometheus : Option (List Char)
  envWritable : Bool
  prometheusWritable : Bool

def jwtSecret : Line := "JWT_SECRET".toList
def metricsToken : Line := "METRICS_TOKEN".toList
def adminEmail : Line := "ADMIN_EMAIL".toList
def adminPassword : Line := "ADMIN_PASSWORD".toList

/-- `NAME=value`. -/
def assignment (name value : Line) : Line := name ++ '=' :: value

/-- What follows `NAME=` on the line, if it starts so. -/
def activeValue (name line : Line) : Option Line :=
  (trimStart line).dropPrefix? (assignment name [])

/-- The line starts with `# NAME=`. -/
def isCommented (name line : Line) : Bool :=
  (assignment ('#' :: ' ' :: name) []).isPrefixOf (trimStart line)

def setEnvVar (name value : Line) (force : Bool) : List Line → List Line × Bool
  | [] => ([assignment name value], true)
  | line :: rest =>
      match activeValue name line with
      | some existing =>
          if !existing.isEmpty && !force then (line :: rest, false)
          else (assignment name value :: rest, true)
      | none =>
          if isCommented name line then (assignment name value :: rest, true)
          else
            let (rest', changed) := setEnvVar name value force rest
            (line :: rest', changed)

def hasNonEmptyValue (lines : List Line) (name : Line) : Bool :=
  lines.any fun line ↦ (activeValue name line).any fun v ↦ !v.isEmpty

/-- What stands before the first `pat` in the line. -/
def textBefore (pat : Line) : Line → Option Line
  | [] => if pat.isEmpty then some [] else none
  | c :: line =>
      if pat.isPrefixOf (c :: line) then some [] else (textBefore pat line).map (c :: ·)

def credentialsKey : Line := "credentials:".toList

def credentialsLine (token line : Line) : Line :=
  match textBefore credentialsKey line with
  | some indent => indent ++ credentialsKey ++ ' ' :: '"' :: token ++ ['"']
  | none => line

def syncPrometheusToken (token : Line) (c : Checkout) :
    Checkout × Except SecretsError PrometheusSync :=
  match c.prometheus with
  | none => (c, .ok .notFound)
  | some contents =>
      if (lines contents).any fun line ↦ (textBefore credentialsKey line).isSome then
        if c.prometheusWritable then
          ({ c with prometheus := some (unlines ((lines contents).map (credentialsLine token))) },
            .ok .updated)
        else (c, .error .write)
      else (c, .ok .noCredentialsLine)

def syncIfSet (set : Bool) (token : Line) (c : Checkout) :
    Checkout × Except SecretsError (Option PrometheusSync) :=
  if set then ((syncPrometheusToken token c).1, (syncPrometheusToken token c).2.map some)
  else (c, .ok none)

/-- The lines and the names reported once the administrator's password has had its turn. -/
def setAdminPassword (drawn : DrawnSecrets) (force : Bool) (ls : List Line) (changed : List Line) :
    List Line × List Line :=
  if hasNonEmptyValue ls adminEmail then
    let (ls', set) := setEnvVar adminPassword drawn.adminPassword.text force ls
    (ls', if set then changed ++ [adminPassword] else changed)
  else (ls, changed)

def writeEnv (ls changed : List Line) (c : Checkout) : Checkout × Except SecretsError Unit :=
  if changed.isEmpty then (c, .ok ())
  else if c.envWritable then ({ c with env := some (unlines ls) }, .ok ())
  else (c, .error .write)

def generate (drawn : DrawnSecrets) (force : Bool) (c : Checkout) :
    Checkout × Except SecretsError GeneratedSecrets :=
  match c.env with
  | none => (c, .error .noEnvFile)
  | some contents =>
      let (ls₁, jwtSet) := setEnvVar jwtSecret drawn.jwtSecret.text force (lines contents)
      let (ls₂, metricsSet) := setEnvVar metricsToken drawn.metricsToken.text force ls₁
      match syncIfSet metricsSet drawn.metricsToken.text c with
      | (c', .error e) => (c', .error e)
      | (c', .ok prometheusSync) =>
          let adminEmailMissing := !hasNonEmptyValue ls₂ adminEmail
          let (ls₃, changed) := setAdminPassword drawn force ls₂
            ((if jwtSet then [jwtSecret] else []) ++ if metricsSet then [metricsToken] else [])
          match writeEnv ls₃ changed c' with
          | (c'', .error e) => (c'', .error e)
          | (c'', .ok ()) => (c'', .ok ⟨changed, adminEmailMissing, prometheusSync⟩)

/-! ## Lines and names -/

theorem isBase64Url_le {c : Char} (h : isBase64Url c = true) : c.toNat ≤ 'z'.toNat := by
  have hdigit : '9' ≤ 'z' := by decide
  have hupper : 'Z' ≤ 'z' := by decide
  have hranges : (decide ('A' ≤ c ∧ c ≤ 'Z') || decide ('a' ≤ c) && decide (c ≤ 'z') ||
      decide ('0' ≤ c) && decide (c ≤ '9') || c = '-' || c = '_') = true := h
  simp only [Bool.or_eq_true, Bool.and_eq_true, decide_eq_true_eq] at hranges
  rcases hranges with (((⟨-, h⟩ | ⟨-, h⟩) | ⟨-, h⟩) | rfl) | rfl
  · exact UInt32.le_trans h hupper
  · exact h
  · exact UInt32.le_trans h hdigit
  · decide
  · decide

/-- A token has no blank in it. -/
theorem isWhitespace_of_isBase64Url {c : Char} (h : isBase64Url c = true) :
    isWhitespace c = false := by
  have hall : blanks.all (fun d ↦ !isBase64Url d) = true := by decide
  have hlist : c ∉ blanks := by
    intro hmem
    have := List.all_eq_true.mp hall c hmem
    simp [h] at this
  have hrange : ¬ '\u2000' ≤ c := by
    intro hle
    have hle : '\u2000'.toNat ≤ c.toNat := hle
    have := hle.trans (isBase64Url_le h)
    revert this
    decide
  simp [isWhitespace, hlist, hrange]

/-- A name as `.env` carries it. -/
structure IsName (name : Line) : Prop where
  ne_nil : name ≠ []
  word : ∀ c ∈ name, c.isAlpha = true ∨ c = '_'

theorem IsName.of_all {name : Line} (hne : name ≠ [])
    (hall : name.all (fun c ↦ c.isAlpha || c == '_') = true) : IsName name :=
  ⟨hne, fun c hc ↦ by simpa using List.all_eq_true.mp hall c hc⟩

/-- The line names the variable, commented out or not. -/
def mentions (name line : Line) : Bool := (activeValue name line).isSome || isCommented name line

/-- The line holds a value already. -/
def isSetLine (name line : Line) : Bool := (activeValue name line).any fun v ↦ !v.isEmpty

variable {name other value line : Line} {ls ls' : List Line}

theorem activeValue_eq_some : activeValue name line = some value ↔
    trimStart line = assignment name value := by
  rw [activeValue, List.dropPrefix?_eq_some_iff]
  constructor
  · rintro ⟨front, heq, hfront⟩
    rw [heq, eq_of_beq hfront]
    simp [assignment]
  · intro heq
    exact ⟨assignment name [], by simp [heq, assignment], beq_self_eq_true _⟩

theorem isCommented_iff : isCommented name line = true ↔
    ∃ value, trimStart line = assignment ('#' :: ' ' :: name) value := by
  rw [isCommented, List.isPrefixOf_iff_prefix]
  constructor
  · rintro ⟨value, heq⟩
    exact ⟨value, by simp [← heq, assignment]⟩
  · rintro ⟨value, heq⟩
    exact ⟨value, by simp [heq, assignment]⟩

theorem mentions_iff : mentions name line = true ↔ ∃ value,
    trimStart line = assignment name value ∨
      trimStart line = assignment ('#' :: ' ' :: name) value := by
  rw [mentions, Bool.or_eq_true, Option.isSome_iff_exists, isCommented_iff]
  simp only [activeValue_eq_some, exists_or]

theorem mentions_of_isSetLine (h : isSetLine name line = true) : mentions name line = true := by
  rw [mentions, Bool.or_eq_true]
  cases hactive : activeValue name line with
  | none => simp [isSetLine, hactive] at h
  | some value => simp

theorem assignment_inj {n m v w : Line} (hn : '=' ∉ n) (hm : '=' ∉ m)
    (h : assignment n v = assignment m w) : n = m ∧ v = w := by
  induction n generalizing m with
  | nil =>
      cases m with
      | nil => exact ⟨rfl, by simpa [assignment] using h⟩
      | cons c m =>
          have hc : '=' = c := by simpa [assignment] using congrArg List.head? h
          exact absurd (hc ▸ List.mem_cons_self) hm
  | cons c n ih =>
      cases m with
      | nil =>
          have hc : c = '=' := by simpa [assignment] using congrArg List.head? h
          exact absurd (hc ▸ List.mem_cons_self) hn
      | cons d m =>
          obtain ⟨rfl, htail⟩ := List.cons_eq_cons.mp h
          obtain ⟨rfl, rfl⟩ := ih (fun hmem ↦ hn (List.mem_cons_of_mem _ hmem))
            (fun hmem ↦ hm (List.mem_cons_of_mem _ hmem)) htail
          exact ⟨rfl, rfl⟩

namespace IsName

theorem notMem (h : IsName name) {c : Char} (hc : c.isAlpha = false ∧ c ≠ '_') : c ∉ name := by
  intro hmem
  rcases h.word c hmem with halpha | rfl
  · rw [hc.1] at halpha
    cases halpha
  · exact hc.2 rfl

theorem equals_notMem (h : IsName name) : '=' ∉ name := h.notMem (by decide)

theorem equals_notMem_comment (h : IsName name) : '=' ∉ '#' :: ' ' :: name := by
  simp [h.equals_notMem]

/-- A name is not the commented form of another. -/
theorem ne_comment (h : IsName name) : name ≠ '#' :: ' ' :: other := by
  rintro rfl
  exact h.notMem (by decide) List.mem_cons_self

/-- A line names one variable at most. -/
theorem eq_of_mentions (hn : IsName name) (ho : IsName other) (h : mentions name line = true)
    (h' : mentions other line = true) : name = other := by
  obtain ⟨v, hv⟩ := mentions_iff.mp h
  obtain ⟨w, hw⟩ := mentions_iff.mp h'
  rcases hv with hv | hv <;> rcases hw with hw | hw <;> rw [hv] at hw
  · exact (assignment_inj hn.equals_notMem ho.equals_notMem hw).1
  · exact absurd (assignment_inj hn.equals_notMem ho.equals_notMem_comment hw).1 hn.ne_comment
  · exact absurd (assignment_inj hn.equals_notMem_comment ho.equals_notMem hw).1.symm
      ho.ne_comment
  · have heq := (assignment_inj hn.equals_notMem_comment ho.equals_notMem_comment hw).1
    simpa using heq

theorem trimStart_assignment (h : IsName name) :
    trimStart (assignment name value) = assignment name value := by
  obtain ⟨c, rest, rfl⟩ := List.exists_cons_of_ne_nil h.ne_nil
  apply List.dropWhile_cons_of_neg
  have hc : isBase64Url c = true ∨ c = '_' := by
    rcases h.word c List.mem_cons_self with halpha | hc
    · exact .inl (by simp [isBase64Url, Char.isAlphanum, halpha])
    · exact .inr hc
  rcases hc with hc | rfl
  · simp [isWhitespace_of_isBase64Url hc]
  · decide

theorem activeValue_assignment (h : IsName name) :
    activeValue name (assignment name value) = some value :=
  activeValue_eq_some.mpr h.trimStart_assignment

theorem mentions_assignment (h : IsName name) : mentions name (assignment name value) = true := by
  simp [mentions, h.activeValue_assignment]

theorem not_mentions_assignment (hn : IsName name) (ho : IsName other) (hne : name ≠ other) :
    mentions name (assignment other value) = false := by
  by_contra h
  exact hne (hn.eq_of_mentions ho (by simpa using h) ho.mentions_assignment)

end IsName

/-! ## One scan -/

/-- Where the scan for `name` stops: at the first line that names it, or at the end. -/
def stop (name : Line) (ls : List Line) : ℕ := ls.findIdx (mentions name)

/-- The line it stops at holds a value. -/
def isSet (name : Line) (ls : List Line) : Bool :=
  (ls.find? (mentions name)).any (isSetLine name)

/-- The lines with the `i`-th one replaced, or with one more. -/
def writeAt (i : ℕ) (line : Line) (ls : List Line) : List Line :=
  ls.take i ++ line :: ls.drop (i + 1)

theorem getElem?_writeAt {i : ℕ} (hi : i ≤ ls.length) (j : ℕ) :
    (writeAt i line ls)[j]? = if j = i then some line else ls[j]? := by
  have hlength : (ls.take i).length = i := by simp [hi]
  rw [writeAt]
  rcases Nat.lt_trichotomy j i with hlt | rfl | hgt
  · rw [List.getElem?_append_left (by omega), List.getElem?_take_of_lt hlt, if_neg (by omega)]
  · rw [List.getElem?_append_right (by omega), hlength]
    simp
  · rw [List.getElem?_append_right (by omega), hlength, if_neg (by omega),
      List.getElem?_cons, if_neg (by omega), List.getElem?_drop]
    congr 1
    omega

theorem stop_le : stop name ls ≤ ls.length := List.findIdx_le_length

theorem isSet_cons : isSet name (line :: ls) =
    if mentions name line then isSetLine name line else isSet name ls := by
  cases h : mentions name line <;> simp [isSet, h]

theorem stop_cons :
    stop name (line :: ls) = if mentions name line then 0 else stop name ls + 1 := by
  cases h : mentions name line <;> simp [stop, List.findIdx_cons, h]

theorem setEnvVar_of_isSet (h : isSet name ls = true) :
    setEnvVar name value false ls = (ls, false) := by
  induction ls with
  | nil => cases h
  | cons line ls ih =>
      rw [isSet_cons] at h
      cases hactive : activeValue name line with
      | some existing =>
          have hvalue : existing.isEmpty = false := by
            simpa [mentions, hactive, isSetLine] using h
          simp [setEnvVar, hactive, hvalue]
      | none =>
          cases hcomment : isCommented name line with
          | true => simp [mentions, hactive, hcomment, isSetLine] at h
          | false =>
              have htail : isSet name ls = true := by
                simpa [mentions, hactive, hcomment] using h
              simp [setEnvVar, hactive, hcomment, ih htail]

theorem setEnvVar_of_not_isSet (h : isSet name ls = false) :
    setEnvVar name value false ls =
      (writeAt (stop name ls) (assignment name value) ls, true) := by
  induction ls with
  | nil => simp [setEnvVar, writeAt]
  | cons line ls ih =>
      rw [isSet_cons] at h
      cases hactive : activeValue name line with
      | some existing =>
          have hvalue : existing.isEmpty = true := by
            simpa [mentions, hactive, isSetLine] using h
          simp [setEnvVar, hactive, hvalue, stop_cons, mentions, writeAt]
      | none =>
          cases hcomment : isCommented name line with
          | true => simp [setEnvVar, hactive, hcomment, stop_cons, mentions, writeAt]
          | false =>
              have htail : isSet name ls = false := by
                simpa [mentions, hactive, hcomment] using h
              simp [setEnvVar, hactive, hcomment, ih htail, stop_cons, mentions, writeAt]

theorem setEnvVar_snd : (setEnvVar name value false ls).2 = !isSet name ls := by
  cases h : isSet name ls with
  | true => rw [setEnvVar_of_isSet h]; rfl
  | false => rw [setEnvVar_of_not_isSet h]; rfl

/-- The line the scan stops at names the variable and holds no value. -/
theorem stop_line (h : isSet name ls = false) (hline : ls[stop name ls]? = some line) :
    mentions name line = true ∧ isSetLine name line = false := by
  obtain ⟨hlt, hget⟩ := List.getElem?_eq_some_iff.mp hline
  have hmentions : mentions name line = true := by
    rw [← hget]
    exact List.findIdx_getElem
  refine ⟨hmentions, ?_⟩
  have hfind : ls.find? (mentions name) = some line := by
    rw [List.find?_eq_getElem?_findIdx]
    exact hline
  simpa [isSet, hfind] using h

/-- After the scan the variable is set. -/
theorem isSet_setEnvVar (hn : IsName name) (hvalue : value ≠ []) :
    isSet name (setEnvVar name value false ls).1 = true := by
  cases h : isSet name ls with
  | true => rw [setEnvVar_of_isSet h, h]
  | false =>
      have hbefore : ∀ l ∈ ls.take (stop name ls), mentions name l = false := by
        intro l hl
        obtain ⟨i, hi, hget⟩ := List.mem_iff_getElem.mp hl
        rw [List.getElem_take] at hget
        rw [← hget]
        simpa using List.not_of_lt_findIdx (lt_of_lt_of_le hi (List.length_take_le _ _))
      have hnone : (ls.take (stop name ls)).find? (mentions name) = none := by
        simpa using hbefore
      rw [setEnvVar_of_not_isSet h, isSet, writeAt, List.find?_append, hnone]
      simp [hn.mentions_assignment, isSetLine, hn.activeValue_assignment, hvalue]

/-- What a scan writes stands where it stops. -/
theorem getElem?_setEnvVar (h : isSet name ls = false) (value : Line) (i : ℕ) :
    (setEnvVar name value false ls).1[i]? =
      if i = stop name ls then some (assignment name value) else ls[i]? := by
  rw [setEnvVar_of_not_isSet h, getElem?_writeAt stop_le]

/-! ## Lines of other variables -/

/-- The second list has other lines than the first only where both satisfy `P`, and more lines at
its end only if they do. -/
inductive DifferOnly (P : Line → Prop) : List Line → List Line → Prop
  | nil : DifferOnly P [] []
  | same {l ls ls'} : DifferOnly P ls ls' → DifferOnly P (l :: ls) (l :: ls')
  | other {l l' ls ls'} : P l → P l' → DifferOnly P ls ls' → DifferOnly P (l :: ls) (l' :: ls')
  | added {l ls} : P l → DifferOnly P [] ls → DifferOnly P [] (l :: ls)

namespace DifferOnly

variable {P : Line → Prop}

theorem refl (ls : List Line) : DifferOnly P ls ls := by
  induction ls with
  | nil => exact .nil
  | cons l ls ih => exact .same ih

theorem setEnvVar (hold : ∀ l, mentions other l = true → isSetLine other l = false → P l)
    (hnew : P (assignment other value)) (ls : List Line) :
    DifferOnly P ls (setEnvVar other value false ls).1 := by
  induction ls with
  | nil => exact .added hnew .nil
  | cons l ls ih =>
      rw [ApiStarter.setEnvVar]
      cases hactive : activeValue other l with
      | some existing =>
          cases hvalue : existing.isEmpty with
          | false => simpa [hvalue] using refl (l :: ls)
          | true =>
              have hl : P l := hold l (by simp [mentions, hactive])
                (by simp [isSetLine, hactive, hvalue])
              simpa [hvalue] using .other hl hnew (refl ls)
      | none =>
          cases hcomment : isCommented other l with
          | true =>
              have hl : P l := hold l (by simp [mentions, hcomment]) (by simp [isSetLine, hactive])
              simpa [hcomment] using .other hl hnew (refl ls)
          | false => simpa [hcomment] using .same ih

theorem length_le (h : DifferOnly P ls ls') : ls.length ≤ ls'.length := by
  induction h with
  | nil => exact Nat.le_refl _
  | same _ ih => exact Nat.succ_le_succ ih
  | other _ _ _ ih => exact Nat.succ_le_succ ih
  | added => exact Nat.zero_le _

/-- A scan for what `P` does not name passes over the differences. -/
theorem isSet_eq (h : DifferOnly P ls ls') (hP : ∀ l, P l → mentions name l = false) :
    isSet name ls' = isSet name ls := by
  induction h with
  | nil => rfl
  | same _ ih => simp only [isSet_cons, ih]
  | other hl hl' _ ih => simpa [isSet_cons, hP _ hl, hP _ hl'] using ih
  | added hl _ ih => simpa [isSet_cons, hP _ hl] using ih

theorem stop_eq_or (h : DifferOnly P ls ls') (hP : ∀ l, P l → mentions name l = false) :
    stop name ls' = stop name ls ∨ (stop name ls = ls.length ∧ ls.length ≤ stop name ls') := by
  induction h with
  | nil => exact .inl rfl
  | @same l ls ls' _ ih =>
      cases hl : mentions name l with
      | true => exact .inl (by simp [stop_cons, hl])
      | false => simpa [stop_cons, hl] using ih
  | other hl hl' _ ih => simpa [stop_cons, hP _ hl, hP _ hl'] using ih
  | added => exact .inr ⟨rfl, Nat.zero_le _⟩

theorem hasNonEmptyValue_eq (h : DifferOnly P ls ls') (hP : ∀ l, P l → mentions name l = false) :
    hasNonEmptyValue ls' name = hasNonEmptyValue ls name := by
  have hno : ∀ l, P l → isSetLine name l = false := by
    intro l hl
    by_contra hset
    have := mentions_of_isSetLine (by simpa using hset)
    rw [hP l hl] at this
    cases this
  have hany : ∀ ls, hasNonEmptyValue ls name = ls.any (isSetLine name) := fun ls ↦ rfl
  simp only [hany]
  induction h with
  | nil => rfl
  | same _ ih => simp only [List.any_cons, ih]
  | other hl hl' _ ih => simp only [List.any_cons, hno _ hl, hno _ hl', ih]
  | added hl _ ih => simp only [List.any_cons, hno _ hl, ih, Bool.false_or]

end DifferOnly

theorem length_le_setEnvVar (name value : Line) (ls : List Line) :
    ls.length ≤ (setEnvVar name value false ls).1.length :=
  (DifferOnly.setEnvVar (P := fun _ ↦ True) (fun _ _ _ ↦ trivial) trivial ls).length_le

/-- A scan leaves the lines of other variables alone. -/
theorem differOnly_of_ne (hn : IsName name) (ho : IsName other) (hne : name ≠ other)
    (value : Line) (ls : List Line) :
    DifferOnly (fun l ↦ mentions name l = false) ls (setEnvVar other value false ls).1 := by
  apply DifferOnly.setEnvVar
  · intro l hl _
    by_contra hmentions
    exact hne (hn.eq_of_mentions ho (by simpa using hmentions) hl)
  · exact hn.not_mentions_assignment ho hne

/-! ## All the scans -/

/-- The scans one after the other, with the names that were written. -/
def setAll : List (Line × Line) → List Line → List Line × List Line
  | [], ls => (ls, [])
  | (name, value) :: rest, ls =>
      let (ls', set) := setEnvVar name value false ls
      let (ls'', changed) := setAll rest ls'
      (ls'', (if set then [name] else []) ++ changed)

theorem setAll_cons (p : Line × Line) (pairs : List (Line × Line)) (ls : List Line) :
    setAll (p :: pairs) ls = ((setAll pairs (setEnvVar p.1 p.2 false ls).1).1,
      (if !isSet p.1 ls then [p.1] else []) ++
        (setAll pairs (setEnvVar p.1 p.2 false ls).1).2) := by
  rw [← @setEnvVar_snd p.1 p.2 ls]
  rfl

/-- Different names, each with a value. -/
structure Assignable (pairs : List (Line × Line)) : Prop where
  isName : ∀ p ∈ pairs, IsName p.1
  value_ne_nil : ∀ p ∈ pairs, p.2 ≠ []
  nodup : (pairs.map Prod.fst).Nodup

namespace Assignable

variable {p : Line × Line} {pairs : List (Line × Line)}

theorem tail (h : Assignable (p :: pairs)) : Assignable pairs where
  isName q hq := h.isName q (List.mem_cons_of_mem _ hq)
  value_ne_nil q hq := h.value_ne_nil q (List.mem_cons_of_mem _ hq)
  nodup := (List.nodup_cons.mp h.nodup).2

theorem ne_of_mem (h : Assignable (p :: pairs)) {q : Line × Line} (hq : q ∈ pairs) :
    q.1 ≠ p.1 := by
  intro heq
  exact (List.nodup_cons.mp h.nodup).1 (heq ▸ List.mem_map_of_mem hq)

theorem differOnly (h : Assignable (p :: pairs)) {q : Line × Line} (hq : q ∈ pairs)
    (ls : List Line) :
    DifferOnly (fun l ↦ mentions q.1 l = false) ls (setEnvVar p.1 p.2 false ls).1 :=
  differOnly_of_ne (h.isName q (List.mem_cons_of_mem _ hq)) (h.isName p List.mem_cons_self)
    (h.ne_of_mem hq) _ _

/-- The other scans leave the lines of a variable alone. -/
theorem differOnly_setAll (h : Assignable pairs) (hn : IsName name)
    (hnot : ∀ q ∈ pairs, name ≠ q.1) (ls : List Line) :
    isSet name (setAll pairs ls).1 = isSet name ls ∧
      hasNonEmptyValue (setAll pairs ls).1 name = hasNonEmptyValue ls name := by
  induction pairs generalizing ls with
  | nil => exact ⟨rfl, rfl⟩
  | cons p pairs ih =>
      have hone := differOnly_of_ne hn (h.isName p List.mem_cons_self)
        (hnot p List.mem_cons_self) p.2 ls
      obtain ⟨hset, hvalue⟩ := ih h.tail (fun q hq ↦ hnot q (List.mem_cons_of_mem _ hq))
        (setEnvVar p.1 p.2 false ls).1
      exact ⟨hset.trans (hone.isSet_eq fun _ hl ↦ hl),
        hvalue.trans (hone.hasNonEmptyValue_eq fun _ hl ↦ hl)⟩

/-- What is reported is what was not set. -/
theorem changed_eq (h : Assignable pairs) :
    (setAll pairs ls).2 = (pairs.map Prod.fst).filter fun n ↦ !isSet n ls := by
  induction pairs generalizing ls with
  | nil => rfl
  | cons p pairs ih =>
      have htail : (pairs.map Prod.fst).filter (fun n ↦ !isSet n (setEnvVar p.1 p.2 false ls).1) =
          (pairs.map Prod.fst).filter fun n ↦ !isSet n ls := by
        apply List.filter_congr
        intro n hn
        obtain ⟨q, hq, rfl⟩ := List.mem_map.mp hn
        rw [(h.differOnly hq ls).isSet_eq fun _ hl ↦ hl]
      rw [List.map_cons, List.filter_cons, ← htail, ← ih h.tail, setAll_cons]
      cases isSet p.1 ls <;> rfl

theorem mem_changed (h : Assignable pairs) : name ∈ (setAll pairs ls).2 ↔
    name ∈ pairs.map Prod.fst ∧ isSet name ls = false := by
  simp [h.changed_eq]

/-- Afterwards every variable is set. -/
theorem isSet_setAll (h : Assignable pairs) {q : Line × Line} (hq : q ∈ pairs) :
    isSet q.1 (setAll pairs ls).1 = true := by
  induction pairs generalizing ls with
  | nil => cases hq
  | cons p pairs ih =>
      rcases List.mem_cons.mp hq with rfl | hq
      · have hkept := (h.tail.differOnly_setAll (h.isName q List.mem_cons_self)
          (fun r hr ↦ (h.ne_of_mem hr).symm) (setEnvVar q.1 q.2 false ls).1).1
        exact hkept.trans (isSet_setEnvVar (h.isName q List.mem_cons_self)
          (h.value_ne_nil q List.mem_cons_self))
      · exact ih h.tail hq

theorem setAll_of_isSet (h : ∀ p ∈ pairs, isSet p.1 ls = true) : setAll pairs ls = (ls, []) := by
  induction pairs with
  | nil => rfl
  | cons p pairs ih =>
      rw [setAll, setEnvVar_of_isSet (h p List.mem_cons_self)]
      simp [ih fun q hq ↦ h q (List.mem_cons_of_mem _ hq)]

end Assignable

/-- Where the scans wrote: each reported variable at the line its scan stops at, or at one of the
lines that were added. -/
structure Places (pairs : List (Line × Line)) (ls : List Line) (place : Line → ℕ) : Prop where
  written : ∀ p ∈ pairs, p.1 ∈ (setAll pairs ls).2 →
    (setAll pairs ls).1[place p.1]? = some (assignment p.1 p.2)
  stops : ∀ n ∈ (setAll pairs ls).2,
    place n = stop n ls ∨ (stop n ls = ls.length ∧ ls.length ≤ place n)
  others : ∀ i, (∀ n ∈ (setAll pairs ls).2, place n ≠ i) → (setAll pairs ls).1[i]? = ls[i]?
  length_le : ls.length ≤ (setAll pairs ls).1.length

namespace Places

variable {p : Line × Line} {pairs : List (Line × Line)} {place : Line → ℕ}

theorem cons_of_isSet (h : Assignable (p :: pairs)) (hplaces : Places pairs ls place)
    (hset : isSet p.1 ls = true) : Places (p :: pairs) ls place := by
  have hone : setEnvVar p.1 p.2 false ls = (ls, false) := setEnvVar_of_isSet hset
  have hall : setAll (p :: pairs) ls = setAll pairs ls := by rw [setAll, hone]; rfl
  refine ⟨?_, ?_, ?_, ?_⟩ <;> rw [hall]
  · intro q hq hmem
    rcases List.mem_cons.mp hq with rfl | hq
    · simp [h.tail.mem_changed, hset] at hmem
    · exact hplaces.written q hq hmem
  · exact hplaces.stops
  · exact hplaces.others
  · exact hplaces.length_le

/-- The line just written names no other variable, so no later scan stops there. -/
theorem cons_of_not_isSet (h : Assignable (p :: pairs))
    (hplaces : Places pairs (setEnvVar p.1 p.2 false ls).1 place) (hset : isSet p.1 ls = false) :
    Places (p :: pairs) ls (Function.update place p.1 (stop p.1 ls)) := by
  have hname : ∀ n ∈ (setAll pairs (setEnvVar p.1 p.2 false ls).1).2, ∃ q ∈ pairs, q.1 = n :=
    fun n hn ↦ List.mem_map.mp (h.tail.mem_changed.mp hn).1
  have hall : setAll (p :: pairs) ls = ((setAll pairs (setEnvVar p.1 p.2 false ls).1).1,
      p.1 :: (setAll pairs (setEnvVar p.1 p.2 false ls).1).2) := by
    rw [setAll_cons, hset]
    rfl
  have hget := getElem?_setEnvVar hset p.2
  have hline := (hget (stop p.1 ls)).trans (if_pos rfl)
  have hlength : stop p.1 ls < (setEnvVar p.1 p.2 false ls).1.length :=
    (List.getElem?_eq_some_iff.mp hline).1
  have hne : ∀ n ∈ (setAll pairs (setEnvVar p.1 p.2 false ls).1).2, n ≠ p.1 := by
    intro n hn
    obtain ⟨q, hq, rfl⟩ := hname n hn
    exact h.ne_of_mem hq
  have hapart : ∀ n ∈ (setAll pairs (setEnvVar p.1 p.2 false ls).1).2,
      place n ≠ stop p.1 ls := by
    intro n hn heq
    obtain ⟨q, hq, rfl⟩ := hname n hn
    rcases hplaces.stops _ hn with hstop | ⟨-, hle⟩
    · rw [← heq, hstop] at hline
      have hmentions := (stop_line (h.tail.mem_changed.mp hn).2 hline).1
      exact hne _ hn ((h.isName q (List.mem_cons_of_mem _ hq)).eq_of_mentions
        (h.isName p List.mem_cons_self) hmentions
        (h.isName p List.mem_cons_self).mentions_assignment)
    · omega
  have hplace : ∀ n ∈ (setAll pairs (setEnvVar p.1 p.2 false ls).1).2,
      Function.update place p.1 (stop p.1 ls) n = place n :=
    fun n hn ↦ Function.update_of_ne (hne n hn) _ _
  refine ⟨?_, ?_, ?_, ?_⟩ <;> rw [hall]
  · intro q hq hmem
    rcases List.mem_cons.mp hq with rfl | hq
    · rw [Function.update_self, hplaces.others _ hapart, hget, if_pos rfl]
    · rcases List.mem_cons.mp hmem with heq | hmem
      · exact absurd heq (h.ne_of_mem hq)
      · rw [hplace _ hmem]
        exact hplaces.written q hq hmem
  · intro n hn
    rcases List.mem_cons.mp hn with rfl | hn
    · exact .inl (Function.update_self _ _ _)
    · rw [hplace n hn]
      obtain ⟨q, hq, rfl⟩ := hname n hn
      have hmoved := (h.differOnly hq ls).stop_eq_or fun _ hl ↦ hl
      have hle := (h.differOnly hq ls).length_le
      have hbound := @stop_le q.1 ls
      have hstops := hplaces.stops _ hn
      omega
  · intro j hj
    have hother : ∀ n ∈ (setAll pairs (setEnvVar p.1 p.2 false ls).1).2, place n ≠ j := by
      intro n hn
      rw [← hplace n hn]
      exact hj n (List.mem_cons_of_mem _ hn)
    have hstop : j ≠ stop p.1 ls := by
      have := hj p.1 List.mem_cons_self
      rw [Function.update_self] at this
      exact this.symm
    rw [hplaces.others j hother, hget, if_neg hstop]
  · exact (length_le_setEnvVar p.1 p.2 ls).trans hplaces.length_le

end Places

theorem exists_places {pairs : List (Line × Line)} (h : Assignable pairs) (ls : List Line) :
    ∃ place, Places pairs ls place := by
  induction pairs generalizing ls with
  | nil =>
      refine ⟨fun _ ↦ 0, ⟨?_, ?_, fun _ _ ↦ rfl, Nat.le_refl _⟩⟩
      · intro p hp
        cases hp
      · intro n hn
        cases hn
  | cons p pairs ih =>
      cases hset : isSet p.1 ls with
      | true =>
          obtain ⟨place, hplaces⟩ := ih h.tail ls
          exact ⟨place, hplaces.cons_of_isSet h hset⟩
      | false =>
          obtain ⟨place, hplaces⟩ := ih h.tail (setEnvVar p.1 p.2 false ls).1
          exact ⟨_, hplaces.cons_of_not_isSet h hset⟩

/-! ## A run -/

/-- The variables a run looks at, with the values drawn for them. -/
def wanted (drawn : DrawnSecrets) (ls : List Line) : List (Line × Line) :=
  [(jwtSecret, drawn.jwtSecret.text), (metricsToken, drawn.metricsToken.text)] ++
    if hasNonEmptyValue ls adminEmail then [(adminPassword, drawn.adminPassword.text)] else []

theorem isName_jwtSecret : IsName jwtSecret := .of_all (by decide) (by decide)
theorem isName_metricsToken : IsName metricsToken := .of_all (by decide) (by decide)
theorem isName_adminEmail : IsName adminEmail := .of_all (by decide) (by decide)
theorem isName_adminPassword : IsName adminPassword := .of_all (by decide) (by decide)

theorem RawToken.text_ne_nil (t : RawToken) : t.text ≠ [] := by
  intro h
  have := t.length_eq
  simp [h] at this

variable {drawn : DrawnSecrets} {c c' : Checkout} {g : GeneratedSecrets} {contents : List Char}

theorem mem_wanted {p : Line × Line} (h : p ∈ wanted drawn ls) :
    p = (jwtSecret, drawn.jwtSecret.text) ∨ p = (metricsToken, drawn.metricsToken.text) ∨
      p = (adminPassword, drawn.adminPassword.text) := by
  rw [wanted] at h
  split at h <;> simp at h <;> tauto

theorem assignable_wanted (drawn : DrawnSecrets) (ls : List Line) :
    Assignable (wanted drawn ls) where
  isName p hp := by
    rcases mem_wanted hp with rfl | rfl | rfl
    · exact isName_jwtSecret
    · exact isName_metricsToken
    · exact isName_adminPassword
  value_ne_nil p hp := by
    rcases mem_wanted hp with rfl | rfl | rfl <;> exact RawToken.text_ne_nil _
  nodup := by
    rw [wanted]
    split
    · exact (by decide : [jwtSecret, metricsToken, adminPassword].Nodup)
    · exact (by decide : [jwtSecret, metricsToken].Nodup)

/-- No scan makes or removes an administrator's address. -/
theorem hasNonEmptyValue_setAll_wanted :
    hasNonEmptyValue (setAll (wanted drawn ls) ls).1 adminEmail =
      hasNonEmptyValue ls adminEmail := by
  apply ((assignable_wanted drawn ls).differOnly_setAll isName_adminEmail _ ls).2
  intro q hq
  rcases mem_wanted hq with rfl | rfl | rfl
  · exact (by decide : adminEmail ≠ jwtSecret)
  · exact (by decide : adminEmail ≠ metricsToken)
  · exact (by decide : adminEmail ≠ adminPassword)

theorem setAdminPassword_eq (drawn : DrawnSecrets) (ls : List Line) :
    setAdminPassword drawn false
        (setEnvVar metricsToken drawn.metricsToken.text false
          (setEnvVar jwtSecret drawn.jwtSecret.text false ls).1).1
        ((if (setEnvVar jwtSecret drawn.jwtSecret.text false ls).2 then [jwtSecret] else []) ++
          if (setEnvVar metricsToken drawn.metricsToken.text false
            (setEnvVar jwtSecret drawn.jwtSecret.text false ls).1).2 then [metricsToken] else []) =
      setAll (wanted drawn ls) ls := by
  have hjwt := (differOnly_of_ne isName_adminEmail isName_jwtSecret (by decide)
    drawn.jwtSecret.text ls).hasNonEmptyValue_eq fun _ hl ↦ hl
  have hmetrics := (differOnly_of_ne isName_adminEmail isName_metricsToken (by decide)
    drawn.metricsToken.text (setEnvVar jwtSecret drawn.jwtSecret.text false ls).1
    ).hasNonEmptyValue_eq fun _ hl ↦ hl
  rw [setAdminPassword, hmetrics, hjwt, wanted]
  cases hasNonEmptyValue ls adminEmail with
  | false => simp [setAll]
  | true =>
      simp only [setAll, if_true, List.cons_append, List.nil_append, List.append_nil]
      cases (setEnvVar adminPassword drawn.adminPassword.text false
        (setEnvVar metricsToken drawn.metricsToken.text false
          (setEnvVar jwtSecret drawn.jwtSecret.text false ls).1).1).2 <;> simp

theorem syncPrometheusToken_env (token : Line) (c : Checkout) :
    (syncPrometheusToken token c).1.env = c.env := by
  rw [syncPrometheusToken]
  repeat' split
  all_goals rfl

theorem syncIfSet_env (set : Bool) (token : Line) (c : Checkout) :
    (syncIfSet set token c).1.env = c.env := by
  rw [syncIfSet]
  split
  · exact syncPrometheusToken_env token c
  · rfl

theorem writeEnv_ok {changed : List Line} (h : writeEnv ls changed c = (c', .ok ())) :
    c'.env = if changed.isEmpty then c.env else some (unlines ls) := by
  rw [writeEnv] at h
  split at h
  case isTrue hnone =>
    obtain rfl := (Prod.ext_iff.mp h).1
    rw [if_pos hnone]
  case isFalse hsome =>
    rw [if_neg hsome]
    split at h
    · obtain rfl := (Prod.ext_iff.mp h).1
      rfl
    · cases (Prod.ext_iff.mp h).2

/-- What a run without `force` did when it succeeds. -/
theorem generate_ok (hread : c.env = some contents) (h : generate drawn false c = (c', .ok g)) :
    g.changed = (setAll (wanted drawn (lines contents)) (lines contents)).2 ∧
      c'.env = some (if g.changed.isEmpty then contents
        else unlines (setAll (wanted drawn (lines contents)) (lines contents)).1) := by
  rw [generate, hread] at h
  dsimp only at h
  rw [setAdminPassword_eq] at h
  split at h
  · cases (Prod.ext_iff.mp h).2
  case h_2 synced sync hsynced =>
    have henv : synced.env = some contents := by
      have hkept := congrArg (fun r ↦ r.1.env) hsynced
      simp only [syncIfSet_env] at hkept
      exact hkept.symm.trans hread
    split at h
    · cases (Prod.ext_iff.mp h).2
    case h_2 written hwritten =>
      obtain ⟨rfl, hresult⟩ := Prod.ext_iff.mp h
      obtain rfl := Except.ok.inj hresult
      refine ⟨rfl, ?_⟩
      rw [writeEnv_ok hwritten, henv]
      split <;> rfl

theorem generate_of_isSet (hread : c.env = some contents)
    (h : ∀ p ∈ wanted drawn (lines contents), isSet p.1 (lines contents) = true) :
    generate drawn false c =
      (c, .ok ⟨[], !hasNonEmptyValue (lines contents) adminEmail, none⟩) := by
  have hjwt := h (jwtSecret, drawn.jwtSecret.text) (by simp [wanted])
  have hmetrics := h (metricsToken, drawn.metricsToken.text) (by simp [wanted])
  have hall := setAdminPassword_eq drawn (lines contents)
  rw [Assignable.setAll_of_isSet h] at hall
  rw [setEnvVar_of_isSet hjwt, setEnvVar_of_isSet hmetrics] at hall
  rw [generate, hread]
  dsimp only
  rw [setEnvVar_of_isSet hjwt]
  dsimp only
  rw [setEnvVar_of_isSet hmetrics]
  dsimp only at hall ⊢
  rw [hall]
  simp [syncIfSet, writeEnv]

end ApiStarter
