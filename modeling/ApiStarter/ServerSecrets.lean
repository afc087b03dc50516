import ApiStarter.SecretsRerun
import ApiStarter.Text.Lowercase

/-!
# Secrets as the server reads them

`gen --secrets` decides from the first line that names a variable, commented out
or not, whether it is set; the server takes the first assignment in the file, and
a blank one counts as none.  The two agree unless an assignment the scan does not
recognise comes first, or one that it never reaches comes later.  The scan knows
nothing of quoted values that go on over several lines, nor of values that refer
to others; files where these meet the lines it writes are set apart.
-/

namespace ApiStarter

open Text

/-! ## The server's reading -/

/-- What `${NAME}` stands for. -/
abbrev Variables := Line → Option Line

/-- What a line of `.env` is to the process that loads the file. -/
inductive Entry
  /-- A blank line, a comment, or a part of a value that goes on. -/
  | nothing
  | assign (name : Line) (value : Variables → Line)
  /-- Loading stops here. -/
  | malformed

/-- The parser of `dotenvy`. -/
structure EnvParser where
  /-- What is open where a line ends, such as a quote. -/
  Mode : Type
  start : Mode
  /-- Nothing is open. -/
  rest : Mode
  /-- Reads a line with its end. -/
  step : Mode → Line → Mode × Entry
  /-- The variables of the process before the file is loaded. -/
  environment : Variables

namespace EnvParser

variable (r : EnvParser)

def AtRest (m : r.Mode) : Prop := m = r.start ∨ m = r.rest

/-- Reads a line that a newline ends. -/
def next (m : r.Mode) (l : Line) : r.Mode × Entry := r.step m (l ++ ['\n'])

def modeAfter (m : r.Mode) : List Line → r.Mode
  | [] => m
  | l :: ls => modeAfter (r.next m l).1 ls

/-- What lines with their ends say. -/
def entries (m : r.Mode) : List Line → List Entry
  | [] => []
  | l :: ls => (r.step m l).2 :: entries (r.step m l).1 ls

/-- What lines say that newlines end. -/
def read (m : r.Mode) (ls : List Line) : List Entry := r.entries m (ls.map (· ++ ['\n']))

/-- What `dotenvy` documents of lines that begin with nothing open. -/
structure Documented : Prop where
  comment : ∀ m l text, r.AtRest m → trimStart l = '#' :: text → r.next m l = (r.rest, .nothing)
  /-- Nothing after the equals sign is the empty value. -/
  empty : ∀ m l name, r.AtRest m → IsName name → trimStart l = assignment name [] →
    r.next m l = (r.rest, .assign name fun _ ↦ [])
  /-- A value of letters, digits, `-` and `_` stands for itself. -/
  plain : ∀ m name, r.AtRest m → IsName name → ∀ token : RawToken,
    r.next m (assignment name token.text) = (r.rest, .assign name fun _ ↦ token.text)
  /-- It makes no difference how a line ends that leaves nothing open. -/
  lineEnd : ∀ m l ending, ending = [] ∨ ending = ['\r', '\n'] → r.AtRest m →
    r.AtRest (r.step m (l ++ ending)).1 → r.step m (l ++ ending) = r.next m l

end EnvParser

/-- The first value of a variable is the one it keeps. -/
def Variables.assign (env : Variables) (name value : Line) : Variables :=
  fun n ↦ if n = name then some ((env n).getD value) else env n

/-- The value of a variable once the file is loaded: its first assignment, if no line before it
is malformed. -/
def envVar (name : Line) : Variables → List Entry → Option Line
  | _, [] => none
  | env, .nothing :: es => envVar name env es
  | env, .assign other value :: es =>
      if other = name then some (value env) else envVar name (env.assign other (value env)) es
  | _, .malformed :: _ => none

/-- `non_empty`: blank counts as unset. -/
def nonEmpty (name : Line) (env : Variables) (es : List Entry) : Option Line :=
  (envVar name env es).filter fun v ↦ !(v.all isWhitespace)

/-! ## When both see the same -/

section Reading

variable (r : EnvParser)

/-- The secret that the server takes from a file. -/
def secretIn (name : Line) (contents : List Char) : Option Line :=
  nonEmpty name r.environment (r.entries r.start (wholeLines contents))

/-- A secret that was set keeps its value, one that was not has the drawn one. -/
def ProperlySet (name token : Line) (contents contents' : List Char) : Prop :=
  secretIn r name contents' = some ((secretIn r name contents).getD token)

/-- The lines before the one the scan stops at. -/
def linesBefore (name : Line) (ls : List Line) : List Line :=
  ls.takeWhile fun l ↦ !mentions name l

/-- Loading gets through. -/
def readsOn : List Entry → Bool
  | [] => true
  | .malformed :: _ => false
  | _ :: es => readsOn es

/-- Where the scan keeps a value, the server must find one as well.  Where it writes, either a
value comes first that only the server recognises, or the server reads up to that line without an
assignment and finds no value after it, save by accident the drawn one. -/
def SeenAlike (m : r.Mode) (env : Variables) (name token : Line) (ls : List Line) : Prop :=
  if isSet name ls then (nonEmpty name env (r.read m ls)).isSome = true
  else (nonEmpty name env (r.read m (linesBefore name ls))).isSome = true ∨
    (readsOn (r.read m (linesBefore name ls)) = true ∧
      envVar name env (r.read m (linesBefore name ls)) = none ∧
        ∀ v ∈ nonEmpty name env (r.read m ls), v = token)

/-! ## Where quotes and references do not meet the scan -/

/-- Lines that end in another way than in a newline alone begin and end with nothing open. -/
def EndsAtRest (m : r.Mode) : List Line → Prop
  | [] => True
  | l :: ls => (l ≠ dropEnd l ++ ['\n'] → r.AtRest m ∧ r.AtRest (r.step m l).1) ∧
      EndsAtRest (r.step m l).1 ls

/-- Where the scan writes, nothing is open. -/
def WritesAtRest (m : r.Mode) (name : Line) (ls : List Line) : Prop :=
  isSet name ls = false → r.AtRest (r.modeAfter m (linesBefore name ls))

/-- The value does not depend on these variables. -/
def IndependentOf (T : Line → Prop) (value : Variables → Line) : Prop :=
  ∀ env env' : Variables, (∀ n, ¬T n → env n = env' n) → value env = value env'

/-- The variables of `T` can change without any other changing, or one of `names`. -/
def Untangled (T : Line → Prop) (names : List Line) (es : List Entry) : Prop :=
  ∀ other value, Entry.assign other value ∈ es → (¬T other ∨ other ∈ names) →
    IndependentOf T value

/-- No scan writes inside a quoted value, no quoted value goes on over a line end that the run
does not keep, and neither secret refers, be it through other variables, to one the run writes. -/
structure ScannedApart (contents : List Char) : Prop where
  ends : EndsAtRest r r.start (wholeLines contents)
  atRest : ∀ n ∈ wantedNames (lines contents), WritesAtRest r r.start n (lines contents)
  untangled : ∃ T : Line → Prop,
    (∀ n ∈ wantedNames (lines contents), isSet n (lines contents) = false → T n) ∧
      Untangled T [jwtSecret, metricsToken] (r.read r.start (lines contents))

end Reading

variable {r : EnvParser} {m : r.Mode} {env env' : Variables} {name other value line : Line}
  {ls ls' : List Line} {T : Line → Prop} {names : List Line} {e : Entry} {es : List Entry}

namespace EnvParser

@[simp] theorem atRest_rest : r.AtRest r.rest := .inr rfl

@[simp] theorem read_nil : r.read m [] = [] := rfl

@[simp] theorem read_cons :
    r.read m (line :: ls) = (r.next m line).2 :: r.read (r.next m line).1 ls := rfl

end EnvParser

open EnvParser

/-- What a scan replaces is a comment or a blank assignment. -/
theorem EnvParser.Documented.next_of_open (h : r.Documented) (hm : r.AtRest m) (hn : IsName name)
    (hmentions : mentions name line = true) (hopen : isSetLine name line = false) :
    r.next m line = (r.rest, .nothing) ∨ r.next m line = (r.rest, .assign name fun _ ↦ []) := by
  cases hactive : activeValue name line with
  | some v =>
      obtain rfl : v = [] := by simpa [isSetLine, hactive] using hopen
      exact .inr (h.empty m line name hm hn (activeValue_eq_some.mp hactive))
  | none =>
      have hcomment : isCommented name line = true := by simpa [mentions, hactive] using hmentions
      obtain ⟨v, hv⟩ := isCommented_iff.mp hcomment
      exact .inl (h.comment m line _ hm hv)

/-- The ends of the lines make no difference where nothing is open. -/
theorem EnvParser.Documented.entries_eq (h : r.Documented) {ls : List Line}
    (hends : EndsAtRest r m ls) : r.entries m ls = r.read m (ls.map dropEnd) := by
  induction ls generalizing m with
  | nil => rfl
  | cons l ls ih =>
      have hline : r.step m l = r.next m (dropEnd l) := by
        rcases eq_dropEnd_append l with heq | heq | heq
        · by_cases hplain : l = dropEnd l ++ ['\n']
          · conv_lhs => rw [hplain]
            rfl
          · have hrest := hends.1 hplain
            have hstep := h.lineEnd m (dropEnd l) [] (.inl rfl) hrest.1
            rw [List.append_nil, ← heq] at hstep
            rw [← heq]
            exact hstep hrest.2
        · conv_lhs => rw [heq]
          rfl
        · by_cases hplain : l = dropEnd l ++ ['\n']
          · conv_lhs => rw [hplain]
            rfl
          · have hrest := hends.1 hplain
            have hstep := h.lineEnd m (dropEnd l) ['\r', '\n'] (.inr rfl) hrest.1
            rw [← heq] at hstep
            exact hstep hrest.2
      rw [entries, List.map_cons, read_cons, ih hends.2, hline]

/-! ## What cannot change a secret -/

section Tangles

/-- Variables that agree outside `T` give the same value. -/
theorem envVar_congr (henv : ∀ n, ¬T n → env n = env' n) (hname : name ∈ names)
    (hes : Untangled T names es) : envVar name env es = envVar name env' es := by
  induction es generalizing env env' with
  | nil => rfl
  | cons e es ih =>
      have htail : Untangled T names es := fun other value hmem ↦
        hes other value (List.mem_cons_of_mem _ hmem)
      cases e with
      | nothing => exact ih henv htail
      | malformed => rfl
      | assign other value =>
          have hvalue (h : ¬T other ∨ other ∈ names) : value env = value env' :=
            hes other value List.mem_cons_self h env env' henv
          rw [envVar, envVar]
          by_cases hother : other = name
          · rw [if_pos hother, if_pos hother, hvalue (.inr (hother ▸ hname))]
          · rw [if_neg hother, if_neg hother]
            apply ih _ htail
            intro n hn
            by_cases heq : n = other
            · subst heq
              simp [Variables.assign, henv n hn, hvalue (.inl hn)]
            · simp [Variables.assign, heq, henv n hn]

/-- The entry says nothing, or something about another variable of `T`. -/
def LeavesAlone (T : Line → Prop) (name : Line) (e : Entry) : Prop :=
  e = .nothing ∨ ∃ other value, e = .assign other value ∧ T other ∧ other ≠ name

/-- The files differ in lines that leave the variable alone and nothing open. -/
inductive ReadAlike (r : EnvParser) (T : Line → Prop) (name : Line) :
    r.Mode → List Line → List Line → Prop
  | nil {m : r.Mode} : ReadAlike r T name m [] []
  | same {m : r.Mode} {l : Line} {ls ls' : List Line}
      (h : ReadAlike r T name (r.next m l).1 ls ls') : ReadAlike r T name m (l :: ls) (l :: ls')
  | other {m : r.Mode} {l l' : Line} {ls : List Line}
      (hl : mentions name l = false ∧ LeavesAlone T name (r.next m l).2)
      (hl' : mentions name l' = false ∧ LeavesAlone T name (r.next m l').2)
      (hmode : (r.next m l).1 = (r.next m l').1) : ReadAlike r T name m (l :: ls) (l' :: ls)
  | added {m : r.Mode} {l : Line} (hm : r.AtRest m) (hrest : r.AtRest (r.next m l).1)
      (hl : mentions name l = false ∧ LeavesAlone T name (r.next m l).2) :
      ReadAlike r T name m [] [l]

theorem ReadAlike.refl (m : r.Mode) (ls : List Line) : ReadAlike r T name m ls ls := by
  induction ls generalizing m with
  | nil => exact .nil
  | cons l ls ih => exact .same (ih _)

theorem linesBefore_cons (h : mentions name line = false) :
    linesBefore name (line :: ls) = line :: linesBefore name ls := by
  simp [linesBefore, h]

theorem linesBefore_cons_of_mentions (h : mentions name line = true) :
    linesBefore name (line :: ls) = [] := by
  simp [linesBefore, h]

/-- An entry that leaves the variable alone changes variables of `T` only. -/
theorem envVar_cons_of_leavesAlone (h : LeavesAlone T name e) (env : Variables) :
    ∃ env', (∀ n, ¬T n → env n = env' n) ∧
      ∀ es, envVar name env (e :: es) = envVar name env' es := by
  rcases h with rfl | ⟨other, value, rfl, hT, hne⟩
  · exact ⟨env, fun _ _ ↦ rfl, fun es ↦ rfl⟩
  · refine ⟨env.assign other (value env), fun n hn ↦ ?_, fun es ↦ by rw [envVar, if_neg hne]⟩
    have hother : n ≠ other := by
      rintro rfl
      exact hn hT
    simp [Variables.assign, hother]

theorem readsOn_cons_of_leavesAlone (h : LeavesAlone T name e) :
    readsOn (e :: es) = readsOn es := by
  rcases h with rfl | ⟨other, value, rfl, -, -⟩ <;> rfl

namespace ReadAlike

/-- What the scan passes over is read alike too. -/
theorem linesBefore (h : ReadAlike r T name m ls ls') :
    ReadAlike r T name m (linesBefore name ls) (linesBefore name ls') := by
  induction h with
  | nil => exact .nil
  | @same m l ls ls' _ ih =>
      cases hl : mentions name l with
      | true =>
          rw [linesBefore_cons_of_mentions hl, linesBefore_cons_of_mentions hl]
          exact .nil
      | false =>
          rw [linesBefore_cons hl, linesBefore_cons hl]
          exact .same ih
  | other hl hl' hmode =>
      rw [linesBefore_cons hl.1, linesBefore_cons hl'.1]
      exact .other hl hl' hmode
  | added hm hrest hl =>
      rw [linesBefore_cons hl.1]
      exact .added hm hrest hl

theorem atRest (h : ReadAlike r T name m ls ls') (hrest : r.AtRest (r.modeAfter m ls)) :
    r.AtRest (r.modeAfter m ls') := by
  induction h with
  | nil => exact hrest
  | same _ ih => exact ih hrest
  | other _ _ hmode =>
      rw [modeAfter, ← hmode]
      exact hrest
  | added _ hrest' _ => exact hrest'

theorem readsOn_eq (h : ReadAlike r T name m ls ls') :
    readsOn (r.read m ls') = readsOn (r.read m ls) := by
  induction h with
  | nil => rfl
  | @same m l ls ls' _ ih =>
      rw [read_cons, read_cons]
      cases hentry : (r.next m l).2 with
      | malformed => rfl
      | _ => exact ih
  | other hl hl' hmode =>
      rw [read_cons, read_cons, readsOn_cons_of_leavesAlone hl.2,
        readsOn_cons_of_leavesAlone hl'.2, hmode]
  | added _ _ hl => rw [read_cons, readsOn_cons_of_leavesAlone hl.2]; rfl

theorem envVar_eq (h : ReadAlike r T name m ls ls') (hname : name ∈ names)
    (hes : Untangled T names (r.read m ls)) (env : Variables) :
    envVar name env (r.read m ls') = envVar name env (r.read m ls) := by
  have htail {m : r.Mode} {l : Line} {ls : List Line}
      (h : Untangled T names (r.read m (l :: ls))) : Untangled T names (r.read (r.next m l).1 ls) :=
    fun other value hmem ↦ h other value (List.mem_cons_of_mem _ hmem)
  induction h generalizing env with
  | nil => rfl
  | @same m l ls ls' _ ih =>
      rw [read_cons, read_cons]
      cases hentry : (r.next m l).2 with
      | nothing => exact ih (htail hes) env
      | malformed => rfl
      | assign other value =>
          rw [envVar, envVar]
          split
          · rfl
          · exact ih (htail hes) _
  | other hl hl' hmode =>
      rw [read_cons, read_cons]
      obtain ⟨env₁, henv₁, heq₁⟩ := envVar_cons_of_leavesAlone hl.2 env
      obtain ⟨env₂, henv₂, heq₂⟩ := envVar_cons_of_leavesAlone hl'.2 env
      rw [heq₁, heq₂, ← hmode]
      exact envVar_congr (fun n hn ↦ (henv₂ n hn).symm.trans (henv₁ n hn)) hname (htail hes)
  | added _ _ hl =>
      rw [read_cons]
      obtain ⟨env', -, heq⟩ := envVar_cons_of_leavesAlone hl.2 env
      rw [heq]
      rfl

theorem nonEmpty_eq (h : ReadAlike r T name m ls ls') (hname : name ∈ names)
    (hes : Untangled T names (r.read m ls)) (env : Variables) :
    nonEmpty name env (r.read m ls') = nonEmpty name env (r.read m ls) := by
  rw [nonEmpty, h.envVar_eq hname hes, nonEmpty]

end ReadAlike

theorem untangled_cons : Untangled T names (e :: es) ↔
    (∀ other value, e = .assign other value → (¬T other ∨ other ∈ names) → IndependentOf T value) ∧
      Untangled T names es := by
  simp only [Untangled, List.mem_cons]
  constructor
  · exact fun h ↦ ⟨fun other value heq ↦ h other value (.inl heq.symm),
      fun other value hmem ↦ h other value (.inr hmem)⟩
  · rintro ⟨hhead, htail⟩ other value (heq | hmem)
    · exact hhead other value heq.symm
    · exact htail other value hmem

theorem Untangled.linesBefore (hes : Untangled T names (r.read m ls)) :
    Untangled T names (r.read m (linesBefore name ls)) := by
  induction ls generalizing m with
  | nil => exact hes
  | cons l ls ih =>
      rw [read_cons, untangled_cons] at hes
      cases hl : mentions name l with
      | true =>
          rw [linesBefore_cons_of_mentions hl]
          rintro other value ⟨⟩
      | false =>
          rw [linesBefore_cons hl, read_cons, untangled_cons]
          exact ⟨hes.1, ih hes.2⟩

theorem ReadAlike.seenAlike_iff (h : ReadAlike r T name m ls ls') (hname : name ∈ names)
    (hes : Untangled T names (r.read m ls)) (hset : isSet name ls' = isSet name ls)
    (env : Variables) (token : Line) :
    SeenAlike r m env name token ls' ↔ SeenAlike r m env name token ls := by
  rw [SeenAlike, SeenAlike, hset, h.nonEmpty_eq hname hes,
    h.linesBefore.nonEmpty_eq hname hes.linesBefore, h.linesBefore.readsOn_eq,
    h.linesBefore.envVar_eq hname hes.linesBefore]

end Tangles

/-! ## One scan -/

theorem setEnvVar_cons (h : mentions name line = false) :
    (setEnvVar name value false (line :: ls)).1 =
      line :: (setEnvVar name value false ls).1 := by
  obtain ⟨hactive, hcomment⟩ : activeValue name line = none ∧ isCommented name line = false := by
    simpa [mentions] using h
  simp [setEnvVar, hactive, hcomment]

theorem setEnvVar_cons_of_open (h : mentions name line = true)
    (hopen : isSetLine name line = false) :
    (setEnvVar name value false (line :: ls)).1 = assignment name value :: ls := by
  have hset : isSet name (line :: ls) = false := by rw [isSet_cons, if_pos h, hopen]
  have hstop : stop name (line :: ls) = 0 := by rw [stop_cons, if_pos h]
  rw [setEnvVar_of_not_isSet hset, hstop]
  rfl

theorem WritesAtRest.tail (hrest : WritesAtRest r m name (line :: ls))
    (hl : mentions name line = false) : WritesAtRest r (r.next m line).1 name ls := by
  intro hset
  have hwhole := hrest (by rw [isSet_cons, hl]; exact hset)
  rwa [linesBefore_cons hl] at hwhole

theorem WritesAtRest.head (hrest : WritesAtRest r m name (line :: ls))
    (hl : mentions name line = true) (hopen : isSetLine name line = false) : r.AtRest m := by
  have hwhole := hrest (by rw [isSet_cons, if_pos hl, hopen])
  rwa [linesBefore_cons_of_mentions hl] at hwhole

section Scans

variable (h : r.Documented)
include h

/-- A scan for another variable. -/
theorem readAlike_setEnvVar (hn : IsName name) (ho : IsName other) (hne : other ≠ name)
    (hT : isSet other ls = false → T other) (hrest : WritesAtRest r m other ls)
    (token : RawToken) : ReadAlike r T name m ls (setEnvVar other token.text false ls).1 := by
  have hwritten {m : r.Mode} (hm : r.AtRest m) (hT : T other) :
      mentions name (assignment other token.text) = false ∧
        LeavesAlone T name (r.next m (assignment other token.text)).2 := by
    rw [h.plain m other hm ho token]
    exact ⟨hn.not_mentions_assignment ho hne.symm, .inr ⟨other, _, rfl, hT, hne⟩⟩
  induction ls generalizing m with
  | nil =>
      have hm : r.AtRest m := hrest rfl
      apply ReadAlike.added hm _ (hwritten hm (hT rfl))
      rw [h.plain m other hm ho token]
      exact r.atRest_rest
  | cons line ls ih =>
      cases hmentions : mentions other line with
      | false =>
          rw [setEnvVar_cons hmentions]
          rw [isSet_cons, hmentions] at hT
          exact .same (ih hT (hrest.tail hmentions))
      | true =>
          cases hvalue : isSetLine other line with
          | true =>
              rw [setEnvVar_of_isSet (by rw [isSet_cons, if_pos hmentions, hvalue])]
              exact .refl m _
          | false =>
              have hm := hrest.head hmentions hvalue
              have hTother : T other := hT (by rw [isSet_cons, if_pos hmentions, hvalue])
              have hother : mentions name line = false := by
                by_contra hname
                exact hne (ho.eq_of_mentions hn hmentions (by simpa using hname))
              rw [setEnvVar_cons_of_open hmentions hvalue]
              rcases h.next_of_open hm ho hmentions hvalue with hnext | hnext
              · apply ReadAlike.other ⟨hother, .inl (by rw [hnext])⟩ (hwritten hm hTother)
                rw [hnext, h.plain m other hm ho token]
              · apply ReadAlike.other ⟨hother, .inr ⟨other, _, by rw [hnext], hTother, hne⟩⟩
                  (hwritten hm hTother)
                rw [hnext, h.plain m other hm ho token]

/-- What a scan writes refers to nothing. -/
theorem untangled_setEnvVar (ho : IsName other) (hrest : WritesAtRest r m other ls)
    (token : RawToken) (hes : Untangled T names (r.read m ls)) :
    Untangled T names (r.read m (setEnvVar other token.text false ls).1) := by
  have hwritten : ∀ n value, Entry.assign other (fun _ ↦ token.text) = .assign n value →
      (¬T n ∨ n ∈ names) → IndependentOf T value := by
    rintro _ _ ⟨⟩ - env env' -
    rfl
  induction ls generalizing m with
  | nil =>
      have hnext := h.plain m other (hrest rfl) ho token
      rw [setEnvVar, read_cons, hnext, untangled_cons]
      exact ⟨hwritten, hes⟩
  | cons line ls ih =>
      cases hmentions : mentions other line with
      | false =>
          rw [read_cons, untangled_cons] at hes
          rw [setEnvVar_cons hmentions, read_cons, untangled_cons]
          exact ⟨hes.1, ih (hrest.tail hmentions) hes.2⟩
      | true =>
          cases hvalue : isSetLine other line with
          | true =>
              rw [setEnvVar_of_isSet (by rw [isSet_cons, if_pos hmentions, hvalue])]
              exact hes
          | false =>
              have hm := hrest.head hmentions hvalue
              rw [setEnvVar_cons_of_open hmentions hvalue, read_cons,
                h.plain m other hm ho token, untangled_cons]
              refine ⟨hwritten, ?_⟩
              rw [read_cons, untangled_cons] at hes
              rcases h.next_of_open hm ho hmentions hvalue with hnext | hnext
              · rw [hnext] at hes
                exact hes.2
              · rw [hnext] at hes
                exact hes.2

theorem nonEmpty_assignment (hm : r.AtRest m) (hn : IsName name) (token : RawToken)
    (ls : List Line) (env : Variables) :
    nonEmpty name env (r.read m (assignment name token.text :: ls)) = some token.text := by
  obtain ⟨c, hc⟩ := List.exists_mem_of_ne_nil _ token.text_ne_nil
  have hblank : token.text.all isWhitespace = false := by
    rw [List.all_eq_false]
    exact ⟨c, hc, by simp [isWhitespace_of_isBase64Url (token.base64Url c hc)]⟩
  simp [nonEmpty, envVar, h.plain m name hm hn token, hblank]

/-- The scan and the server agree on the variable exactly when they see the same. -/
theorem agrees_setEnvVar_iff (hn : IsName name) (token : RawToken)
    (hrest : WritesAtRest r m name ls) (env : Variables) :
    nonEmpty name env (r.read m (setEnvVar name token.text false ls).1) =
        some ((nonEmpty name env (r.read m ls)).getD token.text) ↔
      SeenAlike r m env name token.text ls := by
  induction ls generalizing m env with
  | nil =>
      have hm : r.AtRest m := hrest rfl
      rw [setEnvVar, nonEmpty_assignment h hm hn token [] env, SeenAlike,
        if_neg (by simp [isSet])]
      simp [nonEmpty, envVar, linesBefore, readsOn]
  | cons line ls ih =>
      cases hmentions : mentions name line with
      | true =>
          have hset : isSet name (line :: ls) = isSetLine name line := by
            rw [isSet_cons, if_pos hmentions]
          cases hvalue : isSetLine name line with
          | true =>
              rw [hvalue] at hset
              rw [setEnvVar_of_isSet hset, SeenAlike, if_pos hset]
              cases nonEmpty name env (r.read m (line :: ls)) <;> simp
          | false =>
              rw [setEnvVar_cons_of_open hmentions hvalue,
                nonEmpty_assignment h (hrest.head hmentions hvalue) hn, SeenAlike, hset, hvalue,
                linesBefore_cons_of_mentions hmentions]
              cases nonEmpty name env (r.read m (line :: ls)) with
              | none => simp [readsOn, envVar]
              | some v => simp [readsOn, envVar, nonEmpty, eq_comm]
      | false =>
          have hset : isSet name (line :: ls) = isSet name ls := by
            simp [isSet_cons, hmentions]
          have hrest' := hrest.tail hmentions
          rw [setEnvVar_cons hmentions, SeenAlike, hset, linesBefore_cons hmentions]
          simp only [read_cons]
          cases hentry : (r.next m line).2 with
          | nothing =>
              simp only [nonEmpty, envVar, readsOn]
              simpa only [SeenAlike, nonEmpty] using ih hrest' env
          | malformed => simp [nonEmpty, envVar, readsOn]
          | assign other v =>
              by_cases hother : other = name
              · simp only [nonEmpty, envVar, if_pos hother]
                cases hblank : (v env).all isWhitespace <;> simp [Option.filter, hblank]
              · simp only [nonEmpty, envVar, if_neg hother, readsOn]
                simpa only [SeenAlike, nonEmpty] using ih hrest' (env.assign other (v env))

end Scans

/-! ## The run -/

/-- What the scans for these variables write meets no quotes and no references. -/
structure ScansApart (r : EnvParser) (T : Line → Prop) (names : List Line) (m : r.Mode)
    (pairs : List (Line × Line)) (ls : List Line) : Prop where
  written : ∀ p ∈ pairs, isSet p.1 ls = false → T p.1
  atRest : ∀ p ∈ pairs, WritesAtRest r m p.1 ls
  untangled : Untangled T names (r.read m ls)

section Sequence

variable {p : Line × Line} {pairs : List (Line × Line)} (h : r.Documented)
include h

/-- After one scan the others are as before. -/
theorem ScansApart.tail (hapart : ScansApart r T names m (p :: pairs) ls)
    (hpairs : Assignable (p :: pairs)) {token : RawToken} (htoken : p.2 = token.text) :
    ScansApart r T names m pairs (setEnvVar p.1 p.2 false ls).1 := by
  have hp := hpairs.isName p List.mem_cons_self
  have hrest := hapart.atRest p List.mem_cons_self
  have hset : ∀ q ∈ pairs, isSet q.1 (setEnvVar p.1 p.2 false ls).1 = isSet q.1 ls :=
    fun q hq ↦ (hpairs.differOnly hq ls).isSet_eq fun _ hl ↦ hl
  refine ⟨fun q hq hopen ↦ ?_, fun q hq hopen ↦ ?_, ?_⟩
  · exact hapart.written q (List.mem_cons_of_mem _ hq) ((hset q hq).symm.trans hopen)
  · have halike : ReadAlike r T q.1 m ls (setEnvVar p.1 token.text false ls).1 :=
      readAlike_setEnvVar h (hpairs.isName q (List.mem_cons_of_mem _ hq)) hp
        (hpairs.ne_of_mem hq).symm (hapart.written p List.mem_cons_self) hrest token
    rw [htoken]
    exact halike.linesBefore.atRest (hapart.atRest q (List.mem_cons_of_mem _ hq)
      ((hset q hq).symm.trans hopen))
  · rw [htoken]
    exact untangled_setEnvVar h hp hrest token hapart.untangled

/-- Scans for other variables leave the server's reading alone. -/
theorem nonEmpty_setAll (hapart : ScansApart r T names m pairs ls) (hpairs : Assignable pairs)
    (htokens : ∀ p ∈ pairs, ∃ t : RawToken, p.2 = t.text) (hn : IsName name)
    (hname : name ∈ names) (hne : ∀ p ∈ pairs, p.1 ≠ name) (env : Variables) :
    nonEmpty name env (r.read m (setAll pairs ls).1) = nonEmpty name env (r.read m ls) := by
  induction pairs generalizing ls with
  | nil => rfl
  | cons p pairs ih =>
      obtain ⟨token, htoken⟩ := htokens p List.mem_cons_self
      have halike : ReadAlike r T name m ls (setEnvVar p.1 token.text false ls).1 :=
        readAlike_setEnvVar h hn (hpairs.isName p List.mem_cons_self) (hne p List.mem_cons_self)
          (hapart.written p List.mem_cons_self) (hapart.atRest p List.mem_cons_self) token
      rw [setAll_cons, ih (hapart.tail h hpairs htoken) hpairs.tail
        (fun q hq ↦ htokens q (List.mem_cons_of_mem _ hq))
        fun q hq ↦ hne q (List.mem_cons_of_mem _ hq), htoken]
      exact halike.nonEmpty_eq hname hapart.untangled env

theorem agrees_setAll_iff (hapart : ScansApart r T names m pairs ls) (hpairs : Assignable pairs)
    (htokens : ∀ p ∈ pairs, ∃ t : RawToken, p.2 = t.text) (hp : p ∈ pairs) (hname : p.1 ∈ names)
    (env : Variables) :
    nonEmpty p.1 env (r.read m (setAll pairs ls).1) =
        some ((nonEmpty p.1 env (r.read m ls)).getD p.2) ↔
      SeenAlike r m env p.1 p.2 ls := by
  induction pairs generalizing ls with
  | nil => cases hp
  | cons q pairs ih =>
      have htail : ∀ r ∈ pairs, ∃ t : RawToken, r.2 = t.text :=
        fun r hr ↦ htokens r (List.mem_cons_of_mem _ hr)
      obtain ⟨token, htoken⟩ := htokens q List.mem_cons_self
      have hafter := hapart.tail h hpairs htoken
      rw [setAll_cons]
      rcases List.mem_cons.mp hp with rfl | hp
      · have hn := hpairs.isName p List.mem_cons_self
        rw [nonEmpty_setAll h hafter hpairs.tail htail hn hname fun r hr ↦ hpairs.ne_of_mem hr,
          htoken]
        exact agrees_setEnvVar_iff h hn token (hapart.atRest p List.mem_cons_self) env
      · have halike : ReadAlike r T p.1 m ls (setEnvVar q.1 token.text false ls).1 :=
          readAlike_setEnvVar h (hpairs.isName p (List.mem_cons_of_mem _ hp))
            (hpairs.isName q List.mem_cons_self) (hpairs.ne_of_mem hp).symm
            (hapart.written q List.mem_cons_self) (hapart.atRest q List.mem_cons_self) token
        rw [← htoken] at halike
        have hset := (hpairs.differOnly hp ls).isSet_eq fun _ hl ↦ hl
        rw [← halike.nonEmpty_eq hname hapart.untangled, ih hafter hpairs.tail htail hp,
          halike.seenAlike_iff hname hapart.untangled hset]

end Sequence

section Run

variable {drawn : DrawnSecrets} {c c' : Checkout} {g : GeneratedSecrets} {contents : List Char}

/-- What the server finds in the file after a run. -/
theorem secretIn_generate (h : r.Documented) (hread : c.env = some contents)
    (hrun : generate drawn false c = (c', .ok g)) (hapart : ScannedApart r contents)
    (name : Line) : secretIn r name (c'.env.getD []) = nonEmpty name r.environment
      (r.read r.start (setAll (wanted drawn (lines contents)) (lines contents)).1) := by
  obtain ⟨hreport, henv⟩ := generate_ok hread hrun
  rw [henv, Option.getD_some]
  by_cases hchanged : g.changed = []
  · have hset := changed_eq_nil_iff.mp (hreport.symm.trans hchanged)
    rw [hchanged, List.isEmpty_nil, if_pos rfl,
      Assignable.setAll_of_isSet fun p hp ↦ hset _ (mem_wantedNames hp), secretIn,
      h.entries_eq hapart.ends, map_dropEnd_wholeLines]
  · have hne : (setAll (wanted drawn (lines contents)) (lines contents)).1 ≠ [] := by
      obtain ⟨place, hplaces⟩ := exists_places (assignable_wanted drawn (lines contents))
        (lines contents)
      obtain ⟨n, hn⟩ := List.exists_mem_of_ne_nil _ (hreport ▸ hchanged)
      obtain ⟨p, hp, rfl⟩ := List.mem_map.mp
        ((assignable_wanted drawn (lines contents)).mem_changed.mp hn).1
      intro hnil
      have hwritten := hplaces.written p hp hn
      rw [hnil] at hwritten
      cases hwritten
    rw [if_neg (by simpa using hchanged), secretIn, wholeLines_unlines hne, EnvParser.read]
    intro l hl
    rcases mem_setAll hl with hl | ⟨p, hp, rfl⟩
    · exact newline_not_mem_lines l hl
    · exact newline_notMem_assignment hp

end Run

instance (r : EnvParser) (name token : Line) (contents contents' : List Char) :
    Decidable (ProperlySet r name token contents contents') := inferInstanceAs (Decidable (_ = _))

namespace ReaderSample

def readLine (l : Line) : Entry :=
  match strip isWhitespace l with
  | [] => .nothing
  | c :: l =>
      if c = '#' then .nothing
      else if '=' ∈ c :: l then
        .assign ((c :: l).takeWhile (· ≠ '=')) fun _ ↦ ((c :: l).dropWhile (· ≠ '=')).tail
      else .malformed

/-- Reads lines without quotes or references. -/
def reader : EnvParser := ⟨Unit, (), (), fun _ l ↦ ((), readLine l), fun _ ↦ none⟩

theorem strip_trimStart (l : Line) :
    strip isWhitespace (trimStart l) = strip isWhitespace l := by
  rw [strip, strip, trimStart, List.dropWhile_idempotent]

theorem strip_concat (l : Line) {c : Char} (h : isWhitespace c = true) :
    strip isWhitespace (l ++ [c]) = strip isWhitespace l := by
  induction l with
  | nil => simp [strip, h]
  | cons d l ih =>
      cases hd : isWhitespace d with
      | true => simpa [strip, hd] using ih
      | false =>
          have hstart : (d :: l).dropWhile isWhitespace = d :: l :=
            List.dropWhile_cons_of_neg (by simp [hd])
          have hstart' : (d :: l ++ [c]).dropWhile isWhitespace = d :: l ++ [c] :=
            List.dropWhile_cons_of_neg (by simp [hd])
          rw [strip, strip, hstart, hstart', List.rdropWhile_concat_pos _ _ _ h]

theorem strip_comment (l : Line) : ∃ l', strip isWhitespace ('#' :: l) = '#' :: l' := by
  have hstart : ('#' :: l).dropWhile isWhitespace = '#' :: l :=
    List.dropWhile_cons_of_neg (by decide)
  obtain ⟨rest, hrest⟩ := List.rdropWhile_prefix isWhitespace (l := '#' :: l)
  cases hstrip : ('#' :: l).rdropWhile isWhitespace with
  | nil =>
      have := List.rdropWhile_eq_nil_iff.mp hstrip '#' List.mem_cons_self
      exact absurd this (by decide)
  | cons c l' =>
      rw [hstrip] at hrest
      obtain ⟨rfl, -⟩ := List.cons_eq_cons.mp hrest
      exact ⟨l', by rw [strip, hstart, hstrip]⟩

theorem readLine_assignment {name value : Line} (hn : IsName name)
    (hlast : ∀ c ∈ (assignment name value).getLast?, isWhitespace c = false) :
    readLine (assignment name value) = .assign name fun _ ↦ value := by
  have htrimmed : Trimmed isWhitespace (assignment name value) := by
    refine ⟨fun c hc ↦ ?_, hlast⟩
    have hnot := List.head?_dropWhile_not isWhitespace (assignment name value)
    rw [← trimStart, hn.trimStart_assignment, Option.mem_def.mp hc] at hnot
    exact hnot
  have hfront : (assignment name value).takeWhile (· ≠ '=') = name ∧
      (assignment name value).dropWhile (· ≠ '=') = '=' :: value := by
    have hname : ∀ c ∈ name, decide (c ≠ '=') = true := by
      intro c hc
      simpa using fun heq : c = '=' ↦ hn.equals_notMem (heq ▸ hc)
    rw [assignment, List.takeWhile_append_of_pos hname, List.dropWhile_append_of_pos hname]
    simp
  obtain ⟨c, rest, rfl⟩ := List.exists_cons_of_ne_nil hn.ne_nil
  have hc : c ≠ '#' := by
    rintro rfl
    exact hn.notMem (by decide) List.mem_cons_self
  have hcons : assignment (c :: rest) value = c :: assignment rest value := rfl
  have hmem : '=' ∈ c :: assignment rest value := by simp [assignment]
  rw [hcons] at hfront htrimmed
  rw [hcons, readLine, htrimmed.strip_eq]
  simp only [if_neg hc, if_pos hmem, hfront.1, hfront.2, List.tail_cons]

theorem readLine_concat (l : Line) {c : Char} (h : isWhitespace c = true) :
    readLine (l ++ [c]) = readLine l := by
  rw [readLine, strip_concat l h, readLine]

theorem next_eq (m : reader.Mode) (l : Line) : reader.next m l = (reader.rest, readLine l) :=
  congrArg (Prod.mk reader.rest) (readLine_concat l (by decide))

theorem documented : reader.Documented where
  comment m l text _ h := by
    obtain ⟨l', hstrip⟩ := strip_comment text
    rw [← h, strip_trimStart] at hstrip
    rw [next_eq, readLine, hstrip]
    rfl
  empty m l name _ hn h := by
    have hline : readLine l = readLine (trimStart l) := by
      rw [readLine, readLine, strip_trimStart]
    rw [next_eq, hline, h, readLine_assignment hn]
    intro c hc
    obtain rfl : '=' = c := by simpa [assignment] using hc
    decide
  plain m name _ hn token := by
    rw [next_eq, readLine_assignment hn]
    intro c hc
    have hfront : assignment name token.text = (name ++ ['=']) ++ token.text := by
      simp [assignment]
    rw [hfront, List.getLast?_append_of_ne_nil _ token.text_ne_nil] at hc
    exact isWhitespace_of_isBase64Url (token.base64Url c (List.mem_of_getLast? hc))
  lineEnd m l ending hending _ _ := by
    rw [next_eq]
    rcases hending with rfl | rfl
    · rw [List.append_nil]
      rfl
    · have hline : readLine (l ++ ['\r'] ++ ['\n']) = readLine l := by
        rw [readLine_concat _ (by decide), readLine_concat _ (by decide)]
      rw [List.append_assoc] at hline
      exact congrArg (Prod.mk reader.rest) hline

theorem scannedApart (contents : List Char) : ScannedApart reader contents where
  ends := by
    induction wholeLines contents with
    | nil => trivial
    | cons l ls ih => exact ⟨fun _ ↦ ⟨.inl rfl, .inl rfl⟩, ih⟩
  atRest n _ _ := .inl rfl
  untangled := by
    refine ⟨fun _ ↦ True, fun _ _ _ ↦ trivial, ?_⟩
    induction lines contents with
    | nil => rintro other value ⟨⟩
    | cons l ls ih =>
        rw [EnvParser.read_cons, untangled_cons, next_eq]
        refine ⟨fun other value heq _ env env' _ ↦ ?_, ih⟩
        unfold readLine at heq
        repeat' split at heq
        all_goals cases heq
        rfl

/-- One secret is blank. -/
def oneBlank : List Char := "JWT_SECRET=\nMETRICS_TOKEN=existing\n".toList

def completed : List Char := unlines
  [assignment jwtSecret RerunSample.token.text, assignment metricsToken "existing".toList]

/-- The example's line is still there above the one in use. -/
def commented : List Char :=
  "# JWT_SECRET=\nJWT_SECRET=already-set\nMETRICS_TOKEN=existing\n".toList

def shadowed : List Char := unlines
  [assignment jwtSecret RerunSample.token.text, assignment jwtSecret "already-set".toList,
    assignment metricsToken "existing".toList]

end ReaderSample

open RerunSample ReaderSample

end ApiStarter
