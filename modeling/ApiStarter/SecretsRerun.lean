import ApiStarter.LocalSecrets

/-!
# Running `gen --secrets` twice

A first run writes at most one line for each secret it reports, and a second one
finds every secret set.  Both fail for a line that still ends in a carriage
return once its line end is off: writing the file back turns that character into
a part of the line end, so a secret that held nothing else is empty when the file
is read again.
-/

namespace ApiStarter

open Text

/-! ## What a rerun should find -/

/-- At most one line differs for each reported secret; the others keep their text and their
place, and new lines come last. -/
def OneLineEach (changed : List Line) (ls ls' : List Line) : Prop :=
  ls.length ≤ ls'.length ∧
    ∃ place : Line → ℕ, ∀ i, (∀ n ∈ changed, place n ≠ i) → ls'[i]? = ls[i]?

/-- Whatever it draws, another run reports no change and leaves the files as they are. -/
def Repeats (c : Checkout) : Prop :=
  ∀ drawn, ∃ g, generate drawn false c = (c, .ok g) ∧ g.changed = []

def envLines (c : Checkout) : List Line := lines (c.env.getD [])

/-- The names a run looks at. -/
def wantedNames (ls : List Line) : List Line :=
  [jwtSecret, metricsToken] ++ if hasNonEmptyValue ls adminEmail then [adminPassword] else []

/-- Only lines that a scan replaces end in a carriage return. -/
def NoStrayReturn (names ls : List Line) : Prop :=
  ∀ i line, ls[i]? = some line → line.getLast? = some '\r' →
    ∃ n ∈ names, isSet n ls = false ∧ stop n ls = i

variable {drawn : DrawnSecrets} {c c' : Checkout} {g : GeneratedSecrets} {contents : List Char}
  {name line : Line} {ls : List Line}

theorem map_fst_wanted (drawn : DrawnSecrets) (ls : List Line) :
    (wanted drawn ls).map Prod.fst = wantedNames ls := by
  rw [wanted, wantedNames]
  split <;> rfl

theorem mem_wantedNames {p : Line × Line} (h : p ∈ wanted drawn ls) : p.1 ∈ wantedNames ls := by
  rw [← map_fst_wanted drawn]
  exact List.mem_map_of_mem h

/-! ## Written lines -/

theorem RawToken.notMem (t : RawToken) {ch : Char} (h : isBase64Url ch = false) : ch ∉ t.text := by
  intro hmem
  rw [t.base64Url ch hmem] at h
  cases h

theorem exists_token {p : Line × Line} (h : p ∈ wanted drawn ls) :
    ∃ t : RawToken, p.2 = t.text := by
  rcases mem_wanted h with rfl | rfl | rfl <;> exact ⟨_, rfl⟩

theorem newline_notMem_assignment {p : Line × Line} (h : p ∈ wanted drawn ls) :
    '\n' ∉ assignment p.1 p.2 := by
  obtain ⟨t, ht⟩ := exists_token h
  have hname := ((assignable_wanted drawn ls).isName p h).notMem
    (c := '\n') (by decide)
  have htext : '\n' ∉ p.2 := ht ▸ t.notMem (by decide)
  simp [assignment, hname, htext]

theorem dropReturn_assignment {p : Line × Line} (h : p ∈ wanted drawn ls) :
    dropReturn (assignment p.1 p.2) = assignment p.1 p.2 := by
  obtain ⟨t, ht⟩ := exists_token h
  apply dropReturn_of_getLast?
  intro hlast
  have hfront : assignment p.1 p.2 = (p.1 ++ ['=']) ++ p.2 := by simp [assignment]
  rw [hfront, List.getLast?_append_of_ne_nil _ (ht ▸ t.text_ne_nil), ht] at hlast
  exact t.notMem (by decide) (List.mem_of_getLast? hlast)

/-- A line of the result is one that was there or an assignment of a drawn value. -/
theorem mem_setAll (h : line ∈ (setAll (wanted drawn ls) ls).1) :
    line ∈ ls ∨ ∃ p ∈ wanted drawn ls, line = assignment p.1 p.2 := by
  obtain ⟨place, hplaces⟩ := exists_places (assignable_wanted drawn ls) ls
  obtain ⟨i, hi⟩ := List.mem_iff_getElem?.mp h
  by_cases hplace : ∃ n ∈ (setAll (wanted drawn ls) ls).2, place n = i
  · obtain ⟨n, hn, rfl⟩ := hplace
    obtain ⟨p, hp, rfl⟩ := List.mem_map.mp ((assignable_wanted drawn ls).mem_changed.mp hn).1
    rw [hplaces.written p hp hn] at hi
    exact .inr ⟨p, hp, (Option.some.inj hi).symm⟩
  · rw [hplaces.others i fun n hn heq ↦ hplace ⟨n, hn, heq⟩] at hi
    exact .inl (List.mem_of_getElem? hi)

theorem changed_eq_nil_iff : (setAll (wanted drawn ls) ls).2 = [] ↔
    ∀ n ∈ wantedNames ls, isSet n ls = true := by
  rw [(assignable_wanted drawn ls).changed_eq, map_fst_wanted]
  simp

/-- What the file's lines are after a run that wrote. -/
theorem envLines_of_changed (hread : c.env = some contents)
    (h : generate drawn false c = (c', .ok g)) (hchanged : g.changed ≠ []) :
    envLines c' =
      (setAll (wanted drawn (lines contents)) (lines contents)).1.map dropReturn := by
  obtain ⟨hreport, henv⟩ := generate_ok hread h
  rw [if_neg (by simpa using hchanged)] at henv
  rw [envLines, henv]
  apply lines_unlines
  · obtain ⟨place, hplaces⟩ := exists_places (assignable_wanted drawn (lines contents))
      (lines contents)
    obtain ⟨n, hn⟩ := List.exists_mem_of_ne_nil _ hchanged
    rw [hreport] at hn
    obtain ⟨p, hp, rfl⟩ := List.mem_map.mp
      ((assignable_wanted drawn (lines contents)).mem_changed.mp hn).1
    intro hnil
    have hwritten := hplaces.written p hp hn
    rw [hnil] at hwritten
    cases hwritten
  · intro l hl
    rcases mem_setAll hl with hl | ⟨p, hp, rfl⟩
    · exact newline_not_mem_lines l hl
    · exact newline_notMem_assignment hp

/-! ## When a rerun finds everything set -/

theorem repeats_of_isSet (hread : c.env = some contents)
    (h : ∀ n ∈ wantedNames (lines contents), isSet n (lines contents) = true) : Repeats c :=
  fun _ ↦ ⟨_, generate_of_isSet hread fun _ hp ↦ h _ (mem_wantedNames hp), rfl⟩

theorem isSet_of_mem_wantedNames {ls' : List Line} (h : ls' = (setAll (wanted drawn ls) ls).1) :
    ∀ n ∈ wantedNames ls', isSet n ls' = true := by
  intro n hn
  have hnames : wantedNames ls' = wantedNames ls := by
    rw [wantedNames, h, hasNonEmptyValue_setAll_wanted, wantedNames]
  rw [hnames, ← map_fst_wanted drawn] at hn
  obtain ⟨p, hp, rfl⟩ := List.mem_map.mp hn
  rw [h]
  exact (assignable_wanted drawn ls).isSet_setAll hp

/-- Without stray carriage returns the lines are read back as they were written. -/
theorem map_dropReturn_setAll (drawn : DrawnSecrets) (h : NoStrayReturn (wantedNames ls) ls) :
    (setAll (wanted drawn ls) ls).1.map dropReturn = (setAll (wanted drawn ls) ls).1 := by
  obtain ⟨place, hplaces⟩ := exists_places (assignable_wanted drawn ls) ls
  apply List.ext_getElem?
  intro i
  rw [List.getElem?_map]
  cases hline : (setAll (wanted drawn ls) ls).1[i]? with
  | none => rfl
  | some line =>
      by_cases hplace : ∃ n ∈ (setAll (wanted drawn ls) ls).2, place n = i
      · obtain ⟨n, hn, rfl⟩ := hplace
        obtain ⟨p, hp, rfl⟩ := List.mem_map.mp ((assignable_wanted drawn ls).mem_changed.mp hn).1
        rw [hplaces.written p hp hn] at hline
        obtain rfl := Option.some.inj hline
        exact congrArg some (dropReturn_assignment hp)
      · have hkept := hplaces.others i fun n hn heq ↦ hplace ⟨n, hn, heq⟩
        rw [hline] at hkept
        apply congrArg some
        apply dropReturn_of_getLast?
        intro hreturn
        obtain ⟨n, hn, hset, hstop⟩ := h i line hkept.symm hreturn
        have hmem : n ∈ (setAll (wanted drawn ls) ls).2 := by
          rw [(assignable_wanted drawn ls).mem_changed, map_fst_wanted]
          exact ⟨hn, hset⟩
        have hlt := (List.getElem?_eq_some_iff.mp hkept.symm).1
        rcases hplaces.stops n hmem with heq | ⟨heq, -⟩
        · exact hplace ⟨n, hmem, heq.trans hstop⟩
        · omega

/-- A stray carriage return is one changed line too many. -/
theorem not_oneLineEach {i : ℕ} (hline : ls[i]? = some line) (hreturn : line.getLast? = some '\r')
    (hstray : ∀ n ∈ wantedNames ls, isSet n ls = false → stop n ls ≠ i) :
    ¬OneLineEach (setAll (wanted drawn ls) ls).2 ls
      ((setAll (wanted drawn ls) ls).1.map dropReturn) := by
  rintro ⟨-, place', hkept⟩
  obtain ⟨place, hplaces⟩ := exists_places (assignable_wanted drawn ls) ls
  have hpair : ∀ n ∈ (setAll (wanted drawn ls) ls).2, ∃ p ∈ wanted drawn ls, p.1 = n :=
    fun n hn ↦ List.mem_map.mp ((assignable_wanted drawn ls).mem_changed.mp hn).1
  have hlt := (List.getElem?_eq_some_iff.mp hline).1
  have hapart : ∀ n ∈ (setAll (wanted drawn ls) ls).2, place n ≠ i := by
    intro n hn heq
    have hchanged := (assignable_wanted drawn ls).mem_changed.mp hn
    rw [map_fst_wanted] at hchanged
    rcases hplaces.stops n hn with hstop | ⟨-, hle⟩
    · exact hstray n hchanged.1 hchanged.2 (hstop.symm.trans heq)
    · omega
  -- the written lines and the stray one all differ, each at a place of its own
  have hdiffer : ∀ j ∈ insert i ((setAll (wanted drawn ls) ls).2.toFinset.image place),
      j ∈ (setAll (wanted drawn ls) ls).2.toFinset.image place' := by
    intro j hj
    by_contra hnot
    have hsame := hkept j fun n hn heq ↦
      hnot (Finset.mem_image.mpr ⟨n, List.mem_toFinset.mpr hn, heq⟩)
    rw [List.getElem?_map] at hsame
    rcases Finset.mem_insert.mp hj with rfl | hj
    · rw [hplaces.others j hapart, hline] at hsame
      exact dropReturn_eq_self.mp (Option.some.inj hsame) hreturn
    · obtain ⟨n, hn, rfl⟩ := Finset.mem_image.mp hj
      have hn := List.mem_toFinset.mp hn
      obtain ⟨p, hp, rfl⟩ := hpair n hn
      rw [hplaces.written p hp hn, Option.map_some, dropReturn_assignment hp] at hsame
      rcases hplaces.stops _ hn with hstop | ⟨-, hle⟩
      · rw [hstop] at hsame
        have hopen := (stop_line ((assignable_wanted drawn ls).mem_changed.mp hn).2 hsame.symm).2
        have hname := (assignable_wanted drawn ls).isName p hp
        have hvalue := (assignable_wanted drawn ls).value_ne_nil p hp
        simp [isSetLine, hname.activeValue_assignment, hvalue] at hopen
      · rw [List.getElem?_eq_none hle] at hsame
        cases hsame
  have hinj : Set.InjOn place ((setAll (wanted drawn ls) ls).2.toFinset : Set Line) := by
    intro n hn m hm heq
    have hn := List.mem_toFinset.mp hn
    have hm := List.mem_toFinset.mp hm
    obtain ⟨p, hp, rfl⟩ := hpair n hn
    obtain ⟨q, hq, rfl⟩ := hpair m hm
    have hwritten := hplaces.written p hp hn
    rw [heq, hplaces.written q hq hm] at hwritten
    exact (assignment_inj ((assignable_wanted drawn ls).isName q hq).equals_notMem
      ((assignable_wanted drawn ls).isName p hp).equals_notMem (Option.some.inj hwritten)).1.symm
  have hfresh : i ∉ (setAll (wanted drawn ls) ls).2.toFinset.image place := by
    intro hmem
    obtain ⟨n, hn, heq⟩ := Finset.mem_image.mp hmem
    exact hapart n (List.mem_toFinset.mp hn) heq
  have hcard := Finset.card_le_card hdiffer
  rw [Finset.card_insert_of_notMem hfresh, Finset.card_image_of_injOn hinj] at hcard
  have hle := (setAll (wanted drawn ls) ls).2.toFinset.card_image_le (f := place')
  omega

/-! ## The rerun -/

/-- A run of `gen --secrets` is repeatable and local exactly when it has nothing to write or leaves
no line alone that ends in a carriage return. -/
theorem generate_repeats_iff (hread : c.env = some contents)
    (h : generate drawn false c = (c', .ok g)) :
    (Repeats c' ∧ OneLineEach g.changed (lines contents) (envLines c')) ↔
      (∀ n ∈ wantedNames (lines contents), isSet n (lines contents) = true) ∨
        NoStrayReturn (wantedNames (lines contents)) (lines contents) := by
  by_cases hset : ∀ n ∈ wantedNames (lines contents), isSet n (lines contents) = true
  · rw [generate_of_isSet hread fun _ hp ↦ hset _ (mem_wantedNames hp)] at h
    obtain rfl := (Prod.ext_iff.mp h).1
    refine iff_of_true ⟨repeats_of_isSet hread hset, ?_, fun _ ↦ 0, ?_⟩ (.inl hset)
    · simp [envLines, hread]
    · intro i _
      simp [envLines, hread]
  · have hreport := (generate_ok hread h).1
    have hchanged : g.changed ≠ [] := by
      rw [hreport]
      exact mt changed_eq_nil_iff.mp hset
    have hlines := envLines_of_changed hread h hchanged
    rw [or_iff_right hset, hlines, hreport]
    constructor
    · rintro ⟨-, hlocal⟩ i line hline hreturn
      by_contra hstray
      exact not_oneLineEach hline hreturn (fun n hn hopen hstop ↦ hstray ⟨n, hn, hopen, hstop⟩)
        hlocal
    · intro hstray
      have hkept := map_dropReturn_setAll drawn hstray
      have henv := (generate_ok hread h).2
      rw [envLines, henv, Option.getD_some, hkept] at hlines
      refine ⟨repeats_of_isSet henv (isSet_of_mem_wantedNames hlines), ?_⟩
      rw [hkept]
      obtain ⟨place, hplaces⟩ := exists_places (assignable_wanted drawn (lines contents))
        (lines contents)
      exact ⟨hplaces.length_le, place, hplaces.others⟩

namespace RerunSample

def token : RawToken := ⟨List.replicate 43 'A', List.forall_mem_replicate.mpr (.inr (by decide)),
  List.length_replicate⟩

def tokens : DrawnSecrets := ⟨token, token, token⟩

/-- A checkout with this `.env` and no monitoring. -/
def checkout (env : List Char) : Checkout := ⟨some env, none, true, true⟩

def blank : List Char := "JWT_SECRET=\n".toList

def filled : List Char :=
  unlines [assignment jwtSecret token.text, assignment metricsToken token.text]

/-- A file saved with one carriage return too many. -/
def returned : List Char := "JWT_SECRET=\r\r\n".toList

def rewritten : List Char :=
  unlines ["JWT_SECRET=\r".toList, assignment metricsToken token.text]

theorem noStrayReturn_blank (names : List Line) : NoStrayReturn names (lines blank) := by
  intro i line hline hreturn
  have hlines : lines blank = [assignment jwtSecret []] := by decide
  rw [hlines] at hline
  obtain rfl := List.mem_singleton.mp (List.mem_of_getElem? hline)
  exact absurd hreturn (by decide)

end RerunSample

open RerunSample

theorem generate_repeats_blank : Repeats (checkout filled) ∧
    OneLineEach [jwtSecret, metricsToken] (lines blank) (envLines (checkout filled)) :=
  (@generate_repeats_iff tokens (checkout blank) (checkout filled)
    ⟨[jwtSecret, metricsToken], true, some .notFound⟩ blank rfl rfl).mpr
    (.inr (noStrayReturn_blank _))

/-- What counts as a value the first time is part of the line's end the second time. -/
theorem returned_secret_replaced : ¬∀ (drawn : DrawnSecrets) (c c' : Checkout)
    (g : GeneratedSecrets) (contents : List Char), c.env = some contents →
      generate drawn false c = (c', .ok g) →
        Repeats c' ∧ OneLineEach g.changed (lines contents) (envLines c') := by
  intro h
  have hrun : generate tokens false (checkout returned) =
      (checkout rewritten, .ok ⟨[metricsToken], true, some .notFound⟩) := rfl
  have hagain : generate tokens false (checkout rewritten) =
      (checkout filled, .ok ⟨[jwtSecret], true, none⟩) := rfl
  obtain ⟨g, hrepeat, hnone⟩ := (h _ _ _ _ _ rfl hrun).1 tokens
  rw [hagain] at hrepeat
  obtain rfl := Except.ok.inj (Prod.ext_iff.mp hrepeat).2
  cases hnone

end ApiStarter
