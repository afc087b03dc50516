import Mathlib.Data.List.Infix

/-!
# A tree of files

What a file system keeps below one directory: at each path a file, a directory
or nothing.  The operations fail for what is in their way, and in no other case.
-/

namespace Files

variable {Name Content : Type}

inductive Node (Content : Type)
  | file (content : Content)
  | dir

inductive ErrorKind
  | notFound
  | alreadyExists
  | notADirectory
  | isADirectory
  deriving DecidableEq

/-- What is where; a path is the names on the way from the root. -/
def Tree (Name Content : Type) := List Name → Option (Node Content)

namespace Tree

def empty : Tree Name Content
  | [] => some .dir
  | _ :: _ => none

def isFile (t : Tree Name Content) (path : List Name) : Bool :=
  match t path with
  | some (.file _) => true
  | _ => false

def isDir (t : Tree Name Content) (path : List Name) : Bool :=
  match t path with
  | some .dir => true
  | _ => false

/-- A file stands where the path goes through. -/
def blocked (t : Tree Name Content) (path : List Name) : Bool := path.dropLast.inits.any t.isFile

theorem isFile_eq_true {t : Tree Name Content} {path : List Name} :
    t.isFile path = true ↔ ∃ content, t path = some (.file content) := by
  unfold isFile
  split
  next content h => simp [h]
  next h =>
    simp only [Bool.false_eq_true, false_iff, not_exists]
    exact h

theorem isDir_eq_true {t : Tree Name Content} {path : List Name} :
    t.isDir path = true ↔ t path = some .dir := by
  unfold isDir
  split
  next h => simp [h]
  next h =>
    simp only [Bool.false_eq_true, false_iff]
    exact h

theorem blocked_eq_false {t : Tree Name Content} {path : List Name} :
    t.blocked path = false ↔ ∀ p, p <+: path.dropLast → t.isFile p = false := by
  simp [blocked, List.any_eq_false]

theorem not_isPrefix_dropLast {path : List Name} (h : path ≠ []) : ¬path <+: path.dropLast := by
  intro hprefix
  have hlength := List.IsPrefix.length_le hprefix
  have hpos := List.length_pos_of_ne_nil h
  rw [List.length_dropLast] at hlength
  omega

theorem isPrefix_dropLast_iff {p path : List Name} (h : path ≠ []) :
    p <+: path.dropLast ↔ p <+: path ∧ p ≠ path := by
  constructor
  · intro hprefix
    refine ⟨List.IsPrefix.trans hprefix (List.dropLast_prefix path), ?_⟩
    rintro rfl
    exact not_isPrefix_dropLast h hprefix
  · rintro ⟨⟨rest, rfl⟩, hne⟩
    have hrest : rest ≠ [] := by
      rintro rfl
      simp at hne
    rw [List.dropLast_append_of_ne_nil hrest]
    exact List.prefix_append ..

/-- `fs::read` -/
def read (t : Tree Name Content) (path : List Name) : Except ErrorKind Content :=
  if t.blocked path then .error .notADirectory
  else match t path with
    | some (.file content) => .ok content
    | some .dir => .error .isADirectory
    | none => .error .notFound

variable [DecidableEq Name]

def set (t : Tree Name Content) (path : List Name) (node : Option (Node Content)) :
    Tree Name Content := fun p ↦ if p = path then node else t p

/-- All directories on the way to `path`, and one at `path`. -/
def withDirs (t : Tree Name Content) (path : List Name) : Tree Name Content := fun p ↦
  if p <+: path then some .dir else t p

/-- `fs::create_dir_all` -/
def createDirAll (t : Tree Name Content) (path : List Name) :
    Except ErrorKind (Tree Name Content) :=
  if t.isFile path then .error .alreadyExists
  else if t.blocked path then .error .notADirectory
  else .ok (t.withDirs path)

/-- `fs::write`: creates the file, or replaces what is in it. -/
def write (t : Tree Name Content) (path : List Name) (content : Content) :
    Except ErrorKind (Tree Name Content) :=
  if t.blocked path then .error .notADirectory
  else if !t.isDir path.dropLast then .error .notFound
  else if t.isDir path then .error .isADirectory
  else .ok (t.set path (some (.file content)))

/-- `fs::rename` of a file, which replaces a file under the new name. -/
def rename (t : Tree Name Content) (source target : List Name) :
    Except ErrorKind (Tree Name Content) :=
  match t source with
  | some (.file content) =>
      if t.blocked target then .error .notADirectory
      else if !t.isDir target.dropLast then .error .notFound
      else if t.isDir target then .error .isADirectory
      else .ok ((t.set source none).set target (some (.file content)))
  | _ => .error .notFound

/-- `fs::remove_file` -/
def removeFile (t : Tree Name Content) (path : List Name) : Except ErrorKind (Tree Name Content) :=
  if t.blocked path then .error .notADirectory
  else match t path with
    | some (.file _) => .ok (t.set path none)
    | some .dir => .error .isADirectory
    | none => .error .notFound

@[simp] theorem set_self (t : Tree Name Content) (path : List Name) (node : Option (Node Content)) :
    t.set path node path = node := if_pos rfl

theorem set_of_ne (t : Tree Name Content) {p path : List Name} (node : Option (Node Content))
    (h : p ≠ path) : t.set path node p = t p := if_neg h

/-! ## A file written beside its place -/

/-- The file in its place, with the directories on the way and nothing under its first name. -/
def replace (t : Tree Name Content) (temporary destination : List Name) (content : Content) :
    Tree Name Content :=
  (((t.withDirs destination.dropLast).set temporary (some (.file content))).set temporary none).set
    destination (some (.file content))

section Replace

variable {t : Tree Name Content} {p path temporary destination : List Name} {content : Content}

theorem createDirAll_eq (t : Tree Name Content) (path : List Name) :
    (∀ p, p <+: path → t.isFile p = false) ∧ t.createDirAll path = .ok (t.withDirs path) ∨
      (∃ p, p <+: path ∧ t.isFile p = true) ∧ ∃ e, t.createDirAll path = .error e := by
  unfold createDirAll
  cases hfile : t.isFile path with
  | true => exact .inr ⟨⟨path, List.prefix_rfl, hfile⟩, _, rfl⟩
  | false =>
      cases hblocked : t.blocked path with
      | true =>
          obtain ⟨p, hp, hpfile⟩ := List.any_eq_true.mp hblocked
          have hprefix := List.IsPrefix.trans ((List.mem_inits ..).mp hp)
            (List.dropLast_prefix path)
          exact .inr ⟨⟨p, hprefix, hpfile⟩, _, rfl⟩
      | false =>
          refine .inl ⟨fun p hp ↦ ?_, rfl⟩
          by_cases hpath : p = path
          · rwa [hpath]
          · refine blocked_eq_false.mp hblocked p ((isPrefix_dropLast_iff ?_).mpr ⟨hp, hpath⟩)
            rintro rfl
            exact hpath (List.prefix_nil.mp hp)

theorem isFile_withDirs (hp : p <+: path) : (t.withDirs path).isFile p = false := by
  simp [isFile, withDirs, hp]

theorem isDir_withDirs (hp : p <+: path) : (t.withDirs path).isDir p = true := by
  simp [isDir, withDirs, hp]

theorem isDir_withDirs_of_not (hp : ¬p <+: path) : (t.withDirs path).isDir p = t.isDir p := by
  simp [isDir, withDirs, hp]

/-- Where the directories are there, only a directory is in the way of a file. -/
theorem write_withDirs (content : Content) (hpath : path ≠ []) :
    (t.withDirs path.dropLast).write path content = if t.isDir path then .error .isADirectory
    else .ok ((t.withDirs path.dropLast).set path (some (.file content))) := by
  have hblocked : (t.withDirs path.dropLast).blocked path = false :=
    blocked_eq_false.mpr fun p hp ↦ isFile_withDirs hp
  rw [write, hblocked, isDir_withDirs List.prefix_rfl,
    isDir_withDirs_of_not (not_isPrefix_dropLast hpath)]
  rfl

/-- A file is moved to the name beside it, unless there is a directory. -/
theorem rename_written (content : Content) (htemporary : temporary ≠ [])
    (hdestination : destination ≠ []) (hbeside : temporary.dropLast = destination.dropLast) :
    ((t.withDirs destination.dropLast).set temporary (some (.file content))).rename temporary
        destination =
      if destination ≠ temporary ∧ t.isDir destination = true then .error .isADirectory
      else .ok (t.replace temporary destination content) := by
  have hkept : ∀ p, p <+: destination.dropLast →
      ((t.withDirs destination.dropLast).set temporary (some (.file content))) p = some .dir := by
    intro p hp
    have hne : p ≠ temporary := by
      rintro rfl
      exact not_isPrefix_dropLast htemporary (hbeside ▸ hp)
    rw [set_of_ne _ _ hne]
    exact if_pos hp
  have hblocked : ((t.withDirs destination.dropLast).set temporary
      (some (.file content))).blocked destination = false :=
    blocked_eq_false.mpr fun p hp ↦ by simp [isFile, hkept p hp]
  have hparent : ((t.withDirs destination.dropLast).set temporary
      (some (.file content))).isDir destination.dropLast = true :=
    isDir_eq_true.mpr (hkept _ List.prefix_rfl)
  have htarget : ((t.withDirs destination.dropLast).set temporary
      (some (.file content))).isDir destination =
        (decide (destination ≠ temporary) && t.isDir destination) := by
    by_cases hsame : destination = temporary
    · simp [isDir, hsame]
    · have hnot := not_isPrefix_dropLast hdestination
      simp [isDir, set_of_ne _ _ hsame, withDirs, hnot, hsame]
  simp only [rename, set_self, hblocked, hparent, htarget, replace]
  simp

theorem replace_apply : t.replace temporary destination content p =
    if p = destination then some (.file content)
    else if p = temporary then none
    else if p <+: destination.dropLast then some .dir
    else t p := by
  unfold replace set withDirs
  split
  · rfl
  · split <;> rfl

end Replace

/-! ## A tree within a tree -/

section Subtree

variable {Name' : Type} {t : Tree Name Content} {base : List Name} {f : Name' → Name}

/-- What is below `base`, under names that `f` turns into the names there. -/
def subtree (base : List Name) (f : Name' → Name) (t : Tree Name Content) : Tree Name' Content :=
  fun q ↦ t (base ++ q.map f)

/-- The directories on the way to `base` are there. -/
def Holds (t : Tree Name Content) (base : List Name) : Prop := ∀ p, p <+: base → t.isDir p = true

omit [DecidableEq Name] in
theorem isFile_subtree (q : List Name') :
    (t.subtree base f).isFile q = t.isFile (base ++ q.map f) := rfl

omit [DecidableEq Name] in
theorem isDir_subtree (q : List Name') :
    (t.subtree base f).isDir q = t.isDir (base ++ q.map f) := rfl

omit [DecidableEq Name] in
theorem isFile_eq_false_of_isDir {p : List Name} (h : t.isDir p = true) : t.isFile p = false := by
  rw [isDir_eq_true] at h
  simp [isFile, h]

omit [DecidableEq Name] in
/-- Below a directory, what is in the way is below it too. -/
theorem blocked_subtree (hbase : t.Holds base) (q : List Name') :
    (t.subtree base f).blocked q = t.blocked (base ++ q.map f) := by
  rw [Bool.eq_iff_iff, ← not_iff_not, Bool.not_eq_true, Bool.not_eq_true, blocked_eq_false,
    blocked_eq_false]
  by_cases hq : q = []
  · subst hq
    refine iff_of_true (fun r hr ↦ ?_) fun p hp ↦ ?_
    · obtain rfl := List.prefix_nil.mp hr
      exact isFile_eq_false_of_isDir (hbase _ (by simp))
    · have hp : p <+: base := by
        simpa using hp.trans (List.dropLast_prefix _)
      exact isFile_eq_false_of_isDir (hbase p hp)
  · have hdrop : (base ++ q.map f).dropLast = base ++ q.dropLast.map f := by
      rw [List.dropLast_append_of_ne_nil (by simpa using hq), List.map_dropLast]
    rw [hdrop]
    constructor
    · intro h p hp
      rcases List.prefix_or_prefix_of_prefix hp (List.prefix_append base _) with hp' | ⟨rest, rfl⟩
      · exact isFile_eq_false_of_isDir (hbase p hp')
      · obtain ⟨r, hr, rfl⟩ :=
          List.prefix_map_iff.mp ((List.prefix_append_right_inj base).mp hp)
        exact h r hr
    · intro h r hr
      exact h _ ((List.prefix_append_right_inj base).mpr (hr.map f))

omit [DecidableEq Name] in
theorem isDir_subtree_dropLast {q : List Name'} (hq : q ≠ []) :
    (t.subtree base f).isDir q.dropLast = t.isDir (base ++ q.map f).dropLast := by
  rw [isDir_subtree, List.dropLast_append_of_ne_nil (by simpa using hq), List.map_dropLast]

omit [DecidableEq Name] in
theorem read_subtree (hbase : t.Holds base) (q : List Name') :
    (t.subtree base f).read q = t.read (base ++ q.map f) := by
  rw [read, read, blocked_subtree hbase]
  rfl

variable [DecidableEq Name'] (hf : Function.Injective f)
include hf

theorem subtree_set (q : List Name') (node : Option (Node Content)) :
    (t.subtree base f).set q node = (t.set (base ++ q.map f) node).subtree base f := by
  funext p
  simp only [subtree, set, List.append_cancel_left_eq, (List.map_injective_iff.mpr hf).eq_iff]

theorem subtree_withDirs (q : List Name') :
    (t.subtree base f).withDirs q = (t.withDirs (base ++ q.map f)).subtree base f := by
  funext p
  have hprefix : base ++ p.map f <+: base ++ q.map f ↔ p <+: q := by
    rw [List.prefix_append_right_inj, List.prefix_map_iff]
    constructor
    · rintro ⟨r, hr, heq⟩
      rwa [List.map_injective_iff.mpr hf heq]
    · exact fun h ↦ ⟨p, h, rfl⟩
  simp only [subtree, withDirs, hprefix]

theorem createDirAll_subtree (hbase : t.Holds base) (q : List Name') :
    (t.subtree base f).createDirAll q =
      (t.createDirAll (base ++ q.map f)).map (subtree base f) := by
  rw [createDirAll, createDirAll, blocked_subtree hbase, isFile_subtree, subtree_withDirs hf]
  repeat' split
  all_goals rfl

theorem write_subtree (hbase : t.Holds base) {q : List Name'} (hq : q ≠ []) (content : Content) :
    (t.subtree base f).write q content =
      (t.write (base ++ q.map f) content).map (subtree base f) := by
  rw [write, write, blocked_subtree hbase, isDir_subtree_dropLast hq, isDir_subtree,
    subtree_set hf]
  repeat' split
  all_goals rfl

theorem rename_subtree (hbase : t.Holds base) {p q : List Name'} (hq : q ≠ []) :
    (t.subtree base f).rename p q =
      (t.rename (base ++ p.map f) (base ++ q.map f)).map (subtree base f) := by
  rw [rename, rename, blocked_subtree hbase, isDir_subtree_dropLast hq, isDir_subtree]
  rw [show (t.subtree base f) p = t (base ++ p.map f) from rfl]
  split
  · rw [subtree_set hf, subtree_set hf]
    repeat' split
    all_goals rfl
  · rfl

theorem removeFile_subtree (hbase : t.Holds base) (q : List Name') :
    (t.subtree base f).removeFile q =
      (t.removeFile (base ++ q.map f)).map (subtree base f) := by
  rw [removeFile, removeFile, blocked_subtree hbase, subtree_set hf]
  rw [show (t.subtree base f) q = t (base ++ q.map f) from rfl]
  repeat' split
  all_goals rfl

end Subtree

end Tree

end Files
