import ApiStarter.ObjectStorage
import ApiStarter.Services.Files
import Mathlib.Algebra.GroupWithZero.Nat

/-!
# Below the storage root

Local disk storage joins a key to its root directory as a path, so what a call
touches depends on how paths are put together: an absolute key would replace the
root, `..` would leave it, and the temporary name is made by replacing an
extension.  For a valid key every path touched is the root followed by plain
names, but for the temporary name of a key such as `..a`, which is the directory
above.  The avatar route asks for valid keys only, and for none of this kind.
-/

namespace ApiStarter

open Files

/-! ## Paths -/

/-- `std::path::Component` on Unix. -/
inductive Component
  | rootDir
  | curDir
  | parentDir
  | normal (name : String)
  deriving DecidableEq

abbrev Path := List Component

/-- What one segment of a path is; empty and `.` segments are none. -/
def component? (segment : String) : Option Component :=
  if segment = "" ∨ segment = "." then none
  else if segment = ".." then some .parentDir
  else some (.normal segment)

/-- `Path::components` -/
def components (path : String) : Path :=
  (if path.toList.head? = some '/' then [.rootDir]
    else if (ObjectStorage.segments path).head? = some "." then [.curDir] else []) ++
    (ObjectStorage.segments path).filterMap component?

/-- `Path::join`: an absolute path replaces the one it is joined to. -/
def Path.join (base : Path) (path : String) : Path :=
  if path.toList.head? = some '/' ∨ base = [] then components path
  else base ++ (ObjectStorage.segments path).filterMap component?

/-- `Path::parent` -/
def Path.parent (path : Path) : Option Path :=
  match path.getLast? with
  | none | some .rootDir => none
  | some _ => some path.dropLast

/-- `Path::with_extension`: nothing changes for a path without a file name, which is also what is
left of `..x` when the extension is cut off. -/
def Path.withExtension (path : Path) (extension : String) : Path :=
  match path.getLast? with
  | some (.normal name) =>
      let stem := ObjectStorage.fileStem name
      path.dropLast ++ [if stem = "." then .parentDir else .normal (stem ++ "." ++ extension)]
  | _ => path

/-- One step further on the way `path` leads. -/
def Path.enter (path : Path) (c : Component) : Path :=
  match c, path.getLast? with
  | .parentDir, some (.normal _) => path.dropLast
  | c, _ => path ++ [c]

/-- Where a path leads, when each name on it is a directory. -/
def Path.resolve (path : Path) : Path := path.foldl Path.enter []

theorem foldl_enter_normal (path : Path) (names : List String) :
    (names.map Component.normal).foldl Path.enter path = path ++ names.map .normal := by
  induction names generalizing path with
  | nil => simp
  | cons name names ih =>
      rw [List.map_cons, List.foldl_cons, Path.enter, ih, List.append_assoc]
      · rfl
      · intro _ h
        cases h

theorem resolve_normal (names : List String) :
    Path.resolve (names.map .normal) = names.map .normal := foldl_enter_normal [] names

/-- `..` takes the last name back, and leads out where there is none. -/
theorem resolve_parentDir (names : List String) :
    Path.resolve (names.map .normal ++ [.parentDir]) =
      if names = [] then [.parentDir] else names.dropLast.map .normal := by
  rw [Path.resolve, List.foldl_append, foldl_enter_normal]
  cases names using List.reverseRecOn with
  | nil => rfl
  | append_singleton names name => simp [Path.enter]

/-! ## Calls to the file system -/

/-- A whole file system. -/
abbrev FileSystem := Tree Component Bytes

inductive FileCall
  | createDirAll (path : Path)
  | write (path : Path) (bytes : Bytes)
  | rename (source target : Path)
  | read (path : Path)
  | removeFile (path : Path)

/-- The paths a call reads, writes, renames or removes; `create_dir_all` makes the directories on
the way that are not there. -/
def FileCall.touches (fs : FileSystem) : FileCall → List Path
  | .createDirAll path => path.inits.filter fun p ↦ !fs.isDir p
  | .write path _ => [path]
  | .rename source target => [source, target]
  | .read path => [path]
  | .removeFile path => [path]

/-- The file system after the call, `none` if it fails. -/
def FileCall.exec (fs : FileSystem) : FileCall → Option FileSystem
  | .createDirAll path => (fs.createDirAll path).toOption
  -- what `..` names is a directory, if anything
  | .write path bytes =>
      if path.getLast? = some .parentDir then none else (fs.write path bytes).toOption
  | .rename source target => (fs.rename source target).toOption
  | .read path => (fs.read path).toOption.map fun _ ↦ fs
  | .removeFile path => (fs.removeFile path).toOption

/-- What the calls touch one after the other, up to the first that fails, and what is left. -/
def execAll : List FileCall → FileSystem → List Path × FileSystem
  | [], fs => ([], fs)
  | call :: calls, fs =>
      match call.exec fs with
      | none => (call.touches fs, fs)
      | some fs' => (call.touches fs ++ (execAll calls fs').1, (execAll calls fs').2)

/-- The calls of `put`, `get` and `delete` on local disk. -/
def StorageCall.fileCalls (root : Path) : StorageCall → List FileCall
  | .put key bytes =>
      if ObjectStorage.isValidKey key then
        let destination := root.join key
        let temporary := destination.withExtension "tmp"
        (destination.parent.toList.map .createDirAll) ++
          [.write temporary bytes, .rename temporary destination]
      else []
  | .get key => if ObjectStorage.isValidKey key then [.read (root.join key)] else []
  | .delete key => if ObjectStorage.isValidKey key then [.removeFile (root.join key)] else []

/-- A put that opens a directory above for its temporary file. -/
def StorageCall.OpensParent : StorageCall → Prop
  | .put key _ => ObjectStorage.isValidKey key = true ∧ ObjectStorage.StemIsPoint key
  | .get _ | .delete _ => False

/-- Local disk storage, whose root directory `from_config` has created. -/
structure LocalDisk where
  root : Path
  fs : FileSystem
  ready : fs.Holds root

/-- The path goes on from the root and leads to a place at least one plain name further. -/
def StrictlyBelow (root path : Path) : Prop :=
  ∃ (rest : Path) (names : List String), path = root ++ rest ∧ names ≠ [] ∧
    rest.resolve = names.map .normal

/-! ## Valid keys -/

section Keys

variable {key segment : String} {root path : Path}

/-- What `is_valid_key` says of each segment. -/
theorem valid_segment (h : ObjectStorage.isValidKey key = true)
    (hs : segment ∈ ObjectStorage.segments key) :
    segment ≠ "" ∧ segment ≠ "." ∧ segment ≠ ".." ∧
      segment.toList.all ObjectStorage.isKeyChar = true := by
  rw [ObjectStorage.isValidKey, Bool.and_eq_true] at h
  have hsegment := List.all_eq_true.mp h.2 segment hs
  simpa [and_assoc] using hsegment

theorem component?_of_valid (h : ObjectStorage.isValidKey key = true)
    (hs : segment ∈ ObjectStorage.segments key) : component? segment = some (.normal segment) := by
  obtain ⟨hempty, hdot, hdots, -⟩ := valid_segment h hs
  rw [component?, if_neg (not_or.mpr ⟨hempty, hdot⟩), if_neg hdots]

theorem filterMap_component? (h : ObjectStorage.isValidKey key = true) :
    (ObjectStorage.segments key).filterMap component? =
      (ObjectStorage.segments key).map .normal := by
  rw [← List.filterMap_eq_map]
  exact List.filterMap_congr fun s hs ↦ component?_of_valid h hs

/-- A valid key is relative. -/
theorem not_absolute (h : ObjectStorage.isValidKey key = true) :
    key.toList.head? ≠ some '/' := by
  intro hslash
  obtain ⟨rest, hrest⟩ := List.head?_eq_some_iff.mp hslash
  have hmem : "" ∈ ObjectStorage.segments key := by
    rw [ObjectStorage.segments, hrest, List.splitOn, List.splitOnP_cons_eq_if_modifyHead]
    simp
  exact (valid_segment h hmem).1 rfl

theorem join_eq (h : ObjectStorage.isValidKey key = true) (root : Path) :
    root.join key = root ++ (ObjectStorage.segments key).map .normal := by
  rw [Path.join]
  split
  case isTrue hbase =>
    have hbase : root = [] := hbase.resolve_left (not_absolute h)
    have hcur : (ObjectStorage.segments key).head? ≠ some "." := by
      intro hhead
      exact (valid_segment h (List.mem_of_mem_head? hhead)).2.1 rfl
    rw [components, if_neg (not_absolute h), if_neg hcur, hbase, filterMap_component? h]
  case isFalse => rw [filterMap_component? h]

theorem join_eq_concat (h : ObjectStorage.isValidKey key = true) (root : Path) :
    root.join key = (root ++ (ObjectStorage.segments key).dropLast.map .normal) ++
      [.normal ((ObjectStorage.segments key).getLast?.getD "")] := by
  have hlast := List.dropLast_concat_getLast (ObjectStorage.segments_ne_nil key)
  rw [join_eq h, List.append_assoc, List.getLast?_eq_some_getLast
    (ObjectStorage.segments_ne_nil key), Option.getD_some]
  conv_lhs => rw [← hlast]
  rw [List.map_append, List.map_singleton]

/-- The parent of an object's path is the root or below it. -/
theorem parent_join (h : ObjectStorage.isValidKey key = true) (root : Path) :
    (root.join key).parent =
      some (root ++ (ObjectStorage.segments key).dropLast.map .normal) := by
  rw [join_eq_concat h, Path.parent, List.getLast?_concat, List.dropLast_concat]

/-- The temporary file is beside the object. -/
theorem withExtension_join (h : ObjectStorage.isValidKey key = true)
    (hstem : ¬ObjectStorage.StemIsPoint key) (root : Path) :
    (root.join key).withExtension "tmp" =
      root ++ (ObjectStorage.temporary key).map .normal := by
  rw [ObjectStorage.StemIsPoint] at hstem
  rw [join_eq_concat h, Path.withExtension, List.getLast?_concat, List.dropLast_concat,
    ObjectStorage.temporary, ObjectStorage.withExtension, List.map_append, List.map_singleton,
    ← List.append_assoc]
  simp only [hstem, if_false]

/-- The temporary file would be the directory above. -/
theorem withExtension_join_of_stemIsPoint (h : ObjectStorage.isValidKey key = true)
    (hstem : ObjectStorage.StemIsPoint key) (root : Path) :
    (root.join key).withExtension "tmp" =
      root ++ ((ObjectStorage.segments key).dropLast.map .normal ++ [.parentDir]) := by
  rw [ObjectStorage.StemIsPoint] at hstem
  rw [join_eq_concat h, Path.withExtension, List.getLast?_concat, List.dropLast_concat,
    ← List.append_assoc]
  simp only [hstem, if_true]

theorem strictlyBelow_append {names : List String} (h : names ≠ []) :
    StrictlyBelow root (root ++ names.map .normal) :=
  ⟨names.map .normal, names, rfl, h, resolve_normal names⟩

/-- `..` stays below the root from the second directory on. -/
theorem strictlyBelow_parentDir_iff (names : List String) :
    StrictlyBelow root (root ++ (names.map .normal ++ [.parentDir])) ↔ 2 ≤ names.length := by
  have hresolve := resolve_parentDir names
  constructor
  · rintro ⟨rest, front, hpath, hne, hfront⟩
    rw [← List.append_cancel_left hpath, hresolve] at hfront
    split at hfront
    next hnil =>
      cases front with
      | nil => exact absurd rfl hne
      | cons name front => simp at hfront
    next hnil =>
      have hlength := congrArg List.length hfront
      have hpos := List.length_pos_of_ne_nil hne
      rw [List.length_map, List.length_dropLast, List.length_map] at hlength
      omega
  · intro hlong
    have hnil : names ≠ [] := by
      rintro rfl
      simp at hlong
    rw [if_neg hnil] at hresolve
    refine ⟨_, names.dropLast, rfl, ?_, hresolve⟩
    apply List.ne_nil_of_length_pos
    rw [List.length_dropLast]
    omega

theorem strictlyBelow_join (h : ObjectStorage.isValidKey key = true) (root : Path) :
    StrictlyBelow root (root.join key) := by
  rw [join_eq h]
  exact strictlyBelow_append (ObjectStorage.segments_ne_nil key)

theorem fileCalls_put (h : ObjectStorage.isValidKey key = true)
    (hstem : ¬ObjectStorage.StemIsPoint key) (root : Path) (bytes : Bytes) :
    (StorageCall.put key bytes).fileCalls root =
      [.createDirAll (root ++ (ObjectStorage.segments key).dropLast.map .normal),
        .write (root ++ (ObjectStorage.temporary key).map .normal) bytes,
        .rename (root ++ (ObjectStorage.temporary key).map .normal)
          (root ++ (ObjectStorage.segments key).map .normal)] := by
  rw [StorageCall.fileCalls, if_pos h]
  simp only [parent_join h, withExtension_join h hstem]
  rw [join_eq h]
  rfl

theorem fileCalls_put_of_stemIsPoint (h : ObjectStorage.isValidKey key = true)
    (hstem : ObjectStorage.StemIsPoint key) (root : Path) (bytes : Bytes) :
    (StorageCall.put key bytes).fileCalls root =
      [.createDirAll (root ++ (ObjectStorage.segments key).dropLast.map .normal),
        .write (root ++ ((ObjectStorage.segments key).dropLast.map .normal ++ [.parentDir])) bytes,
        .rename (root ++ ((ObjectStorage.segments key).dropLast.map .normal ++ [.parentDir]))
          (root ++ (ObjectStorage.segments key).map .normal)] := by
  rw [StorageCall.fileCalls, if_pos h]
  simp only [parent_join h, withExtension_join_of_stemIsPoint h hstem]
  rw [join_eq h]
  rfl

end Keys

/-! ## What a call touches -/

section Touched

variable {root : Path} {fs fs' : FileSystem} {call : FileCall}

/-- The call works below the root only: what it touches while the root is there. -/
def Confined (root : Path) (call : FileCall) : Prop :=
  ∀ fs : FileSystem, fs.Holds root → ∀ p ∈ call.touches fs, StrictlyBelow root p

theorem not_isPrefix_of_strictlyBelow {p q : Path} (h : StrictlyBelow root p) (hq : q <+: root) :
    q ≠ p := by
  rintro rfl
  obtain ⟨rest, names, rfl, hne, hrest⟩ := h
  have hlength := hq.length_le
  have hpos : 0 < rest.length := by
    apply List.length_pos_of_ne_nil
    rintro rfl
    exact hne (List.map_eq_nil_iff.mp hrest.symm)
  rw [List.length_append] at hlength
  omega

/-- Directories on the way to a path below the root that are not there are below the root. -/
theorem confined_createDirAll (front : List String) :
    Confined root (.createDirAll (root ++ front.map .normal)) := by
  intro fs hready p hp
  obtain ⟨hinit, hmissing⟩ := List.mem_filter.mp hp
  have hinit := (List.mem_inits _ _).mp hinit
  have hroot : ¬p <+: root := by
    intro h
    simp [hready p h] at hmissing
  obtain ⟨rest, rfl⟩ := (List.prefix_or_prefix_of_prefix hinit
    (List.prefix_append root _)).resolve_left hroot
  have hrest : rest <+: front.map .normal := (List.prefix_append_right_inj root).mp hinit
  obtain ⟨names, -, rfl⟩ := List.prefix_map_iff.mp hrest
  apply strictlyBelow_append
  rintro rfl
  exact hroot (by simp)

theorem holds_set {path : Path} {node : Option (Node Bytes)} (h : fs.Holds root)
    (hpath : StrictlyBelow root path) : Tree.Holds (fs.set path node) root := by
  intro p hp
  have hne := not_isPrefix_of_strictlyBelow hpath hp
  rw [Tree.isDir, Tree.set_of_ne _ _ hne, ← Tree.isDir]
  exact h p hp

/-- A confined call leaves the root where it is. -/
theorem holds_exec (h : fs.Holds root) (hcall : Confined root call)
    (hexec : call.exec fs = some fs') : fs'.Holds root := by
  have htouched := hcall fs h
  cases call with
  | createDirAll path =>
      obtain ⟨-, hmade⟩ | ⟨-, e, hfailed⟩ := Tree.createDirAll_eq fs path
      · rw [FileCall.exec, hmade] at hexec
        obtain rfl := Option.some.inj hexec
        intro p hp
        by_cases hpath : p <+: path
        · exact Tree.isDir_withDirs hpath
        · rw [Tree.isDir_withDirs_of_not hpath]
          exact h p hp
      · rw [FileCall.exec, hfailed] at hexec
        cases hexec
  | write path bytes =>
      have hpath := htouched path (List.mem_singleton_self _)
      simp only [FileCall.exec, Tree.write] at hexec
      split at hexec
      · cases hexec
      · split at hexec
        · cases hexec
        · split at hexec
          · cases hexec
          · split at hexec
            · cases hexec
            · obtain rfl := Option.some.inj hexec
              exact holds_set h hpath
  | rename source target =>
      have hsource := htouched source List.mem_cons_self
      have htarget := htouched target (List.mem_cons_of_mem _ List.mem_cons_self)
      simp only [FileCall.exec, Tree.rename] at hexec
      split at hexec
      · split at hexec
        · cases hexec
        · split at hexec
          · cases hexec
          · split at hexec
            · cases hexec
            · obtain rfl := Option.some.inj hexec
              exact holds_set (holds_set h hsource) htarget
      · cases hexec
  | read path =>
      obtain ⟨content, -, rfl⟩ := Option.map_eq_some_iff.mp hexec
      exact h
  | removeFile path =>
      have hpath := htouched path (List.mem_singleton_self _)
      simp only [FileCall.exec, Tree.removeFile] at hexec
      split at hexec
      · cases hexec
      · split at hexec
        · obtain rfl := Option.some.inj hexec
          exact holds_set h hpath
        · cases hexec
        · cases hexec

theorem execAll_confined {calls : List FileCall} (h : fs.Holds root)
    (hcalls : ∀ call ∈ calls, Confined root call) :
    (∀ p ∈ (execAll calls fs).1, StrictlyBelow root p) ∧ Tree.Holds (execAll calls fs).2 root := by
  induction calls generalizing fs with
  | nil => exact ⟨fun p hp ↦ absurd hp List.not_mem_nil, h⟩
  | cons call calls ih =>
      have hone := hcalls call List.mem_cons_self
      rw [execAll]
      cases hexec : call.exec fs with
      | none => exact ⟨hone fs h, h⟩
      | some fs' =>
          obtain ⟨hrest, hready⟩ := ih (holds_exec h hone hexec)
            fun c hc ↦ hcalls c (List.mem_cons_of_mem _ hc)
          refine ⟨fun p hp ↦ ?_, hready⟩
          rcases List.mem_append.mp hp with hp | hp
          · exact hone fs h p hp
          · exact hrest p hp

/-- Unless the temporary name is the directory above, the calls of `put`, `get` and `delete` are
confined. -/
theorem confined_fileCalls (root : Path) {call : StorageCall} (hcall : ¬call.OpensParent) :
    ∀ c ∈ call.fileCalls root, Confined root c := by
  intro c hc
  cases call with
  | put key bytes =>
      cases hvalid : ObjectStorage.isValidKey key with
      | false => simp [StorageCall.fileCalls, hvalid] at hc
      | true =>
          have hdestination : StrictlyBelow root
              (root ++ (ObjectStorage.segments key).map .normal) :=
            strictlyBelow_append (ObjectStorage.segments_ne_nil key)
          have htemporary : StrictlyBelow root
              (root ++ (ObjectStorage.temporary key).map .normal) :=
            strictlyBelow_append (ObjectStorage.temporary_ne_nil key)
          rw [fileCalls_put hvalid fun hstem ↦ hcall ⟨hvalid, hstem⟩] at hc
          simp only [List.mem_cons, List.not_mem_nil, or_false] at hc
          rcases hc with rfl | rfl | rfl
          · exact confined_createDirAll _
          · intro fs _ p hp
            rwa [List.mem_singleton.mp hp]
          · intro fs _ p hp
            rcases List.mem_cons.mp hp with rfl | hp
            · exact htemporary
            · rwa [List.mem_singleton.mp hp]
  | get key =>
      rw [StorageCall.fileCalls] at hc
      split at hc
      case isFalse => cases hc
      case isTrue hvalid =>
        obtain rfl := List.mem_singleton.mp hc
        intro fs _ p hp
        rw [List.mem_singleton.mp hp]
        exact strictlyBelow_join hvalid root
  | delete key =>
      rw [StorageCall.fileCalls] at hc
      split at hc
      case isFalse => cases hc
      case isTrue hvalid =>
        obtain rfl := List.mem_singleton.mp hc
        intro fs _ p hp
        rw [List.mem_singleton.mp hp]
        exact strictlyBelow_join hvalid root

/-- With the directory above for a temporary file, `put` makes the directories of the key and
fails. -/
theorem execAll_put_of_stemIsPoint {key : String} (fs : FileSystem) (bytes : Bytes)
    (hvalid : ObjectStorage.isValidKey key = true) (hstem : ObjectStorage.StemIsPoint key) :
    let dirs : Path := root ++ (ObjectStorage.segments key).dropLast.map Component.normal
    execAll ((StorageCall.put key bytes).fileCalls root) fs =
      match (FileCall.createDirAll dirs).exec fs with
      | none => ((FileCall.createDirAll dirs).touches fs, fs)
      | some fs' => ((FileCall.createDirAll dirs).touches fs ++
          [root ++ ((ObjectStorage.segments key).dropLast.map Component.normal ++
            [.parentDir])], fs') := by
  intro dirs
  rw [fileCalls_put_of_stemIsPoint hvalid hstem, execAll]
  split
  next hmade => simp only [dirs, hmade]
  next fs' hmade =>
    have hlast : (root ++ ((ObjectStorage.segments key).dropLast.map Component.normal ++
        [Component.parentDir])).getLast? = some .parentDir := by
      rw [← List.append_assoc, List.getLast?_concat]
    have hfails : (FileCall.write (root ++ ((ObjectStorage.segments key).dropLast.map .normal ++
        [.parentDir])) bytes).exec fs' = none := if_pos hlast
    simp only [dirs, hmade, execAll, hfails]
    rfl

/-- Whatever the call, the root stays where it is. -/
theorem holds_execAll (h : fs.Holds root) (call : StorageCall) :
    Tree.Holds (execAll (call.fileCalls root) fs).2 root := by
  by_cases hparent : call.OpensParent
  · cases call with
    | put key bytes =>
        rw [execAll_put_of_stemIsPoint fs bytes hparent.1 hparent.2]
        split
        next => exact h
        next fs' hmade => exact holds_exec h (confined_createDirAll _) hmade
    | get => cases hparent
    | delete => cases hparent
  · exact (execAll_confined h (confined_fileCalls root hparent)).2

end Touched

/-! ## The storage -/

namespace LocalDisk

/-- The local disk of `from_config`, if its directory can be created. -/
def fromConfig (root : Path) (fs : FileSystem) : Option LocalDisk :=
  match h : fs.createDirAll root with
  | .error _ => none
  | .ok fs' => some ⟨root, fs', by
      obtain ⟨-, hmade⟩ | ⟨-, e, hfailed⟩ := Tree.createDirAll_eq fs root
      · obtain rfl := Except.ok.inj (h.symm.trans hmade)
        exact fun p hp ↦ Tree.isDir_withDirs hp
      · cases h.symm.trans hfailed⟩

/-- What a call touches. -/
def touches (disk : LocalDisk) (call : StorageCall) : List Path :=
  (execAll (call.fileCalls disk.root) disk.fs).1

/-- The storage after a call. -/
def after (disk : LocalDisk) (call : StorageCall) : LocalDisk where
  root := disk.root
  fs := (execAll (call.fileCalls disk.root) disk.fs).2
  ready := holds_execAll disk.ready call

/-- What one call after the other touches. -/
def touchedBy (disk : LocalDisk) : List StorageCall → List Path
  | [] => []
  | call :: calls => disk.touches call ++ (disk.after call).touchedBy calls

/-- The call opens the root or the directory above it: the temporary name is `..` and no file is
in the way of the key's directory. -/
def LeavesRoot (disk : LocalDisk) : StorageCall → Prop
  | .put key _ => ObjectStorage.isValidKey key = true ∧ ObjectStorage.StemIsPoint key ∧
      (ObjectStorage.segments key).length ≤ 2 ∧
      disk.fs.isFile (disk.root ++ (ObjectStorage.segments key).dropLast.map .normal) = false
  | .get _ | .delete _ => False

/-- None of the calls leaves the root. -/
def StaysInside : LocalDisk → List StorageCall → Prop
  | _, [] => True
  | disk, call :: calls => ¬disk.LeavesRoot call ∧ (disk.after call).StaysInside calls

/-- The directory of a key of at most two segments is there, unless it is a file. -/
theorem createDirAll_shallow (disk : LocalDisk) {names : List String} (h : names.length ≤ 1) :
    (∃ fs, (FileCall.createDirAll (disk.root ++ names.map .normal)).exec disk.fs = some fs) ↔
      disk.fs.isFile (disk.root ++ names.map .normal) = false := by
  rw [FileCall.exec]
  rcases Tree.createDirAll_eq disk.fs (disk.root ++ names.map .normal) with
    ⟨hway, hmade⟩ | ⟨⟨p, hp, hfile⟩, e, hfailed⟩
  · rw [hmade]
    exact iff_of_true ⟨_, rfl⟩ (hway _ List.prefix_rfl)
  · have hwhole : p = disk.root ++ names.map .normal := by
      by_contra hne
      have hnil : disk.root ++ names.map Component.normal ≠ [] := by
        intro hnil
        rw [hnil] at hp hne
        exact hne (List.prefix_nil.mp hp)
      have hroot : p <+: disk.root := by
        apply ((Tree.isPrefix_dropLast_iff hnil).mpr ⟨hp, hne⟩).trans
        cases names with
        | nil => simpa using List.dropLast_prefix disk.root
        | cons name names =>
            obtain rfl : names = [] := List.length_eq_zero_iff.mp (by simpa using h)
            simp
      rw [Tree.isFile_eq_false_of_isDir (disk.ready p hroot)] at hfile
      cases hfile
    rw [hfailed, ← hwhole, hfile]
    simp [Except.toOption]

theorem touches_strictlyBelow_iff (disk : LocalDisk) (call : StorageCall) :
    (∀ p ∈ disk.touches call, StrictlyBelow disk.root p) ↔ ¬disk.LeavesRoot call := by
  by_cases hparent : call.OpensParent
  · cases call with
    | put key bytes =>
        obtain ⟨hvalid, hstem⟩ := hparent
        have hmade := confined_createDirAll (ObjectStorage.segments key).dropLast disk.fs
          disk.ready
        rw [touches, execAll_put_of_stemIsPoint disk.fs bytes hvalid hstem]
        have hlength : (ObjectStorage.segments key).dropLast.length ≤ 1 ↔
            (ObjectStorage.segments key).length ≤ 2 := by
          rw [List.length_dropLast]
          omega
        split
        next hfailed =>
          refine iff_of_true hmade ?_
          rintro ⟨-, -, hshort, hfree⟩
          obtain ⟨fs', hfs'⟩ := (disk.createDirAll_shallow (hlength.mpr hshort)).mpr hfree
          cases hfailed.symm.trans hfs'
        next fs' hfs' =>
          rw [List.forall_mem_append, List.forall_mem_singleton, strictlyBelow_parentDir_iff]
          constructor
          · rintro ⟨-, hlong⟩ ⟨-, -, hshort, -⟩
            have hshort := hlength.mpr hshort
            omega
          · intro hstays
            refine ⟨hmade, ?_⟩
            by_contra hlong
            have hshort : (ObjectStorage.segments key).dropLast.length ≤ 1 := by omega
            exact hstays ⟨hvalid, hstem, hlength.mp hshort,
              (disk.createDirAll_shallow hshort).mp ⟨fs', hfs'⟩⟩
    | get => cases hparent
    | delete => cases hparent
  · refine iff_of_true (execAll_confined disk.ready (confined_fileCalls _ hparent)).1 ?_
    intro hleaves
    cases call with
    | put key bytes => exact hparent ⟨hleaves.1, hleaves.2.1⟩
    | get => cases hleaves
    | delete => cases hleaves

theorem touchedBy_strictlyBelow_iff (disk : LocalDisk) (calls : List StorageCall) :
    (∀ p ∈ disk.touchedBy calls, StrictlyBelow disk.root p) ↔ disk.StaysInside calls := by
  induction calls generalizing disk with
  | nil => simp [touchedBy, StaysInside]
  | cons call calls ih =>
      rw [touchedBy, StaysInside, ← touches_strictlyBelow_iff, ← ih, List.forall_mem_append]
      exact Iff.rfl

/-! Below the root, the paths are the segments of the keys. -/

/-- What is on the disk below the root. -/
def contents (disk : LocalDisk) : Disk := disk.fs.subtree disk.root .normal

theorem normal_injective : Function.Injective Component.normal := fun _ _ ↦ Component.normal.inj

theorem contents_after_put_of_stemIsPoint (disk : LocalDisk) {key : String} (bytes : Bytes)
    (hvalid : ObjectStorage.isValidKey key = true) (hstem : ObjectStorage.StemIsPoint key) :
    (disk.after (.put key bytes)).contents = (ObjectStorage.put disk.contents key bytes).2 := by
  simp only [contents, after, execAll_put_of_stemIsPoint disk.fs bytes hvalid hstem,
    ObjectStorage.put_eq hvalid, FileCall.exec]
  rw [Tree.createDirAll_subtree normal_injective disk.ready]
  rcases Tree.createDirAll_eq disk.fs
    (disk.root ++ (ObjectStorage.segments key).dropLast.map .normal) with
    ⟨-, hmade⟩ | ⟨-, e, hfailed⟩
  · have hbelow := @Tree.subtree_withDirs _ _ _ _ disk.fs disk.root _ _ normal_injective
      (ObjectStorage.segments key).dropLast
    simp only [hmade, Except.map, Except.toOption, ← hbelow, ObjectStorage.write_temporary,
      hstem, true_or, if_true]
  · simp only [hfailed, Except.map, Except.toOption]

theorem contents_after_put (disk : LocalDisk) (key : String) (bytes : Bytes) :
    (disk.after (.put key bytes)).contents = (ObjectStorage.put disk.contents key bytes).2 := by
  cases hvalid : ObjectStorage.isValidKey key with
  | false => simp [contents, after, StorageCall.fileCalls, ObjectStorage.put, hvalid, execAll]
  | true =>
      by_cases hstem : ObjectStorage.StemIsPoint key
      · exact contents_after_put_of_stemIsPoint disk bytes hvalid hstem
      · have hconfined := @confined_fileCalls disk.root (.put key bytes) fun h ↦ hstem h.2
        have hkey := ObjectStorage.segments_ne_nil key
        have hbeside := ObjectStorage.temporary_ne_nil key
        have hname : (disk.root ++ (ObjectStorage.temporary key).map
            Component.normal).getLast? ≠ some .parentDir := by
          rw [List.getLast?_append, List.getLast?_map]
          cases hlast : (ObjectStorage.temporary key).getLast? with
          | none => exact absurd (List.getLast?_eq_none_iff.mp hlast) hbeside
          | some name => simp
        have hwrites (disk : Disk) : ObjectStorage.writeFile disk (ObjectStorage.temporary key)
            bytes = disk.write (ObjectStorage.temporary key) bytes :=
          if_neg fun h ↦ hstem ((ObjectStorage.getLast?_temporary key).mp h.1)
        rw [fileCalls_put hvalid hstem] at hconfined
        simp only [contents, after, fileCalls_put hvalid hstem, ObjectStorage.put_eq hvalid,
          hwrites]
        rw [Tree.createDirAll_subtree normal_injective disk.ready, execAll, FileCall.exec]
        cases hmade : disk.fs.createDirAll
          (disk.root ++ (ObjectStorage.segments key).dropLast.map .normal) with
        | error e => rfl
        | ok fs =>
            have hready : fs.Holds disk.root := holds_exec disk.ready
              (hconfined _ List.mem_cons_self) (by rw [FileCall.exec, hmade]; rfl)
            simp only [Except.map, Except.toOption]
            rw [Tree.write_subtree normal_injective hready hbeside, execAll, FileCall.exec,
              if_neg hname]
            cases hwritten : fs.write
              (disk.root ++ (ObjectStorage.temporary key).map .normal) bytes with
            | error e => rfl
            | ok fs' =>
                have hready' : fs'.Holds disk.root := holds_exec hready
                  (hconfined _ (List.mem_cons_of_mem _ List.mem_cons_self))
                  (by rw [FileCall.exec, if_neg hname, hwritten]; rfl)
                simp only [Except.map, Except.toOption]
                rw [Tree.rename_subtree normal_injective hready' hkey, execAll, FileCall.exec]
                cases fs'.rename (disk.root ++ (ObjectStorage.temporary key).map .normal)
                  (disk.root ++ (ObjectStorage.segments key).map .normal) <;> rfl

theorem contents_after_delete (disk : LocalDisk) (key : String) :
    (disk.after (.delete key)).contents = ObjectStorage.delete disk.contents key := by
  cases hvalid : ObjectStorage.isValidKey key with
  | false => simp [contents, after, StorageCall.fileCalls, ObjectStorage.delete, hvalid, execAll]
  | true =>
      simp only [contents, after, StorageCall.fileCalls, ObjectStorage.delete, if_pos hvalid,
        join_eq hvalid]
      rw [Tree.removeFile_subtree normal_injective disk.ready, execAll, FileCall.exec]
      cases disk.fs.removeFile (disk.root ++ (ObjectStorage.segments key).map .normal) <;> rfl

theorem contents_after_get (disk : LocalDisk) (key : String) :
    (disk.after (.get key)).contents = disk.contents := by
  simp only [contents, after, StorageCall.fileCalls]
  split
  · rw [execAll, FileCall.exec]
    cases disk.fs.read (disk.root.join key) <;> rfl
  · rfl

/-- What is read below the root is what the disk has under the key. -/
theorem get_contents (disk : LocalDisk) {key : String} (h : ObjectStorage.isValidKey key = true) :
    ObjectStorage.get disk.contents key = match disk.fs.read (disk.root.join key) with
      | .ok bytes => .ok (some bytes)
      | .error .notFound => .ok none
      | .error e => .error (.reading e) := by
  have hread : disk.contents.read (ObjectStorage.segments key) =
      disk.fs.read (disk.root.join key) := by
    rw [join_eq h]
    exact Tree.read_subtree disk.ready _
  rw [← hread]
  exact if_pos h

/-- Below its root, the storage is the disk that keys are looked up on. -/
theorem contents_after (disk : LocalDisk) (call : StorageCall) :
    (disk.after call).contents = (disk.contents.serve call).2 := by
  cases call with
  | put key bytes =>
      rw [contents_after_put, Disk.serve]
      split <;> simp_all
  | get key =>
      rw [contents_after_get, Disk.serve]
      split <;> rfl
  | delete key => exact contents_after_delete disk key

end LocalDisk

/-! ## The avatar route -/

/-- `&s[..n]`, `none` where it panics: past the end or inside a character. -/
def sliceTo : ℕ → List Char → Option (List Char)
  | n, [] => if n = 0 then some [] else none
  | n, c :: s =>
      if n = 0 then some []
      else if c.utf8Size ≤ n then (sliceTo (n - c.utf8Size) s).map (c :: ·)
      else none

/-- A digit or `a` to `f`. -/
def isNameByte (b : UInt8) : Bool := (48 ≤ b && b ≤ 57) || (97 ≤ b && b ≤ 102)

/-- `AvatarStorage::is_valid_name` on bytes, `none` where it panics. -/
def checkName (name : String) : Option Bool :=
  if name.utf8ByteSize = 36 then
    if ".jpg".toList <:+ name.toList then
      (sliceTo 32 name.toList).map fun front ↦ (front.flatMap String.utf8EncodeChar).all isNameByte
    else some false
  else some false

section Names

variable {c : Char} {s front back : List Char} {name : String}

theorem utf8ByteSize_ofList (s : List Char) :
    (String.ofList s).utf8ByteSize = (s.map Char.utf8Size).sum := by
  induction s with
  | nil => rfl
  | cons c s ih =>
      have hcons : String.ofList (c :: s) = String.singleton c ++ String.ofList s := by
        rw [← String.toList_inj]
        simp
      rw [hcons, String.utf8ByteSize_append, ih, String.utf8ByteSize_singleton]
      simp

theorem utf8ByteSize_eq (name : String) :
    name.utf8ByteSize = (name.toList.map Char.utf8Size).sum := by
  rw [← utf8ByteSize_ofList, String.ofList_toList]

/-- Cutting where a character ends does not panic. -/
theorem sliceTo_append (front back : List Char) :
    sliceTo (front.map Char.utf8Size).sum (front ++ back) = some front := by
  induction front with
  | nil => cases back <;> simp [sliceTo]
  | cons c front ih =>
      have hpos := c.utf8Size_pos
      rw [List.map_cons, List.sum_cons, List.cons_append, sliceTo, if_neg (by omega),
        if_pos (by omega), Nat.add_sub_cancel_left, ih]
      rfl

theorem isNameByte_iff (b : UInt8) : isNameByte b = true ↔
    (48 ≤ b.toNat ∧ b.toNat ≤ 57) ∨ (97 ≤ b.toNat ∧ b.toNat ≤ 102) := by
  simp [isNameByte, UInt8.le_iff_toNat_le]

theorem isNameDigit_iff (c : Char) : AvatarStorage.isNameDigit c = true ↔
    (48 ≤ c.toNat ∧ c.toNat ≤ 57) ∨ (97 ≤ c.toNat ∧ c.toNat ≤ 102) := by
  simp only [AvatarStorage.isNameDigit, Char.isDigit, Bool.or_eq_true, Bool.and_eq_true,
    decide_eq_true_eq, ge_iff_le, UInt32.le_iff_toNat_le]
  exact Iff.rfl

theorem utf8Size_eq_one_iff : c.utf8Size = 1 ↔ c.toNat ≤ 127 := by
  rw [Char.utf8Size_eq_one_iff, UInt32.le_iff_toNat_le]
  exact Iff.rfl

theorem utf8Size_of_isNameDigit (h : AvatarStorage.isNameDigit c = true) : c.utf8Size = 1 := by
  rw [utf8Size_eq_one_iff]
  have := (isNameDigit_iff c).mp h
  omega

/-- The first of several bytes is at least `0xc0`. -/
theorem not_isNameByte_or (b mark : UInt8) (h : 192 ≤ mark.toNat) :
    isNameByte (b ||| mark) = false := by
  have hle : mark.toNat ≤ (b ||| mark).toNat := by
    rw [UInt8.toNat_or]
    exact Nat.right_le_or
  by_contra hname
  have := (isNameByte_iff _).mp (by simpa using hname)
  omega

/-- The bytes of a character are those of names exactly for the characters of names. -/
theorem all_isNameByte_iff (c : Char) : (String.utf8EncodeChar c).all isNameByte = true ↔
    AvatarStorage.isNameDigit c = true := by
  rcases c.utf8Size_eq with hsize | hsize | hsize | hsize
  · have hle := utf8Size_eq_one_iff.mp hsize
    have hbyte : c.val.toUInt8.toNat = c.toNat := by
      rw [UInt32.toNat_toUInt8]
      exact Nat.mod_eq_of_lt (lt_of_le_of_lt hle (by decide))
    rw [String.utf8EncodeChar_eq_singleton hsize, isNameDigit_iff, List.all_cons, List.all_nil,
      Bool.and_true, isNameByte_iff, hbyte]
  all_goals
    refine iff_of_false ?_ fun h ↦ by simp [utf8Size_of_isNameDigit h] at hsize
  · rw [String.utf8EncodeChar_eq_cons_cons hsize]
    simp [not_isNameByte_or]
  · rw [String.utf8EncodeChar_eq_cons_cons_cons hsize]
    simp [not_isNameByte_or]
  · rw [String.utf8EncodeChar_eq_cons_cons_cons_cons hsize]
    simp [not_isNameByte_or]

theorem all_isNameByte_flatMap (s : List Char) :
    (s.flatMap String.utf8EncodeChar).all isNameByte = s.all AvatarStorage.isNameDigit := by
  rw [List.all_flatMap]
  congr 1
  funext c
  exact Bool.eq_iff_iff.mpr (all_isNameByte_iff c)

theorem length_le_sum_utf8Size (s : List Char) : s.length ≤ (s.map Char.utf8Size).sum := by
  induction s with
  | nil => exact Nat.le_refl _
  | cons c s ih =>
      have hpos := c.utf8Size_pos
      simp only [List.length_cons, List.map_cons, List.sum_cons]
      omega

theorem sum_utf8Size_of_digits (h : s.all AvatarStorage.isNameDigit = true) :
    (s.map Char.utf8Size).sum = s.length := by
  have hone : s.map Char.utf8Size = List.replicate s.length 1 := by
    rw [List.eq_replicate_iff, List.length_map]
    refine ⟨rfl, fun n hn ↦ ?_⟩
    obtain ⟨c, hc, rfl⟩ := List.mem_map.mp hn
    exact utf8Size_of_isNameDigit (List.all_eq_true.mp h c hc)
  rw [hone, List.sum_replicate_nat, Nat.mul_one]

/-- A name of the right size and extension is cut right before the extension. -/
theorem sliceTo_name (hsize : name.utf8ByteSize = 36) (hjpg : ".jpg".toList <:+ name.toList) :
    ∃ front, name.toList = front ++ ".jpg".toList ∧ (front.map Char.utf8Size).sum = 32 ∧
      sliceTo 32 name.toList = some front := by
  obtain ⟨front, hfront⟩ := hjpg
  have hsum : (front.map Char.utf8Size).sum = 32 := by
    rw [utf8ByteSize_eq, ← hfront, List.map_append, List.sum_append] at hsize
    have hjpg : (".jpg".toList.map Char.utf8Size).sum = 4 := by decide
    omega
  exact ⟨front, hfront.symm, hsum, by rw [← hfront, ← hsum, sliceTo_append]⟩

/-- The check never panics. -/
theorem checkName_eq (name : String) :
    checkName name = some (AvatarStorage.isValidName name) := by
  unfold checkName AvatarStorage.isValidName
  split
  case isFalse hsize => simp [hsize]
  case isTrue hsize =>
    split
    case isFalse hjpg => simp only [hsize, hjpg, decide_false, Bool.and_false, Bool.false_and]
    case isTrue hjpg =>
      obtain ⟨front, hname, hsum, hslice⟩ := sliceTo_name hsize hjpg
      have htake : (name.toList.take 32).all AvatarStorage.isNameDigit =
          front.all AvatarStorage.isNameDigit := by
        rw [hname]
        cases hdigits : front.all AvatarStorage.isNameDigit with
        | true =>
            rw [List.take_left' ((sum_utf8Size_of_digits hdigits).symm.trans hsum), hdigits]
        | false =>
            have hle := length_le_sum_utf8Size front
            rw [List.take_append, List.take_of_length_le (by omega), List.all_append, hdigits,
              Bool.false_and]
      rw [hslice, Option.map_some, all_isNameByte_flatMap, htake]
      simp only [hsize, hjpg, decide_true, Bool.true_and]

/-- A name that is let through is 32 digits and the extension. -/
theorem eq_of_isValidName (h : AvatarStorage.isValidName name = true) :
    ∃ front, front.length = 32 ∧ front.all AvatarStorage.isNameDigit = true ∧
      name = String.ofList front ++ ".jpg" := by
  simp only [AvatarStorage.isValidName, Bool.and_eq_true, decide_eq_true_eq] at h
  obtain ⟨⟨hsize, hjpg⟩, htake⟩ := h
  obtain ⟨front, hname, hsum, -⟩ := sliceTo_name hsize hjpg
  have hle := length_le_sum_utf8Size front
  have hdigits : front.all AvatarStorage.isNameDigit = true := by
    rw [hname, List.take_append, List.take_of_length_le (by omega), List.all_append,
      Bool.and_eq_true] at htake
    exact htake.1
  refine ⟨front, (sum_utf8Size_of_digits hdigits).symm.trans hsum, hdigits, ?_⟩
  rw [← String.toList_inj, hname]
  simp

theorem isKeyChar_of_isNameDigit (h : AvatarStorage.isNameDigit c = true) :
    ObjectStorage.isKeyChar c = true := by
  have halnum : c.isAlphanum = true := by
    simp only [AvatarStorage.isNameDigit, Bool.or_eq_true, Bool.and_eq_true,
      decide_eq_true_eq] at h
    rcases h with hdigit | ⟨ha, hf⟩
    · simp [Char.isAlphanum, hdigit]
    · have hz : c ≤ 'z' := UInt32.le_trans hf (by decide)
      have hlower : c.isLower = true :=
        Bool.and_eq_true_iff.mpr ⟨decide_eq_true ha, decide_eq_true hz⟩
      have halpha : c.isAlpha = true := Bool.or_eq_true_iff.mpr (.inr hlower)
      simp [Char.isAlphanum, halpha]
  simp [ObjectStorage.isKeyChar, halnum]

theorem segments_objectKey (h : '/' ∉ name.toList) :
    ObjectStorage.segments (AvatarStorage.objectKey name) = ["avatars", name] := by
  have hsplit : (AvatarStorage.objectKey name).toList.splitOn '/' =
      ["avatars".toList, name.toList] := by
    have hjoin : (AvatarStorage.objectKey name).toList =
        ['/'].intercalate ["avatars".toList, name.toList] := by
      simp [AvatarStorage.objectKey, List.intercalate]
    rw [hjoin, List.splitOn_intercalate '/' ?_ (by simp)]
    intro l hl
    rcases List.mem_pair.mp hl with rfl | rfl
    · decide
    · exact h
  simp [ObjectStorage.segments, hsplit]

/-- The key of a name that was let through is valid. -/
theorem isValidKey_objectKey (h : AvatarStorage.isValidName name = true) :
    ObjectStorage.isValidKey (AvatarStorage.objectKey name) = true := by
  obtain ⟨front, hlength, hdigits, rfl⟩ := eq_of_isValidName h
  have hkey : ∀ c ∈ front ++ ".jpg".toList, ObjectStorage.isKeyChar c = true := by
    intro c hc
    rcases List.mem_append.mp hc with hc | hc
    · exact isKeyChar_of_isNameDigit (List.all_eq_true.mp hdigits c hc)
    · exact List.all_eq_true.mp (by decide : ".jpg".toList.all ObjectStorage.isKeyChar = true) c hc
  have hchars : (String.ofList front ++ ".jpg").toList = front ++ ".jpg".toList := by simp
  have hslash : '/' ∉ (String.ofList front ++ ".jpg").toList := by
    rw [hchars]
    intro hmem
    exact absurd (hkey _ hmem) (by decide)
  have hlong : (String.ofList front ++ ".jpg").toList.length = 36 := by
    rw [hchars, List.length_append, hlength]
    rfl
  have hne : ∀ s : String, s.toList.length ≠ 36 → String.ofList front ++ ".jpg" ≠ s := by
    rintro _ hs rfl
    exact hs hlong
  have hall : (String.ofList front ++ ".jpg").toList.all ObjectStorage.isKeyChar = true := by
    rw [hchars]
    exact List.all_eq_true.mpr hkey
  have hempty : (String.ofList front ++ ".jpg").isEmpty = false := by
    simp
  have hkeyEmpty : (AvatarStorage.objectKey (String.ofList front ++ ".jpg")).isEmpty = false := by
    simp [AvatarStorage.objectKey]
  rw [ObjectStorage.isValidKey, segments_objectKey hslash, hkeyEmpty, List.all_cons, List.all_cons,
    hempty, hall, decide_eq_true (hne "." (by decide)), decide_eq_true (hne ".." (by decide))]
  decide

end Names

/-- Whatever keys are put, read and deleted, only paths strictly below the root are touched, if and
only if no put opens a directory above for its temporary file; the check of a photo's name never
panics, and lets through keys of one shape, all of them valid. -/
theorem storage_stays_below_root_iff (disk : LocalDisk) (calls : List StorageCall)
    (name : String) :
    ((∀ p ∈ disk.touchedBy calls, StrictlyBelow disk.root p) ∧
      ∃ valid, checkName name = some valid ∧ (valid = true →
        ∃ front : List Char, front.length = 32 ∧ front.all AvatarStorage.isNameDigit = true ∧
          AvatarStorage.objectKey name = "avatars/" ++ (String.ofList front ++ ".jpg") ∧
          ObjectStorage.isValidKey (AvatarStorage.objectKey name) = true)) ↔
      disk.StaysInside calls := by
  rw [disk.touchedBy_strictlyBelow_iff calls]
  apply and_iff_left
  refine ⟨_, checkName_eq name, fun hvalid ↦ ?_⟩
  have hkey := isValidKey_objectKey hvalid
  obtain ⟨front, hlength, hdigits, rfl⟩ := eq_of_isValidName hvalid
  exact ⟨front, hlength, hdigits, rfl, hkey⟩

namespace UploadsSample

/-- The directory of uploads, with nothing in it. -/
def disk : LocalDisk where
  root := components "/srv/uploads"
  fs := Tree.empty.withDirs (components "/srv/uploads")
  ready := fun _ hp ↦ Tree.isDir_withDirs hp

end UploadsSample

/-- The temporary file of `..a` would be `/srv`. -/
theorem storage_opens_parent_of_root : ¬∀ (disk : LocalDisk) (calls : List StorageCall)
    (name : String), (∀ p ∈ disk.touchedBy calls, StrictlyBelow disk.root p) ∧
      ∃ valid, checkName name = some valid ∧ (valid = true →
        ∃ front : List Char, front.length = 32 ∧ front.all AvatarStorage.isNameDigit = true ∧
          AvatarStorage.objectKey name = "avatars/" ++ (String.ofList front ++ ".jpg") ∧
          ObjectStorage.isValidKey (AvatarStorage.objectKey name) = true) := by
  intro h
  have htouched : UploadsSample.disk.touchedBy [.put "..a" [1]] =
      [UploadsSample.disk.root ++ [.parentDir]] := by decide
  have hbelow := (h UploadsSample.disk [.put "..a" [1]] "").1
  rw [htouched] at hbelow
  have hlong := (strictlyBelow_parentDir_iff []).mp (hbelow _ (List.mem_singleton_self _))
  simp at hlong

end ApiStarter
