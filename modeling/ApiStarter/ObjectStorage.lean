import ApiStarter.Files.FileTree

/-!
# Objects on disk

Objects are stored by key, in S3 or below a directory on disk, and both are meant
to be a map from keys to bytes.  On disk a key is a path: its segments but the
last are directories, and an object is first written beside its place, under the
name with the extension replaced.  So the disk is a map for just those keys of
which none is a directory to another, none is another's temporary name, and none
ends in a name such as `..x`, whose temporary name would be the directory above.
-/

namespace ApiStarter

open Files

abbrev Bytes := List UInt8

abbrev Disk := Tree String Bytes

namespace ObjectStorage

/-- The segments of a key, and the path of its object. -/
def segments (key : String) : List String := (key.toList.splitOn '/').map String.ofList

def isKeyChar (c : Char) : Bool :=
  c.isAlphanum || decide (c = '.') || decide (c = '_') || decide (c = '-')

def isValidKey (key : String) : Bool :=
  !key.isEmpty && (segments key).all fun segment ↦
    !segment.isEmpty && decide (segment ≠ ".") && decide (segment ≠ "..") &&
      segment.toList.all isKeyChar

/-- `Path::file_stem`: the name up to its last point, all of it if there is no other before. -/
def fileStem (name : String) : String :=
  let beforeDot := (name.toList.reverse.dropWhile fun c ↦ decide (c ≠ '.')).tail.reverse
  if beforeDot = [] then name else String.ofList beforeDot

/-- `Path::with_extension` cuts the extension off and sets the new one; what is left of `..x` is
`..`, which is no file name and gets no extension. -/
def withExtension (path : List String) (extension : String) : List String :=
  let stem := fileStem (path.getLast?.getD "")
  path.dropLast ++ [if stem = "." then ".." else stem ++ "." ++ extension]

inductive StorageError
  | invalidKey (key : String)
  | creatingDirectory (e : ErrorKind)
  | writing (e : ErrorKind)
  | storing (e : ErrorKind)
  | reading (e : ErrorKind)
  deriving DecidableEq

/-! ## The local disk -/

/-- `fs::write`, where `..` in a directory is the one above it. -/
def writeFile (disk : Disk) (path : List String) (bytes : Bytes) : Except ErrorKind Disk :=
  if path.getLast? = some ".." ∧ disk.isDir path.dropLast = true then .error .isADirectory
  else disk.write path bytes

def put (disk : Disk) (key : String) (bytes : Bytes) : Except StorageError Unit × Disk :=
  if isValidKey key then
    let destination := segments key
    match disk.createDirAll destination.dropLast with
    | .error e => (.error (.creatingDirectory e), disk)
    | .ok disk =>
        let temporary := withExtension destination "tmp"
        match writeFile disk temporary bytes with
        | .error e => (.error (.writing e), disk)
        | .ok disk =>
            match disk.rename temporary destination with
            | .error e => (.error (.storing e), disk)
            | .ok disk => (.ok (), disk)
  else (.error (.invalidKey key), disk)

def get (disk : Disk) (key : String) : Except StorageError (Option Bytes) :=
  if isValidKey key then
    match disk.read (segments key) with
    | .ok bytes => .ok (some bytes)
    | .error .notFound => .ok none
    | .error e => .error (.reading e)
  else .ok none

/-- Failures are only logged. -/
def delete (disk : Disk) (key : String) : Disk :=
  if isValidKey key then
    match disk.removeFile (segments key) with
    | .ok disk => disk
    | .error _ => disk
  else disk

end ObjectStorage

/-! ## Calls -/

inductive StorageCall
  | put (key : String) (bytes : Bytes)
  | get (key : String)
  | delete (key : String)

def StorageCall.key : StorageCall → String
  | .put key _ => key
  | .get key => key
  | .delete key => key

inductive StorageReply
  | stored
  | found (bytes : Option Bytes)
  | deleted
  | failed (e : ObjectStorage.StorageError)
  deriving DecidableEq

/-- A call to the local disk. -/
def Disk.serve (disk : Disk) : StorageCall → StorageReply × Disk
  | .put key bytes =>
      match ObjectStorage.put disk key bytes with
      | (.ok (), disk) => (.stored, disk)
      | (.error e, disk) => (.failed e, disk)
  | .get key =>
      match ObjectStorage.get disk key with
      | .ok bytes => (.found bytes, disk)
      | .error e => (.failed e, disk)
  | .delete key => (.deleted, ObjectStorage.delete disk key)

/-- What an object store is: a map from keys to bytes. -/
def Objects := String → Option Bytes

def Objects.serve (objects : Objects) : StorageCall → StorageReply × Objects
  | .put key bytes => (.stored, fun k ↦ if k = key then some bytes else objects k)
  | .get key => (.found (objects key), objects)
  | .delete key => (.deleted, fun k ↦ if k = key then none else objects k)

/-- The replies to one call after the other. -/
def storageReplies {σ : Type} (serve : σ → StorageCall → StorageReply × σ) :
    σ → List StorageCall → List StorageReply
  | _, [] => []
  | s, call :: calls => (serve s call).1 :: storageReplies serve (serve s call).2 calls

/-- As long as only these keys are used, the disk replies as a map does. -/
def ActsAsMap (keys : String → Prop) : Prop :=
  ∀ calls : List StorageCall, (∀ call ∈ calls, keys call.key) →
    storageReplies Disk.serve Tree.empty calls = storageReplies Objects.serve (fun _ ↦ none) calls

namespace ObjectStorage

/-- The last segment of the key is `..` and an extension, all of it that `file_stem` leaves is a
point. -/
def StemIsPoint (key : String) : Prop := fileStem ((segments key).getLast?.getD "") = "."

instance (key : String) : Decidable (StemIsPoint key) := decEq _ _

end ObjectStorage

/-- Each of the keys has a temporary name, and none has another, or the temporary name of another,
on its way. -/
structure KeepApart (keys : String → Prop) : Prop where
  named : ∀ k, keys k → ¬ObjectStorage.StemIsPoint k
  apart : ∀ k k', keys k → keys k' → k ≠ k' →
    ¬ObjectStorage.segments k <+: ObjectStorage.segments k' ∧
      ¬ObjectStorage.withExtension (ObjectStorage.segments k) "tmp" <+: ObjectStorage.segments k'

namespace ObjectStorage

/-! ## Paths -/

section Paths

variable {key key' : String}

theorem segments_ne_nil (key : String) : segments key ≠ [] := by
  simp [segments, List.splitOn_ne_nil]

theorem segments_injective : Function.Injective segments := by
  intro key key' h
  have hparts : key.toList.splitOn '/' = key'.toList.splitOn '/' :=
    List.map_injective_iff.mpr (fun _ _ h ↦ String.ofList_injective h) h
  have hchars : key.toList = key'.toList := by
    rw [← @List.intercalate_splitOn _ key.toList _ _ '/', hparts, List.intercalate_splitOn]
  exact String.toList_injective hchars

/-- Where an object is written first. -/
def temporary (key : String) : List String := withExtension (segments key) "tmp"

theorem temporary_ne_nil (key : String) : temporary key ≠ [] := by
  simp [temporary, withExtension]

theorem dropLast_temporary (key : String) : (temporary key).dropLast = (segments key).dropLast := by
  simp [temporary, withExtension]

theorem append_tmp_ne (stem : String) : stem ++ "." ++ "tmp" ≠ ".." := by
  intro h
  have hlength := congrArg (fun s : String ↦ s.toList.length) h
  simp at hlength

/-- The temporary name is `..` for just the keys with nothing but a point before the extension. -/
theorem getLast?_temporary (key : String) :
    (temporary key).getLast? = some ".." ↔ StemIsPoint key := by
  rw [temporary, withExtension, List.getLast?_concat, Option.some.injEq, StemIsPoint]
  split
  next hstem => exact iff_of_true rfl hstem
  next hstem => exact iff_of_false (append_tmp_ne _) hstem

/-- What has a point for its stem is two points and an extension. -/
theorem fileStem_eq_point_iff {name : String} (hname : name ≠ ".") :
    fileStem name = "." ↔ ∃ x, '.' ∉ x ∧ name = String.ofList ('.' :: '.' :: x) := by
  constructor
  · intro h
    simp only [fileStem] at h
    split at h
    · exact absurd h hname
    · have htail : (name.toList.reverse.dropWhile fun c ↦ decide (c ≠ '.')).tail = ['.'] := by
        have hchars := congrArg String.toList h
        rw [String.toList_ofList] at hchars
        rw [← List.reverse_reverse (List.tail _), hchars]
        rfl
      obtain ⟨c, hdrop⟩ : ∃ c, (name.toList.reverse.dropWhile fun c ↦ decide (c ≠ '.')) =
          [c, '.'] := by
        cases hdrop : name.toList.reverse.dropWhile fun c ↦ decide (c ≠ '.') with
        | nil =>
            rw [hdrop] at htail
            cases htail
        | cons c rest =>
            rw [hdrop, List.tail_cons] at htail
            exact ⟨c, by rw [htail]⟩
      have hpoint : c = '.' := by
        have hhead := List.head?_dropWhile_not (fun c ↦ decide (c ≠ '.')) name.toList.reverse
        rw [hdrop] at hhead
        simpa using hhead
      have hname := @List.takeWhile_append_dropWhile _ (fun c ↦ decide (c ≠ '.'))
        name.toList.reverse
      rw [hdrop, hpoint] at hname
      refine ⟨(name.toList.reverse.takeWhile fun c ↦ decide (c ≠ '.')).reverse, ?_, ?_⟩
      · intro hmem
        have hne := List.all_eq_true.mp List.all_takeWhile _ (List.mem_reverse.mp hmem)
        simp at hne
      · have hchars := congrArg List.reverse hname
        rw [List.reverse_reverse, List.reverse_append] at hchars
        rw [← String.toList_inj, String.toList_ofList]
        exact hchars.symm
  · rintro ⟨x, hx, rfl⟩
    have hfront : ∀ c ∈ x.reverse, decide (c ≠ '.') = true := by
      intro c hc
      apply decide_eq_true
      rintro rfl
      exact hx (List.mem_reverse.mp hc)
    have hdrop : ((String.ofList ('.' :: '.' :: x)).toList.reverse.dropWhile
        fun c ↦ decide (c ≠ '.')) = ['.', '.'] := by
      rw [String.toList_ofList, List.reverse_cons, List.reverse_cons, List.append_assoc,
        List.dropWhile_append_of_pos hfront]
      rfl
    simp only [fileStem, hdrop]
    rfl

end Paths

/-! ## Storing -/

section Put

variable {disk : Disk} {key : String} {bytes : Bytes}

/-- Nothing on the disk is in the way of the object. -/
def Fits (disk : Disk) (key : String) : Prop :=
  ¬StemIsPoint key ∧ (∀ p, p <+: (segments key).dropLast → disk.isFile p = false) ∧
    disk.isDir (temporary key) = false ∧ disk.isDir (segments key) = false

theorem put_eq (hvalid : isValidKey key = true) : put disk key bytes =
    match disk.createDirAll (segments key).dropLast with
    | .error e => (.error (.creatingDirectory e), disk)
    | .ok disk =>
        match writeFile disk (temporary key) bytes with
        | .error e => (.error (.writing e), disk)
        | .ok disk =>
            match disk.rename (temporary key) (segments key) with
            | .error e => (.error (.storing e), disk)
            | .ok disk => (.ok (), disk) := if_pos hvalid

theorem write_temporary (disk : Disk) (key : String) (bytes : Bytes) :
    writeFile (disk.withDirs (segments key).dropLast) (temporary key) bytes =
      if StemIsPoint key ∨ disk.isDir (temporary key) = true then .error .isADirectory
      else .ok ((disk.withDirs (segments key).dropLast).set (temporary key)
        (some (.file bytes))) := by
  have hwrite := @Tree.write_withDirs _ _ _ disk _ bytes (temporary_ne_nil key)
  rw [dropLast_temporary] at hwrite
  have hdir : (disk.withDirs (segments key).dropLast).isDir (segments key).dropLast = true :=
    Tree.isDir_withDirs List.prefix_rfl
  by_cases hstem : StemIsPoint key
  · rw [writeFile, if_pos ⟨(getLast?_temporary key).mpr hstem, dropLast_temporary key ▸ hdir⟩,
      if_pos (.inl hstem)]
  · rw [writeFile, if_neg fun h ↦ hstem ((getLast?_temporary key).mp h.1), hwrite]
    simp only [hstem, false_or]

theorem put_of_fits (bytes : Bytes) (hvalid : isValidKey key = true) (h : Fits disk key) :
    put disk key bytes = (.ok (), disk.replace (temporary key) (segments key) bytes) := by
  obtain ⟨hstem, hway, htemporary, hplace⟩ := h
  have hcreate : disk.createDirAll (segments key).dropLast =
      .ok (disk.withDirs (segments key).dropLast) := by
    rcases disk.createDirAll_eq (segments key).dropLast with ⟨-, hok⟩ | ⟨⟨p, hp, hfile⟩, -⟩
    · exact hok
    · simp [hway p hp] at hfile
  have hwrite := write_temporary disk key bytes
  rw [if_neg (by simp [hstem, htemporary])] at hwrite
  have hrename := @Tree.rename_written _ _ _ disk _ _ bytes (temporary_ne_nil key)
    (segments_ne_nil key) (dropLast_temporary key)
  rw [if_neg (by simp [hplace])] at hrename
  rw [put_eq hvalid, hcreate]
  simp only [hwrite, hrename]

/-- What was stored fitted. -/
theorem fits_of_put (hvalid : isValidKey key = true)
    (h : (put disk key bytes).1 = .ok ()) : Fits disk key := by
  rw [put_eq hvalid] at h
  rcases disk.createDirAll_eq (segments key).dropLast with ⟨hway, hok⟩ | ⟨-, e, herror⟩
  · rw [hok] at h
    simp only [write_temporary] at h
    by_cases hwritten : StemIsPoint key ∨ disk.isDir (temporary key) = true
    · simp [hwritten] at h
    · obtain ⟨hstem, htemporary⟩ := not_or.mp hwritten
      rw [Bool.not_eq_true] at htemporary
      have hrename := @Tree.rename_written _ _ _ disk _ _ bytes (temporary_ne_nil key)
        (segments_ne_nil key) (dropLast_temporary key)
      simp only [hwritten, if_false, hrename] at h
      refine ⟨hstem, hway, htemporary, ?_⟩
      cases hplace : disk.isDir (segments key) with
      | false => rfl
      | true =>
          have hne : segments key ≠ temporary key := by
            intro heq
            rw [heq, htemporary] at hplace
            cases hplace
          simp [hne, hplace] at h
  · simp [herror] at h

end Put

/-! ## A disk that represents a map -/

section Represents

variable {keys : String → Prop} {disk : Disk} {objects : Objects} {key : String} {bytes : Bytes}

/-- The files are the objects, and the directories lead to keys. -/
structure Represents (keys : String → Prop) (disk : Disk) (objects : Objects) : Prop where
  file : ∀ p bytes, disk p = some (.file bytes) ↔
    ∃ k, keys k ∧ segments k = p ∧ objects k = some bytes
  dir : ∀ p, disk p = some .dir → p = [] ∨ ∃ k, keys k ∧ p <+: segments k ∧ p ≠ segments k

variable (hapart : KeepApart keys) (h : Represents keys disk objects) (hkey : keys key)

theorem represents_empty (keys : String → Prop) :
    Represents keys (Tree.empty : Disk) (fun _ ↦ none) where
  file p bytes := by
    cases p <;> simp [Tree.empty]
  dir p hp := by
    cases p with
    | nil => exact .inl rfl
    | cons => cases hp

include hapart h hkey

theorem Represents.isFile_of_way {p : List String} (hp : p <+: (segments key).dropLast) :
    disk.isFile p = false := by
  obtain ⟨hway₀, hne⟩ := (Tree.isPrefix_dropLast_iff (segments_ne_nil key)).mp hp
  cases hfile : disk.isFile p with
  | false => rfl
  | true =>
      obtain ⟨bytes, hbytes⟩ := Tree.isFile_eq_true.mp hfile
      obtain ⟨k, hk, rfl, -⟩ := (h.file p bytes).mp hbytes
      have hother : k ≠ key := by
        rintro rfl
        exact hne rfl
      exact absurd hway₀ (hapart.apart k key hk hkey hother).1

theorem Represents.isDir_segments : disk.isDir (segments key) = false := by
  cases hdir : disk.isDir (segments key) with
  | false => rfl
  | true =>
      rcases h.dir _ (Tree.isDir_eq_true.mp hdir) with hnil | ⟨k, hk, hway₀, hne⟩
      · exact absurd hnil (segments_ne_nil key)
      · have hother : key ≠ k := by
          rintro rfl
          exact hne rfl
        exact absurd hway₀ (hapart.apart key k hkey hk hother).1

theorem Represents.isDir_temporary : disk.isDir (temporary key) = false := by
  cases hdir : disk.isDir (temporary key) with
  | false => rfl
  | true =>
      rcases h.dir _ (Tree.isDir_eq_true.mp hdir) with hnil | ⟨k, hk, hway₀, hne⟩
      · exact absurd hnil (temporary_ne_nil key)
      · have hother : key ≠ k := by
          rintro rfl
          -- the two names have the same length
          have hway := (Tree.isPrefix_dropLast_iff (segments_ne_nil key)).mpr ⟨hway₀, hne⟩
          rw [← dropLast_temporary] at hway
          exact Tree.not_isPrefix_dropLast (temporary_ne_nil key) hway
        exact absurd hway₀ (hapart.apart key k hkey hk hother).2

theorem Represents.fits : Fits disk key :=
  ⟨hapart.named key hkey, fun _ hp ↦ h.isFile_of_way hapart hkey hp,
    h.isDir_temporary hapart hkey, h.isDir_segments hapart hkey⟩

theorem Represents.put : Represents keys (disk.replace (temporary key) (segments key) bytes)
    (fun k ↦ if k = key then some bytes else objects k) where
  file p content := by
    rw [Tree.replace_apply]
    by_cases hplace : p = segments key
    · subst hplace
      simp only [if_true, Option.some.injEq, Node.file.injEq]
      constructor
      · rintro rfl
        exact ⟨key, hkey, rfl, if_pos rfl⟩
      · rintro ⟨k, -, hsegments, hbytes⟩
        rw [if_pos (segments_injective hsegments)] at hbytes
        exact Option.some.inj hbytes
    · rw [if_neg hplace]
      have hother : ∀ k, segments k = p → k ≠ key := by
        rintro k rfl rfl
        exact hplace rfl
      by_cases htemporary : p = temporary key
      · rw [if_pos htemporary]
        simp only [reduceCtorEq, false_iff, not_exists, not_and]
        intro k hk hsegments
        have hway₀ : temporary key <+: segments k := by rw [hsegments, htemporary]
        exact absurd hway₀ (hapart.apart key k hkey hk (hother k hsegments).symm).2
      · rw [if_neg htemporary]
        by_cases hway : p <+: (segments key).dropLast
        · rw [if_pos hway]
          simp only [Option.some.injEq, reduceCtorEq, false_iff, not_exists, not_and]
          intro k hk hsegments
          obtain ⟨hway₀, -⟩ := (Tree.isPrefix_dropLast_iff (segments_ne_nil key)).mp hway
          rw [← hsegments] at hway₀
          exact absurd hway₀ (hapart.apart k key hk hkey (hother k hsegments)).1
        · rw [if_neg hway, h.file]
          refine exists_congr fun k ↦ and_congr_right fun _ ↦ and_congr_right fun hsegments ↦ ?_
          rw [if_neg (hother k hsegments)]
  dir p hp := by
    rw [Tree.replace_apply] at hp
    split at hp
    · cases hp
    · split at hp
      · cases hp
      · split at hp
        next hway =>
          exact .inr ⟨key, hkey, (Tree.isPrefix_dropLast_iff (segments_ne_nil key)).mp hway⟩
        next => exact h.dir p hp

/-- An object is read where it was stored. -/
theorem Represents.get (hvalid : isValidKey key = true) :
    ObjectStorage.get disk key = .ok (objects key) := by
  have hblocked : disk.blocked (segments key) = false :=
    Tree.blocked_eq_false.mpr fun p hp ↦ h.isFile_of_way hapart hkey hp
  have hdir := h.isDir_segments hapart hkey
  rw [ObjectStorage.get, if_pos hvalid, Tree.read, hblocked]
  cases hnode : disk (segments key) with
  | none =>
      have hnone : objects key = none := by
        rw [Option.eq_none_iff_forall_ne_some]
        intro bytes hbytes
        have hfile := (h.file (segments key) bytes).mpr ⟨key, hkey, rfl, hbytes⟩
        simp [hnode] at hfile
      rw [hnone]
      rfl
  | some node =>
      cases node with
      | dir => simp [Tree.isDir, hnode] at hdir
      | file bytes =>
          obtain ⟨k, -, hsegments, hbytes⟩ := (h.file _ _).mp hnode
          rw [← segments_injective hsegments, hbytes]
          rfl

theorem Represents.delete (hvalid : isValidKey key = true) :
    Represents keys (ObjectStorage.delete disk key)
      (fun k ↦ if k = key then none else objects k) := by
  have hblocked : disk.blocked (segments key) = false :=
    Tree.blocked_eq_false.mpr fun p hp ↦ h.isFile_of_way hapart hkey hp
  have hdir := h.isDir_segments hapart hkey
  have hnothing (hnode : disk (segments key) = none) :
      (fun k ↦ if k = key then none else objects k) = objects := by
    funext k
    by_cases hk : k = key
    · subst hk
      rw [if_pos rfl, eq_comm, Option.eq_none_iff_forall_ne_some]
      intro bytes hbytes
      have hfile := (h.file (segments k) bytes).mpr ⟨k, hkey, rfl, hbytes⟩
      simp [hnode] at hfile
    · exact if_neg hk
  rw [ObjectStorage.delete, if_pos hvalid, Tree.removeFile, hblocked]
  cases hnode : disk (segments key) with
  | none =>
      rw [hnothing hnode]
      exact h
  | some node =>
      cases node with
      | dir => simp [Tree.isDir, hnode] at hdir
      | file bytes =>
          refine ⟨fun p content ↦ ?_, fun p hp ↦ ?_⟩
          · by_cases hplace : p = segments key
            · subst hplace
              simp only [Bool.false_eq_true, if_false, Tree.set_self, reduceCtorEq, false_iff,
                not_exists, not_and]
              intro k _ hsegments
              simp [segments_injective hsegments]
            · simp only [Bool.false_eq_true, if_false, Tree.set_of_ne _ _ hplace, h.file]
              refine exists_congr fun k ↦ and_congr_right fun _ ↦ and_congr_right fun hsegments ↦ ?_
              have hother : k ≠ key := by
                rintro rfl
                exact hplace hsegments.symm
              rw [if_neg hother]
          · by_cases hplace : p = segments key
            · subst hplace
              simp at hp
            · simp only [Bool.false_eq_true, if_false, Tree.set_of_ne _ _ hplace] at hp
              exact h.dir p hp

end Represents

end ObjectStorage

/-! ## All sequences of calls -/

section Calls

variable {keys : String → Prop} {disk : Disk} {objects : Objects}

open ObjectStorage

/-- One call keeps the disk in step with the map. -/
theorem serve_represents (hvalid : ∀ k, keys k → isValidKey k = true) (hapart : KeepApart keys)
    (h : Represents keys disk objects) {call : StorageCall} (hkey : keys call.key) :
    (disk.serve call).1 = (objects.serve call).1 ∧
      Represents keys (disk.serve call).2 (objects.serve call).2 := by
  cases call with
  | put key bytes =>
      have hput := put_of_fits bytes (hvalid key hkey) (h.fits hapart hkey)
      simp only [Disk.serve, hput]
      exact ⟨rfl, h.put hapart hkey⟩
  | get key =>
      have hget : get disk key = .ok (objects key) := h.get hapart hkey (hvalid key hkey)
      simp only [Disk.serve, hget]
      exact ⟨rfl, h⟩
  | delete key => exact ⟨rfl, h.delete hapart hkey (hvalid key hkey)⟩

theorem storageReplies_eq (hvalid : ∀ k, keys k → isValidKey k = true) (hapart : KeepApart keys)
    (h : Represents keys disk objects) {calls : List StorageCall}
    (hcalls : ∀ call ∈ calls, keys call.key) :
    storageReplies Disk.serve disk calls = storageReplies Objects.serve objects calls := by
  induction calls generalizing disk objects with
  | nil => rfl
  | cons call calls ih =>
      obtain ⟨hreply, hnext⟩ := serve_represents hvalid hapart h (hcalls call List.mem_cons_self)
      rw [storageReplies, storageReplies, hreply]
      exact congrArg _ (ih hnext fun c hc ↦ hcalls c (List.mem_cons_of_mem _ hc))

theorem serve_put_stored {key : String} {bytes : Bytes} (hvalid : isValidKey key = true)
    (h : (disk.serve (.put key bytes)).1 = .stored) : Fits disk key ∧
      (disk.serve (.put key bytes)).2 = disk.replace (temporary key) (segments key) bytes := by
  have hok : (put disk key bytes).1 = .ok () := by
    simp only [Disk.serve] at h
    split at h
    next heq => rw [heq]
    next heq => cases h
  have hfits := fits_of_put hvalid hok
  refine ⟨hfits, ?_⟩
  simp only [Disk.serve, put_of_fits _ hvalid hfits]

/-- What is not there is not found. -/
theorem serve_get_ne_found {key : String} (h : disk (segments key) = none) (bytes : Bytes) :
    (disk.serve (.get key)).1 ≠ .found (some bytes) := by
  have hget : get disk key ≠ .ok (some bytes) := by
    unfold ObjectStorage.get Tree.read
    simp only [h]
    split
    · cases disk.blocked (segments key) <;> simp
    · simp
  simp only [Disk.serve]
  split
  next found heq =>
    intro hfound
    rw [StorageReply.found.injEq] at hfound
    exact hget (heq.trans (congrArg _ hfound))
  next => exact StorageReply.noConfusion

/-- Two objects can only be stored one after the other when the second fits beside the first. -/
theorem fits_after_put (hvalid : ∀ k, keys k → isValidKey k = true) (hmap : ActsAsMap keys)
    {k k' : String} (hk : keys k) (hk' : keys k') (bytes : Bytes) (more : List StorageCall)
    (hmore : ∀ call ∈ more, keys call.key) :
    Fits ((Tree.empty : Disk).replace (temporary k) (segments k) []) k' ∧
      storageReplies Disk.serve (((Tree.empty : Disk).replace (temporary k) (segments k) []).replace
        (temporary k') (segments k') bytes) more =
      storageReplies Objects.serve (fun x ↦ if x = k' then some bytes else
        if x = k then some [] else none) more := by
  have hcalls : ∀ call ∈ StorageCall.put k [] :: .put k' bytes :: more, keys call.key := by
    intro call hcall
    rcases List.mem_cons.mp hcall with rfl | hcall
    · exact hk
    · rcases List.mem_cons.mp hcall with rfl | hcall
      · exact hk'
      · exact hmore call hcall
  have hreplies := hmap _ hcalls
  simp only [storageReplies, List.cons.injEq] at hreplies
  obtain ⟨hfirst, hsecond, hrest⟩ := hreplies
  obtain ⟨-, hstored⟩ := serve_put_stored (hvalid k hk) hfirst
  rw [hstored] at hsecond hrest
  obtain ⟨hfits, hstored'⟩ := serve_put_stored (hvalid k' hk') hsecond
  rw [hstored'] at hrest
  exact ⟨hfits, hrest⟩

theorem keepApart_of_actsAsMap (hvalid : ∀ k, keys k → isValidKey k = true)
    (hmap : ActsAsMap keys) : KeepApart keys := by
  refine ⟨fun k hk ↦ ?_, fun k k' hk hk' hne ↦ ⟨?_, ?_⟩⟩
  · obtain ⟨⟨hstem, -⟩, -⟩ := fits_after_put hvalid hmap hk hk [] [] (by simp)
    exact hstem
  · -- the first object would be a directory to the second
    intro hway₀
    obtain ⟨⟨-, hway, -⟩, -⟩ := fits_after_put hvalid hmap hk hk' [] [] (by simp)
    have hstrict : segments k ≠ segments k' := fun heq ↦ hne (segments_injective heq)
    have hfree := hway _ ((Tree.isPrefix_dropLast_iff (segments_ne_nil k')).mpr ⟨hway₀, hstrict⟩)
    rw [Tree.isFile, Tree.replace_apply, if_pos rfl] at hfree
    cases hfree
  · intro hway₀
    by_cases hsame : temporary k = segments k'
    · -- the second object disappears when the first is stored
      obtain ⟨-, hreplies⟩ := fits_after_put hvalid hmap hk' hk [] [.get k']
        (by simpa [StorageCall.key] using hk')
      have hplace : segments k' ≠ segments k := fun heq ↦ hne (segments_injective heq).symm
      have hgone : ((((Tree.empty : Disk).replace (temporary k') (segments k') []).replace
          (temporary k) (segments k) []) (segments k')) = none := by
        rw [Tree.replace_apply, if_neg hplace, if_pos hsame.symm]
      have hlost := serve_get_ne_found hgone []
      simp only [storageReplies, List.cons.injEq, and_true] at hreplies
      apply hlost
      simpa [Objects.serve, hne.symm] using hreplies
    · -- the place of the temporary file is a directory
      obtain ⟨⟨-, -, htemporary, -⟩, -⟩ := fits_after_put hvalid hmap hk' hk [] [] (by simp)
      have hway : temporary k <+: (segments k').dropLast :=
        (Tree.isPrefix_dropLast_iff (segments_ne_nil k')).mpr ⟨hway₀, hsame⟩
      have hdir : ((Tree.empty : Disk).replace (temporary k') (segments k') []) (temporary k) =
          some .dir := by
        have htemp : temporary k ≠ temporary k' := by
          intro heq
          rw [heq, ← dropLast_temporary] at hway
          exact Tree.not_isPrefix_dropLast (temporary_ne_nil k') hway
        rw [Tree.replace_apply, if_neg hsame, if_neg htemp, if_pos hway]
      rw [Tree.isDir, hdir] at htemporary
      cases htemporary

end Calls

theorem local_disk_is_map_iff {keys : String → Prop}
    (hvalid : ∀ k, keys k → ObjectStorage.isValidKey k = true) :
    ActsAsMap keys ↔ KeepApart keys :=
  ⟨keepApart_of_actsAsMap hvalid,
    fun hapart _ hcalls ↦
      storageReplies_eq hvalid hapart (ObjectStorage.represents_empty keys) hcalls⟩

theorem local_disk_is_map_of_photos :
    ActsAsMap fun k ↦ k = "avatars/1.jpg" ∨ k = "avatars/2.jpg" := by
  have hvalid : ∀ k, k = "avatars/1.jpg" ∨ k = "avatars/2.jpg" →
      ObjectStorage.isValidKey k = true := by
    rintro k (rfl | rfl) <;> decide
  apply (local_disk_is_map_iff hvalid).mpr
  constructor
  · rintro k (rfl | rfl) <;> decide
  · rintro k k' (rfl | rfl) (rfl | rfl) hne
    · exact absurd rfl hne
    · decide
    · decide
    · exact absurd rfl hne

/-- Storing `a.jpg` takes away what is stored under `a.tmp`. -/
theorem object_lost_to_temporary : ¬∀ keys : String → Prop,
    (∀ k, keys k → ObjectStorage.isValidKey k = true) → ActsAsMap keys := by
  intro h
  have hvalid : ∀ k, k = "a.tmp" ∨ k = "a.jpg" → ObjectStorage.isValidKey k = true := by
    rintro k (rfl | rfl) <;> decide
  have hreplies := h _ hvalid [.put "a.tmp" [1], .put "a.jpg" [2], .get "a.tmp"]
    (by simp [StorageCall.key])
  have hlost : storageReplies Disk.serve Tree.empty
      [.put "a.tmp" [1], .put "a.jpg" [2], .get "a.tmp"] = [.stored, .stored, .found none] := by
    decide
  rw [hlost] at hreplies
  cases hreplies

end ApiStarter
