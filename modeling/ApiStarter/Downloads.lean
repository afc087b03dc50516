import ApiStarter.FileRuns
import ApiStarter.OAuthRedirects

/-!
# Downloads

A download has the bytes of one upload and the type that was detected in them,
whatever is uploaded and deleted meanwhile.  The client chose the file's name,
and of that name only harmless characters reach the headers.
-/

namespace ApiStarter

open Interleave Interleave.Prog Relational Web

/-! ## Headers -/

/-- A header value, unless it has bytes that none may have. -/
def headerValue (value : String) : Option String :=
  if (utf8 value.toList).all isHeaderByte then some value else none

def isAsciiAlphanumeric (c : Char) : Bool :=
  decide (48 ≤ c.toNat ∧ c.toNat ≤ 57 ∨ 65 ≤ c.toNat ∧ c.toNat ≤ 90 ∨
    97 ≤ c.toNat ∧ c.toNat ≤ 122)

def isNameChar (c : Char) : Bool := isAsciiAlphanumeric c || c == '.' || c == '-' || c == '_'

def isFiller (c : Char) : Bool := c == '.' || c == '_'

/-- Reduces a client-supplied name to characters that are safe inside a quoted header value. -/
def safeDownloadName (originalFilename : Option String) : String :=
  let cleaned := (originalFilename.getD "").toList.map fun c ↦ if isNameChar c then c else '_'
  if Text.strip isFiller cleaned = [] then "download" else String.ofList cleaned

def isPassive (contentType : String) : Bool :=
  ["image/", "video/", "audio/"].any fun start ↦ start.toList.isPrefixOf contentType.toList

/-- Only passive media is rendered inline; everything else downloads. -/
def contentDisposition (contentType : String) (originalFilename : Option String) : String :=
  (if isPassive contentType then "inline" else "attachment") ++ "; filename=\"" ++
    safeDownloadName originalFilename ++ "\""

structure DownloadHeaders where
  contentType : String
  contentDisposition : Option String
  xContentTypeOptions : String
  contentSecurityPolicy : String
  cacheControl : String

/-- The headers of `GET /media/{id}/content`. -/
def Media.downloadHeaders (media : Media) : DownloadHeaders where
  contentType := (headerValue media.contentType).getD "application/octet-stream"
  contentDisposition :=
    headerValue (ApiStarter.contentDisposition media.contentType media.originalFilename)
  xContentTypeOptions := "nosniff"
  contentSecurityPolicy := "default-src 'none'; sandbox"
  cacheControl := "private, max-age=3600"

theorem strip_eq_nil {blank : Char → Bool} {l : List Char} :
    Text.strip blank l = [] ↔ ∀ c ∈ l, blank c = true := by
  rw [Text.strip, List.rdropWhile_eq_nil_iff]
  constructor
  · intro h c hc
    rw [← List.takeWhile_append_dropWhile (p := blank) (l := l)] at hc
    rcases List.mem_append.mp hc with hc | hc
    · exact List.mem_takeWhile_imp hc
    · exact h c hc
  · exact fun h c hc ↦ h c (List.dropWhile_subset _ hc)

/-- The name consists of harmless characters, and not of dots and underscores alone. -/
structure SafeName (name : String) : Prop where
  chars : ∀ c ∈ name.toList, isNameChar c = true
  named : ∃ c ∈ name.toList, isFiller c = false

theorem safeName_download : SafeName "download" where
  chars := List.all_eq_true.mp (by decide)
  named := ⟨'d', by simp, by decide⟩

theorem safeName_safeDownloadName (originalFilename : Option String) :
    SafeName (safeDownloadName originalFilename) := by
  unfold safeDownloadName
  dsimp only
  split
  next => exact safeName_download
  next hstrip =>
    constructor
    · intro c hc
      rw [String.toList_ofList] at hc
      obtain ⟨d, -, rfl⟩ := List.mem_map.mp hc
      split
      next hd => exact hd
      next => decide
    · rw [strip_eq_nil] at hstrip
      push Not at hstrip
      obtain ⟨c, hc, hfiller⟩ := hstrip
      exact ⟨c, by simpa using hc, by simpa using hfiller⟩

/-- A name that is safe already stays as it is. -/
theorem SafeName.safeDownloadName_eq {name : String} (h : SafeName name) :
    safeDownloadName (some name) = name := by
  have hcleaned : name.toList.map (fun c ↦ if isNameChar c then c else '_') = name.toList := by
    calc name.toList.map (fun c ↦ if isNameChar c then c else '_')
      _ = name.toList.map id := List.map_congr_left fun c hc ↦ if_pos (h.chars c hc)
      _ = name.toList := List.map_id _
  obtain ⟨c, hc, hfiller⟩ := h.named
  have hstrip : Text.strip isFiller name.toList ≠ [] := by
    intro hstrip
    rw [strip_eq_nil.mp hstrip c hc] at hfiller
    cases hfiller
  unfold safeDownloadName
  simp only [Option.getD_some, hcleaned, if_neg hstrip, String.ofList_toList]

theorem visible_of_isNameChar {c : Char} (h : isNameChar c = true) :
    32 < c.toNat ∧ c.toNat < 127 := by
  simp only [isNameChar, Bool.or_eq_true, beq_iff_eq] at h
  rcases h with ((h | rfl) | rfl) | rfl
  · have hrange := of_decide_eq_true h
    omega
  all_goals decide

/-- Whatever the name was, the header can be sent. -/
theorem headerValue_contentDisposition (contentType : String) (originalFilename : Option String) :
    headerValue (contentDisposition contentType originalFilename) =
      some (contentDisposition contentType originalFilename) := by
  have hname : (utf8 (safeDownloadName originalFilename).toList).all isHeaderByte = true :=
    all_isHeaderByte_of_visible fun c hc ↦
      visible_of_isNameChar ((safeName_safeDownloadName originalFilename).chars c hc)
  have hkind : (utf8 (if isPassive contentType then "inline" else "attachment").toList).all
      isHeaderByte = true := by
    split <;> decide
  have hopen : (utf8 "; filename=\"".toList).all isHeaderByte = true := by decide
  have hclose : (utf8 "\"".toList).all isHeaderByte = true := by decide
  apply if_pos
  unfold contentDisposition
  rw [String.toList_append, String.toList_append, String.toList_append, utf8_append, utf8_append,
    utf8_append, List.all_append, List.all_append, List.all_append, hkind, hopen, hname, hclose]
  rfl

/-- The header says how the file is to be taken and gives it a safe name in quotes, which is the
client's own if that is one. -/
def Media.SafelyDisposed (media : Media) : Prop :=
  ∃ name, SafeName name ∧
    (∀ filename, media.originalFilename = some filename → SafeName filename → name = filename) ∧
    media.downloadHeaders.contentDisposition =
      some ((if isPassive media.contentType then "inline" else "attachment") ++
        "; filename=\"" ++ name ++ "\"")

theorem safelyDisposed (media : Media) : media.SafelyDisposed := by
  refine ⟨safeDownloadName media.originalFilename, safeName_safeDownloadName _, ?_, ?_⟩
  · intro filename hfilename hsafe
    rw [hfilename, hsafe.safeDownloadName_eq]
  · unfold Media.downloadHeaders
    dsimp only
    rw [headerValue_contentDisposition, contentDisposition]

/-! ## One request -/

/-- The row describes the bytes: their size, and the type detected in them, which is allowed. -/
def Describes (cx : FileContext) (new : NewMedia) (bytes : Bytes) (filename : Option String) :
    Prop :=
  ∃ detected, cx.infer bytes = some detected ∧ detected.mimeType ∈ cx.allowedContentTypes ∧
    new.contentType = detected.mimeType ∧ new.sizeBytes = bytes.length ∧
    bytes ≠ [] ∧ bytes.length ≤ cx.maxUploadBytes ∧ new.originalFilename = filename

/-- The rows that the statement adds describe the bytes. -/
def AddsDescribed (cx : FileContext) (bytes : Bytes) (filename : Option String)
    (q : FileStatement) : Prop :=
  ∀ id new, q = .media (.insert id new) → Describes cx new bytes filename

/-- The thread found the row by its id, and the bytes under the row's key. -/
def ReadBoth (i : ℕ) (k : FileRequest) (id : Uuid) (stored : MediaContent)
    (own : List FileEvent) : Prop :=
  stored.media.id = id ∧
    (∃ b, .ran i k (.media (.findById id)) b ∈ own ∧ stored.media ∈ b.media) ∧
    ∃ b, .ran i k (.storage (.get stored.media.storageKey)) b ∈ own ∧
      b.objects stored.media.storageKey = some stored.bytes

/-- An upload adds a row that describes it, and a download answers what it has read. -/
def TellsTruth (cx : FileContext) : FileEvent → List FileEvent → Prop
  | .ran _ (.uploadMedia _ bytes filename) (.media (.insert _ new)) _, _ =>
      Describes cx new bytes filename
  | .answered i (.downloadMedia caller id) (.ok (.content stored)) _, own =>
      ReadBoth i (.downloadMedia caller id) id stored own
  | _, _ => True

section Traces

variable {cx : FileContext} {fails : FileStatement → Bool} {i : ℕ} {k : FileRequest}
  {own : List FileEvent} {α : Type}

theorem traced_baseTruth {p : Req α} {Q : α → List FileEvent → Prop}
    {E : AppError → List FileEvent → Prop} (hQ : ∀ a own', Q a own') (hE : ∀ e own', E e own') :
    Traced (fileMachine cx.toContext fails) (TellsTruth cx) i k (base p) Q E own := by
  have honly : (base p).Only fun q ↦ ∃ q', q = .base q' :=
    base_only ((only_true p).mono fun q _ ↦ ⟨q, rfl⟩)
  apply (traced_of_only (A := fun _ ↦ True) honly (returns_true _) _ trivial).mono
  · exact fun a own' _ ↦ hQ a own'
  · exact fun e own' _ ↦ hE e own'
  · rintro _ ⟨q, rfl⟩ s own' _
    refine ⟨?_, trivial⟩
    cases k <;> trivial

theorem only_deleteObject {S : FileStatement → Prop} {key : String}
    (h : S (.storage (.delete key))) : (deleteObject key).Only S :=
  .bind ((only_ask _).mpr h) fun _ ↦ trivial

theorem only_putObject {S : FileStatement → Prop} {key : String}
    (h : S (.storage (.put key bytes))) : (putObject key bytes).Only S := by
  refine .bind ((only_ask _).mpr h) fun reply ↦ ?_
  cases reply <;> trivial

theorem only_insertMedia {S : FileStatement → Prop} {new : NewMedia} (hdraw : S (.base .draw))
    (h : ∀ id, S (.media (.insert id new))) : (MediaService.insertMedia cx new).Only S := by
  refine .bind (base_only ((only_ask _).mpr hdraw)) fun n ↦ ?_
  exact .bind ((only_ask _).mpr (h _)) fun _ ↦ only_okOr ..

theorem traces_upload (caller : Presented) (bytes : Bytes) (filename : Option String) :
    Traces (fileMachine cx.toContext fails) (TellsTruth cx) (.uploadMedia caller bytes filename)
      (handleFile cx) := by
  intro i
  have hE (e : AppError) (own : List FileEvent) : Delivers (TellsTruth cx) i
      (.uploadMedia caller bytes filename) (.error e) own := fun _ ↦ trivial
  apply traced_bind.mpr
  apply traced_baseTruth _ hE
  intro actor own
  apply traced_bind.mpr
  apply traced_bind.mpr
  apply (traced_ensure ..).mpr
  refine ⟨fun hempty ↦ ?_, fun _ ↦ hE _ _⟩
  apply traced_bind.mpr
  apply (traced_ensure ..).mpr
  refine ⟨fun hsize ↦ ?_, fun _ ↦ hE _ _⟩
  apply traced_bind.mpr
  apply (traced_okOr ..).mpr
  refine ⟨fun detected hdetected ↦ ?_, fun _ ↦ hE _ _⟩
  apply traced_bind.mpr
  apply (traced_ensure ..).mpr
  refine ⟨fun hallowed ↦ ?_, fun _ ↦ hE _ _⟩
  -- the checks are passed: the rest adds at most the row that they are about
  have hdescribed (key : String) : Describes cx
      ⟨actor.id, key, detected.mimeType, bytes.length, filename⟩ bytes filename :=
    ⟨detected, hdetected, hallowed, rfl, rfl, hempty, hsize, rfl⟩
  have hstorage (call : StorageCall) : AddsDescribed cx bytes filename (.storage call) := by
    rintro _ _ ⟨⟩
  have hdraw : AddsDescribed cx bytes filename (.base .draw) := by rintro _ _ ⟨⟩
  have hinsert (key : String) (id : Uuid) : AddsDescribed cx bytes filename (.media (.insert id
      ⟨actor.id, key, detected.mimeType, bytes.length, filename⟩)) := by
    rintro _ _ ⟨⟩
    exact hdescribed key
  apply (traced_of_only (S := AddsDescribed cx bytes filename) (A := fun _ ↦ True) _
    (returns_true _) _ trivial).mono
  · exact fun _ _ _ _ ↦ trivial
  · exact fun e own' _ ↦ hE e own'
  · refine .bind (base_only ((only_ask _).mpr hdraw)) fun n ↦ ?_
    refine .bind (only_putObject (hstorage _)) fun _ ↦ ?_
    refine .bind (.attempt (only_insertMedia hdraw (hinsert _))) fun inserted ↦ ?_
    cases inserted with
    | error e => exact .bind (only_deleteObject (hstorage _)) fun _ ↦ trivial
    | ok media => trivial
  · intro q hq s own' _
    refine ⟨?_, trivial⟩
    unfold TellsTruth
    split
    next heq =>
      obtain ⟨-, hk, rfl, -⟩ := Event.ran.inj heq
      obtain ⟨-, rfl, rfl⟩ := FileRequest.uploadMedia.inj hk
      exact hq _ _ rfl
    next heq => cases heq
    next => trivial

/-- A download's row and bytes are read one after the other. -/
theorem traces_download (caller : Presented) (id : Uuid) :
    Traces (fileMachine cx.toContext fails) (TellsTruth cx) (.downloadMedia caller id)
      (handleFile cx) := by
  intro i
  have hE (e : AppError) (own : List FileEvent) : Delivers (TellsTruth cx) i
      (.downloadMedia caller id) (.error e) own := fun _ ↦ trivial
  apply traced_bind.mpr
  apply traced_baseTruth _ hE
  intro actor own
  apply traced_bind.mpr
  apply traced_bind.mpr
  apply traced_bind.mpr
  apply traced_bind.mpr
  refine ⟨fun s₁ ↦ ⟨trivial, ?_⟩, fun r hr ↦ ?_⟩
  · apply (traced_okOr ..).mpr
    refine ⟨fun found hfound ↦ ?_, fun _ ↦ hE _ _⟩
    apply (traced_okOr ..).mpr
    refine ⟨fun media hmedia ↦ ?_, fun _ ↦ hE _ _⟩
    obtain ⟨hget, -⟩ := Option.filter_eq_some_iff.mp hmedia
    have hrow : s₁.media.table.get? id = some media := (Option.some.inj hfound).trans hget
    apply traced_bind.mpr
    apply traced_bind.mpr
    refine ⟨fun s₂ ↦ ⟨trivial, ?_⟩, fun r hr ↦ ?_⟩
    · apply traced_bind.mpr
      apply (traced_okOr ..).mpr
      refine ⟨fun bytes hbytes ↦ ?_, fun _ ↦ hE _ _⟩
      intro s
      refine ⟨Table.key_of_get? hrow, ⟨s₁, by simp, Table.mem_of_get? hrow⟩, s₂, by simp, hbytes⟩
    · obtain rfl := Option.some.inj (fault_fileMachine hr).2
      exact hE _ _
  · obtain rfl : none = r := Option.some.inj (fault_fileMachine hr).2
    exact hE _ _

theorem traces_tellsTruth (cx : FileContext) (fails : FileStatement → Bool) (k : FileRequest) :
    Traces (fileMachine cx.toContext fails) (TellsTruth cx) k (handleFile cx) := by
  cases k with
  | uploadMedia caller bytes filename => exact traces_upload caller bytes filename
  | downloadMedia caller id => exact traces_download caller id
  | _ =>
      exact .of_only (S := fun _ ↦ True) (only_true _) (fun _ _ _ _ _ ↦ trivial)
        fun _ a _ _ ↦ by cases a <;> trivial

end Traces

/-! ## All runs -/

/-- Bytes come to a key by being stored under it. -/
theorem put_of_rises_bytes {cx : Context} {fails : FileStatement → Bool} {key : String}
    {bytes : Bytes} {q : FileStatement} {b : FileServer}
    (h : Rises (fileMachine cx fails) (fun s ↦ s.objects key = some bytes) q b) :
    q = .storage (.put key bytes) := by
  obtain ⟨hbefore, hafter⟩ := h
  by_cases hput : ∃ bytes', q = .storage (.put key bytes')
  · obtain ⟨bytes', rfl⟩ := hput
    obtain rfl : bytes' = bytes := by simpa [Objects.serve] using hafter
    rfl
  · push Not at hput
    by_cases hdelete : q = .storage (.delete key)
    · subst hdelete
      simp [Objects.serve] at hafter
    · rw [objects_exec hput hdelete] at hafter
      exact absurd hafter hbefore

/-- What a download tells of the file, and how the file is to be taken. -/
structure Genuine (cx : FileContext) (stored : MediaContent) (earlier : List FileEvent) : Prop where
  uploaded : ∃ j caller id new b, .ran j (.uploadMedia caller stored.bytes
      stored.media.originalFilename) (.media (.insert id new)) b ∈ earlier ∧
    stored.media = new.row id b.now
  detected : ∃ type, cx.infer stored.bytes = some type ∧ type.mimeType ∈ cx.allowedContentTypes ∧
    stored.media.contentType = type.mimeType
  size : stored.media.sizeBytes = stored.bytes.length
  disposition : stored.media.SafelyDisposed

section Runs

variable {cx : FileContext} {fails : FileStatement → Bool} {s : FileServer} {c : FileConfig}
  (hc : FileReached cx fails s c)
include hc

theorem tellsTruth_at {later earlier : List FileEvent} {e : FileEvent}
    (hhist : c.world.history = later ++ e :: earlier) :
    TellsTruth cx e (ownEvents e.tid earlier) :=
  Along.of_append (P := AlongOwn (TellsTruth cx))
    (hhist ▸ hc.traces fun k _ ↦ traces_tellsTruth cx fails k)

variable (hfresh : FreshKeys cx s c.world.store.draws)
include hfresh

/-- The bytes under a key that the run stores under are those that it stored. -/
theorem bytes_of_put {key : String} {bytes bytes' : Bytes} {x e : FileEvent} {i : ℕ}
    {k : FileRequest} {b : FileServer} (hx : x = .ran i k (.storage (.put key bytes)) b)
    (hmem : x ∈ c.world.history) (he : e ∈ c.world.history)
    (hfound : e.store.objects key = some bytes') : bytes = bytes' := by
  subst hx
  obtain ⟨n, hle, hlt, hsource⟩ := source_of_put hc hmem rfl
  have hnone : s.objects key = none := hfresh.noObject key n hle hlt hsource
  obtain ⟨later, earlier, hhist⟩ := List.append_of_mem he
  obtain ⟨c', hc', hworld⟩ := hc.past hhist
  obtain ⟨mid, r, before, hbefore, hr, -⟩ :=
    hc'.rises_of_live (fun s ↦ s.objects key = some bytes') (fun _ _ ↦ Iff.rfl) (by simp [hnone])
      (by rw [hworld]; exact hfound)
  have hsplit : earlier = mid ++ r :: before :=
    (congrArg World.history hworld).symm.trans hbefore
  cases r with
  | answered => exact hr.elim
  | ran j k' q b' =>
      obtain rfl := put_of_rises_bytes hr
      have hput : .ran j k' (.storage (.put key bytes')) b' ∈ c.world.history := by
        simp [hhist, hsplit]
      have hsame := (put_once hc hfresh key).eq hmem hput rfl rfl
      obtain ⟨-, -, hq, -⟩ := Event.ran.inj hsame
      obtain ⟨-, rfl⟩ := StorageCall.put.inj (FileStatement.storage.inj hq)
      rfl

/-- Whatever is uploaded and deleted meanwhile, a download has the bytes of the upload that its
row is about, under the type detected in them. -/
theorem downloads_genuine {later earlier : List FileEvent} {i : ℕ} {caller : Presented} {id : Uuid}
    {stored : MediaContent} {b : FileServer}
    (hhist : c.world.history = later ++
      .answered i (.downloadMedia caller id) (.ok (.content stored)) b :: earlier)
    (hnew : stored.media ∉ s.media) : stored.media.id = id ∧ Genuine cx stored earlier := by
  obtain ⟨hid, ⟨b₁, hfind, hrow⟩, b₂, hget, hobject⟩ :
      ReadBoth i (.downloadMedia caller id) id stored (ownEvents i earlier) :=
    tellsTruth_at hc hhist
  refine ⟨hid, ?_⟩
  have hgot := mem_of_split hhist _ (mem_ownEvents.mp hget).1
  obtain ⟨newer, older, rfl⟩ := List.append_of_mem (mem_ownEvents.mp hfind).1
  rw [← List.cons_append, ← List.append_assoc] at hhist
  obtain ⟨c₁, hc₁, hworld⟩ := hc.past hhist
  obtain ⟨mid, r, before, hbefore, hr, -⟩ := hc₁.rises_of_live (fun s ↦ stored.media ∈ s.media)
    (fun _ _ ↦ Iff.rfl) hnew (by rw [hworld]; exact hrow)
  have hsplit : older = mid ++ r :: before :=
    (congrArg World.history hworld).symm.trans hbefore
  subst hsplit
  obtain ⟨j, k, id₀, new, b₀, media, rfl, hmade, hmedia⟩ : ∃ j k id₀ new b₀ media,
      r = .ran j k (.media (.insert id₀ new)) b₀ ∧ stored.media = new.row id₀ b₀.now ∧
        b₀.media.insert? (new.row id₀ b₀.now) = some media := by
    cases r with
    | answered => exact hr.elim
    | ran j k q b₀ =>
        rcases mem_media_exec hr.2 with h | ⟨id₀, new, media, rfl, h⟩
        · exact absurd h hr.1
        · exact ⟨j, k, id₀, new, b₀, media, rfl, h⟩
  rw [← List.cons_append, ← List.append_assoc] at hhist
  obtain ⟨j', caller', bytes, filename, id', new', b', heq, hkey, ⟨k', b'', hput⟩, -⟩ :=
    uploaded_of_lists hc hhist (lists_of_insert hmedia)
  obtain ⟨rfl, rfl, hq, rfl⟩ := Event.ran.inj heq
  obtain ⟨rfl, rfl⟩ := MediaSql.insert.inj (FileStatement.media.inj hq)
  have hstored : stored.media.storageKey = new.storageKey := by rw [hmade]; rfl
  rw [hstored] at hgot hobject
  obtain rfl : bytes = stored.bytes :=
    bytes_of_put hc hfresh rfl (mem_of_split hhist _ hput) hgot hobject
  obtain ⟨type, htype, hallowed, hcontent, hsize, -, -, rfl⟩ :
      Describes cx new stored.bytes filename := tellsTruth_at hc hhist
  constructor
  · exact ⟨j, caller', id₀, new, b₀, by simp [hmade, NewMedia.row], hmade⟩
  · exact ⟨type, htype, hallowed, by rw [hmade]; exact hcontent⟩
  · rw [hmade]
    exact hsize
  · exact safelyDisposed stored.media

end Runs

/-- A file is downloaded. -/
def FileSample.downloadsHere : FileEvent → Bool
  | .answered _ (.downloadMedia ..) (.ok (.content _)) _ => true
  | _ => false

theorem downloads_genuine_upload :
    ∃ c, FileReached FileSample.context (fun _ ↦ true) FileSample.start c ∧
      ∃ later earlier i caller id stored b, c.world.history = later ++
        .answered i (.downloadMedia caller id) (.ok (.content stored)) b :: earlier ∧
        Genuine FileSample.context stored earlier := by
  let test : FileConfig → Bool := fun c ↦
    c.world.history.any FileSample.downloadsHere && decide (c.world.store.draws = 2)
  obtain ⟨c, hc, htest⟩ : ∃ c, FileReached FileSample.context (fun _ ↦ true) FileSample.start c ∧
      test c = true :=
    Reachable.of_schedule (FileSample.alone 0 FileSample.upload 6 ++
      FileSample.alone 1 (.downloadMedia (Sample.bearer 1 .user) 1001) 4) test (by decide)
        (by decide)
  simp only [test, Bool.and_eq_true, decide_eq_true_eq, List.any_eq_true] at htest
  obtain ⟨⟨e, he, hdownloads⟩, hdraws⟩ := htest
  obtain ⟨later, earlier, hhist⟩ := List.append_of_mem he
  unfold FileSample.downloadsHere at hdownloads
  split at hdownloads
  next i caller id stored b =>
    have hnew : stored.media ∉ FileSample.start.media := by rintro ⟨⟩
    obtain ⟨-, hgenuine⟩ :=
      downloads_genuine hc (FileSample.freshKeys (by omega)) hhist hnew
    exact ⟨c, hc, later, earlier, i, caller, id, stored, b, hhist, hgenuine⟩
  next => cases hdownloads

end ApiStarter
