import ApiStarter.FileRuns

/-!
# Photos that are still served

A photo is stored, named in the account's row, replaced there by another request
and deleted by whoever read it before.  A request that finds a photo with its
`SELECT` and goes on to its `UPDATE` takes it over; so does the deletion of the
account.  When all requests are answered, the photos still stored are those that
were named and that nobody took over.
-/

namespace ApiStarter

open Interleave Interleave.Prog Relational

/-- Where a run starts, as far as photos go. -/
structure PhotosStored (u : Uuid) (s : FileServer) : Prop where
  account : (s.db.users.get? u).isSome
  stored : ∀ name, HasPhoto u name s →
    AvatarStorage.isValidName name = true ∧ HasObject (AvatarStorage.objectKey name) s
  distinct : ∀ u' u'' name, HasPhoto u' name s → HasPhoto u'' name s → u' = u''
  noMedia : ∀ m ∈ s.media, ∀ name, m.storageKey ≠ AvatarStorage.objectKey name

/-- Every request that did anything has been answered. -/
def AllAnswered (h : List FileEvent) : Prop :=
  ∀ e ∈ h, ∃ a ∈ h, a.tid = e.tid ∧ a.isAnswer = true

/-- The photo was stored by a request of the account, or was its photo at the start. -/
def PhotoOf (u : Uuid) (name : String) (s : FileServer) (h : List FileEvent) : Prop :=
  HasPhoto u name s ∨ ∃ e ∈ h, fileAct e = .puts (AvatarStorage.objectKey name) ∧
    ∃ r ∈ h, r.tid = e.tid ∧ ∃ photo, fileAct r = .reads u photo

/-- The photo was the account's at some time. -/
def Named (u : Uuid) (name : String) (s : FileServer) (h : List FileEvent) : Prop :=
  HasPhoto u name s ∨ ∃ e ∈ h, fileAct e = .updates u (some name)

/-- The deletion of the account is answered as done. -/
def deletionDone (u : Uuid) : FileEvent → Bool
  | .answered _ (.deleteUser _ id) (.ok _) _ => decide (id = u)
  | _ => false

/-- The `SELECT` of a request found the photo, and its `UPDATE` ran as well. -/
def FoundAndReplaced (u : Uuid) (name : String) (h : List FileEvent) : Prop :=
  ∃ x ∈ h, fileAct x = .selects u (some name) ∧
    ∃ y ∈ h, y.tid = x.tid ∧ ∃ photo, fileAct y = .updates u photo

/-- A request found the photo and went on to write its own, or deleted the account. -/
def TakenOver (u : Uuid) (name : String) (h : List FileEvent) : Prop :=
  FoundAndReplaced u name h ∨ ∃ x ∈ h, fileAct x = .reads u (some name) ∧
    ∃ a ∈ h, a.tid = x.tid ∧ deletionDone u a = true

theorem objectKey_inj {name name' : String}
    (h : AvatarStorage.objectKey name = AvatarStorage.objectKey name') : name = name' := by
  have htext := congrArg String.toList h
  simp only [AvatarStorage.objectKey, String.toList_append] at htext
  exact String.toList_injective (List.append_cancel_left htext)

section Runs

variable {cx : FileContext} {fails : FileStatement → Bool} {s : FileServer} {c : FileConfig}
  {u : Uuid} {name : String} (hc : FileReached cx fails s c)
  (hfresh : FreshKeys cx s c.world.store.draws) (hstart : PhotosStored u s)
include hc

theorem account_exists (h : (s.db.users.get? u).isSome) :
    (c.world.store.db.users.get? u).isSome := by
  refine hc.live_of_start (fun s ↦ (s.db.users.get? u).isSome) (fun _ _ ↦ Iff.rfl) h ?_
  intro x _ hlive hend
  cases x with
  | answered => exact hend
  | ran i k q b =>
      obtain ⟨row, hrow⟩ := Option.isSome_iff_exists.mp hlive
      apply hend
      cases q with
      | base q =>
          cases q with
          | sql q =>
              cases q with
              | users q => exact Option.isSome_iff_exists.mpr ⟨_, UsersSql.get?_run hrow q⟩
              | _ => exact hlive
          | _ => exact hlive
      | avatar q =>
          cases q with
          | selectKey id => exact hlive
          | updateKey id photo =>
              simp only [exec_avatar, AvatarSql.run]
              exact Option.isSome_iff_exists.mpr ⟨_, Table.get?_updateWhere_some hrow⟩
      | _ => exact hlive

theorem named_of_photo (h : HasPhoto u name c.world.store) : Named u name s c.world.history := by
  by_cases hs : HasPhoto u name s
  · exact .inl hs
  · obtain ⟨mid, r, older, hhist, hr, -⟩ := hc.rises_of_live (HasPhoto u name)
      (fun _ _ ↦ Iff.rfl) hs h
    exact .inr ⟨r, by simp [hhist], names_of_rises hr⟩

/-- A photo an event finds was named before. -/
theorem named_before {later earlier : List FileEvent} {e : FileEvent}
    (hhist : c.world.history = later ++ e :: earlier) (h : HasPhoto u name e.store) :
    Named u name s earlier := by
  obtain ⟨d, hd, hworld⟩ := hc.past hhist
  have hnamed : Named u name s d.world.history := named_of_photo hd (by rwa [hworld])
  rwa [hworld] at hnamed

omit hc in
theorem Named.mono {h h' : List FileEvent} (hnamed : Named u name s h) (hsub : ∀ e ∈ h, e ∈ h') :
    Named u name s h' :=
  hnamed.imp_right fun ⟨e, he, hact⟩ ↦ ⟨e, hsub e he, hact⟩

theorem named_at {e : FileEvent} (he : e ∈ c.world.history) (h : HasPhoto u name e.store) :
    Named u name s c.world.history := by
  obtain ⟨later, earlier, hhist⟩ := List.append_of_mem he
  exact (named_before hc hhist h).mono (mem_of_split hhist)

omit hc in
theorem photo_of_selects {e : FileEvent} (h : fileAct e = .selects u (some name)) :
    HasPhoto u name e.store := by
  obtain ⟨i, k, b, rfl, hphoto⟩ : IsAct (.selects u (some name)) e := h ▸ isAct e
  exact hasPhoto_of_photoOf hphoto

omit hc in
theorem photo_of_reads {e : FileEvent} (h : fileAct e = .reads u (some name)) :
    HasPhoto u name e.store := by
  obtain ⟨i, k, b, rfl, hphoto⟩ : IsAct (.reads u (some name)) e := h ▸ isAct e
  exact hasPhoto_of_photoOf hphoto

theorem no_update_before_select {later earlier : List FileEvent} {x y : FileEvent}
    {photo : Option String} (hhist : c.world.history = later ++ x :: earlier)
    (hx : fileAct x = .selects u photo) (hy : y ∈ earlier) (htid : y.tid = x.tid)
    (photo' : Option String) (u' : Uuid) : fileAct y ≠ .updates u' photo' := by
  intro hact
  obtain ⟨i, k, b, rfl, -⟩ : IsAct (.selects u photo) x := hx ▸ isAct x
  have hstep : ∀ u photo, .updates u photo ∉ fileActs (ownEvents i earlier) := fileStep_at hc hhist
  exact hstep u' photo' (mem_own.mpr ⟨y, hy, htid, hact⟩)

include hfresh

theorem named_unique
    (hdistinct : ∀ u' u'' name, HasPhoto u' name s → HasPhoto u'' name s → u' = u'')
    {u' : Uuid} (h : Named u name s c.world.history) (h' : Named u' name s c.world.history) :
    u = u' := by
  rcases h with hs | ⟨e, he, hact⟩ <;> rcases h' with hs' | ⟨e', he', hact'⟩
  · exact hdistinct u u' name hs hs'
  · exact absurd hact' (not_names_of_photo hc hfresh hs he')
  · exact absurd hact (not_names_of_photo hc hfresh hs' he)
  · obtain rfl := (names_once hc hfresh name).eq he he' ⟨u, hact⟩ ⟨u', hact'⟩
    rw [hact] at hact'
    cases hact'
    rfl

/-- After a request found a photo and wrote its own, the photo is not the account's again. -/
theorem photo_gone_of_found (h : FoundAndReplaced u name c.world.history) :
    ¬HasPhoto u name c.world.store := by
  obtain ⟨x, hx, hselects, y, hy, htid, photo, hupdates⟩ := h
  have hphoto := photo_of_selects hselects
  obtain ⟨later, earlier, hhist⟩ := List.append_of_mem hx
  obtain ⟨l, r, hhist'⟩ := List.append_of_mem hy
  have hne : y ≠ x := by
    rintro rfl
    rw [hselects] at hupdates
    cases hupdates
  have hafter : x ∈ r := by
    rcases before_or_after hhist' hx hne.symm with hr | ⟨newer, mid, hsplit⟩
    · exact hr
    · refine absurd hupdates (no_update_before_select hc hsplit hselects ?_ htid photo u)
      exact List.mem_append_right _ List.mem_cons_self
  have hnew : photo ≠ some name := by
    rintro rfl
    rcases named_before hc hhist hphoto with hs | ⟨r', hr', hact⟩
    · exact not_names_of_photo hc hfresh hs hy hupdates
    · obtain rfl := (names_once hc hfresh name).eq hy (mem_of_split hhist r' hr') ⟨u, hupdates⟩
        ⟨u, hact⟩
      exact no_update_before_select hc hhist hselects hr' htid (some name) u hact
  obtain ⟨i, k, b, rfl⟩ : IsAct (.updates u photo) y := hupdates ▸ isAct y
  exact photo_gone hc hfresh hhist' ⟨x, List.mem_cons_of_mem _ hafter, hphoto⟩
    (ends_photo_of_update hnew)

/-! ## When all is answered -/

omit hfresh in
theorem own_of_answer {later earlier : List FileEvent} {a : FileEvent}
    (hhist : c.world.history = later ++ a :: earlier) (ha : a.isAnswer = true) :
    ownEvents a.tid c.world.history = a :: ownEvents a.tid earlier := by
  have hsilent := hc.silent_after_answer
  rw [hhist] at hsilent ⊢
  have hnone : ownEvents a.tid later = [] := by
    refine List.filter_eq_nil_iff.mpr fun x hx ↦ ?_
    have hpair := (List.pairwise_append.mp hsilent).2.2 x hx a List.mem_cons_self
    simpa [ha, eq_comm] using hpair
  rw [ownEvents] at hnone ⊢
  rw [List.filter_append, hnone]
  simp [ownEvents]

variable (hsure : ∀ key, fails (.storage (.delete key)) = false)

include hsure in
omit hfresh in
theorem mayAnswer_at {i : ℕ} {k : FileRequest} {a : Except AppError FileResponse} {b : FileServer}
    (ha : .answered i k a b ∈ c.world.history) :
    Settled (fileActs (ownEvents i c.world.history)) ∧ ∀ caller u, k = .deleteUser caller u →
      (∀ response, a = .ok response → CleanedUp fails u (fileActs (ownEvents i c.world.history))) ∧
        ∀ e, a = .error e → ∀ key, .deletes key ∉ fileActs (ownEvents i c.world.history) := by
  obtain ⟨later, earlier, hhist⟩ := List.append_of_mem ha
  have hmay : MayAnswer fails k a (fileActs (ownEvents i earlier)) := fileStep_at hc hhist
  obtain ⟨hsettled, hdeletion⟩ := hmay hsure
  have hown : fileActs (ownEvents i c.world.history) = .other :: fileActs (ownEvents i earlier) :=
    congrArg fileActs (own_of_answer hc hhist rfl)
  rw [hown]
  refine ⟨hsettled.cons (.inl rfl), fun caller u hk ↦ ?_⟩
  obtain ⟨hok, herror⟩ := hdeletion caller u hk
  exact ⟨fun response ha ↦ by simpa [CleanedUp] using hok response ha,
    fun e ha key ↦ by simpa using herror e ha key⟩

include hsure in
omit hfresh in
theorem settled_of_answered (hanswered : AllAnswered c.world.history) {e : FileEvent}
    (he : e ∈ c.world.history) : Settled (fileActs (ownEvents e.tid c.world.history)) := by
  obtain ⟨a, ha, htid, hisAnswer⟩ := hanswered e he
  cases a with
  | ran => cases hisAnswer
  | answered i k a b =>
      rw [← htid]
      exact (mayAnswer_at hc hsure ha).1

include hsure in
omit hfresh in
theorem cleanedUp_of_done {a : FileEvent} (ha : a ∈ c.world.history)
    (hdone : deletionDone u a = true) :
    CleanedUp fails u (fileActs (ownEvents a.tid c.world.history)) := by
  unfold deletionDone at hdone
  split at hdone
  next i caller id response b =>
    obtain rfl : id = u := of_decide_eq_true hdone
    exact ((mayAnswer_at hc hsure ha).2 caller id rfl).1 response rfl
  next => cases hdone

include hsure in
omit hfresh in
/-- A deletion of an account that deleted an object is answered as done. -/
theorem done_of_deletes (hanswered : AllAnswered c.world.history) {d : FileEvent} {key : String}
    {caller : Presented} (hd : d ∈ c.world.history) (hk : d.request = .deleteUser caller u)
    (hact : fileAct d = .deletes key) :
    ∃ a ∈ c.world.history, a.tid = d.tid ∧ deletionDone u a = true := by
  obtain ⟨a, ha, htid, hisAnswer⟩ := hanswered d hd
  refine ⟨a, ha, htid, ?_⟩
  have hrequest := (hc.request_eq ha hd htid).trans hk
  cases a with
  | ran => cases hisAnswer
  | answered i k answer b =>
      obtain rfl : k = .deleteUser caller u := hrequest
      cases answer with
      | ok response => exact decide_eq_true rfl
      | error e =>
          refine absurd (mem_own.mpr ⟨d, hd, htid.symm, hact⟩)
            (((mayAnswer_at hc hsure ha).2 caller u rfl).2 e rfl key)

/-! ## Who deletes a photo -/

include hstart

omit hfresh in
theorem not_unlisted {d : FileEvent} {later earlier : List FileEvent} {keys : List String}
    (hhist : c.world.history = later ++ d :: earlier)
    (hkey : AvatarStorage.objectKey name ∈ keys)
    (h : .unlists keys ∈ fileActs (ownEvents d.tid earlier) ∨
      ∃ u, .clears u keys ∈ fileActs (ownEvents d.tid earlier)) : False := by
  obtain ⟨y, hy, hact⟩ := unlisted_of_own h
  obtain ⟨l, older, hsplit⟩ := List.append_of_mem (mem_of_split hhist y hy)
  obtain ⟨e, he, hworld⟩ := hc.past hsplit
  have hrow := (row_of_act cx.toContext fails hkey hact).1
  exact key_ne_objectKey he hstart.noMedia (by rwa [hworld]) name rfl

/-- Whoever deletes a photo that was named has taken it over. -/
theorem takenOver_of_deletes (hnamed : Named u name s c.world.history)
    {d : FileEvent} (hd : d ∈ c.world.history)
    (hact : fileAct d = .deletes (AvatarStorage.objectKey name)) :
    FoundAndReplaced u name c.world.history ∨ ∃ caller, d.request = .deleteUser caller u ∧
      ∃ x ∈ c.world.history, x.tid = d.tid ∧ fileAct x = .reads u (some name) := by
  obtain ⟨later, earlier, hhist⟩ := List.append_of_mem hd
  obtain ⟨i, k, b, rfl⟩ : IsAct (.deletes (AvatarStorage.objectKey name)) d := hact ▸ isAct d
  have hmay : MayDelete k (AvatarStorage.objectKey name) (fileActs (ownEvents i earlier)) :=
    fileStep_at hc hhist
  rcases hmay with ⟨hput, -, hupdates⟩ | ⟨keys, hkey, hunlisted⟩ |
    ⟨u', name', photo, hphoto, hfound, hwritten⟩ |
    ⟨caller, u', name', rfl, hphoto, hread⟩
  · -- stored in vain: then it was never named
    rcases hnamed with hs | ⟨w, hw, hnames⟩
    · obtain ⟨n, hle, hlt, hsource⟩ := source_of_need hc (mem_of_split hhist) hput
      obtain ⟨row, hrow, hkey⟩ := Option.bind_eq_some_iff.mp hs
      exact absurd rfl (hfresh.noPhoto _ n hle hlt hsource row (Table.mem_of_get? hrow) name hkey)
    · obtain ⟨l, older, hsplit⟩ := List.append_of_mem hw
      have htid : w.tid = i := tid_eq_of_put hc hfresh (mem_of_split hsplit) (mem_of_split hhist)
        (needs_of_names hc hsplit hnames) hput
      have hne : w ≠ .ran i k (.storage (.delete (AvatarStorage.objectKey name))) b := by
        rintro rfl
        cases hnames
      rcases before_or_after hhist hw hne with hbefore | ⟨l', mid, hafter⟩
      · exact absurd (mem_own.mpr ⟨w, hbefore, htid, hnames⟩) (hupdates u (some name))
      · obtain ⟨j, k', b', rfl⟩ : IsAct (.updates u (some name)) w := hnames ▸ isAct w
        obtain ⟨-, hidle, -⟩ : MayUpdate u (some name) (fileActs (ownEvents j
            (mid ++ .ran i k (.storage (.delete (AvatarStorage.objectKey name))) b :: earlier))) :=
          fileStep_at hc hafter
        refine (hidle (AvatarStorage.objectKey name) (mem_own.mpr
          ⟨.ran i k (.storage (.delete (AvatarStorage.objectKey name))) b, ?_, htid.symm,
            rfl⟩)).elim
        exact List.mem_append_right _ List.mem_cons_self
  · exact (not_unlisted hc hstart hhist hkey hunlisted).elim
  · obtain rfl := objectKey_inj hphoto
    obtain ⟨x, hx, htidx, hselects⟩ := mem_own.mp hfound
    obtain ⟨y, hy, htidy, hupdates⟩ := mem_own.mp hwritten
    have hx' := mem_of_split hhist x hx
    obtain rfl := named_unique hc hfresh hstart.distinct hnamed
      (named_at hc hx' (photo_of_selects hselects))
    exact .inl ⟨x, hx', hselects, y, mem_of_split hhist y hy, htidy.trans htidx.symm,
      photo, hupdates⟩
  · obtain rfl := objectKey_inj hphoto
    obtain ⟨x, hx, htidx, hreads⟩ := mem_own.mp hread
    have hx' := mem_of_split hhist x hx
    obtain rfl := named_unique hc hfresh hstart.distinct hnamed
      (named_at hc hx' (photo_of_reads hreads))
    exact .inr ⟨caller, rfl, x, hx', htidx, hreads⟩

omit hstart in
/-- Before a key has a row, its object is stored. -/
theorem put_of_row {later earlier : List FileEvent} {x p : FileEvent} {key : String}
    (hhist : c.world.history = later ++ earlier) (hx : x ∈ earlier) (hrow : HasRow key x.store)
    (hp : p ∈ c.world.history) (hput : fileAct p = .puts key) :
    ∃ y ∈ earlier, fileAct y = .puts key := by
  obtain ⟨l, older, rfl⟩ := List.append_of_mem hx
  have hnew : ¬HasRow key s := by
    rintro ⟨m, hm, hkey⟩
    obtain ⟨n, hle, hlt, hsource⟩ := source_of_put hc hp hput
    exact hfresh.noRow key n hle hlt hsource m hm hkey
  have hhist' : c.world.history = (later ++ l) ++ x :: older := by simp [hhist]
  obtain ⟨d, hd, hworld⟩ := hc.past hhist'
  obtain ⟨mid, r, oldest, hold, hr, -⟩ := hd.rises_of_live (HasRow key) (fun _ _ ↦ Iff.rfl) hnew
    (by rwa [hworld])
  obtain ⟨y, hy, -, hact⟩ := mem_own.mp (needs_of_lists hd hold (lists_of_rises hr))
  rw [hworld] at hold
  exact ⟨y, List.mem_append_right _ (List.mem_cons_of_mem _ (mem_of_split hold y hy)), hact⟩

omit hstart in
/-- Before an account has a photo, it is stored. -/
theorem put_of_photo {later earlier : List FileEvent} {x p : FileEvent}
    (hhist : c.world.history = later ++ earlier) (hx : x ∈ earlier)
    (hphoto : HasPhoto u name x.store)
    (hp : p ∈ c.world.history) (hput : fileAct p = .puts (AvatarStorage.objectKey name)) :
    ∃ y ∈ earlier, fileAct y = .puts (AvatarStorage.objectKey name) := by
  obtain ⟨l, older, rfl⟩ := List.append_of_mem hx
  have hhist' : c.world.history = (later ++ l) ++ x :: older := by simp [hhist]
  rcases named_before hc hhist' hphoto with hs | ⟨w, hw, hnames⟩
  · obtain ⟨n, hle, hlt, hsource⟩ := source_of_put hc hp hput
    obtain ⟨row, hrow, hkey⟩ := Option.bind_eq_some_iff.mp hs
    exact absurd rfl (hfresh.noPhoto _ n hle hlt hsource row (Table.mem_of_get? hrow) name hkey)
  · obtain ⟨l', oldest, rfl⟩ := List.append_of_mem hw
    have hhist'' : c.world.history = (later ++ l ++ x :: l') ++ w :: oldest := by simp [hhist]
    obtain ⟨y, hy, -, hact⟩ := mem_own.mp (needs_of_names hc hhist'' hnames)
    exact ⟨y, by simp [hy], hact⟩

omit hstart in
/-- A deleted object is not stored again. -/
theorem object_gone_of_deletes {d : FileEvent} {key : String} (hd : d ∈ c.world.history)
    (hact : fileAct d = .deletes key) : ¬HasObject key c.world.store := by
  obtain ⟨later, earlier, hhist⟩ := List.append_of_mem hd
  refine object_gone hc hhist hact fun p hp hput ↦ ?_
  have hp' : p ∈ c.world.history := hhist ▸ List.mem_append_left _ hp
  have hhist' : c.world.history = (later ++ [d]) ++ earlier := by simp [hhist]
  -- it was stored before it was deleted, so it was stored twice
  suffices htwice : ∃ y ∈ earlier, fileAct y = .puts key by
    obtain ⟨y, hy, hputy⟩ := htwice
    have honce := put_once hc hfresh key
    rw [hhist] at honce
    exact (List.pairwise_append.mp honce).2.2 p hp y (List.mem_cons_of_mem _ hy) ⟨hputy, hput⟩
  obtain ⟨i, k, b, rfl⟩ : IsAct (.deletes key) d := hact ▸ isAct d
  have hmay : MayDelete k key (fileActs (ownEvents i earlier)) := fileStep_at hc hhist
  rcases hmay with ⟨hown, -⟩ | ⟨keys, hkey, hunlisted⟩ | ⟨u', name', photo, rfl, hfound, -⟩ |
    ⟨caller, u', name', -, rfl, hread⟩
  · obtain ⟨y, hy, -, hputy⟩ := mem_own.mp hown
    exact ⟨y, hy, hputy⟩
  · obtain ⟨x, hx, hunlists⟩ := unlisted_of_own hunlisted
    exact put_of_row hc hfresh hhist' hx (row_of_act cx.toContext fails hkey hunlists).1 hp' hput
  · obtain ⟨x, hx, -, hselects⟩ := mem_own.mp hfound
    exact put_of_photo hc hfresh hhist' hx (photo_of_selects hselects) hp' hput
  · obtain ⟨x, hx, -, hreads⟩ := mem_own.mp hread
    exact put_of_photo hc hfresh hhist' hx (photo_of_reads hreads) hp' hput

/-! ## What is still stored -/

variable (hnames : ∀ n < c.world.store.draws,
  AvatarStorage.isValidName (AvatarStorage.newName cx.toContext n) = true)

include hnames in
omit hfresh hstart in
theorem valid_of_put {x : FileEvent} (hx : x ∈ c.world.history)
    (hput : fileAct x = .puts (AvatarStorage.objectKey name)) :
    AvatarStorage.isValidName name = true := by
  obtain ⟨n, -, hlt, hsource⟩ := source_of_put hc hx hput
  rcases hsource with ⟨extension, hkey⟩ | hkey
  · exact absurd hkey (mediaKey_ne_objectKey _ _ _ _)
  · rw [← objectKey_inj hkey]
    exact hnames n hlt

omit hfresh hstart in
/-- A photo that was named was stored by the same request, which had read the account. -/
theorem put_of_updates {e : FileEvent} (he : e ∈ c.world.history)
    (hact : fileAct e = .updates u (some name)) :
    ∃ p ∈ c.world.history, p.tid = e.tid ∧ fileAct p = .puts (AvatarStorage.objectKey name) ∧
      ∃ r ∈ c.world.history, r.tid = e.tid ∧ ∃ photo, fileAct r = .reads u photo := by
  obtain ⟨later, earlier, hhist⟩ := List.append_of_mem he
  obtain ⟨i, k, b, rfl⟩ : IsAct (.updates u (some name)) e := hact ▸ isAct e
  obtain ⟨-, -, ⟨photo, hread⟩, hput⟩ : MayUpdate u (some name) (fileActs (ownEvents i earlier)) :=
    fileStep_at hc hhist
  obtain ⟨r, hr, hrtid, hreads⟩ := mem_own.mp hread
  obtain ⟨p, hp, hptid, hputs⟩ := mem_own.mp (hput name rfl)
  exact ⟨p, mem_of_split hhist p hp, hptid, hputs, r, mem_of_split hhist r hr, hrtid, photo, hreads⟩

omit hfresh hstart in
theorem photoOf_of_named (h : Named u name s c.world.history) :
    PhotoOf u name s c.world.history := by
  rcases h with hs | ⟨e, he, hact⟩
  · exact .inl hs
  · obtain ⟨p, hp, hptid, hput, r, hr, hrtid, hreads⟩ := put_of_updates hc he hact
    exact .inr ⟨p, hp, hput, r, hr, hrtid.trans hptid.symm, hreads⟩

include hnames in
omit hfresh in
theorem valid_of_photoOf (h : PhotoOf u name s c.world.history) :
    AvatarStorage.isValidName name = true := by
  rcases h with hs | ⟨e, he, hput, -⟩
  · exact (hstart.stored name hs).1
  · exact valid_of_put hc hnames he hput

omit hfresh hstart in
/-- But for a deletion, a request reads one account. -/
theorem reads_same {x y : FileEvent} {u' : Uuid} {photo photo' : Option String}
    (hx : x ∈ c.world.history) (hy : y ∈ c.world.history) (htid : x.tid = y.tid)
    (hreads : fileAct x = .reads u photo) (hreads' : fileAct y = .reads u' photo')
    (hk : x.request.isDeletion = false) : u = u' := by
  by_cases hxy : x = y
  · rw [hxy, hreads'] at hreads
    cases hreads
    rfl
  obtain ⟨i, k, b, rfl, -⟩ : IsAct (.reads u photo) x := hreads ▸ isAct x
  obtain ⟨j, k', b', rfl, -⟩ : IsAct (.reads u' photo') y := hreads' ▸ isAct y
  obtain rfl : i = j := htid
  obtain rfl : k = k' := hc.request_eq hx hy rfl
  obtain ⟨later, earlier, hhist⟩ := List.append_of_mem hx
  rcases before_or_after hhist hy (Ne.symm hxy) with hbefore | ⟨newer, mid, hafter⟩
  · have hstep : k.isDeletion = false → ∀ u₀ photo₀,
        .reads u₀ photo₀ ∈ fileActs (ownEvents i earlier) → u₀ = u := fileStep_at hc hhist
    exact (hstep hk u' photo' (mem_own.mpr ⟨_, hbefore, rfl, hreads'⟩)).symm
  · have hstep : k.isDeletion = false → ∀ u₀ photo₀, .reads u₀ photo₀ ∈ fileActs (ownEvents i
        (mid ++ .ran i k (.base (.sql (.users (.findById u)))) b :: earlier)) → u₀ = u' :=
      fileStep_at hc hafter
    exact hstep hk u photo (mem_own.mpr
      ⟨_, List.mem_append_right _ List.mem_cons_self, rfl, hreads⟩)

include hsure hnames

omit hfresh in
/-- Whoever took a photo over has deleted it. -/
theorem deletes_of_takenOver (hanswered : AllAnswered c.world.history)
    (hphoto : PhotoOf u name s c.world.history) (h : TakenOver u name c.world.history) :
    ∃ d ∈ c.world.history, fileAct d = .deletes (AvatarStorage.objectKey name) := by
  have hvalid := valid_of_photoOf hc hstart hnames hphoto
  rcases h with ⟨x, hx, hselects, y, hy, htid, photo, hupdates⟩ |
    ⟨x, hx, hreads, a, ha, htid, hdone⟩
  · have hsettled := settled_of_answered hc hsure hanswered hx
    have hdeletes := hsettled.replaced u name photo (mem_own.mpr ⟨x, hx, rfl, hselects⟩)
      (mem_own.mpr ⟨y, hy, htid, hupdates⟩) hvalid
    obtain ⟨d, hd, -, hact⟩ := mem_own.mp hdeletes
    exact ⟨d, hd, hact⟩
  · obtain ⟨hphotos, -⟩ := cleanedUp_of_done hc hsure ha hdone
    obtain ⟨d, hd, -, hact⟩ := mem_own.mp
      (hphotos name (mem_own.mpr ⟨x, hx, htid.symm, hreads⟩) hvalid)
    exact ⟨d, hd, hact⟩

/-- When all is answered, the photos stored are those named and not taken over. -/
theorem object_iff (hanswered : AllAnswered c.world.history)
    (hphoto : PhotoOf u name s c.world.history) :
    HasObject (AvatarStorage.objectKey name) c.world.store ↔
      Named u name s c.world.history ∧ ¬TakenOver u name c.world.history := by
  constructor
  · intro hobject
    have hkept : ∀ d ∈ c.world.history, fileAct d ≠ .deletes (AvatarStorage.objectKey name) :=
      fun d hd hact ↦ object_gone_of_deletes hc hfresh hd hact hobject
    constructor
    · rcases hphoto with hs | ⟨p, hp, hput, r, hr, htid, photo, hreads⟩
      · exact .inl hs
      have hsettled := settled_of_answered hc hsure hanswered hp
      have hvalid : ∀ name', AvatarStorage.objectKey name = AvatarStorage.objectKey name' →
          AvatarStorage.isValidName name' = true := by
        intro name' heq
        rw [← objectKey_inj heq]
        exact valid_of_put hc hnames hp hput
      rcases hsettled.put _ (mem_own.mpr ⟨p, hp, rfl, hput⟩) hvalid with hdeletes | hlists |
        ⟨u', name', hkey, hupdates⟩
      · obtain ⟨d, hd, -, hact⟩ := mem_own.mp hdeletes
        exact absurd hact (hkept d hd)
      · obtain ⟨l, hl, -, hact⟩ := mem_own.mp hlists
        obtain ⟨later, earlier, hhist⟩ := List.append_of_mem hl
        obtain ⟨-, -, -, -, -, -, -, -, -, -, n, extension, hkey⟩ := uploaded_of_lists hc hhist hact
        exact absurd hkey.symm (mediaKey_ne_objectKey _ _ _ _)
      · obtain rfl := objectKey_inj hkey
        obtain ⟨w, hw, hwtid, hact⟩ := mem_own.mp hupdates
        obtain ⟨-, -, -, -, r', hr', hrtid', photo', hreads'⟩ := put_of_updates hc hw hact
        have hnot : r.request.isDeletion = false := by
          obtain ⟨later, earlier, hhist⟩ := List.append_of_mem hp
          obtain ⟨i, k, bytes, b, rfl⟩ : IsAct (.puts (AvatarStorage.objectKey name)) p :=
            hput ▸ isAct p
          obtain ⟨n, -, hmay⟩ : MayPut cx k (AvatarStorage.objectKey name) bytes
            (ownEvents i earlier) := fileStep_at hc hhist
          rw [hc.request_eq hr hp htid]
          rcases hmay with ⟨caller, filename, type, rfl, -⟩ | ⟨caller, upload, rfl, -⟩ <;> rfl
        obtain rfl : u = u' := reads_same hc hr hr' (htid.trans (hrtid'.trans hwtid).symm) hreads
          hreads' hnot
        exact .inr ⟨w, hw, hact⟩
    · intro htaken
      obtain ⟨d, hd, hact⟩ := deletes_of_takenOver hc hstart hsure hnames hanswered hphoto htaken
      exact hkept d hd hact
  · rintro ⟨hnamed, hnot⟩
    have hkept : ∀ d ∈ c.world.history, fileAct d ≠ .deletes (AvatarStorage.objectKey name) := by
      intro d hd hact
      rcases takenOver_of_deletes hc hfresh hstart hnamed hd hact with hfound |
        ⟨caller, hk, x, hx, htid, hreads⟩
      · exact hnot (.inl hfound)
      · obtain ⟨a, ha, hatid, hdone⟩ := done_of_deletes hc hsure hanswered hd hk hact
        exact hnot (.inr ⟨x, hx, hreads, a, ha, hatid.trans htid.symm, hdone⟩)
    have hnotEnds : ∀ x ∈ c.world.history, HasObject (AvatarStorage.objectKey name) x.store →
        ¬x.Ran (Ends (fileMachine cx.toContext fails)
          (HasObject (AvatarStorage.objectKey name))) := by
      intro x hx hobject hends
      cases x with
      | answered => exact hends
      | ran i k q b => exact hkept _ hx (act_of_ends_object hobject hends)
    rcases hnamed with hs | ⟨w, hw, hact⟩
    · exact hc.live_of_start (HasObject (AvatarStorage.objectKey name)) (fun _ _ ↦ Iff.rfl)
        (hstart.stored name hs).2 hnotEnds
    · obtain ⟨p, hp, -, hput, -⟩ := put_of_updates hc hw hact
      obtain ⟨later, earlier, hhist⟩ := List.append_of_mem hp
      obtain ⟨i, k, bytes, b, rfl⟩ :
        IsAct (.puts (AvatarStorage.objectKey name)) p := hput ▸ isAct p
      refine hc.live_of_begun (HasObject (AvatarStorage.objectKey name)) (fun _ _ ↦ Iff.rfl) hhist
        (by simp [HasObject, Objects.serve]) fun x hx ↦ hnotEnds x ?_
      exact hhist ▸ List.mem_append_left _ hx

omit hsure hnames hstart hfresh in
/-- A photo that is no longer the account's was replaced. -/
theorem replaced_of_named (h : Named u name s c.world.history)
    (hgone : ¬HasPhoto u name c.world.store) (hrow : (s.db.users.get? u).isSome) :
    ∃ e ∈ c.world.history, HasPhoto u name e.store ∧
      ∃ photo, fileAct e = .updates u photo ∧ photo ≠ some name := by
  by_contra hnone
  have hkept : ∀ x ∈ c.world.history, HasPhoto u name x.store →
      ¬x.Ran (Ends (fileMachine cx.toContext fails) (HasPhoto u name)) := by
    intro x hx hphoto hends
    cases x with
    | answered => exact hends
    | ran i k q b =>
        obtain ⟨photo, hact⟩ := act_of_ends_photo (i := i) (k := k) hphoto hends
        refine hnone ⟨_, hx, hphoto, photo, hact, ?_⟩
        rintro rfl
        obtain ⟨i', k', b', heq⟩ : IsAct (.updates u (some name)) (.ran i k q b) := hact ▸ isAct _
        cases heq
        refine hends (photo_of_update ?_)
        obtain ⟨row, hget, -⟩ := Option.bind_eq_some_iff.mp hphoto
        exact Option.isSome_of_eq_some hget
  rcases h with hs | ⟨e, he, hact⟩
  · exact hgone (hc.live_of_start (HasPhoto u name) (fun _ _ ↦ Iff.rfl) hs hkept)
  · obtain ⟨later, earlier, hhist⟩ := List.append_of_mem he
    obtain ⟨d, hd, hworld⟩ := hc.past hhist
    obtain ⟨i, k, b, rfl⟩ : IsAct (.updates u (some name)) e := hact ▸ isAct e
    have hexists := account_exists hd hrow
    rw [hworld] at hexists
    refine hgone (hc.live_of_begun (HasPhoto u name) (fun _ _ ↦ Iff.rfl) hhist
      (photo_of_update hexists) fun x hx ↦ hkept x ?_)
    exact hhist ▸ List.mem_append_left _ hx

end Runs

/-! ## One photo -/

def FileRequest.changesPhoto : FileRequest → Bool
  | .setAvatar .. => true
  | .removeAvatar .. => true
  | _ => false

/-- Every photo that an `UPDATE` replaces was found by a request whose own `UPDATE` ran. -/
def ReplacedFound (u : Uuid) (h : List FileEvent) : Prop :=
  ∀ e ∈ h, ∀ name, HasPhoto u name e.store →
    (∃ photo, fileAct e = .updates u photo ∧ photo ≠ some name) → FoundAndReplaced u name h

/-- With no request in flight, the account's photo is the only one of it still stored exactly if
no replaced photo was overlooked. -/
theorem only_photo_iff {cx : FileContext} {fails : FileStatement → Bool} {s : FileServer}
    {c : FileConfig} {u : Uuid}
    (hc : Reachable (fileMachine cx.toContext fails) (handleFile cx)
      (fun k ↦ k.isDeletion = false) s c)
    (hfresh : FreshKeys cx s c.world.store.draws)
    (hnames : ∀ n < c.world.store.draws,
      AvatarStorage.isValidName (AvatarStorage.newName cx.toContext n) = true)
    (hsure : ∀ key, fails (.storage (.delete key)) = false) (hstart : PhotosStored u s)
    (hanswered : AllAnswered c.world.history) :
    (∀ name, PhotoOf u name s c.world.history →
      (HasObject (AvatarStorage.objectKey name) c.world.store ↔ HasPhoto u name c.world.store)) ↔
        ReplacedFound u c.world.history := by
  have hreached : FileReached cx fails s c := hc.mono fun _ _ ↦ trivial
  have htaken : ∀ name, TakenOver u name c.world.history →
      FoundAndReplaced u name c.world.history := by
    rintro name (hfound | ⟨x, hx, hreads, a, ha, htid, hdone⟩)
    · exact hfound
    obtain ⟨i, k, b, rfl, -⟩ : IsAct (.reads u (some name)) x := hreads ▸ isAct x
    obtain ⟨hallowed, -⟩ := hc.ran_only (S := fun _ _ ↦ True) (fun _ _ ↦ only_true _) i k _ b hx
    unfold deletionDone at hdone
    split at hdone
    next j caller id response b' =>
      obtain rfl : k = .deleteUser caller id := hreached.request_eq hx ha htid.symm
      cases hallowed
    next => cases hdone
  have hiff : ∀ name, PhotoOf u name s c.world.history →
      (HasObject (AvatarStorage.objectKey name) c.world.store ↔
        Named u name s c.world.history ∧ ¬FoundAndReplaced u name c.world.history) := by
    intro name hphoto
    rw [object_iff hreached hfresh hstart hsure hnames hanswered hphoto]
    exact and_congr_right fun _ ↦ not_congr ⟨htaken name, .inl⟩
  constructor
  · intro honly e he name hphoto hreplaced
    by_contra hnot
    have hnamed := named_at hreached he hphoto
    have hof := photoOf_of_named hreached hnamed
    have hlast : HasPhoto u name c.world.store :=
      (honly name hof).mp ((hiff name hof).mpr ⟨hnamed, hnot⟩)
    obtain ⟨later, earlier, hhist⟩ := List.append_of_mem he
    obtain ⟨photo, hact, hne⟩ := hreplaced
    obtain ⟨i, k, b, rfl⟩ : IsAct (.updates u photo) e := hact ▸ isAct e
    exact photo_gone hreached hfresh hhist ⟨_, List.mem_cons_self, hphoto⟩
      (ends_photo_of_update hne)
      hlast
  · intro hfound name hof
    rw [hiff name hof]
    constructor
    · rintro ⟨hnamed, hnot⟩
      by_contra hgone
      obtain ⟨e, he, hphoto, hreplaced⟩ := replaced_of_named hreached hnamed hgone hstart.account
      exact hnot (hfound e he name hphoto hreplaced)
    · intro hlast
      exact ⟨named_of_photo hreached hlast, fun h ↦ photo_gone_of_found hreached hfresh h hlast⟩

namespace FileSample

theorem photosStored : PhotosStored 1 start where
  account := rfl
  stored name h := by cases h
  distinct u' u'' name h _ := by
    obtain ⟨row, hrow, hkey⟩ := Option.bind_eq_some_iff.mp h
    exact absurd hkey (by simp [noPhotos row (Relational.Table.mem_of_get? hrow)])
  noMedia m hm := by cases hm

end FileSample

theorem only_photo_after_removal :
    ∃ c, Reachable (fileMachine FileSample.context.toContext fun _ ↦ false)
        (handleFile FileSample.context) (fun k ↦ k.isDeletion = false) FileSample.start c ∧
      AllAnswered c.world.history ∧
      ∀ name, PhotoOf 1 name FileSample.start c.world.history →
        (HasObject (AvatarStorage.objectKey name) c.world.store ↔
          HasPhoto 1 name c.world.store) := by
  let first : String := AvatarStorage.newName FileSample.context.toContext 0
  let test : FileConfig → Bool := fun c ↦
    decide (c.world.store.draws = 1) &&
    c.world.history.all
      (fun e ↦ c.world.history.any fun a ↦ decide (a.tid = e.tid) && a.isAnswer) &&
    c.world.history.all (fun e ↦ decide (photoColumn 1 e.store ∈ [none, some first])) &&
    c.world.history.any (fun x ↦ decide (x.tid = 1 ∧ fileAct x = .selects 1 (some first))) &&
    c.world.history.any fun y ↦ decide (y.tid = 1 ∧ fileAct y = .updates 1 none)
  obtain ⟨c, hc, htest⟩ : ∃ c, Reachable (fileMachine FileSample.context.toContext fun _ ↦ false)
      (handleFile FileSample.context) (fun k ↦ k.isDeletion = false) FileSample.start c ∧
      test c = true :=
    Reachable.of_schedule (FileSample.alone 0 FileSample.setAvatar 7 ++
      FileSample.alone 1 FileSample.removeAvatar 6) test (by decide) (by decide)
  simp only [test, Bool.and_eq_true, decide_eq_true_eq, List.all_eq_true, List.any_eq_true] at htest
  obtain ⟨⟨⟨⟨hdraws, hanswered⟩, hphotos⟩, ⟨x, hx, htidx, hselects⟩⟩, y, hy, htidy, hupdates⟩ :=
    htest
  have hfound : FoundAndReplaced 1 first c.world.history :=
    ⟨x, hx, hselects, y, hy, htidy.trans htidx.symm, none, hupdates⟩
  refine ⟨c, hc, hanswered, (only_photo_iff hc (FileSample.freshKeys (by omega)) (fun n hn ↦ ?_)
    (fun _ ↦ rfl) FileSample.photosStored hanswered).mpr ?_⟩
  · exact FileSample.isValidName_newName n (by omega)
  · intro e he name hphoto _
    have hname : name = first := by
      have hcolumn := hphotos e he
      rw [show photoColumn 1 e.store = some name from hphoto] at hcolumn
      simpa using hcolumn
    rw [hname]
    exact hfound

/-- Two requests both find no photo: the one stored first stays when the other is written. -/
theorem overlooked_photo_stays :
    ∃ c name, Reachable (fileMachine FileSample.context.toContext fun _ ↦ false)
        (handleFile FileSample.context) (fun k ↦ k.changesPhoto = true) FileSample.start c ∧
      AllAnswered c.world.history ∧ PhotoOf 1 name FileSample.start c.world.history ∧
      HasObject (AvatarStorage.objectKey name) c.world.store ∧ ¬HasPhoto 1 name c.world.store := by
  let first : String := AvatarStorage.newName FileSample.context.toContext 0
  let test : FileConfig → Bool := fun c ↦
    c.world.history.all
      (fun e ↦ c.world.history.any fun a ↦ decide (a.tid = e.tid) && a.isAnswer) &&
    c.world.history.any (fun e ↦ decide (e.tid = 0 ∧
      fileAct e = .puts (AvatarStorage.objectKey first))) &&
    c.world.history.any (fun r ↦ decide (r.tid = 0 ∧ fileAct r = .reads 1 none)) &&
    (c.world.store.objects (AvatarStorage.objectKey first)).isSome &&
    decide (photoColumn 1 c.world.store ≠ some first)
  obtain ⟨c, hc, htest⟩ : ∃ c, Reachable (fileMachine FileSample.context.toContext fun _ ↦ false)
      (handleFile FileSample.context) (fun k ↦ k.changesPhoto = true) FileSample.start c ∧
      test c = true :=
    Reachable.of_schedule (.start FileSample.setAvatar :: .start FileSample.setAvatar ::
      List.replicate 5 (.run 0) ++ List.replicate 5 (.run 1) ++
        [.run 0, .run 0, .answer 0, .run 1, .run 1, .answer 1]) test (by decide) (by decide)
  simp only [test, Bool.and_eq_true, decide_eq_true_eq, List.all_eq_true, List.any_eq_true] at htest
  obtain ⟨⟨⟨⟨hanswered, ⟨e, he, htide, hputs⟩⟩, r, hr, htidr, hreads⟩, hobject⟩, hphoto⟩ := htest
  exact ⟨c, first, hc, hanswered, .inr ⟨e, he, hputs, r, hr, htidr.trans htide.symm, none, hreads⟩,
    hobject, hphoto⟩

end ApiStarter
