import ApiStarter.Calls

/-!
# An active administrator remains

Every change that could remove an administrator counts the others inside its
own transaction, except the deletion of an account that was no active
administrator when the request read it.
-/

namespace ApiStarter

open Interleave Interleave.Prog Relational

def activeAdmins (db : Db) : ℕ := db.users.countWhere User.isActiveAdmin

theorem activeAdmins_pos {db : Db} :
    0 < activeAdmins db ↔ ∃ u ∈ db.users, u.isActiveAdmin = true := Table.countWhere_pos

/-! ## One statement -/

/-- The statement counts the other administrators itself or removes none. -/
def UsersSql.SparesAdmins (users : Table User.id) : UsersSql → Prop
  | .update _ patch guard => guard = false → patch.removesAdmin = false
  | .softDelete id guard => guard = false → ∀ u, users.get? id = some u → u.isActiveAdmin = false
  | _ => True

theorem UserPatch.isActiveAdmin_apply {patch : UserPatch} {now : Time} {u : User}
    (hpatch : patch.removesAdmin = false) (hu : u.isActiveAdmin = true) :
    (patch.apply now u).isActiveAdmin = true := by
  obtain ⟨name, role, active⟩ := patch
  simp only [UserPatch.removesAdmin, Bool.or_eq_false_iff, decide_eq_false_iff_not] at hpatch
  simp only [User.isActiveAdmin, Role.isAdmin, User.isLive, Bool.and_eq_true, decide_eq_true_eq,
    UserPatch.apply] at hu ⊢
  obtain ⟨⟨hrole, hactive⟩, hlive⟩ := hu
  refine ⟨⟨?_, ?_⟩, hlive⟩
  · rcases role with _ | _ | _ <;> simp_all
  · rcases active with _ | _ | _ <;> simp_all

section Table

variable {users : Table User.id}

/-- An update that leaves some administrator alone. -/
theorem exists_admin_updateWhere {p : User → Bool} {f : User → User}
    {hf : ∀ u, (f u).id = u.id} {u : User} (hu : u ∈ users) (hadmin : u.isActiveAdmin = true)
    (hkeep : p u = true → (f u).isActiveAdmin = true) :
    ∃ u ∈ users.updateWhere p f hf, u.isActiveAdmin = true := by
  by_cases hp : p u = true
  · exact ⟨f u, Table.mem_updateWhere.mpr ⟨u, hu, if_pos hp⟩, hkeep hp⟩
  · exact ⟨u, Table.mem_updateWhere.mpr ⟨u, hu, if_neg hp⟩, hadmin⟩

/-- Where others were counted, one of them is not touched. -/
theorem exists_admin_of_guarded {id : Uuid} {f : User → User} {hf : ∀ u, (f u).id = u.id}
    (hothers : otherActiveAdmins users id ≠ 0) :
    ∃ u ∈ users.updateWhere (liveId id) f hf, u.isActiveAdmin = true := by
  obtain ⟨u, hu, hboth⟩ := Table.countWhere_pos.mp (Nat.pos_of_ne_zero hothers)
  simp only [Bool.and_eq_true, decide_eq_true_eq] at hboth
  exact exists_admin_updateWhere hu hboth.1 fun hp ↦ by simp [liveId, hboth.2] at hp

theorem UsersSql.exists_admin_run {now : Time} {q : UsersSql} (hq : q.SparesAdmins users)
    (h : ∃ u ∈ users, u.isActiveAdmin = true) :
    ∃ u ∈ (q.run now users).2, u.isActiveAdmin = true := by
  obtain ⟨u, hu, hadmin⟩ := h
  cases q with
  | create id new =>
      simp only [UsersSql.run]
      split
      · exact ⟨u, hu, hadmin⟩
      · split
        · exact ⟨u, hu, hadmin⟩
        · next hinsert => exact ⟨u, (Table.mem_insert? hinsert).mpr (.inl hu), hadmin⟩
  | update id patch guard =>
      simp only [UsersSql.run]
      split
      · exact ⟨u, hu, hadmin⟩
      · next hcount =>
        dsimp only
        cases guard with
        | true => exact exists_admin_of_guarded (by simpa using hcount)
        | false => exact exists_admin_updateWhere hu hadmin fun _ ↦
            UserPatch.isActiveAdmin_apply (hq rfl) hadmin
  | softDelete id guard =>
      simp only [UsersSql.run]
      split
      · exact ⟨u, hu, hadmin⟩
      · next hcount =>
        dsimp only
        cases guard with
        | true => exact exists_admin_of_guarded (by simpa using hcount)
        | false =>
            refine exists_admin_updateWhere hu hadmin fun hp ↦ ?_
            have hid : u.id = id := by simpa [liveId] using ((Bool.and_eq_true _ _).mp hp).1
            simp [hq rfl u (hid ▸ Table.get?_of_mem hu)] at hadmin
  | changeEmail id newEmail =>
      simp only [UsersSql.run]
      split
      · exact ⟨u, hu, hadmin⟩
      · dsimp only
        exact exists_admin_updateWhere hu hadmin fun _ ↦ hadmin
  | findByEmail email => exact ⟨u, hu, hadmin⟩
  | findById id => exact ⟨u, hu, hadmin⟩
  | countActiveAdmins => exact ⟨u, hu, hadmin⟩
  | _ =>
      -- the columns the other statements write play no part
      simp only [UsersSql.run]
      exact exists_admin_updateWhere hu hadmin fun _ ↦ hadmin

end Table

/-! ## All runs -/

/-- Unguarded updates are those whose patch removes no administrator. -/
def GuardsRemovals : Statement → Prop
  | .sql (.users (.update _ patch guard)) => guard = false → patch.removesAdmin = false
  | _ => True

theorem guardsRemovals_of_effect {q : Statement} (hq : q.effect ≠ .adminChange) :
    GuardsRemovals q := by
  unfold GuardsRemovals
  split
  · simp at hq
  · trivial

theorem handle_guardsRemovals (cx : Context) (k : Request) : (handle cx k).Only GuardsRemovals := by
  have hNone : ∀ q : Statement, q.effect = .none → GuardsRemovals q := fun q hq ↦
    guardsRemovals_of_effect (by simp [hq])
  by_cases hk : Effect.adminChange ∈ k.effects
  · cases k with
    | updateUser caller id dto =>
        refine .bind (only_adminUser hNone _ _) fun _ ↦ .bind ?_ fun _ ↦ trivial
        exact only_update hNone fun patch hpatch ↦ hpatch
    | deleteUser caller id =>
        refine .bind (only_adminUser hNone _ _) fun _ ↦ .bind ?_ fun _ ↦ trivial
        exact only_delete hNone fun _ ↦ trivial
    | updateProfile caller name =>
        refine .bind (only_authUser hNone _ _) fun _ ↦ .bind ?_ fun _ ↦ trivial
        exact only_updateProfile fun _ ↦ by simp [UserPatch.removesAdmin]
    | _ => simp at hk
  · refine handle_only k fun q hq ↦ guardsRemovals_of_effect fun h ↦ hk ?_
    simpa [h] using hq

/-- A deletion that does not count the other administrators finds an account that is no
active administrator when it is written. -/
def sparesAdmins : AppEvent → Bool
  | .ran _ _ (.sql (.users (.softDelete id false))) before =>
      (before.db.users.get? id).all fun u ↦ !u.isActiveAdmin
  | _ => true

theorem active_admin_remains {cx : Context} {s : Server} {c : AppConfig} (hc : Reached cx s c)
    (hs : 0 < activeAdmins s.db) (hspare : ∀ e ∈ c.world.history, sparesAdmins e = true) :
    0 < activeAdmins c.world.store.db := by
  let D : AppDiscipline :=
    { Inv := fun W ↦ (∀ e ∈ W.history, sparesAdmins e = true) → 0 < activeAdmins W.store.db
      Rely := fun _ _ ↦ True
      refl := fun _ ↦ trivial
      trans := fun _ _ ↦ trivial }
  refine hc.invariant (D := D) (fun _ ↦ hs) (fun k _ ↦ ?_) (fun _ _ hW ↦ ⟨hW, trivial⟩) hspare
  refine Handles.of_only (handle_guardsRemovals cx k) (fun q hq i W hW ↦ ⟨fun hspare ↦ ?_, trivial⟩)
    fun a i W hW ↦ ⟨fun hspare ↦ hW fun e he ↦ hspare e (List.mem_cons_of_mem _ he), trivial⟩
  have hbefore : 0 < activeAdmins W.store.db :=
    hW fun e he ↦ hspare e (List.mem_cons_of_mem _ he)
  have hnow : sparesAdmins (.ran i k q W.store) = true := hspare _ List.mem_cons_self
  cases q with
  | sql q =>
      cases q with
      | users q =>
          refine activeAdmins_pos.mpr (UsersSql.exists_admin_run ?_ (activeAdmins_pos.mp hbefore))
          cases q with
          | update id patch guard => exact hq
          | softDelete id guard =>
              rintro rfl u hu
              simpa [sparesAdmins, hu] using hnow
          | _ => trivial
      | _ => exact hbefore
  | _ => exact hbefore

/-! ## A deletion that read its target too early -/

/-- Administrator requests and account creations. -/
def Request.managesUsers : Request → Bool
  | .createUser .. | .updateUser .. | .deleteUser .. | .register .. | .inviteUser .. => true
  | _ => false

namespace StaleDeletion

open Sample

/-- An administrator, account 1, and a plain user, account 2. -/
def start : Server :=
  server ⟨[account 1 "ada@example.com" .admin, account 2 "bob@example.com" .user], by decide⟩

/-- Ada's deletion of Bob reads him as a plain user; she promotes him; he deactivates her,
counting himself; the deletion goes through without counting. -/
def schedule : List (Action Request ℕ) :=
  [.start (.deleteUser (bearer 1 .admin) 2), .run 0, .run 0, .run 0] ++
    alone 1 (.updateUser (bearer 1 .admin) 2 ⟨none, some .admin, none⟩) 5 ++
    alone 2 (.updateUser (bearer 2 .user) 1 ⟨none, none, some false⟩) 5 ++ [.run 0]

/-- The same deletion with nothing in between. -/
def undisturbed : List (Action Request ℕ) := alone 0 (.deleteUser (bearer 1 .admin) 2) 5

end StaleDeletion

theorem active_admin_remains_undisturbed :
    ∃ c, Reached .sample StaleDeletion.start c ∧ 0 < activeAdmins c.world.store.db := by
  obtain ⟨c, hc, hspare⟩ : ∃ c, Reached .sample StaleDeletion.start c ∧
      c.world.history.all sparesAdmins = true :=
    Reachable.of_schedule StaleDeletion.undisturbed
      (fun c : AppConfig ↦ c.world.history.all sparesAdmins) (by decide) (by decide)
  exact ⟨c, hc, active_admin_remains hc (by decide) (by simpa using hspare)⟩

theorem last_active_admin_can_be_deleted :
    ¬∀ (cx : Context) (s : Server) (c : AppConfig),
      Reachable (machine cx) (handle cx) (fun k ↦ k.managesUsers = true) s c →
        0 < activeAdmins s.db → 0 < activeAdmins c.world.store.db := by
  intro h
  obtain ⟨c, hc, hnone⟩ : ∃ c, Reachable (machine .sample) (handle .sample)
      (fun k ↦ k.managesUsers = true) StaleDeletion.start c ∧
        decide (activeAdmins c.world.store.db = 0) = true :=
    Reachable.of_schedule StaleDeletion.schedule
      (fun c : AppConfig ↦ decide (activeAdmins c.world.store.db = 0)) (by decide) (by decide)
  have hpos := h .sample _ c hc (by decide)
  simp only [decide_eq_true_eq] at hnone
  omega

end ApiStarter
