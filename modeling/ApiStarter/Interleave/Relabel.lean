import ApiStarter.Interleave.Histories

/-!
# Runs under other labels

A request may carry what its handler never looks at, such as who sent it.  A run
stays a run when every request is replaced by one with the same handler.
-/

namespace Interleave

variable {ι σ κ κ' η ε α : Type} {Res : ι → Type}

/-- The event with the request of thread `i` replaced by `f i` of it. -/
def Event.relabel (f : ℕ → κ → κ') : Event ι σ κ ε α → Event ι σ κ' ε α
  | ran i k q s => ran i (f i k) q s
  | answered i k a s => answered i (f i k) a s

def World.relabel (f : ℕ → κ → κ') (W : World ι σ κ ε α) : World ι σ κ' ε α :=
  ⟨W.store, W.history.map (Event.relabel f)⟩

def Config.relabel (f : ℕ → κ → κ') (c : Config Res σ κ ε α) : Config Res σ κ' ε α :=
  ⟨c.world.relabel f, c.pool.mapIdx fun i t ↦ ⟨f i t.request, t.rest⟩⟩

variable {f : ℕ → κ → κ'} {c c' : Config Res σ κ ε α}

@[simp] theorem Event.tid_relabel (e : Event ι σ κ ε α) : (e.relabel f).tid = e.tid := by
  cases e <;> rfl

@[simp] theorem Config.relabel_store (c : Config Res σ κ ε α) :
    (c.relabel f).world.store = c.world.store := rfl

@[simp] theorem Config.relabel_history (c : Config Res σ κ ε α) :
    (c.relabel f).world.history = c.world.history.map (Event.relabel f) := rfl

theorem Config.relabel_getElem? {i : ℕ} {k : κ} {p : Option (Prog Res ε α)}
    (h : c.pool[i]? = some ⟨k, p⟩) : (c.relabel f).pool[i]? = some ⟨f i k, p⟩ := by
  simp [Config.relabel, h]

theorem Config.relabel_setRest (i : ℕ) (k : κ) (p : Option (Prog Res ε α)) (W : World ι σ κ ε α) :
    (c.setRest i k p W).relabel f = (c.relabel f).setRest i (f i k) p (W.relabel f) := by
  simp [Config.relabel, Config.setRest, List.mapIdx_set]

theorem World.relabel_split {W : World ι σ κ ε α} {later earlier : List (Event ι σ κ ε α)}
    {e : Event ι σ κ ε α} (h : W.history = later ++ e :: earlier) :
    (W.relabel f).history =
      later.map (Event.relabel f) ++ e.relabel f :: earlier.map (Event.relabel f) := by
  rw [World.relabel, h, List.map_append, List.map_cons]

theorem Event.ran_mem_relabel {h : List (Event ι σ κ ε α)} {i : ℕ} {k' : κ'} {q : ι} {s : σ} :
    .ran i k' q s ∈ h.map (Event.relabel f) ↔ ∃ k, .ran i k q s ∈ h ∧ f i k = k' := by
  constructor
  · intro hmem
    obtain ⟨e, he, hlabel⟩ := List.mem_map.mp hmem
    cases e with
    | answered => cases hlabel
    | ran j k q' s' =>
        obtain ⟨rfl, hk, rfl, rfl⟩ := Event.ran.inj hlabel
        exact ⟨k, he, hk⟩
  · rintro ⟨k, hk, rfl⟩
    exact List.mem_map_of_mem hk

theorem Event.answered_mem_relabel {h : List (Event ι σ κ ε α)} {i : ℕ} {k : κ}
    {a : Except ε α} {s : σ} (hmem : .answered i k a s ∈ h) :
    .answered i (f i k) a s ∈ h.map (Event.relabel f) :=
  List.mem_map_of_mem hmem

/-- The same step, of requests under other labels. -/
def Action.relabel (f : ℕ → κ → κ') (c : Config Res σ κ ε α) : Action κ η → Action κ' η
  | .start k => .start (f c.pool.length k)
  | .run i => .run i
  | .fault i => .fault i
  | .answer i => .answer i
  | .cut i => .cut i
  | .env x => .env x

variable {M : Machine Res σ η} {handle : κ → Prog Res ε α} {handle' : κ' → Prog Res ε α}
  {allowed : κ → Prop} {allowed' : κ' → Prop} {s : σ}

theorem Config.perform_relabel (hhandle : ∀ i k, handle' (f i k) = handle k) {a : Action κ η}
    (h : c.perform M handle a = some c') :
    (c.relabel f).perform M handle' (a.relabel f c) = some (c'.relabel f) := by
  rcases Config.perform_cases h with ⟨k, rfl, rfl⟩ | ⟨i, k, q, next, rfl, hi, rfl⟩ |
    ⟨i, k, q, next, r, rfl, hi, hr, rfl⟩ | ⟨i, k, rfl, ⟨b, hi, rfl⟩ | ⟨e, hi, rfl⟩⟩ |
    ⟨i, k, p, rfl, hi, rfl⟩ | ⟨x, rfl, rfl⟩
  · simp [Config.perform, Config.relabel, Action.relabel, hhandle]
  · simp only [Config.perform, Action.relabel, Config.relabel_getElem? hi, Config.relabel_setRest]
    rfl
  · simp only [Config.perform, Action.relabel, Config.relabel_getElem? hi, Config.relabel_setRest,
      hr]
    rfl
  · simp only [Config.perform, Action.relabel, Config.relabel_getElem? hi, Config.relabel_setRest]
    rfl
  · simp only [Config.perform, Action.relabel, Config.relabel_getElem? hi, Config.relabel_setRest]
    rfl
  · simp only [Config.perform, Action.relabel, Config.relabel_getElem? hi, Config.relabel_setRest]
    rfl
  · rfl

/-- What no handler looks at can be anything. -/
theorem Reachable.relabel (hc : Reachable M handle allowed s c)
    (hhandle : ∀ i k, handle' (f i k) = handle k)
    (hallowed : ∀ i k, allowed k → allowed' (f i k)) :
    Reachable M handle' allowed' s (c.relabel f) := by
  induction hc with
  | initial => exact .initial
  | @step c c' a _ ha h ih =>
      refine ih.step (a.relabel f c) ?_ (Config.perform_relabel hhandle h)
      cases a with
      | start k => exact hallowed _ _ ha
      | _ => trivial

end Interleave
