import Mathlib.Logic.Basic

/-!
# Programs made of atomic statements

A request handler is a tree of statements against a shared store.  Each
statement names what it asks for (`q : ι`) and the continuation receives the
typed answer (`Res q`); everything between two statements is local and takes no
step of its own.
-/

namespace Interleave

/-- A handler that may answer with `α`, fail with `ε`, or run one more statement. -/
inductive Prog {ι : Type} (Res : ι → Type) (ε α : Type) : Type
  | ret (a : α)
  | fail (e : ε)
  | stmt (q : ι) (next : Res q → Prog Res ε α)

namespace Prog

variable {ι : Type} {Res : ι → Type} {ε ε' α β γ : Type}

def bind : Prog Res ε α → (α → Prog Res ε β) → Prog Res ε β
  | ret a, f => f a
  | fail e, _ => fail e
  | stmt q next, f => stmt q fun r ↦ (next r).bind f

/-- Run to the end and hand the outcome, success or failure, to `f`. -/
def bindBoth : Prog Res ε α → (Except ε α → Prog Res ε' β) → Prog Res ε' β
  | ret a, f => f (.ok a)
  | fail e, f => f (.error e)
  | stmt q next, f => stmt q fun r ↦ (next r).bindBoth f

instance : Monad (Prog Res ε) where
  pure := ret
  bind := bind

instance : MonadExceptOf ε (Prog Res ε) where
  throw := fail
  tryCatch p f := p.bindBoth fun
    | .ok a => ret a
    | .error e => f e

/-- The statement the program stands before. -/
def head? : Prog Res ε α → Option ι
  | stmt q _ => some q
  | _ => none

/-- A single statement. -/
def ask (q : ι) : Prog Res ε (Res q) := stmt q ret

/-- The outcome of `p` as a value: what swallowing or logging an error does. -/
def attempt (p : Prog Res ε α) : Prog Res ε' (Except ε α) := p.bindBoth ret

def mapErr (f : ε → ε') (p : Prog Res ε α) : Prog Res ε' α := p.bindBoth fun
  | .ok a => ret a
  | .error e => fail (f e)

/-- The same program where there are more statements. -/
def lift {ι' : Type} {Res' : ι' → Type} (f : ι → ι') (answer : ∀ q, Res' (f q) → Res q) :
    Prog Res ε α → Prog Res' ε α
  | ret a => ret a
  | fail e => fail e
  | stmt q next => stmt (f q) fun r ↦ (next (answer q r)).lift f answer

/-- `ok_or(e)?` -/
def okOr (e : ε) : Option α → Prog Res ε α
  | some a => ret a
  | none => fail e

/-- `if !c { return Err(e) }` -/
def ensure (c : Prop) [Decidable c] (e : ε) : Prog Res ε Unit := if c then ret () else fail e

@[simp] theorem pure_eq (a : α) : (pure a : Prog Res ε α) = ret a := rfl
@[simp] theorem throw_eq (e : ε) : (throw e : Prog Res ε α) = fail e := rfl

@[simp] theorem ret_bind (a : α) (f : α → Prog Res ε β) : (ret a >>= f) = f a := rfl
@[simp] theorem fail_bind (e : ε) (f : α → Prog Res ε β) :
    ((fail e : Prog Res ε α) >>= f) = fail e := rfl
@[simp] theorem stmt_bind (q : ι) (next : Res q → Prog Res ε α) (f : α → Prog Res ε β) :
    (stmt q next >>= f) = stmt q fun r ↦ next r >>= f := rfl

@[simp] theorem ask_bind (q : ι) (f : Res q → Prog Res ε β) :
    ((ask q : Prog Res ε (Res q)) >>= f) = stmt q f := rfl

theorem bind_assoc (p : Prog Res ε α) (f : α → Prog Res ε β) (g : β → Prog Res ε γ) :
    (p >>= f) >>= g = p >>= fun a ↦ f a >>= g := by
  induction p with
  | ret a => rfl
  | fail e => rfl
  | stmt q next ih => simp only [stmt_bind, ih]

theorem bind_ret (p : Prog Res ε α) : (p >>= ret) = p := by
  induction p with
  | ret a => rfl
  | fail e => rfl
  | stmt q next ih => simp only [stmt_bind, ih]

@[simp] theorem okOr_some (e : ε) (a : α) : (okOr e (some a) : Prog Res ε α) = ret a := rfl
@[simp] theorem okOr_none (e : ε) : (okOr e (none : Option α) : Prog Res ε α) = fail e := rfl

/-! ## Statements a program can run -/

/-- Every statement `p` can ever run satisfies `S`, whatever the answers are. -/
def Only (S : ι → Prop) : Prog Res ε α → Prop
  | ret _ => True
  | fail _ => True
  | stmt q next => S q ∧ ∀ r, (next r).Only S

variable {S : ι → Prop}

@[simp] theorem only_ret (a : α) : (ret a : Prog Res ε α).Only S := trivial
@[simp] theorem only_fail (e : ε) : (fail e : Prog Res ε α).Only S := trivial
@[simp] theorem only_stmt (q : ι) (next : Res q → Prog Res ε α) :
    (stmt q next).Only S ↔ S q ∧ ∀ r, (next r).Only S := Iff.rfl

theorem Only.bind {p : Prog Res ε α} {f : α → Prog Res ε β}
    (hp : p.Only S) (hf : ∀ a, (f a).Only S) : (p >>= f).Only S := by
  induction p with
  | ret a => exact hf a
  | fail e => trivial
  | stmt q next ih => exact ⟨hp.1, fun r ↦ ih r (hp.2 r)⟩

theorem Only.bindBoth {p : Prog Res ε α} {f : Except ε α → Prog Res ε' β}
    (hp : p.Only S) (hf : ∀ a, (f a).Only S) : (p.bindBoth f).Only S := by
  induction p with
  | ret a => exact hf (.ok a)
  | fail e => exact hf (.error e)
  | stmt q next ih => exact ⟨hp.1, fun r ↦ ih r (hp.2 r)⟩

theorem only_true (p : Prog Res ε α) : p.Only fun _ ↦ True := by
  induction p with
  | ret a => trivial
  | fail e => trivial
  | stmt q next ih => exact ⟨trivial, ih⟩

theorem Only.mono {T : ι → Prop} {p : Prog Res ε α} (hp : p.Only S)
    (h : ∀ q, S q → T q) : p.Only T := by
  induction p with
  | ret a => trivial
  | fail e => trivial
  | stmt q next ih => exact ⟨h q hp.1, fun r ↦ ih r (hp.2 r)⟩

@[simp] theorem only_ask (q : ι) : (ask q : Prog Res ε (Res q)).Only S ↔ S q := by
  simp [ask]

@[simp] theorem only_okOr (e : ε) (o : Option α) : (okOr e o : Prog Res ε α).Only S := by
  cases o <;> trivial

@[simp] theorem only_ensure (c : Prop) [Decidable c] (e : ε) :
    (ensure c e : Prog Res ε Unit).Only S := by
  unfold ensure
  split <;> trivial

theorem only_ite {c : Prop} [Decidable c] {p p' : Prog Res ε α} :
    (if c then p else p').Only S ↔ (c → p.Only S) ∧ (¬c → p'.Only S) := by
  by_cases h : c <;> simp [h]

theorem Only.attempt {p : Prog Res ε α} (hp : p.Only S) :
    (p.attempt : Prog Res ε' (Except ε α)).Only S :=
  hp.bindBoth fun _ ↦ trivial

theorem Only.mapErr {f : ε → ε'} {p : Prog Res ε α} (hp : p.Only S) : (p.mapErr f).Only S :=
  hp.bindBoth fun r ↦ by cases r <;> trivial

theorem Only.lift {ι' : Type} {Res' : ι' → Type} {f : ι → ι'} {answer : ∀ q, Res' (f q) → Res q}
    {T : ι' → Prop} {p : Prog Res ε α} (hp : p.Only fun q ↦ T (f q)) :
    (p.lift f answer).Only T := by
  induction p with
  | ret a => trivial
  | fail e => trivial
  | stmt q next ih => exact ⟨hp.1, fun r ↦ ih _ (hp.2 _)⟩

/-! ## Answers a program can return -/

/-- Whatever the statements answer, a value that `p` returns satisfies `P`. -/
def Returns (P : α → Prop) : Prog Res ε α → Prop
  | ret a => P a
  | fail _ => True
  | stmt _ next => ∀ r, (next r).Returns P

variable {P : α → Prop} {P' : β → Prop}

@[simp] theorem returns_ret (a : α) : (ret a : Prog Res ε α).Returns P ↔ P a := Iff.rfl
@[simp] theorem returns_fail (e : ε) : (fail e : Prog Res ε α).Returns P := trivial

theorem Returns.bind {p : Prog Res ε α} {f : α → Prog Res ε β} (hp : p.Returns P)
    (hf : ∀ a, P a → (f a).Returns P') : (p >>= f).Returns P' := by
  induction p with
  | ret a => exact hf a hp
  | fail e => trivial
  | stmt q next ih => exact fun r ↦ ih r (hp r)

theorem returns_true (p : Prog Res ε α) : p.Returns fun _ ↦ True := by
  induction p with
  | ret a => trivial
  | fail e => trivial
  | stmt q next ih => exact ih

theorem returns_bind {p : Prog Res ε α} {f : α → Prog Res ε β} (hf : ∀ a, (f a).Returns P') :
    (p >>= f).Returns P' := (returns_true p).bind fun a _ ↦ hf a

theorem returns_ensure (c : Prop) [Decidable c] (e : ε) :
    (ensure c e : Prog Res ε Unit).Returns fun _ ↦ c := by
  unfold ensure
  split
  · assumption
  · trivial

end Prog

end Interleave
