/-!
# Attempts

An **attempt** is an operation that may fail and that leaves a state behind either
way: what it has changed before it failed stays changed. It is a function of the
state, so that its laws are equations.

A `SiteConfig.Cell` is a part of a larger state that can be read and replaced; the
operations of a component are written against the cell that holds its part.
-/

namespace SiteConfig

/-- An operation on a state that gives a value or fails, and the state after it. -/
def Attempt (σ ε α : Type) : Type := σ → Except ε α × σ

namespace Attempt

variable {σ τ ε ε' α β : Type}

/-- Gives a value and changes nothing. -/
def succeed (a : α) : Attempt σ ε α := fun s => (.ok a, s)

/-- Fails and changes nothing. -/
def fail (e : ε) : Attempt σ ε α := fun s => (.error e, s)

/-- Goes on with the value of an attempt, unless that failed. -/
def andThen (x : Attempt σ ε α) (f : α → Attempt σ ε β) : Attempt σ ε β := fun s =>
  match x s with
  | (.ok a, s) => f a s
  | (.error e, s) => (.error e, s)

instance : Monad (Attempt σ ε) where
  pure := succeed
  bind := andThen

/-- Goes on after a failure, in the state that it left. -/
def recover (x : Attempt σ ε α) (f : ε → Attempt σ ε' α) : Attempt σ ε' α := fun s =>
  match x s with
  | (.ok a, s) => (.ok a, s)
  | (.error e, s) => f e s

instance : MonadExceptOf ε (Attempt σ ε) where
  throw := fail
  tryCatch x f := x.recover f

/-- The outcome of an attempt as a value. -/
def outcome (x : Attempt σ ε α) : StateM σ (Except ε α) := x

/-- An operation that cannot fail. -/
def always (x : StateM σ α) : Attempt σ ε α := fun s =>
  let (a, s) := x s
  (.ok a, s)

/-- A value or an error that is there already. -/
def ofExcept (x : Except ε α) : Attempt σ ε α := fun s => (x, s)

/-- The state as it is. -/
def state : Attempt σ ε σ := fun s => (.ok s, s)

/-- Changes the state. -/
def change (f : σ → σ) : Attempt σ ε Unit := fun s => (.ok (), f s)

/-- The same attempt with its error seen otherwise. -/
def mapError (f : ε → ε') (x : Attempt σ ε α) : Attempt σ ε' α := x.recover fun e => fail (f e)

theorem bind_apply (x : Attempt σ ε α) (f : α → Attempt σ ε β) (s : σ) :
    (x >>= f) s = match x s with
      | (.ok a, s) => f a s
      | (.error e, s) => (.error e, s) := rfl

instance : LawfulMonad (Attempt σ ε) :=
  LawfulMonad.mk' _
    (fun x => by
      funext s
      show andThen x (fun a => succeed a) s = x s
      unfold andThen succeed
      rcases x s with ⟨_ | _, _⟩ <;> rfl)
    (fun _ _ => rfl)
    (fun x f g => by
      funext s
      show andThen (andThen x f) g s = andThen x (fun a => andThen (f a) g) s
      unfold andThen
      rcases x s with ⟨_ | _, _⟩ <;> rfl)

end Attempt

/-! ### Parts of a state -/

/-- A part of a state. -/
structure Cell (σ α : Type) where
  get : σ → α
  set : α → σ → σ

namespace Cell

variable {σ ε α β : Type}

/-- What the part is. -/
def read (c : Cell σ α) : Attempt σ ε α := fun s => (.ok (c.get s), s)

/-- Changes the part. -/
def modify (c : Cell σ α) (f : α → α) : Attempt σ ε Unit := fun s =>
  (.ok (), c.set (f (c.get s)) s)

/-- Runs an attempt on the part alone. -/
def zoom (c : Cell σ α) (x : Attempt α ε β) : Attempt σ ε β := fun s =>
  let (r, a) := x (c.get s)
  (r, c.set a s)

/-- A part of a part. -/
def within {τ : Type} (c : Cell σ τ) (d : Cell τ α) : Cell σ α :=
  ⟨fun s => d.get (c.get s), fun a s => c.set (d.set a (c.get s)) s⟩

/-- A part that always is the same; changes of it are lost. -/
def constant (a : α) : Cell σ α := ⟨fun _ => a, fun _ s => s⟩

/-- The first of two parts. -/
def first {ρ : Type} : Cell (ρ × σ) ρ := ⟨Prod.fst, fun r s => (r, s.2)⟩

/-- The second of two parts. -/
def second {ρ : Type} : Cell (ρ × σ) σ := ⟨Prod.snd, fun s r => (r.1, s)⟩

end Cell

end SiteConfig
