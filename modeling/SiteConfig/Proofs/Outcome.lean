import Mathlib
import SiteConfig.Attempt

/-!
# What attempts come to

An attempt is judged by its outcome and by what can be seen of the state that it leaves: a
**view** of the state (`SiteConfig.Attempt.Yields`). How a storage keeps its documents, or a
lifecycle counts its calls, is not part of the view. There is one lemma for each way to put
attempts together, so that the outcome of an operation is worked out along its text.
-/

namespace SiteConfig

theorem eq_ok_of_mapError {ε ε' α : Type} {f : ε → ε'} {x : Except ε α} {a : α}
    (h : x.mapError f = .ok a) : x = .ok a := by
  cases x with
  | ok b =>
    cases h
    rfl
  | error e => cases h

theorem eq_ok_of_toOption {ε α : Type} {x : Except ε α} {a : α} (h : x.toOption = some a) :
    x = .ok a := by
  cases x with
  | ok b =>
    cases h
    rfl
  | error e => cases h

section Except

variable {ε ε' α β : Type} {x : Except ε α} {f : α → Except ε β} {g : ε → ε'} {a : α} {b : β}
  {e : ε} {e' : ε'}

theorem except_bind_eq_ok_iff : x >>= f = .ok b ↔ ∃ a, x = .ok a ∧ f a = .ok b := by
  rcases x with e | a
  · exact iff_of_false nofun fun ⟨_, hx, _⟩ => nomatch hx
  · exact ⟨fun h => ⟨a, rfl, h⟩, fun ⟨_, hx, h⟩ => by cases hx; exact h⟩

theorem except_bind_eq_error_iff :
    x >>= f = .error e ↔ x = .error e ∨ ∃ a, x = .ok a ∧ f a = .error e := by
  rcases x with e' | a
  · exact ⟨fun h => .inl (by cases h; rfl), fun h => h.elim (fun hx => by cases hx; rfl)
      fun ⟨_, hx, _⟩ => nomatch hx⟩
  · exact ⟨fun h => .inr ⟨a, rfl, h⟩, fun h => h.elim nofun fun ⟨_, hx, h⟩ => by cases hx; exact h⟩

theorem except_mapError_eq_ok_iff : x.mapError g = .ok a ↔ x = .ok a :=
  ⟨eq_ok_of_mapError, fun h => by rw [h]; rfl⟩

theorem except_mapError_eq_error_iff : x.mapError g = .error e' ↔ ∃ e, x = .error e ∧ g e = e' := by
  rcases x with e | a
  · exact ⟨fun h => ⟨e, rfl, by cases h; rfl⟩, fun ⟨_, hx, h⟩ => by cases hx; rw [← h]; rfl⟩
  · exact iff_of_false nofun fun ⟨_, hx, _⟩ => nomatch hx

theorem except_map_eq_ok_iff {k : α → β} : x.map k = .ok b ↔ ∃ a, x = .ok a ∧ k a = b := by
  rcases x with e | a
  · exact iff_of_false nofun fun ⟨_, hx, _⟩ => nomatch hx
  · exact ⟨fun h => ⟨a, rfl, by cases h; rfl⟩, fun ⟨_, hx, h⟩ => by cases hx; rw [← h]; rfl⟩

theorem except_map_eq_error_iff {k : α → β} : x.map k = .error e ↔ x = .error e := by
  rcases x with e | a
  · exact ⟨fun h => by cases h; rfl, fun h => by cases h; rfl⟩
  · exact iff_of_false nofun nofun

end Except

namespace Attempt

variable {σ τ ρ ε ε' α β : Type} {view : σ → τ} {s : σ} {v w : τ}

/-- **What an attempt comes to**: its outcome, and the view of the state that it leaves. -/
def Yields (x : Attempt σ ε α) (view : σ → τ) (s : σ) (r : Except ε α) (v : τ) : Prop :=
  ∃ s', x s = (r, s') ∧ view s' = v

theorem yields_pure (a : α) (hs : view s = v) :
    (pure a : Attempt σ ε α).Yields view s (.ok a) v := ⟨s, rfl, hs⟩

theorem yields_fail (e : ε) (hs : view s = v) :
    (fail e : Attempt σ ε α).Yields view s (.error e) v := ⟨s, rfl, hs⟩

theorem yields_ofExcept (r : Except ε α) (hs : view s = v) :
    (ofExcept r : Attempt σ ε α).Yields view s r v := ⟨s, rfl, hs⟩

theorem Yields.bind {x : Attempt σ ε α} {f : α → Attempt σ ε β} {a : α} {r : Except ε β}
    (hx : x.Yields view s (.ok a) w)
    (hf : ∀ s', view s' = w → (f a).Yields view s' r v) : (x >>= f).Yields view s r v := by
  obtain ⟨s₁, h₁, hv₁⟩ := hx
  obtain ⟨s₂, h₂, hv₂⟩ := hf s₁ hv₁
  exact ⟨s₂, by rw [bind_apply, h₁]; exact h₂, hv₂⟩

theorem Yields.bind_error {x : Attempt σ ε α} {f : α → Attempt σ ε β} {e : ε}
    (hx : x.Yields view s (.error e) v) : (x >>= f).Yields view s (.error e) v := by
  obtain ⟨s₁, h₁, hv₁⟩ := hx
  exact ⟨s₁, by rw [bind_apply, h₁], hv₁⟩

theorem Yields.recover {x : Attempt σ ε α} {f : ε → Attempt σ ε' α} {a : α}
    (hx : x.Yields view s (.ok a) v) : (x.recover f).Yields view s (.ok a) v := by
  obtain ⟨s₁, h₁, hv₁⟩ := hx
  exact ⟨s₁, by rw [Attempt.recover, h₁], hv₁⟩

theorem Yields.mapError {x : Attempt σ ε α} {f : ε → ε'} {a : α}
    (hx : x.Yields view s (.ok a) v) : (x.mapError f).Yields view s (.ok a) v := hx.recover

/-- What comes after an outcome that may be an error. -/
theorem Yields.bind_except {x : Attempt σ ε α} {f : α → Attempt σ ε β} {r : Except ε α}
    {g : α → Except ε β} (hx : x.Yields view s r v)
    (hf : ∀ a s', view s' = v → (f a).Yields view s' (g a) v) :
    (x >>= f).Yields view s (r >>= g) v := by
  rcases r with e | a
  · exact hx.bind_error
  · exact hx.bind (hf a)

theorem Yields.mapError_except {x : Attempt σ ε α} {f : ε → ε'} {r : Except ε α}
    (hx : x.Yields view s r v) : (x.mapError f).Yields view s (r.mapError f) v := by
  obtain ⟨s₁, h₁, hv₁⟩ := hx
  refine ⟨s₁, ?_, hv₁⟩
  unfold Attempt.mapError Attempt.recover
  rw [h₁]
  rcases r with e | a <;> rfl

theorem yields_read (cell : Cell σ ρ) (hs : view s = v) :
    (cell.read : Attempt σ ε ρ).Yields view s (.ok (cell.get s)) v := ⟨s, rfl, hs⟩

theorem yields_always {x : StateM σ α} {a : α} {s' : σ} (hx : x s = (a, s')) (hv : view s' = v) :
    (always x : Attempt σ ε α).Yields view s (.ok a) v :=
  ⟨s', by rw [always, hx], hv⟩

/-- The outcome of an attempt, whatever it is, taken as a value. -/
theorem Yields.outcome {x : Attempt σ ε α} {r : Except ε α} (hx : x.Yields view s r v) :
    (always x.outcome : Attempt σ ε' (Except ε α)).Yields view s (.ok r) v := by
  obtain ⟨s₁, h₁, hv₁⟩ := hx
  exact yields_always h₁ hv₁

/-- An attempt after another one succeeds just when both do. -/
theorem bind_eq_ok_iff {x : Attempt σ ε α} {f : α → Attempt σ ε β} {b : β} {s' : σ} :
    (x >>= f) s = (.ok b, s') ↔ ∃ a s₁, x s = (.ok a, s₁) ∧ f a s₁ = (.ok b, s') := by
  rw [bind_apply]
  rcases x s with ⟨e | a, s₁⟩ <;> simp

theorem ofExcept_eq_ok_iff {x : Except ε α} {a : α} {s' : σ} :
    (ofExcept x : Attempt σ ε α) s = (.ok a, s') ↔ x = .ok a ∧ s = s' := Prod.mk_inj

theorem mapError_eq_ok_iff {x : Attempt σ ε α} {f : ε → ε'} {a : α} {s' : σ} :
    x.mapError f s = (.ok a, s') ↔ x s = (.ok a, s') := by
  unfold Attempt.mapError Attempt.recover
  rcases x s with ⟨e | b, s₁⟩
  · exact iff_of_false (fun h => by cases h) fun h => by cases h
  · simp

/-- An attempt after another one fails just when one of them does. -/
theorem bind_eq_error_iff {x : Attempt σ ε α} {f : α → Attempt σ ε β} {e : ε} {s' : σ} :
    (x >>= f) s = (.error e, s') ↔
      x s = (.error e, s') ∨ ∃ a s₁, x s = (.ok a, s₁) ∧ f a s₁ = (.error e, s') := by
  rw [bind_apply]
  rcases x s with ⟨e' | a, s₁⟩ <;> simp

theorem mapError_eq_error_iff {x : Attempt σ ε α} {f : ε → ε'} {e : ε'} {s' : σ} :
    x.mapError f s = (.error e, s') ↔ ∃ e', x s = (.error e', s') ∧ f e' = e := by
  unfold Attempt.mapError Attempt.recover
  rcases x s with ⟨e' | b, s₁⟩
  · simp only [fail, Prod.mk.injEq, Except.error.injEq]
    exact ⟨fun ⟨he, hs⟩ => ⟨e', ⟨rfl, hs⟩, he⟩, fun ⟨_, ⟨he', hs⟩, he⟩ => ⟨he' ▸ he, hs⟩⟩
  · simp

/-- What an attempt comes to is what it comes to. -/
theorem Yields.apply {x : Attempt σ ε α} {r r' : Except ε α} {s' : σ} (hx : x.Yields view s r v)
    (h : x s = (r', s')) : r = r' ∧ view s' = v := by
  obtain ⟨s₁, h₁, hv₁⟩ := hx
  cases h₁.symm.trans h
  exact ⟨rfl, hv₁⟩

/-! ### Conditions on the outcome -/

/-- An attempt ends with an outcome and a view that meet a condition. -/
def Ends (x : Attempt σ ε α) (view : σ → τ) (s : σ) (Q : Except ε α → τ → Prop) : Prop :=
  Q (x s).1 (view (x s).2)

theorem Yields.ends {x : Attempt σ ε α} {r : Except ε α} {Q : Except ε α → τ → Prop}
    (hx : x.Yields view s r v) (hQ : Q r v) : x.Ends view s Q := by
  obtain ⟨s', h, rfl⟩ := hx
  rw [Ends, h]
  exact hQ

theorem Yields.bind_ends {x : Attempt σ ε α} {f : α → Attempt σ ε β} {a : α}
    {Q : Except ε β → τ → Prop} (hx : x.Yields view s (.ok a) w)
    (hf : ∀ s', view s' = w → (f a).Ends view s' Q) : (x >>= f).Ends view s Q := by
  obtain ⟨s', h, hv⟩ := hx
  rw [Ends, bind_apply, h]
  exact hf s' hv

/-- An attempt that ends somehow comes to something. -/
theorem Ends.exists_yields {x : Attempt σ ε α} {Q : Except ε α → τ → Prop}
    (hx : x.Ends view s Q) : ∃ r v, x.Yields view s r v ∧ Q r v :=
  ⟨(x s).1, view (x s).2, ⟨(x s).2, rfl, rfl⟩, hx⟩

theorem Ends.apply {x : Attempt σ ε α} {Q : Except ε α → τ → Prop} {r : Except ε α} {s' : σ}
    (hx : x.Ends view s Q) (h : x s = (r, s')) : Q r (view s') := by
  rw [Ends, h] at hx
  exact hx

theorem Ends.imp {x : Attempt σ ε α} {P Q : Except ε α → τ → Prop} (hx : x.Ends view s P)
    (h : ∀ r v, P r v → Q r v) : x.Ends view s Q := h _ _ hx

theorem Ends.mapError {x : Attempt σ ε α} {f : ε → ε'} {Q : Except ε' α → τ → Prop}
    (hx : x.Ends view s fun r v => Q (r.mapError f) v) : (x.mapError f).Ends view s Q := by
  unfold Ends at hx ⊢
  unfold Attempt.mapError Attempt.recover
  rcases h : x s with ⟨e | a, s'⟩ <;> rw [h] at hx <;> exact hx

/-- What an operation does with an outcome that is only known to meet a condition. -/
theorem Ends.bind {x : Attempt σ ε α} {f : α → Attempt σ ε β} {P : Except ε α → τ → Prop}
    {Q : Except ε β → τ → Prop} (hx : x.Ends view s P)
    (hok : ∀ s' a, P (.ok a) (view s') → (f a).Ends view s' Q)
    (herror : ∀ e v, P (.error e) v → Q (.error e) v) : (x >>= f).Ends view s Q := by
  unfold Ends at hx ⊢
  rw [bind_apply]
  rcases h : x s with ⟨e | a, s'⟩ <;> rw [h] at hx
  · exact herror e _ hx
  · exact hok s' a hx

/-- What is left does not depend on the value that is given. -/
theorem Ends.give {x : Attempt σ ε α} {Q : τ → Prop} (hx : x.Ends view s fun _ v => Q v) (b : β) :
    (x >>= fun _ => pure b).Ends view s fun _ v => Q v :=
  hx.bind (fun s' _ h => (yields_pure b (rfl : view s' = view s')).ends h) fun _ _ h => h

theorem Ends.recover {x : Attempt σ ε α} {f : ε → Attempt σ ε' α} {P : Except ε α → τ → Prop}
    {Q : Except ε' α → τ → Prop} (hx : x.Ends view s P)
    (hok : ∀ a v, P (.ok a) v → Q (.ok a) v)
    (herror : ∀ s' e, P (.error e) (view s') → (f e).Ends view s' Q) :
    (x.recover f).Ends view s Q := by
  unfold Ends at hx ⊢
  unfold Attempt.recover
  rcases h : x s with ⟨e | a, s'⟩ <;> rw [h] at hx
  · exact herror s' e hx
  · exact hok a _ hx

/-! ### Conditions that are kept -/

/-- An operation that leaves what is seen of the state as it is. -/
def Quiet (view : σ → τ) (x : σ → α × σ) : Prop := ∀ s, view (x s).2 = view s

/-- An operation that keeps a condition of the state, whatever it comes to. -/
def Stable (I : σ → Prop) (x : σ → α × σ) : Prop := ∀ s, I s → I (x s).2

section Stable

variable {I : σ → Prop}

theorem stable_pure (a : α) : Stable I (pure a : Attempt σ ε α) := fun _ hs => hs

theorem stable_fail (e : ε) : Stable I (fail e : Attempt σ ε α) := fun _ hs => hs

theorem stable_ofExcept (x : Except ε α) : Stable I (ofExcept x : Attempt σ ε α) :=
  fun _ hs => hs

theorem stable_pureM (a : α) : Stable I (pure a : StateM σ α) := fun _ hs => hs

theorem Stable.bind {x : Attempt σ ε α} {f : α → Attempt σ ε β} (hx : Stable I x)
    (hf : ∀ a, Stable I (f a)) : Stable I (x >>= f) := by
  intro s hs
  have hI := hx s hs
  rw [bind_apply]
  rcases h : x s with ⟨e | a, s'⟩ <;> rw [h] at hI
  · exact hI
  · exact hf a s' hI

theorem Stable.recover {x : Attempt σ ε α} {f : ε → Attempt σ ε' α} (hx : Stable I x)
    (hf : ∀ e, Stable I (f e)) : Stable I (x.recover f) := by
  intro s hs
  have hI := hx s hs
  unfold Attempt.recover
  rcases h : x s with ⟨e | a, s'⟩ <;> rw [h] at hI
  · exact hf e s' hI
  · exact hI

theorem Stable.mapError {x : Attempt σ ε α} {f : ε → ε'} (hx : Stable I x) :
    Stable I (x.mapError f) := hx.recover fun e => stable_fail (f e)

theorem Stable.always {x : StateM σ α} (hx : Stable I x) :
    Stable I (always x : Attempt σ ε α) := hx

theorem Stable.bindM {x : StateM σ α} {f : α → StateM σ β} (hx : Stable I x)
    (hf : ∀ a, Stable I (f a)) : Stable I (x >>= f) := fun s hs => hf _ _ (hx s hs)

/-- A condition of the rest of the state is kept by what is done there. -/
theorem Stable.zoom_second {x : Attempt σ ε α} (hx : Stable I x) :
    Stable (fun p : ρ × σ => I p.2) (Cell.second.zoom x) := fun p hp => hx p.2 hp

end Stable

/-- Nothing is seen of an operation just when everything that can be said of what is seen is
kept. -/
theorem quiet_iff_stable {x : σ → α × σ} : Quiet view x ↔ ∀ v, Stable (view · = v) x :=
  ⟨fun h _ s hs => (h s).trans hs, fun h s => h (view s) s rfl⟩

theorem Quiet.bind {x : Attempt σ ε α} {f : α → Attempt σ ε β} (hx : Quiet view x)
    (hf : ∀ a, Quiet view (f a)) : Quiet view (x >>= f) :=
  quiet_iff_stable.2 fun v => (quiet_iff_stable.1 hx v).bind fun a => quiet_iff_stable.1 (hf a) v

/-- Of a part that is not seen nothing is seen. -/
theorem quiet_zoom {cell : Cell σ ρ} (hcell : ∀ a s, view (cell.set a s) = view s)
    (x : Attempt ρ ε α) : Quiet view (cell.zoom x) := fun s => hcell _ s

/-- **Whatever an attempt comes to**, a condition of the state is kept, and the value, if
there is one, meets a condition. -/
def Gives (x : Attempt σ ε α) (I : σ → Prop) (P : α → Prop) : Prop :=
  ∀ s, I s → I (x s).2 ∧ ∀ a, (x s).1 = .ok a → P a

variable {I : σ → Prop} {P : α → Prop} {Q : β → Prop}

theorem gives_pure {a : α} (ha : P a) : (pure a : Attempt σ ε α).Gives I P :=
  fun s hs => ⟨hs, fun b hb => by cases hb; exact ha⟩

theorem gives_fail (e : ε) : (fail e : Attempt σ ε α).Gives I P :=
  fun s hs => ⟨hs, fun b hb => by cases hb⟩

theorem gives_ofExcept {x : Except ε α} (hx : ∀ a, x = .ok a → P a) :
    (ofExcept x : Attempt σ ε α).Gives I P := fun _ hs => ⟨hs, hx⟩

theorem Gives.bind {x : Attempt σ ε α} {f : α → Attempt σ ε β} (hx : x.Gives I P)
    (hf : ∀ a, P a → (f a).Gives I Q) : (x >>= f).Gives I Q := by
  intro s hs
  obtain ⟨hI, hP⟩ := hx s hs
  rw [bind_apply]
  rcases h : x s with ⟨e | a, s'⟩ <;> rw [h] at hI hP
  · exact ⟨hI, fun b hb => by cases hb⟩
  · exact hf a (hP a rfl) s' hI

theorem Gives.recover {x : Attempt σ ε α} {f : ε → Attempt σ ε' α} (hx : x.Gives I P)
    (hf : ∀ e, (f e).Gives I P) : (x.recover f).Gives I P := by
  intro s hs
  obtain ⟨hI, hP⟩ := hx s hs
  unfold Attempt.recover
  rcases h : x s with ⟨e | a, s'⟩ <;> rw [h] at hI hP
  · exact hf e s' hI
  · exact ⟨hI, fun b hb => hP b (by cases hb; rfl)⟩

theorem Gives.mapError {x : Attempt σ ε α} {f : ε → ε'} (hx : x.Gives I P) :
    (x.mapError f).Gives I P := hx.recover fun e => gives_fail (f e)

theorem Gives.ends {x : Attempt σ ε α} (hx : x.Gives (view · = v) P) (hs : view s = v) :
    x.Ends view s fun r w => w = v ∧ ∀ a, r = .ok a → P a := hx s hs

theorem Gives.imp {Q : α → Prop} {x : Attempt σ ε α} (hx : x.Gives I P) (h : ∀ a, P a → Q a) :
    x.Gives I Q := fun s hs => (hx s hs).imp_right fun hP a ha => h a (hP a ha)

/-- A condition that does not depend on the state may be used, and lasts. -/
theorem Gives.given {x : Attempt σ ε α} {C : Prop} (hx : C → x.Gives I P) :
    x.Gives (fun s => I s ∧ C) P :=
  fun s hs => ⟨⟨(hx hs.2 s hs.1).1, hs.2⟩, (hx hs.2 s hs.1).2⟩

theorem gives_constant (a : α) : ((Cell.constant a).read : Attempt σ ε α).Gives I (· = a) :=
  fun _ hs => ⟨hs, fun b hb => by cases hb; rfl⟩

/-- What is not seen keeps every condition of what is seen. -/
theorem Quiet.gives {x : Attempt σ ε α} (hx : Quiet view x) (hP : ∀ s a, (x s).1 = .ok a → P a) :
    x.Gives (view · = v) P := fun s hs => ⟨(hx s).trans hs, hP s⟩

theorem Stable.gives_true {x : Attempt σ ε α} (hx : Stable I x) : x.Gives I fun _ => True :=
  fun s hs => ⟨hx s hs, fun _ _ => trivial⟩

theorem Quiet.gives_true {x : Attempt σ ε α} (hx : Quiet view x) :
    x.Gives (view · = v) fun _ => True := hx.gives fun _ _ _ => trivial

/-- The errors of an attempt meet a condition. -/
def Raises (x : Attempt σ ε α) (E : ε → Prop) : Prop := ∀ s e, (x s).1 = .error e → E e

section Raises

variable {E : ε → Prop}

theorem raises_pure (a : α) : (pure a : Attempt σ ε α).Raises E := fun _ _ he => nomatch he

theorem raises_always (x : StateM σ α) : (always x : Attempt σ ε α).Raises E :=
  fun _ _ he => nomatch he

theorem raises_ofExcept {x : Except ε α} (hx : ∀ e, x = .error e → E e) :
    (ofExcept x : Attempt σ ε α).Raises E := fun _ => hx

theorem raises_mapError {x : Attempt σ ε' α} {f : ε' → ε} (hf : ∀ e, E (f e)) :
    (x.mapError f).Raises E := by
  intro s e he
  unfold Attempt.mapError Attempt.recover at he
  rcases h : x s with ⟨e' | a, s'⟩ <;> rw [h] at he <;> cases he
  exact hf e'

theorem Raises.bind {x : Attempt σ ε α} {f : α → Attempt σ ε β} (hx : x.Raises E)
    (hf : ∀ a, (f a).Raises E) : (x >>= f).Raises E := by
  intro s e he
  have hE := hx s
  rw [bind_apply] at he
  rcases h : x s with ⟨e' | a, s'⟩ <;> rw [h] at he hE
  · cases he
    exact hE e rfl
  · exact hf a s' e he

theorem Raises.imp {x : Attempt σ ε α} {F : ε → Prop} (hx : x.Raises E) (h : ∀ e, E e → F e) :
    x.Raises F := fun s e he => h e (hx s e he)

theorem Raises.zoom {c : Cell ρ σ} {x : Attempt σ ε α} (hx : x.Raises E) :
    (c.zoom x).Raises E := fun s => hx (c.get s)

end Raises

/-! ### Attempts on a part of the state -/

/-- What is seen of a state with another part in front of it. -/
def beside (view : σ → τ) (p : ρ × σ) : ρ × τ := (p.1, view p.2)

@[simp] theorem beside_mk (view : σ → τ) (r : ρ) (s : σ) : beside view (r, s) = (r, view s) := rfl

theorem Yields.zoom_second {x : Attempt σ ε α} {r : Except ε α} (hx : x.Yields view s r v)
    (q : ρ) : (Cell.second.zoom x : Attempt (ρ × σ) ε α).Yields (beside view) (q, s) r (q, v) := by
  obtain ⟨s₁, h₁, hv₁⟩ := hx
  refine ⟨(q, s₁), ?_, by rw [beside_mk, hv₁]⟩
  simp [Cell.zoom, Cell.second, h₁]

theorem Ends.zoom_second {x : Attempt σ ε α} {Q : Except ε α → τ → Prop} (hx : x.Ends view s Q)
    (q : ρ) : (Cell.second.zoom x : Attempt (ρ × σ) ε α).Ends (beside view) (q, s)
      fun r p => p.1 = q ∧ Q r p.2 := ⟨rfl, hx⟩

theorem Gives.zoom_second {x : Attempt σ ε α} (hx : x.Gives I P) (K : ρ → Prop) :
    (Cell.second.zoom x : Attempt (ρ × σ) ε α).Gives (fun p => I p.2 ∧ K p.1) P :=
  fun p hp => ⟨⟨(hx p.2 hp.1).1, hp.2⟩, (hx p.2 hp.1).2⟩

theorem yields_modify_first (f : ρ → ρ) (q : ρ) (hs : view s = v) :
    (Cell.first.modify f : Attempt (ρ × σ) ε Unit).Yields (beside view) (q, s) (.ok ()) (f q, v) :=
  ⟨(f q, s), rfl, by rw [beside_mk, hs]⟩

theorem yields_read_first (q : ρ) (hs : view s = v) :
    (Cell.first.read : Attempt (ρ × σ) ε ρ).Yields (beside view) (q, s) (.ok q) (q, v) :=
  ⟨(q, s), rfl, by rw [beside_mk, hs]⟩

/-- A pair with a given view, taken apart. -/
theorem beside_eq_iff {q r : ρ} :
    beside view (q, s) = (r, v) ↔ q = r ∧ view s = v := by rw [beside, Prod.mk.injEq]

end Attempt

end SiteConfig
