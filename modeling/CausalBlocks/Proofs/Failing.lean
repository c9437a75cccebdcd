import CausalBlocks.Proofs.Outcome

/-!
# Computations that fail

A computation of several steps fails with one of them, in the state that those before it led
to. These lemmas take a failing computation apart.
-/

namespace Except

variable {ε α β : Type} {P : ε → Prop}

/-- If a computation fails, its failure has a property. -/
def FailsOnly (P : ε → Prop) (x : Except ε α) : Prop := ∀ e, x = .error e → P e

namespace FailsOnly

theorem ok (a : α) : FailsOnly P (.ok a : Except ε α) := fun _ h => by cases h

theorem error {e : ε} (h : P e) : FailsOnly P (.error e : Except ε α) := by
  rintro _ ⟨⟩
  exact h

theorem of_exists {x : Except ε α} (h : ∃ a, x = .ok a) : FailsOnly P x := by
  obtain ⟨a, rfl⟩ := h
  exact ok a

theorem bind {x : Except ε α} {f : α → Except ε β} (hx : FailsOnly P x)
    (hf : ∀ a, x = .ok a → FailsOnly P (f a)) : FailsOnly P (x >>= f) := by
  cases x with
  | error e => exact error (hx e rfl)
  | ok a => exact hf a rfl

theorem ite {c : Prop} [Decidable c] {x y : Except ε α} (hx : FailsOnly P x)
    (hy : FailsOnly P y) : FailsOnly P (if c then x else y) := by
  split
  · exact hx
  · exact hy

theorem forM {f : α → Except ε Unit} {xs : List α} (hf : ∀ x ∈ xs, FailsOnly P (f x)) :
    FailsOnly P (xs.forM f) := by
  induction xs with
  | nil => exact ok _
  | cons x rest ih =>
      obtain ⟨hx, hrest⟩ := List.forall_mem_cons.mp hf
      exact hx.bind fun _ _ => ih hrest

theorem mapM {f : α → Except ε β} {xs : List α} (hf : ∀ x ∈ xs, FailsOnly P (f x)) :
    FailsOnly P (xs.mapM f) := by
  induction xs with
  | nil => exact ok _
  | cons x rest ih =>
      obtain ⟨hx, hrest⟩ := List.forall_mem_cons.mp hf
      rw [List.mapM_cons]
      exact hx.bind fun _ _ => (ih hrest).bind fun _ _ => ok _

theorem foldlM {f : β → α → Except ε β} {xs : List α} (hf : ∀ x ∈ xs, ∀ b, FailsOnly P (f b x))
    (b : β) : FailsOnly P (xs.foldlM f b) := by
  induction xs generalizing b with
  | nil => exact ok _
  | cons x rest ih =>
      obtain ⟨hx, hrest⟩ := List.forall_mem_cons.mp hf
      rw [List.foldlM_cons]
      exact (hx b).bind fun b' _ => ih hrest b'

/-- The same where the steps keep an invariant, with what is still to be done. -/
theorem foldlM_of {I : List α → β → Prop} {f : β → α → Except ε β}
    (hstep : ∀ x rest b b', I (x :: rest) b → f b x = .ok b' → I rest b')
    (hf : ∀ x rest b, I (x :: rest) b → FailsOnly P (f b x)) {xs : List α} {b : β} (h : I xs b) :
    FailsOnly P (xs.foldlM f b) := by
  induction xs generalizing b with
  | nil => exact ok _
  | cons x rest ih =>
      rw [List.foldlM_cons]
      exact (hf x rest b h).bind fun b' hx => ih (hstep x rest b b' h hx)

end FailsOnly

end Except

namespace EStateM

variable {ε σ α β : Type}

theorem Result.eq_error {r : Result ε σ α} (h : r.answer? = none) : ∃ e, r = .error e r.state := by
  cases r with
  | ok a s => cases h
  | error e s => exact ⟨e, rfl⟩

theorem bind_eq_error {x : EStateM ε σ α} {f : α → EStateM ε σ β} {s s' : σ} {e : ε} :
    (x >>= f) s = .error e s' ↔
      x s = .error e s' ∨ ∃ a s₁, x s = .ok a s₁ ∧ f a s₁ = .error e s' := by
  simp only [bind, EStateM.bind]
  cases x s with
  | error e₁ s₁ => simp
  | ok a s₁ =>
      constructor
      · exact fun h => .inr ⟨a, s₁, rfl, h⟩
      · rintro (h | ⟨a, s₁, h, hf⟩) <;> cases h
        exact hf

theorem pure_eq_error {s s' : σ} {a : α} {e : ε} :
    (pure a : EStateM ε σ α) s = .error e s' ↔ False := by
  change Result.ok a s = .error e s' ↔ _
  simp

theorem discard_eq_error {x : EStateM ε σ α} {s s' : σ} {e : ε} :
    (discard x : EStateM ε σ PUnit) s = .error e s' ↔ x s = .error e s' := by
  change EStateM.map (fun _ => PUnit.unit) x s = .error e s' ↔ _
  rw [EStateM.map]
  cases x s <;> simp

theorem get_eq_error {s s' : σ} {e : ε} : (get : EStateM ε σ σ) s = .error e s' ↔ False := by
  change Result.ok s s = .error e s' ↔ _
  simp

theorem modify_eq_error {f : σ → σ} {s s' : σ} {e : ε} :
    (modify f : EStateM ε σ PUnit) s = .error e s' ↔ False := by
  change Result.ok PUnit.unit (f s) = .error e s' ↔ _
  simp

theorem lift_eq_error {x : Except ε α} {s s' : σ} {e : ε} :
    (liftM x : EStateM ε σ α) s = .error e s' ↔ x = .error e ∧ s' = s := by
  cases x with
  | error e₁ =>
      change Result.error e₁ s = .error e s' ↔ _
      simp [eq_comm]
  | ok a =>
      change Result.ok a s = .error e s' ↔ _
      simp

theorem ite_eq_error {c : Prop} [Decidable c] {x y : EStateM ε σ α} {s s' : σ} {e : ε} :
    (if c then x else y) s = .error e s' ↔ c ∧ x s = .error e s' ∨ ¬c ∧ y s = .error e s' := by
  by_cases hc : c <;> simp [hc]

/-- A failing loop succeeds for some elements and fails for the one after them. -/
theorem forM_eq_error {f : α → EStateM ε σ PUnit} {xs : List α} {s s' : σ} {e : ε}
    (h : xs.forM f s = .error e s') : ∃ done x rest s₁, xs = done ++ x :: rest ∧
      done.forM f s = .ok ⟨⟩ s₁ ∧ f x s₁ = .error e s' := by
  induction xs generalizing s with
  | nil => cases pure_eq_error.mp h
  | cons x rest ih =>
      rcases bind_eq_error.mp h with hx | ⟨_, s₁, hx, hrest⟩
      · exact ⟨[], x, rest, s, rfl, rfl, hx⟩
      · obtain ⟨done, y, rest, s₂, rfl, hdone, hy⟩ := ih hrest
        exact ⟨x :: done, y, rest, s₂, rfl, bind_eq_ok.mpr ⟨⟨⟩, s₁, hx, hdone⟩, hy⟩

/-- What holds of the state in which a computation succeeds, and what of that in which it
fails. -/
def Result.Ends (P Q : σ → Prop) : Result ε σ α → Prop
  | .ok _ s => P s
  | .error _ s => Q s

variable {P P' Q : σ → Prop}

theorem Ends.bind {x : EStateM ε σ α} {f : α → EStateM ε σ β} {s : σ} (hx : (x s).Ends P Q)
    (hf : ∀ a s₁, x s = .ok a s₁ → P s₁ → (f a s₁).Ends P' Q) : ((x >>= f) s).Ends P' Q := by
  cases hresult : x s with
  | ok a s₁ =>
      rw [bind_of_ok hresult]
      rw [hresult] at hx
      exact hf a s₁ hresult hx
  | error e s₁ =>
      rw [bind_of_error hresult]
      rw [hresult] at hx
      exact hx

/-- An invariant of a loop, with what is still to be done while it succeeds. -/
theorem Ends.forM {P : List α → σ → Prop} {f : α → EStateM ε σ PUnit} {xs : List α}
    (hf : ∀ x rest s, P (x :: rest) s → (f x s).Ends (P rest) Q) {s : σ} (hs : P xs s) :
    (xs.forM f s).Ends (P []) Q := by
  induction xs generalizing s with
  | nil => exact hs
  | cons x rest ih => exact Ends.bind (hf x rest s hs) fun _ s₁ _ h₁ => ih h₁

theorem Ends.imp {Q' : σ → Prop} {r : Result ε σ α} (h : r.Ends P Q) (hP : ∀ s, P s → P' s)
    (hQ : ∀ s, Q s → Q' s) : r.Ends P' Q' := by
  cases r with
  | ok a s => exact hP s h
  | error e s => exact hQ s h

theorem Ends.state {r : Result ε σ α} (h : r.Ends P P) : P r.state := by
  cases r with
  | ok a s => exact h
  | error e s => exact h

theorem Ends.of_state {r : Result ε σ α} (h : P r.state) : r.Ends P P := by
  cases r with
  | ok a s => exact h
  | error e s => exact h

theorem Ends.mapM {f : α → EStateM ε σ β} {xs : List α}
    (hf : ∀ x ∈ xs, ∀ s, P s → (f x s).Ends P Q) {s : σ} (hs : P s) : (xs.mapM f s).Ends P Q := by
  induction xs generalizing s with
  | nil => exact hs
  | cons x rest ih =>
      obtain ⟨hx, hrest⟩ := List.forall_mem_cons.mp hf
      rw [List.mapM_cons]
      exact Ends.bind (hx s hs) fun _ s₁ _ h₁ => Ends.bind (ih hrest h₁) fun _ _ _ h₂ => h₂

end EStateM
