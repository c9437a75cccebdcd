import CausalBlocks.Proofs.Outcome

/-!
# Computations in lockstep

A computation is blind to a difference between states if it comes, from two states that
differ in this way only, to the same answer or the same failure, and to states that again
differ in this way only. What is put together from blind computations is blind.
-/

namespace EStateM

variable {ε σ α β : Type} {R R' E E' : σ → σ → Prop}

theorem lift_of_error {x : Except ε α} {e : ε} {s : σ} (h : x = .error e) :
    (liftM x : EStateM ε σ α) s = .error e s := by
  rw [h]
  rfl

/-- The same answer, in states with one relation, or the same failure, in states with
another one. -/
inductive Agree (R E : σ → σ → Prop) : Result ε σ α → Result ε σ α → Prop
  | ok (a : α) {s t : σ} (h : R s t) : Agree R E (.ok a s) (.ok a t)
  | error (e : ε) {s t : σ} (h : E s t) : Agree R E (.error e s) (.error e t)

namespace Agree

variable {s t : σ}

theorem mono {r r' : Result ε σ α} (h : Agree R E r r') (hR : ∀ s t, R s t → R' s t)
    (hE : ∀ s t, E s t → E' s t) : Agree R' E' r r' := by
  cases h with
  | ok a h => exact .ok a (hR _ _ h)
  | error e h => exact .error e (hE _ _ h)

theorem bind {x y : EStateM ε σ α} {f g : α → EStateM ε σ β} (h : Agree R' E (x s) (y t))
    (hnext : ∀ a s₁ t₁, x s = .ok a s₁ → R' s₁ t₁ → Agree R E (f a s₁) (g a t₁)) :
    Agree R E ((x >>= f) s) ((y >>= g) t) := by
  generalize hx : x s = r, hy : y t = r' at h
  cases h with
  | ok a h =>
      rw [bind_of_ok hx, bind_of_ok hy]
      exact hnext a _ _ hx h
  | error e h =>
      rw [bind_of_error hx, bind_of_error hy]
      exact .error e h

theorem get_bind {f g : σ → EStateM ε σ β} (h : Agree R E (f s s) (g t t)) :
    Agree R E ((get >>= f) s) ((get >>= g) t) := h

theorem ite {c : Prop} [Decidable c] {x x' y y' : EStateM ε σ α} (hx : Agree R E (x s) (x' t))
    (hy : Agree R E (y s) (y' t)) :
    Agree R E ((if c then x else y) s) ((if c then x' else y') t) := by
  split
  · exact hx
  · exact hy

theorem discard {x y : EStateM ε σ α} (h : Agree R E (x s) (y t)) :
    Agree R E (discard x s) (discard y t) := by
  change Agree R E ((x >>= fun _ => Pure.pure ()) s) ((y >>= fun _ => Pure.pure ()) t)
  exact h.bind fun _ _ _ _ hsame => .ok () hsame

/-- Where the one succeeds, so does the other. -/
theorem exists_ok {r r' : Result ε σ α} {a : α} (h : Agree R E r r') (hok : r = .ok a s) :
    ∃ t, r' = .ok a t ∧ R s t := by
  subst hok
  cases h with | ok _ h => exact ⟨_, rfl, h⟩

theorem exists_ok_left {r r' : Result ε σ α} {a : α} (h : Agree R E r r') (hok : r' = .ok a t) :
    ∃ s, r = .ok a s ∧ R s t := by
  subst hok
  cases h with | ok _ h => exact ⟨_, rfl, h⟩

end Agree

/-- A computation that cannot tell related states apart. -/
def Blind (R : σ → σ → Prop) (x : EStateM ε σ α) : Prop := ∀ s t, R s t → Agree R R (x s) (x t)

namespace Blind

theorem pure (a : α) : Blind R (Pure.pure a : EStateM ε σ α) := fun _ _ h => .ok a h

theorem throw (e : ε) : Blind R (throw e : EStateM ε σ α) := fun _ _ h => .error e h

theorem throw_bind (e : ε) (f : α → EStateM ε σ β) :
    Blind R (MonadExcept.throw e >>= f : EStateM ε σ β) := fun _ _ h => .error e h

theorem lift (x : Except ε α) : Blind R (liftM x : EStateM ε σ α) := by
  cases x with
  | error e => exact throw e
  | ok a => exact pure a

theorem agree {x : EStateM ε σ α} {s t : σ} (hx : Blind R x) (h : R s t)
    (hE : ∀ s t, R s t → E s t) : Agree R E (x s) (x t) :=
  (hx s t h).mono (fun _ _ => id) hE

theorem modify {f : σ → σ} (hf : ∀ s t, R s t → R (f s) (f t)) :
    Blind R (modify f : EStateM ε σ PUnit) := fun s t h => .ok PUnit.unit (hf s t h)

theorem bind {x : EStateM ε σ α} {f : α → EStateM ε σ β} (hx : Blind R x)
    (hf : ∀ a, Blind R (f a)) : Blind R (x >>= f) :=
  fun s t h => (hx s t h).bind fun a s₁ t₁ _ h₁ => hf a s₁ t₁ h₁

/-- The state may be read as far as the difference does not show. -/
theorem get_bind {f : σ → EStateM ε σ β} (hsame : ∀ s t, R s t → f t = f s)
    (hf : ∀ s, Blind R (f s)) : Blind R (get >>= f) := by
  intro s t h
  change Agree R R (f s s) (f t t)
  rw [hsame s t h]
  exact hf s s t h

theorem ite {c : Prop} [Decidable c] {x y : EStateM ε σ α} (hx : Blind R x) (hy : Blind R y) :
    Blind R (if c then x else y) := by
  split
  · exact hx
  · exact hy

theorem forM {f : α → EStateM ε σ PUnit} (hf : ∀ a, Blind R (f a)) (xs : List α) :
    Blind R (xs.forM f) := by
  induction xs with
  | nil => exact pure _
  | cons x rest ih => exact bind (hf x) fun _ => ih

theorem mapM {f : α → EStateM ε σ β} (hf : ∀ a, Blind R (f a)) (xs : List α) :
    Blind R (xs.mapM f) := by
  induction xs with
  | nil => exact pure _
  | cons x rest ih =>
      rw [List.mapM_cons]
      exact bind (hf x) fun _ => bind ih fun _ => pure _

theorem filterMapM {f : α → EStateM ε σ (Option β)} (hf : ∀ a, Blind R (f a)) (xs : List α) :
    Blind R (xs.filterMapM f) := by
  induction xs with
  | nil => exact pure _
  | cons x rest ih =>
      rw [List.filterMapM_cons]
      refine bind (hf x) fun b? => ?_
      cases b? with
      | none => exact ih
      | some b => exact bind ih fun _ => pure _

end Blind

end EStateM
