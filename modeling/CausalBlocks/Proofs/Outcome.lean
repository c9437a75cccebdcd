import CausalBlocks.Diagram.Edit

/-!
# Computations that succeed

A computation of several steps succeeds if each of them does. These lemmas take a
successful computation apart.
-/

namespace Except

variable {ε α β : Type}

theorem bind_eq_ok {x : Except ε α} {f : α → Except ε β} {b : β} :
    x >>= f = .ok b ↔ ∃ a, x = .ok a ∧ f a = .ok b := by
  cases x with
  | error e => simp [bind, Except.bind]
  | ok a => simp [bind, Except.bind]

theorem eq_ok_of_toOption {x : Except ε α} {a : α} (h : x.toOption = some a) : x = .ok a := by
  cases x with
  | error e => cases h
  | ok b => exact congrArg Except.ok (Option.some.inj h)

theorem exists_ok_of_toOption {x : Except ε α} {P : α → Prop} (h : ∃ a ∈ x.toOption, P a) :
    ∃ a, x = .ok a ∧ P a := by
  obtain ⟨a, ha, hP⟩ := h
  exact ⟨a, eq_ok_of_toOption ha, hP⟩

/-- If a computation succeeds, its result has a property. -/
def Ensures (P : α → Prop) (x : Except ε α) : Prop := ∀ a, x = .ok a → P a

namespace Ensures

theorem ok {P : α → Prop} {a : α} (h : P a) : Ensures (ε := ε) P (.ok a) := by
  rintro _ ⟨⟩
  exact h

theorem error {P : α → Prop} (e : ε) : Ensures P (.error e) := by
  rintro _ ⟨⟩

theorem bind {P : β → Prop} {x : Except ε α} {f : α → Except ε β} (hf : ∀ a, Ensures P (f a)) :
    Ensures P (x >>= f) := by
  intro b h
  obtain ⟨a, _, hb⟩ := bind_eq_ok.mp h
  exact hf a b hb

end Ensures

/-- Where the one computation succeeds, the other has the same result. -/
def Refines (x y : Except ε α) : Prop := ∀ a, x = .ok a → y = .ok a

namespace Refines

theorem refl (x : Except ε α) : Refines x x := fun _ h => h

theorem error (e : ε) (y : Except ε α) : Refines (.error e) y := fun _ h => by cases h

theorem ite {p : Prop} [Decidable p] {x x' y y' : Except ε α} (hx : Refines x x')
    (hy : Refines y y') : Refines (if p then x else y) (if p then x' else y') := by
  split
  next => exact hx
  next => exact hy

theorem bind {x y : Except ε α} {f g : α → Except ε β} (hx : Refines x y)
    (hf : ∀ a, Refines (f a) (g a)) : Refines (x >>= f) (y >>= g) := by
  intro b h
  obtain ⟨a, ha, hb⟩ := bind_eq_ok.mp h
  exact bind_eq_ok.mpr ⟨a, hx a ha, hf a b hb⟩

theorem mapM {f g : α → Except ε β} (hf : ∀ a, Refines (f a) (g a)) (xs : List α) :
    Refines (xs.mapM f) (xs.mapM g) := by
  induction xs with
  | nil => exact .refl _
  | cons x rest ih =>
      rw [List.mapM_cons, List.mapM_cons]
      exact (hf x).bind fun y => ih.bind fun ys => .refl _

theorem foldlM {f g : β → α → Except ε β} {xs : List α}
    (h : ∀ x ∈ xs, ∀ b, Refines (f b x) (g b x)) (b : β) :
    Refines (xs.foldlM f b) (xs.foldlM g b) := by
  induction xs generalizing b with
  | nil => exact .refl _
  | cons x rest ih =>
      rw [List.foldlM_cons, List.foldlM_cons]
      exact (h x List.mem_cons_self b).bind fun b' =>
        ih (fun y hy => h y (List.mem_cons_of_mem x hy)) b'

end Refines

/-- A successful loop succeeds for each element. -/
theorem forM_eq_ok {f : α → Except ε Unit} {xs : List α} (h : xs.forM f = .ok ()) :
    ∀ x ∈ xs, f x = .ok () := by
  induction xs with
  | nil => exact fun _ hmem => absurd hmem List.not_mem_nil
  | cons x rest ih =>
      obtain ⟨_, hx, hrest⟩ := bind_eq_ok.mp h
      exact List.forall_mem_cons.mpr ⟨hx, ih hrest⟩

/-- A loop succeeds if it does for each element. -/
theorem forM_total {f : α → Except ε Unit} {xs : List α} (h : ∀ x ∈ xs, f x = .ok ()) :
    xs.forM f = .ok () := by
  induction xs with
  | nil => rfl
  | cons x rest ih =>
      obtain ⟨hx, hrest⟩ := List.forall_mem_cons.mp h
      exact bind_eq_ok.mpr ⟨(), hx, ih hrest⟩

theorem discard_eq_ok {x : Except ε α} : (discard x : Except ε Unit) = .ok () ↔ ∃ a, x = .ok a := by
  cases x with
  | error e => exact iff_of_false (fun h => by cases h) fun ⟨_, h⟩ => by cases h
  | ok a => exact iff_of_true rfl ⟨a, rfl⟩

/-- A fold depends on nothing but what its steps do to the elements. -/
theorem foldlM_congr {f g : β → α → Except ε β} {xs : List α} {b : β}
    (h : ∀ x ∈ xs, ∀ b, f b x = g b x) : xs.foldlM f b = xs.foldlM g b := by
  induction xs generalizing b with
  | nil => rfl
  | cons x rest ih =>
      rw [List.foldlM_cons, List.foldlM_cons, h x List.mem_cons_self b]
      exact congrArg _ (funext fun b' => ih fun y hy => h y (List.mem_cons_of_mem x hy))

/-- An invariant of a successful fold, with what is still to be done. -/
theorem foldlM_ok {P : List α → β → Prop} {f : β → α → Except ε β}
    (hstep : ∀ x rest b b', P (x :: rest) b → f b x = .ok b' → P rest b') {xs : List α} {b b' : β}
    (h : P xs b) (hok : xs.foldlM f b = .ok b') : P [] b' := by
  induction xs generalizing b with
  | nil =>
      cases hok
      exact h
  | cons x rest ih =>
      rw [List.foldlM_cons] at hok
      obtain ⟨b₁, hx, hrest⟩ := bind_eq_ok.mp hok
      exact ih (hstep x rest b b₁ h hx) hrest

/-- A fold succeeds if an invariant lets it take each of its steps. -/
theorem foldlM_total {P : List α → β → Prop} {f : β → α → Except ε β}
    (hstep : ∀ x rest b, P (x :: rest) b → ∃ b', f b x = .ok b' ∧ P rest b') {xs : List α} {b : β}
    (h : P xs b) : ∃ b', xs.foldlM f b = .ok b' ∧ P [] b' := by
  induction xs generalizing b with
  | nil => exact ⟨b, rfl, h⟩
  | cons x rest ih =>
      obtain ⟨b₁, hx, h₁⟩ := hstep x rest b h
      obtain ⟨b', hrest, h'⟩ := ih h₁
      exact ⟨b', by rw [List.foldlM_cons, hx]; exact hrest, h'⟩

/-- What each step of a successful fold shows of its element, while an invariant lasts. -/
theorem forall_of_foldlM {P : β → Prop} {Q : α → Prop} {f : β → α → Except ε β}
    (hstep : ∀ x b b', P b → f b x = .ok b' → P b' ∧ Q x) {xs : List α} {b b' : β}
    (h : P b) (hok : xs.foldlM f b = .ok b') : ∀ x ∈ xs, Q x := by
  induction xs generalizing b with
  | nil => exact fun _ hmem => absurd hmem List.not_mem_nil
  | cons x rest ih =>
      rw [List.foldlM_cons] at hok
      obtain ⟨b₁, hx, hrest⟩ := bind_eq_ok.mp hok
      obtain ⟨h₁, hQ⟩ := hstep x b b₁ h hx
      exact List.forall_mem_cons.mpr ⟨hQ, ih h₁ hrest⟩

/-- Results that follow from those of another computation, element by element. -/
theorem mapM_ok_of_imp {γ : Type} {f : α → Except ε β} {g : α → Except ε γ}
    {φ : β → γ} (h : ∀ a b, f a = .ok b → g a = .ok (φ b)) {xs : List α} {ys : List β}
    (hok : xs.mapM f = .ok ys) : xs.mapM g = .ok (ys.map φ) := by
  induction xs generalizing ys with
  | nil =>
      cases hok
      rfl
  | cons x rest ih =>
      rw [List.mapM_cons, bind_eq_ok] at hok
      obtain ⟨y, hy, hok⟩ := hok
      obtain ⟨more, hmore, hys⟩ := bind_eq_ok.mp hok
      cases hys
      rw [List.mapM_cons, h x y hy, ih hmore]
      rfl

/-- A fold that fetches something for each element is a fold over what it fetches. -/
theorem exists_mapM_of_foldlM {γ : Type} {f : α → Except ε β} {step : γ → β → γ}
    {xs : List α} {init last : γ}
    (hok : xs.foldlM (fun c a => return step c (← f a)) init = .ok last) :
    ∃ ys, xs.mapM f = .ok ys ∧ last = ys.foldl step init := by
  induction xs generalizing init with
  | nil =>
      cases hok
      exact ⟨[], rfl, rfl⟩
  | cons x rest ih =>
      rw [List.foldlM_cons, bind_eq_ok] at hok
      obtain ⟨c, hc, hok⟩ := hok
      obtain ⟨y, hy, hc⟩ := bind_eq_ok.mp hc
      cases hc
      obtain ⟨ys, hys, rfl⟩ := ih hok
      refine ⟨y :: ys, ?_, rfl⟩
      rw [List.mapM_cons, hy, hys]
      rfl

end Except

namespace EStateM

variable {ε σ α β : Type}

/-- The state in which a computation ends, with or without success. -/
def Result.state : Result ε σ α → σ
  | .ok _ s => s
  | .error _ s => s

/-- The answer of a computation, if it succeeds. -/
def Result.answer? : Result ε σ α → Option α
  | .ok a _ => some a
  | .error _ _ => none

theorem Result.eq_ok {r : Result ε σ α} {a : α} (h : r.answer? = some a) : r = .ok a r.state := by
  cases r with
  | ok b s =>
      cases h
      rfl
  | error e s => cases h

theorem bind_eq_ok {x : EStateM ε σ α} {f : α → EStateM ε σ β} {s s' : σ} {b : β} :
    (x >>= f) s = .ok b s' ↔ ∃ a s₁, x s = .ok a s₁ ∧ f a s₁ = .ok b s' := by
  simp only [bind, EStateM.bind]
  cases x s with
  | error e s₁ => simp
  | ok a s₁ =>
      constructor
      · exact fun h => ⟨a, s₁, rfl, h⟩
      · rintro ⟨a, s₁, h, hf⟩
        cases h
        exact hf

theorem pure_eq_ok {s s' : σ} {a a' : α} :
    (pure a : EStateM ε σ α) s = .ok a' s' ↔ a' = a ∧ s' = s := by
  change Result.ok a s = .ok a' s' ↔ _
  simp [eq_comm]

theorem get_eq_ok {s s' x : σ} : (get : EStateM ε σ σ) s = .ok x s' ↔ x = s ∧ s' = s := by
  change Result.ok s s = .ok x s' ↔ _
  simp [eq_comm]

theorem modify_eq_ok {f : σ → σ} {s s' : σ} {u : PUnit} :
    (modify f : EStateM ε σ PUnit) s = .ok u s' ↔ s' = f s := by
  change Result.ok PUnit.unit (f s) = .ok u s' ↔ _
  simp [eq_comm]

theorem throw_eq_ok {e : ε} {s s' : σ} {a : α} :
    (throw e : EStateM ε σ α) s = .ok a s' ↔ False := by
  change Result.error e s = .ok a s' ↔ _
  simp

theorem ite_eq_ok {c : Prop} [Decidable c] {x y : EStateM ε σ α} {s s' : σ} {a : α} :
    (if c then x else y) s = .ok a s' ↔ c ∧ x s = .ok a s' ∨ ¬c ∧ y s = .ok a s' := by
  by_cases hc : c <;> simp [hc]

theorem lift_eq_ok {x : Except ε α} {s s' : σ} {a : α} :
    (liftM x : EStateM ε σ α) s = .ok a s' ↔ x = .ok a ∧ s' = s := by
  cases x with
  | error e =>
      change Result.error e s = .ok a s' ↔ _
      simp
  | ok b =>
      change Result.ok b s = .ok a s' ↔ _
      simp [eq_comm]

theorem discard_eq_ok {x : EStateM ε σ α} {s s' : σ} {u : PUnit} :
    (discard x : EStateM ε σ PUnit) s = .ok u s' ↔ ∃ a, x s = .ok a s' := by
  change EStateM.map (fun _ => PUnit.unit) x s = .ok u s' ↔ _
  rw [EStateM.map]
  cases x s <;> simp

theorem state_discard (x : EStateM ε σ α) (s : σ) :
    ((discard x : EStateM ε σ PUnit) s).state = (x s).state := by
  change (EStateM.map (fun _ => PUnit.unit) x s).state = _
  rw [EStateM.map]
  cases x s <;> rfl

theorem bind_of_ok {x : EStateM ε σ α} {f : α → EStateM ε σ β} {s s₁ : σ} {a : α}
    (h : x s = .ok a s₁) : (x >>= f) s = f a s₁ := by
  simp only [bind, EStateM.bind, h]

theorem bind_of_error {x : EStateM ε σ α} {f : α → EStateM ε σ β} {s s₁ : σ} {e : ε}
    (h : x s = .error e s₁) : (x >>= f) s = .error e s₁ := by
  simp only [bind, EStateM.bind, h]

/-- A computation succeeds with a property if its first step succeeds, and what follows it does
so with the property. -/
theorem exists_bind {P : σ → Prop} {x : EStateM ε σ α} {f : α → EStateM ε σ β} {s s₁ : σ} {a : α}
    {b : β} (hx : x s = .ok a s₁) (hf : ∃ s', f a s₁ = .ok b s' ∧ P s') :
    ∃ s', (x >>= f) s = .ok b s' ∧ P s' := by
  obtain ⟨s', hs', hP⟩ := hf
  exact ⟨s', (bind_of_ok hx).trans hs', hP⟩

/-- A computation succeeds if its first step does, and what follows it. -/
theorem bind_total {x : EStateM ε σ α} {f : α → EStateM ε σ β} {s s₁ : σ} {a : α} {b : β}
    (hx : x s = .ok a s₁) (hf : ∃ s', f a s₁ = .ok b s') : ∃ s', (x >>= f) s = .ok b s' := by
  obtain ⟨s', hs'⟩ := hf
  exact ⟨s', (bind_of_ok hx).trans hs'⟩

/-- What the first step of a computation leads to and the second one keeps. -/
theorem state_bind {P : σ → Prop} {x : EStateM ε σ α} {f : α → EStateM ε σ β} {s : σ}
    (hx : P (x s).state) (hf : ∀ a s, P s → P (f a s).state) : P ((x >>= f) s).state := by
  cases hresult : x s with
  | error e s₁ =>
      rw [bind_of_error hresult]
      rwa [hresult] at hx
  | ok a s₁ =>
      rw [bind_of_ok hresult]
      rw [hresult] at hx
      exact hf a s₁ hx

/-- What both steps of a computation keep, the whole keeps. -/
theorem bind_keeps {P : σ → Prop} {x : EStateM ε σ α} {f : α → EStateM ε σ β}
    (hx : ∀ s, P s → P (x s).state) (hf : ∀ a s, P s → P (f a s).state) (s : σ) (h : P s) :
    P ((x >>= f) s).state :=
  state_bind (hx s h) hf

/-- What a computation keeps, doing it for every element of a list keeps. -/
theorem forM_keeps {P : σ → Prop} {f : α → EStateM ε σ PUnit} (hf : ∀ a s, P s → P (f a s).state)
    (xs : List α) (s : σ) (h : P s) : P (xs.forM f s).state := by
  induction xs generalizing s with
  | nil => exact h
  | cons x rest ih =>
      exact bind_keeps (hf x) (fun _ s h => ih s h) s h

/-- An invariant of a successful loop, with what is still to be done. -/
theorem forM_ok {P : List α → σ → Prop} {f : α → EStateM ε σ PUnit}
    (hstep : ∀ x rest s s', P (x :: rest) s → f x s = .ok ⟨⟩ s' → P rest s') {xs : List α}
    {s s' : σ} (h : P xs s) (hok : xs.forM f s = .ok ⟨⟩ s') : P [] s' := by
  induction xs generalizing s with
  | nil =>
      cases hok
      exact h
  | cons x rest ih =>
      obtain ⟨_, s₁, hx, hrest⟩ := bind_eq_ok.mp hok
      exact ih (hstep x rest s s₁ h hx) hrest

/-- A successful loop, taken apart at one of its elements. -/
theorem forM_split {f : α → EStateM ε σ PUnit} {xs : List α} {x : α} {s s' : σ} (hx : x ∈ xs)
    (hok : xs.forM f s = .ok ⟨⟩ s') : ∃ before after s₁ s₂, xs = before ++ x :: after ∧
      before.forM f s = .ok ⟨⟩ s₁ ∧ f x s₁ = .ok ⟨⟩ s₂ ∧ after.forM f s₂ = .ok ⟨⟩ s' := by
  induction xs generalizing s with
  | nil => cases hx
  | cons y rest ih =>
      obtain ⟨_, s₁, hy, hrest⟩ := bind_eq_ok.mp hok
      rcases List.mem_cons.mp hx with rfl | hx
      · exact ⟨[], rest, s, s₁, rfl, rfl, hy, hrest⟩
      · obtain ⟨before, after, s₂, s₃, rfl, hbefore, hmid, hafter⟩ := ih hx hrest
        exact ⟨y :: before, after, s₂, s₃, rfl, bind_eq_ok.mpr ⟨_, s₁, hy, hbefore⟩, hmid, hafter⟩

/-- A loop over elements for which nothing happens. -/
theorem forM_idle {f : α → EStateM ε σ PUnit} {xs : List α} {s : σ}
    (h : ∀ x ∈ xs, f x s = .ok ⟨⟩ s) : xs.forM f s = .ok ⟨⟩ s := by
  induction xs with
  | nil => rfl
  | cons x rest ih =>
      obtain ⟨hx, hrest⟩ := List.forall_mem_cons.mp h
      exact bind_eq_ok.mpr ⟨⟨⟩, s, hx, ih hrest⟩

theorem forM_append {f : α → EStateM ε σ PUnit} {xs ys : List α} {s s₁ : σ}
    (h : xs.forM f s = .ok ⟨⟩ s₁) : (xs ++ ys).forM f s = ys.forM f s₁ := by
  induction xs generalizing s with
  | nil =>
      cases h
      rfl
  | cons x rest ih =>
      obtain ⟨_, s₂, hx, hrest⟩ := bind_eq_ok.mp h
      exact (bind_of_ok hx).trans (ih hrest)

/-- A loop succeeds if an invariant lets it take each of its steps. -/
theorem forM_total {P : List α → σ → Prop} {f : α → EStateM ε σ PUnit}
    (hstep : ∀ x rest s, P (x :: rest) s → ∃ s', f x s = .ok ⟨⟩ s' ∧ P rest s') {xs : List α}
    {s : σ} (h : P xs s) : ∃ s', xs.forM f s = .ok ⟨⟩ s' ∧ P [] s' := by
  induction xs generalizing s with
  | nil => exact ⟨s, rfl, h⟩
  | cons x rest ih =>
      obtain ⟨s₁, hx, h₁⟩ := hstep x rest s h
      obtain ⟨s', hrest, h'⟩ := ih h₁
      exact ⟨s', bind_eq_ok.mpr ⟨⟨⟩, s₁, hx, hrest⟩, h'⟩

/-- An invariant of a successful map, with what is still to be done and the results. -/
theorem mapM_ok {P : List α → List β → σ → Prop} {f : α → EStateM ε σ β}
    (hstep : ∀ x rest out s b s', P (x :: rest) out s → f x s = .ok b s' →
      P rest (out ++ [b]) s') {xs : List α} {out out' : List β} {s s' : σ} (h : P xs out s)
    (hok : xs.mapM f s = .ok out' s') : P [] (out ++ out') s' := by
  induction xs generalizing out out' s with
  | nil =>
      rw [List.mapM_nil, pure_eq_ok] at hok
      obtain ⟨rfl, rfl⟩ := hok
      rwa [List.append_nil]
  | cons x rest ih =>
      simp only [List.mapM_cons, bind_eq_ok, pure_eq_ok] at hok
      obtain ⟨b, s₁, hx, more, s₂, hrest, rfl, rfl⟩ := hok
      rw [← List.singleton_append, ← List.append_assoc]
      exact ih (hstep x rest out s b s₁ h hx) hrest

/-- The same where some elements have no result. -/
theorem filterMapM_ok {P : List α → List β → σ → Prop} {f : α → EStateM ε σ (Option β)}
    (hstep : ∀ x rest out s b? s', P (x :: rest) out s → f x s = .ok b? s' →
      P rest (out ++ b?.toList) s') {xs : List α} {out out' : List β} {s s' : σ} (h : P xs out s)
    (hok : xs.filterMapM f s = .ok out' s') : P [] (out ++ out') s' := by
  induction xs generalizing out out' s with
  | nil =>
      rw [List.filterMapM_nil, pure_eq_ok] at hok
      obtain ⟨rfl, rfl⟩ := hok
      rwa [List.append_nil]
  | cons x rest ih =>
      rw [List.filterMapM_cons, bind_eq_ok] at hok
      obtain ⟨b?, s₁, hx, hrest⟩ := hok
      have hP := hstep x rest out s b? s₁ h hx
      cases b? with
      | none =>
          rw [Option.toList_none, List.append_nil] at hP
          exact ih hP hrest
      | some b =>
          simp only [bind_eq_ok, pure_eq_ok] at hrest
          obtain ⟨more, s₂, hrest, rfl, rfl⟩ := hrest
          rw [← List.singleton_append, ← List.append_assoc]
          exact ih hP hrest

/-- A map that skips some elements succeeds if an invariant lets it take each of its steps. -/
theorem filterMapM_total {P : List α → List β → σ → Prop} {f : α → EStateM ε σ (Option β)}
    (hstep : ∀ x rest out s, P (x :: rest) out s →
      ∃ b? s', f x s = .ok b? s' ∧ P rest (out ++ b?.toList) s') {xs : List α} {out : List β} {s : σ}
    (h : P xs out s) : ∃ out' s', xs.filterMapM f s = .ok out' s' := by
  induction xs generalizing out s with
  | nil => exact ⟨[], s, by rw [List.filterMapM_nil]; rfl⟩
  | cons x rest ih =>
      obtain ⟨b?, s₁, hx, h₁⟩ := hstep x rest out s h
      obtain ⟨more, s', hrest⟩ := ih h₁
      rw [List.filterMapM_cons, bind_of_ok hx]
      cases b? with
      | none => exact ⟨more, s', hrest⟩
      | some b => exact ⟨b :: more, s', by dsimp only; rw [bind_of_ok hrest]; rfl⟩

end EStateM
