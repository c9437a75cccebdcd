import CausalBlocks.Proofs.Simulation.Offstage

/-!
# Computations that tell nobody

Whoever listens to a run hears of an iteration before it is computed, and of its values when it
stays. All the rest of a turn is silent, whether it succeeds or not: the iteration itself, the
look at the events, trial iterations, the callback, the restart, and the wait for the next turn.
-/

namespace EStateM

variable {ε σ α β γ : Type} {view : σ → γ}

/-- A computation leaves what a view shows of the state, also when it fails. -/
def Spares (view : σ → γ) (x : EStateM ε σ α) : Prop := ∀ s, view (x s).state = view s

namespace Spares

theorem pure (a : α) : Spares view (Pure.pure a : EStateM ε σ α) := fun _ => rfl

theorem throw (e : ε) : Spares view (throw e : EStateM ε σ α) := fun _ => rfl

theorem lift (x : Except ε α) : Spares view (liftM x : EStateM ε σ α) := by
  cases x with
  | error e => exact throw e
  | ok a => exact pure a

theorem modify {f : σ → σ} (hf : ∀ s, view (f s) = view s) :
    Spares view (modify f : EStateM ε σ PUnit) := hf

theorem bind {x : EStateM ε σ α} {f : α → EStateM ε σ β} (hx : Spares view x)
    (hf : ∀ a, Spares view (f a)) : Spares view (x >>= f) := fun s =>
  bind_keeps (P := fun s₁ => view s₁ = view s) (fun s₁ h => (hx s₁).trans h)
    (fun a s₁ h => (hf a s₁).trans h) s rfl

theorem read {f : σ → EStateM ε σ β} (hf : ∀ s, Spares view (f s)) : Spares view (get >>= f) :=
  fun s => hf s s

theorem ite {c : Prop} [Decidable c] {x y : EStateM ε σ α} (hx : Spares view x)
    (hy : Spares view y) : Spares view (if c then x else y) := by
  split
  · exact hx
  · exact hy

theorem forM {f : α → EStateM ε σ PUnit} (hf : ∀ a, Spares view (f a)) (xs : List α) :
    Spares view (xs.forM f) := fun s =>
  forM_keeps (P := fun s₁ => view s₁ = view s) (fun a s₁ h => (hf a s₁).trans h) xs s rfl

theorem mapM {f : α → EStateM ε σ β} (hf : ∀ a, Spares view (f a)) (xs : List α) :
    Spares view (xs.mapM f) := by
  induction xs with
  | nil => exact pure _
  | cons x rest ih =>
      rw [List.mapM_cons]
      exact bind (hf x) fun _ => bind ih fun _ => pure _

theorem filterMapM {f : α → EStateM ε σ (Option β)} (hf : ∀ a, Spares view (f a)) (xs : List α) :
    Spares view (xs.filterMapM f) := by
  induction xs with
  | nil => exact pure _
  | cons x rest ih =>
      rw [List.filterMapM_cons]
      refine bind (hf x) fun b? => ?_
      cases b? with
      | none => exact ih
      | some b => exact bind ih fun _ => pure _

end Spares

end EStateM

namespace CausalBlocks.Simulation

open EStateM

variable {α β ω : Type}

/-- Who listens to a simulation, and to what. -/
structure Audience (α : Type) where
  tracers : Dispatcher α
  signalPorts : List PortId
  started : Bool

def audience (s : Simulation α ω) : Audience α := ⟨s.tracers, s.signalPorts, s.started⟩

/-- A computation that tells the audience nothing, and leaves it as it is. -/
abbrev Silent (x : Run α ω β) : Prop := Spares audience x

namespace Silent

theorem edit (action : Edit α β) : Silent (edit action : Run α ω β) := by
  intro s
  rw [Simulation.edit]
  cases action s.editor <;> rfl

theorem model : Silent (model : Run α ω (Diagram α)) := .read fun _ => .pure _

/-! ### One iteration -/

theorem holdPort (time : α) (p : PortId) : Silent (holdPort time p : Run α ω Unit) := by
  refine .bind model fun d => .bind (.lift _) fun port => ?_
  cases port.history.newest? with
  | some last => exact edit _
  | none => exact .read fun _ => .throw _

theorem holdOutputs (id : BlockId) (time : α) : Silent (holdOutputs id time : Run α ω Unit) :=
  .bind model fun _ => .bind (.lift _) fun _ => .forM (holdPort time) _

theorem setOutputs (id : BlockId) (time : α) (values : List α) :
    Silent (setOutputs id time values : Run α ω Unit) :=
  .forM (fun _ => edit _) _

theorem feedInput (p : PortId) (tick : Tick α) : Silent (feedInput p tick : Run α ω Unit) := by
  refine .read fun s => .ite (.bind (.lift _) fun port => ?_) (.pure _)
  dsimp only
  cases s.inputs.lookup port.name with
  | some value => exact edit _
  | none => exact .throw _

variable [Scalar α]

theorem isDue (id : BlockId) (tick : Tick α) : Silent (isDue id tick : Run α ω Bool) :=
  .bind model fun _ => .bind (.lift _) fun _ => .pure _

theorem announce (id : BlockId) (operator : Operator α) (tick : Tick α) :
    Silent (announce id operator tick : Run α ω Unit) := by
  refine .bind model fun d => ?_
  cases operator.notice? (d.pathOf id) tick (readerOf d id) with
  | some notice => exact edit _
  | none => exact .pure _

theorem applyOperator (id : BlockId) (tick : Tick α) :
    Silent (applyOperator id tick : Run α ω Unit) :=
  .bind model fun _ => .bind (.lift _) fun _ => .bind (announce _ _ _) fun _ =>
    .bind (.lift _) fun _ => setOutputs _ _ _

theorem computeBlock (id : BlockId) (tick : Tick α) :
    Silent (computeBlock id tick : Run α ω Unit) :=
  .bind (isDue id tick) fun _ => .ite (applyOperator id tick) (holdOutputs id tick.time)

theorem computeLoop (ids : List BlockId) (tick : Tick α) :
    Silent (computeLoop ids tick : Run α ω Unit) := by
  refine .bind model fun _ => .bind (.lift _) fun _ => .forM (fun (id, value) => ?_) _
  exact .bind (isDue id tick) fun _ => .ite (edit _) (holdOutputs id tick.time)

theorem computeGroup (tick : Tick α) (group : Group) :
    Silent (computeGroup tick group : Run α ω Unit) := by
  cases group with
  | block id => exact computeBlock id tick
  | port p => exact feedInput p tick
  | cycle ids => exact computeLoop ids tick

omit [Scalar α] in
theorem currentSchedule (iteration : Nat) :
    Silent (currentSchedule iteration : Run α ω (List Group)) := by
  have hrenew : Silent (renewGraph iteration : Run α ω DependencyGraph) :=
    .bind model fun _ => .bind (.lift _) fun _ => .bind (.modify fun _ => rfl) fun _ => .pure _
  have hgraph : Silent (currentGraph iteration : Run α ω DependencyGraph) := by
    refine .read fun s => ?_
    split
    · exact .pure _
    · exact hrenew
  exact .bind hgraph fun _ => .read fun _ => .bind (.modify fun _ => rfl) fun _ => .pure _

theorem computeStep : Silent (computeStep : Run α ω Unit) :=
  .read fun _ => .bind (.lift _) fun tick => .bind (currentSchedule _) fun _ =>
    .bind (.forM (computeGroup tick) _) fun _ => .modify fun _ => rfl

omit [Scalar α] in
theorem rewindStep : Silent (rewindStep : Run α ω Unit) :=
  .bind (.modify fun _ => rfl) fun _ => edit _

/-! ### Trials -/

theorem computeForced (step : α) : Silent (computeForced step : Run α ω Unit) := by
  intro s
  have hsilent := computeStep { s with forcedStep := some step }
  rw [Simulation.computeForced]
  cases hcompute : Simulation.computeStep { s with forcedStep := some step } <;>
  · rw [hcompute] at hsilent
    exact hsilent

theorem probe (watch : Watch α) (lower time : α) :
    Silent (probe watch lower time : Run α ω α) := by
  refine .bind (computeForced _) fun _ => .bind model fun _ => .bind (.lift _) fun history =>
    .bind rewindStep fun _ => ?_
  cases history.newest? with
  | some sample => exact .pure _
  | none => exact .read fun _ => .throw _

theorem search (watch : Watch α) (lower : α) (search : Search α) :
    Silent (search.run (Simulation.probe watch lower) : Run α ω α) := by
  induction search with
  | found time => exact .pure time
  | probe time next ih => exact .bind (probe watch lower time) ih

theorem locate (lower : α) (candidate : Candidate α) :
    Silent (locate lower candidate : Run α ω (α × Nat)) :=
  .read fun _ => .bind (search _ lower _) fun _ => .pure _

theorem approach (first : Candidate α) (candidates : List (Candidate α)) :
    Silent (approach first candidates : Run α ω (α × Nat)) :=
  .bind rewindStep fun _ => .bind (.mapM (locate _) _) fun _ =>
    .bind (computeForced _) fun _ => .pure _

/-! ### Events -/

omit [Scalar α] in
theorem setFired (index : Nat) (fired : Bool) : Silent (setFired index fired : Run α ω Unit) :=
  .modify fun _ => rfl

theorem inspectEvents : Silent (inspectEvents : Run α ω (List (Candidate α))) := by
  refine .read fun _ => .filterMapM (fun index => .read fun s => ?_) _
  split
  next => exact .pure _
  next => exact .bind (.lift _) fun _ => .ite (.bind (setFired _ _) fun _ => .pure _) (.pure _)
  next => exact .bind (.lift _) fun _ => .ite (.bind (.lift _) fun _ => .pure _) (.pure _)

omit [Scalar α] in
theorem fire (index : Nat) (time : α) : Silent (fire index time : Run α ω Unit) := by
  intro s
  rw [Simulation.fire]
  split
  next => rfl
  next event _ =>
    cases event.callback time { editor := s.editor, stop := s.stop, world := s.world } <;> rfl

omit [Scalar α] in
theorem restart (time : α) : Silent (restart time : Run α ω Unit) :=
  .read fun _ => .bind (.lift _) fun _ => .bind (.lift _) fun _ =>
    .bind (.modify fun _ => rfl) fun _ => .bind (edit _) fun _ => .bind (edit _) fun _ =>
      .bind model fun _ => .bind (.lift _) fun _ => .modify fun _ => rfl

theorem pace : Silent (pace : Run α ω Unit) := by
  refine .read fun s => ?_
  cases s.pacer with
  | none => exact .pure _
  | some pacer =>
      have hkeep (pacer : Pacer α) : Silent (modify fun s : Simulation α ω =>
          { s with pacer := some pacer } : Run α ω PUnit) := .modify fun _ => rfl
      exact .bind (.lift _) fun _ => .bind (.lift _) fun _ =>
        .ite (.bind (edit _) fun _ => hkeep _) (hkeep _)

end Silent

end CausalBlocks.Simulation
