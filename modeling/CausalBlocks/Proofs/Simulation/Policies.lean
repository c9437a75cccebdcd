import CausalBlocks.Proofs.Scalar.Rational
import CausalBlocks.Proofs.Simulation.Tracking

/-!
# When schedules are made anew

The policy says at which iterations dependencies and schedules are made anew. The first two
iterations always make them anew, later ones have the dependencies of the second, and whatever
else changes the model starts over at the first. So what is kept is as good as what would be
made anew, and simulations under different policies do the same.
-/

namespace CausalBlocks

variable {α ω : Type}

/-- A call that runs a simulation. A run takes at most a number of iterations after the first. -/
inductive RunCall (α : Type) where
  | run (turns : Nat)
  | runUntil (time : α) (turns : Nat)
  | runSteps (steps : Nat)
  | step

/-- Performs a call. The answer says whether what was asked for came to its end. -/
def RunCall.perform [Scalar α] : RunCall α → Run α ω Bool
  | run turns => Simulation.run turns
  | runUntil time turns => do
    modify fun s => s.withEndTime time
    Simulation.run turns
  | runSteps steps => do
    Simulation.runSteps steps
    return true
  | step => do
    Simulation.step
    return true

/-- A sample more, or none for want of a port, leaves the shape of the model alone. -/
theorem Edit.sameShape_record (p : PortId) (x : Sample α) (e : Editor α) :
    e.diagram.SameShape (Edit.record p x e).state.diagram := by
  rw [Edit.record, Edit.modifyPort_apply]
  split
  next => exact Diagram.sameShape_modifyPort fun _ => rfl
  next => exact .refl _

namespace Simulation

open EStateM

variable {Q : Simulation α ω → Prop} {policy : RecomputePolicy} {s t : Simulation α ω}

/-- The simulation under another policy. -/
def withPolicy (s : Simulation α ω) (policy : RecomputePolicy) : Simulation α ω :=
  { s with
    scheduler := { s.scheduler with policy }
    settings := { s.settings with recompute := policy } }

/-- A simulation of which something holds, and the same one under another policy. -/
def Under (policy : RecomputePolicy) (Q : Simulation α ω → Prop) (s t : Simulation α ω) : Prop :=
  t = s.withPolicy policy ∧ Q s

/-- The model has a clock, and what is kept for the next iteration is of its dependencies. -/
def Ticking (s : Simulation α ω) : Prop := s.Current ∧ ∃ clock, s.diagram.clock = .ok clock

/-- A simulation between two calls: it has not begun, or its model has a clock. -/
def Runnable (s : Simulation α ω) : Prop := s.Ticking ∨ s.iteration = 0 ∧ s.started = false

/-- The next iteration is being computed with the schedule of its dependencies. -/
structure Scheduled (g : DependencyGraph) (s : Simulation α ω) : Prop where
  dependencies : s.diagram.dependencies s.iteration = .ok g
  graph : s.graph = some g
  kept : s.scheduler.kept = some g.schedule
  clocked : ∃ clock, s.diagram.clock = .ok clock

/-- A property of the shape of the model, the count of the iterations, and what is kept. -/
def Structural (Q : Simulation α ω → Prop) : Prop :=
  ∀ s s', s.diagram.SameShape s'.diagram → s'.iteration = s.iteration → s'.graph = s.graph →
    s'.scheduler = s.scheduler → Q s → Q s'

theorem exists_clock_of_sameShape {d d' : Diagram α} (hd : d.SameShape d')
    (hclock : ∃ clock, d.clock = .ok clock) : ∃ clock, d'.clock = .ok clock := by
  rwa [hd.clock]

theorem Ticking.structural : Structural (Ticking (α := α) (ω := ω)) := by
  rintro s s' hshape hiteration hgraph hscheduler ⟨hcurrent, hclock⟩
  refine ⟨fun k hk => ?_, exists_clock_of_sameShape hshape hclock⟩
  obtain ⟨g, hg, hkept⟩ := hcurrent k (hiteration ▸ hk)
  rw [hgraph, hscheduler, hshape.dependencies]
  exact ⟨g, hg, hkept⟩

namespace Scheduled

variable {g : DependencyGraph}

theorem structural : Structural (Scheduled (α := α) (ω := ω) g) := by
  rintro s s' hshape hiteration hgraph hscheduler h
  constructor
  · rw [hshape.dependencies, hiteration]
    exact h.dependencies
  · rw [hgraph]
    exact h.graph
  · rw [hscheduler]
    exact h.kept
  · exact exists_clock_of_sameShape hshape h.clocked

/-- An iteration that is given up leaves behind what the next attempt needs. -/
theorem ticking (h : Scheduled g s) : s.Ticking := by
  refine ⟨fun k hk => ⟨g, ?_, h.graph, h.kept⟩, h.clocked⟩
  rw [← h.dependencies, hk]
  exact (Diagram.dependencies_succ s.diagram (k + 1)).symm

/-- So does one that is computed. -/
theorem computed (h : Scheduled g s) :
    Ticking { s with iteration := s.iteration + 1 } := by
  refine ⟨fun k hk => ⟨g, ?_, h.graph, h.kept⟩, h.clocked⟩
  have hiteration : s.iteration = k + 1 := Nat.succ.inj hk
  exact (Diagram.dependencies_succ s.diagram k).symm.trans (hiteration ▸ h.dependencies)

end Scheduled

namespace Under

theorem forget (s t : Simulation α ω) (h : Under policy Q s t) : Under policy (fun _ => True) s t :=
  ⟨h.1, trivial⟩

theorem edit {β : Type} {action : Edit α β}
    (hQ : ∀ s : Simulation α ω, Q s → Q { s with editor := (action s.editor).state }) :
    Blind (Under policy Q) (edit action : Run α ω β) := by
  rintro s _ ⟨rfl, hs⟩
  have hkept := hQ s hs
  simp only [Simulation.edit, withPolicy]
  generalize action s.editor = r at hkept ⊢
  cases r with
  | ok x editor => exact .ok x ⟨rfl, hkept⟩
  | error failure editor => exact .error failure ⟨rfl, hkept⟩

/-- Another policy is not seen. -/
theorem unseen (hQ : Structural Q) : Unseen (Under policy Q) where
  backstage := by
    rintro s _ ⟨rfl, _⟩
    exact ⟨⟨s.editor.journal, s.graph, { s.scheduler with policy }, policy⟩, rfl⟩
  frontal := by
    rintro f hf s _ ⟨rfl, hs⟩
    have hcommutes := hf.commutes s ⟨s.editor.journal, s.graph, { s.scheduler with policy }, policy⟩
    refine ⟨hcommutes.trans ?_, ?_⟩
    · rw [hf.keeps s]
      rfl
    · rw [hf.keeps s]
      exact hQ s _ (.refl _) rfl rfl rfl hs
  record p x := edit fun s => hQ s _ (Edit.sameShape_record p x s.editor) rfl rfl rfl
  report _ := edit fun s => hQ s _ (.refl _) rfl rfl rfl

theorem unseen_any : Unseen (Under (α := α) (ω := ω) policy fun _ => True) :=
  unseen fun _ _ _ _ _ _ => id

theorem unseen_ticking : Unseen (Under (α := α) (ω := ω) policy Ticking) :=
  unseen Ticking.structural

/-! ### Iterations -/

variable [Scalar α]

omit [Scalar α] in
/-- What is kept is as good as what is made anew. -/
theorem currentSchedule (hs : s.Ticking) :
    Agree (fun s₁ t₁ => ∃ g, Under policy (Scheduled g) s₁ t₁) (Under policy Ticking)
      (currentSchedule s.iteration s) (currentSchedule s.iteration (s.withPolicy policy)) := by
  obtain ⟨hcurrent, hclock⟩ := hs
  let other := s.withPolicy policy
  cases hg : s.diagram.dependencies s.iteration with
  | ok g =>
      have hother := currentSchedule_total (s := other) hcurrent hg
      rw [currentSchedule_total hcurrent hg]
      refine hother ▸ .ok g.schedule ⟨g, rfl, hg, rfl, rfl, hclock⟩
  | error failure =>
      -- only the first two iterations can be without dependencies, and they make them anew
      have hearly : s.iteration < 2 := by
        by_contra hlate
        obtain ⟨k, hk⟩ : ∃ k, s.iteration = k + 2 := ⟨s.iteration - 2, by omega⟩
        obtain ⟨g, hg', _⟩ := hcurrent k hk
        rw [hk, Diagram.dependencies_succ, hg'] at hg
        cases hg
      have hother := currentSchedule_failing (s := other) (recomputesAt_of_lt_two _ hearly) hg
      rw [currentSchedule_failing (recomputesAt_of_lt_two _ hearly) hg]
      exact hother ▸ .error failure ⟨rfl, hcurrent, hclock⟩

theorem computeGroups {g : DependencyGraph} (tick : Tick α) (groups : List Group)
    (h : Under policy (Scheduled g) s t) :
    Agree (Under policy Ticking) (Under policy Ticking) (computeGroups tick groups s)
      (computeGroups tick groups t) := by
  have hgroups : Blind (Under policy (Scheduled g)) (groups.forM (computeGroup tick) : Run α ω Unit) :=
    .forM ((unseen Scheduled.structural).hidden.computeGroup tick) groups
  refine (hgroups.agree h fun _ _ h => ⟨h.1, h.2.ticking⟩).bind fun _ s₁ t₁ _ h₁ => ?_
  obtain ⟨rfl, hscheduled⟩ := h₁
  exact .ok _ ⟨rfl, hscheduled.computed⟩

theorem computeStep : Blind (Under policy Ticking) (computeStep : Run α ω Unit) := by
  rintro s _ ⟨rfl, hs⟩
  have htick : (s.withPolicy policy).nextTick = s.nextTick := rfl
  cases hnext : s.nextTick with
  | error failure =>
      rw [computeStep_of_error hnext, computeStep_of_error (htick.trans hnext)]
      exact .error failure ⟨rfl, hs⟩
  | ok tick =>
      rw [computeStep_of_ok hnext, computeStep_of_ok (htick.trans hnext)]
      refine (currentSchedule hs).bind fun groups s₁ t₁ _ h₁ => ?_
      obtain ⟨g, h₁⟩ := h₁
      exact computeGroups tick groups h₁

omit [Scalar α] in
theorem rewindStep : Blind (Under policy Ticking) (rewindStep : Run α ω Unit) := by
  rintro s _ ⟨rfl, hcurrent, hclock⟩
  exact .ok () ⟨rfl, hcurrent.rewindStep rfl,
    exists_clock_of_sameShape s.diagram.sameShape_rewind hclock⟩

theorem unnoticed : Unnoticed (Under (α := α) (ω := ω) policy Ticking) :=
  { unseen_ticking with
    computeStep := computeStep
    rewindStep := rewindStep }

/-! ### Events -/

omit [Scalar α] in
theorem fire (index : Nat) (time : α) :
    Blind (Under policy fun _ => True) (fire index time : Run α ω Unit) := by
  rintro s _ ⟨rfl, _⟩
  simp only [Simulation.fire, withPolicy]
  cases s.events[index]? with
  | none => exact .ok () ⟨rfl, trivial⟩
  | some event =>
      dsimp only
      cases event.callback time { editor := s.editor, stop := s.stop, world := s.world } with
      | ok _ scene => exact .ok () ⟨rfl, trivial⟩
      | error failure scene => exact .error failure ⟨rfl, trivial⟩

omit [Scalar α] in
/-- Nothing is kept for the iteration at which the clock starts anew. -/
theorem restart (time : α) (h : Under policy (fun _ => True) s t) :
    Agree (Under policy Ticking) (Under policy fun _ => True) (restart time s) (restart time t) := by
  refine .get_bind ?_
  have hsame := h.1
  subst hsame
  refine ((Blind.lift s.diagram.clock).agree h forget).bind fun old s₁ t₁ _ h₁ => ?_
  refine ((Blind.lift (s.clockParameters old)).agree h₁ forget).bind fun (start, _) s₂ t₂ _ h₂ => ?_
  refine ((unseen_any.update ⟨fun _ _ => rfl, fun _ => rfl⟩).agree h₂ forget).bind
    fun _ s₃ t₃ _ h₃ => ?_
  refine ((edit fun _ => id).agree h₃ forget).bind fun _ s₄ t₄ _ h₄ => ?_
  refine ((edit fun _ => id).agree h₄ forget).bind fun _ s₅ t₅ _ h₅ => ?_
  refine (unseen_any.hidden.model.agree h₅ forget).bind fun d s₆ t₆ hmodel h₆ => ?_
  refine ((Blind.lift d.clock).agree h₆ forget).bind fun clock s₇ t₇ hclock h₇ => ?_
  obtain ⟨rfl, rfl⟩ := model_eq_ok.mp hmodel
  obtain ⟨hclock, rfl⟩ := lift_eq_ok.mp hclock
  obtain ⟨rfl, -⟩ := h₇
  exact .ok _ ⟨rfl, .of_iteration_eq_zero rfl, clock, hclock⟩

theorem handleCrossing (first : Candidate α) (candidates : List (Candidate α))
    (h : Under policy Ticking s t) :
    Agree (Under policy Ticking) (Under policy fun _ => True) (handleCrossing first candidates s)
      (handleCrossing first candidates t) := by
  rw [handleCrossing_eq]
  refine ((unnoticed.approach first candidates).agree h forget).bind fun (time, index) s₁ t₁ _ h₁ =>
    unseen_ticking.hidden.conclude forget h₁ fun s₂ t₂ _ h₂ => ?_
  exact ((fire index time).agree (forget s₂ t₂ h₂) forget).bind fun _ _ _ _ h₃ => restart time h₃

theorem processEvents (h : Under policy Ticking s t) :
    Agree (Under policy Ticking) (Under policy fun _ => True) (processEvents s)
      (processEvents t) := by
  refine (unseen_ticking.hidden.inspectEvents.agree h forget).bind
    fun candidates s₁ t₁ _ h₁ => ?_
  cases candidates with
  | nil => exact .ok none h₁
  | cons first rest =>
      exact (handleCrossing first (first :: rest) h₁).bind fun index _ _ _ h₂ => .ok (some index) h₂

/-! ### Turns -/

/-- Making ready finds a clock or adds one. -/
theorem prepare (hs : s.Ticking ∨ s.iteration = 0) :
    Agree (Under policy Ticking) (Under policy fun _ => True) (prepare s)
      (prepare (s.withPolicy policy)) := by
  have hensure (step : α) : Agree (Under policy Current) (Under policy fun _ => True)
      (ensureClock step s) (ensureClock step (s.withPolicy policy)) := by
    rcases hs with ⟨hcurrent, clock, hclock⟩ | hzero
    · rw [ensureClock_of_clock hclock, ensureClock_of_clock (s := s.withPolicy policy) hclock]
      exact .ok clock ⟨rfl, hcurrent⟩
    · have hunseen : Unseen (Under (α := α) (ω := ω) policy fun s => s.iteration = 0) :=
        unseen fun _ _ _ hiteration _ _ h => hiteration.trans h
      refine (hunseen.hidden.ensureClock (fun _ _ _ _ => edit fun _ => id) step s _ ⟨rfl, hzero⟩).mono
        (fun s₁ t₁ h => ⟨h.1, .of_iteration_eq_zero h.2⟩) forget
  refine .get_bind (.ite ?_ (.error _ ⟨rfl, trivial⟩))
  refine (hensure _).bind fun clock s₁ t₁ _ h₁ => ?_
  obtain ⟨rfl, hcurrent⟩ := h₁
  have hsame : Agree (Under policy Current) (Under policy fun _ => True) (model s₁)
      (model (s₁.withPolicy policy)) := .ok s₁.diagram ⟨rfl, hcurrent⟩
  refine hsame.bind fun d s₂ t₂ hmodel h₂ => ?_
  refine ((Blind.lift d.validate).agree h₂ forget).bind fun _ s₃ t₃ hvalid h₃ => ?_
  obtain ⟨rfl, rfl⟩ := model_eq_ok.mp hmodel
  obtain ⟨hvalid, rfl⟩ := lift_eq_ok.mp hvalid
  have h₃' : Under policy Ticking s₃ t₃ := ⟨h₃.1, h₃.2, clock_of_validate hvalid⟩
  exact (unseen_ticking.hidden.launch clock).agree h₃' forget

/-- A simulation that goes on has a clock; one that has not begun gets one. -/
theorem ready (hs : s.Runnable) :
    Agree (Under policy Ticking) (Under policy fun _ => True) (ready s)
      (ready (s.withPolicy policy)) := by
  refine .get_bind ?_
  by_cases hstarted : s.started = true
  · rw [if_pos hstarted, if_pos (show (s.withPolicy policy).started = true from hstarted)]
    refine .ok () ⟨rfl, hs.resolve_right fun hfresh => ?_⟩
    rw [hfresh.2] at hstarted
    cases hstarted
  · rw [if_neg hstarted, if_neg (show ¬(s.withPolicy policy).started = true from hstarted)]
    exact prepare (hs.imp_right And.left)

theorem advance (hs : s.Runnable) :
    Agree (Under policy Ticking) (Under policy fun _ => True) (advance s)
      (advance (s.withPolicy policy)) := by
  have hattempt : Agree (Under policy Ticking) (Under policy fun _ => True) (attempt s)
      (attempt (s.withPolicy policy)) :=
    unseen_ticking.hidden.attempt unseen_ticking.hidden forget (ready hs) fun _ _ h => computeStep.agree h forget
  exact unseen_ticking.hidden.advance forget hattempt fun _ _ _ h => processEvents h

/-! ### Runs -/

omit [Scalar α] in
theorem reset (h : Under policy (fun _ => True) s t) :
    Agree (Under policy fun s => s.iteration = 0) (Under policy fun _ => True) (reset s)
      (reset t) := by
  have hrestore : Blind (Under policy fun _ => True) (restoreStart : Run α ω Unit) := by
    refine unseen_any.read (fun _ _ => rfl) fun s => ?_
    cases s.firstStart with
    | none => exact .pure _
    | some start =>
        exact .bind (unseen_any.update ⟨fun _ _ => rfl, fun _ => rfl⟩) fun _ => edit fun _ => id
  refine (hrestore.agree h forget).bind fun _ s₁ t₁ _ h₁ => ?_
  refine ((edit fun _ => id).agree h₁ forget).bind fun _ s₂ t₂ _ h₂ => ?_
  obtain ⟨rfl, -⟩ := h₂
  exact .ok _ ⟨rfl, rfl⟩

/-- Whatever was before, it is forgotten. -/
theorem begin (h : Under policy (fun _ => True) s t) :
    Agree (Under policy Ticking) (Under policy fun _ => True) (begin s) (begin t) := by
  refine (reset h).bind fun _ s₁ t₁ _ h₁ => ?_
  obtain ⟨rfl, hzero⟩ := h₁
  exact prepare (.inr hzero)

theorem advances (s t : Simulation α ω) (h : Under policy Ticking s t) :
    Agree (Under policy Ticking) (Under policy fun _ => True) (Simulation.advance s)
      (Simulation.advance t) := by
  obtain ⟨rfl, hs⟩ := h
  exact advance (.inl hs)

theorem run (turns : Nat) (h : Under policy (fun _ => True) s t) :
    Agree (Under policy Ticking) (Under policy fun _ => True) (run turns s) (run turns t) := by
  refine (begin h).bind fun _ s₁ t₁ _ h₁ => unseen_ticking.hidden.concluding unseen_any.hidden ?_
  refine Agree.bind ?_ fun _ s₂ t₂ _ h₂ => unseen_ticking.continueRun forget advances turns s₂ t₂ h₂
  exact (advances s₁ t₁ h₁).discard.bind fun _ s₂ t₂ _ h₂ => unseen_ticking.pace.agree h₂ forget

theorem runSteps (steps : Nat) (h : Under policy (fun _ => True) s t) :
    Agree (Under policy Ticking) (Under policy fun _ => True) (runSteps steps s)
      (runSteps steps t) := by
  exact (begin h).bind fun _ s₁ t₁ _ h₁ =>
    unseen_ticking.hidden.concluding unseen_any.hidden
      (unseen_ticking.hidden.takeSteps advances steps s₁ t₁ h₁)

/-- Every call that runs a simulation does the same under another policy. -/
theorem perform (call : RunCall α) (hs : s.Runnable) :
    Agree (Under policy Ticking) (Under policy fun _ => True) (call.perform s)
      (call.perform (s.withPolicy policy)) := by
  have h : Under policy (fun _ => True) s (s.withPolicy policy) := ⟨rfl, trivial⟩
  cases call with
  | run turns => exact run turns h
  | runUntil time turns => exact run (s := s.withEndTime time) turns ⟨rfl, trivial⟩
  | runSteps steps => exact (runSteps steps h).bind fun _ _ _ _ h₁ => .ok true h₁
  | step => exact (advance hs).discard.bind fun _ _ _ _ h₁ => .ok true h₁

theorem performAll (calls : List (RunCall α)) (hs : s.Runnable) :
    Agree (Under policy Runnable) (Under policy fun _ => True) (calls.mapM RunCall.perform s)
      (calls.mapM RunCall.perform (s.withPolicy policy)) := by
  induction calls generalizing s with
  | nil => exact .ok [] ⟨rfl, hs⟩
  | cons call rest ih =>
      rw [List.mapM_cons]
      refine (perform call hs).bind fun answer s₁ t₁ _ h₁ => ?_
      obtain ⟨rfl, hticking⟩ := h₁
      exact (ih (.inl hticking)).bind fun answers _ _ _ h₂ => .ok (answer :: answers) h₂

end Under

end Simulation

end CausalBlocks
