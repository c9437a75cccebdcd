import CausalBlocks.Proofs.Simulation.Backstage
import CausalBlocks.Proofs.Simulation.Course
import CausalBlocks.Proofs.Simulation.Underway

/-!
# Simulations that echo each other

Notices are written and never read. What is kept of dependencies and schedules is read only
where the policy does not ask for them to be made anew. Simulations that differ in nothing
else go on in the same way.
-/

namespace CausalBlocks

variable {α β ω : Type}

/-! ### Edits -/

namespace Edit

/-- Two editors at work on one diagram. What they noted may differ. -/
def SameDiagram (e f : Editor α) : Prop := f.diagram = e.diagram

/-- An edit that takes no notice of the notices given so far. -/
abbrev Deaf (action : Edit α β) : Prop := EStateM.Blind SameDiagram action

namespace Deaf

theorem diagram : Deaf (diagram : Edit α (Diagram α)) := by
  rintro ⟨d, journal⟩ ⟨_, journal'⟩ rfl
  exact .ok _ rfl

theorem update (f : Diagram α → Diagram α) : Deaf (update f) :=
  .modify fun _ _ h => congrArg f h

theorem report (notice : Notice α) : Deaf (report notice) := .modify fun _ _ h => h

theorem modifyBlock (id : BlockId) (f : Block α → Block α) : Deaf (Edit.modifyBlock id f) :=
  .bind diagram fun _ => .bind (.lift _) fun _ => update _

theorem modifyPort (id : PortId) (f : Port α → Port α) : Deaf (Edit.modifyPort id f) :=
  .bind diagram fun _ => .bind (.lift _) fun _ => update _

theorem record (p : PortId) (x : Sample α) : Deaf (record p x) := modifyPort _ _

theorem setClockStart (start : α) : Deaf (setClockStart start) :=
  .bind diagram fun _ => .bind (.lift _) fun _ => modifyBlock _ _

theorem childName (parent : BlockId) (name : String) :
    Deaf (childName parent name : Edit α String) :=
  .ite (.bind diagram fun _ => .bind (.lift _) fun _ => .bind (report _) fun _ => .pure _) (.pure _)

theorem adopt (parent : BlockId) (name : String) (blocks : List (Block α)) :
    Deaf (adopt parent name blocks) :=
  .bind diagram fun _ => .bind (update _) fun _ => .bind (modifyBlock _ _) fun _ => .pure _

theorem addBlock (parent : BlockId) (name : String) (operator : Operator α) :
    Deaf (addBlock parent name operator) := by
  -- the checks of the composite, the look of the name and the name itself
  refine .bind diagram fun _ => .bind (.lift _) fun _ => .ite ?_ (.throw_bind _ _)
  refine .bind (childName _ _) fun _ => .ite ?_ (.bind (report _) fun _ => ?_)
  all_goals exact .ite (.bind (report _) fun _ => .throw_bind _ _) (adopt _ _ _)

theorem connect (parent : BlockId) (source target : String) (output input : Option String) :
    Deaf (connect parent source target output input : Edit α Unit) := by
  refine .bind diagram fun _ => .bind (.lift _) fun _ => .bind (.lift _) fun _ => ?_
  refine .bind diagram fun _ => .bind (.lift _) fun _ => .bind (.lift _) fun _ => ?_
  exact .ite (.throw_bind _ _) (.bind (modifyPort _ _) fun _ => modifyPort _ _)

theorem addFixedRateClock (parent : BlockId) (stem : String) (step start : α) :
    Deaf (addFixedRateClock parent stem step start) :=
  .bind (addBlock _ _ _) fun _ => .bind (addBlock _ _ _) fun _ =>
    .bind (connect _ _ _ _ _) fun _ => .pure _

end Deaf

end Edit

/-- Two scenes of one model. What was noted may differ. -/
def Scene.SameModel (x y : Scene α ω) : Prop :=
  ∃ journal, y = { x with editor := { x.editor with journal } }

/-- A callback that takes no notice of the notices given so far. -/
def Callback.Deaf (callback : Callback α ω) : Prop :=
  ∀ time, EStateM.Blind Scene.SameModel (callback time)

namespace Simulation

/-! ### Simulations -/

/-- Two simulations that differ at most in their notices and, where there is an excuse for it,
in what is kept of dependencies and schedules. -/
def Echoes (excuse : RecomputePolicy → Nat → Prop) (s t : Simulation α ω) : Prop :=
  ∃ journal graph kept,
    (excuse s.scheduler.policy s.iteration ∨ graph = s.graph ∧ kept = s.scheduler.kept) ∧
      t = { s with
        editor := { s.editor with journal }, graph, scheduler := { s.scheduler with kept } }

/-- The next iteration makes everything anew. -/
def Renewing (policy : RecomputePolicy) (iteration : Nat) : Prop :=
  policy.recomputesAt iteration = true

/-- There is no excuse. -/
def Never (_ : RecomputePolicy) (_ : Nat) : Prop := False

/-- A step that takes no notice of the notices given so far. -/
abbrev Deaf (excuse : RecomputePolicy → Nat → Prop) (action : Run α ω β) : Prop :=
  EStateM.Blind (Echoes excuse) action

namespace Echoes

variable {excuse : RecomputePolicy → Nat → Prop} {s t u : Simulation α ω}

theorem refl (excuse : RecomputePolicy → Nat → Prop) (s : Simulation α ω) : Echoes excuse s s :=
  ⟨s.editor.journal, s.graph, s.scheduler.kept, .inr ⟨rfl, rfl⟩, rfl⟩

theorem of_never (h : Echoes Never s t) : Echoes excuse s t := by
  obtain ⟨journal, graph, kept, hfalse | hsame, ht⟩ := h
  · cases hfalse
  · exact ⟨journal, graph, kept, .inr hsame, ht⟩

theorem trans (h : Echoes excuse s t) (h' : Echoes excuse t u) : Echoes excuse s u := by
  obtain ⟨_, graph, kept, hkept, rfl⟩ := h
  obtain ⟨journal, graph', kept', hkept', rfl⟩ := h'
  refine ⟨journal, graph', kept', ?_, rfl⟩
  rcases hkept with hexcuse | ⟨rfl, rfl⟩
  · exact .inl hexcuse
  · exact hkept'

theorem diagram (h : Echoes excuse s t) : t.diagram = s.diagram := by
  obtain ⟨_, _, _, _, rfl⟩ := h
  rfl

theorem iteration (h : Echoes excuse s t) : t.iteration = s.iteration := by
  obtain ⟨_, _, _, _, rfl⟩ := h
  rfl

end Echoes

namespace Deaf

variable {excuse : RecomputePolicy → Nat → Prop}

theorem edit {action : Edit α β} (haction : Edit.Deaf action) :
    Deaf excuse (edit action : Run α ω β) := by
  rintro s _ ⟨journal, graph, kept, h, rfl⟩
  have hagree := haction s.editor { s.editor with journal } rfl
  rw [Simulation.edit, Simulation.edit]
  generalize action s.editor = r, action { s.editor with journal } = r' at hagree ⊢
  cases hagree with
  | @ok x e f hsame =>
      cases f with | mk d journal' =>
      cases hsame
      exact .ok x ⟨journal', graph, kept, h, rfl⟩
  | @error failure e f hsame =>
      cases f with | mk d journal' =>
      cases hsame
      exact .error failure ⟨journal', graph, kept, h, rfl⟩

end Deaf

/-- Simulations that echo each other differ behind the scenes. -/
theorem Echoes.unseen (excuse : RecomputePolicy → Nat → Prop) :
    Unseen (Echoes (α := α) (ω := ω) excuse) where
  backstage := by
    rintro s _ ⟨journal, graph, kept, _, rfl⟩
    exact ⟨⟨journal, graph, { s.scheduler with kept }, s.settings.recompute⟩, rfl⟩
  frontal := by
    rintro f hf s _ ⟨journal, graph, kept, h, rfl⟩
    have hcommutes := hf.commutes s ⟨journal, graph, { s.scheduler with kept }, s.settings.recompute⟩
    refine ⟨journal, graph, kept, ?_, hcommutes.trans ?_⟩
    · rw [hf.keeps s]
      exact h
    · rw [hf.keeps s]
      rfl
  record _ _ := Deaf.edit (.record _ _)
  report _ := Deaf.edit (.report _)

/-! ### Schedules -/

section Renewing

variable {s : Simulation α ω} {n : Nat} {g : DependencyGraph} {failure : Failure α}

theorem currentGraph_renewing (h : Renewing s.scheduler.policy n) :
    currentGraph n s = renewGraph n s := by
  refine (EStateM.bind_of_ok (s := s) rfl).trans ?_
  rw [Renewing] at h
  simp only [h]
  cases s.graph <;> rfl

/-- An iteration that makes everything anew uses the schedule of its dependencies. -/
theorem currentSchedule_renewing (h : Renewing s.scheduler.policy n)
    (hg : s.diagram.dependencies n = .ok g) : currentSchedule n s = .ok g.schedule
      { s with graph := some g, scheduler := { s.scheduler with kept := some g.schedule } } := by
  have hgraph : currentGraph n s = .ok g { s with graph := some g } := by
    rw [currentGraph_renewing h]
    exact EStateM.bind_eq_ok.mpr ⟨s.diagram, s, rfl, EStateM.bind_eq_ok.mpr
      ⟨g, s, EStateM.lift_eq_ok.mpr ⟨hg, rfl⟩, rfl⟩⟩
  have hobtain : s.scheduler.obtain g n =
      (g.schedule, { s.scheduler with kept := some g.schedule }) := by
    rw [Renewing] at h
    simp only [Scheduler.obtain, h]
    cases s.scheduler.kept <;> rfl
  refine EStateM.bind_eq_ok.mpr ⟨g, _, hgraph, EStateM.bind_eq_ok.mpr ⟨_, _, rfl, ?_⟩⟩
  rw [hobtain]
  rfl

/-- Without dependencies there is no schedule. -/
theorem currentSchedule_failing (h : Renewing s.scheduler.policy n)
    (hg : s.diagram.dependencies n = .error failure) : currentSchedule n s = .error failure s := by
  have hrenew : renewGraph n s = .error failure s := by
    refine (EStateM.bind_of_ok (s := s) rfl).trans (EStateM.bind_of_error ?_)
    exact EStateM.lift_of_error hg
  exact EStateM.bind_of_error ((currentGraph_renewing h).trans hrenew)

end Renewing

namespace Echoes

variable {s t : Simulation α ω} {excuse : RecomputePolicy → Nat → Prop}

theorem never_iff : Echoes Never s t ↔
    ∃ journal, t = { s with editor := { s.editor with journal } } := by
  constructor
  · rintro ⟨journal, _, _, hfalse | ⟨rfl, rfl⟩, rfl⟩
    · cases hfalse
    · exact ⟨journal, rfl⟩
  · rintro ⟨journal, rfl⟩
    exact ⟨journal, s.graph, s.scheduler.kept, .inr ⟨rfl, rfl⟩, rfl⟩

end Echoes

namespace Deaf

variable {excuse : RecomputePolicy → Nat → Prop}

theorem updateAll {f : Simulation α ω → Simulation α ω}
    (hf : ∀ s journal, f { s with editor := { s.editor with journal } } =
      { f s with editor := { (f s).editor with journal } }) :
    Deaf Never (modify f : Run α ω PUnit) := by
  refine EStateM.Blind.modify fun s t h => ?_
  obtain ⟨journal, rfl⟩ := Echoes.never_iff.mp h
  exact Echoes.never_iff.mpr ⟨journal, hf s journal⟩

theorem readAll {f : Simulation α ω → Run α ω β}
    (hsame : ∀ s journal, f { s with editor := { s.editor with journal } } = f s)
    (hf : ∀ s, Deaf Never (f s)) : Deaf Never (get >>= f) := by
  refine EStateM.Blind.get_bind (fun s t h => ?_) hf
  obtain ⟨journal, rfl⟩ := Echoes.never_iff.mp h
  exact hsame s journal

theorem rewindStep : Deaf Never (rewindStep : Run α ω Unit) :=
  .bind (updateAll fun _ _ => rfl) fun _ => edit (.update _)

theorem restart (time : α) : Deaf Never (restart time : Run α ω Unit) :=
  readAll (fun _ _ => rfl) fun _ => .bind (.lift _) fun _ => .bind (.lift _) fun _ =>
    .bind (updateAll fun _ _ => rfl) fun _ => .bind (edit (.update _)) fun _ =>
      .bind (edit (.setClockStart time)) fun _ => .bind (Echoes.unseen _).hidden.model fun _ =>
        .bind (.lift _) fun _ => updateAll fun _ _ => rfl

theorem currentGraph (n : Nat) : Deaf Never (currentGraph n : Run α ω DependencyGraph) := by
  have hrenew : Deaf Never (renewGraph n : Run α ω DependencyGraph) :=
    .bind (Echoes.unseen _).hidden.model fun _ => .bind (.lift _) fun _ =>
      .bind (updateAll fun _ _ => rfl) fun _ => .pure _
  refine readAll (fun _ _ => rfl) fun s => ?_
  cases s.graph with
  | none => exact hrenew
  | some g =>
      cases s.scheduler.policy.recomputesAt n with
      | true => exact hrenew
      | false => exact .pure g

theorem currentSchedule (n : Nat) : Deaf Never (currentSchedule n : Run α ω (List Group)) :=
  .bind (currentGraph n) fun _ => readAll (fun _ _ => rfl) fun _ =>
    .bind (updateAll fun _ _ => rfl) fun _ => .pure _

end Deaf

variable {s t : Simulation α ω} {excuse : RecomputePolicy → Nat → Prop}

/-- Whatever was kept, the next iteration has the same schedule, and keeps the same. -/
theorem Echoes.currentSchedule (h : Echoes Renewing s t) :
    EStateM.Agree (Echoes Never) (Echoes Renewing)
      (currentSchedule s.iteration s) (currentSchedule s.iteration t) := by
  obtain ⟨journal, graph, kept, hrenew | ⟨rfl, rfl⟩, rfl⟩ := h
  · let t : Simulation α ω := { s with
      editor := { s.editor with journal }, graph, scheduler := { s.scheduler with kept } }
    have hrenew' : Renewing t.scheduler.policy s.iteration := hrenew
    cases hg : s.diagram.dependencies s.iteration with
    | error failure =>
        have hg' : t.diagram.dependencies s.iteration = .error failure := hg
        rw [currentSchedule_failing hrenew hg, currentSchedule_failing hrenew' hg']
        exact .error failure ⟨journal, graph, kept, .inl hrenew, rfl⟩
    | ok g =>
        have hg' : t.diagram.dependencies s.iteration = .ok g := hg
        rw [currentSchedule_renewing hrenew hg, currentSchedule_renewing hrenew' hg']
        exact .ok _ (never_iff.mpr ⟨journal, rfl⟩)
  · have hsame : Echoes Never s { s with editor := { s.editor with journal } } :=
      never_iff.mpr ⟨journal, rfl⟩
    exact (Deaf.currentSchedule s.iteration s _ hsame).mono (fun _ _ => id) fun _ _ => of_never

theorem Echoes.forced (h : Echoes excuse s t) (step : Option α) :
    Echoes excuse { s with forcedStep := step } { t with forcedStep := step } := by
  obtain ⟨journal, graph, kept, hkept, rfl⟩ := h
  exact ⟨journal, graph, kept, hkept, rfl⟩

variable [Scalar α]

/-- Computes the groups of a schedule, and counts the iteration. -/
def computeGroups (tick : Tick α) (groups : List Group) : Run α ω Unit := do
  groups.forM (computeGroup tick)
  modify fun s => { s with iteration := s.iteration + 1 }

theorem computeStep_of_ok {tick : Tick α} (h : s.nextTick = .ok tick) :
    computeStep s = (currentSchedule s.iteration >>= computeGroups tick) s := by
  refine (EStateM.bind_of_ok (s := s) rfl).trans ?_
  rw [← iteration_of_nextTick h]
  exact EStateM.bind_of_ok (EStateM.lift_eq_ok.mpr ⟨h, rfl⟩)

theorem computeStep_of_error {failure : Failure α} (h : s.nextTick = .error failure) :
    computeStep s = .error failure s :=
  (EStateM.bind_of_ok (s := s) rfl).trans (EStateM.bind_of_error (EStateM.lift_of_error h))

theorem Echoes.nextTick (h : Echoes excuse s t) : t.nextTick = s.nextTick := by
  obtain ⟨_, _, _, _, rfl⟩ := h
  rfl

/-- What was kept does not matter for the next iteration, and not any more after it. -/
theorem Echoes.computeStep (h : Echoes Renewing s t) :
    EStateM.Agree (Echoes Never) (Echoes Renewing) (computeStep s) (computeStep t) := by
  have htick := h.nextTick
  cases hs : s.nextTick with
  | error failure =>
      rw [computeStep_of_error hs, computeStep_of_error (htick.trans hs)]
      exact .error failure h
  | ok tick =>
      rw [computeStep_of_ok hs, computeStep_of_ok (htick.trans hs), h.iteration]
      refine h.currentSchedule.bind fun groups s₁ t₁ _ h₁ => ?_
      have hgroups : Deaf Never (computeGroups tick groups : Run α ω Unit) :=
        .bind (.forM ((unseen _).hidden.computeGroup tick) groups) fun _ => Deaf.updateAll fun _ _ => rfl
      exact (hgroups s₁ t₁ h₁).mono (fun _ _ => id) fun _ _ => of_never

theorem Echoes.computeForced (h : Echoes Renewing s t) (step : α) :
    EStateM.Agree (Echoes Never) (Echoes Renewing) (computeForced step s) (computeForced step t) :=
  (unseen _).hidden.computeForced (unseen _).hidden (h.forced (some step)).computeStep

namespace Deaf

theorem computeStep : Deaf Never (computeStep : Run α ω Unit) :=
  readAll (fun _ _ => rfl) fun _ => .bind (.lift _) fun _ => .bind (currentSchedule _) fun _ =>
    .bind (.forM ((Echoes.unseen _).hidden.computeGroup _) _) fun _ => updateAll fun _ _ => rfl

end Deaf

/-- With no excuse, not even an iteration tells the difference. -/
theorem Echoes.unnoticed : Unnoticed (Echoes (α := α) (ω := ω) Never) :=
  { Echoes.unseen Never with
    computeStep := Deaf.computeStep
    rewindStep := Deaf.rewindStep }

namespace Deaf

omit [Scalar α] in
theorem fire {s t : Simulation α ω} (hdeaf : ∀ event ∈ s.events, event.callback.Deaf)
    (h : Echoes Never s t) (index : Nat) (time : α) :
    EStateM.Agree (Echoes Never) (Echoes Never) (fire index time s) (fire index time t) := by
  obtain ⟨journal, rfl⟩ := Echoes.never_iff.mp h
  rw [Simulation.fire, Simulation.fire]
  cases hevent : s.events[index]? with
  | none => exact .ok () h
  | some event =>
      let scene : Scene α ω := { editor := s.editor, stop := s.stop, world := s.world }
      let scene' : Scene α ω := { scene with editor := { s.editor with journal } }
      have hagree := hdeaf event (List.mem_of_getElem? hevent) time scene scene' ⟨journal, rfl⟩
      dsimp only
      generalize event.callback time scene = r, event.callback time scene' = r' at hagree ⊢
      cases hagree with
      | ok _ h =>
          obtain ⟨journal', rfl⟩ := h
          exact .ok () (Echoes.never_iff.mpr ⟨journal', rfl⟩)
      | error failure h =>
          obtain ⟨journal', rfl⟩ := h
          exact .error failure (Echoes.never_iff.mpr ⟨journal', rfl⟩)

end Deaf

/-! ### Turns -/

namespace Echoes

theorem handleCrossing {first : Candidate α} {rest : List (Candidate α)} (hs : s.Steady)
    (hdeaf : ∀ event ∈ s.events, event.callback.Deaf) (h : Echoes Never s t) :
    EStateM.Agree (Echoes Never) (Echoes Never) (handleCrossing first (first :: rest) s)
      (handleCrossing first (first :: rest) t) := by
  rw [handleCrossing_eq]
  refine (unnoticed.approach first (first :: rest) s t h).bind fun (time, index) s₁ t₁ happroach h₁ =>
    (unseen Never).hidden.conclude (fun _ _ => id) h₁ fun s₂ t₂ hevents h₂ => ?_
  refine (Deaf.fire ?_ h₂ index time).bind fun _ s₃ t₃ _ h₃ => Deaf.restart time s₃ t₃ h₃
  rw [hevents, (Trial.approach hs happroach).rest]
  exact forall_callback_modify hdeaf

theorem processEvents (hs : s.Steady) (hdeaf : ∀ event ∈ s.events, event.callback.Deaf)
    (h : Echoes Never s t) :
    EStateM.Agree (Echoes Never) (Echoes Never) (processEvents s) (processEvents t) := by
  refine ((unseen _).hidden.inspectEvents s t h).bind fun candidates s₁ t₁ hinspect h₁ => ?_
  obtain ⟨_, hrearming, _⟩ := inspectEvents_ok hinspect
  cases candidates with
  | nil => exact .ok none h₁
  | cons first rest =>
      exact (handleCrossing (hs.inspected hinspect) (hrearming.callbacks hdeaf) h₁).bind
        fun index _ _ _ h₂ => .ok (some index) h₂

theorem attempt (h : Echoes Renewing s t) :
    EStateM.Agree (Echoes Never) (Echoes Renewing) (attempt s) (attempt t) :=
  (unseen Renewing).hidden.attempt (unseen Never).hidden (fun _ _ => id)
    ((unseen Renewing).ready (fun _ _ _ _ => Deaf.edit (.addFixedRateClock _ _ _ _)) s t h)
    fun _ _ h₀ => h₀.computeStep

/-- Simulations that echo each other take the same turn. -/
theorem advance (hs : s.Aligned) (hdeaf : ∀ event ∈ s.events, event.callback.Deaf)
    (h : Echoes Renewing s t) :
    EStateM.Agree (Echoes Never) (Echoes Renewing) (advance s) (advance t) := by
  refine (unseen Never).hidden.advance (fun _ _ => of_never) h.attempt fun s₁ t₁ hattempt h₁ => ?_
  obtain ⟨haligned, hevents⟩ := hs.attempt hattempt
  exact (h₁.processEvents haligned.toSteady (by rwa [hevents])).mono (fun _ _ => id)
    fun _ _ => of_never

end Echoes

end Simulation

end CausalBlocks
