import CausalBlocks.Proofs.Simulation.Flattening
import CausalBlocks.Proofs.Simulation.Policies
import CausalBlocks.Proofs.Simulation.Wear

/-!
# Runs that forget

A number of steps begins by forgetting. Whatever a simulation was used for before, and however
that ended, the steps give the same as they do for a simulation that has just been made, as long
as the callbacks of the events leave the model alone.
-/

namespace CausalBlocks

variable {α β ω : Type}

/-! ### Callbacks written down -/

/-- A callback that writes down of which event it is and when it was called. -/
def Callback.noted (index : Nat) (callback : Callback α ω) : Callback α (List (Nat × α) × ω) :=
  fun time scene =>
    let note (after : Scene α ω) : Scene α (List (Nat × α) × ω) :=
      { editor := after.editor, stop := after.stop,
        world := (scene.world.1 ++ [(index, time)], after.world) }
    match callback time { editor := scene.editor, stop := scene.stop, world := scene.world.2 } with
    | .ok _ after => .ok () (note after)
    | .error failure after => .error failure (note after)

theorem Callback.SparesModel.noted {callback : Callback α ω} (h : callback.SparesModel)
    (index : Nat) : (callback.noted index).SparesModel := by
  intro time scene
  have hsame := h time { editor := scene.editor, stop := scene.stop, world := scene.world.2 }
  rw [Callback.noted]
  generalize callback time { editor := scene.editor, stop := scene.stop, world := scene.world.2 } = r
    at hsame ⊢
  cases r <;> exact hsame

/-- The event whose callback is written down. -/
def StateEvent.noted (index : Nat) (event : StateEvent α ω) : StateEvent α (List (Nat × α) × ω) :=
  { watch := event.watch, callback := event.callback.noted index, fired := event.fired }

namespace Simulation

open EStateM

variable {s₀ s t : Simulation α ω}

/-- Two simulations differ in nothing but who listens, what holds them back, and the end time. -/
def SameRun (s t : Simulation α ω) : Prop := ∃ tracers pacer endTime,
  t = { s with tracers, pacer, settings := { s.settings with endTime } }

/-- A simulation of which the wear can be undone, and the same one for other listeners. -/
def Kin (s₀ s t : Simulation α ω) : Prop := SameRun s t ∧ Wears s₀ s

/-- A model that cannot tell its clock does not get another one. -/
theorem ensureClock_of_error [Scalar α] {failure : Failure α}
    (hclock : s.diagram.clock = .error failure) (hother : ∀ name, failure ≠ .missingClock name)
    (step : α) : ensureClock step s = .error failure s := by
  rw [ensureClock, bind_of_ok (model_eq_ok.mpr ⟨rfl, rfl⟩), hclock]
  cases failure with
  | missingClock name => exact absurd rfl (hother name)
  | _ => rfl

namespace Kin

theorem refl (h : Wears s₀ s) : Kin s₀ s s := ⟨⟨s.tracers, s.pacer, s.settings.endTime, rfl⟩, h⟩

theorem edit {action : Edit α β} (h : Kin s₀ s t)
    (hwears : Wears s { s with editor := (action s.editor).state }) :
    Agree (Kin s₀) (Kin s₀) (edit action s) (edit action t) := by
  obtain ⟨⟨tracers, pacer, endTime, rfl⟩, hs⟩ := h
  have hworn := hs.trans hwears
  simp only [Simulation.edit]
  generalize action s.editor = r at hworn ⊢
  cases r with
  | ok x editor => exact .ok x ⟨⟨tracers, pacer, endTime, rfl⟩, hworn⟩
  | error failure editor => exact .error failure ⟨⟨tracers, pacer, endTime, rfl⟩, hworn⟩

theorem modify {f : Simulation α ω → Simulation α ω} (h : Kin s₀ s t)
    (hsame : ∀ tracers pacer endTime,
      f { s with tracers, pacer, settings := { s.settings with endTime } } =
        { f s with tracers, pacer, settings := { (f s).settings with endTime } })
    (hwears : Wears s (f s)) :
    Agree (Kin s₀) (Kin s₀) ((modify f : Run α ω PUnit) s) ((modify f : Run α ω PUnit) t) := by
  obtain ⟨⟨tracers, pacer, endTime, rfl⟩, hs⟩ := h
  exact .ok PUnit.unit ⟨⟨tracers, pacer, endTime, hsame tracers pacer endTime⟩, hs.trans hwears⟩

theorem hidden : Hidden (Kin s₀) where
  offstage {s} _ := by
    rintro ⟨⟨tracers, pacer, endTime, rfl⟩, _⟩
    exact ⟨⟨⟨s.editor.journal, s.graph, s.scheduler, s.settings.recompute⟩, tracers, pacer, endTime⟩,
      rfl⟩
  onstage {f} hf s _ := by
    rintro ⟨⟨tracers, pacer, endTime, rfl⟩, hs⟩
    refine ⟨⟨tracers, pacer, endTime, ?_⟩, hs.trans (.onstage hf s)⟩
    refine (hf.commutes s ⟨⟨s.editor.journal, s.graph, s.scheduler, s.settings.recompute⟩, tracers,
      pacer, endTime⟩).trans ?_
    rw [hf.keeps s]
    rfl
  tracers f {s _} := by
    rintro ⟨⟨tracers, pacer, endTime, rfl⟩, hs⟩
    exact ⟨⟨f tracers, pacer, endTime, rfl⟩, hs.trans (.of_sameShape (.refl _) rfl rfl rfl)⟩
  pacer f {s _} := by
    rintro ⟨⟨tracers, pacer, endTime, rfl⟩, hs⟩
    exact ⟨⟨tracers, f pacer, endTime, rfl⟩, hs.trans (.of_sameShape (.refl _) rfl rfl rfl)⟩
  record p x s _ h := h.edit (.of_sameShape (Edit.sameShape_record p x s.editor) rfl rfl rfl)
  report _ _ _ h := h.edit (.of_sameShape (.refl _) rfl rfl rfl)

/-! ### Iterations -/

theorem currentGraph (n : Nat) : Blind (Kin s₀) (currentGraph n : Run α ω DependencyGraph) := by
  have hrenew : Blind (Kin s₀) (renewGraph n : Run α ω DependencyGraph) :=
    .bind hidden.model fun _ => .bind (.lift _) fun _ => .bind
      (fun _ _ h => h.modify (fun _ _ _ => rfl) (.of_sameShape (.refl _) rfl rfl rfl))
      fun _ => .pure _
  refine .get_bind (fun s t h => ?_) fun s => ?_
  · obtain ⟨⟨_, _, _, rfl⟩, _⟩ := h
    rfl
  · cases s.graph with
    | none => exact hrenew
    | some g =>
        cases s.scheduler.policy.recomputesAt n with
        | true => exact hrenew
        | false => exact .pure g

theorem currentSchedule (n : Nat) : Blind (Kin s₀) (currentSchedule n : Run α ω (List Group)) := by
  refine .bind (currentGraph n) fun g s t h => .get_bind ?_
  obtain ⟨⟨tracers, pacer, endTime, rfl⟩, hs⟩ := h
  refine .ok (s.scheduler.obtain g n).1 ⟨⟨tracers, pacer, endTime, rfl⟩, hs.trans ?_⟩
  exact .of_sameShape (.refl _) rfl (s.scheduler.forget_obtain g n) rfl

theorem rewindStep : Blind (Kin s₀) (rewindStep : Run α ω Unit) :=
  .bind (fun _ _ h => h.modify (fun _ _ _ => rfl) (.of_sameShape (.refl _) rfl rfl rfl))
    fun _ _ _ h => h.edit (.of_sameShape (Diagram.sameShape_rewind _) rfl rfl rfl)

variable [Scalar α]

theorem computeStep : Blind (Kin s₀) (computeStep : Run α ω Unit) :=
  hidden.read (fun _ _ => rfl) fun _ => .bind (.lift _) fun _ => .bind (currentSchedule _) fun _ =>
    .bind (.forM (hidden.computeGroup _) _) fun _ _ _ h =>
      h.modify (fun _ _ _ => rfl) (.of_sameShape (.refl _) rfl rfl rfl)

/-! ### Events -/

omit [Scalar α] in
theorem fire (hspares : ∀ event ∈ s₀.events, event.callback.SparesModel) (index : Nat) (time : α) :
    Blind (Kin s₀) (fire index time : Run α ω Unit) := by
  intro s t h
  have hevents := h.2.callbacks hspares
  obtain ⟨⟨tracers, pacer, endTime, rfl⟩, hs⟩ := h
  rw [Simulation.fire, Simulation.fire]
  cases hevent : s.events[index]? with
  | none => exact .ok () ⟨⟨tracers, pacer, endTime, rfl⟩, hs⟩
  | some event =>
      let scene : Scene α ω := { editor := s.editor, stop := s.stop, world := s.world }
      have hmodel := hevents event (List.mem_of_getElem? hevent) time scene
      dsimp only
      generalize hresult : event.callback time scene = r at hmodel
      have hworn (after : Scene α ω) (hafter : after.editor.diagram = s.editor.diagram) :
          Wears s { s with editor := after.editor, stop := after.stop, world := after.world } :=
        .of_sameShape (by rw [diagram, diagram, hafter]; exact .refl _) rfl rfl rfl
      cases r with
      | ok _ after => exact .ok () ⟨⟨tracers, pacer, endTime, rfl⟩, hs.trans (hworn after hmodel)⟩
      | error failure after =>
          exact .error failure ⟨⟨tracers, pacer, endTime, rfl⟩, hs.trans (hworn after hmodel)⟩

omit [Scalar α] in
theorem setClockStart (h : Kin s₀ s t) (time : α) (hfirst : ∃ first, s.firstStart = some first) :
    Agree (Kin s₀) (Kin s₀) (Simulation.edit (.setClockStart time) s)
      (Simulation.edit (.setClockStart time) t) := by
  obtain ⟨first, hfirst⟩ := hfirst
  refine h.edit ?_
  rw [Edit.diagram_setClockStart]
  exact .move hfirst time

omit [Scalar α] in
/-- Where the clock starts anew is forgotten, as it is remembered where it started first. -/
theorem restart (time : α) : Blind (Kin s₀) (restart time : Run α ω Unit) := by
  intro s t h
  refine .get_bind ?_
  obtain ⟨⟨tracers, pacer, endTime, rfl⟩, hs⟩ := h
  refine (Blind.lift s.diagram.clock s _ ⟨⟨tracers, pacer, endTime, rfl⟩, hs⟩).bind
    fun old s₁ t₁ hclock h₁ => ?_
  obtain ⟨hclock, rfl⟩ := lift_eq_ok.mp hclock
  refine (Blind.lift (s₁.clockParameters old) s₁ _ h₁).bind
    fun (start, step) s₂ t₂ hparameters h₂ => ?_
  obtain ⟨hparameters, rfl⟩ := lift_eq_ok.mp hparameters
  obtain ⟨b, hb, hoperator⟩ := clockParameters_eq_ok.mp hparameters
  have hremember := Wears.remember hclock hb hoperator
  refine (h₂.modify (fun _ _ _ => rfl) hremember).bind fun _ s₃ t₃ hremembered h₃ => ?_
  have hfirst : ∃ first, s₃.firstStart = some first := by
    rw [modify_eq_ok.mp hremembered]
    cases s₂.firstStart with
    | none => exact ⟨start, rfl⟩
    | some first => exact ⟨first, rfl⟩
  have hclear : Wears s₃ { s₃ with
      editor := ((Edit.update Diagram.clearSignals : Edit α Unit) s₃.editor).state } :=
    .of_sameShape (Diagram.sameShape_clearSignals _) rfl rfl rfl
  refine (h₃.edit hclear).bind fun _ s₄ t₄ hcleared h₄ => ?_
  have hfirst : ∃ first, s₄.firstStart = some first := by
    obtain ⟨_, _, hs₄⟩ := edit_eq_ok.mp hcleared
    rw [hs₄]
    exact hfirst
  refine (h₄.setClockStart time hfirst).bind fun _ s₅ t₅ _ h₅ => ?_
  refine (hidden.model s₅ t₅ h₅).bind fun d s₆ t₆ _ h₆ => ?_
  refine (Blind.lift d.clock s₆ t₆ h₆).bind fun clock s₇ t₇ _ h₇ => ?_
  exact h₇.modify (fun _ _ _ => rfl) (.of_sameShape (.refl _) rfl rfl rfl)

/-- A model that has a clock keeps it. -/
theorem prepare (hclock : s₀.diagram.HasClock) : Blind (Kin s₀) (prepare : Run α ω Unit) := by
  intro s t h
  refine hidden.prepare (fun _ _ => id) h fun step => ?_
  have hfound : s.diagram.clock = s₀.diagram.clock := h.2.clock
  have hfound' : t.diagram.clock = s₀.diagram.clock := by
    obtain ⟨⟨tracers, pacer, endTime, rfl⟩, _⟩ := h
    exact hfound
  cases hclock₀ : s₀.diagram.clock with
  | ok id =>
      rw [ensureClock_of_clock (hfound.trans hclock₀), ensureClock_of_clock (hfound'.trans hclock₀)]
      exact .ok id h
  | error failure =>
      have hother (name : String) : failure ≠ .missingClock name := by
        rintro rfl
        exact hclock.clock_ne name hclock₀
      rw [ensureClock_of_error (hfound.trans hclock₀) hother,
        ensureClock_of_error (hfound'.trans hclock₀) hother]
      exact .error failure h

theorem ready (hclock : s₀.diagram.HasClock) : Blind (Kin s₀) (ready : Run α ω Unit) :=
  hidden.read (fun _ _ => rfl) fun _ => .ite (.pure _) (prepare hclock)

variable (hspares : ∀ event ∈ s₀.events, event.callback.SparesModel)
include hspares

theorem processEvents : Blind (Kin s₀) (processEvents : Run α ω (Option Nat)) := by
  refine .bind hidden.inspectEvents fun candidates => ?_
  cases candidates with
  | nil => exact .pure none
  | cons first rest =>
      refine .bind ?_ fun index => .pure (some index)
      rw [handleCrossing_eq]
      refine .bind (hidden.approach computeStep rewindStep first (first :: rest))
        fun (time, index) s t h => ?_
      exact hidden.conclude (fun _ _ => id) h fun s₁ t₁ _ h₁ =>
        Blind.bind (fire hspares index time) (fun _ => restart time) s₁ t₁ h₁

/-! ### Turns -/

theorem advance (hclock : s₀.diagram.HasClock) : Blind (Kin s₀) (advance : Run α ω (Option Nat)) := by
  intro s t h
  refine hidden.advance (fun _ _ => id) ?_ fun s₁ t₁ _ h₁ => processEvents hspares s₁ t₁ h₁
  exact hidden.attempt hidden (fun _ _ => id) (ready hclock s t h) computeStep

end Kin

/-! ### Calls -/

section Calls

variable [Scalar α]

omit [Scalar α] in
/-- What cannot tell listeners apart leaves a simulation that can be made new. -/
theorem Wears.of_blind {x : Run α ω β} (h : Wears s₀ s) (hx : Blind (Kin s₀) x) :
    (x s).Ends (Wears s₀) (Wears s₀) := by
  have hagree := hx s s (Kin.refl h)
  generalize x s = r at hagree
  cases hagree with
  | ok _ h => exact h.2
  | error _ h => exact h.2

theorem Wears.pace (h : Wears s₀ s) : (pace s).Ends (Wears s₀) (Wears s₀) := by
  refine Ends.bind (P := Wears s₀) (x := get) h fun s₁ s₂ hget h₂ => ?_
  obtain ⟨rfl, rfl⟩ := get_eq_ok.mp hget
  cases s₂.pacer with
  | none => exact h₂
  | some pacer =>
      refine Ends.bind (h₂.of_blind (.lift _)) fun next s₃ _ h₃ => ?_
      refine Ends.bind (h₃.of_blind (.lift _)) fun (outcome, pacer) s₄ _ h₄ => ?_
      have hkeep {s : Simulation α ω} (h : Wears s₀ s) : Wears s₀ { s with pacer := some pacer } :=
        h.trans (.of_sameShape (.refl _) rfl rfl rfl)
      dsimp only
      split
      · exact Ends.bind (h₄.of_blind (Kin.hidden.report _)) fun _ _ _ h₅ => hkeep h₅
      · exact hkeep h₄

theorem Wears.concluding {action : Run α ω β} (h : (action s).Ends (Wears s₀) (Wears s₀)) :
    (concluding action s).Ends (Wears s₀) (Wears s₀) := by
  have hagree : Agree (Kin s₀) (Kin s₀) (action s) (action s) := by
    generalize action s = r at h
    cases r with
    | ok x _ => exact .ok x (Kin.refl h)
    | error failure _ => exact .error failure (Kin.refl h)
  have hconcluded := Kin.hidden.concluding Kin.hidden hagree
  generalize Simulation.concluding action s = r at hconcluded
  cases hconcluded with
  | ok _ h => exact h.2
  | error _ h => exact h.2

/-- A run can start: the model is valid, and the step of an added clock would be one. -/
def Launchable (s : Simulation α ω) : Prop :=
  (0 < s.settings.step ∧ Scalar.bounded s.settings.step) ∧ s.diagram.validate = .ok ()

/-- Runs that can start have a clock. -/
theorem Launchable.clock (h : s.Launchable) : ∃ clock, s.diagram.clock = .ok clock :=
  clock_of_validate h.2

/-- What can be started can be started anew. -/
theorem Wears.launchable_anew (h : Wears s₀ s) (hunmoved : s₀.firstStart = none) :
    s.anew.Launchable ↔ s₀.Launchable := by
  have horiginal : s.anew.diagram.validate = s₀.diagram.validate := by
    change s.original.validate = s₀.diagram.validate
    rw [h.original, Simulation.original, hunmoved, Diagram.validate_clearSignals]
  have hstep : s.anew.settings.step = s₀.settings.step := h.settings_step
  rw [Launchable, Launchable, horiginal, hstep]

variable (hclock : s₀.diagram.HasClock)
  (hspares : ∀ event ∈ s₀.events, event.callback.SparesModel)
include hclock

theorem Wears.begin (h : Wears s₀ s)
    (hrestorable : s.firstStart = none ∨ ∃ clock, s.diagram.clock = .ok clock) :
    (begin s).Ends (Wears s₀) (Wears s₀) := by
  rw [Simulation.begin, bind_of_ok (reset_apply hrestorable)]
  exact (h.trans (.anew_self s)).of_blind (Kin.prepare hclock)

include hspares

theorem Wears.step (h : Wears s₀ s) : (step s).Ends (Wears s₀) (Wears s₀) :=
  Ends.bind (f := fun _ => pure ()) (h.of_blind (Kin.advance hspares hclock)) fun _ _ _ h => h

theorem Wears.pacedStep (h : Wears s₀ s) : (pacedStep s).Ends (Wears s₀) (Wears s₀) :=
  Ends.bind (h.step hclock hspares) fun _ _ _ h₁ => h₁.pace

theorem Wears.continueRun (turns : Nat) (h : Wears s₀ s) :
    (continueRun turns s).Ends (Wears s₀) (Wears s₀) := by
  induction turns generalizing s with
  | zero => exact Ends.bind (P := Wears s₀) (x := get) h fun _ _ _ h₂ => h₂.of_blind (.lift _)
  | succ turns ih =>
      refine Ends.bind (P := Wears s₀) (x := get) h fun s₁ s₂ _ h₂ => ?_
      refine Ends.bind (h₂.of_blind (.lift _)) fun finished s₃ _ h₃ => ?_
      cases finished with
      | true => exact h₃
      | false =>
          exact Ends.bind (h₃.pacedStep hclock hspares) fun _ s₄ _ h₄ => ih h₄

theorem Wears.takeSteps (steps : Nat) (h : Wears s₀ s) :
    (takeSteps steps s).Ends (Wears s₀) (Wears s₀) :=
  h.of_blind (Kin.hidden.takeSteps (Kin.advance hspares hclock) steps)

/-- Calls leave a simulation that can be made new. -/
theorem Wears.perform (hfound : ∃ clock, s₀.diagram.clock = .ok clock) (call : RunCall α)
    (h : Wears s₀ s) : Wears s₀ (call.perform s).state := by
  have hbegin {s : Simulation α ω} (h : Wears s₀ s) :
      (Simulation.begin s).Ends (Wears s₀) (Wears s₀) :=
    h.begin hclock (.inr (by rw [h.clock]; exact hfound))
  have hrun (turns : Nat) {s : Simulation α ω} (h : Wears s₀ s) :
      (run turns s).Ends (Wears s₀) (Wears s₀) :=
    Ends.bind (hbegin h) fun _ _ _ h₁ => Wears.concluding (Ends.bind (h₁.pacedStep hclock hspares)
      fun _ _ _ h₂ => h₂.continueRun hclock hspares turns)
  refine Ends.state ?_
  cases call with
  | run turns => exact hrun turns h
  | runUntil time turns => exact hrun turns (h.trans (.of_sameShape (.refl _) rfl rfl rfl))
  | runSteps steps =>
      have hsteps : (runSteps steps s).Ends (Wears s₀) (Wears s₀) :=
        Ends.bind (hbegin h) fun _ _ _ h₁ => Wears.concluding (h₁.takeSteps hclock hspares steps)
      exact Ends.bind hsteps fun _ _ _ h => h
  | step => exact Ends.bind (h.step hclock hspares) fun _ _ _ h => h

end Calls

/-! ### Runs that cannot start -/

/-- A simulation whose runs cannot start is as it was before the first one. -/
structure Idle (s₀ s : Simulation α ω) : Prop extends Wears s₀ s where
  unmoved : s.firstStart = none
  iteration : s.iteration = 0
  stopped : s.started = false
  run : s.clock = s₀.clock ∧ s.signalPorts = s₀.signalPorts ∧ s.time = s₀.time

namespace Idle

theorem renewed (h : Idle s₀ s) : Idle s₀ s.anew where
  toWears := h.toWears.trans (.anew_self s)
  unmoved := rfl
  iteration := rfl
  stopped := rfl
  run := h.run

variable [Scalar α] (hclock : s₀.diagram.HasClock) (hunmoved : s₀.firstStart = none)
  (hnot : ¬s₀.Launchable)
include hclock hunmoved hnot

theorem prepare (h : Idle s₀ s) : ∃ failure, prepare s = .error failure s := by
  have hvalid : s.diagram.validate = s₀.diagram.validate := by
    have horiginal := congrArg Diagram.validate h.original
    rwa [original, original, h.unmoved, hunmoved, Diagram.validate_clearSignals,
      Diagram.validate_clearSignals] at horiginal
  rw [Launchable, ← hvalid, ← h.settings_step] at hnot
  by_cases hstep : 0 < s.settings.step ∧ Scalar.bounded s.settings.step
  · cases hinvalid : s.diagram.validate with
    | ok _ => exact absurd ⟨hstep, hinvalid⟩ hnot
    | error failure =>
        rw [Simulation.prepare, bind_of_ok (get_eq_ok.mpr ⟨rfl, rfl⟩), if_pos hstep]
        dsimp only
        cases hfound : s.diagram.clock with
        | ok id =>
            refine ⟨failure, ?_⟩
            rw [bind_of_ok (ensureClock_of_clock hfound _), bind_of_ok (model_eq_ok.mpr ⟨rfl, rfl⟩)]
            exact bind_of_error (lift_of_error hinvalid)
        | error failure =>
            refine ⟨failure, bind_of_error (ensureClock_of_error hfound (fun name hname => ?_) _)⟩
            rw [h.clock, hname] at hfound
            exact hclock.clock_ne name hfound
  · rw [Simulation.prepare, bind_of_ok (get_eq_ok.mpr ⟨rfl, rfl⟩), if_neg hstep]
    exact ⟨_, bind_of_error rfl⟩

theorem begin (h : Idle s₀ s) : ∃ failure, begin s = .error failure s.anew := by
  obtain ⟨failure, hfails⟩ := h.renewed.prepare hclock hunmoved hnot
  refine ⟨failure, ?_⟩
  rw [Simulation.begin, bind_of_ok (reset_apply (.inl h.unmoved))]
  exact hfails

theorem perform (call : RunCall α) (h : Idle s₀ s) : Idle s₀ (call.perform s).state := by
  have hrun (turns : Nat) {s : Simulation α ω} (h : Idle s₀ s) : Idle s₀ (Simulation.run turns s).state := by
    obtain ⟨failure, hfails⟩ := h.begin hclock hunmoved hnot
    rw [Simulation.run, bind_of_error hfails]
    exact h.renewed
  cases call with
  | run turns => exact hrun turns h
  | runUntil time turns =>
      exact hrun turns ⟨h.toWears.trans (.of_sameShape (.refl _) rfl rfl rfl), h.unmoved,
        h.iteration, h.stopped, h.run⟩
  | runSteps steps =>
      obtain ⟨failure, hfails⟩ := h.begin hclock hunmoved hnot
      have hsteps : Simulation.runSteps steps s = .error failure s.anew := bind_of_error hfails
      rw [RunCall.perform, bind_of_error hsteps]
      exact h.renewed
  | step =>
      obtain ⟨failure, hfails⟩ := h.prepare hclock hunmoved hnot
      have hready : Simulation.ready s = .error failure s := by
        rw [Simulation.ready, bind_of_ok (get_eq_ok.mpr ⟨rfl, rfl⟩), h.stopped]
        exact hfails
      have hadvance : Simulation.advance s = .error failure s :=
        bind_of_error (bind_of_error hready)
      have hstep : Simulation.step s = .error failure s := bind_of_error (f := fun _ => pure ()) hadvance
      rw [RunCall.perform, bind_of_error hstep]
      exact h

end Idle

/-! ### Beginning anew -/

section Beginning

variable [Scalar α] {id : BlockId} {b : Block α} {start step : α}

theorem nextTick_zero (hzero : s.iteration = 0) (hrun : s.clock = some id)
    (hb : s.diagram.block? id = some b) (hoperator : b.operator = .clock start step) :
    s.nextTick = .ok ⟨0, start, step, start⟩ := by
  have hfound : s.clockOf = .ok id := by rw [clockOf, hrun]
  refine Except.bind_eq_ok.mpr ⟨id, hfound, Except.bind_eq_ok.mpr
    ⟨(start, step), clockParameters_eq_ok.mpr ⟨b, hb, hoperator⟩, ?_⟩⟩
  rw [hzero]
  rfl

/-- Before the first iteration, making ready does not depend on what was said when an earlier run
started. -/
theorem prepare_zero (hlaunch : s.Launchable) (hzero : s.iteration = 0)
    (hfound : s.diagram.clock = .ok id) (hb : s.diagram.block? id = some b)
    (hoperator : b.operator = .clock start step) : ∃ tracers pacer,
      prepare s = .ok () { s with
        clock := some id, signalPorts := s.diagram.signalPorts, time := start, tracers, pacer,
        started := true } := by
  let s₁ : Simulation α ω := { s with clock := some id }
  have htick : s₁.nextTick = .ok ⟨0, start, step, start⟩ := nextTick_zero hzero rfl hb hoperator
  have hstart := startClock_eq_ok.mpr ⟨_, htick, rfl, rfl⟩
  rw [if_pos hzero] at hstart
  rw [prepare, bind_of_ok (get_eq_ok.mpr ⟨rfl, rfl⟩), if_pos hlaunch.1]
  dsimp only
  rw [bind_of_ok (ensureClock_of_clock hfound _), bind_of_ok (model_eq_ok.mpr ⟨rfl, rfl⟩),
    bind_of_ok (lift_eq_ok.mpr ⟨hlaunch.2, rfl⟩), bind_of_ok hstart,
    bind_of_ok (startTracers_apply _ _), bind_of_ok (startPacer_apply _ _)]
  exact ⟨_, _, rfl⟩

/-- The owners of two simulations have come equally far. -/
def SameOwner (s t : Simulation α ω) : Prop :=
  t.editor.journal = s.editor.journal ∧ t.world = s.world

/-- Runs that can start begin alike. -/
theorem Wears.begin_alike (hs : Wears s₀ s) (ht : Wears s₀ t) (howner : SameOwner s t)
    (hunmoved : s₀.firstStart = none) (hlaunch : s₀.Launchable) :
    Agree (Kin s₀) (Kin s₀) (Simulation.begin s) (Simulation.begin t) := by
  obtain ⟨clock, hclock⟩ := hlaunch.clock
  have hanew (u : Simulation α ω) (hu : Wears s₀ u) : reset u = .ok () u.anew ∧
      u.anew.Launchable ∧ u.anew.diagram = s₀.original :=
    ⟨reset_apply (.inr ⟨clock, hu.clock.trans hclock⟩), (hu.launchable_anew hunmoved).mpr hlaunch,
      hu.original⟩
  obtain ⟨hreset, hready, hmodel⟩ := hanew s hs
  obtain ⟨hreset', hready', hmodel'⟩ := hanew t ht
  obtain ⟨id, hfound⟩ := hready.clock
  obtain ⟨b, start, step, hb, hoperator⟩ := Diagram.exists_block_of_clock hfound
  obtain ⟨tracers, pacer, hok⟩ := prepare_zero hready rfl hfound hb hoperator
  rw [hmodel, ← hmodel'] at hfound hb
  obtain ⟨tracers', pacer', hok'⟩ := prepare_zero hready' rfl hfound hb hoperator
  rw [Simulation.begin, bind_of_ok hreset, bind_of_ok hreset', hok, hok']
  refine .ok () ⟨⟨tracers', pacer', t.settings.endTime, ?_⟩, ?_⟩
  · rw [hs.anew, ht.anew, marked, marked, howner.1, howner.2]
    rfl
  · exact (hs.trans (.anew_self s)).trans (.of_sameShape (.refl _) rfl rfl rfl)

omit [Scalar α] in
/-- Runs that cannot start are the same from the beginning. -/
theorem Idle.kin (hs : Idle s₀ s) (ht : Idle s₀ t) (howner : SameOwner s t) :
    Kin s₀ s.anew t.anew := by
  refine ⟨⟨t.tracers, t.pacer, t.settings.endTime, ?_⟩, hs.renewed.toWears⟩
  obtain ⟨hclock, hports, htime⟩ := hs.run
  obtain ⟨hclock', hports', htime'⟩ := ht.run
  rw [hs.anew, ht.anew, marked, marked, howner.1, howner.2, hclock, hports, htime, hclock',
    hports', htime']

end Beginning

/-! ### Simulations in use -/

/-- A simulation that has not begun. -/
structure Unbegun (s : Simulation α ω) : Prop where
  iteration : s.iteration = 0
  stopped : s.started = false
  unmoved : s.firstStart = none

theorem unbegun_make [Scalar α] (editor : Editor α) (settings : Settings α) (world : ω) :
    (make editor settings world).Unbegun := ⟨rfl, rfl, rfl⟩

/-- The simulation made once more, for the owner of another one. -/
def remade (s t : Simulation α ω) : Simulation α ω :=
  { s with editor := { s.editor with journal := t.editor.journal }, world := t.world }

section Use

variable [Scalar α]

/-- The simulation after some calls, each of which may have failed. -/
def afterCalls (calls : List (RunCall α)) (s : Simulation α ω) : Simulation α ω :=
  calls.foldl (fun s call => (call.perform s).state) s

/-- What became of a simulation by calls. -/
structure Used (s₀ s : Simulation α ω) : Prop where
  worn : Wears s₀ s
  idle : s₀.Launchable ∨ Idle s₀ s

theorem Unbegun.used (h : s₀.Unbegun) : Used s₀ s₀ :=
  ⟨.refl s₀, .inr ⟨.refl s₀, h.unmoved, h.iteration, h.stopped, rfl, rfl, rfl⟩⟩

theorem Unbegun.used_remade (h : s₀.Unbegun) (t : Simulation α ω) : Used s₀ (s₀.remade t) := by
  have hworn : Wears s₀ (s₀.remade t) := .of_sameShape (.refl _) rfl rfl rfl
  exact ⟨hworn, .inr ⟨hworn, h.unmoved, h.iteration, h.stopped, rfl, rfl, rfl⟩⟩

variable (hclock : s₀.diagram.HasClock)
  (hspares : ∀ event ∈ s₀.events, event.callback.SparesModel) (hunmoved : s₀.firstStart = none)
include hclock hspares hunmoved

theorem Used.perform (call : RunCall α) (h : Used s₀ s) : Used s₀ (call.perform s).state := by
  by_cases hlaunch : s₀.Launchable
  · exact ⟨h.worn.perform hclock hspares hlaunch.clock call, .inl hlaunch⟩
  · have hidle := (h.idle.resolve_left hlaunch).perform hclock hunmoved hlaunch call
    exact ⟨hidle.toWears, .inr hidle⟩

theorem Used.afterCalls (calls : List (RunCall α)) (h : Used s₀ s) : Used s₀ (s.afterCalls calls) := by
  induction calls generalizing s with
  | nil => exact h
  | cons call rest ih => exact ih (h.perform hclock hspares hunmoved call)

omit hspares in
theorem Used.begin (hs : Used s₀ s) (ht : Used s₀ t) (howner : SameOwner s t) :
    Agree (Kin s₀) (Kin s₀) (Simulation.begin s) (Simulation.begin t) := by
  by_cases hlaunch : s₀.Launchable
  · exact hs.worn.begin_alike ht.worn howner hunmoved hlaunch
  · have hidle := hs.idle.resolve_left hlaunch
    have hidle' := ht.idle.resolve_left hlaunch
    rw [Simulation.begin, bind_of_ok (reset_apply (.inl hidle.unmoved)),
      bind_of_ok (reset_apply (.inl hidle'.unmoved))]
    exact Kin.prepare hclock _ _ (hidle.kin hidle' howner)

/-- However two simulations were used, the same steps come next. -/
theorem Used.runSteps (hs : Used s₀ s) (ht : Used s₀ t) (howner : SameOwner s t) (steps : Nat) :
    Agree SameRun SameRun (runSteps steps s) (runSteps steps t) := by
  have hruns : Agree (Kin s₀) (Kin s₀) (Simulation.runSteps steps s) (Simulation.runSteps steps t) :=
    (hs.begin hclock hunmoved ht howner).bind fun _ s₁ t₁ _ h₁ => Kin.hidden.concluding Kin.hidden
      (Kin.hidden.takeSteps (Kin.advance hspares hclock) steps s₁ t₁ h₁)
  exact hruns.mono (fun _ _ => And.left) fun _ _ => And.left

end Use

/-! ### Runs that forget -/

/-- The simulation with callbacks that are written down. Nothing is written yet. -/
def noted (s : Simulation α ω) : Simulation α (List (Nat × α) × ω) :=
  { s with events := s.events.mapIdx StateEvent.noted, world := ([], s.world) }

/-- The callbacks that a number of steps invokes, in order, each with the place of its event in
the list of events and with its time. -/
def callbacksOf [Scalar α] (steps : Nat) (s : Simulation α ω) : List (Nat × α) :=
  (runSteps steps s.noted).state.world.1

theorem anew_noted (s : Simulation α ω) : s.noted.anew = s.anew.noted := by
  have hevents : (s.events.mapIdx StateEvent.noted).map StateEvent.armed =
      (s.events.map StateEvent.armed).mapIdx StateEvent.noted := by
    refine List.ext_getElem? fun i => ?_
    simp only [List.getElem?_map, List.getElem?_mapIdx, Option.map_map]
    rfl
  rw [anew, noted, hevents]
  rfl

theorem Wears.noted (h : Wears s₀ s) : Wears s₀.noted s.noted where
  anew := by
    rw [anew_noted, anew_noted, h.anew]
    rfl
  clock := h.clock

theorem Used.noted [Scalar α] (h : Used s₀ s) : Used s₀.noted s.noted where
  worn := h.worn.noted
  idle := h.idle.imp id fun hidle =>
    ⟨hidle.toWears.noted, hidle.unmoved, hidle.iteration, hidle.stopped, hidle.run⟩

theorem sparesModel_noted (h : ∀ event ∈ s.events, event.callback.SparesModel) :
    ∀ event ∈ s.noted.events, event.callback.SparesModel := by
  intro event hevent
  obtain ⟨index, hlt, rfl⟩ := List.mem_mapIdx.mp hevent
  exact (h _ (List.getElem_mem hlt)).noted index

/-- Runs forget. Let the model have a clock, and the callbacks leave it alone. After any calls,
however they ended, a number of steps does the same as it does for the simulation made once more:
it has the same answer or failure, leaves the same samples at the same iteration and time, and
invokes the same callbacks. -/
theorem runSteps_forgets [Scalar α] (hfresh : s₀.Unbegun) (hclock : s₀.diagram.HasClock)
    (hspares : ∀ event ∈ s₀.events, event.callback.SparesModel) (calls : List (RunCall α))
    (steps : Nat) :
    let used := s₀.afterCalls calls
    Agree SameRun SameRun (runSteps steps used) (runSteps steps (s₀.remade used)) ∧
      used.callbacksOf steps = (s₀.remade used).callbacksOf steps := by
  intro used
  have hused : Used s₀ used := hfresh.used.afterCalls hclock hspares hfresh.unmoved calls
  have hremade : Used s₀ (s₀.remade used) := hfresh.used_remade used
  refine ⟨hused.runSteps hclock hspares hfresh.unmoved hremade ⟨rfl, rfl⟩ steps, ?_⟩
  have hclock' : s₀.noted.diagram.HasClock := hclock
  have hnoted := hused.noted.runSteps hclock' (sparesModel_noted hspares) hfresh.unmoved
    hremade.noted ⟨rfl, rfl⟩ steps
  rw [callbacksOf, callbacksOf]
  generalize runSteps steps used.noted = r, runSteps steps (s₀.remade used).noted = r' at hnoted ⊢
  cases hnoted with
  | ok _ h | error _ h =>
      obtain ⟨_, _, _, rfl⟩ := h
      rfl

/-- The model tells the time. When it has told 5/2 that is written down, but only the first
time that anything is. -/
def fussy : Simulation ℚ (List ℚ) :=
  let model : Edit ℚ Unit := Edit.addAll ⟨0⟩ [("clock", .clock 0 1), ("x", .time)]
  { make (model { diagram := .empty "m" [] [] }).state Settings.standard [] with
    events := [{
      watch := ⟨"x", 5 / 2, .any⟩
      callback := fun time scene =>
        if scene.world.length = 1 then
          .error (.invalidParameter "x" (.notPositive time)) { scene with world := [0, 0] }
        else .ok () { scene with world := time :: scene.world } }] }

theorem runSteps_forgets_fussy : ∃ used : Simulation ℚ (List ℚ),
    used = fussy.afterCalls [.runSteps 4, .runUntil 3 9, .step] ∧ used.world = [0, 0] ∧
      used.iteration = 4 ∧
      Agree SameRun SameRun (runSteps 4 used) (runSteps 4 (fussy.remade used)) ∧
        used.callbacksOf 4 = [(0, 5 / 2)] ∧ (fussy.remade used).callbacksOf 4 = [(0, 5 / 2)] := by
  have hoperator : (fussy.diagram.block? ⟨1⟩).map (fun b => b.operator.isClock) = some true := by
    decide +kernel
  obtain ⟨b, hb, hisClock⟩ := Option.map_eq_some_iff.mp hoperator
  have hclock : fussy.diagram.HasClock := ⟨⟨1⟩, by decide +kernel, b, hb, hisClock⟩
  have hspares : ∀ event ∈ fussy.events, event.callback.SparesModel := by
    intro event hevent time scene
    rw [List.mem_singleton.mp hevent]
    dsimp only
    split <;> rfl
  let calls : List (RunCall ℚ) := [.runSteps 4, .runUntil 3 9, .step]
  obtain ⟨hruns, hcallbacks⟩ := runSteps_forgets ⟨rfl, rfl, rfl⟩ hclock hspares calls 4
  obtain ⟨hworld, hiteration, hnoted⟩ : (fussy.afterCalls calls).world = [0, 0] ∧
      (fussy.afterCalls calls).iteration = 4 ∧
        (fussy.afterCalls calls).callbacksOf 4 = [(0, 5 / 2)] := by decide +kernel
  exact ⟨_, rfl, hworld, hiteration, hruns, hnoted, hcallbacks.symm.trans hnoted⟩

end Simulation

end CausalBlocks
