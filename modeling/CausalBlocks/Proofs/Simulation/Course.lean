import CausalBlocks.Proofs.Simulation.Reachable

/-!
# Courses of turns

All that happens to a simulation between two beginnings is turns, with changes of its
configuration between them. So it is with a run, with a number of steps, and with
steps taken one by one.
-/

namespace CausalBlocks.Simulation

variable {α ω : Type} [Scalar α] {s s' s'' : Simulation α ω}

/-- A turn: the simulation before it, with the iteration that was attempted, and
afterwards, and the event that fired. -/
structure Turn (α ω : Type) where
  before : Simulation α ω
  tried : Simulation α ω
  after : Simulation α ω
  fired : Option Nat

/-- A turn that the simulation took. -/
structure Turn.Happens (t : Turn α ω) : Prop where
  attempt : attempt t.before = .ok () t.tried
  advance : advance t.before = .ok t.fired t.after

/-- Turns that lead from a simulation to a later one. -/
inductive Leads : Simulation α ω → List (Turn α ω) → Simulation α ω → Prop
  | rest {s s' : Simulation α ω} (h : Configured s s') : Leads s [] s'
  | turn {s s' : Simulation α ω} {t : Turn α ω} {ts : List (Turn α ω)}
      (hchange : Configured s t.before) (h : t.Happens) (hlater : Leads t.after ts s') :
      Leads s (t :: ts) s'

namespace Leads

variable {ts ts' : List (Turn α ω)}

theorem refl (s : Simulation α ω) : Leads s [] s := .rest (.of_editor rfl rfl)

theorem reachable (h : Leads s ts s') (hs : s.Reachable) : s'.Reachable := by
  induction h with
  | rest h => exact hs.configured h
  | turn hchange h _ ih => exact ih ((hs.configured hchange).advanced h.advance)

theorem of_configured (h : Configured s s') (h' : Leads s' ts s'') : Leads s ts s'' := by
  cases h' with
  | rest h' => exact .rest (h.trans h')
  | turn hchange hturn hlater => exact .turn (h.trans hchange) hturn hlater

theorem trans (h : Leads s ts s') (h' : Leads s' ts' s'') : Leads s (ts ++ ts') s'' := by
  induction h with
  | rest h => exact of_configured h h'
  | turn hchange h _ ih => exact .turn hchange h (ih h')

theorem of_advance {fired : Option Nat} (h : advance s = .ok fired s') :
    ∃ t : Turn α ω, t.before = s ∧ t.after = s' ∧ t.fired = fired ∧ Leads s [t] s' := by
  obtain ⟨_, tried, hattempt, _⟩ := EStateM.bind_eq_ok.mp h
  exact ⟨⟨s, tried, s', fired⟩, rfl, rfl, rfl,
    .turn (.of_editor rfl rfl) ⟨hattempt, h⟩ (refl s')⟩

theorem of_step (h : step s = .ok () s') : ∃ t, Leads s [t] s' := by
  rw [step, EStateM.discard_eq_ok] at h
  obtain ⟨fired, hadvance⟩ := h
  obtain ⟨t, _, _, _, ht⟩ := of_advance hadvance
  exact ⟨t, ht⟩

theorem of_pacedStep (h : pacedStep s = .ok () s') : ∃ t, Leads s [t] s' := by
  obtain ⟨_, s₁, hstep, hpace⟩ := EStateM.bind_eq_ok.mp h
  obtain ⟨t, ht⟩ := of_step hstep
  exact ⟨t, ht.trans (.rest (pace_configured hpace))⟩

theorem of_continueRun {turns : Nat} {ended : Bool} (h : continueRun turns s = .ok ended s') :
    ∃ ts, Leads s ts s' := by
  -- on the turns left; a run that stops early has fewer
  induction turns generalizing s with
  | zero =>
      simp only [continueRun, EStateM.bind_eq_ok, EStateM.get_eq_ok, EStateM.lift_eq_ok] at h
      obtain ⟨_, _, ⟨rfl, rfl⟩, _, rfl⟩ := h
      exact ⟨[], refl _⟩
  | succ turns ih =>
      simp only [continueRun, EStateM.bind_eq_ok, EStateM.get_eq_ok, EStateM.lift_eq_ok,
        EStateM.ite_eq_ok, EStateM.pure_eq_ok] at h
      obtain ⟨_, _, ⟨rfl, rfl⟩, finished, _, ⟨_, rfl⟩, ⟨_, _, rfl⟩ | ⟨_, _, s₁, hstep, hrest⟩⟩ := h
      · exact ⟨[], refl _⟩
      · obtain ⟨t, ht⟩ := of_pacedStep hstep
        obtain ⟨ts, hts⟩ := ih hrest
        exact ⟨t :: ts, ht.trans hts⟩

theorem of_takeSteps {steps : Nat} (h : takeSteps steps s = .ok () s') :
    ∃ ts, Leads s ts s' := by
  induction steps generalizing s with
  | zero =>
      obtain ⟨_, rfl⟩ := EStateM.pure_eq_ok.mp h
      exact ⟨[], refl _⟩
  | succ steps ih =>
      simp only [takeSteps, EStateM.bind_eq_ok, EStateM.get_eq_ok, EStateM.ite_eq_ok,
        EStateM.pure_eq_ok] at h
      obtain ⟨_, _, ⟨rfl, rfl⟩, ⟨_, _, rfl⟩ | ⟨_, _, s₁, hstep, hrest⟩⟩ := h
      · exact ⟨[], refl _⟩
      · obtain ⟨t, ht⟩ := of_step hstep
        obtain ⟨ts, hts⟩ := ih hrest
        exact ⟨t :: ts, ht.trans hts⟩

/-- A run that ends well is a beginning with turns after it. -/
theorem of_run {turns : Nat} {ended : Bool} (h : run turns s = .ok ended s') :
    ∃ s₁ ts, begin s = .ok () s₁ ∧ Leads s₁ ts s' := by
  obtain ⟨_, s₁, hbegin, hrest⟩ := EStateM.bind_eq_ok.mp h
  obtain ⟨s₂, hturns, rfl⟩ := concluding_ok hrest
  obtain ⟨_, s₃, hfirst, hturns⟩ := EStateM.bind_eq_ok.mp hturns
  obtain ⟨t, ht⟩ := of_pacedStep hfirst
  obtain ⟨ts, hts⟩ := of_continueRun hturns
  exact ⟨s₁, _, hbegin, (ht.trans hts).trans (.rest (dismiss_configured s₂))⟩

theorem of_runSteps {steps : Nat} (h : runSteps steps s = .ok () s') :
    ∃ s₁ ts, begin s = .ok () s₁ ∧ Leads s₁ ts s' := by
  obtain ⟨_, s₁, hbegin, hrest⟩ := EStateM.bind_eq_ok.mp h
  obtain ⟨s₂, hturns, rfl⟩ := concluding_ok hrest
  obtain ⟨ts, hts⟩ := of_takeSteps hturns
  exact ⟨s₁, _, hbegin, hts.trans (.rest (dismiss_configured s₂))⟩

end Leads

/-! ### Reachable simulations -/

namespace Reachable

theorem step (hs : s.Reachable) (h : step s = .ok () s') : s'.Reachable := by
  obtain ⟨t, ht⟩ := Leads.of_step h
  exact ht.reachable hs

theorem run {turns : Nat} {ended : Bool} (hs : s.Lawful) (h : run turns s = .ok ended s') :
    s'.Reachable := by
  obtain ⟨s₁, ts, hbegin, hts⟩ := Leads.of_run h
  exact hts.reachable (.begun hs hbegin)

theorem runSteps {steps : Nat} (hs : s.Lawful) (h : runSteps steps s = .ok () s') :
    s'.Reachable := by
  obtain ⟨s₁, ts, hbegin, hts⟩ := Leads.of_runSteps h
  exact hts.reachable (.begun hs hbegin)

theorem setInput {name : String} {value : α} (hs : s.Reachable)
    (h : setInput name value s = .ok () s') : s'.Reachable :=
  hs.configured (setInput_configured h)

theorem addTracer {interval : Option (α × Interpolation)} (hs : s.Reachable)
    (h : addTracer interval s = .ok () s') : s'.Reachable :=
  hs.configured (addTracer_configured h)

end Reachable

end CausalBlocks.Simulation
