import CausalBlocks.Proofs.Simulation.Offstage

/-!
# Behind the scenes

Nobody reads the notices. The policy, and what is kept of dependencies and schedules, is read
where an iteration chooses its schedule and nowhere else. A relation between simulations that
differ in nothing more is not seen by anything that leaves that choice alone.
-/

namespace CausalBlocks

variable {α β ω : Type}

namespace Simulation

open EStateM

variable {R : Simulation α ω → Simulation α ω → Prop} {f : Simulation α ω → Simulation α ω}

/-- The simulation with something else behind the scenes. -/
def withBackstage (s : Simulation α ω) (b : Backstage α) : Simulation α ω :=
  { s with
    editor := { s.editor with journal := b.journal }
    graph := b.graph
    scheduler := b.scheduler
    settings := { s.settings with recompute := b.recompute } }

/-- A change in front of the scenes. It leaves the model and the count of the iterations as
they are. -/
structure Frontal (f : Simulation α ω → Simulation α ω) : Prop where
  commutes : ∀ s b, f (s.withBackstage b) = (f s).withBackstage b
  keeps : ∀ s, f s = { f s with
    editor := s.editor, graph := s.graph, scheduler := s.scheduler, settings := s.settings,
    iteration := s.iteration }

/-- A relation between simulations that differ at most behind the scenes. It stays when both
change in front of them, get the same sample, or give the same notice. -/
structure Unseen (R : Simulation α ω → Simulation α ω → Prop) : Prop where
  backstage : ∀ {s t}, R s t → ∃ b, t = s.withBackstage b
  frontal : ∀ {f}, Frontal f → ∀ {s t}, R s t → R (f s) (f t)
  record : ∀ p x, Blind R (edit (.record p x))
  report : ∀ notice, Blind R (edit (.report notice))

/-- What changes on the stage changes in front of the scenes. -/
theorem Onstage.frontal (hf : Onstage f) : Frontal f where
  commutes s b := by
    let o : Offstage α := ⟨b, s.tracers, s.pacer, s.settings.endTime⟩
    refine (hf.commutes s o).trans ?_
    rw [hf.keeps s]
    rfl
  keeps s := by rw [hf.keeps s]

/-- Whoever does not see behind the scenes does not see what else is off stage. -/
theorem Unseen.hidden (h : Unseen R) : Hidden R where
  offstage {s} _ hst := by
    obtain ⟨b, rfl⟩ := h.backstage hst
    exact ⟨⟨b, s.tracers, s.pacer, s.settings.endTime⟩, rfl⟩
  onstage hf := h.frontal hf.frontal
  tracers f := h.frontal (f := fun s => { s with tracers := f s.tracers })
    ⟨fun _ _ => rfl, fun _ => rfl⟩
  pacer f := h.frontal (f := fun s => { s with pacer := f s.pacer }) ⟨fun _ _ => rfl, fun _ => rfl⟩
  record := h.record
  report := h.report

namespace Unseen

variable (h : Unseen R)
include h

/-- The simulation may be read in front of the scenes. -/
theorem read {f : Simulation α ω → Run α ω β} (hsame : ∀ s b, f (s.withBackstage b) = f s)
    (hf : ∀ s, Blind R (f s)) : Blind R (get >>= f) := by
  refine .get_bind (fun s t hst => ?_) hf
  obtain ⟨b, rfl⟩ := h.backstage hst
  exact hsame s b

theorem update (hf : Frontal f) : Blind R (modify f : Run α ω PUnit) :=
  .modify fun _ _ => h.frontal hf

variable [Scalar α]

/-- Making ready only looks at what is in front of the scenes. -/
theorem ready
    (hadd : ∀ parent stem step start, Blind R (edit (.addFixedRateClock parent stem step start))) :
    Blind R (ready : Run α ω Unit) :=
  h.read (fun _ _ => rfl) fun _ => .ite (.pure _) fun s t hst =>
    h.hidden.prepare (fun _ _ => id) hst fun step => h.hidden.ensureClock hadd step s t hst

theorem pace : Blind R (pace : Run α ω Unit) := by
  refine h.read (fun _ _ => rfl) fun s => ?_
  cases s.pacer with
  | none => exact .pure _
  | some pacer =>
      have hkeep (pacer : Pacer α) : Blind R (modify fun s : Simulation α ω =>
          { s with pacer := some pacer } : Run α ω PUnit) :=
        h.update ⟨fun _ _ => rfl, fun _ => rfl⟩
      refine .bind (.lift _) fun next => .bind (.lift _) fun (outcome, pacer) => ?_
      exact .ite (.bind (h.report _) fun _ => hkeep pacer) (hkeep pacer)

/-- Runs go on alike if turns are taken alike. -/
theorem continueRun {E : Simulation α ω → Simulation α ω → Prop} (hE : ∀ s t, R s t → E s t)
    (hadvance : ∀ s t, R s t → Agree R E (Simulation.advance s) (Simulation.advance t))
    (turns : Nat) : ∀ s t, R s t → Agree R E (continueRun turns s) (continueRun turns t) := by
  have hfinished {s t : Simulation α ω} (hst : R s t) : t.isFinished = s.isFinished := by
    obtain ⟨b, rfl⟩ := h.backstage hst
    rfl
  induction turns with
  | zero =>
      intro s t hst
      refine .get_bind ?_
      rw [hfinished hst]
      exact (Blind.lift _).agree hst hE
  | succ turns ih =>
      intro s t hst
      refine .get_bind ?_
      rw [hfinished hst]
      refine ((Blind.lift _).agree hst hE).bind fun finished s₁ t₁ _ h₁ =>
        .ite (.ok true h₁) (Agree.bind ?_ fun _ s₂ t₂ _ h₂ => ih s₂ t₂ h₂)
      exact (hadvance s₁ t₁ h₁).discard.bind fun _ s₂ t₂ _ h₂ => h.pace.agree h₂ hE

end Unseen

/-- A relation that is not even seen by what chooses a schedule. -/
structure Unnoticed [Scalar α] (R : Simulation α ω → Simulation α ω → Prop) : Prop
    extends Unseen R where
  computeStep : Blind R computeStep
  rewindStep : Blind R rewindStep

theorem Unnoticed.approach [Scalar α] (h : Unnoticed R) (first : Candidate α)
    (candidates : List (Candidate α)) : Blind R (approach first candidates : Run α ω (α × Nat)) :=
  h.hidden.approach h.computeStep h.rewindStep first candidates

end Simulation

end CausalBlocks
