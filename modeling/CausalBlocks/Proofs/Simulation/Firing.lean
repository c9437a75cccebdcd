import CausalBlocks.Proofs.Scalar.Ordered
import CausalBlocks.Proofs.Simulation.Overtaking
import Mathlib.Data.List.Induction

/-!
# The event that fires

Where crossings show after an iteration, each is located by probes of the simulation as it was
before. The earliest is approached by an iteration that takes the place of the attempted one, the
callback of its event is called there, and the clock starts anew. Of the other events nothing is
left: their probes leave no trace, they keep their marks, and their callbacks are not called.
-/

namespace CausalBlocks.Simulation

variable {α ω : Type} [Scalar α] {s s' s₁ s₂ : Simulation α ω}

/-! ### The first of the least -/

/-- One of several located times is the first of the least: those before it are later, and those
after it are no earlier. -/
def Foremost (best : α × Nat) (located : List (α × Nat)) : Prop :=
  ∃ before after, located = before ++ best :: after ∧ (∀ l ∈ before, best.1 < l.1) ∧
    ∀ l ∈ after, ¬ l.1 < best.1

/-- What is known when some located times have been compared. -/
def Compared (located : List (α × Nat)) : Option (α × Nat) → Prop
  | none => ∀ l ∈ located, ¬ l.1 < Scalar.infinity
  | some best => best.1 < Scalar.infinity ∧ Foremost best located

section Ordered

variable [Ordered α] {located : List (α × Nat)}

/-- A time that is less than the first of the least is the first of the least after it. -/
theorem Foremost.of_lt {best next : α × Nat} (h : Foremost best located)
    (hnext : next.1 < best.1) (htimes : ∀ l ∈ located, Scalar.IsTime l.1) :
    Foremost next (located ++ [next]) := by
  obtain ⟨before, after, rfl, hbefore, hafter⟩ := h
  refine ⟨_, [], rfl, fun l hl => ?_, fun _ hmem => by cases hmem⟩
  have hnumber := (htimes l hl).1
  rcases List.mem_append.mp hl with hl | hl
  · exact Ordered.trans hnumber hnext (hbefore l hl)
  · rcases List.mem_cons.mp hl with rfl | hl
    · exact hnext
    · exact Ordered.lt_of_lt_of_not_lt hnumber hnext (hafter l hl)

omit [Ordered α] in
theorem Foremost.of_not_lt {best next : α × Nat} (h : Foremost best located)
    (hnext : ¬ next.1 < best.1) : Foremost best (located ++ [next]) := by
  obtain ⟨before, after, rfl, hbefore, hafter⟩ := h
  refine ⟨before, after ++ [next], by rw [List.append_assoc]; rfl, hbefore, fun l hl => ?_⟩
  rcases List.mem_append.mp hl with hl | hl
  · exact hafter l hl
  · rwa [List.mem_singleton.mp hl]

theorem Compared.sooner {best? : Option (α × Nat)} {next : α × Nat} (h : Compared located best?)
    (htimes : ∀ l ∈ located ++ [next], Scalar.IsTime l.1) :
    Compared (located ++ [next]) (sooner best? next) := by
  obtain ⟨htimes, hnext⟩ := List.forall_mem_append.mp htimes
  rw [List.forall_mem_singleton] at hnext
  cases best? with
  | none =>
      rw [Simulation.sooner]
      split
      next hbounded =>
        -- all before are at infinity, as they are not below it
        rw [Ordered.bounded_iff] at hbounded
        refine ⟨hbounded, located, [], rfl, fun l hl => ?_, fun _ hmem => by cases hmem⟩
        rw [Ordered.eq_infinity (htimes l hl) (h l hl)]
        exact hbounded
      next hunbounded =>
        rw [Ordered.bounded_iff] at hunbounded
        exact List.forall_mem_append.mpr ⟨h, List.forall_mem_singleton.mpr hunbounded⟩
  | some best =>
      obtain ⟨hbounded, hbest⟩ := h
      rw [Simulation.sooner]
      split
      next hless =>
        refine ⟨?_, hbest.of_lt hless htimes⟩
        -- infinity is not below the time, so the time is below it
        exact (Ordered.cotrans hnext.1 hbounded).elim (absurd hless <| Ordered.asymm ·) id
      next hnot => exact ⟨hbounded, hbest.of_not_lt hnot⟩

/-- In the order of events, the first of the least is the least, with the first event of several. -/
theorem Foremost.least {best : α × Nat} (h : Foremost best located)
    (hsorted : (located.map Prod.snd).Pairwise (· < ·)) :
    best ∈ located ∧ ∀ l ∈ located, ¬ l.1 < best.1 ∧ (l.2 < best.2 → best.1 < l.1) := by
  obtain ⟨before, after, rfl, hbefore, hafter⟩ := h
  rw [List.map_append, List.map_cons, List.pairwise_append, List.pairwise_cons] at hsorted
  refine ⟨List.mem_append_right _ List.mem_cons_self, fun l hl => ?_⟩
  rcases List.mem_append.mp hl with hl | hl
  · exact ⟨Ordered.asymm (hbefore l hl), fun _ => hbefore l hl⟩
  · rcases List.mem_cons.mp hl with rfl | hl
    · exact ⟨fun hless => Ordered.asymm hless hless, fun hless => absurd hless (Nat.lt_irrefl _)⟩
    · have hlater := hsorted.2.1.1 l.2 (List.mem_map_of_mem hl)
      exact ⟨hafter l hl, fun hless => absurd hless (Nat.lt_asymm hlater)⟩

end Ordered

/-! ### Candidates -/

/-- An event shows one crossing at most. -/
theorem Shows.unique {c c' : Candidate α} (h : Shows s c) (h' : Shows s c')
    (hevent : c'.event = c.event) : c' = c := by
  obtain ⟨⟨event, hfound, _, hwatch⟩, history, before, after, hhistory, hlast, _, hbracket⟩ := h
  obtain ⟨⟨_, hsame, _, hwatch'⟩, _, _, _, hhistory', hlast', _, hbracket'⟩ := h'
  rw [hevent] at hsame
  cases hfound.symm.trans hsame
  have hwatches : c'.watch = c.watch := hwatch'.symm.trans hwatch
  rw [hwatches] at hhistory' hbracket'
  cases hhistory.symm.trans hhistory'
  cases hlast.symm.trans hlast'
  rw [← hbracket] at hbracket'
  cases c
  cases c'
  cases hevent
  cases hwatches
  cases hbracket'
  rfl

/-- The time at which a crossing is located if the questions of the locator are answered by probes
of the simulation as it is. -/
def locatedTime? (s : Simulation α ω) (lower : α) (c : Candidate α) : Option α :=
  (s.locator.search c.watch.direction c.bracket).run fun time => (probe c.watch lower time s).answer?

/-- The simulation with no step imposed. -/
def free (s : Simulation α ω) : Simulation α ω := { s with forcedStep := none }

theorem probe_free (watch : Watch α) (lower time : α) (s : Simulation α ω) :
    probe watch lower time s.free = probe watch lower time s := rfl

/-- What was kept does not matter for a probe. -/
theorem Echoes.probe {t : Simulation α ω} (h : Echoes Renewing s t) (watch : Watch α)
    (lower time : α) : EStateM.Agree (Echoes Never) (Echoes Renewing)
      (Simulation.probe watch lower time s) (Simulation.probe watch lower time t) := by
  refine (h.computeForced _).bind fun _ s₁ t₁ _ h₁ => ?_
  refine EStateM.Blind.agree (.bind (unseen Never).hidden.model fun _ => .bind (.lift _) fun history =>
    .bind Deaf.rewindStep fun _ => ?_) h₁ fun _ _ => of_never
  cases history.newest? with
  | some sample => exact .pure _
  | none => exact Deaf.readAll (fun _ _ => rfl) fun _ => .throw _

/-- What locating leaves of a simulation: nothing that shows, whatever step was imposed. -/
abbrev Untouched (s s' : Simulation α ω) : Prop := Undone s.free s'.free

namespace Untouched

variable {watch : Watch α} {lower time value : α}

omit [Scalar α] in
theorem refl (hs : s.Poised) : Untouched s s := ⟨hs.forced none, .refl _ _⟩

/-- A probe answers what it would have answered before. -/
theorem probe (h : Untouched s s₁) (hok : probe watch lower time s₁ = .ok value s₂) :
    (Simulation.probe watch lower time s).answer? = some value ∧ Untouched s s₂ := by
  rw [← probe_free] at hok
  obtain ⟨_, hsame, _⟩ := (h.echoes.probe watch lower time).exists_ok_left hok
  have hprobe := h.poised.probe hok
  refine ⟨?_, hprobe.poised.forced none, h.echoes.trans (hprobe.echoes.forced none)⟩
  rw [← probe_free, hsame]
  rfl

/-- So a search finds what it would have found. -/
theorem run (search : Search α) (h : Untouched s s₁)
    (hok : search.run (Simulation.probe watch lower) s₁ = .ok time s₂) :
    (search.run fun time => (Simulation.probe watch lower time s).answer?) = some time ∧
      Untouched s s₂ := by
  induction search generalizing s₁ with
  | found time =>
      obtain ⟨rfl, rfl⟩ := EStateM.pure_eq_ok.mp hok
      exact ⟨rfl, h⟩
  | probe asked next ih =>
      obtain ⟨value, s₃, hprobe, hnext⟩ := EStateM.bind_eq_ok.mp hok
      obtain ⟨hanswer, h₃⟩ := h.probe hprobe
      obtain ⟨hfound, h₂⟩ := ih value h₃ hnext
      refine ⟨?_, h₂⟩
      rw [Search.run, hanswer]
      exact hfound

omit [Scalar α] in
theorem locator (h : Untouched s s₁) : s₁.locator = s.locator := by
  obtain ⟨_, _, _, _, hs₁⟩ := h.echoes
  exact (congrArg Simulation.locator hs₁ :)

theorem locate {c : Candidate α} {l : α × Nat} (h : Untouched s s₁)
    (hok : locate lower c s₁ = .ok l s₂) :
    (s.locatedTime? lower c = some l.1 ∧ l.2 = c.event) ∧ Untouched s s₂ := by
  simp only [Simulation.locate, EStateM.bind_eq_ok, EStateM.get_eq_ok, EStateM.pure_eq_ok] at hok
  obtain ⟨_, s₁, ⟨rfl, rfl⟩, time, s₃, hsearch, rfl, rfl⟩ := hok
  rw [h.locator] at hsearch
  obtain ⟨hfound, h₂⟩ := h.run _ hsearch
  exact ⟨⟨hfound, rfl⟩, h₂⟩

/-- Each crossing is located as if no other one had been looked for. -/
theorem locateAll {candidates : List (Candidate α)} {located : List (α × Nat)} (h : Untouched s s₁)
    (hok : candidates.mapM (Simulation.locate lower) s₁ = .ok located s₂) :
    (candidates.map fun c => (s.locatedTime? lower c, c.event)) = located.map (Prod.map some id) ∧
      Untouched s s₂ := by
  induction candidates generalizing s₁ located with
  | nil =>
      rw [List.mapM_nil, EStateM.pure_eq_ok] at hok
      obtain ⟨rfl, rfl⟩ := hok
      exact ⟨rfl, h⟩
  | cons c rest ih =>
      simp only [List.mapM_cons, EStateM.bind_eq_ok, EStateM.pure_eq_ok] at hok
      obtain ⟨l, s₃, hlocate, more, s₄, hrest, rfl, rfl⟩ := hok
      obtain ⟨⟨htime, hevent⟩, h₃⟩ := h.locate hlocate
      obtain ⟨hmore, h₂⟩ := ih h₃ hrest
      refine ⟨?_, h₂⟩
      rw [List.map_cons, List.map_cons, htime, ← hevent, hmore]
      rfl

end Untouched

/-- An iteration that is computed adds one sample to everything that is computed. -/
theorem Poised.computeForced {step : α} (hs : s.Poised)
    (h : Simulation.computeForced step s = .ok () s') :
    s.diagram.SameShape s'.diagram ∧ s'.diagram.rewind = s.diagram ∧ s'.Sized ∧
      s'.iteration = s.iteration + 1 := by
  rw [Simulation.computeForced] at h
  split at h
  next s₁ hcompute =>
    cases h
    obtain ⟨tick, groups, parts, hiterated⟩ := (hs.toSteady.forced (some step)).computeStep hcompute
    refine ⟨hiterated.shape, hiterated.rewind (hs.forced (some step)).sized,
      hiterated.sized (hs.forced (some step)).sized, ?_⟩
    change s₁.iteration = _
    rw [hiterated.rest]
  next => cases h

variable {t : Turn α ω} {candidates : List (Candidate α)}

/-- The simulation from which crossings are located: its events have been looked at, and the
attempted iteration has been taken back. -/
def Turn.back (t : Turn α ω) : Simulation α ω :=
  { t.tried with
    editor := { t.tried.editor with diagram := t.before.diagram }
    iteration := t.before.iteration
    events := (inspectEvents t.tried).state.events }

theorem Turn.Happens.back (h : t.Happens) (hs : t.before.Reachable)
    (hlater : t.before.iteration ≠ 0) (hinspect : inspectEvents t.tried = .ok candidates s₁)
    (hrewind : rewindStep s₁ = .ok () s₂) : s₂ = t.back ∧ t.back.Poised := by
  obtain ⟨s₀, tick, groups, parts, _, hprepared, hiterated, _⟩ := attempt_ok hs.aligned h.attempt
  have hdiagram : t.tried.diagram.rewind = t.before.diagram := by
    rw [hiterated.rewind hprepared.aligned.sized, hprepared.diagram.resolve_right hlater]
  obtain ⟨g, groups, hrest⟩ := hs.aligned.attempt_rest h.attempt
  have hiteration : t.tried.iteration - 1 = t.before.iteration := by rw [hrest]; rfl
  obtain ⟨hs₁, _⟩ := inspectEvents_ok hinspect
  have hback : s₂ = t.back := by
    rw [Turn.back, hinspect, ← hdiagram, ← hiteration]
    cases hrewind
    rw [hs₁]
    rfl
  have hsteady : t.tried.Steady := (hs.aligned.attempt h.attempt).1.toSteady
  refine ⟨hback, hback ▸ (Trial.rewindStep (hsteady.inspected hinspect) hrewind).steady,
    hs.aligned.sized, .inr ?_⟩
  rw [Turn.back, hrest]
  exact ⟨rfl, rfl⟩

end CausalBlocks.Simulation
