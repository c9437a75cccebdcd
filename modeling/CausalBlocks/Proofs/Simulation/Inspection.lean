import CausalBlocks.Proofs.Simulation.Crossing

/-!
# What the inspection of events finds

Exactly the armed events whose signals crossed their levels are found, each with its last two
samples, measured from the level.
-/

namespace CausalBlocks.Simulation

variable {α ω : Type} [Scalar α] {s s' : Simulation α ω}

/-- A sample measured from a level. -/
def shifted (level : α) (x : Sample α) : Sample α := { x with value := x.value - level }

/-- A candidate is what an armed event of the simulation shows. -/
structure Shows (s : Simulation α ω) (c : Candidate α) : Prop where
  armed : ∃ event, s.events[c.event]? = some event ∧ event.fired = false ∧ event.watch = c.watch
  samples : ∃ history before after, s.diagram.signalHistory c.watch.signal = .ok history ∧
    Watch.lastTwo? history = some (before, after) ∧
      crosses c.watch.direction before.value after.value c.watch.level = true ∧
        c.bracket = ⟨shifted c.watch.level before, shifted c.watch.level after⟩

theorem crossed_eq_true_iff {w : Watch α} {d : Diagram α} : w.crossed d = .ok true ↔
    ∃ history before after, d.signalHistory w.signal = .ok history ∧
      Watch.lastTwo? history = some (before, after) ∧
        crosses w.direction before.value after.value w.level = true := by
  rw [Watch.crossed, Except.bind_eq_ok]
  constructor
  · rintro ⟨history, hhistory, h⟩
    cases hlast : Watch.lastTwo? history with
    | none =>
        rw [hlast] at h
        cases h
    | some last =>
        rw [hlast] at h
        exact ⟨history, last.1, last.2, hhistory, hlast, Except.ok.inj h⟩
  · rintro ⟨history, before, after, hhistory, hlast, hcrosses⟩
    refine ⟨history, hhistory, ?_⟩
    rw [hlast]
    exact congrArg Except.ok hcrosses

/-- What is found by looking at one event. -/
theorem inspectEvent_found {index : Nat} {found : Option (Candidate α)}
    {event : StateEvent α ω} (hevent : s.events[index]? = some event)
    (h : inspectEvent index s = .ok found s') :
    (∀ c ∈ found, c.event = index ∧ Shows s c) ∧
      (event.fired = false → event.watch.crossed s.diagram = .ok true → found.isSome) := by
  simp only [inspectEvent, EStateM.bind_eq_ok, EStateM.get_eq_ok] at h
  obtain ⟨_, s, ⟨rfl, rfl⟩, h⟩ := h
  rw [hevent] at h
  obtain ⟨watch, callback, fired⟩ := event
  cases fired with
  | true =>
      simp only [EStateM.bind_eq_ok, EStateM.lift_eq_ok, EStateM.ite_eq_ok, setFired,
        EStateM.modify_eq_ok, EStateM.pure_eq_ok] at h
      refine ⟨fun c hc => ?_, fun hfalse => by cases hfalse⟩
      obtain ⟨_, _, _, ⟨_, _, _, _, rfl, _⟩ | ⟨_, rfl, _⟩⟩ := h <;> cases hc
  | false =>
      simp only [EStateM.bind_eq_ok, EStateM.lift_eq_ok] at h
      obtain ⟨crossed, s, ⟨hcrossed, rfl⟩, h⟩ := h
      simp only [EStateM.ite_eq_ok, EStateM.bind_eq_ok, EStateM.lift_eq_ok,
        EStateM.pure_eq_ok] at h
      obtain ⟨rfl, history, s, ⟨hhistory, rfl⟩, rfl, rfl⟩ | ⟨hnot, rfl, rfl⟩ := h
      · obtain ⟨_, before, after, hsame, hlast, hcrosses⟩ := crossed_eq_true_iff.mp hcrossed
        cases hhistory.symm.trans hsame
        rw [hlast]
        refine ⟨fun c hc => ?_, fun _ _ => rfl⟩
        cases hc
        exact ⟨rfl, ⟨_, hevent, rfl, rfl⟩, history, before, after, hhistory, hlast, hcrosses, rfl⟩
      · refine ⟨fun c hc => (by cases hc), fun _ htrue => ?_⟩
        cases hcrossed.symm.trans htrue
        exact absurd rfl hnot

/-- Whatever is found was shown, and whatever was shown is found. -/
theorem inspectEvents_found {candidates : List (Candidate α)}
    (h : inspectEvents s = .ok candidates s') : (∀ c ∈ candidates, Shows s c) ∧
      ∀ i event, s.events[i]? = some event → event.fired = false →
        event.watch.crossed s.diagram = .ok true → ∃ c ∈ candidates, c.event = i := by
  simp only [inspectEvents, EStateM.bind_eq_ok, EStateM.get_eq_ok] at h
  obtain ⟨_, s, ⟨rfl, rfl⟩, h⟩ := h
  let invariant (pending : List Nat) (found : List (Candidate α)) (s₁ : Simulation α ω) : Prop :=
    Inspecting s pending found s₁ ∧ (∀ c ∈ found, Shows s c) ∧
      ∀ i event, i ∉ pending → s.events[i]? = some event → event.fired = false →
        event.watch.crossed s.diagram = .ok true → ∃ c ∈ found, c.event = i
  have hinit : invariant (List.range s.events.length) [] s := by
    refine ⟨.start s, fun _ hmem => (by cases hmem), fun i event hi hevent => ?_⟩
    exact absurd (List.mem_range.mpr (List.getElem?_eq_some_iff.mp hevent).1) hi
  have hstep : ∀ index pending found s₁ found? s₂, invariant (index :: pending) found s₁ →
      inspectEvent index s₁ = .ok found? s₂ → invariant pending (found ++ found?.toList) s₂ := by
    rintro index pending found s₁ found? s₂ ⟨hinspecting, hshown, hfound⟩ hok
    have hlt := hinspecting.bound index List.mem_cons_self
    have hevent := List.getElem?_eq_getElem hlt
    have hsame := hinspecting.waiting index List.mem_cons_self
    obtain ⟨hnew, hcomplete⟩ := inspectEvent_found (hsame.trans hevent) hok
    have hdiagram := hinspecting.diagram
    refine ⟨hinspecting.next hok, fun c hc => ?_, fun i event hi hevent' harmed hcrossed => ?_⟩
    · rcases List.mem_append.mp hc with hc | hc
      · exact hshown c hc
      · obtain ⟨rfl, harmed, hsamples⟩ := hnew c (Option.mem_toList.mp hc)
        rw [hsame] at harmed
        rw [hdiagram] at hsamples
        exact ⟨harmed, hsamples⟩
    · by_cases heq : i = index
      · subst heq
        cases hevent.symm.trans hevent'
        obtain ⟨c, hc⟩ := Option.isSome_iff_exists.mp (hcomplete harmed (hdiagram ▸ hcrossed))
        exact ⟨c, List.mem_append_right _ (Option.mem_toList.mpr hc), (hnew c hc).1⟩
      · obtain ⟨c, hc, hi⟩ :=
          hfound i event (List.not_mem_cons_of_ne_of_not_mem heq hi) hevent' harmed hcrossed
        exact ⟨c, List.mem_append_left _ hc, hi⟩
  obtain ⟨_, hshown, hfound⟩ := EStateM.filterMapM_ok hstep hinit h
  exact ⟨hshown, fun i event => hfound i event List.not_mem_nil⟩

/-! ### When the inspection succeeds -/

theorem canRearm_eq {w : Watch α} {d : Diagram α} {history : History α}
    (hhistory : d.signalHistory w.signal = .ok history) : w.canRearm d =
      .ok (decide (2 ≤ history.size) &&
        !(history.newest?.map fun sample => sample.value == w.level).getD false) := by
  have hlevel : w.onLevel d =
      .ok ((history.newest?.map fun sample => sample.value == w.level).getD false) := by
    rw [Watch.onLevel, hhistory]
    simp only [bind, Except.bind]
    cases history.newest? <;> rfl
  rw [Watch.canRearm, hhistory, hlevel]
  simp only [bind, Except.bind]
  by_cases hsize : history.size < 2
  · rw [if_pos hsize, decide_eq_false (by omega), Bool.false_and]
    rfl
  · rw [if_neg hsize, decide_eq_true (by omega), Bool.true_and]
    rfl

theorem crossed_eq {w : Watch α} {d : Diagram α} {history : History α}
    (hhistory : d.signalHistory w.signal = .ok history) : w.crossed d =
      .ok (((Watch.lastTwo? history).map fun last =>
        crosses w.direction last.1.value last.2.value w.level).getD false) := by
  rw [Watch.crossed, hhistory]
  simp only [bind, Except.bind]
  cases Watch.lastTwo? history <;> rfl

/-- Looking at an event needs its signal. -/
theorem inspectEvent_signal {index : Nat} {found : Option (Candidate α)}
    {event : StateEvent α ω} (hevent : s.events[index]? = some event)
    (h : inspectEvent index s = .ok found s') :
    ∃ history, s.diagram.signalHistory event.watch.signal = .ok history := by
  rw [inspectEvent, EStateM.bind_of_ok (EStateM.get_eq_ok.mpr ⟨rfl, rfl⟩), hevent] at h
  obtain ⟨watch, callback, fired⟩ := event
  cases fired <;>
  · obtain ⟨_, _, hlift, _⟩ := EStateM.bind_eq_ok.mp h
    obtain ⟨history, hhistory, _⟩ := Except.bind_eq_ok.mp (EStateM.lift_eq_ok.mp hlift).1
    exact ⟨history, hhistory⟩

/-- With its signal any event can be looked at. -/
theorem inspectEvent_total {index : Nat} {event : StateEvent α ω} {history : History α}
    (hevent : s.events[index]? = some event)
    (hhistory : s.diagram.signalHistory event.watch.signal = .ok history) :
    ∃ found s', inspectEvent index s = .ok found s' := by
  rw [inspectEvent, EStateM.bind_of_ok (EStateM.get_eq_ok.mpr ⟨rfl, rfl⟩), hevent]
  obtain ⟨watch, callback, fired⟩ := event
  cases fired with
  | true =>
      dsimp only
      rw [EStateM.bind_of_ok (EStateM.lift_eq_ok.mpr ⟨canRearm_eq hhistory, rfl⟩)]
      split <;> exact ⟨_, _, rfl⟩
  | false =>
      dsimp only
      rw [EStateM.bind_of_ok (EStateM.lift_eq_ok.mpr ⟨crossed_eq hhistory, rfl⟩)]
      split
      · rw [EStateM.bind_of_ok (EStateM.lift_eq_ok.mpr ⟨hhistory, rfl⟩)]
        exact ⟨_, _, rfl⟩
      · exact ⟨_, _, rfl⟩

theorem inspectEvents_signals {candidates : List (Candidate α)}
    (h : inspectEvents s = .ok candidates s') : ∀ (i : Nat) event, s.events[i]? = some event →
      ∃ history, s.diagram.signalHistory event.watch.signal = .ok history := by
  rw [inspectEvents, EStateM.bind_of_ok (EStateM.get_eq_ok.mpr ⟨rfl, rfl⟩)] at h
  let invariant (pending : List Nat) (found : List (Candidate α)) (s₁ : Simulation α ω) : Prop :=
    Inspecting s pending found s₁ ∧ ∀ (i : Nat) event, i ∉ pending → s.events[i]? = some event →
      ∃ history, s.diagram.signalHistory event.watch.signal = .ok history
  have hinit : invariant (List.range s.events.length) [] s := by
    refine ⟨.start s, fun i event hi hevent => ?_⟩
    exact absurd (List.mem_range.mpr (List.getElem?_eq_some_iff.mp hevent).1) hi
  have hstep : ∀ index pending found s₁ found? s₂, invariant (index :: pending) found s₁ →
      inspectEvent index s₁ = .ok found? s₂ → invariant pending (found ++ found?.toList) s₂ := by
    rintro index pending found s₁ found? s₂ ⟨hinspecting, hsignals⟩ hok
    refine ⟨hinspecting.next hok, fun i event hi hevent => ?_⟩
    by_cases heq : i = index
    · subst heq
      have hsignal :=
        inspectEvent_signal ((hinspecting.waiting i List.mem_cons_self).trans hevent) hok
      rwa [hinspecting.diagram] at hsignal
    · exact hsignals i event (List.not_mem_cons_of_ne_of_not_mem heq hi) hevent
  obtain ⟨_, hsignals⟩ := EStateM.filterMapM_ok hstep hinit h
  exact fun i event => hsignals i event List.not_mem_nil

theorem inspectEvents_total (hsignals : ∀ (i : Nat) event, s.events[i]? = some event →
    ∃ history, s.diagram.signalHistory event.watch.signal = .ok history) :
    ∃ candidates s', inspectEvents s = .ok candidates s' := by
  rw [inspectEvents, EStateM.bind_of_ok (EStateM.get_eq_ok.mpr ⟨rfl, rfl⟩)]
  refine EStateM.filterMapM_total (fun index pending found s₁ hinspecting => ?_) (Inspecting.start s)
  have hevent := List.getElem?_eq_getElem (hinspecting.bound index List.mem_cons_self)
  obtain ⟨history, hhistory⟩ := hsignals index _ hevent
  rw [← hinspecting.diagram] at hhistory
  obtain ⟨found?, s₂, hok⟩ := inspectEvent_total
    ((hinspecting.waiting index List.mem_cons_self).trans hevent) hhistory
  exact ⟨found?, s₂, hok, hinspecting.next hok⟩

end CausalBlocks.Simulation
