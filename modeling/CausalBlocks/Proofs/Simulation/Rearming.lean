import CausalBlocks.Proofs.Scalar.Rational
import CausalBlocks.Proofs.Simulation.Course
import CausalBlocks.Proofs.Simulation.Inspection

/-!
# When an event fires again

An event that has fired is marked, and the mark goes when a later iteration that is not
the first since the clock started shows its signal off the level. Turns look at the
iteration that they attempted, so the mark also goes when another event then takes that
iteration back.
-/

namespace CausalBlocks.Simulation

variable {α ω : Type} [Scalar α] {s s' : Simulation α ω}

/-- The newest iteration is not the first since the clock started, and the signal of a
watch is off the level there. -/
structure OffLevel (s : Simulation α ω) (w : Watch α) : Prop where
  later : 2 ≤ s.iteration
  off : ∃ history sample, s.diagram.signalHistory w.signal = .ok history ∧
    history[s.iteration - 1]? = some sample ∧ (sample.value == w.level) = false

/-! ### The mark of an event -/

omit [Scalar α] in
/-- A signal has either one sample for each iteration or none. -/
theorem Sized.signal (hs : s.Sized) {path : String} {history : History α}
    (h : s.diagram.signalHistory path = .ok history) :
    history.size = s.iteration ∨ history.size = 0 := by
  obtain ⟨port, _, h⟩ := Except.bind_eq_ok.mp h
  obtain ⟨source, _, h⟩ := Except.bind_eq_ok.mp h
  obtain ⟨p, hp, h⟩ := Except.bind_eq_ok.mp h
  cases h
  have hhistory : s.diagram.history? source = some p.history := by
    rw [Diagram.history?, Diagram.port_eq_ok.mp hp, Option.map_some]
  rw [hs source p.history hhistory]
  split
  · exact .inl rfl
  · exact .inr rfl

/-- A level can be watched again exactly if the signal has left it. -/
theorem canRearm_iff (hs : s.Sized) {w : Watch α} {free : Bool}
    (h : w.canRearm s.diagram = .ok free) : free = true ↔ s.OffLevel w := by
  obtain ⟨history, hhistory, _⟩ := Except.bind_eq_ok.mp h
  rw [canRearm_eq hhistory] at h
  cases h
  rw [Bool.and_eq_true, decide_eq_true_iff, Bool.not_eq_true']
  constructor
  · rintro ⟨hsize, hlevel⟩
    have hiteration : history.size = s.iteration :=
      (hs.signal hhistory).resolve_right fun hzero => by omega
    have hnewest : history.back? = history[history.size - 1]? := Array.back?_eq_getElem?
    rw [hiteration, Array.getElem?_eq_getElem (by omega)] at hnewest
    refine ⟨by omega, history, _, hhistory, Array.getElem?_eq_getElem (by omega), ?_⟩
    rwa [History.newest?, hnewest] at hlevel
  · rintro ⟨hlater, history', sample, hhistory', hsample, hlevel⟩
    cases hhistory.symm.trans hhistory'
    have hiteration : history.size = s.iteration := by
      obtain ⟨hlt, _⟩ := Array.getElem?_eq_some_iff.mp hsample
      exact (hs.signal hhistory).resolve_right fun hzero => by omega
    refine ⟨by omega, ?_⟩
    rw [History.newest?, Array.back?_eq_getElem?, hiteration, hsample]
    exact hlevel

/-! ### What turns do to an event -/

variable {t : Turn α ω} {i : Nat} {event : StateEvent α ω}

/-- An event that does not fire keeps its mark unless the attempted iteration shows the
signal off the level. -/
theorem Turn.Happens.event_of_ne (h : t.Happens) (hs : t.before.Aligned)
    (hevent : t.before.events[i]? = some event) (hother : t.fired ≠ some i) :
    ∃ event', t.after.events[i]? = some event' ∧ event'.watch = event.watch ∧
      (event'.fired = true ↔ event.fired = true ∧ ¬ t.tried.OffLevel event.watch) := by
  obtain ⟨tried, events, hattempt, hrearming, hends⟩ := advance_ok hs h.advance
  cases hattempt.symm.trans h.attempt
  obtain ⟨event', hevent', hrearmed⟩ := hrearming.event i event hevent
  have hafter : t.after.events[i]? = some event' := by
    rcases hends with ⟨_, hsame⟩ | ⟨j, _, hfired, _, _, hmarked⟩
    · rw [hsame]
      exact hevent'
    · have hne : j ≠ i := fun heq => hother (heq ▸ hfired)
      rw [hmarked.events, List.getElem?_modify_ne _ _ hne]
      exact hevent'
  refine ⟨event', hafter, ?_⟩
  cases hrearmed with
  | armed hunmarked => exact ⟨rfl, by simp [hunmarked]⟩
  | @marked hmark free hfree =>
      have hsized : t.tried.Sized := (hs.attempt h.attempt).1.sized
      rw [← canRearm_iff hsized hfree]
      exact ⟨rfl, by simp [hmark]⟩

/-- An event that fires was armed, and is marked then. -/
theorem Turn.Happens.event_of_fired (h : t.Happens) (hs : t.before.Aligned)
    (hfired : t.fired = some i) : ∃ event, t.before.events[i]? = some event ∧
      event.fired = false ∧ ∃ event', t.after.events[i]? = some event' ∧
        event'.watch = event.watch ∧ event'.fired = true := by
  obtain ⟨tried, events, _, hrearming, ⟨hnone, _⟩ | ⟨j, event, hj, hevent, harmed, hmarked⟩⟩ :=
    advance_ok hs h.advance
  · rw [hfired] at hnone
    cases hnone
  · cases hfired.symm.trans hj
    obtain ⟨_, hevent', hrearmed⟩ := hrearming.event i event hevent
    refine ⟨event, hevent, harmed, { event with fired := true }, ?_, rfl, rfl⟩
    rw [hmarked.events, List.getElem?_modify_eq, hevent']
    cases hrearmed with
    | armed _ => rfl
    | marked hmark _ =>
        rw [harmed] at hmark
        cases hmark

omit [Scalar α] in
theorem Configured.event_eq (h : Configured s s') (hevent : s.events[i]? = some event) :
    s'.events[i]? = some event := by
  obtain ⟨more, hmore, _⟩ := h.events
  rw [hmore, List.getElem?_append_left (List.getElem?_eq_some_iff.mp hevent).1]
  exact hevent

/-- While an event does not fire, it keeps its mark exactly as long as no attempted
iteration shows the signal off the level. -/
theorem Leads.marked_iff {ts : List (Turn α ω)} (h : Leads s ts s') (hs : s.Aligned)
    (hevent : s.events[i]? = some event) (hother : ∀ t ∈ ts, t.fired ≠ some i) :
    ∃ event', s'.events[i]? = some event' ∧ event'.watch = event.watch ∧
      (event'.fired = true ↔
        event.fired = true ∧ ∀ t ∈ ts, ¬ t.tried.OffLevel event.watch) := by
  induction h generalizing event with
  | rest h => exact ⟨event, h.event_eq hevent, rfl, by simp⟩
  | @turn s s' t ts hchange h _ ih =>
      have hbefore := hs.configured hchange
      obtain ⟨event₁, hevent₁, hwatch₁, hmark₁⟩ :=
        h.event_of_ne hbefore (hchange.event_eq hevent) (hother t List.mem_cons_self)
      obtain ⟨event₂, hevent₂, hwatch₂, hmark₂⟩ := ih (hbefore.advance h.advance) hevent₁
        fun t' ht' => hother t' (List.mem_cons_of_mem t ht')
      refine ⟨event₂, hevent₂, hwatch₂.trans hwatch₁, ?_⟩
      rw [hmark₂, hmark₁, hwatch₁, List.forall_mem_cons, and_assoc]

/-! ### Firing again -/

theorem Turn.Happens.offLevel_after (h : t.Happens) (hs : t.before.Aligned)
    (hnone : t.fired = none) {w : Watch α} (htried : t.tried.OffLevel w) : t.after.OffLevel w := by
  obtain ⟨tried, events, hattempt, _, ⟨_, hsame⟩ | ⟨j, _, hj, _⟩⟩ := advance_ok hs h.advance
  · cases hattempt.symm.trans h.attempt
    rw [hsame]
    exact ⟨htried.later, htried.off⟩
  · rw [hnone] at hj
    cases hj

theorem Leads.happens {ts : List (Turn α ω)} (h : Leads s ts s') (hs : s.Aligned) :
    ∀ t ∈ ts, t.Happens ∧ t.before.Aligned := by
  induction h with
  | rest h => exact fun _ hmem => by cases hmem
  | @turn s s' t ts hchange h _ ih =>
      have hbefore := hs.configured hchange
      exact List.forall_mem_cons.mpr ⟨⟨h, hbefore⟩, ih (hbefore.advance h.advance)⟩

/-- Two turns in which an event fires, and the turns from the one to the other, in which
it does not. -/
structure FiresAgain (first : Turn α ω) (between : List (Turn α ω)) (last : Turn α ω) (i : Nat)
    (event : StateEvent α ω) : Prop where
  reachable : first.before.Reachable
  happens : first.Happens
  leads : Leads first.after between last.before
  later : last.Happens
  event : first.before.events[i]? = some event
  fires : first.fired = some i
  again : last.fired = some i
  other : ∀ t ∈ between, t.fired ≠ some i

variable {first last : Turn α ω} {between : List (Turn α ω)}

/-- Between two firings of an event some attempted iteration shows the signal off the
level. -/
theorem FiresAgain.exists_tried (h : FiresAgain first between last i event) :
    ∃ t ∈ between, t.tried.OffLevel event.watch := by
  have hs := h.reachable.aligned
  obtain ⟨_, hsame, _, marked, hmarked, hwatch, hmark⟩ := h.happens.event_of_fired hs h.fires
  cases h.event.symm.trans hsame
  have hafter := hs.advance h.happens.advance
  obtain ⟨waiting, hwaiting, _, hmark_iff⟩ := h.leads.marked_iff hafter hmarked h.other
  have hlast := (h.leads.reachable (h.reachable.advanced h.happens.advance)).aligned
  obtain ⟨armed, harmed, hunmarked, _⟩ := h.later.event_of_fired hlast h.again
  cases harmed.symm.trans hwaiting
  by_contra hnone
  have hnot : ∀ t ∈ between, ¬ t.tried.OffLevel marked.watch := fun t ht hoff =>
    hnone ⟨t, ht, hwatch ▸ hoff⟩
  rw [hmark_iff.mpr ⟨hmark, hnot⟩] at hunmarked
  cases hunmarked

/-- An event fires again only after a turn in which none fired has shown its signal off
the level, in an iteration that is not the first since the clock started. This is so
unless an event that fired in between took back such an iteration. -/
theorem FiresAgain.off_level_between (h : FiresAgain first between last i event)
    (hkept : ∀ t ∈ between, t.fired.isSome → ¬ t.tried.OffLevel event.watch) :
    ∃ t ∈ between, t.fired = none ∧ t.after.OffLevel event.watch := by
  obtain ⟨t, ht, hoff⟩ := h.exists_tried
  have hnone : t.fired = none := by
    cases hfired : t.fired with
    | none => rfl
    | some j => exact absurd hoff (hkept t ht (by rw [hfired]; rfl))
  have hafter := h.reachable.aligned.advance h.happens.advance
  obtain ⟨hhappens, hbefore⟩ := h.leads.happens hafter t ht
  exact ⟨t, ht, hnone, hhappens.offLevel_after hbefore hnone hoff⟩

/-- The turn that a simulation takes. -/
def turnFrom (s : Simulation α ω) : Turn α ω :=
  ⟨s, (attempt s).state, (advance s).state, (advance s).answer?.join⟩

theorem turnFrom_happens {fired : Option Nat} (h : (advance s).answer? = some fired) :
    (turnFrom s).Happens := by
  have hadvance := EStateM.Result.eq_ok h
  obtain ⟨_, tried, hattempt, _⟩ := EStateM.bind_eq_ok.mp hadvance
  refine ⟨?_, ?_⟩
  · rw [turnFrom, hattempt]
    rfl
  · rw [turnFrom, h]
    exact hadvance

theorem turnFrom_fired {fired : Option Nat} (h : (advance s).answer? = some fired) :
    (turnFrom s).fired = fired := by
  rw [turnFrom, h]
  rfl

theorem Leads.turnFrom {fired : Option Nat} {ts : List (Turn α ω)}
    (h : (Simulation.advance s).answer? = some fired)
    (hlater : Leads (turnFrom s).after ts s') : Leads s (turnFrom s :: ts) s' :=
  .turn (.of_editor rfl rfl) (turnFrom_happens h) hlater

/-- A simulation of one block, without links, in which some levels are watched. -/
def watching (operator : Operator ℚ) (watches : List (Watch ℚ)) : Simulation ℚ Unit :=
  { make (Edit.addAll ⟨0⟩ [("x", operator)] { diagram := .empty "m" [] [] }).state
      { Settings.standard with step := 1 } () with
    locator := .before
    events := watches.map fun watch => { watch, callback := fun _ => pure () } }

theorem watching_lawful (operator : Operator ℚ) (watches : List (Watch ℚ)) :
    (watching operator watches).Lawful where
  fitted := Block.fitted_lasting.keptByBuilding.addAll _ _ _ (Diagram.Built.empty "m" [] []).fitted
  callbacks event hevent := by
    obtain ⟨watch, _, rfl⟩ := List.mem_map.mp hevent
    intro time scene _ scene' hfitted hok
    cases hok
    exact hfitted

/-- The level 1 is crossed whenever the value 2 follows the value 0 or the other way
round. After it has fired, the event waits for an iteration that stays. -/
theorem off_level_between_pulses : ∃ (first last : Turn ℚ Unit) (between : List (Turn ℚ Unit))
    (i : Nat) (event : StateEvent ℚ Unit), FiresAgain first between last i event ∧
      (∀ t ∈ between, t.fired.isSome → ¬ t.tried.OffLevel event.watch) ∧
        ∃ t ∈ between, t.fired = none ∧ t.after.OffLevel event.watch := by
  let made := watching (.sequence [0, 2]) [⟨"x", 1, .any⟩]
  let begun := (begin made).state
  let t₁ := turnFrom begun
  let t₂ := turnFrom t₁.after
  let t₃ := turnFrom t₂.after
  let t₄ := turnFrom t₃.after
  let t₅ := turnFrom t₄.after
  obtain ⟨hbegun, h₁, h₂, h₃, h₄, h₅⟩ : (begin made).answer? = some () ∧
      (advance begun).answer? = some none ∧ (advance t₁.after).answer? = some (some 0) ∧
      (advance t₂.after).answer? = some none ∧ (advance t₃.after).answer? = some none ∧
      (advance t₄.after).answer? = some (some 0) := by decide +kernel
  have hreachable : t₁.after.Reachable :=
    (Leads.turnFrom h₁ (.refl _)).reachable
      (.begun (watching_lawful _ _) (EStateM.Result.eq_ok hbegun))
  have hfirst : t₂.Happens := turnFrom_happens h₂
  have hfires : t₂.fired = some 0 := turnFrom_fired h₂
  have hquiet : ∀ t ∈ [t₃, t₄], t.fired = none := by
    simp [t₃, t₄, turnFrom_fired h₃, turnFrom_fired h₄]
  obtain ⟨event, hevent, _⟩ := hfirst.event_of_fired hreachable.aligned hfires
  have hagain : FiresAgain t₂ [t₃, t₄] t₅ 0 event := {
    reachable := hreachable
    happens := hfirst
    leads := .turnFrom h₃ (.turnFrom h₄ (.refl _))
    later := turnFrom_happens h₅
    event := hevent
    fires := hfires
    again := turnFrom_fired h₅
    other := fun t ht => by simp [hquiet t ht] }
  have hkept : ∀ t ∈ [t₃, t₄], t.fired.isSome → ¬ t.tried.OffLevel event.watch := by
    intro t ht hfired
    rw [hquiet t ht] at hfired
    cases hfired
  exact ⟨t₂, t₅, [t₃, t₄], 0, event, hagain, hkept, hagain.off_level_between hkept⟩

/-- Two events watch the time pass 2.5. The one that fires second takes back the iteration
that showed the first one its signal off the level, and so the first one fires again,
before any iteration has passed the level and stayed. -/
theorem fires_again_on_level : ∃ (first last : Turn ℚ Unit) (between : List (Turn ℚ Unit))
    (i : Nat) (event : StateEvent ℚ Unit), FiresAgain first between last i event ∧
      ¬ ∃ t ∈ between, t.fired = none ∧ t.after.OffLevel event.watch := by
  let made := watching .time [⟨"x", 5 / 2, .any⟩, ⟨"x", 5 / 2, .any⟩]
  let begun := (begin made).state
  let t₁ := turnFrom begun
  let t₂ := turnFrom t₁.after
  let t₃ := turnFrom t₂.after
  let t₄ := turnFrom t₃.after
  let t₅ := turnFrom t₄.after
  let t₆ := turnFrom t₅.after
  let t₇ := turnFrom t₆.after
  let t₈ := turnFrom t₇.after
  obtain ⟨hbegun, h₁, h₂, h₃, h₄, h₅, h₆, h₇, h₈, hstart₅, hstart₇⟩ :
      (begin made).answer? = some () ∧
      (advance begun).answer? = some none ∧ (advance t₁.after).answer? = some none ∧
      (advance t₂.after).answer? = some none ∧ (advance t₃.after).answer? = some (some 0) ∧
      (advance t₄.after).answer? = some none ∧ (advance t₅.after).answer? = some (some 1) ∧
      (advance t₆.after).answer? = some none ∧ (advance t₇.after).answer? = some (some 0) ∧
      t₅.after.iteration = 1 ∧ t₇.after.iteration = 1 := by decide +kernel
  have hreachable : t₃.after.Reachable :=
    (Leads.turnFrom h₁ (.turnFrom h₂ (.turnFrom h₃ (.refl _)))).reachable
      (.begun (watching_lawful _ _) (EStateM.Result.eq_ok hbegun))
  have hfirst : t₄.Happens := turnFrom_happens h₄
  have hfires : t₄.fired = some 0 := turnFrom_fired h₄
  have hfired₆ : t₆.fired = some 1 := turnFrom_fired h₆
  obtain ⟨event, hevent, _⟩ := hfirst.event_of_fired hreachable.aligned hfires
  have hagain : FiresAgain t₄ [t₅, t₆, t₇] t₈ 0 event := {
    reachable := hreachable
    happens := hfirst
    leads := .turnFrom h₅ (.turnFrom h₆ (.turnFrom h₇ (.refl _)))
    later := turnFrom_happens h₈
    event := hevent
    fires := hfires
    again := turnFrom_fired h₈
    other := by simp [t₅, t₇, turnFrom_fired h₅, hfired₆, turnFrom_fired h₇] }
  refine ⟨t₄, t₈, [t₅, t₆, t₇], 0, event, hagain, ?_⟩
  rintro ⟨t, ht, hnone, hoff⟩
  have hlater := hoff.later
  simp only [List.mem_cons, List.not_mem_nil, or_false] at ht
  obtain rfl | rfl | rfl := ht
  · omega
  · rw [hfired₆] at hnone
    cases hnone
  · omega

end CausalBlocks.Simulation
