import CausalBlocks.Proofs.Simulation.Course
import CausalBlocks.Proofs.Simulation.Failing
import CausalBlocks.Proofs.Simulation.Firing
import CausalBlocks.Proofs.Simulation.Silence
import CausalBlocks.Proofs.Trace.Delivery

/-!
# What a run reports

A turn that succeeds is one iteration message and one row. Where no event fires the row shows the
model after the turn. Where one does it shows the iteration that ends at the crossing, before the
callback. A turn that fails can still have sent its iteration message, and its row if only the
callback or the restart has failed. So a tracer that wants every sample receives the start of a
run, the turns, and the end.
-/

namespace EStateM

/-- The failure of a computation, if it fails. -/
def Result.failure? {ε σ α : Type} : Result ε σ α → Option ε
  | .ok _ _ => none
  | .error e _ => some e

end EStateM

namespace CausalBlocks

variable {α ω : Type} [Scalar α]

/-- The newest value of a port; without samples it is not a number. -/
def Diagram.newestValue (d : Diagram α) (p : PortId) : α :=
  match d.historyOf p with
  | .ok history => (history.newest?.map Sample.value).getD (0 / 0)
  | .error _ => 0 / 0

namespace Simulation

open EStateM

variable {β : Type} {s s' s₁ : Simulation α ω} {r : Registration α} {ports : List PortId}
  {sent more : List (TraceMessage α)}

/-- The newest values of some ports, at a time. -/
def rowAt (s : Simulation α ω) (ports : List PortId) (time : α) : Row α :=
  ⟨time, ports.map s.diagram.newestValue⟩

/-- The row of a turn. -/
inductive Turn.Publishes (ports : List PortId) (t : Turn α ω) : Row α → Prop
  | ordinary (hfired : t.fired = none) : t.Publishes ports (t.after.rowAt ports t.after.time)
  | crossing {first : Candidate α} {rest : List (Candidate α)} {inspected crossed : Simulation α ω}
      {time : α} {index : Nat} (hfired : t.fired = some index)
      (hinspect : inspectEvents t.tried = .ok (first :: rest) inspected)
      (happroach : approach first (first :: rest) inspected = .ok (time, index) crossed) :
      t.Publishes ports (crossed.rowAt ports time)

/-- The messages of a turn with its row. -/
def Turn.messages (t : Turn α ω) (row : Row α) : List (TraceMessage α) :=
  [.iteration t.before.iteration t.tried.time, .sample row]

/-- The state in which the callback of an event is called at a crossing. -/
def crossedAt (s : Simulation α ω) (time : α) (index : Nat) : Simulation α ω :=
  { s with
    time
    tracers := s.tracers.told (.sample ⟨time, s.newestValues⟩)
    events := s.events.modify index fun event => { event with fired := true } }

/-- The messages of a turn that fails. -/
inductive LastWords (ports : List PortId) (s : Simulation α ω) (failure : Failure α) :
    List (TraceMessage α) → Prop
  | untimed (h : s.nextTick = .error failure) : LastWords ports s failure []
  | iteration {tick : Tick α} {s' : Simulation α ω} (htick : s.nextTick = .ok tick)
      (h : Breaks s failure s' ∨
        ∃ tried, attempt s = .ok () tried ∧ inspectEvents tried = .error failure s') :
      LastWords ports s failure [.iteration s.iteration tick.time]
  | crossing {first : Candidate α} {rest : List (Candidate α)}
      {tried inspected crossed s' : Simulation α ω} {time : α} {index : Nat}
      (hattempt : attempt s = .ok () tried)
      (hinspect : inspectEvents tried = .ok (first :: rest) inspected)
      (happroach : approach first (first :: rest) inspected = .ok (time, index) crossed)
      (h : (fire index time >>= fun _ => restart time) (crossed.crossedAt time index) =
        .error failure s') :
      LastWords ports s failure
        [.iteration s.iteration tried.time, .sample (crossed.rowAt ports time)]

/-! ### Being heard -/

/-- A run that has been started is heard by a tracer, which has been sent some messages. -/
structure Heard (r : Registration α) (ports : List PortId) (s : Simulation α ω)
    (sent : List (TraceMessage α)) : Prop where
  attends : s.tracers.Attends r sent
  ports : s.signalPorts = ports
  started : s.started = true

namespace Heard

omit [Scalar α] in
theorem congr (h : Heard r ports s sent) (hsame : s'.audience = s.audience) :
    Heard r ports s' sent := by
  obtain ⟨htracers, hports, hstarted⟩ := Audience.mk.inj hsame
  exact ⟨htracers ▸ h.attends, hports.trans h.ports, hstarted.trans h.started⟩

omit [Scalar α] in
theorem silent {x : Run α ω β} (h : Heard r ports s sent) (hx : Silent x) :
    Heard r ports (x s).state sent := h.congr (hx s)

omit [Scalar α] in
theorem silent_ok {x : Run α ω β} {a : β} (h : Heard r ports s sent) (hx : Silent x)
    (hok : x s = .ok a s') : Heard r ports s' sent := by
  have hlater := h.silent hx
  rwa [hok] at hlater

omit [Scalar α] in
theorem silent_error {x : Run α ω β} {failure : Failure α} (h : Heard r ports s sent)
    (hx : Silent x) (herror : x s = .error failure s') : Heard r ports s' sent := by
  have hlater := h.silent hx
  rwa [herror] at hlater

theorem told (h : Heard r ports s sent) (message : TraceMessage α) :
    Heard r ports { s with tracers := s.tracers.told message } (sent ++ [message]) := by
  obtain ⟨w, hw, _⟩ := h.attends.worker
  refine ⟨?_, h.ports, h.started⟩
  rw [Dispatcher.told, if_pos (Dispatcher.isRunning_eq hw)]
  exact h.attends.perform (.send message) fun heq => by cases heq

theorem announced (h : Heard r ports s sent) (tick : Tick α) :
    Heard r ports (s.announced tick) (sent ++ [.iteration s.iteration tick.time]) :=
  ⟨h.attends.perform (.send _) fun heq => (by cases heq), h.ports, h.started⟩

/-- What the run sends as its newest values are those of the ports that were announced. -/
theorem toldRow (h : Heard r ports s sent) (time : α) :
    Heard r ports { s with tracers := s.tracers.told (.sample ⟨time, s.newestValues⟩) }
      (sent ++ [.sample (s.rowAt ports time)]) := by
  have hvalues : s.newestValues = ports.map s.diagram.newestValue := by
    rw [newestValues, h.ports]
    rfl
  rw [rowAt, ← hvalues]
  exact h.told _

/-! ### One turn -/

theorem attempt_ok (h : Heard r ports s sent) (hok : attempt s = .ok () s') :
    Heard r ports s' (sent ++ [.iteration s.iteration s'.time]) := by
  obtain ⟨s₀, tick, s₁, hready, _, hcompute, rfl⟩ := attempt_eq_ok hok
  cases (ready_of_started h.started).symm.trans hready
  exact ((h.announced tick).silent_ok .computeStep hcompute).congr rfl

theorem published (h : Heard r ports s sent) (hok : publishSample s = .ok () s') :
    Heard r ports s' (sent ++ [.sample (s'.rowAt ports s'.time)]) := by
  cases (publishSample_apply s).symm.trans hok
  exact h.toldRow s.time

theorem crossedAt (h : Heard r ports s sent) (time : α) (index : Nat) :
    Heard r ports (s.crossedAt time index) (sent ++ [.sample (s.rowAt ports time)]) :=
  (h.toldRow time).congr rfl

end Heard

/-- What is left to do at a crossing after its row was sent. -/
theorem conclude_apply (time : α) (index : Nat) (s : Simulation α ω) : conclude time index s =
    ((fire index time >>= fun _ => restart time) >>= fun _ => pure index)
      (s.crossedAt time index) := by
  have htime : (modify fun s => { s with time } : Run α ω PUnit) s = .ok ⟨⟩ { s with time } := rfl
  rw [conclude, bind_of_ok htime, bind_of_ok (publishSample_apply _), bind_assoc]
  rfl

/-- A turn sends its iteration message and one row. -/
theorem Heard.advance_ok {fired : Option Nat} (h : Heard r ports s sent)
    (hok : advance s = .ok fired s') : ∃ tried row, Turn.Happens ⟨s, tried, s', fired⟩ ∧
      Turn.Publishes ports ⟨s, tried, s', fired⟩ row ∧
        Heard r ports s' (sent ++ Turn.messages ⟨s, tried, s', fired⟩ row) := by
  obtain ⟨_, tried, hattempt, hrest⟩ := bind_eq_ok.mp hok
  obtain ⟨processed, s₁, hprocess, hpublish⟩ := bind_eq_ok.mp hrest
  obtain ⟨candidates, inspected, hinspect, hhandle⟩ := bind_eq_ok.mp hprocess
  have htried := h.attempt_ok hattempt
  have hinspected := htried.silent_ok .inspectEvents hinspect
  have hsplit (t : Turn α ω) (row : Row α) : sent ++ t.messages row =
      sent ++ [.iteration t.before.iteration t.tried.time] ++ [.sample row] := by
    rw [List.append_assoc]
    rfl
  cases candidates with
  | nil =>
      obtain ⟨rfl, rfl⟩ := pure_eq_ok.mp hhandle
      obtain ⟨_, s₂, hpublish, hpure⟩ := bind_eq_ok.mp hpublish
      obtain ⟨rfl, rfl⟩ := pure_eq_ok.mp hpure
      refine ⟨tried, _, ⟨hattempt, hok⟩, .ordinary rfl, ?_⟩
      rw [hsplit]
      exact hinspected.published hpublish
  | cons first rest =>
      obtain ⟨index, s₂, hhandle, hpure⟩ := bind_eq_ok.mp hhandle
      obtain ⟨rfl, rfl⟩ := pure_eq_ok.mp hpure
      obtain ⟨rfl, rfl⟩ := pure_eq_ok.mp hpublish
      rw [handleCrossing_eq] at hhandle
      obtain ⟨⟨time, found⟩, crossed, happroach, hconclude⟩ := bind_eq_ok.mp hhandle
      obtain ⟨_, s₃, hfire, hpure⟩ := bind_eq_ok.mp ((conclude_apply ..).symm.trans hconclude)
      obtain ⟨rfl, rfl⟩ := pure_eq_ok.mp hpure
      have hcrossed := (hinspected.silent_ok (.approach _ _) happroach).crossedAt time index
      refine ⟨tried, _, ⟨hattempt, hok⟩, .crossing rfl hinspect happroach, ?_⟩
      rw [hsplit]
      exact hcrossed.silent_ok (.bind (Silent.fire _ _) fun _ => Silent.restart _) hfire

theorem attempt_of_tick {tick : Tick α} (hstarted : s.started = true)
    (htick : s.nextTick = .ok tick) : attempt s =
      (computeStep >>= fun _ => modify fun s => { s with time := tick.time })
        (s.announced tick) := by
  have hlift : (liftM s.nextTick : Run α ω (Tick α)) s = .ok tick s :=
    lift_eq_ok.mpr ⟨htick, rfl⟩
  rw [attempt, bind_of_ok (ready_of_started hstarted), bind_of_ok (get_eq_ok.mpr ⟨rfl, rfl⟩),
    bind_of_ok hlift]
  rfl

theorem attempt_of_tick_error {failure : Failure α} (hstarted : s.started = true)
    (htick : s.nextTick = .error failure) : attempt s = .error failure s := by
  rw [attempt, bind_of_ok (ready_of_started hstarted), bind_of_ok (get_eq_ok.mpr ⟨rfl, rfl⟩),
    bind_of_error (lift_of_error htick)]

/-- A turn that fails sends its last words. -/
theorem Heard.advance_error {failure : Failure α} (h : Heard r ports s sent)
    (herror : advance s = .error failure s') : ∃ words, LastWords ports s failure words ∧
      Heard r ports s' (sent ++ words) := by
  cases hnext : s.nextTick with
  | error untimed =>
      cases (bind_of_error (attempt_of_tick_error h.started hnext)).symm.trans herror
      exact ⟨[], .untimed hnext, by rwa [List.append_nil]⟩
  | ok tick =>
  have htimed {tried : Simulation α ω} (hattempt : attempt s = .ok () tried) :
      tried.time = tick.time := by
    rw [attempt_of_tick h.started hnext] at hattempt
    obtain ⟨_, _, _, hmodify⟩ := bind_eq_ok.mp hattempt
    rw [modify_eq_ok.mp hmodify]
  rcases advance_eq_error.mp herror with hbreaks | hdeclines
  · refine ⟨_, .iteration hnext (.inl hbreaks), ?_⟩
    cases hbreaks with
    | attempt hattempt =>
        rw [attempt_of_tick h.started hnext] at hattempt
        rcases bind_eq_error.mp hattempt with hcompute | ⟨_, _, _, hmodify⟩
        · exact (h.announced tick).silent_error .computeStep hcompute
        · cases modify_eq_error.mp hmodify
    | approach hattempt hinspect happroach =>
        have hinspected := (h.attempt_ok hattempt).silent_ok .inspectEvents hinspect
        rw [← htimed hattempt]
        exact hinspected.silent_error (.approach _ _) happroach
  · cases hdeclines with
    | inspection hattempt hinspect =>
        refine ⟨_, .iteration hnext (.inr ⟨_, hattempt, hinspect⟩), ?_⟩
        rw [← htimed hattempt]
        exact (h.attempt_ok hattempt).silent_error .inspectEvents hinspect
    | @conclusion tried inspected crossed first rest time index hattempt hinspect happroach hconclude =>
        have hinspected := (h.attempt_ok hattempt).silent_ok .inspectEvents hinspect
        have hcrossed := (hinspected.silent_ok (.approach _ _) happroach).crossedAt time index
        rw [conclude_apply] at hconclude
        rcases bind_eq_error.mp hconclude with hfire | ⟨_, _, _, hpure⟩
        · refine ⟨_, .crossing hattempt hinspect happroach hfire, ?_⟩
          have hlater := hcrossed.silent_error (.bind (Silent.fire _ _) fun _ => Silent.restart _) hfire
          rwa [List.append_assoc] at hlater
        · cases pure_eq_error.mp hpure

/-! ### Runs -/

/-- Turns that a simulation takes one after the other. Between them it waits for its pace. -/
inductive Takes : Simulation α ω → List (Turn α ω) → Simulation α ω → Prop
  | none (s : Simulation α ω) : Takes s [] s
  | turn {t : Turn α ω} {ts : List (Turn α ω)} {s' : Simulation α ω} (h : t.Happens)
      (hlater : Takes t.after ts s') : Takes t.before (t :: ts) s'
  | paced {s s₁ s' : Simulation α ω} {ts : List (Turn α ω)} (h : pace s = .ok () s₁)
      (hlater : Takes s₁ ts s') : Takes s ts s'

theorem Takes.trans {ts ts' : List (Turn α ω)} {s'' : Simulation α ω} (h : Takes s ts s')
    (h' : Takes s' ts' s'') : Takes s (ts ++ ts') s'' := by
  induction h with
  | none => exact h'
  | turn h _ ih => exact .turn h (ih h')
  | paced h _ ih => exact .paced h (ih h')

/-- How a run ends after its last turn that succeeded, and the messages that it still sends: it ends
well, or its next turn fails, or it can neither go on nor end because the time is not known. -/
inductive Ends (ports : List PortId) (s : Simulation α ω) :
    Option (Failure α) → List (TraceMessage α) → Prop
  | well : Ends ports s none []
  | turn {failure : Failure α} {s' : Simulation α ω} {words : List (TraceMessage α)}
      (h : advance s = .error failure s') (hwords : LastWords ports s failure words) :
      Ends ports s (some failure) words
  | undecided {failure : Failure α} {s' : Simulation α ω}
      (h : s.isFinished = .error failure ∨ pace s = .error failure s') :
      Ends ports s (some failure) []

/-- Turns with their rows, as messages. -/
def story (turns : List (Turn α ω × Row α)) : List (TraceMessage α) :=
  turns.flatMap fun (t, row) => t.messages row

/-- A computation takes turns, of which every one is reported. -/
def Reports (x : Run α ω β) : Prop :=
  ∀ (r : Registration α) (ports : List PortId) (s : Simulation α ω) (sent : List (TraceMessage α)),
    Heard r ports s sent → ∃ (turns : List (Turn α ω × Row α)) (last : Simulation α ω)
      (words : List (TraceMessage α)), Takes s (turns.map Prod.fst) last ∧
        (∀ entry ∈ turns, entry.1.Publishes ports entry.2) ∧
          Ends ports last (x s).failure? words ∧
            (∀ a s', x s = .ok a s' → s' = last) ∧
              Heard r ports (x s).state (sent ++ story turns ++ words)

namespace Reports

theorem bind {γ : Type} {x : Run α ω β} {f : β → Run α ω γ} (hx : Reports x)
    (hf : ∀ a, Reports (f a)) : Reports (x >>= f) := by
  intro r ports s sent h
  obtain ⟨turns, last, words, htakes, hrows, hends, hlast, hheard⟩ := hx r ports s sent h
  cases hresult : x s with
  | error failure s₁ =>
      rw [hresult] at hends hheard
      rw [bind_of_error hresult]
      exact ⟨turns, last, words, htakes, hrows, hends, fun _ _ hok => (by cases hok), hheard⟩
  | ok a s₁ =>
      rw [hresult] at hends hheard
      cases hends
      cases hlast a s₁ hresult
      rw [bind_of_ok hresult]
      rw [List.append_nil] at hheard
      obtain ⟨turns', last', words', htakes', hrows', hends', hlast', hheard'⟩ :=
        hf a r ports last _ hheard
      refine ⟨turns ++ turns', last', words', ?_, List.forall_mem_append.mpr ⟨hrows, hrows'⟩, hends',
        hlast', ?_⟩
      · rw [List.map_append]
        exact htakes.trans htakes'
      · rw [story, List.flatMap_append, ← List.append_assoc]
        exact hheard'

theorem pure (a : β) : Reports (pure a : Run α ω β) := fun r ports s sent h =>
  ⟨[], s, [], .none s, fun _ hmem => (by cases hmem), .well, fun _ _ hok => (pure_eq_ok.mp hok).2,
    by rw [story, List.flatMap_nil, List.append_nil, List.append_nil]; exact h⟩

theorem read {f : Simulation α ω → Run α ω β} (hf : ∀ s, Reports (f s)) : Reports (get >>= f) :=
  fun r ports s sent h => hf s r ports s sent h

theorem ite {c : Prop} [Decidable c] {x y : Run α ω β} (hx : Reports x) (hy : Reports y) :
    Reports (if c then x else y) := by
  split
  · exact hx
  · exact hy

theorem step : Reports (step : Run α ω Unit) := by
  intro r ports s sent h
  cases hresult : advance s with
  | ok fired s' =>
      have hstep : Simulation.step s = .ok () s' := discard_eq_ok.mpr ⟨fired, hresult⟩
      obtain ⟨tried, row, hhappens, hrow, hheard⟩ := h.advance_ok hresult
      rw [hstep]
      refine ⟨[(⟨s, tried, s', fired⟩, row)], s', [], .turn hhappens (.none s'),
        List.forall_mem_singleton.mpr hrow, .well, fun _ _ hok => by cases hok; rfl, ?_⟩
      rw [List.append_nil, story, List.flatMap_singleton]
      exact hheard
  | error failure s' =>
      have hstep := step_eq_error.mpr hresult
      obtain ⟨words, hwords, hheard⟩ := h.advance_error hresult
      rw [hstep]
      exact ⟨[], s, words, .none s, fun _ hmem => (by cases hmem), .turn hresult hwords,
        fun _ _ hok => (by cases hok), by simpa [story, Result.state] using hheard⟩

theorem pace : Reports (pace : Run α ω Unit) := by
  intro r ports s sent h
  have hheard := h.silent .pace
  cases hresult : Simulation.pace s with
  | ok _ s' =>
      rw [hresult] at hheard
      exact ⟨[], s', [], .paced hresult (.none s'), fun _ hmem => (by cases hmem), .well,
        fun _ _ hok => by cases hok; rfl, by simpa [story, Result.state] using hheard⟩
  | error failure s' =>
      rw [hresult] at hheard
      exact ⟨[], s, [], .none s, fun _ hmem => (by cases hmem), .undecided (.inr hresult),
        fun _ _ hok => (by cases hok), by simpa [story, Result.state] using hheard⟩

theorem isFinished : Reports (get >>= fun s => liftM s.isFinished : Run α ω Bool) := by
  intro r ports s sent h
  cases hresult : s.isFinished with
  | ok ended =>
      have hread : (get >>= fun s => liftM s.isFinished : Run α ω Bool) s = .ok ended s :=
        lift_eq_ok.mpr ⟨hresult, rfl⟩
      rw [hread]
      exact pure ended r ports s sent h
  | error failure =>
      have hread : (get >>= fun s => liftM s.isFinished : Run α ω Bool) s = .error failure s :=
        lift_of_error hresult
      rw [hread]
      have hundecided : s.isFinished = .error failure ∨ Simulation.pace s = .error failure s :=
        .inl hresult
      exact ⟨[], s, [], .none s, fun _ hmem => (by cases hmem), .undecided hundecided,
        fun _ _ hok => (by cases hok), by simpa [story, Result.state] using h⟩

theorem pacedStep : Reports (pacedStep : Run α ω Unit) := .bind .step fun _ => .pace

theorem continueRun (turns : Nat) : Reports (continueRun turns : Run α ω Bool) := by
  induction turns with
  | zero => exact isFinished
  | succ turns ih =>
      have hcheck : (Simulation.continueRun (turns + 1) : Run α ω Bool) =
          (get >>= fun s => liftM s.isFinished) >>= fun ended =>
            if ended then Pure.pure true
            else Simulation.pacedStep >>= fun _ => Simulation.continueRun turns := by
        rw [bind_assoc]
        rfl
      rw [hcheck]
      exact .bind isFinished fun ended => .ite (.pure true) (.bind .pacedStep fun _ => ih)

theorem takeSteps (steps : Nat) : Reports (takeSteps steps : Run α ω Unit) := by
  induction steps with
  | zero => exact .pure ()
  | succ steps ih => exact .read fun s => .ite (.pure ()) (.bind .step fun _ => ih)

end Reports

/-! ### Beginnings and ends -/

omit [Scalar α] in
/-- Nobody is told of anything before the tracers start. -/
theorem Silent.tracers {x : Run α ω β} {a : β} (hx : Silent x) (hok : x s = .ok a s') :
    s'.tracers = s.tracers := by
  have hsame := congrArg Audience.tracers (hx s)
  rwa [hok] at hsame

omit [Scalar α] in
theorem tracers_of_reset (h : reset s = .ok () s') : s'.tracers = s.tracers := by
  obtain ⟨_, s₁, hrestore, h⟩ := bind_eq_ok.mp h
  obtain ⟨_, s₂, hclear, h⟩ := bind_eq_ok.mp h
  have hsilent : Silent (restoreStart : Run α ω Unit) := by
    refine .read fun s => ?_
    cases s.firstStart with
    | none => exact .pure _
    | some start => exact .bind (.modify fun _ => rfl) fun _ => Silent.edit _
  rw [modify_eq_ok.mp h]
  exact ((Silent.edit _).tracers hclear).trans (hsilent.tracers hrestore)

theorem ensureClock_silent (step : α) : Silent (ensureClock step : Run α ω BlockId) := by
  refine .bind Silent.model fun d => ?_
  split
  · exact .pure _
  · exact .bind (.lift _) fun _ => Silent.edit _
  · exact .throw _

/-- A beginning starts the tracers and names the signals that the model has then. -/
theorem begin_tells (h : begin s = .ok () s') : ∃ startTime : α,
    s'.signalPorts = s'.diagram.signalPorts ∧ s'.started = true ∧ s'.tracers = s.tracers.start.told
      (.started (s'.diagram.signalPorts.map s'.diagram.portPath) startTime) := by
  obtain ⟨_, s₀, hreset, h⟩ := bind_eq_ok.mp h
  obtain ⟨_, clock, s₁, startTime, s₂, s₃, s₄, hensure, _, hstart, htracers, hpacer, rfl⟩ :=
    prepare_eq_ok.mp h
  obtain ⟨_, _, _, rfl⟩ := startClock_eq_ok.mp hstart
  cases (startTracers_apply _ _).symm.trans htracers
  cases (startPacer_apply _ _).symm.trans hpacer
  refine ⟨startTime, rfl, rfl, ?_⟩
  rw [← tracers_of_reset hreset, ← (ensureClock_silent _).tracers hensure]
  rfl

/-- A tracer that waits is served by a run that begins. -/
theorem Heard.begun (hwaits : s.tracers.Waits r) (hidle : s.tracers.isRunning = false)
    (h : begin s = .ok () s') : ∃ startTime : α, Heard r s'.diagram.signalPorts s'
      [.started (s'.diagram.signalPorts.map s'.diagram.portPath) startTime] := by
  obtain ⟨startTime, hports, hstarted, htracers⟩ := begin_tells h
  have hattends := hwaits.start hidle
  obtain ⟨w, hw, _⟩ := hattends.worker
  refine ⟨startTime, ?_, hports, hstarted⟩
  rw [htracers, Dispatcher.told, if_pos (Dispatcher.isRunning_eq hw)]
  exact hattends.perform (.send _) fun heq => by cases heq

end Simulation

end CausalBlocks
