import CausalBlocks.Dependency.Build
import CausalBlocks.Diagram.Parameter
import CausalBlocks.Proofs.Diagram.View
import CausalBlocks.Proofs.Outcome

/-!
# A diagram and its samples

What a diagram says about blocks and links does not depend on its samples: it is
the same for the diagram without them. A diagram to which samples are added
answers every question about samples as before.
-/

namespace CausalBlocks

variable {α : Type}

/-- A port without samples. -/
def Port.bare (p : Port α) : Port α := { p with history := #[] }

/-- A block without samples. -/
def Block.bare (b : Block α) : Block α :=
  { b with inputs := b.inputs.map Port.bare, outputs := b.outputs.map Port.bare }

theorem Block.ports_bare (b : Block α) (side : Side) :
    b.bare.ports side = (b.ports side).map Port.bare := by
  cases side <;> rfl

theorem Port.eq_of_bare {p q : Port α} (h : p.bare = q.bare) (hhistory : p.history = q.history) :
    p = q := by
  cases p
  cases q
  cases hhistory
  simpa only [bare, mk.injEq, and_true] using h

theorem Block.eq_of_bare {b c : Block α} (h : b.bare = c.bare)
    (hports : ∀ side, b.ports side = c.ports side) : b = c := by
  have hinputs : b.inputs = c.inputs := hports .input
  have houtputs : b.outputs = c.outputs := hports .output
  cases b
  cases c
  cases hinputs
  cases houtputs
  simpa only [bare, mk.injEq, true_and] using h

namespace Diagram

variable {d d' : Diagram α} {p q : PortId} {id : BlockId}

/-! ### What does not depend on samples -/

theorem size_clearSignals (d : Diagram α) : d.clearSignals.blocks.size = d.blocks.size := by
  rw [clearSignals, mapPorts, Array.size_map]

theorem block?_clearSignals (d : Diagram α) (id : BlockId) :
    d.clearSignals.block? id = (d.block? id).map Block.bare := block?_mapPorts _

theorem port?_clearSignals (d : Diagram α) (p : PortId) :
    d.clearSignals.port? p = (d.port? p).map Port.bare := port?_mapPorts _

theorem name_clearSignals (d : Diagram α) : d.clearSignals.name = d.name := by
  rw [name, name, root, root, block?_clearSignals]
  cases d.block? ⟨0⟩ <;> rfl

theorem isComposite_clearSignals (d : Diagram α) (id : BlockId) :
    d.clearSignals.isComposite id = d.isComposite id := by
  rw [isComposite, isComposite, block?_clearSignals]
  cases d.block? id <;> rfl

theorem portIds_clearSignals (d : Diagram α) (id : BlockId) (side : Side) :
    d.clearSignals.portIds id side = d.portIds id side := by
  rw [portIds, portIds, block?_clearSignals]
  cases d.block? id with
  | none => rfl
  | some b => simp [Block.ports_bare]

theorem namesAbove_clearSignals (d : Diagram α) (depth : Nat) (id : BlockId) :
    d.clearSignals.namesAbove depth id = d.namesAbove depth id := by
  induction depth generalizing id with
  | zero => rfl
  | succ depth ih =>
      simp only [namesAbove, block?_clearSignals, ih]
      cases d.block? id <;> rfl

theorem pathOf_clearSignals (d : Diagram α) (id : BlockId) :
    d.clearSignals.pathOf id = d.pathOf id := by
  rw [pathOf, pathOf, name_clearSignals, namesAbove_clearSignals, size_clearSignals]
  rfl

theorem portPath_clearSignals (d : Diagram α) (p : PortId) :
    d.clearSignals.portPath p = d.portPath p := by
  rw [portPath, portPath, pathOf_clearSignals, port?_clearSignals]
  cases d.port? p <;> rfl

theorem below_clearSignals (d : Diagram α) (depth : Nat) (id : BlockId) :
    d.clearSignals.below depth id = d.below depth id := by
  induction depth generalizing id with
  | zero => rfl
  | succ depth ih =>
      have hbelow : d.clearSignals.below depth = d.below depth := funext ih
      simp only [below, block?_clearSignals, hbelow]
      cases d.block? id <;> rfl

theorem primitives_clearSignals (d : Diagram α) : d.clearSignals.primitives = d.primitives := by
  rw [primitives, primitives, descendants, descendants, size_clearSignals, below_clearSignals]
  refine List.filter_congr fun id _ => ?_
  rw [isComposite_clearSignals]

theorem clock_clearSignals (d : Diagram α) : d.clearSignals.clock = d.clock := by
  rw [clock, clock, primitives_clearSignals, name_clearSignals]
  congr 1
  refine List.filter_congr fun id _ => ?_
  rw [block?_clearSignals]
  cases d.block? id <;> rfl

theorem port_clearSignals (d : Diagram α) (p : PortId) :
    d.clearSignals.port p = (d.port p).map Port.bare := by
  rw [port, port, block, block, block?_clearSignals, pathOf_clearSignals]
  cases d.block? p.block with
  | none => rfl
  | some b =>
      simp only [Option.map_some, bind, Except.bind, Block.ports_bare, List.getElem?_map]
      cases (b.ports p.side)[p.index]? <;> rfl

theorem isSource_clearSignals (d : Diagram α) (p : PortId) :
    d.clearSignals.isSource p = d.isSource p := by
  rw [isSource, isSource, isComposite_clearSignals]
  rfl

theorem endsAt_clearSignals (d : Diagram α) (p : PortId) :
    d.clearSignals.endsAt p = d.endsAt p := by
  rw [endsAt, endsAt]
  cases p.side with
  | input => rfl
  | output =>
      simp only [block, block?_clearSignals]
      cases d.block? p.block <;> rfl

section Walk

variable {origin current source : PortId} {seen : List PortId} {port : Port α}

theorem driverFrom_met (h : current ∈ seen) :
    d.driverFrom origin seen current = .error (.forwardingLoop (d.portPath origin)) := by
  rw [driverFrom, dif_pos h]

theorem driverFrom_failing {failure : Failure α} (h : current ∉ seen)
    (hends : d.endsAt current = .error failure) :
    d.driverFrom origin seen current = .error failure := by
  rw [driverFrom, dif_neg h, hends]

theorem driverFrom_end (h : current ∉ seen) (hends : d.endsAt current = .ok true) :
    d.driverFrom origin seen current = .ok current := by
  rw [driverFrom, dif_neg h, hends]

theorem driverFrom_missing (h : current ∉ seen) (hends : d.endsAt current = .ok false)
    (hport : d.port? current = none) :
    d.driverFrom origin seen current = (d.port current).map fun _ => current := by
  rw [driverFrom, dif_neg h, hends]
  dsimp only
  split
  next => rfl
  next p hp => cases hport.symm.trans hp

theorem driverFrom_port (h : current ∉ seen) (hends : d.endsAt current = .ok false)
    (hport : d.port? current = some port) :
    d.driverFrom origin seen current = match port.incoming with
      | none => .ok current
      | some source => d.driverFrom origin (current :: seen) source := by
  rw [driverFrom, dif_neg h, hends]
  dsimp only
  split
  next hp => cases hport.symm.trans hp
  next p hp =>
    cases hport.symm.trans hp
    rfl

end Walk

theorem driverFrom_clearSignals (d : Diagram α) (origin : PortId) (seen : List PortId)
    (current : PortId) :
    d.clearSignals.driverFrom origin seen current = d.driverFrom origin seen current := by
  have hends := endsAt_clearSignals d
  have hport := port?_clearSignals d
  induction seen, current using driverFrom.induct d with
  | case1 seen current hseen => 
      rw [driverFrom_met hseen, driverFrom_met hseen, portPath_clearSignals]
  | case2 seen current hseen failure hfailing =>
      rw [driverFrom_failing hseen hfailing, driverFrom_failing hseen (by rw [hends, hfailing])]
  | case3 seen current hseen hend =>
      rw [driverFrom_end hseen hend, driverFrom_end hseen (by rw [hends, hend])]
  | case4 seen current hseen hon hmissing =>
      rw [driverFrom_missing hseen hon hmissing, driverFrom_missing hseen (by rw [hends, hon])
        (by rw [hport, hmissing]; rfl), port_clearSignals]
      cases d.port current <;> rfl
  | case5 seen current hseen hon p hp hundriven =>
      rw [driverFrom_port hseen hon hp, driverFrom_port hseen (by rw [hends, hon])
        (by rw [hport, hp]; rfl)]
      simp only [Port.bare, hundriven]
  | case6 seen current hseen hon p hp source hdriven ih =>
      rw [driverFrom_port hseen hon hp, driverFrom_port hseen (by rw [hends, hon])
        (by rw [hport, hp]; rfl)]
      simp only [Port.bare, hdriven, ih]

theorem prevClosure_clearSignals (d : Diagram α) (p : PortId) :
    d.clearSignals.prevClosure p = d.prevClosure p := driverFrom_clearSignals d p [] p

theorem driverOf_clearSignals (d : Diagram α) (p : PortId) :
    d.clearSignals.driverOf p = d.driverOf p := by
  rw [driverOf, driverOf, prevClosure_clearSignals]
  congr 1
  funext source
  rw [isSource_clearSignals, port_clearSignals, pathOf_clearSignals]
  cases d.port p <;> rfl

theorem block_clearSignals (d : Diagram α) (id : BlockId) :
    d.clearSignals.block id = (d.block id).map Block.bare := by
  rw [block, block, block?_clearSignals]
  cases d.block? id <;> rfl

theorem validate_clearSignals (d : Diagram α) : d.clearSignals.validate = d.validate := by
  have hopen (b : Block α) : allowsOpenInputs b.bare = allowsOpenInputs b := by
    simp only [allowsOpenInputs, Block.bare, List.all_map]
    rfl
  have hinputs (b : Block α) : b.bare.inputs.length = b.inputs.length := List.length_map _
  rw [validate, validate, clock_clearSignals, primitives_clearSignals, portIds_clearSignals]
  simp only [block_clearSignals, driverOf_clearSignals, prevClosure_clearSignals]
  congr 1
  funext _
  congr 2
  funext id
  cases d.block id with
  | error failure => rfl
  | ok b =>
      change (if allowsOpenInputs b.bare then _ else _) = _
      rw [hopen, hinputs]
      rfl

/-! ### Diagrams of the same shape -/

/-- Two diagrams differ in nothing but samples. -/
def SameShape (d d' : Diagram α) : Prop := d'.clearSignals = d.clearSignals

namespace SameShape

theorem refl (d : Diagram α) : SameShape d d := rfl

theorem symm (h : SameShape d d') : SameShape d' d := Eq.symm h

theorem trans {d'' : Diagram α} (h : SameShape d d') (h' : SameShape d' d'') : SameShape d d'' :=
  Eq.trans h' h

/-- What is the same without samples is the same for both. -/
theorem congr {β : Type} (h : SameShape d d') (f : Diagram α → β)
    (hf : ∀ d, f d.clearSignals = f d) : f d' = f d := by
  rw [← hf d', h, hf d]

theorem portIds (h : SameShape d d') (id : BlockId) (side : Side) :
    d'.portIds id side = d.portIds id side :=
  h.congr (fun d => d.portIds id side) fun d => portIds_clearSignals d id side

theorem pathOf (h : SameShape d d') (id : BlockId) : d'.pathOf id = d.pathOf id :=
  h.congr (fun d => d.pathOf id) fun d => pathOf_clearSignals d id

theorem portName? (h : SameShape d d') (p : PortId) :
    (d'.port? p).map Port.name = (d.port? p).map Port.name :=
  h.congr (fun d => (d.port? p).map Port.name) fun d => by
    rw [port?_clearSignals, Option.map_map]
    rfl

theorem primitives (h : SameShape d d') : d'.primitives = d.primitives :=
  h.congr Diagram.primitives primitives_clearSignals

theorem clock (h : SameShape d d') : d'.clock = d.clock :=
  h.congr Diagram.clock clock_clearSignals

theorem block?_bare (h : SameShape d d') {b' : Block α} (hb : d'.block? id = some b') :
    ∃ b, d.block? id = some b ∧ b.bare = b'.bare := by
  have hbare : d'.clearSignals.block? id = d.clearSignals.block? id := by rw [h]
  rw [block?_clearSignals, block?_clearSignals, hb] at hbare
  exact Option.map_eq_some_iff.mp hbare.symm

theorem block? (h : SameShape d d') {b' : Block α} (hb : d'.block? id = some b') :
    ∃ b, d.block? id = some b ∧ b.operator = b'.operator ∧ b.rate = b'.rate ∧
      b.outputs.length = b'.outputs.length := by
  obtain ⟨b, hb, hbare⟩ := h.block?_bare hb
  have houtputs : b.bare.outputs.length = b'.bare.outputs.length := by rw [hbare]
  have hoperator : b.bare.operator = b'.bare.operator := by rw [hbare]
  have hrate : b.bare.rate = b'.bare.rate := by rw [hbare]
  exact ⟨b, hb, hoperator, hrate, by simpa [Block.bare] using houtputs⟩

end SameShape

theorem ext_block? (hsize : d.blocks.size = d'.blocks.size)
    (h : ∀ id, d.block? id = d'.block? id) : d = d' := by
  cases d with | mk blocks => 
  cases d' with | mk blocks' =>
  congr 1
  refine Array.ext hsize fun i hi hi' => ?_
  have hid := h ⟨i⟩
  simpa only [block?, Array.getElem?_eq_getElem hi, Array.getElem?_eq_getElem hi',
    Option.join_some] using hid

theorem Block.bare_mapPorts {b : Block α} {side : Side} {f : List (Port α) → List (Port α)}
    (hf : ∀ ports, (f ports).map Port.bare = ports.map Port.bare) :
    (b.mapPorts side f).bare = b.bare := by
  cases side <;> simp [Block.mapPorts, Block.bare, hf]

theorem sameShape_modifyPort {f : Port α → Port α} (hf : ∀ port, (f port).bare = port.bare) :
    SameShape d (d.modifyPort q f) := by
  refine ext_block? ?_ fun id => ?_
  · rw [size_clearSignals, size_clearSignals, size_modifyPort]
  · rw [block?_clearSignals, block?_clearSignals, modifyPort, block?_modifyBlock]
    split
    next =>
      cases d.block? id with
      | none => rfl
      | some b =>
          refine congrArg some (Block.bare_mapPorts fun ports => ?_)
          refine List.ext_getElem? fun i => ?_
          rw [List.getElem?_map, List.getElem?_map, List.getElem?_modify]
          cases ports[i]? with
          | none => rfl
          | some port => by_cases hi : q.index = i <;> simp [hi, hf]
    next => rfl

theorem sameShape_mapPorts {f : Port α → Port α} (hf : ∀ port, (f port).bare = port.bare) :
    SameShape d (d.mapPorts f) := by
  refine ext_block? ?_ fun id => ?_
  · rw [size_clearSignals, size_clearSignals, mapPorts, Array.size_map]
  · rw [block?_clearSignals, block?_clearSignals, block?_mapPorts]
    cases d.block? id with
    | none => rfl
    | some b => simp [Block.bare, hf]

theorem sameShape_rewind (d : Diagram α) : SameShape d d.rewind := sameShape_mapPorts fun _ => rfl

theorem sameShape_clearSignals (d : Diagram α) : SameShape d d.clearSignals :=
  sameShape_mapPorts fun _ => rfl

/-! ### Adding samples -/

/-- The samples of a port, if there is one. -/
def history? (d : Diagram α) (p : PortId) : Option (History α) := (d.port? p).map Port.history

/-- The diagram with a sample added to a port. -/
def recorded (d : Diagram α) (r : PortId × Sample α) : Diagram α :=
  d.modifyPort r.1 fun port => { port with history := port.history.push r.2 }

/-- The diagram with samples added to ports, in order. -/
def recordAll (d : Diagram α) (records : List (PortId × Sample α)) : Diagram α :=
  records.foldl recorded d

theorem sameShape_recordAll (d : Diagram α) (records : List (PortId × Sample α)) :
    SameShape d (d.recordAll records) := by
  induction records generalizing d with
  | nil => exact .refl d
  | cons r rest ih =>
      have hfirst : SameShape d (d.recorded r) := sameShape_modifyPort fun _ => rfl
      exact hfirst.trans (ih _)

theorem recordAll_append (d : Diagram α) (records more : List (PortId × Sample α)) :
    d.recordAll (records ++ more) = (d.recordAll records).recordAll more := List.foldl_append

theorem history?_recorded (r : PortId × Sample α) :
    (d.recorded r).history? p =
      if p = r.1 then (d.history? p).map fun h => h.push r.2 else d.history? p := by
  rw [history?, recorded, port?_modifyPort, history?]
  split
  · rw [Option.map_map, Option.map_map]
    rfl
  · rfl

theorem history?_recordAll_of_notMem {records : List (PortId × Sample α)}
    (h : p ∉ records.map Prod.fst) : (d.recordAll records).history? p = d.history? p := by
  induction records generalizing d with
  | nil => rfl
  | cons r rest ih =>
      rw [List.map_cons, List.mem_cons, not_or] at h
      rw [recordAll, List.foldl_cons, ← recordAll, ih h.2, history?_recorded, if_neg h.1]

/-- A port that gets one sample has it at the end. -/
theorem history?_recordAll_of_mem {records : List (PortId × Sample α)} {x : Sample α}
    (hnodup : (records.map Prod.fst).Nodup) (h : (p, x) ∈ records) :
    (d.recordAll records).history? p = (d.history? p).map fun history => history.push x := by
  induction records generalizing d with
  | nil => cases h
  | cons r rest ih =>
      rw [List.map_cons, List.nodup_cons] at hnodup
      rw [recordAll, List.foldl_cons, ← recordAll]
      rcases List.mem_cons.mp h with rfl | hrest
      · rw [history?_recordAll_of_notMem hnodup.1, history?_recorded, if_pos rfl]
      · have hne : p ≠ r.1 := by
          rintro rfl
          exact hnodup.1 (List.mem_map.mpr ⟨_, hrest, rfl⟩)
        rw [ih hnodup.2 hrest, history?_recorded, if_neg hne]

/-! ### Taking samples away -/

/-- Diagrams of the same shape with the same samples are the same. -/
theorem SameShape.eq (h : SameShape d d') (hsamples : ∀ p, d'.history? p = d.history? p) :
    d' = d := by
  refine ext_block? (h.congr (fun d => d.blocks.size) size_clearSignals) fun id => ?_
  have hbare : d'.clearSignals.block? id = d.clearSignals.block? id := by rw [h]
  rw [block?_clearSignals, block?_clearSignals] at hbare
  cases hb' : d'.block? id with
  | none =>
      rw [hb', Option.map_none, eq_comm, Option.map_eq_none_iff] at hbare
      exact hbare.symm
  | some b' =>
      obtain ⟨b, hb, hsame⟩ := h.block?_bare hb'
      rw [hb]
      refine congrArg some (Block.eq_of_bare hsame.symm fun side => List.ext_getElem? fun i => ?_)
      -- port by port: what is left without samples is the same, and so are the samples
      have hport : ((b'.ports side)[i]?).map Port.bare = ((b.ports side)[i]?).map Port.bare := by
        rw [← List.getElem?_map, ← List.getElem?_map, ← Block.ports_bare, ← Block.ports_bare, hsame]
      have hhistory := hsamples ⟨id, side, i⟩
      rw [history?, history?, port?_eq (q := ⟨id, side, i⟩) hb', port?_eq (q := ⟨id, side, i⟩) hb]
        at hhistory
      dsimp only at hhistory
      cases hp' : (b'.ports side)[i]? with
      | none =>
          rw [hp', Option.map_none, eq_comm, Option.map_eq_none_iff] at hport
          exact hport.symm
      | some p' =>
          rw [hp'] at hport hhistory
          obtain ⟨p, hp, hbare⟩ := Option.map_eq_some_iff.mp hport.symm
          rw [hp] at hhistory ⊢
          exact congrArg some (Port.eq_of_bare hbare.symm (Option.some.inj hhistory))

theorem history?_rewind (d : Diagram α) (p : PortId) :
    d.rewind.history? p = (d.history? p).map Array.pop := by
  rw [history?, rewind, port?_mapPorts, Option.map_map, history?, Option.map_map]
  rfl

/-! ### Reading samples -/

/-- A diagram in which samples were added to another one. -/
structure Extends (d d' : Diagram α) : Prop where
  shape : SameShape d d'
  keeps : ∀ p (h : History α), d.history? p = some h →
    ∃ h' : History α, d'.history? p = some h' ∧ ∀ (i : Nat) x, h[i]? = some x → h'[i]? = some x

theorem extends_recorded (d : Diagram α) (r : PortId × Sample α) : Extends d (d.recorded r) := by
  refine ⟨sameShape_modifyPort fun _ => rfl, fun p h hp => ?_⟩
  rw [history?_recorded, hp]
  split
  · refine ⟨h.push r.2, rfl, fun i x hx => ?_⟩
    obtain ⟨hi, _⟩ := Array.getElem?_eq_some_iff.mp hx
    rwa [Array.getElem?_push_lt hi, ← Array.getElem?_eq_getElem hi]
  · exact ⟨h, rfl, fun _ _ hx => hx⟩

theorem Extends.refl (d : Diagram α) : Extends d d := ⟨.refl d, fun _ h hp => ⟨h, hp, fun _ _ hx => hx⟩⟩

theorem Extends.trans {d'' : Diagram α} (h : Extends d d') (h' : Extends d' d'') :
    Extends d d'' := by
  refine ⟨h.shape.trans h'.shape, fun p history hp => ?_⟩
  obtain ⟨history', hp', hkeep⟩ := h.keeps p history hp
  obtain ⟨history'', hp'', hkeep'⟩ := h'.keeps p history' hp'
  exact ⟨history'', hp'', fun i x hx => hkeep' i x (hkeep i x hx)⟩

theorem extends_recordAll (d : Diagram α) (records : List (PortId × Sample α)) :
    Extends d (d.recordAll records) := by
  induction records generalizing d with
  | nil => exact .refl d
  | cons r rest ih => exact (extends_recorded d r).trans (ih _)

theorem inputSample_eq_ok {index iteration : Nat} {x : Sample α} :
    d.inputSample id index iteration = .ok x ↔ ∃ driver, ∃ h : History α,
      d.driverOf (.input id index) = .ok driver ∧ d.history? driver = some h ∧
        h[iteration]? = some x := by
  simp only [inputSample, Except.bind_eq_ok, port_eq_ok, history?, Option.map_eq_some_iff]
  constructor
  · rintro ⟨driver, hdriver, port, hport, hok⟩
    split at hok
    next sample hsample =>
      cases hok
      exact ⟨driver, _, hdriver, ⟨port, hport, rfl⟩, hsample⟩
    next => cases hok
  · rintro ⟨driver, _, hdriver, ⟨port, hport, rfl⟩, hx⟩
    refine ⟨driver, hdriver, port, hport, ?_⟩
    rw [hx]
    rfl

/-- What could be read can still be read. -/
theorem Extends.inputSample (h : Extends d d') {index iteration : Nat} {x : Sample α}
    (hx : d.inputSample id index iteration = .ok x) :
    d'.inputSample id index iteration = .ok x := by
  obtain ⟨driver, history, hdriver, hhistory, hx⟩ := inputSample_eq_ok.mp hx
  obtain ⟨history', hhistory', hkeep⟩ := h.keeps driver history hhistory
  refine inputSample_eq_ok.mpr ⟨driver, history', ?_, hhistory', hkeep iteration x hx⟩
  rw [← hdriver]
  exact h.shape.congr (fun d => d.driverOf _) fun d => driverOf_clearSignals d _

end Diagram

end CausalBlocks
