import CausalBlocks.Diagram.Lookup

/-!
# Following links through composites

The ports of a composite only forward. What drives a port in the end is found by
following links backward until an output of an operator or an undriven port;
what it feeds is found by following them forward. A port met twice is a loop of
forwarding ports. Each step meets a new port of the diagram, so the walks end.
-/

namespace CausalBlocks

/-- Meeting something new leaves less to be met. -/
theorem length_filter_notMem_cons_lt {β : Type} [DecidableEq β] {x : β} {all seen : List β}
    (hall : x ∈ all) (hnew : x ∉ seen) :
    (all.filter (· ∉ x :: seen)).length < (all.filter (· ∉ seen)).length := by
  induction all with
  | nil => simp at hall
  | cons y rest ih =>
    have hle : (rest.filter (· ∉ x :: seen)).length ≤ (rest.filter (· ∉ seen)).length := by
      simp only [← List.countP_eq_length_filter]
      apply List.countP_mono_left
      intro z _ hz
      simp_all
    by_cases hy : y = x
    · subst hy
      simp only [List.filter_cons, List.mem_cons, true_or, not_true_eq_false, decide_false,
        Bool.false_eq_true, if_false, hnew, not_false_eq_true, decide_true, if_true,
        List.length_cons]
      exact Nat.lt_succ_of_le (by simpa using hle)
    · have hrest : x ∈ rest := by
        rcases List.mem_cons.mp hall with h | h
        · exact absurd h.symm hy
        · exact h
      have := ih hrest
      by_cases hs : y ∈ seen <;> simp [hy, hs] at this ⊢ <;> omega

variable {α : Type}

namespace Diagram

theorem mem_allPorts {d : Diagram α} {id : PortId} {p : Port α} (h : d.port? id = some p) :
    id ∈ d.allPorts := by
  obtain ⟨block, side, index⟩ := id
  simp only [port?, Option.bind_eq_some_iff] at h
  obtain ⟨b, hb, hp⟩ := h
  have hmem : ∀ s, s = side → PortId.mk block side index ∈ d.portIds block s := by
    rintro s rfl
    simp only [portIds, hb, List.mem_map, List.mem_range]
    exact ⟨index, (List.getElem?_eq_some_iff.mp hp).1, rfl⟩
  simp only [allPorts, List.mem_flatMap, List.mem_append]
  refine ⟨block, ?_, ?_⟩
  · simp only [blockIds, List.mem_filter, List.mem_map, List.mem_range, hb, Option.isSome_some,
      and_true]
    refine ⟨block.index, ?_, rfl⟩
    simp only [block?] at hb
    by_cases hlt : block.index < d.blocks.size
    · exact hlt
    · simp [Array.getElem?_eq_none (Nat.le_of_not_lt hlt)] at hb
  · cases side with
    | input => exact .inl (hmem _ rfl)
    | output => exact .inr (hmem _ rfl)

/-- Whether the walk backward ends at a port whatever drives it: at an output of an
operator. -/
def endsAt (d : Diagram α) (port : PortId) : Except (Failure α) Bool :=
  match port.side with
  | .output => (d.block port.block).map fun b => !b.isComposite
  | .input => .ok false

/-- The end of the chain of links behind a port, where `seen` has been met. -/
def driverFrom (d : Diagram α) (origin : PortId) (seen : List PortId) (current : PortId) :
    Except (Failure α) PortId :=
  if _ : current ∈ seen then .error (.forwardingLoop (d.portPath origin))
  else
    match d.endsAt current with
    | .error failure => .error failure
    | .ok true => .ok current
    | .ok false =>
      match _hport : d.port? current with
      | none => (d.port current).map fun _ => current
      | some p =>
        match p.incoming with
        | none => .ok current
        | some source => d.driverFrom origin (current :: seen) source
termination_by (d.allPorts.filter (· ∉ seen)).length
decreasing_by exact length_filter_notMem_cons_lt (mem_allPorts ‹_›) ‹_›

/-- Links followed backward to an output of an operator or an undriven port. -/
def prevClosure (d : Diagram α) (port : PortId) : Except (Failure α) PortId :=
  d.driverFrom port [] port

/-- The inputs of operators and the ports that drive nothing ahead of the ports
of a stack, where `seen` has been met. -/
def targetsFrom (d : Diagram α) (origin : PortId) (seen : List PortId) :
    List PortId → Except (Failure α) (List PortId)
  | [] => .ok []
  | current :: stack =>
    if _ : current ∈ seen then .error (.forwardingLoop (d.portPath origin))
    else
      match _hport : d.port? current with
      | none => (d.port current).map fun _ => []
      | some p =>
        let ends := current.side = .input && !d.isComposite current.block
        if current ≠ origin ∧ (ends ∨ p.outgoing = []) then
          (d.targetsFrom origin (current :: seen) stack).map (current :: ·)
        else d.targetsFrom origin (current :: seen) (p.outgoing ++ stack)
termination_by (d.allPorts.filter (· ∉ seen)).length
decreasing_by all_goals exact length_filter_notMem_cons_lt (mem_allPorts ‹_›) ‹_›

/-- Links followed forward to the inputs of operators and the ports that drive
nothing. -/
def nextClosure (d : Diagram α) (port : PortId) : Except (Failure α) (List PortId) :=
  d.targetsFrom port [] [port]

/-- Whether signals arise at a port: at an output of an operator, or where the
model is fed. -/
def isSource (d : Diagram α) (port : PortId) : Bool :=
  match port.side with
  | .output => !d.isComposite port.block
  | .input => port.block = d.root

/-- The port whose signal arrives at an input. -/
def driverOf (d : Diagram α) (input : PortId) : Except (Failure α) PortId := do
  let source ← d.prevClosure input
  if d.isSource source then return source
  else
    let p ← d.port input
    throw (.unconnectedInput (d.pathOf input.block) p.name)

/-- The samples that a port carries, forwarded or its own. -/
def historyOf (d : Diagram α) (port : PortId) : Except (Failure α) (History α) := do
  let source ← d.prevClosure port
  return (← d.port source).history

/-- The samples of the signal with a name. -/
def signalHistory (d : Diagram α) (path : String) : Except (Failure α) (History α) := do
  d.historyOf (← d.findPort path)

/-- The sample that arrives at an input at an iteration. -/
def inputSample (d : Diagram α) (block : BlockId) (index iteration : Nat) :
    Except (Failure α) (Sample α) := do
  let driver ← d.driverOf (.input block index)
  match (← d.port driver).history[iteration]? with
  | some sample => return sample
  | none => throw (.missingSignal (d.portPath driver) iteration)

end Diagram

end CausalBlocks
