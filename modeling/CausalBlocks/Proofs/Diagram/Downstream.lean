import CausalBlocks.Proofs.Diagram.Blueprint
import CausalBlocks.Proofs.Diagram.Frame

/-!
# Downstream of a block

What a block computes spreads along the links, through composites, and through every primitive
that has such an input, a delay included. A set of ports with all that is downstream of it is a
cone. Nothing outside a cone is driven from inside, and an algebraic loop lies inside a cone as a
whole or not at all.
-/

namespace CausalBlocks

variable {α : Type}

namespace Diagram

variable {d d' : Diagram α} {c id : BlockId} {p q driver origin : PortId} {seen : List PortId}
  {cone : PortId → Prop}

/-- A port is downstream of a block. -/
inductive Reaches (d : Diagram α) (c : BlockId) : PortId → Prop
  | start (index : Nat) : Reaches d c (.output c index)
  | link {p q : PortId} (h : d.incoming q = some p) (hp : Reaches d c p) : Reaches d c q
  | through {id : BlockId} {i : Nat} (h : d.isComposite id = false)
      (hi : Reaches d c (.input id i)) (j : Nat) : Reaches d c (.output id j)

/-- A set of ports that has the outputs of a block and everything downstream of its ports. -/
structure Cone (d : Diagram α) (c : BlockId) (cone : PortId → Prop) : Prop where
  start : ∀ index, cone (.output c index)
  link : ∀ p q, d.incoming q = some p → cone p → cone q
  through : ∀ id i, d.isComposite id = false → cone (.input id i) → ∀ j, cone (.output id j)

/-- A block is where a cone begins, or it has an input in the cone. -/
def Touched (c : BlockId) (cone : PortId → Prop) (id : BlockId) : Prop :=
  id = c ∨ ∃ i, cone (.input id i)

/-- A node is in the cone or touched by it. -/
def NodeTouched (c : BlockId) (cone : PortId → Prop) : Node → Prop
  | .block id => Touched c cone id
  | .port p => cone p

namespace Cone

variable (h : d.Cone c cone)
include h

theorem congr (hshape : d.SameShape d') : d'.Cone c cone where
  start := h.start
  link p q hpq := h.link p q (by rwa [hshape.incoming] at hpq)
  through id i hprimitive := h.through id i (by rwa [hshape.sameFrame.isComposite] at hprimitive)

/-- The outputs of a primitive that is touched are in the cone. -/
theorem output (hprimitive : d.isComposite id = false) (htouched : Touched c cone id) (j : Nat) :
    cone (.output id j) := by
  obtain rfl | ⟨i, hi⟩ := htouched
  · exact h.start j
  · exact h.through id i hprimitive hi j

theorem of_driverFrom (hok : d.driverFrom origin seen p = .ok driver) (hdriver : cone driver) :
    cone p := by
  induction seen, p using driverFrom.induct d with
  | case1 seen p hseen =>
      rw [driverFrom_met hseen] at hok
      cases hok
  | case2 seen p hseen failure hfailing =>
      rw [driverFrom_failing hseen hfailing] at hok
      cases hok
  | case3 seen p hseen hend =>
      rw [driverFrom_end hseen hend] at hok
      cases hok
      exact hdriver
  | case4 seen p hseen hon hmissing =>
      rw [driverFrom_missing hseen hon hmissing] at hok
      cases hport : d.port p with
      | ok port => cases hmissing.symm.trans (port_eq_ok.mp hport)
      | error failure =>
          rw [hport] at hok
          cases hok
  | case5 seen p hseen hon port hport hundriven =>
      rw [driverFrom_port hseen hon hport, hundriven] at hok
      cases hok
      exact hdriver
  | case6 seen p hseen hon port hport source hdriven ih =>
      rw [driverFrom_port hseen hon hport, hdriven] at hok
      exact h.link source p ((incoming_eq hport).trans hdriven) (ih hok)

/-- A port whose signal comes from inside the cone is in the cone. -/
theorem of_prevClosure (hok : d.prevClosure p = .ok driver) (hdriver : cone driver) : cone p :=
  h.of_driverFrom hok hdriver

theorem of_driverOf (hok : d.driverOf p = .ok driver) (hdriver : cone driver) : cone p := by
  obtain ⟨source, hsource, hok⟩ := Except.bind_eq_ok.mp hok
  split at hok
  next =>
    cases hok
    exact h.of_prevClosure hsource hdriver
  next =>
    obtain ⟨_, _, hthrow⟩ := Except.bind_eq_ok.mp hok
    cases hthrow

/-! ### Nodes and loops -/

variable (hd : d.WellFormed)
include hd

/-- What needs a node that is touched is touched. -/
theorem nodeTouched_of_influences {iteration : Nat} {u v : Node} (hmem : v ∈ d.nodes)
    (huv : d.Influences iteration u v) (hv : NodeTouched c cone v) : NodeTouched c cone u := by
  cases huv with
  | @input id _ index driver _ _ _ hdriver =>
      refine .inr ⟨index, h.of_driverOf hdriver ?_⟩
      obtain ⟨_, _, hlive, hsource⟩ := hd.source_of_driverOf rfl hdriver
      rw [nodeOf] at hv
      split at hv
      next => exact hv
      next hinner =>
        obtain ⟨block, side, port⟩ := driver
        cases side with
        | input => exact absurd (of_decide_eq_true hsource) hinner
        | output => exact h.output (by simpa [isSource] using hsource) hv port
  | @output p source houtput hsource hne =>
      refine h.of_prevClosure hsource ?_
      rw [nodeOf] at hv hmem
      split at hv
      next => exact hv
      next hinner =>
        rw [if_neg hinner] at hmem
        have hprimitive : source.block ∈ d.primitives := by simpa [nodes] using hmem
        have hcomposite := (hd.mem_primitives_iff.mp hprimitive).2
        obtain ⟨_, _, hlive⟩ := mem_portIds_iff.mp houtput
        obtain ⟨q, hq⟩ := ((hd.prevClosure_eq_ok_iff hlive).mp hsource).drives hne
        obtain ⟨block, side, port⟩ := source
        cases side with
        | output => exact h.output hcomposite hv port
        | input =>
            -- an input that drives something is one of a composite
            obtain ⟨here, hhere, hinside⟩ := (hd.links.composite_of_incoming hq).1 rfl
            have : compositeAt d.place? block = true := by rw [compositeAt, hhere]; exact hinside
            rw [compositeAt_eq_isComposite, hcomposite] at this
            cases this

theorem nodeTouched_of_needs {iteration : Nat} {g : DependencyGraph}
    (hg : d.dependencies iteration = .ok g) {u v : Node} (huv : g.Needs u v)
    (hv : NodeTouched c cone v) : NodeTouched c cone u := by
  have hdescribes := DependencyGraph.describesNodes_of_dependencies hg
  have hstep : ∀ {u v : Node}, v ∈ g.influencersOf u → NodeTouched c cone v →
      NodeTouched c cone u := by
    intro u v huv
    refine h.nodeTouched_of_influences hd ?_ ((mem_influencersOf_iff hg).mp huv)
    rw [← hdescribes.members]
    exact hdescribes.sound.influencers_mem u v huv
  induction huv using Relation.TransGen.head_induction_on with
  | single huv => exact hstep huv hv
  | head huw _ ih => exact hstep huw ih

/-- The blocks of an algebraic loop are all touched, or none of them is. -/
theorem cycle {iteration : Nat} {g : DependencyGraph} (hg : d.dependencies iteration = .ok g)
    {ids : List BlockId} (hcycle : .cycle ids ∈ g.schedule) :
    (∀ id ∈ ids, Touched c cone id) ∨ ∀ id ∈ ids, ¬Touched c cone id := by
  have hsound := (DependencyGraph.describesNodes_of_dependencies hg).sound
  obtain ⟨component, hcomponent, hgroup⟩ := List.mem_map.mp hcycle
  have hcomponent := (DependencyGraph.components_spec hsound).1 component hcomponent
  have hids : ∀ id ∈ ids, .block id ∈ component := by
    intro id hid
    have hblocks := DependencyGraph.groupOf_blocks (g := g) component
    rw [hgroup] at hblocks
    change ids = _ at hblocks
    rw [hblocks] at hid
    obtain ⟨node, hnode, hblock⟩ := List.mem_filterMap.mp hid
    cases node with
    | block id' =>
        cases hblock
        exact hnode
    | port p => cases hblock
  by_cases hany : ∃ id ∈ ids, Touched c cone id
  · obtain ⟨id, hid, htouched⟩ := hany
    refine .inl fun other hother => ?_
    have hmember := hcomponent.sublist.subset (hids id hid)
    rcases (hcomponent.mem_iff _ (hids other hother) _ hmember).mp (hids id hid) with heq | hneeds
    · cases heq
      exact htouched
    · exact h.nodeTouched_of_needs hd hg hneeds.1 htouched
  · exact .inr fun id hid htouched => hany ⟨id, hid, htouched⟩

end Cone

end Diagram

end CausalBlocks
