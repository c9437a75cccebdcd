import CausalBlocks.Proofs.Dependency.Build
import CausalBlocks.Proofs.Diagram.Samples

/-!
# What influences what

The dependencies of a diagram say exactly what its nodes need, and exist if everything
needed has a driver among the nodes. Without cycles a schedule is the nodes in some order,
each after everything that it needs.
-/

namespace CausalBlocks

variable {α β : Type}

namespace DependencyGraph

variable {g g' g'' : DependencyGraph} {dependent influencer u v : Node} {R R' : Node → Node → Prop}

/-! ### Adding dependencies -/

/-- A graph has the dependencies of an older one, with the same members, and more. -/
structure Adds (R : Node → Node → Prop) (g g' : DependencyGraph) : Prop where
  members : g'.members = g.members
  influencers : ∀ u v, v ∈ g'.influencersOf u ↔ v ∈ g.influencersOf u ∨ R u v

namespace Adds

theorem refl (g : DependencyGraph) : Adds (fun _ _ => False) g g :=
  ⟨rfl, fun _ _ => (or_iff_left id).symm⟩

theorem trans (h : Adds R g g') (h' : Adds R' g' g'') : Adds (fun u v => R u v ∨ R' u v) g g'' :=
  ⟨h'.members.trans h.members, fun u v => by rw [h'.influencers, h.influencers, or_assoc]⟩

theorem congr (h : Adds R g g') (hR : ∀ u v, R u v ↔ R' u v) : Adds R' g g' :=
  ⟨h.members, fun u v => by rw [h.influencers, hR]⟩

theorem foldlM {R : β → Node → Node → Prop} {xs : List β}
    {f : DependencyGraph → β → Except (Failure α) DependencyGraph}
    (hf : ∀ x ∈ xs, ∀ g g', f g x = .ok g' → Adds (R x) g g') (hok : xs.foldlM f g = .ok g') :
    Adds (fun u v => ∃ x ∈ xs, R x u v) g g' := by
  induction xs generalizing g with
  | nil =>
      cases hok
      exact (refl _).congr fun _ _ => by simp only [List.not_mem_nil, false_and, exists_false]
  | cons x rest ih =>
      rw [List.foldlM_cons] at hok
      obtain ⟨g₁, hx, hrest⟩ := Except.bind_eq_ok.mp hok
      have hfirst := hf x List.mem_cons_self g g₁ hx
      have hmore := ih (fun y hy => hf y (List.mem_cons_of_mem x hy)) hrest
      exact (hfirst.trans hmore).congr fun _ _ => by simp

end Adds

theorem setDependency_adds (h : g.setDependency (α := α) dependent influencer = .ok g') :
    Adds (fun u v => u = dependent ∧ v = influencer) g g' := by
  obtain ⟨_, _, ⟨hmem, rfl⟩ | ⟨_, hmembers, hinfluencers, _⟩⟩ := setDependency_changes h
  · refine ⟨rfl, fun u v => (or_iff_left_of_imp ?_).symm⟩
    rintro ⟨rfl, rfl⟩
    exact hmem
  · refine ⟨hmembers, fun u v => ?_⟩
    rw [hinfluencers]
    split
    next hu => simp [hu]
    next hu => simp [hu]

theorem setDependency_total (hdependent : dependent ∈ g.members) (hinfluencer : influencer ∈ g.members) :
    ∃ g', g.setDependency (α := α) dependent influencer = .ok g' ∧ g'.members = g.members := by
  have hcheck : ∀ node ∈ g.members, g.checkMember (α := α) node = .ok () := fun node hnode => by
    rw [checkMember, if_pos (hasMember_iff.mpr hnode)]
  have hok : ∃ g', g.setDependency (α := α) dependent influencer = .ok g' := by
    rw [setDependency, hcheck _ hdependent, hcheck _ hinfluencer]
    dsimp only [bind, Except.bind]
    split <;> exact ⟨_, rfl⟩
  obtain ⟨g', hok⟩ := hok
  exact ⟨g', hok, (setDependency_adds hok).members⟩

theorem addMembers_total {nodes : List Node} (hnodup : nodes.Nodup) :
    ∃ g, nodes.foldlM (addMember (α := α)) empty = .ok g := by
  let invariant (rest : List Node) (g : DependencyGraph) : Prop := g.members ++ rest = nodes
  have hstep : ∀ node rest g, invariant (node :: rest) g →
      ∃ g', g.addMember (α := α) node = .ok g' ∧ invariant rest g' := by
    intro node rest g hg
    have hnew : node ∉ g.members := by
      rw [← hg, List.nodup_append'] at hnodup
      exact fun hmem => hnodup.2.2 hmem List.mem_cons_self
    have hok : g.addMember (α := α) node = .ok ⟨g.entries ++ [⟨node, [], []⟩]⟩ := by
      rw [addMember, if_neg fun hhas => hnew (hasMember_iff.mp hhas)]
    refine ⟨_, hok, ?_⟩
    calc _ = g.members ++ [node] ++ rest := congrArg (· ++ rest) (addMember_changes hok).2.members
      _ = g.members ++ node :: rest := List.append_assoc _ _ _
      _ = nodes := hg
  have hstart : invariant nodes empty := rfl
  obtain ⟨g, hok, _⟩ := Except.foldlM_total hstep hstart
  exact ⟨g, hok⟩

end DependencyGraph

/-! ### The dependencies of a diagram -/

namespace Diagram

variable {d d' : Diagram α} {g : DependencyGraph} {iteration : Nat} {id : BlockId} {b : Block α}
  {u v : Node}

/-- What a node needs at an iteration. -/
inductive Influences (d : Diagram α) (iteration : Nat) : Node → Node → Prop
  | input {id : BlockId} {b : Block α} {index : Nat} {driver : PortId} (hid : id ∈ d.primitives)
      (hb : d.block? id = some b) (hneeded : index ∈ b.operator.neededInputs iteration)
      (hdriver : d.driverOf (.input id index) = .ok driver) :
      Influences d iteration (.block id) (d.nodeOf driver)
  | output {output source : PortId} (houtput : output ∈ d.portIds d.root .output)
      (hsource : d.prevClosure output = .ok source) (hne : source ≠ output) :
      Influences d iteration (.port output) (d.nodeOf source)

/-- Everything that is needed at an iteration is a node of the diagram. -/
structure Resolved (d : Diagram α) (iteration : Nat) : Prop where
  inputs : ∀ id ∈ d.primitives, ∃ b, d.block? id = some b ∧
    ∀ index ∈ b.operator.neededInputs iteration,
      ∃ driver, d.driverOf (.input id index) = .ok driver ∧ d.nodeOf driver ∈ d.nodes
  outputs : ∀ output ∈ d.portIds d.root .output,
    ∃ source, d.prevClosure output = .ok source ∧ (source = output ∨ d.nodeOf source ∈ d.nodes)

/-- The dependency of a block on what drives one of its inputs, put into a graph. -/
def addInput (d : Diagram α) (id : BlockId) (g : DependencyGraph) (input : PortId) :
    Except (Failure α) DependencyGraph := do
  g.setDependency (.block id) (d.nodeOf (← d.driverOf input))

/-- The dependencies of a block, put into a graph. -/
def addInputs (d : Diagram α) (iteration : Nat) (g : DependencyGraph) (id : BlockId) :
    Except (Failure α) DependencyGraph := do
  (← d.neededInputs id iteration).foldlM (d.addInput id) g

/-- The dependency of an output of the model, put into a graph. -/
def addOutput (d : Diagram α) (g : DependencyGraph) (output : PortId) :
    Except (Failure α) DependencyGraph := do
  let source ← d.prevClosure output
  if source = output then return g
  else g.setDependency (.port output) (d.nodeOf source)

theorem dependencies_eq (d : Diagram α) (iteration : Nat) : d.dependencies iteration = (do
    let g ← d.nodes.foldlM DependencyGraph.addMember .empty
    let g ← d.primitives.foldlM (d.addInputs iteration) g
    (d.portIds d.root .output).foldlM d.addOutput g) := rfl

theorem neededInputs_eq_ok {inputs : List PortId} : d.neededInputs id iteration = .ok inputs ↔
    ∃ b, d.block? id = some b ∧ (b.operator.neededInputs iteration).map (PortId.input id) = inputs := by
  simp only [neededInputs, Except.bind_eq_ok, block_eq_ok]
  refine exists_congr fun b => and_congr_right fun _ => ?_
  exact ⟨fun h => by cases h; rfl, fun h => by rw [h]; rfl⟩

theorem addInputs_adds {g g' : DependencyGraph} (hid : id ∈ d.primitives)
    (hok : d.addInputs iteration g id = .ok g') :
    DependencyGraph.Adds (fun u v => u = .block id ∧ d.Influences iteration u v) g g' := by
  obtain ⟨inputs, hinputs, hok⟩ := Except.bind_eq_ok.mp hok
  obtain ⟨b, hb, rfl⟩ := neededInputs_eq_ok.mp hinputs
  refine (DependencyGraph.Adds.foldlM (R := fun input u v => u = .block id ∧
    ∃ driver, d.driverOf input = .ok driver ∧ v = d.nodeOf driver) ?_ hok).congr fun u v => ?_
  · intro input _ g g' hstep
    obtain ⟨driver, hdriver, hset⟩ := Except.bind_eq_ok.mp hstep
    refine (DependencyGraph.setDependency_adds hset).congr fun u v => and_congr_right fun _ => ?_
    rw [hdriver]
    simp
  · simp only [List.mem_map]
    constructor
    · rintro ⟨_, ⟨index, hneeded, rfl⟩, rfl, driver, hdriver, rfl⟩
      exact ⟨rfl, .input hid hb hneeded hdriver⟩
    · rintro ⟨rfl, h⟩
      cases h with
      | input _ hb' hneeded hdriver =>
          cases hb.symm.trans hb'
          exact ⟨_, ⟨_, hneeded, rfl⟩, rfl, _, hdriver, rfl⟩

theorem addOutput_adds (iteration : Nat) {g g' : DependencyGraph} {output : PortId}
    (houtput : output ∈ d.portIds d.root .output) (hok : d.addOutput g output = .ok g') :
    DependencyGraph.Adds (fun u v => u = .port output ∧ d.Influences iteration u v) g g' := by
  obtain ⟨source, hsource, hok⟩ := Except.bind_eq_ok.mp hok
  have hiff : ∀ u v, u = .port output ∧ d.Influences iteration u v ↔
      u = .port output ∧ source ≠ output ∧ v = d.nodeOf source := by
    refine fun u v => and_congr_right ?_
    rintro rfl
    constructor
    · intro h
      cases h with
      | output _ hsource' hne =>
          cases hsource.symm.trans hsource'
          exact ⟨hne, rfl⟩
    · rintro ⟨hne, rfl⟩
      exact .output houtput hsource hne
  split at hok
  next hself =>
    cases hok
    exact (DependencyGraph.Adds.refl g).congr fun u v => by rw [hiff]; simp [hself]
  next hne =>
    exact (DependencyGraph.setDependency_adds hok).congr fun u v => by rw [hiff]; simp [hne]

/-- The dependencies say what influences what. -/
theorem mem_influencersOf_iff (h : d.dependencies iteration = .ok g) :
    v ∈ g.influencersOf u ↔ d.Influences iteration u v := by
  simp only [dependencies_eq, Except.bind_eq_ok] at h
  obtain ⟨g₀, h₀, g₁, h₁, h₂⟩ := h
  have hnone := (DependencyGraph.members_of_addMembers h₀).2.2
  have hinputs := DependencyGraph.Adds.foldlM (fun id hid _ _ hok => addInputs_adds hid hok) h₁
  have houtputs := DependencyGraph.Adds.foldlM
    (fun output houtput _ _ hok => addOutput_adds iteration houtput hok) h₂
  rw [(hinputs.trans houtputs).influencers, hnone]
  constructor
  · rintro (hmem | ⟨_, _, _, h⟩ | ⟨_, _, _, h⟩)
    · cases hmem
    · exact h
    · exact h
  · intro h
    refine .inr ?_
    cases h with
    | input hid hb hneeded hdriver => exact .inl ⟨_, hid, rfl, .input hid hb hneeded hdriver⟩
    | output houtput hsource hne => exact .inr ⟨_, houtput, rfl, .output houtput hsource hne⟩

/-! ### When there are dependencies -/

theorem addInputs_resolves {g' : DependencyGraph} (hmembers : g.members = d.nodes)
    (hok : d.addInputs iteration g id = .ok g') :
    g'.members = d.nodes ∧ ∃ b, d.block? id = some b ∧
      ∀ index ∈ b.operator.neededInputs iteration,
        ∃ driver, d.driverOf (.input id index) = .ok driver ∧ d.nodeOf driver ∈ d.nodes := by
  obtain ⟨inputs, hinputs, hok⟩ := Except.bind_eq_ok.mp hok
  obtain ⟨b, hb, rfl⟩ := neededInputs_eq_ok.mp hinputs
  have hstep : ∀ (input : PortId) (g g' : DependencyGraph), g.members = d.nodes →
      d.addInput id g input = .ok g' → g'.members = d.nodes ∧
        ∃ driver, d.driverOf input = .ok driver ∧ d.nodeOf driver ∈ d.nodes := by
    intro input g g' hmembers hset
    obtain ⟨driver, hdriver, hset⟩ := Except.bind_eq_ok.mp hset
    have hadds := DependencyGraph.setDependency_adds hset
    obtain ⟨_, hmem, _⟩ := DependencyGraph.setDependency_changes hset
    exact ⟨hadds.members.trans hmembers, driver, hdriver, hmembers ▸ hmem⟩
  have hall := Except.forall_of_foldlM hstep hmembers hok
  refine ⟨?_, b, hb, fun index hneeded => hall _ (List.mem_map_of_mem hneeded)⟩
  exact Except.foldlM_ok (P := fun _ g => g.members = d.nodes)
    (fun input _ g g' hg hset => (hstep input g g' hg hset).1) hmembers hok

theorem addOutput_resolves {g' : DependencyGraph} {output : PortId} (hmembers : g.members = d.nodes)
    (hok : d.addOutput g output = .ok g') : g'.members = d.nodes ∧
      ∃ source, d.prevClosure output = .ok source ∧ (source = output ∨ d.nodeOf source ∈ d.nodes) := by
  obtain ⟨source, hsource, hok⟩ := Except.bind_eq_ok.mp hok
  split at hok
  next hself =>
    cases hok
    exact ⟨hmembers, source, hsource, .inl hself⟩
  next =>
    have hadds := DependencyGraph.setDependency_adds hok
    obtain ⟨_, hmem, _⟩ := DependencyGraph.setDependency_changes hok
    exact ⟨hadds.members.trans hmembers, source, hsource, .inr (hmembers ▸ hmem)⟩

theorem resolved_of_dependencies (h : d.dependencies iteration = .ok g) : d.Resolved iteration := by
  simp only [dependencies_eq, Except.bind_eq_ok] at h
  obtain ⟨g₀, h₀, g₁, h₁, h₂⟩ := h
  have hmembers₀ := (DependencyGraph.members_of_addMembers h₀).2.1
  have hmembers₁ : g₁.members = d.nodes := Except.foldlM_ok (P := fun _ g => g.members = d.nodes)
    (fun _ _ _ _ hg hok => (addInputs_resolves hg hok).1) hmembers₀ h₁
  have hinputs := Except.forall_of_foldlM (P := fun g => g.members = d.nodes)
    (fun _ _ _ hg hok => addInputs_resolves hg hok) hmembers₀ h₁
  have houtputs := Except.forall_of_foldlM (P := fun g => g.members = d.nodes)
    (fun _ _ _ hg hok => addOutput_resolves hg hok) hmembers₁ h₂
  exact ⟨hinputs, houtputs⟩

theorem Resolved.addInputs_total (h : d.Resolved iteration) (hid : id ∈ d.primitives)
    (hmembers : g.members = d.nodes) :
    ∃ g', d.addInputs iteration g id = .ok g' ∧ g'.members = d.nodes := by
  obtain ⟨b, hb, hinputs⟩ := h.inputs id hid
  have hblock : .block id ∈ d.nodes := by
    simp [nodes, hid]
  let invariant (rest : List PortId) (g : DependencyGraph) : Prop := g.members = d.nodes ∧
    ∀ input ∈ rest, ∃ driver, d.driverOf input = .ok driver ∧ d.nodeOf driver ∈ d.nodes
  have hstep : ∀ input rest (g : DependencyGraph), invariant (input :: rest) g →
      ∃ g', d.addInput id g input = .ok g' ∧ invariant rest g' := by
    rintro input rest g ⟨hmembers, hdrivers⟩
    obtain ⟨⟨driver, hdriver, hnode⟩, hrest⟩ := List.forall_mem_cons.mp hdrivers
    obtain ⟨g', hset, hmembers'⟩ := DependencyGraph.setDependency_total (α := α)
      (by rw [hmembers]; exact hblock) (by rw [hmembers]; exact hnode)
    exact ⟨g', by rw [addInput, hdriver]; exact hset, hmembers'.trans hmembers, hrest⟩
  have hdrivers : ∀ input ∈ (b.operator.neededInputs iteration).map (PortId.input id),
      ∃ driver, d.driverOf input = .ok driver ∧ d.nodeOf driver ∈ d.nodes := by
    intro input hinput
    obtain ⟨index, hneeded, rfl⟩ := List.mem_map.mp hinput
    exact hinputs index hneeded
  obtain ⟨g', hok, hmembers', _⟩ := Except.foldlM_total hstep ⟨hmembers, hdrivers⟩
  exact ⟨g', by rw [addInputs, neededInputs_eq_ok.mpr ⟨b, hb, rfl⟩]; exact hok, hmembers'⟩

theorem Resolved.addOutput_total (h : d.Resolved iteration) {output : PortId}
    (houtput : output ∈ d.portIds d.root .output) (hmembers : g.members = d.nodes) :
    ∃ g', d.addOutput g output = .ok g' ∧ g'.members = d.nodes := by
  obtain ⟨source, hsource, hnode⟩ := h.outputs output houtput
  have hmem : .port output ∈ d.nodes := by simp [nodes, houtput]
  rw [addOutput, hsource]
  dsimp only [bind, Except.bind]
  split
  next => exact ⟨g, rfl, hmembers⟩
  next hne =>
    obtain ⟨g', hset, hmembers'⟩ := DependencyGraph.setDependency_total (α := α)
      (by rw [hmembers]; exact hmem) (by rw [hmembers]; exact hnode.resolve_left hne)
    exact ⟨g', hset, hmembers'.trans hmembers⟩

/-- There are dependencies if everything that is needed is a node. -/
theorem Resolved.exists_dependencies (h : d.Resolved iteration) (hnodup : d.nodes.Nodup) :
    ∃ g, d.dependencies iteration = .ok g := by
  obtain ⟨g₀, h₀⟩ := DependencyGraph.addMembers_total (α := α) hnodup
  have hmembers₀ := (DependencyGraph.members_of_addMembers h₀).2.1
  obtain ⟨g₁, h₁, hmembers₁, _⟩ := Except.foldlM_total (f := d.addInputs iteration)
    (P := fun ids g => g.members = d.nodes ∧ ids ⊆ d.primitives)
    (fun id rest g ⟨hmembers, hids⟩ => by
      obtain ⟨hid, hrest⟩ := List.cons_subset.mp hids
      obtain ⟨g', hok, hmembers'⟩ := h.addInputs_total hid hmembers
      exact ⟨g', hok, hmembers', hrest⟩) ⟨hmembers₀, List.Subset.refl _⟩
  obtain ⟨g₂, h₂, _⟩ := Except.foldlM_total (f := d.addOutput)
    (P := fun outputs g => g.members = d.nodes ∧ outputs ⊆ d.portIds d.root .output)
    (fun output rest g ⟨hmembers, houtputs⟩ => by
      obtain ⟨houtput, hrest⟩ := List.cons_subset.mp houtputs
      obtain ⟨g', hok, hmembers'⟩ := h.addOutput_total houtput hmembers
      exact ⟨g', hok, hmembers', hrest⟩) ⟨hmembers₁, List.Subset.refl _⟩
  exact ⟨g₂, by rw [dependencies_eq, h₀]; dsimp only [bind, Except.bind]; rw [h₁]; exact h₂⟩

/-! ### Which dependencies are the same -/

/-- From the second iteration on the needs stay the same. -/
theorem dependencies_succ (d : Diagram α) (iteration : Nat) :
    d.dependencies (iteration + 1) = d.dependencies 1 := by
  have hneeded : ∀ op : Operator α, op.neededInputs (iteration + 1) = op.neededInputs 1 := by
    intro op
    cases op <;> rfl
  have hinputs : d.addInputs (iteration + 1) = d.addInputs 1 := by
    funext g id
    simp only [addInputs, neededInputs, hneeded]
  rw [dependencies_eq, dependencies_eq, hinputs]

theorem dependencies_clearSignals (d : Diagram α) (iteration : Nat) :
    d.clearSignals.dependencies iteration = d.dependencies iteration := by
  have hnodeOf : d.clearSignals.nodeOf = d.nodeOf := rfl
  have hneeded : ∀ id, d.clearSignals.neededInputs id iteration = d.neededInputs id iteration := by
    intro id
    rw [neededInputs, neededInputs, block, block, block?_clearSignals]
    cases d.block? id <;> rfl
  have hinput : ∀ id, d.clearSignals.addInput id = d.addInput id := by
    intro id
    funext g input
    simp only [addInput, driverOf_clearSignals, hnodeOf]
  have hinputs : d.clearSignals.addInputs iteration = d.addInputs iteration := by
    funext g id
    simp only [addInputs, hneeded, hinput]
  have houtputs : d.clearSignals.addOutput = d.addOutput := by
    funext g output
    simp only [addOutput, prevClosure_clearSignals, hnodeOf]
  have hnodes : d.clearSignals.nodes = d.nodes := by
    rw [nodes, nodes, primitives_clearSignals, root, root, portIds_clearSignals,
      portIds_clearSignals]
  rw [dependencies_eq, dependencies_eq, hinputs, houtputs, hnodes, primitives_clearSignals, root,
    root, portIds_clearSignals]

theorem SameShape.dependencies (h : d.SameShape d') (iteration : Nat) :
    d'.dependencies iteration = d.dependencies iteration :=
  h.congr (fun d => d.dependencies iteration) fun d => dependencies_clearSignals d iteration

end Diagram

/-! ### Schedules without cycles -/

/-- The group of a node that is computed by itself. -/
def Node.group : Node → Group
  | .block id => .block id
  | .port id => .port id

namespace DependencyGraph

variable {g g' : DependencyGraph} {u v : Node}

/-- Two graphs have the same members with the same neighbours, in whatever order. -/
structure SameNeeds (g g' : DependencyGraph) : Prop where
  members : g.members.Perm g'.members
  influencers : ∀ u, (g.influencersOf u).Perm (g'.influencersOf u)
  dependents : ∀ u, (g.dependentsOf u).Perm (g'.dependentsOf u)

theorem SameNeeds.of_mem_iff (hg : g.Sound) (hg' : g'.Sound)
    (hmembers : ∀ v, v ∈ g.members ↔ v ∈ g'.members)
    (hinfluencers : ∀ u v, v ∈ g.influencersOf u ↔ v ∈ g'.influencersOf u) : SameNeeds g g' where
  members := (List.perm_ext_iff_of_nodup hg.nodup hg'.nodup).mpr hmembers
  influencers u := (List.perm_ext_iff_of_nodup (hg.influencers_nodup u)
    (hg'.influencers_nodup u)).mpr (hinfluencers u)
  dependents u := (List.perm_ext_iff_of_nodup (hg.dependents_nodup u)
    (hg'.dependents_nodup u)).mpr fun v => by rw [hg.mirror, hg'.mirror, hinfluencers]

/-- No node needs itself. -/
def Acyclic (g : DependencyGraph) : Prop := ∀ node, ¬g.Needs node node

/-- There is no cycle if the nodes have ranks and need only nodes of lower rank. -/
theorem acyclic_of_rank (rank : Node → Nat)
    (h : ∀ e ∈ g.entries, ∀ v ∈ e.influencers, rank v < rank e.node) : g.Acyclic := by
  have hedge : ∀ u v, v ∈ g.influencersOf u → rank v < rank u := by
    intro u v hv
    rw [influencersOf] at hv
    split at hv
    next e he =>
      rw [← entry?_node he]
      exact h e (List.mem_of_find?_eq_some he) v hv
    next => cases hv
  intro node hneeds
  have hdown : ∀ {u v}, g.Needs u v → rank v < rank u := by
    intro u v huv
    induction huv with
    | single hv => exact hedge _ _ hv
    | tail _ hv ih => exact Nat.lt_trans (hedge _ _ hv) ih
  exact absurd (hdown hneeds) (Nat.lt_irrefl _)

theorem Acyclic.eq_singleton (h : g.Acyclic) (hg : g.Sound) {component : List Node}
    (hcomponent : g.IsComponent component) : ∃ node, component = [node] := by
  obtain ⟨node, hnode⟩ := List.exists_mem_of_ne_nil component hcomponent.ne_nil
  exact ⟨node, hcomponent.eq_singleton hg hnode (h node)⟩

/-- Without cycles the schedule is the members in some order, each after all it needs. -/
theorem Acyclic.exists_order (h : g.Acyclic) (hg : g.Sound) :
    ∃ order : List Node, order.Perm g.members ∧ g.schedule = order.map Node.group ∧
      order.Pairwise fun earlier later => ¬g.Needs earlier later := by
  obtain ⟨hcomponents, hflatten, hpairwise⟩ := components_spec hg
  have hsingles : g.components = g.components.flatten.map fun node => [node] := by
    have hall : ∀ component ∈ g.components, ∃ node, component = [node] :=
      fun component hmem => h.eq_singleton hg (hcomponents component hmem)
    generalize g.components = components at hall
    induction components with
    | nil => rfl
    | cons component rest ih =>
        obtain ⟨⟨node, rfl⟩, hrest⟩ := List.forall_mem_cons.mp hall
        rw [List.flatten_cons, List.singleton_append, List.map_cons, ← ih hrest]
  refine ⟨g.components.flatten, hflatten, ?_, ?_⟩
  · rw [schedule, hsingles, List.map_map, ← hsingles]
    refine List.map_congr_left fun node _ => ?_
    cases node with
    | block id =>
        refine (groupOf_represents [Node.block id]).block id rfl fun hself => ?_
        exact h _ (.single hself)
    | port id => rfl
  · rw [hsingles, List.pairwise_map] at hpairwise
    refine hpairwise.imp fun hnot => ?_
    exact hnot _ List.mem_cons_self _ List.mem_cons_self

end DependencyGraph

end CausalBlocks
