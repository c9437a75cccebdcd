import CausalBlocks.Proofs.Dependency.Influence
import CausalBlocks.Proofs.Diagram.Flattened

/-!
# Diagrams that compute alike

A run looks at a diagram through its primitives, what drives their inputs, and where its
outputs get their signals. Two diagrams that agree on these have the same nodes and the
same needs among them, whatever the order of their blocks. A flattened diagram agrees with
the one it was made of.
-/

namespace CausalBlocks

variable {α : Type}

theorem Block.SameWork.sameFace {b c : Block α} (h : b.SameWork c) : b.SameFace c where
  kind := congrArg Operator.isComposite h.operator
  inputNames := congrArg Operator.inputNames h.operator
  outputNames := congrArg Operator.outputNames h.operator
  ports := h.ports

/-- Samples are no part of the work. -/
theorem Block.SameWork.of_bare {b c b' c' : Block α} (h : b.SameWork c) (hb : b'.bare = b.bare)
    (hc : c'.bare = c.bare) : b'.SameWork c' := by
  have hname : Port.name ∘ Port.bare = Port.name (α := α) := rfl
  have hbare : ∀ x y : Block α, x.bare = y.bare → x.operator = y.operator ∧ x.rate = y.rate ∧
      ∀ side, (x.ports side).map Port.name = (y.ports side).map Port.name := by
    intro x y hxy
    have hoperator : x.bare.operator = y.bare.operator := by rw [hxy]
    have hrate : x.bare.rate = y.bare.rate := by rw [hxy]
    refine ⟨hoperator, hrate, fun side => ?_⟩
    have hports : (x.bare.ports side).map Port.name = (y.bare.ports side).map Port.name := by
      rw [hxy]
    simpa only [Block.ports_bare, List.map_map, hname] using hports
  obtain ⟨hoperator, hrate, hports⟩ := hbare b' b hb
  obtain ⟨hoperator', hrate', hports'⟩ := hbare c' c hc
  exact ⟨by rw [hoperator, hoperator', h.operator], by rw [hrate, hrate', h.rate],
    fun side => by rw [hports, hports', h.ports]⟩

namespace Diagram

variable {d d' e e' : Diagram α} {id : BlockId} {p driver last : PortId}
  {iteration : Nat} {u v : Node} {keep : List String}

/-! ### The nodes of a well-formed diagram -/

namespace WellFormed

variable (h : d.WellFormed)
include h

/-- Everything that is there is below the root. -/
theorem mem_descendants_iff : id ∈ d.descendants d.root ↔ (d.block? id).isSome := by
  refine ⟨live_of_mem_below, fun hlive => ?_⟩
  exact (h.mem_descendants_iff_inside h.live_root).mpr (h.reaches_root hlive)

theorem mem_primitives_iff :
    id ∈ d.primitives ↔ (d.block? id).isSome ∧ d.isComposite id = false := by
  rw [primitives, List.mem_filter, h.mem_descendants_iff, Bool.not_eq_true']

theorem nodup_primitives : d.primitives.Nodup := (below_nodup h.tree).filter _

theorem root_notMem_primitives : d.root ∉ d.primitives := by
  intro hmem
  have hcomposite := h.top.1
  rw [compositeAt_eq_isComposite] at hcomposite
  exact absurd (hcomposite.symm.trans (h.mem_primitives_iff.mp hmem).2) (by simp)

/-- The ports that get samples are those where signals arise. -/
theorem mem_computedPorts_iff : p ∈ d.computedPorts ↔ d.Source p := by
  simp only [computedPorts, List.mem_append, List.mem_flatMap, mem_portIds_iff,
    h.mem_primitives_iff]
  constructor
  · rintro (⟨hroot, hside, hport⟩ | ⟨_, ⟨_, hprimitive⟩, rfl, hside, hport⟩)
    · exact ⟨hport, by rw [isSource, hside]; exact decide_eq_true hroot⟩
    · exact ⟨hport, by rw [isSource, hside]; simpa using hprimitive⟩
  · rintro ⟨hport, hsource⟩
    rw [isSource] at hsource
    cases hside : p.side with
    | input =>
        rw [hside] at hsource
        exact .inl ⟨of_decide_eq_true hsource, rfl, hport⟩
    | output =>
        rw [hside] at hsource
        have hlive := isSome_block?_of_port? hport
        exact .inr ⟨p.block, ⟨hlive, by simpa using hsource⟩, rfl, rfl, hport⟩

/-- Where a signal arises, it does so when the node is computed. -/
theorem mem_nodeOutputs (hp : d.Source p) : p ∈ d.nodeOutputs (d.nodeOf p) := by
  have hmem := h.mem_computedPorts_iff.mpr hp
  rw [computedPorts, List.mem_append, List.mem_flatMap] at hmem
  rw [nodeOf]
  rcases hmem with hinput | ⟨id, hid, houtput⟩
  · obtain ⟨hroot, hside, _⟩ := mem_portIds_iff.mp hinput
    have hfed : p.block = d.root ∧ p.side = .input := ⟨hroot, hside⟩
    rw [if_pos hroot, nodeOutputs, if_pos hfed]
    exact List.mem_singleton_self p
  · obtain ⟨hblock, hside, hport⟩ := mem_portIds_iff.mp houtput
    rw [if_neg, nodeOutputs, mem_portIds_iff]
    · exact ⟨rfl, hside, hport⟩
    · rw [hblock]
      rintro rfl
      exact h.root_notMem_primitives hid

/-- Only an input that exists has a driver, and signals arise there. -/
theorem source_of_driverOf (hside : p.side = .input) (hok : d.driverOf p = .ok driver) :
    (d.port? p).isSome ∧ d.source? p = some driver ∧ d.Source driver := by
  obtain ⟨last, hlast, hok⟩ := Except.bind_eq_ok.mp hok
  have hlive : (d.port? p).isSome := by
    have hon : d.endsAt p = .ok false := by rw [endsAt, hside]
    refine Option.isSome_iff_ne_none.mpr fun hmissing => ?_
    rw [prevClosure, driverFrom_missing List.not_mem_nil hon hmissing] at hlast
    cases hport : d.port p with
    | ok port => cases hmissing.symm.trans (port_eq_ok.mp hport)
    | error failure => rw [hport] at hlast; cases hlast
  split at hok
  next hsource =>
    cases hok
    have hends := (h.prevClosure_eq_ok_iff hlive).mp hlast
    have hdriver : d.Source driver := ⟨h.live_of_ends hends hlive, hsource⟩
    exact ⟨hlive, (h.source?_eq_some_iff hlive).mpr ⟨hends, hdriver⟩, hdriver⟩
  next =>
    obtain ⟨_, _, hthrow⟩ := Except.bind_eq_ok.mp hok
    cases hthrow

theorem nodup_nodes : d.nodes.Nodup := by
  have hport : Function.Injective Node.port := fun _ _ h => Node.port.inj h
  have hblock : Function.Injective Node.block := fun _ _ h => Node.block.inj h
  rw [nodes, List.nodup_append', List.nodup_append']
  refine ⟨⟨(d.nodup_portIds _ _).map hport, h.nodup_primitives.map hblock, ?_⟩,
    (d.nodup_portIds _ _).map hport, ?_⟩
  · intro v hv hv'
    obtain ⟨p, _, rfl⟩ := List.mem_map.mp hv
    obtain ⟨id, _, hid⟩ := List.mem_map.mp hv'
    cases hid
  · intro v hv hv'
    obtain ⟨p, hp, rfl⟩ := List.mem_map.mp hv'
    rcases List.mem_append.mp hv with hv | hv
    · obtain ⟨q, hq, heq⟩ := List.mem_map.mp hv
      cases heq
      have hside := (mem_portIds_iff.mp hq).2.1
      rw [(mem_portIds_iff.mp hp).2.1] at hside
      cases hside
    · obtain ⟨id, _, hid⟩ := List.mem_map.mp hv
      cases hid

end WellFormed

/-! ### Diagrams alike -/

/-- Two diagrams have the same primitives under the same paths, with the same drivers, and
outputs with the same sources; and no port is linked only in the second one. -/
structure Alike (d e : Diagram α) : Prop where
  primitives : e.primitives.Perm d.primitives
  work : ∀ id, id = d.root ∨ id ∈ d.primitives →
    ∃ b c, d.block? id = some b ∧ e.block? id = some c ∧ b.SameWork c
  path : ∀ id ∈ d.primitives, e.pathOf id = d.pathOf id
  driver : ∀ p, p.block ∈ d.primitives → (e.port? p).isSome → e.driverOf p = d.driverOf p
  outputs : ∀ p ∈ d.portIds d.root .output,
    (∃ last, e.prevClosure p = .ok last) ∧ e.source? p = d.source? p
  loose : ∀ p, d.incoming p = none → e.incoming p = none

theorem Flattened.isComposite_eq (h : d.Flattened keep e) (hid : (e.block? id).isSome) :
    e.isComposite id = d.isComposite id := by
  obtain ⟨c, hc⟩ := Option.isSome_iff_exists.mp hid
  obtain ⟨b, hb⟩ := Option.isSome_iff_exists.mp ((h.live id).mp hid).1
  rw [isComposite, isComposite, hb, hc]
  exact congrArg Operator.isComposite (h.work id b c hb hc).operator

/-- What the names of ports decide is left as it was. -/
theorem Flattened.formal {Q : Block α → Prop} (h : d.Flattened keep e) (hQ : Block.Formal Q)
    (hd : d.AllBlocks Q) : e.AllBlocks Q := by
  intro id c hc
  obtain ⟨b, hb⟩ := Option.isSome_iff_exists.mp ((h.live id).mp (Option.isSome_of_mem hc)).1
  exact hQ.same b c (h.work id b c hb hc).sameFace (hd id b hb)

/-- Flattening leaves everything that computes. -/
theorem Flattened.alike (h : d.Flattened keep e) (hd : d.WellFormed) (he : e.WellFormed) :
    d.Alike e := by
  have hprimitives : ∀ id, id ∈ e.primitives ↔ id ∈ d.primitives := by
    intro id
    rw [he.mem_primitives_iff, hd.mem_primitives_iff]
    constructor
    · rintro ⟨hlive, hprimitive⟩
      exact ⟨((h.live id).mp hlive).1, (h.isComposite_eq hlive).symm.trans hprimitive⟩
    · rintro ⟨hlive, hprimitive⟩
      have hlive' := (h.live id).mpr ⟨hlive, .inl hprimitive⟩
      exact ⟨hlive', (h.isComposite_eq hlive').trans hprimitive⟩
  have hlive : ∀ id, id = d.root ∨ id ∈ d.primitives →
      (d.block? id).isSome ∧ (e.block? id).isSome := by
    rintro id (rfl | hid)
    · exact ⟨hd.live_root, he.live_root⟩
    · exact ⟨(hd.mem_primitives_iff.mp hid).1,
        (he.mem_primitives_iff.mp ((hprimitives id).mpr hid)).1⟩
  have hroot : ∀ id ∈ d.primitives, id ≠ d.root := by
    rintro id hid rfl
    exact hd.root_notMem_primitives hid
  have hwork : ∀ id, id = d.root ∨ id ∈ d.primitives →
      ∃ b c, d.block? id = some b ∧ e.block? id = some c ∧ b.SameWork c := by
    intro id hid
    obtain ⟨b, hb⟩ := Option.isSome_iff_exists.mp (hlive id hid).1
    obtain ⟨c, hc⟩ := Option.isSome_iff_exists.mp (hlive id hid).2
    exact ⟨b, c, hb, hc, h.work id b c hb hc⟩
  refine ⟨?_, hwork, fun id hid => h.path id (hroot id hid) (hlive id (.inr hid)).2,
    fun p hp hport => h.driver p (hroot _ hp) hport, fun p hp => ?_, h.loose⟩
  · exact (List.perm_ext_iff_of_nodup he.nodup_primitives hd.nodup_primitives).mpr hprimitives
  · obtain ⟨b, c, hb, hc, hsame⟩ := hwork d.root (.inl rfl)
    have hports : e.portIds d.root .output = d.portIds d.root .output := by
      rw [portIds_eq hb, portIds_eq hc, hsame.sameFace.length]
    have hport : (e.port? p).isSome := (mem_portIds_iff.mp (hports ▸ hp)).2.2
    exact ⟨h.closed p hport, h.source p hport⟩

namespace Alike

variable (h : d.Alike e)
include h

theorem mem_primitives : id ∈ e.primitives ↔ id ∈ d.primitives := h.primitives.mem_iff

theorem portIds (hid : id = d.root ∨ id ∈ d.primitives) (side : Side) :
    e.portIds id side = d.portIds id side := by
  obtain ⟨b, c, hb, hc, hwork⟩ := h.work id hid
  rw [portIds_eq hb, portIds_eq hc, hwork.sameFace.length]

theorem portIds_root (side : Side) : e.portIds e.root side = d.portIds d.root side :=
  h.portIds (.inl rfl) side

theorem portName? (hid : p.block = d.root ∨ p.block ∈ d.primitives) :
    (e.port? p).map Port.name = (d.port? p).map Port.name := by
  obtain ⟨b, c, hb, hc, hwork⟩ := h.work p.block hid
  have hnames := congrArg (fun names => names[p.index]?) (hwork.ports p.side)
  rwa [List.getElem?_map, List.getElem?_map, ← port?_eq hb, ← port?_eq hc] at hnames

theorem port?_isSome (hid : p.block = d.root ∨ p.block ∈ d.primitives) :
    (e.port? p).isSome = (d.port? p).isSome := by
  rw [← Option.isSome_map (f := Port.name), h.portName? hid, Option.isSome_map]

theorem mem_computedPorts : p ∈ e.computedPorts ↔ p ∈ d.computedPorts := by
  have houtputs : e.primitives.flatMap (fun id => e.portIds id .output) =
      e.primitives.flatMap fun id => d.portIds id .output :=
    List.flatMap_congr fun id hid => h.portIds (.inr (h.mem_primitives.mp hid)) .output
  simp only [computedPorts, houtputs, h.portIds_root, List.mem_append, List.mem_flatMap,
    h.mem_primitives]

theorem mem_nodes : v ∈ e.nodes ↔ v ∈ d.nodes := by
  simp only [nodes, h.portIds_root, List.mem_append, List.mem_map, h.mem_primitives]

/-- The clock is the same. -/
theorem clock (hclock : d.clock = .ok id) : e.clock = .ok id := by
  have hfilter : ∀ isClock isClock' : BlockId → Bool, (∀ x ∈ d.primitives, isClock' x = isClock x) →
      d.primitives.filter isClock = [id] → e.primitives.filter isClock' = [id] := by
    intro isClock isClock' hsame hd
    have hperm := h.primitives.filter isClock'
    rwa [List.filter_congr hsame, hd, List.perm_singleton] at hperm
  rw [Diagram.clock] at hclock ⊢
  split at hclock
  next => cases hclock
  next only honly =>
    cases hclock
    rw [hfilter _ _ (fun x hx => ?_) honly]
    obtain ⟨b, c, hb, hc, hwork⟩ := h.work x (.inr hx)
    simp only [hb, hc, hwork.operator]
  next => cases hclock

omit h in
theorem allowsOpenInputs_iff {b : Block α} (hb : d.block? id = some b) :
    allowsOpenInputs b = true ↔
      b.operator.isClock = true ∧ ∀ index, d.incoming (.input id index) = none := by
  have hport : ∀ index, d.port? (.input id index) = b.inputs[index]? := fun index => port?_eq hb
  rw [allowsOpenInputs, Bool.and_eq_true, List.all_eq_true]
  refine and_congr_right fun _ => ⟨fun hopen index => ?_, fun hopen p hp => ?_⟩
  · rw [incoming, hport]
    cases hp : b.inputs[index]? with
    | none => rfl
    | some p => exact Option.isNone_iff_eq_none.mp (hopen p (List.mem_of_getElem? hp))
  · obtain ⟨index, hindex⟩ := List.mem_iff_getElem?.mp hp
    rw [Option.isNone_iff_eq_none, ← incoming_eq ((hport index).trans hindex)]
    exact hopen index

/-- Where one can be run, so can the other. -/
theorem validate (hvalid : d.validate = .ok ()) : e.validate = .ok () := by
  simp only [Diagram.validate, Except.bind_eq_ok] at hvalid ⊢
  obtain ⟨id, hclock, _, hinputs, houtputs⟩ := hvalid
  refine ⟨id, h.clock hclock, (), Except.forM_total fun x hx => ?_,
    Except.forM_total fun p hp => ?_⟩
  · have hx := h.mem_primitives.mp hx
    obtain ⟨b, c, hb, hc, hwork⟩ := h.work x (.inr hx)
    obtain ⟨_, hb', hcheck⟩ := Except.bind_eq_ok.mp (Except.forM_eq_ok hinputs x hx)
    cases hb.symm.trans (block_eq_ok.mp hb')
    refine Except.bind_eq_ok.mpr ⟨c, block_eq hc, ?_⟩
    by_cases hopen : allowsOpenInputs b = true
    · have hopen' : allowsOpenInputs c = true := by
        rw [allowsOpenInputs_iff hb] at hopen
        rw [allowsOpenInputs_iff hc, hwork.operator]
        exact ⟨hopen.1, fun index => h.loose _ (hopen.2 index)⟩
      rw [if_pos hopen']
      rfl
    · rw [if_neg hopen] at hcheck
      have hlength : c.inputs.length = b.inputs.length := hwork.sameFace.length .input
      have hdriven : (List.range c.inputs.length).forM
          (fun index => discard <| e.driverOf (.input x index)) = .ok () := by
        refine Except.forM_total fun index hindex => ?_
        have hlt : index < c.inputs.length := List.mem_range.mp hindex
        have hport : (e.port? (.input x index)).isSome := by
          rw [port?_eq (q := .input x index) hc]
          rw [Block.ports, List.getElem?_eq_getElem hlt]
          rfl
        rw [h.driver (.input x index) hx hport]
        exact Except.forM_eq_ok hcheck index (List.mem_range.mpr (hlength ▸ hlt))
      split
      · rfl
      · exact hdriven
  · rw [h.portIds_root] at hp
    exact Except.discard_eq_ok.mpr (h.outputs p hp).1

end Alike

/-! ### The same needs -/

/-- What drives something, if it is a port of a node, is where a signal arises. -/
theorem WellFormed.source_of_drives (h : d.WellFormed) (hdrives : d.incoming driver = some p)
    (hnode : d.nodeOf p ∈ d.nodes) : d.Source p := by
  refine ⟨(h.live_of_incoming hdrives).1, ?_⟩
  rw [nodeOf] at hnode
  split at hnode
  next hroot =>
    obtain ⟨l, _, hlevel, _⟩ := h.links.level p driver hdrives
    cases hside : p.side with
    | input => rw [isSource, hside]; exact decide_eq_true hroot
    | output =>
        -- outputs of the model drive nothing
        rw [levelAt_eq, if_neg (by rw [hside]; simp), hroot, root, h.top.2] at hlevel
        cases hlevel
  next =>
    have hprimitive : d.isComposite p.block = false := by
      refine (h.mem_primitives_iff.mp ?_).2
      simpa [nodes] using hnode
    cases hside : p.side with
    | output => rw [isSource, hside, hprimitive]; rfl
    | input =>
        obtain ⟨here, hhere, hcomposite⟩ := (h.links.composite_of_incoming hdrives).1 hside
        obtain ⟨b, hb, rfl⟩ := place?_eq_some hhere
        rw [isComposite, hb] at hprimitive
        exact absurd (hprimitive.symm.trans hcomposite) (by simp)

/-- What an output of the model needs is where its signal arises. -/
theorem Resolved.source_of_output (h : d.Resolved iteration) (hd : d.WellFormed)
    (hp : p ∈ d.portIds d.root .output) :
    d.prevClosure p = .ok p ∨ ∃ source, d.source? p = some source ∧ d.Source source := by
  obtain ⟨source, hsource, hnode⟩ := h.outputs p hp
  have hlive : (d.port? p).isSome := (mem_portIds_iff.mp hp).2.2
  by_cases hself : source = p
  · exact .inl (hself ▸ hsource)
  · have hends := (hd.prevClosure_eq_ok_iff hlive).mp hsource
    obtain ⟨q, hq⟩ := hends.drives hself
    have harises := hd.source_of_drives hq (hnode.resolve_left hself)
    exact .inr ⟨source, (hd.source?_eq_some_iff hlive).mpr ⟨hends, harises⟩, harises⟩

namespace Alike

variable (h : d.Alike e) (hd : d.WellFormed) (he : e.WellFormed)
include h hd he

/-- An input of a primitive has the same driver in both. -/
theorem driverOf_eq_ok_iff {index : Nat} (hid : id ∈ d.primitives) :
    e.driverOf (.input id index) = .ok driver ↔ d.driverOf (.input id index) = .ok driver := by
  have hsame : (e.port? (.input id index)).isSome →
      e.driverOf (.input id index) = d.driverOf (.input id index) := h.driver (.input id index) hid
  constructor
  · intro hdriver
    rw [← hsame (he.source_of_driverOf rfl hdriver).1, hdriver]
  · intro hdriver
    rw [hsame, hdriver]
    rw [h.port?_isSome (.inr hid)]
    exact (hd.source_of_driverOf rfl hdriver).1

/-- An output gets its signal in both from the same source, or in neither from elsewhere. -/
theorem prevClosure_output (hresolved : d.Resolved iteration) (hp : p ∈ d.portIds d.root .output)
    (hsource : d.prevClosure p = .ok last) : e.prevClosure p = .ok last := by
  have hlive : (d.port? p).isSome := (mem_portIds_iff.mp hp).2.2
  have hlive' : (e.port? p).isSome := by
    rwa [h.port?_isSome (.inl (mem_portIds_iff.mp hp).1)]
  rw [he.prevClosure_eq_ok_iff hlive']
  rcases hresolved.source_of_output hd hp with hself | ⟨source, harises, _⟩
  · cases hself.symm.trans hsource
    exact .here (h.loose _ ((hd.prevClosure_eq_ok_iff hlive).mp hself).undriven)
  · have hends := ((hd.source?_eq_some_iff hlive).mp harises).1
    rw [← (h.outputs p hp).2, he.source?_eq_some_iff hlive'] at harises
    rw [((hd.prevClosure_eq_ok_iff hlive).mp hsource).unique hends]
    exact harises.1

theorem resolved (hresolved : d.Resolved iteration) : e.Resolved iteration where
  inputs id hid := by
    have hid := h.mem_primitives.mp hid
    obtain ⟨b, c, hb, hc, hwork⟩ := h.work id (.inr hid)
    obtain ⟨_, hb', hinputs⟩ := hresolved.inputs id hid
    cases hb.symm.trans hb'
    refine ⟨c, hc, fun index hneeded => ?_⟩
    rw [hwork.operator] at hneeded
    obtain ⟨driver, hdriver, hnode⟩ := hinputs index hneeded
    exact ⟨driver, (h.driverOf_eq_ok_iff hd he hid).mpr hdriver, h.mem_nodes.mpr hnode⟩
  outputs p hp := by
    rw [h.portIds_root] at hp
    obtain ⟨source, hsource, hnode⟩ := hresolved.outputs p hp
    exact ⟨source, h.prevClosure_output hd he hresolved hp hsource, hnode.imp_right h.mem_nodes.mpr⟩

theorem influences_iff (hresolved : d.Resolved iteration) :
    e.Influences iteration u v ↔ d.Influences iteration u v := by
  constructor
  · intro huv
    cases huv with
    | @input id c index driver hid hc hneeded hdriver =>
        have hid := h.mem_primitives.mp hid
        obtain ⟨b, c', hb, hc', hwork⟩ := h.work id (.inr hid)
        cases hc.symm.trans hc'
        rw [hwork.operator] at hneeded
        rw [h.driverOf_eq_ok_iff hd he hid] at hdriver
        exact .input hid hb hneeded hdriver
    | @output p source hp hsource hne =>
        rw [h.portIds_root] at hp
        obtain ⟨source', hsource', _⟩ := hresolved.outputs p hp
        cases hsource.symm.trans (h.prevClosure_output hd he hresolved hp hsource')
        exact .output hp hsource' hne
  · intro huv
    cases huv with
    | @input id b index driver hid hb hneeded hdriver =>
        obtain ⟨b', c, hb', hc, hwork⟩ := h.work id (.inr hid)
        cases hb.symm.trans hb'
        rw [← hwork.operator] at hneeded
        exact .input (h.mem_primitives.mpr hid) hc hneeded
          ((h.driverOf_eq_ok_iff hd he hid).mpr hdriver)
    | @output p source hp hsource hne =>
        have hp' : p ∈ e.portIds e.root .output := by rwa [h.portIds_root]
        exact .output hp' (h.prevClosure_output hd he hresolved hp hsource) hne

/-- If there are dependencies, the other diagram has the same. -/
theorem exists_dependencies {g : DependencyGraph} (hg : d.dependencies iteration = .ok g) :
    ∃ g', e.dependencies iteration = .ok g' ∧ g'.SameNeeds g := by
  have hresolved := resolved_of_dependencies hg
  obtain ⟨g', hg'⟩ := (h.resolved hd he hresolved).exists_dependencies he.nodup_nodes
  have hnodes := DependencyGraph.describesNodes_of_dependencies hg
  have hnodes' := DependencyGraph.describesNodes_of_dependencies hg'
  refine ⟨g', hg', .of_mem_iff hnodes'.sound hnodes.sound (fun v => ?_) fun u v => ?_⟩
  · rw [hnodes.members, hnodes'.members]
    exact h.mem_nodes
  · rw [mem_influencersOf_iff hg, mem_influencersOf_iff hg']
    exact h.influences_iff hd he hresolved

/-- If there are dependencies without cycles, they are so for the other diagram as well. -/
theorem dependencies {g : DependencyGraph} (hg : d.dependencies iteration = .ok g)
    (hacyclic : g.Acyclic) :
    ∃ g', e.dependencies iteration = .ok g' ∧ g'.Acyclic := by
  obtain ⟨g', hg', hsame⟩ := h.exists_dependencies hd he hg
  refine ⟨g', hg', fun node hneeds => hacyclic node ?_⟩
  exact Relation.TransGen.mono (fun u v huv => (hsame.influencers u).mem_iff.mp huv) _ _ hneeds

end Alike

/-! ### Samples play no part -/

theorem outgoing_clearSignals (d : Diagram α) : d.clearSignals.outgoing = d.outgoing :=
  outgoing_mapPorts fun _ => rfl

namespace SameShape

variable (h : d.SameShape d')
include h

theorem incoming : d'.incoming = d.incoming := h.congr Diagram.incoming incoming_clearSignals

theorem wellFormed (hd : d.WellFormed) : d'.WellFormed :=
  hd.congr (h.congr Diagram.place? place?_clearSignals) h.incoming
    (h.congr Diagram.outgoing outgoing_clearSignals)

theorem driverOf (p : PortId) : d'.driverOf p = d.driverOf p :=
  h.congr (fun d => d.driverOf p) fun d => driverOf_clearSignals d p

theorem prevClosure (p : PortId) : d'.prevClosure p = d.prevClosure p :=
  h.congr (fun d => d.prevClosure p) fun d => prevClosure_clearSignals d p

theorem source? (p : PortId) : d'.source? p = d.source? p :=
  h.congr (fun d => d.source? p) fun d => source?_clearSignals d p

theorem port?_isSome (p : PortId) : (d'.port? p).isSome = (d.port? p).isSome :=
  h.congr (fun d => (d.port? p).isSome) fun _ => port?_isSome_clearSignals

end SameShape

theorem Alike.congr (h : d.Alike e) (hd : d.SameShape d') (he : e.SameShape e') : d'.Alike e' where
  primitives := by
    rw [hd.primitives, he.primitives]
    exact h.primitives
  work id hid := by
    rw [hd.primitives] at hid
    obtain ⟨b, c, hb, hc, hwork⟩ := h.work id hid
    obtain ⟨b', hb', hbare⟩ := hd.symm.block?_bare hb
    obtain ⟨c', hc', hbare'⟩ := he.symm.block?_bare hc
    exact ⟨b', c', hb', hc', hwork.of_bare hbare hbare'⟩
  path id hid := by
    rw [hd.primitives] at hid
    rw [hd.pathOf, he.pathOf, h.path id hid]
  driver p hp hport := by
    rw [hd.primitives] at hp
    rw [he.port?_isSome] at hport
    rw [hd.driverOf, he.driverOf, h.driver p hp hport]
  outputs p hp := by
    rw [hd.portIds] at hp
    rw [he.prevClosure, hd.source?, he.source?]
    exact h.outputs p hp
  loose p hp := by
    rw [he.incoming]
    rw [hd.incoming] at hp
    exact h.loose p hp

end Diagram

end CausalBlocks
