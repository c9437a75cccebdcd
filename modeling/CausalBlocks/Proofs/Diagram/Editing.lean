import CausalBlocks.Diagram.Clone
import CausalBlocks.Diagram.Link
import CausalBlocks.Proofs.Diagram.FreshName
import CausalBlocks.Proofs.Diagram.Wiring

/-!
# What edits do

For each operation that adds blocks or changes links: the diagram that it leaves
when it succeeds, and that it leaves the diagram alone when it fails.
-/

namespace CausalBlocks

variable {α β γ : Type}

namespace Edit

variable {e e' : Editor α} {source target : PortId} {parent : BlockId} {name : String}

/-! ### Taking an edit apart -/

theorem diagram_eq_ok {d : Diagram α} : diagram e = .ok d e' ↔ d = e.diagram ∧ e' = e :=
  EStateM.pure_eq_ok (a := e.diagram)

/-- An edit that begins with a look at a block that is there. -/
theorem block_bind {id : BlockId} {b : Block α} {f : Diagram α → Block α → Edit α β}
    (hb : e.diagram.block? id = some b) :
    (do let d ← diagram; let b ← d.block id; f d b : Edit α β) e = f e.diagram b e := by
  have hread : diagram e = .ok e.diagram e := rfl
  rw [EStateM.bind_of_ok hread,
    EStateM.bind_of_ok (EStateM.lift_eq_ok.mpr ⟨Diagram.block_eq hb, rfl⟩)]

theorem port_bind {q : PortId} {p : Port α} {f : Diagram α → Port α → Edit α β}
    (hp : e.diagram.port? q = some p) :
    (do let d ← diagram; let p ← d.port q; f d p : Edit α β) e = f e.diagram p e := by
  have hread : diagram e = .ok e.diagram e := rfl
  rw [EStateM.bind_of_ok hread,
    EStateM.bind_of_ok (EStateM.lift_eq_ok.mpr ⟨Diagram.port_eq hp, rfl⟩)]

/-- An edit that changes nothing but the journal. -/
def Quiet (action : Edit α β) : Prop := ∀ e, (action e).state.diagram = e.diagram

/-- An edit that leaves the diagram alone when it fails on it. -/
def Atomic (d : Diagram α) (action : Edit α β) : Prop :=
  ∀ e failure e', e.diagram = d → action e = .error failure e' → e'.diagram = d

namespace Quiet

theorem pure (b : β) : Quiet (pure b : Edit α β) := fun _ => rfl

theorem throw (failure : Failure α) : Quiet (throw failure : Edit α β) := fun _ => rfl

theorem diagram : Quiet (diagram : Edit α (Diagram α)) := fun _ => rfl

theorem report (notice : Notice α) : Quiet (report notice) := fun _ => rfl

theorem lift (x : Except (Failure α) β) : Quiet (liftM x : Edit α β) := by
  cases x <;> exact fun _ => rfl

theorem bind {x : Edit α β} {f : β → Edit α γ} (hx : Quiet x) (hf : ∀ b, Quiet (f b)) :
    Quiet (x >>= f) := fun e =>
  EStateM.bind_keeps (P := fun e' => e'.diagram = e.diagram)
    (fun e₁ h => (hx e₁).trans h) (fun b e₁ h => (hf b e₁).trans h) e rfl

theorem ite {c : Prop} [Decidable c] {x y : Edit α β} (hx : Quiet x) (hy : Quiet y) :
    Quiet (if c then x else y) := by
  split
  · exact hx
  · exact hy

theorem eq_of_ok {x : Edit α β} (hx : Quiet x) {b : β} (h : x e = .ok b e') :
    e'.diagram = e.diagram := by
  have hstate := hx e
  rwa [h] at hstate

theorem atomic {x : Edit α β} (hx : Quiet x) (d : Diagram α) : Atomic d x := by
  intro e failure e' hd h
  have hstate := hx e
  rw [h] at hstate
  exact hstate.trans hd

end Quiet

namespace Atomic

variable {d : Diagram α}

theorem bind {x : Edit α β} {f : β → Edit α γ} (hx : Quiet x) (hf : ∀ b, Atomic d (f b)) :
    Atomic d (x >>= f) := by
  intro e failure e' hd h
  have hstate := hx e
  cases hresult : x e with
  | error failure₁ e₁ =>
      rw [EStateM.bind_of_error hresult] at h
      cases h
      rw [hresult] at hstate
      exact hstate.trans hd
  | ok b e₁ =>
      rw [EStateM.bind_of_ok hresult] at h
      rw [hresult] at hstate
      exact hf b e₁ failure e' (hstate.trans hd) h

theorem diagram_bind {f : Diagram α → Edit α β} (hf : Atomic d (f d)) :
    Atomic d (diagram >>= f) := by
  intro e failure e' hd h
  subst hd
  exact hf e failure e' rfl h

theorem throw_bind {failure : Failure α} {f : β → Edit α γ} :
    Atomic d ((throw failure : Edit α β) >>= f) := by
  intro e failure' e' hd h
  cases h
  exact hd

theorem lift_bind {x : Except (Failure α) β} {f : β → Edit α γ}
    (hf : ∀ b, x = .ok b → Atomic d (f b)) : Atomic d ((liftM x : Edit α β) >>= f) := by
  cases x with
  | error failure => exact throw_bind
  | ok b => exact fun e => hf b rfl e

theorem ite {c : Prop} [Decidable c] {x y : Edit α β} (hx : c → Atomic d x)
    (hy : ¬c → Atomic d y) : Atomic d (if c then x else y) := by
  split
  next hc => exact hx hc
  next hc => exact hy hc

end Atomic

/-! ### Single changes -/

theorem modifyBlock_apply (id : BlockId) (f : Block α → Block α) (e : Editor α) :
    Edit.modifyBlock id f e = match e.diagram.block id with
      | .ok _ => .ok () { e with diagram := e.diagram.modifyBlock id f }
      | .error failure => .error failure e := by
  change ((liftM (e.diagram.block id) : Edit α (Block α)) >>=
    fun _ => update fun d => d.modifyBlock id f) e = _
  cases e.diagram.block id <;> rfl

theorem modifyPort_apply (id : PortId) (f : Port α → Port α) (e : Editor α) :
    Edit.modifyPort id f e = match e.diagram.port id with
      | .ok _ => .ok () { e with diagram := e.diagram.modifyPort id f }
      | .error failure => .error failure e := by
  change ((liftM (e.diagram.port id) : Edit α (Port α)) >>=
    fun _ => update fun d => d.modifyPort id f) e = _
  cases e.diagram.port id <;> rfl

theorem modifyBlock_ok {id : BlockId} {f : Block α → Block α}
    (h : Edit.modifyBlock id f e = .ok () e') :
    (e.diagram.block? id).isSome ∧ e'.diagram = e.diagram.modifyBlock id f := by
  rw [modifyBlock_apply] at h
  split at h
  next b hb =>
    cases h
    exact ⟨by rw [Diagram.block_eq_ok.mp hb]; rfl, rfl⟩
  next => cases h

theorem modifyPort_ok {id : PortId} {f : Port α → Port α}
    (h : Edit.modifyPort id f e = .ok () e') :
    (e.diagram.port? id).isSome ∧ e'.diagram = e.diagram.modifyPort id f := by
  rw [modifyPort_apply] at h
  split at h
  next p hp =>
    cases h
    exact ⟨by rw [Diagram.port_eq_ok.mp hp]; rfl, rfl⟩
  next => cases h

theorem modifyBlock_atomic (d : Diagram α) (id : BlockId) (f : Block α → Block α) :
    Atomic d (Edit.modifyBlock id f) := by
  intro e failure e' hd h
  rw [modifyBlock_apply] at h
  split at h
  next => cases h
  next => cases h; exact hd

/-- Changing a port and then another one that exists fails before it changes
anything. -/
theorem modifyPort_two (first second : PortId) (f g : Port α → Port α)
    (hsecond : (e.diagram.port? second).isSome) :
    (do Edit.modifyPort first f; Edit.modifyPort second g) e = match e.diagram.port first with
      | .ok _ => .ok () { e with
          diagram := (e.diagram.modifyPort first f).modifyPort second g }
      | .error failure => .error failure e := by
  cases hfirst : e.diagram.port first with
  | error failure =>
      rw [EStateM.bind_of_error]
      rw [modifyPort_apply, hfirst]
  | ok p =>
      have hmodify : Edit.modifyPort first f e =
          .ok () { e with diagram := e.diagram.modifyPort first f } := by
        rw [modifyPort_apply, hfirst]
      rw [← Diagram.port?_isSome_modifyPort f, Option.isSome_iff_exists] at hsecond
      obtain ⟨q, hq⟩ := hsecond
      rw [EStateM.bind_of_ok hmodify, modifyPort_apply, Diagram.port_eq hq]

theorem modifyPort_two_atomic {d : Diagram α} {second : PortId}
    (hsecond : (d.port? second).isSome) (first : PortId) (f g : Port α → Port α) :
    Atomic d (do Edit.modifyPort first f; Edit.modifyPort second g) := by
  intro e failure e' hd h
  subst hd
  rw [modifyPort_two first second f g hsecond] at h
  split at h
  next => cases h
  next => cases h; rfl

/-! ### Links -/

theorem link_ok (h : link source target e = .ok () e') :
    (e.diagram.port? source).isSome ∧ (e.diagram.port? target).isSome ∧
      e'.diagram = e.diagram.linked source target := by
  obtain ⟨_, e₁, hfirst, hsecond⟩ := EStateM.bind_eq_ok.mp h
  obtain ⟨hsource, hfirst⟩ := modifyPort_ok hfirst
  obtain ⟨htarget, hsecond⟩ := modifyPort_ok hsecond
  rw [hfirst, Diagram.port?_isSome_modifyPort] at htarget
  exact ⟨hsource, htarget, by rw [hsecond, hfirst]; rfl⟩

theorem disconnectPorts_ok (h : disconnectPorts source target e = .ok () e') :
    (e.diagram.port? source).isSome ∧ e.diagram.incoming target = some source ∧
      e'.diagram = e.diagram.unlinked source target := by
  simp only [disconnectPorts, EStateM.bind_eq_ok, diagram_eq_ok, EStateM.lift_eq_ok, EStateM.ite_eq_ok,
    EStateM.throw_eq_ok] at h
  obtain ⟨_, _, ⟨rfl, rfl⟩, port, _, ⟨hport, rfl⟩, h⟩ := h
  rcases h with ⟨hlinked, _, e₁, hfirst, hsecond⟩ | ⟨_, _, _, hfalse, _⟩
  · obtain ⟨hsource, hfirst⟩ := modifyPort_ok hfirst
    obtain ⟨_, hsecond⟩ := modifyPort_ok hsecond
    refine ⟨hsource, ?_, by rw [hsecond, hfirst]; rfl⟩
    rw [Diagram.incoming_eq (Diagram.port_eq_ok.mp hport), hlinked]
  · exact hfalse.elim

/-- A link that is there can be taken away. -/
theorem disconnectPorts_eq (hsource : (e.diagram.port? source).isSome)
    (hlinked : e.diagram.incoming target = some source) : disconnectPorts source target e =
      .ok () { e with diagram := e.diagram.unlinked source target } := by
  obtain ⟨p, hp⟩ := Option.isSome_iff_exists.mp hsource
  obtain ⟨q, hq, hincoming⟩ := Diagram.port?_of_incoming hlinked
  have htarget : (e.diagram.port? target).isSome := by
    rw [hq]
    rfl
  have htwo := modifyPort_two source target
    (fun p => { p with outgoing := p.outgoing.filter (· ≠ target) })
    (fun p => { p with incoming := none }) htarget
  rw [Diagram.port_eq hp] at htwo
  rw [disconnectPorts, port_bind hq, if_pos hincoming]
  exact htwo

theorem disconnectPorts_atomic (d : Diagram α) (source target : PortId) :
    Atomic d (disconnectPorts source target) := by
  refine .diagram_bind (.lift_bind fun port hport => .ite (fun _ => ?_) fun _ => ?_)
  · exact modifyPort_two_atomic (by rw [Diagram.port_eq_ok.mp hport]; rfl) _ _ _
  · exact .throw_bind

end Edit

namespace Diagram

variable {d : Diagram α} {source target : PortId}

theorem sourceLevel_ok {level : Option BlockId} (h : d.sourceLevel source = .ok level) :
    levelAt d.place? .input source = level := by
  simp only [sourceLevel, Except.bind_eq_ok] at h
  obtain ⟨b, hb, h⟩ := h
  cases h
  rw [levelAt, place?_eq (block_eq_ok.mp hb), Option.bind_some]
  cases source.side <;> simp [Block.place]

theorem targetLevel_ok {level : Option BlockId} (h : d.targetLevel target = .ok level) :
    levelAt d.place? .output target = level := by
  simp only [targetLevel, Except.bind_eq_ok] at h
  obtain ⟨b, hb, h⟩ := h
  cases h
  rw [levelAt, place?_eq (block_eq_ok.mp hb), Option.bind_some]
  cases target.side <;> simp [Block.place]

theorem checkLevels_ok (h : d.checkLevels source target = .ok ()) :
    (d.port? source).isSome ∧ (d.port? target).isSome ∧ ∃ level,
      levelAt d.place? .input source = some level ∧
        levelAt d.place? .output target = some level := by
  simp only [checkLevels, Except.bind_eq_ok] at h
  obtain ⟨p, hp, q, hq, start, hstart, stop, hstop, h⟩ := h
  split at h
  next hlevels =>
    obtain ⟨hsome, rfl⟩ := hlevels
    obtain ⟨level, rfl⟩ := Option.isSome_iff_exists.mp hsome
    exact ⟨by rw [port_eq_ok.mp hp]; rfl, by rw [port_eq_ok.mp hq]; rfl, level,
      sourceLevel_ok hstart, targetLevel_ok hstop⟩
  next => cases h

end Diagram

namespace Edit

variable {e e' : Editor α} {source target : PortId} {parent : BlockId} {name : String}

theorem connectPorts_ok (h : connectPorts source target e = .ok () e') :
    (e.diagram.port? source).isSome ∧ (e.diagram.port? target).isSome ∧
      (∃ level, levelAt e.diagram.place? .input source = some level ∧
        levelAt e.diagram.place? .output target = some level) ∧
      e.diagram.incoming target = none ∧ e'.diagram = e.diagram.linked source target := by
  simp only [connectPorts, EStateM.bind_eq_ok, diagram_eq_ok, EStateM.lift_eq_ok, EStateM.ite_eq_ok,
    EStateM.throw_eq_ok] at h
  obtain ⟨_, _, ⟨rfl, rfl⟩, _, _, ⟨hlevels, rfl⟩, port, _, ⟨hport, rfl⟩, h⟩ := h
  obtain ⟨hsource, htarget, hlevel⟩ := Diagram.checkLevels_ok hlevels
  rcases h with ⟨_, _, _, hfalse, _⟩ | ⟨hfree, h⟩
  · exact hfalse.elim
  · refine ⟨hsource, htarget, hlevel, ?_, (link_ok h).2.2⟩
    rw [Diagram.incoming_eq (Diagram.port_eq_ok.mp hport)]
    simpa using hfree

theorem connectPorts_atomic (d : Diagram α) (source target : PortId) :
    Atomic d (connectPorts source target) := by
  refine .diagram_bind (.lift_bind fun _ hlevels => .lift_bind fun port _ =>
    .ite (fun _ => ?_) fun _ => ?_)
  · exact .throw_bind
  · exact modifyPort_two_atomic (Diagram.checkLevels_ok hlevels).2.1 _ _ _

theorem connect_ok {source target : String} {output input : Option String}
    (h : connect parent source target output input e = .ok () e') : ∃ start stop,
      e.diagram.sourceNamed parent source output = .ok start ∧
        e.diagram.targetNamed parent target input = .ok stop ∧
          connectPorts start stop e = .ok () e' := by
  simp only [connect, EStateM.bind_eq_ok, diagram_eq_ok, EStateM.lift_eq_ok] at h
  obtain ⟨_, _, ⟨rfl, rfl⟩, start, _, ⟨hstart, rfl⟩, stop, _, ⟨hstop, rfl⟩, h⟩ := h
  exact ⟨start, stop, hstart, hstop, h⟩

theorem connect_atomic (d : Diagram α) (parent : BlockId) (source target : String)
    (output input : Option String) : Atomic d (connect parent source target output input) :=
  .bind .diagram fun _ => .bind (.lift _) fun _ => .bind (.lift _) fun _ =>
    connectPorts_atomic d _ _

theorem disconnect_atomic (d : Diagram α) (parent : BlockId) (source target : String)
    (output input : Option String) : Atomic d (disconnect parent source target output input) :=
  .bind .diagram fun _ => .bind (.lift _) fun _ => .bind (.lift _) fun _ =>
    disconnectPorts_atomic d _ _

end Edit

/-! ### New blocks -/

namespace Diagram

/-- The diagram with blocks put at its end, the first of them as a child of a
composite. -/
def adopted (d : Diagram α) (parent : BlockId) (name : String) (blocks : List (Block α)) :
    Diagram α :=
  let id : BlockId := ⟨d.blocks.size⟩
  Diagram.modifyBlock { d with blocks := d.blocks ++ (blocks.map some).toArray } parent fun b =>
    { b with children := b.children ++ [id], childIndex := b.childIndex ++ [(name, id)] }

theorem block?_append (d : Diagram α) (blocks : List (Block α)) (id : BlockId) :
    ({ d with blocks := d.blocks ++ (blocks.map some).toArray } : Diagram α).block? id =
      if id.index < d.blocks.size then d.block? id else blocks[id.index - d.blocks.size]? := by
  simp only [block?, Array.getElem?_append]
  split
  · rfl
  · rw [List.getElem?_toArray, List.getElem?_map]
    cases blocks[id.index - d.blocks.size]? <;> rfl

end Diagram

namespace Edit

variable {e e' : Editor α} {parent id : BlockId} {name : String} {operator : Operator α}
  {inputs outputs : List String} {blocks : List (Block α)}

theorem adopt_apply (h : (e.diagram.block? parent).isSome) :
    adopt parent name blocks e =
      .ok ⟨e.diagram.blocks.size⟩ { e with diagram := e.diagram.adopted parent name blocks } := by
  obtain ⟨b, hb⟩ := Option.isSome_iff_exists.mp h
  have hparent : ({ e.diagram with blocks := e.diagram.blocks ++ (blocks.map some).toArray } :
      Diagram α).block? parent = some b := by
    rw [Diagram.block?_append, if_pos (Diagram.lt_size_of_block? hb), hb]
  have hmodify := modifyBlock_apply parent
    (fun b => { b with
      children := b.children ++ [(⟨e.diagram.blocks.size⟩ : BlockId)]
      childIndex := b.childIndex ++ [(name, (⟨e.diagram.blocks.size⟩ : BlockId))] })
    { e with diagram := { blocks := e.diagram.blocks ++ (blocks.map some).toArray } }
  rw [Diagram.block_eq hparent] at hmodify
  change ((Edit.modifyBlock parent _ : Edit α Unit) >>= fun _ => pure _)
    { e with diagram := { blocks := e.diagram.blocks ++ (blocks.map some).toArray } } = _
  rw [EStateM.bind_of_ok hmodify]
  rfl

theorem childName_quiet (parent : BlockId) (name : String) :
    Quiet (childName parent name : Edit α String) :=
  .ite (.bind .diagram fun _ => .bind (.lift _) fun _ => .bind (.report _) fun _ => .pure _)
    (.pure _)

/-- A child has the name that it is given, and never an empty one. -/
theorem childName_ok {given : String} (h : childName parent given e = .ok name e') :
    name ≠ "" ∧ (given ≠ "" → name = given) := by
  simp only [childName, EStateM.bind_eq_ok, diagram_eq_ok, EStateM.lift_eq_ok, EStateM.ite_eq_ok,
    EStateM.pure_eq_ok] at h
  rcases h with ⟨hempty, _, _, ⟨rfl, rfl⟩, generated, _, ⟨hname, rfl⟩, _, _, _, rfl, _⟩ |
    ⟨hne, rfl, _⟩
  · simp only [Diagram.uniqueName, Except.bind_eq_ok, if_true] at hname
    obtain ⟨b, _, hname⟩ := hname
    cases hname
    exact ⟨(freshName_free (fun _ _ => numeral64_injective) numeral64_ne_empty _).1,
      fun hne => absurd (String.isEmpty_iff.mp hempty) hne⟩
  · exact ⟨by simpa using hne, fun _ => rfl⟩

theorem adopt_atomic {d : Diagram α} (h : (d.block? parent).isSome) :
    Atomic d (adopt parent name blocks) := by
  intro e failure e' hd herror
  subst hd
  rw [adopt_apply h] at herror
  cases herror

theorem adopt_ok (h : (e.diagram.block? parent).isSome)
    (hadopt : adopt parent name blocks e = .ok id e') :
    e'.diagram = e.diagram.adopted parent name blocks := by
  rw [adopt_apply h] at hadopt
  cases hadopt
  rfl

/-- A composite takes a block under the name that was chosen for it, if that is free. -/
theorem insert_of_childName {composite : Block α} {name' : String} {e₁ : Editor α}
    (hparent : e.diagram.block? parent = some composite) (hcomposite : composite.isComposite = true)
    (hname : childName parent name e = .ok name' e₁) (hfree : name' ∉ composite.takenNames) :
    ∃ e', insert parent name operator inputs outputs e = .ok ⟨e.diagram.blocks.size⟩ e' ∧
      e'.diagram = e.diagram.adopted parent name'
        [.make name' operator (some parent) inputs outputs] := by
  have hquiet := (childName_quiet parent name).eq_of_ok hname
  have hlive : (e₁.diagram.block? parent).isSome := by rw [hquiet, hparent]; rfl
  rw [insert, block_bind hparent, if_pos hcomposite]
  dsimp only
  rw [EStateM.bind_of_ok hname, if_neg hfree, ← hquiet]
  split
  next => exact ⟨_, adopt_apply hlive, rfl⟩
  next => exact ⟨_, adopt_apply (e := { e₁ with journal := _ }) hlive, rfl⟩

theorem insert_ok (h : insert parent name operator inputs outputs e = .ok id e') :
    ∃ composite name', e.diagram.block? parent = some composite ∧
      composite.isComposite = true ∧ (name' ≠ "" ∧ (name ≠ "" → name' = name)) ∧
      name' ∉ composite.takenNames ∧ e'.diagram = e.diagram.adopted parent name'
        [.make name' operator (some parent) inputs outputs] := by
  simp only [insert, EStateM.bind_eq_ok, diagram_eq_ok, EStateM.lift_eq_ok, EStateM.ite_eq_ok,
    EStateM.throw_eq_ok, false_and, exists_false, and_false, or_false, false_or] at h
  obtain ⟨_, _, ⟨rfl, rfl⟩, composite, e, ⟨hparent, rfl⟩, h⟩ := h
  obtain ⟨hcomposite, name', e₁, hname, h⟩ := h
  have hquiet := (childName_quiet parent name).eq_of_ok hname
  have hlive : (e.diagram.block? parent).isSome := by rw [Diagram.block_eq_ok.mp hparent]; rfl
  refine ⟨composite, name', Diagram.block_eq_ok.mp hparent, hcomposite, childName_ok hname, ?_⟩
  have hadopt : ∃ e₂ : Editor α, e₂.diagram = e.diagram ∧ name' ∉ composite.takenNames ∧
      adopt parent name' [.make name' operator (some parent) inputs outputs] e₂ = .ok id e' := by
    rcases h with ⟨_, hfree, h⟩ | ⟨_, _, e₂, hreport, hfree, h⟩
    · exact ⟨e₁, hquiet, hfree, h⟩
    · exact ⟨e₂, ((Quiet.report _).eq_of_ok hreport).trans hquiet, hfree, h⟩
  obtain ⟨e₂, hsame, hfree, hadopt⟩ := hadopt
  rw [← hsame] at hlive ⊢
  exact ⟨hfree, adopt_ok hlive hadopt⟩

theorem insert_atomic (d : Diagram α) (parent : BlockId) (name : String) (operator : Operator α)
    (inputs outputs : List String) : Atomic d (insert parent name operator inputs outputs) := by
  refine .diagram_bind (.lift_bind fun composite hparent => .ite (fun _ => ?_) fun _ => .throw_bind)
  have hlive : (d.block? parent).isSome := by rw [Diagram.block_eq_ok.mp hparent]; rfl
  refine .bind (childName_quiet parent name) fun name' => ?_
  have hrest : Atomic d (do
      if name' ∈ composite.takenNames then
        report (.nameInUse (d.pathOf parent) name')
        throw (.duplicateBlock (d.pathOf parent) name')
      adopt parent name' [.make name' operator (some parent) inputs outputs]) :=
    .ite (fun _ => .bind (.report _) fun _ => .throw_bind) fun _ => adopt_atomic hlive
  exact .ite (fun _ => hrest) fun _ => .bind (.report _) fun _ => hrest

theorem clone_ok {source : BlockId} (h : clone source parent name e = .ok id e') :
    source ≠ ⟨0⟩ ∧ ∃ composite, e.diagram.block? parent = some composite ∧
      composite.isComposite = true ∧ name ≠ "" ∧ name ∉ composite.takenNames ∧
      e'.diagram = e.diagram.adopted parent name (e.diagram.copies source parent name) := by
  simp only [clone, EStateM.bind_eq_ok, diagram_eq_ok, EStateM.lift_eq_ok, EStateM.ite_eq_ok,
    EStateM.throw_eq_ok, false_and, exists_false, and_false, or_false, false_or] at h
  obtain ⟨_, _, ⟨rfl, rfl⟩, hroot, composite, e, ⟨hparent, rfl⟩, hcomposite, hname, h⟩ := h
  have hlive : (e.diagram.block? parent).isSome := by rw [Diagram.block_eq_ok.mp hparent]; rfl
  rw [not_or] at hname
  exact ⟨hroot, composite, Diagram.block_eq_ok.mp hparent, hcomposite, by simpa using hname.1,
    hname.2, adopt_ok hlive h⟩

theorem clone_atomic (d : Diagram α) (source parent : BlockId) (name : String) :
    Atomic d (clone source parent name) := by
  refine .diagram_bind (.ite (fun _ => .throw_bind) fun _ => .lift_bind fun composite hparent =>
    .ite (fun _ => ?_) fun _ => .throw_bind)
  have hlive : (d.block? parent).isSome := by rw [Diagram.block_eq_ok.mp hparent]; rfl
  exact .ite (fun _ => .bind (.report _) fun _ => .throw_bind) fun _ => adopt_atomic hlive

end Edit

end CausalBlocks
