import CausalBlocks.Proofs.Diagram.Flattened
import CausalBlocks.Proofs.Failing
import CausalBlocks.Proofs.Scalar.Rational

/-!
# Flattening that stops on the way

Flattening takes composites apart from the inside out, in place. It stops where a link cannot go
around a port and where the new name of a block is taken, and what it has done by then stays. So
the diagram is as it was only if it stops before its first step: nothing is linked to the first
composite to be taken apart, and the first child of that composite cannot move up.
-/

namespace CausalBlocks

variable {α : Type}

namespace Diagram

variable {start d : Diagram α} {keep : List String} {id outer inner child : BlockId}

/-- Whether a block is a composite of a type that is not to be kept. -/
def takesApart (d : Diagram α) (keep : List String) (id : BlockId) : Bool :=
  (d.block? id).any fun b => b.isComposite && decide (b.operator.typeName ∉ keep)

/-- The first child of a block that is to be taken apart. -/
def firstChild? (d : Diagram α) (keep : List String) (id : BlockId) : Option BlockId :=
  (d.block? id).bind fun b => b.children.find? (d.takesApart keep)

/-- Below a block, the composite that is taken apart before all others, with the one around it. -/
inductive FirstApart (d : Diagram α) (keep : List String) : BlockId → BlockId → BlockId → Prop where
  | here {id inner : BlockId} : d.firstChild? keep id = some inner →
      d.firstChild? keep inner = none → FirstApart d keep id id inner
  | inside {id child outer inner : BlockId} : d.firstChild? keep id = some child →
      FirstApart d keep child outer inner → FirstApart d keep id outer inner

/-- The name that a child has after it moves up is taken there. -/
def NameTaken (d : Diagram α) (outer : BlockId) (above : String) (child : BlockId) : Prop :=
  ∃ composite moved, d.block? outer = some composite ∧ d.block? child = some moved ∧
    above ++ "." ++ moved.name ∈ composite.takenNames

/-- No step of taking a composite apart can be made: it has no links, and its first child cannot
move up. -/
structure Stuck (d : Diagram α) (outer inner : BlockId) : Prop where
  isolated : ∀ y : PortId, y.block = inner → d.Isolated y
  taken : ∃ b child, d.block? inner = some b ∧ b.children.head? = some child ∧
    d.NameTaken outer b.name child

/-- What flattening does not bring back: a port has no driver any more, or a block is gone. -/
def Lost (start d : Diagram α) : Prop :=
  (∃ y, start.incoming y ≠ none ∧ d.incoming y = none) ∨
    ∃ x, start.block? x ≠ none ∧ d.block? x = none

theorem Lost.ne (h : start.Lost d) : d ≠ start := by
  rintro rfl
  obtain ⟨_, hne, hnone⟩ | ⟨_, hne, hnone⟩ := h <;> exact hne hnone

theorem takesApart_eq {b : Block α} (h : d.block? id = some b) :
    d.takesApart keep id = true ↔ b.isComposite = true ∧ b.operator.typeName ∉ keep := by
  simp [takesApart, h]

theorem isComposite_eq_true :
    d.isComposite id = true ↔ ∃ b, d.block? id = some b ∧ b.isComposite = true := by
  rw [isComposite]
  cases d.block? id <;> simp

theorem WellFormed.live_child (h : d.WellFormed) {b : Block α} (hb : d.block? id = some b)
    (hchild : child ∈ b.children) : (d.block? child).isSome := by
  rw [← childrenAt_eq hb] at hchild
  exact block?_isSome_iff.mpr (isSome_of_parentAt (h.tree.child id child hchild).2.1)

theorem WellFormed.firstChild?_bounds (h : d.WellFormed)
    (hfirst : d.firstChild? keep id = some child) :
    child ∈ childrenAt d.place? id ∧ d.isComposite child = true ∧ id.index < child.index ∧
      child.index < d.blocks.size := by
  obtain ⟨b, hb, hfirst⟩ := Option.bind_eq_some_iff.mp hfirst
  have hchild := List.find?_some hfirst
  have hmem : child ∈ childrenAt d.place? id := by
    rw [childrenAt_eq hb]
    exact List.mem_of_find?_eq_some hfirst
  obtain ⟨inner, hinner⟩ := Option.isSome_iff_exists.mp
    (h.live_child hb (List.mem_of_find?_eq_some hfirst))
  have hcomposite := ((takesApart_eq hinner).mp hchild).1
  exact ⟨hmem, isComposite_eq_true.mpr ⟨inner, hinner, hcomposite⟩,
    (h.tree.child id child hmem).2.2.2, lt_size_of_block? hinner⟩

/-- Where something is to be taken apart, something is taken apart first. -/
theorem WellFormed.exists_firstApart (h : d.WellFormed)
    (hfirst : d.firstChild? keep id = some child) :
    ∃ outer inner, d.FirstApart keep id outer inner := by
  -- further down the places grow, and there is an end to them
  induction hroom : d.blocks.size - id.index using Nat.strongRecOn generalizing id child with
  | ind room ih =>
    obtain ⟨_, _, hlt, hsize⟩ := h.firstChild?_bounds hfirst
    cases hnext : d.firstChild? keep child with
    | none => exact ⟨id, child, .here hfirst hnext⟩
    | some next =>
        obtain ⟨outer, inner, hinside⟩ := ih (d.blocks.size - child.index) (by omega) hnext rfl
        exact ⟨outer, inner, .inside hfirst hinside⟩

end Diagram

namespace Edit

variable {e e' : Editor α} {start : Diagram α} {keep : List String} {x y port : PortId}
  {id outer inner child : BlockId}

/-! ### What does not come back -/

theorem modifyPort_undriven {f : Port α → Port α}
    (hf : y = x → ∀ p, p.incoming = none → (f p).incoming = none) :
    Keeps (fun d => d.incoming y = none) (Edit.modifyPort x f) := by
  intro e h
  rw [modifyPort_apply]
  split
  next p hp =>
    change (e.diagram.modifyPort x f).incoming y = none
    rw [Diagram.incoming_modifyPort]
    split
    next hy =>
      have hlive := Diagram.port_eq_ok.mp hp
      rw [hy, Diagram.incoming_eq hlive] at h
      rw [hlive, Option.bind_some]
      exact hf hy p h
    next => exact h
  next => exact h

theorem disconnectPorts_undriven (source target : PortId) :
    Keeps (fun d : Diagram α => d.incoming y = none) (disconnectPorts source target) := by
  refine .of_ok (fun d => disconnectPorts_atomic d source target) fun e _ e' h hok => ?_
  obtain ⟨_, _, hdiagram⟩ := disconnectPorts_ok hok
  simp only [hdiagram, Diagram.incoming_unlinked, h, ite_self]

/-- A link is made only in place of another one, so no port is driven that was not. -/
theorem relink_undriven (source port target : PortId) :
    Keeps (fun d : Diagram α => d.incoming y = none)
      (do disconnectPorts port target; link source target) := by
  intro e h
  have hcut := disconnectPorts_undriven (y := y) port target e h
  cases hresult : disconnectPorts port target e with
  | error failure e₁ =>
      rw [EStateM.bind_of_error hresult]
      rwa [hresult] at hcut
  | ok _ e₁ =>
      rw [EStateM.bind_of_ok hresult]
      rw [hresult] at hcut
      have hne : y ≠ target := by
        rintro rfl
        exact absurd ((disconnectPorts_ok hresult).2.1.symm.trans h) (by simp)
      have hlink : Keeps (fun d : Diagram α => d.incoming y = none) (link source target) :=
        .bind (modifyPort_undriven fun _ _ hp => hp) fun _ =>
          modifyPort_undriven fun hy => absurd hy hne
      exact hlink e₁ hcut

/-- A link that there is can be taken away. -/
theorem disconnectPorts_cuts {source target : PortId} (h : e.diagram.WellFormed)
    (hlinked : e.diagram.incoming target = some source) :
    (disconnectPorts source target e).state.diagram.incoming target = none := by
  obtain ⟨e₁, hcut⟩ := disconnectPorts_total (h.live_of_incoming hlinked).1 hlinked
  obtain ⟨_, _, hdiagram⟩ := disconnectPorts_ok hcut
  rw [hcut]
  simp only [EStateM.Result.state, hdiagram, Diagram.incoming_unlinked, if_true]

theorem undriven_keptByInlining (y : PortId) :
    KeptByInlining fun d : Diagram α => d.incoming y = none := by
  have hmoving : KeptByMoving fun d : Diagram α => d.incoming y = none := by
    constructor
    case moved =>
      intro d id f h hf
      rwa [Diagram.incoming_congr (Diagram.port?_modifyBlock_same fun b side => ?_)]
      rw [hf b]
      cases side <;> rfl
    case erased =>
      intro d id h
      rw [Diagram.incoming, Diagram.port?, block?_erased]
      split
      · rfl
      · exact h
  refine ⟨fun port => ?_, hmoving.reparent, hmoving.remove⟩
  refine .bind (.of_quiet .diagram) fun d => .bind (.of_quiet (.lift _)) fun p => ?_
  cases p.incoming with
  | none =>
      exact .forM (fun target => .bind (disconnectPorts_undriven port target) fun _ =>
        .of_quiet (.pure _)) _
  | some source =>
      exact .bind (disconnectPorts_undriven source port) fun _ =>
        .forM (fun target => relink_undriven source port target) _

theorem gone_keptByFlattening (x : BlockId) :
    KeptByFlattening fun d : Diagram α => d.block? x = none := by
  have hmodify : ∀ (d : Diagram α) id f, d.block? x = none →
      (d.modifyBlock id f).block? x = none := by
    intro d id f h
    rw [Diagram.block?_modifyBlock, h]
    split <;> rfl
  refine ⟨fun d id f h _ => hmodify d _ _ h, fun d id f h _ => hmodify d id f h, fun d id h => ?_⟩
  rw [block?_erased, h, ite_self]

theorem lost_keptByInlining (start : Diagram α) : KeptByInlining start.Lost := by
  -- what either part of the loss survives, the loss survives
  have hkeeps : ∀ {action : Edit α Unit},
      (∀ y, Keeps (fun d => d.incoming y = none) action) →
        (∀ x, Keeps (fun d => d.block? x = none) action) → Keeps start.Lost action := by
    intro action hundriven hgone e h
    obtain ⟨y, hne, h⟩ | ⟨x, hne, h⟩ := h
    · exact .inl ⟨y, hne, hundriven y e h⟩
    · exact .inr ⟨x, hne, hgone x e h⟩
  constructor
  case bypass =>
    exact fun port => hkeeps (fun y => (undriven_keptByInlining y).bypass port) fun x =>
      (gone_keptByFlattening x).bypass port
  case reparent =>
    exact fun child parent name => hkeeps
      (fun y => (undriven_keptByInlining y).reparent child parent name) fun x =>
        (gone_keptByFlattening x).reparent child parent name
  case remove =>
    exact fun id => hkeeps (fun y => (undriven_keptByInlining y).remove id) fun x =>
      (gone_keptByFlattening x).remove id

/-! ### Going around ports -/

theorem bypass_isolated (hlive : (e.diagram.port? port).isSome) (h : e.diagram.Isolated port) :
    bypass port e = .ok () e := by
  obtain ⟨p, hp⟩ := Option.isSome_iff_exists.mp hlive
  have hincoming : p.incoming = none := (Diagram.incoming_eq hp).symm.trans h.1
  have houtgoing : p.outgoing = [] := (Diagram.outgoing_eq hp).symm.trans h.2
  rw [bypass, port_bind hp, hincoming, houtgoing]
  rfl

/-- Going around a port that has links begins with taking one away for good. -/
theorem bypass_lost (h : e.diagram.WellFormed) (hlive : (e.diagram.port? port).isSome)
    (hlinked : ¬e.diagram.Isolated port) :
    e.diagram.Lost (bypass port e).state.diagram := by
  obtain ⟨p, hp⟩ := Option.isSome_iff_exists.mp hlive
  have hin := Diagram.incoming_eq hp
  have hout := Diagram.outgoing_eq hp
  rw [bypass, port_bind hp]
  cases hincoming : p.incoming with
  | some source =>
      rw [hincoming] at hin
      refine .inl ⟨port, by rw [hin]; simp, ?_⟩
      exact Keeps.after (P := fun d => d.incoming port = none)
        (fun _ => .forM (relink_undriven source port) _) (disconnectPorts_cuts h hin)
  | none =>
      rw [hincoming] at hin
      cases houtgoing : p.outgoing with
      | nil => exact absurd ⟨hin, hout.trans houtgoing⟩ hlinked
      | cons target rest =>
          have hdriven : e.diagram.incoming target = some port := by
            refine (h.links.mirror port target).mpr ?_
            rw [hout, houtgoing]
            exact List.mem_cons_self
          have hunlink : ∀ next, Keeps (fun d : Diagram α => d.incoming target = none)
              (do disconnectPorts port next; pure ()) := fun next =>
            .bind (disconnectPorts_undriven port next) fun _ => .of_quiet (.pure _)
          refine .inl ⟨target, by rw [hdriven]; simp, ?_⟩
          refine Keeps.after (P := fun d => d.incoming target = none)
            (fun _ => .forM hunlink rest) ?_
          exact Keeps.after (P := fun d => d.incoming target = none)
            (fun _ => .of_quiet (.pure _)) (disconnectPorts_cuts h hdriven)

theorem bypassAll_lost {ports : List PortId} (h : e.diagram.WellFormed)
    (hlive : ∀ port ∈ ports, (e.diagram.port? port).isSome)
    (hlinked : ∃ port ∈ ports, ¬e.diagram.Isolated port) :
    e.diagram.Lost (ports.forM bypass e).state.diagram := by
  -- up to the first port with links nothing happens
  induction ports with
  | nil =>
      obtain ⟨_, hmem, _⟩ := hlinked
      cases hmem
  | cons port rest ih =>
      obtain ⟨hfirst, hlive⟩ := List.forall_mem_cons.mp hlive
      change e.diagram.Lost ((bypass port >>= fun _ => rest.forM bypass) e).state.diagram
      by_cases hport : e.diagram.Isolated port
      · obtain ⟨q, hq, hlinked⟩ := hlinked
        have hq : q ∈ rest := (List.mem_cons.mp hq).resolve_left fun heq => hlinked (heq ▸ hport)
        rw [EStateM.bind_of_ok (bypass_isolated hfirst hport)]
        exact ih hlive ⟨q, hq, hlinked⟩
      · exact Keeps.after (fun _ => .forM (lost_keptByInlining e.diagram).bypass rest)
          (bypass_lost h hfirst hport)

/-! ### Taking a composite apart -/

section

variable {place : BlockId → Option Place} {rest : List BlockId}

/-- A child moves up unless its new name is taken there, and then nothing happens. -/
theorem moveUp_ends (above : String)
    (h : Emptying place outer inner (child :: rest) e.diagram.place?) :
    (moveUp outer above child e).Ends
      (fun e' => ¬e.diagram.NameTaken outer above child ∧
        Emptying place outer inner rest e'.diagram.place?)
      fun e' => e.diagram.NameTaken outer above child ∧ e' = e := by
  have hmem : child ∈ childrenAt e.diagram.place? inner := by
    rw [h.children]
    exact List.mem_cons_self
  obtain ⟨_, hup, hinner, _⟩ := h.tree.child inner child hmem
  obtain ⟨moved, hmoved, hparent, hold⟩ := exists_block_of_parentAt hup
  have houter := isSome_of_compositeAt (h.tree.child outer inner h.listed).2.2.1
  obtain ⟨composite, hcomposite⟩ := Option.isSome_iff_exists.mp
    (Diagram.block?_isSome_iff.mpr houter)
  rw [moveUp, block_bind hmoved]
  by_cases htaken : above ++ "." ++ moved.name ∈ composite.takenNames
  · have hfails : ∃ failure, reparent child outer (above ++ "." ++ moved.name) e =
        .error failure e := by
      refine ⟨.duplicateBlock (e.diagram.pathOf outer) (above ++ "." ++ moved.name), ?_⟩
      rw [reparent, block_bind hcomposite, if_pos htaken]
      rfl
    obtain ⟨failure, hfails⟩ := hfails
    rw [hfails]
    exact ⟨⟨composite, moved, hcomposite, hmoved, htaken⟩, rfl⟩
  · obtain ⟨e', hok⟩ := reparent_total hmoved hparent
      (Diagram.block?_isSome_iff.mpr (isSome_of_compositeAt hinner)) hcomposite htaken
    obtain ⟨_, hfree, hports, hplace⟩ := reparent_ok hok hmoved hparent
    rw [hok]
    refine ⟨?_, ?_⟩
    · rintro ⟨composite', moved', hcomposite', hmoved', htaken'⟩
      cases hcomposite.symm.trans hcomposite'
      cases hmoved.symm.trans hmoved'
      exact htaken htaken'
    · rw [hplace]
      exact h.moveUp hold (by simp) hports hfree

/-- A child that has moved up stays there while the others move. -/
theorem moveUpAll_ends (above : String) (hrest : child ∉ rest)
    (hchild : parentAt place child = some inner)
    (h : Emptying place outer inner rest e.diagram.place?) :
    (rest.forM (moveUp outer above) e).Ends
      (fun e' => Emptying place outer inner [] e'.diagram.place?)
      fun e' => parentAt e'.diagram.place? child = some outer := by
  refine EStateM.Ends.imp (EStateM.Ends.forM
    (P := fun rest (e : Editor α) =>
      Emptying place outer inner rest e.diagram.place? ∧ child ∉ rest)
    (Q := fun e' : Editor α => parentAt e'.diagram.place? child = some outer)
    (fun next rest e h => ?_) ⟨h, hrest⟩) (fun _ h => h.1) fun _ h => h
  obtain ⟨h, hnot⟩ := h
  refine EStateM.Ends.imp (moveUp_ends above h) (fun e' h' => ⟨h'.2, fun hmem => ?_⟩)
    fun e' h' => ?_
  · exact hnot (List.mem_cons_of_mem _ hmem)
  · rw [h'.2, h.parents, if_pos ⟨hchild, hnot⟩]

/-- The children of a composite move up, one after the other, until a name is taken. -/
theorem moveUpFrom_ends (above : String) {children : List BlockId}
    (h : Emptying e.diagram.place? outer inner children e.diagram.place?) :
    (children.forM (moveUp outer above) e).Ends
      (fun e' => Emptying e.diagram.place? outer inner [] e'.diagram.place?)
      fun e' => ∃ child, children.head? = some child ∧
        (e.diagram.NameTaken outer above child ∨ parentAt e'.diagram.place? child = some outer) := by
  cases children with
  | nil => exact h
  | cons child rest =>
      have hmem : child ∈ childrenAt e.diagram.place? inner := by
        rw [h.children]
        exact List.mem_cons_self
      have hnodup := h.tree.nodup inner
      rw [h.children, List.nodup_cons] at hnodup
      have hchild := (h.tree.child inner child hmem).2.1
      refine EStateM.Ends.bind (EStateM.Ends.imp (moveUp_ends above h) (fun _ h₁ => h₁.2) fun _ h₁ =>
        ⟨child, rfl, .inl h₁.1⟩) fun _ e₁ _ h₁ => ?_
      exact EStateM.Ends.imp (moveUpAll_ends above hnodup.1 hchild h₁) (fun _ h₂ => h₂) fun _ h₂ =>
        ⟨child, rfl, .inr h₂⟩

end

theorem dissolve_gone (hok : dissolve outer inner e = .ok () e') :
    e'.diagram.block? inner = none := by
  simp only [dissolve, remove, EStateM.bind_eq_ok] at hok
  obtain ⟨_, _, _, _, _, _, _, _, _, _, _, _, _, e₁, _, herase⟩ := hok
  cases herase
  rw [block?_erased, if_pos rfl]

/-- Where a composite has no links, taking it apart begins with its children. -/
theorem dissolve_of_isolated {b : Block α} (hb : e.diagram.block? inner = some b)
    (h : ∀ y : PortId, y.block = inner → e.diagram.Isolated y) :
    dissolve outer inner e =
      (b.children.forM (moveUp outer b.name) >>= fun _ => remove inner) e := by
  rw [dissolve_apply hb,
    EStateM.bind_of_ok (EStateM.forM_idle fun port hport =>
      bypass_isolated (live_of_mem_ports hb hport) (h port (block_of_mem_ports hport)))]

theorem dissolve_lost (outer : BlockId) (h : e.diagram.WellFormed) {b : Block α}
    (hb : e.diagram.block? inner = some b)
    (hlinked : ¬∀ y : PortId, y.block = inner → e.diagram.Isolated y) :
    e.diagram.Lost (dissolve outer inner e).state.diagram := by
  have hkept := lost_keptByInlining e.diagram
  rw [dissolve_apply hb]
  refine Keeps.after (fun _ => .bind (.forM (fun child => ?_) _) fun _ => hkept.remove inner)
    (bypassAll_lost h (fun port hport => live_of_mem_ports hb hport) ?_)
  · exact .bind (.of_quiet .diagram) fun d => .bind (.of_quiet (.lift _)) fun moved =>
      hkept.reparent child outer _
  · simp only [not_forall] at hlinked
    obtain ⟨y, hy, hlinked⟩ := hlinked
    exact ⟨y, (mem_ports_or_isolated hb hy).resolve_right hlinked, hlinked⟩

theorem dissolve_stuck (h : e.diagram.WellFormed)
    (hlisted : inner ∈ childrenAt e.diagram.place? outer) (hstuck : e.diagram.Stuck outer inner) :
    ∃ failure, dissolve outer inner e = .error failure e := by
  obtain ⟨hisolated, b, child, hb, hhead, htaken⟩ := hstuck
  obtain ⟨rest, hchildren⟩ := List.head?_eq_some_iff.mp hhead
  have hstart : Emptying e.diagram.place? outer inner (child :: rest) e.diagram.place? := by
    rw [← hchildren, ← Diagram.childrenAt_eq hb]
    exact .begin h.top h.tree hlisted
  have hfirst := moveUp_ends b.name hstart
  rw [dissolve_of_isolated hb hisolated, hchildren]
  cases hresult : moveUp outer b.name child e with
  | ok _ e₁ =>
      rw [hresult] at hfirst
      exact absurd htaken hfirst.1
  | error failure e₁ =>
      rw [hresult] at hfirst
      obtain ⟨_, rfl⟩ := hfirst
      exact ⟨failure, EStateM.bind_of_error (EStateM.bind_of_error hresult)⟩

/-- Once something can be done, the diagram does not stay as it was. -/
theorem dissolve_moves (h : e.diagram.WellFormed)
    (hlisted : inner ∈ childrenAt e.diagram.place? outer) (hstuck : ¬e.diagram.Stuck outer inner) :
    (dissolve outer inner e).Ends (fun e' => e.diagram.Lost e'.diagram)
      fun e' => e'.diagram ≠ e.diagram := by
  obtain ⟨_, hup, houter, hlt⟩ := h.tree.child outer inner hlisted
  obtain ⟨b, hb, hparent, _⟩ := exists_block_of_parentAt hup
  cases hresult : dissolve outer inner e with
  | ok _ e' => exact .inr ⟨inner, by rw [hb]; simp, dissolve_gone hresult⟩
  | error failure e' =>
      by_cases hisolated : ∀ y : PortId, y.block = inner → e.diagram.Isolated y
      case neg =>
        have hlost := dissolve_lost outer h hb hisolated
        rw [hresult] at hlost
        exact hlost.ne
      have hstart : Emptying e.diagram.place? outer inner b.children e.diagram.place? := by
        rw [← Diagram.childrenAt_eq hb]
        exact .begin h.top h.tree hlisted
      have hmoves := moveUpFrom_ends b.name hstart
      rw [dissolve_of_isolated hb hisolated] at hresult
      rcases EStateM.bind_eq_error.mp hresult with hloop | ⟨_, e₁, hloop, hremove⟩
      · rw [hloop] at hmoves
        obtain ⟨child, hhead, htaken | hmoved⟩ := hmoves
        · exact absurd ⟨hisolated, b, child, hb, hhead, htaken⟩ hstuck
        · -- the first child was in the composite, and is now in the one around it
          rintro hsame
          have hmem : child ∈ childrenAt e.diagram.place? inner := by
            rw [Diagram.childrenAt_eq hb]
            exact List.mem_of_mem_head? hhead
          have hchild := (h.tree.child inner child hmem).2.1
          rw [hsame, hchild] at hmoved
          cases hmoved
          omega
      · -- nothing stops the empty composite from going away
        rw [hloop] at hmoves
        obtain ⟨_, hup₁, houter₁, _⟩ := hmoves.tree.child outer inner hmoves.listed
        obtain ⟨here, hhere, hparent, _⟩ := exists_block_of_parentAt hup₁
        obtain ⟨e₂, hok⟩ := remove_total hhere hparent
          (Diagram.block?_isSome_iff.mpr (isSome_of_compositeAt houter₁))
        cases hremove.symm.trans hok

/-! ### Flattening -/

variable {depth : Nat}

/-- A child is passed over unless it is to be taken apart. -/
theorem visit_apply (hlive : (e.diagram.block? child).isSome) :
    visit keep depth id child e = if e.diagram.takesApart keep child
      then (do flattenTo keep depth child; dissolve id child : Edit α Unit) e else .ok () e := by
  obtain ⟨b, hb⟩ := Option.isSome_iff_exists.mp hlive
  rw [visit, block_bind hb]
  simp only [Diagram.takesApart_eq hb]
  split <;> rfl

theorem KeptByInlining.visit {P : Diagram α → Prop} (h : KeptByInlining P) (keep : List String)
    (depth : Nat) (id child : BlockId) : Keeps P (visit keep depth id child) := by
  refine .bind (.of_quiet .diagram) fun d => .bind (.of_quiet (.lift _)) fun inner => ?_
  split
  · exact .bind (h.flattenTo keep depth child) fun _ => h.dissolve id child
  · exact .of_quiet (.pure _)

/-- Only a composite is flattened. -/
theorem flattenTo_primitive (keep : List String) (depth : Nat)
    (h : e.diagram.isComposite id = false) :
    (flattenTo keep depth id e).state.diagram = e.diagram := by
  cases depth with
  | zero => rfl
  | succ depth =>
      cases hb : e.diagram.block? id with
      | none =>
          have hread : diagram e = .ok e.diagram e := rfl
          rw [flattenTo, EStateM.bind_of_ok hread, Diagram.block, hb]
          rfl
      | some b =>
          have hprimitive : ¬b.isComposite = true := by
            rw [Diagram.isComposite, hb] at h
            simp [h]
          rw [flattenTo, block_bind hb, if_neg hprimitive]
          rfl

/-- A composite with nothing to take apart stays as it is. -/
theorem flattenTo_idle (h : e.diagram.WellFormed) (hcomposite : e.diagram.isComposite id = true)
    (hnone : e.diagram.firstChild? keep id = none) : flattenTo keep depth id e = .ok () e := by
  cases depth with
  | zero => rfl
  | succ depth =>
      obtain ⟨b, hb, hcomposite⟩ := Diagram.isComposite_eq_true.mp hcomposite
      rw [Diagram.firstChild?, hb, Option.bind_some, List.find?_eq_none] at hnone
      rw [flattenTo_apply hb hcomposite]
      exact EStateM.forM_idle fun child hchild =>
        (visit_apply (h.live_child hb hchild)).trans (if_neg (hnone child hchild))

/-- Flattening a composite begins with the first child that is to be taken apart. -/
theorem flattenTo_begins (depth : Nat) (h : e.diagram.WellFormed)
    (hfirst : e.diagram.firstChild? keep id = some child) :
    ∃ rest : List BlockId, flattenTo keep (depth + 1) id e =
      ((do flattenTo keep depth child; dissolve id child : Edit α Unit) >>=
        fun _ => rest.forM (visit keep depth id)) e := by
  obtain ⟨b, hb, hfind⟩ := Option.bind_eq_some_iff.mp hfirst
  obtain ⟨hchild, before, after, hchildren, hbefore⟩ := List.find?_eq_some_iff_append.mp hfind
  have hcomposite := (h.tree.child id child (h.firstChild?_bounds hfirst).1).2.2.1
  rw [Diagram.compositeAt_eq_isComposite, Diagram.isComposite, hb] at hcomposite
  have hlive : ∀ next ∈ before ++ child :: after, (e.diagram.block? next).isSome :=
    fun next hnext => h.live_child hb (hchildren ▸ hnext)
  have hidle : before.forM (visit keep depth id) e = .ok () e := by
    refine EStateM.forM_idle fun next hnext => ?_
    refine (visit_apply (hlive next (List.mem_append_left _ hnext))).trans (if_neg ?_)
    simpa using hbefore next hnext
  have hturn : visit keep depth id child e =
      (do flattenTo keep depth child; dissolve id child : Edit α Unit) e :=
    (visit_apply (hlive child (by simp))).trans (if_pos hchild)
  refine ⟨after, ?_⟩
  rw [flattenTo_apply hb hcomposite, hchildren, EStateM.forM_append hidle]
  change (visit keep depth id child >>= fun _ => after.forM (visit keep depth id)) e = _
  simp only [bind, EStateM.bind] at hturn ⊢
  rw [hturn]

/-- What is said of the first composite to be taken apart, when an edit that begins with it ends. -/
def Stalls (start : Diagram α) (outer inner : BlockId)
    (r : EStateM.Result (Failure α) (Editor α) Unit) : Prop :=
  r.Ends (fun e' => start.Lost e'.diagram ∧ ¬start.Stuck outer inner) fun e' =>
    e'.diagram = start ↔ start.Stuck outer inner

theorem Stalls.bind {x : Edit α Unit} {f : Unit → Edit α Unit}
    (hx : Stalls start outer inner (x e)) (hf : ∀ u, Keeps start.Lost (f u)) :
    Stalls start outer inner ((x >>= f) e) := by
  refine EStateM.Ends.bind hx fun u e₁ _ h₁ => ?_
  have hlost := hf u e₁ h₁.1
  cases hresult : f u e₁ with
  | ok _ e' =>
      rw [hresult] at hlost
      exact ⟨hlost, h₁.2⟩
  | error failure e' =>
      rw [hresult] at hlost
      exact iff_of_false hlost.ne h₁.2

theorem dissolve_stalls (h : e.diagram.WellFormed)
    (hlisted : inner ∈ childrenAt e.diagram.place? outer) :
    Stalls e.diagram outer inner (dissolve outer inner e) := by
  by_cases hstuck : e.diagram.Stuck outer inner
  · obtain ⟨failure, hfails⟩ := dissolve_stuck h hlisted hstuck
    rw [hfails]
    exact iff_of_true rfl hstuck
  · exact EStateM.Ends.imp (dissolve_moves h hlisted hstuck) (fun _ hlost => ⟨hlost, hstuck⟩)
      fun _ hne => iff_of_false hne hstuck

/-- Flattening comes to the first composite with the diagram as it was. -/
theorem flattenTo_stalls (h : e.diagram.WellFormed)
    (hfirst : e.diagram.FirstApart keep id outer inner)
    (hdepth : e.diagram.blocks.size ≤ id.index + depth) :
    Stalls e.diagram outer inner (flattenTo keep depth id e) := by
  have hkept := lost_keptByInlining e.diagram
  induction hfirst generalizing depth with
  | @here id inner hchild hnone =>
      obtain ⟨hlisted, hcomposite, hlt, hsize⟩ := h.firstChild?_bounds hchild
      obtain _ | depth := depth
      · omega
      obtain ⟨rest, hbegins⟩ := flattenTo_begins depth h hchild
      rw [hbegins]
      refine Stalls.bind ?_ fun _ => .forM (hkept.visit keep depth id) rest
      rw [EStateM.bind_of_ok (flattenTo_idle h hcomposite hnone)]
      exact dissolve_stalls h hlisted
  | @inside id child outer inner hchild _ ih =>
      obtain ⟨_, _, hlt, hsize⟩ := h.firstChild?_bounds hchild
      obtain _ | depth := depth
      · omega
      obtain ⟨rest, hbegins⟩ := flattenTo_begins depth h hchild
      rw [hbegins]
      refine Stalls.bind ?_ fun _ => .forM (hkept.visit keep depth id) rest
      exact Stalls.bind (ih (by omega)) fun _ => hkept.dissolve id child

end Edit

namespace Diagram

variable [Scalar α] {e e' : Editor α} {keep : List String} {id : BlockId} {failure : Failure α}

/-- A failing call leaves the diagram as it was only if it fails before its first step: the block
is no composite, or the first composite to be taken apart has no links and a first child whose new
name is taken. -/
theorem Built.flatten_unchanged_iff (h : e.diagram.Built)
    (hfails : Edit.flatten id keep e = .error failure e') :
    e'.diagram = e.diagram ↔ e.diagram.isComposite id = false ∨
      ∃ outer inner, e.diagram.FirstApart keep id outer inner ∧ e.diagram.Stuck outer inner := by
  have hd := h.wellFormed
  have hread : Edit.diagram e = .ok e.diagram e := rfl
  rw [Edit.flatten, EStateM.bind_of_ok hread] at hfails
  have hstalls : ∀ outer inner, e.diagram.FirstApart keep id outer inner →
      (e'.diagram = e.diagram ↔ e.diagram.Stuck outer inner) := by
    intro outer inner hfirst
    have hstalls := Edit.flattenTo_stalls hd hfirst (Nat.le_add_left e.diagram.blocks.size _)
    rwa [hfails] at hstalls
  cases hcomposite : e.diagram.isComposite id with
  | false =>
      refine iff_of_true ?_ (.inl rfl)
      have hstate := Edit.flattenTo_primitive keep e.diagram.blocks.size hcomposite
      rwa [hfails] at hstate
  | true =>
      cases hfirst : e.diagram.firstChild? keep id with
      | none => cases hfails.symm.trans (Edit.flattenTo_idle hd hcomposite hfirst)
      | some child =>
          obtain ⟨outer, inner, hfirst⟩ := hd.exists_firstApart hfirst
          rw [hstalls outer inner hfirst]
          constructor
          · exact fun hstuck => .inr ⟨outer, inner, hfirst, hstuck⟩
          · rintro (hnot | ⟨outer', inner', hfirst', hstuck⟩)
            · cases hnot
            · exact (hstalls outer inner hfirst).mp ((hstalls outer' inner' hfirst').mpr hstuck)

/-- A composite and a block beside it, in a composite around them. -/
def crowded (contents : List String) (name : String) : Editor ℚ :=
  performAll { diagram := empty "model" [] [] } <|
    [.addComposite ⟨0⟩ "outer" "Box" [] [], .addComposite ⟨1⟩ "box" "Box" [] []] ++
      contents.map (fun name => .addBlock ⟨2⟩ name .time) ++ [.addBlock ⟨1⟩ name .time]

theorem crowded_built (contents : List String) (name : String) :
    (crowded contents name).diagram.Built := by
  refine .performAll (.empty "model" [] []) fun call hcall e => ?_
  simp only [List.mem_append, List.mem_cons, List.not_mem_nil, List.mem_map, or_false] at hcall
  obtain ((rfl | rfl) | ⟨_, _, rfl⟩) | rfl := hcall <;> exact trivial

/-- Where the first child has no place to go, nothing changes. -/
theorem flatten_stuck_at_once : ∃ (e e' : Editor ℚ) (failure : Failure ℚ), e.diagram.Built ∧
    Edit.flatten ⟨0⟩ [] e = .error failure e' ∧ e'.diagram = e.diagram := by
  let e := crowded ["x", "y"] "box.x"
  have hfails : (Edit.flatten ⟨0⟩ [] e).answer?.isNone = true := by decide +kernel
  obtain ⟨failure, hfails⟩ := EStateM.Result.eq_error (Option.isNone_iff_eq_none.mp hfails)
  have hfirst : e.diagram.FirstApart [] ⟨0⟩ ⟨1⟩ ⟨2⟩ :=
    .inside (by decide +kernel : e.diagram.firstChild? [] ⟨0⟩ = some ⟨1⟩)
      (.here (by decide +kernel) (by decide +kernel))
  obtain ⟨box, hbox⟩ : ∃ box, e.diagram.block? ⟨2⟩ = some box :=
    Option.isSome_iff_exists.mp (by decide +kernel)
  obtain ⟨outer, houter⟩ : ∃ outer, e.diagram.block? ⟨1⟩ = some outer :=
    Option.isSome_iff_exists.mp (by decide +kernel)
  obtain ⟨x, hx⟩ : ∃ x, e.diagram.block? ⟨3⟩ = some x :=
    Option.isSome_iff_exists.mp (by decide +kernel)
  have hports : (e.diagram.block? ⟨2⟩).map (fun b => (b.inputs.length, b.outputs.length)) =
      some (0, 0) := by decide +kernel
  have hnames : (e.diagram.block? ⟨1⟩).map Block.takenNames = some ["box", "box.x"] := by
    decide +kernel
  have hinside : (e.diagram.block? ⟨2⟩).map (fun b => (b.name, b.children)) =
      some ("box", [⟨3⟩, ⟨4⟩]) := by decide +kernel
  have hname : (e.diagram.block? ⟨3⟩).map Block.name = some "x" := by decide +kernel
  rw [hbox, Option.map_some, Option.some.injEq, Prod.mk.injEq] at hports hinside
  rw [houter, Option.map_some, Option.some.injEq] at hnames
  rw [hx, Option.map_some, Option.some.injEq] at hname
  have hstuck : e.diagram.Stuck ⟨1⟩ ⟨2⟩ := by
    refine ⟨fun y hy => ?_, box, ⟨3⟩, hbox, by rw [hinside.2]; rfl, outer, x, houter, hx, ?_⟩
    · have hisolated := Edit.mem_ports_or_isolated hbox hy
      simpa [hports.1, hports.2] using hisolated
    · rw [hnames, hinside.1, hname]
      decide +kernel
  exact ⟨e, _, failure, crowded_built _ _, hfails,
    ((crowded_built _ _).flatten_unchanged_iff hfails).mpr (.inr ⟨_, _, hfirst, hstuck⟩)⟩

/-- Where the second child has no place to go, the first one has gone already. -/
theorem flatten_half_done : ∃ (e e' : Editor ℚ) (failure : Failure ℚ), e.diagram.Built ∧
    Edit.flatten ⟨0⟩ [] e = .error failure e' ∧ e'.diagram ≠ e.diagram := by
  let e := crowded ["x", "y"] "box.y"
  have hfails : (Edit.flatten ⟨0⟩ [] e).answer?.isNone = true := by decide +kernel
  obtain ⟨failure, hfails⟩ := EStateM.Result.eq_error (Option.isNone_iff_eq_none.mp hfails)
  refine ⟨e, _, failure, crowded_built _ _, hfails, fun hsame => ?_⟩
  have hmoved : ((Edit.flatten ⟨0⟩ [] e).state.diagram.block? ⟨2⟩).map Block.children ≠
      (e.diagram.block? ⟨2⟩).map Block.children := by decide +kernel
  exact hmoved (by rw [hsame])

end Diagram

end CausalBlocks
