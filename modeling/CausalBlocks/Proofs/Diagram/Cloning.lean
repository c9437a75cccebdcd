import CausalBlocks.Proofs.Diagram.Consistency
import CausalBlocks.Proofs.Scalar.Rational

/-!
# What a copy is

A copy of a block goes to the end of the diagram, with a block for each one inside the original.
It is built like the original, and its links are those that run inside the original: a link beside
the original has none beside the copy, not even one from the original to itself. Everything else
stays as it was, also where the copy is put inside the original.
-/

namespace CausalBlocks

variable {α : Type}

/-- The port at the same place of another block. -/
def PortId.on (p : PortId) (copy : BlockId → BlockId) : PortId := { p with block := copy p.block }

/-- A block is built like another one, with other children in the same order, and has no samples. -/
structure Block.CopyOf (copy : BlockId → BlockId) (b b' : Block α) : Prop where
  operator : b'.operator = b.operator
  rate : b'.rate = b.rate
  ports : ∀ side, (b'.ports side).map Port.name = (b.ports side).map Port.name
  children : b'.children = b.children.map copy
  index : b'.childIndex = b.childIndex.map fun (name, child) => (name, copy child)
  fresh : ∀ side, ∀ p ∈ b'.ports side, p.history = #[]

namespace Diagram

/-- A link that runs in a block, or in a composite inside it. -/
def LinkedInside (d : Diagram α) (top : BlockId) (p q : PortId) : Prop :=
  d.incoming q = some p ∧ ∃ level, d.sourceLevel p = .ok (some level) ∧ d.Inside top level

/-- A diagram before and after a block was copied, with all that is inside it. -/
structure Cloned (d d' : Diagram α) (source parent : BlockId) (name : String)
    (copy : BlockId → BlockId) : Prop where
  /-- The blocks that there were are as they were, but for the composite that has a new child. -/
  kept : ∀ x, x.index < d.blocks.size → d'.block? x = (d.block? x).map fun b =>
    if x = parent then { b with
      children := b.children ++ [copy source], childIndex := b.childIndex ++ [(name, copy source)] }
    else b
  beyond : ∀ x, d.Inside source x → d.blocks.size ≤ (copy x).index
  injective : ∀ x y, d.Inside source x → d.Inside source y → copy x = copy y → x = y
  inside : ∀ x', d'.Inside (copy source) x' ↔ ∃ x, d.Inside source x ∧ copy x = x'
  block : ∀ x b, d.Inside source x → d.block? x = some b → ∃ b', d'.block? (copy x) = some b' ∧
    b.CopyOf copy b' ∧ b'.name = (if x = source then name else b.name) ∧
      b'.parent = if x = source then some parent else b.parent.map copy
  driven : ∀ p q, d.Inside source p.block → d.Inside source q.block →
    (d'.incoming (q.on copy) = some (p.on copy) ↔ d.LinkedInside source p q)
  drives : ∀ p q, d.Inside source p.block → d.Inside source q.block →
    (q.on copy ∈ d'.outgoing (p.on copy) ↔ d.LinkedInside source p q)
  /-- No link leaves the copy or comes into it. -/
  apart : ∀ p' q', d'.incoming q' = some p' ∨ q' ∈ d'.outgoing p' →
    (d'.Inside (copy source) p'.block ↔ d'.Inside (copy source) q'.block)

variable {d : Diagram α} {source parent x y up : BlockId} {name : String} {p q : PortId}

theorem sourceLevel_eq {level : BlockId} (h : levelAt d.place? .input p = some level) :
    d.sourceLevel p = .ok (some level) := by
  obtain ⟨here, hhere, _⟩ := Option.bind_eq_some_iff.mp h
  obtain ⟨b, hb, _⟩ := place?_eq_some hhere
  obtain ⟨level', hlevel⟩ : ∃ level', d.sourceLevel p = .ok level' :=
    ⟨_, Except.bind_eq_ok.mpr ⟨b, block_eq hb, rfl⟩⟩
  rw [hlevel, ← sourceLevel_ok hlevel, h]

/-! ### Copies of blocks -/

/-- The place of the copy of a block inside the original. -/
def copyId (d : Diagram α) (source x : BlockId) : BlockId := (d.newName source x).getD x

theorem newName_copyId (h : d.WellFormed) (hx : x ∈ d.descendants source) :
    d.newName source x = some (d.copyId source x) := by
  obtain ⟨z, hz⟩ := Option.isSome_iff_exists.mp (newName_isSome h hx)
  rw [copyId, hz, Option.getD_some]

theorem filterMap_newName {β γ : Type} (h : d.WellFormed) {xs : List β} {f : β → BlockId}
    (g : β → BlockId → γ) (hxs : ∀ x ∈ xs, f x ∈ d.descendants source) :
    (xs.filterMap fun x => (d.newName source (f x)).map (g x)) =
      xs.map fun x => g x (d.copyId source (f x)) := by
  induction xs with
  | nil => rfl
  | cons x rest ih =>
      obtain ⟨hx, hrest⟩ := List.forall_mem_cons.mp hxs
      rw [List.filterMap_cons_some (by rw [newName_copyId h hx]; rfl), ih hrest, List.map_cons]

/-- Under each new name is a block built like the one that it copies. -/
theorem copyOf_copies (h : d.WellFormed) {b : Block α} (hb : d.block? x = some b)
    (hx : x ∈ d.descendants source) :
    b.CopyOf (d.copyId source) (d.copyOf source parent name x b) := by
  have hlisted : ∀ child ∈ b.children, child ∈ d.descendants source := by
    intro child hchild
    rw [← childrenAt_eq hb] at hchild
    exact children_mem_below h.tree (Nat.le_add_left _ _) hx hchild
  have hindexed : ∀ entry ∈ b.childIndex, entry.2 ∈ d.descendants source := by
    rintro ⟨name, child⟩ hentry
    exact hlisted child ((h.indexed_iff hb).2 name child |>.mp hentry).1
  constructor
  case operator => rw [copyOf]; split <;> rfl
  case rate => rw [copyOf]; split <;> rfl
  case ports =>
    intro side
    rw [copyOf]
    split <;> cases side <;>
      simp [Block.copyTop, Block.copyInside, Block.ports, Port.copy, Function.comp_def]
  case children =>
    have hchildren := filterMap_newName h (fun _ z => z) hlisted
    simp only [Option.map_id'] at hchildren
    rw [copyOf]
    split <;> exact hchildren
  case index =>
    have hindex := filterMap_newName h (fun entry z => (entry.1, z)) hindexed
    rw [copyOf]
    split <;> exact hindex
  case fresh =>
    intro side p hp
    rw [copyOf] at hp
    split at hp <;> cases side <;>
    · obtain ⟨original, _, rfl⟩ := List.mem_map.mp hp
      rfl

theorem block?_cloned (name : String) (h : d.WellFormed) {composite : Block α}
    (hparent : d.block? parent = some composite) (hx : x ∈ d.descendants source) :
    (d.adopted parent name (d.copies source parent name)).block? (d.copyId source x) =
      (d.block? x).map (d.copyOf source parent name x) := by
  have hz := newName_copyId h hx
  have hle := ((newName_eq_some h).mp hz).1
  have hlt := lt_size_of_block? hparent
  rw [adopted, block?_modifyBlock, if_neg, block?_appended, if_neg (by omega), block?_copies h hz]
  intro heq
  rw [heq] at hle
  omega

theorem copyId_source (h : d.WellFormed) (hlive : (d.block? source).isSome) :
    d.copyId source source = ⟨d.blocks.size⟩ := by
  rw [copyId, newName_source h hlive, Option.getD_some]

theorem block?_adopted_old {blocks : List (Block α)} (hx : x.index < d.blocks.size) :
    (d.adopted parent name blocks).block? x = (d.block? x).map fun b =>
      if x = parent then { b with
        children := b.children ++ [⟨d.blocks.size⟩]
        childIndex := b.childIndex ++ [(name, ⟨d.blocks.size⟩)] }
      else b := by
  rw [adopted, block?_modifyBlock, block?_appended, if_pos hx]
  split <;> cases d.block? x <;> rfl

/-! ### Copies of links -/

theorem renamePort_copyId (h : d.WellFormed) (hp : p.block ∈ d.descendants source) :
    renamePort (d.newName source) p = some (p.on (d.copyId source)) :=
  renamePort_eq_some.mpr ⟨newName_copyId h hp, rfl, rfl⟩

/-- A link that runs inside a block has its ends there. -/
theorem WellFormed.inside_of_level (h : d.WellFormed) {inner : Side} {level : BlockId}
    (hlevel : levelAt d.place? inner p = some level) (hinside : d.Inside source level) :
    d.Inside source p.block ∧ ¬(p.block = source ∧ p.side ≠ inner) := by
  rw [levelAt_eq] at hlevel
  split at hlevel
  next hside =>
    split at hlevel
    next =>
      cases hlevel
      exact ⟨hinside, fun hbeside => hbeside.2 hside⟩
    next => cases hlevel
  next hside =>
    -- the level is the composite around the port's block, and above it
    have hup := WellFormed.parentOf_iff.mpr hlevel
    refine ⟨.head hup hinside, fun hbeside => ?_⟩
    have hlt := h.lt_of_parentOf hup
    have hle := h.le_of_inside hinside
    rw [hbeside.1] at hlt
    omega

section Links

variable (h : d.WellFormed) (hlive : (d.block? source).isSome)
include h hlive

/-- Links are copied if they run inside the original. -/
theorem incoming_copies_iff (hroot : source ≠ d.root) (hp : d.Inside source p.block)
    (hq : d.Inside source q.block) :
    (alone d.blocks.size (d.copies source parent name)).incoming (q.on (d.copyId source)) =
      some (p.on (d.copyId source)) ↔ d.LinkedInside source p q := by
  have hr := renames h source
  have hmem : ∀ x, d.Inside source x → x ∈ d.descendants source := fun x =>
    (h.mem_descendants_iff_inside hlive).mpr
  have hp' := renamePort_copyId h (hmem _ hp)
  have hq' := renamePort_copyId h (hmem _ hq)
  rw [(copiedLinks h source parent name).incoming_copy q _ hq']
  constructor
  · intro hlink
    split at hlink
    · cases hlink
    next hbeside =>
      obtain ⟨p₀, hpq, hp₀⟩ := Option.bind_eq_some_iff.mp hlink
      cases renamePort_injective hr hp₀ hp'
      -- the level has a copy, so it is inside too
      obtain ⟨level, _, hlevel, _⟩ := h.links.level p q hpq
      rw [CopiedLinks.beside_iff h.tree hr h.links hroot hpq hp' hq', ← Side.ne_input_iff]
        at hbeside
      obtain ⟨_, hcopy, _⟩ := CopiedLinks.level_copy h.tree hr (copied h source parent name) hp'
        hbeside hlevel
      exact ⟨hpq, level, sourceLevel_eq hlevel,
        (h.mem_descendants_iff_inside hlive).mp (mem_of_newName h hcopy)⟩
  · rintro ⟨hpq, level, hlevel, hinside⟩
    obtain ⟨_, hbeside⟩ := h.inside_of_level (sourceLevel_ok hlevel) hinside
    rw [Side.ne_input_iff, ← CopiedLinks.beside_iff h.tree hr h.links hroot hpq hp' hq'] at hbeside
    rw [if_neg hbeside, hpq, Option.bind_some, hp']

/-- The composite around a block that lies inside another one has a copy. -/
theorem parent_copyId {b : Block α} (hb : d.block? x = some b) (hx : d.Inside source x)
    (hne : x ≠ source) : b.parent.bind (d.newName source) = b.parent.map (d.copyId source) := by
  rcases Relation.ReflTransGen.cases_head hx with heq | ⟨up, hup, hinside⟩
  · exact absurd heq hne
  · obtain ⟨b', hb', hparent⟩ := hup
    cases hb.symm.trans hb'
    rw [hparent, Option.bind_some, Option.map_some]
    exact newName_copyId h ((h.mem_descendants_iff_inside hlive).mpr hinside)

/-- Linked blocks are both copies or both not. -/
theorem apart_cloned
    (hpq : (d.adopted parent name (d.copies source parent name)).incoming q = some p) :
    (∃ x, d.Inside source x ∧ d.copyId source x = p.block) ↔
      ∃ x, d.Inside source x ∧ d.copyId source x = q.block := by
  have hmem : ∀ x, d.Inside source x ↔ x ∈ d.descendants source := fun x =>
    (h.mem_descendants_iff_inside hlive).symm
  have hbeyond : ∀ y : BlockId, y.index < d.blocks.size →
      ¬∃ x, d.Inside source x ∧ d.copyId source x = y := by
    rintro y hy ⟨x, hx, rfl⟩
    have := ((newName_eq_some h).mp (newName_copyId h ((hmem x).mp hx))).1
    omega
  have hcopy : ∀ x z, d.newName source x = some z →
      ∃ x, d.Inside source x ∧ d.copyId source x = z := by
    intro x z hz
    exact ⟨x, (hmem x).mpr (mem_of_newName h hz), by rw [copyId, hz, Option.getD_some]⟩
  rw [incoming_adopted] at hpq
  dsimp only at hpq
  split at hpq
  next hq =>
    have hp := lt_size_of_place? (h.links.live_of_incoming hpq).1
    exact iff_of_false (hbeyond _ hp) (hbeyond _ hq)
  next =>
    obtain ⟨p₀, q₀, hp, hq, _⟩ := (copiedLinks h source parent name).incoming_eq_some hpq
    exact iff_of_true (hcopy _ _ (renamePort_eq_some.mp hp).1)
      (hcopy _ _ (renamePort_eq_some.mp hq).1)

variable {composite : Block α} (hparent : d.block? parent = some composite)
include hparent

/-- The blocks inside the copy are the copies of those inside the original. -/
theorem inside_cloned_iff
    (h' : (d.adopted parent name (d.copies source parent name)).WellFormed) {x' : BlockId} :
    (d.adopted parent name (d.copies source parent name)).Inside (d.copyId source source) x' ↔
      ∃ x, d.Inside source x ∧ d.copyId source x = x' := by
  have hmem : ∀ x, d.Inside source x → x ∈ d.descendants source := fun x =>
    (h.mem_descendants_iff_inside hlive).mpr
  constructor
  · intro hx'
    induction hx' using Relation.ReflTransGen.head_induction_on with
    | refl => exact ⟨source, .refl, rfl⟩
    | @head x' up' hup _ ih =>
        -- what lists the block is a copy, so the block is one of its children's copies
        obtain ⟨up, hinside, rfl⟩ := ih
        obtain ⟨b, hb⟩ := Option.isSome_iff_exists.mp (live_of_mem_below (hmem up hinside))
        have hcopy := block?_cloned name h hparent (hmem up hinside)
        rw [hb, Option.map_some] at hcopy
        have hlisted := h'.listed (WellFormed.parentOf_iff.mp hup)
        rw [childrenAt_eq hcopy, (copyOf_copies h hb (hmem up hinside)).children] at hlisted
        obtain ⟨x, hx, rfl⟩ := List.mem_map.mp hlisted
        rw [← childrenAt_eq hb] at hx
        exact ⟨x, .head (WellFormed.parentOf_iff.mpr (h.tree.child up x hx).2.1) hinside, rfl⟩
  · rintro ⟨x, hx, rfl⟩
    induction hx using Relation.ReflTransGen.head_induction_on with
    | refl => exact .refl
    | @head x up hup hinside ih =>
        have hlt := h.lt_of_parentOf hup
        have hle := h.le_of_inside hinside
        have hne : x ≠ source := by
          rintro rfl
          omega
        have hx := Relation.ReflTransGen.head hup hinside
        obtain ⟨b, hb, hbparent⟩ := hup
        have hcopy := block?_cloned name h hparent (hmem x hx)
        rw [hb, Option.map_some] at hcopy
        refine .head ⟨_, hcopy, ?_⟩ ih
        rw [copyOf, if_neg hne]
        exact (parent_copyId h hlive hb hx hne).trans (by rw [hbparent]; rfl)

end Links

/-- What copying a block leads to. -/
theorem WellFormed.cloned (h : d.WellFormed) (hlive : (d.block? source).isSome)
    (hroot : source ≠ d.root) {composite : Block α} (hparent : d.block? parent = some composite)
    (hcomposite : composite.isComposite = true) (hname : name ≠ "")
    (hfree : name ∉ composite.takenNames) :
    d.Cloned (d.adopted parent name (d.copies source parent name)) source parent name
      (d.copyId source) := by
  have h' := h.adopted_copies hlive hroot hparent hcomposite hname hfree
  have hmem : ∀ x, d.Inside source x → x ∈ d.descendants source := fun x =>
    (h.mem_descendants_iff_inside hlive).mpr
  have hbeyond : ∀ x, d.Inside source x → d.blocks.size ≤ (d.copyId source x).index := fun x hx =>
    ((newName_eq_some h).mp (newName_copyId h (hmem x hx))).1
  have hdriven : ∀ p q, d.Inside source p.block → d.Inside source q.block →
      ((d.adopted parent name (d.copies source parent name)).incoming (q.on (d.copyId source)) =
        some (p.on (d.copyId source)) ↔ d.LinkedInside source p q) := by
    intro p q hp hq
    rw [incoming_adopted]
    change (if (d.copyId source q.block).index < d.blocks.size then _ else _) = _ ↔ _
    rw [if_neg (Nat.not_lt.mpr (hbeyond _ hq))]
    exact incoming_copies_iff h hlive hroot hp hq
  constructor
  case kept =>
    rw [copyId_source h hlive]
    exact fun x hx => block?_adopted_old hx
  case beyond => exact hbeyond
  case injective =>
    intro x y hx hy heq
    have hy' := newName_copyId h (hmem y hy)
    rw [← heq] at hy'
    exact (renames h source).injective x y _ (newName_copyId h (hmem x hx)) hy'
  case inside => exact fun x' => inside_cloned_iff h hlive hparent h'
  case block =>
    intro x b hx hb
    have hcopy := block?_cloned name h hparent (hmem x hx)
    rw [hb, Option.map_some] at hcopy
    refine ⟨_, hcopy, copyOf_copies h hb (hmem x hx), ?_, ?_⟩
    · rw [copyOf]
      split <;> rfl
    · rw [copyOf]
      split
      next => rfl
      next hne => exact parent_copyId h hlive hb hx hne
  case driven => exact hdriven
  case drives =>
    intro p q hp hq
    rw [← h'.links.mirror]
    exact hdriven p q hp hq
  case apart =>
    intro p' q' hlink
    rw [← h'.links.mirror, or_self] at hlink
    rw [inside_cloned_iff h hlive hparent h', inside_cloned_iff h hlive hparent h']
    exact apart_cloned h hlive hlink

variable [Scalar α] {e : Editor α}

/-- Any block but the root is copied into any composite, under any free name. -/
theorem Built.clone_total (h : e.diagram.Built) (hlive : (e.diagram.block? source).isSome)
    (hroot : source ≠ e.diagram.root) {composite : Block α}
    (hparent : e.diagram.block? parent = some composite) (hcomposite : composite.isComposite = true)
    (hname : name ≠ "") (hfree : name ∉ composite.takenNames) :
    ∃ copy d', Edit.clone source parent name e = .ok (copy source) { e with diagram := d' } ∧
      e.diagram.Cloned d' source parent name copy := by
  refine ⟨e.diagram.copyId source, _, ?_,
    h.wellFormed.cloned hlive hroot hparent hcomposite hname hfree⟩
  let blocks := e.diagram.copies source parent name
  have hadopt : Edit.adopt parent name blocks e = .ok (e.diagram.copyId source source)
      { e with diagram := e.diagram.adopted parent name blocks } := by
    rw [copyId_source h.wellFormed hlive]
    exact Edit.adopt_apply (by rw [hparent]; rfl)
  simp only [Edit.clone, EStateM.bind_eq_ok, Edit.diagram_eq_ok, EStateM.lift_eq_ok,
    EStateM.ite_eq_ok, EStateM.throw_eq_ok, false_and, exists_false, and_false, or_false, false_or]
  exact ⟨_, _, ⟨rfl, rfl⟩, hroot, composite, e, ⟨block_eq hparent, rfl⟩, hcomposite,
    by simp [hname, hfree], hadopt⟩

/-- A composite that drives itself, with a copy of it put inside it. -/
theorem clone_self_driven : ∃ (e : Editor ℚ) (copy : BlockId → BlockId) (d' : Diagram ℚ),
    e.diagram.Built ∧ e.diagram.incoming (.input ⟨1⟩ 0) = some (.output ⟨1⟩ 0) ∧
      Edit.clone ⟨1⟩ ⟨1⟩ "copy" e = .ok (copy ⟨1⟩) { e with diagram := d' } ∧
        e.diagram.Cloned d' ⟨1⟩ ⟨1⟩ "copy" copy := by
  let e : Editor ℚ := performAll { diagram := empty "model" [] [] }
    [.addComposite ⟨0⟩ "box" "Box" ["IN1"] ["OUT1"], .addBlock ⟨1⟩ "neg" .negator,
      .connect ⟨1⟩ "IN1" "neg" none none, .connect ⟨1⟩ "neg" "OUT1" none none,
      .connect ⟨0⟩ "box" "box" none none]
  have hbuilt : e.diagram.Built := by
    refine .performAll (.empty "model" [] []) fun call hcall e => ?_
    simp only [List.mem_cons, List.not_mem_nil, or_false] at hcall
    obtain rfl | rfl | rfl | rfl | rfl := hcall <;> exact trivial
  obtain ⟨composite, hparent⟩ : ∃ composite, e.diagram.block? ⟨1⟩ = some composite :=
    Option.isSome_iff_exists.mp (by decide +kernel)
  have hcomposite : (e.diagram.block? ⟨1⟩).map Block.isComposite = some true := by decide +kernel
  have htaken : (e.diagram.block? ⟨1⟩).map Block.takenNames = some ["neg", "IN1", "OUT1"] := by
    decide +kernel
  rw [hparent, Option.map_some, Option.some.injEq] at hcomposite htaken
  obtain ⟨copy, d', hclone, hcloned⟩ := hbuilt.clone_total (by rw [hparent]; rfl : _ = true)
    (by decide +kernel) hparent hcomposite (by decide +kernel : "copy" ≠ "")
    (by rw [htaken]; decide +kernel)
  exact ⟨e, copy, d', hbuilt, by decide +kernel, hclone, hcloned⟩

end Diagram

end CausalBlocks
