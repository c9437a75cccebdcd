import CausalBlocks.Proofs.Diagram.Editing
import CausalBlocks.Proofs.Diagram.Hierarchy

/-!
# Well-formed diagrams and new blocks

In a well-formed diagram the blocks form a tree below the root, and links are kept
at both ends and run inside one composite. It stays so when a composite takes in
new blocks that are a tree with links of their own.
-/

namespace CausalBlocks

variable {α : Type}

/-! ### Levels -/

theorem levelAt_eq (place : BlockId → Option Place) (inner : Side) (p : PortId) :
    levelAt place inner p =
      if p.side = inner then if compositeAt place p.block then some p.block else none
      else parentAt place p.block := by
  rw [levelAt, compositeAt, parentAt]
  cases place p.block with
  | none => simp
  | some here => rfl

/-- The level of a link depends on the parents and on which blocks are composites. -/
theorem levelAt_congr {place place' : BlockId → Option Place} {p : PortId}
    (hcomposite : compositeAt place' p.block = compositeAt place p.block)
    (hparent : parentAt place' p.block = parentAt place p.block) (inner : Side) :
    levelAt place' inner p = levelAt place inner p := by
  rw [levelAt_eq, levelAt_eq, hcomposite, hparent]

theorem isSome_of_levelAt {place : BlockId → Option Place} {inner : Side} {p : PortId}
    {level : BlockId} (h : levelAt place inner p = some level) : (place p.block).isSome := by
  obtain ⟨here, hhere, _⟩ := Option.bind_eq_some_iff.mp h
  rw [hhere]
  rfl

namespace Wired

variable {merge : BlockId → BlockId} {place place' : BlockId → Option Place}
  {incoming incoming' : PortId → Option PortId} {outgoing outgoing' : PortId → List PortId}

/-- Only the levels of linked ports matter. -/
theorem relevel {merge' : BlockId → BlockId} (h : Wired merge place incoming outgoing)
    (hlevel : ∀ p q l l', incoming q = some p → levelAt place .input p = some l →
      levelAt place .output q = some l' → merge l = merge l' → ∃ m m',
        levelAt place' .input p = some m ∧ levelAt place' .output q = some m' ∧
          merge' m = merge' m') :
    Wired merge' place' incoming outgoing where
  mirror := h.mirror
  nodup := h.nodup
  level := by
    intro p q hpq
    obtain ⟨l, l', hp, hq, hmerge⟩ := h.level p q hpq
    exact hlevel p q l l' hpq hp hq hmerge

/-- Links inside one composite still are when two composites count as one. -/
theorem merged (h : Wired id place incoming outgoing) (inner outer : BlockId) :
    Wired (fun l => if l = inner then outer else l) place incoming outgoing := by
  refine h.relevel fun p q l l' _ hl hl' hmerge => ⟨l, l', hl, hl', ?_⟩
  rw [show l = l' from hmerge]

theorem live_of_incoming (h : Wired merge place incoming outgoing) {p q : PortId}
    (hpq : incoming q = some p) : (place p.block).isSome ∧ (place q.block).isSome := by
  obtain ⟨l, l', hp, hq, _⟩ := h.level p q hpq
  exact ⟨isSome_of_levelAt hp, isSome_of_levelAt hq⟩

/-- Links among blocks of two kinds, none between them. -/
theorem union {size : Nat} (h : Wired merge place incoming outgoing)
    (h' : Wired merge place' incoming' outgoing')
    (hold : ∀ x, (place x).isSome → x.index < size) (hnew : ∀ x, (place' x).isSome → size ≤ x.index) :
    Wired merge (fun x => if x.index < size then place x else place' x)
      (fun q => if q.block.index < size then incoming q else incoming' q)
      fun p => if p.block.index < size then outgoing p else outgoing' p where
  mirror := by
    intro p q
    have hpq := h.mirror p q
    have hpq' := h'.mirror p q
    -- a link has both ends among blocks of one kind
    have hlive : incoming q = some p → p.block.index < size ∧ q.block.index < size := fun hlink =>
      ⟨hold _ (h.live_of_incoming hlink).1, hold _ (h.live_of_incoming hlink).2⟩
    have hlive' : incoming' q = some p → size ≤ p.block.index ∧ size ≤ q.block.index := fun hlink =>
      ⟨hnew _ (h'.live_of_incoming hlink).1, hnew _ (h'.live_of_incoming hlink).2⟩
    grind
  nodup := by
    intro p
    have := h.nodup p
    have := h'.nodup p
    grind
  level := by
    intro p q hpq
    by_cases hq : q.block.index < size
    · rw [if_pos hq] at hpq
      have hp : p.block.index < size := hold _ (h.live_of_incoming hpq).1
      obtain ⟨l, l', hlevel, hlevel', hmerge⟩ := h.level p q hpq
      exact ⟨l, l', by grind [levelAt], by grind [levelAt], hmerge⟩
    · rw [if_neg hq] at hpq
      have hp : size ≤ p.block.index := hnew _ (h'.live_of_incoming hpq).1
      obtain ⟨l, l', hlevel, hlevel', hmerge⟩ := h'.level p q hpq
      exact ⟨l, l', by grind [levelAt], by grind [levelAt], hmerge⟩

end Wired

namespace Diagram

/-- The blocks form a tree below the root, and the links are kept at both ends
and run inside one composite. -/
structure WellFormed (d : Diagram α) : Prop where
  top : compositeAt d.place? ⟨0⟩ = true ∧ parentAt d.place? ⟨0⟩ = none
  tree : Nested (· = ⟨0⟩) d.place?
  links : Wired id d.place? d.incoming d.outgoing

/-- A block with a parent is listed by it. -/
theorem WellFormed.listed {d : Diagram α} (h : d.WellFormed) {id up : BlockId}
    (hup : parentAt d.place? id = some up) : id ∈ childrenAt d.place? up := by
  refine h.tree.mem_of_parentAt ?_ hup
  rintro rfl
  rw [h.top.2] at hup
  cases hup

/-- Blocks alone at the places from some place on. -/
def alone (size : Nat) (blocks : List (Block α)) : Diagram α :=
  ⟨Array.replicate size none ++ (blocks.map some).toArray⟩

variable {d : Diagram α} {size : Nat} {blocks : List (Block α)} {x parent : BlockId} {name : String}

theorem block?_alone : (alone size blocks).block? x =
    if x.index < size then none else blocks[x.index - size]? := by
  simp only [alone, block?, Array.getElem?_append, Array.size_replicate]
  split
  next h => simp [h]
  next =>
    rw [List.getElem?_toArray, List.getElem?_map]
    cases blocks[x.index - size]? <;> rfl

theorem block?_appended :
    ({ d with blocks := d.blocks ++ (blocks.map some).toArray } : Diagram α).block? x =
      if x.index < d.blocks.size then d.block? x else (alone d.blocks.size blocks).block? x := by
  rw [block?_append, block?_alone]
  grind

/-- The view of a diagram with new blocks beside it. -/
def beside (d : Diagram α) (blocks : List (Block α)) (x : BlockId) : Option Place :=
  if x.index < d.blocks.size then d.place? x else (alone d.blocks.size blocks).place? x

theorem size_adopted : (d.adopted parent name blocks).blocks.size = d.blocks.size + blocks.length := by
  simp only [adopted, size_modifyBlock, Array.size_append, List.size_toArray, List.length_map]

theorem place?_adopted : (d.adopted parent name blocks).place? =
    changed (d.beside blocks) parent fun p => p.enter ⟨d.blocks.size⟩ name := by
  rw [adopted, place?_modifyBlock (g := fun p => p.enter ⟨d.blocks.size⟩ name) fun _ => rfl]
  funext x
  have happended : ∀ x,
      ({ d with blocks := d.blocks ++ (blocks.map some).toArray } : Diagram α).place? x =
        if x.index < d.blocks.size then d.place? x else (alone d.blocks.size blocks).place? x := by
    intro x
    rw [place?, block?_appended]
    split <;> rfl
  rw [changed, happended, beside]

theorem port?_adopted (q : PortId) : (d.adopted parent name blocks).port? q =
    if q.block.index < d.blocks.size then d.port? q else (alone d.blocks.size blocks).port? q := by
  rw [adopted, port?_modifyBlock_same fun _ side => by cases side <;> rfl, port?, block?_appended]
  split <;> rfl

theorem incoming_adopted : (d.adopted parent name blocks).incoming = fun q =>
    if q.block.index < d.blocks.size then d.incoming q
    else (alone d.blocks.size blocks).incoming q := by
  funext q
  rw [incoming, port?_adopted]
  split <;> rfl

theorem outgoing_adopted : (d.adopted parent name blocks).outgoing = fun p =>
    if p.block.index < d.blocks.size then d.outgoing p
    else (alone d.blocks.size blocks).outgoing p := by
  funext q
  rw [outgoing, port?_adopted]
  split <;> rfl

theorem lt_size_of_place? (hx : (d.place? x).isSome) : x.index < d.blocks.size := by
  obtain ⟨_, hx⟩ := Option.isSome_iff_exists.mp hx
  obtain ⟨_, hx, _⟩ := place?_eq_some hx
  exact lt_size_of_block? hx

theorem size_le_of_place?_alone (hx : ((alone size blocks).place? x).isSome) :
    size ≤ x.index := by
  rw [place?, block?_alone] at hx
  grind

theorem beside_eq {b : Block α} (hb : d.block? x = some b) : d.beside blocks x = some b.place := by
  rw [← place?_eq hb]
  exact if_pos (lt_size_of_block? hb)

theorem beside_first {b : Block α} (hb : blocks[0]? = some b) :
    d.beside blocks ⟨d.blocks.size⟩ = some b.place := by
  have hfirst : (alone d.blocks.size blocks).block? ⟨d.blocks.size⟩ = some b := by
    rw [block?_alone]
    simpa using hb
  rw [← place?_eq hfirst]
  exact if_neg (Nat.lt_irrefl _)

/-- Two trees side by side, before the composite takes in the new one. -/
theorem WellFormed.nested_beside (h : d.WellFormed) (hsize : 0 < d.blocks.size)
    (htree : Nested (· = ⟨d.blocks.size⟩) (alone d.blocks.size blocks).place?) :
    Nested (fun x => x = ⟨0⟩ ∨ x = ⟨d.blocks.size⟩) (d.beside blocks) := by
  refine (h.tree.union htree (fun _ => lt_size_of_place?)
    fun _ => size_le_of_place?_alone).congr fun x => ?_
  obtain ⟨index⟩ := x
  simp only [BlockId.mk.injEq]
  split <;> omega

/-- A composite takes in a tree of new blocks with links among them. -/
theorem WellFormed.adopted (h : d.WellFormed)
    (htree : Nested (· = ⟨d.blocks.size⟩) (alone d.blocks.size blocks).place?)
    (hlinks : Wired id (alone d.blocks.size blocks).place? (alone d.blocks.size blocks).incoming
      (alone d.blocks.size blocks).outgoing)
    (htop : ∃ b, blocks[0]? = some b ∧ b.parent = some parent ∧ b.name = name)
    {composite : Block α} (hparent : d.block? parent = some composite)
    (hcomposite : composite.isComposite = true) (hname : name ≠ "")
    (hfree : name ∉ composite.takenNames) : (d.adopted parent name blocks).WellFormed := by
  have hlt := lt_size_of_block? hparent
  have hsize : 0 < d.blocks.size := Nat.lt_of_le_of_lt (Nat.zero_le _) hlt
  obtain ⟨b, hb, hbparent, hbname⟩ := htop
  have hwhole : d.beside blocks parent = some composite.place := beside_eq hparent
  have hfirst : d.beside blocks ⟨d.blocks.size⟩ = some b.place := beside_first hb
  have hcomposites : ∀ x, compositeAt (d.adopted parent name blocks).place? x =
      compositeAt (d.beside blocks) x := fun x => by
    rw [place?_adopted]
    exact compositeAt_changed fun _ => rfl
  have hparents : ∀ x, parentAt (d.adopted parent name blocks).place? x =
      parentAt (d.beside blocks) x := fun x => by
    rw [place?_adopted]
    exact parentAt_changed fun _ => rfl
  constructor
  case top =>
    have hroot : d.beside blocks ⟨0⟩ = d.place? ⟨0⟩ := if_pos hsize
    rw [hcomposites, hparents, compositeAt, parentAt, hroot]
    exact h.top
  case tree =>
    rw [place?_adopted]
    refine (h.nested_beside hsize htree).put ?_ ?_ ?_ ?_ hlt hname ?_ ?_
    · simp only [BlockId.mk.injEq]
      omega
    · rw [parentAt, hfirst]
      exact hbparent
    · rw [nameAt, hfirst]
      exact congrArg some hbname
    · rw [compositeAt, hwhole]
      exact hcomposite
    · rw [portNamesAt, hwhole]
      exact fun hmem => hfree (List.mem_append_right _ hmem)
    · rw [indexAt, hwhole]
      exact fun hmem => hfree (List.mem_append_left _ hmem)
  case links =>
    rw [incoming_adopted, outgoing_adopted]
    have hunion := h.links.union hlinks (fun _ => lt_size_of_place?) fun _ => size_le_of_place?_alone
    -- entering a child changes neither parents nor kinds, so all levels stay
    refine hunion.relevel fun p q l l' _ hp hq hlevel => ?_
    refine ⟨l, l', ?_, ?_, hlevel⟩
    · rwa [levelAt_congr (hcomposites _) (hparents _)]
    · rwa [levelAt_congr (hcomposites _) (hparents _)]

section Make

variable (size : Nat) (name : String) (operator : Operator α) (parent : Option BlockId)
  (inputs outputs : List String)

theorem place?_make : (alone size [.make name operator parent inputs outputs]).place? = fun x =>
    if x = ⟨size⟩ then some (Block.make name operator parent inputs outputs : Block α).place
    else none := by
  funext x
  obtain ⟨index⟩ := x
  rw [place?, block?_alone, List.getElem?_singleton]
  grind

/-- The ports of a new block have no links. -/
theorem port?_make {q : PortId} {p : Port α}
    (h : (alone size [.make name operator parent inputs outputs]).port? q = some p) :
    p.incoming = none ∧ p.outgoing = [] := by
  obtain ⟨b, hb, hp⟩ := block?_of_port? h
  rw [block?_alone, List.getElem?_singleton] at hb
  have hmake : b = .make name operator parent inputs outputs := by grind
  subst hmake
  cases hside : q.side <;>
    simp only [hside, Block.make, Block.ports, List.getElem?_map, Option.map_eq_some_iff] at hp <;>
    · obtain ⟨_, _, rfl⟩ := hp
      exact ⟨rfl, rfl⟩

/-- A new block is a tree of its own. -/
theorem nested_make : Nested (· = ⟨size⟩)
    (alone size [.make name operator parent inputs outputs]).place? := by
  have hplace := place?_make size name operator parent inputs outputs
  have hchildren : ∀ x,
      childrenAt (alone size [.make name operator parent inputs outputs]).place? x = [] := by
    intro x
    rw [hplace, childrenAt]
    split <;> rfl
  have hindex : ∀ x,
      indexAt (alone size [.make name operator parent inputs outputs]).place? x = [] := by
    intro x
    rw [hplace, indexAt]
    split <;> rfl
  constructor
  case parent =>
    intro x hx hx'
    rw [hplace] at hx
    simp [hx'] at hx
  all_goals simp [hchildren, hindex]

theorem incoming_make (q : PortId) :
    (alone size [.make name operator parent inputs outputs]).incoming q = none := by
  cases hq : (alone size [.make name operator parent inputs outputs]).port? q with
  | none => rw [incoming, hq]; rfl
  | some p => rw [incoming_eq hq]; exact (port?_make _ _ _ _ _ _ hq).1

/-- A new block has no links. -/
theorem wired_make : Wired id (alone size [.make name operator parent inputs outputs]).place?
    (alone size [.make name operator parent inputs outputs]).incoming
    (alone size [.make name operator parent inputs outputs]).outgoing := by
  have houtgoing : ∀ p,
      (alone size [.make name operator parent inputs outputs]).outgoing p = [] := by
    intro p
    cases hp : (alone size [.make name operator parent inputs outputs]).port? p with
    | none => rw [outgoing, hp]; rfl
    | some port => rw [outgoing_eq hp]; exact (port?_make _ _ _ _ _ _ hp).2
  constructor <;> simp [incoming_make, houtgoing]

end Make

theorem wellFormed_empty (name : String) (inputs outputs : List String) :
    (empty name inputs outputs : Diagram α).WellFormed := by
  -- an empty diagram is its root alone
  have halone : (empty name inputs outputs : Diagram α) =
      alone 0 [.make name (.composite "Diagram") none inputs outputs] := rfl
  rw [halone]
  refine ⟨?_, nested_make 0 name _ none inputs outputs, wired_make 0 name _ none inputs outputs⟩
  rw [place?_make]
  exact ⟨rfl, rfl⟩

end Diagram

theorem Edit.insert_wellFormed {e e' : Editor α} {parent id : BlockId} {name : String}
    {operator : Operator α} {inputs outputs : List String} (h : e.diagram.WellFormed)
    (hinsert : insert parent name operator inputs outputs e = .ok id e') :
    e'.diagram.WellFormed := by
  obtain ⟨composite, name', hparent, hcomposite, ⟨hname, _⟩, hfree, hdiagram⟩ := insert_ok hinsert
  rw [hdiagram]
  exact h.adopted (Diagram.nested_make _ _ _ _ _ _) (Diagram.wired_make _ _ _ _ _ _)
    ⟨_, rfl, rfl, rfl⟩ hparent hcomposite hname hfree

end CausalBlocks
