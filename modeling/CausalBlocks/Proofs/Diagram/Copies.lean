import CausalBlocks.Proofs.Diagram.Descendants
import CausalBlocks.Proofs.Diagram.Growth

/-!
# Copies

The copied part gets new names, one for each of its blocks. A tree stays a tree
under new names, and the links inside it stay links. The links of the top block
with its siblings are the only ones that leave the part at the top, and they are
left out at both ends.
-/

namespace CausalBlocks

/-- New names for a block and everything below it, parents before children. -/
structure Renames (place : BlockId → Option Place) (source : BlockId)
    (rename : BlockId → Option BlockId) : Prop where
  injective : ∀ x y z, rename x = some z → rename y = some z → x = y
  live : ∀ x z, rename x = some z → (place x).isSome
  children : ∀ x y z, rename x = some z → y ∈ childrenAt place x → (rename y).isSome
  parent : ∀ x z, rename x = some z → x ≠ source →
    ∃ up, x ∈ childrenAt place up ∧ (rename up).isSome
  above : ∀ up, source ∈ childrenAt place up → rename up = none
  order : ∀ up x up' x', x ∈ childrenAt place up → rename up = some up' → rename x = some x' →
    up'.index < x'.index

/-- What is listed inside the part is not the top block. -/
theorem Renames.ne_source {place : BlockId → Option Place} {source up x up' : BlockId}
    {rename : BlockId → Option BlockId} (hr : Renames place source rename)
    (hup : rename up = some up') (hmem : x ∈ childrenAt place up) : x ≠ source := by
  rintro rfl
  rw [hr.above up hmem] at hup
  cases hup

/-- The place of a copy. -/
def Place.copy (p : Place) (rename : BlockId → Option BlockId) : Place :=
  { p with
    parent := p.parent.bind rename
    children := p.children.filterMap rename
    childIndex := p.childIndex.filterMap fun (name, child) => (rename child).map (name, ·) }

/-- The view of the copies of a block and everything below it. -/
structure Copied (source : BlockId) (rename : BlockId → Option BlockId) (parent : BlockId)
    (name : String) (place place' : BlockId → Option Place) : Prop where
  only : ∀ x', (place' x').isSome → ∃ x, rename x = some x'
  copy : ∀ x x', rename x = some x' → place' x' =
    (place x).map fun p => if x = source then (p.copy rename).moved parent name else p.copy rename

namespace Copied

variable {source parent x x' : BlockId} {rename : BlockId → Option BlockId} {name : String}
  {place place' : BlockId → Option Place} {loose : BlockId → Prop}

section Reading

variable (h : Copied source rename parent name place place') (hx : rename x = some x')
include h hx

theorem childrenAt_copy : childrenAt place' x' = (childrenAt place x).filterMap rename := by
  rw [childrenAt, h.copy x x' hx, childrenAt]
  cases place x with
  | none => rfl
  | some p => by_cases hs : x = source <;> simp [hs, Place.copy, Place.moved]

theorem indexAt_copy : indexAt place' x' =
    (indexAt place x).filterMap fun (name, child) => (rename child).map (name, ·) := by
  rw [indexAt, h.copy x x' hx, indexAt]
  cases place x with
  | none => rfl
  | some p => by_cases hs : x = source <;> simp [hs, Place.copy, Place.moved]

theorem compositeAt_copy : compositeAt place' x' = compositeAt place x := by
  rw [compositeAt, h.copy x x' hx, compositeAt]
  cases place x with
  | none => rfl
  | some p => by_cases hs : x = source <;> simp [hs, Place.copy, Place.moved]

theorem portNamesAt_copy : portNamesAt place' x' = portNamesAt place x := by
  rw [portNamesAt, h.copy x x' hx, portNamesAt]
  cases place x with
  | none => rfl
  | some p => by_cases hs : x = source <;> simp [hs, Place.copy, Place.moved]

theorem nameAt_copy (hne : x ≠ source) : nameAt place' x' = nameAt place x := by
  rw [nameAt, h.copy x x' hx, nameAt]
  cases place x <;> simp [hne, Place.copy]

theorem parentAt_copy (hne : x ≠ source) : parentAt place' x' = (parentAt place x).bind rename := by
  rw [parentAt, h.copy x x' hx, parentAt]
  cases place x <;> simp [hne, Place.copy]

end Reading

theorem mem_childrenAt (h : Copied source rename parent name place place')
    {up' : BlockId} (hmem : x' ∈ childrenAt place' up') :
    ∃ up x, rename up = some up' ∧ rename x = some x' ∧ x ∈ childrenAt place up := by
  have hlive : (place' up').isSome := by
    rw [childrenAt] at hmem
    cases hp : place' up' <;> simp_all
  obtain ⟨up, hup⟩ := h.only up' hlive
  rw [h.childrenAt_copy hup] at hmem
  obtain ⟨x, hx, hrename⟩ := List.mem_filterMap.mp hmem
  exact ⟨up, x, hup, hrename, hx⟩

theorem mem_indexAt_copy (h : Copied source rename parent name place place') {up up' : BlockId}
    (hup : rename up = some up') {name' : String} :
    (name', x') ∈ indexAt place' up' ↔
      ∃ x, (name', x) ∈ indexAt place up ∧ rename x = some x' := by
  rw [h.indexAt_copy hup, List.mem_filterMap]
  constructor
  · rintro ⟨⟨n, c⟩, hentry, hcopy⟩
    simp only [Option.map_eq_some_iff, Prod.mk.injEq] at hcopy
    obtain ⟨_, hx, rfl, rfl⟩ := hcopy
    exact ⟨c, hentry, hx⟩
  · rintro ⟨x, hentry, hx⟩
    exact ⟨(name', x), hentry, by simp [hx]⟩

/-- A copy, or a place that holds nothing. -/
theorem cases_live (h : Copied source rename parent name place place') (x' : BlockId) :
    (∃ x, rename x = some x') ∨ place' x' = none := by
  cases hp : place' x' with
  | none => exact .inr rfl
  | some p => exact .inl (h.only x' (by rw [hp]; rfl))

theorem map_fst_filterMap_sublist (entries : List (String × BlockId)) :
    (entries.filterMap fun (name, child) => (rename child).map (name, ·)).map Prod.fst
      |>.Sublist (entries.map Prod.fst) := by
  induction entries with
  | nil => exact .slnil
  | cons entry rest ih =>
      obtain ⟨name, child⟩ := entry
      cases hchild : rename child with
      | none => simpa [List.filterMap_cons, hchild] using ih.cons name
      | some child' => simpa [List.filterMap_cons, hchild] using ih.cons_cons name

/-- Copies of a tree are a tree. -/
theorem nested (h : Copied source rename parent name place place') (hplace : Nested loose place)
    (hr : Renames place source rename) {top : BlockId} (htop : rename source = some top) :
    Nested (· = top) place' where
  parent := by
    intro x' hx' hne
    obtain ⟨x, hx⟩ := h.only x' hx'
    obtain ⟨up, hmem, hup⟩ := hr.parent x x' hx (by rintro rfl; simp_all)
    obtain ⟨up', hup⟩ := Option.isSome_iff_exists.mp hup
    refine ⟨up', ?_⟩
    rw [h.childrenAt_copy hup]
    exact List.mem_filterMap.mpr ⟨x, hmem, hx⟩
  child := by
    intro up' x' hmem
    obtain ⟨up, x, hup, hx, hmem⟩ := h.mem_childrenAt hmem
    obtain ⟨_, hparent, hcomposite, _⟩ := hplace.child up x hmem
    have hne := hr.ne_source hup hmem
    refine ⟨?_, ?_, ?_, hr.order up x up' x' hmem hup hx⟩
    · rintro rfl
      exact hne (hr.injective x source x' hx htop)
    · rw [h.parentAt_copy hx hne, hparent, Option.bind_some, hup]
    · rwa [h.compositeAt_copy hup]
  nodup := by
    intro up'
    rcases h.cases_live up' with ⟨up, hup⟩ | hnone
    · rw [h.childrenAt_copy hup]
      exact (hplace.nodup up).filterMap fun x y z => hr.injective x y z
    · rw [childrenAt, hnone]
      exact .nil
  index := by
    intro up' name' x'
    rcases h.cases_live up' with ⟨up, hup⟩ | hnone
    · rw [h.mem_indexAt_copy hup, h.childrenAt_copy hup, List.mem_filterMap]
      constructor
      · rintro ⟨x, hentry, hx⟩
        obtain ⟨hmem, hname⟩ := (hplace.index up name' x).mp hentry
        exact ⟨⟨x, hmem, hx⟩, by rwa [h.nameAt_copy hx (hr.ne_source hup hmem)]⟩
      · rintro ⟨⟨x, hmem, hx⟩, hname⟩
        rw [h.nameAt_copy hx (hr.ne_source hup hmem)] at hname
        exact ⟨x, (hplace.index up name' x).mpr ⟨hmem, hname⟩, hx⟩
    · simp [indexAt, childrenAt, hnone]
  names := by
    intro up'
    rcases h.cases_live up' with ⟨up, hup⟩ | hnone
    · rw [h.indexAt_copy hup]
      exact (hplace.names up).sublist (map_fst_filterMap_sublist _)
    · simp [indexAt, hnone]
  free := by
    intro up' name' x' hentry
    rcases h.cases_live up' with ⟨up, hup⟩ | hnone
    · obtain ⟨x, hentry, _⟩ := (h.mem_indexAt_copy hup).mp hentry
      rw [h.portNamesAt_copy hup]
      exact hplace.free up name' x hentry
    · simp [indexAt, hnone] at hentry

end Copied

/-! ### Links of copies -/

theorem Side.ne_input_iff {side : Side} : side ≠ .input ↔ side = .output := by
  cases side <;> simp

theorem Side.ne_output_iff {side : Side} : side ≠ .output ↔ side = .input := by
  cases side <;> simp

/-- The new name of a port. -/
def renamePort (rename : BlockId → Option BlockId) (p : PortId) : Option PortId :=
  (rename p.block).map fun block => { p with block }

section RenamePort

variable {rename : BlockId → Option BlockId} {p p' q : PortId}

theorem renamePort_eq_some :
    renamePort rename p = some p' ↔ rename p.block = some p'.block ∧ p'.side = p.side ∧
      p'.index = p.index := by
  obtain ⟨block, side, index⟩ := p
  obtain ⟨block', side', index'⟩ := p'
  simp only [renamePort, Option.map_eq_some_iff, PortId.mk.injEq]
  grind

theorem renamePort_injective {place : BlockId → Option Place} {source : BlockId}
    (hr : Renames place source rename) (hp : renamePort rename p = some p')
    (hq : renamePort rename q = some p') : p = q := by
  rw [renamePort_eq_some] at hp hq
  have := hr.injective p.block q.block p'.block hp.1 hq.1
  obtain ⟨block, side, index⟩ := p
  obtain ⟨block', side', index'⟩ := q
  simp only [PortId.mk.injEq]
  grind

end RenamePort

/-- The links of the copies: those of the originals under new names, but for those
beside the top block. -/
structure CopiedLinks (source : BlockId) (rename : BlockId → Option BlockId)
    (incoming incoming' : PortId → Option PortId) (outgoing outgoing' : PortId → List PortId) :
    Prop where
  only : ∀ q', (incoming' q').isSome ∨ outgoing' q' ≠ [] → ∃ q, renamePort rename q = some q'
  incoming_copy : ∀ q q', renamePort rename q = some q' → incoming' q' =
    if q.block = source ∧ q.side = .input then none else (incoming q).bind (renamePort rename)
  outgoing_copy : ∀ p p', renamePort rename p = some p' → outgoing' p' =
    if p.block = source ∧ p.side = .output then []
    else (outgoing p).filterMap (renamePort rename)

namespace CopiedLinks

variable {source parent : BlockId} {rename : BlockId → Option BlockId} {name : String}
  {place place' : BlockId → Option Place} {loose : BlockId → Prop}
  {incoming incoming' : PortId → Option PortId} {outgoing outgoing' : PortId → List PortId}

section Level

variable (hplace : Nested loose place) (hr : Renames place source rename) {inner : Side}
  {p p' : PortId} {up level : BlockId}
include hplace hr

/-- The parent of something renamed, but for the top block, is renamed too. -/
theorem rename_parent {x x' : BlockId} (hx : rename x = some x') (hne : x ≠ source)
    (hparent : parentAt place x = some up) : (rename up).isSome := by
  obtain ⟨up', hmem, hup'⟩ := hr.parent x x' hx hne
  have := (hplace.child up' x hmem).2.1
  rw [hparent, Option.some.injEq] at this
  rwa [this]

/-- In the part, only the links beside the top block run in its parent. -/
theorem beside_of_level (hsource : source ∈ childrenAt place up)
    (hp : rename p.block = some p'.block) (hlevel : levelAt place inner p = some up) :
    p.block = source ∧ p.side ≠ inner := by
  have habove := hr.above up hsource
  rw [levelAt_eq] at hlevel
  split at hlevel
  · split at hlevel
    · rw [Option.some.injEq] at hlevel
      rw [hlevel, habove] at hp
      cases hp
    · cases hlevel
  next hside =>
    refine ⟨Classical.byContradiction fun hne => ?_, hside⟩
    have := rename_parent hplace hr hp hne hlevel
    rw [habove] at this
    cases this

/-- Other links run in the copy of the composite that they ran in. -/
theorem level_copy (hcopied : Copied source rename parent name place place')
    (hp : renamePort rename p = some p') (hbeside : ¬(p.block = source ∧ p.side ≠ inner))
    (hlevel : levelAt place inner p = some level) :
    ∃ level', rename level = some level' ∧ levelAt place' inner p' = some level' := by
  obtain ⟨hblock, hside, _⟩ := renamePort_eq_some.mp hp
  rw [levelAt_eq] at hlevel
  rw [levelAt_eq, hside, hcopied.compositeAt_copy hblock]
  split at hlevel
  next hinner =>
    split at hlevel
    next hcomposite =>
      cases hlevel
      exact ⟨p'.block, hblock, by rw [if_pos hinner, if_pos hcomposite]⟩
    next => cases hlevel
  next hinner =>
    have hne : p.block ≠ source := fun heq => hbeside ⟨heq, hinner⟩
    obtain ⟨level', hlevel'⟩ :=
      Option.isSome_iff_exists.mp (rename_parent hplace hr hblock hne hlevel)
    refine ⟨level', hlevel', ?_⟩
    rw [if_neg hinner, hcopied.parentAt_copy hblock hne, hlevel, Option.bind_some, hlevel']

/-- A link beside the top block joins it to a block outside the part, or to
itself. So if both ends are in the part, they are both beside it or both not. -/
theorem beside_iff (hlinks : Wired id place incoming outgoing) (hloose : ¬loose source)
    {q q' : PortId} (hpq : incoming q = some p) (hp : renamePort rename p = some p')
    (hq : renamePort rename q = some q') :
    q.block = source ∧ q.side = .input ↔ p.block = source ∧ p.side = .output := by
  obtain ⟨l, l', hl, hl', rfl⟩ := hlinks.level p q hpq
  have hpblock := (renamePort_eq_some.mp hp).1
  have hqblock := (renamePort_eq_some.mp hq).1
  -- the top block is in a composite, which is not part of what is copied
  have hparent : ∀ x', rename source = some x' → ∃ up, source ∈ childrenAt place up ∧
      parentAt place source = some up := by
    intro x' hx
    obtain ⟨up, hup⟩ := hplace.parent source (hr.live source x' hx) hloose
    exact ⟨up, hup, (hplace.child up source hup).2.1⟩
  constructor
  · rintro ⟨heq, hside⟩
    rw [heq] at hqblock
    obtain ⟨up, hsource, hup⟩ := hparent _ hqblock
    rw [levelAt_eq, hside, heq, hup] at hl'
    cases hl'
    obtain ⟨hblock, hside⟩ := beside_of_level hplace hr hsource hpblock hl
    exact ⟨hblock, Side.ne_input_iff.mp hside⟩
  · rintro ⟨heq, hside⟩
    rw [heq] at hpblock
    obtain ⟨up, hsource, hup⟩ := hparent _ hpblock
    rw [levelAt_eq, hside, heq, hup] at hl
    cases hl
    obtain ⟨hblock, hside⟩ := beside_of_level hplace hr hsource hqblock hl'
    exact ⟨hblock, Side.ne_output_iff.mp hside⟩

end Level

/-- A link between copies is a copy of a link. -/
theorem incoming_eq_some (h : CopiedLinks source rename incoming incoming' outgoing outgoing')
    {p' q' : PortId} (hpq : incoming' q' = some p') : ∃ p q, renamePort rename p = some p' ∧
      renamePort rename q = some q' ∧ incoming q = some p ∧
        ¬(q.block = source ∧ q.side = .input) := by
  obtain ⟨q, hq⟩ := h.only q' (.inl (by rw [hpq]; rfl))
  rw [h.incoming_copy q q' hq] at hpq
  split at hpq
  · cases hpq
  next hbeside =>
    obtain ⟨p, hpq, hp⟩ := Option.bind_eq_some_iff.mp hpq
    exact ⟨p, q, hp, hq, hpq, hbeside⟩

/-- The links of copies are links. -/
theorem wired (h : CopiedLinks source rename incoming incoming' outgoing outgoing')
    (hcopied : Copied source rename parent name place place') (hplace : Nested loose place)
    (hlinks : Wired id place incoming outgoing) (hr : Renames place source rename)
    (hloose : ¬loose source) : Wired id place' incoming' outgoing' where
  mirror := by
    intro p' q'
    constructor
    · intro hpq
      obtain ⟨p, q, hp, hq, hpq, hbeside⟩ := h.incoming_eq_some hpq
      rw [beside_iff hplace hr hlinks hloose hpq hp hq] at hbeside
      rw [h.outgoing_copy p p' hp, if_neg hbeside]
      exact List.mem_filterMap.mpr ⟨q, (hlinks.mirror p q).mp hpq, hq⟩
    · intro hpq
      obtain ⟨p, hp⟩ := h.only p' (.inr (List.ne_nil_of_mem hpq))
      rw [h.outgoing_copy p p' hp] at hpq
      split at hpq
      · cases hpq
      next hbeside =>
        obtain ⟨q, hpq, hq⟩ := List.mem_filterMap.mp hpq
        have hlink := (hlinks.mirror p q).mpr hpq
        rw [← beside_iff hplace hr hlinks hloose hlink hp hq] at hbeside
        rw [h.incoming_copy q q' hq, if_neg hbeside, hlink, Option.bind_some, hp]
  nodup := by
    intro p'
    by_cases hempty : outgoing' p' = []
    · rw [hempty]
      exact .nil
    · obtain ⟨p, hp⟩ := h.only p' (.inr hempty)
      rw [h.outgoing_copy p p' hp]
      split
      · exact .nil
      · exact (hlinks.nodup p).filterMap fun x y z hx hy => renamePort_injective hr hx hy
  level := by
    intro p' q' hpq
    obtain ⟨p, q, hp, hq, hpq, hq_beside⟩ := h.incoming_eq_some hpq
    have hp_beside := hq_beside
    rw [beside_iff hplace hr hlinks hloose hpq hp hq] at hp_beside
    obtain ⟨l, l', hl, hl', hmerge⟩ := hlinks.level p q hpq
    rw [← Side.ne_input_iff] at hp_beside
    rw [← Side.ne_output_iff] at hq_beside
    obtain ⟨m, hm, hlevel⟩ := level_copy hplace hr hcopied hp hp_beside hl
    obtain ⟨m', hm', hlevel'⟩ := level_copy hplace hr hcopied hq hq_beside hl'
    refine ⟨m, m', hlevel, hlevel', ?_⟩
    rw [id, id] at hmerge
    rw [hmerge, hm', Option.some.injEq] at hm
    exact hm.symm

end CopiedLinks

/-! ### Cloning -/

theorem lastIndexOf?_eq_some {β : Type} [DecidableEq β] {xs : List β} (h : xs.Nodup) {x : β}
    {k : Nat} : lastIndexOf? xs x = some k ↔ xs[k]? = some x := by
  -- without repetitions, last and first occurrence are the same
  have hreverse : xs.reverse.Nodup := List.nodup_reverse.mpr h
  have hlast : ∀ j, xs.reverse.idxOf? x = some j ↔ xs.reverse[j]? = some x := by
    intro j
    rw [List.idxOf?_eq_some_iff, List.getElem?_eq_some_iff]
    constructor
    · rintro ⟨hlt, hx, _⟩
      exact ⟨hlt, hx⟩
    · rintro ⟨hlt, hx⟩
      refine ⟨hlt, hx, fun i hi heq => ?_⟩
      have heq := hreverse.getElem_inj_iff.mp (heq.trans hx.symm)
      omega
  rw [lastIndexOf?, Option.map_eq_some_iff]
  constructor
  · rintro ⟨j, hj, rfl⟩
    have hx := (hlast j).mp hj
    have hlt := (List.getElem?_eq_some_iff.mp hx).1
    rw [List.length_reverse] at hlt
    rwa [List.getElem?_reverse hlt] at hx
  · intro hx
    have hlt := (List.getElem?_eq_some_iff.mp hx).1
    refine ⟨xs.length - 1 - k, (hlast _).mpr ?_, by omega⟩
    rw [List.getElem?_reverse (by omega)]
    rwa [show xs.length - 1 - (xs.length - 1 - k) = k by omega]

theorem getElem?_filterMap {β γ : Type} {f : β → Option γ} {xs : List β}
    (h : ∀ x ∈ xs, (f x).isSome) (k : Nat) : (xs.filterMap f)[k]? = xs[k]?.bind f := by
  induction xs generalizing k with
  | nil => rfl
  | cons x rest ih =>
      obtain ⟨y, hy⟩ := Option.isSome_iff_exists.mp (h x List.mem_cons_self)
      rw [List.filterMap_cons_some hy]
      cases k with
      | zero => simp [hy]
      | succ k => simpa using ih (fun x hx => h x (List.mem_cons_of_mem _ hx)) k

namespace Diagram

variable {α : Type} {d : Diagram α} {source parent x z : BlockId} {name : String}

/-- The new names of a block and everything below it. -/
def newName (d : Diagram α) (source id : BlockId) : Option BlockId :=
  (lastIndexOf? (d.descendants source) id).map fun k => ⟨d.blocks.size + k⟩

theorem descendants_nodup (h : d.WellFormed) : (d.descendants source).Nodup := below_nodup h.tree

theorem newName_eq_some (h : d.WellFormed) : d.newName source x = some z ↔
    d.blocks.size ≤ z.index ∧ (d.descendants source)[z.index - d.blocks.size]? = some x := by
  obtain ⟨index⟩ := z
  rw [newName, Option.map_eq_some_iff]
  simp only [lastIndexOf?_eq_some (descendants_nodup h), BlockId.mk.injEq]
  constructor
  · rintro ⟨k, hk, rfl⟩
    exact ⟨by omega, by simpa using hk⟩
  · rintro ⟨hle, hk⟩
    exact ⟨index - d.blocks.size, hk, by omega⟩

theorem newName_isSome (h : d.WellFormed) (hx : x ∈ d.descendants source) :
    (d.newName source x).isSome := by
  obtain ⟨k, hk⟩ := List.mem_iff_getElem?.mp hx
  have hz : d.newName source x = some ⟨d.blocks.size + k⟩ :=
    (newName_eq_some h).mpr ⟨Nat.le_add_right _ _, by rwa [Nat.add_sub_cancel_left]⟩
  rw [hz]
  rfl

theorem mem_of_newName (h : d.WellFormed) (hx : d.newName source x = some z) :
    x ∈ d.descendants source := List.mem_of_getElem? ((newName_eq_some h).mp hx).2

/-- The part is listed top block first, so its copy takes the first new place. -/
theorem newName_source (h : d.WellFormed) (hlive : (d.block? source).isSome) :
    d.newName source source = some ⟨d.blocks.size⟩ :=
  (newName_eq_some h).mpr ⟨Nat.le_refl _, by rw [Nat.sub_self]; exact descendants_first hlive⟩

theorem renames (h : d.WellFormed) (source : BlockId) :
    Renames d.place? source (d.newName source) where
  injective := by
    intro x y z hx hy
    rw [newName_eq_some h] at hx hy
    rw [hx.2, Option.some.injEq] at hy
    exact hy.2
  live := by
    intro x z hx
    have := live_of_mem_below (mem_of_newName h hx)
    rwa [place?, Option.isSome_map]
  children := by
    intro x y z hx hy
    exact newName_isSome h (children_mem_below h.tree (Nat.le_add_left _ _) (mem_of_newName h hx) hy)
  parent := by
    intro x z hx hne
    obtain ⟨up, hup, hmem⟩ := parent_mem_below (mem_of_newName h hx) hne
    exact ⟨up, hmem, newName_isSome h hup⟩
  above := by
    intro up hmem
    cases hup : d.newName source up with
    | none => rfl
    | some z =>
        have := index_le_of_mem_below h.tree (mem_of_newName h hup)
        have := (h.tree.child up source hmem).2.2.2
        omega
  order := by
    intro up x up' x' hmem hup hx
    rw [newName_eq_some h] at hup hx
    have := parent_first h.tree hx.2 hup.2 hmem
    omega

/-- The copy of a block of the part. -/
def copyOf (d : Diagram α) (source parent : BlockId) (name : String) (id : BlockId) (b : Block α) :
    Block α :=
  if id = source then b.copyTop (d.newName source) parent name
  else b.copyInside (d.newName source)

theorem getElem?_copies (k : Nat) : (d.copies source parent name)[k]? =
    (d.descendants source)[k]?.bind fun id => (d.block? id).map (d.copyOf source parent name id) := by
  refine getElem?_filterMap (f := fun id =>
    (d.block? id).map (d.copyOf source parent name id)) (fun id hid => ?_) k
  rw [Option.isSome_map]
  exact live_of_mem_below hid

/-- The copies alone hold, under each new name, the copy of the block. -/
theorem block?_copies (h : d.WellFormed) (hx : d.newName source x = some z) :
    (alone d.blocks.size (d.copies source parent name)).block? z =
      (d.block? x).map (d.copyOf source parent name x) := by
  obtain ⟨hle, hpart⟩ := (newName_eq_some h).mp hx
  rw [block?_alone, if_neg (Nat.not_lt.mpr hle), getElem?_copies, hpart, Option.bind_some]

theorem newName_of_live (h : d.WellFormed)
    (hz : ((alone d.blocks.size (d.copies source parent name)).block? z).isSome) :
    ∃ x, d.newName source x = some z := by
  rw [block?_alone] at hz
  split at hz
  · cases hz
  next hle =>
    rw [getElem?_copies, Option.isSome_bind] at hz
    obtain ⟨x, hx⟩ := Option.isSome_iff_exists.mp (Option.isSome_of_any hz)
    exact ⟨x, (newName_eq_some h).mpr ⟨Nat.le_of_not_lt hle, hx⟩⟩

theorem place_copyOf (b : Block α) : (d.copyOf source parent name x b).place =
    if x = source then (b.place.copy (d.newName source)).moved parent name
    else b.place.copy (d.newName source) := by
  rw [copyOf]
  split <;> simp [Block.place, Block.copyTop, Block.copyInside, Place.copy, Place.moved,
    Block.isComposite, Port.copy, Function.comp_def]

theorem copied (h : d.WellFormed) (source parent : BlockId) (name : String) :
    Copied source (d.newName source) parent name d.place?
      (alone d.blocks.size (d.copies source parent name)).place? where
  only := by
    intro z hz
    rw [place?, Option.isSome_map] at hz
    exact newName_of_live h hz
  copy := by
    intro x z hx
    rw [place?, block?_copies h hx, place?, Option.map_map, Option.map_map]
    congr 1
    funext b
    exact place_copyOf b

/-- The copy of a port of the part. -/
def portCopyOf (d : Diagram α) (source id : BlockId) (side : Side) (p : Port α) : Port α :=
  let copy := p.copy (d.newName source)
  if id = source then
    match side with
    | .input => { copy with incoming := none }
    | .output => { copy with outgoing := [] }
  else copy

theorem port?_copies (h : d.WellFormed) {q q' : PortId}
    (hq : renamePort (d.newName source) q = some q') :
    (alone d.blocks.size (d.copies source parent name)).port? q' =
      (d.port? q).map (d.portCopyOf source q.block q.side) := by
  obtain ⟨hblock, hside, hindex⟩ := renamePort_eq_some.mp hq
  rw [port?, block?_copies h hblock, port?, hside, hindex]
  cases d.block? q.block with
  | none => rfl
  | some b =>
      have hports : (d.copyOf source parent name q.block b).ports q.side =
          (b.ports q.side).map (d.portCopyOf source q.block q.side) := by
        by_cases hs : q.block = source <;> cases q.side <;>
          simp [copyOf, portCopyOf, hs, Block.copyTop, Block.copyInside, Block.ports]
      rw [Option.map_some, Option.bind_some, Option.bind_some, hports, List.getElem?_map]

theorem live_of_linked {q : PortId} (hq : (d.incoming q).isSome ∨ d.outgoing q ≠ []) :
    (d.block? q.block).isSome := by
  obtain ⟨port, hport⟩ : ∃ port, d.port? q = some port := by
    rcases hq with hin | hout
    · obtain ⟨p, hp⟩ := Option.isSome_iff_exists.mp hin
      obtain ⟨port, hport, _⟩ := port?_of_incoming hp
      exact ⟨port, hport⟩
    · obtain ⟨p, hp⟩ := List.exists_mem_of_ne_nil _ hout
      obtain ⟨port, hport, _⟩ := port?_of_mem_outgoing hp
      exact ⟨port, hport⟩
  obtain ⟨b, hb, _⟩ := block?_of_port? hport
  rw [hb]
  rfl

theorem copiedLinks (h : d.WellFormed) (source parent : BlockId) (name : String) :
    CopiedLinks source (d.newName source) d.incoming
      (alone d.blocks.size (d.copies source parent name)).incoming d.outgoing
      (alone d.blocks.size (d.copies source parent name)).outgoing where
  only := by
    intro q' hq'
    obtain ⟨x, hx⟩ := newName_of_live h (live_of_linked hq')
    exact ⟨⟨x, q'.side, q'.index⟩, renamePort_eq_some.mpr ⟨hx, rfl, rfl⟩⟩
  incoming_copy := by
    intro q q' hq
    rw [incoming, port?_copies h hq, incoming]
    cases d.port? q with
    | none => simp
    | some port =>
        rw [Option.map_some, Option.bind_some, Option.bind_some]
        by_cases hs : q.block = source <;> cases q.side <;> simp [portCopyOf, hs] <;> rfl
  outgoing_copy := by
    intro p p' hp
    rw [outgoing, port?_copies h hp, outgoing]
    cases d.port? p with
    | none => simp
    | some port =>
        rw [Option.map_some, Option.map_some, Option.map_some, Option.getD_some, Option.getD_some]
        by_cases hs : p.block = source <;> cases p.side <;> simp [portCopyOf, hs] <;> rfl

theorem WellFormed.adopted_copies (h : d.WellFormed) (hlive : (d.block? source).isSome)
    (hroot : source ≠ ⟨0⟩) {composite : Block α} (hparent : d.block? parent = some composite)
    (hcomposite : composite.isComposite = true) (hname : name ≠ "")
    (hfree : name ∉ composite.takenNames) :
    (d.adopted parent name (d.copies source parent name)).WellFormed := by
  have hcopied := copied h source parent name
  have hr := renames h source
  refine h.adopted (hcopied.nested h.tree hr (newName_source h hlive))
    ((copiedLinks h source parent name).wired hcopied h.tree h.links hr hroot) ?_ hparent hcomposite
    hname hfree
  obtain ⟨b, hb⟩ := Option.isSome_iff_exists.mp hlive
  refine ⟨d.copyOf source parent name source b, ?_, ?_⟩
  · rw [getElem?_copies, descendants_first hlive, Option.bind_some, hb, Option.map_some]
  · rw [copyOf, if_pos rfl]
    exact ⟨rfl, rfl⟩

end Diagram

theorem Edit.clone_wellFormed {α : Type} {e e' : Editor α} {source parent id : BlockId}
    {name : String} (h : e.diagram.WellFormed) (hlive : (e.diagram.block? source).isSome)
    (hclone : clone source parent name e = .ok id e') : e'.diagram.WellFormed := by
  obtain ⟨hroot, composite, hparent, hcomposite, hname, hfree, hdiagram⟩ := clone_ok hclone
  rw [hdiagram]
  exact h.adopted_copies hlive hroot hparent hcomposite hname hfree

end CausalBlocks
