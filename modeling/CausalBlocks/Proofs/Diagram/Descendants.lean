import CausalBlocks.Proofs.Diagram.Hierarchy

/-!
# What is below a block

The blocks below a block are listed once each, parents before their children, and
nothing is missing when the depth covers the whole diagram.
-/

namespace CausalBlocks

variable {α : Type} {loose : BlockId → Prop}

namespace Diagram

variable {d : Diagram α} {depth : Nat} {id x y : BlockId} {b : Block α}

theorem childrenAt_eq (h : d.block? id = some b) : childrenAt d.place? id = b.children := by
  rw [childrenAt, place?_eq h, Option.map_some, Option.getD_some]
  rfl

theorem live_of_mem_children (h : Nested loose d.place?) (hx : x ∈ childrenAt d.place? id) :
    (d.block? x).isSome := by
  have hplace := isSome_of_parentAt (h.child id x hx).2.1
  rwa [place?, Option.isSome_map] at hplace

theorem below_of_block? (h : d.block? id = some b) (depth : Nat) :
    d.below (depth + 1) id = id :: b.children.flatMap (d.below depth) := by
  rw [below, h]

/-- A block that is listed is the top one, or it is listed below a child. -/
theorem mem_below (h : x ∈ d.below (depth + 1) id) :
    x = id ∨ ∃ child ∈ childrenAt d.place? id, x ∈ d.below depth child := by
  rw [below] at h
  split at h
  next => cases h
  next b hb =>
    rw [childrenAt_eq hb]
    rcases List.mem_cons.mp h with hx | hx
    · exact .inl hx
    · exact .inr (List.mem_flatMap.mp hx)

theorem live_of_below (h : x ∈ d.below depth id) : (d.block? id).isSome := by
  cases depth with
  | zero => cases h
  | succ depth =>
      rw [below] at h
      split at h
      next => cases h
      next b hb => rw [hb]; rfl

theorem live_of_mem_below (h : x ∈ d.below depth id) : (d.block? x).isSome := by
  induction depth generalizing id with
  | zero => cases h
  | succ depth ih =>
      rcases mem_below h with rfl | ⟨child, _, hx⟩
      · exact live_of_below h
      · exact ih hx

theorem index_le_of_mem_below (h : Nested loose d.place?) (hx : x ∈ d.below depth id) :
    id.index ≤ x.index := by
  induction depth generalizing id with
  | zero => cases hx
  | succ depth ih =>
      rcases mem_below hx with rfl | ⟨child, hchild, hx⟩
      · exact Nat.le_refl _
      · have := (h.child id child hchild).2.2.2
        have := ih hx
        omega

/-- Everything listed but the top block is a child of something listed. -/
theorem parent_mem_below (hx : x ∈ d.below depth id) (hne : x ≠ id) :
    ∃ up ∈ d.below depth id, x ∈ childrenAt d.place? up := by
  induction depth generalizing id with
  | zero => cases hx
  | succ depth ih =>
      rcases mem_below hx with rfl | ⟨child, hchild, hx'⟩
      · exact absurd rfl hne
      · obtain ⟨b, hb⟩ := Option.isSome_iff_exists.mp (live_of_below hx)
        rw [below_of_block? hb]
        rw [childrenAt_eq hb] at hchild
        by_cases hxc : x = child
        · exact ⟨id, List.mem_cons_self, by rwa [childrenAt_eq hb, hxc]⟩
        · obtain ⟨up, hup, hmem⟩ := ih hx' hxc
          exact ⟨up, List.mem_cons_of_mem _ (List.mem_flatMap.mpr ⟨child, hchild, hup⟩), hmem⟩

theorem self_mem_below (h : (d.block? id).isSome) (depth : Nat) : id ∈ d.below (depth + 1) id := by
  obtain ⟨b, hb⟩ := Option.isSome_iff_exists.mp h
  rw [below_of_block? hb]
  exact List.mem_cons_self

/-- A block comes first in its own list. -/
theorem descendants_first (h : (d.block? id).isSome) : (d.descendants id)[0]? = some id := by
  obtain ⟨b, hb⟩ := Option.isSome_iff_exists.mp h
  obtain ⟨depth, hdepth⟩ : ∃ depth, d.blocks.size = depth + 1 :=
    ⟨d.blocks.size - 1, by have := lt_size_of_block? hb; omega⟩
  rw [descendants, hdepth, below_of_block? hb]
  rfl

theorem self_mem_descendants (h : (d.block? id).isSome) : id ∈ d.descendants id :=
  List.mem_of_getElem? (descendants_first h)

/-- With a depth that covers the diagram, the children of everything listed are
listed. Places grow on the way down, so the depth is never used up. -/
theorem children_mem_below (h : Nested loose d.place?) (hdepth : d.blocks.size ≤ id.index + depth)
    (hx : x ∈ d.below depth id) (hy : y ∈ childrenAt d.place? x) : y ∈ d.below depth id := by
  induction depth generalizing id with
  | zero => cases hx
  | succ depth ih =>
      obtain ⟨b, hb⟩ := Option.isSome_iff_exists.mp (live_of_below hx)
      have hstep : ∀ child, child ∈ childrenAt d.place? id → y ∈ d.below depth child →
          y ∈ d.below (depth + 1) id := by
        intro child hchild hmem
        rw [below_of_block? hb]
        rw [childrenAt_eq hb] at hchild
        exact List.mem_cons_of_mem _ (List.mem_flatMap.mpr ⟨child, hchild, hmem⟩)
      rcases mem_below hx with rfl | ⟨child, hchild, hx⟩
      · have hlt := (h.child x y hy).2.2.2
        have hlive := live_of_mem_children h hy
        obtain ⟨b', hb'⟩ := Option.isSome_iff_exists.mp hlive
        have := lt_size_of_block? hb'
        obtain ⟨rest, rfl⟩ : ∃ rest, depth = rest + 1 := ⟨depth - 1, by omega⟩
        exact hstep y hy (self_mem_below hlive rest)
      · have := (h.child id child hchild).2.2.2
        exact hstep child hchild (ih (by omega) hx)

/-- A child that is listed, and is not the top block, has its parent listed. -/
theorem parent_mem_of_listed (h : Nested loose d.place?) {up : BlockId}
    (hx : x ∈ d.below depth id) (hne : x ≠ id) (hup : x ∈ childrenAt d.place? up) :
    up ∈ d.below depth id := by
  obtain ⟨up', hup', hmem⟩ := parent_mem_below hx hne
  rwa [h.up_unique hmem hup]

/-- What is below one child is not below another. -/
theorem below_disjoint (h : Nested loose d.place?) {child other : BlockId}
    (hchild : child ∈ childrenAt d.place? id) (hother : other ∈ childrenAt d.place? id)
    (hne : child ≠ other) (hx : x ∈ d.below depth child) : x ∉ d.below depth other := by
  -- going up from a block below both, one of the children is met below the other
  have hclimb : ∀ n (x : BlockId), x.index < n → x ∈ d.below depth child →
      x ∉ d.below depth other := by
    intro n
    induction n with
    | zero => exact fun x hlt => absurd hlt (Nat.not_lt_zero _)
    | succ n ih =>
        intro x hlt hx hx'
        have habove : ∀ c, c ∈ childrenAt d.place? id → id ∉ d.below depth c := by
          intro c hc hid
          have := (h.child id c hc).2.2.2
          have := index_le_of_mem_below h hid
          omega
        by_cases hc : x = child
        · subst hc
          exact habove other hother (parent_mem_of_listed h hx' hne hchild)
        · obtain ⟨up, hup, hmem⟩ := parent_mem_below hx hc
          by_cases ho : x = other
          · subst ho
            exact habove child hchild (parent_mem_of_listed h hx hc hother)
          · have := (h.child up x hmem).2.2.2
            exact ih up (by omega) hup (parent_mem_of_listed h hx' ho hmem)
  exact hclimb (x.index + 1) x (Nat.lt_succ_self _) hx

/-- No block is listed twice, and none after one of its children. -/
theorem below_pairwise (h : Nested loose d.place?) :
    (d.below depth id).Pairwise fun x y => x ≠ y ∧ x ∉ childrenAt d.place? y := by
  induction depth generalizing id with
  | zero => exact .nil
  | succ depth ih =>
      rw [below]
      split
      next => exact .nil
      next b hb =>
        have hchildren := childrenAt_eq hb
        refine List.pairwise_cons.mpr ⟨?_, ?_⟩
        · intro y hy
          obtain ⟨child, hchild, hy⟩ := List.mem_flatMap.mp hy
          rw [← hchildren] at hchild
          have := (h.child id child hchild).2.2.2
          have := index_le_of_mem_below h hy
          refine ⟨by rintro rfl; omega, fun hmem => ?_⟩
          have := (h.child y id hmem).2.2.2
          omega
        · refine List.pairwise_flatMap.mpr ⟨fun child _ => ih, ?_⟩
          have hnodup := h.nodup id
          rw [hchildren] at hnodup
          refine List.Pairwise.imp_of_mem (fun {child other} hchild hother hne x hx y hy => ?_) hnodup
          rw [← hchildren] at hchild hother
          refine ⟨fun heq => below_disjoint h hchild hother hne hx (heq ▸ hy), fun hmem => ?_⟩
          by_cases hxc : x = child
          · subst hxc
            have := h.up_unique hchild hmem
            subst this
            have := (h.child _ other hother).2.2.2
            have := index_le_of_mem_below h hy
            omega
          · have hup := parent_mem_of_listed h hx hxc hmem
            exact below_disjoint h hchild hother hne hup hy

/-- A parent is listed before its child. -/
theorem parent_first (h : Nested loose d.place?) {i j : Nat}
    (hi : (d.below depth id)[i]? = some x) (hj : (d.below depth id)[j]? = some y)
    (hmem : x ∈ childrenAt d.place? y) : j < i := by
  refine Nat.lt_of_not_le fun hle => ?_
  rw [List.getElem?_eq_some_iff] at hi hj
  obtain ⟨hi, rfl⟩ := hi
  obtain ⟨hj, rfl⟩ := hj
  rcases Nat.lt_or_eq_of_le hle with hlt | rfl
  · exact (List.pairwise_iff_getElem.mp (below_pairwise h) i j hi hj hlt).2 hmem
  · have := (h.child _ _ hmem).2.2.2
    omega

theorem below_nodup (h : Nested loose d.place?) : (d.below depth id).Nodup :=
  (below_pairwise h).imp And.left

end Diagram

end CausalBlocks
