import CausalBlocks.Proofs.Diagram.Descendants

/-!
# Paths

The path of a block is that of its composite and its own name. Where no name holds a
point, different blocks have different paths.
-/

namespace CausalBlocks

variable {α : Type}

/-- A name that can be told apart in a path. -/
def Plain (name : String) : Prop := '.' ∉ name.toList

instance (name : String) : Decidable (Plain name) := inferInstanceAs (Decidable (_ ∉ _))

/-- A name with a point in it. -/
theorem not_plain_append (above name : String) : ¬Plain (above ++ "." ++ name) := by
  rw [Plain, String.toList_append, String.toList_append]
  simp

theorem intercalate_append_singleton {names : List String} (h : names ≠ []) (name : String) :
    ".".intercalate (names ++ [name]) = ".".intercalate names ++ "." ++ name := by
  rw [← String.toList_inj]
  simp only [String.toList_append, String.toList_intercalate, List.map_append, List.map_singleton]
  induction names with
  | nil => exact absurd rfl h
  | cons first rest ih =>
      cases rest with
      | nil => simp [List.intercalate]
      | cons second rest =>
          have ih := ih (by simp)
          simp only [List.map_cons, List.cons_append, List.intercalate_cons_cons] at ih ⊢
          rw [ih]
          simp only [List.append_assoc]

/-- A path of plain names can be taken apart again. -/
theorem splitOn_intercalate {names : List String} (hne : names ≠ [])
    (hplain : ∀ name ∈ names, Plain name) :
    (".".intercalate names).toList.splitOn '.' = names.map String.toList := by
  rw [String.toList_intercalate]
  refine List.splitOn_intercalate '.' (fun l hl => ?_) (by simpa using hne)
  obtain ⟨name, hname, rfl⟩ := List.mem_map.mp hl
  exact hplain name hname

theorem intercalate_injective {names names' : List String} (hnames : names ≠ [])
    (hnames' : names' ≠ []) (hplain : ∀ name ∈ names, Plain name)
    (hplain' : ∀ name ∈ names', Plain name)
    (h : ".".intercalate names = ".".intercalate names') : names = names' := by
  have hlists := splitOn_intercalate hnames hplain
  rw [h, splitOn_intercalate hnames' hplain'] at hlists
  exact (List.map_injective_iff.mpr fun _ _ => String.toList_inj.mp) hlists.symm

namespace Diagram

/-- The blocks are a tree below the root. -/
structure Rooted (d : Diagram α) : Prop where
  top : parentAt d.place? ⟨0⟩ = none
  tree : Nested (· = ⟨0⟩) d.place?

variable {d : Diagram α} {x y up : BlockId} {name : String}

/-- The names on the way down to a block. -/
def route (d : Diagram α) (x : BlockId) : List String := d.namesAbove d.blocks.size x

theorem pathOf_eq (hroot : x ≠ ⟨0⟩) : d.pathOf x = ".".intercalate (d.route x) := if_neg hroot

theorem route_root : d.route ⟨0⟩ = [] := by
  rw [route]
  cases d.blocks.size <;> rfl

namespace Rooted

variable (h : d.Rooted)
include h

theorem up_lt (hup : parentAt d.place? x = some up) : x ≠ ⟨0⟩ ∧ up.index < x.index := by
  have hroot : x ≠ ⟨0⟩ := by
    rintro rfl
    cases h.top.symm.trans hup
  exact ⟨hroot, (h.tree.child up x (h.tree.mem_of_parentAt hroot hup)).2.2.2⟩

/-- Every block but the root has a composite. -/
theorem exists_up (hlive : (d.place? x).isSome) (hroot : x ≠ ⟨0⟩) :
    ∃ up, parentAt d.place? x = some up := by
  obtain ⟨up, hmem⟩ := h.tree.parent x hlive hroot
  exact ⟨up, (h.tree.child up x hmem).2.1⟩

theorem live_up (hup : parentAt d.place? x = some up) : (d.place? up).isSome := by
  have hmem := h.tree.mem_of_parentAt (h.up_lt hup).1 hup
  exact isSome_of_compositeAt (h.tree.child up x hmem).2.2.1

omit h in
theorem namesAbove_succ (hroot : x ≠ ⟨0⟩) (hup : parentAt d.place? x = some up)
    (hname : nameAt d.place? x = some name) (depth : Nat) :
    d.namesAbove (depth + 1) x = d.namesAbove depth up ++ [name] := by
  obtain ⟨here, hhere⟩ := Option.isSome_iff_exists.mp (isSome_of_parentAt hup)
  obtain ⟨b, hb, rfl⟩ := place?_eq_some hhere
  rw [parentAt, hhere] at hup
  rw [nameAt, hhere] at hname
  have hparent : b.parent = some up := hup
  have hbname : b.name = name := Option.some.inj hname
  have hbelow : x ≠ d.root := hroot
  simp only [namesAbove, if_neg hbelow, hb, hparent, hbname]

theorem exists_name (hup : parentAt d.place? x = some up) :
    ∃ name, nameAt d.place? x = some name ∧ (name, x) ∈ indexAt d.place? up := by
  obtain ⟨here, hhere⟩ := Option.isSome_iff_exists.mp (isSome_of_parentAt hup)
  have hname : nameAt d.place? x = some here.name := by rw [nameAt, hhere]; rfl
  exact ⟨here.name, hname, (h.tree.index up here.name x).mpr
    ⟨h.tree.mem_of_parentAt (h.up_lt hup).1 hup, hname⟩⟩

/-- A depth beyond the place of a block makes no difference. -/
theorem namesAbove_congr {depth depth' : Nat} (hlive : (d.place? x).isSome)
    (hdepth : x.index < depth) (hdepth' : x.index < depth') :
    d.namesAbove depth x = d.namesAbove depth' x := by
  induction depth generalizing x depth' with
  | zero => exact absurd hdepth (Nat.not_lt_zero _)
  | succ depth ih =>
      obtain ⟨depth', rfl⟩ : ∃ n, depth' = n + 1 := ⟨depth' - 1, by omega⟩
      by_cases hroot : x = ⟨0⟩
      · have htop : x = d.root := hroot
        simp only [namesAbove, if_pos htop]
      · obtain ⟨up, hup⟩ := h.exists_up hlive hroot
        obtain ⟨name, hname, _⟩ := h.exists_name hup
        have hlt := (h.up_lt hup).2
        have habove : d.namesAbove depth up = d.namesAbove depth' up :=
          ih (h.live_up hup) (by omega) (by omega)
        rw [namesAbove_succ hroot hup hname, namesAbove_succ hroot hup hname, habove]

theorem route_eq (hup : parentAt d.place? x = some up) (hname : nameAt d.place? x = some name) :
    d.route x = d.route up ++ [name] := by
  obtain ⟨hroot, hlt⟩ := h.up_lt hup
  have hsize : x.index < d.blocks.size := by
    obtain ⟨here, hhere⟩ := Option.isSome_iff_exists.mp (isSome_of_parentAt hup)
    obtain ⟨b, hb, _⟩ := place?_eq_some hhere
    exact lt_size_of_block? hb
  obtain ⟨depth, hdepth⟩ : ∃ depth, d.blocks.size = depth + 1 := ⟨d.blocks.size - 1, by omega⟩
  rw [route, route, hdepth, namesAbove_succ hroot hup hname,
    h.namesAbove_congr (h.live_up hup) (by omega) (by omega : up.index < depth + 1)]

theorem route_ne_nil (hlive : (d.place? x).isSome) (hroot : x ≠ ⟨0⟩) : d.route x ≠ [] := by
  obtain ⟨up, hup⟩ := h.exists_up hlive hroot
  obtain ⟨name, hname, _⟩ := h.exists_name hup
  rw [h.route_eq hup hname]
  simp

/-- The path of a block follows from that of its composite. -/
theorem pathOf_child (hup : parentAt d.place? x = some up) (hname : nameAt d.place? x = some name) :
    d.pathOf x = d.childPath up name := by
  rw [pathOf_eq (h.up_lt hup).1, h.route_eq hup hname, childPath]
  by_cases hroot : up = d.root
  · have hroute : d.route up = [] := by rw [hroot]; exact route_root
    rw [hroute, if_pos hroot]
    rfl
  · rw [if_neg hroot, intercalate_append_singleton (h.route_ne_nil (h.live_up hup) hroot),
      pathOf_eq hroot]

/-- One step down, or two with a point between the names, lead to the same path. -/
theorem childPath_child (hup : parentAt d.place? x = some up)
    (hname : nameAt d.place? x = some name) (below : String) :
    d.childPath up (name ++ "." ++ below) = d.childPath x below := by
  have hpath := h.pathOf_child hup hname
  rw [childPath] at hpath
  rw [childPath, childPath, if_neg (show x ≠ d.root from (h.up_lt hup).1), hpath]
  split
  · rfl
  · simp only [String.append_assoc]

omit h in
/-- Paths stay the same if those of the old hierarchy agree with the new steps down. -/
theorem pathOf_congr {d' : Diagram α} (h' : d'.Rooted)
    (hstep : ∀ x up name, parentAt d'.place? x = some up → nameAt d'.place? x = some name →
      d.pathOf x = d.childPath up name) (hlive : (d'.place? x).isSome) (hroot : x ≠ ⟨0⟩) :
    d'.pathOf x = d.pathOf x := by
  have hdown : ∀ n (x : BlockId), x.index < n → (d'.place? x).isSome → x ≠ ⟨0⟩ →
      d'.pathOf x = d.pathOf x := by
    intro n
    induction n with
    | zero => exact fun _ hlt => absurd hlt (Nat.not_lt_zero _)
    | succ n ih =>
        intro x hlt hlive hroot
        obtain ⟨up, hup⟩ := h'.exists_up hlive hroot
        obtain ⟨name, hname, _⟩ := h'.exists_name hup
        have hlt' := (h'.up_lt hup).2
        rw [h'.pathOf_child hup hname, hstep x up name hup hname, childPath, childPath]
        by_cases htop : up = ⟨0⟩
        · rw [if_pos (show up = d'.root from htop), if_pos (show up = d.root from htop)]
        · rw [if_neg (show up ≠ d'.root from htop), if_neg (show up ≠ d.root from htop),
            ih up (by omega) (h'.live_up hup) htop]
  exact hdown (x.index + 1) x (Nat.lt_succ_self _) hlive hroot

/-- The way down leads to one block only. -/
theorem route_injective (hx : (d.place? x).isSome) (hy : (d.place? y).isSome)
    (heq : d.route x = d.route y) : x = y := by
  -- on the way down to `x`: the composites are the same, and tell their children apart
  have hdown : ∀ n (x y : BlockId), x.index < n → (d.place? x).isSome → (d.place? y).isSome →
      d.route x = d.route y → x = y := by
    intro n
    induction n with
    | zero => exact fun _ _ hlt => absurd hlt (Nat.not_lt_zero _)
    | succ n ih =>
        intro x y hlt hx hy heq
        by_cases hroot : x = ⟨0⟩
        · by_contra hne
          rw [hroot] at heq hne
          exact h.route_ne_nil hy (Ne.symm hne) (heq.symm.trans route_root)
        · have hroot' : y ≠ ⟨0⟩ := by
            rintro rfl
            exact h.route_ne_nil hx hroot (heq.trans route_root)
          obtain ⟨up, hup⟩ := h.exists_up hx hroot
          obtain ⟨up', hup'⟩ := h.exists_up hy hroot'
          obtain ⟨name, hname, hentry⟩ := h.exists_name hup
          obtain ⟨name', hname', hentry'⟩ := h.exists_name hup'
          rw [h.route_eq hup hname, h.route_eq hup' hname'] at heq
          obtain ⟨hroutes, hnames⟩ := List.append_inj' heq rfl
          have hlt' := (h.up_lt hup).2
          obtain rfl := ih up up' (by omega) (h.live_up hup) (h.live_up hup') hroutes
          cases hnames
          have hsame := List.inj_on_of_nodup_map (h.tree.names up) hentry hentry' rfl
          exact congrArg Prod.snd hsame
  exact hdown (x.index + 1) x y (Nat.lt_succ_self _) hx hy heq

/-- The names on the way down are names of blocks. -/
theorem plain_route (hplain : ∀ x name, nameAt d.place? x = some name → Plain name)
    (hx : (d.place? x).isSome) : ∀ name ∈ d.route x, Plain name := by
  have hdown : ∀ n (x : BlockId), x.index < n → (d.place? x).isSome →
      ∀ name ∈ d.route x, Plain name := by
    intro n
    induction n with
    | zero => exact fun _ hlt => absurd hlt (Nat.not_lt_zero _)
    | succ n ih =>
        intro x hlt hx
        by_cases hroot : x = ⟨0⟩
        · rw [hroot, route_root]
          exact fun _ hmem => absurd hmem List.not_mem_nil
        · obtain ⟨up, hup⟩ := h.exists_up hx hroot
          obtain ⟨name, hname, _⟩ := h.exists_name hup
          have hlt' := (h.up_lt hup).2
          rw [h.route_eq hup hname]
          refine List.forall_mem_append.mpr ⟨ih up (by omega) (h.live_up hup), fun other hother => ?_⟩
          rw [List.mem_singleton.mp hother]
          exact hplain x name hname
  exact hdown (x.index + 1) x (Nat.lt_succ_self _) hx

/-- Different blocks have different paths, where no name holds a point. -/
theorem pathOf_injective (hplain : ∀ x name, nameAt d.place? x = some name → Plain name)
    (hx : (d.place? x).isSome) (hy : (d.place? y).isSome) (hroot : x ≠ ⟨0⟩) (hroot' : y ≠ ⟨0⟩)
    (heq : d.pathOf x = d.pathOf y) : x = y := by
  rw [pathOf_eq hroot, pathOf_eq hroot'] at heq
  exact h.route_injective hx hy (intercalate_injective (h.route_ne_nil hx hroot)
    (h.route_ne_nil hy hroot') (h.plain_route hplain hx) (h.plain_route hplain hy) heq)

end Rooted

end Diagram

end CausalBlocks
