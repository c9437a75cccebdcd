import CausalBlocks.Diagram.Lookup
import CausalBlocks.Proofs.Diagram.Thinning

/-!
# Looking up paths

Each step down takes the longest run of pieces that names a child, and does not go back. It finds
the block nevertheless: of the blocks in one composite, the path of none starts with that of
another.
-/

namespace CausalBlocks

variable {α : Type}

/-! ### Pieces of a path -/

theorem joinPath_pathSegments (path : String) : joinPath (pathSegments path) = path := by
  have hpieces : (pathSegments path).map String.toList = path.toList.splitOn '.' := by
    rw [pathSegments, List.map_map]
    exact List.map_id'' (fun _ => String.toList_ofList) _
  rw [joinPath, ← String.toList_inj, String.toList_intercalate, hpieces]
  exact List.intercalate_splitOn '.'

theorem pathSegments_joinPath {names : List String} (hne : names ≠ [])
    (hplain : ∀ name ∈ names, Plain name) : pathSegments (joinPath names) = names := by
  rw [pathSegments, joinPath, splitOn_intercalate hne hplain, List.map_map]
  exact List.map_id'' (fun _ => String.ofList_toList) _

theorem pathSegments_append (above name : String) :
    pathSegments (above ++ "." ++ name) = pathSegments above ++ pathSegments name := by
  have hpoint : (above ++ "." ++ name).toList = above.toList ++ '.' :: name.toList := by
    simp [String.toList_append]
  rw [pathSegments, hpoint, List.splitOn_append_cons_self, List.map_append]
  rfl

theorem pathSegments_ne_nil (path : String) : pathSegments path ≠ [] := by
  rw [pathSegments, Ne, List.map_eq_nil_iff]
  exact List.splitOn_ne_nil _ _

theorem pathSegments_of_plain {name : String} (h : Plain name) : pathSegments name = [name] := by
  have hjoin : joinPath [name] = name := by simp [joinPath]
  have hpieces := pathSegments_joinPath (List.cons_ne_nil name []) (by simpa using h)
  rwa [hjoin] at hpieces

/-! ### Names in a list -/

theorem lookup_eq_some_iff_mem {κ β : Type} [BEq κ] [LawfulBEq κ] {entries : List (κ × β)}
    (h : (entries.map Prod.fst).Nodup) {key : κ} {value : β} :
    entries.lookup key = some value ↔ (key, value) ∈ entries := by
  have hmem : ∀ value, entries.lookup key = some value → (key, value) ∈ entries := by
    intro value hfound
    obtain ⟨before, after, rfl, _⟩ := List.lookup_eq_some_iff.mp hfound
    exact List.mem_append_right _ List.mem_cons_self
  refine ⟨hmem value, fun hentry => ?_⟩
  cases hfound : entries.lookup key with
  | none =>
      have hother := List.lookup_eq_none_iff.mp hfound _ hentry
      simp at hother
  | some value' =>
      have hsame := List.inj_on_of_nodup_map h (hmem value' hfound) hentry rfl
      exact congrArg (fun entry => some entry.2) hsame

/-- A search finds what only one value can be. -/
theorem findSome?_eq_some_of_unique {β γ : Type} {f : β → Option γ} {xs : List β} {y : γ}
    (hfound : ∃ x ∈ xs, f x = some y) (hunique : ∀ x ∈ xs, ∀ y', f x = some y' → y' = y) :
    xs.findSome? f = some y := by
  obtain ⟨x, hx, hy⟩ := hfound
  cases hsearch : xs.findSome? f with
  | none => cases (List.findSome?_eq_none_iff.mp hsearch x hx).symm.trans hy
  | some y' =>
      obtain ⟨x', hx', hy'⟩ := List.exists_of_findSome?_eq_some hsearch
      rw [hunique x' hx' y' hy']

theorem Block.outputIndex?_eq_some {b : Block α} {index : Nat} {port : Port α}
    (hnames : (b.outputs.map Port.name).Nodup) (hport : b.outputs[index]? = some port) :
    b.outputIndex? port.name = some index := by
  obtain ⟨hindex, hget⟩ := List.getElem?_eq_some_iff.mp hport
  rw [Block.outputIndex?, List.findIdx?_eq_some_iff_getElem]
  refine ⟨hindex, by simp [hget], fun j hj hname => ?_⟩
  have hfirst : j < (b.outputs.map Port.name).length := by
    rw [List.length_map]
    omega
  have hsame : (b.outputs.map Port.name)[j]? = (b.outputs.map Port.name)[index]? := by
    rw [List.getElem?_map, List.getElem?_map, hport,
      List.getElem?_eq_getElem (Nat.lt_trans hj hindex)]
    exact congrArg some (eq_of_beq hname)
  have hequal := (List.getElem?_inj hfirst hnames).mp hsame
  omega

namespace Diagram

variable {start d : Diagram α} {x up : BlockId} {b : Block α} {name path : String}

theorem findPort_output {b : Block α} (hb : d.block? d.root = some b) {index : Nat}
    (hindex : b.outputIndex? name = some index) : d.findPort name = .ok (.output d.root index) := by
  refine Except.bind_eq_ok.mpr ⟨b, block_eq hb, ?_⟩
  rw [hindex]
  rfl

/-- Apart from the ports of the model and the blocks, a path is that of a block and the name of
one of its outputs. -/
theorem findPort_owned {model : Block α} {pieces : List String} {owner : BlockId} {index : Nat}
    {failure : Failure α} (hmodel : d.block? d.root = some model)
    (houtput : model.outputIndex? path = none) (hinput : model.inputIndex? path = none)
    (hfind : d.find path = .error failure) (hne : pieces ≠ [])
    (hpieces : pathSegments path = pieces ++ [name]) (howner : d.find (joinPath pieces) = .ok owner)
    (hb : d.block? owner = some b) (hindex : b.outputIndex? name = some index) :
    d.findPort path = .ok (.output owner index) := by
  obtain ⟨above, before, rfl⟩ : ∃ above before, pieces = above ++ [before] :=
    ⟨_, _, (List.dropLast_concat_getLast hne).symm⟩
  have hreverse : (pathSegments path).reverse = name :: before :: above.reverse := by
    rw [hpieces]
    simp
  have hback : (before :: above.reverse).reverse = above ++ [before] := by simp
  refine Except.bind_eq_ok.mpr ⟨model, block_eq hmodel, ?_⟩
  rw [houtput, hinput, hfind, hreverse]
  dsimp only
  rw [hback, howner]
  refine Except.bind_eq_ok.mpr ⟨owner, rfl, Except.bind_eq_ok.mpr ⟨b, block_eq hb, ?_⟩⟩
  rw [hindex]
  rfl

theorem findFrom_child {segments : List String} {k : Nat} (hb : d.block? up = some b)
    (hne : segments ≠ []) (hchild : b.longestChild? segments = some (k, x)) :
    d.findFrom path up segments = d.findFrom path x (segments.drop (k + 1)) := by
  rw [findFrom, dif_neg hne, block_eq hb]
  simp only [bind, Except.bind, hchild]

theorem findFrom_missing {segments : List String} (hb : d.block? up = some b)
    (hne : segments ≠ []) (hchild : b.longestChild? segments = none) :
    d.findFrom path up segments = .error (.blockNotFound path) := by
  rw [findFrom, dif_neg hne, block_eq hb]
  simp only [bind, Except.bind, hchild]
  rfl

theorem Rooted.child?_eq_some_iff (h : d.Rooted) (hb : d.block? up = some b) :
    b.child? name = some x ↔ parentAt d.place? x = some up ∧ nameAt d.place? x = some name := by
  have hindex : indexAt d.place? up = b.childIndex := by
    rw [indexAt, place?_eq hb]
    rfl
  have hnames := h.tree.names up
  rw [hindex] at hnames
  rw [Block.child?, lookup_eq_some_iff_mem hnames, ← hindex, h.tree.index]
  refine and_congr_left fun _ => ⟨fun hmem => (h.tree.child up x hmem).2.1, fun hup => ?_⟩
  exact h.tree.mem_of_parentAt (h.up_lt hup).1 hup

/-- The path of a block below the root is not that of the root. -/
theorem Rooted.pathOf_ne_empty (h : d.Rooted) (hx : (d.place? x).isSome) (hroot : x ≠ ⟨0⟩) :
    d.pathOf x ≠ "" := by
  obtain ⟨up, hup⟩ := h.exists_up hx hroot
  obtain ⟨name, hname, hentry⟩ := h.exists_name hup
  rw [h.pathOf_child hup hname, childPath]
  split
  · exact (h.tree.free up name x hentry).1
  · intro hempty
    have hpoint := congrArg String.toList hempty
    simp [String.toList_append] at hpoint

namespace Thinned

variable (h : start.Thinned d) (hstart : start.Rooted) (hplain : start.PlainNames)
include h hstart hplain

theorem plain_route (hx : (d.place? x).isSome) : ∀ piece ∈ start.route x, Plain piece :=
  hstart.plain_route (fun _ _ => hplain.block)
    (block?_isSome_iff.mp (h.traced.descended.live (block?_isSome_iff.mpr hx)))

/-- The pieces of a path are the names that led down to the block at first. -/
theorem pathSegments_pathOf (hx : (d.place? x).isSome) (hroot : x ≠ ⟨0⟩) :
    pathSegments (d.pathOf x) = start.route x := by
  rw [h.traced.path x hroot hx, pathOf_eq hroot]
  refine pathSegments_joinPath (hstart.route_ne_nil ?_ hroot) (h.plain_route hstart hplain hx)
  exact block?_isSome_iff.mp (h.traced.descended.live (block?_isSome_iff.mpr hx))

/-- A step down takes the pieces of the child's name. -/
theorem route_child (hup : parentAt d.place? x = some up) (hname : nameAt d.place? x = some name) :
    start.route x = start.route up ++ pathSegments name := by
  rw [← h.pathSegments_pathOf hstart hplain (isSome_of_parentAt hup) (h.rooted.up_lt hup).1,
    h.rooted.pathOf_child hup hname, childPath]
  by_cases hroot : up = d.root
  · rw [if_pos hroot, hroot, show d.root = ⟨0⟩ from rfl, route_root, List.nil_append]
  · rw [if_neg hroot, pathSegments_append,
      h.pathSegments_pathOf hstart hplain (h.rooted.live_up hup) hroot]

theorem length_route_lt (hup : parentAt d.place? x = some up) :
    (start.route up).length < (start.route x).length := by
  obtain ⟨name, hname, _⟩ := h.rooted.exists_name hup
  have hpieces := List.length_pos_iff.mpr (pathSegments_ne_nil name)
  rw [h.route_child hstart hplain hup hname, List.length_append]
  omega

theorem plain_child (hup : parentAt d.place? x = some up) (hname : nameAt d.place? x = some name)
    {rest : List String} (hrest : ∀ piece ∈ rest, Plain piece) :
    ∀ piece ∈ pathSegments name ++ rest, Plain piece := by
  refine List.forall_mem_append.mpr ⟨fun piece hpiece => ?_, hrest⟩
  refine h.plain_route hstart hplain (isSome_of_parentAt hup) piece ?_
  rw [h.route_child hstart hplain hup hname]
  exact List.mem_append_right _ hpiece

/-- No other child is named by a run of pieces from the one named first. -/
theorem longestChild?_eq (hb : d.block? up = some b) (hup : parentAt d.place? x = some up)
    (hname : nameAt d.place? x = some name) {rest : List String}
    (hrest : ∀ piece ∈ rest, Plain piece) :
    b.longestChild? (pathSegments name ++ rest) = some ((pathSegments name).length - 1, x) := by
  have hroute := h.route_child hstart hplain hup hname
  have hlength := List.length_pos_iff.mpr (pathSegments_ne_nil name)
  have hpieces := h.plain_child hstart hplain hup hname hrest
  refine findSome?_eq_some_of_unique ⟨(pathSegments name).length - 1, ?_, ?_⟩
    fun k hk y hy => ?_
  · rw [List.mem_reverse, List.mem_range, List.length_append]
    omega
  · rw [Nat.sub_add_cancel hlength, List.take_left, joinPath_pathSegments,
      (h.rooted.child?_eq_some_iff hb).mpr ⟨hup, hname⟩]
    rfl
  · obtain ⟨y, hchild, rfl⟩ := Option.map_eq_some_iff.mp hy
    obtain ⟨hup', hname'⟩ := (h.rooted.child?_eq_some_iff hb).mp hchild
    have hroute' := h.route_child hstart hplain hup' hname'
    rw [List.mem_reverse, List.mem_range] at hk
    rw [pathSegments_joinPath (List.ne_nil_of_length_pos (by simp; omega))
      fun piece hpiece => hpieces piece (List.mem_of_mem_take hpiece)] at hroute'
    -- the ways down to both are the start of one way, so they are the same
    have hboth : start.route y <+: start.route up ++ (pathSegments name ++ rest) := by
      rw [hroute', List.prefix_append_right_inj]
      exact List.take_prefix _ _
    have hfirst : start.route x <+: start.route up ++ (pathSegments name ++ rest) := by
      rw [hroute, List.prefix_append_right_inj]
      exact List.prefix_append _ _
    have hlonger : ∀ z, parentAt d.place? z = some up →
        (start.route up).length < (start.route z).length :=
      fun z hz => h.length_route_lt hstart hplain hz
    obtain rfl : y = x := by
      rcases List.prefix_or_prefix_of_prefix hboth hfirst with hprefix | hprefix
      · exact h.apart hup hup' hprefix hlonger
      · exact (h.apart hup' hup hprefix hlonger).symm
    have hlengths := congrArg List.length (hroute'.symm.trans hroute)
    rw [List.length_append, List.length_append, List.length_take] at hlengths
    rw [Prod.mk.injEq]
    exact ⟨by omega, rfl⟩

/-- A block is found on the way to whatever comes after it. -/
theorem findFrom_route (hx : (d.place? x).isSome) {rest : List String}
    (hrest : ∀ piece ∈ rest, Plain piece) :
    d.findFrom path d.root (start.route x ++ rest) = d.findFrom path x rest := by
  -- from the top down: the step from a composite takes the pieces of its child
  have hdown : ∀ n (x : BlockId), x.index < n → (d.place? x).isSome →
      ∀ rest : List String, (∀ piece ∈ rest, Plain piece) →
        d.findFrom path d.root (start.route x ++ rest) = d.findFrom path x rest := by
    intro n
    induction n with
    | zero => exact fun _ hlt => absurd hlt (Nat.not_lt_zero _)
    | succ n ih =>
        intro x hlt hx rest hrest
        by_cases hroot : x = ⟨0⟩
        · rw [hroot, route_root, List.nil_append]
          rfl
        · obtain ⟨up, hup⟩ := h.rooted.exists_up hx hroot
          obtain ⟨name, hname, _⟩ := h.rooted.exists_name hup
          obtain ⟨b, hb⟩ := Option.isSome_iff_exists.mp
            (block?_isSome_iff.mpr (h.rooted.live_up hup))
          have hlt' := (h.rooted.up_lt hup).2
          have hlength := List.length_pos_iff.mpr (pathSegments_ne_nil name)
          rw [h.route_child hstart hplain hup hname, List.append_assoc,
            ih up (by omega) (h.rooted.live_up hup) _ (h.plain_child hstart hplain hup hname hrest),
            findFrom_child hb (by simp [pathSegments_ne_nil])
              (h.longestChild?_eq hstart hplain hb hup hname hrest),
            Nat.sub_add_cancel hlength, List.drop_left]
  exact hdown (x.index + 1) x (Nat.lt_succ_self _) hx rest hrest

/-- Every block is found under its path. -/
theorem find_pathOf (hx : (d.place? x).isSome) (hroot : x ≠ ⟨0⟩) : d.find (d.pathOf x) = .ok x := by
  have hfound : d.findFrom (d.pathOf x) d.root (start.route x ++ []) =
      d.findFrom (d.pathOf x) x [] := h.findFrom_route hstart hplain hx (by simp)
  rw [List.append_nil] at hfound
  rw [find, if_neg (by simpa using h.rooted.pathOf_ne_empty hx hroot),
    h.pathSegments_pathOf hstart hplain hx hroot, hfound, findFrom, dif_pos rfl]

/-- No block has the path of a port. -/
theorem find_portPath {b : Block α} {port : Port α} (hb : d.block? x = some b)
    (hport : port ∈ b.inputs ++ b.outputs) (hroot : x ≠ ⟨0⟩) (hname : Plain port.name) :
    d.find (d.pathOf x ++ "." ++ port.name) =
      .error (.blockNotFound (d.pathOf x ++ "." ++ port.name)) := by
  have hx := block?_isSome_iff.mp (Option.isSome_of_eq_some hb)
  -- a child of the block does not have the name of one of its ports
  have hmissing : b.longestChild? [port.name] = none := by
    refine List.findSome?_eq_none_iff.mpr fun k _ => ?_
    have htake : joinPath ([port.name].take (k + 1)) = port.name := by simp [joinPath]
    rw [htake, Option.map_eq_none_iff, Option.eq_none_iff_forall_ne_some]
    intro y hy
    obtain ⟨hup, hyname⟩ := (h.rooted.child?_eq_some_iff hb).mp hy
    obtain ⟨name, hname', hentry⟩ := h.rooted.exists_name hup
    cases hyname.symm.trans hname'
    refine (h.tree.free x port.name y hentry).2 ?_
    rw [portNamesAt, place?_eq hb]
    exact List.mem_map_of_mem hport
  rw [find, if_neg (by simp), pathSegments_append, pathSegments_of_plain hname,
    h.pathSegments_pathOf hstart hplain hx hroot,
    h.findFrom_route hstart hplain hx (List.forall_mem_singleton.mpr hname),
    findFrom_missing hb (List.cons_ne_nil _ _) hmissing]

omit hstart in
/-- The names of ports are the ones they had at first. -/
theorem plain_port {b : Block α} {port : Port α} (hb : d.block? x = some b)
    (hport : port ∈ b.inputs ++ b.outputs) : Plain port.name := by
  have hx := block?_isSome_iff.mp (Option.isSome_of_eq_some hb)
  refine hplain.port (x := x) ?_
  rw [← h.traced.descended.portNames hx, portNamesAt, place?_eq hb]
  exact List.mem_map_of_mem hport

omit hstart in
/-- A port of the model itself has no point in its name. -/
theorem not_rootName {model : Block α} (hmodel : d.block? d.root = some model) (above name : String) :
    model.outputIndex? (above ++ "." ++ name) = none ∧
      model.inputIndex? (above ++ "." ++ name) = none := by
  have hother : ∀ port ∈ model.inputs ++ model.outputs,
      (port.name == above ++ "." ++ name) = false := by
    intro port hport
    refine beq_false_of_ne fun heq => not_plain_append above name ?_
    rw [← heq]
    exact h.plain_port hplain hmodel hport
  refine ⟨List.findIdx?_eq_none_iff.mpr fun port hport => hother port ?_,
    List.findIdx?_eq_none_iff.mpr fun port hport => hother port ?_⟩
  · exact List.mem_append_right _ hport
  · exact List.mem_append_left _ hport

/-- Every output is found under its path. -/
theorem findPort_portPath {p : PortId} (hp : (d.port? p).isSome) (hside : p.side = .output)
    (hnames : AllBlocks (fun b => (b.outputs.map Port.name).Nodup) start) :
    d.findPort (d.portPath p) = .ok p := by
  obtain ⟨port, hport⟩ := Option.isSome_iff_exists.mp hp
  obtain ⟨b, hb, hget⟩ := block?_of_port? hport
  obtain ⟨block, side, index⟩ := p
  obtain rfl : side = .output := hside
  obtain ⟨b₀, hb₀, hwork⟩ := h.traced.descended block b hb
  have hdistinct : (b.outputs.map Port.name).Nodup := by
    have hsame : b.outputs.map Port.name = b₀.outputs.map Port.name := hwork.ports .output
    rw [hsame]
    exact hnames block b₀ hb₀
  have hindex : b.outputIndex? port.name = some index := Block.outputIndex?_eq_some hdistinct hget
  rw [portPath, hport]
  dsimp only
  split
  next hroot =>
    cases hroot
    exact findPort_output hb hindex
  next hroot =>
    have hx := block?_isSome_iff.mp (Option.isSome_of_eq_some hb)
    have hmem : port ∈ b.inputs ++ b.outputs := List.mem_append_right _ (List.mem_of_getElem? hget)
    have hname := h.plain_port hplain hb hmem
    obtain ⟨model, hmodel⟩ := Option.isSome_iff_exists.mp
      (block?_isSome_iff.mpr (isSome_of_compositeAt h.top.1))
    obtain ⟨houtput, hinput⟩ := h.not_rootName hplain hmodel (d.pathOf block) port.name
    have hpieces := h.pathSegments_pathOf hstart hplain hx hroot
    refine findPort_owned hmodel houtput hinput (h.find_portPath hstart hplain hb hmem hroot hname)
      (pathSegments_ne_nil (d.pathOf block)) ?_ ?_ hb hindex
    · rw [pathSegments_append, pathSegments_of_plain hname]
    · rw [joinPath_pathSegments]
      exact h.find_pathOf hstart hplain hx hroot

end Thinned

end Diagram

end CausalBlocks
