import Mathlib.Data.List.Nodup
import Mathlib.Logic.Relation
import CausalBlocks.Schedule.DepthFirst

/-!
# What a depth-first walk meets, and when it is done with it

The set of nodes that a walk meets is a matter of reachability; the order in which
it is done with them is one of strong components. `LatestFirst` states what the
order is good for: a node that leads to one finished later shares a component
with a node finished later.
-/

namespace CausalBlocks

variable {ν : Type}

/-- One node leads to another along successors, in any number of steps. -/
abbrev Leads (successors : ν → List ν) : ν → ν → Prop :=
  Relation.ReflTransGen fun u v => v ∈ successors u

/-- Each of two nodes leads to the other. -/
def Mutual (successors : ν → List ν) (u v : ν) : Prop :=
  Leads successors u v ∧ Leads successors v u

namespace Mutual

variable {successors : ν → List ν} {u v w : ν}

theorem refl (u : ν) : Mutual successors u u := ⟨.refl, .refl⟩

theorem symm (h : Mutual successors u v) : Mutual successors v u := ⟨h.2, h.1⟩

theorem trans (h : Mutual successors u v) (h' : Mutual successors v w) :
    Mutual successors u w := ⟨h.1.trans h'.1, h'.2.trans h.2⟩

end Mutual

theorem Leads.mem_of_closed {successors : ν → List ν} {all : List ν}
    (hclosed : ∀ u ∈ all, ∀ v ∈ successors u, v ∈ all) {u v : ν}
    (h : Leads successors u v) (hu : u ∈ all) : v ∈ all := by
  induction h with
  | refl => exact hu
  | tail _ hedge ih => exact hclosed _ ih _ hedge

/-- Following edges against their direction. -/
theorem Leads.reversed {forward backward : ν → List ν}
    (hswap : ∀ u v, v ∈ forward u ↔ u ∈ backward v) {u v : ν} (h : Leads forward u v) :
    Leads backward v u := by
  induction h with
  | refl => exact .refl
  | tail _ hedge ih => exact .head ((hswap _ _).mp hedge) ih

/-- Of finished nodes, latest first, each one that leads to a node which is not
finished before it shares a component with a later one. The nodes in `later` are
done with after all of the list. -/
def LatestFirst (successors : ν → List ν) : List ν → List ν → Prop
  | _, [] => True
  | later, node :: earlier =>
    (∀ v, Leads successors node v → v ∈ node :: earlier ∨ ∃ g ∈ later, Mutual successors g node) ∧
      LatestFirst successors (node :: later) earlier

namespace LatestFirst

variable {successors : ν → List ν} {later more finished : List ν}

theorem mono (h : LatestFirst successors later finished) (hsub : later ⊆ more) :
    LatestFirst successors more finished := by
  induction finished generalizing later more with
  | nil => trivial
  | cons node earlier ih =>
      refine ⟨?_, ih h.2 (List.cons_subset_cons node hsub)⟩
      intro v hv
      exact (h.1 v hv).imp_right fun ⟨g, hg, hmutual⟩ => ⟨g, hsub hg, hmutual⟩

/-- A node of the list that leads out of the list shares a component with a later
one. -/
theorem exists_mutual (h : LatestFirst successors later finished) {u v : ν}
    (hu : u ∈ finished) (hv : v ∉ finished) (hlead : Leads successors u v) :
    ∃ g ∈ later, Mutual successors g u := by
  -- induction from the node finished last, so that `later` grows by each node passed
  induction finished generalizing later with
  | nil => cases hu
  | cons node earlier ih =>
      have hnode : Leads successors node v → ∃ g ∈ later, Mutual successors g node := fun hlead =>
        (h.1 v hlead).resolve_left hv
      rcases List.mem_cons.mp hu with rfl | hu
      · exact hnode hlead
      · obtain ⟨g, hg, hmutual⟩ := ih h.2 hu fun hmem => hv (List.mem_cons_of_mem _ hmem)
        rcases List.mem_cons.mp hg with rfl | hg
        · -- the later one is the head itself, which then leads out of the list as well
          obtain ⟨g', hg', hmutual'⟩ := hnode (hmutual.1.trans hlead)
          exact ⟨g', hg', hmutual'.trans hmutual⟩
        · exact ⟨g, hg, hmutual⟩

end LatestFirst

namespace Walk

variable {successors : ν → List ν}

/-- The nodes on the way, innermost first. -/
def nodes (walk : Walk ν) : List ν := walk.trail.map Visit.node

/-- Between the moves of a walk through `all`: every node is on the way, finished
or fresh, each node on the way was met from the one below it, and a successor is
fresh only if a visit has still to look at it. -/
structure Sound (successors : ν → List ν) (all : List ν) (walk : Walk ν) : Prop where
  perm : (walk.nodes ++ (walk.finished ++ walk.fresh)).Perm all
  rest : ∀ v ∈ walk.trail, v.rest ⊆ successors v.node
  chain : walk.nodes.Pairwise fun above below => Leads successors below above
  pending : ∀ v ∈ walk.trail, ∀ next ∈ successors v.node, next ∈ v.rest ∨ next ∉ walk.fresh
  settled : ∀ node ∈ walk.finished, ∀ next ∈ successors node, next ∉ walk.fresh

namespace Sound

variable {all : List ν} {node next : ν} {rest : List ν} {trail : List (Visit ν)}
  {fresh finished : List ν}

theorem start (successors : ν → List ν) (all : List ν) :
    Sound successors all ⟨[], all, []⟩ where
  perm := List.Perm.refl all
  rest := by simp
  chain := List.Pairwise.nil
  pending := by simp
  settled := by simp

theorem fresh_nodup {walk : Walk ν} (h : Sound successors all walk) (hall : all.Nodup) :
    walk.fresh.Nodup :=
  (h.perm.nodup_iff.mpr hall).of_append_right.of_append_right

theorem finish (h : Sound successors all ⟨⟨node, []⟩ :: trail, fresh, finished⟩) :
    Sound successors all ⟨trail, fresh, node :: finished⟩ where
  perm := by
    have hperm := h.perm
    simp only [nodes, List.map_cons] at hperm ⊢
    exact List.perm_middle.trans hperm
  rest := fun v hv => h.rest v (List.mem_cons_of_mem _ hv)
  chain := by
    have hchain := h.chain
    simp only [nodes, List.map_cons] at hchain ⊢
    exact hchain.of_cons
  pending := fun v hv => h.pending v (List.mem_cons_of_mem _ hv)
  settled := by
    intro u hu v hv
    rcases List.mem_cons.mp hu with rfl | hu
    · -- the visit has looked at all successors, so none of them is fresh
      exact (h.pending _ List.mem_cons_self v hv).resolve_left (by simp)
    · exact h.settled u hu v hv

/-- A visit goes on to its next successor once that is not fresh. -/
theorem pass (above : List (Visit ν))
    (h : Sound successors all ⟨above ++ ⟨node, next :: rest⟩ :: trail, fresh, finished⟩)
    (hnot : next ∉ fresh) :
    Sound successors all ⟨above ++ ⟨node, rest⟩ :: trail, fresh, finished⟩ where
  perm := by simpa only [nodes, List.map_append, List.map_cons] using h.perm
  rest := by
    intro v hv
    have hmem : ∀ w : Visit ν, w ∈ above ∨ w ∈ trail →
        w ∈ above ++ ⟨node, next :: rest⟩ :: trail := by
      intro w hw
      rcases hw with hw | hw <;> simp [hw]
    rcases List.mem_append.mp hv with hv | hv
    · exact h.rest v (hmem v (.inl hv))
    · rcases List.mem_cons.mp hv with rfl | hv
      · exact fun u hu => h.rest ⟨node, next :: rest⟩ (by simp) (List.mem_cons_of_mem _ hu)
      · exact h.rest v (hmem v (.inr hv))
  chain := by simpa only [nodes, List.map_append, List.map_cons] using h.chain
  pending := by
    intro v hv u hu
    rcases List.mem_append.mp hv with hv | hv
    · exact h.pending v (List.mem_append_left _ hv) u hu
    · rcases List.mem_cons.mp hv with rfl | hv
      · rcases h.pending ⟨node, next :: rest⟩ (by simp) u hu with hmem | hmem
        · rcases List.mem_cons.mp hmem with rfl | hmem
          · exact .inr hnot
          · exact .inl hmem
        · exact .inr hmem
      · exact h.pending v (by simp [hv]) u hu
  settled := h.settled

/-- Everything on the way leads to what the innermost visit looks at next. -/
theorem leads_next (h : Sound successors all ⟨⟨node, next :: rest⟩ :: trail, fresh, finished⟩)
    {below : ν} (hbelow : below ∈ node :: trail.map Visit.node) : Leads successors below next := by
  have hedge : next ∈ successors node := h.rest _ List.mem_cons_self List.mem_cons_self
  have hchain := h.chain
  simp only [nodes, List.map_cons] at hchain
  rcases List.mem_cons.mp hbelow with rfl | hbelow
  · exact .single hedge
  · exact ((List.pairwise_cons.mp hchain).1 below hbelow).tail hedge

variable [DecidableEq ν]

/-- A fresh node to which everything on the way leads becomes the innermost one. -/
theorem enter (h : Sound successors all ⟨trail, fresh, finished⟩) (hfresh : next ∈ fresh)
    (hlead : ∀ below ∈ trail.map Visit.node, Leads successors below next) :
    Sound successors all ⟨⟨next, successors next⟩ :: trail, fresh.erase next, finished⟩ where
  perm := by
    have hperm := h.perm
    simp only [nodes, List.map_cons] at hperm ⊢
    refine List.Perm.trans ?_ hperm
    refine List.perm_middle.symm.trans (List.Perm.append_left _ ?_)
    exact List.perm_middle.symm.trans (List.Perm.append_left _ (List.perm_cons_erase hfresh).symm)
  rest := by
    intro v hv
    rcases List.mem_cons.mp hv with rfl | hv
    · exact List.Subset.refl _
    · exact h.rest v hv
  chain := by
    have hchain := h.chain
    simp only [nodes, List.map_cons] at hchain ⊢
    exact List.pairwise_cons.mpr ⟨hlead, hchain⟩
  pending := by
    intro v hv u hu
    rcases List.mem_cons.mp hv with rfl | hv
    · exact .inl hu
    · exact (h.pending v hv u hu).imp_right fun hnot hmem => hnot (List.mem_of_mem_erase hmem)
  settled := fun u hu v hv hmem => h.settled u hu v hv (List.mem_of_mem_erase hmem)

theorem meet (hall : all.Nodup)
    (h : Sound successors all ⟨⟨node, next :: rest⟩ :: trail, fresh, finished⟩)
    (hfresh : next ∈ fresh) :
    Sound successors all
      ⟨⟨next, successors next⟩ :: ⟨node, rest⟩ :: trail, fresh.erase next, finished⟩ := by
  have hnot : next ∉ fresh.erase next := (h.fresh_nodup hall).not_mem_erase
  -- entering first and passing afterwards: the visit below has then looked at `next`
  have henter := h.enter hfresh fun below hbelow => h.leads_next (by simpa using hbelow)
  exact henter.pass [⟨next, successors next⟩] hnot

end Sound

variable [DecidableEq ν] (successors)

/-- A walk is done with a node, meets a fresh one, or passes one by. What these
moves keep holds at the end, where no node is on the way. -/
theorem run_preserves {P : Walk ν → Prop}
    (hfinish : ∀ node trail fresh finished,
      P ⟨⟨node, []⟩ :: trail, fresh, finished⟩ → P ⟨trail, fresh, node :: finished⟩)
    (hmeet : ∀ node next rest trail fresh finished, next ∈ fresh →
      P ⟨⟨node, next :: rest⟩ :: trail, fresh, finished⟩ →
      P ⟨⟨next, successors next⟩ :: ⟨node, rest⟩ :: trail, fresh.erase next, finished⟩)
    (hpass : ∀ node next rest trail fresh finished, next ∉ fresh →
      P ⟨⟨node, next :: rest⟩ :: trail, fresh, finished⟩ →
      P ⟨⟨node, rest⟩ :: trail, fresh, finished⟩)
    {walk : Walk ν} (h : P walk) : P (walk.run successors) := by
  fun_induction Walk.run successors walk with
  | case1 fresh finished => exact h
  | case2 fresh finished node trail ih => exact ih (hfinish _ _ _ _ h)
  | case3 fresh finished node next rest trail hfresh ih => exact ih (hmeet _ _ _ _ _ _ hfresh h)
  | case4 fresh finished node next rest trail hfresh ih => exact ih (hpass _ _ _ _ _ _ hfresh h)

theorem run_trail (walk : Walk ν) : (walk.run successors).trail = [] := by
  fun_induction Walk.run successors walk with
  | case1 fresh finished => rfl
  | case2 fresh finished node trail ih => exact ih
  | case3 fresh finished node next rest trail hfresh ih => exact ih
  | case4 fresh finished node next rest trail hfresh ih => exact ih

/-- What was finished before a walk stays below what it finishes. -/
theorem run_append (walk : Walk ν) (old : List ν) :
    Walk.run successors ⟨walk.trail, walk.fresh, walk.finished ++ old⟩ =
      ⟨[], (walk.run successors).fresh, (walk.run successors).finished ++ old⟩ := by
  fun_induction Walk.run successors walk with
  | case1 fresh finished => rw [Walk.run]
  | case2 fresh finished node trail ih =>
      rw [Walk.run]
      exact ih
  | case3 fresh finished node next rest trail hfresh ih =>
      rw [Walk.run, if_pos hfresh]
      exact ih
  | case4 fresh finished node next rest trail hfresh ih =>
      rw [Walk.run, if_neg hfresh]
      exact ih

variable {successors} in
theorem run_sound {all : List ν} (hall : all.Nodup) {walk : Walk ν}
    (h : Sound successors all walk) : Sound successors all (walk.run successors) :=
  run_preserves successors (fun _ _ _ _ h => h.finish) (fun _ _ _ _ _ _ hfresh h => h.meet hall hfresh)
    (fun _ _ _ _ _ _ hnot h => h.pass [] hnot) h

/-- What is finished was reached from the start, if what is on the way was. -/
theorem run_reached (start : ν) (walk : Walk ν)
    (hrest : ∀ v ∈ walk.trail, v.rest ⊆ successors v.node)
    (hreached : ∀ node ∈ walk.nodes ++ walk.finished, Leads successors start node) :
    ∀ node ∈ (walk.run successors).finished, Leads successors start node := by
  -- the invariant also needs that visits only hold successors
  have hrun := run_preserves successors
    (P := fun walk => (∀ v ∈ walk.trail, v.rest ⊆ successors v.node) ∧
      ∀ node ∈ walk.nodes ++ walk.finished, Leads successors start node)
    ?_ ?_ ?_ ⟨hrest, hreached⟩
  · exact fun node hnode => hrun.2 node (List.mem_append_right _ hnode)
  · intro node trail fresh finished h
    refine ⟨fun v hv => h.1 v (List.mem_cons_of_mem _ hv), fun u hu => h.2 u ?_⟩
    simp only [nodes, List.map_cons, List.mem_append, List.mem_cons] at hu ⊢
    tauto
  · intro node next rest trail fresh finished _ h
    have hnode : Leads successors start node := h.2 node (by simp [nodes])
    have hedge : next ∈ successors node := h.1 _ List.mem_cons_self List.mem_cons_self
    refine ⟨?_, ?_⟩
    · intro v hv
      simp only [List.mem_cons] at hv
      rcases hv with rfl | rfl | hv
      · exact List.Subset.refl _
      · exact fun u hu => h.1 _ List.mem_cons_self (List.mem_cons_of_mem _ hu)
      · exact h.1 v (List.mem_cons_of_mem _ hv)
    · intro u hu
      simp only [nodes, List.map_cons, List.cons_append, List.mem_cons] at hu
      rcases hu with rfl | hu
      · exact hnode.tail hedge
      · exact h.2 u (by simpa [nodes] using hu)
  · intro node next rest trail fresh finished _ h
    refine ⟨?_, h.2⟩
    intro v hv
    rcases List.mem_cons.mp hv with rfl | hv
    · exact fun u hu => h.1 _ List.mem_cons_self (List.mem_cons_of_mem _ hu)
    · exact h.1 v (List.mem_cons_of_mem _ hv)

theorem run_fresh_subset (walk : Walk ν) : (walk.run successors).fresh ⊆ walk.fresh :=
  run_preserves successors (P := fun other => other.fresh ⊆ walk.fresh) (fun _ _ _ _ h => h)
    (fun _ _ _ _ _ _ _ h => List.Subset.trans List.erase_subset h) (fun _ _ _ _ _ _ _ h => h)
    (List.Subset.refl _)

variable {successors}

omit [DecidableEq ν] in
/-- When a walk is done with a node, everything that the node leads to is
finished, or the node shares a component with one on the way. -/
theorem Sound.finish_lead {all : List ν} {node : ν} {trail : List (Visit ν)}
    {fresh finished : List ν} (hclosed : ∀ u ∈ all, ∀ v ∈ successors u, v ∈ all)
    (h : Sound successors all ⟨⟨node, []⟩ :: trail, fresh, finished⟩) {v : ν}
    (hlead : Leads successors node v) :
    v ∈ node :: finished ∨ ∃ g ∈ trail.map Visit.node, Mutual successors g node := by
  have hperm := h.perm
  have hchain := h.chain
  simp only [nodes, List.map_cons] at hperm hchain
  -- a member that is not fresh is finished or on the way
  have hmem : ∀ u ∈ all, u ∉ fresh → u ∈ node :: finished ∨ u ∈ trail.map Visit.node := by
    intro u hu hnot
    have hu := hperm.mem_iff.mpr hu
    simp only [List.mem_append, List.mem_cons] at hu ⊢
    tauto
  -- along the path: it stays among finished nodes until it meets one on the way
  induction hlead with
  | refl => exact .inl List.mem_cons_self
  | @tail u v hlead hedge ih =>
      rcases ih with hu | hg
      · have hnot : v ∉ fresh := by
          rcases List.mem_cons.mp hu with rfl | hu
          · exact (h.pending _ List.mem_cons_self v hedge).resolve_left (by simp)
          · exact h.settled u hu v hedge
        have hall : v ∈ all := by
          refine hclosed u (hperm.mem_iff.mp ?_) v hedge
          simp only [List.mem_append, List.mem_cons] at hu ⊢
          tauto
        refine (hmem v hall hnot).imp_right fun hv => ⟨v, hv, ?_, hlead.tail hedge⟩
        exact (List.pairwise_cons.mp hchain).1 v hv
      · exact .inr hg

/-- A walk through a closed set finishes its nodes latest first. -/
theorem run_latestFirst {all : List ν} (hall : all.Nodup)
    (hclosed : ∀ u ∈ all, ∀ v ∈ successors u, v ∈ all) {walk : Walk ν}
    (hsound : Sound successors all walk)
    (horder : LatestFirst successors walk.nodes walk.finished) :
    LatestFirst successors [] (walk.run successors).finished := by
  have hrun := run_preserves successors
    (P := fun walk => Sound successors all walk ∧
      LatestFirst successors walk.nodes walk.finished)
    ?_ ?_ ?_ ⟨hsound, horder⟩
  · have horder := hrun.2
    rwa [nodes, run_trail] at horder
  · intro node trail fresh finished h
    exact ⟨h.1.finish, fun v hlead => h.1.finish_lead hclosed hlead, h.2⟩
  · intro node next rest trail fresh finished hfresh h
    exact ⟨h.1.meet hall hfresh, h.2.mono (List.subset_cons_self _ _)⟩
  · intro node next rest trail fresh finished hnot h
    exact ⟨h.1.pass [] hnot, h.2⟩

end Walk

/-- What a walk from a fresh node comes to: it meets the node and only what the
node leads to, leaves the rest fresh, and leads from what it met to nothing
fresh. -/
structure Explored (successors : ν → List ν) (fresh : List ν) (start : ν) (met left : List ν) :
    Prop where
  perm : (met ++ left).Perm fresh
  start_mem : start ∈ met
  reached : ∀ node ∈ met, Leads successors start node
  settled : ∀ node ∈ met, ∀ next ∈ successors node, next ∉ left

section

variable [DecidableEq ν] {successors : ν → List ν} {fresh : List ν} {start : ν}

theorem walkFrom_of_notMem (hstart : start ∉ fresh) :
    walkFrom successors fresh start = ([], fresh) := by
  rw [walkFrom, if_neg hstart]

variable (successors) in
theorem walkFrom_explored (hnodup : fresh.Nodup) (hstart : start ∈ fresh) :
    Explored successors fresh start (walkFrom successors fresh start).1
      (walkFrom successors fresh start).2 := by
  have hsound := Walk.run_sound hnodup ((Walk.Sound.start successors fresh).enter hstart (by simp))
  have hreached := Walk.run_reached successors start
    ⟨[⟨start, successors start⟩], fresh.erase start, []⟩ (by simp)
    (by simpa [Walk.nodes] using Relation.ReflTransGen.refl)
  have hleft := Walk.run_fresh_subset successors
    ⟨[⟨start, successors start⟩], fresh.erase start, []⟩
  rw [walkFrom, if_pos hstart]
  have hperm := hsound.perm
  simp only [Walk.nodes, Walk.run_trail, List.map_nil, List.nil_append] at hperm
  refine ⟨hperm, ?_, hreached, hsound.settled⟩
  -- the start is not left fresh, because the walk took it before its first move
  refine (List.mem_append.mp (hperm.mem_iff.mpr hstart)).resolve_right ?_
  exact fun hmem => hnodup.not_mem_erase (hleft hmem)

/-- Walks from nodes that include all fresh ones finish everything, latest
first. -/
theorem walksFrom_latestFirst {all : List ν} (hall : all.Nodup)
    (hclosed : ∀ u ∈ all, ∀ v ∈ successors u, v ∈ all) (starts : List ν) {old : List ν}
    (hsound : Walk.Sound successors all ⟨[], fresh, old⟩)
    (horder : LatestFirst successors [] old) (hstarts : fresh ⊆ starts) :
    LatestFirst successors [] ((walksFrom successors fresh starts).reverse.flatten ++ old) ∧
      ((walksFrom successors fresh starts).reverse.flatten ++ old).Perm all := by
  -- `old` collects what earlier walks finished, with nothing on the way between them
  induction starts generalizing fresh old with
  | nil =>
      have hfresh : fresh = [] := List.subset_nil.mp hstarts
      subst fresh
      exact ⟨horder, by simpa [walksFrom, Walk.nodes] using hsound.perm⟩
  | cons start rest ih =>
      simp only [walksFrom, List.reverse_cons, List.flatten_append, List.flatten_cons,
        List.flatten_nil, List.append_nil, List.append_assoc]
      by_cases hstart : start ∈ fresh
      · have hexplored := walkFrom_explored successors
          (hsound.fresh_nodup hall) hstart
        have henter := hsound.enter hstart (by simp)
        have happend := Walk.run_append successors
          ⟨[⟨start, successors start⟩], fresh.erase start, []⟩ old
        have hrun := Walk.run_sound hall henter
        have hlatest := Walk.run_latestFirst hall hclosed henter
          (horder.mono (List.nil_subset _))
        simp only [List.nil_append] at happend
        rw [happend] at hrun hlatest
        rw [walkFrom, if_pos hstart] at hexplored ⊢
        refine ih hrun hlatest fun u hu => ?_
        have hne : u ≠ start := by
          rintro rfl
          have hnodup := hexplored.perm.nodup_iff.mpr (hsound.fresh_nodup hall)
          exact (List.nodup_append.mp hnodup).2.2 u hexplored.start_mem u hu rfl
        have hmem := hstarts (hexplored.perm.mem_iff.mp (List.mem_append_right _ hu))
        exact (List.mem_cons.mp hmem).resolve_left hne
      · rw [walkFrom_of_notMem hstart]
        refine ih hsound horder fun u hu => ?_
        exact (List.mem_cons.mp (hstarts hu)).resolve_left fun heq => hstart (heq ▸ hu)

end

/-- Where walks against the edges stand: they are still to start from some nodes, latest
first, and what is fresh is among these, whole components of it. -/
structure Sweep (forward : ν → List ν) (later starts fresh : List ν) : Prop where
  distinct : starts.Nodup
  nodup : fresh.Nodup
  subset : fresh ⊆ starts
  whole : ∀ u v, Mutual forward u v → u ∈ fresh → v ∈ fresh
  past : ∀ g ∈ later, g ∉ fresh
  order : LatestFirst forward later starts

namespace Sweep

variable {forward backward : ν → List ν} {later rest fresh met left : List ν} {start : ν}

/-- Walking against the edges from a node that finished after everything else of
its component, through fresh nodes only, meets exactly the component. -/
theorem mem_met_iff (hswap : ∀ u v, v ∈ forward u ↔ u ∈ backward v)
    (h : Sweep forward later (start :: rest) fresh)
    (hexplored : Explored backward fresh start met left) (v : ν) :
    v ∈ met ↔ Mutual forward start v := by
  have hstart : start ∉ rest := (List.nodup_cons.mp h.distinct).1
  have hmem : ∀ u ∈ met, u ∈ fresh := fun u hu =>
    hexplored.perm.mem_iff.mp (List.mem_append_left _ hu)
  constructor
  · intro hv
    have hlead : Leads forward v start :=
      Leads.reversed (fun u w => (hswap w u).symm) (hexplored.reached v hv)
    rcases List.mem_cons.mp (h.subset (hmem v hv)) with rfl | hrest
    · exact .refl v
    · -- what finished before the start leads to it only by way of something later, and
      -- nothing of that is fresh
      obtain ⟨g, hg, hgv⟩ := h.order.2.exists_mutual hrest hstart hlead
      rcases List.mem_cons.mp hg with rfl | hg
      · exact hgv
      · exact absurd (h.whole v g hgv.symm (hmem v hv)) (h.past g hg)
  · intro hv
    have hback : Leads backward start v := Leads.reversed hswap hv.2
    have hreturn : Leads forward start v := hv.1
    clear hv
    -- along the path against the edges: each node on it is mutual with the start, hence fresh
    induction hback with
    | refl => exact hexplored.start_mem
    | @tail u v hback hedge ih =>
        have hu : u ∈ met := ih (hreturn.tail ((hswap v u).mpr hedge))
        have hlead : Leads forward v start :=
          Leads.reversed (fun u w => (hswap w u).symm) (hback.tail hedge)
        have hv : v ∈ fresh :=
          h.whole start v ⟨hreturn, hlead⟩ (hmem start hexplored.start_mem)
        exact (List.mem_append.mp (hexplored.perm.mem_iff.mpr hv)).resolve_right
          (hexplored.settled u hu v hedge)

/-- After a walk from a fresh node. -/
theorem next (hswap : ∀ u v, v ∈ forward u ↔ u ∈ backward v)
    (h : Sweep forward later (start :: rest) fresh)
    (hexplored : Explored backward fresh start met left) :
    Sweep forward (start :: later) rest left := by
  have hnodup := hexplored.perm.nodup_iff.mpr h.nodup
  have hdisjoint : ∀ u ∈ met, u ∉ left := fun u hu hleft =>
    (List.nodup_append.mp hnodup).2.2 u hu u hleft rfl
  have hleft : ∀ u ∈ left, u ∈ fresh := fun u hu =>
    hexplored.perm.mem_iff.mp (List.mem_append_right _ hu)
  refine ⟨h.distinct.of_cons, hnodup.of_append_right, fun u hu => ?_, fun u v huv hu => ?_,
    fun g hg hgl => ?_, h.order.2⟩
  · refine (List.mem_cons.mp (h.subset (hleft u hu))).resolve_left fun heq => ?_
    exact hdisjoint start hexplored.start_mem (heq ▸ hu)
  · -- a component met in part would have been met as a whole
    have hv := hexplored.perm.mem_iff.mpr (h.whole u v huv (hleft u hu))
    refine (List.mem_append.mp hv).resolve_left fun hv => hdisjoint u ?_ hu
    exact (h.mem_met_iff hswap hexplored u).mpr
      (((h.mem_met_iff hswap hexplored v).mp hv).trans huv.symm)
  · rcases List.mem_cons.mp hg with rfl | hg
    · exact hdisjoint g hexplored.start_mem hgl
    · exact h.past g hg (hleft g hgl)

/-- Past a node that has been met. -/
theorem skip (h : Sweep forward later (start :: rest) fresh) (hstart : start ∉ fresh) :
    Sweep forward (start :: later) rest fresh := by
  refine ⟨h.distinct.of_cons, h.nodup, fun u hu => ?_, h.whole, fun g hg => ?_, h.order.2⟩
  · exact (List.mem_cons.mp (h.subset hu)).resolve_left fun heq => hstart (heq ▸ hu)
  · rcases List.mem_cons.mp hg with rfl | hg
    · exact hstart
    · exact h.past g hg

variable [DecidableEq ν] {starts : List ν}

/-- Walks against the edges, from the node finished last on, meet the components
one by one, and none leads to one met before. -/
theorem walksFrom_components (hswap : ∀ u v, v ∈ forward u ↔ u ∈ backward v)
    (h : Sweep forward later starts fresh) :
    (∀ met ∈ walksFrom backward fresh starts, ∀ u ∈ met, ∀ v,
        v ∈ met ↔ Mutual forward u v) ∧
      (walksFrom backward fresh starts).flatten.Perm fresh ∧
      (walksFrom backward fresh starts).Pairwise fun first second =>
        ∀ u ∈ first, ∀ v ∈ second, ¬Leads forward v u := by
  induction starts generalizing later fresh with
  | nil =>
      have hnil : fresh = [] := List.subset_nil.mp h.subset
      subst fresh
      simp [walksFrom]
  | cons start rest ih =>
      simp only [walksFrom]
      by_cases hstart : start ∈ fresh
      · have hexplored := walkFrom_explored backward h.nodup hstart
        generalize walkFrom backward fresh start = walked at hexplored ⊢
        obtain ⟨met, left⟩ := walked
        simp only at hexplored ⊢
        have hmet := h.mem_met_iff hswap hexplored
        have hnext := h.next hswap hexplored
        obtain ⟨hclasses, hperm, hpairwise⟩ := ih hnext
        refine ⟨List.forall_mem_cons.mpr ⟨fun u hu v => ?_, hclasses⟩,
          (List.Perm.append_left met hperm).trans hexplored.perm,
          List.pairwise_cons.mpr ⟨fun second hsecond u hu v hv hlead => ?_, hpairwise⟩⟩
        · have hu := (hmet u).mp hu
          exact (hmet v).trans ⟨hu.symm.trans, hu.trans⟩
        · -- a later component that led here would share a node with this one
          have hvLeft : v ∈ left :=
            hperm.mem_iff.mp (List.mem_flatten.mpr ⟨second, hsecond, hv⟩)
          have hback : Leads forward v start := hlead.trans ((hmet u).mp hu).2
          obtain ⟨g, hg, hgv⟩ := hnext.order.exists_mutual (hnext.subset hvLeft)
            (List.nodup_cons.mp h.distinct).1 hback
          exact hnext.past g hg (hnext.whole v g hgv.symm hvLeft)
      · rw [walkFrom_of_notMem hstart]
        obtain ⟨hclasses, hperm, hpairwise⟩ := ih (h.skip hstart)
        refine ⟨List.forall_mem_cons.mpr ⟨?_, hclasses⟩, by simpa using hperm,
          List.pairwise_cons.mpr ⟨?_, hpairwise⟩⟩
        · simp
        · simp

end Sweep

end CausalBlocks
