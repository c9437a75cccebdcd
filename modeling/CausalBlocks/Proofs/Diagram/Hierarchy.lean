import Mathlib.Data.List.Nodup
import CausalBlocks.Proofs.Diagram.View

/-!
# The tree of blocks

Every block but the first has a composite as parent, which lists it and finds it
by its name. A change of the tree takes a block out of its composite, works on it
while it is loose, and puts it into a composite again.
-/

namespace CausalBlocks

/-! ### Reading a place -/

/-- The name of a block. -/
def nameAt (place : BlockId → Option Place) (id : BlockId) : Option String :=
  (place id).map Place.name

/-- The composite that a block is in. -/
def parentAt (place : BlockId → Option Place) (id : BlockId) : Option BlockId :=
  (place id).bind Place.parent

/-- Whether a block is there and a composite. -/
def compositeAt (place : BlockId → Option Place) (id : BlockId) : Bool :=
  ((place id).map Place.composite).getD false

/-- The children of a block. -/
def childrenAt (place : BlockId → Option Place) (id : BlockId) : List BlockId :=
  ((place id).map Place.children).getD []

/-- The children of a block by name. -/
def indexAt (place : BlockId → Option Place) (id : BlockId) : List (String × BlockId) :=
  ((place id).map Place.childIndex).getD []

/-- The names of the ports of a block. -/
def portNamesAt (place : BlockId → Option Place) (id : BlockId) : List String :=
  ((place id).map Place.portNames).getD []

/-- The blocks are trees with the loose blocks at their tops. No composite lists a
loose block; every other block is listed by its parent. -/
structure Nested (loose : BlockId → Prop) (place : BlockId → Option Place) : Prop where
  parent : ∀ id, (place id).isSome → ¬loose id → ∃ up, id ∈ childrenAt place up
  child : ∀ up id, id ∈ childrenAt place up →
    ¬loose id ∧ parentAt place id = some up ∧ compositeAt place up = true ∧ up.index < id.index
  nodup : ∀ up, (childrenAt place up).Nodup
  index : ∀ up name id, (name, id) ∈ indexAt place up ↔
    id ∈ childrenAt place up ∧ nameAt place id = some name
  names : ∀ up, ((indexAt place up).map Prod.fst).Nodup
  free : ∀ up name id, (name, id) ∈ indexAt place up → name ≠ "" ∧ name ∉ portNamesAt place up

/-! ### Changing a place -/

namespace Place

/-- The place of a composite after a child has left. -/
def leave (p : Place) (id : BlockId) (name : String) : Place :=
  { p with
    children := p.children.filter (· ≠ id)
    childIndex := p.childIndex.filter fun entry => entry.1 ≠ name }

/-- The place of a composite after a child has come in. -/
def enter (p : Place) (id : BlockId) (name : String) : Place :=
  { p with children := p.children ++ [id], childIndex := p.childIndex ++ [(name, id)] }

/-- The place of a block that has moved to another composite. -/
def moved (p : Place) (parent : BlockId) (name : String) : Place :=
  { p with parent := some parent, name }

end Place

/-- The view with the place of one block changed. -/
def changed (place : BlockId → Option Place) (id : BlockId) (f : Place → Place) (x : BlockId) :
    Option Place :=
  if x = id then (place x).map f else place x

section Changed

variable {place : BlockId → Option Place} {id up x : BlockId} {f : Place → Place}
  {name : String}

theorem changed_isSome : (changed place id f x).isSome = (place x).isSome := by
  rw [changed]
  split
  · exact Option.isSome_map
  · rfl

/-- Changes of different blocks can be done in either order. -/
theorem changed_comm {g : Place → Place} (hne : id ≠ up) :
    changed (changed place up g) id f = changed (changed place id f) up g := by
  funext x
  simp only [changed]
  by_cases hid : x = id
  · simp [hid, hne]
  · simp [hid]

theorem nameAt_changed (hf : ∀ p, (f p).name = p.name) :
    nameAt (changed place id f) x = nameAt place x := by
  rw [nameAt, changed, nameAt]
  split <;> simp [Function.comp_def, hf]

theorem parentAt_changed (hf : ∀ p, (f p).parent = p.parent) :
    parentAt (changed place id f) x = parentAt place x := by
  rw [parentAt, changed, parentAt]
  split
  · rw [Option.bind_map, show Place.parent ∘ f = Place.parent from funext hf]
  · rfl

theorem compositeAt_changed (hf : ∀ p, (f p).composite = p.composite) :
    compositeAt (changed place id f) x = compositeAt place x := by
  rw [compositeAt, changed, compositeAt]
  split <;> simp [Function.comp_def, hf]

theorem portNamesAt_changed (hf : ∀ p, (f p).portNames = p.portNames) :
    portNamesAt (changed place id f) x = portNamesAt place x := by
  rw [portNamesAt, changed, portNamesAt]
  split <;> simp [Function.comp_def, hf]

theorem childrenAt_changed (g : List BlockId → List BlockId) (hid : (place id).isSome)
    (hf : ∀ p, (f p).children = g p.children) :
    childrenAt (changed place id f) x =
      if x = id then g (childrenAt place x) else childrenAt place x := by
  obtain ⟨p, hp⟩ := Option.isSome_iff_exists.mp hid
  rw [childrenAt, changed, childrenAt]
  split
  next h => simp [h, hp, hf]
  next => rfl

theorem indexAt_changed (g : List (String × BlockId) → List (String × BlockId))
    (hid : (place id).isSome) (hf : ∀ p, (f p).childIndex = g p.childIndex) :
    indexAt (changed place id f) x = if x = id then g (indexAt place x) else indexAt place x := by
  obtain ⟨p, hp⟩ := Option.isSome_iff_exists.mp hid
  rw [indexAt, changed, indexAt]
  split
  next h => simp [h, hp, hf]
  next => rfl

/-- What a view shows after the list of children of one block has changed. -/
structure Relisted (place place' : BlockId → Option Place) (up : BlockId)
    (list : List BlockId → List BlockId)
    (entries : List (String × BlockId) → List (String × BlockId)) : Prop where
  live : ∀ x, (place' x).isSome = (place x).isSome
  name : ∀ x, nameAt place' x = nameAt place x
  parent : ∀ x, parentAt place' x = parentAt place x
  composite : ∀ x, compositeAt place' x = compositeAt place x
  portNames : ∀ x, portNamesAt place' x = portNamesAt place x
  children : ∀ x, childrenAt place' x = if x = up then list (childrenAt place x) else childrenAt place x
  index : ∀ x, indexAt place' x = if x = up then entries (indexAt place x) else indexAt place x

theorem relisted_changed (list : List BlockId → List BlockId)
    (entries : List (String × BlockId) → List (String × BlockId)) (hup : (place up).isSome)
    (hf : ∀ p, f p = { p with children := list p.children, childIndex := entries p.childIndex }) :
    Relisted place (changed place up f) up list entries where
  live x := changed_isSome
  name x := nameAt_changed fun p => by rw [hf]
  parent x := parentAt_changed fun p => by rw [hf]
  composite x := compositeAt_changed fun p => by rw [hf]
  portNames x := portNamesAt_changed fun p => by rw [hf]
  children x := childrenAt_changed list hup fun p => by rw [hf]
  index x := indexAt_changed entries hup fun p => by rw [hf]

theorem parentAt_moved {parent : BlockId} (hid : (place id).isSome) :
    parentAt (changed place id fun p => p.moved parent name) x =
      if x = id then some parent else parentAt place x := by
  obtain ⟨p, hp⟩ := Option.isSome_iff_exists.mp hid
  rw [parentAt, changed, parentAt]
  split
  next h => rw [h, hp]; rfl
  next => rfl

theorem nameAt_moved {parent : BlockId} (hid : (place id).isSome) :
    nameAt (changed place id fun p => p.moved parent name) x =
      if x = id then some name else nameAt place x := by
  obtain ⟨p, hp⟩ := Option.isSome_iff_exists.mp hid
  rw [nameAt, changed, nameAt]
  split
  next h => rw [h, hp]; rfl
  next => rfl

theorem isSome_of_compositeAt (h : compositeAt place id = true) : (place id).isSome := by
  rw [compositeAt] at h
  cases hp : place id <;> simp_all

theorem isSome_of_parentAt (h : parentAt place id = some up) : (place id).isSome := by
  rw [parentAt] at h
  cases hp : place id <;> simp_all

end Changed

/-- The view after a block has moved from one composite to another. -/
def relocated (place : BlockId → Option Place) (id up parent : BlockId) (old name : String) :
    BlockId → Option Place :=
  changed (changed (changed place up fun p => p.leave id old) parent fun p => p.enter id name) id
    fun p => p.moved parent name

/-- The view after a block has been taken out. -/
def removed (place : BlockId → Option Place) (id up : BlockId) (name : String) (x : BlockId) :
    Option Place :=
  if x = id then none else changed place up (fun p => p.leave id name) x

section Relocated

variable {place : BlockId → Option Place} {id up parent x : BlockId} {old name : String}

theorem parentAt_relocated (hid : (place id).isSome) :
    parentAt (relocated place id up parent old name) x =
      if x = id then some parent else parentAt place x := by
  rw [relocated, parentAt_moved (by rwa [changed_isSome, changed_isSome]),
    parentAt_changed (f := fun p => p.enter id name) fun _ => rfl,
    parentAt_changed (f := fun p => p.leave id old) fun _ => rfl]

theorem nameAt_relocated (hid : (place id).isSome) :
    nameAt (relocated place id up parent old name) x =
      if x = id then some name else nameAt place x := by
  rw [relocated, nameAt_moved (by rwa [changed_isSome, changed_isSome]),
    nameAt_changed (f := fun p => p.enter id name) fun _ => rfl,
    nameAt_changed (f := fun p => p.leave id old) fun _ => rfl]

theorem compositeAt_relocated :
    compositeAt (relocated place id up parent old name) x = compositeAt place x := by
  rw [relocated, compositeAt_changed (f := fun p => p.moved parent name) fun _ => rfl,
    compositeAt_changed (f := fun p => p.enter id name) fun _ => rfl,
    compositeAt_changed (f := fun p => p.leave id old) fun _ => rfl]

theorem childrenAt_relocated (hid : (place id).isSome) (hup : (place up).isSome)
    (hparent : (place parent).isSome) (hne : parent ≠ up) :
    childrenAt (relocated place id up parent old name) x =
      if x = parent then childrenAt place x ++ [id]
      else if x = up then (childrenAt place x).filter (· ≠ id) else childrenAt place x := by
  rw [relocated, childrenAt_changed (f := fun p => p.moved parent name) (fun ids => ids)
      (by rwa [changed_isSome, changed_isSome]) fun _ => rfl, ite_self,
    childrenAt_changed (f := fun p => p.enter id name) (fun ids => ids ++ [id])
      (by rwa [changed_isSome]) fun _ => rfl,
    childrenAt_changed (f := fun p => p.leave id old) (List.filter (· ≠ id)) hup fun _ => rfl]
  by_cases hx : x = parent
  · rw [if_pos hx, if_pos hx, if_neg (hx ▸ hne)]
  · rw [if_neg hx, if_neg hx]

theorem parentAt_removed :
    parentAt (removed place id up name) x = if x = id then none else parentAt place x := by
  have hleft : parentAt (changed place up fun p => p.leave id name) x = parentAt place x :=
    parentAt_changed fun _ => rfl
  rw [← hleft, parentAt, parentAt, removed]
  split <;> rfl

theorem nameAt_removed :
    nameAt (removed place id up name) x = if x = id then none else nameAt place x := by
  have hleft : nameAt (changed place up fun p => p.leave id name) x = nameAt place x :=
    nameAt_changed fun _ => rfl
  rw [← hleft, nameAt, nameAt, removed]
  split <;> rfl

theorem compositeAt_removed :
    compositeAt (removed place id up name) x = if x = id then false else compositeAt place x := by
  have hleft : compositeAt (changed place up fun p => p.leave id name) x = compositeAt place x :=
    compositeAt_changed fun _ => rfl
  rw [← hleft, compositeAt, compositeAt, removed]
  split <;> rfl

end Relocated

namespace Nested

variable {loose : BlockId → Prop} {place : BlockId → Option Place} {id up x : BlockId}
  {here above : Place} {name : String}

theorem congr {loose' : BlockId → Prop} (h : Nested loose place) (hloose : ∀ x, loose x ↔ loose' x) :
    Nested loose' place := by
  have : loose = loose' := funext fun x => propext (hloose x)
  rwa [← this]

/-- A block is listed by its parent only. -/
theorem up_unique (h : Nested loose place) {other : BlockId}
    (hid : id ∈ childrenAt place up) (hid' : id ∈ childrenAt place other) : other = up := by
  have hparent := (h.child up id hid).2.1
  rw [(h.child other id hid').2.1, Option.some.injEq] at hparent
  exact hparent

theorem mem_of_parentAt (h : Nested loose place) (hloose : ¬loose id)
    (hparent : parentAt place id = some up) : id ∈ childrenAt place up := by
  obtain ⟨up', hmem⟩ := h.parent id (isSome_of_parentAt hparent) hloose
  have hup := (h.child up' id hmem).2.1
  rw [hparent, Option.some.injEq] at hup
  rwa [hup]

/-- A child of a composite can be made loose. -/
theorem drop (h : Nested loose place) (hid : id ∈ childrenAt place up)
    (hname : nameAt place id = some name) :
    Nested (fun x => loose x ∨ x = id) (changed place up fun p => p.leave id name) := by
  have hup := isSome_of_compositeAt (h.child up id hid).2.2.1
  obtain ⟨hlive, hnames, hparent, hcomposite, hports, hchildren, hindex⟩ :=
    relisted_changed (f := fun p => p.leave id name) (List.filter (· ≠ id))
      (List.filter fun entry => entry.1 ≠ name) hup fun _ => rfl
  -- no other child has the name that goes away
  have hother : ∀ x, (name, x) ∈ indexAt place up → x = id := by
    intro x hx
    have hentry := (h.index up name id).mpr ⟨hid, hname⟩
    exact congrArg Prod.snd (List.inj_on_of_nodup_map (h.names up) hx hentry rfl)
  constructor
  case parent =>
    intro x hx hloose
    rw [hlive] at hx
    rw [not_or] at hloose
    obtain ⟨up', hup'⟩ := h.parent x hx hloose.1
    exact ⟨up', by grind⟩
  case child =>
    intro up' x hx
    have := h.child up' x
    have : id ∈ childrenAt place up → id ∈ childrenAt place up' → up' = up :=
      fun hid hid' => h.up_unique hid hid'
    grind
  case nodup =>
    intro up'
    have := h.nodup up'
    grind
  case index =>
    intro up' name' x
    have := h.index up' name' x
    grind
  case names =>
    intro up'
    rw [hindex]
    split
    · exact (h.names up').sublist (List.filter_sublist.map _)
    · exact h.names up'
  case free =>
    intro up' name x hx
    have := h.free up' name x
    grind

/-- A loose block can be told another parent and another name. -/
theorem move (h : Nested loose place) (hid : (place id).isSome) (hloose : loose id) :
    Nested loose (changed place id fun p => p.moved up name) := by
  have hlive : ∀ x, (changed place id (fun p => p.moved up name) x).isSome = (place x).isSome :=
    fun x => changed_isSome
  have hnames : ∀ x, nameAt (changed place id fun p => p.moved up name) x =
      if x = id then some name else nameAt place x := fun x => nameAt_moved hid
  have hparent : ∀ x, parentAt (changed place id fun p => p.moved up name) x =
      if x = id then some up else parentAt place x := fun x => parentAt_moved hid
  have hcomposite : ∀ x,
      compositeAt (changed place id fun p => p.moved up name) x = compositeAt place x :=
    fun x => compositeAt_changed fun _ => rfl
  have hports : ∀ x,
      portNamesAt (changed place id fun p => p.moved up name) x = portNamesAt place x :=
    fun x => portNamesAt_changed fun _ => rfl
  have hchildren : ∀ x,
      childrenAt (changed place id fun p => p.moved up name) x = childrenAt place x := fun x => by
    rw [childrenAt_changed (f := fun p => p.moved up name) (fun ids => ids) hid fun _ => rfl,
      ite_self]
  have hindex : ∀ x,
      indexAt (changed place id fun p => p.moved up name) x = indexAt place x := fun x => by
    rw [indexAt_changed (f := fun p => p.moved up name) (fun entries => entries) hid fun _ => rfl,
      ite_self]
  constructor
  case parent =>
    intro x hx hx'
    rw [hlive] at hx
    obtain ⟨up', hup'⟩ := h.parent x hx hx'
    exact ⟨up', by rwa [hchildren]⟩
  case child =>
    intro up' x hx
    have := h.child up' x
    grind
  case nodup => exact fun up' => by rw [hchildren]; exact h.nodup up'
  case index =>
    intro up' name' x
    have := h.index up' name' x
    have := h.child up' x
    grind
  case names => exact fun up' => by rw [hindex]; exact h.names up'
  case free =>
    intro up' name' x hx
    rw [hindex] at hx
    rw [hports]
    exact h.free up' name' x hx

/-- A loose block can be put into the composite that it has as its parent. -/
theorem put (h : Nested (fun x => loose x ∨ x = id) place) (hloose : ¬loose id)
    (hparent : parentAt place id = some up)
    (hname : nameAt place id = some name) (hcomposite : compositeAt place up = true)
    (hlt : up.index < id.index) (hne : name ≠ "") (hports : name ∉ portNamesAt place up)
    (hfree : name ∉ (indexAt place up).map Prod.fst) :
    Nested loose (changed place up fun p => p.enter id name) := by
  have hup := isSome_of_compositeAt hcomposite
  obtain ⟨hlive, hnames, hparents, hcomposites, hportNames, hchildren, hindex⟩ :=
    relisted_changed (f := fun p => p.enter id name) (· ++ [id]) (· ++ [(name, id)]) hup
      fun _ => rfl
  constructor
  case parent =>
    intro x hx hx'
    rw [hlive] at hx
    by_cases hxid : x = id
    · exact ⟨up, by grind⟩
    · obtain ⟨up', hup'⟩ := h.parent x hx (by grind)
      exact ⟨up', by grind⟩
  case child =>
    intro up' x hx
    have := h.child up' x
    grind
  case nodup =>
    intro up'
    have := h.nodup up'
    have := h.child up' id
    grind
  case index =>
    intro up' name' x
    have := h.index up' name' x
    have := h.child up' x
    grind
  case names =>
    intro up'
    have := h.names up'
    rw [hindex]
    split
    next heq =>
      subst heq
      rw [List.map_append, List.nodup_append]
      exact ⟨this, by simp, by grind⟩
    next => exact this
  case free =>
    intro up' name' x hx
    have := h.free up' name' x
    grind

theorem erase (h : Nested (fun x => loose x ∨ x = id) place) (hempty : childrenAt place id = []) :
    Nested loose fun x => if x = id then none else place x where
  parent := by
    intro x hx hx'
    have hne : x ≠ id := by grind
    rw [if_neg hne] at hx
    obtain ⟨up, hup⟩ := h.parent x hx (by grind)
    exact ⟨up, by grind [childrenAt]⟩
  child := by
    intro up' x hx
    have := h.child up' x
    grind [childrenAt, compositeAt, parentAt]
  nodup := by
    intro up'
    have := h.nodup up'
    grind [childrenAt]
  index := by
    intro up' name' x
    have := h.index up' name' x
    have := h.child up' x
    grind [childrenAt, indexAt, nameAt]
  names := by
    intro up'
    have := h.names up'
    grind [indexAt]
  free := by
    intro up' name x hx
    have := h.free up' name x
    grind [indexAt, portNamesAt]

/-! ### Moving and removing a block -/

/-- A block moves to another composite, under a name that is free there. -/
theorem relocate {parent : BlockId} {old : String} (h : Nested loose place) (hid : id ∈ childrenAt place up)
    (hold : nameAt place id = some old) (hcomposite : compositeAt place parent = true)
    (hlt : parent.index < id.index) (hne : parent ≠ up) (hname : name ≠ "")
    (hports : name ∉ portNamesAt place parent)
    (hfree : name ∉ (indexAt place parent).map Prod.fst) :
    Nested loose (relocated place id up parent old name) := by
  obtain ⟨hloose, hparent, hup, _⟩ := h.child up id hid
  have hlive := isSome_of_parentAt hparent
  have hdropped := h.drop hid hold
  have hleft : (changed place up (fun p => p.leave id old) id).isSome := by rwa [changed_isSome]
  have hmoved : Nested _ (changed (changed place up fun p => p.leave id old) id
      fun p => p.moved parent name) := hdropped.move hleft (.inr rfl)
  have hcomm : id ≠ parent := by
    rintro rfl
    omega
  rw [relocated, changed_comm hcomm]
  refine hmoved.put hloose ?_ ?_ ?_ hlt hname ?_ ?_
  · rw [parentAt_moved hleft, if_pos rfl]
  · rw [nameAt_moved hleft, if_pos rfl]
  · rw [compositeAt_changed (f := fun p => p.moved parent name) fun _ => rfl,
      compositeAt_changed (f := fun p => p.leave id old) fun _ => rfl, hcomposite]
  · rw [portNamesAt_changed (f := fun p => p.moved parent name) fun _ => rfl,
      portNamesAt_changed (f := fun p => p.leave id old) fun _ => rfl]
    exact hports
  · rw [indexAt_changed (f := fun p => p.moved parent name) (fun entries => entries) hleft
        fun _ => rfl, ite_self,
      indexAt_changed (f := fun p => p.leave id old) (List.filter fun entry => entry.1 ≠ old)
        (isSome_of_compositeAt hup) fun _ => rfl, if_neg hne]
    exact hfree

/-- A block without children is taken out. -/
theorem remove (h : Nested loose place) (hid : id ∈ childrenAt place up)
    (hname : nameAt place id = some name) (hempty : childrenAt place id = []) :
    Nested loose (removed place id up name) := by
  obtain ⟨_, _, hup, hlt⟩ := h.child up id hid
  refine (h.drop hid hname).erase ?_
  rw [childrenAt_changed (f := fun p => p.leave id name) (List.filter (· ≠ id))
    (isSome_of_compositeAt hup) fun _ => rfl, hempty]
  split <;> rfl

/-! ### Trees side by side -/

/-- Trees that have no block in common can be looked at together. -/
theorem union {loose' : BlockId → Prop} {place' : BlockId → Option Place} {size : Nat}
    (h : Nested loose place) (h' : Nested loose' place')
    (hold : ∀ x, (place x).isSome → x.index < size) (hnew : ∀ x, (place' x).isSome → size ≤ x.index) :
    Nested (fun x => if x.index < size then loose x else loose' x)
      fun x => if x.index < size then place x else place' x := by
  have hlisted : ∀ up x, x ∈ childrenAt place up → up.index < size ∧ x.index < size := by
    intro up x hx
    obtain ⟨_, hparent, hcomposite, _⟩ := h.child up x hx
    exact ⟨hold up (isSome_of_compositeAt hcomposite), hold x (isSome_of_parentAt hparent)⟩
  have hlisted' : ∀ up x, x ∈ childrenAt place' up → size ≤ up.index ∧ size ≤ x.index := by
    intro up x hx
    obtain ⟨_, hparent, hcomposite, _⟩ := h'.child up x hx
    exact ⟨hnew up (isSome_of_compositeAt hcomposite), hnew x (isSome_of_parentAt hparent)⟩
  constructor
  case parent =>
    intro x hx hx'
    by_cases hlt : x.index < size
    · obtain ⟨up, hup⟩ := h.parent x (by grind) (by grind)
      exact ⟨up, by grind [childrenAt]⟩
    · obtain ⟨up, hup⟩ := h'.parent x (by grind) (by grind)
      exact ⟨up, by grind [childrenAt]⟩
  case child =>
    intro up x hx
    have := h.child up x
    have := h'.child up x
    have := hlisted up x
    have := hlisted' up x
    grind [childrenAt, compositeAt, parentAt]
  case nodup =>
    intro up
    have := h.nodup up
    have := h'.nodup up
    grind [childrenAt]
  case index =>
    intro up name x
    have := h.index up name x
    have := h'.index up name x
    have := hlisted up x
    have := hlisted' up x
    grind [childrenAt, indexAt, nameAt]
  case names =>
    intro up
    have := h.names up
    have := h'.names up
    grind [indexAt]
  case free =>
    intro up name x hx
    have := h.free up name x
    have := h'.free up name x
    grind [indexAt, portNamesAt]

end Nested

end CausalBlocks
