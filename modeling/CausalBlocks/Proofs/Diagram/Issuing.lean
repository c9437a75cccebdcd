import CausalBlocks.Proofs.Diagram.Construction
import CausalBlocks.Proofs.Diagram.Samples
import CausalBlocks.Proofs.Scalar.Rational

/-!
# Issued ids

A call that adds a block answers its id. Ids are places, and a diagram never gets shorter, so an
id that was live once is not answered again. A copy can have an id that is not live: a block that
is not there has nothing to copy, but its copy is listed and answered like any other. That id is
answered again when the next block is added.
-/

namespace CausalBlocks

variable {α β γ : Type}

namespace Edit

/-! ### What an id says of the diagram -/

/-- The answer is the place after the last block. -/
def Numbered (action : Edit α BlockId) : Prop :=
  ∀ e id e', action e = .ok id e' → id = ⟨e.diagram.blocks.size⟩

namespace Numbered

theorem bind {x : Edit α β} {f : β → Edit α BlockId} (hx : Quiet x) (hf : ∀ b, Numbered (f b)) :
    Numbered (x >>= f) := by
  intro e id e' h
  obtain ⟨b, e₁, hb, h⟩ := EStateM.bind_eq_ok.mp h
  rw [← hx.eq_of_ok hb]
  exact hf b e₁ id e' h

theorem throw_bind {failure : Failure α} {f : β → Edit α BlockId} :
    Numbered ((throw failure : Edit α β) >>= f) := by
  rintro e id e' ⟨⟩

theorem ite {c : Prop} [Decidable c] {x y : Edit α BlockId} (hx : Numbered x) (hy : Numbered y) :
    Numbered (if c then x else y) := by
  split
  · exact hx
  · exact hy

end Numbered

theorem adopt_numbered (parent : BlockId) (name : String) (blocks : List (Block α)) :
    Numbered (adopt parent name blocks) := by
  intro e id e' h
  obtain ⟨d, e₁, hd, h⟩ := EStateM.bind_eq_ok.mp h
  obtain ⟨_, e₂, _, h⟩ := EStateM.bind_eq_ok.mp h
  obtain ⟨_, e₃, _, h⟩ := EStateM.bind_eq_ok.mp h
  obtain ⟨rfl, _⟩ := EStateM.pure_eq_ok.mp h
  rw [(diagram_eq_ok.mp hd).1]

theorem insert_numbered (parent : BlockId) (name : String) (operator : Operator α)
    (inputs outputs : List String) : Numbered (insert parent name operator inputs outputs) := by
  refine .bind .diagram fun d => .bind (.lift _) fun composite => .ite ?_ .throw_bind
  refine .bind (childName_quiet parent name) fun name' => ?_
  have hrest : Numbered (do
      if name' ∈ composite.takenNames then
        report (.nameInUse (d.pathOf parent) name')
        throw (.duplicateBlock (d.pathOf parent) name')
      adopt parent name' [.make name' operator (some parent) inputs outputs]) :=
    .ite (.bind (.report _) fun _ => .throw_bind) (adopt_numbered parent name' _)
  exact .ite hrest (.bind (.report _) fun _ => hrest)

theorem clone_numbered (source parent : BlockId) (name : String) :
    Numbered (clone source parent name : Edit α BlockId) := by
  refine .bind .diagram fun d => .ite .throw_bind (.bind (.lift _) fun composite => ?_)
  exact .ite (.ite (.bind (.report _) fun _ => .throw_bind) (adopt_numbered parent name _))
    .throw_bind

end Edit

namespace Diagram

variable {d : Diagram α} {parent : BlockId} {name : String} {blocks : List (Block α)}

/-- What comes with the new blocks is live at the place after the old ones. -/
theorem isSome_block?_adopted :
    ((d.adopted parent name blocks).block? ⟨d.blocks.size⟩).isSome ↔ blocks ≠ [] := by
  rw [adopted, isSome_block?_modifyBlock, block?_append, if_neg (Nat.lt_irrefl _), Nat.sub_self]
  cases blocks <;> simp

/-- Something is copied exactly if the block is there. -/
theorem copies_eq_nil_iff {source : BlockId} :
    d.copies source parent name = [] ↔ d.block? source = none := by
  constructor
  · intro h
    by_contra hlive
    obtain ⟨b, hb⟩ := Option.ne_none_iff_exists'.mp hlive
    have hself := self_mem_descendants (by rw [hb]; rfl : (d.block? source).isSome)
    have hnone := List.filterMap_eq_nil_iff.mp h source hself
    rw [hb] at hnone
    cases hnone
  · intro hnone
    have hempty : d.descendants source = [] := by
      rw [descendants]
      cases d.blocks.size with
      | zero => rfl
      | succ depth => rw [below, hnone]
    rw [copies, hempty, List.filterMap_nil]

end Diagram

namespace Edit

/-! ### What lasts -/

/-- A property of diagrams that more blocks, and changes of the blocks there are, do not end. -/
structure Growing (P : Diagram α → Prop) : Prop where
  modifyBlock : ∀ d id f, P d → P (d.modifyBlock id f)
  append : ∀ (d : Diagram α) (blocks : List (Block α)),
    P d → P { d with blocks := d.blocks ++ (blocks.map some).toArray }

namespace Growing

variable {P : Diagram α → Prop} (h : Growing P)
include h

theorem adopted {d : Diagram α} (hd : P d) (parent : BlockId) (name : String)
    (blocks : List (Block α)) : P (d.adopted parent name blocks) :=
  h.modifyBlock _ _ _ (h.append d blocks hd)

theorem insert (parent : BlockId) (name : String) (operator : Operator α)
    (inputs outputs : List String) : Keeps P (insert parent name operator inputs outputs) := by
  refine .of_ok (fun d => insert_atomic d parent name operator inputs outputs) fun e _ e' he hok => ?_
  obtain ⟨_, _, _, _, _, _, hdiagram⟩ := insert_ok hok
  rw [hdiagram]
  exact h.adopted he _ _ _

theorem clone (source parent : BlockId) (name : String) : Keeps P (clone source parent name) := by
  refine .of_ok (fun d => clone_atomic d source parent name) fun e _ e' he hok => ?_
  obtain ⟨_, _, _, _, _, _, hdiagram⟩ := clone_ok hok
  rw [hdiagram]
  exact h.adopted he _ _ _

theorem keptByTuning : KeptByTuning P := fun d id f hd _ => h.modifyBlock d id f hd

theorem keptByLinking : KeptByLinking P := fun d _ _ hd _ => h.modifyBlock d _ _ hd

theorem keptByBuilding : KeptByBuilding P where
  addBlock parent name operator := h.insert parent name operator _ _
  addComposite parent name type inputs outputs := h.insert parent name (.composite type) inputs outputs
  connectPorts := h.keptByLinking.connectPorts
  disconnectPorts := h.keptByLinking.disconnectPorts

end Growing

/-- A block that is there stays there while blocks are added. -/
theorem growing_live (id : BlockId) : Growing fun d : Diagram α => (d.block? id).isSome where
  modifyBlock d _ f hd := by rwa [Diagram.isSome_block?_modifyBlock]
  append d blocks hd := by
    obtain ⟨b, hb⟩ := Option.isSome_iff_exists.mp hd
    rwa [Diagram.block?_append, if_pos (Diagram.lt_size_of_block? hb)]

/-- A diagram gets no shorter while blocks are added. -/
theorem growing_size (size : Nat) : Growing fun d : Diagram α => size ≤ d.blocks.size where
  modifyBlock d _ f hd := by rwa [Diagram.size_modifyBlock]
  append d blocks hd := by
    rw [Array.size_append]
    omega

/-- Taking composites apart leaves their places empty, but leaves them. -/
theorem size_keptByFlattening (size : Nat) :
    KeptByFlattening fun d : Diagram α => size ≤ d.blocks.size where
  linked := (growing_size size).keptByLinking
  moved d id f hd _ := (growing_size size).modifyBlock d id f hd
  erased _ _ hd := hd.trans_eq Array.size_modify.symm

/-! ### What adds a block -/

/-- An edit that answers the place after the last block, and leaves a block there. -/
structure Adds (action : Edit α BlockId) : Prop where
  numbered : Numbered action
  live : ∀ e id e', action e = .ok id e' → (e'.diagram.block? id).isSome

/-- A block that was added is there after more building that answers its id. -/
theorem Adds.followed {x : Edit α BlockId} {f : BlockId → Edit α BlockId} (h : Adds x)
    (hf : ∀ id, Keeps (fun d => (d.block? id).isSome) (f id))
    (hanswer : ∀ id e id' e', f id e = .ok id' e' → id' = id) : Adds (x >>= f) := by
  constructor
  case numbered =>
    intro e id e' hok
    obtain ⟨id₁, e₁, hx, hok⟩ := EStateM.bind_eq_ok.mp hok
    rw [hanswer id₁ e₁ id e' hok]
    exact h.numbered e id₁ e₁ hx
  case live =>
    intro e id e' hok
    obtain ⟨id₁, e₁, hx, hok⟩ := EStateM.bind_eq_ok.mp hok
    rw [hanswer id₁ e₁ id e' hok]
    exact (hf id₁).ok (h.live e id₁ e₁ hx) hok

theorem insert_adds (parent : BlockId) (name : String) (operator : Operator α)
    (inputs outputs : List String) : Adds (insert parent name operator inputs outputs) where
  numbered := insert_numbered parent name operator inputs outputs
  live e id e' hok := by
    obtain ⟨_, _, _, _, _, _, hdiagram⟩ := insert_ok hok
    rw [insert_numbered parent name operator inputs outputs e id e' hok, hdiagram,
      Diagram.isSome_block?_adopted]
    exact List.cons_ne_nil _ _

/-- A copy is there exactly if there was something to copy. -/
theorem live_clone_iff {source parent id : BlockId} {name : String} {e e' : Editor α}
    (hok : clone source parent name e = .ok id e') :
    (e'.diagram.block? id).isSome ↔ (e.diagram.block? source).isSome := by
  obtain ⟨_, _, _, _, _, _, hdiagram⟩ := clone_ok hok
  rw [clone_numbered source parent name e id e' hok, hdiagram, Diagram.isSome_block?_adopted, ne_eq,
    Diagram.copies_eq_nil_iff, Option.isSome_iff_ne_none]

theorem size_of_clone {source parent id : BlockId} {name : String} {e e' : Editor α}
    (hok : clone source parent name e = .ok id e') (hnone : e.diagram.block? source = none) :
    e'.diagram.blocks.size = e.diagram.blocks.size := by
  obtain ⟨_, _, _, _, _, _, hdiagram⟩ := clone_ok hok
  rw [hdiagram, Diagram.size_adopted, Diagram.copies_eq_nil_iff.mpr hnone, List.length_nil,
    Nat.add_zero]

section Builders

variable (parent : BlockId) (name : String)

/-- A composite with blocks and links in it. -/
theorem filled_adds (type : String) (inputs outputs : List String)
    (blocks : List (String × Operator α)) (links : List (String × String × Option String)) :
    Adds (do
      let id ← addComposite parent name type inputs outputs
      addAll id blocks
      connectAll id links
      return id) := by
  refine (insert_adds parent name (.composite type) inputs outputs).followed (fun id => ?_) ?_
  · have hbuilding := (growing_live (α := α) id).keptByBuilding
    exact .bind (hbuilding.addAll id blocks) fun _ => .bind (hbuilding.connectAll id links) fun _ =>
      .of_quiet (.pure _)
  · intro id e id' e' hok
    simp only [EStateM.bind_eq_ok, EStateM.pure_eq_ok] at hok
    obtain ⟨_, _, _, _, _, _, rfl, _⟩ := hok
    rfl

theorem addFixedRateClock_adds (stem : String) (step start : α) :
    Adds (addFixedRateClock parent stem step start) := by
  refine (insert_adds parent _ _ _ _).followed (fun id => ?_) ?_
  · have hbuilding := (growing_live (α := α) id).keptByBuilding
    exact .bind (hbuilding.addBlock parent _ _) fun _ => .bind (hbuilding.connect parent _ _ _ _)
      fun _ => .of_quiet (.pure _)
  · intro id e id' e' hok
    simp only [EStateM.bind_eq_ok, EStateM.pure_eq_ok] at hok
    obtain ⟨_, _, _, _, _, _, rfl, _⟩ := hok
    rfl

end Builders

end Edit

namespace DiagramCall

variable [Scalar α]

/-- A call leaves at least the places that there were, whether it succeeds or fails. -/
theorem size_perform (call : DiagramCall α) (e : Editor α) :
    e.diagram.blocks.size ≤ (call.perform e).state.diagram.blocks.size := by
  have hsize := Edit.growing_size (α := α) e.diagram.blocks.size
  have hbuilding := hsize.keptByBuilding
  have htuning := hsize.keptByTuning
  have hports : ∀ (d : Diagram α) f, (d.mapPorts f).blocks.size = d.blocks.size := fun d f =>
    Array.size_map
  have hkeeps : Edit.Keeps (fun d : Diagram α => e.diagram.blocks.size ≤ d.blocks.size)
      call.perform := by
    cases call with
    | addBlock parent name operator => exact (hbuilding.addBlock parent name operator).discard
    | addComposite parent name type inputs outputs =>
        exact (hbuilding.addComposite parent name type inputs outputs).discard
    | connectPorts source target => exact hbuilding.connectPorts source target
    | connect parent source target output input =>
        exact hbuilding.connect parent source target output input
    | disconnectPorts source target => exact hbuilding.disconnectPorts source target
    | disconnect parent source target output input =>
        exact hbuilding.disconnect parent source target output input
    | clone source parent name => exact (hsize.clone source parent name).discard
    | flatten id keep => exact (Edit.size_keptByFlattening _).flatten id keep
    | setConstant path value => exact htuning.setConstant path value
    | setRate id rate => exact htuning.setRate id rate
    | setClockStart start => exact htuning.setClockStart start
    | rewind => exact fun e he => he.trans_eq (hports e.diagram _).symm
    | clearSignals => exact fun e he => he.trans_eq (hports e.diagram _).symm
    | addIncrement parent name => exact (hbuilding.addIncrement parent name).discard
    | addDerivator parent name => exact (hbuilding.addDerivator parent name).discard
    | addIntegrator parent name => exact (hbuilding.addIntegrator parent name).discard
    | addFixedRateClock parent stem step start =>
        exact (hbuilding.addFixedRateClock parent stem step start).discard
  exact hkeeps e le_rfl

/-- The edit of a call that answers the id of a block. -/
def adding? : DiagramCall α → Option (Edit α BlockId)
  | addBlock parent name operator => some (Edit.addBlock parent name operator)
  | addComposite parent name type inputs outputs =>
    some (Edit.addComposite parent name type inputs outputs)
  | clone source parent name => some (Edit.clone source parent name)
  | addIncrement parent name => some (Edit.addIncrement parent name)
  | addDerivator parent name => some (Edit.addDerivator parent name)
  | addIntegrator parent name => some (Edit.addIntegrator parent name)
  | addFixedRateClock parent stem step start =>
    some (Edit.addFixedRateClock parent stem step start)
  | _ => none

/-- In a diagram, a call answers an id. -/
def Answers (call : DiagramCall α) (e : Editor α) (id : BlockId) : Prop :=
  ∃ action, call.adding? = some action ∧ (action e).answer? = some id

/-- In a diagram, a call copies a block that is not there. -/
def CopiesNothing (e : Editor α) : DiagramCall α → Prop
  | clone source _ _ => e.diagram.block? source = none
  | _ => False

variable {call : DiagramCall α} {e : Editor α} {id : BlockId}

theorem Answers.eq_ok (h : call.Answers e id) : ∃ action, call.adding? = some action ∧
    action e = .ok id (call.perform e).state := by
  obtain ⟨action, hadding, hanswer⟩ := h
  have hperform : call.perform = discard action := by
    cases call <;> cases hadding <;> rfl
  rw [hperform, EStateM.state_discard]
  exact ⟨action, hadding, EStateM.Result.eq_ok hanswer⟩

/-- A call that answers an id adds a block, or copies one. -/
theorem adds_or_clones {action : Edit α BlockId} (h : call.adding? = some action) :
    (Edit.Adds action ∧ ∀ e, ¬call.CopiesNothing e) ∨ ∃ source parent name,
      call = .clone source parent name ∧ action = Edit.clone source parent name := by
  cases call with
  | addBlock parent name operator =>
      cases h
      exact .inl ⟨Edit.insert_adds parent name operator _ _, fun _ => id⟩
  | addComposite parent name type inputs outputs =>
      cases h
      exact .inl ⟨Edit.insert_adds parent name (.composite type) inputs outputs, fun _ => id⟩
  | clone source parent name =>
      cases h
      exact .inr ⟨source, parent, name, rfl, rfl⟩
  | addIncrement parent name =>
      cases h
      exact .inl ⟨Edit.filled_adds parent name _ _ _ _ _, fun _ => id⟩
  | addDerivator parent name =>
      cases h
      exact .inl ⟨Edit.filled_adds parent name _ _ _ _ _, fun _ => id⟩
  | addIntegrator parent name =>
      cases h
      exact .inl ⟨Edit.filled_adds parent name _ _ _ _ _, fun _ => id⟩
  | addFixedRateClock parent stem step start =>
      cases h
      exact .inl ⟨Edit.addFixedRateClock_adds parent stem step start, fun _ => id⟩
  | _ => cases h

namespace Answers

/-- The id that a call answers is that of the place after the last block. -/
theorem eq_size (h : call.Answers e id) : id = ⟨e.diagram.blocks.size⟩ := by
  obtain ⟨action, hadding, hok⟩ := h.eq_ok
  obtain ⟨hadds, _⟩ | ⟨source, parent, name, _, rfl⟩ := adds_or_clones hadding
  · exact hadds.numbered e id _ hok
  · exact Edit.clone_numbered source parent name e id _ hok

/-- Right after the call, the id is that of a block, unless the call copied nothing. -/
theorem live_iff (h : call.Answers e id) :
    ((call.perform e).state.diagram.block? id).isSome ↔ ¬call.CopiesNothing e := by
  obtain ⟨action, hadding, hok⟩ := h.eq_ok
  obtain ⟨hadds, hcopies⟩ | ⟨source, parent, name, rfl, rfl⟩ := adds_or_clones hadding
  · exact iff_of_true (hadds.live e id _ hok) (hcopies e)
  · rw [Edit.live_clone_iff hok, Option.isSome_iff_ne_none]
    rfl

theorem size_of_copiesNothing (h : call.Answers e id) (hcopies : call.CopiesNothing e) :
    (call.perform e).state.diagram.blocks.size = e.diagram.blocks.size := by
  obtain ⟨action, hadding, hok⟩ := h.eq_ok
  obtain ⟨_, hnot⟩ | ⟨source, parent, name, rfl, rfl⟩ := adds_or_clones hadding
  · exact absurd hcopies (hnot e)
  · exact Edit.size_of_clone hok hcopies

/-- A call that copies nothing, and no other, leaves the diagram as long as it was. -/
theorem size_eq_iff (h : call.Answers e id) :
    (call.perform e).state.diagram.blocks.size = e.diagram.blocks.size ↔ call.CopiesNothing e := by
  refine ⟨fun hsize => ?_, h.size_of_copiesNothing⟩
  by_contra hcopies
  obtain ⟨b, hb⟩ := Option.isSome_iff_exists.mp (h.live_iff.mpr hcopies)
  have hlt := Diagram.lt_size_of_block? hb
  rw [h.eq_size, hsize] at hlt
  exact Nat.lt_irrefl _ hlt

end Answers

end DiagramCall

namespace Diagram

variable [Scalar α]

theorem size_performAll (calls : List (DiagramCall α)) (e : Editor α) :
    e.diagram.blocks.size ≤ (performAll e calls).diagram.blocks.size := by
  induction calls generalizing e with
  | nil => exact le_rfl
  | cons call rest ih => exact (call.size_perform e).trans (ih _)

/-- However a diagram came about, an id that a call answers is that of a block that is there, unless
the call copied a block that is not there. It is the id that an earlier call answered exactly if
that one copied nothing, and no block has been added since. -/
theorem answers_issued {e : Editor α} {before : List (DiagramCall α)} {call : DiagramCall α}
    {id : BlockId} (h : call.Answers (performAll e before) id) :
    (((call.perform (performAll e before)).state.diagram.block? id).isSome ↔
      ¬call.CopiesNothing (performAll e before)) ∧
    ∀ first earlier between old, before = first ++ earlier :: between →
      earlier.Answers (performAll e first) old →
        (old = id ↔ earlier.CopiesNothing (performAll e first) ∧
          (performAll e before).diagram.blocks.size =
            (earlier.perform (performAll e first)).state.diagram.blocks.size) := by
  refine ⟨h.live_iff, fun first earlier between old hbefore hold => ?_⟩
  have hrun : performAll e before =
      performAll (earlier.perform (performAll e first)).state between := by
    rw [hbefore, performAll, List.foldl_append]
    rfl
  have hfirst := earlier.size_perform (performAll e first)
  have hbetween := size_performAll between (earlier.perform (performAll e first)).state
  rw [h.eq_size, hold.eq_size, ← hold.size_eq_iff, BlockId.mk.injEq, hrun]
  omega

/-- A box is taken apart and copied under its old id. The integrator after that gets the id of the
copy, and a negator the next free one after the integrator's blocks. -/
theorem answers_issued_stale : ∃ (e : Editor ℚ) (first between : List (DiagramCall ℚ))
    (copy integrator negator : DiagramCall ℚ),
      first = [.addComposite ⟨0⟩ "box" "Box" ["IN1"] ["OUT1"], .flatten ⟨0⟩ []] ∧
      copy = .clone ⟨1⟩ ⟨0⟩ "again" ∧ copy.Answers (performAll e first) ⟨2⟩ ∧
      integrator = .addIntegrator ⟨0⟩ "int" ∧
      integrator.Answers (performAll e (first ++ [copy])) ⟨2⟩ ∧
      copy.CopiesNothing (performAll e first) ∧
      ((integrator.perform (performAll e (first ++ [copy]))).state.diagram.block? ⟨2⟩).isSome ∧
      between = [integrator] ∧ negator.Answers (performAll e (first ++ copy :: between)) ⟨9⟩ ∧
      ¬(copy.CopiesNothing (performAll e first) ∧
        (performAll e (first ++ copy :: between)).diagram.blocks.size =
          (copy.perform (performAll e first)).state.diagram.blocks.size) := by
  let e : Editor ℚ := { diagram := .empty "model" [] [] }
  let first : List (DiagramCall ℚ) :=
    [.addComposite ⟨0⟩ "box" "Box" ["IN1"] ["OUT1"], .flatten ⟨0⟩ []]
  let copy : DiagramCall ℚ := .clone ⟨1⟩ ⟨0⟩ "again"
  let integrator : DiagramCall ℚ := .addIntegrator ⟨0⟩ "int"
  let negator : DiagramCall ℚ := .addBlock ⟨0⟩ "neg" .negator
  have hcopy : copy.Answers (performAll e first) ⟨2⟩ := ⟨_, rfl, by decide +kernel⟩
  have hintegrator : integrator.Answers (performAll e (first ++ [copy])) ⟨2⟩ :=
    ⟨_, rfl, by decide +kernel⟩
  have hnegator : negator.Answers (performAll e (first ++ copy :: [integrator])) ⟨9⟩ :=
    ⟨_, rfl, by decide +kernel⟩
  obtain ⟨hlive, hearlier⟩ := answers_issued hintegrator
  obtain ⟨_, hearlier'⟩ := answers_issued hnegator
  have hcopies := ((hearlier first copy [] ⟨2⟩ rfl hcopy).mp rfl).1
  have hnew := (hearlier' first copy [integrator] ⟨2⟩ rfl hcopy).not.mp (by decide)
  exact ⟨e, first, [integrator], copy, integrator, negator, rfl, rfl, hcopy, rfl, hintegrator, hcopies,
    hlive.mpr id, rfl, hnegator, hnew⟩

/-- A copy of a block that never was has an id that is not live, and the next block has it too. -/
theorem clone_missing_reissued :
    let e : Editor ℚ := { diagram := .empty "model" [] [] }
    let copy : DiagramCall ℚ := .clone ⟨7⟩ ⟨0⟩ "ghost"
    let negator : DiagramCall ℚ := .addBlock ⟨0⟩ "neg" .negator
    copy.Answers e ⟨1⟩ ∧ ((copy.perform e).state.diagram.block? ⟨1⟩).isSome = false ∧
      negator.Answers (performAll e [copy]) ⟨1⟩ :=
  ⟨⟨_, rfl, by decide +kernel⟩, by decide +kernel, _, rfl, by decide +kernel⟩

end Diagram

end CausalBlocks
