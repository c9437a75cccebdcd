import CausalBlocks.Diagram.Composites
import CausalBlocks.Diagram.Parameter
import CausalBlocks.Proofs.Diagram.Copies
import CausalBlocks.Proofs.Diagram.Flattening

/-!
# Diagrams that can be built

Every operation that builds a diagram keeps it well formed, whether it succeeds or
fails; flattening does if it succeeds. So a diagram that was built from an empty
one is consistent: its links are kept at both ends, its blocks form a tree, its
composites know their children by name, and its primitives are driven at their
inputs and drive from their outputs.
-/

namespace CausalBlocks

variable {α β γ : Type}

namespace Edit

/-- An edit that keeps what is true of a diagram, even when it fails. -/
def Keeps (P : Diagram α → Prop) (action : Edit α β) : Prop :=
  ∀ e, P e.diagram → P (action e).state.diagram

section Keeps

variable {P : Diagram α → Prop}

namespace Keeps

theorem bind {x : Edit α β} {f : β → Edit α γ} (hx : Keeps P x) (hf : ∀ b, Keeps P (f b)) :
    Keeps P (x >>= f) := fun e h =>
  EStateM.bind_keeps (P := fun e => P e.diagram) (fun e h => hx e h) (fun b e h => hf b e h) e h

/-- What a first step brings about and those after it keep. -/
theorem after {x : Edit α β} {f : β → Edit α γ} {e : Editor α} (hf : ∀ b, Keeps P (f b))
    (hx : P (x e).state.diagram) : P ((x >>= f) e).state.diagram :=
  EStateM.state_bind (P := fun e => P e.diagram) hx fun b e h => hf b e h

theorem forM {f : β → Edit α Unit} (hf : ∀ b, Keeps P (f b)) (xs : List β) :
    Keeps P (xs.forM f : Edit α Unit) := fun e h =>
  EStateM.forM_keeps (P := fun e => P e.diagram) (fun b e h => hf b e h) xs e h

theorem of_quiet {x : Edit α β} (hx : Quiet x) : Keeps P x := by
  intro e h
  rwa [hx e]

theorem discard {x : Edit α β} (hx : Keeps P x) : Keeps P (discard x : Edit α Unit) := by
  intro e h
  rw [EStateM.state_discard]
  exact hx e h

theorem ok {x : Edit α β} (hx : Keeps P x) {e e' : Editor α} {b : β} (h : P e.diagram)
    (hok : x e = .ok b e') : P e'.diagram := by
  have hstate := hx e h
  rwa [hok] at hstate

/-- What happens on success matters if a failure leaves the diagram alone. -/
theorem of_ok {x : Edit α β} (hatomic : ∀ d, Atomic d x)
    (hok : ∀ e b e', P e.diagram → x e = .ok b e' → P e'.diagram) : Keeps P x := by
  intro e h
  cases hresult : x e with
  | ok b e' => exact hok e b e' h hresult
  | error failure e' =>
      rw [EStateM.Result.state, hatomic e.diagram e failure e' rfl hresult]
      exact h

end Keeps

/-- What adding blocks and links keeps. -/
structure KeptByAdding (P : Diagram α → Prop) : Prop where
  addBlock : ∀ parent name operator, Keeps P (addBlock parent name operator)
  addComposite : ∀ parent name type inputs outputs,
    Keeps P (addComposite parent name type inputs outputs)
  connectPorts : ∀ source target, Keeps P (connectPorts source target)

namespace KeptByAdding

variable (h : KeptByAdding P)
include h

theorem connect (parent : BlockId) (source target : String) (output input : Option String) :
    Keeps P (connect parent source target output input) :=
  .bind (.of_quiet .diagram) fun _ => .bind (.of_quiet (.lift _)) fun _ =>
    .bind (.of_quiet (.lift _)) fun _ => h.connectPorts _ _

theorem addAll (parent : BlockId) (blocks : List (String × Operator α)) :
    Keeps P (addAll parent blocks) :=
  .forM (fun (name, operator) => .bind (h.addBlock parent name operator) fun _ =>
    .of_quiet (.pure _)) blocks

theorem connectAll (parent : BlockId) (links : List (String × String × Option String)) :
    Keeps P (connectAll parent links) :=
  .forM (fun (source, target, input) => h.connect parent source target none input) links

theorem addFixedRateClock (parent : BlockId) (stem : String) (step start : α) :
    Keeps P (addFixedRateClock parent stem step start) :=
  .bind (h.addBlock parent _ _) fun _ => .bind (h.addBlock parent _ _) fun _ =>
    .bind (h.connect parent _ _ _ _) fun _ => .of_quiet (.pure _)

variable [Scalar α]

theorem addIncrement (parent : BlockId) (name : String) : Keeps P (addIncrement parent name) :=
  .bind (h.addComposite parent name _ _ _) fun id => .bind (h.addAll id _) fun _ =>
    .bind (h.connectAll id _) fun _ => .of_quiet (.pure _)

theorem addDerivator (parent : BlockId) (name : String) : Keeps P (addDerivator parent name) :=
  .bind (h.addComposite parent name _ _ _) fun id => .bind (h.addAll id _) fun _ =>
    .bind (h.connectAll id _) fun _ => .of_quiet (.pure _)

theorem addIntegrator (parent : BlockId) (name : String) : Keeps P (addIntegrator parent name) :=
  .bind (h.addComposite parent name _ _ _) fun id => .bind (h.addAll id _) fun _ =>
    .bind (h.connectAll id _) fun _ => .of_quiet (.pure _)

end KeptByAdding

/-- What adding blocks and changing links keeps. -/
structure KeptByBuilding (P : Diagram α → Prop) : Prop extends KeptByAdding P where
  disconnectPorts : ∀ source target, Keeps P (disconnectPorts source target)

theorem KeptByBuilding.disconnect (h : KeptByBuilding P) (parent : BlockId) (source target : String)
    (output input : Option String) : Keeps P (disconnect parent source target output input) :=
  .bind (.of_quiet .diagram) fun _ => .bind (.of_quiet (.lift _)) fun _ =>
    .bind (.of_quiet (.lift _)) fun _ => h.disconnectPorts _ _

/-- A change of nothing but the links of a port. -/
def Relinks (f : Port α → Port α) : Prop := ∀ p, (f p).name = p.name ∧ (f p).history = p.history

/-- What changing links keeps. -/
def KeptByLinking (P : Diagram α → Prop) : Prop :=
  ∀ d id f, P d → Relinks f → P (d.modifyPort id f)

namespace KeptByLinking

variable (h : KeptByLinking P)
include h

theorem modifyPort (id : PortId) {f : Port α → Port α} (hf : Relinks f) :
    Keeps P (Edit.modifyPort id f) := by
  intro e he
  rw [modifyPort_apply]
  split
  · exact h _ _ _ he hf
  · exact he

theorem link (source target : PortId) : Keeps P (link source target) :=
  .bind (h.modifyPort _ fun _ => ⟨rfl, rfl⟩) fun _ => h.modifyPort _ fun _ => ⟨rfl, rfl⟩

theorem connectPorts (source target : PortId) : Keeps P (connectPorts source target) := by
  refine .of_ok (fun d => connectPorts_atomic d source target) fun e _ e' he hok => ?_
  obtain ⟨_, _, _, _, hdiagram⟩ := connectPorts_ok hok
  rw [hdiagram]
  exact h _ _ _ (h _ _ _ he fun _ => ⟨rfl, rfl⟩) fun _ => ⟨rfl, rfl⟩

theorem disconnectPorts (source target : PortId) : Keeps P (disconnectPorts source target) := by
  refine .of_ok (fun d => disconnectPorts_atomic d source target) fun e _ e' he hok => ?_
  obtain ⟨_, _, hdiagram⟩ := disconnectPorts_ok hok
  rw [hdiagram]
  exact h _ _ _ (h _ _ _ he fun _ => ⟨rfl, rfl⟩) fun _ => ⟨rfl, rfl⟩

end KeptByLinking

/-- A change that gives a block another name, another composite or other children. -/
def Relocates (f : Block α → Block α) : Prop := ∀ b, f b = { b with
  name := (f b).name, parent := (f b).parent, children := (f b).children
  childIndex := (f b).childIndex }

/-- What moving and taking away blocks keeps. -/
structure KeptByMoving (P : Diagram α → Prop) : Prop where
  moved : ∀ d id f, P d → Relocates f → P (d.modifyBlock id f)
  erased : ∀ (d : Diagram α) (id : BlockId),
    P d → P { d with blocks := d.blocks.modify id.index fun _ => none }

namespace KeptByMoving

variable (h : KeptByMoving P)
include h

theorem modifyBlock (id : BlockId) {f : Block α → Block α} (hf : Relocates f) :
    Keeps P (Edit.modifyBlock id f) := by
  refine .of_ok (fun d => modifyBlock_atomic d id f) fun e _ e' he hok => ?_
  rw [(modifyBlock_ok hok).2]
  exact h.moved _ _ _ he hf

theorem detach (id : BlockId) : Keeps P (detach id) := by
  refine .bind (.of_quiet .diagram) fun d => .bind (.of_quiet (.lift _)) fun b => ?_
  split
  · exact .of_quiet (.pure _)
  · exact h.modifyBlock _ fun _ => rfl

theorem reparent (child parent : BlockId) (name : String) :
    Keeps P (reparent child parent name) := by
  refine .bind (.of_quiet .diagram) fun d => .bind (.of_quiet (.lift _)) fun b => ?_
  have hmove : Keeps P (do
      Edit.detach child
      Edit.modifyBlock parent fun p => { p with
        children := p.children ++ [child], childIndex := p.childIndex ++ [(name, child)] }
      Edit.modifyBlock child fun b => { b with parent := some parent, name }) :=
    .bind (h.detach child) fun _ => .bind (h.modifyBlock _ fun _ => rfl) fun _ =>
      h.modifyBlock _ fun _ => rfl
  split
  · exact .bind (.of_quiet (.throw _)) fun _ => hmove
  · exact hmove

theorem remove (id : BlockId) : Keeps P (remove id) :=
  .bind (h.detach id) fun _ e he => h.erased e.diagram id he

end KeptByMoving

/-- What each step of taking composites apart keeps, even when it fails. -/
structure KeptByInlining (P : Diagram α → Prop) : Prop where
  bypass : ∀ port, Keeps P (bypass port)
  reparent : ∀ child parent name, Keeps P (reparent child parent name)
  remove : ∀ id, Keeps P (remove id)

namespace KeptByInlining

variable (h : KeptByInlining P)
include h

theorem dissolve (parent composite : BlockId) : Keeps P (dissolve parent composite) := by
  refine .bind (.of_quiet .diagram) fun d => .bind (.of_quiet (.lift _)) fun b => ?_
  refine .bind (.forM h.bypass _) fun _ => .bind (.forM (fun child => ?_) _) fun _ =>
    h.remove composite
  exact .bind (.of_quiet .diagram) fun d => .bind (.of_quiet (.lift _)) fun moved =>
    h.reparent child parent _

theorem flattenTo (keep : List String) (depth : Nat) (id : BlockId) :
    Keeps P (flattenTo keep depth id) := by
  induction depth generalizing id with
  | zero => exact .of_quiet (.pure _)
  | succ depth ih =>
      refine .bind (.of_quiet .diagram) fun d => .bind (.of_quiet (.lift _)) fun b => ?_
      have hchildren : Keeps P (b.children.forM fun child => do
          let inner ← (← diagram).block child
          if inner.isComposite ∧ inner.operator.typeName ∉ keep then
            Edit.flattenTo keep depth child
            Edit.dissolve id child) := by
        refine .forM (fun child => .bind (.of_quiet .diagram) fun d =>
          .bind (.of_quiet (.lift _)) fun inner => ?_) _
        split
        · exact .bind (ih child) fun _ => h.dissolve id child
        · exact .of_quiet (.pure _)
      split
      · exact hchildren
      · exact .bind (.of_quiet (.throw _)) fun _ => hchildren

theorem flatten (id : BlockId) (keep : List String) : Keeps P (flatten id keep) :=
  .bind (.of_quiet .diagram) fun d => h.flattenTo keep d.blocks.size id

end KeptByInlining

/-- What moving and taking away blocks and changing links keeps. -/
structure KeptByFlattening (P : Diagram α → Prop) : Prop where
  linked : KeptByLinking P
  moved : ∀ d id f, P d → Relocates f → P (d.modifyBlock id f)
  erased : ∀ (d : Diagram α) (id : BlockId),
    P d → P { d with blocks := d.blocks.modify id.index fun _ => none }

namespace KeptByFlattening

variable (h : KeptByFlattening P)
include h

theorem reparent (child parent : BlockId) (name : String) :
    Keeps P (reparent child parent name) :=
  KeptByMoving.reparent ⟨h.moved, h.erased⟩ child parent name

theorem remove (id : BlockId) : Keeps P (remove id) :=
  KeptByMoving.remove ⟨h.moved, h.erased⟩ id

theorem bypass (p : PortId) : Keeps P (bypass p) := by
  refine .bind (.of_quiet .diagram) fun d => .bind (.of_quiet (.lift _)) fun port => ?_
  cases hincoming : port.incoming with
  | none =>
      refine .forM (fun target => .bind (h.linked.disconnectPorts p target) fun _ =>
        .of_quiet (.pure _)) _
  | some source =>
      refine .bind (h.linked.disconnectPorts source p) fun _ => .forM (fun target => ?_) _
      exact .bind (h.linked.disconnectPorts p target) fun _ => h.linked.link source target

theorem inlining : KeptByInlining P := ⟨h.bypass, h.reparent, h.remove⟩

theorem dissolve (parent composite : BlockId) : Keeps P (dissolve parent composite) :=
  h.inlining.dissolve parent composite

theorem flattenTo (keep : List String) (depth : Nat) (id : BlockId) :
    Keeps P (flattenTo keep depth id) :=
  h.inlining.flattenTo keep depth id

theorem flatten (id : BlockId) (keep : List String) : Keeps P (flatten id keep) :=
  h.inlining.flatten id keep

end KeptByFlattening

theorem setConstant_atomic (d : Diagram α) (path : String) (value : α) :
    Atomic d (setConstant path value) := by
  refine .diagram_bind (.lift_bind fun id _ => .lift_bind fun b _ => ?_)
  cases b.operator with
  | constant _ => exact modifyBlock_atomic d id _
  | _ => exact (Quiet.throw _).atomic d

/-- Only a constant is given a value, and nothing else changes. -/
theorem setConstant_ok {e e' : Editor α} {path : String} {value : α}
    (h : setConstant path value e = .ok () e') : ∃ id b old, e.diagram.find path = .ok id ∧
      e.diagram.block? id = some b ∧ b.operator = .constant old ∧
        e'.diagram = e.diagram.modifyBlock id fun b => { b with operator := .constant value } := by
  simp only [setConstant, EStateM.bind_eq_ok, diagram_eq_ok, EStateM.lift_eq_ok] at h
  obtain ⟨_, _, ⟨rfl, rfl⟩, id, _, ⟨hid, rfl⟩, b, e, ⟨hb, rfl⟩, h⟩ := h
  cases hoperator : b.operator with
  | constant old =>
      rw [hoperator] at h
      exact ⟨id, b, old, hid, Diagram.block_eq_ok.mp hb, hoperator, (modifyBlock_ok h).2⟩
  | _ =>
      rw [hoperator] at h
      cases h

/-- A change that gives a block another operator with the same ports, or another rate. -/
structure Tuning (d : Diagram α) (id : BlockId) (f : Block α → Block α) : Prop where
  rest : ∀ b, f b = { b with operator := (f b).operator, rate := (f b).rate }
  kind : ∀ b, d.block? id = some b → (f b).operator.isComposite = b.operator.isComposite
  inputNames : ∀ b, d.block? id = some b → (f b).operator.inputNames = b.operator.inputNames
  outputNames : ∀ b, d.block? id = some b → (f b).operator.outputNames = b.operator.outputNames

/-- What setting parameters keeps. -/
def KeptByTuning (P : Diagram α → Prop) : Prop :=
  ∀ d id f, P d → Tuning d id f → P (d.modifyBlock id f)

namespace KeptByTuning

variable (h : KeptByTuning P)
include h

theorem modifyBlock {id : BlockId} {f : Block α → Block α} (hf : ∀ d, Tuning d id f) :
    Keeps P (Edit.modifyBlock id f) := by
  refine .of_ok (fun d => modifyBlock_atomic d id f) fun e _ e' he hok => ?_
  rw [(modifyBlock_ok hok).2]
  exact h _ _ _ he (hf e.diagram)

theorem setConstant (path : String) (value : α) : Keeps P (setConstant path value) := by
  refine .of_ok (fun d => setConstant_atomic d path value) fun e _ e' he hok => ?_
  obtain ⟨id, b, old, _, hb, hoperator, hdiagram⟩ := setConstant_ok hok
  rw [hdiagram]
  -- only a constant is set, so the new operator has the ports of the old one
  refine h _ _ _ he ⟨fun _ => rfl, fun b' hb' => ?_, fun b' hb' => ?_, fun b' hb' => ?_⟩ <;>
  · cases hb.symm.trans hb'
    rw [hoperator]
    rfl

theorem setRate [Scalar α] (id : BlockId) (rate : Option α) : Keeps P (setRate id rate) := by
  have hset : Keeps P (Edit.modifyBlock id fun b : Block α => { b with rate }) :=
    h.modifyBlock fun _ => ⟨fun _ => rfl, fun _ _ => rfl, fun _ _ => rfl, fun _ _ => rfl⟩
  cases rate with
  | none => exact hset
  | some period =>
      simp only [Edit.setRate]
      split
      · exact hset
      · exact .bind (.of_quiet .diagram) fun _ => .bind (.of_quiet (.throw _)) fun _ => hset

theorem setClockStart (start : α) : Keeps P (setClockStart start) := by
  refine .bind (.of_quiet .diagram) fun _ => .bind (.of_quiet (.lift _)) fun id => ?_
  refine h.modifyBlock fun _ => ⟨fun b => ?_, fun b _ => ?_, fun b _ => ?_, fun b _ => ?_⟩
  · split <;> rfl
  · split
    next hoperator => simp [hoperator, Operator.isComposite]
    next => rfl
  · split
    next hoperator => simp [hoperator, Operator.inputNames]
    next => rfl
  · split
    next hoperator => simp [hoperator, Operator.outputNames]
    next => rfl

end KeptByTuning

end Keeps

/-! ### Operations -/

theorem insert_keeps (parent : BlockId) (name : String) (operator : Operator α)
    (inputs outputs : List String) : Keeps Diagram.WellFormed (insert parent name operator inputs outputs) :=
  .of_ok (fun d => insert_atomic d parent name operator inputs outputs)
    fun _ _ _ => insert_wellFormed

theorem connectPorts_keeps (source target : PortId) :
    Keeps Diagram.WellFormed (connectPorts source target : Edit α Unit) := by
  refine .of_ok (fun d => connectPorts_atomic d source target) fun e _ e' h hok => ?_
  obtain ⟨hsource, htarget, ⟨level, hl, hl'⟩, hfree, hdiagram⟩ := connectPorts_ok hok
  rw [hdiagram]
  refine ⟨by rw [Diagram.place?_linked]; exact h.top, by rw [Diagram.place?_linked]; exact h.tree, ?_⟩
  rw [Diagram.place?_linked, Diagram.incoming_linked htarget, Diagram.outgoing_linked hsource]
  exact h.links.link hfree hl hl' rfl

theorem disconnectPorts_keeps (source target : PortId) :
    Keeps Diagram.WellFormed (disconnectPorts source target : Edit α Unit) := by
  refine .of_ok (fun d => disconnectPorts_atomic d source target) fun e _ e' h hok => ?_
  obtain ⟨_, hlinked, hdiagram⟩ := disconnectPorts_ok hok
  rw [hdiagram]
  refine ⟨by rw [Diagram.place?_unlinked]; exact h.top,
    by rw [Diagram.place?_unlinked]; exact h.tree, ?_⟩
  rw [Diagram.place?_unlinked, Diagram.incoming_unlinked, Diagram.outgoing_unlinked]
  exact h.links.unlink hlinked

theorem wellFormed_keptByBuilding : KeptByBuilding (Diagram.WellFormed (α := α)) where
  addBlock parent name operator := insert_keeps parent name operator _ _
  addComposite parent name _ inputs outputs := insert_keeps parent name _ inputs outputs
  connectPorts := connectPorts_keeps
  disconnectPorts := disconnectPorts_keeps

end Edit

namespace Diagram

variable {d d' : Diagram α}

/-- Only what the view shows matters. -/
theorem WellFormed.congr (h : d.WellFormed) (hplace : d'.place? = d.place?)
    (hincoming : d'.incoming = d.incoming) (houtgoing : d'.outgoing = d.outgoing) :
    d'.WellFormed := by
  refine ⟨?_, ?_, ?_⟩
  · rw [hplace]; exact h.top
  · rw [hplace]; exact h.tree
  · rw [hplace, hincoming, houtgoing]; exact h.links

theorem WellFormed.modifyBlock (h : d.WellFormed) {id : BlockId} {f : Block α → Block α}
    (hplace : ∀ b, d.block? id = some b → (f b).place = b.place)
    (hports : ∀ b side, (f b).ports side = b.ports side) : (d.modifyBlock id f).WellFormed :=
  h.congr (place?_modifyBlock_same hplace) (incoming_congr (port?_modifyBlock_same hports))
    (outgoing_congr (port?_modifyBlock_same hports))

theorem WellFormed.mapPorts (h : d.WellFormed) {f : Port α → Port α}
    (hname : ∀ p, (f p).name = p.name) (hincoming : ∀ p, (f p).incoming = p.incoming)
    (houtgoing : ∀ p, (f p).outgoing = p.outgoing) : (d.mapPorts f).WellFormed :=
  h.congr (place?_mapPorts hname) (incoming_mapPorts hincoming) (outgoing_mapPorts houtgoing)

end Diagram

namespace Edit

theorem wellFormed_keptByTuning : KeptByTuning (Diagram.WellFormed (α := α)) := by
  intro d id f h hf
  refine h.modifyBlock (fun b hb => ?_) fun b side => ?_
  · have hkind := hf.kind b hb
    rw [hf.rest b]
    simp [Block.place, Block.isComposite, hkind]
  · rw [hf.rest b]
    cases side <;> rfl

theorem clone_keeps {e : Editor α} {source : BlockId} (h : e.diagram.WellFormed)
    (hlive : (e.diagram.block? source).isSome) (parent : BlockId) (name : String) :
    (clone source parent name e).state.diagram.WellFormed := by
  cases hresult : clone source parent name e with
  | ok b e' => exact clone_wellFormed h hlive hresult
  | error failure e' =>
      rw [EStateM.Result.state, clone_atomic e.diagram source parent name e failure e' rfl hresult]
      exact h

end Edit

/-! ### Calls -/

/-- A call that builds a diagram, sets a parameter or takes samples away. -/
inductive DiagramCall (α : Type) where
  | addBlock (parent : BlockId) (name : String) (operator : Operator α)
  | addComposite (parent : BlockId) (name type : String) (inputs outputs : List String)
  | connectPorts (source target : PortId)
  | connect (parent : BlockId) (source target : String) (output input : Option String)
  | disconnectPorts (source target : PortId)
  | disconnect (parent : BlockId) (source target : String) (output input : Option String)
  | clone (source parent : BlockId) (name : String)
  | flatten (id : BlockId) (keep : List String)
  | setConstant (path : String) (value : α)
  | setRate (id : BlockId) (rate : Option α)
  | setClockStart (start : α)
  | rewind
  | clearSignals
  | addIncrement (parent : BlockId) (name : String)
  | addDerivator (parent : BlockId) (name : String)
  | addIntegrator (parent : BlockId) (name : String)
  | addFixedRateClock (parent : BlockId) (stem : String) (step start : α)

namespace DiagramCall

/-- What a call does. -/
def perform [Scalar α] : DiagramCall α → Edit α Unit
  | addBlock parent name operator => discard <| Edit.addBlock parent name operator
  | addComposite parent name type inputs outputs =>
    discard <| Edit.addComposite parent name type inputs outputs
  | connectPorts source target => Edit.connectPorts source target
  | connect parent source target output input => Edit.connect parent source target output input
  | disconnectPorts source target => Edit.disconnectPorts source target
  | disconnect parent source target output input =>
    Edit.disconnect parent source target output input
  | clone source parent name => discard <| Edit.clone source parent name
  | flatten id keep => Edit.flatten id keep
  | setConstant path value => Edit.setConstant path value
  | setRate id rate => Edit.setRate id rate
  | setClockStart start => Edit.setClockStart start
  | rewind => Edit.update Diagram.rewind
  | clearSignals => Edit.update Diagram.clearSignals
  | addIncrement parent name => discard <| Edit.addIncrement parent name
  | addDerivator parent name => discard <| Edit.addDerivator parent name
  | addIntegrator parent name => discard <| Edit.addIntegrator parent name
  | addFixedRateClock parent stem step start =>
    discard <| Edit.addFixedRateClock parent stem step start

/-- Whether a call may be made: only a block that is there is copied, and a
composite only counts as flattened when that succeeds. -/
def Allowed [Scalar α] (e : Editor α) : DiagramCall α → Prop
  | clone source _ _ => (e.diagram.block? source).isSome
  | flatten id keep => ∃ e', Edit.flatten id keep e = .ok () e'
  | _ => True

/-- A call keeps a diagram well formed, whether it succeeds or fails. -/
theorem perform_wellFormed [Scalar α] {e : Editor α} {call : DiagramCall α}
    (h : e.diagram.WellFormed) (hallowed : call.Allowed e) :
    (call.perform e).state.diagram.WellFormed := by
  have hbuilding := Edit.wellFormed_keptByBuilding (α := α)
  have htuning := Edit.wellFormed_keptByTuning (α := α)
  cases call with
  | addBlock parent name operator => exact (hbuilding.addBlock parent name operator).discard e h
  | addComposite parent name type inputs outputs =>
      exact (hbuilding.addComposite parent name type inputs outputs).discard e h
  | connectPorts source target => exact hbuilding.connectPorts source target e h
  | connect parent source target output input =>
      exact hbuilding.connect parent source target output input e h
  | disconnectPorts source target => exact hbuilding.disconnectPorts source target e h
  | disconnect parent source target output input =>
      exact hbuilding.disconnect parent source target output input e h
  | clone source parent name =>
      rw [perform, EStateM.state_discard]
      exact Edit.clone_keeps h hallowed parent name
  | flatten id keep =>
      obtain ⟨e', hok⟩ := hallowed
      rw [perform, hok]
      exact Edit.flatten_wellFormed h hok
  | setConstant path value => exact htuning.setConstant path value e h
  | setRate id rate => exact htuning.setRate id rate e h
  | setClockStart start => exact htuning.setClockStart start e h
  | rewind => exact h.mapPorts (fun _ => rfl) (fun _ => rfl) fun _ => rfl
  | clearSignals => exact h.mapPorts (fun _ => rfl) (fun _ => rfl) fun _ => rfl
  | addIncrement parent name => exact (hbuilding.addIncrement parent name).discard e h
  | addDerivator parent name => exact (hbuilding.addDerivator parent name).discard e h
  | addIntegrator parent name => exact (hbuilding.addIntegrator parent name).discard e h
  | addFixedRateClock parent stem step start =>
      exact (hbuilding.addFixedRateClock parent stem step start).discard e h

end DiagramCall

namespace Diagram

/-- The diagrams that calls make of an empty one. -/
inductive Built [Scalar α] : Diagram α → Prop where
  | empty (name : String) (inputs outputs : List String) : Built (empty name inputs outputs)
  | call {e : Editor α} (call : DiagramCall α) : Built e.diagram → call.Allowed e →
      Built (call.perform e).state.diagram

/-- What calls leave, one after the other, whether they succeed or fail. -/
def performAll [Scalar α] (e : Editor α) (calls : List (DiagramCall α)) : Editor α :=
  calls.foldl (fun e call => (call.perform e).state) e

theorem Built.performAll [Scalar α] {e : Editor α} {calls : List (DiagramCall α)}
    (h : e.diagram.Built) (hallowed : ∀ call ∈ calls, ∀ e, call.Allowed e) :
    (performAll e calls).diagram.Built := by
  induction calls generalizing e with
  | nil => exact h
  | cons call rest ih =>
      exact ih (.call call h (hallowed call List.mem_cons_self e)) fun call hcall =>
        hallowed call (List.mem_cons_of_mem _ hcall)

theorem Built.clearSignals [Scalar α] {d : Diagram α} (h : d.Built) : d.clearSignals.Built :=
  h.call (e := { diagram := d }) .clearSignals trivial

theorem Built.wellFormed [Scalar α] {d : Diagram α} (h : d.Built) : d.WellFormed := by
  induction h with
  | empty name inputs outputs => exact wellFormed_empty name inputs outputs
  | call _ _ hallowed ih => exact DiagramCall.perform_wellFormed ih hallowed

end Diagram

end CausalBlocks
