import CausalBlocks.Proofs.Diagram.Samples

/-!
# The frame of a diagram

Names, nesting, ports and links make the frame of a diagram. Where a path leads and what
drives a port depends on nothing else: neither on samples nor on what the operators compute.
-/

namespace CausalBlocks

variable {α : Type}

/-- A block without samples, without its rate, and without what it computes. -/
def Block.frame (b : Block α) : Block α :=
  { b.bare with operator := if b.isComposite then .composite "" else .time, rate := none }

namespace Block

variable {b c : Block α}

theorem isComposite_frame (b : Block α) : b.frame.isComposite = b.isComposite := by
  rw [frame, isComposite]
  cases b.isComposite <;> rfl

theorem isComposite_of_frame (h : b.frame = c.frame) : b.isComposite = c.isComposite := by
  rw [← isComposite_frame, h, isComposite_frame]

theorem childIndex_of_frame (h : b.frame = c.frame) : b.childIndex = c.childIndex :=
  show b.frame.childIndex = c.frame.childIndex by rw [h]

theorem ports_of_frame (h : b.frame = c.frame) (side : Side) :
    (b.ports side).map Port.bare = (c.ports side).map Port.bare := by
  cases side with
  | input => exact congrArg Block.inputs h
  | output => exact congrArg Block.outputs h

theorem findIdx?_of_bare {ports ports' : List (Port α)}
    (h : ports.map Port.bare = ports'.map Port.bare) (name : String) :
    ports.findIdx? (fun p => p.name == name) = ports'.findIdx? fun p => p.name == name := by
  have hnames : ∀ ports : List (Port α), ports.findIdx? (fun p => p.name == name) =
      (ports.map Port.bare).findIdx? fun p => p.name == name := fun ports => by
    rw [List.findIdx?_map]
    rfl
  rw [hnames ports, hnames ports', h]

theorem inputIndex?_of_frame (h : b.frame = c.frame) (name : String) :
    b.inputIndex? name = c.inputIndex? name := findIdx?_of_bare (ports_of_frame h .input) name

theorem outputIndex?_of_frame (h : b.frame = c.frame) (name : String) :
    b.outputIndex? name = c.outputIndex? name := findIdx?_of_bare (ports_of_frame h .output) name

end Block

namespace Diagram

variable {d d' d'' : Diagram α} {id : BlockId} {p q : PortId} {path : String}

/-- Two diagrams with the same frame. -/
def SameFrame (d d' : Diagram α) : Prop :=
  ∀ id, (d'.block? id).map Block.frame = (d.block? id).map Block.frame

theorem SameShape.sameFrame (h : SameShape d d') : SameFrame d d' := by
  have hframe : ∀ b : Block α, b.bare.frame = b.frame := fun b => by
    simp only [Block.frame, Block.bare, Block.isComposite, List.map_map]
    rfl
  intro id
  have hbare : d'.clearSignals.block? id = d.clearSignals.block? id := by rw [h]
  rw [block?_clearSignals, block?_clearSignals] at hbare
  have hmap := congrArg (Option.map Block.frame) hbare
  simpa only [Option.map_map, Function.comp_def, hframe] using hmap

namespace SameFrame

theorem symm (h : SameFrame d d') : SameFrame d' d := fun id => (h id).symm

theorem trans (h : SameFrame d d') (h' : SameFrame d' d'') : SameFrame d d'' :=
  fun id => (h' id).trans (h id)

theorem block (h : SameFrame d d') {b : Block α} (hb : d.block id = .ok b) :
    ∃ b', d'.block id = .ok b' ∧ b'.frame = b.frame := by
  have hid := h id
  rw [block_eq_ok.mp hb, Option.map_some] at hid
  obtain ⟨b', hb', hframe⟩ := Option.map_eq_some_iff.mp hid
  exact ⟨b', block_eq hb', hframe⟩

theorem frame_eq (h : SameFrame d d') {b b' : Block α} (hb : d.block? id = some b)
    (hb' : d'.block? id = some b') : b'.frame = b.frame := by
  have hid := h id
  rw [hb, hb'] at hid
  exact Option.some.inj hid

theorem missing (h : SameFrame d d') (hb : d.block? id = none) : d'.block? id = none := by
  have hid := h id
  rw [hb, Option.map_none] at hid
  exact Option.map_eq_none_iff.mp hid

theorem port (h : SameFrame d d') {port : Port α} (hp : d.port? p = some port) :
    ∃ port', d'.port? p = some port' ∧ port'.bare = port.bare := by
  obtain ⟨b, hb, hport⟩ := Option.bind_eq_some_iff.mp hp
  obtain ⟨b', hb', hframe⟩ := h.block (block_eq hb)
  have hports := congrArg (·[p.index]?) (Block.ports_of_frame hframe p.side)
  simp only [List.getElem?_map, hport, Option.map_some] at hports
  rw [port?_eq (block_eq_ok.mp hb')]
  exact Option.map_eq_some_iff.mp hports

theorem missing_port (h : SameFrame d d') (hp : d.port? p = none) : d'.port? p = none := by
  cases hp' : d'.port? p with
  | none => rfl
  | some port' =>
      obtain ⟨port, hlive, _⟩ := h.symm.port hp'
      cases hp.symm.trans hlive

theorem incoming (h : SameFrame d d') (q : PortId) : d'.incoming q = d.incoming q := by
  rw [Diagram.incoming, Diagram.incoming]
  cases hport : d.port? q with
  | none => rw [h.missing_port hport]
  | some port =>
      obtain ⟨port', hport', hbare⟩ := h.port hport
      have hincoming : port'.bare.incoming = port.bare.incoming := by rw [hbare]
      rw [hport']
      exact hincoming

/-! ### Paths -/

theorem findFrom (h : SameFrame d d') {current : BlockId} {segments : List String}
    (hok : d.findFrom path current segments = .ok id) :
    d'.findFrom path current segments = .ok id := by
  induction current, segments using findFrom.induct with
  | case1 current =>
      rw [Diagram.findFrom] at hok ⊢
      exact hok
  | case2 current segments hmore ih =>
      rw [Diagram.findFrom, dif_neg hmore] at hok ⊢
      obtain ⟨b, hb, hok⟩ := Except.bind_eq_ok.mp hok
      obtain ⟨b', hb', hframe⟩ := h.block hb
      have hchild : b'.longestChild? segments = b.longestChild? segments := by
        simp only [Block.longestChild?, Block.child?, Block.childIndex_of_frame hframe]
      refine Except.bind_eq_ok.mpr ⟨b', hb', ?_⟩
      rw [hchild]
      split at hok
      next => cases hok
      next k child _ => exact ih k child hok

theorem find (h : SameFrame d d') (hok : d.find path = .ok id) : d'.find path = .ok id := by
  rw [Diagram.find] at hok ⊢
  split at hok
  next hempty =>
    rw [if_pos hempty]
    exact hok
  next hempty =>
    rw [if_neg hempty]
    exact h.findFrom hok

theorem outputNamed (h : SameFrame d d') {name : String}
    (hok : d.outputNamed id path name = .ok p) : d'.outputNamed id path name = .ok p := by
  obtain ⟨b, hb, hok⟩ := Except.bind_eq_ok.mp hok
  obtain ⟨b', hb', hframe⟩ := h.block hb
  refine Except.bind_eq_ok.mpr ⟨b', hb', ?_⟩
  rw [Block.outputIndex?_of_frame hframe]
  exact hok

/-- The port named by the last of some segments, of the block with the other ones. -/
theorem lastNamed (h : SameFrame d d') (segments : List String) :
    (match segments with
      | last :: before :: above => do
        d.outputNamed (← d.find (joinPath (before :: above).reverse))
          (joinPath (before :: above).reverse) last
      | _ => throw (Failure.blockNotFound path) : Except (Failure α) PortId) = .ok p →
    (match segments with
      | last :: before :: above => do
        d'.outputNamed (← d'.find (joinPath (before :: above).reverse))
          (joinPath (before :: above).reverse) last
      | _ => throw (Failure.blockNotFound path) : Except (Failure α) PortId) = .ok p := by
  intro hok
  split at hok
  next =>
    obtain ⟨owner, howner, hok⟩ := Except.bind_eq_ok.mp hok
    exact Except.bind_eq_ok.mpr ⟨owner, h.find howner, h.outputNamed hok⟩
  next => cases hok

/-- A path leads to the same port. -/
theorem findPort (h : SameFrame d d') (hok : d.findPort path = .ok p) :
    d'.findPort path = .ok p := by
  obtain ⟨b, hb, hok⟩ := Except.bind_eq_ok.mp hok
  obtain ⟨b', hb', hframe⟩ := h.block hb
  refine Except.bind_eq_ok.mpr ⟨b', hb', ?_⟩
  rw [Block.outputIndex?_of_frame hframe, Block.inputIndex?_of_frame hframe]
  cases houtput : b.outputIndex? path with
  | some index =>
      simp only [houtput] at hok
      exact hok
  | none =>
      simp only [houtput] at hok
      dsimp only
      cases hinput : b.inputIndex? path with
      | some index =>
          simp only [hinput] at hok
          exact hok
      | none =>
          simp only [hinput] at hok
          dsimp only
          -- a block that is not found in the one is not found in the other
          cases hfind : d.find path with
          | ok id =>
              rw [h.find hfind]
              simp only [hfind] at hok
              by_cases hroot : id ≠ d.root
              · rw [if_pos hroot] at hok
                exact (if_pos hroot).trans (h.outputNamed hok)
              · rw [if_neg hroot] at hok
                exact (if_neg hroot).trans (h.lastNamed _ hok)
          | error failure =>
              simp only [hfind] at hok
              cases hfind' : d'.find path with
              | ok id => cases hfind.symm.trans (h.symm.find hfind')
              | error _ => exact h.lastNamed _ hok

/-! ### Links -/

theorem isComposite (h : SameFrame d d') (id : BlockId) : d'.isComposite id = d.isComposite id := by
  rw [Diagram.isComposite, Diagram.isComposite]
  cases hb : d.block? id with
  | none => rw [h.missing hb]
  | some b =>
      obtain ⟨b', hb', hframe⟩ := h.block (block_eq hb)
      rw [block_eq_ok.mp hb']
      exact Block.isComposite_of_frame hframe

theorem endsAt (h : SameFrame d d') {ends : Bool} (hok : d.endsAt p = .ok ends) :
    d'.endsAt p = .ok ends := by
  rw [Diagram.endsAt] at hok ⊢
  cases hside : p.side with
  | input =>
      rw [hside] at hok
      exact hok
  | output =>
      rw [hside] at hok
      cases hb : d.block p.block with
      | error failure =>
          rw [hb] at hok
          cases hok
      | ok b =>
          obtain ⟨b', hb', hframe⟩ := h.block hb
          rw [hb] at hok
          dsimp only
          rw [hb', ← hok]
          exact congrArg (fun c => Except.ok !c) (Block.isComposite_of_frame hframe)

theorem driverFrom (h : SameFrame d d') {origin current : PortId} {seen : List PortId}
    (hok : d.driverFrom origin seen current = .ok p) :
    d'.driverFrom origin seen current = .ok p := by
  induction seen, current using driverFrom.induct d with
  | case1 seen current hseen =>
      rw [driverFrom_met hseen] at hok
      cases hok
  | case2 seen current hseen failure hfailing =>
      rw [driverFrom_failing hseen hfailing] at hok
      cases hok
  | case3 seen current hseen hend =>
      rw [driverFrom_end hseen hend] at hok
      rw [driverFrom_end hseen (h.endsAt hend), hok]
  | case4 seen current hseen hon hmissing =>
      rw [driverFrom_missing hseen hon hmissing] at hok
      cases hport : d.port current with
      | ok port =>
          rw [port_eq_ok.mp hport] at hmissing
          cases hmissing
      | error failure =>
          rw [hport] at hok
          cases hok
  | case5 seen current hseen hon port hport hundriven =>
      obtain ⟨port', hport', hbare⟩ := h.port hport
      have hincoming : port'.bare.incoming = port.bare.incoming := by rw [hbare]
      change port'.incoming = port.incoming at hincoming
      rw [driverFrom_port hseen hon hport, hundriven] at hok
      rw [driverFrom_port hseen (h.endsAt hon) hport', hincoming, hundriven]
      exact hok
  | case6 seen current hseen hon port hport source hdriven ih =>
      obtain ⟨port', hport', hbare⟩ := h.port hport
      have hincoming : port'.bare.incoming = port.bare.incoming := by rw [hbare]
      change port'.incoming = port.incoming at hincoming
      rw [driverFrom_port hseen hon hport, hdriven] at hok
      rw [driverFrom_port hseen (h.endsAt hon) hport', hincoming, hdriven]
      exact ih hok

theorem prevClosure (h : SameFrame d d') (hok : d.prevClosure p = .ok q) :
    d'.prevClosure p = .ok q := h.driverFrom hok

theorem driverOf (h : SameFrame d d') (hok : d.driverOf p = .ok q) : d'.driverOf p = .ok q := by
  obtain ⟨source, hsource, hok⟩ := Except.bind_eq_ok.mp hok
  refine Except.bind_eq_ok.mpr ⟨source, h.prevClosure hsource, ?_⟩
  have hends : d'.isSource source = d.isSource source := by
    rw [isSource, isSource, h.isComposite]
    rfl
  rw [hends]
  by_cases hsource : d.isSource source = true
  · rw [if_pos hsource] at hok ⊢
    exact hok
  · rw [if_neg hsource] at hok
    obtain ⟨_, _, hok⟩ := Except.bind_eq_ok.mp hok
    cases hok

/-! ### What is in a diagram -/

theorem portIds (h : SameFrame d d') (id : BlockId) (side : Side) :
    d'.portIds id side = d.portIds id side := by
  rw [Diagram.portIds, Diagram.portIds]
  cases hb : d.block? id with
  | none => rw [h.missing hb]
  | some b =>
      obtain ⟨b', hb', hframe⟩ := h.block (block_eq hb)
      have hlength := congrArg List.length (Block.ports_of_frame hframe side)
      rw [List.length_map, List.length_map] at hlength
      rw [block_eq_ok.mp hb']
      dsimp only
      rw [hlength]

theorem below (h : SameFrame d d') (depth : Nat) : d'.below depth = d.below depth := by
  induction depth with
  | zero => rfl
  | succ depth ih =>
      funext id
      rw [Diagram.below, Diagram.below, ih]
      cases hb : d.block? id with
      | none => rw [h.missing hb]
      | some b =>
          obtain ⟨b', hb', hframe⟩ := h.block (block_eq hb)
          have hchildren : b'.frame.children = b.frame.children := by rw [hframe]
          change b'.children = b.children at hchildren
          rw [block_eq_ok.mp hb']
          dsimp only
          rw [hchildren]

theorem primitives (h : SameFrame d d') (hsize : d'.blocks.size = d.blocks.size) :
    d'.primitives = d.primitives := by
  rw [Diagram.primitives, Diagram.primitives, descendants, descendants, hsize, h.below]
  exact List.filter_congr fun id _ => by rw [h.isComposite]

/-! ### Names -/

theorem name (h : SameFrame d d') : d'.name = d.name := by
  rw [Diagram.name, Diagram.name, root, root]
  cases hb : d.block? ⟨0⟩ with
  | none => rw [h.missing hb]
  | some b =>
      obtain ⟨b', hb', hframe⟩ := h.block (block_eq hb)
      have hname : b'.frame.name = b.frame.name := by rw [hframe]
      rw [block_eq_ok.mp hb']
      exact hname

theorem namesAbove (h : SameFrame d d') (depth : Nat) (id : BlockId) :
    d'.namesAbove depth id = d.namesAbove depth id := by
  induction depth generalizing id with
  | zero => rfl
  | succ depth ih =>
      have hroot : d'.root = d.root := rfl
      rw [Diagram.namesAbove, Diagram.namesAbove, hroot]
      by_cases hid : id = d.root
      · rw [if_pos hid, if_pos hid]
      · rw [if_neg hid, if_neg hid]
        cases hb : d.block? id with
        | none => rw [h.missing hb]
        | some b =>
            obtain ⟨b', hb', hframe⟩ := h.block (block_eq hb)
            have hname : b'.frame.name = b.frame.name := by rw [hframe]
            have hparent : b'.frame.parent = b.frame.parent := by rw [hframe]
            change b'.name = b.name at hname
            change b'.parent = b.parent at hparent
            rw [block_eq_ok.mp hb']
            dsimp only
            rw [hparent, hname]
            cases b.parent with
            | none => rfl
            | some parent =>
                dsimp only
                rw [ih]

theorem pathOf (h : SameFrame d d') (hsize : d'.blocks.size = d.blocks.size) (id : BlockId) :
    d'.pathOf id = d.pathOf id := by
  rw [Diagram.pathOf, Diagram.pathOf, hsize, h.namesAbove, h.name]
  rfl

/-- The same names are taken in a composite, so that the same ones are found for a child. -/
theorem uniqueName (h : SameFrame d d') {stem : String}
    (hok : d.uniqueName id stem false = .ok path) :
    d'.uniqueName id stem false = .ok path := by
  obtain ⟨b, hb, hok⟩ := Except.bind_eq_ok.mp hok
  obtain ⟨b', hb', hframe⟩ := h.block hb
  have hports : ∀ side, (b'.ports side).map Port.name = (b.ports side).map Port.name := by
    intro side
    have hbare : Port.name ∘ Port.bare = Port.name (α := α) := rfl
    have hnames := congrArg (List.map Port.name) (Block.ports_of_frame hframe side)
    simpa only [List.map_map, hbare] using hnames
  have htaken : b'.takenNames = b.takenNames := by
    have hinputs : b'.inputs.map Port.name = b.inputs.map Port.name := hports .input
    have houtputs : b'.outputs.map Port.name = b.outputs.map Port.name := hports .output
    rw [Block.takenNames, Block.takenNames, Block.childIndex_of_frame hframe, List.map_append,
      List.map_append, hinputs, houtputs]
  rw [if_neg Bool.false_ne_true] at hok
  refine Except.bind_eq_ok.mpr ⟨b', hb', ?_⟩
  rw [if_neg Bool.false_ne_true, htaken]
  exact hok

end SameFrame

/-! ### Signals -/

/-- The port that carries the signal with a path. -/
def signalSource (d : Diagram α) (path : String) : Except (Failure α) PortId := do
  d.prevClosure (← d.findPort path)

theorem signalHistory_eq_ok {history : History α} : d.signalHistory path = .ok history ↔
    ∃ p, d.signalSource path = .ok p ∧ d.history? p = some history := by
  simp only [signalHistory, historyOf, signalSource, Except.bind_eq_ok, port_eq_ok, history?,
    Option.map_eq_some_iff]
  constructor
  · rintro ⟨q, hq, p, hp, port, hport, hok⟩
    cases hok
    exact ⟨p, ⟨q, hq, hp⟩, port, hport, rfl⟩
  · rintro ⟨p, ⟨q, hq, hp⟩, port, hport, rfl⟩
    exact ⟨q, hq, p, hp, port, hport, rfl⟩

theorem SameFrame.signalSource (h : SameFrame d d') (hok : d.signalSource path = .ok p) :
    d'.signalSource path = .ok p := by
  obtain ⟨q, hq, hp⟩ := Except.bind_eq_ok.mp hok
  exact Except.bind_eq_ok.mpr ⟨q, h.findPort hq, h.prevClosure hp⟩

/-- A signal that can be looked at can be looked at wherever the frame is the same. -/
theorem SameFrame.signalHistory (h : SameFrame d d') {history : History α}
    (hok : d.signalHistory path = .ok history) :
    ∃ history', d'.signalHistory path = .ok history' := by
  obtain ⟨p, hp, hhistory⟩ := signalHistory_eq_ok.mp hok
  obtain ⟨port, hport, _⟩ := Option.map_eq_some_iff.mp hhistory
  obtain ⟨port', hport', _⟩ := h.port hport
  refine ⟨port'.history, signalHistory_eq_ok.mpr ⟨p, h.signalSource hp, ?_⟩⟩
  rw [history?, hport', Option.map_some]

end Diagram

end CausalBlocks
