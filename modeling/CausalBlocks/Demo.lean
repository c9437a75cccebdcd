import CausalBlocks.Simulation.Run

/-!
# Demos

Ready-made models, each with the state events that belong to it.
-/

namespace CausalBlocks

variable {α : Type} [Scalar α]

/-- A model with the levels it watches and what it changes when they are crossed. -/
structure Demo (α : Type) where
  diagram : Diagram α
  events : List (Watch α × Edit α Unit)

namespace Demo

/-- The acceleration of a falling ball. -/
def gravity : α := -9.81

/-- The model that an edit makes of an empty one. -/
def build (name : String) (outputs : List String) (edit : Edit α Unit) :
    Except (Failure α) (Diagram α) :=
  match edit { diagram := .empty name [] outputs } with
  | .ok _ editor => .ok editor.diagram
  | .error failure _ => .error failure

/-- What a bounce does: the ball starts from the ground with its speed reversed and
scaled. -/
def bounce (restitution : α) : Edit α Unit := do
  match (← (← Edit.diagram).signalHistory "velocity").newest? with
  | some velocity =>
    Edit.setConstant "v0" (-velocity.value * restitution)
    Edit.setConstant "y0" 0
  | none => throw (.callback "no velocity at the bounce")

/-- A ball that falls from a height and loses part of its speed when it bounces. -/
def bouncingBall (height restitution : α) : Except (Failure α) (Demo α) := do
  let diagram ← build "BouncingBall" ["height", "velocity"] do
    let root : BlockId := ⟨0⟩
    Edit.addAll root [("g", .constant gravity), ("v0", .constant 0), ("y0", .constant height)]
    let _ ← Edit.addIntegrator root "v"
    let _ ← Edit.addIntegrator root "y"
    Edit.connectAll root [
      ("g", "v", some "IN1"),
      ("v", "y", some "IN1"),
      ("v0", "v", some initialCondition),
      ("y0", "y", some initialCondition),
      ("v", "velocity", none),
      ("y", "height", none)]
  return ⟨diagram, [(⟨"height", 0, .fromAbove⟩, bounce restitution)]⟩

/-- Two algebraic loops, the second fed by the first through a product:

    a1 = a3 + 3      a4 = -p + a5
    a2 = 2 + a3      a5 = 1 - a4
    a3 = a1 + a2     p  = 1.5 * a3
-/
def algebraicLoop : Except (Failure α) (Demo α) := do
  let diagram ← build "AlgebraicLoop" ["OUT1", "OUT2"] do
    let root : BlockId := ⟨0⟩
    Edit.addAll root [
      ("c1", .constant 3.0), ("c2", .constant 2.0), ("c3", .constant 1.5), ("c4", .constant 1)]
    Edit.addAll root (["a1", "a2", "a3", "a4", "a5"].map fun name => (name, .adder 2))
    Edit.addAll root [("p", .product 2), ("n1", .negator), ("n2", .negator)]
    let links := [
      ("a3", "a1"), ("c1", "a1"),
      ("c2", "a2"), ("a3", "a2"),
      ("a1", "a3"), ("a2", "a3"),
      ("a3", "p"), ("c3", "p"), ("p", "n1"),
      ("n1", "a4"), ("a5", "a4"),
      ("c4", "a5"), ("n2", "a5"), ("a4", "n2"),
      ("a3", "OUT1"), ("a4", "OUT2")]
    Edit.connectAll root (links.map fun (source, target) => (source, target, none))
  return ⟨diagram, []⟩

/-- The oscillation `x'' = -x` from `x = 1`, integrated twice. -/
def oscillator : Except (Failure α) (Demo α) := do
  let diagram ← build "Oscillator" ["x", "v"] do
    let root : BlockId := ⟨0⟩
    Edit.addAll root [("x0", .constant 1), ("v0", .constant 0), ("neg", .negator)]
    let _ ← Edit.addIntegrator root "vel"
    let _ ← Edit.addIntegrator root "pos"
    Edit.connectAll root [
      ("pos", "neg", none),
      ("neg", "vel", some "IN1"),
      ("v0", "vel", some initialCondition),
      ("vel", "pos", some "IN1"),
      ("x0", "pos", some initialCondition),
      ("pos", "x", none),
      ("vel", "v", none)]
  return ⟨diagram, []⟩

/-- The names of the demos. -/
def names : List String := ["bouncing_ball", "algebraic_loop", "oscillator"]

/-- The demo with a name. -/
def named (name : String) : Except (Failure α) (Demo α) :=
  match name with
  | "bouncing_ball" => bouncingBall 100.0 0.7
  | "algebraic_loop" => algebraicLoop
  | "oscillator" => oscillator
  | other => .error (.invalidParameter "demo" (.unknownDemo other names))

/-- A change of the model as a callback. -/
def callback {ω : Type} (edit : Edit α Unit) : Callback α ω := fun _ scene =>
  match edit scene.editor with
  | .ok x editor => .ok x { scene with editor }
  | .error failure editor => .error failure { scene with editor }

/-- The state events of a demo. -/
def stateEvents {ω : Type} (demo : Demo α) : List (StateEvent α ω) :=
  demo.events.map fun (watch, edit) => { watch, callback := callback edit }

end Demo

end CausalBlocks
