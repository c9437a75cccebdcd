import CausalBlocks.Diagram.Edit

/-!
# Samples of a diagram

A run adds one sample at a time to the ports, and can take the newest or all of
them away again.
-/

namespace CausalBlocks

variable {α : Type}

/-- Adds a sample to a port. -/
def Edit.record (port : PortId) (sample : Sample α) : Edit α Unit :=
  modifyPort port fun p => { p with history := p.history.push sample }

namespace Diagram

/-- The diagram with the newest sample of every port taken away. -/
def rewind (d : Diagram α) : Diagram α :=
  d.mapPorts fun p => { p with history := p.history.pop }

/-- The same diagram without samples. -/
def clearSignals (d : Diagram α) : Diagram α := d.mapPorts fun p => { p with history := #[] }

end Diagram

end CausalBlocks
