import CausalBlocks.Journal
import CausalBlocks.Trace.Interpolation

/-!
# Delivering samples to tracers

A run reports what it does as messages. They wait in a queue, and a worker
delivers them one by one, in order, to every tracer that it serves. Tracers are
registered before a run; the run that starts next takes them all, and its worker
stops at the message that ends the run. When each message is delivered is left
open until the dispatcher is told to finish.
-/

namespace CausalBlocks

variable {α : Type}

/-- What a run reports. -/
inductive TraceMessage (α : Type) where
  /-- A run begins; the names label the values of later samples. -/
  | started (names : List String) (startTime : α)
  | iteration (iteration : Nat) (time : α)
  /-- The newest value of every signal. -/
  | sample (row : Row α)
  | finished

/-- A row with the names of its values. -/
structure TraceRecord (α : Type) where
  names : List String
  row : Row α

/-- The value of the signal with a name. -/
def TraceRecord.value? (r : TraceRecord α) (name : String) : Option α :=
  (r.names.idxOf? name).bind fun i => r.row.values[i]?

/-- What a tracer receives. -/
inductive Delivery (α : Type) where
  | start (names : List String)
  | iteration (iteration : Nat) (time : α)
  | record (record : TraceRecord α)
  | finish

/-- A tracer in the care of the dispatcher: its number, the interval at which it
wants rows if not at every sample, and the way there. -/
structure Registration (α : Type) where
  tracer : Nat
  interval : Option (α × Interpolation)
  interpolator : Option (Interpolator α) := none

/-- A worker: the tracers it serves, the messages that wait, the oldest first, and
the names of the last start. It is done after the message that ends the run. -/
structure Worker (α : Type) where
  registrations : List (Registration α)
  queue : Array (TraceMessage α) := #[]
  names : List String := []
  done : Bool := false

/-- The tracers that wait for a run, the worker of a run, and all deliveries so
far with the number of their tracer. -/
structure Dispatcher (α : Type) where
  registered : Nat := 0
  pending : List (Registration α) := []
  worker : Option (Worker α) := none
  delivered : Array (Nat × Delivery α) := #[]

namespace Registration

/-- What a message means to a tracer, and the registration after it. -/
def handle [Scalar α] (r : Registration α) (names : List String) (message : TraceMessage α) :
    List (Delivery α) × Registration α :=
  match message with
  | .started names startTime =>
    let interpolator := r.interval.map fun (interval, method) =>
      Interpolator.start interval method startTime
    ([.start names], { r with interpolator })
  | .iteration iteration time => ([.iteration iteration time], r)
  | .sample row =>
    match r.interpolator with
    | some interpolator =>
      let (rows, interpolator) := interpolator.feed row
      (rows.map fun row => .record ⟨names, row⟩, { r with interpolator := some interpolator })
    | none => ([.record ⟨names, row⟩], r)
  | .finished => ([.finish], r)

end Registration

/-- The names that later samples have after a message. -/
def TraceMessage.namesAfter (names : List String) : TraceMessage α → List String
  | .started names _ => names
  | _ => names

namespace Worker

/-- The deliveries of one message to all tracers in order of registration, and the
worker after it. A worker that is done delivers nothing. -/
def handle [Scalar α] (w : Worker α) (message : TraceMessage α) :
    List (Nat × Delivery α) × Worker α :=
  if w.done then ([], w)
  else
    let names := message.namesAfter w.names
    let handled := w.registrations.map fun r => (r.tracer, r.handle names message)
    (handled.flatMap fun (tracer, deliveries, _) => deliveries.map (tracer, ·),
      { w with
        registrations := handled.map fun (_, _, r) => r
        names
        done := message matches .finished })

end Worker

namespace Dispatcher

/-- Registers a tracer for the next run. An interval has to be positive. -/
def add [Scalar α] (d : Dispatcher α) (interval : Option (α × Interpolation)) :
    Except (Failure α) (Dispatcher α) := do
  if let some (length, _) := interval then
    unless 0 < length ∧ Scalar.bounded length do
      throw (.invalidParameter "communication interval" (.notPositive length))
  return { d with
    registered := d.registered + 1
    pending := d.pending ++ [{ tracer := d.registered, interval }] }

/-- Whether a run is being traced. -/
def isRunning (d : Dispatcher α) : Bool := d.worker.isSome

/-- What there is to say when a tracer is added: during a run, that it waits. -/
def notices (d : Dispatcher α) : List (Notice α) :=
  if d.isRunning then [.tracerWaits] else []

/-- Starts a worker with the pending tracers, if there are any and no worker is at
work. -/
def start (d : Dispatcher α) : Dispatcher α :=
  if d.pending.isEmpty ∨ d.isRunning then d
  else { d with pending := [], worker := some { registrations := d.pending } }

/-- Queues a message. Without a worker it is dropped. -/
def send (d : Dispatcher α) (message : TraceMessage α) : Dispatcher α :=
  { d with worker := d.worker.map fun w => { w with queue := w.queue.push message } }

/-- Delivers the oldest message, if one waits. -/
def deliver [Scalar α] (d : Dispatcher α) : Dispatcher α :=
  match d.worker with
  | none => d
  | some w =>
    match w.queue.toList with
    | [] => d
    | message :: rest =>
      let (deliveries, w) := w.handle message
      { d with
        worker := some { w with queue := rest.toArray }
        delivered := d.delivered ++ deliveries }

/-- Delivers a list of messages in order. -/
def deliverAll [Scalar α] (w : Worker α) (delivered : Array (Nat × Delivery α)) :
    List (TraceMessage α) → Array (Nat × Delivery α)
  | [] => delivered
  | message :: rest =>
    let (deliveries, w) := w.handle message
    deliverAll w (delivered ++ deliveries) rest

/-- Ends the run: everything that waits is delivered, then the end of the run, and
the worker is dismissed. -/
def finish [Scalar α] (d : Dispatcher α) : Dispatcher α :=
  match d.worker with
  | none => d
  | some w =>
    { d with
      worker := none
      delivered := deliverAll w d.delivered (w.queue.toList ++ [.finished]) }

/-- What one tracer has received. -/
def receivedBy (d : Dispatcher α) (tracer : Nat) : List (Delivery α) :=
  d.delivered.toList.filterMap fun (receiver, delivery) =>
    if receiver = tracer then some delivery else none

end Dispatcher

/-- The entry that a tracer which writes to the log makes of a delivery. -/
def Delivery.entry? : Delivery Float → Option LogEntry
  | .start names =>
    some ⟨.info, "trace started", [("signals", .text (toString names.length))]⟩
  | .iteration .. => none
  | .record ⟨names, row⟩ =>
    let cell (name : String) (value : Float) : String := name ++ "=" ++ doubleText value
    some ⟨.info, " ".intercalate (List.zipWith cell names row.values), [("time", .number row.time)]⟩
  | .finish => some ⟨.info, "trace finished", []⟩

end CausalBlocks
