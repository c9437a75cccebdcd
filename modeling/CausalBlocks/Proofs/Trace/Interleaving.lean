import CausalBlocks.Trace.Dispatcher

/-!
# Calls and deliveries in any order

The owner of a dispatcher calls it while its worker delivers messages. When a delivery happens
makes no difference in the end: to finish is to make up for all of them.
-/

namespace CausalBlocks

variable {α : Type}

/-- What the owner of a dispatcher can ask for. -/
inductive TraceCall (α : Type) where
  | add (interval : Option (α × Interpolation))
  | start
  | send (message : TraceMessage α)
  | finish

/-- What happens to a dispatcher: a call of its owner, or a delivery by its worker. -/
inductive TraceEvent (α : Type) where
  | call (call : TraceCall α)
  | delivery

/-- The call of an event, if it is one. -/
def TraceEvent.call? : TraceEvent α → Option (TraceCall α)
  | .call request => some request
  | .delivery => none

variable [Scalar α]

namespace Dispatcher

/-- The dispatcher after a call. A tracer that is refused is not added. -/
def perform (d : Dispatcher α) : TraceCall α → Dispatcher α
  | .add interval =>
    match d.add interval with
    | .ok d => d
    | .error _ => d
  | .start => d.start
  | .send message => d.send message
  | .finish => d.finish

/-- The dispatcher after an event. -/
def undergo (d : Dispatcher α) : TraceEvent α → Dispatcher α
  | .call call => d.perform call
  | .delivery => d.deliver

/-- The dispatcher after a number of calls. -/
def performAll (d : Dispatcher α) (calls : List (TraceCall α)) : Dispatcher α :=
  calls.foldl perform d

/-- The dispatcher after a number of events. -/
def undergoAll (d : Dispatcher α) (events : List (TraceEvent α)) : Dispatcher α :=
  events.foldl undergo d

variable {d e : Dispatcher α}

/-- Whether a tracer is refused does not depend on the dispatcher. -/
theorem add_eq (interval : Option (α × Interpolation)) :
    (∀ d : Dispatcher α, d.add interval = .ok { d with
      registered := d.registered + 1
      pending := d.pending ++ [{ tracer := d.registered, interval }] }) ∨
    ∃ reason, ∀ d : Dispatcher α, d.add interval = .error reason := by
  cases interval with
  | none => exact .inl fun _ => rfl
  | some interval =>
      by_cases hpositive : 0 < interval.1 ∧ Scalar.bounded interval.1
      · refine .inl fun d => ?_
        rw [add, if_pos hpositive]
        rfl
      · refine .inr ⟨.invalidParameter "communication interval" (.notPositive interval.1), fun d => ?_⟩
        rw [add, if_neg hpositive]
        rfl

theorem perform_add (interval : Option (α × Interpolation)) :
    (∀ d : Dispatcher α, d.perform (.add interval) = { d with
      registered := d.registered + 1
      pending := d.pending ++ [{ tracer := d.registered, interval }] }) ∨
    ∀ d : Dispatcher α, d.perform (.add interval) = d := by
  obtain hadded | ⟨reason, hrefused⟩ := add_eq (α := α) interval
  · exact .inl fun d => by rw [perform, hadded d]
  · exact .inr fun d => by rw [perform, hrefused d]

theorem deliver_of_none (h : d.worker = none) : d.deliver = d := by
  rw [deliver, h]

theorem deliver_of_nil {w : Worker α} (hw : d.worker = some w) (hqueue : w.queue.toList = []) :
    d.deliver = d := by
  rw [deliver, hw]
  dsimp only
  rw [hqueue]

theorem deliver_of_cons {w : Worker α} {message : TraceMessage α} {rest : List (TraceMessage α)}
    (hw : d.worker = some w) (hqueue : w.queue.toList = message :: rest) :
    d.deliver = { d with
      worker := some { (w.handle message).2 with queue := rest.toArray }
      delivered := d.delivered ++ (w.handle message).1 } := by
  rw [deliver, hw]
  dsimp only
  rw [hqueue]

omit [Scalar α] in
theorem isRunning_eq {w : Worker α} (hw : d.worker = some w) : d.isRunning = true := by
  rw [isRunning, hw]
  rfl

/-- The queue plays no part in how a message is handled. -/
theorem handle_withQueue (w : Worker α) (queue : Array (TraceMessage α)) (message : TraceMessage α) :
    ({ w with queue } : Worker α).handle message =
      ((w.handle message).1, { (w.handle message).2 with queue }) := by
  simp only [Worker.handle]
  split <;> rfl

theorem deliverAll_withQueue (w : Worker α) (queue : Array (TraceMessage α))
    (delivered : Array (Nat × Delivery α)) (messages : List (TraceMessage α)) :
    deliverAll { w with queue } delivered messages = deliverAll w delivered messages := by
  induction messages generalizing w delivered with
  | nil => rfl
  | cons message rest ih =>
      rw [deliverAll, deliverAll, handle_withQueue]
      exact ih _ _

/-- What is finished makes up for a delivery. -/
theorem finish_deliver (d : Dispatcher α) : d.deliver.finish = d.finish := by
  cases hw : d.worker with
  | none => rw [deliver_of_none hw]
  | some w =>
    cases hqueue : w.queue.toList with
    | nil => rw [deliver_of_nil hw hqueue]
    | cons message rest =>
        rw [finish, finish, hw, deliver_of_cons hw hqueue]
        simp only [hqueue, List.cons_append, deliverAll, deliverAll_withQueue]

/-- A delivery can be put off until after a call, unless the call makes up for it. -/
theorem perform_deliver (d : Dispatcher α) (call : TraceCall α) :
    d.deliver.perform call = d.perform call ∨ d.deliver.perform call = (d.perform call).deliver := by
  cases hw : d.worker with
  | none =>
      rw [deliver_of_none hw]
      exact .inl rfl
  | some w =>
    cases hqueue : w.queue.toList with
    | nil =>
        rw [deliver_of_nil hw hqueue]
        exact .inl rfl
    | cons message rest =>
      have hdeliver := deliver_of_cons hw hqueue
      cases call with
      | add interval =>
          obtain hadd | hadd := perform_add interval
          · have hlater : (d.perform (.add interval)).worker = some w := by
              rw [hadd]
              exact hw
            right
            rw [hadd, deliver_of_cons hlater hqueue, hadd, hdeliver]
          · rw [hadd, hadd]
            exact .inr rfl
      | start =>
          -- the worker is at work before and after the delivery
          have hrunning := isRunning_eq hw
          have hlater : d.deliver.isRunning = true := by rw [hdeliver]; rfl
          right
          rw [perform, perform, start, start, if_pos (.inr hlater), if_pos (.inr hrunning)]
      | send sent =>
          have hlater : (d.perform (.send sent)).worker =
              some { w with queue := w.queue.push sent } := by
            rw [perform, send, hw]
            rfl
          have hmore : (w.queue.push sent).toList = message :: (rest ++ [sent]) := by
            rw [Array.toList_push, hqueue, List.cons_append]
          right
          rw [deliver_of_cons hlater hmore, handle_withQueue, hdeliver]
          simp [perform, send]
      | finish => exact .inl d.finish_deliver

/-- One dispatcher is another one whose worker has delivered some more messages. -/
inductive Lags (d : Dispatcher α) : Dispatcher α → Prop
  | refl : Lags d d
  | deliver {e : Dispatcher α} (h : Lags d e) : Lags d e.deliver

namespace Lags

theorem perform (h : Lags d e) (call : TraceCall α) : Lags (d.perform call) (e.perform call) := by
  induction h with
  | refl => exact .refl
  | @deliver e _ ih =>
      obtain hsame | hlater := e.perform_deliver call
      · rwa [hsame]
      · exact hlater ▸ ih.deliver

/-- Deliveries in between leave a dispatcher that the calls alone bring about, with some more
messages delivered. -/
theorem undergoAll (h : Lags d e) (events : List (TraceEvent α)) :
    Lags (d.performAll (events.filterMap TraceEvent.call?)) (e.undergoAll events) := by
  induction events generalizing d e with
  | nil => exact h
  | cons event rest ih =>
      cases event with
      | call call => exact ih (h.perform call)
      | delivery => exact ih h.deliver

end Lags

end Dispatcher

end CausalBlocks
