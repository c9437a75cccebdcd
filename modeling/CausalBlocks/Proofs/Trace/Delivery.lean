import Mathlib.Data.List.Basic
import CausalBlocks.Proofs.Scalar.Rational
import CausalBlocks.Proofs.Trace.Interleaving

/-!
# What tracers receive

When all is finished, a tracer has received exactly what was sent from the first start of a
worker after it was added until the first end of the run, in this order. It does not matter how
the calls of the owner and the deliveries of the worker were interleaved. A tracer for which no
worker was started has received nothing.
-/

namespace CausalBlocks

variable {α : Type}

/-! ### What is sent, and what it means -/

/-- The messages that a call sends. -/
def TraceCall.sent : TraceCall α → List (TraceMessage α)
  | .add _ | .start => []
  | .send message => [message]
  | .finish => [.finished]

/-- The calls after the first one that starts a worker. A worker can be at work before them; as
long as it is, nothing starts another one. -/
def TraceCall.afterStart (running : Bool) : List (TraceCall α) → Option (List (TraceCall α))
  | [] => none
  | .start :: rest => if running then afterStart true rest else some rest
  | .finish :: rest => afterStart false rest
  | .add _ :: rest | .send _ :: rest => afterStart running rest

namespace TraceMessage

/-- The messages up to the first that ends a run, and that one. -/
def untilFinished : List (TraceMessage α) → List (TraceMessage α)
  | [] => []
  | .finished :: _ => [.finished]
  | message :: rest => message :: untilFinished rest

/-- What a message is to a tracer that wants every sample. -/
def delivery (names : List String) : TraceMessage α → Delivery α
  | .started names _ => .start names
  | .iteration number time => .iteration number time
  | .sample row => .record ⟨names, row⟩
  | .finished => .finish

end TraceMessage

variable [Scalar α]

/-- What messages mean to a tracer, one after the other, from the names that hold before them. -/
def Registration.attend (r : Registration α) (names : List String) :
    List (TraceMessage α) → List (Delivery α)
  | [] => []
  | message :: rest =>
    let handled := r.handle (message.namesAfter names) message
    handled.1 ++ handled.2.attend (message.namesAfter names) rest

namespace Registration

theorem handle_tracer (r : Registration α) (names : List String) (message : TraceMessage α) :
    (r.handle names message).2.tracer = r.tracer := by
  cases message with
  | sample row =>
      rw [handle]
      split <;> rfl
  | _ => rfl

end Registration

/-- The deliveries to one tracer. -/
def addressedTo (tracer : Nat) (deliveries : List (Nat × Delivery α)) : List (Delivery α) :=
  deliveries.filterMap fun (receiver, delivery) => if receiver = tracer then some delivery else none

omit [Scalar α] in
theorem addressedTo_append (tracer : Nat) (deliveries more : List (Nat × Delivery α)) :
    addressedTo tracer (deliveries ++ more) =
      addressedTo tracer deliveries ++ addressedTo tracer more :=
  List.filterMap_append

namespace Worker

variable {w : Worker α} {message : TraceMessage α} {tracer : Nat}

theorem handle_of_done (hdone : w.done = true) : w.handle message = ([], w) := by
  unfold handle
  rw [if_pos hdone]

/-- What a worker that is not done makes of a message. -/
theorem handle_of_busy (hdone : w.done = false) : w.handle message =
    ((w.registrations.flatMap fun r =>
        ((r.handle (message.namesAfter w.names) message).1.map (r.tracer, ·))),
      { w with
        registrations := w.registrations.map fun r =>
          (r.handle (message.namesAfter w.names) message).2
        names := message.namesAfter w.names
        done := message matches .finished }) := by
  unfold handle
  rw [if_neg (by rw [hdone]; exact Bool.false_ne_true)]
  simp only [List.flatMap_map, List.map_map]
  rfl

omit [Scalar α] in
theorem addressedTo_map (tracer receiver : Nat) (deliveries : List (Delivery α)) :
    addressedTo tracer (deliveries.map (receiver, ·)) =
      if receiver = tracer then deliveries else [] := by
  rw [addressedTo, List.filterMap_map]
  split
  next heq => simp [heq]
  next hne => simp [hne]

omit [Scalar α] in
theorem addressedTo_flatMap {tracer : Nat} {registrations : List (Registration α)}
    (f : Registration α → List (Delivery α)) :
    addressedTo tracer (registrations.flatMap fun r => (f r).map (r.tracer, ·)) =
      (registrations.filter fun r => r.tracer = tracer).flatMap f := by
  induction registrations with
  | nil => rfl
  | cons r rest ih =>
      rw [List.flatMap_cons, addressedTo_append, addressedTo_map, ih, List.filter_cons]
      by_cases htracer : r.tracer = tracer
      · simp [htracer]
      · simp [htracer]

theorem mem_registrations_handle {r : Registration α}
    (hr : r ∈ (w.handle message).2.registrations) : ∃ before ∈ w.registrations,
      before.tracer = r.tracer := by
  cases hdone : w.done with
  | true =>
      rw [handle_of_done hdone] at hr
      exact ⟨r, hr, rfl⟩
  | false =>
      rw [handle_of_busy hdone] at hr
      obtain ⟨before, hbefore, rfl⟩ := List.mem_map.mp hr
      exact ⟨before, hbefore, (before.handle_tracer _ _).symm⟩

theorem mem_handle {entry : Nat × Delivery α} (hentry : entry ∈ (w.handle message).1) :
    ∃ r ∈ w.registrations, r.tracer = entry.1 := by
  cases hdone : w.done with
  | true =>
      rw [handle_of_done hdone] at hentry
      cases hentry
  | false =>
      rw [handle_of_busy hdone] at hentry
      obtain ⟨r, hr, hentry⟩ := List.mem_flatMap.mp hentry
      obtain ⟨_, _, rfl⟩ := List.mem_map.mp hentry
      exact ⟨r, hr, rfl⟩

theorem filter_map_handle {tracer : Nat} {registrations : List (Registration α)}
    (names : List String) (message : TraceMessage α) :
    (registrations.map fun r => (r.handle names message).2).filter (fun r => r.tracer = tracer) =
      (registrations.filter fun r => r.tracer = tracer).map fun r => (r.handle names message).2 := by
  rw [List.filter_map]
  simp only [Function.comp_def, Registration.handle_tracer]

end Worker

namespace Dispatcher

variable {d : Dispatcher α} {w : Worker α} {tracer : Nat} {delivered : Array (Nat × Delivery α)}
  {messages : List (TraceMessage α)} {r : Registration α}

theorem deliverAll_of_done (hdone : w.done = true) :
    deliverAll w delivered messages = delivered := by
  induction messages with
  | nil => rfl
  | cons message rest ih =>
      rw [deliverAll, Worker.handle_of_done hdone]
      simpa using ih

/-- A worker delivers to a tracer that it serves what the messages mean to it until it is done. -/
theorem addressedTo_deliverAll (hdone : w.done = false)
    (hr : (w.registrations.filter fun r => r.tracer = tracer) = [r]) :
    addressedTo tracer (deliverAll w delivered messages).toList =
      addressedTo tracer delivered.toList ++
        r.attend w.names (TraceMessage.untilFinished messages) := by
  -- on the messages; with the last one the worker is done
  induction messages generalizing w delivered r with
  | nil => simp [deliverAll, TraceMessage.untilFinished, Registration.attend]
  | cons message rest ih =>
      have hserved : ((w.registrations.map fun r =>
          (r.handle (message.namesAfter w.names) message).2).filter fun r => r.tracer = tracer) =
            [(r.handle (message.namesAfter w.names) message).2] := by
        rw [Worker.filter_map_handle, hr, List.map_singleton]
      have hnow : addressedTo tracer ((w.registrations.flatMap fun r =>
          ((r.handle (message.namesAfter w.names) message).1.map (r.tracer, ·)))) =
            (r.handle (message.namesAfter w.names) message).1 := by
        rw [Worker.addressedTo_flatMap, hr, List.flatMap_singleton]
      rw [deliverAll, Worker.handle_of_busy hdone]
      dsimp only
      cases message with
      | finished =>
          rw [deliverAll_of_done rfl, Array.toList_appendList, addressedTo_append, hnow]
          rfl
      | _ =>
          rw [ih rfl hserved, Array.toList_appendList, addressedTo_append, hnow, List.append_assoc]
          rfl

/-- A worker delivers nothing to other tracers. -/
theorem addressedTo_deliverAll_of_notMem
    (hr : (w.registrations.filter fun r => r.tracer = tracer) = []) :
    addressedTo tracer (deliverAll w delivered messages).toList =
      addressedTo tracer delivered.toList := by
  induction messages generalizing w delivered with
  | nil => rfl
  | cons message rest ih =>
      by_cases hdone : w.done = true
      · rw [deliverAll_of_done hdone]
      · rw [Bool.not_eq_true] at hdone
        rw [deliverAll, Worker.handle_of_busy hdone]
        dsimp only
        rw [ih (by rw [Worker.filter_map_handle, hr]; rfl), Array.toList_appendList,
          addressedTo_append,
          Worker.addressedTo_flatMap, hr, List.flatMap_nil, List.append_nil]

/-! ### The way of one tracer -/

/-- No registration is of a tracer. -/
def Absent (tracer : Nat) (registrations : List (Registration α)) : Prop :=
  registrations.filter (fun r => r.tracer = tracer) = []

/-- A tracer waits for a run and has received nothing. -/
structure Waits (d : Dispatcher α) (r : Registration α) : Prop where
  pending : d.pending.filter (fun other => other.tracer = r.tracer) = [r]
  unserved : ∀ w, d.worker = some w → Absent r.tracer w.registrations
  unreached : d.receivedBy r.tracer = []
  issued : r.tracer < d.registered

/-- A tracer is served by a worker that has been sent some messages and has delivered none. -/
structure Attends (d : Dispatcher α) (r : Registration α) (messages : List (TraceMessage α)) :
    Prop where
  worker : ∃ w, d.worker = some w ∧ w.names = [] ∧ w.done = false ∧ w.queue.toList = messages ∧
    w.registrations.filter (fun other => other.tracer = r.tracer) = [r]
  gone : Absent r.tracer d.pending
  unreached : d.receivedBy r.tracer = []
  issued : r.tracer < d.registered

/-- A tracer has been served, with some deliveries, and will not be any more. -/
structure Served (d : Dispatcher α) (tracer : Nat) (deliveries : List (Delivery α)) : Prop where
  gone : Absent tracer d.pending
  unserved : ∀ w, d.worker = some w → Absent tracer w.registrations
  received : d.receivedBy tracer = deliveries
  issued : tracer < d.registered

variable {deliveries : List (Delivery α)}

omit [Scalar α] in
theorem filter_pending_add (interval : Option (α × Interpolation)) (hissued : tracer < d.registered) :
    (d.pending ++ [({ tracer := d.registered, interval } : Registration α)]).filter
      (fun other => other.tracer = tracer) = d.pending.filter fun other => other.tracer = tracer := by
  simp [List.filter_append, Nat.ne_of_gt hissued]

/-- A tracer that the worker does not serve receives nothing at the end of its run. -/
theorem receivedBy_finish (hunserved : ∀ w, d.worker = some w → Absent tracer w.registrations) :
    d.finish.receivedBy tracer = d.receivedBy tracer := by
  rw [finish]
  split
  next => rfl
  next w hw => exact addressedTo_deliverAll_of_notMem (hunserved w hw)

theorem Served.perform (h : d.Served tracer deliveries) (call : TraceCall α) :
    (d.perform call).Served tracer deliveries := by
  cases call with
  | add interval =>
      obtain hadd | hadd := perform_add (α := α) interval
      · rw [hadd]
        refine ⟨?_, h.unserved, h.received, Nat.lt_succ_of_lt h.issued⟩
        rw [Absent, filter_pending_add interval h.issued]
        exact h.gone
      · rwa [hadd]
  | start =>
      rw [Dispatcher.perform, start]
      split
      next => exact h
      next =>
        refine ⟨rfl, fun w hw => ?_, h.received, h.issued⟩
        cases hw
        exact h.gone
  | send message =>
      refine ⟨h.gone, fun w hw => ?_, h.received, h.issued⟩
      obtain ⟨busy, hbusy, rfl⟩ := Option.map_eq_some_iff.mp hw
      exact h.unserved busy hbusy
  | finish =>
      have hreceived := (receivedBy_finish h.unserved).trans h.received
      rw [Dispatcher.perform, finish]
      rw [finish] at hreceived
      split at hreceived
      next hw => exact ⟨h.gone, h.unserved, h.received, h.issued⟩
      next w hw => exact ⟨h.gone, fun _ hnone => (by cases hnone), hreceived, h.issued⟩

theorem Served.performAll (h : d.Served tracer deliveries) (calls : List (TraceCall α)) :
    (d.performAll calls).Served tracer deliveries := by
  induction calls generalizing d with
  | nil => exact h
  | cons call rest ih => exact ih (h.perform call)

/-- The end of a run makes up for all that has been sent. -/
theorem Attends.finish (h : d.Attends r messages) : d.finish.Served r.tracer
    (r.attend [] (TraceMessage.untilFinished (messages ++ [.finished]))) := by
  obtain ⟨w, hw, hnames, hdone, hqueue, hr⟩ := h.worker
  rw [Dispatcher.finish, hw]
  dsimp only
  refine ⟨h.gone, fun _ hnone => (by cases hnone), ?_, h.issued⟩
  refine (addressedTo_deliverAll hdone hr).trans ?_
  have hunreached : addressedTo r.tracer d.delivered.toList = [] := h.unreached
  rw [hunreached, hnames, hqueue, List.nil_append]

/-- Until the end of the run, calls add what they send. -/
theorem Attends.perform (h : d.Attends r messages) (call : TraceCall α) (hcall : call ≠ .finish) :
    (d.perform call).Attends r (messages ++ call.sent) := by
  obtain ⟨w, hw, hnames, hdone, hqueue, hr⟩ := h.worker
  cases call with
  | add interval =>
      rw [TraceCall.sent, List.append_nil]
      obtain hadd | hadd := perform_add (α := α) interval
      · rw [hadd]
        refine ⟨h.worker, ?_, h.unreached, Nat.lt_succ_of_lt h.issued⟩
        rw [Absent, filter_pending_add interval h.issued]
        exact h.gone
      · rwa [hadd]
  | start =>
      rw [TraceCall.sent, List.append_nil, Dispatcher.perform, start, if_pos (.inr (isRunning_eq hw))]
      exact h
  | send message =>
      refine ⟨⟨{ w with queue := w.queue.push message }, ?_, hnames, hdone, ?_, hr⟩, h.gone,
        h.unreached, h.issued⟩
      · rw [Dispatcher.perform, send, hw]
        rfl
      · rw [Array.toList_push, hqueue]
        rfl
  | finish => exact absurd rfl hcall

omit [Scalar α] in
theorem untilFinished_append (messages more : List (TraceMessage α)) :
    TraceMessage.untilFinished (messages ++ .finished :: more) =
      TraceMessage.untilFinished (messages ++ [.finished]) := by
  induction messages with
  | nil => rfl
  | cons message rest ih =>
      cases message with
      | finished => rfl
      | _ => exact congrArg (List.cons _) ih

/-- A tracer that is served receives what has been sent and what calls send until the run ends. -/
theorem Attends.receivedBy (h : d.Attends r messages) (calls : List (TraceCall α)) :
    (d.performAll (calls ++ [TraceCall.finish])).receivedBy r.tracer =
      r.attend [] (TraceMessage.untilFinished
        (messages ++ (calls ++ [TraceCall.finish]).flatMap TraceCall.sent)) := by
  induction calls generalizing d messages with
  | nil => exact h.finish.received
  | cons call rest ih =>
      by_cases hcall : call = TraceCall.finish
      · subst hcall
        have hlater := h.finish.performAll (rest ++ [TraceCall.finish])
        rw [List.cons_append, List.flatMap_cons, TraceCall.sent, List.singleton_append,
          untilFinished_append]
        exact hlater.received
      · rw [List.cons_append, List.flatMap_cons, ← List.append_assoc]
        exact ih (h.perform _ hcall)

omit [Scalar α] in
theorem Waits.start (h : d.Waits r) (hidle : d.isRunning = false) : d.start.Attends r [] := by
  have hpending : ¬(d.pending.isEmpty = true ∨ d.isRunning = true) := by
    rintro (hempty | hrunning)
    · have hnone := h.pending
      rw [List.isEmpty_iff.mp hempty] at hnone
      cases hnone
    · rw [hidle] at hrunning
      cases hrunning
  rw [Dispatcher.start, if_neg hpending]
  exact ⟨⟨_, rfl, rfl, rfl, rfl, h.pending⟩, rfl, h.unreached, h.issued⟩

/-- Calls that do not start a worker leave a tracer waiting. -/
theorem Waits.perform (h : d.Waits r) (call : TraceCall α)
    (hcall : call = .start → d.isRunning = true) : (d.perform call).Waits r := by
  cases call with
  | add interval =>
      obtain hadd | hadd := perform_add (α := α) interval
      · rw [hadd]
        refine ⟨?_, h.unserved, h.unreached, Nat.lt_succ_of_lt h.issued⟩
        rw [filter_pending_add interval h.issued]
        exact h.pending
      · rwa [hadd]
  | start =>
      rw [Dispatcher.perform, Dispatcher.start, if_pos (.inr (hcall rfl))]
      exact h
  | send message =>
      refine ⟨h.pending, fun w hw => ?_, h.unreached, h.issued⟩
      obtain ⟨busy, hbusy, rfl⟩ := Option.map_eq_some_iff.mp hw
      exact h.unserved busy hbusy
  | finish =>
      have hreceived := (receivedBy_finish h.unserved).trans h.unreached
      rw [Dispatcher.perform, finish]
      rw [finish] at hreceived
      split at hreceived
      next hw => exact h
      next w hw => exact ⟨h.pending, fun _ hnone => (by cases hnone), hreceived, h.issued⟩

theorem isRunning_add (d : Dispatcher α) (interval : Option (α × Interpolation)) :
    (d.perform (.add interval)).isRunning = d.isRunning := by
  obtain hadd | hadd := perform_add (α := α) interval
  · rw [hadd]
    rfl
  · rw [hadd]

omit [Scalar α] in
theorem isRunning_send (d : Dispatcher α) (message : TraceMessage α) :
    (d.send message).isRunning = d.isRunning := Option.isSome_map

theorem isRunning_finish (d : Dispatcher α) : d.finish.isRunning = false := by
  rw [finish]
  split
  next hw => rw [isRunning, hw]; rfl
  next => rfl

/-- A tracer that waits receives nothing if no worker starts, and else what is sent from then on
until the run ends. -/
theorem Waits.receivedBy (h : d.Waits r) (calls : List (TraceCall α)) :
    (d.performAll (calls ++ [.finish])).receivedBy r.tracer =
      match TraceCall.afterStart d.isRunning (calls ++ [.finish]) with
      | none => []
      | some rest =>
        r.attend [] (TraceMessage.untilFinished (rest.flatMap TraceCall.sent)) := by
  induction calls generalizing d with
  | nil =>
      have hcall : TraceCall.finish (α := α) = .start → d.isRunning = true := fun heq => by cases heq
      exact (h.perform _ hcall).unreached
  | cons call rest ih =>
      cases call with
      | start =>
          cases hrunning : d.isRunning with
          | true =>
              have hnext := ih (h.perform .start fun _ => hrunning)
              have hsame : d.start = d := if_pos (.inr hrunning)
              rw [Dispatcher.perform, hsame, hrunning] at hnext
              rw [List.cons_append, performAll, List.foldl_cons, Dispatcher.perform, hsame]
              exact hnext
          | false => exact (h.start hrunning).receivedBy rest
      | finish =>
          have hnext := ih (h.perform .finish fun heq => by cases heq)
          rw [Dispatcher.perform, isRunning_finish] at hnext
          exact hnext
      | add interval =>
          have hnext := ih (h.perform (.add interval) fun heq => by cases heq)
          rw [isRunning_add] at hnext
          exact hnext
      | send message =>
          have hnext := ih (h.perform (.send message) fun heq => by cases heq)
          rw [Dispatcher.perform, isRunning_send] at hnext
          exact hnext

/-! ### All tracers -/

/-- The numbers of the tracers that wait, and the number that is given next. -/
def upcoming (d : Dispatcher α) : List Nat := d.pending.map Registration.tracer ++ [d.registered]

/-- Numbers are given in ascending order. Those of the tracers that are or have been served come
before those of the tracers that wait. -/
structure Numbered (d : Dispatcher α) : Prop where
  ascending : d.upcoming.Pairwise (· < ·)
  served : ∀ w, d.worker = some w → ∀ r ∈ w.registrations, ∀ n ∈ d.upcoming, r.tracer < n
  reached : ∀ entry ∈ d.delivered.toList, ∀ n ∈ d.upcoming, entry.1 < n

omit [Scalar α] in
theorem mem_upcoming (hr : r ∈ d.pending) : r.tracer ∈ d.upcoming :=
  List.mem_append_left _ (List.mem_map_of_mem hr)

omit [Scalar α] in
theorem registered_mem_upcoming : d.registered ∈ d.upcoming :=
  List.mem_append_right _ List.mem_cons_self

omit [Scalar α] in
theorem Numbered.lt_registered (h : d.Numbered) (hr : r ∈ d.pending) : r.tracer < d.registered :=
  (List.pairwise_append.mp h.ascending).2.2 _ (List.mem_map_of_mem hr) _ List.mem_cons_self

omit [Scalar α] in
theorem Numbered.le_registered (h : d.Numbered) {n : Nat} (hn : n ∈ d.upcoming) :
    n ≤ d.registered := by
  rcases List.mem_append.mp hn with hn | hn
  · obtain ⟨r, hr, rfl⟩ := List.mem_map.mp hn
    exact (h.lt_registered hr).le
  · exact (List.mem_singleton.mp hn).le

theorem mem_deliverAll {entry : Nat × Delivery α}
    (hentry : entry ∈ (deliverAll w delivered messages).toList) :
    entry ∈ delivered.toList ∨ ∃ r ∈ w.registrations, r.tracer = entry.1 := by
  induction messages generalizing w delivered with
  | nil => exact .inl hentry
  | cons message rest ih =>
      rw [deliverAll] at hentry
      obtain hentry | ⟨r, hr, htracer⟩ := ih hentry
      · rw [Array.toList_appendList, List.mem_append] at hentry
        exact hentry.imp_right w.mem_handle
      · obtain ⟨before, hbefore, hsame⟩ := w.mem_registrations_handle hr
        exact .inr ⟨before, hbefore, hsame.trans htracer⟩

namespace Numbered

omit [Scalar α] in
theorem empty : ({} : Dispatcher α).Numbered :=
  ⟨List.pairwise_singleton _ _, fun _ hnone => (by cases hnone), fun _ hentry => (by cases hentry)⟩

/-- The number of a new tracer comes after all others. -/
theorem add (h : d.Numbered) (interval : Option (α × Interpolation)) :
    (d.perform (.add interval)).Numbered := by
  obtain hadd | hadd := perform_add (α := α) interval
  · have hupcoming :
        (d.perform (.add interval)).upcoming = d.upcoming ++ [d.registered + 1] := by
      rw [hadd, upcoming, upcoming, List.map_append]
      rfl
    have hlater {m n : Nat} (hm : ∀ n ∈ d.upcoming, m < n)
        (hn : n ∈ (d.perform (.add interval)).upcoming) : m < n := by
      rw [hupcoming] at hn
      rcases List.mem_append.mp hn with hn | hn
      · exact hm n hn
      · rw [List.mem_singleton.mp hn]
        exact (hm _ registered_mem_upcoming).trans (Nat.lt_succ_self _)
    refine ⟨?_, fun w hw r hr _ => hlater (h.served w (by rwa [hadd] at hw) r hr),
      fun entry hentry _ => hlater (h.reached entry (by rwa [hadd] at hentry))⟩
    rw [hupcoming, List.pairwise_append]
    refine ⟨h.ascending, List.pairwise_singleton _ _, fun n hn m hm => ?_⟩
    rw [List.mem_singleton.mp hm]
    exact Nat.lt_succ_of_le (h.le_registered hn)
  · rwa [hadd]

theorem perform (h : d.Numbered) (call : TraceCall α) : (d.perform call).Numbered := by
  cases call with
  | add interval => exact h.add interval
  | start =>
      rw [Dispatcher.perform, start]
      split
      next => exact h
      next =>
        refine ⟨List.pairwise_singleton _ _, fun w hw r hr n hn => ?_, fun entry hentry n hn => ?_⟩
        · cases hw
          rw [List.mem_singleton.mp hn]
          exact h.lt_registered hr
        · rw [List.mem_singleton.mp hn]
          exact h.reached entry hentry _ registered_mem_upcoming
  | send message =>
      refine ⟨h.ascending, fun w hw => ?_, h.reached⟩
      obtain ⟨busy, hbusy, rfl⟩ := Option.map_eq_some_iff.mp hw
      exact h.served busy hbusy
  | finish =>
      rw [Dispatcher.perform, finish]
      split
      next => exact h
      next w hw =>
        refine ⟨h.ascending, fun _ hnone => (by cases hnone), fun entry hentry => ?_⟩
        obtain hmem | ⟨r, hr, htracer⟩ := mem_deliverAll hentry
        · exact h.reached entry hmem
        · exact htracer ▸ h.served w hw r hr

theorem deliver (h : d.Numbered) : d.deliver.Numbered := by
  cases hw : d.worker with
  | none => rwa [deliver_of_none hw]
  | some w =>
    cases hqueue : w.queue.toList with
    | nil => rwa [deliver_of_nil hw hqueue]
    | cons message rest =>
      rw [deliver_of_cons hw hqueue]
      refine ⟨h.ascending, fun later hlater r hr => ?_, fun entry hentry => ?_⟩
      · cases hlater
        obtain ⟨before, hbefore, htracer⟩ := w.mem_registrations_handle hr
        exact htracer ▸ h.served w hw before hbefore
      · rw [Array.toList_appendList, List.mem_append] at hentry
        obtain hentry | hentry := hentry
        · exact h.reached entry hentry
        · obtain ⟨before, hbefore, htracer⟩ := w.mem_handle hentry
          exact htracer ▸ h.served w hw before hbefore

theorem undergoAll (h : d.Numbered) (events : List (TraceEvent α)) :
    (d.undergoAll events).Numbered := by
  induction events generalizing d with
  | nil => exact h
  | cons event rest ih =>
      cases event with
      | call call => exact ih (h.perform call)
      | delivery => exact ih h.deliver

omit [Scalar α] in
theorem filter_pending (h : d.Numbered) (hr : r ∈ d.pending) :
    d.pending.filter (fun other => other.tracer = r.tracer) = [r] := by
  obtain ⟨before, after, hpending⟩ := List.append_of_mem hr
  have hascending := (List.pairwise_append.mp h.ascending).1
  rw [hpending, List.map_append, List.map_cons, List.pairwise_append,
    List.pairwise_cons] at hascending
  obtain ⟨_, ⟨hafter, _⟩, hbefore⟩ := hascending
  have hnone (side : List (Registration α)) (hne : ∀ other ∈ side, other.tracer ≠ r.tracer) :
      side.filter (fun other => other.tracer = r.tracer) = [] :=
    List.filter_eq_nil_iff.mpr fun other hother => by simpa using hne other hother
  rw [hpending, List.filter_append, List.filter_cons, if_pos (decide_eq_true rfl),
    hnone before fun other hother =>
      (hbefore _ (List.mem_map_of_mem hother) _ List.mem_cons_self).ne,
    hnone after fun other hother => (hafter _ (List.mem_map_of_mem hother)).ne',
    List.nil_append]

omit [Scalar α] in
/-- A tracer in the list of those that wait has received nothing. -/
theorem waits (h : d.Numbered) (hr : r ∈ d.pending) : d.Waits r := by
  refine ⟨h.filter_pending hr, fun w hw => ?_, ?_, h.lt_registered hr⟩
  · refine List.filter_eq_nil_iff.mpr fun other hother => ?_
    rw [decide_eq_true_eq]
    exact (h.served w hw other hother _ (mem_upcoming hr)).ne
  · refine List.filterMap_eq_nil_iff.mpr fun entry hentry => ?_
    exact if_neg (h.reached entry hentry _ (mem_upcoming hr)).ne

end Numbered

end Dispatcher

end CausalBlocks
