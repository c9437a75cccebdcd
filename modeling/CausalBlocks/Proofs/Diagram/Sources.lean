import Mathlib.Logic.Relation
import CausalBlocks.Proofs.Diagram.Consistency
import CausalBlocks.Proofs.Diagram.Samples

/-!
# Where signals come from

Links followed backward from a port end at a port that nothing drives, unless they go
in circles. Going around a forwarding port takes it out of the chains that run through
it and leaves their ends alone.
-/

namespace CausalBlocks

/-- Links followed backward from a port end at another one. -/
inductive Ends (incoming : PortId → Option PortId) : PortId → PortId → Prop
  | here {p : PortId} (h : incoming p = none) : Ends incoming p p
  | back {p source last : PortId} (h : incoming p = some source)
      (rest : Ends incoming source last) : Ends incoming p last

/-- No links go in circles. -/
def Grounded (incoming : PortId → Option PortId) : Prop := ∀ p, ∃ last, Ends incoming p last

/-- The links after a port has been gone around: what it drove, its own driver drives. -/
def detoured (incoming : PortId → Option PortId) (port q : PortId) : Option PortId :=
  if q = port then none else if incoming q = some port then incoming port else incoming q

section Chain

variable {incoming : PortId → Option PortId} {p q port source last last' : PortId}

theorem Ends.undriven (h : Ends incoming p last) : incoming last = none := by
  induction h with
  | here h => exact h
  | back _ _ ih => exact ih

theorem Ends.unique (h : Ends incoming p last) (h' : Ends incoming p last') : last = last' := by
  induction h with
  | here h =>
      cases h' with
      | here _ => rfl
      | back hback _ => cases h.symm.trans hback
  | back h _ ih =>
      cases h' with
      | here hnone => cases h.symm.trans hnone
      | back hback hrest =>
          cases h.symm.trans hback
          exact ih hrest

/-- The end of a chain drives the last port before it. -/
theorem Ends.drives (h : Ends incoming p last) (hne : last ≠ p) :
    ∃ q, incoming q = some last := by
  induction h with
  | here _ => exact absurd rfl hne
  | @back p source last h _ ih =>
      by_cases hsource : last = source
      · exact ⟨p, hsource ▸ h⟩
      · exact ih hsource

/-- A chain with an end meets no port twice. -/
theorem Ends.acyclic (h : Ends incoming p last) :
    ¬Relation.TransGen (fun q source => incoming q = some source) p p := by
  induction h with
  | here h =>
      intro hcycle
      obtain ⟨source, hsource, _⟩ := Relation.TransGen.head'_iff.mp hcycle
      cases h.symm.trans hsource
  | @back p source last h _ ih =>
      intro hcycle
      obtain ⟨source', hsource, hrest⟩ := Relation.TransGen.head'_iff.mp hcycle
      cases h.symm.trans hsource
      exact ih (Relation.TransGen.tail' hrest h)

theorem Grounded.ne_self (h : Grounded incoming) (port : PortId) : incoming port ≠ some port := by
  intro hself
  obtain ⟨last, hlast⟩ := h port
  exact hlast.acyclic (.single hself)

/-! ### Going around a port -/

/-- Nothing comes to drive an undriven port. -/
theorem detoured_eq_none (h : incoming q = none) : detoured incoming port q = none := by
  simp [detoured, h]

theorem foldl_detoured_eq_none {ports : List PortId} (h : incoming q = none) :
    ports.foldl detoured incoming q = none := by
  induction ports generalizing incoming with
  | nil => exact h
  | cons port rest ih => exact ih (detoured_eq_none h)

/-- A chain that ends elsewhere has the same end afterwards. -/
theorem Ends.detour (hself : incoming port ≠ some port) (h : Ends incoming q last)
    (hlast : last ≠ port) (hne : q ≠ port) : Ends (detoured incoming port) q last := by
  -- a chain that has come to the port goes on at its driver
  have hboth : (q ≠ port → Ends (detoured incoming port) q last) ∧
      ∀ source, q = port → incoming q = some source →
        Ends (detoured incoming port) source last := by
    clear hne
    induction h with
    | here hnone =>
        exact ⟨fun _ => .here (detoured_eq_none hnone), fun _ heq => absurd heq hlast⟩
    | @back q source last hsource hrest ih =>
        obtain ⟨hon, hpast⟩ := ih hlast
        refine ⟨fun hne => ?_, fun source' heq hsource' => ?_⟩
        · by_cases hport : source = port
          · obtain ⟨next, hnext⟩ : ∃ next, incoming source = some next := by
              cases hrest with
              | here _ => exact absurd hport hlast
              | back hnext _ => exact ⟨_, hnext⟩
            refine .back ?_ (hpast next hport hnext)
            rw [detoured, if_neg hne, if_pos (hport ▸ hsource), ← hport, hnext]
          · refine .back ?_ (hon hport)
            rw [detoured, if_neg hne, if_neg, hsource]
            rwa [hsource, Option.some.injEq]
        · cases hsource.symm.trans hsource'
          refine hon fun hport => hself ?_
          rw [← hport, ← hsource, heq, hport]
  exact hboth.1 hne

/-- A chain that ends at the port now ends at the last one before it. -/
theorem Ends.detour_before (h : Ends incoming q port) (hne : q ≠ port) :
    ∃ before, incoming before = some port ∧ Ends (detoured incoming port) q before := by
  have hnone := h.undriven
  generalize hlast : port = last at h hnone
  induction h with
  | here _ => exact absurd hlast.symm hne
  | @back q source last hsource hrest ih =>
      subst hlast
      by_cases hport : source = port
      · subst hport
        refine ⟨q, hsource, .here ?_⟩
        rw [detoured, if_neg hne, if_pos hsource, hnone]
      · obtain ⟨before, hbefore, hends⟩ := ih hport rfl hnone
        refine ⟨before, hbefore, .back ?_ hends⟩
        rw [detoured, if_neg hne, if_neg, hsource]
        rwa [hsource, Option.some.injEq]

theorem Grounded.detour (h : Grounded incoming) (port : PortId) :
    Grounded (detoured incoming port) := by
  intro q
  by_cases hne : q = port
  · exact ⟨q, .here (by rw [detoured, if_pos hne])⟩
  · obtain ⟨last, hlast⟩ := h q
    by_cases hport : last = port
    · subst hport
      obtain ⟨before, _, hends⟩ := hlast.detour_before hne
      exact ⟨before, hends⟩
    · exact ⟨last, hlast.detour (h.ne_self port) hport hne⟩

/-- Going around a port leaves the ends of chains alone where they are undriven anyway. -/
theorem ends_detour_iff (h : Grounded incoming) (hne : q ≠ port) (hlast : last ≠ port)
    (hundriven : incoming last = none) :
    Ends (detoured incoming port) q last ↔ Ends incoming q last := by
  refine ⟨fun hends => ?_, fun hends => hends.detour (h.ne_self port) hlast hne⟩
  obtain ⟨other, hother⟩ := h q
  by_cases hport : other = port
  · -- then the new end would be driven by the port
    subst hport
    obtain ⟨before, hbefore, hends'⟩ := hother.detour_before hne
    rw [← hends.unique hends', hundriven] at hbefore
    cases hbefore
  · rwa [hends.unique (hother.detour (h.ne_self port) hport hne)]

/-- Going around several ports, one after the other. -/
theorem ends_detourAll_iff {ports : List PortId} (h : Grounded incoming) (hq : q ∉ ports)
    (hlast : last ∉ ports) (hundriven : incoming last = none) :
    Ends (ports.foldl detoured incoming) q last ↔ Ends incoming q last := by
  induction ports generalizing incoming with
  | nil => rfl
  | cons port rest ih =>
      rw [List.mem_cons, not_or] at hq hlast
      rw [List.foldl_cons, ih (h.detour port) hq.2 hlast.2 (detoured_eq_none hundriven)]
      exact ends_detour_iff h hq.1 hlast.1 hundriven

theorem Grounded.detourAll (h : Grounded incoming) (ports : List PortId) :
    Grounded (ports.foldl detoured incoming) := by
  induction ports generalizing incoming with
  | nil => exact h
  | cons port rest ih => exact ih (h.detour port)

end Chain

/-! ### Links of a diagram -/

namespace Diagram

variable {α : Type} {d d' : Diagram α} {p q source last origin : PortId} {seen : List PortId}

/-- A signal arises at a port: at an output of a primitive, or at an input of the model. -/
def Source (d : Diagram α) (p : PortId) : Prop := (d.port? p).isSome ∧ d.isSource p = true

theorem isSome_block?_of_port? (h : (d.port? p).isSome) : (d.block? p.block).isSome := by
  obtain ⟨port, hport⟩ := Option.isSome_iff_exists.mp h
  obtain ⟨b, hb, _⟩ := block?_of_port? hport
  rw [hb]
  rfl

theorem incoming_of_port?_eq_none (h : d.port? p = none) : d.incoming p = none := by
  rw [incoming, h, Option.bind_none]

namespace WellFormed

variable (h : d.WellFormed)
include h

/-- Both ends of a link are there. -/
theorem live_of_incoming (hpq : d.incoming q = some p) :
    (d.port? p).isSome ∧ (d.port? q).isSome := by
  obtain ⟨target, htarget, _⟩ := port?_of_incoming hpq
  obtain ⟨source, hsource, _⟩ := port?_of_mem_outgoing ((h.links.mirror p q).mp hpq)
  rw [htarget, hsource]
  exact ⟨rfl, rfl⟩

/-- Nothing drives an output of a primitive. -/
theorem incoming_output (hprimitive : d.isComposite p.block = false) (hside : p.side = .output) :
    d.incoming p = none := by
  refine Option.eq_none_iff_forall_ne_some.mpr fun source hsource => ?_
  obtain ⟨here, hhere, hcomposite⟩ := (h.links.composite_of_incoming hsource).2 hside
  obtain ⟨b, hb, rfl⟩ := place?_eq_some hhere
  rw [isComposite, hb] at hprimitive
  exact absurd (hprimitive.symm.trans hcomposite) (by simp)

/-- Nothing drives an input of the model. -/
theorem incoming_input (hroot : p.block = ⟨0⟩) (hside : p.side = .input) :
    d.incoming p = none := by
  refine Option.eq_none_iff_forall_ne_some.mpr fun source hsource => ?_
  obtain ⟨_, l, _, hl, _⟩ := h.links.level source p hsource
  rw [levelAt_eq, if_neg (by rw [hside]; simp), hroot, h.top.2] at hl
  cases hl

/-- Where signals arise, nothing drives a port. -/
theorem undriven_of_isSource (hsource : d.isSource p = true) : d.incoming p = none := by
  rw [isSource] at hsource
  cases hside : p.side with
  | output =>
      rw [hside] at hsource
      exact h.incoming_output (by simpa using hsource) hside
  | input =>
      rw [hside] at hsource
      exact h.incoming_input (of_decide_eq_true hsource) hside

omit h in
theorem endsAt_eq (hlive : (d.port? p).isSome) :
    d.endsAt p = .ok (p.side = .output && !d.isComposite p.block) := by
  obtain ⟨b, hb⟩ := Option.isSome_iff_exists.mp (isSome_block?_of_port? hlive)
  rw [endsAt, isComposite, block_eq hb, hb]
  cases p.side <;> rfl

theorem ends_of_driverFrom (hlive : (d.port? p).isSome)
    (hok : d.driverFrom origin seen p = .ok last) : Ends d.incoming p last := by
  induction seen, p using driverFrom.induct d with
  | case1 seen p hseen =>
      rw [driverFrom_met hseen] at hok
      cases hok
  | case2 seen p hseen failure hfailing =>
      rw [driverFrom_failing hseen hfailing] at hok
      cases hok
  | case3 seen p hseen hend =>
      rw [driverFrom_end hseen hend] at hok
      cases hok
      rw [endsAt_eq hlive, Except.ok.injEq, Bool.and_eq_true, decide_eq_true_eq] at hend
      exact .here (h.incoming_output (by simpa using hend.2) hend.1)
  | case4 seen p hseen hon hmissing =>
      rw [hmissing] at hlive
      cases hlive
  | case5 seen p hseen hon port hport hundriven =>
      rw [driverFrom_port hseen hon hport, hundriven] at hok
      cases hok
      exact .here ((incoming_eq hport).trans hundriven)
  | case6 seen p hseen hon port hport source hdriven ih =>
      rw [driverFrom_port hseen hon hport, hdriven] at hok
      have hsource : d.incoming p = some source := (incoming_eq hport).trans hdriven
      exact .back hsource (ih (h.live_of_incoming hsource).1 hok)

theorem driverFrom_of_ends (hends : Ends d.incoming p last) (hlive : (d.port? p).isSome)
    (hseen : ∀ q ∈ seen, Relation.TransGen (fun q source => d.incoming q = some source) q p) :
    d.driverFrom origin seen p = .ok last := by
  -- what has been met leads here, so to meet this port again would be a circle
  have hnew : p ∉ seen := fun hmem => hends.acyclic (hseen p hmem)
  obtain ⟨port, hport⟩ := Option.isSome_iff_exists.mp hlive
  have hendsAt := endsAt_eq hlive
  induction hends generalizing seen port with
  | @here p hnone =>
      cases hend : (p.side = .output && !d.isComposite p.block : Bool) with
      | true =>
          rw [hend] at hendsAt
          exact driverFrom_end hnew hendsAt
      | false =>
          rw [hend] at hendsAt
          rw [driverFrom_port hnew hendsAt hport, ← incoming_eq hport, hnone]
  | @back p source last hsource hrest ih =>
      have hon : d.endsAt p = .ok false := by
        rw [hendsAt, Except.ok.injEq]
        refine Bool.eq_false_iff.mpr fun hend => ?_
        rw [Bool.and_eq_true, decide_eq_true_eq] at hend
        rw [h.incoming_output (by simpa using hend.2) hend.1] at hsource
        cases hsource
      have hlive' := (h.live_of_incoming hsource).1
      obtain ⟨port', hport'⟩ := Option.isSome_iff_exists.mp hlive'
      have hseen' : ∀ q ∈ p :: seen,
          Relation.TransGen (fun q source => d.incoming q = some source) q source := by
        refine List.forall_mem_cons.mpr ⟨.single hsource, fun q hq => ?_⟩
        exact (hseen q hq).tail hsource
      rw [driverFrom_port hnew hon hport, ← incoming_eq hport, hsource]
      exact ih hlive' hseen' (fun hmem => hrest.acyclic (hseen' _ hmem)) port' hport'
        (endsAt_eq hlive')

/-- Following links backward finds the end of the chain. -/
theorem prevClosure_eq_ok_iff (hlive : (d.port? p).isSome) :
    d.prevClosure p = .ok last ↔ Ends d.incoming p last :=
  ⟨h.ends_of_driverFrom hlive, fun hends =>
    h.driverFrom_of_ends hends hlive fun _ hmem => absurd hmem List.not_mem_nil⟩

/-- Without circles every chain of links has an end. -/
theorem grounded (hclosed : ∀ p, (d.port? p).isSome → ∃ last, d.prevClosure p = .ok last) :
    Grounded d.incoming := by
  intro p
  by_cases hlive : (d.port? p).isSome
  · obtain ⟨last, hlast⟩ := hclosed p hlive
    exact ⟨last, (h.prevClosure_eq_ok_iff hlive).mp hlast⟩
  · exact ⟨p, .here (incoming_of_port?_eq_none (Option.not_isSome_iff_eq_none.mp hlive))⟩

end WellFormed

/-- The end of a chain of existing ports exists. -/
theorem WellFormed.live_of_ends (h : d.WellFormed) (hends : Ends d.incoming p last)
    (hlive : (d.port? p).isSome) : (d.port? last).isSome := by
  induction hends with
  | here => exact hlive
  | back hsource _ ih => exact ih (h.live_of_incoming hsource).1

/-- What drives a port in the end, if a signal arises there. -/
def source? (d : Diagram α) (p : PortId) : Option PortId :=
  match d.prevClosure p with
  | .ok last => if d.isSource last then some last else none
  | .error _ => none

theorem WellFormed.source?_eq_some_iff (h : d.WellFormed) (hlive : (d.port? p).isSome) :
    d.source? p = some last ↔ Ends d.incoming p last ∧ d.Source last := by
  have hclosure : ∀ q, d.prevClosure p = .ok q ↔ Ends d.incoming p q :=
    fun _ => h.prevClosure_eq_ok_iff hlive
  rw [source?]
  constructor
  · intro hsource
    split at hsource
    next q hq =>
      have hends := (hclosure q).mp hq
      split at hsource
      next hq' =>
        cases hsource
        exact ⟨hends, h.live_of_ends hends hlive, hq'⟩
      next => cases hsource
    next => cases hsource
  · rintro ⟨hends, hsource⟩
    rw [(hclosure last).mpr hends]
    exact if_pos hsource.2

/-- What is said of an input's driver follows from its source, its path and its name. -/
theorem driverOf_eq (hclosed : ∃ last, d.prevClosure p = .ok last) {port : Port α}
    (hport : d.port? p = some port) : d.driverOf p = match d.source? p with
      | some source => .ok source
      | none => .error (.unconnectedInput (d.pathOf p.block) port.name) := by
  obtain ⟨last, hlast⟩ := hclosed
  rw [driverOf, source?, hlast, port_eq hport]
  cases hsource : d.isSource last <;> simp [bind, Except.bind, hsource] <;> rfl

/-- What a port carries are the samples at the end of the links behind it. -/
theorem historyOf_eq_ok {history : History α} : d.historyOf p = .ok history ↔
    ∃ source, d.prevClosure p = .ok source ∧ d.history? source = some history := by
  simp only [historyOf, Except.bind_eq_ok, port_eq_ok, history?, Option.map_eq_some_iff]
  constructor
  · rintro ⟨source, hsource, port, hport, hhistory⟩
    cases hhistory
    exact ⟨source, hsource, port, hport, rfl⟩
  · rintro ⟨source, hsource, port, hport, rfl⟩
    exact ⟨source, hsource, port, hport, rfl⟩

end Diagram

end CausalBlocks
