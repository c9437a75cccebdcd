import CausalBlocks.Proofs.Diagram.Alike

/-!
# Where signals go

Links followed forward branch, but branches never meet, since a port has one driver at most. So
nothing is met twice ahead of a port where a signal arises, and the inputs found there are those
whose signal arises at that port.
-/

namespace CausalBlocks.Diagram

variable {α : Type} {d : Diagram α} {origin current p q : PortId} {seen stack : List PortId}

/-- Links lead from a port to another one. -/
def Feeds (d : Diagram α) : PortId → PortId → Prop :=
  Relation.ReflTransGen fun p q => d.incoming q = some p

/-- Ahead of an undriven port are the ports behind which links end there. -/
theorem feeds_iff_ends (hundriven : d.incoming p = none) :
    d.Feeds p q ↔ Ends d.incoming q p := by
  constructor
  · intro hfeeds
    induction hfeeds with
    | refl => exact .here hundriven
    | tail _ hlink ih => exact .back hlink ih
  · intro hends
    induction hends with
    | here _ => exact .refl
    | back hlink _ ih => exact .tail (ih hundriven) hlink

section Walk

variable {port : Port α}

/-- Links end at an input of a primitive, and where nothing is driven. -/
def EndsHere (d : Diagram α) (port : PortId) (p : Port α) : Prop :=
  (port.side = .input && !d.isComposite port.block) = true ∨ p.outgoing = []

theorem targetsFrom_end (hnew : current ∉ seen) (hport : d.port? current = some port)
    (horigin : current ≠ origin) (hend : d.EndsHere current port) :
    d.targetsFrom origin seen (current :: stack) =
      (d.targetsFrom origin (current :: seen) stack).map (current :: ·) := by
  rw [targetsFrom, dif_neg hnew]
  split
  next hmissing =>
    rw [hport] at hmissing
    cases hmissing
  next port' hport' =>
    cases hport.symm.trans hport'
    exact if_pos ⟨horigin, hend⟩

theorem targetsFrom_on (hnew : current ∉ seen) (hport : d.port? current = some port)
    (hon : ¬ (current ≠ origin ∧ d.EndsHere current port)) :
    d.targetsFrom origin seen (current :: stack) =
      d.targetsFrom origin (current :: seen) (port.outgoing ++ stack) := by
  rw [targetsFrom, dif_neg hnew]
  split
  next hmissing =>
    rw [hport] at hmissing
    cases hmissing
  next port' hport' =>
    cases hport.symm.trans hport'
    exact if_neg hon

end Walk

/-- While links are followed forward from an undriven port: every port that has been met or waits
on the stack, but the first one, is driven by one that has been met. -/
structure Searching (d : Diagram α) (origin : PortId) (seen stack : List PortId) : Prop where
  undriven : d.incoming origin = none
  live : ∀ p ∈ stack, (d.port? p).isSome
  nodup : (stack ++ seen).Nodup
  driven : ∀ p ∈ stack ++ seen, p = origin ∨ ∃ source ∈ seen, d.incoming p = some source

namespace Searching

theorem start (hlive : (d.port? origin).isSome) (hundriven : d.incoming origin = none) :
    d.Searching origin [] [origin] where
  undriven := hundriven
  live p hp := by rwa [List.mem_singleton.mp hp]
  nodup := List.nodup_singleton origin
  driven p hp := .inl (List.mem_singleton.mp hp)

theorem notMem_seen (h : d.Searching origin seen (current :: stack)) : current ∉ seen := by
  have hnodup := h.nodup
  rw [List.cons_append, List.nodup_cons, List.mem_append, not_or] at hnodup
  exact hnodup.1.2

/-- What a port drives has neither been met nor waits. -/
theorem fresh (h : d.Searching origin seen (current :: stack)) (hq : d.incoming q = some current) :
    q ∉ current :: stack ++ seen := by
  intro hmem
  rcases h.driven q hmem with rfl | ⟨source, hsource, hdriven⟩
  · rw [h.undriven] at hq
    cases hq
  · cases hq.symm.trans hdriven
    exact h.notMem_seen hsource

theorem next (h : d.Searching origin seen (current :: stack)) (hwell : d.WellFormed) :
    d.Searching origin (current :: seen) (d.outgoing current ++ stack) := by
  have hdriven : ∀ q ∈ d.outgoing current, d.incoming q = some current :=
    fun q hq => (hwell.links.mirror current q).mpr hq
  have hperm : (stack ++ current :: seen).Perm (current :: stack ++ seen) :=
    List.perm_middle
  refine ⟨h.undriven, fun q hq => ?_, ?_, fun q hq => ?_⟩
  · rcases List.mem_append.mp hq with hq | hq
    · exact (hwell.live_of_incoming (hdriven q hq)).2
    · exact h.live q (List.mem_cons_of_mem _ hq)
  · rw [List.append_assoc, List.nodup_append']
    refine ⟨hwell.links.nodup current, hperm.nodup_iff.mpr h.nodup, fun q hq hmem => ?_⟩
    exact h.fresh (hdriven q hq) (hperm.mem_iff.mp hmem)
  · rw [List.append_assoc] at hq
    rcases List.mem_append.mp hq with hq | hq
    · exact .inr ⟨current, List.mem_cons_self, hdriven q hq⟩
    · refine (h.driven q (hperm.mem_iff.mp hq)).imp_right fun ⟨source, hsource, hlink⟩ => ?_
      exact ⟨source, List.mem_cons_of_mem _ hsource, hlink⟩

end Searching

namespace WellFormed

variable (h : d.WellFormed)
include h

/-- The links of a port lead to those of the ports that it drives. -/
theorem feeds_iff : d.Feeds p q ↔ q = p ∨ ∃ next ∈ d.outgoing p, d.Feeds next q := by
  rw [Feeds, Relation.ReflTransGen.cases_head_iff]
  simp only [h.links.mirror, eq_comm]

/-- An input of a primitive drives nothing. -/
theorem outgoing_input (hprimitive : d.isComposite p.block = false) (hside : p.side = .input) :
    d.outgoing p = [] := by
  refine List.eq_nil_iff_forall_not_mem.mpr fun q hq => ?_
  obtain ⟨here, hhere, hcomposite⟩ :=
    (h.links.composite_of_incoming ((h.links.mirror p q).mpr hq)).1 hside
  obtain ⟨b, hb, rfl⟩ := place?_eq_some hhere
  rw [isComposite, hb] at hprimitive
  exact absurd (hprimitive.symm.trans hcomposite) (by simp)

theorem outgoing_of_endsHere {port : Port α} (hport : d.port? p = some port)
    (hend : d.EndsHere p port) : d.outgoing p = [] := by
  rcases hend with hinput | hnone
  · rw [Bool.and_eq_true, decide_eq_true_eq] at hinput
    exact h.outgoing_input (by simpa using hinput.2) hinput.1
  · exact (outgoing_eq hport).trans hnone

/-- Following links forward succeeds. What is found is what lies ahead and drives nothing itself. -/
theorem targetsFrom_total (hsearching : d.Searching origin seen stack) :
    ∃ targets, d.targetsFrom origin seen stack = .ok targets ∧ targets.Nodup ∧
      (∀ p ∈ targets, p ∉ seen) ∧ ∀ p, p ∈ targets ↔
        p ≠ origin ∧ d.outgoing p = [] ∧ ∃ first ∈ stack, d.Feeds first p := by
  induction seen, stack using targetsFrom.induct d origin with
  | case1 seen => exact ⟨[], by rw [targetsFrom], .nil, by simp, by simp⟩
  | case2 seen current stack hmet => exact absurd hmet hsearching.notMem_seen
  | case3 seen current stack hnew hmissing =>
      have hlive := hsearching.live current List.mem_cons_self
      rw [hmissing] at hlive
      cases hlive
  | case4 seen current stack hnew port hport ends hend ih =>
      -- the port drives nothing, so the search goes on with the rest of the stack
      have hnone : d.outgoing current = [] := h.outgoing_of_endsHere hport hend.2
      have hnext := hsearching.next h
      rw [hnone, List.nil_append] at hnext
      obtain ⟨targets, hok, hnodup, hunseen, hmem⟩ := ih hnext
      refine ⟨current :: targets, ?_, ?_, fun p hp => ?_, fun p => ?_⟩
      · rw [targetsFrom_end hnew hport hend.1 hend.2, hok]
        rfl
      · exact List.nodup_cons.mpr ⟨fun hmem => hunseen _ hmem List.mem_cons_self, hnodup⟩
      · rcases List.mem_cons.mp hp with rfl | hp
        · exact hnew
        · exact fun hseen => hunseen p hp (List.mem_cons_of_mem _ hseen)
      · have honly : d.Feeds current p ↔ p = current := by
          rw [h.feeds_iff, hnone]
          simp
        rw [List.mem_cons, hmem, List.exists_mem_cons_iff, honly]
        constructor
        · rintro (rfl | ⟨horigin, hleaf, hfirst⟩)
          · exact ⟨hend.1, hnone, .inl rfl⟩
          · exact ⟨horigin, hleaf, .inr hfirst⟩
        · rintro ⟨horigin, hleaf, rfl | hfirst⟩
          · exact .inl rfl
          · exact .inr ⟨horigin, hleaf, hfirst⟩
  | case5 seen current stack hnew port hport ends hon ih =>
      have houtgoing : d.outgoing current = port.outgoing := outgoing_eq hport
      have hnext := hsearching.next h
      rw [houtgoing] at hnext
      obtain ⟨targets, hok, hnodup, hunseen, hmem⟩ := ih hnext
      refine ⟨targets, ?_, hnodup, fun p hp hseen => ?_, fun p => ?_⟩
      · rw [targetsFrom_on hnew hport hon, hok]
      · exact hunseen p hp (List.mem_cons_of_mem _ hseen)
      · -- the port itself does not count, being the first one or driving something
        rw [hmem]
        refine and_congr_right fun horigin => and_congr_right fun hleaf => ?_
        have hother : p ≠ current := fun heq => by
          subst heq
          exact hon ⟨horigin, .inr (houtgoing.symm.trans hleaf)⟩
        simp only [List.mem_append, or_and_right, exists_or]
        rw [List.exists_mem_cons_iff, h.feeds_iff, houtgoing, or_iff_right hother]

/-- What lies ahead of a port that is there is there as well. -/
theorem live_of_feeds (hfeeds : d.Feeds p q) (hlive : (d.port? p).isSome) :
    (d.port? q).isSome := by
  cases hfeeds with
  | refl => exact hlive
  | tail _ hlink => exact (h.live_of_incoming hlink).2

/-- An input lies ahead of a port where a signal arises if the signal arrives there. -/
theorem feeds_iff_driverOf (hp : d.Source p) (hside : q.side = .input) :
    d.Feeds p q ↔ d.driverOf q = .ok p := by
  rw [feeds_iff_ends (h.undriven_of_isSource hp.2)]
  constructor
  · intro hends
    have hq : (d.port? q).isSome :=
      h.live_of_feeds ((feeds_iff_ends (h.undriven_of_isSource hp.2)).mpr hends) hp.1
    rw [driverOf, (h.prevClosure_eq_ok_iff hq).mpr hends]
    exact if_pos hp.2
  · intro hdriver
    obtain ⟨hq, hsource, _⟩ := h.source_of_driverOf hside hdriver
    exact ((h.source?_eq_some_iff hq).mp hsource).1

end WellFormed

/-- Forward and backward, links tell the same. From a port where a signal arises they lead, without
meeting anything twice, to the inputs of primitives whose signal arises there. -/
theorem Built.mem_nextClosure_iff [Scalar α] (h : d.Built) (hp : d.Source p) :
    ∃ targets, d.nextClosure p = .ok targets ∧ targets.Nodup ∧
      ∀ q, q.side = .input → d.isComposite q.block = false →
        (q ∈ targets ↔ d.driverOf q = .ok p) := by
  have hwell := h.wellFormed
  have hundriven := hwell.undriven_of_isSource hp.2
  obtain ⟨targets, hok, hnodup, _, hmem⟩ := hwell.targetsFrom_total (.start hp.1 hundriven)
  refine ⟨targets, hok, hnodup, fun q hside hprimitive => ?_⟩
  simp only [hmem, List.mem_singleton, exists_eq_left, hwell.feeds_iff_driverOf hp hside]
  refine ⟨fun hq => hq.2.2, fun hdriver => ⟨?_, hwell.outgoing_input hprimitive hside, hdriver⟩⟩
  -- a signal arises at no input of a primitive
  rintro rfl
  have hsource := hp.2
  rw [isSource, hside] at hsource
  have hroot : q.block = d.root := of_decide_eq_true hsource
  rw [hroot, ← compositeAt_eq_isComposite] at hprimitive
  exact absurd (hprimitive.symm.trans hwell.top.1) (by simp)

/-- An input that branches, into a composite that was gone around and two that were kept, one of
which passes it on. -/
theorem mem_nextClosure_branching : ∃ d : Diagram Float, d.Built ∧ d.Source (.input ⟨0⟩ 0) ∧
    ∃ targets, d.nextClosure (.input ⟨0⟩ 0) = .ok targets ∧ targets.Nodup ∧
      .input ⟨3⟩ 0 ∈ targets ∧ ∀ q, q.side = .input → d.isComposite q.block = false →
        (q ∈ targets ↔ d.driverOf q = .ok (.input ⟨0⟩ 0)) := by
  let calls : List (DiagramCall Float) := [
    .addComposite ⟨0⟩ "box" "Box" ["IN1"] ["OUT1"],
    .addComposite ⟨1⟩ "kept" "Keep" ["IN1"] ["OUT1"],
    .addBlock ⟨2⟩ "neg" .negator,
    .addComposite ⟨0⟩ "pass" "Keep" ["IN1"] ["OUT1"],
    .addBlock ⟨0⟩ "gain" (.gain 2),
    .connect ⟨2⟩ "IN1" "neg" none none,
    .connect ⟨2⟩ "neg" "OUT1" none none,
    .connect ⟨1⟩ "IN1" "kept" none none,
    .connect ⟨1⟩ "kept" "OUT1" none none,
    .connect ⟨4⟩ "IN1" "OUT1" none none,
    .connect ⟨0⟩ "X" "box" none none,
    .connect ⟨0⟩ "X" "pass" none none,
    .connect ⟨0⟩ "pass" "gain" none none,
    .connect ⟨0⟩ "pass" "Y" none none]
  let e := performAll { diagram := .empty "m" ["X"] ["Y"] } calls
  have hbuilt : e.diagram.Built := (Built.empty "m" ["X"] ["Y"]).performAll
    (e := { diagram := .empty "m" ["X"] ["Y"] }) (by simp [calls, DiagramCall.Allowed])
  have hok : ∃ e', Edit.flatten ⟨0⟩ ["Keep"] e = .ok () e' := by
    have hanswer : (Edit.flatten ⟨0⟩ ["Keep"] e).answer? = some () := by decide +kernel
    exact ⟨_, EStateM.Result.eq_ok hanswer⟩
  let d := (DiagramCall.perform (.flatten ⟨0⟩ ["Keep"]) e).state.diagram
  have hflat : d.Built := .call _ hbuilt hok
  have hsource : d.Source (.input ⟨0⟩ 0) := ⟨by decide +kernel, by decide +kernel⟩
  obtain ⟨targets, htargets, hnodup, hmem⟩ := hflat.mem_nextClosure_iff hsource
  have hneg : d.driverOf (.input ⟨3⟩ 0) = .ok (.input ⟨0⟩ 0) :=
    Except.eq_ok_of_toOption (by decide +kernel)
  exact ⟨d, hflat, hsource, targets, htargets, hnodup, (hmem _ rfl (by decide +kernel)).mpr hneg, hmem⟩

end CausalBlocks.Diagram
