import CausalBlocks.Proofs.Dependency.Validity
import CausalBlocks.Proofs.Diagram.Retiming

/-!
# What the check of a model covers

A model passes if it has one clock, if every input of a primitive has a driver, but for a clock
that is not linked, and if the links behind these inputs and behind the outputs of the model come
to an end. Nothing is asked of forwarding ports behind which no one reads: composites that drive
each other in a circle, off to the side, pass.
-/

namespace CausalBlocks

variable {α : Type}

/-- A chain with an end has the same end from wherever it is entered. -/
theorem Ends.of_behind {incoming : PortId → Option PortId} {p q last : PortId}
    (hpath : Relation.ReflTransGen (fun q source => incoming q = some source) q p)
    (h : Ends incoming q last) : Ends incoming p last := by
  induction hpath with
  | refl => exact h
  | tail _ hlink ih =>
      cases ih with
      | here hnone => cases hnone.symm.trans hlink
      | back hsource hrest =>
          cases hsource.symm.trans hlink
          exact hrest

namespace Diagram

variable {d : Diagram α} {id : BlockId} {b : Block α} {p q : PortId}

/-- A block that is there and a clock. -/
def IsClock (d : Diagram α) (id : BlockId) : Prop :=
  ∃ b, d.block? id = some b ∧ b.operator.isClock = true

/-- An input of a primitive. -/
def Consumes (d : Diagram α) (q : PortId) : Prop :=
  (d.port? q).isSome ∧ q.side = .input ∧ d.isComposite q.block = false

/-- An output of the model itself. -/
def Exports (d : Diagram α) (q : PortId) : Prop :=
  (d.port? q).isSome ∧ q.side = .output ∧ q.block = d.root

/-- Links followed backward from one port come to another. -/
def Behind (d : Diagram α) (q p : PortId) : Prop :=
  Relation.ReflTransGen (fun q source => d.incoming q = some source) q p

/-- What is behind a port that exists, exists. -/
theorem WellFormed.live_of_behind (h : d.WellFormed) (hbehind : d.Behind q p)
    (hlive : (d.port? q).isSome) : (d.port? p).isSome := by
  induction hbehind with
  | refl => exact hlive
  | tail _ hlink _ => exact (h.live_of_incoming hlink).1

/-! ### The clock -/

theorem not_isComposite_of_isClock (h : d.IsClock id) : d.isComposite id = false := by
  obtain ⟨b, hb, hop⟩ := h
  rw [isComposite, hb]
  dsimp only
  rw [Block.isComposite]
  cases hoperator : b.operator with
  | composite =>
      rw [hoperator] at hop
      cases hop
  | _ => rfl

theorem WellFormed.mem_filter_isClock (h : d.WellFormed) {isClock : BlockId → Bool}
    (hclock : ∀ id b, d.block? id = some b → isClock id = b.operator.isClock) :
    id ∈ d.primitives.filter isClock ↔ d.IsClock id := by
  rw [List.mem_filter, h.mem_primitives_iff]
  constructor
  · rintro ⟨⟨hlive, _⟩, hid⟩
    obtain ⟨b, hb⟩ := Option.isSome_iff_exists.mp hlive
    exact ⟨b, hb, (hclock id b hb).symm.trans hid⟩
  · rintro hid
    have hprimitive := not_isComposite_of_isClock hid
    obtain ⟨b, hb, hop⟩ := hid
    exact ⟨⟨by rw [hb]; rfl, hprimitive⟩, (hclock id b hb).trans hop⟩

/-- The clock of a model is found if there is one and no other. -/
theorem WellFormed.exists_clock_iff (h : d.WellFormed) :
    (∃ id, d.clock = .ok id) ↔ ∃! id, d.IsClock id := by
  rw [clock]
  constructor
  · rintro ⟨id, hid⟩
    split at hid
    next => cases hid
    next only honly =>
      have hmem : ∀ x, x ∈ [only] ↔ d.IsClock x := fun x => by
        rw [← honly]
        exact h.mem_filter_isClock fun x b hb => by simp only [hb]
      exact ⟨only, (hmem only).mp (List.mem_singleton_self only),
        fun other hother => List.mem_singleton.mp ((hmem other).mpr hother)⟩
    next => cases hid
  · rintro ⟨id, hid, honly⟩
    split
    next hnone =>
      have hmem : id ∈ ([] : List BlockId) := by
        rw [← hnone]
        exact (h.mem_filter_isClock fun x b hb => by simp only [hb]).mpr hid
      cases hmem
    next only _ => exact ⟨only, rfl⟩
    next hnotNil hnotSingle =>
      -- the clocks are listed once each, so one clock is a list of one
      refine absurd ?_ (hnotSingle id)
      refine List.perm_singleton.mp ((List.perm_ext_iff_of_nodup (h.nodup_primitives.filter _)
        (List.nodup_singleton id)).mpr fun x => ?_)
      rw [List.mem_singleton]
      exact (h.mem_filter_isClock fun x b hb => by simp only [hb]).trans
        ⟨honly x, fun hx => hx ▸ hid⟩

/-! ### Inputs and outputs -/

/-- A clock may stay open if nothing is linked to its only input. -/
theorem allowsOpenInputs_iff (hported : d.Ported) (hb : d.block? q.block = some b)
    (hside : q.side = .input) (hlive : (d.port? q).isSome) :
    allowsOpenInputs b = true ↔ d.IsClock q.block ∧ d.incoming q = none := by
  obtain ⟨port, hport⟩ := Option.isSome_iff_exists.mp hlive
  have hindex : b.inputs[q.index]? = some port := by
    rw [port?_eq hb, hside] at hport
    exact hport
  have hclock : d.IsClock q.block ↔ b.operator.isClock = true := by
    rw [IsClock, hb]
    simp
  rw [allowsOpenInputs, Bool.and_eq_true, List.all_eq_true, hclock, incoming_eq hport,
    ← Option.isNone_iff_eq_none]
  refine and_congr_right fun hop => ⟨fun h => h port (List.mem_of_getElem? hindex), fun hopen => ?_⟩
  -- the ports of a clock are those of its operator, so this is its only input
  have hprimitive := not_isComposite_of_isClock (hclock.mpr hop)
  rw [isComposite, hb] at hprimitive
  have hlength := congrArg List.length (hported q.block b hb hprimitive)
  cases hoperator : b.operator with
  | clock =>
      rw [hoperator, List.length_map] at hlength
      obtain ⟨only, honly⟩ := List.length_eq_one_iff.mp hlength
      rw [honly] at hindex ⊢
      rw [List.getElem?_singleton] at hindex
      split at hindex
      next =>
        cases hindex
        simpa using hopen
      next => cases hindex
  | _ =>
      rw [hoperator] at hop
      cases hop

/-- A model passes if its clock is found, its inputs have drivers and its outputs come to an
end. -/
theorem WellFormed.validate_eq_ok (h : d.WellFormed) (hported : d.Ported)
    (hclock : ∃ id, d.clock = .ok id)
    (hinputs : ∀ q, d.Consumes q → ¬(d.IsClock q.block ∧ d.incoming q = none) →
      ∃ driver, d.driverOf q = .ok driver)
    (houtputs : ∀ q, d.Exports q → ∃ last, d.prevClosure q = .ok last) : d.validate = .ok () := by
  obtain ⟨clock, hclock⟩ := hclock
  rw [validate]
  refine Except.bind_eq_ok.mpr ⟨clock, hclock, Except.bind_eq_ok.mpr ⟨(), ?_, ?_⟩⟩
  · refine Except.forM_total fun id hid => ?_
    obtain ⟨hlive, hprimitive⟩ := h.mem_primitives_iff.mp hid
    obtain ⟨b, hb⟩ := Option.isSome_iff_exists.mp hlive
    refine Except.bind_eq_ok.mpr ⟨b, block_eq hb, ?_⟩
    split
    next => rfl
    next hlinked =>
      refine Except.forM_total fun index hindex => Except.discard_eq_ok.mpr ?_
      have hlive : (d.port? (.input id index)).isSome := by
        rw [port?_eq (q := .input id index) hb]
        exact Option.isSome_iff_exists.mpr ⟨_, List.getElem?_eq_getElem (List.mem_range.mp hindex)⟩
      refine hinputs _ ⟨hlive, rfl, hprimitive⟩ fun hopen => hlinked ?_
      exact (allowsOpenInputs_iff (q := .input id index) hported hb rfl hlive).mpr hopen
  · refine Except.forM_total fun q hq => Except.discard_eq_ok.mpr ?_
    obtain ⟨hroot, hside, hlive⟩ := mem_portIds_iff.mp hq
    exact houtputs q ⟨hlive, hside, hroot⟩

/-- A model passes exactly if it has one clock, if every input of a primitive has a driver, but for
a clock that is not linked, and if links go in circles nowhere behind an input of a primitive or an
output of the model. -/
theorem Built.validate_iff [Scalar α] (h : d.Built) : d.validate = .ok () ↔
    (∃! id, d.IsClock id) ∧
    (∀ q, d.Consumes q → ¬(d.IsClock q.block ∧ d.incoming q = none) →
      ∃ driver, d.driverOf q = .ok driver) ∧
    ∀ q p, d.Consumes q ∨ d.Exports q → d.Behind q p → ∃ last, d.prevClosure p = .ok last := by
  have hd := h.wellFormed
  constructor
  · intro hvalid
    have hclock : ∃ id, d.clock = .ok id := by
      obtain ⟨id, hid, _⟩ := Except.bind_eq_ok.mp hvalid
      exact ⟨id, hid⟩
    have hinputs : ∀ q, d.Consumes q → ¬(d.IsClock q.block ∧ d.incoming q = none) →
        ∃ driver, d.driverOf q = .ok driver := by
      rintro ⟨id, side, index⟩ ⟨hlive, rfl, hprimitive⟩ hopen
      obtain ⟨b, hb⟩ := Option.isSome_iff_exists.mp (isSome_block?_of_port? hlive)
      rw [← allowsOpenInputs_iff h.ported hb rfl hlive, Bool.not_eq_true] at hopen
      have hid := hd.mem_primitives_iff.mpr ⟨by rw [hb]; rfl, hprimitive⟩
      obtain ⟨port, hport⟩ := Option.isSome_iff_exists.mp hlive
      rw [port?_eq hb] at hport
      exact driverOf_of_validate hvalid hid hb hopen (List.getElem?_eq_some_iff.mp hport).1
    refine ⟨hd.exists_clock_iff.mp hclock, hinputs, fun q p hread hbehind => ?_⟩
    -- the chain that is looked at has an end, so it has one from any of its ports
    have hends : (d.port? q).isSome ∧ ∃ last, Ends d.incoming q last := by
      rcases hread with hconsumes | ⟨hlive, hside, hroot⟩
      · refine ⟨hconsumes.1, ?_⟩
        cases hsource : d.incoming q with
        | none => exact ⟨q, .here hsource⟩
        | some source =>
            obtain ⟨driver, hdriver⟩ := hinputs q hconsumes fun hopen => by
              cases hsource.symm.trans hopen.2
            obtain ⟨last, hlast, _⟩ := Except.bind_eq_ok.mp hdriver
            exact ⟨last, (hd.prevClosure_eq_ok_iff hconsumes.1).mp hlast⟩
      · obtain ⟨last, hlast⟩ :=
          prevClosure_of_validate hvalid (mem_portIds_iff.mpr ⟨hroot, hside, hlive⟩)
        exact ⟨hlive, last, (hd.prevClosure_eq_ok_iff hlive).mp hlast⟩
    obtain ⟨hlive, last, hends⟩ := hends
    exact ⟨last, (hd.prevClosure_eq_ok_iff (hd.live_of_behind hbehind hlive)).mpr
      (hends.of_behind hbehind)⟩
  · rintro ⟨hclock, hinputs, hcircles⟩
    exact hd.validate_eq_ok h.ported (hd.exists_clock_iff.mpr hclock) hinputs fun q hq =>
      hcircles q q (.inr hq) .refl

/-- A composite that forwards to itself, and to an output of the model, does not pass. -/
theorem validate_circle_read : ∃ d : Diagram ℚ, d.Built ∧ d.Exports (.output ⟨0⟩ 0) ∧
    d.Behind (.output ⟨0⟩ 0) (.input ⟨2⟩ 0) ∧ d.validate ≠ .ok () := by
  let d := forwarding [.connect ⟨0⟩ "box" "box" none none]
  have hbuilt : d.Built := forwarding_built fun call hcall e => by
    rw [List.mem_singleton.mp hcall]
    exact trivial
  have hexports : d.Exports (.output ⟨0⟩ 0) := ⟨by decide +kernel, rfl, rfl⟩
  have hlink : d.incoming (.output ⟨0⟩ 0) = some (.output ⟨2⟩ 0) := by decide +kernel
  have hback : d.incoming (.output ⟨2⟩ 0) = some (.input ⟨2⟩ 0) := by decide +kernel
  have hbehind : d.Behind (.output ⟨0⟩ 0) (.input ⟨2⟩ 0) := .tail (.single hlink) hback
  refine ⟨d, hbuilt, hexports, hbehind, fun hvalid => ?_⟩
  obtain ⟨last, hlast⟩ := (hbuilt.validate_iff.mp hvalid).2.2 _ _ (.inr hexports) hbehind
  have hcircle : (d.prevClosure (.input ⟨2⟩ 0)).toOption.isNone = true := by decide +kernel
  rw [hlast] at hcircle
  cases hcircle

/-- Once the output is taken away from it, the composite still forwards to itself, but the model
passes. -/
theorem validate_circle_unread : ∃ d : Diagram ℚ, d.Built ∧ d.validate = .ok () ∧
    (d.port? (.input ⟨2⟩ 0)).isSome ∧ ∀ last, d.prevClosure (.input ⟨2⟩ 0) ≠ .ok last := by
  let d := forwarding [.connect ⟨0⟩ "box" "box" none none, .disconnect ⟨0⟩ "box" "y" none none]
  have hbuilt : d.Built := forwarding_built fun call hcall e => by
    simp only [List.mem_cons, List.not_mem_nil, or_false] at hcall
    obtain rfl | rfl := hcall <;> exact trivial
  have hcircle : (d.prevClosure (.input ⟨2⟩ 0)).toOption.isNone = true := by decide +kernel
  refine ⟨d, hbuilt, Except.eq_ok_of_toOption (by decide +kernel), by decide +kernel,
    fun last hlast => ?_⟩
  rw [hlast] at hcircle
  cases hcircle

end Diagram

end CausalBlocks
