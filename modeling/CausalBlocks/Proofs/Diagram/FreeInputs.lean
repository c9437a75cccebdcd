import CausalBlocks.Proofs.Block.Compute
import CausalBlocks.Proofs.Diagram.Clocking
import CausalBlocks.Proofs.Diagram.Filling
import CausalBlocks.Proofs.Diagram.Fitting
import CausalBlocks.Proofs.Diagram.Lookup
import CausalBlocks.Proofs.Diagram.Undoing

/-!
# Inputs left open

A link to a child that does not name its input goes to the free one of those called IN and a
number, the smallest number first. The search counts no further than there are inputs, so it
misses an input with a greater number. No primitive has one, but a composite can.
-/

namespace CausalBlocks

variable {α : Type}

namespace Block

variable {b : Block α} {n index : Nat}

/-- An input that nothing drives and that is the first with its name, IN and a number. -/
structure FreeInput (b : Block α) (n index : Nat) : Prop where
  pos : 0 < n
  port : ∃ p, b.inputs[index]? = some p ∧ p.name = "IN" ++ toString n ∧ p.incoming = none
  first : ∀ i < index, ∀ p, b.inputs[i]? = some p → p.name ≠ "IN" ++ toString n

/-- The free input with the smallest number. -/
structure LeastFreeInput (b : Block α) (n index : Nat) : Prop extends FreeInput b n index where
  least : ∀ m i, b.FreeInput m i → n ≤ m

theorem inputIndex?_eq_some {name : String} : b.inputIndex? name = some index ↔
    (∃ p, b.inputs[index]? = some p ∧ p.name = name) ∧
      ∀ i < index, ∀ p, b.inputs[i]? = some p → p.name ≠ name := by
  unfold inputIndex?
  rw [List.findIdx?_eq_some_iff_getElem]
  constructor
  · rintro ⟨hlt, hname, hbefore⟩
    refine ⟨⟨_, List.getElem?_eq_getElem hlt, by simpa using hname⟩, fun i hi p hp => ?_⟩
    obtain ⟨hlt', rfl⟩ := List.getElem?_eq_some_iff.mp hp
    simpa using hbefore i hi
  · rintro ⟨⟨p, hp, hname⟩, hbefore⟩
    obtain ⟨hlt, rfl⟩ := List.getElem?_eq_some_iff.mp hp
    refine ⟨hlt, by simpa using hname, fun i hi => ?_⟩
    simpa using hbefore i hi _ (List.getElem?_eq_getElem (hi.trans hlt))

/-- The first input with a number, if nothing drives it. -/
def openInput? (b : Block α) (n : Nat) : Option Nat :=
  (b.inputIndex? ("IN" ++ toString n)).bind fun i => b.inputs[i]?.bind fun p =>
    if p.incoming.isNone then some i else none

theorem freeInput_iff : b.FreeInput n index ↔ 0 < n ∧ b.openInput? n = some index := by
  simp only [openInput?, Option.bind_eq_some_iff, inputIndex?_eq_some]
  constructor
  · rintro ⟨hpos, ⟨p, hp, hname, hincoming⟩, hfirst⟩
    exact ⟨hpos, index, ⟨⟨p, hp, hname⟩, hfirst⟩, p, hp, by rw [hincoming]; rfl⟩
  · rintro ⟨hpos, i, ⟨⟨p, hp, hname⟩, hfirst⟩, q, hq, hincoming⟩
    split at hincoming
    next hnone =>
      cases hincoming
      obtain rfl := Option.some.inj (hp.symm.trans hq)
      exact ⟨hpos, ⟨p, hp, hname, Option.isNone_iff_eq_none.mp hnone⟩, hfirst⟩
    next => cases hincoming

theorem openInput?_eq_none (hpos : 0 < n) : b.openInput? n = none ↔ ∀ i, ¬b.FreeInput n i := by
  simp only [freeInput_iff, hpos, true_and, Option.eq_none_iff_forall_ne_some]

theorem freeInput?_eq : b.freeInput? =
    (List.range b.inputs.length).findSome? fun k => b.openInput? (k + 1) := rfl

/-- The search finds the free input with the smallest number, if that is no greater than the
number of inputs. -/
theorem freeInput?_eq_some : b.freeInput? = some index ↔
    ∃ n ≤ b.inputs.length, b.LeastFreeInput n index := by
  rw [freeInput?_eq, List.findSome?_range_eq_some]
  constructor
  · rintro ⟨k, hk, hfree, hbefore⟩
    refine ⟨k + 1, hk, freeInput_iff.mpr ⟨Nat.succ_pos k, hfree⟩, fun m i hm => ?_⟩
    obtain ⟨j, rfl⟩ := Nat.exists_eq_succ_of_ne_zero (Nat.ne_of_gt hm.pos)
    have hle : ¬j < k := fun hj => (openInput?_eq_none hm.pos).mp (hbefore j hj) i hm
    omega
  · rintro ⟨n, hn, hfree, hleast⟩
    obtain ⟨k, rfl⟩ := Nat.exists_eq_succ_of_ne_zero (Nat.ne_of_gt hfree.pos)
    refine ⟨k, hn, (freeInput_iff.mp hfree).2, fun j hj => ?_⟩
    apply (openInput?_eq_none (Nat.succ_pos j)).mpr
    intro i hi
    have := hleast (j + 1) i hi
    omega

theorem freeInput?_eq_none : b.freeInput? = none ↔
    ∀ n i, b.FreeInput n i → b.inputs.length < n := by
  rw [freeInput?_eq, List.findSome?_eq_none_iff]
  constructor
  · intro h n i hfree
    obtain ⟨k, rfl⟩ := Nat.exists_eq_succ_of_ne_zero (Nat.ne_of_gt hfree.pos)
    refine Nat.lt_of_not_le fun hle => ?_
    exact (openInput?_eq_none hfree.pos).mp (h k (List.mem_range.mpr hle)) i hfree
  · intro h k hk
    apply (openInput?_eq_none (Nat.succ_pos k)).mpr
    intro i hfree
    have := h (k + 1) i hfree
    have := List.mem_range.mp hk
    omega

end Block

/-! ### Inputs of primitives -/

theorem le_length_numbered {n count : Nat} (h : "IN" ++ toString n ∈ numbered "IN" count) :
    n ≤ (numbered "IN" count).length := by
  obtain ⟨i, hi, hname⟩ := List.mem_map.mp h
  have := decimal_injective (append_left_injective hname)
  rw [Operator.length_numbered]
  have := List.mem_range.mp hi
  omega

/-- A name that does not begin like those of numbered inputs. -/
theorem append_ne {suffix name : String} (h : name.toList.take 2 ≠ ['I', 'N']) :
    "IN" ++ suffix ≠ name := by
  rintro rfl
  apply h
  rw [String.toList_append]
  rfl

namespace Operator

/-- No number in the name of an input is greater than the number of inputs. -/
theorem le_length_inputNames {op : Operator α} {n : Nat}
    (h : "IN" ++ toString n ∈ op.inputNames) : n ≤ op.inputNames.length := by
  cases op with
  | clock =>
      rw [inputNames, List.mem_singleton] at h
      exact absurd h (append_ne (by decide))
  | multiplexer count zeroBased =>
      rw [inputNames, List.mem_cons] at h
      rcases h with h | h
      · exact absurd h (append_ne (by decide))
      · exact Nat.le_succ_of_le (le_length_numbered h)
  | delay =>
      rw [inputNames, List.mem_cons, List.mem_singleton] at h
      rcases h with h | h
      · obtain rfl := decimal_injective (n := 1) (append_left_injective h)
        simp [inputNames]
      · exact absurd h (append_ne (by decide))
  | clamp bounds => cases bounds <;> exact le_length_numbered h
  | composite | constant | sequence | time | step => cases h
  | _ => exact le_length_numbered h

end Operator

namespace Diagram

variable {d : Diagram α} {child parent : BlockId} {b outer : Block α} {start p : PortId}
  {source target : String} {output : Option String}

/-- A primitive has no input with a number beyond the number of its inputs. -/
theorem Built.freeInput_le [Scalar α] (h : d.Built) (hb : d.block? child = some b)
    (hprimitive : b.isComposite = false) {n index : Nat} (hfree : b.FreeInput n index) :
    n ≤ b.inputs.length := by
  obtain ⟨p, hp, hname, _⟩ := hfree.port
  have hnames := h.ported child b hb hprimitive
  have hmem : "IN" ++ toString n ∈ b.operator.inputNames := by
    rw [← hnames, ← hname]
    exact List.mem_map_of_mem (List.mem_of_getElem? hp)
  have hle := Operator.le_length_inputNames hmem
  rwa [← hnames, List.length_map] at hle

/-! ### The choice of an input -/

theorem inputNamed_none_eq (hb : d.block? child = some b)
    (halike : b.operator.isOrderSensitive = false) :
    d.inputNamed child none = match b.freeInput? with
      | some index => .ok (.input child index)
      | none => .error (.noFreeInput (d.pathOf child)) := by
  unfold inputNamed
  rw [block_eq hb]
  dsimp only [bind, Except.bind]
  rw [halike, if_neg Bool.false_ne_true]
  cases b.freeInput? <;> rfl

/-- A link that does not name the input ends at the free one with the smallest number, if that
is no greater than the number of inputs. -/
theorem inputNamed_none_eq_ok (hb : d.block? child = some b)
    (halike : b.operator.isOrderSensitive = false) : d.inputNamed child none = .ok p ↔
      ∃ n index, b.LeastFreeInput n index ∧ n ≤ b.inputs.length ∧ p = .input child index := by
  rw [inputNamed_none_eq hb halike]
  constructor
  · intro hok
    cases hfree : b.freeInput? with
    | none =>
        rw [hfree] at hok
        cases hok
    | some index =>
        rw [hfree] at hok
        obtain ⟨n, hle, hleast⟩ := Block.freeInput?_eq_some.mp hfree
        cases hok
        exact ⟨n, index, hleast, hle, rfl⟩
  · rintro ⟨n, index, hleast, hle, rfl⟩
    rw [Block.freeInput?_eq_some.mpr ⟨n, hle, hleast⟩]

/-- There is none if every free one has a greater number. -/
theorem inputNamed_none_eq_error (hb : d.block? child = some b)
    (halike : b.operator.isOrderSensitive = false) {failure : Failure α} :
    d.inputNamed child none = .error failure ↔ failure = .noFreeInput (d.pathOf child) ∧
      ∀ n index, b.FreeInput n index → b.inputs.length < n := by
  rw [inputNamed_none_eq hb halike, ← Block.freeInput?_eq_none]
  cases b.freeInput? with
  | none => simp [eq_comm]
  | some index => simp

/-! ### Making the link -/

theorem Finds.targetNamed_eq (h : d.Finds parent target child b) (input : Option String) :
    d.targetNamed parent target input = d.inputNamed child input := by
  obtain ⟨outer, hparent, _, _, hown⟩ := h.named
  unfold Diagram.targetNamed
  rw [block_eq hparent]
  dsimp only [bind, Except.bind]
  rw [hown, h.childNamed]

namespace Consistent

variable (h : d.Consistent) (hparent : d.block? parent = some outer)
include h hparent

/-- A child is found by its name, and by no port's. -/
theorem exists_finds (hchild : outer.child? target = some child) : ∃ b,
    d.Finds parent target child b ∧ b.parent = some parent ∧ outer.isComposite = true := by
  obtain ⟨hnames, hindexed⟩ := h.indexed parent outer hparent
  have hentry := (lookup_eq_some_iff_mem hnames).mp hchild
  obtain ⟨hmem, c, hc, rfl⟩ := (hindexed target child).mp hentry
  obtain ⟨c', hc', hup⟩ := h.listed parent outer child hparent hmem
  cases hc.symm.trans hc'
  have hroot : child ≠ d.root := by
    obtain ⟨top, htop, hnone⟩ := h.root
    rintro rfl
    cases hc.symm.trans htop
    cases hnone.symm.trans hup
  obtain ⟨up, above, hup', habove, hcomposite, _⟩ := h.parent child c hc hroot
  cases hup.symm.trans hup'
  cases hparent.symm.trans habove
  have hports := (h.named parent outer child c hparent hmem hc).2
  simp only [List.map_append, List.mem_append, List.mem_map, not_or, not_exists, not_and] at hports
  refine ⟨c, ⟨⟨outer, hparent, hchild, ?_, ?_⟩, hc⟩, hup, hcomposite⟩
  · exact List.findIdx?_eq_none_iff.mpr fun p hp => by simpa using hports.1 p hp
  · exact List.findIdx?_eq_none_iff.mpr fun p hp => by simpa using hports.2 p hp

/-- A link from a name starts at a port of that composite. -/
theorem faces_sourceNamed (hcomposite : outer.isComposite = true)
    (hstart : d.sourceNamed parent source output = .ok start) :
    d.Faces parent .input start := by
  obtain ⟨outer', hparent', hstart⟩ := sourceNamed_eq_ok.mp hstart
  cases hparent.symm.trans hparent'
  split at hstart
  next index hindex =>
    subst hstart
    apply faces_of_block hparent (List.findIdx?_eq_some_iff_getElem.mp hindex).1
    exact if_pos hcomposite
  next =>
    obtain ⟨inner, hinner, hstart⟩ := hstart
    obtain ⟨_, houter, hchild⟩ := childNamed_eq_ok.mp hinner
    cases hparent.symm.trans houter
    obtain ⟨c, hfinds, hup, _⟩ := h.exists_finds hparent hchild
    obtain ⟨c', hc', index, hindex, rfl⟩ := outputNamed_eq_ok.mp hstart
    cases hfinds.block.symm.trans hc'
    exact faces_of_block hc' (List.findIdx?_eq_some_iff_getElem.mp hindex).1 hup

end Consistent

/-- If every free input has a number beyond the number of inputs, linking fails and changes
nothing. -/
theorem Finds.connect_error {e : Editor α} (hfinds : e.diagram.Finds parent target child b)
    (halike : b.operator.isOrderSensitive = false)
    (hstart : e.diagram.sourceNamed parent source output = .ok start)
    (hbeyond : ∀ n index, b.FreeInput n index → b.inputs.length < n) :
    Edit.connect parent source target output none e =
      .error (.noFreeInput (e.diagram.pathOf child)) e := by
  have hstop : e.diagram.targetNamed parent target none =
      .error (.noFreeInput (e.diagram.pathOf child)) := by
    rw [hfinds.targetNamed_eq]
    exact (inputNamed_none_eq_error hfinds.block halike).mpr ⟨rfl, hbeyond⟩
  unfold Edit.connect
  rw [EStateM.bind_of_ok (Edit.diagram_eq_ok.mpr ⟨rfl, rfl⟩),
    EStateM.bind_of_ok (EStateM.lift_eq_ok.mpr ⟨hstart, rfl⟩), hstop]
  rfl

/-- Otherwise the link is made, to the free input with the smallest number. -/
theorem Consistent.connect_least {e : Editor α} (h : e.diagram.Consistent)
    (hparent : e.diagram.block? parent = some outer) (hchild : outer.child? target = some child)
    (hb : e.diagram.block? child = some b) (halike : b.operator.isOrderSensitive = false)
    (hstart : e.diagram.sourceNamed parent source output = .ok start) {n index : Nat}
    (hleast : b.LeastFreeInput n index) (hle : n ≤ b.inputs.length) : ∃ e',
      Edit.connect parent source target output none e = .ok () e' ∧
        e'.diagram = e.diagram.linked start (.input child index) := by
  obtain ⟨c, hfinds, hup, hcomposite⟩ := h.exists_finds hparent hchild
  cases hb.symm.trans hfinds.block
  obtain ⟨p, hp, _, hfree⟩ := hleast.port
  have hport : e.diagram.port? (.input child index) = some p := by
    rw [port?_eq (q := .input child index) hb]
    exact hp
  have hstop : e.diagram.targetNamed parent target none = .ok (.input child index) := by
    rw [hfinds.targetNamed_eq]
    exact (inputNamed_none_eq_ok hb halike).mpr ⟨n, index, hleast, hle, rfl⟩
  have hfaces : e.diagram.Faces parent .output (.input child index) :=
    faces_of_block hb (List.getElem?_eq_some_iff.mp hp).1 hup
  have hundriven : e.diagram.incoming (.input child index) = none := by
    rw [incoming_eq hport, hfree]
  obtain ⟨e', hok⟩ := Edit.connect_total hstart hstop
    (h.faces_sourceNamed hparent hcomposite hstart) hfaces hundriven
  obtain ⟨start', stop, hstart', hstop', hports⟩ := Edit.connect_ok hok
  cases hstart.symm.trans hstart'
  cases hstop.symm.trans hstop'
  exact ⟨e', hok, (Edit.connectPorts_ok hports).2.2.2.2⟩

/-- A link to a child whose inputs are all alike, if it does not name the input, ends at the
free one with the smallest number, unless that number is greater than the number of inputs;
then there is said to be none. That cannot be so for a primitive. -/
theorem connect_unnamed_iff [Scalar α] {e : Editor α} (hb : e.diagram.block? child = some b)
    (halike : b.operator.isOrderSensitive = false) :
    (∀ p, e.diagram.inputNamed child none = .ok p ↔
      ∃ n index, b.LeastFreeInput n index ∧ n ≤ b.inputs.length ∧ p = .input child index) ∧
    (∀ failure, e.diagram.inputNamed child none = .error failure ↔
      failure = .noFreeInput (e.diagram.pathOf child) ∧
        ∀ n index, b.FreeInput n index → b.inputs.length < n) ∧
    (e.diagram.Built →
      (b.isComposite = false → ∀ n index, b.FreeInput n index → n ≤ b.inputs.length) ∧
      ∀ parent outer source target output start, e.diagram.block? parent = some outer →
        outer.child? target = some child →
        e.diagram.sourceNamed parent source output = .ok start →
        (∀ n index, b.LeastFreeInput n index → n ≤ b.inputs.length → ∃ e',
          Edit.connect parent source target output none e = .ok () e' ∧
            e'.diagram = e.diagram.linked start (.input child index)) ∧
        ((∀ n index, b.FreeInput n index → b.inputs.length < n) →
          Edit.connect parent source target output none e =
            .error (.noFreeInput (e.diagram.pathOf child)) e)) := by
  refine ⟨fun p => inputNamed_none_eq_ok hb halike, fun _ => inputNamed_none_eq_error hb halike,
    fun hbuilt => ⟨fun hprimitive _ _ hfree => hbuilt.freeInput_le hb hprimitive hfree, ?_⟩⟩
  intro parent outer source target output start hparent hchild hstart
  constructor
  · intro n index hleast hle
    exact hbuilt.consistent.connect_least hparent hchild hb halike hstart hleast hle
  · intro hbeyond
    obtain ⟨c, hfinds, _⟩ := hbuilt.consistent.exists_finds hparent hchild
    cases hb.symm.trans hfinds.block
    exact hfinds.connect_error halike hstart hbeyond

/-- A time block beside a composite with inputs. -/
def boxed (inputs : List String) : Editor Float :=
  performAll { diagram := .empty "model" [] [] }
    [.addBlock ⟨0⟩ "t" .time, .addComposite ⟨0⟩ "box" "Box" inputs []]

theorem boxed_built (inputs : List String) : (boxed inputs).diagram.Built := by
  refine .performAll (.empty "model" [] []) fun call hcall e => ?_
  simp only [List.mem_cons, List.not_mem_nil, or_false] at hcall
  rcases hcall with rfl | rfl <;> exact trivial

/-- The composite as it is added. -/
def box (inputs : List String) : Block Float :=
  .make "box" (.composite "Box") (some ⟨0⟩) inputs []

/-- The second of four inputs has the smallest number, and comes before another of its name. -/
theorem connect_unnamed_second : (box ["IN3", "IN2", "x", "IN2"]).LeastFreeInput 2 1 ∧ ∃ e',
    Edit.connect ⟨0⟩ "t" "box" none none (boxed ["IN3", "IN2", "x", "IN2"]) = .ok () e' ∧
      e'.diagram.incoming (.input ⟨2⟩ 1) = some (.output ⟨1⟩ 0) := by
  have hleast : (box ["IN3", "IN2", "x", "IN2"]).LeastFreeInput 2 1 := by
    refine ⟨Block.freeInput_iff.mpr (by decide +kernel), fun m i hfree => ?_⟩
    have hone : (box ["IN3", "IN2", "x", "IN2"]).openInput? 1 = none := by decide +kernel
    obtain ⟨hpos, hopen⟩ := Block.freeInput_iff.mp hfree
    refine Nat.lt_of_not_le fun hle => ?_
    obtain rfl : m = 1 := by omega
    rw [hone] at hopen
    cases hopen
  have hb : (boxed ["IN3", "IN2", "x", "IN2"]).diagram.block? ⟨2⟩ =
      some (box ["IN3", "IN2", "x", "IN2"]) := rfl
  have hstart : ((boxed ["IN3", "IN2", "x", "IN2"]).diagram.sourceNamed ⟨0⟩ "t" none).toOption =
      some (.output ⟨1⟩ 0) := by decide +kernel
  obtain ⟨_, _, hbuilt⟩ := connect_unnamed_iff hb rfl
  obtain ⟨hconnect, _⟩ := (hbuilt (boxed_built _)).2 ⟨0⟩ _ "t" "box" none _ rfl rfl
    (Except.eq_ok_of_toOption hstart)
  obtain ⟨e', hok, hdiagram⟩ := hconnect 2 1 hleast (by decide)
  refine ⟨hleast, e', hok, ?_⟩
  rw [hdiagram]
  decide +kernel

/-- An only input that is called IN5 is free, but it is not found. -/
theorem unnamed_overlooks_fifth : (boxed ["IN5"]).diagram.Built ∧
    (boxed ["IN5"]).diagram.block? ⟨2⟩ = some (box ["IN5"]) ∧
      (box ["IN5"]).operator.isOrderSensitive = false ∧ (box ["IN5"]).FreeInput 5 0 ∧
        Edit.connect ⟨0⟩ "t" "box" none none (boxed ["IN5"]) =
          .error (.noFreeInput "box") (boxed ["IN5"]) :=
  ⟨boxed_built _, rfl, rfl, Block.freeInput_iff.mpr (by decide +kernel), rfl⟩

end Diagram

end CausalBlocks
