import Mathlib.Algebra.Group.Nat.Defs
import CausalBlocks.Proofs.Diagram.Consistency

/-!
# Names for new children

The search for a name tries one candidate after the other. It always ends, with a name that
no child and no port has, and so a composite takes every block that is added without a name.
-/

namespace CausalBlocks

/-- Trying names until one will do: a first one, then a candidate for each number from a
given one on. -/
inductive NameSearch (free : String → Prop) (candidate : Nat → String) :
    String → Nat → String → Prop
  | found {name : String} {n : Nat} : free name → NameSearch free candidate name n name
  | next {name answer : String} {n : Nat} : ¬free name →
      NameSearch free candidate (candidate n) (n + 1) answer →
      NameSearch free candidate name n answer

theorem NameSearch.of_first {free : String → Prop} {candidate : Nat → String} {name : String}
    {n k : Nat} (hname : ¬free name) (htaken : ∀ j < k, ¬free (candidate (n + j)))
    (hfree : free (candidate (n + k))) :
    NameSearch free candidate name n (candidate (n + k)) := by
  induction k generalizing name n with
  | zero => exact .next hname (.found hfree)
  | succ k ih =>
      apply NameSearch.next hname
      rw [← Nat.add_assoc, Nat.add_right_comm] at hfree ⊢
      apply ih (htaken 0 (Nat.succ_pos k)) _ hfree
      intro j hj
      have hnext := htaken (j + 1) (Nat.succ_lt_succ hj)
      rwa [← Nat.add_assoc, Nat.add_right_comm] at hnext

/-- A number as a generated name ends in it. -/
def counterText (hashed : Bool) (n : Nat) : String := if hashed then numeral64 n else toString n

theorem counterText_injective {hashed : Bool} {m n : Nat}
    (h : counterText hashed m = counterText hashed n) : m = n := by
  cases hashed with
  | false => exact decimal_injective h
  | true => exact numeral64_injective h

theorem counterText_ne_empty (hashed : Bool) (n : Nat) : counterText hashed n ≠ "" := by
  cases hashed with
  | false => exact Nat.repr_ne_empty
  | true => exact numeral64_ne_empty n

variable {α : Type} {d : Diagram α} {parent : BlockId} {b : Block α}

namespace Diagram

/-- The number that the search for a name starts from. -/
def firstCounter (d : Diagram α) (parent : BlockId) (hashed : Bool) : Nat :=
  if hashed then (d.blocks.size <<< 16) ||| parent.index else 1

theorem uniqueName_eq (hb : d.block? parent = some b) (stem : String) (hashed : Bool) :
    d.uniqueName parent stem hashed =
      .ok (freshName b.takenNames stem (counterText hashed) (d.firstCounter parent hashed)) := by
  unfold uniqueName
  rw [block_eq hb]
  cases hashed <;> rfl

/-- With fewer than 2 ^ 40 blocks, the number to start from leaves room in 64 bits. -/
theorem firstCounter_lt (hsize : d.blocks.size < 2 ^ 40) (hb : d.block? parent = some b)
    (hashed : Bool) : d.firstCounter parent hashed < 2 ^ 56 := by
  unfold firstCounter
  split
  next =>
    have hparent := lt_size_of_block? hb
    apply Nat.or_lt_two_pow
    · rw [Nat.shiftLeft_eq]
      omega
    · omega
  next => decide

end Diagram

/-- A name for a new child of a block: not empty, and no child and no port goes by it. -/
structure Block.Vacant (b : Block α) (name : String) : Prop where
  nonempty : name ≠ ""
  children : b.child? name = none
  ports : ∀ p ∈ b.inputs ++ b.outputs, p.name ≠ name

namespace Block

variable {name : String}

theorem vacant_iff : b.Vacant name ↔ name ≠ "" ∧ name ∉ b.takenNames := by
  have hchild : b.child? name = none ↔ name ∉ b.childIndex.map Prod.fst := by
    rw [child?, List.lookup_eq_none_iff, List.mem_map]
    constructor
    · rintro h ⟨entry, hentry, rfl⟩
      simpa using h entry hentry
    · exact fun h entry hentry => by simpa using fun heq => h ⟨entry, hentry, heq.symm⟩
  have hport : (∀ p ∈ b.inputs ++ b.outputs, p.name ≠ name) ↔
      name ∉ (b.inputs ++ b.outputs).map Port.name := by
    simp only [List.mem_map, not_exists, not_and]
  rw [takenNames, List.mem_append, not_or, ← hchild, ← hport]
  exact ⟨fun h => ⟨h.nonempty, h.children, h.ports⟩, fun h => ⟨h.1, h.2.1, h.2.2⟩⟩

theorem Vacant.notMem_takenNames (h : b.Vacant name) : name ∉ b.takenNames := (vacant_iff.mp h).2

end Block

namespace Diagram

/-- In a diagram that was built, a child goes by its name. -/
theorem Built.name_ne_of_vacant [Scalar α] (h : d.Built) (hb : d.block? parent = some b)
    {name : String} (hvacant : b.Vacant name) {child : BlockId} {c : Block α}
    (hchild : child ∈ b.children) (hc : d.block? child = some c) : c.name ≠ name := by
  intro hname
  have hentry := ((h.consistent.indexed parent b hb).2 name child).mpr ⟨hchild, c, hc, hname⟩
  apply hvacant.notMem_takenNames
  exact List.mem_append_left _ (List.mem_map_of_mem hentry)

theorem uniqueName_of_vacant (hb : d.block? parent = some b) {stem : String}
    (hstem : b.Vacant stem) (hashed : Bool) : d.uniqueName parent stem hashed = .ok stem := by
  rw [uniqueName_eq hb, freshName_eq_stem (Block.vacant_iff.mp hstem)]

/-- A stem that will not do gets the first number with which it will. -/
theorem exists_uniqueName_eq (hb : d.block? parent = some b) {stem : String}
    (hstem : ¬b.Vacant stem) (hashed : Bool) : ∃ k ≤ b.takenNames.length,
      d.uniqueName parent stem hashed =
        .ok (stem ++ counterText hashed (d.firstCounter parent hashed + k)) ∧
      b.Vacant (stem ++ counterText hashed (d.firstCounter parent hashed + k)) ∧
      ∀ j < k, ¬b.Vacant (stem ++ counterText hashed (d.firstCounter parent hashed + j)) := by
  rw [Block.vacant_iff] at hstem
  have hinj : ∀ m n, counterText hashed m = counterText hashed n → m = n :=
    fun _ _ => counterText_injective
  obtain ⟨k, hk, hname, hfree, htaken⟩ :=
    exists_freshName_eq (d.firstCounter parent hashed) hinj hstem
  refine ⟨k, hk, ?_, ?_, fun j hj hvacant => ?_⟩
  · rw [uniqueName_eq hb, hname]
  · exact Block.vacant_iff.mpr ⟨append_ne_empty (counterText_ne_empty hashed _), hfree⟩
  · exact hvacant.notMem_takenNames (htaken j hj)

theorem childName_generated {e : Editor α} {name : String}
    (hname : e.diagram.uniqueName parent "" true = .ok name) :
    ∃ e', Edit.childName parent "" e = .ok name e' := by
  have hempty : ("".isEmpty : Bool) = true := rfl
  rw [Edit.childName, if_pos hempty, EStateM.bind_of_ok (Edit.diagram_eq_ok.mpr ⟨rfl, rfl⟩),
    EStateM.bind_of_ok (EStateM.lift_eq_ok.mpr ⟨hname, rfl⟩)]
  exact ⟨_, rfl⟩

/-- A composite takes a block without a name, under the name that is found for it. -/
theorem addBlock_unnamed {e : Editor α} (hb : e.diagram.block? parent = some b)
    (hcomposite : b.isComposite = true) (op : Operator α) : ∃ name e',
      e.diagram.uniqueName parent "" true = .ok name ∧
      Edit.addBlock parent "" op e = .ok ⟨e.diagram.blocks.size⟩ e' ∧
      e'.diagram = e.diagram.adopted parent name
        [.make name op (some parent) op.inputNames op.outputNames] := by
  have hempty : ¬b.Vacant "" := fun hvacant => hvacant.nonempty rfl
  obtain ⟨k, _, hname, hvacant, _⟩ := exists_uniqueName_eq hb hempty true
  obtain ⟨e₁, hchild⟩ := childName_generated hname
  obtain ⟨e', hok, hdiagram⟩ := Edit.insert_of_childName hb hcomposite hchild
    hvacant.notMem_takenNames
  exact ⟨_, e', hname, hok, hdiagram⟩

/-- The search for a name ends with the stem if that will do, and else with the first number
that makes it a name that no child and no port has; so a block without a name can be added to
any composite. -/
theorem uniqueName_vacant [Scalar α] {e : Editor α} (hsize : e.diagram.blocks.size < 2 ^ 40)
    (hb : e.diagram.block? parent = some b) (stem : String) (hashed : Bool) :
    (∃ name, e.diagram.uniqueName parent stem hashed = .ok name ∧
      NameSearch b.Vacant (fun n => stem ++ counterText hashed n) stem
        (e.diagram.firstCounter parent hashed) name ∧
      b.Vacant name ∧
      (e.diagram.Built → ∀ child c, child ∈ b.children → e.diagram.block? child = some c →
        c.name ≠ name) ∧
      (b.Vacant stem → name = stem) ∧
      (¬b.Vacant stem → ∃ n ≥ e.diagram.firstCounter parent hashed,
        name = stem ++ counterText hashed n ∧
        (∀ m ≥ e.diagram.firstCounter parent hashed, m < n →
          ¬b.Vacant (stem ++ counterText hashed m)) ∧
        (b.takenNames.length ≤ 2 ^ 63 → n < 2 ^ 64))) ∧
    (b.isComposite = true → ∀ op : Operator α, ∃ name e',
      e.diagram.uniqueName parent "" true = .ok name ∧
      Edit.addBlock parent "" op e = .ok ⟨e.diagram.blocks.size⟩ e' ∧
      e'.diagram = e.diagram.adopted parent name
        [.make name op (some parent) op.inputNames op.outputNames]) := by
  refine ⟨?_, fun hcomposite => addBlock_unnamed hb hcomposite⟩
  by_cases hstem : b.Vacant stem
  case pos =>
    refine ⟨stem, uniqueName_of_vacant hb hstem hashed, .found hstem, hstem, ?_, fun _ => rfl,
      fun hnot => absurd hstem hnot⟩
    exact fun hbuilt _ _ hchild hc => hbuilt.name_ne_of_vacant hb hstem hchild hc
  case neg =>
    obtain ⟨k, hk, hname, hvacant, htaken⟩ := exists_uniqueName_eq hb hstem hashed
    have hfirst := firstCounter_lt hsize hb hashed
    refine ⟨_, hname, .of_first hstem htaken hvacant, hvacant, ?_, fun h => absurd h hstem,
      fun _ => ⟨_, Nat.le_add_right _ k, rfl, ?_, fun hlength => by omega⟩⟩
    · exact fun hbuilt _ _ hchild hc => hbuilt.name_ne_of_vacant hb hvacant hchild hc
    · intro m hm hlt
      obtain ⟨j, rfl⟩ := Nat.exists_eq_add_of_le hm
      exact htaken j (Nat.add_lt_add_iff_left.mp hlt)

/-- A child is called b, another one b2, and a port b1. -/
theorem uniqueName_vacant_numbered : ∃ (e : Editor Float) (b : Block Float),
    e.diagram.Built ∧ e.diagram.block? ⟨0⟩ = some b ∧
      NameSearch b.Vacant (fun n => "b" ++ counterText false n) "b" 1 "b3" ∧
      (∀ child c, child ∈ b.children → e.diagram.block? child = some c → c.name ≠ "b3") ∧
      ∃ name e', e.diagram.uniqueName ⟨0⟩ "" true = .ok name ∧
        Edit.addBlock ⟨0⟩ "" .time e = .ok ⟨3⟩ e' := by
  let e : Editor Float := performAll { diagram := .empty "model" ["b1"] [] }
    [.addBlock ⟨0⟩ "b" .time, .addBlock ⟨0⟩ "b2" .negator]
  have hbuilt : e.diagram.Built := by
    refine .performAll (.empty "model" ["b1"] []) fun call hcall e => ?_
    simp only [List.mem_cons, List.not_mem_nil, or_false] at hcall
    rcases hcall with rfl | rfl <;> exact trivial
  have hlive : (e.diagram.block? ⟨0⟩).isSome = true := by decide +kernel
  obtain ⟨b, hb⟩ := Option.isSome_iff_exists.mp hlive
  have hcomposite : e.diagram.isComposite ⟨0⟩ = true := by decide +kernel
  rw [isComposite, hb] at hcomposite
  have hfound : (e.diagram.uniqueName ⟨0⟩ "b" false).toOption = some "b3" := by decide +kernel
  obtain ⟨⟨name, hname, hsearch, _, hchildren, _⟩, hadd⟩ :=
    uniqueName_vacant (by decide +kernel) hb "b" false
  cases (Except.eq_ok_of_toOption hfound).symm.trans hname
  obtain ⟨name, e', hunnamed, hok, _⟩ := hadd hcomposite .time
  exact ⟨e, b, hbuilt, hb, hsearch, hchildren hbuilt, name, e', hunnamed, hok⟩

end Diagram

end CausalBlocks
