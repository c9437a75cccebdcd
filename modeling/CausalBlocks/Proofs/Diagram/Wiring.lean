import CausalBlocks.Diagram.Flatten
import CausalBlocks.Proofs.Diagram.View
import CausalBlocks.Proofs.Outcome

/-!
# Links

Both ends of a link know of it, and it runs inside one composite. While a
composite is taken apart, links run across its border; then two levels count as
the same if `merge` makes them one.
-/

namespace CausalBlocks

/-- The composite in which links on one side of a port run, if any do. Links that
start at an input, or stop at an output, run inside the block of the port; others
run beside it. -/
def levelAt (place : BlockId → Option Place) (inner : Side) (p : PortId) : Option BlockId :=
  (place p.block).bind fun here =>
    if p.side = inner then if here.composite then some p.block else none else here.parent

/-- Links are kept at both ends, once, and join two ports at the same level. -/
structure Wired (merge : BlockId → BlockId) (place : BlockId → Option Place)
    (incoming : PortId → Option PortId) (outgoing : PortId → List PortId) : Prop where
  mirror : ∀ p q, incoming q = some p ↔ q ∈ outgoing p
  nodup : ∀ p, (outgoing p).Nodup
  level : ∀ p q, incoming q = some p → ∃ l l',
    levelAt place .input p = some l ∧ levelAt place .output q = some l' ∧ merge l = merge l'

namespace Wired

variable {merge : BlockId → BlockId} {place : BlockId → Option Place}
  {incoming : PortId → Option PortId} {outgoing : PortId → List PortId} {source target : PortId}

theorem link (h : Wired merge place incoming outgoing) (hfree : incoming target = none)
    {l l' : BlockId} (hsource : levelAt place .input source = some l)
    (htarget : levelAt place .output target = some l') (hlevel : merge l = merge l') :
    Wired merge place (fun q => if q = target then some source else incoming q)
      (fun p => if p = source then outgoing p ++ [target] else outgoing p) where
  mirror := by
    intro p q
    have hmirror := h.mirror p q
    by_cases hq : q = target
    · subst hq
      have hnot : q ∉ outgoing p := fun hmem => by simp [(h.mirror p q).mpr hmem] at hfree
      by_cases hp : p = source
      · simp [hp]
      · simp [hp, hnot, Ne.symm hp]
    · by_cases hp : p = source
      · subst hp; simp [hq, hmirror]
      · simp [hq, hp, hmirror]
  nodup := by
    intro p
    have hnodup := h.nodup p
    split
    next hp =>
      have hnot : target ∉ outgoing p := fun hmem => by simp [(h.mirror p target).mpr hmem] at hfree
      rw [List.nodup_append]
      exact ⟨hnodup, by simp, by rintro a ha b hb rfl; simp_all⟩
    next => exact hnodup
  level := by
    intro p q hpq
    split at hpq
    next hq =>
      cases hpq
      subst hq
      exact ⟨l, l', hsource, htarget, hlevel⟩
    next => exact h.level p q hpq

theorem unlink (h : Wired merge place incoming outgoing) (hlinked : incoming target = some source) :
    Wired merge place (fun q => if q = target then none else incoming q)
      (fun p => if p = source then (outgoing p).filter (· ≠ target) else outgoing p) where
  mirror := by
    intro p q
    have hmirror := h.mirror p q
    by_cases hq : q = target
    · subst hq
      rw [hlinked, Option.some.injEq] at hmirror
      by_cases hp : p = source
      · simp [hp]
      · simp [hp, ← hmirror, Ne.symm hp]
    · by_cases hp : p = source
      · subst hp; simp [hq, hmirror]
      · simp [hq, hp, hmirror]
  nodup := by
    intro p
    split
    next => exact (h.nodup p).filter _
    next => exact h.nodup p
  level := by
    intro p q hpq
    split at hpq
    next => cases hpq
    next => exact h.level p q hpq

/-- A port that drives something is an output, or an input of a composite; one
that is driven is an input, or an output of a composite. -/
theorem composite_of_incoming (h : Wired merge place incoming outgoing) {p q : PortId}
    (hpq : incoming q = some p) :
    (p.side = .input → ∃ here, place p.block = some here ∧ here.composite = true) ∧
      (q.side = .output → ∃ here, place q.block = some here ∧ here.composite = true) := by
  obtain ⟨l, l', hp, hq, _⟩ := h.level p q hpq
  have hlevel : ∀ inner (r : PortId) l, levelAt place inner r = some l → r.side = inner →
      ∃ here, place r.block = some here ∧ here.composite = true := by
    intro inner r l hl hside
    obtain ⟨here, hhere, hl⟩ := Option.bind_eq_some_iff.mp hl
    refine ⟨here, hhere, ?_⟩
    rw [if_pos hside] at hl
    split at hl
    next hcomposite => exact hcomposite
    next => cases hl
  exact ⟨hlevel .input p l hp, hlevel .output q l' hq⟩

end Wired

variable {α : Type}

namespace Diagram

variable {d : Diagram α} {source target : PortId}

/-- The diagram with one more link. -/
def linked (d : Diagram α) (source target : PortId) : Diagram α :=
  (d.modifyPort source fun p => { p with outgoing := p.outgoing ++ [target] }).modifyPort target
    fun p => { p with incoming := some source }

/-- The diagram with one link less. -/
def unlinked (d : Diagram α) (source target : PortId) : Diagram α :=
  (d.modifyPort source fun p => { p with outgoing := p.outgoing.filter (· ≠ target) }).modifyPort
    target fun p => { p with incoming := none }

theorem place?_linked : (d.linked source target).place? = d.place? := by
  rw [linked, place?_modifyPort, place?_modifyPort] <;> exact fun _ => rfl

theorem place?_unlinked : (d.unlinked source target).place? = d.place? := by
  rw [unlinked, place?_modifyPort, place?_modifyPort] <;> exact fun _ => rfl

/-- Which ports there are does not depend on their links. -/
theorem port?_isSome_modifyPort {q y : PortId} (f : Port α → Port α) :
    ((d.modifyPort q f).port? y).isSome = (d.port? y).isSome := by
  rw [port?_modifyPort]
  split <;> simp

theorem incoming_linked (htarget : (d.port? target).isSome) :
    (d.linked source target).incoming =
      fun q => if q = target then some source else d.incoming q := by
  funext q
  rw [linked, incoming_modifyPort]
  split
  next =>
    rw [← port?_isSome_modifyPort (q := source)
      fun p => { p with outgoing := p.outgoing ++ [target] }, Option.isSome_iff_exists] at htarget
    obtain ⟨port, hport⟩ := htarget
    rw [hport, Option.bind_some]
  next =>
    rw [incoming_modifyPort]
    split
    next hq => rw [hq, incoming]
    next => rfl

theorem outgoing_linked (hsource : (d.port? source).isSome) :
    (d.linked source target).outgoing =
      fun p => if p = source then d.outgoing p ++ [target] else d.outgoing p := by
  obtain ⟨port, hport⟩ := Option.isSome_iff_exists.mp hsource
  have hfirst : ∀ p, (d.modifyPort source fun p =>
      { p with outgoing := p.outgoing ++ [target] }).outgoing p =
      if p = source then d.outgoing p ++ [target] else d.outgoing p := by
    intro p
    rw [outgoing_modifyPort]
    split
    next hp => rw [hp, outgoing_eq hport, hport, Option.map_some, Option.getD_some]
    next => rfl
  funext p
  rw [linked, outgoing_modifyPort, ← hfirst p]
  split
  next hp => rw [hp]; rfl
  next => rfl

theorem incoming_unlinked :
    (d.unlinked source target).incoming =
      fun q => if q = target then none else d.incoming q := by
  funext q
  rw [unlinked, incoming_modifyPort]
  split
  next => simp
  next =>
    rw [incoming_modifyPort]
    split
    next hq => rw [hq, incoming]
    next => rfl

theorem outgoing_unlinked :
    (d.unlinked source target).outgoing =
      fun p => if p = source then (d.outgoing p).filter (· ≠ target) else d.outgoing p := by
  have hfirst : ∀ p, (d.modifyPort source fun p =>
      { p with outgoing := p.outgoing.filter (· ≠ target) }).outgoing p =
      if p = source then (d.outgoing p).filter (· ≠ target) else d.outgoing p := by
    intro p
    rw [outgoing_modifyPort]
    split
    next hp =>
      rw [hp, outgoing]
      cases d.port? source <;> rfl
    next => rfl
  funext p
  rw [unlinked, outgoing_modifyPort, ← hfirst p]
  split
  next hp => rw [hp]; rfl
  next => rfl

end Diagram

end CausalBlocks
