import CausalBlocks.Proofs.Diagram.Fitting
import CausalBlocks.Proofs.Diagram.Paths
import CausalBlocks.Proofs.Diagram.Sources

/-!
# Inlining

A composite whose ports drive nothing in circles can be taken apart. What is left has
its operators, rates, ports and paths, and every port that is left has its sources.
-/

namespace CausalBlocks

variable {α : Type}

namespace Edit

variable {e e' : Editor α} {source target port : PortId} {merge : BlockId → BlockId}

/-! ### Going around ports -/

theorem link_total (hsource : (e.diagram.port? source).isSome)
    (htarget : (e.diagram.port? target).isSome) : ∃ e', link source target e = .ok () e' := by
  obtain ⟨p, hp⟩ := Option.isSome_iff_exists.mp hsource
  have htwo := modifyPort_two source target (fun p => { p with outgoing := p.outgoing ++ [target] })
    (fun p => { p with incoming := some source }) htarget
  rw [Diagram.port_eq hp] at htwo
  exact ⟨_, htwo⟩

theorem disconnectPorts_total (hsource : (e.diagram.port? source).isSome)
    (hlinked : e.diagram.incoming target = some source) :
    ∃ e', disconnectPorts source target e = .ok () e' :=
  ⟨_, disconnectPorts_eq hsource hlinked⟩

/-- While links go around a port: those of the targets that have been handled start at the
port's own driver, and all other links are as they were. -/
structure Redirecting (merge : BlockId → BlockId) (start : Diagram α) (port : PortId)
    (rest : List PortId) (d : Diagram α) : Prop
    extends Bypassing merge start.place? port start.Isolated rest d where
  redirected : ∀ q, q ≠ port → d.incoming q =
    if start.incoming q = some port ∧ q ∉ rest then start.incoming port else start.incoming q
  live : ∀ q, (d.port? q).isSome = (start.port? q).isSome

namespace Redirecting

variable {start d d' : Diagram α} {rest : List PortId}

theorem start_of (h : Bypassing merge start.place? port start.Isolated (start.outgoing port) d)
    (hw : Wired merge start.place? start.incoming start.outgoing)
    (hincoming : ∀ q, q ≠ port → d.incoming q = start.incoming q)
    (hlive : ∀ q, (d.port? q).isSome = (start.port? q).isSome) :
    Redirecting merge start port (start.outgoing port) d where
  toBypassing := h
  redirected q hq := by
    rw [hincoming q hq, if_neg]
    rintro ⟨hdriven, hnot⟩
    exact hnot ((hw.mirror port q).mp hdriven)
  live := hlive

/-- One more target has been handled. -/
theorem next (h : Redirecting merge start port (target :: rest) d)
    (hnext : Bypassing merge start.place? port start.Isolated rest d')
    (hincoming : ∀ q, d'.incoming q = if q = target then start.incoming port else d.incoming q)
    (hlive : ∀ q, (d'.port? q).isSome = (d.port? q).isSome) :
    Redirecting merge start port rest d' where
  toBypassing := hnext
  redirected q hq := by
    have hnodup := h.wired.nodup port
    rw [h.outgoing, List.nodup_cons] at hnodup
    rw [hincoming]
    by_cases htarget : q = target
    · have hdriven : start.incoming q = some port := by
        have hcurrent := h.toBypassing.incoming_target
        rw [← htarget, h.redirected q hq, if_neg (by simp [htarget])] at hcurrent
        exact hcurrent
      rw [if_pos htarget, if_pos ⟨hdriven, htarget ▸ hnodup.1⟩]
    · rw [if_neg htarget, h.redirected q hq]
      simp only [List.mem_cons, htarget, false_or]
  live q := (hlive q).trans (h.live q)

/-- When all targets have been handled, the port has been gone around. -/
theorem incoming_eq (h : Redirecting merge start port [] d) :
    d.incoming = detoured start.incoming port := by
  funext q
  rw [detoured]
  by_cases hq : q = port
  · rw [if_pos hq, hq, h.incoming]
  · rw [if_neg hq, h.redirected q hq]
    simp

theorem live_port (h : Redirecting merge start port (target :: rest) d) :
    (d.port? port).isSome := by
  have hmem : target ∈ d.outgoing port := by
    rw [h.outgoing]
    exact List.mem_cons_self
  obtain ⟨p, hp, _⟩ := Diagram.port?_of_mem_outgoing hmem
  rw [hp]
  rfl

/-- Where nothing drives the port, its next target is let go. -/
theorem unlink_total {e : Editor α} (h : Redirecting merge start port (target :: rest) e.diagram)
    (hundriven : start.incoming port = none) :
    ∃ e', disconnectPorts port target e = .ok () e' ∧ Redirecting merge start port rest e'.diagram := by
  obtain ⟨e', hunlink⟩ := disconnectPorts_total h.live_port h.toBypassing.incoming_target
  obtain ⟨_, _, hdiagram⟩ := disconnectPorts_ok hunlink
  refine ⟨e', hunlink, ?_⟩
  rw [hdiagram]
  refine h.next h.toBypassing.unlink (fun q => ?_) fun q => Diagram.port?_isSome_unlinked
  rw [Diagram.incoming_unlinked, hundriven]

/-- Where a source drives the port, it drives the next target instead. -/
theorem relink_total {e : Editor α} (h : Redirecting merge start port (target :: rest) e.diagram)
    (hdriven : start.incoming port = some source) (hsource : (start.port? source).isSome)
    (hne : port ≠ source) {l : BlockId} (hl : levelAt start.place? .input source = some l)
    (hmerge : ∀ l', levelAt start.place? .input port = some l' → merge l = merge l')
    (hquiet : ¬start.Isolated source) :
    ∃ e', (do disconnectPorts port target; link source target : Edit α Unit) e = .ok () e' ∧
      Redirecting merge start port rest e'.diagram := by
  obtain ⟨e₁, hunlink⟩ := disconnectPorts_total h.live_port h.toBypassing.incoming_target
  obtain ⟨_, _, hdiagram⟩ := disconnectPorts_ok hunlink
  have htarget : (e.diagram.port? target).isSome := by
    obtain ⟨q, hq, _⟩ := Diagram.port?_of_incoming h.toBypassing.incoming_target
    rw [hq]
    rfl
  have hsource₀ : (e.diagram.port? source).isSome := by rw [h.live, hsource]
  have hlive : ∀ q, (e₁.diagram.port? q).isSome = (e.diagram.port? q).isSome := by
    intro q
    rw [hdiagram, Diagram.port?_isSome_unlinked]
  have htarget₁ : (e₁.diagram.port? target).isSome := by rw [hlive, htarget]
  obtain ⟨e', hlink⟩ := link_total (by rw [hlive, hsource₀]) htarget₁
  obtain ⟨_, _, hdiagram'⟩ := link_ok hlink
  refine ⟨e', EStateM.bind_eq_ok.mpr ⟨(), e₁, hunlink, hlink⟩, ?_⟩
  rw [hdiagram', hdiagram]
  rw [hdiagram] at htarget₁
  refine h.next (h.toBypassing.relink hsource₀ hl hne hmerge hquiet) (fun q => ?_) fun q => ?_
  · simp only [Diagram.incoming_linked htarget₁, Diagram.incoming_unlinked, hdriven]
    split <;> rfl
  · rw [Diagram.port?_isSome_linked, Diagram.port?_isSome_unlinked]

end Redirecting

/-- A port that does not drive itself can be gone around. -/
theorem bypass_total (hw : Wired merge e.diagram.place? e.diagram.incoming e.diagram.outgoing)
    {level : BlockId} (hlevel : ∀ inner l, levelAt e.diagram.place? inner port = some l →
      merge l = merge level) (hlive : (e.diagram.port? port).isSome)
    (hself : e.diagram.incoming port ≠ some port) :
    ∃ e', bypass port e = .ok () e' ∧ Redirecting merge e.diagram port [] e'.diagram := by
  obtain ⟨p, hp⟩ := Option.isSome_iff_exists.mp hlive
  have hincoming := Diagram.incoming_eq hp
  have hread := Diagram.port_eq hp
  cases hdriver : p.incoming with
  | none =>
      rw [hdriver] at hincoming
      have hstart := Redirecting.start_of (.undriven hw hincoming) hw (fun _ _ => rfl) fun _ => rfl
      have hturn : ∀ target rest (e₁ : Editor α),
          Redirecting merge e.diagram port (target :: rest) e₁.diagram →
            ∃ e₂, (do disconnectPorts port target; pure () : Edit α Unit) e₁ = .ok () e₂ ∧
              Redirecting merge e.diagram port rest e₂.diagram := by
        intro target rest e₁ h
        obtain ⟨e₂, hunlink, hnext⟩ := h.unlink_total hincoming
        exact ⟨e₂, EStateM.bind_eq_ok.mpr ⟨(), e₂, hunlink, rfl⟩, hnext⟩
      obtain ⟨e', hloop, hdone⟩ := EStateM.forM_total
        (P := fun rest (e₁ : Editor α) => Redirecting merge e.diagram port rest e₁.diagram)
        hturn hstart
      refine ⟨e', ?_, hdone⟩
      simp only [bypass, EStateM.bind_eq_ok, diagram_eq_ok, EStateM.lift_eq_ok]
      refine ⟨_, e, ⟨rfl, rfl⟩, p, e, ⟨hread, rfl⟩, ?_⟩
      rw [hdriver, ← Diagram.outgoing_eq hp]
      exact hloop
  | some source =>
      rw [hdriver] at hincoming
      have hne : port ≠ source := fun heq => hself (hincoming.trans (congrArg some heq.symm))
      obtain ⟨hquiet, l, hl, hmerge⟩ := level_source hw hincoming hlevel
      have hsource : (e.diagram.port? source).isSome := by
        obtain ⟨q, hq, _⟩ := Diagram.port?_of_mem_outgoing ((hw.mirror source port).mp hincoming)
        rw [hq]
        rfl
      obtain ⟨e₀, hcut⟩ := disconnectPorts_total hsource hincoming
      obtain ⟨_, _, hdiagram₀⟩ := disconnectPorts_ok hcut
      have hstart : Redirecting merge e.diagram port (e.diagram.outgoing port) e₀.diagram := by
        rw [hdiagram₀]
        refine .start_of (.cut hw hincoming hne) hw (fun q hq => ?_)
          fun q => Diagram.port?_isSome_unlinked
        simp only [Diagram.incoming_unlinked, if_neg hq]
      obtain ⟨e', hloop, hdone⟩ := EStateM.forM_total
        (P := fun rest (e₁ : Editor α) => Redirecting merge e.diagram port rest e₁.diagram)
        (fun target rest e₁ h => h.relink_total hincoming hsource hne hl hmerge hquiet) hstart
      refine ⟨e', ?_, hdone⟩
      simp only [bypass, EStateM.bind_eq_ok, diagram_eq_ok, EStateM.lift_eq_ok]
      refine ⟨_, e, ⟨rfl, rfl⟩, p, e, ⟨hread, rfl⟩, ?_⟩
      rw [hdriver, ← Diagram.outgoing_eq hp]
      exact EStateM.bind_eq_ok.mpr ⟨(), e₀, hcut, hloop⟩

/-- Ports at which no links go in circles can be gone around, one after the other. -/
theorem bypassAll_total {ports : List PortId} {level : BlockId}
    (hw : Wired merge e.diagram.place? e.diagram.incoming e.diagram.outgoing)
    (hlevel : ∀ port ∈ ports, ∀ inner l, levelAt e.diagram.place? inner port = some l →
      merge l = merge level) (hlive : ∀ port ∈ ports, (e.diagram.port? port).isSome)
    (hgrounded : Grounded e.diagram.incoming) :
    ∃ e', ports.forM bypass e = .ok () e' ∧
      e'.diagram.incoming = ports.foldl detoured e.diagram.incoming := by
  induction ports generalizing e with
  | nil => exact ⟨e, rfl, rfl⟩
  | cons port rest ih =>
      obtain ⟨e₁, hok, hdone⟩ := bypass_total hw (hlevel port List.mem_cons_self)
        (hlive port List.mem_cons_self) (hgrounded.ne_self port)
      have hsame := hdone.same
      obtain ⟨e', hrest, hincoming⟩ := ih (e := e₁) (by rw [hsame]; exact hdone.wired)
        (fun q hq => by rw [hsame]; exact hlevel q (List.mem_cons_of_mem _ hq))
        (fun q hq => by rw [hdone.live]; exact hlive q (List.mem_cons_of_mem _ hq))
        (by rw [hdone.incoming_eq]; exact hgrounded.detour port)
      refine ⟨e', EStateM.bind_eq_ok.mpr ⟨(), e₁, hok, hrest⟩, ?_⟩
      rw [hincoming, hdone.incoming_eq, List.foldl_cons]

/-! ### Moving blocks -/

variable {id up child parent : BlockId} {name : String} {here composite : Block α}

theorem modifyBlock_total {f : Block α → Block α} (h : (e.diagram.block? id).isSome) :
    Edit.modifyBlock id f e = .ok () { e with diagram := e.diagram.modifyBlock id f } := by
  obtain ⟨b, hb⟩ := Option.isSome_iff_exists.mp h
  rw [modifyBlock_apply, Diagram.block_eq hb]

theorem detach_total (hid : e.diagram.block? id = some here) (hup : here.parent = some up)
    (hlive : (e.diagram.block? up).isSome) : ∃ e', detach id e = .ok () e' := by
  rw [detach, block_bind hid, hup]
  exact ⟨_, modifyBlock_total hlive⟩

/-- A block can move to a composite where its new name is free. -/
theorem reparent_total (hchild : e.diagram.block? child = some here) (hup : here.parent = some up)
    (hlive : (e.diagram.block? up).isSome) (hparent : e.diagram.block? parent = some composite)
    (hfree : name ∉ composite.takenNames) : ∃ e', reparent child parent name e = .ok () e' := by
  obtain ⟨e₁, hdetach⟩ := detach_total hchild hup hlive
  obtain ⟨_, hdiagram⟩ := detach_ok hdetach hchild hup
  have hlive₁ : ∀ x, (e₁.diagram.block? x).isSome = (e.diagram.block? x).isSome := by
    intro x
    rw [hdiagram, Diagram.isSome_block?_modifyBlock]
  rw [reparent, block_bind hparent, if_neg hfree]
  refine EStateM.bind_total hdetach (EStateM.bind_total (modifyBlock_total ?_)
    ⟨_, modifyBlock_total ?_⟩)
  · rw [hlive₁, hparent]
    rfl
  · rw [Diagram.isSome_block?_modifyBlock, hlive₁, hchild]
    rfl

theorem remove_total (hid : e.diagram.block? id = some here) (hup : here.parent = some up)
    (hlive : (e.diagram.block? up).isSome) : ∃ e', remove id e = .ok () e' := by
  obtain ⟨e₁, hdetach⟩ := detach_total hid hup hlive
  exact EStateM.bind_total hdetach ⟨_, rfl⟩

end Edit

end CausalBlocks
