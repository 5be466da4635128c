import OperatorTemplate.Compilation
import OperatorTemplate.Proofs.Boundary.Retyping
import OperatorTemplate.Proofs.Boundary.Vanishing
/-!
# Compilation after the first inference

Compilation infers types twice, and the second inference may fail where the first did not
(`not_infer_rewritten`): what rewriting leaves of a template asks for less than the template did,
and says less.  Under the conditions of `Retypable` it succeeds, and gives every expression that is
left the type that it had (`compile_of_infer`).

Fluxes may vanish, while the theory of rewritten types wants a template in which none does.  A flux
that vanishes becomes the literal zero, which is a scalar, so the roots with zeros in the places of
such fluxes stand in between (`withoutVanishing`): inference has to accept them, and the rewriting
of the roots is a rewriting of those (`rewrites_map_withoutVanishing`).
-/

namespace OperatorTemplate

open OperatorTemplate.Expr

variable {roots roots' : List Expr} {hints : TypeHints} {i i₀ : Inference}

/-! ## The stages -/

/-- If the alias check, both inferences and the rewriting in between succeed, then compilation does,
with the rewritten roots and the types of the second inference. -/
theorem exists_compile_of_stages {i' : Inference} (ha : checkBoundaryAliasing roots = .ok ())
    (hi : Inference.infer roots hints = .ok i) (hr : rewriteBoundaryFluxes roots = .ok roots')
    (hi' : Inference.infer roots' hints = .ok i') :
    ∃ count, compile roots { hints } = .ok ⟨roots', i'.table, count⟩ := by
  unfold rewriteBoundaryFluxes at hr
  unfold compile
  generalize (roots.mapM Rewrite.root).run.run {} = run at hr ⊢
  obtain ⟨result, state⟩ := run
  obtain rfl : result = .ok roots' := hr
  refine ⟨state.rewritten, ?_⟩
  simp only [if_true, ha, hi, hi', Except.mapError, bind, Except.bind]
  rfl

/-- If the roots are rewritten to `roots'`, then so are the roots with zeros in the places of the
fluxes that vanish. -/
theorem rewrites_map_withoutVanishing (hr : rewriteBoundaryFluxes roots = .ok roots') :
    List.Forall₂ Rewrites (roots.map withoutVanishing) roots' := by
  rw [rewriteBoundaryFluxes_eq] at hr
  rw [List.forall₂_map_left_iff]
  exact (forall₂_of_mapM hr).imp fun _ _ h => rewrites_withoutVanishing h

/-- Let inference accept the roots, with zeros for vanishing fluxes too, and let the roots be
rewritten to `roots'`.  If the conditions of `Retypable` hold, inference accepts `roots'` with the
types that it finds there, and compilation succeeds. -/
theorem compile_of_infer (ha : checkBoundaryAliasing roots = .ok ())
    (hi : Inference.infer roots hints = .ok i) (hr : rewriteBoundaryFluxes roots = .ok roots')
    (hz : Inference.infer (roots.map withoutVanishing) hints = .ok i₀)
    (h : Retypable (roots.map withoutVanishing) roots' hints i₀.table.get) :
    ∃ i' count, Inference.infer roots' hints = .ok i'
      ∧ (∀ e y, Reached (roots.map withoutVanishing) e → Rewrites e y → Reached roots' y →
        i'.table.get y = i₀.table.get e)
      ∧ compile roots { hints } = .ok ⟨roots', i'.table, count⟩ := by
  obtain ⟨i', hi', keeps⟩ := infer_rewritten hz (rewrites_map_withoutVanishing hr) h
  obtain ⟨count, compiled⟩ := exists_compile_of_stages ha hi hr hi'
  exact ⟨i', count, hi', keeps, compiled⟩

/-- A flux that reads a restriction, beside one that vanishes, with a hint for what both read. -/
theorem compile_of_infer_vanishing :
    let wall : BoundaryTag := .named "wall"
    let u : Expr := .atom (.variable "u")
    let w : Expr := .atom (.variable "w")
    let jump (boundary : Expr) : Expr :=
      .apply (.flux ⟨.plain, .sum [.component .interior 0, .component .exterior 0]⟩)
        (.pair u boundary wall)
    let vanishing : Expr := .apply (.flux ⟨.plain, .component .exterior 0⟩)
      (.pair u (.product [.zero, .atom (.variable "g")]) wall)
    let rewritten : Expr :=
      .apply (.flux ⟨.plain, .sum [.component .interior 0, .component .interior 1]⟩)
        (.pair (.array [u, w]) (.array []) wall)
    ∃ i' count, Inference.infer [.sum [rewritten, .zero]] [(u, .onVolume)] = .ok i'
      ∧ compile [.sum [jump (.apply (.restrict wall) w), vanishing]] { hints := [(u, .onVolume)] }
        = .ok ⟨[.sum [rewritten, .zero]], i'.table, count⟩ := by
  intro wall u w jump vanishing rewritten
  let restricted : Expr := .apply (.restrict wall) w
  let root : Expr := .sum [jump restricted, vanishing]
  let root₀ : Expr := .sum [jump restricted, .zero]
  let hints : TypeHints := [(u, .onVolume)]
  obtain ⟨i, hi⟩ := exists_eq_ok (show (Inference.infer [root] hints).isOk = true by decide +kernel)
  have replaced : [root].map withoutVanishing = [root₀] := by decide +kernel
  -- of its types two are needed: that of the hinted field, and that of the restriction
  obtain ⟨i₀, hz, hu, hr⟩ := exists_eq_ok_of_mem
    (show ∃ i ∈ (Inference.infer [root₀] hints).toOption,
      i.table.get u = .volume .nodal ∧ i.table.get restricted = .boundary wall .nodal by
        decide +kernel)
  -- there is one restriction, and there are neither normals nor subscripts
  have heads : (parts [root₀]).map head = [.sum, .atom (.constant (.int 0)),
      .apply (.flux ⟨.plain, .sum [.component .interior 0, .component .exterior 0]⟩), .pair wall,
      .apply (.restrict wall), .atom (.variable "w"), .atom (.variable "u")] := by decide +kernel
  have visited {x : Expr} (hx : Reached [root₀] x) :=
    heads ▸ List.mem_map_of_mem (f := head) hx.mem_parts
  have none_vanish : NoneVanish [root₀] := fun e he hp hz =>
    (show ∀ x ∈ parts [root₀], x.isPairFlux = true → ¬x.rewritten = .ok .zero by decide +kernel)
      e he.mem_parts hp hz
  have retypable : Retypable [root₀] [.sum [rewritten, .zero]] hints i₀.table.get := {
    none_vanish
    restricted := fun tag x hface => by
      have hx := visited hface.reached
      simp [head] at hx
      subst hx
      have same := (show ∀ y ∈ parts [root₀], y.head = .apply (.restrict wall) → y = restricted by
        decide +kernel) _ hface.reached.mem_parts rfl
      exact same ▸ hr
    normal := fun tag axis hface => by
      have hx := visited hface.reached
      simp [head] at hx
    subscripts := fun a a' index y h => by
      have hx := visited h
      simp [head] at hx
    -- the only hint is for `u`, an atom
    kept := fun e t h => by
      have hm := Table.mem_toList.mpr h
      rw [show (TypeTable.ofHints hints).types.toList = [(u, .onVolume)] by decide +kernel] at hm
      obtain ⟨rfl, rfl⟩ := Prod.mk.inj (List.mem_singleton.mp hm)
      exact .of_atom none_vanish rfl (hu ▸ FieldType.Refines.volume .nodal) }
  rw [← replaced] at hz retypable
  obtain ⟨i', count, hi', -, compiled⟩ :=
    compile_of_infer (by decide +kernel) hi (by decide +kernel) hz retypable
  exact ⟨i', count, hi', compiled⟩

/-! ## Where it fails -/

/-- The alias check and inference accept the roots and rewriting succeeds, but inference rejects
what it leaves. -/
def LosesTypes (roots : List Expr) (hints : TypeHints) : Prop :=
  (checkBoundaryAliasing roots).isOk = true ∧ (Inference.infer roots hints).isOk = true
    ∧ ∃ roots' ∈ (rewriteBoundaryFluxes roots).toOption,
      (Inference.infer roots' hints).isOk = false

instance : Decidable (LosesTypes roots hints) := inferInstanceAs (Decidable (_ ∧ _ ∧ _))

/-- Templates that lose their types: one where a zero does not fit in the place of the flux, and one
for each other condition of `Retypable`. -/
theorem not_infer_rewritten :
    let wall : BoundaryTag := .named "wall"
    let u : Expr := .atom (.variable "u")
    let w : Expr := .atom (.variable "w")
    let normal : Expr := .atom (.normal wall 0 none)
    let restricted (x : Expr) : Expr := .apply (.restrict wall) x
    let interpolated (x : Expr) : Expr := .apply (.upsampleBoundary ⟨"q"⟩ wall) x
    let flux (kernel : Kernel) (interior boundary : Expr) : Expr :=
      .apply (.flux ⟨.plain, kernel⟩) (.pair interior boundary wall)
    let value : Kernel := .component .exterior 0
    let jump : Kernel := .sum [.component .interior 0, .component .exterior 0]
    let jumps : Expr := flux jump u (restricted w)
    -- a scalar zero where a field is wanted
    LosesTypes [.apply (.mass .inverse) (flux (.constant (.int 0)) u w)] []
    -- a restriction on a grid leaves a field whose grid is not known from the faces
    ∧ LosesTypes [flux value (.array [.apply (.upsampleInteriorFaces ⟨"q"⟩) u])
      (restricted (.apply (.upsample ⟨"q"⟩) w))] []
    -- a normal is no longer beside the data that told its grid
    ∧ LosesTypes [flux (.sum [.component .exterior 0, .component .exterior 1]) (.array [])
        (.array [interpolated u, normal]),
      .domainFlux [] [.pair (.array []) (.array [normal, interpolated w]) wall]] []
    -- subscripts of two types become one
    ∧ LosesTypes [.apply (.derivative .strong 0) (.subscript jumps 0),
      flux value u (.subscript (flux jump u (.shared (restricted w) none)) 0)] []
    -- hints for what is rewritten, visited no more, or made by rewriting
    ∧ LosesTypes [jumps] [(jumps, .onVolume)]
    ∧ LosesTypes [.apply (.upsample ⟨"q"⟩) (.apply (.reduce .sum) jumps)]
      [(.apply (.upsample ⟨"q"⟩) (.apply (.reduce .sum) jumps), .interiorFaces ⟨"q"⟩)]
    ∧ LosesTypes [jumps] [(flux (.sum [.component .interior 0, .component .interior 1])
      (.array [u, w]) (.array []), .scalar)] := by
  decide +kernel

end OperatorTemplate
