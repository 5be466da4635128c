import OperatorTemplate.Proofs.Boundary.Demands
import OperatorTemplate.Proofs.Boundary.Exposure
import OperatorTemplate.Proofs.Inference.Raise
import OperatorTemplate.Proofs.Inference.Soundness
/-!
# Types on the boundary

What is known of the boundary field of a pair, as far as its translation looks into it.

If the field is boundary data of a final type, whatever is inlined has the same type or is scalar
(`Typed.inlined_type`): arithmetic and common subexpressions hand the type of the node on to
operands that are not scalar.

What the translation lists as a boundary input has a representation of its own
(`Typed.exists_representation`), because costs are: an expensive expression contains an operator
that sets a representation, and no arithmetic hides it (`Typed.exists_of_cost`, the crux).  So a
boundary input is no scalar, and has the type of the field.

Rewriting changes neither what is listed nor what is looked into (`cost_of_rewrites`,
`input?_of_rewrites`).

Last, a node of boundary data answers all that is known of it (`Typed.answer_eq_of_boundary`): its
rule leaves nothing to be learned from elsewhere.
-/

namespace OperatorTemplate

open FieldType

namespace Expr

variable {T : Expr → FieldType} {e y : Expr}

/-! ## Costs -/

/-- The cost of several expressions, after one of `cost`. -/
def costAfter (cost : Bool) (es : List Expr) : Except RewriteError Bool :=
  es.foldlM (fun expensive c => do
    let cost ← c.cost
    return expensive || cost) cost

/-- Nodes that are as expensive as their operands. -/
def IsCompound : Expr → Prop
  | .apply _ _ | .exchange _ _ _ | .shared _ _ => False
  | _ => True

/-- Whether costs go on below a node is read off its head. -/
theorem isCompound_of_head (hh : y.head = e.head) (h : e.IsCompound) : y.IsCompound := by
  cases e with
  | apply _ _ | exchange _ _ _ | shared _ _ => exact h.elim
  | _ =>
    cases y with
    | apply _ _ | exchange _ _ _ | shared _ _ => nomatch hh
    | _ => trivial

/-- The cost of an expression is read off one node, with the costs of smaller ones. -/
theorem cost_eq (e : Expr) : e.cost = e.costStep fun x _ => x.cost := by
  rw [cost, recurse_eq]
  rfl

/-- A compound node costs what its children cost, asked in order, up to the first refusal. -/
theorem cost_of_isCompound (h : e.IsCompound) : e.cost = costAfter false e.children := by
  have all : (e.children.attach.foldlM (fun expensive c => do
      let cost ← c.1.cost
      return expensive || cost) false) = costAfter false e.children := by
    rw [List.foldlM_subtype (g := fun expensive c => do
      let cost ← cost c
      return expensive || cost) (fun _ _ _ => rfl), List.unattach_attach]
    rfl
  rw [cost_eq, ← all]
  cases e with
  | apply _ _ | exchange _ _ _ | shared _ _ => exact h.elim
  | _ => rfl

/-- The cost of `e :: es` after one of `cost` is that of `es` after the two of `cost` and `e`. -/
theorem costAfter_cons {cost result : Bool} {es : List Expr} :
    costAfter cost (e :: es) = .ok result
      ↔ ∃ c, e.cost = .ok c ∧ costAfter (cost || c) es = .ok result := by
  rw [costAfter, List.foldlM_cons, bind_eq_ok]
  constructor
  · rintro ⟨_, h, hr⟩
    obtain ⟨c, hc, h⟩ := bind_eq_ok.mp h
    cases h
    exact ⟨c, hc, hr⟩
  · rintro ⟨c, hc, hr⟩
    exact ⟨_, bind_eq_ok.mpr ⟨c, hc, rfl⟩, hr⟩

/-- If several expressions cost `true` after one of `cost`, then `cost` was `true` or one of them is
expensive. -/
theorem exists_expensive {es : List Expr} {cost : Bool} (h : costAfter cost es = .ok true) :
    cost = true ∨ ∃ c ∈ es, c.cost = .ok true := by
  induction es generalizing cost with
  | nil =>
    cases h
    exact .inl rfl
  | cons e es ih =>
    obtain ⟨c, hc, h⟩ := costAfter_cons.mp h
    rcases ih h with hor | ⟨x, hx, hcost⟩
    · rcases Bool.or_eq_true_iff.mp hor with rfl | rfl
      · exact .inl rfl
      · exact .inr ⟨e, List.mem_cons_self, hc⟩
    · exact .inr ⟨x, List.mem_cons_of_mem _ hx, hcost⟩

/-- Rewritten expressions cost what the expressions do, if that holds of each. -/
theorem costAfter_of_rewrites {es ys : List Expr} (h : List.Forall₂ Rewrites es ys)
    (ih : ∀ e ∈ es, ∀ y c, Rewrites e y → e.cost = .ok c → y.cost = .ok c) {cost result : Bool}
    (hr : costAfter cost es = .ok result) : costAfter cost ys = .ok result := by
  induction h generalizing cost with
  | nil => exact hr
  | cons hey _ ihs =>
    obtain ⟨c, hc, hr⟩ := costAfter_cons.mp hr
    exact costAfter_cons.mpr ⟨c, ih _ List.mem_cons_self _ _ hey hc,
      ihs (fun x hx => ih x (List.mem_cons_of_mem _ hx)) hr⟩

/-- A flux on a pair has no cost: it has no place in a boundary field. -/
theorem isPairFlux_of_cost {c : Bool} (h : e.cost = .ok c) : e.isPairFlux = false := by
  by_contra hp
  obtain ⟨f, interior, boundary, tag, rfl⟩ := exists_of_isPairFlux (by simpa using hp)
  rw [cost_eq] at h
  nomatch h

/-- Rewriting changes no cost: where `e` has the cost `c`, so has what it is rewritten to.  By
induction on the size of `e`; where costs stop, the head alone decides. -/
theorem cost_of_rewrites {e y : Expr} {c : Bool} (h : Rewrites e y) (hc : e.cost = .ok c) :
    y.cost = .ok c := by
  obtain ⟨hh, children⟩ := h.rebuilt (isPairFlux_of_cost hc)
  by_cases hk : e.IsCompound
  · rw [cost_of_isCompound hk] at hc
    rw [cost_of_isCompound (isCompound_of_head hh hk)]
    refine costAfter_of_rewrites children (fun x hx z c hxz hcx => ?_) hc
    have := size_lt_of_mem_children hx
    exact cost_of_rewrites hxz hcx
  · cases e with
    | apply op field =>
      cases y <;> cases hh
      rw [cost_eq] at hc ⊢
      simp only [costStep] at hc ⊢
      cases ho : Costing.ofOperator? op with
      | some cost =>
        rw [ho] at hc
        exact hc
      | none =>
        rw [ho] at hc
        cases hc
    | exchange _ _ _ | shared _ _ =>
      cases y <;> cases hh
      rw [cost_eq] at hc ⊢
      exact hc
    | _ => exact absurd trivial hk
termination_by e.size

/-- A boundary input is rewritten to one.  For a common subexpression this is that the rewritten
body is still expensive. -/
theorem input?_of_rewrites (h : Rewrites e y) (hi : e.input? = some (.exterior, e)) :
    y.input? = some (.exterior, y) := by
  have hp : e.isPairFlux = false := by
    by_contra hp
    obtain ⟨f, interior, boundary, tag, rfl⟩ := exists_of_isPairFlux (by simpa using hp)
    nomatch hi
  obtain ⟨hh, children⟩ := h.rebuilt hp
  cases e with
  | atom a =>
    cases y <;> cases hh
    exact hi
  | subscript _ _ | exchange _ _ _ =>
    cases y <;> cases hh
    rfl
  | apply op field =>
    cases y <;> cases hh
    cases op with
    | exchange _ _ | upsample _ | upsampleBoundary _ _ => rfl
    | _ => nomatch hi
  | shared body label =>
    cases y <;> cases hh
    cases children with
    | cons hb _ =>
      rw [input?] at hi
      split at hi
      next hc => rw [input?, cost_of_rewrites hb hc]
      · nomatch hi
  | _ => nomatch hi

/-! ## Representations -/

/-- The operands of a node that obeys the law of arithmetic, or has the type of its one operand, are
its children, and nothing is asked of them beforehand. -/
theorem mem_demands_of_child {c : Expr} (hl : e.law = .arithmetic ∨ e.law = .same)
    (hc : c ∈ e.children) : (.unknown, c) ∈ e.demands := by
  cases e with
  | sum _ | product _ | quotient _ _ | power _ _ | conditional _ _ _ | ifPositive _ _ _
  | comparison _ _ _ | call _ _ | shared _ _ => exact List.mem_map_of_mem hc
  | atom a =>
    cases a with
    | normal _ _ grid => cases grid <;> exact absurd hl (by rintro (h | h) <;> nomatch h)
    | _ => exact absurd hl (by rintro (h | h) <;> nomatch h)
  | apply op _ => cases op <;> exact absurd hl (by rintro (h | h) <;> nomatch h)
  | domainFlux interiors boundaries =>
    change (if boundaries.all isPair then Law.flux else Law.illegal) = _
      ∨ (if boundaries.all isPair then Law.flux else Law.illegal) = _ at hl
    split at hl <;> exact absurd hl (by rintro (h | h) <;> nomatch h)
  | _ => exact absurd hl (by rintro (h | h) <;> nomatch h)

/-- What has a representation is no scalar. -/
theorem not_scalar_of_represented {t : FieldType} {r : Representation} (h : .represented r ≤ t) :
    t ≠ .scalar := fun hs => by
  subst hs
  nomatch le_def.mp h

/-- Arithmetic does not hide the representation `r` of an operand `c`: the node answers at least
`r`. -/
theorem Typed.represented_of_child (h : Typed T e) (hl : e.law = .arithmetic) {c : Expr}
    (hc : c ∈ e.children) {r : Representation} (hr : .represented r ≤ answer T c) :
    .represented r ≤ answer T e := by
  have ho := mem_demands_of_child (.inl hl) hc
  have reading := mem_readings (T := T).mpr ⟨_, ho, rfl⟩
  have law := h.fits.law
  rw [hl] at law
  have hne := not_scalar_of_represented hr
  -- the operand is no scalar, so the node answers the type that is recorded for it
  have some : ¬∀ o ∈ e.readings T, o.answered = .scalar := fun hs => hne (hs _ reading)
  rw [answer_eq, hl]
  dsimp only [Law.answer]
  rw [if_neg some]
  exact hr.trans (law.2 _ reading hne).1

/-- An expensive expression that is well-typed answers a representation.  By induction on size: an
operator that is costly sets one, and a compound node has an expensive child. -/
theorem Typed.exists_of_cost {e : Expr} (h : Typed T e) (hc : e.cost = .ok true) :
    ∃ r, .represented r ≤ answer T e := by
  have child (hcompound : e.IsCompound) : ∃ c ∈ e.children, c.cost = .ok true := by
    rw [cost_of_isCompound hcompound] at hc
    rcases exists_expensive hc with hf | hc
    · nomatch hf
    · exact hc
  have compound (hcompound : e.IsCompound) (hl : e.law = .arithmetic) :
      ∃ r, .represented r ≤ answer T e := by
    obtain ⟨c, hmem, hcost⟩ := child hcompound
    have := size_lt_of_mem_children hmem
    obtain ⟨r, hr⟩ := (h.operand (mem_demands_of_child (.inl hl) hmem)).exists_of_cost hcost
    exact ⟨r, h.represented_of_child hl hmem hr⟩
  have law := h.fits.law
  cases e with
  | atom a =>
    obtain ⟨c, hmem, -⟩ := child trivial
    nomatch hmem
  | subscript _ _ =>
    rw [answer_eq]
    exact ⟨.nodal, law⟩
  | exchange _ _ _ =>
    rw [answer_eq]
    exact ⟨.nodal, represented_le_boundary⟩
  | apply op field =>
    -- the costly operators, each with the representation that it sets
    rw [cost_eq] at hc
    rw [answer_eq]
    cases op with
    | upsample grid =>
      exact ⟨.quadrature grid, (joins_join law.1 (law.2 _ List.mem_cons_self).2).left⟩
    | upsampleInteriorFaces grid => exact ⟨.quadrature grid, .representedFaces grid⟩
    | upsampleBoundary grid tag => exact ⟨.quadrature grid, represented_le_boundary⟩
    | exchange _ _ => exact law.elim
    | _ => nomatch hc
  | shared _ _ =>
    rw [cost_eq] at hc
    nomatch hc
  | pair _ _ _ | array _ => exact law.elim
  | domainFlux interiors boundaries =>
    rw [answer_eq]
    by_cases hb : boundaries.all isPair = true
    · rw [Expr.law, if_pos hb]
      exact ⟨.nodal, .representedVolume .nodal⟩
    · rw [Expr.law, if_neg hb] at law
      exact law.elim
  | _ => exact compound trivial rfl
termination_by e.size

/-- A boundary input that is well-typed has a representation. -/
theorem Typed.exists_representation (h : Typed T e) (hi : e.input? = some (.exterior, e)) :
    ∃ r, .represented r ≤ T e := by
  have law := h.fits.law
  cases e with
  | atom a =>
    cases a with
    | «variable» _ => exact ⟨.nodal, law⟩
    | _ => nomatch hi
  | subscript _ _ => exact ⟨.nodal, law⟩
  | exchange _ _ _ => exact ⟨.nodal, represented_le_boundary.trans law⟩
  | apply op field =>
    cases op with
    | exchange _ _ => exact law.elim
    | upsample grid => exact ⟨.quadrature grid, law.1⟩
    | upsampleBoundary grid tag => exact ⟨.quadrature grid, represented_le_boundary.trans law⟩
    | _ => nomatch hi
  | shared body label =>
    rw [input?] at hi
    split at hi
    next hc =>
      -- a common subexpression with an expensive body, of the type of its body
      have typed : Typed T body := h.operand (o := (.unknown, body)) List.mem_cons_self
      obtain ⟨r, hr⟩ := typed.exists_of_cost hc
      have same : T body = T (.shared body label) := law _ List.mem_cons_self
      exact ⟨r, same ▸ hr.trans typed.answer_le⟩
    · nomatch hi
  | _ => nomatch hi

/-! ## Boundary data -/

/-- A node that has the type of boundary data answers all that is known of it.  One case for each
law; the laws that give volume data do not arise. -/
theorem Typed.answer_eq_of_boundary {tag : BoundaryTag} {r : Representation} (h : Typed T e)
    (hb : T e = .boundary tag r) : answer T e = T e := by
  have law := h.fits.law
  have below := h.answer_le
  rw [answer_eq] at below ⊢
  rw [hb] at law below ⊢
  cases hl : e.law with
  | leaf _ | same => rfl
  | given t =>
    rw [hl] at law
    rcases given_of_law hl with ⟨rfl, -⟩ | hf
    · nomatch le_def.mp law
    · exact (eq_of_isFinal_of_le hf law).symm
  | flux =>
    rw [hl] at law
    nomatch le_def.mp law.1
  | arithmetic =>
    rw [hl] at law
    dsimp only [Law.answer]
    split
    next hs => nomatch le_def.mp (law.1 hs)
    · rfl
  | maximum =>
    obtain ⟨x, rfl⟩ := eq_of_law_maximum hl
    have demanded : FieldType.onVolume ≤ T x := h.fits.demands (.onVolume, x) List.mem_cons_self
    have same := eq_of_isFinal_of_le rfl (law _ List.mem_cons_self).1
    change T x = _ at same
    rw [same] at demanded
    nomatch le_def.mp demanded
  | restrict found =>
    -- the domain comes from the operator, the representation from the operand
    obtain ⟨o, ho⟩ := exists_reading_of_isUnary (T := T) (e := e) (by rw [hl]; rfl)
    rw [hl, ho] at law
    rw [ho]
    obtain ⟨hfound, hops⟩ := law
    obtain ⟨hro, -⟩ := hops o List.mem_cons_self
    cases le_def.mp hfound
    show (FieldType.onBoundary tag).join o.recorded.representationPart = .boundary tag r
    rw [representationPart_eq hro]
    exact Joins.join_eq ⟨onBoundary_le_boundary, represented_le_boundary,
      fun d hd hr => le_of_eq (eq_boundary hd hr).symm⟩
  | upsample grid =>
    -- the representation comes from the operator, the domain from the operand
    obtain ⟨o, ho⟩ := exists_reading_of_isUnary (T := T) (e := e) (by rw [hl]; rfl)
    rw [hl, ho] at law
    rw [ho]
    obtain ⟨hgrid, hops⟩ := law
    obtain ⟨hdo, hdown⟩ := hops o List.mem_cons_self
    cases le_def.mp hgrid
    have joins := joins_join hgrid hdown
    show FieldType.join _ o.recorded.domainPart = _
    have domain : FieldType.onBoundary tag ≤ o.recorded.domainPart :=
      domainPart_mono (a := .onBoundary tag) hdo
    exact eq_boundary (domain.trans joins.right) joins.left
  | illegal =>
    rw [hl] at law
    exact law.elim

/-! ## Inlined data -/

/-- An open node obeys the law of arithmetic, or has the type of its one operand. -/
theorem law_of_isOpen (h : e.IsOpen) : e.law = .arithmetic ∨ e.law = .same := by
  cases e with
  | sum _ | product _ | quotient _ _ | power _ _ | conditional _ _ _ | ifPositive _ _ _
  | comparison _ _ _ | call _ _ => exact .inl rfl
  | shared _ _ => exact .inr rfl
  | _ => exact h.elim

/-- What a translation looks inside obeys the law of arithmetic or that of a common subexpression.
-/
theorem law_of_isTransparent (ht : e.IsTransparent) : e.law = .arithmetic ∨ e.law = .same :=
  law_of_isOpen (isOpen_of_isTransparent ht)

/-- Of the operands of such a node nothing is asked beforehand. -/
theorem demands_of_isTransparent (ht : e.IsTransparent) :
    e.demands = e.children.map (.unknown, ·) := by
  cases e with
  | sum _ | product _ | quotient _ _ | power _ _ | conditional _ _ _ | ifPositive _ _ _
  | comparison _ _ _ | call _ _ | shared _ _ => rfl
  | _ => exact ht.elim

/-- The operand `c` of arithmetic, or of a common subexpression, has the type of the node, where
that is final, or is scalar. -/
theorem Fits.child_type (h : Fits T e) (hl : e.law = .arithmetic ∨ e.law = .same)
    (hf : (T e).isFinal = true) {c : Expr} (hc : c ∈ e.children) (hle : answer T c ≤ T c) :
    T c = T e ∨ T c = .scalar := by
  have reading := mem_readings (T := T).mpr ⟨_, mem_demands_of_child hl hc, rfl⟩
  have law := h.law
  rcases hl with hl | hl
  · rw [hl] at law
    by_cases hs : answer T c = .scalar
    · exact .inr (eq_of_isFinal_of_le rfl (hs ▸ hle))
    · exact .inl (eq_of_isFinal_of_le hf (law.2 _ reading hs).2)
  · rw [hl] at law
    exact .inl (law _ reading)

/-- What is inlined in an expression of a final type has that type, or is scalar. -/
theorem Typed.inlined_type (h : Typed T e) (hf : (T e).isFinal = true) {x : Expr}
    (hx : Inlined x e) : T x = T e ∨ T x = .scalar := by
  induction hx with
  | self => exact .inl rfl
  | @operand c e ht hc hx ih =>
    have typed : Typed T c := h.operand (mem_demands_of_child (law_of_isTransparent ht) hc)
    -- the operand has the type of the node, and the induction goes on with it; or it is scalar,
    -- and what is below it is scalar as well
    rcases h.fits.child_type (law_of_isTransparent ht) hf hc typed.answer_le with same | scalar
    · rw [← same]
      exact ih typed (same ▸ hf)
    · rcases ih typed (by rw [scalar]; rfl) with hxc | hxs
      · exact .inr (hxc.trans scalar)
      · exact .inr hxs

/-- What is inlined is visited. -/
theorem Inlined.visited {x : Expr} (h : Inlined x e) : Visited x e := by
  induction h with
  | self => exact .self
  | operand ht hc _ ih =>
    exact .operand (mem_demands_of_child (law_of_isTransparent ht) hc) ih

end Expr

end OperatorTemplate
