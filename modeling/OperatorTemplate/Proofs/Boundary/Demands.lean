import OperatorTemplate.Inference.LeafDefault
import OperatorTemplate.Proofs.Boundary.MemoFree
import OperatorTemplate.Proofs.Inference.Judgement
/-!
# What rewriting keeps of the typing rules

Typing is stated by laws: every node has a law, and demands something of its operands.  A node that
is no flux on a pair obeys the same law after the rewriting, and asks the same of its rewritten
operands (`law_of_rewritten`, `demands_of_rewritten`).  For it is rebuilt with its head over its
rewritten children, and both law and demands are read off the head and off what kind of node an
operand is.  Of that, three things matter, and rewriting keeps all three: whether an operand is a
pair (`isPair_of_rewrites`), whether it is a leaf (`isDefaultable_of_rewrites`), and what its
components are (`components_of_rewrites`).

A rewritten flux on a pair asks of its inputs what it asks of components (`demands_pairFlux`).
-/

namespace OperatorTemplate.Expr

variable {e y : Expr}

/-! ## Nodes -/

/-- Rewriting, as a relation. -/
abbrev Rewrites (e y : Expr) : Prop := e.rewritten = .ok y

/-- An expression is rewritten to one other. -/
theorem Rewrites.unique {z : Expr} (h : Rewrites e y) (h' : Rewrites e z) : y = z :=
  Except.ok.inj (h.symm.trans h')

/-- A node that is no flux on a pair is rewritten to its head over its rewritten children. -/
theorem Rewrites.rebuilt (h : Rewrites e y) (hp : e.isPairFlux = false) :
    y.head = e.head ∧ List.Forall₂ Rewrites e.children y.children := by
  rw [Rewrites, rewritten_of_not_pairFlux hp] at h
  exact rebuilt_of_mapChildrenM h

theorem rewrites_atom {a : Atom} (h : Rewrites (.atom a) y) : y = .atom a := by
  rw [Rewrites, rewritten_of_not_pairFlux rfl] at h
  exact (Except.ok.inj h).symm

/-- A pair is rewritten to a pair with the same tag, side by side. -/
theorem rewrites_pair {interior boundary : Expr} {tag : BoundaryTag}
    (h : Rewrites (.pair interior boundary tag) y) :
    ∃ a b, y = .pair a b tag ∧ Rewrites interior a ∧ Rewrites boundary b := by
  obtain ⟨hh, hc⟩ := h.rebuilt rfl
  cases y <;> cases hh
  cases hc with
  | cons ha hc =>
    cases hc with
    | cons hb _ => exact ⟨_, _, rfl, ha, hb⟩

/-- Pairs are rewritten to pairs, and nothing else is. -/
theorem isPair_of_rewrites (h : Rewrites e y) : y.isPair = e.isPair := by
  cases e with
  | pair interior boundary tag =>
    obtain ⟨a, b, rfl, -, -⟩ := rewrites_pair h
    rfl
  | _ =>
    cases y with
    | pair a b tag =>
      obtain ⟨_, _, he⟩ := exists_pair_of_rewritten h
      nomatch he
    | _ => rfl

/-- A flux on a pair that does not vanish is rewritten to one. -/
theorem isPairFlux_of_rewrites (h : Rewrites e y) (hp : e.isPairFlux = true) (hz : y ≠ .zero) :
    y.isPairFlux = true := by
  obtain ⟨f, interior, boundary, tag, rfl⟩ := exists_of_isPairFlux hp
  obtain ⟨r⟩ := exists_fluxRewriting h
  rw [(r.emitted hz).2.1]
  rfl

/-- The leaves that defaults may be entered for are rewritten to such leaves, and nothing else is.
-/
theorem isDefaultable_of_rewrites (h : Rewrites e y) : y.isDefaultable = e.isDefaultable := by
  by_cases hp : e.isPairFlux = true
  · obtain ⟨f, interior, boundary, tag, rfl⟩ := exists_of_isPairFlux hp
    -- a flux on a pair becomes a zero or a flux, neither of them such a leaf
    obtain ⟨r⟩ := exists_fluxRewriting h
    have result := r.result
    split at result
    · rw [result]
      rfl
    · rw [result.1]
      rfl
  · obtain ⟨hh, -⟩ := h.rebuilt (by simpa using hp)
    cases e with
    | atom a =>
      cases y <;> cases hh
      rfl
    | subscript _ _ =>
      cases y <;> cases hh
      rfl
    | _ =>
      cases y with
      | atom _ | subscript _ _ => nomatch hh
      | _ => rfl

theorem components_eq_singleton (h : ∀ es, e ≠ .array es) : e.components = [e] := by
  cases e with
  | array es => exact absurd rfl (h es)
  | _ => rfl

/-- The components of an expression are rewritten one by one: an array is rewritten to the array of
its rewritten elements, and nothing else to an array. -/
theorem components_of_rewrites (h : Rewrites e y) :
    List.Forall₂ Rewrites e.components y.components := by
  by_cases hp : e.isPairFlux = true
  · obtain ⟨f, interior, boundary, tag, rfl⟩ := exists_of_isPairFlux hp
    obtain ⟨r⟩ := exists_fluxRewriting h
    have result := r.result
    -- a flux on a pair is not rewritten to an array
    rw [components_eq_singleton (e := y)]
    · exact .cons h .nil
    · intro es hy
      subst hy
      split at result
      · nomatch result
      · nomatch result.1
  · obtain ⟨hh, hc⟩ := h.rebuilt (by simpa using hp)
    cases e with
    | array es =>
      cases y <;> cases hh
      exact hc
    | _ =>
      rw [components_eq_singleton (e := y)]
      · exact .cons h .nil
      · intro es hy
        subst hy
        nomatch hh

/-- The components of rewritten roots are the rewritten components of the roots, in order. -/
theorem components_of_roots {roots roots' : List Expr}
    (h : List.Forall₂ Rewrites roots roots') :
    List.Forall₂ Rewrites (roots.flatMap components) (roots'.flatMap components) := by
  induction h with
  | nil => exact .nil
  | cons h _ ih =>
    rw [List.flatMap_cons, List.flatMap_cons]
    exact List.rel_append (components_of_rewrites h) ih

/-! ## Demands -/

/-- The same is asked of a rewritten operand. -/
def Corresponds (o o' : FieldType × Expr) : Prop := o'.1 = o.1 ∧ Rewrites o.2 o'.2

/-- What is asked of rewritten expressions, the type `t` of each, corresponds to what is asked of
the old ones. -/
theorem corresponds_map (t : FieldType) {xs ys : List Expr} (h : List.Forall₂ Rewrites xs ys) :
    List.Forall₂ Corresponds (xs.map (t, ·)) (ys.map (t, ·)) := by
  rw [List.forall₂_map_left_iff, List.forall₂_map_right_iff]
  exact h.imp fun _ _ hr => ⟨rfl, hr⟩

/-- What is asked of all components of `e`, the type `t` of each, corresponds to what is asked of
those of its rewritten form `y`. -/
theorem demandAll_of_rewrites (t : FieldType) (h : Rewrites e y) :
    List.Forall₂ Corresponds (demandAll t e) (demandAll t y) :=
  corresponds_map t (components_of_rewrites h)

/-- What is asked of the sides of a pair corresponds to what is asked of the sides of its rewritten
form. -/
theorem pairDemands_of_rewrites (h : Rewrites e y) :
    List.Forall₂ Corresponds e.pairDemands y.pairDemands := by
  have same := isPair_of_rewrites h
  cases e with
  | pair interior boundary tag =>
    obtain ⟨a, b, rfl, ha, hb⟩ := rewrites_pair h
    exact List.rel_append (demandAll_of_rewrites _ ha) (demandAll_of_rewrites _ hb)
  | _ =>
    cases y with
    | pair _ _ _ => nomatch same
    | _ => exact .nil

theorem corresponds_flatMap {f : Expr → List (FieldType × Expr)}
    (hf : ∀ x z, Rewrites x z → List.Forall₂ Corresponds (f x) (f z)) {xs ys : List Expr}
    (h : List.Forall₂ Rewrites xs ys) : List.Forall₂ Corresponds (xs.flatMap f) (ys.flatMap f) := by
  induction h with
  | nil => exact .nil
  | cons h _ ih =>
    rw [List.flatMap_cons, List.flatMap_cons]
    exact List.rel_append (hf _ _ h) ih

/-- The contributions to a domain flux are rewritten one by one, on both sides. -/
theorem rewrites_domainFlux {interiors boundaries : List Expr}
    (h : Rewrites (.domainFlux interiors boundaries) y) :
    ∃ as bs, y = .domainFlux as bs ∧ List.Forall₂ Rewrites interiors as
      ∧ List.Forall₂ Rewrites boundaries bs := by
  obtain ⟨hh, hc⟩ := h.rebuilt rfl
  cases y with
  | domainFlux as bs =>
    have hlen : as.length = interiors.length := Head.domainFlux.inj hh
    have his := List.forall₂_take interiors.length hc
    have hbs := List.forall₂_drop interiors.length hc
    simp only [children] at his hbs
    rw [List.take_left, ← hlen, List.take_left] at his
    rw [List.drop_left, ← hlen, List.drop_left] at hbs
    exact ⟨as, bs, rfl, his, hbs⟩
  | _ => nomatch hh

/-- A node that is no flux on a pair asks the same of its rewritten operands, in the same order. -/
theorem demands_of_rewritten (hp : e.isPairFlux = false) (h : Rewrites e y) :
    List.Forall₂ Corresponds e.demands y.demands := by
  obtain ⟨hh, hc⟩ := h.rebuilt hp
  cases e with
  | atom _ | subscript _ _ | pair _ _ _ | array _ =>
    cases y <;> cases hh
    exact .nil
  | apply op field =>
    cases y <;> cases hh
    cases hc with
    | cons hfield _ =>
      cases op with
      | flux f =>
        -- a flux on a field: the rewritten field is no pair either
        have same := isPair_of_rewrites hfield
        have hn : field.isPair = false := by
          cases field with
          | pair _ _ _ => nomatch hp
          | _ => rfl
        show List.Forall₂ Corresponds (fluxDemands _) (fluxDemands _)
        rw [fluxDemands, fluxDemands, hn, same.trans hn]
        exact demandAll_of_rewrites _ hfield
      | _ => exact .cons ⟨rfl, hfield⟩ .nil
  | exchange index rank arguments =>
    cases y <;> cases hh
    exact corresponds_map _ hc
  | domainFlux interiors boundaries =>
    obtain ⟨as, bs, rfl, has, hbs⟩ := rewrites_domainFlux h
    exact List.rel_append (corresponds_flatMap (fun _ _ => demandAll_of_rewrites _) has)
      (corresponds_flatMap (fun _ _ => pairDemands_of_rewrites) hbs)
  | _ =>
    cases y <;> cases hh
    exact corresponds_map _ hc

/-- A node that is no flux on a pair keeps its law. -/
theorem law_of_rewritten (hp : e.isPairFlux = false) (h : Rewrites e y) : y.law = e.law := by
  obtain ⟨hh, -⟩ := h.rebuilt hp
  cases e with
  | domainFlux interiors boundaries =>
    obtain ⟨as, bs, rfl, -, hbs⟩ := rewrites_domainFlux h
    -- the law of a flux of a whole domain asks whether its boundary contributions are pairs
    have same : bs.all isPair = boundaries.all isPair := by
      clear h hp hh
      induction hbs with
      | nil => rfl
      | cons h _ ih => rw [List.all_cons, List.all_cons, ih, isPair_of_rewrites h]
    rw [law, law, same]
  | _ =>
    cases y <;> cases hh
    rfl

/-! ## Fluxes on pairs -/

theorem law_pairFlux (f : Flux) (interior boundary : Expr) (tag : BoundaryTag) :
    (Expr.apply (.flux f) (.pair interior boundary tag)).law = .flux := rfl

theorem demands_pairFlux (f : Flux) (interior boundary : Expr) (tag : BoundaryTag) :
    (Expr.apply (.flux f) (.pair interior boundary tag)).demands
      = demandAll .onInteriorFaces interior ++ demandAll (.onBoundary tag) boundary := rfl

end OperatorTemplate.Expr
