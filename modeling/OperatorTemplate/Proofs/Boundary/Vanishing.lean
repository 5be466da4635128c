import OperatorTemplate.Proofs.Boundary.Demands
import OperatorTemplate.Proofs.Expr.Parts
/-!
# Vanishing fluxes

A flux on a pair vanishes if it is rewritten to the literal zero.  `withoutVanishing` puts the zero
in its place beforehand, from the innermost nodes outwards.  What is left is rewritten to the same
(`rewrites_withoutVanishing`), and where nothing vanishes it is the old template
(`withoutVanishing_eq_self`).  The zero is scalar, so this is the step of rewriting that changes
types, taken alone.

Inside the fields of another flux, a zero may make two inputs equal, which are then listed once, and
the rewritten flux would differ.  Such a flux is left as it is: at every flux on a pair the simpler
one is taken only if it is rewritten to the same.  So there are three cases at each node
(`withoutVanishing_cases`), and everything said here is proved by them.
-/

namespace OperatorTemplate.Expr

variable {e y : Expr}

/-! ## Rebuilding -/

/-- A node `y` with the head of `e` over the rewritten children of `e` is the rewriting of `e`, if
`e` is no flux on a pair. -/
theorem rewrites_of_rebuilt (hp : e.isPairFlux = false) (hh : y.head = e.head)
    (hc : List.Forall₂ Rewrites e.children y.children) : Rewrites e y := by
  obtain ⟨z, hz⟩ := exists_mapChildrenM (f := rewritten) (e := e) fun c hmem => by
    obtain ⟨d, -, hd⟩ := exists_right_of_forall₂ hc hmem
    exact ⟨d, hd⟩
  obtain ⟨head, children⟩ := rebuilt_of_mapChildrenM hz
  have same : z = y := by
    refine eq_of_head_of_children (head.trans hh.symm) ?_
    exact List.right_unique_forall₂' (fun _ _ _ h h' => Except.ok.inj (h.symm.trans h')) children hc
  rw [Rewrites, rewritten_of_not_pairFlux hp]
  exact same ▸ hz

/-! ## Zeros -/

/-- What happens at one node. -/
def withoutVanishingStep (e : Expr) (simplified : Descent Expr e) : Expr :=
  let simpler := (e.rebuild fun c h => (pure (simplified c h) : Id Expr)).run
  if e.isPairFlux then
    if e.rewritten = .ok .zero then .zero
    else if simpler.rewritten = e.rewritten then simpler
    else e
  else simpler

/-- The zero in the place of fluxes on pairs that vanish; inside the fields of another flux, only if
that flux is rewritten to the same. -/
def withoutVanishing (e : Expr) : Expr := e.recurse withoutVanishingStep

/-- At each node one of three things happens: it is a flux that vanishes and becomes zero, it is
left as it is, or it keeps its head over its simpler operands; and a flux on a pair does the last
only if its rewriting stays the same. -/
theorem withoutVanishing_cases (e : Expr) :
    (e.isPairFlux = true ∧ Rewrites e .zero ∧ e.withoutVanishing = .zero)
      ∨ e.withoutVanishing = e
      ∨ (e.isPairFlux = true → e.withoutVanishing.rewritten = e.rewritten)
        ∧ e.withoutVanishing.head = e.head
        ∧ e.withoutVanishing.children = e.children.map withoutVanishing := by
  have simpler := mapChildrenM_pure withoutVanishing e
  rw [withoutVanishing, recurse_eq, withoutVanishingStep]
  split
  next hp =>
    split
    next hz => exact .inl ⟨hp, hz, rfl⟩
    next =>
      split
      next same => exact .inr (.inr ⟨fun _ => same, simpler⟩)
      next => exact .inr (.inl rfl)
  next hp => exact .inr (.inr ⟨fun h => absurd h hp, simpler⟩)

/-- Nodes with the same head are both pairs or neither is. -/
theorem isPair_of_head (h : y.head = e.head) : y.isPair = e.isPair := by
  cases e with
  | pair _ _ _ =>
    cases y with
    | pair _ _ _ => rfl
    | _ => nomatch h
  | _ =>
    cases y with
    | pair _ _ _ => nomatch h
    | _ => rfl

theorem isPair_withoutVanishing (e : Expr) : e.withoutVanishing.isPair = e.isPair := by
  rcases withoutVanishing_cases e with ⟨-, hz, h⟩ | h | ⟨-, head, -⟩
  · rw [h]
    exact isPair_of_rewrites hz
  · rw [h]
  · exact isPair_of_head head

/-- No fluxes on pairs come about: what is left of a node that is none is none. -/
theorem isPairFlux_withoutVanishing (hp : e.isPairFlux = false) :
    e.withoutVanishing.isPairFlux = false := by
  rcases withoutVanishing_cases e with ⟨-, -, h⟩ | h | ⟨-, head, children⟩
  · rw [h]
    rfl
  · rw [h]
    exact hp
  · -- a flux over a simpler operand that is a pair was one over a pair
    by_contra hflux
    obtain ⟨f, interior, boundary, tag, h⟩ := exists_of_isPairFlux (by simpa using hflux)
    rw [h] at head children
    cases e with
    | apply op field =>
      cases head
      have pair : field.isPair = true := by
        rw [← isPair_withoutVanishing, ← List.singleton_inj.mp children]
        rfl
      cases field with
      | pair _ _ _ => nomatch hp
      | _ => nomatch pair
    | _ => nomatch head

/-! ## What is kept -/

/-- Zeros put in the place of fluxes that vanish do not change what the expression is rewritten to.
-/
theorem rewrites_withoutVanishing {e y : Expr} (h : Rewrites e y) :
    Rewrites e.withoutVanishing y := by
  rcases withoutVanishing_cases e with ⟨-, hz, he⟩ | he | ⟨same, head, children⟩
  · obtain rfl : y = .zero := Except.ok.inj (h.symm.trans hz)
    rw [he, Rewrites, rewritten_of_not_pairFlux rfl]
    rfl
  · exact he.symm ▸ h
  · cases hp : e.isPairFlux with
    | true => exact (same hp).trans h
    | false =>
      -- a node that is no flux on a pair: its operands are rewritten to the same, by induction
      obtain ⟨head', children'⟩ := h.rebuilt hp
      refine rewrites_of_rebuilt (isPairFlux_withoutVanishing hp) (head'.trans head.symm) ?_
      rw [children, List.forall₂_map_left_iff]
      have members := (List.forall₂_and_left (p := (· ∈ e.children)) _ _).mpr
        ⟨fun _ h => h, children'⟩
      refine members.imp ?_
      rintro c d ⟨hc, hr⟩
      have := size_lt_of_mem_children hc
      exact rewrites_withoutVanishing hr
termination_by e.size

/-- Where no part vanishes, nothing is replaced. -/
theorem withoutVanishing_eq_self {e : Expr}
    (h : ∀ x, PartOf x e → x.isPairFlux = true → ¬Rewrites x .zero) : e.withoutVanishing = e := by
  rcases withoutVanishing_cases e with ⟨hp, hz, -⟩ | he | ⟨-, head, children⟩
  · exact absurd hz (h e .self hp)
  · exact he
  · have kept : e.children.map withoutVanishing = e.children.map id :=
      List.map_congr_left fun c hc => by
        have := size_lt_of_mem_children hc
        exact withoutVanishing_eq_self fun x hx => h x (.operand hc hx)
    exact eq_of_head_of_children head (children.trans (kept.trans (List.map_id _)))
termination_by e.size

end OperatorTemplate.Expr
