import OperatorTemplate.Proofs.Boundary.Denotation
/-!
# The alias check covers the rewriting

Aliased pairs are looked for twice: by the check, which goes through the roots before anything is
done to them, and by the rewriting, at each flux on a pair that it gets to.

The check is exact.  It accepts some roots if and only if no flux on a pair, anywhere in them, is
aliased (`checkBoundaryAliasing_eq_ok_iff`), and when it rejects them it reports such a flux
(`exists_of_checkBoundaryAliasing`).  The crux is the memory: a common subexpression is remembered
*before* its body is checked, so what the check has visited is no proof that it is in order.  But
inside a body there is nothing as big as the common subexpression around it.  So the invariant
speaks of sizes: all that is remembered and smaller than `bound` is in order
(`Cleared bound visited`), where `bound` exceeds the size of what is visited next.  A visit hands it
on: it finds its expression in order, and whatever it has added to the memory is in order as well
(`Clears`, `clears_visit`).

The rewriting reports an aliased pair only where there is one (`raises_root`): the inputs that it
goes on to are parts of the pair, however the translation came by them, and neither costs nor
translations report any (`Translate.raises_expr`).  So from roots that the check accepts it never
does, in whatever order they are given (`not_aliased_of_check`).
-/

namespace OperatorTemplate

/-! ## Aliased pairs -/

/-- A pair passes exactly if its sides share no data. -/
theorem checkPair_eq_ok_iff {interior boundary : Expr} :
    checkPair interior boundary = .ok () ↔ sharedData interior boundary = [] := by
  unfold checkPair
  split
  next h => exact ⟨fun _ => h, fun _ => rfl⟩
  next h => exact ⟨nofun, fun hs => absurd hs h⟩

/-- A pair that does not pass is reported as aliased, with all the data that its sides share. -/
theorem of_checkPair {interior boundary : Expr} {cause : RewriteError}
    (h : checkPair interior boundary = .error cause) :
    sharedData interior boundary ≠ [] ∧ cause = .aliased (sharedData interior boundary) := by
  unfold checkPair at h
  split at h
  next => nomatch h
  next hs => exact ⟨hs, (Except.error.inj h).symm⟩

namespace Expr

/-- The data that both sides of the pair read, if the expression is a flux on a pair. -/
def aliasing : Expr → List Expr
  | .apply (.flux _) (.pair interior boundary _) => sharedData interior boundary
  | _ => []

/-- No flux on a pair, anywhere in the expression, is aliased. -/
def Apart (e : Expr) : Prop := ∀ x, PartOf x e → x.aliasing = []

/-- The error reports an aliased flux on a pair that is somewhere in the expression. -/
def AliasedIn (e : Expr) (cause : RewriteError) : Prop :=
  ∃ x, PartOf x e ∧ x.aliasing ≠ [] ∧ cause = .aliased x.aliasing

/-- A node that is no aliased flux itself is in order if its children are. -/
theorem Apart.of_children {e : Expr} (he : e.aliasing = []) (hc : ∀ c ∈ e.children, c.Apart) :
    e.Apart := by
  intro x hx
  cases hx with
  | self => exact he
  | operand hce hx => exact hc _ hce x hx

theorem Apart.not_aliasedIn {e : Expr} (h : e.Apart) {cause : RewriteError} :
    ¬e.AliasedIn cause := fun ⟨x, hx, hne, _⟩ => hne (h x hx)

/-- What is aliased in a part of `e` is aliased in `e`. -/
theorem AliasedIn.of_partOf {c e : Expr} (hc : PartOf c e) {cause : RewriteError}
    (h : c.AliasedIn cause) : e.AliasedIn cause := by
  obtain ⟨x, hx, h⟩ := h
  exact ⟨x, hx.trans hc, h⟩

/-- A flux on a pair that does not pass is reported truly. -/
theorem aliasedIn_pairFlux {f : Flux} {interior boundary : Expr} {tag : BoundaryTag}
    {cause : RewriteError} (h : checkPair interior boundary = .error cause) :
    (Expr.apply (.flux f) (.pair interior boundary tag)).AliasedIn cause :=
  ⟨_, .self, of_checkPair h⟩

theorem aliasing_of_not_pairFlux {e : Expr} (h : e.isPairFlux = false) : e.aliasing = [] := by
  unfold aliasing
  split
  · nomatch h
  · rfl

end Expr

/-! ## Visits of the check -/

namespace AliasCheck

/-- The check of one expression. -/
def visit (e : Expr) : AliasCheck Unit := e.recurse step

/-- The children of a node are visited one after the other. -/
theorem children_visit (e : Expr) : children (e := e) (fun x _ => visit x) = e.children.forM visit :=
  calc children (e := e) (fun x _ => visit x)
      = (e.children.attach.map Subtype.val).forM visit := List.forM_map.symm
    _ = e.children.forM visit := by rw [List.attach_map_subtype_val]

/-- A visit of a common subexpression does nothing if it was visited before; else it is remembered,
and then its body is visited. -/
theorem visit_shared (body : Expr) (label : Option String) :
    visit (.shared body label) = (do
      if .shared body label ∈ (← get) then return ()
      else
        modify (.shared body label :: ·)
        [body].forM visit : AliasCheck Unit) := by
  rw [← show (Expr.shared body label).children = [body] from rfl, ← children_visit, visit,
    Expr.recurse_eq]
  rfl

/-- A visit of a flux on a pair checks the pair and then goes inside. -/
theorem visit_pairFlux (f : Flux) (interior boundary : Expr) (tag : BoundaryTag) :
    visit (.apply (.flux f) (.pair interior boundary tag)) = (do
      checkPair interior boundary
      (Expr.apply (.flux f) (.pair interior boundary tag)).children.forM visit :
        AliasCheck Unit) := by
  rw [← children_visit, visit, Expr.recurse_eq]
  rfl

/-- A visit of any other node goes through its children. -/
theorem visit_of_not {e : Expr} (hs : ∀ body label, e ≠ .shared body label)
    (hp : e.isPairFlux = false) : visit e = e.children.forM visit := by
  rw [← children_visit, visit, Expr.recurse_eq]
  unfold step
  split
  · exact absurd rfl (hs _ _)
  · nomatch hp
  · rfl

/-! ### Failure -/

/-- A visit of `e` fails only with a report of an aliased flux on a pair that is in `e`, whatever
was visited before. -/
theorem raises_visit (e : Expr) : Raises e.AliasedIn (visit e) := by
  have below : Raises e.AliasedIn (e.children.forM visit) :=
    Raises.forM fun c hc => (raises_visit c).mono fun _ h => h.of_partOf (.of_child hc)
  by_cases hp : e.isPairFlux
  · obtain ⟨f, interior, boundary, tag, rfl⟩ := Expr.exists_of_isPairFlux hp
    rw [visit_pairFlux]
    exact Raises.bind (Raises.lift fun cause h => Expr.aliasedIn_pairFlux h) fun _ => below
  · by_cases hs : ∃ body label, e = .shared body label
    · obtain ⟨body, label, rfl⟩ := hs
      rw [visit_shared]
      refine Raises.bind Raises.get fun visited => ?_
      split
      · exact Raises.pure _
      · exact Raises.bind (Raises.modify _) fun _ => below
    · rw [visit_of_not (fun body label h => hs ⟨body, label, h⟩) (by simpa using hp)]
      exact below
termination_by e.size
decreasing_by exact Expr.size_lt_of_mem_children hc

/-! ### Success -/

/-- What is visited and smaller than `bound` is in order. -/
def Cleared (bound : Nat) (visited : List Expr) : Prop :=
  ∀ x ∈ visited, x.size < bound → x.Apart

/-- Some expressions are in order, and so is whatever has been visited meanwhile. -/
structure Clears (es visited visited' : List Expr) : Prop where
  apart : ∀ e ∈ es, e.Apart
  fresh : ∀ x ∈ visited', x ∈ visited ∨ x.Apart

variable {bound : Nat} {visited visited' : List Expr}

/-- What a visit has cleared keeps the invariant. -/
theorem Clears.cleared {es : List Expr} (h : Clears es visited visited') (hv : Cleared bound visited) :
    Cleared bound visited' := by
  intro x hx hlt
  rcases h.fresh x hx with hx | hx
  · exact hv x hx hlt
  · exact hx

/-- Visits one after the other clear all their expressions, where each clears its own.  By induction
on the list, with the memory that one visit leaves for the next. -/
theorem clears_forM : {es : List Expr} → {visited visited' : List Expr} →
    (∀ e ∈ es, ∀ {visited visited' : List Expr}, Cleared bound visited →
      (visit e).run.run visited = (.ok (), visited') → Clears [e] visited visited') →
    Cleared bound visited → (es.forM visit).run.run visited = (.ok (), visited') →
    Clears es visited visited'
  | [], _, _, _, _, h => by
    obtain ⟨-, rfl⟩ := run_pure_eq_ok.mp h
    exact ⟨nofun, fun _ hx => .inl hx⟩
  | e :: es, _, _, each, hv, h => by
    obtain ⟨⟨⟩, between, hfirst, hrest⟩ := run_bind_eq_ok.mp h
    have first := each e List.mem_cons_self hv hfirst
    have rest := clears_forM (fun x hx => each x (List.mem_cons_of_mem e hx)) (first.cleared hv) hrest
    refine ⟨fun x hx => ?_, fun x hx => ?_⟩
    · -- the first is in order by its own visit, the others by theirs
      rcases List.mem_cons.mp hx with rfl | hx
      · exact first.apart _ List.mem_cons_self
      · exact rest.apart x hx
    · rcases rest.fresh x hx with hx | hx
      · exact first.fresh x hx
      · exact .inr hx

/-- A visit of `e` that succeeds finds `e` in order, if what is remembered and smaller than `bound`
is, for a `bound` that `e` is smaller than.  By induction on the size of `e`. -/
theorem clears_visit (e : Expr) {bound : Nat} {visited visited' : List Expr} (he : e.size < bound)
    (hv : Cleared bound visited) (h : (visit e).run.run visited = (.ok (), visited')) :
    Clears [e] visited visited' := by
  -- below a node, what is as big as the node plays no role
  have below {visited : List Expr} (hv : Cleared e.size visited)
      (h : (e.children.forM visit).run.run visited = (.ok (), visited')) :
      Clears e.children visited visited' :=
    clears_forM (fun c hc _ _ hv h => clears_visit c (Expr.size_lt_of_mem_children hc) hv h) hv h
  have smaller : Cleared e.size visited := fun x hx hlt => hv x hx (Nat.lt_trans hlt he)
  have node {visited : List Expr} (hn : e.aliasing = []) (hc : Clears e.children visited visited') :
      Clears [e] visited visited' := by
    refine ⟨fun x hx => ?_, hc.fresh⟩
    rw [List.mem_singleton.mp hx]
    exact .of_children hn hc.apart
  by_cases hp : e.isPairFlux
  · -- a flux on a pair: the pair passes, and what is inside is cleared by the visit below
    obtain ⟨f, interior, boundary, tag, rfl⟩ := Expr.exists_of_isPairFlux hp
    rw [visit_pairFlux] at h
    obtain ⟨⟨⟩, between, hcheck, hrest⟩ := run_bind_eq_ok.mp h
    cases hpair : checkPair interior boundary with
    | error cause =>
      rw [hpair] at hcheck
      nomatch congrArg Prod.fst hcheck
    | ok =>
      rw [hpair] at hcheck
      obtain ⟨-, rfl⟩ := run_pure_eq_ok.mp hcheck
      exact node (checkPair_eq_ok_iff.mp hpair) (below smaller hrest)
  · by_cases hs : ∃ body label, e = .shared body label
    · obtain ⟨body, label, rfl⟩ := hs
      rw [visit_shared, run_get_bind] at h
      split at h
      next hmem =>
        -- it was visited before, so it is in order: it is smaller than the bound
        obtain ⟨-, rfl⟩ := run_pure_eq_ok.mp h
        refine ⟨fun x hx => ?_, fun _ hx => .inl hx⟩
        rw [List.mem_singleton.mp hx]
        exact hv _ hmem he
      next =>
        -- the entry that it makes for itself is too big to be met in its body
        have marked : Cleared (Expr.shared body label).size (.shared body label :: visited) := by
          intro x hx hlt
          rcases List.mem_cons.mp hx with rfl | hx
          · exact absurd hlt (Nat.lt_irrefl _)
          · exact smaller x hx hlt
        have done := node (Expr.aliasing_of_not_pairFlux rfl) (below marked h)
        have self : (Expr.shared body label).Apart := done.apart _ List.mem_cons_self
        refine ⟨done.apart, fun x hx => ?_⟩
        -- what the body has added is in order, and so is, by now, the subexpression itself
        rcases done.fresh x hx with hx | hx
        · rcases List.mem_cons.mp hx with rfl | hx
          · exact .inr self
          · exact .inl hx
        · exact .inr hx
    · have hp : e.isPairFlux = false := by simpa using hp
      rw [visit_of_not (fun body label h => hs ⟨body, label, h⟩) hp] at h
      exact node (Expr.aliasing_of_not_pairFlux hp) (below smaller h)
termination_by e.size
decreasing_by exact Expr.size_lt_of_mem_children hc

end AliasCheck

/-! ## The check -/

/-- A check that fails reports an aliased flux on a pair that is in one of the roots. -/
theorem exists_of_checkBoundaryAliasing {roots : List Expr} {cause : RewriteError}
    (h : checkBoundaryAliasing roots = .error cause) : ∃ root ∈ roots, root.AliasedIn cause :=
  Raises.forM (P := fun cause => ∃ root ∈ roots, root.AliasedIn cause)
    (fun root hr => (AliasCheck.raises_visit root).mono fun _ h => ⟨root, hr, h⟩) [] cause h

/-- The check accepts some roots exactly if no flux on a pair in them is aliased. -/
theorem checkBoundaryAliasing_eq_ok_iff {roots : List Expr} :
    checkBoundaryAliasing roots = .ok () ↔ ∀ root ∈ roots, root.Apart := by
  constructor
  · intro h
    cases hr : (roots.forM AliasCheck.visit).run.run [] with
    | mk result visited =>
      obtain rfl : result = .ok () := (congrArg Prod.fst hr).symm.trans h
      -- the nodes of all roots together bound the size of each
      have bounded (e : Expr) (he : e ∈ roots) : e.size < Expr.sizeAll roots + 1 :=
        Nat.lt_succ_of_le (Expr.size_le_sizeAll he)
      have start : AliasCheck.Cleared (Expr.sizeAll roots + 1) [] := fun _ hx => nomatch hx
      exact (AliasCheck.clears_forM
        (fun e he _ _ hv h => AliasCheck.clears_visit e (bounded e he) hv h) start hr).apart
  · intro h
    cases hr : checkBoundaryAliasing roots with
    | ok => rfl
    | error cause =>
      obtain ⟨root, hroot, hc⟩ := exists_of_checkBoundaryAliasing hr
      exact absurd hc (h root hroot).not_aliasedIn

/-! ## Rewriting -/

/-- The error reports an aliased pair. -/
def RewriteError.isAliased : RewriteError → Bool
  | .aliased _ => true
  | _ => false

/-- No aliased pair is reported. -/
abbrev Unaliased (cause : RewriteError) : Prop := cause.isAliased = false

/-- A question about costs reports no aliased pairs: it fails for operators alone. -/
theorem Costing.raises_isExpensive (e : Expr) : Raises Unaliased e.isExpensive := by
  rw [Expr.isExpensive, Expr.recurse_eq]
  refine Raises.bind Raises.get fun memory => ?_
  split
  · exact Raises.pure _
  · refine Raises.bind ?_ fun _ => Raises.bind (Raises.modify _) fun _ => Raises.pure _
    unfold classify
    split
    · split
      · exact Raises.pure _
      · exact Raises.throw rfl
    · exact Raises.pure _
    · exact Raises.pure _
    · exact Raises.foldlM (fun _ c _ =>
        Raises.bind (raises_isExpensive c.1) fun _ => Raises.pure _) false
termination_by e.size
decreasing_by exact Expr.size_lt_of_attached c

namespace Translate

variable {tag : BoundaryTag}

theorem raises_volumeInput (e : Expr) : Raises Unaliased (volumeInput e) := nofun

theorem raises_boundaryInput (e : Expr) : Raises Unaliased (boundaryInput e) := nofun

theorem raises_isExpensive (e : Expr) : Raises Unaliased (isExpensive e) :=
  fun s cause h => Costing.raises_isExpensive e s.costs cause h

theorem raises_checkTag (carrier : TagCarrier) (found : BoundaryTag) :
    Raises Unaliased (checkTag tag carrier found) := by
  unfold checkTag
  split
  · exact Raises.pure _
  · exact Raises.throw rfl

/-- A common subexpression fails where its rewriting does. -/
theorem raises_once {e : Expr} {translation : Translate Kernel}
    (h : Raises Unaliased translation) : Raises Unaliased (once e translation) := by
  refine Raises.bind Raises.get fun s => ?_
  split
  · exact Raises.pure _
  · exact Raises.bind h fun _ => Raises.bind (Raises.modify _) fun _ => Raises.pure _

/-- The translation of an application fails for its tag or its operator alone. -/
theorem raises_application (op : Operator) (field : Expr) :
    Raises Unaliased (application tag op field) := by
  unfold application
  split
  · exact Raises.bind (raises_checkTag _ _) fun _ => raises_volumeInput _
  · exact Raises.bind (raises_checkTag _ _) fun _ => raises_boundaryInput _
  · exact Raises.bind (raises_checkTag _ _) fun _ => raises_boundaryInput _
  · split
    · exact Raises.bind (raises_checkTag _ _) fun _ => raises_boundaryInput _
    · exact raises_boundaryInput _
  · exact Raises.throw rfl

theorem raises_atom : (a : Atom) → Raises Unaliased (atom tag a)
  | .variable _ => raises_boundaryInput _
  | .normal _ _ _ => Raises.bind (raises_checkTag _ _) fun _ => Raises.pure _
  | .constant _ | .parameter _ => Raises.pure _
  | .kernelNormal _ | .coordinate _ _ | .ones _ | .jacobian _ | .forwardMetric _ _
  | .inverseMetric _ _ => Raises.throw rfl

mutual
/-- The translation of an expression reports no aliased pairs. -/
theorem raises_expr : (e : Expr) → Raises Unaliased (expr tag e)
  | .atom a => raises_atom a
  | .subscript _ _ | .exchange _ _ _ => raises_boundaryInput _
  | .apply op field => raises_application op field
  | .shared body _ =>
    raises_once (Raises.bind (raises_isExpensive body) fun cost => by
      split
      · exact raises_boundaryInput _
      · exact raises_expr body)
  | .sum es | .product es | .call _ es => Raises.bind (raises_all es) fun _ => Raises.pure _
  | .quotient a b | .power a b | .comparison a _ b =>
    Raises.bind (raises_expr a) fun _ => Raises.bind (raises_expr b) fun _ => Raises.pure _
  | .conditional c a b | .ifPositive c a b =>
    Raises.bind (raises_expr c) fun _ => Raises.bind (raises_expr a) fun _ =>
      Raises.bind (raises_expr b) fun _ => Raises.pure _
  | .pair _ _ _ | .array _ | .domainFlux _ _ => Raises.throw rfl

/-- The same for several expressions. -/
theorem raises_all : (es : List Expr) → Raises Unaliased (all tag es)
  | [] => Raises.pure _
  | e :: es => Raises.bind (raises_expr e) fun _ => Raises.bind (raises_all es) fun _ => Raises.pure _
end

end Translate

/-- A substitution that fails reports a position that is out of range, not an aliased pair. -/
theorem unaliased_of_substituteBoundary {kernel : Kernel} {replacements : List Kernel}
    {cause : RewriteError} (h : kernel.substituteBoundary replacements = .error cause) :
    Unaliased cause := by
  unfold Kernel.substituteBoundary at h
  split at h
  · cases h
    rfl
  · nomatch h

namespace Rewrite

/-- If the error reports an aliased pair, it is one in the expression. -/
abbrev Covered (e : Expr) (cause : RewriteError) : Prop := cause.isAliased = true → e.AliasedIn cause

/-- An error that reports no aliased pair has nothing to account for. -/
theorem covered_of_unaliased {e : Expr} {cause : RewriteError} (h : Unaliased cause) :
    Covered e cause := fun h' => by
  rw [h] at h'
  nomatch h'

theorem raises_once {P : RewriteError → Prop} {e : Expr} {result : Rewrite Expr}
    (h : Raises P result) : Raises P (once e result) := by
  refine Raises.bind Raises.get fun s => ?_
  split
  · exact Raises.pure _
  · exact Raises.bind h fun _ => Raises.bind (Raises.modify _) fun _ => Raises.pure _

/-- The rewriting of a flux on a pair fails where the check of the pair does, without an aliased
pair, or where the rewriting of an input does; the inputs are parts of the pair. -/
theorem raises_fluxOnPair {P : RewriteError → Prop} (f : Flux) (interior boundary : Expr)
    (tag : BoundaryTag) {rewrite : Expr.Descent (Rewrite Expr) (.pair interior boundary tag)}
    (pair : ∀ cause, checkPair interior boundary = .error cause → P cause)
    (unaliased : ∀ cause, Unaliased cause → P cause)
    (ih : ∀ x h, Expr.PartOf x (.pair interior boundary tag) → Raises P (rewrite x h)) :
    Raises P (fluxOnPair f interior boundary tag rewrite) := by
  unfold fluxOnPair
  refine Raises.bind (Raises.lift pair) fun _ => ?_
  refine Raises.bind Raises.get fun s => ?_
  have parts := allInputs_partOf s.costs interior boundary tag
  refine Raises.bind (Raises.modify _) fun _ => ?_
  refine Raises.bind (Raises.lift fun cause h => unaliased cause
    (Translate.raises_all _ _ cause h)) fun kernels => ?_
  refine Raises.bind (Raises.lift fun cause h => unaliased cause
    (unaliased_of_substituteBoundary h)) fun kernel => ?_
  refine Raises.bind (Raises.modify _) fun _ => ?_
  split
  · exact Raises.pure _
  · exact Raises.bind (Raises.mapM fun x _ => ih x.1 _ (parts.1 x.1 x.2)) fun _ =>
      Raises.bind (Raises.mapM fun x _ => ih x.1 _ (parts.2 x.1 x.2)) fun _ => Raises.pure _

/-- If the rewriting of `e` reports an aliased pair, it is one in `e`, whatever was rewritten
before. -/
theorem raises_root (e : Expr) : Raises (Covered e) (root e) := by
  have part {x : Expr} (hx : Expr.PartOf x e) (_ : x.size < e.size) :
      Raises (Covered e) (root x) :=
    (raises_root x).mono fun _ h ha => (h ha).of_partOf hx
  have rebuild : Raises (Covered e) (e.rebuild fun x _ => root x) :=
    Raises.mapChildrenM fun c hc => part (.of_child hc) (Expr.size_lt_of_mem_children hc)
  rw [root, Expr.recurse_eq]
  by_cases hp : e.isPairFlux
  · -- a flux on a pair: the pair itself, or something in an input
    obtain ⟨f, interior, boundary, tag, rfl⟩ := Expr.exists_of_isPairFlux hp
    exact raises_fluxOnPair f interior boundary tag (fun _ h _ => Expr.aliasedIn_pairFlux h)
      (fun _ => covered_of_unaliased) fun x h hx =>
        part (.operand List.mem_cons_self hx) (Expr.size_lt_flux h)
  · by_cases hs : ∃ body label, e = .shared body label
    · obtain ⟨body, label, rfl⟩ := hs
      exact raises_once rebuild
    · rw [step_eq_rebuild (fun body label h => hs ⟨body, label, h⟩) (by simpa using hp)]
      exact rebuild
termination_by e.size

end Rewrite

/-- Where `e` cannot be rewritten for an aliased pair, there is one in it. -/
theorem Expr.aliasedIn_of_rewritten {e : Expr} {shared : List Expr}
    (h : e.rewritten = .error (.aliased shared)) : e.AliasedIn (.aliased shared) := by
  have answer := (Rewrite.answers_root e {} RewriteState.valid_init).1
  exact Rewrite.raises_root e {} _ (answer.trans h) rfl

/-- No root of a list that the check accepts is rejected for an aliased pair, whichever roots of the
list were rewritten before it, in whatever order, how often, and with whatever success. -/
theorem not_aliased_of_check {roots given : List Expr}
    (accepted : checkBoundaryAliasing roots = .ok ()) (hg : given ⊆ roots) :
    ∀ answer ∈ ((Rewrite.inTurn given).run {}).1, ∀ shared, answer ≠ .error (.aliased shared) := by
  intro answer ha shared h
  rw [Rewrite.answers_inTurn] at ha
  obtain ⟨root, hroot, hr⟩ := List.mem_map.mp ha
  have apart : root.Apart := checkBoundaryAliasing_eq_ok_iff.mp accepted root (hg hroot)
  exact apart.not_aliasedIn (Expr.aliasedIn_of_rewritten (hr.trans h))

/-- Two roots that the check accepts, one of them three times.  One nests a flux on a pair in the
restricted field, in the upsampled argument and on the interior side of another; the other is
rejected, for the normal in its boundary field. -/
theorem not_aliased_of_check_nested :
    let wall : BoundaryTag := .named "wall"
    let flux (interior boundary : Expr) : Expr :=
      .apply (.flux ⟨.plain, .component .exterior 0⟩) (.pair interior boundary wall)
    let inner : Expr := flux (.atom (.variable "u")) (.atom (.variable "g"))
    let field : Expr := .sum [.apply (.restrict wall) inner,
      .shared (.call "f" [.apply (.upsample ⟨"q"⟩) inner]) none]
    let outer : Expr := flux inner field
    let rejected : Expr := flux inner (.atom (.kernelNormal 0))
    checkBoundaryAliasing [outer, rejected] = .ok ()
      ∧ rejected.rewritten = .error (.bareNormal (.atom (.kernelNormal 0)))
      ∧ ∀ answer ∈ ((Rewrite.inTurn [outer, rejected, outer, outer]).run {}).1,
          ∀ shared, answer ≠ .error (.aliased shared) := by
  intro wall flux inner field outer rejected
  have accepted : checkBoundaryAliasing [outer, rejected] = .ok () := by decide +kernel
  have given : [outer, rejected, outer, outer] ⊆ [outer, rejected] := by simp
  exact ⟨accepted, by decide +kernel, not_aliased_of_check accepted given⟩

end OperatorTemplate
