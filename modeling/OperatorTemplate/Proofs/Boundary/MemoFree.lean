import OperatorTemplate.Boundary.Rewrite
import OperatorTemplate.Proofs.Expr.Fold
/-!
# Rewriting without a memory

Costs and rewritten common subexpressions are remembered across a template.  Beside the functions
with a memory stand two without: `Expr.cost` asks for the cost of every part again, and
`Expr.rewritten` rewrites a common subexpression like any other node and starts the translation of
every pair with nothing known.

A memory is *valid* if it holds answers of the functions without one: every remembered cost of `e`
is `e.cost` (`CostMemory.Valid`), every remembered result for `e` is `e.rewritten`
(`RewriteState.Valid`).  From a valid memory the functions with a memory answer like those without,
successes and errors alike, and leave a valid memory (`answers_isExpensive`, `answers_root`).  Both
proofs are inductions on size: a remembered answer is right by validity, and a new one by the
induction hypotheses, after which it may be remembered.

Between the two stands the translation of a pair.  It takes a memory of costs and hands on a larger
one.  From two states with valid memories that differ in nothing else it gives the same kernels and
the same lists of inputs (`TranslationState.Alike`, `translatePair_alike`).

So everything that is proved of `Expr.rewritten` holds of the rewriting of a template
(`rewriteBoundaryFluxes_eq`), and a rewriter that is given root after root, some of which it
rejects, answers each as if it were the first (`answers_inTurn`).
-/

namespace OperatorTemplate

/-! ## Costs -/

namespace Expr

/-- The cost of a node, from the costs of its children. -/
def costStep : (e : Expr) → Descent (Except RewriteError Bool) e → Except RewriteError Bool
  | .apply op field, _ =>
    match Costing.ofOperator? op with
    | some cost => .ok cost
    | none => .error (.illegalOperator op (.apply op field))
  | .exchange _ _ _, _ => .ok true
  | .shared _ _, _ => .ok false
  | e, cost =>
    e.children.attach.foldlM (fun expensive c => do
      let cost ← cost c.1 (size_lt_of_attached c)
      return expensive || cost) false

/-- Whether evaluating an expression applies an expensive operator, all of it asked anew. -/
def cost (e : Expr) : Except RewriteError Bool := e.recurse costStep

end Expr

/-- A memory of costs that holds the right ones. -/
def CostMemory.Valid (memory : CostMemory) : Prop :=
  ∀ e cost, memory.get? e = some cost → e.cost = .ok cost

theorem CostMemory.valid_empty : CostMemory.Valid .empty := fun _ _ h => nomatch h

/-- A valid memory stays valid when the right cost of `e` is put into it. -/
theorem CostMemory.Valid.insert {memory : CostMemory} (h : memory.Valid) {e : Expr} {cost : Bool}
    (he : e.cost = .ok cost) : CostMemory.Valid (memory.insert e cost) := by
  intro x c hx
  rcases Table.get?_insert_cases hx with ⟨rfl, rfl⟩ | ⟨-, hx⟩
  · exact he
  · exact h x c hx

namespace Costing

/-- The cost of a node is asked of its children, in order, or known from its operator.  If the
children answer from a valid memory as they do without one, so does the node. -/
theorem answers_classify {e : Expr}
    (ih : ∀ c ∈ e.children, Answers CostMemory.Valid c.isExpensive c.cost) :
    Answers CostMemory.Valid (classify e fun x _ => x.isExpensive)
      (e.costStep fun x _ => x.cost) := by
  -- all children are asked, whatever the first ones answer
  have children (x : Bool) : Answers CostMemory.Valid
      (e.children.attach.foldlM (fun expensive c => do
        let cost ← c.1.isExpensive
        return expensive || cost) x)
      (e.children.attach.foldlM (fun expensive c => do
        let cost ← c.1.cost
        return expensive || cost) x) :=
    Answers.foldlM _ (fun _ c _ => Answers.bind (ih c.1 c.2) fun _ _ => Answers.pure _) x
  cases e with
  | apply op field =>
    simp only [classify, Expr.costStep]
    cases ofOperator? op with
    | some cost => exact Answers.pure cost
    | none => exact Answers.throw _
  | exchange _ _ _ | shared _ _ => exact Answers.pure _
  | _ => exact children false

end Costing

/-- A valid memory of costs never shows: asked about `e`, it answers `e.cost` and stays valid. -/
theorem answers_isExpensive (e : Expr) : Answers CostMemory.Valid e.isExpensive e.cost := by
  rw [Expr.isExpensive, Expr.recurse_eq]
  refine Answers.get_bind fun memory hm => ?_
  cases hc : memory.get? e with
  | some cost =>
    rw [hm e cost hc]
    exact Answers.pure cost
  | none =>
    -- nothing is remembered of `e`: the children answer by induction, and the answer is kept
    have step := Costing.answers_classify (e := e) fun c hc => answers_isExpensive c
    rw [show (e.costStep fun x _ => x.cost) = e.cost by rw [Expr.cost, Expr.recurse_eq]; rfl] at step
    rw [← bind_pure e.cost]
    exact Answers.bind step fun cost hcost =>
      Answers.modify_bind (fun _ h => h.insert hcost) (Answers.pure cost)
termination_by e.size
decreasing_by exact Expr.size_lt_of_mem_children hc

/-! ## Translations -/

/-- Two states of a translation that differ in what is remembered of costs alone. -/
structure TranslationState.Alike (s t : TranslationState) : Prop where
  volume : s.volume = t.volume
  boundary : s.boundary = t.boundary
  kernels : s.kernels = t.kernels
  left : s.costs.Valid
  right : t.costs.Valid

namespace Translate

open TranslationState (Alike)

variable {tag : BoundaryTag}

/-- To list an input looks at the list alone, which two alike states share. -/
theorem respects_volumeInput (e : Expr) : Respects Alike (volumeInput e) := by
  intro s t h
  refine ⟨?_, ?_, h.boundary, h.kernels, h.left, h.right⟩
  · show Except.ok (KernelOver.component .interior (register e s.volume).1)
      = .ok (KernelOver.component .interior (register e t.volume).1)
    rw [h.volume]
  · show (register e s.volume).2 = (register e t.volume).2
    rw [h.volume]

theorem respects_boundaryInput (e : Expr) : Respects Alike (boundaryInput e) := by
  intro s t h
  refine ⟨?_, h.volume, ?_, h.kernels, h.left, h.right⟩
  · show Except.ok (KernelOver.component .exterior (register e s.boundary).1)
      = .ok (KernelOver.component .exterior (register e t.boundary).1)
    rw [h.boundary]
  · show (register e s.boundary).2 = (register e t.boundary).2
    rw [h.boundary]

/-- A question about costs is answered alike, for both memories are valid. -/
theorem respects_isExpensive (e : Expr) : Respects Alike (isExpensive e) := by
  intro s t h
  obtain ⟨hs, hs'⟩ := answers_isExpensive e s.costs h.left
  obtain ⟨ht, ht'⟩ := answers_isExpensive e t.costs h.right
  refine ⟨?_, h.volume, h.boundary, h.kernels, hs', ht'⟩
  show (e.isExpensive.run.run s.costs).1 = (e.isExpensive.run.run t.costs).1
  rw [hs, ht]

theorem respects_checkTag (carrier : TagCarrier) (found : BoundaryTag) :
    Respects Alike (checkTag tag carrier found) := by
  unfold checkTag
  split
  · exact Respects.pure _
  · exact Respects.throw _

/-- The kernel that was found before is used again. -/
theorem run_once_of_some {s : TranslationState} {e : Expr} {k : Kernel}
    (translation : Translate Kernel) (h : s.kernels.get? e = some k) :
    (once e translation).run.run s = (.ok k, s) := by
  unfold once
  rw [run_get_bind, h]
  rfl

/-- A kernel that was not found before is translated and kept. -/
theorem run_once_of_none {s : TranslationState} {e : Expr} (translation : Translate Kernel)
    (h : s.kernels.get? e = none) :
    (once e translation).run.run s = (do
      let kernel ← translation
      modify fun s => { s with kernels := s.kernels.insert e kernel }
      return kernel : Translate Kernel).run.run s := by
  unfold once
  rw [run_get_bind, h]

/-- Alike states remember the same kernels, so a common subexpression is looked up in both or
translated in both. -/
theorem respects_once (e : Expr) {translation : Translate Kernel}
    (h : Respects Alike translation) : Respects Alike (once e translation) := by
  intro s t hst
  have hk : s.kernels.get? e = t.kernels.get? e := by rw [hst.kernels]
  have renew : Respects Alike (do
      let kernel ← translation
      modify fun s => { s with kernels := s.kernels.insert e kernel }
      return kernel) :=
    Respects.bind h fun kernel =>
      Respects.bind (Respects.modify fun s t h =>
        ⟨h.volume, h.boundary, congrArg (·.insert e kernel) h.kernels, h.left, h.right⟩)
        fun _ => Respects.pure kernel
  cases hc : t.kernels.get? e with
  | some kernel =>
    rw [run_once_of_some translation (hk.trans hc), run_once_of_some translation hc]
    exact ⟨rfl, hst⟩
  | none =>
    rw [run_once_of_none translation (hk.trans hc), run_once_of_none translation hc]
    exact renew s t hst

/-- The translation of an application is a check and the listing of an input. -/
theorem respects_application (op : Operator) (field : Expr) :
    Respects Alike (application tag op field) := by
  unfold application
  split
  · exact Respects.bind (respects_checkTag _ _) fun _ => respects_volumeInput _
  · exact Respects.bind (respects_checkTag _ _) fun _ => respects_boundaryInput _
  · exact Respects.bind (respects_checkTag _ _) fun _ => respects_boundaryInput _
  · split
    · exact Respects.bind (respects_checkTag _ _) fun _ => respects_boundaryInput _
    · exact respects_boundaryInput _
  · exact Respects.throw _

theorem respects_atom : (a : Atom) → Respects Alike (atom tag a)
  | .variable _ => respects_boundaryInput _
  | .normal _ _ _ => Respects.bind (respects_checkTag _ _) fun _ => Respects.pure _
  | .constant _ | .parameter _ => Respects.pure _
  | .kernelNormal _ | .coordinate _ _ | .ones _ | .jacobian _ | .forwardMetric _ _
  | .inverseMetric _ _ => Respects.throw _

mutual
/-- What is remembered of costs never shows in a translation: from alike states an expression gets
one answer, and the states it ends in are alike. -/
theorem respects_expr : (e : Expr) → Respects Alike (expr tag e)
  | .atom a => respects_atom a
  | .subscript _ _ | .exchange _ _ _ => respects_boundaryInput _
  | .apply op field => respects_application op field
  | .shared body label =>
    respects_once _ (Respects.bind (respects_isExpensive body) fun cost => by
      split
      · exact respects_boundaryInput _
      · exact respects_expr body)
  | .sum es | .product es | .call _ es =>
    Respects.bind (respects_all es) fun _ => Respects.pure _
  | .quotient a b | .power a b | .comparison a _ b =>
    Respects.bind (respects_expr a) fun _ =>
      Respects.bind (respects_expr b) fun _ => Respects.pure _
  | .conditional c a b | .ifPositive c a b =>
    Respects.bind (respects_expr c) fun _ =>
      Respects.bind (respects_expr a) fun _ =>
        Respects.bind (respects_expr b) fun _ => Respects.pure _
  | .pair _ _ _ | .array _ | .domainFlux _ _ => Respects.throw _

/-- The same for several expressions. -/
theorem respects_all : (es : List Expr) → Respects Alike (all tag es)
  | [] => Respects.pure _
  | e :: es =>
    Respects.bind (respects_expr e) fun _ =>
      Respects.bind (respects_all es) fun _ => Respects.pure _
end

end Translate

/-- The translation of a pair does not depend on what is remembered of costs: with any valid memory
its answer is that of the empty one, and so are its lists of inputs. -/
theorem translatePair_alike {costs : CostMemory} (h : costs.Valid) (interior boundary : Expr)
    (tag : BoundaryTag) :
    (translatePair costs interior boundary tag).1 = (translatePair .empty interior boundary tag).1
      ∧ TranslationState.Alike (translatePair costs interior boundary tag).2
        (translatePair .empty interior boundary tag).2 :=
  Translate.respects_all boundary.components _ _ ⟨rfl, rfl, rfl, h, CostMemory.valid_empty⟩

/-! ## Rewriting -/

namespace Expr

/-- The flux on a pair, rewritten, the pair translated with nothing known of costs. -/
def rewrittenFlux (f : Flux) (interior boundary : Expr) (tag : BoundaryTag)
    (rewrite : Descent (Except RewriteError Expr) (.pair interior boundary tag)) :
    Except RewriteError Expr := do
  checkPair interior boundary
  let translation := translatePair .empty interior boundary tag
  have small := allInputs_translatePair .empty interior boundary tag
  let kernel ← f.kernel.substituteBoundary (← translation.1)
  if kernel.isZero then return .zero
  else
    let volume ← translation.2.volume.attach.mapM fun x => rewrite x.1 (small.1 x.1 x.2)
    let boundary ← translation.2.boundary.attach.mapM fun x => rewrite x.1 (small.2 x.1 x.2)
    return .apply (.flux ⟨f.kind, kernel⟩) (.pair (.array volume) (.array boundary) tag)

/-- What happens at one node: a common subexpression is a node like any other. -/
def rewrittenStep :
    (e : Expr) → Descent (Except RewriteError Expr) e → Except RewriteError Expr
  | .apply (.flux f) (.pair interior boundary tag), rewrite =>
    rewrittenFlux f interior boundary tag fun x h => rewrite x (size_lt_flux h)
  | e, rewrite => e.rebuild rewrite

/-- An expression with all its boundary fluxes rewritten, nothing remembered. -/
def rewritten (e : Expr) : Except RewriteError Expr := e.recurse rewrittenStep

/-- A flux on a pair: what rewriting changes. -/
def isPairFlux : Expr → Bool
  | .apply (.flux _) (.pair _ _ _) => true
  | _ => false

/-- A flux on a pair consists of a flux `f`, an interior field, a boundary field and a tag. -/
theorem exists_of_isPairFlux {e : Expr} (h : e.isPairFlux = true) :
    ∃ f interior boundary tag, e = .apply (.flux f) (.pair interior boundary tag) := by
  unfold isPairFlux at h
  split at h
  · exact ⟨_, _, _, _, rfl⟩
  · nomatch h

/-- A flux on a pair is rewritten by `rewrittenFlux`, with `rewritten` itself for the inputs. -/
theorem rewritten_pairFlux (f : Flux) (interior boundary : Expr) (tag : BoundaryTag) :
    (Expr.apply (.flux f) (.pair interior boundary tag)).rewritten
      = rewrittenFlux f interior boundary tag fun x _ => x.rewritten := by
  rw [rewritten, recurse_eq]
  rfl

/-- What a rewritten flux on a pair is made of: the kernels of the boundary components, which are
substituted in its kernel, and the rewritten inputs. -/
structure FluxRewriting (f : Flux) (interior boundary : Expr) (tag : BoundaryTag) (y : Expr) where
  kernels : List Kernel
  kernel : Kernel
  unaliased : checkPair interior boundary = .ok ()
  translated : (translatePair .empty interior boundary tag).1 = .ok kernels
  substituted : f.kernel.substituteBoundary kernels = .ok kernel
  volume : List Expr
  boundaries : List Expr
  result : if kernel.isZero then y = .zero
    else y = .apply (.flux ⟨f.kind, kernel⟩) (.pair (.array volume) (.array boundaries) tag)
      ∧ List.Forall₂ (fun x z => x.rewritten = .ok z)
          (translatePair .empty interior boundary tag).2.volume volume
      ∧ List.Forall₂ (fun x z => x.rewritten = .ok z)
          (translatePair .empty interior boundary tag).2.boundary boundaries

/-- Where a flux on a pair is rewritten to `y`, there are the data of `FluxRewriting`: the pair is
not aliased, the boundary components have kernels, the substitution is in range, and the inputs are
rewritten unless the kernel is zero. -/
theorem exists_fluxRewriting {f : Flux} {interior boundary : Expr} {tag : BoundaryTag} {y : Expr}
    (h : (Expr.apply (.flux f) (.pair interior boundary tag)).rewritten = .ok y) :
    Nonempty (FluxRewriting f interior boundary tag y) := by
  rw [rewritten_pairFlux] at h
  obtain ⟨⟨⟩, hpair, h⟩ := bind_eq_ok.mp h
  obtain ⟨ks, hks, h⟩ := bind_eq_ok.mp h
  obtain ⟨k, hk, h⟩ := bind_eq_ok.mp h
  by_cases hz : k.isZero = true
  · -- the kernel vanishes, and the inputs are not rewritten
    rw [if_pos hz] at h
    cases h
    exact ⟨⟨ks, k, hpair, hks, hk, [], [], by rw [if_pos hz]⟩⟩
  · rw [if_neg hz] at h
    obtain ⟨volume, hv, h⟩ := bind_eq_ok.mp h
    obtain ⟨boundaries, hb, h⟩ := bind_eq_ok.mp h
    cases h
    rw [List.mapM_subtype (g := rewritten) (fun _ _ => rfl), List.unattach_attach] at hv hb
    refine ⟨⟨ks, k, hpair, hks, hk, volume, boundaries, ?_⟩⟩
    rw [if_neg hz]
    exact ⟨rfl, forall₂_of_mapM hv, forall₂_of_mapM hb⟩

/-- What does not vanish is a flux on the pair of the rewritten inputs, with a kernel that is not a
literal zero. -/
theorem FluxRewriting.emitted {f : Flux} {interior boundary : Expr} {tag : BoundaryTag} {y : Expr}
    (r : FluxRewriting f interior boundary tag y) (hy : y ≠ .zero) :
    r.kernel.isZero = false
      ∧ y = .apply (.flux ⟨f.kind, r.kernel⟩) (.pair (.array r.volume) (.array r.boundaries) tag)
      ∧ List.Forall₂ (fun x z => x.rewritten = .ok z)
          (translatePair .empty interior boundary tag).2.volume r.volume
      ∧ List.Forall₂ (fun x z => x.rewritten = .ok z)
          (translatePair .empty interior boundary tag).2.boundary r.boundaries := by
  have result := r.result
  split at result
  next => exact absurd result hy
  next nonzero => exact ⟨Bool.eq_false_iff.mpr nonzero, result⟩

/-- All nodes that are not fluxes on pairs are rebuilt from their rewritten children. -/
theorem rewritten_of_not_pairFlux {e : Expr} (h : e.isPairFlux = false) :
    e.rewritten = e.rebuild fun x _ => x.rewritten := by
  rw [rewritten, recurse_eq]
  unfold rewrittenStep
  split
  · nomatch h
  · rfl

/-- Rewriting makes no pairs: what is rewritten to a pair was a pair, with the same tag. -/
theorem exists_pair_of_rewritten {e interior boundary : Expr} {tag : BoundaryTag}
    (h : e.rewritten = .ok (.pair interior boundary tag)) : ∃ a b, e = .pair a b tag := by
  by_cases hp : e.isPairFlux = true
  · obtain ⟨f, a, b, t, rfl⟩ := exists_of_isPairFlux hp
    obtain ⟨r⟩ := exists_fluxRewriting h
    have result := r.result
    split at result
    · nomatch result
    · nomatch result.1
  · -- a rebuilt node has the head of the old one
    rw [rewritten_of_not_pairFlux (by simpa using hp)] at h
    have head := (rebuilt_of_mapChildrenM h).1
    cases e <;> cases head
    exact ⟨_, _, rfl⟩

/-- Rewriting makes no fluxes on pairs where there were none. -/
theorem not_isPairFlux_of_rewritten {e y : Expr} (hp : e.isPairFlux = false)
    (h : e.rewritten = .ok y) : y.isPairFlux = false := by
  by_cases hy : y.isPairFlux = true
  · obtain ⟨f, a, b, tag, rfl⟩ := exists_of_isPairFlux hy
    rw [rewritten_of_not_pairFlux hp] at h
    -- the old node is a flux on something that was rewritten to a pair, so on a pair
    obtain ⟨head, children⟩ := rebuilt_of_mapChildrenM h
    cases e <;> cases head
    cases children with
    | cons hc _ =>
      obtain ⟨a', b', rfl⟩ := exists_pair_of_rewritten hc
      nomatch hp
  · simpa using hy

end Expr

/-- A memory of rewriting that holds the right costs and the right results. -/
structure RewriteState.Valid (s : RewriteState) : Prop where
  costs : s.costs.Valid
  results : ∀ e y, s.results.get? e = some y → e.rewritten = .ok y

theorem RewriteState.valid_init : RewriteState.Valid {} :=
  ⟨CostMemory.valid_empty, fun _ _ h => nomatch h⟩

namespace Rewrite

/-- A valid memory stays valid when the right result for `e` is put into it. -/
theorem valid_insert {s : RewriteState} (h : s.Valid) {e y : Expr} (he : e.rewritten = .ok y) :
    RewriteState.Valid { s with results := s.results.insert e y } := by
  refine ⟨h.costs, fun x z hx => ?_⟩
  rcases Table.get?_insert_cases hx with ⟨rfl, rfl⟩ | ⟨-, hx⟩
  · exact he
  · exact h.results x z hx

/-- A common subexpression answers as `Expr.rewritten` does, be its result remembered or new. -/
theorem answers_once {e : Expr} {result : Rewrite Expr}
    (h : Answers RewriteState.Valid result e.rewritten) :
    Answers RewriteState.Valid (once e result) e.rewritten := by
  refine Answers.get_bind fun s hs => ?_
  cases hc : s.results.get? e with
  | some y =>
    rw [hs.results e y hc]
    exact Answers.pure y
  | none =>
    rw [← bind_pure e.rewritten]
    exact Answers.bind h fun y hy => Answers.modify_bind (fun _ hs => valid_insert hs hy)
      (Answers.pure y)

/-- The inputs of a pair, which are smaller than `e`, are answered one after the other. -/
theorem answers_all {e : Expr} {rewrite : Expr.Descent (Rewrite Expr) e}
    {answer : Expr → Except RewriteError Expr}
    (ih : ∀ x h, Answers RewriteState.Valid (rewrite x h) (answer x)) (es : List Expr)
    (h : ∀ x ∈ es, x.size < e.size) :
    Answers RewriteState.Valid (all rewrite es h) (es.mapM answer) := by
  have attached : (es.attach.mapM fun x => answer x.1) = es.mapM answer := by
    rw [List.mapM_subtype (g := answer) (fun _ _ => rfl), List.unattach_attach]
  rw [← attached]
  exact Answers.mapM es.attach fun x _ => ih x.1 (h x.1 x.2)

/-- A flux on a pair is answered as `Expr.rewrittenFlux` does, if the rewriting of smaller
expressions answers as `answer`.  The translation leaves more costs in memory, all of them right,
and its lists do not depend on what it found there. -/
theorem answers_fluxOnPair (f : Flux) (interior boundary : Expr) (tag : BoundaryTag)
    {rewrite : Expr.Descent (Rewrite Expr) (.pair interior boundary tag)}
    {answer : Expr → Except RewriteError Expr}
    (ih : ∀ x h, Answers RewriteState.Valid (rewrite x h) (answer x)) :
    Answers RewriteState.Valid (fluxOnPair f interior boundary tag rewrite)
      (Expr.rewrittenFlux f interior boundary tag fun x _ => answer x) := by
  unfold fluxOnPair Expr.rewrittenFlux
  refine Answers.bind (Answers.lift _) fun _ _ => Answers.get_bind fun s hs => ?_
  -- the pair is translated with the costs in memory on one side, with none on the other
  obtain ⟨hkernels, halike⟩ := translatePair_alike hs.costs interior boundary tag
  refine Answers.modify_bind (fun t ht => ⟨halike.left, ht.results⟩) ?_
  dsimp only
  rw [hkernels]
  refine Answers.bind (Answers.lift _) fun kernels _ => Answers.bind (Answers.lift _) fun kernel _ =>
    Answers.modify_bind (fun t ht => ⟨ht.costs, ht.results⟩) ?_
  -- a zero needs no inputs; otherwise both sides rewrite the same two lists
  by_cases hz : kernel.isZero
  · rw [if_pos hz, if_pos hz]
    exact Answers.pure _
  · rw [if_neg hz, if_neg hz]
    rw [List.mapM_subtype (g := answer) (fun _ _ => rfl), List.mapM_subtype (g := answer)
      (fun _ _ => rfl), List.unattach_attach, List.unattach_attach, ← halike.volume, ← halike.boundary]
    exact Answers.bind (answers_all ih _ _) fun _ _ =>
      Answers.bind (answers_all ih _ _) fun _ _ => Answers.pure _

/-- A node that is neither a common subexpression nor a flux on a pair is rebuilt. -/
theorem step_eq_rebuild {e : Expr} (hs : ∀ body label, e ≠ .shared body label)
    (hp : e.isPairFlux = false) (rewrite : Expr.Descent (Rewrite Expr) e) :
    step e rewrite = e.rebuild rewrite := by
  unfold step
  split
  · exact absurd rfl (hs _ _)
  · nomatch hp
  · rfl

/-- What a template remembers of its rewriting never shows: from a valid memory `root e` answers
`e.rewritten`, and the memory it leaves is valid. -/
theorem answers_root (e : Expr) : Answers RewriteState.Valid (root e) e.rewritten := by
  have ih (x : Expr) (_ : x.size < e.size) : Answers RewriteState.Valid (root x) x.rewritten :=
    answers_root x
  have rebuild (h : e.isPairFlux = false) :
      Answers RewriteState.Valid (e.rebuild fun x _ => root x) e.rewritten := by
    rw [Expr.rewritten_of_not_pairFlux h]
    exact Answers.mapChildrenM fun c hc => ih c (Expr.size_lt_of_mem_children hc)
  rw [root, Expr.recurse_eq]
  -- three kinds of nodes: fluxes on pairs, common subexpressions, and all others
  by_cases hp : e.isPairFlux
  · obtain ⟨f, interior, boundary, tag, rfl⟩ := Expr.exists_of_isPairFlux hp
    rw [Expr.rewritten_pairFlux]
    exact answers_fluxOnPair f interior boundary tag fun x h =>
      ih x (Expr.size_lt_flux h)
  · have hp : e.isPairFlux = false := by simpa using hp
    by_cases hs : ∃ body label, e = .shared body label
    · obtain ⟨body, label, rfl⟩ := hs
      exact answers_once (rebuild hp)
    · rw [step_eq_rebuild (fun body label h => hs ⟨body, label, h⟩) hp]
      exact rebuild hp
termination_by e.size

end Rewrite

/-- Rewriting the roots of a template one after the other, with one memory, is rewriting each of
them alone; the first error is that of the first root that has one. -/
theorem rewriteBoundaryFluxes_eq (roots : List Expr) :
    rewriteBoundaryFluxes roots = roots.mapM Expr.rewritten :=
  (Answers.mapM roots (fun e _ => Rewrite.answers_root e) {} RewriteState.valid_init).1

/-! ## Roots in turn -/

namespace Rewrite

/-- Rewrites roots one after the other with what was remembered so far, and goes on after
failures. -/
def inTurn (roots : List Expr) : StateM RewriteState (List (Except RewriteError Expr)) :=
  roots.mapM fun e => (root e).run

/-- From a valid memory, the answers are those of `Expr.rewritten`, and the memory is valid again. -/
theorem run_inTurn (roots : List Expr) {s : RewriteState} (hs : s.Valid) :
    ((inTurn roots).run s).1 = roots.map Expr.rewritten ∧ ((inTurn roots).run s).2.Valid :=
  Answers.inTurn answers_root roots hs

/-- Whatever the roots and however many of them fail, each answer of a rewriter is the one that
rewriting without a memory gives for that root alone. -/
theorem answers_inTurn (roots : List Expr) :
    ((inTurn roots).run {}).1 = roots.map Expr.rewritten :=
  (run_inTurn roots RewriteState.valid_init).1

end Rewrite

end OperatorTemplate
