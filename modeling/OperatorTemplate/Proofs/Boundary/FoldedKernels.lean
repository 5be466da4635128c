import OperatorTemplate.Proofs.Boundary.Need
import OperatorTemplate.Proofs.Kernel.Folded
/-!
# The kernels of translations and of rewritten fluxes are folded

A translation puts kernels together by the folding constructors, from the operands upwards, so what it
gives is folded (`Expr.isFolded_kernel`), however its fields are numbered and whatever it has
remembered of common subexpressions (`Translate.isFolded_of_mem_inTurn`).

The kernel of a flux on a pair is arbitrary.  But what is put for its exterior components is folded,
and a substitution of folded kernels folds the rest; so every flux on a pair that rewriting emits has a
folded kernel, and not a literal zero, for then the flux would be gone (`isFolded_of_rewritten`).
`isFolded_throughout` says all of it.
-/

namespace OperatorTemplate

open OperatorTemplate.Expr

variable {e y volume boundary : Expr} {f : Flux} {tag : BoundaryTag}

/-! ## Translations -/

namespace Expr

/-- A node that is assembled from folded kernels is folded. -/
theorem isFolded_assemble {ι : Type} {ls : List (KernelOver ι)} (h : ∀ l ∈ ls, l.IsFolded)
    (e : Expr) : (e.assemble ls).IsFolded := by
  unfold assemble
  split
  · exact KernelOver.isFolded_sumOf h
  · exact KernelOver.isFolded_productOf h
  · exact KernelOver.isFolded_quotientOf (h _ (by simp)) (h _ (by simp))
  · exact .node trivial h
  · exact .node trivial h
  · exact KernelOver.isFolded_conditionalOf (h _ (by simp)) (h _ (by simp)) (h _ (by simp))
  next c a b =>
    have condition : (KernelOver.comparison c .gt .zero).IsFolded :=
      .node trivial (by simpa [KernelOver.operands] using ⟨h c (by simp), KernelOver.isFolded_zero⟩)
    exact KernelOver.isFolded_conditionalOf condition (h _ (by simp)) (h _ (by simp))
  · exact .node trivial h
  · exact KernelOver.isFolded_zero

/-- The kernel of an expression is folded: arithmetic is assembled from folded operands, and
everything else is a field, a literal, a parameter or a normal. -/
theorem isFolded_kernel (e : Expr) {l : KernelOver Expr} (h : e.kernel tag = .ok l) :
    l.IsFolded := by
  rcases isTransparent_or_of_kernel h with ht | ⟨c, hi⟩ | hf
  · rcases isTransparent_iff.mp ht with ha | ⟨body, label, rfl, hc⟩
    · rw [kernel_of_isArithmetic ha] at h
      obtain ⟨ls, hls, h⟩ := bind_eq_ok.mp h
      cases h
      refine isFolded_assemble (fun l hl => ?_) e
      obtain ⟨d, hd, hdl⟩ := exists_left_of_forall₂ (forall₂_of_kernels hls) hl
      have := size_lt_of_mem_children hd
      exact isFolded_kernel d hdl
    · rw [kernel_shared hc] at h
      have : body.size < (Expr.shared body label).size := size_lt_shared
      exact isFolded_kernel body h
  · rw [kernel_of_input? h hi]
    exact .node trivial nofun
  · rcases hf with ⟨value, rfl⟩ | ⟨name, rfl⟩ | ⟨found, axis, grid, rfl⟩
    · cases h
      exact .node trivial nofun
    · cases h
      exact .node trivial nofun
    · obtain ⟨⟨⟩, -, h⟩ := bind_eq_ok.mp h
      cases h
      exact .node trivial nofun
termination_by e.size

end Expr

/-- A kernel has the form of the one that it names, so it is folded if that one is. -/
theorem TranslationState.Names.isFolded {s : TranslationState} {k : Kernel} {l : KernelOver Expr}
    (names : s.Names k l) (hl : l.IsFolded) : k.IsFolded := by
  have named : (k.mapFields s.input?).IsFolded := by
    rw [names]
    exact (KernelOver.isFolded_mapFields l).mpr hl
  exact (KernelOver.isFolded_mapFields k).mp named

/-- Of expressions that are translated in turn from a valid state, successes and failures, all
kernels are folded. -/
theorem Translate.isFolded_of_mem_inTurn (es : List Expr) {s : TranslationState}
    (hs : s.Valid tag) {k : Kernel} (hk : .ok k ∈ ((inTurn tag es).run s).1) : k.IsFolded := by
  obtain ⟨e, -, l, hl, names⟩ := exists_kernel_of_mem_inTurn es hs hk
  exact names.isFolded (isFolded_kernel e hl)

/-! ## Rewritten fluxes -/

namespace Expr

/-- The kernels of the boundary components are folded. -/
theorem FluxRewriting.isFolded_kernels {interior : Expr} (r : FluxRewriting f interior boundary tag y) :
    ∀ k ∈ r.kernels, k.IsFolded := by
  obtain ⟨ls, sources, names⟩ := exists_kernels_of_translatePair r.translated
  intro k hk
  obtain ⟨l, hl, named⟩ := exists_right_of_forall₂ names hk
  obtain ⟨c, -, hcl⟩ := exists_left_of_forall₂ sources hl
  exact named.isFolded (isFolded_kernel c hcl)

/-- The new kernel of a flux is folded, whatever the old one was: its exterior components are
replaced by folded kernels. -/
theorem FluxRewriting.isFolded_kernel {interior : Expr} (r : FluxRewriting f interior boundary tag y) :
    r.kernel.IsFolded := by
  rw [(Kernel.of_substituteBoundary r.substituted).1]
  refine KernelOver.isFolded_substitute (fun k k' hk => r.isFolded_kernels k' ?_) f.kernel
  unfold Kernel.boundaryReplacement at hk
  split at hk
  · exact List.mem_of_getElem? hk
  · nomatch hk

/-- A flux on a pair that rewriting emits has a folded kernel, which is no literal zero. -/
theorem isFolded_of_rewritten (hp : e.isPairFlux = true)
    (h : e.rewritten = .ok (.apply (.flux f) (.pair volume boundary tag))) :
    f.kernel.IsFolded ∧ f.kernel.isZero = false := by
  obtain ⟨f₀, interior, field, tag', rfl⟩ := exists_of_isPairFlux hp
  obtain ⟨r⟩ := exists_fluxRewriting h
  obtain ⟨nonzero, heq, -, -⟩ := r.emitted nofun
  have hf : f = ⟨f₀.kind, r.kernel⟩ := Operator.flux.inj (Expr.apply.inj heq).1
  have hk : f.kernel = r.kernel := congrArg Flux.kernel hf
  rw [hk]
  exact ⟨r.isFolded_kernel, nonzero⟩

end Expr

/-- **Kernels are folded.**  A substitution of folded kernels folds, whatever it is done in; one that
replaces nothing returns exactly the folded kernels as they are.  All kernels of a translation are
folded, whatever it was given before.  And whatever a rewriter has rewritten before, every flux on a
pair, at any place in what it makes of a root, has a folded kernel that is no literal zero. -/
theorem isFolded_throughout :
    (∀ replace : Kernel → Option Kernel, (∀ k k', replace k = some k' → k'.IsFolded) →
      ∀ k : Kernel, (k.substitute replace).IsFolded)
    ∧ (∀ k : Kernel, k.substitute (fun _ => none) = k ↔ k.IsFolded)
    ∧ (∀ (tag : BoundaryTag) (asked seeds es : List Expr) (k : Kernel),
      .ok k ∈ ((Translate.inTurn tag es).run { costs := .afterAsking asked, volume := seeds }).1 →
        k.IsFolded)
    ∧ (∀ s : RewriteState, s.Reachable → ∀ e y, ((Rewrite.root e).run.run s).1 = .ok y →
      ∀ f volume boundary tag, PartOf (.apply (.flux f) (.pair volume boundary tag)) y →
        f.kernel.IsFolded ∧ f.kernel.isZero = false) := by
  refine ⟨fun replace h k => KernelOver.isFolded_substitute h k,
    fun k => KernelOver.substitute_none_eq_self_iff, ?_, ?_⟩
  · intro tag asked seeds es k hk
    have valid : TranslationState.Valid tag { costs := .afterAsking asked, volume := seeds } :=
      TranslationState.valid_start (CostMemory.valid_afterAsking asked) seeds
    exact Translate.isFolded_of_mem_inTurn es valid hk
  · intro s hs e y h f volume boundary tag hp
    have accepted : e.rewritten = .ok y := (Rewrite.answers_root e s hs.valid).1.symm.trans h
    obtain ⟨x, -, hx, rewritten⟩ := exists_source e accepted hp rfl
    exact isFolded_of_rewritten hx rewritten

end OperatorTemplate
