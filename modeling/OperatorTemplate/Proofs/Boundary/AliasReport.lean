import OperatorTemplate.Proofs.Boundary.Aliasing
import OperatorTemplate.Proofs.Expr.Dependency
/-!
# What the alias check reports

Both sides of a pair are searched for the data that they read, the boundary side through the
arguments of calls, the interior side with calls as wholes.  What is common to the sides, when both
are searched like the boundary side, is `commonData`.

A flux on a pair is rejected for what the two searches share (`sharedData`), by the check as well as
by the rewriting, and from every state (`reportsShared_visit`, `reportsShared_root`).  The crux is how
the two searches are related (`mem_walk_boundary_iff`): what the search of the interior side misses
is in the arguments of the calls that it lists.  So of the common data those are reported that the
interior side reads outside of calls, each once and in the order of the boundary side
(`sharedData_eq_filter`).
-/

namespace OperatorTemplate

variable {interior boundary e d : Expr} {tag : BoundaryTag}

/-! ## The two searches -/

/-- A search through the arguments of calls finds what a search that takes calls as wholes finds,
and what is in the arguments of the calls that the latter lists. -/
theorem mem_walk_boundary_iff (e : Expr) :
    d ∈ boundarySearch.walk e
      ↔ (d ∈ interiorSearch.walk e ∧ boundarySearch.reports d = true)
        ∨ ∃ g arguments, .call g arguments ∈ interiorSearch.walk e
            ∧ d ∈ arguments.flatMap boundarySearch.walk := by
  -- the searches differ at calls alone; everywhere else both stop or both go on
  by_cases hcall : ∃ g arguments, e = .call g arguments
  · obtain ⟨g, arguments, rfl⟩ := hcall
    have whole : interiorSearch.walk (.call g arguments) = [.call g arguments] :=
      DependencySearch.walk_of_reports rfl
    have through : boundarySearch.walk (.call g arguments) = arguments.flatMap boundarySearch.walk :=
      DependencySearch.walk_of_not_reports rfl
    rw [whole, through]
    constructor
    · exact fun h => .inr ⟨g, arguments, List.mem_singleton_self _, h⟩
    · rintro (⟨h, hr⟩ | ⟨g', arguments', h, hd⟩)
      · rw [List.mem_singleton.mp h] at hr
        nomatch hr
      · obtain ⟨rfl, rfl⟩ := Expr.call.inj (List.mem_singleton.mp h)
        exact hd
  have same : interiorSearch.reports e = boundarySearch.reports e := by
    unfold DependencySearch.reports
    split <;> first | rfl | exact absurd ⟨_, _, rfl⟩ hcall
  cases hr : boundarySearch.reports e with
  | true =>
    rw [DependencySearch.walk_of_reports hr, DependencySearch.walk_of_reports (same.trans hr)]
    constructor
    · intro h
      rw [List.mem_singleton.mp h]
      exact .inl ⟨List.mem_singleton_self e, hr⟩
    · rintro (⟨h, -⟩ | ⟨g, arguments, h, -⟩)
      · exact h
      · exact absurd ⟨g, arguments, (List.mem_singleton.mp h).symm⟩ hcall
  | false =>
    rw [DependencySearch.walk_of_not_reports hr, DependencySearch.walk_of_not_reports (same.trans hr)]
    simp only [List.mem_flatMap]
    constructor
    · rintro ⟨c, hc, hd⟩
      rcases (mem_walk_boundary_iff c).mp hd with ⟨h, hr⟩ | ⟨g, arguments, h, hd⟩
      · exact .inl ⟨⟨c, hc, h⟩, hr⟩
      · exact .inr ⟨g, arguments, ⟨c, hc, h⟩, List.mem_flatMap.mp hd⟩
    · rintro (⟨⟨c, hc, h⟩, hr⟩ | ⟨g, arguments, ⟨c, hc, h⟩, hd⟩)
      · exact ⟨c, hc, (mem_walk_boundary_iff c).mpr (.inl ⟨h, hr⟩)⟩
      · exact ⟨c, hc, (mem_walk_boundary_iff c).mpr
          (.inr ⟨g, arguments, h, List.mem_flatMap.mpr hd⟩)⟩
termination_by e.size
decreasing_by all_goals exact Expr.size_lt_of_mem_children hc

/-- The data that both sides of a pair read, when both are searched through the arguments of calls:
each once, in the order of the boundary side. -/
def commonData (interior boundary : Expr) : List Expr :=
  ((boundarySearch.walk boundary).filter (· ∈ boundarySearch.walk interior)).eraseDups

/-- A datum is common if the searches through the arguments of calls come to it on both sides. -/
theorem mem_commonData :
    d ∈ commonData interior boundary
      ↔ d ∈ boundarySearch.walk boundary ∧ d ∈ boundarySearch.walk interior := by
  rw [commonData, List.mem_eraseDups, List.mem_filter, decide_eq_true_iff]

/-- Of the common data, those are shared that the interior side reads outside of calls. -/
theorem sharedData_eq_filter (interior boundary : Expr) :
    sharedData interior boundary
      = (commonData interior boundary).filter (· ∈ interiorSearch.walk interior) := by
  have listed : sharedData interior boundary
      = ((boundarySearch.walk boundary).filter (· ∈ interiorSearch.walk interior)).eraseDups := by
    rw [← filter_eraseDups, ← DependencySearch.collect_eq_eraseDups]
    exact List.filter_congr fun _ _ => decide_eq_decide.mpr DependencySearch.mem_collect_iff
  rw [listed, commonData, filter_eraseDups, List.filter_filter]
  congr 1
  -- what the boundary side lists is no call, so the search that stops at calls finds less of it
  refine List.filter_congr fun d hd => ?_
  rw [← Bool.decide_and]
  refine decide_eq_decide.mpr (iff_self_and.mpr fun h => ?_)
  exact (mem_walk_boundary_iff interior).mpr
    (.inl ⟨h, DependencySearch.reports_of_mem_walk boundary hd⟩)

/-! ## Reports -/

/-- How a flux on a pair is answered whose sides share some data: they are reported, or if there are
none, then nothing but aliased pairs inside of the pair. -/
structure ReportsShared {α : Type} (shared : List Expr) (pair : Expr)
    (answer : Except RewriteError α) : Prop where
  aliased : shared ≠ [] → answer = .error (.aliased shared)
  inside : shared = [] → ∀ data, answer = .error (.aliased data) → pair.AliasedIn (.aliased data)

/-- A pair whose sides share data is rejected for them, all of them in one report. -/
theorem checkPair_of_shared (h : sharedData interior boundary ≠ []) :
    checkPair interior boundary = .error (.aliased (sharedData interior boundary)) := by
  cases hc : checkPair interior boundary with
  | ok => exact absurd (checkPair_eq_ok_iff.mp hc) h
  | error cause => rw [(of_checkPair hc).2]

/-- The check of a flux on a pair reports what the sides share, whatever it has `visited`; if they
share nothing, an aliased pair that it reports is inside. -/
theorem reportsShared_visit (f : Flux) (interior boundary : Expr) (tag : BoundaryTag)
    (visited : List Expr) :
    ReportsShared (sharedData interior boundary) (.pair interior boundary tag)
      ((AliasCheck.visit (.apply (.flux f) (.pair interior boundary tag))).run.run visited).1 := by
  rw [AliasCheck.visit_pairFlux]
  refine ⟨fun h => ?_, fun h data => ?_⟩
  · rw [checkPair_of_shared h]
    rfl
  · rw [checkPair_eq_ok_iff.mpr h]
    have children : Raises (Expr.pair interior boundary tag).AliasedIn
        ((Expr.apply (.flux f) (.pair interior boundary tag)).children.forM AliasCheck.visit) :=
      Raises.forM fun c hc => by
        rw [List.mem_singleton.mp hc]
        exact AliasCheck.raises_visit _
    exact children visited (.aliased data)

/-- The rewriting of a flux on a pair reports what the sides share, whatever it remembers in `s`; if
they share nothing, an aliased pair that it reports is inside. -/
theorem reportsShared_root (f : Flux) (interior boundary : Expr) (tag : BoundaryTag)
    (s : RewriteState) :
    ReportsShared (sharedData interior boundary) (.pair interior boundary tag)
      ((Rewrite.root (.apply (.flux f) (.pair interior boundary tag))).run.run s).1 := by
  rw [Rewrite.root, Expr.recurse_eq]
  refine ⟨fun h => ?_, fun h data failed => ?_⟩
  · show ((Rewrite.fluxOnPair f interior boundary tag _).run.run s).1 = _
    rw [Rewrite.fluxOnPair, checkPair_of_shared h]
    rfl
  · have inputs : Raises (Rewrite.Covered (.pair interior boundary tag))
        (Rewrite.fluxOnPair f interior boundary tag fun x _ => Rewrite.root x) := by
      refine Rewrite.raises_fluxOnPair f interior boundary tag (fun cause hc => ?_)
        (fun _ => Rewrite.covered_of_unaliased) fun x _ hx => ?_
      · exact absurd h (of_checkPair hc).1
      · exact (Rewrite.raises_root x).mono fun _ covered ha => (covered ha).of_partOf hx
    exact inputs s (.aliased data) failed rfl

/-- **The alias check.**  For every flux on a pair, the check and the rewriting report what the sides
of the pair share.  Each shared datum is listed once, in the order in which the boundary side comes
to it.  It is a datum that the searches through the arguments of calls come to on both sides, and it
is read by the interior side outside of calls; so all common data are reported if and only if the
interior side reads all of them outside of calls.  A common datum that is missed is in the arguments
of a call on the interior side. -/
theorem alias_report (f : Flux) (interior boundary : Expr) (tag : BoundaryTag) :
    (∀ visited, ReportsShared (sharedData interior boundary) (.pair interior boundary tag)
      ((AliasCheck.visit (.apply (.flux f) (.pair interior boundary tag))).run.run visited).1)
    ∧ (∀ s, ReportsShared (sharedData interior boundary) (.pair interior boundary tag)
      ((Rewrite.root (.apply (.flux f) (.pair interior boundary tag))).run.run s).1)
    ∧ (sharedData interior boundary).Nodup
    ∧ sharedData interior boundary
        = (commonData interior boundary).filter (· ∈ interiorSearch.walk interior)
    ∧ (sharedData interior boundary = commonData interior boundary
        ↔ ∀ d ∈ commonData interior boundary, d ∈ interiorSearch.walk interior)
    ∧ ∀ d ∈ commonData interior boundary, d ∉ sharedData interior boundary →
        ∃ g arguments, .call g arguments ∈ interiorSearch.walk interior
          ∧ d ∈ arguments.flatMap boundarySearch.walk := by
  have shared := sharedData_eq_filter interior boundary
  refine ⟨reportsShared_visit f interior boundary tag, reportsShared_root f interior boundary tag,
    ?_, shared, ?_, fun d hd missed => ?_⟩
  · rw [shared]
    exact (nodup_eraseDups _).filter _
  · rw [shared, List.filter_eq_self]
    simp only [decide_eq_true_iff]
  · rcases (mem_walk_boundary_iff interior).mp (mem_commonData.mp hd).2 with ⟨h, -⟩ | call
    · rw [shared] at missed
      exact absurd (List.mem_filter.mpr ⟨hd, decide_eq_true h⟩) missed
    · exact call

/-- Both sides read `u`, the interior side in the argument of a call.  Check and rewriting accept the
pair; with the sides exchanged both reject it. -/
theorem accepted_in_call :
    let wall : BoundaryTag := .named "wall"
    let flux (interior boundary : Expr) : Expr :=
      .apply (.flux ⟨.plain, .component .exterior 0⟩) (.pair interior boundary wall)
    let u : Expr := .atom (.variable "u")
    let called : Expr := .call "sin" [u]
    commonData called u = [u]
      ∧ checkBoundaryAliasing [flux called u] = .ok ()
      ∧ (flux called u).rewritten = .ok (flux (.array [called]) (.array [u]))
      ∧ commonData u called = [u]
      ∧ checkBoundaryAliasing [flux u called] = .error (.aliased [u])
      ∧ (flux u called).rewritten = .error (.aliased [u]) := by
  decide +kernel

end OperatorTemplate
