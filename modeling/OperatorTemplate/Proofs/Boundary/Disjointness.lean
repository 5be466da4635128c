import OperatorTemplate.Proofs.Boundary.Aliasing
import OperatorTemplate.Proofs.Boundary.Demands
import OperatorTemplate.Proofs.Boundary.Need
import OperatorTemplate.Proofs.Boundary.Scoping
import OperatorTemplate.Proofs.Expr.Dependency
/-!
# Whether the sides of rewritten pairs stay apart

The alias check goes through the roots before they are rewritten, and nothing goes through the
result.  Would the check accept the rewritten roots as well?  Not always, for two reasons.  What the
check takes for one datum the rewriting may take apart: a restriction of `g` is a datum of the
boundary side, but its operand `g` becomes a volume input.  And rewriting may make two data equal.
`StaysApart` says of one pair that neither happens, and `checkBoundaryAliasing_rewritten_iff` that
this is exactly what it takes.

The crux is that rewriting commutes with walks (`rewritesData_walk`): the walk through a rewritten
expression lists the rewritten data, but for fluxes that have vanished.  So the walks through the
new inputs are known from the old ones.  A datum that the two new sides share is the rewriting of a
datum `d` of the volume inputs and of a datum `d'` of the boundary inputs.  If `d` and `d'` are the
same, then `d` is read beneath a restriction, since the sides of the old pair were apart.
-/

namespace OperatorTemplate.Expr

variable {search : DependencySearch} {e x y z d interior boundary : Expr} {f : Flux}
  {tag : BoundaryTag}

/-! ## Walks through rewritten expressions -/

/-- Rewriting keeps the head of a node that is no flux on a pair, and so it keeps whether a search
reports the node. -/
theorem reports_of_rewrites (search : DependencySearch) (hp : x.isPairFlux = false)
    (h : Rewrites x y) : search.reports y = search.reports x := by
  obtain ⟨hh, -⟩ := h.rebuilt hp
  cases x with
  | domainFlux _ _ =>
    cases y with
    | domainFlux _ _ => rfl
    | _ => nomatch hh
  | _ =>
    cases y <;> cases hh
    rfl

/-- The new data are the old ones, rewritten, without the zeros. -/
def RewritesData (old new : List Expr) : Prop :=
  ∃ results, List.Forall₂ Rewrites old results ∧ new = results.filter (· ≠ .zero)

namespace RewritesData

variable {old old' new new' : List Expr}

/-- Of no data nothing is left. -/
theorem nil : RewritesData [] [] := ⟨[], .nil, rfl⟩

/-- Two lists of data that are rewritten side by side. -/
theorem append (h : RewritesData old new) (h' : RewritesData old' new') :
    RewritesData (old ++ old') (new ++ new') := by
  obtain ⟨results, hr, rfl⟩ := h
  obtain ⟨results', hr', rfl⟩ := h'
  exact ⟨results ++ results', List.rel_append hr hr', (List.filter_append ..).symm⟩

/-- The new data are the rewritings of the old ones that are not the literal zero. -/
theorem mem_iff (h : RewritesData old new) :
    z ∈ new ↔ z ≠ .zero ∧ ∃ d ∈ old, Rewrites d z := by
  obtain ⟨results, hr, rfl⟩ := h
  rw [List.mem_filter, decide_eq_true_iff, and_comm]
  refine and_congr_right fun _ => ⟨exists_left_of_forall₂ hr, ?_⟩
  rintro ⟨d, hd, hz⟩
  obtain ⟨z', hz', hdz'⟩ := exists_right_of_forall₂ hr hd
  rwa [hz.unique hdz']

/-- Every datum has been rewritten. -/
theorem exists_rewrites (h : RewritesData old new) (hd : d ∈ old) : ∃ z, Rewrites d z := by
  obtain ⟨results, hr, -⟩ := h
  obtain ⟨z, -, hz⟩ := exists_right_of_forall₂ hr hd
  exact ⟨z, hz⟩

/-- If the data of each of `xs` are rewritten to those of the corresponding `ys`, then so are the
data of all of them in order. -/
theorem flatMap {data : Expr → List Expr} {xs ys : List Expr}
    (h : List.Forall₂ (fun x y => RewritesData (data x) (data y)) xs ys) :
    RewritesData (xs.flatMap data) (ys.flatMap data) := by
  induction h with
  | nil => exact nil
  | cons hd _ ih => exact hd.append ih

end RewritesData

/-- Where applications are data, a walk does not look into fluxes on pairs, so it goes through a
rewritten expression as it went through the old one. -/
theorem rewritesData_walk (hs : search.includeApplications = true) (x : Expr) {y : Expr}
    (h : Rewrites x y) : RewritesData (search.walk x) (search.walk y) := by
  -- the old node and the new one are data, so each walk lists its own node alone
  have single (hx : search.reports x = true) (hy : search.reports y = true) :
      RewritesData (search.walk x) (search.walk y) := by
    have nonzero : y ≠ .zero := by
      rintro rfl
      nomatch hy
    have kept : [y].filter (· ≠ .zero) = [y] := List.filter_cons_of_pos (decide_eq_true nonzero)
    rw [DependencySearch.walk_of_reports hx, DependencySearch.walk_of_reports hy]
    exact ⟨[y], .cons h .nil, kept.symm⟩
  by_cases hp : x.isPairFlux = true
  · -- a datum itself: what the rewriting does inside of it does not show, unless it vanishes
    obtain ⟨f, interior, boundary, tag, rfl⟩ := exists_of_isPairFlux hp
    have whole : search.reports (.apply (.flux f) (.pair interior boundary tag)) = true := hs
    obtain ⟨r⟩ := exists_fluxRewriting h
    have result := r.result
    split at result
    · subst result
      have none : search.walk .zero = [] := DependencySearch.walk_of_not_reports rfl
      rw [DependencySearch.walk_of_reports whole, none]
      exact ⟨[.zero], .cons h .nil, rfl⟩
    · refine single whole ?_
      rw [result.1]
      exact hs
  · -- any other node is rebuilt, and the new node is a datum exactly if the old one was
    have hp : x.isPairFlux = false := by simpa using hp
    have same := reports_of_rewrites search hp h
    cases hr : search.reports x with
    | true => exact single hr (same.trans hr)
    | false =>
      rw [DependencySearch.walk_of_not_reports hr, DependencySearch.walk_of_not_reports (same.trans hr)]
      -- neither is, so the walks go on through the children, which are rewritten one by one
      refine RewritesData.flatMap ?_
      have children := (List.forall₂_and_left _ _).mpr ⟨fun c hc => hc, (h.rebuilt hp).2⟩
      refine children.imp fun c c' hc => ?_
      have := size_lt_of_mem_children hc.1
      exact rewritesData_walk hs c hc.2
termination_by x.size

/-- The walk through an array of rewritten inputs. -/
theorem rewritesData_inputs (search : DependencySearch) (hs : search.includeApplications = true)
    {xs ys : List Expr} (h : List.Forall₂ Rewrites xs ys) :
    RewritesData (xs.flatMap search.walk) (search.walk (.array ys)) := by
  rw [DependencySearch.walk_of_not_reports (e := .array ys) rfl]
  exact .flatMap (h.imp fun x _ hx => rewritesData_walk hs x hx)

/-! ## The data of a pair -/

/-- The datum `d` is read by an operand `x` that a component of the boundary field restricts. -/
def RestrictedDatum (boundary d : Expr) : Prop :=
  ∃ c ∈ boundary.components, ∃ x, c.Reads (.interior, x) ∧ d ∈ interiorSearch.walk x

/-- The datum `d` is read by an input `x` on the boundary. -/
def BoundaryDatum (boundary d : Expr) : Prop :=
  ∃ c ∈ boundary.components, ∃ x, c.Reads (.exterior, x) ∧ d ∈ boundarySearch.walk x

/-- The datum `d` is read by a volume input: by the interior field, or by an operand that the
boundary field restricts. -/
def VolumeDatum (interior boundary d : Expr) : Prop :=
  d ∈ interiorSearch.walk interior ∨ RestrictedDatum boundary d

/-- No datum of the volume inputs becomes a datum of the boundary inputs. -/
structure StaysApart (interior boundary : Expr) : Prop where
  /-- What is read beneath a restriction is no datum of the boundary inputs, unless it vanishes. -/
  restricted : ∀ d, RestrictedDatum boundary d → BoundaryDatum boundary d → Rewrites d .zero
  /-- Different data stay different, unless both vanish. -/
  distinct : ∀ d d' z, VolumeDatum interior boundary d → BoundaryDatum boundary d' → d ≠ d' →
    Rewrites d z → Rewrites d' z → z = .zero

/-- The data of what is inlined in `e` are data of `e`, for a walk that goes through calls. -/
theorem walk_subset_of_inlined (h : Inlined x e) :
    boundarySearch.walk x ⊆ boundarySearch.walk e := by
  induction h with
  | self => exact fun _ h => h
  | @operand c e ht hc _ ih =>
    have hr : boundarySearch.reports e = false := by
      cases e with
      | atom _ | subscript _ _ | apply _ _ | exchange _ _ _ => exact ht.elim
      | _ => rfl
    rw [DependencySearch.walk_of_not_reports hr]
    exact fun d hd => List.mem_flatMap.mpr ⟨c, hc, ih hd⟩

/-- The data of the boundary inputs are data of the boundary field. -/
theorem BoundaryDatum.mem_walk (h : BoundaryDatum boundary d) : d ∈ boundarySearch.walk boundary := by
  obtain ⟨c, hc, x, ⟨x', hin, hi⟩, hd⟩ := h
  obtain rfl := eq_of_input? hi
  rw [DependencySearch.walk_eq_flatMap_components]
  exact List.mem_flatMap.mpr ⟨c, hc, walk_subset_of_inlined hin hd⟩

/-! ## Rewritten pairs -/

/-- The sides of a pair share nothing exactly if no datum of the boundary field is one of the
interior field. -/
theorem sharedData_eq_nil_iff :
    sharedData interior boundary = []
      ↔ ∀ d ∈ boundarySearch.walk boundary, d ∉ interiorSearch.walk interior := by
  rw [sharedData, List.filter_eq_nil_iff]
  simp only [DependencySearch.mem_collect_iff, decide_eq_true_iff]

section

variable {f' : Flux} {moved named volume boundaries : List Expr}

/-- The data of the volume inputs, which are the interior components and what has moved beside them.
-/
theorem PairInputs.mem_flatMap_volume
    (h : PairInputs f f' interior boundary moved named volume boundaries) :
    d ∈ (interior.components ++ moved).flatMap interiorSearch.walk
      ↔ VolumeDatum interior boundary d := by
  rw [List.flatMap_append, List.mem_append, ← DependencySearch.walk_eq_flatMap_components]
  constructor
  · rintro (hd | hd)
    · exact .inl hd
    · obtain ⟨x, hx, hd⟩ := List.mem_flatMap.mp hd
      obtain ⟨-, c, hc, reads⟩ := (h.mem_moved x).mp hx
      exact .inr ⟨c, hc, x, reads, hd⟩
  · rintro (hd | ⟨c, hc, x, reads, hd⟩)
    · exact .inl hd
    · -- what the boundary field restricts has moved, unless it is an interior component already
      by_cases old : x ∈ interior.components
      · rw [DependencySearch.walk_eq_flatMap_components interior]
        exact .inl (List.mem_flatMap.mpr ⟨x, old, hd⟩)
      · exact .inr (List.mem_flatMap.mpr ⟨x, (h.mem_moved x).mpr ⟨old, c, hc, reads⟩, hd⟩)

/-- The data of the boundary inputs. -/
theorem PairInputs.mem_flatMap_boundary
    (h : PairInputs f f' interior boundary moved named volume boundaries) :
    d ∈ named.flatMap boundarySearch.walk ↔ BoundaryDatum boundary d := by
  rw [List.mem_flatMap]
  constructor
  · rintro ⟨x, hx, hd⟩
    obtain ⟨c, hc, reads⟩ := (h.mem_named x).mp hx
    exact ⟨c, hc, x, reads, hd⟩
  · rintro ⟨c, hc, x, reads, hd⟩
    exact ⟨x, (h.mem_named x).mpr ⟨c, hc, reads⟩, hd⟩

/-- The sides of the new pair are apart exactly if no datum `d` of the volume inputs and no datum
`d'` of the boundary inputs are rewritten to the same `z`, unless that is the literal zero. -/
theorem PairInputs.sharedData_eq_nil_iff
    (h : PairInputs f f' interior boundary moved named volume boundaries) :
    sharedData (.array volume) (.array boundaries) = []
      ↔ ∀ d d' z, VolumeDatum interior boundary d → BoundaryDatum boundary d' → Rewrites d z →
          Rewrites d' z → z = .zero := by
  have volumes := rewritesData_inputs interiorSearch rfl h.volume
  have boundaries := rewritesData_inputs boundarySearch rfl h.boundaries
  rw [Expr.sharedData_eq_nil_iff]
  constructor
  · intro apart d d' z hd hd' hz hz'
    by_contra nonzero
    exact apart z
      (boundaries.mem_iff.mpr ⟨nonzero, d', h.mem_flatMap_boundary.mpr hd', hz'⟩)
      (volumes.mem_iff.mpr ⟨nonzero, d, h.mem_flatMap_volume.mpr hd, hz⟩)
  · intro apart z hb hv
    obtain ⟨nonzero, d', hd', hz'⟩ := boundaries.mem_iff.mp hb
    obtain ⟨-, d, hd, hz⟩ := volumes.mem_iff.mp hv
    exact nonzero (apart d d' z (h.mem_flatMap_volume.mp hd) (h.mem_flatMap_boundary.mp hd') hz hz')

/-- If the sides of the old pair were apart, the sides of the new one are, exactly if `StaysApart`
holds. -/
theorem PairInputs.staysApart_iff
    (h : PairInputs f f' interior boundary moved named volume boundaries)
    (unaliased : sharedData interior boundary = []) :
    StaysApart interior boundary ↔ sharedData (.array volume) (.array boundaries) = [] := by
  have volumes := rewritesData_inputs interiorSearch rfl h.volume
  rw [h.sharedData_eq_nil_iff]
  constructor
  · intro apart d d' z hd hd' hz hz'
    -- `d` and `d'` meet in `z`
    by_cases same : d = d'
    · subst same
      -- a datum that meets itself is none of the interior field, so it is read beneath a
      -- restriction
      rcases hd with hd | hd
      · exact absurd hd (Expr.sharedData_eq_nil_iff.mp unaliased d hd'.mem_walk)
      · exact hz.unique (apart.restricted d hd hd')
    · exact apart.distinct d d' z hd hd' same hz hz'
  · intro apart
    refine ⟨fun d hd hd' => ?_, fun d d' z hd hd' _ hz hz' => apart d d' z hd hd' hz hz'⟩
    obtain ⟨z, hz⟩ := volumes.exists_rewrites (h.mem_flatMap_volume.mpr (.inr hd))
    rwa [← apart d d z (.inr hd) hd' hz hz]

end

/-- If a flux on a pair is rewritten to the flux on a pair `z`, then `z` is not aliased exactly if
the data of its inputs have stayed apart. -/
theorem aliasing_rewritten_iff (h : Rewrites (.apply (.flux f) (.pair interior boundary tag)) z)
    (hz : z.isPairFlux = true) : z.aliasing = [] ↔ StaysApart interior boundary := by
  obtain ⟨r⟩ := exists_fluxRewriting h
  have nonzero : z ≠ .zero := by
    rintro rfl
    nomatch hz
  obtain ⟨hr, moved, named, inputs⟩ := r.pairInputs (Bool.eq_false_iff.mp (r.emitted nonzero).1)
  rw [hr]
  exact (inputs.staysApart_iff (checkPair_eq_ok_iff.mp r.unaliased)).symm

end OperatorTemplate.Expr

namespace OperatorTemplate

open OperatorTemplate.Expr

/-- **Whether rewriting keeps the sides of pairs apart.**  The alias check accepts rewritten roots
exactly if for each flux on a pair in them the flux that it was made of reads nothing beneath a
restriction that its boundary inputs read as well, and rewriting makes none of its volume data equal
to another datum of its boundary inputs.  What vanishes does not count. -/
theorem checkBoundaryAliasing_rewritten_iff {roots roots' : List Expr}
    (h : rewriteBoundaryFluxes roots = .ok roots') :
    checkBoundaryAliasing roots' = .ok ()
      ↔ ∀ f interior boundary tag z,
          (∃ e ∈ roots, PartOf (.apply (.flux f) (.pair interior boundary tag)) e) →
          Rewrites (.apply (.flux f) (.pair interior boundary tag)) z → z ≠ .zero →
          (∃ y ∈ roots', PartOf z y) → StaysApart interior boundary := by
  rw [rewriteBoundaryFluxes_eq] at h
  rw [checkBoundaryAliasing_eq_ok_iff]
  constructor
  · rintro apart f interior boundary tag z - hr nonzero ⟨y, hy, hz⟩
    have hp : z.isPairFlux = true := isPairFlux_of_rewrites hr rfl nonzero
    exact (aliasing_rewritten_iff hr hp).mp (apart y hy z hz)
  · intro apart y hy z hz
    -- every flux on a pair in the output is the rewriting of one in the input
    cases hp : z.isPairFlux with
    | false => exact aliasing_of_not_pairFlux hp
    | true =>
      obtain ⟨e, he, hey⟩ := exists_left_of_forall₂ (forall₂_of_mapM h) hy
      obtain ⟨x, hx, hxp, hr⟩ := exists_source e hey hz hp
      obtain ⟨f, interior, boundary, tag, rfl⟩ := exists_of_isPairFlux hxp
      refine (aliasing_rewritten_iff hr hp).mpr (apart f interior boundary tag z ⟨e, he, hx⟩ hr ?_
        ⟨y, hy, hz⟩)
      rintro rfl
      nomatch hp

/-- A restricted volume field beside a boundary input: they stay apart. -/
theorem checkBoundaryAliasing_rewritten_restricted :
    let u : Expr := .atom (.variable "u")
    let v : Expr := .atom (.variable "v")
    let g : Expr := .atom (.variable "g")
    let wall : BoundaryTag := .named "wall"
    let field : Expr := .sum [g, .apply (.restrict wall) v]
    let flux : Expr := .apply (.flux ⟨.plain, .component .exterior 0⟩) (.pair u field wall)
    let kernel' : Kernel := .sum [.component .exterior 0, .component .interior 1]
    let flux' : Expr := .apply (.flux ⟨.plain, kernel'⟩) (.pair (.array [u, v]) (.array [g]) wall)
    rewriteBoundaryFluxes [flux] = .ok [flux'] ∧ checkBoundaryAliasing [flux'] = .ok ()
      ∧ StaysApart u field := by
  intro u v g wall field flux kernel' flux'
  have rewritten : rewriteBoundaryFluxes [flux] = .ok [flux'] := by decide +kernel
  have accepted : checkBoundaryAliasing [flux'] = .ok () := by decide +kernel
  have alone : Rewrites flux flux' := by decide +kernel
  refine ⟨rewritten, accepted, ?_⟩
  exact (checkBoundaryAliasing_rewritten_iff rewritten).mp accepted _ u field wall flux'
    ⟨flux, List.mem_cons_self, .self⟩ alone (by decide) ⟨flux', List.mem_cons_self, .self⟩

/-- Rewriting accepts two roots, and the check rejects what it makes of them.  In one, the boundary
field reads `g` both on the boundary and beneath a restriction.  In the other, the sides read
subscripts of two different fluxes, which vanish. -/
theorem not_checkBoundaryAliasing_rewritten :
    let u : Expr := .atom (.variable "u")
    let g : Expr := .atom (.variable "g")
    let wall : BoundaryTag := .named "wall"
    let flux (kernel : Kernel) (interior boundary : Expr) : Expr :=
      .apply (.flux ⟨.plain, kernel⟩) (.pair interior boundary wall)
    let kernel : Kernel := .component .exterior 0
    let restricting : Expr := flux kernel u (.sum [g, .apply (.restrict wall) g])
    let restricting' : Expr :=
      flux (.sum [.component .exterior 0, .component .interior 1]) (.array [u, g]) (.array [g])
    let merging : Expr := flux kernel (.subscript (flux .zero u g) 0)
      (.subscript (flux (.product [.zero, kernel]) u g) 0)
    let merging' : Expr :=
      flux kernel (.array [.subscript .zero 0]) (.array [.subscript .zero 0])
    rewriteBoundaryFluxes [restricting] = .ok [restricting']
      ∧ checkBoundaryAliasing [restricting'] = .error (.aliased [g])
      ∧ rewriteBoundaryFluxes [merging] = .ok [merging']
      ∧ checkBoundaryAliasing [merging'] = .error (.aliased [.subscript .zero 0]) := by
  decide +kernel

end OperatorTemplate
