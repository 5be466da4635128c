import OperatorTemplate.Proofs.Boundary.Aliasing
import OperatorTemplate.Proofs.Boundary.FaceTypes
import OperatorTemplate.Proofs.Expr.Dependency
import OperatorTemplate.Proofs.Inference.Soundness
/-!
# Types of aliased pairs

The two sides of a pair live in different places, so what both of them read should have no type. For
most data that is so, in three steps.

* What the boundary side reads is boundary data or scalar (`Typed.walk_type`): the search goes down
  through arithmetic and common subexpressions, whose operands have their type or are scalar.
* What the interior side reads as interior face values is no boundary data
  (`ReadOnFaces.not_isBoundary`), for the same reason.  So a shared datum is scalar.
* Of all that an alias check reports, only reductions are scalar (`HasType.isReduction`).

That leaves three ways in which inference accepts what the check rejects (`Excused`): the data are
reductions; the interior side reads them on the boundary side of a pair of its own, inside the
fluxes of a whole domain; or the pair is in the aggregate of a subscript, where inference does not
look (`reached_or_inAggregate`).

Otherwise a template that the check rejects is ill-typed under all hints (`infer_fails_or_excused`),
and each of the three does occur (`infer_isOk_of_aliased`).
-/

namespace OperatorTemplate

open FieldType

/-- Data on a part of the boundary, of whatever representation. -/
def FieldType.IsBoundary (t : FieldType) : Prop := ∃ tag r, t = .boundary tag r

/-- Interior face values are no boundary data. -/
theorem FieldType.IsOnFaces.not_isBoundary {t : FieldType} (h : t.IsOnFaces) : ¬t.IsBoundary := by
  rintro ⟨tag, r, rfl⟩
  nomatch h

namespace Expr

variable {T : Expr → FieldType} {roots : List Expr} {e x d : Expr}

/-! ## What a side reads -/

/-- The operand `c` of an open node is visited, and has the type of the node or is scalar. -/
theorem Typed.open_child (h : Typed T e) (hf : Final T e) (ho : e.IsOpen) {c : Expr}
    (hc : c ∈ e.children) : Visited c e ∧ (T c = T e ∨ T c = .scalar) := by
  have hl := law_of_isOpen ho
  have demanded := mem_demands_of_child hl hc
  exact ⟨.operand demanded .self,
    h.fits.child_type hl hf.self hc (h.operand demanded).answer_le⟩

/-- Where all that is visited below `e` has a final type, so has all that is visited below `x`. -/
theorem Final.of_visited (h : Final T e) (hx : Visited x e) : Final T x :=
  fun _ hy => h _ (hy.trans hx)

/-- An expression that an alias check neither reports on the boundary side nor looks through as
arithmetic has no operands, or no rule, or is a flux of a whole domain. -/
theorem not_open_cases (hr : boundarySearch.reports e = false) (ho : ¬e.IsOpen) :
    e.children = [] ∨ e.law = .illegal ∨ e.law = .flux := by
  cases e with
  | atom _ => exact .inl rfl
  | pair _ _ _ | array _ => exact .inr (.inl rfl)
  | domainFlux interiors boundaries =>
    show _ ∨ (if boundaries.all isPair then Law.flux else Law.illegal) = _
      ∨ (if boundaries.all isPair then Law.flux else Law.illegal) = _
    split
    · exact .inr (.inr rfl)
    · exact .inr (.inl rfl)
  | subscript _ _ | apply _ _ | exchange _ _ _ => nomatch hr
  | _ => exact absurd trivial ho

/-- A datum `d` that the search of a boundary side finds below `e` is visited, is one that is
reported, and is boundary data or scalar, if `e` is.  By induction on the size of `e`. -/
theorem Typed.walk_type {e : Expr} (h : Typed T e) (hf : Final T e)
    (hb : (T e).IsBoundary ∨ T e = .scalar) (hd : d ∈ boundarySearch.walk e) :
    Visited d e ∧ boundarySearch.reports d = true ∧ ((T d).IsBoundary ∨ T d = .scalar) := by
  cases hr : boundarySearch.reports e with
  | true =>
    rw [DependencySearch.walk_of_reports hr] at hd
    obtain rfl := List.mem_singleton.mp hd
    exact ⟨.self, hr, hb⟩
  | false =>
    rw [DependencySearch.walk_of_not_reports hr] at hd
    obtain ⟨c, hc, hd⟩ := List.mem_flatMap.mp hd
    by_cases ho : e.IsOpen
    · -- an open node hands its type, or the scalar type, on to its operands
      obtain ⟨visited, type⟩ := h.open_child hf ho hc
      have hbc : (T c).IsBoundary ∨ T c = .scalar := by
        rcases type with same | scalar
        · rwa [same]
        · exact .inr scalar
      obtain ⟨hv, hd⟩ := (h.of_visited visited).walk_type (hf.of_visited visited) hbc hd
      exact ⟨hv.trans visited, hd⟩
    · have law := h.fits.law
      rcases not_open_cases hr ho with he | he | he
      · rw [he] at hc
        nomatch hc
      · rw [he] at law
        exact law.elim
      · -- fluxes end in volume data
        rw [he] at law
        have volume : T e = .volume .nodal := eq_of_isFinal_of_le rfl law.1
        rw [volume] at hb
        rcases hb with ⟨_, _, hb⟩ | hb <;> nomatch hb
termination_by e.size
decreasing_by exact size_lt_of_mem_children hc

/-- Only arithmetic, common subexpressions and the interior sides of fluxes of a whole domain stand
above `x` in `e`. -/
inductive ReadOnFaces (x : Expr) : Expr → Prop
  | self : ReadOnFaces x x
  | operand {c e : Expr} (ho : e.IsOpen) (hc : c ∈ e.children) (h : ReadOnFaces x c) :
    ReadOnFaces x e
  | flux {interiors boundaries : List Expr} {c : Expr}
    (hc : (.onInteriorFaces, c) ∈ (Expr.domainFlux interiors boundaries).demands)
    (h : ReadOnFaces x c) : ReadOnFaces x (.domainFlux interiors boundaries)

/-- What is no boundary data reads no boundary data as interior face values. -/
theorem ReadOnFaces.not_isBoundary (h : ReadOnFaces x e) (ht : Typed T e) (hf : Final T e)
    (hn : ¬(T e).IsBoundary) : ¬(T x).IsBoundary := by
  induction h with
  | self => exact hn
  | operand ho hc _ ih =>
    -- arithmetic: the operand has the type of the node or is scalar
    obtain ⟨visited, type⟩ := ht.open_child hf ho hc
    refine ih (ht.of_visited visited) (hf.of_visited visited) ?_
    rcases type with same | scalar
    · rwa [same]
    · rw [scalar]
      rintro ⟨_, _, h⟩
      nomatch h
  | flux hc _ ih =>
    -- the interior side of a flux of a whole domain is asked for interior face values
    have visited : Visited _ _ := .operand hc .self
    exact ih (ht.of_visited visited) (hf.of_visited visited)
      (isOnFaces_of_le (ht.fits.demands _ hc) (hf.operand hc)).not_isBoundary

/-- The application of a reduction. -/
def isReduction : Expr → Bool
  | .apply (.reduce _) _ => true
  | _ => false

/-- Of the data that a boundary side is searched for, only reductions are scalar.  By the rules of
typing, of which the others give vectors or concern nodes that are looked through. -/
theorem HasType.isReduction (h : HasType T d .scalar) (hr : boundarySearch.reports d = true) :
    d.isReduction = true := by
  generalize ht : FieldType.scalar = t at h
  cases h with
  | reduce _ _ => rfl
  | vectors _ hne _ _ => exact absurd ht.symm hne
  | scalars he _ => cases he <;> nomatch hr
  | constant _ | parameter _ | shared _ _ => nomatch hr
  | _ => nomatch ht

/-! ## Pairs -/

/-- What a search finds in `e` it finds in one of the components of `e`. -/
theorem exists_component_of_walk {search : DependencySearch} (h : d ∈ search.walk e) :
    ∃ c ∈ e.components, d ∈ search.walk c := by
  rw [DependencySearch.walk_eq_flatMap_components] at h
  exact List.mem_flatMap.mp h

/-- The sides of a well-typed flux on a pair fit: interior components are interior face values,
boundary components are data on the boundary of the pair. -/
theorem HasType.sidesFit {f : Flux} {interior boundary : Expr} {tag : BoundaryTag} {t : FieldType}
    (h : HasType T (.apply (.flux f) (.pair interior boundary tag)) t) :
    SidesFit T interior boundary tag := by
  cases h with
  | pairFlux hs => exact hs
  | fieldFlux hp _ => nomatch hp
  | scalars he _ | vectors he _ _ _ => nomatch he
  | volumeData he | boundaryData he _ => nomatch he

/-- A datum `d` that the sides of a well-typed pair share is a reduction, or the interior side does
not read it as interior face values. -/
theorem Typed.isReduction_of_sharedData {f : Flux} {interior boundary : Expr} {tag : BoundaryTag}
    (h : Typed T (.apply (.flux f) (.pair interior boundary tag)))
    (hf : Final T (.apply (.flux f) (.pair interior boundary tag)))
    (hd : d ∈ sharedData interior boundary) :
    d.isReduction = true ∨ ¬∃ c ∈ interior.components, ReadOnFaces d c := by
  have found : d ∈ boundarySearch.collect boundary := (List.mem_filter.mp hd).1
  obtain ⟨b, hb, hd⟩ := exists_component_of_walk (DependencySearch.mem_collect_iff.mp found)
  have onBoundary : Visited b (.apply (.flux f) (.pair interior boundary tag)) :=
    .operand (o := (.onBoundary tag, b))
      (List.mem_append_right _ (List.mem_map.mpr ⟨b, hb, rfl⟩)) .self
  have onFaces {c : Expr} (hc : c ∈ interior.components) :
      Visited c (.apply (.flux f) (.pair interior boundary tag)) :=
    .operand (o := (.onInteriorFaces, c))
      (List.mem_append_left _ (List.mem_map.mpr ⟨c, hc, rfl⟩)) .self
  have sides := (h.hasType hf).sidesFit
  obtain ⟨r, hr⟩ := sides.boundary b hb
  obtain ⟨visited, reported, type⟩ := (h.of_visited onBoundary).walk_type (hf.of_visited onBoundary)
    (.inl ⟨tag, r, hr⟩) hd
  have hv := visited.trans onBoundary
  -- boundary data are not read on the faces; a scalar is a reduction
  rcases type with data | scalar
  · refine .inr fun ⟨c, hc, hread⟩ => ?_
    exact hread.not_isBoundary (h.of_visited (onFaces hc)) (hf.of_visited (onFaces hc))
      (sides.interior c hc).not_isBoundary data
  · have typed : HasType T d .scalar := scalar ▸ (h.of_visited hv).hasType (hf.of_visited hv)
    exact .inl (typed.isReduction reported)

/-! ## Fluxes on pairs that are not visited -/

/-- A flux on a pair below `e` is below a component of `e`: it is not the array itself. -/
theorem exists_component_of_partOf (h : PartOf x e) (hp : x.isPairFlux = true) :
    ∃ c ∈ e.components, PartOf x c := by
  cases e with
  | array es =>
    cases h with
    | self => nomatch hp
    | operand hc h => exact ⟨_, hc, h⟩
  | _ => exact ⟨_, List.mem_singleton_self _, h⟩

/-- A flux on a pair below `e` is below something that is asked of the components of `e`. -/
theorem exists_of_partOf_demandAll {t : FieldType} (h : PartOf x e) (hp : x.isPairFlux = true) :
    ∃ o ∈ demandAll t e, PartOf x o.2 := by
  obtain ⟨c, hc, h⟩ := exists_component_of_partOf h hp
  exact ⟨(t, c), List.mem_map.mpr ⟨c, hc, rfl⟩, h⟩

/-- A flux on a pair below a pair is below something that is asked of its sides. -/
theorem exists_of_partOf_pair (hpair : e.isPair = true) (h : PartOf x e) (hp : x.isPairFlux = true) :
    ∃ o ∈ e.pairDemands, PartOf x o.2 := by
  cases e with
  | pair interior boundary tag =>
    cases h with
    | self => nomatch hp
    | operand hc h =>
      rcases List.mem_cons.mp hc with rfl | hc
      · obtain ⟨o, ho, h⟩ := exists_of_partOf_demandAll h hp
        exact ⟨o, List.mem_append_left _ ho, h⟩
      · obtain rfl := List.mem_singleton.mp hc
        obtain ⟨o, ho, h⟩ := exists_of_partOf_demandAll h hp
        exact ⟨o, List.mem_append_right _ ho, h⟩
  | _ => nomatch hpair

/-- A flux `x` on a pair below a child `c` of a well-typed node is below something that is visited,
or in the aggregate of a subscript.  Nodes without a rule are not well-typed, and all others ask for
their operands. -/
theorem Typed.exists_demand_of_partOf (h : Typed T e) {c : Expr} (hc : c ∈ e.children)
    (hx : PartOf x c) (hp : x.isPairFlux = true) :
    (∃ o ∈ e.demands, PartOf x o.2) ∨ ∃ index, e = .subscript c index := by
  have law := h.fits.law
  cases e with
  | atom _ => nomatch hc
  | subscript aggregate index =>
    obtain rfl := List.mem_singleton.mp hc
    exact .inr ⟨index, rfl⟩
  | pair _ _ _ | array _ => exact law.elim
  | apply op field =>
    obtain rfl := List.mem_singleton.mp hc
    refine .inl ?_
    cases op with
    | flux f =>
      show ∃ o ∈ c.fluxDemands, PartOf x o.2
      unfold fluxDemands
      split
      next hpair => exact exists_of_partOf_pair hpair hx hp
      next => exact exists_of_partOf_demandAll hx hp
    | _ => exact ⟨_, List.mem_singleton_self _, hx⟩
  | exchange _ _ arguments => exact .inl ⟨_, List.mem_map_of_mem hc, hx⟩
  | domainFlux interiors boundaries =>
    refine .inl ?_
    rcases List.mem_append.mp hc with hc | hc
    · obtain ⟨o, ho, hx⟩ := exists_of_partOf_demandAll hx hp
      exact ⟨o, List.mem_append_left _ (List.mem_flatMap.mpr ⟨c, hc, ho⟩), hx⟩
    · -- a flux over a domain that fits has pairs for its boundary fields
      have pairs : boundaries.all isPair = true := by
        by_contra hn
        rw [Expr.law, if_neg hn] at law
        exact law
      obtain ⟨o, ho, hx⟩ := exists_of_partOf_pair (List.all_eq_true.mp pairs c hc) hx hp
      exact ⟨o, List.mem_append_right _ (List.mem_flatMap.mpr ⟨c, hc, ho⟩), hx⟩
  | _ => exact .inl ⟨(.unknown, c), List.mem_map_of_mem hc, hx⟩

/-- In the aggregate of a subscript that is visited. -/
def InAggregate (roots : List Expr) (x : Expr) : Prop :=
  ∃ aggregate index, Reached roots (.subscript aggregate index) ∧ PartOf x aggregate

/-- Inference visits every flux `x` on a pair that is a part of a visited `e`, unless it is in the
aggregate of a subscript. -/
theorem reached_or_inAggregate {e : Expr} (hT : ∀ y, Reached roots y → Typed T y)
    (he : Reached roots e) (hx : PartOf x e) (hp : x.isPairFlux = true) :
    Reached roots x ∨ InAggregate roots x := by
  cases hx with
  | self => exact .inl he
  | operand hc hx =>
    rcases (hT e he).exists_demand_of_partOf hc hx hp with ⟨o, ho, hx⟩ | ⟨index, rfl⟩
    · have := size_lt_of_mem_demands ho
      exact reached_or_inAggregate hT (he.operand ho) hx hp
    · exact .inr ⟨_, index, he, hx⟩
termination_by e.size

end Expr

/-! ## The check and inference -/

open OperatorTemplate.Expr (Reached ReadOnFaces InAggregate)

/-- Why inference may accept an aliased flux on a pair. -/
inductive Excused (roots : List Expr) : Expr → Prop
  /-- It is in an aggregate, and not visited otherwise. -/
  | unvisited {x : Expr} (hx : ¬Reached roots x) (ha : InAggregate roots x) : Excused roots x
  /-- All that its sides share are reductions, and data that the interior side does not read as
  interior face values. -/
  | shared {f : Flux} {interior boundary : Expr} {tag : BoundaryTag}
    (h : ∀ d ∈ sharedData interior boundary,
      d.isReduction = true ∨ ¬∃ c ∈ interior.components, ReadOnFaces d c) :
    Excused roots (.apply (.flux f) (.pair interior boundary tag))

/-- A flux on a pair that is visited is excused for what its sides share. -/
theorem Excused.of_reached {roots : List Expr} {f : Flux} {interior boundary : Expr}
    {tag : BoundaryTag} (h : Excused roots (.apply (.flux f) (.pair interior boundary tag)))
    (hr : Reached roots (.apply (.flux f) (.pair interior boundary tag))) {d : Expr}
    (hd : d ∈ sharedData interior boundary) :
    d.isReduction = true ∨ ¬∃ c ∈ interior.components, ReadOnFaces d c := by
  cases h with
  | unvisited hx _ => exact absurd hr hx
  | shared h => exact h d hd

/-- A template that the check rejects is ill-typed under all hints, or each aliased flux on a pair
in it, one of which the check reports, is excused. -/
theorem infer_fails_or_excused {roots : List Expr} {cause : RewriteError}
    (h : checkBoundaryAliasing roots = .error cause) (hints : TypeHints) :
    (∃ error, Inference.infer roots hints = .error error) ∨
      ((∃ root ∈ roots, root.AliasedIn cause) ∧
        ∀ root ∈ roots, ∀ x, Expr.PartOf x root → x.aliasing ≠ [] → Excused roots x) := by
  cases hi : Inference.infer roots hints with
  | error error => exact .inl ⟨error, rfl⟩
  | ok i =>
    refine .inr ⟨exists_of_checkBoundaryAliasing h, fun root hr x hx ha => ?_⟩
    have hp : x.isPairFlux = true := by
      by_contra hn
      exact ha (Expr.aliasing_of_not_pairFlux (by simpa using hn))
    -- the flux is below a component of a root, which is visited
    obtain ⟨c, hc, hx⟩ := Expr.exists_component_of_partOf hx hp
    have top : Reached roots c := .of_component (List.mem_flatMap.mpr ⟨root, hr, hc⟩)
    by_cases hreached : Reached roots x
    · obtain ⟨f, interior, boundary, tag, rfl⟩ := Expr.exists_of_isPairFlux hp
      exact .shared fun d hd => (Inference.typed_of_infer hi hreached).isReduction_of_sharedData
        (Inference.final_of_infer hi hreached) hd
    · have hT (y : Expr) (hy : Reached roots y) : y.Typed i.table.get := Inference.typed_of_infer hi hy
      rcases Expr.reached_or_inAggregate hT top hx hp with h | h
      · exact absurd h hreached
      · exact .unvisited hreached h

/-- A flux on a pair whose sides both read `u`, inside a sum: no excuse, and no type under a hint. -/
theorem infer_fails_or_excused_sum :
    let u : Expr := .atom (.variable "u")
    let flux : Expr := .apply (.flux ⟨.plain, .component .interior 0⟩)
      (.pair u (.product [.atom (.parameter "a"), u]) (.named "wall"))
    checkBoundaryAliasing [.sum [u, flux]] = .error (.aliased [u])
      ∧ ∃ error, Inference.infer [.sum [u, flux]] [(u, .represented .nodal)] = .error error := by
  intro u flux
  have rejected : checkBoundaryAliasing [.sum [u, flux]] = .error (.aliased [u]) := by
    decide +kernel
  refine ⟨rejected, (infer_fails_or_excused rejected [(u, .represented .nodal)]).resolve_right ?_⟩
  rintro ⟨-, excused⟩
  have part : Expr.PartOf flux (.sum [u, flux]) := .of_child (.tail _ List.mem_cons_self)
  have reached : Reached [.sum [u, flux]] flux :=
    (Expr.Reached.of_component List.mem_cons_self).operand (o := (.unknown, flux))
      (.tail _ List.mem_cons_self)
  have excuse : Excused [.sum [u, flux]] flux :=
    excused _ List.mem_cons_self flux part (by decide +kernel)
  rcases excuse.of_reached reached (d := u) (by decide +kernel) with hr | hn
  · nomatch hr
  · exact hn ⟨u, List.mem_cons_self, .self⟩

/-- Each excuse occurs: the check rejects, and inference accepts, a pair whose sides share a
reduction; one whose interior side reads the boundary datum in a flux of a whole domain; and one in
the aggregate of a subscript. -/
theorem infer_isOk_of_aliased :
    let wall : BoundaryTag := .named "wall"
    let u : Expr := .atom (.variable "u")
    let w : Expr := .atom (.variable "w")
    let g : Expr := .atom (.variable "g")
    let total : Expr := .apply (.reduce .sum) u
    let flux (interior boundary : Expr) : Expr :=
      .apply (.flux ⟨.plain, .component .exterior 0⟩) (.pair interior boundary wall)
    let reduction : Expr := flux (.product [w, total]) (.product [g, total])
    let domain : Expr := flux (.sum [w, .domainFlux [] [.pair u g wall]]) g
    let aggregate : Expr := .subscript (flux u u) 0
    ∀ root ∈ [reduction, domain, aggregate],
      (checkBoundaryAliasing [root]).isOk = false ∧ (Inference.infer [root] []).isOk = true := by
  decide +kernel

end OperatorTemplate
