import Mathlib.Order.Basic
import OperatorTemplate.FieldType.Unify
/-!
# The order of types

`a ≤ b` if `b` says all that `a` says.  The order is given by its steps, those of the diagram that
stands with the types (`Refines`).  There is no step from one final type to another, so two refining
steps in a row start at `unknown`; transitivity and antisymmetry are read off the steps.

The order has three levels (`rank`): nothing is known, one of domain and representation is known,
everything is known.  A strict step goes up at least one level (`rank_lt_of_lt`), so a type can be
refined at most twice.

Unification is the least upper bound, where there is an upper bound at all.  `absorb?` answers the
join whenever it answers (`joins_of_absorb?`), and of two different types below a third one absorbs
the other (`exists_absorb?_of_le`).  Together: `a.unify b` succeeds with `c` exactly if `c` is the
join of `a` and `b` (`unify_eq_ok_iff`), and it succeeds whenever something is above both
(`exists_unify_of_le`).  So it is monotone: types that say less unify if those that say more do, and
to a type that says less (`unify_mono`).
-/

namespace OperatorTemplate.FieldType

/-! ## The order -/

/-- `Refines a b`: all that `a` says, `b` says too. -/
inductive Refines : FieldType → FieldType → Prop
  | refl (t : FieldType) : Refines t t
  | unknown (t : FieldType) : Refines .unknown t
  | volume (r : Representation) : Refines .onVolume (.volume r)
  | boundary (tag : BoundaryTag) (r : Representation) : Refines (.onBoundary tag) (.boundary tag r)
  | interiorFaces (grid : QuadratureTag) : Refines .onInteriorFaces (.interiorFaces grid)
  /-- Interior face values that are nodal are ordinary volume data. -/
  | nodalFaces : Refines .onInteriorFaces (.volume .nodal)
  | representedVolume (r : Representation) : Refines (.represented r) (.volume r)
  | representedBoundary (tag : BoundaryTag) (r : Representation) :
    Refines (.represented r) (.boundary tag r)
  | representedFaces (grid : QuadratureTag) :
    Refines (.represented (.quadrature grid)) (.interiorFaces grid)

/-- Refinement is transitive.  A first step that is neither `refl` nor from `unknown` ends in a
final type, from which only `refl` goes on. -/
theorem Refines.trans {a b c : FieldType} (h : Refines a b) (h' : Refines b c) : Refines a c := by
  cases h with
  | refl => exact h'
  | unknown => exact .unknown c
  | _ =>
    -- what refines is final
    cases h'
    constructor

theorem Refines.antisymm {a b : FieldType} (h : Refines a b) (h' : Refines b a) : a = b := by
  cases h <;> cases h' <;> rfl

instance : PartialOrder FieldType where
  le := Refines
  le_refl := .refl
  le_trans _ _ _ := .trans
  le_antisymm _ _ := Refines.antisymm

theorem le_def {a b : FieldType} : a ≤ b ↔ Refines a b := Iff.rfl

/-- Nothing known is below every type. -/
theorem unknown_le (t : FieldType) : .unknown ≤ t := Refines.unknown t

/-- Only `unknown` is below `unknown`. -/
theorem eq_unknown_of_le {t : FieldType} (h : t ≤ .unknown) : t = .unknown :=
  le_antisymm h (unknown_le t)

/-- The level of a type: nothing, something, everything is known. -/
def rank : FieldType → Nat
  | .unknown => 0
  | .onVolume | .onBoundary _ | .onInteriorFaces | .represented _ => 1
  | .scalar | .volume _ | .boundary _ _ | .interiorFaces _ => 2

theorem rank_le_two (t : FieldType) : t.rank ≤ 2 := by
  cases t <;> simp only [rank] <;> omega

/-- A type that says strictly more is on a higher level. -/
theorem rank_lt_of_lt {a b : FieldType} (h : a < b) : a.rank < b.rank := by
  obtain ⟨hab, hne⟩ := lt_iff_le_and_ne.mp h
  cases le_def.mp hab with
  | refl => exact absurd rfl hne
  | unknown =>
    -- from `unknown` any other type is higher
    cases b
    case unknown => exact absurd rfl hne
    all_goals exact Nat.succ_pos _
  | _ => exact Nat.lt_succ_self _

theorem rank_mono {a b : FieldType} (h : a ≤ b) : a.rank ≤ b.rank := by
  rcases eq_or_lt_of_le h with rfl | h
  · exact Nat.le_refl _
  · exact Nat.le_of_lt (rank_lt_of_lt h)

/-- Nothing is above a final type. -/
theorem eq_of_isFinal_of_le {a b : FieldType} (ha : a.isFinal = true) (h : a ≤ b) : b = a := by
  cases le_def.mp h <;> first | rfl | nomatch ha

/-- Nothing but the scalar type is above the scalar type, and nothing but `unknown` below it. -/
theorem eq_scalar_iff_of_le {a b : FieldType} (h : a ≤ b) (ha : a ≠ .unknown) :
    a = .scalar ↔ b = .scalar := by
  cases le_def.mp h with
  | refl => exact Iff.rfl
  | unknown => exact absurd rfl ha
  | _ => exact ⟨nofun, nofun⟩

/-! ## Data on a domain -/

/-- What lives on the boundary `tag` and is represented by `r` is `boundary tag r`: no other type is
above both. -/
theorem eq_boundary {t : FieldType} {tag : BoundaryTag} {r : Representation}
    (hb : .onBoundary tag ≤ t) (hr : .represented r ≤ t) : t = .boundary tag r := by
  cases le_def.mp hb <;> cases le_def.mp hr
  rfl

/-- What lives on the volume and is represented by `r` is `volume r`. -/
theorem eq_volume {t : FieldType} {r : Representation} (hv : .onVolume ≤ t)
    (hr : .represented r ≤ t) : t = .volume r := by
  cases le_def.mp hv <;> cases le_def.mp hr
  rfl

/-- A final type that says at least that data live on the volume is `volume r` for some `r`. -/
theorem exists_volume_of_le {t : FieldType} (hv : .onVolume ≤ t) (hf : t.isFinal = true) :
    ∃ r, t = .volume r := by
  cases le_def.mp hv with
  | refl => nomatch hf
  | volume r => exact ⟨r, rfl⟩

/-- A final type that says at least that data live on the boundary `tag` is `boundary tag r` for
some `r`. -/
theorem exists_boundary_of_le {t : FieldType} {tag : BoundaryTag} (hb : .onBoundary tag ≤ t)
    (hf : t.isFinal = true) : ∃ r, t = .boundary tag r := by
  cases le_def.mp hb with
  | refl => nomatch hf
  | boundary tag r => exact ⟨r, rfl⟩

theorem onBoundary_le_boundary {tag : BoundaryTag} {r : Representation} :
    FieldType.onBoundary tag ≤ .boundary tag r := .boundary tag r

theorem represented_le_boundary {tag : BoundaryTag} {r : Representation} :
    FieldType.represented r ≤ .boundary tag r := .representedBoundary tag r

/-! ## Parts of a type -/

/-- A type that says more says more about representation. -/
theorem representationPart_mono {a b : FieldType} (h : a ≤ b) :
    a.representationPart ≤ b.representationPart := by
  cases le_def.mp h with
  | refl => exact le_refl _
  | unknown | volume _ | boundary _ _ | interiorFaces _ | nodalFaces => exact unknown_le _
  | representedVolume _ | representedBoundary _ _ | representedFaces _ => exact le_refl _

/-- A type that says more says more about the domain. -/
theorem domainPart_mono {a b : FieldType} (h : a ≤ b) : a.domainPart ≤ b.domainPart := by
  cases le_def.mp h with
  | refl | volume _ | boundary _ _ => exact le_refl _
  | unknown | interiorFaces _ | nodalFaces | representedVolume _ | representedBoundary _ _
  | representedFaces _ => exact unknown_le _

/-! ## Unification -/

/-- `c` is the least type above `a` and `b`. -/
structure Joins (a b c : FieldType) : Prop where
  left : a ≤ c
  right : b ≤ c
  least : ∀ d, a ≤ d → b ≤ d → c ≤ d

theorem Joins.symm {a b c : FieldType} (h : Joins a b c) : Joins b a c :=
  ⟨h.right, h.left, fun d hb ha => h.least d ha hb⟩

/-- Two types have at most one join. -/
theorem Joins.unique {a b c c' : FieldType} (h : Joins a b c) (h' : Joins a b c') : c = c' :=
  le_antisymm (h.least c' h'.left h'.right) (h'.least c h.left h.right)

/-- The join of two types of which one is below the other is the greater one. -/
theorem joins_of_le {a b : FieldType} (h : a ≤ b) : Joins a b b :=
  ⟨h, le_refl b, fun _ _ hb => hb⟩

/-- What the representation `r` makes of a type `b` is the join of `represented r` and `b`.  One
case for each type `b`: a partial type with a domain is completed, a final type is its own join if
it has the representation. -/
theorem joins_of_withRepresentation? {r : Representation} {b c : FieldType}
    (h : withRepresentation? r b = some c) : Joins (.represented r) b c := by
  cases b with
  | onVolume =>
    cases h
    exact ⟨.representedVolume r, .volume r, fun d h h' => by cases h <;> cases h'; constructor⟩
  | onBoundary tag =>
    cases h
    exact ⟨.representedBoundary tag r, .boundary tag r,
      fun d h h' => by cases h <;> cases h'; constructor⟩
  | onInteriorFaces =>
    -- nodal values on interior faces are volume data, others stay on the faces
    cases r with
    | nodal =>
      cases h
      exact ⟨.representedVolume .nodal, .nodalFaces,
        fun d h h' => by cases h <;> cases h'; constructor⟩
    | quadrature grid =>
      cases h
      exact ⟨.representedFaces grid, .interiorFaces grid,
        fun d h h' => by cases h <;> cases h'; constructor⟩
  | volume r' =>
    -- final types: the answer is `b` itself, and `r` has to be its representation
    simp only [withRepresentation?, Option.ite_none_right_eq_some, Option.some.injEq] at h
    obtain ⟨rfl, rfl⟩ := h
    exact joins_of_le (.representedVolume r)
  | boundary tag r' =>
    simp only [withRepresentation?, Option.ite_none_right_eq_some, Option.some.injEq] at h
    obtain ⟨rfl, rfl⟩ := h
    exact joins_of_le (.representedBoundary tag r)
  | interiorFaces grid =>
    simp only [withRepresentation?, Option.ite_none_right_eq_some, Option.some.injEq] at h
    obtain ⟨rfl, rfl⟩ := h
    exact joins_of_le (.representedFaces grid)
  | unknown | represented _ | scalar => nomatch h

/-- What one type makes of another is their join.  One case for each line of `absorb?`. -/
theorem joins_of_absorb? {a b c : FieldType} (h : a.absorb? b = some c) : Joins a b c := by
  unfold absorb? at h
  split at h
  · cases h
    exact joins_of_le (unknown_le _)
  · cases h
    exact joins_of_le (.volume _)
  · cases h
    exact joins_of_le (.interiorFaces _)
  · cases h
    -- `onInteriorFaces` and `onVolume`: only nodal volume data are above both
    exact ⟨.nodalFaces, .volume .nodal, fun d h h' => by cases h <;> cases h'; constructor⟩
  · cases h
    exact joins_of_le .nodalFaces
  · obtain ⟨rfl, h⟩ := Option.ite_none_right_eq_some.mp h
    cases h
    exact joins_of_le (.boundary _ _)
  · exact joins_of_withRepresentation? h
  · nomatch h

/-- Of two different types `a` and `b` below a third, `d`, one absorbs the other.  By the steps from
`a` to `d` and from `b` to `d`. -/
theorem exists_absorb?_of_le {a b d : FieldType} (ha : a ≤ d) (hb : b ≤ d) (hne : a ≠ b) :
    ∃ c, a.absorb? b = some c ∨ b.absorb? a = some c := by
  cases le_def.mp ha <;> cases le_def.mp hb <;>
    simp_all [absorb?, withRepresentation?]

variable {a b c : FieldType} {e : Option Expr}

/-- What unification gives is the join, whichever side has absorbed the other. -/
theorem joins_of_unify (h : a.unify b e = .ok c) : Joins a b c := by
  unfold unify at h
  split at h
  next hab =>
    cases h
    exact joins_of_le (le_of_eq hab.symm) |>.symm
  next =>
    split at h
    · nomatch h
    next hl _ =>
      cases h
      exact joins_of_absorb? hl
    next _ hr =>
      cases h
      exact (joins_of_absorb? hr).symm
    next hl _ =>
      split at h
      · cases h
        exact joins_of_absorb? hl
      · nomatch h

/-- Types with a common upper bound `d` unify. -/
theorem exists_unify_of_le {d : FieldType} (ha : a ≤ d) (hb : b ≤ d) (e : Option Expr) :
    ∃ c, a.unify b e = .ok c := by
  unfold unify
  split
  · exact ⟨a, rfl⟩
  next hne =>
    obtain ⟨c, h⟩ := exists_absorb?_of_le ha hb hne
    split
    next hl hr =>
      rw [hl, hr] at h
      simp at h
    next hl _ => exact ⟨_, rfl⟩
    next hr => exact ⟨_, rfl⟩
    next hl hr =>
      rw [if_pos ((joins_of_absorb? hl).unique (joins_of_absorb? hr).symm)]
      exact ⟨_, rfl⟩

/-- Unification succeeds with `c` exactly if `c` is the least type above `a` and `b`. -/
theorem unify_eq_ok_iff : a.unify b e = .ok c ↔ Joins a b c := by
  refine ⟨joins_of_unify, fun h => ?_⟩
  obtain ⟨c', hc'⟩ := exists_unify_of_le h.left h.right e
  rw [hc', (joins_of_unify hc').unique h]

/-- The type `a` is below `b` exactly if unification with `a` adds nothing to `b`. -/
theorem le_iff_unify : a ≤ b ↔ a.unify b e = .ok b :=
  ⟨fun h => unify_eq_ok_iff.mpr (joins_of_le h), fun h => (joins_of_unify h).left⟩

/-- Types that say less unify as well, to a type that says less: a bound of `a'` and `b'` bounds `a`
and `b`. -/
theorem unify_mono {a' b' c' : FieldType} {e' : Option Expr} (ha : a ≤ a') (hb : b ≤ b')
    (h : a'.unify b' e' = .ok c') : ∃ c, a.unify b e = .ok c ∧ c ≤ c' := by
  have h' := joins_of_unify h
  obtain ⟨c, hc⟩ := exists_unify_of_le (ha.trans h'.left) (hb.trans h'.right) e
  exact ⟨c, hc, (joins_of_unify hc).least c' (ha.trans h'.left) (hb.trans h'.right)⟩

/-- Unification never fails for want of passes. -/
theorem unify_ne_unsettled : a.unify b e ≠ .error .unsettled := by
  unfold unify
  intro h
  split at h
  · nomatch h
  · split at h
    · nomatch h
    · nomatch h
    · nomatch h
    · split at h <;> nomatch h

end OperatorTemplate.FieldType
