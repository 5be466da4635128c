import Mathlib.Data.List.Chain
import OperatorTemplate.Proofs.Inference.WellTyped
/-!
# Raising a typing towards another

Of two typings `T ≤ F` that fit, the lower one may be told which expressions are nodal in the upper
one; it still fits (`typed_raised`).  So what a loop has found out about domains does not depend on
whether it knew the nodal representation, which the defaults supply in the end.

That the raised typing obeys the laws is shown law by law (`Law.holds_raise`), since each of them
relates what is the same on both sides: types, representations, or domains.  Domains are the crux.
To be told that it is nodal says nothing of the domain of a type, except for values on the interior
faces, which become volume data (`FieldType.domainPart_raise`); but a well-typed expression is never
just known to live there.  And answers must be shown to go along, between what they were and their
own raised types (`Law.answer_raise_le`), for a law reads them too.
-/

namespace OperatorTemplate

/-! ## Types -/

namespace FieldType

variable {t u f g c : FieldType}

/-- A type has the representation `r` exactly if it says so. -/
theorem representation?_eq_iff {r : Representation} :
    t.representation? = some r ↔ .represented r ≤ t := by
  constructor
  · intro h
    cases t <;> cases h <;> constructor
  · intro h
    cases le_def.mp h <;> rfl

/-- What a type says of representation is said by the type. -/
theorem representationPart_le : t.representationPart ≤ t := by
  cases t <;> constructor

/-- A type that says that it has the representation `r` says this of representation. -/
theorem representationPart_eq {r : Representation} (h : .represented r ≤ t) :
    t.representationPart = .represented r := by
  rw [representationPart, representation?_eq_iff.mpr h]

/-- What a type says of representation is below another type if the other type says it. -/
theorem representationPart_le_iff :
    t.representationPart ≤ c ↔ ∀ r, .represented r ≤ t → .represented r ≤ c := by
  constructor
  · intro h r hr
    rwa [representationPart_eq hr] at h
  · intro h
    rw [representationPart]
    split
    next r hr => exact h r (representation?_eq_iff.mp hr)
    · exact unknown_le _

/-- `t`, told that it is nodal if `f` is. -/
def raise (t f : FieldType) : FieldType :=
  if f.representation? = some .nodal then t.join (.represented .nodal) else t

/-- Where `f` is nodal, the raised type is the join of `t` and nodal. -/
theorem joins_raise (h : t ≤ f) (hf : .represented .nodal ≤ f) :
    Joins t (.represented .nodal) (t.raise f) := by
  rw [raise, if_pos (representation?_eq_iff.mpr hf)]
  exact joins_join h hf

/-- Where `f` is not nodal, raising changes nothing. -/
theorem raise_eq_self (hf : ¬.represented .nodal ≤ f) : t.raise f = t :=
  if_neg (mt representation?_eq_iff.mp hf)

/-- Raising loses no information. -/
theorem le_raise (h : t ≤ f) : t ≤ t.raise f := by
  by_cases hf : .represented .nodal ≤ f
  · exact (joins_raise h hf).left
  · rw [raise_eq_self hf]

/-- Where `f` is nodal, so is the raised type. -/
theorem nodal_le_raise (h : t ≤ f) (hf : .represented .nodal ≤ f) : .represented .nodal ≤ t.raise f :=
  (joins_raise h hf).right

/-- A type below `f` is raised to a type below `f`. -/
theorem raise_le (h : t ≤ f) : t.raise f ≤ f := by
  by_cases hf : .represented .nodal ≤ f
  · exact (joins_raise h hf).least f h hf
  · rw [raise_eq_self hf]
    exact h

/-- Raising respects the order on both sides. -/
theorem raise_mono (htf : t ≤ f) (hug : u ≤ g) (htu : t ≤ u) (hfg : f ≤ g) :
    t.raise f ≤ u.raise g := by
  by_cases hf : .represented .nodal ≤ f
  · exact (joins_raise htf hf).least _ (htu.trans (le_raise hug))
      (nodal_le_raise hug (hf.trans hfg))
  · rw [raise_eq_self hf]
    exact htu.trans (le_raise hug)

/-- Raising respects that one type says what the other says of representation: if `u` says what `t`
says of it, and `g` what `f` says, then the raised `u` says what the raised `t` says. -/
theorem representationPart_raise_mono (htf : t ≤ f) (hug : u ≤ g) (htu : t.representationPart ≤ u)
    (hfg : f.representationPart ≤ g) : (t.raise f).representationPart ≤ u.raise g := by
  by_cases hf : .represented .nodal ≤ f
  · rw [representationPart_eq (nodal_le_raise htf hf)]
    exact nodal_le_raise hug (representationPart_le_iff.mp hfg _ hf)
  · rw [raise_eq_self hf]
    exact htu.trans (le_raise hug)

/-- Raising does not change what a type says of its domain, unless it says no more than that it
lives on the interior faces. -/
theorem domainPart_raise (h : t ≤ f) (ht : ¬t ≤ .onInteriorFaces) :
    (t.raise f).domainPart = t.domainPart := by
  by_cases hf : .represented .nodal ≤ f
  · -- a type with a domain and a representation has no other join with nodal than itself
    have joins := joins_raise h hf
    generalize t.raise f = k at joins
    obtain ⟨left, right, least⟩ := joins
    cases le_def.mp left with
    | refl | volume _ | boundary _ _ => rfl
    | unknown | interiorFaces _ | nodalFaces => exact absurd (by constructor) ht
    | representedVolume r =>
      cases le_def.mp right
      nomatch le_def.mp (least (.represented .nodal) (le_refl _) (le_refl _))
    | representedBoundary tag r =>
      cases le_def.mp right
      nomatch le_def.mp (least (.represented .nodal) (le_refl _) (le_refl _))
    | representedFaces grid => nomatch le_def.mp right
  · rw [raise_eq_self hf]

end FieldType

/-! ## Laws -/

/-- The reading `k` is the reading `o` raised towards `f`. -/
structure Reading.Raised (o f k : Reading) : Prop where
  recorded : k.recorded = o.recorded.raise f.recorded
  le : o.recorded ≤ f.recorded
  not_le : ¬o.recorded ≤ .onInteriorFaces
  answered_le : o.answered ≤ f.answered
  lower : o.answered ≤ k.answered
  upper : k.answered ≤ o.answered.raise f.answered
  ne_unknown : o.answered ≠ .unknown

namespace Reading.Raised

variable {o f k : Reading}

/-- If a node has a type that both readings answer less than, the raised reading answers less than
the raised type of the node. -/
theorem answered_le_raise (h : o.Raised f k) {own own' : FieldType} (hle : own ≤ own')
    (ho : o.answered ≤ own) (hf : f.answered ≤ own') : k.answered ≤ own.raise own' :=
  h.upper.trans (FieldType.raise_mono h.answered_le hle ho hf)

/-- If a node has a type that both readings record more than, the raised reading records more than the
raised type of the node. -/
theorem raise_le_recorded (h : o.Raised f k) {own own' : FieldType} (hle : own ≤ own')
    (ho : own ≤ o.recorded) (hf : own' ≤ f.recorded) : own.raise own' ≤ k.recorded :=
  h.recorded ▸ FieldType.raise_mono hle h.le ho hf

/-- The raised reading is scalar exactly if the lower one is. -/
theorem scalar_iff (h : o.Raised f k) : o.answered = .scalar ↔ k.answered = .scalar :=
  FieldType.eq_scalar_iff_of_le h.lower h.ne_unknown

/-- The upper reading is scalar exactly if the lower one is. -/
theorem scalar_iff' (h : o.Raised f k) : o.answered = .scalar ↔ f.answered = .scalar :=
  FieldType.eq_scalar_iff_of_le h.answered_le h.ne_unknown

end Reading.Raised

namespace Law

variable {ι : Type} {xs : List ι} {o f k : ι → Reading} {own own' : FieldType} {law : Law}

/-- A law that holds of two typings, the first below the second, holds of the raised one. -/
theorem holds_raise (h : ∀ x ∈ xs, (o x).Raised (f x) (k x)) (hle : own ≤ own')
    (ho : law.Holds own (xs.map o)) (hf : law.Holds own' (xs.map f)) :
    law.Holds (own.raise own') (xs.map k) := by
  have above : own ≤ own.raise own' := FieldType.le_raise hle
  cases law with
  | leaf _ | given _ => exact ho.trans above
  | flux =>
    refine ⟨ho.1.trans above, ?_⟩
    rw [List.isChain_map]
    -- each input of a flux says what the one before it answers, in both typings
    have chains := isChain_and (List.isChain_map o |>.mp ho.2) (List.isChain_map f |>.mp hf.2)
    refine chains.imp_of_mem_imp fun x y hx hy ⟨hox, hfx⟩ => ?_
    rw [(h y hy).recorded]
    exact (FieldType.representationPart_mono (h x hx).upper).trans
      (FieldType.representationPart_raise_mono (h x hx).answered_le (h y hy).le hox hfx)
  | arithmetic =>
    -- a vector operand answers less than the node, which says less than is recorded of the
    -- operand; raising respects both
    obtain ⟨hs, ho⟩ := ho
    obtain ⟨-, hf⟩ := hf
    rw [List.forall_mem_map] at hs ho hf
    refine ⟨fun hk => ?_, ?_⟩
    · rw [List.forall_mem_map] at hk
      exact (hs fun x hx => (h x hx).scalar_iff.mpr (hk x hx)).trans above
    · rw [List.forall_mem_map]
      intro x hx hk
      have raised := h x hx
      have hne : (o x).answered ≠ .scalar := mt raised.scalar_iff.mp hk
      obtain ⟨hao, hro⟩ := ho x hx hne
      obtain ⟨haf, hrf⟩ := hf x hx (mt raised.scalar_iff'.mpr hne)
      exact ⟨raised.answered_le_raise hle hao haf, raised.raise_le_recorded hle hro hrf⟩
  | same =>
    show ∀ r ∈ xs.map k, r.recorded = _
    rw [List.forall_mem_map]
    intro x hx
    have so : (o x).recorded = own := ho _ (List.mem_map_of_mem hx)
    have sf : (f x).recorded = own' := hf _ (List.mem_map_of_mem hx)
    rw [(h x hx).recorded, so, sf]
  | maximum =>
    show ∀ r ∈ xs.map k, _ ∧ _
    rw [List.forall_mem_map]
    intro x hx
    obtain ⟨hro, hao⟩ := ho _ (List.mem_map_of_mem hx)
    obtain ⟨hrf, haf⟩ := hf _ (List.mem_map_of_mem hx)
    exact ⟨(h x hx).raise_le_recorded hle hro hrf, (h x hx).answered_le_raise hle hao haf⟩
  | restrict tag =>
    refine ⟨ho.1.trans above, ?_⟩
    rw [List.forall_mem_map]
    intro x hx
    have raised := h x hx
    obtain ⟨hro, hao⟩ := ho.2 _ (List.mem_map_of_mem hx)
    obtain ⟨hrf, haf⟩ := hf.2 _ (List.mem_map_of_mem hx)
    -- node and operand say the same of representation, in both typings
    rw [raised.recorded]
    exact ⟨FieldType.representationPart_raise_mono hle raised.le hro hrf,
      FieldType.representationPart_raise_mono raised.le hle hao haf⟩
  | upsample grid =>
    refine ⟨ho.1.trans above, ?_⟩
    rw [List.forall_mem_map]
    intro x hx
    have raised := h x hx
    obtain ⟨hro, hao⟩ := ho.2 _ (List.mem_map_of_mem hx)
    have hn : ¬own ≤ .onInteriorFaces := fun hc => nomatch FieldType.le_def.mp (ho.1.trans hc)
    rw [raised.recorded, FieldType.domainPart_raise hle hn,
      FieldType.domainPart_raise raised.le raised.not_le]
    exact ⟨hro.trans (FieldType.le_raise raised.le), hao.trans above⟩
  | illegal => exact ho

/-- What a law answers of the raised typing is at most its answer of the lower one, raised towards
that of the upper one. -/
theorem answer_raise_le (h : ∀ x ∈ xs, (o x).Raised (f x) (k x))
    (ho : law.Holds own (xs.map o)) (hf : law.Holds own' (xs.map f))
    (hans : law.answer own (xs.map o) ≤ law.answer own' (xs.map f)) :
    law.answer (own.raise own') (xs.map k)
      ≤ (law.answer own (xs.map o)).raise (law.answer own' (xs.map f)) := by
  cases law with
  | leaf _ | same => exact le_refl _
  | given _ | flux | illegal => exact FieldType.le_raise hans
  | arithmetic =>
    have scalar : (∀ r ∈ xs.map k, r.answered = .scalar) ↔ ∀ r ∈ xs.map o, r.answered = .scalar := by
      rw [List.forall_mem_map, List.forall_mem_map]
      exact forall_congr' fun x => forall_congr' fun hx => (h x hx).scalar_iff.symm
    have scalar' : (∀ r ∈ xs.map f, r.answered = .scalar) ↔ ∀ r ∈ xs.map o, r.answered = .scalar := by
      rw [List.forall_mem_map, List.forall_mem_map]
      exact forall_congr' fun x => forall_congr' fun hx => (h x hx).scalar_iff'.symm
    dsimp only [answer]
    by_cases hs : ∀ r ∈ xs.map o, r.answered = .scalar
    · rw [if_pos hs, if_pos (scalar.mpr hs), if_pos (scalar'.mpr hs)]
      exact FieldType.le_raise (le_refl _)
    · rw [if_neg hs, if_neg (mt scalar.mp hs), if_neg (mt scalar'.mp hs)]
  | maximum =>
    match xs, h with
    | [], _ | _ :: _ :: _, _ => exact FieldType.unknown_le _
    | [x], h => exact (h x List.mem_cons_self).upper
  | restrict tag =>
    match xs, h with
    | [], _ | _ :: _ :: _, _ => exact FieldType.unknown_le _
    | [x], h =>
      have raised := h x List.mem_cons_self
      have joins := FieldType.joins_join ho.1 (ho.2 _ List.mem_cons_self).2
      have joins' := FieldType.joins_join hf.1 (hf.2 _ List.mem_cons_self).2
      have bound := joins.left.trans (FieldType.le_raise hans)
      have part : (k x).recorded.representationPart ≤ _ := raised.recorded ▸
        FieldType.representationPart_raise_mono raised.le hans joins.right joins'.right
      exact (FieldType.joins_join bound part).least _ bound part
  | upsample grid =>
    match xs, h with
    | [], _ | _ :: _ :: _, _ => exact FieldType.unknown_le _
    | [x], h =>
      have raised := h x List.mem_cons_self
      have same : (k x).recorded.domainPart = (o x).recorded.domainPart := by
        rw [raised.recorded, FieldType.domainPart_raise raised.le raised.not_le]
      show FieldType.join _ (k x).recorded.domainPart ≤ _
      rw [same]
      exact FieldType.le_raise hans

end Law

/-! ## Expressions -/

namespace Expr

variable {T F : Expr → FieldType}

/-- The typing `T`, raised towards `F`. -/
def raised (T F : Expr → FieldType) (e : Expr) : FieldType := (T e).raise (F e)

/-- Let `e` be well typed in `T` and in `F`, and let `T` be below `F` on what is visited.  Then `e`
is well typed in the raised typing, and answers at most its answer in `T`, raised towards that in
`F`.  By induction on the size of `e`. -/
theorem typed_raised {e : Expr} (hT : Typed T e) (hF : Typed F e)
    (h : ∀ x, Visited x e → T x ≤ F x) :
    Typed (raised T F) e
      ∧ answer (raised T F) e ≤ (answer T e).raise (answer F e) := by
  have ih (o) (ho : o ∈ e.demands) : Typed (raised T F) o.2
      ∧ answer (raised T F) o.2 ≤ (answer T o.2).raise (answer F o.2) :=
    have := size_lt_of_mem_demands ho
    typed_raised (hT.operand ho) (hF.operand ho) fun x hx => h x (.operand ho hx)
  -- the readings of the operands are raised ones, so the two lemmas about laws apply
  have operands : ∀ o ∈ e.demands, (⟨T o.2, answer T o.2⟩ : Reading).Raised ⟨F o.2, answer F o.2⟩
      ⟨raised T F o.2, answer (raised T F) o.2⟩ := by
    intro o ho
    have below (x : Expr) (hx : Visited x o.2) : T x ≤ F x := h x (.operand ho hx)
    exact {
      recorded := rfl
      le := below o.2 .self
      not_le := (hT.operand ho).not_le
      answered_le := answer_mono (hT.operand ho) (hF.operand ho) below
      lower := answer_mono (hT.operand ho) (ih o ho).1 fun x hx => FieldType.le_raise (below x hx)
      upper := (ih o ho).2
      ne_unknown := (hT.operand ho).answer_ne_unknown }
  have own := h e .self
  refine ⟨typed_iff.mpr ⟨⟨fun o ho => ?_, ?_⟩, fun o ho => (ih o ho).1⟩, ?_⟩
  · exact (hT.fits.demands o ho).trans (FieldType.le_raise (h _ (.operand ho .self)))
  · exact Law.holds_raise operands own hT.fits.law hF.fits.law
  · have mono := answer_mono hT hF h
    rw [answer_eq T, answer_eq F] at mono ⊢
    rw [answer_eq (raised T F)]
    exact Law.answer_raise_le operands hT.fits.law hF.fits.law mono
termination_by e.size

end Expr

end OperatorTemplate
