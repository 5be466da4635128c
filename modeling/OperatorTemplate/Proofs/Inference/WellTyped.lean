import OperatorTemplate.Proofs.Inference.Judgement
/-!
# Properties of well-typed expressions

What a node answers is at most what is recorded of it (`Typed.answer_le`), and is never open about
whether it lives on the interior faces (`Typed.not_answer_le`).  So something is known of every node
of a well-typed expression.  Answers grow with the types (`answer_mono`), and depend on what is
visited alone (`answer_congr`).

Each of these is a statement about laws, with one case for each law, and then one about expressions,
by induction on the size: what the law reads of the operands is what the induction says of them.
-/

namespace OperatorTemplate

/-! ## Laws -/

/-- One reading says less than another, and is scalar if the other is. -/
structure Reading.Less (o o' : Reading) : Prop where
  recorded : o.recorded ≤ o'.recorded
  answered : o.answered ≤ o'.answered
  scalar : o.answered = .scalar ↔ o'.answered = .scalar

namespace Law

variable {law : Law} {own : FieldType} {operands : List Reading}

/-- Where a law holds, the answer is below the type of the node. -/
theorem answer_le (h : law.Holds own operands) : law.answer own operands ≤ own := by
  -- the answer of a restriction, or of an interpolation, is a join of two types below that of the
  -- node
  cases law with
  | leaf _ | same => exact le_refl _
  | given _ => exact h
  | flux => exact h.1
  | arithmetic =>
    dsimp only [answer]
    split
    next hs => exact h.1 hs
    · exact le_refl _
  | maximum =>
    dsimp only [answer]
    split
    · exact (h _ List.mem_cons_self).2
    · exact FieldType.unknown_le _
  | restrict tag =>
    dsimp only [answer]
    split
    · obtain ⟨hb, ho⟩ := h
      have hr := (ho _ List.mem_cons_self).2
      exact (FieldType.joins_join hb hr).least _ hb hr
    · exact FieldType.unknown_le _
  | upsample grid =>
    dsimp only [answer]
    split
    · obtain ⟨hg, ho⟩ := h
      have hd := (ho _ List.mem_cons_self).2
      exact (FieldType.joins_join hg hd).least _ hg hd
    · exact FieldType.unknown_le _
  | illegal => exact h.elim

/-- The law of a node with a single operand. -/
def isUnary : Law → Bool
  | .same | .maximum | .restrict _ | .upsample _ => true
  | _ => false

/-- The law does not leave it open whether a node lives on the interior faces. -/
def isEvident : Law → Prop
  | .leaf t | .given t => ¬t ≤ .onInteriorFaces
  | _ => True

/-- Let a law hold that is evident, and let the answers of the operands be below what is recorded,
but not below the interior faces.  Then the answer is not below the interior faces either. -/
theorem not_answer_le (hl : law.isEvident) (hu : law.isUnary = true → ∃ o, operands = [o])
    (h : law.Holds own operands) (ho : ∀ o ∈ operands, o.answered ≤ o.recorded)
    (hn : ∀ o ∈ operands, ¬o.answered ≤ .onInteriorFaces) :
    ¬law.answer own operands ≤ .onInteriorFaces := by
  cases law with
  | leaf bound => exact fun hc => hl (h.trans hc)
  | given result => exact hl
  | flux => nofun
  | arithmetic =>
    dsimp only [answer]
    split
    · nofun
    next hs =>
      obtain ⟨o, hmem, hne⟩ : ∃ o ∈ operands, o.answered ≠ .scalar := by simpa using hs
      -- arithmetic that is not scalar is above a vector operand
      exact fun hc => hn o hmem ((h.2 o hmem hne).1.trans hc)
  | same =>
    obtain ⟨o, rfl⟩ := hu rfl
    have same : o.recorded = own := h o List.mem_cons_self
    exact fun hc => hn o List.mem_cons_self ((ho o List.mem_cons_self).trans (same ▸ hc))
  | maximum =>
    obtain ⟨o, rfl⟩ := hu rfl
    exact hn o List.mem_cons_self
  | restrict tag =>
    obtain ⟨o, rfl⟩ := hu rfl
    have joins := FieldType.joins_join h.1 (h.2 o List.mem_cons_self).2
    exact fun hc => nomatch FieldType.le_def.mp (joins.left.trans hc)
  | upsample grid =>
    obtain ⟨o, rfl⟩ := hu rfl
    have joins := FieldType.joins_join h.1 (h.2 o List.mem_cons_self).2
    exact fun hc => nomatch FieldType.le_def.mp (joins.left.trans hc)
  | illegal => exact h.elim

/-- Let a law hold of `own'` and `operands'`.  If `own` and `operands` say less, and are scalar
where those are, then the law answers less of them. -/
theorem answer_mono {own' : FieldType} {operands' : List Reading} (h : law.Holds own' operands')
    (ho : own ≤ own') (hops : List.Forall₂ Reading.Less operands operands') :
    law.answer own operands ≤ law.answer own' operands' := by
  cases law with
  | leaf _ | same => exact ho
  | given _ | flux | illegal => exact le_refl _
  | arithmetic =>
    -- arithmetic is scalar on both sides or on neither
    have scalar : (∀ o ∈ operands, o.answered = .scalar) ↔ ∀ o ∈ operands', o.answered = .scalar := by
      clear h
      induction hops with
      | nil => exact Iff.rfl
      | cons less _ ih => rw [List.forall_mem_cons, List.forall_mem_cons, less.scalar, ih]
    dsimp only [answer]
    by_cases hs : ∀ o ∈ operands, o.answered = .scalar
    · rw [if_pos hs, if_pos (scalar.mp hs)]
    · rw [if_neg hs, if_neg (mt scalar.mpr hs)]
      exact ho
  | maximum =>
    cases hops with
    | nil => exact le_refl _
    | cons less rest =>
      cases rest with
      | nil => exact less.answered
      | cons _ _ => exact le_refl _
  | restrict tag =>
    cases hops with
    | nil => exact le_refl _
    | cons less rest =>
      cases rest with
      | nil =>
        have joins := FieldType.joins_join h.1 (h.2 _ List.mem_cons_self).2
        have below := (FieldType.representationPart_mono less.recorded).trans joins.right
        exact (FieldType.joins_join joins.left below).least _ joins.left below
      | cons _ _ => exact le_refl _
  | upsample grid =>
    cases hops with
    | nil => exact le_refl _
    | cons less rest =>
      cases rest with
      | nil =>
        have joins := FieldType.joins_join h.1 (h.2 _ List.mem_cons_self).2
        have below := (FieldType.domainPart_mono less.recorded).trans joins.right
        exact (FieldType.joins_join joins.left below).least _ joins.left below
      | cons _ _ => exact le_refl _

end Law

/-! ## Expressions -/

namespace Expr

variable {T D : Expr → FieldType} {e : Expr}

/-- A node with the law of a single operand visits one operand. -/
theorem exists_demand_of_isUnary (h : e.law.isUnary = true) : ∃ o, e.demands = [o] := by
  cases e with
  | atom a =>
    cases a with
    | normal _ _ grid => cases grid <;> nomatch h
    | _ => nomatch h
  | shared body label => exact ⟨_, rfl⟩
  | apply op field => cases op <;> first | exact ⟨_, rfl⟩ | nomatch h
  | domainFlux interiors boundaries =>
    change (if boundaries.all isPair then Law.flux else Law.illegal).isUnary = true at h
    split at h <;> nomatch h
  | _ => nomatch h

/-- A node with the law of a single operand reads one operand. -/
theorem exists_reading_of_isUnary (h : e.law.isUnary = true) : ∃ o, e.readings T = [o] := by
  obtain ⟨o, ho⟩ := exists_demand_of_isUnary h
  exact ⟨_, congrArg (List.map _) ho⟩

/-- Only a maximum over elements has the law of a maximum. -/
theorem eq_of_law_maximum (h : e.law = .maximum) : ∃ x, e = .apply .elementwiseMax x := by
  cases e with
  | atom a =>
    cases a with
    | normal _ _ grid => cases grid <;> nomatch h
    | _ => nomatch h
  | apply op field =>
    cases op with
    | elementwiseMax => exact ⟨field, rfl⟩
    | _ => nomatch h
  | domainFlux interiors boundaries =>
    change (if boundaries.all isPair then Law.flux else Law.illegal) = _ at h
    split at h <;> nomatch h
  | _ => nomatch h

/-- No node has a law that leaves it open whether the node lives on the interior faces. -/
theorem isEvident_law (e : Expr) : e.law.isEvident := by
  cases e with
  | atom a =>
    cases a with
    | normal _ _ grid => cases grid <;> nofun
    | kernelNormal _ => trivial
    | _ => nofun
  | apply op field =>
    cases op with
    | flux _ | exchange _ _ | external _ | elementwiseMax | restrict _ | upsample _ => trivial
    | _ => nofun
  | domainFlux interiors boundaries =>
    show (if boundaries.all isPair then Law.flux else Law.illegal).isEvident
    split <;> trivial
  | subscript _ _ | exchange _ _ _ => nofun
  | _ => trivial

/-- A node that fits answers at most its type. -/
theorem Fits.answer_le (h : Fits T e) : answer T e ≤ T e := by
  rw [answer_eq]
  exact Law.answer_le h.law

/-- A well-typed node answers at most its type. -/
theorem Typed.answer_le (h : Typed T e) : answer T e ≤ T e := h.fits.answer_le

/-- The answer of a well-typed node is not below the interior faces.  By induction on the size. -/
theorem Typed.not_answer_le {e : Expr} (h : Typed T e) : ¬answer T e ≤ .onInteriorFaces := by
  rw [answer_eq]
  refine Law.not_answer_le e.isEvident_law exists_reading_of_isUnary h.fits.law ?_ ?_
  · intro r hr
    obtain ⟨o, ho, rfl⟩ := mem_readings.mp hr
    exact (h.operand ho).answer_le
  · intro r hr
    obtain ⟨o, ho, rfl⟩ := mem_readings.mp hr
    have := size_lt_of_mem_demands ho
    exact (h.operand ho).not_answer_le
termination_by e.size

/-- A well-typed node answers something. -/
theorem Typed.answer_ne_unknown (h : Typed T e) : answer T e ≠ .unknown := fun hu =>
  h.not_answer_le (hu ▸ FieldType.unknown_le _)

/-- The type of a well-typed node is not below the interior faces. -/
theorem Typed.not_le (h : Typed T e) : ¬T e ≤ .onInteriorFaces := fun hc =>
  h.not_answer_le (h.answer_le.trans hc)

/-- Something is known of a well-typed node. -/
theorem Typed.ne_unknown (h : Typed T e) : T e ≠ .unknown := fun hu =>
  h.not_le (hu ▸ FieldType.unknown_le _)

/-- Let `e` be well typed in `T` and in `D`, and let `T` be below `D` on what is visited.  Then the
answer in `T` is below the answer in `D`. -/
theorem answer_mono {e : Expr} (hT : Typed T e) (hD : Typed D e) (h : ∀ x, Visited x e → T x ≤ D x) :
    answer T e ≤ answer D e := by
  rw [answer_eq, answer_eq]
  refine Law.answer_mono hD.fits.law (h e .self) ?_
  rw [readings, readings, List.forall₂_map_left_iff, List.forall₂_map_right_iff]
  refine List.forall₂_same.mpr fun o ho => ?_
  have := size_lt_of_mem_demands ho
  have mono : answer T o.2 ≤ answer D o.2 :=
    answer_mono (hT.operand ho) (hD.operand ho) fun x hx => h x (.operand ho hx)
  exact ⟨h _ (.operand ho .self), mono,
    FieldType.eq_scalar_iff_of_le mono (hT.operand ho).answer_ne_unknown⟩
termination_by e.size

/-- If `D` and `T` agree on what is visited from `e`, so do the answers of `e`. -/
theorem answer_congr {e : Expr} (h : ∀ x, Visited x e → D x = T x) : answer D e = answer T e := by
  rw [answer_eq, answer_eq, h e .self]
  congr 1
  refine List.map_congr_left fun o ho => ?_
  have := size_lt_of_mem_demands ho
  rw [h _ (.operand ho .self), answer_congr fun x hx => h x (.operand ho hx)]
termination_by e.size

/-- If `D` and `T` agree on what is visited from `e`, and `e` fits in `T`, it fits in `D`. -/
theorem Fits.congr (hf : Fits T e) (h : ∀ x, Visited x e → D x = T x) : Fits D e where
  demands o ho := by
    rw [h _ (.operand ho .self)]
    exact hf.demands o ho
  law := by
    have readings : e.readings D = e.readings T := List.map_congr_left fun o ho => by
      rw [h _ (.operand ho .self), answer_congr fun x hx => h x (.operand ho hx)]
    rw [readings, h e .self]
    exact hf.law

end Expr

end OperatorTemplate
