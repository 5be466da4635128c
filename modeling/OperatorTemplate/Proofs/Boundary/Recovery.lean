import OperatorTemplate.Proofs.Boundary.Transport
/-!
# Recovering a typing of the roots

The loops of inference find the least types that fit.  To compare what they find for the roots with
what they find for the rewritten roots, a typing `T` of the rewritten roots has to be read back as a
typing of the roots.  Let `D` be a portable typing of the roots, and let `T` solve the rewritten
roots and say no more than `D` does (`Refines`).  The typing `P` that is `T` where something
survives, and `D` elsewhere, solves the roots (`Recovers.solves`).

Where a node and its operands all survive, or all are lost, the conditions at the node are those of
`T` or those of `D`.  The two meet on the boundary fields, and there it must be shown that it makes
no difference which of them speaks: what survives of a boundary field has the same type in `T` as in
`D` (`Refines.face_eq`).  This is the crux.  It holds because each type on a face is determined from
below: boundary inputs have representations of their own, what has moved is nodal, normals are known
by assumption, and arithmetic passes a boundary type on from its operands, by induction on the size.

The consequence that the next module uses is `Refines.fixpoint_le`: a loop over the roots, started
below `D` and below what `T` reads back, ends below them.
-/

namespace OperatorTemplate

open OperatorTemplate.Expr FieldType

variable {roots roots' : List Expr} {D T P : Expr → FieldType} {x y : Expr}

/-- A known type below scalar is scalar. -/
theorem FieldType.eq_scalar_of_le {t : FieldType} (h : t ≤ .scalar) (hn : t ≠ .unknown) :
    t = .scalar := by
  cases le_def.mp h with
  | refl => rfl
  | unknown => exact absurd rfl hn

/-- For everything that survives, the type that `E` gives it is below the type that `G` gives to its
rewriting. -/
def Carried (roots roots' : List Expr) (E G : Expr → FieldType) : Prop :=
  ∀ e y, Reached roots e → Rewrites e y → Reached roots' y → E e ≤ G y

/-- `T` solves the rewritten roots, says no more than the portable typing `D`, and knows the types
of the normals in boundary fields: they are those of `D`. -/
structure Refines (roots roots' : List Expr) (D T : Expr → FieldType) : Prop where
  portable : Portable roots roots' D
  solves : Solves roots' T
  le : ∀ e y, Reached roots e → Rewrites e y → Reached roots' y → T y ≤ D e
  normal : ∀ tag axis, OnFace roots (.atom (.normal tag axis none)) →
    Reached roots' (.atom (.normal tag axis none)) →
    T (.atom (.normal tag axis none)) = D (.atom (.normal tag axis none))

/-! ## Boundary fields -/

namespace Refines

variable (q : Refines roots roots' D T)

include q

/-- If a restriction of `u` stands on a face, the rewriting `z` of `u` is visited, and its type in
`T` is nodal volume data.  It is read on the interior faces, so it is above them, it is below nodal
volume data, which is its type in `D`, and it is not just the interior faces, which is the type of
nothing that is typed. -/
theorem moved_eq {tag : BoundaryTag} {u : Expr} (w : Face roots roots' (.apply (.restrict tag) u)) :
    ∃ z, Rewrites u z ∧ Reached roots' z ∧ T z = .volume .nodal := by
  obtain ⟨z, hr, hz⟩ := w.exists_moved
  have survives := w.survives.operand hz
  have demanded := (q.solves _ w.survives).demands _ hz
  have below := q.le u z
    (w.onFace.reached.operand (o := (.onVolume, u)) List.mem_cons_self) hr survives
  rw [q.portable.moved_type w.onFace] at below
  refine ⟨z, hr, survives, ?_⟩
  have known := (q.solves.typed survives).not_le
  change FieldType.onInteriorFaces ≤ T z at demanded
  generalize T z = t at demanded below known
  cases le_def.mp demanded with
  | refl => exact absurd (le_refl _) known
  | interiorFaces _ => nomatch le_def.mp below
  | nodalFaces => rfl

/-- In `D`, what stands on a face has boundary data for a type, with some representation, or is
scalar. -/
theorem face_cases (w : Face roots roots' x) : (∃ r, D x = .boundary w.tag r) ∨ D x = .scalar := by
  have reached := reached_component w.reached w.mem
  obtain ⟨r, hr⟩ := q.portable.component_type w.reached w.mem
  refine ((q.portable.solves.typed reached).inlined_type (q.portable.final _ reached)
    w.inlined).imp_left fun hx => ⟨r, hx.trans hr⟩

/-- Boundary data keep their type in `T` at a node that translation looks inside, if the operand `c`
has a rewriting `z` with that type. -/
theorem le_of_operand {c z : Expr} {tag : BoundaryTag} {r : Representation}
    (ht : x.IsTransparent) (hr : Rewrites x y) (hy : Reached roots' y)
    (hp : x.isPairFlux = false) (hb : D x = .boundary tag r) (hc : c ∈ x.children)
    (hcz : Rewrites c z) (hz : Reached roots' z) (hTz : T z = .boundary tag r) : D x ≤ T y := by
  have typed := q.solves.typed hy
  obtain ⟨⟨t, z'⟩, ho', -, hr'⟩ := exists_right_of_forall₂ (demands_of_rewritten hp hr)
    (mem_demands_of_child (law_of_isTransparent ht) hc)
  obtain rfl := hcz.unique hr'
  have answers := (q.solves.typed hz).answer_eq_of_boundary hTz
  have reading := mem_readings (T := T).mpr ⟨_, ho', rfl⟩
  have law := typed.fits.law
  rw [law_of_rewritten hp hr] at law
  rw [hb, ← hTz]
  -- arithmetic is above what its operands answer, unless that is scalar; a shared expression has
  -- the type of its body
  rcases law_of_isTransparent ht with hl | hl
  · rw [hl] at law
    have hne : answer T z ≠ .scalar := by rw [answers, hTz]; nofun
    exact answers ▸ (law.2 _ reading hne).1
  · rw [hl] at law
    exact le_of_eq (law _ reading)

/-- Arithmetic whose type is boundary data has an operand of the same type. -/
theorem exists_operand_on_boundary {tag : BoundaryTag} {r : Representation} (hx : Reached roots x)
    (ht : x.IsTransparent) (hb : D x = .boundary tag r) :
    ∃ c ∈ x.children, D c = .boundary tag r := by
  have law := (q.portable.solves x hx).law
  have operand {o : FieldType × Expr} (ho : o ∈ x.demands) : o.2 ∈ x.children := by
    rw [demands_of_isTransparent ht] at ho
    obtain ⟨c, hc, rfl⟩ := List.mem_map.mp ho
    exact hc
  rcases law_of_isTransparent ht with hl | hl
  · -- if all operands answered scalar, the node would be above scalar
    rw [hl, hb] at law
    have hs : ¬∀ o ∈ readings D x, o.answered = .scalar := fun hs =>
      nomatch le_def.mp (law.1 hs)
    obtain ⟨reading, hmem, hne⟩ : ∃ o ∈ readings D x, o.answered ≠ .scalar := by simpa using hs
    obtain ⟨o, ho, rfl⟩ := mem_readings.mp hmem
    exact ⟨o.2, operand ho, eq_of_isFinal_of_le rfl (law.2 _ hmem hne).2⟩
  · -- a shared expression has the type of its body
    obtain ⟨o, ho⟩ := exists_demand_of_isUnary (e := x) (by rw [hl]; rfl)
    have hmem : o ∈ x.demands := ho ▸ List.mem_cons_self
    rw [hl] at law
    exact ⟨o.2, operand hmem, (law _ (mem_readings.mpr ⟨o, hmem, rfl⟩)).trans hb⟩

/-- What survives of a boundary field has the same type in `T` as in `D`.  By induction on the size
of `x`, along the kinds of things that are inlined. -/
theorem face_eq {x y : Expr} (w : Face roots roots' x) (hr : Rewrites x y) (hy : Reached roots' y) :
    T y = D x := by
  have reached := w.onFace.reached
  have typed := q.solves.typed hy
  have below := q.le x y reached hr hy
  rcases q.face_cases w with ⟨r, hb⟩ | hs
  · refine le_antisymm below ?_
    -- `x` is boundary data, with the representation `r`
    rcases w.kinds with ht | ⟨tag, u, rfl⟩ | hi | ha
    · -- arithmetic: an operand `c` is boundary data too, and has kept its type by induction
      obtain ⟨c, hc, hcb⟩ := q.exists_operand_on_boundary reached ht hb
      obtain ⟨z, hz, hcz⟩ := exists_right_of_forall₂ (hr.rebuilt w.isPairFlux_eq_false).2 hc
      have := size_lt_of_mem_children hc
      have survives : Reached roots' z := by
        obtain ⟨o', ho', -, hr'⟩ := exists_right_of_forall₂
          (demands_of_rewritten w.isPairFlux_eq_false hr)
          (mem_demands_of_child (law_of_isTransparent ht) hc)
        exact hcz.unique hr' ▸ hy.operand ho'
      exact q.le_of_operand ht hr hy w.isPairFlux_eq_false hb hc hcz survives
        ((face_eq (w.operand ht hc) hcz survives).trans hcb)
    · -- a restriction of what has moved
      obtain ⟨z, huz, hz, hTz⟩ := q.moved_eq w
      obtain ⟨⟨t, z'⟩, ho', -, hr'⟩ :=
        exists_right_of_forall₂ (demands_of_rewritten rfl hr) List.mem_cons_self
      obtain rfl := huz.unique hr'
      have law := typed.fits.law
      rw [law_of_rewritten rfl hr] at law
      have nodal := (law.2 _ (mem_readings.mpr ⟨_, ho', rfl⟩)).2
      rw [hTz] at nodal
      rw [q.portable.restricted tag u w.onFace, eq_boundary law.1 nodal]
    · -- a boundary input
      obtain ⟨z, hxz, hz⟩ := w.exists_input hi
      obtain rfl := hr.unique hxz
      have demanded := (q.solves _ w.survives).demands _ hz
      obtain ⟨r', hr'⟩ := typed.exists_representation (input?_of_rewrites hr hi)
      have known : T y = .boundary w.tag r' := eq_boundary demanded hr'
      rw [hb, known] at below
      rw [hb, known]
      exact le_of_eq (eq_of_isFinal_of_le rfl below)
    · -- atoms are left alone; constants and parameters are scalar, and normals are known
      have self : y = x := by
        rcases ha with ⟨_, rfl⟩ | ⟨_, rfl⟩ | ⟨_, _, _, rfl⟩ <;> exact rewrites_atom hr
      subst self
      have bound := typed.fits.law
      have bound' := (q.portable.solves _ reached).law
      rcases ha with ⟨_, rfl⟩ | ⟨_, rfl⟩ | ⟨tag, axis, grid, rfl⟩
      · exact absurd (eq_of_isFinal_of_le rfl bound') (by rw [hb]; nofun)
      · exact absurd (eq_of_isFinal_of_le rfl bound') (by rw [hb]; nofun)
      · cases grid with
        | none => exact le_of_eq (q.normal tag axis w.onFace hy).symm
        | some grid =>
          exact le_of_eq ((eq_of_isFinal_of_le rfl bound').trans
            (eq_of_isFinal_of_le rfl bound).symm)
  · -- `x` is scalar, and below scalar there is nothing that is known
    rw [hs] at below ⊢
    exact eq_scalar_of_le below typed.ne_unknown
termination_by x.size

end Refines

/-! ## The recovered typing -/

/-- `P` is `T` read back along the rewriting, and `D` where nothing survives. -/
structure Recovers (roots roots' : List Expr) (D T P : Expr → FieldType) : Prop where
  refines : Refines roots roots' D T
  transports : Transports roots roots' P T
  lost : ∀ e, Reached roots e → ¬Survives roots' e → P e = D e

namespace Recovers

variable (q : Recovers roots roots' D T P)

include q

/-- What stands on a face has the same type in `P` as in `D`, whether it survives or not. -/
theorem face_eq (w : Face roots roots' x) : P x = D x := by
  by_cases hs : Survives roots' x
  · obtain ⟨y, hr, hy⟩ := hs
    rw [← q.transports x y w.onFace.reached hr hy]
    exact q.refines.face_eq w hr hy
  · exact q.lost x w.onFace.reached hs

/-- What stands on a face and survives gives the same answer in `P` as in `D`. -/
theorem face_answer_of_survives (w : Face roots roots' x) (hs : Survives roots' x) :
    answer P x = answer D x := by
  obtain ⟨y, hr, hy⟩ := hs
  have reached := w.onFace.reached
  have typed := q.refines.solves.typed hy
  have typedD := q.refines.portable.solves.typed reached
  have same := q.refines.face_eq w hr hy
  rw [← q.transports.answer_eq q.refines.portable.none_vanish reached hr hy]
  rcases q.refines.face_cases w with ⟨r, hb⟩ | hs
  · rw [typed.answer_eq_of_boundary (same.trans hb), typedD.answer_eq_of_boundary hb, same]
  · rw [eq_scalar_of_le (hs ▸ same ▸ typed.answer_le) typed.answer_ne_unknown,
      eq_scalar_of_le (hs ▸ typedD.answer_le) typedD.answer_ne_unknown]

/-- If a restriction of `u` stands on a face, `u` has the same type in `P` as in `D`. -/
theorem moved_eq {tag : BoundaryTag} {u : Expr} (w : Face roots roots' (.apply (.restrict tag) u)) :
    P u = D u := by
  obtain ⟨z, hr, hz, hT⟩ := q.refines.moved_eq w
  have reached : Reached roots u :=
    w.onFace.reached.operand (o := (.onVolume, u)) List.mem_cons_self
  rw [← q.transports u z reached hr hz, hT, q.refines.portable.moved_type w.onFace]

/-- At a node on a face that translation looks inside, the readings in `P` are those in `D`, if the
children give the same answers. -/
theorem readings_eq_of_isTransparent (ht : x.IsTransparent) (w : Face roots roots' x)
    (ih : ∀ c ∈ x.children, answer P c = answer D c) : readings P x = readings D x := by
  refine List.map_congr_left fun o ho => ?_
  rw [demands_of_isTransparent ht] at ho
  obtain ⟨c, hc, rfl⟩ := List.mem_map.mp ho
  rw [q.face_eq (w.operand ht hc), ih c hc]

/-- What stands on a face gives the same answer in `P` as in `D`.  By induction on the size of `x`;
only what is lost needs the induction. -/
theorem face_answer {x : Expr} (w : Face roots roots' x) : answer P x = answer D x := by
  by_cases hs : Survives roots' x
  · exact q.face_answer_of_survives w hs
  · rw [answer_eq, answer_eq D, q.face_eq w]
    rcases w.kinds with ht | ⟨tag, u, rfl⟩ | hi | ha
    · -- arithmetic answers by its readings
      rw [q.readings_eq_of_isTransparent ht w fun c hc =>
        have := size_lt_of_mem_children hc
        face_answer (w.operand ht hc)]
    · -- a restriction answers by the representation of what it restricts
      show (FieldType.onBoundary tag).join (P u).representationPart
        = (FieldType.onBoundary tag).join (D u).representationPart
      rw [q.moved_eq w]
    · -- a boundary input is never lost
      obtain ⟨z, hr, hz⟩ := w.exists_input hi
      exact absurd ⟨z, hr, w.survives.operand hz⟩ hs
    · rcases ha with ⟨_, rfl⟩ | ⟨_, rfl⟩ | ⟨_, _, _, rfl⟩ <;> rfl
termination_by x.size

/-- What is lost fits in `P`: its type, its operands and their answers are those of `D`, where it
fits. -/
theorem fits_of_lost (w : Face roots roots' x) (hs : ¬Survives roots' x) : Fits P x := by
  have fits := q.refines.portable.solves x w.onFace.reached
  have own := q.face_eq w
  rcases w.kinds with ht | ⟨tag, u, rfl⟩ | hi | ha
  · -- arithmetic asks nothing of its operands, and obeys its law in `D`
    refine ⟨fun o ho => ?_, ?_⟩
    · rw [demands_of_isTransparent ht] at ho
      obtain ⟨c, hc, rfl⟩ := List.mem_map.mp ho
      exact unknown_le _
    · rw [own, q.readings_eq_of_isTransparent ht w fun c hc => q.face_answer (w.operand ht hc)]
      exact fits.law
  · -- a restriction reads what has moved
    have moved := q.moved_eq w
    refine ⟨fun o ho => ?_, ?_⟩
    · obtain rfl := List.mem_singleton.mp ho
      exact moved ▸ fits.demands (.onVolume, u) List.mem_cons_self
    · rw [own]
      refine ⟨fits.law.1, fun o ho => ?_⟩
      obtain rfl := List.mem_singleton.mp ho
      show _ ≤ P u ∧ (P u).representationPart ≤ _
      rw [moved]
      exact fits.law.2 _ List.mem_cons_self
  · -- a boundary input is never lost
    obtain ⟨z, hr, hz⟩ := w.exists_input hi
    exact absurd ⟨z, hr, w.survives.operand hz⟩ hs
  · -- an atom reads nothing
    have readings : readings P x = readings D x := by
      rcases ha with ⟨_, rfl⟩ | ⟨_, rfl⟩ | ⟨_, _, _, rfl⟩ <;> rfl
    refine ⟨fun o ho => ?_, ?_⟩
    · rcases ha with ⟨_, rfl⟩ | ⟨_, rfl⟩ | ⟨_, _, _, rfl⟩ <;> nomatch ho
    · rw [own, readings]
      exact fits.law

/-- What survives answers no more in `P` than in `D`.  Both answers are compared on the rewriting,
where `T` is below the typing `F` that carries `D` over. -/
theorem answer_le (hs : Survives roots' x) (hx : Reached roots x) {F : Expr → FieldType}
    (hF : Transports roots roots' D F) : answer P x ≤ answer D x := by
  obtain ⟨y, hr, hy⟩ := hs
  have portable := q.refines.portable
  rw [← q.transports.answer_eq portable.none_vanish hx hr hy,
    ← hF.answer_eq portable.none_vanish hx hr hy]
  refine answer_mono (q.refines.solves.typed hy) ((portable.push hF).typed hy) fun z hz => ?_
  obtain ⟨e, he, hez⟩ := exists_reached portable.rewrites (hy.of_visited hz)
  rw [hF e z he hez (hy.of_visited hz)]
  exact q.refines.le e z he hez (hy.of_visited hz)

variable {f : Flux} {interior boundary : Expr} {tag : BoundaryTag}

/-- A flux on a pair that survives fits in `P`.  Its components ask for types that `T` gives the
inputs, or that `D` gives the face, and the chain of representations is put together from three
parts. -/
theorem fits_pairFlux {F : Expr → FieldType} (hF : Transports roots roots' D F)
    (hφ : Reached roots (.apply (.flux f) (.pair interior boundary tag)))
    (hr : Rewrites (.apply (.flux f) (.pair interior boundary tag)) y) (hy : Reached roots' y) :
    Fits P (.apply (.flux f) (.pair interior boundary tag)) := by
  have portable := q.refines.portable
  obtain ⟨i⟩ := exists_fluxInputs hr fun hz => portable.none_vanish _ hφ rfl (hz ▸ hr)
  have fits := portable.solves _ hφ
  have fitsT := q.refines.solves _ hy
  have face {c : Expr} (hc : c ∈ boundary.components) : Face roots roots' c :=
    ⟨f, interior, boundary, tag, hφ, y, hy, i, c, hc, .self⟩
  have volume {c : Expr} (hc : c ∈ interior.components) :
      Reached roots c ∧ ∃ z, Rewrites c z ∧ (.onInteriorFaces, z) ∈ y.demands :=
    ⟨hφ.operand (o := (.onInteriorFaces, c)) (List.mem_append_left _ (List.mem_map_of_mem hc)),
      i.exists_volume ((i.mem_volume c).mpr (.inl hc))⟩
  refine ⟨fun o ho => ?_, ?_⟩
  · -- an interior component is a volume input of the new flux; a boundary component stands on the
    -- face
    rcases List.mem_append.mp ho with hm | hm
    · obtain ⟨c, hc, rfl⟩ := List.mem_map.mp hm
      obtain ⟨reached, z, hcz, hz⟩ := volume hc
      rw [← q.transports c z reached hcz (hy.operand hz)]
      exact fitsT.demands _ hz
    · obtain ⟨c, hc, rfl⟩ := List.mem_map.mp hm
      rw [q.face_eq (face hc)]
      exact fits.demands _ ho
  · obtain ⟨-, chainB, last⟩ := List.isChain_append.mp (follow_of_fits fits)
    rw [readings_pairFlux, law_pairFlux]
    refine ⟨?_, ?_⟩
    · have law := fitsT.law
      rw [i.law] at law
      exact q.transports _ y hφ hr hy ▸ law.1
    rw [List.isChain_map]
    refine List.isChain_append.mpr ⟨?_, ?_, ?_⟩
    · -- the interior components are the first volume inputs
      have law := fitsT.law
      rw [i.law, q.transports.readings_inputs portable.none_vanish i hφ hy, i.volume_eq] at law
      exact ((List.isChain_map _).mp law.2).left_of_append.left_of_append
    · -- the boundary components are chained as in `D`
      refine chainB.imp_of_mem_imp fun a b ha hb hab => ?_
      show (answer P a).representationPart ≤ P b
      rw [q.face_answer (face ha), q.face_eq (face hb)]
      exact hab
    · intro a ha b hb
      -- the last interior component `a` answers no more than in `D`, and the first boundary
      -- component `b` has its type of `D`
      have hmem := List.mem_of_mem_head? hb
      obtain ⟨reached, z, haz, hz⟩ := volume (List.mem_of_mem_getLast? ha)
      show (answer P a).representationPart ≤ P b
      rw [q.face_eq (face hmem)]
      exact (representationPart_mono
        (q.answer_le ⟨z, haz, hy.operand hz⟩ reached hF)).trans (last a ha b hb)

/-- The recovered typing `P` solves the roots: what is lost fits as in `D`, a surviving flux on a
pair by `fits_pairFlux`, and any other surviving node as its rewriting does in `T`. -/
theorem solves {F : Expr → FieldType} (hF : Transports roots roots' D F) : Solves roots P := by
  have portable := q.refines.portable
  intro e he
  by_cases hs : Survives roots' e
  · obtain ⟨y, hr, hy⟩ := hs
    by_cases hp : e.isPairFlux = true
    · obtain ⟨f, interior, boundary, tag, rfl⟩ := exists_of_isPairFlux hp
      exact q.fits_pairFlux hF he hr hy
    · exact (q.transports.fits_iff portable.none_vanish he hr hy (by simpa using hp)).mp
        (q.refines.solves y hy)
  · rcases survives_or_face portable.rewrites portable.none_vanish he with h | ⟨⟨w⟩⟩
    · exact absurd h hs
    · exact q.fits_of_lost w hs

end Recovers

/-- A loop over the roots that starts below `D`, and below `T` where something survives, ends below
`T` where something survives, because it ends below the typing that is recovered from the two. -/
theorem Refines.fixpoint_le (q : Refines roots roots' D T) {F : Expr → FieldType}
    (hF : Transports roots roots' D F) {s s' : InferenceState} (fixpoint : IsFixpoint roots s s')
    (hD : ∀ e, s.table.get e ≤ D e) (hT : Carried roots roots' s.table.get T) :
    Carried roots roots' s'.table.get T := by
  -- `P` is chosen for each expression: the type in `T` of its rewriting if that is visited, else
  -- `D`
  have recovered (e : Expr) : ∃ t,
      (∀ y, Reached roots e → Rewrites e y → Reached roots' y → t = T y)
        ∧ ((Reached roots e → ¬Survives roots' e) → t = D e) := by
    by_cases h : Reached roots e ∧ Survives roots' e
    · obtain ⟨he, y, hr, hy⟩ := h
      exact ⟨T y, fun z _ hz _ => hr.unique hz ▸ rfl, fun hs => absurd ⟨y, hr, hy⟩ (hs he)⟩
    · refine ⟨D e, fun y he hr hy => absurd ⟨he, y, hr, hy⟩ h, fun _ => rfl⟩
  choose P hP hlost using recovered
  have recovers : Recovers roots roots' D T P :=
    ⟨q, fun e y he hr hy => (hP e y he hr hy).symm, fun e _ hs => hlost e fun _ => hs⟩
  have start (e : Expr) : s.table.get e ≤ P e := by
    by_cases h : Reached roots e ∧ Survives roots' e
    · obtain ⟨he, y, hr, hy⟩ := h
      rw [hP e y he hr hy]
      exact hT e y he hr hy
    · rw [hlost e fun he hs => h ⟨he, hs⟩]
      exact hD e
  intro e y he hr hy
  rw [← hP e y he hr hy]
  exact fixpoint.le start (recovers.solves hF) e

end OperatorTemplate
