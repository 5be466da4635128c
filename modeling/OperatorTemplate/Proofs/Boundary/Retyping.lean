import OperatorTemplate.Inference
import OperatorTemplate.Proofs.Boundary.Merging
import OperatorTemplate.Proofs.Boundary.Recovery
/-!
# The types of rewritten templates

If the roots of a template are well typed and rewriting succeeds, the rewritten roots are well typed
too, with the types that the roots had (`infer_rewritten`), under the conditions of `Retypable`:

* no flux vanishes;
* boundary fields restrict nodal data, and normals in them are nodal unless what is left says what
  they are;
* subscripts that rewriting makes equal had equal types;
* hints speak of what rewriting leaves alone, or say nothing that is not known without them.

Let `F` be the types `s₂.table` of the roots, carried over to the rewritten roots.  `F` solves the
rewritten roots, so each loop over them succeeds, and ends below `F`.  That the loops end no lower
takes the typings of the rewritten roots back to the roots.  The first loop is the crux: what it has
found may lack representations, so it is first raised towards `F` (`first_carried`).  Read back, it
is above what the first loop over the roots has found, so the defaults complete the same leaves in
the same way (`defaults_le`).  The second loop is read back as it is (`second_eq`).
-/

namespace OperatorTemplate

open OperatorTemplate.Expr FieldType

/-! ## Defaults -/

/-- Let `t ≤ f`, where `t` is more than the interior faces, and let `l` be known and below `t`
raised towards `f`.  If the completion of `l` is below `f`, then so is that of `t`. -/
theorem FieldType.completion_le {l t f : FieldType} (htf : t ≤ f) (ht : ¬t ≤ .onInteriorFaces)
    (hl : l ≠ .unknown) (hlt : l ≤ t.raise f) (hf : l.completion ≤ f) : t.completion ≤ f := by
  -- either `f` is nodal, or raising changes nothing and `l = t`
  by_cases hn : .represented .nodal ≤ f
  · cases t with
    | unknown => exact absurd (unknown_le _) ht
    | onInteriorFaces => exact absurd (le_refl _) ht
    | onVolume => exact le_of_eq (eq_volume htf hn).symm
    | onBoundary tag => exact le_of_eq (eq_boundary htf hn).symm
    | represented r =>
      -- a bare representation under a nodal `f` is nodal, and so is not raised
      have joins := joins_raise htf hn
      have same : (FieldType.represented r).raise f = .represented r := by
        have nodal : r = .nodal := by
          have := representationPart_eq htf
          rw [representationPart_eq hn] at this
          cases this
          rfl
        subst nodal
        exact le_antisymm (joins.least _ (le_refl _) (le_refl _)) joins.left
      rw [same] at hlt
      cases le_def.mp hlt with
      | refl => exact hf
      | unknown => exact absurd rfl hl
    | scalar | volume _ | boundary _ _ | interiorFaces _ => exact htf
  · rw [raise_eq_self hn] at hlt
    cases t with
    | unknown => exact absurd (unknown_le _) ht
    | onInteriorFaces => exact absurd (le_refl _) ht
    | onVolume | onBoundary _ | represented _ =>
      cases le_def.mp hlt with
      | refl => exact hf
      | unknown => exact absurd rfl hl
    | scalar | volume _ | boundary _ _ | interiorFaces _ => exact htf

/-! ## The conditions -/

/-- A hint `t` for `e` speaks of nothing that rewriting changes.  `D` are the types of the roots. -/
structure HintKept (roots roots' : List Expr) (D : Expr → FieldType) (e : Expr) (t : FieldType) :
    Prop where
  /-- Where `e` is visited and survives, it is left alone, or what is left says what the hint says. -/
  carried : ∀ y, Reached roots e → Rewrites e y → Reached roots' y →
    y = e ∨ ∀ T, Solves roots' T → t ≤ T y
  /-- Where something is rewritten to `e`, the hint says no more than its type. -/
  agrees : ∀ x, Reached roots' e → Reached roots x → Rewrites x e → t ≤ D x
  /-- Where `e` is visited no more, nothing but a default completes the hint. -/
  complete : Reached roots' e ∨ t.isFinal = true ∨ e.isDefaultable = true

/-- A hint for an atom that takes defaults is kept, if it says no more than the type of the atom:
atoms are left alone, nothing else is rewritten to them, and a default completes them. -/
theorem HintKept.of_atom {roots roots' : List Expr} {D : Expr → FieldType} {a : Atom}
    {t : FieldType} (hv : NoneVanish roots) (hd : a.isDefaultable = true) (ht : t ≤ D (.atom a)) :
    HintKept roots roots' D (.atom a) t where
  carried y _ h _ := .inl (rewrites_atom h)
  agrees x _ hx h := by
    -- a flux on a pair becomes a flux or the literal zero, which takes no defaults
    have hp : x.isPairFlux = false := by
      by_contra hp
      have hp : x.isPairFlux = true := by simpa using hp
      have hz : Expr.atom a ≠ .zero := fun hz => hv x hx hp (hz ▸ h)
      cases isPairFlux_of_rewrites h hp hz
    have head := (h.rebuilt hp).1
    cases x <;> cases head
    exact ht
  complete := .inr (.inr hd)

/-- What it takes to type rewritten roots like the roots, which have the types `D`. -/
structure Retypable (roots roots' : List Expr) (hints : TypeHints) (D : Expr → FieldType) :
    Prop where
  none_vanish : NoneVanish roots
  /-- What is restricted inside a boundary field is nodal. -/
  restricted : ∀ tag u, OnFace roots (.apply (.restrict tag) u) →
    D (.apply (.restrict tag) u) = .boundary tag .nodal
  /-- Normals without a grid inside a boundary field that are visited elsewhere are nodal there, or
  what is left says what they are. -/
  normal : ∀ tag axis, OnFace roots (.atom (.normal tag axis none)) →
    Reached roots' (.atom (.normal tag axis none)) →
    D (.atom (.normal tag axis none)) = .boundary tag .nodal
      ∨ ∀ T, Solves roots' T → D (.atom (.normal tag axis none)) ≤ T (.atom (.normal tag axis none))
  subscripts : SubscriptsAgree roots roots' D
  kept : ∀ e t, (TypeTable.ofHints hints).lookup? e = some t → HintKept roots roots' D e t

/-! ## Inference of rewritten roots -/

open Inference (Phases IsDefault)

/-- A successful inference of the roots, beside a typing `F` of the rewritten roots that carries its
types over, and completes hints where nothing is visited. -/
structure Retyping (roots roots' : List Expr) (hints : TypeHints) (F : Expr → FieldType)
    (s₁ : InferenceState) (table : TypeTable) (s₂ : InferenceState) : Prop where
  phases : Phases roots hints s₁ table s₂
  rewrites : List.Forall₂ Rewrites roots roots'
  retypable : Retypable roots roots' hints s₂.table.get
  transports : Transports roots roots' s₂.table.get F
  unvisited : ∀ y, ¬Reached roots' y → F y = ((TypeTable.ofHints hints).get y).completion

namespace Retyping

variable {roots roots' : List Expr} {hints : TypeHints} {F : Expr → FieldType}
  {s₁ s₂ : InferenceState} {table : TypeTable}

/-- Every successful inference of the roots can be carried over.  Nodes that are rewritten to the
same `y` have the same type, so it does not matter which of them gives its type to `y`. -/
theorem exists_typing (phases : Phases roots hints s₁ table s₂)
    (rewrites : List.Forall₂ Rewrites roots roots')
    (retypable : Retypable roots roots' hints s₂.table.get) :
    ∃ F, Retyping roots roots' hints F s₁ table s₂ := by
  -- the type of `y` is that of something rewritten to it, or its completed hint
  have typing (y : Expr) : ∃ t,
      (∀ e, Reached roots e → Rewrites e y → Reached roots' y → t = s₂.table.get e)
        ∧ (¬Reached roots' y → t = ((TypeTable.ofHints hints).get y).completion) := by
    by_cases hy : Reached roots' y
    · obtain ⟨e, he, hr⟩ := exists_reached rewrites hy
      have final (x : Expr) (hx : Reached roots x) : (s₂.table.get x).isFinal = true :=
        phases.final x _ (TypeTable.lookup?_of_get (phases.second.solves.typed hx).ne_unknown)
      exact ⟨s₂.table.get e, fun e' he' hr' _ => type_eq_of_rewrites retypable.none_vanish
        phases.second.solves final retypable.subscripts he he' hr hr' hy, fun hn => absurd hy hn⟩
    · exact ⟨_, fun _ _ _ hy' => absurd hy' hy, fun _ => rfl⟩
  choose F hF hout using typing
  exact ⟨F, phases, rewrites, retypable, fun e y he hr hy => hF y e he hr hy, hout⟩

variable (r : Retyping roots roots' hints F s₁ table s₂)

include r

/-- What is visited from the roots is typed in the final table. -/
theorem typed {e : Expr} (he : Reached roots e) : Typed s₂.table.get e :=
  r.phases.second.solves.typed he

/-- What is visited from the roots has a final type in the final table. -/
theorem final {e : Expr} (he : Reached roots e) : (s₂.table.get e).isFinal = true :=
  r.phases.final e _ (TypeTable.lookup?_of_get (r.typed he).ne_unknown)

/-- The final table is a portable typing of the roots. -/
theorem portable : Portable roots roots' s₂.table.get :=
  ⟨r.rewrites, r.retypable.none_vanish, r.phases.second.solves, fun _ he => r.final he,
    r.retypable.restricted⟩

/-- The types carried over solve the rewritten roots. -/
theorem solves : Solves roots' F := r.portable.push r.transports

/-- What is visited after the rewriting has the type of something visited before. -/
theorem exists_source {y : Expr} (hy : Reached roots' y) :
    ∃ e, Reached roots e ∧ Rewrites e y ∧ F y = s₂.table.get e := by
  obtain ⟨e, he, hr⟩ := exists_reached r.rewrites hy
  exact ⟨e, he, hr, r.transports e y he hr hy⟩

/-- The table after the defaults is below the final table. -/
theorem table_le (e : Expr) : table.get e ≤ s₂.table.get e := r.phases.second.grows.le e

/-- The hints are below the final table. -/
theorem hints_le (e : Expr) : (TypeTable.ofHints hints).get e ≤ s₂.table.get e :=
  ((r.phases.first.grows.le e).trans (r.phases.defaults.le e)).trans (r.table_le e)

/-- The hints are below the types carried over, on what is visited and elsewhere. -/
theorem hints_le_typing (y : Expr) : (TypeTable.ofHints hints).get y ≤ F y := by
  by_cases hy : Reached roots' y
  · by_cases hu : (TypeTable.ofHints hints).get y = .unknown
    · exact hu ▸ unknown_le _
    · obtain ⟨e, he, hr, same⟩ := r.exists_source hy
      rw [same]
      exact (r.retypable.kept y _ (TypeTable.lookup?_of_get hu)).agrees e hy he hr
  · exact r.unvisited y hy ▸ le_completion _

/-- If the hints are below `T`, they say of what survives no more than `T` says of its rewriting. -/
theorem hints_carried {T : Expr → FieldType} (hT : Solves roots' T)
    (hh : ∀ y, (TypeTable.ofHints hints).get y ≤ T y) :
    Carried roots roots' (TypeTable.ofHints hints).get T := by
  intro e y he hr hy
  by_cases hu : (TypeTable.ofHints hints).get e = .unknown
  · exact hu ▸ unknown_le _
  · -- either the node is left alone, or every typing of the rewritten roots says what the hint says
    rcases (r.retypable.kept e _ (TypeTable.lookup?_of_get hu)).carried y he hr hy with rfl | forced
    · exact hh y
    · exact forced T hT

/-- If `T` solves the rewritten roots below `F`, and types a normal as nodal where `F` does, then it
refines the types of the roots. -/
theorem refines {T : Expr → FieldType} (hT : Solves roots' T) (hle : ∀ y, Reached roots' y → T y ≤ F y)
    (hn : ∀ tag axis, F (.atom (.normal tag axis none)) = .boundary tag .nodal →
      Reached roots' (.atom (.normal tag axis none)) →
      T (.atom (.normal tag axis none)) = .boundary tag .nodal) :
    Refines roots roots' s₂.table.get T where
  portable := r.portable
  solves := hT
  le e y he hr hy := r.transports e y he hr hy ▸ hle y hy
  normal tag axis hface hy := by
    have self : Rewrites (.atom (.normal tag axis none)) (.atom (.normal tag axis none)) := by
      rw [Rewrites, rewritten_of_not_pairFlux rfl]
      rfl
    have carried := r.transports _ _ hface.reached self hy
    rcases r.retypable.normal tag axis hface hy with nodal | known
    · rw [nodal]
      exact hn tag axis (carried.trans nodal) hy
    · exact le_antisymm (carried ▸ hle _ hy) (known T hT)

/-! ## Both loops -/

variable {s₁' s₂' : InferenceState} {table' : TypeTable}
  (first : IsFixpoint roots' ⟨.ofHints hints, .empty⟩ s₁') (defaults : IsDefault s₁'.table table')

include first

/-- The first loop over the rewritten roots ends below the types carried over. -/
theorem first_le (y : Expr) : s₁'.table.get y ≤ F y := first.le r.hints_le_typing r.solves y

/-- What the first loop over the roots has found, the first loop over the rewritten roots has found
as well, up to nodal representations. -/
theorem first_carried :
    Carried roots roots' s₁.table.get (raised s₁'.table.get F) := by
  -- the raised types solve the rewritten roots as well, and there the normals are nodal
  have below (y : Expr) : s₁'.table.get y ≤ raised s₁'.table.get F y :=
    le_raise (r.first_le first y)
  have solves : Solves roots' (raised s₁'.table.get F) := fun y hy =>
    (typed_raised (first.solves.typed hy) (r.solves.typed hy) fun x _ => r.first_le first x).1.fits
  have refines := r.refines solves (fun y _ => raise_le (r.first_le first y)) fun tag axis hF hy =>
    eq_boundary ((first.solves _ hy).law.trans (below _))
      (nodal_le_raise (r.first_le first _) (hF ▸ represented_le_boundary))
  exact refines.fixpoint_le r.transports r.phases.first r.hints_le
    (r.hints_carried solves fun y => (first.grows.le y).trans (below y))

include defaults

/-- The table `table'` after the defaults is below the types carried over. -/
theorem defaults_le (y : Expr) : table'.get y ≤ F y := by
  by_cases hy : Reached roots' y
  · have typed := first.solves.typed hy
    rw [defaults.get_of_ne_unknown typed.ne_unknown, TypeTable.defaulted]
    split
    next hd =>
      -- a leaf `y` is the rewriting of a leaf `e`, which is completed to a type below that of `F`
      obtain ⟨e, he, hr, same⟩ := r.exists_source hy
      have known := (r.phases.first.solves.typed he).ne_unknown
      have completed : table.get e = (s₁.table.get e).completion := by
        rw [r.phases.defaults.get_of_ne_unknown known, TypeTable.defaulted,
          if_pos ((isDefaultable_of_rewrites hr).symm.trans hd)]
      exact completion_le (r.first_le first y) typed.not_le known (r.first_carried first e y he hr hy)
        (completed ▸ same ▸ r.table_le e)
    · exact r.first_le first y
  · -- what is not visited still has its hint, and `F` has its completion
    rw [r.unvisited y hy, TypeTable.get, defaults, first.lookup?_eq hy, TypeTable.get]
    cases (TypeTable.ofHints hints).lookup? y with
    | none => exact unknown_le _
    | some t => exact TypeTable.defaulted_le_completion y t

variable (second : IsFixpoint roots' { s₁' with table := table' } s₂')

include second

/-- The second loop over the rewritten roots ends below the types carried over. -/
theorem second_le (y : Expr) : s₂'.table.get y ≤ F y :=
  second.le (r.defaults_le first defaults) r.solves y

/-- The second loop gives leaves the types carried over: the defaults have made them final already.
-/
theorem second_leaf {y : Expr} (hy : Reached roots' y) (hd : y.isDefaultable = true) :
    s₂'.table.get y = F y := by
  have completed : table'.get y = (s₁'.table.get y).completion := by
    rw [defaults.get_of_ne_unknown (first.solves.typed hy).ne_unknown, TypeTable.defaulted, if_pos hd]
  have known := eq_of_isFinal_of_le (completed ▸ isFinal_completion _) (second.grows.le y)
  refine (eq_of_isFinal_of_le ?_ (r.second_le first defaults second y)).symm
  rw [known]
  exact completed ▸ isFinal_completion _

/-- What the second loop has found refines the types of the roots. -/
theorem second_refines : Refines roots roots' s₂.table.get s₂'.table.get :=
  r.refines second.solves (fun y _ => r.second_le first defaults second y) fun _ _ hF hy =>
    (r.second_leaf first defaults second hy rfl).trans hF

/-- What the table after the defaults says of the roots is found in the second loop over the
rewritten roots: for leaves by their defaults, for the rest by reading the first loop back. -/
theorem table_carried : Carried roots roots' table.get s₂'.table.get := by
  have above (y : Expr) : (TypeTable.ofHints hints).get y ≤ s₂'.table.get y :=
    ((first.grows.le y).trans (defaults.le y)).trans (second.grows.le y)
  have found := (r.second_refines first defaults second).fixpoint_le r.transports r.phases.first
    r.hints_le (r.hints_carried second.solves above)
  intro e y he hr hy
  by_cases hd : e.isDefaultable = true
  · rw [r.second_leaf first defaults second hy ((isDefaultable_of_rewrites hr).trans hd),
      r.transports e y he hr hy]
    exact r.table_le e
  · have known := (r.phases.first.solves.typed he).ne_unknown
    rw [r.phases.defaults.get_of_ne_unknown known, TypeTable.defaulted, if_neg hd]
    exact found e y he hr hy

/-- The second loop over the rewritten roots ends in the types of the roots. -/
theorem second_eq {e y : Expr} (he : Reached roots e) (hr : Rewrites e y) (hy : Reached roots' y) :
    s₂'.table.get y = s₂.table.get e := by
  -- below: the types carried over; above: the second loop over the roots, read back
  refine le_antisymm ?_ ?_
  · exact r.transports e y he hr hy ▸ r.second_le first defaults second y
  · exact (r.second_refines first defaults second).fixpoint_le r.transports r.phases.second
      r.table_le (r.table_carried first defaults second) e y he hr hy

/-- All entries are final: those of what is visited by `second_eq`, others by the hints. -/
theorem second_final {y : Expr} {t : FieldType} (hl : s₂'.table.lookup? y = some t) :
    t.isFinal = true := by
  by_cases hy : Reached roots' y
  · obtain ⟨e, he, hr, -⟩ := r.exists_source hy
    rw [← TypeTable.get_of_lookup? hl, r.second_eq first defaults second he hr hy]
    exact r.final he
  · -- what is not visited has the hint, completed if it is a leaf
    rw [second.lookup?_eq hy] at hl
    change table'.lookup? y = some t at hl
    rw [defaults, first.lookup?_eq hy] at hl
    obtain ⟨h, hh, rfl⟩ := Option.map_eq_some_iff.mp hl
    rcases (r.retypable.kept y h hh).complete with hn | hf | hd
    · exact absurd hn hy
    · rw [eq_of_isFinal_of_le hf (TypeTable.le_defaulted y h)]
      exact hf
    · rw [TypeTable.defaulted, if_pos hd]
      exact isFinal_completion h

end Retyping

variable {roots roots' : List Expr} {hints : TypeHints} {i : Inference}

/-- If inference of `roots` succeeds with `i`, and `roots'` are rewritten roots that are
`Retypable`, then inference of `roots'` succeeds, and gives to the rewriting `y` of `e` the type
that `i` gives to `e`. -/
theorem infer_rewritten (hi : Inference.infer roots hints = .ok i)
    (hr : List.Forall₂ Rewrites roots roots')
    (h : Retypable roots roots' hints i.table.get) :
    ∃ i', Inference.infer roots' hints = .ok i' ∧ ∀ e y, Reached roots e → Rewrites e y →
      Reached roots' y → i'.table.get y = i.table.get e := by
  obtain ⟨s₁, table, s₂, phases, same⟩ := Inference.exists_phases hi
  rw [same] at h ⊢
  obtain ⟨F, r⟩ := Retyping.exists_typing phases hr h
  obtain ⟨i', s₁', table', s₂', hi', phases', same'⟩ := Inference.exists_infer_of_solves r.solves
    r.hints_le_typing (fun _ _ first defaults => r.defaults_le first defaults)
    (fun _ _ _ first defaults second _ _ => r.second_final first defaults second)
  refine ⟨i', hi', fun e y he hey hy => ?_⟩
  rw [same']
  exact r.second_eq phases'.first phases'.defaults phases'.second he hey hy

end OperatorTemplate
