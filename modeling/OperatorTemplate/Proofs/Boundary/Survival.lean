import OperatorTemplate.Proofs.Boundary.FaceTypes
import OperatorTemplate.Proofs.Inference.Phases
/-!
# What is left of a template

A rewriting of the roots `roots` into `roots'` replaces each flux on a pair by a flux on lists.  The
types of `roots'` are compared with those of `roots` node by node, so one has to know which visited
nodes of the two sides belong together.  Rewriting visits less than the template did, and nothing
new:

* what is visited from `roots'` is the rewriting of something visited from `roots`
  (`exists_reached`);
* what is visited from `roots` survives, that is, its rewriting is visited from `roots'`, unless it
  is inlined in the boundary field of a flux (`survives_or_face`), provided that no flux vanishes
  (`NoneVanish`).

Both are inductions along the path from a root.  The step is about one operand: that of a plain node
is an operand of the rebuilt node, and that of a flux on a pair is an input of the new flux, or a
component of the boundary field.  The last case is the crux, and `Face` holds what is known there:
the flux, the inputs of its rewriting, and the component that the node is inlined in.
-/

namespace OperatorTemplate.Expr

variable {roots roots' : List Expr} {e x y : Expr}

/-! ## The inputs of a rewritten flux -/

/-- What the rewriting `y` of a flux on the pair of `interior` and `boundary` reads.  `volume` and
`boundaries` are the inputs before they are rewritten, `volume'` and `boundaries'` are those that
`y` holds. -/
structure FluxInputs (interior boundary : Expr) (tag : BoundaryTag) (y : Expr) where
  volume : List Expr
  /-- What joins the interior components. -/
  moved : List Expr
  boundaries : List Expr
  volume' : List Expr
  boundaries' : List Expr
  law : y.law = .flux
  demands : y.demands = volume'.map (.onInteriorFaces, ·) ++ boundaries'.map (.onBoundary tag, ·)
  volume_rewrites : List.Forall₂ Rewrites volume volume'
  boundaries_rewrites : List.Forall₂ Rewrites boundaries boundaries'
  volume_eq : volume = interior.components ++ moved
  moved_restricted : ∀ x ∈ moved, ∃ c ∈ boundary.components, ∃ tag',
    Inlined (.apply (.restrict tag') x) c
  mem_volume : ∀ x, x ∈ volume ↔ x ∈ interior.components
    ∨ ∃ c ∈ boundary.components, ∃ tag', Inlined (.apply (.restrict tag') x) c
  mem_boundaries : ∀ x, x ∈ boundaries ↔ ∃ c ∈ boundary.components,
    x.Inlined c ∧ x.input? = some (.exterior, x)
  kernel : ∀ c ∈ boundary.components, ∀ x, Inlined x c → ∃ l, x.kernel tag = .ok l

/-- If the rewriting `y` of a flux on a pair is not the literal zero, it is a flux on lists, and its
inputs are those that `FluxInputs` describes. -/
theorem exists_fluxInputs {f : Flux} {interior boundary : Expr} {tag : BoundaryTag}
    (h : Rewrites (.apply (.flux f) (.pair interior boundary tag)) y) (hz : y ≠ .zero) :
    Nonempty (FluxInputs interior boundary tag y) := by
  obtain ⟨r⟩ := exists_fluxRewriting h
  obtain ⟨-, hy, hv, hb⟩ := r.emitted hz
  obtain ⟨moved, volume_eq, moved_restricted⟩ := exists_moved_of_translatePair r.translated
  exact ⟨{
    volume := (translatePair .empty interior boundary tag).2.volume
    moved
    boundaries := (translatePair .empty interior boundary tag).2.boundary
    volume' := r.volume
    boundaries' := r.boundaries
    law := congrArg Expr.law hy
    demands := congrArg Expr.demands hy
    volume_rewrites := hv
    boundaries_rewrites := hb
    volume_eq
    moved_restricted
    mem_volume := fun _ => mem_volume_iff r.translated
    mem_boundaries := fun _ => mem_boundary_iff r.translated
    kernel := fun _ hc _ hx => exists_kernel_of_translatePair r.translated hc hx }⟩

namespace FluxInputs

variable {interior boundary : Expr} {tag : BoundaryTag} (i : FluxInputs interior boundary tag y)

/-- The rewriting `z` of a volume input `x` is read by `y` on the interior faces. -/
theorem exists_volume (hx : x ∈ i.volume) :
    ∃ z, Rewrites x z ∧ (.onInteriorFaces, z) ∈ y.demands := by
  obtain ⟨z, hz, hr⟩ := exists_right_of_forall₂ i.volume_rewrites hx
  exact ⟨z, hr, i.demands ▸ List.mem_append_left _ (List.mem_map_of_mem hz)⟩

/-- The rewriting `z` of a boundary input `x` is read by `y` on the boundary `tag`. -/
theorem exists_boundary (hx : x ∈ i.boundaries) :
    ∃ z, Rewrites x z ∧ (.onBoundary tag, z) ∈ y.demands := by
  obtain ⟨z, hz, hr⟩ := exists_right_of_forall₂ i.boundaries_rewrites hx
  exact ⟨z, hr, i.demands ▸ List.mem_append_right _ (List.mem_map_of_mem hz)⟩

/-- Whatever `y` asks for is the rewriting of a volume input, on the interior faces, or that of a
boundary input, on the boundary `tag`. -/
theorem exists_of_demand {o : FieldType × Expr} (ho : o ∈ y.demands) :
    (o.1 = .onInteriorFaces ∧ ∃ x ∈ i.volume, Rewrites x o.2)
      ∨ (o.1 = .onBoundary tag ∧ ∃ x ∈ i.boundaries, Rewrites x o.2) := by
  rw [i.demands] at ho
  rcases List.mem_append.mp ho with ho | ho
  · obtain ⟨z, hz, rfl⟩ := List.mem_map.mp ho
    exact .inl ⟨rfl, exists_left_of_forall₂ i.volume_rewrites hz⟩
  · obtain ⟨z, hz, rfl⟩ := List.mem_map.mp ho
    exact .inr ⟨rfl, exists_left_of_forall₂ i.boundaries_rewrites hz⟩

end FluxInputs

/-! ## Nothing new -/

/-- The components of the boundary field are operands of the flux, so they are visited with it. -/
theorem reached_component {f : Flux} {interior boundary c : Expr} {tag : BoundaryTag}
    (h : Reached roots (.apply (.flux f) (.pair interior boundary tag)))
    (hc : c ∈ boundary.components) : Reached roots c :=
  h.operand (o := (.onBoundary tag, c)) (List.mem_append_right _ (List.mem_map_of_mem hc))

/-- If a flux on a pair is visited, so are its volume inputs: the interior components are operands,
and what has moved stands under a restriction that is inlined in a boundary component. -/
theorem FluxInputs.reached_volume {f : Flux} {interior boundary : Expr} {tag : BoundaryTag}
    (i : FluxInputs interior boundary tag y)
    (h : Reached roots (.apply (.flux f) (.pair interior boundary tag))) (hx : x ∈ i.volume) :
    Reached roots x := by
  rcases (i.mem_volume x).mp hx with hx | ⟨c, hc, tag', hx⟩
  · exact h.operand (o := (.onInteriorFaces, x)) (List.mem_append_left _ (List.mem_map_of_mem hx))
  · exact ((reached_component h hc).of_visited hx.visited).operand (o := (.onVolume, x))
      List.mem_cons_self

/-- If a flux on a pair is visited, so are its boundary inputs, since each is inlined in a boundary
component. -/
theorem FluxInputs.reached_boundaries {f : Flux} {interior boundary : Expr} {tag : BoundaryTag}
    (i : FluxInputs interior boundary tag y)
    (h : Reached roots (.apply (.flux f) (.pair interior boundary tag))) (hx : x ∈ i.boundaries) :
    Reached roots x := by
  obtain ⟨c, hc, hx, -⟩ := (i.mem_boundaries x).mp hx
  exact (reached_component h hc).of_visited hx.visited

/-- If `e` is visited and rewritten to `y`, then every operand of `y` is the rewriting of a visited
`x`. -/
theorem exists_operand (he : Reached roots e) (h : Rewrites e y) {o : FieldType × Expr}
    (ho : o ∈ y.demands) : ∃ x, Reached roots x ∧ Rewrites x o.2 := by
  -- a flux on a pair reads its inputs; any other node reads its rewritten operands
  by_cases hp : e.isPairFlux = true
  · obtain ⟨f, interior, boundary, tag, rfl⟩ := exists_of_isPairFlux hp
    by_cases hz : y = .zero
    · subst hz
      -- the literal zero has no operands
      nomatch ho
    obtain ⟨i⟩ := exists_fluxInputs h hz
    rcases i.exists_of_demand ho with ⟨-, x, hx, hr⟩ | ⟨-, x, hx, hr⟩
    · exact ⟨x, i.reached_volume he hx, hr⟩
    · exact ⟨x, i.reached_boundaries he hx, hr⟩
  · obtain ⟨⟨t, x⟩, hx, -, hr⟩ :=
      exists_left_of_forall₂ (demands_of_rewritten (by simpa using hp) h) ho
    exact ⟨x, he.operand hx, hr⟩

/-- What is visited after the rewriting is the rewriting of something that was visited. -/
theorem exists_reached (hR : List.Forall₂ Rewrites roots roots') (hy : Reached roots' y) :
    ∃ e, Reached roots e ∧ Rewrites e y := by
  obtain ⟨c', hc', hv⟩ := hy
  obtain ⟨c, hc, hr⟩ := exists_left_of_forall₂ (components_of_roots hR) hc'
  -- the induction is along the path from the component `c'` of a root to `y`
  have start : ∃ e, Reached roots e ∧ Rewrites e c' := ⟨c, .of_component hc, hr⟩
  clear hc' hr
  induction hv with
  | self => exact start
  | operand ho _ ih =>
    obtain ⟨e, he, hr⟩ := start
    exact ih (exists_operand he hr ho)

/-! ## What survives -/

/-- The rewriting of an expression is visited. -/
def Survives (roots' : List Expr) (e : Expr) : Prop := ∃ y, Rewrites e y ∧ Reached roots' y

/-- No flux that is visited is rewritten to the literal zero. -/
def NoneVanish (roots : List Expr) : Prop :=
  ∀ e, Reached roots e → e.isPairFlux = true → ¬Rewrites e .zero

/-- `x` is inlined in the boundary field of a flux that is visited. -/
def OnFace (roots : List Expr) (x : Expr) : Prop :=
  ∃ f interior boundary tag c, Reached roots (.apply (.flux f) (.pair interior boundary tag))
    ∧ c ∈ boundary.components ∧ Inlined x c

/-- What is inlined in the boundary field of a visited flux is visited itself. -/
theorem OnFace.reached (h : OnFace roots x) : Reached roots x := by
  obtain ⟨f, interior, boundary, tag, c, reached, mem, inlined⟩ := h
  exact (reached_component reached mem).of_visited inlined.visited

/-- A flux whose rewriting `result` is visited from `roots'`, and in whose boundary field, in the
component `component`, `x` is inlined. -/
structure Face (roots roots' : List Expr) (x : Expr) where
  flux : Flux
  interior : Expr
  boundary : Expr
  tag : BoundaryTag
  reached : Reached roots (.apply (.flux flux) (.pair interior boundary tag))
  result : Expr
  survives : Reached roots' result
  inputs : FluxInputs interior boundary tag result
  component : Expr
  mem : component ∈ boundary.components
  inlined : Inlined x component

namespace Face

variable (w : Face roots roots' x)

include w in
/-- What stands on the face of a surviving flux stands on the face of a visited flux. -/
theorem onFace : OnFace roots x := ⟨w.flux, w.interior, w.boundary, w.tag, w.component, w.reached,
  w.mem, w.inlined⟩

/-- What is inlined is inlined with its operands, where a translation looks inside. -/
def operand {c : Expr} (ht : x.IsTransparent) (hc : c ∈ x.children) : Face roots roots' c :=
  { w with inlined := (Inlined.of_child ht hc).trans w.inlined }

/-- What is inlined in a component has a kernel, since the pair has been translated. -/
theorem exists_kernel : ∃ l, x.kernel w.tag = .ok l :=
  w.inputs.kernel w.component w.mem x w.inlined

include w in
/-- What is inlined is no flux on a pair, for that has no kernel. -/
theorem isPairFlux_eq_false : x.isPairFlux = false := by
  by_contra hp
  obtain ⟨f, interior, boundary, tag, rfl⟩ := exists_of_isPairFlux (by simpa using hp)
  obtain ⟨l, hl⟩ := w.exists_kernel
  nomatch hl

include w in
/-- What is inlined is of one of four kinds: a node that translation looks inside, a restriction, a
boundary input, or an atom that the kernel names. -/
theorem kinds : x.IsTransparent ∨ (∃ tag u, x = .apply (.restrict tag) u)
    ∨ x.input? = some (.exterior, x) ∨ x.IsFaceAtom := by
  obtain ⟨l, hl⟩ := w.exists_kernel
  rcases isTransparent_or_of_kernel hl with ht | ⟨⟨side, u⟩, hi⟩ | ha
  · exact .inl ht
  · cases side with
    | interior =>
      obtain ⟨tag, rfl⟩ := exists_restrict_of_input? hi
      exact .inr (.inl ⟨tag, u, rfl⟩)
    | exterior =>
      obtain rfl := eq_of_input? hi
      exact .inr (.inr (.inl hi))
  · exact .inr (.inr (.inr ha))

/-- A boundary input `x` that is inlined survives: its rewriting `z` is read on the boundary of the
face. -/
theorem exists_input (hi : x.input? = some (.exterior, x)) :
    ∃ z, Rewrites x z ∧ (.onBoundary w.tag, z) ∈ w.result.demands :=
  w.inputs.exists_boundary ((w.inputs.mem_boundaries x).mpr ⟨w.component, w.mem, w.inlined, hi⟩)

/-- If a restriction of `u` is inlined, `u` survives: its rewriting `z` is read on the interior
faces. -/
theorem exists_moved {tag : BoundaryTag} {u : Expr}
    (w : Face roots roots' (.apply (.restrict tag) u)) :
    ∃ z, Rewrites u z ∧ (.onInteriorFaces, z) ∈ w.result.demands :=
  w.inputs.exists_volume
    ((w.inputs.mem_volume u).mpr (.inr ⟨w.component, w.mem, tag, w.inlined⟩))

end Face

/-- If `e` survives, its operands survive, apart from the boundary components of a flux on a pair,
which stand on its face. -/
theorem survives_operand (hv : NoneVanish roots) (he : Reached roots e) (hs : Survives roots' e)
    {o : FieldType × Expr} (ho : o ∈ e.demands) :
    Survives roots' o.2 ∨ Nonempty (Face roots roots' o.2) := by
  obtain ⟨y, hr, hy⟩ := hs
  -- the flux does not vanish, so it is a flux on lists
  by_cases hp : e.isPairFlux = true
  · have hz : y ≠ .zero := fun hz => hv e he hp (hz ▸ hr)
    obtain ⟨f, interior, boundary, tag, rfl⟩ := exists_of_isPairFlux hp
    obtain ⟨i⟩ := exists_fluxInputs hr hz
    -- an interior component is a volume input; a boundary component is inlined in itself
    rcases List.mem_append.mp ho with ho | ho
    · obtain ⟨x, hx, rfl⟩ := List.mem_map.mp ho
      obtain ⟨z, hxz, hz⟩ := i.exists_volume ((i.mem_volume x).mpr (.inl hx))
      exact .inl ⟨z, hxz, hy.operand hz⟩
    · obtain ⟨x, hx, rfl⟩ := List.mem_map.mp ho
      exact .inr ⟨⟨f, interior, boundary, tag, he, y, hy, i, x, hx, .self⟩⟩
  · obtain ⟨o', ho', -, hr'⟩ :=
      exists_right_of_forall₂ (demands_of_rewritten (by simpa using hp) hr) ho
    exact .inl ⟨o'.2, hr', hy.operand ho'⟩

/-- If `e` stands on a face, then `e` survives, or its operands do, or they stand on the same face.
-/
theorem Face.operand_survives (w : Face roots roots' e) {o : FieldType × Expr}
    (ho : o ∈ e.demands) :
    Survives roots' e ∨ Survives roots' o.2 ∨ Nonempty (Face roots roots' o.2) := by
  rcases w.kinds with ht | ⟨tag, u, rfl⟩ | hi | ha
  · -- translation looks inside, so the operand is inlined as well
    rw [demands_of_isTransparent ht] at ho
    obtain ⟨c, hc, rfl⟩ := List.mem_map.mp ho
    exact .inr (.inr ⟨w.operand ht hc⟩)
  · -- the operand of a restriction has moved to the volume
    obtain rfl := List.mem_singleton.mp ho
    obtain ⟨z, hr, hz⟩ := w.exists_moved
    exact .inr (.inl ⟨z, hr, w.survives.operand hz⟩)
  · -- a boundary input survives itself
    obtain ⟨z, hr, hz⟩ := w.exists_input hi
    exact .inl ⟨z, hr, w.survives.operand hz⟩
  · -- an atom has no operands
    rcases ha with ⟨_, rfl⟩ | ⟨_, rfl⟩ | ⟨_, _, _, rfl⟩ <;> nomatch ho

/-- What is visited survives, or is inlined in the boundary field of a flux that does. -/
theorem survives_or_face (hR : List.Forall₂ Rewrites roots roots') (hv : NoneVanish roots)
    (he : Reached roots e) : Survives roots' e ∨ Nonempty (Face roots roots' e) := by
  obtain ⟨c, hc, hce⟩ := he
  -- along the path from the component `c`: every node on it is visited, and survives or is
  -- inlined
  have start : Reached roots c ∧ (Survives roots' c ∨ Nonempty (Face roots roots' c)) := by
    obtain ⟨y, hy, hr⟩ := exists_right_of_forall₂ (components_of_roots hR) hc
    exact ⟨.of_component hc, .inl ⟨y, hr, .of_component hy⟩⟩
  clear hc
  induction hce with
  | self => exact start.2
  | operand ho _ ih =>
    refine ih ⟨start.1.operand ho, ?_⟩
    rcases start.2 with hs | ⟨⟨w⟩⟩
    · exact survives_operand hv start.1 hs ho
    · rcases w.operand_survives ho with hs | h
      · exact survives_operand hv start.1 hs ho
      · exact h

end OperatorTemplate.Expr
