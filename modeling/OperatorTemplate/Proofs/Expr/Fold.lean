import OperatorTemplate.Expr.Equality
import OperatorTemplate.Expr.Fold
import OperatorTemplate.Proofs.Action
/-!
# What a rebuilt expression is

A rebuild maps a step over the children of a node, in order, and puts the results in their places
(`mapChildrenM_eq`).  A node with other children in the place of its own, if they are as many, has
the old head over them (`withChildren_spec`).  Only these two statements look at the kind of the node;
the others follow from what is known of maps over lists:

* Over `Except`, the children of the new node are the results for the old children
  (`rebuilt_of_mapChildrenM`), and there are such results if the step succeeds on each
  (`exists_mapChildrenM`).
* A step whose answers do not show a memory rebuilds without showing it (`Answers.mapChildrenM`), and a
  rebuild fails with errors of the step alone (`Raises.mapChildrenM`).
* Whatever a step does to a state, a rebuild does it child after child, up to the first failure
  (`Applies.rebuild`).  So a fold that does nothing but rebuild is the identity
  (`run_recurse_rebuild`).
-/

namespace OperatorTemplate

universe u

variable {ε σ : Type}

namespace Expr

/-- The fold of `e` is the step at `e`, with the folds of smaller expressions at hand. -/
theorem recurse_eq {α : Type u} (step : (e : Expr) → Descent α e → α) (e : Expr) :
    e.recurse step = step e fun x _ => x.recurse step := by
  rw [recurse]

/-! ## Nodes with other children -/

/-- The node with some expressions in the place of its children, if they are as many. -/
def withChildren : Expr → List Expr → Expr
  | .subscript _ index, [e] => .subscript e index
  | .sum _, es => .sum es
  | .product _, es => .product es
  | .quotient _ _, [a, b] => .quotient a b
  | .power _ _, [a, b] => .power a b
  | .conditional _ _ _, [c, a, b] => .conditional c a b
  | .ifPositive _ _ _, [c, a, b] => .ifPositive c a b
  | .comparison _ relation _, [a, b] => .comparison a relation b
  | .call function _, es => .call function es
  | .shared _ label, [body] => .shared body label
  | .apply op _, [field] => .apply op field
  | .pair _ _ tag, [a, b] => .pair a b tag
  | .array _, es => .array es
  | .exchange index rank _, es => .exchange index rank es
  | .domainFlux interiors _, es =>
    .domainFlux (es.take interiors.length) (es.drop interiors.length)
  | e, _ => e

/-- A node with `es` in the place of its children, as many as those, has the head of `e` and the
children `es`. -/
theorem withChildren_spec {e : Expr} {es : List Expr} (h : es.length = e.children.length) :
    (e.withChildren es).head = e.head ∧ (e.withChildren es).children = es := by
  cases e with
  | atom a => exact ⟨rfl, (List.eq_nil_of_length_eq_zero h).symm⟩
  | subscript _ _ | shared _ _ | apply _ _ =>
    obtain ⟨a, rfl⟩ := List.length_eq_one_iff.mp h
    exact ⟨rfl, rfl⟩
  | sum _ | product _ | array _ | call _ _ | exchange _ _ _ => exact ⟨rfl, rfl⟩
  | quotient _ _ | power _ _ | comparison _ _ _ | pair _ _ _ =>
    obtain ⟨a, b, rfl⟩ := List.length_eq_two.mp h
    exact ⟨rfl, rfl⟩
  | conditional _ _ _ | ifPositive _ _ _ =>
    obtain ⟨c, a, b, rfl⟩ := List.length_eq_three.mp h
    exact ⟨rfl, rfl⟩
  | domainFlux is bs =>
    -- two lists of children, which are told apart by the length of the first
    rw [children, List.length_append] at h
    refine ⟨?_, List.take_append_drop is.length es⟩
    rw [withChildren, head, List.length_take, h, Nat.min_eq_left (Nat.le_add_right _ _), head]

section Lawful

variable {m : Type → Type} [Monad m] [LawfulMonad m]

/-- The map over a list of children is that of the library. -/
theorem mapListM_eq (f : Expr → m Expr) :
    (es : List Expr) → mapListM es (fun c _ => f c) = es.mapM f
  | [] => List.mapM_nil.symm
  | e :: es => by rw [mapListM, mapListM_eq f es, List.mapM_cons]

/-- What comes after a map over a list may count on as many results. -/
theorem mapM_bind_congr {α : Type} (f : Expr → m Expr) {es : List Expr} {next next' : List Expr → m α}
    (h : ∀ ds, ds.length = es.length → next ds = next' ds) :
    es.mapM f >>= next = es.mapM f >>= next' := by
  induction es generalizing next next' with
  | nil => rw [List.mapM_nil, pure_bind, pure_bind, h [] rfl]
  | cons e es ih =>
    simp only [List.mapM_cons, bind_assoc, pure_bind]
    refine bind_congr fun d => ih fun ds hd => h (d :: ds) ?_
    rw [List.length_cons, hd, List.length_cons]

/-- A rebuild maps the step over the children and puts the results in their places. -/
theorem mapChildrenM_eq (f : Expr → m Expr) (e : Expr) :
    e.mapChildrenM (fun c _ => f c) = e.children.mapM f >>= fun ds => pure (e.withChildren ds) := by
  cases e with
  | sum es | product es | array es | call _ es | exchange _ _ es =>
    show mapListM es (fun c _ => f c) >>= _ = _
    rw [mapListM_eq]
    rfl
  | domainFlux is bs =>
    -- the results for both lists of children, one after the other
    rw [mapChildrenM, mapListM_eq, children, List.mapM_append]
    simp only [bind_assoc, pure_bind]
    refine mapM_bind_congr f fun is' hi => ?_
    rw [mapListM_eq]
    refine bind_congr fun bs' => ?_
    rw [withChildren, List.take_left' hi, List.drop_left' hi]
  | _ =>
    simp only [mapChildrenM, children, List.mapM_cons, List.mapM_nil, bind_assoc, pure_bind]
    rfl

end Lawful

/-! ## Success -/

/-- A rebuilt node has the old head over the results for the old children. -/
theorem rebuilt_of_mapChildrenM {f : Expr → Except ε Expr} {e y : Expr}
    (h : e.mapChildrenM (fun c _ => f c) = .ok y) :
    y.head = e.head ∧ List.Forall₂ (fun c d => f c = .ok d) e.children y.children := by
  rw [mapChildrenM_eq] at h
  obtain ⟨ds, hds, h⟩ := bind_eq_ok.mp h
  cases h
  have related := forall₂_of_mapM hds
  obtain ⟨head, children⟩ := withChildren_spec related.length_eq.symm
  exact ⟨head, children.symm ▸ related⟩

/-- A map succeeds if the step does so on each element of the list. -/
theorem exists_mapM {f : Expr → Except ε Expr} : {es : List Expr} →
    (∀ c ∈ es, ∃ d, f c = .ok d) → ∃ ys, es.mapM f = .ok ys
  | [], _ => ⟨[], rfl⟩
  | e :: es, h => by
    obtain ⟨y, hy⟩ := h e List.mem_cons_self
    obtain ⟨ys, hys⟩ := exists_mapM fun c hc => h c (List.mem_cons_of_mem e hc)
    rw [List.mapM_cons]
    exact ⟨y :: ys, bind_eq_ok.mpr ⟨y, hy, bind_eq_ok.mpr ⟨ys, hys, rfl⟩⟩⟩

/-- A node is rebuilt if the step succeeds on its children. -/
theorem exists_mapChildrenM {f : Expr → Except ε Expr} {e : Expr}
    (h : ∀ c ∈ e.children, ∃ d, f c = .ok d) : ∃ y, e.mapChildrenM (fun c _ => f c) = .ok y := by
  obtain ⟨ds, hds⟩ := exists_mapM h
  rw [mapChildrenM_eq]
  exact ⟨_, bind_eq_ok.mpr ⟨ds, hds, rfl⟩⟩

/-- A step that does not fail is mapped over the children, and the head is kept. -/
theorem mapChildrenM_pure (f : Expr → Expr) (e : Expr) :
    (e.mapChildrenM fun c _ => (pure (f c) : Id Expr)).run.head = e.head
      ∧ (e.mapChildrenM fun c _ => (pure (f c) : Id Expr)).run.children = e.children.map f := by
  rw [mapChildrenM_eq (m := Id), List.mapM_pure, pure_bind]
  exact withChildren_spec (List.length_map f)

end Expr

/-! ## Answers and errors -/

/-- A step that answers without showing a memory rebuilds without showing it. -/
theorem Answers.mapChildrenM {inv : σ → Prop} {e : Expr} {f : Expr → ExceptT ε (StateM σ) Expr}
    {g : Expr → Except ε Expr} (h : ∀ c ∈ e.children, Answers inv (f c) (g c)) :
    Answers inv (e.mapChildrenM fun c _ => f c) (e.mapChildrenM fun c _ => g c) := by
  rw [Expr.mapChildrenM_eq, Expr.mapChildrenM_eq]
  exact bind (mapM _ h) fun _ _ => pure _

/-- A rebuild fails with errors of the step alone. -/
theorem Raises.mapChildrenM {P : ε → Prop} {e : Expr} {f : Expr → ExceptT ε (StateM σ) Expr}
    (h : ∀ c ∈ e.children, Raises P (f c)) : Raises P (e.mapChildrenM fun c _ => f c) := by
  rw [Expr.mapChildrenM_eq]
  exact bind (mapM h) fun _ => pure _

/-! ## Steps in order -/

namespace Expr

variable {α : Type} {step : Expr → ExceptT ε (StateM σ) Expr} {c : Expr} {cs es : List Expr} {s : σ}

/-- From a state, the step succeeds on some expressions in order, each time from where the time
before has ended: the results, and the state in the end. -/
inductive Yields (step : Expr → ExceptT ε (StateM σ) Expr) :
    List Expr → σ → List Expr → σ → Prop where
  | nil (s : σ) : Yields step [] s [] s
  | cons {c d : Expr} {cs ds : List Expr} {s s₁ s' : σ} (first : (step c).run.run s = (.ok d, s₁))
      (rest : Yields step cs s₁ ds s') : Yields step (c :: cs) s (d :: ds) s'

/-- What an action does is to apply the step to some expressions in order.  At the first failure it
stops, with the error and in the state that the step gives there; else it ends where the last step
does, with an answer that it has made of the results. -/
def Applies (step : Expr → ExceptT ε (StateM σ) Expr) (cs : List Expr)
    (action : ExceptT ε (StateM σ) α) (made : List Expr → α → Prop) : Prop :=
  ∀ s,
    (∃ results a s', Yields step cs s results s' ∧ made results a
      ∧ action.run.run s = (.ok a, s'))
    ∨ ∃ before c after results s₁ cause s', cs = before ++ c :: after
      ∧ Yields step before s results s₁ ∧ (step c).run.run s₁ = (.error cause, s')
      ∧ action.run.run s = (.error cause, s')

namespace Applies

variable {made : List Expr → α → Prop}

/-- An action that does nothing applies the step to no expressions. -/
theorem pure {a : α} (h : made [] a) : Applies step [] (Pure.pure a) made :=
  fun s => .inl ⟨[], a, s, .nil s, h, rfl⟩

/-- The step on `c`, followed by what applies it to `cs`, applies it to `c :: cs`. -/
theorem step_bind {next : Expr → ExceptT ε (StateM σ) α}
    (h : ∀ d, Applies step cs (next d) fun results => made (d :: results)) :
    Applies step (c :: cs) (step c >>= next) made := by
  intro s
  rcases run_bind_cases (step c) next s with ⟨cause, s', hc, hr⟩ | ⟨d, s₁, hc, hr⟩
  · -- the step fails on `c` itself
    exact .inr ⟨[], c, cs, [], s, cause, s', rfl, .nil s, hc, hr⟩
  · rw [hr]
    rcases h d s₁ with ⟨results, a, s', hy, hm, ha⟩
      | ⟨before, x, after, results, s₂, cause, s', rfl, hy, hx, ha⟩
    · -- it succeeds on `c`, and so it does on the rest
      exact .inl ⟨d :: results, a, s', .cons hc hy, hm, ha⟩
    · -- it succeeds on `c`, and fails behind
      exact .inr ⟨c :: before, x, after, d :: results, s₂, cause, s', rfl, .cons hc hy, hx, ha⟩

/-- An answer made of what an action gives: the step is applied as before. -/
theorem map {action : ExceptT ε (StateM σ) α} {β : Type} {make : α → β} {made' : List Expr → β → Prop}
    (h : Applies step cs action made) (hm : ∀ results a, made results a → made' results (make a)) :
    Applies step cs (action >>= fun a => Pure.pure (make a)) made' := by
  intro s
  rcases h s with ⟨results, a, s', hy, ha, hr⟩ | ⟨before, c, after, results, s₁, cause, s', hc, hy, hx, hr⟩
  · refine .inl ⟨results, make a, s', hy, hm results a ha, ?_⟩
    exact run_bind_eq_ok.mpr ⟨a, s', hr, rfl⟩
  · refine .inr ⟨before, c, after, results, s₁, cause, s', hc, hy, hx, ?_⟩
    simp only [ExceptT.run_bind, StateT.run_bind, hr]
    rfl

/-- A map over the list `es` applies the step to its elements, and answers with the results. -/
theorem mapM : (es : List Expr) →
    Applies step es (es.mapM step) fun results ds => ds = results ∧ ds.length = es.length
  | [] => by
    rw [List.mapM_nil]
    exact pure ⟨rfl, rfl⟩
  | e :: es => by
    rw [List.mapM_cons]
    refine step_bind fun d => (mapM es).map fun results ds h => ?_
    rw [h.1, List.length_cons, List.length_cons, ← h.2, h.1]
    exact ⟨rfl, rfl⟩

/-- A rebuild of `e` applies the step to the children, whatever the kind of the node, and answers
with the old head over the results. -/
theorem rebuild (step : Expr → ExceptT ε (StateM σ) Expr) (e : Expr) :
    Applies step e.children (e.rebuild fun c _ => step c) fun results e' =>
      e'.head = e.head ∧ e'.children = results := by
  rw [Expr.rebuild, mapChildrenM_eq]
  refine (mapM e.children).map fun results ds h => ?_
  rw [← h.1]
  exact withChildren_spec h.2

end Applies

/-- A step that answers with what it is given and leaves the state does so in order. -/
theorem Yields.eq_self {results : List Expr} {s' : σ} (h : Yields step cs s results s')
    (same : ∀ c ∈ cs, ∀ s, (step c).run.run s = (.ok c, s)) : results = cs ∧ s' = s := by
  induction h with
  | nil s => exact ⟨rfl, rfl⟩
  | cons first rest ih =>
    obtain ⟨rfl, rfl⟩ := ih fun c hc => same c (List.mem_cons_of_mem _ hc)
    rw [same _ List.mem_cons_self] at first
    cases first
    exact ⟨rfl, rfl⟩

/-- A fold that does nothing but rebuild gives back what it is given, in the state it started from.
By induction on the size of `e`. -/
theorem run_recurse_rebuild (e : Expr) (s : σ) :
    (e.recurse rebuild : ExceptT ε (StateM σ) Expr).run.run s = (.ok e, s) := by
  have same (c : Expr) (hc : c ∈ e.children) (s : σ) :
      (c.recurse rebuild : ExceptT ε (StateM σ) Expr).run.run s = (.ok c, s) :=
    run_recurse_rebuild c s
  rw [recurse_eq]
  rcases Applies.rebuild (fun c => c.recurse rebuild) e s with
    ⟨results, e', s', hy, ⟨head, children⟩, hr⟩ | ⟨before, c, after, _, s₁, cause, s', hc, -, hx, -⟩
  · obtain ⟨rfl, rfl⟩ := hy.eq_self same
    rw [hr, eq_of_head_of_children head children]
  · -- no fold of a child fails, so neither does the rebuild
    have hmem : c ∈ e.children := by rw [hc]; exact List.mem_append_right _ List.mem_cons_self
    rw [same c hmem] at hx
    nomatch congrArg Prod.fst hx
termination_by e.size
decreasing_by exact size_lt_of_mem_children hc

end Expr

end OperatorTemplate
