import OperatorTemplate.Boundary.Translation
import OperatorTemplate.Invariant
/-!
# Where inputs come from

Every input that a translation lists is a part of what it translates, or was listed before.

A translation changes its state in four ways: it lists a volume input, lists a boundary input,
learns costs, and remembers the kernel of a common subexpression.  What holds of a state and is not
harmed by any of the four is *stable* (`Translate.Stable`), and survives the whole translation of an
expression, if it fails as well as if it succeeds (`keeps_expr`).  Of what is listed a stable
property may ask that it satisfy `P`, where `P` is a property that expressions hand down to their
operands (`Hereditary`). In particular such a property reaches all inputs (`stable_allInputs`).

Applied to size, the inputs of a pair are smaller than the pair (`allInputs_translatePair`), and
whoever descends into a pair may descend into its inputs.
-/

namespace OperatorTemplate

namespace Expr

/-- A property that passes from an expression to its operands. -/
def Hereditary (P : Expr → Prop) : Prop := ∀ e, P e → ∀ c ∈ e.children, P c

/-- To have fewer nodes than `bound` passes from an expression to its operands. -/
theorem hereditary_size_lt (bound : Nat) : Hereditary fun e => e.size < bound :=
  fun _ he _ hc => Nat.lt_trans (size_lt_of_mem_children hc) he

end Expr

/-- What is listed after `e` was registered was listed before or is `e`. -/
theorem mem_or_eq_of_mem_register {x e : Expr} {inputs : List Expr}
    (h : x ∈ (register e inputs).2) : x ∈ inputs ∨ x = e := by
  unfold register at h
  split at h <;> simp_all

/-- All inputs have a property. -/
def TranslationState.AllInputs (P : Expr → Prop) (s : TranslationState) : Prop :=
  (∀ x ∈ s.volume, P x) ∧ (∀ x ∈ s.boundary, P x)

namespace Translate

variable {P : Expr → Prop} {inv : TranslationState → Prop} {e : Expr} {tag : BoundaryTag}

/-! ## Steps -/

/-- A property of states that survives the listing of inputs that satisfy `P`. -/
structure Listable (P : Expr → Prop) (inv : TranslationState → Prop) : Prop where
  volume : ∀ s e, P e → inv s → inv { s with volume := (register e s.volume).2 }
  boundary : ∀ s e, P e → inv s → inv { s with boundary := (register e s.boundary).2 }

/-- A property of states that survives every step of a translation that lists only what satisfies
`P`. -/
structure Stable (P : Expr → Prop) (inv : TranslationState → Prop) : Prop
    extends Listable P inv where
  costs : ∀ s costs, inv s → inv { s with costs }
  once : ∀ e (translation : Translate Kernel), Keeps inv translation → Keeps inv (once e translation)

/-- What does not depend on the kernels in memory survives a common subexpression that its body
survives. -/
theorem keeps_once (hk : ∀ s kernels, inv s → inv { s with kernels }) (e : Expr)
    {translation : Translate Kernel} (h : Keeps inv translation) :
    Keeps inv (once e translation) := by
  unfold once
  refine Keeps.bind Keeps.get fun s => ?_
  split
  · exact Keeps.pure _
  · refine Keeps.bind h fun kernel => Keeps.bind (Keeps.modify ?_) fun _ => Keeps.pure _
    intro s hs
    exact hk s _ hs

/-- That all inputs satisfy `P` is stable, for inputs that satisfy `P`. -/
theorem stable_allInputs (P : Expr → Prop) : Stable P (·.AllInputs P) where
  volume := by
    rintro s e he ⟨hv, hb⟩
    refine ⟨fun x hx => ?_, hb⟩
    rcases mem_or_eq_of_mem_register hx with h | rfl
    · exact hv x h
    · exact he
  boundary := by
    rintro s e he ⟨hv, hb⟩
    refine ⟨hv, fun x hx => ?_⟩
    rcases mem_or_eq_of_mem_register hx with h | rfl
    · exact hb x h
    · exact he
  costs _ _ h := h
  once e _ h := keeps_once (fun _ _ h => h) e h

/-- To list a volume input that satisfies `P` keeps what is listable. -/
theorem keeps_volumeInput (hinv : Listable P inv) (he : P e) : Keeps inv (volumeInput e) :=
  fun s hs => hinv.volume s e he hs

/-- To list a boundary input that satisfies `P` keeps what is listable. -/
theorem keeps_boundaryInput (hinv : Listable P inv) (he : P e) : Keeps inv (boundaryInput e) :=
  fun s hs => hinv.boundary s e he hs

theorem keeps_isExpensive (hinv : Stable P inv) : Keeps inv (isExpensive e) :=
  fun s hs => hinv.costs s _ hs

theorem keeps_checkTag {carrier : TagCarrier} {found : BoundaryTag} :
    Keeps inv (checkTag tag carrier found) := by
  unfold checkTag
  split
  · exact Keeps.pure _
  · exact Keeps.throw _

/-- The translation of an application lists its operand or the application itself, after a tag was
checked, or fails. -/
theorem keeps_application {op : Operator} (hinv : Listable P inv) (hP : Expr.Hereditary P)
    (he : P (.apply op e)) : Keeps inv (application tag op e) := by
  have boundary : Keeps inv (boundaryInput (.apply op e)) := keeps_boundaryInput hinv he
  unfold application
  split
  · -- a restriction lists what is restricted, and all other operators the application
    exact Keeps.bind keeps_checkTag fun _ =>
      keeps_volumeInput hinv (hP _ he _ (by simp [Expr.children]))
  · exact Keeps.bind keeps_checkTag fun _ => boundary
  · exact Keeps.bind keeps_checkTag fun _ => boundary
  · split
    · exact Keeps.bind keeps_checkTag fun _ => boundary
    · exact boundary
  · exact Keeps.throw _

theorem keeps_atom (hinv : Listable P inv) : (a : Atom) → P (.atom a) → Keeps inv (atom tag a)
  | .variable _, he => keeps_boundaryInput hinv he
  | .normal _ _ _, _ => Keeps.bind keeps_checkTag fun _ => Keeps.pure _
  | .constant _, _ | .parameter _, _ => Keeps.pure _
  | .kernelNormal _, _ | .coordinate _ _, _ | .ones _, _ | .jacobian _, _ | .forwardMetric _ _, _
  | .inverseMetric _ _, _ => Keeps.throw _

/-! ## Expressions -/

mutual
/-- What is stable survives the translation of an expression `e`, if `P e` holds and `P` is
hereditary.  One case for each constructor; the operands are translated one after the other. -/
theorem keeps_expr (hinv : Stable P inv) (hP : Expr.Hereditary P) :
    (e : Expr) → P e → Keeps inv (expr tag e)
  | .atom a, he => keeps_atom hinv.toListable a he
  | .subscript _ _, he | .exchange _ _ _, he => keeps_boundaryInput hinv.toListable he
  | .apply _ _, he => keeps_application hinv.toListable hP he
  | .shared body _, he =>
    hinv.once _ _ (Keeps.bind (keeps_isExpensive hinv) fun cost => by
      split
      · exact keeps_boundaryInput hinv.toListable he
      · exact keeps_expr hinv hP body (hP _ he _ (by simp [Expr.children])))
  | .sum es, he | .product es, he | .call _ es, he =>
    Keeps.bind (keeps_all hinv hP es fun x hx => hP _ he x hx) fun _ => Keeps.pure _
  | .quotient a b, he | .power a b, he | .comparison a _ b, he =>
    Keeps.bind (keeps_expr hinv hP a (hP _ he _ (by simp [Expr.children]))) fun _ =>
      Keeps.bind (keeps_expr hinv hP b (hP _ he _ (by simp [Expr.children]))) fun _ =>
        Keeps.pure _
  | .conditional c a b, he | .ifPositive c a b, he =>
    Keeps.bind (keeps_expr hinv hP c (hP _ he _ (by simp [Expr.children]))) fun _ =>
      Keeps.bind (keeps_expr hinv hP a (hP _ he _ (by simp [Expr.children]))) fun _ =>
        Keeps.bind (keeps_expr hinv hP b (hP _ he _ (by simp [Expr.children]))) fun _ =>
          Keeps.pure _
  | .pair _ _ _, _ | .array _, _ | .domainFlux _ _, _ => Keeps.throw _

/-- The same for several expressions. -/
theorem keeps_all (hinv : Stable P inv) (hP : Expr.Hereditary P) :
    (es : List Expr) → (∀ e ∈ es, P e) → Keeps inv (all tag es)
  | [], _ => Keeps.pure _
  | e :: es, he =>
    Keeps.bind (keeps_expr hinv hP e (he e List.mem_cons_self)) fun _ =>
      Keeps.bind (keeps_all hinv hP es fun x hx => he x (List.mem_cons_of_mem e hx)) fun _ =>
        Keeps.pure _
end

end Translate

/-! ## Pairs -/

/-- The kernels of the boundary components of a pair, and what their translation has gathered.  The
volume inputs start with the interior components. -/
def translatePair (costs : CostMemory) (interior boundary : Expr) (tag : BoundaryTag) :
    Except RewriteError (List Kernel) × TranslationState :=
  (Translate.all tag boundary.components).run.run { costs, volume := interior.components }

/-- The inputs of a pair are smaller than the pair, those that the translation starts with and those
that it lists. -/
theorem allInputs_translatePair (costs : CostMemory) (interior boundary : Expr)
    (tag : BoundaryTag) :
    (translatePair costs interior boundary tag).2.AllInputs
      fun x => x.size < (Expr.pair interior boundary tag).size := by
  have small {x y : Expr} (hx : x ∈ y.components)
      (hy : y.size < (Expr.pair interior boundary tag).size) :
      x.size < (Expr.pair interior boundary tag).size :=
    Nat.lt_of_le_of_lt (Expr.size_le_of_mem_components hx) hy
  refine Translate.keeps_all (Translate.stable_allInputs _) (Expr.hereditary_size_lt _) _
    (fun x hx => small hx ?_) _ ⟨fun x hx => small hx ?_, by simp⟩
  · exact Expr.size_lt_of_mem_children (by simp [Expr.children])
  · exact Expr.size_lt_of_mem_children (by simp [Expr.children])

end OperatorTemplate
