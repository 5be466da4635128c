import OperatorTemplate.Expr.Substitution
import OperatorTemplate.Proofs.Expr.Fold
/-!
# What a substitution gives

A substitution is a fold that knows what to do at a variable and rebuilds everything else.  So it
puts the replacements for all variables at once (`substitute`), unless one of them is refused; then
it fails with the first of those, in the order of the children (`variableNames`).  Besides, it says
whether anything was replaced.

The crux is that a rebuild goes through the children, all of them and in order, and stops at the
first failure (`Applies.rebuild`): the variables of a node are those of its children one after the
other, so the first that is refused there is the first that is refused in the first child that has
any.

A run starts in the state `r`, which says whether anything was replaced before.  `Outcome` gives the
result of a run for every `r`, so that the runs on the children can follow each other (`of_yields`).
-/

namespace OperatorTemplate

namespace Expr

/-! ## Variables -/

/-- The name of a variable. -/
def variableName? : Expr → Option String
  | .atom (.variable name) => some name
  | _ => none

/-- A variable stands for itself; of everything else the children are gone through. -/
def variableNamesStep (e : Expr) (variableNames : Descent (List String) e) : List String :=
  match e.variableName? with
  | some name => [name]
  | none => e.children.attach.flatMap fun c => variableNames c.1 (size_lt_of_attached c)

/-- The names of the variables, as often as they occur, in the order of the children. -/
def variableNames (e : Expr) : List String := e.recurse variableNamesStep

variable {e : Expr} {name : String}

/-- Only a variable has the name of one. -/
theorem eq_of_variableName? (h : e.variableName? = some name) : e = .atom (.variable name) := by
  unfold variableName? at h
  split at h
  · cases h
    rfl
  · nomatch h

/-- A variable names itself. -/
theorem variableNames_variable (name : String) :
    (atom (.variable name)).variableNames = [name] := by
  rw [variableNames, recurse_eq]
  rfl

/-- The variables of anything else are those of its children, one after the other. -/
theorem variableNames_of_none (h : e.variableName? = none) :
    e.variableNames = e.children.flatMap variableNames := by
  rw [← flatMap_attach, variableNames, recurse_eq, variableNamesStep, h]
  rfl

/-! ## Simultaneous substitution -/

mutual
/-- The expression with what stands for its variables in their places; variables without a
replacement stay. -/
def substitute (replacement? : String → Option Expr) : Expr → Expr
  | .atom (.variable name) => (replacement? name).getD (.atom (.variable name))
  | .atom a => .atom a
  | .subscript e index => .subscript (substitute replacement? e) index
  | .sum es => .sum (substituteAll replacement? es)
  | .product es => .product (substituteAll replacement? es)
  | .quotient a b => .quotient (substitute replacement? a) (substitute replacement? b)
  | .power a b => .power (substitute replacement? a) (substitute replacement? b)
  | .conditional c a b =>
    .conditional (substitute replacement? c) (substitute replacement? a)
      (substitute replacement? b)
  | .ifPositive c a b =>
    .ifPositive (substitute replacement? c) (substitute replacement? a)
      (substitute replacement? b)
  | .comparison a relation b =>
    .comparison (substitute replacement? a) relation (substitute replacement? b)
  | .call function es => .call function (substituteAll replacement? es)
  | .shared body label => .shared (substitute replacement? body) label
  | .apply op field => .apply op (substitute replacement? field)
  | .pair a b tag => .pair (substitute replacement? a) (substitute replacement? b) tag
  | .array es => .array (substituteAll replacement? es)
  | .exchange index rank es => .exchange index rank (substituteAll replacement? es)
  | .domainFlux interiors boundaries =>
    .domainFlux (substituteAll replacement? interiors) (substituteAll replacement? boundaries)

/-- Several expressions with what stands for their variables. -/
def substituteAll (replacement? : String → Option Expr) : List Expr → List Expr
  | [] => []
  | e :: es => substitute replacement? e :: substituteAll replacement? es
end

variable {replacement? : String → Option Expr}

/-- Several expressions are substituted one by one. -/
theorem substituteAll_eq_map (es : List Expr) :
    substituteAll replacement? es = es.map (substitute replacement?) := by
  induction es with
  | nil => rfl
  | cons e es ih => rw [substituteAll, ih, List.map_cons]

/-- A substitution keeps the head of what is no variable, and substitutes in its children. -/
theorem substitute_of_none (replacement? : String → Option Expr) (h : e.variableName? = none) :
    (e.substitute replacement?).head = e.head
      ∧ (e.substitute replacement?).children = e.children.map (substitute replacement?) := by
  cases e with
  | atom a =>
    cases a with
    | «variable» name => nomatch h
    | _ => exact ⟨rfl, rfl⟩
  | sum es | product es | array es | call _ es | exchange _ _ es =>
    exact ⟨rfl, substituteAll_eq_map es⟩
  | domainFlux is bs =>
    rw [substitute, substituteAll_eq_map, substituteAll_eq_map]
    constructor
    · rw [head, List.length_map, head]
    · rw [children, children, List.map_append]
  | _ => exact ⟨rfl, rfl⟩

end Expr

/-! ## Runs -/

namespace Substitution

open OperatorTemplate.Expr (Yields Applies)

variable {e c : Expr} {cs results : List Expr} {r r' : Bool}

/-- Whether there is a replacement for a variable. -/
def replaces (sub : Substitution) (name : String) : Bool := (sub.replacements.get? name).isSome

/-- The first refused variable among some. -/
def refused? (sub : Substitution) (names : List String) : Option String :=
  names.find? (· ∈ sub.refused)

variable {sub : Substitution}

/-- If no name of the first list is refused, the first refused name is that of the second. -/
theorem refused?_append_of_none {names names' : List String} (h : sub.refused? names = none) :
    sub.refused? (names ++ names') = sub.refused? names' := by
  rw [refused?, List.find?_append, ← refused?, h, Option.none_or, refused?]

/-- If a name of the first list is refused, the second list does not matter. -/
theorem refused?_append_of_some {names names' : List String} {name : String}
    (h : sub.refused? names = some name) : sub.refused? (names ++ names') = some name := by
  rw [refused?, List.find?_append, ← refused?, h, Option.some_or]

/-- At anything but a variable, the step rebuilds. -/
theorem step_eq_rebuild (h : e.variableName? = none) (fold : Expr.Descent (Run Expr) e) :
    sub.step e fold = e.rebuild fold := by
  cases e with
  | atom a =>
    cases a with
    | «variable» name => nomatch h
    | _ => rfl
  | _ => rfl

/-- What a run on an expression gives: the first refused variable, or the substituted expression and
whether anything was replaced, now or before. -/
inductive Outcome (sub : Substitution) (e : Expr) (r : Bool) : Except String Expr × Bool → Prop where
  | refuses {name : String} (h : sub.refused? e.variableNames = some name) (r' : Bool) :
    Outcome sub e r (.error name, r')
  | replaces (h : sub.refused? e.variableNames = none) :
    Outcome sub e r
      (.ok (e.substitute sub.replacements.get?), r || e.variableNames.any sub.replaces)

/-- Where the runs on the expressions `cs` succeed one after the other, from the state `r` to `r'`,
nothing in them is refused, all of them are substituted, and `r'` says whether anything was replaced
before or in them. -/
theorem of_yields {step : Expr → Run Expr} (h : Yields step cs r results r')
    (outcome : ∀ c ∈ cs, ∀ r, sub.Outcome c r ((step c).run.run r)) :
    sub.refused? (cs.flatMap Expr.variableNames) = none
      ∧ results = cs.map (Expr.substitute sub.replacements.get?)
      ∧ r' = (r || (cs.flatMap Expr.variableNames).any sub.replaces) := by
  induction h with
  | nil r => exact ⟨rfl, rfl, (Bool.or_false r).symm⟩
  | @cons c _ _ _ r _ _ first _ ih =>
    have here := outcome c List.mem_cons_self r
    rw [first] at here
    cases here with
    | replaces none =>
      obtain ⟨others, rfl, rfl⟩ := ih fun c hc => outcome c (List.mem_cons_of_mem _ hc)
      rw [List.flatMap_cons, refused?_append_of_none none, List.any_append, ← Bool.or_assoc]
      exact ⟨others, rfl, rfl⟩

/-- What a run on a variable gives: the variable is refused, or replaced, or stays. -/
theorem outcome_variable (sub : Substitution) (name : String) (r : Bool) :
    sub.Outcome (.atom (.variable name)) r
      (((Expr.atom (.variable name)).recurse sub.step).run.run r) := by
  have names := Expr.variableNames_variable name
  rw [Expr.recurse_eq, step]
  by_cases hn : name ∈ sub.refused
  · rw [if_pos hn]
    refine .refuses ?_ r
    rw [names, refused?, List.find?_cons_of_pos (by simpa using hn)]
  · have allowed : sub.refused? (Expr.atom (.variable name)).variableNames = none := by
      rw [names, refused?, List.find?_cons_of_neg (by simpa using hn), List.find?_nil]
    have outcome := Outcome.replaces (r := r) allowed
    rw [Expr.substitute, names, List.any_cons, List.any_nil, Bool.or_false, replaces] at outcome
    rw [if_neg hn]
    cases hg : sub.replacements.get? name with
    | some replacement =>
      rw [hg, Option.isSome_some, Bool.or_true] at outcome
      exact outcome
    | none =>
      rw [hg, Option.isSome_none, Bool.or_false] at outcome
      exact outcome

/-- What a run on `e` gives, whatever has been replaced before.  By induction on the size of `e`. -/
theorem outcome_recurse (sub : Substitution) (e : Expr) (r : Bool) :
    sub.Outcome e r ((e.recurse sub.step).run.run r) := by
  cases hv : e.variableName? with
  | some name =>
    rw [Expr.eq_of_variableName? hv]
    exact outcome_variable sub name r
  | none =>
    have below (c : Expr) (hc : c ∈ e.children) (r : Bool) :
        sub.Outcome c r ((c.recurse sub.step).run.run r) := outcome_recurse sub c r
    rw [Expr.recurse_eq, step_eq_rebuild hv]
    rcases Applies.rebuild (fun c => c.recurse sub.step) e r with
      ⟨results, e', r', hy, ⟨head, children⟩, hr⟩
        | ⟨before, c, after, results, r₁, name, r', hc, hy, hx, hr⟩
    · -- the runs on all children succeed, and the new node is the substituted one
      obtain ⟨none, rfl, rfl⟩ := of_yields hy below
      obtain ⟨head', children'⟩ := Expr.substitute_of_none sub.replacements.get? hv
      rw [hr, Expr.eq_of_head_of_children (head.trans head'.symm) (children.trans children'.symm),
        ← Expr.variableNames_of_none hv]
      rw [← Expr.variableNames_of_none hv] at none
      exact .replaces none
    · -- the run on `c` fails: nothing is refused in the children before, and `c` has a refused
      -- variable
      have earlier (x : Expr) (h : x ∈ before) : x ∈ e.children := by
        rw [hc]
        exact List.mem_append_left _ h
      have here := below c (by rw [hc]; exact List.mem_append_right _ List.mem_cons_self) r₁
      rw [hx] at here
      rw [hr]
      cases here with
      | refuses first =>
        refine .refuses ?_ r'
        rw [Expr.variableNames_of_none hv, hc, List.flatMap_append, List.flatMap_cons,
          refused?_append_of_none (of_yields hy fun x h => below x (earlier x h)).1]
        exact refused?_append_of_some first
termination_by e.size
decreasing_by exact Expr.size_lt_of_mem_children hc

/-- A substitution of `e` fails with the first refused variable, or replaces all variables at once
and says whether there was a replacement for any. -/
theorem apply_eq (sub : Substitution) (e : Expr) :
    sub.apply e = match sub.refused? e.variableNames with
      | some name => .error name
      | none => .ok (e.substitute sub.replacements.get?, e.variableNames.any sub.replaces) := by
  have outcome := outcome_recurse sub e false
  rw [apply]
  revert outcome
  generalize (e.recurse sub.step).run.run false = run
  intro outcome
  cases outcome with
  | refuses first r' =>
    rw [first]
    rfl
  | replaces none =>
    rw [none, Bool.false_or]
    rfl

/-- Two variables change places, since they are replaced at once. -/
example :
    (⟨.ofList [("u", .atom (.variable "v")), ("v", .atom (.variable "u"))], []⟩ : Substitution).apply
        (.quotient (.atom (.variable "u")) (.atom (.variable "v")))
      = .ok (.quotient (.atom (.variable "v")) (.atom (.variable "u")), true) := by cbv

end Substitution

/-- **Folds go through the children.**  The ordinary step of a fold applies whatever is done at the
children to all of them, in order; it stops at the first failure, and else puts the results in their
places.  So a fold that does nothing else gives back what it is given, and a substitution replaces all
variables at once, or fails with the first that is refused. -/
theorem folds_go_through_children :
    (∀ (ε σ : Type) (step : Expr → ExceptT ε (StateM σ) Expr) (e : Expr),
      Expr.Applies step e.children (e.rebuild fun c _ => step c) fun results e' =>
        e'.head = e.head ∧ e'.children = results) ∧
    (∀ (ε σ : Type) (e : Expr) (s : σ),
      (e.recurse Expr.rebuild : ExceptT ε (StateM σ) Expr).run.run s = (.ok e, s)) ∧
    ∀ (sub : Substitution) (e : Expr),
      sub.apply e = match sub.refused? e.variableNames with
        | some name => .error name
        | none => .ok (e.substitute sub.replacements.get?, e.variableNames.any sub.replaces) := by
  refine ⟨fun ε σ step e => ?_, fun ε σ e s => ?_, fun sub e => ?_⟩
  · exact Expr.Applies.rebuild step e
  · exact Expr.run_recurse_rebuild e s
  · exact sub.apply_eq e

end OperatorTemplate
