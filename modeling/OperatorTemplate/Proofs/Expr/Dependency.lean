import OperatorTemplate.Expr.Dependency
import OperatorTemplate.Proofs.Expr.Fold
/-!
# What a search finds

A search passes over what it has visited.  A walk does not: it goes through all of a tree and lists
each dependency as often as it comes to it (`DependencySearch.walk`).  A visit finds what the walk
lists, in the order of the walk, each expression once (`searches_visit`); so a search from the start
gives the walk without its repetitions (`collect_eq_eraseDups`).  What the walk lists is said for
each kind of node in `occurrences` (`collect_eq_firstOccurrences`).

An expression counts as visited *before* its operands are searched, so a visited expression need not
have been searched.  This is the crux: that the search stops there must lose nothing.  Whoever comes
to such an expression comes from inside it, and is smaller.  So of what a visit may meet, all that
is visited has been searched (`Progress.Searched`, which asks it for sizes below a bound).  The
bound goes down with the visit: for the operands of `e` it is the size of `e`, and the mark of `e`
itself plays no role there.

What is found grows by `addNew`, which adds the elements of a list one by one if they are new; the
searches of two lists one after the other put their additions together (`addNew_append`).
-/

namespace OperatorTemplate

namespace DependencySearch

/-! ## Walks -/

/-- A dependency stands for itself; of everything else the operands are gone through. -/
def walkStep (search : DependencySearch) (e : Expr) (walk : Expr.Descent (List Expr) e) : List Expr :=
  if search.reports e then [e]
  else e.children.attach.flatMap fun c => walk c.1 (Expr.size_lt_of_attached c)

/-- The dependencies of `e`, with repetitions, from left to right. -/
def walk (search : DependencySearch) (e : Expr) : List Expr := e.recurse search.walkStep

variable {search : DependencySearch} {e x : Expr}

/-- A walk through a dependency lists it alone. -/
theorem walk_of_reports (h : search.reports e = true) : search.walk e = [e] := by
  rw [walk, Expr.recurse_eq, walkStep, if_pos h]

/-- A walk through anything else is the walks through the children, one after the other. -/
theorem walk_of_not_reports (h : search.reports e = false) :
    search.walk e = e.children.flatMap search.walk := by
  rw [← flatMap_attach, walk, Expr.recurse_eq, walkStep, if_neg (by simp [h])]
  rfl

/-- The components of an expression are gone through one by one. -/
theorem walk_eq_flatMap_components (e : Expr) :
    search.walk e = e.components.flatMap search.walk := by
  cases e with
  | array es => exact walk_of_not_reports rfl
  | _ => exact (List.flatMap_singleton ..).symm

/-- A walk lists dependencies alone. -/
theorem reports_of_mem_walk (e : Expr) (h : x ∈ search.walk e) : search.reports x = true := by
  cases hr : search.reports e with
  | true =>
    rw [walk_of_reports hr] at h
    rw [List.mem_singleton.mp h, hr]
  | false =>
    rw [walk_of_not_reports hr] at h
    obtain ⟨c, hc, hx⟩ := List.mem_flatMap.mp h
    exact reports_of_mem_walk c hx
termination_by e.size
decreasing_by exact Expr.size_lt_of_mem_children hc

/-! ## New expressions -/

/-- A list with those of some more expressions that are new, in the order of their first
occurrence. -/
def addNew (found es : List Expr) : List Expr :=
  es.foldl (fun found e => if e ∈ found then found else found ++ [e]) found

/-- The first expression is added if it is new, and then the others. -/
theorem addNew_cons (found es : List Expr) :
    addNew found (e :: es) = addNew (if e ∈ found then found else found ++ [e]) es := rfl

/-- Two lists are added one after the other. -/
theorem addNew_append (found es es' : List Expr) :
    addNew found (es ++ es') = addNew (addNew found es) es' := List.foldl_append

/-- Added to `found`, those of `es` that are new come once each, in the order of their first
occurrence. -/
theorem addNew_eq (found es : List Expr) :
    addNew found es = found ++ (es.filter (· ∉ found)).eraseDups := by
  induction es generalizing found with
  | nil => rw [List.filter_nil, List.eraseDups_nil, List.append_nil, addNew, List.foldl_nil]
  | cons e es ih =>
    rw [addNew_cons, ih]
    -- `e` is old, and passed over; or it is new, and comes first, and is then not added again
    by_cases he : e ∈ found
    · rw [if_pos he, List.filter_cons_of_neg (by simpa using he)]
    · have others : es.filter (· ∉ found ++ [e])
          = (es.filter (· ∉ found)).filter fun x => !x == e := by
        rw [List.filter_filter]
        refine List.filter_congr fun x _ => ?_
        simp [and_comm, beq_eq_decide]
      rw [if_neg he, List.filter_cons_of_pos (by simpa using he), List.eraseDups_cons, others,
        List.append_assoc, List.singleton_append]

/-- What is there in the end was there before or has been added. -/
theorem mem_addNew {found es : List Expr} : x ∈ addNew found es ↔ x ∈ found ∨ x ∈ es := by
  rw [addNew_eq, List.mem_append, List.mem_eraseDups, List.mem_filter, decide_eq_true_iff]
  by_cases hx : x ∈ found
  · exact iff_of_true (.inl hx) (.inl hx)
  · exact or_congr_right (and_iff_left hx)

/-- If nothing is new, nothing is added. -/
theorem addNew_of_subset {found es : List Expr} (h : es ⊆ found) : addNew found es = found := by
  have none : es.filter (· ∉ found) = [] :=
    List.filter_eq_nil_iff.mpr fun x hx => by simpa using h hx
  rw [addNew_eq, none, List.eraseDups_nil, List.append_nil]

/-- Added to nothing, a list loses its repetitions. -/
theorem addNew_nil (es : List Expr) : addNew [] es = es.eraseDups := by
  rw [addNew_eq, List.nil_append, List.filter_eq_self.mpr (by simp)]

/-! ## Visits -/

/-- Visits of several expressions in order. -/
def visitAll (search : DependencySearch) (es : List Expr) (p : Progress) : Progress :=
  es.foldl (fun p e => search.visit e p) p

variable {p p' p'' : Progress} {bound : Nat}

/-- The progress with an expression marked as visited. -/
def Progress.mark (p : Progress) (e : Expr) : Progress := { p with visited := e :: p.visited }

/-- A visit passes over what is visited already. -/
theorem visit_of_mem (h : e ∈ p.visited) : search.visit e p = p := by
  rw [visit, Expr.recurse_eq, step, if_pos h]

/-- A visit to a dependency finds it. -/
theorem visit_of_reports (h : e ∉ p.visited) (hr : search.reports e = true) :
    search.visit e p = ⟨e :: p.visited, p.found ++ [e]⟩ := by
  rw [visit, Expr.recurse_eq, step, if_neg h, if_pos hr]

/-- A visit to anything else marks it, and visits the children. -/
theorem visit_of_not_reports (h : e ∉ p.visited) (hr : search.reports e = false) :
    search.visit e p = search.visitAll e.children (p.mark e) := by
  rw [visit, Expr.recurse_eq, step, if_neg h, if_neg (by simp [hr])]
  exact List.foldl_attach (f := fun p c => search.visit c p)

/-- What is visited and smaller than `bound` has been searched; what is found is visited. -/
structure Progress.Searched (search : DependencySearch) (bound : Nat) (p : Progress) : Prop where
  walked : ∀ v ∈ p.visited, v.size < bound → search.walk v ⊆ p.found
  visited : p.found ⊆ p.visited

/-- What searching the expressions `es` does to the progress `p`: it adds what their walks list and
is new, and all that is visited besides has been searched in the end. -/
structure Searches (search : DependencySearch) (es : List Expr) (p p' : Progress) : Prop where
  found : p'.found = addNew p.found (es.flatMap search.walk)
  walked : ∀ v ∈ p'.visited, v ∈ p.visited ∨ search.walk v ⊆ p'.found
  visited : p'.found ⊆ p'.visited

/-- A search keeps the invariant, with the same bound. -/
theorem Searches.searched {es : List Expr} (h : Searches search es p p')
    (hp : p.Searched search bound) : p'.Searched search bound := by
  refine ⟨fun v hv hlt x hx => ?_, h.visited⟩
  rcases h.walked v hv with hv | hv
  · rw [h.found]
    exact mem_addNew.mpr (.inl (hp.walked v hv hlt hx))
  · exact hv hx

/-- If each of `es` is searched by a visit, then all of them are by visits one after the other. -/
theorem searches_visitAll : {es : List Expr} → {p : Progress} →
    (∀ e ∈ es, ∀ p : Progress, p.Searched search bound → Searches search [e] p (search.visit e p)) →
    p.Searched search bound → Searches search es p (search.visitAll es p)
  | [], _, _, hp => ⟨rfl, fun _ hv => .inl hv, hp.visited⟩
  | e :: es, p, each, hp => by
    have first := each e List.mem_cons_self p hp
    have rest := searches_visitAll (fun x hx => each x (List.mem_cons_of_mem e hx))
      (first.searched hp)
    have found : (search.visitAll (e :: es) p).found
        = addNew p.found ((e :: es).flatMap search.walk) := by
      rw [← List.singleton_append, List.flatMap_append, addNew_append, ← first.found]
      exact rest.found
    refine ⟨found, fun v hv => ?_, rest.visited⟩
    rcases rest.walked v hv with hv | hv
    · rcases first.walked v hv with hv | hv
      · exact .inl hv
      · refine .inr fun x hx => ?_
        show x ∈ (search.visitAll es (search.visit e p)).found
        rw [rest.found]
        exact mem_addNew.mpr (.inl (hv hx))
    · exact .inr hv

/-- A visit to `e` adds what the walk through `e` lists, if what is visited and smaller than `bound`
has been searched, and `e` is smaller than `bound`.  By induction on the size of `e`. -/
theorem searches_visit (e : Expr) {bound : Nat} {p : Progress} (he : e.size < bound)
    (hp : p.Searched search bound) : Searches search [e] p (search.visit e p) := by
  have alone : [e].flatMap search.walk = search.walk e := List.flatMap_singleton ..
  by_cases hv : e ∈ p.visited
  · -- `e` is visited, and smaller than `bound`, so its dependencies are found already
    rw [visit_of_mem hv]
    refine ⟨?_, fun _ h => .inl h, hp.visited⟩
    rw [alone, addNew_of_subset (hp.walked e hv he)]
  cases hr : search.reports e with
  | true =>
    -- what is found is visited, so a dependency that is not visited is new
    have hnew : e ∉ p.found := fun h => hv (hp.visited h)
    rw [visit_of_reports hv hr]
    refine ⟨?_, fun v h => ?_, fun x h => ?_⟩
    · rw [alone, walk_of_reports hr, addNew_cons, if_neg hnew]
      rfl
    · rcases List.mem_cons.mp h with rfl | h
      · rw [walk_of_reports hr]
        exact .inr (List.subset_append_right p.found [v])
      · exact .inl h
    · rcases List.mem_append.mp h with h | h
      · exact List.mem_cons_of_mem e (hp.visited h)
      · exact List.mem_cons.mpr (.inl (List.mem_singleton.mp h))
  | false =>
    -- below `e`, the mark of `e` itself plays no role
    have marked : (p.mark e).Searched search e.size := by
      refine ⟨fun v h hlt => ?_, fun x h => List.mem_cons_of_mem e (hp.visited h)⟩
      rcases List.mem_cons.mp h with rfl | h
      · exact absurd hlt (Nat.lt_irrefl _)
      · exact hp.walked v h (Nat.lt_trans hlt he)
    have below := searches_visitAll
      (fun c hc p hp => searches_visit c (Expr.size_lt_of_mem_children hc) hp) marked
    have found : (search.visitAll e.children (p.mark e)).found = addNew p.found (search.walk e) := by
      rw [walk_of_not_reports hr]
      exact below.found
    rw [visit_of_not_reports hv hr]
    refine ⟨by rw [alone, found], fun v h => ?_, below.visited⟩
    rcases below.walked v h with h | h
    · rcases List.mem_cons.mp h with rfl | h
      · refine .inr fun x hx => ?_
        rw [found]
        exact mem_addNew.mpr (.inr hx)
      · exact .inl h
    · exact .inr h
termination_by e.size
decreasing_by exact Expr.size_lt_of_mem_children hc

/-- A search from the start lists what the walk does, without the repetitions. -/
theorem collect_eq_eraseDups : search.collect e = (search.walk e).eraseDups := by
  have start : Progress.Searched search (e.size + 1) {} :=
    ⟨fun _ h => (by nomatch h), fun _ h => (by nomatch h)⟩
  have found := (searches_visit e (Nat.lt_succ_self _) start).found
  rw [List.flatMap_singleton] at found
  rw [collect, found, addNew_nil]

/-- A search from the start finds what the walk lists. -/
theorem mem_collect_iff : x ∈ search.collect e ↔ x ∈ search.walk e := by
  rw [collect_eq_eraseDups, List.mem_eraseDups]

/-! ## Occurrences -/

mutual
/-- The dependencies of `e`, one for each occurrence, from left to right: the same as the walk, but
said for each kind of node. -/
def occurrences (search : DependencySearch) : Expr → List Expr
  | .atom (.variable name) => [.atom (.variable name)]
  | .atom _ => []
  | .subscript aggregate index => [.subscript aggregate index]
  | .call f arguments =>
    if search.includeCalls then [.call f arguments] else occurrencesAll search arguments
  | .apply op field => if search.includeApplications then [.apply op field] else occurrences search field
  | .exchange index rank arguments =>
    if search.includeApplications then [.exchange index rank arguments]
    else occurrencesAll search arguments
  | .sum es | .product es | .array es => occurrencesAll search es
  | .quotient a b | .power a b | .comparison a _ b | .pair a b _ =>
    occurrences search a ++ occurrences search b
  | .conditional c a b | .ifPositive c a b =>
    occurrences search c ++ occurrences search a ++ occurrences search b
  | .shared body _ => occurrences search body
  | .domainFlux interiors boundaries =>
    occurrencesAll search interiors ++ occurrencesAll search boundaries

/-- The occurrences of dependencies in several expressions, one after the other. -/
def occurrencesAll (search : DependencySearch) : List Expr → List Expr
  | [] => []
  | e :: es => occurrences search e ++ occurrencesAll search es
end

mutual
/-- The walk lists the occurrences of dependencies, whatever the kind of the node. -/
theorem walk_eq_occurrences : (e : Expr) → search.walk e = search.occurrences e
  | .atom (.variable _) | .subscript _ _ => walk_of_reports rfl
  | .atom (.constant _) | .atom (.parameter _) | .atom (.normal _ _ _) | .atom (.kernelNormal _)
  | .atom (.coordinate _ _) | .atom (.ones _) | .atom (.jacobian _) | .atom (.forwardMetric _ _)
  | .atom (.inverseMetric _ _) => walk_of_not_reports rfl
  | .call f es => by
    rw [occurrences]
    split
    next h => exact walk_of_reports h
    next h =>
      have passed : search.reports (.call f es) = false := Bool.eq_false_iff.mpr h
      exact (walk_of_not_reports passed).trans (flatMap_walk es)
  | .apply op e => by
    rw [occurrences]
    split
    next h => exact walk_of_reports h
    next h =>
      have passed : search.reports (.apply op e) = false := Bool.eq_false_iff.mpr h
      rw [walk_of_not_reports passed, ← walk_eq_occurrences e]
      exact List.flatMap_singleton ..
  | .exchange index rank es => by
    rw [occurrences]
    split
    next h => exact walk_of_reports h
    next h =>
      have passed : search.reports (.exchange index rank es) = false := Bool.eq_false_iff.mpr h
      exact (walk_of_not_reports passed).trans (flatMap_walk es)
  | .sum es | .product es | .array es => (walk_of_not_reports rfl).trans (flatMap_walk es)
  | .quotient a b | .power a b | .comparison a _ b | .pair a b _ => by
    rw [walk_of_not_reports rfl, occurrences, ← walk_eq_occurrences a, ← walk_eq_occurrences b]
    simp [Expr.children]
  | .conditional c a b | .ifPositive c a b => by
    rw [walk_of_not_reports rfl, occurrences, ← walk_eq_occurrences c, ← walk_eq_occurrences a,
      ← walk_eq_occurrences b]
    simp [Expr.children]
  | .shared body _ => by
    rw [walk_of_not_reports rfl, occurrences, ← walk_eq_occurrences body]
    exact List.flatMap_singleton ..
  | .domainFlux interiors boundaries => by
    rw [walk_of_not_reports rfl, occurrences, ← flatMap_walk interiors, ← flatMap_walk boundaries]
    exact List.flatMap_append

/-- The same for several expressions, one after the other. -/
theorem flatMap_walk : (es : List Expr) → es.flatMap search.walk = search.occurrencesAll es
  | [] => rfl
  | e :: es => by
    rw [List.flatMap_cons, occurrencesAll, walk_eq_occurrences e, flatMap_walk es]
end

/-- Whatever counts as a dependency, a search that never goes through an expression twice finds the
occurrences of dependencies, of each the first alone. -/
theorem collect_eq_firstOccurrences (search : DependencySearch) (e : Expr) :
    search.collect e = (search.occurrences e).eraseDups := by
  rw [collect_eq_eraseDups, walk_eq_occurrences]

end DependencySearch

end OperatorTemplate
