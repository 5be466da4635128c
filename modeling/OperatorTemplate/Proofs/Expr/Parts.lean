import OperatorTemplate.Expr.Parts
import OperatorTemplate.Proofs.Expr.Fold
/-!
# The parts of an expression

`parts` lists what can be reached from some expressions by going down to operands (`mem_parts_iff`),
each of it once (`nodup_parts`).  It searches with a list in hand of what has been found, and stops
where it comes to something on the list.

This loses nothing because a list of parts is closed: with an expression it has its operands
(`Closed`), and so all of its parts.  `Added` says what a search from the list `ps` does, that it is
closed again included; it goes through operands one after the other, by induction on the size.
-/

namespace OperatorTemplate.Expr

/-- Pointwise operations on their operands. -/
inductive IsArithmetic : Expr → Prop
  | sum (terms : List Expr) : IsArithmetic (.sum terms)
  | product (factors : List Expr) : IsArithmetic (.product factors)
  | quotient (a b : Expr) : IsArithmetic (.quotient a b)
  | power (a b : Expr) : IsArithmetic (.power a b)
  | conditional (c a b : Expr) : IsArithmetic (.conditional c a b)
  | ifPositive (c a b : Expr) : IsArithmetic (.ifPositive c a b)
  | comparison (a : Expr) (relation : Relation) (b : Expr) : IsArithmetic (.comparison a relation b)
  | call (function : String) (arguments : List Expr) : IsArithmetic (.call function arguments)

/-- `PartOf x e`: `x` is `e` or a part of an operand of `e`. -/
inductive PartOf (x : Expr) : Expr → Prop
  | self : PartOf x x
  | operand {c e : Expr} (hc : c ∈ e.children) (h : PartOf x c) : PartOf x e

/-- A part of a part of `e` is a part of `e`. -/
theorem PartOf.trans {x y e : Expr} (hx : PartOf x y) (hy : PartOf y e) : PartOf x e := by
  induction hy with
  | self => exact hx
  | operand hc _ ih => exact .operand hc ih

/-- An operand is a part. -/
theorem PartOf.of_child {c e : Expr} (hc : c ∈ e.children) : PartOf c e := .operand hc .self

/-- No part is larger than the whole. -/
theorem PartOf.size_le {x e : Expr} (h : PartOf x e) : x.size ≤ e.size := by
  induction h with
  | self => exact Nat.le_refl _
  | operand hc _ ih =>
    have := size_lt_of_mem_children hc
    omega

/-- A component is a part. -/
theorem PartOf.of_mem_components {c e : Expr} (h : c ∈ e.components) : PartOf c e := by
  unfold components at h
  split at h
  · exact .of_child h
  · rw [List.mem_singleton] at h
    subst h
    exact .self

/-- With each expression, the list `ps` has its operands. -/
def Closed (ps : List Expr) : Prop := ∀ x ∈ ps, ∀ c ∈ x.children, c ∈ ps

/-- With each expression, a closed list has all of its parts. -/
theorem Closed.mem_of_partOf {ps : List Expr} (hc : Closed ps) {x e : Expr} (he : e ∈ ps)
    (h : PartOf x e) : x ∈ ps := by
  induction h with
  | self => exact he
  | operand hce _ ih => exact ih (hc _ he _ hce)

/-- The parts of the expressions `es`, put before the list `ps` of parts unless they are on it. -/
def addAllParts (es ps : List Expr) : List Expr := es.foldl (fun ps e => e.addParts ps) ps

/-- Of an expression on the list nothing is added. -/
theorem addParts_of_mem {e : Expr} {ps : List Expr} (h : e ∈ ps) : e.addParts ps = ps := by
  rw [addParts, recurse_eq, addPartsStep, if_pos h]

/-- Any other expression is added in front, after the parts of its operands. -/
theorem addParts_of_not_mem {e : Expr} {ps : List Expr} (h : e ∉ ps) :
    e.addParts ps = e :: addAllParts e.children ps := by
  rw [addParts, recurse_eq, addPartsStep, if_neg h]
  congr 1
  exact List.foldl_attach (f := fun ps c => addParts c ps)

/-- `Added ps qs P`: beside what `ps` lists, `qs` lists what satisfies `P`; it is closed, and lists
nothing twice if `ps` does not. -/
structure Added (ps qs : List Expr) (P : Expr → Prop) : Prop where
  mem_iff : ∀ x, x ∈ qs ↔ x ∈ ps ∨ P x
  closed : Closed qs
  nodup : ps.Nodup → qs.Nodup

/-- If the search from each of `es` adds its parts, then the search from one after the other adds
the parts of all. -/
theorem added_addAllParts : {es ps : List Expr} →
    (∀ e ∈ es, ∀ qs, Closed qs → Added qs (e.addParts qs) (PartOf · e)) → Closed ps →
    Added ps (addAllParts es ps) fun x => ∃ e ∈ es, PartOf x e
  | [], ps, _, hc => ⟨fun x => by simp [addAllParts], hc, id⟩
  | e :: es, ps, ih, hc => by
    have first := ih e List.mem_cons_self ps hc
    have rest := added_addAllParts (fun y hy => ih y (List.mem_cons_of_mem e hy)) first.closed
    refine ⟨fun x => ?_, rest.closed, fun h => rest.nodup (first.nodup h)⟩
    rw [show addAllParts (e :: es) ps = addAllParts es (e.addParts ps) from rfl, rest.mem_iff,
      first.mem_iff, or_assoc, List.exists_mem_cons_iff]

/-- A search from `e` with a closed list adds the parts of `e`.  By induction on the size of `e`. -/
theorem added_addParts (e : Expr) {ps : List Expr} (hc : Closed ps) :
    Added ps (e.addParts ps) (PartOf · e) := by
  by_cases he : e ∈ ps
  · -- on a closed list, the parts of `e` are listed with `e`
    rw [addParts_of_mem he]
    refine ⟨fun x => ⟨Or.inl, fun h => ?_⟩, hc, id⟩
    rcases h with h | h
    · exact h
    · exact hc.mem_of_partOf he h
  · -- else the parts of the operands are added, and then `e`, which is larger than all of those
    rw [addParts_of_not_mem he]
    have below := added_addAllParts (fun c (_ : c ∈ e.children) qs hq => added_addParts c hq) hc
    refine ⟨fun x => ?_, ?_, fun h => List.nodup_cons.mpr ⟨fun hm => ?_, below.nodup h⟩⟩
    · rw [List.mem_cons, below.mem_iff]
      constructor
      · rintro (rfl | h | ⟨c, hce, h⟩)
        · exact .inr .self
        · exact .inl h
        · exact .inr (.operand hce h)
      · rintro (h | h)
        · exact .inr (.inl h)
        · cases h with
          | self => exact .inl rfl
          | operand hce h => exact .inr (.inr ⟨_, hce, h⟩)
    · intro x hx c hcx
      rcases List.mem_cons.mp hx with rfl | hx
      · exact List.mem_cons_of_mem _ ((below.mem_iff c).mpr (.inr ⟨c, hcx, .self⟩))
      · exact List.mem_cons_of_mem _ (below.closed x hx c hcx)
    · rcases (below.mem_iff e).mp hm with h | ⟨c, hce, h⟩
      · exact he h
      · have := h.size_le
        have := size_lt_of_mem_children hce
        omega
termination_by e.size
decreasing_by exact size_lt_of_mem_children ‹_›

/-- The search with an empty list finds all parts. -/
theorem added_parts (es : List Expr) :
    Added [] (parts es) fun x => ∃ e ∈ es, PartOf x e :=
  added_addAllParts (fun e _ _ hq => added_addParts e hq) fun _ h => nomatch h

/-- The parts of some expressions are what can be reached from them. -/
theorem mem_parts_iff {x : Expr} {es : List Expr} : x ∈ parts es ↔ ∃ e ∈ es, PartOf x e := by
  rw [(added_parts es).mem_iff]
  exact or_iff_right List.not_mem_nil

/-- Each part is listed once. -/
theorem nodup_parts (es : List Expr) : (parts es).Nodup := (added_parts es).nodup List.nodup_nil

end OperatorTemplate.Expr
