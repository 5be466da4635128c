import Mathlib.Data.List.Chain
import Mathlib.Order.Bounds.Basic
import OperatorTemplate.Proofs.Action
import OperatorTemplate.Proofs.FieldType.Order
/-!
# Unification is a partial join

Unification alone says which of two types says more: `a` is below `b` if unification with `a` adds
nothing to `b`, that is `a.unify b = .ok b` (`Below`).  This is the order of types (`below_iff_le`),
and over it unification is the join, defined where there is an upper bound: it succeeds with `c`
exactly if `c` is the least bound (`unify_eq_ok_iff`), and fails, with a conflict of the two types
as its error, exactly if there is no bound (`unify_eq_error_iff`).

The algebraic laws hold with their failures: neither the order of two types nor the grouping of
three decides whether they unify, or to what (`unify_comm`, `unify_assoc`).  For the grouping both
sides are characterised by the least upper bound of all three (`unify_unify_eq_ok_iff`).

A strictly increasing chain climbs one level of `rank` with each step, so it has at most three types
(`length_le_three_of_isChain`).  The main statement collects all of this for every boundary and
quadrature tag (`unify_isPartialJoin`).
-/

namespace OperatorTemplate.FieldType

variable {a b c t : FieldType} {e e' : Option Expr}

/-! ## Failure -/

/-- Two types unify exactly if something is above both. -/
theorem exists_unify_iff : (∃ c, a.unify b e = .ok c) ↔ ∃ d, a ≤ d ∧ b ≤ d := by
  constructor
  · rintro ⟨c, h⟩
    exact ⟨c, (joins_of_unify h).left, (joins_of_unify h).right⟩
  · rintro ⟨d, ha, hb⟩
    exact exists_unify_of_le ha hb e

/-- A failure is a conflict of the two types.  The other error, of two sides that absorb each other
and disagree, does not arise, for both answer the join. -/
theorem eq_conflict_of_unify {err : TypeError} (h : a.unify b e = .error err) :
    err = .conflict a b e := by
  unfold unify at h
  split at h
  · nomatch h
  · split at h
    next => exact (Except.error.inj h).symm
    next => nomatch h
    next => nomatch h
    next hl hr =>
      rw [if_pos ((joins_of_absorb? hl).unique (joins_of_absorb? hr).symm)] at h
      nomatch h

/-- Unification fails exactly if nothing is above both types, and then with a conflict of the two.
-/
theorem unify_eq_error_iff {err : TypeError} :
    a.unify b e = .error err ↔ err = .conflict a b e ∧ ¬∃ d, a ≤ d ∧ b ≤ d := by
  constructor
  · intro h
    refine ⟨eq_conflict_of_unify h, fun hd => ?_⟩
    obtain ⟨c, hc⟩ := exists_unify_iff.mpr hd
    nomatch hc.symm.trans h
  · rintro ⟨rfl, hd⟩
    cases h : a.unify b e with
    | ok c => exact absurd (exists_unify_iff.mp ⟨c, h⟩) hd
    | error err => rw [eq_conflict_of_unify h]

/-! ## Laws -/

theorem unify_self : a.unify a e = .ok a :=
  unify_eq_ok_iff.mpr (joins_of_le (le_refl a))

/-- Types unify to `t` in one order exactly if they do in the other. -/
theorem unify_comm : a.unify b e = .ok t ↔ b.unify a e' = .ok t := by
  rw [unify_eq_ok_iff, unify_eq_ok_iff]
  exact ⟨Joins.symm, Joins.symm⟩

/-- What `a` and `b` unify to unifies with `c` to `t` exactly if `t` is the least upper bound of all
three. -/
theorem unify_unify_eq_ok_iff :
    (a.unify b e >>= (·.unify c e')) = .ok t ↔ IsLUB {a, b, c} t := by
  constructor
  · intro h
    obtain ⟨ab, hab, ht⟩ := bind_eq_ok.mp h
    have hab := joins_of_unify hab
    have ht := joins_of_unify ht
    refine ⟨?_, fun d hd => ?_⟩
    · rintro x (rfl | rfl | rfl)
      · exact hab.left.trans ht.left
      · exact hab.right.trans ht.left
      · exact ht.right
    · have h₁ : ab ≤ d := hab.least d (hd (by simp)) (hd (by simp))
      exact ht.least d h₁ (hd (by simp))
  · intro h
    -- conversely, `t` bounds `a` and `b`, so these unify, to a type below `t`
    have ha : a ≤ t := h.1 (by simp)
    have hb : b ≤ t := h.1 (by simp)
    have hc : c ≤ t := h.1 (by simp)
    obtain ⟨ab, hab⟩ := exists_unify_of_le ha hb e
    have hle : ab ≤ t := (joins_of_unify hab).least t ha hb
    refine bind_eq_ok.mpr ⟨ab, hab, unify_eq_ok_iff.mpr ⟨hle, hc, fun d h₁ h₂ => h.2 ?_⟩⟩
    have h' := joins_of_unify hab
    rintro x (rfl | rfl | rfl)
    · exact h'.left.trans h₁
    · exact h'.right.trans h₁
    · exact h₂

/-- Three types unify to `t` in one grouping exactly if they do in the other.  If one grouping
fails, at either step, so does the other. -/
theorem unify_assoc {e₁ e₂ e₃ e₄ : Option Expr} :
    (b.unify c e₁ >>= (a.unify · e₂)) = .ok t ↔ (a.unify b e₃ >>= (·.unify c e₄)) = .ok t := by
  have hswap : (b.unify c e₁ >>= (a.unify · e₂)) = .ok t ↔
      (b.unify c e₁ >>= (·.unify a e₂)) = .ok t := by
    rw [bind_eq_ok, bind_eq_ok]
    exact exists_congr fun _ => and_congr_right fun _ => unify_comm
  rw [hswap, unify_unify_eq_ok_iff, unify_unify_eq_ok_iff, Set.pair_comm c a, Set.insert_comm b a]

/-! ## Height -/

/-- A strictly increasing chain `t :: l` climbs one level with each step, so `l` has at most as many
types as there are levels above `t`. -/
theorem rank_add_length_le_of_isChain {l : List FieldType} (h : (t :: l).IsChain (· < ·)) :
    t.rank + l.length ≤ 2 := by
  induction l generalizing t with
  | nil => exact rank_le_two t
  | cons u l ih =>
    obtain ⟨hlt, h⟩ := List.isChain_cons_cons.mp h
    have := rank_lt_of_lt hlt
    have := ih h
    simp only [List.length_cons]
    omega

/-- A strictly increasing chain has at most three types. -/
theorem length_le_three_of_isChain {l : List FieldType} (h : l.IsChain (· < ·)) :
    l.length ≤ 3 := by
  cases l with
  | nil => exact Nat.zero_le 3
  | cons t l =>
    have := rank_add_length_le_of_isChain h
    simp only [List.length_cons]
    omega

/-! ## The order that unification defines -/

/-- Unification with `a` adds nothing to `b`. -/
def Below (a b : FieldType) : Prop :=
  a.unify b none = .ok b

/-- The order that unification defines is the order of types. -/
theorem below_iff_le : Below a b ↔ a ≤ b :=
  le_iff_unify.symm

instance : IsPartialOrder FieldType Below where
  refl _ := below_iff_le.mpr (le_refl _)
  trans _ _ _ h h' := below_iff_le.mpr (le_trans (below_iff_le.mp h) (below_iff_le.mp h'))
  antisymm _ _ h h' := le_antisymm (below_iff_le.mp h) (below_iff_le.mp h')

/-- A chain without repetition in the order that unification defines is strictly increasing. -/
theorem isChain_lt {l : List FieldType} (h : l.IsChain fun a b => Below a b ∧ a ≠ b) :
    l.IsChain (· < ·) :=
  h.imp fun _ _ h => lt_of_le_of_ne (below_iff_le.mp h.1) h.2

/-- `c` is the least type above `a` and `b`, in the order that unification defines. -/
structure IsJoin (a b c : FieldType) : Prop where
  left : Below a c
  right : Below b c
  least : ∀ d, Below a d → Below b d → Below c d

theorem isJoin_iff_joins : IsJoin a b c ↔ Joins a b c := by
  constructor
  · rintro ⟨left, right, least⟩
    simp only [below_iff_le] at left right least
    exact ⟨left, right, least⟩
  · rintro ⟨left, right, least⟩
    simp only [← below_iff_le] at left right least
    exact ⟨left, right, least⟩

/-- **Unification is a partial join.**  `Below`, which unification defines, is a partial order with
least element `unknown` and chains of at most three types; unification succeeds with `c` exactly if
`c` is the join, and fails with a conflict exactly if nothing is above both; and the laws hold,
failures included: idempotence, commutativity, associativity. -/
theorem unify_isPartialJoin :
    -- a partial order with a least element, of height three
    (∀ (a b : FieldType) (e : Option Expr), Below a b ↔ a.unify b e = .ok b) ∧
    IsPartialOrder FieldType Below ∧
    (∀ a, Below .unknown a) ∧
    (∀ l : List FieldType, l.IsChain (fun a b => Below a b ∧ a ≠ b) → l.length ≤ 3) ∧
    -- unification gives the join, and fails where there is none
    (∀ (a b c : FieldType) (e : Option Expr), a.unify b e = .ok c ↔ IsJoin a b c) ∧
    (∀ (a b : FieldType) (e : Option Expr) (err : TypeError), a.unify b e = .error err ↔
      err = .conflict a b e ∧ ¬∃ d, Below a d ∧ Below b d) ∧
    -- the laws of a join, failures included
    (∀ (a : FieldType) (e : Option Expr), a.unify a e = .ok a) ∧
    (∀ (a b t : FieldType) (e e' : Option Expr), a.unify b e = .ok t ↔ b.unify a e' = .ok t) ∧
    (∀ (a b c t : FieldType) (e₁ e₂ e₃ e₄ : Option Expr),
      (b.unify c e₁ >>= (a.unify · e₂)) = .ok t ↔ (a.unify b e₃ >>= (·.unify c e₄)) = .ok t) := by
  refine ⟨fun a b e => below_iff_le.trans le_iff_unify, inferInstance,
    fun a => below_iff_le.mpr (unknown_le a), fun l h => length_le_three_of_isChain (isChain_lt h),
    fun a b c e => unify_eq_ok_iff.trans isJoin_iff_joins.symm, fun a b e err => ?_,
    fun _ _ => unify_self, fun _ _ _ _ _ => unify_comm, fun _ _ _ _ _ _ _ _ => unify_assoc⟩
  simp only [below_iff_le]
  exact unify_eq_error_iff

end OperatorTemplate.FieldType
