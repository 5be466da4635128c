import Mathlib.Data.List.Forall2
/-!
# Lists

Facts about lists that know nothing of expressions, kernels or types.

* *Partners.*  Two lists related by `List.Forall₂ R` are as long as each other, and what stands at one
  position on the left is the partner of what stands there on the right.  So a fact about all partners
  can be used of a single element (`exists_right_of_forall₂`, `exists_left_of_forall₂`), and two lists
  with the same partners are partners of each other (`forall₂_of_common`).
* *Repetitions.*  `List.eraseDups` keeps the first occurrence of every element.  What is left has no
  duplicates, and a filter may be applied before or after.
* *Neighbours.*  `List.IsChain R` relates every element to the next one.
-/

namespace OperatorTemplate

universe u v

variable {α : Type u} {β : Type v}

/-! ## Partners -/

/-- Every element `a` on the left has a partner on the right. -/
theorem exists_right_of_forall₂ {R : α → β → Prop} {as : List α} {bs : List β}
    (h : List.Forall₂ R as bs) {a : α} (ha : a ∈ as) : ∃ b ∈ bs, R a b := by
  induction h with
  | nil => nomatch ha
  | cons hr _ ih =>
    rcases List.mem_cons.mp ha with rfl | ha
    · exact ⟨_, List.mem_cons_self, hr⟩
    · obtain ⟨b, hb, hr⟩ := ih ha
      exact ⟨b, List.mem_cons_of_mem _ hb, hr⟩

/-- Every element `b` on the right has a partner on the left. -/
theorem exists_left_of_forall₂ {R : α → β → Prop} {as : List α} {bs : List β}
    (h : List.Forall₂ R as bs) {b : β} (hb : b ∈ bs) : ∃ a ∈ as, R a b :=
  exists_right_of_forall₂ (R := fun b a => R a b) h.flip hb

/-- At any position `index` both lists have partners, or both have ended. -/
theorem getElem?_of_forall₂ {R : α → β → Prop} {as : List α} {bs : List β}
    (h : List.Forall₂ R as bs) (index : Nat) :
    (as[index]? = none ∧ bs[index]? = none)
      ∨ ∃ a b, as[index]? = some a ∧ bs[index]? = some b ∧ R a b := by
  induction h generalizing index with
  | nil => exact .inl ⟨rfl, rfl⟩
  | cons hr _ ih =>
    cases index with
    | zero => exact .inr ⟨_, _, rfl, rfl, hr⟩
    | succ index => exact ih index

/-- If `g b = f a` for all partners `a` and `b`, then `g` makes the same list of `bs` that `f` makes of
`as`. -/
theorem map_eq_of_forall₂ {γ : Type*} {R : α → β → Prop} {f : α → γ} {g : β → γ} {as : List α}
    {bs : List β} (h : List.Forall₂ R as bs) (same : ∀ a ∈ as, ∀ b ∈ bs, R a b → g b = f a) :
    bs.map g = as.map f := by
  induction h with
  | nil => rfl
  | cons hr _ ih =>
    rw [List.map_cons, List.map_cons, same _ List.mem_cons_self _ List.mem_cons_self hr,
      ih fun a ha b hb => same a (List.mem_cons_of_mem _ ha) b (List.mem_cons_of_mem _ hb)]

/-- If `as` and `bs` have the same partners `cs`, they are partners of each other, through the element
of `cs` at the same position. -/
theorem forall₂_of_common {γ : Type*} {R : α → γ → Prop} {S : β → γ → Prop} {as : List α}
    {bs : List β} {cs : List γ} (h : List.Forall₂ R as cs) (h' : List.Forall₂ S bs cs) :
    List.Forall₂ (fun a b => a ∈ as ∧ b ∈ bs ∧ ∃ c ∈ cs, R a c ∧ S b c) as bs := by
  induction h generalizing bs with
  | nil =>
    cases h'
    exact .nil
  | cons hr _ ih =>
    cases h' with
    | cons hs h' =>
      refine .cons ⟨List.mem_cons_self, List.mem_cons_self, _, List.mem_cons_self, hr, hs⟩
        ((ih h').imp ?_)
      rintro a b ⟨ha, hb, c, hc, hrs⟩
      exact ⟨.tail _ ha, .tail _ hb, c, .tail _ hc, hrs⟩

/-! ## Prefixes and members -/

/-- What stands at a position stays there when the list grows at its end. -/
theorem getElem?_of_prefix {xs ys : List α} (h : xs <+: ys) {index : Nat} {x : α}
    (hx : xs[index]? = some x) : ys[index]? = some x := by
  obtain ⟨hlt, hx⟩ := List.getElem?_eq_some_iff.mp hx
  rw [← hx]
  exact List.prefix_iff_getElem?.mp h index hlt

/-- Whoever goes through a list may forget that what he meets is listed. -/
theorem flatMap_attach (xs : List α) (f : α → List β) :
    (xs.attach.flatMap fun x => f x.1) = xs.flatMap f := by
  rw [List.flatMap_subtype (fun _ _ => rfl), List.unattach_attach]

/-! ## Repetitions -/

section Repetitions

variable [BEq α] [LawfulBEq α]

omit [LawfulBEq α] in
/-- Without the first element and its repetitions a list is shorter. -/
theorem length_filter_ne_lt (x : α) (xs : List α) :
    (xs.filter fun y => !y == x).length < (x :: xs).length :=
  Nat.lt_succ_of_le (List.length_filter_le ..)

/-- Erasing repetitions before a filter leaves what erasing them after it does.  The induction is on
the length of the list, as in `List.eraseDups`: after the first element the rest is searched without
that element. -/
theorem filter_eraseDups (p : α → Bool) (xs : List α) :
    xs.eraseDups.filter p = (xs.filter p).eraseDups := by
  cases xs with
  | nil => rfl
  | cons x xs =>
    have shorter := length_filter_ne_lt x xs
    have ih := filter_eraseDups p (xs.filter fun y => !y == x)
    rw [List.eraseDups_cons]
    by_cases hx : p x = true
    · -- the first element stays, and the two filters of the rest change places
      have swapped : (xs.filter fun y => !y == x).filter p
          = (xs.filter p).filter fun y => !y == x := by
        rw [List.filter_filter, List.filter_filter]
        exact List.filter_congr fun y _ => Bool.and_comm ..
      rw [List.filter_cons_of_pos hx, List.filter_cons_of_pos hx, List.eraseDups_cons, ih, swapped]
    · -- the first element goes, and `p` would have taken its repetitions as well
      have absent : (xs.filter fun y => !y == x).filter p = xs.filter p := by
        rw [List.filter_filter]
        refine List.filter_congr fun y _ => ?_
        by_cases hy : y = x
        · rw [hy, Bool.eq_false_iff.mpr hx, Bool.false_and]
        · simp [hy]
      rw [List.filter_cons_of_neg hx, List.filter_cons_of_neg hx, ih, absent]
termination_by xs.length
decreasing_by exact shorter

/-- `xs.eraseDups` has no duplicates. -/
theorem nodup_eraseDups (xs : List α) : xs.eraseDups.Nodup := by
  cases xs with
  | nil => exact List.nodup_nil
  | cons x xs =>
    have shorter := length_filter_ne_lt x xs
    rw [List.eraseDups_cons, List.nodup_cons, List.mem_eraseDups]
    exact ⟨by simp, nodup_eraseDups (xs.filter fun y => !y == x)⟩
termination_by xs.length
decreasing_by exact shorter

end Repetitions

/-! ## Neighbours -/

/-- Two relations between neighbours are one. -/
theorem isChain_and {R S : α → α → Prop} {xs : List α} (hR : xs.IsChain R) (hS : xs.IsChain S) :
    xs.IsChain fun a b => R a b ∧ S a b := by
  induction hR with
  | nil => exact .nil
  | singleton a => exact .singleton a
  | cons_cons hr _ ih =>
    cases hS with
    | cons_cons hs hS => exact .cons_cons ⟨hr, hs⟩ (ih hS)

/-- If `f` agrees on neighbours, it agrees on all elements: each agrees with the first. -/
theorem forall_eq_of_isChain {f : α → β} {xs : List α} (h : xs.IsChain fun x y => f x = f y) :
    ∀ x ∈ xs, ∀ y ∈ xs, f x = f y := by
  have : Trans (fun x y => f x = f y) (fun x y => f x = f y) fun x y => f x = f y := ⟨Eq.trans⟩
  cases xs with
  | nil => nofun
  | cons a xs =>
    have head : ∀ x ∈ a :: xs, f x = f a := by
      intro x hx
      rcases List.mem_cons.mp hx with rfl | hx
      · rfl
      · exact (List.rel_of_pairwise_cons h.pairwise hx).symm
    exact fun x hx y hy => (head x hx).trans (head y hy).symm

end OperatorTemplate
