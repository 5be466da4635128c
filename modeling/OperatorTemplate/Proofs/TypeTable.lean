import Mathlib.Algebra.Order.BigOperators.Group.List
import Mathlib.Algebra.Order.Group.Nat
import Mathlib.Algebra.Ring.Nat
import OperatorTemplate.Proofs.FieldType.Order
import OperatorTemplate.Proofs.Table
import OperatorTemplate.TypeTable
/-!
# Writing types down

`set e t` makes the entry of `e` the join of what it was and `t`, and leaves all other entries alone
(`set_spec`, `Written`).  It fails exactly where the two have no common bound, so it succeeds below
every table that says `t` of `e` (`exists_set_of_le`).  What is known already changes nothing
(`set_of_le`).

A table *grows* by writes (`Grows`): no entry loses information, and the counter `writes` tells
whether any has gained some.  The relation is reflexive and transitive, so it holds from the start
of a run to its end.

An entry gains information at most twice, for its `rank` is at most two.  So among the expressions
`ps` that are written there is `room ps` for finitely many writes, and each counted write takes some
of it: `writes + room ps` never increases (`Written.writes_add_room_le`).  This is the measure
behind the bounds on passes and writes.
-/

namespace OperatorTemplate.TypeTable

variable {table table' table'' : TypeTable} {e x : Expr} {t : FieldType}

/-! ## Entries -/

/-- One table says all that another says. -/
instance : Preorder TypeTable where
  le T D := ∀ e, T.get e ≤ D.get e
  le_refl _ _ := le_refl _
  le_trans _ _ _ h h' e := (h e).trans (h' e)

/-- What is known of an expression depends on the entries alone, not on the flag or the counter. -/
theorem get_congr (h : table'.types = table.types) (e : Expr) : table'.get e = table.get e := by
  rw [get, get, lookup?, lookup?, h]

theorem get_of_lookup? (h : table.lookup? e = some t) : table.get e = t := by
  rw [get, h]
  rfl

/-- Where something is known, there is an entry, and the entry says it.  The converse fails for
`unknown`, which may be entered or not. -/
theorem lookup?_of_get (h : table.get e ≠ .unknown) : table.lookup? e = some (table.get e) := by
  rw [get] at h ⊢
  cases hl : table.lookup? e with
  | none => exact absurd (by rw [hl]; rfl) h
  | some t => rfl

theorem get_record_self : (table.record e t).get e = t := by
  rw [get, lookup?, record, Table.get?_insert_self, Option.getD_some]

/-- Recording a type for `e` leaves the entry of every other expression `x` as it is. -/
theorem lookup?_record_of_ne (h : x ≠ e) : (table.record e t).lookup? x = table.lookup? x :=
  Table.get?_insert_of_ne _ h t

/-- Recording a type for `e` leaves what is known of every other expression `x` as it is. -/
theorem get_record_of_ne (h : x ≠ e) : (table.record e t).get x = table.get x := by
  rw [get, get, lookup?_record_of_ne h]

/-- Types for two expressions are recorded in either order, if there is an entry for one of them. -/
theorem record_comm {t' : FieldType} (hne : x ≠ e) (h : table.lookup? x = some t) (u : FieldType) :
    (table.record e t').record x u = (table.record x u).record e t' := by
  have present : table.types.get? x ≠ none := by
    rw [← lookup?, h]
    exact Option.some_ne_none t
  rw [record, record, record, record, Table.insert_comm u t' hne present]

/-! ## Writes -/

/-- A write of `t` for `e` unifies `t` with what is known of `e`, and records the join `new` only if
it differs from what is known.  The three ways that `set` takes, `unknown` written, no entry, and an
entry, are cases of this one. -/
theorem set_eq : table.set e t = (do
    let new ← (table.get e).unify t (some e)
    return if new = table.get e then table else table.record e new) := by
  unfold set
  by_cases ht : t = .unknown
  · -- nothing is written, and the join with nothing is what was known
    subst ht
    rw [if_pos rfl, FieldType.unify_eq_ok_iff.mpr
      (FieldType.joins_of_le (FieldType.unknown_le (table.get e))).symm]
    show _ = Except.ok _
    rw [if_pos rfl]
  · rw [if_neg ht]
    cases hl : table.lookup? e with
    | none =>
      -- no entry: the join of nothing with `t` is `t`, which is new
      have hg : table.get e = .unknown := by rw [get, hl, Option.getD_none]
      rw [hg, FieldType.unify_eq_ok_iff.mpr (FieldType.joins_of_le (FieldType.unknown_le t))]
      show _ = Except.ok _
      rw [if_neg ht]
    | some old =>
      have hg : table.get e = old := by rw [get, hl, Option.getD_some]
      rw [hg]

/-- What a successful write of `t` for `e` does. -/
structure Written (e : Expr) (t : FieldType) (table table' : TypeTable) : Prop where
  joins : FieldType.Joins (table.get e) t (table'.get e)
  others : ∀ x, x ≠ e → table'.lookup? x = table.lookup? x
  eq_or_record : table' = table
    ∨ table.get e < table'.get e ∧ table' = table.record e (table'.get e)

/-- A successful write of `t` for `e` is `Written`: the entry of `e` is the join of the old entry
and `t`, the others are untouched, and the table is the same or has one more write that adds
information. -/
theorem set_spec (h : table.set e t = .ok table') : Written e t table table' := by
  rw [set_eq] at h
  cases hu : (table.get e).unify t (some e) with
  | error cause =>
    rw [hu] at h
    nomatch h
  | ok new =>
    have joins := FieldType.joins_of_unify hu
    rw [hu] at h
    have h := Except.ok.inj h
    by_cases hn : new = table.get e
    · -- the join adds nothing: the table is handed back as it was
      rw [if_pos hn] at h
      subst h
      rw [hn] at joins
      exact ⟨joins, fun _ _ => rfl, .inl rfl⟩
    · -- the join is recorded, and is strictly above the old entry
      rw [if_neg hn] at h
      subst h
      refine ⟨?_, fun x hx => lookup?_record_of_ne hx, .inr ⟨?_, ?_⟩⟩
      · rw [get_record_self]
        exact joins
      · rw [get_record_self]
        exact lt_of_le_of_ne joins.left (Ne.symm hn)
      · rw [get_record_self]

/-- A write for `e` leaves what is known of every other expression as it is. -/
theorem Written.get_of_ne (h : Written e t table table') (hx : x ≠ e) :
    table'.get x = table.get x := by
  rw [get, get, h.others x hx]

/-- A write loses no information: the entry of `e` is above the old one, and the others are equal.
-/
theorem Written.le (h : Written e t table table') : table ≤ table' := by
  intro x
  by_cases hx : x = e
  · subst hx
    exact h.joins.left
  · exact le_of_eq (h.get_of_ne hx).symm

/-- A write keeps a table below every table `D` that says what is written: the entry of `e` is a
least bound of the old entry and `t`, and `D` bounds both. -/
theorem Written.le_of_le {D : TypeTable} (h : Written e t table table') (hD : table ≤ D)
    (ht : t ≤ D.get e) : table' ≤ D := by
  intro x
  by_cases hx : x = e
  · subst hx
    exact h.joins.least _ (hD x) ht
  · rw [h.get_of_ne hx]
    exact hD x

/-- Below a table `D` that says at least `t` of `e`, a write of `t` for `e` succeeds: `D` gives the
common bound of the old entry and `t`. -/
theorem exists_set_of_le {D : TypeTable} (hD : table ≤ D) (ht : t ≤ D.get e) :
    ∃ table', table.set e t = .ok table' := by
  obtain ⟨new, hn⟩ := FieldType.exists_unify_of_le (hD e) ht (some e)
  rw [set_eq, hn]
  exact ⟨_, rfl⟩

/-- Writing what is known, `t ≤ table.get e`, gives back the same table. -/
theorem set_of_le (h : t ≤ table.get e) : table.set e t = .ok table := by
  rw [set_eq, FieldType.unify_eq_ok_iff.mpr (FieldType.joins_of_le h).symm]
  show Except.ok _ = _
  rw [if_pos rfl]

/-- A write never fails with `unsettled`: that error is for loops that are cut off. -/
theorem set_ne_unsettled : table.set e t ≠ .error .unsettled := by
  rw [set_eq]
  cases hu : (table.get e).unify t (some e) with
  | error cause =>
    intro h
    cases h
    exact FieldType.unify_ne_unsettled hu
  | ok new => nofun

/-! ## Growth -/

/-- What writes do to a table. -/
structure Grows (table table' : TypeTable) : Prop where
  le : table ≤ table'
  writes : table.writes ≤ table'.writes
  /-- Without a write nothing has changed. -/
  types_eq : table'.writes = table.writes → table'.types = table.types
  /-- A write adds information. -/
  strict : table'.writes = table.writes ∨ ∃ e, table.get e < table'.get e
  /-- An entry without information stays as it was entered. -/
  blank : ∀ e, table'.get e = .unknown → table'.lookup? e = table.lookup? e

theorem Grows.refl (table : TypeTable) : Grows table table :=
  ⟨le_refl table, Nat.le_refl _, fun _ => rfl, .inl rfl, fun _ _ => rfl⟩

/-- Growth is transitive.  If nothing was counted from the first table to the last, nothing was
counted in either part, and the entries are unchanged in both. -/
theorem Grows.trans (h : Grows table table') (h' : Grows table' table'') :
    Grows table table'' where
  le := le_trans h.le h'.le
  writes := Nat.le_trans h.writes h'.writes
  types_eq hw := by
    have := h.writes
    have := h'.writes
    rw [h'.types_eq (by omega), h.types_eq (by omega)]
  strict := by
    -- the gain of information of either part is one of the whole
    rcases h.strict with hw | ⟨e, he⟩
    · rcases h'.strict with hw' | ⟨e, he⟩
      · exact .inl (hw'.trans hw)
      · exact .inr ⟨e, lt_of_le_of_lt (h.le e) he⟩
    · exact .inr ⟨e, lt_of_lt_of_le he (h'.le e)⟩
  blank e he := by
    have hmid : table'.get e = .unknown := FieldType.eq_unknown_of_le (he ▸ h'.le e)
    rw [h'.blank e he, h.blank e hmid]

/-- An entry that says the same as before is the same entry. -/
theorem Grows.lookup?_eq (h : Grows table table') (he : table'.get e = table.get e) :
    table'.lookup? e = table.lookup? e := by
  by_cases hu : table'.get e = .unknown
  · exact h.blank e hu
  · rw [lookup?_of_get hu, lookup?_of_get (he ▸ hu), he]

/-- A table with the same entries and the same number of writes has grown: neither the flag nor the
counter of passes matters to entries. -/
theorem grows_of_types_eq (ht : table'.types = table.types) (hw : table'.writes = table.writes) :
    Grows table table' where
  le e := le_of_eq (get_congr ht e).symm
  writes := Nat.le_of_eq hw.symm
  types_eq _ := ht
  strict := .inl hw
  blank e _ := by rw [lookup?, lookup?, ht]

/-- A write makes a table grow, with one more counted if it added information. -/
theorem Written.grows (h : Written e t table table') : Grows table table' := by
  rcases h.eq_or_record with rfl | ⟨hlt, hr⟩
  · exact .refl _
  · have hw : table'.writes = table.writes + 1 := by rw [hr, record]
    refine ⟨h.le, by omega, fun h' => by omega, .inr ⟨e, hlt⟩, fun x hx => ?_⟩
    refine h.others x fun hxe => ?_
    subst hxe
    rw [hx] at hlt
    exact absurd (FieldType.unknown_le _) (not_le_of_gt hlt)

/-- A write that is not counted, `table'.writes = table.writes`, gives back the same table. -/
theorem Written.eq_of_writes (h : Written e t table table') (hw : table'.writes = table.writes) :
    table' = table := by
  rcases h.eq_or_record with h | ⟨-, hr⟩
  · exact h
  · rw [hr] at hw
    exact absurd hw (Nat.succ_ne_self _)

/-- A write that leaves the flag `changed` cleared gives back the same table. -/
theorem Written.eq_of_changed (h : Written e t table table') (hc : table'.changed = false) :
    table' = table := by
  rcases h.eq_or_record with h | ⟨-, hr⟩
  · exact h
  · rw [hr] at hc
    nomatch hc

/-- Where all entries agree, nothing was counted: the counter goes up only with information. -/
theorem Grows.writes_eq (h : Grows table table') (he : ∀ e, table'.get e = table.get e) :
    table'.writes = table.writes := by
  rcases h.strict with hw | ⟨e, hlt⟩
  · exact hw
  · rw [he e] at hlt
    exact absurd hlt (lt_irrefl _)

/-! ## Room for writes -/

/-- The number of writes that the expressions `ps` can still take: `2 - rank` for each of them, the
rank of an entry being the number of times it has gained information at most. -/
def room (ps : List Expr) (table : TypeTable) : Nat := (ps.map fun e => 2 - (table.get e).rank).sum

/-- There is room for at most two writes for each expression. -/
theorem room_le (ps : List Expr) (table : TypeTable) : table.room ps ≤ 2 * ps.length := by
  unfold room
  induction ps with
  | nil => exact Nat.le_refl _
  | cons e ps ih =>
    rw [List.map_cons, List.sum_cons, List.length_cons]
    omega

theorem room_congr (ps : List Expr) (h : table'.types = table.types) :
    table'.room ps = table.room ps := by
  unfold room
  congr 2
  funext e
  rw [get_congr h e]

/-- A write for an expression of `ps` does not increase the sum of counted writes and room left: if
it is counted, the entry has gained rank and the room is smaller by one at least. -/
theorem Written.writes_add_room_le {ps : List Expr} (h : Written e t table table') (he : e ∈ ps) :
    table'.writes + table'.room ps ≤ table.writes + table.room ps := by
  rcases h.eq_or_record with rfl | ⟨hlt, hr⟩
  · exact Nat.le_refl _
  · have hw : table'.writes = table.writes + 1 := by rw [hr, record]
    -- the summand of `e` goes down and no other goes up
    have less : table'.room ps < table.room ps := by
      refine List.sum_lt_sum _ _ (fun x _ => ?_) ⟨e, he, ?_⟩
      · have := FieldType.rank_mono (h.le x)
        omega
      · have := FieldType.rank_lt_of_lt hlt
        have := FieldType.rank_le_two (table'.get e)
        omega
    omega

end OperatorTemplate.TypeTable
