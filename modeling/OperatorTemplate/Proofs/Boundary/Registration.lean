import Mathlib.Data.List.Induction
import OperatorTemplate.Proofs.Boundary.Position
import OperatorTemplate.Proofs.Boundary.Scoping
/-!
# Lists of inputs in a run

A translation changes its lists of inputs by registering and in no other way.  So all that is said
here of lists comes from one step, the registration of one expression `e` in `inputs`
(`growsFrom_register`), and is carried over a list of expressions by induction
(`growsFrom_registerAll`).

The search for a position can be left to an index that is kept beside the list (`InputList`).  The
two answer alike: `InputList.register` gives the position that `register` finds, and the index it
leaves is the one that is filled from the list from its first input on (`InputList.register_seeded`).
Such an index sends an expression that is listed to the first position that lists it, whatever is
repeated (`InputList.indexed_seeded`).  The index of a run is filled from the seeds and then kept
while the other inputs are registered one after the other (`TranslationState.indexed`).

Together, for expressions that are translated in turn, successes and failures alike: the volume inputs
start with the seeds, what comes after them is new, boundary inputs are listed once, nothing is ever
lost or moved, the index of the run answers each registration as the search does, and a kernel reads
each of its fields where the index has it (`Translate.inOrder_inTurn`).
-/

namespace OperatorTemplate

variable {seeds inputs : List Expr} {e : Expr}

/-! ## Registering -/

/-- Registers expressions one after the other. -/
def registerAll (es inputs : List Expr) : List Expr :=
  es.foldl (fun inputs e => (register e inputs).2) inputs

/-- The last of several registrations comes after the others. -/
theorem registerAll_append_singleton (es : List Expr) (e : Expr) (inputs : List Expr) :
    registerAll (es ++ [e]) inputs = (register e (registerAll es inputs)).2 := by
  rw [registerAll, List.foldl_append]
  rfl

/-- Expressions that are new and listed once join at the end, in order. -/
theorem registerAll_of_fresh {added : List Expr} (nodup : added.Nodup)
    (fresh : ∀ x ∈ added, x ∉ seeds) : registerAll added seeds = seeds ++ added := by
  induction added using List.reverseRecOn with
  | nil => exact (List.append_nil seeds).symm
  | append_singleton added e ih =>
    obtain ⟨nodup, -, apart⟩ := List.nodup_append.mp nodup
    have listed := ih nodup fun x hx => fresh x (List.mem_append_left [e] hx)
    have hnew : e ∉ seeds ++ added := by
      rw [List.mem_append, not_or]
      refine ⟨fresh e (List.mem_append_right added List.mem_cons_self), fun he => ?_⟩
      exact apart e he e List.mem_cons_self rfl
    rw [registerAll_append_singleton, listed, register, List.idxOf?_eq_none_iff.mpr hnew]
    exact List.append_assoc _ _ _

/-- A list that starts with the seeds, repeated or not, and goes on with expressions that are new. -/
def GrowsFrom (seeds inputs : List Expr) : Prop :=
  ∃ added, inputs = seeds ++ added ∧ added.Nodup ∧ ∀ x ∈ added, x ∉ seeds

/-- A list that has grown from `seeds` still has after a registration: `e` joins only if it is not
listed, neither among the seeds nor among what was added. -/
theorem growsFrom_register (h : GrowsFrom seeds inputs) (e : Expr) :
    GrowsFrom seeds (register e inputs).2 := by
  unfold register
  split
  · exact h
  next absent =>
    have hnew : e ∉ inputs := List.idxOf?_eq_none_iff.mp absent
    obtain ⟨added, rfl, nodup, fresh⟩ := h
    rw [List.mem_append, not_or] at hnew
    refine ⟨added ++ [e], List.append_assoc _ _ _, ?_, ?_⟩
    · have apart : ∀ x ∈ added, ∀ y ∈ [e], x ≠ y := by
        intro x hx y hy hxy
        obtain rfl := List.mem_singleton.mp hy
        exact hnew.2 (hxy ▸ hx)
      exact List.nodup_append.mpr ⟨nodup, List.pairwise_singleton _ e, apart⟩
    · intro x hx
      rcases List.mem_append.mp hx with hx | hx
      · exact fresh x hx
      · obtain rfl := List.mem_singleton.mp hx
        exact hnew.1

/-- Whatever is registered on top of the seeds, the list has grown from them. -/
theorem growsFrom_registerAll (es seeds : List Expr) : GrowsFrom seeds (registerAll es seeds) := by
  induction es using List.reverseRecOn with
  | nil => exact ⟨[], (List.append_nil seeds).symm, List.nodup_nil, nofun⟩
  | append_singleton es e ih =>
    rw [registerAll_append_singleton]
    exact growsFrom_register ih e

/-- What comes after the seeds has one position: `added[index]` stands at `seeds.length + index` and
nowhere else. -/
theorem getElem?_added {added : List Expr} (nodup : added.Nodup) (fresh : ∀ x ∈ added, x ∉ seeds)
    {index : Nat} (he : added[index]? = some e) (position : Nat) :
    (seeds ++ added)[position]? = some e ↔ position = seeds.length + index := by
  constructor
  · intro h
    -- before the seeds end it would be a seed, and after that `added` lists it once
    by_cases hlt : position < seeds.length
    · rw [List.getElem?_append_left hlt] at h
      exact absurd (List.mem_of_getElem? h) (fresh e (List.mem_of_getElem? he))
    · rw [List.getElem?_append_right (by omega)] at h
      have bound : position - seeds.length < added.length := (List.getElem?_eq_some_iff.mp h).1
      have := (List.getElem?_inj bound nodup).mp (h.trans he.symm)
      omega
  · rintro rfl
    rw [List.getElem?_append_right (by omega), Nat.add_sub_cancel_left]
    exact he

/-! ## Indexed lists -/

/-- A list of inputs with an index of their positions. -/
structure InputList where
  exprs : List Expr
  index : Table Expr Nat

namespace InputList

/-- Enters the position of an expression that has none. -/
def enter (index : Table Expr Nat) (entry : Expr × Nat) : Table Expr Nat :=
  match index.get? entry.1 with
  | some _ => index
  | none => index.insert entry.1 entry.2

/-- A list with the index that is filled from its first input on. -/
def seeded (inputs : List Expr) : InputList := ⟨inputs, inputs.zipIdx.foldl enter .empty⟩

/-- Registers an expression by means of the index. -/
def register (e : Expr) (inputs : InputList) : Nat × InputList :=
  match inputs.index.get? e with
  | some position => (position, inputs)
  | none =>
    (inputs.exprs.length, ⟨inputs.exprs ++ [e], inputs.index.insert e inputs.exprs.length⟩)

/-- Registers expressions one after the other. -/
def registerAll (es : List Expr) (inputs : InputList) : InputList :=
  es.foldl (fun inputs e => (register e inputs).2) inputs

/-- The index sends the expressions that are listed, and no others, to the first positions that list
them. -/
def Indexed (inputs : InputList) : Prop :=
  ∀ e position, inputs.index.get? e = some position
    ↔ inputs.exprs[position]? = some e ∧ ∀ earlier < position, inputs.exprs[earlier]? ≠ some e

/-- The index of a longer list is that of the shorter one with the last input entered. -/
theorem index_append_singleton (inputs : List Expr) (e : Expr) :
    (seeded (inputs ++ [e])).index = enter (seeded inputs).index (e, inputs.length) := by
  show (inputs ++ [e]).zipIdx.foldl enter .empty = _
  rw [List.zipIdx_append, List.foldl_append, Nat.zero_add]
  rfl

/-- The index knows what a search finds.  By induction on the list from its end: an input that is
entered where another has its place is not entered again. -/
theorem get?_index (inputs : List Expr) (e : Expr) :
    (seeded inputs).index.get? e = inputs.idxOf? e := by
  induction inputs using List.reverseRecOn with
  | nil => rfl
  | append_singleton inputs x ih =>
    have found : (inputs ++ [x]).idxOf? e
        = (inputs.idxOf? e).or (if x = e then some inputs.length else none) := by
      rw [List.idxOf?, List.findIdx?_append]
      by_cases hxe : x = e <;> simp [hxe]
    rw [index_append_singleton, found, ← ih]
    -- the last input is `e`, which has its position from before or the last one
    by_cases hxe : x = e
    · subst hxe
      rw [if_pos rfl, enter]
      cases hx : (seeded inputs).index.get? x with
      | some position => exact hx
      | none => exact Table.get?_insert_self _ _ _
    · rw [if_neg hxe, Option.or_none, enter]
      cases (seeded inputs).index.get? x with
      | some position => rfl
      | none => exact Table.get?_insert_of_ne _ (Ne.symm hxe) _

/-- The index that is filled from a list sends what is listed to the first position that lists it,
and knows nothing else. -/
theorem indexed_seeded (inputs : List Expr) : (seeded inputs).Indexed := by
  intro e position
  rw [get?_index, List.idxOf?_eq_some_iff]
  show (∃ h, inputs[position] = e ∧ _) ↔ inputs[position]? = some e ∧ ∀ earlier < position,
    inputs[earlier]? ≠ some e
  constructor
  · rintro ⟨h, he, first⟩
    refine ⟨List.getElem?_eq_some_iff.mpr ⟨h, he⟩, fun earlier hlt hx => ?_⟩
    exact first earlier hlt (List.getElem?_eq_some_iff.mp hx).2
  · rintro ⟨he, first⟩
    obtain ⟨h, he⟩ := List.getElem?_eq_some_iff.mp he
    refine ⟨h, he, fun earlier hlt hx => first earlier hlt ?_⟩
    exact List.getElem?_eq_some_iff.mpr ⟨Nat.lt_trans hlt h, hx⟩

/-- With an index, a registration gives the same position and the same list, and the index stays the
one that is filled from the list. -/
theorem register_seeded (e : Expr) (inputs : List Expr) :
    (seeded inputs).register e
      = ((OperatorTemplate.register e inputs).1, seeded (OperatorTemplate.register e inputs).2) := by
  unfold register OperatorTemplate.register
  rw [get?_index]
  cases hx : inputs.idxOf? e with
  | some position => rfl
  | none =>
    have entered : (seeded (inputs ++ [e])).index = (seeded inputs).index.insert e inputs.length := by
      rw [index_append_singleton, enter, get?_index, hx]
    show (inputs.length, (⟨inputs ++ [e], (seeded inputs).index.insert e inputs.length⟩ : InputList))
      = (inputs.length, ⟨inputs ++ [e], (seeded (inputs ++ [e])).index⟩)
    rw [entered]

/-- An index that is kept while `es` are registered is the one that is filled from the list that
results. -/
theorem registerAll_seeded (es inputs : List Expr) :
    (seeded inputs).registerAll es = seeded (OperatorTemplate.registerAll es inputs) := by
  induction es generalizing inputs with
  | nil => rfl
  | cons e es ih =>
    show ((seeded inputs).register e).2.registerAll es = _
    rw [register_seeded, ih]
    rfl

/-- The list `l` with an index stands for the plain list `inputs`: it holds the same inputs, its index
is the one that is filled from them and sends each to its first position, and it answers every further
registration with the position that the search finds, the index then being that of the longer list. -/
structure Mirrors (l : InputList) (inputs : List Expr) : Prop where
  exprs : l.exprs = inputs
  filled : l = seeded inputs
  indexed : l.Indexed
  answers : ∀ e, l.register e
    = ((OperatorTemplate.register e inputs).1, seeded (OperatorTemplate.register e inputs).2)

/-- The index that is filled from a list stands for it. -/
theorem mirrors_seeded (inputs : List Expr) : (seeded inputs).Mirrors inputs where
  exprs := rfl
  filled := rfl
  indexed := indexed_seeded inputs
  answers e := register_seeded e inputs

end InputList

/-! ## Runs -/

namespace TranslationState

/-- The lists of inputs have come about by registering, the volume inputs from the seeds. -/
structure Registered (seeds : List Expr) (s : TranslationState) : Prop where
  volume : ∃ es, s.volume = registerAll es seeds
  boundary : ∃ es, s.boundary = registerAll es []

/-- The list of one side with the index that the run keeps: filled from the seeds, or from nothing on
the boundary side, and then kept while the other inputs are registered one after the other. -/
def indexed (seeds : List Expr) (s : TranslationState) : Side → InputList
  | .interior => (InputList.seeded seeds).registerAll (s.volume.drop seeds.length)
  | .exterior => (InputList.seeded []).registerAll s.boundary

/-- The lists of inputs are in order, and the index that the run keeps for a side stands for the list
of that side. -/
structure InOrder (seeds : List Expr) (s : TranslationState) : Prop where
  volume : GrowsFrom seeds s.volume
  boundary : s.boundary.Nodup
  index : ∀ side, (s.indexed seeds side).Mirrors (s.listed side)
  /-- Whatever has been registered on top of the seeds to give the volume inputs, repeats included: the
  index that was kept on the way is this one. -/
  volumeKept : ∀ es, registerAll es seeds = s.volume →
    (InputList.seeded seeds).registerAll es = s.indexed seeds .interior
  boundaryKept : ∀ es, registerAll es [] = s.boundary →
    (InputList.seeded []).registerAll es = s.indexed seeds .exterior

/-- The index that the run keeps is the one that is filled from the list. -/
theorem indexed_eq {s : TranslationState} (hv : GrowsFrom seeds s.volume) (hb : s.boundary.Nodup)
    (side : Side) : s.indexed seeds side = .seeded (s.listed side) := by
  cases side with
  | interior =>
    obtain ⟨added, listed, nodup, fresh⟩ := hv
    show (InputList.seeded seeds).registerAll (s.volume.drop seeds.length) = .seeded s.volume
    rw [InputList.registerAll_seeded, listed, List.drop_left, registerAll_of_fresh nodup fresh]
  | exterior =>
    show (InputList.seeded []).registerAll s.boundary = .seeded s.boundary
    rw [InputList.registerAll_seeded, registerAll_of_fresh hb fun _ _ => List.not_mem_nil]
    rfl

/-- Lists that have come about by registering are in order. -/
theorem Registered.inOrder {s : TranslationState} (h : s.Registered seeds) : s.InOrder seeds := by
  obtain ⟨vs, hv⟩ := h.volume
  obtain ⟨bs, hb⟩ := h.boundary
  have volume : GrowsFrom seeds s.volume := hv ▸ growsFrom_registerAll vs seeds
  have boundary : s.boundary.Nodup := by
    obtain ⟨added, listed, nodup, -⟩ := growsFrom_registerAll bs []
    rw [hb, listed]
    exact nodup
  have filled := indexed_eq volume boundary
  refine ⟨volume, boundary, fun side => ?_, fun es hes => ?_, fun es hes => ?_⟩
  · rw [filled]
    exact InputList.mirrors_seeded _
  · rw [filled, InputList.registerAll_seeded, hes]
    rfl
  · rw [filled, InputList.registerAll_seeded, hes]
    rfl

/-- An index in order answers for an expression what a search in the list finds. -/
theorem InOrder.get?_index {s : TranslationState} (h : s.InOrder seeds) (side : Side) (e : Expr) :
    (s.indexed seeds side).index.get? e = (s.listed side).idxOf? e := by
  rw [(h.index side).filled, InputList.get?_index]

end TranslationState

namespace Translate

open TranslationState (Registered InOrder)

variable {tag : BoundaryTag}

/-- That the lists have come about by registering is stable: a translation registers, and does
nothing else to lists. -/
theorem stable_registered (seeds : List Expr) : Stable (fun _ => True) (Registered seeds) where
  volume := by
    rintro s e - ⟨⟨es, hv⟩, hb⟩
    refine ⟨⟨es ++ [e], ?_⟩, hb⟩
    rw [registerAll_append_singleton, ← hv]
  boundary := by
    rintro s e - ⟨hv, ⟨es, hb⟩⟩
    refine ⟨hv, ⟨es ++ [e], ?_⟩⟩
    rw [registerAll_append_singleton, ← hb]
  costs _ _ h := ⟨h.volume, h.boundary⟩
  once e _ h := keeps_once (fun _ _ h => ⟨h.volume, h.boundary⟩) e h

/-- What survives the steps of a translation survives translations in turn, failures included. -/
theorem keeps_inTurn {inv : TranslationState → Prop} (hinv : Stable (fun _ => True) inv)
    (es : List Expr) {s : TranslationState} (hs : inv s) : inv ((inTurn tag es).run s).2 := by
  induction es generalizing s with
  | nil => exact hs
  | cons e es ih =>
    rw [run_inTurn_cons]
    exact ih (keeps_expr hinv (fun _ _ _ _ => trivial) e trivial s hs)

/-- Each kernel that was returned is the one that `Expr.kernel` gives for one of the expressions, read
through the lists of inputs at the end. -/
theorem exists_kernel_of_mem_inTurn (es : List Expr) {s : TranslationState} (hs : s.Valid tag)
    {k : Kernel} (hk : .ok k ∈ ((inTurn tag es).run s).1) :
    ∃ e ∈ es, ∃ l, e.kernel tag = .ok l ∧ ((inTurn tag es).run s).2.Names k l := by
  induction es generalizing s with
  | nil => nomatch hk
  | cons e es ih =>
    have follows := follows_expr hs e
    rw [answered_inTurn_cons] at hk
    rw [run_inTurn_cons]
    rcases List.mem_cons.mp hk with first | later
    · have agree := follows.agree
      rw [← first] at agree
      generalize hl : e.kernel tag = answer at agree
      cases agree with
      | ok names =>
        exact ⟨e, List.mem_cons_self, _, hl, names.extend (run_inTurn es follows.valid).1⟩
    · obtain ⟨x, hx, l, hl, names⟩ := ih follows.valid later
      exact ⟨x, List.mem_cons_of_mem e hx, l, hl, names⟩

/-- **Lists of inputs in every run.**  Whatever the `seeds`, whatever was `asked` about costs, and
whatever is translated `earlier` and `later`, successes and failures: the lists of inputs are in
order, later translations only add to their ends, and the index that the run keeps for a side goes on
answering what it answered.  What a kernel returned so far reads is listed, and is read at the position
that the index answers for it. -/
theorem inOrder_inTurn (tag : BoundaryTag) (asked seeds earlier later : List Expr) :
    let start : TranslationState := { costs := .afterAsking asked, volume := seeds }
    let answers := ((inTurn tag earlier).run start).1
    let now := ((inTurn tag earlier).run start).2
    let after := ((inTurn tag later).run now).2
    now.InOrder seeds ∧ now.Extends after
      ∧ (∀ side e position, (now.indexed seeds side).index.get? e = some position →
          (after.indexed seeds side).index.get? e = some position)
      ∧ ∀ k, .ok k ∈ answers → k.InScope .interior now.volume ∧ k.InScope .exterior now.boundary
        ∧ ∀ c ∈ k.components, ∃ e, (now.indexed seeds c.1).index.get? e = some c.2 := by
  intro start answers now after
  have registered : start.Registered seeds := ⟨⟨[], rfl⟩, ⟨[], rfl⟩⟩
  have registeredNow : now.Registered seeds :=
    keeps_inTurn (stable_registered seeds) earlier registered
  have registeredAfter : after.Registered seeds :=
    keeps_inTurn (stable_registered seeds) later registeredNow
  have inOrder := registeredNow.inOrder
  have settled : start.Settled := fun e k h => nomatch h
  obtain ⟨-, settledNow, reads⟩ := settles_inTurn tag earlier settled
  have grown : now.Extends after := (settles_inTurn tag later settledNow).1
  refine ⟨inOrder, grown, fun side e position he => ?_, fun k hk => ?_⟩
  · rw [inOrder.get?_index] at he
    rw [registeredAfter.inOrder.get?_index]
    exact idxOf?_of_prefix (grown.listed side) he
  · have inScope (side : Side) : k.InScope side (now.listed side) := by
      intro index hc
      obtain ⟨x, hx⟩ := reads k hk _ hc
      obtain ⟨hlt, -⟩ := List.idxOf?_eq_some_iff.mp hx
      exact hlt
    refine ⟨inScope .interior, inScope .exterior, fun c hc => ?_⟩
    obtain ⟨x, hx⟩ := reads k hk c hc
    exact ⟨x, (inOrder.get?_index c.1 x).trans hx⟩

end Translate

/-- The translation of a pair only registers, from the interior components on. -/
theorem registered_translatePair (costs : CostMemory) (interior boundary : Expr)
    (tag : BoundaryTag) :
    (translatePair costs interior boundary tag).2.Registered interior.components :=
  Translate.keeps_all (Translate.stable_registered _) (fun _ _ _ _ => trivial) _ (fun _ _ => trivial)
    _ ⟨⟨[], rfl⟩, ⟨[], rfl⟩⟩

end OperatorTemplate
