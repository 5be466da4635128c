import OperatorTemplate.Proofs.Boundary.Arithmetic
/-!
# Positions that kernels read

`register e inputs` answers the first position of `e` in the list that it leaves
(`idxOf?_register`), and a first position stays one, because lists of inputs grow at their ends
(`idxOf?_of_prefix`).  So a kernel that was just made *reads first*: each field `(side, index)` of it
has the first position `index` among the inputs of its side (`TranslationState.ReadsFirst`).

Not every kernel was just made.  That of a common subexpression may come from memory, which takes the
invariant of this module: all kernels in memory read first (`TranslationState.Settled`).  One
translation keeps it and answers with a kernel that reads first, from the operands upwards
(`settles_expr`); and so do translations in turn, failures included (`settles_inTurn`).
-/

namespace OperatorTemplate

variable {inputs : List Expr} {e : Expr}

/-! ## First positions -/

/-- The position that a registration of `e` answers is the first one that lists `e`. -/
theorem idxOf?_register (e : Expr) (inputs : List Expr) :
    (register e inputs).2.idxOf? e = some (register e inputs).1 := by
  unfold register
  cases he : inputs.idxOf? e with
  | some index => exact he
  | none =>
    show (inputs ++ [e]).idxOf? e = some inputs.length
    rw [List.idxOf?, List.findIdx?_append, ← List.idxOf?, he]
    simp

/-- A first position stays one while the list grows at its end. -/
theorem idxOf?_of_prefix {inputs' : List Expr} (h : inputs <+: inputs') {index : Nat}
    (he : inputs.idxOf? e = some index) : inputs'.idxOf? e = some index := by
  obtain ⟨later, rfl⟩ := h
  rw [List.idxOf?, List.findIdx?_append, ← List.idxOf?, he]
  rfl

/-! ## Positions that kernels read -/

namespace TranslationState

variable {s s' : TranslationState}

/-- The inputs of one side. -/
def listed (s : TranslationState) : Side → List Expr
  | .interior => s.volume
  | .exterior => s.boundary

theorem Extends.listed (h : s.Extends s') (side : Side) : s.listed side <+: s'.listed side := by
  cases side with
  | interior => exact h.volume
  | exterior => exact h.boundary

/-- Each field that the kernel `k` reads is read at the first position of its side that lists it. -/
def ReadsFirst (s : TranslationState) (k : Kernel) : Prop :=
  ∀ c ∈ k.components, ∃ e, (s.listed c.1).idxOf? e = some c.2

/-- A kernel that reads first positions goes on doing so while the lists of inputs grow. -/
theorem ReadsFirst.extend {k : Kernel} (h : s.ReadsFirst k) (hs : s.Extends s') :
    s'.ReadsFirst k := by
  intro c hc
  obtain ⟨e, he⟩ := h c hc
  exact ⟨e, idxOf?_of_prefix (hs.listed c.1) he⟩

/-- Every kernel that is remembered for a common subexpression reads first positions. -/
def Settled (s : TranslationState) : Prop :=
  ∀ e k, s.kernels.get? e = some k → s.ReadsFirst k

/-- A state stays settled while its lists grow and its memory is the same. -/
theorem Settled.extend (h : s.Settled) (hs : s.Extends s') (hk : s'.kernels = s.kernels) :
    s'.Settled := by
  intro e k he
  rw [hk] at he
  exact (h e k he).extend hs

end TranslationState

open TranslationState (Extends ReadsFirst Settled)

/-- Started in `s`, the action only adds to the lists of inputs, leaves kernels in memory that read
first positions, and what it returns satisfies `post` in the state it ends in. -/
structure Settles {α : Type} (s : TranslationState) (action : Translate α)
    (post : TranslationState → α → Prop) : Prop where
  extend : s.Extends (action.run.run s).2
  settled : (action.run.run s).2.Settled
  post : ∀ a, (action.run.run s).1 = .ok a → post (action.run.run s).2 a

namespace Settles

variable {α β : Type} {s : TranslationState} {R : TranslationState → α → Prop}
  {Q : TranslationState → β → Prop}

theorem pure (h : s.Settled) {a : α} (ha : R s a) : Settles s (Pure.pure a) R :=
  ⟨.refl s, h, fun _ hx => by cases hx; exact ha⟩

theorem throw (h : s.Settled) (cause : RewriteError) :
    Settles s (MonadExcept.throw cause) R :=
  ⟨.refl s, h, nofun⟩

/-- A sequence settles if its first action does and, whatever value `a` with `R s' a` it hands on in
a settled state `s'` with longer lists, the second does from there. -/
theorem bind {action : Translate α} {next : α → Translate β} (ha : Settles s action R)
    (hn : ∀ a s', s.Extends s' → s'.Settled → R s' a → Settles s' (next a) Q) :
    Settles s (action >>= next) Q := by
  obtain ⟨hs, hv, hr⟩ := ha
  generalize hrun : action.run.run s = r at hs hv hr
  obtain ⟨result, s'⟩ := r
  have run : (action >>= next).run.run s
      = match result with
        | .ok a => (next a).run.run s'
        | .error cause => (.error cause, s') := by
    simp only [ExceptT.run_bind, StateT.run_bind, hrun]
    cases result <;> rfl
  cases result with
  | error cause =>
    -- the first action fails: the sequence ends where it does, with nothing returned
    refine ⟨?_, ?_, fun a h => ?_⟩
    · rw [run]
      exact hs
    · rw [run]
      exact hv
    · rw [run] at h
      nomatch h
  | ok a =>
    obtain ⟨hs', hv', hr'⟩ := hn a s' hs hv (hr a rfl)
    refine ⟨?_, ?_, ?_⟩
    · rw [run]
      exact hs.trans hs'
    · rw [run]
      exact hv'
    · rw [run]
      exact hr'

end Settles

namespace Translate

variable {tag : BoundaryTag} {s : TranslationState} {e : Expr}

/-- A volume input is read where the registration has it, which is its first position. -/
theorem settles_volumeInput (h : s.Settled) (e : Expr) :
    Settles s (volumeInput e) ReadsFirst := by
  have grown : s.Extends { s with volume := (register e s.volume).2 } :=
    ⟨inputs_extend_register e s.volume, List.prefix_rfl⟩
  refine ⟨grown, h.extend grown rfl, ?_⟩
  rintro k hk c hc
  cases hk
  obtain rfl := List.mem_singleton.mp hc
  exact ⟨e, idxOf?_register e s.volume⟩

/-- A boundary input is read where the registration has it, which is its first position. -/
theorem settles_boundaryInput (h : s.Settled) (e : Expr) :
    Settles s (boundaryInput e) ReadsFirst := by
  have grown : s.Extends { s with boundary := (register e s.boundary).2 } :=
    ⟨List.prefix_rfl, inputs_extend_register e s.boundary⟩
  refine ⟨grown, h.extend grown rfl, ?_⟩
  rintro k hk c hc
  cases hk
  obtain rfl := List.mem_singleton.mp hc
  exact ⟨e, idxOf?_register e s.boundary⟩

/-- A question about costs touches neither lists nor kernels. -/
theorem settles_isExpensive (h : s.Settled) (e : Expr) :
    Settles s (isExpensive e) fun _ _ => True :=
  ⟨⟨List.prefix_rfl, List.prefix_rfl⟩, fun x k hx => h x k hx, fun _ _ => trivial⟩

theorem settles_checkTag (h : s.Settled) (carrier : TagCarrier) (found : BoundaryTag) :
    Settles s (checkTag tag carrier found) fun _ _ => True := by
  unfold checkTag
  split
  · exact Settles.pure h trivial
  · exact Settles.throw h _

/-- The translation of an application is a check of a tag and a registration, or fails. -/
theorem settles_application (h : s.Settled) (op : Operator) (field : Expr) :
    Settles s (application tag op field) ReadsFirst := by
  unfold application
  split
  · exact Settles.bind (settles_checkTag h _ _) fun _ _ _ hs' _ => settles_volumeInput hs' _
  · exact Settles.bind (settles_checkTag h _ _) fun _ _ _ hs' _ => settles_boundaryInput hs' _
  · exact Settles.bind (settles_checkTag h _ _) fun _ _ _ hs' _ => settles_boundaryInput hs' _
  · split
    · exact Settles.bind (settles_checkTag h _ _) fun _ _ _ hs' _ => settles_boundaryInput hs' _
    · exact settles_boundaryInput h _
  · exact Settles.throw h _

theorem settles_atom (h : s.Settled) : (a : Atom) → Settles s (atom tag a) ReadsFirst
  | .variable _ => settles_boundaryInput h _
  | .normal _ _ _ =>
    Settles.bind (settles_checkTag h _ _) fun _ _ _ hs' _ => Settles.pure hs' nofun
  | .constant _ | .parameter _ => Settles.pure h nofun
  | .kernelNormal _ | .coordinate _ _ | .ones _ | .jacobian _ | .forwardMetric _ _
  | .inverseMetric _ _ => Settles.throw h _

/-- The kernel of a common subexpression reads first positions, be it remembered or new. -/
theorem settles_once (h : s.Settled) {translation : Translate Kernel}
    (ht : Settles s translation ReadsFirst) : Settles s (once e translation) ReadsFirst := by
  cases hm : s.kernels.get? e with
  | some k =>
    have run := run_once_of_some translation hm
    refine ⟨?_, ?_, fun k' hk' => ?_⟩
    · rw [run]
      exact .refl s
    · rw [run]
      exact h
    · rw [run] at hk' ⊢
      cases hk'
      exact h e k hm
  | none =>
    have renewed : Settles s (do
        let kernel ← translation
        modify fun s => { s with kernels := s.kernels.insert e kernel }
        return kernel) ReadsFirst := by
      refine Settles.bind ht fun k s' _ hs' hk => ⟨⟨List.prefix_rfl, List.prefix_rfl⟩, ?_, ?_⟩
      · intro x k' hx
        -- an entry of the renewed memory is the new one or was there before
        rcases Table.get?_insert_cases hx with ⟨rfl, rfl⟩ | ⟨-, hx⟩
        · exact hk
        · exact hs' x k' hx
      · rintro k' hk'
        cases hk'
        exact hk
    have run := run_once_of_none translation hm
    exact ⟨by rw [run]; exact renewed.extend, by rw [run]; exact renewed.settled,
      by rw [run]; exact renewed.post⟩

/-- Expressions `es` are translated to kernels that read first positions, one for each, if every
single one is. -/
theorem settles_all (es : List Expr)
    (he : ∀ e ∈ es, ∀ {s : TranslationState}, s.Settled → Settles s (expr tag e) ReadsFirst)
    {s : TranslationState} (h : s.Settled) :
    Settles s (all tag es) fun s' ks => ks.length = es.length ∧ ∀ k ∈ ks, s'.ReadsFirst k := by
  induction es generalizing s with
  | nil => exact Settles.pure h ⟨rfl, nofun⟩
  | cons e es ih =>
    refine Settles.bind (he e List.mem_cons_self h) fun k s₁ _ h₁ hk => ?_
    refine Settles.bind (ih (fun x hx => he x (List.mem_cons_of_mem e hx)) h₁) ?_
    rintro ks s₂ grown h₂ ⟨length, hks⟩
    refine Settles.pure h₂ ⟨congrArg (· + 1) length, List.forall_mem_cons.mpr ⟨?_, hks⟩⟩
    -- the first kernel was made before the lists grew to those of `s₂`
    exact hk.extend grown

/-- From a state whose memory reads first positions, an expression is translated to a kernel that
reads first positions, and the memory still does. -/
theorem settles_expr (e : Expr) {s : TranslationState} (h : s.Settled) :
    Settles s (expr tag e) ReadsFirst := by
  have operand (d : Expr) (hd : d ∈ e.children) {s : TranslationState} (h : s.Settled) :
      Settles s (expr tag d) ReadsFirst := by
    have := Expr.size_lt_of_mem_children hd
    exact settles_expr d h
  have arithmetic (ha : e.IsArithmetic) : Settles s (expr tag e) ReadsFirst := by
    rw [expr_of_isArithmetic ha]
    refine Settles.bind (settles_all e.children operand h) fun ks s' _ h' hks => ?_
    refine Settles.pure h' fun c hc => ?_
    -- what the node reads, one of its operands reads
    obtain ⟨-, k, hk, hc⟩ := (Expr.mem_components_assemble ha hks.1).mp hc
    exact hks.2 k hk c hc
  cases e with
  | atom a => exact settles_atom h a
  | subscript _ _ | exchange _ _ _ => exact settles_boundaryInput h _
  | apply op field => exact settles_application h op field
  | shared body _ =>
    refine settles_once h (Settles.bind (settles_isExpensive h body) fun cost s' _ h' _ => ?_)
    cases cost with
    | true => exact settles_boundaryInput h' _
    | false => exact operand body List.mem_cons_self h'
  | pair _ _ _ | array _ | domainFlux _ _ => exact Settles.throw h _
  | _ => exact arithmetic (by constructor)
termination_by e.size

/-! ## Expressions in turn -/

/-- Expressions in turn keep the memory settled, and each kernel that was returned reads first
positions of the lists at the end. -/
theorem settles_inTurn (tag : BoundaryTag) (es : List Expr) {s : TranslationState}
    (hs : s.Settled) :
    s.Extends ((inTurn tag es).run s).2 ∧ ((inTurn tag es).run s).2.Settled
      ∧ ∀ k, .ok k ∈ ((inTurn tag es).run s).1 → ((inTurn tag es).run s).2.ReadsFirst k := by
  induction es generalizing s with
  | nil => exact ⟨.refl s, hs, nofun⟩
  | cons e es ih =>
    have first : Settles s (expr tag e) ReadsFirst := settles_expr e hs
    obtain ⟨grown, settled, later⟩ := ih first.settled
    rw [run_inTurn_cons, answered_inTurn_cons]
    refine ⟨first.extend.trans grown, settled, fun k hk => ?_⟩
    rcases List.mem_cons.mp hk with hk | hk
    · exact (first.post k hk.symm).extend grown
    · exact later k hk

end Translate

end OperatorTemplate
