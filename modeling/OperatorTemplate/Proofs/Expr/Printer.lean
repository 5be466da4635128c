import Mathlib
import OperatorTemplate.Expr.Printer
import OperatorTemplate.Proofs.Text.Delimited
/-!
# Texts of arithmetic are unambiguous

Two expressions of arithmetic with the same text are the same (`render_eq_iff`), where names are
identifiers, constants are integers, and sums and products have two operands at least (`Legible`).

An expression is read in two steps.  Its text is that of its operands with one sign in between
(`text_eq`); the text of an operand is a word, perhaps a list in parentheses, and indices in
brackets (`operandText_eq`, `Primary.operandText_eq`).  An expression without a sign is its only
operand; an operand that has a sign is the only element of a list in parentheses behind an empty
word.  Sign and operands make up the expression again, and so do word, list and indices
(`combine_operands`, `Primary.ofWord_word`, `foldl_indices`).

What stands behind decides where each part ends (`Text.Delimited`).  There are three classes of
characters, one inside the other:

* behind an expression stands a comma or a closing parenthesis (`Closes`);
* behind an operand, one of these or a space (`Ends`);
* behind an operand without its indices, one of these or an opening bracket (`Follows`).

Behind a word stands something that is not part of a word.  The induction is on the size of the
expression (`delimited_text`).  The crux is that it goes down: what stands in parentheses in an
operand is smaller than the expression around, also where it is the operand itself
(`size_lt_of_mem_group`).
-/

namespace OperatorTemplate

/-! ## Names -/

namespace Text

/-- Letters and the underscore.  Of ASCII, the letters are those of the alphabet; beyond, any
character may be one. -/
def isNameStart (c : Char) : Bool := c.isAlpha || 127 < c.toNat || c == '_'

/-- A letter or an underscore, followed by letters, digits and underscores. -/
def isIdentifier (name : String) : Bool :=
  match name.toList with
  | [] => false
  | first :: rest => isNameStart first && rest.all fun c => isNameStart c || c.isDigit

/-- What names and integers are made of. -/
def isWordChar (c : Char) : Bool := isNameStart c || c.isDigit || c == '-'

/-- No digit can be the first character of a name. -/
theorem isNameStart_of_isDigit {c : Char} (h : c.isDigit = true) : isNameStart c = false := by
  have range : 48 ≤ c.toNat ∧ c.toNat ≤ 57 := Char.isDigit_iff_toNat.mp h
  have line : c ≠ '_' := by
    rintro rfl
    exact absurd h (by decide)
  have letter : c.isAlpha = false := by
    rw [Bool.eq_false_iff]
    intro ha
    simp only [Char.isAlpha, Char.isUpper, Char.isLower, Bool.or_eq_true, Bool.and_eq_true,
      decide_eq_true_eq, ge_iff_le, UInt32.le_iff_toNat_le] at ha
    rcases ha with ⟨upper, -⟩ | ⟨lower, -⟩
    · have : 65 ≤ c.toNat := upper
      omega
    · have : 97 ≤ c.toNat := lower
      omega
  rw [isNameStart, letter, beq_false_of_ne line, Bool.false_or, Bool.or_false,
    decide_eq_false_iff_not]
  omega

/-- An identifier has a first character, which may start a name, and is made of the characters of
words. -/
theorem exists_first_of_isIdentifier {name : String} (h : isIdentifier name = true) :
    ∃ first rest, name.toList = first :: rest ∧ isNameStart first = true
      ∧ ∀ c ∈ name.toList, isWordChar c = true := by
  unfold isIdentifier at h
  split at h
  · nomatch h
  next first rest hn =>
    obtain ⟨hfirst, hrest⟩ := Bool.and_eq_true_iff.mp h
    refine ⟨first, rest, hn, hfirst, fun c hc => ?_⟩
    rw [hn] at hc
    rcases List.mem_cons.mp hc with rfl | hc
    · simp [isWordChar, hfirst]
    · have := List.all_eq_true.mp hrest c hc
      simp only [isWordChar, this, Bool.true_or]

/-- A natural number is written in digits. -/
theorem isDigit_of_mem_toString {n : Nat} {c : Char} (h : c ∈ (toString n).toList) :
    c.isDigit = true := by
  have digits : (toString n).toList = Nat.toDigits 10 n := by
    rw [show toString n = n.repr from rfl, Nat.repr_eq_ofList_toDigits, String.toList_ofList]
  exact Nat.isDigit_of_mem_toDigits (by decide) (by decide) (digits ▸ h)

/-- An integer is written in digits and perhaps a minus sign. -/
theorem isDigit_of_mem_integer {value : Int} {c : Char} (h : c ∈ (toString value).toList) :
    c.isDigit = true ∨ c = '-' := by
  rw [show toString value = value.repr from rfl, Int.repr_eq_if] at h
  split at h
  · exact .inl (isDigit_of_mem_toString h)
  · rw [String.toList_append, List.mem_append] at h
    rcases h with h | h
    · exact .inr (List.mem_singleton.mp h)
    · exact .inl (isDigit_of_mem_toString h)

/-- An integer is not written as the empty text. -/
theorem integer_ne_empty (value : Int) : toString value ≠ "" := by
  rw [show toString value = value.repr from rfl, Int.repr_eq_if]
  split
  · exact Nat.repr_ne_empty
  · simp

/-- No integer is written as an identifier is: its first character is a digit or a minus sign. -/
theorem ne_integer {name : String} (h : isIdentifier name = true) (value : Int) :
    name ≠ toString value := by
  rintro rfl
  obtain ⟨first, rest, hn, hfirst, -⟩ := exists_first_of_isIdentifier h
  have listed : first ∈ (toString value).toList := by
    rw [hn]
    exact List.mem_cons_self
  rcases isDigit_of_mem_integer listed with hd | rfl
  · rw [isNameStart_of_isDigit hd] at hfirst
    nomatch hfirst
  · exact absurd hfirst (by decide)

end Text

open Text

namespace Expr

/-! ## Arithmetic -/

/-- Arithmetic on identifiers and integers: no function is called like a conditional, and sums and
products have two operands at least. -/
inductive Legible : Expr → Prop
  | named {name : String} (hn : isIdentifier name = true) : Legible (.atom (.variable name))
  | integer (value : Int) : Legible (.atom (.constant (.int value)))
  | subscript {a : Expr} (ha : Legible a) (index : Nat) : Legible (.subscript a index)
  | sum {es : List Expr} (hl : 2 ≤ es.length) (hes : ∀ e ∈ es, Legible e) : Legible (.sum es)
  | product {es : List Expr} (hl : 2 ≤ es.length) (hes : ∀ e ∈ es, Legible e) :
    Legible (.product es)
  | quotient {a b : Expr} (ha : Legible a) (hb : Legible b) : Legible (.quotient a b)
  | power {a b : Expr} (ha : Legible a) (hb : Legible b) : Legible (.power a b)
  | comparison {a b : Expr} (ha : Legible a) (r : Relation) (hb : Legible b) :
    Legible (.comparison a r b)
  | conditional {c a b : Expr} (hc : Legible c) (ha : Legible a) (hb : Legible b) :
    Legible (.conditional c a b)
  | ifPositive {c a b : Expr} (hc : Legible c) (ha : Legible a) (hb : Legible b) :
    Legible (.ifPositive c a b)
  | call {f : String} {es : List Expr} (hf : isIdentifier f = true) (hi : f ≠ "If")
    (hp : f ≠ "IfPositive") (hes : ∀ e ∈ es, Legible e) : Legible (.call f es)

variable {e e' x x' : Expr}

/-- The characters of the text of an expression. -/
def text (e : Expr) : List Char := e.render.toList

/-- The characters of the text of an operand. -/
def operandText (e : Expr) : List Char := (enclose e e.render).toList

/-- An operand with a sign between operands of its own stands in parentheses. -/
theorem operandText_of_isInfix (h : e.isInfix = true) :
    e.operandText = '(' :: (e.text ++ [')']) := by
  rw [operandText, enclose, if_pos h, String.toList_append, String.toList_append]
  rfl

/-- Any other operand stands as it is. -/
theorem operandText_of_not_isInfix (h : e.isInfix = false) : e.operandText = e.text := by
  rw [operandText, enclose, if_neg (by simp [h]), text]

theorem renderAll_eq (es : List Expr) : (renderAll es).map String.toList = es.map text := by
  induction es with
  | nil => rfl
  | cons e es ih => rw [renderAll, List.map_cons, ih, List.map_cons, text]

theorem renderOperands_eq (es : List Expr) :
    (renderOperands es).map String.toList = es.map operandText := by
  induction es with
  | nil => rfl
  | cons e es ih => rw [renderOperands, List.map_cons, ih, List.map_cons, operandText]

/-! ## Signs -/

/-- What stands between operands. -/
inductive Sign where
  | plus
  | times
  | over
  | power
  | relation (r : Relation)

/-- The sign between the operands of an expression, if there is one. -/
def sign? : Expr → Option Sign
  | .sum _ => some .plus
  | .product _ => some .times
  | .quotient _ _ => some .over
  | .power _ _ => some .power
  | .comparison _ r _ => some (.relation r)
  | _ => none

/-- The operands around a sign; without a sign, the expression itself is the operand. -/
def operands : Expr → List Expr
  | .sum es | .product es => es
  | .quotient a b | .power a b | .comparison a _ b => [a, b]
  | e => [e]

/-- Operands with a sign between them. -/
def combine : Option Sign → List Expr → Expr
  | some .plus, es => .sum es
  | some .times, es => .product es
  | some .over, [a, b] => .quotient a b
  | some .power, [a, b] => .power a b
  | some (.relation r), [a, b] => .comparison a r b
  | none, [e] => e
  | _, _ => .zero

/-- An expression is made up again of its sign and its operands. -/
theorem combine_operands (e : Expr) : combine e.sign? e.operands = e := by
  cases e <;> rfl

/-- The characters of a sign; nothing without a sign. -/
def symbol : Option Sign → List Char
  | some .plus => ['+']
  | some .times => ['*']
  | some .over => ['/']
  | some .power => ['*', '*']
  | some (.relation r) => r.symbol.toList
  | none => []

/-- No sign has a space in it. -/
theorem ne_space_of_mem_symbol {s : Option Sign} : ∀ c ∈ symbol s, c ≠ ' ' := by
  rcases s with _ | (_ | _ | _ | _ | ⟨⟨⟩⟩) <;> simp [symbol, Relation.symbol]

/-- The sign with the given characters. -/
def signOf : List Char → Option Sign
  | ['+'] => some .plus
  | ['*'] => some .times
  | ['/'] => some .over
  | ['*', '*'] => some .power
  | ['<'] => some (.relation .lt)
  | ['<', '='] => some (.relation .le)
  | ['=', '='] => some (.relation .eq)
  | ['!', '='] => some (.relation .ne)
  | ['>', '='] => some (.relation .ge)
  | ['>'] => some (.relation .gt)
  | _ => none

/-- A sign is known by its characters. -/
theorem signOf_symbol (s : Option Sign) : signOf (symbol s) = s := by
  rcases s with _ | (_ | _ | _ | _ | ⟨⟨⟩⟩) <;> rfl

/-- Signs with the same characters are the same. -/
theorem symbol_inj {s s' : Option Sign} (h : symbol s = symbol s') : s = s' := by
  rw [← signOf_symbol s, h, signOf_symbol]

/-- What stands between operands behind a first space: the sign, and another space. -/
def signText (s : Option Sign) : List Char := symbol s ++ [' ']

/-- Signs with the same characters and a space behind are the same. -/
theorem signText_inj {s s' : Option Sign} (h : signText s = signText s') : s = s' :=
  symbol_inj (List.append_cancel_right h)

/-- A sign ends at the second space, since it has none itself. -/
theorem eq_of_signText {s s' : Option Sign} {u u' : List Char}
    (h : signText s ++ u = signText s' ++ u') : signText s = signText s' ∧ u = u' := by
  rw [signText, signText, List.append_assoc, List.append_assoc] at h
  have space {u : List Char} : StartsIn (¬· ≠ ' ') ([' '] ++ u) := startsIn_cons.mpr (by simp)
  obtain ⟨symbols, rest⟩ := eq_of_append ne_space_of_mem_symbol ne_space_of_mem_symbol space space h
  exact ⟨congrArg (· ++ [' ']) symbols, (List.cons.inj rest).2⟩

/-- The text of two operands with a sign between. -/
theorem between_eq (s : Option Sign) {sign : String} (hs : sign.toList = ' ' :: signText s)
    (a b : Expr) :
    (enclose a a.render ++ sign ++ enclose b b.render).toList
      = (' ' :: signText s).intercalate ([a, b].map operandText) := by
  rw [String.toList_append, String.toList_append, hs, List.map_cons, List.map_cons,
    List.intercalate_cons_cons, List.map_nil, List.intercalate_singleton]
  rfl

/-- The text of any number of operands with a sign in between. -/
theorem among_eq (s : Option Sign) {sign : String} (hs : sign.toList = ' ' :: signText s)
    (es : List Expr) :
    (sign.intercalate (renderOperands es)).toList
      = (' ' :: signText s).intercalate (es.map operandText) := by
  rw [String.toList_intercalate, renderOperands_eq, hs]

/-- The text of `e` is that of its operands, with its sign in between. -/
theorem text_eq (e : Expr) :
    e.text = (' ' :: signText e.sign?).intercalate (e.operands.map operandText) := by
  cases e with
  | sum es => exact among_eq (some .plus) (by decide) es
  | product es => exact among_eq (some .times) (by decide) es
  | quotient a b => exact between_eq (some .over) (by decide) a b
  | power a b => exact between_eq (some .power) (by decide) a b
  | comparison a r b =>
    have sign : (" " ++ r.symbol ++ " ").toList = ' ' :: signText (some (.relation r)) := by
      rw [String.toList_append, String.toList_append]
      rfl
    calc (enclose a a.render ++ " " ++ r.symbol ++ " " ++ enclose b b.render).toList
      _ = (enclose a a.render ++ (" " ++ r.symbol ++ " ") ++ enclose b b.render).toList := by
        simp only [String.append_assoc]
      _ = _ := between_eq (some (.relation r)) sign a b
  -- without a sign, the expression is its only operand
  | _ => exact (operandText_of_not_isInfix rfl).symm.trans (List.intercalate_singleton ..).symm

/-- The operands of arithmetic are arithmetic. -/
theorem Legible.of_mem_operands (h : Legible e) : ∀ x ∈ e.operands, Legible x := by
  have whole := h
  cases h with
  | sum _ hes | product _ hes => exact hes
  | quotient ha hb | power ha hb | comparison ha _ hb =>
    exact List.forall_mem_cons.mpr ⟨ha, List.forall_mem_singleton.mpr hb⟩
  | _ => exact List.forall_mem_singleton.mpr whole

/-- Arithmetic has an operand; if that is the only one, there is no sign. -/
theorem Legible.exists_operands (h : Legible e) :
    ∃ first rest, e.operands = first :: rest ∧ (rest = [] → e.sign? = none) := by
  cases h with
  | @sum es hl _ | @product es hl _ =>
    rcases es with _ | ⟨first, _ | ⟨second, rest⟩⟩
    · exact absurd hl (Nat.not_succ_le_zero 1)
    · exact absurd hl (Nat.lt_irrefl 1)
    · exact ⟨first, second :: rest, rfl, fun alone => absurd alone (List.cons_ne_nil second rest)⟩
  | @quotient a b _ _ | @power a b _ _ | @comparison a b _ _ _ =>
    exact ⟨a, [b], rfl, fun alone => absurd alone (List.cons_ne_nil b [])⟩
  | _ => exact ⟨_, [], rfl, fun _ => rfl⟩

/-! ## Indices -/

/-- What the indices stand behind. -/
def base : Expr → Expr
  | .subscript aggregate _ => aggregate.base
  | e => e

/-- The indices behind an expression. -/
def indices : Expr → List Nat
  | .subscript aggregate index => aggregate.indices ++ [index]
  | _ => []

/-- Only a subscript stands behind something else. -/
theorem base_of_ne_subscript (h : ∀ aggregate index, e ≠ .subscript aggregate index) :
    e.base = e := by
  cases e with
  | subscript aggregate index => exact absurd rfl (h aggregate index)
  | _ => rfl

/-- An expression is made up again of what its indices stand behind and the indices. -/
theorem foldl_indices (e : Expr) : e.indices.foldl .subscript e.base = e := by
  fun_induction indices e with
  | case1 aggregate index ih =>
    rw [List.foldl_append, base, ih]
    rfl
  | case2 e h => exact base_of_ne_subscript h

theorem size_lt_subscript {aggregate : Expr} {index : Nat} :
    aggregate.size < (subscript aggregate index).size :=
  size_lt_of_mem_children List.mem_cons_self

/-- What the indices stand behind is no larger than the expression. -/
theorem size_base_le (e : Expr) : e.base.size ≤ e.size := by
  fun_induction base e with
  | case1 aggregate index ih => exact Nat.le_trans ih (Nat.le_of_lt size_lt_subscript)
  | case2 => exact Nat.le_refl _

/-- If there are indices, what they stand behind is smaller. -/
theorem size_base_lt (h : e.base ≠ e) : e.base.size < e.size := by
  cases e with
  | subscript aggregate index => exact Nat.lt_of_le_of_lt (size_base_le aggregate) size_lt_subscript
  | _ => exact absurd rfl h

/-- What an index adds behind the opening bracket. -/
def indexText (index : Nat) : List Char := (toString index).toList ++ [']']

/-- An index in brackets ends at the closing bracket, since a number is written in digits. -/
theorem delimited_index (i i' : Nat) : Delimited indexText (fun _ => True) i i' := by
  intro r r' _ _ h
  rw [indexText, indexText, List.append_assoc, List.append_assoc] at h
  have bracket {r : List Char} : StartsIn (¬Char.isDigit · = true) ([']'] ++ r) :=
    startsIn_cons.mpr (by decide)
  obtain ⟨digits, rest⟩ := eq_of_append (fun _ => isDigit_of_mem_toString)
    (fun _ => isDigit_of_mem_toString) bracket bracket h
  exact ⟨Nat.repr_inj.mp (String.toList_inj.mp digits), (List.cons.inj rest).2⟩

/-- The text of an operand is that of what its indices stand behind, followed by each index in
brackets. -/
theorem operandText_eq (x : Expr) :
    x.operandText = x.base.operandText ++ separated ['['] indexText x.indices := by
  fun_induction indices x with
  | case1 aggregate index ih =>
    calc (enclose aggregate aggregate.render ++ "[" ++ toString index ++ "]").toList
      _ = aggregate.operandText ++ (['['] ++ indexText index) := by
        rw [String.toList_append, String.toList_append, String.toList_append, List.append_assoc,
          List.append_assoc]
        rfl
      _ = aggregate.base.operandText
          ++ separated ['['] indexText (aggregate.indices ++ [index]) := by
        rw [ih, separated, separated, List.flatMap_append, List.flatMap_singleton,
          List.append_assoc]
  | case2 e h =>
    rw [base_of_ne_subscript h]
    exact (List.append_nil _).symm

/-! ## Words and lists -/

/-- What indices stand behind in arithmetic. -/
inductive Primary : Expr → Prop
  | named {name : String} (hn : isIdentifier name = true) : Primary (.atom (.variable name))
  | integer (value : Int) : Primary (.atom (.constant (.int value)))
  | enclosed {e : Expr} (he : Legible e) (hi : e.isInfix = true) : Primary e
  | conditional {c a b : Expr} (hc : Legible c) (ha : Legible a) (hb : Legible b) :
    Primary (.conditional c a b)
  | ifPositive {c a b : Expr} (hc : Legible c) (ha : Legible a) (hb : Legible b) :
    Primary (.ifPositive c a b)
  | call {f : String} {es : List Expr} (hf : isIdentifier f = true) (hi : f ≠ "If")
    (hp : f ≠ "IfPositive") (hes : ∀ e ∈ es, Legible e) : Primary (.call f es)

/-- In arithmetic, indices stand behind a name, an integer, a call, or an expression in parentheses.
-/
theorem Legible.primary (h : Legible e) : Primary e.base := by
  have whole := h
  induction h with
  | named hn => exact .named hn
  | integer value => exact .integer value
  | subscript ha index ih => exact ih ha
  | conditional hc ha hb => exact .conditional hc ha hb
  | ifPositive hc ha hb => exact .ifPositive hc ha hb
  | call hf hi hp hes => exact .call hf hi hp hes
  | _ => exact .enclosed whole rfl

/-- What is written before a list in parentheses; without such a list, all that is written. -/
def word : Expr → String
  | .atom a => a.render
  | .conditional _ _ _ => "If"
  | .ifPositive _ _ _ => "IfPositive"
  | .call f _ => f
  | _ => ""

/-- The list in parentheses behind a word. -/
def group? : Expr → Option (List Expr)
  | .conditional c a b | .ifPositive c a b => some [c, a, b]
  | .call _ arguments => some arguments
  | e => if e.isInfix then some [e] else none

/-- An expression in parentheses stands behind no word. -/
theorem word_of_isInfix (h : e.isInfix = true) : e.word = "" := by
  cases e <;> first | rfl | nomatch h

/-- An expression in parentheses is the only one in its list. -/
theorem group?_of_isInfix (h : e.isInfix = true) : e.group? = some [e] := by
  cases e <;> first | rfl | nomatch h

/-- The expression that a word before a list in parentheses stands for. -/
def ofWord (word : String) (es : List Expr) : Expr :=
  if word = "" then es.headD zero
  else if word = "If" then .conditional (es.getD 0 zero) (es.getD 1 zero) (es.getD 2 zero)
  else if word = "IfPositive" then .ifPositive (es.getD 0 zero) (es.getD 1 zero) (es.getD 2 zero)
  else .call word es

variable {b b' : Expr} {es es' : List Expr}

/-- What has a list in parentheses is made up again of its word and its list. -/
theorem Primary.ofWord_word (h : Primary b) (hg : b.group? = some es) :
    ofWord b.word es = b := by
  cases h with
  | named _ | integer _ => nomatch hg
  | enclosed _ hi =>
    rw [group?_of_isInfix hi] at hg
    cases hg
    rw [word_of_isInfix hi]
    rfl
  | conditional | ifPositive =>
    cases hg
    rfl
  | @call f es hf hi hp _ =>
    cases hg
    have named : f ≠ "" := by
      rintro rfl
      nomatch hf
    rw [word, ofWord, if_neg named, if_neg hi, if_neg hp]

/-- What has no list in parentheses is a name or an integer. -/
theorem Primary.eq_atom (h : Primary b) (hg : b.group? = none) :
    (∃ name, isIdentifier name = true ∧ b = .atom (.variable name))
      ∨ ∃ value, b = .atom (.constant (.int value)) := by
  cases h with
  | named hn => exact .inl ⟨_, hn, rfl⟩
  | integer value => exact .inr ⟨value, rfl⟩
  | enclosed _ hi => nomatch (group?_of_isInfix hi).symm.trans hg
  | conditional | ifPositive | call => nomatch hg

/-- What indices stand behind is known by its word and its list in parentheses. -/
theorem Primary.eq_of_word (h : Primary b) (h' : Primary b') (hw : b.word = b'.word)
    (hg : b.group? = b'.group?) : b = b' := by
  cases hlist : b.group? with
  | some es => rw [← h.ofWord_word hlist, hw, h'.ofWord_word (hg.symm.trans hlist)]
  | none =>
    -- a name or an integer against a name or an integer
    rcases h.eq_atom hlist with ⟨name, hn, rfl⟩ | ⟨value, rfl⟩
      <;> rcases h'.eq_atom (hg.symm.trans hlist) with ⟨name', hn', rfl⟩ | ⟨value', rfl⟩
    · rw [show name = name' from hw]
    · exact absurd hw (ne_integer hn value')
    · exact absurd hw.symm (ne_integer hn' value)
    · rw [Int.repr_inj.mp hw]

/-- The words are made of the characters of words. -/
theorem Primary.isWordChar_of_mem_word (h : Primary b) :
    ∀ c ∈ b.word.toList, isWordChar c = true := by
  cases h with
  | named hn =>
    obtain ⟨-, -, -, -, each⟩ := exists_first_of_isIdentifier hn
    exact each
  | call hf _ _ _ =>
    obtain ⟨-, -, -, -, each⟩ := exists_first_of_isIdentifier hf
    exact each
  | integer value =>
    intro c hc
    rcases isDigit_of_mem_integer hc with hd | rfl
    · simp [isWordChar, hd]
    · rfl
  | enclosed _ hi =>
    rw [word_of_isInfix hi]
    nofun
  | conditional | ifPositive => simp [word, isWordChar, isNameStart]

/-- What stands in a list in parentheses is arithmetic. -/
theorem Primary.legible_of_mem_group (h : Primary b) (hg : b.group? = some es) :
    ∀ e ∈ es, Legible e := by
  cases h with
  | named _ | integer _ => nomatch hg
  | enclosed he hi =>
    rw [group?_of_isInfix hi] at hg
    cases hg
    exact List.forall_mem_singleton.mpr he
  | conditional hc ha hb | ifPositive hc ha hb =>
    cases hg
    simp [hc, ha, hb]
  | call _ _ _ hes =>
    cases hg
    exact hes

/-- The characters of a list. -/
def listText (es : List Expr) : List Char := [',', ' '].intercalate (es.map text)

/-- The characters of a list in parentheses, if there is one. -/
def groupText : Option (List Expr) → List Char
  | some es => '(' :: (listText es ++ [')'])
  | none => []

/-- The text of a conditional is its word and the list of its three operands in parentheses. -/
theorem triple_eq (word : String) {opening : String} (ho : opening.toList = word.toList ++ ['('])
    (c a b : Expr) :
    (opening ++ c.render ++ ", " ++ a.render ++ ", " ++ b.render ++ ")").toList
      = word.toList ++ groupText (some [c, a, b]) := by
  simp only [String.toList_append, ho, groupText, listText, text, List.map_cons, List.map_nil,
    List.intercalate_cons_cons, List.intercalate_singleton, List.append_assoc, List.cons_append,
    List.nil_append]
  rfl

/-- The text of what indices stand behind is its word and, if there is one, its list in parentheses.
-/
theorem Primary.operandText_eq (h : Primary b) :
    b.operandText = b.word.toList ++ groupText b.group? := by
  cases h with
  | named _ | integer _ => exact (List.append_nil _).symm
  | enclosed he hi =>
    rw [operandText_of_isInfix hi, word_of_isInfix hi, group?_of_isInfix hi, groupText, listText,
      List.map_singleton, List.intercalate_singleton]
    rfl
  | @conditional c a b hc ha hb => exact triple_eq "If" (by decide) c a b
  | @ifPositive c a b hc ha hb => exact triple_eq "IfPositive" (by decide) c a b
  | @call f es _ _ _ _ =>
    calc (f ++ "(" ++ ", ".intercalate (renderAll es) ++ ")").toList
      _ = f.toList ++ ['('] ++ listText es ++ [')'] := by
        rw [String.toList_append, String.toList_append, String.toList_append,
          String.toList_intercalate, renderAll_eq]
        rfl
      _ = f.toList ++ groupText (some es) := by
        rw [groupText, List.append_assoc, List.append_assoc]
        rfl

/-- The text of what indices stand behind has a first character, which is no closing parenthesis. -/
theorem Primary.exists_first (h : Primary b) : ∃ c rest, b.operandText = c :: rest ∧ c ≠ ')' := by
  rw [h.operandText_eq]
  cases hw : b.word.toList with
  | cons c rest =>
    -- there is a word, and no parenthesis is a part of one
    refine ⟨c, rest ++ groupText b.group?, rfl, ?_⟩
    rintro rfl
    exact absurd (h.isWordChar_of_mem_word ')' (hw ▸ List.mem_cons_self)) (by decide)
  | nil =>
    -- the word is empty: then there is a list in parentheses
    cases hg : b.group? with
    | some es => exact ⟨'(', listText es ++ [')'], rfl, by decide⟩
    | none =>
      have empty : b.word = "" := String.toList_eq_nil_iff.mp hw
      rcases h.eq_atom hg with ⟨name, hn, rfl⟩ | ⟨value, rfl⟩
      · obtain rfl : name = "" := empty
        nomatch hn
      · exact absurd empty (integer_ne_empty value)

/-- The text of arithmetic has a first character, which is no closing parenthesis. -/
theorem Legible.exists_first (h : Legible e) : ∃ c rest, e.text = c :: rest ∧ c ≠ ')' := by
  obtain ⟨first, rest, listed, -⟩ := h.exists_operands
  obtain ⟨c, t, hc, hne⟩ :=
    (h.of_mem_operands first (listed ▸ List.mem_cons_self)).primary.exists_first
  rw [text_eq, listed, intercalate_eq, operandText_eq, hc]
  exact ⟨c, _, rfl, hne⟩

/-- The text of a list is that of the first element, and then the others with a separator before
each. -/
theorem listText_cons (e : Expr) (es : List Expr) :
    listText (e :: es) = e.text ++ separated [',', ' '] text es := intercalate_eq e es

/-! ## What stands behind -/

/-- What may stand behind an expression in a list. -/
def Closes (c : Char) : Prop := c = ',' ∨ c = ')'

/-- What may stand behind an operand. -/
def Ends (c : Char) : Prop := Closes c ∨ c = ' '

/-- What may stand behind an operand without its indices. -/
def Follows (c : Char) : Prop := Ends c ∨ c = '['

theorem Closes.ne_space {c : Char} (h : Closes c) : c ≠ ' ' := by
  rcases h with rfl | rfl <;> decide

theorem Ends.ne_bracket {c : Char} (h : Ends c) : c ≠ '[' := by
  rcases h with (rfl | rfl) | rfl <;> decide

theorem Follows.ne_parenthesis {c : Char} (h : Follows c) : c ≠ '(' := by
  rcases h with ((rfl | rfl) | rfl) | rfl <;> decide

theorem Follows.not_isWordChar {c : Char} (h : Follows c) : ¬isWordChar c = true := by
  rcases h with ((rfl | rfl) | rfl) | rfl <;> decide

/-- A closing parenthesis ends a list of arithmetic: if two lists with one behind read on the same,
they are the same, provided that their elements are delimited. -/
theorem eq_of_listText (hes : ∀ e ∈ es, Legible e) (hes' : ∀ e' ∈ es', Legible e')
    (each : ∀ e ∈ es, ∀ e' ∈ es', Delimited text Closes e e') {r r' : List Char}
    (h : listText es ++ ')' :: r = listText es' ++ ')' :: r') : es = es' ∧ r = r' := by
  -- no list with an element starts with a closing parenthesis
  have starts {e : Expr} {es : List Expr} (he : Legible e) {r r' : List Char} :
      listText (e :: es) ++ r ≠ ')' :: r' := by
    obtain ⟨c, rest, hc, hne⟩ := he.exists_first
    rw [listText_cons, hc]
    exact fun same => hne (List.cons.inj same).1
  match es, es' with
  | [], [] => exact ⟨rfl, (List.cons.inj h).2⟩
  | [], e' :: es' => exact absurd h.symm (starts (hes' e' List.mem_cons_self))
  | e :: es, [] => exact absurd h (starts (hes e List.mem_cons_self))
  | e :: es, e' :: es' =>
    rw [listText_cons, listText_cons] at h
    have behind {r : List Char} : StartsIn (fun c => Closes c ∧ c ≠ ',') (')' :: r) :=
      startsIn_cons.mpr ⟨.inr rfl, by decide⟩
    -- a separator before the first element makes a list one of separators and elements
    have led : separated [',', ' '] text (e :: es) ++ ')' :: r
        = separated [',', ' '] text (e' :: es') ++ ')' :: r' := by
      rw [separated_cons, separated_cons, List.append_assoc, List.append_assoc, List.append_assoc,
        List.append_assoc, ← List.append_assoc e.text, ← List.append_assoc e'.text, h]
    obtain ⟨lists, rest, -⟩ := eq_of_separated (.inl rfl)
      (fun h => ⟨rfl, List.append_cancel_left h⟩) each behind behind led
    exact ⟨lists, (List.cons.inj rest).2⟩

/-- A list in parentheses ends by itself; that there is none is seen from what follows. -/
theorem eq_of_groupText {g g' : Option (List Expr)} {r r' : List Char}
    (lists : ∀ es ∈ g, ∀ es' ∈ g', ∀ {u u' : List Char},
      listText es ++ ')' :: u = listText es' ++ ')' :: u' → es = es' ∧ u = u')
    (hr : StartsIn (· ≠ '(') r) (hr' : StartsIn (· ≠ '(') r')
    (h : groupText g ++ r = groupText g' ++ r') : g = g' ∧ r = r' := by
  match g, g' with
  | none, none => exact ⟨rfl, h⟩
  | none, some es' =>
    obtain rfl : r = '(' :: (listText es' ++ [')'] ++ r') := h
    exact absurd rfl (startsIn_cons.mp hr)
  | some es, none =>
    obtain rfl : r' = '(' :: (listText es ++ [')'] ++ r) := h.symm
    exact absurd rfl (startsIn_cons.mp hr')
  | some es, some es' =>
    rw [groupText, groupText, List.cons_append, List.cons_append, List.append_assoc,
      List.append_assoc] at h
    obtain ⟨-, texts⟩ := List.cons.inj h
    obtain ⟨rfl, rest⟩ := lists es rfl es' rfl texts
    exact ⟨rfl, rest⟩

/-- Operands are delimited by what may stand behind one, if the expressions in their parentheses are
delimited by what may stand behind those. -/
theorem delimited_operand (hx : Legible x) (hx' : Legible x')
    (each : ∀ es ∈ x.base.group?, ∀ es' ∈ x'.base.group?, ∀ e ∈ es, ∀ e' ∈ es',
      Delimited text Closes e e') : Delimited operandText Ends x x' := by
  intro r r' hr hr' h
  have hb := hx.primary
  have hb' := hx'.primary
  rw [operandText_eq x, operandText_eq x', hb.operandText_eq, hb'.operandText_eq,
    List.append_assoc, List.append_assoc, List.append_assoc, List.append_assoc] at h
  have indexed {is : List Nat} {r : List Char} (hr : StartsIn Ends r) :
      StartsIn Follows (separated ['['] indexText is ++ r) :=
    startsIn_separated (.inr rfl) (hr.mono fun _ => .inl) is
  have grouped {g : Option (List Expr)} {t : List Char} (ht : StartsIn Follows t) :
      StartsIn (¬isWordChar · = true) (groupText g ++ t) := by
    cases g with
    | none => exact ht.mono fun _ => Follows.not_isWordChar
    | some es => exact startsIn_cons.mpr (by decide)
  have unopened {t : List Char} (ht : StartsIn Follows t) : StartsIn (· ≠ '(') t :=
    ht.mono fun _ => Follows.ne_parenthesis
  have unindexed {r : List Char} (hr : StartsIn Ends r) : StartsIn (fun c => True ∧ c ≠ '[') r :=
    hr.mono fun _ hc => ⟨trivial, hc.ne_bracket⟩
  -- from left to right: the word, the list in parentheses, the indices
  obtain ⟨words, groupsOn⟩ := eq_of_append hb.isWordChar_of_mem_word hb'.isWordChar_of_mem_word
    (grouped (indexed hr)) (grouped (indexed hr')) h
  obtain ⟨groups, indicesOn⟩ := eq_of_groupText
    (fun es hes es' hes' => eq_of_listText (hb.legible_of_mem_group hes)
      (hb'.legible_of_mem_group hes') (each es hes es' hes'))
    (unopened (indexed hr)) (unopened (indexed hr')) groupsOn
  obtain ⟨indices, rest, -⟩ := eq_of_separated trivial
    (fun h => ⟨rfl, List.append_cancel_left h⟩) (fun i _ i' _ => delimited_index i i')
    (unindexed hr) (unindexed hr') indicesOn
  have bases : x.base = x'.base := hb.eq_of_word hb' (String.toList_inj.mp words) groups
  rw [← foldl_indices x, ← foldl_indices x', bases, indices]
  exact ⟨rfl, rest⟩

/-! ## Expressions -/

/-- An operand is a child, or the expression itself where there is no sign. -/
theorem mem_children_or_of_mem_operands (h : x ∈ e.operands) :
    x ∈ e.children ∨ x = e ∧ e.isInfix = false := by
  cases e with
  | sum | product | quotient | power | comparison => exact .inl h
  | _ => exact .inr ⟨List.mem_singleton.mp h, rfl⟩

/-- What stands in parentheses is a child, or the expression itself where it has a sign. -/
theorem mem_children_or_of_mem_group (hg : b.group? = some es) (h : e ∈ es) :
    e ∈ b.children ∨ e = b ∧ b.isInfix = true := by
  unfold group? at hg
  split at hg
  · cases hg
    exact .inl h
  · cases hg
    exact .inl h
  · cases hg
    exact .inl h
  · split at hg
    next hi =>
      cases hg
      exact .inr ⟨List.mem_singleton.mp h, hi⟩
    next => nomatch hg

/-- What stands in parentheses in an operand `x` of `e` is smaller than `e`: an operand that stands
there itself is either one of several, or it has indices. -/
theorem size_lt_of_mem_group {y : Expr} (hx : x ∈ e.operands) (hg : x.base.group? = some es)
    (hy : y ∈ es) : y.size < e.size := by
  have smaller := size_base_le x
  rcases mem_children_or_of_mem_group hg hy with inside | ⟨rfl, hi⟩
  · -- `y` is a child of what the indices stand behind
    have := size_lt_of_mem_children inside
    rcases mem_children_or_of_mem_operands hx with child | ⟨rfl, -⟩
    · have := size_lt_of_mem_children child
      omega
    · omega
  · -- `y` is what the indices stand behind: the operand is one of several, or there are indices
    rcases mem_children_or_of_mem_operands hx with child | ⟨rfl, hne⟩
    · have := size_lt_of_mem_children child
      omega
    · refine size_base_lt fun same => ?_
      rw [same, hne] at hi
      nomatch hi

/-- Arithmetic is delimited by what may stand behind an expression in a list.  By induction on the
size of the first of the two. -/
theorem delimited_text {e e' : Expr} (h : Legible e) (h' : Legible e') :
    Delimited text Closes e e' := by
  intro r r' hr hr' same
  obtain ⟨first, rest, listed, single⟩ := h.exists_operands
  obtain ⟨first', rest', listed', single'⟩ := h'.exists_operands
  have each : ∀ x ∈ e.operands, ∀ x' ∈ e'.operands, Delimited operandText Ends x x' := by
    intro x hx x' hx'
    have legible := h.of_mem_operands x hx
    have legible' := h'.of_mem_operands x' hx'
    refine delimited_operand legible legible' fun es hes es' hes' y hy y' hy' => ?_
    -- the induction is on the first expression alone: the second one may be of any size
    have : y.size < e.size := size_lt_of_mem_group hx hes hy
    exact delimited_text (legible.primary.legible_of_mem_group hes y hy)
      (legible'.primary.legible_of_mem_group hes' y' hy')
  have behind {s : Option Sign} {rest : List Expr} {r : List Char} (hr : StartsIn Closes r) :
      StartsIn Ends (separated (' ' :: signText s) operandText rest ++ r) :=
    startsIn_separated (.inr rfl) (hr.mono fun _ => .inl) rest
  have unsigned {r : List Char} (hr : StartsIn Closes r) :
      StartsIn (fun c => Ends c ∧ c ≠ ' ') r :=
    hr.mono fun _ hc => ⟨.inl hc, hc.ne_space⟩
  rw [text_eq, text_eq, listed, listed', intercalate_eq, intercalate_eq, List.append_assoc,
    List.append_assoc] at same
  rw [listed, listed'] at each
  -- the first operands are the same, and then the signs with the operands behind
  obtain ⟨firsts, others⟩ := each first List.mem_cons_self first' List.mem_cons_self (behind hr)
    (behind hr') same
  obtain ⟨rests, ends, signs⟩ := eq_of_separated (.inr rfl) eq_of_signText
    (fun x hx x' hx' => each x (List.mem_cons_of_mem first hx) x' (List.mem_cons_of_mem first' hx'))
    (unsigned hr) (unsigned hr') others
  -- a single operand shows no sign, but then there is none
  have sign : e.sign? = e'.sign? := by
    by_cases alone : rest = []
    · rw [single alone, single' (rests ▸ alone)]
    · exact signText_inj (signs alone)
  rw [← combine_operands e, ← combine_operands e', sign, listed, listed', firsts, rests]
  exact ⟨rfl, ends⟩
termination_by e.size

/-- Arithmetic is rendered without ambiguity: two expressions have the same text exactly if they are
the same. -/
theorem render_eq_iff (h : Legible e) (h' : Legible e') : e.render = e'.render ↔ e = e' := by
  refine ⟨fun same => ?_, fun same => congrArg render same⟩
  have texts : e.text ++ [] = e'.text ++ [] := by rw [text, text, same]
  exact (delimited_text h h' .nil .nil texts).1

/-- An index behind a sum in parentheses, and one behind its last term: `(u + v)[1]` is not
`u + v[1]`. -/
theorem render_ne_of_index_of_term :
    (Expr.subscript (.sum [.atom (.variable "u"), .atom (.variable "v")]) 1).render
      ≠ (Expr.sum [.atom (.variable "u"), .subscript (.atom (.variable "v")) 1]).render := by
  have u : Legible (.atom (.variable "u")) := .named (by decide)
  have v : Legible (.atom (.variable "v")) := .named (by decide)
  have outside : Legible (.subscript (.sum [.atom (.variable "u"), .atom (.variable "v")]) 1) :=
    .subscript (.sum (by decide) (by simp [u, v])) 1
  have inside : Legible (.sum [.atom (.variable "u"), .subscript (.atom (.variable "v")) 1]) :=
    .sum (by decide) (by simp [u, v.subscript 1])
  exact mt (render_eq_iff outside inside).mp nofun

end Expr

end OperatorTemplate
