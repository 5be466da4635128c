import Mathlib.Data.List.Basic
/-!
# Texts that end by themselves

Where texts stand one after the other, they can be told apart if each shows where it ends.  A text
shows it by what follows: two texts are *delimited* by a class of characters if, with such a
character behind each or nothing at all, they only read on the same if they are the same
(`Delimited`).

Two kinds of texts are put together from parts.  Words are delimited by all other characters
(`eq_of_append`), by induction on both words at once.  Lists with a separator before each element
are delimited by what delimits their elements, the first character of the separator excepted
(`eq_of_separated`): that character behind an element says that another element follows.
-/

namespace OperatorTemplate.Text

variable {α : Type}

/-- A text that starts with a character of the class, or is empty. -/
def StartsIn (p : Char → Prop) (rest : List Char) : Prop := ∀ c ∈ rest.head?, p c

/-- The empty text starts in every class. -/
theorem StartsIn.nil {p : Char → Prop} : StartsIn p [] := nofun

/-- A text starts in the class of its first character. -/
theorem startsIn_cons {p : Char → Prop} {c : Char} {rest : List Char} :
    StartsIn p (c :: rest) ↔ p c :=
  ⟨fun h => h c rfl, fun h _ hd => Option.some.inj hd ▸ h⟩

/-- A text that starts in a class starts in every larger one. -/
theorem StartsIn.mono {p q : Char → Prop} {rest : List Char} (h : StartsIn p rest)
    (hpq : ∀ c, p c → q c) : StartsIn q rest := fun c hc => hpq c (h c hc)

/-- Continued by characters of the class, or by nothing, the texts of `x` and `x'` differ unless `x`
and `x'` are the same. -/
def Delimited (text : α → List Char) (p : Char → Prop) (x x' : α) : Prop :=
  ∀ ⦃r r' : List Char⦄, StartsIn p r → StartsIn p r' → text x ++ r = text x' ++ r' → x = x' ∧ r = r'

/-! ## Words -/

/-- Let `u` and `u'` be made of characters of a class, and let `r` and `r'` start with others, or be
empty.  If `u ++ r` and `u' ++ r'` are the same, then so are the words and what is behind. -/
theorem eq_of_append {p : Char → Prop} {u u' r r' : List Char} (hu : ∀ c ∈ u, p c)
    (hu' : ∀ c ∈ u', p c) (hr : StartsIn (¬p ·) r) (hr' : StartsIn (¬p ·) r')
    (h : u ++ r = u' ++ r') : u = u' ∧ r = r' := by
  induction u generalizing u' with
  | nil =>
    cases u' with
    | nil => exact ⟨rfl, h⟩
    | cons c u' =>
      -- the first word has ended, so what is behind it starts with a character of the second
      obtain rfl : r = c :: (u' ++ r') := h
      exact absurd (hu' c List.mem_cons_self) (startsIn_cons.mp hr)
  | cons c u ih =>
    cases u' with
    | nil =>
      obtain rfl : r' = c :: (u ++ r) := h.symm
      exact absurd (hu c List.mem_cons_self) (startsIn_cons.mp hr')
    | cons c' u' =>
      -- both words go on, with the same character
      obtain ⟨rfl, tails⟩ := List.cons.inj h
      obtain ⟨rfl, rest⟩ := ih (fun d hd => hu d (List.mem_cons_of_mem c hd))
        (fun d hd => hu' d (List.mem_cons_of_mem c hd)) tails
      exact ⟨rfl, rest⟩

/-! ## Lists -/

/-- Texts one after the other, with a separator before each. -/
def separated (separator : List Char) (text : α → List Char) (xs : List α) : List Char :=
  xs.flatMap fun x => separator ++ text x

/-- The first element with a separator before it, and then the others. -/
theorem separated_cons {separator : List Char} {text : α → List Char} {x : α} {xs : List α} :
    separated separator text (x :: xs) = separator ++ text x ++ separated separator text xs :=
  List.flatMap_cons

/-- Separators between the elements are separators before all but the first. -/
theorem intercalate_eq {separator : List Char} {text : α → List Char} (x : α) (xs : List α) :
    separator.intercalate ((x :: xs).map text) = text x ++ separated separator text xs := by
  induction xs generalizing x with
  | nil => exact (List.intercalate_singleton ..).trans (List.append_nil _).symm
  | cons y ys ih =>
    rw [List.map_cons, List.map_cons, List.intercalate_cons_cons, separated_cons, List.append_assoc,
      List.append_assoc, ← ih y]
    rfl

/-- What starts in a class with the separator and with what is behind the list does so with the
list, be it empty or not. -/
theorem startsIn_separated {p : Char → Prop} {d : Char} {separator r : List Char}
    {text : α → List Char} (hd : p d) (hr : StartsIn p r) (xs : List α) :
    StartsIn p (separated (d :: separator) text xs ++ r) := by
  cases xs with
  | nil => exact hr
  | cons x xs => exact startsIn_cons.mpr hd

/-- Two lists whose separators start with the same character `d`, and with something else than `d`
behind: if they read on the same, the elements are the same, and so are the separators if there are
any. -/
theorem eq_of_separated {text : α → List Char} {p : Char → Prop} {d : Char} {s s' : List Char}
    (hd : p d) (hs : ∀ {u u' : List Char}, s ++ u = s' ++ u' → s = s' ∧ u = u') {xs xs' : List α}
    {r r' : List Char} (each : ∀ x ∈ xs, ∀ x' ∈ xs', Delimited text p x x')
    (hr : StartsIn (fun c => p c ∧ c ≠ d) r) (hr' : StartsIn (fun c => p c ∧ c ≠ d) r')
    (h : separated (d :: s) text xs ++ r = separated (d :: s') text xs' ++ r') :
    xs = xs' ∧ r = r' ∧ (xs ≠ [] → s = s') := by
  induction xs generalizing xs' with
  | nil =>
    cases xs' with
    | nil => exact ⟨rfl, h, fun hne => absurd rfl hne⟩
    | cons x xs' =>
      -- one list has ended, so what is behind it starts with the separator of the other
      obtain rfl : r = d :: (s' ++ text x ++ separated (d :: s') text xs' ++ r') := h
      exact absurd rfl (startsIn_cons.mp hr).2
  | cons x xs ih =>
    cases xs' with
    | nil =>
      obtain rfl : r' = d :: (s ++ text x ++ separated (d :: s) text xs ++ r) := h.symm
      exact absurd rfl (startsIn_cons.mp hr').2
    | cons x' xs' =>
      -- both lists go on: the separators are the same, then the elements, then the rest
      have behind {s r : List Char} (hr : StartsIn (fun c => p c ∧ c ≠ d) r) (xs : List α) :
          StartsIn p (separated (d :: s) text xs ++ r) :=
        startsIn_separated hd (hr.mono fun _ h => h.1) xs
      rw [separated_cons, separated_cons, List.append_assoc, List.append_assoc, List.append_assoc,
        List.append_assoc] at h
      obtain ⟨rfl, texts⟩ := hs (List.cons.inj h).2
      obtain ⟨rfl, tails⟩ := each x List.mem_cons_self x' List.mem_cons_self (behind hr xs)
        (behind hr' xs') texts
      obtain ⟨rfl, rest, -⟩ := ih (fun y hy y' hy' =>
        each y (List.mem_cons_of_mem x hy) y' (List.mem_cons_of_mem x hy')) tails
      exact ⟨rfl, rest, fun _ => rfl⟩

end OperatorTemplate.Text
