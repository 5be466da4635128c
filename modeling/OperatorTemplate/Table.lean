/-!
# Tables

A finite map as a list of entries with distinct keys, in the order in which the keys first arrived.
Inserting under a present key replaces its value in place.

An insertion is described by what it does to look-ups and to keys: `get? key` of `insert key value`
is `some value` (`get?_insert_self`), any other look-up is what it was (`get?_insert_of_ne`), and
the list of keys is the same if the key is present (`keys_insert_of_mem`) and has it at the end if
it is not (`keys_insert_of_not_mem`).  The last two carry the invariant of `Table`: keys stay
distinct (`nodup_keys_insert`).

Keys may be large and alike, so each is kept with a fingerprint (`Marked`): a look-up computes the
fingerprint of its key once and compares in full only the keys that share it.
-/

namespace OperatorTemplate

/-- A number that tells many values of a type apart and costs little. -/
class Fingerprint (α : Type) where
  fingerprint : α → Nat

instance : Fingerprint String := ⟨String.utf8ByteSize⟩

/-- A value with its fingerprint. -/
structure Marked (α : Type) [Fingerprint α] where
  value : α
  mark : Nat
  mark_eq : mark = Fingerprint.fingerprint value

namespace Marked

variable {α : Type} [Fingerprint α]

/-- Puts the fingerprint to a value. -/
def of (value : α) : Marked α := ⟨value, Fingerprint.fingerprint value, rfl⟩

/-- Two marked values `a` and `b` are equal exactly if their values are: the mark is determined by
the value. -/
theorem value_inj {a b : Marked α} : a.value = b.value ↔ a = b := by
  refine ⟨fun h => ?_, fun h => h ▸ rfl⟩
  obtain ⟨value, mark, rfl⟩ := a
  obtain ⟨value', mark', rfl⟩ := b
  cases h
  rfl

theorem of_inj {a b : α} : of a = of b ↔ a = b := value_inj.symm

/-- Fingerprints are compared before values. -/
instance [DecidableEq α] : DecidableEq (Marked α) := fun a b =>
  if h : a.mark = b.mark then decidable_of_iff (a.value = b.value) value_inj
  else isFalse fun e => h (e ▸ rfl)

end Marked

variable {α β : Type} [DecidableEq α]

namespace Entries

/-- The value stored under a key. -/
def get? (key : α) : List (α × β) → Option β
  | [] => none
  | (k, value) :: rest => if k = key then some value else get? key rest

/-- Replaces the value of a key, or appends a new entry. -/
def insert (key : α) (value : β) : List (α × β) → List (α × β)
  | [] => [(key, value)]
  | (k, old) :: rest => if k = key then (k, value) :: rest else (k, old) :: insert key value rest

/-- The value found under `key` after an insertion under `key` is the one inserted, be the key new
or not. -/
theorem get?_insert_self (key : α) (value : β) (entries : List (α × β)) :
    get? key (insert key value entries) = some value := by
  induction entries with
  | nil => simp [insert, get?]
  | cons entry rest ih =>
    obtain ⟨k, old⟩ := entry
    by_cases h : k = key <;> simp [insert, get?, h, ih]

/-- An insertion under `key` does not change what is found under any `other` key. -/
theorem get?_insert_of_ne {key other : α} (h : other ≠ key) (value : β)
    (entries : List (α × β)) : get? other (insert key value entries) = get? other entries := by
  induction entries with
  | nil => simp [insert, get?, Ne.symm h]
  | cons entry rest ih =>
    obtain ⟨k, old⟩ := entry
    by_cases hk : k = key
    · subst hk
      simp [insert, get?, Ne.symm h]
    · simp [insert, get?, hk, ih]

/-- Nothing is found under `key` exactly if no entry has that key. -/
theorem get?_eq_none_iff {key : α} {entries : List (α × β)} :
    get? key entries = none ↔ key ∉ entries.map (·.1) := by
  induction entries with
  | nil => simp [get?]
  | cons entry rest ih =>
    obtain ⟨k, old⟩ := entry
    by_cases hk : k = key
    · -- the first entry has the key, so something is found and the key is listed
      simp [get?, hk]
    · simp [get?, hk, ih, Ne.symm hk]

/-- An insertion under a key that is present replaces a value in place: the keys `entries.map (·.1)`
and their order are those of before. -/
theorem keys_insert_of_mem {key : α} (value : β) {entries : List (α × β)}
    (h : key ∈ entries.map (·.1)) : (insert key value entries).map (·.1) = entries.map (·.1) := by
  induction entries with
  | nil => cases h
  | cons entry rest ih =>
    obtain ⟨k, old⟩ := entry
    by_cases hk : k = key
    · simp [insert, hk]
    · -- the first entry has another key: `key` is among the rest, and the replacement happens there
      have : key ∈ rest.map (·.1) := by
        rcases List.mem_cons.mp h with h | h
        · exact absurd h.symm hk
        · exact h
      simp only [insert, if_neg hk, List.map_cons, ih this]

/-- An insertion under a key that is absent appends an entry: `key` joins the keys at their end. -/
theorem keys_insert_of_not_mem {key : α} (value : β) {entries : List (α × β)}
    (h : key ∉ entries.map (·.1)) :
    (insert key value entries).map (·.1) = entries.map (·.1) ++ [key] := by
  induction entries with
  | nil => simp [insert]
  | cons entry rest ih =>
    obtain ⟨k, old⟩ := entry
    simp only [List.map_cons, List.mem_cons, not_or] at h
    simp only [insert, if_neg (Ne.symm h.1), List.map_cons, ih h.2, List.cons_append]

/-- Distinct keys stay distinct under an insertion: the list of keys is unchanged, or it is longer
by a key that was absent. -/
theorem nodup_keys_insert (key : α) (value : β) {entries : List (α × β)}
    (h : (entries.map (·.1)).Nodup) : ((insert key value entries).map (·.1)).Nodup := by
  by_cases hk : key ∈ entries.map (·.1)
  · rwa [keys_insert_of_mem value hk]
  · rw [keys_insert_of_not_mem value hk, List.nodup_append]
    refine ⟨h, by simp, ?_⟩
    intro a ha b hb
    rw [List.mem_singleton] at hb
    subst hb
    exact fun e => hk (e ▸ ha)

end Entries

/-- A finite map from `α` to `β`. -/
structure Table (α β : Type) [Fingerprint α] where
  entries : List (Marked α × β)
  nodup_keys : (entries.map (·.1)).Nodup

namespace Table

variable [Fingerprint α]

/-- The table without entries. -/
def empty : Table α β := ⟨[], List.nodup_nil⟩

/-- The value stored under a key, if there is one. -/
def get? (table : Table α β) (key : α) : Option β := Entries.get? (Marked.of key) table.entries

/-- Stores a value under a key, in place of the value that was there. -/
def insert (table : Table α β) (key : α) (value : β) : Table α β :=
  ⟨Entries.insert (Marked.of key) value table.entries,
    Entries.nodup_keys_insert (Marked.of key) value table.nodup_keys⟩

/-- The keys and their values. -/
def toList (table : Table α β) : List (α × β) :=
  table.entries.map fun entry => (entry.1.value, entry.2)

/-- The number of entries. -/
def size (table : Table α β) : Nat := table.entries.length

/-- The table of a list of entries, of which the last for a key counts. -/
def ofList (entries : List (α × β)) : Table α β :=
  entries.foldl (fun table entry => table.insert entry.1 entry.2) empty

@[simp] theorem get?_empty (key : α) : (empty : Table α β).get? key = none := rfl

/-- The value found under `key` after `insert key value` is `value`. -/
@[simp] theorem get?_insert_self (table : Table α β) (key : α) (value : β) :
    (table.insert key value).get? key = some value :=
  Entries.get?_insert_self (Marked.of key) value table.entries

/-- What is found under an `other` key is unaffected by an insertion under `key`. -/
theorem get?_insert_of_ne (table : Table α β) {key other : α} (h : other ≠ key) (value : β) :
    (table.insert key value).get? other = table.get? other :=
  Entries.get?_insert_of_ne (mt Marked.of_inj.mp h) value table.entries

/-- A value `found` under `other` after `value` was put under `key` is that `value`, with
`other = key`, or was found there before, with `other ≠ key`. -/
theorem get?_insert_cases {table : Table α β} {key other : α} {value found : β}
    (h : (table.insert key value).get? other = some found) :
    (other = key ∧ found = value) ∨ (other ≠ key ∧ table.get? other = some found) := by
  by_cases hk : other = key
  · rw [hk, get?_insert_self] at h
    exact .inl ⟨hk, (Option.some.inj h).symm⟩
  · rw [get?_insert_of_ne _ hk] at h
    exact .inr ⟨hk, h⟩

end Table

end OperatorTemplate
