import Mathlib.Data.List.Induction
import Mathlib.Data.List.Nodup
import OperatorTemplate.Table
/-!
# Entries of tables

The list of entries of a table holds what look-ups find: `(key, value)` is in `toList` exactly if
`get? key` answers `some value` (`mem_toList`), and no key is there twice (`nodup_keys_toList`).

A table made of a list finds the value that the list gives last for a key (`get?_ofList_eq_lookup`).
Where no key is repeated, the list and the table say the same (`get?_ofList`).

Values under two different keys can be put in either order if one of the keys is present
(`insert_comm`).  If neither is, both orders find the same but list it differently: the order of the
entries is that of the first insertions.
-/

namespace OperatorTemplate

variable {α β : Type} [DecidableEq α]

namespace Entries

/-- Where keys are distinct, a look-up for `key` answers `value` exactly if the pair of them is an
entry. -/
theorem get?_eq_some_iff {key : α} {value : β} {entries : List (α × β)}
    (h : (entries.map (·.1)).Nodup) : get? key entries = some value ↔ (key, value) ∈ entries := by
  induction entries with
  | nil => exact ⟨nofun, nofun⟩
  | cons entry rest ih =>
    obtain ⟨k, old⟩ := entry
    obtain ⟨hk, hrest⟩ := List.nodup_cons.mp h
    by_cases hkey : k = key
    · subst hkey
      -- the first entry has the key, and by distinctness no other has it
      have absent : (k, value) ∉ rest := fun hm => hk (List.mem_map.mpr ⟨_, hm, rfl⟩)
      simp [get?, absent, eq_comm]
    · simp [get?, hkey, Ne.symm hkey, ih hrest]

/-- Insertions under distinct keys `key` and `key'` commute if `key` has an entry: it is then
replaced in place, and only `key'` can be appended. -/
theorem insert_comm {key key' : α} (value value' : β) {entries : List (α × β)} (hne : key ≠ key')
    (h : key ∈ entries.map (·.1)) :
    insert key value (insert key' value' entries)
      = insert key' value' (insert key value entries) := by
  induction entries with
  | nil => nomatch h
  | cons entry rest ih =>
    obtain ⟨k, old⟩ := entry
    by_cases hk : k = key
    · -- the first entry is the one of `key`: the other insertion passes it by
      subst hk
      simp only [insert, if_neg hne, if_true]
    · have hrest : key ∈ rest.map (·.1) := (List.mem_cons.mp h).resolve_left (Ne.symm hk)
      by_cases hk' : k = key'
      · -- the first entry is the one of `key'`
        subst hk'
        simp only [insert, if_neg hk, if_true]
      · simp only [insert, if_neg hk, if_neg hk', ih hrest]

end Entries

namespace Table

variable [Fingerprint α]

/-- The list of entries holds `(key, value)` exactly if the look-up for `key` answers `value`. -/
theorem mem_toList {table : Table α β} {key : α} {value : β} :
    (key, value) ∈ table.toList ↔ table.get? key = some value := by
  rw [get?, Entries.get?_eq_some_iff table.nodup_keys, toList, List.mem_map]
  constructor
  · rintro ⟨⟨marked, value⟩, hm, h⟩
    cases h
    rwa [← Marked.value_inj.mp (show marked.value = (Marked.of marked.value).value from rfl)]
  · intro hm
    exact ⟨_, hm, rfl⟩

omit [DecidableEq α] in
/-- The keys of the list of entries are distinct, as the marked keys of the table are. -/
theorem nodup_keys_toList (table : Table α β) : (table.toList.map (·.1)).Nodup := by
  have h : table.toList.map (·.1) = (table.entries.map (·.1)).map Marked.value := by
    rw [toList, List.map_map, List.map_map]
    rfl
  rw [h]
  exact table.nodup_keys.map fun _ _ => Marked.value_inj.mp

/-- The table of a list finds the value that the list gives last for `key`. -/
theorem get?_ofList_eq_lookup (entries : List (α × β)) (key : α) :
    (ofList entries).get? key = entries.reverse.lookup key := by
  induction entries using List.reverseRecOn with
  | nil => rfl
  | append_singleton entries entry ih =>
    obtain ⟨k, value⟩ := entry
    rw [ofList, List.foldl_append, List.reverse_append]
    show ((ofList entries).insert k value).get? key = List.lookup key ((k, value) :: entries.reverse)
    by_cases hk : key = k
    · subst hk
      rw [get?_insert_self, List.lookup_cons_self]
    · rw [get?_insert_of_ne _ hk, ih, List.lookup_cons, beq_false_of_ne hk]

/-- The table of a list with distinct keys has the entries of the list.  By induction on the list,
for any table that the entries are put into: an entry of the list wins, and what was in the table
shows for the keys that the list does not have. -/
theorem get?_ofList {entries : List (α × β)} (h : (entries.map (·.1)).Nodup) {key : α} {value : β} :
    (ofList entries).get? key = some value ↔ (key, value) ∈ entries := by
  have folded (table : Table α β) :
      (entries.foldl (fun table entry => table.insert entry.1 entry.2) table).get? key = some value
        ↔ (key, value) ∈ entries
          ∨ key ∉ entries.map (·.1) ∧ table.get? key = some value := by
    induction entries generalizing table with
    | nil => simp
    | cons entry rest ih =>
      obtain ⟨k, v⟩ := entry
      obtain ⟨hk, hrest⟩ := List.nodup_cons.mp h
      rw [List.foldl_cons, ih hrest]
      by_cases hkey : key = k
      · subst hkey
        have absent : (key, value) ∉ rest := fun hm => hk (List.mem_map.mpr ⟨_, hm, rfl⟩)
        simp [absent, hk, eq_comm]
      · simp [get?_insert_of_ne _ hkey, hkey]
  rw [ofList, folded]
  simp

/-- Values under distinct keys `key` and `key'` can be put in either order if `key` is present, and
the tables are equal, the order of their entries included. -/
theorem insert_comm {table : Table α β} {key key' : α} (value value' : β) (hne : key ≠ key')
    (h : table.get? key ≠ none) :
    (table.insert key' value').insert key value = (table.insert key value).insert key' value' := by
  have present : Marked.of key ∈ table.entries.map (·.1) := by
    by_contra absent
    exact h (Entries.get?_eq_none_iff.mpr absent)
  have same := Entries.insert_comm value value' (mt Marked.of_inj.mp hne) present
  simp only [insert, same]

end Table

end OperatorTemplate
