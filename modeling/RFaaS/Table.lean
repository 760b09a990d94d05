/-
This file is the table library: the lookup tables of the development are
Mathlib's association lists with distinct keys. It adds what a C++ map has and
`AList` lacks (an insertion that never overwrites, the question whether any
key refers to a value) and states every lookup after an update as one
conditional.
-/

import Mathlib.Data.List.AList
import Mathlib.Data.Multiset.Filter

/-- A finite map from keys to values. -/
abbrev Table (Key Value : Type) := AList fun _ : Key => Value

namespace Table

variable {Key Value : Type} [DecidableEq Key]

/-- Insertion that leaves an existing entry alone, as `emplace` and `insert` of a map do. -/
def emplace (key : Key) (value : Value) (table : Table Key Value) : Table Key Value :=
  if key ∈ table then table else table.insert key value

/-- Whether some key refers to `value`. -/
def holds [DecidableEq Value] (table : Table Key Value) (value : Value) : Bool :=
  table.entries.any fun entry => decide (entry.2 = value)

theorem lookup_insert_eq (key other : Key) (value : Value) (table : Table Key Value) :
    AList.lookup other (table.insert key value) =
      if other = key then some value else table.lookup other := by
  by_cases same : other = key
  · rw [if_pos same, same, AList.lookup_insert]
  · rw [if_neg same, AList.lookup_insert_ne same]

variable {table : Table Key Value} {value : Value}

/-- What an update of an existing entry leaves alone reads the same for every key. -/
theorem map_lookup_insert {Field : Type} {key : Key} {old new : Value} {field : Value → Field}
    (found : table.lookup key = some old) (same : field new = field old) (other : Key) :
    (AList.lookup other (table.insert key new)).map field = (table.lookup other).map field := by
  rw [lookup_insert_eq]
  split
  · rename_i here
    rw [here, found, Option.map_some, Option.map_some, same]
  · rfl

theorem lookup_erase_eq (key other : Key) (table : Table Key Value) :
    AList.lookup other (table.erase key) = if other = key then none else table.lookup other := by
  by_cases same : other = key
  · rw [if_pos same, same, AList.lookup_erase]
  · rw [if_neg same, AList.lookup_erase_ne same]

theorem lookup_insert_eq_some {key other : Key} {value found : Value} :
    AList.lookup other (table.insert key value) = some found ↔
      other = key ∧ found = value ∨ other ≠ key ∧ table.lookup other = some found := by
  rw [lookup_insert_eq]
  by_cases same : other = key
  · simp [same, eq_comm]
  · simp [same]

theorem lookup_insert_eq_none {key other : Key} :
    AList.lookup other (table.insert key value) = none ↔
      other ≠ key ∧ table.lookup other = none := by
  rw [lookup_insert_eq]
  by_cases same : other = key <;> simp [same]

theorem lookup_erase_eq_some {key other : Key} {found : Value} :
    AList.lookup other (table.erase key) = some found ↔
      other ≠ key ∧ table.lookup other = some found := by
  rw [lookup_erase_eq]
  by_cases same : other = key
  · simp [same]
  · simp [same]

theorem lookup_emplace_of_some {key : Key} {old : Value} (present : table.lookup key = some old)
    (value : Value) : emplace key value table = table := by
  have member : key ∈ table := AList.lookup_isSome.mp (by rw [present]; rfl)
  rw [emplace, if_pos member]

theorem emplace_of_none {key : Key} (absent : table.lookup key = none) (value : Value) :
    emplace key value table = table.insert key value := by
  rw [emplace, if_neg (AList.lookup_eq_none.mp absent)]

/-- Emplacing never loses or changes an entry that is there. -/
theorem lookup_emplace_of_lookup {other : Key} {old : Value}
    (present : table.lookup other = some old) (key : Key) (value : Value) :
    AList.lookup other (emplace key value table) = some old := by
  unfold emplace
  split
  · exact present
  · rename_i absent
    rw [lookup_insert_eq, if_neg, present]
    intro same
    rw [same, AList.lookup_eq_none.mpr absent] at present
    cases present

theorem lookup_emplace_cases {key other : Key} {value found : Value}
    (present : AList.lookup other (emplace key value table) = some found) :
    (other = key ∧ found = value ∧ table.lookup key = none) ∨ table.lookup other = some found := by
  unfold emplace at present
  split at present
  · exact Or.inr present
  · rename_i absent
    rcases lookup_insert_eq_some.mp present with ⟨same, new⟩ | ⟨_, old⟩
    · exact Or.inl ⟨same, new, AList.lookup_eq_none.mpr absent⟩
    · exact Or.inr old

/-- An entry that is emplaced is found, unless another one was there under its key. -/
theorem lookup_emplace_self_iff {key : Key} :
    AList.lookup key (emplace key value table) = some value ↔
      table.lookup key = none ∨ table.lookup key = some value := by
  constructor
  · intro present
    rcases lookup_emplace_cases present with ⟨_, _, absent⟩ | old
    · exact Or.inl absent
    · exact Or.inr old
  · rintro (absent | same)
    · rw [emplace_of_none absent, AList.lookup_insert]
    · exact lookup_emplace_of_lookup same key value

theorem lookup_emplace_self_ne_none (key : Key) (value : Value) (table : Table Key Value) :
    AList.lookup key (emplace key value table) ≠ none := by
  cases found : table.lookup key with
  | none => simp [emplace_of_none found]
  | some old => simp [lookup_emplace_of_lookup found]

theorem lookup_emplace_ne {key other : Key} (different : other ≠ key) (value : Value)
    (table : Table Key Value) :
    AList.lookup other (emplace key value table) = table.lookup other := by
  unfold emplace
  split
  · rfl
  · rw [lookup_insert_eq, if_neg different]

theorem forall_lookup_iff {property : Key → Value → Prop} :
    (∀ entry ∈ table.entries, property entry.1 entry.2) ↔
      ∀ key value, table.lookup key = some value → property key value := by
  constructor
  · intro all key value found
    exact all ⟨key, value⟩ (AList.mem_lookup_iff.mp found)
  · rintro all ⟨key, value⟩ member
    exact all key value (AList.mem_lookup_iff.mpr member)

/-- What all entries have in common can be decided entry by entry. -/
def decidableForallLookup (table : Table Key Value) (property : Key → Value → Prop)
    [∀ key value, Decidable (property key value)] :
    Decidable (∀ key value, table.lookup key = some value → property key value) :=
  @decidable_of_iff _ _ forall_lookup_iff (List.decidableBAll _ _)

/-- So can what the keys of one value have in common. -/
def decidableForallKey [DecidableEq Value] (table : Table Key Value) (value : Value)
    (property : Key → Prop) [DecidablePred property] :
    Decidable (∀ key, table.lookup key = some value → property key) :=
  @decidable_of_iff _ (∀ key found, table.lookup key = some found → found = value → property key)
    (by
      constructor
      · intro all key here
        exact all key value here rfl
      · rintro all key found here rfl
        exact all key here)
    (decidableForallLookup table fun key found => found = value → property key)

/-! ### The values of a table -/

/-- The values of a table, each as often as a key refers to it. -/
def values (table : Table Key Value) : Multiset Value :=
  (table.entries.map fun entry => entry.2 : List Value)

theorem values_insert (key : Key) (value : Value) (table : Table Key Value) :
    values (table.insert key value) = value ::ₘ values (table.erase key) := by
  rw [values, AList.entries_insert]
  rfl

theorem values_of_lookup {key : Key} (found : table.lookup key = some value) :
    values table = value ::ₘ values (table.erase key) := by
  have member : key ∈ table.entries.keys := AList.lookup_isSome.mp (by rw [found]; rfl)
  obtain ⟨old, before, after, fresh, split, erased⟩ := List.exists_of_kerase member
  have same : old = value := by
    have entry : (⟨key, old⟩ : Sigma fun _ : Key => Value) ∈ table.entries := by
      rw [split]
      exact List.mem_append_right _ List.mem_cons_self
    have again : table.lookup key = some old := AList.mem_lookup_iff.mpr entry
    rw [found] at again
    exact (Option.some.inj again).symm
  have rest : (table.erase key).entries = before ++ after := erased
  rw [values, values, rest, split, same, Multiset.cons_coe, Multiset.coe_eq_coe]
  simp only [List.map_append, List.map_cons]
  exact List.perm_middle

theorem erase_of_none {key : Key} (absent : table.lookup key = none) : table.erase key = table :=
  AList.ext (List.kerase_of_notMem_keys (AList.lookup_eq_none.mp absent))

theorem erase_insert_self (key : Key) (value : Value) (table : Table Key Value) :
    AList.erase key (table.insert key value) = table.erase key := by
  refine AList.ext ?_
  show List.kerase key (AList.insert key value table).entries = List.kerase key table.entries
  rw [AList.entries_insert]
  exact List.kerase_cons_eq rfl

theorem mem_values : value ∈ values table ↔ ∃ key, table.lookup key = some value := by
  simp only [values, Multiset.mem_coe, List.mem_map]
  constructor
  · rintro ⟨⟨key, found⟩, member, rfl⟩
    exact ⟨key, AList.mem_lookup_iff.mpr member⟩
  · rintro ⟨key, found⟩
    exact ⟨⟨key, value⟩, AList.mem_lookup_iff.mp found, rfl⟩

/-- When only some of the values can be found any more, these are the values that are left. -/
theorem values_of_lookup_filter {before after : Table Key Value} {keep : Value → Bool}
    (kept : ∀ key, after.lookup key = (before.lookup key).filter keep) :
    values after = (values before).filter fun value => keep value = true := by
  have entries : after.entries.Perm (before.entries.filter fun entry => keep entry.2) := by
    refine (List.perm_ext_iff_of_nodup after.nodupKeys.nodup
      (before.nodupKeys.nodup.filter _)).mpr ?_
    rintro ⟨key, value⟩
    have left : (⟨key, value⟩ : Sigma fun _ : Key => Value) ∈ after.entries ↔
        after.lookup key = some value := AList.mem_lookup_iff.symm
    have right : (⟨key, value⟩ : Sigma fun _ : Key => Value) ∈ before.entries ↔
        before.lookup key = some value := AList.mem_lookup_iff.symm
    rw [List.mem_filter, left, right, kept key, Option.filter_eq_some_iff]
  rw [values, values, Multiset.filter_coe, Multiset.coe_eq_coe]
  refine (entries.map _).trans (List.Perm.of_eq ?_)
  rw [List.filter_map]
  simp [Function.comp_def]

/-! ### Entries found by their place in a list -/

/-- What a change of one entry leaves in its list. -/
theorem getElem?_modify_cases {entries : List Value} {change : Value → Value} {place index : Nat}
    {entry : Value} (here : (entries.modify place change)[index]? = some entry) :
    ∃ before, entries[index]? = some before ∧
      (place = index ∧ entry = change before ∨ place ≠ index ∧ entry = before) := by
  rw [List.getElem?_modify] at here
  obtain ⟨before, there, changed⟩ := Option.map_eq_some_iff.mp here
  refine ⟨before, there, ?_⟩
  by_cases same : place = index
  · exact Or.inl ⟨same, by rw [← changed, if_pos same]⟩
  · exact Or.inr ⟨same, by rw [← changed, if_neg same]⟩

theorem forall_mem_modify {entries : List Value} {change : Value → Value}
    {property : Value → Prop} (all : ∀ entry ∈ entries, property entry) {place : Nat}
    (changed : ∀ entry, entries[place]? = some entry → property entry → property (change entry)) :
    ∀ entry ∈ entries.modify place change, property entry := by
  intro entry member
  obtain ⟨index, here⟩ := List.mem_iff_getElem?.mp member
  obtain ⟨before, there, ⟨rfl, rfl⟩ | ⟨_, rfl⟩⟩ := getElem?_modify_cases here
  · exact changed before there (all before (List.mem_of_getElem? there))
  · exact all entry (List.mem_of_getElem? there)

/-- An entry that is taken out of a list, put back at its head. -/
theorem cons_eraseIdx_perm {entries : List Value} {place : Nat} {entry : Value}
    (here : entries[place]? = some entry) : (entry :: entries.eraseIdx place).Perm entries := by
  obtain ⟨bound, rfl⟩ := List.getElem?_eq_some_iff.mp here
  exact List.getElem_cons_eraseIdx_perm bound

theorem drop_length_take (entries : List Value) (count : Nat) :
    entries.drop (entries.take count).length = entries.drop count := by
  rw [List.length_take]
  rcases Nat.le_total count entries.length with inside | beyond
  · rw [Nat.min_eq_left inside]
  · rw [Nat.min_eq_right beyond, List.drop_length, List.drop_eq_nil_of_le beyond]

theorem modify_append_singleton (entries : List Value) (last : Value) (change : Value → Value) :
    (entries ++ [last]).modify entries.length change = entries ++ [change last] := by
  induction entries with
  | nil => rfl
  | cons entry rest inductionHypothesis =>
    exact congrArg (entry :: ·) inductionHypothesis

/-! ### Whether a value is referred to -/

variable [DecidableEq Value]

theorem holds_iff : holds table value = true ↔ ∃ key, table.lookup key = some value := by
  simp only [holds, List.any_eq_true, decide_eq_true_eq]
  constructor
  · rintro ⟨⟨key, found⟩, member, same⟩
    exact ⟨key, by rw [← same]; exact AList.mem_lookup_iff.mpr member⟩
  · rintro ⟨key, found⟩
    exact ⟨⟨key, value⟩, AList.mem_lookup_iff.mp found, rfl⟩

theorem holds_of_lookup {key : Key} (found : table.lookup key = some value) :
    holds table value = true :=
  holds_iff.mpr ⟨key, found⟩

theorem holds_of_holds_erase {key : Key} (held : holds (table.erase key) value = true) :
    holds table value = true := by
  obtain ⟨place, found⟩ := holds_iff.mp held
  exact holds_of_lookup (lookup_erase_eq_some.mp found).2

end Table
