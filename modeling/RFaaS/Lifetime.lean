/-
This file is the lifetime library: traces of accesses to objects that are
released by hand. A trace is clean when no object is used or freed after it was
freed.

Objects have owners. What an operation does with the objects it owns is stated
as one relation (`Settles`): it touches only objects that were owned before, and
what is owned afterwards and what it freed were different objects of those. Such
operations compose, other owners do not disturb them, and they extend every
clean history. So a program that only touches what it owns is clean, and only
its accesses through pointers that own nothing have to be looked at.

The owners of a server are the entries of a queue and the values of a table.
-/

import Mathlib.Algebra.Order.Group.Multiset
import Mathlib.Data.Multiset.Bind
import Mathlib.Data.Multiset.UnionInter
import RFaaS.Table

/-- An access to an object. -/
inductive Access (Object : Type*)
  | use (object : Object)
  | free (object : Object)

namespace Lifetime

variable {Object : Type*}

/-- The objects that a trace frees. -/
def freed : List (Access Object) → List Object
  | [] => []
  | .use _ :: rest => freed rest
  | .free object :: rest => object :: freed rest

/-- The objects that a trace uses or frees. -/
def touched : List (Access Object) → List Object
  | [] => []
  | .use object :: rest | .free object :: rest => object :: touched rest

/-- No access is to an object that was freed before, or that is `dead` from the beginning. -/
def Clean (dead : List Object) : List (Access Object) → Prop
  | [] => True
  | .use object :: rest => object ∉ dead ∧ Clean dead rest
  | .free object :: rest => object ∉ dead ∧ Clean (object :: dead) rest

instance decidableClean [DecidableEq Object] (dead : List Object)
    (trace : List (Access Object)) : Decidable (Clean dead trace) :=
  match trace with
  | [] => .isTrue trivial
  | .use object :: rest =>
    haveI := decidableClean dead rest
    inferInstanceAs (Decidable (object ∉ dead ∧ Clean dead rest))
  | .free object :: rest =>
    haveI := decidableClean (object :: dead) rest
    inferInstanceAs (Decidable (object ∉ dead ∧ Clean (object :: dead) rest))

@[simp] theorem freed_append (first second : List (Access Object)) :
    freed (first ++ second) = freed first ++ freed second := by
  induction first with
  | nil => rfl
  | cons access rest inductionHypothesis =>
    cases access with
    | use object => exact inductionHypothesis
    | free object => exact congrArg (object :: ·) inductionHypothesis

@[simp] theorem touched_append (first second : List (Access Object)) :
    touched (first ++ second) = touched first ++ touched second := by
  induction first with
  | nil => rfl
  | cons access rest inductionHypothesis =>
    cases access <;> exact congrArg (_ :: ·) inductionHypothesis

variable (objects : List Object)

@[simp] theorem freed_map_free : freed (objects.map .free) = objects := by
  induction objects with
  | nil => rfl
  | cons object rest inductionHypothesis => exact congrArg (object :: ·) inductionHypothesis

@[simp] theorem touched_map_free : touched (objects.map .free) = objects := by
  induction objects with
  | nil => rfl
  | cons object rest inductionHypothesis => exact congrArg (object :: ·) inductionHypothesis

@[simp] theorem freed_map_use : freed (objects.map .use) = [] := by
  induction objects with
  | nil => rfl
  | cons object rest inductionHypothesis => exact inductionHypothesis

@[simp] theorem touched_map_use : touched (objects.map .use) = objects := by
  induction objects with
  | nil => rfl
  | cons object rest inductionHypothesis => exact congrArg (object :: ·) inductionHypothesis

theorem clean_map_use : Clean [] (objects.map .use) := by
  induction objects with
  | nil => trivial
  | cons object rest inductionHypothesis => exact ⟨List.not_mem_nil, inductionHypothesis⟩

/-- Objects that are dead from the beginning must not be touched at all. -/
theorem clean_append_dead {first second : List Object} {trace : List (Access Object)} :
    Clean (first ++ second) trace ↔
      Clean first trace ∧ ∀ object ∈ touched trace, object ∉ second := by
  induction trace generalizing first with
  | nil => simp [Clean, touched]
  | cons access rest inductionHypothesis =>
    cases access with
    | use object =>
      simp only [Clean, touched, inductionHypothesis, List.mem_append, List.forall_mem_cons]
      tauto
    | free object =>
      have tail := @inductionHypothesis (object :: first)
      rw [List.cons_append] at tail
      simp only [Clean, touched, tail, List.mem_append, List.forall_mem_cons]
      tauto

theorem clean_iff {dead : List Object} {trace : List (Access Object)} :
    Clean dead trace ↔ Clean [] trace ∧ ∀ object ∈ touched trace, object ∉ dead :=
  @clean_append_dead _ [] dead trace

theorem clean_append {dead : List Object} {first second : List (Access Object)} :
    Clean dead (first ++ second) ↔
      Clean dead first ∧ Clean dead second ∧ ∀ object ∈ touched second, object ∉ freed first := by
  induction first generalizing dead with
  | nil => simp [Clean, freed]
  | cons access rest inductionHypothesis =>
    cases access with
    | use object =>
      simp only [List.cons_append, Clean, freed, inductionHypothesis, and_assoc]
    | free object =>
      have one : Clean (object :: dead) second ↔
          Clean dead second ∧ ∀ other ∈ touched second, other ≠ object := by
        rw [clean_iff, @clean_iff _ dead]
        simp only [List.mem_cons, not_or]
        exact ⟨fun both => ⟨⟨both.1, fun other member => (both.2 other member).2⟩,
          fun other member => (both.2 other member).1⟩,
          fun both => ⟨both.1.1, fun other member => ⟨both.2 other member, both.1.2 other member⟩⟩⟩
      simp only [List.cons_append, Clean, freed, inductionHypothesis, one, List.mem_cons, not_or,
        imp_and, forall_and]
      tauto

theorem clean_map_free {objects : List Object} : Clean [] (objects.map .free) ↔ objects.Nodup := by
  induction objects with
  | nil => simp [Clean]
  | cons object rest inductionHypothesis =>
    rw [List.map_cons, Clean, clean_iff, inductionHypothesis, touched_map_free, List.nodup_cons]
    simp only [List.not_mem_nil, not_false_eq_true, true_and, List.mem_singleton]
    exact ⟨fun both => ⟨fun member => both.2 object member rfl, both.1⟩,
      fun both => ⟨both.2, fun other member same => both.1 (same ▸ member)⟩⟩

/-! ### Owners -/

/-- What an operation does with the objects that are owned `before` it: it touches no others, and
those that are owned `after` it are others than those it freed. -/
structure Settles (before : Multiset Object) (trace : List (Access Object))
    (after : Multiset Object) : Prop where
  clean : Clean [] trace
  owned : ∀ object ∈ touched trace, object ∈ before
  conserved : after + (freed trace : Multiset Object) ≤ before

theorem Settles.of_le {before after : Multiset Object} (less : after ≤ before) :
    Settles before [] after :=
  ⟨trivial, fun _ member => absurd member List.not_mem_nil, (add_zero after).le.trans less⟩

/-- More objects may have been owned, and objects may be lost. -/
theorem Settles.mono {before more after fewer : Multiset Object} {trace : List (Access Object)}
    (settles : Settles before trace after) (less : before ≤ more) (lost : fewer ≤ after) :
    Settles more trace fewer where
  clean := settles.clean
  owned object inside := Multiset.mem_of_le less (settles.owned object inside)
  conserved := ((add_le_add_left lost _).trans settles.conserved).trans less

theorem Settles.refl (owned : Multiset Object) : Settles owned [] owned := .of_le le_rfl

theorem Settles.use {owned : Multiset Object} {object : Object} (member : object ∈ owned) :
    Settles owned [.use object] owned where
  clean := ⟨List.not_mem_nil, trivial⟩
  owned other inside := by rwa [List.mem_singleton.mp inside]
  conserved := (add_zero owned).le

theorem Settles.freeAll {objects : List Object} (distinct : objects.Nodup) :
    Settles (objects : Multiset Object) (objects.map .free) 0 where
  clean := clean_map_free.mpr distinct
  owned other inside := by
    rw [touched_map_free] at inside
    exact Multiset.mem_coe.mpr inside
  conserved := by rw [freed_map_free, zero_add]

theorem Settles.frame {before after : Multiset Object} {trace : List (Access Object)}
    (settles : Settles before trace after) (others : Multiset Object) :
    Settles (before + others) trace (after + others) where
  clean := settles.clean
  owned object inside := Multiset.mem_add.mpr (Or.inl (settles.owned object inside))
  conserved := by
    rw [add_right_comm]
    exact add_le_add_left settles.conserved others

theorem Settles.trans {first second third : Multiset Object}
    {before after : List (Access Object)} (distinct : first.Nodup)
    (left : Settles first before second) (right : Settles second after third) :
    Settles first (before ++ after) third where
  clean := by
    -- What the second operation touches was left by the first, which did not free it.
    refine clean_append.mpr ⟨left.clean, right.clean, fun object member dead => ?_⟩
    have apart := (Multiset.nodup_add.mp (Multiset.nodup_of_le left.conserved distinct)).2.2
    exact Multiset.disjoint_left.mp apart (right.owned object member) (Multiset.mem_coe.mpr dead)
  owned object member := by
    rw [touched_append] at member
    rcases List.mem_append.mp member with early | late
    · exact left.owned object early
    · exact Multiset.mem_of_le ((Multiset.le_add_right _ _).trans left.conserved)
        (right.owned object late)
  conserved := by
    rw [freed_append, ← Multiset.coe_add, add_left_comm, add_comm]
    exact (add_le_add_left right.conserved _).trans left.conserved

/-- Owners act one after the other. -/
theorem Settles.flatMap {Owner : Type*} {holding remaining : Owner → Multiset Object}
    {act : Owner → List (Access Object)} {owners : List Owner}
    (each : ∀ owner ∈ owners, (holding owner).Nodup →
      Settles (holding owner) (act owner) (remaining owner))
    (distinct : ((owners : Multiset Owner).bind holding).Nodup) :
    Settles ((owners : Multiset Owner).bind holding) (owners.flatMap act)
      ((owners : Multiset Owner).bind remaining) := by
  induction owners with
  | nil => exact .refl 0
  | cons owner rest inductionHypothesis =>
    rw [← Multiset.cons_coe, Multiset.cons_bind] at distinct
    rw [← Multiset.cons_coe, Multiset.cons_bind, Multiset.cons_bind, List.flatMap_cons]
    obtain ⟨one, others, _⟩ := Multiset.nodup_add.mp distinct
    have first := (each owner List.mem_cons_self one).frame ((rest : Multiset Owner).bind holding)
    have second := (inductionHypothesis
      (fun other member => each other (List.mem_cons_of_mem _ member)) others).frame
        (remaining owner)
    rw [add_comm, add_comm _ (remaining owner)] at second
    exact first.trans distinct second

/-- Owners keep distinct objects, none of which was freed. -/
structure Holds (log : List (Access Object)) (owned : Multiset Object) : Prop where
  distinct : owned.Nodup
  alive : ∀ object ∈ owned, object ∉ freed log

/-- What owners do leaves them with distinct objects that are alive, also if objects of others
are used before. -/
theorem Holds.settle {log trace : List (Access Object)} {before after : Multiset Object}
    (holds : Holds log before) (settles : Settles before trace after) (others : List Object) :
    Holds (log ++ (others.map .use ++ trace)) after := by
  have kept := Multiset.nodup_add.mp (Multiset.nodup_of_le settles.conserved holds.distinct)
  refine ⟨kept.1, fun object member dead => ?_⟩
  rw [freed_append, freed_append, freed_map_use, List.nil_append] at dead
  rcases List.mem_append.mp dead with early | late
  · exact holds.alive object (Multiset.mem_of_le
      ((Multiset.le_add_right _ _).trans settles.conserved) member) early
  · exact Multiset.disjoint_left.mp kept.2.2 member (Multiset.mem_coe.mpr late)

/-- What owners do extends a clean history. So it stays clean exactly if the objects of others that
are used are alive. -/
theorem Holds.clean_iff {log trace : List (Access Object)} {before after : Multiset Object}
    (holds : Holds log before) (settles : Settles before trace after) (clean : Clean [] log)
    (others : List Object) :
    Clean [] (log ++ (others.map .use ++ trace)) ↔ ∀ object ∈ others, object ∉ freed log := by
  have own : ∀ object ∈ touched trace, object ∉ freed log := fun object member =>
    holds.alive object (settles.owned object member)
  rw [clean_append, clean_append, touched_append, touched_map_use, freed_map_use]
  simp only [List.mem_append, or_imp, forall_and]
  exact ⟨fun all => all.2.2.1, fun alive => ⟨clean, ⟨clean_map_use others, settles.clean,
    fun _ _ => List.not_mem_nil⟩, alive, own⟩⟩

theorem Holds.acquire {log : List (Access Object)} {owned : Multiset Object}
    (holds : Holds log owned) {objects : List Object} (distinct : objects.Nodup)
    (new : ∀ object ∈ objects, object ∉ owned) (alive : ∀ object ∈ objects, object ∉ freed log) :
    Holds log ((objects : Multiset Object) + owned) where
  distinct := Multiset.nodup_add.mpr ⟨Multiset.coe_nodup.mpr distinct, holds.distinct,
    Multiset.disjoint_left.mpr fun member => new _ (Multiset.mem_coe.mp member)⟩
  alive other member := by
    rcases Multiset.mem_add.mp member with late | old
    · exact alive other (Multiset.mem_coe.mp late)
    · exact holds.alive other old

/-- Owners keep distinct objects that are alive; all that were ever owned or freed are in `made`. -/
structure Accounted (log : List (Access Object)) (owned : Multiset Object) (made : List Object) :
    Prop where
  holds : Holds log owned
  known : ∀ object ∈ owned, object ∈ made
  dead : ∀ object ∈ freed log, object ∈ made

theorem accounted_nothing : Accounted [] (0 : Multiset Object) [] where
  holds := ⟨Multiset.nodup_zero, fun _ member => absurd member (Multiset.notMem_zero _)⟩
  known _ member := absurd member (Multiset.notMem_zero _)
  dead _ member := absurd member List.not_mem_nil

section Accounted

variable {log trace : List (Access Object)} {owned after : Multiset Object}
  {made arriving : List Object}

/-- Objects that are made now are others than those that are owned. -/
theorem Accounted.arrive (accounted : Accounted log owned made) (distinct : arriving.Nodup)
    (fresh : ∀ object ∈ arriving, object ∉ made) :
    Holds log ((arriving : Multiset Object) + owned) :=
  accounted.holds.acquire distinct
    (fun object new member => fresh object new (accounted.known object member))
    fun object new member => fresh object new (accounted.dead object member)

theorem Accounted.settle (accounted : Accounted log owned made) (distinct : arriving.Nodup)
    (fresh : ∀ object ∈ arriving, object ∉ made)
    (settles : Settles ((arriving : Multiset Object) + owned) trace after) (others : List Object) :
    Accounted (log ++ (others.map .use ++ trace)) after (arriving ++ made) := by
  have known : ∀ object ∈ (arriving : Multiset Object) + owned, object ∈ arriving ++ made := by
    intro object member
    rcases Multiset.mem_add.mp member with new | old
    · exact List.mem_append_left _ new
    · exact List.mem_append_right _ (accounted.known object old)
  refine ⟨(accounted.arrive distinct fresh).settle settles others, fun object member => ?_,
    fun object member => ?_⟩
  · exact known object (Multiset.mem_of_le
      ((Multiset.le_add_right _ _).trans settles.conserved) member)
  · rw [freed_append, freed_append, freed_map_use, List.nil_append] at member
    rcases List.mem_append.mp member with old | new
    · exact List.mem_append_right _ (accounted.dead object old)
    · exact known object (Multiset.mem_of_le
        ((Multiset.le_add_left _ _).trans settles.conserved) (Multiset.mem_coe.mpr new))

end Accounted

/-! ### Owners in a queue and in a table -/

section Stores

variable {Entry Key Value : Type} {queued : Entry → Multiset Object}
  {held : Value → Multiset Object} {queue rest : List Entry} {entry : Entry}
  {table : Table Key Value} {key : Key} {value : Value} {own : List (Access Object)}
  {left : Multiset Object}

/-- The objects that the entries of a queue and the values of a table own. -/
def ownedBy (queued : Entry → Multiset Object) (held : Value → Multiset Object)
    (queue : List Entry) (table : Table Key Value) : Multiset Object :=
  (queue : Multiset Entry).bind queued + (Table.values table).bind held

theorem ownedBy_append (queue : List Entry) (entry : Entry) (table : Table Key Value) :
    ownedBy queued held (queue ++ [entry]) table =
      queued entry + ownedBy queued held queue table := by
  rw [ownedBy, ← Multiset.coe_add, Multiset.add_bind, Multiset.coe_singleton,
    Multiset.singleton_bind, add_right_comm, add_comm, ownedBy]

theorem ownedBy_cons (entry : Entry) (rest : List Entry) (table : Table Key Value) :
    ownedBy queued held (entry :: rest) table = queued entry + ownedBy queued held rest table := by
  rw [ownedBy, ← Multiset.cons_coe, Multiset.cons_bind, add_assoc, ownedBy]

/-- What the first entry of the queue does does not concern the others. -/
theorem head_settles (distinct : (ownedBy queued held (entry :: rest) table).Nodup)
    (settles : (queued entry).Nodup → Settles (queued entry) own left) :
    Settles (ownedBy queued held (entry :: rest) table) own
      (left + ownedBy queued held rest table) := by
  rw [ownedBy_cons] at distinct ⊢
  exact (settles (Multiset.nodup_add.mp distinct).1).frame _

/-- All values of the table act, one after the other. -/
theorem values_settle {act : Value → List (Access Object)} {remaining : Value → Multiset Object}
    (each : ∀ value, (held value).Nodup → Settles (held value) (act value) (remaining value))
    (distinct : (ownedBy queued held queue table).Nodup) :
    Settles (ownedBy queued held queue table) (table.entries.flatMap fun entry => act entry.2)
      (ownedBy queued remaining queue table) := by
  have apart := (Multiset.nodup_add.mp distinct).2.1
  unfold Table.values at apart
  have settles := Settles.flatMap (fun value _ => each value) apart
  rw [List.flatMap_map] at settles
  have framed := settles.frame ((queue : Multiset Entry).bind queued)
  rw [add_comm, add_comm (Multiset.bind _ remaining)] at framed
  exact framed

variable [DecidableEq Key]

theorem ownedBy_insert (queue : List Entry) (key : Key) (value : Value) (table : Table Key Value) :
    ownedBy queued held queue (table.insert key value) =
      held value + ownedBy queued held queue (table.erase key) := by
  rw [ownedBy, Table.values_insert, Multiset.cons_bind, add_left_comm]
  rfl

theorem ownedBy_of_lookup (queue : List Entry) (found : table.lookup key = some value) :
    ownedBy queued held queue table =
      held value + ownedBy queued held queue (table.erase key) := by
  rw [ownedBy, Table.values_of_lookup found, Multiset.cons_bind, add_left_comm]
  rfl

/-- What one value of the table does does not concern the others. -/
theorem value_settles (found : table.lookup key = some value)
    (distinct : (ownedBy queued held queue table).Nodup)
    (settles : (held value).Nodup → Settles (held value) own left) :
    Settles (ownedBy queued held queue table) own
      (left + ownedBy queued held queue (table.erase key)) := by
  rw [ownedBy_of_lookup queue found] at distinct ⊢
  exact (settles (Multiset.nodup_add.mp distinct).1).frame _

end Stores

end Lifetime
