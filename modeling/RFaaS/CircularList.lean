/-
This file is the library of circular linked lists. Every node has a pointer to
the next one, and following the pointers from a node comes back to it. The list
that names the nodes of a ring starts wherever a reader starts to walk. The
file has what the users of a ring do to it: they walk it once around, they start
from the next node instead, and they put a new node behind one that is there.
-/

import Mathlib.Data.List.Nodup
import Mathlib.Logic.Function.Basic

namespace CircularList

open List

variable {Node : Type*} {next other : Node → Node}

/-! ### Paths -/

/-- From `start` the pointers lead through the nodes in order and then to `stop`. -/
def Path (next : Node → Node) : List Node → Node → Node → Prop
  | [], start, stop => start = stop
  | node :: rest, start, stop => start = node ∧ Path next rest (next node) stop

@[simp] theorem path_nil {start stop : Node} : Path next [] start stop ↔ start = stop := Iff.rfl

@[simp] theorem path_cons {node start stop : Node} {rest : List Node} :
    Path next (node :: rest) start stop ↔ start = node ∧ Path next rest (next node) stop := Iff.rfl

theorem path_append {first second : List Node} {start stop : Node} :
    Path next (first ++ second) start stop ↔
      ∃ middle, Path next first start middle ∧ Path next second middle stop := by
  induction first generalizing start with
  | nil => simp
  | cons node rest inductionHypothesis =>
    simp only [cons_append, path_cons, inductionHypothesis, and_assoc, exists_and_left]

/-- Only the pointers of the nodes on the path matter. -/
theorem Path.congr {nodes : List Node} {start stop : Node} (path : Path next nodes start stop)
    (agree : ∀ node ∈ nodes, other node = next node) : Path other nodes start stop := by
  induction nodes generalizing start with
  | nil => exact path
  | cons node rest inductionHypothesis =>
    refine ⟨path.1, ?_⟩
    rw [agree node mem_cons_self]
    exact inductionHypothesis path.2 fun node member => agree node (mem_cons_of_mem _ member)

/-! ### Rings -/

/-- The nodes of a ring, in the order in which they follow the first of them. -/
structure Ring (next : Node → Node) (first : Node) (nodes : List Node) : Prop where
  nodup : nodes.Nodup
  head : nodes.head? = some first
  path : Path next nodes first first

namespace Ring

variable {first : Node} {nodes : List Node}

theorem congr (ring : Ring next first nodes) (agree : ∀ node ∈ nodes, other node = next node) :
    Ring other first nodes :=
  ⟨ring.nodup, ring.head, ring.path.congr agree⟩

theorem next_first {second : Node} {rest : List Node}
    (ring : Ring next first (first :: second :: rest)) : next first = second :=
  ring.path.2.1

/-- A node points to the one behind it, and the last one to the first. -/
theorem next_eq {front back : List Node} {node : Node}
    (ring : Ring next first (front ++ node :: back)) :
    next node = (back.head?).getD first := by
  obtain ⟨middle, -, path⟩ := path_append.mp ring.path
  cases back with
  | nil => exact path.2
  | cons follower rest => exact path.2.1

/-- A ring can be walked from its second node on. -/
theorem rotate {second : Node} {rest : List Node}
    (ring : Ring next first (first :: second :: rest)) :
    Ring next second (second :: rest ++ [first]) where
  nodup := by
    have apart := nodup_cons.mp ring.nodup
    exact nodup_append_comm.mp (nodup_cons.mpr apart)
  head := rfl
  path := by
    have second_eq : next first = second := ring.next_first
    have onward : Path next (second :: rest) (next first) first := ring.path.2
    rw [second_eq] at onward
    exact path_append.mpr ⟨first, onward, rfl, second_eq⟩

/-- A new node takes over the pointer of the node that it is put behind. -/
theorem insert {front back : List Node} {node fresh : Node}
    (ring : Ring next first (front ++ node :: back)) (notIn : fresh ∉ front ++ node :: back)
    (toFresh : other node = fresh) (fromFresh : other fresh = next node)
    (agree : ∀ kept, kept ≠ node → kept ≠ fresh → other kept = next kept) :
    Ring other first (front ++ node :: fresh :: back) := by
  obtain ⟨middle, before, here, behind⟩ := path_append.mp ring.path
  obtain ⟨nodeNotIn, -⟩ := nodup_middle.mp ring.nodup |> nodup_cons.mp
  have keptFront : ∀ kept ∈ front, other kept = next kept := by
    intro kept member
    refine agree kept ?_ ?_
    · rintro rfl
      exact nodeNotIn (mem_append_left _ member)
    · rintro rfl
      exact notIn (mem_append_left _ member)
  have keptBack : ∀ kept ∈ back, other kept = next kept := by
    intro kept member
    refine agree kept ?_ ?_
    · rintro rfl
      exact nodeNotIn (mem_append_right _ member)
    · rintro rfl
      exact notIn (mem_append_right _ (mem_cons_of_mem _ member))
  refine ⟨?_, ?_, ?_⟩
  · have moved : front ++ node :: fresh :: back = front ++ [node] ++ fresh :: back := by simp
    rw [moved, nodup_middle, nodup_cons, append_assoc, singleton_append]
    exact ⟨notIn, ring.nodup⟩
  · have head := ring.head
    cases front <;> exact head
  · refine path_append.mpr ⟨middle, before.congr keptFront, here, ?_⟩
    rw [toFresh, path_cons, fromFresh]
    exact ⟨rfl, behind.congr keptBack⟩

end Ring

/-! ### Walking a ring once around -/

section Walk

variable [DecidableEq Node] {Result : Type*}

/-- The loop that visits a node, moves on to the next one and ends back at `stop`. -/
def walk (next : Node → Node) (stop : Node) (visit : Result → Node → Result) :
    Nat → Node → Result → Option Result
  | 0, _, _ => none
  | fuel + 1, node, result =>
    let result := visit result node
    if next node = stop then some result else walk next stop visit fuel (next node) result

/-- A path to the stop that does not pass it on the way is walked to its end. -/
theorem walk_eq_of_path {stop : Node} {visit : Result → Node → Result} {rest : List Node}
    {node : Node} {fuel : Nat} (enough : rest.length < fuel)
    (path : Path next rest (next node) stop) (missed : stop ∉ rest) (result : Result) :
    walk next stop visit fuel node result = some ((node :: rest).foldl visit result) := by
  induction rest generalizing node fuel result with
  | nil =>
    cases fuel with
    | zero => exact absurd enough (Nat.not_lt_zero _)
    | succ fuel =>
      have back : next node = stop := path
      rw [walk, if_pos back, foldl_cons, foldl_nil]
  | cons follower rest inductionHypothesis =>
    cases fuel with
    | zero => exact absurd enough (Nat.not_lt_zero _)
    | succ fuel =>
      have onward : next node = follower := path.1
      have goesOn : next node ≠ stop := by
        rw [onward]
        rintro rfl
        exact missed mem_cons_self
      rw [walk, if_neg goesOn, onward]
      exact inductionHypothesis (Nat.lt_of_succ_lt_succ enough) path.2
        (fun member => missed (mem_cons_of_mem _ member)) _

/-- Walking a ring from its first node visits every node once, in order. -/
theorem Ring.walk_eq {first : Node} {nodes : List Node} (ring : Ring next first nodes)
    {fuel : Nat} (enough : nodes.length ≤ fuel) (visit : Result → Node → Result)
    (result : Result) :
    walk next first visit fuel first result = some (nodes.foldl visit result) := by
  obtain ⟨apart, head, path⟩ := ring
  cases nodes with
  | nil => cases head
  | cons start rest =>
    obtain rfl : first = start := path.1
    exact walk_eq_of_path enough path.2 (nodup_cons.mp apart).1 result

end Walk

end CircularList
