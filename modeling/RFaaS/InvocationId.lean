/-
This file is about the ids of the invocations that a client has outstanding.
The client makes calls of all kinds and its replies arrive in any order. As
long as no invocation stays outstanding for 65535 calls, the ids of outstanding
invocations differ except for two clashes between the two ways of counting:
`async` on a single buffer takes the id of the call before it, and any other
call takes the id of an `async` on a single buffer 65534 calls before, when the
counter has wrapped in between.
-/

import RFaaS.Client
import RFaaS.Transition

namespace RFaaS.Client

open Transition Client.Executor List

/-! ### The counter -/

section Counter

/-- How far the counter is when `age` calls were made since it stood at `base`: each of them
counted it up, and it wrapped from 65535 to 1 once or not at all. -/
def Tracks (counter base : BitVec 32) (age : Nat) : Prop :=
  counter.toNat = (base.toNat + age) % 2 ^ 32 ∨
    counter.toNat + 65535 = base.toNat + age ∧ 1 ≤ counter.toNat ∧ counter.toNat ≤ age ∧
      base.toNat ≤ 65535

theorem toNat_succ (counter : BitVec 32) : (counter + 1).toNat = (counter.toNat + 1) % 2 ^ 32 :=
  BitVec.toNat_add counter 1

theorem tracks_self (base : BitVec 32) : Tracks base base 0 :=
  Or.inl (Nat.mod_eq_of_lt base.isLt).symm

theorem toNat_advance (executor : Executor) :
    executor.advance.invocId.toNat =
      if executor.invocId.toNat = 65535 then 1 else (executor.invocId.toNat + 1) % 2 ^ 32 := by
  have bound := executor.invocId.isLt
  have full : executor.invocId + 1 = 65536#32 ↔ executor.invocId.toNat = 65535 := by
    rw [BitVec.toNat_eq, toNat_succ, show (65536#32).toNat = 65536 from rfl]
    omega
  unfold advance
  dsimp only
  by_cases last : executor.invocId.toNat = 65535
  · rw [if_pos (full.mpr last), if_pos last]
    rfl
  · rw [if_neg (fun same => last (full.mp same)), if_neg last, toNat_succ]

variable {counter base : BitVec 32} {age : Nat}

theorem Tracks.succ (tracks : Tracks counter base age) (recent : age < 65534) :
    Tracks (counter + 1) base (age + 1) := by
  rcases tracks with ahead | ⟨wrapped, positive, bound, small⟩
  · left
    rw [toNat_succ, ahead]
    omega
  · right
    rw [toNat_succ]
    omega

theorem Tracks.advance {executor : Executor} (tracks : Tracks executor.invocId base age)
    (recent : age < 65534) : Tracks executor.advance.invocId base (age + 1) := by
  have bound := base.isLt
  unfold Tracks at tracks ⊢
  rw [toNat_advance]
  split <;> omega

end Counter

/-! ### Outstanding invocations -/

/-- An invocation. `serial` counts the invocations before it, `early` tells that its id is the
counter before it was counted up, and `writes` are those that have no reply. -/
structure Invocation where
  serial : Nat
  id : BitVec 32
  early : Bool
  listener : Listener
  writes : List Write
  deriving DecidableEq, Repr

namespace Invocation

/-- The bits of the id that fit the immediate. -/
def carried (invocation : Invocation) : BitVec 16 := invocation.id.setWidth 16

/-- What the counter stood at after the call. -/
def base (invocation : Invocation) : BitVec 32 :=
  if invocation.early then invocation.id + 1 else invocation.id

/-- The entry that waits for the reply is the one that the call has made. -/
def Kept (executor : Executor) (invocation : Invocation) : Prop :=
  match invocation.listener with
  | .future _ =>
    (executor.futures.lookup invocation.id).map Future.promise = some invocation.serial
  | .callback _ _ =>
    (executor.callbacks.lookup invocation.id).map Callback.serial = some invocation.serial
  | .callback2 _ _ _ =>
    (executor.callbacks2.lookup invocation.id).map (·.serial) = some invocation.serial
  | .caller => True

end Invocation

open Invocation

namespace Call

def fname : Call → String
  | .async fname _ _ _ | .asyncCallback fname _ _ _ _ | .asyncCallback2 fname _ _ _ _ _
  | .asyncVector fname _ _ | .execute fname _ _ | .executeVector fname _ _ => fname

/-- Whether the call takes its id before it counts. -/
def early : Call → Bool
  | .async _ _ _ _ => true
  | _ => false

/-- Whom the call leaves behind. -/
def listener (executor : Executor) : Call → Listener
  | .async _ _ _ _ => .future 1
  | .asyncCallback _ _ out callback _ => .callback callback out
  | .asyncCallback2 _ _ out para callback _ => .callback2 callback out para
  | .asyncVector _ _ _ => .future executor.connections.length
  | .execute _ _ _ | .executeVector _ _ _ => .caller

/-- The id that the call takes. -/
def id (executor : Executor) (call : Call) : BitVec 32 :=
  if call.early then executor.invocId else executor.advance.invocId

end Call

/-- A client with its outstanding invocations. -/
structure Traffic where
  executor : Executor
  outstanding : List Invocation

namespace Traffic

/-- The client waits in an `execute`. -/
def Waits (traffic : Traffic) : Prop :=
  ∃ invocation ∈ traffic.outstanding, invocation.listener = .caller

instance (traffic : Traffic) : Decidable traffic.Waits :=
  inferInstanceAs (Decidable (∃ invocation ∈ traffic.outstanding, invocation.listener = .caller))

def start (maxInlineData : Int) (symbols : List String) (connections : List RemoteBuffer) :
    Traffic where
  executor := allocated maxInlineData symbols connections
  outstanding := []

/-- The call issues an invocation: the client is free and knows the function. -/
def Issues (traffic : Traffic) (call : Call) : Prop :=
  ¬traffic.Waits ∧ traffic.executor.findFunction call.fname ≠ none

instance (traffic : Traffic) (call : Call) : Decidable (traffic.Issues call) :=
  inferInstanceAs (Decidable (_ ∧ _))

/-- The invocation that a call makes. -/
def issued (executor : Executor) (call : Call) : Invocation where
  serial := executor.calls
  id := call.id executor
  early := call.early
  listener := call.listener executor
  writes := (executor.issue call).2.map Posted.write

/-- A call. There is something to wait for if it has posted a write. -/
def makeCall (traffic : Traffic) (call : Call) : Traffic :=
  if traffic.Waits then traffic
  else
    { executor := (traffic.executor.issue call).1
      outstanding :=
        if (traffic.executor.issue call).2 = [] then traffic.outstanding
        else traffic.outstanding ++ [issued traffic.executor call] }

/-- The dispatch of a reply by the loop that is meant for it. A reply that finds no entry leaves
the maps as they are. -/
def dispatch (executor : Executor) (listener : Listener) (val : BitVec 32) : Executor :=
  match listener with
  | .future _ => (executor.settleFuture val).getD executor
  | .callback _ _ => ((executor.fireCallback val).map Prod.fst).getD executor
  | .callback2 _ _ _ => ((executor.fireCallback2 val).map Prod.fst).getD executor
  | .caller => executor

/-- A reply of a worker to one of the writes of an outstanding invocation. -/
def reply (traffic : Traffic) (index : Nat) : Traffic :=
  match traffic.outstanding[index]? with
  | none => traffic
  | some invocation =>
    match invocation.writes with
    | [] => traffic
    | write :: rest =>
      { executor := dispatch traffic.executor invocation.listener
          (Immediate.reply (Immediate.invocId (ntohl write.immData)))
        outstanding :=
          if rest = [] then traffic.outstanding.eraseIdx index
          else traffic.outstanding.set index { invocation with writes := rest } }

inductive Event
  | call (call : Call)
  | reply (index : Nat)

def step (traffic : Traffic) : Event → Traffic
  | .call call => traffic.makeCall call
  | .reply index => traffic.reply index

/-- No two outstanding invocations carry the same id, and each finds its own entry. -/
structure Unambiguous (traffic : Traffic) : Prop where
  distinct : (traffic.outstanding.map carried).Nodup
  kept : ∀ invocation ∈ traffic.outstanding, invocation.Kept traffic.executor

/-- While an invocation is outstanding, every call that is made posts a write, and fewer than
65535 calls are made. -/
def Recent (traffic : Traffic) : Event → Prop
  | .call call => traffic.Issues call → ∀ invocation ∈ traffic.outstanding,
    (traffic.executor.issue call).2 ≠ [] ∧ traffic.executor.calls < invocation.serial + 65535
  | .reply _ => True

/-- A call takes the id of an outstanding invocation. `async` on a single buffer does so behind
any other call. Any other call does so 65534 calls behind an `async` on a single buffer, when
the counter is within its 16 bits. -/
def Clash (executor : Executor) (invocation : Invocation) (call : Call) : Prop :=
  if call.early then ¬invocation.early ∧ executor.calls = invocation.serial + 1
  else invocation.early ∧ executor.calls = invocation.serial + 65534 ∧
    1 ≤ invocation.id.toNat ∧ invocation.id.toNat ≤ 65535 ∧ executor.invocId.toNat ≤ 65535

/-- No call takes the id of an outstanding invocation. -/
def Apart (traffic : Traffic) : Event → Prop
  | .call call => traffic.Issues call →
    ∀ invocation ∈ traffic.outstanding, ¬Clash traffic.executor invocation call
  | .reply _ => True

instance (traffic : Traffic) : DecidablePred traffic.Recent
  | .call _ => inferInstanceAs (Decidable (_ → ∀ invocation ∈ traffic.outstanding, _))
  | .reply _ => inferInstanceAs (Decidable True)

instance (executor : Executor) (invocation : Invocation) (call : Call) :
    Decidable (Clash executor invocation call) :=
  inferInstanceAs (Decidable (if call.early then _ ∧ _ else _ ∧ _))

instance (traffic : Traffic) : DecidablePred traffic.Apart
  | .call _ => inferInstanceAs (Decidable (_ → ∀ invocation ∈ traffic.outstanding, _))
  | .reply _ => inferInstanceAs (Decidable True)

/-! ### What a call does -/

variable {executor : Executor} {call : Call} {invocation : Invocation}

theorem issue_missing (missing : executor.findFunction call.fname = none) :
    executor.issue call = (executor, []) := by
  have invoked : ∀ fname listener posts, executor.findFunction fname = none →
      executor.invoke fname listener posts = (executor, []) := by
    intro fname listener posts unknown
    unfold invoke
    rw [unknown]
  cases call with
  | async fname input out size =>
    show executor.async fname input out size = _
    unfold async
    rw [show executor.findFunction fname = none from missing]
  | _ =>
    dsimp only [issue]
    exact invoked _ _ _ missing

theorem issue_found (found : executor.findFunction call.fname ≠ none) :
    (executor.issue call).1 =
      { executor.register (call.id executor) (call.listener executor) with
        invocId := if call.early then executor.invocId + 1 else executor.advance.invocId
        calls := executor.calls + 1 } := by
  have invoked : ∀ fname listener posts, executor.findFunction fname ≠ none →
      (executor.invoke fname listener posts).1 =
        { executor.register executor.advance.invocId listener with
          invocId := executor.advance.invocId
          calls := executor.calls + 1 } := by
    intro fname listener posts known
    rcases executor.invoke_cases fname listener posts with ⟨missing, _⟩ | ⟨_, _, issued⟩
    · exact absurd missing known
    · rw [issued]
      cases listener <;> rfl
  cases call with
  | async fname input out size =>
    show (executor.async fname input out size).1 = _
    unfold async
    split
    · rename_i missing
      exact absurd missing found
    · rfl
  | _ => exact invoked _ _ _ found

theorem writes_issued {connection : Nat} {write : Write}
    (posted : (executor.issue call).2 = [⟨connection, write⟩]) :
    (issued executor call).writes = [write] := by
  show (executor.issue call).2.map Posted.write = _
  rw [posted]
  rfl

theorem kept_register {invocId : BitVec 32} (other : invocation.id ≠ invocId)
    (listener : Listener) :
    invocation.Kept (executor.register invocId listener) ↔ invocation.Kept executor := by
  unfold Kept
  cases listener <;> cases invocation.listener <;>
    simp only [register, AList.lookup_insert_ne other]

theorem kept_issue (found : executor.findFunction call.fname ≠ none)
    (other : invocation.id ≠ call.id executor) :
    invocation.Kept (executor.issue call).1 ↔ invocation.Kept executor := by
  rw [issue_found found]
  exact kept_register other _

theorem kept_issued (found : executor.findFunction call.fname ≠ none) :
    (issued executor call).Kept (executor.issue call).1 := by
  rw [issue_found found]
  unfold Kept
  cases call <;>
    simp only [issued, Call.listener, register, AList.lookup_insert, Option.map_some]

/-! ### What a reply does -/

/-- What the dispatch of a reply leaves alone. -/
structure Spares (executor after : Executor) : Prop where
  invocId : after.invocId = executor.invocId
  calls : after.calls = executor.calls
  kept : ∀ invocation : Invocation, invocation.Kept after ↔ invocation.Kept executor

theorem spares_settleFuture {after : Executor} {val : BitVec 32}
    (settled : executor.settleFuture val = some after) : Spares executor after := by
  dsimp only [settleFuture] at settled
  split at settled
  · cases settled
  · rename_i future found
    rw [← Option.some.inj settled]
    refine ⟨rfl, rfl, fun invocation => ?_⟩
    unfold Kept
    cases invocation.listener with
    | future count =>
      dsimp only
      rw [Table.map_lookup_insert found]
      rfl
    | _ => exact Iff.rfl

theorem spares_fireCallback {after : Executor} {val : BitVec 32}
    (fired : (executor.fireCallback val).map Prod.fst = some after) : Spares executor after := by
  dsimp only [fireCallback] at fired
  split at fired
  · cases fired
  · rename_i entry found
    rw [← Option.some.inj fired]
    refine ⟨rfl, rfl, fun invocation => ?_⟩
    unfold Kept
    cases invocation.listener with
    | callback =>
      dsimp only
      rw [Table.map_lookup_insert found]
      rfl
    | _ => exact Iff.rfl

theorem spares_fireCallback2 {after : Executor} {val : BitVec 32}
    (fired : (executor.fireCallback2 val).map Prod.fst = some after) : Spares executor after := by
  dsimp only [fireCallback2] at fired
  split at fired
  · cases fired
  · rename_i entry found
    rw [← Option.some.inj fired]
    refine ⟨rfl, rfl, fun invocation => ?_⟩
    unfold Kept
    cases invocation.listener with
    | callback2 =>
      dsimp only
      rw [Table.map_lookup_insert found]
      rfl
    | _ => exact Iff.rfl

theorem spares_getD {result : Option Executor}
    (each : ∀ after, result = some after → Spares executor after) :
    Spares executor (result.getD executor) := by
  cases result with
  | none => exact ⟨rfl, rfl, fun _ => Iff.rfl⟩
  | some after => exact each after rfl

theorem spares_dispatch (executor : Executor) (listener : Listener) (val : BitVec 32) :
    Spares executor (dispatch executor listener val) := by
  cases listener with
  | future count => exact spares_getD fun _ => spares_settleFuture
  | callback => exact spares_getD fun _ => spares_fireCallback
  | callback2 => exact spares_getD fun _ => spares_fireCallback2
  | caller => exact ⟨rfl, rfl, fun _ => Iff.rfl⟩

variable {traffic : Traffic}

/-- A reply leaves counter and entries alone, and ends at most one invocation. -/
theorem reply_rule (traffic : Traffic) (index : Nat) :
    Spares traffic.executor (traffic.reply index).executor ∧
      ((traffic.reply index).outstanding.map carried).Sublist
        (traffic.outstanding.map carried) ∧
      ∀ invocation ∈ (traffic.reply index).outstanding, ∃ writes,
        { invocation with writes := writes } ∈ traffic.outstanding := by
  have unchanged : Spares traffic.executor traffic.executor ∧
      (traffic.outstanding.map carried).Sublist
        (traffic.outstanding.map carried) ∧
      ∀ invocation ∈ traffic.outstanding, ∃ writes,
        { invocation with writes := writes } ∈ traffic.outstanding :=
    ⟨⟨rfl, rfl, fun _ => Iff.rfl⟩, List.Sublist.refl _, fun invocation member =>
      ⟨invocation.writes, member⟩⟩
  unfold reply
  split
  · exact unchanged
  · rename_i answered found
    split
    · exact unchanged
    · rename_i write rest _
      refine ⟨spares_dispatch _ _ _, ?_⟩
      obtain ⟨bound, here⟩ := List.getElem?_eq_some_iff.mp found
      by_cases last : rest = []
      · rw [if_pos last]
        exact ⟨(List.eraseIdx_sublist _ _).map _, fun invocation member =>
          ⟨invocation.writes, mem_of_mem_eraseIdx member⟩⟩
      · rw [if_neg last]
        have same : (traffic.outstanding.set index { answered with writes := rest }).map
            carried = traffic.outstanding.map carried := by
          rw [map_set]
          apply ext_getElem?
          intro place
          rw [getElem?_set]
          split
          · rename_i here
            rw [← here, getElem?_map, found, if_pos (by rw [length_map]; exact bound)]
            rfl
          · rfl
        refine ⟨by rw [same], fun invocation member => ?_⟩
        rcases mem_or_eq_of_mem_set member with old | rfl
        · exact ⟨invocation.writes, old⟩
        · exact ⟨answered.writes, mem_of_getElem? found⟩

/-! ### Where the counter stands -/

/-- The counter is as far ahead of an invocation as the calls since tell. -/
structure Tracked (executor : Executor) (invocation : Invocation) : Prop where
  past : invocation.serial < executor.calls
  tracks : Tracks executor.invocId invocation.base (executor.calls - (invocation.serial + 1))

theorem Tracked.issue (tracked : Tracked executor invocation)
    (found : executor.findFunction call.fname ≠ none)
    (recent : executor.calls < invocation.serial + 65535) :
    Tracked (executor.issue call).1 invocation := by
  have past := tracked.past
  have age : executor.calls + 1 - (invocation.serial + 1) =
      executor.calls - (invocation.serial + 1) + 1 := by omega
  rw [issue_found found]
  refine ⟨Nat.lt_succ_of_lt past, ?_⟩
  dsimp only
  rw [age]
  split
  · exact tracked.tracks.succ (by omega)
  · exact tracked.tracks.advance (by omega)

theorem tracked_issued (found : executor.findFunction call.fname ≠ none) :
    Tracked (executor.issue call).1 (issued executor call) := by
  rw [issue_found found]
  refine ⟨Nat.lt_succ_self _, ?_⟩
  dsimp only [issued, base, Call.id]
  rw [Nat.sub_self]
  split <;> exact tracks_self _

theorem carried_eq_iff {first second : Invocation} :
    first.carried = second.carried ↔ first.id.toNat % 65536 = second.id.toNat % 65536 := by
  unfold carried
  rw [BitVec.toNat_eq, BitVec.toNat_setWidth, BitVec.toNat_setWidth]

/-- The clashes are the only ways for a call to take the id of a recent invocation. -/
theorem clash_iff (tracked : Tracked executor invocation)
    (recent : executor.calls < invocation.serial + 65535) :
    invocation.carried = (issued executor call).carried ↔ Clash executor invocation call := by
  obtain ⟨past, tracks⟩ := tracked
  have bound := executor.invocId.isLt
  have small := invocation.id.isLt
  rw [carried_eq_iff]
  unfold Clash
  dsimp only [issued, Call.id]
  unfold Tracks base at tracks
  by_cases early : call.early
  · rw [if_pos early, if_pos early]
    by_cases first : invocation.early
    · rw [if_pos first, toNat_succ] at tracks
      simp only [first, not_true_eq_false, false_and, iff_false]
      omega
    · rw [if_neg first] at tracks
      simp only [first, Bool.false_eq_true, not_false_eq_true, true_and]
      omega
  · rw [if_neg early, if_neg early, toNat_advance]
    by_cases first : invocation.early
    · rw [if_pos first, toNat_succ] at tracks
      simp only [first, true_and]
      split <;> omega
    · rw [if_neg first] at tracks
      simp only [first, Bool.false_eq_true, false_and, iff_false]
      split <;> omega

/-! ### Whole runs -/

/-- The invariant behind the ids. -/
def Sound (traffic : Traffic) : Prop :=
  ∀ invocation ∈ traffic.outstanding, Tracked traffic.executor invocation

theorem Sound.reply (sound : traffic.Sound) (index : Nat) : (traffic.reply index).Sound := by
  obtain ⟨spares, _, origin⟩ := traffic.reply_rule index
  intro invocation member
  obtain ⟨writes, earlier⟩ := origin invocation member
  obtain ⟨past, tracks⟩ := sound _ earlier
  refine ⟨by rw [spares.calls]; exact past, ?_⟩
  rw [spares.calls, spares.invocId]
  exact tracks

theorem unambiguous_reply (unambiguous : traffic.Unambiguous) (index : Nat) :
    (traffic.reply index).Unambiguous := by
  obtain ⟨spares, fewer, origin⟩ := traffic.reply_rule index
  refine ⟨unambiguous.distinct.sublist fewer, fun invocation member => ?_⟩
  obtain ⟨writes, earlier⟩ := origin invocation member
  have kept := unambiguous.kept _ earlier
  exact (spares.kept invocation).mpr kept

theorem makeCall_cases (traffic : Traffic) (call : Call) :
    ¬traffic.Issues call ∧ traffic.makeCall call = traffic ∨
    traffic.Issues call ∧ traffic.makeCall call =
      { executor := (traffic.executor.issue call).1
        outstanding :=
          if (traffic.executor.issue call).2 = [] then traffic.outstanding
          else traffic.outstanding ++ [issued traffic.executor call] } := by
  unfold makeCall
  by_cases waits : traffic.Waits
  · exact Or.inl ⟨fun issues => issues.1 waits, if_pos waits⟩
  · rw [if_neg waits]
    by_cases missing : traffic.executor.findFunction call.fname = none
    · refine Or.inl ⟨fun issues => issues.2 missing, ?_⟩
      rw [issue_missing missing, if_pos rfl]
    · exact Or.inr ⟨⟨waits, missing⟩, rfl⟩

theorem Sound.makeCall (sound : traffic.Sound) {call : Call}
    (recent : traffic.Recent (.call call)) : (traffic.makeCall call).Sound := by
  rcases traffic.makeCall_cases call with ⟨_, same⟩ | ⟨issues, made⟩
  · rw [same]
    exact sound
  · have old : ∀ invocation ∈ traffic.outstanding,
        Tracked (traffic.executor.issue call).1 invocation := fun invocation member =>
      (sound invocation member).issue issues.2 (recent issues invocation member).2
    rw [made]
    intro invocation member
    dsimp only at member ⊢
    split at member
    · exact old invocation member
    · rcases mem_append.mp member with earlier | new
      · exact old invocation earlier
      · rw [mem_singleton.mp new]
        exact tracked_issued issues.2

/-- A call keeps the ids apart exactly if it is no clash. -/
theorem unambiguous_makeCall_iff (sound : traffic.Sound) (unambiguous : traffic.Unambiguous)
    {call : Call} (recent : traffic.Recent (.call call)) :
    (traffic.makeCall call).Unambiguous ↔ traffic.Apart (.call call) := by
  rcases traffic.makeCall_cases call with ⟨idle, same⟩ | ⟨issues, made⟩
  · rw [same]
    exact ⟨fun _ issues => absurd issues idle, fun _ => unambiguous⟩
  · have clash : ∀ invocation ∈ traffic.outstanding,
        (invocation.carried = (issued traffic.executor call).carried ↔
          Clash traffic.executor invocation call) := fun invocation member =>
      clash_iff (sound invocation member) (recent issues invocation member).2
    have fresh : traffic.Apart (.call call) ↔
        (issued traffic.executor call).carried ∉ traffic.outstanding.map carried := by
      constructor
      · intro apart taken
        obtain ⟨invocation, member, same⟩ := mem_map.mp taken
        exact apart issues invocation member ((clash invocation member).mp same)
      · intro new _ invocation member clashes
        exact new (mem_map.mpr ⟨invocation, member, (clash invocation member).mpr clashes⟩)
    rw [made, fresh]
    by_cases silent : (traffic.executor.issue call).2 = []
    · -- A call that posts nothing is made only when there is nobody to clash with.
      have nobody : traffic.outstanding = [] := eq_nil_iff_forall_not_mem.mpr
        fun invocation member => (recent issues invocation member).1 silent
      rw [if_pos silent, nobody]
      exact ⟨fun _ taken => (nomatch taken), fun _ =>
        ⟨nodup_nil, fun invocation member => (nomatch member)⟩⟩
    · rw [if_neg silent]
      have extended : ((traffic.outstanding ++ [issued traffic.executor call]).map
          carried).Nodup ↔
          (issued traffic.executor call).carried ∉
            traffic.outstanding.map carried := by
        rw [map_append, map_singleton, ← concat_eq_append, nodup_concat]
        exact ⟨And.left, fun new => ⟨new, unambiguous.distinct⟩⟩
      refine ⟨fun after => extended.mp after.distinct, fun new =>
        ⟨extended.mpr new, fun invocation member => ?_⟩⟩
      rcases mem_append.mp member with earlier | last
      · refine (kept_issue issues.2 fun same => new (mem_map.mpr
          ⟨invocation, earlier, ?_⟩)).mpr (unambiguous.kept invocation earlier)
        exact congrArg (BitVec.setWidth 16) same
      · rw [mem_singleton.mp last]
        exact kept_issued issues.2

theorem sound_step (sound : traffic.Sound) {event : Event} (recent : traffic.Recent event) :
    (traffic.step event).Sound := by
  cases event with
  | call call => exact sound.makeCall recent
  | reply index => exact sound.reply index

theorem unambiguous_step_iff (sound : traffic.Sound) {event : Event}
    (recent : traffic.Recent event) (unambiguous : traffic.Unambiguous) :
    (traffic.step event).Unambiguous ↔ traffic.Apart event := by
  cases event with
  | call call => exact unambiguous_makeCall_iff sound unambiguous recent
  | reply index => exact ⟨fun _ => trivial, fun _ => unambiguous_reply unambiguous index⟩

/-- In a run in which fewer than 65535 calls are made while an invocation is outstanding, no two
outstanding invocations ever carry the same id, and none loses its entry, exactly if no call is
one of the two clashes. -/
theorem unambiguous_iff_apart (maxInlineData : Int) (symbols : List String)
    (connections : List RemoteBuffer) (events : List Event)
    (recent : Along step Recent (start maxInlineData symbols connections) events) :
    Always step Unambiguous (start maxInlineData symbols connections) events ↔
      Along step Apart (start maxInlineData symbols connections) events := by
  refine always_iff_along (fun traffic event sound recent => sound_step sound recent)
    (fun traffic event sound recent => unambiguous_step_iff sound recent)
    (fun invocation member => (nomatch member))
    ⟨nodup_nil, fun invocation member => (nomatch member)⟩ recent

/-! ### Two clashing calls -/

/-- A client of one worker with one function, after an asynchronous call on vectors and one on a
single buffer. -/
def behindVector : List Event :=
  [.call (.asyncVector "echo" [replicate 12 0] [⟨64, 1⟩]),
    .call (.async "echo" (replicate 12 0) ⟨128, 2⟩ (-1))]

/-- Both invocations are outstanding under the id 1, and the second call has overwritten the
future of the first. -/
theorem async_behind_vector_clashes :
    let traffic := run step (start 0 ["echo"] [⟨4096, 7⟩]) behindVector
    traffic.outstanding.map (fun invocation => (invocation.serial, invocation.id)) =
        [(0, 1#32), (1, 1#32)] ∧
      (traffic.executor.futures.lookup 1#32).map Future.promise = some 1 ∧
      ¬traffic.Unambiguous := by
  refine ⟨by decide, by decide, fun unambiguous => ?_⟩
  exact absurd unambiguous.distinct (by decide)

/-- An `async` on a single buffer, a callback, the reply to the first and an `execute`. -/
def mixedCalls : List Event :=
  [.call (.async "echo" (replicate 12 0) ⟨64, 1⟩ (-1)),
    .call (.asyncCallback "echo" (replicate 12 0) ⟨128, 2⟩ 5 (-1)), .reply 0,
    .call (.execute "echo" (replicate 12 0) ⟨64, 1⟩)]

theorem mixed_calls_unambiguous :
    Always step Unambiguous (start 0 ["echo"] [⟨4096, 7⟩]) mixedCalls :=
  (unambiguous_iff_apart 0 ["echo"] [⟨4096, 7⟩] mixedCalls
    ⟨by decide, by decide, trivial, by decide, trivial⟩).mpr
    ⟨by decide, by decide, trivial, by decide, trivial⟩

end Traffic

end RFaaS.Client
