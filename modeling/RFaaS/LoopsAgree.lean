/-
This file compares the two loops of the executor manager on the same events from
outside: the requests and the ends of connections, the messages, the exits of
processes, everything but the steps of the manager thread itself.

When no served client is dropped and all messages have been handled, either loop
has reported a client if its final message is among the events. `poll_rdma` also
reports a client whose process it finds to run no more. The sleeping loop never
looks for that, so the loops agree on a client exactly if the client sent its
final message or `poll_rdma` did not find the end of its process.

The argument follows the queue pair number of a client. Both loops empty the
queue before they poll, so a final message meets its client either registered or
gone, and a client that is gone does not come back.
-/

import RFaaS.AllocationTime
import Mathlib.Data.List.Induction

namespace RFaaS

namespace ExecutorManager

open Transition Event List

/-! ### Events from outside -/

namespace Event

/-- The event is not a step of the manager thread. -/
def outside : Event → Bool
  | .thread _ => false
  | _ => true

/-- The queue pair number of a client that asks for a connection. -/
def newcomer : Event → Option UInt32
  | .requested connection _ _ =>
    if 0 < connection.privateData then none else some connection.qpNum
  | _ => none

/-- The message that arrives. -/
def arriving : Event → Option WorkCompletion
  | .message completion => some completion
  | _ => none

end Event

/-- The queue pair numbers of the clients, in the order of their serials. -/
def newcomers (events : List Event) : List UInt32 := events.filterMap newcomer

/-- The queue pair numbers of the clients that a list of messages has final messages of. -/
def finals (completions : List WorkCompletion) : List UInt32 :=
  (completions.filter fun completion => completion.Final).map WorkCompletion.qpNum

/-- The queue pair numbers of the clients that have sent their final message. -/
def farewells (events : List Event) : List UInt32 := finals (events.filterMap Event.arriving)

/-- The client with the given serial has sent its final message. -/
def Parted (events : List Event) (serial : Nat) : Prop :=
  ∃ qpNum ∈ (newcomers events)[serial]?, qpNum ∈ farewells events

instance (events : List Event) (serial : Nat) : Decidable (Parted events serial) :=
  Option.decidableExistsMem _

/-- The queue pair numbers of the clients up to an event. -/
def meet (known : List UInt32) (event : Event) : List UInt32 := known ++ event.newcomer.toList

/-- No two clients have one queue pair number, and a final message comes from a client. -/
def Introduced (known : List UInt32) (event : Event) : Prop :=
  (∀ qpNum ∈ event.newcomer, qpNum ∉ known) ∧
    ∀ qpNum ∈ finals event.arriving.toList, qpNum ∈ known

instance (known : List UInt32) (event : Event) : Decidable (Introduced known event) :=
  @instDecidableAnd _ _ (Option.decidableForallMem _) (decidableBAll _ _)

theorem run_meet (known : List UInt32) (events : List Event) :
    run meet known events = known ++ newcomers events := by
  induction events generalizing known with
  | nil => simp [newcomers]
  | cons event rest inductionHypothesis =>
    rw [run_cons, inductionHypothesis, meet, newcomers, newcomers, filterMap_cons]
    cases event.newcomer <;> simp

theorem filterMap_concat {Output : Type*} (output : Event → Option Output) (past : List Event)
    (event : Event) : (past ++ [event]).filterMap output =
      past.filterMap output ++ (output event).toList := by
  rw [filterMap_append]
  cases next : output event <;> simp [next]

theorem newcomers_concat (past : List Event) (event : Event) :
    newcomers (past ++ [event]) = newcomers past ++ event.newcomer.toList :=
  filterMap_concat newcomer past event

@[simp] theorem finals_append (first second : List WorkCompletion) :
    finals (first ++ second) = finals first ++ finals second := by
  simp [finals]

theorem farewells_concat (past : List Event) (event : Event) :
    farewells (past ++ [event]) = farewells past ++ finals event.arriving.toList := by
  rw [farewells, filterMap_concat, finals_append, farewells]

theorem mem_finals {completions : List WorkCompletion} {qpNum : UInt32} :
    qpNum ∈ finals completions ↔
      ∃ completion ∈ completions, completion.Final ∧ completion.qpNum = qpNum := by
  simp [finals, and_assoc]

theorem Parted.concat {past : List Event} {serial : Nat} (parted : Parted past serial)
    (event : Event) : Parted (past ++ [event]) serial := by
  obtain ⟨qpNum, own, sent⟩ := parted
  refine ⟨qpNum, ?_, ?_⟩
  · rw [newcomers_concat]
    exact List.getElem?_append_left (List.getElem?_eq_some_iff.mp own).1 |>.trans own
  · rw [farewells_concat]
    exact List.mem_append_left _ sent

/-- What the clients do is a matter of the events from outside. -/
theorem filterMap_outside {Output : Type*} {output : Event → Option Output}
    (silent : ∀ chance, output (.thread chance) = none) (events : List Event) :
    (events.filter outside).filterMap output = events.filterMap output := by
  rw [filterMap_filter]
  congr 1
  funext event
  cases event with
  | thread chance => exact (silent chance).symm
  | _ => rfl

variable (events : List Event)

theorem newcomers_outside : newcomers (events.filter outside) = newcomers events :=
  filterMap_outside (fun _ => rfl) events

theorem farewells_outside : farewells (events.filter outside) = farewells events :=
  congrArg finals (filterMap_outside (fun _ => rfl) events)

theorem introduced_outside :
    Along meet Introduced [] (events.filter outside) ↔ Along meet Introduced [] events := by
  refine along_filter (fun known event inside => ?_) (fun known event inside => ?_)
  · cases event <;> simp_all [outside, meet, newcomer]
  · cases event <;> simp_all [outside, Introduced, newcomer, Event.arriving, finals]

namespace Manager

/-! ### What a step does with clients and messages -/

/-- A client with the queue pair number waits to be registered. -/
def Awaits (manager : Manager) (qpNum : UInt32) : Prop :=
  ∃ client connection, .connect (.client client) ∈ manager.clientQueue ∧
    client.connection = some connection ∧ connection.qpNum = qpNum

/-- No client with the queue pair number is registered or waits to be. -/
def Departed (manager : Manager) (qpNum : UInt32) : Prop :=
  manager.clients.lookup qpNum = none ∧ ¬ manager.Awaits qpNum

/-- The clients whose process an event finds to run no more. -/
def finishedBy (manager : Manager) : Event → List Nat
  | .thread _ =>
    match manager.phase with
    | .pollCheck =>
      (manager.clients.entries.filter fun entry => entry.2.finished manager.exited).map
        fun entry => entry.2.serial
    | _ => []
  | _ => []

/-- The process of the client is not found to run no more. -/
def Unfinished (serial : Nat) (manager : Manager) (event : Event) : Prop :=
  serial ∉ manager.finishedBy event

instance (serial : Nat) (manager : Manager) (event : Event) :
    Decidable (manager.Unfinished serial event) :=
  inferInstanceAs (Decidable (¬ _))

variable {manager : Manager}

theorem Awaits.of_step {event : Event} {qpNum : UInt32}
    (awaits : (manager.step event).Awaits qpNum) :
    manager.Awaits qpNum ∨ event.newcomer = some qpNum := by
  obtain ⟨client, connection, member, own, rfl⟩ := awaits
  rcases (manager.step_happens event).mem_queue member with old | new
  · exact Or.inl ⟨client, connection, old, own, rfl⟩
  · cases new with
    | client arrival also idle serial active fresh =>
      rw [own] at also
      cases also
      rw [arrival, newcomer, if_neg fresh]
      exact Or.inr rfl

/-- A client that is gone does not come back. -/
theorem Departed.step {manager : Manager} {event : Event} {qpNum : UInt32}
    (departed : manager.Departed qpNum) (other : event.newcomer ≠ some qpNum) :
    (manager.step event).Departed qpNum := by
  refine ⟨Option.eq_none_iff_forall_ne_some.mpr fun client found => ?_,
    fun awaits => awaits.of_step.elim departed.2 other⟩
  cases (manager.step_happens event).became found with
  | kept was | adopted _ _ was | served was =>
    rw [departed.1] at was
    cases was
  | entered head own key => exact departed.2 ⟨_, _, head ▸ mem_cons_self, own, key.symm⟩

theorem step_made (running : manager.fault = false) (event : Event) :
    (manager.step event).made = manager.made + event.newcomer.toList.length := by
  rw [step.eq_def, if_neg (by simp [running])]
  cases event with
  | requested connection =>
    by_cases positive : 0 < connection.privateData
    · simp only [requested, newcomer, if_pos positive]
      split <;> rfl
    · simp only [requested, newcomer, if_neg positive]
      rfl
  | account =>
    simp only [account]
    split <;> rfl
  | thread chance => exact threadStep_made manager chance
  | _ => rfl

/-- What a step does with the messages. Those that wait stay, and others arrive behind them; or the
first one of the batch is handled, and its client is gone if it is final. -/
inductive Hears (manager : Manager) (arriving : List WorkCompletion) (after : Manager) : Prop
  | moves
      (total : after.phase.batch ++ after.completions =
        manager.phase.batch ++ manager.completions ++ arriving)
      (polled : after.phase.batch = manager.phase.batch ∨ manager.clientQueue = [])
  | handles (completion) (batch : manager.phase.batch = completion :: after.phase.batch)
      (completions : after.completions = manager.completions ++ arriving)
      (gone : completion.Final → after.clients.lookup completion.qpNum = none)

/-- The client of a final message is gone once the message is handled. -/
theorem handleClientMessage_gone {completion : WorkCompletion} (final : completion.Final)
    (chance : Chance) :
    (manager.handleClientMessage completion chance).clients.lookup completion.qpNum = none := by
  cases found : manager.clients.lookup completion.qpNum with
  | none =>
    rw [handleClientMessage, found]
    exact found
  | some client =>
    rw [(handleClientMessage_final found final.1 final.2 chance).2.1]
    exact AList.lookup_erase _ _

theorem handleClientMessage_keeps (manager : Manager) (completion : WorkCompletion)
    (chance : Chance) :
    (manager.handleClientMessage completion chance).phase = manager.phase ∧
      (manager.handleClientMessage completion chance).completions = manager.completions :=
  @handleClientMessage_rule (fun after => after.phase = manager.phase ∧
    after.completions = manager.completions) manager completion chance ⟨rfl, rfl⟩
    (fun _ _ => ⟨rfl, rfl⟩) (fun _ _ _ _ _ _ => ⟨rfl, rfl⟩) fun _ _ _ =>
    ⟨(eraseClient_spares _ _).phase, (eraseClient_spares _ _).completions⟩

/-- The sleeping loop goes on, and what a step of the thread does with the messages. -/
theorem threadStep_hears (manager : Manager) (chance : Chance) :
    Hears manager [] (manager.threadStep chance) ∧
      (manager.phase.sleeps → (manager.threadStep chance).phase.sleeps) := by
  have moved : ∀ after : Manager, manager.Moves after.phase after.completions →
      Hears manager [] after ∧ (manager.phase.sleeps → after.phase.sleeps) := fun after moves =>
    ⟨.moves (by rw [moves.total, append_nil]) moves.polled, moves.sleeps⟩
  have spared : ∀ before after : Manager, Spares before after → before.phase = manager.phase →
      before.completions = manager.completions →
      Hears manager [] after ∧ (manager.phase.sleeps → after.phase.sleeps) := by
    intro before after same phase completions
    refine moved after ?_
    rw [same.phase, same.completions, phase, completions]
    exact .refl manager
  refine @threadStep_rule (fun after _ => Hears manager [] after ∧
    (manager.phase.sleeps → after.phase.sleeps)) manager chance
    (fun _ _ _ _ moves => moved _ moves.1)
    (fun _ _ _ => spared _ _ (handleConnections_spares _ _) rfl rfl)
    (fun _ _ _ => spared _ _ (.refl _) rfl rfl)
    (fun _ _ _ => spared _ _ (eraseClient_spares _ _) rfl rfl)
    (fun _ _ _ => spared _ _ (eraseClient_spares _ _) rfl rfl)
    (fun phase completion batch sleeps => ?_) (fun _ _ moves => moved _ moves.1) (fun turn => ?_)
    fun turn => moved _ ?_
  · obtain ⟨same, completions⟩ :=
      handleClientMessage_keeps { manager with phase := phase } completion chance
    refine ⟨.handles completion ?_ ?_ fun final => ?_, ?_⟩
    · rw [same, batch]
    · rw [completions, append_nil]
    · exact handleClientMessage_gone final chance
    · rwa [same]
  · refine moved _ ?_
    rw [(checkExecutors_spares _ _).phase, (checkExecutors_spares _ _).completions]
    exact ⟨by rw [turn]; rfl, Or.inl (by rw [turn]; rfl), by rw [turn]; exact id⟩
  · rw [clearClients, (eraseAll_spares manager _).completions]
    exact ⟨by rw [turn]; rfl, Or.inl (by rw [turn]; rfl), fun _ => rfl⟩

theorem step_hears (running : manager.fault = false) (event : Event) :
    Hears manager event.arriving.toList (manager.step event) ∧
      (manager.phase.sleeps → (manager.step event).phase.sleeps) := by
  rw [step.eq_def, if_neg (by simp [running])]
  have moved : ∀ {after : Manager} {arriving : List WorkCompletion}, after.phase = manager.phase →
      after.completions = manager.completions ++ arriving →
      Hears manager arriving after ∧ (manager.phase.sleeps → after.phase.sleeps) := by
    intro after arriving phase completions
    refine ⟨.moves ?_ (Or.inl (by rw [phase])), by rw [phase]; exact id⟩
    rw [phase, completions, append_assoc]
  cases event with
  | requested =>
    refine moved ?_ ?_ <;>
      · simp only [requested, Event.arriving, Option.toList_none, append_nil]
        split
        · split <;> rfl
        · rfl
  | account =>
    refine moved ?_ ?_ <;>
      · simp only [account, Event.arriving, Option.toList_none, append_nil]
        split <;> rfl
  | thread chance => exact threadStep_hears manager chance
  | message => exact moved rfl rfl
  | _ => exact moved rfl (append_nil _).symm

/-! ### Runs -/

/-- The invariant: every client waits or is registered under the queue pair number that it came
with, and a final message waits, or was polled when its client no longer waited, or has been
handled. -/
structure Acquainted (past : List Event) (manager : Manager) : Prop where
  distinct : (newcomers past).Nodup
  known : farewells past ⊆ newcomers past
  made : manager.made = (newcomers past).length
  queued : ∀ client, .connect (.client client) ∈ manager.clientQueue →
    ∃ connection, client.connection = some connection ∧
      (newcomers past)[client.serial]? = some connection.qpNum
  registered : ∀ qpNum client, manager.clients.lookup qpNum = some client →
    (newcomers past)[client.serial]? = some qpNum
  arrived : finals (manager.phase.batch ++ manager.completions) ⊆ farewells past
  handled : ∀ qpNum ∈ farewells past, manager.Departed qpNum ∨
    qpNum ∈ finals manager.completions ∨
    qpNum ∈ finals manager.phase.batch ∧ ¬ manager.Awaits qpNum

theorem start_acquainted (loop : Loop) : Acquainted [] (start loop) where
  distinct := nodup_nil
  known := nil_subset _
  made := rfl
  queued := nofun
  registered := nofun
  arrived := by cases loop <;> exact nil_subset _
  handled := nofun

section Step

variable {past : List Event} {manager : Manager} {event : Event}

/-- The number of a client stays what it was. -/
theorem getElem?_newcomers_concat {serial : Nat} {qpNum : UInt32}
    (own : (newcomers past)[serial]? = some qpNum) (event : Event) :
    (newcomers (past ++ [event]))[serial]? = some qpNum := by
  rw [newcomers_concat]
  exact (List.getElem?_append_left (List.getElem?_eq_some_iff.mp own).1).trans own

theorem Acquainted.handled_step (acquainted : Acquainted past manager)
    (running : manager.fault = false) {qpNum : UInt32}
    (sent : qpNum ∈ farewells (past ++ [event])) (other : event.newcomer ≠ some qpNum) :
    (manager.step event).Departed qpNum ∨ qpNum ∈ finals (manager.step event).completions ∨
      qpNum ∈ finals (manager.step event).phase.batch ∧ ¬ (manager.step event).Awaits qpNum := by
  have stays : ¬ manager.Awaits qpNum → ¬ (manager.step event).Awaits qpNum := fun absent awaits =>
    awaits.of_step.elim absent other
  have waits : (manager.step event).Departed qpNum ∨
      qpNum ∈ finals (manager.completions ++ event.arriving.toList) ∨
      qpNum ∈ finals manager.phase.batch ∧ ¬ manager.Awaits qpNum := by
    rw [finals_append, mem_append]
    rw [farewells_concat, mem_append] at sent
    rcases sent with old | new
    · rcases acquainted.handled qpNum old with departed | waiting | polled
      · exact Or.inl (departed.step other)
      · exact Or.inr (Or.inl (Or.inl waiting))
      · exact Or.inr (Or.inr polled)
    · exact Or.inr (Or.inl (Or.inr new))
  rcases (step_hears running event).1 with
    ⟨total, same | empty⟩ | ⟨completion, batch, completions, gone⟩
  · rw [same, append_assoc] at total
    rw [append_cancel_left total, same]
    exact waits.imp_right (Or.imp_right (And.imp_right stays))
  · have nobody : ¬ manager.Awaits qpNum := by
      rintro ⟨client, connection, member, _⟩
      rw [empty] at member
      cases member
    refine waits.imp_right fun waiting => ?_
    have still : qpNum ∈ finals ((manager.step event).phase.batch ++
        (manager.step event).completions) := by
      rw [total, append_assoc, finals_append, mem_append]
      exact waiting.symm.imp_left And.left
    rw [finals_append, mem_append] at still
    exact still.symm.imp_right fun polled => ⟨polled, stays nobody⟩
  · rw [completions]
    rcases waits with departed | waiting | ⟨polled, absent⟩
    · exact Or.inl departed
    · exact Or.inr (Or.inl waiting)
    · rw [batch] at polled
      obtain ⟨first, member, final, rfl⟩ := mem_finals.mp polled
      rcases mem_cons.mp member with rfl | behind
      · exact Or.inl ⟨gone final, stays absent⟩
      · exact Or.inr (Or.inr ⟨mem_finals.mpr ⟨first, behind, final, rfl⟩, stays absent⟩)

theorem Acquainted.step (acquainted : Acquainted past manager) (running : manager.fault = false)
    (introduced : Introduced (newcomers past) event) :
    Acquainted (past ++ [event]) (manager.step event) where
  distinct := by
    rw [newcomers_concat]
    refine nodup_append.mpr ⟨acquainted.distinct, ?_, ?_⟩
    · cases event.newcomer <;> simp
    · rintro qpNum old _ new rfl
      exact introduced.1 qpNum (Option.mem_toList.mp new) old
  known := by
    rw [newcomers_concat, farewells_concat]
    refine append_subset.mpr ⟨fun qpNum sent => ?_, fun qpNum sent => ?_⟩
    · exact List.mem_append_left _ (acquainted.known sent)
    · exact List.mem_append_left _ (introduced.2 qpNum sent)
  made := by
    rw [step_made running, acquainted.made, newcomers_concat, length_append]
  queued client member := by
    rcases (manager.step_happens event).mem_queue member with old | new
    · obtain ⟨connection, own, number⟩ := acquainted.queued client old
      exact ⟨connection, own, getElem?_newcomers_concat number event⟩
    · cases new with
      | @client connection _ _ _ arrival own idle serial active fresh =>
        refine ⟨connection, own, ?_⟩
        rw [serial, acquainted.made, newcomers_concat, arrival, newcomer, if_neg fresh]
        exact getElem?_concat_length
  registered qpNum client found := by
    refine getElem?_newcomers_concat ?_ event
    cases (manager.step_happens event).became found with
    | kept was same | adopted _ _ was same | served was same =>
      rw [same]
      exact acquainted.registered qpNum _ was
    | @entered queued _ head own key same =>
      obtain ⟨other, also, number⟩ := acquainted.queued queued (head ▸ mem_cons_self)
      rw [own] at also
      cases also
      rw [same, key]
      exact number
  arrived qpNum member := by
    rw [farewells_concat, mem_append]
    have old := @acquainted.arrived qpNum
    rw [finals_append, mem_append] at old member
    rcases (step_hears running event).1 with ⟨total, _⟩ | ⟨completion, batch, completions, _⟩
    · rw [← mem_append, ← finals_append, total, finals_append, finals_append,
        mem_append, mem_append] at member
      exact member.imp_left old
    · rw [completions, finals_append, mem_append] at member
      rcases member with polled | waiting | new
      · refine Or.inl (old (Or.inl ?_))
        obtain ⟨first, behind, last⟩ := mem_finals.mp polled
        exact mem_finals.mpr ⟨first, batch ▸ mem_cons_of_mem _ behind, last⟩
      · exact Or.inl (old (Or.inr waiting))
      · exact Or.inr new
  handled qpNum sent := by
    refine acquainted.handled_step running sent fun new => introduced.1 qpNum new ?_
    rw [farewells_concat, mem_append] at sent
    exact sent.elim (@acquainted.known qpNum) (introduced.2 qpNum)

/-- A client whose process is found to run no more is gone after the step. -/
theorem Acquainted.departed (acquainted : Acquainted past manager) (sound : manager.Sound)
    (running : manager.fault = false) {serial : Nat} (ended : serial ∈ manager.finishedBy event) :
    ∃ qpNum ∈ (newcomers past)[serial]?, (manager.step event).Departed qpNum := by
  cases event with
  | thread chance =>
    rw [finishedBy] at ended
    split at ended
    · rename_i turn
      obtain ⟨⟨qpNum, client⟩, member, rfl⟩ := mem_map.mp ended
      obtain ⟨present, finished⟩ := mem_filter.mp member
      have found : manager.clients.lookup qpNum = some client := AList.mem_lookup_iff.mpr present
      have number := acquainted.registered qpNum client found
      refine ⟨qpNum, number, ?_, fun awaits => ?_⟩
      · rw [step.eq_def, if_neg (by simp [running])]
        dsimp only [threadStep]
        rw [turn]
        dsimp only
        rw [(checkExecutors_spec _ _).2.2]
        simp [found, finished]
      · rcases awaits.of_step with ⟨queued, connection, waits, own, rfl⟩ | new
        · obtain ⟨other, also, same⟩ := acquainted.queued queued waits
          rw [own] at also
          cases also
          have inside := (List.getElem?_eq_some_iff.mp same).1
          exact sound.queued_serial_ne found waits
            ((List.getElem?_inj inside acquainted.distinct).mp (same.trans number.symm))
        · cases new
    · cases ended
  | _ => cases ended

end Step

/-- What a run has followed. -/
structure Followed (loop : Loop) (past : List Event) : Prop
    extends Acquainted past (run step (start loop) past) where
  noticed : ∀ notice ∈ (run step (start loop) past).sent, Parted past notice.serial ∨
    ¬ Along step (Unfinished notice.serial) (start loop) past
  ended : ∀ serial, ¬ Along step (Unfinished serial) (start loop) past →
    ∃ qpNum ∈ (newcomers past)[serial]?, (run step (start loop) past).Departed qpNum

theorem run_sound (loop : Loop) (events : List Event) : (run step (start loop) events).Sound := by
  have preserved : ∀ manager event, Sound manager → Sound (manager.step event) :=
    fun _ event sound => (step_outcome sound event).sound
  exact run_stable preserved events (start_sound loop)

theorem run_followed (loop : Loop) (events : List Event)
    (introduced : Along meet Introduced [] events)
    (running : (run step (start loop) events).fault = false) : Followed loop events := by
  induction events using reverseRecOn with
  | nil => exact ⟨start_acquainted loop, nofun, fun serial found => absurd trivial found⟩
  | append_singleton past event inductionHypothesis =>
    rw [along_append, run_meet, nil_append, along_cons] at introduced
    obtain ⟨earlier, new, _⟩ := introduced
    have split : run step (start loop) (past ++ [event]) =
        (run step (start loop) past).step event := run_append step _ _ _
    rw [split] at running
    have before : (run step (start loop) past).fault = false := by
      by_contra faulted
      rw [step.eq_def, if_pos (by simpa using faulted)] at running
      exact faulted running
    have followed := inductionHypothesis earlier before
    have outsider : ∀ qpNum serial, (newcomers past)[serial]? = some qpNum →
        event.newcomer ≠ some qpNum := fun qpNum serial number again =>
      new.1 qpNum again (mem_of_getElem? number)
    refine ⟨?_, fun notice member => ?_, fun serial found => ?_⟩
    · rw [split]
      exact followed.toAcquainted.step before new
    · rw [split] at member
      rw [along_append]
      rcases step_bills member with old | ⟨chance, qpNum, client, rfl, leaves, billed⟩
      · exact (followed.noticed notice old).imp (fun parted => parted.concat event)
          fun found along => found along.1
      · rw [billed.serial]
        have number := followed.registered qpNum client billed.found
        rcases leaves with ⟨completion, polled, final, rfl⟩ | ⟨turn, ended⟩
        · have sent : completion.qpNum ∈ finals ((run step (start loop) past).phase.batch ++
              (run step (start loop) past).completions) :=
            mem_finals.mpr ⟨completion, List.mem_append_left _ polled, final, rfl⟩
          exact Or.inl (Parted.concat ⟨_, number, followed.arrived sent⟩ _)
        · refine Or.inr fun along => along.2.1 ?_
          rw [finishedBy, turn]
          refine mem_map.mpr ⟨⟨qpNum, client⟩, mem_filter.mpr ⟨?_, ended⟩, rfl⟩
          exact AList.mem_lookup_iff.mp billed.found
    · rw [split]
      by_cases quiet : Along step (Unfinished serial) (start loop) past
      · have ended : serial ∈ (run step (start loop) past).finishedBy event := by
          by_contra unfinished
          exact found (along_append.mpr ⟨quiet, unfinished, trivial⟩)
        obtain ⟨qpNum, number, departed⟩ :=
          followed.toAcquainted.departed (run_sound loop past) before ended
        exact ⟨qpNum, getElem?_newcomers_concat number event, departed⟩
      · obtain ⟨qpNum, number, departed⟩ := followed.ended serial quiet
        exact ⟨qpNum, getElem?_newcomers_concat number event,
          departed.step (outsider qpNum serial number)⟩

/-- All messages that arrived have been handled, and no null pointer was used. -/
def Settled (manager : Manager) : Prop :=
  manager.fault = false ∧ manager.phase.batch = [] ∧ manager.completions = []

instance (manager : Manager) : Decidable manager.Settled := inferInstanceAs (Decidable (_ ∧ _))

/-- The clients that were ever registered. -/
def registrations (manager : Manager) : List Client :=
  manager.removed ++ manager.clients.entries.map Sigma.snd

section Reports

variable {loop : Loop} {events : List Event} (introduced : Along meet Introduced [] events)
  (settled : (run step (start loop) events).Settled)

include introduced settled

/-- A served client is reported once when it has sent its final message, or when its process was
found to run no more. -/
theorem noticesFor_eq_one (keeps : Along step DropsUnserved (start loop) events) {client : Client}
    (member : client ∈ (run step (start loop) events).registrations) (served : client.served ≠ none)
    (left : Parted events client.serial ∨
      ¬ Along step (Unfinished client.serial) (start loop) events) :
    (run step (start loop) events).noticesFor client.serial = 1 := by
  have followed := run_followed loop events introduced settled.1
  obtain ⟨qpNum, number, departed⟩ : ∃ qpNum ∈ (newcomers events)[client.serial]?,
      (run step (start loop) events).Departed qpNum := by
    rcases left with ⟨qpNum, number, sent⟩ | ended
    · refine ⟨qpNum, number, ?_⟩
      have handled := followed.handled qpNum sent
      rw [settled.2.1, settled.2.2] at handled
      simpa [finals] using handled
    · exact followed.ended client.serial ended
  rcases mem_append.mp member with removed | registered
  · exact ((always_givenBack_iff loop events).mpr keeps).last client removed served
  · obtain ⟨⟨other, _⟩, present, rfl⟩ := mem_map.mp registered
    have found := AList.mem_lookup_iff.mpr present
    have same := number.symm.trans (followed.registered other _ found)
    cases same
    rw [departed.1] at found
    cases found

/-- A client that has not sent its final message is not reported when its process was not found to
run no more. -/
theorem noticesFor_eq_zero {serial : Nat} (stays : ¬ Parted events serial)
    (unfinished : Along step (Unfinished serial) (start loop) events) :
    (run step (start loop) events).noticesFor serial = 0 := by
  refine count_eq_zero.mpr fun reported => ?_
  obtain ⟨notice, member, rfl⟩ := mem_map.mp reported
  exact ((run_followed loop events introduced settled.1).noticed notice member).elim stays
    fun found => found unfinished

end Reports

/-- The sleeping loop does not look at the processes. -/
theorem sleeping_unfinished (serial : Nat) (events : List Event) :
    Along step (Unfinished serial) (start .processEventsSleep) events := by
  have preserved : ∀ manager event, Phase.sleeps (Manager.phase manager) = true → True →
      (manager.step event).phase.sleeps = true := by
    intro manager event sleeps _
    cases running : manager.fault with
    | true => rwa [step.eq_def, if_pos running]
    | false => exact (step_hears running event).2 sleeps
  refine Along.of_invariant preserved (fun manager event sleeps _ => ?_) rfl
    (along_of_forall (fun _ _ _ => trivial) _)
  cases event with
  | thread chance =>
    rw [Unfinished, finishedBy]
    split
    · rename_i turn
      rw [turn] at sleeps
      cases sleeps
    · exact not_mem_nil
  | _ => exact not_mem_nil

/-! ### The two loops -/

/-- In both loops, every served client that was removed has been reported exactly once in every
state of a run exactly if no step of the run drops a served client. When two runs without such
steps, one of each loop, have the same events from outside and have handled all messages, they have
reported a client that both have served equally often exactly if `poll_rdma` never found that the
process of the client runs no more, or the client has sent its final message. -/
theorem leases_given_back_iff (polling sleeping : List Event) :
    (Always step GivenBack (start .pollRdma) polling ↔
        Along step DropsUnserved (start .pollRdma) polling) ∧
      (Always step GivenBack (start .processEventsSleep) sleeping ↔
        Along step DropsUnserved (start .processEventsSleep) sleeping) ∧
      (polling.filter outside = sleeping.filter outside →
        Along meet Introduced [] polling →
        Along step DropsUnserved (start .pollRdma) polling →
        Along step DropsUnserved (start .processEventsSleep) sleeping →
        (run step (start .pollRdma) polling).Settled →
        (run step (start .processEventsSleep) sleeping).Settled →
        ∀ polled ∈ (run step (start .pollRdma) polling).registrations,
        ∀ slept ∈ (run step (start .processEventsSleep) sleeping).registrations,
          polled.serial = slept.serial → polled.served ≠ none → slept.served ≠ none →
          ((run step (start .pollRdma) polling).noticesFor polled.serial =
              (run step (start .processEventsSleep) sleeping).noticesFor slept.serial ↔
            Along step (Unfinished polled.serial) (start .pollRdma) polling ∨
              Parted polling polled.serial)) := by
  refine ⟨always_givenBack_iff _ _, always_givenBack_iff _ _, fun same introduced pollingKeeps
    sleepingKeeps pollingSettled sleepingSettled polled polledMember slept sleptMember serial
    polledServed sleptServed => ?_⟩
  have alsoIntroduced : Along meet Introduced [] sleeping := by
    rw [← introduced_outside, ← same, introduced_outside]
    exact introduced
  have parted : Parted sleeping slept.serial ↔ Parted polling polled.serial := by
    rw [Parted, Parted, ← newcomers_outside sleeping, ← farewells_outside sleeping, ← same,
      newcomers_outside, farewells_outside, serial]
  have sleptUnfinished := sleeping_unfinished slept.serial sleeping
  have polledOnce := noticesFor_eq_one introduced pollingSettled pollingKeeps polledMember
    polledServed
  by_cases sent : Parted polling polled.serial
  · have sleptOnce := noticesFor_eq_one alsoIntroduced sleepingSettled sleepingKeeps sleptMember
      sleptServed (Or.inl (parted.mpr sent))
    rw [polledOnce (Or.inl sent), sleptOnce]
    exact iff_of_true rfl (Or.inr sent)
  · have sleptNever := noticesFor_eq_zero alsoIntroduced sleepingSettled
      (fun sleptSent => sent (parted.mp sleptSent)) sleptUnfinished
    rw [sleptNever, or_iff_left sent]
    constructor
    · intro never
      by_contra found
      rw [polledOnce (Or.inr found)] at never
      cases never
    · exact noticesFor_eq_zero introduced pollingSettled sent

/-- A client that leaves with its final message is reported in both loops. -/
theorem final_message_reported :
    let polling := servedThen 6 [finalMessage] 6
    let sleeping := servedThen 8 [finalMessage] 8
    Always step GivenBack (start .pollRdma) polling ∧
      Always step GivenBack (start .processEventsSleep) sleeping ∧
      ∀ polled ∈ (run step (start .pollRdma) polling).registrations,
      ∀ slept ∈ (run step (start .processEventsSleep) sleeping).registrations,
        polled.serial = slept.serial → polled.served ≠ none → slept.served ≠ none →
        (run step (start .pollRdma) polling).noticesFor polled.serial =
          (run step (start .processEventsSleep) sleeping).noticesFor slept.serial := by
  intro polling sleeping
  obtain ⟨givenPolling, givenSleeping, agree⟩ := leases_given_back_iff polling sleeping
  have polled : Along step DropsUnserved (start .pollRdma) polling := by decide
  have slept : Along step DropsUnserved (start .processEventsSleep) sleeping := by decide
  have sent : ∀ client ∈ (run step (start .pollRdma) polling).registrations,
      Parted polling client.serial := by decide
  exact ⟨givenPolling.mpr polled, givenSleeping.mpr slept, fun _ first _ second same served also =>
    (agree rfl (by decide) polled slept (by decide) (by decide) _ first _ second same served
      also).mpr (Or.inr (sent _ first))⟩

/-- A client whose connection ends without a final message is never reported. When the final
message and the end of the connection wait side by side, the sleeping loop reports the client and
the polling loop loses its lease. When the process of the client exits, only the polling loop
reports the client, although neither loop drops one. -/
theorem ended_connection_not_reported :
    let lost := run step (start .processEventsSleep) (servedThen 8 [connectionEnd] 8)
    let polling := run step (start .pollRdma) (servedThen 6 [connectionEnd, finalMessage] 8)
    let sleeping := run step (start .processEventsSleep)
      (servedThen 8 [connectionEnd, finalMessage] 8)
    let found := run step (start .pollRdma) (servedThen 6 [.exit 100] 8)
    let missed := run step (start .processEventsSleep) (servedThen 8 [.exit 100] 8)
    (lost.removed.map Client.served = [some 5] ∧ lost.noticesFor 0 = 0 ∧ ¬ lost.GivenBack) ∧
      (polling.removed.map Client.served = [some 5] ∧ polling.noticesFor 0 = 0 ∧
        ¬ polling.GivenBack) ∧
      (sleeping.removed.map Client.served = [some 5] ∧ sleeping.noticesFor 0 = 1 ∧
        sleeping.GivenBack) ∧
      (Along step DropsUnserved (start .pollRdma) (servedThen 6 [.exit 100] 8) ∧
        found.registrations.map Client.served = [some 5] ∧ found.noticesFor 0 = 1) ∧
      Along step DropsUnserved (start .processEventsSleep) (servedThen 8 [.exit 100] 8) ∧
        missed.registrations.map Client.served = [some 5] ∧ missed.noticesFor 0 = 0 := by
  decide

end Manager

end ExecutorManager

end RFaaS
