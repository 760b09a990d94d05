/-
This file models the semaphore that the blocking queue rests on, for the one
thread that signals and the one that waits, at the granularity of single
accesses. Most calls only touch `m_count`. A waiter that finds nothing leaves a
debt of one in it and goes to sleep on `m_sema`, and the signaller that finds the
debt wakes it. The delicate case is a waiter whose time runs out while it is
being signalled: it takes its debt back, or finds that it was paid and collects
the wake-up. The file shows that the two agree in every interleaving, so that
the calls answer as if a number of units were changed in one step.
-/

import RFaaS.Since

namespace RFaaS

namespace LightweightSemaphore

open Transition

/-! ### The shared memory -/

/-- The two counters. `sound` is false once an `assert` has failed. -/
structure Semaphore where
  count : Int
  tokens : Nat
  sound : Bool
  deriving DecidableEq, Repr

def Semaphore.expect (sema : Semaphore) (condition : Bool) : Semaphore :=
  { sema with sound := sema.sound && condition }

/-- `m_count.fetch_add`. The count that was there is read before it. -/
def Semaphore.fetchAdd (sema : Semaphore) (amount : Int) : Semaphore :=
  { sema with count := sema.count + amount }

/-- `sem_post`, repeated until it succeeds. -/
def Semaphore.post (sema : Semaphore) : Semaphore := { sema with tokens := sema.tokens + 1 }

/-- What `sem_wait`, `sem_timedwait` and `sem_trywait` do when they succeed. -/
def Semaphore.collect (sema : Semaphore) : Semaphore := { sema with tokens := sema.tokens - 1 }

def Semaphore.availableApprox (sema : Semaphore) : Nat :=
  if sema.count > 0 then sema.count.toNat else 0

/-! ### The two threads -/

/-- `tryWait`, or `wait` with its time-out in microseconds; `wait()` is `wait(-1)`. -/
inductive Call where
  | tryWait
  | wait (timeoutUsecs : Int)
  deriving DecidableEq, Repr

/-- What a call has done: units signalled, a unit taken, no unit found. -/
inductive Response where
  | signalled (count : Int)
  | acquired
  | denied
  deriving DecidableEq, Repr

/-- Where the signalling thread is in `signal`. -/
inductive Signaller where
  | idle
  | add (count : Int)
  | post
  deriving DecidableEq, Repr

/-- Where the waiting thread is: the load of `tryWait`, the decrement after a load that found
something, and the accesses of `waitWithPartialSpinning`. -/
inductive Waiter where
  | idle
  | load (call : Call)
  | grab
  | spin (timeoutUsecs : Int) (spins : Nat)
  | decrement (timeoutUsecs : Int)
  | sleep (timeoutUsecs : Int)
  | restore
  | retake
  | tryToken
  deriving DecidableEq, Repr

def Signaller.step (sema : Semaphore) :
    Signaller → Semaphore × Signaller × Option Response
  | .idle => (sema, .idle, none)
  | .add count =>
    let oldCount := sema.count
    let sema := ((sema.expect (count ≥ 0)).fetchAdd count).expect (oldCount ≥ -1)
    (sema, if oldCount < 0 then .post else .idle, some (.signalled count))
  | .post => (sema.post, .idle, none)

/-- `failed` says that `m_sema` is given up on, because the time is over or for an error. A waiter
that is asleep and has no token stays where it is. -/
def Waiter.step (failed : Bool) (sema : Semaphore) :
    Waiter → Semaphore × Waiter × Option Response
  | .idle => (sema, .idle, none)
  | .load call =>
    if sema.count > 0 then (sema, .grab, none)
    else
      match call with
      | .tryWait => (sema, .idle, some .denied)
      | .wait timeoutUsecs => (sema, .spin timeoutUsecs 1023, none)
  | .grab => (sema.fetchAdd (-1), .idle, some .acquired)
  | .spin timeoutUsecs spins =>
    if sema.count > 0 then (sema, .grab, none)
    else
      match spins with
      | 0 => (sema, .decrement timeoutUsecs, none)
      | spins + 1 => (sema, .spin timeoutUsecs spins, none)
  | .decrement timeoutUsecs =>
    let oldCount := sema.count
    let sema := sema.fetchAdd (-1)
    if oldCount > 0 then (sema, .idle, some .acquired)
    else if timeoutUsecs = 0 then (sema, .restore, none)
    else (sema, .sleep timeoutUsecs, none)
  | .sleep timeoutUsecs =>
    if failed then (sema, .restore, none)
    else if sema.tokens > 0 then (sema.collect, .idle, some .acquired)
    else (sema, .sleep timeoutUsecs, none)
  | .restore =>
    let oldCount := sema.count
    let sema := sema.fetchAdd 1
    if oldCount < 0 then (sema, .idle, some .denied) else (sema, .retake, none)
  | .retake =>
    let oldCount := sema.count
    let sema := sema.fetchAdd (-1)
    if oldCount > 0 then (sema, .tryToken, none) else (sema, .restore, none)
  | .tryToken =>
    if sema.tokens > 0 then (sema.collect, .idle, some .acquired) else (sema, .restore, none)

/-! ### Both together -/

/-- The semaphore, its two threads, and what their calls have done so far. -/
structure State where
  sema : Semaphore
  signaller : Signaller
  waiter : Waiter
  log : List Response
  deriving DecidableEq, Repr

/-- A thread begins a call, or makes the next access of the one it is in. -/
inductive Event where
  | signal (count : Int)
  | produce
  | call (call : Call)
  | consume (failed : Bool)
  deriving DecidableEq, Repr

/-- One step of one of the threads. A thread that is in a call does not begin another. -/
def step (state : State) : Event → State
  | .signal count =>
    match state.signaller with
    | .idle => { state with signaller := .add count }
    | _ => state
  | .produce =>
    let (sema, signaller, response) := state.signaller.step state.sema
    { state with sema, signaller, log := state.log ++ response.toList }
  | .call call =>
    match state.waiter with
    | .idle => { state with waiter := .load call }
    | _ => state
  | .consume failed =>
    let (sema, waiter, response) := state.waiter.step failed state.sema
    { state with sema, waiter, log := state.log ++ response.toList }

/-- A semaphore that has just been constructed, with no units. -/
def State.make : State where
  sema := { count := 0, tokens := 0, sound := true }
  signaller := .idle
  waiter := .idle
  log := []

/-! ### What a semaphore is for -/

/-- A number of units that a call changes in one step. A unit is only taken if there is one, and
only a call that finds none is turned away. -/
def Response.apply (units : Int) : Response → Option Int
  | .signalled count => some (units + count)
  | .acquired => if 0 < units then some (units - 1) else none
  | .denied => if units = 0 then some units else none

/-- The units there are after a history, if it is one that such a number of units allows. -/
def unitsAfter (log : List Response) : Option Int := log.foldlM Response.apply 0

theorem unitsAfter_append {log : List Response} {units : Int} (before : unitsAfter log = some units)
    (response : Option Response) :
    unitsAfter (log ++ response.toList) =
      response.elim (some units) (Response.apply units) := by
  rw [unitsAfter, List.foldlM_append, ← unitsAfter, before]
  cases response with
  | none => rfl
  | some response => simp

/-! ### The invariant -/

/-- What the waiter has taken off the count without a unit being there. -/
def Waiter.debt : Waiter → Int
  | .sleep _ | .restore | .tryToken => 1
  | _ => 0

/-- The waiter has found no unit and has neither been served nor turned away since. -/
def Waiter.waits : Waiter → Bool
  | .sleep _ | .restore | .retake | .tryToken => true
  | _ => false

/-- The waiter has seen that there is a unit for it. Nobody else takes it away. -/
def Waiter.assured : Waiter → Bool
  | .grab | .retake | .tryToken => true
  | _ => false

/-- The wake-up that the signaller is about to send. -/
def Signaller.owes : Signaller → Nat
  | .post => 1
  | _ => 0

/-- The count is the number of units, less the debt. There is a wake-up, sent or about to be
sent, exactly if the waiter waits and there is a unit for it. -/
structure Inv (state : State) (units : Int) : Prop where
  legal : unitsAfter state.log = some units
  nonneg : 0 ≤ units
  count : state.sema.count = units - state.waiter.debt
  tokens : state.sema.tokens + state.signaller.owes =
    if state.waiter.waits ∧ 0 < units then 1 else 0
  assured : state.waiter.assured → 0 < units
  positive : ∀ count, state.signaller = .add count → 0 < count
  sound : state.sema.sound = true

theorem inv_make : Inv State.make 0 where
  legal := rfl
  nonneg := Int.le_refl 0
  count := rfl
  tokens := rfl
  assured := by simp [State.make, Waiter.assured]
  positive := by simp [State.make]
  sound := rfl

namespace Inv

variable {state : State} {units : Int}

/-- A waiter with nothing to collect has a debt of one, so that the next signal sees it. -/
theorem count_neg_iff (inv : Inv state units) :
    state.sema.count < 0 ↔ state.waiter.waits ∧ units = 0 := by
  have count := inv.count
  have nonneg := inv.nonneg
  have assured := inv.assured
  cases point : state.waiter <;>
    simp only [point, Waiter.debt, Waiter.waits, Waiter.assured] at count assured ⊢ <;> grind

theorem count_ge (inv : Inv state units) : -1 ≤ state.sema.count := by
  have count := inv.count
  have nonneg := inv.nonneg
  cases point : state.waiter <;> simp only [point, Waiter.debt] at count <;> omega

/-- Whoever collects a token was owed a unit, and there was only the one token. -/
theorem of_tokens_pos (inv : Inv state units) (token : state.sema.tokens > 0) :
    0 < units ∧ state.sema.tokens = 1 ∧ state.signaller.owes = 0 := by
  have tokens := inv.tokens
  split at tokens
  · rename_i due
    exact ⟨due.2, by omega, by omega⟩
  · omega

/-! ### The signaller -/

theorem signal (inv : Inv state units) {count : Int} (positive : 0 < count) :
    Inv (step state (.signal count)) units := by
  obtain ⟨sema, signaller, waiter, log⟩ := state
  cases signaller with
  | idle =>
    refine { inv with positive := ?_ }
    intro other same
    cases same
    exact positive
  | _ => exact inv

/-- The signal that finds the debt pays it and owes the waiter a wake-up. -/
theorem add {sema : Semaphore} {waiter : Waiter} {log : List Response} {amount : Int}
    (inv : Inv ⟨sema, .add amount, waiter, log⟩ units) :
    Inv (step ⟨sema, .add amount, waiter, log⟩ .produce) (units + amount) := by
  have positive : 0 < amount := inv.positive amount rfl
  have neg : sema.count < 0 ↔ waiter.waits ∧ units = 0 := inv.count_neg_iff
  have count : sema.count = units - waiter.debt := inv.count
  have tokens : sema.tokens = if waiter.waits ∧ 0 < units then 1 else 0 := inv.tokens
  have nonneg := inv.nonneg
  refine ⟨unitsAfter_append inv.legal (some (.signalled amount)), ?_, ?_, ?_, ?_, ?_, ?_⟩
  · omega
  · change sema.count + amount = units + amount - waiter.debt
    omega
  · change sema.tokens + (if sema.count < 0 then Signaller.post else .idle).owes =
      if waiter.waits ∧ 0 < units + amount then 1 else 0
    rw [tokens]
    by_cases waits : waiter.waits
    · by_cases nothing : units = 0
      · simp [neg, waits, nothing, positive, Signaller.owes]
      · have due : 0 < units := by omega
        simp [neg, waits, nothing, due, Int.add_pos due positive, Signaller.owes]
    · simp [neg, waits, Signaller.owes]
  · intro seen
    have due : 0 < units := inv.assured seen
    exact Int.add_pos due positive
  · intro other same
    change (if sema.count < 0 then Signaller.post else .idle) = .add other at same
    split at same <;> cases same
  · have least : sema.count ≥ -1 := inv.count_ge
    have sound : sema.sound = true := inv.sound
    simp [step, Signaller.step, Semaphore.expect, Semaphore.fetchAdd, sound, least,
      Int.le_of_lt positive]

theorem post {sema : Semaphore} {waiter : Waiter} {log : List Response}
    (inv : Inv ⟨sema, .post, waiter, log⟩ units) :
    Inv (step ⟨sema, .post, waiter, log⟩ .produce) units := by
  refine { inv with
    legal := unitsAfter_append inv.legal none
    tokens := inv.tokens
    positive := ?_ }
  intro count same
  cases same

theorem produce (inv : Inv state units) : ∃ units, Inv (step state .produce) units := by
  obtain ⟨sema, signaller, waiter, log⟩ := state
  cases signaller with
  | idle => exact ⟨units, { inv with legal := unitsAfter_append inv.legal none }⟩
  | add amount => exact ⟨units + amount, inv.add⟩
  | post => exact ⟨units, inv.post⟩

/-! ### The waiter -/

theorem call (inv : Inv state units) (call : Call) : Inv (step state (.call call)) units := by
  obtain ⟨sema, signaller, waiter, log⟩ := state
  cases waiter with
  | idle => exact { inv with assured := fun seen => by cases seen }
  | _ => exact inv

variable {sema : Semaphore} {signaller : Signaller} {waiter : Waiter} {log : List Response}
  {failed : Bool}

section

variable (inv : Inv ⟨sema, signaller, waiter, log⟩ units)
include inv

/-- What has to be shown of an access of the waiter. -/
theorem moved {after : Semaphore} {next : Waiter} {response : Option Response} {left : Int}
    (legal : response.elim (some units) (Response.apply units) = some left)
    (nonneg : 0 ≤ left) (count : after.count = left - next.debt)
    (tokens : after.tokens + signaller.owes = if next.waits ∧ 0 < left then 1 else 0)
    (assured : next.assured → 0 < left) (sound : after.sound = sema.sound) :
    Inv ⟨after, signaller, next, log ++ response.toList⟩ left where
  legal := (unitsAfter_append inv.legal response).trans legal
  nonneg := nonneg
  count := count
  tokens := tokens
  assured := assured
  positive := inv.positive
  sound := sound.trans inv.sound

/-- An access that only goes on to another point at which the same is owed. -/
theorem goesOn {next : Waiter} (debt : next.debt = waiter.debt) (waits : next.waits = waiter.waits)
    (assured : next.assured → 0 < units) :
    Inv ⟨sema, signaller, next, log ++ (none : Option Response).toList⟩ units :=
  inv.moved rfl inv.nonneg (debt ▸ inv.count) (waits ▸ inv.tokens) assured rfl

theorem collect (token : sema.tokens > 0) (debt : waiter.debt = 1) :
    Inv ⟨sema.collect, signaller, .idle, log ++ (some Response.acquired).toList⟩ (units - 1) := by
  obtain ⟨due, one, paid⟩ := inv.of_tokens_pos token
  have count : sema.count = units - waiter.debt := inv.count
  refine inv.moved (if_pos due) (by omega) ?_ ?_ (fun seen => by cases seen) rfl
  · rw [debt] at count
    simp [Semaphore.collect, count, Waiter.debt]
  · change sema.tokens - 1 + signaller.owes = _
    rw [one, paid]
    rfl

/-- A waiter that does not wait reads the number of units off the count. -/
theorem count_eq (debt : waiter.debt = 0) : sema.count = units := by
  have count : sema.count = units - waiter.debt := inv.count
  rw [count, debt, Int.sub_zero]

theorem tokens_eq_zero
    (nothing : waiter.waits = false ∨ units = 0) : sema.tokens + signaller.owes = 0 := by
  refine inv.tokens.trans (if_neg ?_)
  rintro ⟨waits, due⟩
  rcases nothing with calm | zero
  · exact absurd waits (by simp [calm])
  · omega

theorem take (due : 0 < units) (debt : waiter.debt = 0) (calm : waiter.waits = false) :
    Inv ⟨sema.fetchAdd (-1), signaller, .idle, log ++ (some Response.acquired).toList⟩
      (units - 1) := by
  have count := inv.count_eq debt
  refine inv.moved (if_pos due) (by omega) ?_ (inv.tokens_eq_zero (.inl calm))
    (fun seen => by cases seen) rfl
  simp [Semaphore.fetchAdd, count, Waiter.debt, Int.sub_eq_add_neg]

/-- A waiter that finds no unit begins to wait, with a debt that the next signal will see. -/
theorem borrow (none : ¬sema.count > 0)
    (debt : waiter.debt = 0) (calm : waiter.waits = false) {next : Waiter}
    (owes : next.debt = 1) (unsure : next.assured = false) :
    Inv ⟨sema.fetchAdd (-1), signaller, next, log ++ (Option.none : Option Response).toList⟩
      units := by
  have count := inv.count_eq debt
  have zero : units = 0 := by have nonneg := inv.nonneg; omega
  refine inv.moved rfl inv.nonneg ?_ ?_ (fun seen => by rw [unsure] at seen; cases seen) rfl
  · simp [Semaphore.fetchAdd, count, owes, Int.sub_eq_add_neg]
  · rw [if_neg (by omega)]
    exact inv.tokens_eq_zero (.inl calm)

end

/-- There is one case for each way that an access can go. -/
theorem consume (inv : Inv state units) (failed : Bool) :
    ∃ units, Inv (step state (.consume failed)) units := by
  obtain ⟨sema, signaller, waiter, log⟩ := state
  have nonneg := inv.nonneg
  change ∃ units, Inv ⟨(waiter.step failed sema).1, signaller, (waiter.step failed sema).2.1,
    log ++ (waiter.step failed sema).2.2.toList⟩ units
  fun_cases Waiter.step failed sema waiter with
  | case1 => exact ⟨units, inv.goesOn rfl rfl inv.assured⟩
  | case2 call found => exact ⟨units, inv.goesOn rfl rfl fun _ => inv.count_eq rfl ▸ found⟩
  | case3 none =>
    have zero : units = 0 := by have count := inv.count_eq rfl; omega
    exact ⟨units, inv.moved (if_pos zero) nonneg inv.count inv.tokens (fun seen => by cases seen)
      rfl⟩
  | case4 => exact ⟨units, inv.goesOn rfl rfl fun seen => by cases seen⟩
  | case5 => exact ⟨units - 1, inv.take (inv.assured rfl) rfl rfl⟩
  | case6 timeoutUsecs spins found =>
    exact ⟨units, inv.goesOn rfl rfl fun _ => inv.count_eq rfl ▸ found⟩
  | case7 | case8 => exact ⟨units, inv.goesOn rfl rfl fun seen => by cases seen⟩
  | case9 timeoutUsecs oldCount taken found =>
    exact ⟨units - 1, inv.take (inv.count_eq rfl ▸ found) rfl rfl⟩
  | case10 _ _ none | case11 _ _ _ none => exact ⟨units, inv.borrow none rfl rfl rfl rfl⟩
  | case12 => exact ⟨units, inv.goesOn rfl rfl fun seen => by cases seen⟩
  | case13 timeoutUsecs waits token => exact ⟨units - 1, inv.collect token rfl⟩
  | case14 => exact ⟨units, inv.goesOn rfl rfl fun seen => by cases seen⟩
  | case15 oldCount restored unpaid =>
    -- a waiter that gives up takes its debt back, unless it finds it paid
    have count : sema.count = units - 1 := inv.count
    have zero : units = 0 := by omega
    refine ⟨units, inv.moved (if_pos zero) nonneg ?_ (inv.tokens_eq_zero (.inr zero))
      (fun seen => by cases seen) rfl⟩
    simp [restored, Semaphore.fetchAdd, count, Waiter.debt]
  | case16 oldCount restored unpaid =>
    have count : sema.count = units - 1 := inv.count
    refine ⟨units, inv.moved rfl nonneg ?_ inv.tokens (fun _ => by omega) rfl⟩
    simp [restored, Semaphore.fetchAdd, count, Waiter.debt]
  | case17 oldCount taken found =>
    refine ⟨units, inv.moved rfl nonneg ?_ inv.tokens (fun _ => inv.assured rfl) rfl⟩
    simp [taken, Semaphore.fetchAdd, inv.count_eq rfl, Waiter.debt, Int.sub_eq_add_neg]
  | case18 oldCount taken none =>
    have due : 0 < units := inv.assured rfl
    have count := inv.count_eq rfl
    omega
  | case19 token => exact ⟨units - 1, inv.collect token rfl⟩
  | case20 => exact ⟨units, inv.goesOn rfl rfl fun seen => by cases seen⟩

end Inv

variable {state : State}

/-- What an access answers is what happens to the units. -/
theorem Inv.consume_answer {units : Int} (inv : Inv state units) (failed : Bool) :
    ∃ left, Inv (step state (.consume failed)) left ∧
      (state.waiter.step failed state.sema).2.2.elim (some units) (Response.apply units) =
        some left := by
  obtain ⟨left, later⟩ := inv.consume failed
  refine ⟨left, later, ?_⟩
  rw [← unitsAfter_append inv.legal]
  exact later.legal

/-- An access answers the call, or the call goes on. -/
theorem Waiter.step_answer {waiter : Waiter} (calls : waiter ≠ .idle) (failed : Bool)
    (sema : Semaphore) :
    (waiter.step failed sema).2 = (.idle, some .acquired) ∨
      (waiter.step failed sema).2 = (.idle, some .denied) ∨
      (waiter.step failed sema).2.2 = none ∧ (waiter.step failed sema).2.1 ≠ .idle := by
  fun_cases Waiter.step failed sema waiter <;> simp at calls ⊢

/-! ### Every interleaving -/

/-- `signal` is called with a number of units that is not zero. (With zero it would wake up a
waiter for which there is none.) -/
def Event.Positive : Event → Prop
  | .signal count => 0 < count
  | _ => True

theorem inv_step (state : State) (event : Event) (kept : ∃ units, Inv state units)
    (positive : event.Positive) : ∃ units, Inv (step state event) units := by
  obtain ⟨units, inv⟩ := kept
  cases event with
  | signal count => exact ⟨units, inv.signal positive⟩
  | produce => exact inv.produce
  | call call => exact ⟨units, inv.call call⟩
  | consume failed => exact inv.consume failed

theorem inv_run {events : List Event} (positive : ∀ event ∈ events, event.Positive) :
    ∃ units, Inv (run step State.make events) units :=
  run_invariant (fun state event kept met => inv_step state event kept met) ⟨0, inv_make⟩
    (along_of_forall (fun event member _ => positive event member) _)

theorem Semaphore.availableApprox_eq (sema : Semaphore) :
    sema.availableApprox = sema.count.toNat := by
  rw [availableApprox]
  split <;> omega

theorem Waiter.debt_nonneg (waiter : Waiter) : 0 ≤ waiter.debt := by
  cases waiter <;> simp [debt]

theorem Inv.availableApprox_le {units : Int} (inv : Inv state units) :
    (state.sema.availableApprox : Int) ≤ units := by
  have nonneg := inv.nonneg
  have count := inv.count
  have debt := state.waiter.debt_nonneg
  rw [Semaphore.availableApprox_eq]
  omega

theorem Inv.availableApprox_eq {units : Int} (inv : Inv state units) (idle : state.waiter = .idle) :
    (state.sema.availableApprox : Int) = units := by
  have count : state.sema.count = units := by simpa [idle, Waiter.debt] using inv.count
  rw [Semaphore.availableApprox_eq, count, Int.toNat_of_nonneg inv.nonneg]

/-- Whatever the interleaving, the calls answer as if each of them changed a number of units in
one step: a unit is taken only if there is one, and a call is turned away only when there is none.
No assertion fails, and the approximate number is never too high. -/
theorem waits_legal {events : List Event} (positive : ∀ event ∈ events, event.Positive) :
    let state := run step State.make events
    ∃ units, unitsAfter state.log = some units ∧ state.sema.sound = true ∧
      state.sema.availableApprox ≤ units ∧
      (state.waiter = .idle → state.sema.availableApprox = units) := by
  obtain ⟨units, inv⟩ := inv_run positive
  exact ⟨units, inv.legal, inv.sound, inv.availableApprox_le, inv.availableApprox_eq⟩

theorem waits_legal_signalled :
    (run step State.make [.call (.wait 5), .signal 1, .consume false, .produce, .consume false,
      .consume false]).log = [.signalled 1, .acquired] ∧
    (run step State.make [.call (.wait 5), .signal 1, .consume false, .produce, .consume false,
      .consume false]).sema.sound = true := by
  refine ⟨by decide +kernel, ?_⟩
  obtain ⟨units, -, sound, -⟩ := @waits_legal [.call (.wait 5), .signal 1, .consume false,
    .produce, .consume false, .consume false] (by simp [Event.Positive])
  exact sound

/-- With no units `signal` would wake up a waiter for which there is none. -/
example : unitsAfter (run step { State.make with waiter := .decrement 5 }
    [.consume false, .signal 0, .produce, .produce, .consume false]).log = none := by
  decide +kernel

/-! ### Nobody waits for nothing -/

/-- The accesses that a call needs at most when there is a unit for it. -/
def Waiter.rank : Waiter → Nat
  | .idle => 0
  | .grab | .decrement _ | .tryToken => 1
  | .load _ | .spin _ _ | .retake => 2
  | .restore => 3
  | .sleep _ => 4

theorem Waiter.rank_le (waiter : Waiter) : waiter.rank ≤ 4 := by
  cases waiter <;> simp [rank]

theorem Signaller.owes_eq_zero {signaller : Signaller} (sent : signaller ≠ .post) :
    signaller.owes = 0 := by
  cases signaller with
  | post => exact absurd rfl sent
  | _ => rfl

/-- There is a unit for the waiter, and no wake-up is still to be sent. -/
def Due (state : State) : Prop :=
  (∃ units, Inv state units ∧ 0 < units) ∧ state.signaller.owes = 0 ∧ state.waiter ≠ .idle

/-- Then every access of the waiter gets it the unit or closer to it, time-outs included. -/
theorem Waiter.step_due {sema : Semaphore} {signaller : Signaller} {waiter : Waiter}
    {log : List Response} (due : Due ⟨sema, signaller, waiter, log⟩) (failed : Bool) :
    (waiter.step failed sema).2.2 = some .acquired ∨
      (waiter.step failed sema).2.2 = none ∧ (waiter.step failed sema).2.1 ≠ .idle ∧
        (waiter.step failed sema).2.1.rank < waiter.rank := by
  obtain ⟨⟨units, inv, available⟩, sent, calls⟩ := due
  have count : sema.count = units - waiter.debt := inv.count
  have token : waiter.waits → sema.tokens > 0 := by
    intro waits
    have tokens := inv.tokens
    rw [if_pos ⟨waits, available⟩, sent, Nat.add_zero] at tokens
    exact tokens ▸ Nat.one_pos
  cases waiter with
  | idle => exact absurd rfl calls
  | load call =>
    have found : sema.count > 0 := inv.count_eq rfl ▸ available
    simp [step, found, rank]
  | grab => exact .inl rfl
  | spin =>
    have found : sema.count > 0 := inv.count_eq rfl ▸ available
    simp [step, found, rank]
  | decrement =>
    have found : sema.count > 0 := inv.count_eq rfl ▸ available
    simp [step, found]
  | sleep =>
    have token := token rfl
    cases failed <;> simp [step, token, rank]
  | restore =>
    have paid : ¬sema.count < 0 := by rw [count, debt]; omega
    simp [step, paid, rank]
  | retake =>
    have found : sema.count > 0 := inv.count_eq rfl ▸ available
    simp [step, found, rank]
  | tryToken =>
    have token := token rfl
    simp [step, token]

theorem Due.produce (due : Due state) : Due (step state .produce) := by
  obtain ⟨⟨units, inv, available⟩, sent, calls⟩ := due
  obtain ⟨sema, signaller, waiter, log⟩ := state
  cases signaller with
  | idle => exact ⟨⟨units, { inv with legal := unitsAfter_append inv.legal none }, available⟩,
      sent, calls⟩
  | add amount =>
    have unseen : ¬sema.count < 0 := by
      intro seen
      have zero : units = 0 := (inv.count_neg_iff.mp seen).2
      omega
    have positive : 0 < amount := inv.positive amount rfl
    refine ⟨⟨units + amount, inv.add, Int.add_pos available positive⟩, ?_, calls⟩
    exact congrArg Signaller.owes (if_neg unseen)
  | post => cases sent

theorem Due.consume (due : Due state) (failed : Bool) :
    (step state (.consume failed)).log = state.log ++ [.acquired] ∨
      Due (step state (.consume failed)) ∧
        (step state (.consume failed)).waiter.rank < state.waiter.rank := by
  obtain ⟨sema, signaller, waiter, log⟩ := state
  rcases Waiter.step_due due failed with served | ⟨silent, calls, closer⟩
  · exact .inl (congrArg (fun answer => log ++ Option.toList answer) served)
  · obtain ⟨⟨units, inv, available⟩, sent, -⟩ := due
    refine .inr ⟨⟨?_, sent, calls⟩, closer⟩
    -- nothing was answered, so the number of units is still the same
    obtain ⟨left, later, same⟩ := inv.consume_answer failed
    rw [silent] at same
    cases same
    exact ⟨units, later, available⟩

theorem log_prefix_step (state : State) (event : Event) : state.log <+: (step state event).log := by
  obtain ⟨sema, signaller, waiter, log⟩ := state
  cases event with
  | signal count => cases signaller <;> exact List.prefix_rfl
  | produce => exact List.prefix_append ..
  | call call => cases waiter <;> exact List.prefix_rfl
  | consume failed => exact List.prefix_append ..

/-- The accesses of the waiter. -/
def Event.consumes : Event → Bool
  | .consume _ => true
  | _ => false

theorem Due.rank_pos (due : Due state) : 0 < state.waiter.rank := by
  have calls := due.2.2
  cases point : state.waiter with
  | idle => exact absurd point calls
  | _ => simp [Waiter.rank]

/-- What the other events do to a waiter that is due: nothing. -/
theorem Due.other (due : Due state) {event : Event} (positive : event.Positive)
    (other : event.consumes = false) :
    Due (step state event) ∧ (step state event).waiter = state.waiter := by
  obtain ⟨sema, signaller, waiter, log⟩ := state
  cases event with
  | consume failed => cases other
  | produce => exact ⟨due.produce, rfl⟩
  | signal count =>
    obtain ⟨⟨units, inv, available⟩, sent, calls⟩ := due
    have kept := inv.signal positive
    cases signaller <;> exact ⟨⟨⟨units, kept, available⟩, sent, calls⟩, rfl⟩
  | call call =>
    cases waiter with
    | idle => exact absurd rfl due.2.2
    | _ => exact ⟨due, rfl⟩

/-- Every event gives the waiter the unit that is due, or leaves it due and not further away. -/
theorem Due.closer (due : Due state) {event : Event} (positive : event.Positive) :
    state.log.count .acquired < (step state event).log.count .acquired ∨
      Due (step state event) ∧
        (step state event).waiter.rank + event.consumes.toNat ≤ state.waiter.rank := by
  cases kind : event.consumes with
  | false =>
    obtain ⟨still, same⟩ := due.other positive kind
    exact .inr ⟨still, by rw [same]; exact Nat.le_refl _⟩
  | true =>
    cases event with
    | consume failed =>
      refine (due.consume failed).imp (fun served => ?_) id
      rw [served, List.count_append, List.count_singleton_self]
      exact Nat.lt_succ_self _
    | _ => cases kind

/-- No wake-up is lost. When there is a unit and the signaller is not about to send a wake-up, a
call that waits takes a unit within four of its own accesses, however often its time runs out. -/
theorem waiter_served {events later : List Event}
    (positive : ∀ event ∈ events ++ later, event.Positive)
    (calls : (run step State.make events).waiter ≠ .idle)
    (sent : (run step State.make events).signaller ≠ .post)
    (available : ∃ units, unitsAfter (run step State.make events).log = some units ∧ 0 < units)
    (turns : 4 ≤ later.countP Event.consumes) :
    (run step State.make events).log.count .acquired <
      (run step State.make (events ++ later)).log.count .acquired := by
  rw [List.forall_mem_append] at positive
  obtain ⟨units, inv⟩ := inv_run positive.1
  obtain ⟨there, legal, some⟩ := available
  have same : units = there := Option.some.inj (inv.legal.symm.trans legal)
  have due : Due (run step State.make events) :=
    ⟨⟨units, inv, same ▸ some⟩, Signaller.owes_eq_zero sent, calls⟩
  rw [run_append]
  exact answered_within
    (fun state event => (log_prefix_step state event).sublist.count_le Response.acquired)
    (fun state due => due.rank_pos) (fun state event due met => due.closer met) due
    (along_of_forall (fun event member _ => positive.2 event member) _)
    (Nat.le_trans (Waiter.rank_le _) turns)

theorem waiter_served_signalled :
    (run step State.make [.signal 1, .call (.wait 5), .produce]).log.count .acquired <
      (run step State.make ([.signal 1, .call (.wait 5), .produce] ++
        [.consume true, .consume true, .consume true, .consume true])).log.count .acquired :=
  waiter_served (by simp [Event.Positive]) (by decide +kernel) (by decide +kernel)
    ⟨1, by decide +kernel⟩ (by decide)

end LightweightSemaphore

end RFaaS
