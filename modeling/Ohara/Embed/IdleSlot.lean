import Mathlib.Logic.Function.Basic
import Ohara.Library.Execution

/-!
# The reloadable slot of a model session

`unload_if_idle` reads the stamp of the last use, and waits for the write lock only then. A use
that starts in between has refreshed the stamp, and the value is dropped all the same.
-/

namespace Ohara

namespace IdleSlot

universe u v

/-- How far a call has come: the first four of `get_or_try_init`, the others of `unload_if_idle`. -/
inductive Call (T : Type u) (E : Type v) where
  | stamped
  | waiting
  | initialising
  | returned (result : Except E T)
  | loaded (idle last : Nat)
  | checked (idle last : Nat)
  | clearing (idle last : Nat)
  | unloaded (dropped : Bool)

/-- The slot, its stamp and its write lock with the calls on it. Nothing reads the last two fields:
the times at which a `get_or_try_init` started, and the successes of `init` since the last drop. -/
structure State (T : Type u) (E : Type v) where
  clock : Nat
  slot : Option T
  lastUsedUnix : Nat
  writer : Option Nat
  calls : Nat → Option (Call T E)
  started : List Nat
  loads : Nat

/-- A read of the slot takes and releases the read lock; the thresholds are in whole seconds, as the
watchdog gives them. -/
inductive Event (T : Type u) (E : Type v) where
  | tick (seconds : Nat)
  | getOrTryInit (id : Nat)
  | read (id : Nat)
  | write (id : Nat)
  | init (id : Nat) (result : Except E T)
  | unloadIfIdle (id idle : Nat)
  | check (id : Nat)
  | clear (id : Nat)
  | cancel (id : Nat)

variable {T : Type u} {E : Type v}

/-- A call that awaits; only there can it be cancelled. -/
def Call.suspended : Call T E → Bool
  | .stamped => true
  | .waiting => true
  | .initialising => true
  | .checked _ _ => true
  | _ => false

/-- An empty slot nobody has called for. -/
def State.new (clock : Nat) : State T E :=
    ⟨clock, none, 0, none, fun _ => none, [], 0⟩

/-- A call moves on. -/
def State.setCall (s : State T E) (id : Nat) (call : Call T E) : State T E :=
    { s with calls := Function.update s.calls id (some call) }

/-- A call stamps the slot before it looks into it. -/
def startGet (s : State T E) (id : Nat) : State T E :=
    { s.setCall id .stamped with lastUsedUnix := s.clock, started := s.clock :: s.started }

/-- The first look at the slot, under the read lock. -/
def readSlot (s : State T E) (id : Nat) : State T E :=
    match s.slot with
    | some v => s.setCall id (.returned (.ok v))
    | none => s.setCall id .waiting

/-- The second look at the slot, under the write lock. -/
def doubleCheck (s : State T E) (id : Nat) : State T E :=
    match s.slot with
    | some v => s.setCall id (.returned (.ok v))
    | none => { s.setCall id .initialising with writer := some id }

/-- The loader ends while it holds the write lock. -/
def finishInit (s : State T E) (id : Nat) : Except E T → State T E
  | .ok v =>
      { s.setCall id (.returned (.ok v)) with
        slot := some v, writer := none, loads := s.loads + 1 }
  | .error e => { s.setCall id (.returned (.error e)) with writer := none }

/-- The idle check reads the stamp; a slot nobody used stays. -/
def startUnload (s : State T E) (id idle : Nat) : State T E :=
    if s.lastUsedUnix = 0 then s.setCall id (.unloaded false)
    else s.setCall id (.loaded idle s.lastUsedUnix)

/-- A slot used lately stays loaded. -/
def checkIdle (s : State T E) (id idle last : Nat) : State T E :=
    if s.clock - last < idle then s.setCall id (.unloaded false)
    else s.setCall id (.checked idle last)

/-- Under the write lock, the slot is emptied. -/
def clearSlot (s : State T E) (id : Nat) : State T E :=
    match s.slot with
    | none => { s.setCall id (.unloaded false) with writer := none }
    | some _ => { s.setCall id (.unloaded true) with slot := none, writer := none, loads := 0 }

/-- The future of the call is dropped, and with it the lock it holds. -/
def cancelCall (s : State T E) (id : Nat) : State T E :=
    { s with
      calls := Function.update s.calls id none
      writer := if s.writer = some id then none else s.writer }

/-- One step of the clock or of a call. -/
def step (s : State T E) : Event T E → Option (State T E)
  | .tick seconds => some { s with clock := s.clock + seconds }
  | .getOrTryInit id =>
      match s.calls id with
      | none => some (startGet s id)
      | some _ => none
  | .read id =>
      match s.calls id, s.writer with
      | some .stamped, none => some (readSlot s id)
      | _, _ => none
  | .write id =>
      match s.calls id, s.writer with
      | some .waiting, none => some (doubleCheck s id)
      | some (.checked idle last), none =>
          some { s.setCall id (.clearing idle last) with writer := some id }
      | _, _ => none
  | .init id result =>
      match s.calls id with
      | some .initialising => some (finishInit s id result)
      | _ => none
  | .unloadIfIdle id idle =>
      match s.calls id with
      | none => some (startUnload s id idle)
      | some _ => none
  | .check id =>
      match s.calls id with
      | some (.loaded idle last) => some (checkIdle s id idle last)
      | _ => none
  | .clear id =>
      match s.calls id with
      | some (.clearing _ _) => some (clearSlot s id)
      | _ => none
  | .cancel id =>
      match s.calls id with
      | some call => if call.suspended then some (cancelCall s id) else none
      | none => none

/-- The steps, with what enables them. -/
inductive Step (s : State T E) : Event T E → State T E → Prop where
  | tick (seconds : Nat) : Step s (.tick seconds) { s with clock := s.clock + seconds }
  | getOrTryInit {id : Nat} (fresh : s.calls id = none) : Step s (.getOrTryInit id) (startGet s id)
  | read {id : Nat} (stamped : s.calls id = some .stamped) (unlocked : s.writer = none) :
      Step s (.read id) (readSlot s id)
  | write {id : Nat} (waiting : s.calls id = some .waiting) (unlocked : s.writer = none) :
      Step s (.write id) (doubleCheck s id)
  | lock {id idle last : Nat} (checked : s.calls id = some (.checked idle last))
      (unlocked : s.writer = none) :
      Step s (.write id) { s.setCall id (.clearing idle last) with writer := some id }
  | init {id : Nat} (initialising : s.calls id = some .initialising) (result : Except E T) :
      Step s (.init id result) (finishInit s id result)
  | unloadIfIdle {id : Nat} (fresh : s.calls id = none) (idle : Nat) :
      Step s (.unloadIfIdle id idle) (startUnload s id idle)
  | check {id idle last : Nat} (loaded : s.calls id = some (.loaded idle last)) :
      Step s (.check id) (checkIdle s id idle last)
  | clear {id idle last : Nat} (clearing : s.calls id = some (.clearing idle last)) :
      Step s (.clear id) (clearSlot s id)
  | cancel {id : Nat} {call : Call T E} (at_id : s.calls id = some call)
      (suspended : call.suspended = true) : Step s (.cancel id) (cancelCall s id)

theorem Step.of_step {s s' : State T E} {event : Event T E} (stepped : step s event = some s') :
    Step s event s' := by
  cases event with
  | tick seconds =>
      cases stepped
      exact .tick seconds
  | getOrTryInit id =>
      simp only [step] at stepped
      split at stepped
      case h_1 fresh =>
        cases stepped
        exact .getOrTryInit fresh
      · cases stepped
  | read id =>
      simp only [step] at stepped
      split at stepped
      case h_1 stamped unlocked =>
        cases stepped
        exact .read stamped unlocked
      · cases stepped
  | write id =>
      simp only [step] at stepped
      split at stepped
      case h_1 waiting unlocked =>
        cases stepped
        exact .write waiting unlocked
      case h_2 idle last checked unlocked =>
        cases stepped
        exact .lock checked unlocked
      · cases stepped
  | init id result =>
      simp only [step] at stepped
      split at stepped
      case h_1 initialising =>
        cases stepped
        exact .init initialising result
      · cases stepped
  | unloadIfIdle id idle =>
      simp only [step] at stepped
      split at stepped
      case h_1 fresh =>
        cases stepped
        exact .unloadIfIdle fresh idle
      · cases stepped
  | check id =>
      simp only [step] at stepped
      split at stepped
      case h_1 idle last loaded =>
        cases stepped
        exact .check loaded
      · cases stepped
  | clear id =>
      simp only [step] at stepped
      split at stepped
      case h_1 idle last clearing =>
        cases stepped
        exact .clear clearing
      · cases stepped
  | cancel id =>
      simp only [step] at stepped
      split at stepped
      case h_1 call at_id =>
        rcases Option.ite_none_right_eq_some.1 stepped with ⟨suspended, same⟩
        cases same
        exact .cancel at_id suspended
      · cases stepped

/-! ## What is asked of the slot -/

/-- What the slot owes its callers at a step. -/
structure Owed (s : State T E) (event : Event T E) (s' : State T E) : Prop where
  dropped : s.slot ≠ none → s'.slot = none → ∃ id idle last, event = .clear id ∧
    s.calls id = some (.clearing idle last) ∧ ∀ start ∈ s.started, idle ≤ s.clock - start
  loads : s'.loads ≤ 1
  failed : ∀ id error, event = .init id (.error error) → s'.slot = none
  value : ∀ id v, s'.calls id = some (.returned (.ok v)) →
    s.calls id = some (.returned (.ok v)) ∨ s.slot = some v ∨ s'.slot = some v

/-- The step leaves what is owed to the slot. -/
def Keeps (s : State T E) (event : Event T E) : Prop :=
    ∀ s', step s event = some s' → Owed s event s'

/-- When a value is dropped, the stamp is the one that was read before the lock was waited for, or
is by then old enough. -/
def StampOld (s : State T E) (event : Event T E) : Prop :=
    ∀ id idle last, event = .clear id → s.calls id = some (.clearing idle last) → s.slot ≠ none →
      s.lastUsedUnix = last ∨ idle ≤ s.clock - s.lastUsedUnix

/-! ## The invariant -/

/-- What is known of a call in the phases in which it holds the lock or has passed the check. -/
def Call.Fits (s : State T E) (id : Nat) : Call T E → Prop
  | .initialising => s.writer = some id ∧ s.slot = none
  | .checked idle last => idle ≤ s.clock - last
  | .clearing idle last => s.writer = some id ∧ idle ≤ s.clock - last
  | _ => True

/-- The invariant of the slot. -/
structure Inv (s : State T E) : Prop where
  calls : ∀ id call, s.calls id = some call → call.Fits s id
  starts : ∀ start ∈ s.started, start ≤ s.lastUsedUnix
  past : s.lastUsedUnix ≤ s.clock
  newest : s.lastUsedUnix = 0 ∨ s.lastUsedUnix ∈ s.started
  loads : s.loads = if s.slot.isSome then 1 else 0

section Steps

variable {s s' : State T E} {event : Event T E} {id other : Nat} {call : Call T E}

/-- What a call without the lock has seen stays true, whatever becomes of the slot. -/
theorem Call.Fits.of_unheld (fits : call.Fits s other) (unheld : s.writer ≠ some other)
    (clock : s'.clock = s.clock) : call.Fits s' other := by
  cases call with
  | initialising => exact absurd fits.1 unheld
  | clearing idle last => exact absurd fits.1 unheld
  | checked idle last =>
      simp only [Call.Fits] at fits ⊢
      rw [clock]
      exact fits
  | _ => trivial

/-- What was seen stays true while the lock and the slot stay as they are. -/
theorem Call.Fits.later (fits : call.Fits s other) (writer : s'.writer = s.writer)
    (slot : s'.slot = s.slot) (clock : s.clock ≤ s'.clock) : call.Fits s' other := by
  cases call with
  | initialising => exact ⟨writer.trans fits.1, slot.trans fits.2⟩
  | clearing idle last => exact ⟨writer.trans fits.1, le_trans fits.2 (Nat.sub_le_sub_right clock _)⟩
  | checked idle last => exact le_trans fits (Nat.sub_le_sub_right clock _)
  | _ => trivial

theorem fits_update (calls : s'.calls = Function.update s.calls id (some call))
    (own : call.Fits s' id)
    (others : ∀ other call, other ≠ id → s.calls other = some call → call.Fits s' other) :
    ∀ other call, s'.calls other = some call → call.Fits s' other := by
  intro other call' at_other
  rw [calls] at at_other
  by_cases same : other = id
  · subst same
    rw [Function.update_self] at at_other
    cases at_other
    exact own
  · rw [Function.update_of_ne same] at at_other
    exact others other call' same at_other

/-- A step of one call that leaves the stamp, the slot and the lock alone. -/
theorem Inv.setCall (inv : Inv s) (own : call.Fits s id) : Inv (s.setCall id call) where
  calls := by
    refine fits_update rfl (own.later rfl rfl le_rfl : call.Fits (s.setCall id call) id) ?_
    intro other call' _ at_other
    exact (inv.calls other call' at_other).later rfl rfl le_rfl
  starts := inv.starts
  past := inv.past
  newest := inv.newest
  loads := inv.loads

theorem Inv.startGet (inv : Inv s) : Inv (startGet s id) where
  calls := by
    refine fits_update rfl (trivial : Call.Fits (IdleSlot.startGet s id) id .stamped) ?_
    intro other call' _ at_other
    exact (inv.calls other call' at_other).later rfl rfl le_rfl
  starts := by
    intro start mem
    rcases List.mem_cons.1 mem with rfl | mem
    · exact le_rfl
    · exact le_trans (inv.starts start mem) inv.past
  past := le_rfl
  newest := .inr (by simp [IdleSlot.startGet])
  loads := inv.loads

theorem Inv.readSlot (inv : Inv s) : Inv (readSlot s id) := by
  unfold IdleSlot.readSlot
  split
  · exact inv.setCall trivial
  · exact inv.setCall trivial

/-- The lock goes from nobody to the call. -/
theorem Inv.lock (inv : Inv s) (unlocked : s.writer = none)
    (own : call.Fits { s.setCall id call with writer := some id } id) :
    Inv { s.setCall id call with writer := some id } where
  calls := by
    apply fits_update rfl own
    intro other call' _ at_other
    exact (inv.calls other call' at_other).of_unheld (by simp [unlocked]) rfl
  starts := inv.starts
  past := inv.past
  newest := inv.newest
  loads := inv.loads

theorem Inv.doubleCheck (inv : Inv s) (unlocked : s.writer = none) : Inv (doubleCheck s id) := by
  unfold IdleSlot.doubleCheck
  cases empty : s.slot with
  | some v => exact inv.setCall trivial
  | none => exact inv.lock unlocked ⟨rfl, empty⟩

/-- The lock is given back with whatever slot. -/
theorem Inv.unlock {slot : Option T} {loads : Nat} (inv : Inv s) (held : s.writer = some id)
    (own : ∀ s' : State T E, call.Fits s' id) (count : loads = if slot.isSome then 1 else 0) :
    Inv { s.setCall id call with slot := slot, writer := none, loads := loads } where
  calls := by
    apply fits_update rfl (own _)
    intro other call' distinct at_other
    have unheld : s.writer ≠ some other := by
      rw [held]
      exact fun same => distinct (Option.some.inj same).symm
    exact (inv.calls other call' at_other).of_unheld unheld rfl
  starts := inv.starts
  past := inv.past
  newest := inv.newest
  loads := count

theorem Inv.finishInit (inv : Inv s) (initialising : s.calls id = some .initialising)
    (result : Except E T) : Inv (finishInit s id result) := by
  rcases inv.calls id _ initialising with ⟨held, empty⟩
  have unloaded : s.loads = 0 := by
    simpa [empty] using inv.loads
  cases result with
  | ok v => exact inv.unlock held (fun _ => trivial) (by simp [unloaded])
  | error e => exact inv.unlock held (fun _ => trivial) inv.loads

theorem Inv.startUnload (inv : Inv s) (idle : Nat) : Inv (startUnload s id idle) := by
  unfold IdleSlot.startUnload
  split
  · exact inv.setCall trivial
  · exact inv.setCall trivial

theorem Inv.checkIdle (inv : Inv s) (idle last : Nat) : Inv (checkIdle s id idle last) := by
  unfold IdleSlot.checkIdle
  split
  · exact inv.setCall trivial
  case isFalse old => exact inv.setCall (Nat.le_of_not_lt old)

theorem Inv.clearSlot (inv : Inv s) {idle last : Nat}
    (clearing : s.calls id = some (.clearing idle last)) : Inv (clearSlot s id) := by
  have held := (inv.calls id _ clearing).1
  unfold IdleSlot.clearSlot
  split
  · exact inv.unlock held (fun _ => trivial) inv.loads
  · exact inv.unlock held (fun _ => trivial) rfl

theorem Inv.cancelCall (inv : Inv s) : Inv (cancelCall s id) where
  calls := by
    intro other call at_other
    by_cases same : other = id
    · simp [IdleSlot.cancelCall, same] at at_other
    · have before : s.calls other = some call := by
        simpa [IdleSlot.cancelCall, same] using at_other
      have fits := inv.calls other call before
      by_cases held : s.writer = some id
      · refine fits.of_unheld ?_ rfl
        rw [held]
        exact fun eq => same (Option.some.inj eq).symm
      · exact fits.later (if_neg held) rfl le_rfl
  starts := inv.starts
  past := inv.past
  newest := inv.newest
  loads := inv.loads

theorem Inv.tick (inv : Inv s) (seconds : Nat) : Inv { s with clock := s.clock + seconds } where
  calls := fun other call at_other =>
    (inv.calls other call at_other).later rfl rfl (Nat.le_add_right _ _)
  starts := inv.starts
  past := le_trans inv.past (Nat.le_add_right _ _)
  newest := inv.newest
  loads := inv.loads

theorem inv_new (clock : Nat) : Inv (State.new clock : State T E) where
  calls := by simp [State.new]
  starts := by simp [State.new]
  past := Nat.zero_le clock
  newest := .inl rfl
  loads := rfl

theorem inv_step (inv : Inv s) (stepped : step s event = some s') : Inv s' := by
  cases Step.of_step stepped with
  | tick seconds => exact inv.tick seconds
  | getOrTryInit fresh => exact inv.startGet
  | read stamped unlocked => exact inv.readSlot
  | write waiting unlocked => exact inv.doubleCheck unlocked
  | lock checked unlocked => exact inv.lock unlocked ⟨rfl, inv.calls _ _ checked⟩
  | init initialising result => exact inv.finishInit initialising result
  | unloadIfIdle fresh idle => exact inv.startUnload idle
  | check loaded => exact inv.checkIdle _ _
  | clear clearing => exact inv.clearSlot clearing
  | cancel at_id suspended => exact inv.cancelCall

/-! ## What a step returns and drops -/

theorem readSlot_slot : (readSlot s id).slot = s.slot := by
  unfold readSlot
  split <;> rfl

theorem doubleCheck_slot : (doubleCheck s id).slot = s.slot := by
  unfold doubleCheck
  split <;> rfl

theorem startUnload_slot (idle : Nat) : (startUnload s id idle).slot = s.slot := by
  unfold startUnload
  split <;> rfl

theorem checkIdle_slot (idle last : Nat) : (checkIdle s id idle last).slot = s.slot := by
  unfold checkIdle
  split <;> rfl

theorem clearSlot_slot : (clearSlot s id).slot = none := by
  unfold clearSlot
  split
  · assumption
  · rfl

/-- A value leaves the slot in a `clear` only. -/
theorem clearing_of_dropped (stepped : step s event = some s') (full : s.slot ≠ none)
    (empty : s'.slot = none) :
    ∃ id idle last, event = .clear id ∧ s.calls id = some (.clearing idle last) := by
  cases Step.of_step stepped with
  | tick seconds => exact absurd empty full
  | getOrTryInit fresh => exact absurd empty full
  | read stamped unlocked => exact absurd (readSlot_slot.symm.trans empty) full
  | write waiting unlocked => exact absurd (doubleCheck_slot.symm.trans empty) full
  | lock checked unlocked => exact absurd empty full
  | init initialising result =>
      cases result with
      | ok v => cases empty
      | error e => exact absurd empty full
  | unloadIfIdle fresh idle => exact absurd ((startUnload_slot idle).symm.trans empty) full
  | check loaded => exact absurd ((checkIdle_slot _ _).symm.trans empty) full
  | clear clearing => exact ⟨_, _, _, rfl, clearing⟩
  | cancel at_id suspended => exact absurd empty full

theorem returned_update {v : T} (calls : s'.calls = Function.update s.calls id (some call))
    (returned : s'.calls other = some (.returned (.ok v))) :
    s.calls other = some (.returned (.ok v)) ∨ call = .returned (.ok v) := by
  rw [calls] at returned
  by_cases same : other = id
  · subst same
    rw [Function.update_self] at returned
    exact .inr (Option.some.inj returned)
  · rw [Function.update_of_ne same] at returned
    exact .inl returned

theorem returned_before {v : T} (calls : s'.calls = Function.update s.calls id (some call))
    (unlike : call ≠ .returned (.ok v)) (returned : s'.calls other = some (.returned (.ok v))) :
    s.calls other = some (.returned (.ok v)) :=
  (returned_update calls returned).resolve_right unlike

/-- A value that a call returns at this step is in the slot before or after it. -/
theorem value_of_step {v : T} (stepped : step s event = some s')
    (returned : s'.calls other = some (.returned (.ok v))) :
    s.calls other = some (.returned (.ok v)) ∨ s.slot = some v ∨ s'.slot = some v := by
  cases Step.of_step stepped with
  | tick seconds => exact .inl returned
  | getOrTryInit fresh =>
      exact .inl (returned_before rfl (by simp) returned)
  | read stamped unlocked =>
      unfold readSlot at returned
      split at returned
      case h_1 full =>
        rcases returned_update rfl returned with before | now
        · exact .inl before
        · cases now
          exact .inr (.inl full)
      · exact .inl (returned_before rfl (by simp) returned)
  | write waiting unlocked =>
      unfold doubleCheck at returned
      split at returned
      case h_1 full =>
        rcases returned_update rfl returned with before | now
        · exact .inl before
        · cases now
          exact .inr (.inl full)
      · exact .inl (returned_before rfl (by simp) returned)
  | lock checked unlocked =>
      exact .inl (returned_before rfl (by simp) returned)
  | init initialising result =>
      cases result with
      | ok w =>
          rcases returned_update rfl returned with before | now
          · exact .inl before
          · cases now
            exact .inr (.inr rfl)
      | error e =>
          exact .inl (returned_before rfl (by simp) returned)
  | unloadIfIdle fresh idle =>
      unfold startUnload at returned
      split at returned
      all_goals exact .inl (returned_before rfl (by simp) returned)
  | check loaded =>
      unfold checkIdle at returned
      split at returned
      all_goals exact .inl (returned_before rfl (by simp) returned)
  | clear clearing =>
      unfold clearSlot at returned
      split at returned
      all_goals exact .inl (returned_before rfl (by simp) returned)
  | cancel at_id suspended =>
      simp only [cancelCall, Function.update_apply] at returned
      split at returned
      · cases returned
      · exact .inl returned

theorem failed_of_step (inv : Inv s) {error : E}
    (stepped : step s (.init id (.error error)) = some s') : s'.slot = none := by
  cases Step.of_step stepped with
  | init initialising _ => exact (inv.calls id _ initialising).2

/-- The uses that started before the stamp was read are idle for long enough. -/
theorem idle_of_stampOld (inv : Inv s) {idle last : Nat}
    (clearing : s.calls id = some (.clearing idle last))
    (old : s.lastUsedUnix = last ∨ idle ≤ s.clock - s.lastUsedUnix) :
    ∀ start ∈ s.started, idle ≤ s.clock - start := by
  intro start mem
  have before := inv.starts start mem
  have passed : idle ≤ s.clock - last := (inv.calls id _ clearing).2
  rcases old with same | old <;> omega

/-- The stamp is itself the time of a use, the latest one. -/
theorem stampOld_of_idle (inv : Inv s) {idle last : Nat}
    (clearing : s.calls id = some (.clearing idle last))
    (uses : ∀ start ∈ s.started, idle ≤ s.clock - start) : idle ≤ s.clock - s.lastUsedUnix := by
  have passed : idle ≤ s.clock - last := (inv.calls id _ clearing).2
  rcases inv.newest with never | newest
  · omega
  · exact uses _ newest

theorem keeps_iff_stampOld (inv : Inv s) : Keeps s event ↔ StampOld s event := by
  constructor
  · rintro keeps id idle last rfl clearing full
    have stepped : step s (.clear id) = some (clearSlot s id) := by
      simp [step, clearing]
    rcases (keeps _ stepped).dropped full clearSlot_slot with
      ⟨other, idle', last', same, clearing', uses⟩
    cases same
    rw [clearing] at clearing'
    cases clearing'
    exact .inr (stampOld_of_idle inv clearing uses)
  · intro old s' stepped
    constructor
    · intro full empty
      rcases clearing_of_dropped stepped full empty with ⟨id, idle, last, rfl, clearing⟩
      exact ⟨id, idle, last, rfl, clearing,
        idle_of_stampOld inv clearing (old id idle last rfl clearing full)⟩
    · rw [(inv_step inv stepped).loads]
      split <;> simp
    · rintro id error rfl
      exact failed_of_step inv stepped
    · intro other v returned
      exact value_of_step stepped returned

end Steps

/-- The slot keeps what it owes along a run exactly when no drop meets a stamp that was refreshed
after it was read and is not old enough. -/
theorem along_keeps_iff (clock : Nat) (events : List (Event T E)) :
    Execution.Along step Keeps (State.new clock) events ↔
      Execution.Along step StampOld (State.new clock) events :=
  Execution.along_congr Inv (fun _ _ _ inv _ stepped => inv_step inv stepped)
    (fun _ _ inv => keeps_iff_stampOld inv) (inv_new clock)

namespace Crossing

/-- Half an hour after the first use a value is found idle; a second use gets it before the lock. -/
def before : List (Event Nat Unit) :=
    [.tick 100, .getOrTryInit 0, .read 0, .write 0, .init 0 (.ok 7), .tick 1800,
      .unloadIfIdle 1 600, .check 1, .getOrTryInit 2, .read 2, .write 1]

end Crossing

/-- The value that a use has just got is dropped as idle. -/
theorem not_keeps_crossing :
    ¬∀ (clock : Nat) (events : List (Event Nat Unit)),
      Execution.Along step Keeps (State.new clock) events := by
  intro always
  have reached : ∃ s, Execution.run step (State.new 0) Crossing.before = some s ∧
      s.clock = 1900 ∧ s.started = [1900, 100] ∧ s.slot = some 7 ∧
      s.calls 1 = some (.clearing 600 100) :=
    ⟨_, rfl, rfl, rfl, rfl, rfl⟩
  rcases reached with ⟨s, ran, clock, started, slot, clearing⟩
  have keeps : Keeps s (.clear 1) :=
    Execution.along_at ran (always 0 (Crossing.before ++ [.clear 1]))
  have stepped : step s (.clear 1) = some (clearSlot s 1) := by
    simp [step, clearing]
  rcases (keeps _ stepped).dropped (by simp [slot]) clearSlot_slot with
    ⟨other, idle, last, same, clearing', uses⟩
  cases same
  rw [clearing] at clearing'
  cases clearing'
  have just_used := uses 1900 (by simp [started])
  simp [clock] at just_used

end IdleSlot

end Ohara
