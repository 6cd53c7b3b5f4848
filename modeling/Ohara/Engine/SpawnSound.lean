import Ohara.Engine.Spawn

/-!
# The files of a child

The readiness file appears only when the pid file is whole, and a pid file that is gone again means
that the child's listener is over.
-/

namespace Ohara

namespace Spawn

/-! ## The pid file -/

theorem takeDigit_eq_ok {value : Nat} {c : Char} (digit : c.isDigit = true)
    (fits : 10 * value + (c.toNat - '0'.toNat) < 2 ^ 32) :
    takeDigit value c = .ok (10 * value + (c.toNat - '0'.toNat)) := by
  rw [takeDigit, if_pos digit, if_pos fits]

theorem le_ofDigitChars (digits : List Char) (value : Nat) :
    value ≤ Nat.ofDigitChars 10 digits value := by
  induction digits generalizing value with
  | nil => exact le_refl _
  | cons c digits ih =>
      have grows := ih (10 * value + (c.toNat - '0'.toNat))
      rw [Nat.ofDigitChars_cons]
      omega

theorem takeDigits_eq_ok {digits : List Char} {value : Nat}
    (all_digits : ∀ c ∈ digits, c.isDigit = true)
    (fits : Nat.ofDigitChars 10 digits value < 2 ^ 32) :
    digits.foldlM takeDigit value = .ok (Nat.ofDigitChars 10 digits value) := by
  induction digits generalizing value with
  | nil => rfl
  | cons c digits ih =>
      rw [Nat.ofDigitChars_cons] at fits ⊢
      have grows := le_ofDigitChars digits (10 * value + (c.toNat - '0'.toNat))
      rw [List.foldlM_cons, takeDigit_eq_ok (all_digits c (by simp)) (by omega)]
      exact ih (fun c' c'_mem => all_digits c' (by simp [c'_mem])) fits

theorem parseU32_pidText (setup : Setup) : parseU32 setup.pidText = .ok setup.pid := by
  have all_digits : ∀ c ∈ setup.pidText, c.isDigit = true :=
    fun c c_mem => Nat.isDigit_of_mem_toDigits (by decide) (by decide) c_mem
  have value : Nat.ofDigitChars 10 setup.pidText 0 = setup.pid := Nat.ofDigitChars_ten_toDigits
  have parsed := takeDigits_eq_ok all_digits (by rw [value]; exact setup.pid_fits)
  rw [value] at parsed
  unfold parseU32
  split
  · rename_i empty
    exact absurd empty Nat.toDigits_ne_nil
  · rename_i plus
    exact absurd (all_digits '+' (by simp [plus])) (by decide)
  · rename_i digits plus
    exact absurd (all_digits '+' (by simp [plus])) (by decide)
  · exact parsed

theorem visible_of_isDigit {c : Char} (digit : c.isDigit = true) : isWhitespace c = false := by
  simp only [Char.isDigit, UInt32.le_iff_toNat_le, ge_iff_le, Bool.and_eq_true,
    decide_eq_true_eq] at digit
  have low : 48 ≤ c.toNat := digit.1
  have high : c.toNat ≤ 57 := digit.2
  simp [isWhitespace]
  omega

theorem trim_pidText (setup : Setup) : trim setup.pidText = setup.pidText := by
  have visible : ∀ c ∈ setup.pidText, ¬isWhitespace c = true := by
    intro c c_mem
    have digit : c.isDigit = true := Nat.isDigit_of_mem_toDigits (by decide) (by decide) c_mem
    simp [visible_of_isDigit digit]
  have front : setup.pidText.dropWhile isWhitespace = setup.pidText :=
    List.dropWhile_eq_self_iff.2 fun _ => visible _ (List.getElem_mem _)
  rw [trim, front]
  exact List.rdropWhile_eq_self_iff.2 fun some_chars => visible _ (List.getLast_mem some_chars)

theorem readPid_pidText (setup : Setup) :
    State.readPid setup none (some setup.pidText) = .ok ⟨setup.pid, setup.socketPath⟩ := by
  simp [State.readPid, trim_pidText, parseU32_pidText]

/-! ## The invariant -/

/-- The pid file is whole, or gone. -/
def Files.PidWhole (setup : Setup) (files : Files) : Prop :=
    files.pid = none ∨ files.pid = some setup.pidText

namespace Main

/-- The readiness file has been created, if the main task has not failed before. -/
def isLate : Main → Bool
  | .writeReady _ => true
  | .serving => true
  | .removePid _ => true
  | .removeReady _ => true
  | .returned _ => true
  | _ => false

/-- The main task has seen the socket. -/
def sawSocket : Main → Bool
  | .waiting => false
  | .returned _ => false
  | _ => true

/-- The main task has seen the end of the listener. -/
def sawEnd : Main → Bool
  | .removePid _ => true
  | .removeReady _ => true
  | _ => false

/-- What the main task has left in the files. -/
def Wrote (setup : Setup) (files : Files) : Main → Prop
  | .waiting => files.pid = none ∧ files.ready = none
  | .createPid => files.pid = none ∧ files.ready = none
  | .writePid left =>
      files.ready = none ∧ ∃ done, files.pid = some done ∧ done ++ left = setup.pidText
  | .createReady => files.ready = none ∧ files.pid = some setup.pidText
  | .writeReady _ => files.pid = some setup.pidText
  | .serving => files.pid = some setup.pidText
  | .removePid _ => files.pid = some setup.pidText
  | .removeReady _ => files.PidWhole setup
  | .returned _ => files.ready ≠ none → files.PidWhole setup

end Main

namespace Spawner

/-- The readiness file was seen. -/
def hasSeen : Spawner → Bool
  | .sawReady => true
  | .sawBoth => true
  | _ => false

/-- The child was reaped. -/
def hasReaped : Spawner → Bool
  | .unlinkSocket => true
  | .unlinkPid => true
  | .unlinkReady => true
  | .timedOut => true
  | _ => false

end Spawner

namespace State

variable {setup : Setup} {s s' : State}

/-- The invariant of a spawn. -/
structure Inv (setup : Setup) (s : State) : Prop where
  unborn : s.spawner = .preparing → s.life = .unborn
  reaped : s.spawner.hasReaped = true → s.life = .dead
  wrote : s.life ≠ .dead → s.main.Wrote setup s.files
  whole : s.files.ready ≠ none → s.files.PidWhole setup
  socket_bound : s.files.socket ≠ none → s.everBound = true
  main_bound : s.main.sawSocket = true → s.everBound = true
  ready_bound : s.files.ready ≠ none → s.everBound = true
  ended : s.main.sawEnd = true → s.listener.isOver = true
  seen : s.spawner.hasSeen = true → s.files.PidWhole setup ∧ s.everBound = true ∧
    (s.life ≠ .dead → s.main.isLate = true)
  seen_both : s.spawner = .sawBoth → s.files.pid = none → s.listener.isOver = true
  returned : ∀ sd, s.spawner = .returned (.ok sd) →
    sd = ⟨setup.pid, setup.socketPath⟩ ∧ s.everBound = true

theorem inv_init : Inv setup init := by
  constructor <;> simp [init, Spawner.hasReaped, Spawner.hasSeen, Main.Wrote, Main.sawSocket,
    Main.sawEnd]

/-! ### The listener -/

/-- What the others see of the listener. -/
structure ListenerMoved (s s' : State) : Prop where
  life : s'.life = s.life
  main : s'.main = s.main
  spawner : s'.spawner = s.spawner
  pid : s'.files.pid = s.files.pid
  ready : s'.files.ready = s.files.ready
  everBound : s.everBound = true → s'.everBound = true
  socket : s'.files.socket ≠ none → s.files.socket ≠ none ∨ s'.everBound = true
  isOver : s.listener.isOver = true → s'.listener.isOver = true
  serves : s.listener.serves = false → s'.listener.serves = false

theorem listener_moved {event : ListenerEvent} (stepped : s.listenerNext event = some s') :
    ListenerMoved s s' := by
  rcases s with ⟨⟨socket, pid, ready⟩, life, listener, main, spawner, everBound⟩
  cases event with
  | check =>
      cases listener <;> rcases socket with _ | _ | _ <;> simp [listenerNext] at stepped <;>
        subst stepped <;> constructor <;> simp +contextual [Listener.isOver, Listener.serves]
  | bind =>
      cases listener <;> cases socket <;> simp [listenerNext] at stepped
      subst stepped
      constructor <;> simp +contextual [Listener.isOver, Listener.serves]
  | chmod =>
      cases listener <;> simp [listenerNext] at stepped
      subst stepped
      constructor <;> simp +contextual [Listener.isOver, Listener.serves]
  | fail e =>
      cases listener <;> simp [listenerNext] at stepped <;> subst stepped <;> constructor <;>
        simp +contextual [Listener.isOver, Listener.serves]
  | panic =>
      simp only [listenerNext] at stepped
      split at stepped
      · cases stepped
      · cases stepped
        constructor <;> simp +contextual [Listener.isOver, Listener.serves]
  | leaveLoop =>
      cases listener <;> simp [listenerNext] at stepped
      subst stepped
      constructor <;> simp +contextual [Listener.isOver, Listener.serves]
  | unlinkSocket failed =>
      cases listener <;> simp [listenerNext] at stepped
      subst stepped
      constructor <;> cases failed <;> simp +contextual [Listener.isOver, Listener.serves, removed]

theorem ListenerMoved.inv (moved : ListenerMoved s s') (inv : s.Inv setup) : s'.Inv setup := by
  have whole : s.files.PidWhole setup → s'.files.PidWhole setup := by
    intro held
    rwa [Files.PidWhole, moved.pid]
  refine ⟨?_, ?_, ?_, ?_, ?_, ?_, ?_, ?_, ?_, ?_, ?_⟩
  · rw [moved.spawner, moved.life]
    exact inv.unborn
  · rw [moved.spawner, moved.life]
    exact inv.reaped
  · rw [moved.life, moved.main]
    intro alive
    have wrote := inv.wrote alive
    cases phase : s.main <;> simp only [phase, Main.Wrote, Files.PidWhole, moved.pid,
      moved.ready] at wrote ⊢ <;> exact wrote
  · rw [moved.ready]
    exact fun there => whole (inv.whole there)
  · intro there
    rcases moved.socket there with before | bound
    · exact moved.everBound (inv.socket_bound before)
    · exact bound
  · rw [moved.main]
    exact fun saw => moved.everBound (inv.main_bound saw)
  · rw [moved.ready]
    exact fun there => moved.everBound (inv.ready_bound there)
  · rw [moved.main]
    exact fun saw => moved.isOver (inv.ended saw)
  · rw [moved.spawner, moved.life, moved.main]
    intro seen
    rcases inv.seen seen with ⟨held, bound, late⟩
    exact ⟨whole held, moved.everBound bound, late⟩
  · rw [moved.spawner, moved.pid]
    exact fun both gone => moved.isOver (inv.seen_both both gone)
  · rw [moved.spawner]
    intro sd returned
    rcases inv.returned sd returned with ⟨exact_pid, bound⟩
    exact ⟨exact_pid, moved.everBound bound⟩

/-! ### The main task -/

/-- What the others see of the main task while the child runs. -/
structure MainMoved (setup : Setup) (s s' : State) : Prop where
  life : s'.life = s.life
  listener : s'.listener = s.listener
  spawner : s'.spawner = s.spawner
  everBound : s'.everBound = s.everBound
  socket : s'.files.socket = s.files.socket
  wrote : s'.main.Wrote setup s'.files
  whole : s'.files.ready ≠ none → s'.files.PidWhole setup
  main_bound : s'.main.sawSocket = true → s.everBound = true
  ready_bound : s'.files.ready ≠ none → s.everBound = true
  ended : s'.main.sawEnd = true → s.listener.isOver = true
  late : s.main.isLate = true → s'.main.isLate = true ∧
    (s'.files.pid = s.files.pid ∨ s'.files.pid = none ∧ s.listener.isOver = true)

theorem select_moved (inv : s.Inv setup) (running : s.life = .running)
    (stepped : s.mainNext setup .select = some s') : MainMoved setup s s' := by
  have wrote := inv.wrote (by simp [running])
  rcases s with ⟨files, life, listener, main, spawner, everBound⟩
  cases main <;> simp only [mainNext, reduceCtorEq] at stepped
  simp only [Main.Wrote] at wrote
  split at stepped
  · cases stepped
    constructor <;> simp [Main.Wrote, wrote.1, wrote.2, Main.sawSocket, Main.sawEnd, Main.isLate]
  · split at stepped
    · rename_i bound
      cases stepped
      have ever : everBound = true :=
        inv.socket_bound (by simpa [Option.isSome_iff_ne_none] using bound)
      constructor <;> simp [Main.Wrote, wrote.1, wrote.2, ever, Main.sawEnd, Main.isLate]
    · cases stepped
      constructor <;> simp [Main.Wrote, wrote.1, wrote.2, Main.sawSocket, Main.sawEnd, Main.isLate]

theorem returned_moved (inv : s.Inv setup)
    {result : Except Ipc.EngineError Unit} :
    MainMoved setup s { s with main := .returned result } where
  life := rfl
  listener := rfl
  spawner := rfl
  everBound := rfl
  socket := rfl
  wrote := inv.whole
  whole := inv.whole
  main_bound := nofun
  ready_bound := inv.ready_bound
  ended := nofun
  late _ := ⟨rfl, Or.inl rfl⟩

theorem create_moved (inv : s.Inv setup) (running : s.life = .running) {event : MainEvent}
    (create : event = .createPid ∨ event = .createReady)
    (stepped : s.mainNext setup event = some s') : MainMoved setup s s' := by
  have wrote := inv.wrote (by simp [running])
  have bound := inv.main_bound
  rcases s with ⟨files, life, listener, main, spawner, everBound⟩
  rcases create with rfl | rfl
  · cases main <;> simp only [mainNext, reduceCtorEq, Option.some.injEq] at stepped
    subst stepped
    simp only [Main.Wrote] at wrote
    have ever : everBound = true := bound rfl
    constructor <;> simp [Main.Wrote, wrote.2, ever, Main.sawEnd, Main.isLate]
  · cases main <;> simp only [mainNext, reduceCtorEq, Option.some.injEq] at stepped
    subst stepped
    simp only [Main.Wrote] at wrote
    have ever : everBound = true := bound rfl
    constructor <;> simp [Main.Wrote, wrote.2, ever, Main.sawEnd, Main.isLate,
      Files.PidWhole]

theorem writePid_moved (inv : s.Inv setup) (running : s.life = .running) {n : Nat}
    (stepped : s.mainNext setup (.writePid n) = some s') : MainMoved setup s s' := by
  have wrote := inv.wrote (by simp [running])
  have bound := inv.main_bound
  rcases s with ⟨files, life, listener, main, spawner, everBound⟩
  cases main <;> simp only [mainNext, reduceCtorEq, Option.ite_none_right_eq_some,
    Option.some.injEq] at stepped
  rename_i left
  have ever : everBound = true := bound rfl
  rcases stepped with ⟨⟨-, le⟩, rfl⟩
  rcases wrote with ⟨unready, done, there, whole⟩
  simp only at unready there
  by_cases more : n < left.length
  · have whole' : done ++ left.take n ++ left.drop n = setup.pidText := by
      rw [List.append_assoc, List.take_append_drop, whole]
    constructor <;> simp only [more, if_true, Main.Wrote, unready, there, ever, Main.sawEnd,
      Main.isLate, ne_eq, not_true_eq_false, false_implies, reduceCtorEq, implies_true,
      Option.map_some, Option.some.injEq, exists_eq_left', true_and, whole']
  · have whole' : done ++ left.take n = setup.pidText := by
      rw [List.take_of_length_le (by omega), whole]
    constructor <;> simp [more, Main.Wrote, unready, there, ever, Main.sawEnd, Main.isLate,
      whole']

theorem writeReady_moved (inv : s.Inv setup) (running : s.life = .running) {n : Nat}
    (stepped : s.mainNext setup (.writeReady n) = some s') : MainMoved setup s s' := by
  have wrote := inv.wrote (by simp [running])
  have bound := inv.main_bound
  rcases s with ⟨files, life, listener, main, spawner, everBound⟩
  cases main <;> simp only [mainNext, reduceCtorEq, Option.ite_none_right_eq_some,
    Option.some.injEq] at stepped
  rename_i left
  have ever : everBound = true := bound rfl
  rcases stepped with ⟨-, rfl⟩
  simp only [Main.Wrote] at wrote
  by_cases more : n < left.length <;> constructor <;>
    simp [more, Main.Wrote, wrote, ever, Main.sawEnd, Main.isLate, Files.PidWhole]

theorem join_moved (inv : s.Inv setup) (running : s.life = .running)
    (stepped : s.mainNext setup .join = some s') : MainMoved setup s s' := by
  have wrote := inv.wrote (by simp [running])
  have bound := inv.main_bound
  cases phase : s.main with
  | serving =>
      simp only [phase, Main.Wrote] at wrote
      have ever : s.everBound = true := bound (by simp [phase, Main.sawSocket])
      cases settled : s.listener with
      | finished result =>
          simp only [mainNext, phase, settled, Option.some.injEq] at stepped
          subst stepped
          constructor <;> simp [Main.Wrote, wrote, ever, Main.isLate, Files.PidWhole, settled,
            Listener.isOver]
      | panicked =>
          simp only [mainNext, phase, settled, Option.some.injEq] at stepped
          rw [← stepped, ← settled]
          exact returned_moved inv
      | _ => simp [mainNext, phase, settled] at stepped
  | _ => simp [mainNext, phase] at stepped

theorem remove_moved (inv : s.Inv setup) (running : s.life = .running) {event : MainEvent}
    {failed : Bool} (remove : event = .removePid failed ∨ event = .removeReady failed)
    (stepped : s.mainNext setup event = some s') : MainMoved setup s s' := by
  have wrote := inv.wrote (by simp [running])
  have bound := inv.main_bound
  have settled := inv.ended
  rcases s with ⟨files, life, listener, main, spawner, everBound⟩
  rcases remove with rfl | rfl
  · cases main <;> simp only [mainNext, reduceCtorEq, Option.some.injEq] at stepped
    subst stepped
    simp only [Main.Wrote] at wrote
    have ever : everBound = true := bound rfl
    constructor <;> cases failed <;> simp [removed, Main.Wrote, wrote, ever, settled rfl,
      Main.isLate, Files.PidWhole]
  · cases main <;> simp only [mainNext, reduceCtorEq, Option.some.injEq] at stepped
    subst stepped
    simp only [Main.Wrote] at wrote
    have ever : everBound = true := bound rfl
    constructor <;> cases failed <;> simp_all [removed, Main.Wrote, Main.sawEnd, Main.isLate,
      Main.sawSocket, Files.PidWhole]

theorem main_moved (inv : s.Inv setup) (running : s.life = .running) {event : MainEvent}
    (stepped : s.mainNext setup event = some s') : MainMoved setup s s' ∨
      s' = { s with life := .dead } := by
  cases event with
  | select => exact Or.inl (select_moved inv running stepped)
  | socketTimeout shown =>
      cases phase : s.main with
      | waiting =>
          cases early : startupError s.listener with
          | none =>
              simp only [mainNext, phase, early, Option.some.injEq] at stepped
              subst stepped
              exact Or.inl (returned_moved inv)
          | some e => simp [mainNext, phase, early] at stepped
      | _ => simp [mainNext, phase] at stepped
  | createPid => exact Or.inl (create_moved inv running (Or.inl rfl) stepped)
  | writePid n => exact Or.inl (writePid_moved inv running stepped)
  | createReady => exact Or.inl (create_moved inv running (Or.inr rfl) stepped)
  | writeReady n => exact Or.inl (writeReady_moved inv running stepped)
  | fail message =>
      cases phase : s.main <;>
        simp only [mainNext, phase, reduceCtorEq, Option.some.injEq] at stepped <;>
        subst stepped <;> exact Or.inl (returned_moved inv)
  | join => exact Or.inl (join_moved inv running stepped)
  | removePid failed => exact Or.inl (remove_moved inv running (Or.inl rfl) stepped)
  | removeReady failed => exact Or.inl (remove_moved inv running (Or.inr rfl) stepped)
  | exit =>
      cases phase : s.main with
      | returned result =>
          simp only [mainNext, phase, Option.some.injEq] at stepped
          rw [← stepped, ← phase]
          exact Or.inr rfl
      | _ => simp [mainNext, phase] at stepped

theorem died_inv (inv : s.Inv setup) (forked : s.spawner ≠ .preparing) :
    Inv setup { s with life := .dead } where
  unborn preparing := absurd preparing forked
  reaped _ := rfl
  wrote alive := absurd rfl alive
  whole := inv.whole
  socket_bound := inv.socket_bound
  main_bound := inv.main_bound
  ready_bound := inv.ready_bound
  ended := inv.ended
  seen seen := ⟨(inv.seen seen).1, (inv.seen seen).2.1, fun alive => absurd rfl alive⟩
  seen_both := inv.seen_both
  returned := inv.returned

theorem forked_of_running (inv : s.Inv setup) (running : s.life = .running) :
    s.spawner ≠ .preparing := by
  intro preparing
  have unborn := inv.unborn preparing
  simp [running] at unborn

theorem main_inv (inv : s.Inv setup) (running : s.life = .running) {event : MainEvent}
    (stepped : s.mainNext setup event = some s') : s'.Inv setup := by
  rcases main_moved inv running stepped with moved | rfl
  · refine ⟨?_, ?_, fun _ => moved.wrote, moved.whole, ?_, ?_, ?_, ?_, ?_, ?_, ?_⟩
    · rw [moved.spawner, moved.life]
      exact inv.unborn
    · rw [moved.spawner, moved.life]
      exact inv.reaped
    · rw [moved.socket, moved.everBound]
      exact inv.socket_bound
    · rw [moved.everBound]
      exact moved.main_bound
    · rw [moved.everBound]
      exact moved.ready_bound
    · rw [moved.listener]
      exact moved.ended
    · rw [moved.spawner, moved.everBound]
      intro seen
      rcases inv.seen seen with ⟨whole, bound, late⟩
      rcases moved.late (late (by simp [running])) with ⟨late', pid | ⟨gone, -⟩⟩
      · exact ⟨by rwa [Files.PidWhole, pid], bound, fun _ => late'⟩
      · exact ⟨Or.inl gone, bound, fun _ => late'⟩
    · rw [moved.spawner, moved.listener]
      intro both gone
      rcases inv.seen (by rw [both]; rfl) with ⟨-, -, late⟩
      rcases moved.late (late (by simp [running])) with ⟨-, pid | ⟨-, settled⟩⟩
      · exact inv.seen_both both (by rw [← pid, gone])
      · exact settled
    · rw [moved.spawner, moved.everBound]
      exact inv.returned
  · exact died_inv inv (forked_of_running inv running)

/-! ### The spawner -/

theorem readPid_whole {files : Files} (whole : files.PidWhole setup) {fault : Option String}
    {sd : Registry.SpawnedDaemon} (read : readPid setup fault files.pid = .ok sd) :
    sd = ⟨setup.pid, setup.socketPath⟩ := by
  cases fault with
  | some message => simp [readPid] at read
  | none =>
      rcases whole with gone | there
      · simp [readPid, gone] at read
      · rw [there, readPid_pidText] at read
        cases read
        rfl

theorem isLate_of_ready (inv : s.Inv setup) (ready : s.files.ready ≠ none)
    (alive : s.life ≠ .dead) : s.main.isLate = true := by
  have wrote := inv.wrote alive
  cases phase : s.main with
  | waiting =>
      simp only [phase, Main.Wrote] at wrote
      exact absurd wrote.2 ready
  | createPid =>
      simp only [phase, Main.Wrote] at wrote
      exact absurd wrote.2 ready
  | writePid left =>
      simp only [phase, Main.Wrote] at wrote
      exact absurd wrote.1 ready
  | createReady =>
      simp only [phase, Main.Wrote] at wrote
      exact absurd wrote.1 ready
  | _ => rfl

/-- The spawner looks only. -/
theorem looked_inv (inv : s.Inv setup) {spawner : Spawner} (forked : spawner ≠ .preparing)
    (reaped : spawner.hasReaped = true → s.life = .dead)
    (seen : spawner.hasSeen = true → s.files.PidWhole setup ∧ s.everBound = true ∧
      (s.life ≠ .dead → s.main.isLate = true))
    (seen_both : spawner = .sawBoth → s.files.pid ≠ none)
    (returned : ∀ sd, spawner = .returned (.ok sd) →
      sd = ⟨setup.pid, setup.socketPath⟩ ∧ s.everBound = true) :
    Inv setup { s with spawner := spawner } where
  unborn preparing := absurd preparing forked
  reaped := reaped
  wrote := inv.wrote
  whole := inv.whole
  socket_bound := inv.socket_bound
  main_bound := inv.main_bound
  ready_bound := inv.ready_bound
  ended := inv.ended
  seen := seen
  seen_both both gone := absurd gone (seen_both both)
  returned := returned

theorem removed_ne_none {α : Type} {failed : Bool} {file : Option α}
    (there : removed failed file ≠ none) : removed failed file = file := by
  cases failed
  · exact absurd rfl there
  · rfl

theorem unlink_inv (inv : s.Inv setup) {failed : Bool}
    (stepped : s.spawnerNext setup (.unlink failed) = some s') : s'.Inv setup := by
  have gone : s.spawner.hasReaped = true → s.life = .dead := inv.reaped
  have pid_whole : s.files.PidWhole setup →
      removed failed s.files.pid = none ∨ removed failed s.files.pid = some setup.pidText := by
    intro whole
    cases failed
    · exact Or.inl rfl
    · exact whole
  cases spawnerStep_of_next stepped with
  | unlinkSocket phase =>
      have dead := gone (by simp [phase, Spawner.hasReaped])
      refine ⟨nofun, fun _ => dead, fun alive => absurd dead alive, inv.whole, ?_, inv.main_bound,
        inv.ready_bound, inv.ended, nofun, nofun, nofun⟩
      intro there
      exact inv.socket_bound (by rwa [← removed_ne_none there])
  | unlinkPid phase =>
      have dead := gone (by simp [phase, Spawner.hasReaped])
      exact ⟨nofun, fun _ => dead, fun alive => absurd dead alive,
        fun there => pid_whole (inv.whole there), inv.socket_bound, inv.main_bound,
        inv.ready_bound, inv.ended, nofun, nofun, nofun⟩
  | unlinkReady phase =>
      have dead := gone (by simp [phase, Spawner.hasReaped])
      refine ⟨nofun, fun _ => dead, fun alive => absurd dead alive, ?_, inv.socket_bound,
        inv.main_bound, ?_, inv.ended, nofun, nofun, nofun⟩
      · intro there
        exact inv.whole (by rwa [← removed_ne_none there])
      · intro there
        exact inv.ready_bound (by rwa [← removed_ne_none there])

theorem spawner_inv (inv : s.Inv setup) {event : SpawnerEvent}
    (stepped : s.spawnerNext setup event = some s') : s'.Inv setup := by
  cases spawnerStep_of_next stepped with
  | mkdirFail | forkFail | noReady | noPid | timeOut =>
      exact looked_inv inv nofun nofun nofun nofun nofun
  | fork preparing =>
      have unborn : s.life ≠ .dead := by simp [inv.unborn preparing]
      exact ⟨nofun, nofun, fun _ => inv.wrote unborn, inv.whole, inv.socket_bound,
        inv.main_bound, inv.ready_bound, inv.ended, nofun, nofun, nofun⟩
  | seesReady _ there =>
      exact looked_inv inv nofun nofun (fun _ => ⟨inv.whole there, inv.ready_bound there,
        isLate_of_ready inv there⟩) nofun nofun
  | seesPid ready there =>
      have seen := inv.seen (by simp [ready, Spawner.hasSeen])
      exact looked_inv inv nofun nofun (fun _ => seen) (fun _ => there) nofun
  | readPid both =>
      rcases inv.seen (by simp [both, Spawner.hasSeen]) with ⟨whole, bound, -⟩
      refine looked_inv inv nofun nofun nofun nofun fun sd returned => ?_
      exact ⟨readPid_whole whole (Spawner.returned.inj returned), bound⟩
  | forceKill terminating => exact died_inv inv (by simp [terminating])
  | reap _ dead => exact looked_inv inv nofun (fun _ => dead) nofun nofun nofun
  | unlinkSocket | unlinkPid | unlinkReady => exact unlink_inv inv stepped

theorem next_inv (inv : s.Inv setup) {event : Event} (stepped : s.next setup event = some s') :
    s'.Inv setup := by
  cases event with
  | listener event =>
      simp only [next, Option.ite_none_right_eq_some] at stepped
      exact (listener_moved stepped.2).inv inv
  | main event =>
      simp only [next, Option.ite_none_right_eq_some] at stepped
      exact main_inv inv stepped.1 stepped.2
  | die =>
      simp only [next, Option.ite_none_right_eq_some, Option.some.injEq] at stepped
      rcases stepped with ⟨running, rfl⟩
      exact died_inv inv (forked_of_running inv running)
  | spawner event => exact spawner_inv inv stepped

theorem run_inv {events : List Event} (ran : Execution.run (next setup) init events = some s) :
    s.Inv setup :=
  Execution.invariant (Inv setup) (fun _ _ _ inv stepped => next_inv inv stepped) inv_init ran

end State

end Spawn

end Ohara
