import Fdgw.Runs

/-!
The squid supervisor: the loop of `src/etc/squid/master.sh`, the background
`clean.sh` it starts, the `clean.sh once` it runs after squid has died, squid
itself, and the `access.log` they share.

`clean.sh` is one program with a mode; both copies step through the same lines.
`squid -k rotate` only signals a running squid, which rotates when it gets to
it. Squid may log a request, rotate or die at any moment, so a run is any
interleaving of the events below.
-/
namespace Fdgw.Supervisor
open Runs

/-- The next line of `clean.sh` to run; `stopped` is its `exit 0`. -/
inductive CleanPc where
  | df
  | test
  | rotate
  | cat
  | rm
  | mode
  | sleep
  | stopped
  deriving DecidableEq, Repr

/-- The next line of `master.sh`: its preamble, the restart of squid, the wait
for the squid pipeline, `squidclean once`, and `sleep 10`. -/
inductive MasterPc where
  | setup
  | start
  | squid
  | once (pc : CleanPc)
  | sleep
  deriving DecidableEq, Repr

/-- `accessLog` is the length of `access.log`, `rotated` the one of
`access.log.0` if that file exists, `signalled` a rotation squid has been asked
for and not yet done. `cleaner` is the background copy, `none` before its start. -/
structure State where
  master : MasterPc
  cleaner : Option CleanPc
  running : Bool
  signalled : Bool
  accessLog : Nat
  rotated : Option Nat
  deriving DecidableEq, Repr

/-- Before `master.sh` runs: whatever an earlier boot left in the log. -/
def initial (leftover : Nat) (rotated : Option Nat) : State :=
  ⟨.setup, none, false, false, leftover, rotated⟩

/-- One line of `clean.sh`; `once` is its mode argument. -/
def cleanLine (once : Bool) (s : State) : CleanPc → CleanPc × State
  | .df => (.test, s)
  | .test => (if s.accessLog ≠ 0 then .rotate else .sleep, s)
  | .rotate => (.cat, { s with signalled := s.signalled || s.running })
  | .cat => (.rm, s)
  | .rm => (.mode, { s with rotated := none })
  | .mode => (if once then .stopped else .sleep, s)
  | .sleep => (.df, s)
  | .stopped => (.stopped, s)

/-- One line of `master.sh`. It waits for squid while squid runs, and for the
once-mode cleaner until that has stopped. -/
def masterLine (s : State) : Option State :=
  match s.master with
  | .setup => some { s with master := .start, accessLog := 0 }
  | .start => some { s with master := .squid, running := true, signalled := false }
  | .squid => if s.running then none else some { s with master := .once .df }
  | .once .stopped => some { s with master := .sleep }
  | .once pc =>
    some { (cleanLine true s pc).2 with master := .once (cleanLine true s pc).1 }
  | .sleep => some { s with master := .start }

/-- The background cleaner appears some time after the preamble and loops. -/
def cleanerLine (s : State) : Option State :=
  match s.cleaner with
  | none => if s.master = .setup then none else some { s with cleaner := some .df }
  | some pc =>
    some { (cleanLine false s pc).2 with cleaner := some (cleanLine false s pc).1 }

inductive Event where
  | master
  | cleaner
  | request
  | rotate
  | die
  deriving DecidableEq, Repr

def step (s : State) : Event → Option State
  | .master => masterLine s
  | .cleaner => cleanerLine s
  | .request => if s.running then some { s with accessLog := s.accessLog + 1 } else none
  | .rotate =>
    if s.running && s.signalled then
      some { s with signalled := false, rotated := some s.accessLog, accessLog := 0 }
    else none
  | .die => if s.running then some { s with running := false, signalled := false } else none

/-- The supervisor waits in `squidclean once`, squid is dead and the log the
loop tests is empty. -/
def Stuck (s : State) : Prop :=
  s.running = false ∧ (∃ pc, s.master = .once pc ∧ pc ≠ .stopped) ∧ s.accessLog = 0

/-! ## When the supervisor keeps going -/

/-- A dead squid that the supervisor is not about to start left a non-empty log. -/
def Recoverable (s : State) : Prop :=
  s.running = false → s.master = .squid ∨ (∃ pc, s.master = .once pc) → s.accessLog ≠ 0

/-- Squid dies only after something was logged since the log was last emptied. -/
def DiesLogged (s : State) (e : Event) : Prop := e = .die → s.accessLog ≠ 0

@[simp] theorem cleanLine_accessLog (once : Bool) (s : State) (pc : CleanPc) :
    (cleanLine once s pc).2.accessLog = s.accessLog := by
  cases pc <;> rfl

@[simp] theorem cleanLine_running (once : Bool) (s : State) (pc : CleanPc) :
    (cleanLine once s pc).2.running = s.running := by
  cases pc <;> rfl

@[simp] theorem cleanLine_master (once : Bool) (s : State) (pc : CleanPc) :
    (cleanLine once s pc).2.master = s.master := by
  cases pc <;> rfl

theorem masterLine_recoverable (recoverable : Recoverable s) (ran : masterLine s = some t) :
    Recoverable t := by
  unfold masterLine at ran
  split at ran
  · cases ran
    intro _ waits
    simp at waits
  · cases ran
    intro dead
    simp at dead
  · rename_i waiting
    split at ran
    · cases ran
    · cases ran
      intro dead _
      exact recoverable dead (.inl waiting)
  · cases ran
    intro _ waits
    simp at waits
  · rename_i pc _ inside
    cases ran
    intro dead _
    have dead : s.running = false := by simpa using dead
    simpa using recoverable dead (.inr ⟨pc, inside⟩)
  · cases ran
    intro _ waits
    simp at waits

theorem cleanerLine_recoverable (recoverable : Recoverable s) (ran : cleanerLine s = some t) :
    Recoverable t := by
  unfold cleanerLine at ran
  split at ran
  · split at ran
    · cases ran
    · cases ran
      exact recoverable
  · cases ran
    intro dead waits
    have dead : s.running = false := by simpa using dead
    simpa using recoverable dead (by simpa using waits)

theorem step_recoverable (recoverable : Recoverable s) (logged : DiesLogged s e)
    (ran : step s e = some t) : Recoverable t := by
  cases e with
  | master => exact masterLine_recoverable recoverable ran
  | cleaner => exact cleanerLine_recoverable recoverable ran
  | request =>
    simp only [step] at ran
    split at ran
    · cases ran
      intro _ _
      exact Nat.succ_ne_zero _
    · cases ran
  | rotate =>
    simp only [step] at ran
    split at ran
    · rename_i alive
      cases ran
      intro dead
      have dead : s.running = false := dead
      simp [dead] at alive
    · cases ran
  | die =>
    simp only [step] at ran
    split at ran
    · cases ran
      intro _ _
      exact logged rfl
    · cases ran

/-- If squid dies only with a non-empty log, no interleaving of the supervisor,
the background cleaner and squid leaves the supervisor waiting for a log that
nothing can fill. -/
theorem logged_deaths_never_stuck (leftover : Nat) (rotated : Option Nat) (events : List Event)
    (s : State) (logged : Guarded step DiesLogged (initial leftover rotated) events)
    (ran : run step (initial leftover rotated) events = some s) : ¬ Stuck s := by
  have start : Recoverable (initial leftover rotated) := by
    intro _ waits
    simp [initial] at waits
  have recoverable := guarded_invariant (fun _ _ _ => step_recoverable) start logged ran
  rintro ⟨dead, ⟨pc, inside, -⟩, empty⟩
  exact recoverable dead (.inr ⟨pc, inside⟩) empty

/-- Three requests, a rotation in between, a death and a full restart. -/
def busyRestart : List Event :=
  [.master, .master, .request, .cleaner, .cleaner, .cleaner, .cleaner, .rotate, .request, .die,
    .master, .master, .master, .master, .master, .master, .master, .master, .master, .master]

theorem busy_restart_not_stuck :
    ∃ s, run step (initial 7 none) busyRestart = some s ∧ s.running = true ∧ ¬ Stuck s := by
  refine ⟨_, rfl, rfl, logged_deaths_never_stuck 7 none busyRestart _ ?_ rfl⟩
  simp [busyRestart, Guarded, DiesLogged, step, masterLine, cleanerLine, cleanLine, initial]

/-- Squid is started and dies before its first request. -/
theorem silent_death_stuck :
    ∃ s, run step (initial 0 none) [.master, .master, .die, .master] = some s ∧ Stuck s :=
  ⟨_, rfl, rfl, ⟨.df, rfl, by decide⟩, rfl⟩

/-! ## What being stuck means -/

/-- Where the once-mode cleaner stands, and what its test has already seen. -/
def OnceSound (s : State) : Prop :=
  ∀ pc, s.master = .once pc → s.running = false ∧
    (s.accessLog = 0 → pc = .df ∨ pc = .test ∨ pc = .sleep)

theorem step_onceSound (sound : OnceSound s) (ran : step s e = some t) : OnceSound t := by
  cases e with
  | master =>
    simp only [step, masterLine] at ran
    split at ran
    · cases ran
      simp [OnceSound]
    · cases ran
      simp [OnceSound]
    · split at ran
      · cases ran
      · rename_i dead
        cases ran
        rintro pc ⟨⟩
        exact ⟨by simpa using dead, fun _ => .inl rfl⟩
    · cases ran
      simp [OnceSound]
    · rename_i pc _ inside
      cases ran
      obtain ⟨dead, tested⟩ := sound pc inside
      rintro next ⟨⟩
      refine ⟨by simpa using dead, ?_⟩
      intro empty
      have still : s.accessLog = 0 := by simpa using empty
      rcases tested still with rfl | rfl | rfl
      · exact .inr (.inl rfl)
      · exact .inr (.inr (by simp [cleanLine, still]))
      · exact .inl rfl
    · cases ran
      simp [OnceSound]
  | cleaner =>
    simp only [step, cleanerLine] at ran
    split at ran
    · split at ran
      · cases ran
      · cases ran
        exact sound
    · cases ran
      intro pc inside
      simpa using sound pc (by simpa using inside)
  | request =>
    simp only [step] at ran
    split at ran
    · rename_i alive
      cases ran
      intro pc inside
      simp [(sound pc inside).1] at alive
    · cases ran
  | rotate =>
    simp only [step] at ran
    split at ran
    · rename_i alive
      cases ran
      intro pc inside
      simp [(sound pc inside).1] at alive
    · cases ran
  | die =>
    simp only [step] at ran
    split at ran
    · rename_i alive
      cases ran
      intro pc inside
      simp [(sound pc inside).1] at alive
    · cases ran

theorem step_stuck (sound : OnceSound s) (stuck : Stuck s) (ran : step s e = some t) : Stuck t := by
  obtain ⟨dead, ⟨pc, inside, waiting⟩, empty⟩ := stuck
  cases e with
  | master =>
    rcases (sound pc inside).2 empty with rfl | rfl | rfl
    · simp only [step, masterLine, inside] at ran
      cases ran
      exact ⟨dead, ⟨_, rfl, by simp [cleanLine]⟩, empty⟩
    · simp only [step, masterLine, inside] at ran
      cases ran
      exact ⟨dead, ⟨_, rfl, by simp [cleanLine, empty]⟩, empty⟩
    · simp only [step, masterLine, inside] at ran
      cases ran
      exact ⟨dead, ⟨_, rfl, by simp [cleanLine]⟩, empty⟩
  | cleaner =>
    simp only [step, cleanerLine] at ran
    split at ran
    · split at ran
      · cases ran
      · cases ran
        exact ⟨dead, ⟨pc, inside, waiting⟩, empty⟩
    · cases ran
      exact ⟨by simpa using dead, ⟨pc, by simpa using inside, waiting⟩, by simpa using empty⟩
  | request => simp [step, dead] at ran
  | rotate => simp [step, dead] at ran
  | die => simp [step, dead] at ran

/-- Once stuck, always stuck: squid is never started again. -/
theorem stuck_forever (reached : run step (initial leftover rotated) events = some s)
    (stuck : Stuck s) (later : run step s more = some t) : Stuck t := by
  have sound : OnceSound s :=
    run_invariant (fun _ _ _ => step_onceSound) (by simp [OnceSound, initial]) reached
  have keep : ∀ s e t, OnceSound s ∧ Stuck s → step s e = some t → OnceSound t ∧ Stuck t :=
    fun _ _ _ holds taken => ⟨step_onceSound holds.1 taken, step_stuck holds.1 holds.2 taken⟩
  exact (run_invariant keep ⟨sound, stuck⟩ later).2

/-- A death with an empty log, whatever happened before, is the death the
supervisor does not survive: its next line leaves it stuck. -/
theorem silent_death_sticks (waiting : s.master = .squid) (silent : s.accessLog = 0)
    (died : step s .die = some t) (noticed : step t .master = some u) : Stuck u := by
  simp only [step] at died
  split at died
  · cases died
    simp only [step, masterLine, waiting] at noticed
    cases noticed
    exact ⟨rfl, ⟨.df, rfl, by decide⟩, silent⟩
  · cases died

end Fdgw.Supervisor
